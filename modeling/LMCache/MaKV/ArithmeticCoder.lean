import LMCache.Lib.Bytes
import LMCache.Lib.IntervalCoder

/-!
# The reference arithmetic coder

The coder of one channel, and the cumulative counts it codes with. Integers of the source
are masked to 32 bits where the source masks them; the loops that double the interval run
to their break, which they reach within 33 rounds.
-/

namespace LMCache.MaKV

open Lib

/-- `calculate_cdf` for one channel: the counts below each bin, scaled to 16 bits, with one
more for every bin. -/
def calculateCdf (symbols : List Nat) (numBins : Nat) : List Nat :=
  (List.range (numBins + 1)).map fun i =>
    let below := symbols.countP fun s => min s (numBins - 1) < i
    let normalized :=
      if 0 < symbols.length then (0xFFFF - numBins) * below / max symbols.length 1 + i else i
    normalized % 2 ^ 16

def maxSymbol (cdf : List Nat) : Nat := cdf.length - 2

/-- The share of a symbol; the last symbol takes what is left of 2^16. -/
def symbolShare (cdf : List Nat) (sym : Nat) : Nat × Nat :=
  (cdf.getD sym 0, if sym = maxSymbol cdf then 0x10000 else cdf.getD (sym + 1) 0)

/-- `(high - low + 1) & MASK32`, where zero stands for 2^32. -/
def spanOf (low high : Nat) : Nat :=
  let span := (high + 1 + 2 ^ 32 - low) % 2 ^ 32
  if span = 0 then 0x100000000 else span

/-- The interval of a symbol. -/
def narrowed (cdf : List Nat) (sym low high : Nat) : Interval :=
  let span := spanOf low high
  let share := symbolShare cdf sym
  ⟨(low + span * share.1 / 2 ^ 16) % 2 ^ 32,
    (low + span * share.2 / 2 ^ 16 + (2 ^ 32 - 1)) % 2 ^ 32⟩

def doubledLow (low : Nat) : Nat := 2 * low % 2 ^ 32

def doubledHigh (high : Nat) : Nat := (2 * high + 1) % 2 ^ 32

def middleLow (low : Nat) : Nat := 2 * low % 2 ^ 31

def middleHigh (high : Nat) : Nat := (2 * high ||| 0x80000001) % 2 ^ 32

/-- The output register and the bytes that were written. -/
structure BitOutput where
  reg : Nat
  regLen : Nat
  out : Bytes

/-- A full register is written when the buffer has room, and lost when not. -/
def BitOutput.push (bufSize : Nat) (o : BitOutput) (bit : Bool) : BitOutput :=
  let reg := 2 * o.reg + bit.toNat
  if o.regLen + 1 = 8 then
    ⟨0, 0, if o.out.length < bufSize then o.out ++ [UInt8.ofNat (reg % 256)] else o.out⟩
  else ⟨reg, o.regLen + 1, o.out⟩

def BitOutput.pushAll (bufSize : Nat) (o : BitOutput) (bits : List Bool) : BitOutput :=
  bits.foldl (BitOutput.push bufSize) o

structure EncoderState where
  low : Nat
  high : Nat
  pendingBits : Nat
  output : BitOutput

/-- One round of the loop that doubles the interval; nothing at its break. -/
def encoderRound (bufSize : Nat) (s : EncoderState) : Option EncoderState :=
  if s.high.testBit 31 = s.low.testBit 31 then
    let bit := s.high.testBit 31
    some ⟨doubledLow s.low, doubledHigh s.high, 0,
      s.output.pushAll bufSize (bit :: List.replicate s.pendingBits !bit)⟩
  else if s.low.testBit 30 ∧ ¬s.high.testBit 30 then
    some ⟨middleLow s.low, middleHigh s.high, s.pendingBits + 1, s.output⟩
  else none

def encoderRounds (bufSize : Nat) : Nat → EncoderState → EncoderState
  | 0, s => s
  | fuel + 1, s =>
    match encoderRound bufSize s with
    | none => s
    | some s' => encoderRounds bufSize fuel s'

def encodeSymbol (bufSize : Nat) (cdf : List Nat) (s : EncoderState) (sym : Nat) : EncoderState :=
  let i := narrowed cdf sym s.low s.high
  encoderRounds bufSize 33 { s with low := i.low, high := i.high }

/-- The register, filled up with zeros. -/
def BitOutput.close (bufSize : Nat) (o : BitOutput) : Bytes :=
  if 0 < o.regLen ∧ o.out.length < bufSize then
    o.out ++ [UInt8.ofNat (o.reg * 2 ^ (8 - o.regLen) % 256)]
  else o.out

/-- The last bits: one that tells the half, and its complements. -/
def finishEncoding (bufSize : Nat) (s : EncoderState) : Bytes :=
  let bit := s.low.testBit 30
  (s.output.pushAll bufSize (bit :: List.replicate (s.pendingBits + 1) !bit)).close bufSize

def encodeSingleChannel (cdf symChannel : List Nat) (bufSize : Nat) : Bytes :=
  finishEncoding bufSize
    (symChannel.foldl (encodeSymbol bufSize cdf) ⟨0, 0xFFFFFFFF, 0, ⟨0, 0, []⟩⟩)

/-- A byte of the stream of a channel; zero behind its end. -/
def streamByte (bs : Bytes) (endOff offset : Nat) : Nat :=
  if offset < endOff then (bs.getD offset 0).toNat else 0

structure DecoderState where
  value : Nat
  low : Nat
  high : Nat
  byteOffset : Nat
  bitIdx : Nat
  byteBuffer : Nat

def DecoderState.nextBit (s : DecoderState) : Nat := (s.byteBuffer.testBit (8 - s.bitIdx)).toNat

/-- The next byte, when the bits of the last one are used up. -/
def DecoderState.refill (bs : Bytes) (endOff : Nat) (s : DecoderState) : DecoderState :=
  if s.bitIdx = 9 then
    { s with
      bitIdx := 1
      byteOffset := s.byteOffset + 1
      byteBuffer := streamByte bs endOff (s.byteOffset + 1) }
  else s

/-- One round of the loop that doubles the interval; nothing at its break. -/
def decoderRound (bs : Bytes) (endOff : Nat) (s : DecoderState) : Option DecoderState :=
  if 0x80000000 ≤ s.low ∨ s.high < 0x80000000 then
    some (DecoderState.refill bs endOff { s with
      value := (2 * s.value + s.nextBit) % 2 ^ 32
      low := doubledLow s.low
      high := doubledHigh s.high
      bitIdx := s.bitIdx + 1 })
  else if 0x40000000 ≤ s.low ∧ s.high < 0xC0000000 then
    some (DecoderState.refill bs endOff { s with
      value := (2 * ((s.value + 2 ^ 32 - 0x40000000) % 2 ^ 32) + s.nextBit) % 2 ^ 32
      low := middleLow s.low
      high := middleHigh s.high
      bitIdx := s.bitIdx + 1 })
  else none

def decoderRounds (bs : Bytes) (endOff : Nat) : Nat → DecoderState → DecoderState
  | 0, s => s
  | fuel + 1, s =>
    match decoderRound bs endOff s with
    | none => s
    | some s' => decoderRounds bs endOff fuel s'

def searchSymbol (cdf : List Nat) (count : Nat) : Nat → Nat → Nat → Nat
  | 0, left, _ => left
  | fuel + 1, left, right =>
    if left + 1 < right then
      let m := (left + right) / 2
      if cdf.getD m 0 < count then searchSymbol cdf count fuel m right
      else if count < cdf.getD m 0 then searchSymbol cdf count fuel left m
      else m
    else left

/-- The symbol of a count, by at most as many rounds as there are symbols. -/
def symbolOf (cdf : List Nat) (count : Nat) : Nat :=
  searchSymbol cdf count (maxSymbol cdf + 1) 0 (maxSymbol cdf + 1)

def decodedSymbol (cdf : List Nat) (s : DecoderState) : Nat :=
  let span := spanOf s.low s.high
  let vMinusL := (s.value + 2 ^ 32 - s.low) % 2 ^ 32
  symbolOf cdf (((vMinusL + 1) * 0x10000 - 1) / span % 2 ^ 16)

def decodeSymbol (bs : Bytes) (endOff : Nat) (cdf : List Nat) (s : DecoderState) (sym : Nat) :
    DecoderState :=
  let i := narrowed cdf sym s.low s.high
  decoderRounds bs endOff 33 { s with low := i.low, high := i.high }

/-- The symbols of a channel; behind the last one the state is not advanced. -/
def decodeSymbols (bs : Bytes) (endOff : Nat) (cdf : List Nat) : Nat → DecoderState → List Nat
  | 0, _ => []
  | n + 1, s =>
    let sym := decodedSymbol cdf s
    if n = 0 then [sym]
    else sym :: decodeSymbols bs endOff cdf n (decodeSymbol bs endOff cdf s sym)

/-- The first four bytes of a channel, when the streams are long enough. -/
def firstValue (bs : Bytes) (startOff : Nat) : Nat :=
  if startOff + 4 ≤ bs.length then
    (bs.getD startOff 0).toNat * 2 ^ 24 + (bs.getD (startOff + 1) 0).toNat * 2 ^ 16 +
      (bs.getD (startOff + 2) 0).toNat * 2 ^ 8 + (bs.getD (startOff + 3) 0).toNat
  else 0

def decodeSingleChannel (cdf : List Nat) (bs : Bytes) (startOff endOff nTokens : Nat) : List Nat :=
  decodeSymbols bs endOff cdf nTokens
    ⟨firstValue bs startOff, 0, 0xFFFFFFFF, startOff + 4, 1, streamByte bs endOff (startOff + 4)⟩

/-- `lengths.cumsum(0)`. -/
def cumulative (lengths : List Nat) : List Nat :=
  (List.range lengths.length).map fun i => (lengths.take (i + 1)).sum

/-- `decode_fast_prefsum`: the channels, one stream behind the other. -/
def decodeFastPrefsum (cdfs : List (List Nat)) (bytestreams : Bytes) (lengthsPrefsum : List Nat)
    (nTokens : Nat) : List (List Nat) :=
  let padSize := lengthsPrefsum.foldl max 0 + 4 - bytestreams.length
  let bs := bytestreams ++ List.replicate padSize 0
  (List.range lengthsPrefsum.length).map fun cid =>
    decodeSingleChannel (cdfs.getD cid []) bs
      (if cid = 0 then 0 else lengthsPrefsum.getD (cid - 1) 0) (lengthsPrefsum.getD cid 0) nTokens

end LMCache.MaKV
