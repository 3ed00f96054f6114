import Mathlib.Data.Nat.Bitwise
import LMCache.Lib.Tensor
import LMCache.MaKV.ArithmeticCoder

/-!
# The arithmetic coder is lossless

The encoder writes the bits of the interval code of its symbols, as long as the buffer has
room for them, and the decoder reads them back from any bytes that begin with them. The
bits that are pending stand between the first bit of the code that is left and the rest of
it.
-/

namespace LMCache.MaKV

open Lib Interval List Option Nat

theorem testBit_31 {n : Nat} (h : n < 2 ^ 32) : n.testBit 31 = decide (2 ^ 31 ≤ n) := by
  rw [testBit_eq_decide_div_mod_eq]
  congr 1
  rw [eq_iff_iff]
  omega

theorem testBit_30 {n : Nat} (h : n < 2 ^ 31) : n.testBit 30 = decide (2 ^ 30 ≤ n) := by
  rw [testBit_eq_decide_div_mod_eq]
  congr 1
  rw [eq_iff_iff]
  omega

theorem testBit_30_high {n : Nat} (hLow : 2 ^ 31 ≤ n) (hHigh : n < 2 ^ 32) :
    n.testBit 30 = decide (3 * 2 ^ 30 ≤ n) := by
  rw [testBit_eq_decide_div_mod_eq]
  congr 1
  rw [eq_iff_iff]
  omega

theorem middleHigh_eq {high : Nat} (hLow : 2 ^ 31 ≤ high) (hHigh : high < 3 * 2 ^ 30) :
    middleHigh high = 2 * (high - 2 ^ 30) + 1 := by
  have hLift : 2 * high % 2 ^ 32 = 2 * (high - 2 ^ 31) := by omega
  have hOdd : (2 * (high - 2 ^ 31)) ||| 1 = 2 * (high - 2 ^ 31) + 1 := by
    have hOr := shiftLeft_add_eq_or_of_lt (show 1 < 2 ^ 1 by decide) (high - 2 ^ 31)
    rw [shiftLeft_eq] at hOr
    rw [mul_comm]
    exact hOr.symm
  have hTop := two_pow_add_eq_or_of_lt (show 2 * (high - 2 ^ 31) + 1 < 2 ^ 31 by omega) 1
  rw [middleHigh, or_mod_two_pow, hLift, show 0x80000001 % 2 ^ 32 = 1 ||| 2 ^ 31 * 1 from rfl,
    ← Nat.or_assoc, hOdd, Nat.or_comm, ← hTop]
  omega

theorem doubled_half {i : Interval} (hValid : i.Valid) {b : Bool}
    (h : i.doubling? = some (.half b)) :
    Interval.doubled (.half b) i = ⟨doubledLow i.low, doubledHigh i.high⟩ := by
  obtain ⟨hFrom, hTo⟩ := doubling?_eq_some hValid h
  obtain ⟨hOrder, -⟩ := hValid
  cases b <;> simp only [Interval.doubled, Interval.offset, doubledLow, doubledHigh,
    Interval.mk.injEq] at hFrom hTo ⊢ <;> omega

theorem doubled_middle {i : Interval} (hLow : 2 ^ 30 ≤ i.low) (hLow' : i.low < 2 ^ 31)
    (hHigh : 2 ^ 31 ≤ i.high) (hHigh' : i.high < 3 * 2 ^ 30) :
    Interval.doubled .middle i = ⟨middleLow i.low, middleHigh i.high⟩ := by
  rw [middleHigh_eq hHigh hHigh']
  simp only [Interval.doubled, Interval.offset, middleLow, Interval.mk.injEq, and_true]
  omega

theorem doubling?_cases {i : Interval} (hValid : i.Valid) :
    (i.high < 2 ^ 31 ∧ i.doubling? = some (.half false)) ∨
    (2 ^ 31 ≤ i.low ∧ i.doubling? = some (.half true)) ∨
    (2 ^ 30 ≤ i.low ∧ i.low < 2 ^ 31 ∧ 2 ^ 31 ≤ i.high ∧ i.high < 3 * 2 ^ 30 ∧
      i.doubling? = some .middle) ∨
    (i.low < 2 ^ 31 ∧ 2 ^ 31 ≤ i.high ∧ ¬(2 ^ 30 ≤ i.low ∧ i.high < 3 * 2 ^ 30) ∧
      i.doubling? = none) := by
  have hOrder := hValid.le
  unfold Interval.doubling?
  split_ifs with hLower hUpper hMiddle
  · exact Or.inl ⟨hLower, rfl⟩
  · exact Or.inr (Or.inl ⟨hUpper, rfl⟩)
  · exact Or.inr (Or.inr (Or.inl ⟨hMiddle.1, by omega, by omega, hMiddle.2, rfl⟩))
  · exact Or.inr (Or.inr (Or.inr ⟨by omega, by omega, hMiddle, rfl⟩))

theorem spanOf_eq {i : Interval} (hValid : i.Valid) : spanOf i.low i.high = i.span := by
  obtain ⟨hOrder, hHigh⟩ := hValid
  simp only [spanOf, Interval.span]
  split_ifs <;> omega

theorem narrowed_eq {cdf : List Nat} {sym : Nat} {i : Interval} (hSettled : i.Settled)
    (hOrder : (symbolShare cdf sym).1 < (symbolShare cdf sym).2)
    (hTop : (symbolShare cdf sym).2 ≤ 2 ^ 16) :
    narrowed cdf sym i.low i.high = i.narrow (symbolShare cdf sym).1 (symbolShare cdf sym).2 := by
  have hSpan := hSettled.span_gt
  obtain ⟨⟨hLe, hLt⟩, -, -⟩ := valid_narrow hSettled.valid hOrder hTop (by omega)
  have hStep : i.span ≤ i.span * (symbolShare cdf sym).2 := Nat.le_mul_of_pos_right _ (by omega)
  simp only [narrowed, spanOf_eq hSettled.valid]
  simp only [Interval.narrow] at hLe hLt ⊢
  rw [Interval.mk.injEq]
  omega

/-- The lowest `n` bits of a number, the highest first. -/
def lowBits (n value : Nat) : List Bool := (List.range n).map fun k => value.testBit (n - 1 - k)

def byteBits (b : UInt8) : List Bool := lowBits 8 b.toNat

@[simp] theorem length_lowBits (n value : Nat) : (lowBits n value).length = n := by
  rw [lowBits, length_map, length_range]

theorem lowBits_succ (n value : Nat) (bit : Bool) :
    lowBits (n + 1) (2 * value + bit.toNat) = lowBits n value ++ [bit] := by
  rw [lowBits, range_succ, map_append, lowBits, map_singleton]
  congr 1
  · refine map_congr_left fun k hk => ?_
    rw [mem_range] at hk
    rw [show n + 1 - 1 - k = (n - 1 - k) + 1 by omega, testBit_succ]
    congr 1
    cases bit <;> simp only [Bool.toNat_true, Bool.toNat_false] <;> omega
  · rw [Nat.add_sub_cancel, Nat.sub_self, testBit_zero]
    cases bit <;> simp

theorem lowBits_mul_two_pow (n m value : Nat) :
    lowBits (n + m) (value * 2 ^ m) = lowBits n value ++ List.replicate m false := by
  induction m with
  | zero => simp
  | succ m ih =>
    have hDouble : value * 2 ^ (m + 1) = 2 * (value * 2 ^ m) + false.toNat := by
      rw [Bool.toNat_false, pow_succ]
      ring
    rw [← add_assoc, hDouble, lowBits_succ, ih, append_assoc, replicate_succ']

namespace BitOutput

def bits (o : BitOutput) : List Bool := o.out.flatMap byteBits ++ lowBits o.regLen o.reg

structure WellFormed (o : BitOutput) : Prop where
  regLen_lt : o.regLen < 8
  reg_lt : o.reg < 2 ^ o.regLen

theorem length_bits (o : BitOutput) : o.bits.length = 8 * o.out.length + o.regLen := by
  rw [bits, length_append, length_lowBits,
    Tensor.length_flatMap_const o.out byteBits fun b _ => length_lowBits 8 b.toNat]
  omega

theorem push_spec (bufSize : Nat) {o : BitOutput} (h : o.WellFormed) (bit : Bool)
    (hRoom : o.bits.length < 8 * bufSize) :
    (o.push bufSize bit).WellFormed ∧ (o.push bufSize bit).bits = o.bits ++ [bit] := by
  obtain ⟨hLen, hReg⟩ := h
  have hBit : bit.toNat ≤ 1 := Bool.toNat_le bit
  rw [length_bits] at hRoom
  unfold push
  split_ifs with hFull hSpace
  · have hSeven : o.regLen = 7 := by omega
    rw [hSeven] at hReg
    refine ⟨⟨zero_lt_succ 7, one_pos⟩, ?_⟩
    have hByte : byteBits (UInt8.ofNat ((2 * o.reg + bit.toNat) % 256)) =
        lowBits 7 o.reg ++ [bit] := by
      rw [byteBits, UInt8.toNat_ofNat', mod_mod, mod_eq_of_lt (by omega), lowBits_succ]
    simp only [bits, flatMap_append, flatMap_singleton, hByte, hSeven]
    simp [lowBits]
  · omega
  · refine ⟨⟨by dsimp only; omega, ?_⟩, ?_⟩
    · dsimp only
      rw [pow_succ]
      omega
    · simp only [bits, lowBits_succ, append_assoc]

theorem pushAll_spec (bufSize : Nat) {o : BitOutput} (h : o.WellFormed) (bs : List Bool)
    (hRoom : o.bits.length + bs.length ≤ 8 * bufSize) :
    (o.pushAll bufSize bs).WellFormed ∧ (o.pushAll bufSize bs).bits = o.bits ++ bs := by
  induction bs generalizing o with
  | nil => exact ⟨h, (append_nil _).symm⟩
  | cons bit bs ih =>
    rw [length_cons] at hRoom
    obtain ⟨hPush, hBits⟩ := push_spec bufSize h bit (by omega)
    have hLength : (o.push bufSize bit).bits.length = o.bits.length + 1 := by
      rw [hBits, length_append, length_singleton]
    obtain ⟨hAll, hAllBits⟩ := ih hPush (by omega)
    refine ⟨hAll, ?_⟩
    change (BitOutput.pushAll bufSize (o.push bufSize bit) bs).bits = _
    rw [hAllBits, hBits, append_assoc]
    rfl

end BitOutput

/-- The bits of a code, with the pending bits behind the first one. -/
def insertPending (pending : Nat) : List Bool → List Bool
  | [] => []
  | b :: bits => b :: (List.replicate pending (!b) ++ bits)

theorem insertPending_cons (pending : Nat) (b : Bool) (bits : List Bool) :
    insertPending pending (b :: bits) = b :: (List.replicate pending (!b) ++ bits) := rfl

theorem insertPending_zero (bits : List Bool) : insertPending 0 bits = bits := by
  cases bits <;> rfl

theorem insertPending_middle (pending : Nat) (bits : List Bool) :
    insertPending (pending + 1) bits = insertPending pending (Doubling.prepend .middle bits) := by
  cases bits with
  | nil => rfl
  | cons b bits =>
    simp only [insertPending, Doubling.prepend, replicate_succ', append_assoc]
    rfl

namespace EncoderState

def interval (s : EncoderState) : Interval := ⟨s.low, s.high⟩

def withInterval (s : EncoderState) (i : Interval) : EncoderState :=
  { s with low := i.low, high := i.high }

/-- The bits an encoder will have written when the bits of its code are `bits`. -/
def total (s : EncoderState) (bits : List Bool) : List Bool :=
  s.output.bits ++ insertPending s.pendingBits bits

end EncoderState

theorem highBits_of_valid {low high : Nat} (hOrder : low ≤ high) (hHigh : high < 2 ^ 32) :
    high.testBit 31 = decide (2 ^ 31 ≤ high) ∧ low.testBit 31 = decide (2 ^ 31 ≤ low) ∧
      (low < 2 ^ 31 → 2 ^ 31 ≤ high → ((low.testBit 30 = true ∧ ¬high.testBit 30 = true) ↔
        2 ^ 30 ≤ low ∧ high < 3 * 2 ^ 30)) := by
  refine ⟨testBit_31 hHigh, testBit_31 (by omega), ?_⟩
  intro hLow hUpper
  rw [testBit_30 hLow, testBit_30_high hUpper hHigh, decide_eq_true_iff, decide_eq_true_iff,
    not_le]

theorem encoderRound_half {bufSize : Nat} {s : EncoderState} (hValid : s.interval.Valid)
    (hOutput : s.output.WellFormed) {bits : List Bool} {b : Bool}
    (hStep : s.interval.doubling? = some (.half b)) (hHighBit : s.high.testBit 31 = b)
    (hLowBit : s.low.testBit 31 = b)
    (hRoom : (s.total (Doubling.prepend (.half b) bits)).length ≤ 8 * bufSize) :
    ∃ s', encoderRound bufSize s = some s' ∧
      s'.interval = Interval.doubled (.half b) s.interval ∧
      s'.output.WellFormed ∧ s'.total bits = s.total (Doubling.prepend (.half b) bits) := by
  simp only [EncoderState.total, Doubling.prepend, insertPending_cons, length_append,
    length_cons] at hRoom
  obtain ⟨hPushed, hPushedBits⟩ := BitOutput.pushAll_spec bufSize hOutput
    (b :: List.replicate s.pendingBits (!b)) (by simp only [length_cons]; omega)
  refine ⟨_, by rw [encoderRound, if_pos (hHighBit.trans hLowBit.symm), hHighBit], ?_, hPushed, ?_⟩
  · exact (doubled_half hValid hStep).symm
  · simp only [EncoderState.total, insertPending_zero, hPushedBits, Doubling.prepend,
      insertPending_cons, append_assoc, cons_append]

theorem encoderRound_spec {bufSize : Nat} {s : EncoderState} (hValid : s.interval.Valid)
    (hOutput : s.output.WellFormed) {d : Doubling} (hStep : s.interval.doubling? = some d)
    {bits : List Bool} (hRoom : (s.total (d.prepend bits)).length ≤ 8 * bufSize) :
    ∃ s', encoderRound bufSize s = some s' ∧ s'.interval = Interval.doubled d s.interval ∧
      s'.output.WellFormed ∧ s'.total bits = s.total (d.prepend bits) := by
  obtain ⟨hHighBit, hLowBit, hSecond⟩ := highBits_of_valid hValid.le hValid.high_lt
  have hOrder := hValid.le
  rcases doubling?_cases hValid with ⟨hLower, hWhich⟩ | ⟨hUpper, hWhich⟩ |
      ⟨hFrom, hFrom', hTo, hTo', hWhich⟩ | ⟨-, -, -, hWhich⟩
  · obtain rfl := some.inj (hWhich.symm.trans hStep)
    refine encoderRound_half hValid hOutput hStep (hHighBit.trans ?_) (hLowBit.trans ?_) hRoom
    · exact decide_eq_false (not_le.mpr hLower)
    · exact decide_eq_false (not_le.mpr (lt_of_le_of_lt hOrder hLower))
  · obtain rfl := some.inj (hWhich.symm.trans hStep)
    refine encoderRound_half hValid hOutput hStep (hHighBit.trans ?_) (hLowBit.trans ?_) hRoom
    · exact decide_eq_true (le_trans hUpper hOrder)
    · exact decide_eq_true hUpper
  · obtain rfl := some.inj (hWhich.symm.trans hStep)
    have hTop : s.high.testBit 31 = true := hHighBit.trans (decide_eq_true hTo)
    have hBottom : s.low.testBit 31 = false :=
      hLowBit.trans (decide_eq_false (not_le.mpr hFrom'))
    refine ⟨⟨middleLow s.low, middleHigh s.high, s.pendingBits + 1, s.output⟩, ?_,
      (doubled_middle hFrom hFrom' hTo hTo').symm, hOutput, ?_⟩
    · rw [encoderRound, if_neg (by rw [hTop, hBottom]; decide)]
      exact if_pos ((hSecond hFrom' hTo).mpr ⟨hFrom, hTo'⟩)
    · simp only [EncoderState.total, insertPending_middle]
  · rw [hWhich] at hStep
    cases hStep

theorem encoderRound_none {bufSize : Nat} {s : EncoderState} (hValid : s.interval.Valid)
    (hStep : s.interval.doubling? = none) : encoderRound bufSize s = none := by
  obtain ⟨hHighBit, hLowBit, hSecond⟩ := highBits_of_valid hValid.le hValid.high_lt
  rcases doubling?_cases hValid with ⟨-, hWhich⟩ | ⟨-, hWhich⟩ | ⟨-, -, -, -, hWhich⟩ |
      ⟨hFrom, hTo, hWide, -⟩
  · rw [hWhich] at hStep
    cases hStep
  · rw [hWhich] at hStep
    cases hStep
  · rw [hWhich] at hStep
    cases hStep
  · have hTop : s.high.testBit 31 = true := hHighBit.trans (decide_eq_true hTo)
    have hBottom : s.low.testBit 31 = false :=
      hLowBit.trans (decide_eq_false (not_le.mpr hFrom))
    rw [encoderRound, if_neg (by rw [hTop, hBottom]; decide)]
    exact if_neg fun hBoth => hWide ((hSecond hFrom hTo).mp hBoth)

theorem encoderRounds_spec {bufSize fuel : Nat} {s : EncoderState} (hValid : s.interval.Valid)
    (hOutput : s.output.WellFormed) {bits : List Bool}
    (hRoom : (s.total (prependAll (s.interval.normalize fuel).1 bits)).length ≤ 8 * bufSize) :
    (encoderRounds bufSize fuel s).interval = (s.interval.normalize fuel).2 ∧
      (encoderRounds bufSize fuel s).output.WellFormed ∧
      (encoderRounds bufSize fuel s).total bits =
        s.total (prependAll (s.interval.normalize fuel).1 bits) := by
  induction fuel generalizing s with
  | zero => exact ⟨rfl, hOutput, rfl⟩
  | succ fuel ih =>
    rw [Interval.normalize] at hRoom ⊢
    cases hStep : s.interval.doubling? with
    | none =>
      rw [encoderRounds, encoderRound_none hValid hStep]
      exact ⟨rfl, hOutput, rfl⟩
    | some d =>
      rw [hStep] at hRoom
      have hHere : (s.total (d.prepend (prependAll
          ((Interval.doubled d s.interval).normalize fuel).1 bits))).length ≤ 8 * bufSize := hRoom
      obtain ⟨s', hRound, hInterval, hOutput', hTotal⟩ :=
        encoderRound_spec hValid hOutput hStep hHere
      obtain ⟨hDoubled, -⟩ := valid_doubled hValid hStep
      rw [← hInterval] at hDoubled
      have hRest := ih hDoubled hOutput' (by rw [hInterval, hTotal]; exact hRoom)
      rw [hInterval, hTotal] at hRest
      rw [encoderRounds, hRound]
      exact hRest

/-- The shares of symbols that a coder can code. -/
def Codable (cdf symbols : List Nat) : Prop := Shares (symbols.map (symbolShare cdf))

theorem encodeSymbol_spec {bufSize sym : Nat} {cdf rest : List Nat} {s : EncoderState}
    (hSettled : s.interval.Settled) (hOutput : s.output.WellFormed)
    (hCodable : Codable cdf (sym :: rest))
    (hRoom : (s.total (codeBits s.interval ((sym :: rest).map (symbolShare cdf)))).length ≤
      8 * bufSize) :
    (encodeSymbol bufSize cdf s sym).interval.Settled ∧
      (encodeSymbol bufSize cdf s sym).output.WellFormed ∧
      (encodeSymbol bufSize cdf s sym).total
        (codeBits (encodeSymbol bufSize cdf s sym).interval (rest.map (symbolShare cdf))) =
        s.total (codeBits s.interval ((sym :: rest).map (symbolShare cdf))) := by
  obtain ⟨hOrder, hTop⟩ := hCodable (symbolShare cdf sym) (by simp)
  have hSpan := hSettled.span_gt
  have hNarrowed := narrowed_eq hSettled hOrder hTop
  obtain ⟨hValid, -, -⟩ := valid_narrow hSettled.valid hOrder hTop (by omega)
  have hNext := settled_step hSettled hOrder hTop
  have hEncode : encodeSymbol bufSize cdf s sym = encoderRounds bufSize 33
      (s.withInterval (narrowed cdf sym s.interval.low s.interval.high)) := rfl
  rw [map_cons, codeBits_cons] at hRoom ⊢
  rw [hEncode, hNarrowed]
  generalize s.interval.narrow (symbolShare cdf sym).1 (symbolShare cdf sym).2 = i at *
  obtain ⟨hAfter, hAfterOutput, hTotal⟩ :=
    @encoderRounds_spec bufSize 33 (s.withInterval i) hValid hOutput _ hRoom
  rw [hAfter]
  exact ⟨hNext, hAfterOutput, hTotal⟩

theorem encodeSymbols_spec {bufSize : Nat} {cdf symbols : List Nat} {s : EncoderState}
    (hSettled : s.interval.Settled) (hOutput : s.output.WellFormed) (hCodable : Codable cdf symbols)
    (hRoom : (s.total (codeBits s.interval (symbols.map (symbolShare cdf)))).length ≤ 8 * bufSize) :
    (symbols.foldl (encodeSymbol bufSize cdf) s).interval.Settled ∧
      (symbols.foldl (encodeSymbol bufSize cdf) s).output.WellFormed ∧
      (symbols.foldl (encodeSymbol bufSize cdf) s).total
        (codeBits (symbols.foldl (encodeSymbol bufSize cdf) s).interval []) =
        s.total (codeBits s.interval (symbols.map (symbolShare cdf))) := by
  induction symbols generalizing s with
  | nil => exact ⟨hSettled, hOutput, rfl⟩
  | cons sym rest ih =>
    obtain ⟨hNext, hNextOutput, hTotal⟩ := encodeSymbol_spec hSettled hOutput hCodable hRoom
    have hRest := ih hNext hNextOutput (fun t ht => hCodable t (mem_cons_of_mem _ ht))
      (by rw [hTotal]; exact hRoom)
    rw [hTotal] at hRest
    exact hRest

/-- The bits a list of bytes makes, of a code that is filled up to whole bytes. -/
def HoldsBits (stream : Bytes) (bits : List Bool) : Prop :=
  stream.length = (bits.length + 7) / 8 ∧
    stream.flatMap byteBits = bits ++ List.replicate (8 * stream.length - bits.length) false

theorem close_spec {bufSize : Nat} {o : BitOutput} (h : o.WellFormed)
    (hRoom : o.bits.length ≤ 8 * bufSize) : HoldsBits (o.close bufSize) o.bits := by
  obtain ⟨hLen, hReg⟩ := h
  have hLength := o.length_bits
  unfold BitOutput.close
  split_ifs with hRest
  · have hSmall : o.reg * 2 ^ (8 - o.regLen) < 256 := by
      calc o.reg * 2 ^ (8 - o.regLen) < 2 ^ o.regLen * 2 ^ (8 - o.regLen) :=
            mul_lt_mul_of_pos_right hReg (Nat.two_pow_pos _)
        _ = 2 ^ 8 := by rw [← pow_add]; congr 1; omega
    have hLast : byteBits (UInt8.ofNat (o.reg * 2 ^ (8 - o.regLen) % 256)) =
        lowBits o.regLen o.reg ++ List.replicate (8 - o.regLen) false := by
      rw [byteBits, UInt8.toNat_ofNat', mod_mod, mod_eq_of_lt hSmall, ← lowBits_mul_two_pow]
      congr 1
      omega
    refine ⟨?_, ?_⟩
    · rw [length_append, length_singleton, hLength]
      omega
    · rw [flatMap_append, flatMap_singleton, hLast, hLength, length_append,
        length_singleton, BitOutput.bits, append_assoc]
      congr 3
      omega
  · have hEmpty : o.regLen = 0 := by omega
    have hAll : o.bits = o.out.flatMap byteBits := by
      rw [BitOutput.bits, hEmpty]
      exact append_nil _
    refine ⟨by omega, ?_⟩
    rw [hLength, hEmpty, add_zero, Nat.sub_self, hAll, replicate_zero, append_nil]

theorem finishEncoding_spec {bufSize : Nat} {s : EncoderState} (hSettled : s.interval.Settled)
    (hOutput : s.output.WellFormed)
    (hRoom : (s.total (codeBits s.interval [])).length ≤ 8 * bufSize) :
    HoldsBits (finishEncoding bufSize s) (s.total (codeBits s.interval [])) := by
  have hBit : codeBits s.interval [] = [s.low.testBit 30, !s.low.testBit 30] := by
    rw [testBit_30 (show s.low < 2 ^ 31 from hSettled.low_lt), codeBits]
    split_ifs with hQuarter
    · rw [decide_eq_false (show ¬2 ^ 30 ≤ s.low from not_le.mpr hQuarter)]
      rfl
    · rw [decide_eq_true (show 2 ^ 30 ≤ s.low from not_lt.mp hQuarter)]
      rfl
  have hTotal : s.total (codeBits s.interval []) = s.output.bits ++
      (s.low.testBit 30 :: List.replicate (s.pendingBits + 1) (!s.low.testBit 30)) := by
    rw [EncoderState.total, hBit, insertPending_cons, replicate_succ']
  rw [hTotal] at hRoom ⊢
  rw [length_append] at hRoom
  obtain ⟨hWellFormed, hBits⟩ := BitOutput.pushAll_spec bufSize hOutput _ hRoom
  rw [← length_append, ← hBits] at hRoom
  rw [← hBits]
  exact close_spec hWellFormed hRoom

theorem encodeSingleChannel_spec {bufSize : Nat} {cdf symbols : List Nat}
    (hCodable : Codable cdf symbols)
    (hRoom : (codeBits Interval.whole (symbols.map (symbolShare cdf))).length ≤ 8 * bufSize) :
    HoldsBits (encodeSingleChannel cdf symbols bufSize)
      (codeBits Interval.whole (symbols.map (symbolShare cdf))) := by
  let start : EncoderState := ⟨0, 0xFFFFFFFF, 0, ⟨0, 0, []⟩⟩
  have hStart : ∀ bits, start.total bits = bits := fun bits => insertPending_zero bits
  have hWellFormed : start.output.WellFormed := ⟨zero_lt_succ 7, one_pos⟩
  obtain ⟨hSettled, hOutput, hTotal⟩ := @encodeSymbols_spec bufSize cdf symbols start
    settled_whole hWellFormed hCodable (by rw [hStart]; exact hRoom)
  rw [hStart] at hTotal
  have hFinish := finishEncoding_spec hSettled hOutput (by rw [hTotal]; exact hRoom)
  rw [hTotal] at hFinish
  exact hFinish

namespace DecoderState

def interval (s : DecoderState) : Interval := ⟨s.low, s.high⟩

def withInterval (s : DecoderState) (i : Interval) : DecoderState :=
  { s with low := i.low, high := i.high }

/-- The bits that the decoder has not shifted in yet. -/
def upcoming (bs : Bytes) (endOff : Nat) (s : DecoderState) (k : Nat) : Bool :=
  (streamByte bs endOff (s.byteOffset + (s.bitIdx - 1 + k) / 8)).testBit
    (7 - (s.bitIdx - 1 + k) % 8)

/-- The decoder reads the string `x`: its value is the first 32 bits. -/
structure Reads (bs : Bytes) (endOff : Nat) (s : DecoderState) (x : Nat → Bool) : Prop where
  value : s.value = topBits 32 x
  upcoming : ∀ k, x (32 + k) = s.upcoming bs endOff k
  bitIdx_pos : 1 ≤ s.bitIdx
  bitIdx_le : s.bitIdx ≤ 8
  byteBuffer : s.byteBuffer = streamByte bs endOff s.byteOffset

theorem Reads.nextBit {bs : Bytes} {endOff : Nat} {s : DecoderState} {x : Nat → Bool}
    (h : s.Reads bs endOff x) : s.nextBit = (x 32).toNat := by
  have hPos := h.bitIdx_pos
  have hLe := h.bitIdx_le
  have hBit := h.upcoming 0
  rw [add_zero, DecoderState.upcoming, add_zero,
    show s.byteOffset + (s.bitIdx - 1) / 8 = s.byteOffset by omega,
    show 7 - (s.bitIdx - 1) % 8 = 8 - s.bitIdx by omega] at hBit
  rw [DecoderState.nextBit, h.byteBuffer, hBit]

theorem Reads.shift {bs : Bytes} {endOff : Nat} {s : DecoderState} {x y : Nat → Bool}
    (h : s.Reads bs endOff x) {value low high : Nat} (hValue : value = topBits 32 y)
    (hNext : ∀ k, y (32 + k) = x (32 + (k + 1))) :
    (refill bs endOff { s with
      value := value, low := low, high := high, bitIdx := s.bitIdx + 1 }).Reads bs endOff y ∧
    (refill bs endOff { s with
      value := value, low := low, high := high, bitIdx := s.bitIdx + 1 }).interval =
      ⟨low, high⟩ := by
  obtain ⟨-, hUpcoming, hPos, hLe, hBuffer⟩ := h
  unfold refill
  split_ifs with hNine
  · refine ⟨⟨hValue, ?_, le_refl 1, show 1 ≤ 8 by decide, rfl⟩, rfl⟩
    intro k
    dsimp only at hNine
    have hByte : s.byteOffset + (s.bitIdx - 1 + (k + 1)) / 8 =
        s.byteOffset + 1 + (1 - 1 + k) / 8 := by omega
    have hPlace : 7 - (s.bitIdx - 1 + (k + 1)) % 8 = 7 - (1 - 1 + k) % 8 := by omega
    rw [hNext, hUpcoming, DecoderState.upcoming, DecoderState.upcoming, hByte, hPlace]
  · refine ⟨⟨hValue, ?_, succ_le_succ (zero_le _), ?_, hBuffer⟩, rfl⟩
    · intro k
      have hPlace : s.bitIdx - 1 + (k + 1) = s.bitIdx + 1 - 1 + k := by omega
      rw [hNext, hUpcoming, DecoderState.upcoming, DecoderState.upcoming, hPlace]
    · dsimp only at hNine ⊢
      omega

end DecoderState

def InInterval (i : Interval) (x : Nat → Bool) : Prop :=
  i.low ≤ topBits 32 x ∧ topBits 32 x ≤ i.high

theorem decoderRound_half {bs : Bytes} {endOff : Nat} {s : DecoderState} {x : Nat → Bool}
    (hReads : s.Reads bs endOff x) (hValid : s.interval.Valid) (hIn : InInterval s.interval x)
    {b : Bool} (hStep : s.interval.doubling? = some (.half b))
    (hCondition : 0x80000000 ≤ s.low ∨ s.high < 0x80000000) :
    ∃ s', decoderRound bs endOff s = some s' ∧
      s'.interval = Interval.doubled (.half b) s.interval ∧
      s'.Reads bs endOff (Doubling.advance (.half b) x) ∧
      InInterval s'.interval (Doubling.advance (.half b) x) := by
  obtain ⟨hLow, hHigh⟩ := hIn
  obtain ⟨hFrom, hTo⟩ := doubling?_eq_some hValid hStep
  have hTail : topBits 32 (Doubling.advance (.half b) x) =
      (2 * topBits 32 x + (x 32).toNat) % 2 ^ 32 := topBits_tail x
  have hValue : (2 * s.value + s.nextBit) % 2 ^ 32 = topBits 32 (Doubling.advance (.half b) x) := by
    rw [hReads.value, hReads.nextBit, hTail]
  have hNext : ∀ k, Doubling.advance (.half b) x (32 + k) = x (32 + (k + 1)) := fun _ => rfl
  obtain ⟨hShift, hInterval⟩ := @DecoderState.Reads.shift bs endOff s x _ hReads _
    (doubledLow s.low) (doubledHigh s.high) hValue hNext
  have hDoubled := hInterval.trans (doubled_half hValid hStep).symm
  refine ⟨_, if_pos hCondition, hDoubled, hShift, ?_⟩
  rw [hDoubled, InInterval, hTail]
  have hBit := Bool.toNat_le (x 32)
  cases b <;> simp only [Interval.doubled, Interval.offset] at hFrom hTo ⊢ <;> omega

theorem decoderRound_middle {bs : Bytes} {endOff : Nat} {s : DecoderState} {x : Nat → Bool}
    (hReads : s.Reads bs endOff x) (hIn : InInterval s.interval x)
    (hLow : 2 ^ 30 ≤ s.interval.low) (hLow' : s.interval.low < 2 ^ 31)
    (hHigh : 2 ^ 31 ≤ s.interval.high) (hHigh' : s.interval.high < 3 * 2 ^ 30) :
    ∃ s', decoderRound bs endOff s = some s' ∧
      s'.interval = Interval.doubled .middle s.interval ∧
      s'.Reads bs endOff (Doubling.advance .middle x) ∧
      InInterval s'.interval (Doubling.advance .middle x) := by
  obtain ⟨hFrom, hTo⟩ := hIn
  have hBit := Bool.toNat_le (x 32)
  have hTail := @Doubling.topBits_middle x (le_trans hLow hFrom) (lt_of_le_of_lt hTo hHigh')
  have hValue : (2 * ((s.value + 2 ^ 32 - 0x40000000) % 2 ^ 32) + s.nextBit) % 2 ^ 32 =
      topBits 32 (Doubling.advance .middle x) := by
    rw [hReads.value, hReads.nextBit, hTail]
    omega
  have hNext : ∀ k, Doubling.advance .middle x (32 + k) = x (32 + (k + 1)) := by
    intro k
    have hLater : ¬32 + k = 0 := by omega
    simp only [Doubling.advance, hLater, if_false, add_assoc]
  obtain ⟨hShift, hInterval⟩ := @DecoderState.Reads.shift bs endOff s x _ hReads _
    (middleLow s.low) (middleHigh s.high) hValue hNext
  have hDoubled := hInterval.trans (doubled_middle hLow hLow' hHigh hHigh').symm
  have hNotHalf : ¬(0x80000000 ≤ s.low ∨ s.high < 0x80000000) := by
    rintro (hBig | hSmall)
    · exact absurd hLow' (not_lt.mpr hBig)
    · exact absurd hHigh (not_le.mpr hSmall)
  refine ⟨_, (if_neg hNotHalf).trans (if_pos ⟨hLow, hHigh'⟩), hDoubled, hShift, ?_⟩
  rw [hDoubled, InInterval, hTail]
  simp only [Interval.doubled, Interval.offset]
  omega

theorem decoderRound_spec {bs : Bytes} {endOff : Nat} {s : DecoderState} {x : Nat → Bool}
    (hReads : s.Reads bs endOff x) (hValid : s.interval.Valid) (hIn : InInterval s.interval x)
    {d : Doubling} (hStep : s.interval.doubling? = some d) :
    ∃ s', decoderRound bs endOff s = some s' ∧ s'.interval = Interval.doubled d s.interval ∧
      s'.Reads bs endOff (d.advance x) ∧ InInterval s'.interval (d.advance x) := by
  rcases doubling?_cases hValid with ⟨hLower, hWhich⟩ | ⟨hUpper, hWhich⟩ |
      ⟨hLow, hLow', hHigh, hHigh', hWhich⟩ | ⟨-, -, -, hWhich⟩
  · obtain rfl := some.inj (hWhich.symm.trans hStep)
    exact decoderRound_half hReads hValid hIn hStep (Or.inr hLower)
  · obtain rfl := some.inj (hWhich.symm.trans hStep)
    exact decoderRound_half hReads hValid hIn hStep (Or.inl hUpper)
  · obtain rfl := some.inj (hWhich.symm.trans hStep)
    exact decoderRound_middle hReads hIn hLow hLow' hHigh hHigh'
  · rw [hWhich] at hStep
    cases hStep

theorem decoderRound_none {bs : Bytes} {endOff : Nat} {s : DecoderState}
    (hValid : s.interval.Valid) (hStep : s.interval.doubling? = none) :
    decoderRound bs endOff s = none := by
  rcases doubling?_cases hValid with ⟨-, hWhich⟩ | ⟨-, hWhich⟩ | ⟨-, -, -, -, hWhich⟩ |
      ⟨hFrom, hTo, hWide, -⟩
  · rw [hWhich] at hStep
    cases hStep
  · rw [hWhich] at hStep
    cases hStep
  · rw [hWhich] at hStep
    cases hStep
  · have hNotHalf : ¬(0x80000000 ≤ s.low ∨ s.high < 0x80000000) := by
      rintro (hBig | hSmall)
      · exact absurd hFrom (not_lt.mpr hBig)
      · exact absurd hTo (not_le.mpr hSmall)
    exact (if_neg hNotHalf).trans (if_neg hWide)

theorem decoderRounds_spec {bs : Bytes} {endOff fuel : Nat} {s : DecoderState} {x : Nat → Bool}
    (hReads : s.Reads bs endOff x) (hValid : s.interval.Valid) (hIn : InInterval s.interval x) :
    (decoderRounds bs endOff fuel s).interval = (s.interval.normalize fuel).2 ∧
      (decoderRounds bs endOff fuel s).Reads bs endOff
        (advanceAll (s.interval.normalize fuel).1 x) := by
  induction fuel generalizing s x with
  | zero => exact ⟨rfl, hReads⟩
  | succ fuel ih =>
    rw [Interval.normalize]
    cases hStep : s.interval.doubling? with
    | none =>
      rw [decoderRounds, decoderRound_none hValid hStep]
      exact ⟨rfl, hReads⟩
    | some d =>
      obtain ⟨s', hRound, hInterval, hReads', hIn'⟩ := decoderRound_spec hReads hValid hIn hStep
      obtain ⟨hDoubled, -⟩ := valid_doubled hValid hStep
      rw [← hInterval] at hDoubled
      have hRest := ih hReads' hDoubled hIn'
      rw [hInterval] at hRest
      rw [decoderRounds, hRound]
      exact hRest

/-- Cumulative counts that grow from symbol to symbol. -/
structure Increasing (cdf : List Nat) : Prop where
  lt : ∀ i j, i < j → j ≤ maxSymbol cdf → cdf.getD i 0 < cdf.getD j 0
  last : cdf.getD (maxSymbol cdf) 0 < 2 ^ 16

theorem Increasing.share_lt {cdf : List Nat} (h : Increasing cdf) {sym : Nat}
    (hSym : sym ≤ maxSymbol cdf) :
    (symbolShare cdf sym).1 < (symbolShare cdf sym).2 ∧ (symbolShare cdf sym).2 ≤ 2 ^ 16 := by
  unfold symbolShare
  split_ifs with hLast
  · subst hLast
    exact ⟨h.last, le_refl _⟩
  · refine ⟨h.lt sym (sym + 1) (lt_succ_self sym) (by omega), ?_⟩
    rcases lt_or_ge (sym + 1) (maxSymbol cdf) with hInner | hEnd
    · exact le_of_lt ((h.lt _ _ hInner (le_refl _)).trans h.last)
    · rw [show sym + 1 = maxSymbol cdf by omega]
      exact le_of_lt h.last

theorem searchSymbol_eq {cdf : List Nat} (h : Increasing cdf) {sym count : Nat}
    (hSym : sym ≤ maxSymbol cdf) (hLow : (symbolShare cdf sym).1 ≤ count)
    (hHigh : count < (symbolShare cdf sym).2) {fuel left right : Nat} (hLeft : left ≤ sym)
    (hRight : sym < right) (hEnd : right ≤ maxSymbol cdf + 1) (hFuel : right ≤ left + fuel) :
    searchSymbol cdf count fuel left right = sym := by
  have hAbove : ∀ m, sym < m → m ≤ maxSymbol cdf → count < cdf.getD m 0 := by
    intro m hm hTop
    have hNext : count < cdf.getD (sym + 1) 0 := by
      rw [symbolShare, if_neg (by omega)] at hHigh
      exact hHigh
    rcases lt_or_ge (sym + 1) m with hFar | hNear
    · exact hNext.trans (h.lt _ _ hFar hTop)
    · rw [show m = sym + 1 by omega]
      exact hNext
  have hBelow : ∀ m, m < sym → cdf.getD m 0 < count := by
    intro m hm
    exact lt_of_lt_of_le (h.lt m sym hm hSym) hLow
  induction fuel generalizing left right with
  | zero => omega
  | succ fuel ih =>
    simp only [searchSymbol]
    split_ifs with hOpen hLess hMore
    · refine ih ?_ hRight hEnd (by omega)
      by_contra hNot
      have hMiddle := hAbove ((left + right) / 2) (by omega) (by omega)
      omega
    · refine ih hLeft ?_ (by omega) (by omega)
      by_contra hNot
      rcases lt_or_ge ((left + right) / 2) sym with hUnder | hOver
      · have hMiddle := hBelow ((left + right) / 2) hUnder
        omega
      · have hSame : (left + right) / 2 = sym := by omega
        rw [hSame] at hMore
        exact absurd hLow (not_le.mpr hMore)
    · rcases lt_trichotomy ((left + right) / 2) sym with hUnder | hSame | hOver
      · exact absurd (hBelow _ hUnder) hLess
      · exact hSame
      · exact absurd (hAbove _ hOver (by omega)) hMore
    · omega

theorem symbolOf_eq {cdf : List Nat} (h : Increasing cdf) {sym count : Nat}
    (hSym : sym ≤ maxSymbol cdf) (hLow : (symbolShare cdf sym).1 ≤ count)
    (hHigh : count < (symbolShare cdf sym).2) : symbolOf cdf count = sym :=
  searchSymbol_eq h hSym hLow hHigh (zero_le _) (by omega) (le_refl _) (by omega)

theorem decodedSymbol_eq {cdf : List Nat} {bs : Bytes} {endOff : Nat} {s : DecoderState}
    {x : Nat → Bool} (hReads : s.Reads bs endOff x) (hValid : s.interval.Valid)
    (hIn : InInterval s.interval x) :
    decodedSymbol cdf s = symbolOf cdf (s.interval.count (topBits 32 x)) := by
  have hCount := count_lt hIn.1 hIn.2
  have hSpan : spanOf s.low s.high = s.interval.span := spanOf_eq hValid
  have hOffset : (s.value + 2 ^ 32 - s.low) % 2 ^ 32 = topBits 32 x - s.interval.low := by
    have hLow : s.low ≤ topBits 32 x := hIn.1
    have hLt := topBits_lt 32 x
    change (s.value + 2 ^ 32 - s.low) % 2 ^ 32 = topBits 32 x - s.low
    rw [hReads.value]
    omega
  simp only [decodedSymbol, hSpan, hOffset]
  exact congrArg (symbolOf cdf) (mod_eq_of_lt hCount)

theorem decodeSymbols_eq {cdf : List Nat} (hCdf : Increasing cdf) {bs : Bytes} {endOff : Nat}
    {symbols : List Nat} (hSymbols : ∀ s ∈ symbols, s ≤ maxSymbol cdf) {s : DecoderState}
    {x : Nat → Bool} (hReads : s.Reads bs endOff x) (hSettled : s.interval.Settled)
    (hStarts : StartsWith (codeBits s.interval (symbols.map (symbolShare cdf))) x) :
    decodeSymbols bs endOff cdf symbols.length s = symbols := by
  induction symbols generalizing s x with
  | nil => rfl
  | cons sym rest ih =>
    have hShares : Shares ((sym :: rest).map (symbolShare cdf)) := by
      intro share hShare
      obtain ⟨t, ht, rfl⟩ := List.mem_map.mp hShare
      exact hCdf.share_lt (hSymbols t ht)
    have hSym := hSymbols sym (by simp)
    obtain ⟨hOrder, hTop⟩ := hCdf.share_lt hSym
    have hSpan := hSettled.span_gt
    obtain ⟨hFrom, hTo, hCountLow, hCountHigh, hAfter⟩ := codeBits_step hSettled hShares hStarts
    obtain ⟨hValid, hLow, hHigh⟩ := valid_narrow hSettled.valid hOrder hTop (by omega)
    have hDecoded : decodedSymbol cdf s = sym := by
      rw [decodedSymbol_eq hReads hSettled.valid ⟨hLow.trans hFrom, hTo.trans hHigh⟩]
      exact symbolOf_eq hCdf hSym hCountLow hCountHigh
    rw [length_cons, decodeSymbols]
    simp only [hDecoded]
    split_ifs with hLast
    · rw [eq_nil_of_length_eq_zero hLast]
    · have hNarrowed : decodeSymbol bs endOff cdf s sym = decoderRounds bs endOff 33
          (s.withInterval (narrowed cdf sym s.interval.low s.interval.high)) := rfl
      rw [hNarrowed, narrowed_eq hSettled hOrder hTop]
      have hNext := settled_step hSettled hOrder hTop
      generalize s.interval.narrow (symbolShare cdf sym).1 (symbolShare cdf sym).2 = i at *
      have hReads' : (s.withInterval i).Reads bs endOff x :=
        ⟨hReads.value, hReads.upcoming, hReads.bitIdx_pos, hReads.bitIdx_le, hReads.byteBuffer⟩
      obtain ⟨hInterval, hReadsNext⟩ :=
        @decoderRounds_spec bs endOff 33 (s.withInterval i) x hReads' hValid ⟨hFrom, hTo⟩
      have hTail := ih (fun t ht => hSymbols t (by simp [ht])) hReadsNext
        (by rw [hInterval]; exact hNext) (by rw [hInterval]; exact hAfter)
      rw [hTail]

/-- The bits that the decoder of a channel reads; the first four bytes are read in any case. -/
def streamBits (bs : Bytes) (startOff endOff k : Nat) : Bool :=
  if k < 32 then (bs.getD (startOff + k / 8) 0).toNat.testBit (7 - k % 8)
  else (streamByte bs endOff (startOff + k / 8)).testBit (7 - k % 8)

theorem firstValue_eq {bs : Bytes} {startOff : Nat} (endOff : Nat)
    (hRoom : startOff + 4 ≤ bs.length) :
    firstValue bs startOff = topBits 32 (streamBits bs startOff endOff) := by
  have hByte : ∀ q, q < 4 → topBits 8 (fun k => streamBits bs startOff endOff (8 * q + k)) =
      (bs.getD (startOff + q) 0).toNat := by
    intro q hq
    have hBits : topBits 8 (fun k => streamBits bs startOff endOff (8 * q + k)) =
        topBits 8 fun k => (bs.getD (startOff + q) 0).toNat.testBit (8 - 1 - k) := by
      refine topBits_congr fun k hk => ?_
      rw [streamBits, if_pos (by omega), show (8 * q + k) / 8 = q by omega,
        show (8 * q + k) % 8 = k by omega]
    rw [hBits, topBits_testBit]
    exact mod_eq_of_lt (UInt8.toNat_lt _)
  have h0 := hByte 0 (by decide)
  have h1 := hByte 1 (by decide)
  have h2 := hByte 2 (by decide)
  have h3 := hByte 3 (by decide)
  simp only [mul_zero, zero_add, add_zero] at h0
  have hAdd1 := topBits_add 8 8 (streamBits bs startOff endOff)
  have hAdd2 := topBits_add 16 8 (streamBits bs startOff endOff)
  have hAdd3 := topBits_add 24 8 (streamBits bs startOff endOff)
  rw [firstValue, if_pos hRoom]
  rw [h0, h1] at hAdd1
  rw [h2, hAdd1] at hAdd2
  rw [h3, hAdd2] at hAdd3
  rw [hAdd3]
  ring

def StandsAt (stream bs : Bytes) (startOff : Nat) : Prop :=
  ∀ k b, stream[k]? = some b → bs[startOff + k]? = some b

theorem startsWith_streamBits {stream bs : Bytes} {bits : List Bool} {startOff : Nat}
    (hHolds : HoldsBits stream bits) (hStands : StandsAt stream bs startOff) :
    StartsWith bits (streamBits bs startOff (startOff + stream.length)) := by
  obtain ⟨hLength, hBits⟩ := hHolds
  intro k b hAt
  have hIndex : k < bits.length := (List.getElem?_eq_some_iff.mp hAt).1
  have hInside : k / 8 < stream.length := by omega
  have hBit : (stream.flatMap byteBits)[k]? = some b := by
    rw [hBits, getElem?_append_left hIndex, hAt]
  have hSplit := Tensor.getElem?_flatMap_const stream byteBits (n := 8)
    (fun a _ => length_lowBits 8 a.toNat) (i := k / 8) (j := k % 8) (by omega)
  rw [show k / 8 * 8 + k % 8 = k by omega, hBit, getElem?_eq_getElem hInside] at hSplit
  have hByte := hStands (k / 8) _ (getElem?_eq_getElem hInside)
  have hValue : stream[k / 8].toNat.testBit (7 - k % 8) = b := by
    rw [bind_some, byteBits, lowBits, getElem?_map, getElem?_range (by omega)] at hSplit
    exact (some.inj hSplit).symm
  have hGet : bs.getD (startOff + k / 8) 0 = stream[k / 8] := by
    rw [getD_eq_getElem?_getD, hByte]
    rfl
  rw [streamBits, streamByte, if_pos (by omega : startOff + k / 8 < startOff + stream.length),
    hGet, hValue, ite_self]

theorem decodeSingleChannel_eq {cdf : List Nat} (hCdf : Increasing cdf) {symbols : List Nat}
    (hSymbols : ∀ s ∈ symbols, s ≤ maxSymbol cdf) {stream bs : Bytes} {startOff : Nat}
    (hHolds : HoldsBits stream (codeBits Interval.whole (symbols.map (symbolShare cdf))))
    (hStands : StandsAt stream bs startOff) (hRoom : startOff + 4 ≤ bs.length) :
    decodeSingleChannel cdf bs startOff (startOff + stream.length) symbols.length = symbols := by
  have hReads : DecoderState.Reads bs (startOff + stream.length)
      ⟨firstValue bs startOff, 0, 0xFFFFFFFF, startOff + 4, 1,
        streamByte bs (startOff + stream.length) (startOff + 4)⟩
      (streamBits bs startOff (startOff + stream.length)) := by
    refine ⟨firstValue_eq _ hRoom, ?_, le_refl 1, show 1 ≤ 8 by decide, rfl⟩
    intro k
    rw [streamBits, if_neg (by omega), DecoderState.upcoming,
      show startOff + (32 + k) / 8 = startOff + 4 + (1 - 1 + k) / 8 by omega,
      show 7 - (32 + k) % 8 = 7 - (1 - 1 + k) % 8 by omega]
  exact decodeSymbols_eq hCdf hSymbols hReads settled_whole (startsWith_streamBits hHolds hStands)

end LMCache.MaKV
