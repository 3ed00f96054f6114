import LMCache.MaKV.CoderSpec

/-!
# One stream through the coder and back

The decoder of a channel reads the symbols back from the encoded bytes, whatever stands in
front of them and behind them. It takes its first four bytes from the streams as they are, so
a stream of fewer bytes needs others behind it; the bytes that it takes in excess change
nothing. With fewer than four bytes to the end of the streams, the decoder starts from zero.
-/

namespace LMCache.MaKV

open Lib List

/-- Cumulative counts of 16 bits that begin with zero and grow strictly. -/
structure IsCdf (cdf : List Nat) : Prop where
  two_le : 2 ≤ cdf.length
  head : cdf[0]? = some 0
  strict : cdf.Pairwise (· < ·)
  fits : ∀ count ∈ cdf, count < 2 ^ 16

variable {cdf : List Nat}

theorem IsCdf.increasing (h : IsCdf cdf) : Increasing cdf := by
  have hLength := h.two_le
  have hMax : maxSymbol cdf < cdf.length := by
    unfold maxSymbol
    omega
  have hAt : ∀ i, i < cdf.length → cdf[i]? = some (cdf.getD i 0) := by
    intro i hi
    rw [getD_eq_getElem?_getD, getElem?_eq_getElem hi, Option.getD_some]
  refine ⟨fun i j hij hj => ?_, h.fits _ (mem_of_getElem? (hAt _ hMax))⟩
  have hi := hAt i (by omega)
  have hj' := hAt j (by omega)
  obtain ⟨hiLt, hiEq⟩ := List.getElem?_eq_some_iff.mp hi
  obtain ⟨hjLt, hjEq⟩ := List.getElem?_eq_some_iff.mp hj'
  rw [← hiEq, ← hjEq]
  exact pairwise_iff_getElem.mp h.strict i j hiLt hjLt hij

@[simp] theorem length_calculateCdf (symbols : List Nat) (bins : Nat) :
    (calculateCdf symbols bins).length = bins + 1 := by
  simp [calculateCdf]

/-- `calculate_cdf` gives such counts for any symbols, as long as the bins leave room. -/
theorem isCdf_calculateCdf (symbols : List Nat) {bins : Nat} (hBins : 0 < bins)
    (hRoom : bins ≤ 0xFFFF) : IsCdf (calculateCdf symbols bins) := by
  let below : Nat → Nat := fun i => symbols.countP fun s => min s (bins - 1) < i
  let scaled : Nat → Nat := fun i =>
    if 0 < symbols.length then (0xFFFF - bins) * below i / max symbols.length 1 + i else i
  have hCdf : calculateCdf symbols bins = (List.range (bins + 1)).map fun i => scaled i % 2 ^ 16 :=
    rfl
  have hBelow : ∀ i j, i ≤ j → below i ≤ below j := fun i j hij =>
    countP_mono_left fun s _ hs => by
      simp only [decide_eq_true_eq] at hs ⊢
      exact lt_of_lt_of_le hs hij
  have hScaled : ∀ i j, i < j → scaled i < scaled j := by
    intro i j hij
    simp only [scaled]
    split_ifs
    · have hMono := Nat.div_le_div_right (c := max symbols.length 1)
        (Nat.mul_le_mul_left (0xFFFF - bins) (hBelow i j hij.le))
      omega
    · exact hij
  have hSmall : ∀ i, i ≤ bins → scaled i < 2 ^ 16 := by
    intro i hi
    simp only [scaled]
    split_ifs with hSome
    · have hAll : below i ≤ symbols.length := countP_le_length
      have hDiv : (0xFFFF - bins) * below i / max symbols.length 1 ≤ 0xFFFF - bins := by
        rw [Nat.max_eq_left hSome]
        exact Nat.div_le_of_le_mul (by rw [Nat.mul_comm]; exact Nat.mul_le_mul_right _ hAll)
      omega
    · omega
  refine ⟨?_, ?_, ?_, ?_⟩
  · rw [length_calculateCdf]
    omega
  · have hZero : below 0 = 0 := countP_eq_zero.mpr fun s _ => by simp
    have hFirst : scaled 0 = 0 := by
      simp only [scaled, hZero, Nat.mul_zero, Nat.zero_div, Nat.add_zero, ite_self]
    rw [hCdf, getElem?_map, getElem?_range (by omega), Option.map_some, hFirst]
    rfl
  · rw [hCdf, pairwise_map]
    refine pairwise_lt_range.imp_of_mem fun {i j} hi hj hij => ?_
    rw [Nat.mod_eq_of_lt (hSmall i (by rw [mem_range] at hi; omega)),
      Nat.mod_eq_of_lt (hSmall j (by rw [mem_range] at hj; omega))]
    exact hScaled i j hij
  · intro count hCount
    rw [hCdf] at hCount
    obtain ⟨i, -, rfl⟩ := mem_map.mp hCount
    exact Nat.mod_lt _ (by decide)

/-- The output of the encoder fits a buffer: in no buffer does it take more bytes. -/
def FitsBuffer (cdf symbols : List Nat) (bufSize : Nat) : Prop :=
  ∀ size, (encodeSingleChannel cdf symbols size).length ≤ bufSize

variable {symbols : List Nat} {bufSize : Nat}

theorem FitsBuffer.length_codeBits (hCodable : Codable cdf symbols)
    (h : FitsBuffer cdf symbols bufSize) :
    (codeBits Interval.whole (symbols.map (symbolShare cdf))).length ≤ 8 * bufSize := by
  have hWide := h (codeBits Interval.whole (symbols.map (symbolShare cdf))).length
  have hHolds := @encodeSingleChannel_spec
    (codeBits Interval.whole (symbols.map (symbolShare cdf))).length cdf symbols hCodable (by omega)
  have hLength := hHolds.1
  omega

theorem BitOutput.length_pushAll {o : BitOutput} (h : o.out.length ≤ bufSize) (bits : List Bool) :
    (o.pushAll bufSize bits).out.length ≤ bufSize := by
  induction bits generalizing o with
  | nil => exact h
  | cons bit bits ih =>
    refine ih ?_
    unfold BitOutput.push
    dsimp only
    split_ifs with hFull hFits
    · rw [length_append, length_singleton]
      exact hFits
    · exact h
    · exact h

theorem length_encoderRounds {fuel : Nat} {s : EncoderState} (h : s.output.out.length ≤ bufSize) :
    (encoderRounds bufSize fuel s).output.out.length ≤ bufSize := by
  induction fuel generalizing s with
  | zero => exact h
  | succ fuel ih =>
    rw [encoderRounds]
    cases hRound : encoderRound bufSize s with
    | none => exact h
    | some s' =>
      refine ih ?_
      unfold encoderRound at hRound
      split_ifs at hRound
      · cases hRound
        exact BitOutput.length_pushAll h _
      · cases hRound
        exact h

/-- The encoder never writes behind the end of its buffer. -/
theorem length_encodeSingleChannel (cdf symbols : List Nat) (bufSize : Nat) :
    (encodeSingleChannel cdf symbols bufSize).length ≤ bufSize := by
  have hLoop : ∀ (l : List Nat) (s : EncoderState), s.output.out.length ≤ bufSize →
      (l.foldl (encodeSymbol bufSize cdf) s).output.out.length ≤ bufSize := by
    intro l
    induction l with
    | nil => exact fun _ h => h
    | cons sym l ih => exact fun s h => ih _ (length_encoderRounds h)
  have hAll := hLoop symbols ⟨0, 0xFFFFFFFF, 0, ⟨0, 0, []⟩⟩ (Nat.zero_le _)
  unfold encodeSingleChannel finishEncoding BitOutput.close
  dsimp only
  split_ifs with hRest
  · rw [length_append, length_singleton]
    exact hRest.2
  · exact BitOutput.length_pushAll hAll _

theorem fitsBuffer_of_length_codeBits (hCodable : Codable cdf symbols)
    (h : (codeBits Interval.whole (symbols.map (symbolShare cdf))).length ≤ 8 * bufSize) :
    FitsBuffer cdf symbols bufSize := by
  intro size
  rcases Nat.lt_or_ge (8 * size)
    (codeBits Interval.whole (symbols.map (symbolShare cdf))).length with hSmall | hWide
  · have hLength := length_encodeSingleChannel cdf symbols size
    omega
  · have hLength := (encodeSingleChannel_spec hCodable hWide).1
    omega

theorem IsCdf.codable (h : IsCdf cdf) (hSymbols : ∀ s ∈ symbols, s ≤ maxSymbol cdf) :
    Codable cdf symbols := by
  intro share hShare
  obtain ⟨s, hs, rfl⟩ := mem_map.mp hShare
  exact h.increasing.share_lt (hSymbols s hs)

/-- The decoder of a channel gives back what was encoded, from the encoded bytes between any
others, as long as four bytes stand from their start on. -/
theorem coder_round_trip (cdf : List Nat) (hCdf : IsCdf cdf) (symbols : List UInt8)
    (hSymbols : ∀ s ∈ symbols, s.toNat ≤ maxSymbol cdf) (bufSize : Nat)
    (hFits : FitsBuffer cdf (symbols.map UInt8.toNat) bufSize) (before further : Bytes)
    (hRoom : 4 ≤ (encodeSingleChannel cdf (symbols.map UInt8.toNat) bufSize ++ further).length) :
    decodeSingleChannel cdf
        (before ++ encodeSingleChannel cdf (symbols.map UInt8.toNat) bufSize ++ further)
        before.length
        (before.length + (encodeSingleChannel cdf (symbols.map UInt8.toNat) bufSize).length)
        symbols.length = symbols.map UInt8.toNat := by
  have hAlphabet : ∀ s ∈ symbols.map UInt8.toNat, s ≤ maxSymbol cdf := by
    intro s hs
    obtain ⟨b, hb, rfl⟩ := List.mem_map.mp hs
    exact hSymbols b hb
  have hCodable := hCdf.codable hAlphabet
  have hHolds := encodeSingleChannel_spec hCodable (hFits.length_codeBits hCodable)
  generalize encodeSingleChannel cdf (symbols.map UInt8.toNat) bufSize = stream at *
  have hStands : StandsAt stream (before ++ stream ++ further) before.length := by
    intro k b hAt
    have hIndex := (List.getElem?_eq_some_iff.mp hAt).1
    rw [List.append_assoc, List.getElem?_append_right (Nat.le_add_right _ _),
      Nat.add_sub_cancel_left, List.getElem?_append_left hIndex, hAt]
  have hEnd : before.length + 4 ≤ (before ++ stream ++ further).length := by
    rw [List.append_assoc, List.length_append]
    omega
  have hDecoded := decodeSingleChannel_eq hCdf.increasing hAlphabet hHolds hStands hEnd
  rwa [List.length_map] at hDecoded

theorem coder_round_trip_short :
    (encodeSingleChannel (calculateCdf [1, 0] 2) [1, 0] 8).length = 1 ∧
    decodeSingleChannel (calculateCdf [1, 0] 2)
      (encodeSingleChannel (calculateCdf [1, 0] 2) [1, 0] 8 ++ [255, 255, 255]) 0 1 2 = [1, 0] := by
  have hCdf := @isCdf_calculateCdf [1, 0] 2 (by decide) (by decide)
  have hSymbols : ∀ s ∈ ([1, 0] : List Nat), s ≤ maxSymbol (calculateCdf [1, 0] 2) := by
    simp [maxSymbol, calculateCdf]
  refine ⟨by decide +kernel, ?_⟩
  exact coder_round_trip _ hCdf [1, 0] (by simp [maxSymbol, calculateCdf]) 8
    (fitsBuffer_of_length_codeBits (hCdf.codable hSymbols) (by decide +kernel)) []
    [255, 255, 255] (by decide +kernel)

/-- One symbol in one byte with nothing behind it: the decoder starts from zero and finds
another symbol. -/
theorem short_stream_misread :
    IsCdf (calculateCdf [1] 2) ∧ FitsBuffer (calculateCdf [1] 2) [1] 8 ∧
    (encodeSingleChannel (calculateCdf [1] 2) [1] 8).length = 1 ∧
    decodeSingleChannel (calculateCdf [1] 2)
      (encodeSingleChannel (calculateCdf [1] 2) [1] 8 ++ []) 0 1 1 = [0] := by
  have hCdf := @isCdf_calculateCdf [1] 2 (by decide) (by decide)
  have hSymbols : ∀ s ∈ ([1] : List Nat), s ≤ maxSymbol (calculateCdf [1] 2) := by decide
  refine ⟨hCdf, ?_, by decide +kernel, by decide +kernel⟩
  exact fitsBuffer_of_length_codeBits (hCdf.codable hSymbols) (by decide +kernel)

end LMCache.MaKV
