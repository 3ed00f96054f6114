import LMCache.Prefetch.NativeBitmap
import Mathlib.Data.Finset.Sort

/-!
# What the queries of a native bitmap answer

Each query loops over whole bytes and treats the last, partial byte apart. The lemmas below
say what it answers in terms of the single bits. All but `highest_set_bit` look at the bits
below the size only; `highest_set_bit` scans the padding as well.
-/

namespace LMCache

open List Nat

namespace NativeBitmap

theorem shift_and_one : ∀ byte : Octet, ∀ k < 8,
    ((byte >>> k) &&& 1#8 != 0#8) = byte.getLsbD k := by
  decide +kernel

theorem test_eq (b : NativeBitmap) (i : Nat) : b.test i = (decide (i < b.size) && b.bit i) := by
  unfold test
  rw [shift_and_one _ _ (mod_lt i (by decide))]
  split
  · rename_i hOut
    simp [not_lt.mpr hOut]
  · rename_i hIn
    simp [not_le.mp hIn, bit, bitAt]

theorem bitAt_byte (data : List Octet) (k i : Nat) (hi : i < 8) :
    bitAt data (8 * k + i) = (data.getD k 0#8).getLsbD i := by
  rw [bitAt, mul_add_mod, mod_eq_of_lt hi, mul_add_div (by decide : 8 > 0),
    div_eq_of_lt hi, add_zero]

theorem getLsbD_back (b : NativeBitmap) (hPartial : 0 < b.size % 8) {i : Nat} (hi : i < 8) :
    (b.back &&& octet (1 <<< (b.size % 8) - 1)).getLsbD i =
      (decide (i < b.size % 8) && b.bit (8 * (b.size / 8) + i)) := by
  have hBack : b.back = b.data.getD (b.size / 8) 0#8 := by
    rw [back, b.length_data]
    unfold byteCount
    congr 1
    split <;> omega
  rw [BitVec.getLsbD_and, getLsbD_octet_ones _ _ hi, hBack, bit, bitAt_byte _ _ _ hi, Bool.and_comm]

theorem builtinPopcount_eq {byte : Octet} {p : Nat → Bool}
    (h : ∀ i < 8, byte.getLsbD i = p i) : builtinPopcount byte = count (p · = true) 8 := by
  rw [builtinPopcount, count_eq_card_filter_range, count_eq_card_filter_range]
  congr 1
  refine Finset.filter_congr fun i hi => ?_
  rw [h i (Finset.mem_range.mp hi)]

theorem count_bytes (data : List Octet) (n : Nat) :
    (List.range n).foldl (fun count i => count + builtinPopcount (data.getD i 0#8)) 0 =
      count (bitAt data · = true) (8 * n) := by
  induction n with
  | zero => rfl
  | succ n ih =>
    rw [range_succ, foldl_append, ih, foldl_cons, foldl_nil, mul_succ,
      count_add, builtinPopcount_eq fun i hi => (bitAt_byte data n i hi).symm]

theorem count_masked (p : Nat → Bool) {r n : Nat} (h : r ≤ n) :
    count (fun i => (decide (i < r) && p i) = true) n = count (p · = true) r := by
  obtain ⟨rest, rfl⟩ := Nat.exists_eq_add_of_le h
  have hTail : count (fun k => (decide (r + k < r) && p (r + k)) = true) rest = 0 := by
    rw [count_eq_card_filter_range, Finset.card_eq_zero, Finset.filter_eq_empty_iff]
    simp
  rw [count_add, hTail, add_zero, count_eq_card_filter_range,
    count_eq_card_filter_range]
  congr 1
  refine Finset.filter_congr fun i hi => ?_
  simp [Finset.mem_range.mp hi]

theorem popcount_eq (b : NativeBitmap) : b.popcount = count (b.bit · = true) b.size := by
  have hSplit : 8 * (b.size / 8) + b.size % 8 = b.size := div_add_mod b.size 8
  have hWhole : count (b.bit · = true) b.size =
      count (b.bit · = true) (8 * (b.size / 8)) +
        count (fun i => b.bit (8 * (b.size / 8) + i) = true) (b.size % 8) := by
    conv_lhs => rw [← hSplit]
    exact count_add ..
  unfold popcount
  dsimp only
  rw [count_bytes]
  split
  · rename_i hNone
    have hLength := b.length_data
    rw [hNone, length_nil] at hLength
    have hZero : b.size = 0 := by
      unfold byteCount at hLength
      split at hLength
      · assumption
      · omega
    rw [hZero, count_zero]
  split
  · rename_i hRest
    rw [builtinPopcount_eq fun i hi => getLsbD_back b hRest hi,
      count_masked (fun i => b.bit (8 * (b.size / 8) + i)) (by omega), hWhole]
    rfl
  · rename_i hRest
    have hEven : b.size % 8 = 0 := by omega
    rw [hWhole, hEven, count_zero, add_zero]
    rfl

theorem bitAt_cons (byte : Octet) (rest : List Octet) (i : Nat) :
    bitAt (byte :: rest) i = if i < 8 then byte.getLsbD i else bitAt rest (i - 8) := by
  unfold bitAt
  split
  · rename_i hi
    rw [div_eq_of_lt hi, mod_eq_of_lt hi]
    rfl
  · rename_i hi
    have hDiv : i / 8 = (i - 8) / 8 + 1 := by omega
    have hMod : i % 8 = (i - 8) % 8 := by omega
    rw [hDiv, hMod]
    rfl

theorem getLsbD_zero_of_eq {byte : Octet} (h : byte = 0#8) (i : Nat) : byte.getLsbD i = false := by
  rw [h, BitVec.getLsbD_zero]

theorem clzLoop_spec (bytes : List Octet) (count : Nat) :
    ∃ zeros, (clzLoop bytes count).1 = count + zeros ∧ (∀ i < zeros, bitAt bytes i = false) ∧
      if (clzLoop bytes count).2 then zeros < 8 * bytes.length ∧ bitAt bytes zeros = true
      else zeros = 8 * bytes.length := by
  induction bytes generalizing count with
  | nil => exact ⟨0, rfl, fun i hi => absurd hi (not_lt_zero i), rfl⟩
  | cons byte rest ih =>
    unfold clzLoop
    by_cases hZero : byte = 0#8
    · obtain ⟨zeros, hCount, hBelow, hEnd⟩ := ih (count + 8)
      rw [if_pos hZero]
      refine ⟨zeros + 8, by omega, fun i hi => ?_, ?_⟩
      · rw [bitAt_cons]
        split
        · exact getLsbD_zero_of_eq hZero i
        · exact hBelow (i - 8) (by omega)
      · rw [length_cons]
        split at hEnd
        · rename_i hReturned
          rw [if_pos hReturned, bitAt_cons, if_neg (by omega), Nat.add_sub_cancel]
          exact ⟨by omega, hEnd.2⟩
        · rename_i hReturned
          rw [if_neg hReturned]
          omega
    · obtain ⟨hLt, hSet, hBelow⟩ := builtinCtz_spec byte hZero
      rw [if_neg hZero]
      refine ⟨builtinCtz byte, rfl, fun i hi => ?_, ?_⟩
      · rw [bitAt_cons, if_pos (by omega)]
        exact hBelow i hi
      · rw [if_pos rfl, length_cons, bitAt_cons, if_pos hLt]
        exact ⟨by omega, hSet⟩

theorem bitAt_take {data : List Octet} {k i : Nat} (hi : i < 8 * k) :
    bitAt (data.take k) i = bitAt data i := by
  have hByte : i / 8 < k := by omega
  simp only [bitAt, getD_eq_getElem?_getD, getElem?_take, hByte, ↓reduceIte]

theorem clz_spec (b : NativeBitmap) :
    b.clz ≤ b.size ∧ (∀ i < b.clz, b.bit i = false) ∧ (b.clz < b.size → b.bit b.clz = true) := by
  have hSplit : 8 * (b.size / 8) + b.size % 8 = b.size := div_add_mod b.size 8
  have hTake : (b.data.take (b.size / 8)).length = b.size / 8 := by
    rw [length_take, b.length_data, min_eq_left]
    unfold byteCount
    split <;> omega
  obtain ⟨zeros, hCount, hBelow, hEnd⟩ := clzLoop_spec (b.data.take (b.size / 8)) 0
  rw [hTake] at hEnd
  rw [zero_add] at hCount
  unfold clz
  split
  · rename_i hNone
    rw [hNone]
    exact ⟨le_rfl, fun i hi => absurd hi (not_lt_zero i), fun h => absurd h (lt_irrefl 0)⟩
  dsimp only
  rw [hCount]
  split at hEnd
  · rename_i hReturned
    rw [if_pos hReturned]
    refine ⟨by omega, fun i hi => ?_, fun _ => ?_⟩
    · exact (bitAt_take (by omega)).symm.trans (hBelow i hi)
    · exact (bitAt_take hEnd.1).symm.trans hEnd.2
  · rename_i hReturned
    rw [if_neg hReturned]
    have hZeros : ∀ i < 8 * (b.size / 8), b.bit i = false := fun i hi =>
      (bitAt_take hi).symm.trans (hBelow i (hEnd ▸ hi))
    split
    · rename_i hRest
      split
      · rename_i hLastZero
        refine ⟨by omega, fun i hi => ?_, fun h => absurd h (by omega)⟩
        by_cases hFull : i < 8 * (b.size / 8)
        · exact hZeros i hFull
        · have hBit := getLsbD_back b hRest (show i - 8 * (b.size / 8) < 8 by omega)
          rw [getLsbD_zero_of_eq hLastZero, Nat.add_sub_cancel' (not_lt.mp hFull),
            decide_eq_true (by omega), Bool.true_and] at hBit
          exact hBit.symm
      · rename_i hLast
        obtain ⟨hLt, hSet, hUnder⟩ := builtinCtz_spec _ hLast
        rw [getLsbD_back b hRest hLt, Bool.and_eq_true, decide_eq_true_eq] at hSet
        refine ⟨by omega, fun i hi => ?_, fun _ => ?_⟩
        · by_cases hFull : i < 8 * (b.size / 8)
          · exact hZeros i hFull
          · have hBit := getLsbD_back b hRest (show i - 8 * (b.size / 8) < 8 by omega)
            rw [hUnder _ (by omega), Nat.add_sub_cancel' (not_lt.mp hFull),
              decide_eq_true (by omega), Bool.true_and] at hBit
            exact hBit.symm
        · rw [hEnd]
          exact hSet.2
    · rename_i hRest
      have hEven : zeros = b.size := by omega
      exact ⟨le_of_eq hEven, fun i hi => hZeros i (by omega), fun h => absurd h (by omega)⟩

theorem clo_spec (b : NativeBitmap) :
    b.clo ≤ b.size ∧ (∀ i < b.clo, b.bit i = true) ∧ (b.clo < b.size → b.bit b.clo = false) := by
  obtain ⟨hLe, hBelow, hAt⟩ := b.not.clz_spec
  rw [size_not] at hLe hAt
  refine ⟨hLe, fun i hi => ?_, fun hLt => ?_⟩
  · have hBit := hBelow i hi
    rw [bit_not, decide_eq_true (lt_of_lt_of_le hi hLe), Bool.true_and] at hBit
    simpa using hBit
  · have hBit := hAt hLt
    rw [bit_not, Bool.and_eq_true, Bool.not_eq_true'] at hBit
    exact hBit.2

theorem highestLoop_spec (data : List Octet) (n : Nat) :
    (highestLoop data n = -1 ∧ ∀ i < 8 * n, bitAt data i = false) ∨
      ∃ m : Nat, highestLoop data n = m ∧ m < 8 * n ∧ bitAt data m = true ∧
        ∀ i < 8 * n, m < i → bitAt data i = false := by
  induction n with
  | zero => exact Or.inl ⟨rfl, fun i hi => absurd hi (not_lt_zero i)⟩
  | succ n ih =>
    unfold highestLoop
    by_cases hZero : data.getD n 0#8 = 0#8
    · have hByte : ∀ i < 8 * (n + 1), 8 * n ≤ i → bitAt data i = false := by
        intro i hi hLe
        rw [← Nat.add_sub_cancel' hLe, bitAt_byte _ _ _ (by omega)]
        exact getLsbD_zero_of_eq hZero _
      simp only [hZero, ne_eq, not_true_eq_false, ↓reduceIte]
      rcases ih with ⟨hNone, hAll⟩ | ⟨m, hSome, hm, hSet, hAbove⟩
      · refine Or.inl ⟨hNone, fun i hi => ?_⟩
        by_cases hLow : i < 8 * n
        · exact hAll i hLow
        · exact hByte i hi (not_lt.mp hLow)
      · refine Or.inr ⟨m, hSome, by omega, hSet, fun i hi hmi => ?_⟩
        by_cases hLow : i < 8 * n
        · exact hAbove i hLow hmi
        · exact hByte i hi (not_lt.mp hLow)
    · obtain ⟨hLt, hSet, hAbove⟩ := builtinClz_spec _ hZero
      simp only [hZero, ne_eq, not_false_eq_true, ↓reduceIte]
      refine Or.inr ⟨n * 8 + (31 - builtinClz (data.getD n 0#8)), rfl, by omega, ?_,
        fun i hi hmi => ?_⟩
      · rw [mul_comm n, bitAt_byte _ _ _ hLt]
        exact hSet
      · rw [← Nat.add_sub_cancel' (show 8 * n ≤ i by omega), bitAt_byte _ _ _ (by omega)]
        exact hAbove _ (by omega) (by omega)

theorem highestSetBit_spec (b : NativeBitmap) :
    (b.highestSetBit = -1 ∧ ∀ i, b.bit i = false) ∨
      ∃ m : Nat, b.highestSetBit = m ∧ b.bit m = true ∧ ∀ i, m < i → b.bit i = false := by
  have hBeyond : ∀ i, ¬ i < 8 * b.data.length → b.bit i = false := fun i hi =>
    bit_of_le (by rw [← b.length_data]; exact not_lt.mp hi)
  rcases highestLoop_spec b.data b.data.length with ⟨hNone, hAll⟩ | ⟨m, hSome, -, hSet, hAbove⟩
  · refine Or.inl ⟨hNone, fun i => ?_⟩
    by_cases hi : i < 8 * b.data.length
    · exact hAll i hi
    · exact hBeyond i hi
  · refine Or.inr ⟨m, hSome, hSet, fun i hmi => ?_⟩
    by_cases hi : i < 8 * b.data.length
    · exact hAbove i hi hmi
    · exact hBeyond i hi

theorem filter_range_bytes (p : Nat → Bool) (n : Nat) :
    (List.range n).flatMap (fun k =>
        ((List.range 8).filter fun i => p (8 * k + i)).map fun i => k * 8 + i) =
      (List.range (8 * n)).filter p := by
  induction n with
  | zero => rfl
  | succ n ih =>
    rw [range_succ (n := n), flatMap_append, ih, mul_succ, range_add,
      filter_append, filter_map, flatMap_singleton, mul_comm n 8]
    rfl

theorem getIndices_eq (b : NativeBitmap) : b.getIndices = (List.range b.size).filter b.bit := by
  have hByte : ∀ k, takeBits 8 (b.data.getD k 0#8) =
      (List.range 8).filter fun i => b.bit (8 * k + i) := by
    intro k
    rw [takeBits_eq]
    refine filter_congr fun i hi => ?_
    rw [bit, bitAt_byte _ _ _ (mem_range.mp hi)]
  have hSize : b.size ≤ 8 * b.data.length := by
    rw [b.length_data]
    unfold byteCount
    split <;> omega
  unfold getIndices
  simp only [hByte]
  rw [← filter_flatMap, filter_range_bytes, filter_filter]
  obtain ⟨rest, hRest⟩ := Nat.exists_eq_add_of_le hSize
  rw [hRest, range_add, filter_append]
  have hTail : ((List.range rest).map (b.size + ·)).filter
      (fun i => decide (i < b.size) && b.bit i) = [] := by
    rw [filter_eq_nil_iff]
    simp
  rw [hTail, append_nil]
  refine filter_congr fun i hi => ?_
  rw [decide_eq_true (mem_range.mp hi), Bool.true_and]

end NativeBitmap

end LMCache
