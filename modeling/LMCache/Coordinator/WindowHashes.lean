import LMCache.Coordinator.BlendRecall
import Mathlib.Algebra.BigOperators.Ring.Finset
import Mathlib.Data.List.GetD

/-!
# Probed and stored hashes of windows

The hash of a window is the value of a polynomial whose coefficients are its words, modulo
`2 ^ 64`. Rolling reaches this value for every position, so the hash stored for a chunk is
probed wherever its words occur.
-/

namespace LMCache.Coordinator

open Lib List

variable {arr : List UInt64} {k : Nat}

theorem toNat_polynomialHash (base : UInt64) (window : List UInt64) :
    (polynomialHash base window).toNat = (∑ i ∈ Finset.range window.length,
      (window.getD i 0).toNat * base.toNat ^ (window.length - 1 - i)) % 2 ^ 64 := by
  induction window using List.reverseRecOn with
  | nil => rfl
  | append_singleton before x ih =>
    have hHorner : polynomialHash base (before ++ [x]) =
        polynomialHash base before * base + x := foldl_concat ..
    have hLast : (before ++ [x]).getD before.length 0 = x := by simp
    -- every word before the last one is multiplied by the base once more
    have hBefore : ∀ i ∈ Finset.range before.length,
        ((before ++ [x]).getD i 0).toNat * base.toNat ^ (before.length - i) =
          (before.getD i 0).toNat * base.toNat ^ (before.length - 1 - i) * base.toNat := by
      intro i hi
      have hInside := Finset.mem_range.mp hi
      have hPower : before.length - i = before.length - 1 - i + 1 := by omega
      rw [getD_append _ _ _ _ hInside, hPower, pow_succ, Nat.mul_assoc]
    rw [hHorner, UInt64.toNat_add, UInt64.toNat_mul, ih, length_append, length_singleton,
      Nat.add_sub_cancel, Finset.sum_range_succ, Finset.sum_congr rfl hBefore, ← Finset.sum_mul,
      hLast, Nat.sub_self, pow_zero, Nat.mul_one]
    simp

theorem getElem?_rollingHashWindows (base : UInt64) (hk : 1 ≤ k) {j : Nat}
    (h : j + k ≤ arr.length) :
    (rollingHashWindows arr k base)[j]? = some (polynomialHash base ((arr.drop j).take k)) := by
  rw [rollingHashWindows_eq base hk (by omega), getElem?_map, getElem?_windows h]
  rfl

theorem getElem?_chunkHashWindows (base : UInt64) {w : Nat} (h : w < arr.length / k) :
    (chunkHashWindows arr k base)[w]? = some (polynomialHash base ((arr.drop (w * k)).take k)) := by
  rw [chunkHashWindows, getElem?_map, getElem?_range h]
  rfl

/-- Both hash the words of a window alike, wherever it starts. -/
theorem window_hashes (base : UInt64) (hk : 1 ≤ k) (h : k ≤ arr.length) :
    (rollingHashWindows arr k base).length = arr.length - k + 1 ∧
    (chunkHashWindows arr k base).length = arr.length / k ∧
    (∀ j ≤ arr.length - k, (rollingHashWindows arr k base)[j]?.map UInt64.toNat =
      some ((∑ i ∈ Finset.range k,
        (arr.getD (j + i) 0).toNat * base.toNat ^ (k - 1 - i)) % 2 ^ 64)) ∧
    ∀ w < arr.length / k,
      (chunkHashWindows arr k base)[w]? = (rollingHashWindows arr k base)[w * k]? ∧
      ∀ (query : List UInt64) (j : Nat), j + k ≤ query.length →
        (query.drop j).take k = (arr.drop (w * k)).take k →
        (rollingHashWindows query k base)[j]? = (chunkHashWindows arr k base)[w]? := by
  refine ⟨?_, ?_, fun j hj => ?_, fun w hw => ?_⟩
  · rw [rollingHashWindows_eq base hk h, List.length_map, length_windows]
    omega
  · rw [chunkHashWindows, List.length_map, List.length_range]
  · have hWindow : j + k ≤ arr.length := by omega
    have hLength : ((arr.drop j).take k).length = k := by
      rw [List.length_take, List.length_drop]
      omega
    rw [getElem?_rollingHashWindows base hk hWindow, Option.map_some, toNat_polynomialHash, hLength]
    refine congrArg (fun sum => some (sum % 2 ^ 64)) (Finset.sum_congr rfl fun i hi => ?_)
    rw [List.getD_eq_getElem?_getD, List.getElem?_take_of_lt (Finset.mem_range.mp hi),
      List.getElem?_drop, ← List.getD_eq_getElem?_getD]
  · have hChunk : w * k + k ≤ arr.length := by
      have hFit : (w + 1) * k ≤ arr.length := (Nat.le_div_iff_mul_le hk).mp hw
      rwa [Nat.add_one_mul] at hFit
    refine ⟨?_, fun query j hj hEqual => ?_⟩
    · rw [getElem?_chunkHashWindows base hw, getElem?_rollingHashWindows base hk hChunk]
    · rw [getElem?_chunkHashWindows base hw, getElem?_rollingHashWindows base hk hj, hEqual]

theorem window_hashes_sample :
    (rollingHashWindows [5, 7, 9] 2 polyBase)[1]?.map UInt64.toNat =
      some ((∑ i ∈ Finset.range 2, (([5, 7, 9] : List UInt64).getD (1 + i) 0).toNat *
        polyBase.toNat ^ (2 - 1 - i)) % 2 ^ 64) :=
  (window_hashes polyBase (by decide) (by decide)).2.2.1 1 (by decide)

end LMCache.Coordinator
