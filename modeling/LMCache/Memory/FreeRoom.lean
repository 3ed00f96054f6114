import LMCache.Memory.BatchedAllocation
import LMCache.Memory.TensorSpec

/-!
# How many blocks a heap holds

A batch succeeds exactly when the free blocks, one by one, hold as many blocks of the aligned
size. The free bytes may suggest more than that, and never less.
-/

namespace LMCache

open Lib FirstFit List

namespace AddressManager

variable {am : AddressManager} {n : Nat} {c : Carving}

/-- The blocks of an aligned size that the free list holds. -/
def room (am : AddressManager) (rawSize : Nat) : Nat :=
  slots (am.computeAlignedSize rawSize) am.explicitList

/-- The loop over the free blocks stops short exactly when they do not hold enough. -/
theorem carve_remaining (blocks : List FreeBlock) (h : 0 ≤ c.remaining) :
    (carve n blocks c).remaining = max (c.remaining - slots n blocks) 0 := by
  induction blocks generalizing c with
  | nil => simp [carve, h]
  | cons block blocks ih =>
    rw [carve, slots_cons]
    by_cases hDone : c.remaining ≤ 0
    · rw [if_pos hDone]
      generalize block.size / n = held
      omega
    rw [if_neg hDone]
    by_cases hSmall : block.size < n
    · rw [if_pos hSmall, ih h, Nat.div_eq_of_lt hSmall, Nat.zero_add]
    · have hTake : (c.take n block).remaining =
          c.remaining - (min c.remaining.toNat (block.size / n) : Nat) := rfl
      rw [if_neg hSmall, ih (by omega), hTake]
      generalize block.size / n = held
      omega

theorem carve_length (blocks : List FreeBlock) :
    (carve n blocks c).allocateResult.length + (carve n blocks c).remaining =
      c.allocateResult.length + c.remaining := by
  induction blocks generalizing c with
  | nil => rfl
  | cons block blocks ih =>
    rw [carve]
    split
    · rfl
    split
    · exact ih
    · rw [ih]
      simp only [Carving.take, length_append, length_map, length_range]
      push_cast
      ring

theorem batchedAllocate_isOk_iff {size : Nat} (hPos : 0 < am.computeAlignedSize size)
    (count : Nat) :
    (∃ r, am.batchedAllocate size count = .ok r) ↔ count ≤ am.room size := by
  have hRemaining := carve_remaining (n := am.computeAlignedSize size) (c := ⟨count, [], [], []⟩)
    am.explicitList (Int.natCast_nonneg count)
  have hLength := carve_length (n := am.computeAlignedSize size) (c := ⟨count, [], [], []⟩)
    am.explicitList
  rw [batchedAllocate_of_pos hPos]
  dsimp only at hRemaining hLength ⊢
  generalize carve (am.computeAlignedSize size) am.explicitList ⟨count, [], [], []⟩ = c
    at hRemaining hLength ⊢
  change _ = max ((count : Int) - am.room size) 0 at hRemaining
  simp only [length_nil, Nat.cast_zero, zero_add] at hLength
  by_cases hRoom : count ≤ am.room size
  · refine iff_of_true ?_ hRoom
    rw [decide_eq_false (by omega), raiseIf_false, ok_bind, decide_eq_false (by omega),
      raiseIf_false, ok_bind]
    exact ⟨_, rfl⟩
  · refine iff_of_false ?_ hRoom
    rw [decide_eq_true (by omega)]
    rintro ⟨r, hOk⟩
    cases hOk

theorem slots_le (n : Nat) (blocks : List FreeBlock) :
    slots n blocks ≤ (blocks.map Extent.size).sum / n := by
  induction blocks with
  | nil => simp
  | cons block blocks ih =>
    rw [slots_cons, map_cons, sum_cons]
    exact (Nat.add_le_add_left ih _).trans Nat.div_add_div_le_add_div

end AddressManager

namespace Held

variable {alignBytes : Nat} {am : AddressManager} {live : List FreeBlock}

theorem getFreeSize (h : Held alignBytes am live) :
    am.getFreeSize = ((am.explicitList.map Extent.size).sum : Nat) := by
  unfold AddressManager.getFreeSize
  cases h with
  | kept h _ =>
    have hTotal := h.packed.tiles.total
    rw [map_append, sum_append] at hTotal
    rw [h.counter]
    simp only at hTotal ⊢
    omega
  | vacant hManager _ =>
    rw [hManager]
    rfl

end Held

namespace TensorMemoryAllocator

variable {P : Type} {alignBytes : Nat} {mine : P → Bool} {objs : ObjTable P}
  {a : TensorMemoryAllocator}

/-- How many objects of one size the allocator can still serve. -/
def room (a : TensorMemoryAllocator) (rawSize : Nat) : Nat := a.addressManager.room rawSize

/-- A batch of objects is refused exactly when there is no room for it. -/
theorem Serves.batchedAllocate_eq_none_iff (h : a.Serves alignBytes mine objs)
    (hAlign : 0 < alignBytes) (self : P) {rawSize : Nat} (hPos : 0 < rawSize) (count : Nat) :
    a.batchedAllocate self rawSize count = .ok (none, a) ↔ a.room rawSize < count := by
  have hUnit := h.held.aligned_pos hAlign hPos
  have hAligned := h.held.aligned_pos hAlign hUnit
  have hRoom : a.addressManager.room (a.addressManager.computeAlignedSize rawSize) =
      a.room rawSize := by
    unfold room AddressManager.room
    rw [AddressManager.computeAlignedSize_idem (h.held.align ▸ hAlign)]
  have hBatch := AddressManager.batchedAllocate_isOk_iff hAligned count
  rw [hRoom] at hBatch
  unfold TensorMemoryAllocator.batchedAllocate
  dsimp only
  cases hOutcome : a.addressManager.batchedAllocate
    (a.addressManager.computeAlignedSize rawSize) count with
  | error e =>
    have hNoRoom : ¬ count ≤ a.room rawSize := by
      intro hLe
      obtain ⟨r, hOk⟩ := hBatch.mpr hLe
      rw [hOutcome] at hOk
      cases hOk
    exact iff_of_true (if_pos (AddressManager.batchedAllocate_error hAligned hOutcome))
      (not_le.mp hNoRoom)
  | ok r =>
    refine iff_of_false ?_ (not_lt.mpr (hBatch.mp ⟨r, hOutcome⟩))
    intro hEq
    cases hEq

end TensorMemoryAllocator

end LMCache
