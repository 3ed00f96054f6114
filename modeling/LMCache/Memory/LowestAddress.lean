import LMCache.Memory.FreeLists

/-!
# The lowest hole

The address manager is a function of the heap size and of the live blocks, whatever the calls
were, and the next block starts at the lowest address with enough vacant bytes behind it.
-/

namespace LMCache

open Lib AddressManager List

theorem Lib.Separated.apart {l : List Extent} (h : Separated l) {b c : Extent} (hb : b ∈ l)
    (hc : c ∈ l) : b = c ∨ b.stop < c.start ∨ c.stop < b.start := by
  induction l with
  | nil => cases hb
  | cons d l ih =>
    obtain ⟨hFirst, hRest⟩ := pairwise_cons.mp h
    rcases mem_cons.mp hb with rfl | hLater
    · exact (mem_cons.mp hc).imp Eq.symm fun hc => Or.inl (hFirst c hc)
    · rcases mem_cons.mp hc with rfl | hc
      · exact Or.inr (Or.inr (hFirst b hLater))
      · exact ih hRest hLater hc

/-- Covered addresses in a row lie in one extent of a separated list. -/
theorem Lib.Separated.stop_le {l : List Extent} (h : Separated l) {b : Extent}
    (hb : b ∈ l) {a : Nat}
    (ha : b.Has a) (n : Nat) (hCovered : ∀ x, a ≤ x → x < a + n → Covered l x) :
    a + n ≤ b.stop := by
  induction n with
  | zero => exact Nat.le_of_lt ha.2
  | succ n ih =>
    have hStop := ih fun x hLow hHigh => hCovered x hLow (by omega)
    obtain ⟨c, hc, hStart, hEnd⟩ := hCovered (a + n) (by omega) (by omega)
    rcases h.apart hb hc with rfl | hAfter | hBefore
    · exact hEnd
    · omega
    · have hLow := ha.1
      omega

namespace AddressSpace

variable {alignBytes size size' : Nat} {s s' : AddressSpace}

/-- The `n` bytes from `a` on lie in the heap and in no live block. -/
def Vacant (s : AddressSpace) (n a : Nat) : Prop :=
  ∀ x, a ≤ x → x < a + n → x < s.manager.getHeapSize ∧ ¬ Covered s.live x

theorem Reachable.held (h : Reachable size alignBytes s) (hAlign : 0 < alignBytes) :
    Held alignBytes s.manager s.live := by
  rcases h.kept hAlign with rfl | ⟨hKept, hSize⟩
  · exact .vacant rfl rfl
  · exact .kept hKept hSize

/-- Two histories that leave a heap of one size with the same live blocks leave one state. -/
theorem Reachable.manager_eq (h : Reachable size alignBytes s) (h' : Reachable size' alignBytes s')
    (hAlign : 0 < alignBytes) (hHeap : s.manager.getHeapSize = s'.manager.getHeapSize)
    (hLive : s.live.Perm s'.live) : s.manager = s'.manager :=
  (h.held hAlign).unique (h'.held hAlign) hHeap hLive

/-- One batch of a large heap and three calls on a growing one. -/
theorem manager_eq_sample : ∃ s s' : AddressSpace, s.live ≠ s'.live ∧ s.manager = s'.manager :=
  have h : Reachable 16384 4096
      ⟨⟨16384, 4096, [⟨4096, 4096⟩, ⟨12288, 4096⟩], 8192⟩, [⟨0, 4096⟩, ⟨8192, 4096⟩]⟩ :=
    ⟨[.batchedAllocate 1 3, .free ⟨4096, 4096⟩], Run.of_exec call (by decide)⟩
  have h' : Reachable 8192 4096
      ⟨⟨16384, 4096, [⟨4096, 4096⟩, ⟨12288, 4096⟩], 8192⟩, [⟨8192, 4096⟩, ⟨0, 4096⟩]⟩ :=
    ⟨[.allocate 1, .sbrk 8192, .allocate 1, .allocate 1, .free ⟨4096, 4096⟩],
      Run.of_exec call (by decide)⟩
  ⟨_, _, by decide, h.manager_eq h' (by decide) rfl (.swap _ _ _)⟩

theorem Kept.vacant_iff (h : Kept alignBytes s) {n a : Nat} (hPos : 0 < n) :
    s.Vacant n a ↔ ∃ b ∈ s.manager.explicitList, b.start ≤ a ∧ a + n ≤ b.stop := by
  have hFree : s.Vacant n a ↔ ∀ x, a ≤ x → x < a + n → Covered s.manager.explicitList x :=
    forall_congr' fun x => imp_congr_right fun _ => imp_congr_right fun _ =>
      (h.packed.tiles.covered_iff x).symm
  rw [hFree]
  constructor
  · intro hCovered
    obtain ⟨b, hb, hHas⟩ := hCovered a (Nat.le_refl a) (by omega)
    exact ⟨b, hb, hHas.1, h.separated.stop_le hb hHas n hCovered⟩
  · rintro ⟨b, hb, hStart, hStop⟩ x hLow hHigh
    exact ⟨b, hb, by omega, by omega⟩

theorem Kept.lowest_hole (h : Kept alignBytes s) {rawSize : Nat}
    (hPos : 0 < s.manager.computeAlignedSize rawSize) :
    match s.manager.allocate rawSize with
    | .ok (block, _) => block.size = s.manager.computeAlignedSize rawSize ∧
        IsLeast {a | s.Vacant (s.manager.computeAlignedSize rawSize) a} block.start
    | .error _ => ∀ a, ¬ s.Vacant (s.manager.computeAlignedSize rawSize) a := by
  unfold AddressManager.allocate
  dsimp only
  cases hFind : s.manager.explicitList.find? fun block =>
    decide (s.manager.computeAlignedSize rawSize ≤ block.size) with
  | none =>
    intro a hVacant
    obtain ⟨b, hb, hStart, hStop⟩ := (h.vacant_iff hPos).mp hVacant
    have hSmall := find?_eq_none.mp hFind b hb
    simp only [decide_eq_true_eq, Extent.stop] at hSmall hStop
    omega
  | some found =>
    obtain ⟨hLarge, before, behind, hList, hSmall⟩ := find?_eq_some_iff_append.mp hFind
    simp only [decide_eq_true_eq, Bool.not_eq_true', decide_eq_false_iff_not] at hLarge hSmall
    have hFound : found ∈ s.manager.explicitList := hList ▸ mem_append_right _ mem_cons_self
    refine ⟨rfl, (h.vacant_iff hPos).mpr ⟨found, hFound, Nat.le_refl _, ?_⟩, ?_⟩
    · simp only [Extent.stop]
      omega
    · intro a hVacant
      obtain ⟨b, hb, hStart, hStop⟩ := (h.vacant_iff hPos).mp hVacant
      refine le_trans ?_ hStart
      -- a block before the found one is too small for the hole
      rw [hList] at hb
      rcases mem_append.mp hb with hBefore | hBehind
      · have hTooSmall := hSmall b hBefore
        simp only [Extent.stop] at hStop
        omega
      · rcases mem_cons.mp hBehind with rfl | hBehind
        · exact Nat.le_refl _
        · have hSorted := h.sorted
          rw [hList] at hSorted
          exact (pairwise_cons.mp (pairwise_append.mp hSorted).2.1).1 b hBehind

/-- A block is refused only where no hole can take it, and it comes from the lowest hole. -/
theorem Reachable.allocate_lowest (h : Reachable size alignBytes s) (hAlign : 0 < alignBytes)
    {rawSize : Nat} (hPos : 0 < rawSize) :
    match s.manager.allocate rawSize with
    | .ok (block, _) => block.size = s.manager.computeAlignedSize rawSize ∧
        IsLeast {a | s.Vacant (s.manager.computeAlignedSize rawSize) a} block.start
    | .error _ => ∀ a, ¬ s.Vacant (s.manager.computeAlignedSize rawSize) a := by
  have hUnit := (h.held hAlign).aligned_pos hAlign hPos
  rcases h.kept hAlign with rfl | ⟨hKept, -⟩
  · have hRaise : (init 0 alignBytes).manager.allocate rawSize = _ := allocate_init_zero hUnit
    rw [hRaise]
    intro a hVacant
    exact absurd (hVacant a (Nat.le_refl a) (by omega)).1 (Nat.not_lt_zero a)
  · exact hKept.lowest_hole hUnit

theorem allocate_lowest_sample :
    IsLeast {a | Vacant ⟨⟨16384, 4096, [⟨4096, 4096⟩, ⟨12288, 4096⟩], 8192⟩,
      [⟨0, 4096⟩, ⟨8192, 4096⟩]⟩ 4096 a} 4096 :=
  have h : Reachable 16384 4096
      ⟨⟨16384, 4096, [⟨4096, 4096⟩, ⟨12288, 4096⟩], 8192⟩, [⟨0, 4096⟩, ⟨8192, 4096⟩]⟩ :=
    ⟨[.batchedAllocate 1 3, .free ⟨4096, 4096⟩], Run.of_exec call (by decide)⟩
  (h.allocate_lowest (by decide) (show 0 < 100 by decide)).2

end AddressSpace

end LMCache
