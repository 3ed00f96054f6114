import LMCache.Lib.Window
import LMCache.Prefetch.Bitmap
import Mathlib.Tactic.Ring

/-!
# Folding presence into a prefix hit

`fold`, `unfold` and `fold_unfold_ranked` of the native kernel. Keys are laid out chunk-major,
then object group, then rank. `fold` marks the prefix lengths that every group can serve, the hit
is the highest of them, and `unfold` expands a hit to the cells that the groups keep for it.
-/

namespace LMCache

open Lib List Nat

/-- Per-object-group attention windows, in chunks: `-1` is full attention. The checks of
`__post_init__` are fields; the kernel refuses an empty list of groups. -/
structure AttnWindowDesc where
  numChunksInSw : List Int
  worldSize : Nat
  worldSize_pos : 1 ≤ worldSize
  windows_valid : ∀ w ∈ numChunksInSw, w = -1 ∨ 1 ≤ w
  nonempty : numChunksInSw ≠ []

namespace AttnWindowDesc

theorem one_worker : 1 ≤ 1 := le_rfl

theorem full_valid : ∀ w ∈ ([-1] : List Int), w = -1 ∨ 1 ≤ w := by decide

theorem full_nonempty : ([-1] : List Int) ≠ [] := by decide

theorem mixed_valid : ∀ w ∈ ([-1, 1] : List Int), w = -1 ∨ 1 ≤ w := by decide

theorem mixed_nonempty : ([-1, 1] : List Int) ≠ [] := by decide

def numObjectGroups (attn : AttnWindowDesc) : Nat := attn.numChunksInSw.length

/-- Keys per chunk. -/
def stride (attn : AttnWindowDesc) : Nat := attn.numObjectGroups * attn.worldSize

end AttnWindowDesc

def chunkPresent (found : Bitmap) (numRanks cbase : Nat) : Bool :=
  (List.range numRanks).all fun r => found.test (cbase + r)

/-- One prefix length of one group: the run of present chunks that ends here, and the
servable lengths so far. -/
def foldStep (found : Bitmap) (numRanks chunkStride gbase effWindow : Nat)
    (state : Nat × Bitmap) (prefixLen : Nat) : Nat × Bitmap :=
  let cbase := (prefixLen - 1) * chunkStride + gbase
  let run := if chunkPresent found numRanks cbase then state.1 + 1 else 0
  if state.2.test (prefixLen - 1) && decide (run < min effWindow prefixLen) then
    (run, state.2.clear (prefixLen - 1))
  else
    (run, state.2)

def foldGroup (found : Bitmap) (numChunks numRanks numGroups : Nat) (servable : Bitmap)
    (group : Int × Nat) : Bitmap :=
  let effWindow := if group.1 ≤ 0 then numChunks else group.1.toNat
  ((List.range' 1 numChunks).foldl
    (foldStep found numRanks (numGroups * numRanks) (group.2 * numRanks) effWindow)
    (0, servable)).2

def fold (found : Bitmap) (numChunks numRanks : Nat) (groupWindows : List Int) : Bitmap :=
  groupWindows.zipIdx.foldl (foldGroup found numChunks numRanks groupWindows.length)
    (Bitmap.leading numChunks numChunks)

/-- First chunk that a group keeps for a hit. -/
def retainLo (window : Int) (hitLength : Nat) : Nat :=
  if 0 < window ∧ window.toNat < hitLength then hitLength - window.toNat else 0

def unfoldGroup (hitLength numRanks numGroups : Nat) (mask : Bitmap) (group : Int × Nat) :
    Bitmap :=
  let lo := retainLo group.1 hitLength
  (List.range' lo (hitLength - lo)).foldl
    (fun mask j =>
      let base := j * (numGroups * numRanks) + group.2 * numRanks
      mask.setRange base (base + numRanks)) mask

def unfold (hitLength numChunks numRanks : Nat) (groupWindows : List Int) : Bitmap :=
  let hitLength := min hitLength numChunks
  let retainMask := Bitmap.zeros (numChunks * (groupWindows.length * numRanks))
  if hitLength = 0 then retainMask
  else groupWindows.zipIdx.foldl (unfoldGroup hitLength numRanks groupWindows.length) retainMask

/-- The model-wide hit length and the cells kept for it. -/
def foldUnfoldRanked (found : Bitmap) (numChunks numRanks : Nat) (groupWindows : List Int) :
    Nat × Bitmap :=
  let servable := fold found numChunks numRanks groupWindows
  let hitLength := (servable.highestSetBit + 1).toNat
  (hitLength, unfold hitLength numChunks numRanks groupWindows)

/-- Bit of chunk `j`, group `g`, rank `r`. -/
def cell (numRanks numGroups j g r : Nat) : Nat := j * (numGroups * numRanks) + g * numRanks + r

theorem cell_eq (numRanks numGroups j g r : Nat) :
    cell numRanks numGroups j g r = (j * numGroups + g) * numRanks + r := by
  unfold cell
  ring

variable {numRanks : Nat} {numGroups r : Nat}

theorem cell_mem_range_iff {j g j' g' : Nat} (hr : r < numRanks) (hg : g < numGroups)
    (hg' : g' < numGroups) : (cell numRanks numGroups j' g' 0 ≤ cell numRanks numGroups j g r ∧
      cell numRanks numGroups j g r < cell numRanks numGroups j' g' 0 + numRanks) ↔
      j' = j ∧ g' = g := by
  constructor
  · rintro ⟨hLe, hLt⟩
    rw [cell_eq, cell_eq, add_zero] at hLe hLt
    -- both sides have the same quotient by the number of ranks
    have hRow : j' * numGroups + g' = j * numGroups + g := by
      apply le_antisymm
      · by_contra hGt
        have hNext : j * numGroups + g + 1 ≤ j' * numGroups + g' := by omega
        have hMul := mul_le_mul_right numRanks hNext
        rw [succ_mul] at hMul
        omega
      · by_contra hGt
        have hNext : j' * numGroups + g' + 1 ≤ j * numGroups + g := by omega
        have hMul := mul_le_mul_right numRanks hNext
        rw [succ_mul] at hMul
        omega
    have hGroup : g' = g := by
      have hMod := congrArg (· % numGroups) hRow
      simpa [mul_comm _ numGroups, mul_add_mod, mod_eq_of_lt hg,
        mod_eq_of_lt hg'] using hMod
    refine ⟨?_, hGroup⟩
    subst hGroup
    exact eq_of_mul_eq_mul_right (zero_lt_of_lt hg) (by omega)
  · rintro ⟨rfl, rfl⟩
    simp only [cell]
    omega

variable {numChunks : Nat}

theorem cell_lt {j g : Nat} (hj : j < numChunks) (hg : g < numGroups) (hr : r < numRanks) :
    cell numRanks numGroups j g r < numChunks * (numGroups * numRanks) := by
  have hGroup : g * numRanks + r < numGroups * numRanks := by
    have hMul := mul_le_mul_right numRanks (succ_le_of_lt hg)
    rw [succ_mul] at hMul
    omega
  have hMul := mul_le_mul_right (numGroups * numRanks) (succ_le_of_lt hj)
  rw [succ_mul] at hMul
  unfold cell
  omega

theorem exists_cell {i : Nat} (hi : i < numChunks * (numGroups * numRanks)) :
    ∃ j g r, j < numChunks ∧ g < numGroups ∧ r < numRanks ∧ i = cell numRanks numGroups j g r := by
  have hStride : 0 < numGroups * numRanks := by
    by_contra hZero
    rw [Nat.eq_zero_of_not_pos hZero] at hi
    omega
  have hRanks : 0 < numRanks := Nat.pos_of_mul_pos_left hStride
  refine ⟨i / (numGroups * numRanks), i % (numGroups * numRanks) / numRanks,
    i % (numGroups * numRanks) % numRanks, ?_, ?_, mod_lt _ hRanks, ?_⟩
  · exact Nat.div_lt_of_lt_mul (by rwa [mul_comm] at hi)
  · exact Nat.div_lt_of_lt_mul (by
      rw [mul_comm numRanks]
      exact mod_lt _ hStride)
  · have hOuter := div_add_mod i (numGroups * numRanks)
    have hInner := div_add_mod (i % (numGroups * numRanks)) numRanks
    unfold cell
    rw [mul_comm (i / _), mul_comm (_ / numRanks), add_assoc, hInner, hOuter]

/-- Length of the run of present chunks that ends before chunk `m`. -/
def runLength (present : Nat → Bool) : Nat → Nat
  | 0 => 0
  | m + 1 => if present m then runLength present m + 1 else 0

theorem le_runLength_iff {present : Nat → Bool} {k m : Nat} :
    k ≤ runLength present m ↔ k ≤ m ∧ ∀ j, m - k ≤ j → j < m → present j = true := by
  induction m generalizing k with
  | zero =>
    simp only [runLength]
    constructor
    · intro hk
      exact ⟨hk, fun j _ hj => absurd hj (not_lt_zero j)⟩
    · exact And.left
  | succ m ih =>
    cases hPresent : present m with
    | false =>
      simp only [runLength, hPresent]
      constructor
      · intro hk
        have hk0 : k = 0 := by simpa using hk
        subst hk0
        exact ⟨zero_le _, fun j hLo hj => by omega⟩
      · rintro ⟨hk, hAll⟩
        by_contra hPos
        have hLast := hAll m (by simp at hPos; omega) (lt_succ_self m)
        rw [hPresent] at hLast
        cases hLast
    | true =>
      simp only [runLength, hPresent, if_true]
      cases k with
      | zero => simp; omega
      | succ k =>
        rw [succ_le_succ_iff, ih]
        constructor
        · rintro ⟨hk, hAll⟩
          refine ⟨by omega, fun j hLo hj => ?_⟩
          by_cases hjm : j = m
          · rw [hjm, hPresent]
          · exact hAll j (by omega) (by omega)
        · rintro ⟨hk, hAll⟩
          exact ⟨by omega, fun j hLo hj => hAll j (by omega) (by omega)⟩

/-- The window of a group, without the encoding of full attention. -/
def windowOf (window : Int) : Option Nat := if window ≤ 0 then none else some window.toNat

/-- After `m` prefix lengths of one group the run and the marks below `m` are settled. -/
theorem foldl_foldStep (found : Bitmap) (numRanks chunkStride gbase effWindow : Nat)
    (servable : Bitmap) (m : Nat) :
    let present := fun j => chunkPresent found numRanks (j * chunkStride + gbase)
    let state := (List.range' 1 m).foldl
      (foldStep found numRanks chunkStride gbase effWindow) (0, servable)
    state.1 = runLength present m ∧ state.2.size = servable.size ∧
      ∀ j, state.2.test j = true ↔ servable.test j = true ∧
        (j < m → min effWindow (j + 1) ≤ runLength present (j + 1)) := by
  intro present
  induction m with
  | zero => simp [runLength]
  | succ m ih =>
    obtain ⟨hRun, hSize, hTest⟩ := ih
    have hNewRun : (if chunkPresent found numRanks (m * chunkStride + gbase) then
        runLength present m + 1 else 0) = runLength present (m + 1) := rfl
    simp only [range'_1_concat, foldl_append, foldl_cons, foldl_nil]
    simp only [foldStep, Nat.add_sub_cancel_left, hRun, hNewRun]
    split
    · rename_i hDrop
      simp only [Bool.and_eq_true, decide_eq_true_eq] at hDrop
      refine ⟨rfl, by rw [Bitmap.size_clear, hSize], fun j => ?_⟩
      simp only [Bitmap.test_clear, Bool.and_eq_true, Bool.not_eq_true', decide_eq_false_iff_not,
        hTest j]
      constructor
      · rintro ⟨hne, hOld, hBelow⟩
        exact ⟨hOld, fun hj => hBelow (by omega)⟩
      · rintro ⟨hOld, hBelow⟩
        refine ⟨?_, hOld, fun hj => hBelow (by omega)⟩
        rintro rfl
        have hEnough := hBelow (lt_succ_self j)
        omega
    · rename_i hKeep
      refine ⟨rfl, hSize, fun j => ?_⟩
      rw [hTest j]
      constructor
      · rintro ⟨hOld, hBelow⟩
        refine ⟨hOld, fun hj => ?_⟩
        by_cases hjm : j < m
        · exact hBelow hjm
        · obtain rfl : j = m := by omega
          have hMarked := (hTest j).mpr ⟨hOld, hBelow⟩
          by_contra hShort
          refine hKeep ?_
          simp only [Bool.and_eq_true, decide_eq_true_eq]
          exact ⟨hMarked, by omega⟩
      · rintro ⟨hOld, hBelow⟩
        exact ⟨hOld, fun hj => hBelow (by omega)⟩

/-- A run covers the window of a prefix exactly when the window's chunks are present. -/
theorem min_le_runLength_iff {present : Nat → Bool} {window : Int} {L : Nat} (hL : L ≤ numChunks)
    : min (if window ≤ 0 then numChunks else window.toNat) L ≤ runLength present L ↔
      ∀ j, Window.lo (windowOf window) L ≤ j → j < L → present j = true := by
  rw [le_runLength_iff]
  have hLo : L - min (if window ≤ 0 then numChunks else window.toNat) L =
      Window.lo (windowOf window) L := by
    unfold windowOf
    split
    · simp only [Window.lo]
      omega
    · simp only [Window.lo]
      omega
  rw [hLo]
  exact ⟨And.right, fun h => ⟨min_le_right _ _, h⟩⟩

theorem foldGroup_spec (found : Bitmap) (numChunks numRanks numGroups : Nat) (servable : Bitmap)
    (hSize : servable.size = numChunks) (group : Int × Nat) :
    (foldGroup found numChunks numRanks numGroups servable group).size = numChunks ∧
      ∀ j, (foldGroup found numChunks numRanks numGroups servable group).test j = true ↔
        servable.test j = true ∧
          ∀ i, Window.lo (windowOf group.1) (j + 1) ≤ i → i < j + 1 →
            chunkPresent found numRanks
              (i * (numGroups * numRanks) + group.2 * numRanks) = true := by
  obtain ⟨-, hSize', hTest⟩ := foldl_foldStep found numRanks (numGroups * numRanks)
    (group.2 * numRanks) (if group.1 ≤ 0 then numChunks else group.1.toNat) servable numChunks
  refine ⟨hSize'.trans hSize, fun j => ?_⟩
  refine (hTest j).trans (and_congr_right fun hOld => ?_)
  have hj : j < numChunks := hSize ▸ Bitmap.lt_size_of_test hOld
  have hLe : j + 1 ≤ numChunks := hj
  rw [← min_le_runLength_iff hLe]
  exact ⟨fun h => h hj, fun h _ => h⟩

theorem foldl_foldGroup_spec (found : Bitmap) (numChunks numRanks numGroups : Nat)
    (groups : List (Int × Nat)) (servable : Bitmap) (hSize : servable.size = numChunks) :
    (groups.foldl (foldGroup found numChunks numRanks numGroups) servable).size = numChunks ∧
      ∀ j, (groups.foldl (foldGroup found numChunks numRanks numGroups) servable).test j = true ↔
        servable.test j = true ∧ ∀ group ∈ groups,
          ∀ i, Window.lo (windowOf group.1) (j + 1) ≤ i → i < j + 1 →
            chunkPresent found numRanks
              (i * (numGroups * numRanks) + group.2 * numRanks) = true := by
  induction groups generalizing servable with
  | nil => exact ⟨hSize, by simp⟩
  | cons group rest ih =>
    obtain ⟨hSize', hTest⟩ := foldGroup_spec found numChunks numRanks numGroups servable hSize group
    obtain ⟨hSizeRest, hRest⟩ := ih _ hSize'
    refine ⟨hSizeRest, fun j => ?_⟩
    rw [foldl_cons, hRest j, hTest j]
    simp only [forall_mem_cons, and_assoc]

/-- Windows of the groups, as the abstract theory has them. -/
def groupWindow (groupWindows : List Int) (g : Fin groupWindows.length) : Option Nat :=
  windowOf (groupWindows.get g)

/-- Every rank of chunk `j` of group `g` is present in `found`. -/
def presentCells (found : Bitmap) (numRanks : Nat) (groupWindows : List Int) (j : Nat)
    (g : Fin groupWindows.length) : Prop :=
  ∀ r < numRanks, found.test (cell numRanks groupWindows.length j g r) = true

variable {found : Bitmap}

theorem chunkPresent_iff {cbase : Nat} :
    chunkPresent found numRanks cbase = true ↔ ∀ r < numRanks, found.test (cbase + r) = true := by
  simp [chunkPresent]

theorem test_fold (found : Bitmap) (numChunks numRanks : Nat) (groupWindows : List Int) (j : Nat) :
    (fold found numChunks numRanks groupWindows).test j = true ↔
      j < numChunks ∧ Window.Servable (groupWindow groupWindows)
        (presentCells found numRanks groupWindows) (j + 1) := by
  obtain ⟨-, hTest⟩ := foldl_foldGroup_spec found numChunks numRanks groupWindows.length
    groupWindows.zipIdx (Bitmap.leading numChunks numChunks) rfl
  rw [fold, hTest j]
  refine and_congr (by simp) ?_
  constructor
  · intro h g i hLo hi r hr
    have hGroup := h (groupWindows.get g, g.val) (mem_zipIdx_iff_getElem?.mpr (by simp)) i hLo hi
    exact chunkPresent_iff.mp hGroup r hr
  · rintro h ⟨window, g⟩ hMem i hLo hi
    have hGet : groupWindows[g]? = some window := mem_zipIdx_iff_getElem?.mp hMem
    obtain ⟨hg, rfl⟩ := List.getElem?_eq_some_iff.mp hGet
    exact chunkPresent_iff.mpr (h ⟨g, hg⟩ i hLo hi)

theorem size_fold (found : Bitmap) (numChunks numRanks : Nat) (groupWindows : List Int) :
    (fold found numChunks numRanks groupWindows).size = numChunks :=
  (foldl_foldGroup_spec found numChunks numRanks groupWindows.length groupWindows.zipIdx
    (Bitmap.leading numChunks numChunks) rfl).1

theorem foldUnfoldRanked_isGreatest (found : Bitmap) (numChunks numRanks : Nat)
    (groupWindows : List Int) :
    IsGreatest (Window.lengths (groupWindow groupWindows)
        (presentCells found numRanks groupWindows) numChunks)
      (foldUnfoldRanked found numChunks numRanks groupWindows).1 := by
  obtain ⟨h, hGreatest⟩ := Window.exists_isGreatest (w := groupWindow groupWindows)
    (P := presentCells found numRanks groupWindows) numChunks
  have hHighest : (fold found numChunks numRanks groupWindows).highestSetBit = (h : Int) - 1 := by
    refine Bitmap.highestSetBit_eq ?_ ?_ ?_
    · rw [size_fold]
      exact hGreatest.1.1
    · intro hPos
      have hLe := hGreatest.1.1
      refine (test_fold _ _ _ _ _).mpr ⟨by omega, ?_⟩
      rw [Nat.sub_add_cancel hPos]
      exact hGreatest.1.2
    · intro i hi
      by_contra hTest
      obtain ⟨hLt, hServable⟩ := (test_fold _ _ _ _ _).mp (Bool.not_eq_false _ ▸ hTest)
      have hLe := hGreatest.2 ⟨hLt, hServable⟩
      omega
  have hHit : (foldUnfoldRanked found numChunks numRanks groupWindows).1 = h := by
    simp only [foldUnfoldRanked, hHighest]
    omega
  rw [hHit]
  exact hGreatest

theorem retainLo_eq (window : Int) (hitLength : Nat) :
    retainLo window hitLength = Window.lo (windowOf window) hitLength := by
  unfold retainLo windowOf
  by_cases hWindow : window ≤ 0
  · rw [if_neg (by omega), if_pos hWindow]
    rfl
  · rw [if_neg hWindow]
    simp only [Window.lo]
    split <;> omega

theorem foldl_setRange (bases : List Nat) (width : Nat) (base : Nat → Nat) (mask : Bitmap) :
    (bases.foldl (fun mask j => mask.setRange (base j) (base j + width)) mask).size = mask.size ∧
      ∀ i, (bases.foldl (fun mask j => mask.setRange (base j) (base j + width)) mask).test i =
          true ↔
        mask.test i = true ∨ (i < mask.size ∧ ∃ j ∈ bases, base j ≤ i ∧ i < base j + width) := by
  induction bases generalizing mask with
  | nil => simp
  | cons a rest ih =>
    obtain ⟨hSize, hTest⟩ := ih (mask.setRange (base a) (base a + width))
    refine ⟨hSize, fun i => ?_⟩
    rw [foldl_cons, hTest i]
    simp only [Bitmap.test_setRange, Bitmap.size_setRange, Bool.or_eq_true, Bool.and_eq_true,
      decide_eq_true_eq, exists_mem_cons_iff]
    rw [and_or_left, ← or_assoc, or_comm (b := mask.test i = true)]

theorem foldl_unfoldGroup (hitLength numRanks numGroups : Nat) (groups : List (Int × Nat))
    (mask : Bitmap) :
    (groups.foldl (unfoldGroup hitLength numRanks numGroups) mask).size = mask.size ∧
      ∀ i, (groups.foldl (unfoldGroup hitLength numRanks numGroups) mask).test i = true ↔
        mask.test i = true ∨ (i < mask.size ∧ ∃ group ∈ groups, ∃ j,
          Window.lo (windowOf group.1) hitLength ≤ j ∧ j < hitLength ∧
          cell numRanks numGroups j group.2 0 ≤ i ∧
          i < cell numRanks numGroups j group.2 0 + numRanks) := by
  induction groups generalizing mask with
  | nil => simp
  | cons group rest ih =>
    obtain ⟨hSizeGroup, hGroup⟩ := foldl_setRange
      (List.range' (retainLo group.1 hitLength) (hitLength - retainLo group.1 hitLength)) numRanks
      (fun j => j * (numGroups * numRanks) + group.2 * numRanks) mask
    obtain ⟨hSize, hTest⟩ := ih (unfoldGroup hitLength numRanks numGroups mask group)
    refine ⟨hSize.trans hSizeGroup, fun i => ?_⟩
    have hLoLe := Window.lo_le (windowOf group.1) hitLength
    have hStep : (unfoldGroup hitLength numRanks numGroups mask group).test i = true ↔
        mask.test i = true ∨ (i < mask.size ∧ ∃ j,
          Window.lo (windowOf group.1) hitLength ≤ j ∧ j < hitLength ∧
          cell numRanks numGroups j group.2 0 ≤ i ∧
          i < cell numRanks numGroups j group.2 0 + numRanks) := by
      refine (hGroup i).trans (or_congr_right (and_congr_right fun _ => exists_congr fun j => ?_))
      simp only [mem_range'_1, retainLo_eq, cell, add_zero]
      constructor
      · rintro ⟨⟨hLo, hHi⟩, hCell⟩
        exact ⟨hLo, by omega, hCell⟩
      · rintro ⟨hLo, hHi, hCell⟩
        exact ⟨⟨hLo, by omega⟩, hCell⟩
    have hSizeStep : (unfoldGroup hitLength numRanks numGroups mask group).size = mask.size :=
      hSizeGroup
    rw [foldl_cons, hTest i, hStep, hSizeStep]
    simp only [exists_mem_cons_iff]
    rw [and_or_left, or_assoc]

variable {groupWindows : List Int}

@[simp] theorem size_unfold (hitLength numChunks numRanks : Nat) (groupWindows : List Int) :
    (unfold hitLength numChunks numRanks groupWindows).size =
      numChunks * (groupWindows.length * numRanks) := by
  simp only [LMCache.unfold]
  split
  · rfl
  · exact (foldl_unfoldGroup _ _ _ _ _).1

theorem test_unfold_cell {hitLength : Nat} (hHit : hitLength ≤ numChunks) (j : Nat)
    (g : Fin groupWindows.length) (hr : r < numRanks) :
    (unfold hitLength numChunks numRanks groupWindows).test
        (cell numRanks groupWindows.length j g r) = true ↔
      Window.lo (groupWindow groupWindows g) hitLength ≤ j ∧ j < hitLength := by
  simp only [LMCache.unfold, min_eq_left hHit]
  split
  · rename_i hZero
    simp [hZero]
  · rw [(foldl_unfoldGroup _ _ _ _ _).2]
    simp only [Bitmap.test_zeros, Bool.false_eq_true, false_or, Bitmap.size_zeros]
    constructor
    · rintro ⟨-, ⟨window, g'⟩, hMem, j', hLo, hj', hCell⟩
      have hGet : groupWindows[g']? = some window := mem_zipIdx_iff_getElem?.mp hMem
      obtain ⟨hg', rfl⟩ := List.getElem?_eq_some_iff.mp hGet
      obtain ⟨rfl, rfl⟩ := (cell_mem_range_iff hr g.isLt hg').mp hCell
      exact ⟨hLo, hj'⟩
    · rintro ⟨hLo, hj⟩
      refine ⟨cell_lt (lt_of_lt_of_le hj hHit) g.isLt hr, (groupWindows.get g, g.val),
        mem_zipIdx_iff_getElem?.mpr (by simp), j, hLo, hj, ?_⟩
      exact (cell_mem_range_iff hr g.isLt g.isLt).mpr ⟨rfl, rfl⟩

theorem found_of_retained {i : Nat}
    (h : (foldUnfoldRanked found numChunks numRanks groupWindows).2.test i = true) :
    found.test i = true := by
  have hGreatest := foldUnfoldRanked_isGreatest found numChunks numRanks groupWindows
  have hSize : i < numChunks * (groupWindows.length * numRanks) := by
    have := Bitmap.lt_size_of_test h
    rwa [foldUnfoldRanked, size_unfold] at this
  obtain ⟨j, g, r, hj, hg, hr, rfl⟩ := exists_cell hSize
  have hCell := (test_unfold_cell hGreatest.1.1 j ⟨g, hg⟩ hr).mp h
  exact hGreatest.1.2 ⟨g, hg⟩ j hCell.1 hCell.2 r hr

end LMCache
