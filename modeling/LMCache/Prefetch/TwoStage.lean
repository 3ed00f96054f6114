import LMCache.Prefetch.Plan

/-!
# Optimality of the two-stage lookup

The storage manager folds the L1 presence of all keys, and the prefetch controller folds the keys
after that hit with the lookup results of the adapters. The two hits add up to the greatest prefix
length that L1 and the routed adapters serve together. The locks given back early lie behind the
windows of a length that is already served.
-/

namespace LMCache

open Lib

variable {K : Type}

theorem test_presenceBitmap {keys : List K} {present : K → Bool} {i : Nat} :
    (presenceBitmap keys present).test i = true ↔ ∃ k, keys[i]? = some k ∧ present k = true := by
  simp only [Bitmap.test, presenceBitmap, Bool.and_eq_true, Option.any_eq_true]
  constructor
  · rintro ⟨-, k, hk, hPresent⟩
    exact ⟨k, hk, hPresent⟩
  · rintro ⟨k, hk, hPresent⟩
    exact ⟨decide_eq_true (List.getElem?_eq_some_iff.mp hk).1, k, hk, hPresent⟩

theorem cell_add (numRanks numGroups h j g r : Nat) :
    cell numRanks numGroups (h + j) g r =
      h * (numGroups * numRanks) + cell numRanks numGroups j g r := by
  unfold cell
  ring

section Hits

variable (attn : AttnWindowDesc)

/-- Chunk `j` of group `g` is complete in `found`. -/
abbrev presentIn (found : Bitmap) (j : Nat) (g : Fin attn.numChunksInSw.length) : Prop :=
  presentCells found attn.worldSize attn.numChunksInSw j g

abbrev windows (g : Fin attn.numChunksInSw.length) : Option Nat :=
  groupWindow attn.numChunksInSw g

def prefixHit (numKeys : Nat) (found : Bitmap) : Nat :=
  (buildTrimMask found numKeys .prefixOnly attn).1

variable {attn} {numKeys : Nat}

theorem prefixHit_isGreatest (attn : AttnWindowDesc) (numKeys : Nat) (found : Bitmap) :
    IsGreatest (Window.lengths (windows attn) (presentIn attn found) (numKeys / attn.stride))
      (prefixHit attn numKeys found) :=
  foldUnfoldRanked_isGreatest found (numKeys / attn.stride) attn.worldSize attn.numChunksInSw

variable {found : Bitmap}

theorem prefixHit_mono {found' : Bitmap} (h : ∀ i, found.test i = true → found'.test i = true) :
    prefixHit attn numKeys found ≤ prefixHit attn numKeys found' :=
  Window.le_of_isGreatest (fun _ _ hPresent r hr => h _ (hPresent r hr))
    (prefixHit_isGreatest attn numKeys found) (prefixHit_isGreatest attn numKeys found')

theorem test_retained_cell (j : Nat) (g : Fin attn.numChunksInSw.length) {r : Nat}
    (hr : r < attn.worldSize) : (buildTrimMask found numKeys .prefixOnly attn).2.test
        (cell attn.worldSize attn.numChunksInSw.length j g r) = true ↔
      Window.lo (windows attn g) (prefixHit attn numKeys found) ≤ j ∧
        j < prefixHit attn numKeys found :=
  test_unfold_cell (prefixHit_isGreatest attn numKeys found).1.1 j g hr

/-- A bitmap that keeps the retained window of `held` serves at least the hit of `held`. -/
theorem prefixHit_le_of_retained {held : Bitmap}
    (h : ∀ i, (buildTrimMask held numKeys .prefixOnly attn).2.test i = true → found.test i = true)
    : prefixHit attn numKeys held ≤ prefixHit attn numKeys found := by
  refine (prefixHit_isGreatest attn numKeys found).2
    ⟨(prefixHit_isGreatest attn numKeys held).1.1, ?_⟩
  intro g j hLo hj r hr
  exact h _ ((test_retained_cell j g hr).mpr ⟨hLo, hj⟩)

theorem lt_lo_of_evictable {held : Bitmap} {j r : Nat} {g : Fin attn.numChunksInSw.length}
    (hr : r < attn.worldSize) (h : (evictableLocks held numKeys attn).test
      (cell attn.worldSize attn.numChunksInSw.length j g r) = true) :
    j < Window.lo (windows attn g) (prefixHit attn numKeys held) := by
  simp only [evictableLocks, Bitmap.test_and, Bitmap.test_not, Bitmap.test_leading,
    Bool.and_eq_true, Bool.not_eq_true', decide_eq_true_eq] at h
  obtain ⟨⟨-, -, hOut⟩, -, hWithin⟩ := h
  have hBelow : j < prefixHit attn numKeys held := by
    by_contra hGe
    have hMul := Nat.mul_le_mul_right attn.stride (Nat.le_of_not_lt hGe)
    have hCell : j * attn.stride ≤ cell attn.worldSize attn.numChunksInSw.length j g r := by
      unfold cell AttnWindowDesc.stride AttnWindowDesc.numObjectGroups
      omega
    exact absurd (lt_of_le_of_lt hCell hWithin) (Nat.not_lt.mpr hMul)
  by_contra hLo
  rw [(test_retained_cell j g hr).mpr ⟨Nat.le_of_not_lt hLo, hBelow⟩] at hOut
  cases hOut

end Hits

section LoadPhase

variable {attn : AttnWindowDesc} {numKeys : Nat} {lookupResults : Dict Nat Bitmap}

theorem hitLength_keptLocks (hKeys : attn.stride ∣ numKeys)
    (hSizes : ∀ a bm, lookupResults.get? a = some bm → bm.size = numKeys)
    {held : Bitmap} (hHeld : held.size = numKeys) (routing : List Nat) :
    (loadPhase (keptLocks held numKeys .prefixOnly attn) numKeys .prefixOnly attn lookupResults
        routing).hitLength =
      (loadPhase held numKeys .prefixOnly attn lookupResults routing).hitLength := by
  obtain ⟨hKeptSize, hKept⟩ := keptLocks_spec .prefixOnly attn hHeld (fun _ => hKeys)
  obtain ⟨union, -, hUnion, hHit, -⟩ :=
    loadPhase_union .prefixOnly attn routing hHeld hSizes
  obtain ⟨union', -, hUnion', hHit', -⟩ :=
    loadPhase_union .prefixOnly attn routing hKeptSize hSizes
  rw [hHit, hHit']
  refine IsGreatest.unique (prefixHit_isGreatest attn numKeys union') ?_
  refine Window.isGreatest_of_dropped (s := prefixHit attn numKeys held) ?_ ?_ ?_
    (prefixHit_isGreatest attn numKeys union)
  · intro j g hPresent r hr
    rcases (hUnion' _).mp (hPresent r hr) with hFound | hLock
    · exact (hUnion _).mpr (Or.inl hFound)
    · exact (hUnion _).mpr (Or.inr ((hKept _).mp hLock).1)
  · intro j g hPresent hLo r hr
    rcases (hUnion _).mp (hPresent r hr) with hFound | hLock
    · exact (hUnion' _).mpr (Or.inl hFound)
    · refine (hUnion' _).mpr (Or.inr ((hKept _).mpr ⟨hLock, ?_⟩))
      rintro ⟨-, hEvictable⟩
      exact absurd (lt_lo_of_evictable hr hEvictable) (Nat.not_lt.mpr hLo)
  · have hGreatest := prefixHit_isGreatest attn numKeys held
    refine ⟨hGreatest.1.1, hGreatest.1.2.mono fun j g hPresent r hr => ?_⟩
    exact (hUnion _).mpr (Or.inr (hPresent r hr))

/-- The hit after loading: `loadPlan` is what was submitted, `locks` what stayed locked. -/
def finalHit (attn : AttnWindowDesc) (numKeys : Nat) (loadPlan : LoadPlan)
    (loadResults : Dict Nat Bitmap) (locks : Bitmap) : Nat :=
  prefixHit attn numKeys ((loadedBitmap numKeys loadPlan loadResults).or locks)

inductive LoadEnding (phase : LoadPhase) (held : Bitmap) : LoadPlan → Bitmap → Prop
  | nothingToLoad : LoadEnding phase held Dict.empty held
  | notReserved : LoadEnding phase held Dict.empty phase.l1Readlocks
  | loaded : LoadEnding phase held phase.trimmedPlan phase.l1Readlocks

/-- Whatever the loads return, the final hit lies between the hit of L1 alone and the hit
that the load phase reported. -/
theorem finalHit_bounds (hKeys : attn.stride ∣ numKeys)
    (hSizes : ∀ a bm, lookupResults.get? a = some bm → bm.size = numKeys)
    {held : Bitmap} (hHeld : held.size = numKeys) (routing : List Nat)
    (loadResults : Dict Nat Bitmap) {loadPlan : LoadPlan} {locks : Bitmap}
    (hEnding : LoadEnding (loadPhase held numKeys .prefixOnly attn lookupResults routing) held
      loadPlan locks) :
    prefixHit attn numKeys held ≤ finalHit attn numKeys loadPlan loadResults locks ∧
      finalHit attn numKeys loadPlan loadResults locks ≤
        (loadPhase held numKeys .prefixOnly attn lookupResults routing).hitLength := by
  obtain ⟨union, -, hUnion, hHit, hRetained⟩ :=
    loadPhase_union .prefixOnly attn routing hHeld hSizes
  obtain ⟨hCovers, -, -⟩ := trimmedPlan_spec .prefixOnly attn routing hHeld hSizes (fun _ => hKeys)
  obtain ⟨hLocksSize, hLocks, -⟩ := loadPhase_locks .prefixOnly attn routing hHeld hSizes
    (fun _ => hKeys)
  obtain ⟨hLoadedSize, hLoaded⟩ := loadedBitmap_spec numKeys loadPlan loadResults
  -- what the ending keeps: the window of the L1-only hit, and nothing outside the union
  have hSize : locks.size = numKeys := by
    cases hEnding with
    | nothingToLoad => exact hHeld
    | notReserved => exact hLocksSize
    | loaded => exact hLocksSize
  have hKeep : ∀ i, (buildTrimMask held numKeys .prefixOnly attn).2.test i = true →
      locks.test i = true := by
    intro i hWindow
    have hHeldBit := found_of_trimmed hWindow
    cases hEnding with
    | nothingToLoad => exact hHeldBit
    | notReserved | loaded => exact (hLocks i).mpr ⟨hHeldBit, Or.inr hWindow⟩
  have hLocksUnion : ∀ i, locks.test i = true → union.test i = true := by
    intro i hLock
    refine (hUnion i).mpr (Or.inr ?_)
    cases hEnding with
    | nothingToLoad => exact hLock
    | notReserved => exact ((hLocks i).mp hLock).1
    | loaded => exact ((hLocks i).mp hLock).1
  have hLoadedUnion : ∀ i, loadPlan.Covers i → union.test i = true := by
    intro i hCover
    cases hEnding with
    | nothingToLoad | notReserved =>
      obtain ⟨_, _, hNone, _⟩ := hCover
      cases hNone
    | loaded =>
      have hBit := ((hCovers i).mp hCover).1
      rw [hRetained] at hBit
      exact found_of_trimmed hBit
  have hFinal : ∀ i, ((loadedBitmap numKeys loadPlan loadResults).or locks).test i = true ↔
      (loadedBitmap numKeys loadPlan loadResults).test i = true ∨ locks.test i = true := by
    intro i
    rw [Bitmap.test_or (hLoadedSize.trans hSize.symm), Bool.or_eq_true]
  constructor
  · exact prefixHit_le_of_retained fun i hWindow => (hFinal i).mpr (Or.inr (hKeep i hWindow))
  · rw [hHit]
    refine prefixHit_mono fun i hBit => ?_
    rcases (hFinal i).mp hBit with hLoad | hLock
    · exact hLoadedUnion i (hLoaded i hLoad)
    · exact hLocksUnion i hLock

end LoadPhase

/-- Key `i` is in L1 or in a routed adapter. The controller looks up only the keys from
`boundary` on; what the adapters hold below it is `below`. -/
def Available (keys : List K) (inL1 : K → Bool) (boundary : Nat) (below : Nat → Prop)
    (lookupResults : Dict Nat Bitmap) (routing : List Nat) (i : Nat) : Prop :=
  (∃ k, keys[i]? = some k ∧ inL1 k = true) ∨
    (i < boundary ∧ below i) ∨ (boundary ≤ i ∧ FoundBy lookupResults routing (i - boundary))

/-- Chunk `j` of group `g` after the boundary, by the keys that remain. -/
def shiftedAvailable (attn : AttnWindowDesc) (remaining : List K) (inL1 : K → Bool)
    (lookupResults : Dict Nat Bitmap) (routing : List Nat) (j : Nat)
    (g : Fin attn.numChunksInSw.length) : Prop :=
  ∀ r < attn.worldSize,
    (∃ k, remaining[cell attn.worldSize attn.numChunksInSw.length j g r]? = some k ∧
      inL1 k = true) ∨
    FoundBy lookupResults routing (cell attn.worldSize attn.numChunksInSw.length j g r)

theorem shift_available (attn : AttnWindowDesc) (keys : List K) (inL1 : K → Bool) (h : Nat)
    (below : Nat → Prop) (lookupResults : Dict Nat Bitmap) (routing : List Nat) :
    Window.shift h (fun j (g : Fin attn.numChunksInSw.length) => ∀ r < attn.worldSize,
        Available keys inL1 (h * attn.stride) below lookupResults routing
          (cell attn.worldSize attn.numChunksInSw.length j g r)) =
      shiftedAvailable attn (keys.drop (h * attn.stride)) inL1 lookupResults routing := by
  funext j g
  refine propext (forall_congr' fun r => imp_congr_right fun _ => ?_)
  have hCell : cell attn.worldSize attn.numChunksInSw.length (h + j) g r =
      h * attn.stride + cell attn.worldSize attn.numChunksInSw.length j g r :=
    cell_add _ _ _ _ _ _
  rw [Available, hCell, List.getElem?_drop, Nat.add_sub_cancel_left]
  constructor
  · rintro (hL1 | ⟨hBelow, -⟩ | ⟨-, hFound⟩)
    · exact Or.inl hL1
    · exact absurd hBelow (Nat.not_lt.mpr (Nat.le_add_right _ _))
    · exact Or.inr hFound
  · rintro (hL1 | hFound)
    · exact Or.inl hL1
    · exact Or.inr (Or.inr ⟨Nat.le_add_right _ _, hFound⟩)

/-- The two-stage lookup: its hits add up to the greatest prefix that L1 and the routed
adapters serve together, early releases do not change it, and every ending of the load
stays between the L1-only hit and the reported one. -/
theorem two_stage_lookup (attn : AttnWindowDesc) (keys : List K) (inL1 : K → Bool)
    (numChunks : Nat) (hLength : keys.length = numChunks * attn.stride)
    (lookupResults : Dict Nat Bitmap) (routing : List Nat) (below : Nat → Prop) :
    let first := prefixFold keys attn (presenceBitmap keys inL1)
    let numKeys := first.remainingKeys.length
    let locked := presenceBitmap first.remainingKeys inL1
    let held := keptLocks locked numKeys .prefixOnly attn
    let phase := loadPhase held numKeys .prefixOnly attn lookupResults routing
    (∀ a bm, lookupResults.get? a = some bm → bm.size = numKeys) →
    IsGreatest {L | L ≤ numChunks ∧ ∀ (g : Fin attn.numChunksInSw.length) (j : Nat),
        Window.lo (windows attn g) L ≤ j → j < L → ∀ r < attn.worldSize,
          Available keys inL1 (first.l1HitChunks * attn.stride) below lookupResults routing
            (cell attn.worldSize attn.numChunksInSw.length j g r)}
      (first.l1HitChunks + phase.hitLength) ∧
    phase.hitLength =
      (loadPhase locked numKeys .prefixOnly attn lookupResults routing).hitLength ∧
    ∀ loadResults loadPlan locks, LoadEnding phase held loadPlan locks →
      first.l1HitChunks ≤
        first.l1HitChunks + finalHit attn numKeys loadPlan loadResults locks ∧
      prefixHit attn numKeys held ≤ finalHit attn numKeys loadPlan loadResults locks ∧
      first.l1HitChunks + finalHit attn numKeys loadPlan loadResults locks ≤
        first.l1HitChunks + phase.hitLength := by
  intro first numKeys locked held phase hSizes
  have hStride := attn.stride_pos
  have hChunks : keys.length / attn.stride = numChunks := by
    rw [hLength, Nat.mul_div_cancel _ hStride]
  have hFirst : IsGreatest (Window.lengths (windows attn)
      (presentIn attn (presenceBitmap keys inL1)) numChunks) first.l1HitChunks := by
    rw [← hChunks]
    exact foldUnfoldRanked_isGreatest _ _ _ _
  have hHitLe : first.l1HitChunks ≤ numChunks := hFirst.1.1
  have hNumKeys : numKeys = (numChunks - first.l1HitChunks) * attn.stride := by
    show (keys.drop (first.l1HitChunks * attn.stride)).length = _
    rw [List.length_drop, hLength, Nat.sub_mul]
  have hDvd : attn.stride ∣ numKeys := hNumKeys ▸ Nat.dvd_mul_left _ _
  have hSuffixChunks : numKeys / attn.stride = numChunks - first.l1HitChunks := by
    rw [hNumKeys, Nat.mul_div_cancel _ hStride]
  have hLocked : locked.size = numKeys := rfl
  have hKept := hitLength_keptLocks hDvd hSizes hLocked routing
  have hHeld : held.size = numKeys := (keptLocks_spec .prefixOnly attn hLocked fun _ => hDvd).1
  refine ⟨?_, hKept, ?_⟩
  · obtain ⟨union, -, hUnion, hHit, -⟩ :=
      loadPhase_union .prefixOnly attn routing hLocked hSizes
    have hPhase : phase.hitLength = prefixHit attn numKeys union := hKept.trans hHit
    have hSecond := prefixHit_isGreatest attn numKeys union
    rw [hSuffixChunks] at hSecond
    rw [hPhase]
    refine Window.isGreatest_add ?_ hFirst ?_
    · intro j g hPresent r hr
      exact Or.inl (test_presenceBitmap.mp (hPresent r hr))
    · -- the shifted availability is the presence that the second fold sees
      rw [shift_available]
      have hSeen : shiftedAvailable attn first.remainingKeys inL1 lookupResults routing =
          presentIn attn union := by
        funext j g
        refine propext (forall_congr' fun r => imp_congr_right fun _ => ?_)
        rw [hUnion, test_presenceBitmap]
        exact or_comm
      exact hSeen ▸ hSecond
  · intro loadResults loadPlan locks hEnding
    obtain ⟨hLower, hUpper⟩ := finalHit_bounds hDvd hSizes hHeld routing loadResults hEnding
    exact ⟨Nat.le_add_right _ _, hLower, Nat.add_le_add_left hUpper _⟩

/-- Full attention beside a window of one chunk. -/
def mixedWindows : AttnWindowDesc where
  numChunksInSw := [-1, 1]
  worldSize := 1
  worldSize_pos := AttnWindowDesc.one_worker
  windows_valid := AttnWindowDesc.mixed_valid
  nonempty := AttnWindowDesc.mixed_nonempty

/-- Chunk 0 has lost its windowed object, which the hit of two chunks no longer needs; an
adapter has both objects of chunk 2. -/
theorem mixedWindows_lookup :
    let keys := [0, 1, 2, 3, 4, 5]
    let inL1 : Nat → Bool := [0, 2, 3].contains
    let lookups : Dict Nat Bitmap := Dict.ofList [(0, Bitmap.leading 2 2)]
    (∀ a bm, lookups.get? a = some bm → bm.size = 2) ∧
    (prefixFold keys mixedWindows (presenceBitmap keys inL1)).l1HitChunks = 2 ∧
    IsGreatest {L | L ≤ 3 ∧ ∀ (g : Fin 2) (j : Nat),
      Window.lo (windows mixedWindows g) L ≤ j → j < L → ∀ r < 1,
        Available keys inL1 4 (fun _ => False) lookups [0] (cell 1 2 j g r)} 3 := by
  intro keys inL1 lookups
  have hSizes : ∀ a bm, lookups.get? a = some bm → bm.size = 2 := by
    intro a bm hGet
    cases a with
    | zero =>
      cases hGet
      rfl
    | succ a => cases hGet
  let first := prefixFold keys mixedWindows (presenceBitmap keys inL1)
  have hHit : first.l1HitChunks = 2 := by decide
  have hRemaining : first.remainingKeys.length = 2 := by decide
  have hTotal := (two_stage_lookup mixedWindows keys inL1 3 rfl lookups [0] (fun _ => False)
    fun a bm hGet => (hSizes a bm hGet).trans hRemaining.symm).1
  have hPhase : first.l1HitChunks + (loadPhase (keptLocks
      (presenceBitmap first.remainingKeys inL1) first.remainingKeys.length .prefixOnly mixedWindows)
      first.remainingKeys.length .prefixOnly mixedWindows lookups [0]).hitLength = 3 := by
    decide
  rw [hPhase, hHit] at hTotal
  exact ⟨hSizes, hHit, hTotal⟩

end LMCache
