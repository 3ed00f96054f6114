import LMCache.Lib.Dict
import LMCache.Prefetch.Fold
import Mathlib.Data.List.Sort

/-!
# Planning a prefetch

The parts of the prefetch path that only compute on bitmaps: the retained subset of a trim policy,
the load plan of the default policy, and the decisions of the controller that use them. Bitmaps of
one request all have one bit per key, and adapters return lookup results of that size.
-/

namespace LMCache

open Lib Bitmap Dict List

/-- How to pick the retained subset of the found keys. -/
inductive TrimPolicy
  | prefixOnly
  | segmentedPrefix
  | sparse
deriving DecidableEq, Repr

inductive PrefetchMode
  | lookup
  | warm
deriving DecidableEq, Repr

abbrev LoadPlan := Dict Nat Bitmap

def mergeBitmaps (bitmaps : List Bitmap) (numKeys : Nat) : Bitmap :=
  bitmaps.foldl Bitmap.or (Bitmap.zeros numKeys)

/-- Prefix hit in chunks, and the subset of `found` to keep. -/
def buildTrimMask (found : Bitmap) (numKeys : Nat) (policy : TrimPolicy)
    (attn : AttnWindowDesc) : Nat × Bitmap :=
  match policy with
  | .prefixOnly =>
    foldUnfoldRanked found (numKeys / attn.stride) attn.worldSize attn.numChunksInSw
  | .segmentedPrefix | .sparse => (found.clo / attn.stride, found)

def trimLoadPlanWithMask (loadPlan : LoadPlan) (mask : Bitmap) : LoadPlan :=
  loadPlan.filterMapValues fun bitmap =>
    if (bitmap.and mask).popcount = 0 then none else some (bitmap.and mask)

/-- One adapter of `DefaultPrefetchPolicy.select_load_plan`: it takes the keys it has among
the ones nobody took yet. -/
def selectStep (lookupResults : Dict Nat Bitmap) (state : LoadPlan × Bitmap) (index : Nat) :
    LoadPlan × Bitmap :=
  match lookupResults.get? index with
  | none => state
  | some curr =>
    let taken := state.2.and curr
    let rest := state.2.and taken.not
    if taken.popcount = 0 then (state.1, rest) else (state.1.set index taken, rest)

def selectLoadPlan (numKeys : Nat) (lookupResults : Dict Nat Bitmap) (adapters : List Nat) :
    LoadPlan :=
  ((adapters.insertionSort (· ≤ ·)).foldl (selectStep lookupResults)
    (Dict.empty, mergeBitmaps lookupResults.values numKeys)).1

/-- Locked sliding-window chunks behind the window of the L1 prefix hit. -/
def evictableLocks (l1Readlocks : Bitmap) (numKeys : Nat) (attn : AttnWindowDesc) : Bitmap :=
  let trim := buildTrimMask l1Readlocks numKeys .prefixOnly attn
  (l1Readlocks.and trim.2.not).and (Bitmap.leading numKeys (trim.1 * attn.stride))

/-- Keys that stay locked after `_lock_l1_keys`, given the ones it locked. -/
def keptLocks (l1Readlocks : Bitmap) (numKeys : Nat) (policy : TrimPolicy)
    (attn : AttnWindowDesc) : Bitmap :=
  if policy ≠ .prefixOnly then l1Readlocks
  else
    let evictable := evictableLocks l1Readlocks numKeys attn
    if evictable.popcount > 0 then l1Readlocks.and evictable.not else l1Readlocks

/-- Keys the load phase counts as found: in L1, or in the plan. -/
def loadUnion (l1Readlocks : Bitmap) (numKeys : Nat) (loadPlan : LoadPlan) : Bitmap :=
  (mergeBitmaps loadPlan.values numKeys).or l1Readlocks

structure LoadPhase where
  trimmedPlan : LoadPlan
  hitLength : Nat
  retained : Bitmap
  stale : Bitmap
  l1Readlocks : Bitmap

def loadPhase (l1Readlocks : Bitmap) (numKeys : Nat) (policy : TrimPolicy)
    (attn : AttnWindowDesc) (lookupResults : Dict Nat Bitmap) (routing : List Nat) : LoadPhase :=
  let loadPlan := trimLoadPlanWithMask (selectLoadPlan numKeys lookupResults routing)
    l1Readlocks.not
  let trim := buildTrimMask (loadUnion l1Readlocks numKeys loadPlan) numKeys policy attn
  let l1FallbackRetain := (buildTrimMask l1Readlocks numKeys policy attn).2
  let stale := (l1Readlocks.and trim.2.not).and l1FallbackRetain.not
  { trimmedPlan := trimLoadPlanWithMask loadPlan trim.2
    hitLength := trim.1
    retained := trim.2
    stale := stale
    l1Readlocks :=
      if stale.popcount > 0 then l1Readlocks.and (trim.2.or l1FallbackRetain) else l1Readlocks }

/-- Key indices whose load succeeded: each adapter reports on its own keys only. -/
def loadedBitmap (numKeys : Nat) (loadPlan : LoadPlan) (loadResults : Dict Nat Bitmap) : Bitmap :=
  loadPlan.entries.foldl (fun result entry =>
    match loadResults.get? entry.1 with
    | none => result
    | some loadBitmap => result.batchedSet (loadBitmap.gather entry.2.getIndicesList))
    (Bitmap.zeros numKeys)

/-- Presence of the keys of a request, by a per-key test. -/
def presenceBitmap {K : Type} (keys : List K) (present : K → Bool) : Bitmap :=
  ⟨keys.length, fun i => keys[i]?.any present⟩

/-- What `StorageManager._submit_prefix_fold` decides from the L1 presence. -/
structure PrefixFold (K : Type) where
  l1HitChunks : Nat
  retain : Bitmap
  released : Bitmap
  remainingKeys : List K

def prefixFold {K : Type} (keys : List K) (attn : AttnWindowDesc) (l1Presence : Bitmap) :
    PrefixFold K :=
  let trim := foldUnfoldRanked l1Presence (keys.length / attn.stride) attn.worldSize
    attn.numChunksInSw
  { l1HitChunks := trim.1
    retain := trim.2
    released := l1Presence.and trim.2.not
    remainingKeys := keys.drop (trim.1 * attn.stride) }

section

variable {numKeys : Nat} {attn : AttnWindowDesc} {policy : TrimPolicy} {found : Bitmap}

theorem AttnWindowDesc.stride_pos (attn : AttnWindowDesc) : 0 < attn.stride :=
  Nat.mul_pos (length_pos_iff.mpr attn.nonempty) attn.worldSize_pos

theorem found_of_trimmed {i : Nat}
    (h : (buildTrimMask found numKeys policy attn).2.test i = true) : found.test i = true := by
  cases policy with
  | prefixOnly => exact found_of_retained h
  | segmentedPrefix => exact h
  | sparse => exact h

theorem size_buildTrimMask (hFound : found.size = numKeys)
    (hKeys : policy = .prefixOnly → attn.stride ∣ numKeys) :
    (buildTrimMask found numKeys policy attn).2.size = numKeys := by
  cases policy with
  | prefixOnly =>
    simp only [buildTrimMask, foldUnfoldRanked, size_unfold]
    exact Nat.div_mul_cancel (hKeys rfl)
  | segmentedPrefix => exact hFound
  | sparse => exact hFound

end

theorem foldl_or_spec {numKeys : Nat} (bitmaps : List Bitmap) (b : Bitmap)
    (hb : b.size = numKeys) (hSizes : ∀ bm ∈ bitmaps, bm.size = numKeys) :
    (bitmaps.foldl Bitmap.or b).size = numKeys ∧
      ∀ i, (bitmaps.foldl Bitmap.or b).test i = true ↔
        b.test i = true ∨ ∃ bm ∈ bitmaps, bm.test i = true := by
  induction bitmaps generalizing b with
  | nil => exact ⟨hb, by simp⟩
  | cons bm rest ih =>
    have hEq : b.size = bm.size := hb.trans (hSizes bm (by simp)).symm
    obtain ⟨hSize, hTest⟩ := ih (b.or bm)
      ((size_or hEq).trans (hSizes bm (by simp))) fun x hx => hSizes x (by simp [hx])
    refine ⟨hSize, fun i => ?_⟩
    rw [foldl_cons, hTest i, test_or hEq, Bool.or_eq_true, or_assoc]
    simp

theorem mergeBitmaps_spec {numKeys : Nat} {bitmaps : List Bitmap}
    (hSizes : ∀ bm ∈ bitmaps, bm.size = numKeys) :
    (mergeBitmaps bitmaps numKeys).size = numKeys ∧
      ∀ i, (mergeBitmaps bitmaps numKeys).test i = true ↔ ∃ bm ∈ bitmaps, bm.test i = true := by
  obtain ⟨hSize, hTest⟩ := foldl_or_spec bitmaps (Bitmap.zeros numKeys) rfl hSizes
  exact ⟨hSize, fun i => by simpa [mergeBitmaps] using hTest i⟩

variable {loadPlan : LoadPlan}

theorem get?_trimLoadPlanWithMask {mask : Bitmap} {a : Nat} {bm : Bitmap} :
    (trimLoadPlanWithMask loadPlan mask).get? a = some bm ↔
      ∃ planned, loadPlan.get? a = some planned ∧ (planned.and mask).popcount ≠ 0 ∧
        bm = planned.and mask := by
  rw [trimLoadPlanWithMask, get?_filterMapValues]
  refine exists_congr fun planned => and_congr_right fun _ => ?_
  by_cases h : (planned.and mask).popcount = 0
  · simp [h]
  · simp [h, eq_comm]

def LoadPlan.Covers (loadPlan : LoadPlan) (i : Nat) : Prop :=
  ∃ a bm, loadPlan.get? a = some bm ∧ bm.test i = true

theorem covers_trim_iff {mask : Bitmap} {i : Nat} :
    (trimLoadPlanWithMask loadPlan mask).Covers i ↔ loadPlan.Covers i ∧ mask.test i = true := by
  constructor
  · rintro ⟨a, bm, hGet, hTest⟩
    obtain ⟨planned, hPlan, -, rfl⟩ := get?_trimLoadPlanWithMask.mp hGet
    rw [test_and, Bool.and_eq_true] at hTest
    exact ⟨⟨a, planned, hPlan, hTest.1⟩, hTest.2⟩
  · rintro ⟨⟨a, planned, hPlan, hTest⟩, hMask⟩
    have hBoth : (planned.and mask).test i = true := by
      rw [test_and, hTest, hMask]
      rfl
    refine ⟨a, planned.and mask, get?_trimLoadPlanWithMask.mpr ⟨planned, hPlan, ?_, rfl⟩, hBoth⟩
    intro hZero
    rw [popcount_eq_zero_iff.mp hZero i] at hBoth
    cases hBoth

theorem merge_covers_iff {numKeys : Nat}
    (hSizes : ∀ a bm, loadPlan.get? a = some bm → bm.size = numKeys) {i : Nat} :
    (mergeBitmaps loadPlan.values numKeys).test i = true ↔ loadPlan.Covers i := by
  rw [(mergeBitmaps_spec fun bm hbm => by
    obtain ⟨a, ha⟩ := mem_values_iff.mp hbm
    exact hSizes a bm ha).2]
  constructor
  · rintro ⟨bm, hbm, hTest⟩
    obtain ⟨a, ha⟩ := mem_values_iff.mp hbm
    exact ⟨a, bm, ha, hTest⟩
  · rintro ⟨a, bm, ha, hTest⟩
    exact ⟨bm, mem_values_iff.mpr ⟨a, ha⟩, hTest⟩

section Select

variable {numKeys : Nat} {lookupResults : Dict Nat Bitmap}

/-- After the adapters in `seen`: the plan covers what they have, each key once, and the
rest is what nobody took. -/
structure SelectInv (numKeys : Nat) (lookupResults : Dict Nat Bitmap) (seen : List Nat)
    (state : LoadPlan × Bitmap) : Prop where
  size_rest : state.2.size = numKeys
  rest_iff : ∀ i, state.2.test i = true ↔
    (∃ a bm, lookupResults.get? a = some bm ∧ bm.test i = true) ∧
      ¬∃ a ∈ seen, ∃ bm, lookupResults.get? a = some bm ∧ bm.test i = true
  covers_iff : ∀ i, state.1.Covers i ↔
    ∃ a ∈ seen, ∃ bm, lookupResults.get? a = some bm ∧ bm.test i = true
  planned : ∀ a bm, state.1.get? a = some bm → bm.size = numKeys ∧ a ∈ seen ∧
    ∃ found, lookupResults.get? a = some found ∧ ∀ i, bm.test i = true → found.test i = true
  disjoint : ∀ a a' bm bm' i, state.1.get? a = some bm → state.1.get? a' = some bm' →
    bm.test i = true → bm'.test i = true → a = a'

variable {seen : List Nat} {state : LoadPlan × Bitmap}

theorem SelectInv.step (hSizes : ∀ a bm, lookupResults.get? a = some bm → bm.size = numKeys)
    (h : SelectInv numKeys lookupResults seen state) (index : Nat) :
    SelectInv numKeys lookupResults (index :: seen) (selectStep lookupResults state index) := by
  unfold selectStep
  cases hLookup : lookupResults.get? index with
  | none =>
    -- the adapter answered no lookup, so it adds nothing to what was seen
    have hSeen : ∀ i, (∃ a ∈ index :: seen, ∃ bm, lookupResults.get? a = some bm ∧
        bm.test i = true) ↔ ∃ a ∈ seen, ∃ bm, lookupResults.get? a = some bm ∧
          bm.test i = true := by
      intro i
      simp [hLookup]
    refine ⟨h.size_rest, fun i => ?_, fun i => ?_, fun a bm hGet => ?_, h.disjoint⟩
    · rw [h.rest_iff i, hSeen i]
    · rw [h.covers_iff i, hSeen i]
    · obtain ⟨hSize, hMem, hFound⟩ := h.planned a bm hGet
      exact ⟨hSize, mem_cons_of_mem _ hMem, hFound⟩
  | some curr =>
    have hCurrSize := hSizes index curr hLookup
    have hTakenSize : (state.2.and curr).size = numKeys :=
      (size_and (h.size_rest.trans hCurrSize.symm)).trans hCurrSize
    have hSeen : ∀ i, (∃ a ∈ index :: seen, ∃ bm, lookupResults.get? a = some bm ∧
        bm.test i = true) ↔ curr.test i = true ∨
          ∃ a ∈ seen, ∃ bm, lookupResults.get? a = some bm ∧ bm.test i = true := by
      intro i
      simp [hLookup]
    have hTaken : ∀ i, (state.2.and curr).test i = true ↔ curr.test i = true ∧
        ¬∃ a ∈ seen, ∃ bm, lookupResults.get? a = some bm ∧ bm.test i = true := by
      intro i
      rw [test_and, Bool.and_eq_true, h.rest_iff i]
      constructor
      · rintro ⟨⟨-, hNot⟩, hCurr⟩
        exact ⟨hCurr, hNot⟩
      · rintro ⟨hCurr, hNot⟩
        exact ⟨⟨⟨index, curr, hLookup, hCurr⟩, hNot⟩, hCurr⟩
    have hRest : ∀ i, (state.2.and (state.2.and curr).not).test i = true ↔
        (∃ a bm, lookupResults.get? a = some bm ∧ bm.test i = true) ∧
          ¬∃ a ∈ index :: seen, ∃ bm, lookupResults.get? a = some bm ∧ bm.test i = true := by
      intro i
      rw [test_and, test_not, Bool.and_eq_true, Bool.and_eq_true, Bool.not_eq_true',
        ← Bool.not_eq_true, hTaken i, h.rest_iff i, hSeen i, decide_eq_true_eq, hTakenSize]
      constructor
      · rintro ⟨⟨hAny, hNot⟩, -, hNotTaken⟩
        refine ⟨hAny, ?_⟩
        rintro (hCurr | hOld)
        · exact hNotTaken ⟨hCurr, hNot⟩
        · exact hNot hOld
      · rintro ⟨hAny, hNot⟩
        obtain ⟨a, bm, hGet, hTest⟩ := hAny
        have hLt : i < numKeys := hSizes a bm hGet ▸ lt_size_of_test hTest
        exact ⟨⟨⟨a, bm, hGet, hTest⟩, fun hOld => hNot (Or.inr hOld)⟩, hLt,
          fun hBoth => hNot (Or.inl hBoth.1)⟩
    have hRestSize : (state.2.and (state.2.and curr).not).size = numKeys :=
      (size_and (h.size_rest.trans hTakenSize.symm)).trans hTakenSize
    dsimp only
    split
    · rename_i hEmpty
      have hNone := popcount_eq_zero_iff.mp hEmpty
      refine ⟨hRestSize, hRest, fun i => ?_, fun a bm hGet => ?_, h.disjoint⟩
      · rw [h.covers_iff i, hSeen i]
        refine ⟨Or.inr, ?_⟩
        rintro (hCurr | hOld)
        · by_contra hNot
          have hTrue := (hTaken i).mpr ⟨hCurr, hNot⟩
          rw [hNone i] at hTrue
          cases hTrue
        · exact hOld
      · obtain ⟨hSize, hMem, hFound⟩ := h.planned a bm hGet
        exact ⟨hSize, mem_cons_of_mem _ hMem, hFound⟩
    · rename_i hNonempty
      have hNew : state.1.get? index = none := by
        -- an adapter that was already planned has nothing left to take
        by_contra hOld
        obtain ⟨bm, hGet⟩ := Option.ne_none_iff_exists'.mp hOld
        obtain ⟨-, hMem, -⟩ := h.planned index bm hGet
        refine hNonempty (popcount_eq_zero_iff.mpr fun i => ?_)
        by_contra hTrue
        obtain ⟨hCurr, hNot⟩ := (hTaken i).mp (Bool.not_eq_false _ ▸ hTrue)
        exact hNot ⟨index, hMem, curr, hLookup, hCurr⟩
      have hOther : ∀ a bm, state.1.get? a = some bm → index ≠ a := by
        rintro a bm hGet rfl
        rw [hNew] at hGet
        cases hGet
      refine ⟨hRestSize, hRest, fun i => ?_, fun a bm hGet => ?_, ?_⟩
      · rw [hSeen i, ← h.covers_iff i]
        constructor
        · rintro ⟨a, bm, hGet, hTest⟩
          obtain ⟨-, rfl⟩ | ⟨-, hGet⟩ := get?_set_cases hGet
          · exact Or.inl ((hTaken i).mp hTest).1
          · exact Or.inr ⟨a, bm, hGet, hTest⟩
        · intro hEither
          by_cases hOld : state.1.Covers i
          · obtain ⟨a, bm, hGet, hTest⟩ := hOld
            exact ⟨a, bm, by rw [get?_set_ne _ (hOther a bm hGet), hGet], hTest⟩
          · have hCurr := hEither.resolve_right hOld
            rw [h.covers_iff i] at hOld
            exact ⟨index, _, get?_set_self _ _ _, (hTaken i).mpr ⟨hCurr, hOld⟩⟩
      · obtain ⟨hEq, rfl⟩ | ⟨-, hGet⟩ := get?_set_cases hGet
        · refine ⟨hTakenSize, hEq ▸ mem_cons_self, curr, hEq ▸ hLookup, ?_⟩
          exact fun i hTest => ((hTaken i).mp hTest).1
        · obtain ⟨hSize, hMem, hFound⟩ := h.planned a bm hGet
          exact ⟨hSize, mem_cons_of_mem _ hMem, hFound⟩
      · intro a a' bm bm' i hGet hGet' hTest hTest'
        have hFresh : ∀ b old, state.1.get? b = some old → old.test i = true →
            (state.2.and curr).test i = true → False := by
          intro b old hOld hOldTest hTakenTest
          exact ((hTaken i).mp hTakenTest).2 ((h.covers_iff i).mp ⟨b, old, hOld, hOldTest⟩)
        rw [get?_set] at hGet hGet'
        split at hGet <;> split at hGet'
        · rename_i hEq hEq'
          exact hEq.symm.trans hEq'
        · cases hGet
          exact (hFresh a' bm' hGet' hTest' hTest).elim
        · cases hGet'
          exact (hFresh a bm hGet hTest hTest').elim
        · exact h.disjoint a a' bm bm' i hGet hGet' hTest hTest'

theorem SelectInv.foldl (hSizes : ∀ a bm, lookupResults.get? a = some bm → bm.size = numKeys)
    (adapters : List Nat) (h : SelectInv numKeys lookupResults seen state) :
    SelectInv numKeys lookupResults (adapters.reverse ++ seen)
      (adapters.foldl (selectStep lookupResults) state) := by
  induction adapters generalizing seen state with
  | nil => exact h
  | cons a rest ih =>
    rw [reverse_cons, append_assoc]
    exact ih (h.step hSizes a)

/-- What the default policy plans: every key some routed adapter has, at exactly one
adapter, and that adapter has it. -/
theorem selectLoadPlan_spec
    (hSizes : ∀ a bm, lookupResults.get? a = some bm → bm.size = numKeys) (adapters : List Nat) :
    (∀ i, (selectLoadPlan numKeys lookupResults adapters).Covers i ↔
      ∃ a ∈ adapters, ∃ bm, lookupResults.get? a = some bm ∧ bm.test i = true) ∧
    (∀ a bm, (selectLoadPlan numKeys lookupResults adapters).get? a = some bm →
      bm.size = numKeys ∧ a ∈ adapters ∧
      ∃ found, lookupResults.get? a = some found ∧ ∀ i, bm.test i = true → found.test i = true) ∧
    (∀ a a' bm bm' i, (selectLoadPlan numKeys lookupResults adapters).get? a = some bm →
      (selectLoadPlan numKeys lookupResults adapters).get? a' = some bm' →
      bm.test i = true → bm'.test i = true → a = a') := by
  have hMerged : ∀ bm ∈ lookupResults.values, bm.size = numKeys := by
    intro bm hbm
    obtain ⟨a, ha⟩ := mem_values_iff.mp hbm
    exact hSizes a bm ha
  obtain ⟨hSize, hTest⟩ := mergeBitmaps_spec hMerged
  have hInit : SelectInv numKeys lookupResults []
      (Dict.empty, mergeBitmaps lookupResults.values numKeys) := by
    refine ⟨hSize, fun i => ?_, fun i => ?_, fun a bm hGet => ?_, fun a a' bm bm' i hGet => ?_⟩
    · rw [hTest i]
      constructor
      · rintro ⟨bm, hbm, hSet⟩
        obtain ⟨a, ha⟩ := mem_values_iff.mp hbm
        exact ⟨⟨a, bm, ha, hSet⟩, by simp⟩
      · rintro ⟨⟨a, bm, ha, hSet⟩, -⟩
        exact ⟨bm, mem_values_iff.mpr ⟨a, ha⟩, hSet⟩
    · simp [LoadPlan.Covers]
    · cases hGet
    · cases hGet
  have h := hInit.foldl hSizes (adapters.insertionSort (· ≤ ·))
  have hSeen : ∀ a, a ∈ (adapters.insertionSort (· ≤ ·)).reverse ++ [] ↔ a ∈ adapters := by
    intro a
    rw [append_nil, mem_reverse, mem_insertionSort]
  refine ⟨fun i => ?_, fun a bm hGet => ?_, h.disjoint⟩
  · refine (h.covers_iff i).trans ?_
    simp only [hSeen]
  · obtain ⟨hBm, hMem, hFound⟩ := h.planned a bm hGet
    exact ⟨hBm, (hSeen a).mp hMem, hFound⟩

end Select

section Load

variable {numKeys : Nat} {attn : AttnWindowDesc} {policy : TrimPolicy} {l1Readlocks : Bitmap}
  {lookupResults : Dict Nat Bitmap} {routing : List Nat}

def FoundBy (lookupResults : Dict Nat Bitmap) (routing : List Nat) (i : Nat) : Prop :=
  ∃ a ∈ routing, ∃ bm, lookupResults.get? a = some bm ∧ bm.test i = true

theorem plannedLoads_spec (routing : List Nat) (hLocks : l1Readlocks.size = numKeys)
    (hSizes : ∀ a bm, lookupResults.get? a = some bm → bm.size = numKeys) :
    (∀ i, (trimLoadPlanWithMask (selectLoadPlan numKeys lookupResults routing)
        l1Readlocks.not).Covers i ↔
      FoundBy lookupResults routing i ∧ l1Readlocks.test i = false) ∧
    ∀ a bm, (trimLoadPlanWithMask (selectLoadPlan numKeys lookupResults routing)
        l1Readlocks.not).get? a = some bm → bm.size = numKeys := by
  obtain ⟨hCovers, hPlanned, -⟩ := selectLoadPlan_spec hSizes routing
  constructor
  · intro i
    rw [covers_trim_iff, hCovers i, test_not, Bool.and_eq_true, decide_eq_true_eq,
      Bool.not_eq_true']
    constructor
    · rintro ⟨hFound, -, hNot⟩
      exact ⟨hFound, hNot⟩
    · rintro ⟨⟨a, ha, bm, hGet, hTest⟩, hNot⟩
      have hLt : i < numKeys := hSizes a bm hGet ▸ lt_size_of_test hTest
      exact ⟨⟨a, ha, bm, hGet, hTest⟩, by omega, hNot⟩
  · intro a bm hGet
    obtain ⟨planned, hPlan, -, rfl⟩ := get?_trimLoadPlanWithMask.mp hGet
    have hSize := (hPlanned a planned hPlan).1
    rw [size_and (by rw [Bitmap.size_not, hSize, hLocks]), Bitmap.size_not, hLocks]

theorem loadUnion_spec (hLocks : l1Readlocks.size = numKeys) {loadPlan : LoadPlan}
    (hSizes : ∀ a bm, loadPlan.get? a = some bm → bm.size = numKeys) :
    (loadUnion l1Readlocks numKeys loadPlan).size = numKeys ∧
      ∀ i, (loadUnion l1Readlocks numKeys loadPlan).test i = true ↔
        loadPlan.Covers i ∨ l1Readlocks.test i = true := by
  have hMerged : (mergeBitmaps loadPlan.values numKeys).size = numKeys := by
    refine (mergeBitmaps_spec fun bm hbm => ?_).1
    obtain ⟨a, ha⟩ := mem_values_iff.mp hbm
    exact hSizes a bm ha
  have hEq := hMerged.trans hLocks.symm
  refine ⟨(size_or hEq).trans hLocks, fun i => ?_⟩
  rw [loadUnion, test_or hEq, Bool.or_eq_true, merge_covers_iff hSizes]

theorem loadPhase_union (policy : TrimPolicy) (attn : AttnWindowDesc) (routing : List Nat)
    (hLocks : l1Readlocks.size = numKeys)
    (hSizes : ∀ a bm, lookupResults.get? a = some bm → bm.size = numKeys) :
    ∃ union : Bitmap, union.size = numKeys ∧
      (∀ i, union.test i = true ↔ FoundBy lookupResults routing i ∨ l1Readlocks.test i = true) ∧
      (loadPhase l1Readlocks numKeys policy attn lookupResults routing).hitLength =
        (buildTrimMask union numKeys policy attn).1 ∧
      (loadPhase l1Readlocks numKeys policy attn lookupResults routing).retained =
        (buildTrimMask union numKeys policy attn).2 := by
  obtain ⟨hCovers, hPlanSizes⟩ := plannedLoads_spec routing hLocks hSizes
  obtain ⟨hSize, hTest⟩ := loadUnion_spec hLocks hPlanSizes
  refine ⟨_, hSize, fun i => ?_, rfl, rfl⟩
  rw [hTest i, hCovers i]
  cases l1Readlocks.test i <;> simp

/-- The trimmed plan loads the retained keys that are not in L1, each from one routed
adapter that has it. -/
theorem trimmedPlan_spec (policy : TrimPolicy) (attn : AttnWindowDesc) (routing : List Nat)
    (hLocks : l1Readlocks.size = numKeys)
    (hSizes : ∀ a bm, lookupResults.get? a = some bm → bm.size = numKeys)
    (hKeys : policy = .prefixOnly → attn.stride ∣ numKeys) :
    let phase := loadPhase l1Readlocks numKeys policy attn lookupResults routing
    (∀ i, phase.trimmedPlan.Covers i ↔ phase.retained.test i = true ∧ l1Readlocks.test i = false) ∧
    (∀ a bm, phase.trimmedPlan.get? a = some bm → bm.size = numKeys ∧ a ∈ routing ∧
      ∃ found, lookupResults.get? a = some found ∧ ∀ i, bm.test i = true → found.test i = true) ∧
    (∀ a a' bm bm' i, phase.trimmedPlan.get? a = some bm → phase.trimmedPlan.get? a' = some bm' →
      bm.test i = true → bm'.test i = true → a = a') := by
  intro phase
  obtain ⟨hCovers, hPlanSizes⟩ := plannedLoads_spec routing hLocks hSizes
  obtain ⟨-, hPlanned, hDisjoint⟩ := selectLoadPlan_spec hSizes routing
  obtain ⟨hUnionSize, hUnion⟩ := loadUnion_spec hLocks hPlanSizes
  -- a plan entry is a selected entry cut down twice
  have hEntry : ∀ a bm, phase.trimmedPlan.get? a = some bm → ∃ selected,
      (selectLoadPlan numKeys lookupResults routing).get? a = some selected ∧
        bm = (selected.and l1Readlocks.not).and phase.retained := by
    intro a bm hGet
    obtain ⟨planned, hPlan, -, rfl⟩ := get?_trimLoadPlanWithMask.mp hGet
    obtain ⟨selected, hSelected, -, rfl⟩ := get?_trimLoadPlanWithMask.mp hPlan
    exact ⟨selected, hSelected, rfl⟩
  have hRetainedSize : phase.retained.size = numKeys := size_buildTrimMask hUnionSize hKeys
  refine ⟨fun i => ?_, fun a bm hGet => ?_, fun a a' bm bm' i hGet hGet' hTest hTest' => ?_⟩
  · refine covers_trim_iff.trans ?_
    rw [hCovers i]
    constructor
    · rintro ⟨⟨-, hNot⟩, hRetained⟩
      exact ⟨hRetained, hNot⟩
    · rintro ⟨hRetained, hNot⟩
      refine ⟨?_, hRetained⟩
      rcases (hUnion i).mp (found_of_trimmed hRetained) with hPlan | hLock
      · exact (hCovers i).mp hPlan
      · rw [hNot] at hLock
        cases hLock
  · obtain ⟨selected, hSelected, rfl⟩ := hEntry a bm hGet
    obtain ⟨hSize, hMem, found, hFound, hSub⟩ := hPlanned a selected hSelected
    have hInner : (selected.and l1Readlocks.not).size = numKeys := by
      rw [size_and (by rw [Bitmap.size_not, hSize, hLocks]), Bitmap.size_not, hLocks]
    refine ⟨by rw [size_and (hInner.trans hRetainedSize.symm), hRetainedSize], hMem, found,
      hFound, fun i hTest => ?_⟩
    rw [test_and, test_and, Bool.and_eq_true, Bool.and_eq_true] at hTest
    exact hSub i hTest.1.1
  · obtain ⟨selected, hSelected, rfl⟩ := hEntry a bm hGet
    obtain ⟨selected', hSelected', rfl⟩ := hEntry a' bm' hGet'
    rw [test_and, test_and, Bool.and_eq_true, Bool.and_eq_true] at hTest hTest'
    exact hDisjoint a a' selected selected' i hSelected hSelected' hTest.1.1 hTest'.1.1

/-- Where nothing is stale, every lock is kept for one of the two reasons. -/
theorem kept_of_none_stale {stale : Bitmap} {i : Nat} {lock retained fallback : Bool}
    (hNone : ¬stale.popcount > 0)
    (hStale : stale.test i = true ↔ lock = true ∧ retained = false ∧ fallback = false)
    (hLock : lock = true) : retained = true ∨ fallback = true := by
  have hEmpty := popcount_eq_zero_iff.mp (Nat.eq_zero_of_not_pos hNone)
  by_contra hNot
  rw [not_or, Bool.not_eq_true, Bool.not_eq_true] at hNot
  have hTrue := hStale.mpr ⟨hLock, hNot⟩
  rw [hEmpty i] at hTrue
  cases hTrue

theorem loadPhase_locks (policy : TrimPolicy) (attn : AttnWindowDesc) (routing : List Nat)
    (hLocks : l1Readlocks.size = numKeys)
    (hSizes : ∀ a bm, lookupResults.get? a = some bm → bm.size = numKeys)
    (hKeys : policy = .prefixOnly → attn.stride ∣ numKeys) :
    let phase := loadPhase l1Readlocks numKeys policy attn lookupResults routing
    let fallback := (buildTrimMask l1Readlocks numKeys policy attn).2
    phase.l1Readlocks.size = numKeys ∧
    (∀ i, phase.l1Readlocks.test i = true ↔
      l1Readlocks.test i = true ∧ (phase.retained.test i = true ∨ fallback.test i = true)) ∧
    (∀ i, phase.stale.test i = true ↔
      l1Readlocks.test i = true ∧ phase.retained.test i = false ∧ fallback.test i = false) := by
  intro phase fallback
  obtain ⟨-, hPlanSizes⟩ := plannedLoads_spec routing hLocks hSizes
  have hRetained : phase.retained.size = numKeys :=
    size_buildTrimMask (loadUnion_spec hLocks hPlanSizes).1 hKeys
  have hFallback : fallback.size = numKeys := size_buildTrimMask hLocks hKeys
  have hEq := hRetained.trans hFallback.symm
  have hStale : ∀ i, phase.stale.test i = true ↔
      l1Readlocks.test i = true ∧ phase.retained.test i = false ∧ fallback.test i = false := by
    intro i
    have hDef : phase.stale = (l1Readlocks.and phase.retained.not).and fallback.not := rfl
    rw [hDef, test_and, test_and, test_not, test_not, hRetained, hFallback]
    constructor
    · intro h
      simp only [Bool.and_eq_true, Bool.not_eq_true'] at h
      exact ⟨h.1.1, h.1.2.2, h.2.2⟩
    · rintro ⟨hLock, hNotRetained, hNotFallback⟩
      have hLt : i < numKeys := hLocks ▸ lt_size_of_test hLock
      simp [hLock, hNotRetained, hNotFallback, hLt]
  have hDef : phase.l1Readlocks = if phase.stale.popcount > 0 then
      l1Readlocks.and (phase.retained.or fallback) else l1Readlocks := rfl
  have hOrSize : (phase.retained.or fallback).size = numKeys :=
    (size_or hEq).trans hFallback
  refine ⟨?_, fun i => ?_, hStale⟩
  · rw [hDef]
    split
    · rw [size_and (hLocks.trans hOrSize.symm), hOrSize]
    · exact hLocks
  · rw [hDef]
    split
    · rw [test_and, test_or hEq, Bool.and_eq_true, Bool.or_eq_true]
    · rename_i hNone
      exact ⟨fun hLock => ⟨hLock, kept_of_none_stale hNone (hStale i) hLock⟩, And.left⟩

end Load

theorem loadedBitmap_spec (numKeys : Nat) (loadPlan : LoadPlan) (loadResults : Dict Nat Bitmap) :
    (loadedBitmap numKeys loadPlan loadResults).size = numKeys ∧
      ∀ i, (loadedBitmap numKeys loadPlan loadResults).test i = true → loadPlan.Covers i := by
  have hLoop : ∀ (entries : List (Nat × Bitmap)) (result : Bitmap), result.size = numKeys →
      let final := entries.foldl (fun result entry =>
        match loadResults.get? entry.1 with
        | none => result
        | some loadBitmap => result.batchedSet (loadBitmap.gather entry.2.getIndicesList)) result
      final.size = numKeys ∧ ∀ i, final.test i = true →
        result.test i = true ∨ ∃ entry ∈ entries, entry.2.test i = true := by
    intro entries
    induction entries with
    | nil =>
      intro result hSize
      exact ⟨hSize, fun i hi => Or.inl hi⟩
    | cons entry rest ih =>
      intro result hSize
      cases hResult : loadResults.get? entry.1 with
      | none =>
        obtain ⟨hFinal, hTest⟩ := ih result hSize
        simp only [foldl_cons, hResult]
        refine ⟨hFinal, fun i hi => ?_⟩
        rcases hTest i hi with hOld | ⟨e, he, hSet⟩
        · exact Or.inl hOld
        · exact Or.inr ⟨e, mem_cons_of_mem _ he, hSet⟩
      | some loadBitmap =>
        obtain ⟨hFinal, hTest⟩ := ih (result.batchedSet
          (loadBitmap.gather entry.2.getIndicesList)) ((size_batchedSet _ _).trans hSize)
        simp only [foldl_cons, hResult]
        refine ⟨hFinal, fun i hi => ?_⟩
        rcases hTest i hi with hStep | ⟨e, he, hSet⟩
        · rcases (test_batchedSet _ _ _).mp hStep with hOld | ⟨-, hGathered⟩
          · exact Or.inl hOld
          · obtain ⟨local', -, hIndex⟩ := mem_gather.mp hGathered
            have hMem := mem_getIndicesList.mp (mem_of_getElem? hIndex)
            exact Or.inr ⟨entry, mem_cons_self, hMem⟩
        · exact Or.inr ⟨e, mem_cons_of_mem _ he, hSet⟩
  obtain ⟨hSize, hTest⟩ := hLoop loadPlan.entries (Bitmap.zeros numKeys) rfl
  refine ⟨hSize, fun i hi => ?_⟩
  rcases hTest i hi with hZero | ⟨⟨a, bm⟩, hMem, hSet⟩
  · simp at hZero
  · exact ⟨a, bm, get?_eq_some_iff.mpr hMem, hSet⟩

theorem keptLocks_spec {numKeys : Nat} (policy : TrimPolicy) (attn : AttnWindowDesc)
    {l1Readlocks : Bitmap} (hLocks : l1Readlocks.size = numKeys)
    (hKeys : policy = .prefixOnly → attn.stride ∣ numKeys) :
    (keptLocks l1Readlocks numKeys policy attn).size = numKeys ∧
    (∀ i, (keptLocks l1Readlocks numKeys policy attn).test i = true ↔
      l1Readlocks.test i = true ∧
        ¬(policy = .prefixOnly ∧ (evictableLocks l1Readlocks numKeys attn).test i = true)) := by
  have hEvictSize : policy = .prefixOnly →
      (evictableLocks l1Readlocks numKeys attn).size = numKeys := by
    intro hPolicy
    have hMask : (buildTrimMask l1Readlocks numKeys .prefixOnly attn).2.size = numKeys :=
      size_buildTrimMask hLocks fun _ => hKeys hPolicy
    simp [evictableLocks, Bitmap.and, hMask, hLocks, Bitmap.leading]
  unfold keptLocks
  by_cases hPolicy : policy = .prefixOnly
  · rw [if_neg (by simp [hPolicy])]
    dsimp only
    split
    · refine ⟨?_, fun i => ?_⟩
      · rw [size_and (by rw [Bitmap.size_not, hLocks, hEvictSize hPolicy]), Bitmap.size_not,
          hEvictSize hPolicy]
      · rw [test_and, test_not, hEvictSize hPolicy]
        constructor
        · intro h
          simp only [Bool.and_eq_true, Bool.not_eq_true'] at h
          exact ⟨h.1, fun hBoth => by rw [h.2.2] at hBoth; cases hBoth.2⟩
        · rintro ⟨hLock, hNot⟩
          have hLt : i < numKeys := hLocks ▸ lt_size_of_test hLock
          have hFalse : (evictableLocks l1Readlocks numKeys attn).test i = false := by
            rw [← Bool.not_eq_true]
            exact fun hTrue => hNot ⟨hPolicy, hTrue⟩
          simp [hLock, hLt, hFalse]
    · rename_i hNone
      have hEmpty := popcount_eq_zero_iff.mp (Nat.eq_zero_of_not_pos hNone)
      refine ⟨hLocks, fun i => ⟨fun hLock => ⟨hLock, fun hBoth => ?_⟩, And.left⟩⟩
      rw [hEmpty i] at hBoth
      cases hBoth.2
  · rw [if_pos hPolicy]
    exact ⟨hLocks, fun i => ⟨fun hLock => ⟨hLock, fun hBoth => hPolicy hBoth.1⟩, And.left⟩⟩

end LMCache
