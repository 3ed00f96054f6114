import LMCache.Memory.PagedSpec
import Mathlib.Algebra.BigOperators.Group.List.Basic

/-!
# When the layout of an object is current

No call changes the prefix sums of an object, so they are those of the groups of the allocator.
They describe an allocation exactly when its groups have the sizes of the first groups of the
allocator and the further groups are empty.
-/

namespace LMCache

open Lib PagedAllocator List Option

namespace Groups

variable {groups own : Groups}

theorem length_sizes (groups : Groups) : groups.sizes.length = groups.length :=
  length_map _

theorem getElem?_groupPrefixSum (groups : Groups) (i : Nat) :
    groups.groupPrefixSum[i]? =
      if i ≤ groups.length then some (groups.sizes.take i).sum else none := by
  rw [groupPrefixSum, getElem?_scanl, length_sizes, ← sum_eq_foldl]

theorem getLastD_groupPrefixSum (groups : Groups) :
    groups.groupPrefixSum.getLastD 0 = groups.getSizeBytes := by
  have hLength : groups.groupPrefixSum.length = groups.length + 1 := by
    rw [groupPrefixSum, length_scanl, length_sizes]
  rw [getLastD_eq_getLast?, getLast?_eq_getElem?, hLength, Nat.add_sub_cancel,
    getElem?_groupPrefixSum, if_pos (Nat.le_refl _), ← length_sizes, take_length]
  rfl

/-- Two groupings put their groups at the same places as far as the first goes exactly when its
sizes are the first sizes of the second. -/
theorem bounds_eq_iff (groups own : Groups) :
    (∀ i < groups.length,
        own.groupPrefixSum[i]? = some (groups.sizes.take i).sum ∧
          own.groupPrefixSum[i + 1]? = some (groups.sizes.take (i + 1)).sum) ↔
      groups.sizes <+: own.sizes := by
  constructor
  · intro hBounds
    rw [prefix_iff_getElem?]
    intro i hi
    obtain ⟨hStart, hStop⟩ := hBounds i (length_sizes groups ▸ hi)
    rw [getElem?_groupPrefixSum] at hStart hStop
    have hOwn : i < own.sizes.length := by
      rw [length_sizes]
      by_contra hNot
      rw [if_neg (by omega)] at hStop
      cases hStop
    rw [length_sizes] at hOwn
    rw [if_pos (by omega)] at hStart hStop
    rw [← length_sizes] at hOwn
    have hSame := some.inj hStop
    rw [sum_take_succ _ _ hOwn, sum_take_succ _ _ hi, some.inj hStart] at hSame
    rw [getElem?_eq_getElem hOwn, Nat.add_left_cancel hSame]
  · rintro ⟨rest, hRest⟩ i hi
    have hLess : groups.length ≤ own.length := by
      rw [← length_sizes, ← length_sizes, ← hRest, length_append]
      exact Nat.le_add_right _ _
    have hTake : ∀ j, j ≤ groups.length →
        own.groupPrefixSum[j]? = some (groups.sizes.take j).sum := by
      intro j hj
      rw [getElem?_groupPrefixSum, if_pos (Nat.le_trans hj hLess), ← hRest,
        take_append_of_le_length (by rwa [length_sizes])]
    exact ⟨hTake i (Nat.le_of_lt hi), hTake (i + 1) hi⟩

end Groups

namespace PagedAllocator

variable {S : Type} {a b c : PagedAllocator S}

structure SamePages (a b : PagedAllocator S) : Prop where
  length : b.pages.length = a.pages.length
  queued : ∀ page ∈ b.freeBlocks, page ∈ a.freeBlocks ∨ page < a.pages.length

theorem SamePages.refl (a : PagedAllocator S) : SamePages a a := ⟨rfl, fun _ => Or.inl⟩

theorem SamePages.trans (h : SamePages a b) (h' : SamePages b c) : SamePages a c where
  length := h'.length.trans h.length
  queued page hPage := by
    rcases h'.queued page hPage with hOld | hIn
    · exact h.queued page hOld
    · exact Or.inr (h.length ▸ hIn)

theorem samePages_modifyPage (a : PagedAllocator S) (page : Nat) (f : PageObj S → PageObj S) :
    SamePages a (a.modifyPage page f) :=
  ⟨length_modify f _ _, fun _ => Or.inl⟩

variable [DecidableEq S]

theorem samePages_pushFree (a : PagedAllocator S) (page : Nat) : SamePages a (a.pushFree page) := by
  unfold pushFree
  split
  · exact .refl a
  · rename_i obj hObj
    split
    · have hRestored : SamePages a (if obj.shapes ≠ a.shapes then
          a.modifyPage page fun obj => { obj with rawSize := a.alignBytes } else a) := by
        split
        · exact samePages_modifyPage a page _
        · exact .refl a
      refine ⟨hRestored.length, fun q hq => ?_⟩
      rcases mem_append.mp hq with hq | hq
      · exact hRestored.queued q hq
      · rw [mem_singleton.mp hq]
        exact Or.inr (List.getElem?_eq_some_iff.mp hObj).1
    · exact .refl a

theorem samePages_batchedFree (a : PagedAllocator S) (pages : List Nat) :
    SamePages a (a.batchedFree pages) := by
  unfold batchedFree
  induction pages generalizing a with
  | nil => exact .refl a
  | cons page pages ih => exact (samePages_pushFree a page).trans (ih _)

theorem samePages_free (a : PagedAllocator S) (page : Nat) : SamePages a (a.free page) := by
  unfold free
  split
  · exact .refl a
  · split
    · exact ⟨(samePages_pushFree a page).length, (samePages_pushFree a page).queued⟩
    · exact .refl a

theorem samePages_refCountDown (a : PagedAllocator S) (page : Nat) :
    SamePages a (a.refCountDown page) := by
  unfold refCountDown
  split
  · exact .refl a
  · rename_i obj _
    dsimp only
    generalize (if obj.refCount - 1 < 0 then 0 else obj.refCount - 1) = refCount
    split
    · exact (samePages_modifyPage a page _).trans (samePages_free _ page)
    · exact samePages_modifyPage a page _

theorem samePages_unpin (a : PagedAllocator S) (page : Nat) : SamePages a (a.unpin page) := by
  unfold unpin
  split
  · exact .refl a
  · rename_i obj _
    dsimp only
    have hFreed : ∀ b : PagedAllocator S, SamePages a b →
        SamePages a (if obj.pinCount - 1 ≤ 0 ∧ obj.refCount ≤ 0 then b.free page else b) := by
      intro b hb
      split
      · exact hb.trans (samePages_free b page)
      · exact hb
    have hInner := hFreed _ (samePages_modifyPage a page fun obj' =>
      { obj' with pinCount := obj.pinCount - 1 })
    split
    · exact hInner.trans (samePages_modifyPage _ page _)
    · exact hInner

end PagedAllocator

namespace PagedTensorMemoryAllocator

open Groups

variable {own groups : Groups} {a b : PagedTensorMemoryAllocator}

/-- Every object has the prefix sums of the allocator, and only pages are queued. -/
structure Sound (own : Groups) (a : PagedTensorMemoryAllocator) : Prop where
  length : a.layouts.length = a.paged.pages.length
  sums : ∀ layout ∈ a.layouts, layout.groupPrefixSum = own.groupPrefixSum
  queued : ∀ page ∈ a.paged.freeBlocks, page < a.paged.pages.length

theorem Sound.congr (h : a.Sound own) {paged : PagedAllocator (List Shape)}
    (hSame : PagedAllocator.SamePages a.paged paged) : Sound own { a with paged := paged } where
  length := h.length.trans hSame.length.symm
  sums := h.sums
  queued page hPage := by
    change page < paged.pages.length
    rw [hSame.length]
    exact (hSame.queued page hPage).elim (h.queued page) id

/-- A page with an object that is not narrowed. -/
def Handed (a : PagedTensorMemoryAllocator) (page : Nat) : Prop :=
  ∃ obj, a.paged.pages[page]? = some obj ∧ obj.usedSizeOverride = none

variable {page : Nat}

theorem Sound.popFree (h : a.Sound own) (hPop : a.popFree groups = some (page, b)) :
    b.Sound own ∧ b.Handed page ∧ ∀ q, a.Handed q → b.Handed q := by
  obtain ⟨⟨first, paged⟩, hFirst, hEq⟩ := map_eq_some_iff.mp hPop
  obtain ⟨rfl, rfl⟩ := Prod.mk.inj hEq
  unfold PagedAllocator.popFree at hFirst
  split at hFirst
  · cases hFirst
  rename_i page rest hFree
  obtain ⟨rfl, rfl⟩ := Prod.mk.inj (some.inj hFirst)
  have hPage := h.queued page (hFree ▸ mem_cons_self)
  refine ⟨⟨?_, ?_, ?_⟩, ?_, ?_⟩
  · simp only [length_modify, PagedAllocator.modifyPage]
    exact h.length
  · intro layout hLayout
    obtain ⟨i, hi⟩ := getElem?_of_mem hLayout
    rw [getElem?_modify] at hi
    obtain ⟨old, hOld, rfl⟩ := map_eq_some_iff.mp hi
    have hSums := h.sums old (mem_of_getElem? hOld)
    split <;> exact hSums
  · intro q hq
    simp only [length_modify, PagedAllocator.modifyPage]
    exact h.queued q (hFree ▸ mem_cons_of_mem _ hq)
  · refine ⟨_, get_modifyPage (getElem?_eq_getElem hPage) _, rfl⟩
  · rintro q ⟨obj, hObj, hNone⟩
    simp only [Handed, PagedAllocator.modifyPage, getElem?_modify, hObj]
    split
    · exact ⟨_, rfl, rfl⟩
    · exact ⟨obj, rfl, hNone⟩

theorem Sound.allocate (h : a.Sound own) (hAllocate : a.allocate groups = some (page, b)) :
    b.Sound own ∧ b.Handed page := by
  obtain ⟨⟨first, c⟩, hPop, hEq⟩ := map_eq_some_iff.mp hAllocate
  obtain ⟨rfl, rfl⟩ := Prod.mk.inj hEq
  obtain ⟨hSound, hHanded, -⟩ := h.popFree hPop
  exact ⟨hSound.congr ⟨rfl, fun _ => Or.inl⟩, hHanded⟩

theorem Sound.batchedLoop (h : a.Sound own) (n : Nat) {blocks : List Nat}
    (hBlocks : ∀ page ∈ blocks, a.Handed page) :
    (batchedLoop groups n blocks a).2.Sound own ∧
      ∀ pages, (batchedLoop groups n blocks a).1 = some pages →
        ∀ page ∈ pages, (batchedLoop groups n blocks a).2.Handed page := by
  induction n generalizing a blocks with
  | zero =>
    refine ⟨h, fun pages hPages => ?_⟩
    obtain rfl := some.inj hPages
    exact hBlocks
  | succ n ih =>
    rw [PagedTensorMemoryAllocator.batchedLoop]
    cases hPop : a.popFree groups with
    | none =>
      refine ⟨h.congr (samePages_batchedFree a.paged blocks), ?_⟩
      intro pages hPages
      cases hPages
    | some r =>
      obtain ⟨hSound, hHanded, hKept⟩ := h.popFree hPop
      apply ih hSound
      intro page hPage
      rcases mem_append.mp hPage with hPage | hPage
      · exact hKept page (hBlocks page hPage)
      · rwa [mem_singleton.mp hPage]

theorem Sound.batchedAllocate (h : a.Sound own) (groups : Groups) (batchSize : Int) :
    (a.batchedAllocate groups batchSize).2.Sound own ∧
      ∀ pages, (a.batchedAllocate groups batchSize).1 = some pages →
        ∀ page ∈ pages, (a.batchedAllocate groups batchSize).2.Handed page := by
  obtain ⟨hSound, hHanded⟩ := h.batchedLoop batchSize.toNat fun _ hPage => absurd hPage not_mem_nil
  unfold PagedTensorMemoryAllocator.batchedAllocate
  dsimp only
  cases hLoop : (PagedTensorMemoryAllocator.batchedLoop groups batchSize.toNat [] a).1 with
  | none =>
    refine ⟨hSound, fun pages hPages => ?_⟩
    cases hPages
  | some blocks =>
    refine ⟨hSound.congr ⟨rfl, fun _ => Or.inl⟩, fun pages hPages => ?_⟩
    obtain rfl := some.inj hPages
    exact hHanded blocks hLoop

theorem Sound.call (h : a.Sound own) (c : LayoutCall) : (a.call c).Sound own := by
  cases c with
  | allocate groups =>
    unfold PagedTensorMemoryAllocator.call
    dsimp only
    cases hAllocate : a.allocate groups with
    | none => exact h
    | some r => exact (h.allocate hAllocate).1
  | batchedAllocate groups batchSize => exact (h.batchedAllocate groups batchSize).1
  | free page => exact h.congr (samePages_free a.paged page)
  | batchedFree pages updateStats =>
    have hFreed := samePages_batchedFree a.paged pages
    unfold PagedTensorMemoryAllocator.call PagedTensorMemoryAllocator.batchedFree
    dsimp only
    split
    · exact h.congr ⟨hFreed.length, hFreed.queued⟩
    · exact h.congr hFreed
  | refCountUp page => exact h.congr (samePages_modifyPage a.paged page _)
  | refCountDown page => exact h.congr (samePages_refCountDown a.paged page)
  | pin page => exact h.congr (samePages_modifyPage a.paged page _)
  | unpin page => exact h.congr (samePages_unpin a.paged page)
  | setUsedSize page n =>
    unfold PagedTensorMemoryAllocator.call setUsedSize
    dsimp only
    split
    · exact h
    · exact h.congr (samePages_modifyPage a.paged page _)
  | invalidate page => exact h.congr (samePages_modifyPage a.paged page _)

theorem Reached.sound (h : Reached own a) : a.Sound own := by
  obtain ⟨numPages, calls, hRun⟩ := h
  refine Run.invariant ?_ hRun ⟨?_, ?_, ?_⟩
  · rintro s c t hSound rfl
    exact hSound.call c
  · simp [init, PagedAllocator.init]
  · intro layout hLayout
    rw [eq_of_mem_replicate hLayout]
  · intro page hPage
    rw [init, PagedAllocator.init, length_replicate]
    exact mem_range.mp hPage

/-- The object of a page is laid out for the groups of an allocation. -/
def Current (a : PagedTensorMemoryAllocator) (groups : Groups) (page : Nat) : Prop :=
  ∃ obj layout, a.paged.pages[page]? = some obj ∧ a.layouts[page]? = some layout ∧
    layout.getSize obj = groups.getSizeBytes ∧ layout.byteArrayLength obj = groups.getSizeBytes ∧
    ∀ i < groups.length, layout.tensorBounds i =
      some (getSizeBytes (groups.take i), getSizeBytes (groups.take (i + 1)))

/-- The groups have the sizes of the first groups of the allocator, and the further groups of
the allocator are empty. -/
def SameSizes (own groups : Groups) : Prop :=
  groups.sizes <+: own.sizes ∧ groups.getSizeBytes = own.getSizeBytes

theorem Sound.current_iff (h : a.Sound own) (hHanded : a.Handed page) :
    a.Current groups page ↔ SameSizes own groups := by
  obtain ⟨obj, hObj, hNone⟩ := hHanded
  have hPage : page < a.layouts.length := by
    rw [h.length]
    exact (List.getElem?_eq_some_iff.mp hObj).1
  have hLayout := getElem?_eq_getElem hPage
  have hSums := h.sums _ (getElem_mem hPage)
  have hSize : ∀ layout : PageLayout, layout.groupPrefixSum = own.groupPrefixSum →
      layout.getSize obj = own.getSizeBytes := by
    intro layout hEq
    rw [PageLayout.getSize, hNone, getD_none, hEq, getLastD_groupPrefixSum]
  have hBounds : (∀ i < groups.length, (a.layouts[page]).tensorBounds i =
      some (getSizeBytes (groups.take i), getSizeBytes (groups.take (i + 1)))) ↔
        groups.sizes <+: own.sizes := by
    rw [← bounds_eq_iff]
    refine forall₂_congr fun i _ => ?_
    have hTake : ∀ j, getSizeBytes (groups.take j) = (groups.sizes.take j).sum := by
      intro j
      rw [getSizeBytes, sizes, sizes, map_take]
    rw [hTake, hTake, PageLayout.tensorBounds, hSums]
    cases own.groupPrefixSum[i]? <;> cases own.groupPrefixSum[i + 1]? <;> simp
  constructor
  · rintro ⟨obj', layout, hObj', hLayout', hGetSize, -, hAll⟩
    obtain rfl := some.inj (hObj.symm.trans hObj')
    obtain rfl := some.inj (hLayout.symm.trans hLayout')
    exact ⟨hBounds.mp hAll, hGetSize.symm.trans (hSize _ hSums)⟩
  · rintro ⟨hPrefix, hTotal⟩
    have hGetSize := (hSize _ hSums).trans hTotal.symm
    exact ⟨obj, a.layouts[page], hObj, hLayout, hGetSize, hGetSize, hBounds.mpr hPrefix⟩

/-- In every state of an allocator, the object of a page that is handed out, alone or in a
batch, is laid out for the groups of the allocation exactly when these have the sizes of the
groups of the allocator. -/
theorem layout_current_iff (h : Reached own a) (groups : Groups) :
    (∀ page b, a.allocate groups = some (page, b) →
        (b.Current groups page ↔ SameSizes own groups)) ∧
      ∀ batchSize pages b, a.batchedAllocate groups batchSize = (some pages, b) →
        ∀ page ∈ pages, (b.Current groups page ↔ SameSizes own groups) := by
  constructor
  · intro page b hAllocate
    obtain ⟨hSound, hHanded⟩ := h.sound.allocate hAllocate
    exact hSound.current_iff hHanded
  · intro batchSize pages b hBatch page hPage
    obtain ⟨hSound, hHanded⟩ := h.sound.batchedAllocate groups batchSize
    rw [hBatch] at hSound hHanded
    exact hSound.current_iff (hHanded pages rfl page hPage)

def float16 : DType := ⟨"float16", 2⟩

/-- A page that was narrowed by its last owner is handed out for the groups of the allocator. -/
theorem layout_current_full :
    let own : Groups := [([2, 1, 4, 2], float16)]
    let a := [LayoutCall.allocate own, .setUsedSize 0 10, .refCountDown 0].foldl call (init own 1)
    ∃ page b, a.allocate own = some (page, b) ∧ b.Current own page := by
  intro own a
  have hReached : Reached own a :=
    ⟨1, [.allocate own, .setUsedSize 0 10, .refCountDown 0],
      (((Run.nil _).snoc rfl).snoc rfl).snoc rfl⟩
  refine ⟨0, _, rfl, ((layout_current_iff hReached own).1 0 _ rfl).mpr ⟨?_, rfl⟩⟩
  exact List.prefix_rfl

theorem layout_not_current_partial :
    ¬ ∀ (own : Groups) (a : PagedTensorMemoryAllocator), Reached own a →
      ∀ (groups : Groups), groups ≠ [] → groups.getSizeBytes ≤ own.getSizeBytes →
        ∀ page b, a.allocate groups = some (page, b) → b.Current groups page := by
  intro hAll
  let own : Groups := [([2, 1, 4, 2], float16)]
  let groups : Groups := [([2, 1, 2, 2], float16)]
  obtain ⟨obj, layout, hObj, hLayout, hSize, -⟩ := hAll own (init own 1) ⟨1, [], .nil _⟩ groups
    (List.cons_ne_nil _ _) (by decide) 0 _ rfl
  cases hObj
  cases hLayout
  exact absurd hSize (by decide)

end PagedTensorMemoryAllocator

end LMCache
