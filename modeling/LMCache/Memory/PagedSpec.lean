import LMCache.Memory.PagedAllocator
import Mathlib.Data.List.Nodup

/-!
# No page is handed out twice

What a call does to the allocator is said by two things: the reference and pin count of each
page, and the queue of free pages. A state is sound when the queue has no page twice, no
page in use is in it, no two holders in use share a page, and the counts of a page are at
least what the holder in use has left. A reference or pin given back through a holder that
has none left breaks this: the object is put into the queue once more.
-/

namespace LMCache

open Lib PageHolder List Option

namespace PagedAllocator

variable {S : Type}

def counts (a : PagedAllocator S) (page : Nat) : Option (Int × Int) :=
  a.pages[page]?.map fun obj => (obj.refCount, obj.pinCount)

variable {a : PagedAllocator S} {page : Nat} {obj : PageObj S}

theorem counts_of_get (h : a.pages[page]? = some obj) :
    a.counts page = some (obj.refCount, obj.pinCount) := by
  rw [counts, h]
  rfl

theorem counts_modifyPage (h : a.pages[page]? = some obj) (f : PageObj S → PageObj S) (q : Nat) :
    (a.modifyPage page f).counts q =
      if q = page then some ((f obj).refCount, (f obj).pinCount) else a.counts q := by
  unfold counts modifyPage
  rw [getElem?_modify]
  by_cases hq : q = page
  · subst hq
    simp [h]
  · simp [hq, Ne.symm hq]

@[simp] theorem freeBlocks_modifyPage (a : PagedAllocator S) (page : Nat)
    (f : PageObj S → PageObj S) : (a.modifyPage page f).freeBlocks = a.freeBlocks := rfl

theorem get_modifyPage (h : a.pages[page]? = some obj) (f : PageObj S → PageObj S) :
    (a.modifyPage page f).pages[page]? = some (f obj) := by
  simp [modifyPage, h]

theorem counts_clearPin (a : PagedAllocator S) (page q : Nat) :
    (a.modifyPage page fun obj => { obj with pinCount := 0 }).counts q =
      if q = page then (a.counts q).map fun c => (c.1, 0) else a.counts q := by
  unfold counts modifyPage
  rw [getElem?_modify]
  by_cases hq : q = page
  · subst hq
    simp [Function.comp_def]
  · simp [hq, Ne.symm hq]

variable [DecidableEq S]

theorem counts_pushFree (a : PagedAllocator S) (page q : Nat) :
    (a.pushFree page).counts q = a.counts q := by
  unfold pushFree
  split
  · rfl
  · rename_i obj hGet
    split
    · dsimp only
      split
      · change (a.modifyPage page _).counts q = _
        rw [counts_modifyPage hGet]
        split
        · rename_i hq
          rw [hq, counts_of_get hGet]
        · rfl
      · rfl
    · rfl

theorem freeBlocks_pushFree (h : a.pages[page]? = some obj) :
    (a.pushFree page).freeBlocks = if obj.valid then a.freeBlocks ++ [page] else a.freeBlocks := by
  unfold pushFree
  rw [h]
  dsimp only
  split
  · split <;> rfl
  · rfl

theorem counts_free (a : PagedAllocator S) (page q : Nat) :
    (a.free page).counts q = a.counts q := by
  unfold free
  split
  · rfl
  · split
    · exact counts_pushFree a page q
    · rfl

theorem freeBlocks_free (h : a.pages[page]? = some obj) :
    (a.free page).freeBlocks = if obj.valid then a.freeBlocks ++ [page] else a.freeBlocks := by
  unfold free
  rw [h]
  dsimp only
  split
  · rename_i hValid
    change (a.pushFree page).freeBlocks = _
    rw [freeBlocks_pushFree h, if_pos hValid]
  · rfl

theorem ite_neg_eq_max (n : Int) : (if n < 0 then 0 else n) = max n 0 := by
  split <;> omega

theorem counts_refCountDown (h : a.pages[page]? = some obj) (q : Nat) :
    (a.refCountDown page).counts q =
      if q = page then some (max (obj.refCount - 1) 0, obj.pinCount) else a.counts q := by
  unfold refCountDown
  rw [h]
  dsimp only
  rw [ite_neg_eq_max]
  split
  · rw [counts_free, counts_modifyPage h]
  · rw [counts_modifyPage h]

/-- `ref_count_down` may put the page into the queue, and does so only when no reference and
no pin is left. -/
theorem freeBlocks_refCountDown (h : a.pages[page]? = some obj) :
    (a.refCountDown page).freeBlocks = a.freeBlocks ∨
      ((a.refCountDown page).freeBlocks = a.freeBlocks ++ [page] ∧
        max (obj.refCount - 1) 0 = 0 ∧ obj.pinCount = 0) := by
  unfold refCountDown
  rw [h]
  dsimp only
  rw [ite_neg_eq_max]
  split
  · rename_i hZero
    rw [freeBlocks_free (get_modifyPage h _)]
    split
    · exact Or.inr ⟨rfl, hZero⟩
    · exact Or.inl rfl
  · exact Or.inl rfl

theorem counts_unpin (h : a.pages[page]? = some obj) (q : Nat) :
    (a.unpin page).counts q =
      if q = page then some (obj.refCount, max (obj.pinCount - 1) 0) else a.counts q := by
  have hInner : ∀ b : PagedAllocator S,
      b = a.modifyPage page (fun obj' => { obj' with pinCount := obj.pinCount - 1 }) →
      ∀ c, c = (if obj.pinCount - 1 ≤ 0 ∧ obj.refCount ≤ 0 then b.free page else b) →
      ∀ q, c.counts q = if q = page then some (obj.refCount, obj.pinCount - 1) else a.counts q := by
    rintro b rfl c rfl q
    split
    · rw [counts_free, counts_modifyPage h]
    · rw [counts_modifyPage h]
  unfold unpin
  rw [h]
  dsimp only
  split
  · rename_i hNeg
    rw [counts_clearPin, hInner _ rfl _ rfl]
    split
    · rw [Int.max_eq_right (by omega)]
      rfl
    · rfl
  · rename_i hNonneg
    rw [hInner _ rfl _ rfl, Int.max_eq_left (by omega)]

/-- `unpin` may put the page into the queue, and does so only when no pin and no reference is
left. -/
theorem freeBlocks_unpin (h : a.pages[page]? = some obj) :
    (a.unpin page).freeBlocks = a.freeBlocks ∨
      ((a.unpin page).freeBlocks = a.freeBlocks ++ [page] ∧
        obj.pinCount - 1 ≤ 0 ∧ obj.refCount ≤ 0) := by
  have hInner : ∀ c, c = (if obj.pinCount - 1 ≤ 0 ∧ obj.refCount ≤ 0 then
        (a.modifyPage page fun obj' => { obj' with pinCount := obj.pinCount - 1 }).free page
      else a.modifyPage page fun obj' => { obj' with pinCount := obj.pinCount - 1 }) →
      c.freeBlocks = a.freeBlocks ∨ (c.freeBlocks = a.freeBlocks ++ [page] ∧
        obj.pinCount - 1 ≤ 0 ∧ obj.refCount ≤ 0) := by
    rintro c rfl
    split
    · rename_i hZero
      rw [freeBlocks_free (get_modifyPage h _)]
      split
      · exact Or.inr ⟨rfl, hZero⟩
      · exact Or.inl rfl
    · exact Or.inl rfl
  unfold unpin
  rw [h]
  dsimp only
  split
  · rw [freeBlocks_modifyPage]
    exact hInner _ rfl
  · exact hInner _ rfl

theorem popFree_cases {shapes : S} {sizeInBytes : Nat} {b : PagedAllocator S}
    (h : a.popFree shapes sizeInBytes = some (page, b)) (hPage : (a.counts page).isSome = true) :
    a.freeBlocks = page :: b.freeBlocks ∧ ∀ q, b.counts q =
      if q = page then (a.counts q).map fun c => (1, c.2) else a.counts q := by
  unfold popFree at h
  split at h
  · cases h
  · rename_i first rest hFree
    obtain ⟨rfl, rfl⟩ := Prod.mk.inj (some.inj h)
    refine ⟨hFree, fun q => ?_⟩
    obtain ⟨c, hc⟩ := isSome_iff_exists.mp hPage
    obtain ⟨obj, hGet, -⟩ := map_eq_some_iff.mp hc
    have hGet' : ({ a with freeBlocks := rest } : PagedAllocator S).pages[first]? = some obj := hGet
    rw [counts_modifyPage hGet']
    split
    · rename_i hq
      rw [hq, counts_of_get hGet]
      rfl
    · rfl

end PagedAllocator

namespace PageHolder

theorem fresh_inUse (page : Nat) : (fresh page).InUse := Or.inl Int.one_pos

@[simp] theorem page_count (h : PageHolder) (refs pins : Int) :
    (h.count refs pins).page = h.page := by
  unfold count
  split <;> rfl

theorem count_nonneg {h : PageHolder} (refs pins : Int) (hNonneg : 0 ≤ h.refs ∧ 0 ≤ h.pins) :
    0 ≤ (h.count refs pins).refs ∧ 0 ≤ (h.count refs pins).pins := by
  unfold count
  split
  · exact ⟨Int.le_max_right _ _, Int.le_max_right _ _⟩
  · exact hNonneg

theorem count_of_inUse {h : PageHolder} (hUse : h.InUse) (refs pins : Int) :
    h.count refs pins =
      { h with refs := max (h.refs + refs) 0, pins := max (h.pins + pins) 0 } := if_pos hUse

theorem inUse_of_count {h : PageHolder} {refs pins : Int} (hUse : (h.count refs pins).InUse) :
    h.InUse := by
  unfold count at hUse
  split at hUse
  · assumption
  · exact hUse

def Apart (h k : PageHolder) : Prop := h.InUse → k.InUse → h.page ≠ k.page

theorem pairwise_apart_iff {l : List PageHolder} :
    l.Pairwise Apart ↔ ∀ (i j : Nat) (h k : PageHolder), l[i]? = some h → l[j]? = some k →
      h.InUse → k.InUse → h.page = k.page → i = j := by
  rw [pairwise_iff_getElem]
  constructor
  · intro hApart i j h k hi hj hUse hUse' hPage
    obtain ⟨hiLt, rfl⟩ := List.getElem?_eq_some_iff.mp hi
    obtain ⟨hjLt, rfl⟩ := List.getElem?_eq_some_iff.mp hj
    rcases Nat.lt_trichotomy i j with hLt | hEq | hGt
    · exact absurd hPage (hApart i j hiLt hjLt hLt hUse hUse')
    · exact hEq
    · exact absurd hPage.symm (hApart j i hjLt hiLt hGt hUse' hUse)
  · intro hDistinct i j hi hj hLt hUse hUse' hPage
    exact absurd (hDistinct i j _ _ (getElem?_eq_getElem hi) (getElem?_eq_getElem hj)
      hUse hUse' hPage) (Nat.ne_of_lt hLt)

end PageHolder

namespace PagedSystem

open PagedAllocator

variable {S : Type}

structure Sound (s : PagedSystem S) : Prop where
  nodup : s.allocator.freeBlocks.Nodup
  pages : ∀ page ∈ s.allocator.freeBlocks, (s.allocator.counts page).isSome = true
  pins : ∀ page c, s.allocator.counts page = some c → 0 ≤ c.2
  own : ∀ h ∈ s.holders, 0 ≤ h.refs ∧ 0 ≤ h.pins
  away : ∀ h ∈ s.holders, h.InUse → h.page ∉ s.allocator.freeBlocks
  covered : ∀ h ∈ s.holders, ∃ c, s.allocator.counts h.page = some c ∧
    (h.InUse → h.refs ≤ c.1 ∧ h.pins ≤ c.2)
  distinct : s.holders.Pairwise PageHolder.Apart

variable {s : PagedSystem S} {h : PageHolder} {i : Nat} {b : PagedAllocator S}

/-- A call through a holder: the counts of its page change to `c`, and its page may go into
the queue when the call releases the holder. -/
theorem Sound.through (hSound : Sound s) (hAt : s.holders[i]? = some h) {refs pins : Int}
    {c c' : Int × Int} (hOld : s.allocator.counts h.page = some c)
    (hCounts : ∀ q, b.counts q = if q = h.page then some c' else s.allocator.counts q)
    (hPins : 0 ≤ c'.2)
    (hCovered : (h.count refs pins).InUse → (h.count refs pins).refs ≤ c'.1 ∧
      (h.count refs pins).pins ≤ c'.2)
    (hOthers : h.InUse ∨ (c.1 ≤ c'.1 ∧ c.2 ≤ c'.2))
    (hFree : b.freeBlocks = s.allocator.freeBlocks ∨
      (b.freeBlocks = s.allocator.freeBlocks ++ [h.page] ∧ h.InUse ∧ ¬ (h.count refs pins).InUse))
    : Sound ⟨b, s.holders.set i (h.count refs pins)⟩ := by
  have hMem := mem_of_getElem? hAt
  have hSet : ∀ j k, (s.holders.set i (h.count refs pins))[j]? = some k →
      (j = i ∧ k = h.count refs pins) ∨ (j ≠ i ∧ s.holders[j]? = some k) := by
    intro j k hk
    rw [getElem?_set] at hk
    split at hk
    · rename_i hij
      split at hk
      · exact Or.inl ⟨hij.symm, (some.inj hk).symm⟩
      · cases hk
    · rename_i hij
      exact Or.inr ⟨fun hji => hij hji.symm, hk⟩
  have hMemSet : ∀ k ∈ s.holders.set i (h.count refs pins),
      k = h.count refs pins ∨ ∃ j ≠ i, s.holders[j]? = some k := by
    intro k hk
    obtain ⟨j, hj⟩ := mem_iff_getElem?.mp hk
    rcases hSet j k hj with ⟨-, hEq⟩ | ⟨hne, hj'⟩
    · exact Or.inl hEq
    · exact Or.inr ⟨j, hne, hj'⟩
  -- Another holder in use has another page, when this one is in use.
  have hApart : ∀ j k, j ≠ i → s.holders[j]? = some k → k.InUse → h.InUse → k.page ≠ h.page :=
    fun j k hne hk hUse hUse' hPage =>
      hne (pairwise_apart_iff.mp hSound.distinct j i k h hk hAt hUse hUse' hPage)
  refine ⟨?_, ?_, ?_, ?_, ?_, ?_, ?_⟩
  · rcases hFree with hSame | ⟨hPushed, hUse, -⟩
    · exact hSame ▸ hSound.nodup
    · rw [hPushed]
      exact List.Nodup.append hSound.nodup (nodup_singleton _)
        (disjoint_singleton.mpr (hSound.away h hMem hUse))
  · intro page hPage
    rw [hCounts]
    split
    · rfl
    · rename_i hOther
      rcases hFree with hSame | ⟨hPushed, -, -⟩
      · exact hSound.pages page (hSame ▸ hPage)
      · rw [hPushed] at hPage
        rcases mem_append.mp hPage with hPage | hPage
        · exact hSound.pages page hPage
        · exact absurd (mem_singleton.mp hPage) hOther
  · intro page d hd
    rw [hCounts] at hd
    split at hd
    · cases hd
      exact hPins
    · exact hSound.pins page d hd
  · intro k hk
    rcases hMemSet k hk with rfl | ⟨j, -, hj⟩
    · exact count_nonneg refs pins (hSound.own h hMem)
    · exact hSound.own k (mem_of_getElem? hj)
  · intro k hk hUse
    rcases hMemSet k hk with rfl | ⟨j, hne, hj⟩
    · rw [page_count]
      rcases hFree with hSame | ⟨-, -, hReleased⟩
      · exact hSame ▸ hSound.away h hMem (inUse_of_count hUse)
      · exact absurd hUse hReleased
    · rcases hFree with hSame | ⟨hPushed, hUse', -⟩
      · exact hSame ▸ hSound.away k (mem_of_getElem? hj) hUse
      · rw [hPushed, mem_append, not_or, mem_singleton]
        exact ⟨hSound.away k (mem_of_getElem? hj) hUse, hApart j k hne hj hUse hUse'⟩
  · intro k hk
    rcases hMemSet k hk with rfl | ⟨j, hne, hj⟩
    · refine ⟨c', ?_, hCovered⟩
      rw [hCounts, page_count, if_pos rfl]
    · obtain ⟨d, hd, hOwn⟩ := hSound.covered k (mem_of_getElem? hj)
      by_cases hPage : k.page = h.page
      · refine ⟨c', by rw [hCounts, if_pos hPage], fun hUse => ?_⟩
        rw [hPage, hOld] at hd
        cases hd
        rcases hOthers with hUse' | ⟨hRefs, hPins'⟩
        · exact absurd hPage (hApart j k hne hj hUse hUse')
        · exact ⟨Int.le_trans (hOwn hUse).1 hRefs, Int.le_trans (hOwn hUse).2 hPins'⟩
      · exact ⟨d, by rw [hCounts, if_neg hPage, hd], hOwn⟩
  · refine pairwise_apart_iff.mpr fun j l k m hk hm hUse hUse' hPage => ?_
    rcases hSet j k hk with ⟨rfl, rfl⟩ | ⟨hne, hk'⟩
    · rcases hSet l m hm with ⟨rfl, -⟩ | ⟨hne', hm'⟩
      · rfl
      · rw [page_count] at hPage
        exact absurd hPage.symm (hApart l m hne' hm' hUse' (inUse_of_count hUse))
    · rcases hSet l m hm with ⟨rfl, rfl⟩ | ⟨-, hm'⟩
      · rw [page_count] at hPage
        exact absurd hPage (hApart j k hne hk' hUse (inUse_of_count hUse'))
      · exact pairwise_apart_iff.mp hSound.distinct j l k m hk' hm' hUse hUse' hPage

theorem Sound.page_get (hSound : Sound s) (hAt : s.holders[i]? = some h) :
    ∃ obj, s.allocator.pages[h.page]? = some obj ∧
      0 ≤ obj.pinCount ∧ (h.InUse → h.refs ≤ obj.refCount ∧ h.pins ≤ obj.pinCount) := by
  obtain ⟨c, hc, hOwn⟩ := hSound.covered h (mem_of_getElem? hAt)
  have hPins := hSound.pins _ _ hc
  obtain ⟨obj, hGet, rfl⟩ := map_eq_some_iff.mp hc
  exact ⟨obj, hGet, hPins, hOwn⟩

theorem Sound.refCountUp (hSound : Sound s) (hAt : s.holders[i]? = some h) :
    Sound ⟨s.allocator.refCountUp h.page, s.holders.set i (h.count 1 0)⟩ := by
  obtain ⟨obj, hGet, hPins, hOwn⟩ := hSound.page_get hAt
  obtain ⟨hRefs', hPins'⟩ := hSound.own h (mem_of_getElem? hAt)
  refine hSound.through hAt (counts_of_get hGet) (counts_modifyPage hGet _) hPins (fun hUse => ?_)
    (Or.inr ⟨by simp only; omega, Int.le_refl _⟩) (Or.inl rfl)
  have hUse' := inUse_of_count hUse
  have hOwn' := hOwn hUse'
  simp only [count_of_inUse hUse']
  omega

theorem Sound.pin (hSound : Sound s) (hAt : s.holders[i]? = some h) :
    Sound ⟨s.allocator.pin h.page, s.holders.set i (h.count 0 1)⟩ := by
  obtain ⟨obj, hGet, hPins, hOwn⟩ := hSound.page_get hAt
  obtain ⟨hRefs', hPins'⟩ := hSound.own h (mem_of_getElem? hAt)
  refine hSound.through hAt (counts_of_get hGet) (counts_modifyPage hGet _) (by simp only; omega)
    (fun hUse => ?_) (Or.inr ⟨Int.le_refl _, by simp only; omega⟩) (Or.inl rfl)
  have hUse' := inUse_of_count hUse
  have hOwn' := hOwn hUse'
  simp only [count_of_inUse hUse']
  omega

variable [DecidableEq S]

theorem Sound.refCountDown (hSound : Sound s) (hAt : s.holders[i]? = some h) (hUse : h.InUse) :
    Sound ⟨s.allocator.refCountDown h.page, s.holders.set i (h.count (-1) 0)⟩ := by
  obtain ⟨obj, hGet, hPins, hOwn⟩ := hSound.page_get hAt
  obtain ⟨hRefs', hPins'⟩ := hSound.own h (mem_of_getElem? hAt)
  have hOwn' := hOwn hUse
  refine hSound.through hAt (counts_of_get hGet) (counts_refCountDown hGet) hPins (fun _ => ?_)
    (Or.inl hUse) ?_
  · simp only [count_of_inUse hUse]
    omega
  · rcases freeBlocks_refCountDown hGet with hSame | ⟨hPushed, hNoRef, hNoPin⟩
    · exact Or.inl hSame
    · refine Or.inr ⟨hPushed, hUse, ?_⟩
      simp only [count_of_inUse hUse, PageHolder.InUse]
      omega

theorem Sound.unpin (hSound : Sound s) (hAt : s.holders[i]? = some h) (hUse : h.InUse) :
    Sound ⟨s.allocator.unpin h.page, s.holders.set i (h.count 0 (-1))⟩ := by
  obtain ⟨obj, hGet, hPins, hOwn⟩ := hSound.page_get hAt
  obtain ⟨hRefs', hPins'⟩ := hSound.own h (mem_of_getElem? hAt)
  have hOwn' := hOwn hUse
  refine hSound.through hAt (counts_of_get hGet) (counts_unpin hGet) (Int.le_max_right _ _)
    (fun _ => ?_) (Or.inl hUse) ?_
  · simp only [count_of_inUse hUse]
    omega
  · rcases freeBlocks_unpin hGet with hSame | ⟨hPushed, hNoPin, hNoRef⟩
    · exact Or.inl hSame
    · refine Or.inr ⟨hPushed, hUse, ?_⟩
      simp only [count_of_inUse hUse, PageHolder.InUse]
      omega

omit [DecidableEq S] in
theorem Sound.congr (hSound : Sound s) (hCounts : ∀ q, b.counts q = s.allocator.counts q)
    (hFree : b.freeBlocks = s.allocator.freeBlocks) : Sound ⟨b, s.holders⟩ where
  nodup := hFree ▸ hSound.nodup
  pages page hPage := by
    rw [hCounts]
    exact hSound.pages page (hFree ▸ hPage)
  pins page c hc := hSound.pins page c (hCounts page ▸ hc)
  own := hSound.own
  away h hMem hUse := hFree ▸ hSound.away h hMem hUse
  covered h hMem := by
    rw [hCounts]
    exact hSound.covered h hMem
  distinct := hSound.distinct

theorem Sound.popFree (hSound : Sound s) {shapes : S} {sizeInBytes page : Nat}
    (hPop : s.allocator.popFree shapes sizeInBytes = some (page, b)) :
    Sound ⟨b, s.holders ++ [.fresh page]⟩ := by
  have hMem : page ∈ s.allocator.freeBlocks := by
    unfold PagedAllocator.popFree at hPop
    split at hPop
    · cases hPop
    · rename_i hFree
      obtain ⟨rfl, -⟩ := Prod.mk.inj (some.inj hPop)
      simp [hFree]
  obtain ⟨hFree, hCounts⟩ := popFree_cases hPop (hSound.pages page hMem)
  obtain ⟨c, hc⟩ := isSome_iff_exists.mp (hSound.pages page hMem)
  have hNodup := hSound.nodup
  rw [hFree, nodup_cons] at hNodup
  have hRest : ∀ q ∈ b.freeBlocks, q ∈ s.allocator.freeBlocks := fun q hq =>
    hFree ▸ mem_cons_of_mem page hq
  have hOther : ∀ h ∈ s.holders, h.InUse → h.page ≠ page := fun h hh hUse hPage =>
    hSound.away h hh hUse (hPage ▸ hMem)
  have hSame : ∀ q, (b.counts q).isSome = (s.allocator.counts q).isSome := by
    intro q
    rw [hCounts]
    split <;> simp
  refine ⟨hNodup.2, ?_, ?_, ?_, ?_, ?_, ?_⟩
  · intro q hq
    rw [hSame]
    exact hSound.pages q (hRest q hq)
  · intro q d hd
    rw [hCounts] at hd
    split at hd
    · obtain ⟨e, he, rfl⟩ := map_eq_some_iff.mp hd
      exact hSound.pins q e he
    · exact hSound.pins q d hd
  · intro h hh
    rcases mem_append.mp hh with hh | hh
    · exact hSound.own h hh
    · rw [mem_singleton.mp hh]
      exact ⟨Int.zero_le_ofNat 1, Int.le_refl 0⟩
  · intro h hh hUse hIn
    rcases mem_append.mp hh with hh | hh
    · exact hSound.away h hh hUse (hRest _ hIn)
    · rw [mem_singleton.mp hh] at hIn
      exact hNodup.1 hIn
  · intro h hh
    rcases mem_append.mp hh with hh | hh
    · obtain ⟨d, hd, hOwn⟩ := hSound.covered h hh
      by_cases hPage : h.page = page
      · refine ⟨(1, d.2), by rw [hCounts, if_pos hPage, hd]; rfl, fun hUse => ?_⟩
        exact absurd hPage (hOther h hh hUse)
      · exact ⟨d, by rw [hCounts, if_neg hPage, hd], hOwn⟩
    · rw [mem_singleton.mp hh]
      refine ⟨(1, c.2), ?_, fun _ => ⟨Int.le_refl 1, hSound.pins page c hc⟩⟩
      rw [hCounts, PageHolder.fresh, if_pos rfl, hc]
      rfl
  · refine pairwise_append.mpr ⟨hSound.distinct, pairwise_singleton _ _, ?_⟩
    intro h hh k hk hUse _
    rw [mem_singleton.mp hk]
    exact hOther h hh hUse

variable {holders : List PageHolder}

theorem Sound.pushFree {a : PagedAllocator S} {page : Nat} {rest : List PageHolder}
    (hSound : Sound ⟨a, holders ++ .fresh page :: rest⟩) :
    Sound ⟨a.pushFree page, holders ++ rest⟩ := by
  have hMem : PageHolder.fresh page ∈ holders ++ .fresh page :: rest := by simp
  have hSub : (holders ++ rest).Sublist (holders ++ .fresh page :: rest) :=
    (sublist_cons_self _ _).append_left holders
  obtain ⟨c, hc, -⟩ := hSound.covered _ hMem
  obtain ⟨obj, hGet, -⟩ := map_eq_some_iff.mp hc
  have hPush : (a.pushFree page).freeBlocks =
      if obj.valid then a.freeBlocks ++ [page] else a.freeBlocks := freeBlocks_pushFree hGet
  have hAway : page ∉ a.freeBlocks := hSound.away _ hMem (fresh_inUse page)
  have hOther : ∀ h ∈ holders ++ rest, h.InUse → h.page ≠ page := by
    obtain ⟨-, hRest, hCross⟩ := pairwise_append.mp hSound.distinct
    intro h hh hUse
    rcases mem_append.mp hh with hh | hh
    · exact hCross h hh _ mem_cons_self hUse (fresh_inUse page)
    · exact ((pairwise_cons.mp hRest).1 h hh (fresh_inUse page) hUse).symm
  have hFree : ∀ q ∈ (a.pushFree page).freeBlocks, q ∈ a.freeBlocks ∨ q = page := by
    intro q hq
    rw [hPush] at hq
    split at hq
    · simpa using hq
    · exact Or.inl hq
  refine ⟨?_, ?_, ?_, ?_, ?_, ?_, List.Pairwise.sublist hSub hSound.distinct⟩
  · simp only [hPush]
    split
    · exact List.Nodup.append hSound.nodup (nodup_singleton _) (disjoint_singleton.mpr hAway)
    · exact hSound.nodup
  · intro q hq
    rw [counts_pushFree]
    rcases hFree q hq with hq | rfl
    · exact hSound.pages q hq
    · exact isSome_iff_exists.mpr ⟨c, hc⟩
  · intro q d hd
    rw [counts_pushFree] at hd
    exact hSound.pins q d hd
  · exact fun h hh => hSound.own h (hSub.subset hh)
  · intro h hh hUse hIn
    rcases hFree _ hIn with hIn | hPage
    · exact hSound.away h (hSub.subset hh) hUse hIn
    · exact hOther h hh hUse hPage
  · intro h hh
    rw [counts_pushFree]
    exact hSound.covered h (hSub.subset hh)

theorem Sound.batchedFree {a : PagedAllocator S} {blocks : List Nat}
    (hSound : Sound ⟨a, holders ++ blocks.map .fresh⟩) :
    Sound ⟨a.batchedFree blocks, holders⟩ := by
  induction blocks generalizing a with
  | nil => simpa [PagedAllocator.batchedFree] using hSound
  | cons page rest ih => exact ih hSound.pushFree

/-- The loop of `batched_allocate`: the blocks taken so far count as handed out. -/
theorem Sound.batchedLoop (shapes : S) (sizeInBytes n : Nat) {blocks : List Nat}
    {a : PagedAllocator S} (hSound : Sound ⟨a, holders ++ blocks.map .fresh⟩) :
    match PagedAllocator.batchedLoop shapes sizeInBytes n blocks a with
    | (none, b) => Sound ⟨b, holders⟩
    | (some taken, b) => Sound ⟨b, holders ++ taken.map .fresh⟩ := by
  induction n generalizing blocks a with
  | zero => exact hSound
  | succ n ih =>
    unfold PagedAllocator.batchedLoop
    cases hPop : a.popFree shapes sizeInBytes with
    | none => exact hSound.batchedFree
    | some taken =>
      obtain ⟨page, b⟩ := taken
      refine ih ?_
      have hNext := Sound.popFree hSound hPop
      rw [map_append, ← append_assoc]
      exact hNext

/-- `ref_count_down` and `unpin` are called through holders in use only: what a caller gave
back in full it does not give back again. -/
def ReleasesHeld (s : PagedSystem S) : PagedCall S → Prop
  | .refCountDown holder => ∀ h ∈ s.holders[holder]?, h.InUse
  | .unpin holder => ∀ h ∈ s.holders[holder]?, h.InUse
  | _ => True

instance (s : PagedSystem S) : ∀ c : PagedCall S, Decidable (ReleasesHeld s c)
  | .refCountDown holder => inferInstanceAs (Decidable (∀ h ∈ s.holders[holder]?, h.InUse))
  | .unpin holder => inferInstanceAs (Decidable (∀ h ∈ s.holders[holder]?, h.InUse))
  | .allocate _ _ | .batchedAllocate _ _ _ | .refCountUp _ | .pin _ => .isTrue trivial

theorem Sound.call {t : PagedSystem S} (hSound : Sound s) {c : PagedCall S}
    (hHeld : ReleasesHeld s c) (hCall : PagedSystem.call s c = some t) : Sound t := by
  cases c with
  | allocate shapes sizeInBytes =>
    simp only [PagedSystem.call, PagedAllocator.allocate] at hCall
    cases hPop : s.allocator.popFree shapes sizeInBytes with
    | none =>
      rw [hPop] at hCall
      cases hCall
      exact hSound
    | some taken =>
      obtain ⟨page, b⟩ := taken
      rw [hPop] at hCall
      cases hCall
      exact (hSound.popFree hPop).congr (fun _ => rfl) rfl
  | batchedAllocate shapes sizeInBytes batchSize =>
    have hStart : Sound ⟨s.allocator, s.holders ++ ([] : List Nat).map .fresh⟩ := by
      simpa using hSound
    have hLoop := Sound.batchedLoop shapes sizeInBytes batchSize.toNat hStart
    simp only [PagedSystem.call, PagedAllocator.batchedAllocate] at hCall
    split at hLoop <;> rename_i hResult <;> rw [hResult] at hCall <;> cases hCall
    · exact hLoop
    · exact hLoop.congr (fun _ => rfl) rfl
  | refCountUp holder =>
    obtain ⟨h, hAt, rfl⟩ := map_eq_some_iff.mp hCall
    exact hSound.refCountUp hAt
  | refCountDown holder =>
    obtain ⟨h, hAt, rfl⟩ := map_eq_some_iff.mp hCall
    exact hSound.refCountDown hAt (hHeld h hAt)
  | pin holder =>
    obtain ⟨h, hAt, rfl⟩ := map_eq_some_iff.mp hCall
    exact hSound.pin hAt
  | unpin holder =>
    obtain ⟨h, hAt, rfl⟩ := map_eq_some_iff.mp hCall
    exact hSound.unpin hAt (hHeld h hAt)

omit [DecidableEq S] in
theorem sound_init (shapes : S) (alignBytes numPages : Nat) :
    Sound (init shapes alignBytes numPages) := by
  refine ⟨nodup_range, ?_, ?_, by simp [init], by simp [init], by simp [init], List.Pairwise.nil⟩
  · intro page hPage
    have hLt : page < numPages := by simpa [init, PagedAllocator.init] using hPage
    simp [counts, init, PagedAllocator.init, hLt]
  · intro page c hc
    obtain ⟨obj, hGet, rfl⟩ := map_eq_some_iff.mp hc
    obtain rfl := eq_of_mem_replicate (mem_of_getElem? hGet)
    exact Int.le_refl 0

/-- What is wanted of the allocator: the queue holds no page twice, and no page belongs to two
holders in use. -/
def NoDoubleUse (s : PagedSystem S) : Prop :=
  s.allocator.freeBlocks.Nodup ∧
    ∀ (i j : Nat) (h k : PageHolder), s.holders[i]? = some h → s.holders[j]? = some k →
      h.InUse → k.InUse → h.page = k.page → i = j

/-- In every run that gives back only what is held, no page is handed out twice. -/
theorem noDoubleUse_of_run {shapes : S} {alignBytes numPages : Nat} {calls : List (PagedCall S)}
    (hRun : Run (Run.Under ReleasesHeld fun s c t => call s c = some t)
      (init shapes alignBytes numPages) calls s) : NoDoubleUse s := by
  have hSound : Sound s := hRun.invariant (fun _ _ _ h hStep => h.call hStep.1 hStep.2)
    (sound_init shapes alignBytes numPages)
  exact ⟨hSound.nodup, pairwise_apart_iff.mp hSound.distinct⟩

/-- A page is pinned, its reference goes first and comes back to the queue with the pin; an
extra `ref_count_down` while it is pinned does no harm. -/
theorem noDoubleUse_pinned : ∃ s : PagedSystem Unit,
    Run (Run.Under ReleasesHeld fun s c t => call s c = some t) (init () 4 2)
      [.allocate () 4, .pin 0, .refCountDown 0, .refCountDown 0, .unpin 0,
        .batchedAllocate () 4 2] s ∧ NoDoubleUse s := by
  obtain ⟨s, hs⟩ : ∃ s, Run.exec (fun s c => if ReleasesHeld s c then call s c else none)
      (init () 4 2) [.allocate () 4, .pin 0, .refCountDown 0, .refCountDown 0, .unpin 0,
        .batchedAllocate () 4 2] = some s :=
    Option.isSome_iff_exists.mp (by decide)
  have hRun := Run.under_of_exec ReleasesHeld call hs
  exact ⟨s, hRun, noDoubleUse_of_run hRun⟩

/-- One `ref_count_down` too many puts page 0 of an allocator with one page into the queue
twice, and the next two calls of `allocate` both get it. -/
theorem doubleUse_of_extra_down :
    (∃ s : PagedSystem Unit, Run (fun s c t => call s c = some t) (init () 4 1)
      [.allocate () 4, .refCountDown 0, .refCountDown 0] s ∧
      s.allocator.freeBlocks = [0, 0]) ∧
    ∃ s : PagedSystem Unit, Run (fun s c t => call s c = some t) (init () 4 1)
      [.allocate () 4, .refCountDown 0, .refCountDown 0, .allocate () 4, .allocate () 4] s ∧
      ¬ NoDoubleUse s := by
  refine ⟨⟨_, Run.of_exec call rfl, rfl⟩, ⟨_, Run.of_exec call rfl, fun h => ?_⟩⟩
  exact absurd (h.2 1 2 (.fresh 0) (.fresh 0) rfl rfl (by decide) (by decide) rfl) (by decide)

end PagedSystem

end LMCache
