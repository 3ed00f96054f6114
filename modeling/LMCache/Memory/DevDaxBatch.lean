import LMCache.Lib.Distribution
import LMCache.Memory.DevDaxSpec
import LMCache.Memory.FreeRoom

/-!
# Allocation from the pool

A single object comes from the local allocator or from the first active arena that has room. A
batch goes through the heaps in the same order and is taken back when it could not be filled.
While it is being filled the pool is sound, with the arenas it has gone through in their new
states and the others in their old ones; so every arena can be compared with what it was by its
live objects alone, and the roll back restores it.
-/

namespace LMCache

open Lib ObjTable TensorMemoryAllocator List Option

variable {alignBytes : Nat} {start objs objs' more : PoolObjs} {rawSize : Nat}

theorem released_batchedFree (a : TensorMemoryAllocator) (objs : PoolObjs) (ids : List Nat) :
    Released id ids objs (a.batchedFree objs ids).2 := by
  intro i
  rw [batchedFree_objs, getElem?_foldl_invalidate]
  simp only [mem_sortByAddress, id]

/-- One active arena has served an object. -/
def GivenBy (alignBytes : Nat) (objs : PoolObjs) (arenas : List DevDaxArena)
    (obj : TensorMemoryObj PoolParent) (arenas' : List DevDaxArena) : Prop :=
  ∃ before arena after allocator, arenas = before ++ arena :: after ∧
    arenas' = before ++ { arena with allocator := allocator } :: after ∧
    arena.state = .active ∧
    allocator.Serves alignBytes (servedBy arena.serial) (objs ++ [obj]) ∧
    SameHeap arena.allocator allocator ∧ obj.valid = true ∧
    obj.parentAllocator = .devDax arena.serial ∧
    obj.dataPtr = arena.allocator.dataPtr + obj.address

variable {arenas : List DevDaxArena}

theorem GivenBy.cons {arenas' : List DevDaxArena} {obj : TensorMemoryObj PoolParent}
    (h : GivenBy alignBytes objs arenas obj arenas') (arena : DevDaxArena) :
    GivenBy alignBytes objs (arena :: arenas) obj (arena :: arenas') := by
  obtain ⟨before, first, after, allocator, rfl, rfl, hRest⟩ := h
  exact ⟨arena :: before, first, after, allocator, rfl, rfl, hRest⟩

theorem allocateFromArenas_cases (hAlign : 0 < alignBytes) (hPos : 0 < rawSize)
    (h : ∀ arena ∈ arenas, arena.allocator.Serves alignBytes (servedBy arena.serial) objs) :
    allocateFromArenas rawSize arenas = (none, arenas) ∨
      ∃ obj arenas', allocateFromArenas rawSize arenas = (some obj, arenas') ∧
        GivenBy alignBytes objs arenas obj arenas' := by
  induction arenas with
  | nil => exact Or.inl rfl
  | cons arena arenas ih =>
    -- the arena is not asked, or refuses
    have hSkip : allocateFromArenas rawSize (arena :: arenas) =
          ((allocateFromArenas rawSize arenas).1, arena :: (allocateFromArenas rawSize arenas).2) →
        allocateFromArenas rawSize (arena :: arenas) = (none, arena :: arenas) ∨
          ∃ obj arenas', allocateFromArenas rawSize (arena :: arenas) = (some obj, arenas') ∧
            GivenBy alignBytes objs (arena :: arenas) obj arenas' := by
      intro hEq
      rw [hEq]
      rcases ih fun a ha => h a (mem_cons_of_mem _ ha) with hNone | ⟨obj, arenas', hSome, hGiven⟩
      · rw [hNone]
        exact Or.inl rfl
      · rw [hSome]
        exact Or.inr ⟨obj, arena :: arenas', rfl, hGiven.cons arena⟩
    by_cases hGuard : arena.state = .active ∧
        0 < availableCount arena.allocator.addressManager rawSize
    · rcases (h arena mem_cons_self).allocate hAlign
        (servedBy_iff.mpr rfl) hPos with hNone | ⟨obj, a, hSome, hServes, hPtr, hSize, hObj⟩
      · apply hSkip
        rw [allocateFromArenas, if_pos hGuard, hNone]
      · refine Or.inr ⟨obj, { arena with allocator := a } :: arenas, ?_,
          [], arena, arenas, a, rfl, rfl, hGuard.1, hServes, ⟨hPtr, hSize⟩, hObj⟩
        rw [allocateFromArenas, if_pos hGuard, hSome]
    · apply hSkip
      rw [allocateFromArenas, if_neg hGuard]

namespace DevDaxMemoryAllocator

variable {s t : DevDaxMemoryAllocator}

/-- The objects of the pool among the new ones come from arenas that are active. -/
def FromActive (s : DevDaxMemoryAllocator) (new : PoolObjs) : Prop :=
  ∀ obj ∈ new, ∀ serial, obj.parentAllocator = .devDax serial →
    ∃ arena ∈ s.arenas, arena.serial = serial ∧ arena.state = .active

/-- What an allocation changes: there are new objects, and allocators in other states. -/
structure Serving (s t : DevDaxMemoryAllocator) : Prop where
  objs : ∃ new, t.objs = s.objs ++ new ∧ s.FromActive new
  arenas : SameArenas s.arenas t.arenas

theorem Sound.allocate (h : s.Sound) (hPos : 0 < rawSize) :
    (s.allocate rawSize).2.Sound ∧ Serving s (s.allocate rawSize).2 := by
  have hArenas := allocateFromArenas_cases h.alignPos hPos
    fun arena hArena => (h.arenas arena hArena).serves
  have hFromArenas : ∀ l, l = s.localAllocator →
      let r := allocateFromArenas rawSize s.arenas
      Sound { s with localAllocator := l, arenas := r.2, objs := s.objs ++ r.1.toList } ∧
        Serving s { s with localAllocator := l, arenas := r.2, objs := s.objs ++ r.1.toList } := by
    rintro l rfl
    rcases hArenas with hNone | ⟨obj, arenas, hSome, before, arena, after, allocator, hList, rfl,
      hActive, hServes, hHeap, hObj⟩
    · rw [hNone]
      dsimp only
      rw [toList_none, append_nil]
      refine ⟨h, ⟨[], (append_nil _).symm, ?_⟩, SameArenas.refl _⟩
      intro obj hObj
      cases hObj
    · rw [hSome]
      dsimp only
      rw [toList_some]
      refine ⟨h.serve hList hActive hServes hHeap ?_, ⟨[obj], rfl, ?_⟩, ?_⟩
      · intro o ho
        obtain rfl := mem_singleton.mp ho
        exact hObj
      · intro o ho serial hParent
        obtain rfl := mem_singleton.mp ho
        rw [hObj.2.1] at hParent
        refine ⟨arena, ?_, PoolParent.devDax.inj hParent, hActive⟩
        rw [hList]
        exact mem_append_right _ mem_cons_self
      · rw [hList]
        exact (SameArenas.refl before).append (.cons rfl (SameArenas.refl after))
  unfold DevDaxMemoryAllocator.allocate
  cases hLocal : s.localAllocator with
  | none => exact hFromArenas none hLocal.symm
  | some a =>
    rcases (h.atHome a hLocal).allocate h.alignPos
      (servedLocally_iff.mpr rfl) hPos with hNone | ⟨obj, a', hSome, hServes, -, -, -, hParent, -⟩
    · simp only [map_some, bind_some, hNone]
      exact hFromArenas (some a) hLocal.symm
    · simp only [map_some, bind_some, hSome]
      have hMore : ∀ o ∈ [obj], o.parentAllocator = .localAllocator := by
        intro o ho
        obtain rfl := mem_singleton.mp ho
        exact hParent
      refine ⟨h.serveLocal hServes hMore, ⟨[obj], rfl, ?_⟩, SameArenas.refl _⟩
      intro o ho serial hOther
      rw [hMore o ho] at hOther
      cases hOther

end DevDaxMemoryAllocator

/-- `p` is an arena with the objects it gave since the table was `start`. -/
structure Gave (alignBytes : Nat) (start objs : PoolObjs) (arena : DevDaxArena)
    (p : DevDaxArena × List Nat) : Prop where
  same : p.1 = { arena with allocator := p.1.allocator }
  heap : SameHeap arena.allocator p.1.allocator
  serves : p.1.allocator.Serves alignBytes (servedBy arena.serial) objs
  mine : ∀ id ∈ p.2, ∃ obj, objs[id]? = some obj ∧ obj.parentAllocator = .devDax arena.serial
  fresh : ∀ id ∈ p.2, liveAt (servedBy arena.serial) start id = none
  kept : ∀ id, id ∉ p.2 →
    liveAt (servedBy arena.serial) objs id = liveAt (servedBy arena.serial) start id

namespace Gave

variable {arena : DevDaxArena} {p : DevDaxArena × List Nat}

theorem nothing (h : arena.allocator.Serves alignBytes (servedBy arena.serial) objs)
    (hSame : ∀ id, liveAt (servedBy arena.serial) objs id =
      liveAt (servedBy arena.serial) start id) :
    Gave alignBytes start objs arena (arena, []) where
  same := rfl
  heap := ⟨rfl, rfl⟩
  serves := h
  mine _ hId := absurd hId not_mem_nil
  fresh _ hId := absurd hId not_mem_nil
  kept id _ := hSame id

theorem allMine (h : Gave alignBytes start objs arena p) :
    AllMine (servedBy arena.serial) objs p.2 := by
  intro id hId obj hObj
  obtain ⟨obj', hObj', hParent⟩ := h.mine id hId
  obtain rfl := some.inj (hObj.symm.trans hObj')
  exact servedBy_iff.mpr hParent

theorem append_other (h : Gave alignBytes start objs arena p)
    (hMore : ∀ obj ∈ more, obj.parentAllocator ≠ .devDax arena.serial) :
    Gave alignBytes start (objs ++ more) arena p := by
  have hSame : ∀ id, liveAt (servedBy arena.serial) (objs ++ more) id =
      liveAt (servedBy arena.serial) objs id :=
    liveAt_append_other fun obj hObj => servedBy_eq_false (hMore obj hObj)
  refine ⟨h.same, h.heap, h.serves.congr hSame, ?_, h.fresh, ?_⟩
  · intro id hId
    obtain ⟨obj, hObj, hParent⟩ := h.mine id hId
    refine ⟨obj, ?_, hParent⟩
    rw [getElem?_append_left (List.getElem?_eq_some_iff.mp hObj).1, hObj]
  · intro id hId
    rw [hSame, h.kept id hId]

theorem released_other {view : Nat → Nat} {ids : List Nat} (h : Gave alignBytes start objs arena p)
    (hReleased : Released view ids objs objs')
    (hOther : ∀ id ∈ ids, ∀ obj, objs[id]? = some obj →
      obj.parentAllocator ≠ .devDax arena.serial) :
    Gave alignBytes start objs' arena p := by
  have hSame := hReleased.liveAt_other fun id hId obj hObj =>
    servedBy_eq_false (hOther id hId obj hObj)
  refine ⟨h.same, h.heap, h.serves.congr hSame, ?_, h.fresh, ?_⟩
  · intro id hId
    obtain ⟨obj, hObj, hParent⟩ := h.mine id hId
    rw [hReleased id, hObj]
    split
    · exact ⟨_, rfl, hParent⟩
    · exact ⟨_, rfl, hParent⟩
  · intro id hId
    rw [hSame, h.kept id hId]

theorem back (h : Gave alignBytes start objs arena p)
    (hStart : arena.allocator.Serves alignBytes (servedBy arena.serial) start) :
    { p.1 with allocator := (p.1.allocator.batchedFree objs p.2).1 } = arena := by
  have hAllocator : (p.1.allocator.batchedFree objs p.2).1 = arena.allocator := by
    refine (h.serves.batchedFree h.allMine).unique
      (h.heap.trans (sameHeap_batchedFree p.1.allocator objs p.2)) hStart ⟨rfl, rfl⟩ ?_
    apply List.Perm.of_eq
    apply liveBlocks_congr
    intro id
    rw [(released_batchedFree p.1.allocator objs p.2).liveAt]
    split
    · exact (h.fresh id ‹_›).symm
    · exact h.kept id ‹_›
  rw [hAllocator, h.same]

end Gave

theorem rollBack_eq {given : List (DevDaxArena × List Nat)}
    (hGave : List.Forall₂ (Gave alignBytes start objs) arenas given)
    (hStart : ∀ arena ∈ arenas, arena.allocator.Serves alignBytes (servedBy arena.serial) start)
    (hSerials : arenas.Pairwise fun a b => a.serial ≠ b.serial) :
    rollBack objs given = arenas := by
  induction arenas generalizing objs given with
  | nil =>
    cases hGave
    rfl
  | cons arena arenas ih =>
    obtain ⟨p, given, hFirst, hRest, rfl⟩ := forall₂_cons_left_iff.mp hGave
    obtain ⟨hApart, hSerials⟩ := pairwise_cons.mp hSerials
    have hAfter : List.Forall₂ (Gave alignBytes start (p.1.allocator.batchedFree objs p.2).2)
        arenas given := by
      have hOthers : List.Forall₂
          (fun a q => arena.serial ≠ a.serial ∧ Gave alignBytes start objs a q) arenas given :=
        forall₂_and_left _ _ |>.mpr ⟨hApart, hRest⟩
      refine hOthers.imp fun a q hOther => ?_
      refine hOther.2.released_other (released_batchedFree p.1.allocator objs p.2) ?_
      intro id hId obj hObj hParent
      rw [servedBy_iff.mp (hFirst.allMine id hId obj hObj)] at hParent
      exact hOther.1 (PoolParent.devDax.inj hParent)
    have hTail := ih hAfter (fun a ha => hStart a (mem_cons_of_mem _ ha)) hSerials
    rw [rollBack, hTail, hFirst.back (hStart arena mem_cons_self)]

def heapBin (rawSize : Nat) (a : TensorMemoryAllocator) : Bin :=
  ⟨a.room rawSize, availableCount a.addressManager rawSize⟩

/-- The loop has gone through `visited`, and `todo` are still to come. -/
structure Filled (s : DevDaxMemoryAllocator) (visited todo : List DevDaxArena) (c : Filling) :
    Prop where
  all : s.arenas = visited ++ todo
  sound : DevDaxMemoryAllocator.Sound
    { s with arenas := c.arenas.map Prod.fst ++ todo, objs := c.objs }
  gave : List.Forall₂ (Gave s.alignBytes s.objs c.objs) visited c.arenas
  new : ∃ new, c.objs = s.objs ++ new ∧ ∀ obj ∈ new, ∃ arena ∈ visited,
    arena.state = .active ∧ obj.parentAllocator = .devDax arena.serial

namespace Filled

variable {s : DevDaxMemoryAllocator} {visited todo : List DevDaxArena} {arena : DevDaxArena}
  {c : Filling}

theorem serial_ne (h : Filled s visited (arena :: todo) c) (hSound : s.Sound) :
    ∀ a ∈ visited, a.serial ≠ arena.serial := by
  intro a ha
  have hApart := hSound.apart
  rw [h.all, pairwise_append] at hApart
  exact (hApart.2.2 a ha arena mem_cons_self).serial

theorem untouched (h : Filled s visited (arena :: todo) c) (hSound : s.Sound) (id : Nat) :
    liveAt (servedBy arena.serial) c.objs id = liveAt (servedBy arena.serial) s.objs id := by
  obtain ⟨new, hObjs, hNew⟩ := h.new
  rw [hObjs]
  apply liveAt_append_other
  intro obj hObj
  obtain ⟨a, ha, -, hParent⟩ := hNew obj hObj
  rw [hParent]
  exact servedBy_eq_false fun hEq => h.serial_ne hSound a ha (PoolParent.devDax.inj hEq)

theorem serves (h : Filled s visited (arena :: todo) c) :
    arena.allocator.Serves s.alignBytes (servedBy arena.serial) c.objs :=
  (h.sound.arenas arena (mem_append_right _ mem_cons_self)).serves

theorem pass (h : Filled s visited (arena :: todo) c) (hSound : s.Sound) :
    Filled s (visited ++ [arena]) todo { c with arenas := c.arenas ++ [(arena, [])] } where
  all := by rw [h.all, append_assoc, singleton_append]
  sound := by
    simp only [map_append, map_cons, map_nil, append_assoc, singleton_append]
    exact h.sound
  gave := rel_append h.gave (.cons (.nothing h.serves (h.untouched hSound)) .nil)
  new := by
    obtain ⟨new, hObjs, hNew⟩ := h.new
    refine ⟨new, hObjs, fun obj hObj => ?_⟩
    obtain ⟨a, ha, hRest⟩ := hNew obj hObj
    exact ⟨a, mem_append_left _ ha, hRest⟩

theorem give (h : Filled s visited (arena :: todo) c) (hSound : s.Sound)
    (hActive : arena.state = .active) {allocator : TensorMemoryAllocator} {new : PoolObjs}
    (hServes : allocator.Serves s.alignBytes (servedBy arena.serial) (c.objs ++ new))
    (hHeap : SameHeap arena.allocator allocator)
    (hNew : ∀ obj ∈ new, obj.valid = true ∧ obj.parentAllocator = .devDax arena.serial ∧
      obj.dataPtr = arena.allocator.dataPtr + obj.address) (remaining : Int) :
    Filled s (visited ++ [arena]) todo
      { remaining := remaining
        objs := c.objs ++ new
        arenas := c.arenas ++
          [({ arena with allocator := allocator }, List.range' c.objs.length new.length)] } := by
  obtain ⟨old, hObjs, hOld⟩ := h.new
  have hLess : s.objs.length ≤ c.objs.length := by
    rw [hObjs, length_append]
    exact Nat.le_add_right _ _
  refine ⟨by rw [h.all, append_assoc, singleton_append], ?_, ?_, ?_⟩
  · simp only [map_append, map_cons, map_nil, append_assoc, singleton_append]
    exact h.sound.serve rfl hActive hServes hHeap hNew
  · apply rel_append
    · -- the objects given before are of other arenas
      have hOthers : List.Forall₂ (fun a q => a.serial ≠ arena.serial ∧
          Gave s.alignBytes s.objs c.objs a q) visited c.arenas :=
        (forall₂_and_left _ _).mpr ⟨h.serial_ne hSound, h.gave⟩
      refine hOthers.imp fun a q hOther => hOther.2.append_other fun obj hObj hParent => ?_
      rw [(hNew obj hObj).2.1] at hParent
      exact hOther.1 (PoolParent.devDax.inj hParent).symm
    · refine .cons ⟨rfl, hHeap, hServes, ?_, ?_, ?_⟩ .nil
      · intro id hId
        obtain ⟨hFrom, hTo⟩ := mem_range'_1.mp hId
        have hIndex : id - c.objs.length < new.length := by omega
        refine ⟨new[id - c.objs.length], ?_, (hNew _ (getElem_mem _)).2.1⟩
        rw [getElem?_append_right hFrom, getElem?_eq_getElem hIndex]
      · intro id hId
        obtain ⟨hFrom, -⟩ := mem_range'_1.mp hId
        rw [liveAt, getElem?_eq_none (hLess.trans hFrom)]
        rfl
      · intro id hId
        rw [← h.untouched hSound id]
        rcases Nat.lt_or_ge id c.objs.length with hLt | hGe
        · exact liveAt_append_left hLt
        · have hBeyond : c.objs.length + new.length ≤ id := by
            by_contra hNot
            exact hId (mem_range'_1.mpr ⟨hGe, by omega⟩)
          rw [liveAt, liveAt, getElem?_eq_none hGe, getElem?_eq_none]
          rwa [length_append]
  · refine ⟨old ++ new, by rw [hObjs, append_assoc], fun obj hObj => ?_⟩
    rcases mem_append.mp hObj with hObj | hObj
    · obtain ⟨a, ha, hRest⟩ := hOld obj hObj
      exact ⟨a, mem_append_left _ ha, hRest⟩
    · exact ⟨arena, mem_append_right _ mem_cons_self, hActive, (hNew obj hObj).2.1⟩

def missing (rawSize : Nat) (demand : Int) (arena : DevDaxArena) : Int :=
  if arena.state = .active then (heapBin rawSize arena.allocator).fill demand else demand

theorem visit (h : Filled s visited (arena :: todo) c) (hSound : s.Sound) (hPos : 0 < rawSize) :
    ∃ c', c.visit rawSize arena = .ok c' ∧ Filled s (visited ++ [arena]) todo c' ∧
      c'.remaining = missing rawSize c.remaining arena := by
  unfold Filling.visit missing
  dsimp only
  by_cases hActive : arena.state = .active
  swap
  · rw [if_neg fun hGuard => hActive hGuard.1, if_neg hActive]
    exact ⟨_, rfl, h.pass hSound, rfl⟩
  rw [if_pos hActive, Bin.fill, heapBin]
  dsimp only
  generalize hTake : min c.remaining (availableCount arena.allocator.addressManager rawSize) = take
  by_cases hSome : 0 < take
  swap
  · rw [if_neg fun hGuard => hSome hGuard.2.2, if_neg fun hGuard => hSome hGuard.1]
    exact ⟨_, rfl, h.pass hSound, rfl⟩
  obtain ⟨count, rfl⟩ := Int.eq_ofNat_of_zero_le hSome.le
  have hRefused := h.serves.batchedAllocate_eq_none_iff hSound.alignPos
    (PoolParent.devDax arena.serial) hPos count
  rw [if_pos ⟨hActive, by omega, hSome⟩]
  rcases h.serves.batchedAllocate hSound.alignPos
    (servedBy_iff.mpr rfl) hPos count with hNone |
      ⟨new, a, hOk, hServes, hPtr, hSize, hLength, hNew⟩
  · rw [hNone, if_neg fun hGuard => absurd (hRefused.mp hNone) (by omega)]
    exact ⟨_, rfl, h.pass hSound, rfl⟩
  · have hRoom : count ≤ arena.allocator.room rawSize := by
      by_contra hNot
      rw [hRefused.mpr (not_le.mp hNot)] at hOk
      cases hOk
    rw [hOk, if_pos ⟨hSome, by omega⟩, ← hLength]
    exact ⟨_, rfl, h.give hSound hActive hServes ⟨hPtr, hSize⟩ hNew _, rfl⟩

theorem foldlM (h : Filled s visited todo c) (hSound : s.Sound) (hPos : 0 < rawSize) :
    ∃ c', todo.foldlM (Filling.visit rawSize) c = .ok c' ∧ Filled s (visited ++ todo) [] c' ∧
      c'.remaining = todo.foldl (missing rawSize) c.remaining := by
  induction todo generalizing visited c with
  | nil =>
    refine ⟨c, rfl, ?_, rfl⟩
    rwa [append_nil]
  | cons arena todo ih =>
    obtain ⟨c₁, hVisit, hFilled, hRemaining⟩ := h.visit hSound hPos
    obtain ⟨c₂, hRest, hDone, hEnd⟩ := ih hFilled
    refine ⟨c₂, ?_, ?_, ?_⟩
    · rw [foldlM_cons, hVisit]
      exact hRest
    · rwa [append_assoc, singleton_append] at hDone
    · rw [hEnd, hRemaining]
      rfl

theorem nil (hSound : s.Sound) (remaining : Int) : Filled s [] s.arenas ⟨remaining, s.objs, []⟩ :=
  ⟨rfl, hSound, .nil, [], (append_nil _).symm, fun _ hObj => absurd hObj not_mem_nil⟩

theorem rollBack_eq (h : Filled s s.arenas [] c) (hSound : s.Sound) :
    rollBack c.objs c.arenas = s.arenas :=
  LMCache.rollBack_eq h.gave (fun arena hArena => (hSound.arenas arena hArena).serves)
    (hSound.apart.imp ArenaPlace.Apart.serial)

end Filled

theorem batchedFree_new {P : Type} {mine : P → Bool} {objs new : ObjTable P}
    {a a' : TensorMemoryAllocator} (h : a.Serves alignBytes mine objs)
    (h' : a'.Serves alignBytes mine (objs ++ new)) (hHeap : SameHeap a a')
    (hNew : ∀ obj ∈ new, mine obj.parentAllocator = true) :
    (a'.batchedFree (objs ++ new) (List.range' objs.length new.length)).1 = a := by
  have hMine : AllMine mine (objs ++ new) (List.range' objs.length new.length) := by
    intro id hId obj hObj
    rw [getElem?_append_right (mem_range'_1.mp hId).1] at hObj
    exact hNew obj (mem_of_getElem? hObj)
  refine (h'.batchedFree hMine).unique (hHeap.trans (sameHeap_batchedFree a' _ _)) h ⟨rfl, rfl⟩ ?_
  apply List.Perm.of_eq
  apply liveBlocks_congr
  intro id
  rw [batchedFree_objs, liveAt_foldl_invalidate]
  simp only [mem_sortByAddress, mem_range'_1]
  split
  · rename_i hMem
    rw [liveAt, getElem?_eq_none hMem.1]
    rfl
  · rename_i hNot
    rcases Nat.lt_or_ge id objs.length with hLt | hGe
    · exact liveAt_append_left hLt
    · rw [liveAt, liveAt, getElem?_eq_none hGe, getElem?_eq_none]
      rw [length_append]
      omega

namespace DevDaxMemoryAllocator

variable {s : DevDaxMemoryAllocator}

def bins (s : DevDaxMemoryAllocator) (rawSize : Nat) : List Bin :=
  s.localAllocator.toList.map (heapBin rawSize) ++
    (s.arenas.filter fun arena => decide (arena.state = .active)).map fun arena =>
      heapBin rawSize arena.allocator

theorem foldl_missing (rawSize : Nat) (arenas : List DevDaxArena) (demand : Int) :
    arenas.foldl (Filled.missing rawSize) demand =
      ((arenas.filter fun arena => decide (arena.state = .active)).map fun arena =>
        heapBin rawSize arena.allocator).foldl Bin.fill demand := by
  induction arenas generalizing demand with
  | nil => rfl
  | cons arena arenas ih =>
    rw [foldl_cons, ih, Filled.missing, filter_cons]
    by_cases hActive : arena.state = .active
    · rw [if_pos hActive, if_pos (decide_eq_true hActive)]
      rfl
    · rw [if_neg hActive, if_neg (by simpa using hActive)]

theorem Sound.batchFromLocal (h : s.Sound) (hPos : 0 < rawSize) (batchSize : Int) :
    ∃ new l, s.batchFromLocal rawSize batchSize = .ok (new, { s with localAllocator := l }) ∧
      Sound { s with localAllocator := l, objs := s.objs ++ new } ∧
      (∀ obj ∈ new, obj.parentAllocator = .localAllocator) ∧
      returnLocal { s with localAllocator := l } (s.objs ++ new)
        (List.range' s.objs.length new.length) = s ∧
      batchSize - new.length =
        (s.localAllocator.toList.map (heapBin rawSize)).foldl Bin.fill batchSize := by
  have hNothing : ∀ l, s.localAllocator = l →
      Sound { s with localAllocator := l, objs := s.objs ++ ([] : PoolObjs) } ∧
        (∀ obj ∈ ([] : PoolObjs), obj.parentAllocator = .localAllocator) ∧
        returnLocal { s with localAllocator := l } (s.objs ++ ([] : PoolObjs))
          (List.range' s.objs.length ([] : PoolObjs).length) = s := by
    rintro l rfl
    refine ⟨by rwa [append_nil], fun _ hObj => absurd hObj not_mem_nil, ?_⟩
    unfold returnLocal
    simp
  unfold DevDaxMemoryAllocator.batchFromLocal
  cases hLocal : s.localAllocator with
  | none =>
    obtain ⟨hSound, hNone, hReturn⟩ := hNothing none hLocal
    refine ⟨[], none, ?_, hSound, hNone, hReturn, by simp⟩
    dsimp only
    rw [← hLocal]
  | some a =>
    have hServes := h.atHome a hLocal
    have hSame : ({ s with localAllocator := some a } : DevDaxMemoryAllocator) = s := by
      rw [← hLocal]
    obtain ⟨hSound, hNone, hReturn⟩ := hNothing (some a) hLocal
    simp only [toList_some, map_cons, map_nil, foldl_cons, foldl_nil, heapBin, Bin.fill]
    generalize hTake : min batchSize (availableCount a.addressManager rawSize) = take
    by_cases hZero : take = 0
    · rw [if_pos hZero]
      refine ⟨[], some a, by rw [hSame], hSound, hNone, hReturn, ?_⟩
      rw [if_neg (by omega), length_nil, Nat.cast_zero, sub_zero]
    rw [if_neg hZero]
    rcases hServes.batchedAllocate h.alignPos
      (servedLocally_iff.mpr rfl) hPos take with hRefused |
      ⟨new, a', hOk, hServes', hPtr, hSize, hLength, hNew⟩
    · rw [hRefused]
      refine ⟨[], some a, rfl, hSound, hNone, hReturn, ?_⟩
      rw [if_neg, length_nil, Nat.cast_zero, sub_zero]
      rintro ⟨hSome, hRoom⟩
      obtain ⟨count, rfl⟩ := Int.eq_ofNat_of_zero_le hSome.le
      have hNoRoom := (hServes.batchedAllocate_eq_none_iff h.alignPos
        PoolParent.localAllocator hPos count).mp hRefused
      omega
    · have hLocals : ∀ obj ∈ new, obj.parentAllocator = .localAllocator :=
        fun obj hObj => (hNew obj hObj).2.1
      rw [hOk]
      refine ⟨new, some a', rfl, h.serveLocal hServes' hLocals, hLocals, ?_, ?_⟩
      · have hBack := batchedFree_new hServes hServes' ⟨hPtr, hSize⟩ fun obj hObj =>
          servedLocally_iff.mpr (hLocals obj hObj)
        have hPositive : ¬ (List.range' s.objs.length new.length).isEmpty = true := by
          rw [List.isEmpty_iff, range'_eq_nil_iff]
          omega
        unfold returnLocal
        simp only [map_some, if_neg hPositive, hBack]
        rw [← hLocal]
      · obtain ⟨count, rfl⟩ := Int.eq_ofNat_of_zero_le (hLength ▸ Int.natCast_nonneg new.length)
        have hRoom : count ≤ a.room rawSize := by
          by_contra hNot
          have hRefused := (hServes.batchedAllocate_eq_none_iff h.alignPos
            PoolParent.localAllocator hPos count).mpr (not_le.mp hNot)
          rw [hRefused] at hOk
          cases hOk
        rw [if_pos ⟨by omega, by omega⟩, hLength]

/-- A batch is refused, and then nothing has changed, exactly when the greedy distribution
leaves something missing. -/
theorem Sound.batchedAllocate (h : s.Sound) (hPos : 0 < rawSize) (batchSize : Int) :
    (s.batchedAllocate rawSize batchSize = .ok (none, s) ∧
        0 < (s.bins rawSize).foldl Bin.fill batchSize) ∨
      ∃ ids t, s.batchedAllocate rawSize batchSize = .ok (some ids, t) ∧ t.Sound ∧ Serving s t ∧
        (s.bins rawSize).foldl Bin.fill batchSize ≤ 0 := by
  obtain ⟨new, l, hLocal, hSound, hLocals, hReturn, hMissing⟩ := h.batchFromLocal hPos batchSize
  have hNoPool : FromActive s new := by
    intro obj hObj serial hParent
    rw [hLocals obj hObj] at hParent
    cases hParent
  unfold DevDaxMemoryAllocator.batchedAllocate bins
  rw [hLocal, foldl_append, ← hMissing, ← foldl_missing]
  change (ite _ _ _ = _ ∧ _) ∨ ∃ ids t, ite _ _ _ = _ ∧ _
  by_cases hDone : batchSize - new.length = 0
  · rw [if_pos hDone, hDone, foldl_missing, Bin.foldl_fill_of_nonpos le_rfl]
    exact Or.inr ⟨_, _, rfl, hSound, ⟨⟨new, rfl, hNoPool⟩, SameArenas.refl _⟩, le_rfl⟩
  rw [if_neg hDone]
  obtain ⟨c, hFold, hFilled, hRemaining⟩ := (Filled.nil hSound (batchSize - new.length)).foldlM
    hSound hPos
  rw [nil_append] at hFilled
  dsimp only at hFold hRemaining
  rw [hFold, ← hRemaining]
  change (ite _ _ _ = _ ∧ _) ∨ ∃ ids t, ite _ _ _ = _ ∧ _
  by_cases hOpen : c.remaining > 0
  · rw [if_pos hOpen]
    refine Or.inl ⟨?_, hOpen⟩
    have hArenas := hFilled.rollBack_eq hSound
    dsimp only at hArenas
    rw [hArenas, hReturn]
    rfl
  · rw [if_neg hOpen]
    refine Or.inr ⟨_, _, rfl, ?_, ⟨?_, ?_⟩, not_lt.mp hOpen⟩
    · have hAll := hFilled.sound
      rwa [append_nil] at hAll
    · obtain ⟨more, hObjs, hMore⟩ := hFilled.new
      refine ⟨new ++ more, by rw [hObjs, append_assoc], fun obj hObj serial hParent => ?_⟩
      rcases mem_append.mp hObj with hObj | hObj
      · exact hNoPool obj hObj serial hParent
      · obtain ⟨arena, hArena, hActive, hOwner⟩ := hMore obj hObj
        rw [hOwner] at hParent
        exact ⟨arena, hArena, PoolParent.devDax.inj hParent, hActive⟩
    · apply forall₂_map_right_iff.mpr
      exact hFilled.gave.imp fun arena p hGave => hGave.same

end DevDaxMemoryAllocator

end LMCache
