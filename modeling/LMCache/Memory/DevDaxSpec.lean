import LMCache.Memory.DevDax
import LMCache.Memory.TensorSpec

/-!
# The invariant of the Device-DAX pool

Every arena serves the valid objects that carry its serial, inside its mapping. The mappings do
not overlap, so an address finds the arena that served it. An active arena serves new objects, an
arena takes objects back, and arenas without live objects are retired.

The operating system maps a device where nothing is mapped, and never at address zero. Sizes are
positive.
-/

namespace LMCache

open Lib ObjTable TensorMemoryAllocator List Option

def servedBy (serial : Nat) (parent : PoolParent) : Bool := decide (parent = .devDax serial)

def servedLocally (parent : PoolParent) : Bool := decide (parent = .localAllocator)

variable {parent : PoolParent}

@[simp] theorem servedBy_iff {serial : Nat} :
    servedBy serial parent = true ↔ parent = .devDax serial :=
  decide_eq_true_iff

@[simp] theorem servedLocally_iff : servedLocally parent = true ↔ parent = .localAllocator :=
  decide_eq_true_iff

theorem servedBy_eq_false {serial : Nat} (h : parent ≠ .devDax serial) :
    servedBy serial parent = false :=
  decide_eq_false h

/-- What does not change about an arena. -/
structure ArenaPlace where
  serial : Nat
  devicePath : String
  basePtr : Nat
  size : Nat
  deriving DecidableEq, Repr

structure ArenaPlace.Apart (p q : ArenaPlace) : Prop where
  serial : p.serial ≠ q.serial
  devicePath : p.devicePath ≠ q.devicePath
  range : p.basePtr + p.size ≤ q.basePtr ∨ q.basePtr + q.size ≤ p.basePtr

theorem ArenaPlace.Apart.symm {p q : ArenaPlace} (h : p.Apart q) : q.Apart p :=
  ⟨h.serial.symm, h.devicePath.symm, h.range.symm⟩

def DevDaxArena.place (arena : DevDaxArena) : ArenaPlace :=
  ⟨arena.serial, arena.devicePath, arena.basePtr, arena.size⟩

def SameArenas (arenas arenas' : List DevDaxArena) : Prop :=
  List.Forall₂ (fun a b : DevDaxArena => b = { a with allocator := b.allocator }) arenas arenas'

namespace SameArenas

variable {arenas arenas' arenas'' : List DevDaxArena}

theorem refl (arenas : List DevDaxArena) : SameArenas arenas arenas :=
  forall₂_same.mpr fun _ _ => rfl

theorem append {more more' : List DevDaxArena} (h : SameArenas arenas arenas')
    (hMore : SameArenas more more') : SameArenas (arenas ++ more) (arenas' ++ more') :=
  rel_append h hMore

theorem trans (h : SameArenas arenas arenas') (h' : SameArenas arenas' arenas'') :
    SameArenas arenas arenas'' := by
  induction h generalizing arenas'' with
  | nil => exact h'
  | cons hFirst _ ih =>
    obtain ⟨c, rest, hNext, hRest, rfl⟩ := forall₂_cons_left_iff.mp h'
    refine .cons ?_ (ih hRest)
    rw [hNext, hFirst]

theorem exists_right (h : SameArenas arenas arenas') {a : DevDaxArena} (ha : a ∈ arenas) :
    ∃ allocator, { a with allocator := allocator } ∈ arenas' := by
  induction h with
  | nil => cases ha
  | @cons first second _ _ hFirst _ ih =>
    rcases mem_cons.mp ha with rfl | ha
    · exact ⟨second.allocator, hFirst ▸ mem_cons_self⟩
    · obtain ⟨allocator, hMem⟩ := ih ha
      exact ⟨allocator, mem_cons_of_mem _ hMem⟩

theorem exists_left (h : SameArenas arenas arenas') {b : DevDaxArena} (hb : b ∈ arenas') :
    ∃ a ∈ arenas, b = { a with allocator := b.allocator } := by
  induction h with
  | nil => cases hb
  | cons hFirst _ ih =>
    rcases mem_cons.mp hb with rfl | hb
    · exact ⟨_, mem_cons_self, hFirst⟩
    · obtain ⟨a, ha, hEq⟩ := ih hb
      exact ⟨a, mem_cons_of_mem _ ha, hEq⟩

theorem map_place (h : SameArenas arenas arenas') :
    arenas'.map DevDaxArena.place = arenas.map DevDaxArena.place := by
  induction h with
  | nil => rfl
  | cons hFirst _ ih =>
    rw [map_cons, map_cons, ih, hFirst]
    rfl

end SameArenas

variable {alignBytes : Nat} {objs objs' more : PoolObjs}

structure DevDaxArena.Sound (alignBytes : Nat) (objs : PoolObjs) (arena : DevDaxArena) :
    Prop where
  serves : arena.allocator.Serves alignBytes (servedBy arena.serial) objs
  heap : arena.allocator.addressManager.size = arena.size
  mapped : arena.state = .active → arena.allocator.dataPtr = arena.basePtr
  basePos : 0 < arena.basePtr
  placed : ∀ obj ∈ objs, obj.valid = true → obj.parentAllocator = .devDax arena.serial →
    obj.dataPtr = arena.basePtr + obj.address

namespace DevDaxArena.Sound

variable {arena : DevDaxArena}

theorem contains (h : arena.Sound alignBytes objs) {obj : TensorMemoryObj PoolParent}
    (hObj : obj ∈ objs) (hValid : obj.valid = true)
    (hParent : obj.parentAllocator = .devDax arena.serial) :
    arena.contains obj.dataPtr = true := by
  have hLive : (⟨obj.address, obj.phySize⟩ : FreeBlock) ∈
      liveBlocks (servedBy arena.serial) objs := by
    refine List.mem_map.mpr ⟨obj, mem_filter.mpr ⟨hObj, ?_⟩, rfl⟩
    rw [hValid, servedBy_iff.mpr hParent]
    rfl
  have hWithin := h.serves.held.within hLive
  have hPlaced := h.placed obj hObj hValid hParent
  have hHeap := h.heap
  simp only [Extent.stop] at hWithin
  rw [DevDaxArena.contains, Bool.and_eq_true, decide_eq_true_eq, decide_eq_true_eq]
  omega

theorem append_other (h : arena.Sound alignBytes objs)
    (hMore : ∀ obj ∈ more, obj.parentAllocator ≠ .devDax arena.serial) :
    arena.Sound alignBytes (objs ++ more) where
  serves := h.serves.congr (liveAt_append_other fun obj hObj => servedBy_eq_false (hMore obj hObj))
  heap := h.heap
  mapped := h.mapped
  basePos := h.basePos
  placed obj hObj hValid hParent := by
    rcases mem_append.mp hObj with hOld | hNew
    · exact h.placed obj hOld hValid hParent
    · exact absurd hParent (hMore obj hNew)

theorem serve {allocator : TensorMemoryAllocator} (h : arena.Sound alignBytes objs)
    (hActive : arena.state = .active)
    (hServes : allocator.Serves alignBytes (servedBy arena.serial) (objs ++ more))
    (hHeap : SameHeap arena.allocator allocator)
    (hMore : ∀ obj ∈ more, obj.dataPtr = arena.allocator.dataPtr + obj.address) :
    DevDaxArena.Sound alignBytes (objs ++ more) { arena with allocator := allocator } where
  serves := hServes
  heap := hHeap.size.trans h.heap
  mapped _ := hHeap.dataPtr.trans (h.mapped hActive)
  basePos := h.basePos
  placed obj hObj hValid hParent := by
    rcases mem_append.mp hObj with hOld | hNew
    · exact h.placed obj hOld hValid hParent
    · rw [hMore obj hNew, h.mapped hActive]

end DevDaxArena.Sound

/-- The objects of a release are marked; `view` is what becomes of their addresses. -/
def Released (view : Nat → Nat) (ids : List Nat) (objs objs' : PoolObjs) : Prop :=
  ∀ i, objs'[i]? =
    if i ∈ ids then objs[i]?.map fun obj => { obj with valid := false, dataPtr := view obj.dataPtr }
    else objs[i]?

namespace Released

variable {view : Nat → Nat} {ids : List Nat}

theorem liveAt (h : Released view ids objs objs') (mine : PoolParent → Bool) (i : Nat) :
    liveAt mine objs' i = if i ∈ ids then none else ObjTable.liveAt mine objs i := by
  rw [ObjTable.liveAt, h i]
  split
  · cases objs[i]? <;> rfl
  · rfl

variable {obj : TensorMemoryObj PoolParent}

theorem exists_old (h : Released view ids objs objs') (hObj : obj ∈ objs') :
    ∃ i old, objs[i]? = some old ∧
      (obj = old ∨ i ∈ ids ∧ obj = { old with valid := false, dataPtr := view old.dataPtr }) := by
  obtain ⟨i, hi⟩ := getElem?_of_mem hObj
  rw [h i] at hi
  split at hi
  · rename_i hMem
    obtain ⟨old, hOld, rfl⟩ := map_eq_some_iff.mp hi
    exact ⟨i, old, hOld, Or.inr ⟨hMem, rfl⟩⟩
  · exact ⟨i, obj, hi, Or.inl rfl⟩

theorem valid_old (h : Released view ids objs objs') (hObj : obj ∈ objs')
    (hValid : obj.valid = true) : obj ∈ objs := by
  obtain ⟨i, old, hOld, rfl | ⟨-, rfl⟩⟩ := h.exists_old hObj
  · exact mem_of_getElem? hOld
  · cases hValid

theorem length_eq (h : Released view ids objs objs') : objs'.length = objs.length := by
  have hNone : ∀ i : Nat, objs'[i]? = none ↔ objs[i]? = none := by
    intro i
    rw [h i]
    split
    · rw [map_eq_none_iff]
    · rfl
  simp only [List.getElem?_eq_none_iff] at hNone
  exact le_antisymm ((hNone _).mpr le_rfl) ((hNone _).mp le_rfl)

theorem parent_eq (h : Released view ids objs objs') {i : Nat}
    {obj' : TensorMemoryObj PoolParent} (hObj' : objs'[i]? = some obj') :
    ∃ obj, objs[i]? = some obj ∧ obj'.parentAllocator = obj.parentAllocator := by
  rw [h i] at hObj'
  split at hObj'
  · obtain ⟨obj, hObj, rfl⟩ := map_eq_some_iff.mp hObj'
    exact ⟨obj, hObj, rfl⟩
  · exact ⟨obj', hObj', rfl⟩

theorem getElem?_of_not_mem (h : Released view ids objs objs') {i : Nat} (hi : i ∉ ids) :
    objs'[i]? = objs[i]? := by
  rw [h i, if_neg hi]

theorem liveAt_other (h : Released view ids objs objs') {mine : PoolParent → Bool}
    (hOther : ∀ id ∈ ids, ∀ obj, objs[id]? = some obj → mine obj.parentAllocator = false)
    (i : Nat) : ObjTable.liveAt mine objs' i = ObjTable.liveAt mine objs i := by
  rw [h.liveAt]
  split
  · rename_i hMem
    rw [ObjTable.liveAt]
    cases hObj : objs[i]? with
    | none => rfl
    | some obj =>
      rw [bind_some, liveBlock, hOther i hMem obj hObj, Bool.and_false]
      rfl
  · rfl

end Released

theorem DevDaxArena.Sound.released_other {arena : DevDaxArena} {view : Nat → Nat}
    {ids : List Nat} (h : arena.Sound alignBytes objs) (hReleased : Released view ids objs objs')
    (hOther : ∀ id ∈ ids, ∀ obj, objs[id]? = some obj →
      obj.parentAllocator ≠ .devDax arena.serial) :
    arena.Sound alignBytes objs' where
  serves := h.serves.congr <| hReleased.liveAt_other fun id hId obj hObj =>
    servedBy_eq_false (hOther id hId obj hObj)
  heap := h.heap
  mapped := h.mapped
  basePos := h.basePos
  placed obj hObj hValid hParent :=
    h.placed obj (hReleased.valid_old hObj hValid) hValid hParent

theorem DevDaxArena.Sound.idle_iff {arena : DevDaxArena} (h : arena.Sound alignBytes objs) :
    arena.allocator.numActiveAllocations ≤ 0 ↔
      ∀ obj ∈ objs, obj.valid = true → obj.parentAllocator ≠ .devDax arena.serial := by
  rw [h.serves.counted]
  constructor
  · intro hIdle obj hObj hValid hParent
    have hLength : (liveBlocks (servedBy arena.serial) objs).length = 0 := by omega
    rw [liveBlocks, length_map, length_eq_zero_iff, filter_eq_nil_iff] at hLength
    apply hLength obj hObj
    rw [hValid, servedBy_iff.mpr hParent]
    rfl
  · intro hNone
    have hEmpty : liveBlocks (servedBy arena.serial) objs = [] := by
      rw [liveBlocks, map_eq_nil_iff, filter_eq_nil_iff]
      intro obj hObj hLive
      rw [Bool.and_eq_true, servedBy_iff] at hLive
      exact hNone obj hObj hLive.1 hLive.2
    rw [hEmpty]
    rfl

namespace DevDaxMemoryAllocator

theorem arenaForObj_eq_ok {arenas : List DevDaxArena} {ptr : Nat} {arena : DevDaxArena}
    (h : arenaForObj arenas ptr = .ok arena) : arena ∈ arenas ∧ arena.contains ptr = true := by
  unfold arenaForObj at h
  split at h
  · rename_i found hFind
    obtain rfl := Except.ok.inj h
    have hFound := find?_some (p := fun arena : DevDaxArena => arena.contains ptr) hFind
    exact ⟨mem_of_find?_eq_some hFind, hFound⟩
  · cases h

theorem exists_arenaForObj {arenas : List DevDaxArena} {ptr : Nat} {arena : DevDaxArena}
    (hArena : arena ∈ arenas) (hPtr : arena.contains ptr = true) :
    ∃ found, arenaForObj arenas ptr = .ok found := by
  unfold arenaForObj
  split
  · exact ⟨_, rfl⟩
  · rename_i hNone
    exact absurd hPtr (find?_eq_none.mp hNone arena hArena)

/-- The pool keeps account of all its objects. -/
structure Sound (s : DevDaxMemoryAllocator) : Prop where
  alignPos : 0 < s.alignBytes
  atHome : ∀ a, s.localAllocator = some a → a.Serves s.alignBytes servedLocally s.objs
  arenas : ∀ arena ∈ s.arenas, arena.Sound s.alignBytes s.objs
  apart : s.arenas.Pairwise fun a b => a.place.Apart b.place
  known : ∀ obj ∈ s.objs, obj.valid = true → ∀ serial, obj.parentAllocator = .devDax serial →
    ∃ arena ∈ s.arenas, arena.serial = serial
  dropped : ∀ obj ∈ s.objs, obj.valid = false → ∀ serial, obj.parentAllocator = .devDax serial →
    obj.dataPtr = 0
  numbered : ∀ arena ∈ s.arenas, arena.serial < s.mapped

variable {s : DevDaxMemoryAllocator}

namespace Sound

variable {a b : DevDaxArena}

theorem eq_or_apart (h : s.Sound) (ha : a ∈ s.arenas) (hb : b ∈ s.arenas) :
    a = b ∨ a.place.Apart b.place := by
  have hSymm : Std.Symm fun a b : DevDaxArena => a.place.Apart b.place := ⟨fun _ _ hab => hab.symm⟩
  by_cases hEq : a = b
  · exact Or.inl hEq
  · exact Or.inr (h.apart.forall ha hb hEq)

theorem serial_inj (h : s.Sound) (ha : a ∈ s.arenas) (hb : b ∈ s.arenas)
    (hSerial : a.serial = b.serial) : a = b := by
  rcases h.eq_or_apart ha hb with hEq | hApart
  · exact hEq
  · exact absurd hSerial hApart.serial

theorem contains_inj (h : s.Sound) (ha : a ∈ s.arenas) (hb : b ∈ s.arenas) {ptr : Nat}
    (hPtrA : a.contains ptr = true) (hPtrB : b.contains ptr = true) : a = b := by
  rcases h.eq_or_apart ha hb with hEq | hApart
  · exact hEq
  · have hRange := hApart.range
    simp only [DevDaxArena.contains, Bool.and_eq_true, decide_eq_true_eq] at hPtrA hPtrB
    simp only [DevDaxArena.place] at hRange
    omega

variable {obj : TensorMemoryObj PoolParent}

theorem arenaForObj_live (h : s.Sound) (hObj : obj ∈ s.objs) (hValid : obj.valid = true)
    {serial : Nat} (hParent : obj.parentAllocator = .devDax serial) :
    ∃ arena ∈ s.arenas, arena.serial = serial ∧ arena.contains obj.dataPtr = true ∧
      arenaForObj s.arenas obj.dataPtr = .ok arena := by
  obtain ⟨arena, hArena, rfl⟩ := h.known obj hObj hValid serial hParent
  have hContains := (h.arenas arena hArena).contains hObj hValid hParent
  obtain ⟨found, hRoute⟩ := exists_arenaForObj hArena hContains
  obtain ⟨hFound, hPtr⟩ := arenaForObj_eq_ok hRoute
  obtain rfl := h.contains_inj hFound hArena hPtr hContains
  exact ⟨found, hFound, rfl, hPtr, hRoute⟩

theorem live_of_arenaForObj (h : s.Sound) (hObj : obj ∈ s.objs) {serial : Nat}
    (hParent : obj.parentAllocator = .devDax serial) {arena : DevDaxArena}
    (hRoute : arenaForObj s.arenas obj.dataPtr = .ok arena) :
    obj.valid = true ∧ arena ∈ s.arenas ∧ arena.serial = serial := by
  have hValid : obj.valid = true := by
    by_contra hInvalid
    have hZero := h.dropped obj hObj (Bool.eq_false_iff.mpr hInvalid) serial hParent
    obtain ⟨hArena, hPtr⟩ := arenaForObj_eq_ok hRoute
    have hBase := (h.arenas arena hArena).basePos
    simp only [DevDaxArena.contains, Bool.and_eq_true, decide_eq_true_eq] at hPtr
    omega
  obtain ⟨owner, hOwner, hSerial, -, hOk⟩ := h.arenaForObj_live hObj hValid hParent
  obtain rfl : owner = arena := Except.ok.inj (hOk.symm.trans hRoute)
  exact ⟨hValid, hOwner, hSerial⟩

theorem apart_of_sublist (h : s.Sound) {arenas : List DevDaxArena}
    (hSub : (arenas.map DevDaxArena.place).Sublist (s.arenas.map DevDaxArena.place)) :
    arenas.Pairwise fun a b => a.place.Apart b.place := by
  apply pairwise_map.mp
  exact (pairwise_map.mpr h.apart).sublist hSub

variable {allocator : TensorMemoryAllocator}

theorem serveLocal (h : s.Sound)
    (hServes : allocator.Serves s.alignBytes servedLocally (s.objs ++ more))
    (hMore : ∀ obj ∈ more, obj.parentAllocator = .localAllocator) :
    Sound { s with localAllocator := some allocator, objs := s.objs ++ more } where
  alignPos := h.alignPos
  atHome a hEq := by
    obtain rfl := some.inj hEq
    exact hServes
  arenas arena hArena := by
    apply (h.arenas arena hArena).append_other
    intro obj hObj hParent
    rw [hMore obj hObj] at hParent
    cases hParent
  apart := h.apart
  known obj hObj hValid serial hParent := by
    rcases mem_append.mp hObj with hOld | hNew
    · exact h.known obj hOld hValid serial hParent
    · rw [hMore obj hNew] at hParent
      cases hParent
  dropped obj hObj hInvalid serial hParent := by
    rcases mem_append.mp hObj with hOld | hNew
    · exact h.dropped obj hOld hInvalid serial hParent
    · rw [hMore obj hNew] at hParent
      cases hParent
  numbered := h.numbered

theorem serve (h : s.Sound) {before after : List DevDaxArena} {arena : DevDaxArena}
    (hArenas : s.arenas = before ++ arena :: after) (hActive : arena.state = .active)
    (hServes : allocator.Serves s.alignBytes (servedBy arena.serial) (s.objs ++ more))
    (hHeap : SameHeap arena.allocator allocator)
    (hMore : ∀ obj ∈ more, obj.valid = true ∧ obj.parentAllocator = .devDax arena.serial ∧
      obj.dataPtr = arena.allocator.dataPtr + obj.address)
    : Sound { s with
      arenas := before ++ { arena with allocator := allocator } :: after
      objs := s.objs ++ more } := by
  have hMem : arena ∈ s.arenas := by
    rw [hArenas]
    exact mem_append_right _ mem_cons_self
  have hOther : ∀ a ∈ before ++ after, a ∈ s.arenas ∧ a.serial ≠ arena.serial := by
    have hApart := h.apart
    rw [hArenas, pairwise_middle ArenaPlace.Apart.symm, pairwise_cons] at hApart
    intro a ha
    refine ⟨?_, fun hEq => (hApart.1 a ha).serial hEq.symm⟩
    rw [hArenas]
    exact perm_middle.mem_iff.mpr (mem_cons_of_mem _ ha)
  have hCases : ∀ a ∈ before ++ { arena with allocator := allocator } :: after,
      a = { arena with allocator := allocator } ∨ a ∈ before ++ after :=
    fun a ha => mem_cons.mp (perm_middle.mem_iff.mp ha)
  refine
    { alignPos := h.alignPos, atHome := ?_, arenas := ?_, apart := ?_, known := ?_,
      dropped := ?_, numbered := ?_ }
  · intro a hEq
    apply (h.atHome a hEq).congr
    apply liveAt_append_other
    intro obj hObj
    rw [(hMore obj hObj).2.1]
    rfl
  · intro a ha
    rcases hCases a ha with rfl | ha
    · exact (h.arenas arena hMem).serve hActive hServes hHeap fun obj hObj => (hMore obj hObj).2.2
    · obtain ⟨hOld, hSerial⟩ := hOther a ha
      apply (h.arenas a hOld).append_other
      intro obj hObj hParent
      rw [(hMore obj hObj).2.1] at hParent
      exact hSerial (PoolParent.devDax.inj hParent).symm
  · apply h.apart_of_sublist
    rw [hArenas, map_append, map_append, map_cons, map_cons]
    exact List.Sublist.refl _
  · intro obj hObj hValid serial hParent
    have hFound : ∃ a ∈ s.arenas, a.serial = serial := by
      rcases mem_append.mp hObj with hOld | hNew
      · exact h.known obj hOld hValid serial hParent
      · rw [(hMore obj hNew).2.1] at hParent
        exact ⟨arena, hMem, PoolParent.devDax.inj hParent⟩
    obtain ⟨a, ha, rfl⟩ := hFound
    rw [hArenas] at ha
    rcases mem_cons.mp (perm_middle.mem_iff.mp ha) with rfl | ha
    · exact ⟨_, mem_append_right _ mem_cons_self, rfl⟩
    · exact ⟨a, perm_middle.mem_iff.mpr (mem_cons_of_mem _ ha), rfl⟩
  · intro obj hObj hInvalid serial hParent
    rcases mem_append.mp hObj with hOld | hNew
    · exact h.dropped obj hOld hInvalid serial hParent
    · rw [(hMore obj hNew).1] at hInvalid
      cases hInvalid
  · intro a ha
    rcases hCases a ha with rfl | ha
    · exact h.numbered arena hMem
    · exact h.numbered a (hOther a ha).1

theorem releaseLocal (h : s.Sound) {ids : List Nat} {objs : PoolObjs} {view : Nat → Nat}
    (hReleased : Released view ids s.objs objs)
    (hMine : ∀ id ∈ ids, ∀ obj, s.objs[id]? = some obj → obj.parentAllocator = .localAllocator)
    (hServes : allocator.Serves s.alignBytes servedLocally objs) :
    Sound { s with localAllocator := some allocator, objs := objs } where
  alignPos := h.alignPos
  atHome a hEq := by
    obtain rfl := some.inj hEq
    exact hServes
  arenas arena hArena := by
    apply (h.arenas arena hArena).released_other hReleased
    intro id hId obj hObj hParent
    rw [hMine id hId obj hObj] at hParent
    cases hParent
  apart := h.apart
  known obj hObj hValid serial hParent :=
    h.known obj (hReleased.valid_old hObj hValid) hValid serial hParent
  dropped obj hObj hInvalid serial hParent := by
    obtain ⟨i, old, hOld, rfl | ⟨hId, rfl⟩⟩ := hReleased.exists_old hObj
    · exact h.dropped obj (mem_of_getElem? hOld) hInvalid serial hParent
    · rw [hMine i hId old hOld] at hParent
      cases hParent
  numbered := h.numbered

theorem mem_setAllocator {arenas : List DevDaxArena} {serial : Nat}
    (h : a ∈ setAllocator arenas serial allocator) :
    ∃ old ∈ arenas, (old.serial = serial ∧ a = { old with allocator := allocator }) ∨
      (old.serial ≠ serial ∧ a = old) := by
  obtain ⟨old, hOld, rfl⟩ := List.mem_map.mp h
  refine ⟨old, hOld, ?_⟩
  split
  · exact Or.inl ⟨‹_›, rfl⟩
  · exact Or.inr ⟨‹_›, rfl⟩

theorem sameArenas_setAllocator (arenas : List DevDaxArena) (serial : Nat)
    (allocator : TensorMemoryAllocator) :
    SameArenas arenas (setAllocator arenas serial allocator) := by
  apply forall₂_map_right_iff.mpr
  apply forall₂_same.mpr
  intro a _
  split <;> rfl

theorem release (h : s.Sound) {arena : DevDaxArena} (hArena : arena ∈ s.arenas) {ids : List Nat}
    {objs : PoolObjs} (hReleased : Released (fun _ => 0) ids s.objs objs)
    (hMine : ∀ id ∈ ids, ∀ obj, s.objs[id]? = some obj → obj.parentAllocator = .devDax arena.serial)
    (hServes : allocator.Serves s.alignBytes (servedBy arena.serial) objs)
    (hHeap : SameHeap arena.allocator allocator) :
    Sound { s with arenas := setAllocator s.arenas arena.serial allocator, objs := objs } where
  alignPos := h.alignPos
  atHome a hEq := by
    apply (h.atHome a hEq).congr
    apply hReleased.liveAt_other
    intro id hId obj hObj
    rw [hMine id hId obj hObj]
    rfl
  arenas a ha := by
    obtain ⟨old, hOld, ⟨hSerial, rfl⟩ | ⟨hSerial, rfl⟩⟩ := mem_setAllocator ha
    · obtain rfl := h.serial_inj hOld hArena hSerial
      have hBefore := h.arenas old hOld
      exact ⟨hServes, hHeap.size.trans hBefore.heap,
        fun hActive => hHeap.dataPtr.trans (hBefore.mapped hActive), hBefore.basePos,
        fun obj hObj hValid hParent =>
          hBefore.placed obj (hReleased.valid_old hObj hValid) hValid hParent⟩
    · apply (h.arenas a hOld).released_other hReleased
      intro id hId obj hObj hParent
      rw [hMine id hId obj hObj] at hParent
      exact hSerial (PoolParent.devDax.inj hParent).symm
  apart := by
    apply h.apart_of_sublist
    rw [(sameArenas_setAllocator _ _ _).map_place]
  known obj hObj hValid serial hParent := by
    obtain ⟨a, ha, rfl⟩ := h.known obj (hReleased.valid_old hObj hValid) hValid serial hParent
    refine ⟨_, List.mem_map_of_mem ha, ?_⟩
    split <;> rfl
  dropped obj hObj hInvalid serial hParent := by
    obtain ⟨i, old, hOld, rfl | ⟨-, rfl⟩⟩ := hReleased.exists_old hObj
    · exact h.dropped obj (mem_of_getElem? hOld) hInvalid serial hParent
    · rfl
  numbered a ha := by
    obtain ⟨old, hOld, ⟨-, rfl⟩ | ⟨-, rfl⟩⟩ := mem_setAllocator ha
    · exact h.numbered old hOld
    · exact h.numbered a hOld

/-- What may happen to an arena that stays while others are retired. -/
structure Stays (arena arena' : DevDaxArena) : Prop where
  place : arena'.place = arena.place
  addressManager : arena'.allocator.addressManager = arena.allocator.addressManager
  counter : arena'.allocator.numActiveAllocations = arena.allocator.numActiveAllocations
  active : arena'.state = .active → arena' = arena

theorem Stays.refl (arena : DevDaxArena) : Stays arena arena := ⟨rfl, rfl, rfl, fun _ => rfl⟩

variable {arena' : DevDaxArena}

theorem Stays.serial {arena : DevDaxArena} (h : Stays arena arena') :
    arena'.serial = arena.serial :=
  congrArg ArenaPlace.serial h.place

theorem Stays.sound {arena : DevDaxArena} (h : Stays arena arena')
    (hSound : arena.Sound alignBytes objs) : arena'.Sound alignBytes objs where
  serves := by
    refine ⟨?_, ?_⟩
    · rw [h.addressManager, h.serial]
      exact hSound.serves.held
    · rw [h.counter, h.serial]
      exact hSound.serves.counted
  heap := by
    rw [h.addressManager, hSound.heap]
    exact (congrArg ArenaPlace.size h.place).symm
  mapped hActive := by
    obtain rfl := h.active hActive
    exact hSound.mapped hActive
  basePos := by
    rw [show arena'.basePtr = arena.basePtr from congrArg ArenaPlace.basePtr h.place]
    exact hSound.basePos
  placed obj hObj hValid hParent := by
    rw [show arena'.basePtr = arena.basePtr from congrArg ArenaPlace.basePtr h.place]
    rw [h.serial] at hParent
    exact hSound.placed obj hObj hValid hParent

theorem retire (h : s.Sound) {f : DevDaxArena → Option DevDaxArena}
    (hStays : ∀ arena arena', f arena = some arena' → Stays arena arena')
    (hGone : ∀ arena ∈ s.arenas, f arena = none → arena.allocator.numActiveAllocations ≤ 0) :
    Sound { s with arenas := s.arenas.filterMap f } where
  alignPos := h.alignPos
  atHome := h.atHome
  arenas a ha := by
    obtain ⟨old, hOld, hSome⟩ := mem_filterMap.mp ha
    exact (hStays old a hSome).sound (h.arenas old hOld)
  apart := by
    apply h.apart_of_sublist
    have hPlaces : ∀ arenas : List DevDaxArena,
        ((arenas.filterMap f).map DevDaxArena.place).Sublist (arenas.map DevDaxArena.place) := by
      intro arenas
      induction arenas with
      | nil => exact .slnil
      | cons arena arenas ih =>
        rw [filterMap_cons, map_cons]
        cases hSome : f arena with
        | none => exact ih.cons _
        | some arena' =>
          rw [map_cons, (hStays arena arena' hSome).place]
          exact ih.cons_cons _
    exact hPlaces s.arenas
  known obj hObj hValid serial hParent := by
    obtain ⟨arena, hArena, rfl⟩ := h.known obj hObj hValid serial hParent
    cases hSome : f arena with
    | none =>
      have hIdle := (h.arenas arena hArena).idle_iff.mp (hGone arena hArena hSome)
      exact absurd hParent (hIdle obj hObj hValid)
    | some arena' =>
      exact ⟨arena', mem_filterMap.mpr ⟨arena, hArena, hSome⟩, (hStays arena arena' hSome).serial⟩
  dropped := h.dropped
  numbered a ha := by
    obtain ⟨old, hOld, hSome⟩ := mem_filterMap.mp ha
    rw [(hStays old a hSome).serial]
    exact h.numbered old hOld

theorem add (h : s.Sound) {devicePath : String} {size basePtr : Nat}
    (hPath : ∀ arena ∈ s.arenas, arena.devicePath ≠ devicePath) (hBase : 0 < basePtr)
    (hRange : ∀ arena ∈ s.arenas,
      arena.basePtr + arena.size ≤ basePtr ∨ basePtr + size ≤ arena.basePtr) :
    Sound { s with
      arenas := s.arenas ++
        [⟨s.mapped, devicePath, size, basePtr, .new basePtr size s.alignBytes, false, .active⟩]
      mapped := s.mapped + 1 } := by
  have hNoObjs : ∀ obj ∈ s.objs, obj.valid = true → obj.parentAllocator ≠ .devDax s.mapped := by
    intro obj hObj hValid hParent
    obtain ⟨arena, hArena, hSerial⟩ := h.known obj hObj hValid _ hParent
    exact absurd hSerial (h.numbered arena hArena).ne
  have hEmpty : liveBlocks (servedBy s.mapped) s.objs = [] := by
    rw [liveBlocks, map_eq_nil_iff, filter_eq_nil_iff]
    intro obj hObj hLive
    rw [Bool.and_eq_true, servedBy_iff] at hLive
    exact hNoObjs obj hObj hLive.1 hLive.2
  have hCases : ∀ a ∈ s.arenas ++ [(⟨s.mapped, devicePath, size, basePtr,
      .new basePtr size s.alignBytes, false, .active⟩ : DevDaxArena)], a ∈ s.arenas ∨
      a = ⟨s.mapped, devicePath, size, basePtr, .new basePtr size s.alignBytes, false, .active⟩ :=
    fun a ha => (mem_append.mp ha).imp_right mem_singleton.mp
  refine
    { alignPos := h.alignPos, atHome := h.atHome, arenas := ?_, apart := ?_, known := ?_,
      dropped := h.dropped, numbered := ?_ }
  · intro a ha
    rcases hCases a ha with ha | rfl
    · exact h.arenas a ha
    · refine ⟨⟨?_, ?_⟩, rfl, fun _ => rfl, hBase, ?_⟩
      · rw [hEmpty]
        exact Held.init size s.alignBytes
      · rw [hEmpty]
        rfl
      · intro obj hObj hValid hParent
        exact absurd hParent (hNoObjs obj hObj hValid)
  · rw [pairwise_append]
    refine ⟨h.apart, pairwise_singleton _ _, ?_⟩
    intro a ha b hb
    obtain rfl := mem_singleton.mp hb
    exact ⟨(h.numbered a ha).ne, hPath a ha, hRange a ha⟩
  · intro obj hObj hValid serial hParent
    obtain ⟨arena, hArena, hSerial⟩ := h.known obj hObj hValid serial hParent
    exact ⟨arena, mem_append_left _ hArena, hSerial⟩
  · intro a ha
    rcases hCases a ha with ha | rfl
    · exact Nat.lt_succ_of_lt (h.numbered a ha)
    · exact Nat.lt_succ_self _

end Sound

theorem sound_init {alignBytes : Nat} (hAlign : 0 < alignBytes) (localSize : Option (Nat × Nat))
    (devicePath : String) (size : Nat) {basePtr : Nat} (hBase : 0 < basePtr) :
    (init alignBytes localSize devicePath size basePtr).Sound where
  alignPos := hAlign
  atHome a hEq := by
    obtain ⟨l, -, rfl⟩ := map_eq_some_iff.mp hEq
    exact ⟨Held.init _ _, rfl⟩
  arenas a ha := by
    obtain rfl := mem_singleton.mp ha
    refine ⟨⟨Held.init _ _, rfl⟩, rfl, fun _ => rfl, hBase, ?_⟩
    intro obj hObj
    cases hObj
  apart := pairwise_singleton _ _
  known obj hObj := by cases hObj
  dropped obj hObj := by cases hObj
  numbered a ha := by
    obtain rfl := mem_singleton.mp ha
    exact Nat.one_pos

end DevDaxMemoryAllocator

end LMCache
