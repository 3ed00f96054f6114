import LMCache.Memory.FreeLists

/-!
# Frees in any order

The blocks of the valid objects are the live blocks of the address manager. `batched_free` hands
them back run by run and single frees one by one; both leave a packed heap with the same live
blocks, and that determines the free list. Objects of no bytes are excluded.
-/

namespace LMCache

open Lib List Option

namespace ObjTable

variable {P : Type} {mine : P → Bool} {objs : ObjTable P} {id : Nat} {obj : TensorMemoryObj P}

/-- The blocks of the objects of an allocator that are not freed. -/
def liveBlocks (mine : P → Bool) (objs : ObjTable P) : List FreeBlock :=
  (objs.filter fun obj => obj.valid && mine obj.parentAllocator).map fun obj =>
    ⟨obj.address, obj.phySize⟩

theorem liveBlocks_append (mine : P → Bool) (objs more : ObjTable P) :
    liveBlocks mine (objs ++ more) = liveBlocks mine objs ++ liveBlocks mine more := by
  simp [liveBlocks]

theorem liveBlocks_perm (h : objs[id]? = some obj) (hValid : obj.valid = true)
    (hMine : mine obj.parentAllocator = true) :
    (liveBlocks mine objs).Perm
      (⟨obj.address, obj.phySize⟩ :: liveBlocks mine (invalidate objs id)) := by
  induction objs generalizing id with
  | nil => cases h
  | cons first objs ih =>
    cases id with
    | zero =>
      cases h
      simp [liveBlocks, invalidate, hValid, hMine]
    | succ id =>
      have hTail := ih h
      cases hFirst : (first.valid && mine first.parentAllocator) with
      | true =>
        simp only [liveBlocks, invalidate, modify_succ_cons, filter_cons, hFirst,
          ↓reduceIte, map_cons] at hTail ⊢
        exact (hTail.cons _).trans (.swap _ _ _)
      | false =>
        simpa only [liveBlocks, invalidate, modify_succ_cons, filter_cons, hFirst,
          Bool.false_eq_true, ↓reduceIte] using hTail

theorem invalidate_of_not_valid (h : ∀ obj, objs[id]? = some obj → obj.valid = false) :
    invalidate objs id = objs := by
  apply ext_getElem?
  intro i
  rw [invalidate, getElem?_modify]
  by_cases hi : id = i
  · subst hi
    cases hObj : objs[id]? with
    | none => rfl
    | some obj =>
      have hInvalid := h obj hObj
      cases obj
      simp only at hInvalid
      simp [hInvalid]
  · simp [hi]

theorem getElem?_foldl_invalidate (ids : List Nat) (objs : ObjTable P) (i : Nat) :
    (ids.foldl invalidate objs)[i]? =
      if i ∈ ids then objs[i]?.map fun obj => { obj with valid := false } else objs[i]? := by
  induction ids generalizing objs with
  | nil => simp
  | cons id ids ih =>
    rw [foldl_cons, ih, invalidate, getElem?_modify]
    by_cases hi : id = i
    · subst hi
      cases objs[id]? <;> simp
    · simp [hi, Ne.symm hi]

def liveBlock (mine : P → Bool) (obj : TensorMemoryObj P) : Option FreeBlock :=
  if obj.valid && mine obj.parentAllocator then some ⟨obj.address, obj.phySize⟩ else none

def liveAt (mine : P → Bool) (objs : ObjTable P) (id : Nat) : Option FreeBlock :=
  objs[id]?.bind (liveBlock mine)

theorem liveBlocks_eq_filterMap (mine : P → Bool) (objs : ObjTable P) :
    liveBlocks mine objs = objs.filterMap (liveBlock mine) := by
  induction objs with
  | nil => rfl
  | cons obj objs ih =>
    rw [filterMap_cons, ← ih]
    unfold liveBlocks liveBlock
    rw [filter_cons]
    split <;> rfl

theorem liveBlocks_eq_nil (h : ∀ id, liveAt mine objs id = none) : liveBlocks mine objs = [] := by
  rw [liveBlocks_eq_filterMap, filterMap_eq_nil_iff]
  intro obj hObj
  obtain ⟨id, hId⟩ := getElem?_of_mem hObj
  have hNone := h id
  rwa [liveAt, hId] at hNone

theorem liveBlocks_congr {objs' : ObjTable P}
    (h : ∀ id, liveAt mine objs id = liveAt mine objs' id) :
    liveBlocks mine objs = liveBlocks mine objs' := by
  induction objs generalizing objs' with
  | nil => exact (liveBlocks_eq_nil fun id => (h id).symm).symm
  | cons obj objs ih =>
    cases objs' with
    | nil => exact liveBlocks_eq_nil h
    | cons obj' objs' =>
      have hHead : liveBlock mine obj = liveBlock mine obj' := h 0
      have hTail := ih fun id => h (id + 1)
      simp only [liveBlocks_eq_filterMap, filterMap_cons] at hTail ⊢
      rw [hHead, hTail]

variable {more : ObjTable P}

theorem liveAt_append_left (h : id < objs.length) :
    liveAt mine (objs ++ more) id = liveAt mine objs id := by
  rw [liveAt, getElem?_append_left h]
  rfl

theorem liveAt_append_other (h : ∀ obj ∈ more, mine obj.parentAllocator = false) (id : Nat) :
    liveAt mine (objs ++ more) id = liveAt mine objs id := by
  rcases Nat.lt_or_ge id objs.length with hOld | hNew
  · exact liveAt_append_left hOld
  · rw [liveAt, liveAt, getElem?_append_right hNew, getElem?_eq_none hNew]
    cases hObj : more[id - objs.length]? with
    | none => rfl
    | some obj =>
      rw [bind_some, liveBlock, h obj (mem_of_getElem? hObj), Bool.and_false]
      rfl

theorem liveAt_foldl_invalidate (ids : List Nat) (objs : ObjTable P) (i : Nat) :
    liveAt mine (ids.foldl invalidate objs) i = if i ∈ ids then none else liveAt mine objs i := by
  rw [liveAt, getElem?_foldl_invalidate]
  split
  · cases objs[i]? <;> rfl
  · rfl

def AllMine (mine : P → Bool) (objs : ObjTable P) (ids : List Nat) : Prop :=
  ∀ id ∈ ids, ∀ obj, objs[id]? = some obj → mine obj.parentAllocator = true

theorem AllMine.invalidate {ids : List Nat} (h : AllMine mine objs ids) (i : Nat) :
    AllMine mine (ObjTable.invalidate objs i) ids := by
  intro id hId obj hObj
  rw [ObjTable.invalidate, getElem?_modify] at hObj
  obtain ⟨old, hOld, rfl⟩ := map_eq_some_iff.mp hObj
  have hMine := h id hId old hOld
  split <;> exact hMine

end ObjTable

open ObjTable

variable {P : Type} {alignBytes : Nat} {mine : P → Bool} {objs : ObjTable P}

/-- The address manager is held with the blocks of the valid objects, and these are counted. -/
structure TensorMemoryAllocator.Serves (alignBytes : Nat) (mine : P → Bool)
    (a : TensorMemoryAllocator) (objs : ObjTable P) : Prop where
  held : Held alignBytes a.addressManager (liveBlocks mine objs)
  counted : a.numActiveAllocations = (liveBlocks mine objs).length

theorem TensorMemoryAllocator.Serves.congr {a : TensorMemoryAllocator} {objs' : ObjTable P}
    (h : a.Serves alignBytes mine objs) (hSame : ∀ id, liveAt mine objs' id = liveAt mine objs id) :
    a.Serves alignBytes mine objs' := by
  have hBlocks := liveBlocks_congr hSame
  exact ⟨hBlocks ▸ h.held, hBlocks ▸ h.counted⟩

namespace FreeScan

variable {am : AddressManager} {c : FreeScan P}

def runs (c : FreeScan P) : List (FreeBlock × Nat) := c.coalescedBlocks ++ c.curr.toList

/-- The collected runs and the objects that are still valid make up the live blocks. -/
structure Covers (alignBytes : Nat) (mine : P → Bool) (am : AddressManager) (total : Nat)
    (c : FreeScan P) : Prop where
  held : Held alignBytes am (c.runs.map Prod.fst ++ liveBlocks mine c.objs)
  counted : (c.runs.map Prod.snd).sum + (liveBlocks mine c.objs).length = total

theorem visit_objs (c : FreeScan P) (id : Nat) : (c.visit id).objs = invalidate c.objs id := by
  unfold visit
  cases hObj : c.objs[id]? with
  | none =>
    refine (invalidate_of_not_valid fun obj h => ?_).symm
    rw [hObj] at h
    cases h
  | some obj =>
    dsimp only
    split
    · split
      · rfl
      · split <;> rfl
    · rename_i hInvalid
      refine (invalidate_of_not_valid fun obj' h => ?_).symm
      rw [hObj] at h
      obtain rfl := some.inj h
      simpa using hInvalid

theorem Covers.visit {total id : Nat} (h : Covers alignBytes mine am total c)
    (hMine : ∀ obj, c.objs[id]? = some obj → mine obj.parentAllocator = true) :
    Covers alignBytes mine am total (c.visit id) := by
  unfold FreeScan.visit
  cases hObj : c.objs[id]? with
  | none => exact h
  | some obj =>
    dsimp only
    split
    · rename_i hValid
      have hPerm := liveBlocks_perm hObj hValid (hMine obj hObj)
      have hLength := hPerm.length_eq
      rw [length_cons] at hLength
      have hCount := h.counted
      have hHeld := h.held.perm (hPerm.append_left _)
      cases hCurr : c.curr with
      | none =>
        simp only [runs, hCurr, toList_none, append_nil] at hCount hHeld
        refine ⟨?_, ?_⟩
        · simpa [runs] using hHeld
        · simp only [runs, toList_some, map_append, map_cons, map_nil,
            sum_append, sum_cons, sum_nil]
          omega
      | some run =>
        simp only [runs, hCurr, toList_some, map_append, map_cons, map_nil,
          sum_append, sum_cons, sum_nil, append_assoc,
          cons_append, nil_append] at hCount hHeld
        dsimp only
        split
        · rename_i hTouch
          have hMoved := hHeld.perm (perm_middle.trans (perm_middle.cons _))
          have hFused := (hMoved.fuse hTouch).perm perm_middle.symm
          refine ⟨?_, ?_⟩
          · simpa [runs] using hFused
          · simp only [runs, toList_some, map_append, map_cons, map_nil,
              sum_append, sum_cons, sum_nil]
            omega
        · refine ⟨?_, ?_⟩
          · simpa [runs] using hHeld
          · simp only [runs, toList_some, map_append, map_cons, map_nil,
              sum_append, sum_cons, sum_nil]
            omega
    · exact h

theorem Covers.foldl {total : Nat} {ids : List Nat} (h : Covers alignBytes mine am total c)
    (hMine : AllMine mine c.objs ids) :
    Covers alignBytes mine am total (ids.foldl FreeScan.visit c) := by
  induction ids generalizing c with
  | nil => exact h
  | cons id ids ih =>
    refine ih (h.visit (hMine id mem_cons_self)) ?_
    rw [visit_objs]
    exact AllMine.invalidate (fun i hi => hMine i (mem_cons_of_mem _ hi)) id

theorem foldl_visit_objs (ids : List Nat) (c : FreeScan P) :
    (ids.foldl FreeScan.visit c).objs = ids.foldl invalidate c.objs := by
  induction ids generalizing c with
  | nil => rfl
  | cons id ids ih => rw [foldl_cons, foldl_cons, ih, visit_objs]

end FreeScan

namespace TensorMemoryAllocator

variable {a a' : TensorMemoryAllocator}

theorem free_objs (a : TensorMemoryAllocator) (objs : ObjTable P) (id : Nat) :
    (a.free objs id).2 = invalidate objs id := by
  unfold free
  cases hObj : objs[id]? with
  | none =>
    refine (invalidate_of_not_valid fun obj h => ?_).symm
    rw [hObj] at h
    cases h
  | some obj =>
    dsimp only
    split
    · rfl
    · rename_i hInvalid
      refine (invalidate_of_not_valid fun obj' h => ?_).symm
      rw [hObj] at h
      obtain rfl := some.inj h
      simpa using hInvalid

theorem Serves.free {id : Nat} (h : a.Serves alignBytes mine objs)
    (hMine : ∀ obj, objs[id]? = some obj → mine obj.parentAllocator = true) :
    (a.free objs id).1.Serves alignBytes mine (a.free objs id).2 := by
  unfold TensorMemoryAllocator.free
  cases hObj : objs[id]? with
  | none => exact h
  | some obj =>
    dsimp only
    split
    · rename_i hValid
      have hPerm := liveBlocks_perm hObj hValid (hMine obj hObj)
      refine ⟨(h.held.perm hPerm).giveBack, ?_⟩
      have hLength := hPerm.length_eq
      rw [length_cons] at hLength
      dsimp only
      rw [h.counted, hLength]
      push_cast
      ring
    · exact h

theorem batchedFree_objs (a : TensorMemoryAllocator) (objs : ObjTable P) (ids : List Nat) :
    (a.batchedFree objs ids).2 = (sortByAddress objs ids).foldl invalidate objs :=
  FreeScan.foldl_visit_objs _ _

theorem mem_sortByAddress {ids : List Nat} {id : Nat} : id ∈ sortByAddress objs ids ↔ id ∈ ids :=
  mem_insertionSort _

theorem Serves.batchedFree {ids : List Nat} (h : a.Serves alignBytes mine objs)
    (hMine : AllMine mine objs ids) :
    (a.batchedFree objs ids).1.Serves alignBytes mine (a.batchedFree objs ids).2 := by
  have hStart : FreeScan.Covers alignBytes mine a.addressManager (liveBlocks mine objs).length
      ⟨objs, [], none⟩ := ⟨by simpa [FreeScan.runs] using h.held, by simp [FreeScan.runs]⟩
  have hSorted : AllMine mine objs (sortByAddress objs ids) := fun id hId =>
    hMine id (mem_sortByAddress.mp hId)
  have hCovers := hStart.foldl hSorted
  refine ⟨hCovers.held.giveBackAll Prod.fst, ?_⟩
  have hCount := hCovers.counted
  simp only [TensorMemoryAllocator.batchedFree, coalescedRuns, h.counted]
  simp only [FreeScan.runs] at hCount
  omega

theorem Serves.allocate (h : a.Serves alignBytes mine objs) (hAlign : 0 < alignBytes) {self : P}
    (hSelf : mine self = true) {rawSize : Nat} (hPos : 0 < rawSize) :
    a.allocate self rawSize = (none, a) ∨
      ∃ obj a', a.allocate self rawSize = (some obj, a') ∧
        a'.Serves alignBytes mine (objs ++ [obj]) ∧ a'.dataPtr = a.dataPtr ∧
        a'.addressManager.size = a.addressManager.size ∧ obj.valid = true ∧
        obj.parentAllocator = self ∧ obj.dataPtr = a.dataPtr + obj.address := by
  unfold TensorMemoryAllocator.allocate
  cases hOutcome : a.addressManager.allocate rawSize with
  | error e => exact Or.inl rfl
  | ok r =>
    obtain ⟨block, am⟩ := r
    obtain ⟨_, -, -, -, hSame⟩ := AddressManager.allocate_eq_ok hOutcome
    refine Or.inr ⟨_, _, rfl, ⟨?_, ?_⟩, rfl, by rw [hSame], rfl, rfl, rfl⟩
    · rw [liveBlocks_append]
      have hNew : liveBlocks mine [(⟨block.start, block.size, a.dataPtr + block.start, self,
          true⟩ : TensorMemoryObj P)] = [block] := by simp [liveBlocks, hSelf]
      rw [hNew]
      exact (h.held.allocate (h.held.aligned_pos hAlign hPos) hOutcome).perm
        (perm_append_singleton _ _).symm
    · rw [liveBlocks_append, length_append, h.counted]
      simp [liveBlocks, hSelf]

theorem Serves.batchedAllocate (h : a.Serves alignBytes mine objs) (hAlign : 0 < alignBytes)
    {self : P} (hSelf : mine self = true) {unitRawSize : Nat} (hPos : 0 < unitRawSize)
    (batchSize : Int) :
    a.batchedAllocate self unitRawSize batchSize = .ok (none, a) ∨
      ∃ new a', a.batchedAllocate self unitRawSize batchSize = .ok (some new, a') ∧
        a'.Serves alignBytes mine (objs ++ new) ∧ a'.dataPtr = a.dataPtr ∧
        a'.addressManager.size = a.addressManager.size ∧ (new.length : Int) = batchSize ∧
        ∀ obj ∈ new, obj.valid = true ∧ obj.parentAllocator = self ∧
          obj.dataPtr = a.dataPtr + obj.address := by
  have hUnit := h.held.aligned_pos hAlign hPos
  have hAligned := h.held.aligned_pos hAlign hUnit
  unfold TensorMemoryAllocator.batchedAllocate
  dsimp only
  cases hOutcome : a.addressManager.batchedAllocate
    (a.addressManager.computeAlignedSize unitRawSize) batchSize with
  | error e =>
    exact Or.inl (if_pos (AddressManager.batchedAllocate_error hAligned hOutcome))
  | ok r =>
    obtain ⟨blocks, am⟩ := r
    obtain ⟨_, _, _, -, hCarved, hLength, hSame⟩ :=
      AddressManager.batchedAllocate_eq_ok hAligned hOutcome
    -- the blocks of the objects have the size that the objects carry
    have hBlocks : liveBlocks mine (blocks.map fun block =>
        (⟨block.start, a.addressManager.computeAlignedSize unitRawSize,
          a.dataPtr + block.start, self, true⟩ : TensorMemoryObj P)) = blocks := by
      have hIdem := AddressManager.computeAlignedSize_idem (h.held.align ▸ hAlign) unitRawSize
      simp only [liveBlocks, List.filter_map, List.map_map, Function.comp_def, hSelf,
        Bool.and_self, filter_true]
      conv_rhs => rw [← List.map_id blocks]
      refine map_congr_left fun block hBlock => ?_
      rw [← hIdem, ← hCarved.sizes block hBlock]
      rfl
    refine Or.inr ⟨_, _, rfl, ⟨?_, ?_⟩, rfl, by rw [hSame], ?_, ?_⟩
    · rw [liveBlocks_append, hBlocks]
      exact (h.held.batchedAllocate hAligned hOutcome).perm perm_append_comm
    · rw [liveBlocks_append, hBlocks, length_append, h.counted, ← hLength]
      push_cast
      ring
    · rw [length_map, hLength]
    · intro obj hObj
      obtain ⟨block, -, rfl⟩ := List.mem_map.mp hObj
      exact ⟨rfl, rfl, rfl⟩

/-- The heap of addresses and its place stay as they are when objects are freed. -/
structure SameHeap (a a' : TensorMemoryAllocator) : Prop where
  dataPtr : a'.dataPtr = a.dataPtr
  size : a'.addressManager.size = a.addressManager.size

variable {a'' : TensorMemoryAllocator}

theorem SameHeap.trans (h : SameHeap a a') (h' : SameHeap a' a'') : SameHeap a a'' :=
  ⟨h'.dataPtr.trans h.dataPtr, h'.size.trans h.size⟩

theorem sameHeap_free (a : TensorMemoryAllocator) (objs : ObjTable P) (id : Nat) :
    SameHeap a (a.free objs id).1 := by
  unfold TensorMemoryAllocator.free
  split
  · exact ⟨rfl, rfl⟩
  · split <;> exact ⟨rfl, rfl⟩

theorem sameHeap_batchedFree (a : TensorMemoryAllocator) (objs : ObjTable P) (ids : List Nat) :
    SameHeap a (a.batchedFree objs ids).1 := by
  have hSize : ∀ (runs : List (FreeBlock × Nat)) (am : AddressManager),
      (runs.foldl (fun am run => am.free run.1) am).size = am.size := by
    intro runs
    induction runs with
    | nil => exact fun _ => rfl
    | cons run runs ih => exact fun am => ih (am.free run.1)
  exact ⟨rfl, hSize _ _⟩

theorem Serves.unique {objs' : ObjTable P} (h : a.Serves alignBytes mine objs)
    (ha : SameHeap a'' a) (h' : a'.Serves alignBytes mine objs') (ha' : SameHeap a'' a')
    (hPerm : (liveBlocks mine objs).Perm (liveBlocks mine objs')) : a = a' := by
  obtain ⟨dataPtr, am, active⟩ := a
  obtain ⟨dataPtr', am', active'⟩ := a'
  obtain rfl : dataPtr = dataPtr' := ha.dataPtr.trans ha'.dataPtr.symm
  obtain rfl : active = active' :=
    h.counted.trans ((congrArg Nat.cast hPerm.length_eq).trans h'.counted.symm)
  obtain rfl : am = am' := h.held.unique h'.held (ha.size.trans ha'.size.symm) hPerm
  rfl

end TensorMemoryAllocator

namespace TensorHeap

variable {s t : TensorHeap P}

def Sound (alignBytes : Nat) (s : TensorHeap P) : Prop :=
  s.allocator.Serves alignBytes (fun _ => true) s.objs

theorem Sound.free (h : s.Sound alignBytes) (id : Nat) : (s.free id).Sound alignBytes :=
  TensorMemoryAllocator.Serves.free h fun _ _ => rfl

theorem Sound.batchedFree (h : s.Sound alignBytes) (ids : List Nat) :
    (s.batchedFree ids).Sound alignBytes :=
  TensorMemoryAllocator.Serves.batchedFree h fun _ _ _ _ => rfl

theorem Sound.call (h : s.Sound alignBytes) (hAlign : 0 < alignBytes) (self : P) {c : TensorCall}
    (hPositive : c.Positive) : (TensorHeap.call self s c).Sound alignBytes := by
  cases c with
  | allocate rawSize =>
    unfold TensorHeap.call
    dsimp only
    rcases TensorMemoryAllocator.Serves.allocate h hAlign rfl hPositive with
      hNone | ⟨obj, a', hSome, hServes, -⟩
    · rw [hNone, show s.objs ++ (none : Option (TensorMemoryObj P)).toList = s.objs from
        append_nil _]
      exact h
    · rw [hSome]
      exact hServes
  | batchedAllocate unitRawSize batchSize =>
    unfold TensorHeap.call
    dsimp only
    rcases TensorMemoryAllocator.Serves.batchedAllocate h hAlign rfl hPositive
      batchSize with hNone | ⟨new, a', hSome, hServes, -⟩
    · rw [hNone]
      dsimp only
      rw [show s.objs ++ (none : Option (List (TensorMemoryObj P))).getD [] = s.objs from
        append_nil _]
      exact h
    · rw [hSome]
      exact hServes
  | free id => exact h.free id
  | batchedFree ids => exact h.batchedFree ids
  | sbrk size => exact ⟨h.held.sbrk (h.held.aligned_pos hAlign hPositive), h.counted⟩

def Reached (self : P) (alignBytes : Nat) (s : TensorHeap P) : Prop :=
  ∃ dataPtr size calls, Run (Run.Under (fun _ c => TensorCall.Positive c)
    fun s c t => call self s c = t) (init dataPtr size alignBytes) calls s

theorem Reached.sound (hAlign : 0 < alignBytes) {self : P} (h : s.Reached self alignBytes) :
    s.Sound alignBytes := by
  obtain ⟨dataPtr, size, calls, hRun⟩ := h
  refine hRun.invariant (I := Sound alignBytes) ?_ ⟨.init size alignBytes, rfl⟩
  rintro s c t hSound ⟨hPositive, rfl⟩
  exact hSound.call hAlign self hPositive

theorem Sound.foldl_free (h : s.Sound alignBytes) (order : List Nat) :
    (order.foldl TensorHeap.free s).Sound alignBytes := by
  induction order generalizing s with
  | nil => exact h
  | cons id order ih => exact ih (h.free id)

theorem foldl_free_objs (s : TensorHeap P) (order : List Nat) :
    (order.foldl TensorHeap.free s).objs = order.foldl invalidate s.objs := by
  induction order generalizing s with
  | nil => rfl
  | cons id order ih =>
    rw [foldl_cons, foldl_cons, ih]
    exact congrArg (order.foldl invalidate) (s.allocator.free_objs s.objs id)

theorem sameHeap_foldl_free (s : TensorHeap P) (order : List Nat) :
    TensorMemoryAllocator.SameHeap s.allocator (order.foldl TensorHeap.free s).allocator := by
  induction order generalizing s with
  | nil => exact ⟨rfl, rfl⟩
  | cons id order ih => exact (s.allocator.sameHeap_free s.objs id).trans (ih (s.free id))

theorem foldl_invalidate_eq {ids order : List Nat}
    (hOrder : ∀ id, id ∈ order ↔ id ∈ ids ∧ ∃ obj, objs[id]? = some obj ∧ obj.valid = true) :
    (sortByAddress objs ids).foldl invalidate objs = order.foldl invalidate objs := by
  apply ext_getElem?
  intro i
  rw [getElem?_foldl_invalidate, getElem?_foldl_invalidate]
  have hSorted : i ∈ sortByAddress objs ids ↔ i ∈ ids := TensorMemoryAllocator.mem_sortByAddress
  by_cases hIds : i ∈ ids
  · rw [if_pos (hSorted.mpr hIds)]
    by_cases hLive : i ∈ order
    · rw [if_pos hLive]
    · rw [if_neg hLive]
      cases hObj : objs[i]? with
      | none => rfl
      | some obj =>
        have hInvalid : obj.valid = false := by
          refine Bool.eq_false_iff.mpr fun hValid => hLive ?_
          exact (hOrder i).mpr ⟨hIds, obj, hObj, hValid⟩
        cases obj
        simp only at hInvalid
        rw [hInvalid, map_some]
  · rw [if_neg (mt hSorted.mp hIds), if_neg fun hLive => hIds ((hOrder i).mp hLive).1]

/-- A batch of objects, in any order, with repetitions and with objects that are freed already,
is freed to the same free list, counter and number of allocations as each live object of it by
itself, in any order. -/
theorem batchedFree_eq_frees (hAlign : 0 < alignBytes) {self : P} (h : s.Reached self alignBytes)
    {ids order : List Nat} (hOrder : ∀ id, id ∈ order ↔ id ∈ ids ∧ s.Live id) :
    s.batchedFree ids = order.foldl TensorHeap.free s := by
  have hSound := h.sound hAlign
  have hObjs : (s.batchedFree ids).objs = (order.foldl TensorHeap.free s).objs := by
    rw [foldl_free_objs]
    exact (s.allocator.batchedFree_objs s.objs ids).trans (foldl_invalidate_eq hOrder)
  have hAllocator : (s.batchedFree ids).allocator = (order.foldl TensorHeap.free s).allocator := by
    refine (hSound.batchedFree ids).unique (s.allocator.sameHeap_batchedFree s.objs ids)
      (hSound.foldl_free order) (sameHeap_foldl_free s order) ?_
    rw [hObjs]
  generalize order.foldl TensorHeap.free s = t at hObjs hAllocator ⊢
  generalize s.batchedFree ids = u at hObjs hAllocator ⊢
  cases t
  cases u
  simp only at hObjs hAllocator
  rw [hObjs, hAllocator]

/-- Of three adjacent objects the outer ones are freed twice in one batch, after the middle
one. -/
def threeObjects : List TensorCall := [.allocate 1, .batchedAllocate 4096 2, .free 1]

theorem batchedFree_eq_frees_around :
    let s : TensorHeap Unit := ⟨⟨0, ⟨16384, 4096, [⟨4096, 4096⟩, ⟨12288, 4096⟩], 8192⟩, 2⟩,
      [⟨0, 4096, 0, (), true⟩, ⟨4096, 4096, 4096, (), false⟩, ⟨8192, 4096, 8192, (), true⟩]⟩
    s.batchedFree [2, 1, 0, 2, 0] = [0, 2].foldl TensorHeap.free s ∧
      (s.batchedFree [2, 1, 0, 2, 0]).allocator = .new 0 16384 4096 := by
  intro s
  have hRun : Run (Run.Under (fun _ c => TensorCall.Positive c) fun s c t => call () s c = t)
      (init 0 16384 4096) threeObjects s :=
    (((Run.nil _).snoc ⟨Nat.one_pos, rfl⟩).snoc ⟨Nat.zero_lt_succ 4095, rfl⟩).snoc
      ⟨trivial, by decide⟩
  have hOrder : ∀ id, id ∈ [0, 2] ↔ id ∈ [2, 1, 0, 2, 0] ∧ s.Live id := by
    intro id
    constructor
    · intro hMem
      rcases List.mem_pair.mp hMem with rfl | rfl <;> decide
    · rintro ⟨hMem, hLive⟩
      have hIds : id = 0 ∨ id = 1 ∨ id = 2 := by
        simp only [List.mem_cons, List.not_mem_nil, or_false] at hMem
        omega
      rcases hIds with rfl | rfl | rfl
      · exact List.mem_cons_self
      · exact absurd hLive (by decide)
      · exact List.mem_cons_of_mem _ List.mem_cons_self
  exact ⟨batchedFree_eq_frees (by decide) ⟨0, 16384, threeObjects, hRun⟩ hOrder, by decide⟩

/-- An object of no bytes stands for itself in the free list when it is freed alone, and is
part of its neighbour in a batch. -/
theorem batchedFree_ne_frees_empty :
    ¬ ∀ (self : Unit) (calls : List TensorCall) (s : TensorHeap Unit),
      Run (fun s c t => call self s c = t) (init 0 4096 4096) calls s →
      ∀ ids order : List Nat, order.Nodup → (∀ id, id ∈ order ↔ id ∈ ids ∧ s.Live id) →
        (s.batchedFree ids).allocator = (order.foldl TensorHeap.free s).allocator := by
  intro h
  let s : TensorHeap Unit := ⟨⟨0, ⟨4096, 4096, [], 4096⟩, 2⟩,
    [⟨0, 0, 0, (), true⟩, ⟨0, 4096, 0, (), true⟩]⟩
  have hRun : Run (fun s c t => call () s c = t) (init 0 4096 4096)
      [.allocate 0, .allocate 1] s :=
    ((Run.nil _).snoc rfl).snoc (by decide)
  have hOrder : ∀ id, id ∈ [0, 1] ↔ id ∈ [0, 1] ∧ s.Live id := by
    intro id
    refine ⟨fun hMem => ⟨hMem, ?_⟩, And.left⟩
    rcases List.mem_pair.mp hMem with rfl | rfl <;> decide
  exact absurd (h () _ s hRun [0, 1] [0, 1] (by decide) hOrder) (by decide)

end TensorHeap

end LMCache
