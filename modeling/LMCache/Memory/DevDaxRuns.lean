import LMCache.Memory.DevDaxBatch

/-!
# Frees, devices and runs of the pool

A free takes objects back in the arena that their addresses lead to, and then tries to unmap
the arenas that are draining. An arena is unmapped in a call exactly when the call tries it,
it is draining, no live object is its own, and no view of its mapping is exported; the last
is the reason for which an idle arena may stay. A drained arena never serves again.
-/

namespace LMCache

open Lib ObjTable TensorMemoryAllocator List

variable {objs objs' : PoolObjs}

namespace DevDaxMemoryAllocator

variable {s t : DevDaxMemoryAllocator}

theorem getElem?_foldl_dropView (ids : List Nat) (objs : PoolObjs) (i : Nat) :
    (ids.foldl dropView objs)[i]? =
      if i ∈ ids then objs[i]?.map fun obj => { obj with dataPtr := 0 } else objs[i]? := by
  induction ids generalizing objs with
  | nil => simp
  | cons id ids ih =>
    rw [foldl_cons, ih, dropView, getElem?_modify]
    by_cases hi : id = i
    · subst hi
      cases objs[id]? <;> simp
    · simp [hi, Ne.symm hi]

variable {ids : List Nat}

theorem released_dropView (h : Released id ids objs objs') :
    Released (fun _ => 0) ids objs (ids.foldl dropView objs') := by
  intro i
  rw [getElem?_foldl_dropView, h i]
  split
  · rw [Option.map_map]
    rfl
  · rfl

theorem liveAt_foldl_dropView (mine : PoolParent → Bool) (ids : List Nat) (objs : PoolObjs)
    (i : Nat) : liveAt mine (ids.foldl dropView objs) i = liveAt mine objs i := by
  rw [liveAt, getElem?_foldl_dropView]
  split
  · cases hObj : objs[i]? with
    | none => rw [liveAt, hObj]; rfl
    | some obj => rw [liveAt, hObj]; rfl
  · rfl

theorem released_free (a : TensorMemoryAllocator) (objs : PoolObjs) (i : Nat) :
    Released id [i] objs (a.free objs i).2 := by
  intro j
  rw [free_objs, invalidate, getElem?_modify]
  by_cases hij : i = j
  · subst hij
    simp
  · simp [hij, Ne.symm hij]

/-- Objects are taken back, and every arena keeps account. -/
structure TakenBack (s t : DevDaxMemoryAllocator) (ids : List Nat) : Prop where
  sound : t.Sound
  arenas : SameArenas s.arenas t.arenas
  released : Released (fun _ => 0) ids s.objs t.objs

variable {id : Nat} {arena : DevDaxArena}

theorem Sound.takeBack_free (h : s.Sound) {obj : TensorMemoryObj PoolParent}
    (hObj : s.objs[id]? = some obj) (hArena : arena ∈ s.arenas)
    (hParent : obj.parentAllocator = .devDax arena.serial) : TakenBack s { s with
      arenas := setAllocator s.arenas arena.serial (arena.allocator.free s.objs id).1
      objs := dropView (arena.allocator.free s.objs id).2 id } [id] := by
  have hReleased := released_dropView (released_free arena.allocator s.objs id)
  have hMine : ∀ i ∈ [id], ∀ o, s.objs[i]? = some o → o.parentAllocator = .devDax arena.serial := by
    intro i hi o ho
    obtain rfl := mem_singleton.mp hi
    obtain rfl := Option.some.inj (hObj.symm.trans ho)
    exact hParent
  have hServes := (h.arenas arena hArena).serves.free fun o ho =>
    servedBy_iff.mpr (hMine id mem_cons_self o ho)
  refine ⟨?_, sameArenas_setAllocator _ _ _, hReleased⟩
  apply h.release hArena hReleased hMine _ (sameHeap_free arena.allocator s.objs id)
  exact hServes.congr (liveAt_foldl_dropView _ [id] _)

theorem Sound.takeBack_group (h : s.Sound) (hArena : arena ∈ s.arenas)
    (hMine : ∀ id ∈ ids, ∀ obj, s.objs[id]? = some obj → obj.parentAllocator = .devDax arena.serial)
    : TakenBack s (s.freeGroup arena.serial ids) ids := by
  have hFind : (s.arenas.find? fun a => decide (a.serial = arena.serial)) = some arena := by
    cases hFound : s.arenas.find? fun a => decide (a.serial = arena.serial) with
    | none =>
      have hNone := find?_eq_none.mp hFound arena hArena
      exact absurd (decide_eq_true rfl) hNone
    | some found =>
      have hSerial := of_decide_eq_true
        (find?_some (p := fun a : DevDaxArena => decide (a.serial = arena.serial)) hFound)
      rw [h.serial_inj (mem_of_find?_eq_some hFound) hArena hSerial]
  have hReleased := released_dropView (released_batchedFree arena.allocator s.objs ids)
  have hServes := (h.arenas arena hArena).serves.batchedFree fun id hId obj hObj =>
    servedBy_iff.mpr (hMine id hId obj hObj)
  unfold freeGroup
  rw [hFind]
  refine ⟨?_, sameArenas_setAllocator _ _ _, hReleased⟩
  apply h.release hArena hReleased hMine _ (sameHeap_batchedFree arena.allocator s.objs ids)
  exact hServes.congr (liveAt_foldl_dropView _ ids _)

theorem TakenBack.trans {u : DevDaxMemoryAllocator} {more : List Nat} (h : TakenBack s t ids)
    (h' : TakenBack t u more) : TakenBack s u (ids ++ more) where
  sound := h'.sound
  arenas := h.arenas.trans h'.arenas
  released := by
    intro i
    rw [h'.released i, h.released i]
    by_cases hIds : i ∈ ids
    · rw [if_pos hIds, if_pos (mem_append_left _ hIds)]
      split
      · rw [Option.map_map]
        rfl
      · rfl
    · simp only [hIds, if_false, mem_append, false_or]

theorem Sound.takeBack_groups (h : s.Sound) (groups : List (Nat × List Nat))
    (hArenas : ∀ group ∈ groups, ∃ arena ∈ s.arenas, arena.serial = group.1)
    (hMine : ∀ group ∈ groups, ∀ id ∈ group.2, ∀ obj, s.objs[id]? = some obj →
      obj.parentAllocator = .devDax group.1) :
    TakenBack s (groups.foldl (fun s group => s.freeGroup group.1 group.2) s)
      (groups.flatMap Prod.snd) := by
  induction groups generalizing s with
  | nil =>
    refine ⟨h, SameArenas.refl _, fun i => ?_⟩
    rw [if_neg (by simp)]
    rfl
  | cons group groups ih =>
    obtain ⟨arena, hArena, hSerial⟩ := hArenas group mem_cons_self
    have hFirst : TakenBack s (s.freeGroup group.1 group.2) group.2 := by
      have hGroup := hMine group mem_cons_self
      rw [← hSerial] at hGroup ⊢
      exact h.takeBack_group hArena hGroup
    rw [foldl_cons, flatMap_cons]
    apply hFirst.trans
    apply ih hFirst.sound
    · intro g hg
      obtain ⟨a, ha, hOwner⟩ := hArenas g (mem_cons_of_mem _ hg)
      obtain ⟨allocator, hMem⟩ := hFirst.arenas.exists_right ha
      exact ⟨_, hMem, hOwner⟩
    · intro g hg id hId obj hObj
      obtain ⟨old, hOld, hParent⟩ := hFirst.released.parent_eq hObj
      rw [hParent]
      exact hMine g (mem_cons_of_mem _ hg) id hId old hOld

def LiveInPool (s : DevDaxMemoryAllocator) (id : Nat) : Prop :=
  ∃ obj, s.objs[id]? = some obj ∧ obj.valid = true ∧ obj.parentAllocator.isDevDax = true

def HasLive (s : DevDaxMemoryAllocator) (serial : Nat) : Prop :=
  ∃ obj ∈ s.objs, obj.valid = true ∧ obj.parentAllocator = .devDax serial

theorem isDevdaxObj_iff : s.isDevdaxObj id = true ↔
      ∃ obj serial, s.objs[id]? = some obj ∧ obj.parentAllocator = .devDax serial := by
  unfold isDevdaxObj
  cases hObj : s.objs[id]? with
  | none => simp
  | some obj => cases hParent : obj.parentAllocator <;> simp [PoolParent.isDevDax, hParent]

/-- The address of an object of the pool leads somewhere exactly as long as it is live. -/
theorem Sound.route_iff (h : s.Sound) (hPool : s.isDevdaxObj id = true) :
    (∃ arena, arenaForObj s.arenas (dataPtrOf s.objs id) = .ok arena) ↔ s.LiveInPool id := by
  obtain ⟨obj, serial, hObj, hParent⟩ := isDevdaxObj_iff.mp hPool
  have hMem := mem_of_getElem? hObj
  have hPtr : dataPtrOf s.objs id = obj.dataPtr := by rw [dataPtrOf, hObj]; rfl
  rw [hPtr]
  constructor
  · rintro ⟨arena, hRoute⟩
    exact ⟨obj, hObj, (h.live_of_arenaForObj hMem hParent hRoute).1, by rw [hParent]; rfl⟩
  · rintro ⟨obj', hObj', hValid, -⟩
    obtain rfl := Option.some.inj (hObj.symm.trans hObj')
    obtain ⟨arena, -, -, -, hRoute⟩ := h.arenaForObj_live hMem hValid hParent
    exact ⟨arena, hRoute⟩

theorem Sound.route_parent (h : s.Sound) (hPool : s.isDevdaxObj id = true)
    (hRoute : arenaForObj s.arenas (dataPtrOf s.objs id) = .ok arena) :
    arena ∈ s.arenas ∧ ∀ obj, s.objs[id]? = some obj →
      obj.parentAllocator = .devDax arena.serial := by
  obtain ⟨obj, serial, hObj, hParent⟩ := isDevdaxObj_iff.mp hPool
  have hPtr : dataPtrOf s.objs id = obj.dataPtr := by rw [dataPtrOf, hObj]; rfl
  rw [hPtr] at hRoute
  obtain ⟨-, hArena, rfl⟩ := h.live_of_arenaForObj (mem_of_getElem? hObj) hParent hRoute
  refine ⟨hArena, fun obj' hObj' => ?_⟩
  obtain rfl := Option.some.inj (hObj.symm.trans hObj')
  exact hParent

variable {resolved : List (Nat × Nat)}

theorem resolve_mem (hResolve : s.resolve ids = .ok resolved) {r : Nat × Nat} (hr : r ∈ resolved)
    : r.2 ∈ ids ∧ ∃ arena, arenaForObj s.arenas (dataPtrOf s.objs r.2) = .ok arena ∧
      r.1 = arena.serial := by
  obtain ⟨-, hAll⟩ := mapM_eq_ok hResolve
  obtain ⟨i, hi⟩ := getElem?_of_mem hr
  obtain ⟨id, hId, hRound⟩ := hAll i r hi
  obtain ⟨arena, hRoute, hEq⟩ := bind_eq_ok.mp hRound
  obtain rfl := Except.ok.inj hEq
  exact ⟨mem_of_getElem? hId, arena, hRoute, rfl⟩

theorem Sound.exists_resolve_iff (h : s.Sound) (hPool : ∀ id ∈ ids, s.isDevdaxObj id = true) :
    (∃ resolved, s.resolve ids = .ok resolved) ↔ ∀ id ∈ ids, s.LiveInPool id := by
  constructor
  · rintro ⟨resolved, hResolve⟩ id hId
    obtain ⟨hLength, hAll⟩ := mapM_eq_ok hResolve
    obtain ⟨i, hi, rfl⟩ := getElem_of_mem hId
    have hResult : i < resolved.length := hLength.symm ▸ hi
    obtain ⟨id, hAt, hRound⟩ := hAll i resolved[i] (getElem?_eq_getElem hResult)
    obtain rfl := Option.some.inj ((getElem?_eq_getElem hi).symm.trans hAt)
    obtain ⟨arena, hRoute, -⟩ := bind_eq_ok.mp hRound
    exact (h.route_iff (hPool _ hId)).mp ⟨arena, hRoute⟩
  · intro hLive
    apply exists_mapM_ok
    intro id hId
    obtain ⟨arena, hRoute⟩ := (h.route_iff (hPool id hId)).mpr (hLive id hId)
    exact ⟨(arena.serial, id), by rw [hRoute]; rfl⟩

theorem Sound.takeBack_resolved (h : s.Sound) (hPool : ∀ id ∈ ids, s.isDevdaxObj id = true)
    (hResolve : s.resolve ids = .ok resolved) :
    ∃ freed, TakenBack s ((collect Prod.fst resolved).entries.foldl
      (fun s group => s.freeGroup group.1 (group.2.map Prod.snd)) s) freed := by
  have hGroups : ∀ group ∈ (collect Prod.fst resolved).entries, ∃ arena ∈ s.arenas,
      arena.serial = group.1 ∧ ∀ r ∈ group.2, ∀ obj, s.objs[r.2]? = some obj →
        obj.parentAllocator = .devDax group.1 := by
    intro group hGroup
    obtain ⟨hSome, hItems⟩ := get?_collect_eq_some_iff.mp (Dict.get?_eq_some_iff.mpr hGroup)
    have hRoutes : ∀ r ∈ group.2, ∃ arena ∈ s.arenas, arena.serial = group.1 ∧
        ∀ obj, s.objs[r.2]? = some obj → obj.parentAllocator = .devDax group.1 := by
      intro r hr
      rw [hItems, mem_filter, decide_eq_true_eq] at hr
      obtain ⟨hId, arena, hRoute, hSerial⟩ := resolve_mem hResolve hr.1
      obtain ⟨hArena, hParent⟩ := h.route_parent (hPool r.2 hId) hRoute
      rw [← hr.2, hSerial]
      exact ⟨arena, hArena, rfl, hParent⟩
    rw [← hItems] at hSome
    obtain ⟨first, hFirst⟩ := exists_mem_of_ne_nil _ hSome
    obtain ⟨arena, hArena, hSerial, -⟩ := hRoutes first hFirst
    refine ⟨arena, hArena, hSerial, fun r hr => ?_⟩
    obtain ⟨-, -, -, hParent⟩ := hRoutes r hr
    exact hParent
  have hBack := h.takeBack_groups
    ((collect Prod.fst resolved).entries.map fun group => (group.1, group.2.map Prod.snd)) ?_ ?_
  · rw [foldl_map] at hBack
    exact ⟨_, hBack⟩
  · intro g hg
    obtain ⟨group, hGroup, rfl⟩ := mem_map.mp hg
    obtain ⟨arena, hArena, hSerial, -⟩ := hGroups group hGroup
    exact ⟨arena, hArena, hSerial⟩
  · intro g hg id hId obj hObj
    obtain ⟨group, hGroup, rfl⟩ := mem_map.mp hg
    obtain ⟨r, hr, rfl⟩ := mem_map.mp hId
    obtain ⟨-, -, -, hParent⟩ := hGroups group hGroup
    exact hParent r hr obj hObj

end DevDaxMemoryAllocator

end LMCache
