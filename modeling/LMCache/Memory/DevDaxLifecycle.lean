import LMCache.Memory.DevDaxRuns

/-!
# The life of an arena

Every call serves objects, takes objects back without reaching an arena, takes objects back and
tries the draining arenas, maps a device or drains one (`Effect`). An arena leaves the pool
exactly in a call that tries it while it is draining, has no live object and no exported view.
-/

namespace LMCache

open Lib ObjTable TensorMemoryAllocator List Option

namespace DevDaxCall

/-- The devices whose mappings have exported views during the call. -/
def views : DevDaxCall → List String
  | .free views _ | .batchedFree views _ | .removeDevice views _ => views
  | .allocate _ | .batchedAllocate _ _ | .addDevice _ _ _ => []

end DevDaxCall

namespace DevDaxMemoryAllocator

variable {s t : DevDaxMemoryAllocator} {views : List String}

/-- Sizes are positive, and a device is mapped where nothing is mapped. -/
def Proper (s : DevDaxMemoryAllocator) : DevDaxCall → Prop
  | .allocate rawSize | .batchedAllocate rawSize _ => 0 < rawSize
  | .addDevice _ sizeInBytes (.ok basePtr) =>
    0 < basePtr ∧ ∀ arena ∈ s.arenas,
      arena.basePtr + arena.size ≤ basePtr ∨ basePtr + sizeInBytes ≤ arena.basePtr
  | .addDevice _ _ (.error _) | .free _ _ | .batchedFree _ _ | .removeDevice _ _ => True

/-- The call would unmap the arena if it is idle afterwards: a free of live objects of the pool
tries the draining arenas, a drain request its own arena, unless it is the primary one. -/
def Tries (s : DevDaxMemoryAllocator) (arena : DevDaxArena) : DevDaxCall → Prop
  | .free views id =>
    s.LiveInPool id ∧ arena.state = .draining ∧ arena.devicePath ∉ views
  | .batchedFree views ids =>
    (∀ id ∈ ids, s.isLocalObj id = true ∨ s.LiveInPool id) ∧ (∃ id ∈ ids, s.LiveInPool id) ∧
      arena.state = .draining ∧ arena.devicePath ∉ views
  | .removeDevice views devicePath =>
    arena.devicePath = devicePath ∧ arena.isPrimary = false ∧ arena.devicePath ∉ views
  | .allocate _ | .batchedAllocate _ _ | .addDevice _ _ _ => False

variable {arena : DevDaxArena}

theorem maybeReap_eq_none : arena.maybeReap views = none ↔ arena.state = .draining ∧
      arena.allocator.numActiveAllocations ≤ 0 ∧ arena.devicePath ∉ views := by
  unfold DevDaxArena.maybeReap DevDaxArena.reapable
  by_cases hDraining : arena.state = .draining
  · by_cases hIdle : arena.allocator.numActiveAllocations ≤ 0
    · by_cases hView : arena.devicePath ∈ views <;> simp [hDraining, hIdle, hView]
    · simp [hDraining, hIdle]
  · simp [hDraining]

variable {arena' : DevDaxArena}

theorem maybeReap_stays (h : arena.maybeReap views = some arena') : Sound.Stays arena arena' := by
  unfold DevDaxArena.maybeReap at h
  split at h
  · rename_i hReapable
    split at h
    · obtain rfl := some.inj h
      refine ⟨rfl, rfl, rfl, fun hActive => ?_⟩
      rw [DevDaxArena.reapable, Bool.and_eq_true, decide_eq_true_eq] at hReapable
      exact absurd (hActive.symm.trans hReapable.1) (by decide)
    · cases h
  · obtain rfl := some.inj h
    exact .refl arena

theorem maybeReap_nil (h : arena.maybeReap [] = some arena') : arena' = arena := by
  unfold DevDaxArena.maybeReap at h
  split at h
  · rw [if_neg not_mem_nil] at h
    cases h
  · exact (some.inj h).symm

theorem Sound.reapDraining (h : s.Sound) (views : List String) : (s.reapDraining views).Sound :=
  h.retire (fun _ _ => maybeReap_stays) fun _ _ hNone => (maybeReap_eq_none.mp hNone).2.1

def drainStep (views : List String) (serial : Nat) (arena : DevDaxArena) : Option DevDaxArena :=
  if arena.serial = serial then DevDaxArena.maybeReap views { arena with state := .draining }
  else some arena

theorem drainStep_eq_none {serial : Nat} :
    drainStep views serial arena = none ↔ arena.serial = serial ∧
      arena.allocator.numActiveAllocations ≤ 0 ∧ arena.devicePath ∉ views := by
  unfold drainStep
  split
  · rename_i hSerial
    rw [maybeReap_eq_none]
    simp [hSerial]
  · rename_i hSerial
    simp [hSerial]

theorem drainStep_stays {serial : Nat} (h : drainStep views serial arena = some arena') :
    Sound.Stays arena arena' := by
  unfold drainStep at h
  split at h
  · have hStays := maybeReap_stays h
    refine ⟨hStays.place, hStays.addressManager, hStays.counter, fun hActive => ?_⟩
    have hSame := hStays.active hActive
    rw [hSame] at hActive
    cases hActive
  · obtain rfl := some.inj h
    exact .refl arena

theorem Sound.drain (h : s.Sound) (views : List String) (serial : Nat) :
    Sound { s with arenas := drain s.arenas views serial } :=
  h.retire (f := drainStep views serial) (fun _ _ => drainStep_stays)
    fun _ _ hNone => (drainStep_eq_none.mp hNone).2.1

def Unmapped (t : DevDaxMemoryAllocator) (arena : DevDaxArena) : Prop :=
  ∀ a ∈ t.arenas, a.serial ≠ arena.serial

theorem Sound.unmapped_filterMap_iff (h : s.Sound) {f : DevDaxArena → Option DevDaxArena}
    (hStays : ∀ arena arena', f arena = some arena' → Stays arena arena')
    (hArena : arena ∈ s.arenas) :
    (∀ a ∈ s.arenas.filterMap f, a.serial ≠ arena.serial) ↔ f arena = none := by
  constructor
  · intro hGone
    cases hSome : f arena with
    | none => rfl
    | some arena' =>
      have hMem : arena' ∈ s.arenas.filterMap f := mem_filterMap.mpr ⟨arena, hArena, hSome⟩
      exact absurd (hStays arena arena' hSome).serial (hGone arena' hMem)
  · intro hNone a ha hSerial
    obtain ⟨old, hOld, hSome⟩ := mem_filterMap.mp ha
    rw [(hStays old a hSome).serial] at hSerial
    obtain rfl := h.serial_inj hOld hArena hSerial
    rw [hNone] at hSome
    cases hSome

theorem Sound.idle_iff (h : s.Sound) (hArena : arena ∈ s.arenas) :
    arena.allocator.numActiveAllocations ≤ 0 ↔ ¬ s.HasLive arena.serial := by
  rw [(h.arenas arena hArena).idle_iff]
  constructor
  · rintro hIdle ⟨obj, hObj, hValid, hParent⟩
    exact hIdle obj hObj hValid hParent
  · intro hNone obj hObj hValid hParent
    exact hNone ⟨obj, hObj, hValid, hParent⟩

/-- The cases of a call; `Tries` says which of them may unmap an arena. -/
inductive Effect (s : DevDaxMemoryAllocator) (c : DevDaxCall) (t : DevDaxMemoryAllocator) : Prop
  | served (hQuiet : ∀ arena ∈ s.arenas, ¬ s.Tries arena c) (hSound : t.Sound)
      (hServing : Serving s t)
  | kept (hQuiet : ∀ arena ∈ s.arenas, ¬ s.Tries arena c) (hSound : t.Sound)
      (hArenas : t.arenas = s.arenas)
      (hLength : t.objs.length = s.objs.length)
      (hLive : ∀ serial, s.HasLive serial → t.HasLive serial)
  | reaped (freed : DevDaxMemoryAllocator)
      (hTries : ∀ arena, s.Tries arena c ↔ arena.state = .draining ∧ arena.devicePath ∉ c.views)
      (hSound : freed.Sound) (hArenas : SameArenas s.arenas freed.arenas)
      (hLength : freed.objs.length = s.objs.length) (hResult : t = freed.reapDraining c.views)
  | added (arena : DevDaxArena) (hQuiet : ∀ arena ∈ s.arenas, ¬ s.Tries arena c) (hSound : t.Sound)
      (hArenas : t.arenas = s.arenas ++ [arena]) (hActive : arena.state = .active)
      (hObjs : t.objs = s.objs)
  | drained (arena : DevDaxArena) (hArena : arena ∈ s.arenas)
      (hTries : ∀ a ∈ s.arenas, s.Tries a c ↔ a = arena ∧ a.devicePath ∉ c.views)
      (hResult : t = { s with arenas := drain s.arenas c.views arena.serial })

variable {c : DevDaxCall}

theorem Effect.nothing (h : s.Sound) (hQuiet : ∀ arena ∈ s.arenas, ¬ s.Tries arena c) :
    Effect s c s :=
  .kept hQuiet h rfl rfl fun _ hLive => hLive

variable {id : Nat}

theorem isLocalObj_iff : s.isLocalObj id = true ↔ s.localAllocator.isSome = true ∧
      ∃ obj, s.objs[id]? = some obj ∧ obj.parentAllocator = .localAllocator := by
  unfold isLocalObj
  rw [Bool.and_eq_true]
  cases hObj : s.objs[id]? with
  | none => simp
  | some obj => cases hParent : obj.parentAllocator <;> simp [PoolParent.isDevDax, hParent]

theorem LiveInPool.isDevdaxObj (h : s.LiveInPool id) : s.isDevdaxObj id = true := by
  obtain ⟨obj, hObj, -, hPool⟩ := h
  unfold DevDaxMemoryAllocator.isDevdaxObj
  rw [hObj]
  exact hPool

theorem not_isLocalObj (h : s.isDevdaxObj id = true) : s.isLocalObj id ≠ true := by
  intro hLocal
  obtain ⟨obj, serial, hObj, hParent⟩ := isDevdaxObj_iff.mp h
  obtain ⟨-, obj', hObj', hHome⟩ := isLocalObj_iff.mp hLocal
  obtain rfl := some.inj (hObj.symm.trans hObj')
  rw [hParent] at hHome
  cases hHome

structure LocalBack (s t : DevDaxMemoryAllocator) : Prop where
  sound : t.Sound
  arenas : t.arenas = s.arenas
  length : t.objs.length = s.objs.length
  pool : ∀ id, s.isDevdaxObj id = true → t.objs[id]? = s.objs[id]?
  others : ∀ id, t.isDevdaxObj id = s.isDevdaxObj id

theorem LocalBack.refl (h : s.Sound) : LocalBack s s := ⟨h, rfl, rfl, fun _ _ => rfl, fun _ => rfl⟩

theorem LocalBack.hasLive (h : LocalBack s t) {serial : Nat} (hLive : s.HasLive serial) :
    t.HasLive serial := by
  obtain ⟨obj, hObj, hValid, hParent⟩ := hLive
  obtain ⟨id, hId⟩ := getElem?_of_mem hObj
  have hPool := h.pool id (isDevdaxObj_iff.mpr ⟨obj, serial, hId, hParent⟩)
  exact ⟨obj, mem_of_getElem? (hPool.trans hId), hValid, hParent⟩

theorem LocalBack.liveInPool_iff (h : LocalBack s t) : t.LiveInPool id ↔ s.LiveInPool id := by
  constructor
  · intro hLive
    have hPool := h.pool id (h.others id ▸ hLive.isDevdaxObj)
    unfold LiveInPool at hLive ⊢
    rwa [hPool] at hLive
  · intro hLive
    have hPool := h.pool id hLive.isDevdaxObj
    unfold LiveInPool at hLive ⊢
    rwa [hPool]

theorem LocalBack.of_released (hSound : t.Sound) (hArenas : t.arenas = s.arenas)
    {view : Nat → Nat} {ids : List Nat} (hReleased : Released view ids s.objs t.objs)
    (hMine : ∀ id ∈ ids, s.isLocalObj id = true) : LocalBack s t where
  sound := hSound
  arenas := hArenas
  length := hReleased.length_eq
  pool id hPool := hReleased.getElem?_of_not_mem fun hMem => not_isLocalObj hPool (hMine id hMem)
  others id := by
    unfold isDevdaxObj
    rw [hReleased id]
    split
    · cases s.objs[id]? <;> rfl
    · rfl

theorem Sound.freeLocal (h : s.Sound) {ids : List Nat}
    (hMine : ∀ id ∈ ids, s.isLocalObj id = true) : LocalBack s (s.freeLocal ids) := by
  unfold DevDaxMemoryAllocator.freeLocal
  cases hLocal : s.localAllocator with
  | none => exact .refl h
  | some a =>
    have hParents : ∀ id ∈ ids, ∀ obj, s.objs[id]? = some obj →
        obj.parentAllocator = .localAllocator := by
      intro id hId obj hObj
      obtain ⟨-, obj', hObj', hHome⟩ := isLocalObj_iff.mp (hMine id hId)
      obtain rfl := some.inj (hObj.symm.trans hObj')
      exact hHome
    have hReleased := released_batchedFree a s.objs ids
    have hServes := (h.atHome a hLocal).batchedFree fun id hId obj hObj =>
      servedLocally_iff.mpr (hParents id hId obj hObj)
    exact .of_released (h.releaseLocal hReleased hParents hServes) rfl hReleased hMine

theorem Sound.free_effect (h : s.Sound) (views : List String) (id : Nat) :
    Effect s (.free views id) (s.free views id).2 := by
  have hQuiet : s.isDevdaxObj id ≠ true → ∀ arena ∈ s.arenas, ¬ s.Tries arena (.free views id) :=
    fun hPool _ _ hTries => hPool hTries.1.isDevdaxObj
  have hPoolCase : Effect s (.free views id) (if s.isDevdaxObj id then
      s.freeDevdaxObj views id (dataPtrOf s.objs id) else (valueError foreignText, s)).2 := by
    by_cases hPool : s.isDevdaxObj id = true
    swap
    · rw [if_neg hPool]
      exact .nothing h (hQuiet hPool)
    rw [if_pos hPool]
    unfold freeDevdaxObj
    cases hRoute : arenaForObj s.arenas (dataPtrOf s.objs id) with
    | error e =>
      refine .nothing h fun arena _ hTries => ?_
      obtain ⟨found, hFound⟩ := (h.route_iff hPool).mpr hTries.1
      rw [hRoute] at hFound
      cases hFound
    | ok arena =>
      have hLive := (h.route_iff hPool).mp ⟨arena, hRoute⟩
      obtain ⟨hArena, hParent⟩ := h.route_parent hPool hRoute
      obtain ⟨obj, -, hObj, -⟩ := isDevdaxObj_iff.mp hPool
      have hBack := h.takeBack_free hObj hArena (hParent obj hObj)
      exact .reaped _ (fun a => and_iff_right hLive) hBack.sound hBack.arenas
        hBack.released.length_eq rfl
  unfold DevDaxMemoryAllocator.free
  cases hLocal : s.localAllocator with
  | none => exact hPoolCase
  | some a =>
    cases hHome : s.isLocalObj id with
    | false => exact hPoolCase
    | true =>
      have hParents : ∀ i ∈ [id], ∀ obj, s.objs[i]? = some obj →
          obj.parentAllocator = .localAllocator := by
        intro i hi obj hObj
        obtain rfl := mem_singleton.mp hi
        obtain ⟨-, obj', hObj', hAt⟩ := isLocalObj_iff.mp hHome
        obtain rfl := some.inj (hObj.symm.trans hObj')
        exact hAt
      have hReleased := released_free a s.objs id
      have hServes := (h.atHome a hLocal).free fun obj hObj =>
        servedLocally_iff.mpr (hParents id mem_cons_self obj hObj)
      have hBack : LocalBack s { s with
          localAllocator := some (a.free s.objs id).1, objs := (a.free s.objs id).2 } := by
        refine .of_released (h.releaseLocal hReleased hParents hServes) rfl hReleased ?_
        intro i hi
        rwa [mem_singleton.mp hi]
      exact .kept (hQuiet fun hPool => not_isLocalObj hPool hHome) hBack.sound hBack.arenas
        hBack.length fun serial => hBack.hasLive

theorem count_eq_length_iff (s : DevDaxMemoryAllocator) (ids : List Nat) :
    (ids.filter s.isLocalObj).length + (ids.filter s.isDevdaxObj).length = ids.length ↔
      ∀ id ∈ ids, s.isLocalObj id = true ∨ s.isDevdaxObj id = true := by
  have hSublist : (ids.filter s.isDevdaxObj).Sublist (ids.filter fun id => !s.isLocalObj id) := by
    apply monotone_filter_right
    intro id hPool
    rw [Bool.eq_false_iff.mpr (not_isLocalObj hPool)]
    rfl
  have hLength : (ids.filter s.isLocalObj).length + (ids.filter fun id => !s.isLocalObj id).length =
      ids.length := by
    rw [← length_append]
    exact (filter_append_perm s.isLocalObj ids).length_eq
  constructor
  · intro hCount id hId
    have hEq := hSublist.eq_of_length (by omega)
    by_cases hLocal : s.isLocalObj id = true
    · exact Or.inl hLocal
    · have hMem : id ∈ ids.filter fun id => !s.isLocalObj id :=
        mem_filter.mpr ⟨hId, by rw [Bool.eq_false_iff.mpr hLocal]; rfl⟩
      rw [← hEq] at hMem
      exact Or.inr (mem_filter.mp hMem).2
  · intro hAll
    have hEq : ids.filter s.isDevdaxObj = ids.filter fun id => !s.isLocalObj id := by
      apply filter_congr
      intro id hId
      rcases hAll id hId with hLocal | hPool
      · rw [hLocal]
        exact Bool.eq_false_iff.mpr fun hPool => not_isLocalObj hPool hLocal
      · rw [hPool, Bool.eq_false_iff.mpr (not_isLocalObj hPool)]
        rfl
    rw [hEq, hLength]

theorem Sound.batchedFree_effect (h : s.Sound) (views : List String) (ids : List Nat) :
    Effect s (.batchedFree views ids) (s.batchedFree views ids).2 := by
  unfold DevDaxMemoryAllocator.batchedFree
  dsimp only
  by_cases hForeign : (ids.filter s.isLocalObj).length + (ids.filter s.isDevdaxObj).length ≠
      ids.length
  · rw [if_pos hForeign]
    refine .nothing h fun arena _ hTries => hForeign ?_
    apply (count_eq_length_iff s ids).mpr
    intro id hId
    exact (hTries.1 id hId).imp_right LiveInPool.isDevdaxObj
  rw [if_neg hForeign]
  have hKinds := (count_eq_length_iff s ids).mp (not_not.mp hForeign)
  have hBack : LocalBack s
      (if (ids.filter s.isLocalObj).isEmpty then s else s.freeLocal (ids.filter s.isLocalObj)) := by
    split
    · exact .refl h
    · exact h.freeLocal fun id hId => (mem_filter.mp hId).2
  generalize (if (ids.filter s.isLocalObj).isEmpty then s
    else s.freeLocal (ids.filter s.isLocalObj)) = mid at hBack ⊢
  have hKept : (∀ arena ∈ s.arenas, ¬ s.Tries arena (.batchedFree views ids)) →
      Effect s (.batchedFree views ids) mid := fun hQuiet =>
    .kept hQuiet hBack.sound hBack.arenas hBack.length fun serial => hBack.hasLive
  have hPool : ∀ id ∈ ids.filter s.isDevdaxObj, mid.isDevdaxObj id = true := by
    intro id hId
    rw [hBack.others id]
    exact (mem_filter.mp hId).2
  by_cases hEmpty : (ids.filter s.isDevdaxObj).isEmpty = true
  · rw [if_pos hEmpty]
    refine hKept fun arena _ hTries => ?_
    obtain ⟨-, ⟨id, hId, hLive⟩, -⟩ := hTries
    have hMem := mem_filter.mpr ⟨hId, hLive.isDevdaxObj⟩
    rw [List.isEmpty_iff.mp hEmpty] at hMem
    cases hMem
  rw [if_neg hEmpty]
  have hResolves := hBack.sound.exists_resolve_iff hPool
  unfold batchedFreeDevdaxObjs
  cases hResolve : mid.resolve (ids.filter s.isDevdaxObj) with
  | error e =>
    refine hKept fun arena _ hTries => ?_
    obtain ⟨resolved, hOk⟩ := hResolves.mpr fun id hId => by
      rcases hTries.1 id (mem_filter.mp hId).1 with hLocal | hLive
      · exact absurd hLocal (not_isLocalObj (mem_filter.mp hId).2)
      · exact hBack.liveInPool_iff.mpr hLive
    rw [hResolve] at hOk
    cases hOk
  | ok resolved =>
    have hLive := hResolves.mp ⟨resolved, hResolve⟩
    obtain ⟨freed, hTaken⟩ := hBack.sound.takeBack_resolved hPool hResolve
    refine .reaped _ ?_ hTaken.sound ?_ (hTaken.released.length_eq.trans hBack.length) rfl
    · intro arena
      refine ⟨fun hTries => hTries.2.2, fun hDraining => ⟨?_, ?_, hDraining⟩⟩
      · intro id hId
        refine (hKinds id hId).imp_right fun hAt => ?_
        exact hBack.liveInPool_iff.mp (hLive id (mem_filter.mpr ⟨hId, hAt⟩))
      · have hSome : ids.filter s.isDevdaxObj ≠ [] := mt List.isEmpty_iff.mpr hEmpty
        obtain ⟨id, hId⟩ := exists_mem_of_ne_nil _ hSome
        exact ⟨id, (mem_filter.mp hId).1, hBack.liveInPool_iff.mp (hLive id hId)⟩
    · rw [← hBack.arenas]
      exact hTaken.arenas

theorem Sound.addDevice_effect (h : s.Sound) {devicePath : String} {sizeInBytes : Nat}
    {mapping : Result Nat} (hProper : s.Proper (.addDevice devicePath sizeInBytes mapping)) :
    Effect s (.addDevice devicePath sizeInBytes mapping)
      (s.call (.addDevice devicePath sizeInBytes mapping)) := by
  have hQuiet : ∀ arena ∈ s.arenas,
      ¬ s.Tries arena (.addDevice devicePath sizeInBytes mapping) := fun _ _ hTries => hTries
  unfold call
  dsimp only
  cases hAdd : s.addDevice devicePath sizeInBytes mapping with
  | error e => exact .nothing h hQuiet
  | ok s' =>
    obtain ⟨_, -, hAdd⟩ := bind_eq_ok.mp hAdd
    obtain ⟨_, -, hAdd⟩ := bind_eq_ok.mp hAdd
    obtain ⟨_, hMapped, hAdd⟩ := bind_eq_ok.mp hAdd
    obtain ⟨basePtr, rfl, hAdd⟩ := bind_eq_ok.mp hAdd
    obtain rfl := Except.ok.inj hAdd
    rw [rejectIf_eq_ok, List.any_eq_false] at hMapped
    have hPath : ∀ arena ∈ s.arenas, arena.devicePath ≠ devicePath :=
      fun arena hArena hEq => hMapped arena hArena (decide_eq_true hEq)
    exact .added _ hQuiet (h.add hPath hProper.1 hProper.2) rfl rfl rfl

theorem Sound.removeDevice_effect (h : s.Sound) (views : List String) (devicePath : String) :
    Effect s (.removeDevice views devicePath) (s.call (.removeDevice views devicePath)) := by
  unfold call removeDevice
  dsimp only
  cases hFind : s.arenas.find? fun arena => decide (arena.devicePath = devicePath) with
  | none =>
    refine .nothing h fun arena hArena hTries => ?_
    exact find?_eq_none.mp hFind arena hArena (decide_eq_true hTries.1)
  | some arena =>
    have hArena := mem_of_find?_eq_some hFind
    have hPath : arena.devicePath = devicePath := of_decide_eq_true
      (find?_some (p := fun a : DevDaxArena => decide (a.devicePath = devicePath)) hFind)
    have hOnly : ∀ a ∈ s.arenas, a.devicePath = devicePath → a = arena := by
      intro a ha hEq
      rcases h.eq_or_apart ha hArena with hSame | hApart
      · exact hSame
      · exact absurd (hEq.trans hPath.symm) hApart.devicePath
    dsimp only
    cases hPrimary : arena.isPrimary with
    | true =>
      refine .nothing h fun a ha hTries => ?_
      have hFalse := hTries.2.1
      rw [hOnly a ha hTries.1, hPrimary] at hFalse
      cases hFalse
    | false =>
      refine .drained arena hArena ?_ rfl
      intro a ha
      constructor
      · intro hTries
        exact ⟨hOnly a ha hTries.1, hTries.2.2⟩
      · rintro ⟨rfl, hView⟩
        exact ⟨hPath, hPrimary, hView⟩

theorem Sound.effect (h : s.Sound) (hProper : s.Proper c) : Effect s c (s.call c) := by
  cases c with
  | allocate rawSize =>
    obtain ⟨hSound, hServing⟩ := h.allocate hProper
    exact .served (fun _ _ hTries => hTries) hSound hServing
  | batchedAllocate rawSize batchSize =>
    unfold call
    rcases h.batchedAllocate hProper batchSize with ⟨hNone, -⟩ |
      ⟨ids, t, hSome, hSound, hServing, -⟩
    · simp only [hNone]
      exact .nothing h fun _ _ hTries => hTries
    · simp only [hSome]
      exact .served (fun _ _ hTries => hTries) hSound hServing
  | free views id => exact h.free_effect views id
  | batchedFree views ids => exact h.batchedFree_effect views ids
  | addDevice devicePath sizeInBytes mapping => exact h.addDevice_effect hProper
  | removeDevice views devicePath => exact h.removeDevice_effect views devicePath

theorem Effect.sound (h : s.Sound) (hEffect : Effect s c t) : t.Sound := by
  cases hEffect with
  | served _ hSound _ => exact hSound
  | kept _ hSound _ _ _ => exact hSound
  | reaped freed _ hSound _ _ hResult =>
    rw [hResult]
    exact hSound.reapDraining c.views
  | added _ _ hSound _ _ _ => exact hSound
  | drained arena _ _ hResult =>
    rw [hResult]
    exact h.drain c.views arena.serial

theorem Effect.fromActive (hEffect : Effect s c t) (hNew : s.objs.length ≤ id)
    {obj : TensorMemoryObj PoolParent} (hObj : t.objs[id]? = some obj) {serial : Nat}
    (hParent : obj.parentAllocator = .devDax serial) :
    ∃ arena ∈ s.arenas, arena.serial = serial ∧ arena.state = .active := by
  have hNone : t.objs.length = s.objs.length → ∃ arena ∈ s.arenas, arena.serial = serial ∧
      arena.state = .active := by
    intro hLength
    rw [getElem?_eq_none (hLength ▸ hNew)] at hObj
    cases hObj
  cases hEffect with
  | served _ _ hServing =>
    obtain ⟨new, hObjs, hFrom⟩ := hServing.objs
    rw [hObjs, getElem?_append_right hNew] at hObj
    exact hFrom obj (mem_of_getElem? hObj) serial hParent
  | kept _ _ _ hLength _ => exact hNone hLength
  | reaped freed _ _ _ hLength hResult =>
    rw [hResult] at hNone
    exact hNone hLength
  | added _ _ _ _ _ hObjs => exact hNone (congrArg List.length hObjs)
  | drained _ _ _ hResult =>
    rw [hResult] at hNone
    exact hNone rfl

/-- An arena leaves the pool exactly when the call tries it and no live object is left. -/
theorem Effect.unmapped_iff (h : s.Sound) (hEffect : Effect s c t) (hArena : arena ∈ s.arenas) :
    t.Unmapped arena ↔ s.Tries arena c ∧ ¬ t.HasLive arena.serial := by
  have hStill : ∀ a ∈ t.arenas, a.serial = arena.serial → ¬ s.Tries arena c →
      (t.Unmapped arena ↔ s.Tries arena c ∧ ¬ t.HasLive arena.serial) := by
    intro a ha hSerial hQuiet
    exact iff_of_false (fun hGone => hGone a ha hSerial) fun hTries => hQuiet hTries.1
  cases hEffect with
  | served hQuiet _ hServing =>
    obtain ⟨allocator, hMem⟩ := hServing.arenas.exists_right hArena
    exact hStill _ hMem rfl (hQuiet arena hArena)
  | kept hQuiet _ hArenas _ _ => exact hStill arena (hArenas ▸ hArena) rfl (hQuiet arena hArena)
  | added _ hQuiet _ hArenas _ _ =>
    refine hStill arena ?_ rfl (hQuiet arena hArena)
    rw [hArenas]
    exact mem_append_left _ hArena
  | reaped freed hTries hSound hArenas hLength hResult =>
    obtain ⟨allocator, hMem⟩ := hArenas.exists_right hArena
    have hGone := hSound.unmapped_filterMap_iff
      (f := DevDaxArena.maybeReap c.views) (fun _ _ => maybeReap_stays) hMem
    rw [maybeReap_eq_none, hSound.idle_iff hMem] at hGone
    rw [hResult, hTries arena]
    exact hGone.trans ⟨fun hAll => ⟨⟨hAll.1, hAll.2.2⟩, hAll.2.1⟩,
      fun hAll => ⟨hAll.1.1, hAll.2, hAll.1.2⟩⟩
  | drained first hFirst hTries hResult =>
    have hGone := h.unmapped_filterMap_iff
      (f := drainStep c.views first.serial) (fun _ _ => drainStep_stays) hArena
    rw [drainStep_eq_none, h.idle_iff hArena] at hGone
    rw [hResult, hTries arena hArena]
    refine hGone.trans ⟨fun hAll => ⟨⟨h.serial_inj hArena hFirst hAll.1, hAll.2.2⟩, hAll.2.1⟩, ?_⟩
    rintro ⟨⟨rfl, hView⟩, hIdle⟩
    exact ⟨rfl, hIdle, hView⟩

def Settled (s : DevDaxMemoryAllocator) : Prop :=
  ∀ arena ∈ s.arenas, arena.state = .draining → s.HasLive arena.serial

theorem Effect.settled (h : s.Sound) (hEffect : Effect s c t) (hViews : c.views = [])
    (hSettled : s.Settled) : t.Settled := by
  have hReap : ∀ mid : DevDaxMemoryAllocator, mid.Sound → ∀ old ∈ mid.arenas,
      DevDaxArena.maybeReap [] { old with state := .draining } ≠ none →
      mid.HasLive old.serial := by
    intro mid hMid old hOld hKept
    by_contra hIdle
    apply hKept
    rw [maybeReap_eq_none]
    exact ⟨rfl, (hMid.idle_iff hOld).mpr hIdle, not_mem_nil⟩
  cases hEffect with
  | served _ _ hServing =>
    obtain ⟨new, hObjs, -⟩ := hServing.objs
    intro b hb hDraining
    obtain ⟨a, ha, hEq⟩ := hServing.arenas.exists_left hb
    rw [hEq] at hDraining ⊢
    obtain ⟨obj, hObj, hLive⟩ := hSettled a ha hDraining
    rw [HasLive, hObjs]
    exact ⟨obj, mem_append_left _ hObj, hLive⟩
  | kept _ _ hArenas _ hLive =>
    intro a ha hDraining
    rw [hArenas] at ha
    exact hLive _ (hSettled a ha hDraining)
  | added arena _ _ hArenas hActive hObjs =>
    intro a ha hDraining
    rw [hArenas] at ha
    rw [HasLive, hObjs]
    rcases mem_append.mp ha with ha | ha
    · exact hSettled a ha hDraining
    · obtain rfl := mem_singleton.mp ha
      rw [hActive] at hDraining
      cases hDraining
  | reaped freed _ hSound _ _ hResult =>
    rw [hResult, hViews]
    intro a ha hDraining
    obtain ⟨old, hOld, hSome⟩ := mem_filterMap.mp ha
    obtain rfl := maybeReap_nil hSome
    apply hReap freed hSound a hOld
    rw [← hDraining, hSome]
    exact some_ne_none a
  | drained first hFirst _ hResult =>
    rw [hResult, hViews]
    intro a ha hDraining
    obtain ⟨old, hOld, hSome⟩ := mem_filterMap.mp ha
    split at hSome
    · obtain rfl := maybeReap_nil hSome
      apply hReap s h old hOld
      rw [hSome]
      exact some_ne_none _
    · obtain rfl := some.inj hSome
      exact hSettled old hOld hDraining

def Reached (calls : List DevDaxCall) (s : DevDaxMemoryAllocator) : Prop :=
  ∃ alignBytes localSize devicePath size basePtr, 0 < alignBytes ∧ 0 < basePtr ∧
    Run (Run.Under Proper fun s c t => s.call c = t)
      (init alignBytes localSize devicePath size basePtr) calls s

theorem Sound.call (h : s.Sound) (hProper : s.Proper c) : (s.call c).Sound :=
  (h.effect hProper).sound h

theorem Reached.sound {calls : List DevDaxCall} (h : Reached calls s) : s.Sound := by
  obtain ⟨alignBytes, localSize, devicePath, size, basePtr, hAlign, hBase, hRun⟩ := h
  refine Run.invariant ?_ hRun (sound_init hAlign localSize devicePath size hBase)
  rintro s c t hSound ⟨hProper, rfl⟩
  exact hSound.call hProper

theorem Reached.settled {calls : List DevDaxCall} (h : Reached calls s)
    (hViews : ∀ c ∈ calls, c.views = []) : s.Settled := by
  obtain ⟨alignBytes, localSize, devicePath, size, basePtr, hAlign, hBase, hRun⟩ := h
  have hStart : (init alignBytes localSize devicePath size basePtr).Settled := by
    intro arena hArena hDraining
    obtain rfl := mem_singleton.mp hArena
    cases hDraining
  refine (Run.invariant (I := fun s => s.Sound ∧ s.Settled) ?_ (hRun.under_labels hViews)
    ⟨sound_init hAlign localSize devicePath size hBase, hStart⟩).2
  rintro s c t ⟨hSound, hSettled⟩ ⟨hNoViews, hProper, rfl⟩
  exact ⟨hSound.call hProper, (hSound.effect hProper).settled hSound hNoViews hSettled⟩

/-- In every state of the pool: a call serves from arenas that are active, unmaps an arena
exactly when it tries it and no live object is left, and finds for every live object the arena
that served it. As long as no views are exported no idle arena is left behind. -/
theorem drain_lifecycle {calls : List DevDaxCall} (h : Reached calls s) {c : DevDaxCall}
    (hProper : s.Proper c) :
    (∀ (id : Nat) (obj : TensorMemoryObj PoolParent) (serial : Nat), s.objs.length ≤ id →
        (s.call c).objs[id]? = some obj → obj.parentAllocator = .devDax serial →
        ∃ arena ∈ s.arenas, arena.serial = serial ∧ arena.state = .active) ∧
      (∀ arena ∈ s.arenas, (s.call c).Unmapped arena ↔
        s.Tries arena c ∧ ¬ (s.call c).HasLive arena.serial) ∧
      (∀ obj ∈ s.objs, obj.valid = true → ∀ serial, obj.parentAllocator = .devDax serial →
        ∃ arena ∈ s.arenas, arena.serial = serial ∧ arena.contains obj.dataPtr = true ∧
          arenaForObj s.arenas obj.dataPtr = .ok arena) ∧
      ((∀ call ∈ calls, call.views = []) → s.Settled) := by
  have hSound := h.sound
  have hEffect := hSound.effect hProper
  refine ⟨?_, ?_, ?_, h.settled⟩
  · intro id obj serial hNew hObj hParent
    exact hEffect.fromActive hNew hObj hParent
  · intro arena hArena
    exact hEffect.unmapped_iff hSound hArena
  · intro obj hObj hValid serial hParent
    exact hSound.arenaForObj_live hObj hValid hParent

/-- A second device is drained while one of its blocks is in use. -/
def drainCalls : List DevDaxCall :=
  [.addDevice "/dev/dax1.0" 8192 (.ok 65536), .batchedAllocate 4096 3,
    .removeDevice [] "/dev/dax1.0"]

def drainState : DevDaxMemoryAllocator :=
  drainCalls.foldl call (init 4096 none "/dev/dax0.0" 8192 4096)

theorem drainState_reached : Reached drainCalls drainState := by
  refine ⟨4096, none, "/dev/dax0.0", 8192, 4096, by decide, by decide, ?_⟩
  refine (((Run.nil _).snoc ⟨⟨by decide, ?_⟩, rfl⟩).snoc ⟨Nat.zero_lt_succ 4095, rfl⟩).snoc
    ⟨trivial, rfl⟩
  intro arena hArena
  obtain rfl := mem_singleton.mp hArena
  exact Or.inl (by decide)

theorem drain_lifecycle_last_free :
    (drainState.arenas.map fun arena => (arena.serial, arena.state)) =
        [(0, .active), (1, .draining)] ∧
      (drainState.call (.free [] 2)).arenas.map DevDaxArena.serial = [0] ∧
      ∀ arena ∈ drainState.arenas, (drainState.call (.free [] 2)).Unmapped arena ↔
        drainState.Tries arena (.free [] 2) ∧
          ¬ (drainState.call (.free [] 2)).HasLive arena.serial :=
  ⟨by decide, by decide, (drain_lifecycle drainState_reached (c := .free [] 2) trivial).2.1⟩

theorem not_unmapped_exported :
    ¬ ∀ (calls : List DevDaxCall) (s : DevDaxMemoryAllocator), Reached calls s →
      ∀ arena ∈ s.arenas, arena.state = .draining → s.HasLive arena.serial := by
  intro hAll
  let calls : List DevDaxCall :=
    [.addDevice "/dev/dax1.0" 8192 (.ok 65536), .removeDevice ["/dev/dax1.0"] "/dev/dax1.0"]
  let s := calls.foldl call (init 4096 none "/dev/dax0.0" 8192 4096)
  have hReached : Reached calls s := by
    refine ⟨4096, none, "/dev/dax0.0", 8192, 4096, by decide, by decide, ?_⟩
    refine ((Run.nil _).snoc ⟨⟨by decide, ?_⟩, rfl⟩).snoc ⟨trivial, rfl⟩
    intro arena hArena
    obtain rfl := List.mem_singleton.mp hArena
    exact Or.inl (by decide)
  have hArena : (⟨1, "/dev/dax1.0", 8192, 65536, ⟨0, .init 8192 4096, 0⟩, false, .draining⟩ :
      DevDaxArena) ∈ s.arenas := by decide
  obtain ⟨obj, hObj, -⟩ := hAll calls s hReached _ hArena rfl
  cases hObj

end DevDaxMemoryAllocator

end LMCache
