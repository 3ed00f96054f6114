import LMCache.Prefetch.RequestInvariant
import LMCache.L1.Transitions
import LMCache.Storage.StoreController

/-!
# Load tasks

The end of `_transition_to_load_phase` of the prefetch controller: the buffers are reserved
one object group at a time, each group with its own layout, and then every adapter of the
plan gets one load task with all its keys and their buffers. A load of which a buffer could
not be reserved is given up as a whole.
-/

namespace LMCache.Storage

open Lib Serde InFlightPrefetchRequest List Dict

/-- What the load phase of a request meets: the request when its lookups are done, the live
adapters, and, at the reservation of an object group, the manager and the answer of the
allocator. -/
structure LoadScene where
  request : InFlightPrefetchRequest ObjectKey
  config : PrefetchConfig ObjectKey
  routing : List Nat
  l1 : Nat → L1Manager ObjectKey
  outcome : Nat → AllocOutcome
  groups_by_id : config.objectGroupId = Keys.KeyFields.objectGroupId
  locks_sized : request.l1Readlocks.size = request.numKeys
  lookups_sized : ∀ a bm, request.lookupResults.get? a = some bm → bm.size = request.numKeys

/-- `_submit_load_tasks`; a key without a buffer would stop the loop. -/
def submitLoadTasks (keys : List ObjectKey) (writeReservedObjs : Dict ObjectKey MemoryObj) :
    List (Nat × Bitmap) → List (Nat × Request)
  | [] => []
  | (adapterIdx, bitmap) :: rest =>
    match (bitmap.gather keys).mapM writeReservedObjs.get? with
    | none => []
    | some perAdapterObjs =>
      (adapterIdx, ⟨.load, bitmap.gather keys, perAdapterObjs⟩) ::
        submitLoadTasks keys writeReservedObjs rest

namespace LoadScene

variable (s : LoadScene) (groupLayoutDescs : Dict Nat MemoryLayoutDesc)

def phase : LoadPhase :=
  loadPhase s.request.l1Readlocks s.request.numKeys s.request.spec.policy s.request.spec.attn
    s.request.lookupResults s.routing

def trimmedPlan : LoadPlan := s.phase.trimmedPlan

/-- The reservation of one group: the layout it asks for and the buffers it gets. A group
without a layout raises. -/
def reserveGroup (group : List ObjectKey) :
    Option (MemoryLayoutDesc × List (ObjectKey × MemoryObj)) := do
  let key ← group.head?
  let gid := s.config.objectGroupId key
  let gld ← groupLayoutDescs.get? gid
  let gr := ((s.l1 gid).reserveWrite group
    (s.request.isTemporary s.config s.trimmedPlan group) .new (s.outcome gid)).reply
  some (gld, grantedBuffers group (.results gr))

def reserveLoadBuffers : Option (List (MemoryLayoutDesc × List (ObjectKey × MemoryObj))) :=
  (s.request.reserveGroups s.config s.trimmedPlan).mapM (s.reserveGroup groupLayoutDescs)

/-- The load tasks that `_transition_to_load_phase` submits. -/
def loadTasks : List (Nat × Request) :=
  if s.trimmedPlan.entries.isEmpty then []
  else
    match s.reserveLoadBuffers groupLayoutDescs with
    | none => []
    | some reservations =>
      let reserved := reservations.flatMap Prod.snd
      if reserved.length < (s.request.keysToReserve s.trimmedPlan).length then []
      else submitLoadTasks s.request.spec.keys (Dict.ofList reserved) s.trimmedPlan.entries

def Allocates (layoutOf : MemoryObj → MemoryLayoutDesc) : Prop :=
  ∀ reservations, s.reserveLoadBuffers groupLayoutDescs = some reservations →
    ∀ reservation ∈ reservations, ∀ buffer ∈ reservation.2, layoutOf buffer.2 = reservation.1

end LoadScene

theorem mem_submitLoadTasks {keys : List ObjectKey} {objs : Dict ObjectKey MemoryObj}
    {entries : List (Nat × Bitmap)} {task : Nat × Request}
    (h : task ∈ submitLoadTasks keys objs entries) :
    ∃ bitmap, (task.1, bitmap) ∈ entries ∧ task.2.keys = bitmap.gather keys ∧
      task.2.keys.mapM objs.get? = some task.2.objects := by
  induction entries with
  | nil => cases h
  | cons entry rest ih =>
    obtain ⟨adapterIdx, bitmap⟩ := entry
    rw [submitLoadTasks] at h
    split at h
    · cases h
    · rename_i perAdapterObjs hObjs
      rcases mem_cons.mp h with rfl | hRest
      · exact ⟨bitmap, mem_cons_self, rfl, hObjs⟩
      · obtain ⟨bitmap', hMem, hTask⟩ := ih hRest
        exact ⟨bitmap', mem_cons_of_mem _ hMem, hTask⟩

theorem exists_loadTask {keys : List ObjectKey} {objs : Dict ObjectKey MemoryObj}
    {entries : List (Nat × Bitmap)} {adapterIdx : Nat} {bitmap : Bitmap}
    (hBuffers : ∀ entry ∈ entries, ∀ k ∈ entry.2.gather keys, ∃ obj, objs.get? k = some obj)
    (h : (adapterIdx, bitmap) ∈ entries) :
    ∃ task ∈ submitLoadTasks keys objs entries, task.2.keys = bitmap.gather keys ∧
      task.2.keys.mapM objs.get? = some task.2.objects := by
  induction entries with
  | nil => cases h
  | cons entry rest ih =>
    obtain ⟨a, bm⟩ := entry
    obtain ⟨perAdapterObjs, hObjs⟩ := exists_mapM (hBuffers (a, bm) mem_cons_self)
    rw [submitLoadTasks, hObjs]
    rcases mem_cons.mp h with hHead | hRest
    · obtain ⟨rfl, rfl⟩ := Prod.mk.inj hHead
      exact ⟨_, mem_cons_self, rfl, hObjs⟩
    · obtain ⟨task, hTask, hHolds⟩ :=
        ih (fun e he => hBuffers e (mem_cons_of_mem _ he)) hRest
      exact ⟨task, mem_cons_of_mem _ hTask, hHolds⟩

namespace LoadScene

variable {s : LoadScene} {groupLayoutDescs : Dict Nat MemoryLayoutDesc}

theorem reserveGroup_buffer {group : List ObjectKey} {gld : MemoryLayoutDesc}
    {buffers : List (ObjectKey × MemoryObj)}
    (hGroup : group ∈ s.request.reserveGroups s.config s.trimmedPlan)
    (hReserve : s.reserveGroup groupLayoutDescs group = some (gld, buffers)) {k : ObjectKey}
    {obj : MemoryObj} (hBuffer : (k, obj) ∈ buffers) :
    groupLayoutDescs.get? k.objectGroupId = some gld := by
  unfold reserveGroup at hReserve
  obtain ⟨key, hHead, hReserve⟩ := Option.bind_eq_some_iff.mp hReserve
  obtain ⟨gld', hDesc, hReserve⟩ := Option.bind_eq_some_iff.mp hReserve
  obtain ⟨rfl, rfl⟩ := Prod.mk.inj (Option.some.inj hReserve)
  have hk : k ∈ group :=
    (grantedBuffers_sublist group _).subset (mem_map.mpr ⟨_, hBuffer, rfl⟩)
  have hSame : s.config.objectGroupId k = s.config.objectGroupId key :=
    key_eq_of_mem_splitBy hGroup hk (mem_of_mem_head? hHead)
  rw [s.groups_by_id] at hSame hDesc
  rw [hSame]
  exact hDesc

/-- Every object of a load task is the buffer of a retained key, with the layout of the key's
object group. -/
theorem loadTasks_objects {layoutOf : MemoryObj → MemoryLayoutDesc}
    (hAllocates : s.Allocates groupLayoutDescs layoutOf) {task : Nat × Request}
    (hTask : task ∈ s.loadTasks groupLayoutDescs) {obj : MemoryObj} (hObj : obj ∈ task.2.objects) :
    ∃ k ∈ s.phase.retained.gather s.request.spec.keys,
      groupLayoutDescs.get? k.objectGroupId = some (layoutOf obj) := by
  unfold loadTasks at hTask
  split at hTask
  · cases hTask
  · split at hTask
    · cases hTask
    · rename_i reservations hReservations
      dsimp only at hTask
      split at hTask
      · cases hTask
      · obtain ⟨bitmap, hEntry, hKeys, hObjs⟩ := mem_submitLoadTasks hTask
        obtain ⟨k, hk, hGet⟩ := (mapM_eq_some hObjs).1 obj hObj
        rw [hKeys] at hk
        obtain ⟨i, hTest, hi⟩ := Bitmap.mem_gather.mp hk
        have hCovers : s.trimmedPlan.Covers i :=
          ⟨task.1, bitmap, get?_eq_some_iff.mpr hEntry, hTest⟩
        obtain ⟨hPlan, -, -⟩ := trimmedPlan_spec s.request.spec.policy s.request.spec.attn
          s.routing s.locks_sized s.lookups_sized s.request.spec.keys_fill
        refine ⟨k, Bitmap.mem_gather.mpr ⟨i, ((hPlan i).mp hCovers).1, hi⟩, ?_⟩
        obtain ⟨⟨gld, buffers⟩, hReservation, hBuffer⟩ :=
          mem_flatMap.mp (mem_of_get?_ofList hGet)
        obtain ⟨group, hGroup, hReserve⟩ := (mapM_eq_some hReservations).1 _ hReservation
        rw [hAllocates reservations hReservations _ hReservation _ hBuffer]
        exact reserveGroup_buffer hGroup hReserve hBuffer

end LoadScene

theorem reserveWrite_of_absent {m : L1Manager ObjectKey} {group : List ObjectKey}
    (hGroup : group.Nodup) (hAbsent : ∀ k ∈ group, m.objects.get? k = none)
    {isTemporary : List Bool} (hLength : isTemporary.length = group.length) :
    (m.reserveWrite group isTemporary .new .success).reply =
      Dict.ofList (((group.zip isTemporary).zip (List.range' m.memory.allocated group.length)).map
        fun a => (a.1.1, (L1Error.success, some a.2))) := by
  have hMissing : m.missing (group.zip isTemporary) = group.zip isTemporary := by
    refine filter_eq_self.mpr fun p hp => ?_
    rw [hAbsent p.1 (of_mem_zip hp).1]
    rfl
  have hFst : (group.zip isTemporary).map Prod.fst = group := map_fst_zip hLength.ge
  have hDecided : L1Manager.decidedWrites (Dict.updateEach
      (L1Manager.probeWriteKey .new m.nowMs) group m.objects).1 = [] := by
    rw [L1Manager.decidedWrites_eq hGroup, filterMap_eq_nil_iff]
    intro k hk
    rw [hAbsent k hk]
    rfl
  have hNeeded := L1Manager.needToAllocate_eq (m := m) (group.zip isTemporary) .new
  have hZip : (group.zip isTemporary).length = group.length := by
    rw [length_zip, hLength, Nat.min_self]
  rw [hMissing, hFst] at hNeeded
  simp only [L1Manager.reserveWrite, hFst, hNeeded, hDecided, hZip, nil_append]
  by_cases hEmpty : group.length = 0
  · obtain rfl := length_eq_zero_iff.mp hEmpty
    rfl
  · rw [if_neg hEmpty]
    rfl

theorem grantedBuffers_of_absent {m : L1Manager ObjectKey} {group : List ObjectKey}
    (hGroup : group.Nodup) (hAbsent : ∀ k ∈ group, m.objects.get? k = none)
    {isTemporary : List Bool} (hLength : isTemporary.length = group.length) :
    let buffers := grantedBuffers group
      (.results (m.reserveWrite group isTemporary .new .success).reply)
    (∀ k ∈ group, ∃ obj, (k, obj) ∈ buffers) ∧
      ∀ buffer ∈ buffers, m.memory.allocated ≤ buffer.2 ∧
        buffer.2 < m.memory.allocated + group.length := by
  intro buffers
  have hReply := reserveWrite_of_absent hGroup hAbsent hLength
  have hEntry : ∀ {k r}, (m.reserveWrite group isTemporary .new .success).reply.get? k = some r →
      ∃ obj, r = (.success, some obj) ∧ m.memory.allocated ≤ obj ∧
        obj < m.memory.allocated + group.length := by
    intro k r hGet
    rw [hReply] at hGet
    obtain ⟨a, ha, hEq⟩ := mem_map.mp (mem_of_get?_ofList hGet)
    obtain ⟨-, rfl⟩ := Prod.mk.inj hEq
    obtain ⟨hLo, hHi⟩ := mem_range'_1.mp (of_mem_zip ha).2
    exact ⟨a.2, rfl, hLo, hHi⟩
  constructor
  · intro k hk
    have hMem : k ∈ (((group.zip isTemporary).zip
        (List.range' m.memory.allocated group.length)).map
          fun a => (a.1.1, (L1Error.success, some a.2))).map Prod.fst := by
      have hFst : (((group.zip isTemporary).zip
          (List.range' m.memory.allocated group.length)).map
            fun a => (a.1.1, (L1Error.success, some a.2))).map Prod.fst = group := by
        have hFirst : (((group.zip isTemporary).zip
            (List.range' m.memory.allocated group.length)).map
              fun a => (a.1.1, (L1Error.success, some a.2))).map Prod.fst =
            (((group.zip isTemporary).zip
              (List.range' m.memory.allocated group.length)).map Prod.fst).map Prod.fst := by
          simp only [map_map, Function.comp_def]
        rw [hFirst, map_fst_zip (by simp [hLength]), map_fst_zip hLength.ge]
      rw [hFst]
      exact hk
    obtain ⟨⟨k', r⟩, hk', rfl⟩ := mem_map.mp hMem
    obtain ⟨r', hGet⟩ := exists_get?_ofList hk'
    rw [← hReply] at hGet
    obtain ⟨obj, rfl, -⟩ := hEntry hGet
    exact ⟨obj, mem_filterMap.mpr ⟨k', hk, by rw [hGet]⟩⟩
  · intro buffer hBuffer
    obtain ⟨k, -, hk⟩ := mem_filterMap.mp hBuffer
    split at hk
    · rename_i obj hGet
      cases hk
      obtain ⟨obj', hEq, hBounds⟩ := hEntry hGet
      cases hEq
      exact hBounds
    · cases hk

namespace LoadScene

variable {s : LoadScene} {groupLayoutDescs : Dict Nat MemoryLayoutDesc}

theorem mem_keysToReserve {adapterIdx : Nat} {bitmap : Bitmap}
    (hEntry : s.trimmedPlan.get? adapterIdx = some bitmap) {k : ObjectKey}
    (hk : k ∈ bitmap.gather s.request.spec.keys) :
    k ∈ s.request.keysToReserve s.trimmedPlan := by
  obtain ⟨-, hPlanned, -⟩ := trimmedPlan_spec s.request.spec.policy s.request.spec.attn
    s.routing s.locks_sized s.lookups_sized s.request.spec.keys_fill
  obtain ⟨i, hTest, hi⟩ := Bitmap.mem_gather.mp hk
  exact Bitmap.mem_gather.mpr ⟨i, (merge_covers_iff fun a bm hGet => (hPlanned a bm hGet).1).mpr
    ⟨adapterIdx, bitmap, hEntry, hTest⟩, hi⟩

/-- Nothing stands in the way of the reservations: no key is in L1 and memory is free. -/
structure Unhindered (s : LoadScene) : Prop where
  absent : ∀ gid k, (s.l1 gid).objects.get? k = none
  served : ∀ gid, s.outcome gid = .success

theorem nodup_of_group {group : List ObjectKey}
    (hGroup : group ∈ s.request.reserveGroups s.config s.trimmedPlan) : group.Nodup := by
  have hAll := (s.request.reserveGroups_perm s.config s.trimmedPlan).nodup_iff.mpr
    (s.request.keysToReserve_nodup s.trimmedPlan)
  exact hAll.sublist (sublist_flatten_of_mem hGroup)

theorem Unhindered.reserveGroup (h : s.Unhindered) {group : List ObjectKey}
    (hGroup : group ∈ s.request.reserveGroups s.config s.trimmedPlan)
    (hDescs : ∀ k ∈ s.request.keysToReserve s.trimmedPlan,
      ∃ gld, groupLayoutDescs.get? k.objectGroupId = some gld) :
    ∃ gid gld buffers, s.reserveGroup groupLayoutDescs group = some (gld, buffers) ∧
      groupLayoutDescs.get? gid = some gld ∧ (∀ k ∈ group, ∃ obj, (k, obj) ∈ buffers) ∧
      ∀ buffer ∈ buffers, (s.l1 gid).memory.allocated ≤ buffer.2 ∧
        buffer.2 < (s.l1 gid).memory.allocated + group.length := by
  obtain ⟨key, rest, rfl⟩ := exists_cons_of_ne_nil (ne_nil_of_mem_splitBy hGroup)
  have hKey : key ∈ s.request.keysToReserve s.trimmedPlan :=
    (s.request.reserveGroups_perm s.config s.trimmedPlan).mem_iff.mp
      (mem_flatten.mpr ⟨_, hGroup, mem_cons_self⟩)
  obtain ⟨gld, hDesc⟩ := hDescs key hKey
  have hLength : (s.request.isTemporary s.config s.trimmedPlan (key :: rest)).length =
      (key :: rest).length := by simp [isTemporary]
  obtain ⟨hAll, hBlock⟩ := grantedBuffers_of_absent (m := s.l1 key.objectGroupId)
    (nodup_of_group hGroup) (fun k _ => h.absent _ k) hLength
  refine ⟨key.objectGroupId, gld, _, ?_, hDesc, hAll, hBlock⟩
  simp only [LoadScene.reserveGroup, s.groups_by_id, head?_cons, Option.bind_eq_bind,
    Option.bind_some, hDesc, h.served]

/-- When nothing stands in the way, every adapter of the plan gets a task with a buffer for
each of its keys, and the buffer has the layout of the key's object group. -/
theorem Unhindered.exists_task (h : s.Unhindered)
    (hDescs : ∀ k ∈ s.request.keysToReserve s.trimmedPlan,
      ∃ gld, groupLayoutDescs.get? k.objectGroupId = some gld)
    {layoutOf : MemoryObj → MemoryLayoutDesc} (hAllocates : s.Allocates groupLayoutDescs layoutOf)
    {adapterIdx : Nat} {bitmap : Bitmap} (hEntry : s.trimmedPlan.get? adapterIdx = some bitmap) :
    ∃ task ∈ s.loadTasks groupLayoutDescs, ∀ k ∈ bitmap.gather s.request.spec.keys,
      ∃ obj ∈ task.2.objects, groupLayoutDescs.get? k.objectGroupId = some (layoutOf obj) := by
  have hMem := get?_eq_some_iff.mp hEntry
  obtain ⟨reservations, hReservations⟩ : ∃ reservations,
      s.reserveLoadBuffers groupLayoutDescs = some reservations := by
    refine exists_mapM fun group hGroup => ?_
    obtain ⟨-, gld, buffers, hReserve, -⟩ := h.reserveGroup hGroup hDescs
    exact ⟨_, hReserve⟩
  obtain ⟨hFrom, hTo⟩ := mapM_eq_some hReservations
  -- every planned key has a buffer
  have hBuffer : ∀ k ∈ s.request.keysToReserve s.trimmedPlan,
      ∃ obj, (k, obj) ∈ reservations.flatMap Prod.snd := by
    intro k hk
    obtain ⟨group, hGroup, hkGroup⟩ := mem_flatten.mp
      ((s.request.reserveGroups_perm s.config s.trimmedPlan).mem_iff.mpr hk)
    obtain ⟨reservation, hReservation, hReserve⟩ := hTo group hGroup
    obtain ⟨-, gld, buffers, hReserve', -, hAll, -⟩ := h.reserveGroup hGroup hDescs
    obtain rfl := Option.some.inj (hReserve.symm.trans hReserve')
    obtain ⟨obj, hObj⟩ := hAll k hkGroup
    exact ⟨obj, mem_flatMap.mpr ⟨_, hReservation, hObj⟩⟩
  have hEnough : ¬(reservations.flatMap Prod.snd).length <
      (s.request.keysToReserve s.trimmedPlan).length := by
    have hSub : s.request.keysToReserve s.trimmedPlan ⊆
        (reservations.flatMap Prod.snd).map Prod.fst := by
      intro k hk
      obtain ⟨obj, hObj⟩ := hBuffer k hk
      exact mem_map.mpr ⟨_, hObj, rfl⟩
    have hLe := (subperm_of_subset (s.request.keysToReserve_nodup s.trimmedPlan) hSub).length_le
    rw [length_map] at hLe
    omega
  have hTasks : s.loadTasks groupLayoutDescs = submitLoadTasks s.request.spec.keys
      (Dict.ofList (reservations.flatMap Prod.snd)) s.trimmedPlan.entries := by
    have hSome : s.trimmedPlan.entries.isEmpty = false := by
      cases hEntries : s.trimmedPlan.entries with
      | nil => simp [hEntries] at hMem
      | cons => rfl
    simp only [loadTasks, hSome, Bool.false_eq_true, if_false, hReservations, hEnough]
  have hReady : ∀ entry ∈ s.trimmedPlan.entries, ∀ k ∈ entry.2.gather s.request.spec.keys,
      ∃ obj, (Dict.ofList (reservations.flatMap Prod.snd)).get? k = some obj := by
    intro entry hEntry k hk
    obtain ⟨obj, hObj⟩ := hBuffer k (mem_keysToReserve (get?_eq_some_iff.mpr hEntry) hk)
    exact exists_get?_ofList hObj
  obtain ⟨task, hTask, hKeys, hObjs⟩ := exists_loadTask hReady hMem
  refine ⟨task, hTasks ▸ hTask, fun k hk => ?_⟩
  obtain ⟨obj, hObj, hGet⟩ := (mapM_eq_some hObjs).2 k (hKeys ▸ hk)
  obtain ⟨⟨gld, buffers⟩, hReservation, hIn⟩ :=
    mem_flatMap.mp (mem_of_get?_ofList hGet)
  obtain ⟨group, hGroup, hReserve⟩ := hFrom _ hReservation
  refine ⟨obj, hObj, ?_⟩
  rw [hAllocates reservations hReservations _ hReservation _ hIn]
  exact reserveGroup_buffer hGroup hReserve hIn

end LoadScene

end LMCache.Storage
