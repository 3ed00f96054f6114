import LMCache.Lib.Tally
import LMCache.Serde.Wrapper

/-!
# Store tasks

`StoreController` copies the keys that finished writing from L1 to the L2 adapters: it groups the
keys by the fields that are taken to fix the shape of an object, asks the policy for the targets
of each group, and submits one store task per group and adapter with the objects that it could
read-lock. Other threads may call the L1 manager between the reservations.
-/

namespace LMCache.Storage

open Lib Serde List Dict

inductive TorchDtype
  | float16 | bfloat16 | float32 | float64
  | int8 | uint8 | int16 | int32 | int64 | bool
  | float8E4m3fn | float8E4m3fnuz | float8E5m2 | float8E5m2fnuz
deriving DecidableEq, Repr

structure MemoryLayoutDesc where
  shapes : List (List Nat)
  dtypes : List TorchDtype
  same_length : shapes.length = dtypes.length
deriving DecidableEq

/-- What `_alloc_temp_buffers` needs of a task, because it sizes every temporary buffer from
the first object. -/
def OneLayout (layoutOf : MemoryObj → MemoryLayoutDesc) (task : Request) : Prop :=
  ∀ obj ∈ task.objects, ∀ obj' ∈ task.objects, layoutOf obj = layoutOf obj'

/-- The key fields that the controller groups by: `model_name` and `kv_rank`. -/
abbrev ShapeFields := String × Int

def shapeFields (key : ObjectKey) : ShapeFields := (key.modelName, key.kvRank)

def groupKeysByShape (keys : List ObjectKey) : Dict ShapeFields (List ObjectKey) :=
  collect shapeFields keys

structure AdapterDescriptor where
  index : Nat

/-- `DefaultStorePolicy.select_store_targets`, which `BufferOnlyStorePolicy` inherits: all
keys to all adapters. -/
def selectStoreTargets (keys : List ObjectKey) (adapters : List AdapterDescriptor) :
    Dict Nat (List ObjectKey) :=
  Dict.ofList (adapters.map fun ad => (ad.index, keys))

structure StoreController where
  /-- The ids of the attached adapters. -/
  l2Adapters : List Nat
  adapterDescriptors : Dict Nat AdapterDescriptor
  draining : List Nat

def successfulReads (targetKeys : List ObjectKey)
    (readResults : Dict ObjectKey L1OperationResult) : List (ObjectKey × MemoryObj) :=
  targetKeys.filterMap fun key =>
    match readResults.get? key with
    | some (.success, some obj) => some (key, obj)
    | _ => none

namespace StoreController

/-- The tasks submitted for one group; `l1 adapter` is the manager that the reservation for
`adapter` meets. -/
def submitStoreForSingleShape (c : StoreController) (l1 : Nat → L1Manager ObjectKey)
    (keys : List ObjectKey) : List (Nat × Request) :=
  let routingDescriptors :=
    (c.adapterDescriptors.entries.filter fun e => e.1 ∉ c.draining).map Prod.snd
  (selectStoreTargets keys routingDescriptors).entries.filterMap fun target =>
    if target.2.isEmpty then none
    else if target.1 ∉ c.l2Adapters then none
    else
      let successful :=
        successfulReads target.2 ((l1 target.1).reserveRead target.2 1).reply
      if successful.isEmpty then none
      else some (target.1, ⟨.store, successful.map Prod.fst, successful.map Prod.snd⟩)

def processNewKeys (c : StoreController) (l1 : ShapeFields → Nat → L1Manager ObjectKey)
    (keys : List ObjectKey) : List (Nat × Request) :=
  (groupKeysByShape keys).entries.flatMap fun group =>
    c.submitStoreForSingleShape (l1 group.1) group.2

end StoreController

section Reads

variable {m : L1Manager ObjectKey} {keys : List ObjectKey} {k : ObjectKey} {readLocks : Nat}
  {obj : MemoryObj}

theorem object_of_reserveRead
    (h : (m.reserveRead keys readLocks).reply.get? k = some (.success, some obj)) :
    ∃ e, m.objects.get? k = some e ∧ e.memoryObj = obj := by
  -- the loop changes locks only, also for a key that occurs twice
  have hKeeps : ∀ o : Option L1ObjectState,
      o.map (·.memoryObj) = (m.objects.get? k).map (·.memoryObj) →
      (L1Manager.reserveReadKey m.nowMs (validateReadLocks readLocks) k o).2.map (·.memoryObj) =
        (m.objects.get? k).map (·.memoryObj) := by
    intro o ho
    rw [← ho]
    cases o with
    | none => rfl
    | some e =>
      rw [L1Manager.reserveReadKey]
      split <;> rfl
  obtain ⟨o, ho, hReply, -⟩ := updateEach_mem _
    (P := fun o => o.map (·.memoryObj) = (m.objects.get? k).map (·.memoryObj))
    (Q := fun _ => True) hKeeps (fun _ _ => trivial) rfl (mem_of_get?_ofList h)
  cases o with
  | none => cases hReply
  | some e =>
    rw [L1Manager.reserveReadKey] at hReply
    split at hReply
    · cases hReply
    · cases hReply
      obtain ⟨e', he', hObj⟩ := Option.map_eq_some_iff.mp ho.symm
      exact ⟨e', he', hObj⟩

theorem reserveRead_of_readable {e : L1ObjectState} (hk : k ∈ keys)
    (he : m.objects.get? k = some e) (hRead : e.availableForRead m.nowMs = true) :
    (m.reserveRead keys readLocks).reply.get? k = some (.success, some e.memoryObj) := by
  have hKeeps : ∀ o : Option L1ObjectState,
      (∃ e', o = some e' ∧ e'.memoryObj = e.memoryObj ∧ e'.availableForRead m.nowMs = true) →
      ∃ e', (L1Manager.reserveReadKey m.nowMs (validateReadLocks readLocks) k o).2 = some e' ∧
        e'.memoryObj = e.memoryObj ∧ e'.availableForRead m.nowMs = true := by
    rintro o ⟨e', rfl, hObj, hFree⟩
    simp only [L1Manager.reserveReadKey, hFree, Bool.not_true, Bool.false_eq_true, if_false]
    exact ⟨_, rfl, hObj, hFree⟩
  have hOutcome : k ∈ (Dict.updateEach
      (L1Manager.reserveReadKey m.nowMs (validateReadLocks readLocks)) keys
      m.objects).1.map Prod.fst := by
    rw [updateEach_keys]
    exact hk
  obtain ⟨⟨k', r⟩, hMem, rfl⟩ := mem_map.mp hOutcome
  obtain ⟨r', hr'⟩ := exists_get?_ofList hMem
  obtain ⟨o, ⟨e', rfl, hObj, hFree⟩, rfl, -⟩ := updateEach_mem _
    (P := fun o => ∃ e', o = some e' ∧ e'.memoryObj = e.memoryObj ∧
      e'.availableForRead m.nowMs = true)
    (Q := fun _ => True) hKeeps (fun _ _ => trivial) ⟨e, he, rfl, hRead⟩
    (mem_of_get?_ofList hr')
  have hGranted : (L1Manager.reserveReadKey m.nowMs (validateReadLocks readLocks) k'
      (some e')).1 = (.success, some e.memoryObj) := by
    simp only [L1Manager.reserveReadKey, hFree, Bool.not_true, Bool.false_eq_true, if_false, hObj]
  exact hr'.trans (congrArg some hGranted)

theorem mem_successfulReads {targetKeys : List ObjectKey}
    {readResults : Dict ObjectKey L1OperationResult} :
    (k, obj) ∈ successfulReads targetKeys readResults ↔
      k ∈ targetKeys ∧ readResults.get? k = some (.success, some obj) := by
  unfold successfulReads
  rw [mem_filterMap]
  constructor
  · rintro ⟨k', hk', h⟩
    split at h
    · rename_i obj' hGet
      cases h
      exact ⟨hk', hGet⟩
    · cases h
  · rintro ⟨hk, hGet⟩
    exact ⟨k, hk, by rw [hGet]⟩

end Reads

namespace StoreController

variable {c : StoreController} {keys : List ObjectKey}

theorem mem_selectStoreTargets {adapters : List AdapterDescriptor} {target : Nat × List ObjectKey} :
    target ∈ (selectStoreTargets keys adapters).entries ↔
      target.2 = keys ∧ ∃ ad ∈ adapters, ad.index = target.1 := by
  have hKeys : ∀ {index targetKeys},
      (selectStoreTargets keys adapters).get? index = some targetKeys →
      targetKeys = keys ∧ ∃ ad ∈ adapters, ad.index = index := by
    intro index targetKeys hGet
    obtain ⟨ad, hAd, hEq⟩ := mem_map.mp (mem_of_get?_ofList hGet)
    obtain ⟨rfl, rfl⟩ := Prod.mk.inj hEq
    exact ⟨rfl, ad, hAd, rfl⟩
  rw [← get?_eq_some_iff (k := target.1) (v := target.2)]
  refine ⟨hKeys, ?_⟩
  rintro ⟨hAll, ad, hAd, hIndex⟩
  obtain ⟨targetKeys, hGet⟩ := exists_get?_ofList
    (mem_map_of_mem (f := fun ad : AdapterDescriptor => (ad.index, keys)) hAd)
  rw [hIndex] at hGet
  rw [hAll]
  exact hGet.trans (congrArg some (hKeys hGet).1)

variable {l1 : Nat → L1Manager ObjectKey} {task : Nat × Request}

theorem submitStoreForSingleShape_objects (hTask : task ∈ c.submitStoreForSingleShape l1 keys)
    {obj : MemoryObj} (hObj : obj ∈ task.2.objects) :
    ∃ k ∈ keys, ∃ e, (l1 task.1).objects.get? k = some e ∧ e.memoryObj = obj := by
  unfold submitStoreForSingleShape at hTask
  obtain ⟨⟨index, targetKeys⟩, hTarget, hSubmit⟩ := mem_filterMap.mp hTask
  obtain ⟨rfl, -⟩ := mem_selectStoreTargets.mp hTarget
  dsimp only at hSubmit
  split at hSubmit
  · cases hSubmit
  · split at hSubmit
    · cases hSubmit
    · split at hSubmit
      · cases hSubmit
      · cases hSubmit
        obtain ⟨⟨k, obj'⟩, hRead, rfl⟩ := mem_map.mp hObj
        obtain ⟨hk, hGet⟩ := mem_successfulReads.mp hRead
        exact ⟨k, hk, object_of_reserveRead hGet⟩

theorem processNewKeys_objects {l1 : ShapeFields → Nat → L1Manager ObjectKey}
    (hTask : task ∈ c.processNewKeys l1 keys) :
    ∃ fields, ∀ obj ∈ task.2.objects, ∃ k ∈ keys, shapeFields k = fields ∧
      ∃ e, (l1 fields task.1).objects.get? k = some e ∧ e.memoryObj = obj := by
  unfold processNewKeys at hTask
  obtain ⟨⟨fields, group⟩, hGroup, hSubmit⟩ := mem_flatMap.mp hTask
  obtain ⟨-, rfl⟩ := get?_collect_eq_some_iff.mp (get?_eq_some_iff.mpr hGroup)
  refine ⟨fields, fun obj hObj => ?_⟩
  obtain ⟨k, hk, hEntry⟩ := submitStoreForSingleShape_objects hSubmit hObj
  obtain ⟨hMem, hFields⟩ := mem_filter.mp hk
  exact ⟨k, hMem, of_decide_eq_true hFields, hEntry⟩

variable {ad : AdapterDescriptor}

theorem exists_task_of_group {adapter : Nat} (hAd : c.adapterDescriptors.get? adapter = some ad)
    (hLive : adapter ∉ c.draining) (hAttached : ad.index ∈ c.l2Adapters) {k : ObjectKey}
    (hk : k ∈ keys)
    (hReadable : ∀ k ∈ keys, ∃ e, (l1 ad.index).objects.get? k = some e ∧
      e.availableForRead (l1 ad.index).nowMs = true)
    : ∃ task ∈ c.submitStoreForSingleShape l1 keys, ∀ k ∈ keys, ∀ e,
      (l1 ad.index).objects.get? k = some e → e.memoryObj ∈ task.2.objects := by
  have hRead : ∀ k ∈ keys, ∀ e, (l1 ad.index).objects.get? k = some e →
      (k, e.memoryObj) ∈ successfulReads keys ((l1 ad.index).reserveRead keys 1).reply := by
    intro k hk e he
    obtain ⟨e', he', hFree⟩ := hReadable k hk
    obtain rfl := Option.some.inj (he.symm.trans he')
    exact mem_successfulReads.mpr ⟨hk, reserveRead_of_readable hk he hFree⟩
  obtain ⟨e, he, -⟩ := hReadable k hk
  have hKeys : keys.isEmpty = false := by
    cases keys with
    | nil => cases hk
    | cons => rfl
  have hSome : (successfulReads keys ((l1 ad.index).reserveRead keys 1).reply).isEmpty = false := by
    cases hList : successfulReads keys ((l1 ad.index).reserveRead keys 1).reply with
    | nil => simpa [hList] using hRead k hk e he
    | cons => rfl
  have hTarget : (ad.index, keys) ∈ (selectStoreTargets keys
      ((c.adapterDescriptors.entries.filter fun e => e.1 ∉ c.draining).map Prod.snd)).entries := by
    refine mem_selectStoreTargets.mpr ⟨rfl, ad, mem_map.mpr ⟨(adapter, ad), ?_, rfl⟩, rfl⟩
    exact mem_filter.mpr ⟨get?_eq_some_iff.mp hAd, decide_eq_true hLive⟩
  refine ⟨(ad.index, ⟨.store,
      (successfulReads keys ((l1 ad.index).reserveRead keys 1).reply).map Prod.fst,
      (successfulReads keys ((l1 ad.index).reserveRead keys 1).reply).map Prod.snd⟩),
    mem_filterMap.mpr ⟨_, hTarget, ?_⟩, ?_⟩
  · simp only [hKeys, hSome, hAttached, not_true_eq_false, if_false, Bool.false_eq_true]
  · intro k hk e he
    exact mem_map.mpr ⟨(k, e.memoryObj), hRead k hk e he, rfl⟩

/-- A live adapter gets, for every key, a task with the objects of all keys of the same model
and rank. -/
theorem exists_storeTask {l1 : ShapeFields → Nat → L1Manager ObjectKey} {adapter : Nat}
    (hAd : c.adapterDescriptors.get? adapter = some ad) (hLive : adapter ∉ c.draining)
    (hAttached : ad.index ∈ c.l2Adapters)
    (hReadable : ∀ fields, ∀ k ∈ keys, ∃ e, (l1 fields ad.index).objects.get? k = some e ∧
      e.availableForRead (l1 fields ad.index).nowMs = true)
    {k : ObjectKey} (hk : k ∈ keys) :
    ∃ task ∈ c.processNewKeys l1 keys, ∀ k' ∈ keys, shapeFields k' = shapeFields k →
      ∀ e, (l1 (shapeFields k) ad.index).objects.get? k' = some e →
        e.memoryObj ∈ task.2.objects := by
  have hSelf : k ∈ keys.filter fun k' => shapeFields k' = shapeFields k :=
    mem_filter.mpr ⟨hk, decide_eq_true rfl⟩
  have hGroup : (groupKeysByShape keys).get? (shapeFields k) =
      some (keys.filter fun k' => shapeFields k' = shapeFields k) :=
    get?_collect_eq_some_iff.mpr ⟨ne_nil_of_mem hSelf, rfl⟩
  obtain ⟨task, hTask, hObjects⟩ := exists_task_of_group hAd hLive hAttached hSelf
    fun k' hk' => hReadable (shapeFields k) k' (mem_filter.mp hk').1
  refine ⟨task, mem_flatMap.mpr ⟨_, get?_eq_some_iff.mp hGroup, hTask⟩, ?_⟩
  intro k' hk' hFields e he
  exact hObjects k' (mem_filter.mpr ⟨hk', decide_eq_true hFields⟩) e he

end StoreController

end LMCache.Storage
