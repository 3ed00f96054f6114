import LMCache.Serde.Wrapper

/-!
# Steps of the serde wrapper and of those around it

A call of `submit_store_task` or `submit_load_task` is a `Submission` that has come to some
point; the wrapper's thread is at a `DrainPoint`. Each point stands before one access to what
is shared, and the step makes that access and goes to the next point. What the outside decides
(random bytes, the outcome of an allocation, whether a call raises, the results of the
executor and of the inner adapter) is part of the label of the step.
-/

namespace LMCache.Serde

open Lib

/-- How far a call of `submit_store_task` or `submit_load_task` has come. -/
inductive SubmitPoint
  /-- Before `reserve_write` of `_alloc_temp_buffers`. -/
  | alloc
  /-- Before `finish_write` of `_release_write_temps`. -/
  | releaseWrite (tempKeys : List ObjectKey)
  /-- Before `delete` of `_release_write_temps`. -/
  | deleteTemps (tempKeys : List ObjectKey)
  /-- Before the locked section that submits to the processor or to the inner adapter. -/
  | register (tempKeys : List ObjectKey) (tempObjs : List MemoryObj)
  /-- That section raised. -/
  | unregister (tempKeys : List ObjectKey)
  /-- Before `_finalize_store` or `_finalize_load` with a failure. -/
  | finalize

/-- `_release_write_temps` and then the failure; no call is made for no keys. -/
def SubmitPoint.release : List ObjectKey → SubmitPoint
  | [] => .finalize
  | tempKeys => .releaseWrite tempKeys

structure Submission where
  request : Request
  point : SubmitPoint

def reserved (results : Dict ObjectKey L1OperationResult) (tempKey : ObjectKey) : Bool :=
  match results.get? tempKey with
  | some (.success, _) => true
  | _ => false

/-- The rest of `_alloc_temp_buffers`. -/
def SubmitPoint.afterAlloc (tempKeys : List ObjectKey)
    (results : Dict ObjectKey L1OperationResult) : SubmitPoint :=
  let successful := tempKeys.filter (reserved results)
  if successful.length ≠ tempKeys.length then .release successful
  else .register tempKeys (tempKeys.filterMap fun t => (results.get? t).bind Prod.snd)

inductive Notifier
  | serialize
  | innerStore
  | innerLoad
  | deserialize
deriving DecidableEq, Repr

/-- What is left of the loop of a `_drain` method. -/
inductive DrainLoop
  | serialize (pending : List Nat)
  | innerStore (completed : List (Nat × L2StoreResult))
  | innerLoad (pending : List Nat)
  | deserialize (pending : List Nat)

inductive DrainPoint
  | idle
  /-- The notifier was consumed; before the first access of its `_drain` method. -/
  | list (fd : Notifier)
  | loop (rest : DrainLoop)
  /-- `query_serialize_result` gave a result; before the pop of the reverse map. -/
  | serialized (serdeId : Nat) (result : Bool) (rest : DrainLoop)
  /-- Before `finish_write_and_reserve_read`. -/
  | handOver (id : Nat) (state : StoreTaskState) (rest : DrainLoop)
  /-- Before `inner.submit_store_task`. -/
  | submitStore (id : Nat) (state : StoreTaskState) (rest : DrainLoop)
  | registerStore (id innerId : Nat) (rest : DrainLoop)
  /-- `inner.query_load_result` gave a bitmap; before the pop of the reverse map. -/
  | innerLoaded (innerId : Nat) (bitmap : Bitmap) (rest : DrainLoop)
  /-- Before `submit_deserialize`. -/
  | submitDeserialize (id : Nat) (state : LoadTaskState) (rest : DrainLoop)
  | registerDeserialize (id serdeId : Nat) (rest : DrainLoop)
  /-- `query_deserialize_result` gave a result; before the pop of the reverse map. -/
  | deserialized (serdeId : Nat) (result : Bool) (rest : DrainLoop)
  /-- Before `finish_read` of the temporary buffers. -/
  | finishRead (id : Nat) (tempKeys : List ObjectKey) (done : Completion) (rest : DrainLoop)
  /-- Before `finish_write` of `_release_write_temps`. -/
  | releaseWrite (id : Nat) (tempKeys : List ObjectKey) (done : Completion) (rest : DrainLoop)
  /-- Before `delete` of `_release_write_temps`. -/
  | deleteTemps (id : Nat) (tempKeys : List ObjectKey) (done : Completion) (rest : DrainLoop)
  | finalize (id : Nat) (done : Completion) (rest : DrainLoop)

namespace DrainPoint

/-- `_release_write_temps` and then the completion. -/
def release (id : Nat) (done : Completion) (rest : DrainLoop) : List ObjectKey → DrainPoint
  | [] => .finalize id done rest
  | tempKeys => .releaseWrite id tempKeys done rest

/-- The wrapped task that the thread has taken out of a reverse map and not yet put back. -/
def current : DrainPoint → Option Nat
  | .handOver id _ _ | .submitStore id _ _ | .registerStore id _ _ | .submitDeserialize id _ _
  | .registerDeserialize id _ _ | .finishRead id _ _ _ | .releaseWrite id _ _ _
  | .deleteTemps id _ _ _ | .finalize id _ _ => some id
  | _ => none

end DrainPoint

namespace LoadTaskState

/-- The positions that the inner adapter loaded. -/
def selected (state : LoadTaskState) (bitmap : Bitmap) : List Nat :=
  (List.range state.keys.length).filter bitmap.test

/-- The deserialize task for these positions. -/
def deserializeJob (state : LoadTaskState) (id : Nat) : Job where
  owner := id
  keys := (state.selected state.loadBitmap).filterMap fun i => state.keys[i]?
  srcObjs := (state.selected state.loadBitmap).filterMap fun i => state.tempObjs[i]?
  dstObjs := (state.selected state.loadBitmap).filterMap fun i => state.dstObjs[i]?

end LoadTaskState

structure StoreController where
  /-- Keys of the listener's queue. -/
  pendingKeys : List ObjectKey
  /-- Target lists of the batch under way, one per adapter. -/
  targets : List (List ObjectKey)
  /-- Keys of the store tasks that are not finished. -/
  inFlightTasks : List (List ObjectKey)
  /-- Keys of every `submit_store_task` call. -/
  submitted : List (List ObjectKey)

namespace StoreController

def new : StoreController := ⟨[], [], [], []⟩

/-- `on_l1_keys_write_finished`; the other notifications are ignored. -/
def notified (c : StoreController) (events : List (L1Event ObjectKey)) : StoreController :=
  { c with
    pendingKeys := c.pendingKeys ++ events.flatMap fun
      | .writeFinished keys => keys
      | _ => [] }

/-- After `reserve_read` of a target list. -/
def submitStore (c : StoreController) (rest : List (List ObjectKey))
    (successfulKeys : List ObjectKey) : StoreController :=
  if successfulKeys.isEmpty then { c with targets := rest }
  else
    { c with
      targets := rest
      inFlightTasks := c.inFlightTasks ++ [successfulKeys]
      submitted := c.submitted ++ [successfulKeys] }

end StoreController

/-- Records of a run, which no step reads. -/
structure Records (V : Type) where
  requests : Dict Nat Request
  /-- What the objects of a task held when it was submitted. -/
  sources : Dict Nat (List V)
  /-- Temporary keys that were reserved for a task. -/
  tempKeys : Dict Nat (List ObjectKey)
  /-- Every key that was named in a call on the manager. -/
  known : List ObjectKey
  /-- Every key that `reserve_read` granted. -/
  readGrants : List ObjectKey
  /-- What `pop_completed_store_tasks` and `query_load_result` returned. -/
  reports : List (Nat × Completion)
  /-- Tasks of which an allocation, a submission, a serialization or a deserialization failed. -/
  failed : List Nat
  /-- Bitmaps of the inner load tasks. -/
  innerLoads : Dict Nat Bitmap
  /-- Destinations that were deserialized for a task. -/
  deserialized : Dict Nat (List MemoryObj)
  /-- What the successful inner store tasks stored: their bytes, and the objects they stand for. -/
  contents : Dict ObjectKey Bytes
  mapping : Dict ObjectKey V
  applied : List Nat
  /-- What the keys of a load task were mapped to when the inner adapter loaded. -/
  snapshots : Dict Nat (List (Option V))

namespace Records

variable {V : Type}

def new : Records V :=
  ⟨.empty, .empty, .empty, [], [], [], [], .empty, .empty, .empty, .empty, [], .empty⟩

def tempsOf (r : Records V) (id : Nat) : List ObjectKey := (r.tempKeys.get? id).getD []

def temps (r : Records V) : List ObjectKey := r.tempKeys.values.flatten

def called (r : Records V) (op : L1Op ObjectKey) (reply : L1Reply ObjectKey) : Records V :=
  { r with
    known := r.known ++ op.keys
    readGrants := r.readGrants ++
      match op, reply with
      | .reserveRead keys _, .results ret => keys.filter (reserved ret)
      | _, _ => [] }

def fail (r : Records V) (id : Nat) : Records V := { r with failed := id :: r.failed }

end Records

structure SerdeSystem (V : Type) where
  l1 : L1Manager ObjectKey
  wrapper : SerdeL2AdapterWrapper
  serde : AsyncSerdeProcessor
  inner : InnerAdapter
  /-- The calls of `submit_store_task` and `submit_load_task` under way. -/
  submissions : Dict Nat Submission
  drain : DrainPoint
  controller : StoreController
  /-- Contents of the temporary buffers. -/
  bytes : MemoryObj → Bytes
  /-- Contents of the objects of the callers. -/
  kv : MemoryObj → V
  records : Records V

/-- What the outside decides in a step of a submission. -/
structure Choice where
  random : List RandomBytes := []
  outcome : AllocOutcome := .success
  accepted : Bool := true

inductive Label (V : Type)
  | submit (request : Request)
  | submitCall (id : Nat) (choice : Choice)
  | popCompletedStoreTasks
  | queryLoadResult (id : Nat)
  /-- A caller writes one of its objects. -/
  | fill (obj : MemoryObj) (value : V)
  | wake (fd : Notifier)
  | drainCall (accepted : Bool)
  /-- The executor ends a task after as many objects as there are outputs. -/
  | serializeDone (serdeId : Nat) (outputs : List Bytes)
  | deserializeDone (serdeId : Nat) (outputs : List V)
  | innerStoreDone (innerId : Nat) (result : L2StoreResult)
  /-- The inner adapter ends a load task and leaves these contents in its buffers. -/
  | innerLoadDone (innerId : Nat) (bitmap : Bitmap) (buffers : List Bytes)
  | storePop (targets : List (List ObjectKey))
  | storeReserve
  | storeFinish (task : Nat)
  | client (op : L1Op ObjectKey)

/-- Write buffers one after the other. -/
def writeAll {β : Type} (writes : List (MemoryObj × β)) (memory : MemoryObj → β) : MemoryObj → β :=
  writes.foldl (fun m w => Function.update m w.1 w.2) memory

namespace SerdeSystem

variable {V : Type}

def init (m : L1Manager ObjectKey) (bytes : MemoryObj → Bytes) (kv : MemoryObj → V) :
    SerdeSystem V where
  l1 := m
  wrapper := .new
  serde := .new
  inner := .new
  submissions := .empty
  drain := .idle
  controller := .new
  bytes := bytes
  kv := kv
  records := .new

def l1Call (σ : SerdeSystem V) (op : L1Op ObjectKey) : SerdeSystem V :=
  { σ with
    l1 := (σ.l1.apply op).manager
    controller := σ.controller.notified (σ.l1.apply op).events
    records := σ.records.called op (σ.l1.apply op).reply }

def setPoint (σ : SerdeSystem V) (id : Nat) (s : Submission) (point : SubmitPoint) :
    SerdeSystem V :=
  { σ with submissions := σ.submissions.set id { s with point := point } }

def submit (σ : SerdeSystem V) (request : Request) : Option (SerdeSystem V) :=
  if request.keys.length ≠ request.objects.length then none
  else
    let wrappedId := σ.wrapper.nextTaskId
    let τ := { σ with wrapper := { σ.wrapper with nextTaskId := wrappedId + 1 } }
    match request.objects with
    -- `objects[0]` raises and the call returns no task
    | [] => some τ
    | _ :: _ => some { τ with
        submissions := τ.submissions.set wrappedId ⟨request, .alloc⟩
        records := { τ.records with
          requests := τ.records.requests.set wrappedId request
          sources := τ.records.sources.set wrappedId (request.objects.map τ.kv) } }

def allocTempBuffers (σ : SerdeSystem V) (id : Nat) (s : Submission) (random : List RandomBytes)
    (outcome : AllocOutcome) : SerdeSystem V :=
  let tempKeys := List.zipWith makeTempKey s.request.keys random
  let isTemporary := tempKeys.map fun _ => true
  let results := (σ.l1.reserveWrite tempKeys isTemporary .new outcome).reply
  let successful := tempKeys.filter (reserved results)
  let τ := σ.l1Call (.reserveWrite tempKeys isTemporary .new outcome)
  let records := { τ.records with tempKeys := τ.records.tempKeys.set id successful }
  { τ with
    records := if successful.length ≠ tempKeys.length then records.fail id else records
    submissions := τ.submissions.set id { s with point := .afterAlloc tempKeys results } }

/-- The locked section of `submit_store_task` and its two outcomes. -/
def registerStore (σ : SerdeSystem V) (id : Nat) (s : Submission) (tempKeys : List ObjectKey)
    (tempObjs : List MemoryObj) (accepted : Bool) : SerdeSystem V :=
  let state : StoreTaskState := ⟨s.request.keys, tempKeys, tempObjs⟩
  let w := { σ.wrapper with storeTasks := σ.wrapper.storeTasks.set id state }
  if accepted then
    { σ with
      wrapper := { w with serdeToStore := w.serdeToStore.set σ.serde.nextTaskId id }
      serde := σ.serde.submitSerialize ⟨id, s.request.keys, s.request.objects, tempObjs⟩
      submissions := σ.submissions.erase id }
  else
    { σ with
      wrapper := w
      submissions := σ.submissions.set id { s with point := .unregister tempKeys }
      records := σ.records.fail id }

/-- The locked section of `submit_load_task` and its two outcomes. -/
def registerLoad (σ : SerdeSystem V) (id : Nat) (s : Submission) (tempKeys : List ObjectKey)
    (tempObjs : List MemoryObj) (accepted : Bool) : SerdeSystem V :=
  let state : LoadTaskState :=
    ⟨s.request.keys, s.request.objects, tempKeys, tempObjs, Bitmap.zeros 0⟩
  let w := { σ.wrapper with loadTasks := σ.wrapper.loadTasks.set id state }
  if accepted then
    { σ with
      wrapper := { w with innerToLoad := w.innerToLoad.set σ.inner.nextTaskId id }
      inner := σ.inner.submitLoadTask ⟨id, s.request.keys, [], tempObjs⟩
      submissions := σ.submissions.erase id }
  else
    { σ with
      wrapper := w
      submissions := σ.submissions.set id { s with point := .unregister tempKeys }
      records := σ.records.fail id }

/-- `_store_tasks.pop` or `_load_tasks.pop` after an exception. -/
def unregister (σ : SerdeSystem V) (id : Nat) : TaskKind → SerdeSystem V
  | .store => { σ with
      wrapper := { σ.wrapper with storeTasks := σ.wrapper.storeTasks.erase id } }
  | .load => { σ with
      wrapper := { σ.wrapper with loadTasks := σ.wrapper.loadTasks.erase id } }

def submitCall (σ : SerdeSystem V) (id : Nat) (choice : Choice) : Option (SerdeSystem V) :=
  (σ.submissions.get? id).bind fun s =>
    match s.point with
    | .alloc =>
      if choice.random.length ≠ s.request.keys.length then none
      else some (σ.allocTempBuffers id s choice.random choice.outcome)
    | .releaseWrite tempKeys =>
      some ((σ.l1Call (.finishWrite tempKeys)).setPoint id s (.deleteTemps tempKeys))
    | .deleteTemps tempKeys =>
      some ((σ.l1Call (.delete tempKeys false)).setPoint id s .finalize)
    | .register tempKeys tempObjs =>
      match s.request.kind with
      | .store => some (σ.registerStore id s tempKeys tempObjs choice.accepted)
      | .load => some (σ.registerLoad id s tempKeys tempObjs choice.accepted)
    | .unregister tempKeys =>
      some ((σ.unregister id s.request.kind).setPoint id s (.release tempKeys))
    | .finalize =>
      some { σ with
        wrapper := σ.wrapper.finalize id s.request.failure
        submissions := σ.submissions.erase id }

def popCompletedStoreTasks (σ : SerdeSystem V) : SerdeSystem V :=
  { σ with
    wrapper := { σ.wrapper with completedStore := Dict.empty }
    records := { σ.records with
      reports := σ.records.reports ++
        σ.wrapper.completedStore.entries.map fun e => (e.1, .store e.2) } }

def queryLoadResult (σ : SerdeSystem V) (id : Nat) : SerdeSystem V :=
  match σ.wrapper.completedLoad.get? id with
  | none => σ
  | some bitmap =>
    { σ with
      wrapper := { σ.wrapper with completedLoad := σ.wrapper.completedLoad.erase id }
      records := { σ.records with reports := σ.records.reports ++ [(id, .load bitmap)] } }

def goto (σ : SerdeSystem V) (point : DrainPoint) : SerdeSystem V := { σ with drain := point }

/-- The notifier is readable. -/
def signaled (σ : SerdeSystem V) : Notifier → Bool
  | .serialize => σ.serde.serializeEfd
  | .innerStore => σ.inner.storeEfd
  | .innerLoad => σ.inner.loadEfd
  | .deserialize => σ.serde.deserializeEfd

def consumeFd (σ : SerdeSystem V) : Notifier → SerdeSystem V
  | .serialize => { σ with serde := { σ.serde with serializeEfd := false } }
  | .innerStore => { σ with inner := { σ.inner with storeEfd := false } }
  | .innerLoad => { σ with inner := { σ.inner with loadEfd := false } }
  | .deserialize => { σ with serde := { σ.serde with deserializeEfd := false } }

/-- The first access of the `_drain` methods. -/
def listPending (σ : SerdeSystem V) : Notifier → SerdeSystem V
  | .serialize => σ.goto (.loop (.serialize σ.wrapper.serdeToStore.keys))
  | .innerStore =>
    { σ with
      inner := { σ.inner with completedStore := Dict.empty }
      drain := .loop (.innerStore σ.inner.completedStore.entries) }
  | .innerLoad => σ.goto (.loop (.innerLoad σ.wrapper.innerToLoad.keys))
  | .deserialize => σ.goto (.loop (.deserialize σ.wrapper.serdeToLoad.keys))

/-- The head of a loop of `_drain_inner_store`: the locked pop of the reverse map. -/
def storeDone (σ : SerdeSystem V) (innerId : Nat) (result : L2StoreResult)
    (rest : DrainLoop) : SerdeSystem V :=
  match σ.wrapper.innerToStore.get? innerId with
  | none => σ.goto (.loop rest)
  | some id =>
    let τ := { σ with
      wrapper := { σ.wrapper with innerToStore := σ.wrapper.innerToStore.erase innerId } }
    match σ.wrapper.storeTasks.get? id with
    | some state => τ.goto (.finishRead id state.tempKeys (.store result) rest)
    | none => τ.goto (.finalize id (.store result) rest)

/-- The heads of the loops. -/
def drainLoop (σ : SerdeSystem V) : DrainLoop → SerdeSystem V
  | .serialize [] | .innerStore [] | .innerLoad [] | .deserialize [] => σ.goto .idle
  | .serialize (serdeId :: pending) =>
    match σ.serde.completedSerialize.get? serdeId with
    | none => σ.goto (.loop (.serialize pending))
    | some result =>
      { σ with
        serde := { σ.serde with
          completedSerialize := σ.serde.completedSerialize.erase serdeId }
        drain := .serialized serdeId result (.serialize pending) }
  | .innerStore ((innerId, result) :: completed) =>
    σ.storeDone innerId result (.innerStore completed)
  | .innerLoad (innerId :: pending) =>
    match σ.inner.completedLoad.get? innerId with
    | none => σ.goto (.loop (.innerLoad pending))
    | some bitmap =>
      { σ with
        inner := { σ.inner with completedLoad := σ.inner.completedLoad.erase innerId }
        drain := .innerLoaded innerId bitmap (.innerLoad pending) }
  | .deserialize (serdeId :: pending) =>
    match σ.serde.completedDeserialize.get? serdeId with
    | none => σ.goto (.loop (.deserialize pending))
    | some result =>
      { σ with
        serde := { σ.serde with
          completedDeserialize := σ.serde.completedDeserialize.erase serdeId }
        drain := .deserialized serdeId result (.deserialize pending) }

/-- `_drain_serialize` after the result of a task is known. -/
def serializeDone (σ : SerdeSystem V) (serdeId : Nat) (result : Bool) (rest : DrainLoop) :
    SerdeSystem V :=
  match σ.wrapper.serdeToStore.get? serdeId with
  | none => σ.goto (.loop rest)
  | some id =>
    let τ := { σ with
      wrapper := { σ.wrapper with serdeToStore := σ.wrapper.serdeToStore.erase serdeId } }
    match σ.wrapper.storeTasks.get? id with
    | none => τ.goto (.loop rest)
    | some state =>
      if result then τ.goto (.handOver id state rest)
      else τ.goto (.release id (.store none) rest state.tempKeys)

def submitInnerStore (σ : SerdeSystem V) (id : Nat) (state : StoreTaskState) (rest : DrainLoop)
    (accepted : Bool) : SerdeSystem V :=
  if accepted then
    { σ with
      inner := σ.inner.submitStoreTask ⟨id, state.keys, state.tempObjs, []⟩
      drain := .registerStore id σ.inner.nextTaskId rest }
  else
    { σ with
      drain := .finishRead id state.tempKeys (.store none) rest
      records := σ.records.fail id }

/-- `_drain_inner_load` after the bitmap of a task is known. -/
def loadDone (σ : SerdeSystem V) (innerId : Nat) (bitmap : Bitmap) (rest : DrainLoop) :
    SerdeSystem V :=
  match σ.wrapper.innerToLoad.get? innerId with
  | none => σ.goto (.loop rest)
  | some id =>
    let w := { σ.wrapper with innerToLoad := σ.wrapper.innerToLoad.erase innerId }
    match w.loadTasks.get? id with
    | none => { σ with wrapper := w, drain := .loop rest }
    | some state =>
      if (state.selected bitmap).isEmpty then
        { σ with wrapper := w, drain := .release id (.load bitmap) rest state.tempKeys }
      else
        let state := { state with loadBitmap := bitmap }
        { σ with
          wrapper := { w with loadTasks := w.loadTasks.set id state }
          drain := .submitDeserialize id state rest }

def submitInnerDeserialize (σ : SerdeSystem V) (id : Nat) (state : LoadTaskState)
    (rest : DrainLoop) (accepted : Bool) : SerdeSystem V :=
  if accepted then
    { σ with
      serde := σ.serde.submitDeserialize (state.deserializeJob id)
      drain := .registerDeserialize id σ.serde.nextTaskId rest }
  else
    { σ with
      drain := .release id (.load (Bitmap.zeros state.keys.length)) rest state.tempKeys
      records := σ.records.fail id }

/-- `_drain_deserialize` after the result of a task is known. -/
def deserializeDone (σ : SerdeSystem V) (serdeId : Nat) (result : Bool) (rest : DrainLoop) :
    SerdeSystem V :=
  match σ.wrapper.serdeToLoad.get? serdeId with
  | none => σ.goto (.loop rest)
  | some id =>
    let τ := { σ with
      wrapper := { σ.wrapper with serdeToLoad := σ.wrapper.serdeToLoad.erase serdeId } }
    match σ.wrapper.loadTasks.get? id with
    | none => τ.goto (.loop rest)
    | some state =>
      let finalBitmap := if result then state.loadBitmap else Bitmap.zeros state.keys.length
      τ.goto (.release id (.load finalBitmap) rest state.tempKeys)

def drainCall (σ : SerdeSystem V) (accepted : Bool) : Option (SerdeSystem V) :=
  match σ.drain with
  | .idle => none
  | .list fd => some (σ.listPending fd)
  | .loop rest => some (σ.drainLoop rest)
  | .serialized serdeId result rest => some (σ.serializeDone serdeId result rest)
  | .handOver id state rest =>
    some ((σ.l1Call (.finishWriteAndReserveRead state.tempKeys 1)).goto
      (.submitStore id state rest))
  | .submitStore id state rest => some (σ.submitInnerStore id state rest accepted)
  | .registerStore id innerId rest =>
    some { σ with
      wrapper := { σ.wrapper with innerToStore := σ.wrapper.innerToStore.set innerId id }
      drain := .loop rest }
  | .innerLoaded innerId bitmap rest => some (σ.loadDone innerId bitmap rest)
  | .submitDeserialize id state rest => some (σ.submitInnerDeserialize id state rest accepted)
  | .registerDeserialize id serdeId rest =>
    some { σ with
      wrapper := { σ.wrapper with serdeToLoad := σ.wrapper.serdeToLoad.set serdeId id }
      drain := .loop rest }
  | .deserialized serdeId result rest => some (σ.deserializeDone serdeId result rest)
  | .finishRead id tempKeys done rest =>
    some ((σ.l1Call (.finishRead tempKeys 1)).goto (.finalize id done rest))
  | .releaseWrite id tempKeys done rest =>
    some ((σ.l1Call (.finishWrite tempKeys)).goto (.deleteTemps id tempKeys done rest))
  | .deleteTemps id tempKeys done rest =>
    some ((σ.l1Call (.delete tempKeys false)).goto (.finalize id done rest))
  | .finalize id done rest =>
    some { σ with wrapper := σ.wrapper.finalize id done, drain := .loop rest }

def wake (σ : SerdeSystem V) (fd : Notifier) : Option (SerdeSystem V) :=
  match σ.drain with
  | .idle => if σ.signaled fd then some ((σ.consumeFd fd).goto (.list fd)) else none
  | _ => none

def endSerialize (codec : Codec V) (σ : SerdeSystem V) (serdeId : Nat) (outputs : List Bytes) :
    Option (SerdeSystem V) :=
  (σ.serde.serializing.get? serdeId).bind fun job =>
    if outputs.length ≤ job.keys.length ∧
        ((job.keys.zip job.srcObjs).zip outputs).all
          fun o => codec.serialize o.1.1 (σ.kv o.1.2) o.2 then
      let success := outputs.length == job.keys.length
      some { σ with
        serde := σ.serde.endSerialize serdeId success
        bytes := writeAll (job.dstObjs.zip outputs) σ.bytes
        records := if success then σ.records else σ.records.fail job.owner }
    else none

def endDeserialize (codec : Codec V) (σ : SerdeSystem V) (serdeId : Nat) (outputs : List V) :
    Option (SerdeSystem V) :=
  (σ.serde.deserializing.get? serdeId).bind fun job =>
    if outputs.length ≤ job.keys.length ∧
        ((job.keys.zip job.srcObjs).zip outputs).all
          fun o => codec.deserialize o.1.1 (σ.bytes o.1.2) o.2 then
      let success := outputs.length == job.keys.length
      let records := { σ.records with
        deserialized := σ.records.deserialized.set job.owner (job.dstObjs.take outputs.length) }
      some { σ with
        serde := σ.serde.endDeserialize serdeId success
        kv := writeAll (job.dstObjs.zip outputs) σ.kv
        records := if success then records else records.fail job.owner }
    else none

def endInnerStore (σ : SerdeSystem V) (innerId : Nat) (result : L2StoreResult) :
    Option (SerdeSystem V) :=
  (σ.inner.storing.get? innerId).map fun job =>
    let r := σ.records
    { σ with
      inner := σ.inner.endStore innerId result
      records :=
        if result.isSome then { r with
          contents := (job.keys.zip (job.srcObjs.map σ.bytes)).foldl
            (fun d e => d.set e.1 e.2) r.contents
          mapping := (job.keys.zip ((r.sources.get? job.owner).getD [])).foldl
            (fun d e => d.set e.1 e.2) r.mapping
          applied := job.owner :: r.applied }
        else r }

def endInnerLoad (σ : SerdeSystem V) (innerId : Nat) (bitmap : Bitmap) (buffers : List Bytes) :
    Option (SerdeSystem V) :=
  (σ.inner.loading.get? innerId).map fun job =>
    { σ with
      inner := σ.inner.endLoad innerId bitmap
      bytes := writeAll (job.dstObjs.zip buffers) σ.bytes
      records := { σ.records with
        innerLoads := σ.records.innerLoads.set job.owner bitmap
        snapshots := σ.records.snapshots.set job.owner
          (job.keys.map fun k => σ.records.mapping.get? k) } }

def storePop (σ : SerdeSystem V) (targets : List (List ObjectKey)) : Option (SerdeSystem V) :=
  if σ.controller.targets = [] ∧ ∀ keys ∈ targets, ∀ k ∈ keys, k ∈ σ.controller.pendingKeys then
    some { σ with controller := { σ.controller with pendingKeys := [], targets := targets } }
  else none

def storeReserve (σ : SerdeSystem V) : Option (SerdeSystem V) :=
  match σ.controller.targets with
  | [] => none
  | keys :: rest =>
    let results := (σ.l1.reserveRead keys 1).reply
    let τ := σ.l1Call (.reserveRead keys 1)
    some { τ with
      controller := τ.controller.submitStore rest (keys.filter (reserved results)) }

def storeFinish (σ : SerdeSystem V) (task : Nat) : Option (SerdeSystem V) :=
  (σ.controller.inFlightTasks[task]?).map fun keys =>
    let τ := σ.l1Call (.finishRead keys 1)
    { τ with
      controller := { τ.controller with
        inFlightTasks := τ.controller.inFlightTasks.eraseIdx task } }

def next (codec : Codec V) (σ : SerdeSystem V) : Label V → Option (SerdeSystem V)
  | .submit request => σ.submit request
  | .submitCall id choice => σ.submitCall id choice
  | .popCompletedStoreTasks => some σ.popCompletedStoreTasks
  | .queryLoadResult id => some (σ.queryLoadResult id)
  | .fill obj value => some { σ with kv := Function.update σ.kv obj value }
  | .wake fd => σ.wake fd
  | .drainCall accepted => σ.drainCall accepted
  | .serializeDone serdeId outputs => σ.endSerialize codec serdeId outputs
  | .deserializeDone serdeId outputs => σ.endDeserialize codec serdeId outputs
  | .innerStoreDone innerId result => σ.endInnerStore innerId result
  | .innerLoadDone innerId bitmap buffers => σ.endInnerLoad innerId bitmap buffers
  | .storePop targets => σ.storePop targets
  | .storeReserve => σ.storeReserve
  | .storeFinish task => σ.storeFinish task
  | .client op => some (σ.l1Call op)

def Step (codec : Codec V) (σ : SerdeSystem V) (label : Label V) (τ : SerdeSystem V) : Prop :=
  σ.next codec label = some τ

end SerdeSystem

end LMCache.Serde
