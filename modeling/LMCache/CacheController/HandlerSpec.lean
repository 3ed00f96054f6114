import LMCache.CacheController.System

/-!
# What a handler changes

The state of a worker's sync and the keys stored for its hot cache, before and after each
handler of the controller. A handler changes them only for the worker that the message names.
-/

namespace LMCache.CacheController

open Lib RegistryTree List

theorem keys_foldl_step (isFullSync : Bool) (ops : List KVOpEvent) (loop : OpLoop) :
    (ops.foldl (OpLoop.step isFullSync) loop).keys = ops.foldl KVOpEvent.apply loop.keys := by
  induction ops generalizing loop with
  | nil => rfl
  | cons op ops ih =>
    have hStep : (loop.step isFullSync op).keys = op.apply loop.keys := by
      unfold OpLoop.step
      split <;> rfl
    rw [foldl_cons, ih, hStep, foldl_cons]

namespace WorkerNode

variable (node : WorkerNode) (msg : BatchedKVOperationMsg) (isFullSync : Bool)

theorem getKvKeys_applyOperations (location : Location) :
    (node.applyOperations msg isFullSync).getKvKeys location =
      if msg.location = location then
        msg.operations.foldl KVOpEvent.apply (node.getKvKeys location)
      else node.getKvKeys location := by
  have hLoop : (node.runOperations msg isFullSync).keys =
      msg.operations.foldl KVOpEvent.apply (node.getKvKeys msg.location) :=
    keys_foldl_step isFullSync msg.operations _
  simp only [applyOperations, getKvKeys] at hLoop ⊢
  by_cases hLocation : msg.location = location
  · subst hLocation
    split
    · rename_i hEmpty
      rw [Dict.get?_erase_self, if_pos rfl, ← hLoop, hEmpty]
      rfl
    · rw [Dict.get?_set_self, if_pos rfl, ← hLoop]
      rfl
  · rw [if_neg hLocation]
    split
    · rw [Dict.get?_erase_ne _ hLocation]
    · rw [Dict.get?_set_ne _ hLocation]

theorem getKvKeys_clearKv (location location' : Location) :
    (node.clearKv (some location)).getKvKeys location' =
      if location = location' then ∅ else node.getKvKeys location' := by
  simp only [clearKv, getKvKeys, Dict.get?_erase]
  split <;> rfl

end WorkerNode

namespace RegistryTree

variable (r : RegistryTree) (id id' : ReportId)

theorem getWorker_setWorker (node : WorkerNode) :
    (r.setWorker id node).getWorker id' = if id = id' then some node else r.getWorker id' :=
  r.workers.get?_set id id' node

theorem getWorker_handle (msg : BatchedKVOperationMsg) (isFullSync : Bool) :
    (r.handleBatchedKvOperations msg isFullSync).1.getWorker id =
      (r.getWorker id).map fun node =>
        if msg.reportId = id ∧ (node.isSyncing = true → isFullSync = true) then
          node.applyOperations msg isFullSync
        else node := by
  unfold handleBatchedKvOperations
  by_cases hId : msg.reportId = id
  · subst hId
    cases hNode : r.getWorker msg.reportId with
    | none => exact hNode
    | some node =>
      by_cases hRejected : node.isSyncing = true ∧ isFullSync = false
      · simp [WorkerNode.handleBatchedKvOperations, hRejected, hNode]
      · have hAllowed : node.isSyncing = true → isFullSync = true := by
          intro hSyncing
          simpa [hSyncing] using hRejected
        have hSet : ∀ n count, ({ r.setWorker msg.reportId n with
            seqDiscontinuityCount := count } : RegistryTree).getWorker msg.reportId = some n :=
          fun n _ => (r.getWorker_setWorker msg.reportId msg.reportId n).trans (if_pos rfl)
        simp only [WorkerNode.handleBatchedKvOperations, if_neg hRejected, hSet, Option.map_some,
          true_and, if_pos hAllowed]
  · have hOther : (r.getWorker id).map (fun node =>
        if msg.reportId = id ∧ (node.isSyncing = true → isFullSync = true) then
          node.applyOperations msg isFullSync
        else node) = r.getWorker id := by
      simp [hId]
    rw [hOther]
    split
    · rfl
    · split
      · rfl
      · exact (r.getWorker_setWorker msg.reportId id _).trans (if_neg hId)

theorem getWorker_clearWorkerKv (location : Option Location) :
    (r.clearWorkerKv id location).1.getWorker id' =
      (r.getWorker id').map fun node => if id = id' then node.clearKv location else node := by
  unfold clearWorkerKv
  by_cases hId : id = id'
  · subst hId
    cases hNode : r.getWorker id with
    | none => exact hNode
    | some node => simp [getWorker_setWorker]
  · split
    · simp [hId]
    · simp [getWorker_setWorker, hId]

end RegistryTree

namespace KVController

variable (c : KVController) (id : ReportId)

def keys : Finset ChunkHash := c.registry.getWorkerKvKeys id Worker.location

variable {c} {id}

theorem keys_of_getWorker {node : WorkerNode} (h : c.registry.getWorker id = some node) :
    c.keys id = node.getKvKeys Worker.location := by
  simp only [keys, RegistryTree.getWorkerKvKeys, h]

variable {info : WorkerSyncInfo}

theorem getSyncInfo_eq_some_iff : c.getSyncInfo id = some info ↔
      ∃ node, c.registry.getWorker id = some node ∧ node.syncInfo = some info :=
  Option.bind_eq_some_iff

variable {c' : KVController}

theorem getSyncInfo_congr (h : c'.registry.getWorker id = c.registry.getWorker id) :
    c'.getSyncInfo id = c.getSyncInfo id := by
  rw [getSyncInfo, h, getSyncInfo]

theorem keys_congr (h : c'.registry.getWorker id = c.registry.getWorker id) :
    c'.keys id = c.keys id := by
  rw [keys, RegistryTree.getWorkerKvKeys, h, keys, RegistryTree.getWorkerKvKeys]

theorem getWorker_setSyncInfo {node : WorkerNode} (h : c.registry.getWorker id = some node)
    (info : WorkerSyncInfo) (id' : ReportId) :
    (c.setSyncInfo id info).1.registry.getWorker id' =
      if id = id' then some { node with syncInfo := some info }
      else c.registry.getWorker id' := by
  simp only [setSyncInfo, h, getWorker_setWorker]

theorem getSyncInfo_setSyncInfo {node : WorkerNode} (h : c.registry.getWorker id = some node)
    (info : WorkerSyncInfo) : (c.setSyncInfo id info).1.getSyncInfo id = some info := by
  rw [getSyncInfo, getWorker_setSyncInfo h, if_pos rfl]
  rfl

theorem keys_setSyncInfo {node : WorkerNode} (h : c.registry.getWorker id = some node)
    (info : WorkerSyncInfo) : (c.setSyncInfo id info).1.keys id = c.keys id := by
  rw [keys_of_getWorker h, keys_of_getWorker ((getWorker_setSyncInfo h info id).trans (if_pos rfl))]
  rfl

theorem isWorkerSyncing_iff :
    c.isWorkerSyncing id = true ↔ ∃ info, c.getSyncInfo id = some info ∧ info.state = .syncing := by
  unfold isWorkerSyncing
  cases c.getSyncInfo id <;> simp

theorem getWorker_handleOperations (c : KVController) (id : ReportId)
    (msg : BatchedKVOperationMsg) :
    ∃ f : WorkerNode → WorkerNode, (∀ node, (f node).syncInfo = node.syncInfo) ∧
      (c.handleBatchedKvOperations msg).registry.getWorker id =
        (c.registry.getWorker id).map f := by
  unfold handleBatchedKvOperations
  split
  · exact ⟨fun node => node, fun _ => rfl, by simp⟩
  · split
    · exact ⟨fun node => node, fun _ => rfl, by simp⟩
    · refine ⟨_, fun node => ?_, c.registry.getWorker_handle id msg false⟩
      split <;> rfl

@[simp] theorem getSyncInfo_handleOperations (msg : BatchedKVOperationMsg) :
    (c.handleBatchedKvOperations msg).getSyncInfo id = c.getSyncInfo id := by
  obtain ⟨f, hInfo, hGet⟩ := getWorker_handleOperations c id msg
  rw [getSyncInfo, hGet, getSyncInfo]
  cases c.registry.getWorker id with
  | none => rfl
  | some node => exact hInfo node

theorem keys_handleOperations_of_not {msg : BatchedKVOperationMsg}
    (h : msg.reportId = id → msg.location = Worker.location → c.isWorkerSyncing id = true) :
    (c.handleBatchedKvOperations msg).keys id = c.keys id := by
  unfold handleBatchedKvOperations
  split
  · rfl
  · split
    · rfl
    · rename_i hOpen
      have hGet := c.registry.getWorker_handle id msg false
      cases hNode : c.registry.getWorker id with
      | none =>
        rw [hNode] at hGet
        exact keys_congr (hGet.trans hNode.symm)
      | some node =>
        rw [hNode] at hGet
        rw [keys_of_getWorker hGet, keys_of_getWorker hNode]
        dsimp only
        split
        · rename_i hBoth
          rw [WorkerNode.getKvKeys_applyOperations, if_neg]
          intro hLocation
          rw [hBoth.1] at hOpen
          exact hOpen (h hBoth.1 hLocation)
        · rfl

theorem keys_handleOperations {msg : BatchedKVOperationMsg} (hId : msg.reportId = id)
    (hLocation : msg.location = Worker.location) (hInfo : c.getSyncInfo id = some info)
    (hState : info.state ≠ .syncing) : (c.handleBatchedKvOperations msg).keys id =
      msg.operations.foldl KVOpEvent.apply (c.keys id) := by
  have hClosed : c.isWorkerSyncing msg.reportId = false := by
    simp [isWorkerSyncing, hId, hInfo, hState]
  obtain ⟨node, hNode, hSync⟩ := getSyncInfo_eq_some_iff.mp hInfo
  unfold handleBatchedKvOperations
  split
  · rename_i hEmpty
    rw [hEmpty]
    rfl
  · rw [if_neg (by rw [hClosed]; exact Bool.false_ne_true)]
    have hGet := c.registry.getWorker_handle id msg false
    have hNot : node.isSyncing = false := by simp [WorkerNode.isSyncing, hSync, hState]
    rw [hNode, Option.map_some, if_pos ⟨hId, by simp [hNot]⟩] at hGet
    rw [keys_of_getWorker hGet, keys_of_getWorker hNode, WorkerNode.getKvKeys_applyOperations,
      if_pos hLocation]

theorem getWorker_handleEnd_of_ne {msg : FullSyncEndMsg} (h : msg.reportId ≠ id) :
    (c.handleFullSyncEnd msg).registry.getWorker id = c.registry.getWorker id := by
  unfold handleFullSyncEnd completeSync
  split
  · rfl
  · rename_i info hInfo
    split
    · rfl
    · obtain ⟨node, hNode, -⟩ := getSyncInfo_eq_some_iff.mp hInfo
      rw [getWorker_setSyncInfo hNode, if_neg h]

@[simp] theorem keys_handleEnd (msg : FullSyncEndMsg) :
    (c.handleFullSyncEnd msg).keys id = c.keys id := by
  by_cases hId : msg.reportId = id
  · subst hId
    unfold handleFullSyncEnd completeSync
    split
    · rfl
    · rename_i info hInfo
      split
      · rfl
      · obtain ⟨node, hNode, -⟩ := getSyncInfo_eq_some_iff.mp hInfo
        exact keys_setSyncInfo hNode _
  · exact keys_congr (getWorker_handleEnd_of_ne hId)

theorem getSyncInfo_handleEnd (msg : FullSyncEndMsg) :
    (c.handleFullSyncEnd msg).getSyncInfo msg.reportId =
      (c.getSyncInfo msg.reportId).map fun info =>
        if info.syncId = msg.syncId then { info with state := .completed } else info := by
  unfold handleFullSyncEnd completeSync
  cases hInfo : c.getSyncInfo msg.reportId with
  | none => exact hInfo
  | some info =>
    obtain ⟨node, hNode, -⟩ := getSyncInfo_eq_some_iff.mp hInfo
    by_cases hSync : info.syncId = msg.syncId
    · simp only [hSync, ne_eq, not_true, if_false, Option.map_some, if_true]
      rw [getSyncInfo_setSyncInfo hNode]
    · simp only [hSync, ne_eq, not_false_iff, if_true, Option.map_some, if_false]
      exact hInfo

theorem foldl_batchOperations (keys : List ChunkHash) (stored : Finset ChunkHash) :
    (batchOperations keys).foldl KVOpEvent.apply stored = stored ∪ keys.toFinset := by
  have hFold : ∀ (start : Nat), ((keys.zipIdx start).map fun e =>
      (⟨.admitOp, e.1, e.2⟩ : KVOpEvent)).foldl KVOpEvent.apply stored =
        stored ∪ keys.toFinset := by
    induction keys generalizing stored with
    | nil => simp
    | cons key keys ih =>
      intro start
      rw [zipIdx_cons, map_cons, foldl_cons, ih]
      simp only [KVOpEvent.apply, toFinset_cons]
      ext x
      simp only [Finset.mem_union, Finset.mem_insert]
      tauto
  exact hFold 0

theorem handleBatch_rejected {msg : FullSyncBatchMsg}
    (h : ∀ info, c.getSyncInfo msg.reportId = some info → info.syncId = msg.syncId →
      info.state ≠ .syncing) : c.handleFullSyncBatch msg = c := by
  have hReceive : c.receiveBatch msg.reportId msg.syncId msg.batchId msg.keys.length =
      (c, false) := by
    unfold receiveBatch
    split
    · rfl
    · rename_i info hInfo
      split
      · rfl
      · rename_i hSync
        exact if_pos (h info hInfo (not_not.mp hSync))
  rw [handleFullSyncBatch, hReceive]
  rfl

theorem getWorker_handleBatch_of_ne {msg : FullSyncBatchMsg} (h : msg.reportId ≠ id) :
    (c.handleFullSyncBatch msg).registry.getWorker id = c.registry.getWorker id := by
  have hReceive : RegistryTree.getWorker
      (c.receiveBatch msg.reportId msg.syncId msg.batchId msg.keys.length).1.registry id =
        c.registry.getWorker id := by
    unfold receiveBatch
    split
    · rfl
    · rename_i info hInfo
      obtain ⟨node, hNode, -⟩ := getSyncInfo_eq_some_iff.mp hInfo
      split
      · rfl
      · split
        · rfl
        · rw [getWorker_setSyncInfo hNode, if_neg h]
  unfold handleFullSyncBatch
  dsimp only
  split
  · exact hReceive
  · split
    · exact hReceive
    · rw [getWorker_handle]
      simp only [h, false_and, if_false, Option.map_id']
      exact hReceive

theorem handleBatch_accepted {msg : FullSyncBatchMsg}
    (hInfo : c.getSyncInfo msg.reportId = some info) (hSync : info.syncId = msg.syncId)
    (hState : info.state = .syncing) (hLocation : msg.location = Worker.location) :
    (c.handleFullSyncBatch msg).getSyncInfo msg.reportId = some { info with
        receivedBatches := insert msg.batchId info.receivedBatches
        receivedKeysCount := info.receivedKeysCount + msg.keys.length } ∧
      (c.handleFullSyncBatch msg).keys msg.reportId = c.keys msg.reportId ∪ msg.keys.toFinset := by
  obtain ⟨node, hNode, -⟩ := getSyncInfo_eq_some_iff.mp hInfo
  have hReceive : c.receiveBatch msg.reportId msg.syncId msg.batchId msg.keys.length =
      ((c.setSyncInfo msg.reportId { info with
        receivedBatches := insert msg.batchId info.receivedBatches
        receivedKeysCount := info.receivedKeysCount + msg.keys.length }).1, true) := by
    simp [receiveBatch, hInfo, hSync, hState]
  simp only [handleFullSyncBatch, hReceive, Bool.true_eq_false, if_false]
  split
  · rename_i hEmpty
    refine ⟨getSyncInfo_setSyncInfo hNode _, ?_⟩
    rw [keys_setSyncInfo hNode, hEmpty]
    simp
  · have hGet := getWorker_handle
      (c.setSyncInfo msg.reportId { info with
        receivedBatches := insert msg.batchId info.receivedBatches
        receivedKeysCount := info.receivedKeysCount + msg.keys.length }).1.registry
      msg.reportId ⟨msg.reportId, msg.location, batchOperations msg.keys⟩ true
    rw [getWorker_setSyncInfo hNode, if_pos rfl, Option.map_some, if_pos ⟨rfl, fun _ => rfl⟩]
      at hGet
    constructor
    · rw [getSyncInfo, hGet]
      rfl
    · rw [keys_of_getWorker hGet, WorkerNode.getKvKeys_applyOperations, if_pos hLocation,
        foldl_batchOperations, keys_of_getWorker hNode]
      rfl

variable {syncId : String}

theorem startSync_accepted {node : WorkerNode} (h : c.registry.getWorker id = some node)
    (hFree : ∀ info, c.getSyncInfo id = some info → info.state = .syncing → info.syncId = syncId)
    (totalKeys batchCount : Nat) : c.startSync id syncId totalKeys batchCount =
      ((c.setSyncInfo id ⟨syncId, .syncing, totalKeys, batchCount, ∅, 0⟩).1, true) := by
  have hTrue : (c.setSyncInfo id ⟨syncId, .syncing, totalKeys, batchCount, ∅, 0⟩).2 = true := by
    simp [setSyncInfo, h]
  unfold startSync
  dsimp only
  split
  · rename_i info hInfo
    rw [if_neg]
    · exact Prod.ext rfl hTrue
    · rintro ⟨hState, hSync⟩
      exact hSync (hFree info hInfo hState)
  · exact Prod.ext rfl hTrue

/-- A start is refused and changes nothing, or opens the sync without keys and batches. -/
theorem handleStart_cases (c : KVController) {msg : FullSyncStartMsg}
    (hLocation : msg.location = Worker.location) :
    ((c.handleFullSyncStart msg).1 = c ∧ (c.handleFullSyncStart msg).2.accepted = false) ∨
    ((∀ info, c.getSyncInfo msg.reportId = some info → info.state = .syncing →
        info.syncId = msg.syncId) ∧
      (c.handleFullSyncStart msg).1.getSyncInfo msg.reportId =
        some ⟨msg.syncId, .syncing, msg.totalKeys, msg.batchCount, ∅, 0⟩ ∧
      (c.handleFullSyncStart msg).1.keys msg.reportId = ∅ ∧
      (c.handleFullSyncStart msg).2.accepted = true ∧
      ∀ id, msg.reportId ≠ id →
        (c.handleFullSyncStart msg).1.registry.getWorker id = c.registry.getWorker id) := by
  cases hNode : c.registry.getWorker msg.reportId with
  | none =>
    left
    simp [handleFullSyncStart, startSync, getSyncInfo, setSyncInfo, hNode]
  | some node =>
    by_cases hFree : ∀ info, c.getSyncInfo msg.reportId = some info → info.state = .syncing →
        info.syncId = msg.syncId
    · right
      refine ⟨hFree, ?_⟩
      have hStart := startSync_accepted hNode hFree msg.totalKeys msg.batchCount
      simp only [handleFullSyncStart, hStart, Bool.true_eq_false, if_false]
      split
      · rename_i hEmpty
        refine ⟨getSyncInfo_setSyncInfo hNode _, ?_, rfl, fun id hId => ?_⟩
        · rw [hLocation] at hEmpty
          exact hEmpty
        · rw [getWorker_setSyncInfo hNode, if_neg hId]
      · have hGet : ∀ id, (RegistryTree.clearWorkerKv (c.setSyncInfo msg.reportId
            ⟨msg.syncId, .syncing, msg.totalKeys, msg.batchCount, ∅, 0⟩).1.registry msg.reportId
            (some msg.location)).1.getWorker id = _ := fun id =>
          getWorker_clearWorkerKv _ msg.reportId id (some msg.location)
        have hOwn := hGet msg.reportId
        rw [getWorker_setSyncInfo hNode, if_pos rfl, Option.map_some, if_pos rfl] at hOwn
        refine ⟨?_, ?_, rfl, fun id hId => ?_⟩
        · rw [getSyncInfo, hOwn]
          rfl
        · rw [keys_of_getWorker hOwn, WorkerNode.getKvKeys_clearKv, if_pos hLocation]
        · have hOther := hGet id
          rw [getWorker_setSyncInfo hNode, if_neg hId] at hOther
          simpa [hId] using hOther
    · left
      push Not at hFree
      obtain ⟨info, hInfo, hState, hSync⟩ := hFree
      simp [handleFullSyncStart, startSync, hInfo, hState, hSync]

theorem getSyncInfo_heartbeat (id' : ReportId) :
    (c.heartbeat id').2.getSyncInfo id = c.getSyncInfo id := by
  unfold heartbeat
  split
  · rename_i hNone
    simp only [register, hNone, getSyncInfo, RegistryTree.registerWorker, getWorker_setWorker]
    split
    · rename_i hId
      rw [← hId, hNone]
      rfl
    · rfl
  · rfl

theorem keys_heartbeat (id' : ReportId) : (c.heartbeat id').2.keys id = c.keys id := by
  unfold heartbeat
  split
  · rename_i hNone
    simp only [register, hNone, keys, RegistryTree.getWorkerKvKeys, RegistryTree.registerWorker,
      getWorker_setWorker]
    split
    · rename_i hNode
      split at hNode
      · cases hNode
      · simp [hNode]
    · rename_i node hNode
      split at hNode
      · rename_i hId
        cases hNode
        rw [← hId, hNone]
        rfl
      · simp [hNode]
  · rfl

end KVController

namespace System

inductive Moves (s : System) (id : ReportId) : Action → System → Prop
  | put (key : CacheEngineKey) (hThawed : (s.workers id).frozen = false) :
      Moves s id (.put key) (s.setWorker id ((s.workers id).submitPutTask key))
  | remove (key : CacheEngineKey) (force : Bool) :
      Moves s id (.remove key force) (s.setWorker id ((s.workers id).remove key force))
  | queueEvict {index : Nat} {hash : ChunkHash}
      (hUnsent : (s.workers id).unsent[index]? = some hash) :
      Moves s id (.queueEvict index) (s.setWorker id (Worker.addKvOp { s.workers id with
        unsent := (s.workers id).unsent.eraseIdx index } .evictOp hash))
  | popLayers (keys : List CacheEngineKey) :
      Moves s id (.popLayers keys) (s.setWorker id ((s.workers id).popLayers keys))
  | drain {count : Nat} (hSome : 0 < count ∧ (s.workers id).messageQueue ≠ []) :
      Moves s id (.drain count) (s.setWorker id ((s.workers id).drainAndSend id count))
  | pushOther {location : Location} (operations : List KVOpEvent)
      (hLocation : location ≠ Worker.location) :
      Moves s id (.pushOther location operations) (s.setWorker id { s.workers id with
        channel := (s.workers id).channel ++ [.operations ⟨id, location, operations⟩] })
  | deliver {msg : PushMsg} {rest : List PushMsg}
      (hChannel : (s.workers id).channel = msg :: rest) :
      Moves s id .deliver { s.setWorker id { s.workers id with channel := rest } with
        controller := s.controller.handleWorkerMessage msg }
  | lose {index : Nat} {msg : PushMsg} (hMsg : (s.workers id).channel[index]? = some msg) :
      Moves s id (.lose index) (s.setWorker id { s.workers id with
        channel := (s.workers id).channel.eraseIdx index
        lost := (s.workers id).lost ++ msg.batch })
  | heartbeat (hNone : (s.workers id).heartbeatReply = none) :
      Moves s id .heartbeat { s.setWorker id { s.workers id with
          heartbeatReply := some (s.controller.heartbeat id).1 } with
        controller := (s.controller.heartbeat id).2 }
  | heartbeatReply {commands : List HeartbeatCommand} (arrives : Bool)
      (hReply : (s.workers id).heartbeatReply = some commands) :
      Moves s id (.heartbeatReply arrives) (s.setWorker id (if arrives then
        Worker.execute { s.workers id with heartbeatReply := none } commands else
          { s.workers id with heartbeatReply := none }))
  | initializeSync {syncId : String} (hPhase : (s.workers id).phase = .delaying)
      (hFresh : (s.workers id).snapshots.get? syncId = none) :
      Moves s id (.initializeSync syncId) (s.setWorker id ((s.workers id).initializeSync id syncId))
  | handleStart {index : Nat} {msg : FullSyncStartMsg}
      (hMsg : (s.workers id).startRequests[index]? = some msg) :
      Moves s id (.handleStart index) { s.setWorker id { s.workers id with
          startRequests := (s.workers id).startRequests.eraseIdx index
          startReplies := (s.workers id).startReplies ++
            [(s.controller.handleFullSyncStart msg).2] } with
        controller := (s.controller.handleFullSyncStart msg).1 }
  | loseStart (index : Nat) : Moves s id (.loseStart index) (s.setWorker id { s.workers id with
      startRequests := (s.workers id).startRequests.eraseIdx index })
  | startReply {index attempt : Nat} {init : SyncInitResult} {ret : FullSyncStartRetMsg}
      (hPhase : (s.workers id).phase = .starting init attempt)
      (hReply : (s.workers id).startReplies[index]? = some ret) (hSync : ret.syncId = init.syncId) :
      Moves s id (.startReply index) (s.setWorker id (Worker.onStartReply { s.workers id with
        startReplies := (s.workers id).startReplies.eraseIdx index } id init attempt
        ret.accepted))
  | startTimeout {attempt : Nat} {init : SyncInitResult}
      (hPhase : (s.workers id).phase = .starting init attempt) :
      Moves s id .startTimeout (s.setWorker id ((s.workers id).onStartReply id init attempt false))
  | push {w : Worker} (hPush : (s.workers id).pushNext id = some w) :
      Moves s id .push (s.setWorker id w)
  | handleStatus {pollAttempt resendCount : Nat} {init : SyncInitResult} (expired : Bool)
      (hPhase : (s.workers id).phase = .polling init pollAttempt resendCount)
      (hNone : (s.workers id).statusReply = none) :
      Moves s id (.handleStatus expired) { s.setWorker id { s.workers id with
          statusReply := some (s.controller.handleFullSyncStatus ⟨id, init.syncId⟩ expired).1 } with
        controller := (s.controller.handleFullSyncStatus ⟨id, init.syncId⟩ expired).2 }
  | statusReply {pollAttempt resendCount : Nat} {init : SyncInitResult}
      {status : FullSyncStatusRetMsg}
      (hPhase : (s.workers id).phase = .polling init pollAttempt resendCount)
      (hReply : (s.workers id).statusReply = some status) :
      Moves s id .statusReply
        (s.setWorker id ((s.workers id).onStatus init pollAttempt resendCount status))
  | statusTimeout {pollAttempt resendCount : Nat} {init : SyncInitResult}
      (hPhase : (s.workers id).phase = .polling init pollAttempt resendCount) :
      Moves s id .statusTimeout
        (s.setWorker id ((s.workers id).poll init (pollAttempt + 1) resendCount))

variable {s t : System} {id : ReportId} {action : Action}

theorem moves_of_act (h : s.act id action = some t) : s.Moves id action t := by
  cases action with
  | put key =>
    rw [act] at h
    split at h
    · cases h
    · rename_i hThawed
      cases h
      exact .put key (Bool.eq_false_iff.mpr hThawed)
  | remove key force =>
    cases h
    exact .remove key force
  | queueEvict index =>
    rw [act] at h
    split at h
    · rename_i hUnsent
      cases h
      exact .queueEvict hUnsent
    · cases h
  | popLayers keys =>
    cases h
    exact .popLayers keys
  | drain count =>
    rw [act] at h
    split at h
    · rename_i hSome
      cases h
      exact .drain hSome
    · cases h
  | pushOther location operations =>
    rw [act] at h
    split at h
    · rename_i hLocation
      cases h
      exact .pushOther operations hLocation
    · cases h
  | deliver =>
    rw [act] at h
    split at h
    · rename_i hChannel
      cases h
      exact .deliver hChannel
    · cases h
  | lose index =>
    rw [act] at h
    split at h
    · rename_i hMsg
      cases h
      exact .lose hMsg
    · cases h
  | heartbeat =>
    rw [act] at h
    split at h
    · rename_i hNone
      cases h
      exact .heartbeat hNone
    · cases h
  | heartbeatReply arrives =>
    rw [act] at h
    split at h
    · rename_i hReply
      cases h
      exact .heartbeatReply arrives hReply
    · cases h
  | initializeSync syncId =>
    rw [act] at h
    split at h
    · rename_i hPhase hFresh
      cases h
      exact .initializeSync hPhase hFresh
    · cases h
  | handleStart index =>
    rw [act] at h
    split at h
    · rename_i hMsg
      cases h
      exact .handleStart hMsg
    · cases h
  | loseStart index =>
    cases h
    exact .loseStart index
  | startReply index =>
    rw [act] at h
    split at h
    · rename_i hPhase hReply
      split at h
      · rename_i hSync
        cases h
        exact .startReply hPhase hReply hSync
      · cases h
    · cases h
  | startTimeout =>
    rw [act] at h
    split at h
    · rename_i hPhase
      cases h
      exact .startTimeout hPhase
    · cases h
  | push =>
    obtain ⟨w, hPush, rfl⟩ := Option.map_eq_some_iff.mp h
    exact .push hPush
  | handleStatus expired =>
    rw [act] at h
    split at h
    · rename_i hPhase hNone
      cases h
      exact .handleStatus expired hPhase hNone
    · cases h
  | statusReply =>
    rw [act] at h
    split at h
    · rename_i hPhase hReply
      cases h
      exact .statusReply hPhase hReply
    · cases h
  | statusTimeout =>
    rw [act] at h
    split at h
    · rename_i hPhase
      cases h
      exact .statusTimeout hPhase
    · cases h

theorem act_controller (h : s.act id action = some t) :
    t.controller = s.controller ∨
    (∃ msg rest, (s.workers id).channel = msg :: rest ∧
      t.controller = s.controller.handleWorkerMessage msg) ∨
    (∃ msg ∈ (s.workers id).startRequests,
      t.controller = (s.controller.handleFullSyncStart msg).1) ∨
    t.controller = (s.controller.heartbeat id).2 ∨
    ∃ msg expired, t.controller = (s.controller.handleFullSyncStatus msg expired).2 := by
  cases moves_of_act h with
  | deliver hChannel => exact Or.inr (Or.inl ⟨_, _, hChannel, rfl⟩)
  | handleStart hMsg => exact Or.inr (Or.inr (Or.inl ⟨_, mem_of_getElem? hMsg, rfl⟩))
  | heartbeat _ => exact Or.inr (Or.inr (Or.inr (Or.inl rfl)))
  | @handleStatus _ _ init expired _ _ =>
    exact Or.inr (Or.inr (Or.inr (Or.inr ⟨⟨id, init.syncId⟩, expired, rfl⟩)))
  | _ => exact Or.inl rfl

end System

end LMCache.CacheController
