import LMCache.CacheController.KVController
import LMCache.Lib.Run

/-!
# Full sync between the workers and the controller

The hot cache of a worker reports every key it takes in and gives up. On the command of the
controller the worker freezes its cache, takes the chunk hashes of all keys, has the start of a
sync accepted and pushes the hashes in batches and an end marker. It then polls until the
controller lets it go, and pushes again the batches that it misses. Starts and polls are requests
with a reply; one that timed out may still be handled later.

There are any number of workers, each with a channel of its own. A step is an operation
of a hot cache, a section of `start_full_sync` between two awaits, the handling of one message
by the controller, the arrival of a reply, a time-out, or the loss of a message. Messages of
one channel are handled in order; requests are handled in any order.

A key is taken into the hot cache only while the worker is not frozen.
-/

namespace LMCache.CacheController

open Lib

/-- Everything beside the chunk hash (the model, the rank, the layer, the tags) is one number:
keys are only compared. -/
structure CacheEngineKey where
  chunkHash : ChunkHash
  others : Nat
deriving DecidableEq

inductive PushMsg
  | operations (msg : BatchedKVOperationMsg)
  | syncBatch (msg : FullSyncBatchMsg)
  | syncEnd (msg : FullSyncEndMsg)
deriving DecidableEq

structure SenderConfig where
  batchSize : Nat
  maxRetryCount : Nat
  maxPollAttempts : Nat

structure SyncInitResult where
  syncId : String
  keys : List ChunkHash
  totalKeys : Nat
  batchCount : Nat
deriving DecidableEq

/-- `keys[start_idx:end_idx]` of a batch. -/
def SyncInitResult.batchKeys (init : SyncInitResult) (batchSize batchId : Nat) :
    List ChunkHash :=
  (init.keys.take (min (batchId * batchSize + batchSize) init.totalKeys)).drop (batchId * batchSize)

inductive Phase
  | idle
  | delaying
  | starting (init : SyncInitResult) (attempt : Nat)
  | sending (init : SyncInitResult) (batchId : Nat)
  | polling (init : SyncInitResult) (pollAttempt resendCount : Nat)
  | resending (init : SyncInitResult) (rest : List Nat) (pollAttempt resendCount : Nat)
deriving DecidableEq

/-- What was taken from the hot cache, and how many operations had been queued until then. -/
structure Snapshot where
  init : SyncInitResult
  queued : Nat

/-- `unsent` are hashes that a forced removal has taken out and not yet queued. The last three
fields are records that nothing reads: the snapshots, the syncs of which a batch may have been
pushed, and the batches that were lost. -/
structure Worker where
  config : SenderConfig
  hotCache : List CacheEngineKey
  frozen : Bool
  messageQueue : List KVOpEvent
  sequenceNumber : Nat
  unsent : List ChunkHash
  channel : List PushMsg
  phase : Phase
  heartbeatReply : Option (List HeartbeatCommand)
  startRequests : List FullSyncStartMsg
  startReplies : List FullSyncStartRetMsg
  statusReply : Option FullSyncStatusRetMsg
  snapshots : Dict String Snapshot
  begun : List String
  lost : List (String × Nat)

namespace Worker

/-- `str(local_cpu_backend)`. -/
def location : Location := "LocalCPUBackend"

def new (config : SenderConfig) (hotCache : List CacheEngineKey) : Worker :=
  ⟨config, hotCache, false, [], 0, [], [], .idle, none, [], [], none, .empty, [], []⟩

/-- The number of an operation is assigned when it is drained. -/
def addKvOp (w : Worker) (opType : OpType) (key : ChunkHash) : Worker :=
  { w with messageQueue := w.messageQueue ++ [⟨opType, key, -1⟩] }

/-- A key that is present is left alone. -/
def submitPutTask (w : Worker) (key : CacheEngineKey) : Worker :=
  if key ∈ w.hotCache then w
  else addKvOp { w with hotCache := w.hotCache ++ [key] } .admitOp key.chunkHash

/-- The forced removal queues its operation after it has released the lock. -/
def remove (w : Worker) (key : CacheEngineKey) (force : Bool) : Worker :=
  if key ∉ w.hotCache then w
  else
    let popped := { w with hotCache := w.hotCache.filter (· ≠ key) }
    if force then { popped with unsent := popped.unsent ++ [key.chunkHash] }
    else popped.addKvOp .evictOp key.chunkHash

/-- The eviction of `batched_allocate` reports nothing. -/
def popLayers (w : Worker) (keys : List CacheEngineKey) : Worker :=
  { w with hotCache := w.hotCache.filter (· ∉ keys) }

def numbered (first : Nat) (ops : List KVOpEvent) : List KVOpEvent :=
  ops.zipIdx.map fun e => { e.1 with seqNum := (first + e.2 : Nat) }

/-- The first `count` operations that are waiting leave in one message. -/
def drainAndSend (w : Worker) (id : ReportId) (count : Nat) : Worker :=
  { w with
    messageQueue := w.messageQueue.drop count
    sequenceNumber := w.sequenceNumber + (w.messageQueue.take count).length
    channel := w.channel ++ [.operations ⟨id, location,
      numbered w.sequenceNumber (w.messageQueue.take count)⟩] }

/-- The `finally` of `start_full_sync`. -/
def leave (w : Worker) : Worker := { w with frozen := false, phase := .idle }

def startMsg (id : ReportId) (init : SyncInitResult) : FullSyncStartMsg :=
  ⟨id, location, init.syncId, init.totalKeys, init.batchCount⟩

def attemptStart (w : Worker) (id : ReportId) (init : SyncInitResult) (attempt : Nat) : Worker :=
  if attempt < w.config.maxRetryCount then
    { w with
      phase := .starting init attempt
      startRequests := w.startRequests ++ [startMsg id init] }
  else w.leave

def initResult (w : Worker) (syncId : String) : SyncInitResult :=
  let keys := w.hotCache.map CacheEngineKey.chunkHash
  ⟨syncId, keys, keys.length, max ((keys.length + w.config.batchSize - 1) / w.config.batchSize) 1⟩

/-- After the delay. A division by zero ends the sync. -/
def initializeSync (w : Worker) (id : ReportId) (syncId : String) : Worker :=
  if w.config.batchSize = 0 then w.leave
  else
    let init := w.initResult syncId
    attemptStart { w with
      frozen := true
      snapshots := w.snapshots.set syncId ⟨init, w.sequenceNumber + w.messageQueue.length⟩ }
      id init 0

def sendSyncBatch (w : Worker) (id : ReportId) (init : SyncInitResult) (batchId : Nat) :
    Worker :=
  { w with channel := w.channel ++ [.syncBatch ⟨id, location, init.syncId, batchId,
      init.batchKeys w.config.batchSize batchId⟩] }

def sendSyncEnd (w : Worker) (id : ReportId) (init : SyncInitResult) : Worker :=
  { w with channel := w.channel ++ [.syncEnd ⟨id, location, init.syncId, init.totalKeys⟩] }

/-- The next round of the polling loop, or its end. -/
def poll (w : Worker) (init : SyncInitResult) (pollAttempt resendCount : Nat) : Worker :=
  if pollAttempt < w.config.maxPollAttempts then
    { w with phase := .polling init pollAttempt resendCount, statusReply := none }
  else { w.leave with statusReply := none }

def onStartReply (w : Worker) (id : ReportId) (init : SyncInitResult) (attempt : Nat)
    (accepted : Bool) : Worker :=
  if accepted then { w with phase := .sending init 0, begun := init.syncId :: w.begun }
  else w.attemptStart id init (attempt + 1)

/-- One message of `_send_key_batches` or `_resend_missing_batches`. -/
def pushNext (w : Worker) (id : ReportId) : Option Worker :=
  match w.phase with
  | .sending init batchId =>
    if batchId < init.batchCount then
      some { w.sendSyncBatch id init batchId with phase := .sending init (batchId + 1) }
    else some ((w.sendSyncEnd id init).poll init 0 0)
  | .resending init (batchId :: rest) pollAttempt resendCount =>
    some { w.sendSyncBatch id init batchId with
      phase := .resending init rest pollAttempt resendCount }
  | .resending init [] pollAttempt resendCount =>
    some ((w.sendSyncEnd id init).poll init (pollAttempt + 1) resendCount)
  | _ => none

def onStatus (w : Worker) (init : SyncInitResult) (pollAttempt resendCount : Nat)
    (status : FullSyncStatusRetMsg) : Worker :=
  if status.canExitFreeze then { w.leave with statusReply := none }
  else if status.missingBatches ≠ [] ∧ resendCount < w.config.maxRetryCount then
    { w with
      phase := .resending init status.missingBatches pollAttempt (resendCount + 1)
      statusReply := none }
  else w.poll init (pollAttempt + 1) resendCount

/-- `FullSyncCommand.execute`; skipped while a sync is running. -/
def execute (w : Worker) (commands : List HeartbeatCommand) : Worker :=
  match w.phase with
  | .idle => if commands = [] then w else { w with phase := .delaying }
  | _ => w

end Worker

def KVController.handleWorkerMessage (c : KVController) : PushMsg → KVController
  | .operations msg => c.handleBatchedKvOperations msg
  | .syncBatch msg => c.handleFullSyncBatch msg
  | .syncEnd msg => c.handleFullSyncEnd msg

structure System where
  controller : KVController
  workers : ReportId → Worker

inductive Action
  | put (key : CacheEngineKey)
  | remove (key : CacheEngineKey) (force : Bool)
  | queueEvict (index : Nat)
  | popLayers (keys : List CacheEngineKey)
  | drain (count : Nat)
  | pushOther (location : Location) (operations : List KVOpEvent)
  | deliver
  | lose (index : Nat)
  | heartbeat
  | heartbeatReply (arrives : Bool)
  | initializeSync (syncId : String)
  | handleStart (index : Nat)
  | loseStart (index : Nat)
  | startReply (index : Nat)
  | startTimeout
  | push
  | handleStatus (expired : Bool)
  | statusReply
  | statusTimeout

/-- The batch a lost message had, for the record. -/
def PushMsg.batch : PushMsg → List (String × Nat)
  | .syncBatch msg => [(msg.syncId, msg.batchId)]
  | _ => []

namespace System

/-- The controller has started; the workers have run before. -/
def new (completionThreshold : ℚ) (config : ReportId → SenderConfig)
    (hotCache : ReportId → List CacheEngineKey) : System :=
  ⟨.new completionThreshold, fun id => .new (config id) (hotCache id)⟩

def setWorker (s : System) (id : ReportId) (w : Worker) : System :=
  { s with workers := Function.update s.workers id w }

def act (s : System) (id : ReportId) : Action → Option System
  | .put key =>
    if (s.workers id).frozen then none
    else some (s.setWorker id ((s.workers id).submitPutTask key))
  | .remove key force => some (s.setWorker id ((s.workers id).remove key force))
  | .queueEvict index =>
    match (s.workers id).unsent[index]? with
    | some hash =>
      some (s.setWorker id (Worker.addKvOp { s.workers id with
        unsent := (s.workers id).unsent.eraseIdx index } .evictOp hash))
    | none => none
  | .popLayers keys => some (s.setWorker id ((s.workers id).popLayers keys))
  | .drain count =>
    if 0 < count ∧ (s.workers id).messageQueue ≠ [] then
      some (s.setWorker id ((s.workers id).drainAndSend id count))
    else none
  | .pushOther location operations =>
    if location ≠ Worker.location then
      some (s.setWorker id { s.workers id with
        channel := (s.workers id).channel ++ [.operations ⟨id, location, operations⟩] })
    else none
  | .deliver =>
    match (s.workers id).channel with
    | msg :: rest =>
      some { s.setWorker id { s.workers id with channel := rest } with
        controller := s.controller.handleWorkerMessage msg }
    | [] => none
  | .lose index =>
    match (s.workers id).channel[index]? with
    | some msg =>
      some (s.setWorker id { s.workers id with
        channel := (s.workers id).channel.eraseIdx index
        lost := (s.workers id).lost ++ msg.batch })
    | none => none
  | .heartbeat =>
    match (s.workers id).heartbeatReply with
    | none =>
      let ret := s.controller.heartbeat id
      some { s.setWorker id { s.workers id with heartbeatReply := some ret.1 } with
        controller := ret.2 }
    | some _ => none
  | .heartbeatReply arrives =>
    match (s.workers id).heartbeatReply with
    | some commands =>
      let w := { s.workers id with heartbeatReply := none }
      some (s.setWorker id (if arrives then w.execute commands else w))
    | none => none
  | .initializeSync syncId =>
    match (s.workers id).phase, (s.workers id).snapshots.get? syncId with
    -- ids of syncs are unique
    | .delaying, none => some (s.setWorker id ((s.workers id).initializeSync id syncId))
    | _, _ => none
  | .handleStart index =>
    match (s.workers id).startRequests[index]? with
    | some msg =>
      let ret := s.controller.handleFullSyncStart msg
      some { s.setWorker id { s.workers id with
          startRequests := (s.workers id).startRequests.eraseIdx index
          startReplies := (s.workers id).startReplies ++ [ret.2] } with
        controller := ret.1 }
    | none => none
  | .loseStart index =>
    some (s.setWorker id { s.workers id with
      startRequests := (s.workers id).startRequests.eraseIdx index })
  | .startReply index =>
    match (s.workers id).phase, (s.workers id).startReplies[index]? with
    | .starting init attempt, some ret =>
      if ret.syncId = init.syncId then
        some (s.setWorker id (Worker.onStartReply { s.workers id with
          startReplies := (s.workers id).startReplies.eraseIdx index } id init attempt
          ret.accepted))
      else none
    | _, _ => none
  | .startTimeout =>
    match (s.workers id).phase with
    | .starting init attempt =>
      some (s.setWorker id ((s.workers id).onStartReply id init attempt false))
    | _ => none
  | .push => ((s.workers id).pushNext id).map (s.setWorker id)
  | .handleStatus expired =>
    match (s.workers id).phase, (s.workers id).statusReply with
    | .polling init _ _, none =>
      let ret := s.controller.handleFullSyncStatus ⟨id, init.syncId⟩ expired
      some { s.setWorker id { s.workers id with statusReply := some ret.1 } with
        controller := ret.2 }
    | _, _ => none
  | .statusReply =>
    match (s.workers id).phase, (s.workers id).statusReply with
    | .polling init pollAttempt resendCount, some status =>
      some (s.setWorker id ((s.workers id).onStatus init pollAttempt resendCount status))
    | _, _ => none
  | .statusTimeout =>
    match (s.workers id).phase with
    | .polling init pollAttempt resendCount =>
      some (s.setWorker id ((s.workers id).poll init (pollAttempt + 1) resendCount))
    | _ => none

def next (s : System) (label : ReportId × Action) : Option System := s.act label.1 label.2

end System

end LMCache.CacheController
