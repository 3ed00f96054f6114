import LMCache.Lib.Dict
import Mathlib.Algebra.Order.Field.Rat
import Mathlib.Data.Finset.Basic

/-!
# The registry of the cache controller

The controller keeps a node for every worker: the chunk hashes it reports for each of its storage
backends, the last sequence numbers, and the state of its full sync. A gap in the sequence numbers
is counted and nothing else is done about it. The nodes of all instances are one dictionary here.
Locks, addresses and times are left out.

A worker that the controller does not know, or that has not synced since the controller
started, is told to send all its keys. The start of a sync clears what is stored for the
worker, the batches add to it, and the end marker completes it. Operations that are reported
while the sync is open are discarded.

The tracker asks for missing batches only while a sync is open, and leaves it open only until
the end marker comes.
-/

namespace LMCache.CacheController

open Lib

abbrev ChunkHash := Int

abbrev Location := String

/-- `(instance_id, worker_id)`. -/
abbrev ReportId := String × Int

inductive OpType
  | admitOp
  | evictOp
deriving DecidableEq

structure KVOpEvent where
  opType : OpType
  key : ChunkHash
  seqNum : Int
deriving DecidableEq

structure BatchedKVOperationMsg where
  reportId : ReportId
  location : Location
  operations : List KVOpEvent
deriving DecidableEq

inductive FullSyncState
  | idle
  | syncing
  | completed
  | failed
deriving DecidableEq

structure WorkerSyncInfo where
  syncId : String
  state : FullSyncState
  expectedTotalKeys : Nat
  expectedBatchCount : Nat
  receivedBatches : Finset Nat
  receivedKeysCount : Nat
deriving DecidableEq

structure WorkerNode where
  seqTracker : Dict Location Int
  kvStore : Dict Location (Finset ChunkHash)
  syncInfo : Option WorkerSyncInfo

def KVOpEvent.apply (keys : Finset ChunkHash) (op : KVOpEvent) : Finset ChunkHash :=
  match op.opType with
  | .admitOp => insert op.key keys
  | .evictOp => keys.erase op.key

/-- The loop of `handle_batched_kv_operations`. A warning is the expected number, the number
that came and the gap between them. -/
structure OpLoop where
  keys : Finset ChunkHash
  lastSeqNum : Option Int
  seqWarning : Option (Int × Int × Int)

/-- The operation is applied first, then its sequence number is checked; a full sync skips
the check. Only the first gap is reported. -/
def OpLoop.step (isFullSync : Bool) (loop : OpLoop) (op : KVOpEvent) : OpLoop :=
  let applied := { loop with keys := op.apply loop.keys }
  if isFullSync then applied
  else
    let seqWarning :=
      match loop.lastSeqNum with
      | some last =>
        if op.seqNum ≠ last + 1 ∧ loop.seqWarning = none then
          some (last + 1, op.seqNum, op.seqNum - (last + 1))
        else loop.seqWarning
      | none => loop.seqWarning
    { applied with lastSeqNum := some op.seqNum, seqWarning }

namespace WorkerNode

def new : WorkerNode := ⟨.empty, .empty, none⟩

def isSyncing (node : WorkerNode) : Bool :=
  match node.syncInfo with
  | some info => info.state = .syncing
  | none => false

def getKvKeys (node : WorkerNode) (location : Location) : Finset ChunkHash :=
  (node.kvStore.get? location).getD ∅

def runOperations (node : WorkerNode) (msg : BatchedKVOperationMsg) (isFullSync : Bool) : OpLoop :=
  msg.operations.foldl (OpLoop.step isFullSync)
    ⟨node.getKvKeys msg.location, node.seqTracker.get? msg.location, none⟩

def applyOperations (node : WorkerNode) (msg : BatchedKVOperationMsg) (isFullSync : Bool) :
    WorkerNode :=
  let loop := node.runOperations msg isFullSync
  { node with
    -- an empty set is removed
    kvStore := if loop.keys = ∅ then node.kvStore.erase msg.location
      else node.kvStore.set msg.location loop.keys
    seqTracker := node.seqTracker.put msg.location loop.lastSeqNum }

/-- `none` when the operations are rejected; else also whether a gap was found. -/
def handleBatchedKvOperations (node : WorkerNode) (msg : BatchedKVOperationMsg)
    (isFullSync : Bool) : Option (WorkerNode × Bool) :=
  if node.isSyncing = true ∧ isFullSync = false then none
  else some (node.applyOperations msg isFullSync,
    (node.runOperations msg isFullSync).seqWarning.isSome)

/-- All locations when none is named. -/
def clearKv (node : WorkerNode) : Option Location → WorkerNode
  | none => { node with kvStore := .empty, seqTracker := .empty }
  | some location => { node with
      kvStore := node.kvStore.erase location
      seqTracker := node.seqTracker.erase location }

end WorkerNode

structure RegistryTree where
  workers : Dict ReportId WorkerNode
  seqDiscontinuityCount : Nat
  workerNodeCache : Option (List ReportId)

namespace RegistryTree

def new : RegistryTree := ⟨.empty, 0, none⟩

def getWorker (r : RegistryTree) (id : ReportId) : Option WorkerNode := r.workers.get? id

def setWorker (r : RegistryTree) (id : ReportId) (node : WorkerNode) : RegistryTree :=
  { r with workers := r.workers.set id node }

def registerWorker (r : RegistryTree) (id : ReportId) : RegistryTree := r.setWorker id .new

/-- Only the nodes are touched; a cached list is read again once it has expired. -/
def deregisterWorker (r : RegistryTree) (id : ReportId) : RegistryTree :=
  { r with workers := r.workers.erase id }

def handleBatchedKvOperations (r : RegistryTree) (msg : BatchedKVOperationMsg)
    (isFullSync : Bool) : RegistryTree × Bool :=
  match r.getWorker msg.reportId with
  | none => (r, false)
  | some node =>
    match node.handleBatchedKvOperations msg isFullSync with
    | none => (r, false)
    | some (node', gap) =>
      ({ r.setWorker msg.reportId node' with
          seqDiscontinuityCount := r.seqDiscontinuityCount + if gap then 1 else 0 }, true)

def getWorkerKvKeys (r : RegistryTree) (id : ReportId) (location : Location) :
    Finset ChunkHash :=
  match r.getWorker id with
  | none => ∅
  | some node => node.getKvKeys location

def clearWorkerKv (r : RegistryTree) (id : ReportId) (location : Option Location) :
    RegistryTree × Bool :=
  match r.getWorker id with
  | none => (r, false)
  | some node => (r.setWorker id (node.clearKv location), true)

/-- The list is read again once it has expired; a node that registers later is missing until
then. -/
def getAllWorkerNodesCached (r : RegistryTree) (expired : Bool) :
    List WorkerNode × RegistryTree :=
  let ids :=
    match r.workerNodeCache with
    | some ids => if expired then r.workers.keys else ids
    | none => r.workers.keys
  (ids.filterMap r.getWorker, { r with workerNodeCache := some ids })

end RegistryTree

structure FullSyncStartMsg where
  reportId : ReportId
  location : Location
  syncId : String
  totalKeys : Nat
  batchCount : Nat
deriving DecidableEq

structure FullSyncStartRetMsg where
  syncId : String
  accepted : Bool
  errorMsg : Option String
deriving DecidableEq

structure FullSyncBatchMsg where
  reportId : ReportId
  location : Location
  syncId : String
  batchId : Nat
  keys : List ChunkHash
deriving DecidableEq

structure FullSyncEndMsg where
  reportId : ReportId
  location : Location
  syncId : String
  actualTotalKeys : Nat
deriving DecidableEq

structure FullSyncStatusMsg where
  reportId : ReportId
  syncId : String

structure FullSyncStatusRetMsg where
  syncId : String
  isComplete : Bool
  globalProgress : ℚ
  canExitFreeze : Bool
  missingBatches : List Nat

/-- The reason of a `FullSyncCommand`, the only command there is. -/
abbrev HeartbeatCommand := String

structure FullSyncTracker where
  completionThreshold : ℚ
  needFullSyncAll : Bool

/-- The registry is shared by the controllers of the keys and of the registrations. -/
structure KVController where
  registry : RegistryTree
  fullSyncTracker : FullSyncTracker

namespace KVController

def new (completionThreshold : ℚ) : KVController := ⟨.new, ⟨completionThreshold, true⟩⟩

def getSyncInfo (c : KVController) (id : ReportId) : Option WorkerSyncInfo :=
  (c.registry.getWorker id).bind WorkerNode.syncInfo

/-- False when the worker is unknown. -/
def setSyncInfo (c : KVController) (id : ReportId) (info : WorkerSyncInfo) :
    KVController × Bool :=
  match c.registry.getWorker id with
  | none => (c, false)
  | some node =>
    ({ c with registry := c.registry.setWorker id { node with syncInfo := some info } }, true)

def shouldRequestFullSync (c : KVController) (id : ReportId) : Option String :=
  match c.getSyncInfo id with
  | none => if c.fullSyncTracker.needFullSyncAll then some "controller_restart" else none
  | some info =>
    if c.fullSyncTracker.needFullSyncAll = true ∧
        ¬ (info.state = .syncing ∨ info.state = .completed) then
      some "controller_restart"
    else if info.state = .failed then some "sync_failed_retry"
    else none

def isWorkerSyncing (c : KVController) (id : ReportId) : Bool :=
  match c.getSyncInfo id with
  | none => false
  | some info => info.state = .syncing

/-- Refused only while another sync is open. -/
def startSync (c : KVController) (id : ReportId) (syncId : String) (totalKeys batchCount : Nat) :
    KVController × Bool :=
  let started := c.setSyncInfo id ⟨syncId, .syncing, totalKeys, batchCount, ∅, 0⟩
  match c.getSyncInfo id with
  | some info =>
    if info.state = .syncing ∧ info.syncId ≠ syncId then (c, false) else started
  | none => started

def receiveBatch (c : KVController) (id : ReportId) (syncId : String) (batchId keysCount : Nat) :
    KVController × Bool :=
  match c.getSyncInfo id with
  | none => (c, false)
  | some info =>
    if info.syncId ≠ syncId then (c, false)
    else if info.state ≠ .syncing then (c, false)
    else
      ((c.setSyncInfo id { info with
        receivedBatches := insert batchId info.receivedBatches
        receivedKeysCount := info.receivedKeysCount + keysCount }).1, true)

/-- A wrong number of keys is only logged, and the batches are not looked at. -/
def completeSync (c : KVController) (id : ReportId) (syncId : String) : KVController × Bool :=
  match c.getSyncInfo id with
  | none => (c, false)
  | some info =>
    if info.syncId ≠ syncId then (c, false)
    else ((c.setSyncInfo id { info with state := .completed }).1, true)

def markFailed (c : KVController) (id : ReportId) : KVController :=
  match c.getSyncInfo id with
  | none => c
  | some info => (c.setSyncInfo id { info with state := .failed }).1

/-- A worker without sync is ready. -/
def ready (node : WorkerNode) : Bool :=
  match node.syncInfo with
  | none => true
  | some info => info.state = .completed

def getGlobalProgress (c : KVController) (expired : Bool) : ℚ × KVController :=
  let all := c.registry.getAllWorkerNodesCached expired
  (if all.1.isEmpty then 0 else (all.1.countP ready : ℚ) / all.1.length,
    { c with registry := all.2 })

/-- Reaching the threshold ends the wish for a sync of all workers. -/
def canExitFreeze (c : KVController) (progress : ℚ) : Bool × KVController :=
  let canExit : Bool := c.fullSyncTracker.completionThreshold ≤ progress
  (canExit, { c with fullSyncTracker := { c.fullSyncTracker with
    needFullSyncAll := c.fullSyncTracker.needFullSyncAll && !canExit } })

def getMissingBatches (c : KVController) (id : ReportId) (syncId : String) : List Nat :=
  match c.getSyncInfo id with
  | none => []
  | some info =>
    if info.syncId ≠ syncId then []
    else if info.state ≠ .syncing then []
    else (List.range info.expectedBatchCount).filter (· ∉ info.receivedBatches)

def handleBatchedKvOperations (c : KVController) (msg : BatchedKVOperationMsg) : KVController :=
  if msg.operations = [] then c
  else if c.isWorkerSyncing msg.reportId then c
  else { c with registry := (c.registry.handleBatchedKvOperations msg false).1 }

def handleFullSyncStart (c : KVController) (msg : FullSyncStartMsg) :
    KVController × FullSyncStartRetMsg :=
  let started := c.startSync msg.reportId msg.syncId msg.totalKeys msg.batchCount
  if started.2 = false then
    (started.1, ⟨msg.syncId, false, some ("Failed to start sync: worker already syncing with " ++
      "different sync_id or worker not found")⟩)
  else if started.1.registry.getWorkerKvKeys msg.reportId msg.location = ∅ then
    (started.1, ⟨msg.syncId, true, none⟩)
  else
    ({ started.1 with
        registry := (started.1.registry.clearWorkerKv msg.reportId (some msg.location)).1 },
      ⟨msg.syncId, true, none⟩)

/-- The keys of the batch as operations; their numbers are not looked at. -/
def batchOperations (keys : List ChunkHash) : List KVOpEvent :=
  keys.zipIdx.map fun e => ⟨.admitOp, e.1, e.2⟩

def handleFullSyncBatch (c : KVController) (msg : FullSyncBatchMsg) : KVController :=
  let received := c.receiveBatch msg.reportId msg.syncId msg.batchId msg.keys.length
  if received.2 = false then received.1
  else if msg.keys = [] then received.1
  else
    { received.1 with registry := (received.1.registry.handleBatchedKvOperations
        ⟨msg.reportId, msg.location, batchOperations msg.keys⟩ true).1 }

def handleFullSyncEnd (c : KVController) (msg : FullSyncEndMsg) : KVController :=
  (c.completeSync msg.reportId msg.syncId).1

def handleFullSyncStatus (c : KVController) (msg : FullSyncStatusMsg) (expired : Bool) :
    FullSyncStatusRetMsg × KVController :=
  let isComplete : Bool :=
    match c.getSyncInfo msg.reportId with
    | none => false
    | some info => info.syncId = msg.syncId ∧ info.state = .completed
  let progress := c.getGlobalProgress expired
  let canExit := progress.2.canExitFreeze progress.1
  (⟨msg.syncId, isComplete, progress.1, canExit.1,
    canExit.2.getMissingBatches msg.reportId msg.syncId⟩, canExit.2)

/-- A worker that registers again loses its keys. -/
def register (c : KVController) (id : ReportId) : KVController :=
  match c.registry.getWorker id with
  | some _ => { c with registry := (c.registry.clearWorkerKv id none).1 }
  | none => { c with registry := c.registry.registerWorker id }

def deregister (c : KVController) (id : ReportId) : KVController :=
  { c with registry := c.registry.deregisterWorker id }

def heartbeat (c : KVController) (id : ReportId) : List HeartbeatCommand × KVController :=
  match c.registry.getWorker id with
  | none => (["worker_re_registered"], c.register id)
  | some _ => ((c.shouldRequestFullSync id).toList, c)

end KVController

end LMCache.CacheController
