import LMCache.L2.RawBlockAdapter

/-!
# The native connector adapter

Requests go to the connector under the lock of the adapter. A demultiplexing thread drains the
completions, handles them in one locked section, and reports the bytes stored and deleted after
it. A deletion waits for its completion; after thirty seconds it gives up its request. A
completion has at most one result for each key of its request.
-/

namespace LMCache.L2

open Lib Keys

inductive OpType
  | store
  | lookup
  | load
  | delete
  deriving DecidableEq

structure PendingOp where
  opType : OpType
  taskId : Nat
  numKeys : Nat
  keys : Option (List ObjectKey)

/-- What `drain_completions` gives, without the text of the error. -/
structure Completion where
  futureId : Nat
  ok : Bool
  resultBools : Option (List Bool)

/-- What a round of completions leaves to report, and the deletions to wake. -/
structure Round where
  stored : List (ObjectKey × Nat)
  deleted : List (ObjectKey × Nat)
  doneEvents : List Nat

inductive Demux
  | polling
  | notifyStored (round : Round)
  | notifyDeleted (round : Round)
  | wake (round : Round)

structure NativeConnectorL2Adapter where
  usage : UsageTracking
  hasDelete : Bool
  pendingOps : Dict Nat PendingOp
  completedStores : Dict Nat (Bool × Nat)
  completedLookups : Dict Nat (List Bool)
  completedLoads : Dict Nat (List Bool)
  lockedKeys : Dict ObjectKey Int
  /-- The deletions whose completion is still to come. -/
  pendingDeleteEvents : List Nat
  keySizes : Dict ObjectKey Nat
  pendingStoreSizes : Dict Nat (List (ObjectKey × Nat))
  nextTaskId : Nat
  /-- The deletions that have not returned. -/
  waiting : List Nat
  demux : Demux

inductive ConnectorEvent
  | submitStoreTask (futureId : Nat) (items : List (ObjectKey × Nat))
  | submitLookupAndLockTask (futureId : Nat) (keys : List ObjectKey)
  | submitLoadTask (futureId : Nat) (keys : List ObjectKey)
  | delete (futureId : Nat) (keys : List ObjectKey)
  /-- A deletion has waited too long. -/
  | timeOut (taskId : Nat)
  | submitUnlock (keys : List ObjectKey)
  | popCompletedStoreTasks
  | queryLookupAndLockResult (taskId : Nat)
  | queryLoadResult (taskId : Nat)
  | drain (completions : List Completion)
  /-- The thread goes on after a round. -/
  | report

def confirmedKeys (keys : List ObjectKey) (results : List Bool) : List ObjectKey :=
  ((keys.zip results).filter Prod.snd).map Prod.fst

/-- The sizes after a confirmed store, and what to report: the first store of a key counts. -/
def recordStored (keySizes : Dict ObjectKey Nat) :
    List (ObjectKey × Nat) → Dict ObjectKey Nat × List (ObjectKey × Nat)
  | [] => (keySizes, [])
  | (key, size) :: rest =>
    if keySizes.contains key then
      let tail := recordStored keySizes rest
      (tail.1, (key, 0) :: tail.2)
    else
      let tail := recordStored (keySizes.set key size) rest
      (tail.1, (key, size) :: tail.2)

/-- The sizes after confirmed deletions, and what to report. -/
def recordDeleted (keySizes : Dict ObjectKey Nat) :
    List ObjectKey → Dict ObjectKey Nat × List (ObjectKey × Nat)
  | [] => (keySizes, [])
  | key :: rest =>
    match keySizes.get? key with
    | none => recordDeleted keySizes rest
    | some size =>
      let tail := recordDeleted (keySizes.erase key) rest
      (tail.1, (key, size) :: tail.2)

def lockKeys (lockedKeys : Dict ObjectKey Int) (keys : List ObjectKey) : Dict ObjectKey Int :=
  keys.foldl (fun locks key => locks.set key ((locks.get? key).getD 0 + 1)) lockedKeys

/-- The body of `submit_unlock`: a key that is not locked is passed over. -/
def unlockKey (lockedKeys : Dict ObjectKey Int) (key : ObjectKey) : Dict ObjectKey Int :=
  match lockedKeys.get? key with
  | none => lockedKeys
  | some n => if n ≤ 1 then lockedKeys.erase key else lockedKeys.set key (n - 1)

/-- A bitmap of `numKeys` bits, of which the first are given. -/
def bitmapOf (numKeys : Nat) (bits : List Bool) : List Bool :=
  bits ++ List.replicate (numKeys - bits.length) false

namespace NativeConnectorL2Adapter

def start (maxCapacityBytes : Int) (hasDelete : Bool) : NativeConnectorL2Adapter where
  usage := .new maxCapacityBytes
  hasDelete
  pendingOps := Dict.empty
  completedStores := Dict.empty
  completedLookups := Dict.empty
  completedLoads := Dict.empty
  lockedKeys := Dict.empty
  pendingDeleteEvents := []
  keySizes := Dict.empty
  pendingStoreSizes := Dict.empty
  nextTaskId := 0
  waiting := []
  demux := .polling

variable (s : NativeConnectorL2Adapter)

def register (futureId : Nat) (opType : OpType) (numKeys : Nat) (keys : Option (List ObjectKey)) :
    NativeConnectorL2Adapter :=
  { s with
    nextTaskId := s.nextTaskId + 1
    pendingOps := s.pendingOps.set futureId ⟨opType, s.nextTaskId, numKeys, keys⟩ }

def submitStoreTask (futureId : Nat) (items : List (ObjectKey × Nat)) : NativeConnectorL2Adapter :=
  { s.register futureId .store items.length none with
    pendingStoreSizes := s.pendingStoreSizes.set futureId items }

/-- The first section of `delete`. -/
def delete (futureId : Nat) (keys : List ObjectKey) : Option NativeConnectorL2Adapter :=
  if keys = [] ∨ !s.hasDelete then none
  else some { s.register futureId .delete keys.length (some keys) with
    pendingDeleteEvents := s.pendingDeleteEvents ++ [s.nextTaskId]
    waiting := s.waiting ++ [s.nextTaskId] }

def pendingFuture (taskId : Nat) : Option Nat :=
  (s.pendingOps.entries.find? fun e => e.2.taskId = taskId).map Prod.fst

/-- The second section of `delete`, after a time-out. -/
def timeOut (taskId : Nat) : Option NativeConnectorL2Adapter :=
  if taskId ∉ s.waiting then none
  else some { s with
    pendingDeleteEvents := s.pendingDeleteEvents.erase taskId
    pendingOps :=
      match s.pendingFuture taskId with
      | none => s.pendingOps
      | some futureId => s.pendingOps.erase futureId
    waiting := s.waiting.erase taskId }

def submitUnlock (keys : List ObjectKey) : NativeConnectorL2Adapter :=
  { s with lockedKeys := keys.foldl unlockKey s.lockedKeys }

def complete (round : Round) (completion : Completion) :
    Option (NativeConnectorL2Adapter × Round) :=
  let results := completion.resultBools.getD []
  match s.pendingOps.get? completion.futureId with
  | none => some (s, round)
  | some op =>
    if op.numKeys < results.length then none
    else
      let s := { s with pendingOps := s.pendingOps.erase completion.futureId }
      match op.opType with
      | .store =>
        let items := if completion.ok then s.pendingStoreSizes.get? completion.futureId else none
        let stored := recordStored s.keySizes (items.getD [])
        some ({ s with
          pendingStoreSizes := s.pendingStoreSizes.erase completion.futureId
          keySizes := stored.1
          completedStores := s.completedStores.set op.taskId
            (completion.ok, (stored.2.map Prod.snd).sum) },
          { round with stored := round.stored ++ stored.2 })
      | .lookup =>
        let found := if completion.ok then results else []
        some ({ s with
          lockedKeys := lockKeys s.lockedKeys (confirmedKeys (op.keys.getD []) found)
          completedLookups := s.completedLookups.set op.taskId (bitmapOf op.numKeys found) },
          round)
      | .load =>
        let loaded := match completion.resultBools with
          | some results => results
          | none => List.replicate op.numKeys completion.ok
        some ({ s with
          completedLoads := s.completedLoads.set op.taskId (bitmapOf op.numKeys loaded) }, round)
      | .delete =>
        let deleted := recordDeleted s.keySizes (confirmedKeys (op.keys.getD []) results)
        some ({ s with
          keySizes := deleted.1
          pendingDeleteEvents := s.pendingDeleteEvents.erase op.taskId },
          { round with
            deleted := round.deleted ++ deleted.2
            doneEvents := round.doneEvents ++
              if op.taskId ∈ s.pendingDeleteEvents then [op.taskId] else [] })

def completeAll : NativeConnectorL2Adapter → Round → List Completion →
    Option (NativeConnectorL2Adapter × Round)
  | s, round, [] => some (s, round)
  | s, round, completion :: rest =>
    match s.complete round completion with
    | none => none
    | some (t, round') => completeAll t round' rest

/-- The locked section of `_demux_loop`. -/
def drain (completions : List Completion) : Option NativeConnectorL2Adapter :=
  match s.demux with
  | .polling => (s.completeAll ⟨[], [], []⟩ completions).map fun r =>
      { r.1 with demux := .notifyStored r.2 }
  | _ => none

/-- The rest of a round: the two reports, and the deletions that wake up. -/
def report : Option NativeConnectorL2Adapter :=
  match s.demux with
  | .polling => none
  | .notifyStored round => some { s with
      usage := if round.stored = [] then s.usage else s.usage.notifyKeysStored round.stored
      demux := .notifyDeleted round }
  | .notifyDeleted round => some { s with
      usage := if round.deleted = [] then s.usage else s.usage.notifyKeysDeleted round.deleted
      demux := .wake round }
  | .wake round => some { s with
      waiting := s.waiting.filter (· ∉ round.doneEvents)
      demux := .polling }

/-- One section or report; `none` if it is not due. -/
def next : ConnectorEvent → Option NativeConnectorL2Adapter
  | .submitStoreTask futureId items => some (s.submitStoreTask futureId items)
  | .submitLookupAndLockTask futureId keys =>
    some (s.register futureId .lookup keys.length (some keys))
  | .submitLoadTask futureId keys => some (s.register futureId .load keys.length (some keys))
  | .delete futureId keys => s.delete futureId keys
  | .timeOut taskId => s.timeOut taskId
  | .submitUnlock keys => some (s.submitUnlock keys)
  | .popCompletedStoreTasks => some { s with completedStores := Dict.empty }
  | .queryLookupAndLockResult taskId =>
    some { s with completedLookups := s.completedLookups.erase taskId }
  | .queryLoadResult taskId => some { s with completedLoads := s.completedLoads.erase taskId }
  | .drain completions => s.drain completions
  | .report => s.report

def Step (s : NativeConnectorL2Adapter) (event : ConnectorEvent) (t : NativeConnectorL2Adapter) :
    Prop := s.next event = some t

end NativeConnectorL2Adapter

end LMCache.L2
