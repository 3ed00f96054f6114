import LMCache.L1.Manager
import LMCache.Prefetch.Plan
import Mathlib.Data.List.SplitBy

/-!
# One prefetch request

The part of `PrefetchController` that handles one request. The controller runs the handlers on one
thread; a handler is cut at each call on the L1 manager, because other threads may call the
manager in between. Events, status counters, layouts and byte counts are left out.
-/

namespace LMCache

open Lib Option

/-- `PrefetchRequestSpec`. The keys of a request are distinct; with the prefix policy they
fill whole chunks. -/
structure PrefetchRequestSpec (K : Type) where
  keys : List K
  numKvReaders : Nat
  policy : TrimPolicy
  attn : AttnWindowDesc
  mode : PrefetchMode
  keys_nodup : keys.Nodup
  keys_fill : policy = .prefixOnly → attn.stride ∣ keys.length

/-- What the controller takes from its prefetch policy and from the keys. -/
structure PrefetchConfig (K : Type) where
  maxInFlight : Nat
  objectGroupId : K → Nat
  selectL1Retentions : List K → List Bool

inductive ProgramPoint (K : Type)
  /-- About to read-lock the keys in L1. -/
  | lockL1
  /-- About to give back the locks behind the window of the L1 hit. -/
  | evict (evictable : Bitmap)
  | waitLookup
  /-- About to give back the locks that the load phase does not need. -/
  | releaseStale (stale : Bitmap) (plan : LoadPlan) (hitLength : Nat)
  /-- About to reserve buffers for the first group. -/
  | reserve (plan : LoadPlan) (hitLength : Nat) (groups : List (List K))
  | waitLoad
  /-- Calls left before the result is published; no result when the controller stops. -/
  | finish (calls : List (L1Op K)) (result : Option Bitmap)
  | done (result : Option Bitmap)

namespace ProgramPoint

variable {K : Type}

def finishing (calls : List (L1Op K)) (result : Option Bitmap) : ProgramPoint K :=
  if calls.isEmpty then .done result else .finish calls result

def isDone : ProgramPoint K → Bool
  | .done _ => true
  | _ => false

/-- A handler is about to make a call. -/
def calling : ProgramPoint K → Bool
  | .lockL1 | .evict _ | .releaseStale _ _ _ | .reserve _ _ (_ :: _) | .finish (_ :: _) _ => true
  | _ => false

end ProgramPoint

structure InFlightPrefetchRequest (K : Type) where
  spec : PrefetchRequestSpec K
  point : ProgramPoint K
  pendingLookupTasks : List Nat
  lookupResults : Dict Nat Bitmap
  /-- L2 read locks currently held. -/
  l2Adapter2Readlocks : Dict Nat Bitmap
  /-- The `submit_unlock` calls made so far, key by key. -/
  submittedUnlocks : List (Nat × K)
  loadPlan : LoadPlan
  pendingLoadTasks : List Nat
  loadResults : Dict Nat Bitmap
  /-- Write-reserved keys with their buffers. -/
  writeReserved : List (K × MemoryObj)
  l1Readlocks : Bitmap
  /-- The hit that `query_lookup_result` reports. -/
  lookupHit : Option Nat

namespace InFlightPrefetchRequest

variable {K : Type} [DecidableEq K]

def start (spec : PrefetchRequestSpec K) : InFlightPrefetchRequest K where
  spec := spec
  point := .lockL1
  pendingLookupTasks := []
  lookupResults := Dict.empty
  l2Adapter2Readlocks := Dict.empty
  submittedUnlocks := []
  loadPlan := Dict.empty
  pendingLoadTasks := []
  loadResults := Dict.empty
  writeReserved := []
  l1Readlocks := Bitmap.zeros spec.keys.length
  lookupHit := none

section Pure

variable (r : InFlightPrefetchRequest K)

def numKeys : Nat := r.spec.keys.length

/-- Keys at the set bits. -/
def keysAt (b : Bitmap) : List K := b.gather r.spec.keys

/-- One adapter of `_release_l2_locks`: the keys to unlock and the locks that stay. -/
def releaseStep (keep : LoadPlan) (adapter : Nat) : Option Bitmap → List K × Option Bitmap
  | none => ([], none)
  | some held =>
    let keepBitmap := (keep.get? adapter).getD (Bitmap.zeros r.numKeys)
    let remaining := held.and keepBitmap
    (r.keysAt (held.and keepBitmap.not), if remaining.popcount = 0 then none else some remaining)

def releaseL2Locks (keep : LoadPlan) : InFlightPrefetchRequest K :=
  let loop := Dict.updateEach (r.releaseStep keep) r.l2Adapter2Readlocks.keys r.l2Adapter2Readlocks
  { r with
    l2Adapter2Readlocks := loop.2
    submittedUnlocks :=
      r.submittedUnlocks ++ loop.1.flatMap fun o => o.2.map fun k => (o.1, k) }

def loadedKeys : List K := r.keysAt (loadedBitmap r.numKeys r.loadPlan r.loadResults)

def reservedKeys : List K := r.writeReserved.map Prod.fst

def failedKeys : List K := r.reservedKeys.filter fun k => k ∉ r.loadedKeys

def resultBitmap : Bitmap := (loadedBitmap r.numKeys r.loadPlan r.loadResults).or r.l1Readlocks

/-- The calls of a branch that the source takes for a nonempty list of keys only. -/
def callsFor (keys : List K) (calls : List (L1Op K)) : List (L1Op K) :=
  if keys.isEmpty then [] else calls

def finishLoaded : L1Op K :=
  match r.spec.mode with
  | .warm => .finishWrite r.loadedKeys
  | .lookup => .finishWriteAndReserveRead r.loadedKeys r.spec.numKvReaders

/-- Keys whose read locks are given back at the end. -/
def releasedKeys (retained : Bitmap) : List K :=
  match r.spec.mode with
  | .warm => r.keysAt r.l1Readlocks
  | .lookup => r.keysAt (r.resultBitmap.and retained.not)

/-- Give up write-reserved keys: finish the write, then delete the buffer. -/
def discardCalls (keys : List K) : List (L1Op K) :=
  callsFor keys [.finishWrite keys, .delete keys false]

/-- Give back read locks, then refresh the recency of the retained keys. -/
def releaseCalls (retained : Bitmap) : List (L1Op K) :=
  callsFor (r.releasedKeys retained) [.finishRead (r.releasedKeys retained) r.spec.numKvReaders] ++
    callsFor (r.keysAt retained) [.touchKeys (r.keysAt retained)]

def finishCalls (retained : Bitmap) : List (L1Op K) :=
  callsFor r.loadedKeys [r.finishLoaded] ++ (discardCalls r.failedKeys ++ r.releaseCalls retained)

def finishRequest : InFlightPrefetchRequest K :=
  let trim := buildTrimMask r.resultBitmap r.numKeys r.spec.policy r.spec.attn
  { r.releaseL2Locks Dict.empty with
    point := .finishing (r.finishCalls trim.2) (some trim.2)
    lookupHit := r.lookupHit.or (some trim.1) }

def cleanupCalls : List (L1Op K) :=
  discardCalls r.reservedKeys ++
    callsFor (r.keysAt r.l1Readlocks) [.finishRead (r.keysAt r.l1Readlocks) r.spec.numKvReaders]

/-- `_cleanup_in_flight_requests`, for one request. -/
def cleanup : InFlightPrefetchRequest K :=
  { r.releaseL2Locks Dict.empty with point := .finishing r.cleanupCalls none }

/-- Submit lookups to the routed adapters, or finish when there is none. -/
def startLookups (routing : List Nat) : InFlightPrefetchRequest K :=
  if routing.isEmpty then r.finishRequest
  else { r with pendingLookupTasks := routing, point := .waitLookup }

def granted (reply : L1Reply K) : Bitmap :=
  match reply with
  | .results ret => presenceBitmap r.spec.keys fun k => (ret.get? k).any fun o => o.1 = .success
  | _ => Bitmap.zeros r.numKeys

/-- `_lock_l1_keys` after its `reserve_read`. -/
def afterLockL1 (routing : List Nat) (reply : L1Reply K) : InFlightPrefetchRequest K :=
  let locked := r.granted reply
  let evictable := evictableLocks locked r.numKeys r.spec.attn
  let kept := { r with l1Readlocks := keptLocks locked r.numKeys r.spec.policy r.spec.attn }
  if r.spec.policy ≠ .prefixOnly ∨ evictable.popcount = 0 then kept.startLookups routing
  else { kept with point := .evict evictable }

def keysToReserve (plan : LoadPlan) : List K := r.keysAt (mergeBitmaps plan.values r.numKeys)

def reserveGroups (cfg : PrefetchConfig K) (plan : LoadPlan) : List (List K) :=
  ((r.keysToReserve plan).insertionSort
    fun a b => cfg.objectGroupId a ≤ cfg.objectGroupId b).splitBy
    fun a b => cfg.objectGroupId a == cfg.objectGroupId b

def isTemporary (cfg : PrefetchConfig K) (plan : LoadPlan) (group : List K) : List Bool :=
  let keys := r.keysToReserve plan
  let retentions := match r.spec.mode with
    | .warm => List.replicate keys.length true
    | .lookup => cfg.selectL1Retentions keys
  let retentionMap := Dict.ofList (keys.zip retentions)
  group.map fun k => !(retentionMap.get? k).getD true

/-- After the last reservation: give up, or release the L2 locks outside the plan and
submit the loads. -/
def afterReserve (plan : LoadPlan) (hitLength : Nat) : InFlightPrefetchRequest K :=
  if r.writeReserved.length < (r.keysToReserve plan).length then r.finishRequest
  else
    { ({ r with loadPlan := plan }).releaseL2Locks plan with
      pendingLoadTasks := plan.keys
      lookupHit := some hitLength
      point := .waitLoad }

def startReserving (cfg : PrefetchConfig K) (plan : LoadPlan) (hitLength : Nat) :
    InFlightPrefetchRequest K :=
  match r.reserveGroups cfg plan with
  | [] => r.afterReserve plan hitLength
  | groups => { r with point := .reserve plan hitLength groups }

def grantedBuffers (group : List K) (reply : L1Reply K) : List (K × MemoryObj) :=
  match reply with
  | .results ret => group.filterMap fun k =>
    match ret.get? k with
    | some (.success, some obj) => some (k, obj)
    | _ => none
  | _ => []

def transitionToLoadPhase (cfg : PrefetchConfig K) (routing : List Nat) :
    InFlightPrefetchRequest K :=
  let phase := loadPhase r.l1Readlocks r.numKeys r.spec.policy r.spec.attn r.lookupResults routing
  let kept := { r with l1Readlocks := phase.l1Readlocks }
  if phase.trimmedPlan.entries.isEmpty then r.finishRequest
  else if phase.stale.popcount > 0 then
    { kept with point := .releaseStale phase.stale phase.trimmedPlan phase.hitLength }
  else kept.startReserving cfg phase.trimmedPlan phase.hitLength

end Pure

section Steps

variable (cfg : PrefetchConfig K) (routing : List Nat) (r : InFlightPrefetchRequest K)

/-- The call the handler is about to make; `outcome` is what the allocator will answer. -/
def nextCall (outcome : AllocOutcome) : Option (L1Op K) :=
  match r.point with
  | .lockL1 => some (.reserveRead r.spec.keys r.spec.numKvReaders)
  | .evict evictable => some (.finishRead (r.keysAt evictable) r.spec.numKvReaders)
  | .releaseStale stale _ _ => some (.finishRead (r.keysAt stale) r.spec.numKvReaders)
  | .reserve plan _ (group :: _) =>
    some (.reserveWrite group (r.isTemporary cfg plan group) .new outcome)
  | .finish (call :: _) _ => some call
  | _ => none

def resume (reply : L1Reply K) : InFlightPrefetchRequest K :=
  match r.point with
  | .lockL1 => r.afterLockL1 routing reply
  | .evict _ => r.startLookups routing
  | .releaseStale _ plan hitLength => r.startReserving cfg plan hitLength
  | .reserve plan hitLength (group :: groups) =>
    let reserved := { r with writeReserved := r.writeReserved ++ grantedBuffers group reply }
    match groups with
    | [] => reserved.afterReserve plan hitLength
    | rest => { reserved with point := .reserve plan hitLength rest }
  | .finish (_ :: calls) result => { r with point := .finishing calls result }
  | _ => r

section Resume

variable {cfg routing r} (reply : L1Reply K)

theorem resume_lockL1 (h : r.point = .lockL1) :
    r.resume cfg routing reply = r.afterLockL1 routing reply := by
  unfold resume
  rw [h]

theorem resume_evict {evictable : Bitmap} (h : r.point = .evict evictable) :
    r.resume cfg routing reply = r.startLookups routing := by
  unfold resume
  rw [h]

variable {plan : LoadPlan} {hitLength : Nat}

theorem resume_releaseStale {stale : Bitmap} (h : r.point = .releaseStale stale plan hitLength) :
    r.resume cfg routing reply = r.startReserving cfg plan hitLength := by
  unfold resume
  rw [h]

/-- The request after one more group was reserved. -/
def withBuffers (r : InFlightPrefetchRequest K) (group : List K) (reply : L1Reply K) :
    InFlightPrefetchRequest K :=
  { r with writeReserved := r.writeReserved ++ grantedBuffers group reply }

variable {group : List K}

theorem resume_reserve_last (h : r.point = .reserve plan hitLength [group]) :
    r.resume cfg routing reply = (r.withBuffers group reply).afterReserve plan hitLength := by
  unfold resume
  rw [h]
  rfl

theorem resume_reserve {next : List K} {groups : List (List K)}
    (h : r.point = .reserve plan hitLength (group :: next :: groups)) :
    r.resume cfg routing reply =
      { r.withBuffers group reply with point := .reserve plan hitLength (next :: groups) } := by
  unfold resume
  rw [h]
  rfl

theorem resume_finish {call : L1Op K} {calls : List (L1Op K)} {result : Option Bitmap}
    (h : r.point = .finish (call :: calls) result) :
    r.resume cfg routing reply = { r with point := .finishing calls result } := by
  unfold resume
  rw [h]

theorem nextCall_cases {outcome : AllocOutcome} {op : L1Op K}
    (h : r.nextCall cfg outcome = some op) :
    (r.point = .lockL1 ∧ op = .reserveRead r.spec.keys r.spec.numKvReaders) ∨
    (∃ evictable, r.point = .evict evictable ∧
      op = .finishRead (r.keysAt evictable) r.spec.numKvReaders) ∨
    (∃ stale plan hitLength, r.point = .releaseStale stale plan hitLength ∧
      op = .finishRead (r.keysAt stale) r.spec.numKvReaders) ∨
    (∃ plan hitLength group groups, r.point = .reserve plan hitLength (group :: groups) ∧
      op = .reserveWrite group (r.isTemporary cfg plan group) .new outcome) ∨
    (∃ calls result, r.point = .finish (op :: calls) result) := by
  unfold nextCall at h
  split at h <;> rename_i hAt
  · exact Or.inl ⟨hAt, (some.inj h).symm⟩
  · exact Or.inr (Or.inl ⟨_, hAt, (some.inj h).symm⟩)
  · exact Or.inr (Or.inr (Or.inl ⟨_, _, _, hAt, (some.inj h).symm⟩))
  · exact Or.inr (Or.inr (Or.inr (Or.inl ⟨_, _, _, _, hAt, (some.inj h).symm⟩)))
  · obtain rfl := some.inj h
    exact Or.inr (Or.inr (Or.inr (Or.inr ⟨_, _, hAt⟩)))
  · cases h

end Resume

def running : Bool := (r.nextCall cfg .success).isSome

theorem calling_of_nextCall {cfg : PrefetchConfig K} {r : InFlightPrefetchRequest K}
    {outcome : AllocOutcome} {op : L1Op K} (h : r.nextCall cfg outcome = some op) :
    r.point.calling = true := by
  obtain ⟨hAt, -⟩ | ⟨evictable, hAt, -⟩ | ⟨stale, plan, hitLength, hAt, -⟩ |
    ⟨plan, hitLength, group, groups, hAt, -⟩ | ⟨calls, result, hAt⟩ := nextCall_cases h
  all_goals
    rw [hAt]
    rfl

theorem running_eq : r.running cfg = r.point.calling := by
  unfold running nextCall ProgramPoint.calling
  split <;> simp_all

def lookupDone (adapter : Nat) (result : Bitmap) : InFlightPrefetchRequest K :=
  let polled := { r with
    lookupResults := r.lookupResults.set adapter result
    l2Adapter2Readlocks := r.l2Adapter2Readlocks.set adapter result
    pendingLookupTasks := r.pendingLookupTasks.erase adapter }
  if polled.pendingLookupTasks.isEmpty then polled.transitionToLoadPhase cfg routing else polled

def loadDone (adapter : Nat) (result : Bitmap) : InFlightPrefetchRequest K :=
  let polled := { r with
    loadResults := r.loadResults.set adapter result
    pendingLoadTasks := r.pendingLoadTasks.erase adapter }
  if polled.pendingLoadTasks.isEmpty then polled.finishRequest else polled

/-- The request still refers to the adapter (`_adapter_in_use`). -/
def uses (adapter : Nat) : Bool :=
  decide (adapter ∈ r.pendingLookupTasks) || decide (adapter ∈ r.pendingLoadTasks) ||
    r.loadPlan.contains adapter || r.lookupResults.contains adapter

end Steps

end InFlightPrefetchRequest

end LMCache
