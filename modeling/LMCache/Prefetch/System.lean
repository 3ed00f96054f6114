import LMCache.L1.Owners
import LMCache.Prefetch.Request

/-!
# The controllers and their clients

The prefetch controller, the store controller and arbitrary other clients around one L1 manager.
Steps interleave at single calls on the manager, except that the handlers of the prefetch
controller run on one thread. Calls name distinct keys; one that repeats a key does what calls
over distinct keys do one after the other (`reserveRead_append`).
-/

namespace LMCache

open Lib

inductive Actor
  | client (id : Nat)
  | store
  | request (id : Nat)
deriving DecidableEq, Repr

structure StoreController (K : Type) where
  /-- Keys of the listener's queue. -/
  pendingKeys : List K
  /-- Target lists of the batch under way, one per adapter. -/
  targets : List (List K)
  /-- Keys of the current list that were reserved, with their objects. -/
  successful : List (K × MemoryObj)
  /-- Keys that each store task has still read-locked. -/
  inFlightTasks : List (List K)
  /-- Objects of every `submit_store_task` call. -/
  submitted : List (List MemoryObj)

namespace StoreController

variable {K : Type}

def new : StoreController K := ⟨[], [], [], [], []⟩

/-- `on_l1_keys_write_finished`; the other notifications are ignored. -/
def notified (c : StoreController K) (events : List (L1Event K)) : StoreController K :=
  { c with
    pendingKeys := c.pendingKeys ++ events.flatMap fun
      | .writeFinished keys => keys
      | _ => [] }

/-- The current target list is exhausted: submit what was reserved. -/
def submitStore (c : StoreController K) (rest : List (List K)) : StoreController K :=
  if c.successful.isEmpty then { c with targets := rest }
  else
    { c with
      targets := rest
      successful := []
      inFlightTasks := c.inFlightTasks ++ [c.successful.map Prod.fst]
      submitted := c.submitted ++ [c.successful.map Prod.snd] }

/-- After `reserve_read` of the first key of the current target list. -/
def afterReserve (c : StoreController K) (keys : List K) (rest : List (List K))
    (granted : Option (K × MemoryObj)) : StoreController K :=
  let c := { c with successful := c.successful ++ granted.toList }
  if keys.isEmpty then c.submitStore rest else { c with targets := keys :: rest }

end StoreController

structure PrefetchController (K : Type) where
  nextRequestId : Nat
  pendingQueue : List (Nat × PrefetchRequestSpec K)
  /-- Requests that were started, the finished ones included. -/
  requests : Dict Nat (InFlightPrefetchRequest K)
  l2Adapters : List Nat
  draining : List Nat

namespace PrefetchController

variable {K : Type}

def new (l2Adapters : List Nat) : PrefetchController K := ⟨0, [], Dict.empty, l2Adapters, []⟩

def routing (c : PrefetchController K) : List Nat :=
  c.l2Adapters.filter fun a => a ∉ c.draining

def inFlight (c : PrefetchController K) : List (InFlightPrefetchRequest K) :=
  c.requests.values.filter fun r => !r.point.isDone

def busy [DecidableEq K] (c : PrefetchController K) (cfg : PrefetchConfig K) : Bool :=
  c.requests.values.any fun r => r.running cfg

def adapterInUse (c : PrefetchController K) (adapter : Nat) : Bool :=
  c.inFlight.any fun r => r.uses adapter

end PrefetchController

structure PrefetchSystem (K : Type) where
  ledger : Owned Actor K
  controller : PrefetchController K
  store : StoreController K
  /-- Buffers that some writer reserved again after their allocation. -/
  rewritten : MemoryObj → Bool
  /-- Every object that `reserve_read` returned to anybody. -/
  readGrants : List MemoryObj

inductive SystemLabel (K : Type)
  | submit (spec : PrefetchRequestSpec K)
  | start
  | call (id : Nat) (outcome : AllocOutcome)
  | lookupDone (id adapter : Nat) (result : Bitmap)
  | loadDone (id adapter : Nat) (result : Bitmap)
  | cleanup (id : Nat)
  | addAdapter (adapter : Nat)
  | drainAdapter (adapter : Nat)
  | detachAdapter (adapter : Nat)
  | storePop (targets : List (List K))
  | storeReserve
  | storeFinish (task : Nat)
  | client (actor : Actor) (op : L1Op K)

namespace PrefetchSystem

variable {K : Type} [DecidableEq K]

def init (m : L1Manager K) (l2Adapters : List Nat) : PrefetchSystem K where
  ledger := Owned.init m
  controller := PrefetchController.new l2Adapters
  store := StoreController.new
  rewritten := fun _ => false
  readGrants := []

def l1Call (s : PrefetchSystem K) (a : Actor) (op : L1Op K) : PrefetchSystem K :=
  { s with
    ledger := s.ledger.act a op
    store := s.store.notified (s.ledger.manager.apply op).events
    rewritten := fun obj => s.rewritten obj || op.keys.any fun k =>
      s.ledger.event op k = .writeReserved obj && s.ledger.manager.heldBy k = some obj
    readGrants := s.readGrants ++ op.keys.filterMap fun k =>
      match s.ledger.event op k with
      | .readReserved obj _ => some obj
      | _ => none }

def setRequest (s : PrefetchSystem K) (id : Nat) (r : InFlightPrefetchRequest K) :
    PrefetchSystem K :=
  { s with controller := { s.controller with requests := s.controller.requests.set id r } }

def finishesOwnWrites (s : PrefetchSystem K) (a : Actor) : L1Op K → Bool
  | .finishWrite keys | .finishWriteAndReserveRead keys _ =>
    keys.all fun k => s.ledger.writer k = some a
  | _ => true

/-- Who may act from outside: any client, and the retriever of a finished request. -/
def isOutside (s : PrefetchSystem K) : Actor → Bool
  | .client _ => true
  | .store => false
  | .request id => (s.controller.requests.get? id).any fun r => r.point.isDone

def callOf (cfg : PrefetchConfig K) (s : PrefetchSystem K) :
    SystemLabel K → Option (Actor × L1Op K)
  | .call id outcome =>
    (s.controller.requests.get? id).bind fun r =>
      (r.nextCall cfg outcome).map fun op => (.request id, op)
  | .storeReserve =>
    match s.store.targets with
    | (k :: _) :: _ => some (.store, .reserveRead [k] 1)
    | _ => none
  | .storeFinish task =>
    match s.store.inFlightTasks[task]? with
    | some (k :: _) => some (.store, .finishRead [k] 1)
    | _ => none
  | .client a op => some (a, op)
  | _ => none

/-- What `reserve_read` of one key returned. -/
def grantedObject (reply : L1Reply K) (k : K) : Option (K × MemoryObj) :=
  match reply with
  | .results ret =>
    match ret.get? k with
    | some (.success, some obj) => some (k, obj)
    | _ => none
  | _ => none

def afterCall (cfg : PrefetchConfig K) (s : PrefetchSystem K) (a : Actor) (op : L1Op K) :
    SystemLabel K → Option (PrefetchSystem K)
  | .call id _ =>
    (s.controller.requests.get? id).map fun r =>
      (s.l1Call a op).setRequest id
        (r.resume cfg s.controller.routing (s.ledger.manager.apply op).reply)
  | .storeReserve =>
    match s.store.targets with
    | (k :: keys) :: rest =>
      let t := s.l1Call a op
      some { t with
        store := t.store.afterReserve keys rest
          (grantedObject (s.ledger.manager.apply op).reply k) }
    | _ => none
  | .storeFinish task =>
    match s.store.inFlightTasks[task]? with
    | some (_ :: keys) =>
      let t := s.l1Call a op
      some { t with store := { t.store with inFlightTasks := t.store.inFlightTasks.set task keys } }
    | _ => none
  | .client _ _ =>
    if op.keys.Nodup ∧ s.isOutside a ∧ s.finishesOwnWrites a op then some (s.l1Call a op)
    else none
  | _ => none

/-- The steps of the controllers that make no call on the manager. -/
def afterEvent (cfg : PrefetchConfig K) (s : PrefetchSystem K) :
    SystemLabel K → Option (PrefetchSystem K)
  | .submit spec =>
    let c := s.controller
    some { s with
      controller := { c with
        nextRequestId := c.nextRequestId + 1
        pendingQueue := c.pendingQueue ++ [(c.nextRequestId, spec)] } }
  | .start =>
    match s.controller.pendingQueue with
    | (id, spec) :: queue =>
      if s.controller.inFlight.length < cfg.maxInFlight then
        some (({ s with controller := { s.controller with pendingQueue := queue } }).setRequest id
          (InFlightPrefetchRequest.start spec))
      else none
    | [] => none
  | .lookupDone id adapter result =>
    (s.controller.requests.get? id).bind fun r =>
      match r.point with
      | .waitLookup =>
        if adapter ∈ r.pendingLookupTasks ∧ result.size = r.numKeys then
          some (s.setRequest id (r.lookupDone cfg s.controller.routing adapter result))
        else none
      | _ => none
  | .loadDone id adapter result =>
    (s.controller.requests.get? id).bind fun r =>
      match r.point with
      | .waitLoad =>
        if adapter ∈ r.pendingLoadTasks then some (s.setRequest id (r.loadDone adapter result))
        else none
      | _ => none
  | .cleanup id =>
    (s.controller.requests.get? id).bind fun r =>
      match r.point with
      | .waitLookup | .waitLoad => some (s.setRequest id r.cleanup)
      | _ => none
  | .addAdapter adapter =>
    if adapter ∈ s.controller.l2Adapters then none
    else some { s with
      controller := { s.controller with l2Adapters := s.controller.l2Adapters ++ [adapter] } }
  | .drainAdapter adapter =>
    if adapter ∈ s.controller.l2Adapters then some { s with
      controller := { s.controller with draining := adapter :: s.controller.draining } }
    else none
  | .detachAdapter adapter =>
    if adapter ∈ s.controller.draining ∧ s.controller.adapterInUse adapter = false then
      some { s with
        controller := { s.controller with
          l2Adapters := s.controller.l2Adapters.filter (· ≠ adapter)
          draining := s.controller.draining.filter (· ≠ adapter) } }
    else none
  | .storePop targets =>
    if s.store.targets = [] ∧ ∀ keys ∈ targets, keys ≠ [] ∧ ∀ k ∈ keys, k ∈ s.store.pendingKeys then
      some { s with store := { s.store with pendingKeys := [], targets := targets } }
    else none
  | _ => none

/-- Steps of the prefetch thread that only run between two handlers. -/
def needsIdle : SystemLabel K → Bool
  | .start | .lookupDone _ _ _ | .loadDone _ _ _ | .cleanup _ | .addAdapter _ | .drainAdapter _
  | .detachAdapter _ => true
  | _ => false

def next (cfg : PrefetchConfig K) (s : PrefetchSystem K) (label : SystemLabel K) :
    Option (PrefetchSystem K) :=
  if needsIdle label && s.controller.busy cfg then none
  else
    match s.callOf cfg label with
    | some (a, op) => s.afterCall cfg a op label
    | none => s.afterEvent cfg label

def Step (cfg : PrefetchConfig K) (s : PrefetchSystem K) (label : SystemLabel K)
    (t : PrefetchSystem K) : Prop := s.next cfg label = some t

end PrefetchSystem

end LMCache
