import LMCache.Coordinator.EventGate

/-!
# The emitter of cache events

`CacheEventSubscriber` turns the storage events of one server process into batches. Entries of
the same type, tier, backend and sharing that follow each other are merged, a flush numbers
the pending batches and hands them to the sink, and a batch that the sink fails to publish is
not kept. The time of a flush, and whether its publication failed, are arguments.

The batches that were handed to the sink are a record that nothing reads.
-/

namespace LMCache.Coordinator

open Lib Serde CacheEventType

inductive L1BackendType
  | dram
  | devdax
  | gds
deriving DecidableEq

def L1BackendType.value : L1BackendType → String
  | .dram => "dram"
  | .devdax => "devdax"
  | .gds => "gds"

theorem L1BackendType.value_ne (b : L1BackendType) : b.value ≠ "" := by
  cases b <;> decide

structure L1ObjectMeta where
  sizeBytes : Nat
  backend : L1BackendType

structure ChunkTokens where
  tokenIds : List Int
  tokenOffset : Option Nat

/-- The name of an L2 adapter type or of a medium is not empty. -/
abbrev BackendName := { name : String // name ≠ "" }

structure CapacityModule where
  tier : Tier
  backend : BackendName
  capacityBytes : Nat
  shared : Bool

abbrev CapacitySnapshot := List CapacityModule

inductive StorageEvent
  | l1Store (objects : List (ObjectKey × L1ObjectMeta))
  | l1Delete (objects : List (ObjectKey × L1ObjectMeta))
  | l1Access (keys : List ObjectKey)
  | l2Store (backend : BackendName) (shared : Bool) (objects : List (ObjectKey × Nat))
  | l2Delete (backend : BackendName) (shared : Bool) (keys : List ObjectKey)
  | l2Access (backend : BackendName) (shared : Bool) (keys : List ObjectKey)
  | tokens (chunks : List (Bytes × ChunkTokens))
  | capacityChanged (snapshot : CapacitySnapshot)
  | tick

structure Emitter where
  instanceId : String
  incarnation : Nat
  instanceId_ne : instanceId ≠ ""

/-- `_PendingBatch`. Declarations of capacity are not kept in this form. -/
structure PendingBatch where
  eventType : CacheEventType
  tier : Tier
  backend : String
  shared : Bool
  entries : List CacheEventEntry
  backend_ne : eventType ≠ .access → backend ≠ ""
  not_config : eventType ≠ .config

structure CacheEventSubscriber where
  seq : Nat
  pendingBatches : List PendingBatch
  pendingCapacity : Option CapacitySnapshot
  capacityRevision : Nat
  tokenBindings : Dict Bytes ChunkTokens
  published : List CacheEventBatch

/-- A flush that is due: its wall-clock time, and whether `publish` raises. -/
structure Flush where
  ts : ℚ≥0
  fails : Bool

def tokenBindingCacheSize : Nat := 65536

namespace CacheEventSubscriber

def new : CacheEventSubscriber := ⟨0, [], none, 0, .empty, []⟩

variable (e : Emitter)

def capacityBatch (seq revision : Nat) (ts : ℚ≥0) (module : CapacityModule) : CacheEventBatch where
  instanceId := e.instanceId
  incarnation := e.incarnation
  seq := seq + 1
  eventType := .config
  tier := module.tier
  backend := module.backend
  entries := []
  shared := module.shared
  ts := ts
  capacityBytes := module.capacityBytes
  capacityRevision := revision
  instanceId_ne := e.instanceId_ne
  backend_ne := fun _ => module.backend.2
  config_empty := fun _ => rfl
  seq_pos := Nat.le_add_left 1 seq
  ts_nonneg := ts.2

def placementBatch (seq : Nat) (ts : ℚ≥0) (pending : PendingBatch) : CacheEventBatch where
  instanceId := e.instanceId
  incarnation := e.incarnation
  seq := seq + 1
  eventType := pending.eventType
  tier := pending.tier
  backend := pending.backend
  entries := pending.entries
  shared := pending.shared
  ts := ts
  capacityBytes := 0
  capacityRevision := 0
  instanceId_ne := e.instanceId_ne
  backend_ne := pending.backend_ne
  config_empty := fun h => absurd h pending.not_config
  seq_pos := Nat.le_add_left 1 seq
  ts_nonneg := ts.2

/-- Consecutive numbers from a sequence number on. -/
def number {α : Type} (f : Nat → α → CacheEventBatch) (seq : Nat) (items : List α) :
    List CacheEventBatch :=
  items.mapIdx fun offset item => f (seq + offset) item

def flush (s : CacheEventSubscriber) (flush : Flush) : CacheEventSubscriber :=
  if s.pendingBatches.isEmpty ∧ s.pendingCapacity.isNone then s
  else
    let revision :=
      if s.pendingCapacity.isSome then s.capacityRevision + 1 else s.capacityRevision
    let modules := s.pendingCapacity.getD []
    let batches :=
      number (fun seq => capacityBatch e seq revision flush.ts) s.seq modules ++
        number (fun seq => placementBatch e seq flush.ts) (s.seq + modules.length) s.pendingBatches
    { seq := s.seq + batches.length
      pendingBatches := []
      -- a declaration that was not published is kept for the next flush
      pendingCapacity := if flush.fails then s.pendingCapacity else none
      capacityRevision := revision
      tokenBindings := s.tokenBindings
      published := s.published ++ batches }

def flushIfDue (s : CacheEventSubscriber) : Option Flush → CacheEventSubscriber
  | none => s
  | some f => s.flush e f

/-- Entries of the last batch's identity extend it. -/
def buffer (pending : List PendingBatch) (new : PendingBatch) : List PendingBatch :=
  match pending.getLast? with
  | none => [new]
  | some last =>
    if last.eventType = new.eventType ∧ last.tier = new.tier ∧ last.backend = new.backend ∧
        last.shared = new.shared then
      pending.dropLast ++ [{ last with entries := last.entries ++ new.entries }]
    else pending ++ [new]

def record (s : CacheEventSubscriber) (new : PendingBatch) (due : Option Flush) :
    CacheEventSubscriber :=
  if new.entries.isEmpty then s
  else flushIfDue e { s with pendingBatches := buffer s.pendingBatches new } due

def storeEntry (s : CacheEventSubscriber) (key : ObjectKey) (sizeBytes : Nat) : CacheEventEntry :=
  let binding := (s.tokenBindings.get? key.chunkHash).getD ⟨[], none⟩
  ⟨key, sizeBytes, binding.tokenIds, binding.tokenOffset⟩

def keyEntry (key : ObjectKey) : CacheEventEntry := { key := key }

/-- The loop of `_record_l1_placements` that collects the entries of each medium. -/
def byBackend (objects : List (L1BackendType × CacheEventEntry)) :
    Dict L1BackendType (List CacheEventEntry) :=
  objects.foldl (fun d o => d.set o.1 ((d.get? o.1).getD [] ++ [o.2])) .empty

def l1Pending (eventType : CacheEventType) (h : eventType ≠ .config) (backend : L1BackendType)
    (entries : List CacheEventEntry) : PendingBatch :=
  ⟨eventType, .l1, backend.value, false, entries, fun _ => backend.value_ne, h⟩

/-- The loop of `_record_l1_placements` that records one batch per medium. -/
def recordL1Placements (eventType : CacheEventType) (h : eventType ≠ .config) :
    List (L1BackendType × List CacheEventEntry) → List (Option Flush) → CacheEventSubscriber →
      CacheEventSubscriber
  | [], _, s => s
  | (backend, entries) :: rest, dues, s =>
    recordL1Placements eventType h rest dues.tail
      (s.record e (l1Pending eventType h backend entries) dues.head?.join)

def l2Pending (eventType : CacheEventType) (h : eventType ≠ .config) (backend : BackendName)
    (shared : Bool) (entries : List CacheEventEntry) : PendingBatch :=
  ⟨eventType, .l2, backend, shared, entries, fun _ => backend.2, h⟩

def popFirst (bindings : Dict Bytes ChunkTokens) : Dict Bytes ChunkTokens :=
  match bindings.popFirst with
  | none => bindings
  | some (_, rest) => rest

/-- `_on_tokens`. -/
def bindTokens (s : CacheEventSubscriber) (chunks : List (Bytes × ChunkTokens)) :
    CacheEventSubscriber :=
  let bindings := chunks.foldl (fun d c => (d.erase c.1).set c.1 c.2) s.tokenBindings
  if bindings.size ≤ tokenBindingCacheSize then { s with tokenBindings := bindings }
  else
    { s with
      tokenBindings := popFirst^[bindings.size - tokenBindingCacheSize / 2] bindings }

/-- One bus event. `dues` tells, for every check of `_flush_if_due`, whether a flush is due. -/
def handle (s : CacheEventSubscriber) (event : StorageEvent) (dues : List (Option Flush)) :
    CacheEventSubscriber :=
  match event with
  | .l1Store objects =>
    recordL1Placements e .store store_ne_config
      (byBackend (objects.map fun o => (o.2.backend, s.storeEntry o.1 o.2.sizeBytes))).entries
      dues s
  | .l1Delete objects =>
    recordL1Placements e .delete delete_ne_config
      (byBackend (objects.map fun o => (o.2.backend, keyEntry o.1))).entries dues s
  | .l1Access keys =>
    s.record e ⟨.access, .l1, "", false, keys.map keyEntry,
      access_backend "", access_ne_config⟩ dues.head?.join
  | .l2Store backend shared objects =>
    s.record e (l2Pending .store store_ne_config backend shared
      (objects.map fun o => s.storeEntry o.1 o.2)) dues.head?.join
  | .l2Delete backend shared keys =>
    s.record e (l2Pending .delete delete_ne_config backend shared
      (keys.map keyEntry)) dues.head?.join
  | .l2Access backend shared keys =>
    s.record e (l2Pending .access access_ne_config backend shared
      (keys.map keyEntry)) dues.head?.join
  | .tokens chunks => s.bindTokens chunks
  | .capacityChanged snapshot =>
    flushIfDue e { s with pendingCapacity := some snapshot } dues.head?.join
  | .tick => flushIfDue e s dues.head?.join

end CacheEventSubscriber

end LMCache.Coordinator
