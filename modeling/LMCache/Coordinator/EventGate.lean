import LMCache.Coordinator.UsageManager
import LMCache.Eviction.Policies

/-!
# The gate and the consumers behind it

`EventGate` keeps one cursor per emitter. A batch of an old incarnation or with an old number
is dropped, a batch of a new incarnation first fences its instance, and an admitted batch is
broadcast to the consumers: the key directory, the usage view, the registry of declared
capacities and the fleet's eviction controller, which reads the usage view.
-/

namespace LMCache.Coordinator

open Lib Serde Eviction

structure ModuleMemoryCapacity where
  tier : Tier
  backend : String
  capacityBytes : Nat
  shared : Bool
deriving DecidableEq

abbrev Declaration := Dict (Tier × String) ModuleMemoryCapacity

structure ServerConfigRegistry where
  byInstance : Dict String Declaration
  stamps : Dict String (Nat × Nat)

namespace ServerConfigRegistry

def new : ServerConfigRegistry := ⟨.empty, .empty⟩

/-- The order of `(incarnation, capacity_revision)`. -/
def stampLt (a b : Nat × Nat) : Bool := a.1 < b.1 ∨ (a.1 = b.1 ∧ a.2 < b.2)

def consume (r : ServerConfigRegistry) (batch : CacheEventBatch) : ServerConfigRegistry :=
  if batch.eventType ≠ .config then r
  else
    let module : ModuleMemoryCapacity :=
      ⟨batch.tier, batch.backend, batch.capacityBytes, batch.shared⟩
    let stamp := (batch.incarnation, batch.capacityRevision)
    let declare (modules : Declaration) : Declaration :=
      modules.set (module.tier, module.backend) module
    match r.stamps.get? batch.instanceId with
    | none =>
      ⟨r.byInstance.set batch.instanceId (declare .empty), r.stamps.set batch.instanceId stamp⟩
    | some stored =>
      if stampLt stamp stored then r
      else if stampLt stored stamp then
        ⟨r.byInstance.set batch.instanceId (declare .empty), r.stamps.set batch.instanceId stamp⟩
      else
        match r.byInstance.get? batch.instanceId with
        -- a stamp without a declaration, left by a restore that raised, raises here
        | none => r
        | some modules =>
          { r with byInstance := r.byInstance.set batch.instanceId (declare modules) }

def forget (r : ServerConfigRegistry) (instanceId : String) : ServerConfigRegistry :=
  ⟨r.byInstance.erase instanceId, r.stamps.erase instanceId⟩

def get (r : ServerConfigRegistry) (instanceId : String) : List ModuleMemoryCapacity :=
  ((r.byInstance.get? instanceId).getD .empty).values

def getAll (r : ServerConfigRegistry) : List (String × List ModuleMemoryCapacity) :=
  r.byInstance.entries.map fun e => (e.1, e.2.values)

end ServerConfigRegistry

/-- The parts of `FleetEvictionController` that read the stream. -/
structure FleetEvictionController where
  quota : QuotaManager
  evictionRatio : ℚ
  triggerWatermark : ℚ
  policy : IsolatedLRUEvictionPolicy
  pinCounts : Dict ObjectKey Nat

namespace FleetEvictionController

def new (evictionRatio triggerWatermark : ℚ) : FleetEvictionController :=
  ⟨.new, max 0 (min 1 evictionRatio), triggerWatermark, .new .discard, .empty⟩

def applyEntry (usage : CacheUsageManager) (batch : CacheEventBatch)
    (policy : IsolatedLRUEvictionPolicy) (entry : CacheEventEntry) : IsolatedLRUEvictionPolicy :=
  match batch.eventType with
  | .store => policy.onKeysCreated [entry.key]
  | .access => policy.onKeysTouched [entry.key]
  | .delete =>
    if usage.getKeyBytes .l2 entry.key = 0 then policy.onKeysRemoved [entry.key] else policy
  | .config => policy

/-- `usage` is the usage view after it consumed the same batch. -/
def consume (c : FleetEvictionController) (usage : CacheUsageManager) (batch : CacheEventBatch) :
    FleetEvictionController :=
  if batch.tier ≠ .l2 then c
  else { c with policy := batch.entries.foldl (applyEntry usage batch) c.policy }

def pinKey (c : FleetEvictionController) (key : ObjectKey) : FleetEvictionController :=
  { c with pinCounts := c.pinCounts.set key ((c.pinCounts.get? key).getD 0 + 1) }

def pin (c : FleetEvictionController) (keys : List ObjectKey) : FleetEvictionController :=
  keys.foldl pinKey c

def unpinKey (c : FleetEvictionController) (key : ObjectKey) : FleetEvictionController :=
  let count := (c.pinCounts.get? key).getD 0
  if count ≤ 1 then { c with pinCounts := c.pinCounts.erase key }
  else { c with pinCounts := c.pinCounts.set key (count - 1) }

def unpin (c : FleetEvictionController) (keys : List ObjectKey) : FleetEvictionController :=
  keys.foldl unpinKey c

/-- `drop_pins`, of a forced delete. -/
def dropPins (c : FleetEvictionController) (keys : List ObjectKey) : FleetEvictionController :=
  { c with pinCounts := keys.foldl Dict.erase c.pinCounts }

def saltPlan (c : FleetEvictionController) (usage : CacheUsageManager) (cacheSalt : String) :
    List ObjectKey :=
  let currentBytes := usage.getSaltBytes .l2 cacheSalt
  if currentBytes ≤ 0 then []
  else
    match c.quota.effectiveLimitBytes cacheSalt with
    | none => []
    | some limit =>
      if (currentBytes : ℚ) < c.triggerWatermark * limit then []
      else
        let effectiveRatio := if limit = 0 then 1 else c.evictionRatio
        (c.policy.getEvictionActions effectiveRatio (fun key => !c.pinCounts.contains key)
          cacheSalt).flatMap (·.keys)

def computeEvictionPlan (c : FleetEvictionController) (usage : CacheUsageManager) :
    List (String × List ObjectKey) :=
  (c.policy.getTrackedSalts.map fun cacheSalt => (cacheSalt, c.saltPlan usage cacheSalt)).filter
    fun plan => !plan.2.isEmpty

end FleetEvictionController

structure StreamCursor where
  incarnation : Nat
  lastSeq : Nat
  gapDetected : Bool
deriving DecidableEq

inductive IngestResult
  | admitted
  | duplicate
  | staleIncarnation
deriving DecidableEq

structure Consumers where
  directory : KeyDirectory
  usage : CacheUsageManager
  registry : ServerConfigRegistry
  eviction : FleetEvictionController

namespace Consumers

def new (evictionRatio triggerWatermark : ℚ) : Consumers :=
  ⟨.new, .new, .new, .new evictionRatio triggerWatermark⟩

/-- `broadcast`. The eviction controller is the last to be called. -/
def consume (c : Consumers) (batch : CacheEventBatch) : Consumers :=
  let usage := c.usage.consume batch
  { directory := c.directory.consume batch
    usage := usage
    registry := c.registry.consume batch
    eviction := c.eviction.consume usage batch }

/-- Capacities and the L2 order outlive an incarnation. -/
def fenceInstance (c : Consumers) (instanceId : String) : Consumers :=
  { c with
    directory := c.directory.fenceInstance instanceId
    usage := c.usage.fenceInstance instanceId }

end Consumers

structure Fleet where
  cursors : Dict String StreamCursor
  consumers : Consumers

def StreamCursor.advance (cursor : StreamCursor) (seq : Nat) : StreamCursor :=
  { cursor with
    lastSeq := seq
    gapDetected := cursor.gapDetected || decide (cursor.lastSeq + 1 < seq) }

namespace Fleet

def new (evictionRatio triggerWatermark : ℚ) : Fleet :=
  ⟨.empty, .new evictionRatio triggerWatermark⟩

/-- The end of `ingest`: the batch passes with the cursor. -/
def pass (c : Fleet) (cursor : StreamCursor) (batch : CacheEventBatch) : Fleet where
  cursors := c.cursors.set batch.instanceId (cursor.advance batch.seq)
  consumers := c.consumers.consume batch

def ingest (c : Fleet) (batch : CacheEventBatch) : IngestResult × Fleet :=
  match c.cursors.get? batch.instanceId with
  | none => (.admitted, c.pass ⟨batch.incarnation, 0, false⟩ batch)
  | some cursor =>
    if batch.incarnation < cursor.incarnation then (.staleIncarnation, c)
    else if cursor.incarnation < batch.incarnation then
      (.admitted, pass { c with consumers := c.consumers.fenceInstance batch.instanceId }
        ⟨batch.incarnation, 0, false⟩ batch)
    else if batch.seq ≤ cursor.lastSeq then (.duplicate, c)
    else (.admitted, c.pass cursor batch)

def dropInstance (c : Fleet) (instanceId : String) : Fleet where
  cursors := c.cursors.erase instanceId
  consumers := c.consumers.fenceInstance instanceId

inductive Action
  | ingest (batch : CacheEventBatch)
  | dropInstance (instanceId : String)

def act (f : Fleet) : Action → Fleet
  | .ingest batch => (f.ingest batch).2
  | .dropInstance instanceId => f.dropInstance instanceId

end Fleet

end LMCache.Coordinator
