import LMCache.Coordinator.EventGate

/-!
# Checkpoints

`load_checkpoint` gives every component its section of a checkpoint. A section may be missing,
and one that raises is skipped, so that a component keeps what it had or what was loaded before
the exception.

Any number of threads call the gate while one saves checkpoints. Callers hold `applying` of the
`QuiesceLock` around a call and wait before it while a quiesce is requested; the saver holds
`quiesced` while it reads the components, once no call is in flight.

A step is a section under the condition variable, a use of the lock of the gate, the call of one
consumer, or the capture of one component. The wait of the saver also ends at its time-out.
-/

namespace LMCache.Coordinator

open Lib Serde Eviction

abbrev CursorSection := Dict String (Stored StreamCursor)

/-- The section `server_config`: stamps with the modules that they order. -/
abbrev RegistrySection := List (Stored (String × Nat × Nat × List (Stored ModuleMemoryCapacity)))

abbrev OrderSection := Dict String (List (Stored ObjectKey))

/-- A section that is absent, or that raises at once, is `none`. -/
structure Checkpoint where
  streamCursors : Option CursorSection
  keyDirectory : Option DirectorySection
  cacheUsage : Option CacheUsageManager.SizedSection
  serverConfig : Option RegistrySection
  lruOrder : Option OrderSection

namespace CursorSection

def capture (cursors : Dict String StreamCursor) : CursorSection := cursors.mapValues some

/-- The cursors before the first one that cannot be decoded. -/
def cursors (stored : CursorSection) : List (String × StreamCursor) :=
  readable (stored.entries.map fun e => e.2.map fun cursor => (e.1, cursor))

end CursorSection

/-- `EventGate.restore`. -/
def restoreCursors (cursors : Dict String StreamCursor) (stored : CursorSection) :
    Dict String StreamCursor :=
  if cursors.size ≠ 0 then cursors
  else stored.cursors.foldl (fun d e => d.set e.1 e.2) cursors

namespace ServerConfigRegistry

def capture (r : ServerConfigRegistry) : RegistrySection :=
  r.stamps.entries.map fun e => some (e.1, e.2.1, e.2.2,
    ((r.byInstance.get? e.1).getD .empty).values.map some)

/-- The loop of `restore`. The stamp is set before the modules are decoded. -/
def restoreDeclarations : RegistrySection → ServerConfigRegistry → ServerConfigRegistry
  | [], r => r
  | none :: _, r => r
  | some (instanceId, incarnation, revision, modules) :: rest, r =>
    let stamped := { r with stamps := r.stamps.set instanceId (incarnation, revision) }
    if !isReadable modules then stamped
    else
      restoreDeclarations rest { stamped with
        byInstance := stamped.byInstance.set instanceId
          (Dict.ofList ((readable modules).map fun m => ((m.tier, m.backend), m))) }

def restore (r : ServerConfigRegistry) (stored : RegistrySection) : ServerConfigRegistry :=
  if r.byInstance.size ≠ 0 ∨ r.stamps.size ≠ 0 then r else restoreDeclarations stored r

end ServerConfigRegistry

/-- `IsolatedLRUEvictionPolicy.capture`. -/
def captureOrder (p : IsolatedLRUEvictionPolicy) : OrderSection :=
  p.perSaltOrder.mapValues fun order => order.keys.map some

/-- `IsolatedLRUEvictionPolicy.restore`: all buckets are decoded before any is replaced. -/
def restoreOrder (p : IsolatedLRUEvictionPolicy) (stored : OrderSection) :
    IsolatedLRUEvictionPolicy :=
  if stored.values.all isReadable then
    { p with
      perSaltOrder := stored.mapValues fun keys =>
        Dict.ofList ((readable keys).map fun key => (key, ())) }
  else p

namespace Fleet

/-- What `save_checkpoint` writes. -/
def capture (f : Fleet) : Checkpoint where
  streamCursors := some (CursorSection.capture f.cursors)
  keyDirectory := some f.consumers.directory.capture
  cacheUsage := some f.consumers.usage.captureSized
  serverConfig := some f.consumers.registry.capture
  lruOrder := some (captureOrder f.consumers.eviction.policy)

/-- A coordinator that was just started. Quotas and pins are in another document. -/
def fresh (eviction : FleetEvictionController) : Fleet :=
  ⟨.empty, .new, .new, .new, { eviction with policy := .new .discard }⟩

def loadCheckpoint (f : Fleet) (checkpoint : Checkpoint) : Fleet where
  cursors := checkpoint.streamCursors.elim f.cursors (restoreCursors f.cursors)
  consumers :=
    { directory := checkpoint.keyDirectory.elim f.consumers.directory fun stored =>
        (f.consumers.directory.restore stored).1
      usage := checkpoint.cacheUsage.elim f.consumers.usage fun stored =>
        (f.consumers.usage.restore stored.val).1.1
      registry := checkpoint.serverConfig.elim f.consumers.registry f.consumers.registry.restore
      eviction :=
        { f.consumers.eviction with
          policy := checkpoint.lruOrder.elim f.consumers.eviction.policy
            (restoreOrder f.consumers.eviction.policy) } }

end Fleet

open Lib Serde

inductive Consumer
  | directory
  | usage
  | registry
  | eviction

inductive GateCall
  | fence (consumer : Consumer) (instanceId : String)
  | consume (consumer : Consumer) (batch : CacheEventBatch)
  | setCursor (instanceId : String) (cursor : StreamCursor)
  | dropCursor (instanceId : String)

namespace Fleet

def run (f : Fleet) : GateCall → Fleet
  | .fence .directory instanceId =>
    { f with consumers := { f.consumers with
        directory := f.consumers.directory.fenceInstance instanceId } }
  | .fence .usage instanceId =>
    { f with consumers := { f.consumers with
        usage := f.consumers.usage.fenceInstance instanceId } }
  | .fence .registry _ | .fence .eviction _ => f
  | .consume .directory batch =>
    { f with consumers := { f.consumers with
        directory := f.consumers.directory.consume batch } }
  | .consume .usage batch =>
    { f with consumers := { f.consumers with usage := f.consumers.usage.consume batch } }
  | .consume .registry batch =>
    { f with consumers := { f.consumers with registry := f.consumers.registry.consume batch } }
  | .consume .eviction batch =>
    { f with consumers := { f.consumers with
        eviction := f.consumers.eviction.consume f.consumers.usage batch } }
  | .setCursor instanceId cursor => { f with cursors := f.cursors.set instanceId cursor }
  | .dropCursor instanceId => { f with cursors := f.cursors.erase instanceId }

def registered : List Consumer := [.directory, .registry, .usage, .eviction]

def fenceCalls (instanceId : String) : List GateCall :=
  registered.map fun consumer => .fence consumer instanceId

/-- The cursor is set before the batch is broadcast. -/
def passCalls (cursor : StreamCursor) (batch : CacheEventBatch) : List GateCall :=
  .setCursor batch.instanceId (cursor.advance batch.seq) ::
    registered.map fun consumer => .consume consumer batch

/-- The calls of `ingest` and `drop_instance` under the lock of the gate. -/
def calls (f : Fleet) : Action → List GateCall
  | .ingest batch =>
    match f.cursors.get? batch.instanceId with
    | none => passCalls ⟨batch.incarnation, 0, false⟩ batch
    | some cursor =>
      if batch.incarnation < cursor.incarnation then []
      else if cursor.incarnation < batch.incarnation then
        fenceCalls batch.instanceId ++ passCalls ⟨batch.incarnation, 0, false⟩ batch
      else if batch.seq ≤ cursor.lastSeq then []
      else passCalls cursor batch
  | .dropInstance instanceId => fenceCalls instanceId ++ [.dropCursor instanceId]

theorem foldl_calls (f : Fleet) (action : Action) :
    (f.calls action).foldl run f = f.act action := by
  cases action with
  | ingest batch =>
    unfold calls act ingest
    dsimp only
    cases f.cursors.get? batch.instanceId with
    | none => rfl
    | some cursor =>
      dsimp only
      split
      · rfl
      · split
        · rfl
        · split <;> rfl
  | dropInstance instanceId => rfl

end Fleet

inductive Caller
  | idle
  | calling (action : Fleet.Action)
  | parked (action : Fleet.Action)
  | applying (action : Fleet.Action)
  | locked (todo : List GateCall)
  | leaving

namespace Caller

/-- Counted in `_in_flight`. -/
def inFlight : Caller → Bool
  | .applying _ | .locked _ | .leaving => true
  | _ => false

/-- `notify_all` ends a wait; the thread then looks at the request again. -/
def notified : Caller → Caller
  | .parked action => .calling action
  | c => c

end Caller

inductive Component
  | streamCursors
  | keyDirectory
  | serverConfig
  | cacheUsage
  | lruOrder

def components : List Component :=
  [.streamCursors, .keyDirectory, .serverConfig, .cacheUsage, .lruOrder]

def Checkpoint.add (f : Fleet) (checkpoint : Checkpoint) : Component → Checkpoint
  | .streamCursors => { checkpoint with streamCursors := f.capture.streamCursors }
  | .keyDirectory => { checkpoint with keyDirectory := f.capture.keyDirectory }
  | .serverConfig => { checkpoint with serverConfig := f.capture.serverConfig }
  | .cacheUsage => { checkpoint with cacheUsage := f.capture.cacheUsage }
  | .lruOrder => { checkpoint with lruOrder := f.capture.lruOrder }

def Checkpoint.empty : Checkpoint := ⟨none, none, none, none, none⟩

/-- Where the thread is that saves. -/
inductive Saver
  | idle
  | waiting
  | notified
  | capturing (sections : Checkpoint) (rest : List Component)
  | writing (sections : Checkpoint)

namespace Saver

/-- From the request to its release. -/
def quiescing : Saver → Bool
  | .waiting | .notified | .capturing _ _ => true
  | _ => false

def afterNotify : Saver → Saver
  | .waiting => .notified
  | s => s

end Saver

structure CheckpointSystem where
  quiesceRequested : Bool
  inFlight : Nat
  gateLock : Option Nat
  callers : List Caller
  saver : Saver
  fleet : Fleet
  applied : List Fleet.Action
  written : List Checkpoint

inductive CheckpointStep
  | call (t : Nat) (action : Fleet.Action)
  | enter (t : Nat)
  | lock (t : Nat)
  | run (t : Nat)
  | unlock (t : Nat)
  | leave (t : Nat)
  | request
  | wake
  | timeout
  | capture
  | release
  | write (succeeds : Bool)

namespace CheckpointSystem

def new (callers : Nat) (fleet : Fleet) : CheckpointSystem :=
  ⟨false, 0, none, List.replicate callers .idle, .idle, fleet, [], []⟩

def notifyAll (s : CheckpointSystem) : CheckpointSystem :=
  { s with callers := s.callers.map Caller.notified, saver := s.saver.afterNotify }

def setCaller (s : CheckpointSystem) (t : Nat) (c : Caller) : CheckpointSystem :=
  { s with callers := s.callers.set t c }

def releaseLocked (s : CheckpointSystem) : CheckpointSystem :=
  notifyAll { s with quiesceRequested := false }

/-- The predicate of `wait_for` holds, or the wait goes on. -/
def checkInFlight (s : CheckpointSystem) (otherwise : CheckpointSystem) : CheckpointSystem :=
  if s.inFlight = 0 then { s with saver := .capturing .empty components } else otherwise

def next (s : CheckpointSystem) : CheckpointStep → Option CheckpointSystem
  | .call t action =>
    match s.callers[t]? with
    | some .idle => some (s.setCaller t (.calling action))
    | _ => none
  | .enter t =>
    match s.callers[t]? with
    | some (.calling action) =>
      if s.quiesceRequested then some (s.setCaller t (.parked action))
      else some { s.setCaller t (.applying action) with inFlight := s.inFlight + 1 }
    | _ => none
  | .lock t =>
    match s.callers[t]?, s.gateLock with
    | some (.applying action), none =>
      some { s.setCaller t (.locked (s.fleet.calls action)) with
        gateLock := some t
        applied := s.applied ++ [action] }
    | _, _ => none
  | .run t =>
    match s.callers[t]? with
    | some (.locked (call :: todo)) =>
      some { s.setCaller t (.locked todo) with fleet := s.fleet.run call }
    | _ => none
  | .unlock t =>
    match s.callers[t]? with
    | some (.locked []) => some { s.setCaller t .leaving with gateLock := none }
    | _ => none
  | .leave t =>
    match s.callers[t]? with
    | some .leaving =>
      let left := { s.setCaller t .idle with inFlight := s.inFlight - 1 }
      some (if left.inFlight = 0 then left.notifyAll else left)
    | _ => none
  | .request =>
    match s.saver with
    | .idle =>
      let requested := { s with quiesceRequested := true }
      some (requested.checkInFlight { requested with saver := .waiting })
    | _ => none
  | .wake =>
    match s.saver with
    | .notified => some (s.checkInFlight { s with saver := .waiting })
    | _ => none
  | .timeout =>
    match s.saver with
    | .waiting | .notified => some (s.checkInFlight { s.releaseLocked with saver := .idle })
    | _ => none
  | .capture =>
    match s.saver with
    | .capturing sections (.streamCursors :: rest) =>
      -- the gate is read under its lock
      if s.gateLock = none then
        some { s with saver := .capturing (sections.add s.fleet .streamCursors) rest }
      else none
    | .capturing sections (component :: rest) =>
      some { s with saver := .capturing (sections.add s.fleet component) rest }
    | _ => none
  | .release =>
    match s.saver with
    | .capturing sections [] => some { s.releaseLocked with saver := .writing sections }
    | _ => none
  | .write succeeds =>
    match s.saver with
    | .writing sections =>
      some { s with
        saver := .idle
        written := if succeeds then s.written ++ [sections] else s.written }
    | _ => none

end CheckpointSystem

end LMCache.Coordinator
