import LMCache.L1.TTLLock
import LMCache.Lib.Dict

/-!
# The L1 manager

`L1Manager` keeps, per object key, a memory object and two TTL locks. Every public method runs
under one mutex and loops over its keys, so it is a loop over `Dict.updateEach`. It returns its
reply, the notifications to the listeners, and the manager after it.

A memory object is known by its allocation serial. What the allocator answers is an
`AllocOutcome` chosen by the environment.
-/

namespace LMCache

open Lib

inductive L1Error
  | success
  | keyNotExist
  | keyNotReadable
  | keyNotWritable
  | keyInWrongState
  | keyIsLocked
  | outOfMemory
deriving DecidableEq, Repr

abbrev MemoryObj := Nat

abbrev L1OperationResult := L1Error × Option MemoryObj

/-- What the allocator answers: all objects, or a failure that still hands out `partialCount`
of them. -/
inductive AllocOutcome
  | success
  | outOfMemory (partialCount : Nat)
deriving DecidableEq, Repr

/-- Serials below `allocated` have been handed out; `freed` lists the frees in order. -/
structure L1MemoryManager where
  allocated : Nat
  freed : List MemoryObj
deriving DecidableEq, Repr

namespace L1MemoryManager

def allocate (mm : L1MemoryManager) (count : Nat) :
    AllocOutcome → L1Error × List MemoryObj × L1MemoryManager
  | .success =>
    (.success, List.range' mm.allocated count, { mm with allocated := mm.allocated + count })
  | .outOfMemory partialCount =>
    (.outOfMemory, List.range' mm.allocated partialCount,
      { mm with allocated := mm.allocated + partialCount })

def free (mm : L1MemoryManager) (objs : List MemoryObj) : L1MemoryManager :=
  { mm with freed := mm.freed ++ objs }

end L1MemoryManager

structure L1ObjectState where
  memoryObj : MemoryObj
  writeLock : TTLLock
  readLock : TTLLock
  isTemporary : Bool
deriving DecidableEq, Repr

namespace L1ObjectState

def availableForRead (e : L1ObjectState) (now : Nat) : Bool := !e.writeLock.isLocked now

def availableForWrite (e : L1ObjectState) (now : Nat) : Bool :=
  !e.writeLock.isLocked now && !e.readLock.isLocked now && !e.isTemporary

def isLocked (e : L1ObjectState) (now : Nat) : Bool :=
  e.readLock.isLocked now || e.writeLock.isLocked now

end L1ObjectState

def maxReadLockCount : Nat := 128

/-- Clamp a per-key read-lock count to `[1, maxReadLockCount]`. -/
def validateReadLocks (readLocks : Nat) : Nat :=
  if readLocks < 1 then 1
  else if readLocks > maxReadLockCount then maxReadLockCount
  else readLocks

/-- Callbacks of the listener interface, with the keys each one carries. -/
inductive L1Event (K : Type)
  | reservedRead (keys : List K)
  | readFinished (keys : List K)
  | reservedWrite (keys : List K)
  | writeFinished (keys : List K)
  | finishWriteAndReserveRead (keys : List K)
  | deletedByManager (keys : List K)
  | accessed (keys : List K)
deriving DecidableEq, Repr

structure L1Manager (K : Type) where
  objects : Dict K L1ObjectState
  memory : L1MemoryManager
  writeTtlSeconds : Nat
  readTtlSeconds : Nat
  nowMs : Nat

/-- Reply, notifications and the manager after one method call. -/
structure L1Outcome (K ρ : Type) where
  reply : ρ
  events : List (L1Event K)
  manager : L1Manager K

namespace L1Manager

variable {K : Type} [DecidableEq K]

def new (writeTtlSeconds readTtlSeconds nowMs : Nat) : L1Manager K :=
  ⟨Dict.empty, ⟨0, []⟩, writeTtlSeconds, readTtlSeconds, nowMs⟩

def successfulKeys {ρ : Type} (error : ρ → L1Error) (outcomes : List (K × ρ)) : List K :=
  (outcomes.filter fun o => error o.2 = .success).map Prod.fst

def reserveReadKey (now total : Nat) (_ : K) :
    Option L1ObjectState → L1OperationResult × Option L1ObjectState
  | none => ((.keyNotExist, none), none)
  | some e =>
    if !e.availableForRead now then
      ((.keyNotReadable, none), some e)
    else
      ((.success, some e.memoryObj), some { e with readLock := e.readLock.lockTimes now total })

def reserveRead (m : L1Manager K) (keys : List K) (readLocks : Nat) :
    L1Outcome K (Dict K L1OperationResult) :=
  let r := Dict.updateEach (reserveReadKey m.nowMs (validateReadLocks readLocks)) keys m.objects
  { reply := Dict.ofList r.1
    events := [.reservedRead (successfulKeys Prod.fst r.1)]
    manager := { m with objects := r.2 } }

def unsafeReadKey (now : Nat) (_ : K) :
    Option L1ObjectState → L1OperationResult × Option L1ObjectState
  | none => ((.keyNotExist, none), none)
  | some e =>
    if !e.readLock.isLocked now then
      ((.keyNotReadable, none), some e)
    else
      ((.success, some e.memoryObj), some e)

def unsafeRead (m : L1Manager K) (keys : List K) : L1Outcome K (Dict K L1OperationResult) :=
  let r := Dict.updateEach (unsafeReadKey m.nowMs) keys m.objects
  { reply := Dict.ofList r.1, events := [], manager := { m with objects := r.2 } }

/-- The second component of the outcome is the memory object to free. -/
def finishReadKey (now total : Nat) (_ : K) :
    Option L1ObjectState → (L1Error × Option MemoryObj) × Option L1ObjectState
  | none => ((.keyNotExist, none), none)
  | some e =>
    if e.writeLock.isLocked now then
      ((.keyInWrongState, none), some e)
    else if !e.readLock.isLocked now then
      ((.keyInWrongState, none), some e)
    else
      let readLock := e.readLock.unlockTimes total
      if e.isTemporary && !readLock.isLocked now then
        ((.success, some e.memoryObj), none)
      else
        ((.success, none), some { e with readLock := readLock })

def needToFree (outcomes : List (K × L1Error × Option MemoryObj)) : List MemoryObj :=
  outcomes.filterMap fun o => o.2.2

def needToFreeKeys (outcomes : List (K × L1Error × Option MemoryObj)) : List K :=
  (outcomes.filter fun o => o.2.2.isSome).map Prod.fst

def errorsOf (outcomes : List (K × L1Error × Option MemoryObj)) : Dict K L1Error :=
  Dict.ofList (outcomes.map fun o => (o.1, o.2.1))

def finishRead (m : L1Manager K) (keys : List K) (readLocks : Nat) :
    L1Outcome K (Dict K L1Error) :=
  let r := Dict.updateEach (finishReadKey m.nowMs (validateReadLocks readLocks)) keys m.objects
  { reply := errorsOf r.1
    events := [.readFinished (successfulKeys Prod.fst r.1), .deletedByManager (needToFreeKeys r.1)]
    manager := { m with objects := r.2, memory := m.memory.free (needToFree r.1) } }

inductive WriteMode
  | new
  | update
  | all
deriving DecidableEq, Repr

/-- First loop of `reserve_write`; the outcome `none` puts the key on the allocation list. -/
def probeWriteKey (mode : WriteMode) (now : Nat) (_ : K) :
    Option L1ObjectState → Option L1OperationResult × Option L1ObjectState
  | none => (none, none)
  | some e =>
    if mode = .new then
      (some (.keyNotWritable, none), some e)
    else if !e.availableForWrite now then
      (some (.keyNotWritable, none), some e)
    else
      (some (.success, some e.memoryObj), some { e with writeLock := e.writeLock.lock now })

/-- A freshly allocated object, write-locked once. -/
def reservedState (m : L1Manager K) (obj : MemoryObj) (isTemporary : Bool) : L1ObjectState :=
  { memoryObj := obj
    writeLock := (TTLLock.new m.writeTtlSeconds).lock m.nowMs
    readLock := TTLLock.new m.readTtlSeconds
    isTemporary := isTemporary }

/-- Second loop of `reserve_write`: enter the allocated objects. -/
def enterAllocated (m : L1Manager K) (needToAllocate : List (K × Bool)) (objs : List MemoryObj)
    (objects : Dict K L1ObjectState) : Dict K L1ObjectState :=
  (needToAllocate.zip objs).foldl (fun d a => d.set a.1.1 (m.reservedState a.2 a.1.2)) objects

/-- Results the first loop already wrote into the reply. -/
def decidedWrites (outcomes : List (K × Option L1OperationResult)) :
    List (K × L1OperationResult) :=
  outcomes.filterMap fun o => o.2.map fun r => (o.1, r)

def needToAllocate (outcomes : List (K × Option L1OperationResult)) (isTemporary : List Bool) :
    List (K × Bool) :=
  (outcomes.zip isTemporary).filterMap fun o => if o.1.2.isNone then some (o.1.1, o.2) else none

def reserveWrite (m : L1Manager K) (keys : List K) (isTemporary : List Bool) (mode : WriteMode)
    (outcome : AllocOutcome) : L1Outcome K (Dict K L1OperationResult) :=
  let pairs := keys.zip isTemporary
  let probe := Dict.updateEach (probeWriteKey mode m.nowMs) (pairs.map Prod.fst) m.objects
  let decided := decidedWrites probe.1
  let needed := needToAllocate probe.1 (pairs.map Prod.snd)
  let refused (err : L1Error) : List (K × L1OperationResult) :=
    needed.map fun a => (a.1, (err, none))
  let probed := { m with objects := probe.2 }
  if needed.length = 0 then
    { reply := Dict.ofList decided, events := [], manager := probed }
  else if mode = .update then
    { reply := Dict.ofList (decided ++ refused .keyNotWritable), events := [], manager := probed }
  else
    let (err, objs, memory) := m.memory.allocate needed.length outcome
    if err ≠ .success then
      { reply := Dict.ofList (decided ++ refused .outOfMemory)
        events := [.reservedWrite (successfulKeys Prod.fst decided)]
        manager := { probed with memory := memory.free objs } }
    else
      let granted := (needed.zip objs).map fun a => (a.1.1, (L1Error.success, some a.2))
      { reply := Dict.ofList (decided ++ granted)
        events := [.reservedWrite (successfulKeys Prod.fst (decided ++ granted))]
        manager :=
          { probed with objects := m.enterAllocated needed objs probe.2, memory := memory } }

def finishWriteKey (now : Nat) (_ : K) :
    Option L1ObjectState → L1Error × Option L1ObjectState
  | none => (.keyNotExist, none)
  | some e =>
    if !e.writeLock.isLocked now then
      (.keyInWrongState, some e)
    else if e.readLock.isLocked now then
      (.keyInWrongState, some e)
    else
      (.success, some { e with writeLock := e.writeLock.unlock })

def finishWrite (m : L1Manager K) (keys : List K) : L1Outcome K (Dict K L1Error) :=
  let r := Dict.updateEach (finishWriteKey m.nowMs) keys m.objects
  { reply := Dict.ofList r.1
    events := [.writeFinished (successfulKeys id r.1)]
    manager := { m with objects := r.2 } }

def finishWriteAndReserveReadKey (now total : Nat) (_ : K) :
    Option L1ObjectState → L1OperationResult × Option L1ObjectState
  | none => ((.keyNotExist, none), none)
  | some e =>
    if !e.writeLock.isLocked now then
      ((.keyInWrongState, none), some e)
    else if e.readLock.isLocked now then
      ((.keyInWrongState, none), some e)
    else
      ((.success, some e.memoryObj),
        some { e with
          writeLock := e.writeLock.unlock
          readLock := e.readLock.lockTimes now total })

def finishWriteAndReserveRead (m : L1Manager K) (keys : List K) (readLocks : Nat) :
    L1Outcome K (Dict K L1OperationResult) :=
  let r := Dict.updateEach
    (finishWriteAndReserveReadKey m.nowMs (validateReadLocks readLocks)) keys m.objects
  { reply := Dict.ofList r.1
    events := [.finishWriteAndReserveRead (successfulKeys Prod.fst r.1)]
    manager := { m with objects := r.2 } }

def deleteKey (force : Bool) (now : Nat) (_ : K) :
    Option L1ObjectState → (L1Error × Option MemoryObj) × Option L1ObjectState
  | none => ((.keyNotExist, none), none)
  | some e =>
    if e.isLocked now && !force then
      ((.keyIsLocked, none), some e)
    else
      ((.success, some e.memoryObj), none)

def delete (m : L1Manager K) (keys : List K) (force : Bool) : L1Outcome K (Dict K L1Error) :=
  let r := Dict.updateEach (deleteKey force m.nowMs) keys m.objects
  { reply := errorsOf r.1
    events := [.deletedByManager (successfulKeys Prod.fst r.1)]
    manager := { m with objects := r.2, memory := m.memory.free (needToFree r.1) } }

def touchKeys (m : L1Manager K) (keys : List K) : L1Outcome K Unit :=
  { reply := (), events := [.accessed keys], manager := m }

def dropObjects (m : L1Manager K) (cleared : L1ObjectState → Bool) : L1Manager K :=
  { m with
    objects := m.objects.filter fun _ e => !cleared e
    memory := m.memory.free ((m.objects.filter fun _ e => cleared e).values.map (·.memoryObj)) }

def clear (m : L1Manager K) (force : Bool) : L1Outcome K Unit :=
  if force then
    { reply := ()
      events := [.deletedByManager m.objects.keys]
      manager := m.dropObjects fun _ => true }
  else
    let keysToClear := (m.objects.filter fun _ e => !e.isLocked m.nowMs).keys
    { reply := ()
      events := if keysToClear.isEmpty then [] else [.deletedByManager keysToClear]
      manager := m.dropObjects fun e => !e.isLocked m.nowMs }

def close (m : L1Manager K) : L1Outcome K Unit :=
  { reply := (), events := [], manager := m.dropObjects fun _ => true }

/-- `L1EvictionController.execute_eviction_action`: every destination is a plain discard. -/
def executeEvictionAction (m : L1Manager K) (keys : List K) : L1Outcome K (Dict K L1Error) :=
  m.delete keys false

end L1Manager

/-- One call on the manager, or the passing of time. -/
inductive L1Op (K : Type)
  | reserveRead (keys : List K) (readLocks : Nat)
  | unsafeRead (keys : List K)
  | finishRead (keys : List K) (readLocks : Nat)
  | reserveWrite (keys : List K) (isTemporary : List Bool) (mode : L1Manager.WriteMode)
      (outcome : AllocOutcome)
  | finishWrite (keys : List K)
  | finishWriteAndReserveRead (keys : List K) (readLocks : Nat)
  | delete (keys : List K) (force : Bool)
  | touchKeys (keys : List K)
  | clear (force : Bool)
  | close
  | elapse (ms : Nat)
deriving DecidableEq, Repr

inductive L1Reply (K : Type)
  | results (ret : Dict K L1OperationResult)
  | errors (ret : Dict K L1Error)
  | unit

namespace L1Op

variable {K : Type}

def keys : L1Op K → List K
  | .reserveRead keys _ | .unsafeRead keys | .finishRead keys _ | .reserveWrite keys _ _ _
  | .finishWrite keys | .finishWriteAndReserveRead keys _ | .delete keys _ | .touchKeys keys => keys
  | .clear _ | .close | .elapse _ => []

/-- The `force` flag of the operations that remove objects. -/
def removal : L1Op K → Option Bool
  | .delete _ force | .clear force => some force
  | .close => some true
  | _ => none

def isForced (op : L1Op K) : Bool := op.removal = some true

end L1Op

namespace L1Outcome

variable {K ρ ρ' : Type}

def map (f : ρ → ρ') (o : L1Outcome K ρ) : L1Outcome K ρ' := ⟨f o.reply, o.events, o.manager⟩

end L1Outcome

namespace L1Manager

variable {K : Type} [DecidableEq K]

def apply (m : L1Manager K) : L1Op K → L1Outcome K (L1Reply K)
  | .reserveRead keys readLocks => (m.reserveRead keys readLocks).map .results
  | .unsafeRead keys => (m.unsafeRead keys).map .results
  | .finishRead keys readLocks => (m.finishRead keys readLocks).map .errors
  | .reserveWrite keys isTemporary mode outcome =>
    (m.reserveWrite keys isTemporary mode outcome).map .results
  | .finishWrite keys => (m.finishWrite keys).map .errors
  | .finishWriteAndReserveRead keys readLocks =>
    (m.finishWriteAndReserveRead keys readLocks).map .results
  | .delete keys force => (m.delete keys force).map .errors
  | .touchKeys keys => (m.touchKeys keys).map fun _ => .unit
  | .clear force => (m.clear force).map fun _ => .unit
  | .close => m.close.map fun _ => .unit
  | .elapse ms => ⟨.unit, [], { m with nowMs := m.nowMs + ms }⟩

end L1Manager

end LMCache
