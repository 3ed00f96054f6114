import LMCache.Lib.Tally
import LMCache.Memory.TensorAllocator

/-!
# The Device-DAX pool

`DevDaxMemoryAllocator` serves objects from local memory, when there is a local allocator, and
from a list of arenas, each a mapped device with a `TensorMemoryAllocator` of its own. A draining
arena is unmapped when it has no live allocation, unless a view of the mapping is exported. All
calls but those of the local allocator are made under one lock, so a call is one step.
-/

namespace LMCache

open Lib

/-- `removed` appears in reports only. -/
inductive DevDaxArenaState
  | active
  | draining
  | removed
  deriving DecidableEq, Repr

/-- Whom an object is given back to: the allocators write themselves over the parent that the
tensor allocator has set. For the pool the arena that served the object is recorded too; no
function of the pool reads it. -/
inductive PoolParent
  | localAllocator
  | devDax (servedBy : Nat)
  deriving DecidableEq, Repr

def PoolParent.isDevDax : PoolParent → Bool
  | .devDax _ => true
  | .localAllocator => false

/-- `serial` is the identity of the arena. -/
structure DevDaxArena where
  serial : Nat
  devicePath : String
  size : Nat
  basePtr : Nat
  allocator : TensorMemoryAllocator
  isPrimary : Bool
  state : DevDaxArenaState
  deriving DecidableEq, Repr

namespace DevDaxArena

def contains (arena : DevDaxArena) (ptr : Nat) : Bool :=
  decide (arena.basePtr ≤ ptr) && decide (ptr < arena.basePtr + arena.size)

/-- The references into the mapping are dropped before it is closed. -/
def dropBuffer (arena : DevDaxArena) : DevDaxArena :=
  { arena with allocator := { arena.allocator with dataPtr := 0 } }

/-- `_maybe_reap_arena_locked` gets as far as the unmap. -/
def reapable (arena : DevDaxArena) : Bool :=
  decide (arena.state = .draining) && decide (arena.allocator.numActiveAllocations ≤ 0)

/-- `_maybe_reap_arena_locked`: `none` when the arena is unmapped. -/
def maybeReap (views : List String) (arena : DevDaxArena) : Option DevDaxArena :=
  if arena.reapable then
    if arena.devicePath ∈ views then some arena.dropBuffer else none
  else some arena

end DevDaxArena

abbrev PoolObjs := ObjTable PoolParent

/-- The pool with all objects it has handed out; `mapped` arenas were mapped so far. -/
structure DevDaxMemoryAllocator where
  alignBytes : Nat
  localAllocator : Option TensorMemoryAllocator
  arenas : List DevDaxArena
  mapped : Nat
  objs : PoolObjs
  deriving DecidableEq, Repr

/-- How many objects fit into the free bytes. -/
def availableCount (am : AddressManager) (rawSize : Nat) : Int :=
  let unitAlignedSize := am.computeAlignedSize rawSize
  if unitAlignedSize ≤ 0 then 0 else am.getFreeSize / unitAlignedSize

/-- One object from the first active arena that can serve it. -/
def allocateFromArenas (rawSize : Nat) :
    List DevDaxArena → Option (TensorMemoryObj PoolParent) × List DevDaxArena
  | [] => (none, [])
  | arena :: rest =>
    if arena.state = .active ∧ 0 < availableCount arena.allocator.addressManager rawSize then
      let r := arena.allocator.allocate (.devDax arena.serial) rawSize
      let arena := { arena with allocator := r.2 }
      match r.1 with
      | some obj => (some obj, arena :: rest)
      | none =>
        let r := allocateFromArenas rawSize rest
        (r.1, arena :: r.2)
    else
      let r := allocateFromArenas rawSize rest
      (r.1, arena :: r.2)

/-- The loop of `_batched_allocate_from_arenas`: the arenas it went through, with the objects
each of them gave. -/
structure Filling where
  remaining : Int
  objs : PoolObjs
  arenas : List (DevDaxArena × List Nat)

def Filling.visit (rawSize : Nat) (c : Filling) (arena : DevDaxArena) : Result Filling :=
  let take := min c.remaining (availableCount arena.allocator.addressManager rawSize)
  if arena.state = .active ∧ c.remaining ≠ 0 ∧ 0 < take then
    match arena.allocator.batchedAllocate (.devDax arena.serial) rawSize take with
    | .error e => .error e
    | .ok (none, allocator) =>
      .ok { c with arenas := c.arenas ++ [({ arena with allocator := allocator }, [])] }
    | .ok (some objs, allocator) =>
      .ok {
        remaining := c.remaining - objs.length
        objs := c.objs ++ objs
        arenas := c.arenas ++
          [({ arena with allocator := allocator }, List.range' c.objs.length objs.length)] }
  else .ok { c with arenas := c.arenas ++ [(arena, [])] }

def rollBack : PoolObjs → List (DevDaxArena × List Nat) → List DevDaxArena
  | _, [] => []
  | objs, (arena, ids) :: rest =>
    let r := arena.allocator.batchedFree objs ids
    { arena with allocator := r.1 } :: rollBack r.2 rest

namespace DevDaxMemoryAllocator

/-- A pool with one arena, which is primary when there is no local allocator. -/
def init (alignBytes : Nat) (localSize : Option (Nat × Nat)) (devicePath : String)
    (size basePtr : Nat) : DevDaxMemoryAllocator where
  alignBytes := alignBytes
  localAllocator := localSize.map fun l => .new l.1 l.2 alignBytes
  arenas := [⟨0, devicePath, size, basePtr, .new basePtr size alignBytes, localSize.isNone,
    .active⟩]
  mapped := 1
  objs := []

def allocate (s : DevDaxMemoryAllocator) (rawSize : Nat) :
    Option Nat × DevDaxMemoryAllocator :=
  let fromLocal := s.localAllocator.map fun a => a.allocate PoolParent.localAllocator rawSize
  let s := { s with localAllocator := fromLocal.map Prod.snd }
  match fromLocal.bind Prod.fst with
  | some obj => (some s.objs.length, { s with objs := s.objs ++ [obj] })
  | none =>
    let r := allocateFromArenas rawSize s.arenas
    (r.1.map fun _ => s.objs.length, { s with arenas := r.2, objs := s.objs ++ r.1.toList })

def batchFromLocal (s : DevDaxMemoryAllocator) (rawSize : Nat) (batchSize : Int) :
    Result (List (TensorMemoryObj PoolParent) × DevDaxMemoryAllocator) :=
  match s.localAllocator with
  | none => .ok ([], s)
  | some a =>
    let localCount := min batchSize (availableCount a.addressManager rawSize)
    if localCount = 0 then .ok ([], s)
    else do
      let r ← a.batchedAllocate PoolParent.localAllocator rawSize localCount
      return (r.1.getD [], { s with localAllocator := some r.2 })

/-- The local objects of a batch are freed again. -/
def returnLocal (s : DevDaxMemoryAllocator) (objs : PoolObjs) (localIds : List Nat) :
    DevDaxMemoryAllocator :=
  { s with
    localAllocator := s.localAllocator.map fun a =>
      if localIds.isEmpty then a else (a.batchedFree objs localIds).1 }

/-- `batched_allocate`: the objects, or nothing after a roll back. Objects that were rolled back
are not reachable from anywhere. -/
def batchedAllocate (s : DevDaxMemoryAllocator) (rawSize : Nat) (batchSize : Int) :
    Result (Option (List Nat) × DevDaxMemoryAllocator) := do
  let fromLocal ← s.batchFromLocal rawSize batchSize
  let objs := s.objs ++ fromLocal.1
  let localIds := List.range' s.objs.length fromLocal.1.length
  let remaining := batchSize - fromLocal.1.length
  if remaining = 0 then return (some localIds, { fromLocal.2 with objs := objs })
  else
    let c ← s.arenas.foldlM (Filling.visit rawSize) ⟨remaining, objs, []⟩
    if c.remaining > 0 then
      return (none,
        { fromLocal.2.returnLocal objs localIds with arenas := rollBack c.objs c.arenas })
    else
      return (some (localIds ++ c.arenas.flatMap Prod.snd),
        { fromLocal.2 with arenas := c.arenas.map Prod.fst, objs := c.objs })

def foreignText : String := "Memory object does not belong to DevDaxMemoryAllocator"

def foreignBatchText : String :=
  "One or more memory objects do not belong to DevDaxMemoryAllocator"

def noArenaText : String := "Memory object does not belong to any Device-DAX arena"

/-- The owner of an object, by its data pointer. -/
def arenaForObj (arenas : List DevDaxArena) (dataPtr : Nat) : Result DevDaxArena :=
  match arenas.find? fun arena => arena.contains dataPtr with
  | some arena => .ok arena
  | none => valueError noArenaText

/-- The view of a freed object is replaced by an empty tensor. -/
def dropView (objs : PoolObjs) (id : Nat) : PoolObjs :=
  objs.modify id fun obj => { obj with dataPtr := 0 }

def setAllocator (arenas : List DevDaxArena) (serial : Nat) (allocator : TensorMemoryAllocator) :
    List DevDaxArena :=
  arenas.map fun arena =>
    if arena.serial = serial then { arena with allocator := allocator } else arena

/-- `_reap_draining_arenas_locked`. -/
def reapDraining (s : DevDaxMemoryAllocator) (views : List String) : DevDaxMemoryAllocator :=
  { s with arenas := s.arenas.filterMap (DevDaxArena.maybeReap views) }

def freeDevdaxObj (s : DevDaxMemoryAllocator) (views : List String) (id dataPtr : Nat) :
    Result Unit × DevDaxMemoryAllocator :=
  match arenaForObj s.arenas dataPtr with
  | .error e => (.error e, s)
  | .ok arena =>
    let r := arena.allocator.free s.objs id
    (.ok (), reapDraining
      { s with
        arenas := setAllocator s.arenas arena.serial r.1
        objs := dropView r.2 id } views)

/-- The objects of one arena in a batch. -/
def freeGroup (s : DevDaxMemoryAllocator) (serial : Nat) (ids : List Nat) :
    DevDaxMemoryAllocator :=
  match s.arenas.find? fun arena => decide (arena.serial = serial) with
  | none => s
  | some arena =>
    let r := arena.allocator.batchedFree s.objs ids
    { s with
      arenas := setAllocator s.arenas serial r.1
      objs := ids.foldl dropView r.2 }

def dataPtrOf (objs : PoolObjs) (id : Nat) : Nat := (objs[id]?.map (·.dataPtr)).getD 0

/-- Every object is resolved before the first is freed. -/
def resolve (s : DevDaxMemoryAllocator) (ids : List Nat) : Result (List (Nat × Nat)) :=
  ids.mapM fun id => do
    let arena ← arenaForObj s.arenas (dataPtrOf s.objs id)
    return (arena.serial, id)

def batchedFreeDevdaxObjs (s : DevDaxMemoryAllocator) (views : List String) (ids : List Nat) :
    Result Unit × DevDaxMemoryAllocator :=
  match s.resolve ids with
  | .error e => (.error e, s)
  | .ok resolved =>
    let groups := collect Prod.fst resolved
    (.ok (), reapDraining
      (groups.entries.foldl (fun s group => s.freeGroup group.1 (group.2.map Prod.snd)) s) views)

def isLocalObj (s : DevDaxMemoryAllocator) (id : Nat) : Bool :=
  s.localAllocator.isSome && (s.objs[id]?.any fun obj => !obj.parentAllocator.isDevDax)

def isDevdaxObj (s : DevDaxMemoryAllocator) (id : Nat) : Bool :=
  s.objs[id]?.any fun obj => obj.parentAllocator.isDevDax

def freeLocal (s : DevDaxMemoryAllocator) (ids : List Nat) : DevDaxMemoryAllocator :=
  match s.localAllocator with
  | none => s
  | some a =>
    let r := a.batchedFree s.objs ids
    { s with localAllocator := some r.1, objs := r.2 }

def free (s : DevDaxMemoryAllocator) (views : List String) (id : Nat) :
    Result Unit × DevDaxMemoryAllocator :=
  match s.localAllocator, s.isLocalObj id with
  | some a, true =>
    let r := a.free s.objs id
    (.ok (), { s with localAllocator := some r.1, objs := r.2 })
  | _, _ =>
    if s.isDevdaxObj id then s.freeDevdaxObj views id (dataPtrOf s.objs id)
    else (valueError foreignText, s)

def batchedFree (s : DevDaxMemoryAllocator) (views : List String) (ids : List Nat) :
    Result Unit × DevDaxMemoryAllocator :=
  let localIds := ids.filter s.isLocalObj
  let devdaxIds := ids.filter s.isDevdaxObj
  if localIds.length + devdaxIds.length ≠ ids.length then (valueError foreignBatchText, s)
  else
    let s := if localIds.isEmpty then s else s.freeLocal localIds
    if devdaxIds.isEmpty then (.ok (), s) else s.batchedFreeDevdaxObjs views devdaxIds

def alreadyMappedText (devicePath : String) : String :=
  s!"Device-DAX arena {devicePath} is already mapped"

def notMappedText (devicePath : String) : String :=
  s!"no Device-DAX arena mapped at {devicePath}"

def primaryText (devicePath : String) : String :=
  s!"cannot remove primary Device-DAX arena {devicePath}"

/-- `mapping` is where the device is mapped, or the error of the mapping. -/
def addDevice (s : DevDaxMemoryAllocator) (devicePath : String) (sizeInBytes : Nat)
    (mapping : Result Nat) : Result DevDaxMemoryAllocator := do
  rejectIf (devicePath = "") "device_path must be a non-empty string"
  rejectIf (sizeInBytes ≤ 0) "size_in_bytes must be > 0"
  rejectIf (s.arenas.any fun arena => arena.devicePath = devicePath) (alreadyMappedText devicePath)
  let basePtr ← mapping
  return { s with
    arenas := s.arenas ++
      [⟨s.mapped, devicePath, sizeInBytes, basePtr, .new basePtr sizeInBytes s.alignBytes, false,
        .active⟩]
    mapped := s.mapped + 1 }

/-- The arena of a drain request is marked and, if it is idle, unmapped. -/
def drain (arenas : List DevDaxArena) (views : List String) (serial : Nat) : List DevDaxArena :=
  arenas.filterMap fun arena =>
    if arena.serial = serial then DevDaxArena.maybeReap views { arena with state := .draining }
    else some arena

def removeDevice (s : DevDaxMemoryAllocator) (views : List String) (devicePath : String) :
    Result DevDaxMemoryAllocator :=
  match s.arenas.find? fun arena => decide (arena.devicePath = devicePath) with
  | none => valueError (notMappedText devicePath)
  | some arena => do
    rejectIf arena.isPrimary (primaryText devicePath)
    return { s with arenas := drain s.arenas views arena.serial }

end DevDaxMemoryAllocator

inductive DevDaxCall
  | allocate (rawSize : Nat)
  | batchedAllocate (rawSize : Nat) (batchSize : Int)
  | free (views : List String) (id : Nat)
  | batchedFree (views : List String) (ids : List Nat)
  | addDevice (devicePath : String) (sizeInBytes : Nat) (mapping : Result Nat)
  | removeDevice (views : List String) (devicePath : String)

namespace DevDaxMemoryAllocator

/-- The state after a call, also after one that raises. -/
def call (s : DevDaxMemoryAllocator) : DevDaxCall → DevDaxMemoryAllocator
  | .allocate rawSize => (s.allocate rawSize).2
  | .batchedAllocate rawSize batchSize =>
    match s.batchedAllocate rawSize batchSize with
    | .ok r => r.2
    | .error _ => s
  | .free views id => (s.free views id).2
  | .batchedFree views ids => (s.batchedFree views ids).2
  | .addDevice devicePath sizeInBytes mapping =>
    match s.addDevice devicePath sizeInBytes mapping with
    | .ok s' => s'
    | .error _ => s
  | .removeDevice views devicePath =>
    match s.removeDevice views devicePath with
    | .ok s' => s'
    | .error _ => s

end DevDaxMemoryAllocator

end LMCache
