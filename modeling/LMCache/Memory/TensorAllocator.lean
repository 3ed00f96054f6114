import LMCache.Lib.Extents
import LMCache.Lib.Python
import LMCache.Lib.Run

/-!
# The tensor allocator

`AddressManager` hands out blocks of a virtual address space `[0, size)`. Its free blocks
stand in a list sorted by their start. `allocate` takes the first block that is large
enough, `batched_allocate` carves as many blocks as it can from one free block after the
other, `free` and `sbrk` join the new free block with the neighbours it touches. The mutex
makes every method one step.

`TensorMemoryAllocator` serves memory objects from one buffer, whose address space an
`AddressManager` keeps, and counts those not freed yet. Freeing an object clears its flag, and
freeing it again does nothing. `batched_free` hands runs of adjacent objects back as one block.

Objects stand in a table and are named by their index. Of their metadata only what the allocator
reads again is kept. Allocators are named by the elements of a type `P`.
-/

namespace LMCache

open Lib

abbrev FreeBlock := Extent

def FreeBlock.canBeCoalesced (block succ : FreeBlock) : Bool :=
  block.start + block.size == succ.start

structure AddressManager where
  size : Nat
  align : Nat
  explicitList : List FreeBlock
  totalAllocatedSize : Int
  deriving DecidableEq, Repr

namespace AddressManager

def add (block : FreeBlock) (blocks : List FreeBlock) : List FreeBlock :=
  addByKey Extent.start block blocks

def init (size alignBytes : Nat) : AddressManager where
  size := size
  align := alignBytes
  explicitList := add ⟨0, size⟩ []
  totalAllocatedSize := 0

/-- `(raw_size + align - 1) & ~(align - 1)`: the bits of the mask `align - 1` are cleared. -/
def computeAlignedSize (am : AddressManager) (rawSize : Nat) : Nat :=
  let padded := rawSize + am.align - 1
  padded ^^^ (padded &&& (am.align - 1))

/-- `_coalesce` of a block that is not in the list; `prev` and `succ` are positions in it. The
list is `none` when the block touches neither. -/
def coalesce (blocks : List FreeBlock) (curr : FreeBlock) (prev succ : Option Nat) :
    Option (List FreeBlock) :=
  let prevBlock := prev.bind fun i => blocks[i]?.map fun block => (i, block)
  let succBlock := succ.bind fun i => blocks[i]?
  let mergePrev := prevBlock.filter fun p => FreeBlock.canBeCoalesced p.2 curr
  let mergeSucc := succBlock.filter fun s => FreeBlock.canBeCoalesced curr s
  match mergePrev, mergeSucc with
  | some (i, p), some s =>
    some ((blocks.set i { p with size := p.size + (curr.size + s.size) }).erase s)
  | some (i, p), none => some (blocks.set i { p with size := p.size + curr.size })
  | none, some s =>
    some (add ⟨s.start - curr.size, s.size + curr.size⟩ (blocks.erase s))
  | none, none => none

def noMemoryText (size : Nat) : String :=
  s!"Failed to allocate memory block of size {size} because no memory is available"

def allocate (am : AddressManager) (size : Nat) : Result (FreeBlock × AddressManager) :=
  let alignedSize := am.computeAlignedSize size
  match am.explicitList.find? fun block => decide (alignedSize ≤ block.size) with
  | none => raise .runtimeError (noMemoryText size)
  | some block =>
    let rest := am.explicitList.erase block
    let blocks :=
      if block.size > alignedSize then
        add ⟨block.start + alignedSize, block.size - alignedSize⟩ rest
      else rest
    .ok (⟨block.start, alignedSize⟩,
      { am with
        explicitList := blocks
        totalAllocatedSize := am.totalAllocatedSize + alignedSize })

/-- The accumulators of the loop of `batched_allocate`. -/
structure Carving where
  remaining : Int
  allocateResult : List FreeBlock
  blocksToRemove : List FreeBlock
  blocksToAdd : List FreeBlock
  deriving DecidableEq, Repr

/-- One free block that is large enough gives as many blocks as are still asked for. -/
def Carving.take (c : Carving) (alignedSize : Nat) (block : FreeBlock) : Carving :=
  let numFromBlock := min c.remaining.toNat (block.size / alignedSize)
  let used := numFromBlock * alignedSize
  { remaining := c.remaining - numFromBlock
    allocateResult := c.allocateResult ++
      (List.range numFromBlock).map fun i => ⟨block.start + i * alignedSize, alignedSize⟩
    blocksToRemove := c.blocksToRemove ++ [block]
    blocksToAdd :=
      if block.size > used then c.blocksToAdd ++ [⟨block.start + used, block.size - used⟩]
      else c.blocksToAdd }

/-- The loop of `batched_allocate` over the free blocks. -/
def carve (alignedSize : Nat) : List FreeBlock → Carving → Carving
  | [], c => c
  | block :: blocks, c =>
    if c.remaining ≤ 0 then c
    else if block.size < alignedSize then carve alignedSize blocks c
    else carve alignedSize blocks (c.take alignedSize block)

def noBatchMemoryText (size : Nat) (batchSize : Int) : String :=
  s!"Failed to batched allocate {batchSize} memory blocks of size {size} because " ++
    "no enough memory is available"

def batchLengthText (size : Nat) (batchSize : Int) (length : Nat) : String :=
  s!"Failed to batched allocate {batchSize} memory blocks of size {size} because " ++
    s!"the length of allocate_result {length} is not equal to batch_size"

/-- An aligned size of zero is divided by at the first free block. -/
def batchedAllocate (am : AddressManager) (size : Nat) (batchSize : Int) :
    Result (List FreeBlock × AddressManager) := do
  let alignedSize := am.computeAlignedSize size
  raiseIf .zeroDivisionError (alignedSize = 0 && batchSize > 0 && !am.explicitList.isEmpty)
    "integer division or modulo by zero"
  let c := carve alignedSize am.explicitList ⟨batchSize, [], [], []⟩
  raiseIf .runtimeError (c.remaining > 0) (noBatchMemoryText size batchSize)
  raiseIf .runtimeError (c.allocateResult.length ≠ batchSize)
    (batchLengthText size batchSize c.allocateResult.length)
  let kept := c.blocksToRemove.foldl (fun blocks block => blocks.erase block) am.explicitList
  return (c.allocateResult,
    { am with
      explicitList := c.blocksToAdd.foldl (fun blocks block => add block blocks) kept
      totalAllocatedSize := am.totalAllocatedSize + alignedSize * batchSize })

def free (am : AddressManager) (block : FreeBlock) : AddressManager :=
  let index := bisectLeft Extent.start block.start am.explicitList
  let prev := if index > 0 then some (index - 1) else none
  let succ := if index < am.explicitList.length then some index else none
  { am with
    explicitList := (coalesce am.explicitList block prev succ).getD (add block am.explicitList)
    totalAllocatedSize := am.totalAllocatedSize - block.size }

def sbrk (am : AddressManager) (size : Nat) : AddressManager :=
  let alignedSize := am.computeAlignedSize size
  let newBlock : FreeBlock := ⟨am.size, alignedSize⟩
  let prev :=
    if am.explicitList.length > 0 then some (am.explicitList.length - 1) else none
  { am with
    explicitList := (coalesce am.explicitList newBlock prev none).getD
      (add newBlock am.explicitList)
    size := am.size + alignedSize }

def getHeapSize (am : AddressManager) : Nat := am.size

def getFreeSize (am : AddressManager) : Int := am.size - am.totalAllocatedSize

/-- No two neighbours touch, and the free and the allocated bytes add up to the heap. -/
def checkConsistency (am : AddressManager) : Bool :=
  let neighbours := am.explicitList.dropLast.zip am.explicitList.tail
  if neighbours.any fun p => FreeBlock.canBeCoalesced p.1 p.2 then false
  else
    let totalFreeSize := (am.explicitList.map Extent.size).sum
    decide ((totalFreeSize : Int) + am.totalAllocatedSize = am.size)

end AddressManager

/-- A manager with the blocks that were handed out and not freed since. -/
structure AddressSpace where
  manager : AddressManager
  live : List FreeBlock
  deriving DecidableEq, Repr

inductive AddressCall
  | allocate (size : Nat)
  | batchedAllocate (size : Nat) (batchSize : Int)
  | free (block : FreeBlock)
  | sbrk (size : Nat)
  deriving DecidableEq, Repr

namespace AddressSpace

def init (size alignBytes : Nat) : AddressSpace := ⟨.init size alignBytes, []⟩

/-- One call. Sizes are positive and only live blocks are freed; a call that raises leaves the
manager as it is. -/
def call (s : AddressSpace) : AddressCall → Option AddressSpace
  | .allocate size =>
    if 0 < size then
      match s.manager.allocate size with
      | .ok (block, am) => some ⟨am, block :: s.live⟩
      | .error _ => some s
    else none
  | .batchedAllocate size batchSize =>
    if 0 < size then
      match s.manager.batchedAllocate size batchSize with
      | .ok (blocks, am) => some ⟨am, blocks ++ s.live⟩
      | .error _ => some s
    else none
  | .free block =>
    if block ∈ s.live then some ⟨s.manager.free block, s.live.erase block⟩ else none
  | .sbrk size => if 0 < size then some ⟨s.manager.sbrk size, s.live⟩ else none

def Reachable (size alignBytes : Nat) (s : AddressSpace) : Prop :=
  ∃ calls, Run (fun s c t => call s c = some t) (init size alignBytes) calls s

end AddressSpace

structure TensorMemoryObj (P : Type) where
  address : Nat
  phySize : Nat
  dataPtr : Nat
  parentAllocator : P
  valid : Bool
  deriving DecidableEq, Repr

abbrev ObjTable (P : Type) := List (TensorMemoryObj P)

namespace ObjTable

variable {P : Type}

def invalidate (objs : ObjTable P) (id : Nat) : ObjTable P :=
  objs.modify id fun obj => { obj with valid := false }

/-- The key of the sort of `batched_free`. -/
def addressOf (objs : ObjTable P) (id : Nat) : Nat := (objs[id]?.map (·.address)).getD 0

def sortByAddress (objs : ObjTable P) (ids : List Nat) : List Nat :=
  ids.insertionSort fun i j => addressOf objs i ≤ addressOf objs j

end ObjTable

structure TensorMemoryAllocator where
  /-- Where the buffer is mapped. -/
  dataPtr : Nat
  addressManager : AddressManager
  numActiveAllocations : Int
  deriving DecidableEq, Repr

/-- The accumulators of the loop of `batched_free`: the objects, the runs that are closed, and
the run that is open; a run comes with the number of its objects. -/
structure FreeScan (P : Type) where
  objs : ObjTable P
  coalescedBlocks : List (FreeBlock × Nat)
  curr : Option (FreeBlock × Nat)

/-- One object of the sorted list. -/
def FreeScan.visit {P : Type} (c : FreeScan P) (id : Nat) : FreeScan P :=
  match c.objs[id]? with
  | none => c
  | some obj =>
    if obj.valid then
      let objs := ObjTable.invalidate c.objs id
      match c.curr with
      | none => { c with objs := objs, curr := some (⟨obj.address, obj.phySize⟩, 1) }
      | some run =>
        if run.1.start + run.1.size = obj.address then
          { c with
            objs := objs
            curr := some (⟨run.1.start, run.1.size + obj.phySize⟩, run.2 + 1) }
        else
          { objs := objs
            coalescedBlocks := c.coalescedBlocks ++ [run]
            curr := some (⟨obj.address, obj.phySize⟩, 1) }
    else c

namespace TensorMemoryAllocator

variable {P : Type}

def new (dataPtr size alignBytes : Nat) : TensorMemoryAllocator :=
  ⟨dataPtr, .init size alignBytes, 0⟩

/-- The address manager raises nothing but `RuntimeError` here. -/
def allocate (a : TensorMemoryAllocator) (self : P) (rawSize : Nat) :
    Option (TensorMemoryObj P) × TensorMemoryAllocator :=
  match a.addressManager.allocate rawSize with
  | .error _ => (none, a)
  | .ok (block, am) =>
    (some ⟨block.start, block.size, a.dataPtr + block.start, self, true⟩,
      { a with addressManager := am, numActiveAllocations := a.numActiveAllocations + 1 })

/-- The address manager is asked for blocks of the aligned size, and aligns it again. -/
def batchedAllocate (a : TensorMemoryAllocator) (self : P) (unitRawSize : Nat) (batchSize : Int) :
    Result (Option (List (TensorMemoryObj P)) × TensorMemoryAllocator) :=
  let unitAlignedSize := a.addressManager.computeAlignedSize unitRawSize
  match a.addressManager.batchedAllocate unitAlignedSize batchSize with
  | .error e => if e.kind = .runtimeError then .ok (none, a) else .error e
  | .ok (blocks, am) =>
    .ok (some (blocks.map fun block =>
        ⟨block.start, unitAlignedSize, a.dataPtr + block.start, self, true⟩),
      { a with
        addressManager := am
        numActiveAllocations := a.numActiveAllocations + batchSize })

def free (a : TensorMemoryAllocator) (objs : ObjTable P) (id : Nat) :
    TensorMemoryAllocator × ObjTable P :=
  match objs[id]? with
  | none => (a, objs)
  | some obj =>
    if obj.valid then
      ({ a with
          addressManager := a.addressManager.free ⟨obj.address, obj.phySize⟩
          numActiveAllocations := a.numActiveAllocations - 1 },
        ObjTable.invalidate objs id)
    else (a, objs)

/-- The runs that `batched_free` frees, with the numbers of their objects, and the objects
after it. -/
def coalescedRuns (objs : ObjTable P) (ids : List Nat) : List (FreeBlock × Nat) × ObjTable P :=
  let c := (ObjTable.sortByAddress objs ids).foldl FreeScan.visit ⟨objs, [], none⟩
  (c.coalescedBlocks ++ c.curr.toList, c.objs)

def batchedFree (a : TensorMemoryAllocator) (objs : ObjTable P) (ids : List Nat) :
    TensorMemoryAllocator × ObjTable P :=
  let runs := coalescedRuns objs ids
  ({ a with
      addressManager := runs.1.foldl (fun am run => am.free run.1) a.addressManager
      numActiveAllocations := a.numActiveAllocations - (runs.1.map Prod.snd).sum },
    runs.2)

end TensorMemoryAllocator

/-- An allocator with all objects it has handed out. -/
structure TensorHeap (P : Type) where
  allocator : TensorMemoryAllocator
  objs : ObjTable P
  deriving DecidableEq, Repr

inductive TensorCall
  | allocate (rawSize : Nat)
  | batchedAllocate (unitRawSize : Nat) (batchSize : Int)
  | free (id : Nat)
  | batchedFree (ids : List Nat)
  /-- The address space of a lazily mapped buffer grows. -/
  | sbrk (size : Nat)
  deriving DecidableEq, Repr

namespace TensorHeap

variable {P : Type}

def init (dataPtr size alignBytes : Nat) : TensorHeap P := ⟨.new dataPtr size alignBytes, []⟩

def free (s : TensorHeap P) (id : Nat) : TensorHeap P :=
  let r := s.allocator.free s.objs id
  ⟨r.1, r.2⟩

def batchedFree (s : TensorHeap P) (ids : List Nat) : TensorHeap P :=
  let r := s.allocator.batchedFree s.objs ids
  ⟨r.1, r.2⟩

/-- One call of the allocator `self`; a call that raises leaves everything as it is. -/
def call (self : P) (s : TensorHeap P) : TensorCall → TensorHeap P
  | .allocate rawSize =>
    let r := s.allocator.allocate self rawSize
    ⟨r.2, s.objs ++ r.1.toList⟩
  | .batchedAllocate unitRawSize batchSize =>
    match s.allocator.batchedAllocate self unitRawSize batchSize with
    | .ok r => ⟨r.2, s.objs ++ r.1.getD []⟩
    | .error _ => s
  | .free id => s.free id
  | .batchedFree ids => s.batchedFree ids
  | .sbrk size =>
    { s with
      allocator :=
        { s.allocator with addressManager := s.allocator.addressManager.sbrk size } }

def Live (s : TensorHeap P) (id : Nat) : Prop := ∃ obj, s.objs[id]? = some obj ∧ obj.valid = true

instance (s : TensorHeap P) (id : Nat) : Decidable (s.Live id) :=
  decidable_of_iff ((s.objs[id]?.map (·.valid)) = some true) (by simp [Live])

end TensorHeap

/-- The sizes that the address manager documents. -/
def TensorCall.Positive : TensorCall → Prop
  | .allocate rawSize => 0 < rawSize
  | .batchedAllocate unitRawSize _ => 0 < unitRawSize
  | .sbrk size => 0 < size
  | .free _ | .batchedFree _ => True

end LMCache
