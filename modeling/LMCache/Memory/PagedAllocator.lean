import LMCache.Lib.Run
import Mathlib.Algebra.GroupWithZero.Nat

/-!
# The paged allocator

`PagedTensorMemoryAllocator` has one memory object per page and a queue of them. `allocate` hands
out the object at the front; it goes back when its reference count and its pin count let
`ref_count_down` or `unpin` call `free`. A holder is one time an object was handed out, with the
references and pins that the calls through it have left it.

An allocation asks for groups of tensors, each with a shape and a dtype. The object of a page
carries those of its current allocation, and the prefix sums of the group sizes, which are
computed when the object is made, for the groups of the allocator. Shapes and dtypes come in
lists of one length, which is not empty.
-/

namespace LMCache

open Lib

/-- `TensorMemoryObj` of one page; `rawSize` is the length of its view of the page. -/
structure PageObj (S : Type) where
  shapes : S
  rawSize : Nat
  usedSizeOverride : Option Nat
  refCount : Int
  pinCount : Int
  valid : Bool
  deriving DecidableEq, Repr

structure PagedAllocator (S : Type) where
  shapes : S
  alignBytes : Nat
  pages : List (PageObj S)
  freeBlocks : List Nat
  numActiveAllocations : Int
  totalAllocatedSize : Int
  deriving DecidableEq, Repr

namespace PagedAllocator

variable {S : Type} [DecidableEq S]

/-- A fresh allocator: every page is free, its object has a reference count of one. -/
def init (shapes : S) (alignBytes numPages : Nat) : PagedAllocator S where
  shapes := shapes
  alignBytes := alignBytes
  pages := List.replicate numPages ⟨shapes, alignBytes, none, 1, 0, true⟩
  freeBlocks := List.range numPages
  numActiveAllocations := 0
  totalAllocatedSize := 0

def modifyPage (a : PagedAllocator S) (page : Nat) (f : PageObj S → PageObj S) :
    PagedAllocator S :=
  { a with pages := a.pages.modify page f }

/-- The reset of an object that is handed out; the pin count stays. -/
def renew (a : PagedAllocator S) (shapes : S) (sizeInBytes : Nat) (obj : PageObj S) : PageObj S :=
  { obj with
    shapes := shapes
    refCount := 1
    usedSizeOverride := none
    rawSize := if shapes ≠ a.shapes then min obj.rawSize sizeInBytes else obj.rawSize }

/-- `free_blocks.popleft()` and the reset of the object. -/
def popFree (a : PagedAllocator S) (shapes : S) (sizeInBytes : Nat) :
    Option (Nat × PagedAllocator S) :=
  match a.freeBlocks with
  | [] => none
  | page :: rest =>
    some (page, { a with freeBlocks := rest }.modifyPage page (a.renew shapes sizeInBytes))

def allocate (a : PagedAllocator S) (shapes : S) (sizeInBytes : Nat) :
    Option (Nat × PagedAllocator S) :=
  (a.popFree shapes sizeInBytes).map fun (page, b) =>
    (page, { b with
      numActiveAllocations := b.numActiveAllocations + 1
      totalAllocatedSize := b.totalAllocatedSize + b.alignBytes })

/-- A page goes back to the queue; a narrowed view is restored. -/
def pushFree (a : PagedAllocator S) (page : Nat) : PagedAllocator S :=
  match a.pages[page]? with
  | none => a
  | some obj =>
    if obj.valid then
      let restored :=
        if obj.shapes ≠ a.shapes then
          a.modifyPage page fun obj => { obj with rawSize := a.alignBytes }
        else a
      { restored with freeBlocks := restored.freeBlocks ++ [page] }
    else a

/-- `batched_free` without the statistics. -/
def batchedFree (a : PagedAllocator S) (pages : List Nat) : PagedAllocator S :=
  pages.foldl pushFree a

/-- The loop of `batched_allocate`: `none` in the first place when the pages ran out, after
which the blocks taken so far are given back. -/
def batchedLoop (shapes : S) (sizeInBytes : Nat) :
    Nat → List Nat → PagedAllocator S → Option (List Nat) × PagedAllocator S
  | 0, blocks, a => (some blocks, a)
  | n + 1, blocks, a =>
    match a.popFree shapes sizeInBytes with
    | none => (none, a.batchedFree blocks)
    | some (page, b) => batchedLoop shapes sizeInBytes n (blocks ++ [page]) b

def batchedAllocate (a : PagedAllocator S) (shapes : S) (sizeInBytes : Nat) (batchSize : Int) :
    Option (List Nat) × PagedAllocator S :=
  match batchedLoop shapes sizeInBytes batchSize.toNat [] a with
  | (none, b) => (none, b)
  | (some blocks, b) =>
    (some blocks, { b with
      numActiveAllocations := b.numActiveAllocations + batchSize
      totalAllocatedSize := (b.numActiveAllocations + batchSize) * b.alignBytes })

def free (a : PagedAllocator S) (page : Nat) : PagedAllocator S :=
  match a.pages[page]? with
  | none => a
  | some obj =>
    if obj.valid then
      let b := a.pushFree page
      { b with
        totalAllocatedSize := b.totalAllocatedSize - b.alignBytes
        numActiveAllocations := b.numActiveAllocations - 1 }
    else a

def refCountUp (a : PagedAllocator S) (page : Nat) : PagedAllocator S :=
  a.modifyPage page fun obj => { obj with refCount := obj.refCount + 1 }

/-- A count below zero is set back to zero, after which the object is freed all the same. -/
def refCountDown (a : PagedAllocator S) (page : Nat) : PagedAllocator S :=
  match a.pages[page]? with
  | none => a
  | some obj =>
    let refCount := if obj.refCount - 1 < 0 then 0 else obj.refCount - 1
    let b := a.modifyPage page fun obj => { obj with refCount := refCount }
    if refCount = 0 ∧ obj.pinCount = 0 then b.free page else b

def pin (a : PagedAllocator S) (page : Nat) : PagedAllocator S :=
  a.modifyPage page fun obj => { obj with pinCount := obj.pinCount + 1 }

/-- The object is freed before a count below zero is set back to zero. -/
def unpin (a : PagedAllocator S) (page : Nat) : PagedAllocator S :=
  match a.pages[page]? with
  | none => a
  | some obj =>
    let pinCount := obj.pinCount - 1
    let b := a.modifyPage page fun obj => { obj with pinCount := pinCount }
    let c := if pinCount ≤ 0 ∧ obj.refCount ≤ 0 then b.free page else b
    if pinCount < 0 then c.modifyPage page fun obj => { obj with pinCount := 0 } else c

end PagedAllocator

/-- One time an object was handed out: its page, and the references and pins that the calls
through it have left it. Both are zero once it is released, and stay so. -/
structure PageHolder where
  page : Nat
  refs : Int
  pins : Int
  deriving DecidableEq, Repr

namespace PageHolder

def fresh (page : Nat) : PageHolder := ⟨page, 1, 0⟩

def InUse (h : PageHolder) : Prop := 0 < h.refs ∨ 0 < h.pins

instance (h : PageHolder) : Decidable h.InUse := inferInstanceAs (Decidable (_ ∨ _))

/-- What is left after a call; a call through a released holder counts for nobody. -/
def count (h : PageHolder) (refs pins : Int) : PageHolder :=
  if h.InUse then { h with refs := max (h.refs + refs) 0, pins := max (h.pins + pins) 0 } else h

end PageHolder

/-- The allocator with all holders so far. -/
structure PagedSystem (S : Type) where
  allocator : PagedAllocator S
  holders : List PageHolder
  deriving DecidableEq, Repr

inductive PagedCall (S : Type)
  | allocate (shapes : S) (sizeInBytes : Nat)
  | batchedAllocate (shapes : S) (sizeInBytes : Nat) (batchSize : Int)
  | refCountUp (holder : Nat)
  | refCountDown (holder : Nat)
  | pin (holder : Nat)
  | unpin (holder : Nat)
  deriving DecidableEq, Repr

namespace PagedSystem

variable {S : Type} [DecidableEq S]

def init (shapes : S) (alignBytes numPages : Nat) : PagedSystem S :=
  ⟨.init shapes alignBytes numPages, []⟩

/-- A call through a holder: on the object of its page, and on its own counts. -/
def through (s : PagedSystem S) (holder : Nat) (f : PagedAllocator S → Nat → PagedAllocator S)
    (refs pins : Int) : Option (PagedSystem S) :=
  s.holders[holder]?.map fun h => ⟨f s.allocator h.page, s.holders.set holder (h.count refs pins)⟩

def call (s : PagedSystem S) : PagedCall S → Option (PagedSystem S)
  | .allocate shapes sizeInBytes =>
    match s.allocator.allocate shapes sizeInBytes with
    | none => some s
    | some (page, a) => some ⟨a, s.holders ++ [.fresh page]⟩
  | .batchedAllocate shapes sizeInBytes batchSize =>
    match s.allocator.batchedAllocate shapes sizeInBytes batchSize with
    | (none, a) => some ⟨a, s.holders⟩
    | (some pages, a) => some ⟨a, s.holders ++ pages.map .fresh⟩
  | .refCountUp holder => s.through holder .refCountUp 1 0
  | .refCountDown holder => s.through holder .refCountDown (-1) 0
  | .pin holder => s.through holder .pin 0 1
  | .unpin holder => s.through holder .unpin 0 (-1)

end PagedSystem

abbrev Shape := List Nat

structure DType where
  name : String
  itemsize : Nat
  deriving DecidableEq, Repr

abbrev Groups := List (Shape × DType)

namespace Groups

def shapes (groups : Groups) : List Shape := groups.map Prod.fst

def dtypes (groups : Groups) : List DType := groups.map Prod.snd

/-- `shape.numel() * dtype.itemsize`, group by group. -/
def sizes (groups : Groups) : List Nat := groups.map fun group => group.1.prod * group.2.itemsize

def getSizeBytes (groups : Groups) : Nat := groups.sizes.sum

/-- `[0, size_of_group_1, size_of_group_1 + size_of_group_2, ..]`. -/
def groupPrefixSum (groups : Groups) : List Nat := groups.sizes.scanl (· + ·) 0

end Groups

/-- What the object of a page has besides its shapes and counters. -/
structure PageLayout where
  dtypes : List DType
  groupPrefixSum : List Nat
  deriving DecidableEq, Repr

namespace PageLayout

def getSize (layout : PageLayout) (obj : PageObj (List Shape)) : Nat :=
  obj.usedSizeOverride.getD (layout.groupPrefixSum.getLastD 0)

def byteArrayLength (layout : PageLayout) (obj : PageObj (List Shape)) : Nat := layout.getSize obj

/-- Where `get_tensor` finds a group; `none` when the index is out of range. -/
def tensorBounds (layout : PageLayout) (index : Nat) : Option (Nat × Nat) :=
  layout.groupPrefixSum[index]?.bind fun start =>
    layout.groupPrefixSum[index + 1]?.map fun stop => (start, stop)

end PageLayout

structure PagedTensorMemoryAllocator where
  paged : PagedAllocator (List Shape)
  layouts : List PageLayout
  deriving DecidableEq, Repr

namespace PagedTensorMemoryAllocator

/-- The objects are made for the groups of the allocator; a page holds these. -/
def init (groups : Groups) (numPages : Nat) : PagedTensorMemoryAllocator where
  paged := .init groups.shapes groups.getSizeBytes numPages
  layouts := List.replicate numPages ⟨groups.dtypes, groups.groupPrefixSum⟩

/-- An object that is handed out gets the new dtypes along with the new shapes. -/
def popFree (a : PagedTensorMemoryAllocator) (groups : Groups) :
    Option (Nat × PagedTensorMemoryAllocator) :=
  (a.paged.popFree groups.shapes groups.getSizeBytes).map fun r =>
    (r.1,
      { paged := r.2
        layouts := a.layouts.modify r.1 fun layout => { layout with dtypes := groups.dtypes } })

def allocate (a : PagedTensorMemoryAllocator) (groups : Groups) :
    Option (Nat × PagedTensorMemoryAllocator) :=
  (a.popFree groups).map fun r =>
    (r.1, { r.2 with
      paged := { r.2.paged with
        numActiveAllocations := r.2.paged.numActiveAllocations + 1
        totalAllocatedSize := r.2.paged.totalAllocatedSize + r.2.paged.alignBytes } })

def batchedLoop (groups : Groups) : Nat → List Nat → PagedTensorMemoryAllocator →
    Option (List Nat) × PagedTensorMemoryAllocator
  | 0, blocks, a => (some blocks, a)
  | n + 1, blocks, a =>
    match a.popFree groups with
    | none => (none, { a with paged := a.paged.batchedFree blocks })
    | some r => batchedLoop groups n (blocks ++ [r.1]) r.2

def batchedAllocate (a : PagedTensorMemoryAllocator) (groups : Groups) (batchSize : Int) :
    Option (List Nat) × PagedTensorMemoryAllocator :=
  let r := batchedLoop groups batchSize.toNat [] a
  match r.1 with
  | none => (none, r.2)
  | some blocks =>
    (some blocks, { r.2 with
      paged := { r.2.paged with
        numActiveAllocations := r.2.paged.numActiveAllocations + batchSize
        totalAllocatedSize :=
          (r.2.paged.numActiveAllocations + batchSize) * r.2.paged.alignBytes } })

def batchedFree (a : PagedTensorMemoryAllocator) (pages : List Nat) (updateStats : Bool) :
    PagedTensorMemoryAllocator :=
  let freed := a.paged.batchedFree pages
  if updateStats then
    { a with paged := { freed with
        totalAllocatedSize := freed.totalAllocatedSize - freed.alignBytes * pages.length
        numActiveAllocations := freed.numActiveAllocations - pages.length } }
  else { a with paged := freed }

/-- `set_used_size` raises unless `0 <= n <= phy_size`. -/
def setUsedSize (a : PagedTensorMemoryAllocator) (page : Nat) (n : Int) :
    PagedTensorMemoryAllocator :=
  if n < 0 ∨ n > a.paged.alignBytes then a
  else
    { a with paged := a.paged.modifyPage page fun obj =>
        { obj with usedSizeOverride := some n.toNat } }

end PagedTensorMemoryAllocator

/-- What an allocator and its objects are asked to do. The counting methods may come from
anyone who ever held the object. -/
inductive LayoutCall
  | allocate (groups : Groups)
  | batchedAllocate (groups : Groups) (batchSize : Int)
  | free (page : Nat)
  | batchedFree (pages : List Nat) (updateStats : Bool)
  | refCountUp (page : Nat)
  | refCountDown (page : Nat)
  | pin (page : Nat)
  | unpin (page : Nat)
  | setUsedSize (page : Nat) (n : Int)
  | invalidate (page : Nat)
  deriving DecidableEq, Repr

namespace PagedTensorMemoryAllocator

def call (a : PagedTensorMemoryAllocator) : LayoutCall → PagedTensorMemoryAllocator
  | .allocate groups => ((a.allocate groups).map Prod.snd).getD a
  | .batchedAllocate groups batchSize => (a.batchedAllocate groups batchSize).2
  | .free page => { a with paged := a.paged.free page }
  | .batchedFree pages updateStats => a.batchedFree pages updateStats
  | .refCountUp page => { a with paged := a.paged.refCountUp page }
  | .refCountDown page => { a with paged := a.paged.refCountDown page }
  | .pin page => { a with paged := a.paged.pin page }
  | .unpin page => { a with paged := a.paged.unpin page }
  | .setUsedSize page n => a.setUsedSize page n
  | .invalidate page =>
    { a with paged := a.paged.modifyPage page fun obj => { obj with valid := false } }

def Reached (own : Groups) (a : PagedTensorMemoryAllocator) : Prop :=
  ∃ numPages calls, Run (fun a c b => call a c = b) (init own numPages) calls a

end PagedTensorMemoryAllocator

end LMCache
