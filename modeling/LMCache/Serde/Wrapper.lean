import LMCache.Keys.ObjectKey
import LMCache.L1.Manager
import LMCache.Lib.Bytes
import LMCache.Lib.Run
import LMCache.Prefetch.Bitmap

/-!
# The serde wrapper of an L2 adapter

`SerdeL2AdapterWrapper` serializes objects into temporary L1 buffers before the inner adapter
stores them, and deserializes what it loaded into such buffers. A task passes through the thread
of its submitter, the executor of the serde processor, the inner adapter and the wrapper's own
thread. Steps interleave at single calls on the L1 manager, on the processor and on the inner
adapter, and at locked sections of the wrapper.
-/

namespace LMCache.Serde

open Lib

/-- A key outside the codecs, where its texts are compared only. -/
abbrev ObjectKey := Keys.KeyFields String

instance : DecidableEq ObjectKey := Keys.instDecidableEqKeyFields

abbrev RandomBytes := { bytes : Bytes // bytes.length = 16 }

def makeTempKey (originalKey : ObjectKey) (random : RandomBytes) : ObjectKey :=
  { originalKey with chunkHash := originalKey.chunkHash ++ random.val }

inductive TaskKind
  | store
  | load
deriving DecidableEq, Repr

/-- The arguments of `submit_store_task` or `submit_load_task`. -/
structure Request where
  kind : TaskKind
  keys : List ObjectKey
  objects : List MemoryObj
deriving DecidableEq, Repr

/-- The bytes transferred by a successful store, `none` for a failed one. -/
abbrev L2StoreResult := Option Nat

inductive Completion
  | store (result : L2StoreResult)
  | load (bitmap : Bitmap)

/-- The failure of a task: `success=False`, or no bit set. -/
def Request.failure (request : Request) : Completion :=
  match request.kind with
  | .store => .store none
  | .load => .load (Bitmap.zeros request.keys.length)

structure StoreTaskState where
  keys : List ObjectKey
  tempKeys : List ObjectKey
  tempObjs : List MemoryObj

structure LoadTaskState where
  keys : List ObjectKey
  dstObjs : List MemoryObj
  tempKeys : List ObjectKey
  tempObjs : List MemoryObj
  loadBitmap : Bitmap

structure SerdeL2AdapterWrapper where
  nextTaskId : Nat
  storeTasks : Dict Nat StoreTaskState
  loadTasks : Dict Nat LoadTaskState
  serdeToStore : Dict Nat Nat
  innerToStore : Dict Nat Nat
  innerToLoad : Dict Nat Nat
  serdeToLoad : Dict Nat Nat
  completedStore : Dict Nat L2StoreResult
  completedLoad : Dict Nat Bitmap

namespace SerdeL2AdapterWrapper

def new : SerdeL2AdapterWrapper :=
  ⟨0, .empty, .empty, .empty, .empty, .empty, .empty, .empty, .empty⟩

/-- `_finalize_store` or `_finalize_load`. -/
def finalize (w : SerdeL2AdapterWrapper) (wrappedId : Nat) : Completion → SerdeL2AdapterWrapper
  | .store result =>
    { w with
      storeTasks := w.storeTasks.erase wrappedId
      completedStore := w.completedStore.set wrappedId result }
  | .load bitmap =>
    { w with
      loadTasks := w.loadTasks.erase wrappedId
      completedLoad := w.completedLoad.set wrappedId bitmap }

end SerdeL2AdapterWrapper

/-- A task of the processor or of the inner adapter. `owner` is the wrapped task it is for, a
record that nothing reads. -/
structure Job where
  owner : Nat
  keys : List ObjectKey
  srcObjs : List MemoryObj
  dstObjs : List MemoryObj

/-- The possible outcomes of a serializer and a deserializer, which need not be functions. -/
structure Codec (V : Type) where
  serialize : ObjectKey → V → Bytes → Bool
  deserialize : ObjectKey → Bytes → V → Bool

structure AsyncSerdeProcessor where
  nextTaskId : Nat
  serializing : Dict Nat Job
  deserializing : Dict Nat Job
  completedSerialize : Dict Nat Bool
  completedDeserialize : Dict Nat Bool
  serializeEfd : Bool
  deserializeEfd : Bool

namespace AsyncSerdeProcessor

def new : AsyncSerdeProcessor := ⟨0, .empty, .empty, .empty, .empty, false, false⟩

def submitSerialize (p : AsyncSerdeProcessor) (job : Job) : AsyncSerdeProcessor :=
  { p with nextTaskId := p.nextTaskId + 1, serializing := p.serializing.set p.nextTaskId job }

def submitDeserialize (p : AsyncSerdeProcessor) (job : Job) : AsyncSerdeProcessor :=
  { p with nextTaskId := p.nextTaskId + 1, deserializing := p.deserializing.set p.nextTaskId job }

/-- The end of `_run_task` for a serialize task. -/
def endSerialize (p : AsyncSerdeProcessor) (taskId : Nat) (success : Bool) : AsyncSerdeProcessor :=
  { p with
    serializing := p.serializing.erase taskId
    completedSerialize := p.completedSerialize.set taskId success
    serializeEfd := true }

/-- The end of `_run_task` for a deserialize task. -/
def endDeserialize (p : AsyncSerdeProcessor) (taskId : Nat) (success : Bool) :
    AsyncSerdeProcessor :=
  { p with
    deserializing := p.deserializing.erase taskId
    completedDeserialize := p.completedDeserialize.set taskId success
    deserializeEfd := true }

end AsyncSerdeProcessor

structure InnerAdapter where
  nextTaskId : Nat
  storing : Dict Nat Job
  loading : Dict Nat Job
  completedStore : Dict Nat L2StoreResult
  completedLoad : Dict Nat Bitmap
  storeEfd : Bool
  loadEfd : Bool

namespace InnerAdapter

def new : InnerAdapter := ⟨0, .empty, .empty, .empty, .empty, false, false⟩

def submitStoreTask (a : InnerAdapter) (job : Job) : InnerAdapter :=
  { a with nextTaskId := a.nextTaskId + 1, storing := a.storing.set a.nextTaskId job }

def submitLoadTask (a : InnerAdapter) (job : Job) : InnerAdapter :=
  { a with nextTaskId := a.nextTaskId + 1, loading := a.loading.set a.nextTaskId job }

def endStore (a : InnerAdapter) (taskId : Nat) (result : L2StoreResult) : InnerAdapter :=
  { a with
    storing := a.storing.erase taskId
    completedStore := a.completedStore.set taskId result
    storeEfd := true }

def endLoad (a : InnerAdapter) (taskId : Nat) (bitmap : Bitmap) : InnerAdapter :=
  { a with
    loading := a.loading.erase taskId
    completedLoad := a.completedLoad.set taskId bitmap
    loadEfd := true }

end InnerAdapter

end LMCache.Serde
