import LMCache.Keys.ObjectKey
import LMCache.RawBlock.Batches

/-!
# The raw-block adapter

Every adapter counts the bytes it holds, in total and for each cache salt. `notifyKeysStored` and
`notifyKeysDeleted` are told the keys and their sizes; the second clamps the counters at zero.
A counter that is not clamped is exact: it changes by the sizes of the keys that it counts.

Store tasks write their keys through `put_many`, one after the other, and report what was
stored when the batch is done. A deletion reads the metadata of its keys, deletes those that
are not locked and reports what it deleted. The counters change at the reports only, outside
the lock of the core. Each locked section of the core and each report is a step; any number of
store tasks and deletions run at once. A call with a key that cannot be encoded ends before it
reaches the core.
-/

namespace LMCache.L2

open Lib Keys Text

/-- The byte accounting of `L2AdapterInterface`. -/
structure UsageTracking where
  maxCapacityBytes : Int
  totalBytesUsed : Int
  bytesByCacheSalt : Dict PyStr Int

structure AdapterUsage where
  totalBytesUsed : Int
  totalCapacityBytes : Int
  bytesByCacheSalt : Dict PyStr Int

namespace UsageTracking

def new (maxCapacityBytes : Int) : UsageTracking := ⟨maxCapacityBytes, 0, Dict.empty⟩

def saltDelta (charges : List (ObjectKey × Nat)) : Dict PyStr Int :=
  Dict.sumBy (fun charge => charge.1.cacheSalt) Prod.snd charges

def totalDelta (charges : List (ObjectKey × Nat)) : Int := (charges.map Prod.snd).sum

/-- The counters after `_notify_keys_stored`. -/
def notifyKeysStored (u : UsageTracking) (charges : List (ObjectKey × Nat)) : UsageTracking :=
  { u with
    totalBytesUsed := u.totalBytesUsed + totalDelta charges
    bytesByCacheSalt := (saltDelta charges).entries.foldl
      (fun bytes e => bytes.put e.1 (some ((bytes.get? e.1).getD 0 + e.2))) u.bytesByCacheSalt }

def saltAfterDelete (old : Option Int) (d : Int) : Option Int :=
  let newTotal := old.getD 0 - d
  if newTotal ≤ 0 then none else some newTotal

/-- The counters after `_notify_keys_deleted`. -/
def notifyKeysDeleted (u : UsageTracking) (charges : List (ObjectKey × Nat)) : UsageTracking :=
  let total := u.totalBytesUsed - totalDelta charges
  { u with
    totalBytesUsed := if total < 0 then 0 else total
    bytesByCacheSalt := (saltDelta charges).entries.foldl
      (fun bytes e => bytes.put e.1 (saltAfterDelete (bytes.get? e.1) e.2)) u.bytesByCacheSalt }

def getUsage (u : UsageTracking) : AdapterUsage where
  totalBytesUsed := u.totalBytesUsed
  totalCapacityBytes := u.maxCapacityBytes
  bytesByCacheSalt := u.bytesByCacheSalt.filter fun _ bytes => 0 < bytes

end UsageTracking

inductive Counter
  | total
  | salt (cacheSalt : PyStr)

def Counter.counts : Counter → ObjectKey → Bool
  | .total, _ => true
  | .salt cacheSalt, key => key.cacheSalt = cacheSalt

/-- The sizes of the keys that a counter counts. -/
def charged (c : Counter) (charges : List (ObjectKey × Nat)) : Nat :=
  Dict.weightOf (fun charge => c.counts charge.1) Prod.snd charges

def AdapterUsage.read (u : AdapterUsage) : Counter → Int
  | .total => u.totalBytesUsed
  | .salt cacheSalt => (u.bytesByCacheSalt.get? cacheSalt).getD 0

namespace UsageTracking

def read (u : UsageTracking) : Counter → Int
  | .total => u.totalBytesUsed
  | .salt cacheSalt => (u.bytesByCacheSalt.get? cacheSalt).getD 0

def Nonneg (u : UsageTracking) : Prop := ∀ c, 0 ≤ u.read c

/-- A deletion of these keys clamps no counter. -/
def Covers (u : UsageTracking) (charges : List (ObjectKey × Nat)) : Prop :=
  (charged .total charges : Int) ≤ u.read .total ∧
    ∀ charge ∈ charges, (charged (.salt charge.1.cacheSalt) charges : Int) ≤
      u.read (.salt charge.1.cacheSalt)

instance (u : UsageTracking) (charges : List (ObjectKey × Nat)) : Decidable (u.Covers charges) :=
  inferInstanceAs (Decidable (_ ∧ _))

theorem read_new (maxCapacityBytes : Int) (c : Counter) : (new maxCapacityBytes).read c = 0 := by
  cases c with
  | total => rfl
  | salt cacheSalt => rfl

theorem totalDelta_eq (charges : List (ObjectKey × Nat)) :
    totalDelta charges = charged .total charges := by
  simp [totalDelta, charged, Dict.weightOf, Counter.counts]

theorem getD_saltDelta (charges : List (ObjectKey × Nat)) (cacheSalt : PyStr) :
    ((saltDelta charges).get? cacheSalt).getD 0 = charged (.salt cacheSalt) charges :=
  Dict.getD_sumBy _ _ _ _

theorem charged_eq_zero {charges : List (ObjectKey × Nat)} {cacheSalt : PyStr}
    (h : ∀ charge ∈ charges, charge.1.cacheSalt ≠ cacheSalt) :
    charged (.salt cacheSalt) charges = 0 := by
  induction charges with
  | nil => rfl
  | cons charge rest ih =>
    have hRest : charged (.salt cacheSalt) rest = 0 :=
      ih fun charge hMem => h charge (List.mem_cons_of_mem _ hMem)
    have hHead := h charge List.mem_cons_self
    rw [charged, Dict.weightOf_cons, ← charged, hRest]
    simp [Counter.counts, hHead]

variable {u : UsageTracking}

theorem Covers.le {charges : List (ObjectKey × Nat)} (h : u.Covers charges) (hNonneg : u.Nonneg)
    (c : Counter) : (charged c charges : Int) ≤ u.read c := by
  cases c with
  | total => exact h.1
  | salt cacheSalt =>
    by_cases hIn : ∃ charge ∈ charges, charge.1.cacheSalt = cacheSalt
    · obtain ⟨charge, hMem, rfl⟩ := hIn
      exact h.2 charge hMem
    · rw [charged_eq_zero fun charge hMem hEq => hIn ⟨charge, hMem, hEq⟩]
      exact hNonneg _

theorem read_notifyKeysStored (u : UsageTracking) (charges : List (ObjectKey × Nat))
    (c : Counter) : (u.notifyKeysStored charges).read c = u.read c + charged c charges := by
  cases c with
  | total => exact congrArg (u.totalBytesUsed + ·) (totalDelta_eq charges)
  | salt cacheSalt =>
    rw [← getD_saltDelta]
    change (Dict.get? (List.foldl _ _ _) cacheSalt).getD 0 = _
    rw [Dict.get?_foldl_put (fun old d => some (old.getD 0 + d)) (saltDelta charges).nodup, read,
      Dict.get?]
    split
    · rename_i hFind
      simp [Dict.get?, hFind]
    · rename_i hFind
      simp [Dict.get?, hFind]

theorem read_notifyKeysDeleted (hNonneg : u.Nonneg) (charges : List (ObjectKey × Nat))
    (c : Counter) :
    (u.notifyKeysDeleted charges).read c = max 0 (u.read c - charged c charges) := by
  cases c with
  | total =>
    rw [read, ← totalDelta_eq, notifyKeysDeleted, read]
    dsimp only
    split <;> omega
  | salt cacheSalt =>
    have hOld := hNonneg (.salt cacheSalt)
    rw [← getD_saltDelta]
    change (Dict.get? (List.foldl _ _ _) cacheSalt).getD 0 = _
    rw [Dict.get?_foldl_put saltAfterDelete (saltDelta charges).nodup]
    rw [read] at hOld ⊢
    split
    · rename_i hFind
      have hNone : (saltDelta charges).get? cacheSalt = none := hFind
      rw [hNone, Option.getD_none, Int.sub_zero]
      exact (max_eq_right hOld).symm
    · rename_i d hFind
      have hSome : (saltDelta charges).get? cacheSalt = some d := hFind
      rw [hSome, Option.getD_some, saltAfterDelete]
      split
      · rw [Option.getD_none]
        omega
      · rw [Option.getD_some]
        omega

theorem read_notifyKeysDeleted_of_covers (hNonneg : u.Nonneg) {charges : List (ObjectKey × Nat)}
    (h : u.Covers charges) (c : Counter) :
    (u.notifyKeysDeleted charges).read c = u.read c - charged c charges := by
  have hLe := h.le hNonneg c
  rw [read_notifyKeysDeleted hNonneg]
  omega

theorem nonneg_new (maxCapacityBytes : Int) : (new maxCapacityBytes).Nonneg :=
  fun c => Int.le_of_eq (read_new maxCapacityBytes c).symm

theorem Nonneg.notifyKeysStored (h : u.Nonneg) (charges : List (ObjectKey × Nat)) :
    (u.notifyKeysStored charges).Nonneg := by
  intro c
  have hOld := h c
  rw [read_notifyKeysStored]
  omega

theorem Nonneg.notifyKeysDeleted (h : u.Nonneg) (charges : List (ObjectKey × Nat)) :
    (u.notifyKeysDeleted charges).Nonneg := by
  intro c
  rw [read_notifyKeysDeleted h]
  exact le_max_left _ _

theorem Nonneg.reportStored (h : u.Nonneg) (charges : List (ObjectKey × Nat)) :
    (if charges = [] then u else u.notifyKeysStored charges).Nonneg := by
  split
  · exact h
  · exact h.notifyKeysStored charges

theorem read_reportStored (u : UsageTracking) (charges : List (ObjectKey × Nat)) (c : Counter) :
    (if charges = [] then u else u.notifyKeysStored charges).read c =
      u.read c + charged c charges := by
  split
  · rename_i hNil
    rw [hNil]
    exact (Int.add_zero _).symm
  · exact read_notifyKeysStored u charges c

theorem Nonneg.reportDeleted (h : u.Nonneg) (charges : List (ObjectKey × Nat)) :
    (if charges = [] then u else u.notifyKeysDeleted charges).Nonneg := by
  split
  · exact h
  · exact h.notifyKeysDeleted charges

theorem read_reportDeleted_of_covers (hNonneg : u.Nonneg) {charges : List (ObjectKey × Nat)}
    (h : u.Covers charges) (c : Counter) :
    (if charges = [] then u else u.notifyKeysDeleted charges).read c =
      u.read c - charged c charges := by
  split
  · rename_i hNil
    rw [hNil]
    exact (Int.sub_zero _).symm
  · exact read_notifyKeysDeleted_of_covers hNonneg h c

theorem read_getUsage (h : u.Nonneg) (c : Counter) : u.getUsage.read c = u.read c := by
  cases c with
  | total => rfl
  | salt cacheSalt =>
    have hOld := h (.salt cacheSalt)
    rw [read] at hOld
    rw [AdapterUsage.read, read, getUsage, Dict.get?_filter]
    cases hGet : u.bytesByCacheSalt.get? cacheSalt with
    | none => rfl
    | some bytes =>
      rw [hGet, Option.getD_some] at hOld
      rw [Option.filter_some]
      split
      · rfl
      · rename_i hZero
        rw [decide_eq_true_iff, not_lt] at hZero
        rw [Option.getD_none, Option.getD_some]
        omega

end UsageTracking

open RawBlock

/-- The keys that the codec writes and that have a slot identity. -/
abbrev EncodableKey := { key : ObjectKey // Encodable key.modelName ∧ Encodable key.cacheSalt }

/-- The text under which the core knows a key. -/
def EncodableKey.encoded (key : EncodableKey) : String :=
  String.ofList (((objectKeyToString key.val).toOption.bind chars?).getD [])

def encodable? (key : ObjectKey) : Option EncodableKey :=
  if h : Encodable key.modelName ∧ Encodable key.cacheSalt then some ⟨key, h⟩ else none

structure StoreItem (K M : Type) where
  key : K
  size : Nat
  info : M

def StoreItem.encoded {M : Type} (item : StoreItem EncodableKey M) : String := item.key.encoded

/-- A running `_run_store_task`: the items `put_many` has not finished, the first of which may
be in flight, and its results so far. -/
structure StoreTask (M : Type) where
  items : List (StoreItem EncodableKey M)
  rest : List (StoreItem EncodableKey M)
  writing : Bool := false
  results : List Bool := []
  storedKeys : List String := []

inductive DeleteCall
  /-- The keys, and whether metadata was found. -/
  | inspected (keys : List (EncodableKey × Bool))
  /-- The deleted keys and their sizes. -/
  | deleted (charges : List (ObjectKey × Nat))

structure RawBlockL2Adapter (layout : Layout) (M : Type) where
  core : Store layout String M
  usage : UsageTracking
  nextTaskId : Nat
  storeTasks : Dict Nat (StoreTask M)
  completedStoreTasks : Dict Nat (Bool × Nat)
  deleteCalls : Dict Nat DeleteCall

/-- What a store task, a caller or the lookup pool does next. -/
inductive AdapterEvent (M : Type)
  | submitStoreTask (items : List (StoreItem ObjectKey M))
  | reserve (taskId : Nat) (placementId : Option Nat)
  | commit (taskId : Nat) (success : Bool)
  | finishStoreTask (taskId : Nat)
  | lookupAndLock (keys : List ObjectKey)
  | unlock (keys : List ObjectKey)
  | inspect (call : Nat) (keys : List ObjectKey)
  | delete (call : Nat)
  | finishDelete (call : Nat)

namespace StoreTask

variable {M : Type}

/-- The next item is done, with this result. -/
def advance (task : StoreTask M) (result : Bool) : StoreTask M :=
  { task with rest := task.rest.tail, writing := false, results := task.results ++ [result] }

def addStored (task : StoreTask M) (encoded : String) : StoreTask M :=
  { task.advance true with storedKeys := task.storedKeys ++ [encoded] }

/-- The keys that `put_many` stored, with their sizes. -/
def charges (task : StoreTask M) (slotBytes : Nat) : List (ObjectKey × Nat) :=
  (task.items.filter fun item => item.encoded ∈ task.storedKeys).map fun item =>
    (item.key.val, slotBytes)

/-- The task of a batch; it is over if a key cannot be encoded. -/
def ofBatch (items : List (StoreItem ObjectKey M)) : StoreTask M :=
  match items.mapM fun item => (encodable? item.key).map fun key => { item with key } with
  | some specs => { items := specs, rest := specs }
  | none => { items := [], rest := [], results := [false] }

end StoreTask

/-- The keys that `delete_many` deleted, with their sizes: nothing for a key without metadata. -/
def deletedCharges (slotBytes : Nat) (keys : List (EncodableKey × Bool)) (bitmap : List Bool) :
    List (ObjectKey × Nat) :=
  ((keys.zip bitmap).filter Prod.snd).map fun x => (x.1.1.val, if x.1.2 then slotBytes else 0)

namespace RawBlockL2Adapter

variable {layout : Layout} {M : Type}

/-- `_snapshot_indexed_object_keys`: a key that cannot be decoded is left out. -/
def snapshotIndexedObjectKeys [PyText] (core : Store layout String M) : List ObjectKey :=
  core.index.keys.filterMap fun encoded =>
    (decodeObjectKey (ofString encoded)).toOption

def seedUsageFromCoreSnapshot [PyText] (u : UsageTracking) (core : Store layout String M) :
    UsageTracking :=
  let recoveredKeys := snapshotIndexedObjectKeys core
  if recoveredKeys = [] then u
  else
    let bySalt := Dict.sumBy (fun key => key.cacheSalt) (fun _ => layout.slotBytes) recoveredKeys
    { u with
      totalBytesUsed := u.totalBytesUsed + recoveredKeys.length * layout.slotBytes
      bytesByCacheSalt := bySalt.entries.foldl
        (fun bytes e => bytes.put e.1 (some ((bytes.get? e.1).getD 0 + e.2)))
        u.bytesByCacheSalt }

def start [PyText] (core : Store layout String M) : RawBlockL2Adapter layout M where
  core
  usage := seedUsageFromCoreSnapshot (.new (layout.maxSlots * layout.slotBytes : Nat)) core
  nextTaskId := 0
  storeTasks := Dict.empty
  completedStoreTasks := Dict.empty
  deleteCalls := Dict.empty

variable (s : RawBlockL2Adapter layout M)

/-- `submit_store_task`; it refuses an empty batch. -/
def submitStoreTask (items : List (StoreItem ObjectKey M)) :
    Option (RawBlockL2Adapter layout M) :=
  if items = [] then none
  else some { s with
    nextTaskId := s.nextTaskId + 1
    storeTasks := s.storeTasks.set s.nextTaskId (.ofBatch items) }

/-- The first section of `put_many` for the next item. -/
def reserve (taskId : Nat) (placementId : Option Nat) :
    Option (RawBlockL2Adapter layout M) := do
  let task ← s.storeTasks.get? taskId
  let item ← task.rest.head?
  if task.writing then none
  else
    let (reserved, core) := s.core.reserve item.encoded placementId item.size item.info
    let task := match reserved with
      | .granted => { task with writing := true }
      | .present => task.advance true
      | .busy | .full => task.advance false
    some { s with core, storeTasks := s.storeTasks.set taskId task }

/-- The write of the item is over: the second section of `put_many`. -/
def commit (taskId : Nat) (success : Bool) : Option (RawBlockL2Adapter layout M) := do
  let task ← s.storeTasks.get? taskId
  let item ← task.rest.head?
  if !task.writing then none
  else
    match s.core.commit item.encoded success with
    | none => some { s with storeTasks := s.storeTasks.set taskId (task.advance false) }
    | some (stored, core) =>
      let task := if stored then task.addStored item.encoded else task.advance false
      some { s with core, storeTasks := s.storeTasks.set taskId task }

/-- The end of `_run_store_task`, and `_finish_store_task`. -/
def finishStoreTask (taskId : Nat) : Option (RawBlockL2Adapter layout M) := do
  let task ← s.storeTasks.get? taskId
  if task.rest ≠ [] then none
  else
    let charges := task.charges layout.slotBytes
    let result := (task.results.all id, (charges.map Prod.snd).sum)
    some { s with
      storeTasks := s.storeTasks.erase taskId
      completedStoreTasks := s.completedStoreTasks.set taskId result
      usage := if charges = [] then s.usage else s.usage.notifyKeysStored charges }

/-- `_run_lookup_task`. -/
def lookupAndLock (keys : List ObjectKey) : RawBlockL2Adapter layout M :=
  match keys.mapM encodable? with
  | none => s
  | some specs =>
    { s with core := (s.core.existsMany true (specs.map EncodableKey.encoded)).2 }

/-- `submit_unlock`. -/
def unlock (keys : List ObjectKey) : Option (RawBlockL2Adapter layout M) := do
  let specs ← keys.mapM encodable?
  some { s with core := s.core.unlockMany (specs.map EncodableKey.encoded) }

/-- The first call of `delete`. -/
def inspect (call : Nat) (keys : List ObjectKey) : Option (RawBlockL2Adapter layout M) :=
  if s.deleteCalls.contains call then none
  else
    (keys.mapM encodable?).map fun specs =>
      let metas := s.core.getMetadataMany (specs.map EncodableKey.encoded)
      { s with
        deleteCalls := s.deleteCalls.set call (.inspected (specs.zip (metas.map Option.isSome))) }

/-- The second call of `delete`. -/
def delete (call : Nat) : Option (RawBlockL2Adapter layout M) := do
  match ← s.deleteCalls.get? call with
  | .deleted _ => none
  | .inspected keys =>
    let (bitmap, core) := s.core.deleteMany false (keys.map fun k => k.1.encoded)
    let charges := deletedCharges layout.slotBytes keys bitmap
    some { s with core, deleteCalls := s.deleteCalls.set call (.deleted charges) }

/-- The report of `delete`. -/
def finishDelete (call : Nat) : Option (RawBlockL2Adapter layout M) := do
  match ← s.deleteCalls.get? call with
  | .inspected _ => none
  | .deleted charges =>
    some { s with
      deleteCalls := s.deleteCalls.erase call
      usage := if charges = [] then s.usage else s.usage.notifyKeysDeleted charges }

/-- One section or report; `none` if it is not the turn of the task or call, or if it raises. -/
def next : AdapterEvent M → Option (RawBlockL2Adapter layout M)
  | .submitStoreTask items => s.submitStoreTask items
  | .reserve taskId placementId => s.reserve taskId placementId
  | .commit taskId success => s.commit taskId success
  | .finishStoreTask taskId => s.finishStoreTask taskId
  | .lookupAndLock keys => some (s.lookupAndLock keys)
  | .unlock keys => s.unlock keys
  | .inspect call keys => s.inspect call keys
  | .delete call => s.delete call
  | .finishDelete call => s.finishDelete call

def Step (s : RawBlockL2Adapter layout M) (event : AdapterEvent M)
    (t : RawBlockL2Adapter layout M) : Prop := s.next event = some t

def Quiet (s : RawBlockL2Adapter layout M) : Prop :=
  s.storeTasks = Dict.empty ∧ s.deleteCalls = Dict.empty

end RawBlockL2Adapter

/-- A core as its constructor leaves it: empty, or recovered from a checkpoint. -/
inductive OpenedCore {F M : Type} [PyRuntime F] (layout : Layout) (env : RecoveryEnv F M) :
    Store layout String M → Prop
  | empty (fdpSlotAffinityEnabled : Bool) : OpenedCore layout env (.new fdpSlotAffinityEnabled)
  | recovered {data : Json F} {core : Store layout String M}
      (h : applyLoadedState layout env data = .ok (some core)) : OpenedCore layout env core

end LMCache.L2
