import LMCache.Keys.CodecSpec
import LMCache.L2.RawBlockAdapter
import LMCache.RawBlock.SlotOwnership

/-!
# The counters of the raw-block adapter

What was stored is counted later than it is indexed, and what was deleted is counted later than
it leaves the index. So a counter and the slots of the stores not yet reported make up the slots
of the indexed keys and the deletions not yet reported. The steps keep this balance as long as a
batch stores each of its keys as often as it has it, a deletion has found metadata for just
the keys that are indexed when it deletes them, and no report clamps a counter.
-/

namespace LMCache.L2

open Lib Keys Text RawBlock UsageTracking List Option
open Dict hiding keys

section Counted

variable [PyText] {layout : Layout} {M : Type}

def Decodes (core : Store layout String M) : Prop :=
  ∀ encoded ∈ core.index.keys, ∃ key, decodeObjectKey (ofString encoded) = .ok key

def indexedKeys (core : Store layout String M) : Counter → Nat
  | .total => core.index.size
  | .salt cacheSalt => (core.index.keys.filter fun encoded =>
      (decodeObjectKey (ofString encoded)).toOption.map (fun key => key.cacheSalt) =
        some cacheSalt).length

def countsEncoded (c : Counter) (encoded : String) : Bool :=
  match decodeObjectKey (ofString encoded) with
  | .ok key => c.counts key
  | .error _ => false

/-- The indexed keys that a counter counts. -/
def held (c : Counter) (core : Store layout String M) : Nat :=
  core.index.tally fun encoded _ => (countsEncoded c encoded).toNat

omit [PyText] in
theorem objectKeyToString_encoded (key : EncodableKey) :
    objectKeyToString key.val = .ok (ofString key.encoded) := by
  obtain ⟨encoded, hEncoded⟩ := (exists_objectKeyToString_iff key.val).mpr key.property.1
  obtain ⟨chars, rfl⟩ := encodable_iff.mp
    ((encodable_of_objectKeyToString hEncoded).mpr key.property.2)
  have hChars : chars? (ofChars chars) = some chars := chars?_ofChars chars
  rw [EncodableKey.encoded, hEncoded, ofString, String.toList_ofList]
  change _ = Except.ok (ofChars ((chars? (ofChars chars)).getD []))
  rw [hChars, getD_some]

theorem decodeObjectKey_encoded (key : EncodableKey) :
    decodeObjectKey (ofString key.encoded) = .ok key.val :=
  decodeObjectKey_of_encoded (objectKeyToString_encoded key)

theorem countsEncoded_encoded (c : Counter) (key : EncodableKey) :
    countsEncoded c key.encoded = c.counts key.val := by
  rw [countsEncoded, decodeObjectKey_encoded]

theorem held_of_index {core core' : Store layout String M} (h : core'.index = core.index)
    (c : Counter) : held c core' = held c core := by
  rw [held, held, h]

theorem held_eq_countP (c : Counter) (core : Store layout String M) :
    held c core = (RawBlockL2Adapter.snapshotIndexedObjectKeys core).countP c.counts := by
  rw [held, Dict.tally, RawBlockL2Adapter.snapshotIndexedObjectKeys, Dict.keys]
  induction core.index.entries with
  | nil => rfl
  | cons e rest ih =>
    rw [map_cons, sum_cons, ih, map_cons, countsEncoded]
    cases hKey : decodeObjectKey (ofString e.1) with
    | error err =>
      rw [filterMap_cons_none (by rw [hKey]; rfl)]
      simp
    | ok key =>
      rw [filterMap_cons_some (b := key) (by rw [hKey]; rfl), countP_cons]
      cases hCounts : c.counts key with
      | false => simp [hCounts]
      | true => simpa [hCounts] using Nat.add_comm _ _

theorem held_eq_indexedKeys {core : Store layout String M} (h : Decodes core) (c : Counter) :
    held c core = indexedKeys core c := by
  rw [held_eq_countP, RawBlockL2Adapter.snapshotIndexedObjectKeys]
  have hKeys : ∀ encoded ∈ core.index.keys, ∃ key, decodeObjectKey (ofString encoded) = .ok key := h
  cases c with
  | total =>
    rw [indexedKeys, Dict.size, ← length_map Prod.fst]
    change _ = core.index.keys.length
    generalize core.index.keys = keys at hKeys ⊢
    induction keys with
    | nil => rfl
    | cons encoded rest ih =>
      obtain ⟨key, hKey⟩ := hKeys encoded mem_cons_self
      rw [filterMap_cons_some (b := key) (by rw [hKey]; rfl), countP_cons,
        ih fun encoded hMem => hKeys encoded (mem_cons_of_mem _ hMem)]
      rfl
  | salt cacheSalt =>
    rw [indexedKeys]
    induction core.index.keys with
    | nil => rfl
    | cons encoded rest ih =>
      cases hKey : decodeObjectKey (ofString encoded) with
      | error err =>
        rw [filterMap_cons_none (by rw [hKey]; rfl), ih,
          filter_cons_of_neg (by simp [hKey, Except.toOption])]
      | ok key =>
        rw [filterMap_cons_some (b := key) (by rw [hKey]; rfl), countP_cons, ih]
        by_cases hSalt : key.cacheSalt = cacheSalt
        · rw [filter_cons_of_pos (by rw [hKey]; simpa [Except.toOption] using hSalt)]
          simp [Counter.counts, hSalt]
        · rw [filter_cons_of_neg (by rw [hKey]; simpa [Except.toOption] using hSalt)]
          simp [Counter.counts, hSalt]

end Counted

/-- What a deletion that is not reported yet takes off a counter. -/
def DeleteCall.charged (c : Counter) : DeleteCall → Nat
  | .inspected _ => 0
  | .deleted charges => L2.charged c charges

/-- Metadata was found for a key if it is indexed and will be deleted, and not if only a write of
it will be canceled. -/
def UpToDate {layout : Layout} {M : Type} (core : Store layout String M)
    (k : EncodableKey × Bool) : Prop :=
  (core.index.contains k.1.encoded = true → core.locked k.1.encoded = false → k.2 = true) ∧
  (core.index.contains k.1.encoded = false →
    core.inflight.contains k.1.encoded = true → k.2 = false)

instance {layout : Layout} {M : Type} (core : Store layout String M) (k : EncodableKey × Bool) :
    Decidable (UpToDate core k) := inferInstanceAs (Decidable (_ ∧ _))

/-- The keys that a deletion found are as it found them. -/
def DeleteCall.UpToDate {layout : Layout} {M : Type} (core : Store layout String M) :
    DeleteCall → Prop
  | .inspected keys => ∀ k ∈ keys, L2.UpToDate core k
  | .deleted _ => True

/-- No counter is clamped by the report of a deletion. -/
def DeleteCall.Covered (u : UsageTracking) : DeleteCall → Prop
  | .inspected _ => True
  | .deleted charges => u.Covers charges

instance {layout : Layout} {M : Type} (core : Store layout String M) (call : DeleteCall) :
    Decidable (call.UpToDate core) :=
  match call with
  | .inspected keys => inferInstanceAs (Decidable (∀ k ∈ keys, UpToDate core k))
  | .deleted _ => inferInstanceAs (Decidable True)

instance (u : UsageTracking) (call : DeleteCall) : Decidable (call.Covered u) :=
  match call with
  | .inspected _ => inferInstanceAs (Decidable True)
  | .deleted charges => inferInstanceAs (Decidable (u.Covers charges))

def StoreTask.StoredOnce {M : Type} (task : StoreTask M) : Prop :=
  ∀ encoded ∈ task.storedKeys,
    (task.items.map StoreItem.encoded).count encoded = task.storedKeys.count encoded

instance {M : Type} (task : StoreTask M) : Decidable task.StoredOnce :=
  inferInstanceAs (Decidable (∀ _ ∈ _, _))

namespace RawBlockL2Adapter

variable {layout : Layout} {M : Type}

/-- The condition under which a step keeps the balance. -/
def Accounted (s : RawBlockL2Adapter layout M) : AdapterEvent M → Prop
  | .finishStoreTask taskId => ∀ task ∈ s.storeTasks.get? taskId, task.StoredOnce
  | .delete call => ∀ d ∈ s.deleteCalls.get? call, d.UpToDate s.core
  | .finishDelete call => ∀ d ∈ s.deleteCalls.get? call, d.Covered s.usage
  | _ => True

instance (s : RawBlockL2Adapter layout M) (event : AdapterEvent M) :
    Decidable (s.Accounted event) :=
  match event with
  | .finishStoreTask taskId =>
    inferInstanceAs (Decidable (∀ task ∈ s.storeTasks.get? taskId, task.StoredOnce))
  | .delete call => inferInstanceAs (Decidable (∀ d ∈ s.deleteCalls.get? call, d.UpToDate s.core))
  | .finishDelete call =>
    inferInstanceAs (Decidable (∀ d ∈ s.deleteCalls.get? call, d.Covered s.usage))
  | .submitStoreTask _ | .reserve _ _ | .commit _ _ | .lookupAndLock _ | .unlock _
  | .inspect _ _ => inferInstanceAs (Decidable True)

variable [PyText]

/-- The stored keys that are not reported yet and that a counter counts. -/
def unreported (c : Counter) (s : RawBlockL2Adapter layout M) : Nat :=
  s.storeTasks.tally fun _ task => task.storedKeys.countP (countsEncoded c)

omit [PyText] in
/-- What the deletions not reported yet take off a counter. -/
def pendingDeletes (c : Counter) (s : RawBlockL2Adapter layout M) : Nat :=
  s.deleteCalls.tally fun _ call => call.charged c

structure Balanced (s : RawBlockL2Adapter layout M) : Prop where
  separate : s.core.Separate
  decodes : Decodes s.core
  nonneg : s.usage.Nonneg
  fresh : ∀ taskId, s.nextTaskId ≤ taskId → s.storeTasks.get? taskId = none
  balance : ∀ c, s.usage.read c + layout.slotBytes * s.unreported c =
    layout.slotBytes * held c s.core + s.pendingDeletes c

end RawBlockL2Adapter

section Reports

theorem charged_map_const {α : Type} (c : Counter) (key : α → ObjectKey) (n : Nat)
    (items : List α) :
    charged c (items.map fun a => (key a, n)) = n * items.countP fun a => c.counts (key a) := by
  induction items with
  | nil => rfl
  | cons a rest ih =>
    rw [map_cons, charged, weightOf_cons, ← charged, ih, countP_cons, Nat.mul_add, Nat.add_comm]
    congr 1
    dsimp only
    split <;> simp

variable [PyText] {layout : Layout} {M : Type}

theorem charged_charges {task : StoreTask M} (h : task.StoredOnce) (c : Counter)
    (slotBytes : Nat) : charged c (task.charges slotBytes) =
      slotBytes * task.storedKeys.countP (countsEncoded c) := by
  have hPerm : ((task.items.map StoreItem.encoded).filter fun encoded =>
      encoded ∈ task.storedKeys).Perm task.storedKeys := by
    rw [perm_iff_count]
    intro encoded
    by_cases hMem : encoded ∈ task.storedKeys
    · rw [count_filter (by simpa using hMem), h encoded hMem]
    · rw [count_eq_zero_of_not_mem hMem, count_eq_zero_of_not_mem]
      intro hIn
      exact hMem (by simpa using (mem_filter.mp hIn).2)
  rw [StoreTask.charges, charged_map_const, ← hPerm.countP_eq, List.filter_map, countP_map]
  refine congrArg (slotBytes * ·) (countP_congr fun item _ => ?_)
  rw [Function.comp_apply, StoreItem.encoded, countsEncoded_encoded]

variable {core : Store layout String M}

theorem held_erase {core' : Store layout String M} {encoded : String}
    (h : core'.index = core.index.erase encoded) (c : Counter) : held c core = held c core' +
      if core.index.contains encoded then (countsEncoded c encoded).toNat else 0 := by
  rw [held, held, h]
  cases hGet : core.index.get? encoded with
  | none =>
    rw [tally_erase_of_get?_eq_none hGet, Dict.contains, hGet]
    rfl
  | some e =>
    rw [tally_erase hGet, Dict.contains, hGet, Nat.add_comm]
    rfl

omit [PyText] in
theorem UpToDate.delete (hSeparate : core.Separate) {key : String} {k : EncodableKey × Bool}
    (h : UpToDate core k) : UpToDate (core.delete key false).2 k := by
  rcases core.delete_cases key with ⟨-, hSame, -⟩ | ⟨hIndex, hInflight, hLocked, -⟩
  · rwa [hSame]
  · by_cases hEq : key = k.1.encoded
    · subst hEq
      refine ⟨fun hIn => ?_, fun _ hBusy => ?_⟩
      · rw [hIndex, Dict.contains, get?_erase_self] at hIn
        cases hIn
      · rw [hInflight] at hBusy
        refine h.2 ?_ hBusy
        rw [Dict.contains, hSeparate _ hBusy]
        rfl
    · rw [UpToDate, hIndex, Dict.contains, get?_erase_ne _ hEq, hInflight, hLocked _ hEq]
      exact h

omit [PyText] in
theorem charged_deletedCharges_cons (c : Counter) (slotBytes : Nat) (k : EncodableKey × Bool)
    (deleted : Bool) (keys : List (EncodableKey × Bool)) (bitmap : List Bool) :
    charged c (deletedCharges slotBytes (k :: keys) (deleted :: bitmap)) =
      (if deleted && k.2 && c.counts k.1 then slotBytes else 0) +
        charged c (deletedCharges slotBytes keys bitmap) := by
  cases deleted with
  | false => simp [deletedCharges]
  | true =>
    rw [deletedCharges, zip_cons_cons, filter_cons_of_pos rfl, map_cons, charged, weightOf_cons]
    refine congrArg (· + _) ?_
    cases k.2 <;> simp

theorem held_deleteMany (c : Counter) (hSeparate : core.Separate)
    {keys : List (EncodableKey × Bool)}
    (h : ∀ k ∈ keys, UpToDate core k) : layout.slotBytes * held c core =
      layout.slotBytes * held c (core.deleteMany false (keys.map fun k => k.1.encoded)).2 +
        charged c (deletedCharges layout.slotBytes keys
          (core.deleteMany false (keys.map fun k => k.1.encoded)).1) := by
  induction keys generalizing core with
  | nil => rfl
  | cons k keys ih =>
    have hRest := ih (hSeparate.delete k.1.encoded) fun k' hMem =>
      (h k' (mem_cons_of_mem _ hMem)).delete hSeparate
    have hFirst : layout.slotBytes * held c core =
        layout.slotBytes * held c (core.delete k.1.encoded false).2 +
          if (core.delete k.1.encoded false).1 && k.2 && c.counts k.1 then
            layout.slotBytes else 0 := by
      obtain ⟨hFound, hMissing⟩ := h k mem_cons_self
      rcases core.delete_cases k.1.encoded with
        ⟨hKept, hSame, -⟩ | ⟨hIndex, -, -, hLocked, hDeleted⟩
      · rw [hKept, hSame]
        simp
      · rw [held_erase hIndex, countsEncoded_encoded, hDeleted, Nat.mul_add]
        congr 1
        change _ = if (core.index.contains _ || _) && _ && _ then _ else _
        cases hIn : core.index.contains k.1.encoded with
        | true =>
          rw [hFound hIn (hLocked hIn)]
          cases c.counts k.1 <;> simp
        | false =>
          cases hBusy : core.inflight.contains k.1.encoded with
          | true =>
            rw [hMissing hIn hBusy]
            simp
          | false => simp
    rw [map_cons, Store.deleteMany]
    dsimp only
    rw [charged_deletedCharges_cons]
    omega

omit [PyText] in
theorem separate_deleteMany (h : core.Separate) (keys : List String) :
    (core.deleteMany false keys).2.Separate ∧
      ∀ k ∈ (core.deleteMany false keys).2.index.keys, k ∈ core.index.keys := by
  induction keys generalizing core with
  | nil => exact ⟨h, fun _ hMem => hMem⟩
  | cons key keys ih =>
    obtain ⟨hSeparate, hKeys⟩ := ih (h.delete key)
    refine ⟨hSeparate, fun k hMem => ?_⟩
    have hIn := hKeys k hMem
    rcases core.delete_cases key with ⟨-, hSame, -⟩ | ⟨hIndex, -⟩
    · rwa [hSame] at hIn
    · rw [hIndex, mem_keys_erase] at hIn
      exact hIn.2

end Reports

namespace RawBlockL2Adapter

section Cases

variable {layout : Layout} {M : Type} {s t : RawBlockL2Adapter layout M}

theorem submitStoreTask_cases {items : List (StoreItem ObjectKey M)}
    (hStep : s.submitStoreTask items = some t) : items ≠ [] ∧ t = { s with
      nextTaskId := s.nextTaskId + 1
      storeTasks := s.storeTasks.set s.nextTaskId (.ofBatch items) } := by
  unfold submitStoreTask at hStep
  split at hStep
  · cases hStep
  · rename_i hItems
    exact ⟨hItems, (some.inj hStep).symm⟩

theorem reserve_cases {taskId : Nat} {placementId : Option Nat}
    (hStep : s.reserve taskId placementId = some t) :
    ∃ task item task', s.storeTasks.get? taskId = some task ∧ task.rest.head? = some item ∧
      task.writing = false ∧ task'.storedKeys = task.storedKeys ∧ t = { s with
        core := (s.core.reserve item.encoded placementId item.size item.info).2
        storeTasks := s.storeTasks.set taskId task' } := by
  obtain ⟨task, hTask, hStep⟩ := bind_eq_some_iff.mp hStep
  obtain ⟨item, hItem, hStep⟩ := bind_eq_some_iff.mp hStep
  split at hStep
  · cases hStep
  rename_i hIdle
  refine ⟨task, item, _, hTask, hItem, Bool.eq_false_iff.mpr hIdle, ?_, (some.inj hStep).symm⟩
  split <;> rfl

theorem commit_cases {taskId : Nat} {success : Bool} (hStep : s.commit taskId success = some t) :
    ∃ task item, s.storeTasks.get? taskId = some task ∧ task.rest.head? = some item ∧
      task.writing = true ∧
      (s.core.commit item.encoded success = none ∧
          t = { s with storeTasks := s.storeTasks.set taskId (task.advance false) } ∨
        ∃ stored core, s.core.commit item.encoded success = some (stored, core) ∧ t = { s with
          core
          storeTasks := s.storeTasks.set taskId
            (if stored then task.addStored item.encoded else task.advance false) }) := by
  obtain ⟨task, hTask, hStep⟩ := bind_eq_some_iff.mp hStep
  obtain ⟨item, hItem, hStep⟩ := bind_eq_some_iff.mp hStep
  split at hStep
  · cases hStep
  rename_i hWriting
  refine ⟨task, item, hTask, hItem, by simpa using hWriting, ?_⟩
  split at hStep
  · rename_i hCommit
    exact .inl ⟨hCommit, (some.inj hStep).symm⟩
  · rename_i stored core hCommit
    exact .inr ⟨stored, core, hCommit, (some.inj hStep).symm⟩

theorem finishStoreTask_cases {taskId : Nat} (hStep : s.finishStoreTask taskId = some t) :
    ∃ task result, s.storeTasks.get? taskId = some task ∧ task.rest = [] ∧ t = { s with
      storeTasks := s.storeTasks.erase taskId
      completedStoreTasks := s.completedStoreTasks.set taskId result
      usage := if task.charges layout.slotBytes = [] then s.usage else
        s.usage.notifyKeysStored (task.charges layout.slotBytes) } := by
  obtain ⟨task, hTask, hStep⟩ := bind_eq_some_iff.mp hStep
  split at hStep
  · cases hStep
  · rename_i hRest
    exact ⟨task, _, hTask, not_not.mp hRest, (some.inj hStep).symm⟩

theorem inspect_cases {call : Nat} {keys : List ObjectKey} (hStep : s.inspect call keys = some t) :
    s.deleteCalls.get? call = none ∧ ∃ found,
      t = { s with deleteCalls := s.deleteCalls.set call (.inspected found) } := by
  unfold inspect at hStep
  split at hStep
  · cases hStep
  · rename_i hNew
    obtain ⟨specs, -, rfl⟩ := map_eq_some_iff.mp hStep
    exact ⟨not_contains_iff.mp hNew, _, rfl⟩

theorem lookupAndLock_cases (s : RawBlockL2Adapter layout M) (keys : List ObjectKey) :
    s.lookupAndLock keys = s ∨ ∃ encoded : List String,
      s.lookupAndLock keys = { s with core := (s.core.existsMany true encoded).2 } := by
  unfold lookupAndLock
  split
  · exact .inl rfl
  · exact .inr ⟨_, rfl⟩

theorem unlock_cases {keys : List ObjectKey} (hStep : s.unlock keys = some t) :
    ∃ encoded : List String, t = { s with core := s.core.unlockMany encoded } := by
  obtain ⟨specs, -, hStep⟩ := bind_eq_some_iff.mp hStep
  exact ⟨_, (some.inj hStep).symm⟩

theorem delete_cases {call : Nat} (hStep : s.delete call = some t) :
    ∃ keys, s.deleteCalls.get? call = some (.inspected keys) ∧ t = { s with
      core := (s.core.deleteMany false (keys.map fun k => k.1.encoded)).2
      deleteCalls := s.deleteCalls.set call (.deleted (deletedCharges layout.slotBytes keys
        (s.core.deleteMany false (keys.map fun k => k.1.encoded)).1)) } := by
  obtain ⟨d, hCall, hStep⟩ := bind_eq_some_iff.mp hStep
  cases d with
  | deleted charges => cases hStep
  | inspected keys => exact ⟨keys, hCall, (some.inj hStep).symm⟩

theorem finishDelete_cases {call : Nat} (hStep : s.finishDelete call = some t) :
    ∃ charges, s.deleteCalls.get? call = some (.deleted charges) ∧ t = { s with
      deleteCalls := s.deleteCalls.erase call
      usage := if charges = [] then s.usage else s.usage.notifyKeysDeleted charges } := by
  obtain ⟨d, hCall, hStep⟩ := bind_eq_some_iff.mp hStep
  cases d with
  | inspected keys => cases hStep
  | deleted charges => exact ⟨charges, hCall, (some.inj hStep).symm⟩

end Cases

section Steps

variable [PyText] {layout : Layout} {M : Type} {s t : RawBlockL2Adapter layout M}

theorem Balanced.congr (h : s.Balanced) (hIndex : t.core.index = s.core.index)
    (hSeparate : t.core.Separate) (hUsage : t.usage = s.usage)
    (hFresh : ∀ taskId, t.nextTaskId ≤ taskId → t.storeTasks.get? taskId = none)
    (hStored : ∀ c, t.unreported c = s.unreported c)
    (hDeletes : ∀ c, t.pendingDeletes c = s.pendingDeletes c) : t.Balanced where
  separate := hSeparate
  decodes := by
    rw [Decodes, hIndex]
    exact h.decodes
  nonneg := hUsage ▸ h.nonneg
  fresh := hFresh
  balance c := by
    rw [hUsage, hStored, hDeletes, held_of_index hIndex]
    exact h.balance c

variable {taskId : Nat} {task task' : StoreTask M}

omit [PyText] in
theorem fresh_set (h : ∀ taskId, s.nextTaskId ≤ taskId → s.storeTasks.get? taskId = none)
    (hGet : s.storeTasks.get? taskId = some task) :
    ∀ id, s.nextTaskId ≤ id → (s.storeTasks.set taskId task').get? id = none := by
  intro id hLe
  rw [get?_set, if_neg]
  · exact h id hLe
  · rintro rfl
    rw [h _ hLe] at hGet
    cases hGet

theorem tally_advance (hGet : s.storeTasks.get? taskId = some task)
    (hSame : task'.storedKeys = task.storedKeys) (c : Counter) :
    (s.storeTasks.set taskId task').tally (fun _ task =>
      task.storedKeys.countP (countsEncoded c)) = s.unreported c := by
  have hSum := tally_set_old (w := fun _ (task : StoreTask M) =>
    task.storedKeys.countP (countsEncoded c)) hGet task'
  rw [hSame] at hSum
  exact Nat.add_right_cancel hSum

omit [PyText] in
theorem storedKeys_ofBatch (items : List (StoreItem ObjectKey M)) :
    (StoreTask.ofBatch items).storedKeys = [] := by
  unfold StoreTask.ofBatch
  split
  · rfl
  · rfl

theorem Balanced.submitStoreTask (h : s.Balanced) {items : List (StoreItem ObjectKey M)}
    (hStep : s.submitStoreTask items = some t) : t.Balanced := by
  obtain ⟨-, rfl⟩ := submitStoreTask_cases hStep
  refine h.congr rfl h.separate rfl (fun taskId hLe => ?_) (fun c => ?_) fun _ => rfl
  · have hLt : s.nextTaskId < taskId := hLe
    rw [get?_set_ne _ (Nat.ne_of_lt hLt)]
    exact h.fresh taskId (Nat.le_of_lt hLt)
  · rw [unreported, tally_set_new (h.fresh _ (Nat.le_refl _)), storedKeys_ofBatch, countP_nil,
      Nat.zero_add]
    rfl

theorem Balanced.reserve (h : s.Balanced) {placementId : Option Nat}
    (hStep : s.reserve taskId placementId = some t) : t.Balanced := by
  obtain ⟨task, item, task', hTask, -, -, hSame, rfl⟩ := reserve_cases hStep
  have hSeparate := h.separate.reserve item.encoded placementId item.size item.info
  have hIndex : (s.core.reserve item.encoded placementId item.size item.info).2.index =
      s.core.index := by
    rcases s.core.reserve_cases item.encoded placementId item.size item.info with
      hSame | ⟨hIndex, -⟩
    · rw [hSame]
    · exact hIndex
  exact h.congr hIndex hSeparate rfl (fresh_set h.fresh hTask) (tally_advance hTask hSame)
    fun _ => rfl

theorem Balanced.commit (h : s.Balanced) {success : Bool}
    (hStep : s.commit taskId success = some t) : t.Balanced := by
  obtain ⟨task, item, hTask, -, -, ⟨-, rfl⟩ | ⟨stored, core, hCommit, rfl⟩⟩ := commit_cases hStep
  · exact h.congr rfl h.separate rfl (fresh_set h.fresh hTask) (tally_advance hTask rfl)
      fun _ => rfl
  obtain ⟨hBusy, -, ⟨rfl, hIndex⟩ | ⟨rfl, e, hIndex⟩⟩ := Store.commit_cases hCommit
  · exact h.congr hIndex (h.separate.commit hCommit) rfl (fresh_set h.fresh hTask)
      (tally_advance hTask rfl) fun _ => rfl
  · refine ⟨h.separate.commit hCommit, ?_, h.nonneg, fresh_set h.fresh hTask, fun c => ?_⟩
    · rintro encoded hMem
      change encoded ∈ core.index.keys at hMem
      rw [hIndex, mem_keys_set] at hMem
      rcases hMem with rfl | hOld
      · exact ⟨item.key.val, decodeObjectKey_encoded item.key⟩
      · exact h.decodes encoded hOld
    · have hHeld : held c core = (countsEncoded c item.encoded).toNat + held c s.core := by
        rw [held, hIndex, tally_set_new (h.separate _ hBusy)]
        rfl
      have hStored := tally_set_old (w := fun _ (task : StoreTask M) =>
        task.storedKeys.countP (countsEncoded c)) hTask (task.addStored item.encoded)
      have hCount : (task.addStored item.encoded).storedKeys.countP (countsEncoded c) =
          task.storedKeys.countP (countsEncoded c) + (countsEncoded c item.encoded).toNat := by
        rw [StoreTask.addStored, countP_append, countP_singleton]
        cases countsEncoded c item.encoded <;> rfl
      rw [hCount] at hStored
      have hBalance := h.balance c
      rw [unreported] at hBalance ⊢
      change s.usage.read c + layout.slotBytes * (s.storeTasks.set taskId _).tally _ =
        layout.slotBytes * held c core + s.pendingDeletes c
      have hSum : (s.storeTasks.set taskId (task.addStored item.encoded)).tally (fun _ task =>
          task.storedKeys.countP (countsEncoded c)) = s.storeTasks.tally (fun _ task =>
            task.storedKeys.countP (countsEncoded c)) + (countsEncoded c item.encoded).toNat := by
        omega
      rw [if_pos rfl, hSum, hHeld]
      push_cast
      rw [Int.mul_add, Int.mul_add]
      omega

theorem Balanced.finishStoreTask (h : s.Balanced) (hCond : s.Accounted (.finishStoreTask taskId))
    (hStep : s.finishStoreTask taskId = some t) : t.Balanced := by
  obtain ⟨task, result, hTask, -, rfl⟩ := finishStoreTask_cases hStep
  refine ⟨h.separate, h.decodes, h.nonneg.reportStored _, fun id hLe => ?_, fun c => ?_⟩
  · change (s.storeTasks.erase taskId).get? id = none
    rw [get?_erase]
    split
    · rfl
    · exact h.fresh id hLe
  · have hCharged := charged_charges (hCond task hTask) c layout.slotBytes
    have hBalance := h.balance c
    rw [unreported, tally_erase hTask] at hBalance
    change UsageTracking.read _ c + layout.slotBytes * (s.storeTasks.erase taskId).tally _ =
      layout.slotBytes * held c s.core + s.pendingDeletes c
    rw [read_reportStored, hCharged]
    push_cast at hBalance ⊢
    rw [Int.mul_add] at hBalance
    omega

theorem Balanced.inspect (h : s.Balanced) {call : Nat} {keys : List ObjectKey}
    (hStep : s.inspect call keys = some t) : t.Balanced := by
  obtain ⟨hNone, found, rfl⟩ := inspect_cases hStep
  refine h.congr rfl h.separate rfl h.fresh (fun _ => rfl) fun c => ?_
  rw [pendingDeletes, tally_set_new hNone]
  exact Nat.zero_add _

theorem Balanced.delete (h : s.Balanced) {call : Nat} (hCond : s.Accounted (.delete call))
    (hStep : s.delete call = some t) : t.Balanced := by
  obtain ⟨keys, hCall, rfl⟩ := delete_cases hStep
  obtain ⟨hSeparate, hKeys⟩ := separate_deleteMany h.separate
    (keys.map fun k => k.1.encoded)
  refine ⟨hSeparate, fun encoded hMem => h.decodes encoded (hKeys encoded hMem), h.nonneg,
    h.fresh, fun c => ?_⟩
  have hHeld := held_deleteMany c h.separate (hCond _ hCall)
  have hSum : ∀ charges, (s.deleteCalls.set call (.deleted charges)).tally
      (fun _ call => call.charged c) = s.pendingDeletes c + charged c charges := fun charges =>
    tally_set_old (w := fun _ (call : DeleteCall) => call.charged c) hCall (.deleted charges)
  have hBalance := h.balance c
  change s.usage.read c + layout.slotBytes * s.unreported c =
    layout.slotBytes * held c (s.core.deleteMany false _).2 +
      ((s.deleteCalls.set call _).tally _ : Nat)
  rw [hSum]
  push_cast
  rw [hBalance, ← Nat.cast_mul, hHeld]
  push_cast
  omega

theorem Balanced.finishDelete (h : s.Balanced) {call : Nat}
    (hCond : s.Accounted (.finishDelete call)) (hStep : s.finishDelete call = some t) :
    t.Balanced := by
  obtain ⟨charges, hCall, rfl⟩ := finishDelete_cases hStep
  refine ⟨h.separate, h.decodes, h.nonneg.reportDeleted _, h.fresh, fun c => ?_⟩
  have hBalance := h.balance c
  rw [pendingDeletes, tally_erase hCall] at hBalance
  change UsageTracking.read _ c + layout.slotBytes * s.unreported c =
    layout.slotBytes * held c s.core + ((s.deleteCalls.erase call).tally _ : Nat)
  rw [read_reportDeleted_of_covers h.nonneg (hCond _ hCall)]
  rw [show (DeleteCall.deleted charges).charged c = charged c charges from rfl] at hBalance
  push_cast at hBalance
  omega

theorem Balanced.step (h : s.Balanced) {event : AdapterEvent M} (hCond : s.Accounted event)
    (hStep : s.Step event t) : t.Balanced := by
  cases event with
  | submitStoreTask items => exact h.submitStoreTask hStep
  | reserve taskId placementId => exact h.reserve hStep
  | commit taskId success => exact h.commit hStep
  | finishStoreTask taskId => exact h.finishStoreTask hCond hStep
  | lookupAndLock keys =>
    cases hStep
    rcases s.lookupAndLock_cases keys with hSame | ⟨encoded, hSame⟩
    · rwa [hSame]
    · obtain ⟨hIndex, hInflight⟩ := s.core.index_existsMany true encoded
      rw [hSame]
      exact h.congr hIndex (h.separate.of_index hIndex hInflight) rfl h.fresh (fun _ => rfl)
        fun _ => rfl
  | unlock keys =>
    obtain ⟨encoded, rfl⟩ := unlock_cases hStep
    obtain ⟨hIndex, hInflight⟩ := s.core.index_unlockMany encoded
    exact h.congr hIndex (h.separate.of_index hIndex hInflight) rfl h.fresh (fun _ => rfl)
      fun _ => rfl
  | inspect call keys => exact h.inspect hStep
  | delete call => exact h.delete hCond hStep
  | finishDelete call => exact h.finishDelete hCond hStep

end Steps

section Runs

variable {layout : Layout} {M : Type} {s t : RawBlockL2Adapter layout M}

theorem seedUsageFromCoreSnapshot_eq [PyText] (u : UsageTracking) (core : Store layout String M) :
    seedUsageFromCoreSnapshot u core = u.notifyKeysStored
      ((snapshotIndexedObjectKeys core).map fun key => (key, layout.slotBytes)) := by
  unfold seedUsageFromCoreSnapshot
  dsimp only
  split
  · rename_i hNil
    rw [hNil, UsageTracking.notifyKeysStored]
    simp [UsageTracking.totalDelta, UsageTracking.saltDelta, Dict.sumBy, Dict.empty]
  · rw [UsageTracking.notifyKeysStored, UsageTracking.totalDelta, UsageTracking.saltDelta,
      Dict.sumBy, Dict.sumBy, foldl_map, List.map_map]
    simp [Function.comp_def]

theorem inflight_of_opened {F : Type} [PyRuntime F] {env : RecoveryEnv F M}
    {core : Store layout String M} (h : OpenedCore layout env core) :
    core.inflight = Dict.empty := by
  cases h with
  | empty enabled => rfl
  | recovered h =>
    obtain ⟨_, _, -, -, hFrom⟩ := applyLoadedState_from h
    exact hFrom.idle

theorem nonneg_start [PyText] (core : Store layout String M) : (start core).usage.Nonneg := by
  rw [start, seedUsageFromCoreSnapshot_eq]
  exact (nonneg_new _).notifyKeysStored _

theorem balanced_start [PyText] {core : Store layout String M}
    (hIdle : core.inflight = Dict.empty) (hDecodes : Decodes core) : (start core).Balanced where
  separate k hIn := by
    rw [start, hIdle] at hIn
    cases hIn
  decodes := hDecodes
  nonneg := nonneg_start core
  fresh _ _ := rfl
  balance c := by
    change (seedUsageFromCoreSnapshot _ _).read c + layout.slotBytes * (0 : Nat) =
      layout.slotBytes * held c core + (0 : Nat)
    have hCount : ((snapshotIndexedObjectKeys core).countP fun key => c.counts key) = held c core :=
      (held_eq_countP c core).symm
    rw [seedUsageFromCoreSnapshot_eq, read_notifyKeysStored, read_new, charged_map_const, hCount]
    push_cast
    omega

theorem nonneg_step {event : AdapterEvent M} (h : s.usage.Nonneg) (hStep : s.Step event t) :
    t.usage.Nonneg := by
  cases event with
  | submitStoreTask items =>
    obtain ⟨-, rfl⟩ := submitStoreTask_cases hStep
    exact h
  | reserve taskId placementId =>
    obtain ⟨_, _, _, -, -, -, -, rfl⟩ := reserve_cases hStep
    exact h
  | commit taskId success =>
    obtain ⟨_, _, -, -, -, ⟨-, rfl⟩ | ⟨_, _, -, rfl⟩⟩ := commit_cases hStep
    · exact h
    · exact h
  | finishStoreTask taskId =>
    obtain ⟨_, _, -, -, rfl⟩ := finishStoreTask_cases hStep
    exact h.reportStored _
  | lookupAndLock keys =>
    cases hStep
    rcases s.lookupAndLock_cases keys with hSame | ⟨_, hSame⟩
    · rwa [hSame]
    · rwa [hSame]
  | unlock keys =>
    obtain ⟨_, rfl⟩ := unlock_cases hStep
    exact h
  | inspect call keys =>
    obtain ⟨-, _, rfl⟩ := inspect_cases hStep
    exact h
  | delete call =>
    obtain ⟨_, -, rfl⟩ := delete_cases hStep
    exact h
  | finishDelete call =>
    obtain ⟨_, -, rfl⟩ := finishDelete_cases hStep
    exact h.reportDeleted _

/-- With nothing left to report, a counter is the slots of the indexed keys that it counts. -/
theorem Balanced.exact [PyText] (h : s.Balanced) (hQuiet : s.Quiet) (c : Counter) :
    s.usage.getUsage.read c = layout.slotBytes * indexedKeys s.core c := by
  have hBalance := h.balance c
  rw [unreported, pendingDeletes, hQuiet.1, hQuiet.2, tally_empty, tally_empty,
    held_eq_indexedKeys h.decodes] at hBalance
  rw [read_getUsage h.nonneg]
  simpa using hBalance

/-- No counter is ever negative. In a run whose steps are accounted for, from a core whose keys
can be decoded, the counters of a quiet adapter are the slots of the indexed keys. -/
theorem raw_block_usage [PyText] {F : Type} [PyRuntime F] (env : RecoveryEnv F M)
    (core : Store layout String M) (hOpened : OpenedCore layout env core)
    (events : List (AdapterEvent M)) (t : RawBlockL2Adapter layout M) :
    (Run Step (start core) events t → ∀ c, 0 ≤ t.usage.getUsage.read c) ∧
    (Decodes core → Run (Run.Under Accounted Step) (start core) events t → t.Quiet →
      ∀ c, t.usage.getUsage.read c = layout.slotBytes * indexedKeys t.core c) := by
  refine ⟨fun hRun c => ?_, fun hDecodes hRun hQuiet c => ?_⟩
  · have hNonneg := hRun.invariant (fun _ _ _ hInv hStep => nonneg_step hInv hStep)
      (nonneg_start core)
    rw [read_getUsage hNonneg]
    exact hNonneg c
  · have hBalanced := hRun.invariant (fun _ _ _ hInv hStep => hInv.step hStep.1 hStep.2)
      (balanced_start (inflight_of_opened hOpened) hDecodes)
    exact hBalanced.exact hQuiet c

end Runs

section Sample

def storedKey : ObjectKey := sampleKey [.plain 'k'] (by decide)

def freshCore : Store twoSlotLayout String Unit := .new false

/-- A batch of one key is stored, and the key is locked while a deletion tries it. -/
def lockedRun : List (AdapterEvent Unit) := [.submitStoreTask [⟨storedKey, 5, ()⟩],
  .reserve 0 none, .commit 0 true, .finishStoreTask 0, .lookupAndLock [storedKey],
  .inspect 7 [storedKey], .delete 7, .finishDelete 7]

/-- The key is deleted before its store is reported. -/
def lateRun : List (AdapterEvent Unit) := [.submitStoreTask [⟨storedKey, 5, ()⟩],
  .reserve 0 none, .commit 0 true, .inspect 7 [storedKey], .delete 7, .finishDelete 7,
  .finishStoreTask 0]

theorem decodes_freshCore : @Decodes asciiText _ _ freshCore := fun _ hMem => (nomatch hMem)

theorem raw_block_usage_sample : ∃ t,
    Run (Run.Under Accounted Step) (@start _ _ asciiText freshCore) lockedRun t ∧
      t.usage.getUsage.read .total = 64 * @indexedKeys asciiText _ _ t.core .total := by
  refine ⟨_, Run.under_of_exec Accounted next rfl, ?_⟩
  refine (@raw_block_usage twoSlotLayout Unit asciiText Decimal _ trustingEnv freshCore
    (.empty false) lockedRun _).2 decodes_freshCore (Run.under_of_exec Accounted next rfl)
    ⟨rfl, rfl⟩ .total

/-- The deletion is clamped away, and the late report stays. -/
theorem late_report_drifts : ∃ t, Run Step (@start _ _ asciiText freshCore) lateRun t ∧
    t.Quiet ∧ t.usage.getUsage.read .total = 64 ∧ @indexedKeys asciiText _ _ t.core .total = 0 :=
  ⟨_, Run.of_exec next rfl, ⟨rfl, rfl⟩, rfl, rfl⟩

end Sample

end RawBlockL2Adapter

end LMCache.L2
