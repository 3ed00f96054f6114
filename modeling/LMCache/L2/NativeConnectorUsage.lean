import LMCache.L2.NativeConnectorAdapter

/-!
# Counters and locks of the native connector adapter

A history of a run keeps what the connector was asked and what it has answered: the requests
that are neither answered nor given up, the last confirmation of every key, the successful
lookups, and the unlocks, of which those of a key that was not locked are surplus. The tables of
the adapter follow the history, and the counters follow the tables once a round is reported.
-/

namespace LMCache.L2

open Lib Keys UsageTracking List Option
open Dict hiding keys

inductive Request
  | store (keys : List ObjectKey)
  | lookup (keys : List ObjectKey)
  | load (keys : List ObjectKey)
  | delete (keys : List ObjectKey)

inductive Confirmation
  | stored
  | deleted
  deriving DecidableEq

structure History where
  submitted : Nat := 0
  /-- The open requests and their numbers. -/
  pending : Dict Nat (Nat × Request) := Dict.empty
  /-- The last confirmation of a key. -/
  confirmed : Dict ObjectKey Confirmation := Dict.empty
  hits : List ObjectKey := []
  unlocks : List ObjectKey := []
  surplus : List ObjectKey := []

namespace History

def submit (h : History) (futureId : Nat) (request : Request) : History :=
  { h with
    submitted := h.submitted + 1
    pending := h.pending.set futureId (h.submitted, request) }

/-- The request with a number is given up. -/
def abandon (h : History) (number : Nat) : History :=
  { h with pending := h.pending.filter fun _ r => r.1 ≠ number }

/-- An unlock of a key; it is surplus if the others have used up its lookups. -/
def unlock (h : History) (key : ObjectKey) : History :=
  { h with
    unlocks := key :: h.unlocks
    surplus := if h.hits.count key + h.surplus.count key ≤ h.unlocks.count key then
      key :: h.surplus else h.surplus }

def confirm (h : History) (c : Confirmation) (keys : List ObjectKey) : History :=
  { h with confirmed := keys.foldl (fun d key => d.set key c) h.confirmed }

def answer (h : History) (completion : Completion) : History :=
  match h.pending.get? completion.futureId with
  | none => h
  | some (_, request) =>
    let h := { h with pending := h.pending.erase completion.futureId }
    let results := completion.resultBools.getD []
    match request with
    | .store keys => if completion.ok then h.confirm .stored keys else h
    | .lookup keys =>
      if completion.ok then { h with hits := h.hits ++ confirmedKeys keys results } else h
    | .load _ => h
    | .delete keys => h.confirm .deleted (confirmedKeys keys results)

def observe (h : History) : ConnectorEvent → History
  | .submitStoreTask futureId items => h.submit futureId (.store (items.map Prod.fst))
  | .submitLookupAndLockTask futureId keys => h.submit futureId (.lookup keys)
  | .submitLoadTask futureId keys => h.submit futureId (.load keys)
  | .delete futureId keys => h.submit futureId (.delete keys)
  | .timeOut taskId => h.abandon taskId
  | .submitUnlock keys => keys.foldl unlock h
  | .drain completions => completions.foldl answer h
  | .popCompletedStoreTasks | .queryLookupAndLockResult _ | .queryLoadResult _ | .report => h

def ofEvents (events : List ConnectorEvent) : History := events.foldl observe {}

end History

section Tables

def countedSize (c : Counter) (key : ObjectKey) (size : Nat) : Nat :=
  if c.counts key then size else 0

theorem charged_cons (c : Counter) (key : ObjectKey) (size : Nat)
    (charges : List (ObjectKey × Nat)) :
    charged c ((key, size) :: charges) = countedSize c key size + charged c charges :=
  weightOf_cons ..

theorem charged_append (c : Counter) (charges charges' : List (ObjectKey × Nat)) :
    charged c (charges ++ charges') = charged c charges + charged c charges' :=
  weightOf_append ..

theorem recordStored_spec (c : Counter) (keySizes : Dict ObjectKey Nat)
    (items : List (ObjectKey × Nat)) :
    (∀ k, (recordStored keySizes items).1.contains k = true ↔
      keySizes.contains k = true ∨ k ∈ items.map Prod.fst) ∧
    (recordStored keySizes items).1.tally (countedSize c) =
      keySizes.tally (countedSize c) + charged c (recordStored keySizes items).2 := by
  induction items generalizing keySizes with
  | nil => simp [recordStored, charged, Dict.weightOf]
  | cons item rest ih =>
    obtain ⟨key, size⟩ := item
    rw [recordStored]
    split
    · rename_i hIn
      obtain ⟨hKeys, hTally⟩ := ih keySizes
      refine ⟨fun k => ?_, ?_⟩
      · rw [hKeys, map_cons, mem_cons]
        exact ⟨fun h => h.imp_right .inr, fun h => h.elim .inl fun h => h.elim
          (fun hEq => .inl (hEq ▸ hIn)) .inr⟩
      · rw [hTally, charged_cons, countedSize, ite_self, Nat.zero_add]
    · rename_i hNew
      obtain ⟨hKeys, hTally⟩ := ih (keySizes.set key size)
      have hNone : keySizes.get? key = none := not_contains_iff.mp hNew
      refine ⟨fun k => ?_, ?_⟩
      · rw [hKeys, map_cons, mem_cons, Dict.contains, get?_set, Dict.contains]
        by_cases hEq : key = k
        · simp [hEq]
        · simp [hEq, Ne.symm hEq]
      · rw [hTally, tally_set_new hNone, charged_cons]
        omega

theorem recordDeleted_spec (c : Counter) (keySizes : Dict ObjectKey Nat) (keys : List ObjectKey) :
    (∀ k, (recordDeleted keySizes keys).1.contains k = true ↔
      keySizes.contains k = true ∧ k ∉ keys) ∧
    keySizes.tally (countedSize c) = (recordDeleted keySizes keys).1.tally (countedSize c) +
      charged c (recordDeleted keySizes keys).2 := by
  induction keys generalizing keySizes with
  | nil => simp [recordDeleted, charged, Dict.weightOf]
  | cons key rest ih =>
    rw [recordDeleted]
    split
    · rename_i hNone
      obtain ⟨hKeys, hTally⟩ := ih keySizes
      refine ⟨fun k => ?_, hTally⟩
      rw [hKeys, mem_cons, not_or]
      refine and_congr_right fun hIn => ⟨fun h => ⟨?_, h⟩, And.right⟩
      rintro rfl
      rw [Dict.contains, hNone] at hIn
      cases hIn
    · rename_i size hSome
      obtain ⟨hKeys, hTally⟩ := ih (keySizes.erase key)
      refine ⟨fun k => ?_, ?_⟩
      · rw [hKeys, mem_cons, not_or, Dict.contains, get?_erase, Dict.contains]
        by_cases hEq : key = k
        · simp [hEq]
        · simp [hEq, Ne.symm hEq]
      · dsimp only
        rw [tally_erase hSome, hTally, charged_cons]
        omega

theorem get?_foldl_confirm (c : Confirmation) (keys : List ObjectKey)
    (confirmed : Dict ObjectKey Confirmation) (k : ObjectKey) :
    (keys.foldl (fun d key => d.set key c) confirmed).get? k =
      if k ∈ keys then some c else confirmed.get? k := by
  induction keys generalizing confirmed with
  | nil => simp
  | cons key rest ih =>
    rw [foldl_cons, ih, get?_set]
    by_cases hRest : k ∈ rest
    · simp [hRest]
    · by_cases hEq : key = k
      · simp [hEq]
      · simp [hRest, hEq, Ne.symm hEq]

def Positive (lockedKeys : Dict ObjectKey Int) : Prop := ∀ k n, lockedKeys.get? k = some n → 0 < n

variable {lockedKeys : Dict ObjectKey Int}

theorem Positive.getD_nonneg (h : Positive lockedKeys) (k : ObjectKey) :
    0 ≤ (lockedKeys.get? k).getD 0 := by
  cases hGet : lockedKeys.get? k with
  | none => exact Int.le_refl 0
  | some n => exact Int.le_of_lt (h k n hGet)

theorem lockKeys_spec (h : Positive lockedKeys) (keys : List ObjectKey) :
    Positive (lockKeys lockedKeys keys) ∧
      ∀ k, ((lockKeys lockedKeys keys).get? k).getD 0 =
        (lockedKeys.get? k).getD 0 + keys.count k := by
  induction keys generalizing lockedKeys with
  | nil => exact ⟨h, fun k => (Int.add_zero _).symm⟩
  | cons key rest ih =>
    have hFirst : Positive (lockedKeys.set key ((lockedKeys.get? key).getD 0 + 1)) := by
      intro k n hGet
      obtain ⟨-, rfl⟩ | ⟨-, hGet⟩ := get?_set_cases hGet
      · have hOld := h.getD_nonneg key
        omega
      · exact h k n hGet
    obtain ⟨hPositive, hCount⟩ := ih hFirst
    refine ⟨hPositive, fun k => ?_⟩
    have hK := hCount k
    rw [get?_set] at hK
    change ((lockKeys _ rest).get? k).getD 0 = _
    rw [hK, count_cons]
    by_cases hEq : key = k
    · subst hEq
      simp
      omega
    · simp [hEq]

theorem unlockKey_spec (h : Positive lockedKeys) (key : ObjectKey) :
    Positive (unlockKey lockedKeys key) ∧
      ∀ k, ((unlockKey lockedKeys key).get? k).getD 0 = (lockedKeys.get? k).getD 0 -
        if key = k ∧ 0 < (lockedKeys.get? k).getD 0 then 1 else 0 := by
  unfold unlockKey
  split
  · rename_i hNone
    refine ⟨h, fun k => ?_⟩
    rw [if_neg, Int.sub_zero]
    rintro ⟨rfl, hLt⟩
    rw [hNone] at hLt
    exact absurd hLt (Int.lt_irrefl 0)
  · rename_i n hSome
    have hPos := h key n hSome
    have hOther : ∀ k, ¬ key = k → (lockedKeys.get? k).getD 0 = (lockedKeys.get? k).getD 0 -
        if key = k ∧ 0 < (lockedKeys.get? k).getD 0 then 1 else 0 := by
      intro k hNe
      rw [if_neg fun hBoth => hNe hBoth.1, Int.sub_zero]
    split
    · refine ⟨fun k m hGet => ?_, fun k => ?_⟩
      · obtain ⟨-, hGet⟩ := get?_erase_cases hGet
        exact h k m hGet
      · rw [get?_erase]
        split
        · rename_i hLast hEq
          subst hEq
          rw [hSome, getD_some, if_pos ⟨rfl, hPos⟩, getD_none]
          omega
        · rename_i hNe
          exact hOther k hNe
    · refine ⟨fun k m hGet => ?_, fun k => ?_⟩
      · obtain ⟨-, rfl⟩ | ⟨-, hGet⟩ := get?_set_cases hGet
        · omega
        · exact h k m hGet
      · rw [get?_set]
        split
        · rename_i hEq
          subst hEq
          rw [hSome, getD_some, getD_some, if_pos ⟨rfl, hPos⟩]
        · rename_i hNe
          exact hOther k hNe

end Tables

def Demux.stored : Demux → List (ObjectKey × Nat)
  | .notifyStored round => round.stored
  | .polling | .notifyDeleted _ | .wake _ => []

def Demux.deleted : Demux → List (ObjectKey × Nat)
  | .notifyStored round | .notifyDeleted round => round.deleted
  | .polling | .wake _ => []

namespace NativeConnectorL2Adapter

section Following

variable {h : History} {s t : NativeConnectorL2Adapter}

def Answers (s : NativeConnectorL2Adapter) (futureId : Nat) (op : PendingOp) : Request → Prop
  | .store keys => op.opType = .store ∧
      ∃ items, s.pendingStoreSizes.get? futureId = some items ∧ items.map Prod.fst = keys
  | .lookup keys => op.opType = .lookup ∧ op.keys = some keys
  | .load _ => op.opType = .load
  | .delete keys => op.opType = .delete ∧ op.keys = some keys

/-- The pending operations are the open requests, and no two have one task. -/
structure Pending (h : History) (s : NativeConnectorL2Adapter) : Prop where
  submitted : h.submitted = s.nextTaskId
  closed : ∀ i, s.pendingOps.get? i = none → h.pending.get? i = none
  asked : ∀ i op, s.pendingOps.get? i = some op → ∃ request,
    h.pending.get? i = some (op.taskId, request) ∧ s.Answers i op request
  distinct : ∀ i j op op', s.pendingOps.get? i = some op → s.pendingOps.get? j = some op' →
    op.taskId = op'.taskId → i = j
  issued : ∀ i op, s.pendingOps.get? i = some op → op.taskId < s.nextTaskId

def lockCount (s : NativeConnectorL2Adapter) (key : ObjectKey) : Int :=
  (s.lockedKeys.get? key).getD 0

/-- The tables follow the history; `stored` and `deleted` are left to report. -/
structure Follows (h : History) (s : NativeConnectorL2Adapter)
    (stored deleted : List (ObjectKey × Nat)) : Prop where
  pending : Pending h s
  recorded : ∀ k, s.keySizes.contains k = true ↔ h.confirmed.get? k = some .stored
  positive : Positive s.lockedKeys
  locks : ∀ k, s.lockCount k + h.unlocks.count k = h.hits.count k + h.surplus.count k
  nonneg : s.usage.Nonneg
  balance : ∀ c, s.usage.read c + charged c stored =
    s.keySizes.tally (countedSize c) + charged c deleted

variable {futureId : Nat}

theorem Answers.congr {op : PendingOp} {request : Request} (hA : s.Answers futureId op request)
    (hSizes : t.pendingStoreSizes.get? futureId = s.pendingStoreSizes.get? futureId) :
    t.Answers futureId op request := by
  cases request with
  | store keys =>
    obtain ⟨hType, items, hGet, hKeys⟩ := hA
    exact ⟨hType, items, hSizes.trans hGet, hKeys⟩
  | lookup keys => exact hA
  | load keys => exact hA
  | delete keys => exact hA

variable {h' : History}

theorem Pending.congr (hP : Pending h s) (hSubmitted : h'.submitted = h.submitted)
    (hPending : ∀ i, h'.pending.get? i = h.pending.get? i) (hNext : t.nextTaskId = s.nextTaskId)
    (hOps : t.pendingOps = s.pendingOps) (hSizes : t.pendingStoreSizes = s.pendingStoreSizes) :
    Pending h' t := by
  refine ⟨by rw [hSubmitted, hNext, hP.submitted], fun i hNone => ?_, fun i op hGet => ?_, ?_, ?_⟩
  · rw [hPending]
    exact hP.closed i (hOps ▸ hNone)
  · obtain ⟨request, hRequest, hA⟩ := hP.asked i op (hOps ▸ hGet)
    exact ⟨request, (hPending i).trans hRequest, hA.congr (by rw [hSizes])⟩
  · rw [hOps]
    exact hP.distinct
  · rw [hOps, hNext]
    exact hP.issued

theorem Pending.erase (hP : Pending h s) (hSubmitted : h'.submitted = h.submitted)
    (hPending : ∀ i, h'.pending.get? i = if futureId = i then none else h.pending.get? i)
    (hNext : t.nextTaskId = s.nextTaskId) (hOps : t.pendingOps = s.pendingOps.erase futureId)
    (hSizes : ∀ i, futureId ≠ i → t.pendingStoreSizes.get? i = s.pendingStoreSizes.get? i) :
    Pending h' t := by
  have hKept : ∀ i op, t.pendingOps.get? i = some op →
      futureId ≠ i ∧ s.pendingOps.get? i = some op := by
    intro i op hGet
    rw [hOps] at hGet
    obtain ⟨hNe, hGet⟩ := get?_erase_cases hGet
    exact ⟨hNe, hGet⟩
  refine ⟨by rw [hSubmitted, hNext, hP.submitted], fun i hNone => ?_, fun i op hGet => ?_,
    fun i j op op' hGet hGet' => ?_, fun i op hGet => ?_⟩
  · rw [hOps, get?_erase] at hNone
    rw [hPending]
    split at hNone
    · rename_i hEq
      rw [if_pos hEq]
    · rename_i hNe
      rw [if_neg hNe]
      exact hP.closed i hNone
  · obtain ⟨hNe, hOld⟩ := hKept i op hGet
    obtain ⟨request, hRequest, hA⟩ := hP.asked i op hOld
    refine ⟨request, ?_, hA.congr (hSizes i hNe)⟩
    rw [hPending, if_neg hNe, hRequest]
  · exact hP.distinct i j op op' (hKept i op hGet).2 (hKept j op' hGet').2
  · rw [hNext]
    exact hP.issued i op (hKept i op hGet).2

theorem Pending.register (hP : Pending h s) {op : PendingOp} {request : Request}
    (hSubmit : h' = h.submit futureId request) (hNext : t.nextTaskId = s.nextTaskId + 1)
    (hOps : t.pendingOps = s.pendingOps.set futureId op) (hTask : op.taskId = s.nextTaskId)
    (hA : t.Answers futureId op request)
    (hSizes : ∀ i, futureId ≠ i → t.pendingStoreSizes.get? i = s.pendingStoreSizes.get? i) :
    Pending h' t := by
  subst hSubmit
  have hNew : ∀ i op', t.pendingOps.get? i = some op' → futureId = i ∧ op = op' ∨
      futureId ≠ i ∧ s.pendingOps.get? i = some op' := by
    intro i op' hGet
    rw [hOps, get?_set] at hGet
    split at hGet
    · rename_i hEq
      exact .inl ⟨hEq, some.inj hGet⟩
    · rename_i hNe
      exact .inr ⟨hNe, hGet⟩
  have hOld : ∀ i op', s.pendingOps.get? i = some op' → op'.taskId ≠ op.taskId :=
    fun i op' hGet => hTask ▸ Nat.ne_of_lt (hP.issued i op' hGet)
  refine ⟨by rw [hNext, ← hP.submitted, History.submit], fun i hNone => ?_,
    fun i op' hGet => ?_, fun i j op' op'' hGet hGet' hEq => ?_, fun i op' hGet => ?_⟩
  · rw [hOps, get?_set] at hNone
    split at hNone
    · cases hNone
    · rename_i hNe
      rw [History.submit, get?_set_ne _ hNe]
      exact hP.closed i hNone
  · rcases hNew i op' hGet with ⟨rfl, rfl⟩ | ⟨hNe, hOp⟩
    · refine ⟨request, ?_, hA⟩
      rw [History.submit, get?_set_self, hTask, hP.submitted]
    · obtain ⟨request', hRequest, hA'⟩ := hP.asked i op' hOp
      refine ⟨request', ?_, hA'.congr (hSizes i hNe)⟩
      rw [History.submit, get?_set_ne _ hNe, hRequest]
  · rcases hNew i op' hGet with ⟨rfl, rfl⟩ | ⟨hNe, hOp⟩
    · rcases hNew j op'' hGet' with ⟨rfl, -⟩ | ⟨-, hOp'⟩
      · rfl
      · exact absurd hEq.symm (hOld j op'' hOp')
    · rcases hNew j op'' hGet' with ⟨-, rfl⟩ | ⟨-, hOp'⟩
      · exact absurd hEq (hOld i op' hOp)
      · exact hP.distinct i j op' op'' hOp hOp' hEq
  · rw [hNext]
    rcases hNew i op' hGet with ⟨-, rfl⟩ | ⟨-, hOp⟩
    · rw [hTask]
      exact Nat.lt_succ_self _
    · exact Nat.lt_succ_of_lt (hP.issued i op' hOp)

theorem Pending.get?_abandon (hP : Pending h s) (taskId i : Nat) :
    (∃ op, s.pendingOps.get? i = some op ∧ op.taskId = taskId) ∧
        (h.abandon taskId).pending.get? i = none ∨
      (∀ op, s.pendingOps.get? i = some op → op.taskId ≠ taskId) ∧
        (h.abandon taskId).pending.get? i = h.pending.get? i := by
  rw [History.abandon, get?_filter]
  cases hGet : s.pendingOps.get? i with
  | none =>
    rw [hP.closed i hGet]
    exact .inr ⟨nofun, rfl⟩
  | some op =>
    obtain ⟨request, hRequest, -⟩ := hP.asked i op hGet
    rw [hRequest, filter_some]
    by_cases hTask : op.taskId = taskId
    · exact .inl ⟨⟨op, rfl, hTask⟩, by simp [hTask]⟩
    · refine .inr ⟨fun op' hSome => ?_, by simp [hTask]⟩
      cases hSome
      exact hTask

theorem Pending.timeOut (hP : Pending h s) {taskId : Nat} (hStep : s.timeOut taskId = some t) :
    Pending (h.abandon taskId) t := by
  unfold NativeConnectorL2Adapter.timeOut at hStep
  split at hStep
  · cases hStep
  cases hStep
  cases hFind : s.pendingFuture taskId with
  | none =>
    refine hP.congr rfl (fun i => ?_) rfl rfl rfl
    rcases hP.get?_abandon taskId i with ⟨⟨op, hGet, hTask⟩, -⟩ | ⟨-, hSame⟩
    · have hNone : s.pendingOps.entries.find? (fun e => e.2.taskId = taskId) = none :=
        map_eq_none_iff.mp hFind
      have hNot := find?_eq_none.mp hNone (i, op) (get?_eq_some_iff.mp hGet)
      exact absurd hTask (by simpa using hNot)
    · exact hSame
  | some futureId =>
    obtain ⟨⟨j, op⟩, hFirst, hKey⟩ := map_eq_some_iff.mp hFind
    have hTask : op.taskId = taskId := by simpa using find?_some hFirst
    have hGet : s.pendingOps.get? j = some op :=
      get?_eq_some_iff.mpr (mem_of_find?_eq_some hFirst)
    subst hKey
    refine hP.erase rfl (fun i => ?_) rfl (show _ = s.pendingOps.erase j from rfl) fun _ _ => rfl
    rcases hP.get?_abandon taskId i with ⟨⟨op', hGet', hTask'⟩, hNone⟩ | ⟨hOther, hSame⟩
    · rw [if_pos (hP.distinct j i op op' hGet hGet' (hTask.trans hTask'.symm)), hNone]
    · rw [if_neg, hSame]
      rintro rfl
      exact hOther op hGet hTask

end Following

section Completions

variable {h : History} {s t : NativeConnectorL2Adapter}

section Tables

variable {keySizes : Dict ObjectKey Nat} {confirmed : Dict ObjectKey Confirmation} {n : Int}
  {c : Counter} {stored deleted : List (ObjectKey × Nat)}

theorem recorded_stored
    (hRecorded : ∀ k, keySizes.contains k = true ↔ confirmed.get? k = some .stored)
    (items : List (ObjectKey × Nat)) (k : ObjectKey) :
    (recordStored keySizes items).1.contains k = true ↔
      ((items.map Prod.fst).foldl (fun d key => d.set key .stored) confirmed).get? k =
        some Confirmation.stored := by
  rw [(recordStored_spec .total keySizes items).1, get?_foldl_confirm, hRecorded]
  by_cases hMem : k ∈ items.map Prod.fst
  · rw [if_pos hMem]
    exact ⟨fun _ => rfl, fun _ => .inr hMem⟩
  · rw [if_neg hMem]
    exact ⟨fun hOr => hOr.resolve_right hMem, .inl⟩

theorem recorded_deleted
    (hRecorded : ∀ k, keySizes.contains k = true ↔ confirmed.get? k = some .stored)
    (keys : List ObjectKey) (k : ObjectKey) :
    (recordDeleted keySizes keys).1.contains k = true ↔
      (keys.foldl (fun d key => d.set key .deleted) confirmed).get? k =
        some Confirmation.stored := by
  rw [(recordDeleted_spec .total keySizes keys).1, get?_foldl_confirm, hRecorded]
  by_cases hMem : k ∈ keys
  · rw [if_pos hMem]
    exact ⟨fun hAnd => absurd hMem hAnd.2, fun hEq => Confirmation.noConfusion (some.inj hEq)⟩
  · rw [if_neg hMem]
    exact ⟨And.left, fun hIn => ⟨hIn, hMem⟩⟩

theorem balance_stored
    (hBalance : n + charged c stored = keySizes.tally (countedSize c) + charged c deleted)
    (items : List (ObjectKey × Nat)) :
    n + charged c (stored ++ (recordStored keySizes items).2) =
      (recordStored keySizes items).1.tally (countedSize c) + charged c deleted := by
  rw [charged_append, (recordStored_spec c keySizes items).2]
  push_cast
  omega

theorem balance_deleted
    (hBalance : n + charged c stored = keySizes.tally (countedSize c) + charged c deleted)
    (keys : List ObjectKey) : n + charged c stored =
      (recordDeleted keySizes keys).1.tally (countedSize c) +
        charged c (deleted ++ (recordDeleted keySizes keys).2) := by
  have hTally := (recordDeleted_spec c keySizes keys).2
  rw [charged_append]
  push_cast
  omega

end Tables

variable {round' : Round}

theorem Follows.complete {round : Round} {completion : Completion}
    (hF : Follows h s round.stored round.deleted)
    (hStep : s.complete round completion = some (t, round')) :
    Follows (h.answer completion) t round'.stored round'.deleted := by
  unfold NativeConnectorL2Adapter.complete at hStep
  unfold History.answer
  dsimp only at hStep ⊢
  cases hGet : s.pendingOps.get? completion.futureId with
  | none =>
    rw [hGet] at hStep
    cases hStep
    rw [hF.pending.closed _ hGet]
    exact hF
  | some op =>
    obtain ⟨request, hRequest, hA⟩ := hF.pending.asked _ op hGet
    rw [hGet] at hStep
    rw [hRequest]
    dsimp only at hStep ⊢
    split at hStep
    · cases hStep
    have hErased := get?_erase h.pending completion.futureId
    cases request with
    | store keys =>
      obtain ⟨hType, items, hItems, rfl⟩ := hA
      rw [hType, hItems] at hStep
      dsimp only at hStep ⊢
      cases hOk : completion.ok with
      | false =>
        rw [hOk] at hStep
        cases hStep
        exact ⟨hF.pending.erase rfl hErased rfl rfl fun i hNe => get?_erase_ne _ hNe,
          hF.recorded, hF.positive, hF.locks, hF.nonneg, fun c => balance_stored (hF.balance c) []⟩
      | true =>
        rw [hOk] at hStep
        cases hStep
        exact ⟨hF.pending.erase rfl hErased rfl rfl fun i hNe => get?_erase_ne _ hNe,
          recorded_stored hF.recorded items, hF.positive, hF.locks, hF.nonneg,
          fun c => balance_stored (hF.balance c) items⟩
    | lookup keys =>
      obtain ⟨hType, hKeys⟩ := hA
      rw [hType, hKeys] at hStep
      dsimp only at hStep ⊢
      cases hOk : completion.ok with
      | false =>
        rw [hOk] at hStep
        cases hStep
        -- nothing is locked for a failed lookup
        have hNone : lockKeys s.lockedKeys (confirmedKeys keys []) = s.lockedKeys := by
          rw [confirmedKeys, zip_nil_right]
          rfl
        refine ⟨hF.pending.erase rfl hErased rfl rfl fun _ _ => rfl, hF.recorded, ?_, fun k => ?_,
          hF.nonneg, hF.balance⟩
        · change Positive (lockKeys s.lockedKeys (confirmedKeys keys []))
          rw [hNone]
          exact hF.positive
        · change ((lockKeys s.lockedKeys (confirmedKeys keys [])).get? k).getD 0 + _ = _
          rw [hNone]
          exact hF.locks k
      | true =>
        rw [hOk] at hStep
        cases hStep
        let found := confirmedKeys keys (completion.resultBools.getD [])
        obtain ⟨hPositive, hCount⟩ := lockKeys_spec hF.positive found
        refine ⟨hF.pending.erase rfl hErased rfl rfl fun _ _ => rfl, hF.recorded, hPositive,
          fun k => ?_, hF.nonneg, hF.balance⟩
        have hLocks := hF.locks k
        rw [lockCount] at hLocks
        change ((lockKeys s.lockedKeys found).get? k).getD 0 + (h.unlocks.count k : Int) =
          ((h.hits ++ found).count k : Nat) + (h.surplus.count k : Int)
        rw [count_append]
        have hK := hCount k
        push_cast
        omega
    | load keys =>
      rw [show op.opType = .load from hA] at hStep
      cases hStep
      exact ⟨hF.pending.erase rfl hErased rfl rfl fun _ _ => rfl, hF.recorded, hF.positive,
        hF.locks, hF.nonneg, hF.balance⟩
    | delete keys =>
      obtain ⟨hType, hKeys⟩ := hA
      rw [hType, hKeys] at hStep
      cases hStep
      exact ⟨hF.pending.erase rfl hErased rfl rfl fun _ _ => rfl, recorded_deleted hF.recorded _,
        hF.positive, hF.locks, hF.nonneg, fun c => balance_deleted (hF.balance c) _⟩

theorem Follows.completeAll {round : Round} {completions : List Completion}
    (hF : Follows h s round.stored round.deleted)
    (hStep : completeAll s round completions = some (t, round')) :
    Follows (completions.foldl History.answer h) t round'.stored round'.deleted := by
  induction completions generalizing h s round with
  | nil =>
    cases hStep
    exact hF
  | cons completion rest ih =>
    rw [NativeConnectorL2Adapter.completeAll] at hStep
    split at hStep
    · cases hStep
    · rename_i u round'' hFirst
      exact ih (hF.complete hFirst) hStep

end Completions

def Reported (s : NativeConnectorL2Adapter) : Prop :=
  s.demux.stored = [] ∧ s.demux.deleted = []

section Steps

variable {h : History} {s t : NativeConnectorL2Adapter}

theorem Follows.congr {stored deleted : List (ObjectKey × Nat)} (hF : Follows h s stored deleted)
    (hNext : t.nextTaskId = s.nextTaskId) (hOps : t.pendingOps = s.pendingOps)
    (hSizes : t.pendingStoreSizes = s.pendingStoreSizes) (hKeys : t.keySizes = s.keySizes)
    (hLocks : t.lockedKeys = s.lockedKeys) (hUsage : t.usage = s.usage) :
    Follows h t stored deleted where
  pending := hF.pending.congr rfl (fun _ => rfl) hNext hOps hSizes
  recorded k := by
    rw [hKeys]
    exact hF.recorded k
  positive := hLocks ▸ hF.positive
  locks k := by
    rw [lockCount, hLocks]
    exact hF.locks k
  nonneg := hUsage ▸ hF.nonneg
  balance c := by
    rw [hUsage, hKeys]
    exact hF.balance c

theorem Follows.register {stored deleted : List (ObjectKey × Nat)} {futureId : Nat}
    {request : Request} {op : PendingOp} (hF : Follows h s stored deleted)
    (hNext : t.nextTaskId = s.nextTaskId + 1)
    (hOps : t.pendingOps = s.pendingOps.set futureId op) (hTask : op.taskId = s.nextTaskId)
    (hA : t.Answers futureId op request)
    (hSizes : ∀ i, futureId ≠ i → t.pendingStoreSizes.get? i = s.pendingStoreSizes.get? i)
    (hKeys : t.keySizes = s.keySizes) (hLocks : t.lockedKeys = s.lockedKeys)
    (hUsage : t.usage = s.usage) : Follows (h.submit futureId request) t stored deleted where
  pending := hF.pending.register rfl hNext hOps hTask hA hSizes
  recorded k := by
    rw [hKeys]
    exact hF.recorded k
  positive := hLocks ▸ hF.positive
  locks k := by
    rw [lockCount, hLocks]
    exact hF.locks k
  nonneg := hUsage ▸ hF.nonneg
  balance c := by
    rw [hUsage, hKeys]
    exact hF.balance c

theorem Follows.unlock {stored deleted : List (ObjectKey × Nat)} (hF : Follows h s stored deleted)
    (key : ObjectKey) :
    Follows (h.unlock key) { s with lockedKeys := unlockKey s.lockedKeys key } stored deleted := by
  obtain ⟨hPositive, hCount⟩ := unlockKey_spec hF.positive key
  refine ⟨hF.pending.congr rfl (fun _ => rfl) rfl rfl rfl, hF.recorded, hPositive, fun k => ?_,
    hF.nonneg, hF.balance⟩
  have hK := hCount k
  have hLocks := hF.locks k
  rw [lockCount] at hLocks ⊢
  dsimp only
  rw [hK, History.unlock]
  dsimp only
  rw [count_cons]
  by_cases hEq : key = k
  · subst hEq
    by_cases hFree : h.hits.count key + h.surplus.count key ≤ h.unlocks.count key
    · rw [if_pos hFree, count_cons, if_neg fun hBoth => ?_]
      · simp
        omega
      · have hLt := hBoth.2
        omega
    · rw [if_neg hFree, if_pos ⟨rfl, by omega⟩]
      simp
      omega
  · have hOther : (if h.hits.count key + h.surplus.count key ≤ h.unlocks.count key then
        key :: h.surplus else h.surplus).count k = h.surplus.count k := by
      split
      · rw [count_cons_of_ne hEq]
      · rfl
    rw [hOther, if_neg fun hBoth => hEq hBoth.1]
    simp [hEq]
    omega

theorem Follows.submitUnlock {stored deleted : List (ObjectKey × Nat)}
    (hF : Follows h s stored deleted) (keys : List ObjectKey) :
    Follows (keys.foldl History.unlock h) (s.submitUnlock keys) stored deleted := by
  induction keys generalizing h s with
  | nil => exact hF
  | cons key rest ih => exact ih (hF.unlock key)

theorem Follows.report (hF : Follows h s s.demux.stored s.demux.deleted)
    (hStep : s.report = some t) : Follows h t t.demux.stored t.demux.deleted := by
  unfold NativeConnectorL2Adapter.report at hStep
  split at hStep
  · cases hStep
  · rename_i round hDemux
    cases hStep
    rw [hDemux] at hF
    refine ⟨hF.pending.congr rfl (fun _ => rfl) rfl rfl rfl, hF.recorded, hF.positive, hF.locks,
      hF.nonneg.reportStored _, fun c => ?_⟩
    change UsageTracking.read _ c + ((0 : Nat) : Int) = _
    rw [read_reportStored, Nat.cast_zero, Int.add_zero]
    exact hF.balance c
  · rename_i round hDemux
    cases hStep
    rw [hDemux] at hF
    have hBalance : ∀ c, s.usage.read c =
        s.keySizes.tally (countedSize c) + charged c round.deleted := fun c =>
      (Int.add_zero _).symm.trans (hF.balance c)
    -- what was deleted was counted, so nothing is clamped
    have hCovers : s.usage.Covers round.deleted := by
      refine ⟨?_, fun charge _ => ?_⟩
      · rw [hBalance]
        omega
      · rw [hBalance]
        omega
    refine ⟨hF.pending.congr rfl (fun _ => rfl) rfl rfl rfl, hF.recorded, hF.positive, hF.locks,
      hF.nonneg.reportDeleted _, fun c => ?_⟩
    change UsageTracking.read _ c + ((0 : Nat) : Int) =
      (s.keySizes.tally (countedSize c) : Int) + ((0 : Nat) : Int)
    rw [read_reportDeleted_of_covers hF.nonneg hCovers, hBalance]
    omega
  · rename_i round hDemux
    cases hStep
    rw [hDemux] at hF
    exact hF.congr rfl rfl rfl rfl rfl rfl

theorem Follows.step (hF : Follows h s s.demux.stored s.demux.deleted) {event : ConnectorEvent}
    (hStep : s.Step event t) : Follows (h.observe event) t t.demux.stored t.demux.deleted := by
  cases event with
  | submitStoreTask futureId items =>
    cases hStep
    exact hF.register rfl rfl rfl ⟨rfl, items, get?_set_self _ _ _, rfl⟩
      (fun i hNe => get?_set_ne _ hNe _) rfl rfl rfl
  | submitLookupAndLockTask futureId keys =>
    cases hStep
    exact hF.register rfl rfl rfl ⟨rfl, rfl⟩ (fun _ _ => rfl) rfl rfl rfl
  | submitLoadTask futureId keys =>
    cases hStep
    exact hF.register rfl rfl rfl rfl (fun _ _ => rfl) rfl rfl rfl
  | delete futureId keys =>
    have hStep : s.delete futureId keys = some t := hStep
    unfold NativeConnectorL2Adapter.delete at hStep
    split at hStep
    · cases hStep
    · cases hStep
      exact hF.register rfl rfl rfl ⟨rfl, rfl⟩ (fun _ _ => rfl) rfl rfl rfl
  | timeOut taskId =>
    have hStep : s.timeOut taskId = some t := hStep
    have hPending := hF.pending.timeOut hStep
    unfold NativeConnectorL2Adapter.timeOut at hStep
    split at hStep
    · cases hStep
    · cases hStep
      exact ⟨hPending, hF.recorded, hF.positive, hF.locks, hF.nonneg, hF.balance⟩
  | submitUnlock keys =>
    cases hStep
    exact hF.submitUnlock keys
  | popCompletedStoreTasks | queryLookupAndLockResult taskId | queryLoadResult taskId =>
    cases hStep
    exact hF.congr rfl rfl rfl rfl rfl rfl
  | drain completions =>
    have hStep : s.drain completions = some t := hStep
    unfold NativeConnectorL2Adapter.drain at hStep
    split at hStep
    · rename_i hDemux
      obtain ⟨⟨u, round⟩, hAll, rfl⟩ := map_eq_some_iff.mp hStep
      rw [hDemux] at hF
      have hRound : Follows (completions.foldl History.answer h) u round.stored round.deleted := by
        refine Follows.completeAll ?_ hAll
        exact hF
      exact hRound.congr rfl rfl rfl rfl rfl rfl
    · cases hStep
  | report => exact hF.report hStep

end Steps

/-- In every run: with every round reported, the counters are the recorded sizes; a key is
recorded exactly if the last confirmation of it, to a request that was not given up, is of a
store; a key is locked as often as it was found, less the unlocks that found it locked; and no
lock count and no counter is negative. -/
theorem native_adapter_accounting (maxCapacityBytes : Int) (hasDelete : Bool)
    (events : List ConnectorEvent) (t : NativeConnectorL2Adapter)
    (hRun : Run Step (start maxCapacityBytes hasDelete) events t) :
    (t.Reported → ∀ c, t.usage.getUsage.read c = t.keySizes.tally (countedSize c)) ∧
    (∀ k, t.keySizes.contains k = true ↔
      (History.ofEvents events).confirmed.get? k = some .stored) ∧
    (∀ k, t.lockCount k = (History.ofEvents events).hits.count k -
      ((History.ofEvents events).unlocks.count k - (History.ofEvents events).surplus.count k)) ∧
    (∀ k, 0 ≤ t.lockCount k) ∧ ∀ c, 0 ≤ t.usage.getUsage.read c := by
  have hStart : Follows {} (start maxCapacityBytes hasDelete) [] [] := by
    refine ⟨⟨rfl, fun _ _ => rfl, nofun, nofun, nofun⟩, fun k => ?_, nofun, fun _ => rfl,
      nonneg_new _, fun c => ?_⟩
    · exact ⟨nofun, nofun⟩
    · rw [start, read_new]
      rfl
  have hF : Follows (History.ofEvents events) t t.demux.stored t.demux.deleted := by
    refine Run.observed (J := fun h s => Follows h s s.demux.stored s.demux.deleted) ?_ hRun hStart
    exact fun _ _ _ _ hInv hStep => hInv.step hStep
  refine ⟨fun hReported c => ?_, hF.recorded, fun k => ?_, hF.positive.getD_nonneg, fun c => ?_⟩
  · have hBalance := hF.balance c
    rw [hReported.1, hReported.2] at hBalance
    rw [read_getUsage hF.nonneg]
    simpa [charged, Dict.weightOf] using hBalance
  · have hLocks := hF.locks k
    omega
  · rw [read_getUsage hF.nonneg]
    exact hF.nonneg c

section Sample

def sampledKey : ObjectKey where
  chunkHash := [0xab]
  modelName := [.plain 'm']
  kvRank := 0
  objectGroupId := 1
  cacheSalt := [.plain 't']
  modelName_plain := by decide
  cacheSalt_plain := by decide
  cacheSalt_length := by decide

def storeRun : List ConnectorEvent := [.submitStoreTask 1 [(sampledKey, 10)],
  .drain [⟨1, true, none⟩], .report, .report, .report]

def lookupRun : List ConnectorEvent := [.submitLookupAndLockTask 2 [sampledKey],
  .drain [⟨2, true, some [true]⟩], .report, .report, .report]

theorem native_adapter_accounting_sample : ∃ t,
    Run Step (start 0 true) (storeRun ++ lookupRun) t ∧
      t.usage.getUsage.read .total = t.keySizes.tally (countedSize .total) ∧
      t.lockCount sampledKey = 1 := by
  refine ⟨_, Run.of_exec next rfl, ?_, rfl⟩
  exact (native_adapter_accounting 0 true (storeRun ++ lookupRun) _ (Run.of_exec next rfl)).1
    ⟨rfl, rfl⟩ .total

/-- An unlock that finds no lock takes none off; a deletion that is confirmed after its time-out
leaves the key recorded; a locked key is deleted; and a round is not counted before it is
reported. -/
theorem native_adapter_departs :
    (∃ t, Run Step (start 0 true) [.submitUnlock [sampledKey]] t ∧
      t.lockCount sampledKey ≠ (0 : Nat) - (1 : Nat)) ∧
    (∃ t, Run Step (start 0 true) (storeRun ++
        [.delete 2 [sampledKey], .timeOut 1, .drain [⟨2, true, some [true]⟩]]) t ∧
      t.keySizes.contains sampledKey = true) ∧
    (∃ t, Run Step (start 0 true) (storeRun ++ lookupRun ++
        [.delete 3 [sampledKey], .drain [⟨3, true, some [true]⟩]]) t ∧
      t.lockCount sampledKey = 1 ∧ t.keySizes.contains sampledKey = false) ∧
    ∃ t, Run Step (start 0 true) (storeRun.take 2) t ∧
      t.usage.getUsage.read .total ≠ t.keySizes.tally (countedSize .total) := by
  refine ⟨⟨_, Run.of_exec next rfl, ?_⟩, ⟨_, Run.of_exec next rfl, rfl⟩,
    ⟨_, Run.of_exec next rfl, rfl, rfl⟩, _, Run.of_exec next rfl, ?_⟩
  · rw [show lockCount _ sampledKey = 0 from rfl]
    decide
  · rw [show (AdapterUsage.read _ .total : Int) = 0 from rfl,
      show Dict.tally _ _ = 10 from rfl]
    decide

end Sample

end NativeConnectorL2Adapter

end LMCache.L2
