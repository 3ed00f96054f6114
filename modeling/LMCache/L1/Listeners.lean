import LMCache.L1.WriteEffects

/-!
# What the listeners are told

Every operation with a callback tells it the keys that its loop marked as successful, once for
each visit, while the reply keeps the last result of a key. The two agree exactly where a key
that succeeds at its first visit is visited once.

`reserve_write` returns before its notification when there is nothing to allocate and in
update mode. Nobody is told then, so such a call is complete only if no key ends as SUCCESS.
-/

namespace LMCache

open Lib List
open Dict hiding keys

namespace L1Op

variable {K : Type}

def callbackKeys : L1Op K → L1Event K → List K
  | .reserveRead _ _, .reservedRead keys => keys
  | .finishRead _ _, .readFinished keys => keys
  | .reserveWrite _ _ _ _, .reservedWrite keys => keys
  | .finishWrite _, .writeFinished keys => keys
  | .finishWriteAndReserveRead _ _, .finishWriteAndReserveRead keys => keys
  | .delete _ _, .deletedByManager keys => keys
  | .clear _, .deletedByManager keys => keys
  | .touchKeys _, .accessed keys => keys
  | _, _ => []

/-- `unsafe_read` and `close` have no callback. -/
def hasCallback : L1Op K → Bool
  | .unsafeRead _ | .close | .elapse _ => false
  | _ => true

end L1Op

namespace L1Manager

variable {K : Type} [DecidableEq K]

/-- How often the callback of a call names `k`. -/
def told (m : L1Manager K) (op : L1Op K) (k : K) : Nat :=
  ((m.apply op).events.flatMap op.callbackKeys).count k

/-- The call succeeded on `k`. Two operations return nothing: `touch_keys` refuses nobody, and
`clear` succeeds on the keys it removes. -/
def succeededOn (m : L1Manager K) (op : L1Op K) (k : K) : Bool :=
  match op, (m.apply op).reply with
  | .touchKeys keys, _ => decide (k ∈ keys)
  | .clear _, _ =>
    (m.objects.get? k).isSome && ((m.apply op).manager.objects.get? k).isNone
  | _, .results ret => succeeded ret k
  | _, .errors ret => decide (ret.get? k = some .success)
  | _, .unit => false

/-- The callback of the call names the keys that succeeded, once each. -/
def ListenersTold (m : L1Manager K) (op : L1Op K) : Prop :=
  op.hasCallback = true → ∀ k, m.told op k = if m.succeededOn op k then 1 else 0

def firstSucceeds (m : L1Manager K) (op : L1Op K) (k : K) : Bool :=
  match op with
  | .reserveRead _ _ => (m.objects.get? k).any fun e => e.availableForRead m.nowMs
  | .finishRead _ _ => (m.objects.get? k).any fun e =>
    !e.writeLock.isLocked m.nowMs && e.readLock.isLocked m.nowMs
  | .finishWrite _ | .finishWriteAndReserveRead _ _ => (m.objects.get? k).any fun e =>
    e.writeLock.isLocked m.nowMs && !e.readLock.isLocked m.nowMs
  | .delete _ force => (m.objects.get? k).any fun e => force || !e.isLocked m.nowMs
  | .touchKeys _ => true
  | _ => false

/-- Locking the object of `k` holds it for some time. -/
def writeLockHolds (m : L1Manager K) (k : K) : Bool :=
  (m.objects.get? k).any fun e => decide (0 < e.writeLock.ttlMs)

/-- The keys that a call grants are named once, or, where it tells nobody, so often that a
refusal is their last result. -/
def TellsOnce (m : L1Manager K) : L1Op K → Prop
  | .reserveWrite keys isTemporary mode outcome =>
    ∀ k ∈ flaggedKeys keys isTemporary, m.grants mode outcome k = true →
      if m.returnsEarly (keys.zip isTemporary) mode then
        2 ≤ (flaggedKeys keys isTemporary).count k ∧ m.writeLockHolds k = true
      else (flaggedKeys keys isTemporary).count k = 1
  | op => ∀ k ∈ op.keys, m.firstSucceeds op k = true → op.keys.count k = 1

variable {m : L1Manager K} {keys : List K} {k : K}

/-- A body that changes the entry only where it succeeds. -/
def RefusalKeeps {ρ : Type} (error : ρ → L1Error)
    (f : K → Option L1ObjectState → ρ × Option L1ObjectState) : Prop :=
  ∀ k o, error (f k o).1 ≠ .success → (f k o).2 = o

omit [DecidableEq K] in
theorem reserveReadKey_refusalKeeps (now total : Nat) :
    RefusalKeeps Prod.fst (reserveReadKey now total : K → _) := by
  intro k o h
  cases o with
  | none => rfl
  | some e =>
    simp only [reserveReadKey] at h ⊢
    split_ifs at h ⊢ <;> first | rfl | exact absurd rfl h

omit [DecidableEq K] in
theorem finishReadKey_refusalKeeps (now total : Nat) :
    RefusalKeeps Prod.fst (finishReadKey now total : K → _) := by
  intro k o h
  cases o with
  | none => rfl
  | some e =>
    simp only [finishReadKey] at h ⊢
    split_ifs at h ⊢ <;> first | rfl | exact absurd rfl h

omit [DecidableEq K] in
theorem finishWriteKey_refusalKeeps (now : Nat) : RefusalKeeps id (finishWriteKey now : K → _) := by
  intro k o h
  cases o with
  | none => rfl
  | some e =>
    simp only [finishWriteKey] at h ⊢
    split_ifs at h ⊢ <;> first | rfl | exact absurd rfl h

omit [DecidableEq K] in
theorem finishWriteAndReserveReadKey_refusalKeeps (now total : Nat) :
    RefusalKeeps Prod.fst (finishWriteAndReserveReadKey now total : K → _) := by
  intro k o h
  cases o with
  | none => rfl
  | some e =>
    simp only [finishWriteAndReserveReadKey] at h ⊢
    split_ifs at h ⊢ <;> first | rfl | exact absurd rfl h

omit [DecidableEq K] in
theorem deleteKey_refusalKeeps (force : Bool) (now : Nat) :
    RefusalKeeps Prod.fst (deleteKey force now : K → _) := by
  intro k o h
  cases o with
  | none => rfl
  | some e =>
    simp only [deleteKey] at h ⊢
    split_ifs at h ⊢ <;> first | rfl | exact absurd rfl h

section Loop

variable {ρ : Type} {error : ρ → L1Error}
  {f : K → Option L1ObjectState → ρ × Option L1ObjectState}

theorem count_successfulKeys (l : List (K × ρ)) (k : K) :
    (successfulKeys error l).count k =
      (Dict.filed k l).countP fun r => decide (error r = .success) :=
  count_map_filter (fun r => decide (error r = .success)) l k

/-- A loop tells of `k` once for its last result, exactly if a first visit that succeeds is
the only one. -/
theorem count_successfulKeys_iff (hf : RefusalKeeps error f) (d : Dict K L1ObjectState) (k : K) :
    (successfulKeys error (Dict.updateEach f keys d).1).count k =
        (if ((Dict.ofList (Dict.updateEach f keys d).1).get? k).any
          fun r => decide (error r = .success) then 1 else 0) ↔
      (decide (error (f k (d.get? k)).1 = .success) = true → keys.count k ≤ 1) := by
  rw [count_successfulKeys, get?_ofList_filed, filed_updateEach]
  apply countP_visits_iff
  intro o h
  exact hf k o (of_decide_eq_false h)

theorem errorsOf_get?_eq_success_iff (l : List (K × L1Error × Option MemoryObj)) (k : K) :
    decide ((errorsOf l).get? k = some .success) =
      ((Dict.ofList l).get? k).any fun r => decide (r.1 = .success) := by
  rw [errorsOf, get?_ofList_filed, get?_ofList_filed,
    filed_map_snd (fun r : L1Error × Option MemoryObj => r.1), getLast?_map]
  cases (Dict.filed k l).getLast? with
  | none => rfl
  | some r => simp

end Loop

theorem firstSucceeds_reserveRead (keys : List K) (readLocks total : Nat) (k : K) :
    m.firstSucceeds (.reserveRead keys readLocks) k =
      decide ((reserveReadKey m.nowMs total k (m.objects.get? k)).1.1 = .success) := by
  cases he : m.objects.get? k with
  | none => simp [firstSucceeds, he, reserveReadKey]
  | some e =>
    cases hAvailable : e.availableForRead m.nowMs <;>
      simp [firstSucceeds, he, reserveReadKey, hAvailable]

theorem firstSucceeds_finishRead (keys : List K) (readLocks total : Nat) (k : K) :
    m.firstSucceeds (.finishRead keys readLocks) k =
      decide ((finishReadKey m.nowMs total k (m.objects.get? k)).1.1 = .success) := by
  cases he : m.objects.get? k with
  | none => simp [firstSucceeds, he, finishReadKey]
  | some e =>
    cases hWrite : e.writeLock.isLocked m.nowMs <;> cases hRead : e.readLock.isLocked m.nowMs <;>
      simp [firstSucceeds, he, finishReadKey, hWrite, hRead]
    split <;> rfl

theorem firstSucceeds_finishWrite (keys : List K) (k : K) :
    m.firstSucceeds (.finishWrite keys) k =
      decide ((finishWriteKey m.nowMs k (m.objects.get? k)).1 = .success) := by
  cases he : m.objects.get? k with
  | none => simp [firstSucceeds, he, finishWriteKey]
  | some e =>
    cases hWrite : e.writeLock.isLocked m.nowMs <;> cases hRead : e.readLock.isLocked m.nowMs <;>
      simp [firstSucceeds, he, finishWriteKey, hWrite, hRead]

theorem firstSucceeds_finishWriteAndReserveRead (keys : List K) (readLocks total : Nat) (k : K) :
    m.firstSucceeds (.finishWriteAndReserveRead keys readLocks) k =
      decide ((finishWriteAndReserveReadKey m.nowMs total k (m.objects.get? k)).1.1 =
        .success) := by
  cases he : m.objects.get? k with
  | none => simp [firstSucceeds, he, finishWriteAndReserveReadKey]
  | some e =>
    cases hWrite : e.writeLock.isLocked m.nowMs <;> cases hRead : e.readLock.isLocked m.nowMs <;>
      simp [firstSucceeds, he, finishWriteAndReserveReadKey, hWrite, hRead]

theorem firstSucceeds_delete (keys : List K) (force : Bool) (k : K) :
    m.firstSucceeds (.delete keys force) k =
      decide ((deleteKey force m.nowMs k (m.objects.get? k)).1.1 = .success) := by
  cases he : m.objects.get? k with
  | none => simp [firstSucceeds, he, deleteKey]
  | some e =>
    cases hLocked : e.isLocked m.nowMs <;> cases force <;>
      simp [firstSucceeds, he, deleteKey, hLocked]

theorem forall_count_le_one_iff {p : K → Bool} :
    (∀ k, p k = true → keys.count k ≤ 1) ↔ ∀ k ∈ keys, p k = true → keys.count k = 1 := by
  constructor
  · intro h k hk hp
    have hPos := count_pos_iff.mpr hk
    have hLe := h k hp
    omega
  · intro h k hp
    by_cases hk : k ∈ keys
    · exact Nat.le_of_eq (h k hk hp)
    · rw [count_eq_zero.mpr hk]
      exact Nat.zero_le 1

section Writes

variable {isTemporary : List Bool} {mode : WriteMode} {outcome : AllocOutcome}

theorem grants_of_returnsEarly (hEarly : m.returnsEarly (keys.zip isTemporary) mode = true)
    (hk : k ∈ flaggedKeys keys isTemporary) (h : m.grants mode outcome k = true) :
    ∃ e, m.objects.get? k = some e := by
  cases he : m.objects.get? k with
  | some e => exact ⟨e, rfl⟩
  | none =>
    have hMode := ((grants_missing_iff he).mp h).1
    obtain ⟨p, hp, -⟩ := mem_map.mp (mem_missing_of_flagged he hk)
    simp only [returnsEarly, hMode, decide_false, Bool.or_false, List.isEmpty_iff] at hEarly
    rw [hEarly] at hp
    cases hp

theorem told_reserveWrite_early (hEarly : m.returnsEarly (keys.zip isTemporary) mode = true) :
    m.told (.reserveWrite keys isTemporary mode outcome) k = 0 := by
  simp [told, apply, L1Outcome.map, reserveWrite_eq, hEarly]

theorem told_reserveWrite (hLater : m.returnsEarly (keys.zip isTemporary) mode = false) :
    m.told (.reserveWrite keys isTemporary mode outcome) k =
      (Dict.filed k (m.writeResults (keys.zip isTemporary) mode outcome)).countP
        fun r => decide (r.1 = .success) := by
  rw [← count_successfulKeys]
  simp [told, apply, L1Outcome.map, reserveWrite_eq, hLater, L1Op.callbackKeys]

theorem told_early_iff (hEarly : m.returnsEarly (keys.zip isTemporary) mode = true) (k : K) :
    succeeded (m.reserveWrite keys isTemporary mode outcome).reply k = false ↔
      (k ∈ flaggedKeys keys isTemporary → m.grants mode outcome k = true →
        2 ≤ (flaggedKeys keys isTemporary).count k ∧ m.writeLockHolds k = true) := by
  cases hGrants : m.grants mode outcome k with
  | false =>
    have hFailed : succeeded (m.reserveWrite keys isTemporary mode outcome).reply k = false := by
      cases he : m.objects.get? k with
      | none =>
        rw [Bool.eq_false_iff, ne_eq, (lock_missing he).2, hGrants]
        exact fun h => Bool.noConfusion h.2
      | some e => exact succeeded_refused he hGrants
    simp [hFailed]
  | true =>
    by_cases hk : k ∈ flaggedKeys keys isTemporary
    · obtain ⟨e, he⟩ := grants_of_returnsEarly hEarly hk hGrants
      obtain ⟨n, hCount⟩ := Nat.exists_eq_add_one.mpr (count_pos_iff.mpr hk)
      have hSucceeded := succeeded_granted_iff he hGrants hCount
      have hHolds : m.writeLockHolds k = true ↔ 0 < e.writeLock.ttlMs := by
        simp [writeLockHolds, he]
      rw [Bool.eq_false_iff, ne_eq, hSucceeded, hHolds, hCount]
      simp only [hk, forall_const]
      omega
    · simp [succeeded_of_not_flagged, hk]

theorem filed_writeResults_entered (hNone : m.objects.get? k = none)
    (hGrants : m.grants mode outcome k = true) :
    (Dict.filed k (m.writeResults (keys.zip isTemporary) mode outcome)).countP
        (fun r => decide (r.1 = .success)) = (flaggedKeys keys isTemporary).count k := by
  obtain ⟨hMode, hOutcome⟩ := (grants_missing_iff hNone).mp hGrants
  have hKeys : (m.allocation (m.missing (keys.zip isTemporary))).map (fun a => a.1.1) =
      (m.missing (keys.zip isTemporary)).map Prod.fst := by
    rw [show (fun a : (K × Bool) × MemoryObj => a.1.1) = Prod.fst ∘ Prod.fst from rfl,
      ← map_map, allocation, map_fst_zip (by simp)]
  rw [filed_writeResults_missing hNone, missingResults, if_neg hMode, if_pos hOutcome,
    filed_map, countP_map, ← count_missing hNone, ← hKeys, List.count, countP_map,
    countP_filter]
  apply countP_congr
  intro a _
  simp

theorem told_later_iff (hLater : m.returnsEarly (keys.zip isTemporary) mode = false) (k : K) :
    m.told (.reserveWrite keys isTemporary mode outcome) k =
        (if succeeded (m.reserveWrite keys isTemporary mode outcome).reply k then 1 else 0) ↔
      (m.grants mode outcome k = true → (flaggedKeys keys isTemporary).count k ≤ 1) := by
  rw [told_reserveWrite hLater]
  by_cases hk : k ∈ flaggedKeys keys isTemporary
  · obtain ⟨n, hCount⟩ := Nat.exists_eq_add_one.mpr (count_pos_iff.mpr hk)
    cases hGrants : m.grants mode outcome k with
    | false =>
      cases he : m.objects.get? k with
      | none =>
        have hResults : ∀ r ∈ Dict.filed k (m.writeResults (keys.zip isTemporary) mode outcome),
            r.1 ≠ .success := (reserveWrite_not_entered he fun _ => hGrants).2
        have hNone : (Dict.filed k (m.writeResults (keys.zip isTemporary) mode outcome)).countP
            (fun r => decide (r.1 = .success)) = 0 := by
          apply countP_eq_zero.mpr
          intro r hr
          simpa using hResults r hr
        have hFailed : succeeded (m.reserveWrite keys isTemporary mode outcome).reply k =
            false := by
          rw [Bool.eq_false_iff, ne_eq, (lock_missing he).2, hGrants]
          exact fun h => Bool.noConfusion h.2
        simp [hNone, hFailed]
      | some e =>
        rw [succeeded_refused he hGrants, filed_writeResults_refused he hGrants, countP_replicate]
        simp
    | true =>
      cases he : m.objects.get? k with
      | none =>
        rw [filed_writeResults_entered he hGrants, (lock_missing he).2.mpr ⟨hk, hGrants⟩, hCount]
        simp
      | some e =>
        have hSucceeded := succeeded_granted_iff he hGrants hCount
        rw [filed_writeResults_granted he hGrants hCount, hCount]
        by_cases hTtl : 0 < e.writeLock.ttlMs
        · simp only [hTtl, forall_const] at hSucceeded
          simp only [if_pos hTtl, hSucceeded, countP_cons, countP_replicate]
          simp
        · simp only [hTtl, false_implies, iff_true] at hSucceeded
          simp only [if_neg hTtl, hSucceeded, countP_replicate]
          simp
  · rw [filed_writeResults_of_not_flagged hk, succeeded_of_not_flagged hk, count_eq_zero.mpr hk]
    simp

end Writes

theorem succeededOn_clear (cleared : L1ObjectState → Bool) (k : K) :
    ((m.objects.get? k).isSome && ((m.dropObjects cleared).objects.get? k).isNone) =
      decide (k ∈ (m.objects.filter fun _ e => cleared e).keys) := by
  rw [dropObjects]
  simp only [get?_filter]
  cases he : m.objects.get? k with
  | none =>
    have hNot : k ∉ (m.objects.filter fun _ e => cleared e).keys := by
      rw [← get?_eq_none_iff, get?_filter, he]
      rfl
    simp [hNot]
  | some e =>
    have hMem : k ∈ (m.objects.filter fun _ e => cleared e).keys ↔ cleared e = true := by
      rw [mem_keys_iff]
      simp [get?_filter, he, Option.filter_some]
    cases hCleared : cleared e <;> simp [hMem, hCleared, Option.filter_some]

theorem told_clear (force : Bool) (k : K) :
    m.told (.clear force) k = if m.succeededOn (.clear force) k then 1 else 0 := by
  cases force with
  | true =>
    have hAll : (m.objects.filter fun _ _ => true).keys = m.objects.keys := by
      simp [Dict.filter, Dict.keys]
    have hSucceeded : m.succeededOn (.clear true) k = decide (k ∈ m.objects.keys) :=
      (succeededOn_clear (fun _ => true) k).trans (by rw [hAll])
    have hTold : m.told (.clear true) k = m.objects.keys.count k := by
      simp [told, apply, L1Outcome.map, clear, L1Op.callbackKeys]
    rw [hTold, hSucceeded, m.objects.nodup_keys.count]
    simp
  | false =>
    have hSucceeded : m.succeededOn (.clear false) k =
        decide (k ∈ (m.objects.filter fun _ e => !e.isLocked m.nowMs).keys) :=
      succeededOn_clear (fun e => !e.isLocked m.nowMs) k
    have hTold : m.told (.clear false) k =
        (m.objects.filter fun _ e => !e.isLocked m.nowMs).keys.count k := by
      simp only [told, apply, L1Outcome.map, clear, Bool.false_eq_true, if_false]
      split
      · rename_i hEmpty
        rw [List.isEmpty_iff.mp hEmpty]
        rfl
      · simp [L1Op.callbackKeys]
    rw [hTold, hSucceeded, (m.objects.filter _).nodup_keys.count]
    simp

/-- A call whose callback is told of the successful visits of one loop. -/
theorem listenersTold_iff_of_loop {ρ : Type} {error : ρ → L1Error}
    {f : K → Option L1ObjectState → ρ × Option L1ObjectState} {op : L1Op K}
    (hf : RefusalKeeps error f) (hCallback : op.hasCallback = true)
    (hTold : ∀ k, m.told op k =
      (successfulKeys error (Dict.updateEach f op.keys m.objects).1).count k)
    (hSucceeded : ∀ k, m.succeededOn op k =
      ((Dict.ofList (Dict.updateEach f op.keys m.objects).1).get? k).any
        fun r => decide (error r = .success))
    (hFirst : ∀ k, m.firstSucceeds op k = decide (error (f k (m.objects.get? k)).1 = .success)) :
    m.ListenersTold op ↔ ∀ k ∈ op.keys, m.firstSucceeds op k = true → op.keys.count k = 1 := by
  rw [← forall_count_le_one_iff]
  unfold ListenersTold
  rw [hCallback]
  simp only [forall_const]
  apply forall_congr'
  intro k
  rw [hTold, hSucceeded, hFirst]
  exact count_successfulKeys_iff hf m.objects k

theorem listenersTold_reserveWrite_iff {isTemporary : List Bool} {mode : WriteMode}
    {outcome : AllocOutcome} :
    m.ListenersTold (.reserveWrite keys isTemporary mode outcome) ↔
      m.TellsOnce (.reserveWrite keys isTemporary mode outcome) := by
  have hUnfold : m.ListenersTold (.reserveWrite keys isTemporary mode outcome) ↔
      ∀ k, m.told (.reserveWrite keys isTemporary mode outcome) k =
        if succeeded (m.reserveWrite keys isTemporary mode outcome).reply k then 1 else 0 :=
    ⟨fun h => h rfl, fun h _ => h⟩
  rw [hUnfold]
  cases hEarly : m.returnsEarly (keys.zip isTemporary) mode with
  | true =>
    simp only [TellsOnce, hEarly, if_true]
    apply forall_congr'
    intro k
    rw [told_reserveWrite_early hEarly, ← told_early_iff hEarly k]
    cases succeeded (m.reserveWrite keys isTemporary mode outcome).reply k <;> simp
  | false =>
    simp only [TellsOnce, hEarly, Bool.false_eq_true, if_false]
    rw [← forall_count_le_one_iff]
    exact forall_congr' fun k => told_later_iff hEarly k

/-- The listeners of a call are told of the keys that succeeded, once each, exactly if the
call comes once to each key that it grants, or, where it returns early, if no key that it
grants ends as SUCCESS. -/
theorem listeners_told_iff (m : L1Manager K) (op : L1Op K) :
    m.ListenersTold op ↔ m.TellsOnce op := by
  cases op with
  | reserveRead keys readLocks =>
    refine listenersTold_iff_of_loop (reserveReadKey_refusalKeeps _ (validateReadLocks readLocks))
      rfl (fun k => ?_) (fun _ => rfl) (firstSucceeds_reserveRead keys readLocks _)
    simp [told, apply, L1Outcome.map, reserveRead, L1Op.callbackKeys, L1Op.keys]
  | finishRead keys readLocks =>
    refine listenersTold_iff_of_loop (finishReadKey_refusalKeeps _ (validateReadLocks readLocks))
      rfl (fun k => ?_) (errorsOf_get?_eq_success_iff _) (firstSucceeds_finishRead keys readLocks _)
    simp [told, apply, L1Outcome.map, finishRead, L1Op.callbackKeys, L1Op.keys]
  | finishWrite keys =>
    have hAny : ∀ r : Option L1Error, decide (r = some .success) =
        r.any fun e => decide (e = .success) := by
      rintro (_ | r) <;> simp
    refine listenersTold_iff_of_loop (finishWriteKey_refusalKeeps _) rfl (fun k => ?_)
      (fun _ => hAny _) (firstSucceeds_finishWrite keys)
    simp [told, apply, L1Outcome.map, finishWrite, L1Op.callbackKeys, L1Op.keys]
  | finishWriteAndReserveRead keys readLocks =>
    refine listenersTold_iff_of_loop
      (finishWriteAndReserveReadKey_refusalKeeps _ (validateReadLocks readLocks)) rfl (fun k => ?_)
      (fun _ => rfl) (firstSucceeds_finishWriteAndReserveRead keys readLocks _)
    simp [told, apply, L1Outcome.map, finishWriteAndReserveRead, L1Op.callbackKeys, L1Op.keys]
  | delete keys force =>
    refine listenersTold_iff_of_loop (deleteKey_refusalKeeps force _) rfl (fun k => ?_)
      (errorsOf_get?_eq_success_iff _) (firstSucceeds_delete keys force)
    simp [told, apply, L1Outcome.map, delete, L1Op.callbackKeys, L1Op.keys]
  | touchKeys keys =>
    have hTold : ∀ k, m.told (.touchKeys keys) k = keys.count k := fun k => by
      simp [told, apply, L1Outcome.map, touchKeys, L1Op.callbackKeys]
    constructor
    · intro h k hk _
      exact (hTold k).symm.trans ((h rfl k).trans (if_pos (decide_eq_true hk)))
    · intro h _ k
      rw [hTold]
      by_cases hk : k ∈ keys
      · exact (h k hk rfl).trans (if_pos (decide_eq_true hk)).symm
      · exact (count_eq_zero.mpr hk).trans (if_neg (by simpa [succeededOn] using hk)).symm
  | reserveWrite keys isTemporary mode outcome => exact listenersTold_reserveWrite_iff
  | clear force =>
    constructor
    · intro _ k hk
      cases hk
    · exact fun _ _ k => told_clear force k
  | unsafeRead keys =>
    constructor
    · intro _ k _ hFirst
      cases hFirst
    · intro _ hCallback
      cases hCallback
  | close | elapse ms =>
    constructor
    · intro _ k hk
      cases hk
    · intro _ hCallback
      cases hCallback

/-- Reserving a key that has an object tells nobody. -/
theorem rewrite_not_told : ∃ m, Run Step (new 600 300 0 : L1Manager Nat)
      [.reserveWrite [5] [false] .new .success, .finishWrite [5]] m ∧
    ¬m.ListenersTold (.reserveWrite [5] [false] .update .success) := by
  refine ⟨_, finished_run, ?_⟩
  intro h
  exact absurd (h rfl 5) (by decide)

end L1Manager

end LMCache
