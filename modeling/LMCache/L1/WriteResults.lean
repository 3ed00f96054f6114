import LMCache.L1.WriterTickets
import LMCache.L1.Accounting
import LMCache.Lib.Visits

/-!
# Write reservations over any list of keys

`reserve_write` writes its results in two places: the first loop decides the keys that have an
object, and what follows the allocation those that have none. `writeResults` lists all the
assignments in order. A key with an object is visited as often as it is named; one without gets a
new object each time, and the table and the reply both keep the last.
-/

namespace LMCache

open Lib Dict List

theorem TTLLock.lock_isLocked_iff {l : TTLLock} {now : Nat} :
    (l.lock now).isLocked now = true ↔ 0 < l.ttlMs := by
  have hPos := TTLLock.lock_counter_pos l now
  rw [TTLLock.isLocked_iff, TTLLock.lock_expirationMs]
  omega

theorem L1ObjectState.availableForWrite_lock {e : L1ObjectState} {now : Nat}
  (h : e.availableForWrite now = true) (hTtl : e.writeLock.ttlMs = 0) :
    ({ e with writeLock := e.writeLock.lock now } : L1ObjectState).availableForWrite now =
      true := by
  have hLock : (e.writeLock.lock now).isLocked now = false := by
    rw [← Bool.not_eq_true, TTLLock.lock_isLocked_iff, hTtl]
    exact Nat.lt_irrefl 0
  simp only [L1ObjectState.availableForWrite, Bool.and_eq_true, Bool.not_eq_true'] at h ⊢
  exact ⟨⟨hLock, h.1.2⟩, h.2⟩

namespace L1Manager

variable {K : Type} [DecidableEq K]

def flaggedKeys (keys : List K) (isTemporary : List Bool) : List K :=
  (keys.zip isTemporary).map Prod.fst

/-- The call grants `k` when it first comes to it. -/
def grants (m : L1Manager K) (mode : WriteMode) (outcome : AllocOutcome) (k : K) : Bool :=
  match m.objects.get? k with
  | none => decide (mode ≠ .update) && decide (outcome = .success)
  | some e => decide (mode ≠ .new) && e.availableForWrite m.nowMs

def allocation (m : L1Manager K) (needed : List (K × Bool)) : List ((K × Bool) × MemoryObj) :=
  needed.zip (List.range' m.memory.allocated needed.length)

def missingResults (m : L1Manager K) (needed : List (K × Bool)) (mode : WriteMode)
    (outcome : AllocOutcome) : List (K × L1OperationResult) :=
  if mode = .update then needed.map fun a => (a.1, (.keyNotWritable, none))
  else if outcome = .success then
    (m.allocation needed).map fun a => (a.1.1, (.success, some a.2))
  else needed.map fun a => (a.1, (.outOfMemory, none))

/-- The assignments to `ret` of the call, in order. -/
def writeResults (m : L1Manager K) (pairs : List (K × Bool)) (mode : WriteMode)
    (outcome : AllocOutcome) : List (K × L1OperationResult) :=
  decidedWrites (updateEach (probeWriteKey mode m.nowMs) (pairs.map Prod.fst) m.objects).1 ++
    m.missingResults (m.missing pairs) mode outcome

/-- The call returns before it tells anybody. -/
def returnsEarly (m : L1Manager K) (pairs : List (K × Bool)) (mode : WriteMode) : Bool :=
  (m.missing pairs).isEmpty || decide (mode = .update)

section Call

variable (m : L1Manager K) (keys : List K) (isTemporary : List Bool) (mode : WriteMode)
  (outcome : AllocOutcome)

omit [DecidableEq K] in
theorem successfulKeys_append_refused {err : L1Error} (hErr : err ≠ .success)
    (decided : List (K × L1OperationResult)) (needed : List (K × Bool)) :
    successfulKeys Prod.fst (decided ++ needed.map fun a => (a.1, (err, none))) =
      successfulKeys Prod.fst decided := by
  have hNone : (needed.map fun a => (a.1, ((err, none) : L1OperationResult))).filter
      (fun o => decide (o.2.1 = .success)) = [] := by
    apply filter_eq_nil_iff.mpr
    intro o ho
    obtain ⟨a, -, rfl⟩ := mem_map.mp ho
    simpa using hErr
  rw [successfulKeys, filter_append, hNone, append_nil]
  rfl

/-- The memory after the call: the allocation list is allocated, or a part of it that is given
back at once. -/
def writtenMemory : L1MemoryManager :=
  if m.returnsEarly (keys.zip isTemporary) mode then m.memory
  else match outcome with
    | .success =>
      { m.memory with
        allocated := m.memory.allocated + (m.missing (keys.zip isTemporary)).length }
    | .outOfMemory n =>
      { m.memory with
        allocated := m.memory.allocated + n
        freed := m.memory.freed ++ List.range' m.memory.allocated n }

def entered : List ((K × Bool) × MemoryObj) :=
  if mode ≠ .update ∧ outcome = .success then m.allocation (m.missing (keys.zip isTemporary))
  else []

def writtenObjects : Dict K L1ObjectState :=
  (m.entered keys isTemporary mode outcome).foldl
    (fun d a => d.set a.1.1 (m.reservedState a.2 a.1.2))
    (updateEach (probeWriteKey mode m.nowMs) (flaggedKeys keys isTemporary) m.objects).2

theorem reserveWrite_eq : m.reserveWrite keys isTemporary mode outcome =
    { reply := ofList (m.writeResults (keys.zip isTemporary) mode outcome)
      events :=
        if m.returnsEarly (keys.zip isTemporary) mode then []
        else [.reservedWrite
          (successfulKeys Prod.fst (m.writeResults (keys.zip isTemporary) mode outcome))]
      manager :=
        { m with
          objects := m.writtenObjects keys isTemporary mode outcome
          memory := m.writtenMemory keys isTemporary mode outcome } } := by
  simp only [writtenObjects, entered, writtenMemory, flaggedKeys]
  cases hNeeded : m.missing (keys.zip isTemporary) with
  | nil =>
    simp only [reserveWrite, needToAllocate_eq, writeResults, missingResults, returnsEarly,
      allocation, hNeeded, isEmpty_nil, Bool.true_or, if_true, length_nil,
      zip_nil_left, map_nil, ite_self, append_nil, foldl_nil]
  | cons a needed =>
    simp only [reserveWrite, needToAllocate_eq, writeResults, missingResults, returnsEarly, hNeeded]
    rw [if_neg (by simp)]
    by_cases hMode : mode = .update
    · have hNot : ¬(mode ≠ .update ∧ outcome = .success) := fun h => h.1 hMode
      have hEarly : ((a :: needed).isEmpty || decide (mode = .update)) = true := by
        simpa using hMode
      rw [if_pos hMode, if_neg hNot, hEarly, if_pos hMode]
      rfl
    · have hLater : ((a :: needed).isEmpty || decide (mode = .update)) = false := by
        simpa using hMode
      rw [if_neg hMode, hLater, if_neg hMode]
      cases outcome with
      | success =>
        rw [if_pos (c := mode ≠ .update ∧ AllocOutcome.success = .success) ⟨hMode, rfl⟩]
        rfl
      | outOfMemory n =>
        have hNot : ¬(mode ≠ .update ∧ AllocOutcome.outOfMemory n = .success) :=
          fun h => AllocOutcome.noConfusion h.2
        rw [if_neg hNot,
          if_neg (c := AllocOutcome.outOfMemory n = .success) AllocOutcome.noConfusion,
          successfulKeys_append_refused L1Error.noConfusion]
        rfl

theorem reserveWrite_reply : (m.reserveWrite keys isTemporary mode outcome).reply =
    ofList (m.writeResults (keys.zip isTemporary) mode outcome) := by
  rw [reserveWrite_eq]

theorem reserveWrite_objects : (m.reserveWrite keys isTemporary mode outcome).manager.objects =
    m.writtenObjects keys isTemporary mode outcome := by
  rw [reserveWrite_eq]

theorem reserveWrite_memory : (m.reserveWrite keys isTemporary mode outcome).manager.memory =
    m.writtenMemory keys isTemporary mode outcome := by
  rw [reserveWrite_eq]

end Call

section Existing

variable {m : L1Manager K} {keys : List K} {isTemporary : List Bool} {mode : WriteMode}
  {outcome : AllocOutcome} {k : K} {e : L1ObjectState}

theorem filed_decidedWrites (outcomes : List (K × Option L1OperationResult)) (k : K) :
    filed k (decidedWrites outcomes) = (filed k outcomes).filterMap id :=
  filed_filterMap k outcomes

variable {needed : List (K × Bool)}

theorem filter_allocation_eq_nil (hk : k ∉ needed.map Prod.fst) :
    (m.allocation needed).filter (fun a => decide (a.1.1 = k)) = [] := by
  apply filter_eq_nil_iff.mpr
  intro a ha hEq
  exact hk (of_decide_eq_true hEq ▸ mem_map_of_mem (of_mem_zip ha).1)

theorem filed_missingResults_of_not_mem (hk : k ∉ needed.map Prod.fst) :
    filed k (m.missingResults needed mode outcome) = [] := by
  have hRefused : ∀ r : L1OperationResult, filed k (needed.map fun a => (a.1, r)) = [] := by
    intro r
    apply filed_eq_nil_iff.mpr
    rwa [map_map]
  unfold missingResults
  split
  · exact hRefused _
  · split
    · rw [filed_map, filter_allocation_eq_nil hk, map_nil]
    · exact hRefused _

theorem not_mem_missing (he : m.objects.get? k = some e) (pairs : List (K × Bool)) :
    k ∉ (m.missing pairs).map Prod.fst := by
  intro h
  rw [(mem_missing_keys_iff.mp h).1] at he
  cases he

theorem filed_writeResults_existing (he : m.objects.get? k = some e) :
    filed k (m.writeResults (keys.zip isTemporary) mode outcome) =
      (visits (probeWriteKey mode m.nowMs k) ((flaggedKeys keys isTemporary).count k)
        (some e)).1.filterMap id := by
  rw [writeResults, filed_append, filed_decidedWrites, filed_updateEach,
    filed_missingResults_of_not_mem (not_mem_missing he _), append_nil, he]
  rfl

theorem get?_foldl_set_allocation (allocated : List ((K × Bool) × MemoryObj))
    (d : Dict K L1ObjectState) (k : K) :
    (allocated.foldl (fun d a => d.set a.1.1 (m.reservedState a.2 a.1.2)) d).get? k =
      (((allocated.filter fun a => a.1.1 = k).getLast?).map
        fun a => m.reservedState a.2 a.1.2).or (d.get? k) := by
  rw [← foldl_map (f := fun a : (K × Bool) × MemoryObj =>
    (a.1.1, m.reservedState a.2 a.1.2))
    (g := fun (d : Dict K L1ObjectState) e => d.set e.1 e.2), get?_foldl_set_filed,
    filed_map, getLast?_map]

theorem get?_reserveWrite_existing (he : m.objects.get? k = some e) :
    (m.reserveWrite keys isTemporary mode outcome).manager.objects.get? k =
      (visits (probeWriteKey mode m.nowMs k) ((flaggedKeys keys isTemporary).count k)
        (some e)).2 := by
  rw [reserveWrite_objects, writtenObjects, entered, get?_foldl_set_allocation,
    get?_updateEach_visits, he]
  split
  · rw [filter_allocation_eq_nil (not_mem_missing he _)]
    rfl
  · rfl

omit [DecidableEq K] in
theorem probeWriteKey_refused (h : ¬(mode ≠ .new ∧ e.availableForWrite m.nowMs = true)) (k : K) :
    probeWriteKey mode m.nowMs k (some e) = (some (.keyNotWritable, none), some e) := by
  unfold probeWriteKey
  by_cases hMode : mode = .new
  · simp [hMode]
  · have hNot : e.availableForWrite m.nowMs = false := by simpa [hMode] using h
    simp [hMode, hNot]

omit [DecidableEq K] in
theorem probeWriteKey_granted (hMode : mode ≠ .new) (h : e.availableForWrite m.nowMs = true)
    (k : K) : probeWriteKey mode m.nowMs k (some e) =
      (some (.success, some e.memoryObj),
        some { e with writeLock := e.writeLock.lock m.nowMs }) := by
  simp [probeWriteKey, hMode, h]

omit [DecidableEq K] in
theorem visits_granted (hMode : mode ≠ .new) (h : e.availableForWrite m.nowMs = true)
    (hTtl : 0 < e.writeLock.ttlMs) (k : K) (n : Nat) :
    visits (probeWriteKey mode m.nowMs k) (n + 1) (some e) =
      (some (.success, some e.memoryObj) :: List.replicate n (some (.keyNotWritable, none)),
        some { e with writeLock := e.writeLock.lock m.nowMs }) := by
  have hLocked :
      ({ e with writeLock := e.writeLock.lock m.nowMs } : L1ObjectState).availableForWrite
      m.nowMs = false := by
    simp [L1ObjectState.availableForWrite, TTLLock.lock_isLocked_iff.mpr hTtl]
  have hNot : ¬(mode ≠ .new ∧ ({ e with writeLock := e.writeLock.lock m.nowMs } :
      L1ObjectState).availableForWrite m.nowMs = true) := fun hAvailable =>
    Bool.noConfusion (hLocked.symm.trans hAvailable.2)
  have hRefused := probeWriteKey_refused hNot k
  rw [visits, probeWriteKey_granted hMode h, visits_of_kept (by rw [hRefused]), hRefused]

omit [DecidableEq K] in
theorem visits_granted_expired (hMode : mode ≠ .new) (h : e.availableForWrite m.nowMs = true)
    (hTtl : e.writeLock.ttlMs = 0) (k : K) (n : Nat) :
    ∃ e', visits (probeWriteKey mode m.nowMs k) n (some e) =
        (List.replicate n (some (.success, some e.memoryObj)), some e') ∧
      e'.memoryObj = e.memoryObj ∧ e'.availableForWrite m.nowMs = true := by
  induction n generalizing e with
  | zero => exact ⟨e, rfl, rfl, h⟩
  | succ n ih =>
    obtain ⟨e', hVisits, hObj, hAvailable⟩ :=
      ih (e := { e with writeLock := e.writeLock.lock m.nowMs })
        (L1ObjectState.availableForWrite_lock h hTtl) ((TTLLock.lock_ttlMs _ _).trans hTtl)
    refine ⟨e', ?_, hObj, hAvailable⟩
    rw [visits, probeWriteKey_granted hMode h, hVisits, replicate_succ]

end Existing

section Missing

variable {m : L1Manager K} {keys : List K} {isTemporary : List Bool} {mode : WriteMode}
  {outcome : AllocOutcome} {k : K}

omit [DecidableEq K] in
theorem mem_allocation_iff {needed : List (K × Bool)} {a : (K × Bool) × MemoryObj} :
    a ∈ m.allocation needed ↔
      m.memory.allocated ≤ a.2 ∧ needed[a.2 - m.memory.allocated]? = some a.1 := by
  rw [allocation, ← zipIdx_eq_zip_range', mem_zipIdx_iff_le_and_getElem?_sub]

theorem grants_missing_iff (hNone : m.objects.get? k = none) :
    m.grants mode outcome k = true ↔ mode ≠ .update ∧ outcome = .success := by
  simp [grants, hNone]

theorem mem_missing_of_flagged (hNone : m.objects.get? k = none)
    (hk : k ∈ flaggedKeys keys isTemporary) :
    k ∈ (m.missing (keys.zip isTemporary)).map Prod.fst :=
  mem_missing_keys_iff.mpr ⟨hNone, hk⟩

theorem filed_writeResults_missing (hNone : m.objects.get? k = none) :
    filed k (m.writeResults (keys.zip isTemporary) mode outcome) =
      filed k (m.missingResults (m.missing (keys.zip isTemporary)) mode outcome) := by
  have hDecided : filed k (decidedWrites (updateEach (probeWriteKey mode m.nowMs)
      (flaggedKeys keys isTemporary) m.objects).1) = [] := by
    rw [filed_decidedWrites, filed_updateEach, hNone, visits_of_kept (by rfl)]
    apply filterMap_eq_nil_iff.mpr
    intro r hr
    exact (eq_of_mem_replicate hr).trans rfl
  rw [writeResults, filed_append]
  exact (congrArg (· ++ _) hDecided).trans (nil_append _)

theorem get?_probed_missing (hNone : m.objects.get? k = none) :
    (updateEach (probeWriteKey mode m.nowMs) (flaggedKeys keys isTemporary)
      m.objects).2.get? k = none := by
  apply updateEach_binding _ (P := fun o => o = none) _ _ hNone
  rintro o rfl
  rfl

theorem reserveWrite_entered (hNone : m.objects.get? k = none)
    (hk : k ∈ flaggedKeys keys isTemporary) (hGrants : m.grants mode outcome k = true) :
    ∃ a ∈ m.allocation (m.missing (keys.zip isTemporary)), a.1.1 = k ∧
      (m.reserveWrite keys isTemporary mode outcome).reply.get? k = some (.success, some a.2) ∧
      (m.reserveWrite keys isTemporary mode outcome).manager.objects.get? k =
        some (m.reservedState a.2 a.1.2) := by
  have hMode := (grants_missing_iff hNone).mp hGrants
  obtain ⟨p, hp, hpk⟩ := mem_map.mp (mem_missing_of_flagged hNone hk)
  obtain ⟨i, hi, hGet⟩ := getElem_of_mem hp
  -- the last of the objects allocated for `k`
  have hOne : ((p, m.memory.allocated + i) : (K × Bool) × MemoryObj) ∈
      (m.allocation (m.missing (keys.zip isTemporary))).filter fun a => decide (a.1.1 = k) := by
    apply mem_filter.mpr
    refine ⟨mem_allocation_iff.mpr ⟨Nat.le_add_right _ _, ?_⟩, decide_eq_true hpk⟩
    rw [Nat.add_sub_cancel_left, getElem?_eq_getElem hi, hGet]
  obtain ⟨a, ha⟩ := Option.ne_none_iff_exists'.mp (mt getLast?_eq_none_iff.mp (ne_nil_of_mem hOne))
  obtain ⟨hMem, hak⟩ := mem_filter.mp (mem_of_getLast? ha)
  refine ⟨a, hMem, of_decide_eq_true hak, ?_, ?_⟩
  · rw [reserveWrite_reply, get?_ofList_filed, filed_writeResults_missing hNone,
      missingResults, if_neg hMode.1, if_pos hMode.2, filed_map, getLast?_map, ha]
    rfl
  · rw [reserveWrite_objects, writtenObjects, entered, if_pos hMode, get?_foldl_set_allocation, ha]
    rfl

theorem reserveWrite_not_entered (hNone : m.objects.get? k = none)
    (h : k ∈ flaggedKeys keys isTemporary → m.grants mode outcome k = false) :
    (m.reserveWrite keys isTemporary mode outcome).manager.objects.get? k = none ∧
      ∀ r ∈ filed k (m.writeResults (keys.zip isTemporary) mode outcome), r.1 ≠ .success := by
  by_cases hk : k ∈ flaggedKeys keys isTemporary
  · have hNot : ¬(mode ≠ .update ∧ outcome = .success) := by
      rw [← grants_missing_iff hNone, h hk]
      exact Bool.false_ne_true
    constructor
    · rw [reserveWrite_objects, writtenObjects, entered, if_neg hNot]
      exact get?_probed_missing hNone
    · intro r hr
      rw [filed_writeResults_missing hNone, mem_filed_iff, missingResults] at hr
      split at hr
      · obtain ⟨a, -, hEq⟩ := mem_map.mp hr
        cases hEq
        exact L1Error.noConfusion
      · rename_i hMode
        rw [if_neg (fun hOutcome => hNot ⟨hMode, hOutcome⟩)] at hr
        obtain ⟨a, -, hEq⟩ := mem_map.mp hr
        cases hEq
        exact L1Error.noConfusion
  · have hNotMissing : k ∉ (m.missing (keys.zip isTemporary)).map Prod.fst :=
      fun hMem => hk (mem_missing_keys_iff.mp hMem).2
    constructor
    · rw [reserveWrite_objects, writtenObjects, entered, get?_foldl_set_allocation,
        get?_probed_missing hNone]
      split
      · rw [filter_allocation_eq_nil hNotMissing]
        rfl
      · rfl
    · intro r hr
      rw [filed_writeResults_missing hNone, filed_missingResults_of_not_mem hNotMissing] at hr
      cases hr

theorem filed_writeResults_of_not_flagged (hk : k ∉ flaggedKeys keys isTemporary) :
    filed k (m.writeResults (keys.zip isTemporary) mode outcome) = [] := by
  cases he : m.objects.get? k with
  | none =>
    rw [filed_writeResults_missing he,
      filed_missingResults_of_not_mem fun hMem => hk (mem_missing_keys_iff.mp hMem).2]
  | some e =>
    rw [filed_writeResults_existing he, count_eq_zero.mpr hk]
    rfl

end Missing

end L1Manager

end LMCache
