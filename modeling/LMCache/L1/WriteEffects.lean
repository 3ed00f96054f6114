import LMCache.L1.AnyKeys

/-!
# What a write reservation says and what it does

Each result of a write reservation is right when a key that was not write-locked is locked now
exactly if the reply says SUCCESS, when the reply shows the object of the table, and when every
object that was allocated is in the table or freed. A key that is granted and named twice
breaks this: the second visit of a key with an object reports a refusal over the lock of the
first, and the second object of a key without one drops the first from the table. So does a
time to live of zero. In every other case the results are right.
-/

namespace LMCache

open Lib List Option Dict

namespace L1Manager

variable {K : Type} [DecidableEq K]

def isWriteLocked (m : L1Manager K) (k : K) : Bool :=
  (m.objects.get? k).any fun e => e.writeLock.isLocked m.nowMs

def succeeded (reply : Dict K L1OperationResult) (k : K) : Bool :=
  (reply.get? k).any fun r => r.1 = .success

structure WritesMatch (m : L1Manager K) (r : L1Outcome K (Dict K L1OperationResult)) : Prop where
  locked_iff : ∀ k, m.isWriteLocked k = false →
    (r.manager.isWriteLocked k = true ↔ succeeded r.reply k = true)
  object_held : ∀ k obj, r.reply.get? k = some (.success, obj) → obj.isSome ∧
    r.manager.heldBy k = obj
  accounted : ∀ obj : Nat, m.memory.allocated ≤ obj → obj < r.manager.memory.allocated →
    (∃ k, r.manager.heldBy k = some obj) ∨ obj ∈ r.manager.memory.freed

variable {m : L1Manager K} {keys : List K} {isTemporary : List Bool} {mode : WriteMode}
  {outcome : AllocOutcome} {k : K} {e : L1ObjectState}

theorem succeeded_ofList (l : List (K × L1OperationResult)) (k : K) :
    succeeded (Dict.ofList l) k = (Dict.filed k l).getLast?.any fun r => r.1 = .success := by
  rw [succeeded, get?_ofList_filed]

theorem grants_existing_iff (he : m.objects.get? k = some e) :
    m.grants mode outcome k = true ↔ mode ≠ .new ∧ e.availableForWrite m.nowMs = true := by
  simp [grants, he]

theorem nowMs_reserveWrite :
    (m.reserveWrite keys isTemporary mode outcome).manager.nowMs = m.nowMs := by
  rw [reserveWrite_eq]

theorem isWriteLocked_reserveWrite : (m.reserveWrite keys isTemporary mode
    outcome).manager.isWriteLocked k = ((m.reserveWrite keys isTemporary mode
      outcome).manager.objects.get? k).any fun e => e.writeLock.isLocked m.nowMs := by
  rw [isWriteLocked, nowMs_reserveWrite]

theorem succeeded_of_not_flagged (hk : k ∉ flaggedKeys keys isTemporary) :
    succeeded (m.reserveWrite keys isTemporary mode outcome).reply k = false := by
  rw [reserveWrite_reply, succeeded_ofList, filed_writeResults_of_not_flagged hk]
  rfl

theorem visits_refused (he : m.objects.get? k = some e) (h : m.grants mode outcome k = false)
    (n : Nat) : Dict.visits (probeWriteKey mode m.nowMs k) n (some e) =
      (List.replicate n (some (.keyNotWritable, none)), some e) := by
  have hRefused := probeWriteKey_refused (m := m) (e := e) (by
    rw [← grants_existing_iff he, h]
    exact Bool.false_ne_true) k
  rw [visits_of_kept (by rw [hRefused]), hRefused]

theorem filed_writeResults_refused (he : m.objects.get? k = some e)
    (h : m.grants mode outcome k = false) :
    Dict.filed k (m.writeResults (keys.zip isTemporary) mode outcome) =
      List.replicate ((flaggedKeys keys isTemporary).count k) (.keyNotWritable, none) := by
  rw [filed_writeResults_existing he, visits_refused he h]
  exact filterMap_replicate_of_some rfl

theorem isWriteLocked_refused (he : m.objects.get? k = some e) (hNot : m.isWriteLocked k = false)
    (h : m.grants mode outcome k = false) :
    (m.reserveWrite keys isTemporary mode outcome).manager.isWriteLocked k = false := by
  rw [isWriteLocked_reserveWrite, get?_reserveWrite_existing he, visits_refused he h, ← he]
  exact hNot

theorem succeeded_refused (he : m.objects.get? k = some e) (h : m.grants mode outcome k = false) :
    succeeded (m.reserveWrite keys isTemporary mode outcome).reply k = false := by
  rw [reserveWrite_reply, succeeded_ofList, filed_writeResults_refused he h]
  cases (flaggedKeys keys isTemporary).count k with
  | zero => rfl
  | succ n => simp [getLast?_replicate]

variable {n : Nat}

theorem filed_writeResults_granted (he : m.objects.get? k = some e)
    (h : m.grants mode outcome k = true) (hCount : (flaggedKeys keys isTemporary).count k = n + 1)
    : Dict.filed k (m.writeResults (keys.zip isTemporary) mode outcome) =
      if 0 < e.writeLock.ttlMs then
        (.success, some e.memoryObj) :: List.replicate n (.keyNotWritable, none)
      else List.replicate (n + 1) (.success, some e.memoryObj) := by
  obtain ⟨hMode, hAvailable⟩ := (grants_existing_iff he).mp h
  rw [filed_writeResults_existing he, hCount]
  split
  · rename_i hTtl
    rw [visits_granted hMode hAvailable hTtl]
    exact congrArg ((L1Error.success, some e.memoryObj) :: ·)
      (filterMap_replicate_of_some (f := id) rfl)
  · rename_i hTtl
    obtain ⟨e', hVisits, -⟩ :=
      visits_granted_expired hMode hAvailable (Nat.eq_zero_of_not_pos hTtl) k (n + 1)
    rw [hVisits]
    exact filterMap_replicate_of_some rfl

theorem succeeded_granted_iff (he : m.objects.get? k = some e)
    (h : m.grants mode outcome k = true) (hCount : (flaggedKeys keys isTemporary).count k = n + 1)
    : succeeded (m.reserveWrite keys isTemporary mode outcome).reply k = true ↔
      (0 < e.writeLock.ttlMs → n = 0) := by
  rw [reserveWrite_reply, succeeded_ofList, filed_writeResults_granted he h hCount]
  split
  · rename_i hTtl
    cases n with
    | zero => simp
    | succ n => simp [hTtl, getLast?_cons, getLast?_replicate]
  · rename_i hTtl
    simp [hTtl, getLast?_replicate]

theorem isWriteLocked_granted_iff (he : m.objects.get? k = some e)
    (h : m.grants mode outcome k = true) (hCount : (flaggedKeys keys isTemporary).count k = n + 1)
    : (m.reserveWrite keys isTemporary mode outcome).manager.isWriteLocked k = true ↔
      0 < e.writeLock.ttlMs := by
  obtain ⟨hMode, hAvailable⟩ := (grants_existing_iff he).mp h
  rw [isWriteLocked_reserveWrite, get?_reserveWrite_existing he, hCount]
  rcases Nat.eq_zero_or_pos e.writeLock.ttlMs with hZero | hPos
  · obtain ⟨e', hVisits, -, hAgain⟩ := visits_granted_expired hMode hAvailable hZero k (n + 1)
    have hOpen : e'.writeLock.isLocked m.nowMs = false := by
      simp only [L1ObjectState.availableForWrite, Bool.and_eq_true, Bool.not_eq_true'] at hAgain
      exact hAgain.1.1
    rw [hVisits, hZero]
    simp [hOpen]
  · rw [visits_granted hMode hAvailable hPos]
    simp [hPos, TTLLock.lock_isLocked_iff]

theorem lock_missing (hNone : m.objects.get? k = none) :
    ((m.reserveWrite keys isTemporary mode outcome).manager.isWriteLocked k = true ↔
      k ∈ flaggedKeys keys isTemporary ∧ m.grants mode outcome k = true ∧ 0 < m.writeTtlSeconds) ∧
    (succeeded (m.reserveWrite keys isTemporary mode outcome).reply k = true ↔
      k ∈ flaggedKeys keys isTemporary ∧ m.grants mode outcome k = true) := by
  rw [isWriteLocked_reserveWrite]
  by_cases hBoth : k ∈ flaggedKeys keys isTemporary ∧ m.grants mode outcome k = true
  · obtain ⟨a, -, -, hReply, hEntry⟩ := reserveWrite_entered hNone hBoth.1 hBoth.2
    have hLocked : (m.reservedState a.2 a.1.2).writeLock.isLocked m.nowMs = true ↔
        0 < m.writeTtlSeconds := by
      rw [reservedState, TTLLock.lock_isLocked_iff]
      show 0 < m.writeTtlSeconds * 1000 ↔ _
      omega
    simp only [hEntry, succeeded, hReply, any_some, hLocked, hBoth]
    simp
  · obtain ⟨hEntry, hResults⟩ := reserveWrite_not_entered hNone
      (fun hk => Bool.eq_false_iff.mpr fun hGrants => hBoth ⟨hk, hGrants⟩)
    have hReply : succeeded (m.reserveWrite keys isTemporary mode outcome).reply k = false := by
      rw [reserveWrite_reply, succeeded_ofList]
      cases hLast : (Dict.filed k (m.writeResults (keys.zip isTemporary) mode
          outcome)).getLast? with
      | none => rfl
      | some r => simpa using hResults r (mem_of_getLast? hLast)
    rw [hEntry, hReply, ← and_assoc]
    simp [hBoth]

/-- The lock of a key that was not locked follows the reply, exactly if the key is not
granted or is granted once under a lock that holds. -/
theorem locked_iff_succeeded_iff (h : m.Tidy) (hNot : m.isWriteLocked k = false) :
    ((m.reserveWrite keys isTemporary mode outcome).manager.isWriteLocked k = true ↔
      succeeded (m.reserveWrite keys isTemporary mode outcome).reply k = true) ↔
    (k ∈ flaggedKeys keys isTemporary → m.grants mode outcome k = true →
      0 < m.writeTtlSeconds ∧
        ((m.objects.get? k).isSome → (flaggedKeys keys isTemporary).count k = 1)) := by
  cases he : m.objects.get? k with
  | none =>
    rw [(lock_missing he).1, (lock_missing he).2]
    simp only [isSome_none, Bool.false_eq_true, false_implies, and_true]
    tauto
  | some e =>
    have hTtl := h.write_ttl k e he
    simp only [isSome_some, forall_const]
    cases hGrants : m.grants mode outcome k with
    | false =>
      rw [isWriteLocked_refused he hNot hGrants, succeeded_refused he hGrants]
      simp
    | true =>
      cases hCount : (flaggedKeys keys isTemporary).count k with
      | zero =>
        have hNotMem : k ∉ flaggedKeys keys isTemporary := count_eq_zero.mp hCount
        have hEmpty : (m.reserveWrite keys isTemporary mode outcome).manager.isWriteLocked k =
            false := by
          rw [isWriteLocked_reserveWrite, get?_reserveWrite_existing he, hCount]
          rw [isWriteLocked, he] at hNot
          exact hNot
        simp [hEmpty, succeeded_of_not_flagged, hNotMem]
      | succ n =>
        have hMem : k ∈ flaggedKeys keys isTemporary := by
          rw [← count_pos_iff, hCount]
          exact Nat.succ_pos n
        rw [isWriteLocked_granted_iff he hGrants hCount, succeeded_granted_iff he hGrants hCount,
          hTtl]
        simp only [hMem, forall_const]
        omega

theorem object_held_reserveWrite {obj : Option MemoryObj}
    (h : (m.reserveWrite keys isTemporary mode outcome).reply.get? k = some (.success, obj)) :
    obj.isSome ∧ (m.reserveWrite keys isTemporary mode outcome).manager.heldBy k = obj := by
  cases he : m.objects.get? k with
  | none =>
    have hSuccess : succeeded (m.reserveWrite keys isTemporary mode outcome).reply k = true := by
      simp [succeeded, h]
    obtain ⟨hk, hGrants⟩ := (lock_missing he).2.mp hSuccess
    obtain ⟨a, -, -, hReply, hEntry⟩ := reserveWrite_entered he hk hGrants
    cases (some.inj (h.symm.trans hReply))
    exact ⟨rfl, heldBy_eq_some_iff.mpr ⟨_, hEntry, rfl⟩⟩
  | some e =>
    -- probing keeps the object, and a success reports the object it finds
    have hKept : ∀ o : Option L1ObjectState, o.map L1ObjectState.memoryObj = some e.memoryObj →
        (probeWriteKey mode m.nowMs k o).2.map L1ObjectState.memoryObj = some e.memoryObj :=
      fun o ho => (probeWriteKey_keeps mode m.nowMs k o).trans ho
    have hMem := mem_of_getLast? ((get?_ofList_filed _ _).symm.trans
      ((congrArg (·.get? k) (reserveWrite_reply m keys isTemporary mode outcome)).symm.trans h))
    rw [filed_writeResults_existing he, mem_filterMap] at hMem
    obtain ⟨r, hr, rfl⟩ := hMem
    have hReported : ∀ (n : Nat) (o : Option L1ObjectState),
        o.map L1ObjectState.memoryObj = some e.memoryObj →
        some (L1Error.success, obj) ∈ (Dict.visits (probeWriteKey mode m.nowMs k) n o).1 →
        obj = some e.memoryObj := by
      intro n
      induction n with
      | zero =>
        intro o _ hIn
        cases hIn
      | succ n ih =>
        intro o ho hIn
        rcases mem_cons.mp hIn with hHead | hTail
        · obtain ⟨e', rfl, heq⟩ := map_eq_some_iff.mp ho
          simp only [probeWriteKey] at hHead
          split_ifs at hHead <;> cases hHead
          exact congrArg some heq
        · exact ih _ (hKept o ho) hTail
    rw [hReported _ _ (by rfl) hr]
    refine ⟨rfl, ?_⟩
    rw [heldBy, get?_reserveWrite_existing he]
    exact visits_binding
      (P := fun o => o.map L1ObjectState.memoryObj = some e.memoryObj) hKept _ rfl

theorem missing_keys (m : L1Manager K) (pairs : List (K × Bool)) :
    (m.missing pairs).map Prod.fst =
      (pairs.map Prod.fst).filter fun k => (m.objects.get? k).isNone := by
  rw [List.filter_map]
  rfl

theorem count_missing (hNone : m.objects.get? k = none) :
    ((m.missing (keys.zip isTemporary)).map Prod.fst).count k =
      (flaggedKeys keys isTemporary).count k := by
  rw [missing_keys, count_filter (by rw [hNone]; rfl), flaggedKeys]

theorem missing_nodup_iff :
    ((m.missing (keys.zip isTemporary)).map Prod.fst).Nodup ↔
      ∀ k ∈ flaggedKeys keys isTemporary, m.objects.get? k = none →
        (flaggedKeys keys isTemporary).count k = 1 := by
  rw [nodup_iff_count_le_one]
  constructor
  · intro h k hk hNone
    have hPos := count_pos_iff.mpr hk
    have hLe := h k
    rw [count_missing hNone] at hLe
    omega
  · intro h k
    by_cases hk : k ∈ (m.missing (keys.zip isTemporary)).map Prod.fst
    · obtain ⟨hNone, hMem⟩ := mem_missing_keys_iff.mp hk
      rw [count_missing hNone]
      exact Nat.le_of_eq (h k hMem hNone)
    · rw [count_eq_zero.mpr hk]
      exact Nat.zero_le 1

theorem heldBy_fresh (h : m.Tidy) {obj : Nat} (hFresh : m.memory.allocated ≤ obj)
    (hHeld : (m.reserveWrite keys isTemporary mode outcome).manager.heldBy k = some obj) :
    ∃ a ∈ m.entered keys isTemporary mode outcome, a.1.1 = k ∧ a.2 = obj := by
  obtain ⟨e', he', hObj⟩ := heldBy_eq_some_iff.mp hHeld
  rw [reserveWrite_objects] at he'
  rcases writtenObjects_cases he' with ⟨a, ha, hak, rfl⟩ | hProbed
  · exact ⟨a, ha, hak, hObj⟩
  · obtain ⟨e, he, hMoved⟩ := updateEach_origin (probeWriteKey_moves _ _) _ hProbed
    have hLt := h.held_lt k e he
    rw [← hMoved.memoryObj_eq, hObj] at hLt
    exact absurd hLt (Nat.not_lt.mpr hFresh)

theorem accounted_entered_iff (h : m.Tidy) (hMode : mode ≠ .update) :
    (∀ obj : Nat, m.memory.allocated ≤ obj →
      obj < (m.reserveWrite keys isTemporary mode .success).manager.memory.allocated →
      (∃ k, (m.reserveWrite keys isTemporary mode .success).manager.heldBy k = some obj) ∨
        obj ∈ (m.reserveWrite keys isTemporary mode .success).manager.memory.freed) ↔
    ((m.missing (keys.zip isTemporary)).map Prod.fst).Nodup := by
  have hMemory : (m.reserveWrite keys isTemporary mode .success).manager.memory =
      { m.memory with
        allocated := m.memory.allocated + (m.missing (keys.zip isTemporary)).length } := by
    rw [reserveWrite_memory, writtenMemory, returnsEarly]
    cases m.missing (keys.zip isTemporary) with
    | nil => rfl
    | cons a needed => rw [decide_eq_false hMode]; rfl
  have hEntered : m.entered keys isTemporary mode .success =
      m.allocation (m.missing (keys.zip isTemporary)) := if_pos ⟨hMode, rfl⟩
  rw [hMemory]
  constructor
  · intro hAll
    have hHolder : ∀ i < (m.missing (keys.zip isTemporary)).length, ∃ p,
        (m.missing (keys.zip isTemporary))[i]? = some p ∧
        (m.reserveWrite keys isTemporary mode .success).manager.heldBy p.1 =
          some (m.memory.allocated + i : Nat) := by
      intro i hi
      rcases hAll (m.memory.allocated + i) (Nat.le_add_right _ _) (Nat.add_lt_add_left hi _) with
        ⟨k, hk⟩ | hFreed
      · obtain ⟨a, ha, hak, hObj⟩ := heldBy_fresh h (Nat.le_add_right _ _) hk
        rw [hEntered] at ha
        have hIndex := (mem_allocation_iff.mp ha).2
        rw [hObj, Nat.add_sub_cancel_left] at hIndex
        exact ⟨a.1, hIndex, hak.symm ▸ hk⟩
      · have hLt := h.freed_lt _ hFreed
        exact absurd hLt (Nat.not_lt.mpr (Nat.le_add_right _ _))
    apply nodup_iff_getElem?_ne_getElem?.mpr
    intro i j hij hj hEq
    rw [length_map] at hj
    obtain ⟨p, hp, hHeld⟩ := hHolder i (Nat.lt_trans hij hj)
    obtain ⟨p', hp', hHeld'⟩ := hHolder j hj
    -- one key holds one object
    rw [getElem?_map, getElem?_map, hp, hp'] at hEq
    have hKey : p.1 = p'.1 := some.inj hEq
    rw [hKey, hHeld'] at hHeld
    have hSame := some.inj hHeld
    omega
  · intro hNodup obj hLe hLt
    left
    have hIndex : obj - m.memory.allocated < (m.missing (keys.zip isTemporary)).length := by
      change obj < m.memory.allocated + (m.missing (keys.zip isTemporary)).length at hLt
      omega
    have hMem := getElem_mem hIndex
    obtain ⟨a, ha, hak, -, hEntry⟩ := reserveWrite_entered
      (mem_missing hMem) (List.mem_map_of_mem (mem_filter.mp hMem).1)
      ((grants_missing_iff (mem_missing hMem)).mpr ⟨hMode, rfl⟩)
    obtain ⟨hFresh, hAt⟩ := mem_allocation_iff.mp ha
    have hLength : a.2 - m.memory.allocated <
        ((m.missing (keys.zip isTemporary)).map Prod.fst).length := by
      rw [length_map]
      exact (List.getElem?_eq_some_iff.mp hAt).1
    -- the key is on the list once, so the object entered under it is the one asked for
    have hSame : a.2 - m.memory.allocated = obj - m.memory.allocated := by
      apply (getElem?_inj hLength hNodup).mp
      rw [getElem?_map, getElem?_map, hAt, getElem?_eq_getElem hIndex]
      exact congrArg some hak
    have hObj : a.2 = obj := by
      rw [← Nat.sub_add_cancel hFresh, hSame, Nat.sub_add_cancel hLe]
    exact ⟨_, heldBy_eq_some_iff.mpr ⟨_, hEntry, hObj⟩⟩

theorem accounted_reserveWrite_iff (h : m.Tidy) :
    (∀ obj : Nat, m.memory.allocated ≤ obj →
      obj < (m.reserveWrite keys isTemporary mode outcome).manager.memory.allocated →
      (∃ k, (m.reserveWrite keys isTemporary mode outcome).manager.heldBy k = some obj) ∨
        obj ∈ (m.reserveWrite keys isTemporary mode outcome).manager.memory.freed) ↔
    ∀ k ∈ flaggedKeys keys isTemporary, m.objects.get? k = none →
      m.grants mode outcome k = true → (flaggedKeys keys isTemporary).count k = 1 := by
  by_cases hBoth : mode ≠ .update ∧ outcome = .success
  · obtain ⟨hMode, rfl⟩ := hBoth
    rw [accounted_entered_iff h hMode, missing_nodup_iff]
    constructor
    · exact fun hAll k hk hNone _ => hAll k hk hNone
    · exact fun hAll k hk hNone =>
        hAll k hk hNone ((grants_missing_iff hNone).mpr ⟨hMode, rfl⟩)
  · constructor
    · exact fun _ k _ hNone hGrants => absurd ((grants_missing_iff hNone).mp hGrants) hBoth
    · -- nothing is allocated, or all of it is given back
      intro _ obj hLe hLt
      right
      rw [reserveWrite_memory] at hLt ⊢
      unfold writtenMemory at hLt ⊢
      cases hEarly : m.returnsEarly (keys.zip isTemporary) mode with
      | true =>
        rw [hEarly] at hLt
        exact absurd hLt (Nat.not_lt.mpr hLe)
      | false =>
        rw [hEarly] at hLt
        cases outcome with
        | success =>
          have hMode : mode ≠ .update := by
            rintro rfl
            simp [returnsEarly] at hEarly
          exact absurd ⟨hMode, rfl⟩ hBoth
        | outOfMemory n =>
          exact mem_append_right _ (mem_range'_1.mpr ⟨hLe, hLt⟩)

/-- In every state that the manager can reach, the results of a write reservation match its
effects exactly if each key that the call grants is named once and write locks hold. -/
theorem reserveWrite_matches_iff {writeTtl readTtl now : Nat} {ops : List (L1Op K)}
    (hRun : Run Step (new writeTtl readTtl now) ops m) (keys : List K) (isTemporary : List Bool)
    (mode : WriteMode) (outcome : AllocOutcome) :
    m.WritesMatch (m.reserveWrite keys isTemporary mode outcome) ↔
      ∀ k ∈ flaggedKeys keys isTemporary, m.grants mode outcome k = true →
        (flaggedKeys keys isTemporary).count k = 1 ∧ 0 < writeTtl := by
  have hTidy := hRun.invariant (I := Tidy) (fun _ op _ h hStep => hStep ▸ h.apply op)
    (new_tidy _ _ _)
  have hTtl := run_writeTtlSeconds hRun
  constructor
  · intro h k hk hGrants
    have hOpen : m.isWriteLocked k = false := by
      cases he : m.objects.get? k with
      | none => rw [isWriteLocked, he]; rfl
      | some e =>
        have hAvailable := ((grants_existing_iff he).mp hGrants).2
        simp only [L1ObjectState.availableForWrite, Bool.and_eq_true, Bool.not_eq_true']
          at hAvailable
        rw [isWriteLocked, he]
        exact hAvailable.1.1
    obtain ⟨hPos, hOnce⟩ :=
      (locked_iff_succeeded_iff hTidy hOpen).mp (h.locked_iff k hOpen) hk hGrants
    refine ⟨?_, hTtl ▸ hPos⟩
    cases he : m.objects.get? k with
    | none => exact (accounted_reserveWrite_iff hTidy).mp h.accounted k hk he hGrants
    | some e => exact hOnce (by rw [he]; rfl)
  · intro h
    constructor
    · intro k hOpen
      apply (locked_iff_succeeded_iff hTidy hOpen).mpr
      intro hk hGrants
      obtain ⟨hOnce, hPos⟩ := h k hk hGrants
      exact ⟨hTtl.symm ▸ hPos, fun _ => hOnce⟩
    · exact fun k obj hReply => object_held_reserveWrite hReply
    · exact (accounted_reserveWrite_iff hTidy).mpr fun k hk _ hGrants => (h k hk hGrants).1

theorem finished_run : Run Step (new 600 300 0 : L1Manager Nat)
    [.reserveWrite [5] [false] .new .success, .finishWrite [5]]
    (((new 600 300 0 : L1Manager Nat).apply (.reserveWrite [5] [false] .new
      .success)).manager.apply (.finishWrite [5])).manager :=
  (Run.single rfl).trans (Run.single rfl)

/-- A rewrite of a finished key together with a new one. -/
theorem reserveWrite_matches_mixed : ∃ m, Run Step (new 600 300 0 : L1Manager Nat)
      [.reserveWrite [5] [false] .new .success, .finishWrite [5]] m ∧
    m.WritesMatch (m.reserveWrite [5, 2] [false, true] .all .success) :=
  ⟨_, finished_run, (reserveWrite_matches_iff finished_run _ _ _ _).mpr (by decide)⟩

/-- A new key that is named twice loses its first object; a finished key that is named twice
is locked and reported as refused. -/
theorem reserveWrite_not_matches_duplicate :
    ¬(new 600 300 0 : L1Manager Nat).WritesMatch
      ((new 600 300 0 : L1Manager Nat).reserveWrite [7, 7] [false, false] .new .success) ∧
    ∃ m, Run Step (new 600 300 0 : L1Manager Nat)
        [.reserveWrite [5] [false] .new .success, .finishWrite [5]] m ∧
      ¬m.WritesMatch (m.reserveWrite [5, 5] [false, false] .update .success) := by
  constructor
  · intro h
    rcases h.accounted 0 (by decide) (by decide) with ⟨k, hk⟩ | hFreed
    · obtain ⟨e, he, hObj⟩ := heldBy_eq_some_iff.mp hk
      have hMem := Dict.get?_eq_some_iff.mp he
      have hEntries : ∀ p ∈ ((new 600 300 0 : L1Manager Nat).reserveWrite [7, 7] [false, false]
          .new .success).manager.objects.entries, p.2.memoryObj ≠ 0 := by decide
      exact hEntries _ hMem hObj
    · exact absurd hFreed (by decide)
  · refine ⟨_, finished_run, ?_⟩
    intro h
    exact absurd ((h.locked_iff 5 (by decide)).mp (by decide)) (by decide)

end L1Manager

end LMCache
