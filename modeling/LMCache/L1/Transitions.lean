import LMCache.L1.Manager

/-!
# What one manager call does to one key

Every call over distinct keys acts on each key separately. `KeyStep` lists everything that
can happen to the entry of one key, with the guards of the source, and `apply_keyStep` is
the inversion of `L1Manager.apply` through it: the safety arguments about the manager are
case analyses of `KeyStep` and never look at the loops again.

`KeyEvent` is what the call told its client about the key. It is read off the reply.
-/

namespace LMCache

open Lib Dict List Bool

inductive KeyEvent
  | silent
  | readReserved (obj : MemoryObj) (locks : Nat)
  | readFinished (locks : Nat)
  | writeReserved (obj : MemoryObj)
  | writeFinished
  | handedOver (obj : MemoryObj) (locks : Nat)
deriving DecidableEq, Repr

section Events

variable {K : Type} [DecidableEq K]

/-- What `op` reported about `k`, given its reply. A call that failed on `k`, or that says
nothing about `k`, is silent. -/
def L1Op.eventAt (op : L1Op K) (reply : L1Reply K) (k : K) : KeyEvent :=
  match op, reply with
  | .reserveRead _ readLocks, .results ret =>
    match ret.get? k with
    | some (.success, some obj) => .readReserved obj (validateReadLocks readLocks)
    | _ => .silent
  | .finishRead _ readLocks, .errors ret =>
    if ret.get? k = some .success then .readFinished (validateReadLocks readLocks) else .silent
  | .reserveWrite _ _ _ _, .results ret =>
    match ret.get? k with
    | some (.success, some obj) => .writeReserved obj
    | _ => .silent
  | .finishWrite _, .errors ret =>
    if ret.get? k = some .success then .writeFinished else .silent
  | .finishWriteAndReserveRead _ readLocks, .results ret =>
    match ret.get? k with
    | some (.success, some obj) => .handedOver obj (validateReadLocks readLocks)
    | _ => .silent
  | _, _ => .silent

end Events

/-- Everything one call can do to the entry of one key. `removal` is the `force` flag of a
call that removes objects; a created object carries a serial at or above `fresh`. -/
inductive KeyStep (now fresh writeTtlSeconds readTtlSeconds : Nat) (removal : Option Bool) :
    KeyEvent → Option L1ObjectState → Option L1ObjectState → Prop
  | kept (o : Option L1ObjectState) :
      KeyStep now fresh writeTtlSeconds readTtlSeconds removal .silent o o
  | readReserved (e : L1ObjectState) (locks : Nat) (hWrite : e.writeLock.isLocked now = false)
      (hLocks : 0 < locks) :
      KeyStep now fresh writeTtlSeconds readTtlSeconds removal (.readReserved e.memoryObj locks)
        (some e) (some { e with readLock := e.readLock.lockTimes now locks })
  | readFinished (e : L1ObjectState) (locks : Nat) (hWrite : e.writeLock.isLocked now = false)
      (hRead : e.readLock.isLocked now = true)
      (hKeep : e.isTemporary = false ∨ (e.readLock.unlockTimes locks).isLocked now = true) :
      KeyStep now fresh writeTtlSeconds readTtlSeconds removal (.readFinished locks)
        (some e) (some { e with readLock := e.readLock.unlockTimes locks })
  | temporaryFreed (e : L1ObjectState) (locks : Nat)
      (hWrite : e.writeLock.isLocked now = false) (hRead : e.readLock.isLocked now = true)
      (hTemporary : e.isTemporary = true)
      (hLast : (e.readLock.unlockTimes locks).isLocked now = false) :
      KeyStep now fresh writeTtlSeconds readTtlSeconds removal (.readFinished locks) (some e) none
  | writeReserved (e : L1ObjectState) (hWrite : e.writeLock.isLocked now = false)
      (hRead : e.readLock.isLocked now = false) (hTemporary : e.isTemporary = false) :
      KeyStep now fresh writeTtlSeconds readTtlSeconds removal (.writeReserved e.memoryObj)
        (some e) (some { e with writeLock := e.writeLock.lock now })
  | created (obj : MemoryObj) (isTemporary : Bool) (hFresh : fresh ≤ obj) :
      KeyStep now fresh writeTtlSeconds readTtlSeconds removal (.writeReserved obj) none
        (some ⟨obj, (TTLLock.new writeTtlSeconds).lock now, TTLLock.new readTtlSeconds,
          isTemporary⟩)
  | writeFinished (e : L1ObjectState) (hWrite : e.writeLock.isLocked now = true)
      (hRead : e.readLock.isLocked now = false) :
      KeyStep now fresh writeTtlSeconds readTtlSeconds removal .writeFinished
        (some e) (some { e with writeLock := e.writeLock.unlock })
  | handedOver (e : L1ObjectState) (locks : Nat) (hWrite : e.writeLock.isLocked now = true)
      (hRead : e.readLock.isLocked now = false) (hLocks : 0 < locks) :
      KeyStep now fresh writeTtlSeconds readTtlSeconds removal (.handedOver e.memoryObj locks)
        (some e)
        (some { e with
          writeLock := e.writeLock.unlock
          readLock := e.readLock.lockTimes now locks })
  | removed (e : L1ObjectState) (force : Bool) (hRemoval : removal = some force)
      (hFree : force = true ∨ e.isLocked now = false) :
      KeyStep now fresh writeTtlSeconds readTtlSeconds removal .silent (some e) none

section Inversion

variable {now fresh writeTtl readTtl : Nat} {removal : Option Bool} {ev : KeyEvent}
  {o o' : Option L1ObjectState}

/-- A call that reports nothing about a key leaves it alone or removes it. -/
theorem KeyStep.silent_cases (h : KeyStep now fresh writeTtl readTtl removal .silent o o') :
    o' = o ∨ ∃ e force, o = some e ∧ o' = none ∧ removal = some force ∧
      (force = true ∨ e.isLocked now = false) := by
  cases h with
  | kept => exact Or.inl rfl
  | removed e force hRemoval hFree => exact Or.inr ⟨e, force, rfl, rfl, hRemoval, hFree⟩

theorem KeyStep.gone_cases {e : L1ObjectState}
    (h : KeyStep now fresh writeTtl readTtl removal ev (some e) none) :
    (∃ locks, ev = .readFinished locks ∧ e.isTemporary = true ∧
      e.readLock.isLocked now = true ∧ (e.readLock.unlockTimes locks).isLocked now = false) ∨
    (∃ force, removal = some force ∧ (force = true ∨ e.isLocked now = false)) := by
  cases h with
  | temporaryFreed _ locks _ hRead hTemporary hLast =>
    exact Or.inl ⟨locks, rfl, hTemporary, hRead, hLast⟩
  | removed _ force hRemoval hFree => exact Or.inr ⟨force, hRemoval, hFree⟩

theorem L1Op.eventAt_eq_readFinished {K : Type} [DecidableEq K] {op : L1Op K} {reply : L1Reply K}
    {k : K} {locks : Nat} (h : op.eventAt reply k = .readFinished locks) :
    ∃ keys readLocks, op = .finishRead keys readLocks ∧ locks = validateReadLocks readLocks := by
  unfold L1Op.eventAt at h
  split at h
  · split at h <;> cases h
  · rename_i keys readLocks ret
    split at h
    · cases h
      exact ⟨keys, readLocks, rfl, rfl⟩
    · cases h
  · split at h <;> cases h
  · split at h <;> cases h
  · split at h <;> cases h
  · cases h

end Inversion

theorem validateReadLocks_pos (readLocks : Nat) : 0 < validateReadLocks readLocks := by
  unfold validateReadLocks maxReadLockCount
  split
  · omega
  · split <;> omega

namespace L1Manager

variable {K : Type} [DecidableEq K] (m : L1Manager K)

/-- The steps of `m`'s clock, allocator and configuration. -/
abbrev KeyStepOf (removal : Option Bool) :
    KeyEvent → Option L1ObjectState → Option L1ObjectState → Prop :=
  KeyStep m.nowMs m.memory.allocated m.writeTtlSeconds m.readTtlSeconds removal

theorem get?_errorsOf_updateEach
    (f : K → Option L1ObjectState → (L1Error × Option MemoryObj) × Option L1ObjectState)
    {ks : List K} (hks : ks.Nodup) (d : Dict K L1ObjectState) (k : K) :
    (errorsOf (Dict.updateEach f ks d).1).get? k =
      if k ∈ ks then some (f k (d.get? k)).1.1 else none := by
  have hKeys : ((Dict.updateEach f ks d).1.map fun o => (o.1, o.2.1)).map Prod.fst = ks := by
    rw [map_map]
    exact updateEach_keys f ks d
  have hNodup : (((Dict.updateEach f ks d).1.map fun o => (o.1, o.2.1)).map Prod.fst).Nodup := by
    rw [hKeys]
    exact hks
  rw [errorsOf, get?_ofList _ hNodup, updateEach_outcomes f hks, map_map]
  exact find_map_pair (fun a => (f a (d.get? a)).1.1) ks k

variable {m} {keys : List K} {k : K}

theorem reserveRead_keyStep (hKeys : keys.Nodup) (readLocks : Nat) :
    m.KeyStepOf none ((L1Op.reserveRead keys readLocks).eventAt
        (m.apply (.reserveRead keys readLocks)).reply k)
      (m.objects.get? k) ((m.reserveRead keys readLocks).manager.objects.get? k) := by
  have hPos := validateReadLocks_pos readLocks
  simp only [L1Op.eventAt, apply, L1Outcome.map, reserveRead, get?_updateEach _ hKeys,
    get?_ofList_updateEach _ hKeys]
  by_cases hk : k ∈ keys
  · simp only [hk, if_true]
    cases hEntry : m.objects.get? k with
    | none => exact .kept none
    | some e =>
      cases hWrite : e.writeLock.isLocked m.nowMs with
      | true =>
        simp only [reserveReadKey, L1ObjectState.availableForRead, hWrite]
        exact .kept (some e)
      | false =>
        simp only [reserveReadKey, L1ObjectState.availableForRead, hWrite]
        exact .readReserved e _ hWrite hPos
  · simp only [hk, if_false]
    exact .kept _

theorem unsafeRead_keyStep (hKeys : keys.Nodup) :
    m.KeyStepOf none .silent (m.objects.get? k) ((m.unsafeRead keys).manager.objects.get? k) := by
  simp only [unsafeRead, get?_updateEach _ hKeys]
  by_cases hk : k ∈ keys
  · simp only [hk, if_true]
    cases hEntry : m.objects.get? k with
    | none => exact .kept none
    | some e =>
      simp only [unsafeReadKey]
      split <;> exact .kept (some e)
  · simp only [hk, if_false]
    exact .kept _

theorem finishRead_keyStep (hKeys : keys.Nodup) (readLocks : Nat) :
    m.KeyStepOf none ((L1Op.finishRead keys readLocks).eventAt
        (m.apply (.finishRead keys readLocks)).reply k)
      (m.objects.get? k) ((m.finishRead keys readLocks).manager.objects.get? k) := by
  simp only [L1Op.eventAt, apply, L1Outcome.map, finishRead, get?_updateEach _ hKeys,
    get?_errorsOf_updateEach _ hKeys]
  by_cases hk : k ∈ keys
  · simp only [hk, if_true]
    cases hEntry : m.objects.get? k with
    | none => exact .kept none
    | some e =>
      cases hWrite : e.writeLock.isLocked m.nowMs with
      | true =>
        simp only [finishReadKey, hWrite]
        exact .kept (some e)
      | false =>
        cases hRead : e.readLock.isLocked m.nowMs with
        | false =>
          simp only [finishReadKey, hWrite, hRead]
          exact .kept (some e)
        | true =>
          by_cases hLast : (e.isTemporary && !(e.readLock.unlockTimes
              (validateReadLocks readLocks)).isLocked m.nowMs) = true
          · simp only [finishReadKey, hWrite, hRead, hLast]
            obtain ⟨hTemporary, hCount⟩ := and_eq_true_iff.mp hLast
            exact .temporaryFreed e _ hWrite hRead hTemporary (by simpa using hCount)
          · simp only [finishReadKey, hWrite, hRead, hLast]
            refine .readFinished e _ hWrite hRead ?_
            by_cases hTemporary : e.isTemporary = true
            · right
              simpa [hTemporary] using hLast
            · left
              simpa using hTemporary
  · simp only [hk, if_false]
    exact .kept _

theorem finishWrite_keyStep (hKeys : keys.Nodup) :
    m.KeyStepOf none ((L1Op.finishWrite keys).eventAt (m.apply (.finishWrite keys)).reply k)
      (m.objects.get? k) ((m.finishWrite keys).manager.objects.get? k) := by
  simp only [L1Op.eventAt, apply, L1Outcome.map, finishWrite, get?_updateEach _ hKeys,
    get?_ofList_updateEach _ hKeys]
  by_cases hk : k ∈ keys
  · simp only [hk, if_true]
    cases hEntry : m.objects.get? k with
    | none => exact .kept none
    | some e =>
      cases hWrite : e.writeLock.isLocked m.nowMs with
      | false =>
        simp only [finishWriteKey, hWrite]
        exact .kept (some e)
      | true =>
        cases hRead : e.readLock.isLocked m.nowMs with
        | true =>
          simp only [finishWriteKey, hWrite, hRead]
          exact .kept (some e)
        | false =>
          simp only [finishWriteKey, hWrite, hRead]
          exact .writeFinished e hWrite hRead
  · simp only [hk, if_false]
    exact .kept _

theorem finishWriteAndReserveRead_keyStep (hKeys : keys.Nodup) (readLocks : Nat) :
    m.KeyStepOf none ((L1Op.finishWriteAndReserveRead keys readLocks).eventAt
        (m.apply (.finishWriteAndReserveRead keys readLocks)).reply k) (m.objects.get? k)
      ((m.finishWriteAndReserveRead keys readLocks).manager.objects.get? k) := by
  have hPos := validateReadLocks_pos readLocks
  simp only [L1Op.eventAt, apply, L1Outcome.map, finishWriteAndReserveRead,
    get?_updateEach _ hKeys, get?_ofList_updateEach _ hKeys]
  by_cases hk : k ∈ keys
  · simp only [hk, if_true]
    cases hEntry : m.objects.get? k with
    | none => exact .kept none
    | some e =>
      cases hWrite : e.writeLock.isLocked m.nowMs with
      | false =>
        simp only [finishWriteAndReserveReadKey, hWrite]
        exact .kept (some e)
      | true =>
        cases hRead : e.readLock.isLocked m.nowMs with
        | true =>
          simp only [finishWriteAndReserveReadKey, hWrite, hRead]
          exact .kept (some e)
        | false =>
          simp only [finishWriteAndReserveReadKey, hWrite, hRead]
          exact .handedOver e _ hWrite hRead hPos
  · simp only [hk, if_false]
    exact .kept _

theorem delete_keyStep (hKeys : keys.Nodup) (force : Bool) :
    m.KeyStepOf (some force) .silent (m.objects.get? k)
      ((m.delete keys force).manager.objects.get? k) := by
  simp only [delete, get?_updateEach _ hKeys]
  by_cases hk : k ∈ keys
  · simp only [hk, if_true]
    cases hEntry : m.objects.get? k with
    | none => exact .kept none
    | some e =>
      by_cases hLocked : (e.isLocked m.nowMs && !force) = true
      · simp only [deleteKey, hLocked]
        exact .kept (some e)
      · simp only [deleteKey, hLocked]
        refine .removed e force rfl ?_
        cases force
        · right
          simpa using hLocked
        · left
          rfl
  · simp only [hk, if_false]
    exact .kept _

theorem dropObjects_keyStep {force : Bool} {cleared : L1ObjectState → Bool}
    (hCleared : ∀ e, cleared e = true → force = true ∨ e.isLocked m.nowMs = false) :
    m.KeyStepOf (some force) .silent (m.objects.get? k)
      ((m.dropObjects cleared).objects.get? k) := by
  simp only [dropObjects, get?_filter]
  cases hEntry : m.objects.get? k with
  | none => exact .kept none
  | some e =>
    cases hDrop : cleared e with
    | true =>
      simp only [Option.filter_some, hDrop]
      exact .removed e force rfl (hCleared e hDrop)
    | false =>
      simp only [Option.filter_some, hDrop]
      exact .kept (some e)

/-- The pairs of the call whose key has no object yet. -/
def missing (m : L1Manager K) (pairs : List (K × Bool)) : List (K × Bool) :=
  pairs.filter fun p => (m.objects.get? p.1).isNone

theorem mem_missing {pairs : List (K × Bool)} {p : K × Bool} (h : p ∈ m.missing pairs) :
    m.objects.get? p.1 = none := Option.isNone_iff_eq_none.mp (mem_filter.mp h).2

theorem mem_missing_keys_iff {pairs : List (K × Bool)} :
    k ∈ (m.missing pairs).map Prod.fst ↔ m.objects.get? k = none ∧ k ∈ pairs.map Prod.fst := by
  constructor
  · intro h
    obtain ⟨p, hp, rfl⟩ := mem_map.mp h
    exact ⟨mem_missing hp, mem_map_of_mem (mem_filter.mp hp).1⟩
  · rintro ⟨hNone, hk⟩
    obtain ⟨p, hp, rfl⟩ := mem_map.mp hk
    exact mem_map_of_mem (mem_filter.mpr ⟨hp, Option.isNone_iff_eq_none.mpr hNone⟩)

theorem missing_nodup {pairs : List (K × Bool)} (h : (pairs.map Prod.fst).Nodup) :
    ((m.missing pairs).map Prod.fst).Nodup := h.sublist (filter_sublist.map _)

/-- The allocation list is known from the table. Keys may repeat: probing enters and removes
nothing. -/
theorem needToAllocate_eq (pairs : List (K × Bool)) (mode : WriteMode) :
    needToAllocate (Dict.updateEach (probeWriteKey mode m.nowMs) (pairs.map Prod.fst) m.objects).1
        (pairs.map Prod.snd) = m.missing pairs := by
  have hProbe : ∀ (k : K) (o : Option L1ObjectState),
      (probeWriteKey mode m.nowMs k o).1.isNone = o.isNone ∧
        (probeWriteKey mode m.nowMs k o).2.isNone = o.isNone := by
    intro k o
    cases o with
    | none => exact ⟨rfl, rfl⟩
    | some e =>
      simp only [probeWriteKey]
      split
      · exact ⟨rfl, rfl⟩
      · split <;> exact ⟨rfl, rfl⟩
  suffices h : ∀ d : Dict K L1ObjectState,
      (∀ k, (d.get? k).isNone = (m.objects.get? k).isNone) →
      needToAllocate (Dict.updateEach (probeWriteKey mode m.nowMs) (pairs.map Prod.fst) d).1
        (pairs.map Prod.snd) = m.missing pairs from h m.objects fun _ => rfl
  induction pairs with
  | nil => exact fun _ _ => rfl
  | cons p pairs ih =>
    intro d hd
    have hRest := ih (d.put p.1 (probeWriteKey mode m.nowMs p.1 (d.get? p.1)).2) (by
      intro k
      rw [get?_put]
      split
      · rename_i hk
        rw [(hProbe _ _).2, hk, hd]
      · exact hd k)
    simp only [needToAllocate, missing, map_cons, Dict.updateEach, zip_cons_cons,
      filterMap_cons, filter_cons, (hProbe _ _).1, hd] at hRest ⊢
    cases (m.objects.get? p.1).isNone with
    | true => exact congrArg (p :: ·) hRest
    | false => exact hRest

omit [DecidableEq K] in
theorem zip_keys_nodup (hKeys : keys.Nodup) (isTemporary : List Bool) :
    ((keys.zip isTemporary).map Prod.fst).Nodup := by
  rw [zip_eq_zip_take_min, map_fst_zip (by simp)]
  exact hKeys.sublist (take_sublist _ _)

theorem decidedWrites_eq {ks : List K} (hks : ks.Nodup) (mode : WriteMode) :
    decidedWrites (Dict.updateEach (probeWriteKey mode m.nowMs) ks m.objects).1 =
      ks.filterMap fun a => (probeWriteKey mode m.nowMs a (m.objects.get? a)).1.map
        fun r => (a, r) := by
  rw [decidedWrites, updateEach_outcomes _ hks, filterMap_map]
  rfl

variable {needed : List (K × Bool)}

omit [DecidableEq K] in
theorem zip_objs_nodup (hNeeded : (needed.map Prod.fst).Nodup) (objs : List MemoryObj) :
    ((needed.zip objs).map fun a => a.1.1).Nodup := by
  have hFirst : ((needed.zip objs).map fun a => a.1.1) =
      ((needed.zip objs).map Prod.fst).map Prod.fst := by simp
  rw [hFirst, zip_eq_zip_take_min, map_fst_zip (by simp)]
  exact hNeeded.sublist ((take_sublist _ _).map _)

theorem get?_enterAllocated (hNeeded : (needed.map Prod.fst).Nodup) (objs : List MemoryObj)
    (d : Dict K L1ObjectState) (k : K) : (m.enterAllocated needed objs d).get? k =
      (((needed.zip objs).find? fun a => a.1.1 = k).map
        fun a => m.reservedState a.2 a.1.2).or (d.get? k) := by
  have hKeys : (((needed.zip objs).map fun a => (a.1.1, m.reservedState a.2 a.1.2)).map
      Prod.fst).Nodup := by
    rw [map_map]
    exact zip_objs_nodup hNeeded objs
  rw [enterAllocated, ← find_map (fun a : (K × Bool) × MemoryObj => a.1.1)
    (fun a => m.reservedState a.2 a.1.2), ← get?_foldl_set _ hKeys, foldl_map]

/-- The ways a write reservation ends: nothing is allocated, the allocation fails, or the
allocated objects are entered. -/
theorem reserveWrite_outcomes (m : L1Manager K) (keys : List K) (isTemporary : List Bool)
    (mode : WriteMode) (outcome : AllocOutcome) :
    let pairs := keys.zip isTemporary
    let probe := Dict.updateEach (probeWriteKey mode m.nowMs) (pairs.map Prod.fst) m.objects
    let needed := m.missing pairs
    let r := m.reserveWrite keys isTemporary mode outcome
    (∃ err memory, r.reply =
        Dict.ofList (decidedWrites probe.1 ++ needed.map fun a => (a.1, (err, none))) ∧
      err ≠ L1Error.success ∧
      (memory = m.memory ∨ ∃ n, memory =
        { m.memory with
          allocated := m.memory.allocated + n
          freed := m.memory.freed ++ List.range' m.memory.allocated n }) ∧
      r.manager = { m with objects := probe.2, memory := memory }) ∨
    (r.reply = Dict.ofList (decidedWrites probe.1 ++
        (needed.zip (List.range' m.memory.allocated needed.length)).map
          fun a => (a.1.1, (L1Error.success, some a.2))) ∧
      r.manager = { m with
        objects := m.enterAllocated needed (List.range' m.memory.allocated needed.length) probe.2
        memory := { m.memory with allocated := m.memory.allocated + needed.length } }) := by
  intro pairs probe needed r
  have hr : r = m.reserveWrite keys isTemporary mode outcome := rfl
  simp only [reserveWrite, needToAllocate_eq] at hr
  by_cases hEmpty : needed.length = 0
  · left
    rw [if_pos hEmpty] at hr
    refine ⟨.keyNotWritable, m.memory, ?_, by decide, Or.inl rfl, by rw [hr]⟩
    rw [hr, length_eq_zero_iff.mp hEmpty]
    simp [probe, pairs]
  · rw [if_neg hEmpty] at hr
    by_cases hMode : mode = .update
    · left
      rw [if_pos hMode] at hr
      exact ⟨.keyNotWritable, m.memory, by rw [hr], by decide, Or.inl rfl, by rw [hr]⟩
    · rw [if_neg hMode] at hr
      cases outcome with
      | outOfMemory n =>
        left
        exact ⟨.outOfMemory, _, by rw [hr]; rfl, by decide, Or.inr ⟨n, rfl⟩, by rw [hr]; rfl⟩
      | success =>
        right
        exact ⟨by rw [hr]; rfl, by rw [hr]; rfl⟩

/-- What the reply of a write reservation says about `k`, from its result. -/
def writeEvent : Option L1OperationResult → KeyEvent
  | some (.success, some obj) => .writeReserved obj
  | _ => .silent

theorem eventAt_reserveWrite (isTemporary : List Bool) (mode : WriteMode) (outcome : AllocOutcome) :
    (L1Op.reserveWrite keys isTemporary mode outcome).eventAt
        (m.apply (.reserveWrite keys isTemporary mode outcome)).reply k =
      writeEvent ((m.reserveWrite keys isTemporary mode outcome).reply.get? k) := by
  simp only [L1Op.eventAt, apply, L1Outcome.map, writeEvent]

omit [DecidableEq K] in
theorem probeWriteKey_keyStep (mode : WriteMode) (o : Option L1ObjectState) :
    m.KeyStepOf none (writeEvent (probeWriteKey mode m.nowMs k o).1) o
      (probeWriteKey mode m.nowMs k o).2 := by
  cases o with
  | none => exact .kept none
  | some e =>
    simp only [probeWriteKey]
    split
    · exact .kept (some e)
    · split
      · exact .kept (some e)
      · rename_i hAvailable
        simp only [L1ObjectState.availableForWrite, not_eq_false, and_eq_true,
          not_eq_true'] at hAvailable
        exact .writeReserved e hAvailable.1.1 hAvailable.1.2 hAvailable.2

theorem reserveWrite_keyStep (hKeys : keys.Nodup) (isTemporary : List Bool) (mode : WriteMode)
    (outcome : AllocOutcome) :
    m.KeyStepOf none
      (writeEvent ((m.reserveWrite keys isTemporary mode outcome).reply.get? k)) (m.objects.get? k)
      ((m.reserveWrite keys isTemporary mode outcome).manager.objects.get? k) := by
  have hPairs := zip_keys_nodup hKeys isTemporary
  have hNeeded := missing_nodup (m := m) hPairs
  have hDecided := decidedWrites_eq (m := m) hPairs mode
  have hDecidedKeys : ((decidedWrites (Dict.updateEach (probeWriteKey mode m.nowMs)
      ((keys.zip isTemporary).map Prod.fst) m.objects).1).map Prod.fst).Nodup := by
    rw [hDecided, map_fst_filterMap_pair]
    exact hPairs.filter _
  obtain ⟨err, memory, hReply, -, -, hAfter⟩ | ⟨hReply, hAfter⟩ :=
    m.reserveWrite_outcomes keys isTemporary mode outcome
  · -- nothing is entered, so the first loop decides the state of every key
    have hExtra : writeEvent ((m.reserveWrite keys isTemporary mode outcome).reply.get? k) =
        writeEvent (Dict.find k (decidedWrites (Dict.updateEach (probeWriteKey mode m.nowMs)
          ((keys.zip isTemporary).map Prod.fst) m.objects).1)) := by
      rw [hReply, get?_ofList_append hDecidedKeys (by
        rw [map_map]
        exact hNeeded)]
      rw [find_map Prod.fst fun _ => (err, none)]
      cases hFind : (m.missing (keys.zip isTemporary)).find? fun p => p.1 = k with
      | none => rfl
      | some p =>
        have hAbsent : m.objects.get? k = none := by
          have hpk : p.1 = k := by simpa using find?_some hFind
          exact hpk ▸ mem_missing (mem_of_find?_eq_some hFind)
        have hNone : Dict.find k (decidedWrites (Dict.updateEach (probeWriteKey mode m.nowMs)
            ((keys.zip isTemporary).map Prod.fst) m.objects).1) = none := by
          rw [hDecided, find_filterMap_pair
            (fun a => (probeWriteKey mode m.nowMs a (m.objects.get? a)).1), hAbsent]
          simp [probeWriteKey]
        rw [hNone]
        cases err <;> rfl
    rw [hExtra, hAfter, hDecided, find_filterMap_pair
      (fun a => (probeWriteKey mode m.nowMs a (m.objects.get? a)).1)]
    simp only [get?_updateEach _ hPairs]
    by_cases hk : k ∈ (keys.zip isTemporary).map Prod.fst
    · simp only [hk, if_true]
      exact probeWriteKey_keyStep mode (m.objects.get? k)
    · simp only [hk, if_false]
      exact .kept _
  · rw [hReply, get?_ofList_append hDecidedKeys (by
      rw [map_map]
      exact zip_objs_nodup hNeeded _), hAfter,
      find_map (fun a : (K × Bool) × MemoryObj => a.1.1)
        (fun a => (L1Error.success, some a.2)), hDecided, find_filterMap_pair
        (fun a => (probeWriteKey mode m.nowMs a (m.objects.get? a)).1)]
    simp only [get?_enterAllocated hNeeded, get?_updateEach _ hPairs]
    cases hFind : ((m.missing (keys.zip isTemporary)).zip (List.range' m.memory.allocated
        (m.missing (keys.zip isTemporary)).length)).find? fun a => a.1.1 = k with
    | some a =>
      have hMem := of_mem_zip (mem_of_find?_eq_some hFind)
      have hak : a.1.1 = k := by simpa using find?_some hFind
      have hAbsent : m.objects.get? k = none := hak ▸ mem_missing hMem.1
      simp only [Option.map_some, Option.some_or, hAbsent]
      exact .created a.2 a.1.2 (mem_range'_1.mp hMem.2).1
    | none =>
      simp only [Option.map_none, Option.none_or]
      by_cases hk : k ∈ (keys.zip isTemporary).map Prod.fst
      · simp only [hk, if_true]
        exact probeWriteKey_keyStep mode (m.objects.get? k)
      · simp only [hk, if_false]
        exact .kept _

/-- Inversion of one call: what it reports about `k` and what it does to the entry of `k`. -/
theorem apply_keyStep {op : L1Op K} (hKeys : op.keys.Nodup) (k : K) :
    m.KeyStepOf op.removal (op.eventAt (m.apply op).reply k) (m.objects.get? k)
      ((m.apply op).manager.objects.get? k) := by
  cases op with
  | reserveRead keys readLocks => exact reserveRead_keyStep hKeys readLocks
  | unsafeRead keys => exact unsafeRead_keyStep hKeys
  | finishRead keys readLocks => exact finishRead_keyStep hKeys readLocks
  | reserveWrite keys isTemporary mode outcome =>
    rw [eventAt_reserveWrite]
    exact reserveWrite_keyStep hKeys isTemporary mode outcome
  | finishWrite keys => exact finishWrite_keyStep hKeys
  | finishWriteAndReserveRead keys readLocks =>
    exact finishWriteAndReserveRead_keyStep hKeys readLocks
  | delete keys force => exact delete_keyStep hKeys force
  | touchKeys keys => exact .kept _
  | clear force =>
    cases force with
    | true => exact dropObjects_keyStep fun _ _ => Or.inl rfl
    | false => exact dropObjects_keyStep fun e he => Or.inr (by simpa using he)
  | close => exact dropObjects_keyStep fun _ _ => Or.inl rfl
  | elapse ms => exact .kept _

theorem reserveWrite_monotone (m : L1Manager K) (keys : List K) (isTemporary : List Bool)
    (mode : WriteMode) (outcome : AllocOutcome) :
    m.nowMs ≤ (m.reserveWrite keys isTemporary mode outcome).manager.nowMs ∧
      m.memory.allocated ≤
        (m.reserveWrite keys isTemporary mode outcome).manager.memory.allocated := by
  obtain ⟨-, memory, -, -, hMemory, hAfter⟩ | ⟨-, hAfter⟩ :=
    m.reserveWrite_outcomes keys isTemporary mode outcome
  · rw [hAfter]
    refine ⟨Nat.le_refl _, ?_⟩
    rcases hMemory with rfl | ⟨n, rfl⟩
    · exact Nat.le_refl _
    · exact Nat.le_add_right _ _
  · rw [hAfter]
    exact ⟨Nat.le_refl _, Nat.le_add_right _ _⟩

theorem apply_monotone (m : L1Manager K) (op : L1Op K) :
    m.nowMs ≤ (m.apply op).manager.nowMs ∧
      m.memory.allocated ≤ (m.apply op).manager.memory.allocated := by
  cases op with
  | reserveWrite keys isTemporary mode outcome =>
    exact m.reserveWrite_monotone keys isTemporary mode outcome
  | clear force => cases force <;> exact ⟨Nat.le_refl _, Nat.le_refl _⟩
  | elapse ms => exact ⟨Nat.le_add_right _ _, Nat.le_refl _⟩
  | _ => exact ⟨Nat.le_refl _, Nat.le_refl _⟩

end L1Manager

end LMCache
