import LMCache.L1.Transitions
import LMCache.Lib.Run

/-!
# Who finishes a write reservation

Locks are anonymous. To say whose reservation `finish_write` ends, every successful
`reserve_write` of a key mints a ticket, and a client finishes a write by a ticket that it holds.
An object is exposed when `reserve_read` grants it although its latest ticket was not finished by
the client that holds it. This happens once a time to live runs out, but not in runs in which
every call is `L1Op.sparesWriter`.
-/

namespace LMCache

open Lib List
open Dict hiding keys

variable {K : Type} [DecidableEq K]

def KeyEvent.reservesWrite : KeyEvent → Bool
  | .writeReserved _ => true
  | _ => false

def KeyEvent.finishesWrite : KeyEvent → Bool
  | .writeFinished | .handedOver _ _ => true
  | _ => false

structure ClientCall (K : Type) where
  op : L1Op K
  ticket : K → Nat

/-- A manager with the tickets of its writers. The latest ticket of `k` is `minted k`. -/
structure Ticketed (K : Type) where
  manager : L1Manager K
  minted : K → Nat
  outstanding : K → Nat → Bool
  finished : K → Nat → Bool

namespace Ticketed

def init (m : L1Manager K) : Ticketed K :=
  ⟨m, fun _ => 0, fun _ _ => false, fun _ _ => false⟩

def event (t : Ticketed K) (call : ClientCall K) (k : K) : KeyEvent :=
  call.op.eventAt (t.manager.apply call.op).reply k

def record (t : Ticketed K) (call : ClientCall K) : Ticketed K where
  manager := (t.manager.apply call.op).manager
  minted k := t.minted k + if (t.event call k).reservesWrite then 1 else 0
  outstanding k i :=
    ((t.event call k).reservesWrite && i = t.minted k + 1) ||
      (t.outstanding k i && !((t.event call k).finishesWrite && i = call.ticket k))
  finished k i := t.finished k i || ((t.event call k).finishesWrite && i = call.ticket k)

/-- A client finishes reservations it holds, each one once. -/
def followsProtocol (t : Ticketed K) (call : ClientCall K) : Bool :=
  match call.op with
  | .finishWrite keys | .finishWriteAndReserveRead keys _ =>
    decide keys.Nodup && keys.all fun k => t.outstanding k (call.ticket k)
  | _ => true

def next (t : Ticketed K) (call : ClientCall K) : Option (Ticketed K) :=
  if t.followsProtocol call then some (t.record call) else none

def Step (t : Ticketed K) (call : ClientCall K) (t' : Ticketed K) : Prop :=
  t.next call = some t'

/-- `reserve_read` grants `k` although its latest reservation is unfinished. -/
def Exposes (t : Ticketed K) (call : ClientCall K) (k : K) : Prop :=
  (∃ obj locks, t.event call k = .readReserved obj locks) ∧
    0 < t.minted k ∧ t.finished k (t.minted k) = false

end Ticketed

/-- The call does not take over the reservation of an object `e` under `k` whose write lock
is still counted: it reserves `k` before the lock expires only, and does not remove `e`. -/
def L1Op.sparesWriter (op : L1Op K) (now : Nat) (k : K) (e : L1ObjectState) : Bool :=
  match op with
  | .reserveRead keys _ | .reserveWrite keys _ _ _ =>
    !decide (k ∈ keys) || decide (now < e.writeLock.expirationMs)
  | .delete keys force =>
    !decide (k ∈ keys) || (!force && decide (now < e.writeLock.expirationMs))
  | .clear force => !force && decide (now < e.writeLock.expirationMs)
  | .close => false
  | _ => true

namespace Ticketed

def SparesWriters (t : Ticketed K) (call : ClientCall K) : Prop :=
  ∀ p ∈ t.manager.objects.entries, 0 < p.2.writeLock.counter →
    call.op.sparesWriter t.manager.nowMs p.1 p.2 = true

instance (t : Ticketed K) (call : ClientCall K) : Decidable (t.SparesWriters call) :=
  inferInstanceAs (Decidable (∀ p ∈ t.manager.objects.entries, _))

end Ticketed

/-- The write lock is counted once and no read lock is held. -/
structure L1ObjectState.Reserved (e : L1ObjectState) (now : Nat) : Prop where
  counter_eq : e.writeLock.counter = 1
  not_read : e.readLock.isLocked now = false

theorem TTLLock.lock_counter_of_not_locked {l : TTLLock} {now : Nat}
    (h : l.isLocked now = false) : (l.lock now).counter = 1 := by
  unfold TTLLock.lock
  split
  · rfl
  · rename_i hAhead
    have hNot : ¬(0 < l.counter ∧ now < l.expirationMs) := by
      rw [← TTLLock.isLocked_iff, h]
      simp
    have hZero : l.counter = 0 := by omega
    simp [hZero]

theorem TTLLock.isLocked_eq_false_mono {l : TTLLock} {now now' : Nat} (hNow : now ≤ now')
    (h : l.isLocked now = false) : l.isLocked now' = false := by
  rw [← Bool.not_eq_true, TTLLock.isLocked_iff] at h ⊢
  omega

namespace L1Manager

variable {m : L1Manager K} {k : K} {e : L1ObjectState}

omit [DecidableEq K] in
theorem isLocked_of_reserved (hReserved : e.Reserved m.nowMs)
    (hAhead : m.nowMs < e.writeLock.expirationMs) : e.writeLock.isLocked m.nowMs = true :=
  TTLLock.isLocked_iff.mpr ⟨by rw [hReserved.counter_eq]; omega, hAhead⟩

/-- A loop whose body refuses the entry of `k` leaves it alone, and every outcome it has
for `k` is the refusal. -/
theorem updateEach_refused {ρ : Type} (f : K → Option L1ObjectState → ρ × Option L1ObjectState)
    {keys : List K} {d : Dict K L1ObjectState} {refusal : ρ} (he : d.get? k = some e)
    (hRefused : k ∈ keys → f k (some e) = (refusal, some e)) :
    (Dict.updateEach f keys d).2.get? k = some e ∧
      ∀ r, (k, r) ∈ (Dict.updateEach f keys d).1 → r = refusal := by
  by_cases hk : k ∈ keys
  · have hKeep : ∀ o, o = some e → (f k o).2 = some e := by
      rintro o rfl
      rw [hRefused hk]
    refine ⟨updateEach_binding (P := fun o => o = some e) f hKeep keys he, ?_⟩
    intro r hr
    obtain ⟨o, rfl, hOut, -⟩ := updateEach_mem (P := fun o => o = some e)
      (Q := fun _ => True) f hKeep (fun _ _ => trivial) he hr
    rw [hOut, hRefused hk]
  · refine ⟨(get?_updateEach_of_not_mem f hk d).trans he, ?_⟩
    intro r hr
    have hMem : k ∈ (Dict.updateEach f keys d).1.map Prod.fst := mem_map.mpr ⟨_, hr, rfl⟩
    rw [updateEach_keys] at hMem
    exact absurd hMem hk

/-- `k` is left alone by the call, and the reply reports nothing about it. -/
def LeavesAlone (m : L1Manager K) (op : L1Op K) (k : K) : Prop :=
  (m.apply op).manager.objects.get? k = m.objects.get? k ∧ op.eventAt (m.apply op).reply k = .silent

variable {readLocks : Nat}

theorem reserveRead_leavesAlone {keys : List K} (he : m.objects.get? k = some e)
    (hLocked : k ∈ keys → e.writeLock.isLocked m.nowMs = true) :
    m.LeavesAlone (.reserveRead keys readLocks) k := by
  have hRefused : k ∈ keys → reserveReadKey m.nowMs (validateReadLocks readLocks) k (some e) =
      ((.keyNotReadable, none), some e) := by
    intro hk
    simp [reserveReadKey, L1ObjectState.availableForRead, hLocked hk]
  obtain ⟨hState, hOutcome⟩ := updateEach_refused _ he hRefused
  refine ⟨hState.trans he.symm, ?_⟩
  simp only [L1Op.eventAt, apply, L1Outcome.map, reserveRead]
  cases hReply : (Dict.ofList (Dict.updateEach
      (reserveReadKey m.nowMs (validateReadLocks readLocks)) keys m.objects).1).get? k with
  | none => rfl
  | some r =>
    rw [hOutcome r (mem_of_get?_ofList hReply)]

theorem unsafeRead_leavesAlone (he : m.objects.get? k = some e) (keys : List K) :
    m.LeavesAlone (.unsafeRead keys) k := by
  refine ⟨?_, rfl⟩
  refine updateEach_binding (P := fun o => o = m.objects.get? k) _ ?_ keys rfl
  rintro o rfl
  rw [he]
  simp only [unsafeReadKey]
  split <;> rfl

theorem finishRead_leavesAlone {keys : List K} (he : m.objects.get? k = some e)
    (hRead : e.readLock.isLocked m.nowMs = false) :
    m.LeavesAlone (.finishRead keys readLocks) k := by
  have hRefused : k ∈ keys → finishReadKey m.nowMs (validateReadLocks readLocks) k (some e) =
      ((.keyInWrongState, none), some e) := by
    intro _
    simp [finishReadKey, hRead]
  obtain ⟨hState, hOutcome⟩ := updateEach_refused _ he hRefused
  refine ⟨hState.trans he.symm, ?_⟩
  simp only [L1Op.eventAt, apply, L1Outcome.map, finishRead]
  refine if_neg ?_
  intro hReply
  obtain ⟨o, hMem, hEq⟩ := mem_map.mp (mem_of_get?_ofList hReply)
  obtain ⟨rfl, hSuccess⟩ := Prod.mk.inj hEq
  rw [hOutcome o.2 hMem] at hSuccess
  cases hSuccess

theorem delete_leavesAlone {keys : List K} {force : Bool} (he : m.objects.get? k = some e)
    (hLocked : k ∈ keys → force = false ∧ e.writeLock.isLocked m.nowMs = true) :
    m.LeavesAlone (.delete keys force) k := by
  have hRefused : k ∈ keys → deleteKey force m.nowMs k (some e) =
      ((.keyIsLocked, none), some e) := by
    intro hk
    obtain ⟨hForce, hWrite⟩ := hLocked hk
    simp [deleteKey, L1ObjectState.isLocked, hForce, hWrite]
  obtain ⟨hState, -⟩ := updateEach_refused _ he hRefused
  exact ⟨hState.trans he.symm, rfl⟩

theorem clear_leavesAlone (he : m.objects.get? k = some e)
    (hLocked : e.writeLock.isLocked m.nowMs = true) : m.LeavesAlone (.clear false) k := by
  refine ⟨?_, rfl⟩
  show (m.dropObjects fun e => !e.isLocked m.nowMs).objects.get? k = m.objects.get? k
  simp [dropObjects, get?_filter, he, L1ObjectState.isLocked, hLocked]

/-- Entering allocated objects gives each of their keys a fresh reservation and changes no
other key. -/
theorem enterAllocated_binding (needed : List (K × Bool)) (objs : List MemoryObj)
    (d : Dict K L1ObjectState) (k : K) :
    (k ∉ ((needed.zip objs).map fun a => a.1.1) ∧
      (m.enterAllocated needed objs d).get? k = d.get? k) ∨
    (k ∈ ((needed.zip objs).map fun a => a.1.1) ∧ ∃ obj isTemporary,
      (m.enterAllocated needed objs d).get? k = some (m.reservedState obj isTemporary)) := by
  rw [enterAllocated]
  induction needed.zip objs generalizing d with
  | nil => exact Or.inl ⟨by simp, rfl⟩
  | cons a rest ih =>
    rcases ih (d.set a.1.1 (m.reservedState a.2 a.1.2)) with ⟨hNot, hSame⟩ | ⟨hMem, hNew⟩
    · rw [get?_set] at hSame
      by_cases ha : a.1.1 = k
      · right
        rw [if_pos ha] at hSame
        exact ⟨by simp [ha], a.2, a.1.2, hSame⟩
      · left
        rw [if_neg ha] at hSame
        exact ⟨by simpa [Ne.symm ha] using hNot, hSame⟩
    · exact Or.inr ⟨mem_cons_of_mem _ hMem, hNew⟩

omit [DecidableEq K] in
theorem reservedState_reserved (m : L1Manager K) (obj : MemoryObj) (isTemporary : Bool) :
    (m.reservedState obj isTemporary).Reserved m.nowMs where
  counter_eq := rfl
  not_read := by simp [reservedState, TTLLock.new, TTLLock.isLocked]

omit [DecidableEq K] in
theorem mem_decidedWrites {outcomes : List (K × Option L1OperationResult)}
    {r : L1OperationResult} (h : (k, r) ∈ decidedWrites outcomes) : (k, some r) ∈ outcomes := by
  obtain ⟨⟨k', o⟩, hMem, hMap⟩ := mem_filterMap.mp h
  obtain ⟨r', rfl, hEq⟩ := Option.map_eq_some_iff.mp hMap
  cases hEq
  exact hMem

omit [DecidableEq K] in
theorem mem_zip_keys {keys : List K} {isTemporary : List Bool}
    (h : k ∈ (keys.zip isTemporary).map Prod.fst) : k ∈ keys := by
  obtain ⟨p, hp, rfl⟩ := mem_map.mp h
  exact (of_mem_zip hp).1

variable {mode : WriteMode} {outcome : AllocOutcome}

theorem reserveWrite_refused {keys : List K} {isTemporary : List Bool}
    (he : m.objects.get? k = some e)
    (hRefused : k ∈ (keys.zip isTemporary).map Prod.fst →
      probeWriteKey mode m.nowMs k (some e) = (some (.keyNotWritable, none), some e))
    : m.LeavesAlone (.reserveWrite keys isTemporary mode outcome) k := by
  obtain ⟨hState, hOutcome⟩ := updateEach_refused _ he hRefused
  have hDecided : ∀ r, (k, r) ∈ decidedWrites (Dict.updateEach (probeWriteKey mode m.nowMs)
      ((keys.zip isTemporary).map Prod.fst) m.objects).1 → r = (.keyNotWritable, none) := by
    intro r hr
    simpa using hOutcome (some r) (mem_decidedWrites hr)
  -- a key with an object is not on the allocation list
  have hNotNeeded : k ∉ (m.missing (keys.zip isTemporary)).map Prod.fst := by
    intro hk
    rw [(mem_missing_keys_iff.mp hk).1] at he
    cases he
  rw [LeavesAlone, eventAt_reserveWrite]
  show (m.reserveWrite keys isTemporary mode outcome).manager.objects.get? k = _ ∧ _
  obtain ⟨err, memory, hReply, -, -, hAfter⟩ | ⟨hReply, hAfter⟩ :=
    m.reserveWrite_outcomes keys isTemporary mode outcome
  · refine ⟨by rw [hAfter]; exact hState.trans he.symm, ?_⟩
    rw [hReply]
    cases hGet : (Dict.ofList _).get? k with
    | none => rfl
    | some r =>
      rcases mem_append.mp (mem_of_get?_ofList hGet) with hMem | hMem
      · rw [hDecided r hMem]
        rfl
      · obtain ⟨a, ha, hEq⟩ := mem_map.mp hMem
        exact absurd (mem_map.mpr ⟨a, ha, (Prod.mk.inj hEq).1⟩) hNotNeeded
  · have hNotEntered : ∀ objs : List MemoryObj,
        k ∉ ((m.missing (keys.zip isTemporary)).zip objs).map fun a => a.1.1 := by
      intro objs hk
      obtain ⟨a, ha, hak⟩ := mem_map.mp hk
      exact hNotNeeded (mem_map.mpr ⟨a.1, (of_mem_zip ha).1, hak⟩)
    constructor
    · rw [hAfter]
      rcases enterAllocated_binding (m := m) _ _ _ k with ⟨-, hSame⟩ | ⟨hMem, -⟩
      · exact hSame.trans (hState.trans he.symm)
      · exact absurd hMem (hNotEntered _)
    · rw [hReply]
      cases hGet : (Dict.ofList _).get? k with
      | none => rfl
      | some r =>
        rcases mem_append.mp (mem_of_get?_ofList hGet) with hMem | hMem
        · rw [hDecided r hMem]
          rfl
        · obtain ⟨a, ha, hEq⟩ := mem_map.mp hMem
          exact absurd (mem_map.mpr ⟨a, ha, (Prod.mk.inj hEq).1⟩) (hNotEntered _)

theorem reserveWrite_leavesAlone {keys : List K} {isTemporary : List Bool}
    (he : m.objects.get? k = some e) (hLocked : k ∈ keys → e.writeLock.isLocked m.nowMs = true) :
    m.LeavesAlone (.reserveWrite keys isTemporary mode outcome) k := by
  refine reserveWrite_refused he fun hk => ?_
  simp [probeWriteKey, L1ObjectState.availableForWrite, hLocked (mem_zip_keys hk)]

omit [DecidableEq K] in
/-- A successful probe leaves the entry under reservation, and so does any later probe. -/
theorem probeWriteKey_reserved (mode : WriteMode) (now : Nat) (k : K) (o : Option L1ObjectState) :
    ((∃ e, o = some e ∧ e.Reserved now) →
      ∃ e, (probeWriteKey mode now k o).2 = some e ∧ e.Reserved now) ∧
    (∀ obj, (probeWriteKey mode now k o).1 = some (.success, some obj) →
      ∃ e, (probeWriteKey mode now k o).2 = some e ∧ e.Reserved now) := by
  cases o with
  | none => simp [probeWriteKey]
  | some e =>
    simp only [probeWriteKey]
    split
    · exact ⟨id, by simp⟩
    · split
      · exact ⟨id, by simp⟩
      · rename_i hAvailable
        simp only [L1ObjectState.availableForWrite, Bool.not_eq_false, Bool.and_eq_true,
          Bool.not_eq_true'] at hAvailable
        have hReserved : ({ e with writeLock := e.writeLock.lock now } : L1ObjectState).Reserved
            now := ⟨TTLLock.lock_counter_of_not_locked hAvailable.1.1, hAvailable.1.2⟩
        exact ⟨fun _ => ⟨_, rfl, hReserved⟩, fun _ _ => ⟨_, rfl, hReserved⟩⟩

theorem reserveWrite_reserved {keys : List K} {isTemporary : List Bool} {obj : MemoryObj}
    (h : (m.reserveWrite keys isTemporary mode outcome).reply.get? k = some (.success, some obj))
    : ∃ e, (m.reserveWrite keys isTemporary mode outcome).manager.objects.get? k = some e ∧
      e.Reserved m.nowMs := by
  have hProbe : (k, (L1Error.success, some obj)) ∈ decidedWrites (Dict.updateEach
      (probeWriteKey mode m.nowMs) ((keys.zip isTemporary).map Prod.fst) m.objects).1 →
      ∃ e, (Dict.updateEach (probeWriteKey mode m.nowMs) ((keys.zip isTemporary).map Prod.fst)
        m.objects).2.get? k = some e ∧ e.Reserved m.nowMs := by
    intro hMem
    obtain ⟨o, -, hOut, hRest⟩ := updateEach_mem (P := fun _ => True)
      (Q := fun o => ∃ e, o = some e ∧ e.Reserved m.nowMs) (probeWriteKey mode m.nowMs)
      (fun _ _ => trivial) (fun o => (probeWriteKey_reserved mode m.nowMs k o).1) trivial
      (mem_decidedWrites hMem)
    exact hRest ((probeWriteKey_reserved mode m.nowMs k o).2 obj hOut.symm)
  obtain ⟨err, memory, hReply, hErr, -, hAfter⟩ | ⟨hReply, hAfter⟩ :=
    m.reserveWrite_outcomes keys isTemporary mode outcome
  · rw [hReply] at h
    rw [hAfter]
    rcases mem_append.mp (mem_of_get?_ofList h) with hMem | hMem
    · exact hProbe hMem
    · obtain ⟨a, -, hEq⟩ := mem_map.mp hMem
      exact absurd (Prod.mk.inj (Prod.mk.inj hEq).2).1 hErr
  · rw [hReply] at h
    rw [hAfter]
    rcases enterAllocated_binding (m := m) _ _ _ k with ⟨hNot, hSame⟩ | ⟨-, obj', temp, hNew⟩
    · rcases mem_append.mp (mem_of_get?_ofList h) with hMem | hMem
      · obtain ⟨e, he, hReserved⟩ := hProbe hMem
        exact ⟨e, hSame.trans he, hReserved⟩
      · obtain ⟨a, ha, hEq⟩ := mem_map.mp hMem
        exact absurd (mem_map.mpr ⟨a, ha, (Prod.mk.inj hEq).1⟩) hNot
    · exact ⟨_, hNew, m.reservedState_reserved obj' temp⟩

theorem finishWrite_cases {keys : List K} (hKeys : keys.Nodup) (k : K) :
    m.LeavesAlone (.finishWrite keys) k ∨
      ((L1Op.finishWrite keys).eventAt (m.apply (.finishWrite keys)).reply k).finishesWrite =
        true := by
  have hStep := finishWrite_keyStep (m := m) (k := k) hKeys
  by_cases hReply : (m.finishWrite keys).reply.get? k = some .success
  · right
    have hEvent : (L1Op.finishWrite keys).eventAt (m.apply (.finishWrite keys)).reply k =
        .writeFinished := if_pos hReply
    rw [hEvent]
    rfl
  · left
    have hEvent : (L1Op.finishWrite keys).eventAt (m.apply (.finishWrite keys)).reply k =
        .silent := if_neg hReply
    rw [hEvent] at hStep
    rcases hStep.silent_cases with hSame | ⟨_, _, _, _, hRemoval, _⟩
    · exact ⟨hSame, hEvent⟩
    · cases hRemoval

theorem finishWriteAndReserveRead_cases {keys : List K} (hKeys : keys.Nodup) (readLocks : Nat)
    (k : K) :
    m.LeavesAlone (.finishWriteAndReserveRead keys readLocks) k ∨
      ((L1Op.finishWriteAndReserveRead keys readLocks).eventAt
        (m.apply (.finishWriteAndReserveRead keys readLocks)).reply k).finishesWrite = true := by
  have hStep := finishWriteAndReserveRead_keyStep (m := m) (k := k) hKeys readLocks
  have hEvent : (L1Op.finishWriteAndReserveRead keys readLocks).eventAt
        (m.apply (.finishWriteAndReserveRead keys readLocks)).reply k = .silent ∨
      ((L1Op.finishWriteAndReserveRead keys readLocks).eventAt
        (m.apply (.finishWriteAndReserveRead keys readLocks)).reply k).finishesWrite = true := by
    simp only [L1Op.eventAt, apply, L1Outcome.map]
    split
    · exact Or.inr rfl
    · exact Or.inl rfl
  rcases hEvent with hSilent | hFinishes
  · left
    rw [hSilent] at hStep
    rcases hStep.silent_cases with hSame | ⟨_, _, _, _, hRemoval, _⟩
    · exact ⟨hSame, hSilent⟩
    · cases hRemoval
  · exact Or.inr hFinishes

/-- A call that spares the writer of a reserved object leaves the object alone or ends the
reservation. -/
theorem reserved_cases {op : L1Op K} (he : m.objects.get? k = some e)
    (hReserved : e.Reserved m.nowMs) (hSpares : op.sparesWriter m.nowMs k e = true)
    (hKeys : ∀ keys, (op = .finishWrite keys ∨ ∃ n, op = .finishWriteAndReserveRead keys n) →
      keys.Nodup) :
    m.LeavesAlone op k ∨ (op.eventAt (m.apply op).reply k).finishesWrite = true := by
  cases op with
  | reserveRead keys readLocks =>
    left
    refine reserveRead_leavesAlone he fun hk => isLocked_of_reserved hReserved ?_
    simpa [L1Op.sparesWriter, hk] using hSpares
  | unsafeRead keys => exact Or.inl (unsafeRead_leavesAlone he keys)
  | finishRead keys readLocks => exact Or.inl (finishRead_leavesAlone he hReserved.not_read)
  | reserveWrite keys isTemporary mode outcome =>
    left
    refine reserveWrite_leavesAlone he fun hk => isLocked_of_reserved hReserved ?_
    simpa [L1Op.sparesWriter, hk] using hSpares
  | finishWrite keys => exact finishWrite_cases (hKeys keys (Or.inl rfl)) k
  | finishWriteAndReserveRead keys readLocks =>
    exact finishWriteAndReserveRead_cases (hKeys keys (Or.inr ⟨readLocks, rfl⟩)) readLocks k
  | delete keys force =>
    left
    refine delete_leavesAlone he fun hk => ?_
    simp only [L1Op.sparesWriter, hk, decide_true, Bool.not_true, Bool.false_or, Bool.and_eq_true,
      Bool.not_eq_true', decide_eq_true_eq] at hSpares
    exact ⟨hSpares.1, isLocked_of_reserved hReserved hSpares.2⟩
  | touchKeys keys => exact Or.inl ⟨rfl, rfl⟩
  | clear force =>
    left
    simp only [L1Op.sparesWriter, Bool.and_eq_true, Bool.not_eq_true', decide_eq_true_eq] at hSpares
    rw [hSpares.1]
    exact clear_leavesAlone he (isLocked_of_reserved hReserved hSpares.2)
  | close => cases hSpares
  | elapse ms => exact Or.inl ⟨rfl, rfl⟩

end L1Manager

theorem L1Op.eventAt_reservesWrite {op : L1Op K} {reply : L1Reply K} {k : K}
    (h : (op.eventAt reply k).reservesWrite = true) :
    ∃ keys isTemporary mode outcome ret obj, op = .reserveWrite keys isTemporary mode outcome ∧
      reply = .results ret ∧ ret.get? k = some (.success, some obj) := by
  unfold L1Op.eventAt at h
  split at h
  · split at h <;> cases h
  · split at h <;> cases h
  · split at h
    · rename_i obj hReply
      exact ⟨_, _, _, _, _, obj, rfl, rfl, hReply⟩
    · cases h
  · split at h <;> cases h
  · split at h <;> cases h
  · cases h

theorem L1Manager.event_finishesWrite {m : L1Manager K} {op : L1Op K} {k : K}
    (h : (op.eventAt (m.apply op).reply k).finishesWrite = true) :
    ∃ keys, (op = .finishWrite keys ∨ ∃ n, op = .finishWriteAndReserveRead keys n) ∧ k ∈ keys := by
  cases op with
  | finishWrite keys =>
    refine ⟨keys, Or.inl rfl, ?_⟩
    simp only [L1Op.eventAt, apply, L1Outcome.map, finishWrite] at h
    split at h
    · rename_i hReply
      have hMem := mem_map_of_mem (f := Prod.fst) (mem_of_get?_ofList hReply)
      rwa [updateEach_keys] at hMem
    · cases h
  | finishWriteAndReserveRead keys readLocks =>
    refine ⟨keys, Or.inr ⟨readLocks, rfl⟩, ?_⟩
    simp only [L1Op.eventAt, apply, L1Outcome.map, finishWriteAndReserveRead] at h
    split at h
    · rename_i hReply
      have hMem := mem_map_of_mem (f := Prod.fst) (mem_of_get?_ofList hReply)
      rwa [updateEach_keys] at hMem
    · cases h
  | reserveRead | finishRead | reserveWrite =>
    simp only [L1Op.eventAt, apply, L1Outcome.map] at h
    split at h <;> cases h
  | _ => cases h

namespace Ticketed

/-- An outstanding ticket is the latest of its key and its object is still reserved; the
latest ticket of a key is finished or outstanding. -/
structure Inv (t : Ticketed K) : Prop where
  outstanding : ∀ k i, t.outstanding k i = true → i = t.minted k ∧
    ∃ e, t.manager.objects.get? k = some e ∧ e.Reserved t.manager.nowMs
  latest : ∀ k, 0 < t.minted k →
    t.finished k (t.minted k) = true ∨ t.outstanding k (t.minted k) = true

theorem init_inv (m : L1Manager K) : (init m).Inv where
  outstanding := by
    intro k i h
    cases h
  latest := by
    intro k h
    cases h

variable {t t' : Ticketed K} {call : ClientCall K}

theorem step_iff : Step t call t' ↔ t.followsProtocol call = true ∧ t' = t.record call := by
  unfold Step next
  constructor
  · intro h
    split at h
    · rename_i hProtocol
      exact ⟨hProtocol, (Option.some.inj h).symm⟩
    · cases h
  · rintro ⟨hProtocol, rfl⟩
    rw [if_pos hProtocol]

theorem protocol_finish (h : t.followsProtocol call = true) {keys : List K}
    (hOp : call.op = .finishWrite keys ∨ ∃ n, call.op = .finishWriteAndReserveRead keys n) :
    keys.Nodup ∧ ∀ k ∈ keys, t.outstanding k (call.ticket k) = true := by
  unfold followsProtocol at h
  rcases hOp with hOp | ⟨n, hOp⟩ <;>
  · rw [hOp] at h
    simpa using h

theorem Inv.reserved_cases (h : t.Inv) (hSpares : t.SparesWriters call)
    (hProtocol : t.followsProtocol call = true) {k : K} {i : Nat}
    (hOut : t.outstanding k i = true) :
    t.manager.LeavesAlone call.op k ∨ (t.event call k).finishesWrite = true := by
  obtain ⟨-, e, he, hReserved⟩ := h.outstanding k i hOut
  have hSpared : call.op.sparesWriter t.manager.nowMs k e = true :=
    hSpares (k, e) (get?_eq_some_iff.mp he) (by rw [hReserved.counter_eq]; omega)
  exact L1Manager.reserved_cases he hReserved hSpared
    fun keys hOp => (protocol_finish hProtocol hOp).1

theorem record_silent {k : K} (h : t.event call k = .silent) :
    (t.record call).minted k = t.minted k ∧
      (t.record call).outstanding k = t.outstanding k ∧
      (t.record call).finished k = t.finished k := by
  simp [record, h, KeyEvent.reservesWrite, KeyEvent.finishesWrite]

theorem reserved_later {k : K} (hSame : (t.record call).manager.objects.get? k =
      t.manager.objects.get? k)
    (h : ∃ e, t.manager.objects.get? k = some e ∧ e.Reserved t.manager.nowMs) :
    ∃ e, (t.record call).manager.objects.get? k = some e ∧
      e.Reserved (t.record call).manager.nowMs := by
  obtain ⟨e, he, hReserved⟩ := h
  exact ⟨e, hSame.trans he, hReserved.counter_eq,
    TTLLock.isLocked_eq_false_mono (t.manager.apply_monotone call.op).1 hReserved.not_read⟩

/-- While nobody holds a ticket of `k`, a call can only mint the next one. -/
theorem record_of_no_ticket {k : K} (hNone : ∀ i, t.outstanding k i = false) {i : Nat}
    (hOut : (t.record call).outstanding k i = true) :
    i = (t.record call).minted k ∧ ∃ e, (t.record call).manager.objects.get? k = some e ∧
      e.Reserved (t.record call).manager.nowMs := by
  have hMinted : (t.event call k).reservesWrite = true ∧ i = t.minted k + 1 := by
    simpa [record, hNone] using hOut
  refine ⟨by simp [record, hMinted.1, hMinted.2], ?_⟩
  obtain ⟨keys, isTemporary, mode, outcome, ret, obj, hOp, hReply, hGet⟩ :=
    L1Op.eventAt_reservesWrite hMinted.1
  have hManager : (t.record call).manager =
      (t.manager.reserveWrite keys isTemporary mode outcome).manager := by
    rw [record, hOp]
    rfl
  rw [hOp] at hReply
  have hRet : (t.manager.reserveWrite keys isTemporary mode outcome).reply = ret :=
    L1Reply.results.inj hReply
  rw [← hRet] at hGet
  obtain ⟨e, he, hReserved⟩ := L1Manager.reserveWrite_reserved hGet
  have hNow := (t.manager.reserveWrite_monotone keys isTemporary mode outcome).1
  rw [hManager]
  exact ⟨e, he, hReserved.counter_eq, TTLLock.isLocked_eq_false_mono hNow hReserved.not_read⟩

theorem step_inv (hSpares : t.SparesWriters call) (hStep : Step t call t') (h : t.Inv) :
    t'.Inv := by
  obtain ⟨hProtocol, rfl⟩ := step_iff.mp hStep
  constructor
  · intro k i hOut
    by_cases hHeld : ∃ j, t.outstanding k j = true
    · obtain ⟨j, hj⟩ := hHeld
      rcases h.reserved_cases hSpares hProtocol hj with ⟨hSame, hSilent⟩ | hFinishes
      · obtain ⟨hMinted, hOutstanding, -⟩ := record_silent hSilent
        rw [hOutstanding] at hOut
        obtain ⟨hLatest, hReserved⟩ := h.outstanding k i hOut
        exact ⟨hLatest.trans hMinted.symm, reserved_later hSame hReserved⟩
      · -- the only ticket of `k` is the one the call ends
        exfalso
        obtain ⟨keys, hOp, hk⟩ := L1Manager.event_finishesWrite hFinishes
        have hTicket := (h.outstanding k _ ((protocol_finish hProtocol hOp).2 k hk)).1
        have hReserves : (t.event call k).reservesWrite = false := by
          cases hEvent : t.event call k <;> simp_all [KeyEvent.reservesWrite,
            KeyEvent.finishesWrite]
        have hOld : t.outstanding k i = true ∧ i ≠ call.ticket k := by
          simpa [record, hReserves, hFinishes] using hOut
        exact hOld.2 ((h.outstanding k i hOld.1).1.trans hTicket.symm)
    · exact record_of_no_ticket (fun j => by simpa using fun hj => hHeld ⟨j, hj⟩) hOut
  · intro k hPos
    by_cases hReserves : (t.event call k).reservesWrite = true
    · right
      simp [record, hReserves]
    · have hMinted : (t.record call).minted k = t.minted k := by simp [record, hReserves]
      rw [hMinted] at hPos ⊢
      rcases h.latest k hPos with hFinished | hOut
      · left
        simp [record, hFinished]
      · by_cases hEnds : (t.event call k).finishesWrite = true ∧ t.minted k = call.ticket k
        · left
          simp [record, hEnds.1, hEnds.2]
        · right
          rcases not_and_or.mp hEnds with hSilent | hOther
          · simp [record, hOut, hSilent]
          · simp [record, hOut, hOther]

/-- In every run that spares unfinished reservations, `reserve_read` grants finished data
only. -/
theorem run_never_exposes {writeTtl readTtl now : Nat} {calls : List (ClientCall K)}
    (hRun : Run (Run.Under SparesWriters Step) (init (L1Manager.new writeTtl readTtl now)) calls t)
    (hProtocol : t.followsProtocol call = true) (hSpares : t.SparesWriters call) (k : K) :
    ¬t.Exposes call k := by
  have hInv : t.Inv :=
    hRun.invariant (I := Ticketed.Inv) (fun _ _ _ h hs => step_inv hs.1 hs.2 h) (init_inv _)
  rintro ⟨⟨obj, locks, hEvent⟩, hPos, hUnfinished⟩
  rcases hInv.latest k hPos with hFinished | hOut
  · rw [hUnfinished] at hFinished
    cases hFinished
  · rcases hInv.reserved_cases hSpares hProtocol hOut with ⟨-, hSilent⟩ | hFinishes
    · rw [show t.event call k = .silent from hSilent] at hEvent
      cases hEvent
    · rw [hEvent] at hFinishes
      cases hFinishes

/-- A write, its finish by the ticket holder, and a rewrite by a second client. -/
def rewriteCalls : List (ClientCall Nat) :=
  [⟨.reserveWrite [7] [false] .new .success, fun _ => 0⟩, ⟨.finishWrite [7], fun _ => 1⟩,
    ⟨.reserveRead [7] 1, fun _ => 0⟩, ⟨.finishRead [7] 1, fun _ => 0⟩,
    ⟨.reserveWrite [7] [false] .update .success, fun _ => 0⟩]

def rewritten : Ticketed Nat := rewriteCalls.foldl record (init (L1Manager.new 600 300 0))

theorem rewritten_run : Run (Run.Under SparesWriters Step) (init (L1Manager.new 600 300 0))
    rewriteCalls rewritten := Run.under_of_exec SparesWriters Ticketed.next rfl

theorem rewritten_never_exposes :
    Run (Run.Under SparesWriters Step) (init (L1Manager.new 600 300 0)) rewriteCalls rewritten ∧
      rewritten.SparesWriters ⟨.reserveRead [7] 1, fun _ => 0⟩ ∧
      ¬rewritten.Exposes ⟨.reserveRead [7] 1, fun _ => 0⟩ 7 :=
  ⟨rewritten_run, by decide, run_never_exposes rewritten_run rfl (by decide) 7⟩

/-- The reservation expires unfinished and is then read. -/
def expiredCalls : List (ClientCall Nat) :=
  [⟨.reserveWrite [7] [false] .new .success, fun _ => 0⟩, ⟨.elapse 600000, fun _ => 0⟩]

/-- The first writer comes back after a second one has taken over its expired reservation,
and ends the reservation of the second. -/
def lateFinishCalls : List (ClientCall Nat) :=
  [⟨.reserveWrite [7] [false] .new .success, fun _ => 0⟩, ⟨.elapse 600000, fun _ => 0⟩,
    ⟨.reserveWrite [7] [false] .all .success, fun _ => 0⟩, ⟨.finishWrite [7], fun _ => 1⟩]

theorem expired_reservation_exposed :
    (∃ t, Run Step (init (L1Manager.new 600 300 0)) expiredCalls t ∧
      t.Exposes ⟨.reserveRead [7] 1, fun _ => 0⟩ 7) ∧
    ∃ t, Run Step (init (L1Manager.new 600 300 0)) lateFinishCalls t ∧
      t.Exposes ⟨.reserveRead [7] 1, fun _ => 0⟩ 7 := by
  refine ⟨⟨expiredCalls.foldl record (init (L1Manager.new 600 300 0)),
    Run.of_exec Ticketed.next rfl, ⟨0, 1, by decide⟩, by decide, by decide⟩,
    lateFinishCalls.foldl record (init (L1Manager.new 600 300 0)),
    Run.of_exec Ticketed.next rfl, ⟨0, 1, by decide⟩, by decide, by decide⟩

end Ticketed

end LMCache
