import LMCache.L1.Accounting
import LMCache.Lib.Run

/-!
# Safety of the L1 lock state machine

Runs of the manager in which no counted lock expires. A ghost ledger counts, for every memory
object, the read locks that were granted and finished, and remembers forced removals. The write
counter is at most one, the two counters are never positive together, and the read counter covers
what the ledger says is outstanding.
-/

namespace LMCache

open Lib TTLLock L1Manager Option

variable {K : Type} [DecidableEq K]

/-- No counted lock of any object has outlived its time to live. -/
def L1Manager.NoExpiry (m : L1Manager K) : Prop :=
  ∀ e ∈ m.objects.values, e.writeLock.Live m.nowMs ∧ e.readLock.Live m.nowMs

instance (m : L1Manager K) : Decidable m.NoExpiry :=
  inferInstanceAs (Decidable (∀ e ∈ m.objects.values, _))

theorem L1Manager.NoExpiry.live {m : L1Manager K} (h : m.NoExpiry) {k : K} {e : L1ObjectState}
    (he : m.objects.get? k = some e) : e.writeLock.Live m.nowMs ∧ e.readLock.Live m.nowMs :=
  h e (List.mem_map.mpr ⟨(k, e), Dict.get?_eq_some_iff.mp he, rfl⟩)

def KeyEvent.grants (obj : MemoryObj) : KeyEvent → Nat
  | .readReserved obj' locks | .handedOver obj' locks => if obj' = obj then locks else 0
  | _ => 0

def KeyEvent.finishes : KeyEvent → Nat
  | .readFinished locks => locks
  | _ => 0

structure Traced (K : Type) where
  manager : L1Manager K
  granted : K → MemoryObj → Nat
  finished : K → MemoryObj → Nat
  forceRemoved : K → MemoryObj → Bool

namespace Traced

def init (m : L1Manager K) : Traced K := ⟨m, fun _ _ => 0, fun _ _ => 0, fun _ _ => false⟩

def record (t : Traced K) (op : L1Op K) : Traced K :=
  let r := t.manager.apply op
  { manager := r.manager
    granted := fun k obj => t.granted k obj + (op.eventAt r.reply k).grants obj
    finished := fun k obj => t.finished k obj +
      if t.manager.heldBy k = some obj then (op.eventAt r.reply k).finishes else 0
    forceRemoved := fun k obj => t.forceRemoved k obj ||
      (op.isForced && t.manager.heldBy k = some obj && r.manager.heldBy k = none) }

/-- One call over distinct keys, with no lock expired before or after it. -/
def next (t : Traced K) (op : L1Op K) : Option (Traced K) :=
  if op.keys.Nodup ∧ t.manager.NoExpiry ∧ (t.record op).manager.NoExpiry then some (t.record op)
  else none

def Step (t : Traced K) (op : L1Op K) (t' : Traced K) : Prop := t.next op = some t'

variable {t : Traced K}

theorem step_iff {t' : Traced K} {op : L1Op K} :
    Step t op t' ↔ op.keys.Nodup ∧ t.manager.NoExpiry ∧ t'.manager.NoExpiry ∧ t' = t.record op := by
  unfold Step next
  constructor
  · intro h
    split at h
    · rename_i hCond
      obtain rfl := some.inj h
      exact ⟨hCond.1, hCond.2.1, hCond.2.2, rfl⟩
    · cases h
  · rintro ⟨hKeys, hBefore, hAfter, rfl⟩
    rw [if_pos ⟨hKeys, hBefore, hAfter⟩]

/-- The counters of one object, with `outstanding` bounding what the ledger says is still
read-locked. -/
structure CountersOk (e : L1ObjectState) (granted finished : Nat) : Prop where
  write_le_one : e.writeLock.counter ≤ 1
  exclusive : e.writeLock.counter = 0 ∨ e.readLock.counter = 0
  outstanding : granted ≤ finished + e.readLock.counter

structure Inv (t : Traced K) : Prop where
  accounted : t.manager.Accounted
  present : ∀ k e, t.manager.objects.get? k = some e →
    CountersOk e (t.granted k e.memoryObj) (t.finished k e.memoryObj)
  absent : ∀ k obj, t.manager.heldBy k ≠ some obj →
    t.granted k obj ≤ t.finished k obj ∨ t.forceRemoved k obj = true
  unborn : ∀ k (obj : Nat), t.manager.memory.allocated ≤ obj → t.granted k obj = 0

section KeyStep

variable {now fresh writeTtl readTtl : Nat} {removal : Option Bool} {ev : KeyEvent}
  {o o' : Option L1ObjectState} {granted finished : MemoryObj → Nat}

theorem keyStep_present (hStep : KeyStep now fresh writeTtl readTtl removal ev o o')
    (hLive : ∀ e, o = some e → e.writeLock.Live now ∧ e.readLock.Live now)
    (hLive' : ∀ e, o' = some e → e.readLock.Live now)
    (hOk : ∀ e, o = some e → CountersOk e (granted e.memoryObj) (finished e.memoryObj))
    (hUnborn : ∀ obj : Nat, fresh ≤ obj → granted obj = 0) {e' : L1ObjectState}
    (he' : o' = some e') :
    CountersOk e' (granted e'.memoryObj + ev.grants e'.memoryObj) (finished e'.memoryObj +
        if o.map L1ObjectState.memoryObj = some e'.memoryObj then ev.finishes else 0) := by
  cases hStep with
  | kept =>
    have h := hOk e' he'
    simpa [KeyEvent.grants, KeyEvent.finishes] using h
  | readReserved e locks hWrite =>
    obtain ⟨hLiveW, hLiveR⟩ := hLive e rfl
    have h := hOk e rfl
    have hCount := hLiveR.lockTimes_counter (hLive' _ rfl)
    have hZero := hLiveW.isLocked_eq_false_iff.mp hWrite
    cases he'
    refine ⟨h.write_le_one, Or.inl hZero, ?_⟩
    have hOut := h.outstanding
    simp only [KeyEvent.grants, KeyEvent.finishes, hCount, if_true, ite_self]
    omega
  | readFinished e locks hWrite =>
    have h := hOk e rfl
    have hZero := (hLive e rfl).1.isLocked_eq_false_iff.mp hWrite
    cases he'
    refine ⟨h.write_le_one, Or.inl hZero, ?_⟩
    have hOut := h.outstanding
    simp only [KeyEvent.grants, KeyEvent.finishes, unlockTimes_counter, map_some, if_true]
    omega
  | temporaryFreed => cases he'
  | writeReserved e hWrite hRead =>
    obtain ⟨hLiveW, hLiveR⟩ := hLive e rfl
    have h := hOk e rfl
    have hZeroW := hLiveW.isLocked_eq_false_iff.mp hWrite
    have hZeroR := hLiveR.isLocked_eq_false_iff.mp hRead
    cases he'
    refine ⟨?_, Or.inr hZeroR, ?_⟩
    · simp only [hLiveW.lock_counter]
      omega
    · simpa [KeyEvent.grants, KeyEvent.finishes] using h.outstanding
  | created obj isTemporary hFresh =>
    cases he'
    refine ⟨?_, Or.inr rfl, ?_⟩
    · simp [TTLLock.lock, TTLLock.new]
    · simp [KeyEvent.grants, hUnborn obj hFresh]
  | writeFinished e hWrite hRead =>
    have h := hOk e rfl
    have hOne := h.write_le_one
    cases he'
    refine ⟨?_, Or.inl ?_, ?_⟩
    · simp only [unlock_counter]
      omega
    · simp only [unlock_counter]
      omega
    · simpa [KeyEvent.grants, KeyEvent.finishes] using h.outstanding
  | handedOver e locks hWrite hRead =>
    obtain ⟨-, hLiveR⟩ := hLive e rfl
    have h := hOk e rfl
    have hOne := h.write_le_one
    have hOut := h.outstanding
    have hCount := hLiveR.lockTimes_counter (hLive' _ rfl)
    cases he'
    refine ⟨?_, Or.inl ?_, ?_⟩
    · simp only [unlock_counter]
      omega
    · simp only [unlock_counter]
      omega
    · simp only [KeyEvent.grants, KeyEvent.finishes, hCount, if_true, ite_self]
      omega
  | removed => cases he'

variable {obj : MemoryObj}

/-- An object leaves its key only with nothing outstanding, or by force. -/
theorem keyStep_absent (granted finished : MemoryObj → Nat)
    (hStep : KeyStep now fresh writeTtl readTtl removal ev o o')
    (hLive : ∀ e, o = some e → e.readLock.Live now)
    (hOk : ∀ e, o = some e → CountersOk e (granted e.memoryObj) (finished e.memoryObj))
    (hBefore : o.map L1ObjectState.memoryObj = some obj)
    (hAfter : o'.map L1ObjectState.memoryObj ≠ some obj) : (o' = none ∧ removal = some true) ∨
      granted obj + ev.grants obj ≤ finished obj + ev.finishes := by
  cases hStep with
  | kept | readReserved e | readFinished e => exact absurd hBefore hAfter
  | temporaryFreed e locks hWrite hRead hTemporary hLast =>
    right
    obtain rfl := some.inj hBefore
    have hOut := (hOk e rfl).outstanding
    have hZero := ((hLive e rfl).unlockTimes locks).isLocked_eq_false_iff.mp hLast
    rw [unlockTimes_counter] at hZero
    simp only [KeyEvent.grants, KeyEvent.finishes]
    omega
  | writeReserved e => exact absurd hBefore hAfter
  | created => cases hBefore
  | writeFinished e => exact absurd hBefore hAfter
  | handedOver e => exact absurd hBefore hAfter
  | removed e force hRemoval hFree =>
    rcases hFree with hForce | hUnlocked
    · left
      exact ⟨rfl, hForce ▸ hRemoval⟩
    · right
      obtain rfl := some.inj hBefore
      have hOut := (hOk e rfl).outstanding
      have hRead : e.readLock.isLocked now = false := (Bool.or_eq_false_iff.mp hUnlocked).1
      have hZero := (hLive e rfl).isLocked_eq_false_iff.mp hRead
      simp only [KeyEvent.grants, KeyEvent.finishes]
      omega

theorem keyStep_grants (hStep : KeyStep now fresh writeTtl readTtl removal ev o o')
    (hObj : o.map L1ObjectState.memoryObj ≠ some obj) : ev.grants obj = 0 := by
  cases hStep with
  | readReserved e | handedOver e => exact if_neg fun h => hObj (congrArg some h)
  | _ => rfl

theorem keyStep_held (hStep : KeyStep now fresh writeTtl readTtl removal ev o o')
    {obj : Nat} (hObj : o'.map L1ObjectState.memoryObj = some obj) :
    o.map L1ObjectState.memoryObj = some obj ∨ fresh ≤ obj := by
  cases hStep with
  | created obj' isTemporary hFresh =>
    right
    obtain rfl := some.inj hObj
    exact hFresh
  | temporaryFreed => cases hObj
  | removed => cases hObj
  | _ => exact Or.inl hObj

end KeyStep

variable {m : L1Manager K}

theorem init_inv (hEmpty : m.objects = Dict.empty) (hAccounted : m.Accounted) : (init m).Inv where
  accounted := hAccounted
  present := by
    intro k e he
    rw [init, hEmpty, Dict.get?_empty] at he
    cases he
  absent := fun _ _ _ => Or.inl (Nat.le_refl _)
  unborn := fun _ _ _ => rfl

theorem step_inv {t' : Traced K} {op : L1Op K} (hStep : Step t op t') (h : t.Inv) : t'.Inv := by
  obtain ⟨hKeys, hBefore, hAfter, rfl⟩ := step_iff.mp hStep
  have hKey := fun k => apply_keyStep (m := t.manager) hKeys k
  obtain ⟨hNow, hLe⟩ := t.manager.apply_monotone op
  refine ⟨h.accounted.apply hKeys, ?_, ?_, ?_⟩
  · intro k e' he'
    exact keyStep_present (hKey k) (fun e he => hBefore.live he)
      (fun e he => (hAfter.live he).2.mono hNow) (h.present k) (h.unborn k) he'
  · intro k obj hGone
    by_cases hHeld : t.manager.heldBy k = some obj
    · rcases keyStep_absent (t.granted k) (t.finished k) (hKey k)
          (fun e he => (hBefore.live he).2) (h.present k) hHeld hGone with ⟨hNone, hForced⟩ | hDone
      · right
        have hAbsent : (t.manager.apply op).manager.heldBy k = none := by
          rw [L1Manager.heldBy, hNone]
          rfl
        simp [record, L1Op.isForced, hForced, hHeld, hAbsent]
      · left
        simpa [record, hHeld] using hDone
    · have hNone : (op.eventAt (t.manager.apply op).reply k).grants obj = 0 :=
        keyStep_grants (hKey k) hHeld
      rcases h.absent k obj hHeld with hDone | hForced
      · left
        simpa [record, hHeld, hNone] using hDone
      · right
        simp [record, hForced]
  · intro k obj hObj
    have hHeld : t.manager.heldBy k ≠ some obj := by
      intro hk
      have hLt := h.accounted.held_lt k obj hk
      exact absurd (Nat.lt_of_lt_of_le hLt hLe) (Nat.not_lt.mpr hObj)
    have hNone : (op.eventAt (t.manager.apply op).reply k).grants obj = 0 :=
      keyStep_grants (hKey k) hHeld
    have hOld := h.unborn k obj (Nat.le_trans hLe hObj)
    show t.granted k obj + _ = 0
    rw [hOld, hNone]

variable {k : K}

theorem freed_of_gone (h : m.Accounted) (op : L1Op K) (hKeys : op.keys.Nodup) {obj : Nat}
    (hHeld : m.heldBy k = some obj) (hGone : (m.apply op).manager.heldBy k = none) :
    obj ∈ (m.apply op).manager.memory.freed := by
  by_contra hNot
  have hLt := Nat.lt_of_lt_of_le (h.held_lt k obj hHeld) (m.apply_monotone op).2
  obtain ⟨k', hk'⟩ := (h.apply hKeys).live_held obj hLt hNot
  rcases keyStep_held (apply_keyStep (m := m) hKeys k') hk' with hOld | hFresh
  · have hEq := h.held_inj k k' obj hHeld hOld
    rw [← hEq, hGone] at hk'
    cases hk'
  · exact absurd (h.held_lt k obj hHeld) (Nat.not_lt.mpr hFresh)

structure LockSafe (t : Traced K) : Prop where
  /-- No object is read-locked and write-locked at once. -/
  exclusive : ∀ k e, t.manager.objects.get? k = some e →
    ¬(e.readLock.isLocked t.manager.nowMs = true ∧ e.writeLock.isLocked t.manager.nowMs = true)
  /-- An object with outstanding read locks stays under its key unless removed by force. -/
  readers_keep : ∀ k obj, t.finished k obj < t.granted k obj →
    t.manager.heldBy k = some obj ∨ t.forceRemoved k obj = true
  /-- Without force, no removal touches a locked object. -/
  locked_stays : ∀ keys : List K, keys.Nodup → ∀ k e, t.manager.objects.get? k = some e →
    e.isLocked t.manager.nowMs = true →
    (t.manager.delete keys false).manager.objects.get? k = some e ∧
    (t.manager.clear false).manager.objects.get? k = some e ∧
    (t.manager.executeEvictionAction keys).manager.objects.get? k = some e
  /-- Allocated and not freed equals held. -/
  live_iff_held : ∀ obj : Nat,
    (obj < t.manager.memory.allocated ∧ obj ∉ t.manager.memory.freed) ↔
      ∃ k, t.manager.heldBy k = some obj
  held_once : ∀ k k' obj, t.manager.heldBy k = some obj → t.manager.heldBy k' = some obj → k = k'
  freed_once : t.manager.memory.freed.Nodup
  /-- Finishing the last read lock of a temporary object frees it. -/
  temporary_freed : ∀ keys readLocks, keys.Nodup → ∀ k e, t.manager.objects.get? k = some e →
    e.isTemporary = true →
    (t.manager.finishRead keys readLocks).reply.get? k = some .success →
    ((t.manager.finishRead keys readLocks).manager.objects.get? k = none ↔
      e.readLock.counter ≤ validateReadLocks readLocks) ∧
    ((t.manager.finishRead keys readLocks).manager.objects.get? k = none →
      e.memoryObj ∈ (t.manager.finishRead keys readLocks).manager.memory.freed)
  /-- Otherwise a temporary object leaves only through a removal that may take it. -/
  temporary_removed : ∀ op : L1Op K, op.keys.Nodup → ∀ k e, t.manager.objects.get? k = some e →
    e.isTemporary = true → (t.manager.apply op).manager.objects.get? k = none →
    (∃ keys readLocks, op = .finishRead keys readLocks ∧
      e.readLock.counter ≤ validateReadLocks readLocks) ∨
    (∃ force, op.removal = some force ∧ (force = true ∨ e.isLocked t.manager.nowMs = false))

variable {e : L1ObjectState}

theorem Inv.exclusive (h : t.Inv) (he : t.manager.objects.get? k = some e) :
    ¬(e.readLock.isLocked t.manager.nowMs = true ∧
      e.writeLock.isLocked t.manager.nowMs = true) := by
  rintro ⟨hRead, hWrite⟩
  have hReadPos := (TTLLock.isLocked_iff.mp hRead).1
  have hWritePos := (TTLLock.isLocked_iff.mp hWrite).1
  rcases (h.present k e he).exclusive with hZero | hZero <;> omega

theorem Inv.readers_keep (h : t.Inv) {obj : MemoryObj} (hOut : t.finished k obj < t.granted k obj)
    : t.manager.heldBy k = some obj ∨ t.forceRemoved k obj = true := by
  by_cases hHeld : t.manager.heldBy k = some obj
  · exact Or.inl hHeld
  · right
    rcases h.absent k obj hHeld with hDone | hForced
    · omega
    · exact hForced

theorem locked_stays (op : L1Op K) (hKeys : op.keys.Nodup) (hRemoval : op.removal = some false)
    (hSilent : ∀ reply k, op.eventAt reply k = .silent) (he : m.objects.get? k = some e)
    (hLocked : e.isLocked m.nowMs = true) : (m.apply op).manager.objects.get? k = some e := by
  have hStep := apply_keyStep (m := m) hKeys k
  rw [hSilent, he] at hStep
  rcases hStep.silent_cases with hSame | ⟨e', force, hEq, -, hForce, hFree⟩
  · exact hSame
  · cases hEq
    rw [hRemoval] at hForce
    cases hForce
    rcases hFree with hFalse | hUnlocked
    · cases hFalse
    · rw [hLocked] at hUnlocked
      cases hUnlocked

/-- Finishing read locks on a temporary object removes it exactly when the last one goes. -/
theorem finishRead_gone_iff {keys : List K} (hKeys : keys.Nodup) (readLocks : Nat)
    (he : m.objects.get? k = some e) (hTemporary : e.isTemporary = true)
    (hReply : (m.finishRead keys readLocks).reply.get? k = some .success) :
    (m.finishRead keys readLocks).manager.objects.get? k = none ↔
      e.readLock.counter ≤ validateReadLocks readLocks := by
  have hStep := finishRead_keyStep (m := m) (k := k) hKeys readLocks
  have hEvent : (L1Op.finishRead keys readLocks).eventAt
      (m.apply (.finishRead keys readLocks)).reply k =
        .readFinished (validateReadLocks readLocks) := if_pos hReply
  rw [hEvent, he] at hStep
  generalize (m.finishRead keys readLocks).manager.objects.get? k = o at hStep ⊢
  cases hStep with
  | readFinished _ _ _ hRead hKeep =>
    rcases hKeep with hNot | hStill
    · rw [hTemporary] at hNot
      cases hNot
    · rw [← unlockTimes_isLocked_eq_false_iff hRead, hStill]
      simp
  | temporaryFreed _ _ _ hRead _ hLast =>
    rw [← unlockTimes_isLocked_eq_false_iff hRead, hLast]
    simp

theorem Inv.lockSafe (h : t.Inv) : t.LockSafe where
  exclusive := fun k e he => h.exclusive he
  readers_keep := fun k obj hOut => h.readers_keep hOut
  locked_stays := by
    intro keys hKeys k e he hLocked
    have hDelete := locked_stays (.delete keys false) hKeys rfl
      (fun reply _ => by cases reply <;> rfl) he hLocked
    exact ⟨hDelete, locked_stays (.clear false) List.nodup_nil rfl
      (fun reply _ => by cases reply <;> rfl) he hLocked, hDelete⟩
  live_iff_held := fun obj =>
    ⟨fun hLive => h.accounted.live_held obj hLive.1 hLive.2,
      fun ⟨k, hk⟩ => ⟨h.accounted.held_lt k obj hk, h.accounted.held_not_freed k obj hk⟩⟩
  held_once := h.accounted.held_inj
  freed_once := h.accounted.freed_nodup
  temporary_freed := by
    intro keys readLocks hKeys k e he hTemporary hReply
    refine ⟨finishRead_gone_iff hKeys readLocks he hTemporary hReply, ?_⟩
    intro hGone
    refine freed_of_gone h.accounted (.finishRead keys readLocks) hKeys (k := k) ?_ ?_
    · exact heldBy_eq_some_iff.mpr ⟨e, he, rfl⟩
    · show ((t.manager.finishRead keys readLocks).manager.objects.get? k).map _ = none
      rw [hGone]
      rfl
  temporary_removed := by
    intro op hKeys k e he hTemporary hGone
    have hStep := apply_keyStep (m := t.manager) hKeys k
    rw [he, hGone] at hStep
    rcases hStep.gone_cases with ⟨locks, hEvent, -, hRead, hLast⟩ | hRemoved
    · left
      obtain ⟨keys, readLocks, hOp, rfl⟩ := L1Op.eventAt_eq_readFinished hEvent
      exact ⟨keys, readLocks, hOp, (unlockTimes_isLocked_eq_false_iff hRead _).mp hLast⟩
    · exact Or.inr hRemoved

/-- In every run of the manager over distinct keys without lock expiry, every state
reached is safe. -/
theorem run_lockSafe {writeTtl readTtl now : Nat} {ops : List (L1Op K)} {t : Traced K}
    (hRun : Run Step (init (L1Manager.new writeTtl readTtl now)) ops t) : t.LockSafe := by
  have hInit := init_inv (K := K) (m := L1Manager.new writeTtl readTtl now) rfl
    (new_accounted writeTtl readTtl now)
  exact (hRun.invariant (fun _ _ _ h hStep => step_inv hStep h) hInit).lockSafe

/-- Two readers of one object, a temporary object consumed by its reader, and a plain
delete that the remaining reader refuses. -/
def sharedReadOps : List (L1Op Nat) :=
  [.reserveWrite [0, 1] [false, true] .all .success, .finishWrite [0],
    .finishWriteAndReserveRead [1] 1, .reserveRead [0] 2, .finishRead [0, 1] 1,
    .delete [0] false, .elapse 1000]

def sharedRead : Traced Nat := sharedReadOps.foldl record (init (L1Manager.new 600 300 0))

theorem sharedRead_run : Run Step (init (L1Manager.new 600 300 0)) sharedReadOps sharedRead :=
  Run.of_exec Traced.next rfl

theorem sharedRead_lockSafe :
    Run Step (init (L1Manager.new 600 300 0)) sharedReadOps sharedRead ∧ sharedRead.LockSafe :=
  ⟨sharedRead_run, run_lockSafe sharedRead_run⟩

def forcedDeleteOps : List (L1Op Nat) :=
  [.reserveWrite [0] [false] .all .success, .finishWrite [0], .reserveRead [0] 1, .delete [0] true]

/-- A temporary object that is deleted before anyone reads it. -/
def unreadTemporaryOps : List (L1Op Nat) :=
  [.reserveWrite [0] [true] .new .success, .finishWrite [0]]

/-- Force takes an object away from its reader, and a plain delete frees a temporary object
that was never read. -/
theorem readers_lose_to_force :
    (¬∀ (ops : List (L1Op Nat)) (t : Traced Nat),
      Run Step (init (L1Manager.new 600 300 0)) ops t →
        ∀ k obj, t.finished k obj < t.granted k obj → t.manager.heldBy k = some obj) ∧
    ¬∀ (ops : List (L1Op Nat)) (t : Traced Nat),
      Run Step (init (L1Manager.new 600 300 0)) ops t →
        ∀ (op : L1Op Nat) k e, t.manager.objects.get? k = some e → e.isTemporary = true →
          e.memoryObj ∈ (t.manager.apply op).manager.memory.freed →
            ∃ keys readLocks, op = .finishRead keys readLocks := by
  constructor
  · intro h
    have hRun : Run Step (init (L1Manager.new 600 300 0)) forcedDeleteOps
        (forcedDeleteOps.foldl record (init (L1Manager.new 600 300 0))) :=
      Run.of_exec Traced.next rfl
    exact absurd (h _ _ hRun 0 0 (by decide)) (by decide)
  · intro h
    have hRun : Run Step (init (L1Manager.new 600 300 0)) unreadTemporaryOps
        (unreadTemporaryOps.foldl record (init (L1Manager.new 600 300 0))) :=
      Run.of_exec Traced.next rfl
    obtain ⟨keys, readLocks, hOp⟩ :=
      h _ _ hRun (.delete [0] false) 0 _ rfl rfl (by decide)
    cases hOp

end Traced

end LMCache
