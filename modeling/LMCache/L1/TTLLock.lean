import Mathlib.Tactic.Common

/-!
# The counting lock with a time to live

`TTLLock` of the native extension. A lock is a counter and an expiration time: locking past
the expiration restarts the counter at one, unlocking stops at zero and never looks at the
clock, and the lock is held while the counter is positive and the expiration lies ahead.
The atomics of the source are read under the manager's mutex, so every operation here is
one step at one reading `now` of the millisecond clock.
-/

namespace LMCache

structure TTLLock where
  counter : Nat
  expirationMs : Nat
  ttlMs : Nat
deriving DecidableEq, Repr

namespace TTLLock

def new (ttlSec : Nat) : TTLLock := ⟨0, 0, ttlSec * 1000⟩

def lock (l : TTLLock) (now : Nat) : TTLLock :=
  if l.expirationMs ≤ now then
    { l with counter := 1, expirationMs := now + l.ttlMs }
  else
    { l with counter := l.counter + 1, expirationMs := now + l.ttlMs }

def unlock (l : TTLLock) : TTLLock := { l with counter := l.counter - 1 }

def isLocked (l : TTLLock) (now : Nat) : Bool :=
  decide (0 < l.counter) && decide (now < l.expirationMs)

/-- `for _ in range(total): lock()`. -/
def lockTimes (l : TTLLock) (now : Nat) : Nat → TTLLock
  | 0 => l
  | total + 1 => (l.lockTimes now total).lock now

/-- `for _ in range(total): unlock()`. -/
def unlockTimes (l : TTLLock) : Nat → TTLLock
  | 0 => l
  | total + 1 => (l.unlockTimes total).unlock

/-- The time to live has not run out on a lock that is still counted. -/
def Live (l : TTLLock) (now : Nat) : Prop := 0 < l.counter → now < l.expirationMs

instance (l : TTLLock) (now : Nat) : Decidable (l.Live now) :=
  inferInstanceAs (Decidable (_ → _))

variable {l : TTLLock} {now : Nat}

theorem isLocked_iff : l.isLocked now = true ↔ 0 < l.counter ∧ now < l.expirationMs := by
  simp [isLocked]

theorem Live.isLocked_iff (h : l.Live now) : l.isLocked now = true ↔ 0 < l.counter := by
  rw [TTLLock.isLocked_iff]
  exact ⟨And.left, fun hc => ⟨hc, h hc⟩⟩

theorem Live.isLocked_eq_false_iff (h : l.Live now) : l.isLocked now = false ↔ l.counter = 0 := by
  rw [← Bool.not_eq_true, h.isLocked_iff]
  omega

@[simp] theorem unlock_counter (l : TTLLock) : l.unlock.counter = l.counter - 1 := rfl

@[simp] theorem unlock_expirationMs (l : TTLLock) : l.unlock.expirationMs = l.expirationMs := rfl

@[simp] theorem lock_ttlMs (l : TTLLock) (now : Nat) : (l.lock now).ttlMs = l.ttlMs := by
  unfold lock
  split <;> rfl

@[simp] theorem lock_expirationMs (l : TTLLock) (now : Nat) :
    (l.lock now).expirationMs = now + l.ttlMs := by
  unfold lock
  split <;> rfl

theorem lock_counter_pos (l : TTLLock) (now : Nat) : 0 < (l.lock now).counter := by
  unfold lock
  split <;> simp

theorem Live.lock_counter (h : l.Live now) : (l.lock now).counter = l.counter + 1 := by
  unfold lock
  split
  · rename_i hExpired
    have hZero : l.counter = 0 := by
      by_contra hne
      exact absurd (h (Nat.pos_of_ne_zero hne)) (Nat.not_lt.mpr hExpired)
    simp [hZero]
  · rfl

@[simp] theorem lockTimes_ttlMs (l : TTLLock) (now total : Nat) :
    (l.lockTimes now total).ttlMs = l.ttlMs := by
  induction total with
  | zero => rfl
  | succ total ih => rw [lockTimes, lock_ttlMs, ih]

/-- The counter after `total` locks. The lock taken first is counted only while the time
to live is positive, which is what the expiration after the last one says. -/
theorem Live.lockTimes_counter (h : l.Live now) {total : Nat}
    (hAfter : (l.lockTimes now total).Live now) :
    (l.lockTimes now total).counter = l.counter + total := by
  induction total with
  | zero => rfl
  | succ total ih =>
    have hTtl : 0 < l.ttlMs := by
      have hExpires := hAfter (lock_counter_pos _ _)
      rw [lockTimes, lock_expirationMs, lockTimes_ttlMs] at hExpires
      omega
    have hBefore : (l.lockTimes now total).Live now := by
      cases total with
      | zero => exact h
      | succ n =>
        intro _
        rw [lockTimes, lock_expirationMs, lockTimes_ttlMs]
        omega
    rw [lockTimes, hBefore.lock_counter, ih hBefore]
    omega

@[simp] theorem unlockTimes_counter (l : TTLLock) (total : Nat) :
    (l.unlockTimes total).counter = l.counter - total := by
  induction total with
  | zero => rfl
  | succ total ih =>
    rw [unlockTimes, unlock_counter, ih]
    omega

@[simp] theorem unlockTimes_expirationMs (l : TTLLock) (total : Nat) :
    (l.unlockTimes total).expirationMs = l.expirationMs := by
  induction total with
  | zero => rfl
  | succ total ih => rw [unlockTimes, unlock_expirationMs, ih]

/-- Releasing `total` locks of a held lock lets go of it exactly when that many are counted. -/
theorem unlockTimes_isLocked_eq_false_iff (h : l.isLocked now = true) (total : Nat) :
    (l.unlockTimes total).isLocked now = false ↔ l.counter ≤ total := by
  have hExpires := (isLocked_iff.mp h).2
  rw [← Bool.not_eq_true, isLocked_iff, unlockTimes_counter, unlockTimes_expirationMs]
  omega

theorem Live.mono {now' : Nat} (hNow : now ≤ now') (h : l.Live now') : l.Live now :=
  fun hPos => Nat.lt_of_le_of_lt hNow (h hPos)

theorem Live.unlockTimes (h : l.Live now) (total : Nat) : (l.unlockTimes total).Live now := by
  intro hPos
  rw [unlockTimes_counter] at hPos
  rw [unlockTimes_expirationMs]
  exact h (by omega)

end TTLLock

end LMCache
