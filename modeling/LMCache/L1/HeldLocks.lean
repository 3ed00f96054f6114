import LMCache.L1.Transitions
import LMCache.Lib.Visits

/-!
# The locks that count

A lock past its expiration counts nothing, whatever its counter says. With a positive time to
live, `total` more locks raise the count by `total` and `total` unlocks lower it by as many.
Read-locking a list of keys and giving locks back to a part of it changes the counts of a key
by the number of times that the lists name it.
-/

namespace LMCache

open Lib Dict TTLLock Option Bool

namespace TTLLock

variable {l : TTLLock} {now : Nat}

/-- The locks of `l` that have not expired. -/
def held (l : TTLLock) (now : Nat) : Nat := if now < l.expirationMs then l.counter else 0

theorem isLocked_iff_held : l.isLocked now = true ↔ 0 < l.held now := by
  rw [isLocked_iff, held]
  split <;> omega

theorem held_lock (h : 0 < l.ttlMs) : (l.lock now).held now = l.held now + 1 := by
  have hExpires : now < now + l.ttlMs := Nat.lt_add_of_pos_right h
  rw [held, lock_expirationMs, if_pos hExpires, held, lock]
  split
  · rename_i hPast
    rw [if_neg (Nat.not_lt.mpr hPast)]
  · rename_i hAhead
    rw [if_pos (Nat.lt_of_not_le hAhead)]

theorem held_lockTimes (h : 0 < l.ttlMs) (total : Nat) :
    (l.lockTimes now total).held now = l.held now + total := by
  induction total with
  | zero => rfl
  | succ total ih =>
    rw [lockTimes, held_lock (by rwa [lockTimes_ttlMs]), ih]
    rfl

theorem held_lockTimes_of_ttl_zero (h : l.ttlMs = 0) {total : Nat} (hTotal : 0 < total) :
    (l.lockTimes now total).held now = 0 := by
  obtain ⟨n, rfl⟩ := Nat.exists_eq_succ_of_ne_zero (Nat.pos_iff_ne_zero.mp hTotal)
  have hExpires : ¬ now < ((l.lockTimes now n).lock now).expirationMs := by
    rw [lock_expirationMs, lockTimes_ttlMs, h]
    omega
  rw [Nat.succ_eq_add_one, lockTimes, held, if_neg hExpires]

theorem held_unlockTimes (l : TTLLock) (now total : Nat) :
    (l.unlockTimes total).held now = l.held now - total := by
  rw [held, held, unlockTimes_counter, unlockTimes_expirationMs]
  split <;> omega

theorem lockTimes_add (l : TTLLock) (now a b : Nat) :
    (l.lockTimes now a).lockTimes now b = l.lockTimes now (a + b) := by
  induction b with
  | zero => rfl
  | succ b ih => rw [lockTimes, ih, ← Nat.add_assoc, lockTimes]

end TTLLock

namespace L1ObjectState

def lockCounts (e : L1ObjectState) (now : Nat) : Nat × Nat :=
  (e.readLock.held now, e.writeLock.held now)

/-- No read lock of the object is held, and none that is taken will be. -/
def Unheld (e : L1ObjectState) (now : Nat) : Prop :=
  e.readLock.ttlMs = 0 ∧ e.readLock.held now = 0

def readLocked (e : L1ObjectState) (now n : Nat) : L1ObjectState :=
  { e with readLock := e.readLock.lockTimes now n }

theorem lockCounts_readLocked_iff (e : L1ObjectState) {now n : Nat} (hn : 0 < n) :
    (e.readLocked now n).lockCounts now = e.lockCounts now ↔ e.Unheld now := by
  rw [lockCounts, lockCounts, readLocked, Unheld, Prod.mk.injEq]
  by_cases hTtl : e.readLock.ttlMs = 0
  · rw [held_lockTimes_of_ttl_zero hTtl hn]
    exact ⟨fun h => ⟨hTtl, h.1.symm⟩, fun h => ⟨h.2.symm, rfl⟩⟩
  · rw [held_lockTimes (Nat.pos_of_ne_zero hTtl)]
    exact ⟨fun h => absurd h.1 (by omega), fun h => absurd h.1 hTtl⟩

end L1ObjectState

namespace L1Manager

variable {K : Type} [DecidableEq K]

def lockCounts (m : L1Manager K) (k : K) : Option (Nat × Nat) :=
  (m.objects.get? k).map fun e => e.lockCounts m.nowMs

section Visits

variable {e : L1ObjectState} {now total : Nat} (k : K)

omit [DecidableEq K]

theorem visits_reserveRead (h : e.availableForRead now = true) (n : Nat) :
    visits (reserveReadKey now total k) n (some e) =
      (List.replicate n (.success, some e.memoryObj), some (e.readLocked now (n * total))) := by
  induction n generalizing e with
  | zero => simp [visits, L1ObjectState.readLocked, TTLLock.lockTimes]
  | succ n ih =>
    have hBody : reserveReadKey now total k (some e) =
        ((.success, some e.memoryObj), some (e.readLocked now total)) := by
      rw [reserveReadKey, h]
      rfl
    have hNext : (e.readLocked now total).availableForRead now = true := h
    rw [visits, hBody, ih hNext]
    simp only [L1ObjectState.readLocked, lockTimes_add, List.replicate_succ,
      Nat.succ_mul, Nat.add_comm total]

theorem visits_reserveRead_refused (h : e.availableForRead now = false) (n : Nat) :
    (visits (reserveReadKey now total k) n (some e)) =
      (List.replicate n (.keyNotReadable, none), some e) := by
  have hBody : reserveReadKey now total k (some e) = ((.keyNotReadable, none), some e) := by
    rw [reserveReadKey, h]
    rfl
  rw [visits_of_kept (by rw [hBody]), hBody]

theorem finishReadKey_held (hTotal : 0 < total) (hWrite : e.availableForRead now = true)
    (hHeld : total ≤ e.readLock.held now) : (finishReadKey now total k (some e)).2 =
      if e.isTemporary = true ∧ e.readLock.held now = total then none
      else some { e with readLock := e.readLock.unlockTimes total } := by
  have hLocked : e.readLock.isLocked now = true := isLocked_iff_held.mpr (by omega)
  have hWriteLock : e.writeLock.isLocked now = false := by
    simpa [L1ObjectState.availableForRead] using hWrite
  have hGone : (e.isTemporary && !(e.readLock.unlockTimes total).isLocked now) = true ↔
      e.isTemporary = true ∧ e.readLock.held now = total := by
    rw [and_eq_true, not_eq_true', ← not_eq_true, isLocked_iff_held, held_unlockTimes]
    exact and_congr_right fun _ => by omega
  simp only [finishReadKey, hWriteLock, hLocked, Bool.not_true, false_eq_true, if_false, hGone]
  split_ifs <;> rfl

theorem visits_finishRead (hTotal : 0 < total) (hWrite : e.availableForRead now = true) (n : Nat)
    (hHeld : n * total ≤ e.readLock.held now)
    (hStays : ¬ (e.isTemporary = true ∧ e.readLock.held now = n * total ∧ 0 < n)) :
    ∃ e', (visits (finishReadKey now total k) n (some e)).2 = some e' ∧
      e'.readLock.held now = e.readLock.held now - n * total ∧ e'.writeLock = e.writeLock := by
  induction n generalizing e with
  | zero => exact ⟨e, rfl, by omega, rfl⟩
  | succ n ih =>
    rw [Nat.succ_mul] at hHeld hStays
    have hAfter := held_unlockTimes e.readLock now total
    have hBody := finishReadKey_held k hTotal hWrite (by omega)
    rw [if_neg] at hBody
    · obtain ⟨e', hVisits, hCount, hSame⟩ :=
        @ih { e with readLock := e.readLock.unlockTimes total } hWrite
          (by dsimp only; omega) (by
            rintro ⟨hTemp, hEq, hn⟩
            dsimp only at hEq
            exact hStays ⟨hTemp, by omega, Nat.succ_pos n⟩)
      dsimp only at hCount
      refine ⟨e', by rw [visits, hBody]; exact hVisits, ?_, hSame⟩
      rw [Nat.succ_mul]
      omega
    · rintro ⟨hTemp, hEq⟩
      -- nothing is held after this visit, so it is the last
      obtain rfl | hn := Nat.eq_zero_or_pos n
      · exact hStays ⟨hTemp, by omega, Nat.one_pos⟩
      · have hMore : total ≤ n * total := Nat.le_mul_of_pos_left total hn
        omega

theorem visits_finishRead_gone (hTotal : 0 < total) (hWrite : e.availableForRead now = true)
    (hTemp : e.isTemporary = true) (n : Nat) (hHeld : e.readLock.held now = (n + 1) * total) :
    (visits (finishReadKey now total k) (n + 1) (some e)).2 = none := by
  induction n generalizing e with
  | zero =>
    rw [visits, finishReadKey_held k hTotal hWrite (by omega), if_pos ⟨hTemp, by omega⟩]
    rfl
  | succ n ih =>
    rw [Nat.succ_mul] at hHeld
    have hPos : 0 < (n + 1) * total := Nat.mul_pos (Nat.succ_pos n) hTotal
    have hAfter := held_unlockTimes e.readLock now total
    rw [visits, finishReadKey_held k hTotal hWrite (by omega), if_neg (by omega)]
    exact @ih { e with readLock := e.readLock.unlockTimes total } hWrite hTemp
      (by dsimp only; omega)

theorem visits_finishRead_refused (hHeld : e.readLock.held now = 0) (n : Nat) :
    (visits (finishReadKey now total k) n (some e)).2 = some e := by
  have hLocked : e.readLock.isLocked now = false := by
    rw [← not_eq_true, isLocked_iff_held]
    omega
  have hBody : (finishReadKey now total k (some e)).2 = some e := by
    simp only [finishReadKey, hLocked, Bool.not_false, if_true]
    split_ifs <;> rfl
  rw [visits_of_kept hBody]

/-- Giving locks back undoes the locking of a readable object: its locks never count, or all of
them are given back and the object does not go with them. -/
def Undone (e : L1ObjectState) (now locked released : Nat) : Prop :=
  e.Unheld now ∨ 0 < e.readLock.ttlMs ∧ released = locked ∧
    ¬ (e.isTemporary = true ∧ e.readLock.held now = 0)

theorem visits_reserveRead_finishRead (hTotal : 0 < total)
    (hWrite : e.availableForRead now = true) {locked released : Nat} (hLocked : 0 < locked)
    (hReleased : released ≤ locked) :
    (visits (finishReadKey now total k) released
        (visits (reserveReadKey now total k) locked (some e)).2).2.map (·.lockCounts now) =
      some (e.lockCounts now) ↔ Undone e now locked released := by
  have hMany : 0 < locked * total := Nat.mul_pos hLocked hTotal
  have hFewer : released * total ≤ locked * total := Nat.mul_le_mul_right total hReleased
  rw [visits_reserveRead k hWrite]
  have hWrite' : (e.readLocked now (locked * total)).availableForRead now = true := hWrite
  by_cases hTtl : e.readLock.ttlMs = 0
  · have hNone : (e.readLocked now (locked * total)).readLock.held now = 0 :=
      held_lockTimes_of_ttl_zero hTtl hMany
    rw [visits_finishRead_refused k hNone, map_some, some_inj,
      L1ObjectState.lockCounts_readLocked_iff e hMany, Undone]
    exact ⟨Or.inl, fun h => h.resolve_right fun h => absurd h.1 (by omega)⟩
  · have hHeld : (e.readLocked now (locked * total)).readLock.held now =
        e.readLock.held now + locked * total :=
      held_lockTimes (Nat.pos_of_ne_zero hTtl) _
    have hUndone : Undone e now locked released ↔
        released = locked ∧ ¬ (e.isTemporary = true ∧ e.readLock.held now = 0) :=
      ⟨fun h => (h.resolve_left fun h => hTtl h.1).2, fun h => .inr ⟨Nat.pos_of_ne_zero hTtl, h⟩⟩
    have hSameCount : released * total = locked * total ↔ released = locked :=
      Nat.mul_left_inj (Nat.pos_iff_ne_zero.mp hTotal)
    rw [hUndone]
    by_cases hGone : e.isTemporary = true ∧ e.readLock.held now = 0 ∧ released = locked
    · obtain ⟨hTemp, hIdle, rfl⟩ := hGone
      obtain ⟨n, rfl⟩ := Nat.exists_eq_succ_of_ne_zero (Nat.pos_iff_ne_zero.mp hLocked)
      rw [visits_finishRead_gone k hTotal hWrite' hTemp n (by rw [hHeld, hIdle, Nat.zero_add])]
      exact ⟨fun h => (nomatch h), fun h => absurd ⟨hTemp, hIdle⟩ h.2⟩
    · obtain ⟨e', hVisits, hCount, hSame⟩ := visits_finishRead k hTotal hWrite' released
        (by omega) (by
          rintro ⟨hTemp, hEq, -⟩
          exact hGone ⟨hTemp, by omega, hSameCount.mp (by omega)⟩)
      have hWriteSame : e'.writeLock = e.writeLock := hSame
      rw [hVisits, map_some, some_inj, L1ObjectState.lockCounts,
        L1ObjectState.lockCounts, Prod.mk.injEq, hWriteSame, hCount, hHeld]
      constructor
      · rintro ⟨hEq, -⟩
        have hAll : released = locked := hSameCount.mp (by omega)
        exact ⟨hAll, fun h => hGone ⟨h.1, h.2, hAll⟩⟩
      · rintro ⟨rfl, -⟩
        exact ⟨by omega, rfl⟩

end Visits

variable {m : L1Manager K} {keys released : List K} {readLocks : Nat} {k : K}

theorem get?_reserveRead (m : L1Manager K) (keys : List K) (readLocks : Nat) (k : K) :
    (m.reserveRead keys readLocks).manager.objects.get? k =
      (visits (reserveReadKey m.nowMs (validateReadLocks readLocks) k) (keys.count k)
        (m.objects.get? k)).2 := get?_updateEach_visits _ keys m.objects k

theorem get?_finishRead (m : L1Manager K) (released : List K) (readLocks : Nat) (k : K) :
    (m.finishRead released readLocks).manager.objects.get? k =
      (visits (finishReadKey m.nowMs (validateReadLocks readLocks) k) (released.count k)
        (m.objects.get? k)).2 := get?_updateEach_visits _ released m.objects k

end L1Manager

end LMCache
