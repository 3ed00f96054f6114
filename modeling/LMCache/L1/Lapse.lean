import LMCache.L1.AnyKeys
import LMCache.L1.Bystanders

/-!
# Locks that nobody gives back

A client may stop between a reservation and its end. Its locks expire within the time to live of
the manager, and the object can then be deleted without force.
-/

namespace LMCache

open Lib Dict

/-- The lock has the given time to live and expires within it. -/
structure TTLLock.Lapses (l : TTLLock) (ttlSec now : Nat) : Prop where
  ttl : l.ttlMs = ttlSec * 1000
  expires : l.expirationMs ≤ now + ttlSec * 1000

namespace TTLLock.Lapses

variable {l : TTLLock} {ttlSec now now' : Nat}

theorem new (ttlSec now : Nat) : (TTLLock.new ttlSec).Lapses ttlSec now := ⟨rfl, Nat.zero_le _⟩

theorem later (h : l.Lapses ttlSec now) (hLater : now ≤ now') : l.Lapses ttlSec now' :=
  ⟨h.ttl, h.expires.trans (Nat.add_le_add_right hLater _)⟩

theorem lock (h : l.Lapses ttlSec now) : (l.lock now).Lapses ttlSec now :=
  ⟨(lock_ttlMs l now).trans h.ttl, by rw [lock_expirationMs, h.ttl]⟩

theorem lockTimes (h : l.Lapses ttlSec now) (total : Nat) :
    (l.lockTimes now total).Lapses ttlSec now := by
  induction total with
  | zero => exact h
  | succ total ih => exact ih.lock

theorem unlockTimes (h : l.Lapses ttlSec now) (total : Nat) :
    (l.unlockTimes total).Lapses ttlSec now := by
  induction total with
  | zero => exact h
  | succ total ih => exact ⟨ih.ttl, ih.expires⟩

theorem isLocked_eq_false (h : l.Lapses ttlSec now) (hLater : now + ttlSec * 1000 ≤ now') :
    l.isLocked now' = false := by
  have hExpired : ¬ now' < l.expirationMs := Nat.not_lt.mpr (h.expires.trans hLater)
  simp [isLocked, hExpired]

end TTLLock.Lapses

abbrev L1ObjectState.Lapses {K : Type} (e : L1ObjectState) (m : L1Manager K) : Prop :=
  e.readLock.Lapses m.readTtlSeconds m.nowMs ∧ e.writeLock.Lapses m.writeTtlSeconds m.nowMs

namespace L1Manager

variable {K : Type} [DecidableEq K] {m s t : L1Manager K} {k : K}

/-- Every lock of the table expires within its time to live. -/
def Lapses (m : L1Manager K) : Prop := ∀ k e, m.objects.get? k = some e → e.Lapses m

theorem apply_readTtlSeconds (m : L1Manager K) (op : L1Op K) :
    (m.apply op).manager.readTtlSeconds = m.readTtlSeconds := by
  cases op with
  | reserveWrite keys isTemporary mode outcome =>
    show (m.reserveWrite keys isTemporary mode outcome).manager.readTtlSeconds = _
    rw [reserveWrite_eq]
  | clear force => cases force <;> rfl
  | _ => rfl

theorem Lapses.updateEach {ρ : Type} {f : K → Option L1ObjectState → ρ × Option L1ObjectState}
    (h : m.Lapses) {keys : List K}
    (hSome : ∀ e, e.Lapses m → ∀ e', (f k (some e)).2 = some e' → e'.Lapses m) (e : L1ObjectState)
    (he : (updateEach f keys m.objects).2.get? k = some e) (hNone : (f k none).2 = none) :
    e.Lapses m := by
  refine updateEach_binding f (P := fun o => ∀ e, o = some e → e.Lapses m) ?_ keys (h k) e he
  rintro (_ | e) hOld e' he'
  · cases hNone.symm.trans he'
  · exact hSome e (hOld e rfl) e' he'

/-- Of the loop bodies some move a lock, and none lets it last longer than its time to live. -/
theorem Lapses.apply (h : m.Lapses) (op : L1Op K) : (m.apply op).manager.Lapses := by
  intro k e he
  have hNow := (m.apply_monotone op).1
  unfold L1ObjectState.Lapses
  rw [apply_readTtlSeconds, apply_writeTtlSeconds]
  refine And.imp (·.later hNow) (·.later hNow) (?_ : e.Lapses m)
  have hDropped : ∀ cleared : L1ObjectState → Bool,
      (m.dropObjects cleared).objects.get? k = some e → e.Lapses m := by
    intro cleared hMem
    simp only [dropObjects, get?_filter] at hMem
    exact h k e (Option.filter_eq_some_iff.mp hMem).1
  cases op with
  | clear force => cases force <;> exact hDropped _ he
  | close => exact hDropped _ he
  | touchKeys | elapse => exact h k e he
  | reserveWrite keys isTemporary mode outcome =>
    change (m.reserveWrite keys isTemporary mode outcome).manager.objects.get? k = some e at he
    rw [reserveWrite_objects] at he
    rcases writtenObjects_cases he with ⟨a, -, -, rfl⟩ | hProbed
    · exact ⟨.new _ _, (TTLLock.Lapses.new _ _).lock⟩
    · refine h.updateEach (fun e hOld e' hNew => ?_) e hProbed rfl
      simp only [probeWriteKey] at hNew
      split_ifs at hNew <;> cases hNew
      exacts [hOld, hOld, hOld.imp_right (·.lock)]
  | _ =>
    refine h.updateEach (fun e hOld e' hNew => ?_) e he rfl
    simp only [reserveReadKey, unsafeReadKey, finishReadKey, finishWriteKey,
      finishWriteAndReserveReadKey, deleteKey] at hNew
    split_ifs at hNew <;> cases hNew <;> first
      | exact hOld
      | exact ⟨hOld.1.lockTimes _, hOld.2⟩
      | exact ⟨hOld.1.unlockTimes _, hOld.2⟩
      | exact ⟨hOld.1, hOld.2.unlockTimes 1⟩
      | exact ⟨hOld.1.lockTimes _, hOld.2.unlockTimes 1⟩

theorem run_lapses {writeTtl readTtl now : Nat} {ops : List (L1Op K)}
    (hRun : Run Step (new writeTtl readTtl now) ops m) :
    m.Lapses ∧ m.readTtlSeconds = readTtl ∧ m.writeTtlSeconds = writeTtl := by
  refine hRun.invariant (I := fun m => m.Lapses ∧ m.readTtlSeconds = readTtl ∧
    m.writeTtlSeconds = writeTtl) ?_ ⟨by simp [Lapses, new], rfl, rfl⟩
  rintro m op _ ⟨hLapses, hRead, hWrite⟩ rfl
  exact ⟨hLapses.apply op, (m.apply_readTtlSeconds op).trans hRead,
    (m.apply_writeTtlSeconds op).trans hWrite⟩

/-- Calls that do not name a key leave its entry as it is or remove it. -/
theorem run_keptOrGone {ops : List (L1Op K)}
    (hRun : Run (Run.Under (fun _ op => k ∉ op.keys) Step) s ops t) : s.KeptOrGone t k := by
  refine hRun.invariant (I := fun t => s.KeptOrGone t k) ?_ (Or.inl rfl)
  rintro m op _ hKept ⟨hOther, rfl⟩
  rcases m.apply_keptOrGone hOther with hSame | hGone
  · exact hKept.imp hSame.trans hSame.trans
  · exact Or.inr hGone

/-- Once nobody has called for a key during the longer time to live, its object is unlocked,
whoever held it, and goes with an unforced delete. -/
theorem locks_lapse {writeTtl readTtl now : Nat} {ops rest : List (L1Op K)}
    (hRun : Run Step (new writeTtl readTtl now) ops s)
    (hRest : Run (Run.Under (fun _ op => k ∉ op.keys) Step) s rest t)
    (hTime : s.nowMs + max writeTtl readTtl * 1000 ≤ t.nowMs) :
    (∀ e, t.objects.get? k = some e → e.isLocked t.nowMs = false) ∧
      (t.apply (.delete [k] false)).manager.objects.get? k = none := by
  obtain ⟨hLapses, hRead, hWrite⟩ := run_lapses hRun
  have hUnlocked : ∀ e, t.objects.get? k = some e → e.isLocked t.nowMs = false := by
    intro e he
    have hOld : s.objects.get? k = some e := by
      rcases run_keptOrGone hRest with hSame | hGone
      · rwa [← hSame]
      · rw [hGone] at he
        cases he
    obtain ⟨hReadLock, hWriteLock⟩ := hLapses k e hOld
    rw [hRead] at hReadLock
    rw [hWrite] at hWriteLock
    have hLate : ∀ ttl ≤ max writeTtl readTtl, s.nowMs + ttl * 1000 ≤ t.nowMs := fun ttl h =>
      le_trans (Nat.add_le_add_left (Nat.mul_le_mul_right _ h) _) hTime
    rw [L1ObjectState.isLocked, hReadLock.isLocked_eq_false (hLate _ (le_max_right _ _)),
      hWriteLock.isLocked_eq_false (hLate _ (le_max_left _ _)), Bool.or_false]
  refine ⟨hUnlocked, ?_⟩
  refine (get?_updateEach (deleteKey false t.nowMs) (List.nodup_singleton k) _ k).trans ?_
  rw [if_pos List.mem_cons_self]
  cases hEntry : t.objects.get? k with
  | none => rfl
  | some e => rw [deleteKey, hUnlocked e hEntry]; rfl

/-- A writer of one object and a reader of another have stopped; 600 seconds later both objects
can be deleted. -/
theorem locks_lapse_sample :
    let s := (((L1Manager.new 600 300 0 : L1Manager Nat).apply
      (.reserveWrite [0, 1] [false, false] .all .success)).manager.apply (.finishWrite [1])).manager
    let m := ((s.apply (.reserveRead [1] 1)).manager.apply (.elapse 600000)).manager
    ∀ k ∈ [0, 1], (m.objects.get? k).isSome = true ∧
      (m.apply (.delete [k] false)).manager.objects.get? k = none := by
  intro s m k hk
  have hLapsed : (m.apply (.delete [k] false)).manager.objects.get? k = none :=
    (locks_lapse (.snoc (.snoc (.snoc (.nil _) rfl) rfl) rfl) (.snoc (.nil _)
      ⟨List.not_mem_nil, rfl⟩) (by decide)).2
  refine ⟨?_, hLapsed⟩
  revert k
  decide

end L1Manager

end LMCache
