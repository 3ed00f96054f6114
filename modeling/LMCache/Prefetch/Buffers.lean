import LMCache.L1.Owners
import LMCache.Prefetch.RequestInvariant

/-!
# Buffers of a request

A buffer is an object that `reserve_write` created for a request. While it is write-locked, calls
of others cannot touch it. A finishing request hands it over, or gives it up by `finish_write` and
`delete`; a reader between these two calls keeps it in L1. `BufferState` follows a buffer through
the calls that a finishing request has left, in runs without such a reader.
-/

namespace LMCache

open Lib L1Manager

namespace L1Op

variable {K : Type} [DecidableEq K]

def endsWrite (op : L1Op K) (k : K) : Bool :=
  match op with
  | .finishWrite keys | .finishWriteAndReserveRead keys _ => k ∈ keys
  | _ => false

def reservesRead (op : L1Op K) (k : K) : Bool :=
  match op with
  | .reserveRead keys _ => k ∈ keys
  | _ => false

theorem mem_keys_of_reservesRead {op : L1Op K} {k : K} (h : op.reservesRead k = true) :
    k ∈ op.keys := by
  cases op with
  | reserveRead keys readLocks => exact of_decide_eq_true h
  | _ => cases h

theorem mem_keys_of_endsWrite {op : L1Op K} {k : K} (h : op.endsWrite k = true) : k ∈ op.keys := by
  cases op with
  | finishWrite keys => exact of_decide_eq_true h
  | finishWriteAndReserveRead keys readLocks => exact of_decide_eq_true h
  | _ => cases h

end L1Op

variable {A K : Type} [DecidableEq K]

namespace L1Manager

variable {m : L1Manager K} {op : L1Op K} {k : K} {e : L1ObjectState}

theorem endsWrite_of_event (h : (op.eventAt (m.apply op).reply k).finishesWrite = true) :
    op.endsWrite k = true := by
  obtain ⟨keys, rfl | ⟨n, rfl⟩, hk⟩ := event_finishesWrite h
  · exact decide_eq_true hk
  · exact decide_eq_true hk

theorem reservesRead_of_event {obj : MemoryObj} {locks : Nat}
    (h : op.eventAt (m.apply op).reply k = .readReserved obj locks) : op.reservesRead k = true := by
  by_contra hNot
  cases op with
  | reserveRead keys readLocks =>
    have hk : k ∉ keys := fun hMem => hNot (decide_eq_true hMem)
    rw [m.eventAt_of_not_mem (.reserveRead keys readLocks) hk] at h
    cases h
  | finishRead | reserveWrite | finishWrite | finishWriteAndReserveRead =>
    simp only [L1Op.eventAt, apply, L1Outcome.map] at h
    split at h <;> cases h
  | _ => cases h

theorem delete_removes {keys : List K} (hKeys : keys.Nodup) (hk : k ∈ keys)
    (he : m.objects.get? k = some e) (hUnlocked : e.isLocked m.nowMs = false) :
    (m.apply (.delete keys false)).manager.objects.get? k = none := by
  show (m.delete keys false).manager.objects.get? k = none
  rw [delete, Dict.get?_updateEach _ hKeys, if_pos hk, he]
  simp [deleteKey, hUnlocked]

theorem reserveWrite_new_created {keys : List K} {isTemporary : List Bool}
    {outcome : AllocOutcome} (hKeys : keys.Nodup) {obj : Nat}
    (h : (L1Op.reserveWrite keys isTemporary .new outcome).eventAt
      (m.apply (.reserveWrite keys isTemporary .new outcome)).reply k = .writeReserved obj) :
    m.memory.allocated ≤ obj ∧ m.objects.get? k = none ∧
      ∃ e, (m.apply (.reserveWrite keys isTemporary .new outcome)).manager.objects.get? k = some e ∧
        e.memoryObj = obj ∧ e.Reserved m.nowMs := by
  have hStep := apply_keyStep (m := m)
    (show (L1Op.reserveWrite keys isTemporary .new outcome).keys.Nodup from hKeys) k
  have hNone : m.objects.get? k = none := by
    by_contra hSome
    obtain ⟨e, he⟩ := Option.ne_none_iff_exists'.mp hSome
    have hAlone : m.LeavesAlone (.reserveWrite keys isTemporary .new outcome) k :=
      reserveWrite_refused he fun _ => rfl
    cases hAlone.2.symm.trans h
  rw [h, hNone] at hStep
  generalize (m.apply (.reserveWrite keys isTemporary .new outcome)).manager.objects.get? k = o
    at hStep ⊢
  cases hStep with
  | created _ temporary hFresh =>
    exact ⟨hFresh, hNone, _, rfl, rfl, m.reservedState_reserved obj temporary⟩

theorem heldBy_of_apply (hKeys : op.keys.Nodup) {obj : Nat} (hOld : obj < m.memory.allocated)
    (h : (m.apply op).manager.heldBy k = some obj) : m.heldBy k = some obj := by
  rcases Traced.keyStep_held (apply_keyStep (m := m) hKeys k) h with hHeld | hFresh
  · exact hHeld
  · exact absurd hOld (Nat.not_lt.mpr hFresh)

end L1Manager

section Buffer

variable [DecidableEq A] {s : Owned A K} {a b : A} {k : K} {obj : Nat} {op : L1Op K}

/-- `a` holds the write lock of the buffer `obj` under `k`. -/
def HoldsBuffer (s : Owned A K) (a : A) (k : K) (obj : Nat) : Prop :=
  s.writer k = some a ∧ ∃ e, s.manager.objects.get? k = some e ∧ e.memoryObj = obj ∧
    e.Reserved s.manager.nowMs

/-- Under `k` there is no locked object `obj`. -/
def Unguarded (m : L1Manager K) (k : K) (obj : Nat) : Prop :=
  ∀ e, m.objects.get? k = some e → e.memoryObj = obj → e.isLocked m.nowMs = false

def Gone (m : L1Manager K) (obj : Nat) : Prop := ∀ k, m.heldBy k ≠ some obj

/-- The object under `k`, if it is `obj`, is write-locked within its time to live. -/
def WriteLive (m : L1Manager K) (k : K) : Prop :=
  ∀ e, m.objects.get? k = some e → e.writeLock.Live m.nowMs

theorem L1ObjectState.Reserved.mono {e : L1ObjectState} {now now' : Nat} (h : e.Reserved now)
    (hNow : now ≤ now') : e.Reserved now' :=
  ⟨h.counter_eq, TTLLock.isLocked_eq_false_mono hNow h.not_read⟩

theorem Gone.act (h : Gone s.manager obj) (hKeys : op.keys.Nodup)
    (hOld : obj < s.manager.memory.allocated) : Gone (s.act b op).manager obj :=
  fun k hHeld => h k (heldBy_of_apply hKeys hOld hHeld)

omit [DecidableEq A] in
/-- In the window, a call that reserves no read of `k` leaves the buffer unguarded or takes
it over for a new writer. -/
theorem Unguarded.act (h : Unguarded s.manager k obj) (hKeys : op.keys.Nodup)
    (hOld : obj < s.manager.memory.allocated) (hReads : op.reservesRead k = false) :
    (s.event op k = .writeReserved obj ∧ s.manager.heldBy k = some obj) ∨
      Unguarded (s.manager.apply op).manager k obj := by
  have hStep := apply_keyStep (m := s.manager) hKeys k
  have hNow := (s.manager.apply_monotone op).1
  have hEvent : ∀ obj' locks, s.event op k ≠ .readReserved obj' locks := by
    intro obj' locks hRead
    rw [reservesRead_of_event hRead] at hReads
    cases hReads
  have hUnlocked : ∀ e : L1ObjectState, e.isLocked s.manager.nowMs = false →
      e.isLocked (s.manager.apply op).manager.nowMs = false := by
    intro e hFree
    obtain ⟨hRead, hWrite⟩ := Bool.or_eq_false_iff.mp hFree
    exact Bool.or_eq_false_iff.mpr ⟨TTLLock.isLocked_eq_false_mono hNow hRead,
      TTLLock.isLocked_eq_false_mono hNow hWrite⟩
  unfold Unguarded at h
  unfold Owned.event at hEvent ⊢
  unfold Unguarded L1Manager.heldBy
  generalize op.eventAt (s.manager.apply op).reply k = ev at hStep hEvent ⊢
  generalize s.manager.objects.get? k = o at hStep h ⊢
  generalize (s.manager.apply op).manager.objects.get? k = o' at hStep ⊢
  cases hStep with
  | kept => exact Or.inr fun e he hObj => hUnlocked e (h e he hObj)
  | readReserved e locks => exact absurd rfl (hEvent _ _)
  | readFinished e locks hWrite hRead =>
    right
    intro e' he' hObj
    cases he'
    have hFree := h e rfl hObj
    rw [L1ObjectState.isLocked, hRead, Bool.true_or] at hFree
    cases hFree
  | temporaryFreed => exact Or.inr fun e he => by cases he
  | writeReserved e =>
    by_cases hObj : e.memoryObj = obj
    · exact Or.inl ⟨by rw [hObj], by rw [Option.map_some, hObj]⟩
    · right
      intro e' he' hObj'
      cases he'
      exact absurd hObj' hObj
  | created obj' isTemporary hFresh =>
    right
    intro e' he' hObj
    cases he'
    have hLe : s.manager.memory.allocated ≤ obj := hObj ▸ hFresh
    exact absurd hOld (Nat.not_lt.mpr hLe)
  | writeFinished e hWrite hRead | handedOver e locks hWrite hRead =>
    right
    intro e' he' hObj
    cases he'
    have hFree := h e rfl hObj
    rw [L1ObjectState.isLocked, hWrite, Bool.or_true] at hFree
    cases hFree
  | removed => exact Or.inr fun e he => by cases he

/-- `obj` was allocated, and `k` is the only key that can hold it. -/
structure Known (m : L1Manager K) (k : K) (obj : Nat) : Prop where
  old : obj < m.memory.allocated
  home : ∀ k', m.heldBy k' = some obj → k' = k

theorem Known.apply {m : L1Manager K} (h : Known m k obj) (hKeys : op.keys.Nodup) :
    Known (m.apply op).manager k obj where
  old := Nat.lt_of_lt_of_le h.old (m.apply_monotone op).2
  home := fun k' hHeld => h.home k' (heldBy_of_apply hKeys h.old hHeld)

theorem Unguarded.delete {m : L1Manager K} {keys : List K} (h : Unguarded m k obj)
    (hKnown : Known m k obj) (hKeys : keys.Nodup) (hk : k ∈ keys) :
    Gone (m.apply (.delete keys false)).manager obj := by
  intro k' hHeld
  have hBefore := heldBy_of_apply
    (show (L1Op.delete keys false).keys.Nodup from hKeys) hKnown.old hHeld
  obtain rfl := hKnown.home k' hBefore
  obtain ⟨e, he, hObj⟩ := heldBy_eq_some_iff.mp hBefore
  have hRemoved := delete_removes hKeys hk he (h e he hObj)
  rw [L1Manager.heldBy, hRemoved] at hHeld
  cases hHeld

/-- A call that does not end the write leaves the buffer with its holder, removes it or
takes it over for a new writer. -/
theorem HoldsBuffer.frame (h : HoldsBuffer s a k obj) (hKnown : Known s.manager k obj)
    (hKeys : op.keys.Nodup) (hReads : op.reservesRead k = true → WriteLive s.manager k)
    (hEnds : op.endsWrite k = false) :
    HoldsBuffer (s.act b op) a k obj ∨ Gone (s.act b op).manager obj ∨
      (s.event op k = .writeReserved obj ∧ s.manager.heldBy k = some obj) := by
  obtain ⟨hWriter, e, he, hObj, hReserved⟩ := h
  have hStep := apply_keyStep (m := s.manager) hKeys k
  have hFinishes : (s.event op k).finishesWrite = false := by
    rw [← Bool.not_eq_true]
    intro hFinishes
    rw [endsWrite_of_event hFinishes] at hEnds
    cases hEnds
  have hAfterReserved := hReserved.mono (s.manager.apply_monotone op).1
  generalize hEvent : op.eventAt (s.manager.apply op).reply k = ev at hStep
  generalize hAfter : (s.manager.apply op).manager.objects.get? k = o at hStep
  rw [he] at hStep
  rw [Owned.event, hEvent] at hFinishes
  cases hStep with
  | kept =>
    refine Or.inl ⟨?_, e, hAfter, hObj, hAfterReserved⟩
    show (s.event op k).writerAfter b (s.writer k) = some a
    rw [Owned.event, hEvent]
    exact hWriter
  | readReserved _ locks hFree =>
    -- the write lock is live, so it still keeps readers out
    have hLive := hReads (reservesRead_of_event hEvent) e he
    have hLocked := hLive.isLocked_iff.mpr (by rw [hReserved.counter_eq]; exact Nat.one_pos)
    rw [hLocked] at hFree
    cases hFree
  | readFinished _ _ _ hRead | temporaryFreed _ _ _ hRead =>
    rw [hReserved.not_read] at hRead
    cases hRead
  | writeReserved =>
    right
    right
    exact ⟨hEvent.trans (by rw [hObj]), heldBy_eq_some_iff.mpr ⟨e, he, hObj⟩⟩
  | writeFinished => cases hFinishes
  | handedOver => cases hFinishes
  | removed =>
    right
    left
    intro k' hHeld
    obtain rfl := (hKnown.apply hKeys).home k' hHeld
    obtain ⟨e', he', -⟩ := heldBy_eq_some_iff.mp hHeld
    cases hAfter.symm.trans he'

/-- Where the buffer `obj` under `k` stands while `a` has `calls` left. `lost` says that its
contents were never loaded and nobody rewrote them. -/
inductive BufferState (s : Owned A K) (a : A) (lost : Prop) (calls : List (L1Op K)) (k : K)
    (obj : Nat) : Prop
  /-- Still write-locked; the call that ends this is followed by the delete if `lost`. -/
  | pending (before after : List (L1Op K)) (call : L1Op K)
      (hCalls : calls = before ++ call :: after) (hHolds : HoldsBuffer s a k obj)
      (hEnds : call.endsWrite k = true) (hBefore : ∀ x ∈ before, x.endsWrite k = false)
      (hLost : lost → ∃ keys rest, call = .finishWrite keys ∧ after = .delete keys false :: rest)
  /-- Between `finish_write` and `delete`. -/
  | window (keys : List K) (rest : List (L1Op K)) (hCalls : calls = .delete keys false :: rest)
      (hk : k ∈ keys) (hUnguarded : lost → Unguarded s.manager k obj)
  /-- Handed over, rewritten or gone. -/
  | settled (hGone : lost → Gone s.manager obj)

variable {lost lost' : Prop} {calls rest : List (L1Op K)}

/-- The key is between `finish_write` and `delete`. -/
def inWindow (calls : List (L1Op K)) (k : K) : Bool :=
  match calls with
  | .delete keys _ :: _ => k ∈ keys
  | _ => false

theorem BufferState.frame (h : BufferState s a lost calls k obj) (hKnown : Known s.manager k obj)
    (hKeys : op.keys.Nodup)
    (hReadLive : HoldsBuffer s a k obj → op.reservesRead k = true → WriteLive s.manager k)
    (hEnds : HoldsBuffer s a k obj → calls ≠ [] → op.endsWrite k = false)
    (hReads : inWindow calls k = true → op.reservesRead k = false)
    (hLost : lost' → lost ∧ ¬(s.event op k = .writeReserved obj ∧ s.manager.heldBy k = some obj)) :
    BufferState (s.act b op) a lost' calls k obj := by
  cases h with
  | pending before after call hCalls hHolds hCall hBefore hNext =>
    have hNot := hEnds hHolds (by simp [hCalls])
    rcases hHolds.frame (b := b) hKnown hKeys (hReadLive hHolds) hNot with hStill | hGone | hTaken
    · exact .pending before after call hCalls hStill hCall hBefore fun h => hNext (hLost h).1
    · exact .settled fun _ => hGone
    · exact .settled fun h => absurd hTaken (hLost h).2
  | window keys rest hCalls hk hUnguarded =>
    refine .window keys rest hCalls hk fun h => ?_
    obtain ⟨hOld, hNotTaken⟩ := hLost h
    have hWindow : inWindow calls k = true := by
      rw [hCalls]
      exact decide_eq_true hk
    exact ((hUnguarded hOld).act hKeys hKnown.old (hReads hWindow)).resolve_left hNotTaken
  | settled hGone => exact .settled fun h => (hGone (hLost h).1).act hKeys hKnown.old

omit [DecidableEq A] in
/-- Finishing the write of a held buffer leaves it unlocked; when the lock has expired it
was unlocked before. -/
theorem HoldsBuffer.finishWrite {keys : List K} (h : HoldsBuffer s a k obj) (hKeys : keys.Nodup)
    (hk : k ∈ keys) : Unguarded (s.manager.apply (.finishWrite keys)).manager k obj := by
  obtain ⟨-, e, he, hObj, hReserved⟩ := h
  have hAfter : (s.manager.apply (.finishWrite keys)).manager.objects.get? k =
      (L1Manager.finishWriteKey s.manager.nowMs k (some e)).2 := by
    show (s.manager.finishWrite keys).manager.objects.get? k = _
    rw [L1Manager.finishWrite, Dict.get?_updateEach _ hKeys, if_pos hk, he]
  intro e' he' _
  rw [hAfter] at he'
  change (e'.readLock.isLocked s.manager.nowMs || e'.writeLock.isLocked s.manager.nowMs) = false
  by_cases hWrite : e.writeLock.isLocked s.manager.nowMs = true
  · simp only [L1Manager.finishWriteKey, hWrite, hReserved.not_read, Bool.not_true,
      Bool.false_eq_true, if_false, Option.some.injEq] at he'
    subst he'
    rw [hReserved.not_read, Bool.false_or]
    simp [TTLLock.isLocked, hReserved.counter_eq]
  · rw [Bool.not_eq_true] at hWrite
    simp only [L1Manager.finishWriteKey, hWrite, Bool.not_false, if_true, Option.some.injEq] at he'
    subst he'
    rw [hReserved.not_read, hWrite]
    rfl

theorem BufferState.next (h : BufferState s a lost (op :: rest) k obj)
    (hKnown : Known s.manager k obj) (hKeys : op.keys.Nodup)
    (hReadLive : HoldsBuffer s a k obj → op.reservesRead k = true → WriteLive s.manager k)
    (hLost : lost' → lost ∧ ¬(s.event op k = .writeReserved obj ∧ s.manager.heldBy k = some obj)) :
    BufferState (s.act a op) a lost' rest k obj := by
  cases h with
  | pending before after call hCalls hHolds hCall hBefore hNext =>
    cases before with
    | nil =>
      obtain ⟨rfl, rfl⟩ := List.cons.inj hCalls
      by_cases h : lost'
      · obtain ⟨keys, tail, rfl, rfl⟩ := hNext (hLost h).1
        have hk : k ∈ keys := of_decide_eq_true hCall
        exact .window keys tail rfl hk fun _ => hHolds.finishWrite hKeys hk
      · exact .settled fun h' => absurd h' h
    | cons x before =>
      obtain ⟨rfl, rfl⟩ := List.cons.inj hCalls
      have hNot := hBefore op (by simp)
      rcases hHolds.frame (b := a) hKnown hKeys (hReadLive hHolds) hNot with
        hStill | hGone | hTaken
      · exact .pending before after call rfl hStill hCall
          (fun y hy => hBefore y (List.mem_cons_of_mem _ hy)) fun h => hNext (hLost h).1
      · exact .settled fun _ => hGone
      · exact .settled fun h => absurd hTaken (hLost h).2
  | window keys tail hCalls hk hUnguarded =>
    obtain ⟨rfl, rfl⟩ := List.cons.inj hCalls
    exact .settled fun h => (hUnguarded (hLost h).1).delete hKnown hKeys hk
  | settled hGone => exact .settled fun h => (hGone (hLost h).1).act hKeys hKnown.old

end Buffer

end LMCache
