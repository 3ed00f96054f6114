import LMCache.L1.LockSafety
import LMCache.L1.WriterTickets
import Mathlib.Data.Multiset.Replicate

/-!
# Who holds the locks

The ledger of this file gives every granted lock an owner. While no lock expires, no removal is
forced and callers finish only reads they hold, the counters of an object are the sizes of its
entries in the ledger. A caller's own locks then change by its own calls only.
-/

namespace LMCache

open Lib List Bool Dict

variable {A K : Type} [DecidableEq A] [DecidableEq K]

namespace KeyEvent

def readersAfter (a : A) (ev : KeyEvent) (readers : Multiset A) : Multiset A :=
  match ev with
  | .readReserved _ locks | .handedOver _ locks => readers + Multiset.replicate locks a
  | .readFinished locks => readers - Multiset.replicate locks a
  | _ => readers

def writerAfter (a : A) (ev : KeyEvent) (writer : Option A) : Option A :=
  match ev with
  | .writeReserved _ => some a
  | .writeFinished | .handedOver _ _ => none
  | _ => writer

def heldAfter (ev : KeyEvent) (held : Nat) : Nat :=
  match ev with
  | .readReserved _ locks | .handedOver _ locks => held + locks
  | .readFinished locks => held - locks
  | _ => held

theorem count_readersAfter_self (a : A) (ev : KeyEvent) (readers : Multiset A) :
    (ev.readersAfter a readers).count a = ev.heldAfter (readers.count a) := by
  cases ev <;> simp [readersAfter, heldAfter]

theorem count_readersAfter_ne {a b : A} (h : b ≠ a) (ev : KeyEvent) (readers : Multiset A) :
    (ev.readersAfter b readers).count a = readers.count a := by
  cases ev <;> simp [readersAfter, Multiset.count_replicate, h]

end KeyEvent

structure Owned (A K : Type) where
  manager : L1Manager K
  readers : K → Multiset A
  writer : K → Option A

namespace L1Manager

variable {m : L1Manager K} {k : K} {e : L1ObjectState} {keys : List K}

theorem get?_ofList_eq_none {ρ : Type} {l : List (K × ρ)} (h : k ∉ l.map Prod.fst) :
    (Dict.ofList l).get? k = none := by
  cases hGet : (Dict.ofList l).get? k with
  | none => rfl
  | some r => exact absurd (mem_map.mpr ⟨_, mem_of_get?_ofList hGet, rfl⟩) h

theorem get?_ofList_updateEach_of_not_mem {ρ : Type}
    (f : K → Option L1ObjectState → ρ × Option L1ObjectState) (hk : k ∉ keys)
    (d : Dict K L1ObjectState) : (Dict.ofList (Dict.updateEach f keys d).1).get? k = none := by
  refine get?_ofList_eq_none ?_
  rwa [updateEach_keys]

theorem get?_errorsOf_of_not_mem
    (f : K → Option L1ObjectState → (L1Error × Option MemoryObj) × Option L1ObjectState)
    (hk : k ∉ keys) (d : Dict K L1ObjectState) :
    (errorsOf (Dict.updateEach f keys d).1).get? k = none := by
  refine get?_ofList_eq_none ?_
  rw [map_map]
  show k ∉ (Dict.updateEach f keys d).1.map Prod.fst
  rwa [updateEach_keys]

theorem reserveWrite_of_not_mem (isTemporary : List Bool) (mode : WriteMode)
    (outcome : AllocOutcome) (hk : k ∉ keys) :
    (m.reserveWrite keys isTemporary mode outcome).reply.get? k = none := by
  have hPairs : k ∉ (keys.zip isTemporary).map Prod.fst := fun h => hk (mem_zip_keys h)
  have hDecided : ∀ r, (k, r) ∉ decidedWrites (Dict.updateEach (probeWriteKey mode m.nowMs)
      ((keys.zip isTemporary).map Prod.fst) m.objects).1 := by
    intro r hr
    have hMem := mem_map_of_mem (f := Prod.fst) (mem_decidedWrites hr)
    rw [updateEach_keys] at hMem
    exact hPairs hMem
  obtain ⟨err, memory, hReply, -⟩ | ⟨hReply, -⟩ :=
    m.reserveWrite_outcomes keys isTemporary mode outcome
  · rw [hReply]
    refine get?_ofList_eq_none fun hMem => ?_
    obtain ⟨p, hp, rfl⟩ := mem_map.mp hMem
    rcases mem_append.mp hp with hOld | hNew
    · exact hDecided p.2 hOld
    · obtain ⟨a, ha, rfl⟩ := mem_map.mp hNew
      exact hPairs (mem_missing_keys_iff.mp (mem_map_of_mem ha)).2
  · rw [hReply]
    refine get?_ofList_eq_none fun hMem => ?_
    obtain ⟨p, hp, rfl⟩ := mem_map.mp hMem
    rcases mem_append.mp hp with hOld | hNew
    · exact hDecided p.2 hOld
    · obtain ⟨a, ha, rfl⟩ := mem_map.mp hNew
      exact hPairs (mem_missing_keys_iff.mp (mem_map_of_mem (of_mem_zip ha).1)).2

theorem eventAt_of_not_mem (m : L1Manager K) (op : L1Op K) (hk : k ∉ op.keys) :
    op.eventAt (m.apply op).reply k = .silent := by
  cases op with
  | reserveRead keys readLocks =>
    change k ∉ keys at hk
    simp only [L1Op.eventAt, apply, L1Outcome.map, reserveRead,
      get?_ofList_updateEach_of_not_mem _ hk]
  | finishRead keys readLocks =>
    change k ∉ keys at hk
    simp only [L1Op.eventAt, apply, L1Outcome.map, finishRead, get?_errorsOf_of_not_mem _ hk]
    rfl
  | reserveWrite keys isTemporary mode outcome =>
    change k ∉ keys at hk
    rw [eventAt_reserveWrite, reserveWrite_of_not_mem isTemporary mode outcome hk]
    rfl
  | finishWrite keys =>
    change k ∉ keys at hk
    simp only [L1Op.eventAt, apply, L1Outcome.map, finishWrite,
      get?_ofList_updateEach_of_not_mem _ hk]
    rfl
  | finishWriteAndReserveRead keys readLocks =>
    change k ∉ keys at hk
    simp only [L1Op.eventAt, apply, L1Outcome.map, finishWriteAndReserveRead,
      get?_ofList_updateEach_of_not_mem _ hk]
  | unsafeRead keys => rfl
  | delete keys force => rfl
  | touchKeys keys => rfl
  | clear force => rfl
  | close => rfl
  | elapse ms => rfl

theorem finishRead_succeeds (hKeys : keys.Nodup) (hk : k ∈ keys) (readLocks : Nat)
    (he : m.objects.get? k = some e) (hWrite : e.writeLock.isLocked m.nowMs = false)
    (hRead : e.readLock.isLocked m.nowMs = true) :
    (L1Op.finishRead keys readLocks).eventAt (m.apply (.finishRead keys readLocks)).reply k =
      .readFinished (validateReadLocks readLocks) := by
  refine if_pos ?_
  rw [finishRead, get?_errorsOf_updateEach _ hKeys, if_pos hk, he]
  simp only [finishReadKey, hWrite, hRead, Bool.not_true, false_eq_true, if_false]
  split <;> rfl

theorem finishWrite_succeeds (hKeys : keys.Nodup) (hk : k ∈ keys)
    (he : m.objects.get? k = some e) (hWrite : e.writeLock.isLocked m.nowMs = true)
    (hRead : e.readLock.isLocked m.nowMs = false) :
    (L1Op.finishWrite keys).eventAt (m.apply (.finishWrite keys)).reply k = .writeFinished := by
  refine if_pos ?_
  rw [finishWrite, get?_ofList_updateEach _ hKeys, if_pos hk, he]
  simp [finishWriteKey, hWrite, hRead]

theorem finishWriteAndReserveRead_succeeds (hKeys : keys.Nodup) (hk : k ∈ keys)
    (readLocks : Nat) (he : m.objects.get? k = some e)
    (hWrite : e.writeLock.isLocked m.nowMs = true) (hRead : e.readLock.isLocked m.nowMs = false) :
    (L1Op.finishWriteAndReserveRead keys readLocks).eventAt
        (m.apply (.finishWriteAndReserveRead keys readLocks)).reply k =
      .handedOver e.memoryObj (validateReadLocks readLocks) := by
  simp only [L1Op.eventAt, apply, L1Outcome.map, finishWriteAndReserveRead,
    get?_ofList_updateEach _ hKeys, if_pos hk, he]
  simp [finishWriteAndReserveReadKey, hWrite, hRead]

end L1Manager

namespace Owned

def init (m : L1Manager K) : Owned A K := ⟨m, fun _ => 0, fun _ => none⟩

def event (s : Owned A K) (op : L1Op K) (k : K) : KeyEvent :=
  op.eventAt (s.manager.apply op).reply k

/-- `a` makes the call and the ledger records its reply. -/
def act (s : Owned A K) (a : A) (op : L1Op K) : Owned A K where
  manager := (s.manager.apply op).manager
  readers k := (s.event op k).readersAfter a (s.readers k)
  writer k := (s.event op k).writerAfter a (s.writer k)

def held (s : Owned A K) (a : A) (k : K) : Nat := (s.readers k).count a

theorem held_act_self (s : Owned A K) (a : A) (op : L1Op K) (k : K) :
    (s.act a op).held a k = (s.event op k).heldAfter (s.held a k) :=
  KeyEvent.count_readersAfter_self a _ _

variable {a : A}

theorem held_act_ne (s : Owned A K) {b : A} (h : b ≠ a) (op : L1Op K) (k : K) :
    (s.act b op).held a k = s.held a k :=
  KeyEvent.count_readersAfter_ne h _ _

/-- The counters under one key are the sizes of its ledger entries. -/
def Balanced (o : Option L1ObjectState) (readers : Multiset A) (writer : Option A) : Prop :=
  match o with
  | none => readers = 0 ∧ writer = none
  | some e => e.readLock.counter = readers.card ∧
      e.writeLock.counter = (if writer.isSome then 1 else 0) ∧ (writer = none ∨ readers = 0)

omit [DecidableEq A] in
theorem Balanced.free {e : L1ObjectState} {readers : Multiset A} {writer : Option A}
    (h : Balanced (some e) readers writer) (hRead : e.readLock.counter = 0)
    (hWrite : e.writeLock.counter = 0) : readers = 0 ∧ writer = none := by
  obtain ⟨hReaders, hWriter, -⟩ := h
  refine ⟨Multiset.card_eq_zero.mp (hReaders.symm.trans hRead), ?_⟩
  cases writer with
  | none => rfl
  | some w =>
    rw [hWrite] at hWriter
    cases hWriter

section KeyStep

variable {now fresh writeTtl readTtl : Nat} {removal : Option Bool} {ev : KeyEvent}
  {o o' : Option L1ObjectState} {readers : Multiset A} {writer : Option A}

/-- One call keeps the balance of one key, if it finishes no more reads than its caller
holds and forces nothing. -/
theorem keyStep_balanced (a : A) (hStep : KeyStep now fresh writeTtl readTtl removal ev o o')
    (hLive : ∀ e, o = some e → e.writeLock.Live now ∧ e.readLock.Live now)
    (hLive' : ∀ e, o' = some e → e.readLock.Live now) (hForce : removal ≠ some true)
    (hHeld : ∀ locks, ev = .readFinished locks → locks ≤ readers.count a)
    (h : Balanced o readers writer) :
    Balanced o' (ev.readersAfter a readers) (ev.writerAfter a writer) := by
  cases hStep with
  | kept => exact h
  | readReserved e locks hWrite =>
    obtain ⟨hLiveW, hLiveR⟩ := hLive e rfl
    obtain ⟨hReaders, hWriter, -⟩ := h
    have hZero := hLiveW.isLocked_eq_false_iff.mp hWrite
    have hNone : writer = none := by
      cases writer with
      | none => rfl
      | some w => simp [hZero] at hWriter
    refine ⟨?_, hWriter, Or.inl hNone⟩
    have hCount := hLiveR.lockTimes_counter (hLive' _ rfl)
    simp only [KeyEvent.readersAfter, Multiset.card_add, Multiset.card_replicate, hCount, hReaders]
  | readFinished e locks hWrite hRead =>
    obtain ⟨hLiveW, -⟩ := hLive e rfl
    obtain ⟨hReaders, hWriter, -⟩ := h
    have hZero := hLiveW.isLocked_eq_false_iff.mp hWrite
    have hNone : writer = none := by
      cases writer with
      | none => rfl
      | some w => simp [hZero] at hWriter
    refine ⟨?_, hWriter, Or.inl hNone⟩
    have hLe : Multiset.replicate locks a ≤ readers :=
      Multiset.le_count_iff_replicate_le.mp (hHeld locks rfl)
    simp only [KeyEvent.readersAfter, TTLLock.unlockTimes_counter, Multiset.card_sub hLe,
      Multiset.card_replicate, hReaders]
  | temporaryFreed e locks hWrite hRead _ hLast =>
    -- the last lock is gone, so the caller was the only reader left
    obtain ⟨hLiveW, hLiveR⟩ := hLive e rfl
    obtain ⟨hReaders, hWriter, -⟩ := h
    have hZero := hLiveW.isLocked_eq_false_iff.mp hWrite
    have hCount := (TTLLock.unlockTimes_isLocked_eq_false_iff hRead locks).mp hLast
    have hLe : Multiset.replicate locks a ≤ readers :=
      Multiset.le_count_iff_replicate_le.mp (hHeld locks rfl)
    constructor
    · refine Multiset.card_eq_zero.mp ?_
      rw [KeyEvent.readersAfter, Multiset.card_sub hLe, Multiset.card_replicate]
      omega
    · cases writer with
      | none => rfl
      | some w => simp [hZero] at hWriter
  | writeReserved e hWrite hRead =>
    obtain ⟨hLiveW, hLiveR⟩ := hLive e rfl
    have hZeroW := hLiveW.isLocked_eq_false_iff.mp hWrite
    have hZeroR := hLiveR.isLocked_eq_false_iff.mp hRead
    obtain ⟨hReaders, -⟩ := h.free hZeroR hZeroW
    subst hReaders
    refine ⟨h.1, ?_, Or.inr rfl⟩
    simp only [KeyEvent.writerAfter, hLiveW.lock_counter, hZeroW, Option.isSome_some, if_true]
  | created obj isTemporary hFresh =>
    obtain ⟨rfl, -⟩ := h
    refine ⟨rfl, ?_, Or.inr rfl⟩
    simp [KeyEvent.writerAfter, TTLLock.lock, TTLLock.new]
  | writeFinished e hWrite hRead =>
    obtain ⟨hReaders, hWriter, -⟩ := h
    have hPos := (TTLLock.isLocked_iff.mp hWrite).1
    refine ⟨hReaders, ?_, Or.inl rfl⟩
    have hOne : e.writeLock.counter ≤ 1 := by
      rw [hWriter]
      split <;> omega
    simp only [KeyEvent.writerAfter, TTLLock.unlock_counter, Option.isSome_none]
    simp only [false_eq_true, if_false]
    omega
  | handedOver e locks hWrite hRead =>
    obtain ⟨-, hLiveR⟩ := hLive e rfl
    obtain ⟨hReaders, hWriter, -⟩ := h
    have hPos := (TTLLock.isLocked_iff.mp hWrite).1
    have hOne : e.writeLock.counter ≤ 1 := by
      rw [hWriter]
      split <;> omega
    have hCount := hLiveR.lockTimes_counter (hLive' _ rfl)
    refine ⟨?_, ?_, Or.inl rfl⟩
    · simp only [KeyEvent.readersAfter, Multiset.card_add, Multiset.card_replicate, hCount,
        hReaders]
    · simp only [KeyEvent.writerAfter, TTLLock.unlock_counter, Option.isSome_none]
      simp only [false_eq_true, if_false]
      omega
  | removed e force hRemoval hFree =>
    obtain ⟨hLiveW, hLiveR⟩ := hLive e rfl
    rcases hFree with rfl | hUnlocked
    · exact absurd hRemoval hForce
    · obtain ⟨hRead, hWrite⟩ := or_eq_false_iff.mp hUnlocked
      exact h.free (hLiveR.isLocked_eq_false_iff.mp hRead) (hLiveW.isLocked_eq_false_iff.mp hWrite)

end KeyStep

/-- Every key is balanced. -/
def Ledger (s : Owned A K) : Prop :=
  ∀ k, Balanced (s.manager.objects.get? k) (s.readers k) (s.writer k)

/-- A call over distinct keys that forces nothing, while no lock is expired. -/
structure Orderly (s : Owned A K) (a : A) (op : L1Op K) : Prop where
  keys_nodup : op.keys.Nodup
  unforced : op.isForced = false
  before : s.manager.NoExpiry
  after : (s.manager.apply op).manager.NoExpiry
  holdsReads : ∀ keys readLocks, op = .finishRead keys readLocks →
    ∀ k ∈ keys, validateReadLocks readLocks ≤ s.held a k

variable {s : Owned A K}

theorem Ledger.act {op : L1Op K} (h : s.Ledger) (hOrderly : s.Orderly a op) :
    (s.act a op).Ledger := by
  intro k
  refine keyStep_balanced a (L1Manager.apply_keyStep hOrderly.keys_nodup k)
    (fun e he => hOrderly.before.live he)
    (fun e he => (hOrderly.after.live he).2.mono (s.manager.apply_monotone op).1) ?_ ?_ (h k)
  · intro hRemoval
    have hForced := hOrderly.unforced
    simp [L1Op.isForced, hRemoval] at hForced
  · intro locks hEvent
    obtain ⟨keys, readLocks, rfl, rfl⟩ := L1Op.eventAt_eq_readFinished hEvent
    refine hOrderly.holdsReads keys readLocks rfl k ?_
    by_contra hk
    have hSilent := L1Manager.eventAt_of_not_mem s.manager (.finishRead keys readLocks) hk
    cases hSilent.symm.trans hEvent

theorem Ledger.read_entry (h : s.Ledger) (hLive : s.manager.NoExpiry) {k : K}
    (hHeld : 0 < s.held a k) :
    ∃ e, s.manager.objects.get? k = some e ∧ e.writeLock.isLocked s.manager.nowMs = false ∧
      e.readLock.isLocked s.manager.nowMs = true := by
  have hKey := h k
  have hMem : a ∈ s.readers k := Multiset.count_pos.mp hHeld
  have hPos : 0 < (s.readers k).card := Multiset.card_pos_iff_exists_mem.mpr ⟨a, hMem⟩
  cases hEntry : s.manager.objects.get? k with
  | none =>
    rw [hEntry] at hKey
    rw [hKey.1] at hMem
    cases hMem
  | some e =>
    rw [hEntry] at hKey
    obtain ⟨hReaders, hWriter, hExclusive⟩ := hKey
    obtain ⟨hLiveW, hLiveR⟩ := hLive.live hEntry
    refine ⟨e, rfl, ?_, ?_⟩
    · rcases hExclusive with hNone | hZero
      · rw [hNone] at hWriter
        exact hLiveW.isLocked_eq_false_iff.mpr hWriter
      · rw [hZero] at hMem
        cases hMem
    · rw [hLiveR.isLocked_iff, hReaders]
      exact hPos

theorem Ledger.finishRead_event (h : s.Ledger) {keys : List K} {readLocks : Nat}
    (hOrderly : s.Orderly a (.finishRead keys readLocks)) {k : K} (hk : k ∈ keys) :
    s.event (.finishRead keys readLocks) k = .readFinished (validateReadLocks readLocks) := by
  have hHeld := hOrderly.holdsReads keys readLocks rfl k hk
  obtain ⟨e, he, hWrite, hRead⟩ :=
    h.read_entry hOrderly.before (Nat.lt_of_lt_of_le (validateReadLocks_pos readLocks) hHeld)
  exact L1Manager.finishRead_succeeds hOrderly.keys_nodup hk readLocks he hWrite hRead

end Owned

end LMCache
