import LMCache.Prefetch.Exposure

/-!
# Write locks of a request

Which write locks a request holds, as a function of its program point: those of its buffers
until it finishes, and then those that its remaining calls end. The ledger side is one
equivalence: after an orderly call, a caller is the writer of a key when it was before and
the call did not end this, or when the call reserved the write.
-/

namespace LMCache

open Lib List

namespace L1Op

variable {K : Type} [DecidableEq K]

def reservesWrite (op : L1Op K) (k : K) : Bool :=
  match op with
  | .reserveWrite keys _ _ _ => k ∈ keys
  | _ => false

theorem mem_keys_of_reservesWrite {op : L1Op K} {k : K} (h : op.reservesWrite k = true) :
    k ∈ op.keys := by
  cases op with
  | reserveWrite keys isTemporary mode outcome => exact of_decide_eq_true h
  | _ => cases h

end L1Op

variable {A K : Type} [DecidableEq A] [DecidableEq K]

theorem L1Manager.reservesWrite_of_event {m : L1Manager K} {op : L1Op K} {k : K} {obj : Nat}
    (h : op.eventAt (m.apply op).reply k = .writeReserved obj) : op.reservesWrite k = true := by
  have hReserves : (op.eventAt (m.apply op).reply k).reservesWrite = true := by
    rw [h]
    rfl
  obtain ⟨keys, isTemporary, mode, outcome, -, -, rfl, -⟩ := L1Op.eventAt_reservesWrite hReserves
  refine decide_eq_true ?_
  by_contra hk
  rw [m.eventAt_of_not_mem (.reserveWrite keys isTemporary mode outcome) hk] at h
  cases h

namespace Owned

variable {s : Owned A K} {a b : A} {k : K} {op : L1Op K}

omit [DecidableEq A] in
theorem Ledger.write_entry (h : s.Ledger) (hLive : s.manager.NoExpiry)
    (hWriter : s.writer k = some a) :
    ∃ e, s.manager.objects.get? k = some e ∧ e.writeLock.isLocked s.manager.nowMs = true ∧
      e.readLock.isLocked s.manager.nowMs = false := by
  have hKey := h k
  cases hEntry : s.manager.objects.get? k with
  | none =>
    rw [hEntry] at hKey
    cases hKey.2.symm.trans hWriter
  | some e =>
    rw [hEntry, hWriter] at hKey
    obtain ⟨hReaders, hCount, hExclusive⟩ := hKey
    obtain ⟨hLiveW, hLiveR⟩ := hLive.live hEntry
    refine ⟨e, rfl, hLiveW.isLocked_iff.mpr ?_, hLiveR.isLocked_eq_false_iff.mpr ?_⟩
    · rw [hCount]
      exact Nat.one_pos
    · rcases hExclusive with hNone | hZero
      · cases hNone
      · rw [hReaders, hZero]
        rfl

omit [DecidableEq A] in
theorem Ledger.finishesWrite (h : s.Ledger) (hLive : s.manager.NoExpiry) (hKeys : op.keys.Nodup)
    (hWriter : s.writer k = some a) (hEnds : op.endsWrite k = true) :
    (s.event op k).finishesWrite = true := by
  obtain ⟨e, he, hWrite, hRead⟩ := h.write_entry hLive hWriter
  cases op with
  | finishWrite keys =>
    change keys.Nodup at hKeys
    rw [event, L1Manager.finishWrite_succeeds hKeys (of_decide_eq_true hEnds) he hWrite hRead]
    rfl
  | finishWriteAndReserveRead keys readLocks =>
    change keys.Nodup at hKeys
    rw [event, L1Manager.finishWriteAndReserveRead_succeeds hKeys (of_decide_eq_true hEnds)
      readLocks he hWrite hRead]
    rfl
  | _ => cases hEnds

omit [DecidableEq A] in
theorem Ledger.not_writeReserved (h : s.Ledger) (hLive : s.manager.NoExpiry)
    (hKeys : op.keys.Nodup) (hWriter : s.writer k = some a) (obj : Nat) :
    s.event op k ≠ .writeReserved obj := by
  intro hEvent
  obtain ⟨e, he, hWrite, -⟩ := h.write_entry hLive hWriter
  have hStep := L1Manager.apply_keyStep (m := s.manager) hKeys k
  rw [show op.eventAt (s.manager.apply op).reply k = _ from hEvent, he] at hStep
  generalize (s.manager.apply op).manager.objects.get? k = o at hStep
  cases hStep with
  | writeReserved _ hFree =>
    rw [hWrite] at hFree
    cases hFree

theorem Ledger.writer_act (h : s.Ledger) (hOrderly : s.Orderly b op)
    (hOwn : op.endsWrite k = true → s.writer k = some b) :
    (s.act b op).writer k = some a ↔ (s.writer k = some a ∧ op.endsWrite k = false) ∨
      (b = a ∧ ∃ obj, s.event op k = .writeReserved obj) := by
  have hFinish : op.endsWrite k = true → (s.event op k).finishesWrite = true := fun hEnds =>
    h.finishesWrite hOrderly.before hOrderly.keys_nodup (hOwn hEnds) hEnds
  have hEnded : (s.event op k).finishesWrite = true → op.endsWrite k = true :=
    L1Manager.endsWrite_of_event
  have hReserved : ∀ obj, s.event op k = .writeReserved obj → s.writer k ≠ some a :=
    fun obj hEvent hWriter =>
      h.not_writeReserved hOrderly.before hOrderly.keys_nodup hWriter obj hEvent
  show (s.event op k).writerAfter b (s.writer k) = some a ↔ _
  cases hEvent : s.event op k with
  | writeReserved obj =>
    have hNot := hReserved obj hEvent
    simp [KeyEvent.writerAfter, hNot]
  | writeFinished | handedOver obj locks =>
    have hEnds := hEnded (by rw [hEvent]; rfl)
    simp [KeyEvent.writerAfter, hEnds]
  | _ =>
    have hEnds : op.endsWrite k = false := by
      rw [← Bool.not_eq_true]
      intro hEnds
      have hFinishes := hFinish hEnds
      rw [hEvent] at hFinishes
      cases hFinishes
    simp [KeyEvent.writerAfter, hEnds]

end Owned

namespace InFlightPrefetchRequest

structure EndsOnce (calls : List (L1Op K)) : Prop where
  once : calls.Pairwise fun c c' => ∀ k, c.endsWrite k = true → c'.endsWrite k = false
  unreserving : ∀ c ∈ calls, ∀ k, c.reservesWrite k = false

structure ExpectWrites (r : InFlightPrefetchRequest K) (holds : K → Prop) : Prop where
  open_writes : r.callsLeft = none → ∀ k, holds k ↔ k ∈ r.reservedKeys
  finishing : ∀ calls, r.callsLeft = some calls →
    EndsOnce calls ∧ ∀ k, holds k ↔ ∃ c ∈ calls, c.endsWrite k = true

variable {r : InFlightPrefetchRequest K} {holds : K → Prop}

theorem expectWrites_of_calls {calls : List (L1Op K)} (hCalls : r.callsLeft = some calls)
    (hOnce : EndsOnce calls) (hHolds : ∀ k, holds k ↔ ∃ c ∈ calls, c.endsWrite k = true) :
    r.ExpectWrites holds := by
  refine ⟨fun hNone => ?_, fun calls' hCalls' => ?_⟩
  · rw [hCalls] at hNone
    cases hNone
  · rw [hCalls] at hCalls'
    cases hCalls'
    exact ⟨hOnce, hHolds⟩

theorem endsOnce_of_ends_nothing {calls : List (L1Op K)}
    (hEnds : ∀ c ∈ calls, ∀ k, c.endsWrite k = false)
    (hReserves : ∀ c ∈ calls, ∀ k, c.reservesWrite k = false) : EndsOnce calls :=
  ⟨pairwise_of_forall_mem_list fun _ _ c' hc' k _ => hEnds c' hc' k, hReserves⟩

theorem EndsOnce.cons {c : L1Op K} {calls : List (L1Op K)} (h : EndsOnce calls)
    (hEnds : ∀ c' ∈ calls, ∀ k, c.endsWrite k = true → c'.endsWrite k = false)
    (hReserves : ∀ k, c.reservesWrite k = false) : EndsOnce (c :: calls) :=
  ⟨pairwise_cons.mpr ⟨hEnds, h.once⟩, forall_mem_cons.mpr ⟨hReserves, h.unreserving⟩⟩

theorem discardCalls_ends (keys : List K) {rest : List (L1Op K)}
    (hEnds : ∀ c ∈ rest, ∀ k, c.endsWrite k = false)
    (hReserves : ∀ c ∈ rest, ∀ k, c.reservesWrite k = false) :
    EndsOnce (discardCalls keys ++ rest) ∧
      ∀ k, (∃ c ∈ discardCalls keys ++ rest, c.endsWrite k = true) ↔ k ∈ keys := by
  have hRest : ∀ k, ¬∃ c ∈ rest, c.endsWrite k = true := by
    rintro k ⟨c, hc, hTrue⟩
    rw [hEnds c hc k] at hTrue
    cases hTrue
  cases keys with
  | nil => exact ⟨endsOnce_of_ends_nothing hEnds hReserves, fun k => by
      simpa [discardCalls, callsFor] using hRest k⟩
  | cons key keys =>
    have hTail : EndsOnce (.delete (key :: keys) false :: rest) :=
      (endsOnce_of_ends_nothing hEnds hReserves).cons (fun c hc k _ => hEnds c hc k) fun _ => rfl
    refine ⟨hTail.cons ?_ fun _ => rfl, fun k => ?_⟩
    · intro c hc k _
      rcases mem_cons.mp hc with rfl | hOld
      · rfl
      · exact hEnds c hOld k
    · constructor
      · rintro ⟨c, hc, hTrue⟩
        rcases mem_cons.mp hc with rfl | hc
        · exact of_decide_eq_true hTrue
        · rcases mem_cons.mp hc with rfl | hOld
          · cases hTrue
          · exact absurd ⟨c, hOld, hTrue⟩ (hRest k)
      · exact fun hk => ⟨.finishWrite (key :: keys), mem_cons_self, decide_eq_true hk⟩

theorem expectWrites_finishRequest (hReady : r.FinishReady)
    (hHolds : ∀ k, holds k ↔ k ∈ r.reservedKeys) : r.finishRequest.ExpectWrites holds := by
  generalize hRetained : (buildTrimMask r.resultBitmap r.numKeys r.spec.policy r.spec.attn).2 =
    retained
  have hLeft : r.finishRequest.callsLeft = some (r.finishCalls retained) :=
    hRetained ▸ callsLeft_finishing rfl
  have hRelease : ∀ c ∈ r.releaseCalls retained,
      (∀ k, c.endsWrite k = false) ∧ ∀ k, c.reservesWrite k = false := by
    intro c hc
    rcases mem_append.mp hc with hRead | hTouch
    · rw [mem_singleton.mp (mem_callsFor hRead)]
      exact ⟨fun _ => rfl, fun _ => rfl⟩
    · rw [mem_singleton.mp (mem_callsFor hTouch)]
      exact ⟨fun _ => rfl, fun _ => rfl⟩
  obtain ⟨hOnce, hEnds⟩ := discardCalls_ends r.failedKeys (fun c hc => (hRelease c hc).1)
    fun c hc => (hRelease c hc).2
  have hSplit : ∀ k, k ∈ r.reservedKeys ↔ k ∈ r.loadedKeys ∨ k ∈ r.failedKeys := by
    intro k
    by_cases hLoaded : k ∈ r.loadedKeys
    · simp [hLoaded, hReady.loaded_reserved k hLoaded]
    · simp [failedKeys, hLoaded]
  have hUnreserving : ∀ k, r.finishLoaded.reservesWrite k = false := by
    intro k
    unfold finishLoaded
    split <;> rfl
  refine expectWrites_of_calls hLeft ?_ fun k => ?_
  · unfold finishCalls callsFor
    split
    · exact hOnce
    · refine hOnce.cons (fun c hc k hLoaded => ?_) hUnreserving
      rw [endsWrite_finishLoaded] at hLoaded
      rw [← Bool.not_eq_true]
      intro hTrue
      have hFailed := (hEnds k).mp ⟨c, hc, hTrue⟩
      simpa [of_decide_eq_true hLoaded] using (mem_filter.mp hFailed).2
  · rw [hHolds, hSplit, ← hEnds k]
    unfold finishCalls callsFor
    split
    · rename_i hEmpty
      simp [List.isEmpty_iff.mp hEmpty]
    · simp only [cons_append, nil_append, mem_cons, exists_eq_or_imp,
        endsWrite_finishLoaded, decide_eq_true_eq]

theorem expectWrites_cleanup (hHolds : ∀ k, holds k ↔ k ∈ r.reservedKeys) :
    r.cleanup.ExpectWrites holds := by
  have hRelease : ∀ c ∈ callsFor (r.keysAt r.l1Readlocks)
      [L1Op.finishRead (r.keysAt r.l1Readlocks) r.spec.numKvReaders],
      (∀ k, c.endsWrite k = false) ∧ ∀ k, c.reservesWrite k = false := by
    intro c hc
    rw [mem_singleton.mp (mem_callsFor hc)]
    exact ⟨fun _ => rfl, fun _ => rfl⟩
  obtain ⟨hOnce, hEnds⟩ := discardCalls_ends r.reservedKeys (fun c hc => (hRelease c hc).1)
    fun c hc => (hRelease c hc).2
  exact expectWrites_of_calls (callsLeft_finishing rfl) hOnce fun k =>
    (hHolds k).trans (hEnds k).symm

theorem expectWrites_of_continues {buffers : List (K × MemoryObj)}
    (hHolds : ∀ k, holds k ↔ k ∈ buffers.map Prod.fst) (h : Continues buffers r) :
    r.ExpectWrites holds := by
  cases h with
  | goesOn hNone hSame =>
    subst hSame
    refine ⟨fun _ => hHolds, fun calls hCalls => ?_⟩
    rw [hNone] at hCalls
    cases hCalls
  | finishes hReady hSame =>
    subst hSame
    exact expectWrites_finishRequest hReady hHolds

theorem resume_expectWrites {cfg : PrefetchConfig K} {routing : List Nat} (m : L1Manager K)
    (h : r.Wf) {outcome : AllocOutcome} {op : L1Op K} (hNext : r.nextCall cfg outcome = some op)
    (hExpect : r.ExpectWrites holds) :
    (r.resume cfg routing (m.apply op).reply).ExpectWrites fun k =>
      (holds k ∧ op.endsWrite k = false) ∨
        ∃ obj, op.eventAt (m.apply op).reply k = .writeReserved obj := by
  obtain ⟨calls, result, hAt⟩ | ⟨new, hContinues, hNone, hEnds, -, hNew⟩ :=
    resume_continues h m routing hNext
  · obtain ⟨⟨hOnce, hUnreserving⟩, hHolds⟩ := hExpect.finishing (op :: calls) (by
      simp [callsLeft, hAt])
    obtain ⟨hFirst, hRest⟩ := pairwise_cons.mp hOnce
    rw [resume_finish _ hAt]
    refine expectWrites_of_calls (callsLeft_finishing rfl)
      ⟨hRest, fun c hc => hUnreserving c (mem_cons_of_mem _ hc)⟩ fun k => ?_
    have hSilent : ¬∃ obj, op.eventAt (m.apply op).reply k = .writeReserved obj := by
      rintro ⟨obj, hEvent⟩
      have hReserves := L1Manager.reservesWrite_of_event hEvent
      rw [hUnreserving op (by simp) k] at hReserves
      cases hReserves
    rw [or_iff_left hSilent, hHolds k]
    constructor
    · rintro ⟨⟨c, hc, hTrue⟩, hFalse⟩
      rcases mem_cons.mp hc with rfl | hOld
      · rw [hFalse] at hTrue
        cases hTrue
      · exact ⟨c, hOld, hTrue⟩
    · rintro ⟨c, hc, hTrue⟩
      refine ⟨⟨c, mem_cons_of_mem _ hc, hTrue⟩, ?_⟩
      rw [← Bool.not_eq_true]
      intro hBoth
      rw [hFirst c hc k hBoth] at hTrue
      cases hTrue
  · refine expectWrites_of_continues (fun k => ?_) hContinues
    rw [hExpect.open_writes hNone, hEnds k, map_append, mem_append]
    refine or_congr (by simp [reservedKeys]) ?_
    simp only [mem_map, Prod.exists, exists_and_right, exists_eq_right, hNew]

end InFlightPrefetchRequest

end LMCache
