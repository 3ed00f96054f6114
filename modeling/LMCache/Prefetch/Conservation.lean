import LMCache.Prefetch.Adapters
import LMCache.Prefetch.NeverExposed
import LMCache.Prefetch.ReadLocks
import LMCache.Prefetch.WriteLocks

/-!
# Locks are conserved

What a request holds when it completes, in any run of the controllers and their clients in
which no lock expires, nothing is removed by force, clients give back only reads they hold,
and nobody else reserves a key between the `finish_write` and the `delete` that give it up.

For every request that is not done, the invariant ties the ledger to its program point. The
step in which it gets done then leaves exactly the locks on the retained keys.
-/

namespace LMCache

open Lib InFlightPrefetchRequest List Option
open Dict hiding keys

namespace PrefetchSystem

variable {K : Type} [DecidableEq K] {cfg : PrefetchConfig K}

/-- A client gives back only reads that it holds. -/
def finishesOwnReads (s : PrefetchSystem K) (a : Actor) : L1Op K → Bool
  | .finishRead keys readLocks =>
    keys.all fun k => validateReadLocks readLocks ≤ s.ledger.held a k
  | _ => true

def Calm (cfg : PrefetchConfig K) (s : PrefetchSystem K) (label : SystemLabel K) : Prop :=
  ∀ call ∈ s.callOf cfg label,
    call.2.isForced = false ∧ s.ledger.manager.NoExpiry ∧
    (s.ledger.manager.apply call.2).manager.NoExpiry ∧
    (s.isOutside call.1 = true → s.finishesOwnReads call.1 call.2 = true) ∧
    (s.isOther call.1 = true → ∀ k ∈ call.2.keys,
      (call.2.reservesRead k || call.2.reservesWrite k) = true → s.awaitsDelete k = false)

instance (s : PrefetchSystem K) (label : SystemLabel K) : Decidable (Calm cfg s label) :=
  inferInstanceAs (Decidable (∀ call ∈ s.callOf cfg label, _))

/-- The ledger agrees with the program point of request `id`. -/
structure Conserved (s : PrefetchSystem K) (id : Nat) (r : InFlightPrefetchRequest K) : Prop where
  reads : r.Expect (s.ledger.held (.request id))
  writes : r.ExpectWrites fun k => s.ledger.writer k = some (.request id)
  kept : ∀ p ∈ r.writeReserved, p.1 ∉ r.filledKeys → s.rewritten p.2 = false
  attached : r.Attached s.controller.l2Adapters

def storeLocks (s : PrefetchSystem K) : List K :=
  s.store.successful.map Prod.fst ++ s.store.inFlightTasks.flatten

structure Settled (s : PrefetchSystem K) : Prop where
  guarded : s.Guarded
  ledger : s.ledger.Ledger
  fresh : ∀ id, s.controller.requests.get? id = none → ∀ k,
    s.ledger.held (.request id) k = 0 ∧ s.ledger.writer k ≠ some (.request id)
  store : ∀ k, s.ledger.held .store k = s.storeLocks.count k
  rewritten_old : ∀ obj, s.rewritten obj = true → obj < s.ledger.manager.memory.allocated
  conserved : ∀ id r, s.controller.requests.get? id = some r → r.point.isDone = false →
    s.Conserved id r

omit [DecidableEq K] in
theorem routing_attached (c : PrefetchController K) : ∀ a ∈ c.routing, a ∈ c.l2Adapters :=
  fun _ ha => mem_of_mem_filter ha

section Calls

variable {s : PrefetchSystem K} {a b : Actor} {op : L1Op K} {id : Nat}
  {r : InFlightPrefetchRequest K}

/-- What one call of `a` meets in a calm run. -/
structure CalmCall (s : PrefetchSystem K) (a : Actor) (op : L1Op K) : Prop where
  orderly : s.ledger.Orderly a op
  ends : ∀ k, op.endsWrite k = true → s.ledger.writer k = some a
  reserves : ∀ id r calls k, s.controller.requests.get? id = some r →
    r.callsLeft = some calls → inWindow calls k = true →
    op.reservesRead k = false ∧ op.reservesWrite k = false

theorem CalmCall.careful (h : s.CalmCall a op) : s.CarefulCall a op where
  keys_nodup := h.orderly.keys_nodup
  live := fun _ _ _ _ _ _ he => (h.orderly.before.live he).1
  ends := fun k _ _ hHolds hEnds => some.inj ((h.ends k hEnds).symm.trans hHolds.1)
  reads := fun id r calls k hGet hCalls hWindow => (h.reserves id r calls k hGet hCalls hWindow).1

theorem Settled.not_taken (h : s.Settled) (hGet : s.controller.requests.get? id = some r)
    (hOpen : r.point.isDone = false) (hCall : s.CalmCall a op) {p : K × MemoryObj}
    (hp : p ∈ r.writeReserved) (hNot : p.1 ∉ r.filledKeys) (k : K) :
    ¬(s.ledger.event op k = .writeReserved p.2 ∧ s.ledger.manager.heldBy k = some p.2) := by
  rintro ⟨hEvent, hHeld⟩
  obtain ⟨-, hOk⟩ := h.guarded.requests id r hGet
  have hRewritten := (h.conserved id r hGet hOpen).kept p hp hNot
  obtain rfl := (hOk.known p hp).home k hHeld
  have hNotHeld : ¬HoldsBuffer s.ledger (.request id) p.1 p.2 := fun hHolds =>
    h.ledger.not_writeReserved hCall.orderly.before hCall.orderly.keys_nodup hHolds.1 p.2 hEvent
  cases hCalls : r.callsLeft with
  | none =>
    rcases hOk.holding hCalls p hp with hHolds | hGone
    · exact hNotHeld hHolds
    · exact hGone hRewritten p.1 hHeld
  | some calls =>
    cases (hOk.finishing calls hCalls).2 p hp with
    | pending before after call _ hHolds => exact hNotHeld hHolds
    | window keys rest hEq hk =>
      have hWindow : inWindow calls p.1 = true := by
        rw [hEq]
        exact decide_eq_true hk
      have hReserves := L1Manager.reservesWrite_of_event hEvent
      rw [(hCall.reserves id r calls p.1 hGet hCalls hWindow).2] at hReserves
      cases hReserves
    | settled hGone => exact hGone ⟨hNot, hRewritten⟩ p.1 hHeld

theorem rewritten_l1Call_of_not_taken {obj : Nat} (hOld : s.rewritten obj = false)
    (hNot : ∀ k, ¬(s.ledger.event op k = .writeReserved obj ∧
      s.ledger.manager.heldBy k = some obj)) : (s.l1Call a op).rewritten obj = false := by
  refine Bool.or_eq_false_iff.mpr ⟨hOld, List.any_eq_false.mpr fun k _ hTrue => ?_⟩
  simp only [Bool.and_eq_true, decide_eq_true_eq] at hTrue
  exact hNot k hTrue

theorem Settled.conserved_frame (h : s.Settled)
    (hGet : s.controller.requests.get? id = some r) (hOpen : r.point.isDone = false)
    (hCall : s.CalmCall a op) (hNe : a ≠ .request id) : (s.l1Call a op).Conserved id r := by
  have hOld := h.conserved id r hGet hOpen
  refine ⟨?_, ?_, fun p hp hNot => ?_, hOld.attached⟩
  · have hSame : (s.l1Call a op).ledger.held (.request id) = s.ledger.held (.request id) :=
      funext fun k => s.ledger.held_act_ne hNe op k
    rw [hSame]
    exact hOld.reads
  · have hSame : ∀ k, (s.l1Call a op).ledger.writer k = some (.request id) ↔
        s.ledger.writer k = some (.request id) := by
      intro k
      refine (h.ledger.writer_act hCall.orderly (hCall.ends k)).trans ⟨?_, fun hWriter => ?_⟩
      · rintro (⟨hWriter, -⟩ | ⟨hEq, -⟩)
        · exact hWriter
        · exact absurd hEq hNe
      · refine Or.inl ⟨hWriter, ?_⟩
        rw [← Bool.not_eq_true]
        intro hEnds
        exact hNe (some.inj ((hCall.ends k hEnds).symm.trans hWriter))
    simp only [hSame]
    exact hOld.writes
  · exact rewritten_l1Call_of_not_taken (hOld.kept p hp hNot) (h.not_taken hGet hOpen hCall hp hNot)

theorem Settled.succeeds (h : s.Settled) (hCall : s.CalmCall a op) :
    op.Succeeds (s.ledger.manager.apply op).reply := by
  cases op with
  | finishRead keys readLocks =>
    exact fun k hk => h.ledger.finishRead_event hCall.orderly hk
  | finishWriteAndReserveRead keys readLocks =>
    intro k hk
    obtain ⟨e, he, hWrite, hRead⟩ := h.ledger.write_entry hCall.orderly.before
      (hCall.ends k (decide_eq_true hk))
    exact ⟨e.memoryObj, L1Manager.finishWriteAndReserveRead_succeeds hCall.orderly.keys_nodup hk
      readLocks he hWrite hRead⟩
  | _ => trivial

variable {outcome : AllocOutcome}

theorem Settled.conserved_call (h : s.Settled) (hGet : s.controller.requests.get? id = some r)
    (hOpen : r.point.isDone = false) (hNext : r.nextCall cfg outcome = some op)
    (hCall : s.CalmCall (.request id) op) : (s.l1Call (.request id) op).Conserved id
      (r.resume cfg s.controller.routing (s.ledger.manager.apply op).reply) := by
  have hOld := h.conserved id r hGet hOpen
  obtain ⟨hWf, -⟩ := h.guarded.requests id r hGet
  refine ⟨?_, ?_, fun p hp hNot => ?_, ?_⟩
  · have hHeld : (s.l1Call (.request id) op).ledger.held (.request id) = fun k =>
        (op.eventAt (s.ledger.manager.apply op).reply k).heldAfter
          (s.ledger.held (.request id) k) :=
      funext fun k => s.ledger.held_act_self (.request id) op k
    rw [hHeld]
    exact resume_expect s.ledger.manager hWf hNext hOld.reads (h.succeeds hCall)
  · have hWriter : (fun k => (s.l1Call (.request id) op).ledger.writer k = some (.request id)) =
        fun k => (s.ledger.writer k = some (.request id) ∧ op.endsWrite k = false) ∨
          ∃ obj, op.eventAt (s.ledger.manager.apply op).reply k = .writeReserved obj := by
      funext k
      refine propext ((h.ledger.writer_act hCall.orderly (hCall.ends k)).trans ?_)
      rw [eq_self, true_and]
      rfl
    rw [hWriter]
    exact resume_expectWrites s.ledger.manager hWf hNext hOld.writes
  · obtain ⟨calls, result, hAt⟩ | ⟨new, hContinues, hNone, -, hReserves, hNew⟩ :=
      resume_continues hWf s.ledger.manager s.controller.routing hNext
    · rw [resume_finish _ hAt] at hp hNot
      have hLeft : r.callsLeft = some (op :: calls) := by
        simp [InFlightPrefetchRequest.callsLeft, hAt]
      have hFilled : p.1 ∉ r.filledKeys := by
        rw [InFlightPrefetchRequest.filledKeys, callsLeft_finishing rfl] at hNot
        rw [InFlightPrefetchRequest.filledKeys, hLeft]
        exact hNot
      exact rewritten_l1Call_of_not_taken (hOld.kept p hp hFilled)
        (h.not_taken hGet hOpen hCall hp hFilled)
    · rw [hContinues.writeReserved] at hp
      have hFilled : p.1 ∉ r.filledKeys := by
        rw [filledKeys_of_none hNone]
        exact not_mem_nil
      rcases mem_append.mp hp with hBefore | hGranted
      · exact rewritten_l1Call_of_not_taken (hOld.kept p hBefore hFilled)
          (h.not_taken hGet hOpen hCall hBefore hFilled)
      · -- a new buffer was held by nobody before
        obtain ⟨group, isTemporary, rfl⟩ := hReserves (ne_nil_of_mem hGranted)
        obtain ⟨hFresh, -⟩ := L1Manager.reserveWrite_new_created hCall.orderly.keys_nodup
          ((hNew p.1 p.2).mp hGranted)
        refine rewritten_l1Call_of_not_taken ?_ fun k hTaken => ?_
        · rw [← Bool.not_eq_true]
          exact fun hTrue => absurd (h.rewritten_old p.2 hTrue) (Nat.not_lt.mpr hFresh)
        · exact absurd (h.guarded.accounted.held_lt k p.2 hTaken.2) (Nat.not_lt.mpr hFresh)
  · exact hOld.attached.advance (resume_advances hNext _) (routing_attached s.controller)

theorem Settled.call_fresh (h : s.Settled) (hCall : s.CalmCall a op)
    (hKnown : ∀ id, a = .request id → ∃ r, s.controller.requests.get? id = some r) (id : Nat)
    (hNone : s.controller.requests.get? id = none) (k : K) :
    (s.l1Call a op).ledger.held (.request id) k = 0 ∧
      (s.l1Call a op).ledger.writer k ≠ some (.request id) := by
  have hNe : a ≠ .request id := by
    rintro rfl
    obtain ⟨r, hGet⟩ := hKnown id rfl
    rw [hNone] at hGet
    cases hGet
  obtain ⟨hHeld, hWriter⟩ := h.fresh id hNone k
  refine ⟨(s.ledger.held_act_ne hNe op k).trans hHeld, fun hAfter => ?_⟩
  rcases (h.ledger.writer_act hCall.orderly (hCall.ends k)).mp hAfter with ⟨hOld, -⟩ | ⟨hEq, -⟩
  · exact hWriter hOld
  · exact hNe hEq

theorem Settled.call_rewritten (h : s.Settled) (a : Actor) (op : L1Op K) (obj : Nat)
    (hObj : (s.l1Call a op).rewritten obj = true) :
    obj < (s.ledger.manager.apply op).manager.memory.allocated := by
  refine Nat.lt_of_lt_of_le ?_ (s.ledger.manager.apply_monotone op).2
  rcases (Bool.or_eq_true _ _).mp hObj with hOld | hNew
  · exact h.rewritten_old obj hOld
  · obtain ⟨k, -, hTrue⟩ := List.any_eq_true.mp hNew
    simp only [Bool.and_eq_true, decide_eq_true_eq] at hTrue
    exact h.guarded.accounted.held_lt k obj hTrue.2

theorem open_of_nextCall (hNext : r.nextCall cfg outcome = some op) : r.point.isDone = false := by
  cases hPoint : r.point with
  | done result => simp [InFlightPrefetchRequest.nextCall, hPoint] at hNext
  | _ => rfl

theorem Conserved.holdsReads (h : s.Conserved id r) {keys : List K} {readLocks : Nat}
    (hNext : r.nextCall cfg outcome = some (.finishRead keys readLocks)) {k : K} (hk : k ∈ keys) :
    validateReadLocks readLocks ≤ s.ledger.held (.request id) k := by
  have hReads := h.reads
  unfold InFlightPrefetchRequest.Expect at hReads
  have hReleased : ∀ released : Bitmap,
      L1Op.finishRead keys readLocks = .finishRead (r.keysAt released) r.spec.numKvReaders →
      s.ledger.held (.request id) = (fun k => r.locksOn released k + r.locksOn r.l1Readlocks k) →
      validateReadLocks readLocks ≤ s.ledger.held (.request id) k := by
    intro released hOp hHeld
    cases hOp
    rw [hHeld]
    simp only [InFlightPrefetchRequest.locksOn, if_pos hk]
    exact Nat.le_add_right _ _
  obtain ⟨-, hOp⟩ | ⟨evictable, hAt, hOp⟩ | ⟨stale, plan, hitLength, hAt, hOp⟩ |
    ⟨plan, hitLength, group, groups, -, hOp⟩ | ⟨calls, result, hAt⟩ :=
    nextCall_cases hNext
  · cases hOp
  · rw [hAt] at hReads
    exact hReleased evictable hOp hReads
  · rw [hAt] at hReads
    exact hReleased stale hOp hReads
  · cases hOp
  · rw [hAt] at hReads
    exact hReads.2.1 k hk

theorem Conserved.endsOwn (h : s.Conserved id r) (hNext : r.nextCall cfg outcome = some op)
    {k : K} (hEnds : op.endsWrite k = true) : s.ledger.writer k = some (.request id) := by
  obtain ⟨-, rfl⟩ | ⟨evictable, -, rfl⟩ | ⟨stale, plan, hitLength, -, rfl⟩ |
    ⟨plan, hitLength, group, groups, -, rfl⟩ | ⟨calls, result, hAt⟩ :=
    nextCall_cases hNext
  · cases hEnds
  · cases hEnds
  · cases hEnds
  · cases hEnds
  · obtain ⟨-, hHolds⟩ := h.writes.finishing (op :: calls) (by
      simp [InFlightPrefetchRequest.callsLeft, hAt])
    exact (hHolds k).mpr ⟨op, mem_cons_self, hEnds⟩

end Calls

variable {label : SystemLabel K}

/-- Callers finish only what they hold: requests and the store controller by their program,
clients by the run condition. -/
theorem Settled.protocol {s t : PrefetchSystem K} (h : s.Settled) {a : Actor} {op : L1Op K}
    (hOwn : s.isOutside a = true → s.finishesOwnReads a op = true)
    (hMoves : CallMoves cfg s label a op t) :
    (∀ k, op.endsWrite k = true → s.ledger.writer k = some a) ∧
      ∀ keys readLocks, op = .finishRead keys readLocks →
        ∀ k ∈ keys, validateReadLocks readLocks ≤ s.ledger.held a k := by
  cases hMoves with
  | request hGet hNext =>
    have hOld := h.conserved _ _ hGet (open_of_nextCall hNext)
    refine ⟨fun k hEnds => hOld.endsOwn hNext hEnds, ?_⟩
    rintro keys readLocks rfl k hk
    exact hOld.holdsReads hNext hk
  | storeReserve _ =>
    exact ⟨(fun k hEnds => by cases hEnds), fun keys readLocks hEq => by cases hEq⟩
  | @storeFinish task k keys hTask =>
    refine ⟨(fun k hEnds => by cases hEnds), fun keys' readLocks hEq k' hk => ?_⟩
    cases hEq
    obtain rfl := mem_singleton.mp hk
    have hMem : k' ∈ s.store.inFlightTasks.flatten :=
      mem_flatten.mpr ⟨k' :: keys, mem_of_getElem? hTask, mem_cons_self⟩
    rw [h.store k']
    exact count_pos_iff.mpr (mem_append_right _ hMem)
  | client _ hOutside hWrites =>
    refine ⟨fun k hEnds => ?_, ?_⟩
    · cases op with
      | finishWrite keys | finishWriteAndReserveRead keys readLocks =>
        exact of_decide_eq_true (List.all_eq_true.mp hWrites k (of_decide_eq_true hEnds))
      | _ => cases hEnds
    · rintro keys readLocks rfl k hk
      exact of_decide_eq_true (List.all_eq_true.mp (hOwn hOutside) k hk)

theorem Settled.calmCall {s t : PrefetchSystem K} (h : s.Settled) (hAlone : s.Alone) {a : Actor}
    {op : L1Op K} (hMade : s.callOf cfg label = some (a, op)) (hCalm : Calm cfg s label)
    (hMoves : CallMoves cfg s label a op t) : s.CalmCall a op := by
  obtain ⟨hUnforced, hBefore, hAfter, hOwn, hReserves⟩ := hCalm (a, op) hMade
  obtain ⟨hEnds, hReads⟩ := h.protocol hOwn hMoves
  refine ⟨⟨h.guarded.call_nodup hMoves, hUnforced, hBefore, hAfter, hReads⟩, hEnds, ?_⟩
  intro id r calls k hGet hCalls hWindow
  by_cases hIs : s.isOther a = true
  · have hAwaits : s.awaitsDelete k = true := by
      refine List.any_eq_true.mpr ⟨r, mem_values_iff.mpr ⟨id, hGet⟩, ?_⟩
      rw [hCalls]
      exact hWindow
    have hNot : (op.reservesRead k || op.reservesWrite k) = false := by
      rw [← Bool.not_eq_true]
      intro hTrue
      have hMem : k ∈ op.keys := by
        rcases (Bool.or_eq_true _ _).mp hTrue with hRead | hWrite
        · exact L1Op.mem_keys_of_reservesRead hRead
        · exact L1Op.mem_keys_of_reservesWrite hWrite
      rw [hReserves hIs k hMem hTrue] at hAwaits
      cases hAwaits
    exact Bool.or_eq_false_iff.mp hNot
  · obtain ⟨id', r', outcome, hGet', hNext⟩ := handler_of_not_other hMoves hIs
    obtain ⟨keys, force, rfl⟩ := hAlone.deletes hGet' hNext hGet hCalls hWindow
    exact ⟨rfl, rfl⟩

/-- Requests that were open before the step are conserved after it, done or not, and unlocks
went to attached adapters. -/
def Carries (s t : PrefetchSystem K) : Prop :=
  ∀ id r r', s.controller.requests.get? id = some r → r.point.isDone = false →
    t.controller.requests.get? id = some r' →
    t.Conserved id r' ∧
      ∀ p ∈ r'.submittedUnlocks, p ∈ r.submittedUnlocks ∨ p.1 ∈ s.controller.l2Adapters

section Events

variable {s t : PrefetchSystem K} {id : Nat} {r r' : InFlightPrefetchRequest K}

theorem Conserved.congr (h : s.Conserved id r) (hLedger : t.ledger = s.ledger)
    (hRewritten : t.rewritten = s.rewritten)
    (hAttached : r.Attached t.controller.l2Adapters) : t.Conserved id r := by
  refine ⟨?_, ?_, ?_, hAttached⟩
  · rw [hLedger]
    exact h.reads
  · rw [hLedger]
    exact h.writes
  · rw [hRewritten]
    exact h.kept

theorem Conserved.handler (h : s.Conserved id r) (hNone : r.callsLeft = none)
    (hReads : r'.Expect (s.ledger.held (.request id)))
    (hWrites : r'.ExpectWrites fun k => s.ledger.writer k = some (.request id))
    (hSame : r'.writeReserved = r.writeReserved)
    (hAttached : r'.Attached s.controller.l2Adapters) : s.Conserved id r' := by
  refine ⟨hReads, hWrites, fun p hp _ => h.kept p (hSame ▸ hp) ?_, hAttached⟩
  rw [filledKeys_of_none hNone]
  exact not_mem_nil

theorem Settled.of_requests (h : s.Settled) (hGuarded : t.Guarded) (hLedger : t.ledger = s.ledger)
    (hRewritten : t.rewritten = s.rewritten) (hStore : t.storeLocks = s.storeLocks)
    (hRequests : ∀ id', s.controller.requests.get? id' ≠ none →
      t.controller.requests.get? id' ≠ none)
    (hOpen : ∀ id' r', t.controller.requests.get? id' = some r' → r'.point.isDone = false →
      t.Conserved id' r') : t.Settled where
  guarded := hGuarded
  ledger := by
    rw [hLedger]
    exact h.ledger
  fresh := by
    intro id' hNone k
    rw [hLedger]
    refine h.fresh id' ?_ k
    by_contra hSome
    exact hRequests id' hSome hNone
  store := by
    rw [hLedger, hStore]
    exact h.store
  rewritten_old := by
    rw [hLedger, hRewritten]
    exact h.rewritten_old
  conserved := hOpen

theorem Settled.of_same (h : s.Settled) (hGuarded : t.Guarded) (hLedger : t.ledger = s.ledger)
    (hRewritten : t.rewritten = s.rewritten) (hStore : t.storeLocks = s.storeLocks)
    (hRequests : t.controller.requests = s.controller.requests)
    (hAttached : ∀ id r, s.controller.requests.get? id = some r → r.point.isDone = false →
      r.Attached t.controller.l2Adapters) : t.Settled ∧ Carries s t := by
  have hOpen : ∀ id r, s.controller.requests.get? id = some r → r.point.isDone = false →
      t.Conserved id r := fun id r hGet hNot =>
    (h.conserved id r hGet hNot).congr hLedger hRewritten (hAttached id r hGet hNot)
  refine ⟨h.of_requests hGuarded hLedger hRewritten hStore (fun id' hSome => ?_)
    (fun id' r' hGet => ?_), fun id r r' hGet hNot hGet' => ?_⟩
  · rw [hRequests]
    exact hSome
  · rw [hRequests] at hGet
    exact hOpen id' r' hGet
  · rw [hRequests, hGet] at hGet'
    cases hGet'
    exact ⟨hOpen id r hGet hNot, fun p hp => Or.inl hp⟩

theorem Settled.of_set (h : s.Settled) (hGuarded : t.Guarded) (hLedger : t.ledger = s.ledger)
    (hRewritten : t.rewritten = s.rewritten) (hStore : t.storeLocks = s.storeLocks)
    (hAdapters : t.controller.l2Adapters = s.controller.l2Adapters)
    (hRequests : t.controller.requests = s.controller.requests.set id r') (hNew : s.Conserved id r')
    (hUnlocks : ∀ r, s.controller.requests.get? id = some r → ∀ p ∈ r'.submittedUnlocks,
      p ∈ r.submittedUnlocks ∨ p.1 ∈ s.controller.l2Adapters) : t.Settled ∧ Carries s t := by
  have hCongr : ∀ {id' : Nat} {r'' : InFlightPrefetchRequest K}, s.Conserved id' r'' →
      t.Conserved id' r'' := fun hOld => hOld.congr hLedger hRewritten (hAdapters ▸ hOld.attached)
  refine ⟨h.of_requests hGuarded hLedger hRewritten hStore (fun id' hSome => ?_)
    (fun id' r'' hGet' hNot => ?_), fun id' r r'' hGet hNot hGet' => ?_⟩
  · rw [hRequests, get?_set]
    split
    · simp
    · exact hSome
  · rw [hRequests] at hGet'
    obtain ⟨rfl, rfl⟩ | ⟨-, hGet'⟩ := get?_set_cases hGet'
    · exact hCongr hNew
    · exact hCongr (h.conserved id' r'' hGet' hNot)
  · rw [hRequests] at hGet'
    obtain ⟨rfl, rfl⟩ | ⟨-, hGet'⟩ := get?_set_cases hGet'
    · exact ⟨hCongr hNew, hUnlocks r hGet⟩
    · obtain rfl := some.inj (hGet.symm.trans hGet')
      exact ⟨hCongr (h.conserved id' r hGet hNot), fun p hp => Or.inl hp⟩

theorem Settled.setRequest (h : s.Settled) (hGuarded : (s.setRequest id r').Guarded)
    (hGet : s.controller.requests.get? id = some r) (hNew : s.Conserved id r')
    (hUnlocks : ∀ p ∈ r'.submittedUnlocks, p ∈ r.submittedUnlocks ∨ p.1 ∈ s.controller.l2Adapters) :
    (s.setRequest id r').Settled ∧ Carries s (s.setRequest id r') := by
  refine h.of_set hGuarded rfl rfl rfl rfl rfl hNew fun r₁ hGet₁ => ?_
  obtain rfl := some.inj (hGet.symm.trans hGet₁)
  exact hUnlocks

omit [DecidableEq K] in
theorem open_of_callsLeft (hNone : r.callsLeft = none) : r.point.isDone = false := by
  rw [← Bool.not_eq_true]
  intro hDone
  rw [callsLeft_of_isDone hDone] at hNone
  cases hNone

theorem start_conserved (h : s.Settled) (hNone : s.controller.requests.get? id = none)
    (spec : PrefetchRequestSpec K) : s.Conserved id (InFlightPrefetchRequest.start spec) where
  reads := funext fun k => (h.fresh id hNone k).1
  writes := ⟨fun _ k => ⟨fun hWriter => absurd hWriter (h.fresh id hNone k).2, fun hk => by
    cases hk⟩, fun calls hCalls => by cases hCalls⟩
  kept := fun p hp => by cases hp
  attached := by
    refine ⟨fun a ha => ?_, fun a ha => ?_, fun a ha => ?_⟩
    · cases ha
    · cases ha
    · cases ha

theorem Settled.cleanup (h : s.Settled) (hGuarded : (s.setRequest id r.cleanup).Guarded)
    (hGet : s.controller.requests.get? id = some r)
    (hPoint : r.point = .waitLookup ∨ r.point = .waitLoad) :
    (s.setRequest id r.cleanup).Settled ∧ Carries s (s.setRequest id r.cleanup) := by
  have hPointOk := (h.guarded.requests id r hGet).1.point
  have hNone : r.callsLeft = none := by
    rcases hPoint with hPoint | hPoint <;> simp [InFlightPrefetchRequest.callsLeft, hPoint]
  have hOld := h.conserved id r hGet (open_of_callsLeft hNone)
  have hReads := hOld.reads
  unfold InFlightPrefetchRequest.PointOk at hPointOk
  unfold InFlightPrefetchRequest.Expect at hReads
  have hBoth : r.reservedKeys.Nodup ∧ s.ledger.held (.request id) = r.locksOn r.l1Readlocks := by
    rcases hPoint with hPoint | hPoint
    · rw [hPoint] at hPointOk hReads
      exact ⟨by simp [hPointOk.reservedKeys], hReads⟩
    · simp only [hPoint] at hPointOk hReads
      exact ⟨hPointOk.2.1, hReads⟩
  have hAdvances : InFlightPrefetchRequest.Advances s.controller.routing r r.cleanup :=
    cleanup_advances
  refine h.setRequest hGuarded hGet (hOld.handler hNone ?_ ?_ rfl
    (hOld.attached.advance hAdvances (routing_attached s.controller)))
    fun p hp => hOld.attached.unlocks hAdvances hp
  · rw [hBoth.2]
    exact expect_cleanup hBoth.1
  · exact expectWrites_cleanup (hOld.writes.open_writes hNone)

theorem Settled.afterEvent (h : s.Settled) {label : SystemLabel K}
    (hStep : s.afterEvent cfg label = some t) : t.Settled ∧ Carries s t := by
  have hGuarded := h.guarded.afterEvent hStep
  have hOldAttached : ∀ id r, s.controller.requests.get? id = some r → r.point.isDone = false →
      r.Attached s.controller.l2Adapters := fun id r hGet hNot =>
    (h.conserved id r hGet hNot).attached
  cases moves_of_afterEvent hStep with
  | submit spec => exact h.of_same hGuarded rfl rfl rfl rfl hOldAttached
  | @start id spec queue hQueue _ =>
    obtain ⟨-, hNone⟩ := h.guarded.queue_fresh (id, spec) (by simp [hQueue])
    refine h.of_set hGuarded rfl rfl rfl rfl rfl (start_conserved h hNone spec) fun r hGet => ?_
    rw [hNone] at hGet
    cases hGet
  | @lookupDone id adapter result r hGet hPoint hPending hSize =>
    obtain ⟨hWf, -⟩ := h.guarded.requests id r hGet
    have hNone : r.callsLeft = none := by simp [InFlightPrefetchRequest.callsLeft, hPoint]
    have hOld := h.conserved id r hGet (open_of_callsLeft hNone)
    have hContinues := lookupDone_continues hWf hPoint cfg s.controller.routing hPending hSize
    obtain ⟨hAttached, -, hUnlocks⟩ := hOld.attached.lookupDone cfg hPending result
      (routing_attached s.controller)
    refine h.setRequest hGuarded hGet (hOld.handler hNone ?_ ?_ hContinues.writeReserved
      hAttached) hUnlocks
    · exact lookupDone_expect hWf hPoint hPending hSize hOld.reads
    · exact expectWrites_of_continues (hOld.writes.open_writes hNone) hContinues
  | @loadDone id adapter result r hGet hPoint _ =>
    obtain ⟨hWf, -⟩ := h.guarded.requests id r hGet
    have hNone : r.callsLeft = none := by simp [InFlightPrefetchRequest.callsLeft, hPoint]
    have hOld := h.conserved id r hGet (open_of_callsLeft hNone)
    have hContinues := loadDone_continues hWf hPoint adapter result
    have hAdvances : InFlightPrefetchRequest.Advances s.controller.routing r
        (r.loadDone adapter result) :=
      loadDone_advances adapter result
    refine h.setRequest hGuarded hGet (hOld.handler hNone ?_ ?_ hContinues.writeReserved
      (hOld.attached.advance hAdvances (routing_attached s.controller)))
      fun p hp => hOld.attached.unlocks hAdvances hp
    · exact loadDone_expect hWf hPoint adapter result hOld.reads
    · exact expectWrites_of_continues (hOld.writes.open_writes hNone) hContinues
  | cleanup hGet hPoint => exact h.cleanup hGuarded hGet hPoint
  | addAdapter _ =>
    refine h.of_same hGuarded rfl rfl rfl rfl fun id r hGet hNot => ?_
    have hOld := hOldAttached id r hGet hNot
    exact ⟨fun a ha => mem_append_left _ (hOld.pending a ha),
      fun a ha => mem_append_left _ (hOld.lookups a ha), hOld.locks⟩
  | drainAdapter _ => exact h.of_same hGuarded rfl rfl rfl rfl hOldAttached
  | @detachAdapter adapter _ hUnused =>
    refine h.of_same hGuarded rfl rfl rfl rfl fun id r hGet hNot => ?_
    have hOld := hOldAttached id r hGet hNot
    -- an open request that refers to the adapter keeps it attached
    have hFree : r.uses adapter = false := by
      have hNone := List.any_eq_false.mp hUnused r (mem_filter.mpr
        ⟨mem_values_iff.mpr ⟨id, hGet⟩, by simp [hNot]⟩)
      simpa using hNone
    simp only [InFlightPrefetchRequest.uses, Bool.or_eq_false_iff, decide_eq_false_iff_not] at hFree
    refine ⟨fun a ha => mem_filter.mpr ⟨hOld.pending a ha, decide_eq_true ?_⟩,
      fun a ha => mem_filter.mpr ⟨hOld.lookups a ha, decide_eq_true ?_⟩, hOld.locks⟩
    · rintro rfl
      exact hFree.1.1.1 ha
    · rintro rfl
      rw [hFree.2] at ha
      cases ha
  | storePop _ _ => exact h.of_same hGuarded rfl rfl rfl rfl hOldAttached

end Events

section CallSteps

variable {s t : PrefetchSystem K} {a : Actor} {op : L1Op K}

theorem held_store_of_ne (h : s.Settled) (hNe : a ≠ .store) (k : K) :
    (s.l1Call a op).ledger.held .store k = (s.l1Call a op).storeLocks.count k :=
  (s.ledger.held_act_ne hNe op k).trans (h.store k)

theorem Settled.otherCall (h : s.Settled) (hCall : s.CalmCall a op) (hDone : ∀ id, a = .request id →
      ∃ r, s.controller.requests.get? id = some r ∧ r.point.isDone = true)
    (store : StoreController K)
    (hGuarded : ({ s.l1Call a op with store := store } : PrefetchSystem K).Guarded)
    (hStore : ∀ k, (s.l1Call a op).ledger.held .store k =
      ({ s.l1Call a op with store := store } : PrefetchSystem K).storeLocks.count k) :
    ({ s.l1Call a op with store := store } : PrefetchSystem K).Settled ∧
      Carries s { s.l1Call a op with store := store } := by
  have hOpen : ∀ id r, s.controller.requests.get? id = some r → r.point.isDone = false →
      ({ s.l1Call a op with store := store } : PrefetchSystem K).Conserved id r := by
    intro id r hGet hNot
    refine (h.conserved_frame hGet hNot hCall ?_).congr rfl rfl
      (h.conserved id r hGet hNot).attached
    intro hEq
    obtain ⟨r', hGet', hTrue⟩ := hDone id hEq
    obtain rfl := some.inj (hGet.symm.trans hGet')
    rw [hNot] at hTrue
    cases hTrue
  refine ⟨⟨hGuarded, h.ledger.act hCall.orderly, ?_, hStore, h.call_rewritten a op, hOpen⟩,
    fun id r r' hGet hNot hGet' => ?_⟩
  · refine h.call_fresh hCall fun id hEq => ?_
    obtain ⟨r, hGet, -⟩ := hDone id hEq
    exact ⟨r, hGet⟩
  · obtain rfl := some.inj (hGet.symm.trans hGet')
    exact ⟨hOpen id r hGet hNot, fun p hp => Or.inl hp⟩

theorem Settled.ownCall (h : s.Settled) {id : Nat} {r : InFlightPrefetchRequest K}
    (hGet : s.controller.requests.get? id = some r) (hOpen : r.point.isDone = false)
    {outcome : AllocOutcome} (hNext : r.nextCall cfg outcome = some op)
    (hCall : s.CalmCall (.request id) op) (hGuarded : ((s.l1Call (.request id) op).setRequest id
      (r.resume cfg s.controller.routing (s.ledger.manager.apply op).reply)).Guarded) :
    ((s.l1Call (.request id) op).setRequest id
      (r.resume cfg s.controller.routing (s.ledger.manager.apply op).reply)).Settled ∧
    Carries s ((s.l1Call (.request id) op).setRequest id
      (r.resume cfg s.controller.routing (s.ledger.manager.apply op).reply)) := by
  have hNew := h.conserved_call hGet hOpen hNext hCall
  have hOther : ∀ id' r', id ≠ id' → s.controller.requests.get? id' = some r' →
      r'.point.isDone = false → (s.l1Call (.request id) op).Conserved id' r' :=
    fun id' r' hNe hGet' hNot => h.conserved_frame hGet' hNot hCall fun hEq =>
      hNe (Actor.request.inj hEq)
  refine ⟨⟨hGuarded, h.ledger.act hCall.orderly, ?_,
    fun k => held_store_of_ne h (fun hEq => by cases hEq) k, h.call_rewritten (.request id) op, ?_⟩,
    fun id' r₁ r' hGet₁ hNot hGet' => ?_⟩
  · intro id' hNone k
    change (s.controller.requests.set id _).get? id' = none at hNone
    rw [get?_set] at hNone
    split at hNone
    · cases hNone
    · exact h.call_fresh hCall (fun id hEq => ⟨r, Actor.request.inj hEq ▸ hGet⟩) id' hNone k
  · intro id' r' hGet' hNot
    change (s.controller.requests.set id _).get? id' = some r' at hGet'
    obtain ⟨rfl, rfl⟩ | ⟨hNe, hGet'⟩ := get?_set_cases hGet'
    · exact hNew.congr rfl rfl hNew.attached
    · have hOld := hOther id' r' hNe hGet' hNot
      exact hOld.congr rfl rfl hOld.attached
  · change (s.controller.requests.set id _).get? id' = some r' at hGet'
    obtain ⟨rfl, rfl⟩ | ⟨hNe, hGet'⟩ := get?_set_cases hGet'
    · obtain rfl := some.inj (hGet.symm.trans hGet₁)
      refine ⟨hNew.congr rfl rfl hNew.attached, fun p hp => ?_⟩
      exact (h.conserved id r hGet hOpen).attached.unlocks (resume_advances hNext _) hp
    · obtain rfl := some.inj (hGet₁.symm.trans hGet')
      have hOld := hOther id' r₁ hNe hGet₁ hNot
      exact ⟨hOld.congr rfl rfl hOld.attached, fun p hp => Or.inl hp⟩

theorem count_flatten_set {l : List (List K)} {i : Nat} {k : K} {keys : List K}
    (h : l[i]? = some (k :: keys)) (k' : K) :
    (l.set i keys).flatten.count k' = l.flatten.count k' - if k' = k then 1 else 0 := by
  induction l generalizing i with
  | nil => cases h
  | cons x l ih =>
    cases i with
    | zero =>
      obtain rfl := some.inj h
      simp only [set_cons_zero, flatten_cons, count_append, count_cons, beq_iff_eq]
      split <;> rename_i hEq
      · rw [if_pos hEq.symm]
        omega
      · rw [if_neg (Ne.symm hEq)]
        omega
    | succ i =>
      have hMem : (k :: keys) ∈ l := mem_of_getElem? h
      simp only [set_cons_succ, flatten_cons, count_append, ih h]
      split <;> rename_i hEq
      · have hPos : 0 < l.flatten.count k' := by
          rw [count_pos_iff, mem_flatten]
          exact ⟨k :: keys, hMem, by simp [hEq]⟩
        omega
      · omega

theorem count_afterReserve (c : StoreController K) (keys : List K) (rest : List (List K))
    (granted : Option (K × MemoryObj)) (k : K) :
    ((c.afterReserve keys rest granted).successful.map Prod.fst ++
        (c.afterReserve keys rest granted).inFlightTasks.flatten).count k =
      (c.successful.map Prod.fst ++ c.inFlightTasks.flatten).count k +
        (granted.toList.map Prod.fst).count k := by
  unfold StoreController.afterReserve
  dsimp only
  split
  · unfold StoreController.submitStore
    dsimp only
    split
    · simp only [map_append, count_append]
      omega
    · simp only [map_append, map_nil, nil_append, flatten_append, flatten_singleton, count_append]
      omega
  · simp only [map_append, count_append]
    omega

theorem heldAfter_storeReserve (s : PrefetchSystem K) (k k' : K) (held : Nat) :
    (s.ledger.event (.reserveRead [k] 1) k').heldAfter held =
      held + ((grantedObject (s.ledger.manager.apply (.reserveRead [k] 1)).reply k).toList.map
        Prod.fst).count k' := by
  by_cases hEq : k' = k
  · subst hEq
    simp only [Owned.event, L1Op.eventAt, grantedObject, L1Manager.apply, L1Outcome.map]
    rcases (s.ledger.manager.reserveRead [k'] 1).reply.get? k' with _ | ⟨error, _ | obj⟩
    · rfl
    · cases error <;> rfl
    · cases error <;> simp [KeyEvent.heldAfter, validateReadLocks, maxReadLockCount]
  · have hSilent : s.ledger.event (.reserveRead [k] 1) k' = .silent :=
      s.ledger.manager.eventAt_of_not_mem _ (by simpa [L1Op.keys] using hEq)
    rw [hSilent]
    have hNotMem : k' ∉ (grantedObject
        (s.ledger.manager.apply (.reserveRead [k] 1)).reply k).toList.map Prod.fst := by
      intro hMem
      obtain ⟨p, hp, rfl⟩ := List.mem_map.mp hMem
      refine hEq ?_
      have hSome := mem_toList.mp hp
      simp only [grantedObject] at hSome
      split at hSome
      · split at hSome
        · cases hSome
          rfl
        · cases hSome
      · cases hSome
    rw [count_eq_zero_of_not_mem hNotMem]
    rfl

variable {label : SystemLabel K}

theorem Settled.afterCall (h : s.Settled) (hCall : s.CalmCall a op)
    (hMoves : CallMoves cfg s label a op t) : t.Settled ∧ Carries s t := by
  have hGuarded := h.guarded.afterCall hCall.careful hMoves
  have hNotStore : ∀ id, Actor.store = .request id →
      ∃ r, s.controller.requests.get? id = some r ∧ r.point.isDone = true :=
    fun id hEq => by cases hEq
  cases hMoves with
  | request hGet hNext => exact h.ownCall hGet (open_of_nextCall hNext) hNext hCall hGuarded
  | @storeReserve k keys rest _ =>
    refine h.otherCall hCall hNotStore _ hGuarded fun k' => ?_
    have hCount := count_afterReserve (s.l1Call .store (.reserveRead [k] 1)).store keys rest
      (grantedObject (s.ledger.manager.apply (.reserveRead [k] 1)).reply k) k'
    refine (s.ledger.held_act_self .store (.reserveRead [k] 1) k').trans ?_
    rw [heldAfter_storeReserve, h.store k']
    exact hCount.symm
  | @storeFinish task k keys hTask =>
    refine h.otherCall hCall hNotStore _ hGuarded fun k' => ?_
    refine (s.ledger.held_act_self .store (.finishRead [k] 1) k').trans ?_
    show _ = (s.store.successful.map Prod.fst ++
      (s.store.inFlightTasks.set task keys).flatten).count k'
    rw [count_append, count_flatten_set hTask, h.store k', storeLocks, count_append]
    by_cases hEq : k' = k
    · subst hEq
      have hMem : k' ∈ s.store.inFlightTasks.flatten :=
        mem_flatten.mpr ⟨k' :: keys, mem_of_getElem? hTask, mem_cons_self⟩
      have hPos := count_pos_iff.mpr hMem
      rw [h.ledger.finishRead_event hCall.orderly (mem_singleton_self k'), if_pos rfl]
      show _ - 1 = _
      omega
    · have hSilent : s.ledger.event (.finishRead [k] 1) k' = .silent :=
        s.ledger.manager.eventAt_of_not_mem _ (by simpa [L1Op.keys] using hEq)
      rw [hSilent, if_neg hEq]
      rfl
  | client _ hOutside _ =>
    have hNe : a ≠ .store := by
      rintro rfl
      cases hOutside
    refine h.otherCall hCall (fun id hEq => ?_) (s.l1Call a op).store hGuarded
      fun k => held_store_of_ne h hNe k
    rw [hEq, isOutside] at hOutside
    exact (Option.any_eq_true _ _).mp hOutside

theorem Settled.step (h : s.Settled) (hAlone : s.Alone) (hCalm : Calm cfg s label)
    (hStep : Step cfg s label t) : t.Settled ∧ Carries s t := by
  rcases step_cases hStep with ⟨a, op, hMade, hMoves⟩ | hEvent
  · exact h.afterCall (h.calmCall hAlone hMade hCalm hMoves) hMoves
  · exact h.afterEvent hEvent

end CallSteps

variable {l2Adapters : List Nat}

theorem settled_init (writeTtl readTtl now : Nat) (hAdapters : l2Adapters.Nodup) :
    (init (L1Manager.new writeTtl readTtl now) l2Adapters : PrefetchSystem K).Settled where
  guarded := guarded_init writeTtl readTtl now hAdapters
  ledger := fun _ => ⟨rfl, rfl⟩
  fresh := fun _ _ _ => ⟨rfl, fun h => by cases h⟩
  store := fun _ => rfl
  rewritten_old := fun obj h => by cases h
  conserved := fun id r hGet => by cases hGet

theorem calm_run_settled (writeTtl readTtl now : Nat) (hAdapters : l2Adapters.Nodup)
    {labels : List (SystemLabel K)} {s : PrefetchSystem K}
    (hRun : Run (Run.Under (Calm cfg) (Step cfg))
      (init (L1Manager.new writeTtl readTtl now) l2Adapters) labels s)
    : s.Settled ∧ s.Alone :=
  hRun.invariant (I := fun s : PrefetchSystem K => s.Settled ∧ s.Alone)
    (fun _ _ _ h hStep => ⟨(h.1.step h.2 hStep.1 hStep.2).1, h.2.step hStep.2⟩)
    ⟨settled_init writeTtl readTtl now hAdapters, alone_init _ l2Adapters⟩

/-- In a calm run, a request that completes keeps exactly the locks it reports, no write lock
and no buffer that it did not load, and has given back every L2 lock exactly once. -/
theorem calm_run_conserves_locks (cfg : PrefetchConfig K) (writeTtl readTtl now : Nat)
    {l2Adapters : List Nat} (hAdapters : l2Adapters.Nodup) {labels : List (SystemLabel K)}
    {s t : PrefetchSystem K} {label : SystemLabel K}
    (hRun : Run (Run.Under (Calm cfg) (Step cfg))
      (init (L1Manager.new writeTtl readTtl now) l2Adapters) labels s)
    (hStep : Run.Under (Calm cfg) (Step cfg) s label t) {id : Nat}
    {r r' : InFlightPrefetchRequest K} {result : Option Bitmap}
    (hOpen : s.controller.requests.get? id = some r ∧ r.point.isDone = false)
    (hDone : t.controller.requests.get? id = some r' ∧ r'.point = .done result) :
    t.ledger.Ledger ∧
    (∀ retained, r'.spec.mode = .lookup → result = some retained → ∀ k,
      t.ledger.held (.request id) k =
        if k ∈ r'.keysAt retained then validateReadLocks r'.spec.numKvReaders else 0) ∧
    (r'.spec.mode = .warm ∨ result = none → ∀ k, t.ledger.held (.request id) k = 0) ∧
    (∀ k, t.ledger.writer k ≠ some (.request id)) ∧
    (∀ p ∈ r'.writeReserved, p.1 ∉ r'.loadedKeys → ∀ k, t.ledger.manager.heldBy k ≠ some p.2) ∧
    (∀ adapter i k, r'.spec.keys[i]? = some k →
      r'.submittedUnlocks.count (adapter, k) = if r'.acquiredL2 adapter i then 1 else 0) ∧
    ∀ p ∈ r'.submittedUnlocks, p ∈ r.submittedUnlocks ∨ p.1 ∈ s.controller.l2Adapters := by
  obtain ⟨hSettled, hAlone⟩ := calm_run_settled writeTtl readTtl now hAdapters hRun
  obtain ⟨hAfter, hCarries⟩ := hSettled.step hAlone hStep.1 hStep.2
  obtain ⟨hConserved, hUnlocks⟩ := hCarries id r r' hOpen.1 hOpen.2 hDone.1
  obtain ⟨hWf, hOk⟩ := hAfter.guarded.requests id r' hDone.1
  have hLeft : r'.callsLeft = some [] := by simp [InFlightPrefetchRequest.callsLeft, hDone.2]
  have hReads : t.ledger.held (.request id) = r'.finalLocks result := by
    have hExpect := hConserved.reads
    unfold InFlightPrefetchRequest.Expect at hExpect
    rw [hDone.2] at hExpect
    exact hExpect
  refine ⟨hAfter.ledger, fun retained hMode hResult k => ?_, fun hNothing k => ?_,
    fun k hWriter => ?_, fun p hp hNot k => ?_, ?_, hUnlocks⟩
  · simp only [hReads, hResult, InFlightPrefetchRequest.finalLocks, hMode,
      InFlightPrefetchRequest.locksOn, InFlightPrefetchRequest.locksPerKey]
  · rcases hNothing with hMode | hResult
    · simp only [hReads, InFlightPrefetchRequest.finalLocks, hMode]
    · rw [hReads, hResult]
      unfold InFlightPrefetchRequest.finalLocks
      cases r'.spec.mode <;> rfl
  · obtain ⟨c, hc, -⟩ := ((hConserved.writes.finishing [] hLeft).2 k).mp hWriter
    cases hc
  · have hFilled : p.1 ∉ r'.filledKeys := by
      rw [InFlightPrefetchRequest.filledKeys, hLeft]
      exact hNot
    cases (hOk.finishing [] hLeft).2 p hp with
    | pending before after call hCalls => simp at hCalls
    | window keys rest hCalls => cases hCalls
    | settled hGone => exact hGone ⟨hFilled, hConserved.kept p hp hFilled⟩ k
  · intro adapter i k hk
    have hReleased := hWf.point
    unfold InFlightPrefetchRequest.PointOk at hReleased
    rw [hDone.2] at hReleased
    have hBalance := hWf.l2.balance adapter i k hk
    rw [hReleased adapter i] at hBalance
    cases hAcquired : r'.acquiredL2 adapter i with
    | true | false =>
      rw [hAcquired] at hBalance
      exact hBalance

theorem failedLoad_conserves_locks :
    Run.Under (Calm pairConfig) (Step pairConfig) (runOf (failedLoad ++ [.call 0 .success]))
      (.call 0 .success) (runOf (failedLoad ++ [.call 0 .success, .call 0 .success])) ∧
    (runOf (failedLoad ++ [.call 0 .success, .call 0 .success])).ledger.held (.request 0) 7 = 1 ∧
    (runOf (failedLoad ++ [.call 0 .success, .call 0 .success])).ledger.held (.request 0) 8 =
      0 := by
  have hRun : Run (Run.Under (Calm pairConfig) (Step pairConfig))
      (init (L1Manager.new 600 300 0) [0]) (failedLoad ++ [.call 0 .success])
      (runOf (failedLoad ++ [.call 0 .success])) :=
    Run.under_of_exec (Calm pairConfig) (next pairConfig) rfl
  have hStep : Run.Under (Calm pairConfig) (Step pairConfig)
      (runOf (failedLoad ++ [.call 0 .success])) (.call 0 .success)
      (runOf (failedLoad ++ [.call 0 .success, .call 0 .success])) := ⟨by decide, rfl⟩
  have hOpen : ∃ r, (runOf (failedLoad ++ [.call 0 .success])).controller.requests.get? 0 =
      some r ∧ r.point.isDone = false := ⟨_, rfl, rfl⟩
  have hDone : ∃ r retained,
      (runOf (failedLoad ++ [.call 0 .success, .call 0 .success])).controller.requests.get? 0 =
        some r ∧ r.point = .done (some retained) ∧ r.spec = pairSpec ∧
        retained.gather pairSpec.keys = [7] := ⟨_, _, rfl, rfl, rfl, by decide⟩
  obtain ⟨r, hGet, hNot⟩ := hOpen
  obtain ⟨r', retained, hGet', hPoint, hSpec, hRetained⟩ := hDone
  obtain ⟨-, hHeld, -⟩ := calm_run_conserves_locks pairConfig 600 300 0 (by decide) hRun hStep
    ⟨hGet, hNot⟩ ⟨hGet', hPoint⟩
  have hLocks := hHeld retained (by rw [hSpec]; rfl) rfl
  simp only [InFlightPrefetchRequest.keysAt, hSpec, hRetained] at hLocks
  exact ⟨hStep, (hLocks 7).trans (by decide), (hLocks 8).trans (by decide)⟩

/-- One key that is in L1 already, for more readers than the manager locks for. -/
def crowdedSpec : PrefetchRequestSpec Nat where
  keys := [7]
  numKvReaders := 129
  policy := .sparse
  attn := ⟨[-1], 1, AttnWindowDesc.one_worker, AttnWindowDesc.full_valid,
    AttnWindowDesc.full_nonempty⟩
  mode := .lookup
  keys_nodup := by decide
  keys_fill := fun h => by cases h

def crowded : List (SystemLabel Nat) :=
  [.client (.client 0) (.reserveWrite [7] [false] .new .success),
    .client (.client 0) (.finishWrite [7]), .submit crowdedSpec, .start, .call 0 .success,
    .lookupDone 0 0 (Bitmap.zeros 1)]

set_option maxRecDepth 2000 in
theorem crowded_clamped :
    Run (Run.Under (Calm pairConfig) (Step pairConfig)) (init (L1Manager.new 600 300 0) [0])
      (crowded ++ [.call 0 .success]) (runOf (crowded ++ [.call 0 .success])) ∧
    (∃ r retained, (runOf (crowded ++ [.call 0 .success])).controller.requests.get? 0 = some r ∧
      r.point = .done (some retained) ∧ r.spec.mode = .lookup ∧ 7 ∈ r.keysAt retained ∧
      r.spec.numKvReaders = 129) ∧
    (runOf (crowded ++ [.call 0 .success])).ledger.held (.request 0) 7 = 128 ∧ 128 ≠ 129 :=
  ⟨Run.under_of_exec (Calm pairConfig) (next pairConfig) rfl,
    ⟨_, _, rfl, rfl, rfl, by decide, rfl⟩, by decide, by decide⟩

end PrefetchSystem

end LMCache
