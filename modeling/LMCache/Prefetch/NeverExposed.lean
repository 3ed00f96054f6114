import LMCache.Prefetch.Exposure

/-!
# No run exposes an unloaded buffer

The invariant over runs of the whole system: every request keeps its buffers as `BuffersOk`
says, and no object that `reserve_read` ever returned is a lost buffer. It is kept by every
careful step. The last run of this file reserves a read between the `finish_write` and the
`delete` that give up a buffer, and is shown the buffer.
-/

namespace LMCache

open Lib InFlightPrefetchRequest Dict List Option

namespace PrefetchSystem

variable {K : Type} [DecidableEq K] {cfg : PrefetchConfig K}

/-- The request that holds the write lock of the object under `k`. -/
def heldByRequest (s : PrefetchSystem K) (k : K) : Option Nat :=
  match s.ledger.manager.objects.get? k, s.ledger.writer k with
  | some _, some (.request id) => some id
  | _, _ => none

/-- Some request has finished the write of `k` and is about to delete it. -/
def awaitsDelete (s : PrefetchSystem K) (k : K) : Bool :=
  s.controller.requests.values.any fun r => r.callsLeft.any fun calls => inWindow calls k

/-- The write lock of the object under `k` is within its time to live. -/
def writeLive (s : PrefetchSystem K) (k : K) : Bool :=
  (s.ledger.manager.objects.get? k).all fun e => decide (e.writeLock.Live s.ledger.manager.nowMs)

def isOther (s : PrefetchSystem K) (a : Actor) : Bool := s.isOutside a || decide (a = .store)

/-- Nobody else reserves a read of a key that awaits its delete; no read is reserved of a key
that a request holds under an expired write lock, and no write is finished that another
request holds. -/
def Careful (cfg : PrefetchConfig K) (s : PrefetchSystem K) (label : SystemLabel K) : Prop :=
  ∀ call ∈ s.callOf cfg label, ∀ k ∈ call.2.keys,
    (call.2.reservesRead k = true → (s.isOther call.1 = true → s.awaitsDelete k = false) ∧
      ((s.heldByRequest k).isSome = true → s.writeLive k = true)) ∧
    (call.2.endsWrite k = true → ∀ id ∈ s.heldByRequest k, call.1 = .request id)

instance (s : PrefetchSystem K) (label : SystemLabel K) : Decidable (Careful cfg s label) :=
  inferInstanceAs (Decidable (∀ call ∈ s.callOf cfg label, _))

variable {s t : PrefetchSystem K} {label : SystemLabel K}

/-- What a step with a call does: a handler of a request resumes with the reply, the store
controller goes on, or somebody outside has acted. -/
inductive CallMoves (cfg : PrefetchConfig K) (s : PrefetchSystem K) :
    SystemLabel K → Actor → L1Op K → PrefetchSystem K → Prop
  | request {id : Nat} {outcome : AllocOutcome} {r : InFlightPrefetchRequest K} {op : L1Op K}
      (hGet : s.controller.requests.get? id = some r) (hNext : r.nextCall cfg outcome = some op) :
      CallMoves cfg s (.call id outcome) (.request id) op ((s.l1Call (.request id) op).setRequest
        id (r.resume cfg s.controller.routing (s.ledger.manager.apply op).reply))
  | storeReserve {k : K} {keys : List K} {rest : List (List K)}
      (hTargets : s.store.targets = (k :: keys) :: rest) :
      CallMoves cfg s .storeReserve .store (.reserveRead [k] 1)
        { s.l1Call .store (.reserveRead [k] 1) with
          store := (s.l1Call .store (.reserveRead [k] 1)).store.afterReserve keys rest
            (grantedObject (s.ledger.manager.apply (.reserveRead [k] 1)).reply k) }
  | storeFinish {task : Nat} {k : K} {keys : List K}
      (hTask : s.store.inFlightTasks[task]? = some (k :: keys)) :
      CallMoves cfg s (.storeFinish task) .store (.finishRead [k] 1)
        { s.l1Call .store (.finishRead [k] 1) with
          store := { (s.l1Call .store (.finishRead [k] 1)).store with
            inFlightTasks := s.store.inFlightTasks.set task keys } }
  | client {a : Actor} {op : L1Op K} (hKeys : op.keys.Nodup) (hOutside : s.isOutside a = true)
      (hWrites : s.finishesOwnWrites a op = true) :
      CallMoves cfg s (.client a op) a op (s.l1Call a op)

theorem moves_of_afterCall {a : Actor} {op : L1Op K} (hCall : s.callOf cfg label = some (a, op))
    (h : s.afterCall cfg a op label = some t) : CallMoves cfg s label a op t := by
  cases label with
  | call id outcome =>
    obtain ⟨r, hGet, hNext⟩ := bind_eq_some_iff.mp hCall
    obtain ⟨op', hOp, hEq⟩ := map_eq_some_iff.mp hNext
    cases hEq
    simp only [afterCall, hGet, map_some, Option.some.injEq] at h
    exact h ▸ .request hGet hOp
  | storeReserve =>
    simp only [callOf] at hCall
    split at hCall
    · rename_i k keys rest hTargets
      cases hCall
      simp only [afterCall, hTargets, Option.some.injEq] at h
      exact h ▸ .storeReserve hTargets
    · cases hCall
  | storeFinish task =>
    simp only [callOf] at hCall
    split at hCall
    · rename_i k keys hTask
      cases hCall
      simp only [afterCall, hTask, Option.some.injEq] at h
      exact h ▸ .storeFinish hTask
    · cases hCall
  | client actor op' =>
    cases hCall
    simp only [afterCall] at h
    split at h
    · rename_i hGuard
      cases h
      exact .client hGuard.1 hGuard.2.1 hGuard.2.2
    · cases h
  | _ => cases hCall

theorem step_cases (h : Step cfg s label t) :
    (∃ a op, s.callOf cfg label = some (a, op) ∧ CallMoves cfg s label a op t) ∨
      s.afterEvent cfg label = some t := by
  unfold Step next at h
  split at h
  · cases h
  · split at h
    · rename_i a op hCall
      exact Or.inl ⟨a, op, hCall, moves_of_afterCall hCall h⟩
    · exact Or.inr h

/-- At most one request is inside a handler. -/
def Alone (s : PrefetchSystem K) : Prop :=
  ∀ id r id' r', s.controller.requests.get? id = some r →
    s.controller.requests.get? id' = some r' →
    r.point.calling = true → r'.point.calling = true → id = id'

variable {id : Nat} {r : InFlightPrefetchRequest K}

omit [DecidableEq K] in
theorem alone_of_set (hRequests : t.controller.requests = s.controller.requests.set id r)
    (hIdle : ∀ id' r', id ≠ id' → s.controller.requests.get? id' = some r' →
      r'.point.calling = false)
    : t.Alone := by
  have hOnly : ∀ id' r', t.controller.requests.get? id' = some r' → r'.point.calling = true →
      id = id' := by
    intro id' r' hGet hCalling
    rw [hRequests] at hGet
    obtain ⟨hEq, -⟩ | ⟨hNe, hGet⟩ := get?_set_cases hGet
    · exact hEq
    · rw [hIdle id' r' hNe hGet] at hCalling
      cases hCalling
  intro id₁ r₁ id₂ r₂ hGet₁ hGet₂ hCalling₁ hCalling₂
  exact (hOnly id₁ r₁ hGet₁ hCalling₁).symm.trans (hOnly id₂ r₂ hGet₂ hCalling₂)

theorem idle_of_not_busy (h : s.controller.busy cfg = false)
    (hGet : s.controller.requests.get? id = some r) : r.point.calling = false := by
  rw [← r.running_eq cfg, ← Bool.not_eq_true]
  exact List.any_eq_false.mp h r (mem_values_iff.mpr ⟨id, hGet⟩)

inductive EventMoves (cfg : PrefetchConfig K) (s : PrefetchSystem K) :
    SystemLabel K → PrefetchSystem K → Prop
  | submit (spec : PrefetchRequestSpec K) : EventMoves cfg s (.submit spec) { s with
      controller := { s.controller with
        nextRequestId := s.controller.nextRequestId + 1
        pendingQueue := s.controller.pendingQueue ++ [(s.controller.nextRequestId, spec)] } }
  | start {id : Nat} {spec : PrefetchRequestSpec K} {queue : List (Nat × PrefetchRequestSpec K)}
      (hQueue : s.controller.pendingQueue = (id, spec) :: queue)
      (hRoom : s.controller.inFlight.length < cfg.maxInFlight) : EventMoves cfg s .start
        (({ s with controller := { s.controller with pendingQueue := queue } }).setRequest id
          (InFlightPrefetchRequest.start spec))
  | lookupDone {id adapter : Nat} {result : Bitmap} {r : InFlightPrefetchRequest K}
      (hGet : s.controller.requests.get? id = some r) (hPoint : r.point = .waitLookup)
      (hPending : adapter ∈ r.pendingLookupTasks) (hSize : result.size = r.numKeys) :
      EventMoves cfg s (.lookupDone id adapter result)
        (s.setRequest id (r.lookupDone cfg s.controller.routing adapter result))
  | loadDone {id adapter : Nat} {result : Bitmap} {r : InFlightPrefetchRequest K}
      (hGet : s.controller.requests.get? id = some r) (hPoint : r.point = .waitLoad)
      (hPending : adapter ∈ r.pendingLoadTasks) : EventMoves cfg s (.loadDone id adapter result)
        (s.setRequest id (r.loadDone adapter result))
  | cleanup {id : Nat} {r : InFlightPrefetchRequest K}
      (hGet : s.controller.requests.get? id = some r)
      (hPoint : r.point = .waitLookup ∨ r.point = .waitLoad) :
      EventMoves cfg s (.cleanup id) (s.setRequest id r.cleanup)
  | addAdapter {adapter : Nat} (hNew : adapter ∉ s.controller.l2Adapters) :
      EventMoves cfg s (.addAdapter adapter) { s with
        controller := { s.controller with l2Adapters := s.controller.l2Adapters ++ [adapter] } }
  | drainAdapter {adapter : Nat} (hOld : adapter ∈ s.controller.l2Adapters) :
      EventMoves cfg s (.drainAdapter adapter) { s with
        controller := { s.controller with draining := adapter :: s.controller.draining } }
  | detachAdapter {adapter : Nat} (hDraining : adapter ∈ s.controller.draining)
      (hUnused : s.controller.adapterInUse adapter = false) :
      EventMoves cfg s (.detachAdapter adapter) { s with
        controller := { s.controller with
          l2Adapters := s.controller.l2Adapters.filter (· ≠ adapter)
          draining := s.controller.draining.filter (· ≠ adapter) } }
  | storePop {targets : List (List K)} (hIdle : s.store.targets = [])
      (hTargets : ∀ keys ∈ targets, keys ≠ [] ∧ ∀ k ∈ keys, k ∈ s.store.pendingKeys) :
      EventMoves cfg s (.storePop targets)
        { s with store := { s.store with pendingKeys := [], targets := targets } }

theorem moves_of_afterEvent (h : s.afterEvent cfg label = some t) : EventMoves cfg s label t := by
  cases label with
  | submit spec =>
    cases h
    exact .submit spec
  | start =>
    simp only [afterEvent] at h
    split at h
    · rename_i hQueue
      split at h
      · rename_i hRoom
        cases h
        exact .start hQueue hRoom
      · cases h
    · cases h
  | lookupDone id adapter result =>
    obtain ⟨r, hGet, h⟩ := bind_eq_some_iff.mp h
    split at h
    · rename_i hPoint
      split at h
      · rename_i hGuard
        cases h
        exact .lookupDone hGet hPoint hGuard.1 hGuard.2
      · cases h
    · cases h
  | loadDone id adapter result =>
    obtain ⟨r, hGet, h⟩ := bind_eq_some_iff.mp h
    split at h
    · rename_i hPoint
      split at h
      · rename_i hPending
        cases h
        exact .loadDone hGet hPoint hPending
      · cases h
    · cases h
  | cleanup id =>
    obtain ⟨r, hGet, h⟩ := bind_eq_some_iff.mp h
    split at h
    · rename_i hPoint
      cases h
      exact .cleanup hGet (Or.inl hPoint)
    · rename_i hPoint
      cases h
      exact .cleanup hGet (Or.inr hPoint)
    · cases h
  | addAdapter adapter =>
    simp only [afterEvent] at h
    split at h
    · cases h
    · rename_i hNew
      cases h
      exact .addAdapter hNew
  | drainAdapter adapter =>
    simp only [afterEvent] at h
    split at h
    · rename_i hOld
      cases h
      exact .drainAdapter hOld
    · cases h
  | detachAdapter adapter =>
    simp only [afterEvent] at h
    split at h
    · rename_i hGuard
      cases h
      exact .detachAdapter hGuard.1 hGuard.2
    · cases h
  | storePop targets =>
    simp only [afterEvent] at h
    split at h
    · rename_i hGuard
      cases h
      exact .storePop hGuard.1 hGuard.2
    · cases h
  | _ => cases h

theorem afterEvent_requests (h : s.afterEvent cfg label = some t) :
    t.controller.requests = s.controller.requests ∨
      (needsIdle label = true ∧
        ∃ id r, t.controller.requests = s.controller.requests.set id r) := by
  cases moves_of_afterEvent h with
  | start _ _ | lookupDone _ _ _ _ | loadDone _ _ _ | cleanup _ _ => exact Or.inr ⟨rfl, _, _, rfl⟩
  | _ => exact Or.inl rfl

theorem Alone.step (h : s.Alone) (hStep : Step cfg s label t) : t.Alone := by
  have hIdle : needsIdle label = true → s.controller.busy cfg = false := by
    intro hNeeds
    unfold Step next at hStep
    split at hStep
    · cases hStep
    · rename_i hNot
      simpa [hNeeds] using hNot
  rcases step_cases hStep with ⟨a, op, -, hMoves⟩ | hEvent
  · cases hMoves with
    | @request id _ r _ hGet hNext =>
      have hOthers : ∀ id' r', id ≠ id' → s.controller.requests.get? id' = some r' →
          r'.point.calling = false := by
        intro id' r' hNe hGet'
        rw [← Bool.not_eq_true]
        exact fun hCalling => hNe (h id r id' r' hGet hGet' (calling_of_nextCall hNext) hCalling)
      exact alone_of_set rfl hOthers
    | _ => exact h
  · rcases afterEvent_requests hEvent with hSame | ⟨hNeeds, id, r, hSet⟩
    · unfold Alone
      rw [hSame]
      exact h
    · exact alone_of_set hSet fun id' r' _ hGet => idle_of_not_busy (hIdle hNeeds) hGet

structure Guarded (s : PrefetchSystem K) : Prop where
  accounted : s.ledger.manager.Accounted
  adapters_nodup : s.controller.l2Adapters.Nodup
  ids_lt : ∀ id r, s.controller.requests.get? id = some r → id < s.controller.nextRequestId
  queue_nodup : (s.controller.pendingQueue.map Prod.fst).Nodup
  queue_fresh : ∀ p ∈ s.controller.pendingQueue,
    p.1 < s.controller.nextRequestId ∧ s.controller.requests.get? p.1 = none
  requests : ∀ id r, s.controller.requests.get? id = some r → r.Wf ∧ s.BuffersOk id r
  grants : ∀ obj ∈ s.readGrants, obj < s.ledger.manager.memory.allocated ∧ ¬s.Lost obj
  submitted : ∀ objs ∈ s.store.submitted, ∀ obj ∈ objs, obj ∈ s.readGrants
  successful : ∀ p ∈ s.store.successful, p.2 ∈ s.readGrants

theorem BuffersOk.congr (h : s.BuffersOk id r) (hLedger : t.ledger = s.ledger)
    (hRewritten : t.rewritten = s.rewritten) : t.BuffersOk id r := by
  have hLost : ∀ k obj, t.LostBuffer r k obj = s.LostBuffer r k obj := by
    intro k obj
    rw [LostBuffer, LostBuffer, hRewritten]
  refine ⟨by rw [hLedger]; exact h.known, by rw [hLedger, hRewritten]; exact h.holding,
    fun calls hCalls => ?_⟩
  obtain ⟨hOk, hStates⟩ := h.finishing calls hCalls
  refine ⟨hOk, fun p hp => ?_⟩
  rw [hLedger, hLost]
  exact hStates p hp

variable {r' : InFlightPrefetchRequest K} {obj : Nat}

omit [DecidableEq K] in
/-- A lost buffer of the later state was lost before, unless it is newer than `bound`. -/
theorem lost_of_setRequest {bound : Nat}
    (hRequests : t.controller.requests = s.controller.requests.set id r')
    (hRewritten : ∀ obj, t.rewritten obj = false → s.rewritten obj = false)
    (hOwn : ∀ p ∈ r'.writeReserved, p.2 < bound → ∃ r, s.controller.requests.get? id = some r ∧
      p ∈ r.writeReserved ∧ (p.1 ∉ r'.filledKeys → p.1 ∉ r.filledKeys))
    (hBound : obj < bound) (h : t.Lost obj) : s.Lost obj := by
  obtain ⟨id', r'', k, hGet, hMem, hNot, hRew⟩ := h
  rw [hRequests] at hGet
  obtain ⟨-, rfl⟩ | ⟨-, hGet⟩ := get?_set_cases hGet
  · obtain ⟨r, hr, hOld, hFilled⟩ := hOwn (k, obj) hMem hBound
    exact ⟨id, r, k, hr, hOld, hFilled hNot, hRewritten obj hRew⟩
  · exact ⟨id', r'', k, hGet, hMem, hNot, hRewritten obj hRew⟩

omit [DecidableEq K] in
theorem filledKeys_of_none (h : r.callsLeft = none) :
    r.filledKeys = [] := by simp [InFlightPrefetchRequest.filledKeys, h]

theorem Guarded.setRequest (h : s.Guarded) (hGet : s.controller.requests.get? id = some r)
    (hNone : r.callsLeft = none) (hWf : r'.Wf) (hBuffers : s.BuffersOk id r')
    (hSame : r'.writeReserved = r.writeReserved) : (s.setRequest id r').Guarded where
  accounted := h.accounted
  adapters_nodup := h.adapters_nodup
  ids_lt := by
    intro id' r'' hGet'
    change (s.controller.requests.set id r').get? id' = some r'' at hGet'
    obtain ⟨rfl, -⟩ | ⟨-, hGet'⟩ := get?_set_cases hGet'
    · exact h.ids_lt id r hGet
    · exact h.ids_lt id' r'' hGet'
  queue_nodup := h.queue_nodup
  queue_fresh := by
    intro p hp
    obtain ⟨hLt, hFresh⟩ := h.queue_fresh p hp
    refine ⟨hLt, ?_⟩
    have hne : id ≠ p.1 := by
      rintro rfl
      rw [hGet] at hFresh
      cases hFresh
    exact (get?_set_ne _ hne _).trans hFresh
  requests := by
    intro id' r'' hGet'
    change (s.controller.requests.set id r').get? id' = some r'' at hGet'
    obtain ⟨rfl, rfl⟩ | ⟨-, hGet'⟩ := get?_set_cases hGet'
    · exact ⟨hWf, hBuffers.congr rfl rfl⟩
    · obtain ⟨hOther, hOk⟩ := h.requests id' r'' hGet'
      exact ⟨hOther, hOk.congr rfl rfl⟩
  grants := by
    intro obj hObj
    obtain ⟨hLt, hNot⟩ := h.grants obj hObj
    refine ⟨hLt, fun hLost => hNot ?_⟩
    refine lost_of_setRequest (t := s.setRequest id r') rfl (fun _ hRew => hRew)
      (fun p hp _ => ?_) hLt hLost
    refine ⟨r, hGet, hSame ▸ hp, fun _ => ?_⟩
    rw [filledKeys_of_none hNone]
    exact not_mem_nil
  submitted := h.submitted
  successful := h.successful

theorem Guarded.continues (h : s.Guarded) (hGet : s.controller.requests.get? id = some r)
    (hNone : r.callsLeft = none) (hWf : r'.Wf)
    (hContinues : InFlightPrefetchRequest.Continues r.writeReserved r') :
    (s.setRequest id r').Guarded := by
  obtain ⟨-, hOk⟩ := h.requests id r hGet
  exact h.setRequest hGet hNone hWf
    (buffersOk_of_continues hOk.known (hOk.holding hNone) hContinues) hContinues.writeReserved

theorem Guarded.start (h : s.Guarded) {spec : PrefetchRequestSpec K}
    {queue : List (Nat × PrefetchRequestSpec K)}
    (hQueue : s.controller.pendingQueue = (id, spec) :: queue) :
    (({ s with controller := { s.controller with pendingQueue := queue } }).setRequest id
      (InFlightPrefetchRequest.start spec)).Guarded := by
  have hNodup := h.queue_nodup
  rw [hQueue, map_cons, nodup_cons] at hNodup
  obtain ⟨hLt, -⟩ := h.queue_fresh (id, spec) (by simp [hQueue])
  refine ⟨h.accounted, h.adapters_nodup, ?_, hNodup.2, ?_, ?_, ?_, h.submitted, h.successful⟩
  · intro id' r hGet
    change (s.controller.requests.set id _).get? id' = some r at hGet
    obtain ⟨hEq, -⟩ | ⟨-, hGet⟩ := get?_set_cases hGet
    · exact hEq ▸ hLt
    · exact h.ids_lt id' r hGet
  · intro p hp
    obtain ⟨hLt', hFresh⟩ := h.queue_fresh p (by
      rw [hQueue]
      exact mem_cons_of_mem _ hp)
    refine ⟨hLt', ?_⟩
    have hne : id ≠ p.1 := by
      rintro rfl
      exact hNodup.1 (List.mem_map.mpr ⟨p, hp, rfl⟩)
    exact (get?_set_ne _ hne _).trans hFresh
  · intro id' r hGet
    change (s.controller.requests.set id _).get? id' = some r at hGet
    obtain ⟨-, rfl⟩ | ⟨-, hGet⟩ := get?_set_cases hGet
    · refine ⟨start_wf spec, ?_⟩
      exact buffersOk_of_continues (fun p hp => by cases hp) (fun p hp => by cases hp)
        (.goesOn rfl rfl)
    · obtain ⟨hOther, hOk⟩ := h.requests id' r hGet
      exact ⟨hOther, hOk.congr rfl rfl⟩
  · intro obj hObj
    obtain ⟨hOld, hNot⟩ := h.grants obj hObj
    refine ⟨hOld, fun hLost => hNot ?_⟩
    refine lost_of_setRequest (s := s) (t := ({ s with
      controller := { s.controller with pendingQueue := queue } }).setRequest id
      (InFlightPrefetchRequest.start spec)) rfl (fun _ hRew => hRew) ?_ hOld hLost
    intro p hp _
    cases hp

variable {l2Adapters : List Nat}

theorem Guarded.withAdapters (h : s.Guarded) (hNodup : l2Adapters.Nodup) (draining : List Nat) :
    ({ s with controller := { s.controller with
      l2Adapters := l2Adapters, draining := draining } } : PrefetchSystem K).Guarded :=
  ⟨h.accounted, hNodup, h.ids_lt, h.queue_nodup, h.queue_fresh,
    fun id r hGet => ⟨(h.requests id r hGet).1, (h.requests id r hGet).2.congr rfl rfl⟩,
    h.grants, h.submitted, h.successful⟩

theorem Guarded.submit (h : s.Guarded) (spec : PrefetchRequestSpec K) :
    ({ s with controller := { s.controller with
        nextRequestId := s.controller.nextRequestId + 1
        pendingQueue := s.controller.pendingQueue ++ [(s.controller.nextRequestId, spec)] } } :
      PrefetchSystem K).Guarded := by
  refine ⟨h.accounted, h.adapters_nodup, fun id r hGet => Nat.lt_succ_of_lt (h.ids_lt id r hGet),
    ?_, ?_, fun id r hGet => ?_, h.grants, h.submitted, h.successful⟩
  · rw [map_append, nodup_append]
    refine ⟨h.queue_nodup, by simp, ?_⟩
    intro id hId id' hId' hEq
    obtain ⟨p, hp, rfl⟩ := List.mem_map.mp hId
    obtain rfl : id' = s.controller.nextRequestId := by simpa using hId'
    exact absurd (h.queue_fresh p hp).1 (by rw [hEq]; exact Nat.lt_irrefl _)
  · intro p hp
    rcases mem_append.mp hp with hOld | hNew
    · obtain ⟨hLt, hFresh⟩ := h.queue_fresh p hOld
      exact ⟨Nat.lt_succ_of_lt hLt, hFresh⟩
    · obtain rfl := mem_singleton.mp hNew
      refine ⟨Nat.lt_succ_self _, ?_⟩
      refine eq_none_iff_forall_ne_some.mpr fun r hGet => ?_
      exact absurd (h.ids_lt _ r hGet) (Nat.lt_irrefl _)
  · obtain ⟨hWf, hOk⟩ := h.requests id r hGet
    exact ⟨hWf, hOk.congr rfl rfl⟩

theorem Guarded.cleanup (h : s.Guarded) (hGet : s.controller.requests.get? id = some r)
    (hPoint : r.point = .waitLookup ∨ r.point = .waitLoad) :
    (s.setRequest id r.cleanup).Guarded := by
  obtain ⟨hWf, hOk⟩ := h.requests id r hGet
  have hClean : r.callsLeft = none → r.reservedKeys.Nodup → (s.setRequest id r.cleanup).Guarded :=
    fun hNone hReserved => h.setRequest hGet hNone
      (cleanup_wf hWf.l2 hWf.l1_sized)
      (buffersOk_cleanup hOk hNone hReserved) rfl
  have hPointOk := hWf.point
  unfold InFlightPrefetchRequest.PointOk at hPointOk
  rcases hPoint with hPoint | hPoint
  · rw [hPoint] at hPointOk
    exact hClean (by simp [InFlightPrefetchRequest.callsLeft, hPoint])
      (by simp [hPointOk.reservedKeys])
  · simp only [hPoint] at hPointOk
    exact hClean (by simp [InFlightPrefetchRequest.callsLeft, hPoint]) hPointOk.2.1

theorem Guarded.afterEvent (h : s.Guarded) (hStep : s.afterEvent cfg label = some t) :
    t.Guarded := by
  cases moves_of_afterEvent hStep with
  | submit spec => exact h.submit spec
  | start hQueue _ => exact h.start hQueue
  | lookupDone hGet hPoint hPending hSize =>
    obtain ⟨hWf, -⟩ := h.requests _ _ hGet
    exact h.continues hGet (by simp [InFlightPrefetchRequest.callsLeft, hPoint])
      (lookupDone_wf hWf hPoint cfg hPending hSize)
      (lookupDone_continues hWf hPoint cfg _ hPending hSize)
  | @loadDone _ adapter result _ hGet hPoint _ =>
    obtain ⟨hWf, -⟩ := h.requests _ _ hGet
    exact h.continues hGet (by simp [InFlightPrefetchRequest.callsLeft, hPoint])
      (loadDone_wf hWf hPoint adapter result)
      (loadDone_continues hWf hPoint adapter result)
  | cleanup hGet hPoint => exact h.cleanup hGet hPoint
  | addAdapter hNew =>
    refine h.withAdapters ?_ s.controller.draining
    rw [nodup_append]
    refine ⟨h.adapters_nodup, by simp, ?_⟩
    intro a ha b hb hEq
    rw [hEq, mem_singleton.mp hb] at ha
    exact hNew ha
  | drainAdapter _ => exact h.withAdapters h.adapters_nodup _
  | detachAdapter _ _ => exact h.withAdapters (h.adapters_nodup.filter _) _
  | storePop _ _ =>
    exact ⟨h.accounted, h.adapters_nodup, h.ids_lt, h.queue_nodup, h.queue_fresh,
      fun id r hGet => ⟨(h.requests id r hGet).1, (h.requests id r hGet).2.congr rfl rfl⟩,
      h.grants, h.submitted, h.successful⟩

variable {k : K}

theorem heldByRequest_eq (h : HoldsBuffer s.ledger (.request id) k obj) :
    s.heldByRequest k = some id := by
  obtain ⟨hWriter, e, he, -⟩ := h
  simp [heldByRequest, hWriter, he]

variable {outcome : AllocOutcome} {op : L1Op K}

theorem Alone.deletes (h : s.Alone) {id' : Nat} (hGet : s.controller.requests.get? id = some r)
    (hNext : r.nextCall cfg outcome = some op) (hGet' : s.controller.requests.get? id' = some r')
    {calls : List (L1Op K)} (hCalls : r'.callsLeft = some calls)
    (hWindow : inWindow calls k = true) : ∃ keys force, op = .delete keys force := by
  obtain ⟨keys, force, rest, rfl⟩ : ∃ keys force rest, calls = .delete keys force :: rest := by
    unfold inWindow at hWindow
    split at hWindow
    · exact ⟨_, _, _, rfl⟩
    · cases hWindow
  obtain ⟨result, hPoint⟩ : ∃ result, r'.point = .finish (.delete keys force :: rest) result := by
    unfold InFlightPrefetchRequest.callsLeft at hCalls
    split at hCalls
    · rename_i calls result hAt
      cases hCalls
      exact ⟨result, hAt⟩
    · cases hCalls
    · cases hCalls
  have hCalling : r'.point.calling = true := by
    rw [hPoint]
    rfl
  obtain rfl := h id r id' r' hGet hGet' (calling_of_nextCall hNext) hCalling
  obtain rfl := some.inj (hGet.symm.trans hGet')
  simp only [InFlightPrefetchRequest.nextCall, hPoint, Option.some.injEq] at hNext
  exact ⟨keys, force, hNext.symm⟩

variable {a : Actor}

theorem handler_of_not_other (h : CallMoves cfg s label a op t) (hNot : ¬s.isOther a = true) :
    ∃ id r outcome, s.controller.requests.get? id = some r ∧ r.nextCall cfg outcome = some op := by
  cases h with
  | request hGet hNext => exact ⟨_, _, _, hGet, hNext⟩
  | storeReserve _ => simp [isOther] at hNot
  | storeFinish _ => simp [isOther] at hNot
  | client _ hOutside _ => simp [isOther, hOutside] at hNot

theorem carefulCall_of_careful (hAlone : s.Alone) (hCall : s.callOf cfg label = some (a, op))
    (hMoves : CallMoves cfg s label a op t) (h : Careful cfg s label)
    (hKeys : op.keys.Nodup) : s.CarefulCall a op where
  keys_nodup := hKeys
  live := by
    intro k id obj hHolds hReads e he
    obtain ⟨-, hLive⟩ := (h (a, op) hCall k (L1Op.mem_keys_of_reservesRead hReads)).1 hReads
    have hTrue := hLive (by rw [heldByRequest_eq hHolds]; rfl)
    rw [writeLive, he] at hTrue
    exact of_decide_eq_true hTrue
  ends := fun k id obj hHolds hEnds =>
    (h (a, op) hCall k (L1Op.mem_keys_of_endsWrite hEnds)).2 hEnds id (heldByRequest_eq hHolds)
  reads := by
    intro id r calls k hGet hCalls hWindow
    rw [← Bool.not_eq_true]
    intro hReads
    by_cases hIs : s.isOther a = true
    · have hFalse :=
        ((h (a, op) hCall k (L1Op.mem_keys_of_reservesRead hReads)).1 hReads).1 hIs
      rw [awaitsDelete, List.any_eq_false] at hFalse
      refine hFalse r (mem_values_iff.mpr ⟨id, hGet⟩) ?_
      rw [hCalls]
      exact hWindow
    · obtain ⟨id', r', outcome, hGet', hNext⟩ := handler_of_not_other hMoves hIs
      obtain ⟨keys, force, rfl⟩ := hAlone.deletes hGet' hNext hGet hCalls hWindow
      cases hReads

theorem nextCall_keys_nodup (hWf : r.Wf) (hOk : s.BuffersOk id r)
    (hNext : r.nextCall cfg outcome = some op) : op.keys.Nodup := by
  have hPoint := hWf.point
  unfold InFlightPrefetchRequest.PointOk at hPoint
  obtain ⟨-, rfl⟩ | ⟨evictable, -, rfl⟩ | ⟨stale, plan, hitLength, -, rfl⟩ |
    ⟨plan, hitLength, group, groups, hAt, rfl⟩ | ⟨calls, result, hAt⟩ :=
    nextCall_cases hNext
  · exact r.spec.keys_nodup
  · exact Bitmap.gather_nodup _ r.spec.keys_nodup
  · exact Bitmap.gather_nodup _ r.spec.keys_nodup
  · rw [hAt] at hPoint
    exact (nodup_append.mp (nodup_append.mp hPoint.2.2.1).2.1).1
  · obtain ⟨hCalls, -⟩ := hOk.finishing (op :: calls) (by
      simp [InFlightPrefetchRequest.callsLeft, hAt])
    exact hCalls op (by simp)

theorem Guarded.not_lost_of_granted (h : s.Guarded) (hCall : s.CarefulCall a op) {locks : Nat}
    (hEvent : s.ledger.event op k = .readReserved obj locks) :
    obj < s.ledger.manager.memory.allocated ∧ ¬s.Lost obj := by
  have hReads := L1Manager.reservesRead_of_event hEvent
  obtain ⟨e, he, hObj, hFree⟩ : ∃ e, s.ledger.manager.objects.get? k = some e ∧
      e.memoryObj = obj ∧ e.writeLock.isLocked s.ledger.manager.nowMs = false := by
    have hStep := L1Manager.apply_keyStep (m := s.ledger.manager) hCall.keys_nodup k
    rw [show op.eventAt (s.ledger.manager.apply op).reply k = _ from hEvent] at hStep
    generalize s.ledger.manager.objects.get? k = o at hStep ⊢
    generalize (s.ledger.manager.apply op).manager.objects.get? k = o' at hStep
    cases hStep with
    | readReserved e locks hFree => exact ⟨e, rfl, rfl, hFree⟩
  have hHeld := L1Manager.heldBy_eq_some_iff.mpr ⟨e, he, hObj⟩
  refine ⟨h.accounted.held_lt _ _ hHeld, ?_⟩
  rintro ⟨id, r, k', hGet, hMem, hLost⟩
  obtain ⟨-, hOk⟩ := h.requests id r hGet
  obtain rfl := (hOk.known (k', obj) hMem).home k hHeld
  -- a held buffer is under a live write lock, which refuses readers
  have hNotHeld : ¬HoldsBuffer s.ledger (.request id) k obj := by
    intro hHolds
    have hLive := hCall.live k id obj hHolds hReads e he
    obtain ⟨-, e', he', -, hReserved⟩ := hHolds
    obtain rfl := some.inj (he'.symm.trans he)
    rw [hLive.isLocked_eq_false_iff, hReserved.counter_eq] at hFree
    cases hFree
  cases hCalls : r.callsLeft with
  | none =>
    rcases hOk.holding hCalls (k, obj) hMem with hHolds | hGone
    · exact hNotHeld hHolds
    · exact hGone hLost.2 k hHeld
  | some calls =>
    cases (hOk.finishing calls hCalls).2 (k, obj) hMem with
    | pending before after call _ hHolds => exact hNotHeld hHolds
    | window keys rest hEq hk =>
      have hWindow : inWindow calls k = true := by
        rw [hEq]
        exact decide_eq_true hk
      rw [hCall.reads id r calls k hGet hCalls hWindow] at hReads
      cases hReads
    | settled hGone => exact hGone hLost k hHeld

theorem mem_readGrants_l1Call : obj ∈ (s.l1Call a op).readGrants ↔ obj ∈ s.readGrants ∨
      ∃ k ∈ op.keys, ∃ locks, s.ledger.event op k = .readReserved obj locks := by
  simp only [l1Call, mem_append, mem_filterMap]
  refine or_congr_right (exists_congr fun k => and_congr_right fun _ => ?_)
  cases hEvent : s.ledger.event op k <;> simp

theorem Guarded.grants_l1Call (h : s.Guarded) (hCall : s.CarefulCall a op)
    (hObj : obj ∈ (s.l1Call a op).readGrants) :
    obj < s.ledger.manager.memory.allocated ∧ ¬s.Lost obj := by
  rcases mem_readGrants_l1Call.mp hObj with hOld | ⟨k, -, locks, hEvent⟩
  · exact h.grants obj hOld
  · exact h.not_lost_of_granted hCall hEvent

theorem Guarded.otherCall (h : s.Guarded) (hCall : s.CarefulCall a op)
    (hDone : ∀ id r, s.controller.requests.get? id = some r → a = .request id →
      r.callsLeft = some [])
    (store : StoreController K)
    (hSubmitted : ∀ objs ∈ store.submitted, ∀ obj ∈ objs, obj ∈ (s.l1Call a op).readGrants)
    (hSuccessful : ∀ p ∈ store.successful, p.2 ∈ (s.l1Call a op).readGrants) :
    ({ s.l1Call a op with store := store } : PrefetchSystem K).Guarded where
  accounted := h.accounted.apply hCall.keys_nodup
  adapters_nodup := h.adapters_nodup
  ids_lt := h.ids_lt
  queue_nodup := h.queue_nodup
  queue_fresh := h.queue_fresh
  requests := by
    intro id r hGet
    obtain ⟨hWf, hOk⟩ := h.requests id r hGet
    refine ⟨hWf, (hOk.frame hGet hCall fun hNot hEq => ?_).congr rfl rfl⟩
    exact hNot (hDone id r hGet hEq)
  grants := by
    intro obj hObj
    obtain ⟨hLt, hNot⟩ := h.grants_l1Call hCall hObj
    refine ⟨Nat.lt_of_lt_of_le hLt (s.ledger.manager.apply_monotone op).2, ?_⟩
    rintro ⟨id, r, k, hGet, hMem, hFilled, hRewritten⟩
    exact hNot ⟨id, r, k, hGet, hMem, hFilled, (rewritten_l1Call (b := a) hRewritten).1⟩
  submitted := hSubmitted
  successful := hSuccessful

theorem Guarded.ownCall (h : s.Guarded) (hGet : s.controller.requests.get? id = some r)
    (hNext : r.nextCall cfg outcome = some op) (hCall : s.CarefulCall (.request id) op)
    (hRouting : s.controller.routing.Nodup) : ((s.l1Call (.request id) op).setRequest id
      (r.resume cfg s.controller.routing (s.ledger.manager.apply op).reply)).Guarded := by
  obtain ⟨hWf, hOk⟩ := h.requests id r hGet
  have hOwn : ∀ p ∈ (r.resume cfg s.controller.routing
      (s.ledger.manager.apply op).reply).writeReserved,
      p.2 < s.ledger.manager.memory.allocated → p ∈ r.writeReserved ∧
        (p.1 ∉ (r.resume cfg s.controller.routing
          (s.ledger.manager.apply op).reply).filledKeys → p.1 ∉ r.filledKeys) := by
    intro p hp hOld
    obtain ⟨calls, result, hAt⟩ | ⟨new, hContinues, hNone, -, hReserves, hNew⟩ :=
      resume_continues hWf s.ledger.manager s.controller.routing hNext
    · rw [resume_finish _ hAt] at hp ⊢
      refine ⟨hp, fun hNot => ?_⟩
      rw [InFlightPrefetchRequest.filledKeys, callsLeft_finishing rfl] at hNot
      have hLeft : r.callsLeft = some (op :: calls) := by
        simp [InFlightPrefetchRequest.callsLeft, hAt]
      rw [InFlightPrefetchRequest.filledKeys, hLeft]
      exact hNot
    · rw [hContinues.writeReserved] at hp
      refine ⟨(mem_append.mp hp).resolve_right fun hGranted => ?_, fun _ => ?_⟩
      · obtain ⟨group, isTemporary, rfl⟩ := hReserves (ne_nil_of_mem hGranted)
        obtain ⟨hFresh, -⟩ := L1Manager.reserveWrite_new_created hCall.keys_nodup
          ((hNew p.1 p.2).mp hGranted)
        exact absurd hOld (Nat.not_lt.mpr hFresh)
      · rw [filledKeys_of_none hNone]
        exact not_mem_nil
  have hOldGrants : ∀ obj ∈ s.readGrants, obj ∈ (s.l1Call (.request id) op).readGrants :=
    fun obj hObj => mem_readGrants_l1Call.mpr (Or.inl hObj)
  refine ⟨h.accounted.apply hCall.keys_nodup, h.adapters_nodup, ?_, h.queue_nodup, ?_, ?_, ?_,
    fun objs hObjs obj hObj => hOldGrants obj (h.submitted objs hObjs obj hObj),
    fun p hp => hOldGrants p.2 (h.successful p hp)⟩
  · intro id' r' hGet'
    change (s.controller.requests.set id _).get? id' = some r' at hGet'
    obtain ⟨hEq, -⟩ | ⟨-, hGet'⟩ := get?_set_cases hGet'
    · exact hEq ▸ h.ids_lt id r hGet
    · exact h.ids_lt id' r' hGet'
  · intro p hp
    obtain ⟨hLt, hFresh⟩ := h.queue_fresh p hp
    refine ⟨hLt, ?_⟩
    have hne : id ≠ p.1 := by
      rintro rfl
      rw [hGet] at hFresh
      cases hFresh
    exact (get?_set_ne _ hne _).trans hFresh
  · intro id' r' hGet'
    change (s.controller.requests.set id _).get? id' = some r' at hGet'
    obtain ⟨rfl, rfl⟩ | ⟨hNe, hGet'⟩ := get?_set_cases hGet'
    · exact ⟨resume_wf hWf hNext hRouting _, (hOk.call hWf h.accounted hNext hCall).congr rfl rfl⟩
    · obtain ⟨hWf', hOk'⟩ := h.requests id' r' hGet'
      refine ⟨hWf', (hOk'.frame hGet' hCall fun _ hEq => hNe ?_).congr rfl rfl⟩
      exact Actor.request.inj hEq
  · intro obj hObj
    obtain ⟨hLt, hNot⟩ := h.grants_l1Call hCall hObj
    refine ⟨Nat.lt_of_lt_of_le hLt (s.ledger.manager.apply_monotone op).2, fun hLost => hNot ?_⟩
    refine lost_of_setRequest (s := s) (t := (s.l1Call (.request id) op).setRequest id _) rfl
      (fun _ hRew => (rewritten_l1Call (b := .request id) hRew).1) (fun p hp hOld => ?_) hLt hLost
    obtain ⟨hMem, hFilled⟩ := hOwn p hp hOld
    exact ⟨r, hGet, hMem, hFilled⟩

omit [DecidableEq K] in
/-- The store controller keeps and submits only objects that `reserve_read` returned. -/
theorem store_afterReserve {granted : List Nat} {c : StoreController K} (keys : List K)
    (rest : List (List K)) {new : Option (K × MemoryObj)}
    (hSubmitted : ∀ objs ∈ c.submitted, ∀ obj ∈ objs, obj ∈ granted)
    (hSuccessful : ∀ p ∈ c.successful, p.2 ∈ granted) (hNew : ∀ p ∈ new, p.2 ∈ granted) :
    (∀ objs ∈ (c.afterReserve keys rest new).submitted, ∀ obj ∈ objs, obj ∈ granted) ∧
      ∀ p ∈ (c.afterReserve keys rest new).successful, p.2 ∈ granted := by
  have hAll : ∀ p ∈ c.successful ++ new.toList, p.2 ∈ granted := by
    intro p hp
    rcases mem_append.mp hp with hOld | hLast
    · exact hSuccessful p hOld
    · exact hNew p (by simpa using hLast)
  unfold StoreController.afterReserve
  dsimp only
  split
  · unfold StoreController.submitStore
    split
    · exact ⟨hSubmitted, hAll⟩
    · refine ⟨fun objs hObjs obj hObj => ?_, fun p hp => by cases hp⟩
      rcases mem_append.mp hObjs with hOld | hLast
      · exact hSubmitted objs hOld obj hObj
      · rw [mem_singleton.mp hLast] at hObj
        obtain ⟨p, hp, rfl⟩ := List.mem_map.mp hObj
        exact hAll p hp
  · exact ⟨hSubmitted, hAll⟩

theorem grantedObject_mem {p : K × MemoryObj}
    (h : p ∈ grantedObject (s.ledger.manager.apply (.reserveRead [k] 1)).reply k) :
    p.2 ∈ (s.l1Call .store (.reserveRead [k] 1)).readGrants := by
  refine mem_readGrants_l1Call.mpr (Or.inr ⟨k, mem_singleton.mpr rfl, ?_⟩)
  simp only [grantedObject, mem_def] at h
  split at h
  · rename_i ret hReply
    split at h
    · rename_i obj hGet
      cases h
      refine ⟨validateReadLocks 1, ?_⟩
      simp only [Owned.event, L1Op.eventAt, hReply, hGet]
    · cases h
  · cases h

theorem Guarded.call_nodup (h : s.Guarded) (hMoves : CallMoves cfg s label a op t) :
    op.keys.Nodup := by
  cases hMoves with
  | request hGet hNext =>
    obtain ⟨hWf, hOk⟩ := h.requests _ _ hGet
    exact nextCall_keys_nodup hWf hOk hNext
  | storeReserve _ => exact nodup_singleton _
  | storeFinish _ => exact nodup_singleton _
  | client hKeys _ _ => exact hKeys

theorem Guarded.afterCall (h : s.Guarded) (hCareful : s.CarefulCall a op)
    (hMoves : CallMoves cfg s label a op t) : t.Guarded := by
  have hOldSubmitted : ∀ objs ∈ s.store.submitted, ∀ obj ∈ objs,
      obj ∈ (s.l1Call a op).readGrants := fun objs hObjs obj hObj =>
    mem_readGrants_l1Call.mpr (Or.inl (h.submitted objs hObjs obj hObj))
  have hOldSuccessful : ∀ p ∈ s.store.successful, p.2 ∈ (s.l1Call a op).readGrants :=
    fun p hp => mem_readGrants_l1Call.mpr (Or.inl (h.successful p hp))
  have hNotStore : ∀ id r, s.controller.requests.get? id = some r → Actor.store = .request id →
      r.callsLeft = some [] := fun id r _ hEq => by cases hEq
  cases hMoves with
  | request hGet hNext => exact h.ownCall hGet hNext hCareful (h.adapters_nodup.filter _)
  | @storeReserve k keys rest _ =>
    obtain ⟨hSubmitted, hSuccessful⟩ := store_afterReserve
      (c := (s.l1Call .store (.reserveRead [k] 1)).store) keys rest hOldSubmitted hOldSuccessful
      (fun p hp => grantedObject_mem hp)
    exact h.otherCall hCareful hNotStore _ hSubmitted hSuccessful
  | storeFinish _ => exact h.otherCall hCareful hNotStore _ hOldSubmitted hOldSuccessful
  | client _ hOutside _ =>
    refine h.otherCall hCareful ?_ (s.l1Call a op).store hOldSubmitted hOldSuccessful
    intro id r hGet hEq
    rw [hEq, isOutside, hGet] at hOutside
    exact callsLeft_of_isDone hOutside

theorem Guarded.step (h : s.Guarded) (hAlone : s.Alone) (hCareful : Careful cfg s label)
    (hStep : Step cfg s label t) : t.Guarded := by
  rcases step_cases hStep with ⟨a, op, hCall, hMoves⟩ | hEvent
  · exact h.afterCall (carefulCall_of_careful hAlone hCall hMoves hCareful
      (h.call_nodup hMoves)) hMoves
  · exact h.afterEvent hEvent

theorem guarded_init (writeTtl readTtl now : Nat) (hAdapters : l2Adapters.Nodup) :
    (init (L1Manager.new writeTtl readTtl now) l2Adapters : PrefetchSystem K).Guarded where
  accounted := L1Manager.new_accounted writeTtl readTtl now
  adapters_nodup := hAdapters
  ids_lt := fun id r hGet => by cases hGet
  queue_nodup := nodup_nil
  queue_fresh := fun p hp => by cases hp
  requests := fun id r hGet => by cases hGet
  grants := fun obj hObj => by cases hObj
  submitted := fun objs hObjs => by cases hObjs
  successful := fun p hp => by cases hp

omit [DecidableEq K] in
theorem alone_init (m : L1Manager K) (l2Adapters : List Nat) : (init m l2Adapters).Alone :=
  fun id r _ _ hGet => by cases hGet

/-- No lost buffer was returned by `reserve_read` or submitted to a store task, and the keys
of finished requests do not hold their lost buffers. -/
structure NeverExposed (s : PrefetchSystem K) : Prop where
  not_granted : ∀ obj ∈ s.readGrants, ¬s.Lost obj
  not_submitted : ∀ objs ∈ s.store.submitted, ∀ obj ∈ objs, ¬s.Lost obj
  not_left : ∀ id r, s.controller.requests.get? id = some r → r.point.isDone = true →
    ∀ p ∈ r.writeReserved, s.LostBuffer r p.1 p.2 → ∀ e,
      s.ledger.manager.objects.get? p.1 = some e → e.memoryObj ≠ p.2

theorem Guarded.neverExposed (h : s.Guarded) : s.NeverExposed where
  not_granted := fun obj hObj => (h.grants obj hObj).2
  not_submitted := fun objs hObjs obj hObj => (h.grants obj (h.submitted objs hObjs obj hObj)).2
  not_left := by
    intro id r hGet hDone p hp hLost e he hObj
    have hLeft := callsLeft_of_isDone hDone
    obtain ⟨-, hOk⟩ := h.requests id r hGet
    cases (hOk.finishing [] hLeft).2 p hp with
    | pending before after call hCalls => simp at hCalls
    | window keys rest hCalls => cases hCalls
    | settled hGone => exact hGone hLost p.1 (L1Manager.heldBy_eq_some_iff.mpr ⟨e, he, hObj⟩)

/-- In a run of careful steps, no lost buffer is ever exposed. -/
theorem careful_run_never_exposes (cfg : PrefetchConfig K) (writeTtl readTtl now : Nat)
    {l2Adapters : List Nat} (hAdapters : l2Adapters.Nodup) {labels : List (SystemLabel K)}
    {s : PrefetchSystem K}
    (hRun : Run (Run.Under (Careful cfg) (Step cfg))
      (init (L1Manager.new writeTtl readTtl now) l2Adapters) labels s) : s.NeverExposed :=
  (hRun.invariant (I := fun s : PrefetchSystem K => s.Guarded ∧ s.Alone)
    (fun _ _ _ h hStep => ⟨h.1.step h.2 hStep.1 hStep.2, h.2.step hStep.2⟩)
    ⟨guarded_init writeTtl readTtl now hAdapters, alone_init _ l2Adapters⟩).1.neverExposed

/-- Two keys, of which an adapter claims to have both. -/
def pairSpec : PrefetchRequestSpec Nat where
  keys := [7, 8]
  numKvReaders := 1
  policy := .sparse
  attn := ⟨[-1], 1, AttnWindowDesc.one_worker, AttnWindowDesc.full_valid,
    AttnWindowDesc.full_nonempty⟩
  mode := .lookup
  keys_nodup := by decide
  keys_fill := fun h => by cases h

def pairConfig : PrefetchConfig Nat := ⟨1, fun _ => 0, fun keys => keys.map fun _ => true⟩

/-- Key 7 is loaded, key 8 is not, and the write of both is finished. -/
def failedLoad : List (SystemLabel Nat) :=
  [.submit pairSpec, .start, .call 0 .success, .lookupDone 0 0 (Bitmap.leading 2 2),
    .call 0 .success, .loadDone 0 0 (Bitmap.leading 2 1), .call 0 .success, .call 0 .success]

def runOf (labels : List (SystemLabel Nat)) : PrefetchSystem Nat :=
  (Run.exec (next pairConfig) (init (L1Manager.new 600 300 0) [0]) labels).getD
    (init (L1Manager.new 600 300 0) [0])

/-- The request deletes the buffer of key 8 before anybody looks. -/
def deletedFirst : List (SystemLabel Nat) :=
  failedLoad ++ [.call 0 .success, .call 0 .success, .client (.client 0) (.reserveRead [7, 8] 1)]

theorem deletedFirst_run : Run (Run.Under (Careful pairConfig) (Step pairConfig))
    (init (L1Manager.new 600 300 0) [0]) deletedFirst (runOf deletedFirst) :=
  Run.under_of_exec (Careful pairConfig) (next pairConfig) rfl

theorem deletedFirst_never_exposes :
    Run (Run.Under (Careful pairConfig) (Step pairConfig)) (init (L1Manager.new 600 300 0) [0])
      deletedFirst (runOf deletedFirst) ∧ (runOf deletedFirst).readGrants = [0] ∧
      (runOf deletedFirst).NeverExposed :=
  ⟨deletedFirst_run, by decide,
    careful_run_never_exposes pairConfig 600 300 0 (by decide) deletedFirst_run⟩

/-- The store controller wakes up between `finish_write` and `delete`. -/
def storedFirst : List (SystemLabel Nat) :=
  failedLoad ++ [.storePop [[8]], .storeReserve, .call 0 .success, .call 0 .success]

theorem storedFirst_exposes :
    Run (Step pairConfig) (init (L1Manager.new 600 300 0) [0]) storedFirst (runOf storedFirst) ∧
    (runOf storedFirst).Lost 1 ∧ 1 ∈ (runOf storedFirst).readGrants ∧
    [1] ∈ (runOf storedFirst).store.submitted ∧
    (∃ r, (runOf storedFirst).controller.requests.get? 0 = some r ∧ r.point.isDone = true ∧
      (8, 1) ∈ r.writeReserved ∧ (runOf storedFirst).LostBuffer r 8 1) ∧
    (runOf storedFirst).ledger.manager.heldBy 8 = some 1 ∧ ¬(runOf storedFirst).NeverExposed := by
  have hLost : (runOf storedFirst).Lost 1 :=
    ⟨0, _, 8, rfl, by decide, by decide, by decide⟩
  have hGranted : 1 ∈ (runOf storedFirst).readGrants := by decide
  exact ⟨Run.of_exec (next pairConfig) rfl, hLost, hGranted, by decide,
    ⟨_, rfl, by decide, by decide, by decide, by decide⟩, by decide,
    fun h => h.not_granted 1 hGranted hLost⟩

end PrefetchSystem

end LMCache
