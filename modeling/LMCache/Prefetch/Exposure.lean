import LMCache.Prefetch.Buffers
import LMCache.Prefetch.System

/-!
# Unloaded buffers stay hidden

A buffer of a request is lost while its key was not loaded and no other writer reserved it again.
A lost buffer that is still in L1 is write-locked until the request gives it up. Calls are careful
when no read reservation names a key between its `finish_write` and its `delete`, or one whose
write lock has expired, and no call finishes the write of another request.
-/

namespace LMCache

open Lib InFlightPrefetchRequest List

namespace InFlightPrefetchRequest

variable {K : Type} [DecidableEq K]

def callsLeft (r : InFlightPrefetchRequest K) : Option (List (L1Op K)) :=
  match r.point with
  | .finish calls _ => some calls
  | .done _ => some []
  | _ => none

omit [DecidableEq K] in
theorem callsLeft_finishing {r : InFlightPrefetchRequest K} {calls : List (L1Op K)}
    {result : Option Bitmap} (h : r.point = .finishing calls result) :
    r.callsLeft = some calls := by
  unfold callsLeft
  rw [h]
  cases calls <;> rfl

omit [DecidableEq K] in
theorem callsLeft_of_isDone {r : InFlightPrefetchRequest K} (h : r.point.isDone = true) :
    r.callsLeft = some [] := by
  unfold callsLeft
  cases hPoint : r.point with
  | done result => rfl
  | _ => simp [hPoint, ProgramPoint.isDone] at h

def filledKeys (r : InFlightPrefetchRequest K) : List K :=
  if r.callsLeft.isSome then r.loadedKeys else []

def CallsOk (calls : List (L1Op K)) : Prop := ∀ c ∈ calls, c.keys.Nodup

omit [DecidableEq K] in
theorem mem_callsFor {keys : List K} {calls : List (L1Op K)} {c : L1Op K}
    (h : c ∈ callsFor keys calls) : c ∈ calls := by
  unfold callsFor at h
  split at h
  · cases h
  · exact h

omit [DecidableEq K] in
theorem callsFor_of_mem {keys : List K} {k : K} (hk : k ∈ keys) (calls : List (L1Op K)) :
    callsFor keys calls = calls := by
  refine if_neg fun hEmpty => ?_
  rw [List.isEmpty_iff.mp hEmpty] at hk
  cases hk

theorem endsWrite_finishLoaded (r : InFlightPrefetchRequest K) (k : K) :
    r.finishLoaded.endsWrite k = decide (k ∈ r.loadedKeys) := by
  unfold finishLoaded
  split <;> rfl

section Finish

variable {r : InFlightPrefetchRequest K}

theorem mem_finishCalls {retained : Bitmap} {c : L1Op K} (h : c ∈ r.finishCalls retained) :
    c = r.finishLoaded ∨ c = .finishWrite r.failedKeys ∨ c = .delete r.failedKeys false ∨
      c = .finishRead (r.releasedKeys retained) r.spec.numKvReaders ∨
      c = .touchKeys (r.keysAt retained) := by
  rcases mem_append.mp h with hLoaded | h
  · exact Or.inl (mem_singleton.mp (mem_callsFor hLoaded))
  rcases mem_append.mp h with hFailed | h
  · rcases mem_cons.mp (mem_callsFor hFailed) with rfl | hDelete
    · exact Or.inr (Or.inl rfl)
    · exact Or.inr (Or.inr (Or.inl (mem_singleton.mp hDelete)))
  rcases mem_append.mp h with hReleased | hTouch
  · exact Or.inr (Or.inr (Or.inr (Or.inl (mem_singleton.mp (mem_callsFor hReleased)))))
  · exact Or.inr (Or.inr (Or.inr (Or.inr (mem_singleton.mp (mem_callsFor hTouch)))))

omit [DecidableEq K] in
theorem releasedKeys_nodup (retained : Bitmap) : (r.releasedKeys retained).Nodup := by
  unfold releasedKeys
  split <;> exact Bitmap.gather_nodup _ r.spec.keys_nodup

theorem finishCalls_ok (hReady : r.FinishReady) (retained : Bitmap) :
    CallsOk (r.finishCalls retained) := by
  have hFailed : r.failedKeys.Nodup := hReady.reserved_nodup.filter _
  intro c hc
  rcases mem_finishCalls hc with rfl | rfl | rfl | rfl | rfl
  · unfold finishLoaded
    split <;> exact Bitmap.gather_nodup _ r.spec.keys_nodup
  · exact hFailed
  · exact hFailed
  · exact releasedKeys_nodup retained
  · exact Bitmap.gather_nodup _ r.spec.keys_nodup

omit [DecidableEq K] in
theorem cleanupCalls_ok (hReserved : r.reservedKeys.Nodup) : CallsOk r.cleanupCalls := by
  intro c hc
  rcases mem_append.mp hc with hDiscard | hRead
  · rcases mem_cons.mp (mem_callsFor hDiscard) with rfl | hDelete
    · exact hReserved
    · rw [mem_singleton.mp hDelete]
      exact hReserved
  · rw [mem_singleton.mp (mem_callsFor hRead)]
    exact Bitmap.gather_nodup _ r.spec.keys_nodup

variable {A : Type} {s : Owned A K} {a : A} {lost : Prop} {k : K} {obj : Nat}

/-- At the start of `_finish_request` a call that ends the write of the buffer is in the
list: the hand-over of the loaded keys, or the clean-up of the others. -/
theorem finishCalls_pending (retained : Bitmap) (hHolds : HoldsBuffer s a k obj)
    (hk : k ∈ r.reservedKeys) (hLost : lost → k ∉ r.loadedKeys) :
    BufferState s a lost (r.finishCalls retained) k obj := by
  by_cases hLoaded : k ∈ r.loadedKeys
  · refine .pending [] (discardCalls r.failedKeys ++ r.releaseCalls retained) r.finishLoaded ?_
      hHolds ?_ (by simp) ?_
    · rw [finishCalls, callsFor_of_mem hLoaded]
      rfl
    · rw [endsWrite_finishLoaded]
      exact decide_eq_true hLoaded
    · exact fun h => absurd hLoaded (hLost h)
  · have hFailed : k ∈ r.failedKeys := mem_filter.mpr ⟨hk, decide_eq_true hLoaded⟩
    refine .pending (callsFor r.loadedKeys [r.finishLoaded])
      (.delete r.failedKeys false :: r.releaseCalls retained) (.finishWrite r.failedKeys) ?_ hHolds
      (decide_eq_true hFailed) ?_ (fun _ => ⟨r.failedKeys, _, rfl, rfl⟩)
    · rw [finishCalls, discardCalls, callsFor_of_mem hFailed]
      rfl
    · intro x hx
      rw [mem_singleton.mp (mem_callsFor hx), endsWrite_finishLoaded]
      exact decide_eq_false hLoaded

theorem cleanupCalls_pending (hHolds : HoldsBuffer s a k obj) (hk : k ∈ r.reservedKeys) :
    BufferState s a lost r.cleanupCalls k obj := by
  refine .pending [] (.delete r.reservedKeys false :: callsFor (r.keysAt r.l1Readlocks)
    [.finishRead (r.keysAt r.l1Readlocks) r.spec.numKvReaders]) (.finishWrite r.reservedKeys) ?_
    hHolds (decide_eq_true hk) (by simp) (fun _ => ⟨r.reservedKeys, _, rfl, rfl⟩)
  rw [cleanupCalls, discardCalls, callsFor_of_mem hk]
  rfl

end Finish

/-- A handler that makes no call leaves the buffers as they are: the request goes on, or it
starts to finish. -/
inductive Continues (buffers : List (K × MemoryObj)) : InFlightPrefetchRequest K → Prop
  | goesOn {r : InFlightPrefetchRequest K} (hNone : r.callsLeft = none)
      (hSame : r.writeReserved = buffers) : Continues buffers r
  | finishes {r : InFlightPrefetchRequest K} (hReady : r.FinishReady)
      (hSame : r.writeReserved = buffers) : Continues buffers r.finishRequest

theorem Continues.writeReserved {buffers : List (K × MemoryObj)} {r : InFlightPrefetchRequest K}
    (h : Continues buffers r) : r.writeReserved = buffers := by
  cases h with
  | goesOn _ hSame => exact hSame
  | finishes _ hSame => exact hSame

section Handlers

variable {r : InFlightPrefetchRequest K} {cfg : PrefetchConfig K} {routing : List Nat}

theorem startLookups_continues (hReady : r.FinishReady) (routing : List Nat) :
    Continues r.writeReserved (r.startLookups routing) := by
  unfold startLookups
  split
  · exact .finishes hReady rfl
  · exact .goesOn rfl rfl

theorem afterReserve_continues (hSize : r.l1Readlocks.size = r.numKeys)
    (hLoadPlan : r.loadPlan = Dict.empty) (hNodup : r.reservedKeys.Nodup) (plan : LoadPlan)
    (hitLength : Nat) : Continues r.writeReserved (r.afterReserve plan hitLength) := by
  unfold afterReserve
  split
  · exact .finishes (finishReady_of_empty hSize hLoadPlan hNodup) rfl
  · exact .goesOn rfl rfl

theorem startReserving_continues (hSize : r.l1Readlocks.size = r.numKeys)
    (hUnplanned : r.Unplanned) (cfg : PrefetchConfig K) (plan : LoadPlan) (hitLength : Nat) :
    Continues r.writeReserved (r.startReserving cfg plan hitLength) := by
  unfold startReserving
  split
  · exact afterReserve_continues hSize hUnplanned.loadPlan (by simp [hUnplanned.reservedKeys]) _ _
  · exact .goesOn rfl rfl

theorem afterLockL1_continues (hUnrouted : r.Unrouted) (reply : L1Reply K) :
    Continues r.writeReserved (r.afterLockL1 routing reply) := by
  have hSize := (keptLocks_spec r.spec.policy r.spec.attn (r.size_granted reply) r.spec.keys_fill).1
  have hNodup : r.reservedKeys.Nodup := by simp [hUnrouted.reservedKeys]
  unfold afterLockL1
  dsimp only
  split
  · exact startLookups_continues (r := { r with
      l1Readlocks := keptLocks (r.granted reply) r.numKeys r.spec.policy r.spec.attn })
      (finishReady_of_empty hSize hUnrouted.loadPlan hNodup) routing
  · exact .goesOn rfl rfl

theorem transitionToLoadPhase_continues (h : r.L2Balanced)
    (hSize : r.l1Readlocks.size = r.numKeys) (hUnplanned : r.Unplanned) (cfg : PrefetchConfig K)
    (routing : List Nat) : Continues r.writeReserved (r.transitionToLoadPhase cfg routing) := by
  have hLocksSize := (loadPhase_locks r.spec.policy r.spec.attn routing hSize
    h.lookups_sized r.spec.keys_fill).1
  unfold transitionToLoadPhase
  dsimp only
  split
  · exact .finishes (finishReady_of_empty hSize hUnplanned.loadPlan
      (by simp [hUnplanned.reservedKeys])) rfl
  · split
    · exact .goesOn rfl rfl
    · exact startReserving_continues (r := { r with
        l1Readlocks := (loadPhase r.l1Readlocks r.numKeys r.spec.policy r.spec.attn
          r.lookupResults routing).l1Readlocks }) hLocksSize
        ⟨hUnplanned.writeReserved, hUnplanned.loadPlan⟩ cfg _ _

theorem lookupDone_continues (h : r.Wf) (hPoint : r.point = .waitLookup)
    (cfg : PrefetchConfig K) (routing : List Nat) {adapter : Nat}
    (hAdapter : adapter ∈ r.pendingLookupTasks) {result : Bitmap}
    (hResult : result.size = r.numKeys) :
    Continues r.writeReserved (r.lookupDone cfg routing adapter result) := by
  have hOk := h.point
  unfold PointOk at hOk
  rw [hPoint] at hOk
  unfold lookupDone
  dsimp only
  split
  · exact transitionToLoadPhase_continues (r := { r with
      lookupResults := r.lookupResults.set adapter result
      l2Adapter2Readlocks := r.l2Adapter2Readlocks.set adapter result
      pendingLookupTasks := r.pendingLookupTasks.erase adapter })
      (lookupPolled_balanced h.l2 hAdapter hResult) h.l1_sized
      ⟨hOk.writeReserved, hOk.loadPlan⟩ cfg routing
  · exact .goesOn (by simp [callsLeft, hPoint]) rfl

theorem loadDone_continues (h : r.Wf) (hPoint : r.point = .waitLoad) (adapter : Nat)
    (result : Bitmap) : Continues r.writeReserved (r.loadDone adapter result) := by
  have hOk := h.point
  unfold PointOk at hOk
  simp only [hPoint] at hOk
  obtain ⟨hPlan, hNodup, hAll⟩ := hOk
  unfold loadDone
  dsimp only
  split
  · exact .finishes (r := { r with
      loadResults := r.loadResults.set adapter result
      pendingLoadTasks := r.pendingLoadTasks.erase adapter })
      (finishReady_of_waitLoad h.l1_sized ⟨hPlan.sized, hPlan.outside⟩ hNodup hAll) rfl
  · exact .goesOn (by simp [callsLeft, hPoint]) rfl

theorem mem_grantedBuffers_iff (m : L1Manager K) (group : List K) (isTemporary : List Bool)
    (outcome : AllocOutcome) (k : K) (obj : Nat) :
    (k, obj) ∈ grantedBuffers group (m.apply (.reserveWrite group isTemporary .new outcome)).reply ↔
      (L1Op.reserveWrite group isTemporary .new outcome).eventAt
        (m.apply (.reserveWrite group isTemporary .new outcome)).reply k = .writeReserved obj := by
  rw [L1Manager.eventAt_reserveWrite]
  constructor
  · intro h
    obtain ⟨k', -, hk⟩ := mem_filterMap.mp h
    split at hk
    · rename_i obj' hReply
      cases hk
      rw [hReply]
      rfl
    · cases hk
  · intro h
    have hReply : (m.reserveWrite group isTemporary .new outcome).reply.get? k =
        some (.success, some obj) := by
      unfold L1Manager.writeEvent at h
      split at h
      · rename_i obj' hGet
        cases h
        exact hGet
      · cases h
    refine mem_filterMap.mpr ⟨k, ?_, by rw [hReply]⟩
    by_contra hk
    rw [L1Manager.reserveWrite_of_not_mem isTemporary .new outcome hk] at hReply
    cases hReply

/-- A running handler either works off its last calls, or continues with the buffers it had
and the ones that its call was granted. -/
theorem resume_continues (h : r.Wf) (m : L1Manager K) (routing : List Nat) {outcome : AllocOutcome}
  {op : L1Op K} (hNext : r.nextCall cfg outcome = some op) :
    (∃ calls result, r.point = .finish (op :: calls) result) ∨
    ∃ new, Continues (r.writeReserved ++ new) (r.resume cfg routing (m.apply op).reply) ∧
      r.callsLeft = none ∧ (∀ k, op.endsWrite k = false) ∧
      (new ≠ [] → ∃ group isTemporary, op = .reserveWrite group isTemporary .new outcome) ∧
      ∀ k obj, (k, obj) ∈ new ↔ op.eventAt (m.apply op).reply k = .writeReserved obj := by
  have hOk := h.point
  unfold PointOk at hOk
  have hNoNew : (∀ keys isTemporary mode outcome,
      op ≠ .reserveWrite keys isTemporary mode outcome) →
      (([] : List (K × MemoryObj)) ≠ [] →
        ∃ group isTemporary, op = .reserveWrite group isTemporary .new outcome) ∧
      ∀ k obj, (k, obj) ∈ ([] : List (K × MemoryObj)) ↔
        op.eventAt (m.apply op).reply k = .writeReserved obj := by
    intro hOp
    refine ⟨fun hNe => absurd rfl hNe, fun k obj => ⟨(fun h => by cases h), fun hEvent => ?_⟩⟩
    have hReserves : (op.eventAt (m.apply op).reply k).reservesWrite = true := by
      rw [hEvent]
      rfl
    obtain ⟨keys, isTemporary, mode, outcome', -, -, hEq, -⟩ :=
      L1Op.eventAt_reservesWrite hReserves
    exact absurd hEq (hOp keys isTemporary mode outcome')
  obtain ⟨hAt, rfl⟩ | ⟨evictable, hAt, rfl⟩ | ⟨stale, plan, hitLength, hAt, rfl⟩ |
    ⟨plan, hitLength, group, groups, hAt, rfl⟩ | ⟨calls, result, hAt⟩ := nextCall_cases hNext
  · right
    rw [hAt] at hOk
    refine ⟨[], ?_, by simp [callsLeft, hAt], fun _ => rfl, hNoNew fun _ _ _ _ hEq => by cases hEq⟩
    rw [resume_lockL1 _ hAt, append_nil]
    exact afterLockL1_continues hOk _
  · right
    rw [hAt] at hOk
    refine ⟨[], ?_, by simp [callsLeft, hAt], fun _ => rfl, hNoNew fun _ _ _ _ hEq => by cases hEq⟩
    rw [resume_evict _ hAt, append_nil]
    exact startLookups_continues (finishReady_of_empty h.l1_sized hOk.loadPlan
      (by simp [hOk.reservedKeys])) routing
  · right
    rw [hAt] at hOk
    refine ⟨[], ?_, by simp [callsLeft, hAt], fun _ => rfl, hNoNew fun _ _ _ _ hEq => by cases hEq⟩
    rw [resume_releaseStale _ hAt, append_nil]
    exact startReserving_continues h.l1_sized hOk.1 cfg plan hitLength
  · right
    rw [hAt] at hOk
    refine ⟨grantedBuffers group (m.apply (.reserveWrite group (r.isTemporary cfg plan group) .new
      outcome)).reply, ?_, by simp [callsLeft, hAt], fun _ => rfl, fun _ => ⟨group, _, rfl⟩,
      mem_grantedBuffers_iff m group _ outcome⟩
    cases groups with
    | nil =>
      rw [resume_reserve_last _ hAt]
      refine afterReserve_continues (r := r.withBuffers group _) h.l1_sized hOk.1 ?_ plan hitLength
      refine hOk.2.2.1.sublist ?_
      rw [reservedKeys, withBuffers, map_append, flatten_cons, flatten_nil, append_nil]
      exact (List.Sublist.refl _).append (grantedBuffers_sublist group _)
    | cons g gs =>
      rw [resume_reserve _ hAt]
      exact .goesOn rfl rfl
  · exact Or.inl ⟨calls, result, hAt⟩

end Handlers

end InFlightPrefetchRequest

namespace PrefetchSystem

variable {K : Type} [DecidableEq K]

/-- The buffer `obj` of `r` under `k` was not loaded, and nobody rewrote it. -/
def LostBuffer (s : PrefetchSystem K) (r : InFlightPrefetchRequest K) (k : K) (obj : Nat) : Prop :=
  k ∉ r.filledKeys ∧ s.rewritten obj = false

def Lost (s : PrefetchSystem K) (obj : Nat) : Prop :=
  ∃ id r k, s.controller.requests.get? id = some r ∧ (k, obj) ∈ r.writeReserved ∧
    s.LostBuffer r k obj

structure BuffersOk (s : PrefetchSystem K) (id : Nat) (r : InFlightPrefetchRequest K) : Prop where
  known : ∀ p ∈ r.writeReserved, Known s.ledger.manager p.1 p.2
  holding : r.callsLeft = none → ∀ p ∈ r.writeReserved,
    HoldsBuffer s.ledger (.request id) p.1 p.2 ∨
      (s.rewritten p.2 = false → Gone s.ledger.manager p.2)
  finishing : ∀ calls, r.callsLeft = some calls → InFlightPrefetchRequest.CallsOk calls ∧
    ∀ p ∈ r.writeReserved, BufferState s.ledger (.request id) (s.LostBuffer r p.1 p.2) calls p.1 p.2

/-- What the protocol and the run condition say about one call of `b`. -/
structure CarefulCall (s : PrefetchSystem K) (b : Actor) (op : L1Op K) : Prop where
  keys_nodup : op.keys.Nodup
  /-- Reads are reserved under a write lock only while it is live, and are refused then. -/
  live : ∀ k id obj, HoldsBuffer s.ledger (.request id) k obj → op.reservesRead k = true →
    WriteLive s.ledger.manager k
  /-- Nobody finishes the write of a request but the request. -/
  ends : ∀ k id obj, HoldsBuffer s.ledger (.request id) k obj → op.endsWrite k = true →
    b = .request id
  /-- No reads are reserved between `finish_write` and `delete`. -/
  reads : ∀ id r calls k, s.controller.requests.get? id = some r → r.callsLeft = some calls →
    inWindow calls k = true → op.reservesRead k = false

variable {b : Actor} {op : L1Op K}

theorem rewritten_l1Call {s : PrefetchSystem K} {obj : Nat}
    (h : (s.l1Call b op).rewritten obj = false) : s.rewritten obj = false ∧
      ∀ k, ¬(s.ledger.event op k = .writeReserved obj ∧ s.ledger.manager.heldBy k = some obj) := by
  obtain ⟨hOld, hNew⟩ := Bool.or_eq_false_iff.mp h
  refine ⟨hOld, fun k hk => ?_⟩
  by_cases hMem : k ∈ op.keys
  · have hFalse := any_eq_false.mp hNew k hMem
    simp [hk.1, hk.2] at hFalse
  · have hSilent := s.ledger.manager.eventAt_of_not_mem op hMem
    cases hSilent.symm.trans hk.1

variable {id : Nat}

theorem CarefulCall.holds {s : PrefetchSystem K} {k : K} {obj : Nat} (h : s.CarefulCall b op)
    (hKnown : Known s.ledger.manager k obj)
    (hHolds : HoldsBuffer s.ledger (.request id) k obj ∨
      (s.rewritten obj = false → Gone s.ledger.manager obj))
    (hEnds : HoldsBuffer s.ledger (.request id) k obj → op.endsWrite k = false) :
    HoldsBuffer (s.l1Call b op).ledger (.request id) k obj ∨
      ((s.l1Call b op).rewritten obj = false → Gone (s.l1Call b op).ledger.manager obj) := by
  rcases hHolds with hHolds | hGone
  · rcases hHolds.frame (b := b) hKnown h.keys_nodup (h.live k id obj hHolds) (hEnds hHolds) with
      hStill | hGone | hTaken
    · exact Or.inl hStill
    · exact Or.inr fun _ => hGone
    · exact Or.inr fun hRewritten => absurd hTaken ((rewritten_l1Call hRewritten).2 k)
  · exact Or.inr fun hRewritten =>
      (hGone (rewritten_l1Call hRewritten).1).act h.keys_nodup hKnown.old

theorem BuffersOk.frame {s : PrefetchSystem K} {r : InFlightPrefetchRequest K}
    (h : s.BuffersOk id r) (hGet : s.controller.requests.get? id = some r)
    (hCall : s.CarefulCall b op) (hNe : r.callsLeft ≠ some [] → b ≠ .request id) :
    (s.l1Call b op).BuffersOk id r where
  known := fun p hp => (h.known p hp).apply hCall.keys_nodup
  holding := by
    intro hNone p hp
    refine hCall.holds (h.known p hp) (h.holding hNone p hp) fun hHolds => ?_
    rw [← Bool.not_eq_true]
    exact fun hEnds => hNe (by simp [hNone]) (hCall.ends p.1 id p.2 hHolds hEnds)
  finishing := by
    intro calls hCalls
    obtain ⟨hOk, hStates⟩ := h.finishing calls hCalls
    refine ⟨hOk, fun p hp => ?_⟩
    refine (hStates p hp).frame (h.known p hp) hCall.keys_nodup (hCall.live p.1 id p.2)
      (fun hHolds hCons => ?_) (hCall.reads id r calls p.1 hGet hCalls) ?_
    · rw [← Bool.not_eq_true]
      refine fun hEnds => hNe ?_ (hCall.ends p.1 id p.2 hHolds hEnds)
      rw [hCalls]
      simpa using hCons
    · rintro ⟨hNot, hRewritten⟩
      obtain ⟨hOld, hTaken⟩ := rewritten_l1Call hRewritten
      exact ⟨⟨hNot, hOld⟩, hTaken p.1⟩

theorem buffersOk_of_continues {s : PrefetchSystem K} {buffers : List (K × MemoryObj)}
    {r : InFlightPrefetchRequest K} (hKnown : ∀ p ∈ buffers, Known s.ledger.manager p.1 p.2)
    (hHolds : ∀ p ∈ buffers, HoldsBuffer s.ledger (.request id) p.1 p.2 ∨
      (s.rewritten p.2 = false → Gone s.ledger.manager p.2))
    (h : InFlightPrefetchRequest.Continues buffers r) : s.BuffersOk id r := by
  cases h with
  | goesOn hNone hSame =>
    subst hSame
    refine ⟨hKnown, fun _ => hHolds, fun calls hCalls => ?_⟩
    rw [hNone] at hCalls
    cases hCalls
  | @finishes r hReady hSame =>
    subst hSame
    have hLeft : r.finishRequest.callsLeft = some (r.finishCalls (buildTrimMask r.resultBitmap
        r.numKeys r.spec.policy r.spec.attn).2) :=
      callsLeft_finishing rfl
    refine ⟨hKnown, fun hNone => ?_, fun calls hCalls => ?_⟩
    · rw [hLeft] at hNone
      cases hNone
    · rw [hLeft] at hCalls
      cases hCalls
      refine ⟨finishCalls_ok hReady _, fun p hp => ?_⟩
      rcases hHolds p hp with hHeld | hGone
      · refine finishCalls_pending _ hHeld (mem_map_of_mem hp) ?_
        rintro ⟨hNot, -⟩ hLoaded
        refine hNot ?_
        rw [InFlightPrefetchRequest.filledKeys, hLeft]
        exact hLoaded
      · exact .settled fun hLost => hGone hLost.2

theorem BuffersOk.call {s : PrefetchSystem K} {r : InFlightPrefetchRequest K}
    (h : s.BuffersOk id r) (hWf : r.Wf) (hAccounted : s.ledger.manager.Accounted)
    {cfg : PrefetchConfig K} {routing : List Nat} {outcome : AllocOutcome}
    (hNext : r.nextCall cfg outcome = some op) (hCall : s.CarefulCall (.request id) op) :
    (s.l1Call (.request id) op).BuffersOk id
      (r.resume cfg routing (s.ledger.manager.apply op).reply) := by
  obtain ⟨calls, result, hAt⟩ | ⟨new, hContinues, hNone, hEnds, hReserves, hNew⟩ :=
    resume_continues hWf s.ledger.manager routing hNext
  · have hLeft : r.callsLeft = some (op :: calls) := by
      simp [InFlightPrefetchRequest.callsLeft, hAt]
    obtain ⟨hOk, hStates⟩ := h.finishing _ hLeft
    rw [resume_finish _ hAt]
    have hLeft' : ({ r with point := .finishing calls result } :
        InFlightPrefetchRequest K).callsLeft = some calls :=
      callsLeft_finishing rfl
    refine ⟨fun p hp => (h.known p hp).apply hCall.keys_nodup, fun hNone => ?_,
      fun calls' hCalls => ?_⟩
    · rw [hLeft'] at hNone
      cases hNone
    · rw [hLeft'] at hCalls
      cases hCalls
      refine ⟨fun c hc => hOk c (mem_cons_of_mem _ hc), fun p hp => ?_⟩
      refine (hStates p hp).next (h.known p hp) hCall.keys_nodup (hCall.live p.1 id p.2) ?_
      rintro ⟨hNot, hRewritten⟩
      obtain ⟨hOld, hTaken⟩ := rewritten_l1Call hRewritten
      refine ⟨⟨?_, hOld⟩, hTaken p.1⟩
      rw [InFlightPrefetchRequest.filledKeys, hLeft'] at hNot
      rw [InFlightPrefetchRequest.filledKeys, hLeft]
      exact hNot
  · have hAfter := hAccounted.apply hCall.keys_nodup
    refine buffersOk_of_continues (fun p hp => ?_) (fun p hp => ?_) hContinues
    · rcases mem_append.mp hp with hOld | hGranted
      · exact (h.known p hOld).apply hCall.keys_nodup
      · obtain ⟨group, isTemporary, rfl⟩ := hReserves (ne_nil_of_mem hGranted)
        have hEvent := (hNew p.1 p.2).mp hGranted
        obtain ⟨-, -, e, he, hObj, -⟩ :=
          L1Manager.reserveWrite_new_created hCall.keys_nodup hEvent
        have hHeld := L1Manager.heldBy_eq_some_iff.mpr ⟨e, he, hObj⟩
        exact ⟨hAfter.held_lt _ _ hHeld, fun k' hk' => hAfter.held_inj _ _ _ hk' hHeld⟩
    · rcases mem_append.mp hp with hOld | hGranted
      · exact hCall.holds (h.known p hOld) (h.holding hNone p hOld) fun _ => hEnds p.1
      · obtain ⟨group, isTemporary, rfl⟩ := hReserves (ne_nil_of_mem hGranted)
        have hEvent := (hNew p.1 p.2).mp hGranted
        obtain ⟨-, -, e, he, hObj, hReserved⟩ :=
          L1Manager.reserveWrite_new_created hCall.keys_nodup hEvent
        refine Or.inl ⟨?_, e, he, hObj, hReserved.mono (s.ledger.manager.apply_monotone _).1⟩
        show (s.ledger.event _ p.1).writerAfter _ _ = _
        rw [Owned.event, hEvent]
        rfl

theorem buffersOk_cleanup {s : PrefetchSystem K} {r : InFlightPrefetchRequest K}
    (h : s.BuffersOk id r) (hNone : r.callsLeft = none) (hReserved : r.reservedKeys.Nodup) :
    s.BuffersOk id r.cleanup := by
  have hLeft : r.cleanup.callsLeft = some r.cleanupCalls :=
    callsLeft_finishing rfl
  refine ⟨h.known, fun hNone' => ?_, fun calls hCalls => ?_⟩
  · rw [hLeft] at hNone'
    cases hNone'
  · rw [hLeft] at hCalls
    cases hCalls
    refine ⟨cleanupCalls_ok hReserved, fun p hp => ?_⟩
    rcases h.holding hNone p hp with hHeld | hGone
    · exact cleanupCalls_pending hHeld (mem_map_of_mem hp)
    · exact .settled fun hLost => hGone hLost.2

end PrefetchSystem

end LMCache
