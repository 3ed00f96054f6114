import LMCache.L1.Owners
import LMCache.Prefetch.RequestInvariant

/-!
# Read locks of a request

How many read locks a request holds on each key, as a function of its program point. While
a handler has calls left, the expectation says where these calls lead: to the read locks on
the retained keys in lookup mode, and to none in warm mode.

The results here are about one request and the replies to its own calls; that nobody else
changes its locks is a fact of the ledger.
-/

namespace LMCache

open Lib Bitmap List

variable {K : Type} [DecidableEq K]

/-- The calls, made in order and all successful, turn the holdings `h` into `target`. -/
def ReadsLead (target : K → Nat) : List (L1Op K) → (K → Nat) → Prop
  | [], h => h = target
  | .finishRead keys readLocks :: rest, h =>
    keys.Nodup ∧ (∀ k ∈ keys, validateReadLocks readLocks ≤ h k) ∧
      ReadsLead target rest fun k => h k - if k ∈ keys then validateReadLocks readLocks else 0
  | .finishWriteAndReserveRead keys readLocks :: rest, h =>
    keys.Nodup ∧
      ReadsLead target rest fun k => h k + if k ∈ keys then validateReadLocks readLocks else 0
  | .finishWrite keys :: rest, h => keys.Nodup ∧ ReadsLead target rest h
  | .delete keys force :: rest, h => keys.Nodup ∧ force = false ∧ ReadsLead target rest h
  | .touchKeys keys :: rest, h => keys.Nodup ∧ ReadsLead target rest h
  | _ :: _, _ => False

/-- The calls that finish something succeed on every key they name. -/
def L1Op.Succeeds (op : L1Op K) (reply : L1Reply K) : Prop :=
  match op with
  | .finishRead keys readLocks =>
    ∀ k ∈ keys, op.eventAt reply k = .readFinished (validateReadLocks readLocks)
  | .finishWriteAndReserveRead keys readLocks =>
    ∀ k ∈ keys, ∃ obj, op.eventAt reply k = .handedOver obj (validateReadLocks readLocks)
  | _ => True

section Lead

variable {target h : K → Nat} {keys : List K} {rest : List (L1Op K)}

open InFlightPrefetchRequest (callsFor)

variable {readLocks : Nat}

theorem readsLead_finishRead (hKeys : keys.Nodup)
    (hHeld : ∀ k ∈ keys, validateReadLocks readLocks ≤ h k)
    (hRest : ReadsLead target rest fun k =>
      h k - if k ∈ keys then validateReadLocks readLocks else 0)
    : ReadsLead target (callsFor keys [.finishRead keys readLocks] ++ rest) h := by
  unfold callsFor
  split
  · rename_i hEmpty
    simpa [List.isEmpty_iff.mp hEmpty] using hRest
  · exact ⟨hKeys, hHeld, hRest⟩

theorem readsLead_handOver (hKeys : keys.Nodup)
    (hRest : ReadsLead target rest fun k =>
      h k + if k ∈ keys then validateReadLocks readLocks else 0)
    : ReadsLead target (callsFor keys [.finishWriteAndReserveRead keys readLocks] ++ rest) h := by
  unfold callsFor
  split
  · rename_i hEmpty
    simpa [List.isEmpty_iff.mp hEmpty] using hRest
  · exact ⟨hKeys, hRest⟩

theorem readsLead_finishWrite (hKeys : keys.Nodup) (hRest : ReadsLead target rest h) :
    ReadsLead target (callsFor keys [.finishWrite keys] ++ rest) h := by
  unfold callsFor
  split
  · exact hRest
  · exact ⟨hKeys, hRest⟩

theorem readsLead_discard (hKeys : keys.Nodup) (hRest : ReadsLead target rest h) :
    ReadsLead target (InFlightPrefetchRequest.discardCalls keys ++ rest) h := by
  unfold InFlightPrefetchRequest.discardCalls callsFor
  split
  · exact hRest
  · exact ⟨hKeys, hKeys, rfl, hRest⟩

theorem readsLead_touch (hKeys : keys.Nodup) (hRest : h = target) :
    ReadsLead target (callsFor keys [.touchKeys keys]) h := by
  unfold callsFor
  split
  · exact hRest
  · exact ⟨hKeys, hRest⟩

theorem ReadsLead.after (m : L1Manager K) {op : L1Op K} (hLead : ReadsLead target (op :: rest) h)
    (hSucceeds : op.Succeeds (m.apply op).reply) :
    ReadsLead target rest fun k => (op.eventAt (m.apply op).reply k).heldAfter (h k) := by
  have hSilent := fun k (hk : k ∉ op.keys) => m.eventAt_of_not_mem op hk
  cases op with
  | finishRead keys readLocks =>
    obtain ⟨-, -, hRest⟩ := hLead
    convert hRest using 2 with k
    by_cases hk : k ∈ keys
    · rw [hSucceeds k hk, if_pos hk]
      rfl
    · rw [hSilent k hk, if_neg hk]
      rfl
  | finishWriteAndReserveRead keys readLocks =>
    obtain ⟨-, hRest⟩ := hLead
    convert hRest using 2 with k
    by_cases hk : k ∈ keys
    · obtain ⟨obj, hEvent⟩ := hSucceeds k hk
      rw [hEvent, if_pos hk]
      rfl
    · rw [hSilent k hk, if_neg hk]
      rfl
  | finishWrite keys =>
    convert hLead.2 using 2 with k
    simp only [L1Op.eventAt, L1Manager.apply, L1Outcome.map]
    split <;> rfl
  | delete keys force => exact hLead.2.2
  | touchKeys keys => exact hLead.2
  | reserveRead | unsafeRead | reserveWrite | clear | close | elapse => cases hLead

end Lead

namespace InFlightPrefetchRequest

section Expect

variable (r : InFlightPrefetchRequest K)

def locksPerKey : Nat := validateReadLocks r.spec.numKvReaders

/-- The locks on the keys at the set bits, and none elsewhere. -/
def locksOn (b : Bitmap) (k : K) : Nat := if k ∈ r.keysAt b then r.locksPerKey else 0

def finalLocks (result : Option Bitmap) : K → Nat :=
  match r.spec.mode, result with
  | .lookup, some retained => r.locksOn retained
  | _, _ => fun _ => 0

def Expect (h : K → Nat) : Prop :=
  match r.point with
  | .lockL1 => h = fun _ => 0
  | .evict released | .releaseStale released _ _ =>
    h = fun k => r.locksOn released k + r.locksOn r.l1Readlocks k
  | .waitLookup | .reserve _ _ _ | .waitLoad => h = r.locksOn r.l1Readlocks
  | .finish calls result => ReadsLead (r.finalLocks result) calls h
  | .done result => h = r.finalLocks result

end Expect

variable {r : InFlightPrefetchRequest K}

theorem expect_finishing {calls : List (L1Op K)} {result : Option Bitmap} {h : K → Nat}
    (hPoint : r.point = .finishing calls result)
    (hLead : ReadsLead (r.finalLocks result) calls h) : r.Expect h := by
  unfold Expect
  rw [hPoint]
  unfold ProgramPoint.finishing
  cases calls with
  | nil => exact hLead
  | cons call calls => exact hLead

variable {b : Bitmap}

theorem locksOn_of_test {i : Nat} {k : K} (hk : r.spec.keys[i]? = some k) :
    r.locksOn b k = if b.test i = true then r.locksPerKey else 0 := by
  simp only [locksOn, keysAt, getElem_mem_gather_iff r.spec.keys_nodup hk]

theorem locksOn_of_not_mem {k : K} (hk : k ∉ r.spec.keys) : r.locksOn b k = 0 := by
  refine if_neg fun hMem => hk ?_
  obtain ⟨i, -, hi⟩ := mem_gather.mp hMem
  exact mem_of_getElem? hi

theorem holdings_ext (r : InFlightPrefetchRequest K) {f g : K → Nat}
    (hOutside : ∀ k, k ∉ r.spec.keys → f k = g k)
    (hInside : ∀ (i : Nat) (k : K), r.spec.keys[i]? = some k → f k = g k) : f = g := by
  funext k
  by_cases hk : k ∈ r.spec.keys
  · obtain ⟨i, hi⟩ := mem_iff_getElem?.mp hk
    exact hInside i k hi
  · exact hOutside k hk

theorem locksOn_congr {b' : Bitmap} (h : ∀ i, b.test i = true ↔ b'.test i = true) :
    r.locksOn b = r.locksOn b' := by
  refine r.holdings_ext (fun k hk => ?_) fun i k hk => ?_
  · rw [locksOn_of_not_mem hk, locksOn_of_not_mem hk]
  · simp only [locksOn_of_test hk, h i]

theorem locksOn_union {a c : Bitmap}
    (hUnion : ∀ i, c.test i = true ↔ a.test i = true ∨ b.test i = true)
    (hDisjoint : ∀ i, a.test i = true → b.test i = false) :
    r.locksOn c = fun k => r.locksOn a k + r.locksOn b k := by
  refine r.holdings_ext (fun k hk => ?_) fun i k hk => ?_
  · simp only [locksOn_of_not_mem hk]
  · simp only [locksOn_of_test hk, hUnion i]
    cases ha : a.test i with
    | true => simp [hDisjoint i ha]
    | false => simp

section Finish

variable (hReady : r.FinishReady)

theorem failedKeys_nodup (hReserved : (r.reservedKeys).Nodup) : r.failedKeys.Nodup :=
  hReserved.filter _

omit [DecidableEq K] in
theorem keysAt_nodup (b : Bitmap) : (r.keysAt b).Nodup := gather_nodup b r.spec.keys_nodup

include hReady in
omit [DecidableEq K] in
theorem resultBitmap_spec : r.resultBitmap.size = r.numKeys ∧ ∀ i, r.resultBitmap.test i = true ↔
    (loadedBitmap r.numKeys r.loadPlan r.loadResults).test i = true ∨
      r.l1Readlocks.test i = true := by
  have hSize := (loadedBitmap_spec r.numKeys r.loadPlan r.loadResults).1
  have hEq := hSize.trans hReady.l1_sized.symm
  refine ⟨(size_or hEq).trans hReady.l1_sized, fun i => ?_⟩
  rw [resultBitmap, test_or hEq, Bool.or_eq_true]

include hReady in
theorem lookup_leads (hMode : r.spec.mode = .lookup) {retained : Bitmap}
    (hSize : retained.size = r.numKeys)
    (hRetained : ∀ i, retained.test i = true → r.resultBitmap.test i = true) :
    ReadsLead (r.locksOn retained) (r.finishCalls retained) (r.locksOn r.l1Readlocks) := by
  obtain ⟨-, hResult⟩ := resultBitmap_spec hReady
  have hLoaded : r.finishLoaded = .finishWriteAndReserveRead r.loadedKeys r.spec.numKvReaders := by
    simp [finishLoaded, hMode]
  have hReleased : r.releasedKeys retained = r.keysAt (r.resultBitmap.and retained.not) := by
    simp [releasedKeys, hMode]
  rw [finishCalls, releaseCalls, hLoaded, hReleased]
  refine readsLead_handOver (keysAt_nodup _) ?_
  refine readsLead_discard (failedKeys_nodup hReady.reserved_nodup) ?_
  -- by now the locks are on all of the result
  have hNow : (fun k => r.locksOn r.l1Readlocks k +
      if k ∈ r.loadedKeys then validateReadLocks r.spec.numKvReaders else 0) =
        r.locksOn r.resultBitmap := by
    rw [locksOn_union hResult hReady.loaded_outside]
    funext k
    exact Nat.add_comm _ _
  rw [hNow]
  have hOut : ∀ i, (r.resultBitmap.and retained.not).test i = true ↔
      r.resultBitmap.test i = true ∧ retained.test i = false := by
    intro i
    simp only [test_and, test_not, Bool.and_eq_true, decide_eq_true_eq, Bool.not_eq_true']
    refine ⟨fun h => ⟨h.1, h.2.2⟩, fun h => ⟨h.1, ?_, h.2⟩⟩
    rw [hSize, ← (resultBitmap_spec hReady).1]
    exact lt_size_of_test h.1
  refine readsLead_finishRead (keysAt_nodup _) ?_ (readsLead_touch (keysAt_nodup _) ?_)
  · intro k hk
    obtain ⟨i, hTest, hi⟩ := mem_gather.mp hk
    rw [locksOn_of_test hi, if_pos ((hOut i).mp hTest).1]
    exact Nat.le_refl _
  · refine r.holdings_ext (fun k hk => ?_) fun i k hk => ?_
    · simp only [locksOn_of_not_mem hk, Nat.zero_sub]
    · have hMem : k ∈ r.keysAt (r.resultBitmap.and retained.not) ↔
          r.resultBitmap.test i = true ∧ retained.test i = false :=
        (getElem_mem_gather_iff r.spec.keys_nodup hk).trans (hOut i)
      simp only [locksOn_of_test hk, hMem]
      cases hBit : retained.test i with
      | true => simp [hRetained i hBit]
      | false =>
        simp only [and_true, Bool.false_eq_true, if_false, locksPerKey]
        split <;> simp

include hReady in
theorem warm_leads (hMode : r.spec.mode = .warm) (retained : Bitmap) :
    ReadsLead (fun _ => 0) (r.finishCalls retained) (r.locksOn r.l1Readlocks) := by
  have hLoaded : r.finishLoaded = .finishWrite r.loadedKeys := by simp [finishLoaded, hMode]
  have hReleased : r.releasedKeys retained = r.keysAt r.l1Readlocks := by
    simp [releasedKeys, hMode]
  rw [finishCalls, releaseCalls, hLoaded, hReleased]
  refine readsLead_finishWrite (keysAt_nodup _) ?_
  refine readsLead_discard (failedKeys_nodup hReady.reserved_nodup) ?_
  refine readsLead_finishRead (keysAt_nodup _) ?_ (readsLead_touch (keysAt_nodup _) ?_)
  · intro k hk
    exact Nat.le_of_eq (if_pos hk).symm
  · funext k
    exact Nat.sub_self _

include hReady in
theorem expect_finishRequest : r.finishRequest.Expect (r.locksOn r.l1Readlocks) := by
  obtain ⟨hSize, -⟩ := resultBitmap_spec hReady
  refine expect_finishing rfl ?_
  cases hMode : r.spec.mode with
  | lookup =>
    have hFinal : r.finishRequest.finalLocks (some (buildTrimMask r.resultBitmap r.numKeys
        r.spec.policy r.spec.attn).2) = r.locksOn (buildTrimMask r.resultBitmap r.numKeys
        r.spec.policy r.spec.attn).2 := by
      unfold finalLocks
      rw [show r.finishRequest.spec.mode = .lookup from hMode]
      rfl
    rw [hFinal]
    exact lookup_leads hReady hMode (size_buildTrimMask hSize r.spec.keys_fill)
      fun i hTest => found_of_trimmed hTest
  | warm =>
    have hFinal : r.finishRequest.finalLocks (some (buildTrimMask r.resultBitmap r.numKeys
        r.spec.policy r.spec.attn).2) = fun _ => 0 := by
      unfold finalLocks
      rw [show r.finishRequest.spec.mode = .warm from hMode]
    rw [hFinal]
    exact warm_leads hReady hMode _

theorem expect_cleanup (hReserved : (r.reservedKeys).Nodup) :
    r.cleanup.Expect (r.locksOn r.l1Readlocks) := by
  refine expect_finishing rfl ?_
  have hFinal : r.cleanup.finalLocks none = fun _ => 0 := by
    unfold finalLocks
    split
    · rename_i hSome
      cases hSome
    · rfl
  rw [hFinal]
  refine readsLead_discard hReserved ?_
  rw [← append_nil (callsFor _ [.finishRead _ _])]
  refine readsLead_finishRead (keysAt_nodup _) ?_ ?_
  · intro k hk
    exact Nat.le_of_eq (if_pos hk).symm
  · funext k
    exact Nat.sub_self _

end Finish

section Handlers

variable {routing : List Nat} {cfg : PrefetchConfig K} {plan : LoadPlan}

theorem expect_startLookups (hReady : r.FinishReady) (routing : List Nat) :
    (r.startLookups routing).Expect (r.locksOn r.l1Readlocks) := by
  unfold startLookups
  split
  · exact expect_finishRequest hReady
  · rfl

theorem expect_afterReserve (hSize : r.l1Readlocks.size = r.numKeys)
    (hLoadPlan : r.loadPlan = Dict.empty) (hNodup : (r.reservedKeys).Nodup)
    (plan : LoadPlan) (hitLength : Nat) :
    (r.afterReserve plan hitLength).Expect (r.locksOn r.l1Readlocks) := by
  unfold afterReserve
  split
  · exact expect_finishRequest (finishReady_of_empty hSize hLoadPlan hNodup)
  · rfl

theorem expect_startReserving (hSize : r.l1Readlocks.size = r.numKeys) (hUnplanned : r.Unplanned)
    (cfg : PrefetchConfig K) (plan : LoadPlan) (hitLength : Nat) :
    (r.startReserving cfg plan hitLength).Expect (r.locksOn r.l1Readlocks) := by
  unfold startReserving
  split
  · exact expect_afterReserve hSize hUnplanned.loadPlan (by simp [hUnplanned.reservedKeys]) _ _
  · rfl

theorem expect_afterLockL1 (hUnrouted : r.Unrouted) (reply : L1Reply K) :
    (r.afterLockL1 routing reply).Expect (r.locksOn (r.granted reply)) := by
  obtain ⟨hSize, hKept⟩ := keptLocks_spec r.spec.policy r.spec.attn (r.size_granted reply)
    r.spec.keys_fill
  unfold afterLockL1
  dsimp only
  split
  · rename_i hNone
    have hSame : r.locksOn (r.granted reply) =
        r.locksOn (keptLocks (r.granted reply) r.numKeys r.spec.policy r.spec.attn) := by
      refine locksOn_congr fun i => ?_
      rw [hKept i]
      refine ⟨fun hTest => ⟨hTest, ?_⟩, And.left⟩
      rintro ⟨hPolicy, hEvict⟩
      rcases hNone with hOther | hZero
      · exact hOther hPolicy
      · rw [popcount_eq_zero_iff.mp hZero i] at hEvict
        cases hEvict
    rw [hSame]
    have hReserved : (r.reservedKeys).Nodup := by simp [hUnrouted.reservedKeys]
    exact expect_startLookups (r := { r with
      l1Readlocks := keptLocks (r.granted reply) r.numKeys r.spec.policy r.spec.attn })
      (finishReady_of_empty hSize hUnrouted.loadPlan hReserved) routing
  · rename_i hEvict
    rw [not_or, ne_eq, not_not] at hEvict
    refine locksOn_union (fun i => ?_) fun i hTest => ?_
    · rw [hKept i]
      constructor
      · intro hTest
        by_cases hOut : (evictableLocks (r.granted reply) r.numKeys r.spec.attn).test i = true
        · exact Or.inl hOut
        · exact Or.inr ⟨hTest, fun hBoth => hOut hBoth.2⟩
      · rintro (hOut | hIn)
        · simp only [evictableLocks, test_and, Bool.and_eq_true] at hOut
          exact hOut.1.1
        · exact hIn.1
    · rw [← Bool.not_eq_true]
      intro hLock
      exact ((hKept i).mp hLock).2 ⟨hEvict.1, hTest⟩

theorem expect_transitionToLoadPhase (h : r.L2Balanced) (hSize : r.l1Readlocks.size = r.numKeys)
    (hUnplanned : r.Unplanned) :
    (r.transitionToLoadPhase cfg routing).Expect (r.locksOn r.l1Readlocks) := by
  obtain ⟨hLocksSize, hLocks, hStale⟩ := loadPhase_locks r.spec.policy r.spec.attn routing hSize
    h.lookups_sized r.spec.keys_fill
  have hReserved : (r.reservedKeys).Nodup := by simp [hUnplanned.reservedKeys]
  unfold transitionToLoadPhase
  dsimp only
  split
  · exact expect_finishRequest (finishReady_of_empty hSize hUnplanned.loadPlan hReserved)
  · split
    · refine locksOn_union (fun i => ?_) fun i hTest => ?_
      · rw [hStale i, hLocks i]
        cases (loadPhase r.l1Readlocks r.numKeys r.spec.policy r.spec.attn r.lookupResults
          routing).retained.test i <;>
          cases (buildTrimMask r.l1Readlocks r.numKeys r.spec.policy r.spec.attn).2.test i <;> simp
      · obtain ⟨-, hNotRetained, hNotFallback⟩ := (hStale i).mp hTest
        rw [← Bool.not_eq_true]
        intro hLock
        rcases ((hLocks i).mp hLock).2 with hRetained | hFallback
        · rw [hNotRetained] at hRetained
          cases hRetained
        · rw [hNotFallback] at hFallback
          cases hFallback
    · rename_i hNone
      have hSame : r.locksOn r.l1Readlocks = r.locksOn (loadPhase r.l1Readlocks r.numKeys
          r.spec.policy r.spec.attn r.lookupResults routing).l1Readlocks := by
        refine locksOn_congr fun i => ?_
        rw [hLocks i]
        exact ⟨fun hLock => ⟨hLock, kept_of_none_stale hNone (hStale i) hLock⟩, And.left⟩
      rw [hSame]
      exact expect_startReserving (r := { r with
        l1Readlocks := (loadPhase r.l1Readlocks r.numKeys r.spec.policy r.spec.attn
          r.lookupResults routing).l1Readlocks }) hLocksSize
        ⟨hUnplanned.writeReserved, hUnplanned.loadPlan⟩ cfg _ _

theorem lookupDone_expect (h : r.Wf) (hPoint : r.point = .waitLookup) {adapter : Nat}
    (hAdapter : adapter ∈ r.pendingLookupTasks) {result : Bitmap}
    (hResult : result.size = r.numKeys) {held : K → Nat} (hExpect : r.Expect held) :
    (r.lookupDone cfg routing adapter result).Expect held := by
  have hOk := h.point
  unfold PointOk at hOk
  unfold Expect at hExpect
  rw [hPoint] at hOk hExpect
  subst hExpect
  unfold lookupDone
  dsimp only
  split
  · exact expect_transitionToLoadPhase (lookupPolled_balanced h.l2 hAdapter hResult) h.l1_sized
      ⟨hOk.writeReserved, hOk.loadPlan⟩
  · unfold Expect
    simp only [hPoint]
    rfl

theorem loadDone_expect (h : r.Wf) (hPoint : r.point = .waitLoad) (adapter : Nat)
    (result : Bitmap) {held : K → Nat} (hExpect : r.Expect held) :
    (r.loadDone adapter result).Expect held := by
  have hOk := h.point
  unfold PointOk at hOk
  unfold Expect at hExpect
  simp only [hPoint] at hOk hExpect
  obtain ⟨hPlan, hNodup, hAll⟩ := hOk
  subst hExpect
  unfold loadDone
  dsimp only
  split
  · exact expect_finishRequest (r := { r with
      loadResults := r.loadResults.set adapter result
      pendingLoadTasks := r.pendingLoadTasks.erase adapter })
      (finishReady_of_waitLoad h.l1_sized ⟨hPlan.sized, hPlan.outside⟩ hNodup hAll)
  · unfold Expect
    simp only [hPoint]
    rfl

/-- The replies of the lock pass grant exactly the locks that the request counts. -/
theorem heldAfter_lockL1 (r : InFlightPrefetchRequest K) (m : L1Manager K) :
    (fun k => ((L1Op.reserveRead r.spec.keys r.spec.numKvReaders).eventAt
        (m.apply (.reserveRead r.spec.keys r.spec.numKvReaders)).reply k).heldAfter 0) =
      r.locksOn (r.granted (m.apply (.reserveRead r.spec.keys r.spec.numKvReaders)).reply) := by
  refine r.holdings_ext (fun k hk => ?_) fun i k hk => ?_
  · rw [m.eventAt_of_not_mem (.reserveRead r.spec.keys r.spec.numKvReaders) hk,
      locksOn_of_not_mem hk]
    rfl
  · have hMem := mem_of_getElem? hk
    rw [locksOn_of_test hk]
    simp only [granted, L1Manager.apply, L1Outcome.map, test_presenceBitmap, hk, Option.some.injEq,
      exists_eq_left', L1Op.eventAt, L1Manager.reserveRead,
      Dict.get?_ofList_updateEach _ r.spec.keys_nodup, if_pos hMem, Option.any_some]
    cases m.objects.get? k with
    | none => rfl
    | some e =>
      cases hRead : e.availableForRead m.nowMs with
      | true => simp [L1Manager.reserveReadKey, hRead, KeyEvent.heldAfter, locksPerKey]
      | false => simp [L1Manager.reserveReadKey, hRead, KeyEvent.heldAfter]

theorem resume_expect (m : L1Manager K) (h : r.Wf) {outcome : AllocOutcome} {op : L1Op K}
    (hNext : r.nextCall cfg outcome = some op) {held : K → Nat} (hExpect : r.Expect held)
    (hSucceeds : op.Succeeds (m.apply op).reply) :
    (r.resume cfg routing (m.apply op).reply).Expect fun k =>
      (op.eventAt (m.apply op).reply k).heldAfter (held k) := by
  have hOk := h.point
  unfold PointOk at hOk
  unfold Expect at hExpect
  -- giving back the locks on `released` leaves the ones in `l1_readlocks`
  have hRelease : ∀ released : Bitmap,
      op = .finishRead (r.keysAt released) r.spec.numKvReaders →
      (held = fun k => r.locksOn released k + r.locksOn r.l1Readlocks k) →
      (fun k => (op.eventAt (m.apply op).reply k).heldAfter (held k)) =
        r.locksOn r.l1Readlocks := by
    rintro released rfl rfl
    funext k
    by_cases hk : k ∈ r.keysAt released
    · rw [hSucceeds k hk]
      simp only [KeyEvent.heldAfter, locksOn, if_pos hk]
      exact Nat.add_sub_cancel_left _ _
    · rw [m.eventAt_of_not_mem (.finishRead (r.keysAt released) r.spec.numKvReaders) hk]
      simp only [KeyEvent.heldAfter, locksOn, if_neg hk, Nat.zero_add]
  obtain ⟨hAt, rfl⟩ | ⟨evictable, hAt, hOp⟩ | ⟨stale, plan, hitLength, hAt, hOp⟩ |
    ⟨plan, hitLength, group, groups, hAt, rfl⟩ | ⟨calls, result, hAt⟩ := nextCall_cases hNext
  · rw [hAt] at hOk hExpect
    rw [resume_lockL1 _ hAt, hExpect, heldAfter_lockL1]
    exact expect_afterLockL1 hOk _
  · rw [hAt] at hOk hExpect
    rw [resume_evict _ hAt, hRelease evictable hOp hExpect]
    refine expect_startLookups (finishReady_of_empty h.l1_sized hOk.loadPlan ?_) routing
    simp [hOk.reservedKeys]
  · rw [hAt] at hOk hExpect
    rw [resume_releaseStale _ hAt, hRelease stale hOp hExpect]
    exact expect_startReserving h.l1_sized hOk.1 cfg plan hitLength
  · rw [hAt] at hOk hExpect
    have hSame : (fun k => ((L1Op.reserveWrite group (r.isTemporary cfg plan group) .new
        outcome).eventAt (m.apply (.reserveWrite group (r.isTemporary cfg plan group) .new
        outcome)).reply k).heldAfter (held k)) = held := by
      funext k
      rw [L1Manager.eventAt_reserveWrite]
      unfold L1Manager.writeEvent
      split <;> rfl
    have hNodup : ((r.withBuffers group (m.apply (.reserveWrite group
        (r.isTemporary cfg plan group) .new outcome)).reply).writeReserved.map Prod.fst).Nodup := by
      refine hOk.2.2.1.sublist ?_
      rw [withBuffers, map_append]
      refine (List.Sublist.refl _).append ((grantedBuffers_sublist group _).trans ?_)
      rw [flatten_cons]
      exact sublist_append_left _ _
    rw [hSame, hExpect]
    cases groups with
    | nil =>
      rw [resume_reserve_last _ hAt]
      exact expect_afterReserve (r := r.withBuffers group _) h.l1_sized hOk.1 hNodup plan hitLength
    | cons g gs =>
      rw [resume_reserve _ hAt]
      rfl
  · rw [hAt] at hExpect
    rw [resume_finish _ hAt]
    exact expect_finishing rfl (hExpect.after m hSucceeds)

end Handlers

end InFlightPrefetchRequest

end LMCache
