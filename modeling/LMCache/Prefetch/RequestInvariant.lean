import LMCache.Prefetch.L2Locks
import LMCache.Prefetch.TwoStage

/-!
# What holds at each program point

Facts about a request alone: bitmaps have one bit per key, the load plan never covers a key
that is locked in L1, and the buffers reserved so far belong to distinct keys of the plan.
They are kept by every handler, whatever the manager and the adapters answer.
-/

namespace LMCache

open Lib List Dict

namespace InFlightPrefetchRequest

variable {K : Type} [DecidableEq K]

/-- Nothing was planned or reserved yet. -/
structure Unplanned (r : InFlightPrefetchRequest K) : Prop where
  writeReserved : r.writeReserved = []
  loadPlan : r.loadPlan = Dict.empty

omit [DecidableEq K] in
theorem Unplanned.reservedKeys {r : InFlightPrefetchRequest K} (h : r.Unplanned) :
    r.reservedKeys = [] := by
  rw [InFlightPrefetchRequest.reservedKeys, h.writeReserved]
  rfl

/-- No lookup was submitted yet. -/
structure Unrouted (r : InFlightPrefetchRequest K) : Prop extends Unplanned r where
  lookupResults : r.lookupResults = Dict.empty
  l2Adapter2Readlocks : r.l2Adapter2Readlocks = Dict.empty

/-- A plan has one bit per key and covers no key that is locked in L1. -/
structure PlanFits (r : InFlightPrefetchRequest K) (plan : LoadPlan) : Prop where
  sized : ∀ a b, plan.get? a = some b → b.size = r.numKeys
  outside : ∀ i, plan.Covers i → r.l1Readlocks.test i = false

def PointOk (r : InFlightPrefetchRequest K) : Prop :=
  match r.point with
  | .lockL1 | .evict _ => r.Unrouted
  | .waitLookup => r.Unplanned
  | .releaseStale _ plan _ => r.Unplanned ∧ r.PlanFits plan
  | .reserve plan _ groups =>
    r.loadPlan = Dict.empty ∧ r.PlanFits plan ∧
      (r.reservedKeys ++ groups.flatten).Nodup ∧
      ∀ k ∈ r.reservedKeys ++ groups.flatten, k ∈ r.keysToReserve plan
  | .waitLoad =>
    r.PlanFits r.loadPlan ∧ (r.reservedKeys).Nodup ∧
      ∀ k, k ∈ r.reservedKeys ↔ k ∈ r.keysToReserve r.loadPlan
  | .finish _ _ => r.L2Released
  | .done _ => r.L2Released

structure Wf (r : InFlightPrefetchRequest K) : Prop where
  l2 : r.L2Balanced
  l1_sized : r.l1Readlocks.size = r.numKeys
  point : r.PointOk

theorem start_wf (spec : PrefetchRequestSpec K) : (start spec).Wf :=
  ⟨start_l2Balanced spec, rfl, ⟨⟨rfl, rfl⟩, rfl, rfl⟩⟩

/-- What `_finish_request` relies on: loaded keys were reserved, and were not in L1. -/
structure FinishReady (r : InFlightPrefetchRequest K) : Prop where
  l1_sized : r.l1Readlocks.size = r.numKeys
  reserved_nodup : (r.reservedKeys).Nodup
  loaded_reserved : ∀ k ∈ r.loadedKeys, k ∈ r.reservedKeys
  loaded_outside : ∀ i, (loadedBitmap r.numKeys r.loadPlan r.loadResults).test i = true →
    r.l1Readlocks.test i = false

omit [DecidableEq K] in
theorem loadedKeys_of_empty {r : InFlightPrefetchRequest K} (h : r.loadPlan = Dict.empty) :
    r.loadedKeys = [] := by
  rw [loadedKeys, h, eq_nil_iff_forall_not_mem]
  intro k hk
  obtain ⟨i, hTest, -⟩ := Bitmap.mem_gather.mp hk
  obtain ⟨a, b, hGet, -⟩ := (loadedBitmap_spec r.numKeys Dict.empty r.loadResults).2 i hTest
  cases hGet

omit [DecidableEq K] in
theorem finishReady_of_empty {r : InFlightPrefetchRequest K}
    (hSize : r.l1Readlocks.size = r.numKeys)
    (hPlan : r.loadPlan = Dict.empty) (hNodup : (r.reservedKeys).Nodup) :
    r.FinishReady where
  l1_sized := hSize
  reserved_nodup := hNodup
  loaded_reserved := by
    rw [loadedKeys_of_empty hPlan]
    intro k hk
    cases hk
  loaded_outside := by
    intro i hTest
    obtain ⟨a, b, hGet, -⟩ := (loadedBitmap_spec _ _ _).2 i hTest
    rw [hPlan] at hGet
    cases hGet

omit [DecidableEq K] in
theorem finishing_pointOk {r : InFlightPrefetchRequest K} {calls : List (L1Op K)}
    {result : Option Bitmap} (hPoint : r.point = .finishing calls result) (h : r.L2Released) :
    r.PointOk := by
  unfold PointOk
  rw [hPoint]
  cases calls with
  | nil => exact h
  | cons call calls => exact h

theorem finishRequest_wf {r : InFlightPrefetchRequest K} (h : r.L2Balanced)
    (hSize : r.l1Readlocks.size = r.numKeys) : r.finishRequest.Wf := by
  have hReleased := releaseL2Locks_balanced h Dict.empty fun a b hGet => by cases hGet
  exact ⟨hReleased.congr rfl rfl rfl rfl rfl, hSize,
    finishing_pointOk rfl releaseL2Locks_empty_released⟩

theorem cleanup_wf {r : InFlightPrefetchRequest K} (h : r.L2Balanced)
    (hSize : r.l1Readlocks.size = r.numKeys) : r.cleanup.Wf := by
  have hReleased := releaseL2Locks_balanced h Dict.empty fun a b hGet => by cases hGet
  exact ⟨hReleased.congr rfl rfl rfl rfl rfl, hSize,
    finishing_pointOk rfl releaseL2Locks_empty_released⟩

section Lookup

variable {r : InFlightPrefetchRequest K} {routing : List Nat}

theorem startLookups_wf (h : r.L2Balanced) (hSize : r.l1Readlocks.size = r.numKeys)
    (hUnrouted : r.Unrouted) (hRouting : routing.Nodup) : (r.startLookups routing).Wf := by
  unfold startLookups
  split
  · exact finishRequest_wf h hSize
  · refine ⟨⟨h.lookups_sized, h.balance, h.unlocks_mem, hRouting, fun a _ => ?_⟩, hSize,
      ⟨hUnrouted.writeReserved, hUnrouted.loadPlan⟩⟩
    exact ⟨by simp [hUnrouted.lookupResults], by simp [hUnrouted.l2Adapter2Readlocks]⟩

theorem size_granted (r : InFlightPrefetchRequest K) (reply : L1Reply K) :
    (r.granted reply).size = r.numKeys := by
  unfold granted
  split <;> rfl

theorem afterLockL1_wf (h : r.L2Balanced) (hUnrouted : r.Unrouted) (hRouting : routing.Nodup)
    (reply : L1Reply K) : (r.afterLockL1 routing reply).Wf := by
  have hSize := (keptLocks_spec r.spec.policy r.spec.attn (r.size_granted reply) r.spec.keys_fill).1
  have hKeptWf : ({ r with
      l1Readlocks := keptLocks (r.granted reply) r.numKeys r.spec.policy r.spec.attn } :
      InFlightPrefetchRequest K).L2Balanced := h.congr rfl rfl rfl rfl rfl
  have hKeptUnrouted : ({ r with
      l1Readlocks := keptLocks (r.granted reply) r.numKeys r.spec.policy r.spec.attn } :
      InFlightPrefetchRequest K).Unrouted :=
    ⟨⟨hUnrouted.writeReserved, hUnrouted.loadPlan⟩, hUnrouted.lookupResults,
      hUnrouted.l2Adapter2Readlocks⟩
  unfold afterLockL1
  dsimp only
  split
  · exact startLookups_wf hKeptWf hSize hKeptUnrouted hRouting
  · exact ⟨hKeptWf.congr rfl rfl rfl rfl rfl, hSize,
      ⟨hUnrouted.writeReserved, hUnrouted.loadPlan⟩, hUnrouted.lookupResults,
      hUnrouted.l2Adapter2Readlocks⟩

end Lookup

section Load

variable {r : InFlightPrefetchRequest K} {plan : LoadPlan}

omit [DecidableEq K] in
theorem keysToReserve_nodup (r : InFlightPrefetchRequest K) (plan : LoadPlan) :
    (r.keysToReserve plan).Nodup := Bitmap.gather_nodup _ r.spec.keys_nodup

omit [DecidableEq K] in
theorem reserveGroups_perm (r : InFlightPrefetchRequest K) (cfg : PrefetchConfig K)
    (plan : LoadPlan) : (r.reserveGroups cfg plan).flatten.Perm (r.keysToReserve plan) := by
  rw [reserveGroups, flatten_splitBy]
  exact perm_insertionSort _ _

omit [DecidableEq K] in
theorem mem_keysToReserve_of_covers (hPlan : r.PlanFits plan) {i : Nat} (hCovers : plan.Covers i)
    {k : K} (hk : r.spec.keys[i]? = some k) : k ∈ r.keysToReserve plan :=
  Bitmap.mem_gather.mpr ⟨i, (merge_covers_iff hPlan.sized).mpr hCovers, hk⟩

omit [DecidableEq K] in
/-- Loads were reserved and lie outside L1, so a loading request can finish. -/
theorem finishReady_of_waitLoad (hSize : r.l1Readlocks.size = r.numKeys)
    (hPlan : r.PlanFits r.loadPlan) (hNodup : (r.reservedKeys).Nodup)
    (hAll : ∀ k, k ∈ r.reservedKeys ↔ k ∈ r.keysToReserve r.loadPlan) :
    r.FinishReady where
  l1_sized := hSize
  reserved_nodup := hNodup
  loaded_reserved := by
    intro k hk
    obtain ⟨i, hTest, hi⟩ := Bitmap.mem_gather.mp hk
    exact (hAll k).mpr (mem_keysToReserve_of_covers hPlan ((loadedBitmap_spec _ _ _).2 i hTest) hi)
  loaded_outside := fun i hTest => hPlan.outside i ((loadedBitmap_spec _ _ _).2 i hTest)

omit [DecidableEq K] in
theorem mem_reserved_iff (hNodup : (r.reservedKeys).Nodup)
    (hSub : ∀ k ∈ r.reservedKeys, k ∈ r.keysToReserve plan)
    (hLength : ¬r.writeReserved.length < (r.keysToReserve plan).length) (k : K) :
    k ∈ r.reservedKeys ↔ k ∈ r.keysToReserve plan := by
  refine ⟨hSub k, fun hk => ?_⟩
  have hSubperm := subperm_of_subset hNodup hSub
  have hLe : (r.keysToReserve plan).length ≤ (r.reservedKeys).length := by
    rw [reservedKeys, length_map]
    omega
  exact ((hSubperm.perm_of_length_le hLe).mem_iff).mpr hk

theorem afterReserve_wf (h : r.L2Balanced) (hSize : r.l1Readlocks.size = r.numKeys)
    (hPlan : r.PlanFits plan) (hNodup : (r.reservedKeys).Nodup)
    (hSub : ∀ k ∈ r.reservedKeys, k ∈ r.keysToReserve plan) (hitLength : Nat) :
    (r.afterReserve plan hitLength).Wf := by
  unfold afterReserve
  split
  · exact finishRequest_wf h hSize
  · rename_i hLength
    have hPlanned : ({ r with loadPlan := plan } : InFlightPrefetchRequest K).L2Balanced :=
      h.congr rfl rfl rfl rfl rfl
    have hReleased := releaseL2Locks_balanced hPlanned plan hPlan.sized
    exact ⟨hReleased.congr rfl rfl rfl rfl rfl, hSize, ⟨hPlan.sized, hPlan.outside⟩, hNodup,
      mem_reserved_iff hNodup hSub hLength⟩

theorem startReserving_wf (h : r.L2Balanced) (hSize : r.l1Readlocks.size = r.numKeys)
    (hPlan : r.PlanFits plan) (hUnplanned : r.Unplanned) (cfg : PrefetchConfig K)
    (hitLength : Nat) : (r.startReserving cfg plan hitLength).Wf := by
  have hPerm := r.reserveGroups_perm cfg plan
  unfold startReserving
  split
  · refine afterReserve_wf h hSize hPlan ?_ ?_ hitLength <;> simp [hUnplanned.reservedKeys]
  · refine ⟨h.congr rfl rfl rfl rfl rfl, hSize, hUnplanned.loadPlan,
      ⟨hPlan.sized, hPlan.outside⟩, ?_, ?_⟩
    · show (r.reservedKeys ++ _).Nodup
      rw [hUnplanned.reservedKeys]
      exact hPerm.nodup_iff.mpr (r.keysToReserve_nodup plan)
    · show ∀ k ∈ r.reservedKeys ++ _, _
      rw [hUnplanned.reservedKeys]
      exact fun k hk => hPerm.mem_iff.mp hk

theorem transitionToLoadPhase_wf (h : r.L2Balanced) (hSize : r.l1Readlocks.size = r.numKeys)
    (hUnplanned : r.Unplanned) (cfg : PrefetchConfig K) (routing : List Nat) :
    (r.transitionToLoadPhase cfg routing).Wf := by
  obtain ⟨hCovers, hPlanned, -⟩ := trimmedPlan_spec r.spec.policy r.spec.attn routing hSize
    h.lookups_sized r.spec.keys_fill
  obtain ⟨hLocksSize, hLocks, -⟩ := loadPhase_locks r.spec.policy r.spec.attn routing hSize
    h.lookups_sized r.spec.keys_fill
  have hFits : ({ r with
      l1Readlocks := (loadPhase r.l1Readlocks r.numKeys r.spec.policy r.spec.attn r.lookupResults
        routing).l1Readlocks } : InFlightPrefetchRequest K).PlanFits (loadPhase r.l1Readlocks
          r.numKeys r.spec.policy r.spec.attn r.lookupResults routing).trimmedPlan := by
    refine ⟨fun a b hGet => (hPlanned a b hGet).1, fun i hCover => ?_⟩
    have hNot := ((hCovers i).mp hCover).2
    rw [← Bool.not_eq_true]
    intro hLock
    rw [((hLocks i).mp hLock).1] at hNot
    cases hNot
  unfold transitionToLoadPhase
  dsimp only
  split
  · exact finishRequest_wf h hSize
  · split
    · exact ⟨h.congr rfl rfl rfl rfl rfl, hLocksSize,
        ⟨hUnplanned.writeReserved, hUnplanned.loadPlan⟩, ⟨hFits.sized, hFits.outside⟩⟩
    · have hKept : ({ r with
          l1Readlocks := (loadPhase r.l1Readlocks r.numKeys r.spec.policy r.spec.attn
            r.lookupResults routing).l1Readlocks } : InFlightPrefetchRequest K).L2Balanced :=
        h.congr rfl rfl rfl rfl rfl
      exact startReserving_wf hKept hLocksSize hFits
        ⟨hUnplanned.writeReserved, hUnplanned.loadPlan⟩ cfg _

theorem grantedBuffers_sublist (group : List K) (reply : L1Reply K) :
    ((grantedBuffers group reply).map Prod.fst).Sublist group := by
  unfold grantedBuffers
  split
  · rename_i ret
    induction group with
    | nil => exact List.Sublist.refl _
    | cons k group ih =>
      rw [filterMap_cons]
      split
      · exact ih.cons k
      · rename_i p hp
        split at hp
        · cases hp
          exact ih.cons_cons k
        · cases hp
  · exact nil_sublist _

end Load

variable {r : InFlightPrefetchRequest K} {routing : List Nat}

theorem afterGroup_wf (h : r.Wf) {plan : LoadPlan} {hitLength : Nat} {group : List K}
    {groups : List (List K)} (hPoint : r.loadPlan = Dict.empty ∧ r.PlanFits plan ∧
      (r.reservedKeys ++ (group :: groups).flatten).Nodup ∧
      ∀ k ∈ r.reservedKeys ++ (group :: groups).flatten, k ∈ r.keysToReserve plan)
    (hAt : r.point = .reserve plan hitLength (group :: groups)) (cfg : PrefetchConfig K)
    (routing : List Nat) (reply : L1Reply K) : (r.resume cfg routing reply).Wf := by
  obtain ⟨hLoadPlan, hPlan, hNodup, hSub⟩ := hPoint
  have hSublist : ((r.writeReserved ++ grantedBuffers group reply).map Prod.fst ++
      groups.flatten).Sublist (r.reservedKeys ++ (group :: groups).flatten) := by
    rw [map_append, append_assoc, flatten_cons]
    exact (List.Sublist.refl _).append ((grantedBuffers_sublist group reply).append
      (List.Sublist.refl _))
  have hNodup' := hNodup.sublist hSublist
  have hSub' : ∀ k ∈ (r.writeReserved ++ grantedBuffers group reply).map Prod.fst ++
      groups.flatten, k ∈ r.keysToReserve plan := fun k hk => hSub k (hSublist.subset hk)
  have hReserved : ({ r with writeReserved := r.writeReserved ++ grantedBuffers group reply } :
      InFlightPrefetchRequest K).L2Balanced := h.l2.congr rfl rfl rfl rfl rfl
  cases groups with
  | nil =>
    rw [flatten_nil, append_nil] at hNodup' hSub'
    rw [resume_reserve_last reply hAt]
    exact afterReserve_wf hReserved h.l1_sized ⟨hPlan.sized, hPlan.outside⟩ hNodup' hSub' hitLength
  | cons g gs =>
    rw [resume_reserve reply hAt]
    exact ⟨h.l2.congr rfl rfl rfl rfl rfl, h.l1_sized, hLoadPlan, ⟨hPlan.sized, hPlan.outside⟩,
      hNodup', hSub'⟩

variable {result : Bitmap}

theorem lookupPolled_balanced (h : r.L2Balanced) {adapter : Nat}
    (hAdapter : adapter ∈ r.pendingLookupTasks) (hResult : result.size = r.numKeys) : ({ r with
      lookupResults := r.lookupResults.set adapter result
      l2Adapter2Readlocks := r.l2Adapter2Readlocks.set adapter result
      pendingLookupTasks := r.pendingLookupTasks.erase adapter } :
      InFlightPrefetchRequest K).L2Balanced := by
  obtain ⟨hLookup, hLock⟩ := h.pending_fresh adapter hAdapter
  refine ⟨?_, ?_, h.unlocks_mem, h.pending_nodup.erase adapter, ?_⟩
  · intro a b hGet
    rw [get?_set] at hGet
    split at hGet
    · cases hGet
      exact hResult
    · exact h.lookups_sized a b hGet
  · intro a i k hk
    have hOld := h.balance a i k hk
    unfold unlockCount heldL2 acquiredL2 at hOld ⊢
    simp only [get?_set]
    split
    · -- the adapter had no entry, so nothing of it was unlocked before
      rename_i hEq
      subst hEq
      rw [hLookup, hLock] at hOld
      simp only [Option.any_none, Bool.toNat_false, Nat.add_zero] at hOld
      rw [hOld, Nat.zero_add]
    · exact hOld
  · intro a ha
    have hne : adapter ≠ a := by
      rintro rfl
      exact absurd ha h.pending_nodup.not_mem_erase
    obtain ⟨hOldLookup, hOldLock⟩ := h.pending_fresh a (mem_of_mem_erase ha)
    exact ⟨(get?_set_ne _ hne _).trans hOldLookup, (get?_set_ne _ hne _).trans hOldLock⟩

theorem resume_wf (h : r.Wf) {cfg : PrefetchConfig K} {outcome : AllocOutcome} {op : L1Op K}
    (hNext : r.nextCall cfg outcome = some op) (hRouting : routing.Nodup) (reply : L1Reply K) :
    (r.resume cfg routing reply).Wf := by
  have hPoint := h.point
  unfold PointOk at hPoint
  obtain ⟨hAt, -⟩ | ⟨evictable, hAt, -⟩ | ⟨stale, plan, hitLength, hAt, -⟩ |
    ⟨plan, hitLength, group, groups, hAt, -⟩ | ⟨calls, result, hAt⟩ := nextCall_cases hNext
  · rw [hAt] at hPoint
    rw [resume_lockL1 reply hAt]
    exact afterLockL1_wf h.l2 hPoint hRouting reply
  · rw [hAt] at hPoint
    rw [resume_evict reply hAt]
    exact startLookups_wf h.l2 h.l1_sized hPoint hRouting
  · rw [hAt] at hPoint
    rw [resume_releaseStale reply hAt]
    exact startReserving_wf h.l2 h.l1_sized hPoint.2 hPoint.1 cfg hitLength
  · rw [hAt] at hPoint
    exact afterGroup_wf h hPoint hAt cfg routing reply
  · rw [hAt] at hPoint
    rw [resume_finish reply hAt]
    exact ⟨h.l2.congr rfl rfl rfl rfl rfl, h.l1_sized, finishing_pointOk rfl hPoint⟩

theorem lookupDone_wf (h : r.Wf) (hPoint : r.point = .waitLookup) (cfg : PrefetchConfig K)
    {adapter : Nat} (hAdapter : adapter ∈ r.pendingLookupTasks)
    (hResult : result.size = r.numKeys) : (r.lookupDone cfg routing adapter result).Wf := by
  have hUnplanned : r.Unplanned := by
    have hOk := h.point
    unfold PointOk at hOk
    rwa [hPoint] at hOk
  have hPolled := lookupPolled_balanced h.l2 hAdapter hResult
  unfold lookupDone
  dsimp only
  split
  · exact transitionToLoadPhase_wf hPolled h.l1_sized
      ⟨hUnplanned.writeReserved, hUnplanned.loadPlan⟩ cfg routing
  · refine ⟨hPolled, h.l1_sized, ?_⟩
    unfold PointOk
    simp only [hPoint]
    exact ⟨hUnplanned.writeReserved, hUnplanned.loadPlan⟩

theorem loadDone_wf (h : r.Wf) (hPoint : r.point = .waitLoad) (adapter : Nat) (result : Bitmap) :
    (r.loadDone adapter result).Wf := by
  have hOk := h.point
  unfold PointOk at hOk
  simp only [hPoint] at hOk
  have hPolled : ({ r with
      loadResults := r.loadResults.set adapter result
      pendingLoadTasks := r.pendingLoadTasks.erase adapter } :
      InFlightPrefetchRequest K).L2Balanced := h.l2.congr rfl rfl rfl rfl rfl
  unfold loadDone
  dsimp only
  split
  · exact finishRequest_wf hPolled h.l1_sized
  · refine ⟨hPolled, h.l1_sized, ?_⟩
    unfold PointOk
    simp only [hPoint]
    exact ⟨⟨hOk.1.sized, hOk.1.outside⟩, hOk.2⟩

end InFlightPrefetchRequest

end LMCache
