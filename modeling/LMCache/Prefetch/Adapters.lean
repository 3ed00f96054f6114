import LMCache.Prefetch.Request

/-!
# Adapters of a request

Which adapters a request refers to, and how its handlers change that. `_release_l2_locks`
unlocks at the adapters of the locks it holds, and these were all looked up, so an adapter
that no request refers to (`_adapter_in_use`) is never unlocked.
-/

namespace LMCache

open Lib Dict

namespace InFlightPrefetchRequest

variable {K : Type}

/-- The request refers to attached adapters only, and holds locks only where it looked up. -/
structure Attached (attached : List Nat) (r : InFlightPrefetchRequest K) : Prop where
  pending : ∀ a ∈ r.pendingLookupTasks, a ∈ attached
  lookups : ∀ a, r.lookupResults.contains a = true → a ∈ attached
  locks : ∀ a, r.l2Adapter2Readlocks.contains a = true → r.lookupResults.contains a = true

/-- What a handler does to the adapters of a request. -/
structure Advances (routing : List Nat) (r r' : InFlightPrefetchRequest K) : Prop where
  spec : r'.spec = r.spec
  pending : ∀ a ∈ r'.pendingLookupTasks, a ∈ r.pendingLookupTasks ∨ a ∈ routing
  lookups : r'.lookupResults = r.lookupResults
  locks : ∀ a, r'.l2Adapter2Readlocks.contains a = true → r.l2Adapter2Readlocks.contains a = true
  unlocks : ∀ p ∈ r'.submittedUnlocks,
    p ∈ r.submittedUnlocks ∨ r.l2Adapter2Readlocks.contains p.1 = true

variable {r r' : InFlightPrefetchRequest K} {routing attached : List Nat}

theorem Attached.advance (h : r.Attached attached) (hAdvances : Advances routing r r')
    (hRouting : ∀ a ∈ routing, a ∈ attached) : r'.Attached attached where
  pending := by
    intro a ha
    rcases hAdvances.pending a ha with hOld | hNew
    · exact h.pending a hOld
    · exact hRouting a hNew
  lookups := by
    rw [hAdvances.lookups]
    exact h.lookups
  locks := by
    rw [hAdvances.lookups]
    exact fun a ha => h.locks a (hAdvances.locks a ha)

theorem Attached.unlocks (h : r.Attached attached) (hAdvances : Advances routing r r')
    {p : Nat × K} (hp : p ∈ r'.submittedUnlocks) : p ∈ r.submittedUnlocks ∨ p.1 ∈ attached :=
  (hAdvances.unlocks p hp).imp_right fun hLock => h.lookups p.1 (h.locks p.1 hLock)

theorem advances_of_same (hSpec : r'.spec = r.spec)
    (hPending : r'.pendingLookupTasks = r.pendingLookupTasks)
    (hLookups : r'.lookupResults = r.lookupResults)
    (hLocks : r'.l2Adapter2Readlocks = r.l2Adapter2Readlocks)
    (hUnlocks : r'.submittedUnlocks = r.submittedUnlocks) : Advances routing r r' :=
  ⟨hSpec, fun _ ha => Or.inl (hPending ▸ ha), hLookups, fun _ ha => hLocks ▸ ha,
    fun _ hp => Or.inl (hUnlocks ▸ hp)⟩

theorem releaseL2Locks_advances (keep : LoadPlan) : Advances routing r (r.releaseL2Locks keep) where
  spec := rfl
  pending := fun a ha => Or.inl ha
  lookups := rfl
  locks := by
    intro a ha
    rw [contains_iff] at ha ⊢
    by_contra hNot
    have hKey : a ∉ r.l2Adapter2Readlocks.keys := fun hMem => hNot (mem_keys_iff.mp hMem)
    rw [show (r.releaseL2Locks keep).l2Adapter2Readlocks.get? a = _ from
      get?_updateEach_of_not_mem _ hKey _] at ha
    exact hNot ha
  unlocks := by
    intro p hp
    rcases List.mem_append.mp hp with hOld | hNew
    · exact Or.inl hOld
    · right
      obtain ⟨o, ho, hk⟩ := List.mem_flatMap.mp hNew
      obtain ⟨k, -, rfl⟩ := List.mem_map.mp hk
      have hKey := List.mem_map_of_mem (f := Prod.fst) ho
      rw [updateEach_keys] at hKey
      exact contains_iff.mpr (mem_keys_iff.mp hKey)

theorem Advances.congr {r'' : InFlightPrefetchRequest K} (h : Advances routing r r')
    (hSpec : r''.spec = r'.spec) (hPending : r''.pendingLookupTasks = r'.pendingLookupTasks)
    (hLookups : r''.lookupResults = r'.lookupResults)
    (hLocks : r''.l2Adapter2Readlocks = r'.l2Adapter2Readlocks)
    (hUnlocks : r''.submittedUnlocks = r'.submittedUnlocks) : Advances routing r r'' :=
  ⟨hSpec.trans h.spec, hPending ▸ h.pending, hLookups.trans h.lookups, hLocks ▸ h.locks, hUnlocks ▸
    h.unlocks⟩

variable [DecidableEq K]

theorem finishRequest_advances : Advances routing r r.finishRequest :=
  (releaseL2Locks_advances Dict.empty).congr rfl rfl rfl rfl rfl

omit [DecidableEq K] in
theorem cleanup_advances : Advances routing r r.cleanup :=
  (releaseL2Locks_advances Dict.empty).congr rfl rfl rfl rfl rfl

theorem startLookups_advances : Advances routing r (r.startLookups routing) := by
  unfold startLookups
  split
  · exact finishRequest_advances
  · exact ⟨rfl, fun a ha => Or.inr ha, rfl, fun a ha => ha, fun p hp => Or.inl hp⟩

theorem afterReserve_advances (plan : LoadPlan) (hitLength : Nat) :
    Advances routing r (r.afterReserve plan hitLength) := by
  unfold afterReserve
  split
  · exact finishRequest_advances
  · have hRelease : Advances routing { r with loadPlan := plan }
        (({ r with loadPlan := plan }).releaseL2Locks plan) := releaseL2Locks_advances plan
    exact ⟨hRelease.spec, hRelease.pending, hRelease.lookups, hRelease.locks, hRelease.unlocks⟩

theorem startReserving_advances (cfg : PrefetchConfig K) (plan : LoadPlan) (hitLength : Nat) :
    Advances routing r (r.startReserving cfg plan hitLength) := by
  unfold startReserving
  split
  · exact afterReserve_advances plan hitLength
  · exact advances_of_same rfl rfl rfl rfl rfl

theorem afterLockL1_advances (reply : L1Reply K) :
    Advances routing r (r.afterLockL1 routing reply) := by
  unfold afterLockL1
  dsimp only
  split
  · generalize keptLocks (r.granted reply) r.numKeys r.spec.policy r.spec.attn = kept
    have hStart : Advances routing { r with l1Readlocks := kept }
        (({ r with l1Readlocks := kept }).startLookups routing) := startLookups_advances
    exact ⟨hStart.spec, hStart.pending, hStart.lookups, hStart.locks, hStart.unlocks⟩
  · exact advances_of_same rfl rfl rfl rfl rfl

theorem transitionToLoadPhase_advances (cfg : PrefetchConfig K) (routing : List Nat) :
    Advances routing r (r.transitionToLoadPhase cfg routing) := by
  unfold transitionToLoadPhase
  dsimp only
  split
  · exact finishRequest_advances
  · split
    · exact advances_of_same rfl rfl rfl rfl rfl
    · generalize loadPhase r.l1Readlocks r.numKeys r.spec.policy r.spec.attn r.lookupResults
        routing = phase
      have hStart : Advances routing { r with l1Readlocks := phase.l1Readlocks }
          (({ r with l1Readlocks := phase.l1Readlocks }).startReserving cfg phase.trimmedPlan
            phase.hitLength) := startReserving_advances cfg _ _
      exact ⟨hStart.spec, hStart.pending, hStart.lookups, hStart.locks, hStart.unlocks⟩

theorem resume_advances {cfg : PrefetchConfig K} {outcome : AllocOutcome} {op : L1Op K}
    (hNext : r.nextCall cfg outcome = some op) (reply : L1Reply K) :
    Advances routing r (r.resume cfg routing reply) := by
  obtain ⟨hAt, -⟩ | ⟨evictable, hAt, -⟩ | ⟨stale, plan, hitLength, hAt, -⟩ |
    ⟨plan, hitLength, group, groups, hAt, -⟩ | ⟨calls, result, hAt⟩ := nextCall_cases hNext
  · rw [resume_lockL1 _ hAt]
    exact afterLockL1_advances reply
  · rw [resume_evict _ hAt]
    exact startLookups_advances
  · rw [resume_releaseStale _ hAt]
    exact startReserving_advances cfg plan hitLength
  · cases groups with
    | nil =>
      rw [resume_reserve_last _ hAt]
      have hReserve : Advances routing (r.withBuffers group reply)
          ((r.withBuffers group reply).afterReserve plan hitLength) := afterReserve_advances _ _
      exact ⟨hReserve.spec, hReserve.pending, hReserve.lookups, hReserve.locks, hReserve.unlocks⟩
    | cons g gs =>
      rw [resume_reserve _ hAt]
      exact advances_of_same rfl rfl rfl rfl rfl
  · rw [resume_finish _ hAt]
    exact advances_of_same rfl rfl rfl rfl rfl

theorem loadDone_advances (adapter : Nat) (result : Bitmap) :
    Advances routing r (r.loadDone adapter result) := by
  unfold loadDone
  dsimp only
  split
  · have hFinish : Advances routing { r with
        loadResults := r.loadResults.set adapter result
        pendingLoadTasks := r.pendingLoadTasks.erase adapter }
        (finishRequest { r with
          loadResults := r.loadResults.set adapter result
          pendingLoadTasks := r.pendingLoadTasks.erase adapter }) := finishRequest_advances
    exact ⟨hFinish.spec, hFinish.pending, hFinish.lookups, hFinish.locks, hFinish.unlocks⟩
  · exact advances_of_same rfl rfl rfl rfl rfl

theorem Attached.lookupDone (h : r.Attached attached) (cfg : PrefetchConfig K) {adapter : Nat}
    (hAdapter : adapter ∈ r.pendingLookupTasks) (result : Bitmap)
    (hRouting : ∀ a ∈ routing, a ∈ attached) :
    (r.lookupDone cfg routing adapter result).Attached attached ∧
      (r.lookupDone cfg routing adapter result).spec = r.spec ∧
      ∀ p ∈ (r.lookupDone cfg routing adapter result).submittedUnlocks,
        p ∈ r.submittedUnlocks ∨ p.1 ∈ attached := by
  have hSet : ∀ (d : Dict Nat Bitmap) a, (d.set adapter result).contains a = true ↔
      a = adapter ∨ d.contains a = true := by
    intro d a
    rw [Dict.contains, Dict.contains, get?_set]
    by_cases hEq : adapter = a
    · simp [hEq]
    · simp [hEq, Ne.symm hEq]
  have hPolled : Attached attached { r with
      lookupResults := r.lookupResults.set adapter result
      l2Adapter2Readlocks := r.l2Adapter2Readlocks.set adapter result
      pendingLookupTasks := r.pendingLookupTasks.erase adapter } := by
    refine ⟨fun a ha => h.pending a (List.mem_of_mem_erase ha), fun a ha => ?_, fun a ha => ?_⟩
    · rcases (hSet r.lookupResults a).mp ha with rfl | hOld
      · exact h.pending a hAdapter
      · exact h.lookups a hOld
    · refine (hSet r.lookupResults a).mpr ?_
      exact ((hSet r.l2Adapter2Readlocks a).mp ha).imp_right (h.locks a)
  unfold InFlightPrefetchRequest.lookupDone
  dsimp only
  split
  · have hAdvances := transitionToLoadPhase_advances cfg routing (r := { r with
      lookupResults := r.lookupResults.set adapter result
      l2Adapter2Readlocks := r.l2Adapter2Readlocks.set adapter result
      pendingLookupTasks := r.pendingLookupTasks.erase adapter })
    exact ⟨hPolled.advance hAdvances hRouting, hAdvances.spec,
      fun p hp => hPolled.unlocks hAdvances hp⟩
  · exact ⟨hPolled, rfl, fun p hp => Or.inl hp⟩

end InFlightPrefetchRequest

end LMCache
