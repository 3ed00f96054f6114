import LMCache.Storage.AsyncLookup
import Mathlib.Data.List.GetD
import Mathlib.Data.List.ReduceOption

/-!
# Loads that raise

The loading tasks of a lookup finish in any order, and `asyncio.gather` waits for all of them
or for the first that raises. In the second case `prefetch_all_done_callback` raises with it: the
scheduler is not answered, and what the other tiers loaded is not given back.
-/

namespace LMCache.Storage

open List

variable {K V : Type}

/-- The gathering of the loading tasks, what was sent to the scheduler and what was given back. -/
structure Gathering (V : Type) where
  nfinished : Nat
  allDone : Bool
  responses : List Nat
  released : List V

/-- A lookup without a hit answers at once. -/
def AsyncLookup.gather (lookup : AsyncLookup K) : Gathering V :=
  if lookup.numTotalHitChunks = 0 then ⟨0, true, [0], []⟩ else ⟨0, false, [], []⟩

/-- Task `i` is done: it loaded objects, or it raised. The callback runs when the first task
raises or when the last one is done. -/
def AsyncLookup.taskDone (lookup : AsyncLookup K) (cumChunkLengths : List Nat) (keysPerChunk : Nat)
    (outcomes : List (Option (List V))) (s : Gathering V) (i : Nat) : Gathering V :=
  let s := { s with nfinished := s.nfinished + 1 }
  if s.allDone then s
  else match outcomes.getD i none with
    -- `task.result()` raises before a chunk is counted
    | none => { s with allDone := true }
    | some _ =>
      if s.nfinished = outcomes.length then
        let (length, released) :=
          lookup.respond cumChunkLengths keysPerChunk outcomes.reduceOption
        ⟨s.nfinished, true, s.responses ++ length.toList, s.released ++ released⟩
      else s

def AsyncLookup.run (lookup : AsyncLookup K) (cumChunkLengths : List Nat) (keysPerChunk : Nat)
    (outcomes : List (Option (List V))) (order : List Nat) : Gathering V :=
  order.foldl (lookup.taskDone cumChunkLengths keysPerChunk outcomes) lookup.gather

/-- The scheduler got one response. If a task raised, the loaded objects are behind the chunks
that it counts, or they were given back. -/
structure Answered (lookup : AsyncLookup K) (cumChunkLengths : List Nat) (keysPerChunk : Nat)
    (outcomes : List (Option (List V))) (s : Gathering V) : Prop where
  response : s.responses.length = 1
  released : none ∈ outcomes →
    ∀ found ∈ loadedAt 0 (lookup.loadingTasks.zip (outcomes.map (·.getD []))),
      (∃ n, cumChunkLengths[n]? = s.responses.head? ∧ found.1 < n * keysPerChunk) ∨
        found.2 ∈ s.released

variable {lookup : AsyncLookup K} {cumChunkLengths : List Nat} {keysPerChunk : Nat}
  {outcomes : List (Option (List V))} {order : List Nat} {s : Gathering V}

theorem foldl_taskDone_done (h : s.allDone = true) :
    (order.foldl (lookup.taskDone cumChunkLengths keysPerChunk outcomes) s).responses =
      s.responses := by
  induction order generalizing s with
  | nil => rfl
  | cons i rest ih =>
    rw [foldl_cons, AsyncLookup.taskDone, if_pos h]
    exact ih h

/-- A task that raises leaves the scheduler without a response, and otherwise the last one
sends it. -/
theorem foldl_taskDone (hSome : order ≠ []) (hPending : s.allDone = false)
    (hCount : s.nfinished + order.length = outcomes.length) :
    ((∃ i ∈ order, outcomes.getD i none = none) →
      (order.foldl (lookup.taskDone cumChunkLengths keysPerChunk outcomes) s).responses =
        s.responses) ∧
    ((∀ i ∈ order, outcomes.getD i none ≠ none) →
      (order.foldl (lookup.taskDone cumChunkLengths keysPerChunk outcomes) s).responses =
        s.responses ++
          (lookup.respond cumChunkLengths keysPerChunk outcomes.reduceOption).1.toList) := by
  induction order generalizing s with
  | nil => exact absurd rfl hSome
  | cons i rest ih =>
    rw [length_cons] at hCount
    rw [foldl_cons, AsyncLookup.taskDone, if_neg (by simp [hPending]), forall_mem_cons]
    simp only [mem_cons, exists_eq_or_imp]
    cases hOutcome : outcomes.getD i none with
    | none => exact ⟨fun _ => foldl_taskDone_done rfl, fun h => absurd rfl h.1⟩
    | some objs =>
      dsimp only
      by_cases hLast : rest = []
      · subst hLast
        rw [if_pos (by simpa using hCount)]
        exact ⟨fun h => by simp at h, fun _ => rfl⟩
      · have hMore := length_pos_iff.mpr hLast
        rw [if_neg (by omega)]
        obtain ⟨hRaised, hReturned⟩ := @ih ⟨s.nfinished + 1, s.allDone, s.responses, s.released⟩
          hLast hPending (by dsimp only; omega)
        exact ⟨fun h => hRaised (h.resolve_left (by simp)), fun h => hReturned h.2⟩

theorem countTiers_mul_le (tiers : List (List (K × V) × Nat)) (total : Nat) :
    (countTiers keysPerChunk tiers total).1 * keysPerChunk ≤
      total * keysPerChunk + (tiers.flatMap Prod.fst).length := by
  induction tiers generalizing total with
  | nil => exact Nat.le_refl _
  | cons tier rest ih =>
    have hActual := Nat.div_mul_le_self tier.1.length keysPerChunk
    have hLater := ih (total + tier.1.length / keysPerChunk)
    rw [Nat.add_mul] at hLater
    rw [countTiers, flatMap_cons, length_append]
    dsimp only
    split
    · rw [Nat.add_mul]
      omega
    · dsimp only
      omega

theorem length_gatherWithKeys_le (tasks : List (LoadingTask K)) (loadingResults : List (List V)) :
    (((gatherWithKeys tasks loadingResults).zip (tasks.map (·.numHitChunks))).flatMap
      Prod.fst).length ≤ (tasks.flatMap (·.keys)).length := by
  rw [zip_gatherWithKeys]
  induction tasks generalizing loadingResults with
  | nil => exact Nat.le_refl _
  | cons task rest ih =>
    cases loadingResults with
    | nil => exact Nat.zero_le _
    | cons results later =>
      have hLater := ih later
      simp only [zip_cons_cons, map_cons, flatMap_cons, length_append, length_zip]
      omega

variable {keys : List K} {pin : Bool} {n : Nat}

theorem AsyncLookup.After.responds (h : lookup.After keysPerChunk pin keys n)
    (hPositive : 1 ≤ keysPerChunk) (hCum : keys.length / keysPerChunk < cumChunkLengths.length)
    (loadingResults : List (List V)) :
    (lookup.respond cumChunkLengths keysPerChunk loadingResults).1.isSome := by
  unfold AsyncLookup.respond
  split
  · rfl
  · have hCount := @countTiers_mul_le K V keysPerChunk
      ((gatherWithKeys lookup.loadingTasks loadingResults).zip
        (lookup.loadingTasks.map (·.numHitChunks))) 0
    have hLoaded := length_gatherWithKeys_le lookup.loadingTasks loadingResults
    have hWithin := (Nat.le_div_iff_mul_le hPositive).mpr h.within
    rw [h.tasks_keys, length_take_of_le h.within] at hLoaded
    rw [prefetchAllDoneCallback]
    generalize countTiers keysPerChunk _ 0 = counted at hCount
    have hTotal : counted.1 ≤ n := Nat.le_of_mul_le_mul_right (by omega) hPositive
    exact Option.isSome_iff_exists.mpr ⟨_, getElem?_eq_getElem (by omega)⟩

theorem plannedTasks_hit {backends : List (String × AsyncBackend K)} {task : LoadingTask K}
    (h : task ∈ plannedTasks keysPerChunk keys cumChunkLengths n backends) :
    0 < task.numHitChunks := by
  induction backends generalizing n with
  | nil => cases h
  | cons b rest ih =>
    unfold plannedTasks at h
    dsimp only at h
    split at h
    · exact ih h
    · rename_i hHit
      rcases mem_cons.mp h with rfl | hLater
      · exact Nat.pos_of_ne_zero hHit
      · exact ih hLater

theorem AsyncLookup.After.hit_iff (h : lookup.After keysPerChunk pin keys n)
    (hPositive : 1 ≤ keysPerChunk) (hHit : ∀ task ∈ lookup.loadingTasks, 0 < task.numHitChunks) :
    lookup.numTotalHitChunks = 0 ↔ lookup.loadingTasks = [] := by
  have hKeys := h.tasks_keys
  rw [h.counted]
  constructor
  · intro hZero
    by_contra hSome
    obtain ⟨task, hTask⟩ := exists_mem_of_ne_nil _ hSome
    rw [hZero, Nat.zero_mul, take_zero, flatMap_eq_nil_iff] at hKeys
    have hEmpty := h.whole task hTask
    rw [hKeys task hTask, length_nil] at hEmpty
    exact (Nat.mul_pos (hHit task hTask) hPositive).ne hEmpty
  · intro hNil
    have hNone := congrArg List.length hKeys
    rw [hNil, length_take_of_le h.within] at hNone
    exact (Nat.mul_eq_zero.mp hNone.symm).resolve_right (by omega)

/-- A lookup is answered when every loading task returns, and not when one raises. -/
theorem answered_iff_none_raises (hPositive : 1 ≤ keysPerChunk)
    (hWhole : keys.length % keysPerChunk = 0)
    (hCum : cumChunkLengths.length = keys.length / keysPerChunk + 1) (pin : Bool)
    (backends : List (String × AsyncBackend K)) :
    ∃ lookup, asyncLookupAndPrefetch keys cumChunkLengths keysPerChunk pin backends = .ok lookup ∧
      ∀ (outcomes : List (Option (List V))) (order : List Nat),
        outcomes.length = lookup.loadingTasks.length →
        order.Perm (List.range outcomes.length) →
        (Answered lookup cumChunkLengths keysPerChunk outcomes
          (lookup.run cumChunkLengths keysPerChunk outcomes order) ↔ none ∉ outcomes) := by
  obtain ⟨lookup, n, hRun, hAfter, hTasks⟩ :=
    asyncLookupAndPrefetch_eq hPositive hWhole cumChunkLengths pin backends
  refine ⟨lookup, hRun, fun outcomes order hLength hOrder => ?_⟩
  have hNoTask := hAfter.hit_iff hPositive fun task h => plannedTasks_hit (hTasks ▸ h)
  have hEvery : ∀ i, i ∈ order ↔ i < outcomes.length := fun i =>
    hOrder.mem_iff.trans List.mem_range
  have hCount : 0 + order.length = outcomes.length := by
    rw [hOrder.length_eq, List.length_range, Nat.zero_add]
  have hSome (hHit : lookup.numTotalHitChunks ≠ 0) : order ≠ [] := by
    have hTasks := List.length_pos_iff.mpr (mt hNoTask.mpr hHit)
    exact List.length_pos_iff.mp (by omega)
  constructor
  · intro hAnswered hNone
    obtain ⟨i, hi, hRaised⟩ := List.mem_iff_getElem.mp hNone
    have hTask : lookup.loadingTasks ≠ [] := List.length_pos_iff.mp (by omega)
    have hHit := mt hNoTask.mp hTask
    have hResponses := hAnswered.response
    rw [AsyncLookup.run, AsyncLookup.gather, if_neg hHit, (foldl_taskDone (hSome hHit) rfl hCount).1
      ⟨i, (hEvery i).mpr hi, by rw [List.getD_eq_getElem _ _ hi, hRaised]⟩] at hResponses
    cases hResponses
  · intro hNone
    refine ⟨?_, fun hRaised => absurd hRaised hNone⟩
    rw [AsyncLookup.run, AsyncLookup.gather]
    by_cases hHit : lookup.numTotalHitChunks = 0
    · rw [if_pos hHit, foldl_taskDone_done rfl]
      rfl
    · have hReturned : ∀ i ∈ order, outcomes.getD i none ≠ none := by
        intro i hi hRaised
        have hInside := (hEvery i).mp hi
        rw [List.getD_eq_getElem _ _ hInside] at hRaised
        exact hNone (hRaised ▸ List.getElem_mem hInside)
      have hLess : keys.length / keysPerChunk < cumChunkLengths.length := by omega
      obtain ⟨length, hSent⟩ := Option.isSome_iff_exists.mp
        (hAfter.responds hPositive hLess outcomes.reduceOption)
      rw [if_neg hHit, (foldl_taskDone (hSome hHit) rfl hCount).2 hReturned, hSent]
      rfl

/-- The memory has the first of two chunks, and the disk has both. -/
def twoTiers : List (String × AsyncBackend Nat) :=
  [("LocalCPUBackend", ⟨fun keys => min 1 keys.length, fun _ => Nat.min_le_right _ _⟩),
    ("LocalDiskBackend", ⟨List.length, fun _ => le_refl _⟩)]

/-- The memory loads the first chunk, and the disk raises. -/
theorem lookup_of_a_raise_unanswered :
    ∃ lookup, asyncLookupAndPrefetch [10, 11] [0, 256, 300] 1 true twoTiers = .ok lookup ∧
      (lookup.run [0, 256, 300] 1 [some [7], none] [0, 1]).released = [] ∧
      ¬Answered lookup [0, 256, 300] 1 [some [7], none]
        (lookup.run [0, 256, 300] 1 [some [7], none] [0, 1]) :=
  ⟨_, rfl, rfl, fun h => absurd h.response (by decide)⟩

theorem lookup_of_a_return_answered :
    ∃ lookup, asyncLookupAndPrefetch [10, 11] [0, 256, 300] 1 true twoTiers = .ok lookup ∧
      ∀ (outcomes : List (Option (List Nat))) (order : List Nat),
        outcomes.length = lookup.loadingTasks.length →
        order.Perm (List.range outcomes.length) →
        (Answered lookup [0, 256, 300] 1 outcomes (lookup.run [0, 256, 300] 1 outcomes order) ↔
          none ∉ outcomes) :=
  answered_iff_none_raises (by decide) (by decide) (by decide) true twoTiers

end LMCache.Storage
