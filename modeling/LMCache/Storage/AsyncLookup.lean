import Mathlib.Data.List.Forall2
import Mathlib.Data.List.TakeDrop
import Mathlib.Order.Bounds.Basic

/-!
# Asynchronous lookup and prefetch

`async_lookup_and_prefetch` asks one backend after the other for the keys that the backends
before it left, and `prefetch_all_done_callback` counts the whole chunks that were loaded
without a gap. The scheduler hears of these, and the objects behind them are given back.
-/

namespace LMCache.Storage

open List Nat

variable {K V : Type}

/-- `batched_async_contains` of a backend: how many leading keys it has. -/
structure AsyncBackend (K : Type) where
  batchedAsyncContains : List K → Nat
  contains_le : ∀ keys, batchedAsyncContains keys ≤ keys.length

/-- One call of `batched_get_non_blocking`. -/
structure LoadingTask (K : Type) where
  backend : String
  keys : List K
  cumChunkLengths : List Nat
  numHitChunks : Nat

/-- The loop of `async_lookup_and_prefetch`, with the pins that the backends took and gave
back. -/
structure AsyncLookup (K : Type) where
  keys : List K
  cumChunkLengths : List Nat
  numTotalHitChunks : Nat
  loadingTasks : List (LoadingTask K)
  pinned : List (String × K)
  unpinned : List (String × K)

/-- The pins of one `batched_async_contains`. Those behind the whole chunks are given back. -/
def AsyncLookup.takePins (s : AsyncLookup K) (pin : Bool) (name : String)
    (numHitKeysRaw numHitKeys : Nat) : AsyncLookup K :=
  let hits := (s.keys.take numHitKeysRaw).map (name, ·)
  { s with
    pinned := if pin then s.pinned ++ hits else s.pinned
    unpinned := if pin && numHitKeys < numHitKeysRaw then s.unpinned ++ hits.drop numHitKeys
      else s.unpinned }

def AsyncLookup.load (s : AsyncLookup K) (name : String) (numHitChunks numHitKeys : Nat) :
    AsyncLookup K :=
  { s with
    numTotalHitChunks := s.numTotalHitChunks + numHitChunks
    loadingTasks := s.loadingTasks ++ [⟨name, s.keys.take numHitKeys,
      s.cumChunkLengths.take (numHitChunks + 1), numHitChunks⟩]
    cumChunkLengths := s.cumChunkLengths.drop numHitChunks }

def lookupTiers (keysPerChunk numTotalChunks : Nat) (pin : Bool) :
    List (String × AsyncBackend K) → AsyncLookup K → AsyncLookup K
  | [], s => s
  | (name, backend) :: rest, s =>
    let numHitKeysRaw := backend.batchedAsyncContains s.keys
    let numHitChunks := numHitKeysRaw / keysPerChunk
    let numHitKeys := numHitChunks * keysPerChunk
    let s := s.takePins pin name numHitKeysRaw numHitKeys
    if numHitChunks = 0 then lookupTiers keysPerChunk numTotalChunks pin rest s
    else
      let s := s.load name numHitChunks numHitKeys
      if s.numTotalHitChunks = numTotalChunks then s
      else lookupTiers keysPerChunk numTotalChunks pin rest
        { s with keys := s.keys.drop numHitKeys }

/-- `async_lookup_and_prefetch` to the point where its tasks run. -/
def asyncLookupAndPrefetch (keys : List K) (cumChunkLengths : List Nat) (keysPerChunk : Nat)
    (pin : Bool) (backends : List (String × AsyncBackend K)) : Except String (AsyncLookup K) :=
  if keysPerChunk < 1 then .error s!"keys_per_chunk must be >= 1, got {keysPerChunk}"
  else if keys.length % keysPerChunk ≠ 0 then
    .error s!"len(keys)={keys.length} is not a multiple of keys_per_chunk={keysPerChunk}"
  else .ok (lookupTiers keysPerChunk (keys.length / keysPerChunk) pin backends
    ⟨keys, cumChunkLengths, 0, [], [], []⟩)

def gatherWithKeys (tasks : List (LoadingTask K)) (loadingResults : List (List V)) :
    List (List (K × V)) :=
  List.zipWith (fun task results => task.keys.zip results) tasks loadingResults

/-- The loop of `prefetch_all_done_callback` over the tiers and what each was expected to
load: the chunks counted, and the objects given back. -/
def countTiers (keysPerChunk : Nat) : List (List (K × V) × Nat) → Nat → Nat × List V
  | [], total => (total, [])
  | (tierResult, expectedChunks) :: rest, total =>
    let actualChunks := tierResult.length / keysPerChunk
    let tail := (tierResult.drop (actualChunks * keysPerChunk)).map Prod.snd
    if actualChunks < expectedChunks then
      (total + actualChunks, tail ++ (rest.flatMap Prod.fst).map Prod.snd)
    else
      let (total, released) := countTiers keysPerChunk rest (total + actualChunks)
      (total, tail ++ released)

/-- The length sent to the scheduler, if the index is in range, and the objects given back. -/
def prefetchAllDoneCallback (res : List (List (K × V))) (cumChunkLengthsTotal : List Nat)
    (tierExpectedChunks : List Nat) (keysPerChunk : Nat) : Option Nat × List V :=
  let (total, released) := countTiers keysPerChunk (res.zip tierExpectedChunks) 0
  (cumChunkLengthsTotal[total]?, released)

/-- What becomes of the lookup when its tasks are done; without a task it answers at once. -/
def AsyncLookup.respond (lookup : AsyncLookup K) (cumChunkLengths : List Nat)
    (keysPerChunk : Nat) (loadingResults : List (List V)) : Option Nat × List V :=
  if lookup.numTotalHitChunks = 0 then (some 0, [])
  else prefetchAllDoneCallback (gatherWithKeys lookup.loadingTasks loadingResults) cumChunkLengths
    (lookup.loadingTasks.map (·.numHitChunks)) keysPerChunk

/-- The loads of the backends when the ones before them hit `n` chunks: each is asked for the
whole chunks that it reports of the keys behind these. -/
def plannedTasks (keysPerChunk : Nat) (keys : List K) (cumChunkLengths : List Nat) :
    Nat → List (String × AsyncBackend K) → List (LoadingTask K)
  | _, [] => []
  | n, (name, backend) :: rest =>
    let left := keys.drop (n * keysPerChunk)
    let m := backend.batchedAsyncContains left / keysPerChunk
    let later := plannedTasks keysPerChunk keys cumChunkLengths (n + m) rest
    if m = 0 then later
    else ⟨name, left.take (m * keysPerChunk), (cumChunkLengths.drop n).take (m + 1), m⟩ :: later

variable {keysPerChunk numTotalChunks n : Nat} {keys : List K} {cumChunkLengths : List Nat}
  {pin : Bool} {backends : List (String × AsyncBackend K)} {s : AsyncLookup K}

theorem AsyncBackend.contains_nil (backend : AsyncBackend K) :
    backend.batchedAsyncContains [] = 0 := le_zero.mp (backend.contains_le [])

theorem plannedTasks_exhausted (h : keys.drop (n * keysPerChunk) = []) :
    plannedTasks keysPerChunk keys cumChunkLengths n backends = [] := by
  induction backends with
  | nil => rfl
  | cons b rest ih =>
    simp only [plannedTasks, h, AsyncBackend.contains_nil, Nat.zero_div, if_pos, Nat.add_zero, ih]

def asked (tasks : List (LoadingTask K)) : List (String × K) :=
  tasks.flatMap fun task => task.keys.map (task.backend, ·)

/-- The loop after backends that hit `n` chunks. -/
structure AsyncLookup.After (s : AsyncLookup K) (keysPerChunk : Nat) (pin : Bool) (keys : List K)
    (n : Nat) : Prop where
  counted : s.numTotalHitChunks = n
  within : n * keysPerChunk ≤ keys.length
  tasks_keys : s.loadingTasks.flatMap (·.keys) = keys.take (n * keysPerChunk)
  whole : ∀ task ∈ s.loadingTasks, task.keys.length = task.numHitChunks * keysPerChunk
  pins : if pin then s.pinned.Perm (asked s.loadingTasks ++ s.unpinned)
    else s.pinned = [] ∧ s.unpinned = []

/-- The backend is asked for `hit` of the keys that it pinned, and the rest is given back. -/
theorem pins_of_hit {tasks tasks' : List (LoadingTask K)} {name : String} {raw hit : Nat}
    (hPins : if pin then s.pinned.Perm (asked tasks ++ s.unpinned)
      else s.pinned = [] ∧ s.unpinned = []) (hHit : hit ≤ raw)
    (hTasks : asked tasks' = asked tasks ++ (s.keys.take hit).map (name, ·)) :
    if pin then (s.takePins pin name raw hit).pinned.Perm
        (asked tasks' ++ (s.takePins pin name raw hit).unpinned)
      else (s.takePins pin name raw hit).pinned = [] ∧
        (s.takePins pin name raw hit).unpinned = [] := by
  cases pin with
  | false => exact hPins
  | true =>
    rw [if_pos rfl] at hPins ⊢
    let hits := (s.keys.take raw).map (name, ·)
    have hAsked : (s.keys.take hit).map (name, ·) = hits.take hit := by
      rw [← map_take, take_take, min_eq_left hHit]
    have hGiven : (s.takePins true name raw hit).unpinned = s.unpinned ++ hits.drop hit := by
      by_cases hLess : hit < raw
      · simp only [AsyncLookup.takePins, hLess, decide_true, Bool.and_self, if_pos, hits]
      · have hNone : hits.drop hit = [] := by
          refine drop_eq_nil_of_le ?_
          rw [length_map, length_take]
          omega
        simp [AsyncLookup.takePins, hLess, hNone]
    rw [hTasks, hAsked, hGiven]
    have hSplit : (s.pinned ++ hits).Perm
        ((asked tasks ++ s.unpinned) ++ (hits.take hit ++ hits.drop hit)) := by
      rw [take_append_drop]
      exact hPins.append_right hits
    refine hSplit.trans ?_
    simp only [append_assoc]
    refine List.Perm.append_left _ ?_
    rw [← append_assoc, ← append_assoc]
    exact perm_append_comm.append_right _

theorem AsyncLookup.After.tiers (h : s.After keysPerChunk pin keys n)
    (hKeys : s.keys = keys.drop (n * keysPerChunk))
    (hCum : s.cumChunkLengths = cumChunkLengths.drop n)
    (hTotal : keys.length = numTotalChunks * keysPerChunk) :
    (∃ n', (lookupTiers keysPerChunk numTotalChunks pin backends s).After
      keysPerChunk pin keys n') ∧
    (lookupTiers keysPerChunk numTotalChunks pin backends s).loadingTasks =
      s.loadingTasks ++ plannedTasks keysPerChunk keys cumChunkLengths n backends := by
  induction backends generalizing s n with
  | nil => exact ⟨⟨n, h⟩, (append_nil _).symm⟩
  | cons b rest ih =>
    obtain ⟨name, backend⟩ := b
    have hContains := backend.contains_le s.keys
    unfold lookupTiers plannedTasks
    rw [← hKeys]
    dsimp only
    generalize hRaw : backend.batchedAsyncContains s.keys = raw at hContains
    generalize hHit : raw / keysPerChunk = m
    have hLe : m * keysPerChunk ≤ raw := hHit ▸ div_mul_le_self raw keysPerChunk
    by_cases hZero : m = 0
    · subst hZero
      rw [if_pos rfl, if_pos rfl]
      refine ih (s := s.takePins pin name raw (0 * keysPerChunk))
        ⟨h.counted, h.within, h.tasks_keys, h.whole, ?_⟩ hKeys hCum
      refine pins_of_hit h.pins hLe ?_
      rw [Nat.zero_mul]
      exact (append_nil _).symm
    · rw [if_neg hZero, if_neg hZero]
      have hLoaded : ((s.takePins pin name raw (m * keysPerChunk)).load name m
          (m * keysPerChunk)).loadingTasks = s.loadingTasks ++
            [⟨name, s.keys.take (m * keysPerChunk), (cumChunkLengths.drop n).take (m + 1), m⟩] := by
        rw [← hCum]
        rfl
      generalize hNext : (s.takePins pin name raw (m * keysPerChunk)).load name m
        (m * keysPerChunk) = next at hLoaded
      have hAfter : next.After keysPerChunk pin keys (n + m) := by
        refine ⟨?_, ?_, ?_, fun task hTask => ?_, ?_⟩
        · rw [← hNext, ← h.counted]
          rfl
        · rw [hKeys, length_drop] at hContains
          have hBefore := h.within
          rw [Nat.add_mul]
          omega
        · have hSplit : keys.take ((n + m) * keysPerChunk) =
              keys.take (n * keysPerChunk) ++ s.keys.take (m * keysPerChunk) := by
            rw [Nat.add_mul, take_add, ← hKeys]
          rw [hLoaded, flatMap_append, h.tasks_keys, hSplit]
          simp
        · rw [hLoaded] at hTask
          rcases mem_append.mp hTask with hOld | hNew
          · exact h.whole task hOld
          · rw [mem_singleton.mp hNew]
            exact length_take_of_le (hLe.trans hContains)
        · rw [← hNext]
          refine pins_of_hit h.pins hLe ?_
          simp [asked, AsyncLookup.load, AsyncLookup.takePins]
      by_cases hDone : n + m = numTotalChunks
      · rw [if_pos (by rw [hAfter.counted, hDone]), plannedTasks_exhausted]
        · exact ⟨⟨_, hAfter⟩, hLoaded⟩
        · rw [hDone, ← hTotal, drop_length]
      · rw [if_neg (by rw [hAfter.counted]; exact hDone)]
        have hAll := ih (s := { next with keys := s.keys.drop (m * keysPerChunk) }) (n := n + m)
          ⟨hAfter.counted, hAfter.within, hAfter.tasks_keys, hAfter.whole, hAfter.pins⟩
          (by rw [hKeys, drop_drop, Nat.add_mul])
          (by rw [← hNext, ← drop_drop, ← hCum]; rfl)
        rw [append_cons, ← hLoaded]
        subst hNext
        exact hAll

/-- The loaded objects with the positions of their keys in the request. -/
def loadedAt : Nat → List (LoadingTask K × List V) → List (Nat × V)
  | _, [] => []
  | start, (task, results) :: rest =>
    (results.zipIdx start).map Prod.swap ++ loadedAt (start + task.keys.length) rest

variable {objs : List V} {loads : List (LoadingTask K × List V)} {start p : Nat}

theorem mem_loadedAt_head :
    (∃ obj, (p, obj) ∈ (objs.zipIdx start).map Prod.swap) ↔
      start ≤ p ∧ p - start < objs.length := by
  simp only [mem_map, Prod.exists, Prod.swap_prod_mk, Prod.mk.injEq,
    mk_mem_zipIdx_iff_le_and_getElem?_sub]
  constructor
  · rintro ⟨obj, _, i, ⟨hStart, hAt⟩, rfl, rfl⟩
    exact ⟨hStart, (List.getElem?_eq_some_iff.mp hAt).1⟩
  · rintro ⟨hStart, hLess⟩
    exact ⟨_, _, p, ⟨hStart, getElem?_eq_getElem hLess⟩, rfl, rfl⟩

theorem start_le_of_mem_loadedAt {found : Nat × V} (h : found ∈ loadedAt start loads) :
    start ≤ found.1 := by
  induction loads generalizing start with
  | nil => cases h
  | cons load rest ih =>
    rcases mem_append.mp h with hHere | hLater
    · exact (mem_loadedAt_head.mp ⟨found.2, hHere⟩).1
    · exact (le_add_right _ _).trans (ih hLater)

theorem lt_of_mem_loadedAt (hLoads : ∀ load ∈ loads, load.2.length ≤ load.1.keys.length)
    {found : Nat × V} (h : found ∈ loadedAt start loads) :
    found.1 < start + (loads.flatMap fun load => load.1.keys).length := by
  induction loads generalizing start with
  | nil => cases h
  | cons load rest ih =>
    rw [flatMap_cons, length_append]
    rcases mem_append.mp h with hHere | hLater
    · have hInside := mem_loadedAt_head.mp ⟨found.2, hHere⟩
      have hPrefix := hLoads load (by simp)
      omega
    · have hLess := ih (fun load h => hLoads load (mem_cons_of_mem _ h)) hLater
      omega

theorem drop_eq_filter_zipIdx (a : Nat) :
    objs.drop a = (((objs.zipIdx start).map Prod.swap).filter
      fun found => start + a ≤ found.1).map Prod.snd := by
  induction objs generalizing start a with
  | nil => simp
  | cons obj rest ih =>
    cases a with
    | zero =>
      have hAll : ∀ found ∈ ((obj :: rest).zipIdx start).map Prod.swap,
          decide (start + 0 ≤ found.1) = true := fun found h =>
        decide_eq_true (mem_loadedAt_head.mp ⟨found.2, h⟩).1
      rw [filter_eq_self.mpr hAll, map_map]
      exact (zipIdx_map_fst start _).symm
    | succ a =>
      have hSum : start + (a + 1) = start + 1 + a := by omega
      rw [drop_succ_cons, zipIdx_cons, map_cons, filter_cons_of_neg, hSum]
      · exact ih a
      · simp

theorem map_snd_loadedAt : (loadedAt start loads).map Prod.snd = loads.flatMap Prod.snd := by
  induction loads generalizing start with
  | nil => rfl
  | cons load rest ih =>
    rw [loadedAt, map_append, ih, map_map, flatMap_cons]
    congr 1
    exact zipIdx_map_fst start _

/-- The chunks counted are the leading ones that were loaded whole, and what was loaded behind
them is given back. -/
theorem countTiers_spec (hPositive : 1 ≤ keysPerChunk) {total : Nat}
    (hLoads : ∀ load ∈ loads, load.2.length ≤ load.1.keys.length ∧
      load.1.keys.length = load.1.numHitChunks * keysPerChunk) :
    ∃ n released, countTiers keysPerChunk (loads.map fun load =>
        (load.1.keys.zip load.2, load.1.numHitChunks)) total = (n, released) ∧
      (∀ p, total * keysPerChunk ≤ p → p < n * keysPerChunk →
        ∃ obj, (p, obj) ∈ loadedAt (total * keysPerChunk) loads) ∧
      (∃ p, total * keysPerChunk ≤ p ∧ p < (n + 1) * keysPerChunk ∧
        ∀ obj, (p, obj) ∉ loadedAt (total * keysPerChunk) loads) ∧
      released = ((loadedAt (total * keysPerChunk) loads).filter
        fun found => n * keysPerChunk ≤ found.1).map Prod.snd := by
  induction loads generalizing total with
  | nil =>
    refine ⟨total, [], rfl, fun p hLow hHigh => absurd hHigh (not_lt.mpr hLow),
      ⟨total * keysPerChunk, le_refl _, ?_, fun _ => not_mem_nil⟩, rfl⟩
    rw [Nat.add_mul]
    omega
  | cons load rest ih =>
    obtain ⟨task, results⟩ := load
    obtain ⟨hPrefix, hKeys⟩ := hLoads (task, results) (by simp)
    dsimp only at hPrefix hKeys
    have hRest := fun load h => hLoads load (mem_cons_of_mem _ h)
    have hZip : (task.keys.zip results).length = results.length := by
      rw [length_zip, min_eq_right hPrefix]
    have hZipSnd : ∀ a, ((task.keys.zip results).drop a).map Prod.snd = results.drop a := by
      intro a
      rw [map_drop, map_snd_zip hPrefix]
    rw [map_cons, countTiers, hZip]
    dsimp only
    rw [hZipSnd]
    generalize hActual : results.length / keysPerChunk = actual
    have hDivided := div_add_mod results.length keysPerChunk
    have hRemainder := mod_lt results.length hPositive
    rw [hActual, Nat.mul_comm] at hDivided
    simp only [loadedAt, mem_append, exists_or, not_or, mem_loadedAt_head]
    by_cases hShort : actual < task.numHitChunks
    · have hGap : results.length < task.keys.length := by
        rw [hKeys, ← div_lt_iff_lt_mul hPositive, hActual]
        exact hShort
      rw [if_pos hShort]
      refine ⟨_, _, rfl, fun p hLow hHigh => Or.inl ⟨hLow, ?_⟩,
        ⟨total * keysPerChunk + results.length, le_add_right _ _, ?_, fun obj => ⟨?_, ?_⟩⟩, ?_⟩
      · rw [Nat.add_mul] at hHigh
        omega
      · rw [Nat.add_mul, Nat.add_mul]
        omega
      · intro hHere
        have hInside := (mem_loadedAt_head.mp ⟨obj, hHere⟩).2
        omega
      · intro hLater
        have hBehind := start_le_of_mem_loadedAt hLater
        dsimp only at hBehind
        omega
      · have hBehind : ∀ found ∈ loadedAt (total * keysPerChunk + task.keys.length) rest,
            decide ((total + actual) * keysPerChunk ≤ found.1) = true := by
          intro found hFound
          have hStart := start_le_of_mem_loadedAt hFound
          rw [decide_eq_true_eq, Nat.add_mul]
          omega
        have hRelease : ((rest.map fun load => (load.1.keys.zip load.2,
            load.1.numHitChunks)).flatMap Prod.fst).map Prod.snd = rest.flatMap Prod.snd := by
          rw [flatMap_map, map_flatMap]
          exact flatMap_congr fun load h => map_snd_zip (hRest load h).1
        rw [hRelease, filter_append, map_append, filter_eq_self.mpr hBehind,
          map_snd_loadedAt, Nat.add_mul, ← drop_eq_filter_zipIdx]
    · have hFull : results.length = task.keys.length ∧ actual = task.numHitChunks := by
        have hLe : actual ≤ task.numHitChunks := by
          rw [← hActual, div_le_iff_le_mul_add_pred hPositive, Nat.mul_comm, ← hKeys]
          omega
        have hEq : actual = task.numHitChunks := by omega
        rw [hEq, ← hKeys] at hDivided
        exact ⟨by omega, hEq⟩
      obtain ⟨hLength, rfl⟩ := hFull
      have hNext : total * keysPerChunk + task.keys.length =
          (total + task.numHitChunks) * keysPerChunk := by rw [Nat.add_mul, hKeys]
      obtain ⟨n, released, hRun, hLoaded, ⟨gap, hLow, hHigh, hGap⟩, hReleased⟩ :=
        @ih (total + task.numHitChunks) hRest
      have hMore : total + task.numHitChunks ≤ n := by
        have hLess := Nat.lt_of_mul_lt_mul_right (hLow.trans_lt hHigh)
        omega
      have hBefore := mul_le_mul_right keysPerChunk hMore
      have hNone : ((results.zipIdx (total * keysPerChunk)).map Prod.swap).filter
          (fun found => n * keysPerChunk ≤ found.1) = [] := by
        rw [filter_eq_nil_iff]
        intro found hFound
        have hInside := (mem_loadedAt_head.mp ⟨found.2, hFound⟩)
        rw [decide_eq_true_eq]
        omega
      rw [if_neg hShort, hRun, hNext]
      refine ⟨n, _, rfl, fun p hFrom hTo => ?_, ⟨gap, ?_, hHigh, fun obj => ⟨fun hHere => ?_,
        hGap obj⟩⟩, ?_⟩
      · by_cases hp : (total + task.numHitChunks) * keysPerChunk ≤ p
        · exact Or.inr (hLoaded p hp hTo)
        · exact Or.inl ⟨hFrom, by omega⟩
      · omega
      · have hInside := (mem_loadedAt_head.mp ⟨obj, hHere⟩).2
        omega
      · rw [filter_append, hNone, nil_append, ← hReleased, ← hKeys, ← hLength,
          drop_length, nil_append]

theorem zip_gatherWithKeys (tasks : List (LoadingTask K)) (loadingResults : List (List V)) :
    (gatherWithKeys tasks loadingResults).zip (tasks.map (·.numHitChunks)) =
      (tasks.zip loadingResults).map fun load =>
        (load.1.keys.zip load.2, load.1.numHitChunks) := by
  induction tasks generalizing loadingResults with
  | nil => rfl
  | cons task rest ih =>
    cases loadingResults with
    | nil => rfl
    | cons results later => exact congrArg _ (ih later)

theorem asyncLookupAndPrefetch_eq (hPositive : 1 ≤ keysPerChunk)
    (hWhole : keys.length % keysPerChunk = 0) (cumChunkLengths : List Nat) (pin : Bool)
    (backends : List (String × AsyncBackend K)) :
    ∃ lookup n, asyncLookupAndPrefetch keys cumChunkLengths keysPerChunk pin backends =
        .ok lookup ∧ lookup.After keysPerChunk pin keys n ∧
      lookup.loadingTasks = plannedTasks keysPerChunk keys cumChunkLengths 0 backends := by
  have hTotal : keys.length = keys.length / keysPerChunk * keysPerChunk :=
    (Nat.div_mul_cancel (dvd_of_mod_eq_zero hWhole)).symm
  have hStart : (⟨keys, cumChunkLengths, 0, [], [], []⟩ : AsyncLookup K).After
      keysPerChunk pin keys 0 :=
    ⟨rfl, by simp, by simp, by simp, by cases pin <;> simp [asked]⟩
  have hLater : cumChunkLengths = cumChunkLengths.drop 0 := rfl
  obtain ⟨⟨n, hAfter⟩, hTasks⟩ := hStart.tiers (by simp) hLater hTotal
  refine ⟨_, n, ?_, hAfter, hTasks⟩
  rw [asyncLookupAndPrefetch, if_neg (not_lt.mpr hPositive), if_neg (not_not.mpr hWhole)]

/-- The tasks ask for the leading keys one after the other, every pin is on a key asked for or
given back, and the scheduler hears of the longest loaded prefix. -/
theorem prefetched_prefix (hPositive : 1 ≤ keysPerChunk)
    (hWhole : keys.length % keysPerChunk = 0)
    (hCum : cumChunkLengths.length = keys.length / keysPerChunk + 1)
    (hZero : cumChunkLengths[0]? = some 0) (pin : Bool)
    (backends : List (String × AsyncBackend K)) :
    ∃ lookup, asyncLookupAndPrefetch keys cumChunkLengths keysPerChunk pin backends = .ok lookup ∧
      lookup.loadingTasks = plannedTasks keysPerChunk keys cumChunkLengths 0 backends ∧
      lookup.loadingTasks.flatMap (·.keys) =
        keys.take (lookup.numTotalHitChunks * keysPerChunk) ∧
      (if pin then lookup.pinned.Perm (asked lookup.loadingTasks ++ lookup.unpinned)
        else lookup.pinned = [] ∧ lookup.unpinned = []) ∧
      ∀ loadingResults : List (List V),
        List.Forall₂ (fun task results => results.length ≤ task.keys.length)
          lookup.loadingTasks loadingResults →
        ∃ n length, IsGreatest {n | ∀ p < n * keysPerChunk, ∃ obj,
            (p, obj) ∈ loadedAt 0 (lookup.loadingTasks.zip loadingResults)} n ∧
          cumChunkLengths[n]? = some length ∧
          lookup.respond cumChunkLengths keysPerChunk loadingResults =
            (some length, ((loadedAt 0 (lookup.loadingTasks.zip loadingResults)).filter
              fun found => n * keysPerChunk ≤ found.1).map Prod.snd) := by
  obtain ⟨lookup, hits, hRun, hAfter, hTasks⟩ :=
    asyncLookupAndPrefetch_eq hPositive hWhole cumChunkLengths pin backends
  refine ⟨lookup, hRun, hTasks, ?_, hAfter.pins, fun loadingResults hResults => ?_⟩
  · rw [hAfter.counted]
    exact hAfter.tasks_keys
  obtain ⟨hLength, hPrefix⟩ := List.forall₂_iff_zip.mp hResults
  generalize hPairs : lookup.loadingTasks.zip loadingResults = loads at hPrefix
  have hFst : loads.map Prod.fst = lookup.loadingTasks := by
    rw [← hPairs, List.map_fst_zip hLength.le]
  have hLoads : ∀ load ∈ loads, load.2.length ≤ load.1.keys.length ∧
      load.1.keys.length = load.1.numHitChunks * keysPerChunk := fun load h =>
    ⟨hPrefix h, hAfter.whole _ (hFst ▸ List.mem_map_of_mem h)⟩
  have hKeys : (loads.flatMap fun load => load.1.keys) = keys.take (hits * keysPerChunk) := by
    rw [← hAfter.tasks_keys, ← hFst, List.flatMap_map]
  have hInside : ∀ p obj, (p, obj) ∈ loadedAt 0 loads → p < hits * keysPerChunk := by
    intro p obj hFound
    have hLess := lt_of_mem_loadedAt (fun load h => (hLoads load h).1) hFound
    rwa [hKeys, List.length_take_of_le hAfter.within, Nat.zero_add] at hLess
  obtain ⟨n, released, hCount, hLoaded, ⟨gap, -, hHigh, hGap⟩, hReleased⟩ :=
    @countTiers_spec _ _ _ _ hPositive 0 hLoads
  rw [Nat.zero_mul] at hLoaded hGap hReleased
  have hGreatest :
      IsGreatest {n | ∀ p < n * keysPerChunk, ∃ obj, (p, obj) ∈ loadedAt 0 loads} n := by
    refine ⟨fun p hp => hLoaded p (zero_le p) hp, fun m hm => ?_⟩
    by_contra hMore
    have hBeyond := mul_le_mul_right keysPerChunk (not_le.mp hMore)
    obtain ⟨obj, hFound⟩ := hm gap (hHigh.trans_le hBeyond)
    exact hGap obj hFound
  have hWithin : n ≤ hits := by
    by_contra hMore
    obtain ⟨obj, hFound⟩ := hLoaded (hits * keysPerChunk) (zero_le _)
      (Nat.mul_lt_mul_of_pos_right (not_le.mp hMore) hPositive)
    exact lt_irrefl _ (hInside _ obj hFound)
  by_cases hNone : hits = 0
  · have hEmpty : loadedAt 0 loads = [] := by
      refine List.eq_nil_iff_forall_not_mem.mpr fun found hFound => ?_
      have hLess := hInside found.1 found.2 hFound
      rw [hNone, Nat.zero_mul] at hLess
      exact not_lt_zero _ hLess
    obtain rfl : n = 0 := by omega
    refine ⟨0, 0, hGreatest, hZero, ?_⟩
    rw [AsyncLookup.respond, if_pos (hAfter.counted.trans hNone), hEmpty]
    rfl
  · have hIndex : n < cumChunkLengths.length := by
      have hHits := (le_div_iff_mul_le hPositive).mpr hAfter.within
      omega
    refine ⟨n, _, hGreatest, List.getElem?_eq_getElem hIndex, ?_⟩
    rw [AsyncLookup.respond, if_neg (by rw [hAfter.counted]; exact hNone), prefetchAllDoneCallback,
      zip_gatherWithKeys, hPairs, hCount, ← hReleased, ← List.getElem?_eq_getElem hIndex]

/-- The first tier pins a key too many, and the second loads one key of its chunk: the scheduler
hears of the first chunk, and that key is released. -/
theorem prefetched_prefix_of_two_tiers :
    ∃ lookup, asyncLookupAndPrefetch [10, 11, 12, 13] [0, 256, 300] 2 true
        [("LocalCPUBackend", ⟨fun keys => min 3 keys.length, fun _ => min_le_right _ _⟩),
          ("LocalDiskBackend", ⟨List.length, fun _ => le_refl _⟩)] = .ok lookup ∧
      lookup.loadingTasks.flatMap (·.keys) = [10, 11, 12, 13].take (lookup.numTotalHitChunks * 2) ∧
      lookup.pinned.Perm (asked lookup.loadingTasks ++ lookup.unpinned) ∧
      IsGreatest {n | ∀ p < n * 2, ∃ obj, (p, obj) ∈
        loadedAt 0 (lookup.loadingTasks.zip [["a", "b"], ["c"]])} 1 ∧
      lookup.respond [0, 256, 300] 2 [["a", "b"], ["c"]] = (some 256, ["c"]) := by
  obtain ⟨lookup, hLookup, hTasks, hKeys, hPins, hRespond⟩ := prefetched_prefix (V := String)
    (by decide : 1 ≤ 2) (rfl : [10, 11, 12, 13].length % 2 = 0)
    (rfl : [0, 256, 300].length = [10, 11, 12, 13].length / 2 + 1) rfl true
    [("LocalCPUBackend", ⟨fun keys => min 3 keys.length, fun _ => min_le_right _ _⟩),
      ("LocalDiskBackend", ⟨List.length, fun _ => le_refl _⟩)]
  cases hLookup
  obtain ⟨n, length, hGreatest, hLength, hResponse⟩ := hRespond [["a", "b"], ["c"]]
    (.cons (by decide) (.cons (by decide) .nil))
  have hAnswer : (some length, _) = (some 256, ["c"]) := hResponse.symm.trans rfl
  obtain rfl : n = 1 := by
    have hSome : [0, 256, 300][n]? = some 256 := hLength.trans (congrArg Prod.fst hAnswer)
    rcases n with _ | _ | _ | n
    · cases hSome
    · rfl
    · cases hSome
    · cases hSome
  exact ⟨_, rfl, hKeys, hPins, hGreatest, rfl⟩

end LMCache.Storage
