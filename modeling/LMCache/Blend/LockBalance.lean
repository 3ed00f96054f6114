import LMCache.Blend.LookupRuns

/-!
# The lock balance of a blend lookup

Once a lookup has returned its result, the read locks of its sparse leg are those on the loaded
keys, and the stash has the keys of the chunks of which every key was loaded. The two agree
exactly when the storage manager loaded, of every chunk it was asked for, all keys or none.
-/

namespace LMCache.Blend

open Lib List Dict
open Serde (ObjectKey)

variable {acc : List CBMatchResult × Int}

theorem foldl_keep_ne_nil (l : List CBMatchResult) (h : acc.1 ≠ []) :
    (l.foldl nonOverlappingAfterPrefix.keep acc).1 ≠ [] := by
  induction l generalizing acc with
  | nil => exact h
  | cons r l ih =>
    refine ih ?_
    unfold nonOverlappingAfterPrefix.keep
    split
    · simp
    · exact h

variable {r : CBMatchResult}

theorem mem_of_mem_foldl_keep {l : List CBMatchResult}
    (h : r ∈ (l.foldl nonOverlappingAfterPrefix.keep acc).1) : r ∈ acc.1 ∨ r ∈ l := by
  induction l generalizing acc with
  | nil => exact Or.inl h
  | cons a l ih =>
    rcases ih h with hAcc | hRest
    · unfold nonOverlappingAfterPrefix.keep at hAcc
      split at hAcc
      · rcases mem_append.mp hAcc with hOld | hNew
        · exact Or.inl hOld
        · exact Or.inr (mem_cons.mpr (Or.inl (mem_singleton.mp hNew)))
      · exact Or.inl hAcc
    · exact Or.inr (mem_cons_of_mem a hRest)

theorem mem_of_mem_nonOverlappingAfterPrefix {found : List CBMatchResult} {prefixTokens : Int}
    (h : r ∈ nonOverlappingAfterPrefix found prefixTokens) : r ∈ found := by
  rcases mem_of_mem_foldl_keep h with hNever | hSorted
  · cases hNever
  · exact (mem_filter.mp ((mem_insertionSort _).mp hSorted)).1

theorem nonOverlappingAfterPrefix_eq_nil {found : List CBMatchResult} {prefixTokens : Nat}
    (hOutside : ∀ r ∈ found, (prefixTokens : Int) ≤ r.curSt)
    (h : nonOverlappingAfterPrefix found prefixTokens = []) : found = [] := by
  have hAll : (found.filter fun r => (prefixTokens : Int) ≤ r.curSt) = found :=
    filter_eq_self.mpr fun r hr => decide_eq_true (hOutside r hr)
  rw [nonOverlappingAfterPrefix, hAll] at h
  cases hSorted : found.insertionSort fun a b => a.curSt ≤ b.curSt with
  | nil => exact eq_nil_of_length_eq_zero (by
      rw [← length_insertionSort (fun a b : CBMatchResult => a.curSt ≤ b.curSt), hSorted]
      rfl)
  | cons r rest =>
    have hMem : r ∈ found :=
      (mem_insertionSort (fun a b : CBMatchResult => a.curSt ≤ b.curSt)).mp (by simp [hSorted])
    have hFirst : (-1 : Int) ≤ r.curSt :=
      Int.le_trans (by omega) (hOutside r hMem)
    rw [hSorted, foldl_cons, nonOverlappingAfterPrefix.keep, if_pos hFirst] at h
    exact absurd h (foldl_keep_ne_nil rest (by simp))

/-- What holds of a leg and a job between two polls. -/
structure JobOk (cfg : BlendConfig) (leg : SparseLeg) (job : CBUnifiedJob) : Prop where
  pending : job.foundUidx = none
  notStarted : job.handle = none → leg = SparseLeg.new
  started : ∀ handle, job.handle = some handle → job.sparseStarted = true ∧
    UnderWay leg handle ∧ (∃ keysOf width, Submission leg job keysOf width) ∧
    ∃ leading : Nat, job.prefixChunks = some leading ∧
      ∀ r ∈ job.nonPrefix, ((leading * cfg.chunkSize : Nat) : Int) ≤ r.curSt

theorem jobOk_of_no_handle {cfg : BlendConfig} {job : CBUnifiedJob}
    (hPending : job.foundUidx = none) (hHandle : job.handle = none) :
    JobOk cfg SparseLeg.new job where
  pending := hPending
  notStarted _ := rfl
  started handle h := by
    rw [hHandle] at h
    cases h

theorem jobOk_openJob {cfg : BlendConfig} {inputs : PollInputs} {job : CBUnifiedJob}
    (h : openJob cfg inputs = .ok job) : JobOk cfg SparseLeg.new job := by
  obtain ⟨resolved, -, hRest⟩ := bind_eq_ok.mp h
  obtain ⟨-, -, hJob⟩ := bind_eq_ok.mp hRest
  cases hJob
  exact jobOk_of_no_handle rfl rfl

theorem JobOk.pollPrefixLeg {cfg : BlendConfig} {leg : SparseLeg} {job job' : CBUnifiedJob}
    {inputs : PollInputs} {leading : Nat} (h : JobOk cfg leg job)
    (hPoll : job.pollPrefixLeg inputs = some (leading, job')) :
    JobOk cfg leg job' ∧ job'.prefixChunks = some leading := by
  unfold CBUnifiedJob.pollPrefixLeg at hPoll
  split at hPoll
  · rename_i leading' hLanded
    cases hPoll
    exact ⟨h, hLanded⟩
  · rename_i hLoading
    split at hPoll
    · cases hPoll
    · cases hPoll
      cases hHandle : job.handle with
      | none =>
        rw [h.notStarted hHandle]
        exact ⟨jobOk_of_no_handle h.pending rfl, rfl⟩
      | some handle =>
        obtain ⟨-, -, -, leading', hLanded, -⟩ := h.started handle hHandle
        rw [hLoading] at hLanded
        cases hLanded

theorem curSt_nonPrefixOf {cfg : BlendConfig} {job : CBUnifiedJob} {leading : Nat}
    {candidates : List CBMatchResult} (h : r ∈ job.nonPrefixOf cfg leading candidates) :
    ((leading * cfg.chunkSize : Nat) : Int) ≤ r.curSt := by
  have hBound := (mem_filter.mp h).2
  rw [Nat.cast_mul]
  exact of_decide_eq_true hBound

namespace BlendModule

structure StartsLeg (cfg : BlendConfig) (rid : String) (leading : Nat) (s t : BlendModule)
    (job : CBUnifiedJob) : Prop where
  jobs : t.cbJobs = s.cbJobs
  stash : t.lookupObjKeysCache = s.lookupObjKeysCache
  ok : JobOk cfg (t.legs rid) job
  landed : job.prefixChunks = some leading

theorem startsLeg_startSparseLeg {cfg : BlendConfig} {key : IPCCacheServerKey}
    {inputs : PollInputs} {leading : Nat} {s : BlendModule} {job : CBUnifiedJob}
    (h : JobOk cfg (s.legs key.requestId) job) (hLanded : job.prefixChunks = some leading)
    {t : BlendModule} {job' : CBUnifiedJob} {answer : Result Bool}
    (hStart : s.startSparseLeg cfg key inputs leading job = (t, job', answer)) :
    StartsLeg cfg key.requestId leading s t job' := by
  unfold startSparseLeg at hStart
  split at hStart
  · cases hStart
    exact ⟨rfl, rfl, h, hLanded⟩
  rename_i hNotStarted
  have hHandle : job.handle = none := by
    cases hHandle : job.handle with
    | none => rfl
    | some handle => exact absurd (h.started handle hHandle).1 hNotStarted
  have hNew := h.notStarted hHandle
  split at hStart
  · cases hStart
    exact ⟨rfl, rfl, h, hLanded⟩
  dsimp only at hStart
  split at hStart
  · cases hStart
    exact ⟨rfl, rfl, hNew ▸ jobOk_of_no_handle h.pending hHandle, hLanded⟩
  rename_i candidates hCandidates hNonPrefix
  split at hStart
  · cases hStart
    exact ⟨rfl, rfl, hNew ▸ jobOk_of_no_handle h.pending hHandle, hLanded⟩
  · cases hStart
    exact ⟨rfl, rfl, hNew ▸ jobOk_of_no_handle h.pending hHandle, hLanded⟩
  · rename_i read hResolved
    rw [hNew] at hStart
    obtain ⟨leg, handle, perHash, expanded, hSubmit⟩ : ∃ leg handle perHash expanded,
        sparsePrefetchSubmit SparseLeg.new key read inputs
          (job.nonPrefixOf cfg leading candidates) = (leg, handle, perHash, expanded) :=
      ⟨_, _, _, _, rfl⟩
    rw [hSubmit] at hStart
    cases hStart
    obtain ⟨hUnderWay, hSubmission⟩ := submission_sparsePrefetchSubmit key read inputs
      { job with nonPrefix := job.nonPrefixOf cfg leading candidates }
      (by simpa using hNonPrefix) hSubmit
    refine ⟨rfl, rfl, ?_, hLanded⟩
    rw [legs_setLeg]
    refine ⟨h.pending, fun hNone => ?_, fun handle' hHandle' => ?_⟩
    · cases hNone
    · cases hHandle'
      exact ⟨rfl, hUnderWay, ⟨_, _, hSubmission⟩, leading, hLanded,
        fun r hr => curSt_nonPrefixOf hr⟩

def stashedKeys (s : BlendModule) (rid : String) : List ObjectKey :=
  match s.lookupObjKeysCache.get? rid with
  | none => []
  | some stash => stash.values.flatten

variable {k : ObjectKey}

theorem mem_stashedKeys {s : BlendModule} {rid : String} :
    k ∈ s.stashedKeys rid ↔ ∃ stash h keys, s.lookupObjKeysCache.get? rid = some stash ∧
      stash.get? h = some keys ∧ k ∈ keys := by
  unfold stashedKeys
  cases hStash : s.lookupObjKeysCache.get? rid with
  | none => simp
  | some stash =>
    simp only [mem_flatten, mem_values_iff]
    constructor
    · rintro ⟨keys, ⟨h, hGet⟩, hk⟩
      exact ⟨stash, h, keys, rfl, hGet, hk⟩
    · rintro ⟨stash', h, keys, hEq, hGet, hk⟩
      cases hEq
      exact ⟨keys, ⟨h, hGet⟩, hk⟩

/-- How a lookup that returned `result` leaves the leg and the stash of its request: the leg
was over the keys of `chunks`, and the keys of the completely loaded ones are stashed. -/
structure Settled (t : BlendModule) (rid : String) (result : CBUnifiedLookupResult)
    (chunks : List CBMatchResult) (keysOf : Bytes → List ObjectKey) : Prop where
  chunkHash : ∀ h, ∀ k ∈ keysOf h, k.chunkHash = h
  mem_asked : ∀ k, k ∈ (t.legs rid).asked ↔ ∃ r ∈ chunks, k ∈ keysOf r.hash
  locked : Locked (t.legs rid)
  mem_stashedKeys : ∀ k, k ∈ t.stashedKeys rid ↔
    ∃ r ∈ chunks, (∀ k' ∈ keysOf r.hash, k' ∈ (t.legs rid).loaded) ∧ k ∈ keysOf r.hash
  kept : result.nonPrefixSegments = [] → t.stashedKeys rid = []
  stashed : ∀ m ∈ result.nonPrefixSegments, ∃ stash,
    t.lookupObjKeysCache.get? rid = some stash ∧ stash.contains m.hash = true

section Classify

variable {cfg : BlendConfig} {key : IPCCacheServerKey} {inputs : PollInputs} {s t : BlendModule}
  {job : CBUnifiedJob} {found foundUidx : List Nat} {fetched : List CBMatchResult}
  {keysOf : Bytes → List ObjectKey} {width : Nat}

theorem mem_sparseClassify (hSubmission : Submission (s.legs key.requestId) job keysOf width)
    (hFoundUidx : job.foundUidx = some found)
    (hFound : ∀ u k, (s.legs key.requestId).asked[u]? = some k →
      (u ∈ found ↔ k ∈ (s.legs key.requestId).loaded))
    (hClassify : s.sparseClassify key inputs job = (t, fetched)) (r : CBMatchResult) :
    r ∈ fetched ↔ r ∈ job.nonPrefix ∧ ∀ k ∈ keysOf r.hash, k ∈ (s.legs key.requestId).loaded := by
  have hChunks := length_pos_iff.mpr hSubmission.nonPrefix
  obtain ⟨-, rfl⟩ := Prod.mk.inj hClassify
  rw [hFoundUidx, hSubmission.length_expandedUidx, Nat.mul_div_cancel_left _ hChunks]
  simp only [Option.getD_some, mem_map, mem_filter, Prod.exists, mem_zipIdx_iff_getElem?]
  constructor
  · rintro ⟨r', j, ⟨hAt, hIs⟩, rfl⟩
    exact ⟨mem_of_getElem? hAt, (hSubmission.chunkFound_iff hFound hAt).mp hIs⟩
  · rintro ⟨hMem, hAll⟩
    obtain ⟨j, hAt⟩ := getElem?_of_mem hMem
    exact ⟨r, j, ⟨hAt, (hSubmission.chunkFound_iff hFound hAt).mpr hAll⟩, rfl⟩

theorem cache_sparseClassify (hSubmission : Submission (s.legs key.requestId) job keysOf width)
    (hClassify : s.sparseClassify key inputs job = (t, fetched))
    (hFetched : ∀ r ∈ fetched, r ∈ job.nonPrefix) :
    t.lookupObjKeysCache = if fetched.isEmpty then s.lookupObjKeysCache
      else s.lookupObjKeysCache.set key.requestId
        (Dict.ofList (fetched.map fun r => (r.hash, keysOf r.hash))) := by
  have hEntries : (fetched.filterMap fun r =>
      (job.perHashObjKeys.get? r.hash).map fun keys => (r.hash, keys)) =
      fetched.map fun r => (r.hash, keysOf r.hash) := by
    rw [← filterMap_eq_map]
    refine filterMap_congr fun r hr => ?_
    rw [hSubmission.perHash r (hFetched r hr)]
    rfl
  rw [← hEntries]
  obtain ⟨rfl, rfl⟩ := Prod.mk.inj hClassify
  rfl

theorem stash_of_fetched (hCache : t.lookupObjKeysCache =
      if fetched.isEmpty then s.lookupObjKeysCache
      else s.lookupObjKeysCache.set key.requestId
        (Dict.ofList (fetched.map fun r => (r.hash, keysOf r.hash))))
    {r : CBMatchResult} (hr : r ∈ fetched) :
    t.lookupObjKeysCache.get? key.requestId =
      some (Dict.ofList (fetched.map fun r => (r.hash, keysOf r.hash))) ∧
    (Dict.ofList (fetched.map fun r => (r.hash, keysOf r.hash))).get? r.hash =
      some (keysOf r.hash) := by
  have hSome : ¬fetched.isEmpty = true := by
    rw [List.isEmpty_iff]
    rintro rfl
    cases hr
  refine ⟨by rw [hCache, if_neg hSome, get?_set, if_pos rfl], ?_⟩
  obtain ⟨keys, hGet⟩ := exists_get?_ofList (mem_map_of_mem
    (f := fun r : CBMatchResult => (r.hash, keysOf r.hash)) hr)
  obtain ⟨r', -, hEq⟩ := mem_map.mp (mem_of_get?_ofList hGet)
  obtain ⟨hHash, rfl⟩ := Prod.mk.inj hEq
  rw [hGet, hHash]

theorem mem_stashedKeys_of_cache (hEmpty : s.lookupObjKeysCache.get? key.requestId = none)
    (hCache : t.lookupObjKeysCache = if fetched.isEmpty then s.lookupObjKeysCache
      else s.lookupObjKeysCache.set key.requestId
        (Dict.ofList (fetched.map fun r => (r.hash, keysOf r.hash)))) (k : ObjectKey) :
    k ∈ t.stashedKeys key.requestId ↔ ∃ r ∈ fetched, k ∈ keysOf r.hash := by
  rw [BlendModule.mem_stashedKeys]
  constructor
  · rintro ⟨stash, h, keys, hStash, hGet, hk⟩
    cases fetched with
    | nil =>
      rw [hCache, isEmpty_nil, if_pos rfl, hEmpty] at hStash
      cases hStash
    | cons first rest =>
      rw [(stash_of_fetched hCache (mem_cons_self ..)).1] at hStash
      cases hStash
      obtain ⟨r, hr, hEq⟩ := mem_map.mp (mem_of_get?_ofList hGet)
      obtain ⟨rfl, rfl⟩ := Prod.mk.inj hEq
      exact ⟨r, hr, hk⟩
  · rintro ⟨r, hr, hk⟩
    obtain ⟨hStash, hGet⟩ := stash_of_fetched hCache hr
    exact ⟨_, r.hash, _, hStash, hGet, hk⟩

end Classify

section Finalize

variable {cfg : BlendConfig} {key : IPCCacheServerKey} {inputs : PollInputs} {leading : Nat}
  {s t u : BlendModule} {job job' : CBUnifiedJob} {result : CBUnifiedLookupResult}

theorem settled_without_leg (hHandle : job.handle = none)
    (hNew : s.legs key.requestId = SparseLeg.new)
    (hEmpty : s.lookupObjKeysCache.get? key.requestId = none)
    (hFinalize : s.finalizeLookup cfg key inputs leading job = (u, result)) :
    Settled u key.requestId result [] fun _ => [] := by
  have hSome : ¬job.handle.isSome = true := by simp [hHandle]
  dsimp only [finalizeLookup] at hFinalize
  rw [if_neg hSome] at hFinalize
  cases hFinalize
  have hStash :
      { s with cbJobs := s.cbJobs.erase key.requestId }.stashedKeys key.requestId = [] := by
    rw [stashedKeys, hEmpty]
  have hLeg : { s with cbJobs := s.cbJobs.erase key.requestId }.legs key.requestId =
      SparseLeg.new := hNew
  have hLocked : Locked SparseLeg.new := ⟨nodup_nil, nofun, fun _ => rfl⟩
  refine ⟨nofun, fun k => ?_, ?_, fun k => ?_, fun _ => hStash, nofun⟩
  · rw [hLeg]
    simp [SparseLeg.new]
  · rwa [hLeg]
  · simp [hStash]

theorem settled_of_landed {found : List Nat} {keysOf : Bytes → List ObjectKey} {width : Nat}
    (hHandle : job.handle.isSome = true) (hEmpty : s.lookupObjKeysCache.get? key.requestId = none)
    (hSubmission : Submission (s.legs key.requestId) job keysOf width)
    (hLocked : Locked (s.legs key.requestId)) (hFoundUidx : job.foundUidx = some found)
    (hFound : ∀ u k, (s.legs key.requestId).asked[u]? = some k →
      (u ∈ found ↔ k ∈ (s.legs key.requestId).loaded))
    (hOutside : ∀ r ∈ job.nonPrefix, ((leading * cfg.chunkSize : Nat) : Int) ≤ r.curSt)
    (hFinalize : s.finalizeLookup cfg key inputs leading job = (u, result)) :
    Settled u key.requestId result job.nonPrefix keysOf := by
  obtain ⟨t, fetched, hClassify⟩ : ∃ t fetched,
      s.sparseClassify key inputs job = (t, fetched) := ⟨_, _, rfl⟩
  have hLegs : t.legs = s.legs := (congrArg (fun p => p.1.legs) hClassify).symm
  have hFetched := mem_sparseClassify hSubmission hFoundUidx hFound hClassify
  have hCache := cache_sparseClassify hSubmission hClassify fun r hr => ((hFetched r).mp hr).1
  have hStash := mem_stashedKeys_of_cache hEmpty hCache
  dsimp only [finalizeLookup] at hFinalize
  rw [if_pos hHandle, hClassify] at hFinalize
  cases hFinalize
  have hSame : { t with cbJobs := t.cbJobs.erase key.requestId }.legs key.requestId =
      s.legs key.requestId := congrFun hLegs _
  refine ⟨hSubmission.chunkHash, ?_, ?_, fun k => ?_, fun hNone => ?_, fun m hm => ?_⟩
  · rw [hSame]
    exact hSubmission.mem_asked
  · rwa [hSame]
  · rw [hSame]
    refine (hStash k).trans ⟨?_, ?_⟩
    · rintro ⟨r, hr, hk⟩
      exact ⟨r, ((hFetched r).mp hr).1, ((hFetched r).mp hr).2, hk⟩
    · rintro ⟨r, hr, hAll, hk⟩
      exact ⟨r, (hFetched r).mpr ⟨hr, hAll⟩, hk⟩
  · have hNil : fetched = [] := by
      refine nonOverlappingAfterPrefix_eq_nil (fun r hr => hOutside r ((hFetched r).mp hr).1) ?_
      rwa [Nat.cast_mul]
    refine eq_nil_iff_forall_not_mem.mpr fun k hk => ?_
    obtain ⟨r, hr, -⟩ := (hStash k).mp hk
    rw [hNil] at hr
    cases hr
  · obtain ⟨hCached, hGet⟩ := stash_of_fetched hCache (mem_of_mem_nonOverlappingAfterPrefix hm)
    exact ⟨_, hCached, Dict.contains_iff.mpr ⟨_, hGet⟩⟩

theorem settled_finalizeLookup (h : JobOk cfg (s.legs key.requestId) job)
    (hEmpty : s.lookupObjKeysCache.get? key.requestId = none)
    (hLanded : job.prefixChunks = some leading)
    (hPoll : s.pollSparseLeg key inputs job = some (t, job'))
    (hFinalize : t.finalizeLookup cfg key inputs leading job' = (u, result)) :
    ∃ chunks keysOf, Settled u key.requestId result chunks keysOf := by
  unfold pollSparseLeg at hPoll
  rw [h.pending] at hPoll
  cases hHandle : job.handle with
  | none =>
    rw [hHandle] at hPoll
    cases hPoll
    exact ⟨_, _, settled_without_leg hHandle (h.notStarted hHandle) hEmpty hFinalize⟩
  | some handle =>
    obtain ⟨-, hUnderWay, ⟨keysOf, width, hSubmission⟩, leading', hLanded', hOutside⟩ :=
      h.started handle hHandle
    cases hLanded.symm.trans hLanded'
    rw [hHandle] at hPoll
    cases hQuery : queryPrefetchStatus (s.legs key.requestId) handle inputs.l2Result with
    | none => simp [hQuery] at hPoll
    | some done =>
      obtain ⟨leg, bitmap⟩ := done
      simp only [hQuery] at hPoll
      cases hPoll
      obtain ⟨hAsked, hLocked, hFound⟩ :=
        queryPrefetchStatus_spec hUnderWay hSubmission.nodup hQuery
      have hLeg := s.legs_setLeg key.requestId leg
      have hSubmission' : Submission ((s.setLeg key.requestId leg).legs key.requestId)
          { job with handle := some handle, foundUidx := some bitmap.getIndicesList }
            keysOf width := by
        rw [hLeg]
        exact { hSubmission with
          nodup := hAsked ▸ hSubmission.nodup
          mem_asked := hAsked ▸ hSubmission.mem_asked
          expandedUidx := hAsked ▸ hSubmission.expandedUidx }
      have hLocked' : Locked ((s.setLeg key.requestId leg).legs key.requestId) := by rwa [hLeg]
      have hEmpty' : (s.setLeg key.requestId leg).lookupObjKeysCache.get? key.requestId = none :=
        hEmpty
      refine ⟨_, keysOf, settled_of_landed rfl hEmpty' hSubmission' hLocked' rfl ?_ hOutside
        hFinalize⟩
      rw [hLeg, hAsked]
      exact hFound

end Finalize

structure Awaited (cfg : BlendConfig) (s : BlendModule) (rid : String) : Prop where
  stash : s.lookupObjKeysCache.get? rid = none
  idle : s.cbJobs.get? rid = none → s.legs rid = SparseLeg.new
  job : ∀ job, s.cbJobs.get? rid = some job → JobOk cfg (s.legs rid) job

section Polls

variable {cfg : BlendConfig} {rid : String} {s t : BlendModule}

theorem New.awaited (h : s.New rid) : Awaited cfg s rid where
  stash := h.stash
  idle _ := h.leg
  job job hJob := by
    rw [h.job] at hJob
    cases hJob

theorem Awaited.of_sameFor (h : Awaited cfg s rid) (hSame : SameFor rid s t) :
    Awaited cfg t rid where
  stash := hSame.stash.trans h.stash
  idle hNone := hSame.leg.trans (h.idle (hSame.job.symm.trans hNone))
  job job hJob := hSame.leg ▸ h.job job (hSame.job.symm.trans hJob)

theorem awaited_saveJob {job : CBUnifiedJob} (hStash : s.lookupObjKeysCache.get? rid = none)
    (hJob : JobOk cfg (s.legs rid) job) : Awaited cfg (s.saveJob rid job) rid where
  stash := hStash
  idle hNone := by
    rw [saveJob, get?_set, if_pos rfl] at hNone
    cases hNone
  job job' hJob' := by
    rw [saveJob, get?_set, if_pos rfl] at hJob'
    cases hJob'
    exact hJob

/-- A poll settles the request when it returns a result, and else leaves it awaited. -/
def PollLeaves (cfg : BlendConfig) (rid : String) (t : BlendModule)
    (outcome : Result (Option CBUnifiedLookupResult)) : Prop :=
  match outcome with
  | .ok (some result) => ∃ chunks keysOf, Settled t rid result chunks keysOf
  | _ => Awaited cfg t rid

theorem pollLeaves_pollJob {key : IPCCacheServerKey} {inputs : PollInputs} {job : CBUnifiedJob}
    (hStash : s.lookupObjKeysCache.get? key.requestId = none)
    (h : JobOk cfg (s.legs key.requestId) job) :
    PollLeaves cfg key.requestId (s.pollJob cfg key inputs job).1
      (s.pollJob cfg key inputs job).2 := by
  unfold pollJob
  split
  · exact awaited_saveJob hStash h
  · rename_i leading landed hPrefix
    obtain ⟨hOk, hLanded⟩ := h.pollPrefixLeg hPrefix
    split
    · rename_i t started e hStart
      have hStarts := startsLeg_startSparseLeg hOk hLanded hStart
      exact awaited_saveJob (hStarts.stash ▸ hStash) hStarts.ok
    · rename_i t started hStart
      have hStarts := startsLeg_startSparseLeg hOk hLanded hStart
      exact awaited_saveJob (hStarts.stash ▸ hStash) hStarts.ok
    · rename_i t started hStart
      have hStarts := startsLeg_startSparseLeg hOk hLanded hStart
      split
      · exact awaited_saveJob (hStarts.stash ▸ hStash) hStarts.ok
      · rename_i u done hPoll
        exact settled_finalizeLookup hStarts.ok (hStarts.stash ▸ hStash) hStarts.landed hPoll rfl

theorem pollLeaves_cbUnifiedLookup {key : IPCCacheServerKey} (h : Awaited cfg s key.requestId)
    (inputs : PollInputs) :
    PollLeaves cfg key.requestId (s.cbUnifiedLookup cfg key inputs).1
      (s.cbUnifiedLookup cfg key inputs).2 := by
  unfold cbUnifiedLookup
  split
  · rename_i job hJob
    exact pollLeaves_pollJob h.stash (h.job job hJob)
  · rename_i hNone
    split
    · exact h
    · rename_i job hOpen
      exact pollLeaves_pollJob h.stash (h.idle hNone ▸ jobOk_openJob hOpen)

theorem Awaited.polling {calls : List BlendCall} (h : Awaited cfg s rid)
    (hRun : Run (Polling cfg rid) s calls t) : Awaited cfg t rid := by
  refine Run.invariant (I := fun s => Awaited cfg s rid) ?_ hRun h
  rintro s c t h ⟨rfl, hDefers⟩
  by_cases hOwn : c.requestId = rid
  · cases c with
    | retrieve key found inputs => exact (hDefers hOwn).elim
    | lookup key inputs =>
      subst hOwn
      have hLeaves := pollLeaves_cbUnifiedLookup h inputs
      have hNoResult := hDefers rfl
      unfold PollLeaves at hLeaves
      split at hLeaves
      · rename_i result hResult
        exact absurd hResult (hNoResult result)
      · exact hLeaves
  · exact h.of_sameFor (sameFor_call hOwn s cfg)

end Polls

theorem scatterMatches_of_success {s : BlendModule} {key : IPCCacheServerKey}
    {inputs : RetrieveInputs} {nRead dest : Nat} {found : List CBMatchResult}
    {allObjKeys orphanKeys : List ObjectKey} {r : Retrieval}
    (h : s.scatterMatches key inputs nRead dest found allObjKeys orphanKeys = r)
    (hSuccess : r.outcome = .ok true) :
    r.orphanKeys = orphanKeys ∧ r.releaseKeys = releaseAppliedReadLocks found
      (fun m =>
        decide (m.curEd ≤ ((slotBound inputs.gpuBlockIds inputs.stagedKernel).getD 0 : Nat)))
      allObjKeys nRead := by
  unfold scatterMatches at h
  dsimp only at h
  split at h
  · subst h
    cases hSuccess
  split at h
  · subst h
    cases hSuccess
  split at h
  · subst h
    cases hSuccess
  · subst h
    exact ⟨rfl, rfl⟩

theorem mem_releaseAppliedReadLocks {found : List CBMatchResult} {applied : CBMatchResult → Bool}
    {keysOf : CBMatchResult → List ObjectKey} {nRead : Nat}
    (hLength : ∀ m ∈ found, (keysOf m).length = nRead) {m : CBMatchResult} (hm : m ∈ found)
    (hApplied : applied m = true) (hk : k ∈ keysOf m) :
    k ∈ releaseAppliedReadLocks found applied (found.flatMap keysOf) nRead := by
  -- past the matches the keys do not matter, so that all blocks can have one length
  let width := fun m => if m ∈ found then keysOf m else List.replicate nRead k
  have hWidth : ∀ m, (width m).length = nRead := by
    intro m
    by_cases hMem : m ∈ found
    · simp only [width, if_pos hMem, hLength m hMem]
    · simp only [width, if_neg hMem, length_replicate]
  have hSame : found.flatMap keysOf = found.flatMap width := by
    refine flatMap_congr fun m hMem => ?_
    simp only [width, if_pos hMem]
  obtain ⟨i, hAt⟩ := getElem?_of_mem hm
  obtain ⟨g, hLt, rfl⟩ := mem_iff_getElem.mp hk
  have hg : g < nRead := hLength m hm ▸ hLt
  have hBlock := block_flatMap hWidth hAt
  simp only [width, if_pos hm] at hBlock
  refine mem_flatMap.mpr ⟨(m, i), mem_filter.mpr ⟨mem_zipIdx_iff_getElem?.mpr hAt, hApplied⟩, ?_⟩
  refine mem_filterMap.mpr ⟨g, mem_range.mpr hg, ?_⟩
  rw [hSame, ← getElem?_eq_getElem hLt, ← hBlock, block, getElem?_take, if_pos hg, getElem?_drop]

variable {stash : Dict Bytes (List ObjectKey)}

theorem mem_orphanKeysOf {found : List CBMatchResult} {h : Bytes} {keys : List ObjectKey}
    (hGet : stash.get? h = some keys) (hOrphan : h ∉ found.map (·.hash)) (hk : k ∈ keys) :
    k ∈ orphanKeysOf (some stash) found :=
  mem_flatMap.mpr ⟨(h, keys), mem_filter.mpr ⟨get?_eq_some_iff.mp hGet, by simpa using hOrphan⟩, hk⟩

theorem retrieveObjKeys_of_stash {key : IPCCacheServerKey} {found : List CBMatchResult}
    (hContains : (found.map (·.hash)).all stash.contains = true) (hSole : key.worldSize ≤ 1)
    (gids : List Nat) : retrieveObjKeys key (some stash) gids found =
      .ok (found.flatMap fun m => (stash.get? m.hash).getD []) := by
  have hNotParallel : ¬1 < key.worldSize := by omega
  unfold retrieveObjKeys
  dsimp only
  rw [if_pos hContains]
  split
  · rw [if_neg hNotParallel, flatMap_map]
  · rw [flatMap_map]

/-- A retrieve of stashed chunks by the only worker of a request. -/
structure SoleRetrieve (s : BlendModule) (cfg : BlendConfig) (key : IPCCacheServerKey)
    (found : List CBMatchResult) (inputs : RetrieveInputs) (r : Retrieval) : Prop where
  run : s.cbRetrievePreComputed cfg key found inputs = r
  success : r.outcome = .ok true
  sole : key.worldSize ≤ 1
  /-- Nothing was scattered for the worker before. -/
  first : s.cbAppliedMatchRanges.get? (key.requestId, key.workerId) = none
  /-- Every match has its slots. -/
  fits : ∃ bound : Nat, slotBound inputs.gpuBlockIds inputs.stagedKernel = some bound ∧
    ∀ m ∈ found, m.curEd ≤ bound
  /-- The stash has one key for every read group of the instance. -/
  oneRank : ∃ read, classifyCbReadGroups inputs.layout = .ok read ∧
    ∀ stash h keys, s.lookupObjKeysCache.get? key.requestId = some stash →
      stash.get? h = some keys → keys.length = read.gids.length

theorem SoleRetrieve.covers {s : BlendModule} {cfg : BlendConfig} {key : IPCCacheServerKey}
    {found : List CBMatchResult} {inputs : RetrieveInputs} {r : Retrieval}
    (h : SoleRetrieve s cfg key found inputs r)
    (hStashed : ∀ m ∈ found, ∃ stash, s.lookupObjKeysCache.get? key.requestId = some stash ∧
      stash.contains m.hash = true) :
    ∀ k ∈ s.stashedKeys key.requestId, k ∈ r.orphanKeys ∨ k ∈ r.releaseKeys := by
  intro k hk
  obtain ⟨stash, hash, keys, hCached, hGet, hMem⟩ := mem_stashedKeys.mp hk
  obtain ⟨bound, hBound, hFits⟩ := h.fits
  obtain ⟨read, hRead, hOne⟩ := h.oneRank
  have hSorted : ∀ m ∈ found.insertionSort fun a b => a.curSt ≤ b.curSt, m ∈ found := fun m hm =>
    (mem_insertionSort _).mp hm
  have hRun := h.run
  have hSuccess := h.success
  unfold cbRetrievePreComputed at hRun
  cases hRegistered : inputs.registered with
  | error e =>
    rw [hRegistered] at hRun
    subst hRun
    cases hSuccess
  | ok _ =>
  simp only [hRegistered, hRead, h.first, hCached, hBound, Option.getD_none, not_mem_nil,
    not_false_eq_true, decide_true, filter_true, isEmpty_nil, Bool.not_true,
    Bool.false_and, Bool.false_eq_true, if_false] at hRun
  generalize (found.insertionSort fun a b => a.curSt ≤ b.curSt) = sorted at hRun hSorted
  have hWithin : (!sorted.isEmpty && Option.any
      (fun bound : Nat => sorted.all fun r => decide ((bound : Int) < r.curEd)) (some bound)) =
      false := by
    cases sorted with
    | nil => rfl
    | cons m rest =>
      have hFit := hFits m (hSorted m (by simp))
      simp [Int.not_lt.mpr hFit]
  have hContains : (sorted.map (·.hash)).all stash.contains = true := by
    simp only [all_map, all_eq_true]
    intro m hm
    obtain ⟨stash', hCached', hContains⟩ := hStashed m (hSorted m hm)
    rw [hCached] at hCached'
    cases hCached'
    exact hContains
  have hKeys := retrieveObjKeys_of_stash hContains h.sole read.gids
  rw [hWithin, hKeys] at hRun
  simp only [Bool.false_eq_true, if_false] at hRun
  have hReleased : hash ∈ sorted.map (·.hash) → k ∈ releaseAppliedReadLocks sorted
      (fun m => decide (m.curEd ≤ (bound : Int)))
      (sorted.flatMap fun m => (stash.get? m.hash).getD []) read.gids.length := by
    intro hRetrieved
    obtain ⟨m, hm, rfl⟩ := mem_map.mp hRetrieved
    refine mem_releaseAppliedReadLocks (fun m hm => ?_) hm
      (decide_eq_true (hFits m (hSorted m hm))) (by rwa [hGet])
    have hIn := all_eq_true.mp hContains m.hash (mem_map_of_mem hm)
    obtain ⟨keys', hGet'⟩ := Dict.contains_iff.mp hIn
    rw [hGet']
    exact hOne stash m.hash keys' hCached hGet'
  have hCases : hash ∉ sorted.map (·.hash) → k ∈ orphanKeysOf (some stash) sorted := fun hOrphan =>
    mem_orphanKeysOf hGet hOrphan hMem
  split at hRun
  · rename_i hNoKeys
    subst hRun
    refine Or.inl (hCases fun hRetrieved => ?_)
    obtain ⟨m, hm, rfl⟩ := mem_map.mp hRetrieved
    have hIn : k ∈ sorted.flatMap fun m => (stash.get? m.hash).getD [] :=
      mem_flatMap.mpr ⟨m, hm, by rwa [hGet]⟩
    rw [List.isEmpty_iff.mp hNoKeys] at hIn
    cases hIn
  split at hRun
  · subst hRun
    cases hSuccess
  · subst hRun
    cases hSuccess
  · obtain ⟨hOrphans, hReleases⟩ := scatterMatches_of_success hRun hSuccess
    rw [hOrphans, hReleases, hBound]
    by_cases hRetrieved : hash ∈ sorted.map (·.hash)
    · exact Or.inr (hReleased hRetrieved)
    · exact Or.inl (hCases hRetrieved)

/-- The locks of a settled request balance: they are those on the stashed keys, there are none
when the result has nothing to retrieve, and none are left by a retrieve whose sweep and
release cover the stash, as those of a sole worker do that retrieves segments of the result. -/
structure Balanced (cfg : BlendConfig) (t : BlendModule) (rid : String)
    (result : CBUnifiedLookupResult) : Prop where
  stashed : ∀ k, (t.legs rid).locks k = if k ∈ t.stashedKeys rid then 1 else 0
  nothing : result.nonPrefixSegments = [] → result.segmentedPrefixSegments = [] →
    ∀ k, (t.legs rid).locks k = 0
  retrieved : ∀ key found inputs r, key.requestId = rid →
    t.cbRetrievePreComputed cfg key found inputs = r →
    (∀ k ∈ t.stashedKeys rid, k ∈ r.orphanKeys ∨ k ∈ r.releaseKeys) →
    ∀ k, (r.module.legs rid).locks k = 0
  soleWorker : ∀ key found inputs r, key.requestId = rid →
    SoleRetrieve t cfg key found inputs r → (∀ m ∈ found, m ∈ result.nonPrefixSegments) →
    ∀ k, (r.module.legs rid).locks k = 0

end BlendModule

def SparseLeg.LoadsWholeChunks (leg : SparseLeg) : Prop :=
  ∀ k ∈ leg.asked, ∀ k' ∈ leg.asked, k'.chunkHash = k.chunkHash → k ∈ leg.loaded → k' ∈ leg.loaded

namespace BlendModule

section Balance

variable {cfg : BlendConfig} {rid : String} {t : BlendModule} {result : CBUnifiedLookupResult}
  {chunks : List CBMatchResult} {keysOf : Bytes → List ObjectKey}

theorem Settled.loaded_of_stashed (h : Settled t rid result chunks keysOf) {k : ObjectKey}
    (hk : k ∈ t.stashedKeys rid) : k ∈ (t.legs rid).loaded := by
  obtain ⟨r, -, hAll, hMem⟩ := (h.mem_stashedKeys k).mp hk
  exact hAll k hMem

/-- Every loaded key is stashed exactly when no chunk was loaded in part. -/
theorem Settled.stashed_of_loaded_iff (h : Settled t rid result chunks keysOf) :
    (∀ k ∈ (t.legs rid).loaded, k ∈ t.stashedKeys rid) ↔ (t.legs rid).LoadsWholeChunks := by
  constructor
  · intro hStashed k hk k' hk' hHash hLoaded
    obtain ⟨r, hr, hAll, hMem⟩ := (h.mem_stashedKeys k).mp (hStashed k hLoaded)
    obtain ⟨r', -, hMem'⟩ := (h.mem_asked k').mp hk'
    refine hAll k' ?_
    rwa [← h.chunkHash _ k hMem, ← hHash, h.chunkHash _ k' hMem']
  · intro hWhole k hLoaded
    have hAsked := h.locked.subset k hLoaded
    obtain ⟨r, hr, hMem⟩ := (h.mem_asked k).mp hAsked
    refine (h.mem_stashedKeys k).mpr ⟨r, hr, fun k' hk' => ?_, hMem⟩
    refine hWhole k hAsked k' ((h.mem_asked k').mpr ⟨r, hr, hk'⟩) ?_ hLoaded
    rw [h.chunkHash _ k' hk', h.chunkHash _ k hMem]

theorem locks_retrieved
    (hStashed : ∀ k, (t.legs rid).locks k = if k ∈ t.stashedKeys rid then 1 else 0)
    {key : IPCCacheServerKey} {found : List CBMatchResult} {inputs : RetrieveInputs}
    {r : Retrieval} (hKey : key.requestId = rid)
    (hRetrieve : t.cbRetrievePreComputed cfg key found inputs = r)
    (hCovers : ∀ k ∈ t.stashedKeys rid, k ∈ r.orphanKeys ∨ k ∈ r.releaseKeys) (k : ObjectKey) :
    (r.module.legs rid).locks k = 0 := by
  subst hKey
  rw [t.locks_cbRetrievePreComputed cfg key found inputs hRetrieve k, hStashed k]
  split
  · rename_i hMem
    have hReleased : k ∈ r.orphanKeys ++ r.releaseKeys ++ r.goodKeys :=
      mem_append_left _ (mem_append.mpr (hCovers k hMem))
    have hCount := count_pos_iff.mpr hReleased
    omega
  · exact Nat.zero_sub _

theorem Settled.balanced (h : Settled t rid result chunks keysOf)
    (hStashed : ∀ k, (t.legs rid).locks k = if k ∈ t.stashedKeys rid then 1 else 0) :
    Balanced cfg t rid result where
  stashed := hStashed
  nothing hNone _ k := by
    rw [hStashed k, h.kept hNone]
    rfl
  retrieved _ _ _ _ hKey hRetrieve hCovers := locks_retrieved hStashed hKey hRetrieve hCovers
  soleWorker key found inputs r hKey hSole hSegments := by
    subst hKey
    exact locks_retrieved hStashed rfl hSole.run
      (hSole.covers fun m hm => h.stashed m (hSegments m hm))

theorem Settled.balanced_iff (h : Settled t rid result chunks keysOf) :
    Balanced cfg t rid result ↔ (t.legs rid).LoadsWholeChunks := by
  rw [← h.stashed_of_loaded_iff]
  constructor
  · intro hBalanced k hLoaded
    by_contra hNot
    have hLock := h.locked.locks_eq k
    rw [hBalanced.stashed k, if_neg hNot, if_pos hLoaded] at hLock
    cases hLock
  · intro hStashed
    refine h.balanced fun k => ?_
    rw [h.locked.locks_eq k]
    exact if_congr ⟨hStashed k, h.loaded_of_stashed⟩ rfl rfl

end Balance

/-- However the calls of other requests interleave with the polls of a new request: when a poll
returns a result, the locks of the sparse leg balance exactly if of every chunk that it asked
for, all keys were loaded or none. -/
theorem lookup_balanced_iff (cfg : BlendConfig) {s t u : BlendModule} {key : IPCCacheServerKey}
    (hNew : s.New key.requestId) {calls : List BlendCall}
    (hRun : Run (Polling cfg key.requestId) s calls t) {inputs : PollInputs}
    {result : CBUnifiedLookupResult}
    (hResult : t.cbUnifiedLookup cfg key inputs = (u, .ok (some result))) :
    Balanced cfg u key.requestId result ↔ (u.legs key.requestId).LoadsWholeChunks := by
  have hLeaves := pollLeaves_cbUnifiedLookup (hNew.awaited.polling hRun) inputs
  rw [hResult] at hLeaves
  obtain ⟨chunks, keysOf, hSettled⟩ := hLeaves
  exact hSettled.balanced_iff

def sampleConfig : BlendConfig := ⟨4, false, false, fun _ => []⟩

def sampleKey : IPCCacheServerKey := ⟨"model", 2, none, [], "request", ""⟩

def sampleMatch : CBMatchResult := ⟨0, 4, 8, 12, [1]⟩

/-- The prefix leg has landed without a hit, and only L1 can have the keys. -/
def sampleInputs (readable : ObjectKey → Bool) : PollInputs where
  registration := some ⟨1, []⟩
  prefixSubmitted := .ok ()
  localMatches := [sampleMatch]
  coordSubmitted := false
  prefixAnswer := some (0, [])
  coordinatorAnswer := none
  readable := readable
  hasL2Adapters := false
  l2Result := none
  pendingFpHashes := []

def unpolled : BlendModule :=
  ⟨Dict.empty, Dict.empty, Dict.empty, [], Dict.empty, fun _ => SparseLeg.new⟩

def sampleObjectKey (rank : Nat) : ObjectKey :=
  objectKey sampleKey [1] 0 (computeKVRank 2 rank 2 rank)

theorem new_unpolled (rid : String) : unpolled.New rid := ⟨rfl, rfl, rfl⟩

def waitingCall : BlendCall :=
  .lookup sampleKey { sampleInputs (fun _ => true) with prefixAnswer := none }

/-- Both keys are readable: after a poll that waits, a second one returns the match, and the
locks on the two keys balance. -/
theorem whole_chunk_balances :
    (((unpolled.call sampleConfig waitingCall).cbUnifiedLookup sampleConfig sampleKey
      (sampleInputs fun _ => true)).1.legs sampleKey.requestId).loaded =
        [sampleObjectKey 0, sampleObjectKey 1] ∧
    Balanced sampleConfig ((unpolled.call sampleConfig waitingCall).cbUnifiedLookup sampleConfig
      sampleKey (sampleInputs fun _ => true)).1 sampleKey.requestId ⟨0, [sampleMatch], []⟩ := by
  have hRun : Run (Polling sampleConfig sampleKey.requestId) unpolled [waitingCall]
      (unpolled.call sampleConfig waitingCall) :=
    Run.single ⟨rfl, fun _ result h => by cases h⟩
  have hResult : (unpolled.call sampleConfig waitingCall).cbUnifiedLookup sampleConfig sampleKey
      (sampleInputs fun _ => true) = (((unpolled.call sampleConfig waitingCall).cbUnifiedLookup
        sampleConfig sampleKey (sampleInputs fun _ => true)).1,
        .ok (some ⟨0, [sampleMatch], []⟩)) := rfl
  refine ⟨by decide, (lookup_balanced_iff sampleConfig (new_unpolled _) hRun hResult).mpr ?_⟩
  unfold SparseLeg.LoadsWholeChunks
  decide

/-- Only the key of rank 0 is readable: the lookup returns nothing to retrieve and stashes
nothing, but the key stays locked. -/
theorem partial_chunk_keeps_its_lock :
    unpolled.New sampleKey.requestId ∧
    (unpolled.cbUnifiedLookup sampleConfig sampleKey
      (sampleInputs fun k => k = sampleObjectKey 0)).2 = .ok (some ⟨0, [], []⟩) ∧
    (unpolled.cbUnifiedLookup sampleConfig sampleKey
      (sampleInputs fun k => k = sampleObjectKey 0)).1.stashedKeys sampleKey.requestId = [] ∧
    ((unpolled.cbUnifiedLookup sampleConfig sampleKey
      (sampleInputs fun k => k = sampleObjectKey 0)).1.legs sampleKey.requestId).locks
        (sampleObjectKey 0) = 1 ∧
    ¬Balanced sampleConfig (unpolled.cbUnifiedLookup sampleConfig sampleKey
      (sampleInputs fun k => k = sampleObjectKey 0)).1 sampleKey.requestId ⟨0, [], []⟩ := by
  have hLock : ((unpolled.cbUnifiedLookup sampleConfig sampleKey
      (sampleInputs fun k => k = sampleObjectKey 0)).1.legs sampleKey.requestId).locks
        (sampleObjectKey 0) = 1 := by decide
  refine ⟨new_unpolled _, rfl, by decide, hLock, fun h => ?_⟩
  rw [h.nothing rfl rfl (sampleObjectKey 0)] at hLock
  cases hLock

end BlendModule

end LMCache.Blend
