import LMCache.Blend.Lookup
import Mathlib.Data.List.Induction

/-!
# The keys of a sparse leg

A submitted sparse leg asks for the keys of its chunks, each key once. The keys of a chunk are
those of every read group and rank, and they carry the hash of the chunk, so that chunks with
different hashes share no key. What is found of the leg is what was loaded, by position.
-/

namespace LMCache.Blend

open Lib Bitmap List Option
open Serde (ObjectKey)

/-- The keys of one chunk: every read group's, and within a group every rank's. -/
def chunkKeys (key : IPCCacheServerKey) (gids : List Nat) (hash : Bytes) : List ObjectKey :=
  gids.flatMap fun gid => (kvRanks key).map (objectKey key hash gid)

theorem length_chunkKeys (key : IPCCacheServerKey) (gids : List Nat) (hash : Bytes) :
    (chunkKeys key gids hash).length = gids.length * (kvRanks key).length :=
  length_flatMap_of_width (fun _ => length_map _) gids

theorem chunkHash_of_mem_chunkKeys {key : IPCCacheServerKey} {gids : List Nat} {hash : Bytes}
    {k : ObjectKey} (h : k ∈ chunkKeys key gids hash) : k.chunkHash = hash := by
  obtain ⟨gid, -, hk⟩ := mem_flatMap.mp h
  obtain ⟨rank, -, rfl⟩ := List.mem_map.mp hk
  rfl

theorem cbChunkMajorObjectKeys_eq (key : IPCCacheServerKey) (hashes : List Bytes)
    (gids : List Nat) :
    cbChunkMajorObjectKeys key hashes gids = hashes.flatMap (chunkKeys key gids) := by
  have hRanks : ∀ gid hash, ((kvRanks key).map (objectKey key hash gid)).length =
      (kvRanks key).length := fun _ _ => length_map _
  unfold cbChunkMajorObjectKeys ipcKeyToObjectKeys
  cases gids with
  | nil => exact flatMap_range_length fun _ _ _ => rfl
  | cons gid gids =>
    refine flatMap_range_length fun i hash hAt => ?_
    have hPos : 0 < hashes.length := Nat.lt_of_le_of_lt (Nat.zero_le i)
      (List.getElem?_eq_some_iff.mp hAt).1
    have hExpansion : (hashes.flatMap fun h => (kvRanks key).map (objectKey key h gid)).length /
        hashes.length = (kvRanks key).length := by
      rw [length_flatMap_of_width (hRanks gid), Nat.mul_div_cancel_left _ hPos]
    rw [map_cons, headD_cons, hExpansion, ← map_cons (f := fun g =>
      hashes.flatMap fun h => (kvRanks key).map (objectKey key h g)), flatMap_map, chunkKeys]
    congr 1
    funext g
    exact block_flatMap (hRanks g) hAt

/-- What the job of a request and the storage manager agree on once the leg is submitted: the
keys asked for are those of the chunks, `keysOf` each hash, numbered as in `expandedUidx`. -/
structure Submission (leg : SparseLeg) (job : CBUnifiedJob) (keysOf : Bytes → List ObjectKey)
    (width : Nat) : Prop where
  chunkHash : ∀ h, ∀ k ∈ keysOf h, k.chunkHash = h
  length_keysOf : ∀ h, (keysOf h).length = width
  nonPrefix : job.nonPrefix ≠ []
  nodup : leg.asked.Nodup
  mem_asked : ∀ k, k ∈ leg.asked ↔ ∃ r ∈ job.nonPrefix, k ∈ keysOf r.hash
  expandedUidx : job.expandedUidx.map (fun u => leg.asked[u]?) =
    (job.nonPrefix.flatMap fun r => keysOf r.hash).map some
  perHash : ∀ r ∈ job.nonPrefix, job.perHashObjKeys.get? r.hash = some (keysOf r.hash)

/-- The locks of a leg, one for every loaded key. -/
structure Locked (leg : SparseLeg) : Prop where
  nodup : leg.loaded.Nodup
  subset : ∀ k ∈ leg.loaded, k ∈ leg.asked
  locks : ∀ k, leg.locks k = leg.loaded.count k

theorem Locked.locks_eq {leg : SparseLeg} (h : Locked leg) (k : ObjectKey) :
    leg.locks k = if k ∈ leg.loaded then 1 else 0 := by
  rw [h.locks k, h.nodup.count]

/-- The prefetch of the leg is under way with `handle`: what is readable in L1 is locked. -/
structure UnderWay (leg : SparseLeg) (handle : PrefetchHandle) : Prop where
  submitted : ∃ readable hasL2Adapters,
    handle = (submitPrefetchTask SparseLeg.new leg.asked readable hasL2Adapters).2 ∧
    leg.loaded = leg.asked.filter readable
  locks : ∀ k, leg.locks k = leg.loaded.count k

variable {p : ObjectKey → Bool}

theorem mem_indicesWhere {keys : List ObjectKey} {i : Nat} :
    i ∈ indicesWhere p keys ↔ ∃ k, keys[i]? = some k ∧ p k = true := by
  simp only [indicesWhere, mem_filter, mem_range, Option.any_eq_true]
  exact ⟨fun h => h.2, fun ⟨k, hk, hp⟩ => ⟨(List.getElem?_eq_some_iff.mp hk).1, k, hk, hp⟩⟩

theorem map_indicesWhere (p : ObjectKey → Bool) (keys : List ObjectKey) :
    (indicesWhere p keys).map (fun i => keys[i]?) = (keys.filter p).map some := by
  induction keys using List.reverseRecOn with
  | nil => rfl
  | append_singleton keys k ih =>
    have hOld : ∀ i ∈ indicesWhere p keys, (keys ++ [k])[i]? = keys[i]? := by
      intro i hi
      obtain ⟨b, hb, -⟩ := mem_indicesWhere.mp hi
      exact getElem?_append_left (List.getElem?_eq_some_iff.mp hb).1
    have hInit : (List.range keys.length).filter (fun i => ((keys ++ [k])[i]?).any p) =
        indicesWhere p keys := by
      refine filter_congr fun i hi => ?_
      rw [getElem?_append_left (mem_range.mp hi)]
    have hIndices : indicesWhere p (keys ++ [k]) =
        indicesWhere p keys ++ if p k then [keys.length] else [] := by
      rw [indicesWhere, length_append, length_singleton, range_succ, filter_append, hInit]
      congr 1
      cases hp : p k <;> simp [hp]
    rw [hIndices, map_append, map_congr_left hOld, ih, filter_append, map_append]
    congr 1
    cases hp : p k <;> simp [hp]

theorem mem_gather_indicesWhere {keys : List ObjectKey} (hKeys : keys.Nodup) (bitmap : Bitmap)
    {u : Nat} {k : ObjectKey} (hAt : keys[u]? = some k) :
    u ∈ bitmap.gather (indicesWhere p keys) ↔ k ∈ bitmap.gather (keys.filter p) := by
  have hMap : ∀ i, ((indicesWhere p keys)[i]?).map (fun u => keys[u]?) =
      ((keys.filter p)[i]?).map some := fun i => by
    rw [← getElem?_map, ← getElem?_map, map_indicesWhere]
  rw [mem_gather, mem_gather]
  constructor
  · rintro ⟨i, hTest, hi⟩
    refine ⟨i, hTest, ?_⟩
    have h := hMap i
    rw [hi, map_some, hAt] at h
    cases hFilter : (keys.filter p)[i]? with
    | none => simp [hFilter] at h
    | some k' => simpa [hFilter] using h.symm
  · rintro ⟨i, hTest, hi⟩
    refine ⟨i, hTest, ?_⟩
    have h := hMap i
    rw [hi, map_some] at h
    obtain ⟨u', hIndex, hAt'⟩ := map_eq_some_iff.mp h
    rw [hIndex]
    obtain ⟨hLt, rfl⟩ := List.getElem?_eq_some_iff.mp hAt
    obtain ⟨hLt', hEq⟩ := List.getElem?_eq_some_iff.mp hAt'
    exact congrArg some ((hKeys.getElem_inj_iff).mp hEq)

/-- When the prefetch is done, each loaded key has one lock, and the positions found are those
of the loaded keys. -/
theorem queryPrefetchStatus_spec {leg leg' : SparseLeg} {handle : PrefetchHandle}
    {l2Result : Option Bitmap} {bitmap : Bitmap} (h : UnderWay leg handle)
    (hAsked : leg.asked.Nodup)
    (hDone : queryPrefetchStatus leg handle l2Result = some (leg', bitmap)) :
    leg'.asked = leg.asked ∧ Locked leg' ∧ ∀ u k, leg.asked[u]? = some k →
      (u ∈ bitmap.getIndicesList ↔ k ∈ leg'.loaded) := by
  obtain ⟨readable, hasL2Adapters, rfl, hLoaded⟩ := h.submitted
  have hResident : ∀ u k, leg.asked[u]? = some k →
      (u ∈ indicesWhere readable leg.asked ↔ k ∈ leg.asked.filter readable) := by
    intro u k hAt
    rw [mem_indicesWhere, mem_filter, hAt]
    simp [mem_of_getElem? hAt]
  have hBound : ∀ u k, leg.asked[u]? = some k → u < leg.asked.length :=
    fun u k hAt => (List.getElem?_eq_some_iff.mp hAt).1
  by_cases hSubmitted : (!(leg.asked.filter fun k => !readable k).isEmpty && hasL2Adapters) = true
  · cases l2Result with
    | none => simp [queryPrefetchStatus, submitPrefetchTask, hSubmitted] at hDone
    | some l2 =>
      simp only [queryPrefetchStatus, submitPrefetchTask, hSubmitted, if_true, combineFound,
        Option.some.injEq, Prod.mk.injEq] at hDone
      obtain ⟨rfl, rfl⟩ := hDone
      have hRest := hAsked.filter fun k => !readable k
      refine ⟨rfl, ⟨?_, ?_, ?_⟩, fun u k hAt => ?_⟩
      · -- a key is loaded from L2 only when it was not readable in L1
        simp only [SparseLeg.grant, hLoaded]
        refine nodup_append.mpr ⟨hAsked.filter _, l2.gather_nodup hRest, ?_⟩
        rintro k hk k' hk' rfl
        obtain ⟨i, -, hi⟩ := mem_gather.mp hk'
        have hNot := (mem_filter.mp (mem_of_getElem? hi)).2
        simp [(mem_filter.mp hk).2] at hNot
      · intro k hk
        rcases mem_append.mp hk with hOld | hNew
        · exact (mem_filter.mp (hLoaded ▸ hOld)).1
        · obtain ⟨i, -, hi⟩ := mem_gather.mp hNew
          exact (mem_filter.mp (mem_of_getElem? hi)).1
      · intro k
        simp only [SparseLeg.grant, count_append, h.locks k]
      · rw [mem_getIndicesList, test_batchedSet, test_batchedSet,
          size_batchedSet, Bitmap.size_zeros, hResident u k hAt,
          mem_gather_indicesWhere hAsked l2 hAt]
        simp [SparseLeg.grant, hLoaded, hBound u k hAt]
  · simp only [queryPrefetchStatus, submitPrefetchTask, hSubmitted, combineFound] at hDone
    obtain ⟨rfl, rfl⟩ := hDone
    refine ⟨rfl, ⟨?_, ?_, h.locks⟩, fun u k hAt => ?_⟩
    · rw [hLoaded]
      exact hAsked.filter _
    · intro k hk
      exact (mem_filter.mp (hLoaded ▸ hk)).1
    · rw [mem_getIndicesList, test_batchedSet, Bitmap.size_zeros, hLoaded, hResident u k hAt]
      simp [hBound u k hAt]

theorem get?_perHash (keysOf : Bytes → List ObjectKey) (width : Nat)
    (hWidth : ∀ h, (keysOf h).length = width) {hashes : List Bytes} {h : Bytes}
    (hMem : h ∈ hashes) :
    (Dict.ofList (hashes.zipIdx.map fun (h, i) =>
      (h, block width i (hashes.flatMap keysOf)))).get? h = some (keysOf h) := by
  obtain ⟨i, hAt⟩ := getElem?_of_mem hMem
  have hEntry : (h, block width i (hashes.flatMap keysOf)) ∈ hashes.zipIdx.map
      fun (h, i) => (h, block width i (hashes.flatMap keysOf)) :=
    List.mem_map.mpr ⟨(h, i), mem_zipIdx_iff_getElem?.mpr hAt, rfl⟩
  obtain ⟨value, hGet⟩ := Dict.exists_get?_ofList hEntry
  obtain ⟨⟨h', i'⟩, hIndexed, hEq⟩ := List.mem_map.mp (Dict.mem_of_get?_ofList hGet)
  obtain ⟨rfl, rfl⟩ := Prod.mk.inj hEq
  rw [hGet]
  exact congrArg some (block_flatMap hWidth (mem_zipIdx_iff_getElem?.mp hIndexed))

theorem submission_sparsePrefetchSubmit (key : IPCCacheServerKey) (read : CBReadGroups)
    (inputs : PollInputs) (job : CBUnifiedJob) (hNonPrefix : job.nonPrefix ≠ [])
    {leg : SparseLeg} {handle : PrefetchHandle} {perHash : Dict Bytes (List ObjectKey)}
    {expanded : List Nat}
    (hSubmit : sparsePrefetchSubmit SparseLeg.new key read inputs job.nonPrefix =
      (leg, handle, perHash, expanded)) :
    UnderWay leg handle ∧
    Submission leg { job with
      handle := some handle
      perHashObjKeys := perHash
      expandedUidx := expanded
      sparseStarted := true } (chunkKeys key read.gids)
      (read.gids.length * (kvRanks key).length) := by
  have hWidth := length_chunkKeys key read.gids
  have hPos : 0 < (job.nonPrefix.map (·.hash)).length := by
    rw [length_map]
    exact length_pos_iff.mpr hNonPrefix
  simp only [sparsePrefetchSubmit, cbChunkMajorObjectKeys_eq, length_flatMap_of_width hWidth,
    Nat.mul_div_cancel_left _ hPos, Prod.mk.injEq] at hSubmit
  obtain ⟨rfl, rfl, rfl, rfl⟩ := hSubmit
  have hNumbers := Numbering.numbers_ofList
    ((job.nonPrefix.map (·.hash)).flatMap (chunkKeys key read.gids))
  refine ⟨⟨⟨_, _, rfl, rfl⟩, fun k => by
    simp [submitPrefetchTask, SparseLeg.grant, SparseLeg.new]⟩, ?_⟩
  refine ⟨fun h k hk => chunkHash_of_mem_chunkKeys hk, hWidth, hNonPrefix, hNumbers.nodup,
    fun k => ?_, ?_, fun r hr => ?_⟩
  · refine (hNumbers.mem_elements k).trans ?_
    simp [mem_flatMap]
  · refine hNumbers.elementAt.trans ?_
    rw [flatMap_map]
  · exact get?_perHash _ _ hWidth (List.mem_map_of_mem hr)

namespace Submission

variable {leg : SparseLeg} {job : CBUnifiedJob} {keysOf : Bytes → List ObjectKey} {width : Nat}

theorem length_expandedUidx (h : Submission leg job keysOf width) :
    job.expandedUidx.length = job.nonPrefix.length * width := by
  have hLength := congrArg List.length h.expandedUidx
  rw [length_map, length_map, length_flatMap_of_width
    (f := fun r : CBMatchResult => keysOf r.hash) fun r => h.length_keysOf r.hash] at hLength
  exact hLength

variable {r : CBMatchResult}

theorem asked_of_position (h : Submission leg job keysOf width) {j t : Nat}
    (hAt : job.nonPrefix[j]? = some r) (ht : t < width) :
    ∃ k u, (keysOf r.hash)[t]? = some k ∧ job.expandedUidx[j * width + t]? = some u ∧
      leg.asked[u]? = some k := by
  have hLt : t < (keysOf r.hash).length := by rwa [h.length_keysOf r.hash]
  have hBlock := block_flatMap (f := fun r : CBMatchResult => keysOf r.hash)
    (fun r => h.length_keysOf r.hash) hAt
  have hAll : (job.nonPrefix.flatMap fun r => keysOf r.hash)[j * width + t]? =
      some ((keysOf r.hash)[t]) := by
    rw [← getElem?_eq_getElem hLt, ← hBlock, block, getElem?_take, if_pos ht, getElem?_drop]
  have hNumber := congrArg (fun l => l[j * width + t]?) h.expandedUidx
  simp only [getElem?_map, hAll, map_some] at hNumber
  obtain ⟨u, hu, hAsked⟩ := map_eq_some_iff.mp hNumber
  exact ⟨_, u, getElem?_eq_getElem hLt, hu, hAsked⟩

theorem chunkFound_iff (h : Submission leg job keysOf width) {found : List Nat}
    (hFound : ∀ u k, leg.asked[u]? = some k → (u ∈ found ↔ k ∈ leg.loaded)) {j : Nat}
    (hAt : job.nonPrefix[j]? = some r) :
    chunkFound job.expandedUidx found width j = true ↔ ∀ k ∈ keysOf r.hash, k ∈ leg.loaded := by
  simp only [chunkFound, List.all_eq_true, mem_range, decide_eq_true_eq]
  constructor
  · intro hAll k hk
    obtain ⟨t, hLt, rfl⟩ := mem_iff_getElem.mp hk
    have ht : t < width := by rwa [h.length_keysOf r.hash] at hLt
    obtain ⟨k, u, hKey, hu, hAsked⟩ := h.asked_of_position hAt ht
    have hIn := hAll t ht
    rw [getD_eq_getElem?_getD, hu, getD_some] at hIn
    rw [getElem?_eq_getElem hLt, Option.some.injEq] at hKey
    rw [hKey]
    exact (hFound u k hAsked).mp hIn
  · intro hAll t ht
    obtain ⟨k, u, hKey, hu, hAsked⟩ := h.asked_of_position hAt ht
    rw [getD_eq_getElem?_getD, hu, getD_some]
    exact (hFound u k hAsked).mpr (hAll k (mem_of_getElem? hKey))

end Submission

end LMCache.Blend
