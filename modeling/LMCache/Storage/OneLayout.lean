import LMCache.Storage.LoadTasks
import Mathlib.Data.List.Dedup

/-!
# One layout per task

When the tasks of the two storage controllers hold objects of one layout only. A store task
is cut by model name and rank, so it is uniform exactly when these two fields fix the layout
of the written keys: two object groups of one model on one rank share a task. A load task is
cut by adapter only, so it is uniform exactly when the keys that a trim policy can retain
together belong to object groups of one layout.
-/

namespace LMCache.Storage

open Lib Serde InFlightPrefetchRequest Bitmap List Option Bool Dict

/-- Every store task for the written keys has one layout, whatever adapters are attached and
whatever L1 holds when the reads are reserved. -/
def StoresOfOneLayout (keys : List ObjectKey) (layout : ObjectKey → MemoryLayoutDesc) : Prop :=
  ∀ (c : StoreController) (l1 : ShapeFields → Nat → L1Manager ObjectKey)
    (layoutOf : MemoryObj → MemoryLayoutDesc),
    (∀ fields adapter, ∀ k ∈ keys, ∀ e, (l1 fields adapter).objects.get? k = some e →
      layoutOf e.memoryObj = layout k) →
    ∀ task ∈ c.processNewKeys l1 keys, OneLayout layoutOf task.2

section Stores

variable {keys : List ObjectKey} {layout : ObjectKey → MemoryLayoutDesc}

def unlockedObject (obj : MemoryObj) : L1ObjectState :=
  ⟨obj, TTLLock.new 0, TTLLock.new 0, false⟩

/-- L1 after the keys were written: each has an object of its own and no lock. -/
def writtenL1 (keys : List ObjectKey) : L1Manager ObjectKey :=
  { (L1Manager.new 0 0 0 : L1Manager ObjectKey) with
    objects := Dict.ofList (keys.dedup.map fun k => (k, unlockedObject (keys.idxOf k))) }

theorem get?_writtenL1 {k : ObjectKey} (hk : k ∈ keys) :
    (writtenL1 keys).objects.get? k = some (unlockedObject (keys.idxOf k)) := by
  have hNodup : ((keys.dedup.map fun k => (k, unlockedObject (keys.idxOf k))).map
      Prod.fst).Nodup := by
    simpa [Function.comp_def] using nodup_dedup keys
  refine (get?_ofList _ hNodup k).trans ?_
  rw [find_map_pair fun k => unlockedObject (keys.idxOf k), if_pos (mem_dedup.mpr hk)]

def oneAdapter : StoreController := ⟨[0], Dict.ofList [(0, ⟨0⟩)], []⟩

theorem storesOfOneLayout_iff : StoresOfOneLayout keys layout ↔
    ∀ k ∈ keys, ∀ k' ∈ keys, k.modelName = k'.modelName → k.kvRank = k'.kvRank →
      layout k = layout k' := by
  constructor
  · intro h k hk k' hk' hModel hRank
    -- one adapter, and L1 still has every key
    let l1 : ShapeFields → Nat → L1Manager ObjectKey := fun _ _ => writtenL1 keys
    let layoutOf : MemoryObj → MemoryLayoutDesc :=
      fun obj => (keys[obj]?.map layout).getD (layout k)
    have hLayout : ∀ x ∈ keys, layoutOf (keys.idxOf x) = layout x := by
      intro x hx
      simp only [layoutOf, getElem?_idxOf hx, map_some, getD_some]
    have hAd : oneAdapter.adapterDescriptors.get? 0 = some ⟨0⟩ := rfl
    have hReadable : ∀ fields : ShapeFields, ∀ x ∈ keys, ∃ e,
        (l1 fields 0).objects.get? x = some e ∧ e.availableForRead (l1 fields 0).nowMs = true :=
      fun _ x hx => ⟨_, get?_writtenL1 hx, rfl⟩
    obtain ⟨task, hTask, hObjects⟩ := StoreController.exists_storeTask hAd
      (by simp [oneAdapter]) (by simp [oneAdapter]) hReadable hk
    have hOne : OneLayout layoutOf task.2 := by
      refine h oneAdapter l1 layoutOf (fun _ _ x hx e he => ?_) task hTask
      obtain rfl := some.inj ((get?_writtenL1 hx).symm.trans he)
      exact hLayout x hx
    have hEq := hOne _ (hObjects k hk rfl _ (get?_writtenL1 hk)) _
      (hObjects k' hk' (Prod.ext hModel.symm hRank.symm) _ (get?_writtenL1 hk'))
    exact (hLayout k hk).symm.trans (hEq.trans (hLayout k' hk'))
  · intro h c l1 layoutOf hLayout task hTask obj hObj obj' hObj'
    obtain ⟨fields, hObjects⟩ := StoreController.processNewKeys_objects hTask
    obtain ⟨k, hk, hFields, e, he, rfl⟩ := hObjects obj hObj
    obtain ⟨k', hk', hFields', e', he', rfl⟩ := hObjects obj' hObj'
    obtain ⟨hModel, hRank⟩ := Prod.mk.inj (hFields.trans hFields'.symm)
    rw [hLayout fields task.1 k hk e he, hLayout fields task.1 k' hk' e' he']
    exact h k hk k' hk' hModel hRank

end Stores

/-- Every load task of the request has one layout, whatever the lookups found and whatever
the reservations met. -/
def LoadsOfOneLayout (spec : PrefetchRequestSpec ObjectKey)
    (groupLayoutDescs : Dict Nat MemoryLayoutDesc) : Prop :=
  ∀ (s : LoadScene) (layoutOf : MemoryObj → MemoryLayoutDesc), s.request.spec = spec →
    s.Allocates groupLayoutDescs layoutOf →
    ∀ task ∈ s.loadTasks groupLayoutDescs, OneLayout layoutOf task.2

/-- The keys that the request's policy retains of the found ones. -/
def retainedKeys (spec : PrefetchRequestSpec ObjectKey) (found : Bitmap) : List ObjectKey :=
  (buildTrimMask found spec.keys.length spec.policy spec.attn).2.gather spec.keys

section Loads

variable {spec : PrefetchRequestSpec ObjectKey} {groupLayoutDescs : Dict Nat MemoryLayoutDesc}

theorem test_buildTrimMask_congr {found found' : Bitmap} (h : found.test = found'.test)
    (numKeys : Nat) (policy : TrimPolicy) (attn : AttnWindowDesc) :
    (buildTrimMask found numKeys policy attn).2.test =
      (buildTrimMask found' numKeys policy attn).2.test := by
  cases policy with
  | prefixOnly =>
    have hPresent : chunkPresent found = chunkPresent found' := by
      funext numRanks cbase
      rw [chunkPresent, chunkPresent, h]
    have hStep : foldStep found = foldStep found' := by
      funext numRanks chunkStride gbase effWindow state prefixLen
      simp only [foldStep, hPresent]
    have hGroup : foldGroup found = foldGroup found' := by
      funext numChunks numRanks numGroups servable group
      simp only [foldGroup, hStep]
    simp only [buildTrimMask, foldUnfoldRanked, fold, hGroup]
  | segmentedPrefix => exact h
  | sparse => exact h

def pairBitmap (numKeys i j : Nat) : Bitmap := (Bitmap.zeros numKeys).batchedSet [i, j]

theorem test_pairBitmap {numKeys i j x : Nat} :
    (pairBitmap numKeys i j).test x = true ↔ x < numKeys ∧ (x = i ∨ x = j) := by
  rw [pairBitmap, test_batchedSet]
  simp

/-- A request whose keys `i` and `j` are in L2 and whose other found keys are in L1. -/
def pairRequest (spec : PrefetchRequestSpec ObjectKey) (found : Bitmap) (i j : Nat) :
    InFlightPrefetchRequest ObjectKey :=
  { InFlightPrefetchRequest.start spec with
    point := .waitLookup
    lookupResults := Dict.ofList [(0, pairBitmap spec.keys.length i j)]
    l1Readlocks := found.and (pairBitmap spec.keys.length i j).not }

/-- Managers without objects, whose next objects lie in blocks of their own. -/
def emptyL1 (width gid : Nat) : L1Manager ObjectKey :=
  { (L1Manager.new 0 0 0 : L1Manager ObjectKey) with memory := ⟨gid * width, []⟩ }

def pairScene (spec : PrefetchRequestSpec ObjectKey) {found : Bitmap}
    (hFound : found.size = spec.keys.length) (i j : Nat) : LoadScene where
  request := pairRequest spec found i j
  config := ⟨1, Keys.KeyFields.objectGroupId, fun keys => keys.map fun _ => true⟩
  routing := [0]
  l1 := emptyL1 (spec.keys.length + 1)
  outcome := fun _ => .success
  groups_by_id := rfl
  locks_sized := (size_and hFound)
  lookups_sized := by
    intro a bm hGet
    obtain ⟨-, rfl⟩ := Prod.mk.inj (mem_singleton.mp (mem_of_get?_ofList hGet))
    rfl

section Pair

variable {found : Bitmap} (hFound : found.size = spec.keys.length) {i j : Nat}
  (hi : (buildTrimMask found spec.keys.length spec.policy spec.attn).2.test i = true)
  (hj : (buildTrimMask found spec.keys.length spec.policy spec.attn).2.test j = true)

include hi hj in
theorem pairScene_covers {x : Nat} :
    (pairScene spec hFound i j).trimmedPlan.Covers x ↔ x = i ∨ x = j := by
  have hLtI : i < spec.keys.length := hFound ▸ lt_size_of_test (found_of_trimmed hi)
  have hLtJ : j < spec.keys.length := hFound ▸ lt_size_of_test (found_of_trimmed hj)
  have hLocks : ∀ x, (pairScene spec hFound i j).request.l1Readlocks.test x = true ↔
      found.test x = true ∧ ¬(x = i ∨ x = j) := by
    intro x
    have hBits : (pairScene spec hFound i j).request.l1Readlocks.test x =
        (found.test x && (pairBitmap spec.keys.length i j).not.test x) := test_and _ _ x
    rw [hBits, test_not, and_eq_true, and_eq_true, not_eq_true',
      ← not_eq_true, test_pairBitmap, decide_eq_true_eq]
    constructor
    · rintro ⟨hx, hLt, hNot⟩
      exact ⟨hx, fun h => hNot ⟨hLt, h⟩⟩
    · rintro ⟨hx, hNot⟩
      have hLt : x < spec.keys.length := hFound ▸ lt_size_of_test hx
      exact ⟨hx, hLt, fun h => hNot h.2⟩
  have hFoundBy : ∀ x, FoundBy (pairScene spec hFound i j).request.lookupResults [0] x ↔
      x = i ∨ x = j := by
    intro x
    constructor
    · rintro ⟨a, -, bm, hGet, hTest⟩
      obtain ⟨-, rfl⟩ := Prod.mk.inj (mem_singleton.mp (mem_of_get?_ofList hGet))
      exact (test_pairBitmap.mp hTest).2
    · intro hx
      refine ⟨0, mem_singleton_self 0, pairBitmap spec.keys.length i j, rfl, ?_⟩
      refine test_pairBitmap.mpr ⟨?_, hx⟩
      rcases hx with rfl | rfl
      · exact hLtI
      · exact hLtJ
  obtain ⟨union, -, hUnion, -, hRetained⟩ := loadPhase_union spec.policy spec.attn [0]
    (pairScene spec hFound i j).locks_sized (pairScene spec hFound i j).lookups_sized
  have hTest : union.test = found.test := by
    funext x
    rw [Bool.eq_iff_iff, hUnion x, hFoundBy x, hLocks x]
    constructor
    · rintro ((rfl | rfl) | ⟨hx, -⟩)
      · exact found_of_trimmed hi
      · exact found_of_trimmed hj
      · exact hx
    · intro hx
      by_cases hPair : x = i ∨ x = j
      · exact Or.inl hPair
      · exact Or.inr ⟨hx, hPair⟩
  have hMask : (pairScene spec hFound i j).phase.retained.test =
      (buildTrimMask found spec.keys.length spec.policy spec.attn).2.test := by
    refine Eq.trans ?_ (test_buildTrimMask_congr hTest _ _ _)
    exact congrArg Bitmap.test hRetained
  obtain ⟨hCovers, -, -⟩ := trimmedPlan_spec spec.policy spec.attn [0]
    (pairScene spec hFound i j).locks_sized (pairScene spec hFound i j).lookups_sized spec.keys_fill
  refine (hCovers x).trans ?_
  rw [← not_eq_true]
  refine Iff.trans (and_congr_right fun _ => not_congr (hLocks x)) ?_
  have hMaskX : (pairScene spec hFound i j).phase.retained.test x =
    (buildTrimMask found spec.keys.length spec.policy spec.attn).2.test x := congrFun hMask x
  constructor
  · rintro ⟨hKept, hNot⟩
    by_contra hPair
    exact hNot ⟨found_of_trimmed (hMaskX ▸ hKept), hPair⟩
  · intro hPair
    refine ⟨hMaskX.trans ?_, fun h => h.2 hPair⟩
    rcases hPair with rfl | rfl
    · exact hi
    · exact hj

include hi hj in
theorem pairScene_entry : ∃ bitmap, (pairScene spec hFound i j).trimmedPlan.get? 0 = some bitmap ∧
    bitmap.test i = true ∧ bitmap.test j = true := by
  obtain ⟨-, hPlanned, -⟩ := trimmedPlan_spec spec.policy spec.attn [0]
    (pairScene spec hFound i j).locks_sized (pairScene spec hFound i j).lookups_sized spec.keys_fill
  have hAt : ∀ x, x = i ∨ x = j → ∃ bitmap,
      (pairScene spec hFound i j).trimmedPlan.get? 0 = some bitmap ∧ bitmap.test x = true := by
    intro x hx
    obtain ⟨a, bitmap, hGet, hTest⟩ := (pairScene_covers hFound hi hj).mpr hx
    obtain rfl := mem_singleton.mp (hPlanned a bitmap hGet).2.1
    exact ⟨bitmap, hGet, hTest⟩
  obtain ⟨bitmap, hGet, hTest⟩ := hAt i (Or.inl rfl)
  obtain ⟨bitmap', hGet', hTest'⟩ := hAt j (Or.inr rfl)
  obtain rfl := some.inj (hGet.symm.trans hGet')
  exact ⟨bitmap, hGet, hTest, hTest'⟩

theorem pairScene_unhindered : (pairScene spec hFound i j).Unhindered where
  absent := fun _ _ => rfl
  served := fun _ => rfl

def blockLayout (groupLayoutDescs : Dict Nat MemoryLayoutDesc) (width : Nat)
    (other : MemoryLayoutDesc) (obj : MemoryObj) : MemoryLayoutDesc :=
  (groupLayoutDescs.get? (obj / width)).getD other

theorem pairScene_allocates (other : MemoryLayoutDesc)
    (hDescs : ∀ k ∈ (pairScene spec hFound i j).request.keysToReserve
        (pairScene spec hFound i j).trimmedPlan,
      ∃ gld, groupLayoutDescs.get? k.objectGroupId = some gld) :
    (pairScene spec hFound i j).Allocates groupLayoutDescs
      (blockLayout groupLayoutDescs (spec.keys.length + 1) other) := by
  intro reservations hReservations reservation hReservation buffer hBuffer
  obtain ⟨group, hGroup, hReserve⟩ := (mapM_eq_some hReservations).1 reservation hReservation
  obtain ⟨gid, gld, buffers, hReserve', hGid, -, hBlock⟩ :=
    (pairScene_unhindered hFound).reserveGroup hGroup hDescs
  obtain rfl := some.inj (hReserve.symm.trans hReserve')
  obtain ⟨hLo, hHi⟩ := hBlock buffer hBuffer
  -- a group has at most as many keys as the request, so its objects stay in its block
  have hLength : group.length ≤ spec.keys.length := by
    refine (subperm_of_subset (LoadScene.nodup_of_group hGroup) fun k hk => ?_).length_le
    have hMem := ((pairScene spec hFound i j).request.reserveGroups_perm
      (pairScene spec hFound i j).config (pairScene spec hFound i j).trimmedPlan).mem_iff.mp
        (mem_flatten.mpr ⟨group, hGroup, hk⟩)
    obtain ⟨x, -, hx⟩ := mem_gather.mp hMem
    exact mem_of_getElem? hx
  have hDiv : buffer.2 / (spec.keys.length + 1) = gid := by
    refine Nat.div_eq_of_lt_le hLo ?_
    rw [Nat.succ_mul]
    exact Nat.lt_of_lt_of_le hHi (Nat.add_le_add_left (by omega) _)
  rw [blockLayout, hDiv, hGid, getD_some]

end Pair

theorem loadsOfOneLayout_iff : LoadsOfOneLayout spec groupLayoutDescs ↔
    ∀ found : Bitmap, found.size = spec.keys.length →
      ∀ k ∈ retainedKeys spec found, ∀ k' ∈ retainedKeys spec found, ∀ gld gld',
        groupLayoutDescs.get? k.objectGroupId = some gld →
        groupLayoutDescs.get? k'.objectGroupId = some gld' → gld = gld' := by
  constructor
  · intro h found hFound k hk k' hk' gld gld' hGld hGld'
    obtain ⟨i, hi, hKey⟩ := mem_gather.mp hk
    obtain ⟨j, hj, hKey'⟩ := mem_gather.mp hk'
    -- the two keys are loaded from L2, everything else is in L1
    have hDescs : ∀ x ∈ (pairScene spec hFound i j).request.keysToReserve
        (pairScene spec hFound i j).trimmedPlan,
        ∃ desc, groupLayoutDescs.get? x.objectGroupId = some desc := by
      intro x hx
      obtain ⟨y, hTest, hy⟩ := mem_gather.mp hx
      obtain ⟨-, hPlanned, -⟩ := trimmedPlan_spec spec.policy spec.attn [0]
        (pairScene spec hFound i j).locks_sized (pairScene spec hFound i j).lookups_sized
        spec.keys_fill
      have hCovers : (pairScene spec hFound i j).trimmedPlan.Covers y :=
        (merge_covers_iff fun a bm hGet => (hPlanned a bm hGet).1).mp hTest
      rcases (pairScene_covers hFound hi hj).mp hCovers with rfl | rfl
      · obtain rfl := some.inj (hKey.symm.trans hy)
        exact ⟨gld, hGld⟩
      · obtain rfl := some.inj (hKey'.symm.trans hy)
        exact ⟨gld', hGld'⟩
    have hAllocates := pairScene_allocates hFound gld hDescs
    obtain ⟨bitmap, hEntry, hTest, hTest'⟩ := pairScene_entry hFound hi hj
    obtain ⟨task, hTask, hObjects⟩ :=
      (pairScene_unhindered hFound).exists_task hDescs hAllocates hEntry
    obtain ⟨obj, hObj, hLayout⟩ := hObjects k (mem_gather.mpr ⟨i, hTest, hKey⟩)
    obtain ⟨obj', hObj', hLayout'⟩ := hObjects k' (mem_gather.mpr ⟨j, hTest', hKey'⟩)
    calc
      gld = blockLayout groupLayoutDescs (spec.keys.length + 1) gld obj :=
        some.inj (hGld.symm.trans hLayout)
      _ = blockLayout groupLayoutDescs (spec.keys.length + 1) gld obj' :=
        h (pairScene spec hFound i j) _ rfl hAllocates task hTask obj hObj obj' hObj'
      _ = gld' := some.inj (hLayout'.symm.trans hGld')
  · intro h s layoutOf hSpec hAllocates task hTask obj hObj obj' hObj'
    subst hSpec
    obtain ⟨k, hk, hLayout⟩ := LoadScene.loadTasks_objects hAllocates hTask hObj
    obtain ⟨k', hk', hLayout'⟩ := LoadScene.loadTasks_objects hAllocates hTask hObj'
    obtain ⟨union, hSize, -, -, hRetained⟩ := loadPhase_union s.request.spec.policy
      s.request.spec.attn s.routing s.locks_sized s.lookups_sized
    have hMask : s.phase.retained.gather s.request.spec.keys = retainedKeys s.request.spec union :=
      congrArg (fun mask : Bitmap => mask.gather s.request.spec.keys) hRetained
    rw [hMask] at hk hk'
    exact h union hSize k hk k' hk' _ _ hLayout hLayout'

end Loads

/-- The tasks that the controllers submit for the written keys and for a request have one
layout each exactly when model name and rank fix the layout of the written keys, and the
keys that the request's policy can retain together belong to object groups of one layout. -/
theorem tasks_of_one_layout_iff (keys : List ObjectKey) (layout : ObjectKey → MemoryLayoutDesc)
    (spec : PrefetchRequestSpec ObjectKey) (groupLayoutDescs : Dict Nat MemoryLayoutDesc) :
    (StoresOfOneLayout keys layout ∧ LoadsOfOneLayout spec groupLayoutDescs) ↔
      (∀ k ∈ keys, ∀ k' ∈ keys, k.modelName = k'.modelName → k.kvRank = k'.kvRank →
        layout k = layout k') ∧
      ∀ found : Bitmap, found.size = spec.keys.length →
        ∀ k ∈ retainedKeys spec found, ∀ k' ∈ retainedKeys spec found, ∀ gld gld',
          groupLayoutDescs.get? k.objectGroupId = some gld →
          groupLayoutDescs.get? k'.objectGroupId = some gld' → gld = gld' :=
  and_congr storesOfOneLayout_iff loadsOfOneLayout_iff

/-- A chunk of a hybrid model: one model, one rank, two object groups. -/
def hybridKeys : List ObjectKey :=
  [⟨[1], "hybrid", 0, 0, ""⟩, ⟨[1], "hybrid", 0, 1, ""⟩]

def attentionLayout : MemoryLayoutDesc := ⟨[[2, 16, 8]], [.bfloat16], rfl⟩

def recurrentLayout : MemoryLayoutDesc := ⟨[[1, 64]], [.float32], rfl⟩

def hybridSpec : PrefetchRequestSpec ObjectKey where
  keys := hybridKeys
  numKvReaders := 1
  policy := .prefixOnly
  attn := ⟨[-1, 1], 1, AttnWindowDesc.one_worker, AttnWindowDesc.mixed_valid,
    AttnWindowDesc.mixed_nonempty⟩
  mode := .lookup
  keys_nodup := by decide
  keys_fill := by decide

theorem hybrid_chunk_in_one_task :
    (oneAdapter.processNewKeys (fun _ _ => writtenL1 hybridKeys) hybridKeys =
        [(0, ⟨.store, hybridKeys, [0, 1]⟩)] ∧
      ¬StoresOfOneLayout hybridKeys (fun k =>
        if k.objectGroupId = 0 then attentionLayout else recurrentLayout)) ∧
    ((pairScene hybridSpec (rfl : (Bitmap.leading 2 2).size = 2) 0 1).loadTasks
        (Dict.ofList [(0, attentionLayout), (1, recurrentLayout)]) =
        [(0, ⟨.load, hybridKeys, [0, 3]⟩)] ∧
      ¬LoadsOfOneLayout hybridSpec
        (Dict.ofList [(0, attentionLayout), (1, recurrentLayout)])) := by
  refine ⟨⟨by decide +kernel, ?_⟩, by decide +kernel, ?_⟩
  · rw [storesOfOneLayout_iff]
    intro h
    exact absurd (h _ List.mem_cons_self _ (List.mem_cons_of_mem _ List.mem_cons_self) rfl rfl)
      (by decide)
  · rw [loadsOfOneLayout_iff]
    intro h
    have hKept : retainedKeys hybridSpec (Bitmap.leading 2 2) = hybridKeys := by decide +kernel
    have hEq := h (Bitmap.leading 2 2) rfl ⟨[1], "hybrid", 0, 0, ""⟩ (by rw [hKept]; decide)
      ⟨[1], "hybrid", 0, 1, ""⟩ (by rw [hKept]; decide) attentionLayout recurrentLayout rfl rfl
    exact absurd hEq (by decide)

end LMCache.Storage
