import LMCache.Lib.Words
import LMCache.MaKV.ForcedPrecision

/-!
# Plans do not depend on where a request is cut

Every builder first decides the buckets of the whole request, one row for each layer and
plane or one row for all, and then cuts the chunk out of every row. So the plans of
consecutive chunks, put together plane by plane, are the plan of the request as one chunk.
-/

namespace LMCache.MaKV

open Lib ChunkLayout List

/-- The tokens of a chunk, and the shape of the tensor it comes with. -/
structure ChunkRange where
  start : Int
  stop : Int
  shape : List Int
  strides : List Int

def ChunkLayout.cut (layout : ChunkLayout) (c : ChunkRange) : ChunkLayout :=
  { layout with
    chunkStart := c.start
    chunkEnd := c.stop
    originalShape := c.shape
    originalStrides := c.strides }

/-- Chunks that follow one another from one token up to another. -/
def Consecutive : Int → List ChunkRange → Int → Prop
  | first, [], last => first = last
  | first, c :: rest, last => c.start = first ∧ c.start ≤ c.stop ∧ Consecutive c.stop rest last

def planeBucketIds (layer kv : Nat) (plan : MaKVQuantPlan) : Bytes :=
  if plan.importanceLayout = "token" then plan.bucketIds
  else plan.bucketIds.slice ((layer * 2 + kv) * plan.chunkLength.toNat) plan.chunkLength.toNat

theorem Consecutive.le {first last : Int} {chunks : List ChunkRange}
    (h : Consecutive first chunks last) : first ≤ last := by
  induction chunks generalizing first with
  | nil => exact Int.le_of_eq h
  | cons c rest ih =>
    obtain ⟨rfl, hOrder, hRest⟩ := h
    exact Int.le_trans hOrder (ih hRest)

theorem Consecutive.bounds {first last : Int} {chunks : List ChunkRange}
    (h : Consecutive first chunks last) {c : ChunkRange} (hc : c ∈ chunks) :
    first ≤ c.start ∧ c.start ≤ c.stop ∧ c.stop ≤ last := by
  induction chunks generalizing first with
  | nil => cases hc
  | cons head rest ih =>
    obtain ⟨rfl, hOrder, hRest⟩ := h
    rcases mem_cons.mp hc with rfl | hc
    · exact ⟨Int.le_refl _, hOrder, hRest.le⟩
    · obtain ⟨hLow, hMiddle, hHigh⟩ := ih hRest hc
      exact ⟨Int.le_trans hOrder hLow, hMiddle, hHigh⟩

section Rows

variable {α : Type}

theorem pySlice_append (row : List α) {a b c : Int} (hab : a ≤ b) (hbc : b ≤ c) :
    pySlice row a b ++ pySlice row b c = pySlice row a c := by
  apply ext_getElem?
  intro i
  have hLength : (pySlice row a b).length = min b.toNat row.length - a.toNat := by
    simp only [pySlice, length_drop, length_take]
  rw [getElem?_append, hLength]
  simp only [pySlice, getElem?_drop, getElem?_take]
  split
  · rw [if_pos (by omega), if_pos (by omega)]
  · by_cases hRow : row.length ≤ b.toNat
    · rw [getElem?_eq_none (by omega), ite_self, getElem?_eq_none (by omega), ite_self]
    · have hIndex : b.toNat + (i - (min b.toNat row.length - a.toNat)) = a.toNat + i := by omega
      rw [hIndex]

theorem flatMap_pySlice (row : List α) {first last : Int} {chunks : List ChunkRange}
    (h : Consecutive first chunks last) :
    (chunks.flatMap fun c => pySlice row c.start c.stop) = pySlice row first last := by
  induction chunks generalizing first with
  | nil =>
    obtain rfl := h
    simp [pySlice]
  | cons c rest ih =>
    obtain ⟨rfl, hOrder, hRest⟩ := h
    rw [flatMap_cons, ih hRest, pySlice_append row hOrder hRest.le]

theorem pySlice_all (row : List α) {stop : Int} (h : row.length ≤ stop.toNat) :
    pySlice row 0 stop = row := by
  rw [pySlice, take_of_length_le h]
  rfl

theorem mem_of_mem_pySlice {row : List α} {start stop : Int} {a : α}
    (h : a ∈ pySlice row start stop) : a ∈ row :=
  mem_of_mem_take (mem_of_mem_drop h)

end Rows

/-- The plan of a chunk that is cut out of rows. A cell is empty where a builder fails. -/
structure CutFrom (label : String) (rows : List (List (Option UInt8))) (c : ChunkRange)
    (plan : MaKVQuantPlan) : Prop where
  layout : plan.importanceLayout = label
  length : plan.chunkLength = c.stop - c.start
  ids : plan.bucketIds.map some = rows.flatMap fun row => pySlice row c.start c.stop

structure CutsRows (tokenCount numLayers : Int) (label : String)
    (rows : List (List (Option UInt8))) (build : ChunkRange → Result MaKVQuantPlan) : Prop where
  count : label = "token" ∧ rows.length = 1 ∨
    label = "layer_kv_token" ∧ rows.length = numLayers.toNat * 2
  length : ∀ row ∈ rows, row.length = tokenCount.toNat
  built : ∀ c plan, build c = .ok plan →
    0 ≤ c.start ∧ c.start ≤ c.stop ∧ c.stop ≤ tokenCount ∧ CutFrom label rows c plan
  builds : ∀ c, 0 ≤ c.start → c.start ≤ c.stop → c.stop ≤ tokenCount →
    (∀ row ∈ rows, none ∉ pySlice row c.start c.stop) → ∃ plan, build c = .ok plan

/-- A builder that fails on every chunk or cuts its plans out of rows. -/
def CutsRequest (tokenCount numLayers : Int) (build : ChunkRange → Result MaKVQuantPlan) : Prop :=
  (∀ c plan, build c ≠ .ok plan) ∨ ∃ label rows, CutsRows tokenCount numLayers label rows build

namespace CutsRows

variable {tokenCount numLayers : Int} {label : String} {rows : List (List (Option UInt8))}
  {build : ChunkRange → Result MaKVQuantPlan}

def rowAt (label : String) (rows : List (List (Option UInt8))) (layer kv : Nat) :
    List (Option UInt8) :=
  if label = "token" then rows.flatten else (rows[layer * 2 + kv]?).getD []

variable {c : ChunkRange} {plan : MaKVQuantPlan} {layer kv : Nat}

theorem planeBucketIds_eq (h : CutsRows tokenCount numLayers label rows build)
    (hBuild : build c = .ok plan) (hLayer : layer < numLayers.toNat) (hKv : kv < 2) :
    (planeBucketIds layer kv plan).map some =
      pySlice (rowAt label rows layer kv) c.start c.stop := by
  obtain ⟨hStart, hOrder, hStop, hCut⟩ := h.built c plan hBuild
  unfold planeBucketIds rowAt
  rw [hCut.layout]
  rcases h.count with ⟨rfl, hOne⟩ | ⟨rfl, hMany⟩
  · obtain ⟨row, rfl⟩ := length_eq_one_iff.mp hOne
    rw [if_pos rfl, if_pos rfl, hCut.ids]
    simp
  · have hName : ¬ ("layer_kv_token" = "token") := by decide
    rw [if_neg hName, if_neg hName]
    have hPiece : ∀ row ∈ rows, (pySlice row c.start c.stop).length = plan.chunkLength.toNat := by
      intro row hRow
      rw [length_pySlice hStart (by rw [h.length row hRow]; omega), hCut.length]
    have hRows := rowsOf_flatMap (fun row => pySlice row c.start c.stop) rows hPiece
    have hAt := congrArg (fun l => l[layer * 2 + kv]?) hRows
    have hIn : layer * 2 + kv < rows.length := by omega
    simp only [rowsOf, getElem?_map, getElem?_range hIn, Option.map_some] at hAt
    rw [Bytes.slice, map_take, map_drop, hCut.ids]
    rw [getElem?_eq_getElem hIn, Option.map_some, Option.some.injEq] at hAt
    rw [getElem?_eq_getElem hIn, Option.getD_some]
    exact hAt

theorem length_rowAt (h : CutsRows tokenCount numLayers label rows build)
    (hLayer : layer < numLayers.toNat) (hKv : kv < 2) :
    (rowAt label rows layer kv).length = tokenCount.toNat := by
  unfold rowAt
  rcases h.count with ⟨rfl, hOne⟩ | ⟨rfl, hMany⟩
  · obtain ⟨row, rfl⟩ := length_eq_one_iff.mp hOne
    rw [if_pos rfl]
    simpa using h.length row mem_cons_self
  · have hIn : layer * 2 + kv < rows.length := by omega
    rw [if_neg (by decide), getElem?_eq_getElem hIn, Option.getD_some]
    exact h.length _ (getElem_mem hIn)

theorem none_not_mem (h : CutsRows tokenCount numLayers label rows build)
    (hBuild : build c = .ok plan) {row : List (Option UInt8)} (hRow : row ∈ rows) :
    none ∉ pySlice row c.start c.stop := by
  intro hNone
  have hMem : none ∈ plan.bucketIds.map some := by
    rw [(h.built c plan hBuild).2.2.2.ids]
    exact mem_flatMap.mpr ⟨row, hRow, hNone⟩
  simp at hMem

variable {plans : List MaKVQuantPlan}

/-- The plans of consecutive chunks, put together, give every plane what lies between the
ends of the chunks. -/
theorem flatMap_planeBucketIds (h : CutsRows tokenCount numLayers label rows build)
    {chunks : List ChunkRange} (hPlans : chunks.mapM build = .ok plans)
    (hLayer : layer < numLayers.toNat) (hKv : kv < 2) :
    (plans.flatMap (planeBucketIds layer kv)).map some =
      chunks.flatMap fun c => pySlice (rowAt label rows layer kv) c.start c.stop := by
  induction chunks generalizing plans with
  | nil =>
    cases hPlans
    rfl
  | cons c rest ih =>
    rw [mapM_cons] at hPlans
    obtain ⟨plan, hPlan, hPlans⟩ := bind_eq_ok.mp hPlans
    obtain ⟨more, hMore, hPlans⟩ := bind_eq_ok.mp hPlans
    cases hPlans
    rw [flatMap_cons, map_append, ih hMore, h.planeBucketIds_eq hPlan hLayer hKv, flatMap_cons]

theorem ok_of_mapM {chunks : List ChunkRange} (h : chunks.mapM build = .ok plans)
    (hc : c ∈ chunks) : ∃ plan, build c = .ok plan := by
  induction chunks generalizing plans with
  | nil => cases hc
  | cons head rest ih =>
    rw [mapM_cons] at h
    obtain ⟨plan, hPlan, h⟩ := bind_eq_ok.mp h
    obtain ⟨more, hMore, h⟩ := bind_eq_ok.mp h
    rcases mem_cons.mp hc with rfl | hRest
    · exact ⟨plan, hPlan⟩
    · exact ih hMore hRest

end CutsRows

/-- What independence of the chunks says of a builder: where the request can be planned as
one chunk, every chunk can, and the ids agree; and where all chunks can be planned, the
request can. -/
def Independent (tokenCount numLayers : Int) (build : ChunkRange → Result MaKVQuantPlan) : Prop :=
  ∀ (whole : ChunkRange) (chunks : List ChunkRange), whole.start = 0 → whole.stop = tokenCount →
    Consecutive 0 chunks tokenCount →
    (∀ plan, build whole = .ok plan → ∃ plans, chunks.mapM build = .ok plans ∧
      ∀ layer < numLayers.toNat, ∀ kv < 2,
        plans.flatMap (planeBucketIds layer kv) = planeBucketIds layer kv plan) ∧
    (chunks ≠ [] → ∀ plans, chunks.mapM build = .ok plans → ∃ plan, build whole = .ok plan)

theorem CutsRows.independent {tokenCount numLayers : Int} {label : String}
    {rows : List (List (Option UInt8))} {build : ChunkRange → Result MaKVQuantPlan}
    (h : CutsRows tokenCount numLayers label rows build) :
    Independent tokenCount numLayers build := by
  intro whole chunks hStart hStop hChunks
  have hWhole : ∀ row : List (Option UInt8), row.length = tokenCount.toNat →
      pySlice row whole.start whole.stop = row := by
    intro row hLength
    rw [hStart, hStop, pySlice_all row (Nat.le_of_eq hLength)]
  refine ⟨?_, ?_⟩
  · intro plan hPlan
    have hParts : ∀ c ∈ chunks, ∃ plan, build c = .ok plan := by
      intro c hc
      obtain ⟨hLow, hOrder, hHigh⟩ := hChunks.bounds hc
      refine h.builds c hLow hOrder hHigh fun row hRow hNone => ?_
      have hFull := h.none_not_mem hPlan hRow
      rw [hWhole row (h.length row hRow)] at hFull
      exact hFull (mem_of_mem_pySlice hNone)
    obtain ⟨plans, hPlans⟩ := exists_mapM_ok hParts
    refine ⟨plans, hPlans, ?_⟩
    intro layer hLayer kv hKv
    have hRow := h.length_rowAt hLayer hKv
    apply map_injective_iff.mpr (Option.some_injective _)
    rw [h.flatMap_planeBucketIds hPlans hLayer hKv, flatMap_pySlice _ hChunks,
      h.planeBucketIds_eq hPlan hLayer hKv, hWhole _ hRow, pySlice_all _ (Nat.le_of_eq hRow)]
  · intro hSome plans hPlans
    refine h.builds whole (by omega) ?_ (by omega) fun row hRow hNone => ?_
    · have hOrder := hChunks.le
      omega
    · -- an empty cell of a row would lie in one of the chunks
      rw [hWhole row (h.length row hRow), ← pySlice_all row (Nat.le_of_eq (h.length row hRow)),
        ← flatMap_pySlice row hChunks] at hNone
      obtain ⟨c, hc, hCell⟩ := mem_flatMap.mp hNone
      obtain ⟨part, hPart⟩ := ok_of_mapM hPlans hc
      exact h.none_not_mem hPart hRow hCell

theorem CutsRequest.of_rows {tokenCount numLayers : Int}
    {build : ChunkRange → Result MaKVQuantPlan}
    (request : Result (String × List (List (Option UInt8))))
    (hRows : ∀ label rows, request = .ok (label, rows) →
      (label = "token" ∧ rows.length = 1 ∨
        label = "layer_kv_token" ∧ rows.length = numLayers.toNat * 2) ∧
      ∀ row ∈ rows, row.length = tokenCount.toNat)
    (hBuilt : ∀ c plan, build c = .ok plan → ∃ label rows, request = .ok (label, rows) ∧
      0 ≤ c.start ∧ c.start ≤ c.stop ∧ c.stop ≤ tokenCount ∧ CutFrom label rows c plan)
    (hBuilds : ∀ label rows, request = .ok (label, rows) → ∀ c, 0 ≤ c.start → c.start ≤ c.stop →
      c.stop ≤ tokenCount → (∀ row ∈ rows, none ∉ pySlice row c.start c.stop) →
      ∃ plan, build c = .ok plan) :
    CutsRequest tokenCount numLayers build := by
  cases hRequest : request with
  | error e =>
    left
    intro c plan hPlan
    obtain ⟨label, rows, hOk, -⟩ := hBuilt c plan hPlan
    cases hRequest.symm.trans hOk
  | ok found =>
    obtain ⟨label, rows⟩ := found
    right
    obtain ⟨hCount, hLength⟩ := hRows label rows hRequest
    refine ⟨label, rows, hCount, hLength, ?_, hBuilds label rows hRequest⟩
    intro c plan hPlan
    obtain ⟨label', rows', hOk, hCut⟩ := hBuilt c plan hPlan
    cases hRequest.symm.trans hOk
    exact hCut

theorem CutsRequest.independent {tokenCount numLayers : Int}
    {build : ChunkRange → Result MaKVQuantPlan} (h : CutsRequest tokenCount numLayers build) :
    Independent tokenCount numLayers build := by
  rcases h with hFails | ⟨label, rows, hRows⟩
  · intro whole chunks _ _ _
    refine ⟨fun plan hPlan => (hFails whole plan hPlan).elim, ?_⟩
    intro hSome plans hPlans
    obtain ⟨c, hc⟩ := exists_mem_of_ne_nil chunks hSome
    obtain ⟨plan, hPlan⟩ := CutsRows.ok_of_mapM hPlans hc
    exact (hFails c plan hPlan).elim
  · exact hRows.independent

def byteCell (id : Nat) : Option UInt8 := if id < 256 then some (UInt8.ofNat id) else none

theorem toByteString_eq_ok {values : List Nat} {bytes : Bytes} :
    toByteString values = .ok bytes ↔ bytes.map some = values.map byteCell := by
  unfold toByteString
  split
  · rename_i hAll
    have hCells : values.map byteCell = (values.map UInt8.ofNat).map some := by
      rw [map_map]
      apply map_congr_left
      intro value hValue
      have hSmall := all_eq_true.mp hAll value hValue
      rw [decide_eq_true_eq] at hSmall
      exact if_pos hSmall
    rw [hCells, Except.ok.injEq, (map_injective_iff.mpr (Option.some_injective _)).eq_iff, eq_comm]
  · rename_i hAll
    refine iff_of_false nofun fun hCells => hAll ?_
    rw [all_eq_true]
    intro value hValue
    have hMem : byteCell value ∈ bytes.map some := hCells ▸ mem_map_of_mem hValue
    obtain ⟨b, -, hByte⟩ := mem_map.mp hMem
    unfold byteCell at hByte
    split at hByte
    · rename_i hSmall
      exact decide_eq_true hSmall
    · cases hByte

theorem toByteString_ok {values : List Nat} (h : none ∉ values.map byteCell) :
    ∃ bytes, toByteString values = .ok bytes := by
  unfold toByteString
  split
  · exact ⟨_, rfl⟩
  · rename_i hAll
    refine (hAll (all_eq_true.mpr fun value hValue => ?_)).elim
    by_contra hLarge
    rw [decide_eq_true_eq] at hLarge
    exact h (mem_map.mpr ⟨value, hValue, if_neg hLarge⟩)

section Importance

variable {F : Type} [PyFloat F]

/-- The buckets of a whole request for one plane of a separate scheme. -/
def planeRow (config : MaKVConfig F) (tiers : List Nat × Nat) : Result (List Nat) := do
  let pairs ← kvSeparateBucketIds tiers.1 config
  return pairs.map fun pair => if tiers.2 = 0 then pair.1 else pair.2

def requestRows (scores : ScoreLayout F) (config : MaKVConfig F) (forcedMask : Option (List Bool))
    (numLayers : Int) : Result (String × List (List Nat) × Nat × Nat) := do
  let planes := planeRows numLayers
  if config.precisionScheme = .shared then
    match scores with
    | .token scores =>
      let (ids, nans, infs) ← rankToBucketIds scores config forcedMask
      return ("token", [ids], nans, infs)
    | .layerKvToken scores =>
      let (rows, nans, infs) ← rankRows config forcedMask scores planes
      return ("layer_kv_token", rows, nans, infs)
  else
    let (tiers, nans, infs) ← tierRows scores config forcedMask planes
    let rows ← (tiers.zip (planes.map Prod.snd)).mapM (planeRow config)
    return ("layer_kv_token", rows, nans, infs)

omit [PyFloat F] in
theorem separateIds_eq (config : MaKVConfig F) (layout : ChunkLayout)
    (tiers : List (List Nat × Nat)) :
    separateIds config layout tiers = do
      let rows ← tiers.mapM (planeRow config)
      return rows.flatMap fun ids => pySlice ids layout.chunkStart layout.chunkEnd := by
  induction tiers with
  | nil => rfl
  | cons tier rest ih =>
    obtain ⟨row, kv⟩ := tier
    rw [separateIds, ih, mapM_cons]
    unfold planeIds planeRow
    cases hPairs : kvSeparateBucketIds row config with
    | error e => rfl
    | ok pairs =>
      simp only [ok_bind, pure_bind, bind_assoc, flatMap_cons, pySlice_map]

theorem chunkBucketIds_eq (scores : ScoreLayout F) (config : MaKVConfig F)
    (forcedMask : Option (List Bool)) (layout : ChunkLayout) :
    chunkBucketIds scores config forcedMask layout = do
      let (label, rows, nans, infs) ← requestRows scores config forcedMask layout.numLayers
      let bytes ← toByteString
        (rows.flatMap fun ids => pySlice ids layout.chunkStart layout.chunkEnd)
      return (label, bytes, nans, infs) := by
  unfold chunkBucketIds requestRows
  dsimp only
  split
  · cases scores with
    | token scores => simp only [bind_assoc, pure_bind, flatMap_singleton]
    | layerKvToken scores => simp only [bind_assoc, pure_bind]
  · simp only [separateIds_eq, bind_assoc, pure_bind]

omit [PyFloat F] in
theorem length_planeRow {config : MaKVConfig F} {tiers : List Nat × Nat} {row : List Nat}
    (h : planeRow config tiers = .ok row) : row.length = tiers.1.length := by
  obtain ⟨pairs, hPairs, h⟩ := bind_eq_ok.mp h
  cases h
  obtain ⟨_, -, hPairs⟩ := bind_eq_ok.mp hPairs
  obtain ⟨_, -, hPairs⟩ := bind_eq_ok.mp hPairs
  rw [length_map, (mapM_eq_ok hPairs).1]

/-- The rows of a request are those of its layers and planes, or one row for all, and every
row has an id for every token. -/
theorem requestRows_spec {scores : ScoreLayout F} {config : MaKVConfig F}
    {forcedMask : Option (List Bool)} {numLayers : Int} {n : Nat}
    (hScores : scores.HasLength n numLayers) {label : String} {rows : List (List Nat)}
    {nans infs : Nat}
    (h : requestRows scores config forcedMask numLayers = .ok (label, rows, nans, infs)) :
    (label = "token" ∧ rows.length = 1 ∨
      label = "layer_kv_token" ∧ rows.length = numLayers.toNat * 2) ∧
      ∀ row ∈ rows, row.length = n := by
  unfold requestRows at h
  dsimp only at h
  split at h
  · cases scores with
    | token scores =>
      obtain ⟨⟨ids, _, _⟩, hRank, h⟩ := bind_eq_ok.mp h
      cases h
      refine ⟨Or.inl ⟨rfl, rfl⟩, ?_⟩
      intro row hRow
      rw [mem_singleton.mp hRow, (rankToBucketIds_ranked hRank).length]
      exact hScores
    | layerKvToken scores =>
      obtain ⟨⟨ids, _, _⟩, hRank, h⟩ := bind_eq_ok.mp h
      cases h
      have hRows := rankRows_spec _ hScores hRank
      exact ⟨Or.inr ⟨rfl, by rw [hRows.length, length_planeRows]⟩, fun _ => hRows.length_of_mem⟩
  · obtain ⟨⟨tiers, _, _⟩, hTiers, h⟩ := bind_eq_ok.mp h
    obtain ⟨ids, hIds, h⟩ := bind_eq_ok.mp h
    cases h
    have hRows := tierRows_spec hScores hTiers
    obtain ⟨hCount, hEach⟩ := mapM_eq_ok hIds
    refine ⟨Or.inr ⟨rfl, ?_⟩, ?_⟩
    · rw [hCount, length_zip, length_map, hRows.length, length_planeRows, Nat.min_self]
    · intro row hRow
      obtain ⟨i, hi⟩ := mem_iff_getElem?.mp hRow
      obtain ⟨tier, hTier, hPlane⟩ := hEach i row hi
      have hMem := (of_mem_zip (mem_of_getElem? hTier)).1
      rw [length_planeRow hPlane, hRows.length_of_mem hMem]

omit [PyFloat F] in
theorem map_flatMap_pySlice (rows : List (List Nat)) (start stop : Int) :
    (rows.flatMap fun ids => pySlice ids start stop).map byteCell =
      (rows.map fun ids => ids.map byteCell).flatMap fun row => pySlice row start stop := by
  induction rows with
  | nil => rfl
  | cons row rest ih =>
    rw [flatMap_cons, map_append, ih, map_cons, flatMap_cons, pySlice_map]

/-- What the importance builder computes of a request before it looks at the chunk. -/
def importanceRows (importance : Tensor F) (hint : Option String) (status : Json F)
    (config : MaKVConfig F) (numLayers tokenCount : Int) :
    Result (String × List (List (Option UInt8))) := do
  let scores ← normalizeImportanceTensor importance hint numLayers tokenCount
  let forcedMask ← normalizeImportanceStatus status tokenCount
  let (label, rows, _, _) ← requestRows scores config forcedMask numLayers
  return (label, rows.map fun ids => ids.map byteCell)

variable [Sha256] {importance : Tensor F} {hint : Option String} {status : Json F}

theorem importanceRows_of_build {layout : ChunkLayout} {config : MaKVConfig F} {tokenCount : Int}
    {c : ChunkRange} {plan : MaKVQuantPlan}
    (h : buildChunkQuantPlan importance hint (layout.cut c) config
      (some tokenCount) status = .ok plan)
    : ∃ label rows, importanceRows importance hint status config layout.numLayers tokenCount =
        .ok (label, rows) ∧
      0 ≤ c.start ∧ c.start ≤ c.stop ∧ c.stop ≤ tokenCount ∧ CutFrom label rows c plan := by
  obtain ⟨count, hSame, h⟩ := bind_eq_ok.mp h
  cases hSame
  obtain ⟨scores, hScores, h⟩ := bind_eq_ok.mp h
  obtain ⟨_, hRange, h⟩ := bind_eq_ok.mp h
  obtain ⟨mask, hMask, h⟩ := bind_eq_ok.mp h
  obtain ⟨_, hIds, h⟩ := bind_eq_ok.mp h
  rw [chunkBucketIds_eq] at hIds
  obtain ⟨⟨label, rows, nans, infs⟩, hRows, hIds⟩ := bind_eq_ok.mp hIds
  obtain ⟨bytes, hBytes, hIds⟩ := bind_eq_ok.mp hIds
  cases hIds
  cases h
  rw [rejectIf_eq_ok, Bool.not_eq_false', inRequest_iff] at hRange
  refine ⟨label, rows.map fun ids => ids.map byteCell, ?_, hRange.1, hRange.2.1, hRange.2.2,
    rfl, rfl, ?_⟩
  · exact bind_eq_ok.mpr ⟨scores, hScores, bind_eq_ok.mpr ⟨mask, hMask,
      bind_eq_ok.mpr ⟨_, hRows, rfl⟩⟩⟩
  · rw [← map_flatMap_pySlice]
    exact toByteString_eq_ok.mp hBytes

theorem build_of_importanceRows {layout : ChunkLayout} {config : MaKVConfig F} {tokenCount : Int}
    {c : ChunkRange} {label : String} {cells : List (List (Option UInt8))}
    (h : importanceRows importance hint status config layout.numLayers tokenCount =
      .ok (label, cells))
    (hStart : 0 ≤ c.start) (hOrder : c.start ≤ c.stop) (hStop : c.stop ≤ tokenCount)
    (hCells : ∀ row ∈ cells, none ∉ pySlice row c.start c.stop) :
    ∃ plan, buildChunkQuantPlan importance hint (layout.cut c) config (some tokenCount) status =
      .ok plan := by
  obtain ⟨scores, hScores, h⟩ := bind_eq_ok.mp h
  obtain ⟨mask, hMask, h⟩ := bind_eq_ok.mp h
  obtain ⟨⟨label', rows, nans, infs⟩, hRows, h⟩ := bind_eq_ok.mp h
  cases h
  have hRange : (layout.cut c).inRequest tokenCount = true :=
    inRequest_iff.mpr ⟨hStart, hOrder, hStop⟩
  have hNone : none ∉ (rows.flatMap fun ids => pySlice ids c.start c.stop).map byteCell := by
    rw [map_flatMap_pySlice]
    intro hMem
    obtain ⟨row, hRow, hCell⟩ := mem_flatMap.mp hMem
    exact hCells row hRow hCell
  obtain ⟨bytes, hBytes⟩ := toByteString_ok hNone
  have hIds : chunkBucketIds scores config mask (layout.cut c) =
      .ok (label, bytes, nans, infs) := by
    rw [chunkBucketIds_eq]
    exact bind_eq_ok.mpr ⟨_, hRows, bind_eq_ok.mpr ⟨bytes, hBytes, rfl⟩⟩
  refine ⟨_, bind_eq_ok.mpr ⟨tokenCount, rfl, bind_eq_ok.mpr ⟨scores, hScores,
    bind_eq_ok.mpr ⟨(), ?_, bind_eq_ok.mpr ⟨mask, hMask, bind_eq_ok.mpr ⟨_, hIds, rfl⟩⟩⟩⟩⟩⟩
  rw [hRange]
  rfl

theorem cutsRequest_importance (importance : Tensor F) (hint : Option String) (status : Json F)
    (layout : ChunkLayout) (config : MaKVConfig F) (tokenCount : Int) :
    CutsRequest tokenCount layout.numLayers fun c =>
      buildChunkQuantPlan importance hint (layout.cut c) config (some tokenCount) status := by
  apply CutsRequest.of_rows
    (importanceRows importance hint status config layout.numLayers tokenCount)
  · intro label cells h
    obtain ⟨scores, hScores, h⟩ := bind_eq_ok.mp h
    obtain ⟨mask, -, h⟩ := bind_eq_ok.mp h
    obtain ⟨_, hRows, h⟩ := bind_eq_ok.mp h
    cases h
    obtain ⟨hLabel, hEach⟩ := requestRows_spec (normalizeImportanceTensor_spec hScores).2 hRows
    refine ⟨by simpa only [length_map] using hLabel, ?_⟩
    intro row hRow
    obtain ⟨ids, hIds, rfl⟩ := mem_map.mp hRow
    rw [length_map, hEach ids hIds]
  · exact fun c plan h => importanceRows_of_build h
  · exact fun label cells h c => build_of_importanceRows h

end Importance

theorem mapM_eq_ok_iff {α β : Type} {f : α → Result β} {values : List α} {results : List β} :
    values.mapM f = .ok results ↔ results.map some = values.map fun a => (f a).toOption := by
  induction values generalizing results with
  | nil =>
    cases results with
    | nil => exact ⟨fun _ => rfl, fun _ => rfl⟩
    | cons b rest => exact ⟨nofun, nofun⟩
  | cons a values ih =>
    rw [mapM_cons, bind_eq_ok]
    constructor
    · rintro ⟨b, hHead, h⟩
      obtain ⟨more, hMore, h⟩ := bind_eq_ok.mp h
      cases h
      rw [map_cons, map_cons, hHead, ih.mp hMore]
      rfl
    · intro h
      cases results with
      | nil => cases h
      | cons b more =>
        rw [map_cons, map_cons, List.cons.injEq] at h
        cases hHead : f a with
        | error e =>
          rw [hHead] at h
          cases h.1
        | ok b' =>
          rw [hHead] at h
          cases h.1
          exact ⟨b, rfl, bind_eq_ok.mpr ⟨more, ih.mpr h.2, rfl⟩⟩

variable {precisions : List String}

theorem precisionIds_eq_ok {bits : List Int} {planes : List (Nat × Nat)} {ids : List Nat} :
    precisionIds bits precisions planes = .ok ids ↔
      ids.map some = planes.flatMap fun plane =>
        precisions.map fun precision => (precisionBucket bits plane.2 precision).toOption := by
  induction planes generalizing ids with
  | nil =>
    cases ids with
    | nil => exact ⟨fun _ => rfl, fun _ => rfl⟩
    | cons id rest => exact ⟨nofun, nofun⟩
  | cons plane planes ih =>
    obtain ⟨layer, kv⟩ := plane
    rw [precisionIds, bind_eq_ok, flatMap_cons]
    constructor
    · rintro ⟨row, hRow, h⟩
      obtain ⟨more, hMore, h⟩ := bind_eq_ok.mp h
      cases h
      rw [map_append, mapM_eq_ok_iff.mp hRow, ih.mp hMore]
    · intro h
      obtain ⟨row, more, rfl, hRow, hMore⟩ := map_eq_append_iff.mp h
      exact ⟨row, mapM_eq_ok_iff.mpr hRow, bind_eq_ok.mpr ⟨more, ih.mpr hMore, rfl⟩⟩

/-- The byte of the bucket of a token in one plane. -/
def precisionCell (bits : List Int) (kv : Nat) (precision : String) : Option UInt8 :=
  (precisionBucket bits kv precision).toOption.bind byteCell

def precisionRows (bits : List Int) (precisions : List String) (numLayers : Int) :
    List (List (Option UInt8)) :=
  (planeRows numLayers).map fun plane => precisions.map (precisionCell bits plane.2)

theorem flatMap_precisionRows (bits : List Int) (precisions : List String)
    (numLayers start stop : Int) :
    ((precisionRows bits precisions numLayers).flatMap fun row => pySlice row start stop) =
      ((planeRows numLayers).flatMap fun plane => (pySlice precisions start stop).map
        fun precision => (precisionBucket bits plane.2 precision).toOption).map
          fun bucket => bucket.bind byteCell := by
  rw [precisionRows, flatMap_map, map_flatMap]
  apply flatMap_congr
  intro plane _
  rw [pySlice_map, map_map]
  rfl

theorem cells_of_precisionIds {bits : List Int} {numLayers start stop : Int} {ids : List Nat}
    {bytes : Bytes}
    (hIds : precisionIds bits (pySlice precisions start stop) (planeRows numLayers) = .ok ids)
    (hBytes : toByteString ids = .ok bytes) : bytes.map some =
      (precisionRows bits precisions numLayers).flatMap fun row => pySlice row start stop := by
  rw [flatMap_precisionRows, ← precisionIds_eq_ok.mp hIds, map_map, toByteString_eq_ok.mp hBytes]
  rfl

theorem precisionIds_ok {bits : List Int} {numLayers start stop : Int}
    (h : ∀ row ∈ precisionRows bits precisions numLayers, none ∉ pySlice row start stop) :
    ∃ ids bytes, precisionIds bits (pySlice precisions start stop) (planeRows numLayers) =
      .ok ids ∧ toByteString ids = .ok bytes := by
  have hCells : none ∉ (precisionRows bits precisions numLayers).flatMap
      fun row => pySlice row start stop := by
    intro hMem
    obtain ⟨row, hRow, hCell⟩ := mem_flatMap.mp hMem
    exact h row hRow hCell
  rw [flatMap_precisionRows] at hCells
  have hBuckets : none ∉ (planeRows numLayers).flatMap fun plane =>
      (pySlice precisions start stop).map
        fun precision => (precisionBucket bits plane.2 precision).toOption :=
    fun hMem => hCells (mem_map.mpr ⟨none, hMem, rfl⟩)
  obtain ⟨ids, hIds⟩ : ∃ ids : List Nat, ids.map some = (planeRows numLayers).flatMap fun plane =>
      (pySlice precisions start stop).map
        fun precision => (precisionBucket bits plane.2 precision).toOption := by
    generalize (planeRows numLayers).flatMap _ = buckets at hBuckets
    induction buckets with
    | nil => exact ⟨[], rfl⟩
    | cons bucket rest ih =>
      obtain ⟨ids, hRest⟩ := ih fun hMem => hBuckets (mem_cons_of_mem _ hMem)
      cases bucket with
      | none => exact (hBuckets mem_cons_self).elim
      | some id => exact ⟨id :: ids, by rw [map_cons, hRest]⟩
  rw [← hIds, map_map] at hCells
  obtain ⟨bytes, hBytes⟩ := toByteString_ok hCells
  exact ⟨ids, bytes, precisionIds_eq_ok.mpr hIds, hBytes⟩

theorem precisionRows_spec (bits : List Int) (numLayers : Int) {n : Nat}
    (h : precisions.length = n) :
    (precisionRows bits precisions numLayers).length = numLayers.toNat * 2 ∧
      ∀ row ∈ precisionRows bits precisions numLayers, row.length = n := by
  refine ⟨by rw [precisionRows, length_map, length_planeRows], ?_⟩
  intro row hRow
  obtain ⟨plane, -, rfl⟩ := mem_map.mp hRow
  rw [length_map, h]

section ScoutRank

variable {F : Type} [PyFloat F] [Sha256] [TorchDtypes]

omit [TorchDtypes] in
/-- A builder that tests the range of the chunk, and takes its ids from precisions that `gate`
computes of the request alone. -/
theorem CutsRequest.of_gate {α : Type} {build : ChunkRange → Result MaKVQuantPlan} {n : Nat}
    {bits : List Int} {message promptHash strategy schema scheme : String} (layout : ChunkLayout)
    (config : MaKVConfig F) (gate : Result α)
    (texts : α → List String) (sourceHash : α → String)
    (hBuild : ∀ c, build c = do
      rejectIf (!(layout.cut c).inRequest n) message
      let found ← gate
      let ids ← precisionIds bits (pySlice (texts found) c.start c.stop)
        (planeRows layout.numLayers)
      let bucketIds ← toByteString ids
      return scoutPlan F (layout.cut c) config n bits bucketIds (sourceHash found) promptHash
        strategy schema scheme)
    (hTexts : ∀ found, gate = .ok found → (texts found).length = n) :
    CutsRequest n layout.numLayers build := by
  apply CutsRequest.of_rows (gate >>= fun found =>
    .ok ("layer_kv_token", precisionRows bits (texts found) layout.numLayers))
  · intro label rows h
    obtain ⟨found, hGate, h⟩ := bind_eq_ok.mp h
    cases h
    obtain ⟨hCount, hRows⟩ := precisionRows_spec bits layout.numLayers (hTexts found hGate)
    exact ⟨Or.inr ⟨rfl, hCount⟩, hRows⟩
  · intro c plan h
    rw [hBuild] at h
    obtain ⟨_, hRange, h⟩ := bind_eq_ok.mp h
    obtain ⟨found, hGate, h⟩ := bind_eq_ok.mp h
    obtain ⟨ids, hIds, h⟩ := bind_eq_ok.mp h
    obtain ⟨bytes, hBytes, h⟩ := bind_eq_ok.mp h
    cases h
    rw [rejectIf_eq_ok, Bool.not_eq_false', inRequest_iff] at hRange
    exact ⟨_, _, bind_eq_ok.mpr ⟨found, hGate, rfl⟩, hRange.1, hRange.2.1, hRange.2.2, rfl, rfl,
      cells_of_precisionIds hIds hBytes⟩
  · intro label rows h c hStart hOrder hStop hCells
    obtain ⟨found, hGate, h⟩ := bind_eq_ok.mp h
    cases h
    obtain ⟨ids, bytes, hIds, hBytes⟩ := precisionIds_ok hCells
    have hRange : (layout.cut c).inRequest n = true :=
      inRequest_iff.mpr ⟨hStart, hOrder, hStop⟩
    rw [hBuild, hRange, hGate]
    exact ⟨_, bind_eq_ok.mpr ⟨_, rfl, bind_eq_ok.mpr ⟨_, rfl, bind_eq_ok.mpr ⟨_, hIds,
      bind_eq_ok.mpr ⟨_, hBytes, rfl⟩⟩⟩⟩⟩

omit [TorchDtypes] in
theorem length_functional {payload : Metadata F} {promptHash digest : String}
    {layout : ChunkLayout} {config : MaKVConfig F} {n : Nat} {precisions : List String}
    (h : validateScoutrankV3FunctionalPrecisionPlan payload n promptHash config layout =
      .ok (precisions, digest)) : precisions.length = n := by
  obtain ⟨_, -, h⟩ := bind_eq_ok.mp h
  obtain ⟨_, -, h⟩ := bind_eq_ok.mp h
  obtain ⟨values, -, h⟩ := bind_eq_ok.mp h
  obtain ⟨_, hLength, h⟩ := bind_eq_ok.mp h
  obtain ⟨texts, hTexts, h⟩ := bind_eq_ok.mp h
  obtain ⟨_, -, h⟩ := bind_eq_ok.mp h
  cases h
  obtain rfl := precisionTexts_spec hTexts
  rw [rejectIf_eq_ok, decide_eq_false_iff_not, ne_eq, not_not, length_map] at hLength
  exact_mod_cast hLength

/-- What the functional builder checks and reads of a request. -/
def functionalGate (payload : Metadata F) (promptHash : String) (layout : ChunkLayout)
    (config : MaKVConfig F) (tokenCount : Int) : Result (List String × String) := do
  rejectIf (config.bucketBits ≠ [16, 8, 4, 2])
    "ScoutRank-v3 functional plans require makv_bucket_bits=[16,8,4,2]"
  rejectIf (config.precisionScheme ≠ .kvSeparate4Tier)
    "ScoutRank-v3 functional plans require makv_precision_scheme=kv_separate_4tier"
  rejectIf (config.quantGranularity ≠ "per_token_head")
    "ScoutRank-v3 functional plans require makv_quant_granularity=per_token_head"
  let found ← validateScoutrankV3FunctionalPrecisionPlan payload tokenCount promptHash config layout
  let expected ← rawDtypeBytes layout.originalDtype
  requireInt payload "raw_dtype_bytes" expected
    "ScoutRank-v3 functional plan raw dtype byte-width mismatch"
  return found

theorem cutsRequest_functional (payload : Metadata F) (promptHash : String) (layout : ChunkLayout)
    (config : MaKVConfig F) (n : Nat) :
    CutsRequest n layout.numLayers fun c =>
      buildChunkQuantPlanFromV3FunctionalPrecisionPlan payload promptHash (layout.cut c) config
        (some n) := by
  apply CutsRequest.of_gate layout config (functionalGate payload promptHash layout config n)
    fun found => effectivePrecision config n found.1
  · intro c
    simp only [buildChunkQuantPlanFromV3FunctionalPrecisionPlan, functionalGate, bind_assoc,
      pure_bind]
    rfl
  · intro found h
    obtain ⟨_, -, h⟩ := bind_eq_ok.mp h
    obtain ⟨_, -, h⟩ := bind_eq_ok.mp h
    obtain ⟨_, -, h⟩ := bind_eq_ok.mp h
    obtain ⟨_, hValid, h⟩ := bind_eq_ok.mp h
    obtain ⟨_, -, h⟩ := bind_eq_ok.mp h
    obtain ⟨_, -, h⟩ := bind_eq_ok.mp h
    cases h
    rw [effectivePrecision, length_mapIdx, length_functional hValid]

/-- What the block builder checks and reads of a request. -/
def blockGate (payload : Metadata F) (promptHash : String) (config : MaKVConfig F)
    (tokenCount : Int) : Result (List ScoutBlock × String) := do
  let found ← validateScoutrankPrecisionPlan payload tokenCount promptHash config
  rejectIf (config.bucketBits ≠ [16, 8, 4, 2])
    "ScoutRank four-tier plans require makv_bucket_bits=[16,8,4,2]"
  return found

theorem cutsRequest_scoutrank (payload : Metadata F) (promptHash : String) (layout : ChunkLayout)
    (config : MaKVConfig F) (n : Nat) :
    CutsRequest n layout.numLayers fun c =>
      buildChunkQuantPlanFromPrecisionPlan payload promptHash (layout.cut c) config (some n) := by
  unfold buildChunkQuantPlanFromPrecisionPlan
  split
  · exact cutsRequest_functional payload promptHash layout config n
  · apply CutsRequest.of_gate layout config (blockGate payload promptHash config n)
      fun found => spreadBlocks (List.replicate (n : Int).toNat "") found.1
    · intro c
      simp only [blockGate, bind_assoc, pure_bind]
      rfl
    · intro found h
      obtain ⟨_, hValid, h⟩ := bind_eq_ok.mp h
      obtain ⟨_, -, h⟩ := bind_eq_ok.mp h
      cases h
      obtain ⟨hFrom, -⟩ := validateScoutrankPrecisionPlan_spec hValid
      have hReplicate : ((List.replicate (n : Int).toNat "").length : Int) = n := by
        rw [length_replicate, Int.toNat_natCast]
      rw [(spreadBlocks_spec hFrom hReplicate).1, length_replicate, Int.toNat_natCast]

/-- For every builder, input and precision scheme: where a request of `n` tokens can be planned
as one chunk, every way to cut it into consecutive chunks gives plans whose bucket ids, put
together plane by plane, are those of the plan of the request; and where all chunks can be
planned, so can the request. -/
theorem plans_independent_of_chunks (input : PlanInput F) (layout : ChunkLayout)
    (config : MaKVConfig F) (n : Nat) :
    Independent n layout.numLayers fun c => input.build (layout.cut c) config (some n) := by
  cases input with
  | importance scores hint status =>
    exact (cutsRequest_importance scores hint status layout config n).independent
  | functional payload promptHash =>
    exact (cutsRequest_functional payload promptHash layout config n).independent
  | scoutrank payload promptHash =>
    exact (cutsRequest_scoutrank payload promptHash layout config n).independent

end ScoutRank

def scoredTokens : PlanInput Decimal :=
  .importance ⟨[3], [⟨3000⟩, ⟨1000⟩, ⟨2000⟩], rfl⟩ (some "token") .null

def threeTokens : ChunkRange := ⟨0, 3, [2, 1, 3, 2], [6, 6, 2, 1]⟩

def oneAndTwo : List ChunkRange :=
  [⟨0, 1, [2, 1, 1, 2], [2, 2, 2, 1]⟩, ⟨1, 3, [2, 1, 2, 2], [4, 4, 2, 1]⟩]

theorem scoredTokens_builds : ∃ (config : MaKVConfig Decimal) (plan : MaKVQuantPlan),
    getMakvConfig sampleEnvironment (sampleRuntime [16, 8, 4]) = .ok config ∧
      scoredTokens.build (sampleLayout.cut threeTokens) config (some 3) = .ok plan :=
  ⟨_, _, rfl, rfl⟩

/-- A request of three tokens, cut into one and two. -/
theorem scoredTokens_cut : ∃ (config : MaKVConfig Decimal) (plan : MaKVQuantPlan)
    (plans : List MaKVQuantPlan),
    getMakvConfig sampleEnvironment (sampleRuntime [16, 8, 4]) = .ok config ∧
      scoredTokens.build (sampleLayout.cut threeTokens) config (some 3) = .ok plan ∧
      oneAndTwo.mapM (fun c => scoredTokens.build (sampleLayout.cut c) config (some 3)) =
        .ok plans ∧
      ∀ layer < 1, ∀ kv < 2,
        plans.flatMap (planeBucketIds layer kv) = planeBucketIds layer kv plan := by
  obtain ⟨config, plan, hConfig, hPlan⟩ := scoredTokens_builds
  have hCut : Consecutive 0 oneAndTwo 3 := ⟨rfl, by decide, rfl, by decide, rfl⟩
  obtain ⟨plans, hPlans, hIds⟩ :=
    (plans_independent_of_chunks scoredTokens sampleLayout config 3 threeTokens oneAndTwo rfl rfl
      hCut).1 plan hPlan
  exact ⟨config, plan, plans, hConfig, hPlan, hPlans, hIds⟩

end LMCache.MaKV
