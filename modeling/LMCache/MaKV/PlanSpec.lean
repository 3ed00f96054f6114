import LMCache.MaKV.ScoutPlan

/-!
# What the builders put into a plan

A ranking gives every token one bucket below the number of buckets, and bucket zero to
every token it leaves out. A plan of a chunk lists, plane by plane, the buckets that its
request has there.
-/

namespace LMCache.MaKV

open Lib List Option

variable {F : Type} [PyFloat F]

variable {mask : Option (List Bool)} {n : Nat}

theorem mem_scanScores {config : MaKVConfig F} {entry : Nat × F} (scores : List F) (idx : Nat)
    (h : entry ∈ (scanScores config mask n idx scores).sortable) :
    isProtected config mask n entry.1 = false := by
  induction scores generalizing idx with
  | nil => cases h
  | cons value rest ih =>
    rw [scanScores] at h
    split_ifs at h with hProtected hNan hInf
    · exact ih _ h
    · exact ih _ h
    · exact ih _ h
    · rcases mem_cons.mp h with rfl | hRest
      · simpa using hProtected
      · exact ih _ hRest

theorem length_bucketCounts {remaining last : Nat} (ratios : List F) (bucketIdx : Nat)
    (cumulative : F) (boundary : Int) {counts result : List Int}
    (h : bucketCounts remaining last bucketIdx cumulative boundary ratios counts = .ok result) :
    result.length = counts.length := by
  induction ratios generalizing bucketIdx cumulative boundary counts with
  | nil =>
    cases h
    rfl
  | cons ratio rest ih =>
    rw [bucketCounts] at h
    obtain ⟨next, -, h⟩ := bind_eq_ok.mp h
    obtain ⟨-, -, h⟩ := bind_eq_ok.mp h
    rw [ih _ _ _ h, length_set]

def fillBucket (bucketIdx : Nat) (entries : List (Nat × F)) (ids : List Nat) : List Nat :=
  entries.foldl (fun ids entry => ids.set entry.1 bucketIdx) ids

omit [PyFloat F] in
theorem length_fillBucket (bucketIdx : Nat) (entries : List (Nat × F)) (ids : List Nat) :
    (fillBucket bucketIdx entries ids).length = ids.length := by
  induction entries generalizing ids with
  | nil => rfl
  | cons entry rest ih => exact (ih _).trans length_set

variable {bucketIdx : Nat}

omit [PyFloat F] in
theorem getElem?_fillBucket {i : Nat} {entries : List (Nat × F)}
    (h : ∀ entry ∈ entries, entry.1 ≠ i) (ids : List Nat) :
    (fillBucket bucketIdx entries ids)[i]? = ids[i]? := by
  induction entries generalizing ids with
  | nil => rfl
  | cons entry rest ih =>
    have hRest := ih (fun e he => h e (by simp [he])) (ids.set entry.1 bucketIdx)
    rw [getElem?_set_ne (h entry (by simp))] at hRest
    exact hRest

variable {ids : List Nat}

omit [PyFloat F] in
theorem mem_fillBucket {id : Nat} {entries : List (Nat × F)}
    (h : id ∈ fillBucket bucketIdx entries ids) : id = bucketIdx ∨ id ∈ ids := by
  induction entries generalizing ids with
  | nil => exact Or.inr h
  | cons entry rest ih =>
    rcases ih h with hSame | hMem
    · exact Or.inl hSame
    · rcases mem_or_eq_of_mem_set hMem with hOld | hNew
      · exact Or.inr hOld
      · exact Or.inl hNew

omit [PyFloat F] in
theorem assignBuckets_spec (counts : List Int) (bucketIdx : Nat) (ranked : List (Nat × F))
    (ids : List Nat) :
    (assignBuckets bucketIdx counts ranked ids).length = ids.length ∧
      (∀ i, (∀ entry ∈ ranked, entry.1 ≠ i) →
        (assignBuckets bucketIdx counts ranked ids)[i]? = ids[i]?) ∧
      ∀ id ∈ assignBuckets bucketIdx counts ranked ids,
        id < bucketIdx + counts.length ∨ id ∈ ids := by
  induction counts generalizing bucketIdx ranked ids with
  | nil => exact ⟨rfl, fun _ _ => rfl, fun _ h => Or.inr h⟩
  | cons count counts ih =>
    obtain ⟨hLength, hKept, hBound⟩ := ih (bucketIdx + 1) (ranked.drop count.toNat)
      (fillBucket bucketIdx (ranked.take count.toNat) ids)
    refine ⟨hLength.trans (length_fillBucket _ _ _), ?_, ?_⟩
    · intro i hNot
      refine (hKept i fun entry he => hNot entry (mem_of_mem_drop he)).trans ?_
      exact getElem?_fillBucket (fun entry he => hNot entry (mem_of_mem_take he)) ids
    · intro id hId
      rw [length_cons]
      rcases hBound id hId with hLater | hMem
      · exact Or.inl (by omega)
      · rcases mem_fillBucket hMem with rfl | hOld
        · exact Or.inl (by omega)
        · exact Or.inr hOld

/-- One bucket for each of `n` tokens, and bucket zero for the tokens that are left out. -/
structure Ranked (config : MaKVConfig F) (mask : Option (List Bool)) (n : Nat)
    (ids : List Nat) : Prop where
  length : ids.length = n
  protect : ∀ i < n, isProtected config mask n i = true → ids[i]? = some 0
  bound : ∀ id ∈ ids, id < config.bucketBits.length ∨ id = 0

variable {nans infs : Nat}

theorem rankToBucketIds_ranked {scores : List F} {config : MaKVConfig F}
    (h : rankToBucketIds scores config mask = .ok (ids, nans, infs)) :
    Ranked config mask scores.length ids := by
  obtain ⟨-, -, h⟩ := bind_eq_ok.mp h
  obtain ⟨counts, hCounts, h⟩ := bind_eq_ok.mp h
  have hLength := length_bucketCounts _ _ _ _ hCounts
  rw [length_replicate] at hLength
  cases h
  obtain ⟨hIds, hKept, hBound⟩ := assignBuckets_spec counts 0
    ((scanScores config mask scores.length 0 scores).sortable.insertionSort
      fun a b => rankLe a b = true) (List.replicate scores.length 0)
  refine ⟨hIds.trans length_replicate, ?_, ?_⟩
  · intro i hi hProtected
    rw [hKept i, getElem?_replicate, if_pos hi]
    rintro entry hEntry rfl
    have hFree := mem_scanScores scores 0 ((perm_insertionSort _ _).mem_iff.mp hEntry)
    rw [hFree] at hProtected
    cases hProtected
  · intro id hId
    rcases hBound id hId with hLt | hZero
    · exact Or.inl (by omega)
    · exact Or.inr (eq_of_mem_replicate hZero)

variable {α : Type}

theorem length_pySlice {values : List α} {start stop : Int} (hStart : 0 ≤ start)
    (hStop : stop ≤ values.length) :
    (pySlice values start stop).length = (stop - start).toNat := by
  rw [pySlice, length_drop, length_take]
  omega

theorem getElem?_pySlice (values : List α) {start stop : Int} (hStart : 0 ≤ start) {i : Nat}
    (hi : i < (stop - start).toNat) :
    (pySlice values start stop)[i]? = values[start.toNat + i]? := by
  rw [pySlice, getElem?_drop, getElem?_take, if_pos (by omega)]

theorem pySlice_map {β : Type} (f : α → β) (values : List α) (start stop : Int) :
    pySlice (values.map f) start stop = (pySlice values start stop).map f := by
  rw [pySlice, pySlice, map_drop, map_take]

theorem toByteString_spec {values : List Nat} {bytes : Bytes}
    (h : toByteString values = .ok bytes) (i : Nat) :
    bytes[i]?.map UInt8.toNat = values[i]? := by
  unfold toByteString at h
  split at h
  · rename_i hAll
    cases h
    rw [getElem?_map, Option.map_map]
    cases hValue : values[i]? with
    | none => rfl
    | some value =>
      have hSmall := List.all_eq_true.mp hAll value (mem_of_getElem? hValue)
      rw [decide_eq_true_eq] at hSmall
      simp only [map_some, Function.comp_apply, UInt8.toNat_ofNat']
      rw [Nat.mod_eq_of_lt (by omega)]
  · cases h

theorem length_toByteString {values : List Nat} {bytes : Bytes}
    (h : toByteString values = .ok bytes) : bytes.length = values.length := by
  unfold toByteString at h
  split at h
  · cases h
    rw [length_map]
  · cases h

theorem length_planeRows (numLayers : Int) :
    (planeRows numLayers).length = numLayers.toNat * 2 := by
  rw [planeRows, Tensor.length_flatMap_const _ _ (n := 2) fun _ _ => rfl, length_range]

variable {numLayers : Int} {layer kv : Nat}

theorem getElem?_planeRows (hLayer : layer < numLayers.toNat) (hKv : kv < 2) :
    (planeRows numLayers)[layer * 2 + kv]? = some (layer, kv) := by
  rw [planeRows, Tensor.getElem?_flatMap_const _ _ (n := 2) (fun _ _ => rfl) hKv,
    getElem?_range hLayer, bind_some]
  rcases Nat.lt_succ_iff_lt_or_eq.mp hKv with hZero | rfl
  · obtain rfl : kv = 0 := by omega
    rfl
  · rfl

structure RowsFor (n : Nat) (P : Nat → Nat → List Nat → Prop) (planes : List (Nat × Nat))
    (rows : List (List Nat)) : Prop where
  length : rows.length = planes.length
  row : ∀ (k layer kv : Nat), planes[k]? = some (layer, kv) →
    ∃ row, rows[k]? = some row ∧ row.length = n ∧ P layer kv row

variable {P : Nat → Nat → List Nat → Prop} {planes : List (Nat × Nat)} {rows : List (List Nat)}

theorem RowsFor.cons {row : List Nat} (hLength : row.length = n) (hRow : P layer kv row)
    (h : RowsFor n P planes rows) : RowsFor n P ((layer, kv) :: planes) (row :: rows) where
  length := by rw [length_cons, length_cons, h.length]
  row := by
    intro k l p hAt
    cases k with
    | zero =>
      cases hAt
      exact ⟨row, rfl, hLength, hRow⟩
    | succ k => exact h.row k l p hAt

theorem RowsFor.length_of_mem (h : RowsFor n P planes rows) {row : List Nat} (hRow : row ∈ rows) :
    row.length = n := by
  obtain ⟨j, hj⟩ := mem_iff_getElem?.mp hRow
  have hLt : j < planes.length := by
    rw [← h.length]
    exact (List.getElem?_eq_some_iff.mp hj).1
  obtain ⟨row', hRow', hLength, -⟩ := h.row j _ _ (getElem?_eq_getElem hLt)
  rw [hj] at hRow'
  cases hRow'
  exact hLength

theorem RowsFor.length_flatten (h : RowsFor n P planes rows) :
    rows.flatten.length = planes.length * n := by
  rw [← flatMap_id, Tensor.length_flatMap_const rows id fun _ hr => h.length_of_mem hr, h.length]

def planeBucket (config : MaKVConfig F) (kv tier : Nat) : Option Nat :=
  let pairBucket (pairBits : List (Int × Int)) : Option Nat :=
    pairBits[tier]?.bind fun pair =>
      (bitToBucket config.bucketBits).get? (if kv = 0 then pair.1 else pair.2)
  match config.precisionScheme with
  | .shared => some tier
  | .kvSeparate3Tier => pairBucket kvSeparate3TierPairBits
  | .kvSeparate4Tier => pairBucket kvSeparate4TierPairBits

/-- The separate schemes have fixed buckets. -/
def SchemeBits (config : MaKVConfig F) : Prop :=
  match config.precisionScheme with
  | .shared => True
  | .kvSeparate3Tier => config.bucketBits = [8, 4, 2]
  | .kvSeparate4Tier => config.bucketBits = [16, 8, 4, 2]

/-- The buckets of one plane of a request: those of the tiers of a ranking. -/
def PlaneIds (config : MaKVConfig F) (mask : Option (List Bool)) (n kv : Nat)
    (ids : List Nat) : Prop :=
  SchemeBits config ∧ ∃ tiers, Ranked config mask n tiers ∧ ids.length = n ∧
    ∀ i : Nat, ids[i]? = tiers[i]?.bind (planeBucket config kv)

theorem rankRows_spec {config : MaKVConfig F} {scores : Nat → Nat → List F}
    (planes : List (Nat × Nat)) (hScores : ∀ p ∈ planes, (scores p.1 p.2).length = n)
    (h : rankRows config mask scores planes = .ok (rows, nans, infs)) :
    RowsFor n (fun _ _ => Ranked config mask n) planes rows := by
  induction planes generalizing rows nans infs with
  | nil =>
    cases h
    exact ⟨rfl, fun _ _ _ hAt => nomatch hAt⟩
  | cons plane rest ih =>
    obtain ⟨layer, kv⟩ := plane
    rw [rankRows] at h
    obtain ⟨⟨ids, nans₁, infs₁⟩, hRank, h⟩ := bind_eq_ok.mp h
    obtain ⟨⟨more, nans₂, infs₂⟩, hMore, h⟩ := bind_eq_ok.mp h
    cases h
    have hRanked := rankToBucketIds_ranked hRank
    rw [hScores (layer, kv) (by simp)] at hRanked
    exact (ih (fun p hp => hScores p (by simp [hp])) hMore).cons hRanked.length hRanked

def ScoreLayout.HasLength (n : Nat) (numLayers : Int) : ScoreLayout F → Prop
  | .token scores => scores.length = n
  | .layerKvToken scores => ∀ p ∈ planeRows numLayers, (scores p.1 p.2).length = n

variable {scores : ScoreLayout F}

theorem tierRows_spec {config : MaKVConfig F} (hScores : scores.HasLength n numLayers)
    (h : tierRows scores config mask (planeRows numLayers) = .ok (rows, nans, infs)) :
    RowsFor n (fun _ _ => Ranked config mask n) (planeRows numLayers) rows := by
  cases scores with
  | token scores =>
    obtain ⟨⟨ids, nans₁, infs₁⟩, hRank, h⟩ := bind_eq_ok.mp h
    cases h
    have hRanked := rankToBucketIds_ranked hRank
    rw [show scores.length = n from hScores] at hRanked
    refine ⟨length_map _, ?_⟩
    intro k layer kv hAt
    exact ⟨ids, by rw [getElem?_map, hAt]; rfl, hRanked.length, hRanked⟩
  | layerKvToken scores => exact rankRows_spec _ hScores h

theorem bucketOfBit_eq_ok {bits : List Int} {bit : Int} {bucket : Nat} :
    bucketOfBit bits bit = .ok bucket ↔ (bitToBucket bits).get? bit = some bucket := by
  unfold bucketOfBit
  cases (bitToBucket bits).get? bit <;> simp [raise]

omit [PyFloat F] in
theorem kvSeparateBucketIds_spec {tiers : List Nat} {config : MaKVConfig F}
    {pairs : List (Nat × Nat)} (h : kvSeparateBucketIds tiers config = .ok pairs) :
    SchemeBits config ∧ pairs.length = tiers.length ∧ ∀ i kv : Nat,
      (pairs.map fun pair => if kv = 0 then pair.1 else pair.2)[i]? =
        tiers[i]?.bind (planeBucket config kv) := by
  obtain ⟨⟨pairBits, required⟩, hScheme, h⟩ := bind_eq_ok.mp h
  obtain ⟨_, hRequired, h⟩ := bind_eq_ok.mp h
  obtain ⟨hLength, hAll⟩ := mapM_eq_ok h
  rw [rejectIf_eq_ok, decide_eq_false_iff_not, ne_eq, not_not] at hRequired
  refine ⟨?_, hLength, ?_⟩
  · unfold SchemeBits
    cases hConfig : config.precisionScheme with
    | shared => trivial
    | kvSeparate3Tier | kvSeparate4Tier =>
      rw [hConfig] at hScheme
      cases hScheme
      exact hRequired
  intro i kv
  rw [getElem?_map]
  cases hPair : pairs[i]? with
  | none =>
    have hNone : tiers[i]? = none := by
      rw [List.getElem?_eq_none_iff] at hPair ⊢
      omega
    rw [hNone]
    rfl
  | some pair =>
    obtain ⟨tier, hTier, hBucket⟩ := hAll i pair hPair
    obtain ⟨bits, hBits, hBucket⟩ := bind_eq_ok.mp hBucket
    obtain ⟨k, hK, hBucket⟩ := bind_eq_ok.mp hBucket
    obtain ⟨v, hV, hBucket⟩ := bind_eq_ok.mp hBucket
    cases hBucket
    have hAt : pairBits[tier]? = some bits := by
      unfold tierPair at hBits
      split at hBits
      · rename_i hSome
        cases hBits
        exact hSome
      · cases hBits
    rw [bucketOfBit_eq_ok] at hK hV
    have hPlane : planeBucket config kv tier = pairBits[tier]?.bind fun pair =>
        (bitToBucket config.bucketBits).get? (if kv = 0 then pair.1 else pair.2) := by
      unfold planeBucket
      cases hConfig : config.precisionScheme with
      | shared =>
        rw [hConfig] at hScheme
        cases hScheme
      | kvSeparate3Tier | kvSeparate4Tier =>
        rw [hConfig] at hScheme
        cases hScheme
        rfl
    rw [hTier, bind_some, hPlane, hAt, bind_some, map_some]
    split_ifs
    · exact hK.symm
    · exact hV.symm

def PlanePiece (config : MaKVConfig F) (mask : Option (List Bool)) (n : Nat)
    (layout : ChunkLayout) (_layer kv : Nat) (piece : List Nat) : Prop :=
  ∃ ids, PlaneIds config mask n kv ids ∧ piece = pySlice ids layout.chunkStart layout.chunkEnd

def ChunkLayout.length (layout : ChunkLayout) : Nat := (layout.chunkEnd - layout.chunkStart).toNat

omit [PyFloat F] in
theorem separateIds_spec {config : MaKVConfig F} {layout : ChunkLayout}
    (hStart : 0 ≤ layout.chunkStart) (hEnd : layout.chunkEnd ≤ n)
    (hRows : RowsFor n (fun _ _ => Ranked config mask n) planes rows)
    (h : separateIds config layout (rows.zip (planes.map Prod.snd)) = .ok ids) :
    ∃ pieces, ids = pieces.flatten ∧
      RowsFor layout.length (PlanePiece config mask n layout) planes pieces := by
  induction planes generalizing rows ids with
  | nil =>
    rw [map_nil, zip_nil_right] at h
    cases h
    exact ⟨[], rfl, rfl, fun _ _ _ hAt => nomatch hAt⟩
  | cons plane rest ih =>
    obtain ⟨layer, kv⟩ := plane
    cases rows with
    | nil => cases hRows.length
    | cons row more =>
      obtain ⟨row', hRow', -, hRanked⟩ := hRows.row 0 layer kv rfl
      cases hRow'
      have hMore : RowsFor n (fun _ _ => Ranked config mask n) rest more :=
        ⟨by simpa using hRows.length, fun k l p hAt => hRows.row (k + 1) l p hAt⟩
      rw [map_cons, zip_cons_cons, separateIds] at h
      obtain ⟨piece, hPiece, h⟩ := bind_eq_ok.mp h
      obtain ⟨tail, hTail, h⟩ := bind_eq_ok.mp h
      cases h
      obtain ⟨pieces, rfl, hPieces⟩ := ih hMore hTail
      obtain ⟨pairs, hPairs, hPiece⟩ := bind_eq_ok.mp hPiece
      cases hPiece
      obtain ⟨hScheme, hLength, hBuckets⟩ := kvSeparateBucketIds_spec hPairs
      have hFull : pairs.length = n := hLength.trans hRanked.length
      refine ⟨_ :: pieces, (flatten_cons ..).symm, hPieces.cons ?_ ?_⟩
      · rw [length_map, length_pySlice hStart (by omega)]
        rfl
      · refine ⟨pairs.map fun pair => if kv = 0 then pair.1 else pair.2,
          ⟨hScheme, row, hRanked, by rw [length_map, hFull], fun i => hBuckets i kv⟩, ?_⟩
        rw [pySlice_map]

theorem chunkBucketIds_spec {config : MaKVConfig F} {layout : ChunkLayout}
    (hScores : scores.HasLength n layout.numLayers) (hStart : 0 ≤ layout.chunkStart)
    (hEnd : layout.chunkEnd ≤ n) {name : String} {bytes : Bytes}
    (h : chunkBucketIds scores config mask layout = .ok (name, bytes, nans, infs)) :
    (name = "token" ∧ bytes.length = layout.length ∧ ∃ ids, (∀ kv, PlaneIds config mask n kv ids) ∧
      ∀ token < layout.length,
        bytes[token]?.map UInt8.toNat = ids[layout.chunkStart.toNat + token]?) ∨
    (name = "layer_kv_token" ∧ bytes.length = layout.numLayers.toNat * 2 * layout.length ∧
      ∀ layer < layout.numLayers.toNat, ∀ kv < 2, ∃ ids, PlaneIds config mask n kv ids ∧
        ∀ token < layout.length,
          bytes[(layer * 2 + kv) * layout.length + token]?.map UInt8.toNat =
            ids[layout.chunkStart.toNat + token]?) := by
  have hLayered : ∀ pieces : List (List Nat), toByteString pieces.flatten = .ok bytes →
      RowsFor layout.length (PlanePiece config mask n layout) (planeRows layout.numLayers) pieces →
      bytes.length = layout.numLayers.toNat * 2 * layout.length ∧
      ∀ layer < layout.numLayers.toNat, ∀ kv < 2, ∃ ids, PlaneIds config mask n kv ids ∧
        ∀ token < layout.length,
          bytes[(layer * 2 + kv) * layout.length + token]?.map UInt8.toNat =
            ids[layout.chunkStart.toNat + token]? := by
    intro pieces hBytes hPieces
    refine ⟨by rw [length_toByteString hBytes, hPieces.length_flatten, length_planeRows], ?_⟩
    intro layer hLayer kv hKv
    obtain ⟨piece, hPiece, -, ids, hIds, rfl⟩ :=
      hPieces.row _ _ _ (getElem?_planeRows hLayer hKv)
    refine ⟨ids, hIds, ?_⟩
    intro token hToken
    rw [toByteString_spec hBytes, ← flatMap_id, Tensor.getElem?_flatMap_const pieces id
      (fun _ hr => hPieces.length_of_mem hr) hToken, hPiece]
    exact getElem?_pySlice ids hStart hToken
  unfold chunkBucketIds at h
  split at h
  · rename_i hShared
    have hPlane : ∀ ids kv, Ranked config mask n ids → PlaneIds config mask n kv ids := by
      intro ids kv hRanked
      refine ⟨by rw [SchemeBits, hShared]; trivial, ids, hRanked, hRanked.length, fun i => ?_⟩
      have hBucket : planeBucket config kv = some := by
        funext tier
        rw [planeBucket, hShared]
      rw [hBucket, bind_fun_some]
    cases scores with
    | token scores =>
      obtain ⟨⟨ids, nans₁, infs₁⟩, hRank, h⟩ := bind_eq_ok.mp h
      obtain ⟨bytes', hBytes, h⟩ := bind_eq_ok.mp h
      cases h
      have hRanked := rankToBucketIds_ranked hRank
      rw [show scores.length = n from hScores] at hRanked
      refine Or.inl ⟨rfl, ?_, ids, fun kv => hPlane ids kv hRanked, ?_⟩
      · rw [length_toByteString hBytes, length_pySlice hStart (by rw [hRanked.length]; exact hEnd)]
        rfl
      · intro token hToken
        rw [toByteString_spec hBytes]
        exact getElem?_pySlice ids hStart hToken
    | layerKvToken scores =>
      obtain ⟨⟨rows, nans₁, infs₁⟩, hRank, h⟩ := bind_eq_ok.mp h
      obtain ⟨bytes', hBytes, h⟩ := bind_eq_ok.mp h
      cases h
      have hRows := rankRows_spec _ hScores hRank
      rw [flatMap_def] at hBytes
      refine Or.inr ⟨rfl, hLayered _ hBytes ⟨by rw [length_map, hRows.length], ?_⟩⟩
      intro k layer kv hAt
      obtain ⟨row, hRow, hLength, hRanked⟩ := hRows.row k layer kv hAt
      refine ⟨_, by rw [getElem?_map, hRow]; rfl, ?_, row, hPlane row kv hRanked, rfl⟩
      rw [length_pySlice hStart (by omega)]
      rfl
  · obtain ⟨⟨rows, nans₁, infs₁⟩, hRank, h⟩ := bind_eq_ok.mp h
    obtain ⟨ids, hIds, h⟩ := bind_eq_ok.mp h
    obtain ⟨bytes', hBytes, h⟩ := bind_eq_ok.mp h
    cases h
    obtain ⟨pieces, rfl, hPieces⟩ := separateIds_spec hStart hEnd (tierRows_spec hScores hRank) hIds
    exact Or.inr ⟨rfl, hLayered pieces hBytes hPieces⟩

def bucketIndex (plan : MaKVQuantPlan) (layer kv token : Nat) : Nat :=
  if plan.importanceLayout = "token" then token
  else (layer * 2 + kv) * plan.chunkLength.toNat + token

def bucketIdAt (plan : MaKVQuantPlan) (layer kv token : Nat) : Option Nat :=
  plan.bucketIds[bucketIndex plan layer kv token]?.map UInt8.toNat

def planWidth (plan : MaKVQuantPlan) (layer kv token : Nat) : Option Int :=
  (bucketIdAt plan layer kv token).bind fun id => plan.bucketBits[id]?

/-- What the plans of all builders record of the chunk and the configuration. -/
structure PlanFor (layout : ChunkLayout) (config : MaKVConfig F) (plan : MaKVQuantPlan) : Prop where
  version : plan.protocolVersion = 1
  chunkStart : plan.chunkStart = layout.chunkStart
  chunkLength : plan.chunkLength = layout.chunkEnd - layout.chunkStart
  bits : plan.bucketBits = config.bucketBits
  shape : plan.originalShape = layout.originalShape
  dtype : plan.originalDtype = layout.originalDtype
  layers : plan.numLayers = layout.numLayers
  heads : plan.numKvHeads = layout.numKvHeads
  dim : plan.headDim = layout.headDim
  granularity : plan.quantGranularity = config.quantGranularity
  scales : plan.scaleDtype = config.scaleDtype.text
  ids_length : plan.importanceLayout = "token" ∧ plan.bucketIds.length = layout.length ∨
    plan.importanceLayout = "layer_kv_token" ∧
      plan.bucketIds.length = layout.numLayers.toNat * 2 * layout.length
  chunk : 0 ≤ layout.chunkStart ∧ layout.chunkStart ≤ layout.chunkEnd

variable {tokenCount : Int}

theorem ChunkLayout.inRequest_iff {layout : ChunkLayout} :
    layout.inRequest tokenCount = true ↔ 0 ≤ layout.chunkStart ∧
      layout.chunkStart ≤ layout.chunkEnd ∧ layout.chunkEnd ≤ tokenCount := by
  simp only [ChunkLayout.inRequest, Bool.and_eq_true, decide_eq_true_eq, and_assoc]

theorem mem_planeRows : (layer, kv) ∈ planeRows numLayers ↔ layer < numLayers.toNat ∧ kv < 2 := by
  simp only [planeRows, mem_flatMap, mem_range, mem_cons, Prod.mk.injEq, not_mem_nil, or_false]
  constructor
  · rintro ⟨l, hl, ⟨rfl, rfl⟩ | ⟨rfl, rfl⟩⟩
    · exact ⟨hl, by decide⟩
    · exact ⟨hl, by decide⟩
  · rintro ⟨hLayer, hKv⟩
    refine ⟨layer, hLayer, ?_⟩
    omega

variable {importance : Tensor F} {hint : Option String}

omit [PyFloat F] in
theorem normalizeImportanceTensor_spec
    (h : normalizeImportanceTensor importance hint numLayers tokenCount = .ok scores) :
    0 ≤ tokenCount ∧ scores.HasLength tokenCount.toNat numLayers := by
  have hData := importance.length_data
  unfold normalizeImportanceTensor at h
  split at h
  · rename_i length hShape
    split at h
    · cases h
    · rename_i hCount
      cases h
      rw [hShape, prod_singleton] at hData
      refine ⟨by omega, ?_⟩
      change importance.data.length = tokenCount.toNat
      omega
  · rename_i layers planes length hShape
    split at h
    · cases h
    · rename_i hSame
      cases h
      push Not at hSame
      obtain ⟨hLayers, rfl, hCount⟩ := hSame
      refine ⟨by omega, ?_⟩
      rintro ⟨layer, kv⟩ hMem
      obtain ⟨hLayer, hKv⟩ := mem_planeRows.mp hMem
      have hRow : (layer * 2 + kv + 1) * length ≤ layers * 2 * length :=
        Nat.mul_le_mul_right _ (by omega)
      rw [Nat.succ_mul] at hRow
      rw [hShape, prod_cons, prod_cons, prod_singleton, ← Nat.mul_assoc] at hData
      change ((importance.data.drop ((layer * 2 + kv) * length)).take length).length = _
      rw [length_take, length_drop]
      omega
  · split at h <;> cases h

variable [Sha256]

theorem buildChunkQuantPlan_spec {layout : ChunkLayout} {config : MaKVConfig F}
    {request : Option Int} {status : Json F} {plan : MaKVQuantPlan}
    (h : buildChunkQuantPlan importance hint layout config request status = .ok plan) :
    PlanFor layout config plan ∧ plan.precisionScheme = config.precisionScheme.text ∧
      ∃ (tokenCount : Int) (mask : Option (List Bool)),
        normalizeImportanceStatus status tokenCount = .ok mask ∧ layout.chunkEnd ≤ tokenCount ∧
        ∀ layer < layout.numLayers.toNat, ∀ kv < 2, ∃ ids,
          PlaneIds config mask tokenCount.toNat kv ids ∧ ∀ token < layout.length,
            bucketIdAt plan layer kv token = ids[layout.chunkStart.toNat + token]? := by
  obtain ⟨tokenCount, -, h⟩ := bind_eq_ok.mp h
  obtain ⟨scores, hScores, h⟩ := bind_eq_ok.mp h
  obtain ⟨_, hRange, h⟩ := bind_eq_ok.mp h
  obtain ⟨mask, hMask, h⟩ := bind_eq_ok.mp h
  obtain ⟨⟨name, bytes, nans, infs⟩, hIds, h⟩ := bind_eq_ok.mp h
  cases h
  rw [rejectIf_eq_ok, Bool.not_eq_false', ChunkLayout.inRequest_iff] at hRange
  obtain ⟨hStart, hOrder, hEnd⟩ := hRange
  obtain ⟨hCount, hLengths⟩ := normalizeImportanceTensor_spec hScores
  have hSpec := chunkBucketIds_spec hLengths hStart (by omega) hIds
  refine ⟨⟨rfl, rfl, rfl, rfl, rfl, rfl, rfl, rfl, rfl, rfl, rfl, ?_, hStart, hOrder⟩, rfl,
    tokenCount, mask, hMask, hEnd, ?_⟩
  · rcases hSpec with ⟨rfl, hLength, -⟩ | ⟨rfl, hLength, -⟩
    · exact Or.inl ⟨rfl, hLength⟩
    · exact Or.inr ⟨rfl, hLength⟩
  · intro layer hLayer kv hKv
    rcases hSpec with ⟨rfl, -, ids, hPlane, hAt⟩ | ⟨rfl, -, hPlanes⟩
    · exact ⟨ids, hPlane kv, hAt⟩
    · exact hPlanes layer hLayer kv hKv

end LMCache.MaKV
