import LMCache.MaKV.BucketSpec

/-!
# The loop over the buckets

For a plan that describes its tensor, every round of the quantizer gathers the vectors of
one bucket and writes their positions, codes and scales under the names of its width. The
rounds of other widths leave these payloads alone.
-/

namespace LMCache.MaKV

open Lib List Dict

variable {F E W : Type}

/-- What the readers of a plan find in its dictionary. -/
structure PlanItems [PyRuntime F] (plan : MaKVQuantPlan) (json : Json F) : Prop where
  isObject : json.isObject = true
  layout : json.item "importance_layout" = .ok (.str plan.importanceLayout)
  chunkLength : json.item "chunk_length" = .ok (.int plan.chunkLength)
  bucketBits : json.item "bucket_bits" = .ok (intList plan.bucketBits)
  originalDtype : json.item "original_dtype" = .ok (.str plan.originalDtype)
  numLayers : json.item "num_layers" = .ok (.int plan.numLayers)
  numKvHeads : json.item "num_kv_heads" = .ok (.int plan.numKvHeads)
  headDim : json.item "head_dim" = .ok (.int plan.headDim)
  scaleDtype : json.item "scale_dtype" = .ok (.str plan.scaleDtype)

theorem planJson_items [PyFloat F] (plan : MaKVQuantPlan) :
    PlanItems plan (planJson plan : Json F) := by
  rw [planJson, MaKVQuantPlan.toDict, entries_ofList (by simp only [map_cons, map_nil]; decide)]
  exact ⟨rfl, rfl, rfl, rfl, rfl, rfl, rfl, rfl, rfl⟩

variable {plan : MaKVQuantPlan} {json : Json F}

theorem PlanItems.dims [PyRuntime F] (h : PlanItems plan json) : PlanDims.ofPlan json =
      .ok ⟨plan.numLayers, plan.numKvHeads, plan.headDim, plan.chunkLength⟩ := by
  rw [PlanDims.ofPlan, h.numLayers, h.numKvHeads, h.headDim, h.chunkLength]
  rfl

theorem residualShape_token [PyRuntime F] (h : PlanItems plan json)
    (hLayout : plan.importanceLayout = "token") (count : Int) : residualShape json count =
      .ok [plan.numLayers, 2, count, plan.numKvHeads, plan.headDim] := by
  rw [residualShape, h.layout, h.numLayers, h.numKvHeads, h.headDim, hLayout]
  rfl

theorem residualShape_layer [PyRuntime F] (h : PlanItems plan json)
    (hLayout : plan.importanceLayout = "layer_kv_token") (count : Int) :
    residualShape json count = .ok [count, plan.numKvHeads, plan.headDim] := by
  rw [residualShape, h.layout, h.numLayers, h.numKvHeads, h.headDim, hLayout]
  rfl

/-- The plan has the dimensions of the tensor and one bucket id for every token, or for every
token of every layer and plane. -/
structure Describes (plan : MaKVQuantPlan) (kv : CanonicalKv E) : Prop where
  numLayers : plan.numLayers = kv.layers
  chunkLength : plan.chunkLength = kv.tokens
  numKvHeads : plan.numKvHeads = kv.heads
  headDim : plan.headDim = kv.dim
  layout : plan.importanceLayout = "token" ∧ plan.bucketIds.length = kv.tokens ∨
    plan.importanceLayout = "layer_kv_token" ∧ plan.bucketIds.length = kv.layers * 2 * kv.tokens

/-- What the quantizer can store: a tensor that is not empty, places that fit 32 bits and
distinct widths that it supports. -/
structure Quantizable (plan : MaKVQuantPlan) (kv : CanonicalKv E) : Prop extends
    Describes plan kv where
  layers_pos : 0 < kv.layers
  heads_pos : 0 < kv.heads
  dim_pos : 0 < kv.dim
  places_lt : plan.bucketIds.length ≤ 2 ^ 31
  widths : ∀ bit ∈ plan.bucketBits, IsWidth bit
  nodup : plan.bucketBits.Nodup

/-- The bucket of a width: the place of the width in the plan. -/
def bucketOf (plan : MaKVQuantPlan) (bit : Int) : Nat :=
  ((bitsToBucket plan.bucketBits).get? bit).getD 0

/-- The places of a width in the bucket ids of a plan. -/
def placesOf (plan : MaKVQuantPlan) (bit : Int) : List Nat :=
  bucketPlaces plan.bucketIds (bucketOf plan bit)

/-- Layer, plane and token of every group of heads of a bucket, in the order of its payload. -/
def bucketGroups (plan : MaKVQuantPlan) (kv : CanonicalKv E) (bit : Int) :
    List (Nat × Nat × Nat) :=
  if plan.importanceLayout = "token" then
    (List.range kv.layers).flatMap fun layer => (List.range 2).flatMap fun plane =>
      (placesOf plan bit).map fun token => (layer, plane, token)
  else (placesOf plan bit).map fun i =>
    (i / (2 * kv.tokens), i / kv.tokens % 2, i % kv.tokens)

def groupVectors (kv : CanonicalKv E) (group : Nat × Nat × Nat) : List (List E) :=
  (List.range kv.heads).map (kv.vector group.1 group.2.1 group.2.2)

def bucketVectors (plan : MaKVQuantPlan) (kv : CanonicalKv E) (bit : Int) : List (List E) :=
  (bucketGroups plan kv bit).flatMap (groupVectors kv)

variable {kv : CanonicalKv E}

theorem length_of_mem_bucketVectors {bit : Int} :
    ∀ v ∈ bucketVectors plan kv bit, v.length = kv.dim := by
  intro v hv
  obtain ⟨group, -, hGroup⟩ := mem_flatMap.mp hv
  obtain ⟨head, -, rfl⟩ := mem_map.mp hGroup
  rw [CanonicalKv.vector, length_map, length_range]

theorem length_bucketVectors (plan : MaKVQuantPlan) (kv : CanonicalKv E) (bit : Int) :
    (bucketVectors plan kv bit).length = (bucketGroups plan kv bit).length * kv.heads :=
  Tensor.length_flatMap_const _ _ fun group _ => by
    rw [groupVectors, length_map, length_range]

variable {i : Nat}

theorem mem_bucketPlaces {ids : Bytes} {bucket : Nat} :
    i ∈ bucketPlaces ids bucket ↔ i < ids.length ∧ (ids.getD i 0).toNat = bucket := by
  rw [bucketPlaces, mem_filter, mem_range, decide_eq_true_eq]

theorem lt_of_mem_placesOf {bit : Int} (h : i ∈ placesOf plan bit) : i < plan.bucketIds.length :=
  (mem_bucketPlaces.mp h).1

theorem bucketGroups_of_placesOf_nil {bit : Int} (h : placesOf plan bit = []) :
    bucketGroups plan kv bit = [] := by
  unfold bucketGroups
  rw [h]
  split_ifs
  · simp
  · rfl

theorem length_bucketGroups {bit : Int} : (bucketGroups plan kv bit).length =
      if plan.importanceLayout = "token" then kv.layers * 2 * (placesOf plan bit).length
      else (placesOf plan bit).length := by
  unfold bucketGroups
  split_ifs
  · rw [Tensor.length_flatMap_const _ _ fun layer _ => (Tensor.length_flatMap_const _ _
      fun plane _ => length_map _), length_range, length_range, Nat.mul_assoc]
  · rw [length_map]

theorem Quantizable.bucketVectors_ne_nil {bit : Int} (h : Quantizable plan kv)
    (hPlaces : placesOf plan bit ≠ []) : bucketVectors plan kv bit ≠ [] := by
  have hPos := length_pos_iff.mpr hPlaces
  have hGroups : 0 < (bucketGroups plan kv bit).length := by
    rw [length_bucketGroups]
    split_ifs
    · exact Nat.mul_pos (Nat.mul_pos h.layers_pos (by decide)) hPos
    · exact hPos
  rw [← length_pos_iff, length_bucketVectors]
  exact Nat.mul_pos hGroups h.heads_pos

theorem int32_eq (h : i < 2 ^ 31) : int32 i = i := by
  refine signedOfBytes_signedBytes ?_ ?_
  · norm_num
    omega
  · norm_num at h ⊢
    omega

theorem resolveIndex_eq {size : Nat} (h : i < size) : resolveIndex size i = .ok i := by
  rw [resolveIndex, if_pos ⟨Int.natCast_nonneg i, by exact_mod_cast h⟩, Int.toNat_natCast]

theorem gatherTokens_eq {bit : Int} (hLayout : plan.importanceLayout = "token")
    (hLength : plan.bucketIds.length = kv.tokens) (hSmall : plan.bucketIds.length ≤ 2 ^ 31) :
    gatherTokens kv (placesOf plan bit) =
      .ok ⟨(placesOf plan bit).map fun i : Nat => (i : Int), bucketVectors plan kv bit⟩ := by
  have hPositions : (placesOf plan bit).map int32 =
      (placesOf plan bit).map fun i : Nat => (i : Int) :=
    map_congr_left fun i hi => int32_eq (by have h := lt_of_mem_placesOf hi; omega)
  have hTokens : ((placesOf plan bit).map fun i : Nat => (i : Int)).mapM (resolveIndex kv.tokens) =
      .ok (placesOf plan bit) := by
    have hEach : ∀ i ∈ placesOf plan bit,
        (resolveIndex kv.tokens ∘ fun i : Nat => (i : Int)) i = .ok (id i) := fun i hi =>
      resolveIndex_eq (hLength ▸ lt_of_mem_placesOf hi)
    rw [mapM_map, mapM_ok hEach, map_id]
  simp only [gatherTokens, hPositions, hTokens, ok_bind]
  refine congrArg Except.ok ?_
  simp only [bucketVectors, bucketGroups, if_pos hLayout, flatMap_assoc, flatMap_map]
  rfl

theorem gatherEntries_eq {bit : Int} (hLayout : plan.importanceLayout ≠ "token")
    (hLength : plan.bucketIds.length = kv.layers * 2 * kv.tokens)
    (hSmall : plan.bucketIds.length ≤ 2 ^ 31) : gatherEntries kv kv.tokens (placesOf plan bit) =
      .ok ⟨(placesOf plan bit).map fun i : Nat => (i : Int), bucketVectors plan kv bit⟩ := by
  have hParts : ∀ i ∈ placesOf plan bit, i / (2 * kv.tokens) < kv.layers ∧ 0 < kv.tokens ∧
      (i / (2 * kv.tokens) * 2 + i / kv.tokens % 2) * kv.tokens + i % kv.tokens = i := by
    intro i hi
    have hPlace := lt_of_mem_placesOf hi
    have hTokens : 0 < kv.tokens := by
      by_contra hNone
      rw [Nat.eq_zero_of_not_pos hNone] at hLength
      omega
    refine ⟨?_, hTokens, ?_⟩
    · rw [Nat.div_lt_iff_lt_mul (by omega), ← Nat.mul_assoc]
      omega
    · have hHalf : i / (2 * kv.tokens) = i / kv.tokens / 2 := by
        rw [Nat.mul_comm, Nat.div_div_eq_div_mul]
      rw [hHalf, Nat.div_add_mod', Nat.div_add_mod']
  have hBounds : ((placesOf plan bit).map fun i =>
      (i / (2 * kv.tokens), i / kv.tokens % 2, i % kv.tokens)).any
        (fun place => kv.layers ≤ place.1 || kv.tokens ≤ place.2.2) = false := by
    rw [any_map, any_eq_false]
    intro i hi
    obtain ⟨hLayer, hTokens, -⟩ := hParts i hi
    have hToken := Nat.mod_lt i hTokens
    simp only [Function.comp_apply, Bool.or_eq_true, decide_eq_true_eq, not_or, Nat.not_le]
    exact ⟨hLayer, hToken⟩
  have hPositions : (placesOf plan bit).map (fun i =>
      int32 ((i / (2 * kv.tokens) * 2 + i / kv.tokens % 2) * kv.tokens + i % kv.tokens)) =
      (placesOf plan bit).map fun i : Nat => (i : Int) := by
    refine map_congr_left fun i hi => ?_
    obtain ⟨-, -, hBack⟩ := hParts i hi
    have hPlace := lt_of_mem_placesOf hi
    rw [hBack, int32_eq (by omega)]
  have hVectors : ((placesOf plan bit).map fun i =>
      (i / (2 * kv.tokens), i / kv.tokens % 2, i % kv.tokens)).flatMap (groupVectors kv) =
      bucketVectors plan kv bit := by
    rw [bucketVectors, bucketGroups, if_neg hLayout]
  unfold gatherEntries
  dsimp only
  rw [hBounds, raiseIf_false, ok_bind, ← hPositions, ← hVectors]
  refine congrArg Except.ok ?_
  rw [GatheredBucket.mk.injEq]
  refine ⟨?_, rfl⟩
  simp only [map_map, Function.comp_def]

section Rounds

variable [PyFloat F] [Float32Arithmetic W] [KvElement E W]

/-- The residual payload of a bucket, where one is kept. -/
def residualData (config : MaKVConfig F) (bit : Int) (vectors : List (List E)) : Option Bytes :=
  match config.residualDtype.stored with
  | none => none
  | some dtype =>
    if bit = 16 then none
    else some (residualBytes vectors (vectors.map (dequantizedVector bit config.scaleDtype)) dtype)

def bucketPayload (plan : MaKVQuantPlan) (kv : CanonicalKv E) (config : MaKVConfig F) (bit : Int)
    (name : String) : Option Bytes :=
  if name = positionsName bit then
    some ((placesOf plan bit).flatMap fun (i : Nat) => signedBytes 4 i)
  else if name = payloadName bit then some (payloadBytes bit (bucketVectors plan kv bit))
  else if name = scalesName bit then
    some (scaleTable bit config.scaleDtype (bucketVectors plan kv bit))
  else if name = residualPayloadName bit then residualData config bit (bucketVectors plan kv bit)
  else none

def bucketShape (plan : MaKVQuantPlan) (count : Int) : List Int :=
  if plan.importanceLayout = "token" then
    [plan.numLayers, 2, count, plan.numKvHeads, plan.headDim]
  else [count, plan.numKvHeads, plan.headDim]

def residualEntries (plan : MaKVQuantPlan) (kv : CanonicalKv E) (config : MaKVConfig F)
    (bit : Int) : List (Json F) :=
  if config.residualDtype.stored = none ∨ bit = 16 then []
  else [residualEntry plan bit (placesOf plan bit).length
    ((bucketVectors plan kv bit).length * kv.dim) (bucketShape plan (placesOf plan bit).length)]

structure RoundAdds (plan : MaKVQuantPlan) (kv : CanonicalKv E) (config : MaKVConfig F)
    (bit : Int) (before after : BucketScan F E) : Prop where
  payloads : ∀ name, after.payloads.get? name =
    (bucketPayload plan kv config bit name).or (before.payloads.get? name)
  entries : after.entries =
    before.entries ++ [bucketEntry bit (placesOf plan bit).length plan.importanceLayout]
  residuals : after.residuals = before.residuals ++ residualEntries plan kv config bit

variable {plan : MaKVQuantPlan} {kv : CanonicalKv E}

omit [PyFloat F] [Float32Arithmetic W] [KvElement E W] in
theorem Describes.residualShape_ok [PyFloat F] (h : Describes plan kv) (count : Int) :
    residualShape (planJson plan : Json F) count = .ok (bucketShape plan count) := by
  rcases h.layout with ⟨hLayout, -⟩ | ⟨hLayout, -⟩
  · rw [bucketShape, if_pos hLayout]
    exact residualShape_token (planJson_items plan) hLayout count
  · rw [bucketShape, if_neg (by rw [hLayout]; decide)]
    exact residualShape_layer (planJson_items plan) hLayout count

theorem dequantizeBucketVectors_eq {bits : Int} (hBits : IsCodeWidth bits) {dim : Nat}
    {vectors : List (List E)} (hDim : ∀ v ∈ vectors, v.length = dim) (hSome : vectors ≠ [])
    (dtype : ScaleDtype) :
    dequantizeBucketVectors (payloadBytes bits vectors) dtype
      (Bytes.words dtype.size (scaleTable bits dtype vectors)) bits vectors.length dim dim =
      .ok (vectors.map (dequantizedVector bits dtype)) := by
  have hSixteen := hBits.ne_sixteen
  have hKnown : (bits ≠ 2 && bits ≠ 4 && bits ≠ 8) = false := by
    rcases hBits with rfl | rfl | rfl <;> decide
  have hScales : Bytes.words dtype.size (scaleTable bits dtype vectors) =
      vectors.map (storedScale bits dtype) := by
    rw [scaleTable, if_neg hSixteen]
    exact words_scales bits dtype vectors
  rw [payloadBytes, if_neg hSixteen, hScales, dequantizeBucketVectors, hKnown,
    bucketCodes_payload hBits hDim hSome]
  simp only [ne_eq, not_true, decide_false, rejectIf_false, ok_bind, length_map, raiseIf_false]
  refine congrArg Except.ok ((zipWith_scaled bits dtype vectors id).trans ?_)
  exact map_congr_left fun v _ => map_id _

structure ResidualAdds (plan : MaKVQuantPlan) (kv : CanonicalKv E) (config : MaKVConfig F)
    (bit : Int) (before after : BucketScan F E) : Prop where
  payloads : ∀ name, after.payloads.get? name =
    (if name = residualPayloadName bit then residualData config bit (bucketVectors plan kv bit)
      else none).or (before.payloads.get? name)
  entries : after.entries = before.entries
  residuals : after.residuals = before.residuals ++ residualEntries plan kv config bit

omit [PyFloat F] in
theorem residualAdds_refl {config : MaKVConfig F} {bit : Int}
    (hNone : config.residualDtype.stored = none ∨ bit = 16) (scan : BucketScan F E) :
    ResidualAdds plan kv config bit scan scan := by
  refine ⟨fun name => ?_, rfl, ?_⟩
  · have hData : residualData config bit (bucketVectors plan kv bit) = none := by
      unfold residualData
      rcases hNone with hStored | hSixteen
      · rw [hStored]
      · cases config.residualDtype.stored with
        | none => rfl
        | some dtype => exact if_pos hSixteen
    rw [hData, ite_self, Option.none_or]
  · rw [residualEntries, if_pos hNone, append_nil]

theorem withResidual_spec (h : Describes plan kv) {config : MaKVConfig F} {bit : Int}
    {dtype : ScaleDtype} (hStored : config.residualDtype.stored = some dtype) (hLow : bit ≠ 16)
    (scan : BucketScan F E) {data : Bytes} (hData : data = residualBytes (bucketVectors plan kv bit)
      ((bucketVectors plan kv bit).map (dequantizedVector bit config.scaleDtype)) dtype)
    : ∃ scan', scan.withResidual plan bit (placesOf plan bit).length
        ((bucketVectors plan kv bit).length * kv.dim) data = .ok scan' ∧
      ResidualAdds plan kv config bit scan scan' := by
  have hKept : ¬(config.residualDtype.stored = none ∨ bit = 16) := by
    rw [hStored]
    simp [hLow]
  rw [BucketScan.withResidual, h.residualShape_ok]
  refine ⟨_, rfl, fun name => ?_, rfl, ?_⟩
  · rw [get?_set, residualData, hStored, hData]
    simp only [if_neg hLow]
    split_ifs with hName hSame hSame
    · rfl
    · exact absurd hName.symm hSame
    · exact absurd hSame.symm hName
    · rfl
  · rw [residualEntries, if_neg hKept]

theorem addResidual_spec (h : Describes plan kv) (config : MaKVConfig F) {bit : Int}
    (hBit : IsWidth bit) (hSome : bucketVectors plan kv bit ≠ []) (scan : BucketScan F E) :
    ∃ scan', scan.addResidual plan config bit kv.dim (placesOf plan bit).length
        (bucketVectors plan kv bit) (payloadBytes bit (bucketVectors plan kv bit))
        (scaleTable bit config.scaleDtype (bucketVectors plan kv bit)) = .ok scan' ∧
      ResidualAdds plan kv config bit scan scan' := by
  unfold BucketScan.addResidual
  cases hStored : config.residualDtype.stored with
  | none => exact ⟨scan, rfl, residualAdds_refl (Or.inl hStored) scan⟩
  | some dtype =>
    dsimp only
    by_cases hSixteen : bit = 16
    · rw [if_pos hSixteen]
      exact ⟨scan, rfl, residualAdds_refl (Or.inr hSixteen) scan⟩
    · have hHeadDim : decide ((kv.dim : Int) ≠ plan.headDim) = false := by
        rw [h.headDim]
        simp
      rw [if_neg hSixteen, hHeadDim, rejectIf_false]
      simp only [ok_bind, dequantizeBucketVectors_eq (hBit.isCodeWidth hSixteen)
        length_of_mem_bucketVectors hSome]
      exact withResidual_spec h hStored hSixteen scan rfl

theorem addEmptyResidual_spec (h : Describes plan kv) (config : MaKVConfig F) {bit : Int}
    (hPlaces : placesOf plan bit = []) (scan : BucketScan F E) :
    ∃ scan', scan.addEmptyResidual plan config bit = .ok scan' ∧
      ResidualAdds plan kv config bit scan scan' := by
  have hVectors : bucketVectors plan kv bit = [] := by
    rw [bucketVectors, bucketGroups_of_placesOf_nil hPlaces]
    rfl
  unfold BucketScan.addEmptyResidual
  by_cases hNone : config.residualDtype.stored = none ∨ bit = 16
  · rw [if_pos hNone]
    exact ⟨scan, rfl, residualAdds_refl hNone scan⟩
  · rw [if_neg hNone]
    rw [not_or] at hNone
    obtain ⟨dtype, hStored⟩ := Option.ne_none_iff_exists'.mp hNone.1
    have hEmpty : ([] : Bytes) = residualBytes (bucketVectors plan kv bit)
        ((bucketVectors plan kv bit).map (dequantizedVector bit config.scaleDtype)) dtype := by
      rw [hVectors]
      rfl
    have hAdds := withResidual_spec h hStored hNone.2 scan hEmpty
    rw [hPlaces, hVectors, length_nil, length_nil, Nat.zero_mul] at hAdds
    exact hAdds

omit [PyFloat F] [Float32Arithmetic W] [KvElement E W] in
theorem bucketNames_ne {bit : Int} (h : IsWidth bit) :
    positionsName bit ≠ payloadName bit ∧ positionsName bit ≠ scalesName bit ∧
      positionsName bit ≠ residualPayloadName bit ∧ payloadName bit ≠ scalesName bit ∧
      payloadName bit ≠ residualPayloadName bit ∧ scalesName bit ≠ residualPayloadName bit := by
  rcases h with rfl | rfl | rfl | rfl <;> decide

def BucketScan.withBucket (scan : BucketScan F E) (plan : MaKVQuantPlan) (kv : CanonicalKv E)
    (config : MaKVConfig F) (bit : Int) : BucketScan F E :=
  scan.withPayloads bit ((placesOf plan bit).flatMap fun (i : Nat) => signedBytes 4 i)
    (payloadBytes bit (bucketVectors plan kv bit))
    (scaleTable bit config.scaleDtype (bucketVectors plan kv bit))

omit [PyFloat F] in
theorem ResidualAdds.withBucket {config : MaKVConfig F} {bit : Int} (hBit : IsWidth bit)
    {before after : BucketScan F E} (h : ResidualAdds plan kv config bit before after)
    {layout : String} (hLayout : plan.importanceLayout = layout) :
    RoundAdds plan kv config bit before
      ((after.withBucket plan kv config bit).withEntry bit (placesOf plan bit).length layout) := by
  obtain ⟨hPP, hPS, hPR, hQS, hQR, hSR⟩ := bucketNames_ne hBit
  refine ⟨fun name => ?_, ?_, h.residuals⟩
  · change ((after.withBucket plan kv config bit).payloads).get? name = _
    simp only [BucketScan.withBucket, BucketScan.withPayloads, get?_set, h.payloads, bucketPayload]
    by_cases hPositions : name = positionsName bit
    · subst hPositions
      simp [hPP.symm, hPS.symm]
    · by_cases hPayload : name = payloadName bit
      · subst hPayload
        simp [hQS.symm, hPositions]
      · by_cases hScales : name = scalesName bit
        · subst hScales
          simp [hPositions, hPayload]
        · simp [hPositions, hPayload, hScales, Ne.symm hPositions, Ne.symm hPayload,
            Ne.symm hScales]
  · rw [hLayout]
    exact congrArg (· ++ _) h.entries

omit [PyFloat F] in
theorem ResidualAdds.afterBucket {config : MaKVConfig F} {bit : Int} (hBit : IsWidth bit)
    {before after : BucketScan F E}
    (h : ResidualAdds plan kv config bit (before.withBucket plan kv config bit) after)
    {layout : String} (hLayout : plan.importanceLayout = layout) :
    RoundAdds plan kv config bit before
      (after.withEntry bit (placesOf plan bit).length layout) := by
  obtain ⟨hPP, hPS, hPR, hQS, hQR, hSR⟩ := bucketNames_ne hBit
  refine ⟨fun name => ?_, ?_, h.residuals⟩
  · refine (h.payloads name).trans ?_
    simp only [BucketScan.withBucket, BucketScan.withPayloads, get?_set, bucketPayload]
    by_cases hPositions : name = positionsName bit
    · subst hPositions
      simp [hPP.symm, hPS.symm, hPR]
    · by_cases hPayload : name = payloadName bit
      · subst hPayload
        simp [hQS.symm, hPositions, hQR]
      · by_cases hScales : name = scalesName bit
        · subst hScales
          simp [hPositions, hPayload, hSR]
        · simp [hPositions, hPayload, hScales, Ne.symm hPositions, Ne.symm hPayload,
            Ne.symm hScales]
  · rw [hLayout]
    exact congrArg (· ++ _) h.entries

variable {scan : BucketScan F E} {observer : Option (QdmObserver F E)} {scan' : BucketScan F E}

omit [PyFloat F] in
theorem observe_eq_ok {bucket : ObservedBucket E} (h : scan.observe observer bucket = .ok scan') :
    scan'.payloads = scan.payloads ∧ scan'.entries = scan.entries ∧
      scan'.residuals = scan.residuals := by
  cases observer with
  | none =>
    cases h
    exact ⟨rfl, rfl, rfl⟩
  | some o =>
    obtain ⟨_, -, h⟩ := bind_eq_ok.mp h
    cases h
    exact ⟨rfl, rfl, rfl⟩

theorem quantizeBucket_spec (h : Quantizable plan kv) {config : MaKVConfig F} {layout : String}
    (hLayout : plan.importanceLayout = layout) {gather : List Nat → Result (GatheredBucket E)}
    {bit : Int} (hBit : bit ∈ plan.bucketBits)
    (hGather : gather (placesOf plan bit) =
      .ok ⟨(placesOf plan bit).map fun i : Nat => (i : Int), bucketVectors plan kv bit⟩)
    (hRun : quantizeBucket kv plan config observer layout gather scan bit = .ok scan') :
    RoundAdds plan kv config bit scan scan' := by
  have hWidth := h.widths bit hBit
  have hPlacesEq : bucketPlaces plan.bucketIds (((bitsToBucket plan.bucketBits).get? bit).getD 0) =
      placesOf plan bit := rfl
  unfold quantizeBucket at hRun
  dsimp only at hRun
  rw [hPlacesEq] at hRun
  split_ifs at hRun with hEmpty
  · have hPlaces : placesOf plan bit = [] := List.isEmpty_iff.mp hEmpty
    have hVectors : bucketVectors plan kv bit = [] := by
      rw [bucketVectors, bucketGroups_of_placesOf_nil hPlaces]
      rfl
    have hBucket : scan.withPayloads bit [] [] [] = scan.withBucket plan kv config bit := by
      rw [BucketScan.withBucket, hPlaces, hVectors, payloadBytes, scaleTable]
      simp [Storable.store]
    rw [hBucket] at hRun
    obtain ⟨scanR, hAdd, hAdds⟩ := addEmptyResidual_spec h.toDescribes config hPlaces
      (scan.withBucket plan kv config bit)
    rw [hAdd] at hRun
    cases hRun
    have hRound := hAdds.afterBucket hWidth hLayout
    rw [hPlaces] at hRound
    exact hRound
  · have hSome := h.bucketVectors_ne_nil (mt List.isEmpty_iff.mpr hEmpty)
    rw [hGather] at hRun
    simp only [ok_bind, quantizeVectorBucket_eq hWidth h.dim_pos hSome, length_map] at hRun
    obtain ⟨scanR, hAdd, hAdds⟩ := addResidual_spec h.toDescribes config hWidth hSome scan
    rw [hAdd, ok_bind] at hRun
    obtain ⟨scanO, hObserve, hDone⟩ := bind_eq_ok.mp hRun
    obtain ⟨hPayloads, hEntries, hResiduals⟩ := observe_eq_ok hObserve
    cases hDone
    have hSame : ResidualAdds plan kv config bit scan scanO :=
      ⟨by rw [hPayloads]; exact hAdds.payloads, hEntries.trans hAdds.entries,
        by rw [hResiduals]; exact hAdds.residuals⟩
    have hRound := hSame.withBucket hWidth hLayout
    rw [BucketScan.withBucket] at hRound
    rw [flatMap_map]
    exact hRound

theorem quantizeBucket_ok (h : Quantizable plan kv) (config : MaKVConfig F) {layout : String}
    {gather : List Nat → Result (GatheredBucket E)} {bit : Int} (hBit : bit ∈ plan.bucketBits)
    (hGather : gather (placesOf plan bit) = .ok
      ⟨(placesOf plan bit).map fun i : Nat => (i : Int), bucketVectors plan kv bit⟩)
    (scan : BucketScan F E) :
    ∃ scan', quantizeBucket kv plan config none layout gather scan bit = .ok scan' := by
  have hWidth := h.widths bit hBit
  have hPlacesEq : bucketPlaces plan.bucketIds (((bitsToBucket plan.bucketBits).get? bit).getD 0) =
      placesOf plan bit := rfl
  unfold quantizeBucket
  dsimp only
  rw [hPlacesEq]
  split_ifs with hEmpty
  · obtain ⟨scanR, hAdd, -⟩ := addEmptyResidual_spec h.toDescribes config
      (List.isEmpty_iff.mp hEmpty) (scan.withPayloads bit [] [] [])
    rw [hAdd]
    exact ⟨_, rfl⟩
  · have hSome := h.bucketVectors_ne_nil (mt List.isEmpty_iff.mpr hEmpty)
    rw [hGather]
    simp only [ok_bind, quantizeVectorBucket_eq hWidth h.dim_pos hSome, length_map]
    obtain ⟨scanR, hAdd, -⟩ := addResidual_spec h.toDescribes config hWidth hSome scan
    rw [hAdd]
    exact ⟨_, rfl⟩

def bucketNames (bit : Int) : List String :=
  [positionsName bit, payloadName bit, scalesName bit, residualPayloadName bit]

omit [PyFloat F] in
theorem bucketPayload_of_not_mem {config : MaKVConfig F} {bit : Int} {name : String}
    (h : name ∉ bucketNames bit) : bucketPayload plan kv config bit name = none := by
  simp only [bucketNames, mem_cons, not_mem_nil, or_false, not_or] at h
  obtain ⟨hPositions, hPayload, hScales, hResidual⟩ := h
  rw [bucketPayload, if_neg hPositions, if_neg hPayload, if_neg hScales, if_neg hResidual]

omit [PyFloat F] [Float32Arithmetic W] [KvElement E W] in
theorem bucketNames_disjoint {bit bit' : Int} (h : IsWidth bit) (h' : IsWidth bit')
    (hne : bit ≠ bit') : ∀ name ∈ bucketNames bit, name ∉ bucketNames bit' := by
  rcases h with rfl | rfl | rfl | rfl <;> rcases h' with rfl | rfl | rfl | rfl <;>
    first
    | exact absurd rfl hne
    | decide

/-- What the loop has written after the rounds of some widths. -/
structure LoopWrote (plan : MaKVQuantPlan) (kv : CanonicalKv E) (config : MaKVConfig F)
    (bits : List Int) (scan : BucketScan F E) : Prop where
  own : ∀ bit ∈ bits, ∀ name ∈ bucketNames bit,
    scan.payloads.get? name = bucketPayload plan kv config bit name
  other : ∀ name, (∀ bit ∈ bits, name ∉ bucketNames bit) → scan.payloads.get? name = none
  entries : scan.entries =
    bits.map fun bit => bucketEntry bit (placesOf plan bit).length plan.importanceLayout
  residuals : scan.residuals = bits.flatMap (residualEntries plan kv config)

omit [PyFloat F] in
theorem LoopWrote.round {config : MaKVConfig F} {bits : List Int} {bit : Int}
    {before after : BucketScan F E} (h : LoopWrote plan kv config bits before)
    (hRound : RoundAdds plan kv config bit before after) (hWidth : IsWidth bit)
    (hWidths : ∀ b ∈ bits, IsWidth b) (hNew : bit ∉ bits) :
    LoopWrote plan kv config (bits ++ [bit]) after := by
  refine ⟨?_, ?_, ?_, ?_⟩
  · intro b hb name hName
    rw [hRound.payloads]
    rcases mem_append.mp hb with hOld | hLast
    · have hne : b ≠ bit := fun hEq => hNew (hEq ▸ hOld)
      rw [bucketPayload_of_not_mem (bucketNames_disjoint (hWidths b hOld) hWidth hne name hName),
        Option.none_or, h.own b hOld name hName]
    · cases mem_singleton.mp hLast
      have hBefore : before.payloads.get? name = none := h.other name fun c hc hIn =>
        bucketNames_disjoint (hWidths c hc) hWidth (fun hEq => hNew (hEq ▸ hc)) name hIn hName
      rw [hBefore, Option.or_none]
  · intro name hName
    rw [hRound.payloads, bucketPayload_of_not_mem (hName bit (by simp)), Option.none_or]
    exact h.other name fun b hb => hName b (by simp [hb])
  · rw [hRound.entries, h.entries, map_append]
    rfl
  · rw [hRound.residuals, h.residuals, flatMap_append, flatMap_singleton]

omit [PyFloat F] in
theorem loopWrote_nil (plan : MaKVQuantPlan) (kv : CanonicalKv E) (config : MaKVConfig F) :
    LoopWrote plan kv config [] ⟨Dict.empty, [], [], []⟩ :=
  ⟨fun _ h => (nomatch h), fun _ _ => rfl, rfl, rfl⟩

omit [PyFloat F] in
theorem LoopWrote.rounds {config : MaKVConfig F} (hPlan : Quantizable plan kv)
    {round : BucketScan F E → Int → Result (BucketScan F E)}
    (hRound : ∀ bit ∈ plan.bucketBits, ∀ before after, round before bit = .ok after →
      RoundAdds plan kv config bit before after)
    {done rest : List Int} (hBits : plan.bucketBits = done ++ rest)
    (h : LoopWrote plan kv config done scan) (hRun : rest.foldlM round scan = .ok scan') :
    LoopWrote plan kv config plan.bucketBits scan' := by
  induction rest generalizing done scan with
  | nil =>
    cases hRun
    rw [hBits, append_nil]
    exact h
  | cons bit rest ih =>
    rw [foldlM_cons] at hRun
    obtain ⟨next, hStep, hRest⟩ := bind_eq_ok.mp hRun
    have hMem : bit ∈ plan.bucketBits := by rw [hBits]; simp
    have hNew : bit ∉ done := by
      intro hOld
      have hNodup := hPlan.nodup
      rw [hBits] at hNodup
      exact (nodup_append.mp hNodup).2.2 bit hOld bit (by simp) rfl
    have hWidths : ∀ b ∈ done, IsWidth b := fun b hb =>
      hPlan.widths b (by rw [hBits]; simp [hb])
    exact ih (by rw [hBits, append_assoc]; rfl)
      (h.round (hRound bit hMem scan next hStep) (hPlan.widths bit hMem) hWidths hNew) hRest

theorem foldlM_ok {α β : Type} {f : β → α → Result β} {l : List α}
    (h : ∀ a ∈ l, ∀ b, ∃ b', f b a = .ok b') (b : β) : ∃ b', l.foldlM f b = .ok b' := by
  induction l generalizing b with
  | nil => exact ⟨b, rfl⟩
  | cons a rest ih =>
    obtain ⟨next, hNext⟩ := h a (by simp) b
    rw [foldlM_cons, hNext]
    exact ih (fun c hc => h c (by simp [hc])) next

theorem quantizeBuckets_spec (h : Quantizable plan kv) {config : MaKVConfig F}
    (hRun : quantizeBuckets kv plan config observer = .ok scan) :
    LoopWrote plan kv config plan.bucketBits scan := by
  unfold quantizeBuckets at hRun
  dsimp only at hRun
  rcases h.layout with ⟨hLayout, hLength⟩ | ⟨hLayout, hLength⟩
  · rw [if_pos hLayout] at hRun
    refine LoopWrote.rounds h ?_ (nil_append _).symm (loopWrote_nil plan kv config) hRun
    intro bit hBit before after hStep
    exact quantizeBucket_spec h hLayout hBit (gatherTokens_eq hLayout hLength h.places_lt) hStep
  · have hOther : plan.importanceLayout ≠ "token" := by rw [hLayout]; decide
    rw [if_neg hOther] at hRun
    obtain ⟨_, -, hRun⟩ := bind_eq_ok.mp hRun
    have hTokens : plan.chunkLength.toNat = kv.tokens := by
      rw [h.chunkLength]
      exact Int.toNat_natCast _
    rw [hTokens] at hRun
    refine LoopWrote.rounds h ?_ (nil_append _).symm (loopWrote_nil plan kv config) hRun
    intro bit hBit before after hStep
    exact quantizeBucket_spec h hLayout hBit (gatherEntries_eq hOther hLength h.places_lt) hStep

theorem quantizeBuckets_ok (h : Quantizable plan kv) (config : MaKVConfig F) :
    ∃ scan, quantizeBuckets kv plan config none = .ok scan := by
  unfold quantizeBuckets
  dsimp only
  rcases h.layout with ⟨hLayout, hLength⟩ | ⟨hLayout, hLength⟩
  · rw [if_pos hLayout]
    exact foldlM_ok (fun bit hBit scan => quantizeBucket_ok h config hBit
      (gatherTokens_eq hLayout hLength h.places_lt) scan) _
  · have hOther : plan.importanceLayout ≠ "token" := by rw [hLayout]; decide
    have hFits : (plan.numLayers < 0 || plan.chunkLength < 0 ||
        (plan.bucketIds.length : Int) ≠ plan.numLayers * 2 * plan.chunkLength) = false := by
      rw [h.numLayers, h.chunkLength, hLength]
      simp
    have hTokens : plan.chunkLength.toNat = kv.tokens := by
      rw [h.chunkLength]
      exact Int.toNat_natCast _
    rw [if_neg hOther, hFits, raiseIf_false, ok_bind, hTokens]
    exact foldlM_ok (fun bit hBit scan => quantizeBucket_ok h config hBit
      (gatherEntries_eq hOther hLength h.places_lt) scan) _

structure QuantizedAs (plan : MaKVQuantPlan) (kv : CanonicalKv E) (config : MaKVConfig F)
    (metadata : Metadata F) (payloads : Payloads) : Prop where
  own : ∀ bit ∈ plan.bucketBits, ∀ name ∈ bucketNames bit,
    payloads.get? name = bucketPayload plan kv config bit name
  other : ∀ name ∈ payloads.keys,
    (∃ bit ∈ plan.bucketBits, name ∈ bucketNames bit) ∨ ∃ rest, name = "qdm_" ++ rest
  planItem : metadata.get? "plan" = some (planJson plan)
  entries : metadata.get? "bucket_entries" = some (.arr (plan.bucketBits.map fun bit =>
    bucketEntry bit (placesOf plan bit).length plan.importanceLayout))
  entropy : metadata.get? "entropy" = none
  residual : metadata.get? "residual" =
    if config.residualDtype.stored = none then none
    else some (residualMetadata plan config
      (plan.bucketBits.flatMap (residualEntries plan kv config)))

omit [PyFloat F] [Float32Arithmetic W] [KvElement E W] in
theorem qdm_not_mem_bucketNames {bit : Int} (h : IsWidth bit) (rest : String) :
    "qdm_" ++ rest ∉ bucketNames bit := by
  intro hMem
  have hHead : ("qdm_" ++ rest).toList.head? = some 'q' := by
    rw [String.toList_append]
    rfl
  have hOther : ∀ name ∈ bucketNames bit, name.toList.head? ≠ some 'q' := by
    rcases h with rfl | rfl | rfl | rfl <;> decide
  exact hOther _ hMem hHead

variable {metadata : Metadata F} {payloads : Payloads}

omit [PyFloat F] in
theorem withObservations_spec {start : Metadata F}
    (h : withObservations observer scan start = .ok (metadata, payloads)) :
    (∀ key, key ≠ "qdm" → metadata.get? key = start.get? key) ∧
      ∀ name, payloads.get? name = scan.payloads.get? name ∨
        ∃ rest, name = "qdm_" ++ rest := by
  cases observer with
  | none =>
    cases h
    exact ⟨fun _ _ => rfl, fun _ => Or.inl rfl⟩
  | some o =>
    obtain ⟨⟨descriptor, added⟩, hFinal, h⟩ := bind_eq_ok.mp h
    cases h
    refine ⟨fun key hKey => ?_, fun name => ?_⟩
    · rw [get?_set, if_neg (Ne.symm hKey)]
    · by_cases hName : name ∈ added.keys
      · exact Or.inr (o.named _ _ _ hFinal name hName)
      · left
        rw [get?_foldl_set _ added.nodup, find_eq_none_iff.mpr hName, Option.none_or]

theorem quantizeCanonicalKv_spec [QdmRuntime F E] (h : Quantizable plan kv)
    {config : MaKVConfig F} {qdmObserver : Option (QdmObserver F E)} {enableQdm : Bool}
    {blockSize : Int} {version : String}
    (hRun : quantizeCanonicalKv kv plan config qdmObserver enableQdm blockSize version =
      .ok (metadata, payloads))
    : QuantizedAs plan kv config metadata payloads := by
  obtain ⟨observer, -, hRun⟩ := bind_eq_ok.mp hRun
  obtain ⟨scan, hScan, hRun⟩ := bind_eq_ok.mp hRun
  obtain ⟨⟨inner, all⟩, hObserved, hRun⟩ := bind_eq_ok.mp hRun
  cases hRun
  have hLoop := quantizeBuckets_spec h hScan
  obtain ⟨hMetadata, hPayloads⟩ := withObservations_spec hObserved
  have hKeep : ∀ key, key ≠ "qdm" → key ≠ "residual" →
      (if config.residualDtype.stored = none then inner
        else inner.set "residual" (residualMetadata plan config scan.residuals)).get? key =
      (Dict.ofList [("plan", planJson plan), ("bucket_entries", .arr scan.entries)] :
        Metadata F).get? key := by
    intro key hQdm hResidual
    split_ifs
    · exact hMetadata key hQdm
    · rw [get?_set, if_neg (Ne.symm hResidual)]
      exact hMetadata key hQdm
  refine ⟨?_, ?_, ?_, ?_, ?_, ?_⟩
  · intro bit hBit name hName
    rcases hPayloads name with hSame | ⟨rest, rfl⟩
    · rw [hSame]
      exact hLoop.own bit hBit name hName
    · exact absurd hName (qdm_not_mem_bucketNames (h.widths bit hBit) rest)
  · intro name hName
    rcases hPayloads name with hSame | hQdm
    · by_contra hNone
      rw [not_or, not_exists] at hNone
      have hNothing := hLoop.other name fun bit hBit hIn => hNone.1 bit ⟨hBit, hIn⟩
      rw [hSame.symm] at hNothing
      exact get?_eq_none_iff.mp hNothing hName
    · exact Or.inr hQdm
  · rw [hKeep "plan" (by decide) (by decide)]
    rfl
  · rw [hKeep "bucket_entries" (by decide) (by decide), ← hLoop.entries]
    rfl
  · rw [hKeep "entropy" (by decide) (by decide)]
    rfl
  · split_ifs with hStored
    · rw [hMetadata "residual" (by decide)]
      rfl
    · rw [get?_set, if_pos rfl, hLoop.residuals]

theorem quantizeCanonicalKv_ok [QdmRuntime F E] (h : Quantizable plan kv) (config : MaKVConfig F)
    (qdmObserver : Option (QdmObserver F E)) (blockSize : Int) (version : String) :
    ∃ result, quantizeCanonicalKv kv plan config qdmObserver false blockSize version =
      .ok result := by
  obtain ⟨scan, hScan⟩ := quantizeBuckets_ok h config
  have hNone : selectObserver plan qdmObserver false blockSize version = .ok none := rfl
  unfold quantizeCanonicalKv
  rw [hNone, ok_bind, hScan]
  exact ⟨_, rfl⟩

end Rounds

end LMCache.MaKV
