import LMCache.MaKV.Ranking
import LMCache.MaKV.Restore

/-!
# The restores undo the quantizer

The loader reads the buckets of a quantized object back as the quantizer gathered them. The
reference restore writes every bucket at its places, and so does the reconstruction of a
precision upgrade, which also checks that no place is missing or written twice. As the
buckets partition the places, every vector of the tensor ends up where it was, at the width
of its place.
-/

namespace LMCache.MaKV

open Lib List

variable {F E W : Type} [PyFloat F] [Float32Arithmetic W] [KvElement E W]
  {plan : MaKVQuantPlan} {kv : CanonicalKv E} {config : MaKVConfig F} {metadata : Metadata F}
  {payloads : Payloads}

def storedPositions (payloads : Payloads) (bit : Int) : List Int :=
  (Bytes.words 4 (payloadOf payloads (positionsName bit))).map signedOfBytes

def positionsOf (plan : MaKVQuantPlan) (bit : Int) : List Int :=
  (placesOf plan bit).map fun i : Nat => (i : Int)

/-- The tensors of a width, as the quantizer gathered and coded them. -/
def tensorsOf (plan : MaKVQuantPlan) (kv : CanonicalKv E) (dtype : ScaleDtype) (bit : Int) :
    BucketTensors :=
  bucketTensors bit dtype (positionsOf plan bit) (bucketVectors plan kv bit)

omit [PyFloat F] in
theorem payloadOf_positions (h : QuantizedAs plan kv config metadata payloads) {bit : Int}
    (hBit : bit ∈ plan.bucketBits) :
    payloadOf payloads (positionsName bit) =
      (placesOf plan bit).flatMap fun i : Nat => signedBytes 4 i := by
  rw [payloadOf, h.own bit hBit _ (by simp [bucketNames]), bucketPayload, if_pos rfl]
  rfl

omit [PyFloat F] in
theorem payloadOf_payload (h : QuantizedAs plan kv config metadata payloads) {bit : Int}
    (hBit : bit ∈ plan.bucketBits) (hWidth : IsWidth bit) :
    payloadOf payloads (payloadName bit) = payloadBytes bit (bucketVectors plan kv bit) := by
  obtain ⟨hPos, -⟩ := bucketNames_ne hWidth
  rw [payloadOf, h.own bit hBit _ (by simp [bucketNames]), bucketPayload, if_neg hPos.symm,
    if_pos rfl]
  rfl

omit [PyFloat F] in
theorem payloadOf_scales (h : QuantizedAs plan kv config metadata payloads) {bit : Int}
    (hBit : bit ∈ plan.bucketBits) (hWidth : IsWidth bit) :
    payloadOf payloads (scalesName bit) =
      scaleTable bit config.scaleDtype (bucketVectors plan kv bit) := by
  obtain ⟨-, hPos, -, hPayload, -⟩ := bucketNames_ne hWidth
  rw [payloadOf, h.own bit hBit _ (by simp [bucketNames]), bucketPayload, if_neg hPos.symm,
    if_neg hPayload.symm, if_pos rfl]
  rfl

omit [PyFloat F] in
theorem storedPositions_eq (h : QuantizedAs plan kv config metadata payloads)
    (hSmall : plan.bucketIds.length ≤ 2 ^ 31) {bit : Int} (hBit : bit ∈ plan.bucketBits) :
    storedPositions payloads bit = positionsOf plan bit := by
  rw [storedPositions, payloadOf_positions h hBit,
    Bytes.words_flatMap (by decide) _ fun i _ => length_signedBytes 4 _, map_map]
  refine map_congr_left fun i hi => ?_
  have hPlace := lt_of_mem_placesOf hi
  rw [Function.comp_apply]
  exact int32_eq (by omega)

omit [PyFloat F] in
theorem alignedPayload_eq {name : String} {size : Nat} {data : Bytes}
    (hData : payloadOf payloads name = data) (hAligned : size ∣ data.length) :
    alignedPayload payloads name size = .ok data := by
  have hMod : decide (data.length % size ≠ 0) = false :=
    decide_eq_false (not_not.mpr (Nat.mod_eq_zero_of_dvd hAligned))
  rw [alignedPayload, hData, hMod, rejectIf_false]
  rfl

theorem loadBucket_eq (h : QuantizedAs plan kv config metadata payloads)
    (hSmall : plan.bucketIds.length ≤ 2 ^ 31) {bit : Int} (hBit : bit ∈ plan.bucketBits)
    (hWidth : IsWidth bit) (result : Dict Int BucketTensors) :
    loadBucket E payloads config.scaleDtype Dict.empty result (.int bit : Json F) =
      .ok (result.set bit (tensorsOf plan kv config.scaleDtype bit)) := by
  have hPositions : alignedPayload payloads ("positions_" ++ toString bit) 4 =
      .ok ((placesOf plan bit).flatMap fun i : Nat => signedBytes 4 i) := by
    refine alignedPayload_eq (payloadOf_positions h hBit) ?_
    rw [Tensor.length_flatMap_const _ _ fun i _ => length_signedBytes 4 _]
    exact Nat.dvd_mul_left 4 _
  have hPayload : alignedPayload payloads (payloadName bit) (payloadItemSize E bit) =
      .ok (payloadBytes bit (bucketVectors plan kv bit)) := by
    refine alignedPayload_eq (payloadOf_payload h hBit hWidth) ?_
    unfold payloadItemSize payloadBytes
    split_ifs with hLow hSixteen hSixteen
    · exact Nat.one_dvd _
    · exact Nat.one_dvd _
    · rw [Storable.length_store]
      exact Nat.dvd_mul_left _ _
    · rcases hWidth with hBits | hBits | hBits | hBits
      · exact absurd (Or.inl hBits) hLow
      · exact absurd (Or.inr (Or.inl hBits)) hLow
      · exact absurd (Or.inr (Or.inr hBits)) hLow
      · exact absurd hBits hSixteen
  have hScales : alignedPayload payloads ("scales_" ++ toString bit) config.scaleDtype.size =
      .ok (scaleTable bit config.scaleDtype (bucketVectors plan kv bit)) := by
    refine alignedPayload_eq (payloadOf_scales h hBit hWidth) ?_
    unfold scaleTable
    split_ifs
    · exact Nat.dvd_zero _
    · rw [Tensor.length_flatMap_const (bucketVectors plan kv bit)
        (storedScale bit config.scaleDtype)
        fun v _ => KvElement.length_scaleBytes _ _]
      exact Nat.dvd_mul_left _ _
  have hWords := storedPositions_eq h hSmall hBit
  rw [storedPositions, payloadOf_positions h hBit] at hWords
  unfold loadBucket
  rw [Json.toInt, ok_bind, hPositions, ok_bind, hPayload, ok_bind, hScales, ok_bind, hWords]
  rfl

theorem scaleDtypeOf_eq {json : Json F} (hPlan : PlanItems plan json)
    (hScale : plan.scaleDtype = config.scaleDtype.text) :
    scaleDtypeOf json = .ok config.scaleDtype := by
  rw [scaleDtypeOf, hPlan.scaleDtype, ok_bind, hScale]
  cases config.scaleDtype <;> rfl

theorem loadPayloads_eq (h : QuantizedAs plan kv config metadata payloads)
    (hPlan : Quantizable plan kv) (hScale : plan.scaleDtype = config.scaleDtype.text) :
    loadPayloads E metadata payloads =
      .ok (Dict.ofList (plan.bucketBits.map fun bit =>
        (bit, tensorsOf plan kv config.scaleDtype bit))) := by
  have hItems := planJson_items (F := F) plan
  have hObject : (!(planJson plan : Json F).isObject) = false := by
    rw [hItems.isObject]
    rfl
  have hEntropy : decodeEntropyPayloads metadata (alignedPayload payloads) = .ok Dict.empty := by
    rw [decodeEntropyPayloads, h.entropy]
  have hWidths : (intList plan.bucketBits : Json F).iterate = .ok (plan.bucketBits.map .int) := rfl
  unfold loadPayloads
  dsimp only
  rw [h.planItem, Option.getD_some, hObject, rejectIf_false, ok_bind,
    scaleDtypeOf_eq hItems hScale, ok_bind, hEntropy, ok_bind, hItems.bucketBits, ok_bind, hWidths,
    ok_bind, foldlM_map]
  rw [foldlM_eq_ok (g := fun result bit => result.set bit (tensorsOf plan kv config.scaleDtype bit))
    fun bit hBit result => loadBucket_eq h hPlan.places_lt hBit (hPlan.widths bit hBit) result,
    Dict.ofList, foldl_map]

/-- The rows hold, at every place of the given widths, the vectors of the tensor as the map of
the width leaves them. -/
def RowsHold (plan : MaKVQuantPlan) (kv : CanonicalKv E) (f : Int → List E → List E)
    (widths : List Int) (rows : KvRows E) : Prop :=
  ∀ plane < 2, ∀ layer < kv.layers, ∀ token < kv.tokens,
    widthAt plan (placeOf plan kv layer plane token) ∈ widths →
      rows plane layer token =
        groupRowOf kv (f (widthAt plan (placeOf plan kv layer plane token))) (layer, plane, token)

omit [PyFloat F] [Float32Arithmetic W] [KvElement E W] in
theorem placeOf_lt (h : Describes plan kv) {layer plane token : Nat} (hLayer : layer < kv.layers)
    (hPlane : plane < 2) (hToken : token < kv.tokens) :
    placeOf plan kv layer plane token < plan.bucketIds.length := by
  rcases h.layout with ⟨hLayout, hLength⟩ | ⟨hLayout, hLength⟩
  · rw [placeOf, if_pos hLayout, hLength]
    exact hToken
  · rw [placeOf, if_neg (by rw [hLayout]; decide), hLength]
    have hRow : layer * 2 + plane + 1 ≤ kv.layers * 2 := by omega
    have hMul := Nat.mul_le_mul_right kv.tokens hRow
    rw [Nat.succ_mul] at hMul
    omega

variable {f : Int → List E → List E}

omit [PyFloat F] [Float32Arithmetic W] [KvElement E W] in
theorem RowsHold.wrote (hPlan : Quantizable plan kv) (hIds : IdsBelow plan) {widths : List Int}
    {bit : Int} (hBit : bit ∈ plan.bucketBits) {before after : KvRows E}
    (h : RowsHold plan kv f widths before) (hWrote : WroteBucket plan kv bit (f bit) before after)
    : RowsHold plan kv f (widths ++ [bit]) after := by
  intro plane hPlane layer hLayer token hToken hWidth
  have hPlace := placeOf_lt hPlan.toDescribes hLayer hPlane hToken
  rw [hWrote plane hPlane layer hLayer token hToken]
  split_ifs with hMem
  · rw [((mem_placesOf hPlan.nodup hIds hBit).mp hMem).2]
  · -- the place has another width, which was there before
    refine h plane hPlane layer hLayer token hToken ?_
    rcases mem_append.mp hWidth with hOld | hLast
    · exact hOld
    · exact absurd ((mem_placesOf hPlan.nodup hIds hBit).mpr ⟨hPlace, mem_singleton.mp hLast⟩) hMem

omit [PyFloat F] [Float32Arithmetic W] [KvElement E W] in
theorem RowsHold.foldl (hPlan : Quantizable plan kv) (hIds : IdsBelow plan)
    {write : KvRows E → Int → KvRows E}
    (hWrite : ∀ bit ∈ plan.bucketBits, ∀ out, WroteBucket plan kv bit (f bit) out (write out bit))
    (out : KvRows E) : RowsHold plan kv f plan.bucketBits (plan.bucketBits.foldl write out) := by
  have hLoop : ∀ (rest done : List Int), (∀ bit ∈ rest, bit ∈ plan.bucketBits) → ∀ out,
      RowsHold plan kv f done out → RowsHold plan kv f (done ++ rest) (rest.foldl write out) := by
    intro rest
    induction rest with
    | nil =>
      intro done _ out h
      rwa [append_nil]
    | cons bit rest ih =>
      intro done hRest out h
      have hBit := hRest bit (by simp)
      have hNext := ih (done ++ [bit]) (fun b hb => hRest b (by simp [hb])) (write out bit)
        (h.wrote hPlan hIds hBit (hWrite bit hBit out))
      rwa [append_assoc, singleton_append] at hNext
  have hNone : RowsHold plan kv f [] out := by
    intro plane _ layer _ token _ hWidth
    cases hWidth
  exact hLoop plan.bucketBits [] (fun _ hb => hb) out hNone

/-- The tensor has the shape of the source and, at every element, the value that the map of the
element's width gives its vector. -/
structure HoldsVectors (plan : MaKVQuantPlan) (kv : CanonicalKv E) (f : Int → List E → List E)
    (tensor : Tensor E) : Prop where
  shape : tensor.shape = [2, kv.layers, kv.tokens, kv.heads * kv.dim]
  element : ∀ plane < 2, ∀ layer < kv.layers, ∀ token < kv.tokens, ∀ head < kv.heads,
    ∀ d < kv.dim, tensor.get? [plane, layer, token, head * kv.dim + d] =
      (f (widthAt plan (placeOf plan kv layer plane token)) (kv.vector layer plane token head))[d]?

omit [PyFloat F] [Float32Arithmetic W] in
theorem RowsHold.tensor (hPlan : Quantizable plan kv) (hIds : IdsBelow plan)
    (hLength : ∀ bit v, (f bit v).length = v.length) {rows : KvRows E}
    (h : RowsHold plan kv f plan.bucketBits rows) :
    HoldsVectors plan kv f (rows.tensor kv.dims) := by
  have hColumns : (kv.dims.numKvHeads * kv.dims.headDim).toNat = kv.heads * kv.dim := by
    rw [CanonicalKv.dims]
    exact_mod_cast Int.toNat_natCast _
  have hShape : (rows.tensor kv.dims).shape = [2, kv.layers, kv.tokens, kv.heads * kv.dim] := by
    rw [KvRows.tensor, Tensor.shape_ofFn, hColumns]
    rfl
  refine ⟨hShape, fun plane hPlane layer hLayer token hToken head hHead d hd => ?_⟩
  have hColumn : head * kv.dim + d < kv.heads * kv.dim := by
    have hMul := Nat.mul_le_mul_right kv.dim (Nat.succ_le_of_lt hHead)
    rw [Nat.succ_mul] at hMul
    omega
  have hBounds : Tensor.InBounds [2, kv.dims.numLayers.toNat, kv.dims.chunkLength.toNat,
      (kv.dims.numKvHeads * kv.dims.headDim).toNat] [plane, layer, token, head * kv.dim + d] := by
    rw [hColumns]
    exact .cons hPlane (.cons hLayer (.cons hToken (.cons hColumn .nil)))
  have hRow := h plane hPlane layer hLayer token hToken
    (widthAt_mem hIds (placeOf_lt hPlan.toDescribes hLayer hPlane hToken))
  have hVectors : ∀ v ∈ groupVectors kv (layer, plane, token),
      (f (widthAt plan (placeOf plan kv layer plane token)) v).length = kv.dim := by
    intro v hv
    obtain ⟨x, -, rfl⟩ := mem_map.mp hv
    rw [hLength, CanonicalKv.vector, length_map, length_range]
  have hAt : (rows plane layer token)[head * kv.dim + d]? =
      (f (widthAt plan (placeOf plan kv layer plane token))
        (kv.vector layer plane token head))[d]? := by
    rw [hRow, groupRowOf, Tensor.getElem?_flatMap_const _ _ hVectors hd, groupVectors,
      getElem?_map, getElem?_range hHead]
    rfl
  have hSome : d < (f (widthAt plan (placeOf plan kv layer plane token))
      (kv.vector layer plane token head)).length := by
    rw [hLength, CanonicalKv.vector, length_map, length_range]
    exact hd
  rw [KvRows.tensor, Tensor.get?_ofFn hBounds]
  dsimp only
  rw [getD_eq_getElem?_getD, hAt, getElem?_eq_getElem hSome, Option.getD_some]

/-- The rows with the bucket of a width written to its places. -/
def writeWidth (plan : MaKVQuantPlan) (kv : CanonicalKv E) (f : Int → List E → List E)
    (out : KvRows E) (bit : Int) : KvRows E :=
  scatterBucket kv.dims plan.importanceLayout (positionsOf plan bit)
    ((bucketVectors plan kv bit).map (f bit)) out

omit [PyFloat F] [Float32Arithmetic W] [KvElement E W] in
theorem writeWidth_wrote (h : Describes plan kv) (f : Int → List E → List E) :
    ∀ bit ∈ plan.bucketBits, ∀ out, WroteBucket plan kv bit (f bit) out
      (writeWidth plan kv f out bit) :=
  fun bit _ out => scatterBucket_wrote h bit (f bit) out

omit [PyFloat F] [Float32Arithmetic W] [KvElement E W] in
theorem dims_eq (h : Describes plan kv) :
    (⟨plan.numLayers, plan.numKvHeads, plan.headDim, plan.chunkLength⟩ : PlanDims) = kv.dims := by
  rw [h.numLayers, h.numKvHeads, h.headDim, h.chunkLength]
  rfl

omit [Float32Arithmetic W] in
theorem zeroRows_eq (kv : CanonicalKv E) : ∃ rows : KvRows E, zeroRows kv.dims = .ok rows := by
  have hDims : (kv.dims.numLayers < 0 || kv.dims.chunkLength < 0 ||
      kv.dims.numKvHeads * kv.dims.headDim < 0) = false := by
    have hLayers : ¬kv.dims.numLayers < 0 := not_lt.mpr (Int.natCast_nonneg _)
    have hTokens : ¬kv.dims.chunkLength < 0 := not_lt.mpr (Int.natCast_nonneg _)
    have hColumns : ¬kv.dims.numKvHeads * kv.dims.headDim < 0 :=
      not_lt.mpr (Int.mul_nonneg (Int.natCast_nonneg _) (Int.natCast_nonneg _))
    rw [decide_eq_false hLayers, decide_eq_false hTokens, decide_eq_false hColumns]
    rfl
  rw [zeroRows, hDims]
  exact ⟨_, rfl⟩

omit [PyFloat F] in
theorem length_reconstructedVector (dtype : ScaleDtype) (bit : Int) (v : List E) :
    (reconstructedVector bit dtype v).length = v.length := by
  unfold reconstructedVector
  split_ifs
  · rfl
  · rw [length_map, dequantizedVector, length_map, length_quantizedVector]

theorem dequantizeReference_spec (hPlan : Quantizable plan kv) (hIds : IdsBelow plan)
    (dtype : ScaleDtype) :
    ∃ tensor : Tensor E, dequantizeReference (planJson plan : Json F)
        (Dict.ofList (plan.bucketBits.map fun bit => (bit, tensorsOf plan kv dtype bit))) =
        .ok tensor ∧
      HoldsVectors plan kv (fun bit => reconstructedVector bit dtype) tensor := by
  have hItems := planJson_items (F := F) plan
  have hDims : PlanDims.ofPlan (planJson plan : Json F) = .ok kv.dims := by
    rw [hItems.dims, dims_eq hPlan.toDescribes]
  obtain ⟨rows, hZero⟩ := zeroRows_eq kv
  have hKeys : ((plan.bucketBits.map fun bit => (bit, tensorsOf plan kv dtype bit)).map
      Prod.fst).Nodup := by
    rw [map_map]
    exact (map_id plan.bucketBits).symm ▸ hPlan.nodup
  have hLoop := RowsHold.foldl hPlan hIds
    (writeWidth_wrote hPlan.toDescribes fun bit => reconstructedVector bit dtype) rows
  have hRun : (plan.bucketBits.map fun bit => (bit, tensorsOf plan kv dtype bit)).foldlM
      (restoreBucket kv.dims plan.importanceLayout) rows =
      .ok (plan.bucketBits.foldl (writeWidth plan kv fun bit => reconstructedVector bit dtype)
        rows) := by
    rw [foldlM_map]
    exact foldlM_eq_ok (fun bit hBit out =>
      restoreBucket_eq hPlan (hPlan.widths bit hBit) dtype out) rows
  refine ⟨_, ?_, hLoop.tensor hPlan hIds (length_reconstructedVector dtype)⟩
  rw [dequantizeReference, hDims, ok_bind, hZero, ok_bind, hItems.layout, ok_bind,
    Dict.entries_ofList hKeys, Json.toText]
  dsimp only
  rw [hRun]
  rfl

def upgradedVector (bit : Int) (dtype : ScaleDtype) (vector : List E) : List E :=
  (floatVector bit dtype vector).map KvElement.narrow

omit [PyFloat F] in
omit [PyFloat F] [Float32Arithmetic W] [KvElement E W] in
theorem positionsOf_perm (hNodup : plan.bucketBits.Nodup) (hIds : IdsBelow plan) :
    (plan.bucketBits.flatMap (positionsOf plan)).Perm
      ((List.range plan.bucketIds.length).map fun i : Nat => (i : Int)) := by
  have hMap : plan.bucketBits.flatMap (positionsOf plan) =
      (plan.bucketBits.flatMap (placesOf plan)).map fun i : Nat => (i : Int) :=
    (map_flatMap).symm
  rw [hMap]
  exact (placesOf_perm hNodup hIds).map _

variable {done rest : List Int}

omit [PyFloat F] [Float32Arithmetic W] [KvElement E W] in
theorem seenPositions_eq (hNodup : plan.bucketBits.Nodup) (hIds : IdsBelow plan) {bit : Int}
    (hBits : plan.bucketBits = done ++ bit :: rest) (kind : String) :
    seenPositions plan.bucketIds.length kind (done.flatMap (positionsOf plan))
        (positionsOf plan bit) = .ok ((done ++ [bit]).flatMap (positionsOf plan)) := by
  have hPerm := positionsOf_perm hNodup hIds
  have hAll : ((done ++ [bit]).flatMap (positionsOf plan)).Nodup := by
    have hWhole : (plan.bucketBits.flatMap (positionsOf plan)).Nodup :=
      hPerm.nodup_iff.mpr (nodup_range.map Nat.cast_injective)
    rw [hBits, ← singleton_append, ← append_assoc, flatMap_append] at hWhole
    exact (nodup_append.mp hWhole).1
  rw [flatMap_append, flatMap_singleton] at hAll
  have hRange : (positionsOf plan bit).any
      (fun value => value < 0 || (plan.bucketIds.length : Int) ≤ value) = false := by
    rw [any_eq_false]
    intro value hValue
    obtain ⟨i, hi, rfl⟩ := mem_map.mp hValue
    have hPlace := lt_of_mem_placesOf hi
    simp only [Bool.or_eq_true, decide_eq_true_eq, not_or]
    omega
  have hDistinct : (!decide (done.flatMap (positionsOf plan) ++ positionsOf plan bit).Nodup) =
      false := by
    rw [decide_eq_true hAll]
    rfl
  rw [seenPositions, hRange, rejectIf_false, ok_bind, hDistinct, rejectIf_false, ok_bind,
    flatMap_append, flatMap_singleton]
  rfl

omit [PyFloat F] [Float32Arithmetic W] [KvElement E W] in
theorem bucketShape_eq (h : Describes plan kv) (bit : Int) :
    ∃ leading, bucketShape plan (placesOf plan bit).length = leading ++ [(kv.dim : Int)] ∧
      RowShape leading (bucketVectors plan kv bit).length := by
  have hLength := length_bucketVectors plan kv bit
  rw [length_bucketGroups] at hLength
  unfold bucketShape
  rw [h.numLayers, h.numKvHeads, h.headDim, hLength]
  split_ifs with hLayout
  · refine ⟨[kv.layers, 2, (placesOf plan bit).length, kv.heads], rfl, ?_, ?_⟩
    · intro n hn
      simp only [mem_cons, not_mem_nil, or_false] at hn
      omega
    · simp only [prod_cons, prod_nil]
      push_cast
      ring
  · refine ⟨[(placesOf plan bit).length, kv.heads], rfl, ?_, ?_⟩
    · intro n hn
      simp only [mem_cons, not_mem_nil, or_false] at hn
      omega
    · simp only [prod_cons, prod_nil]
      push_cast
      ring

theorem reconstructBucket_eq (hPlan : Quantizable plan kv) (hIds : IdsBelow plan)
    (dtype : ScaleDtype) {bit : Int} (hBits : plan.bucketBits = done ++ bit :: rest)
    (rows : KvRows E) :
    reconstructBucket (planJson plan : Json F) payloads kv.dims plan.importanceLayout
        plan.bucketIds.length none
        (Dict.ofList (plan.bucketBits.map fun bit => (bit, tensorsOf plan kv dtype bit)))
        ⟨rows, done.flatMap (positionsOf plan)⟩ (.int bit) =
      .ok ⟨writeWidth plan kv (fun bit => upgradedVector bit dtype) rows bit,
        (done ++ [bit]).flatMap (positionsOf plan)⟩ := by
  have hBit : bit ∈ plan.bucketBits := by rw [hBits]; simp
  have hKeys : ((plan.bucketBits.map fun bit => (bit, tensorsOf plan kv dtype bit)).map
      Prod.fst).Nodup := by
    rw [map_map]
    exact (map_id plan.bucketBits).symm ▸ hPlan.nodup
  have hGet : (Dict.ofList (plan.bucketBits.map fun bit =>
      (bit, tensorsOf plan kv dtype bit))).get? bit = some (tensorsOf plan kv dtype bit) := by
    rw [Dict.get?_ofList _ hKeys, Dict.find_map_pair (tensorsOf plan kv dtype), if_pos hBit]
  have hCount : (tensorsOf plan kv dtype bit).positions.length = (placesOf plan bit).length :=
    length_map _
  obtain ⟨leading, hShape, hRows⟩ := bucketShape_eq hPlan.toDescribes bit
  have hValues := decodeBucketValues_eq (hPlan.widths bit hBit)
    length_of_mem_bucketVectors hRows dtype (positionsOf plan bit)
  have hSeen := seenPositions_eq hPlan.nodup hIds hBits
    (if plan.importanceLayout = "token" then "token" else "layer/KV")
  unfold reconstructBucket
  rw [Json.toInt, ok_bind, hGet]
  dsimp only
  rw [ok_bind, hCount, hPlan.toDescribes.residualShape_ok, ok_bind, hShape]
  have hPositions : (tensorsOf plan kv dtype bit).positions = positionsOf plan bit := rfl
  have hDecoded : decodeBucketValues E bit (tensorsOf plan kv dtype bit)
      (leading ++ [(kv.dim : Int)]) kv.dims.headDim =
      .ok ((bucketVectors plan kv bit).map (floatVector bit dtype)) := hValues
  rw [hPositions, hSeen, ok_bind, hDecoded, ok_bind, addResidual, ok_bind, map_map]
  rfl

theorem reconstructWithResidual_spec (h : QuantizedAs plan kv config metadata payloads)
    (hPlan : Quantizable plan kv) (hIds : IdsBelow plan)
    (hScale : plan.scaleDtype = config.scaleDtype.text)
    (hResidual : config.residualDtype.stored = none) :
    ∃ tensor : Tensor E, reconstructWithResidual E metadata payloads = .ok tensor ∧
      HoldsVectors plan kv (fun bit => upgradedVector bit config.scaleDtype) tensor := by
  have hItems := planJson_items (F := F) plan
  have hDims : PlanDims.ofPlan (planJson plan : Json F) = .ok kv.dims := by
    rw [hItems.dims, dims_eq hPlan.toDescribes]
  have hNone : metadata.get? "residual" = none := by rw [h.residual, if_pos hResidual]
  have hValid : validateResidualMetadata metadata payloads = .ok () := by
    rw [validateResidualMetadata, residualDescriptor, hNone]
  have hByBit : residualByBit metadata = .ok none := by
    rw [residualByBit, hNone]
  have hObject : (!(planJson plan : Json F).isObject) = false := by
    rw [hItems.isObject]
    rfl
  have hWidths : (intList plan.bucketBits : Json F).iterate = .ok (plan.bucketBits.map .int) := rfl
  obtain ⟨rows, hZero⟩ := zeroRows_eq kv
  have hExpected : (if plan.importanceLayout = "token" then kv.dims.chunkLength
      else kv.dims.numLayers * 2 * kv.dims.chunkLength) = (plan.bucketIds.length : Int) := by
    rcases hPlan.layout with ⟨hLayout, hLength⟩ | ⟨hLayout, hLength⟩
    · rw [if_pos hLayout, hLength]
      rfl
    · rw [if_neg (by rw [hLayout]; decide), hLength]
      push_cast
      rfl
  -- the rounds, from what was written before them
  have hLoop : ∀ (rest done : List Int), plan.bucketBits = done ++ rest → ∀ rows : KvRows E,
      rest.foldlM (fun acc bit => reconstructBucket (planJson plan : Json F) payloads kv.dims
        plan.importanceLayout plan.bucketIds.length none
          (Dict.ofList (plan.bucketBits.map fun bit =>
          (bit, tensorsOf plan kv config.scaleDtype bit))) acc (.int bit))
        ⟨rows, done.flatMap (positionsOf plan)⟩ =
      .ok ⟨rest.foldl (writeWidth plan kv fun bit => upgradedVector bit config.scaleDtype) rows,
        plan.bucketBits.flatMap (positionsOf plan)⟩ := by
    intro rest
    induction rest with
    | nil =>
      intro done hBits rows
      rw [hBits, append_nil]
      rfl
    | cons bit rest ih =>
      intro done hBits rows
      rw [foldlM_cons, reconstructBucket_eq hPlan hIds config.scaleDtype hBits rows, ok_bind]
      exact ih (done ++ [bit]) (by rw [hBits, append_assoc]; rfl) _
  have hHeld := RowsHold.foldl hPlan hIds
    (writeWidth_wrote hPlan.toDescribes fun bit => upgradedVector bit config.scaleDtype) rows
  have hCover : decide (((plan.bucketBits.flatMap (positionsOf plan)).length : Int) ≠
      plan.bucketIds.length) = false := by
    rw [(positionsOf_perm hPlan.nodup hIds).length_eq, length_map, length_range]
    exact decide_eq_false (not_not.mpr rfl)
  have hUpgraded : ∀ (bit : Int) (v : List E),
      (upgradedVector bit config.scaleDtype v).length = v.length := by
    intro bit v
    unfold upgradedVector floatVector
    split_ifs
    · rw [length_map, length_map]
    · rw [length_map, dequantizedVector, length_map, length_quantizedVector]
  refine ⟨_, ?_, hHeld.tensor hPlan hIds hUpgraded⟩
  unfold reconstructWithResidual
  rw [hValid, ok_bind]
  dsimp only
  rw [h.planItem, Option.getD_some, hObject, rejectIf_false, ok_bind, hDims, ok_bind, hZero,
    ok_bind, loadPayloads_eq h hPlan hScale, ok_bind, hByBit, ok_bind, hItems.layout, ok_bind,
    hItems.bucketBits, ok_bind, hWidths, ok_bind, foldlM_map]
  have hRun := hLoop plan.bucketBits [] rfl rows
  rw [flatMap_nil] at hRun
  have hText : (Json.str plan.importanceLayout : Json F).toText = plan.importanceLayout := rfl
  rw [hText, hExpected, hRun, ok_bind]
  dsimp only
  rw [hCover]
  rfl

omit [PyFloat F] in
theorem upgradedVector_of_ne {bit : Int} (h : bit ≠ 16) (dtype : ScaleDtype) (vector : List E) :
    upgradedVector bit dtype vector = reconstructedVector bit dtype vector := by
  rw [upgradedVector, reconstructedVector, floatVector, if_neg h, if_neg h]

omit [PyFloat F] in
theorem upgradedVector_sixteen (dtype : ScaleDtype) (vector : List E) :
    upgradedVector 16 dtype vector = vector.map fun x => KvElement.narrow (KvElement.widen x) := by
  rw [upgradedVector, floatVector, if_pos rfl, map_map]
  rfl

/-- What a restore makes of a vector at a width: the vector itself at 16 bits, where an upgrade
takes its elements through `float32`, and else the reconstruction from its codes. -/
def restoredVector (upgrade : Bool) (dtype : ScaleDtype) (bit : Int) (vector : List E) : List E :=
  if bit = 16 then
    if upgrade then vector.map fun x => KvElement.narrow (KvElement.widen x) else vector
  else reconstructedVector bit dtype vector

omit [PyFloat F] in
theorem restoredVector_reference (dtype : ScaleDtype) :
    (fun bit => reconstructedVector bit dtype) = (restoredVector false dtype : _ → List E → _) := by
  funext bit vector
  by_cases hSixteen : bit = 16
  · rw [restoredVector, if_pos hSixteen, reconstructedVector, if_pos hSixteen]
    rfl
  · rw [restoredVector, if_neg hSixteen]

omit [PyFloat F] in
theorem restoredVector_upgrade (dtype : ScaleDtype) :
    (fun bit => upgradedVector bit dtype) = (restoredVector true dtype : _ → List E → _) := by
  funext bit vector
  by_cases hSixteen : bit = 16
  · rw [restoredVector, if_pos hSixteen, hSixteen, upgradedVector_sixteen]
    rfl
  · rw [restoredVector, if_neg hSixteen, upgradedVector_of_ne hSixteen]

/-- The bucket positions of a quantized tensor are the places of the plan, each once. The
reference restore and, without residuals, the reconstruction of an upgrade put every vector
back at its place, as it is restored at the width of the place. -/
theorem restores_undo_quantizer [QdmRuntime F E] (plan : MaKVQuantPlan) (kv : CanonicalKv E)
    (hPlan : Quantizable plan kv) (hIds : IdsBelow plan) (config : MaKVConfig F)
    (hScale : plan.scaleDtype = config.scaleDtype.text) (qdmObserver : Option (QdmObserver F E))
    (enableQdm : Bool) (blockSize : Int) (version : String) (metadata : Metadata F)
    (payloads : Payloads)
    (hRun : quantizeCanonicalKv kv plan config qdmObserver enableQdm blockSize version =
      .ok (metadata, payloads)) :
    (plan.bucketBits.flatMap (storedPositions payloads)).Perm
        ((List.range plan.bucketIds.length).map fun i : Nat => (i : Int)) ∧
      (∃ tensors tensor, loadPayloads E metadata payloads = .ok tensors ∧
        dequantizeReference (planJson plan : Json F) tensors = .ok tensor ∧
        HoldsVectors plan kv (restoredVector false config.scaleDtype) tensor) ∧
      (config.residualDtype.stored = none → ∃ tensor,
        reconstructWithResidual E metadata payloads = .ok tensor ∧
        HoldsVectors plan kv (restoredVector true config.scaleDtype) tensor) := by
  have hQuantized := quantizeCanonicalKv_spec hPlan hRun
  obtain ⟨tensor, hRestore, hHolds⟩ :=
    dequantizeReference_spec (F := F) hPlan hIds config.scaleDtype
  rw [restoredVector_reference] at hHolds
  refine ⟨?_, ⟨_, tensor, loadPayloads_eq hQuantized hPlan hScale, hRestore, hHolds⟩,
    fun hResidual => ?_⟩
  · have hPositions : plan.bucketBits.flatMap (storedPositions payloads) =
        plan.bucketBits.flatMap (positionsOf plan) :=
      List.flatMap_congr fun bit hBit => storedPositions_eq hQuantized hPlan.places_lt hBit
    rw [hPositions]
    exact positionsOf_perm hPlan.nodup hIds
  · obtain ⟨upgraded, hUpgrade, hUpgraded⟩ :=
      reconstructWithResidual_spec hQuantized hPlan hIds hScale hResidual
    rw [restoredVector_upgrade] at hUpgraded
    exact ⟨upgraded, hUpgrade, hUpgraded⟩

/-- The bits of a `bfloat16`. -/
structure BFloat16 where
  bits : UInt16
deriving DecidableEq, Repr

structure Float32Bits where
  bits : UInt32
deriving DecidableEq, Repr

/-- A `bfloat16` has the upper half of the bits. -/
def BFloat16.widen (x : BFloat16) : Float32Bits := ⟨x.bits.toUInt32 <<< 16⟩

/-- The nearest `bfloat16`, ties to even; every NaN becomes the same one. -/
def Float32Bits.narrow (w : Float32Bits) : BFloat16 :=
  if 0x7F800000 < (w.bits &&& 0x7FFFFFFF) then ⟨0x7FC0⟩
  else ⟨((w.bits + (0x7FFF : UInt32) + ((w.bits >>> 16) &&& 1)) >>> 16).toUInt16⟩

/-- Conversions, and the arithmetic of zeros: only zeros are scaled. -/
instance float32Bits : Float32Arithmetic Float32Bits where
  ofCode _ := ⟨0⟩
  mul x _ := x
  add x _ := x
  sub x _ := x
  toStored dtype x := Bytes.toLE dtype.size x.bits.toNat
  ofStored _ bytes := ⟨UInt32.ofNat (Bytes.ofLE bytes)⟩
  length_toStored _ _ := Bytes.length_toLE ..

instance bfloat16Element : KvElement BFloat16 Float32Bits where
  size := 2
  toBytes x := Bytes.toLE 2 x.bits.toNat
  ofBytes bs := ⟨UInt16.ofNat (Bytes.ofLE bs)⟩
  size_pos := Nat.two_pos
  length_toBytes _ := Bytes.length_toLE ..
  ofBytes_toBytes x := by
    rw [Bytes.ofLE_toLE (by have := x.bits.toNat_lt; omega)]
    exact congrArg BFloat16.mk UInt16.ofNat_toNat
  zero := ⟨0⟩
  temporaryScale _ _ := ⟨0x3F80⟩
  roundQuotient _ _ := 0
  scaleBytes dtype x := Bytes.toLE dtype.size x.bits.toNat
  widen := BFloat16.widen
  narrow := Float32Bits.narrow
  length_scaleBytes _ _ := Bytes.length_toLE ..

instance withoutObserver : QdmRuntime Decimal BFloat16 :=
  ⟨fun _ _ _ => raise .runtimeError "no observer"⟩

/-- Three tokens of one layer and two heads: zeros between NaNs that have payloads. -/
def nanKv : CanonicalKv BFloat16 := ⟨1, 3, 2, 1, fun _ _ token head _ =>
  if token = 1 then ⟨0⟩ else ⟨0x7FC1 + UInt16.ofNat (2 * token + head)⟩⟩

def splitPlan : MaKVQuantPlan where
  protocolVersion := 1
  importanceLayout := "token"
  tokenCount := 3
  chunkStart := 0
  chunkLength := 3
  bucketBits := [16, 4]
  bucketIds := [0, 1, 0]
  originalShape := [2, 1, 3, 2]
  originalStrides := [6, 6, 2, 1]
  originalDtype := "torch.bfloat16"
  tokenDim := 2
  numLayers := 1
  numKvHeads := 2
  headDim := 1
  quantGranularity := "per_token_head"
  scaleDtype := "float16"
  modelFingerprint := ""
  parallelFingerprint := ""
  checksum := 0

def splitConfig : MaKVConfig Decimal :=
  { halvesConfig with residualDtype := .none }

theorem quantizable_splitPlan : Quantizable splitPlan nanKv where
  numLayers := rfl
  chunkLength := rfl
  numKvHeads := rfl
  headDim := rfl
  layout := Or.inl ⟨rfl, rfl⟩
  layers_pos := by decide
  heads_pos := by decide
  dim_pos := by decide
  places_lt := by decide
  widths := by
    unfold IsWidth
    decide
  nodup := by decide

theorem idsBelow_splitPlan : IdsBelow splitPlan := by
  unfold IdsBelow
  decide +kernel

theorem reference_keeps_nan : ∃ metadata payloads tensors, ∃ tensor : Tensor BFloat16,
    quantizeCanonicalKv nanKv splitPlan splitConfig none false 32 "1" = .ok (metadata, payloads) ∧
      loadPayloads BFloat16 metadata payloads = .ok tensors ∧
      dequantizeReference (planJson splitPlan : Json Decimal) tensors = .ok tensor ∧
      tensor.get? [1, 0, 2, 1] = some ⟨0x7FC6⟩ ∧ tensor.get? [0, 0, 1, 0] = some ⟨0⟩ := by
  obtain ⟨⟨metadata, payloads⟩, hRun⟩ :=
    quantizeCanonicalKv_ok quantizable_splitPlan splitConfig none 32 "1"
  obtain ⟨-, ⟨tensors, tensor, hLoad, hRestore, hHolds⟩, -⟩ := restores_undo_quantizer splitPlan
    nanKv quantizable_splitPlan idsBelow_splitPlan splitConfig rfl none false 32 "1" metadata
    payloads hRun
  exact ⟨metadata, payloads, tensors, tensor, hRun, hLoad, hRestore,
    hHolds.element 1 (by decide) 0 (by decide) 2 (by decide) 1 (by decide) 0 (by decide),
    hHolds.element 0 (by decide) 0 (by decide) 1 (by decide) 0 (by decide) 0 (by decide)⟩

theorem upgrade_changes_nan : ∃ metadata payloads, ∃ tensor : Tensor BFloat16,
    quantizeCanonicalKv nanKv splitPlan splitConfig none false 32 "1" = .ok (metadata, payloads) ∧
      splitConfig.residualDtype.stored = none ∧
      widthAt splitPlan (placeOf splitPlan nanKv 0 0 0) = 16 ∧
      reconstructWithResidual BFloat16 metadata payloads = .ok tensor ∧
      nanKv.element 0 0 0 0 0 = ⟨0x7FC1⟩ ∧ tensor.get? [0, 0, 0, 0] = some ⟨0x7FC0⟩ := by
  obtain ⟨⟨metadata, payloads⟩, hRun⟩ :=
    quantizeCanonicalKv_ok quantizable_splitPlan splitConfig none 32 "1"
  obtain ⟨tensor, hUpgrade, hHolds⟩ := reconstructWithResidual_spec
    (quantizeCanonicalKv_spec quantizable_splitPlan hRun) quantizable_splitPlan idsBelow_splitPlan
    rfl rfl
  refine ⟨metadata, payloads, tensor, hRun, rfl, rfl, hUpgrade, rfl, ?_⟩
  exact hHolds.element 0 (by decide) 0 (by decide) 0 (by decide) 0 (by decide) 0 (by decide)

end LMCache.MaKV
