import LMCache.MaKV.QuantizerSpec

/-!
# Restoring what was quantized

The positions of the buckets partition the places of the plan. So the restore, which writes
the vectors of every bucket at its positions, writes every place once, with the
reconstruction at the width that the plan has for the place.
-/

namespace LMCache.MaKV

open Lib List Option Dict

variable {F E W : Type}

/-- The bucket ids of the plan name buckets of the plan. -/
def IdsBelow (plan : MaKVQuantPlan) : Prop :=
  ∀ id ∈ plan.bucketIds, id.toNat < plan.bucketBits.length

def widthAt (plan : MaKVQuantPlan) (place : Nat) : Int :=
  plan.bucketBits.getD (plan.bucketIds.getD place 0).toNat 0

def placeOf (plan : MaKVQuantPlan) (kv : CanonicalKv E) (layer plane token : Nat) : Nat :=
  if plan.importanceLayout = "token" then token else (layer * 2 + plane) * kv.tokens + token

theorem bucketOf_eq_idxOf {plan : MaKVQuantPlan} (hNodup : plan.bucketBits.Nodup) {bit : Int}
    (hBit : bit ∈ plan.bucketBits) : bucketOf plan bit = plan.bucketBits.idxOf bit := by
  have hKeys : (plan.bucketBits.zipIdx.map Prod.fst).Nodup := by
    rw [zipIdx_map_fst]
    exact hNodup
  have hIndex : plan.bucketBits[plan.bucketBits.idxOf bit]? = some bit := by
    rw [getElem?_eq_getElem (idxOf_lt_length_of_mem hBit), getElem_idxOf]
  have hFind : Dict.find bit plan.bucketBits.zipIdx = some (plan.bucketBits.idxOf bit) :=
    (find_eq_some_iff hKeys).mpr (mk_mem_zipIdx_iff_getElem?.mpr hIndex)
  rw [bucketOf, bitsToBucket, get?_ofList _ hKeys, hFind]
  rfl

theorem mem_placesOf {plan : MaKVQuantPlan} (hNodup : plan.bucketBits.Nodup)
    (hIds : IdsBelow plan) {bit : Int} (hBit : bit ∈ plan.bucketBits) {i : Nat} :
    i ∈ placesOf plan bit ↔ i < plan.bucketIds.length ∧ widthAt plan i = bit := by
  rw [placesOf, mem_bucketPlaces, bucketOf_eq_idxOf hNodup hBit]
  refine and_congr_right fun hi => ?_
  have hId : (plan.bucketIds.getD i 0).toNat < plan.bucketBits.length := by
    rw [getD_eq_getElem?_getD, getElem?_eq_getElem hi, getD_some]
    exact hIds _ (getElem_mem hi)
  rw [widthAt, getD_eq_getElem?_getD (l := plan.bucketBits), getElem?_eq_getElem hId, getD_some]
  constructor
  · intro hEq
    simp only [hEq, getElem_idxOf]
  · intro hEq
    rw [← hEq, hNodup.idxOf_getElem]

theorem widthAt_mem {plan : MaKVQuantPlan} (hIds : IdsBelow plan) {i : Nat}
    (hi : i < plan.bucketIds.length) : widthAt plan i ∈ plan.bucketBits := by
  have hId : (plan.bucketIds.getD i 0).toNat < plan.bucketBits.length := by
    rw [getD_eq_getElem?_getD, getElem?_eq_getElem hi, getD_some]
    exact hIds _ (getElem_mem hi)
  rw [widthAt, getD_eq_getElem?_getD (l := plan.bucketBits), getElem?_eq_getElem hId, getD_some]
  exact getElem_mem hId

theorem nodup_placesOf (plan : MaKVQuantPlan) (bit : Int) : (placesOf plan bit).Nodup :=
  nodup_range.filter _

theorem placesOf_perm {plan : MaKVQuantPlan} (hNodup : plan.bucketBits.Nodup)
    (hIds : IdsBelow plan) :
    (plan.bucketBits.flatMap (placesOf plan)).Perm (List.range plan.bucketIds.length) := by
  refine (perm_ext_iff_of_nodup ?_ nodup_range).mpr fun i => ?_
  · rw [nodup_flatMap]
    refine ⟨fun bit _ => nodup_placesOf plan bit, ?_⟩
    refine hNodup.imp_of_mem fun {bit bit'} hBit hBit' hne => ?_
    intro i hi hi'
    exact hne (((mem_placesOf hNodup hIds hBit).mp hi).2.symm.trans
      ((mem_placesOf hNodup hIds hBit').mp hi').2)
  · rw [mem_flatMap, mem_range]
    constructor
    · rintro ⟨bit, -, hi⟩
      exact lt_of_mem_placesOf hi
    · intro hi
      have hMem := widthAt_mem hIds hi
      exact ⟨_, hMem, (mem_placesOf hNodup hIds hMem).mpr ⟨hi, rfl⟩⟩

/-- The vectors of a layer, a plane and a token, each passed through `f`, side by side. -/
def groupRowOf (kv : CanonicalKv E) (f : List E → List E) (group : Nat × Nat × Nat) : List E :=
  (groupVectors kv group).flatMap f

theorem groupRow_flatMap (kv : CanonicalKv E) (f : List E → List E)
    {groups : List (Nat × Nat × Nat)} {g : Nat} {group : Nat × Nat × Nat}
    (h : groups[g]? = some group) :
    groupRow kv.heads ((groups.flatMap (groupVectors kv)).map f) g = groupRowOf kv f group := by
  have hLength : ∀ group ∈ groups, ((groupVectors kv group).map f).length = kv.heads := by
    intro group _
    rw [length_map, groupVectors, length_map, length_range]
  have hRows := rowsOf_flatMap (fun group => (groupVectors kv group).map f) groups hLength
  have hAt := congrArg (fun rows : List (List (List E)) => rows[g]?) hRows
  have hLt : g < groups.length := (List.getElem?_eq_some_iff.mp h).1
  simp only [rowsOf, getElem?_map, getElem?_range hLt, h, map_some, Option.some.injEq] at hAt
  rw [groupRow, map_flatMap, hAt, groupRowOf, flatMap_def]

variable {layer plane idx token : Nat}

theorem getElem?_bucketGroups_token {plan : MaKVQuantPlan} {kv : CanonicalKv E} {bit : Int}
    (hLayout : plan.importanceLayout = "token") (hLayer : layer < kv.layers) (hPlane : plane < 2)
    (hIdx : (placesOf plan bit)[idx]? = some token) :
    (bucketGroups plan kv bit)[(layer * 2 + plane) * (placesOf plan bit).length + idx]? =
      some (layer, plane, token) := by
  have hLt : idx < (placesOf plan bit).length := (List.getElem?_eq_some_iff.mp hIdx).1
  have hPlanes : ∀ layer ∈ List.range kv.layers, ((List.range 2).flatMap fun plane =>
      (placesOf plan bit).map fun token => (layer, plane, token)).length =
        2 * (placesOf plan bit).length := by
    intro layer _
    rw [Tensor.length_flatMap_const _ _ fun plane _ => length_map _, length_range]
  have hSplit : (layer * 2 + plane) * (placesOf plan bit).length + idx =
      layer * (2 * (placesOf plan bit).length) + (plane * (placesOf plan bit).length + idx) := by
    ring
  have hInner : plane * (placesOf plan bit).length + idx < 2 * (placesOf plan bit).length := by
    have hStep : (plane + 1) * (placesOf plan bit).length ≤ 2 * (placesOf plan bit).length :=
      Nat.mul_le_mul_right _ hPlane
    rw [Nat.succ_mul] at hStep
    omega
  rw [bucketGroups, if_pos hLayout, hSplit,
    Tensor.getElem?_flatMap_const _ _ hPlanes hInner, getElem?_range hLayer, bind_some,
    Tensor.getElem?_flatMap_const _ _ (fun plane _ => length_map _) hLt,
    getElem?_range hPlane, bind_some, getElem?_map, hIdx]
  rfl

theorem parts_of_place {tokens place : Nat} (hPlane : plane < 2) (hToken : token < tokens) :
    (plane = place / tokens % 2 ∧ layer = place / (2 * tokens) ∧ token = place % tokens) ↔
      place = (layer * 2 + plane) * tokens + token := by
  have hTokens : 0 < tokens := by omega
  have hHalf : place / (2 * tokens) = place / tokens / 2 := by
    rw [Nat.mul_comm, Nat.div_div_eq_div_mul]
  rw [hHalf]
  constructor
  · rintro ⟨hP, hL, hT⟩
    have hRow : layer * 2 + plane = place / tokens := by omega
    rw [hRow, hT, Nat.div_add_mod']
  · intro hPlace
    have hRow : place / tokens = layer * 2 + plane := by
      rw [hPlace, Nat.mul_comm, Nat.mul_add_div hTokens, Nat.div_eq_of_lt hToken, Nat.add_zero]
    have hMod : place % tokens = token := by
      rw [hPlace, Nat.mul_comm, Nat.mul_add_mod, Nat.mod_eq_of_lt hToken]
    omega

theorem getElem?_bucketGroups_layer {plan : MaKVQuantPlan} {kv : CanonicalKv E} {bit : Int}
    (hLayout : plan.importanceLayout ≠ "token") (hPlane : plane < 2) (hToken : token < kv.tokens)
    (hIdx : (placesOf plan bit)[idx]? = some ((layer * 2 + plane) * kv.tokens + token)) :
    (bucketGroups plan kv bit)[idx]? = some (layer, plane, token) := by
  obtain ⟨hPlaneEq, hLayerEq, hTokenEq⟩ := (parts_of_place hPlane hToken).mpr
    (rfl : (layer * 2 + plane) * kv.tokens + token = _)
  rw [bucketGroups, if_neg hLayout, getElem?_map, hIdx, map_some, ← hPlaneEq,
    ← hLayerEq, ← hTokenEq]

/-- The rows after the bucket of a width was written: its places hold its vectors, the other
places are as before. -/
def WroteBucket (plan : MaKVQuantPlan) (kv : CanonicalKv E) (bit : Int) (f : List E → List E)
    (before after : KvRows E) : Prop :=
  ∀ plane < 2, ∀ layer < kv.layers, ∀ token < kv.tokens, after plane layer token =
    if placeOf plan kv layer plane token ∈ placesOf plan bit then
      groupRowOf kv f (layer, plane, token)
    else before plane layer token

/-- A loop of writes, seen at one row that is written at `place` only. -/
theorem foldl_writes {write : KvRows E → Nat × Nat → KvRows E} {place : Nat} {row : Nat → List E}
    (hWrite : ∀ out p, write out p plane layer token =
      if p.1 = place then row p.2 else out plane layer token)
    {writes : List (Nat × Nat)} (hNodup : (writes.map Prod.fst).Nodup) (out : KvRows E) :
    (writes.foldl write out) plane layer token =
      match Dict.find place writes with
      | some idx => row idx
      | none => out plane layer token := by
  induction writes generalizing out with
  | nil => rfl
  | cons p rest ih =>
    obtain ⟨hNew, hRest⟩ := nodup_cons.mp hNodup
    rw [foldl_cons, ih hRest, hWrite]
    by_cases hPlace : p.1 = place
    · have hNone : Dict.find place rest = none := find_eq_none_iff.mpr (hPlace ▸ hNew)
      simp [Dict.find, hPlace, hNone]
    · simp [Dict.find, hPlace]

theorem find_zipIdx_eq_some {places : List Nat} (hNodup : places.Nodup) {place : Nat} :
    Dict.find place places.zipIdx = some idx ↔ places[idx]? = some place := by
  have hKeys : (places.zipIdx.map Prod.fst).Nodup := by
    rw [zipIdx_map_fst]
    exact hNodup
  rw [find_eq_some_iff hKeys, mk_mem_zipIdx_iff_getElem?]

theorem wroteBucket_of_foldl {plan : MaKVQuantPlan} {kv : CanonicalKv E} {bit : Int}
    {f : List E → List E} {write : KvRows E → Nat × Nat → KvRows E}
    (hWrite : ∀ plane < 2, ∀ layer < kv.layers, ∀ token < kv.tokens, ∃ row : Nat → List E,
      (∀ out p, write out p plane layer token =
        if p.1 = placeOf plan kv layer plane token then row p.2 else out plane layer token) ∧
      ∀ idx, (placesOf plan bit)[idx]? = some (placeOf plan kv layer plane token) →
        row idx = groupRowOf kv f (layer, plane, token)) (out : KvRows E) :
    WroteBucket plan kv bit f out ((placesOf plan bit).zipIdx.foldl write out) := by
  intro plane hPlane layer hLayer token hToken
  obtain ⟨row, hAt, hRow⟩ := hWrite plane hPlane layer hLayer token hToken
  have hNodup := nodup_placesOf plan bit
  have hKeys : ((placesOf plan bit).zipIdx.map Prod.fst).Nodup := by
    rw [zipIdx_map_fst]
    exact hNodup
  rw [foldl_writes hAt hKeys]
  cases hFind : Dict.find (placeOf plan kv layer plane token) (placesOf plan bit).zipIdx with
  | none =>
    have hNot : placeOf plan kv layer plane token ∉ placesOf plan bit := by
      rw [find_eq_none_iff, zipIdx_map_fst] at hFind
      exact hFind
    rw [if_neg hNot]
  | some idx =>
    have hIdx := (find_zipIdx_eq_some hNodup).mp hFind
    rw [if_pos (mem_of_getElem? hIdx)]
    exact hRow idx hIdx

/-- The dimensions of a tensor, as a plan lists them. -/
def CanonicalKv.dims (kv : CanonicalKv E) : PlanDims := ⟨kv.layers, kv.heads, kv.dim, kv.tokens⟩

theorem scatterBucket_wrote {plan : MaKVQuantPlan} {kv : CanonicalKv E} (h : Describes plan kv)
    (bit : Int) (f : List E → List E) (out : KvRows E) :
    WroteBucket plan kv bit f out (scatterBucket kv.dims plan.importanceLayout
      ((placesOf plan bit).map fun i : Nat => (i : Int)) ((bucketVectors plan kv bit).map f)
      out) := by
  have hMap : ((placesOf plan bit).map fun i : Nat => (i : Int)).zipIdx =
      (placesOf plan bit).zipIdx.map fun p => ((p.1 : Int), p.2) := by
    rw [zipIdx_map]
    rfl
  have hHeads : kv.dims.numKvHeads.toNat = kv.heads := Int.toNat_natCast _
  unfold scatterBucket
  simp only [hMap, foldl_map, hHeads]
  refine wroteBucket_of_foldl (fun plane hPlane layer hLayer token hToken => ?_) out
  rcases h.layout with ⟨hLayout, -⟩ | ⟨hLayout, -⟩
  · refine ⟨fun idx => groupRow kv.heads ((bucketVectors plan kv bit).map f)
      ((layer * 2 + plane) * (placesOf plan bit).length + idx), fun out p => ?_, fun idx hIdx => ?_⟩
    · simp only [if_pos hLayout, writeToken, length_map, Int.toNat_natCast, placeOf,
        eq_comm (a := token)]
    · rw [placeOf, if_pos hLayout] at hIdx
      exact groupRow_flatMap kv f (getElem?_bucketGroups_token hLayout hLayer hPlane hIdx)
  · have hOther : plan.importanceLayout ≠ "token" := by rw [hLayout]; decide
    refine ⟨fun idx => groupRow kv.heads ((bucketVectors plan kv bit).map f) idx,
      fun out p => ?_, fun idx hIdx => ?_⟩
    · have hParts : (plane = p.1 / kv.tokens % 2 ∧ layer = p.1 / (2 * kv.tokens) ∧
          token = p.1 % kv.tokens) ↔ p.1 = (layer * 2 + plane) * kv.tokens + token :=
        parts_of_place hPlane hToken
      have hRest : ((p.1 : Int) % (2 * (kv.tokens : Int)) / (kv.tokens : Int)).toNat =
          p.1 / kv.tokens % 2 := by
        rw [← Nat.mod_mul_right_div_self, Nat.mul_comm kv.tokens]
        exact_mod_cast Int.toNat_natCast _
      have hLayerEq : ((p.1 : Int) / (2 * (kv.tokens : Int))).toNat = p.1 / (2 * kv.tokens) := by
        exact_mod_cast Int.toNat_natCast _
      have hTokenEq : ((p.1 : Int) % (2 * (kv.tokens : Int)) % (kv.tokens : Int)).toNat =
          p.1 % kv.tokens := by
        rw [← Nat.mod_mul_left_mod p.1 2 kv.tokens]
        exact_mod_cast Int.toNat_natCast _
      simp only [if_neg hOther, CanonicalKv.dims, writeEntry, hRest, hLayerEq, hTokenEq, placeOf,
        hParts]
    · rw [placeOf, if_neg hOther] at hIdx
      exact groupRow_flatMap kv f (getElem?_bucketGroups_layer hOther hPlane hToken hIdx)

theorem foldlM_eq_ok {α β : Type} {f : β → α → Result β} {g : β → α → β} {l : List α}
    (h : ∀ a ∈ l, ∀ b, f b a = .ok (g b a)) (b : β) : l.foldlM f b = .ok (l.foldl g b) := by
  induction l generalizing b with
  | nil => rfl
  | cons a rest ih =>
    rw [foldlM_cons, h a (by simp), ok_bind, foldl_cons]
    exact ih (fun c hc => h c (by simp [hc])) _

section Reference

variable [Float32Arithmetic W] [KvElement E W] {plan : MaKVQuantPlan} {kv : CanonicalKv E}
  {places : List Nat}

theorem restoreTokens_fold (hPlaces : ∀ i ∈ places, i < kv.tokens) (values : List (List E))
    (out : KvRows E) : (places.map fun i : Nat => (i : Int)).zipIdx.foldlM
        (restoreTokens kv.dims values (places.map fun i : Nat => (i : Int)).length) out =
      .ok (scatterBucket kv.dims "token" (places.map fun i : Nat => (i : Int)) values out) := by
  refine foldlM_eq_ok (fun p hp out => ?_) out
  obtain ⟨i, hi, hEq⟩ := List.mem_map.mp (fst_mem_of_mem_zipIdx hp)
  have hToken : resolveIndex kv.dims.chunkLength.toNat p.1 = .ok p.1.toNat := by
    rw [← hEq]
    exact resolveIndex_eq (hPlaces i hi)
  rw [restoreTokens, hToken, ok_bind, if_pos rfl]
  rfl

theorem restoreEntries_fold (hPlaces : ∀ i ∈ places, i < kv.layers * 2 * kv.tokens)
    {layout : String} (hLayout : layout ≠ "token") (values : List (List E)) (out : KvRows E) :
    (places.map fun i : Nat => (i : Int)).zipIdx.foldlM (restoreEntries kv.dims values) out =
      .ok (scatterBucket kv.dims layout (places.map fun i : Nat => (i : Int)) values out) := by
  refine foldlM_eq_ok (fun p hp out => ?_) out
  obtain ⟨i, hi, hEq⟩ := List.mem_map.mp (fst_mem_of_mem_zipIdx hp)
  have hPlace := hPlaces i hi
  have hTokens : 0 < kv.tokens := by
    by_contra hNone
    rw [Nat.eq_zero_of_not_pos hNone] at hPlace
    omega
  have hSome : decide (kv.dims.chunkLength = 0) = false :=
    decide_eq_false (Int.natCast_ne_zero.mpr (by omega))
  have hWidth : 2 * kv.dims.chunkLength = ((2 * kv.tokens : Nat) : Int) := by
    rw [CanonicalKv.dims]
    push_cast
    rfl
  have hRest : p.1.fmod (2 * kv.dims.chunkLength) = ((i % (2 * kv.tokens) : Nat) : Int) := by
    rw [hWidth, ← hEq]
    exact (Int.ofNat_fmod i _).symm
  have hLayerPos : p.1.fdiv (2 * kv.dims.chunkLength) = ((i / (2 * kv.tokens) : Nat) : Int) := by
    rw [hWidth, ← hEq]
    exact (Int.ofNat_fdiv i _).symm
  have hKv : ((i % (2 * kv.tokens) : Nat) : Int).fdiv kv.dims.chunkLength =
      ((i % (2 * kv.tokens) / kv.tokens : Nat) : Int) := (Int.ofNat_fdiv _ _).symm
  have hTok : ((i % (2 * kv.tokens) : Nat) : Int).fmod kv.dims.chunkLength =
      ((i % (2 * kv.tokens) % kv.tokens : Nat) : Int) := (Int.ofNat_fmod _ _).symm
  have hLayer : i / (2 * kv.tokens) < kv.layers := by
    rw [Nat.div_lt_iff_lt_mul (by omega), ← Nat.mul_assoc]
    exact hPlace
  have hPlane : i % (2 * kv.tokens) / kv.tokens < 2 := by
    rw [Nat.div_lt_iff_lt_mul hTokens]
    exact Nat.mod_lt _ (by omega)
  have hLayers : kv.dims.numLayers.toNat = kv.layers := Int.toNat_natCast _
  have hChunk : kv.dims.chunkLength.toNat = kv.tokens := Int.toNat_natCast _
  rw [restoreEntries, hSome, raiseIf_false, ok_bind, if_neg hLayout]
  dsimp only
  rw [hRest, hLayerPos, hKv, hTok, hLayers, hChunk, resolveIndex_eq hLayer, ok_bind,
    resolveIndex_eq hPlane, ok_bind, resolveIndex_eq (Nat.mod_lt _ hTokens), ok_bind, hWidth, ← hEq]
  rfl

theorem restoreBucket_eq (h : Quantizable plan kv) {bit : Int} (hWidth : IsWidth bit)
    (dtype : ScaleDtype) (out : KvRows E) :
    restoreBucket kv.dims plan.importanceLayout out (bit, bucketTensors bit dtype
        ((placesOf plan bit).map fun i : Nat => (i : Int)) (bucketVectors plan kv bit)) =
      .ok (scatterBucket kv.dims plan.importanceLayout
        ((placesOf plan bit).map fun i : Nat => (i : Int))
        ((bucketVectors plan kv bit).map (reconstructedVector bit dtype)) out) := by
  have hHeads : kv.dims.numKvHeads.toNat = kv.heads := Int.toNat_natCast _
  have hHeadsPos : 0 ≤ kv.dims.numKvHeads := Int.natCast_nonneg _
  have hLayers : kv.dims.numLayers.toNat = kv.layers := Int.toNat_natCast _
  have hLength := length_bucketVectors plan kv bit
  rw [length_bucketGroups] at hLength
  unfold restoreBucket
  dsimp only [bucketTensors]
  split_ifs with hEmpty hToken
  · rw [List.isEmpty_iff.mp hEmpty]
    rfl
  · have hSome := h.bucketVectors_ne_nil fun hPlaces => hEmpty (by rw [hPlaces]; rfl)
    rw [if_pos hToken] at hLength
    have hRows : kv.dims.numLayers.toNat * 2 *
        ((placesOf plan bit).map fun i : Nat => (i : Int)).length * kv.dims.numKvHeads.toNat =
          (bucketVectors plan kv bit).length := by
      rw [hLayers, hHeads, length_map, hLength]
    have hValues := bucketValues_eq hWidth length_of_mem_bucketVectors hSome rfl
      hHeadsPos hRows dtype ((placesOf plan bit).map fun i : Nat => (i : Int))
    rw [bucketTensors] at hValues
    rw [hValues, ok_bind, hToken]
    refine restoreTokens_fold (fun i hi => ?_) _ out
    rcases h.layout with ⟨-, hIds⟩ | ⟨hLayout, -⟩
    · exact hIds ▸ lt_of_mem_placesOf hi
    · rw [hLayout] at hToken
      exact absurd hToken (by decide)
  · have hSome := h.bucketVectors_ne_nil fun hPlaces => hEmpty (by rw [hPlaces]; rfl)
    rw [if_neg hToken] at hLength
    have hRows : ((placesOf plan bit).map fun i : Nat => (i : Int)).length *
        kv.dims.numKvHeads.toNat = (bucketVectors plan kv bit).length := by
      rw [hHeads, length_map, hLength]
    have hValues := bucketValues_eq hWidth length_of_mem_bucketVectors hSome rfl
      hHeadsPos hRows dtype ((placesOf plan bit).map fun i : Nat => (i : Int))
    rw [bucketTensors] at hValues
    rw [hValues, ok_bind]
    refine restoreEntries_fold (fun i hi => ?_) hToken _ out
    rcases h.layout with ⟨hLayout, -⟩ | ⟨-, hIds⟩
    · exact absurd hLayout hToken
    · exact hIds ▸ lt_of_mem_placesOf hi

end Reference

end LMCache.MaKV
