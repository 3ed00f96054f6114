import LMCache.MaKV.Quantizer

/-!
# One bucket

The payload and the scales of a bucket give back, vector by vector, the codes and the scale
that the quantizer computed, and so the reconstruction of every vector.
-/

namespace LMCache.MaKV

open Lib List

variable {E W : Type} [KvElement E W]

def IsWidth (bits : Int) : Prop := bits = 2 ∨ bits = 4 ∨ bits = 8 ∨ bits = 16

def IsCodeWidth (bits : Int) : Prop := bits = 2 ∨ bits = 4 ∨ bits = 8

theorem IsWidth.isCodeWidth {bits : Int} (h : IsWidth bits) (hLow : bits ≠ 16) :
    IsCodeWidth bits := by
  rcases h with h | h | h | h
  · exact Or.inl h
  · exact Or.inr (Or.inl h)
  · exact Or.inr (Or.inr h)
  · exact absurd h hLow

theorem IsCodeWidth.ne_sixteen {bits : Int} (h : IsCodeWidth bits) : bits ≠ 16 := by
  rcases h with rfl | rfl | rfl <;> decide

theorem clamp_bounds (bound : Nat) (code : Int) :
    -(bound : Int) ≤ clamp bound code ∧ clamp bound code ≤ bound := by
  unfold clamp
  omega

theorem length_quantizedVector (bits : Int) (vector : List E) :
    (quantizedVector bits vector).length = vector.length := by
  rw [quantizedVector, length_map]

variable {code : Int}

theorem quantizedVector_bounds {bits : Int} {vector : List E}
    (h : code ∈ quantizedVector bits vector) : -(qmax bits : Int) ≤ code ∧ code ≤ qmax bits := by
  obtain ⟨x, -, rfl⟩ := mem_map.mp h
  exact clamp_bounds _ _

theorem fitsWidth_of_bounds {bits : Int} (hBits : bits = 2 ∨ bits = 4)
    (h : -(qmax bits : Int) ≤ code ∧ code ≤ qmax bits) : FitsWidth bits.toNat code := by
  obtain ⟨hLow, hHigh⟩ := h
  rcases hBits with rfl | rfl
  · have hLow' : -1 ≤ code := hLow
    have hHigh' : code ≤ 1 := hHigh
    exact ⟨show -2 ≤ code by omega, show code < 2 by omega⟩
  · have hLow' : -7 ≤ code := hLow
    have hHigh' : code ≤ 7 := hHigh
    exact ⟨show -8 ≤ code by omega, show code < 8 by omega⟩

theorem signedOfBytes_signedBytes_one (hLow : -127 ≤ code) (hHigh : code ≤ 127) :
    signedBytes 1 code = [UInt8.ofNat (code % 256).toNat] ∧
      signedOfBytes [UInt8.ofNat (code % 256).toNat] = code := by
  have hBytes : signedBytes 1 code = [UInt8.ofNat (code % 256).toNat] := by
    rw [signedBytes, pow_one, Bytes.toLE, Bytes.toLE]
  refine ⟨hBytes, ?_⟩
  rw [← hBytes]
  exact signedOfBytes_signedBytes (by norm_num; omega) (by norm_num; omega)

theorem map_signedOfBytes {codes : List Int} (h : ∀ c ∈ codes, -127 ≤ c ∧ c ≤ 127) :
    ((codes.flatMap (signedBytes 1)).map fun b => signedOfBytes [b]) = codes := by
  induction codes with
  | nil => rfl
  | cons c rest ih =>
    obtain ⟨hLow, hHigh⟩ := h c (by simp)
    obtain ⟨hBytes, hBack⟩ := signedOfBytes_signedBytes_one hLow hHigh
    rw [flatMap_cons, map_append, ih fun d hd => h d (by simp [hd]), hBytes, map_cons, hBack]
    rfl

def vectorBytes (bits : Int) (dim : Nat) : Nat := if bits = 8 then dim else rowBytes bits.toNat dim

theorem length_codeBytes (bits : Int) (codes : List Int) :
    (codeBytes bits codes).length = vectorBytes bits codes.length := by
  unfold codeBytes vectorBytes
  split_ifs
  · rw [Tensor.length_flatMap_const codes _ fun c _ => length_signedBytes 1 c, Nat.mul_one]
  · exact length_packRow _ _

def payloadRows (bits : Int) (vectors : List (List E)) : List (List Int) :=
  vectors.map (quantizedVector bits)

variable {dim : Nat} {vectors : List (List E)}

theorem rowsOf_codeBytes (bits : Int) (hDim : ∀ v ∈ vectors, v.length = dim) :
    rowsOf vectors.length (vectorBytes bits dim)
        (vectors.flatMap fun v => codeBytes bits (quantizedVector bits v)) =
      vectors.map fun v => codeBytes bits (quantizedVector bits v) := by
  refine rowsOf_flatMap _ vectors fun v hv => ?_
  rw [length_codeBytes, length_quantizedVector, hDim v hv]

theorem length_payload (bits : Int) (hDim : ∀ v ∈ vectors, v.length = dim) :
    (vectors.flatMap fun v => codeBytes bits (quantizedVector bits v)).length =
      vectors.length * vectorBytes bits dim := by
  refine Tensor.length_flatMap_const vectors _ fun v hv => ?_
  rw [length_codeBytes, length_quantizedVector, hDim v hv]

theorem unpackLowBit_payload {bits : Int} (hBits : bits = 2 ∨ bits = 4)
    (hDim : ∀ v ∈ vectors, v.length = dim) (hSome : vectors ≠ []) :
    unpackLowBit (vectors.flatMap fun v => codeBytes bits (quantizedVector bits v)) vectors.length
      dim bits = .ok (payloadRows bits vectors) := by
  have hNot : bits ≠ 8 := by rcases hBits with rfl | rfl <;> decide
  have hWidth : vectorBytes bits dim = rowBytes bits.toNat dim := if_neg hNot
  have hPacked : IsPackedWidth bits.toNat := by
    rcases hBits with rfl | rfl
    · exact Or.inl rfl
    · exact Or.inr rfl
  have hRows := rowsOf_codeBytes bits hDim
  have hLength := length_payload bits hDim
  rw [hWidth] at hRows hLength
  have hKnown : (bits ≠ 2 && bits ≠ 4) = false := by rcases hBits with rfl | rfl <;> decide
  have hCount : decide (vectors.length = 0) = false :=
    decide_eq_false (mt length_eq_zero_iff.mp hSome)
  simp only [unpackLowBit, hKnown, rejectIf_false, ok_bind, hLength, hRows, ne_eq, not_true,
    decide_false, raiseIf_false, hCount]
  refine congrArg Except.ok ?_
  rw [map_map, payloadRows]
  refine map_congr_left fun v hv => ?_
  simp only [Function.comp_apply, codeBytes, if_neg hNot]
  conv_lhs => rw [← hDim v hv, ← length_quantizedVector bits v]
  exact unpackRow_packRow hPacked fun code hCode =>
    fitsWidth_of_bounds hBits (quantizedVector_bounds hCode)

theorem signedRows_payload (hDim : ∀ v ∈ vectors, v.length = dim) :
    signedRows (vectors.flatMap fun v => codeBytes 8 (quantizedVector 8 v)) vectors.length dim =
      payloadRows 8 vectors := by
  have hRows := rowsOf_codeBytes 8 hDim
  rw [show vectorBytes 8 dim = dim from rfl] at hRows
  rw [signedRows, hRows, map_map, payloadRows]
  refine map_congr_left fun v _ => ?_
  exact map_signedOfBytes fun c hc => quantizedVector_bounds hc

theorem bucketCodes_payload {bits : Int} (hBits : IsCodeWidth bits)
    (hDim : ∀ v ∈ vectors, v.length = dim) (hSome : vectors ≠ []) :
    bucketCodes bits (vectors.flatMap fun v => codeBytes bits (quantizedVector bits v))
      vectors.length dim = .ok (payloadRows bits vectors) := by
  unfold bucketCodes
  split_ifs with hEight
  · subst hEight
    have hLength := length_payload 8 hDim
    rw [show vectorBytes 8 dim = dim from rfl] at hLength
    simp only [hLength, ne_eq, not_true, decide_false, raiseIf_false, ok_bind,
      signedRows_payload hDim]
    rfl
  · refine unpackLowBit_payload ?_ hDim hSome
    rcases hBits with h | h | h
    · exact Or.inl h
    · exact Or.inr h
    · exact absurd h hEight

theorem ScaleDtype.size_pos (dtype : ScaleDtype) : 0 < dtype.size := by
  cases dtype <;> decide

theorem words_scales (bits : Int) (dtype : ScaleDtype) (vectors : List (List E)) :
    Bytes.words dtype.size (vectors.flatMap (storedScale bits dtype)) =
      vectors.map (storedScale bits dtype) :=
  Bytes.words_flatMap dtype.size_pos vectors fun _ _ => KvElement.length_scaleBytes _ _

variable [Float32Arithmetic W]

theorem zipWith_scaled {α : Type} (bits : Int) (dtype : ScaleDtype) (vectors : List (List E))
    (f : W → α) :
    List.zipWith (fun scale row => row.map fun q => f (scaled dtype scale q))
        (vectors.map (storedScale bits dtype)) (payloadRows bits vectors) =
      vectors.map fun v => (dequantizedVector bits dtype v).map f := by
  rw [payloadRows, zipWith_map, zipWith_self]
  refine map_congr_left fun v _ => ?_
  rw [dequantizedVector, map_map]
  rfl

def payloadBytes (bits : Int) (vectors : List (List E)) : Bytes :=
  if bits = 16 then Storable.store vectors.flatten
  else vectors.flatMap fun v => codeBytes bits (quantizedVector bits v)

def scaleTable (bits : Int) (dtype : ScaleDtype) (vectors : List (List E)) : Bytes :=
  if bits = 16 then [] else vectors.flatMap (storedScale bits dtype)

omit [Float32Arithmetic W] in
theorem quantizeVectorBucket_eq {bits : Int} (hBits : IsWidth bits) (hDim : 0 < dim)
    (hSome : vectors ≠ []) (dtype : ScaleDtype) : quantizeVectorBucket vectors dim bits dtype =
      .ok (payloadBytes bits vectors, scaleTable bits dtype vectors) := by
  have hPos : decide (dim = 0) = false := decide_eq_false (by omega)
  unfold quantizeVectorBucket payloadBytes scaleTable
  rw [hPos, rejectIf_false, ok_bind]
  split_ifs with hSixteen
  · rfl
  · have hKnown : (bits ≠ 2 && bits ≠ 4 && bits ≠ 8) = false := by
      rcases hBits.isCodeWidth hSixteen with rfl | rfl | rfl <;> decide
    have hRows : (bits ≠ 8 && vectors.isEmpty) = false := by
      rw [isEmpty_eq_false_iff.mpr hSome, Bool.and_false]
    rw [hKnown, rejectIf_false, ok_bind, hRows, raiseIf_false, ok_bind]
    rfl

omit [Float32Arithmetic W] in
theorem length_flatten_vectors (hDim : ∀ v ∈ vectors, v.length = dim) :
    vectors.flatten.length = vectors.length * dim := by
  have h := Tensor.length_flatMap_const vectors id hDim
  rwa [flatMap_id] at h

omit [Float32Arithmetic W] in
theorem rowsOf_flatten (hDim : ∀ v ∈ vectors, v.length = dim) :
    rowsOf vectors.length dim vectors.flatten = vectors := by
  have h := rowsOf_flatMap id vectors hDim
  rwa [flatMap_id, map_id] at h

def bucketTensors (bits : Int) (dtype : ScaleDtype) (positions : List Int)
    (vectors : List (List E)) : BucketTensors where
  positions := positions
  payload := payloadBytes bits vectors
  scaleDtype := dtype
  scales := Bytes.words dtype.size (scaleTable bits dtype vectors)

theorem bucketValues_eq {bits : Int} (hBits : IsWidth bits) {dims : PlanDims} {groups : Nat}
    (hDim : ∀ v ∈ vectors, v.length = dim) (hSome : vectors ≠ []) (hHeadDim : dims.headDim = dim)
    (hHeads : 0 ≤ dims.numKvHeads) (hRows : groups * dims.numKvHeads.toNat = vectors.length)
    (dtype : ScaleDtype) (positions : List Int) :
    bucketValues bits (bucketTensors bits dtype positions vectors) dims groups =
      .ok (vectors.map (reconstructedVector bits dtype)) := by
  have hDims : (dims.numKvHeads < 0 || dims.headDim < 0) = false := by
    rw [hHeadDim]
    simp [hHeads]
  have hToNat : dims.headDim.toNat = dim := by
    rw [hHeadDim]
    exact Int.toNat_natCast dim
  simp only [bucketValues, hDims, raiseIf_false, ok_bind, hRows, hToNat]
  split_ifs with hSixteen
  · have hLoad : (Storable.load (bucketTensors bits dtype positions vectors).payload : List E) =
        vectors.flatten := by
      rw [bucketTensors, payloadBytes, if_pos hSixteen]
      exact Storable.load_store _
    simp only [hLoad, length_flatten_vectors hDim, ne_eq, not_true, decide_false, raiseIf_false,
      ok_bind, rowsOf_flatten hDim]
    refine congrArg Except.ok ?_
    conv_lhs => rw [← map_id vectors]
    refine map_congr_left fun v _ => ?_
    rw [reconstructedVector, if_pos hSixteen]
    rfl
  · have hCodes := bucketCodes_payload (hBits.isCodeWidth hSixteen) hDim hSome
    have hScales : (bucketTensors bits dtype positions vectors).scales =
        vectors.map (storedScale bits dtype) := by
      rw [bucketTensors, scaleTable, if_neg hSixteen]
      exact words_scales bits dtype vectors
    have hPayload : (bucketTensors bits dtype positions vectors).payload =
        vectors.flatMap fun v => codeBytes bits (quantizedVector bits v) := if_neg hSixteen
    simp only [hPayload, hCodes, hScales, ok_bind, length_map, ne_eq, not_true, decide_false,
      raiseIf_false]
    refine congrArg Except.ok ?_
    refine (zipWith_scaled bits dtype vectors KvElement.narrow).trans ?_
    refine map_congr_left fun v _ => ?_
    rw [reconstructedVector, if_neg hSixteen]

def floatVector (bits : Int) (dtype : ScaleDtype) (vector : List E) : List W :=
  if bits = 16 then vector.map KvElement.widen else dequantizedVector bits dtype vector

/-- A shape that ends in the head dimension, over as many rows as there are vectors. -/
structure RowShape (leading : List Int) (rows : Nat) : Prop where
  nonneg : ∀ n ∈ leading, 0 ≤ n
  prod : leading.prod = rows

namespace RowShape

variable {leading : List Int} {rows : Nat}

theorem prod_append (h : RowShape leading rows) (dim : Nat) :
    (leading ++ [(dim : Int)]).prod = ((rows * dim : Nat) : Int) := by
  rw [List.prod_append, h.prod, prod_singleton]
  push_cast
  rfl

theorem any_append (h : RowShape leading rows) (dim : Nat) :
    (leading ++ [(dim : Int)]).any (· < 0) = false := by
  rw [any_eq_false]
  intro n hn
  simp only [decide_eq_true_eq]
  rcases mem_append.mp hn with hIn | hLast
  · have hNonneg := h.nonneg n hIn
    omega
  · have hEq := mem_singleton.mp hLast
    omega

theorem reshapeRows_eq {α : Type} (h : RowShape leading rows) {dim : Nat} {values : List α}
    (hLength : values.length = rows * dim) :
    reshapeRows values (leading ++ [(dim : Int)]) = .ok (rowsOf rows dim values) := by
  simp only [reshapeRows, h.any_append, h.prod_append, hLength, ne_eq, not_true, decide_false,
    Bool.or_false, raiseIf_false, ok_bind, dropLast_concat, h.prod, Int.toNat_natCast]
  rw [getLastD_concat]
  rfl

end RowShape

theorem decodeBucketValues_eq {bits : Int} (hBits : IsWidth bits)
    (hDim : ∀ v ∈ vectors, v.length = dim) {leading : List Int}
    (hShape : RowShape leading vectors.length) (dtype : ScaleDtype) (positions : List Int) :
    decodeBucketValues E bits (bucketTensors bits dtype positions vectors)
      (leading ++ [(dim : Int)]) dim = .ok (vectors.map (floatVector bits dtype)) := by
  have hProd := hShape.prod_append dim
  have hNonneg := hShape.any_append dim
  simp only [decodeBucketValues, dropLast_concat, hShape.prod, Int.toNat_natCast]
  by_cases hSixteen : bits = 16
  · rw [if_pos hSixteen]
    have hLoad : (Storable.load (bucketTensors bits dtype positions vectors).payload : List E) =
        vectors.flatten := by
      rw [bucketTensors, payloadBytes, if_pos hSixteen]
      exact Storable.load_store _
    have hLength := length_flatten_vectors hDim
    simp only [hLoad, hProd, hLength, ne_eq, not_true, decide_false, rejectIf_false, ok_bind,
      hShape.reshapeRows_eq hLength, rowsOf_flatten hDim]
    refine congrArg Except.ok (map_congr_left fun v _ => ?_)
    rw [floatVector, if_pos hSixteen]
  rw [if_neg hSixteen]
  by_cases hEight : bits = 8
  · subst hEight
    rw [if_pos rfl]
    have hPayload : (bucketTensors 8 dtype positions vectors).payload =
        vectors.flatMap fun v => codeBytes 8 (quantizedVector 8 v) := rfl
    have hScales : (bucketTensors 8 dtype positions vectors).scales =
        vectors.map (storedScale 8 dtype) := words_scales 8 dtype vectors
    have hLength := length_payload 8 hDim
    rw [show vectorBytes 8 dim = dim from rfl] at hLength
    have hCodes : reshapeRows ((vectors.flatMap fun v => codeBytes 8 (quantizedVector 8 v)).map
        fun b => signedOfBytes [b]) (leading ++ [(dim : Int)]) = .ok (payloadRows 8 vectors) := by
      rw [hShape.reshapeRows_eq (by rw [length_map, hLength]), ← signedRows_payload hDim,
        signedRows, rowsOf, rowsOf, map_map]
      refine congrArg Except.ok (map_congr_left fun r _ => ?_)
      rw [Function.comp_apply, map_take, map_drop]
    simp only [hPayload, hProd, hLength, hScales, ne_eq, not_true, decide_false, rejectIf_false,
      ok_bind, length_map, hCodes]
    refine congrArg Except.ok ((zipWith_scaled 8 dtype vectors id).trans ?_)
    refine map_congr_left fun v _ => ?_
    rw [map_id]
    rfl
  · rw [if_neg hEight]
    have hLow : bits = 2 ∨ bits = 4 := by
      rcases hBits.isCodeWidth hSixteen with h | h | h
      · exact Or.inl h
      · exact Or.inr h
      · exact absurd h hEight
    have hKnown : (bits ≠ 2 && bits ≠ 4) = false := by rcases hLow with rfl | rfl <;> decide
    have hPayload : (bucketTensors bits dtype positions vectors).payload =
        vectors.flatMap fun v => codeBytes bits (quantizedVector bits v) := if_neg hSixteen
    have hScales : (bucketTensors bits dtype positions vectors).scales =
        vectors.map (storedScale bits dtype) := by
      rw [bucketTensors, scaleTable, if_neg hSixteen]
      exact words_scales bits dtype vectors
    have hLength := length_payload bits hDim
    rw [show vectorBytes bits dim = rowBytes bits.toNat dim from if_neg hEight] at hLength
    have hCast : ((vectors.length * rowBytes bits.toNat dim : Nat) : Int) =
        (vectors.length : Int) * (rowBytes bits.toNat dim : Int) := by push_cast; rfl
    simp only [hPayload, hKnown, hLength, hCast, hScales, hNonneg, ne_eq, not_true, decide_false,
      rejectIf_false, raiseIf_false, ok_bind, length_map]
    by_cases hNone : vectors = []
    · rw [hNone]
      rfl
    have hRows : ¬(vectors.length : Int) = 0 :=
      fun h => hNone (length_eq_zero_iff.mp (Int.ofNat_eq_zero.mp h))
    rw [if_neg hRows, unpackLowBit_payload hLow hDim hNone, ok_bind]
    refine congrArg Except.ok ((zipWith_scaled bits dtype vectors id).trans ?_)
    refine map_congr_left fun v _ => ?_
    rw [map_id, floatVector, if_neg hSixteen]

end LMCache.MaKV
