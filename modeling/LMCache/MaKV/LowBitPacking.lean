import LMCache.MaKV.BucketSpec

/-!
# Packing codes of two and four bits

The quantizer and the entropy codec have a packer each. The quantizer lets the tensor library
infer the bytes of a row, and the codec computes them. Where there is a row, both write it as
`packRow` does, and the unpacker reads the codes back.
-/

namespace LMCache.MaKV

open Lib List

/-- The codes of the vectors of a bucket, as a tensor of two dimensions. -/
structure CodeRows where
  rows : List (List Int)
  headDim : Nat
  width : ∀ row ∈ rows, row.length = headDim

def paddedFields (bits headDim : Nat) (row : List Int) : List Nat :=
  let padding := (-(headDim : Int) % ((8 / bits : Nat) : Int)).toNat
  (row ++ List.replicate padding 0).map (codeField bits)

/-- `torch.sum(fields << shifts, dim=-1).to(torch.uint8)`, at the fields of one byte. -/
def sumFields (bits : Nat) (fields : List Nat) : UInt8 :=
  UInt8.ofNat (List.zipWith (fun field shift => field <<< shift) fields
    ((List.range (8 / bits)).map (bits * ·))).sum

def sumView (bits count : Nat) (fields : List Nat) : Bytes :=
  (rowsOf count (8 / bits) fields).map (sumFields bits)

/-- The packing in `_quantize_vector_bucket`. -/
def packBucket (q : CodeRows) (bits : Nat) : Result Bytes := do
  -- the size that stands as `-1` in the shape of a view cannot be inferred
  raiseIf .runtimeError (q.headDim = 0 || q.rows.isEmpty) "cannot reshape tensor of 0 elements"
  let fields := q.rows.flatMap (paddedFields bits q.headDim)
  let known := q.rows.length * (8 / bits)
  raiseIf .runtimeError (fields.length % known ≠ 0) "shape is invalid for input of size"
  return sumView bits (q.rows.length * (fields.length / known)) fields

def packLowBit (q : CodeRows) (headDim bits : Nat) : Result Bytes := do
  rejectIf (bits ≠ 2 && bits ≠ 4) "only INT2 and INT4 use low-bit packing"
  rejectIf (q.headDim ≠ headDim) "low-bit quantized rows do not match head_dim"
  let bytesPerRow := rowBytes bits headDim
  let fields := q.rows.flatMap (paddedFields bits headDim)
  raiseIf .runtimeError (fields.length ≠ q.rows.length * bytesPerRow * (8 / bits))
    "shape is invalid for input of size"
  return sumView bits (q.rows.length * bytesPerRow) fields

variable {bits headDim : Nat} {row : List Int}

theorem length_paddedFields (hBits : IsPackedWidth bits) (hRow : row.length = headDim) :
    (paddedFields bits headDim row).length = rowBytes bits headDim * (8 / bits) := by
  rw [paddedFields, length_map, length_append, length_replicate, hRow, rowBytes]
  rcases hBits with rfl | rfl
  · norm_num
    omega
  · norm_num
    omega

theorem getD_padded (padding i : Nat) :
    (row ++ List.replicate padding 0).getD i 0 = row.getD i 0 := by
  rw [getD_eq_getElem?_getD, getD_eq_getElem?_getD, getElem?_append]
  split
  · rfl
  · rename_i hPast
    rw [getElem?_eq_none (Nat.le_of_not_lt hPast), getElem?_replicate]
    split <;> rfl

theorem sumFields_range (f : Nat → Nat) :
    sumFields bits ((List.range (8 / bits)).map f) =
      UInt8.ofNat ((List.range (8 / bits)).map fun i => f i * 2 ^ (bits * i)).sum := by
  simp only [sumFields, zipWith_map, zipWith_self, Nat.shiftLeft_eq]

theorem view_paddedFields (hBits : IsPackedWidth bits) (hRow : row.length = headDim) {j : Nat}
    (hj : j < rowBytes bits headDim) :
    ((paddedFields bits headDim row).drop (j * (8 / bits))).take (8 / bits) =
      (List.range (8 / bits)).map fun i => codeField bits (row.getD (j * (8 / bits) + i) 0) := by
  have hLength := length_paddedFields hBits hRow
  have hFit : j * (8 / bits) + 8 / bits ≤ (paddedFields bits headDim row).length := by
    rw [hLength, ← Nat.add_one_mul]
    exact Nat.mul_le_mul_right _ hj
  apply ext_getElem
  · rw [length_take, length_drop, length_map, length_range]
    omega
  · intro i hi hRange
    rw [length_map, length_range] at hRange
    have hInside : j * (8 / bits) + i < (paddedFields bits headDim row).length := by omega
    rw [getElem_take, getElem_drop, getElem_map, getElem_range,
      ← getD_padded (-(headDim : Int) % ((8 / bits : Nat) : Int)).toNat]
    simp only [paddedFields, length_map] at hInside ⊢
    rw [getElem_map, getD_eq_getElem _ _ hInside]

theorem sumView_paddedFields (hBits : IsPackedWidth bits) (hRow : row.length = headDim) :
    sumView bits (rowBytes bits headDim) (paddedFields bits headDim row) = packRow bits row := by
  rw [sumView, rowsOf, map_map, packRow, hRow]
  refine map_congr_left fun j hj => ?_
  rw [Function.comp_apply, view_paddedFields hBits hRow (mem_range.mp hj), sumFields_range]
  rfl

theorem sumView_append {before after : List Nat} {a b : Nat} (h : before.length = a * (8 / bits)) :
    sumView bits (a + b) (before ++ after) = sumView bits a before ++ sumView bits b after := by
  rw [sumView, sumView, sumView, rowsOf, range_add, map_append, map_append]
  congr 2
  · refine map_congr_left fun r hr => ?_
    have hFit : r * (8 / bits) + 8 / bits ≤ before.length := by
      rw [h, ← Nat.add_one_mul]
      exact Nat.mul_le_mul_right _ (mem_range.mp hr)
    generalize 8 / bits = per at hFit ⊢
    rw [drop_append_of_le_length (by omega), take_append_of_le_length]
    rw [length_drop]
    omega
  · rw [map_map]
    refine map_congr_left fun r _ => ?_
    rw [Function.comp_apply, Nat.add_mul, ← h, drop_length_add_append]

variable {q : CodeRows}

theorem length_fields (hBits : IsPackedWidth bits) :
    (q.rows.flatMap (paddedFields bits q.headDim)).length =
      q.rows.length * rowBytes bits q.headDim * (8 / bits) := by
  rw [Tensor.length_flatMap_const q.rows _ fun row h => length_paddedFields hBits (q.width row h),
    Nat.mul_assoc]

theorem sumView_fields (hBits : IsPackedWidth bits) :
    sumView bits (q.rows.length * rowBytes bits q.headDim)
        (q.rows.flatMap (paddedFields bits q.headDim)) = q.rows.flatMap (packRow bits) := by
  obtain ⟨rows, headDim, hWidth⟩ := q
  dsimp only
  induction rows with
  | nil =>
    rw [length_nil, Nat.zero_mul]
    rfl
  | cons row rest ih =>
    have hRow := hWidth row mem_cons_self
    rw [length_cons, Nat.add_one_mul, Nat.add_comm, flatMap_cons, flatMap_cons,
      sumView_append (length_paddedFields hBits hRow), sumView_paddedFields hBits hRow,
      ih fun row h => hWidth row (mem_cons_of_mem _ h)]

theorem packBucket_eq (hBits : IsPackedWidth bits) (hDim : 0 < q.headDim) (hSome : q.rows ≠ []) :
    packBucket q bits = .ok (q.rows.flatMap (packRow bits)) := by
  have hRows : 0 < q.rows.length := length_pos_iff.mpr hSome
  have hPer : 0 < 8 / bits := by rcases hBits with rfl | rfl <;> decide
  have hKnown : 0 < q.rows.length * (8 / bits) := Nat.mul_pos hRows hPer
  have hFields : (q.rows.flatMap (paddedFields bits q.headDim)).length =
      rowBytes bits q.headDim * (q.rows.length * (8 / bits)) := by
    rw [length_fields hBits]
    ring
  have hEmpty : (decide (q.headDim = 0) || q.rows.isEmpty) = false := by
    simp [hDim.ne', hSome]
  simp only [packBucket, hEmpty, raiseIf_false, hFields, Nat.mul_mod_left, ne_eq, not_true,
    decide_false, Nat.mul_div_cancel _ hKnown, sumView_fields hBits]
  rfl

theorem packLowBit_eq (hBits : IsPackedWidth bits) :
    packLowBit q q.headDim bits = .ok (q.rows.flatMap (packRow bits)) := by
  have hKnown : (bits ≠ 2 && bits ≠ 4) = false := by rcases hBits with rfl | rfl <;> decide
  simp only [packLowBit, hKnown, rejectIf_false, length_fields hBits, ne_eq, not_true,
    decide_false, raiseIf_false, sumView_fields hBits]
  rfl

/-- The payload of a bucket is what its packer makes of the codes. -/
theorem quantizeVectorBucket_eq_pack {E W : Type} [Float32Arithmetic W] [KvElement E W]
    {vectors : List (List E)} (dtype : ScaleDtype) (hBits : IsPackedWidth bits)
    (hDim : ∀ v ∈ vectors, v.length = headDim) (hPos : 0 < headDim) (hSome : vectors ≠ []) :
    quantizeVectorBucket vectors headDim bits dtype =
      (packBucket ⟨vectors.map (quantizedVector bits), headDim,
        by simpa [length_quantizedVector] using hDim⟩ bits).map
        (·, vectors.flatMap (storedScale bits dtype)) := by
  have hEmpty : vectors.isEmpty = false := by simpa using hSome
  rw [packBucket_eq hBits hPos (by simpa using hSome), flatMap_map]
  rcases hBits with rfl | rfl
  · simp [quantizeVectorBucket, hPos.ne', hEmpty, codeBytes]
    rfl
  · simp [quantizeVectorBucket, hPos.ne', hEmpty, codeBytes]
    rfl

/-- The packers write the same bytes, and the unpacker reads the codes back from them. -/
theorem unpack_packed (hBits : bits = 2 ∨ bits = 4) (hDim : 0 < q.headDim) (hSome : q.rows ≠ [])
    (hFits : ∀ row ∈ q.rows, ∀ code ∈ row, FitsWidth bits code) :
    ∃ packed, packBucket q bits = .ok packed ∧ packLowBit q q.headDim bits = .ok packed ∧
      unpackLowBit packed q.rows.length q.headDim bits = .ok q.rows := by
  refine ⟨_, packBucket_eq hBits hDim hSome, packLowBit_eq hBits, ?_⟩
  have hRow : ∀ row ∈ q.rows, (packRow bits row).length = rowBytes bits q.headDim :=
    fun row h => by rw [length_packRow, q.width row h]
  have hKnown : ((bits : Int) ≠ 2 && (bits : Int) ≠ 4) = false := by
    rcases hBits with rfl | rfl <;> decide
  have hCount : decide (q.rows.length = 0) = false :=
    decide_eq_false (mt List.length_eq_zero_iff.mp hSome)
  simp only [unpackLowBit, hKnown, rejectIf_false, ok_bind, Int.toNat_natCast,
    Tensor.length_flatMap_const q.rows _ hRow, rowsOf_flatMap _ q.rows hRow, ne_eq, not_true,
    decide_false, raiseIf_false, hCount]
  refine congrArg Except.ok ?_
  rw [List.map_map]
  conv_rhs => rw [← List.map_id q.rows]
  refine List.map_congr_left fun row h => ?_
  rw [Function.comp_apply, ← q.width row h]
  exact unpackRow_packRow hBits (hFits row h)

theorem unpack_packed_sample : ∃ packed,
    packBucket ⟨[[1, -1, 0, 1, -1], [0, 0, 1, -2, 1]], 5, by decide⟩ 2 = .ok packed ∧
    packLowBit ⟨[[1, -1, 0, 1, -1], [0, 0, 1, -2, 1]], 5, by decide⟩ 5 2 = .ok packed ∧
    unpackLowBit packed 2 5 2 = .ok [[1, -1, 0, 1, -1], [0, 0, 1, -2, 1]] :=
  @unpack_packed 2 ⟨[[1, -1, 0, 1, -1], [0, 0, 1, -2, 1]], 5, by decide⟩
    (Or.inl rfl) (by decide) (by decide) (by unfold FitsWidth; decide)

/-- Without a row the quantizer's packer and the unpacker fail, and the codec's writes nothing. -/
theorem no_rows_unpacked :
    packBucket ⟨[], 4, by simp⟩ 2 = .error ⟨.runtimeError, "cannot reshape tensor of 0 elements"⟩ ∧
    packLowBit ⟨[], 4, by simp⟩ 4 2 = .ok [] ∧
    unpackLowBit [] 0 4 2 = .error ⟨.runtimeError, "cannot reshape tensor of 0 elements"⟩ := by
  refine ⟨rfl, rfl, rfl⟩

end LMCache.MaKV
