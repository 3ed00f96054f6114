import LMCache.KVCodec.AsymSerializer

/-!
# The size of a blob

A header with default hashes has 213 bytes and eight for each scale dimension, well within the
allowance of the estimators. With one scale for the whole tensor the blob of K and V therefore
fits the size estimated for their layouts.
-/

namespace LMCache.KVCodec

open Lib List

theorem length_packH {n : Nat} {b : Bytes} (h : packH n = .ok b) : b.length = 2 := by
  unfold packH at h
  split at h
  · cases h
    exact Bytes.length_toLE 2 n
  · cases h

theorem length_packQ {n : Int} {b : Bytes} (h : packQ n = .ok b) : b.length = 8 := by
  unfold packQ at h
  split at h
  · cases h
    exact length_signedBytes 8 n
  · cases h

theorem length_flatten_mapM {α : Type} {f : α → Coded Bytes} {values : List α} {fields : List Bytes}
    {width : Nat} (hWidth : ∀ a b, f a = .ok b → b.length = width)
    (h : values.mapM f = .ok fields) : fields.flatten.length = width * values.length := by
  obtain ⟨hLength, hAll⟩ := mapM_eq_ok h
  rw [← hLength]
  apply Bytes.length_flatten_of_width
  intro field hMem
  obtain ⟨i, hi⟩ := mem_iff_getElem?.mp hMem
  obtain ⟨a, -, ha⟩ := hAll i field hi
  exact hWidth a field ha

theorem default_hashes_fit : ∀ pair ∈ CodecHashes.default.pairs, FitsStr pair.2 := by
  unfold FitsStr
  decide

theorem mapM_packPair_default :
    CodecHashes.default.pairs.mapM packPair = .ok (CodecHashes.default.pairs.map pairBytes) :=
  mapM_ok fun pair hMem => packPair_ok (fits_keys default_hashes_fit pair hMem).1
    (default_hashes_fit pair hMem)

theorem length_serializeHeader {enc : EncodedKV} {header : Bytes} (hHashes : enc.hashes = .default)
    (h : serializeHeader enc = .ok header) : header.length = 213 + 8 * enc.scaleShape.length := by
  unfold serializeHeader at h
  split at h
  · cases h
  · obtain ⟨k, -, h⟩ := bind_eq_ok.mp h
    obtain ⟨v, -, h⟩ := bind_eq_ok.mp h
    obtain ⟨scale, -, h⟩ := bind_eq_ok.mp h
    obtain ⟨shorts, hShorts, h⟩ := bind_eq_ok.mp h
    obtain ⟨layout, hLayout, h⟩ := bind_eq_ok.mp h
    obtain ⟨dims, hDims, h⟩ := bind_eq_ok.mp h
    obtain ⟨lens, hLens, h⟩ := bind_eq_ok.mp h
    obtain ⟨count, hCount, h⟩ := bind_eq_ok.mp h
    obtain ⟨blob, hBlob, h⟩ := bind_eq_ok.mp h
    rw [hHashes, mapM_packPair_default] at hBlob
    cases hBlob
    cases h
    have hPairs : (CodecHashes.default.pairs.map pairBytes).flatten.length = 107 := by decide
    have hMagic : codecMagic.length = 8 := rfl
    simp only [length_append, length_flatten_mapM (fun _ _ => length_packH) hShorts,
      length_flatten_mapM (fun _ _ => length_packQ) hLayout,
      length_flatten_mapM (fun _ _ => length_packQ) hDims,
      length_flatten_mapM (fun _ _ => length_packQ) hLens, length_packH hCount, hPairs, hMagic,
      Bytes.length_toLE, length_cons, length_nil]
    omega

/-- The tensors of a layout have the dtype and the number of elements of a tensor. -/
structure MemoryLayoutDesc.Describes (layout : MemoryLayoutDesc) (t : Tensor) : Prop where
  dtypes : ∀ dtype ∈ layout.dtypes, dtype = t.dtype
  elements : layoutElements layout = numel t.shape

theorem total_zip {shapes : List (List Nat)} {dtypes : List TorchDType} {dtype : TorchDType}
    (hLength : shapes.length = dtypes.length) (h : ∀ d ∈ dtypes, d = dtype) :
    total ((shapes.zip dtypes).map fun group => numel group.1 * group.2.itemsize) =
      total (shapes.map numel) * dtype.itemsize := by
  induction shapes generalizing dtypes with
  | nil =>
    rw [zip_nil_left, map_nil, map_nil, total, Nat.zero_mul]
  | cons shape shapes ih =>
    cases dtypes with
    | nil => simp at hLength
    | cons d dtypes =>
      obtain rfl := h d mem_cons_self
      rw [zip_cons_cons, map_cons, map_cons, total, total,
        ih (Nat.succ_injective hLength) fun e he => h e (mem_cons_of_mem _ he), Nat.add_mul]

theorem MemoryLayoutDesc.Describes.bytes {layout : MemoryLayoutDesc} {t : Tensor}
    (h : layout.Describes t) : layoutBytes layout = t.data.length := by
  rw [layoutBytes, total_zip layout.length_eq h.dtypes, t.length_data, ← h.elements]
  rfl

section Blobs

variable {torch : Torch} {codec : Codec} {blob : Bytes} {v : Tensor}

theorem quantized_sizes {scale q : Tensor} (hScope : codec.scaleScope = .perTensor)
    (hScale : computeVScales torch v codec.scaleScope = .ok scale)
    (hQuant : torch.quantize v (torch.convert scale codec.scaleDtype) codec.scaleScope = .ok q) :
    (torch.convert scale codec.scaleDtype).shape = [] ∧
      (torch.convert scale codec.scaleDtype).data.length = codec.scaleDtype.itemsize ∧
      q.data.length = numel v.shape := by
  rw [hScope] at hScale
  obtain ⟨hDtype, hShape⟩ := torch.convert_like scale codec.scaleDtype
  obtain ⟨hQuantDtype, hQuantShape⟩ := torch.quantize_like hQuant
  rw [torch.tensorScale_like hScale] at hShape
  refine ⟨hShape, ?_, ?_⟩
  · rw [Tensor.length_data, hShape, hDtype, numel, Nat.one_mul]
  · rw [Tensor.length_data, hQuantShape, hQuantDtype]
    exact Nat.mul_one _

variable {enc : EncodedKV}

theorem length_blob {k : Tensor} (hScope : codec.scaleScope = .perTensor)
    (hEncode : codec.encode torch k v = .ok enc) (hBlob : enc.toBytes = .ok blob) :
    blob.length = 213 + k.data.length + numel v.shape + codec.scaleDtype.itemsize := by
  unfold Codec.encode at hEncode
  split at hEncode
  · cases hEncode
  · obtain ⟨scale, hScale, hEncode⟩ := bind_eq_ok.mp hEncode
    obtain ⟨q, hQuant, hEncode⟩ := bind_eq_ok.mp hEncode
    obtain ⟨header, hHeader, hEncode⟩ := bind_eq_ok.mp hEncode
    cases hEncode
    cases hBlob
    obtain ⟨hShape, hScaleBytes, hQuantBytes⟩ := quantized_sizes hScope hScale hQuant
    have hHeaderLength := length_serializeHeader rfl hHeader
    dsimp only at hHeaderLength
    rw [hShape] at hHeaderLength
    simp only [length_append, hHeaderLength, hScaleBytes, hQuantBytes, map_nil, length_nil]
    omega

variable {tag : TorchDType}

theorem length_blob_vOnly (hScope : codec.scaleScope = .perTensor)
    (hEncode : codec.encodeVOnly torch tag v = .ok enc) (hBlob : enc.toBytes = .ok blob) :
    blob.length = 213 + numel v.shape + codec.scaleDtype.itemsize := by
  obtain ⟨scale, hScale, hEncode⟩ := bind_eq_ok.mp hEncode
  obtain ⟨q, hQuant, hEncode⟩ := bind_eq_ok.mp hEncode
  cases hEncode
  obtain ⟨header, hHeader, hBlob⟩ := bind_eq_ok.mp hBlob
  cases hBlob
  obtain ⟨hShape, hScaleBytes, hQuantBytes⟩ := quantized_sizes hScope hScale hQuant
  have hHeaderLength := length_serializeHeader rfl hHeader
  dsimp only at hHeaderLength
  rw [hShape] at hHeaderLength
  simp only [length_append, hHeaderLength, hScaleBytes, hQuantBytes, map_nil, length_nil]
  omega

variable {vLayout : MemoryLayoutDesc}

theorem length_blob_le {k : Tensor} {kLayout : MemoryLayoutDesc} {size : Nat}
    (hk : kLayout.Describes k) (hv : vLayout.Describes v)
    (hEncode : codec.encode torch k v = .ok enc) (hBlob : enc.toBytes = .ok blob)
    (hSize : AsymK16V8MultiSerializer.estimateSerializedSize codec
      [some kLayout, some vLayout] = .ok size)
    : blob.length ≤ size := by
  obtain ⟨-, -, hSize⟩ := bind_eq_ok.mp hSize
  obtain ⟨scales, hScales, hSize⟩ := bind_eq_ok.mp hSize
  cases hSize
  rw [hk.bytes, hv.elements, headerAllowance]
  unfold scalesBytes at hScales
  split at hScales
  · rename_i hScope
    cases hScales
    rw [length_blob hScope hEncode hBlob]
    omega
  · rename_i hScope
    unfold Codec.encode at hEncode
    split at hEncode
    · cases hEncode
    · rw [hScope] at hEncode
      cases hEncode
  · cases hScales

theorem length_blob_vOnly_le {size : Nat} (hv : vLayout.Describes v)
    (hEncode : codec.encodeVOnly torch tag v = .ok enc) (hBlob : enc.toBytes = .ok blob)
    (hSize : AsymK16V8VOnlyMultiSerializer.estimateSerializedSize codec
      [none, some vLayout] = .ok size)
    : blob.length ≤ size := by
  obtain ⟨-, -, hSize⟩ := bind_eq_ok.mp hSize
  obtain ⟨scales, hScales, hSize⟩ := bind_eq_ok.mp hSize
  cases hSize
  rw [hv.elements, headerAllowance]
  unfold scalesBytes at hScales
  split at hScales
  · rename_i hScope
    cases hScales
    rw [length_blob_vOnly hScope hEncode hBlob]
    omega
  · rename_i hScope
    unfold Codec.encodeVOnly at hEncode
    rw [hScope] at hEncode
    cases hEncode
  · cases hScales

end Blobs

/-- A header is read back in front of its payload whatever follows, and blobs fit the size that
is estimated for the layouts of their tensors, which there is with one scale for the tensor. -/
theorem encoded_kv_round_trip :
    (∀ enc : EncodedKV, enc.Fits → ∃ header, serializeHeader enc = .ok header ∧
      ∀ trailing, deserializeHeader (header ++ (enc.payload ++ trailing)) =
        .ok { enc with headerBytes := some header }) ∧
    (∀ (torch : Torch) (codec : Codec) (k v : Tensor) (kLayout vLayout : MemoryLayoutDesc),
      kLayout.Describes k → vLayout.Describes v →
        (∀ enc blob size, codec.encode torch k v = .ok enc → enc.toBytes = .ok blob →
          AsymK16V8MultiSerializer.estimateSerializedSize codec
            [some kLayout, some vLayout] = .ok size → blob.length ≤ size) ∧
        (∀ tag enc blob size, codec.encodeVOnly torch tag v = .ok enc → enc.toBytes = .ok blob →
          AsymK16V8VOnlyMultiSerializer.estimateSerializedSize codec
            [none, some vLayout] = .ok size → blob.length ≤ size) ∧
        (codec.scaleScope = .perTensor →
          (∃ size, AsymK16V8MultiSerializer.estimateSerializedSize codec
            [some kLayout, some vLayout] = .ok size) ∧
          ∃ size, AsymK16V8VOnlyMultiSerializer.estimateSerializedSize codec
            [none, some vLayout] = .ok size)) := by
  constructor
  · intro enc hFits
    obtain ⟨k, hk⟩ := hFits.kDtype
    obtain ⟨v, hv⟩ := hFits.vDtype
    obtain ⟨scale, hs⟩ := hFits.scaleDtype
    exact ⟨_, serializeHeader_ok hFits hk hv hs, fun trailing =>
      deserializeHeader_ok hFits hk hv hs⟩
  · intro torch codec k v kLayout vLayout hk hv
    refine ⟨?_, ?_, ?_⟩
    · exact fun enc blob size hEncode hBlob hSize => length_blob_le hk hv hEncode hBlob hSize
    · exact fun tag enc blob size hEncode hBlob hSize =>
        length_blob_vOnly_le hv hEncode hBlob hSize
    · intro hScope
      have hScales : ∀ name, scalesBytes name codec = .ok codec.scaleDtype.itemsize := by
        intro name
        rw [scalesBytes, hScope]
      constructor
      · exact ⟨_, bind_eq_ok.mpr ⟨(), rfl, bind_eq_ok.mpr ⟨_, hScales _, rfl⟩⟩⟩
      · exact ⟨_, bind_eq_ok.mpr ⟨(), rfl, bind_eq_ok.mpr ⟨_, hScales _, rfl⟩⟩⟩

section Sample

def zeroTensor (dtype : TorchDType) (shape : List Nat) : Tensor :=
  ⟨dtype, shape, Bytes.zeros (numel shape * dtype.itemsize), Bytes.length_zeros _⟩

def unitScale : Tensor := ⟨.float32, [], [0, 0, 0x80, 0x3f], rfl⟩

def zeroTorch : Torch where
  tensorScale v := if numel v.shape = 0 then .error (.torchError "amax(): empty tensor")
    else .ok unitScale
  headScales v := .ok (zeroTensor .float32 v.shape)
  convert t dtype := if dtype = t.dtype then t else zeroTensor dtype t.shape
  quantize v _ _ := .ok (zeroTensor .float8E4m3fn v.shape)
  tensorScale_like h := by
    split at h
    · cases h
    · cases h
      rfl
  convert_like t dtype := by
    split
    · rename_i hSame
      exact ⟨hSame.symm, rfl⟩
    · exact ⟨rfl, rfl⟩
  quantize_like h := by
    cases h
    exact ⟨rfl, rfl⟩

def sampleCodec : Codec := ⟨.float8E4m3fn, .float32, .perTensor, rfl⟩

def sampleBlob : EncodedKV :=
  ⟨some .bfloat16, some .float8E4m3fn, some .float32, .perLayerHead,
    ⟨"model", "", "", "", "", "HND"⟩, 3, -1, 256, 16, 2, 1, [2], 4, 2, 8,
    [1, 2, 3, 4, 5, 6, 0, 0, 0x80, 0x3f, 0, 0, 0x80, 0x3f], none⟩

theorem sampleBlob_fits : sampleBlob.Fits where
  kDtype := ⟨3, rfl⟩
  vDtype := ⟨7, rfl⟩
  scaleDtype := ⟨4, rfl⟩
  layout := by
    unfold FitsInt64
    decide
  dims := by
    unfold FitsInt64
    decide
  dimCount := by decide
  lens := by
    unfold FitsInt64
    decide
  payload := rfl
  hashes := by
    unfold FitsStr
    decide

/-- The blob above is read back, and a blob of two zeros each for K and V fits its estimate. -/
theorem encoded_kv_round_trip_sample :
    (∃ header, serializeHeader sampleBlob = .ok header ∧
      deserializeHeader (header ++ (sampleBlob.payload ++ [9])) =
        .ok { sampleBlob with headerBytes := some header }) ∧
    ∀ enc blob, sampleCodec.encode zeroTorch (zeroTensor .bfloat16 [2])
      (zeroTensor .bfloat16 [2]) = .ok enc → enc.toBytes = .ok blob → blob.length ≤ 1034 := by
  obtain ⟨header, hHeader, hRead⟩ := encoded_kv_round_trip.1 sampleBlob sampleBlob_fits
  refine ⟨⟨header, hHeader, hRead [9]⟩, ?_⟩
  intro enc blob hEncode hBlob
  have hDescribes : (⟨[[2]], [.bfloat16], rfl⟩ : MemoryLayoutDesc).Describes
      (zeroTensor .bfloat16 [2]) := ⟨by simp [zeroTensor], rfl⟩
  exact (encoded_kv_round_trip.2 zeroTorch sampleCodec _ _ _ _ hDescribes hDescribes).1 enc blob
    1034 hEncode hBlob rfl

end Sample

end LMCache.KVCodec
