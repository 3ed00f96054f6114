import LMCache.KVCodec.EncodedSize

/-!
# The write path of the serializers

The header writer checks the range of every field, so each blob that it accepts can be read. What
a serializer writes to the front of a buffer of the estimated size is read back from there, with
whatever the buffer held behind it.
-/

namespace LMCache.KVCodec

open Lib List

theorem fitsInt64_of_mapM {values : List Int} {fields : List Bytes}
    (h : values.mapM packQ = .ok fields) : ∀ n ∈ values, FitsInt64 n := by
  induction values generalizing fields with
  | nil => nofun
  | cons n rest ih =>
    rw [mapM_cons] at h
    obtain ⟨b, hFirst, h⟩ := bind_eq_ok.mp h
    obtain ⟨more, hMore, -⟩ := bind_eq_ok.mp h
    refine forall_mem_cons.mpr ⟨?_, ih hMore⟩
    unfold packQ at hFirst
    split at hFirst
    · assumption
    · cases hFirst

theorem EncodedKV.Fits.of_serializeHeader {enc : EncodedKV} {header : Bytes}
    (hHashes : enc.hashes = .default) (hDims : enc.scaleShape = [])
    (h : serializeHeader enc = .ok header) : enc.Fits := by
  unfold serializeHeader at h
  split at h
  · cases h
  · rename_i hPayload
    obtain ⟨k, hk, h⟩ := bind_eq_ok.mp h
    obtain ⟨v, hv, h⟩ := bind_eq_ok.mp h
    obtain ⟨scale, hScale, h⟩ := bind_eq_ok.mp h
    obtain ⟨_, -, h⟩ := bind_eq_ok.mp h
    obtain ⟨_, hLayout, h⟩ := bind_eq_ok.mp h
    obtain ⟨_, -, h⟩ := bind_eq_ok.mp h
    obtain ⟨_, hLens, -⟩ := bind_eq_ok.mp h
    refine ⟨⟨k, hk⟩, ⟨v, hv⟩, ⟨scale, hScale⟩, fun n hn => fitsInt64_of_mapM hLayout n ?_, ?_, ?_,
      fitsInt64_of_mapM hLens, not_not.mp hPayload, hHashes ▸ default_hashes_fit⟩
    · exact mem_append_left [(enc.scaleShape.length : Int)] hn
    · rw [hDims]
      nofun
    · rw [hDims]
      exact Nat.zero_le 8

/-- The buffer holds the blob in front of what it held before. -/
theorem writeBlob_reads_back {enc : EncodedKV} {header : Bytes} {dst : FlatTensor} (name : String)
    (hFits : enc.Fits) (hHeader : serializeHeader enc = .ok header)
    (hRoom : (header ++ enc.payload).length ≤ numel dst.val.shape) :
    ∃ written data, writeBlob name (header ++ enc.payload) dst = .ok (written, data) ∧
      data.drop written = dst.val.data.drop written ∧
      deserializeHeader data = .ok { enc with headerBytes := some header } := by
  obtain ⟨k, hk⟩ := hFits.kDtype
  obtain ⟨v, hv⟩ := hFits.vDtype
  obtain ⟨scale, hScale⟩ := hFits.scaleDtype
  obtain rfl := Except.ok.inj (hHeader.symm.trans (serializeHeader_ok hFits hk hv hScale))
  refine ⟨_, _, if_neg (Nat.not_lt.mpr hRoom), ?_, ?_⟩
  · rw [Bytes.assign, Nat.zero_add]
    exact drop_left
  · rw [Bytes.assign, take_zero, nil_append, append_assoc]
    exact deserializeHeader_ok hFits hk hv hScale

/-- What is encoded is written to every buffer of the estimated size. The rest of the buffer
stays as it is, and the reader of the header finds the blob, K bit for bit. -/
theorem serialize_reads_back {torch : Torch} {codec : Codec} {k v : Tensor} {dst : FlatTensor}
    {kLayout vLayout : MemoryLayoutDesc} {enc : EncodedKV} {size : Nat}
    (hk : kLayout.Describes k) (hv : vLayout.Describes v)
    (hSize : AsymK16V8MultiSerializer.estimateSerializedSize codec [some kLayout, some vLayout] =
      .ok size) (hRoom : size ≤ numel dst.val.shape) (hEncode : codec.encode torch k v = .ok enc) :
    k.data <+: enc.payload ∧ ∃ written data, AsymK16V8MultiSerializer.serialize torch codec
        [some ⟨some k⟩, some ⟨some v⟩] ⟨some dst⟩ = .ok (written, data) ∧
      data.drop written = dst.val.data.drop written ∧ deserializeHeader data = .ok enc := by
  have hLength : ∀ blob, enc.toBytes = .ok blob → blob.length ≤ numel dst.val.shape :=
    fun _ hBlob => (length_blob_le hk hv hEncode hBlob hSize).trans hRoom
  have hSerialize : AsymK16V8MultiSerializer.serialize torch codec
      [some ⟨some k⟩, some ⟨some v⟩] ⟨some dst⟩ = (codec.encode torch k v >>= fun enc =>
        enc.toBytes >>= fun blob => writeBlob "AsymK16V8MultiSerializer" blob dst) := rfl
  rw [hSerialize, hEncode, ok_bind]
  unfold Codec.encode at hEncode
  split at hEncode
  · cases hEncode
  · obtain ⟨scale, hScale, hEncode⟩ := bind_eq_ok.mp hEncode
    obtain ⟨q, hQuant, hEncode⟩ := bind_eq_ok.mp hEncode
    obtain ⟨header, hHeader, hEncode⟩ := bind_eq_ok.mp hEncode
    cases hEncode
    have hScope : codec.scaleScope = .perTensor := by
      obtain ⟨-, -, hSize⟩ := bind_eq_ok.mp hSize
      obtain ⟨_, hScales, -⟩ := bind_eq_ok.mp hSize
      cases hScope : codec.scaleScope <;> rw [scalesBytes, hScope] at hScales
      case external => rw [hScope] at hScale; cases hScale
      all_goals cases hScales
    obtain ⟨hShape, -, -⟩ := quantized_sizes hScope hScale hQuant
    refine ⟨?_, writeBlob_reads_back _ (.of_serializeHeader rfl ?_ hHeader) hHeader (hLength _ rfl)⟩
    · rw [append_assoc]
      exact prefix_append _ _
    · rw [hShape]
      rfl

theorem serialize_reads_back_sample :
    ∃ written data, AsymK16V8MultiSerializer.serialize zeroTorch sampleCodec
        [some ⟨some (zeroTensor .bfloat16 [2])⟩, some ⟨some (zeroTensor .bfloat16 [2])⟩]
        ⟨some ⟨zeroTensor .float8E4m3fn [1100], rfl⟩⟩ = .ok (written, data) ∧
      data.drop written = (zeroTensor .float8E4m3fn [1100]).data.drop written ∧
      (deserializeHeader data).map (·.kPayloadLen) = .ok 4 := by
  have hDescribes : (⟨[[2]], [.bfloat16], rfl⟩ : MemoryLayoutDesc).Describes
      (zeroTensor .bfloat16 [2]) := ⟨by simp [zeroTensor], rfl⟩
  obtain ⟨-, written, data, hSerialize, hRest, hRead⟩ := @serialize_reads_back zeroTorch
    sampleCodec _ _ ⟨zeroTensor .float8E4m3fn [1100], rfl⟩ _ _ _ 1034 hDescribes hDescribes rfl
    (by decide) rfl
  exact ⟨written, data, hSerialize, hRest, by rw [hRead]; rfl⟩

end LMCache.KVCodec
