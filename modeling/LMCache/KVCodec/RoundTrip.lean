import LMCache.KVCodec.EncodedKV
import LMCache.Lib.Python

/-!
# The header round trip

A header that is written is read back in front of the payload and whatever follows: every part
is consumed where it was produced, because the reader comes to its offset with exactly the
parts after it left in the buffer.
-/

namespace LMCache.KVCodec

open Lib List Option Bytes

def FitsInt64 (n : Int) : Prop := -2 ^ 63 ≤ n ∧ n < 2 ^ 63

theorem packH_ok {n : Nat} (hn : n < 2 ^ 16) : packH n = .ok (toLE 2 n) := if_pos hn

theorem packQ_ok {n : Int} (hn : FitsInt64 n) : packQ n = .ok (signedBytes 8 n) := if_pos hn

theorem ofLE_packed {n : Nat} (hn : n < 2 ^ 16) : ofLE (toLE 2 n) = n :=
  ofLE_toLE (by norm_num; omega)

theorem signedOfBytes_packed {n : Int} (hn : FitsInt64 n) :
    signedOfBytes (signedBytes 8 n) = n := by
  obtain ⟨hLow, hHigh⟩ := hn
  exact signedOfBytes_signedBytes (by norm_num; omega) (by norm_num; omega)

variable {buf rest : Bytes} {off : Nat}

theorem readH_row {values : List Nat}
    (h : Bytes.Remaining buf off ((values.map (toLE 2)).flatten ++ rest)) {i n : Nat}
    (hAt : values[i]? = some n) (hn : n < 2 ^ 16) : readH buf (off + 2 * i) = n := by
  have hField : (values.map (toLE 2))[i]? = some (toLE 2 n) := by
    rw [getElem?_map, hAt, map_some]
  rw [readH, h.fields (by simp) hField, ofLE_packed hn]

theorem readQ_row {values : List Int}
    (h : Bytes.Remaining buf off ((values.map (signedBytes 8)).flatten ++ rest)) {i : Nat} {n : Int}
    (hAt : values[i]? = some n) (hn : FitsInt64 n) : readQ buf (off + 8 * i) = n := by
  have hField : (values.map (signedBytes 8))[i]? = some (signedBytes 8 n) := by
    rw [getElem?_map, hAt, map_some]
  rw [readQ, h.fields (by simp) hField, signedOfBytes_packed hn]

theorem length_flatten_toLE (values : List Nat) :
    (values.map (toLE 2)).flatten.length = 2 * values.length := by
  rw [length_flatten_of_width (n := 2) (by simp), length_map]

theorem length_flatten_signedBytes (values : List Int) :
    (values.map (signedBytes 8)).flatten.length = 8 * values.length := by
  rw [length_flatten_of_width (n := 8) (by simp), length_map]

/-- The encoding of a string is short enough for its length field. -/
def FitsStr (s : String) : Prop := (encodeUtf8 s.toList).length ≤ 0xFFFF

def strBytes (s : String) : Bytes :=
  toLE 2 (encodeUtf8 s.toList).length ++ encodeUtf8 s.toList

theorem packStr_ok {s : String} (hs : FitsStr s) : packStr s = .ok (strBytes s) := by
  have hLength : (encodeUtf8 s.toList).length < 2 ^ 16 := Nat.lt_succ_of_le hs
  rw [packStr, if_neg (Nat.not_lt.mpr hs), packH_ok hLength]
  rfl

theorem unpackStr_ok {s : String} (h : Bytes.Remaining buf off (strBytes s ++ rest))
    (hs : FitsStr s) : unpackStr buf off = .ok (s, off + (strBytes s).length) ∧
      Bytes.Remaining buf (off + (strBytes s).length) rest := by
  have hLength : (encodeUtf8 s.toList).length < 2 ^ 16 := Nat.lt_succ_of_le hs
  refine ⟨?_, h.skip rfl⟩
  rw [strBytes, append_assoc] at h
  have hWidth := length_toLE 2 (encodeUtf8 s.toList).length
  have hRead : readH buf off = (encodeUtf8 s.toList).length := by
    rw [readH, h.field hWidth, ofLE_packed hLength]
  have hText := h.skip hWidth
  rw [unpackStr, if_neg (Nat.not_lt.mpr (h.le hWidth))]
  dsimp only
  rw [hRead, if_neg (Nat.not_lt.mpr (hText.le rfl)), hText.field rfl, decodeUtf8_encodeUtf8]
  dsimp only
  rw [String.ofList_toList, strBytes, length_append, hWidth, Nat.add_assoc]

def pairBytes (pair : String × String) : Bytes := strBytes pair.1 ++ strBytes pair.2

theorem packPair_ok {pair : String × String} (hKey : FitsStr pair.1) (hVal : FitsStr pair.2) :
    packPair pair = .ok (pairBytes pair) := by
  rw [packPair, packStr_ok hKey, packStr_ok hVal]
  rfl

theorem readHashes_ok {pairs : List (String × String)} (hashes : CodecHashes)
    (h : Bytes.Remaining buf off ((pairs.map pairBytes).flatten ++ rest))
    (hFits : ∀ pair ∈ pairs, FitsStr pair.1 ∧ FitsStr pair.2) :
    readHashes buf pairs.length off hashes =
        .ok (pairs.foldl (fun hashes pair => hashes.set pair.1 pair.2) hashes,
          off + (pairs.map pairBytes).flatten.length) ∧
      Bytes.Remaining buf (off + (pairs.map pairBytes).flatten.length) rest := by
  refine ⟨?_, h.skip rfl⟩
  induction pairs generalizing off hashes with
  | nil => rfl
  | cons pair pairs ih =>
    rw [map_cons, flatten_cons, pairBytes, append_assoc, append_assoc] at h
    obtain ⟨hKey, hVal⟩ := hFits pair mem_cons_self
    obtain ⟨hReadKey, hAfterKey⟩ := unpackStr_ok h hKey
    obtain ⟨hReadVal, hAfterVal⟩ := unpackStr_ok hAfterKey hVal
    rw [length_cons, readHashes, hReadKey, ok_bind]
    dsimp only
    rw [hReadVal, ok_bind]
    dsimp only
    have hOff : off + (strBytes pair.1).length + (strBytes pair.2).length +
        (pairs.map pairBytes).flatten.length =
          off + ((pair :: pairs).map pairBytes).flatten.length := by
      rw [map_cons, flatten_cons, pairBytes, length_append, length_append]
      omega
    rw [ih _ hAfterVal fun pair hMem => hFits pair (mem_cons_of_mem _ hMem), hOff]
    rfl

/-- The fields fit the header and the payload has the declared length. -/
structure EncodedKV.Fits (enc : EncodedKV) : Prop where
  kDtype : ∃ idx, dtypeToInt enc.kDtype = .ok idx
  vDtype : ∃ idx, dtypeToInt enc.vDtype = .ok idx
  scaleDtype : ∃ idx, dtypeToInt enc.scaleDtype = .ok idx
  layout : ∀ n ∈ [enc.layerId, enc.chunkId, enc.chunkSize, enc.pageSize, enc.kvHeadCount,
    enc.headDim], FitsInt64 n
  dims : ∀ d ∈ enc.scaleShape, FitsInt64 d
  dimCount : enc.scaleShape.length ≤ 8
  lens : ∀ n ∈ [enc.kPayloadLen, enc.vPayloadLen, enc.scalePayloadLen], FitsInt64 n
  payload : (enc.payload.length : Int) = enc.expectedPayloadLen
  hashes : ∀ pair ∈ enc.hashes.pairs, FitsStr pair.2

theorem intToDtype_of_dtypeToInt {dtype : Option TorchDType} {idx : Nat}
    (h : dtypeToInt dtype = .ok idx) : idx < 2 ^ 16 ∧ intToDtype idx = .ok dtype := by
  rcases dtype with _ | dtype
  · cases h
    exact ⟨by norm_num, rfl⟩
  · cases dtype with
    | other name itemsize => cases h
    | _ =>
      cases h
      exact ⟨by norm_num, rfl⟩

theorem ofValue_value (scope : ScaleScope) :
    scope.value < 2 ^ 16 ∧ ScaleScope.ofValue scope.value = .ok scope := by
  cases scope <;> exact ⟨by norm_num [ScaleScope.value], rfl⟩

def EncodedKV.shorts (enc : EncodedKV) (k v scale : Nat) : List Nat :=
  [codecVersionV1, enc.scaleScope.value, k, v, scale, 0]

def EncodedKV.layout (enc : EncodedKV) : List Int :=
  [enc.layerId, enc.chunkId, enc.chunkSize, enc.pageSize, enc.kvHeadCount, enc.headDim,
    enc.scaleShape.length]

def EncodedKV.lens (enc : EncodedKV) : List Int :=
  [enc.kPayloadLen, enc.vPayloadLen, enc.scalePayloadLen]

def hashPart (enc : EncodedKV) : Bytes :=
  toLE 2 enc.hashes.pairs.length ++ ((enc.hashes.pairs.map pairBytes).flatten ++
    toLE 4 (payloadCrc enc.payload))

def headerOf (enc : EncodedKV) (k v scale : Nat) : Bytes :=
  codecMagic ++ (((enc.shorts k v scale).map (toLE 2)).flatten ++
    ((enc.layout.map (signedBytes 8)).flatten ++ ((enc.scaleShape.map (signedBytes 8)).flatten ++
      ((enc.lens.map (signedBytes 8)).flatten ++ hashPart enc))))

theorem fits_keys {hashes : CodecHashes} (h : ∀ pair ∈ hashes.pairs, FitsStr pair.2) :
    ∀ pair ∈ hashes.pairs, FitsStr pair.1 ∧ FitsStr pair.2 := by
  intro pair hMem
  refine ⟨?_, h pair hMem⟩
  have hKeys : ∀ key ∈ CodecHashes.checkOrder, FitsStr key := by
    unfold FitsStr
    decide
  exact hKeys _ (of_mem_zip hMem).1

theorem EncodedKV.Fits.layout_fits {enc : EncodedKV} (h : enc.Fits) :
    ∀ n ∈ enc.layout, FitsInt64 n := by
  intro n hMem
  have hCount := h.dimCount
  have hSplit : enc.layout = [enc.layerId, enc.chunkId, enc.chunkSize, enc.pageSize,
      enc.kvHeadCount, enc.headDim] ++ [(enc.scaleShape.length : Int)] := rfl
  rw [hSplit] at hMem
  rcases mem_append.mp hMem with hField | hLast
  · exact h.layout n hField
  · obtain rfl := mem_singleton.mp hLast
    exact ⟨by omega, by omega⟩

theorem shorts_lt {enc : EncodedKV} {k v scale : Nat} (hk : k < 2 ^ 16) (hv : v < 2 ^ 16)
    (hs : scale < 2 ^ 16) : ∀ n ∈ enc.shorts k v scale, n < 2 ^ 16 := by
  have hScope := (ofValue_value enc.scaleScope).1
  simp only [EncodedKV.shorts, forall_mem_cons]
  exact ⟨by norm_num [codecVersionV1], hScope, hk, hv, hs, by norm_num, by simp⟩

theorem serializeHeader_ok {enc : EncodedKV} (h : enc.Fits) {k v scale : Nat}
    (hk : dtypeToInt enc.kDtype = .ok k) (hv : dtypeToInt enc.vDtype = .ok v)
    (hs : dtypeToInt enc.scaleDtype = .ok scale) :
    serializeHeader enc = .ok (headerOf enc k v scale) := by
  have hShorts : (enc.shorts k v scale).mapM packH = .ok _ := mapM_ok fun n hMem =>
    packH_ok (shorts_lt (intToDtype_of_dtypeToInt hk).1 (intToDtype_of_dtypeToInt hv).1
      (intToDtype_of_dtypeToInt hs).1 n hMem)
  have hLayout : enc.layout.mapM packQ = .ok _ := mapM_ok fun n hMem =>
    packQ_ok (h.layout_fits n hMem)
  have hDims : enc.scaleShape.mapM packQ = .ok _ := mapM_ok fun n hMem => packQ_ok (h.dims n hMem)
  have hLens : enc.lens.mapM packQ = .ok _ := mapM_ok fun n hMem => packQ_ok (h.lens n hMem)
  have hHashes : enc.hashes.pairs.mapM packPair = .ok _ := mapM_ok fun pair hMem =>
    packPair_ok (fits_keys h.hashes pair hMem).1 (fits_keys h.hashes pair hMem).2
  have hCount : packH enc.hashes.pairs.length = .ok _ := packH_ok (by
    rw [CodecHashes.pairs]
    norm_num)
  rw [EncodedKV.shorts] at hShorts
  rw [EncodedKV.layout] at hLayout
  rw [EncodedKV.lens] at hLens
  rw [serializeHeader, if_neg (not_not_intro h.payload), hk, ok_bind, hv, ok_bind, hs, ok_bind,
    hShorts, ok_bind, hLayout, ok_bind, hDims, ok_bind, hLens, ok_bind, hCount, ok_bind, hHashes,
    ok_bind]
  rfl

section ReadBack

variable {enc : EncodedKV} {k v scale : Nat} {trailing : Bytes}

/-- What is left in front of the payload lengths. -/
def lensPart (enc : EncodedKV) (trailing : Bytes) : Bytes :=
  (enc.lens.map (signedBytes 8)).flatten ++ (hashPart enc ++ (enc.payload ++ trailing))

/-- The reader's offsets in a blob, one for each part of the header. -/
structure Blob (enc : EncodedKV) (k v scale : Nat) (trailing buf : Bytes) : Prop where
  magic : buf.slice 0 8 = codecMagic
  shorts : Bytes.Remaining buf 8 (((enc.shorts k v scale).map (toLE 2)).flatten ++
    ((enc.layout.map (signedBytes 8)).flatten ++ ((enc.scaleShape.map (signedBytes 8)).flatten ++
      lensPart enc trailing)))
  layout : Bytes.Remaining buf 20 ((enc.layout.map (signedBytes 8)).flatten ++
    ((enc.scaleShape.map (signedBytes 8)).flatten ++ lensPart enc trailing))
  dims : Bytes.Remaining buf fixedHeaderLen
    ((enc.scaleShape.map (signedBytes 8)).flatten ++ lensPart enc trailing)
  lens : Bytes.Remaining buf (fixedHeaderLen + 8 * enc.scaleShape.length) (lensPart enc trailing)
  hashes : Bytes.Remaining buf (fixedHeaderLen + 8 * enc.scaleShape.length + 24)
    (hashPart enc ++ (enc.payload ++ trailing))

theorem blob_headerOf :
    Blob enc k v scale trailing (headerOf enc k v scale ++ (enc.payload ++ trailing)) := by
  have hParts : headerOf enc k v scale ++ (enc.payload ++ trailing) = codecMagic ++
      (((enc.shorts k v scale).map (toLE 2)).flatten ++
        ((enc.layout.map (signedBytes 8)).flatten ++
          ((enc.scaleShape.map (signedBytes 8)).flatten ++ lensPart enc trailing))) := by
    simp only [headerOf, lensPart, append_assoc]
  have hStart : Bytes.Remaining (headerOf enc k v scale ++ (enc.payload ++ trailing)) 0 _ :=
    ⟨Nat.zero_le _, hParts⟩
  have hMagic : codecMagic.length = 8 := rfl
  have hShorts := hStart.skip hMagic
  have hLayout := hShorts.skip (length_flatten_toLE _)
  have hDims := hLayout.skip (length_flatten_signedBytes _)
  have hLens := hDims.skip (length_flatten_signedBytes _)
  have hHashes := hLens.skip (length_flatten_signedBytes _)
  exact ⟨hStart.field hMagic, hShorts, hLayout, hDims, hLens, hHashes⟩

theorem Blob.readScaleShape {buf : Bytes} (hBlob : Blob enc k v scale trailing buf)
    (hFits : enc.Fits) : readScaleShape buf enc.scaleShape.length = enc.scaleShape := by
  apply ext_getElem?
  intro i
  rw [KVCodec.readScaleShape, getElem?_map]
  cases hAt : enc.scaleShape[i]? with
  | none =>
    rw [getElem?_eq_none (by rw [length_range]; exact List.getElem?_eq_none_iff.mp hAt)]
    rfl
  | some d =>
    rw [getElem?_range (List.getElem?_eq_some_iff.mp hAt).1, map_some,
      readQ_row hBlob.dims hAt (hFits.dims d (mem_of_getElem? hAt))]

theorem Blob.readHashes {buf : Bytes} (hBlob : Blob enc k v scale trailing buf)
    (hFits : enc.Fits) : fixedHeaderLen + 8 * enc.scaleShape.length + 24 + 2 ≤ buf.length ∧
    ∃ off, KVCodec.readHashes buf
        (readH buf (fixedHeaderLen + 8 * enc.scaleShape.length + 24))
        (fixedHeaderLen + 8 * enc.scaleShape.length + 24 + 2) .default = .ok (enc.hashes, off) ∧
      Bytes.Remaining buf off (toLE 4 (payloadCrc enc.payload) ++
        (enc.payload ++ trailing)) := by
  have hHashes := hBlob.hashes
  rw [hashPart, append_assoc, append_assoc] at hHashes
  have hWidth := length_toLE 2 enc.hashes.pairs.length
  have hCount : readH buf (fixedHeaderLen + 8 * enc.scaleShape.length + 24) =
      enc.hashes.pairs.length := by
    have hSix : enc.hashes.pairs.length = 6 := rfl
    rw [readH, hHashes.field hWidth, ofLE_packed (by rw [hSix]; norm_num)]
  obtain ⟨hRead, hAfter⟩ := readHashes_ok .default (hHashes.skip hWidth) (fits_keys hFits.hashes)
  exact ⟨hHashes.le hWidth, _, by rw [hCount]; exact hRead, hAfter⟩

theorem sliceOf_remaining {buf : Bytes} {off : Nat} {payload rest : Bytes}
    (h : Bytes.Remaining buf off (payload ++ rest)) :
    sliceOf buf off (off + (payload.length : Int)) = payload := by
  rw [← Nat.cast_add, sliceOf_natCast, drop_take, h.2, Nat.add_sub_cancel_left, take_left]

theorem payloadCrc_lt (payload : Bytes) : payloadCrc payload < 256 ^ 4 :=
  Nat.mod_lt _ (by norm_num)

theorem deserializePayload_ok (hFits : enc.Fits) (hk : dtypeToInt enc.kDtype = .ok k)
    (hv : dtypeToInt enc.vDtype = .ok v) (hs : dtypeToInt enc.scaleDtype = .ok scale)
    {header : Bytes} {off : Nat}
    (hBlob : Blob enc k v scale trailing (header ++ (enc.payload ++ trailing)))
    (hCrc : Bytes.Remaining (header ++ (enc.payload ++ trailing)) off
      (toLE 4 (payloadCrc enc.payload) ++ (enc.payload ++ trailing))) :
    deserializePayload (header ++ (enc.payload ++ trailing)) enc.scaleShape
        (enc.kPayloadLen, enc.vPayloadLen, enc.scalePayloadLen) enc.hashes (off + 4) =
      .ok { enc with headerBytes := some header } := by
  have hWidth := length_toLE 4 (payloadCrc enc.payload)
  have hPayload := hCrc.skip hWidth
  have hEnd := hPayload.le rfl
  have hLength : enc.kPayloadLen + enc.vPayloadLen + enc.scalePayloadLen =
      (enc.payload.length : Int) := hFits.payload.symm
  have hShort : ∀ {i n}, (enc.shorts k v scale)[i]? = some n →
      readH (header ++ (enc.payload ++ trailing)) (8 + 2 * i) = n := fun {i n} hAt =>
    readH_row hBlob.shorts hAt (shorts_lt (intToDtype_of_dtypeToInt hk).1
      (intToDtype_of_dtypeToInt hv).1 (intToDtype_of_dtypeToInt hs).1 n (mem_of_getElem? hAt))
  have hField : ∀ {i n}, enc.layout[i]? = some n →
      readQ (header ++ (enc.payload ++ trailing)) (20 + 8 * i) = n := fun {i n} hAt =>
    readQ_row hBlob.layout hAt (hFits.layout_fits n (mem_of_getElem? hAt))
  rw [deserializePayload]
  dsimp only
  rw [hLength, if_neg (by omega), sliceOf_remaining hPayload, Nat.add_sub_cancel,
    hCrc.field hWidth, ofLE_toLE (payloadCrc_lt _), if_neg (not_not_intro rfl),
    hShort (i := 1) rfl, (ofValue_value _).2, ok_bind, hShort (i := 2) rfl,
    (intToDtype_of_dtypeToInt hk).2, ok_bind, hShort (i := 3) rfl,
    (intToDtype_of_dtypeToInt hv).2, ok_bind, hShort (i := 4) rfl,
    (intToDtype_of_dtypeToInt hs).2, ok_bind, hField (i := 0) rfl, hField (i := 1) rfl,
    hField (i := 2) rfl, hField (i := 3) rfl, hField (i := 4) rfl, hField (i := 5) rfl,
    hPayload.off_eq, take_left]
  rfl

theorem deserializeHeader_ok (hFits : enc.Fits) (hk : dtypeToInt enc.kDtype = .ok k)
    (hv : dtypeToInt enc.vDtype = .ok v) (hs : dtypeToInt enc.scaleDtype = .ok scale) :
    deserializeHeader (headerOf enc k v scale ++ (enc.payload ++ trailing)) =
      .ok { enc with headerBytes := some (headerOf enc k v scale) } := by
  have hBlob : Blob enc k v scale trailing (headerOf enc k v scale ++ (enc.payload ++ trailing)) :=
    blob_headerOf
  have hLensEnd := hBlob.hashes.1
  have hCount := hFits.dimCount
  obtain ⟨hCountEnd, off, hHashes, hCrc⟩ := hBlob.readHashes hFits
  have hPayload := deserializePayload_ok hFits hk hv hs hBlob hCrc
  have hScale := hBlob.readScaleShape hFits
  have hCrcEnd := hCrc.le (length_toLE 4 _)
  generalize headerOf enc k v scale ++ (enc.payload ++ trailing) = buf at *
  have hVersion : readH buf 8 = codecVersionV1 :=
    readH_row (i := 0) hBlob.shorts rfl (by norm_num [codecVersionV1])
  have hDims : readQ buf 68 = (enc.scaleShape.length : Int) :=
    readQ_row (i := 6) hBlob.layout rfl ⟨by omega, by omega⟩
  have hLens : ∀ {i n}, enc.lens[i]? = some n →
      readQ buf (fixedHeaderLen + 8 * enc.scaleShape.length + 8 * i) = n := fun {i n} hAt =>
    readQ_row hBlob.lens hAt (hFits.lens n (mem_of_getElem? hAt))
  have hK : readQ buf (fixedHeaderLen + 8 * enc.scaleShape.length) = enc.kPayloadLen :=
    hLens (i := 0) rfl
  have hV : readQ buf (fixedHeaderLen + 8 * enc.scaleShape.length + 8) = enc.vPayloadLen :=
    hLens (i := 1) rfl
  have hS : readQ buf (fixedHeaderLen + 8 * enc.scaleShape.length + 16) = enc.scalePayloadLen :=
    hLens (i := 2) rfl
  rw [deserializeHeader]
  dsimp only
  rw [if_neg (by omega), hBlob.magic, if_neg (not_not_intro rfl), hVersion,
    if_neg (not_not_intro rfl), hDims, if_neg (by omega), Int.toNat_natCast, if_neg (by omega),
    if_neg (by omega), if_neg (by omega), hHashes, ok_bind]
  dsimp only
  rw [if_neg (by omega), hScale, hK, hV, hS, hPayload]

end ReadBack

end LMCache.KVCodec
