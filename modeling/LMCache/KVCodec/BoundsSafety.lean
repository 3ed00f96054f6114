import LMCache.KVCodec.EncodedKV
import LMCache.Lib.Python

/-!
# What the reader accepts

The reader raises `CorruptEncodedKVError` or returns. What it returns lies inside the buffer as
the header declares it where no declared payload length and no scale dimension is negative. The
reader checks the sum of the lengths against the buffer and no sign, so lengths such as
`-8, 8, 0` are accepted, and the slices of K and V then overlap or leave bytes out.
-/

namespace LMCache.KVCodec

open Lib List

def CodecError.IsCorrupt : CodecError → Prop
  | .corrupt _ | .corruptBytes _ _ => True
  | _ => False

def OnlyCorrupt {α : Type} (x : Coded α) : Prop := ∀ e, x = .error e → e.IsCorrupt

section Errors

variable {α β : Type}

theorem onlyCorrupt_ok (a : α) : OnlyCorrupt (.ok a) := fun _ h => (nomatch h)

theorem onlyCorrupt_corrupt (message : String) : OnlyCorrupt (corrupt message : Coded α) := by
  rintro e ⟨⟩
  trivial

theorem onlyCorrupt_corruptBytes (message : String) (shown : Bytes) :
    OnlyCorrupt (.error (.corruptBytes message shown) : Coded α) := by
  rintro e ⟨⟩
  trivial

theorem OnlyCorrupt.bind {x : Coded α} {f : α → Coded β} (hx : OnlyCorrupt x)
    (hf : ∀ a, OnlyCorrupt (f a)) : OnlyCorrupt (x >>= f) := by
  cases x with
  | error e => exact fun e' h => hx e' (Except.error.inj h ▸ rfl)
  | ok a => exact hf a

theorem OnlyCorrupt.ite {c : Prop} [Decidable c] {x y : Coded α} (hx : OnlyCorrupt x)
    (hy : OnlyCorrupt y) : OnlyCorrupt (if c then x else y) := by
  split
  · exact hx
  · exact hy

theorem onlyCorrupt_ofValue (idx : Nat) : OnlyCorrupt (ScaleScope.ofValue idx) := by
  unfold ScaleScope.ofValue
  split
  iterate 4 exact onlyCorrupt_ok _
  exact onlyCorrupt_corrupt _

theorem onlyCorrupt_intToDtype (idx : Nat) : OnlyCorrupt (intToDtype idx) := by
  unfold intToDtype
  split
  iterate 9 exact onlyCorrupt_ok _
  exact onlyCorrupt_corrupt _

theorem onlyCorrupt_unpackStr (buf : Bytes) (off : Nat) : OnlyCorrupt (unpackStr buf off) := by
  refine .ite (onlyCorrupt_corrupt _) (.ite (onlyCorrupt_corrupt _) ?_)
  split
  · exact onlyCorrupt_corruptBytes _ _
  · exact onlyCorrupt_ok _

theorem onlyCorrupt_readHashes (buf : Bytes) (n off : Nat) (hashes : CodecHashes) :
    OnlyCorrupt (readHashes buf n off hashes) := by
  induction n generalizing off hashes with
  | zero => exact onlyCorrupt_ok _
  | succ n ih =>
    refine (onlyCorrupt_unpackStr buf off).bind fun key => ?_
    exact (onlyCorrupt_unpackStr buf key.2).bind fun val => ih val.2 _

theorem onlyCorrupt_deserializePayload (buf : Bytes) (scaleShape : List Int)
    (lens : Int × Int × Int) (hashes : CodecHashes) (off : Nat) :
    OnlyCorrupt (deserializePayload buf scaleShape lens hashes off) := by
  refine .ite (onlyCorrupt_corrupt _) (.ite (onlyCorrupt_corrupt _) ?_)
  refine (onlyCorrupt_ofValue _).bind fun scaleScope => ?_
  refine (onlyCorrupt_intToDtype _).bind fun kDtype => ?_
  refine (onlyCorrupt_intToDtype _).bind fun vDtype => ?_
  exact (onlyCorrupt_intToDtype _).bind fun scaleDtype => onlyCorrupt_ok _

theorem onlyCorrupt_deserializeHeader (buf : Bytes) : OnlyCorrupt (deserializeHeader buf) := by
  refine .ite (onlyCorrupt_corrupt _) (.ite (onlyCorrupt_corruptBytes _ _)
    (.ite (onlyCorrupt_corrupt _) (.ite (onlyCorrupt_corrupt _) (.ite (onlyCorrupt_corrupt _)
      (.ite (onlyCorrupt_corrupt _) (.ite (onlyCorrupt_corrupt _) ?_))))))
  refine (onlyCorrupt_readHashes buf _ _ _).bind fun hashes => ?_
  exact .ite (onlyCorrupt_corrupt _) (onlyCorrupt_deserializePayload _ _ _ _ _)

end Errors

/-- The scale dimensions and the payload lengths that the header declares. -/
def declaredSizes (buf : Bytes) : List Int :=
  let n := (readQ buf 68).toNat
  let off := fixedHeaderLen + 8 * n
  readScaleShape buf n ++ [readQ buf off, readQ buf (off + 8), readQ buf (off + 16)]

/-- The sizes are not negative, the payload has the declared length and follows the header,
and the slices of K, V and the scales make it up in order. -/
structure BoundsSafe (buf : Bytes) (enc : EncodedKV) : Prop where
  lens : 0 ≤ enc.kPayloadLen ∧ 0 ≤ enc.vPayloadLen ∧ 0 ≤ enc.scalePayloadLen
  dims : ∀ d ∈ enc.scaleShape, 0 ≤ d
  length : (enc.payload.length : Int) = enc.expectedPayloadLen
  place : ∃ header rest, enc.headerBytes = some header ∧ buf = header ++ enc.payload ++ rest
  slices : (enc.decodeSlices.1.length : Int) = enc.kPayloadLen ∧
    (enc.decodeSlices.2.1.length : Int) = enc.vPayloadLen ∧
    (enc.decodeSlices.2.2.length : Int) = enc.scalePayloadLen
  cover : enc.decodeSlices.1 ++ (enc.decodeSlices.2.1 ++ enc.decodeSlices.2.2) = enc.payload

/-- What the header says about a blob that was accepted. -/
structure Accepted (buf : Bytes) (enc : EncodedKV) (off : Nat) : Prop where
  header : enc.headerBytes = some (buf.take off)
  payload : enc.payload = sliceOf buf off (off + enc.expectedPayloadLen)
  inside : off + enc.expectedPayloadLen ≤ buf.length
  sizes : declaredSizes buf =
    enc.scaleShape ++ [enc.kPayloadLen, enc.vPayloadLen, enc.scalePayloadLen]

theorem ite_error_eq_ok {α : Type} {c : Prop} [Decidable c] {e : CodecError} {x : Coded α} {a : α} :
    (if c then .error e else x) = .ok a ↔ ¬ c ∧ x = .ok a := by
  split
  · rename_i hc
    exact ⟨fun h => (nomatch h), fun h => absurd hc h.1⟩
  · rename_i hc
    exact ⟨fun h => ⟨hc, h⟩, fun h => h.2⟩

variable {buf : Bytes} {off : Nat} {enc : EncodedKV}

theorem accepted_deserializePayload {scaleShape : List Int} {lens : Int × Int × Int}
    {hashes : CodecHashes} (hSizes : declaredSizes buf = scaleShape ++ [lens.1, lens.2.1, lens.2.2])
    (h : deserializePayload buf scaleShape lens hashes off = .ok enc) : Accepted buf enc off := by
  obtain ⟨hInside, h⟩ := ite_error_eq_ok.mp h
  obtain ⟨-, h⟩ := ite_error_eq_ok.mp h
  obtain ⟨scaleScope, -, h⟩ := bind_eq_ok.mp h
  obtain ⟨kDtype, -, h⟩ := bind_eq_ok.mp h
  obtain ⟨vDtype, -, h⟩ := bind_eq_ok.mp h
  obtain ⟨scaleDtype, -, h⟩ := bind_eq_ok.mp h
  cases h
  exact ⟨rfl, rfl, not_lt.mp hInside, hSizes⟩

theorem accepted_deserializeHeader (h : deserializeHeader buf = .ok enc) :
    ∃ off, Accepted buf enc off := by
  obtain ⟨-, h⟩ := ite_error_eq_ok.mp h
  obtain ⟨-, h⟩ := ite_error_eq_ok.mp h
  obtain ⟨-, h⟩ := ite_error_eq_ok.mp h
  obtain ⟨-, h⟩ := ite_error_eq_ok.mp h
  obtain ⟨-, h⟩ := ite_error_eq_ok.mp h
  obtain ⟨-, h⟩ := ite_error_eq_ok.mp h
  obtain ⟨-, h⟩ := ite_error_eq_ok.mp h
  obtain ⟨⟨hashes, off⟩, -, h⟩ := bind_eq_ok.mp h
  obtain ⟨-, h⟩ := ite_error_eq_ok.mp h
  refine ⟨off + 4, accepted_deserializePayload ?_ h⟩
  rw [declaredSizes]

theorem Accepted.forall_sizes (h : Accepted buf enc off) : (∀ d ∈ declaredSizes buf, 0 ≤ d) ↔
      (∀ d ∈ enc.scaleShape, 0 ≤ d) ∧
        0 ≤ enc.kPayloadLen ∧ 0 ≤ enc.vPayloadLen ∧ 0 ≤ enc.scalePayloadLen := by
  rw [h.sizes]
  simp only [mem_append, mem_cons, not_mem_nil, or_false, or_imp, forall_and, forall_eq]

theorem Accepted.boundsSafe (h : Accepted buf enc off) (hSizes : ∀ d ∈ declaredSizes buf, 0 ≤ d) :
    BoundsSafe buf enc := by
  obtain ⟨hDims, hk, hv, hs⟩ := h.forall_sizes.mp hSizes
  obtain ⟨k, hkEq⟩ := Int.eq_ofNat_of_zero_le hk
  obtain ⟨v, hvEq⟩ := Int.eq_ofNat_of_zero_le hv
  obtain ⟨s, hsEq⟩ := Int.eq_ofNat_of_zero_le hs
  have hExpected : enc.expectedPayloadLen = ((k + v + s : Nat) : Int) := by
    rw [EncodedKV.expectedPayloadLen, hkEq, hvEq, hsEq]
    push_cast
    rfl
  have hInside := h.inside
  rw [hExpected] at hInside
  have hPayload := h.payload
  rw [hExpected, ← Nat.cast_add, sliceOf_natCast] at hPayload
  have hLength : enc.payload.length = k + v + s := by
    rw [hPayload, length_drop, length_take]
    omega
  have hSlices : enc.decodeSlices =
      (enc.payload.take k, (enc.payload.take (k + v)).drop k, enc.payload.drop (k + v)) := by
    rw [EncodedKV.decodeSlices, hkEq, hvEq, ← Nat.cast_add]
    refine congrArg₂ _ (sliceOf_natCast _ 0 k) (congrArg₂ _ (sliceOf_natCast _ _ _) ?_)
    rw [sliceOf_natCast, take_length]
  refine ⟨⟨hk, hv, hs⟩, hDims, by rw [hLength, hExpected], ?_, ?_, ?_⟩
  · refine ⟨_, buf.drop (off + (k + v + s)), h.header, ?_⟩
    have hHeader : buf.take off = (buf.take (off + (k + v + s))).take off := by
      rw [take_take, Nat.min_eq_left (Nat.le_add_right _ _)]
    rw [hPayload, hHeader, take_append_drop, take_append_drop]
  · rw [hSlices, hkEq, hvEq, hsEq]
    simp only [length_take, length_drop, hLength]
    omega
  · rw [hSlices]
    have hFirst : enc.payload.take k = (enc.payload.take (k + v)).take k := by
      rw [take_take, Nat.min_eq_left (Nat.le_add_right k v)]
    rw [hFirst, ← append_assoc, take_append_drop, take_append_drop]

/-- The reader raises `CorruptEncodedKVError` only, and what it returns lies in the buffer as
declared exactly when no declared dimension and no declared length is negative. -/
theorem deserialize_bounds_safe_iff (buf : Bytes) :
    (∀ e, deserializeHeader buf = .error e → e.IsCorrupt) ∧
      ∀ enc, deserializeHeader buf = .ok enc →
        (BoundsSafe buf enc ↔ ∀ d ∈ declaredSizes buf, 0 ≤ d) := by
  refine ⟨onlyCorrupt_deserializeHeader buf, fun enc h => ?_⟩
  obtain ⟨off, hAccepted⟩ := accepted_deserializeHeader h
  exact ⟨fun hSafe => hAccepted.forall_sizes.mpr ⟨hSafe.dims, hSafe.lens⟩, hAccepted.boundsSafe⟩

/-- A header without scale dimensions and hash strings, with the payload lengths given. -/
def sampleHeader (lens : List Int) (crc : Nat) : Bytes :=
  codecMagic ++ [1, 0, 0, 0, 3, 0, 7, 0, 4, 0, 0, 0] ++ Bytes.zeros 56 ++
    lens.flatMap (signedBytes 8) ++ [0, 0] ++ Bytes.toLE 4 crc

def sampleEncoded (k v s : Int) (crc : Nat) (payload : Bytes) : EncodedKV :=
  ⟨some .bfloat16, some .float8E4m3fn, some .float32, .perTensor, .default, 0, 0, 0, 0, 0, 0, [],
    k, v, s, payload, some (sampleHeader [k, v, s] crc)⟩

/-- A blob of two bytes of K, one of V and one of scales, with a byte behind it. -/
theorem deserialize_bounds_safe_iff_sample :
    BoundsSafe (sampleHeader [2, 1, 1] 0xb63cfbcd ++ [1, 2, 3, 4, 9])
      (sampleEncoded 2 1 1 0xb63cfbcd [1, 2, 3, 4]) :=
  ((deserialize_bounds_safe_iff _).2 _ (by decide +kernel)).mpr (by decide +kernel)

/-- With the lengths `3, -2, 2` the slices of K and of the scales share two bytes. -/
theorem deserialize_not_bounds_safe :
    deserializeHeader (sampleHeader [3, -2, 2] 0x55bc801d ++ [1, 2, 3]) =
        .ok (sampleEncoded 3 (-2) 2 0x55bc801d [1, 2, 3]) ∧
      (sampleEncoded 3 (-2) 2 0x55bc801d [1, 2, 3]).decodeSlices = ([1, 2, 3], [], [2, 3]) ∧
      ¬ BoundsSafe (sampleHeader [3, -2, 2] 0x55bc801d ++ [1, 2, 3])
        (sampleEncoded 3 (-2) 2 0x55bc801d [1, 2, 3]) := by
  refine ⟨by decide +kernel, rfl, fun hSafe => ?_⟩
  exact absurd hSafe.lens.2.1 (by decide)

end LMCache.KVCodec
