import LMCache.KVCodec.RoundTrip

/-!
# The asymmetric serializers

`AsymK16V8MultiSerializer` writes K as it is and V quantized to FP8 into one blob,
`AsymK16V8VOnlyMultiSerializer` writes V only. Both also say how large a buffer the blob of a
layout needs: an allowance for the header, the bytes of K and of V, and one scale. What torch
computes is a parameter; of it only shapes and dtypes are known.
-/

namespace LMCache.KVCodec

open Lib

def numel : List Nat → Nat
  | [] => 1
  | d :: shape => d * numel shape

def tupleText : List Nat → String
  | [] => "()"
  | [d] => s!"({d},)"
  | shape => "(" ++ ", ".intercalate (shape.map toString) ++ ")"

structure Tensor where
  dtype : TorchDType
  shape : List Nat
  data : Bytes
  length_data : data.length = numel shape * dtype.itemsize

structure Torch where
  /-- The scale of a whole tensor, from `abs().amax()`; there is none of an empty tensor. -/
  tensorScale : Tensor → Coded Tensor
  /-- One scale for each head. -/
  headScales : Tensor → Coded Tensor
  convert : Tensor → TorchDType → Tensor
  /-- The division by the scales, the clamp and the cast to FP8. -/
  quantize : Tensor → Tensor → ScaleScope → Coded Tensor
  tensorScale_like : ∀ {v scale}, tensorScale v = .ok scale → scale.shape = []
  convert_like : ∀ t dtype, (convert t dtype).dtype = dtype ∧ (convert t dtype).shape = t.shape
  quantize_like : ∀ {v scales scope q}, quantize v scales scope = .ok q →
    q.dtype = .float8E4m3fn ∧ q.shape = v.shape

/-- `AsymK16V8Codec`. -/
structure Codec where
  fp8Dtype : TorchDType
  scaleDtype : TorchDType
  scaleScope : ScaleScope
  fp8Dtype_eq : fp8Dtype = .float8E4m3fn

/-- The constructor, which takes one FP8 dtype. -/
def Codec.new (fp8Dtype scaleDtype : TorchDType) (scaleScope : ScaleScope) : Coded Codec :=
  if h : fp8Dtype = .float8E4m3fn then .ok ⟨fp8Dtype, scaleDtype, scaleScope, h⟩
  else if fp8Dtype = .float8E5m2 then
    unsupportedConfig "float8_e5m2 is reserved-but-not-implemented in v1; use float8_e4m3fn"
  else
    unsupportedConfig ("AsymK16V8Codec: fp8_dtype must be float8_e4m3fn " ++
      s!"(or e5m2 reserved); got {fp8Dtype.name}")

variable (torch : Torch)

/-- `compute_v_scales` without a page axis. -/
def computeVScales (v : Tensor) : ScaleScope → Coded Tensor
  | .perTensor => torch.tensorScale v
  | .perLayerHead => torch.headScales v
  | .perPageHead => unsupportedConfig "compute_v_scales(PER_PAGE_HEAD) requires page_axis"
  | .external => unsupportedConfig ("compute_v_scales does not produce EXTERNAL scales; the " ++
      "caller is expected to attach them.")

namespace Codec

variable (codec : Codec)

/-- `encode(k, v)` with its defaults. -/
def encode (k v : Tensor) : Coded EncodedKV := do
  if k.shape ≠ v.shape then
    unsupportedConfig (s!"encode: K and V shapes must match; got K={tupleText k.shape} " ++
      s!"vs V={tupleText v.shape}")
  else
    let vScales ← computeVScales torch v codec.scaleScope
    let vScales := torch.convert vScales codec.scaleDtype
    let vQuant ← torch.quantize v vScales codec.scaleScope
    let enc : EncodedKV := {
      kDtype := some k.dtype
      vDtype := some codec.fp8Dtype
      scaleDtype := some codec.scaleDtype
      scaleScope := codec.scaleScope
      hashes := .default
      layerId := -1
      chunkId := -1
      chunkSize := -1
      pageSize := -1
      kvHeadCount := -1
      headDim := -1
      scaleShape := vScales.shape.map Int.ofNat
      kPayloadLen := k.data.length
      vPayloadLen := vQuant.data.length
      scalePayloadLen := vScales.data.length
      payload := k.data ++ vQuant.data ++ vScales.data
      headerBytes := none }
    let header ← serializeHeader enc
    return { enc with headerBytes := some header }

/-- The part of `AsymK16V8VOnlyMultiSerializer.serialize` that makes the blob's fields. -/
def encodeVOnly (kDtypeTag : TorchDType) (v : Tensor) : Coded EncodedKV := do
  let vScales ← computeVScales torch v codec.scaleScope
  let vScales := torch.convert vScales codec.scaleDtype
  let vQuant ← torch.quantize v vScales codec.scaleScope
  return {
    kDtype := some kDtypeTag
    vDtype := some codec.fp8Dtype
    scaleDtype := some codec.scaleDtype
    scaleScope := codec.scaleScope
    hashes := .default
    layerId := -1
    chunkId := -1
    chunkSize := -1
    pageSize := -1
    kvHeadCount := -1
    headDim := -1
    scaleShape := vScales.shape.map Int.ofNat
    kPayloadLen := 0
    vPayloadLen := vQuant.data.length
    scalePayloadLen := vScales.data.length
    payload := vQuant.data ++ vScales.data
    headerBytes := none }

end Codec

def EncodedKV.toBytes (enc : EncodedKV) : Coded Bytes :=
  match enc.headerBytes with
  | some header => .ok (header ++ enc.payload)
  | none => do
    let header ← serializeHeader enc
    return header ++ enc.payload

/-- A memory object, which may have lost its tensor. -/
structure MemoryObj where
  tensor : Option Tensor

/-- A tensor of one dimension. -/
abbrev FlatTensor := { t : Tensor // t.shape.length = 1 }

/-- A memory object that is written to from its front. -/
structure Destination where
  tensor : Option FlatTensor

structure MemoryLayoutDesc where
  shapes : List (List Nat)
  dtypes : List TorchDType
  length_eq : shapes.length = dtypes.length

def validateGroupSize {α : Type} (group : List α) (expected : Nat) (role : String) : Coded Unit :=
  if group.length ≠ expected then
    .error (.valueError (s!"MultiSerde {role} group length {group.length} does not " ++
      s!"match expected {expected}"))
  else .ok ()

/-- The blob is copied to the front of the destination, which must be large enough. -/
def writeBlob (name : String) (blob : Bytes) (dst : FlatTensor) : Coded (Nat × Bytes) :=
  if numel dst.val.shape < blob.length then
    .error (.valueError (s!"{name}: dst capacity {numel dst.val.shape} " ++
      s!"below required {blob.length}"))
  else .ok (blob.length, dst.val.data.assign 0 blob)

def scalesBytes (name : String) (codec : Codec) : Coded Nat :=
  match codec.scaleScope with
  | .perTensor => .ok codec.scaleDtype.itemsize
  | .external => .ok 0
  | scope => .error (.valueError (s!"{name}.estimate_serialized_size: " ++
      s!"scale_scope {scope.value} requires per-head/per-page metadata " ++
      "that MemoryLayoutDesc does not carry; only PER_TENSOR " ++
      "and EXTERNAL are supported here"))

def total : List Nat → Nat
  | [] => 0
  | n :: rest => n + total rest

def layoutBytes (layout : MemoryLayoutDesc) : Nat :=
  total ((layout.shapes.zip layout.dtypes).map fun group => numel group.1 * group.2.itemsize)

def layoutElements (layout : MemoryLayoutDesc) : Nat := total (layout.shapes.map numel)

def headerAllowance : Nat := 1024

namespace AsymK16V8MultiSerializer

def serialize (codec : Codec) (src : List (Option MemoryObj)) (dst : Destination) :
    Coded (Nat × Bytes) := do
  validateGroupSize src 2 "src"
  match src with
  | [some kObj, some vObj] =>
    match kObj.tensor, vObj.tensor with
    | some k, some v =>
      match dst.tensor with
      | none => .error (.valueError "AsymK16V8MultiSerializer: dst.tensor is None")
      | some dst =>
        let enc ← codec.encode torch k v
        let blob ← enc.toBytes
        writeBlob "AsymK16V8MultiSerializer" blob dst
    | _, _ => .error (.valueError
        "AsymK16V8MultiSerializer: src MemoryObjs must have tensors set")
  | _ => .error (.valueError ("AsymK16V8MultiSerializer (storage-only-dequant): both K " ++
      "and V must be provided"))

def estimateSerializedSize (codec : Codec) (layoutDescs : List (Option MemoryLayoutDesc)) :
    Coded Nat := do
  validateGroupSize layoutDescs 2 "layout"
  match layoutDescs with
  | [some kLayout, some vLayout] =>
    let scales ← scalesBytes "AsymK16V8MultiSerializer" codec
    return headerAllowance + layoutBytes kLayout + layoutElements vLayout + scales
  | _ => .error (.valueError ("AsymK16V8MultiSerializer.estimate_serialized_size " ++
      "(storage-only-dequant): both K and V layouts required"))

end AsymK16V8MultiSerializer

namespace AsymK16V8VOnlyMultiSerializer

def serialize (codec : Codec) (kDtypeTag : TorchDType) (src : List (Option MemoryObj))
    (dst : Destination) : Coded (Nat × Bytes) := do
  validateGroupSize src 2 "src"
  match src with
  | [none, vObj] =>
    match vObj.bind MemoryObj.tensor with
    | none => .error (.valueError ("AsymK16V8VOnlyMultiSerializer: V slot is required and " ++
        "must have a tensor set"))
    | some v =>
      match dst.tensor with
      | none => .error (.valueError "AsymK16V8VOnlyMultiSerializer: dst.tensor is None")
      | some dst =>
        let enc ← codec.encodeVOnly torch kDtypeTag v
        let blob ← enc.toBytes
        writeBlob "AsymK16V8VOnlyMultiSerializer" blob dst
  | _ => .error (.valueError ("AsymK16V8VOnlyMultiSerializer (split-tier): K slot must " ++
      "be None.  K stays in host RAM in this mode and is not written to the byte buffer.  Use " ++
      "AsymK16V8MultiSerializer for the self-contained (K, V) write path."))

def estimateSerializedSize (codec : Codec) (layoutDescs : List (Option MemoryLayoutDesc)) :
    Coded Nat := do
  validateGroupSize layoutDescs 2 "layout"
  match layoutDescs with
  | [none, some vLayout] =>
    let scales ← scalesBytes "AsymK16V8VOnlyMultiSerializer" codec
    return headerAllowance + layoutElements vLayout + scales
  | [none, none] => .error (.valueError
      "AsymK16V8VOnlyMultiSerializer.estimate_serialized_size: V layout is required")
  | _ => .error (.valueError ("AsymK16V8VOnlyMultiSerializer.estimate_serialized_size: " ++
      "K layout must be None — this mode does not write K bytes"))

end AsymK16V8VOnlyMultiSerializer

end LMCache.KVCodec
