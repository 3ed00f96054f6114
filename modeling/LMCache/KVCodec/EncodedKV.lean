import LMCache.Lib.Digests
import LMCache.Lib.Cursor

/-!
# The encoded KV format

A blob is a header and a payload. The header has a fixed part with the dtypes, the scale scope
and the layout, then the scale shape, the three payload lengths, the hash strings by name and
the check of the payload; the payload has the bytes of K, of V and of the scales. The reader
takes the header apart from the front and leaves alone what follows the payload.
-/

namespace LMCache.KVCodec

open Lib

inductive CodecError
  /-- `CorruptEncodedKVError`. -/
  | corrupt (message : String)
  /-- `CorruptEncodedKVError` with a text the interpreter makes of the bytes. -/
  | corruptBytes (message : String) (shown : Bytes)
  /-- `UnsupportedConfigError`. -/
  | unsupportedConfig (message : String)
  /-- `struct.error`. -/
  | structError (message : String)
  | valueError (message : String)
  | indexError (message : String)
  /-- An exception of torch. -/
  | torchError (message : String)
  deriving DecidableEq, Repr

abbrev Coded (α : Type) := Except CodecError α

def corrupt {α : Type} (message : String) : Coded α := .error (.corrupt message)

def unsupportedConfig {α : Type} (message : String) : Coded α := .error (.unsupportedConfig message)

inductive TorchDType
  | float16
  | bfloat16
  | float32
  | float64
  | uint8
  | float8E4m3fn
  | float8E5m2
  | other (name : String) (itemsize : Nat)
  deriving DecidableEq, Repr

namespace TorchDType

def name : TorchDType → String
  | float16 => "torch.float16"
  | bfloat16 => "torch.bfloat16"
  | float32 => "torch.float32"
  | float64 => "torch.float64"
  | uint8 => "torch.uint8"
  | float8E4m3fn => "torch.float8_e4m3fn"
  | float8E5m2 => "torch.float8_e5m2"
  | other name _ => name

def itemsize : TorchDType → Nat
  | float16 | bfloat16 => 2
  | float32 => 4
  | float64 => 8
  | uint8 | float8E4m3fn | float8E5m2 => 1
  | other _ itemsize => itemsize

end TorchDType

/-- `DTYPE_TO_INT`; `torch.half` is `torch.float16`, whose later entry counts. -/
def dtypeToInt : Option TorchDType → Coded Nat
  | none => .ok 0
  | some .float16 => .ok 2
  | some .bfloat16 => .ok 3
  | some .float32 => .ok 4
  | some .float64 => .ok 5
  | some .uint8 => .ok 6
  | some .float8E4m3fn => .ok 7
  | some .float8E5m2 => .ok 8
  | some (.other name _) => unsupportedConfig s!"dtype {name} not in protocol DTYPE_TO_INT mapping"

def intToDtype : Nat → Coded (Option TorchDType)
  | 0 => .ok none
  | 1 => .ok (some .float16)
  | 2 => .ok (some .float16)
  | 3 => .ok (some .bfloat16)
  | 4 => .ok (some .float32)
  | 5 => .ok (some .float64)
  | 6 => .ok (some .uint8)
  | 7 => .ok (some .float8E4m3fn)
  | 8 => .ok (some .float8E5m2)
  | idx => corrupt s!"unknown dtype index {idx} in encoded header"

inductive ScaleScope
  | perTensor
  | perLayerHead
  | perPageHead
  | external
  deriving DecidableEq, Repr

def ScaleScope.value : ScaleScope → Nat
  | perTensor => 0
  | perLayerHead => 1
  | perPageHead => 2
  | external => 3

def ScaleScope.ofValue : Nat → Coded ScaleScope
  | 0 => .ok .perTensor
  | 1 => .ok .perLayerHead
  | 2 => .ok .perPageHead
  | 3 => .ok .external
  | idx => corrupt s!"unknown scale_scope index {idx} in encoded header"

structure CodecHashes where
  modelId : String
  modelRevisionHash : String
  tokenizerHash : String
  ropeConfigHash : String
  attentionBackend : String
  kvLayout : String
  deriving DecidableEq, Repr

namespace CodecHashes

def default : CodecHashes := ⟨"", "", "", "", "", ""⟩

def checkOrder : List String :=
  ["model_id", "model_revision_hash", "tokenizer_hash", "rope_config_hash",
    "attention_backend", "kv_layout"]

/-- The names of `_CHECK_ORDER` with their values. -/
def pairs (h : CodecHashes) : List (String × String) :=
  checkOrder.zip [h.modelId, h.modelRevisionHash, h.tokenizerHash, h.ropeConfigHash,
    h.attentionBackend, h.kvLayout]

/-- `setattr` for a name of `_CHECK_ORDER`; other names are skipped. -/
def set (h : CodecHashes) (key val : String) : CodecHashes :=
  if key = "model_id" then { h with modelId := val }
  else if key = "model_revision_hash" then { h with modelRevisionHash := val }
  else if key = "tokenizer_hash" then { h with tokenizerHash := val }
  else if key = "rope_config_hash" then { h with ropeConfigHash := val }
  else if key = "attention_backend" then { h with attentionBackend := val }
  else if key = "kv_layout" then { h with kvLayout := val }
  else h

end CodecHashes

structure EncodedKV where
  kDtype : Option TorchDType
  vDtype : Option TorchDType
  scaleDtype : Option TorchDType
  scaleScope : ScaleScope
  hashes : CodecHashes
  layerId : Int
  chunkId : Int
  chunkSize : Int
  pageSize : Int
  kvHeadCount : Int
  headDim : Int
  scaleShape : List Int
  kPayloadLen : Int
  vPayloadLen : Int
  scalePayloadLen : Int
  payload : Bytes
  headerBytes : Option Bytes
  deriving DecidableEq

def EncodedKV.expectedPayloadLen (enc : EncodedKV) : Int :=
  enc.kPayloadLen + enc.vPayloadLen + enc.scalePayloadLen

/-- The bytes `LMCKV` and the version triplet. -/
def codecMagic : Bytes := [76, 77, 67, 75, 86, 1, 0, 1]

def codecVersionV1 : Nat := 1

def fixedHeaderLen : Nat := 76

def packH (n : Nat) : Coded Bytes :=
  if n < 2 ^ 16 then .ok (Bytes.toLE 2 n)
  else .error (.structError "'H' format requires 0 <= number <= 65535")

def packQ (n : Int) : Coded Bytes :=
  if -2 ^ 63 ≤ n ∧ n < 2 ^ 63 then .ok (signedBytes 8 n)
  else .error (.structError "int too large to convert")

def packStr (s : String) : Coded Bytes :=
  let encoded := Bytes.encodeUtf8 s.toList
  if 0xFFFF < encoded.length then
    unsupportedConfig s!"hash string longer than 65535 bytes: {encoded.length}"
  else do
    let length ← packH encoded.length
    return length ++ encoded

def packPair (pair : String × String) : Coded Bytes := do
  let key ← packStr pair.1
  let val ← packStr pair.2
  return key ++ val

/-- `zlib.crc32(payload) & 0xFFFFFFFF`. -/
def payloadCrc (payload : Bytes) : Nat := crc32 payload 0 % 2 ^ 32

def serializeHeader (enc : EncodedKV) : Coded Bytes := do
  if (enc.payload.length : Int) ≠ enc.expectedPayloadLen then
    unsupportedConfig (s!"payload length {enc.payload.length} does not match " ++
      s!"declared K({enc.kPayloadLen}) + V({enc.vPayloadLen}) " ++
      s!"+ scales({enc.scalePayloadLen})")
  else
    let kDtype ← dtypeToInt enc.kDtype
    let vDtype ← dtypeToInt enc.vDtype
    let scaleDtype ← dtypeToInt enc.scaleDtype
    let shorts ← [codecVersionV1, enc.scaleScope.value, kDtype, vDtype, scaleDtype, 0].mapM packH
    let layout ← [enc.layerId, enc.chunkId, enc.chunkSize, enc.pageSize, enc.kvHeadCount,
      enc.headDim, enc.scaleShape.length].mapM packQ
    let scaleShape ← enc.scaleShape.mapM packQ
    let payloadLens ← [enc.kPayloadLen, enc.vPayloadLen, enc.scalePayloadLen].mapM packQ
    let hashCount ← packH enc.hashes.pairs.length
    let hashBlob ← enc.hashes.pairs.mapM packPair
    return codecMagic ++ (shorts.flatten ++ (layout.flatten ++ (scaleShape.flatten ++
      (payloadLens.flatten ++ (hashCount ++ (hashBlob.flatten ++
        Bytes.toLE 4 (payloadCrc enc.payload)))))))

/-- A field of format `H` at an offset inside the buffer. -/
def readH (buf : Bytes) (off : Nat) : Nat := Bytes.ofLE (buf.slice off 2)

/-- A field of format `q` at an offset inside the buffer. -/
def readQ (buf : Bytes) (off : Nat) : Int := signedOfBytes (buf.slice off 8)

def unpackStr (buf : Bytes) (off : Nat) : Coded (String × Nat) :=
  if buf.length < off + 2 then corrupt s!"truncated string-length field at offset {off}"
  else
    let length := readH buf off
    let start := off + 2
    if buf.length < start + length then
      corrupt (s!"string at offset {start} declares length {length} but only " ++
        s!"{buf.length - start} bytes remain")
    else
      match Bytes.decodeUtf8 (buf.slice start length) with
      | none => .error (.corruptBytes s!"non-utf-8 bytes in string field at offset {start}"
          (buf.slice start length))
      | some cs => .ok (String.ofList cs, start + length)

def readHashes (buf : Bytes) : Nat → Nat → CodecHashes → Coded (CodecHashes × Nat)
  | 0, off, hashes => .ok (hashes, off)
  | n + 1, off, hashes => do
    let (key, off) ← unpackStr buf off
    let (val, off) ← unpackStr buf off
    readHashes buf n off (hashes.set key val)

def readScaleShape (buf : Bytes) (n : Nat) : List Int :=
  (List.range n).map fun i => readQ buf (fixedHeaderLen + 8 * i)

/-- The format `#x`. -/
def hexText (n : Nat) : String := "0x" ++ String.ofList (Nat.toDigits 16 n)

/-- The checks of the payload and of the indices in the fixed header, which come last. -/
def deserializePayload (buf : Bytes) (scaleShape : List Int) (lens : Int × Int × Int)
    (hashes : CodecHashes) (off : Nat) : Coded EncodedKV :=
  let expectedPayload := lens.1 + lens.2.1 + lens.2.2
  if (buf.length : Int) < off + expectedPayload then
    corrupt (s!"buffer truncated mid-payload: header ends at {off}, " ++
      s!"declared payload = {expectedPayload}, buffer total " ++
      s!"= {buf.length}")
  else
    let crcDeclared := Bytes.ofLE (buf.slice (off - 4) 4)
    let payload := sliceOf buf off (off + expectedPayload)
    let crcComputed := payloadCrc payload
    if crcComputed ≠ crcDeclared then
      corrupt (s!"payload CRC mismatch: declared {hexText crcDeclared}, " ++
        s!"computed {hexText crcComputed}")
    else do
      let scaleScope ← ScaleScope.ofValue (readH buf 10)
      let kDtype ← intToDtype (readH buf 12)
      let vDtype ← intToDtype (readH buf 14)
      let scaleDtype ← intToDtype (readH buf 16)
      return {
        kDtype, vDtype, scaleDtype, scaleScope, hashes
        layerId := readQ buf 20
        chunkId := readQ buf 28
        chunkSize := readQ buf 36
        pageSize := readQ buf 44
        kvHeadCount := readQ buf 52
        headDim := readQ buf 60
        scaleShape
        kPayloadLen := lens.1
        vPayloadLen := lens.2.1
        scalePayloadLen := lens.2.2
        payload
        headerBytes := some (buf.take off) }

def deserializeHeader (buf : Bytes) : Coded EncodedKV :=
  if buf.length < fixedHeaderLen then
    corrupt s!"buffer too short for fixed header: {buf.length} < {fixedHeaderLen}"
  else if buf.slice 0 8 ≠ codecMagic then
    .error (.corruptBytes "bad magic" (buf.slice 0 8))
  else if readH buf 8 ≠ codecVersionV1 then
    corrupt (s!"unsupported codec version {readH buf 8}; this build supports " ++
      s!"{codecVersionV1}")
  else
    let scaleShapeN := readQ buf 68
    if scaleShapeN < 0 ∨ 8 < scaleShapeN then
      corrupt s!"implausible scale_shape_n: {scaleShapeN}"
    else
      let n := scaleShapeN.toNat
      let off := fixedHeaderLen
      if buf.length < off + 8 * n then
        corrupt s!"buffer too short for scale_shape: need {8 * n} bytes"
      else
        let off := off + 8 * n
        if buf.length < off + 24 then corrupt "truncated payload-lengths field"
        else
          let lens := (readQ buf off, readQ buf (off + 8), readQ buf (off + 16))
          let off := off + 24
          if buf.length < off + 2 then corrupt "truncated hashes-count field"
          else do
            let (hashes, off) ← readHashes buf (readH buf off) (off + 2) .default
            if buf.length < off + 4 then corrupt "truncated CRC field"
            else deserializePayload buf (readScaleShape buf n) lens hashes (off + 4)

def EncodedKV.decodeSlices (enc : EncodedKV) : Bytes × Bytes × Bytes :=
  let vOff := enc.kPayloadLen
  let sOff := vOff + enc.vPayloadLen
  (sliceOf enc.payload 0 vOff, sliceOf enc.payload vOff sOff,
    sliceOf enc.payload sOff enc.payload.length)

end LMCache.KVCodec
