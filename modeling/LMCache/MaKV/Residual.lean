import LMCache.MaKV.Entropy

/-!
# Quantization residuals

The manager can store, next to every bucket below 16 bits, what the bucket lost. A
descriptor in the metadata lists the residual payloads; a precision upgrade rebuilds the
source tensor from the quantized values plus the residuals.
-/

namespace LMCache.MaKV

open Lib

variable {F E W : Type} [PyRuntime F] [Float32Arithmetic W] [KvElement E W]

def residualVersion : Int := 1

def residualSemantics : String := "original_minus_dequantized"

def residualPayloadName (bits : Int) : String := "residual_" ++ toString bits

def ResidualDtype.stored : ResidualDtype → Option ScaleDtype
  | .none => .none
  | .float16 => some .float16
  | .float32 => some .float32

/-- The type that a descriptor names. -/
def residualTorchDtype (dtype : String) : Result ScaleDtype :=
  if dtype = "float16" then .ok .float16
  else if dtype = "float32" then .ok .float32
  else valueError ("unsupported MaKV residual dtype: '" ++ dtype ++ "'")

def residualShape (plan : Json F) (count : Int) : Result (List Int) := do
  let layout := (← plan.item "importance_layout").toText
  if layout = "token" then
    let numLayers ← (← plan.item "num_layers").toInt
    let numKvHeads ← (← plan.item "num_kv_heads").toInt
    let headDim ← (← plan.item "head_dim").toInt
    return [numLayers, 2, count, numKvHeads, headDim]
  if layout = "layer_kv_token" then
    let numKvHeads ← (← plan.item "num_kv_heads").toInt
    let headDim ← (← plan.item "head_dim").toInt
    return [count, numKvHeads, headDim]
  valueError ("unsupported MaKV residual layout: '" ++ layout ++ "'")

def intItems (value : Json F) : Result (List Int) := do
  let items ← value.iterate
  items.mapM Json.toInt

def countEntry (counts : Dict Int Int) (entry : Json F) : Result (Dict Int Int) := do
  rejectIf (!entry.isObject) "invalid MaKV bucket entry"
  let bit ← ((entry.get? "bits").getD (.int (-1))).toInt
  rejectIf (counts.contains bit) "duplicate MaKV bucket entry"
  let count ← ((entry.get? "count").getD (.int (-1))).toInt
  return counts.set bit count

def payloadOf (payloads : Payloads) (name : String) : Bytes := (payloads.get? name).getD []

/-- The check of one entry of the residual table; the widths seen so far are distinct. -/
def validateResidualEntry (plan : Json F) (payloads : Payloads) (expectedBits : List Int)
    (counts : Dict Int Int) (dtype : ScaleDtype) (seen : List Int) (entry : Json F) :
    Result (List Int) := do
  rejectIf (!entry.isObject) "invalid MaKV residual bucket entry"
  let bit ← ((entry.get? "bits").getD (.int (-1))).toInt
  rejectIf (bit = 16 || bit ∉ expectedBits || bit ∈ seen)
    "invalid or duplicate MaKV residual bucket"
  let count ← ((entry.get? "count").getD (.int (-1))).toInt
  rejectIf (count < 0) "MaKV residual bucket count must be non-negative"
  rejectIf (some count ≠ counts.get? bit) "MaKV residual bucket count mismatch"
  let shape ← intItems ((entry.get? "shape").getD (.arr []))
  let expectedShape ← residualShape plan count
  rejectIf (shape ≠ expectedShape) "MaKV residual shape mismatch"
  let elementCount ← ((entry.get? "element_count").getD (.int (-1))).toInt
  rejectIf (elementCount ≠ shape.prod) "MaKV residual element count mismatch"
  let name := ((entry.get? "payload_name").getD (.str "")).toText
  rejectIf (name ≠ residualPayloadName bit || !payloads.contains name)
    "MaKV residual payload is missing"
  rejectIf (((payloadOf payloads name).length : Int) ≠ shape.prod * dtype.size)
    "MaKV residual payload length mismatch"
  return seen ++ [bit]

def listItems (value : Option (Json F)) (message : String) : Result (List (Json F)) :=
  match value with
  | some (.arr items) => .ok items
  | _ => valueError message

/-- The descriptor that the metadata has; a missing one or `null` is none. -/
def residualDescriptor (metadata : Metadata F) : Option (Json F) :=
  match metadata.get? "residual" with
  | some .null => none
  | descriptor => descriptor

def checkResidualDescriptor (metadata : Metadata F) (payloads : Payloads) (descriptor : Json F) :
    Result Unit := do
  rejectIf (!descriptor.isObject) "MaKV residual metadata must be an object"
  let version ← ((descriptor.get? "version").getD (.int (-1))).toInt
  rejectIf (version ≠ residualVersion) "unsupported MaKV residual version"
  rejectIf (!((descriptor.get? "semantics").getD .null).equalsText residualSemantics)
    "unsupported MaKV residual semantics"
  let dtypeName := ((descriptor.get? "dtype").getD (.str "")).toText
  rejectIf (dtypeName ∉ ["float16", "float32"]) "MaKV residual dtype must be float16 or float32"
  let plan := (metadata.get? "plan").getD .null
  rejectIf (!plan.isObject) "MaKV residual metadata is missing its plan"
  rejectIf (((descriptor.get? "source_dtype").getD (.str "")).toText ≠
      ((plan.get? "original_dtype").getD (.str "")).toText)
    "MaKV residual source dtype mismatch"
  let bucketBits ← intItems ((plan.get? "bucket_bits").getD (.arr []))
  let bucketEntries ← listItems (metadata.get? "bucket_entries")
    "MaKV residual metadata is missing bucket entries"
  let counts ← bucketEntries.foldlM countEntry Dict.empty
  let entries ← listItems (descriptor.get? "buckets") "MaKV residual bucket table must be a list"
  let expectedBits := bucketBits.filter (· ≠ 16)
  let dtype ← residualTorchDtype dtypeName
  let seen ← entries.foldlM (validateResidualEntry plan payloads expectedBits counts dtype) []
  rejectIf (expectedBits.any (· ∉ seen))
    "MaKV residual buckets do not match the quantized buckets"

def validateResidualMetadata (metadata : Metadata F) (payloads : Payloads) : Result Unit :=
  match residualDescriptor metadata with
  | none => .ok ()
  | some descriptor => checkResidualDescriptor metadata payloads descriptor

def alignedPayload (payloads : Payloads) : GetPayload := fun name size => do
  rejectIf ((payloadOf payloads name).length % size ≠ 0)
    "MaKV residual payload is not aligned to its dtype"
  return payloadOf payloads name

def scaleDtypeOf (plan : Json F) : Result ScaleDtype := do
  let name := (← plan.item "scale_dtype").toText
  return if name = "float16" then .float16 else .float32

/-- The bytes of an element of the payload of a width. -/
def payloadItemSize (E : Type) [Storable E] (bits : Int) : Nat :=
  if bits = 2 ∨ bits = 4 ∨ bits = 8 then 1 else Storable.size E

def loadBucket (E : Type) [Storable E] (payloads : Payloads) (scaleDtype : ScaleDtype)
    (decoded : Dict Int Bytes) (result : Dict Int BucketTensors) (width : Json F) :
    Result (Dict Int BucketTensors) := do
  let bit ← width.toInt
  let positions ← alignedPayload payloads ("positions_" ++ toString bit) 4
  let payload ← alignedPayload payloads (payloadName bit) (payloadItemSize E bit)
  let scales ← alignedPayload payloads ("scales_" ++ toString bit) scaleDtype.size
  return result.set bit {
    positions := (positions.words 4).map signedOfBytes
    payload := (decoded.get? bit).getD payload
    scaleDtype := scaleDtype
    scales := scales.words scaleDtype.size }

/-- The tensors of the buckets, with optional arithmetic coding undone. -/
def loadPayloads (E : Type) [Storable E] (metadata : Metadata F) (payloads : Payloads) :
    Result (Dict Int BucketTensors) := do
  let plan := (metadata.get? "plan").getD .null
  rejectIf (!plan.isObject) "MaKV object is missing its plan"
  let scaleDtype ← scaleDtypeOf plan
  let decoded ← decodeEntropyPayloads metadata (alignedPayload payloads)
  let widths ← (← plan.item "bucket_bits").iterate
  widths.foldlM (loadBucket E payloads scaleDtype decoded) Dict.empty

/-- `payload.reshape(shape)`: the rows of the last dimension. -/
def reshapeRows {α : Type} (values : List α) (shape : List Int) : Result (List (List α)) := do
  raiseIf .runtimeError (shape.any (· < 0) || (values.length : Int) ≠ shape.prod)
    "shape is invalid for input of size"
  return rowsOf (shape.dropLast.prod).toNat (shape.getLastD 0).toNat values

def decodeBucketValues (E : Type) [KvElement E W] (bit : Int) (tensors : BucketTensors)
    (shape : List Int) (headDim : Int) : Result (List (List W)) := do
  let rows := shape.dropLast.prod
  if bit = 16 then
    let elements : List E := Storable.load tensors.payload
    rejectIf ((elements.length : Int) ≠ shape.prod) "MaKV 16-bit payload element count mismatch"
    let values ← reshapeRows elements shape
    return values.map fun row => row.map KvElement.widen
  if bit = 8 then
    rejectIf ((tensors.payload.length : Int) ≠ shape.prod)
      "MaKV INT8 payload element count mismatch"
    rejectIf ((tensors.scales.length : Int) ≠ rows) "MaKV INT8 scale count mismatch"
    let codes ← reshapeRows (tensors.payload.map fun b => signedOfBytes [b]) shape
    return List.zipWith (fun scale row => row.map (scaled tensors.scaleDtype scale))
      tensors.scales codes
  rejectIf (bit ≠ 2 && bit ≠ 4) s!"unsupported MaKV bucket width: {bit}"
  rejectIf ((tensors.payload.length : Int) ≠ rows * rowBytes bit.toNat headDim.toNat)
    s!"MaKV INT{bit} payload length mismatch"
  rejectIf ((tensors.scales.length : Int) ≠ rows) s!"MaKV INT{bit} scale count mismatch"
  raiseIf .runtimeError (shape.any (· < 0)) "shape is invalid for input of size"
  if rows = 0 then return []
  let codes ← unpackLowBit tensors.payload rows.toNat headDim.toNat bit
  return List.zipWith (fun scale row => row.map (scaled tensors.scaleDtype scale))
    tensors.scales codes

def seenPositions (limit : Int) (kind : String) (seen positions : List Int) :
    Result (List Int) := do
  rejectIf (positions.any fun value => value < 0 || limit ≤ value)
    ("MaKV " ++ kind ++ " position is out of range")
  rejectIf (!(seen ++ positions).Nodup) ("MaKV " ++ kind ++ " positions overlap")
  return seen ++ positions

def addResidual (payloads : Payloads) (residual : Option (ScaleDtype × Dict Int (Json F)))
    (bit : Int) (shape : List Int) (values : List (List W)) : Result (List (List W)) :=
  match residual with
  | none => .ok values
  | some (dtype, entries) => do
    if bit = 16 then return values
    let entry ← match entries.get? bit with
      | some entry => .ok entry
      | none => valueError "MaKV residual payload is missing for a bucket"
    let name := (← entry.item "payload_name").toText
    let data ← alignedPayload payloads name dtype.size
    let added ← reshapeRows ((data.words dtype.size).map (Float32Arithmetic.ofStored dtype)) shape
    return List.zipWith (List.zipWith Float32Arithmetic.add) values added

/-- The rows with the values of a bucket written at its positions. -/
def scatterBucket (dims : PlanDims) (layout : String) (positions : List Int)
    (values : List (List E)) (out : KvRows E) : KvRows E :=
  let heads := dims.numKvHeads.toNat
  positions.zipIdx.foldl (fun out p =>
    if layout = "token" then writeToken heads positions.length values p.2 p.1.toNat out
    else
      let rest := p.1 % (2 * dims.chunkLength)
      writeEntry heads values p.2 (rest / dims.chunkLength).toNat
        (p.1 / (2 * dims.chunkLength)).toNat (rest % dims.chunkLength).toNat out) out

structure Reconstruction (E : Type) where
  rows : KvRows E
  seen : List Int

def reconstructBucket (plan : Json F) (payloads : Payloads) (dims : PlanDims) (layout : String)
    (expectedPositions : Int) (residual : Option (ScaleDtype × Dict Int (Json F)))
    (tensorsByBit : Dict Int BucketTensors) (acc : Reconstruction E) (width : Json F) :
    Result (Reconstruction E) := do
  let bit ← width.toInt
  let tensors ← match tensorsByBit.get? bit with
    | some tensors => .ok tensors
    | none => raise .keyError (toString bit)
  let shape ← residualShape plan tensors.positions.length
  let seen ← seenPositions expectedPositions (if layout = "token" then "token" else "layer/KV")
    acc.seen tensors.positions
  let values ← decodeBucketValues E bit tensors shape dims.headDim
  let values ← addResidual payloads residual bit shape values
  let restored := values.map fun row => row.map KvElement.narrow
  return ⟨scatterBucket dims layout tensors.positions restored acc.rows, seen⟩

/-- The entries of the residual table by width, with their type. -/
def residualByBit (metadata : Metadata F) : Result (Option (ScaleDtype × Dict Int (Json F))) :=
  match metadata.get? "residual" with
  | some (.obj members) => do
    let descriptor : Json F := .obj members
    let entries ← ((descriptor.get? "buckets").getD (.arr [])).iterate
    let byBit ← entries.foldlM (fun (d : Dict Int (Json F)) entry => do
      let bit ← (← entry.item "bits").toInt
      return d.set bit entry) Dict.empty
    let dtype ← residualTorchDtype (← descriptor.item "dtype").toText
    return some (dtype, byBit)
  | _ => .ok none

/-- Rebuild the source tensor from the quantized values plus the residuals. -/
def reconstructWithResidual (E : Type) [KvElement E W] (metadata : Metadata F)
    (payloads : Payloads) : Result (Tensor E) := do
  validateResidualMetadata metadata payloads
  let plan := (metadata.get? "plan").getD .null
  rejectIf (!plan.isObject) "MaKV object is missing its plan"
  let dims ← PlanDims.ofPlan plan
  let output ← zeroRows dims
  let tensorsByBit ← loadPayloads E metadata payloads
  let residual ← residualByBit metadata
  let layout := (← plan.item "importance_layout").toText
  let expectedPositions :=
    if layout = "token" then dims.chunkLength else dims.numLayers * 2 * dims.chunkLength
  let widths ← (← plan.item "bucket_bits").iterate
  let result ← widths.foldlM (reconstructBucket plan payloads dims layout expectedPositions residual
    tensorsByBit) ⟨output, []⟩
  rejectIf ((result.seen.length : Int) ≠ expectedPositions)
    "MaKV bucket positions do not cover the KV object"
  return result.rows.tensor dims

end LMCache.MaKV
