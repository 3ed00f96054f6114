import LMCache.Lib.Words
import LMCache.MaKV.Plan

/-!
# Reference dequantization

A bucket holds the positions of its vectors, their codes and one scale for every vector. The
reference restore decodes the vectors of every bucket and writes them at their positions.
The arithmetic of the elements of the tensor and of `float32` is a parameter; everything
that moves vectors between tensors and payloads is not.
-/

namespace LMCache.MaKV

open Lib

/-- The bytes of one element of a stored floating point type. -/
def ScaleDtype.size : ScaleDtype → Nat
  | .float16 => 2
  | .float32 => 4

/-- The arithmetic of `float32`, and its conversions to and from stored elements. -/
class Float32Arithmetic (W : Type) where
  ofCode : Int → W
  mul : W → W → W
  add : W → W → W
  sub : W → W → W
  toStored : ScaleDtype → W → Bytes
  ofStored : ScaleDtype → Bytes → W
  length_toStored : ∀ dtype w, (toStored dtype w).length = dtype.size

/-- The elements of a KV tensor, with `W` as their `float32`. The scale of a vector is its
largest magnitude divided by the largest code, or one where the vector is zero; the codes
are the rounded quotients by the scale, clamped by the quantizer. -/
class KvElement (E : Type) (W : outParam Type) extends Storable E where
  zero : E
  temporaryScale : Nat → List E → E
  roundQuotient : E → E → Int
  scaleBytes : ScaleDtype → E → Bytes
  widen : E → W
  narrow : W → E
  length_scaleBytes : ∀ dtype e, (scaleBytes dtype e).length = dtype.size

variable {F E W : Type} [PyRuntime F] [Float32Arithmetic W] [KvElement E W]

def scaled (dtype : ScaleDtype) (scale : Bytes) (code : Int) : W :=
  Float32Arithmetic.mul (Float32Arithmetic.ofCode code) (Float32Arithmetic.ofStored dtype scale)

/-- `_unpack_low_bit`: the codes of the rows of a packed payload. -/
def unpackLowBit (packed : Bytes) (logicalCount headDim : Nat) (bits : Int) :
    Result (List (List Int)) := do
  rejectIf (bits ≠ 2 && bits ≠ 4) s!"Unsupported packed MaKV width: {bits}"
  let bytesPerRow := rowBytes bits.toNat headDim
  raiseIf .runtimeError (packed.length ≠ logicalCount * bytesPerRow)
    "shape is invalid for input of size"
  -- the size that stands as `-1` in the shape of the fields cannot be inferred
  raiseIf .runtimeError (logicalCount = 0) "cannot reshape tensor of 0 elements"
  return (rowsOf logicalCount bytesPerRow packed).map (unpackRow bits.toNat headDim)

def signedRows (payload : Bytes) (rows headDim : Nat) : List (List Int) :=
  (rowsOf rows headDim payload).map fun row => row.map fun b => signedOfBytes [b]

structure BucketTensors where
  positions : List Int
  payload : Bytes
  scaleDtype : ScaleDtype
  scales : List Bytes

/-- The codes of the vectors of a bucket below 16 bits, viewed as rows. -/
def bucketCodes (bits : Int) (payload : Bytes) (rows headDim : Nat) : Result (List (List Int)) := do
  if bits = 8 then
    raiseIf .runtimeError (payload.length ≠ rows * headDim) "shape is invalid for input of size"
    return signedRows payload rows headDim
  else unpackLowBit payload rows headDim bits

/-- `dequantize_bucket_vectors` in `float32`, of a bucket below 16 bits. -/
def dequantizeBucketVectors (payload : Bytes) (dtype : ScaleDtype) (scales : List Bytes)
    (bits : Int) (rows lastDim headDim : Nat) : Result (List (List W)) := do
  rejectIf (lastDim ≠ headDim) "vector_shape must end in head_dim"
  rejectIf (bits ≠ 2 && bits ≠ 4 && bits ≠ 8) s!"Unsupported MaKV dequantization width: {bits}"
  let codes ← bucketCodes bits payload rows headDim
  raiseIf .runtimeError (scales.length ≠ rows) "shape is invalid for input of size"
  return List.zipWith (fun scale row => row.map (scaled dtype scale)) scales codes

structure PlanDims where
  numLayers : Int
  numKvHeads : Int
  headDim : Int
  chunkLength : Int

def PlanDims.ofPlan (plan : Json F) : Result PlanDims := do
  let numLayers ← (← plan.item "num_layers").toInt
  let numKvHeads ← (← plan.item "num_kv_heads").toInt
  let headDim ← (← plan.item "head_dim").toInt
  let chunkLength ← (← plan.item "chunk_length").toInt
  return ⟨numLayers, numKvHeads, headDim, chunkLength⟩

/-- The rows of the restored tensor by plane, layer and token. -/
abbrev KvRows (E : Type) := Nat → Nat → Nat → List E

/-- `torch.zeros((2, num_layers, chunk_length, num_heads * head_dim))`. -/
def zeroRows (dims : PlanDims) : Result (KvRows E) := do
  raiseIf .runtimeError
    (dims.numLayers < 0 || dims.chunkLength < 0 || dims.numKvHeads * dims.headDim < 0)
    "Trying to create tensor with negative dimension"
  return fun _ _ _ => List.replicate (dims.numKvHeads * dims.headDim).toNat KvElement.zero

def KvRows.tensor (rows : KvRows E) (dims : PlanDims) : Tensor E :=
  Tensor.ofFn [2, dims.numLayers.toNat, dims.chunkLength.toNat,
      (dims.numKvHeads * dims.headDim).toNat] fun index =>
    match index with
    | [plane, layer, token, column] => (rows plane layer token).getD column KvElement.zero
    | _ => KvElement.zero

/-- An index of a dimension; negative ones count from the end. -/
def resolveIndex (size : Nat) (index : Int) : Result Nat :=
  if 0 ≤ index ∧ index < size then .ok index.toNat
  else if -size ≤ index ∧ index < 0 then .ok (index + size).toNat
  else raise .indexError "index is out of bounds"

/-- The vectors of one group of heads, side by side. -/
def groupRow (heads : Nat) (values : List (List E)) (group : Nat) : List E :=
  ((values.drop (group * heads)).take heads).flatten

/-- `output[:, :, token, :] = values[:, :, idx]`, with the values by layer, plane and index. -/
def writeToken (heads count : Nat) (values : List (List E)) (idx token : Nat) (out : KvRows E) :
    KvRows E := fun plane layer t =>
  if t = token then groupRow heads values ((layer * 2 + plane) * count + idx) else out plane layer t

/-- `output[kv, layer, token, :] = values[idx]`. -/
def writeEntry (heads : Nat) (values : List (List E)) (idx kv layer token : Nat) (out : KvRows E) :
    KvRows E := fun plane l t =>
  if plane = kv ∧ l = layer ∧ t = token then groupRow heads values idx else out plane l t

def bucketValues (bits : Int) (tensors : BucketTensors) (dims : PlanDims) (groups : Nat) :
    Result (List (List E)) := do
  raiseIf .runtimeError (dims.numKvHeads < 0 || dims.headDim < 0) "invalid shape dimension"
  let rows := groups * dims.numKvHeads.toNat
  let headDim := dims.headDim.toNat
  if bits = 16 then
    let elements := Storable.load tensors.payload
    raiseIf .runtimeError (elements.length ≠ rows * headDim) "shape is invalid for input of size"
    return rowsOf rows headDim elements
  else
    let codes ← bucketCodes bits tensors.payload rows headDim
    raiseIf .runtimeError (tensors.scales.length ≠ rows) "shape is invalid for input of size"
    return List.zipWith
      (fun scale row => row.map fun q => KvElement.narrow (scaled tensors.scaleDtype scale q))
      tensors.scales codes

def restoreTokens (dims : PlanDims) (values : List (List E)) (count : Nat) (out : KvRows E)
    (position : Int × Nat) : Result (KvRows E) := do
  let token ← resolveIndex dims.chunkLength.toNat position.1
  return writeToken dims.numKvHeads.toNat count values position.2 token out

/-- Floor division of a flat position into layer, plane and token. -/
def restoreEntries (dims : PlanDims) (values : List (List E)) (out : KvRows E)
    (position : Int × Nat) : Result (KvRows E) := do
  raiseIf .zeroDivisionError (dims.chunkLength = 0) "integer division or modulo by zero"
  let rest := position.1.fmod (2 * dims.chunkLength)
  let layer ← resolveIndex dims.numLayers.toNat (position.1.fdiv (2 * dims.chunkLength))
  let kv ← resolveIndex 2 (rest.fdiv dims.chunkLength)
  let token ← resolveIndex dims.chunkLength.toNat (rest.fmod dims.chunkLength)
  return writeEntry dims.numKvHeads.toNat values position.2 kv layer token out

def restoreBucket (dims : PlanDims) (layout : String) (out : KvRows E)
    (bucket : Int × BucketTensors) : Result (KvRows E) := do
  let positions := bucket.2.positions
  if positions.isEmpty then return out
  if layout = "token" then
    let values ← bucketValues bucket.1 bucket.2 dims (dims.numLayers.toNat * 2 * positions.length)
    positions.zipIdx.foldlM (restoreTokens dims values positions.length) out
  else
    let values ← bucketValues bucket.1 bucket.2 dims positions.length
    positions.zipIdx.foldlM (restoreEntries dims values) out

/-- Restore a canonical KV tensor from MaKV buckets. -/
def dequantizeReference (plan : Json F) (bucketPayloads : Dict Int BucketTensors) :
    Result (Tensor E) := do
  let dims ← PlanDims.ofPlan plan
  let output ← zeroRows dims
  let layout := (← plan.item "importance_layout").toText
  let rows ← bucketPayloads.entries.foldlM (restoreBucket dims layout) output
  return rows.tensor dims

end LMCache.MaKV
