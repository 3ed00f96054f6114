import LMCache.MaKV.Manager

/-!
# The client side of MaKV

The serializer wraps a KV tensor in a PUT envelope, with a plan or, where there is none, as
it is. The deserializer turns what a GET returned back into a tensor, or checks that a
quantized object belongs to this model and leaves its restoration for later. A plan of the
request is a parameter: no plan at all, a plan, or the exception of its builder.
-/

namespace LMCache.MaKV

open Lib

variable {F : Type} [PyFloat F] [Sha256]

/-- A group of layers with the same structure. -/
structure KernelGroupInfo where
  kvSize : Nat
  numLayers : Nat
  hiddenDimSize : Nat

/-- `(num_layer, 2, chunk_size, num_kv_head, head_size)`. -/
structure KvShape where
  numLayers : Nat
  kvSize : Nat
  chunkTokens : Nat
  numKvHeads : Nat
  headSize : Nat

structure LMCacheMetadata where
  modelName : String
  worldSize : Int
  workerId : Int
  kvDtype : String
  kvShape : KvShape
  chunkSize : Nat
  kernelGroups : Option (List KernelGroupInfo)

/-- The shapes of a KV cache of so many tokens; without a number, of a full chunk. -/
def LMCacheMetadata.getShapes (metadata : LMCacheMetadata) (numTokens : Option Nat) :
    List (List Nat) :=
  let tokens := numTokens.getD metadata.chunkSize
  match metadata.kernelGroups with
  | some (group :: groups) =>
    (group :: groups).map fun g => [g.kvSize, g.numLayers, tokens, g.hiddenDimSize]
  | _ =>
    [[metadata.kvShape.kvSize, metadata.kvShape.numLayers, tokens,
      metadata.kvShape.numKvHeads * metadata.kvShape.headSize]]

/-- `str(error)`; that of a missing key quotes the key. -/
def errorText (e : PyException) : String :=
  if e.kind = .keyError then "'" ++ e.message ++ "'" else e.message

/-- Why the tensor is sent without a plan, where it is. -/
def fallbackReason : Option (Result MaKVQuantPlan) → Option String
  | none => some "missing_importance"
  | some (.error e) =>
    if e.kind = .keyError ∨ e.kind = .typeError ∨ e.kind = .valueError then
      some ("invalid_plan:" ++ errorText e)
    else none
  | some (.ok _) => none

/-- `MaKVSerializer.serialize`, with the bytes of the tensor. -/
def serialize (config : MaKVConfig F) (key : String) (raw : Bytes) (requestTokenCount : Json F)
    (planned : Option (Result MaKVQuantPlan)) : Result Bytes :=
  match fallbackReason planned with
  | some reason =>
    if config.fallback = .naive then
      encodeClientPutEnvelope key "naive_fallback" .null raw
        (Dict.empty.set "fallback_reason" (.str reason) : Metadata F)
    else
      match planned with
      | some (.error e) => .error e
      | _ => valueError "MaKV importance is missing and makv_fallback=miss"
  | none =>
    match planned with
    | some (.ok plan) =>
      encodeClientPutEnvelope key "raw_with_plan" (planJson plan) raw
        (Dict.empty.set "request_token_count" requestTokenCount)
    | some (.error e) => .error e
    | none => valueError "MaKV importance is missing and makv_fallback=miss"

/-- `torch.frombuffer(bytearray(raw), dtype=...)`. -/
def frombuffer (E : Type) [Storable E] (raw : Bytes) : Result (List E) := do
  rejectIf raw.isEmpty "both buffer length (0) and count (-1) must not be 0"
  rejectIf (raw.length % Storable.size E ≠ 0) "buffer length must be a multiple of element size"
  return Storable.load raw

/-- `values.view(shape)`. -/
def viewAs {E : Type} (values : List E) (shape : List Nat) : Result (Tensor E) :=
  if h : values.length = shape.prod then .ok ⟨shape, values, h⟩
  else raise .runtimeError "shape is invalid for input of size"

def LMCacheMetadata.geometry (metadata : LMCacheMetadata) : List Int :=
  [metadata.kvShape.numLayers, metadata.kvShape.numKvHeads, metadata.kvShape.headSize]

def checkQuantized (metadata : LMCacheMetadata) (config : MaKVConfig F) (object : MaKVObject F) :
    Result Unit := do
  let plan := (object.metadata.get? "plan").getD .null
  rejectIf (!plan.isObject) "MaKV object is missing its quantization plan"
  let expectedModel := modelFingerprint metadata.modelName metadata.kvShape.numLayers
    metadata.kvShape.numKvHeads metadata.kvShape.headSize
  let expectedParallel := parallelFingerprint metadata.worldSize metadata.workerId
  rejectIf (!((plan.get? "model_fingerprint").getD .null).equalsText expectedModel)
    "MaKV model fingerprint mismatch"
  rejectIf (!((plan.get? "parallel_fingerprint").getD .null).equalsText expectedParallel)
    "MaKV parallel fingerprint mismatch"
  rejectIf (!((plan.get? "original_dtype").getD .null).equalsText metadata.kvDtype)
    "MaKV dtype metadata mismatch"
  rejectIf (textOr plan "precision_scheme" "shared" ≠ config.precisionScheme.text)
    "MaKV precision scheme metadata mismatch"
  let bucketBits ← intItems ((plan.get? "bucket_bits").getD (.arr []))
  rejectIf (bucketBits ≠ config.bucketBits) "MaKV bucket bit metadata mismatch"
  let numLayers ← intItem plan "num_layers"
  let numKvHeads ← intItem plan "num_kv_heads"
  let headDim ← intItem plan "head_dim"
  rejectIf ([numLayers, numKvHeads, headDim] ≠ metadata.geometry) "MaKV KV geometry mismatch"

inductive Deserialized (F E : Type)
  | tensor (t : Tensor E)
  | quantized (object : MaKVObject F)

/-- `MaKVDeserializer.deserialize`, with `E` as the element type of the KV cache. -/
def deserialize (E : Type) [Storable E] (metadata : LMCacheMetadata) (config : MaKVConfig F)
    (data : Bytes) (checksumVerified : Bool) : Result (Deserialized F E) := do
  let object : MaKVObject F ← decodeMakvObject data false (!checksumVerified)
  if object.objectType = "naive_fallback" then
    let rawBytes ← match object.payloads.get? "raw_kv_payload" with
      | some payload => .ok payload.toBytes
      | none => raise .keyError "raw_kv_payload"
    let values ← frombuffer E rawBytes
    let tensor ← viewAs values ((metadata.getShapes none).headD [])
    return .tensor tensor
  else
    checkQuantized metadata config object
    return .quantized object

end LMCache.MaKV
