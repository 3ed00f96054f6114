import LMCache.MaKV.Residual

/-!
# The reference quantizer

A canonical KV tensor is split into the buckets of its plan. The vectors of a bucket are
gathered, coded with one scale each and written as payloads, next to their positions; a
residual keeps what the codes lose, where the configuration asks for it. The observer of
quantization errors is a parameter: all it does is look at the buckets and add payloads of
its own.
-/

namespace LMCache.MaKV

open Lib

variable {F E W : Type} [PyFloat F] [Float32Arithmetic W] [KvElement E W]

structure CanonicalKv (E : Type) where
  layers : Nat
  tokens : Nat
  heads : Nat
  dim : Nat
  element : Nat → Nat → Nat → Nat → Nat → E

def CanonicalKv.vector (kv : CanonicalKv E) (layer plane token head : Nat) : List E :=
  (List.range kv.dim).map (kv.element layer plane token head)

def clamp (bound : Nat) (code : Int) : Int := max (-(bound : Int)) (min bound code)

/-- The codes of a vector below 16 bits. -/
def quantizedVector (bits : Int) (vector : List E) : List Int :=
  let scale := KvElement.temporaryScale (qmax bits) vector
  vector.map fun x => clamp (qmax bits) (KvElement.roundQuotient x scale)

def storedScale (bits : Int) (dtype : ScaleDtype) (vector : List E) : Bytes :=
  KvElement.scaleBytes dtype (KvElement.temporaryScale (qmax bits) vector)

/-- The values of a vector below 16 bits, before they are rounded to its own type. -/
def dequantizedVector (bits : Int) (dtype : ScaleDtype) (vector : List E) : List W :=
  (quantizedVector bits vector).map (scaled dtype (storedScale bits dtype vector))

/-- `fake_quantize_dequantize_vectors(...).reconstructed` of one vector. -/
def reconstructedVector (bits : Int) (dtype : ScaleDtype) (vector : List E) : List E :=
  if bits = 16 then vector
  else (dequantizedVector bits dtype vector).map KvElement.narrow

def codeBytes (bits : Int) (codes : List Int) : Bytes :=
  if bits = 8 then codes.flatMap (signedBytes 1) else packRow bits.toNat codes

/-- `_quantize_vector_bucket`: the payload and the scales of the vectors of a bucket. -/
def quantizeVectorBucket (vectors : List (List E)) (dim : Nat) (bits : Int) (dtype : ScaleDtype) :
    Result (Bytes × Bytes) := do
  rejectIf (dim = 0) "vectors must have a non-empty final head dimension"
  if bits = 16 then return (Storable.store vectors.flatten, [])
  rejectIf (bits ≠ 2 && bits ≠ 4 && bits ≠ 8) s!"Unsupported MaKV quantization width: {bits}"
  -- packing infers the bytes of a row, which no rows leave open
  raiseIf .runtimeError (bits ≠ 8 && vectors.isEmpty) "cannot reshape tensor of 0 elements"
  return (vectors.flatMap fun v => codeBytes bits (quantizedVector bits v),
    vectors.flatMap (storedScale bits dtype))

structure ObservedBucket (E : Type) where
  vectors : List (List E)
  payload : Bytes
  scales : Bytes
  bits : Int
  positions : List Int

/-- An observer of the buckets of one object, as a function of what it has seen: a bucket can
make it fail, and in the end it adds a descriptor and payloads. -/
structure QdmObserver (F E : Type) where
  observeBucket : List (ObservedBucket E) → ObservedBucket E → Result Unit
  finalize : List (ObservedBucket E) → Result (Json F × Payloads)
  named : ∀ seen descriptor payloads, finalize seen = .ok (descriptor, payloads) →
    ∀ name ∈ payloads.keys, ∃ rest, name = "qdm_" ++ rest

/-- The observer that the quantizer makes for a plan. -/
class QdmRuntime (F E : Type) where
  observer : MaKVQuantPlan → Int → String → Result (QdmObserver F E)

/-- `{bit: idx for idx, bit in enumerate(plan.bucket_bits)}`. -/
def bitsToBucket (bucketBits : List Int) : Dict Int Nat := Dict.ofList bucketBits.zipIdx

def bucketPlaces (bucketIds : Bytes) (bucketId : Nat) : List Nat :=
  (List.range bucketIds.length).filter fun i => (bucketIds.getD i 0).toNat = bucketId

/-- The value that a place has as an `int32`. -/
def int32 (place : Nat) : Int := signedOfBytes (signedBytes 4 place)

/-- The vectors of a bucket, with the positions that are stored for them. -/
structure GatheredBucket (E : Type) where
  positions : List Int
  vectors : List (List E)

/-- `kv_tensor[:, :, positions, :, :]`. -/
def gatherTokens (kv : CanonicalKv E) (places : List Nat) : Result (GatheredBucket E) := do
  let positions := places.map int32
  let tokens ← positions.mapM (resolveIndex kv.tokens)
  return {
    positions := positions
    vectors := (List.range kv.layers).flatMap fun layer => (List.range 2).flatMap fun plane =>
      tokens.flatMap fun token => (List.range kv.heads).map (kv.vector layer plane token) }

/-- `kv_tensor[layers, planes, tokens, :, :]`. -/
def gatherEntries (kv : CanonicalKv E) (chunkLength : Nat) (places : List Nat) :
    Result (GatheredBucket E) := do
  let indices := places.map fun i =>
    (i / (2 * chunkLength), i / chunkLength % 2, i % chunkLength)
  raiseIf .indexError (indices.any fun (layer, _, token) => kv.layers ≤ layer || kv.tokens ≤ token)
    "index is out of bounds"
  return {
    positions := indices.map fun (layer, plane, token) =>
      int32 ((layer * 2 + plane) * chunkLength + token)
    vectors := indices.flatMap fun (layer, plane, token) =>
      (List.range kv.heads).map (kv.vector layer plane token) }

/-- What the loop over the buckets has written. -/
structure BucketScan (F E : Type) where
  payloads : Payloads
  entries : List (Json F)
  residuals : List (Json F)
  observed : List (ObservedBucket E)

def bucketEntry (bit : Int) (count : Nat) (layout : String) : Json F :=
  .obj [("bits", .int bit), ("count", .int count), ("layout", .str layout)]

def planJson (plan : MaKVQuantPlan) : Json F := .obj plan.toDict.entries

def residualEntry (plan : MaKVQuantPlan) (bit : Int) (count elementCount : Nat)
    (shape : List Int) : Json F :=
  .obj [
    ("bits", .int bit),
    ("count", .int count),
    ("layout", .str plan.importanceLayout),
    ("shape", intList shape),
    ("element_count", .int elementCount),
    ("payload_name", .str (residualPayloadName bit))]

def BucketScan.withResidual (scan : BucketScan F E) (plan : MaKVQuantPlan) (bit : Int)
    (count elementCount : Nat) (data : Bytes) : Result (BucketScan F E) := do
  let shape ← residualShape (planJson plan : Json F) count
  return { scan with
    payloads := scan.payloads.set (residualPayloadName bit) data
    residuals := scan.residuals ++ [residualEntry plan bit count elementCount shape] }

/-- The difference between the vectors and what their payload restores to. -/
def residualBytes (vectors : List (List E)) (restored : List (List W)) (dtype : ScaleDtype) :
    Bytes :=
  (List.zipWith (List.zipWith fun x y => Float32Arithmetic.sub (KvElement.widen x) y) vectors
    restored).flatMap fun row => row.flatMap (Float32Arithmetic.toStored dtype)

/-- `add_residual`: what the bucket loses, where residuals are kept. -/
def BucketScan.addResidual (scan : BucketScan F E) (plan : MaKVQuantPlan)
    (config : MaKVConfig F) (bit : Int) (dim count : Nat) (vectors : List (List E))
    (payload scales : Bytes) : Result (BucketScan F E) :=
  match config.residualDtype.stored with
  | none => .ok scan
  | some dtype => do
    if bit = 16 then return scan
    rejectIf ((dim : Int) ≠ plan.headDim) "vector_shape must end in head_dim"
    let restored : List (List W) ← dequantizeBucketVectors payload config.scaleDtype
      (scales.words config.scaleDtype.size) bit vectors.length dim dim
    scan.withResidual plan bit count (vectors.length * dim) (residualBytes vectors restored dtype)

def BucketScan.addEmptyResidual (scan : BucketScan F E) (plan : MaKVQuantPlan)
    (config : MaKVConfig F) (bit : Int) : Result (BucketScan F E) :=
  if config.residualDtype.stored = none ∨ bit = 16 then .ok scan
  else scan.withResidual plan bit 0 0 []

def positionsName (bit : Int) : String := "positions_" ++ toString bit

def scalesName (bit : Int) : String := "scales_" ++ toString bit

def BucketScan.withPayloads (scan : BucketScan F E) (bit : Int)
    (positions payload scales : Bytes) : BucketScan F E :=
  { scan with
    payloads := ((scan.payloads.set (positionsName bit) positions).set (payloadName bit)
      payload).set (scalesName bit) scales }

def BucketScan.withEntry (scan : BucketScan F E) (bit : Int) (count : Nat) (layout : String) :
    BucketScan F E :=
  { scan with entries := scan.entries ++ [bucketEntry bit count layout] }

def BucketScan.observe (scan : BucketScan F E) (observer : Option (QdmObserver F E))
    (bucket : ObservedBucket E) : Result (BucketScan F E) :=
  match observer with
  | none => .ok scan
  | some o => do
    o.observeBucket scan.observed bucket
    return { scan with observed := scan.observed ++ [bucket] }

/-- One round of the loop over the widths of the plan. -/
def quantizeBucket (kv : CanonicalKv E) (plan : MaKVQuantPlan) (config : MaKVConfig F)
    (observer : Option (QdmObserver F E)) (layout : String)
    (gather : List Nat → Result (GatheredBucket E)) (scan : BucketScan F E) (bit : Int) :
    Result (BucketScan F E) := do
  let bucketId := ((bitsToBucket plan.bucketBits).get? bit).getD 0
  let places := bucketPlaces plan.bucketIds bucketId
  if places.isEmpty then
    let scan ← (scan.withPayloads bit [] [] []).addEmptyResidual plan config bit
    return scan.withEntry bit 0 layout
  let gathered ← gather places
  let (payload, scales) ← quantizeVectorBucket gathered.vectors kv.dim bit config.scaleDtype
  let count := gathered.positions.length
  let scan ← scan.addResidual plan config bit kv.dim count gathered.vectors payload scales
  let scan ← scan.observe observer ⟨gathered.vectors, payload, scales, bit, gathered.positions⟩
  let positions := gathered.positions.flatMap (signedBytes 4)
  return (scan.withPayloads bit positions payload scales).withEntry bit count layout

def selectObserver [QdmRuntime F E] (plan : MaKVQuantPlan)
    (qdmObserver : Option (QdmObserver F E)) (enableQdm : Bool) (blockSize : Int)
    (version : String) : Result (Option (QdmObserver F E)) :=
  if !enableQdm then .ok none
  else
    match qdmObserver with
    | some o => .ok (some o)
    | none => do
      let o ← QdmRuntime.observer plan blockSize version
      return some o

/-- The loop over the widths of the plan, in the layout of the plan. -/
def quantizeBuckets (kv : CanonicalKv E) (plan : MaKVQuantPlan) (config : MaKVConfig F)
    (observer : Option (QdmObserver F E)) : Result (BucketScan F E) := do
  let start : BucketScan F E := ⟨Dict.empty, [], [], []⟩
  if plan.importanceLayout = "token" then
    plan.bucketBits.foldlM (quantizeBucket kv plan config observer "token" (gatherTokens kv)) start
  else
    raiseIf .runtimeError (plan.numLayers < 0 || plan.chunkLength < 0 ||
        (plan.bucketIds.length : Int) ≠ plan.numLayers * 2 * plan.chunkLength)
      "shape is invalid for input of size"
    plan.bucketBits.foldlM (quantizeBucket kv plan config observer "layer_kv_token"
      (gatherEntries kv plan.chunkLength.toNat)) start

def residualText : ResidualDtype → String
  | .none => "none"
  | .float16 => "float16"
  | .float32 => "float32"

def residualMetadata (plan : MaKVQuantPlan) (config : MaKVConfig F) (residuals : List (Json F)) :
    Json F :=
  .obj [
    ("version", .int residualVersion),
    ("semantics", .str residualSemantics),
    ("dtype", .str (residualText config.residualDtype)),
    ("source_dtype", .str plan.originalDtype),
    ("buckets", .arr residuals)]

/-- The metadata and the payloads with what the observer adds. -/
def withObservations (observer : Option (QdmObserver F E)) (scan : BucketScan F E)
    (metadata : Metadata F) : Result (Metadata F × Payloads) :=
  match observer with
  | none => .ok (metadata, scan.payloads)
  | some o => do
    let (descriptor, payloads) ← o.finalize scan.observed
    return (metadata.set "qdm" descriptor,
      payloads.entries.foldl (fun d e => d.set e.1 e.2) scan.payloads)

def quantizeCanonicalKv [QdmRuntime F E] (kv : CanonicalKv E) (plan : MaKVQuantPlan)
    (config : MaKVConfig F) (qdmObserver : Option (QdmObserver F E)) (enableQdm : Bool)
    (qdmBlockSize : Int) (qdmQuantizerVersion : String) : Result (Metadata F × Payloads) := do
  let observer ← selectObserver plan qdmObserver enableQdm qdmBlockSize qdmQuantizerVersion
  let scan ← quantizeBuckets kv plan config observer
  let metadata : Metadata F :=
    Dict.ofList [("plan", planJson plan), ("bucket_entries", .arr scan.entries)]
  let (metadata, payloads) ← withObservations observer scan metadata
  return (if config.residualDtype.stored = none then metadata
    else metadata.set "residual" (residualMetadata plan config scan.residuals), payloads)

end LMCache.MaKV
