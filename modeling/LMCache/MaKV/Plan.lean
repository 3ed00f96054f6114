import LMCache.Lib.Tensor
import LMCache.MaKV.Config

/-!
# Quantization plans

A plan assigns a precision bucket to every token of a chunk, or to every token of every
layer and plane. The importance builder ranks the tokens of the whole request by their
scores and slices the chunk out of the ranking.
-/

namespace LMCache.MaKV

open Lib

variable {F : Type} [PyFloat F]

/-- The hash function behind fingerprints and checksums. -/
class Sha256 where
  sha256 : Bytes → Bytes

variable [Sha256]

structure MaKVQuantPlan where
  protocolVersion : Int
  importanceLayout : String
  tokenCount : Int
  chunkStart : Int
  chunkLength : Int
  bucketBits : List Int
  bucketIds : Bytes
  originalShape : List Int
  originalStrides : List Int
  originalDtype : String
  tokenDim : Int
  numLayers : Int
  numKvHeads : Int
  headDim : Int
  quantGranularity : String
  scaleDtype : String
  modelFingerprint : String
  parallelFingerprint : String
  checksum : Int
  nanProtectedCount : Int := 0
  infProtectedCount : Int := 0
  sourcePlanHash : String := ""
  sourceStrategy : String := ""
  promptTokenHash : String := ""
  precisionPlanSchema : String := ""
  precisionScheme : String := "shared"
  deriving DecidableEq, Repr

def intList (values : List Int) : Json F := .arr (values.map .int)

def byteList (values : Bytes) : Json F := .arr (values.map fun b => .int b.toNat)

def MaKVQuantPlan.toDict (plan : MaKVQuantPlan) : Metadata F :=
  Dict.ofList [
    ("protocol_version", .int plan.protocolVersion),
    ("importance_layout", .str plan.importanceLayout),
    ("token_count", .int plan.tokenCount),
    ("chunk_start", .int plan.chunkStart),
    ("chunk_length", .int plan.chunkLength),
    ("bucket_bits", intList plan.bucketBits),
    ("bucket_ids", byteList plan.bucketIds),
    ("original_shape", intList plan.originalShape),
    ("original_strides", intList plan.originalStrides),
    ("original_dtype", .str plan.originalDtype),
    ("token_dim", .int plan.tokenDim),
    ("num_layers", .int plan.numLayers),
    ("num_kv_heads", .int plan.numKvHeads),
    ("head_dim", .int plan.headDim),
    ("quant_granularity", .str plan.quantGranularity),
    ("scale_dtype", .str plan.scaleDtype),
    ("model_fingerprint", .str plan.modelFingerprint),
    ("parallel_fingerprint", .str plan.parallelFingerprint),
    ("checksum", .int plan.checksum),
    ("nan_protected_count", .int plan.nanProtectedCount),
    ("inf_protected_count", .int plan.infProtectedCount),
    ("source_plan_hash", .str plan.sourcePlanHash),
    ("source_strategy", .str plan.sourceStrategy),
    ("prompt_token_hash", .str plan.promptTokenHash),
    ("precision_plan_schema", .str plan.precisionPlanSchema),
    ("precision_scheme", .str plan.precisionScheme)]

def hexDigest (digest : Bytes) : String :=
  String.ofList (digest.flatMap fun b => [(b.toNat / 16).digitChar, (b.toNat % 16).digitChar])

def sha256Text (text : String) : String :=
  hexDigest (Sha256.sha256 (Bytes.encodeUtf8 text.toList))

def fingerprint (parts : List String) : String := sha256Text ("|".intercalate parts)

def modelFingerprint (modelName : String) (numLayers numKvHeads headDim : Int) : String :=
  fingerprint [modelName, toString numLayers, toString numKvHeads, toString headDim]

def parallelFingerprint (worldSize workerId : Int) : String :=
  fingerprint [toString worldSize, toString workerId]

/-- The first four bytes of the digest of sorted JSON, as an integer. -/
def jsonChecksum (fields : Metadata F) : Int :=
  Bytes.ofLE ((Sha256.sha256 (dumps fields)).take 4)

def layoutChecksumFields (plan : MaKVQuantPlan) (bucketIds : Bytes) : Metadata F :=
  Dict.ofList [
    ("layout", .str plan.importanceLayout),
    ("chunk_start", .int plan.chunkStart),
    ("chunk_end", .int (plan.chunkStart + plan.chunkLength)),
    ("bucket_bits", intList plan.bucketBits),
    ("bucket_ids", byteList bucketIds),
    ("shape", intList plan.originalShape),
    ("strides", intList plan.originalStrides),
    ("dtype", .str plan.originalDtype),
    ("model_fp", .str plan.modelFingerprint),
    ("parallel_fp", .str plan.parallelFingerprint)]

def computeQuantPlanChecksum (F : Type) [PyFloat F] (plan : MaKVQuantPlan)
    (bucketIds : Option Bytes) : Int :=
  let fields : Metadata F := layoutChecksumFields plan (bucketIds.getD plan.bucketIds)
  if plan.sourcePlanHash ≠ "" ∨ plan.promptTokenHash ≠ "" then
    jsonChecksum ((fields.set "source_plan_hash" (.str plan.sourcePlanHash)).set
      "prompt_token_hash" (.str plan.promptTokenHash))
  else jsonChecksum (fields.set "precision_scheme" (.str plan.precisionScheme))

def replaceQuantPlanChecksum (F : Type) [PyFloat F] (plan : MaKVQuantPlan) : MaKVQuantPlan :=
  { plan with checksum := computeQuantPlanChecksum F plan none }

/-- The importance of the tokens of a request, for all layers and planes or for each. -/
inductive ScoreLayout (F : Type)
  | token (scores : List F)
  | layerKvToken (scores : Nat → Nat → List F)

def shapeText (shape : List Nat) : String :=
  "(" ++ ", ".intercalate (shape.map toString) ++ ")"

def normalizeImportanceTensor (importance : Tensor F) (layoutHint : Option String)
    (numLayers tokenCount : Int) : Result (ScoreLayout F) :=
  match importance.shape with
  | [length] =>
    if (length : Int) ≠ tokenCount then
      valueError ("MaKV importance length mismatch: expected " ++ toString tokenCount ++
        ", got " ++ toString length)
    else .ok (.token importance.data)
  | [layers, planes, length] =>
    if (layers : Int) ≠ numLayers ∨ planes ≠ 2 ∨ (length : Int) ≠ tokenCount then
      valueError ("MaKV importance layout [L,2,T] mismatch: expected (" ++ toString numLayers ++
        ", 2, " ++ toString tokenCount ++ "), got " ++ shapeText importance.shape)
    else .ok (.layerKvToken fun layer kv =>
      (importance.data.drop ((layer * 2 + kv) * length)).take length)
  | shape =>
    match layoutHint with
    | some hint =>
      valueError ("Unsupported MaKV importance layout '" ++ hint ++ "' with tensor shape " ++
        shapeText shape)
    | none => valueError ("MaKV importance must be [T] or [L,2,T]; got " ++ shapeText shape)

/-- Whether the ranking leaves a token out: it lies in the protected head or tail of the
request, or its status forces it. -/
def isProtected (config : MaKVConfig F) (forcedMask : Option (List Bool)) (n idx : Nat) : Bool :=
  let head := min config.protectPrefixTokens n
  let tail := min config.protectTailTokens (max 0 (n - head))
  decide ((idx : Int) < head) || decide ((n : Int) - tail ≤ idx) ||
    match forcedMask with
    | some mask => mask.getD idx false
    | none => false

/-- The tokens that are ranked, with their negated scores, and the counts of protected
scores. -/
structure RankScan (F : Type) where
  sortable : List (Nat × F)
  nanProtected : Nat
  infProtected : Nat

def scanScores (config : MaKVConfig F) (forcedMask : Option (List Bool)) (n : Nat) :
    Nat → List F → RankScan F
  | _, [] => ⟨[], 0, 0⟩
  | idx, value :: rest =>
    let scan := scanScores config forcedMask n (idx + 1) rest
    if isProtected config forcedMask n idx then scan
    else if PyFloat.isNan value then { scan with nanProtected := scan.nanProtected + 1 }
    else if PyFloat.isInf value then { scan with infProtected := scan.infProtected + 1 }
    else { scan with sortable := (idx, PyFloat.neg value) :: scan.sortable }

/-- The order of the ranking: by negated score, then by index. -/
def rankLe (a b : Nat × F) : Bool :=
  if PyFloat.equals a.2 b.2 then a.1 ≤ b.1 else PyFloat.lt a.2 b.2

def bucketBoundary (remaining last bucketIdx : Nat) (cumulative : F) : Result Int :=
  if bucketIdx = last then .ok remaining
  else PyFloat.round (PyFloat.mulInt cumulative remaining)

def bucketCounts (remaining : Nat) (last : Nat) :
    Nat → F → Int → List F → List Int → Result (List Int)
  | _, _, _, [], counts => .ok counts
  | bucketIdx, cumulative, prevBoundary, ratio :: rest, counts => do
    let cumulative := PyFloat.add cumulative ratio
    let boundary ← bucketBoundary remaining last bucketIdx cumulative
    raiseIf .indexError (counts.length ≤ bucketIdx) "list assignment index out of range"
    bucketCounts remaining last (bucketIdx + 1) cumulative boundary rest
      (counts.set bucketIdx (max 0 (boundary - prevBoundary)))

/-- The buckets take their tokens off the front of the ranking. -/
def assignBuckets : Nat → List Int → List (Nat × F) → List Nat → List Nat
  | _, [], _, ids => ids
  | bucketIdx, count :: counts, ranked, ids =>
    assignBuckets (bucketIdx + 1) counts (ranked.drop count.toNat)
      ((ranked.take count.toNat).foldl (fun ids entry => ids.set entry.1 bucketIdx) ids)

/-- The bucket of every token, and how many scores were protected. -/
def rankToBucketIds (scores : List F) (config : MaKVConfig F) (forcedMask : Option (List Bool)) :
    Result (List Nat × Nat × Nat) := do
  let n := scores.length
  rejectIf (forcedMask.any fun mask => mask.length ≠ n)
    "MaKV importance status length must match importance length"
  let scan := scanScores config forcedMask n 0 scores
  let ranked := scan.sortable.insertionSort fun a b => rankLe a b = true
  let counts ← bucketCounts ranked.length (config.bucketRatios.length - 1) 0 (decimal 0 ['0']) 0
    config.bucketRatios (List.replicate config.bucketBits.length 0)
  return (assignBuckets 0 counts ranked (List.replicate n 0), scan.nanProtected, scan.infProtected)

def statusMembers (index : Nat) : Json F → Result (List (String × Json F))
  | .obj members => .ok members
  | _ => valueError ("MaKV importance status at token " ++ toString index ++
      " must be an object")

def statusValidMask (index : Nat) (members : List (String × Json F)) : Result Bool :=
  match (Dict.find "valid_mask" members).getD (.bool true) with
  | .bool b => .ok b
  | _ => valueError ("MaKV importance status valid_mask at token " ++ toString index ++
      " must be bool")

def statusForcedPrecision (members : List (String × Json F)) : Result Bool :=
  match (Dict.find "forced_precision" members).getD .null with
  | .null => .ok false
  | .str text =>
    if text = "BF16" then .ok true
    else valueError "MaKV importance status can only force BF16 precision"
  | _ => valueError "MaKV importance status can only force BF16 precision"

def statusForces (index : Nat) (item : Json F) : Result Bool := do
  let members ← statusMembers index item
  let validMask ← statusValidMask index members
  let forced ← statusForcedPrecision members
  rejectIf (!validMask && !forced) "invalid MaKV importance token must force BF16 precision"
  return !validMask || forced

def statusMask : Nat → List (Json F) → Result (List Bool)
  | _, [] => .ok []
  | index, item :: rest => do
    let forced ← statusForces index item
    let mask ← statusMask (index + 1) rest
    return forced :: mask

/-- The mask of the tokens that a request status forces to full precision. -/
def normalizeImportanceStatus (status : Json F) (tokenCount : Int) :
    Result (Option (List Bool)) :=
  match status with
  | .null => .ok none
  | .arr items =>
    if (items.length : Int) ≠ tokenCount then
      valueError "MaKV importance status must be a token-count-sized list"
    else do
      let mask ← statusMask 0 items
      return some mask
  | _ => valueError "MaKV importance status must be a token-count-sized list"

def kvSeparate3TierPairBits : List (Int × Int) := [(8, 4), (4, 2), (2, 2)]

def kvSeparate4TierPairBits : List (Int × Int) := [(16, 16), (8, 4), (4, 2), (2, 2)]

/-- `{bit: index for index, bit in enumerate(bits)}`: of equal widths the last one counts. -/
def bitToBucket (bits : List Int) : Dict Int Nat :=
  Dict.ofList (bits.zipIdx)

def bucketOfBit (bits : List Int) (bit : Int) : Result Nat :=
  match (bitToBucket bits).get? bit with
  | some bucket => .ok bucket
  | none => raise .keyError (toString bit)

def tierPair (pairBits : List (Int × Int)) (tier : Nat) : Result (Int × Int) :=
  match pairBits[tier]? with
  | some pair => .ok pair
  | none => valueError ("invalid K/V separate score tier " ++ toString tier)

def tierBucket (bits : List Int) (pairBits : List (Int × Int)) (tier : Nat) :
    Result (Nat × Nat) := do
  let pair ← tierPair pairBits tier
  let k ← bucketOfBit bits pair.1
  let v ← bucketOfBit bits pair.2
  return (k, v)

/-- The widths of the tiers of a scheme, and the buckets it needs. -/
def separateScheme : PrecisionScheme → Result (List (Int × Int) × List Int)
  | .kvSeparate3Tier => .ok (kvSeparate3TierPairBits, [8, 4, 2])
  | .kvSeparate4Tier => .ok (kvSeparate4TierPairBits, [16, 8, 4, 2])
  | .shared => valueError "K/V separate bucket mapping used with another scheme"

/-- The buckets of the two planes of every token. -/
def kvSeparateBucketIds (tierIds : List Nat) (config : MaKVConfig F) :
    Result (List (Nat × Nat)) := do
  let (pairBits, requiredBits) ← separateScheme config.precisionScheme
  rejectIf (config.bucketBits ≠ requiredBits) (config.precisionScheme.text ++
    " requires physical bucket bits (" ++ ", ".intercalate (requiredBits.map toString) ++ ")")
  tierIds.mapM (tierBucket config.bucketBits pairBits)

/-- `bytes(values)`. -/
def toByteString (values : List Nat) : Result Bytes :=
  if values.all (· < 256) then .ok (values.map UInt8.ofNat)
  else valueError "bytes must be in range(0, 256)"

/-- What every builder is told about the chunk and the model. -/
structure ChunkLayout where
  chunkStart : Int
  chunkEnd : Int
  originalShape : List Int
  originalStrides : List Int
  originalDtype : String
  tokenDim : Int
  numLayers : Int
  numKvHeads : Int
  headDim : Int
  modelName : String
  worldSize : Int
  workerId : Int

/-- `original_shape[token_dim]`, where a negative index counts from the end. -/
def ChunkLayout.shapeTokens (layout : ChunkLayout) : Result Int :=
  let i := if layout.tokenDim < 0 then layout.tokenDim + layout.originalShape.length
    else layout.tokenDim
  if i < 0 then raise .indexError "tuple index out of range"
  else match layout.originalShape[i.toNat]? with
    | some n => .ok n
    | none => raise .indexError "tuple index out of range"

/-- The rows of the ranking: the layers and planes that share a score list share a row. -/
def rankRows (config : MaKVConfig F) (forcedMask : Option (List Bool))
    (scores : Nat → Nat → List F) : List (Nat × Nat) → Result (List (List Nat) × Nat × Nat)
  | [] => .ok ([], 0, 0)
  | (layer, kv) :: rest => do
    let (ids, nans, infs) ← rankToBucketIds (scores layer kv) config forcedMask
    let (rows, restNans, restInfs) ← rankRows config forcedMask scores rest
    return (ids :: rows, nans + restNans, infs + restInfs)

def planeRows (numLayers : Int) : List (Nat × Nat) :=
  (List.range numLayers.toNat).flatMap fun layer => [(layer, 0), (layer, 1)]

/-- `values[start:end]` within a list. -/
def pySlice {α : Type} (values : List α) (start stop : Int) : List α :=
  (values.take stop.toNat).drop start.toNat

def planeIds (config : MaKVConfig F) (layout : ChunkLayout) (row : List Nat) (kv : Nat) :
    Result (List Nat) := do
  let pairs ← kvSeparateBucketIds row config
  return (pySlice pairs layout.chunkStart layout.chunkEnd).map
    fun pair => if kv = 0 then pair.1 else pair.2

def separateIds (config : MaKVConfig F) (layout : ChunkLayout) :
    List (List Nat × Nat) → Result (List Nat)
  | [] => .ok []
  | (row, kv) :: rest => do
    let ids ← planeIds config layout row kv
    let more ← separateIds config layout rest
    return ids ++ more

/-- The tiers of every layer and plane; token scores are ranked once. -/
def tierRows (scores : ScoreLayout F) (config : MaKVConfig F) (forcedMask : Option (List Bool))
    (planes : List (Nat × Nat)) : Result (List (List Nat) × Nat × Nat) :=
  match scores with
  | .token scores => do
    let (ids, nans, infs) ← rankToBucketIds scores config forcedMask
    return (planes.map fun _ => ids, nans, infs)
  | .layerKvToken scores => rankRows config forcedMask scores planes

/-- The bucket ids of a chunk, with the layout they are in and the protected counts. -/
def chunkBucketIds (scores : ScoreLayout F) (config : MaKVConfig F)
    (forcedMask : Option (List Bool)) (layout : ChunkLayout) :
    Result (String × Bytes × Nat × Nat) := do
  let planes := planeRows layout.numLayers
  if config.precisionScheme = .shared then
    match scores with
    | .token scores =>
      let (ids, nans, infs) ← rankToBucketIds scores config forcedMask
      let bytes ← toByteString (pySlice ids layout.chunkStart layout.chunkEnd)
      return ("token", bytes, nans, infs)
    | .layerKvToken scores =>
      let (rows, nans, infs) ← rankRows config forcedMask scores planes
      let bytes ← toByteString
        (rows.flatMap fun ids => pySlice ids layout.chunkStart layout.chunkEnd)
      return ("layer_kv_token", bytes, nans, infs)
  else
    let (rows, nans, infs) ← tierRows scores config forcedMask planes
    let ids ← separateIds config layout (rows.zip (planes.map Prod.snd))
    let bytes ← toByteString ids
    return ("layer_kv_token", bytes, nans, infs)

/-- The tokens of the request, by default those of the chunk's tensor. -/
def ChunkLayout.requestTokens (layout : ChunkLayout) : Option Int → Result Int
  | some n => .ok n
  | none => layout.shapeTokens

def ChunkLayout.inRequest (layout : ChunkLayout) (tokenCount : Int) : Bool :=
  decide (0 ≤ layout.chunkStart) && decide (layout.chunkStart ≤ layout.chunkEnd) &&
    decide (layout.chunkEnd ≤ tokenCount)

def buildChunkQuantPlan (importance : Tensor F) (layoutHint : Option String)
    (layout : ChunkLayout) (config : MaKVConfig F) (requestTokenCount : Option Int)
    (importanceStatus : Json F) : Result MaKVQuantPlan := do
  let tokenCount ← layout.requestTokens requestTokenCount
  let scores ← normalizeImportanceTensor importance layoutHint layout.numLayers tokenCount
  rejectIf (!layout.inRequest tokenCount)
    ("Invalid MaKV chunk range [" ++ toString layout.chunkStart ++ ", " ++
      toString layout.chunkEnd ++ ") for token count " ++ toString tokenCount)
  let forcedMask ← normalizeImportanceStatus importanceStatus tokenCount
  let (outputLayout, bucketIds, nans, infs) ← chunkBucketIds scores config forcedMask layout
  return replaceQuantPlanChecksum F {
    protocolVersion := 1
    importanceLayout := outputLayout
    tokenCount := tokenCount
    chunkStart := layout.chunkStart
    chunkLength := layout.chunkEnd - layout.chunkStart
    bucketBits := config.bucketBits
    bucketIds := bucketIds
    originalShape := layout.originalShape
    originalStrides := layout.originalStrides
    originalDtype := layout.originalDtype
    tokenDim := layout.tokenDim
    numLayers := layout.numLayers
    numKvHeads := layout.numKvHeads
    headDim := layout.headDim
    quantGranularity := config.quantGranularity
    scaleDtype := config.scaleDtype.text
    modelFingerprint := modelFingerprint layout.modelName layout.numLayers layout.numKvHeads
      layout.headDim
    parallelFingerprint := parallelFingerprint layout.worldSize layout.workerId
    checksum := 0
    nanProtectedCount := nans
    infProtectedCount := infs
    precisionScheme := config.precisionScheme.text }

end LMCache.MaKV
