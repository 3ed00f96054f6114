import LMCache.MaKV.Plan

/-!
# Plans from ScoutRank

A ScoutRank payload assigns a precision to every block of 32 tokens, or, in its functional
form, to every token of a request. Both builders validate the payload and slice the chunk
out of the assignment; they do not rank.
-/

namespace LMCache.MaKV

open Lib

variable {F : Type} [PyFloat F] [Sha256]

/-- The sizes of the elements of the named data types. -/
class TorchDtypes where
  itemsize : String → Option Nat

variable [TorchDtypes]

def scoutrankPlanSchema : String := "scoutrank_block_precision_v1"

def scoutrankStrategy : String := "k2_risk_monotone_four_tier_v1"

def scoutrankV3FunctionalPlanSchema : String := "scoutrank_v3_functional_token_precision_v1"

def scoutrankV3FunctionalStrategy : String := "scoutrank_v3_functional_disturbance_v1"

def scoutrankPrecisionBits : List (String × Int × Int) :=
  [("BF16", 16, 16), ("K8V4", 8, 4), ("K4V2", 4, 2), ("K2V2", 2, 2)]

/-- `payload.get(key) == text`. -/
def hasText (payload : Metadata F) (key text : String) : Bool :=
  ((payload.get? key).getD .null).equalsText text

/-- `int(payload.get(key, -1)) == value`. -/
def hasInt (payload : Metadata F) (key : String) (value : Int) : Result Bool := do
  let n ← ((payload.get? key).getD (.int (-1))).toInt
  return n == value

def requireInt (payload : Metadata F) (key : String) (value : Int) (message : String) :
    Result Unit := do
  let same ← hasInt payload key value
  rejectIf (!same) message

def keyedRows (key : String) : List (Json F) → Result (List (Int × Json F))
  | [] => .ok []
  | row :: rest => do
    let n ← (← row.item key).toInt
    let more ← keyedRows key rest
    return (n, row) :: more

/-- `sorted(rows, key=lambda row: int(row[key]))`. -/
def sortedRows (key : String) (rows : List (Json F)) : Result (List (Json F)) := do
  let keyed ← keyedRows key rows
  return (keyed.insertionSort fun a b => a.1 ≤ b.1).map Prod.snd

/-- `json.dumps(value, allow_nan=False)`, hashed. -/
def strictDigest (fields : Metadata F) : Result String := do
  rejectIf (!Json.membersFinite fields.entries) "Out of range float values are not JSON compliant"
  return hexDigest (Sha256.sha256 (dumps fields))

def looseDigest (fields : Metadata F) : String := hexDigest (Sha256.sha256 (dumps fields))

structure ScoutBlock where
  start : Int
  stop : Int
  precision : String

/-- What the loop over the blocks has summed up. -/
structure BlockTotals where
  cursor : Int
  eligible : Int
  actual : Int
  estimated : Int
  counts : Dict String Int
  blocks : List ScoutBlock

def scanBlock (tokenCount : Int) (expectedId : Nat) (totals : BlockTotals) (row : Json F) :
    Result BlockTotals := do
  let blockId ← (← row.item "block_id").toInt
  rejectIf (blockId ≠ expectedId) "ScoutRank block IDs must be contiguous from zero"
  let start ← (← row.item "token_start").toInt
  let stop ← (← row.item "token_end").toInt
  let valid ← (← row.item "valid_tokens").toInt
  let stored ← (← row.item "stored_tokens").toInt
  let precision := (← row.item "precision").toText
  let expectedStart : Int := expectedId * 32
  let expectedValid := min 32 (tokenCount - expectedStart)
  rejectIf (start ≠ totals.cursor || start ≠ expectedStart || stop - start ≠ valid ||
      valid ≠ expectedValid || stored ≠ 32)
    "ScoutRank block token geometry is invalid"
  rejectIf ((Dict.find precision scoutrankPrecisionBits).isNone)
    ("unsupported ScoutRank precision " ++ PyRuntime.reprOf (.str precision : Json F))
  let eligible := (← row.item "eligible").truthy
  let actual ← (← row.item "actual_bytes").toInt
  let estimated ← (← row.item "estimated_bytes").toInt
  return {
    cursor := stop
    eligible := totals.eligible + if eligible then 1 else 0
    actual := totals.actual + actual
    estimated := totals.estimated + estimated
    counts := totals.counts.set precision ((totals.counts.get? precision).getD 0 + 1)
    blocks := totals.blocks ++ [⟨start, stop, precision⟩] }

def scanBlocks (tokenCount : Int) : Nat → BlockTotals → List (Json F) → Result BlockTotals
  | _, totals, [] => .ok totals
  | expectedId, totals, row :: rest => do
    let totals ← scanBlock tokenCount expectedId totals row
    scanBlocks tokenCount (expectedId + 1) totals rest

def quotaPrecision (cut10 cut20 cut80 : Int) (rank : Nat) : String :=
  if (rank : Int) ≤ cut10 then "BF16"
  else if (rank : Int) ≤ cut20 then "K8V4"
  else if (rank : Int) ≤ cut80 then "K4V2"
  else "K2V2"

def checkQuota (cut10 cut20 cut80 : Int) : Nat → List (Json F) → Result Unit
  | _, [] => .ok ()
  | rank, row :: rest => do
    let precision ← row.item "precision"
    rejectIf (!precision.equalsText (quotaPrecision cut10 cut20 cut80 rank))
      "ScoutRank precision assignment violates frozen quota"
    checkQuota cut10 cut20 cut80 (rank + 1) rest

def eligibleRows : List (Json F) → Result (List (Json F))
  | [] => .ok []
  | row :: rest => do
    let eligible ← row.item "eligible"
    let more ← eligibleRows rest
    return if eligible.truthy then row :: more else more

/-- The ranks of the eligible blocks, and the precision the quota gives to each. -/
def checkRanks (rows : List (Json F)) (eligible : Int) : Result Unit := do
  let ranked ← sortedRows "rank" (← eligibleRows rows)
  let ranks ← keyedRows "rank" ranked
  rejectIf (ranks.map Prod.fst ≠ (List.range' 1 eligible.toNat).map (fun n : Nat => (n : Int)))
    "ScoutRank eligible ranks must be contiguous from one"
  let cut10 ← PyFloat.floor (PyFloat.mulInt (decimal 0 ['1', '0']) eligible : F)
  let cut20 ← PyFloat.floor (PyFloat.mulInt (decimal 0 ['2', '0']) eligible : F)
  let cut80 ← PyFloat.floor (PyFloat.mulInt (decimal 0 ['8', '0']) eligible : F)
  checkQuota cut10 cut20 cut80 1 ranked

/-- The fields of a block that its digest covers. -/
def operationalBlock (row : Json F) : Result (Json F) := do
  let blockId ← (← row.item "block_id").toInt
  let eligible := (← row.item "eligible").truthy
  let rank ← match (row.get? "rank").getD .null with
    | .null => .ok .null
    | value => do
      let rank ← value.toInt
      return .int rank
  let start ← (← row.item "token_start").toInt
  let stop ← (← row.item "token_end").toInt
  let valid ← (← row.item "valid_tokens").toInt
  let stored ← (← row.item "stored_tokens").toInt
  let precision := (← row.item "precision").toText
  let estimated ← (← row.item "estimated_bytes").toInt
  let actual ← (← row.item "actual_bytes").toInt
  return .obj [("block_id", .int blockId), ("eligible", .bool eligible), ("rank", rank),
    ("token_start", .int start), ("token_end", .int stop), ("valid_tokens", .int valid),
    ("stored_tokens", .int stored), ("precision", .str precision),
    ("estimated_bytes", .int estimated), ("actual_bytes", .int actual)]

/-- `plan[key]`. -/
def planItem (plan : Metadata F) (key : String) : Result (Json F) :=
  match plan.get? key with
  | some value => .ok value
  | none => raise .keyError key

def scoutrankOperationalPayload (plan : Metadata F) : Result (Metadata F) := do
  let rows ← (← planItem plan "blocks").iterate
  let blocks ← (← sortedRows "block_id" rows).mapM operationalBlock
  let strategy ← planItem plan "strategy_version"
  let deployment ← planItem plan "deployment_status"
  let eligible ← (← planItem plan "eligible_block_count").toInt
  let estimated ← (← planItem plan "estimated_total_bytes").toInt
  let actual ← (← planItem plan "actual_total_bytes").toInt
  return Dict.ofList [
    ("strategy_version", strategy),
    ("deployment_status", deployment),
    ("score_precision", (plan.get? "score_precision").getD (.str "K2V2")),
    ("proxy_variant", (plan.get? "proxy_variant").getD (.str "norm_upper_bound")),
    ("eligible_block_count", .int eligible),
    ("blocks", .arr blocks),
    ("estimated_total_bytes", .int estimated),
    ("actual_total_bytes", .int actual)]

/-- The checks of the header of a block plan. -/
def validateScoutrankHeader (payload : Metadata F) (tokenCount : Int)
    (actualPromptTokenHash : String) (config : MaKVConfig F) : Result Unit := do
  rejectIf (!hasText payload "schema_version" scoutrankPlanSchema)
    "unsupported ScoutRank precision plan schema"
  rejectIf (!hasText payload "status" "success")
    "ScoutRank precision plan status is not success"
  rejectIf (!hasText payload "strategy_version" scoutrankStrategy)
    "unsupported ScoutRank precision plan strategy"
  rejectIf (!hasText payload "deployment_status" "shadow")
    "ScoutRank precision plan must retain deployment_status=shadow"
  rejectIf (!config.allowScoutrankShadowPlan)
    ("ScoutRank precision plan is shadow-only; set " ++
      "makv_allow_scoutrank_shadow_plan=true to consume it explicitly")
  rejectIf (match payload.get? "repeat_exact" with
      | some (.bool true) => false
      | _ => true)
    "ScoutRank precision plan requires repeat_exact=true"
  requireInt payload "token_count" tokenCount "ScoutRank precision plan token_count mismatch"
  requireInt payload "block_size" 32 "frozen ScoutRank precision plan requires block_size=32"
  rejectIf (actualPromptTokenHash = "") "LMCache did not compute a prompt token hash"
  rejectIf (!hasText payload "prompt_token_hash" actualPromptTokenHash)
    "ScoutRank precision plan prompt token hash mismatch"

/-- The checks of the sums and of the digest of a block plan. -/
def validateScoutrankTotals (payload plan : Metadata F) (totals : BlockTotals) :
    Result String := do
  requireInt plan "actual_total_bytes" totals.actual "ScoutRank actual byte total mismatch"
  requireInt plan "estimated_total_bytes" totals.estimated
    "ScoutRank estimated byte total mismatch"
  requireInt payload "actual_bytes" totals.actual "ScoutRank outer actual byte total mismatch"
  requireInt payload "estimated_bytes" totals.estimated
    "ScoutRank outer estimated byte total mismatch"
  rejectIf (!((plan.get? "precision_counts").getD .null).equals
      (.obj (totals.counts.entries.map fun e => (e.1, .int e.2))))
    "ScoutRank precision quota counts mismatch"
  let digest ← strictDigest (← scoutrankOperationalPayload plan)
  rejectIf (!hasText payload "plan_hash" digest || !hasText plan "plan_hash" digest)
    "ScoutRank operational plan hash mismatch"
  return digest

def planObject (payload : Metadata F) : Result (Metadata F) :=
  match payload.get? "plan" with
  | some (.obj members) => .ok (Dict.ofList members)
  | _ => valueError "ScoutRank precision plan is missing plan object"

def checkSameFields (payload plan : Metadata F) : List String → Result Unit
  | [] => .ok ()
  | key :: rest => do
    rejectIf (!((plan.get? key).getD .null).equals ((payload.get? key).getD .null))
      ("ScoutRank precision plan " ++ key ++ " mismatch")
    checkSameFields payload plan rest

def arrayField (payload : Metadata F) (key message : String) : Result (List (Json F)) :=
  match payload.get? key with
  | some (.arr items) => .ok items
  | _ => valueError message

def validateScoutrankPrecisionPlan (payload : Metadata F) (tokenCount : Int)
    (actualPromptTokenHash : String) (config : MaKVConfig F) :
    Result (List ScoutBlock × String) := do
  validateScoutrankHeader payload tokenCount actualPromptTokenHash config
  let plan ← planObject payload
  checkSameFields payload plan ["strategy_version", "deployment_status"]
  let rows ← ((plan.get? "blocks").getD (.arr [])).iterate
  let rows ← sortedRows "block_id" rows
  rejectIf ((rows.length : Int) ≠ -((-tokenCount) / 32))
    "ScoutRank block count does not match 32-token geometry"
  let vector ← arrayField payload "precision_vector" "ScoutRank precision_vector length mismatch"
  rejectIf (vector.length ≠ rows.length) "ScoutRank precision_vector length mismatch"
  rejectIf (!Json.equalItems (rows.map fun row => (row.get? "precision").getD .null) vector)
    "ScoutRank precision_vector does not match blocks"
  let totals ← scanBlocks tokenCount 0
    ⟨0, 0, 0, 0, Dict.ofList (scoutrankPrecisionBits.map fun e => (e.1, 0)), []⟩ rows
  rejectIf (totals.cursor ≠ tokenCount) "ScoutRank blocks do not exactly cover request tokens"
  requireInt plan "eligible_block_count" totals.eligible "ScoutRank eligible block count mismatch"
  checkRanks rows totals.eligible
  let digest ← validateScoutrankTotals payload plan totals
  return (totals.blocks, digest)

/-- The precisions of the tokens, each one of the known ones. -/
def precisionTexts : List (Json F) → Result (List String)
  | [] => .ok []
  | .str s :: rest =>
    if (Dict.find s scoutrankPrecisionBits).isNone then
      valueError "ScoutRank-v3 functional precision_by_token is invalid"
    else do
      let more ← precisionTexts rest
      return s :: more
  | .arr _ :: _ => raise .typeError "unhashable type: 'list'"
  | .obj _ :: _ => raise .typeError "unhashable type: 'dict'"
  | _ :: _ => valueError "ScoutRank-v3 functional precision_by_token is invalid"

/-- A token that is masked out must be forced, and assigned, full precision. -/
def checkTokenStatus : List (Json F) → List String → Result Unit
  | [], _ => .ok ()
  | .obj members :: rest, precisions => do
    let masked := !((Dict.find "valid_mask" members).getD (.bool true)).truthy
    rejectIf (masked && !((Dict.find "forced_precision" members).getD .null).equalsText "BF16")
      "ScoutRank-v3 invalid token status must force BF16"
    rejectIf (masked && precisions.head? ≠ some "BF16")
      "ScoutRank-v3 invalid token cannot use a quantized precision"
    checkTokenStatus rest precisions.tail
  | _ :: _, _ => valueError "ScoutRank-v3 functional token_status is invalid"

/-- The status of the tokens may be left out. -/
def checkStatuses (status : Json F) (tokenCount : Int) (precisions : List String) : Result Unit :=
  match status with
  | .null => .ok ()
  | .arr statuses => do
    rejectIf ((statuses.length : Int) ≠ tokenCount)
      "ScoutRank-v3 functional token_status is invalid"
    checkTokenStatus statuses precisions
  | _ => valueError "ScoutRank-v3 functional token_status is invalid"

/-- The layout that a functional plan must have been made for. -/
def expectedLayout (config : MaKVConfig F) (layout : ChunkLayout) : List (String × Int) :=
  [("makv_num_layers", layout.numLayers), ("makv_num_kv_heads", layout.numKvHeads),
    ("makv_head_dim", layout.headDim), ("makv_protect_prefix_tokens", config.protectPrefixTokens),
    ("makv_protect_tail_tokens", config.protectTailTokens)]

def checkLayout (payload : Metadata F) : List (String × Int) → Result Unit
  | [] => .ok ()
  | (field, expected) :: rest => do
    requireInt payload field expected
      ("ScoutRank-v3 functional plan " ++ field ++ " mismatch")
    checkLayout payload rest

def validateFunctionalHeader (payload : Metadata F) (tokenCount : Int)
    (actualPromptTokenHash : String) (config : MaKVConfig F) : Result Unit := do
  rejectIf (!hasText payload "schema_version" scoutrankV3FunctionalPlanSchema)
    "unsupported ScoutRank-v3 functional plan schema"
  rejectIf (!hasText payload "status" "success")
    "ScoutRank-v3 functional plan status is not success"
  rejectIf (!hasText payload "strategy_version" scoutrankV3FunctionalStrategy)
    "unsupported ScoutRank-v3 functional plan strategy"
  rejectIf (!hasText payload "deployment_status" "experimental")
    "ScoutRank-v3 functional plan must be experimental"
  rejectIf (!config.allowScoutrankShadowPlan)
    "ScoutRank-v3 functional plan requires makv_allow_scoutrank_shadow_plan=true"
  requireInt payload "token_count" tokenCount "ScoutRank-v3 functional plan token_count mismatch"
  rejectIf (actualPromptTokenHash = "") "LMCache did not compute a prompt token hash"
  rejectIf (!hasText payload "prompt_token_hash" actualPromptTokenHash)
    "ScoutRank-v3 functional plan prompt token hash mismatch"
  rejectIf (!hasText payload "makv_scale_dtype" config.scaleDtype.text)
    "ScoutRank-v3 functional plan scale_dtype mismatch"
  rejectIf (!hasText payload "makv_quant_granularity" config.quantGranularity)
    "ScoutRank-v3 functional plan quantization granularity mismatch"

def validateScoutrankV3FunctionalPrecisionPlan (payload : Metadata F) (tokenCount : Int)
    (actualPromptTokenHash : String) (config : MaKVConfig F) (layout : ChunkLayout) :
    Result (List String × String) := do
  validateFunctionalHeader payload tokenCount actualPromptTokenHash config
  checkLayout payload (expectedLayout config layout)
  let values ← arrayField payload "precision_by_token"
    "ScoutRank-v3 functional precision_by_token is invalid"
  rejectIf ((values.length : Int) ≠ tokenCount)
    "ScoutRank-v3 functional precision_by_token is invalid"
  let precisions ← precisionTexts values
  checkStatuses ((payload.get? "token_status").getD .null) tokenCount precisions
  let digest := looseDigest (Dict.ofList ([
    ("schema_version", .str scoutrankV3FunctionalPlanSchema),
    ("strategy_version", .str scoutrankV3FunctionalStrategy),
    ("token_count", .int tokenCount),
    ("prompt_token_hash", .str actualPromptTokenHash),
    ("precision_by_token", .arr values),
    ("makv_scale_dtype", .str config.scaleDtype.text),
    ("makv_quant_granularity", .str config.quantGranularity)] ++
    (expectedLayout config layout).map fun e => (e.1, .int e.2)))
  return (precisions, digest)

def precisionBucket (bits : List Int) (kv : Nat) (precision : String) : Result Nat :=
  match Dict.find precision scoutrankPrecisionBits with
  | some pair => bucketOfBit bits (if kv = 0 then pair.1 else pair.2)
  | none => raise .keyError precision

/-- The ids of all layers and planes, for the precisions of the tokens of a chunk. -/
def precisionIds (bits : List Int) (precisions : List String) :
    List (Nat × Nat) → Result (List Nat)
  | [] => .ok []
  | (_, kv) :: rest => do
    let ids ← precisions.mapM (precisionBucket bits kv)
    let more ← precisionIds bits precisions rest
    return ids ++ more

/-- The plan both ScoutRank builders return. -/
def scoutPlan (F : Type) [PyFloat F] (layout : ChunkLayout) (config : MaKVConfig F)
    (tokenCount : Int) (bits : List Int) (bucketIds : Bytes)
    (sourceHash promptTokenHash strategy schema scheme : String) : MaKVQuantPlan :=
  let plan : MaKVQuantPlan := {
    protocolVersion := 1
    importanceLayout := "layer_kv_token"
    tokenCount := tokenCount
    chunkStart := layout.chunkStart
    chunkLength := layout.chunkEnd - layout.chunkStart
    bucketBits := bits
    bucketIds := bucketIds
    originalShape := layout.originalShape
    originalStrides := layout.originalStrides
    originalDtype := layout.originalDtype
    tokenDim := layout.tokenDim
    numLayers := layout.numLayers
    numKvHeads := layout.numKvHeads
    headDim := layout.headDim
    quantGranularity := config.quantGranularity
    scaleDtype := config.scaleDtype.text
    modelFingerprint := modelFingerprint layout.modelName layout.numLayers layout.numKvHeads
      layout.headDim
    parallelFingerprint := parallelFingerprint layout.worldSize layout.workerId
    checksum := 0
    sourcePlanHash := sourceHash
    sourceStrategy := strategy
    promptTokenHash := promptTokenHash
    precisionPlanSchema := schema
    precisionScheme := scheme }
  let fields : Metadata F := ((layoutChecksumFields plan bucketIds).set
    "source_plan_hash" (.str sourceHash)).set "prompt_token_hash" (.str promptTokenHash)
  { plan with checksum := jsonChecksum fields }

/-- The precisions with the protected head and tail of the request at full precision. -/
def effectivePrecision (config : MaKVConfig F) (tokenCount : Int) (precisions : List String) :
    List String :=
  let head := min config.protectPrefixTokens tokenCount
  let tail := min config.protectTailTokens (max 0 (tokenCount - head))
  precisions.mapIdx fun idx precision =>
    if (idx : Int) < head ∨ tokenCount - tail ≤ idx then "BF16" else precision

def rawDtypeBytes (originalDtype : String) : Result Nat :=
  match TorchDtypes.itemsize (originalDtype.replace "torch." "") with
  | some size => .ok size
  | none => valueError ("ScoutRank-v3 functional plan has unsupported dtype '" ++
      originalDtype ++ "'")

def buildChunkQuantPlanFromV3FunctionalPrecisionPlan (precisionPlan : Metadata F)
    (actualPromptTokenHash : String) (layout : ChunkLayout) (config : MaKVConfig F)
    (requestTokenCount : Option Int) : Result MaKVQuantPlan := do
  let tokenCount ← layout.requestTokens requestTokenCount
  rejectIf (!layout.inRequest tokenCount)
    "invalid MaKV chunk range for ScoutRank-v3 functional plan"
  rejectIf (config.bucketBits ≠ [16, 8, 4, 2])
    "ScoutRank-v3 functional plans require makv_bucket_bits=[16,8,4,2]"
  rejectIf (config.precisionScheme ≠ .kvSeparate4Tier)
    "ScoutRank-v3 functional plans require makv_precision_scheme=kv_separate_4tier"
  rejectIf (config.quantGranularity ≠ "per_token_head")
    "ScoutRank-v3 functional plans require makv_quant_granularity=per_token_head"
  let (precisionByToken, sourceHash) ← validateScoutrankV3FunctionalPrecisionPlan precisionPlan
    tokenCount actualPromptTokenHash config layout
  let expectedRawDtypeBytes ← rawDtypeBytes layout.originalDtype
  requireInt precisionPlan "raw_dtype_bytes" expectedRawDtypeBytes
    "ScoutRank-v3 functional plan raw dtype byte-width mismatch"
  let head := min config.protectPrefixTokens tokenCount
  let tail := min config.protectTailTokens (max 0 (tokenCount - head))
  let effective := effectivePrecision config tokenCount precisionByToken
  let sourceHash := looseDigest (F := F) (Dict.ofList [
    ("source_hash", .str sourceHash),
    ("protect_prefix_tokens", .int head),
    ("protect_tail_tokens", .int tail),
    ("effective_precision_by_token", .arr (effective.map .str))])
  let ids ← precisionIds config.bucketBits (pySlice effective layout.chunkStart layout.chunkEnd)
    (planeRows layout.numLayers)
  let bucketIds ← toByteString ids
  return scoutPlan F layout config tokenCount config.bucketBits bucketIds sourceHash
    actualPromptTokenHash scoutrankV3FunctionalStrategy scoutrankV3FunctionalPlanSchema
    config.precisionScheme.text

/-- `precision_by_token[start:end] = [precision] * (end - start)`, block by block. -/
def spreadBlocks (precisions : List String) (blocks : List ScoutBlock) : List String :=
  blocks.foldl
    (fun precisions block =>
      precisions.take block.start.toNat ++
        List.replicate (block.stop - block.start).toNat block.precision ++
        precisions.drop block.stop.toNat)
    precisions

/-- `int(request_token_count)`. -/
def givenTokenCount : Option Int → Result Int
  | some n => .ok n
  | none => raise .typeError "int() argument must be a string or a real number"

def buildChunkQuantPlanFromPrecisionPlan (precisionPlan : Metadata F)
    (actualPromptTokenHash : String) (layout : ChunkLayout) (config : MaKVConfig F)
    (requestTokenCount : Option Int) : Result MaKVQuantPlan :=
  if hasText precisionPlan "schema_version" scoutrankV3FunctionalPlanSchema then
    buildChunkQuantPlanFromV3FunctionalPrecisionPlan precisionPlan actualPromptTokenHash layout
      config requestTokenCount
  else do
    let tokenCount ← givenTokenCount requestTokenCount
    rejectIf (!layout.inRequest tokenCount)
      "invalid MaKV chunk range for ScoutRank precision plan"
    let (blocks, sourceHash) ← validateScoutrankPrecisionPlan precisionPlan tokenCount
      actualPromptTokenHash config
    rejectIf (config.bucketBits ≠ [16, 8, 4, 2])
      "ScoutRank four-tier plans require makv_bucket_bits=[16,8,4,2]"
    let precisionByToken := spreadBlocks (List.replicate tokenCount.toNat "") blocks
    let ids ← precisionIds [16, 8, 4, 2]
      (pySlice precisionByToken layout.chunkStart layout.chunkEnd) (planeRows layout.numLayers)
    let bucketIds ← toByteString ids
    -- this builder leaves the scheme of the plan at its default
    return scoutPlan F layout config tokenCount [16, 8, 4, 2] bucketIds sourceHash
      actualPromptTokenHash scoutrankStrategy scoutrankPlanSchema "shared"

end LMCache.MaKV
