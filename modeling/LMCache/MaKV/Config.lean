import LMCache.Lib.ExactFloat
import LMCache.MaKV.Format

/-!
# The MaKV configuration

The runtime configuration carries the MaKV settings in one dictionary. The validator
checks the dictionary, and the normalized configuration is built from a dictionary that
passed. What the validator asks of its surroundings (the parser of URLs, the CUDA
extension) is a parameter.
-/

namespace LMCache.MaKV

open Lib

variable {F : Type} [PyFloat F]

inductive PrecisionScheme
  | shared
  | kvSeparate3Tier
  | kvSeparate4Tier
  deriving DecidableEq, Repr

def PrecisionScheme.text : PrecisionScheme → String
  | .shared => "shared"
  | .kvSeparate3Tier => "kv_separate_3tier"
  | .kvSeparate4Tier => "kv_separate_4tier"

inductive ScaleDtype
  | float16
  | float32
  deriving DecidableEq, Repr

def ScaleDtype.text : ScaleDtype → String
  | .float16 => "float16"
  | .float32 => "float32"

inductive DequantBackend
  | cuda
  | reference
  deriving DecidableEq, Repr

inductive Fallback
  | naive
  | miss
  deriving DecidableEq, Repr

inductive EntropyCodec
  | none
  | cachegenArithmetic
  deriving DecidableEq, Repr

inductive EntropyBackend
  | auto
  | cuda
  | reference
  deriving DecidableEq, Repr

inductive ResidualDtype
  | none
  | float16
  | float32
  deriving DecidableEq, Repr

inductive RiskUpgradePolicy
  | next
  | full
  deriving DecidableEq, Repr

inductive StorageBackend
  | file
  | redis
  | mooncake
  deriving DecidableEq, Repr

inductive ImportanceLayout
  | token
  | layerKvToken
  deriving DecidableEq, Repr

/-- The settings that planning, quantization, the manager and the deserializer read. -/
structure MaKVConfig (F : Type) where
  bucketRatios : List F
  bucketBits : List Int
  importanceLayout : ImportanceLayout
  quantGranularity : String
  scaleDtype : ScaleDtype
  protectPrefixTokens : Int
  protectTailTokens : Int
  dequantBackend : DequantBackend
  requireCudaDequant : Bool
  fallback : Fallback
  enableChecksum : Bool
  allowScoutrankShadowPlan : Bool
  precisionScheme : PrecisionScheme
  enableQdm : Bool
  qdmBlockSize : Int
  qdmQuantizerVersion : String
  entropyCodec : EntropyCodec
  entropyBackend : EntropyBackend
  entropyRequireCuda : Bool
  residualDtype : ResidualDtype
  riskUpgradeThreshold : F
  riskUpgradePolicy : RiskUpgradePolicy
  riskWindowTokens : Int
  riskWindowTtlS : F

structure RuntimeConfig (F : Type) where
  remoteSerde : Option String
  remoteUrl : String
  extraConfig : Metadata F

/-- What the validator asks of the machine and of the URL parser. -/
structure Environment where
  urlScheme : String → String
  scoutUrlComplete : String → Bool
  cudaExtension : Bool
  pagedCudaOp : Bool

def decimal (whole : Nat) (fraction : List Char) : F :=
  FloatText.ofLiteral (.decimal ⟨false, whole, fraction, none⟩)

/-- `extra.get(key)`. -/
def setting (extra : Metadata F) (key : String) : Json F := (extra.get? key).getD .null

/-- `str(value).strip().lower()`, with dashes replaced where `dashes` is set. -/
def normalText (dashes : Bool) (value : Json F) : String :=
  let text := PyRuntime.lower F (PyRuntime.strip F value.toText)
  if dashes then text.replace "-" "_" else text

/-- A setting with a fixed set of values; `None` stands for `standard`. -/
def normalizeChoice {α : Type} (choices : List (String × α)) (dashes : Bool) (standard : α)
    (message : String) (value : Json F) : Result α :=
  match value with
  | .null => .ok standard
  | value =>
    match Dict.find (normalText dashes value) choices with
    | some choice => .ok choice
    | none => valueError (message ++ ", got " ++ PyRuntime.reprOf value)

def normalizeImportanceLayout (value : Json F) : Result ImportanceLayout :=
  normalizeChoice [("token", .token), ("layer_kv_token", .layerKvToken)] true .token
    "makv_importance_layout must be 'token' or 'layer_kv_token'" value

def normalizeScaleDtype (value : Json F) : Result ScaleDtype :=
  normalizeChoice [("float16", .float16), ("float32", .float32)] false .float16
    "makv_scale_dtype must be 'float16' or 'float32'" value

def normalizeBackend (value : Json F) : Result DequantBackend :=
  normalizeChoice [("cuda", .cuda), ("reference", .reference)] false .cuda
    "makv_dequant_backend must be 'cuda' or 'reference'" value

def normalizeFallback (value : Json F) : Result Fallback :=
  normalizeChoice [("naive", .naive), ("miss", .miss)] false .naive
    "makv_fallback must be 'naive' or 'miss'" value

def normalizeEntropyCodec (value : Json F) : Result EntropyCodec :=
  normalizeChoice [("none", .none), ("cachegen_arithmetic", .cachegenArithmetic)] true .none
    "makv_entropy_codec must be one of none, cachegen_arithmetic" value

def normalizeEntropyBackend (value : Json F) : Result EntropyBackend :=
  normalizeChoice [("auto", .auto), ("cuda", .cuda), ("reference", .reference)] true .auto
    "makv_entropy_backend must be one of auto, cuda, reference" value

def normalizeResidualDtype (value : Json F) : Result ResidualDtype :=
  normalizeChoice [("none", .none), ("float16", .float16), ("float32", .float32)] false .none
    "makv_residual_dtype must be one of none, float16, float32" value

def normalizeRiskUpgradePolicy (value : Json F) : Result RiskUpgradePolicy :=
  normalizeChoice [("next", .next), ("full", .full)] true .next
    "makv_risk_upgrade_policy must be 'next' or 'full'" value

/-- The schemes under their names and aliases. -/
def normalizeMakvPrecisionScheme (value : Json F) : Result PrecisionScheme :=
  normalizeChoice [("shared", .shared), ("kv_separate_3tier", .kvSeparate3Tier),
    ("kv_separate_4tier", .kvSeparate4Tier), ("kv_separate", .kvSeparate3Tier),
    ("k8v4_k4v2_k2v2", .kvSeparate3Tier), ("kv_separate_with_bf16", .kvSeparate4Tier),
    ("k16v16_k8v4_k4v2_k2v2", .kvSeparate4Tier)] true .shared
    "makv_precision_scheme must be one of shared, kv_separate_3tier, kv_separate_4tier" value

/-- Failed conversions to a number, reported under one message. -/
def conversionError {α : Type} (message : String) : Result α → Result α
  | .error e =>
    if e.kind = .typeError ∨ e.kind = .valueError ∨ e.kind = .overflowError then
      valueError message
    else .error e
  | .ok a => .ok a

def normalizeRiskWindowTokens (value : Json F) : Result Int :=
  let message := "makv_risk_window_tokens must be a positive integer"
  match value with
  | .null => .ok 16
  | .bool _ => valueError message
  | value => do
    let tokens ← conversionError message value.toInt
    let fractional := match value with
      | .float x => !PyRuntime.equalsInt x tokens
      | _ => false
    rejectIf (tokens ≤ 0 || fractional) message
    return tokens

def isFinite (x : F) : Bool := !PyFloat.isNan x && !PyFloat.isInf x

def normalizeRiskWindowTtl (value : Json F) : Result F :=
  let message := "makv_risk_window_ttl_s must be finite and non-negative"
  match value with
  | .null => .ok (decimal 0 ['0'])
  | value => do
    let ttl ← conversionError message (PyRuntime.floatOf value)
    rejectIf (!isFinite ttl || PyFloat.lt ttl (decimal 0 ['0'])) message
    return ttl

def defaultMakvBucketRatios : PrecisionScheme → List F
  | .kvSeparate3Tier => [decimal 0 ['2', '0'], decimal 0 ['3', '0'], decimal 0 ['5', '0']]
  | .kvSeparate4Tier =>
    [decimal 0 ['1', '0'], decimal 0 ['2', '0'], decimal 0 ['5', '0'], decimal 0 ['2', '0']]
  | .shared => [decimal 0 ['2', '0'], decimal 0 ['3', '0'], decimal 0 ['5', '0']]

def defaultMakvBucketBits : PrecisionScheme → List Int
  | .kvSeparate3Tier => [8, 4, 2]
  | .kvSeparate4Tier => [16, 8, 4, 2]
  | .shared => [16, 8, 4]

def supportedBucketBits : List Int := [16, 8, 4, 2]

/-- `[float(v) for v in extra.get("makv_bucket_ratios", default_ratios)]`. -/
def bucketRatiosOf (extra : Metadata F) (scheme : PrecisionScheme) : Result (List F) :=
  match extra.get? "makv_bucket_ratios" with
  | none => .ok (defaultMakvBucketRatios scheme)
  | some value => do
    let items ← value.iterate
    items.mapM PyRuntime.floatOf

/-- `[int(v) for v in bits_raw]`; `None` stands for the default. -/
def bucketBitsOf (extra : Metadata F) (scheme : PrecisionScheme) : Result (List Int) :=
  match setting extra "makv_bucket_bits" with
  | .null => .ok (defaultMakvBucketBits scheme)
  | value => do
    let items ← value.iterate
    items.mapM Json.toInt

def storageBackendOfScheme (scheme : String) : Option StorageBackend :=
  Dict.find scheme [("file", .file), ("redis", .redis), ("rediss", .redis),
    ("mooncake", .mooncake)]

/-- The backend of the storage URL, checked against the backend that was named. -/
def normalizeStorageBackend (env : Environment) (value : Json F) (storageUrl : String) :
    Result StorageBackend := do
  let scheme := env.urlScheme storageUrl
  let inferred ← match storageBackendOfScheme scheme with
    | some backend => .ok backend
    | none => valueError ("Unsupported makv_storage_url scheme " ++
        PyRuntime.reprOf (.str scheme : Json F) ++
        "; use file://, redis://, rediss://, or mooncake://")
  let backend ← match value with
    | .null => .ok inferred
    | value =>
      match Dict.find (normalText false value) [("file", StorageBackend.file), ("redis", .redis),
          ("mooncake", .mooncake)] with
      | some backend => .ok backend
      | none => valueError ("makv_storage_backend must be one of file, redis, mooncake, got " ++
          PyRuntime.reprOf value)
  rejectIf (backend ≠ inferred) ("makv_storage_backend=" ++
    PyRuntime.reprOf (.str (normalText false value) : Json F) ++
    " does not match makv_storage_url scheme " ++ PyRuntime.reprOf (.str scheme : Json F))
  return backend

/-- `int(extra.get(key, standard))`. -/
def intSetting (extra : Metadata F) (key : String) (standard : Int) : Result Int :=
  ((extra.get? key).getD (.int standard)).toInt

/-- `bool(extra.get(key, standard))`. -/
def boolSetting (extra : Metadata F) (key : String) (standard : Bool) : Bool :=
  ((extra.get? key).getD (.bool standard)).truthy

/-- `float(extra.get(key, standard))`. -/
def floatSetting (extra : Metadata F) (key : String) (standard : F) : Result F :=
  PyRuntime.floatOf ((extra.get? key).getD (.float standard))

/-- `str(extra.get(key, standard))`. -/
def textSetting (extra : Metadata F) (key : String) (standard : String) : String :=
  ((extra.get? key).getD (.str standard)).toText

def defaultMakvStorageUrl : String := "redis://127.0.0.1:6379/0"

def validateBuckets (scheme : PrecisionScheme) (ratios : List F) (bits : List Int) :
    Result Unit := do
  rejectIf (ratios.length ≠ bits.length)
    "makv_bucket_ratios and makv_bucket_bits must have the same length"
  rejectIf ratios.isEmpty "makv_bucket_ratios must not be empty"
  rejectIf (ratios.any fun v => PyFloat.lt v (decimal 0 ['0']))
    "makv_bucket_ratios must be non-negative"
  rejectIf (!PyFloat.isClose (PyFloat.sum ratios) (decimal 1 ['0'])
      (FloatText.ofLiteral (.decimal ⟨false, 1, [], some (.minus, ['6'])⟩)))
    "makv_bucket_ratios must sum to 1.0"
  rejectIf (bits.any fun bit => bit ∉ supportedBucketBits)
    "makv_bucket_bits only supports 16/8/4/2 in the current implementation"
  rejectIf (bits.dedup.length ≠ bits.length)
    "makv_bucket_bits must not contain duplicate widths"
  rejectIf (scheme = .kvSeparate3Tier && bits ≠ [8, 4, 2])
    "makv_precision_scheme=kv_separate_3tier requires makv_bucket_bits=[8,4,2]"
  rejectIf (scheme = .kvSeparate4Tier && bits ≠ [16, 8, 4, 2])
    "makv_precision_scheme=kv_separate_4tier requires makv_bucket_bits=[16,8,4,2]"

def validateRisk (extra : Metadata F) : Result Unit := do
  let codec ← normalizeEntropyCodec (setting extra "makv_entropy_codec")
  let backend ← normalizeEntropyBackend (setting extra "makv_entropy_backend")
  rejectIf (boolSetting extra "makv_entropy_require_cuda" false && codec ≠ .none &&
      backend = .reference)
    "makv_entropy_require_cuda=true is incompatible with makv_entropy_backend=reference"
  let _ ← normalizeResidualDtype (setting extra "makv_residual_dtype")
  let threshold ← floatSetting extra "makv_risk_upgrade_threshold" (decimal 0 ['8'])
  rejectIf (!isFinite threshold || PyFloat.lt threshold (decimal 0 ['0']) ||
      PyFloat.lt (decimal 1 ['0']) threshold)
    "makv_risk_upgrade_threshold must be in [0, 1]"
  let _ ← normalizeRiskUpgradePolicy (setting extra "makv_risk_upgrade_policy")
  let _ ← normalizeRiskWindowTokens (setting extra "makv_risk_window_tokens")
  let _ ← normalizeRiskWindowTtl (setting extra "makv_risk_window_ttl_s")

def validateStorage (env : Environment) (extra : Metadata F) : Result Unit := do
  let backend ← normalizeStorageBackend env (setting extra "makv_storage_backend")
    (textSetting extra "makv_storage_url" defaultMakvStorageUrl)
  rejectIf (backend = .redis && textSetting extra "makv_storage_namespace" "lmcache:makv:" = "")
    "makv_storage_namespace must not be empty for Redis"

/-- `extra.get("makv_scout_url") or config.remote_url`. -/
def scoutUrlOf (config : RuntimeConfig F) : String :=
  if (setting config.extraConfig "makv_scout_url").truthy then
    (setting config.extraConfig "makv_scout_url").toText
  else config.remoteUrl

def validateScout (env : Environment) (config : RuntimeConfig F) : Result Unit := do
  let extra := config.extraConfig
  if boolSetting extra "makv_scout_overlap_enabled" false then
    rejectIf (!env.scoutUrlComplete (scoutUrlOf config))
      ("makv_scout_overlap_enabled=true requires makv_scout_url " ++
        "or remote_url in makv://host:port form")
    let timeout ← floatSetting extra "makv_scout_timeout_s" (decimal 60 ['0'])
    rejectIf (!PyFloat.lt (decimal 0 ['0']) timeout) "makv_scout_timeout_s must be positive"
  let qdmEnabled := ((extra.get? "makv_enable_qdm").getD
    ((extra.get? "enable_qdm").getD (.bool false))).truthy
  let qdmBlockSize ← ((extra.get? "makv_qdm_block_size").getD
    ((extra.get? "qdm_block_size").getD (.int 32))).toInt
  rejectIf (qdmEnabled && qdmBlockSize ≤ 0) "makv_qdm_block_size must be positive"

/-- Validate the MaKV settings when the remote serializer is MaKV's. -/
def validateMakvRuntimeConfig (env : Environment) (config : RuntimeConfig F) : Result Unit := do
  if config.remoteSerde ≠ some "makv" then return ()
  let extra := config.extraConfig
  let scheme ← normalizeMakvPrecisionScheme (setting extra "makv_precision_scheme")
  let ratios ← bucketRatiosOf extra scheme
  let bits ← bucketBitsOf extra scheme
  validateBuckets scheme ratios bits
  rejectIf (!((extra.get? "makv_quant_granularity").getD (.str "per_token_head")).equalsText
      "per_token_head")
    "makv_quant_granularity currently only supports 'per_token_head'"
  let _ ← normalizeImportanceLayout (setting extra "makv_importance_layout")
  let _ ← normalizeScaleDtype (setting extra "makv_scale_dtype")
  let backend ← normalizeBackend (setting extra "makv_dequant_backend")
  let _ ← normalizeFallback (setting extra "makv_fallback")
  validateRisk extra
  validateStorage env extra
  let protectPrefix ← intSetting extra "makv_protect_prefix_tokens" 4
  rejectIf (protectPrefix < 0) "makv_protect_prefix_tokens must be >= 0"
  let protectTail ← intSetting extra "makv_protect_tail_tokens" 16
  rejectIf (protectTail < 0) "makv_protect_tail_tokens must be >= 0"
  validateScout env config
  if boolSetting extra "makv_require_cuda_dequant" true && backend = .cuda then
    if !env.cudaExtension then
      raise .runtimeError ("makv_require_cuda_dequant=true but no usable LMCache CUDA " ++
        "extension (lmcache.cuda_ops or lmcache.c_ops) is available")
    if !env.pagedCudaOp then
      raise .runtimeError ("makv_require_cuda_dequant=true but " ++
        "lmcache_makv.dequantize_scatter_paged_out is unavailable")

def getMakvConfig (env : Environment) (config : RuntimeConfig F) : Result (MaKVConfig F) := do
  validateMakvRuntimeConfig env config
  let extra := config.extraConfig
  let scheme ← normalizeMakvPrecisionScheme (setting extra "makv_precision_scheme")
  let _ ← normalizeStorageBackend env (setting extra "makv_storage_backend")
    (textSetting extra "makv_storage_url" defaultMakvStorageUrl)
  let codec ← normalizeEntropyCodec (setting extra "makv_entropy_codec")
  let entropyBackend ← normalizeEntropyBackend (setting extra "makv_entropy_backend")
  let ratios ← bucketRatiosOf extra scheme
  let bits ← bucketBitsOf extra scheme
  let layout ← normalizeImportanceLayout (setting extra "makv_importance_layout")
  let scaleDtype ← normalizeScaleDtype (setting extra "makv_scale_dtype")
  let protectPrefix ← intSetting extra "makv_protect_prefix_tokens" 4
  let protectTail ← intSetting extra "makv_protect_tail_tokens" 16
  let dequantBackend ← normalizeBackend (setting extra "makv_dequant_backend")
  let fallback ← normalizeFallback (setting extra "makv_fallback")
  let qdmBlockSize ← ((extra.get? "makv_qdm_block_size").getD
    ((extra.get? "qdm_block_size").getD (.int 32))).toInt
  let _ ← floatSetting extra "makv_scout_timeout_s" (decimal 60 ['0'])
  let residualDtype ← normalizeResidualDtype (setting extra "makv_residual_dtype")
  let threshold ← floatSetting extra "makv_risk_upgrade_threshold" (decimal 0 ['8'])
  let policy ← normalizeRiskUpgradePolicy (setting extra "makv_risk_upgrade_policy")
  let windowTokens ← normalizeRiskWindowTokens (setting extra "makv_risk_window_tokens")
  let windowTtl ← normalizeRiskWindowTtl (setting extra "makv_risk_window_ttl_s")
  return {
    bucketRatios := ratios
    bucketBits := bits
    importanceLayout := layout
    quantGranularity := textSetting extra "makv_quant_granularity" "per_token_head"
    scaleDtype := scaleDtype
    protectPrefixTokens := protectPrefix
    protectTailTokens := protectTail
    dequantBackend := dequantBackend
    requireCudaDequant := boolSetting extra "makv_require_cuda_dequant" true
    fallback := fallback
    enableChecksum := boolSetting extra "makv_enable_checksum" true
    allowScoutrankShadowPlan := boolSetting extra "makv_allow_scoutrank_shadow_plan" false
    precisionScheme := scheme
    enableQdm := ((extra.get? "makv_enable_qdm").getD
      ((extra.get? "enable_qdm").getD (.bool false))).truthy
    qdmBlockSize := qdmBlockSize
    qdmQuantizerVersion := textSetting extra "makv_qdm_quantizer_version"
      "makv_per_token_head_symmetric_narrow_v1"
    entropyCodec := codec
    entropyBackend := entropyBackend
    entropyRequireCuda := boolSetting extra "makv_entropy_require_cuda" false
    residualDtype := residualDtype
    riskUpgradeThreshold := threshold
    riskUpgradePolicy := policy
    riskWindowTokens := windowTokens
    riskWindowTtlS := windowTtl }

end LMCache.MaKV
