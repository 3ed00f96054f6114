import LMCache.Lib.Coroutine
import LMCache.MaKV.MemoryCache
import LMCache.MaKV.Quantizer

/-!
# The remote manager

The manager takes PUT envelopes, quantizes what they hold and stores the objects; a GET
returns an object without what only the manager may see. All requests run on one event loop
and give way to each other while they wait for the storage adapter. An adapter operation
takes effect at one moment of the wait, or raises and has no effect.
-/

namespace LMCache.MaKV

open Lib

variable {F : Type} [PyFloat F]

/-- One item of `bytes(items)`. -/
def byteOfItem : Json F → Result UInt8
  | .int n =>
    if 0 ≤ n ∧ n < 256 then .ok (UInt8.ofNat n.toNat)
    else valueError "bytes must be in range(0, 256)"
  | .bool b => .ok (if b then 1 else 0)
  | _ => raise .typeError "object cannot be interpreted as an integer"

/-- `bytes(value)`: of an integer that many zeros, of anything iterable its items. -/
def bytesOf : Json F → Result Bytes
  | .int n => if n < 0 then valueError "negative count" else .ok (Bytes.zeros n.toNat)
  | .bool b => .ok (Bytes.zeros (if b then 1 else 0))
  | .str _ => raise .typeError "string argument without an encoding"
  | .arr items => items.mapM byteOfItem
  | .obj members => members.mapM fun m => byteOfItem (.str m.1 : Json F)
  | _ => raise .typeError "cannot convert object to bytes"

/-- `int(data[key])`. -/
def intItem (data : Json F) (key : String) : Result Int := do (← data.item key).toInt

/-- `str(data[key])`. -/
def textItem (data : Json F) (key : String) : Result String := do return (← data.item key).toText

/-- `tuple(int(value) for value in data[key])`. -/
def intItemsAt (data : Json F) (key : String) : Result (List Int) := do intItems (← data.item key)

/-- `str(data.get(key, standard))`. -/
def textOr (data : Json F) (key standard : String) : String :=
  ((data.get? key).getD (.str standard)).toText

def planFromDict (data : Json F) : Result MaKVQuantPlan := do
  let protocolVersion ← intItem data "protocol_version"
  let importanceLayout ← textItem data "importance_layout"
  let tokenCount ← intItem data "token_count"
  let chunkStart ← intItem data "chunk_start"
  let chunkLength ← intItem data "chunk_length"
  let bucketBits ← intItemsAt data "bucket_bits"
  let bucketIds ← bytesOf (← data.item "bucket_ids")
  let originalShape ← intItemsAt data "original_shape"
  let originalStrides ← intItemsAt data "original_strides"
  let originalDtype ← textItem data "original_dtype"
  let tokenDim ← intItem data "token_dim"
  let numLayers ← intItem data "num_layers"
  let numKvHeads ← intItem data "num_kv_heads"
  let headDim ← intItem data "head_dim"
  let quantGranularity ← textItem data "quant_granularity"
  let scaleDtype ← textItem data "scale_dtype"
  let modelFingerprint ← textItem data "model_fingerprint"
  let parallelFingerprint ← textItem data "parallel_fingerprint"
  let checksum ← intItem data "checksum"
  let nanProtectedCount ← ((data.get? "nan_protected_count").getD (.int 0)).toInt
  let infProtectedCount ← ((data.get? "inf_protected_count").getD (.int 0)).toInt
  return {
    protocolVersion, importanceLayout, tokenCount, chunkStart, chunkLength, bucketBits, bucketIds
    originalShape, originalStrides, originalDtype, tokenDim, numLayers, numKvHeads, headDim
    quantGranularity, scaleDtype, modelFingerprint, parallelFingerprint, checksum
    nanProtectedCount, infProtectedCount
    sourcePlanHash := textOr data "source_plan_hash" ""
    sourceStrategy := textOr data "source_strategy" ""
    promptTokenHash := textOr data "prompt_token_hash" ""
    precisionPlanSchema := textOr data "precision_plan_schema" ""
    precisionScheme := textOr data "precision_scheme" "shared" }

abbrev ObjectHeader := Nat × Nat × Nat

/-- A temporary view of an object at a higher precision. -/
structure PrecisionWindow where
  blob : Bytes
  bucketIds : Bytes
  baseHeader : ObjectHeader
  activeTokenIndices : List Int
  startStep : Int
  lastStep : Int
  expiresStep : Int
  expiresAt : Option Int

/-- The state of the manager and of its storage: the objects, the exception that the adapter
raises while it fails, and the clock. `cacheAccesses` is a record that nothing reads. -/
structure ManagerMemory where
  storage : Dict String Bytes
  fault : Option PyException
  now : Int
  memoryCache : MemoryCache
  cacheAccesses : List CacheAccess
  publicBlobCache : Dict String (ObjectHeader × Bytes)
  precisionWindows : Dict String PrecisionWindow
  validatedObjects : Dict String ObjectHeader
  quantizeCalls : Nat

/-- A manager that has just been made, over some storage. -/
def ManagerMemory.fresh (storage : Dict String Bytes) (fault : Option PyException) (now : Int) :
    ManagerMemory :=
  ⟨storage, fault, now, .empty, [], Dict.empty, Dict.empty, Dict.empty, 0⟩

/-- The hot cache after an operation on it. -/
def ManagerMemory.withCache (s : ManagerMemory) (op : CacheOp) (cache : MemoryCache) :
    ManagerMemory :=
  { s with memoryCache := cache, cacheAccesses := ⟨op, cache.entries⟩ :: s.cacheAccesses }

structure MaKVRemoteManager (F : Type) where
  config : MaKVConfig F
  memoryCacheBytes : Int
  trustValidatedObjects : Bool
  nonneg : 0 ≤ memoryCacheBytes

namespace MaKVRemoteManager

/-- `MaKVRemoteManager.__init__`; the policy is one of the supported ones by its type. -/
def create (config : MaKVConfig F) (memoryCacheBytes : Int) (trustValidatedObjects : Bool) :
    Result (MaKVRemoteManager F) :=
  if h : memoryCacheBytes < 0 then valueError "memory_cache_bytes must be non-negative"
  else do
    let threshold := config.riskUpgradeThreshold
    rejectIf (PyFloat.isNan threshold || PyFloat.isInf threshold ||
        PyFloat.lt threshold (decimal 0 ['0']) || PyFloat.lt (decimal 1 ['0']) threshold)
      "risk_upgrade_threshold must be in [0, 1]"
    rejectIf (config.riskWindowTokens ≤ 0) "risk_window_tokens must be positive"
    rejectIf (PyFloat.isNan config.riskWindowTtlS || PyFloat.isInf config.riskWindowTtlS ||
        PyFloat.lt config.riskWindowTtlS (decimal 0 ['0']))
      "risk_window_ttl_s must be finite and non-negative"
    return ⟨config, memoryCacheBytes, trustValidatedObjects, by omega⟩

/-- An operation of the adapter: it takes effect while the caller waits, and the caller goes
on some time later. -/
def storageCall {α : Type} (f : Dict String Bytes → α × Dict String Bytes) :
    Async ManagerMemory α := do
  Async.suspend
  let outcome ← Async.update fun s =>
    match s.fault with
    | some e => (.error e, s)
    | none => (.ok (f s.storage).1, { s with storage := (f s.storage).2 })
  Async.suspend
  Async.ofResult outcome

def storageGet (key : String) : Async ManagerMemory (Option Bytes) :=
  storageCall fun objects => (objects.get? key, objects)

/-- The keys are read one by one; an adapter that reads them at once is one that nothing
comes between. -/
def storageGetMany (keys : List String) : Async ManagerMemory (List (Option Bytes)) :=
  keys.mapM storageGet

def storagePut (key : String) (data : Bytes) : Async ManagerMemory Unit :=
  storageCall fun objects => ((), objects.set key data)

def storageDelete (key : String) : Async ManagerMemory Bool :=
  storageCall fun objects => (objects.contains key, objects.erase key)

/-- `_expire_precision_window`: whether a window ended, by the step or by the clock. -/
def expirePrecisionWindow (key : String) (step : Option Int) (s : ManagerMemory) :
    Bool × ManagerMemory :=
  match s.precisionWindows.get? key with
  | none => (false, s)
  | some window =>
    if step.any (window.expiresStep ≤ ·) || window.expiresAt.any (· ≤ s.now) then
      (true, { s with precisionWindows := s.precisionWindows.erase key })
    else (false, s)

def activePrecisionBlob (key : String) (s : ManagerMemory) : Option Bytes × ManagerMemory :=
  let s := (expirePrecisionWindow key none s).2
  ((s.precisionWindows.get? key).map (·.blob), s)

def hiddenPayload (name : String) : Bool :=
  startsWith "residual_" name || startsWith "precision_window_" name

/-- The metadata that only the manager may see. -/
def hiddenMetadata : List String := ["residual", "risk_upgrade", "precision_window"]

def payloadBytes (object : MaKVObject F) : Payloads := object.payloads.mapValues Payload.toBytes

/-- The object without its hidden parts; one that has none is returned as it is. -/
def publicData (F : Type) [PyFloat F] (data : Bytes) : Result Bytes := do
  let decoded : MaKVObject F ← decodeMakvObject data true true
  if !decoded.payloads.keys.any hiddenPayload &&
      !hiddenMetadata.any decoded.metadata.contains then
    return data
  else
    encodeMakvObject decoded.objectType (hiddenMetadata.foldl Dict.erase decoded.metadata)
      ((payloadBytes decoded).filter fun name _ => !hiddenPayload name) decoded.protocolVersion

def projectPublic (F : Type) [PyFloat F] (key : String) (data : Bytes) (fingerprint : ObjectHeader)
    (s : ManagerMemory) : Result Bytes × ManagerMemory :=
  match publicData F data with
  | .error e => (.error e, s)
  | .ok blob =>
    (.ok blob, { s with publicBlobCache := s.publicBlobCache.set key (fingerprint, blob) })

def publicBlob (F : Type) [PyFloat F] (key : String) (data : Bytes) (s : ManagerMemory) :
    Result Bytes × ManagerMemory :=
  match peekMakvHeader data with
  | .error e => (.error e, s)
  | .ok fingerprint =>
    match s.publicBlobCache.get? key with
    | some (cached, blob) =>
      if cached = fingerprint then (.ok blob, s) else projectPublic F key data fingerprint s
    | none => projectPublic F key data fingerprint s

def checkedPlan (config : MaKVConfig F) (metadata : Metadata F) : Result MaKVQuantPlan := do
  let planData := (metadata.get? "plan").getD .null
  rejectIf (!planData.isObject) "MaKV quantized PUT requires a plan"
  let plan ← planFromDict planData
  rejectIf (plan.protocolVersion ≠ 1) "unsupported MaKV plan version"
  rejectIf (plan.bucketBits ≠ config.bucketBits) "MaKV plan bucket bits differ from manager config"
  rejectIf (plan.precisionScheme ≠ config.precisionScheme.text)
    "MaKV plan precision scheme differs from manager config"
  let expectedBucketIds :=
    if plan.importanceLayout = "token" then plan.chunkLength
    else plan.numLayers * 2 * plan.chunkLength
  rejectIf ((plan.bucketIds.length : Int) ≠ expectedBucketIds)
    "MaKV plan bucket map length mismatch"
  return plan

inductive RawDtype
  | float16
  | bfloat16
  deriving DecidableEq, Repr

def rawDtype (plan : MaKVQuantPlan) : Result RawDtype :=
  let name := removeText "torch." plan.originalDtype
  if name = "float16" then .ok .float16
  else if name = "bfloat16" then .ok .bfloat16
  else valueError "MaKV raw payload dtype must be float16 or bfloat16"

section Put

variable {W : Type} [Float32Arithmetic W] [CudaCodec]

/-- The raw payload as a canonical tensor, with the layers before the planes. -/
def canonicalKv (E : Type) [KvElement E W] (plan : MaKVQuantPlan) (rawPayload : Bytes) :
    Result (CanonicalKv E) := do
  rejectIf ((rawPayload.length : Int) ≠ plan.originalShape.prod * Storable.size E)
    "MaKV raw payload length mismatch"
  -- a tensor is not made from an empty buffer, nor viewed with a negative dimension
  rejectIf rawPayload.isEmpty "both buffer length (0) and count (-1) must not be 0"
  raiseIf .runtimeError (plan.originalShape.any (· < 0)) "invalid shape dimension"
  rejectIf (plan.originalShape ≠
      [2, plan.numLayers, plan.chunkLength, plan.numKvHeads * plan.headDim])
    "MaKV raw payload shape is not canonical KV_2LTD"
  raiseIf .runtimeError (plan.numKvHeads < 0 || plan.headDim < 0) "invalid shape dimension"
  let data : List E := Storable.load rawPayload
  let layers := plan.numLayers.toNat
  let tokens := plan.chunkLength.toNat
  let heads := plan.numKvHeads.toNat
  let dim := plan.headDim.toNat
  return {
    layers, tokens, heads, dim
    element := fun layer plane token head d =>
      data.getD ((((plane * layers + layer) * tokens + token) * heads + head) * dim + d)
        KvElement.zero }

def encodeQuantized {E : Type} [KvElement E W] [QdmRuntime F E] (config : MaKVConfig F)
    (metadata : Metadata F) (plan : MaKVQuantPlan) (kv : CanonicalKv E) : Result Bytes := do
  let (quantMetadata, payloads) ←
    if config.enableQdm then
      quantizeCanonicalKv kv plan config none true config.qdmBlockSize config.qdmQuantizerVersion
    else quantizeCanonicalKv kv plan config none false 32 ""
  let quantMetadata := quantMetadata.set "cache_key" (.str (← metadataText metadata "key"))
  let (quantMetadata, payloads) ← encodeEntropyPayloads quantMetadata payloads config.entropyCodec
    config.entropyBackend config.entropyRequireCuda
  encodeMakvObject "quantized" quantMetadata payloads 1

/-- The part of `_quantize` that depends on the element type. -/
def quantizeAs (E : Type) [KvElement E W] [QdmRuntime F E] (config : MaKVConfig F)
    (metadata : Metadata F) (plan : MaKVQuantPlan) (rawPayload : Bytes) :
    Async ManagerMemory Bytes := do
  let kv ← Async.ofResult (canonicalKv E plan rawPayload)
  Async.modify fun s => { s with quantizeCalls := s.quantizeCalls + 1 }
  Async.ofResult (encodeQuantized config metadata plan kv)

variable (H B : Type) [KvElement H W] [KvElement B W] [QdmRuntime F H] [QdmRuntime F B]

/-- `_quantize`, with `H` as `float16` and `B` as `bfloat16`. -/
def quantize (config : MaKVConfig F) (metadata : Metadata F) (rawPayload : Bytes) :
    Async ManagerMemory Bytes := do
  let plan ← Async.ofResult (checkedPlan config metadata)
  match ← Async.ofResult (rawDtype plan) with
  | .float16 => quantizeAs H config metadata plan rawPayload
  | .bfloat16 => quantizeAs B config metadata plan rawPayload

def naiveObject (key : String) (reason : Json F) (rawPayload : Bytes) : Result Bytes :=
  encodeMakvObject "naive_fallback" (Dict.ofList [("cache_key", .str key), ("reason", reason)])
    (Dict.empty.set "raw_kv_payload" rawPayload) 1

def objectFor (manager : MaKVRemoteManager F) (key : String) (envelope : ClientPutEnvelope F) :
    Async ManagerMemory Bytes :=
  if envelope.objectType = "naive_fallback" then
    Async.ofResult (naiveObject key
      ((envelope.metadata.get? "fallback_reason").getD (.str "missing_importance"))
      envelope.rawKvPayload)
  else
    tryCatch (quantize H B manager.config envelope.metadata envelope.rawKvPayload) fun e =>
      if manager.config.fallback ≠ .naive then throw e
      else Async.ofResult (naiveObject key (.str "remote_quantize_failure" : Json F)
        envelope.rawKvPayload)

def validateObject (F : Type) [PyFloat F] (data : Bytes) (verifyChecksum : Bool) :
    Result (MaKVObject F) := do
  let decoded : MaKVObject F ← decodeMakvObject data false verifyChecksum
  validateResidualMetadata decoded.metadata (payloadBytes decoded)
  return decoded

def trustHeader (manager : MaKVRemoteManager F) (key : String) (data : Bytes) (s : ManagerMemory) :
    Result Unit × ManagerMemory :=
  if manager.trustValidatedObjects then
    match peekMakvHeader data with
    | .error e => (.error e, s)
    | .ok header => (.ok (), { s with validatedObjects := s.validatedObjects.set key header })
  else (.ok (), s)

def cachePut (manager : MaKVRemoteManager F) (key : String) (data : Bytes) (s : ManagerMemory) :
    ManagerMemory :=
  s.withCache (.put key data) (s.memoryCache.cachePut manager.memoryCacheBytes key data)

/-- What `put` does once the object is stored. -/
def commitPut (manager : MaKVRemoteManager F) (key : String) (data : Bytes) (s : ManagerMemory) :
    Result Unit × ManagerMemory :=
  trustHeader manager key data (cachePut manager key data { s with
    precisionWindows := s.precisionWindows.erase key
    publicBlobCache := s.publicBlobCache.erase key })

def put (manager : MaKVRemoteManager F) (key : String) (envelopeBytes : Bytes) :
    Async ManagerMemory Nat := do
  let envelope : ClientPutEnvelope F ← Async.ofResult (decodeClientPutEnvelope envelopeBytes)
  Async.ofResult (rejectIf (envelope.key ≠ key) "MaKV request key does not match envelope key")
  let objectBytes ← objectFor H B manager key envelope
  let _ ← Async.ofResult (validateObject F objectBytes true)
  storagePut key objectBytes
  Async.access (commitPut manager key objectBytes)
  return objectBytes.length

end Put

def cacheGet (manager : MaKVRemoteManager F) (key : String) (s : ManagerMemory) :
    Option Bytes × ManagerMemory :=
  let found := s.memoryCache.cacheGet manager.memoryCacheBytes key
  (found.1, s.withCache (.get key) found.2)

def verifyChecksum (manager : MaKVRemoteManager F) (key : String) (data : Bytes)
    (s : ManagerMemory) : Bool :=
  if manager.trustValidatedObjects then
    let header := match peekMakvHeader data with
      | .ok header => some header
      | .error _ => none
    s.validatedObjects.get? key ≠ header
  else true

def checkStored (manager : MaKVRemoteManager F) (key : String) (data : Bytes) (s : ManagerMemory) :
    Result Unit := do
  let decoded ← validateObject F data (verifyChecksum manager key data s)
  rejectIf (!((decoded.metadata.get? "cache_key").getD .null).equalsText key)
    "stored MaKV cache key mismatch"

/-- Validate an object that was read from storage, and cache it. -/
def admitStored (manager : MaKVRemoteManager F) (key : String) (data : Bytes) (s : ManagerMemory) :
    Result Unit × ManagerMemory :=
  match checkStored manager key data s with
  | .error e => (.error e, s)
  | .ok _ =>
    match trustHeader manager key data s with
    | (.error e, s) => (.error e, s)
    | (.ok _, s) => (.ok (), cachePut manager key data s)

/-- `_get_internal_with_timing`. -/
def getInternal (manager : MaKVRemoteManager F) (key : String) :
    Async ManagerMemory (Option Bytes) := do
  match ← Async.update (cacheGet manager key) with
  | some data => return some data
  | none =>
    match ← storageGet key with
    | none => return none
    | some data =>
      Async.access (admitStored manager key data)
      return some data

def publicOf (F : Type) [PyFloat F] (key : String) :
    Option Bytes → Async ManagerMemory (Option Bytes)
  | none => return none
  | some data => do return some (← Async.access (publicBlob F key data))

/-- `get_with_timing`. -/
def get (manager : MaKVRemoteManager F) (key : String) : Async ManagerMemory (Option Bytes) := do
  let override ← Async.update (activePrecisionBlob key)
  let data ← match override with
    | some blob => pure (some blob)
    | none => getInternal manager key
  publicOf F key data

/-- The first loop of a batch: what a key has without the storage. -/
def lookupHot (manager : MaKVRemoteManager F) (key : String) (s : ManagerMemory) :
    Option Bytes × ManagerMemory :=
  match activePrecisionBlob key s with
  | (some blob, s) => (some blob, s)
  | (none, s) => cacheGet manager key s

/-- The values of a batch, each with whether it was found without the storage. -/
def fillMissing : List (Option Bytes) → List (Option Bytes) → List (Option Bytes × Bool)
  | [], _ => []
  | some data :: rest, loaded => (some data, true) :: fillMissing rest loaded
  | none :: rest, value :: loaded => (value, false) :: fillMissing rest loaded
  | none :: rest, [] => (none, false) :: fillMissing rest []

/-- The second loop of a batch: what was read from storage is validated and cached. -/
def admitLoaded (manager : MaKVRemoteManager F) (item : String × Option Bytes × Bool) :
    Async ManagerMemory Unit :=
  match item.2 with
  | (some data, false) => Async.access (admitStored manager item.1 data)
  | _ => return ()

/-- `get_many_with_timing`. -/
def getMany (manager : MaKVRemoteManager F) (keys : List String) :
    Async ManagerMemory (List (Option Bytes)) := do
  let found ← keys.mapM fun key => Async.update (lookupHot manager key)
  let missing := (keys.zip found).filterMap fun item => if item.2.isNone then some item.1 else none
  let loaded ← storageGetMany missing
  let values := fillMissing found loaded
  let _ ← (keys.zip values).mapM (admitLoaded manager)
  (keys.zip values).mapM fun item => publicOf F item.1 item.2.1

/-- The hot copies of an object go first. -/
def dropHot (key : String) (s : ManagerMemory) : ManagerMemory :=
  { s.withCache (.pop key) (s.memoryCache.pop key) with
    publicBlobCache := s.publicBlobCache.erase key
    precisionWindows := s.precisionWindows.erase key
    validatedObjects := s.validatedObjects.erase key }

def delete (key : String) : Async ManagerMemory Bool := do
  Async.modify (dropHot key)
  storageDelete key

end MaKVRemoteManager

end LMCache.MaKV
