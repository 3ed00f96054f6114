import LMCache.MaKV.ForcedPrecision
import LMCache.MaKV.FormatRoundTrip
import LMCache.MaKV.ManagerRuns
import LMCache.MaKV.Serde

/-!
# The naive fallback, there and back

A tensor without a plan travels as it is: the serializer puts its bytes into an envelope, the
manager stores them and the deserializer reads them back. The object does not carry the shape
of the tensor, and the deserializer takes that of a full chunk.
-/

namespace LMCache.MaKV

open Lib MaKVRemoteManager Async List Option

section Object

variable {F : Type} [PyFloat F]

/-- A blob that decodes to a raw payload under a key, with nothing to hide. -/
def IsNaive (F : Type) [PyFloat F] (key : String) (raw data : Bytes) : Prop :=
  ∀ copyPayloads verifyChecksum, ∃ object : MaKVObject F,
    decodeMakvObject data copyPayloads verifyChecksum = .ok object ∧
      object.objectType = "naive_fallback" ∧
      object.metadata.get? "cache_key" = some (.str key) ∧
      (∀ name ∈ hiddenMetadata, object.metadata.get? name = none) ∧
      ∀ name, (object.payloads.get? name).map Payload.toBytes =
        (Dict.empty.set "raw_kv_payload" raw : Payloads).get? name

def naiveMetadata (key : String) (reason : Json F) : Metadata F :=
  Dict.ofList [("cache_key", .str key), ("reason", reason)]

def naiveSize (key : String) (reason : Json F) (raw : Bytes) : Nat :=
  blobSize (storageMeta "naive_fallback" (naiveMetadata key reason))
    (Dict.empty.set "raw_kv_payload" raw)

omit [PyFloat F] in
theorem get?_naiveMetadata (key : String) (reason : Json F) (name : String) :
    (naiveMetadata key reason).get? name =
      if name = "cache_key" then some (.str key)
      else if name = "reason" then some reason else none := by
  rw [naiveMetadata, Dict.get?_ofList _ (by simp)]
  simp only [Dict.find, eq_comm]

theorem naiveObject_isNaive {key : String} {reason : Json F} {raw : Bytes}
    (hFits : naiveSize key reason raw < 2 ^ 32) :
    ∃ data, naiveObject key reason raw = .ok data ∧ IsNaive F key raw data := by
  have hReserved : ∀ name ∈ reservedObjectKeys, (naiveMetadata key reason).get? name = none := by
    intro name hName
    have hOther : ∀ name ∈ reservedObjectKeys, name ≠ "cache_key" ∧ name ≠ "reason" := by decide
    rw [get?_naiveMetadata, if_neg (hOther name hName).1, if_neg (hOther name hName).2]
  obtain ⟨data, decoded, table, hEncode, hGet, -, -, -, hDecode⟩ :=
    decode_encode_object hReserved hFits
  refine ⟨data, hEncode, fun copyPayloads verifyChecksum => ?_⟩
  obtain ⟨views, hViews, hPayloads⟩ := hDecode copyPayloads verifyChecksum
  refine ⟨_, hViews, rfl, ?_, fun name hName => ?_, hPayloads⟩
  · rw [hGet _ (by decide), get?_naiveMetadata]
    rfl
  · have hOther : ∀ name ∈ hiddenMetadata,
        name ≠ payloadTableKey ∧ name ≠ "cache_key" ∧ name ≠ "reason" := by decide
    obtain ⟨hTable, hNotKey, hNotReason⟩ := hOther name hName
    rw [hGet _ hTable, get?_naiveMetadata, if_neg hNotKey, if_neg hNotReason]
    rfl

variable {key : String} {raw data : Bytes}

theorem IsNaive.validateObject (h : IsNaive F key raw data) (verifyChecksum : Bool) :
    ∃ object, MaKVRemoteManager.validateObject F data verifyChecksum = .ok object ∧
      object.metadata.get? "cache_key" = some (.str key) := by
  obtain ⟨object, hDecode, -, hKey, hHidden, -⟩ := h false verifyChecksum
  refine ⟨object, ?_, hKey⟩
  have hResidual : residualDescriptor object.metadata = none := by
    rw [residualDescriptor, hHidden "residual" (by decide)]
  rw [MaKVRemoteManager.validateObject, hDecode, ok_bind, validateResidualMetadata, hResidual]
  rfl

theorem IsNaive.checkStored (h : IsNaive F key raw data) (manager : MaKVRemoteManager F)
    (s : ManagerMemory) : MaKVRemoteManager.checkStored manager key data s = .ok () := by
  obtain ⟨object, hValid, hKey⟩ := h.validateObject (verifyChecksum manager key data s)
  rw [MaKVRemoteManager.checkStored, hValid, ok_bind, hKey]
  simp [Json.equalsText]

theorem IsNaive.publicData (h : IsNaive F key raw data) :
    MaKVRemoteManager.publicData F data = .ok data := by
  obtain ⟨object, hDecode, -, -, hHidden, hPayloads⟩ := h true true
  have hNames : object.payloads.keys.any hiddenPayload = false := by
    refine List.any_eq_false.mpr fun name hName => ?_
    obtain ⟨payload, hPayload⟩ := Dict.mem_keys_iff.mp hName
    have hRaw := hPayloads name
    rw [hPayload, Dict.get?_set] at hRaw
    split at hRaw
    · rename_i hIs
      subst hIs
      decide
    · cases hRaw
  have hMetadata : hiddenMetadata.any object.metadata.contains = false := by
    refine List.any_eq_false.mpr fun name hName => ?_
    rw [Dict.contains, hHidden name hName]
    simp
  rw [MaKVRemoteManager.publicData, hDecode, ok_bind, hNames, hMetadata]
  rfl

theorem IsNaive.peekMakvHeader (h : IsNaive F key raw data) :
    ∃ header, MaKV.peekMakvHeader data = .ok header := by
  obtain ⟨object, hValid, -⟩ := h.validateObject true
  exact peekMakvHeader_of_validateObject hValid

end Object

theorem storageCall_alone {α : Type} (f : Dict String Bytes → α × Dict String Bytes)
    {s : ManagerMemory} (hFault : s.fault = none) :
    (storageCall f).alone s = (.ok (f s.storage).1, { s with storage := (f s.storage).2 }) := by
  rw [storageCall, alone_bind_ok (alone_suspend s),
    alone_bind_ok (alone_update _ s), alone_bind_ok (alone_suspend _)]
  simp only [hFault, alone_ofResult]

section Manager

variable {F : Type} [PyFloat F]

/-- What a state has to serve a GET of a key with: no view and no public object of it, and the
data in the storage, and in the hot cache where that has anything. -/
structure Serves (manager : MaKVRemoteManager F) (key : String) (data : Bytes)
    (s : ManagerMemory) : Prop where
  fault : s.fault = none
  stored : s.storage.get? key = some data
  hot : ∀ found, (cacheGet manager key s).1 = some found → found = data
  window : s.precisionWindows.get? key = none
  projected : s.publicBlobCache.get? key = none

variable {s : ManagerMemory}

theorem publicBlob_of_isNaive {key : String} {raw data : Bytes} (h : IsNaive F key raw data)
    (hProjected : s.publicBlobCache.get? key = none) :
    (publicBlob F key data s).1 = .ok data := by
  obtain ⟨header, hHeader⟩ := h.peekMakvHeader
  simp only [publicBlob, hHeader, hProjected, projectPublic, h.publicData]

theorem publicOf_alone {key : String} {raw data : Bytes} (h : IsNaive F key raw data)
    (hProjected : s.publicBlobCache.get? key = none) :
    ((publicOf F key (some data)).alone s).1 = .ok (some data) := by
  have hPublic : (Async.access (publicBlob F key data)).alone s =
      (.ok data, (publicBlob F key data s).2) := Prod.ext (publicBlob_of_isNaive h hProjected) rfl
  rw [publicOf, alone_bind_ok hPublic, alone_pure]

theorem admitStored_alone (manager : MaKVRemoteManager F) {key : String} {raw data : Bytes}
    (h : IsNaive F key raw data) (hProjected : s.publicBlobCache.get? key = none) :
    ∃ t, admitStored manager key data s = (.ok (), t) ∧ t.publicBlobCache.get? key = none := by
  obtain ⟨header, hHeader⟩ := h.peekMakvHeader
  simp only [admitStored, h.checkStored, trustHeader, hHeader]
  split
  · rename_i hTrust
    split at hTrust
    · cases hTrust
    · cases hTrust
  · rename_i t hTrust
    split at hTrust
    · cases hTrust
      exact ⟨_, rfl, hProjected⟩
    · cases hTrust
      exact ⟨_, rfl, hProjected⟩

theorem get_alone (manager : MaKVRemoteManager F) {key : String} {raw data : Bytes}
    (h : IsNaive F key raw data) (hServes : Serves manager key data s) :
    ((get manager key).alone s).1 = .ok (some data) := by
  have hActive : activePrecisionBlob key s = (none, s) := by
    simp only [activePrecisionBlob, expirePrecisionWindow, hServes.window, map_none]
  have hUpdate : (Async.update (activePrecisionBlob key)).alone s = (.ok none, s) := by
    rw [alone_update, hActive]
  rw [MaKVRemoteManager.get, alone_bind_ok hUpdate]
  obtain ⟨t, hInternal, hProjected⟩ :
      ∃ t, (getInternal manager key).alone s = (.ok (some data), t) ∧
      t.publicBlobCache.get? key = none := by
    rw [getInternal]
    cases hCache : (cacheGet manager key s).1 with
    | some found =>
      have hHit : (Async.update (cacheGet manager key)).alone s =
          (.ok (some data), (cacheGet manager key s).2) := by
        rw [alone_update, hCache, hServes.hot found hCache]
      rw [alone_bind_ok hHit]
      exact ⟨_, rfl, hServes.projected⟩
    | none =>
      have hMiss : (Async.update (cacheGet manager key)).alone s =
          (.ok none, (cacheGet manager key s).2) := by
        rw [alone_update, hCache]
      have hRead : (storageGet key).alone (cacheGet manager key s).2 =
          (.ok (some data), (cacheGet manager key s).2) := by
        rw [storageGet, storageCall_alone _
          (show (cacheGet manager key s).2.fault = none from hServes.fault)]
        exact Prod.ext (congrArg Except.ok hServes.stored) rfl
      obtain ⟨t, hAdmit, hProjected⟩ := admitStored_alone manager h
        (show (cacheGet manager key s).2.publicBlobCache.get? key = none from hServes.projected)
      have hAccess : (Async.access (admitStored manager key data)).alone
          (cacheGet manager key s).2 = (.ok (), t) := hAdmit
      rw [alone_bind_ok hMiss]
      refine ⟨t, ?_, hProjected⟩
      rw [alone_bind_ok hRead, alone_bind_ok hAccess, alone_pure]
  rw [alone_bind_ok hInternal]
  exact publicOf_alone h hProjected

omit [PyFloat F] in
theorem serves_commitPut (manager : MaKVRemoteManager F) (key : String) (data : Bytes)
    (hFault : s.fault = none) (hStored : s.storage.get? key = some data) :
    Serves manager key data (commitPut manager key data s).2 := by
  have hServes : Serves manager key data (cachePut manager key data { s with
      precisionWindows := s.precisionWindows.erase key
      publicBlobCache := s.publicBlobCache.erase key }) :=
    ⟨hFault, hStored, fun found hFound => MemoryCache.cacheGet_cachePut hFound,
      Dict.get?_erase_self _ _, Dict.get?_erase_self _ _⟩
  unfold commitPut trustHeader
  split
  · split
    · exact hServes
    · exact ⟨hServes.fault, hServes.stored, hServes.hot, hServes.window, hServes.projected⟩
  · exact hServes

end Manager

section Put

variable {F : Type} [PyFloat F] {W : Type} [Float32Arithmetic W] [CudaCodec]
  (H B : Type) [KvElement H W] [KvElement B W] [QdmRuntime F H] [QdmRuntime F B]

theorem put_naive_alone (manager : MaKVRemoteManager F) {key : String} {envelopeBytes : Bytes}
    {envelope : ClientPutEnvelope F} {reason : Json F} {raw data : Bytes}
    (hDecode : decodeClientPutEnvelope envelopeBytes = .ok envelope) (hKey : envelope.key = key)
    (hType : envelope.objectType = "naive_fallback")
    (hReason : envelope.metadata.get? "fallback_reason" = some reason)
    (hRaw : envelope.rawKvPayload = raw) (hObject : naiveObject key reason raw = .ok data)
    (hNaive : IsNaive F key raw data) {s : ManagerMemory} (hFault : s.fault = none) :
    ∃ t, (put H B manager key envelopeBytes).alone s = (.ok data.length, t) ∧
      Serves manager key data t := by
  obtain ⟨object, hValid, -⟩ := hNaive.validateObject true
  have hFor : (objectFor H B manager key envelope).alone s = (.ok data, s) := by
    rw [objectFor, if_pos hType, alone_ofResult, hReason, hRaw, getD_some, hObject]
  have hKeys : rejectIf (decide (envelope.key ≠ key))
      "MaKV request key does not match envelope key" = .ok () := by simp [hKey]
  have hPut : (storagePut key data).alone s =
      (.ok (), { s with storage := s.storage.set key data }) := storageCall_alone _ hFault
  have hCommit : (Async.access (commitPut manager key data)).alone
      { s with storage := s.storage.set key data } =
        (.ok (), (commitPut manager key data { s with storage := s.storage.set key data }).2) :=
    Prod.ext (commitPut_ok hValid _) rfl
  have hServes : Serves manager key data
      (commitPut manager key data { s with storage := s.storage.set key data }).2 :=
    serves_commitPut manager key data hFault (Dict.get?_set_self _ _ _)
  refine ⟨_, ?_, hServes⟩
  rw [put, alone_bind_ok (by rw [alone_ofResult, hDecode]),
    alone_bind_ok (by rw [alone_ofResult, hKeys]), alone_bind_ok hFor,
    alone_bind_ok (by rw [alone_ofResult, hValid]), alone_bind_ok hPut,
    alone_bind_ok hCommit, alone_pure]

end Put

section Client

variable {F : Type} [PyFloat F]

def reasonMetadata (reason : String) : Metadata F :=
  Dict.empty.set "fallback_reason" (.str reason)

def envelopeSize (F : Type) [PyFloat F] (key reason : String) (raw : Bytes) : Nat :=
  blobSize (envelopeMeta key "naive_fallback" (.null : Json F) (reasonMetadata reason))
    (Dict.empty.set "raw_kv_payload" raw)

variable {reason : String}

theorem serialize_naive {config : MaKVConfig F} (hConfig : config.fallback = .naive)
    {planned : Option (Result MaKVQuantPlan)} (hReason : fallbackReason planned = some reason)
    (key : String) (raw : Bytes) (requestTokenCount : Json F) :
    serialize config key raw requestTokenCount planned =
      encodeClientPutEnvelope key "naive_fallback" (.null : Json F) raw
        (reasonMetadata reason) := by
  simp only [serialize, hReason, if_pos hConfig]
  rfl

theorem envelope_naive {key : String} {raw : Bytes}
    (hFits : envelopeSize F key reason raw < 2 ^ 32) : ∃ (bytes : Bytes) (decoded : Metadata F),
      encodeClientPutEnvelope key "naive_fallback" (.null : Json F) raw (reasonMetadata reason) =
        .ok bytes ∧
      decodeClientPutEnvelope bytes = .ok ⟨key, "naive_fallback", decoded, raw⟩ ∧
      decoded.get? "fallback_reason" = some (.str reason) := by
  have hReserved : ∀ name ∈ reservedEnvelopeKeys,
      (reasonMetadata reason : Metadata F).get? name = none := by
    intro name hName
    have hOther : ∀ name ∈ reservedEnvelopeKeys, "fallback_reason" ≠ name := by decide
    rw [reasonMetadata, Dict.get?_set_ne _ (hOther name hName)]
    rfl
  obtain ⟨bytes, decoded, offset, hEncode, hDecode, hGet, -, -⟩ :=
    decode_encode_envelope hReserved hFits
  refine ⟨bytes, decoded, hEncode, hDecode, ?_⟩
  rw [hGet, if_neg (by decide), if_neg (by decide), if_neg (by decide), reasonMetadata,
    Dict.get?_set_self]
  rfl

theorem frombuffer_store {E : Type} [Storable E] {values : List E} (h : values ≠ []) :
    frombuffer E (Storable.store values) = .ok values := by
  have hLength := Storable.length_store values
  have hSize : (Storable.store values).isEmpty = false := by
    have hPos := Nat.mul_pos (length_pos_of_ne_nil h) (Storable.size_pos (α := E))
    rw [← hLength] at hPos
    exact isEmpty_eq_false_iff.mpr (ne_nil_of_length_pos hPos)
  simp [frombuffer, hSize, hLength, Storable.load_store]

theorem getShapes_head_inj {metadata : LMCacheMetadata} {T : Nat}
    (h : (metadata.getShapes none).headD [] = (metadata.getShapes (some T)).headD []) :
    T = metadata.chunkSize := by
  unfold LMCacheMetadata.getShapes at h
  split at h
  · simp only [getD_none, getD_some, map_cons, headD_cons, List.cons.injEq] at h
    exact h.2.2.1.symm
  · simp only [getD_none, getD_some, headD_cons, List.cons.injEq] at h
    exact h.2.2.1.symm

theorem deserialize_naive [Sha256] {E : Type} [Storable E] {key : String} {raw data : Bytes}
    (h : IsNaive F key raw data) (metadata : LMCacheMetadata) (config : MaKVConfig F)
    (checksumVerified : Bool) :
    deserialize E metadata config data checksumVerified = (do
      let values ← frombuffer E raw
      let tensor ← viewAs values ((metadata.getShapes none).headD [])
      return .tensor tensor) := by
  obtain ⟨object, hDecode, hType, -, -, hPayloads⟩ := h false (!checksumVerified)
  have hRaw := hPayloads "raw_kv_payload"
  rw [Dict.get?_set_self] at hRaw
  obtain ⟨payload, hPayload, hBytes⟩ := map_eq_some_iff.mp hRaw
  rw [deserialize, hDecode, ok_bind, if_pos hType, hPayload, ← hBytes]
  rfl

end Client

section RoundTrip

variable {F : Type} [PyFloat F] [Sha256] {W : Type} [Float32Arithmetic W] [CudaCodec]
  (H B : Type) [KvElement H W] [KvElement B W] [QdmRuntime F H] [QdmRuntime F B]
  {E : Type} [Storable E]

/-- A client serializes a tensor, puts it through a manager, gets it back and deserializes it.
A tensor that the manager does not find is none. -/
def roundTrip (manager : MaKVRemoteManager F) (config : MaKVConfig F) (metadata : LMCacheMetadata)
    (key : String) (requestTokenCount : Json F) (planned : Option (Result MaKVQuantPlan))
    (checksumVerified : Bool) (t : Tensor E) (s : ManagerMemory) :
    Result (Option (Deserialized F E)) := do
  let envelope ← serialize config key (Storable.store t.data) requestTokenCount planned
  let stored := (put H B manager key envelope).alone s
  let _ ← stored.1
  match ← ((get manager key).alone stored.2).1 with
  | none => return none
  | some data => return some (← deserialize E metadata config data checksumVerified)

variable {manager : MaKVRemoteManager F} {reason : String}

/-- The round trip of an envelope that fits: the manager stores the raw payload, and the
deserializer reads it, unless the object does not fit. -/
theorem roundTrip_eq {config : MaKVConfig F} (hConfig : config.fallback = .naive)
    {planned : Option (Result MaKVQuantPlan)} {key : String}
    (hReason : fallbackReason planned = some reason) (requestTokenCount : Json F)
    (metadata : LMCacheMetadata) (checksumVerified : Bool) {s : ManagerMemory}
    (hFault : s.fault = none) (t : Tensor E)
    (hEnvelope : envelopeSize F key reason (Storable.store t.data) < 2 ^ 32)
    (hObject : naiveSize key (.str reason : Json F) (Storable.store t.data) < 2 ^ 32) :
    roundTrip H B manager config metadata key requestTokenCount planned checksumVerified t s = (do
      let values ← frombuffer E (Storable.store t.data)
      let tensor ← viewAs values ((metadata.getShapes none).headD [])
      return some (.tensor tensor)) := by
  obtain ⟨bytes, decoded, hEncode, hDecode, hGiven⟩ := envelope_naive hEnvelope
  obtain ⟨data, hData, hNaive⟩ := naiveObject_isNaive hObject
  obtain ⟨u, hPut, hServes⟩ := put_naive_alone H B manager hDecode rfl rfl hGiven rfl hData hNaive
    hFault
  rw [roundTrip, serialize_naive hConfig hReason, hEncode, ok_bind]
  dsimp only
  rw [hPut, ok_bind, get_alone manager hNaive hServes, ok_bind]
  dsimp only
  rw [deserialize_naive hNaive]
  cases frombuffer E (Storable.store t.data) with
  | error e => rfl
  | ok values =>
    rw [ok_bind, ok_bind]
    cases viewAs values ((metadata.getShapes none).headD []) <;> rfl

theorem naiveSize_lt_of_roundTrip {config : MaKVConfig F} (hConfig : config.fallback = .naive)
    {planned : Option (Result MaKVQuantPlan)} {key : String}
    (hReason : fallbackReason planned = some reason) {requestTokenCount : Json F}
    {metadata : LMCacheMetadata} {checksumVerified : Bool} {s : ManagerMemory} {t : Tensor E}
    {found : Option (Deserialized F E)}
    (hEnvelope : envelopeSize F key reason (Storable.store t.data) < 2 ^ 32)
    (h : roundTrip H B manager config metadata key requestTokenCount planned checksumVerified t
      s = .ok found)
    : naiveSize key (.str reason : Json F) (Storable.store t.data) < 2 ^ 32 := by
  obtain ⟨bytes, decoded, hEncode, hDecode, hGiven⟩ := envelope_naive hEnvelope
  cases hData : naiveObject key (.str reason : Json F) (Storable.store t.data) with
  | ok data =>
    have hBlob : encodeBlob objectMagic
        (storageMeta "naive_fallback" (naiveMetadata key (.str reason : Json F)))
        (Dict.empty.set "raw_kv_payload" (Storable.store t.data)) 1 = .ok data := hData
    exact blobSize_lt_of_encodeBlob hBlob
  | error e =>
    have hFor : (objectFor H B manager key
        ⟨key, "naive_fallback", decoded, Storable.store t.data⟩).alone s = (.error e, s) := by
      rw [objectFor, if_pos rfl, alone_ofResult, hGiven, getD_some, hData]
    have hPut : (put H B manager key bytes).alone s = (.error e, s) := by
      rw [put, alone_bind_ok (by rw [alone_ofResult, hDecode]),
        alone_bind_ok (a := ()) (t := s) (by simp),
        alone_bind_error hFor]
    rw [roundTrip, serialize_naive hConfig hReason, hEncode, ok_bind] at h
    dsimp only at h
    rw [hPut, error_bind] at h
    cases h

end RoundTrip

/-- One layer with one head of one element, in chunks of two tokens. -/
def pairMetadata : LMCacheMetadata where
  modelName := "m"
  worldSize := 1
  workerId := 0
  kvDtype := "torch.float16"
  kvShape := ⟨1, 2, 2, 1, 1⟩
  chunkSize := 2
  kernelGroups := none

def fullChunk : Tensor UInt16 := ⟨[2, 1, 2, 1], [1, 2, 3, 4], rfl⟩

def lastChunk : Tensor UInt16 := ⟨[2, 1, 1, 1], [1, 2], rfl⟩

def naiveConfig : MaKVConfig Decimal := { halvesConfig with fallback := .naive }

end LMCache.MaKV
