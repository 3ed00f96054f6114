import LMCache.MaKV.Manager
import LMCache.MaKV.Ranking

/-!
# The manager as a system

Clients call the manager in any order and at any time; the calls are coroutines that wait
for the storage adapter at their suspension points. Outside the calls the clock runs, the
adapter fails and recovers, and precision windows appear.

Everything that can go wrong in a PUT goes wrong before its first update: the envelope, the
plan and the new object are checked first, and the adapter either stores the object or
raises. What follows the write cannot raise, since the header of an object that decodes can
be read.
-/

namespace LMCache.MaKV

open Lib MaKVRemoteManager

inductive ManagerCall
  | put (key : String) (envelopeBytes : Bytes)
  | get (key : String)
  | getMany (keys : List String)
  | delete (key : String)

inductive ManagerReply
  | stored (size : Nat)
  | object (data : Option Bytes)
  | objects (values : List (Option Bytes))
  | deleted (existed : Bool)
  deriving DecidableEq

/-- What happens to the state outside the calls. -/
inductive ManagerEvent
  | elapse (ticks : Nat)
  | adapter (fault : Option PyException)
  | window (key : String) (view : PrecisionWindow)

def ManagerEvent.apply : ManagerEvent → ManagerMemory → ManagerMemory
  | .elapse ticks, s => { s with now := s.now + ticks }
  | .adapter fault, s => { s with fault := fault }
  | .window key view, s => { s with precisionWindows := s.precisionWindows.set key view }

abbrev ManagerPool := Pool ManagerMemory (Result ManagerReply)

abbrev ManagerMove := PoolMove ManagerCall ManagerEvent

section System

variable {F : Type} [PyFloat F] {W : Type} [Float32Arithmetic W] [CudaCodec]
  (H B : Type) [KvElement H W] [KvElement B W] [QdmRuntime F H] [QdmRuntime F B]

def callCode (manager : MaKVRemoteManager F) :
    ManagerCall → Coroutine ManagerMemory (Result ManagerReply)
  | .put key envelopeBytes => (.stored <$> put H B manager key envelopeBytes : Async _ _).run
  | .get key => (.object <$> get manager key : Async _ _).run
  | .getMany keys => (.objects <$> getMany manager keys : Async _ _).run
  | .delete key => (.deleted <$> delete key : Async _ _).run

abbrev ManagerStep (manager : MaKVRemoteManager F) :
    ManagerPool → ManagerMove → ManagerPool → Prop :=
  Pool.Step (callCode H B manager) ManagerEvent.apply

end System

section Accounting

variable {F : Type}

def CacheAccounted (manager : MaKVRemoteManager F) (s : ManagerMemory) : Prop :=
  Accounted manager.memoryCacheBytes s.memoryCache s.cacheAccesses

variable {manager : MaKVRemoteManager F}

theorem keeps_storageCall {α : Type} (f : Dict String Bytes → α × Dict String Bytes) :
    (storageCall f).Keeps (CacheAccounted manager) := by
  refine Async.within_suspend.bind fun _ => ?_
  refine Async.Within.bind (Async.within_update ?_) fun outcome => ?_
  · intro s hs
    split <;> exact hs
  · exact Async.within_suspend.bind fun _ => Async.within_ofResult outcome

variable {s : ManagerMemory}

theorem accounted_trustHeader (h : CacheAccounted manager s) (key : String) (data : Bytes) :
    CacheAccounted manager (trustHeader manager key data s).2 := by
  unfold trustHeader
  split
  · split <;> exact h
  · exact h

theorem accounted_cachePut (h : CacheAccounted manager s) (key : String) (data : Bytes) :
    CacheAccounted manager (cachePut manager key data s) :=
  Accounted.cachePut h key data

theorem accounted_cacheGet (h : CacheAccounted manager s) (key : String) :
    CacheAccounted manager (cacheGet manager key s).2 :=
  Accounted.cacheGet h key

theorem accounted_activePrecisionBlob (h : CacheAccounted manager s) (key : String) :
    CacheAccounted manager (activePrecisionBlob key s).2 := by
  show CacheAccounted manager (expirePrecisionWindow key none s).2
  unfold expirePrecisionWindow
  split
  · exact h
  · split <;> exact h

theorem accounted_lookupHot (h : CacheAccounted manager s) (key : String) :
    CacheAccounted manager (lookupHot manager key s).2 := by
  have hActive := accounted_activePrecisionBlob h key
  unfold lookupHot
  split
  · rename_i hBlob
    rw [hBlob] at hActive
    exact hActive
  · rename_i hBlob
    rw [hBlob] at hActive
    exact accounted_cacheGet hActive key

theorem keeps_delete (key : String) : (delete key).Keeps (CacheAccounted manager) :=
  (Async.within_modify fun _ hs => Accounted.pop hs key).bind fun _ =>
    keeps_storageCall _

variable [PyFloat F]

theorem accounted_publicBlob (h : CacheAccounted manager s) (key : String) (data : Bytes) :
    CacheAccounted manager (publicBlob F key data s).2 := by
  have hProject : ∀ header, CacheAccounted manager (projectPublic F key data header s).2 := by
    intro header
    unfold projectPublic
    split <;> exact h
  unfold publicBlob
  split
  · exact h
  · split
    · split
      · exact h
      · exact hProject _
    · exact hProject _

theorem accounted_admitStored (h : CacheAccounted manager s) (key : String) (data : Bytes) :
    CacheAccounted manager (admitStored manager key data s).2 := by
  have hTrusted := accounted_trustHeader h key data
  unfold admitStored
  split
  · exact h
  · split
    · rename_i hTrust
      rw [hTrust] at hTrusted
      exact hTrusted
    · rename_i hTrust
      rw [hTrust] at hTrusted
      exact accounted_cachePut hTrusted key data

section Put

variable {W : Type} [Float32Arithmetic W] [CudaCodec] (H B : Type) [KvElement H W] [KvElement B W]
  [QdmRuntime F H] [QdmRuntime F B] {R : ManagerMemory → ManagerMemory → Prop}

/-- Making the object of a PUT counts a quantization at most. -/
theorem within_quantizeAs (hCount : ∀ s, R s { s with quantizeCalls := s.quantizeCalls + 1 })
    (E : Type) [KvElement E W] [QdmRuntime F E] (config : MaKVConfig F) (metadata : Metadata F)
    (plan : MaKVQuantPlan) (raw : Bytes) : (quantizeAs E config metadata plan raw).Within R :=
  (Async.within_ofResult _).bind fun _ =>
    (Async.within_modify hCount).bind fun _ => Async.within_ofResult _

theorem within_objectFor (hCount : ∀ s, R s { s with quantizeCalls := s.quantizeCalls + 1 })
    (manager : MaKVRemoteManager F) (key : String) (envelope : ClientPutEnvelope F) :
    (objectFor H B manager key envelope).Within R := by
  unfold objectFor
  split
  · exact Async.within_ofResult _
  · refine Async.Within.tryCatch ?_ fun e => ?_
    · refine (Async.within_ofResult _).bind fun plan =>
        (Async.within_ofResult _).bind fun dtype => ?_
      cases dtype with
      | float16 => exact within_quantizeAs hCount H _ _ plan _
      | bfloat16 => exact within_quantizeAs hCount B _ _ plan _
    · split
      · exact Async.within_throw e
      · exact Async.within_ofResult _

theorem keeps_put (key : String) (envelopeBytes : Bytes) :
    (put H B manager key envelopeBytes).Keeps (CacheAccounted manager) := by
  refine (Async.within_ofResult _).bind fun envelope => (Async.within_ofResult _).bind fun _ => ?_
  refine (within_objectFor H B (fun _ hs => hs) manager key envelope).bind fun objectBytes => ?_
  refine (Async.within_ofResult _).bind fun _ => (keeps_storageCall _).bind fun _ => ?_
  refine (Async.within_access fun s hs => ?_).bind fun _ => Async.within_pure _
  exact accounted_trustHeader (accounted_cachePut
    (show CacheAccounted manager { s with
      precisionWindows := s.precisionWindows.erase key
      publicBlobCache := s.publicBlobCache.erase key } from hs) key objectBytes) key objectBytes

end Put

theorem keeps_getInternal (key : String) :
    (getInternal manager key).Keeps (CacheAccounted manager) := by
  refine (Async.within_update fun s hs => accounted_cacheGet hs key).bind fun hot => ?_
  cases hot with
  | some data => exact Async.within_pure _
  | none =>
    refine (keeps_storageCall _).bind fun stored => ?_
    cases stored with
    | none => exact Async.within_pure _
    | some data =>
      exact (Async.within_access fun s hs => accounted_admitStored hs key data).bind fun _ =>
        Async.within_pure _

theorem keeps_publicOf (key : String) (data : Option Bytes) :
    (publicOf F key data).Keeps (CacheAccounted manager) := by
  cases data with
  | none => exact Async.within_pure _
  | some data =>
    exact (Async.within_access fun s hs => accounted_publicBlob hs key data).bind fun _ =>
      Async.within_pure _

theorem keeps_get (key : String) : (get manager key).Keeps (CacheAccounted manager) := by
  refine (Async.within_update fun s hs => accounted_activePrecisionBlob hs key).bind fun found => ?_
  cases found with
  | some blob => exact (Async.within_pure _).bind fun data => keeps_publicOf key data
  | none => exact (keeps_getInternal key).bind fun data => keeps_publicOf key data

theorem keeps_getMany (keys : List String) :
    (getMany manager keys).Keeps (CacheAccounted manager) := by
  refine (Async.within_mapM (fun key => Async.within_update fun s hs => accounted_lookupHot hs key)
    keys).bind fun found => ?_
  refine (Async.within_mapM (fun key => keeps_storageCall _) _).bind fun loaded => ?_
  refine (Async.within_mapM (fun item => ?_) _).bind fun _ =>
    Async.within_mapM (fun item : String × Option Bytes × Bool => keeps_publicOf item.1 item.2.1) _
  unfold admitLoaded
  split
  · exact Async.within_access fun s hs => accounted_admitStored hs _ _
  · exact Async.within_pure _

end Accounting

instance withoutCuda : CudaCodec := ⟨false, fun _ _ => []⟩

/-- Integers in the place of `float32`, for runs that never compute with elements. -/
instance integerArithmetic : Float32Arithmetic Int where
  ofCode n := n
  mul x y := x * y
  add x y := x + y
  sub x y := x - y
  toStored dtype x := Bytes.toLE dtype.size (x % 2 ^ 16).toNat
  ofStored _ bytes := Bytes.ofLE bytes
  length_toStored _ _ := Bytes.length_toLE ..

instance wordElement : KvElement UInt16 Int where
  size := 2
  toBytes x := Bytes.toLE 2 x.toNat
  ofBytes bs := UInt16.ofNat (Bytes.ofLE bs)
  size_pos := by decide
  length_toBytes _ := Bytes.length_toLE ..
  ofBytes_toBytes x := by
    rw [Bytes.ofLE_toLE (by have := x.toNat_lt; omega)]
    exact UInt16.ofNat_toNat
  zero := 0
  temporaryScale _ _ := 1
  roundQuotient x _ := x.toNat
  scaleBytes dtype x := Bytes.toLE dtype.size x.toNat
  widen x := x.toNat
  narrow n := UInt16.ofNat n.toNat
  length_scaleBytes _ _ := Bytes.length_toLE ..

instance noObserver : QdmRuntime Decimal UInt16 :=
  ⟨fun _ _ _ => raise .runtimeError "no observer"⟩

def smallManager : MaKVRemoteManager Decimal := ⟨halvesConfig, 300, false, by decide⟩

def sampleEnvelope (key : String) (raw : Bytes) : Bytes :=
  match encodeClientPutEnvelope key "naive_fallback" (.null : Json Decimal) raw Dict.empty with
  | .ok bytes => bytes
  | .error _ => []

/-- There is room for two objects of 193 bytes. The first one is read again before a third
one comes. -/
def twoObjectManager : MaKVRemoteManager Decimal := { smallManager with
  memoryCacheBytes := 400
  nonneg := by decide }

def hitBeforePut : List ManagerMove :=
  [.start (.put "a" (sampleEnvelope "a" [1])), .resume 0, .resume 0, .resume 0,
   .start (.put "b" (sampleEnvelope "b" [2])), .resume 1, .resume 1, .resume 1,
   .start (.get "a"), .resume 2,
   .start (.put "c" (sampleEnvelope "c" [3])), .resume 3, .resume 3, .resume 3]

def ManagerMemory.kept (s : ManagerMemory) :=
  (s.storage, s.memoryCache, s.precisionWindows, s.publicBlobCache, s.validatedObjects)

/-- The access leaves the storage and all tables as they are. -/
def SameTables (s t : ManagerMemory) : Prop := t.kept = s.kept

section Header

variable {F : Type} [PyFloat F]

theorem peekMakvHeader_of_decodeBlob {blob : Bytes} {verify : Bool}
    {decoded : Metadata F × Nat × Nat} (h : decodeBlob blob objectMagic verify = .ok decoded) :
    ∃ header, peekMakvHeader blob = .ok header := by
  simp only [decodeBlob, bind_eq_ok, rejectIf_eq_ok] at h
  obtain ⟨_, hLength, _, hMagic, _, hVersion, _, hTotal, -⟩ := h
  simp only [Bool.or_eq_false_iff] at hTotal
  refine ⟨(uint32At blob 4, uint32At blob 12, uint32At blob 16), ?_⟩
  rw [peekMakvHeader, hLength, hMagic, hVersion, hTotal.2]
  rfl

theorem peekMakvHeader_of_validateObject {blob : Bytes} {verify : Bool} {object : MaKVObject F}
    (h : validateObject F blob verify = .ok object) :
    ∃ header, peekMakvHeader blob = .ok header := by
  obtain ⟨decoded, hDecode, -⟩ := bind_eq_ok.mp h
  obtain ⟨parts, hBlob, -⟩ := bind_eq_ok.mp hDecode
  exact peekMakvHeader_of_decodeBlob hBlob

end Header

theorem storageCall_raisesWithin {α : Type} (f : Dict String Bytes → α × Dict String Bytes) :
    (storageCall f).RaisesWithin SameTables := by
  refine Async.within_suspend.raisesWithin_bind fun _ => ?_
  intro trace e h
  rcases Async.accesses_bind_error h with hFail | ⟨_, outcome, _, rfl, hCall, hLast⟩
  · obtain ⟨s, -, hOk⟩ := Async.accesses_access hFail
    cases hOk
  obtain ⟨s, rfl, hOutcome⟩ := Async.accesses_access hCall
  rcases Async.accesses_bind_error hLast with hFail | ⟨_, _, _, rfl, hAfter, hEnd⟩
  · cases (Async.accesses_suspend hFail).2
  obtain ⟨rfl, -⟩ := Async.accesses_suspend hAfter
  obtain ⟨rfl, hError⟩ := Async.accesses_ofResult hEnd
  intro access hAccess
  rw [List.nil_append, List.append_nil, List.mem_singleton] at hAccess
  subst hAccess
  cases hFault : s.fault with
  | some fault => simp [hFault, SameTables]
  | none =>
    simp only [hFault] at hOutcome
    rw [← hError] at hOutcome
    cases hOutcome

theorem commitPut_ok {F : Type} [PyFloat F] {manager : MaKVRemoteManager F} {key : String}
    {data : Bytes} {object : MaKVObject F} (h : validateObject F data true = .ok object)
    (s : ManagerMemory) : (commitPut manager key data s).1 = .ok () := by
  obtain ⟨header, hHeader⟩ := peekMakvHeader_of_validateObject h
  unfold commitPut trustHeader
  rw [hHeader]
  split <;> rfl

section Put

variable {F : Type} [PyFloat F] {W : Type} [Float32Arithmetic W] [CudaCodec]
  (H B : Type) [KvElement H W] [KvElement B W] [QdmRuntime F H] [QdmRuntime F B]

theorem put_raisesWithin (manager : MaKVRemoteManager F) (key : String) (envelopeBytes : Bytes) :
    (put H B manager key envelopeBytes).RaisesWithin SameTables := by
  refine (Async.within_ofResult _).raisesWithin_bind fun envelope => ?_
  refine (Async.within_ofResult _).raisesWithin_bind fun _ => ?_
  have hCount : ∀ s : ManagerMemory,
      SameTables s { s with quantizeCalls := s.quantizeCalls + 1 } := fun _ => rfl
  refine (within_objectFor H B hCount manager key envelope).raisesWithin_bind fun data => ?_
  refine Async.raisesWithin_ofResult_bind fun object hValid => ?_
  refine (storageCall_raisesWithin _).bind fun _ => ?_
  refine (Async.neverRaises_access (fun _ => ()) fun s => ?_).bind fun _ =>
    Async.neverRaises_pure _
  exact commitPut_ok hValid s

/-- When a PUT raises, at whatever point and whatever other calls run between its steps, none
of its steps has changed the storage, the hot cache, the precision windows, the public objects
or the validated objects; alone on the loop, it leaves all of them as they were. -/
theorem failed_put_changes_nothing (manager : MaKVRemoteManager F) (key : String)
    (envelopeBytes : Bytes) (e : PyException) :
    (∀ trace, (put H B manager key envelopeBytes).run.Accesses trace (.error e) →
      ∀ s ∈ trace, s.2.kept = s.1.kept) ∧
    ∀ s, ((put H B manager key envelopeBytes).alone s).1 = .error e →
      ((put H B manager key envelopeBytes).alone s).2.kept = s.kept := by
  have hRaises := put_raisesWithin H B manager key envelopeBytes
  refine ⟨fun trace hTrace => hRaises trace e hTrace, fun s hError => ?_⟩
  obtain ⟨trace, hTrace, hKept⟩ :=
    Coroutine.accesses_alone ManagerMemory.kept (put H B manager key envelopeBytes).run s
  have hTrace : (put H B manager key envelopeBytes).run.Accesses trace
      ((put H B manager key envelopeBytes).alone s).1 := hTrace
  rw [hError] at hTrace
  exact hKept (hRaises trace e hTrace)

end Put

def unreachable : PyException := ⟨.connectionError, "storage is unreachable"⟩

theorem unreachable_storage_put :
    ((put UInt16 UInt16 smallManager "a" (sampleEnvelope "a" [1])).alone
        (.fresh Dict.empty (some unreachable) 0)).1 = .error unreachable ∧
      ((put UInt16 UInt16 smallManager "a" (sampleEnvelope "a" [1])).alone
        (.fresh Dict.empty (some unreachable) 0)).2.kept =
      (ManagerMemory.fresh Dict.empty (some unreachable) 0).kept := by
  have hError : ((put UInt16 UInt16 smallManager "a" (sampleEnvelope "a" [1])).alone
      (.fresh Dict.empty (some unreachable) 0)).1 = .error unreachable := by decide +kernel
  exact ⟨hError, (failed_put_changes_nothing UInt16 UInt16 smallManager "a" (sampleEnvelope "a" [1])
    unreachable).2 _ hError⟩

end LMCache.MaKV
