import LMCache.L1.HeldLocks
import LMCache.Lib.Python
import LMCache.Prefetch.Plan

/-!
# Submitting a prefetch

`StorageManager.submit_prefetch_task`: the keys are read-locked in L1 first, then the policy decides
which of the locks stay and which keys are asked of L2. A warm request locks nothing. What the
call finds around it is a `SubmitEnv`.

A submission that raises after it has read-locked its keys does not give the locks back, but
for those the fold has already released. So it leaves the counts as they were exactly when the
locks of every readable key are undone by what it released, which is nothing on the branches
that raise before the fold.
-/

namespace LMCache

open Lib List L1Manager

/-- `AttnWindowDesc` as its constructor accepts it: the list of windows may be empty. -/
structure SubmittedWindows where
  numChunksInSw : List Int
  worldSize : Nat
  worldSize_pos : 1 ≤ worldSize
  windows_valid : ∀ w ∈ numChunksInSw, w = -1 ∨ 1 ≤ w

/-- `PrefetchRequestSpec` as a caller submits it. -/
structure SubmittedSpec (K : Type) where
  keys : List K
  numKvReaders : Nat
  policy : TrimPolicy
  attnDesc : SubmittedWindows
  mode : PrefetchMode
  numKvReaders_pos : 1 ≤ numKvReaders

structure PrefetchHandle where
  prefetchRequestId : Int
  externalRequestId : String
  l1FoundIndices : List Nat
  l1HitChunks : Nat
  totalRequestedKeys : Nat
  l2OrigIndices : List Nat
deriving DecidableEq, Repr

structure SubmitEnv where
  hasL2Adapters : Bool
  hasFoldKernel : Bool
  /-- The answer of `submit_prefetch_request`: a request id, or what `notify` raises. -/
  submission : Result Nat

namespace SubmitEnv

def submitToL2 {K : Type} (env : SubmitEnv) (skipL2 : Bool) (remainingKeys : List K) :
    Result (Option Nat) :=
  if !skipL2 && !remainingKeys.isEmpty && env.hasL2Adapters then env.submission.map some
  else .ok none

end SubmitEnv

/-- `prefetch_request_id`, `-1` where nothing was submitted. -/
def requestIdOf : Option Nat → Int
  | some requestId => requestId
  | none => -1

section Submit

variable {K : Type} [DecidableEq K]

/-- A result of `reserve_read` that hands out an object. -/
def isFound (l1ReadResult : Dict K L1OperationResult) (k : K) : Bool :=
  match l1ReadResult.get? k with
  | some (.success, some _) => true
  | _ => false

/-- The `SPARSE` path: every lock stays, every miss goes to L2. -/
def submitSparse (env : SubmitEnv) (spec : SubmittedSpec K)
    (l1ReadResult : Dict K L1OperationResult) (externalRequestId : String) (skipL2 : Bool) :
    Result PrefetchHandle := do
  let l1Presence := presenceBitmap spec.keys (isFound l1ReadResult)
  let remainingKeys := spec.keys.filter fun k => !isFound l1ReadResult k
  let requestId ← env.submitToL2 skipL2 remainingKeys
  return {
    prefetchRequestId := requestIdOf requestId
    externalRequestId
    l1FoundIndices := l1Presence.getIndicesList
    l1HitChunks := 0
    totalRequestedKeys := spec.keys.length
    l2OrigIndices := if requestId.isSome then l1Presence.not.getIndicesList else [] }

/-- `finish_read` of the keys outside the windows, if there are any. -/
def giveBack (m : L1Manager K) (released : List K) (readLocks : Nat) : L1Manager K :=
  if released.isEmpty then m else (m.finishRead released readLocks).manager

/-- The windows of a request that names a group. -/
def SubmittedSpec.windows (spec : SubmittedSpec K) (hGroups : ¬ spec.attnDesc.numChunksInSw = []) :
    AttnWindowDesc :=
  ⟨spec.attnDesc.numChunksInSw, spec.attnDesc.worldSize, spec.attnDesc.worldSize_pos,
    spec.attnDesc.windows_valid, hGroups⟩

def submitPrefixFold (env : SubmitEnv) (m : L1Manager K) (spec : SubmittedSpec K)
    (l1ReadResult : Dict K L1OperationResult) (externalRequestId : String) (skipL2 : Bool) :
    Result PrefetchHandle × L1Manager K :=
  if hGroups : spec.attnDesc.numChunksInSw = [] then
    -- `len(keys) // stride` with a stride of no group
    (raise .zeroDivisionError "integer division or modulo by zero", m)
  else if !env.hasFoldKernel then
    (raise .importError ("lmcache.lmcache_native lacks the fold kernel; install or " ++
      "build the full lmcache package"), m)
  else
    let attn := spec.windows hGroups
    let trim := prefixFold spec.keys attn (presenceBitmap spec.keys (isFound l1ReadResult))
    let handle := (env.submitToL2 skipL2 trim.remainingKeys).map fun requestId =>
      { prefetchRequestId := requestIdOf requestId
        externalRequestId
        l1FoundIndices := trim.retain.getIndicesList
        l1HitChunks := trim.l1HitChunks
        totalRequestedKeys := spec.keys.length
        l2OrigIndices :=
          if requestId.isSome then
            List.range' (trim.l1HitChunks * attn.stride)
              (spec.keys.length - trim.l1HitChunks * attn.stride)
          else [] }
    (handle, giveBack m (trim.released.gather spec.keys) spec.numKvReaders)

def submitPrefetchTask (env : SubmitEnv) (m : L1Manager K) (spec : SubmittedSpec K)
    (externalRequestId : String) (skipL2 : Bool) : Result PrefetchHandle × L1Manager K :=
  match spec.mode with
  | .warm =>
    let handle := (env.submitToL2 skipL2 spec.keys).map fun requestId =>
      { prefetchRequestId := requestIdOf requestId
        externalRequestId
        l1FoundIndices := []
        l1HitChunks := 0
        totalRequestedKeys := spec.keys.length
        l2OrigIndices := if requestId.isSome then List.range spec.keys.length else [] }
    (handle, m)
  | .lookup =>
    let l1Read := m.reserveRead spec.keys spec.numKvReaders
    match spec.policy with
    | .sparse =>
      (submitSparse env spec l1Read.reply externalRequestId skipL2, l1Read.manager)
    | .prefixOnly =>
      submitPrefixFold env l1Read.manager spec l1Read.reply externalRequestId skipL2
    | .segmentedPrefix =>
      (valueError "Unsupported trim policy: TrimPolicy.SEGMENTED_PREFIX", l1Read.manager)

end Submit

open Lib Dict List

variable {K : Type} [DecidableEq K]

/-- When the call raises, every object has the locks it had, and no object has come or gone. -/
def LeavesNoLocks (m : L1Manager K) (result : Result PrefetchHandle × L1Manager K) : Prop :=
  ∀ e, result.1 = .error e → ∀ k, result.2.lockCounts k = m.lockCounts k

def L1Manager.readable (m : L1Manager K) (k : K) : Bool :=
  (m.objects.get? k).any (·.availableForRead m.nowMs)

/-- A request to L2 is made and not taken. -/
def SubmitEnv.Refuses (env : SubmitEnv) (skipL2 : Bool) (remainingKeys : List K) : Prop :=
  skipL2 = false ∧ remainingKeys ≠ [] ∧ env.hasL2Adapters = true ∧ ∃ e, env.submission = .error e

/-- The fold of the prefix path, where there is one. -/
def prefixTrim (env : SubmitEnv) (m : L1Manager K) (spec : SubmittedSpec K) :
    Option (PrefixFold K) :=
  if hGroups : spec.attnDesc.numChunksInSw = [] then none
  else if !env.hasFoldKernel then none
  else some (prefixFold spec.keys (spec.windows hGroups) (presenceBitmap spec.keys m.readable))

/-- The call raises with its keys locked. -/
def RaisesLocked (env : SubmitEnv) (m : L1Manager K) (spec : SubmittedSpec K) (skipL2 : Bool) :
    Prop :=
  spec.mode = .lookup ∧
    match spec.policy with
    | .segmentedPrefix => True
    | .sparse => env.Refuses skipL2 (spec.keys.filter fun k => !m.readable k)
    | .prefixOnly => ∀ trim ∈ prefixTrim env m spec, env.Refuses skipL2 trim.remainingKeys

/-- The keys that the call unlocks before it returns or raises. -/
def releasedKeys (env : SubmitEnv) (m : L1Manager K) (spec : SubmittedSpec K) : List K :=
  match spec.policy, prefixTrim env m spec with
  | .prefixOnly, some trim => trim.released.gather spec.keys
  | _, _ => []

variable {m : L1Manager K} {keys : List K}

theorem isFound_reserveRead {readLocks : Nat} {k : K} (h : k ∈ keys) :
    isFound (m.reserveRead keys readLocks).reply k = m.readable k := by
  have hReply : (m.reserveRead keys readLocks).reply.get? k =
      (visits (reserveReadKey m.nowMs (validateReadLocks readLocks) k) (keys.count k)
        (m.objects.get? k)).1.getLast? :=
    (get?_ofList_filed _ k).trans (congrArg List.getLast? (filed_updateEach _ keys m.objects k))
  have hCount : keys.count k ≠ 0 := (count_pos_iff.mpr h).ne'
  rw [isFound, hReply, readable]
  cases m.objects.get? k with
  | none =>
    rw [visits_of_kept rfl, getLast?_replicate, if_neg hCount]
    rfl
  | some e =>
    cases hRead : e.availableForRead m.nowMs with
    | true =>
      rw [visits_reserveRead k hRead, getLast?_replicate, if_neg hCount,
        Option.any_some, hRead]
    | false =>
      rw [visits_reserveRead_refused k hRead, getLast?_replicate, if_neg hCount,
        Option.any_some, hRead]

omit [DecidableEq K] in
theorem presenceBitmap_congr {present present' : K → Bool}
    (h : ∀ k ∈ keys, present k = present' k) :
    presenceBitmap keys present = presenceBitmap keys present' := by
  rw [presenceBitmap, presenceBitmap]
  congr 1
  ext i
  cases hKey : keys[i]? with
  | none => rfl
  | some k => exact h k (mem_of_getElem? hKey)

theorem filterMap_range_getElem? {α : Type} (items : List α) (n : Nat) :
    (List.range n).filterMap (fun i => items[i]?) = items.take n := by
  induction n with
  | zero => rfl
  | succ n ih =>
    rw [range_succ, filterMap_append, ih, take_add_one, filterMap_cons, filterMap_nil]
    cases items[n]? <;> rfl

theorem Bitmap.gather_sublist {α : Type} (b : Bitmap) (items : List α) :
    List.Sublist (b.gather items) items := by
  have hFiltered := (filter_sublist (p := b.test) (l := List.range b.size)).filterMap
    fun i => items[i]?
  rw [filterMap_range_getElem?] at hFiltered
  exact hFiltered.trans (take_sublist _ _)

theorem releasedKeys_sublist (env : SubmitEnv) (m : L1Manager K) (spec : SubmittedSpec K) :
    List.Sublist (releasedKeys env m spec) spec.keys := by
  unfold releasedKeys
  split
  · exact Bitmap.gather_sublist _ _
  · exact nil_sublist _

theorem get?_giveBack (m : L1Manager K) (released : List K) (readLocks : Nat) (k : K) :
    (giveBack m released readLocks).objects.get? k =
      (visits (finishReadKey m.nowMs (validateReadLocks readLocks) k)
        (released.count k) (m.objects.get? k)).2 := by
  rw [giveBack]
  split
  · rename_i hEmpty
    rw [List.isEmpty_iff.mp hEmpty]
    rfl
  · exact get?_finishRead m released readLocks k

theorem nowMs_giveBack (m : L1Manager K) (released : List K) (readLocks : Nat) :
    (giveBack m released readLocks).nowMs = m.nowMs := by
  rw [giveBack]
  split <;> rfl

theorem reserveRead_giveBack_iff {released : List K} (hReleased : List.Sublist released keys)
    (readLocks : Nat) :
    (∀ k, (giveBack (m.reserveRead keys readLocks).manager released readLocks).lockCounts k =
      m.lockCounts k) ↔
    ∀ k ∈ keys, ∀ e, m.objects.get? k = some e → e.availableForRead m.nowMs = true →
      L1Manager.Undone e m.nowMs (keys.count k) (released.count k) := by
  have hObjects : ∀ k, (giveBack (m.reserveRead keys readLocks).manager released
      readLocks).lockCounts k =
      (visits (finishReadKey m.nowMs (validateReadLocks readLocks) k)
        (released.count k) (visits (reserveReadKey m.nowMs (validateReadLocks readLocks)
          k) (keys.count k) (m.objects.get? k)).2).2.map (·.lockCounts m.nowMs) := by
    intro k
    rw [lockCounts, nowMs_giveBack, get?_giveBack, get?_reserveRead]
    rfl
  have hTotal := validateReadLocks_pos readLocks
  constructor
  · intro h k hMem e hGet hRead
    have hSame := h k
    rw [hObjects, lockCounts, hGet, Option.map_some] at hSame
    exact (visits_reserveRead_finishRead k hTotal hRead (count_pos_iff.mpr hMem)
      (hReleased.count_le k)).mp hSame
  · intro h k
    rw [hObjects, lockCounts]
    cases hGet : m.objects.get? k with
    | none =>
      have hReserve : ∀ n, (visits (reserveReadKey m.nowMs
          (validateReadLocks readLocks) k) n none).2 = none := fun n =>
        congrArg Prod.snd (visits_of_kept rfl n)
      have hFinish : ∀ n, (visits (finishReadKey m.nowMs
          (validateReadLocks readLocks) k) n none).2 = none := fun n =>
        congrArg Prod.snd (visits_of_kept rfl n)
      rw [hReserve, hFinish]
    | some e =>
      cases hRead : e.availableForRead m.nowMs with
      | false =>
        have hWrite : e.writeLock.isLocked m.nowMs = true := by
          simpa [L1ObjectState.availableForRead] using hRead
        have hBody : (finishReadKey m.nowMs (validateReadLocks readLocks) k
            (some e)).2 = some e := by
          rw [finishReadKey, if_pos hWrite]
        rw [visits_reserveRead_refused k hRead, visits_of_kept hBody]
      | true =>
        by_cases hMem : k ∈ keys
        · exact (visits_reserveRead_finishRead k hTotal hRead
            (count_pos_iff.mpr hMem) (hReleased.count_le k)).mpr (h k hMem e hGet hRead)
        · have hNone : released.count k = 0 :=
            count_eq_zero.mpr fun hIn => hMem (hReleased.subset hIn)
          rw [hNone, count_eq_zero.mpr hMem]
          rfl

omit [DecidableEq K] in
theorem submitToL2_error_iff {env : SubmitEnv} {skipL2 : Bool} {remainingKeys : List K} :
    (∃ e, env.submitToL2 skipL2 remainingKeys = .error e) ↔ env.Refuses skipL2 remainingKeys := by
  have hAsked : (!skipL2 && !remainingKeys.isEmpty && env.hasL2Adapters) = true ↔
      skipL2 = false ∧ remainingKeys ≠ [] ∧ env.hasL2Adapters = true := by
    simp [and_assoc]
  rw [SubmitEnv.submitToL2, SubmitEnv.Refuses, ← and_assoc, ← and_assoc]
  split
  · rename_i hTrue
    have hParts := hAsked.mp hTrue
    cases env.submission with
    | ok requestId =>
      exact ⟨fun ⟨e, h⟩ => (nomatch h), fun ⟨_, e, h⟩ => (nomatch h)⟩
    | error raised => exact ⟨fun _ => ⟨⟨⟨hParts.1, hParts.2.1⟩, hParts.2.2⟩, raised, rfl⟩,
        fun _ => ⟨raised, rfl⟩⟩
  · rename_i hFalse
    exact ⟨fun ⟨e, h⟩ => (nomatch h), fun ⟨h, _⟩ => absurd (hAsked.mpr ⟨h.1.1, h.1.2, h.2⟩) hFalse⟩

theorem map_error_iff {α β : Type} {f : α → β} {r : Result α} :
    (∃ e, r.map f = .error e) ↔ ∃ e, r = .error e := by
  cases r with
  | ok a => exact ⟨fun ⟨e, h⟩ => (nomatch h), fun ⟨e, h⟩ => (nomatch h)⟩
  | error raised => exact ⟨fun _ => ⟨raised, rfl⟩, fun _ => ⟨raised, rfl⟩⟩

/-- A request that locks raises as `RaisesLocked` says, and leaves L1 with the locks on its keys
but for the released ones. -/
theorem submitPrefetchTask_lookup (env : SubmitEnv) (m : L1Manager K) (spec : SubmittedSpec K)
    (externalRequestId : String) (skipL2 : Bool) (h : spec.mode = .lookup) :
    ((∃ e, (submitPrefetchTask env m spec externalRequestId skipL2).1 = .error e) ↔
      RaisesLocked env m spec skipL2) ∧
    (submitPrefetchTask env m spec externalRequestId skipL2).2 =
      giveBack (m.reserveRead spec.keys spec.numKvReaders).manager (releasedKeys env m spec)
        spec.numKvReaders := by
  have hFound : presenceBitmap spec.keys
      (isFound (m.reserveRead spec.keys spec.numKvReaders).reply) =
      presenceBitmap spec.keys m.readable :=
    presenceBitmap_congr fun k hMem => isFound_reserveRead hMem
  rw [submitPrefetchTask, RaisesLocked, releasedKeys]
  simp only [h, true_and]
  cases spec.policy with
  | segmentedPrefix => exact ⟨⟨fun _ => trivial, fun _ => ⟨_, rfl⟩⟩, rfl⟩
  | sparse =>
    have hMissing : (spec.keys.filter fun k =>
        !isFound (m.reserveRead spec.keys spec.numKvReaders).reply k) =
        spec.keys.filter fun k => !m.readable k :=
      filter_congr fun k hMem => congrArg not (isFound_reserveRead hMem)
    refine ⟨?_, rfl⟩
    dsimp only
    rw [← submitToL2_error_iff, ← hMissing]
    exact map_error_iff
  | prefixOnly =>
    dsimp only
    rw [submitPrefixFold, prefixTrim]
    split
    · exact ⟨⟨fun _ => nofun, fun _ => ⟨_, rfl⟩⟩, rfl⟩
    · split
      · exact ⟨⟨fun _ => nofun, fun _ => ⟨_, rfl⟩⟩, rfl⟩
      · rw [hFound]
        refine ⟨?_, rfl⟩
        dsimp only
        rw [map_error_iff, submitToL2_error_iff]
        simp

section Sample

/-- Keys `1` and `2` finished and readable, key `3` missing. -/
def sampleManager : L1Manager Nat where
  objects := Dict.ofList [(1, ⟨10, TTLLock.new 600, TTLLock.new 300, false⟩),
    (2, ⟨11, TTLLock.new 600, TTLLock.new 300, false⟩)]
  memory := ⟨12, []⟩
  writeTtlSeconds := 600
  readTtlSeconds := 300
  nowMs := 5000

def sampleEnv : SubmitEnv := ⟨true, true, .ok 0⟩

def sampleSpec (policy : TrimPolicy) : SubmittedSpec Nat where
  keys := [1, 2, 3]
  numKvReaders := 2
  policy
  attnDesc := ⟨[-1], 1, AttnWindowDesc.one_worker, AttnWindowDesc.full_valid⟩
  mode := .lookup
  numKvReaders_pos := by decide

end Sample

end LMCache
