import LMCache.Blend.SparseKeys
import LMCache.Lib.Digests

/-!
# The blend module and its runs

`cb_retrieve_pre_computed` settles the read locks of a lookup. It takes the stash of
the request, releases the stashed keys of the chunks that it was not asked for, reads the keys
of the others, and releases those of the matches that it scattered. When the read or the
scatter fails, the keys that could be read are released.

The caches of the instance, the block tables and what L1 and the device answer are inputs.

The module takes the calls of any requests in any order. A request is awaited while its own
calls are polls that returned no result; meanwhile the storage manager holds no lock for it
beyond those of a prefetch under way, and nothing is stashed for it.
-/

namespace LMCache.Blend

open Lib Dict
open Serde (ObjectKey)

structure KernelGroup where
  groupIdx : Nat
  engineGroupIdx : Nat
  tokensPerBlock : Nat
deriving DecidableEq, Repr

structure RetrieveInputs where
  gpuBlockIds : List (List Int)
  /-- Whether the instance has a context and a rope state. -/
  registered : Result Unit
  /-- The layout of the cache context. -/
  layout : Registration
  stagedKernel : List KernelGroup
  eventSupport : Result Unit
  /-- Keys on which `unsafe_read` succeeds. -/
  readable : ObjectKey → Bool
  scatter : Result Unit

/-- What a retrieve returned, and the keys of its calls of `finish_read`. -/
structure Retrieval where
  module : BlendModule
  outcome : Result Bool
  /-- The orphan sweep. -/
  orphanKeys : List ObjectKey
  /-- The release of the scattered matches. -/
  releaseKeys : List ObjectKey
  /-- The release after a failed read or scatter. -/
  goodKeys : List ObjectKey

/-- Fingerprint of the whole destination table, as little-endian 64-bit integers. -/
def destFingerprint (gpuBlockIds : List (List Int)) : Nat :=
  crc32 (gpuBlockIds.flatten.flatMap fun b => Bytes.toLE 8 (b % 2 ^ 64).toNat) 0

/-- Slots of the smallest staged group; nothing when a group has no block table. -/
def slotBound (gpuBlockIds : List (List Int)) (stagedKernel : List KernelGroup) : Option Nat := do
  let slots ← stagedKernel.mapM fun kg =>
    (gpuBlockIds[kg.engineGroupIdx]?).map fun ids => ids.length * kg.tokensPerBlock
  slots.min?

/-- The keys of the matches in the order they are read: from the stash when it has them all,
else from the key of the worker. -/
def retrieveObjKeys (key : IPCCacheServerKey) (cached : Option (Dict Bytes (List ObjectKey)))
    (gids : List Nat) (found : List CBMatchResult) : Result (List ObjectKey) :=
  let hashes := found.map (·.hash)
  match cached with
  | some stash =>
    if hashes.all stash.contains then
      match key.workerId with
      | some worker =>
        if 1 < key.worldSize then
          (hashes.flatMap fun h => (List.range gids.length).map fun g => (h, g)).mapM
            fun (h, g) => match ((stash.get? h).getD [])[g * key.worldSize + worker]? with
              | some k => .ok k
              | none => raise .indexError "list index out of range"
        else .ok (hashes.flatMap fun h => (stash.get? h).getD [])
      | none => .ok (hashes.flatMap fun h => (stash.get? h).getD [])
    else .ok (cbChunkMajorObjectKeys key hashes gids)
  | none => .ok (cbChunkMajorObjectKeys key hashes gids)

def orphanKeysOf (cached : Option (Dict Bytes (List ObjectKey))) (found : List CBMatchResult) :
    List ObjectKey :=
  match cached with
  | none => []
  | some stash =>
    (stash.entries.filter fun e => e.1 ∉ found.map (·.hash)).flatMap Prod.snd

/-- `_release_applied_read_locks`: the keys of the matches that were scattered. -/
def releaseAppliedReadLocks (found : List CBMatchResult) (applied : CBMatchResult → Bool)
    (allObjKeys : List ObjectKey) (nRead : Nat) : List ObjectKey :=
  (found.zipIdx.filter fun p => applied p.1).flatMap fun p =>
    (List.range nRead).filterMap fun g => allObjKeys[p.2 * nRead + g]?

def dropOldest {κ υ : Type} [DecidableEq κ] (cap : Nat) : Nat → Dict κ υ → Dict κ υ
  | 0, d => d
  | n + 1, d =>
    if cap < d.size then
      match d.popFirst with
      | some (_, rest) => dropOldest cap n rest
      | none => d
    else d

namespace BlendModule

def finishReads (s : BlendModule) (rid : String) (keys : List ObjectKey) : BlendModule :=
  s.setLeg rid ((s.legs rid).finishRead keys)

/-- The scattered ranges are remembered for a repeated call. -/
def recordApplied (s : BlendModule) (key : IPCCacheServerKey) (dest : Nat)
    (applied : List CBMatchResult) : BlendModule :=
  if applied.isEmpty then s
  else
    let appliedKey := (key.requestId, key.workerId)
    let entry := (s.cbAppliedMatchRanges.get? appliedKey).getD [] ++
      applied.map fun r => (r.hash, r.curSt, r.curEd, dest)
    let ranges := (s.cbAppliedMatchRanges.erase appliedKey).set appliedKey entry
    { s with cbAppliedMatchRanges := dropOldest (4096 * max 1 key.worldSize) ranges.size ranges }

/-- The read and the scatter, once the keys are known. -/
def scatterMatches (s : BlendModule) (key : IPCCacheServerKey) (inputs : RetrieveInputs)
    (nRead dest : Nat) (found : List CBMatchResult) (allObjKeys orphanKeys : List ObjectKey) :
    Retrieval :=
  let readKeys := (Numbering.ofList allObjKeys).elements
  let goodKeys := readKeys.filter inputs.readable
  let failed : Retrieval :=
    ⟨s.finishReads key.requestId goodKeys, .ok false, orphanKeys, [], goodKeys⟩
  if goodKeys.length ≠ readKeys.length then failed
  else if goodKeys.length ≠ found.length * nRead then failed
  else
    match inputs.scatter with
    | .error _ => failed
    | .ok () =>
      let numSlots := (slotBound inputs.gpuBlockIds inputs.stagedKernel).getD 0
      let fits := fun r : CBMatchResult => decide (r.curEd ≤ numSlots)
      let releaseKeys := releaseAppliedReadLocks found fits allObjKeys nRead
      ⟨(s.finishReads key.requestId releaseKeys).recordApplied key dest (found.filter fits),
        .ok true, orphanKeys, releaseKeys, []⟩

/-- The checks before the read: one block size that divides the chunk, and a block table for
every staged group. -/
def checkTables (cfg : BlendConfig) (inputs : RetrieveInputs) : Result Unit := do
  match inputs.stagedKernel.head? with
  | none => raise .indexError "list index out of range"
  | some kg =>
    if kg.tokensPerBlock = 0 then raise .zeroDivisionError "integer modulo by zero"
    rejectIf (cfg.chunkSize % kg.tokensPerBlock ≠ 0)
      (s!"chunk_size {cfg.chunkSize} must be a multiple of " ++
        s!"tokens_per_block {kg.tokensPerBlock}")
  match inputs.stagedKernel.find? fun kg => inputs.gpuBlockIds.length ≤ kg.engineGroupIdx with
  | none => return
  | some kg =>
    valueError (s!"CB retrieve: kernel group {kg.groupIdx} maps to engine group " ++
      s!"{kg.engineGroupIdx}, but only {inputs.gpuBlockIds.length} block table(s) were provided.")

def cbRetrievePreComputed (s : BlendModule) (cfg : BlendConfig) (key : IPCCacheServerKey)
    (found : List CBMatchResult) (inputs : RetrieveInputs) : Retrieval :=
  match inputs.registered, classifyCbReadGroups inputs.layout with
  | .error e, _ => ⟨s, .error e, [], [], []⟩
  | _, .error e => ⟨s, .error e, [], [], []⟩
  | .ok (), .ok read =>
    let dest := destFingerprint inputs.gpuBlockIds
    let priorApplied := (s.cbAppliedMatchRanges.get? (key.requestId, key.workerId)).getD []
    let found := (found.insertionSort fun a b => a.curSt ≤ b.curSt).filter fun r =>
      (r.hash, r.curSt, r.curEd, dest) ∉ priorApplied
    if !priorApplied.isEmpty && found.isEmpty then ⟨s, .ok true, [], [], []⟩
    else if !found.isEmpty &&
        (slotBound inputs.gpuBlockIds inputs.stagedKernel).any
          (fun bound : Nat => found.all fun r => decide ((bound : Int) < r.curEd)) then
      ⟨s, .ok true, [], [], []⟩
    else
      let cached := s.lookupObjKeysCache.get? key.requestId
      let s := { s with lookupObjKeysCache := s.lookupObjKeysCache.erase key.requestId }
      match retrieveObjKeys key cached read.gids found with
      | .error e => ⟨s, .error e, [], [], []⟩
      | .ok allObjKeys =>
        let orphanKeys := orphanKeysOf cached found
        let s := s.finishReads key.requestId orphanKeys
        if allObjKeys.isEmpty then ⟨s, .ok true, orphanKeys, [], []⟩
        else
          match checkTables cfg inputs, inputs.eventSupport with
          | .error e, _ => ⟨s, .error e, orphanKeys, [], []⟩
          | _, .error e => ⟨s, .error e, orphanKeys, [], []⟩
          | .ok (), .ok () =>
            s.scatterMatches key inputs read.gids.length dest found allObjKeys orphanKeys

end BlendModule

inductive BlendCall
  | lookup (key : IPCCacheServerKey) (inputs : PollInputs)
  | retrieve (key : IPCCacheServerKey) (found : List CBMatchResult) (inputs : RetrieveInputs)

def BlendCall.requestId : BlendCall → String
  | lookup key _ | retrieve key _ _ => key.requestId

namespace BlendModule

def call (s : BlendModule) (cfg : BlendConfig) : BlendCall → BlendModule
  | .lookup key inputs => (s.cbUnifiedLookup cfg key inputs).1
  | .retrieve key found inputs => (s.cbRetrievePreComputed cfg key found inputs).module

/-- A poll that did not return a result: it defers or raises. -/
def Defers (s : BlendModule) (cfg : BlendConfig) : BlendCall → Prop
  | .lookup key inputs => ∀ result, (s.cbUnifiedLookup cfg key inputs).2 ≠ .ok (some result)
  | .retrieve _ _ _ => False

/-- A step while the request is polled: a call of another request, or a poll that defers. -/
def Polling (cfg : BlendConfig) (rid : String) (s : BlendModule) (c : BlendCall)
    (t : BlendModule) : Prop :=
  t = s.call cfg c ∧ (c.requestId = rid → s.Defers cfg c)

/-- The module knows nothing of the request. -/
structure New (s : BlendModule) (rid : String) : Prop where
  job : s.cbJobs.get? rid = none
  stash : s.lookupObjKeysCache.get? rid = none
  leg : s.legs rid = SparseLeg.new

/-- What the module keeps for the request is the same in both states. -/
structure SameFor (rid : String) (s t : BlendModule) : Prop where
  job : t.cbJobs.get? rid = s.cbJobs.get? rid
  stash : t.lookupObjKeysCache.get? rid = s.lookupObjKeysCache.get? rid
  leg : t.legs rid = s.legs rid

section Frame

variable {rid : String} {s t u : BlendModule} {key : IPCCacheServerKey}

theorem SameFor.refl (rid : String) (s : BlendModule) : SameFor rid s s := ⟨rfl, rfl, rfl⟩

theorem SameFor.trans (h : SameFor rid s t) (g : SameFor rid t u) : SameFor rid s u :=
  ⟨g.job.trans h.job, g.stash.trans h.stash, g.leg.trans h.leg⟩

theorem sameFor_saveJob (hNe : key.requestId ≠ rid) (s : BlendModule) (job : CBUnifiedJob) :
    SameFor rid s (s.saveJob key.requestId job) :=
  ⟨get?_set_ne _ hNe _, rfl, rfl⟩

theorem sameFor_setLeg (hNe : key.requestId ≠ rid) (s : BlendModule) (leg : SparseLeg) :
    SameFor rid s (s.setLeg key.requestId leg) :=
  ⟨rfl, rfl, Function.update_of_ne (Ne.symm hNe) _ _⟩

theorem sameFor_sparseClassify (hNe : key.requestId ≠ rid) (s : BlendModule)
    (inputs : PollInputs) (job : CBUnifiedJob) :
    SameFor rid s (s.sparseClassify key inputs job).1 := by
  refine ⟨rfl, ?_, rfl⟩
  simp only [sparseClassify]
  split
  · rfl
  · exact get?_set_ne _ hNe _

theorem sameFor_startSparseLeg (hNe : key.requestId ≠ rid) (s : BlendModule) (cfg : BlendConfig)
    (inputs : PollInputs) (leading : Nat) (job : CBUnifiedJob) :
    SameFor rid s (s.startSparseLeg cfg key inputs leading job).1 := by
  unfold startSparseLeg
  split
  · exact .refl rid s
  split
  · exact .refl rid s
  dsimp only
  split
  · exact .refl rid s
  split
  · exact .refl rid s
  · exact .refl rid s
  · exact sameFor_setLeg hNe s _

theorem sameFor_pollSparseLeg (hNe : key.requestId ≠ rid) {inputs : PollInputs}
    {job job' : CBUnifiedJob} (h : s.pollSparseLeg key inputs job = some (t, job')) :
    SameFor rid s t := by
  unfold pollSparseLeg at h
  split at h
  · split at h
    · cases h
    · cases h
      exact sameFor_setLeg hNe s _
  · cases h
    exact .refl rid s

theorem sameFor_finalizeLookup (hNe : key.requestId ≠ rid) (s : BlendModule) (cfg : BlendConfig)
    (inputs : PollInputs) (leading : Nat) (job : CBUnifiedJob) :
    SameFor rid s (s.finalizeLookup cfg key inputs leading job).1 := by
  have hClassify := sameFor_sparseClassify hNe s inputs job
  unfold finalizeLookup
  split
  · exact ⟨(get?_erase_ne _ hNe).trans hClassify.job, hClassify.stash, hClassify.leg⟩
  · exact ⟨get?_erase_ne _ hNe, rfl, rfl⟩

theorem sameFor_pollJob (hNe : key.requestId ≠ rid) (s : BlendModule) (cfg : BlendConfig)
    (inputs : PollInputs) (job : CBUnifiedJob) :
    SameFor rid s (s.pollJob cfg key inputs job).1 := by
  unfold pollJob
  split
  · exact sameFor_saveJob hNe s _
  · rename_i leading job' hPrefix
    have hStart := sameFor_startSparseLeg hNe s cfg inputs leading job'
    split
    · rename_i s' job'' e hEq
      rw [hEq] at hStart
      exact hStart.trans (sameFor_saveJob hNe s' _)
    · rename_i s' job'' hEq
      rw [hEq] at hStart
      exact hStart.trans (sameFor_saveJob hNe s' _)
    · rename_i s' job'' hEq
      rw [hEq] at hStart
      split
      · exact hStart.trans (sameFor_saveJob hNe s' _)
      · rename_i s'' job''' hPoll
        exact (hStart.trans (sameFor_pollSparseLeg hNe hPoll)).trans
          (sameFor_finalizeLookup hNe s'' cfg inputs leading job''')

theorem sameFor_cbUnifiedLookup (hNe : key.requestId ≠ rid) (s : BlendModule) (cfg : BlendConfig)
    (inputs : PollInputs) : SameFor rid s (s.cbUnifiedLookup cfg key inputs).1 := by
  unfold cbUnifiedLookup
  split
  · exact sameFor_pollJob hNe s cfg inputs _
  · split
    · exact .refl rid s
    · exact sameFor_pollJob hNe s cfg inputs _

theorem sameFor_finishReads (hNe : key.requestId ≠ rid) (s : BlendModule)
    (keys : List ObjectKey) : SameFor rid s (s.finishReads key.requestId keys) :=
  sameFor_setLeg hNe s _

theorem sameFor_recordApplied (s : BlendModule) (key : IPCCacheServerKey) (dest : Nat)
    (applied : List CBMatchResult) : SameFor rid s (s.recordApplied key dest applied) := by
  unfold recordApplied
  split
  · exact .refl rid s
  · exact ⟨rfl, rfl, rfl⟩

theorem sameFor_scatterMatches (hNe : key.requestId ≠ rid) (s : BlendModule)
    (inputs : RetrieveInputs) (nRead dest : Nat) (found : List CBMatchResult)
    (allObjKeys orphanKeys : List ObjectKey) :
    SameFor rid s (s.scatterMatches key inputs nRead dest found allObjKeys orphanKeys).module := by
  unfold scatterMatches
  dsimp only
  split
  · exact sameFor_finishReads hNe s _
  split
  · exact sameFor_finishReads hNe s _
  split
  · exact sameFor_finishReads hNe s _
  · exact (sameFor_finishReads hNe s _).trans (sameFor_recordApplied _ key dest _)

theorem sameFor_cbRetrievePreComputed (hNe : key.requestId ≠ rid) (s : BlendModule)
    (cfg : BlendConfig) (found : List CBMatchResult) (inputs : RetrieveInputs) :
    SameFor rid s (s.cbRetrievePreComputed cfg key found inputs).module := by
  have hTaken : SameFor rid s
      { s with lookupObjKeysCache := s.lookupObjKeysCache.erase key.requestId } :=
    ⟨rfl, get?_erase_ne _ hNe, rfl⟩
  unfold cbRetrievePreComputed
  split
  · exact .refl rid s
  · exact .refl rid s
  dsimp only
  split
  · exact .refl rid s
  split
  · exact .refl rid s
  split
  · exact hTaken
  · have hSwept := fun keys => hTaken.trans (sameFor_finishReads hNe _ keys)
    split
    · exact hSwept _
    split
    · exact hSwept _
    · exact hSwept _
    · exact (hSwept _).trans (sameFor_scatterMatches hNe _ inputs _ _ _ _ _)

/-- A call touches nothing that the module keeps for another request. -/
theorem sameFor_call {c : BlendCall} (hNe : c.requestId ≠ rid) (s : BlendModule)
    (cfg : BlendConfig) : SameFor rid s (s.call cfg c) := by
  cases c with
  | lookup key inputs => exact sameFor_cbUnifiedLookup hNe s cfg inputs
  | retrieve key found inputs => exact sameFor_cbRetrievePreComputed hNe s cfg found inputs

end Frame

theorem legs_setLeg (s : BlendModule) (rid : String) (leg : SparseLeg) :
    (s.setLeg rid leg).legs rid = leg := by
  simp [setLeg]

theorem locks_finishReads (s : BlendModule) (rid : String) (keys : List ObjectKey) (k : ObjectKey) :
    ((s.finishReads rid keys).legs rid).locks k = (s.legs rid).locks k - keys.count k := by
  rw [finishReads, legs_setLeg]
  rfl

theorem legs_recordApplied (s : BlendModule) (key : IPCCacheServerKey) (dest : Nat)
    (applied : List CBMatchResult) : (s.recordApplied key dest applied).legs = s.legs := by
  unfold recordApplied
  split <;> rfl

theorem locks_scatterMatches (s : BlendModule) (key : IPCCacheServerKey) (inputs : RetrieveInputs)
    (nRead dest : Nat) (found : List CBMatchResult) (allObjKeys orphanKeys : List ObjectKey)
    {r : Retrieval} (h : s.scatterMatches key inputs nRead dest found allObjKeys orphanKeys = r) :
    r.orphanKeys = orphanKeys ∧ ∀ k, (r.module.legs key.requestId).locks k =
      (s.legs key.requestId).locks k - (r.releaseKeys ++ r.goodKeys).count k := by
  unfold scatterMatches at h
  dsimp only at h
  split at h
  · subst h
    exact ⟨rfl, fun k => locks_finishReads s _ _ k⟩
  split at h
  · subst h
    exact ⟨rfl, fun k => locks_finishReads s _ _ k⟩
  split at h
  · subst h
    exact ⟨rfl, fun k => locks_finishReads s _ _ k⟩
  · subst h
    refine ⟨rfl, fun k => ?_⟩
    rw [legs_recordApplied, locks_finishReads, List.append_nil]

/-- A retrieve takes one lock from the request for every key of its calls of `finish_read`. -/
theorem locks_cbRetrievePreComputed (s : BlendModule) (cfg : BlendConfig)
    (key : IPCCacheServerKey) (found : List CBMatchResult) (inputs : RetrieveInputs)
    {r : Retrieval} (h : s.cbRetrievePreComputed cfg key found inputs = r) (k : ObjectKey) :
    (r.module.legs key.requestId).locks k = (s.legs key.requestId).locks k -
      (r.orphanKeys ++ r.releaseKeys ++ r.goodKeys).count k := by
  unfold cbRetrievePreComputed at h
  split at h
  · subst h
    rfl
  · subst h
    rfl
  dsimp only at h
  split at h
  · subst h
    rfl
  split at h
  · subst h
    rfl
  split at h
  · subst h
    rfl
  split at h
  · subst h
    simp only [List.append_nil]
    exact locks_finishReads _ _ _ k
  split at h
  · subst h
    simp only [List.append_nil]
    exact locks_finishReads _ _ _ k
  · subst h
    simp only [List.append_nil]
    exact locks_finishReads _ _ _ k
  · obtain ⟨hOrphans, hLocks⟩ := locks_scatterMatches _ key inputs _ _ _ _ _ h
    rw [hLocks k, locks_finishReads, hOrphans]
    simp only [List.count_append, Nat.sub_sub, Nat.add_assoc]

end BlendModule

end LMCache.Blend
