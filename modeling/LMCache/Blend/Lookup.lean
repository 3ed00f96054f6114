import LMCache.Lib.Numbering
import LMCache.Lib.Python
import LMCache.Serde.Wrapper

/-!
# The unified lookup of the blend module

`cb_unified_lookup` is polled until it returns a result. The first call opens a job; later calls
wait for the prefix leg and the matches, submit one sparse prefetch over the keys of all matches
outside the prefix, wait for it, and stash the keys of the chunks found for the retrieve. What
the rest of the server answers to a poll is an input of the poll.
-/

namespace LMCache.Blend

open Lib
open Serde (ObjectKey)

structure IPCCacheServerKey where
  modelName : String
  worldSize : Nat
  workerId : Option Nat
  tokenIds : List Int
  requestId : String
  cacheSalt : String
deriving DecidableEq, Repr

structure CBMatchResult where
  /-- Start in the registered sequence. -/
  oldSt : Int
  oldEd : Int
  /-- Start in the sequence of the request. -/
  curSt : Int
  curEd : Int
  hash : Bytes
deriving DecidableEq, Repr

structure CBUnifiedLookupResult where
  prefixCoverageTokens : Int
  nonPrefixSegments : List CBMatchResult
  segmentedPrefixSegments : List CBMatchResult
deriving DecidableEq, Repr

/-- `ObjectKey.ComputeKVRank` -/
def computeKVRank (worldSize globalRank localWorldSize localRank : Nat) : Nat :=
  (worldSize <<< 24) ||| (globalRank <<< 16) ||| (localWorldSize <<< 8) ||| localRank

/-- One rank for every worker, or the rank of the worker that the request names. -/
def kvRanks (key : IPCCacheServerKey) : List Nat :=
  match key.workerId with
  | none => (List.range key.worldSize).map fun w => computeKVRank key.worldSize w key.worldSize w
  | some w => [computeKVRank key.worldSize w key.worldSize w]

def objectKey (key : IPCCacheServerKey) (hash : Bytes) (gid rank : Nat) : ObjectKey :=
  { chunkHash := hash
    modelName := key.modelName
    kvRank := rank
    objectGroupId := gid
    cacheSalt := key.cacheSalt }

def ipcKeyToObjectKeys (key : IPCCacheServerKey) (chunkHashes : List Bytes) (gids : List Nat) :
    List (List ObjectKey) :=
  gids.map fun gid => chunkHashes.flatMap fun hash => (kvRanks key).map (objectKey key hash gid)

def cbChunkMajorObjectKeys (key : IPCCacheServerKey) (chunkHashes : List Bytes)
    (gids : List Nat) : List ObjectKey :=
  let perGroup := ipcKeyToObjectKeys key chunkHashes gids
  let expansion := (perGroup.headD []).length / chunkHashes.length
  (List.range chunkHashes.length).flatMap fun i => perGroup.flatMap (block expansion i)

inductive GroupKind
  | attention
  | recurrent
  | standalone
deriving DecidableEq, Repr

namespace GroupKind

def text : GroupKind → String
  | attention => "attention"
  | recurrent => "recurrent"
  | standalone => "standalone"

/-- `repr` of a tuple of kinds. -/
def tupleText : List GroupKind → String
  | [] => "()"
  | [kind] => "('" ++ kind.text ++ "',)"
  | kinds => "(" ++ ", ".intercalate (kinds.map fun kind => "'" ++ kind.text ++ "'") ++ ")"

end GroupKind

structure CBReadGroups where
  gids : List Nat
  prefixGids : List Nat
  recurrentGids : List Nat
  attnGid : Nat
deriving DecidableEq, Repr

/-- A registered layout: its number of object groups, and the kind labels of these. -/
structure Registration where
  numObjectGroups : Nat
  groupKinds : List GroupKind
deriving DecidableEq, Repr

def groupsOfKind (kinds : List GroupKind) (kind : GroupKind) : List Nat :=
  (List.range kinds.length).filter fun i => kinds[i]? = some kind

def classifyCbReadGroups (r : Registration) : Result CBReadGroups :=
  if r.numObjectGroups ≤ 1 then .ok ⟨[0], [0], [], 0⟩
  else if r.groupKinds.length ≠ r.numObjectGroups then
    raise .runtimeError (s!"CacheBlend: {r.numObjectGroups} object groups but " ++
      s!"{r.groupKinds.length} kind label(s); cannot resolve the blend " ++
      "read set (registration predates group kinds?).")
  else
    let standalone := groupsOfKind r.groupKinds .standalone
    let recurrent := groupsOfKind r.groupKinds .recurrent
    match groupsOfKind r.groupKinds .attention with
    | [attn] =>
      if 1 < standalone.length then tooMany
      else .ok
        { gids := ([attn] ++ standalone).insertionSort (· ≤ ·)
          prefixGids := ([attn] ++ recurrent).insertionSort (· ≤ ·)
          recurrentGids := recurrent
          attnGid := attn }
    | _ => tooMany
where
  tooMany : Result CBReadGroups :=
    raise .runtimeError ("CacheBlend supports exactly one attention object group and at " ++
      s!"most one standalone (fused-aux) object group; got kinds " ++
      s!"{GroupKind.tupleText r.groupKinds}.")

/-- `_resolve_cb_read_layouts`: nothing without a registration. -/
def resolveCbReadLayouts : Option Registration → Result (Option CBReadGroups)
  | none => .ok none
  | some r => (classifyCbReadGroups r).map some

structure SparseLeg where
  /-- Keys of the submitted prefetch. -/
  asked : List ObjectKey
  /-- Keys that it found in L1 or loaded into it, each with one read lock. -/
  loaded : List ObjectKey
  /-- Read locks that are still held. -/
  locks : ObjectKey → Nat

namespace SparseLeg

def new : SparseLeg := ⟨[], [], fun _ => 0⟩

/-- Every key of the list was given a read lock. -/
def grant (leg : SparseLeg) (keys : List ObjectKey) : SparseLeg :=
  { leg with
    loaded := leg.loaded ++ keys
    locks := fun k => leg.locks k + keys.count k }

def finishRead (leg : SparseLeg) (keys : List ObjectKey) : SparseLeg :=
  { leg with locks := fun k => leg.locks k - keys.count k }

end SparseLeg

structure PrefetchHandle where
  /-- Keys of the request handed to the prefetch controller; `none` is the id `-1`. -/
  l2Request : Option (List ObjectKey)
  l1FoundIndices : List Nat
  totalRequestedKeys : Nat
  l2OrigIndices : List Nat
deriving DecidableEq, Repr

/-- Positions of the keys that satisfy `p`. -/
def indicesWhere (p : ObjectKey → Bool) (keys : List ObjectKey) : List Nat :=
  (List.range keys.length).filter fun i => (keys[i]?).any p

/-- `submit_prefetch_task` under `TrimPolicy.SPARSE`, where `reserve_read` succeeds on the
readable keys. -/
def submitPrefetchTask (leg : SparseLeg) (keys : List ObjectKey) (readable : ObjectKey → Bool)
    (hasL2Adapters : Bool) : SparseLeg × PrefetchHandle :=
  let leg := { leg with asked := leg.asked ++ keys }.grant (keys.filter readable)
  let remainingKeys := keys.filter fun k => !readable k
  let submitted := !remainingKeys.isEmpty && hasL2Adapters
  (leg,
    { l2Request := if submitted then some remainingKeys else none
      l1FoundIndices := indicesWhere readable keys
      totalRequestedKeys := keys.length
      l2OrigIndices := if submitted then indicesWhere (fun k => !readable k) keys else [] })

def combineFound (handle : PrefetchHandle) (l2Local : Option Bitmap) : Bitmap :=
  let found := (Bitmap.zeros handle.totalRequestedKeys).batchedSet handle.l1FoundIndices
  match l2Local with
  | none => found
  | some bitmap => found.batchedSet (bitmap.gather handle.l2OrigIndices)

/-- `query_prefetch_status`, where `l2Result` is the answer of the prefetch controller. A
sparse prefetch leaves one read lock on every key that it loaded. -/
def queryPrefetchStatus (leg : SparseLeg) (handle : PrefetchHandle) (l2Result : Option Bitmap) :
    Option (SparseLeg × Bitmap) :=
  match handle.l2Request with
  | none => some (leg, combineFound handle none)
  | some keys =>
    match l2Result with
    | none => none
    | some bitmap => some (leg.grant (bitmap.gather keys), combineFound handle (some bitmap))

/-- `_CBUnifiedJob`, without what only the prefix leg and the events read. -/
structure CBUnifiedJob where
  candidates : List CBMatchResult
  prefixChunks : Option Nat
  retainedChunks : Option (List Nat)
  sparseStarted : Bool
  handle : Option PrefetchHandle
  nonPrefix : List CBMatchResult
  perHashObjKeys : Dict Bytes (List ObjectKey)
  expandedUidx : List Nat
  foundUidx : Option (List Nat)
  coordSubmitted : Bool
  segmented : Bool

structure BlendModule where
  cbJobs : Dict String CBUnifiedJob
  lookupObjKeysCache : Dict String (Dict Bytes (List ObjectKey))
  staleStrike : Dict Bytes Nat
  /-- Chunks that classifying removed from the matcher. -/
  removedChunks : List Bytes
  /-- Ranges scattered for a request and a worker: hash, start, end and the fingerprint of
  the destination table. -/
  cbAppliedMatchRanges : Dict (String × Option Nat) (List (Bytes × Int × Int × Nat))
  legs : String → SparseLeg

structure BlendConfig where
  chunkSize : Nat
  segmentedPrefix : Bool
  hasCoordinator : Bool
  computeChunkHashes : List Int → List Bytes

def staleStrikeThreshold : Nat := 2

/-- What the rest of the server answers during one poll. -/
structure PollInputs where
  registration : Option Registration
  /-- Whether submitting the prefix leg raised. -/
  prefixSubmitted : Result Unit
  localMatches : List CBMatchResult
  coordSubmitted : Bool
  /-- Leading and retained chunks of the prefix leg, once it has landed. -/
  prefixAnswer : Option (Nat × List Nat)
  /-- Segments from the coordinator, once it has answered or its deadline has passed. -/
  coordinatorAnswer : Option (List CBMatchResult)
  /-- Keys on which `reserve_read` succeeds. -/
  readable : ObjectKey → Bool
  hasL2Adapters : Bool
  /-- The bitmap of the prefetch controller, once the L2 load is done. -/
  l2Result : Option Bitmap
  pendingFpHashes : List Bytes

namespace BlendModule

def saveJob (s : BlendModule) (rid : String) (job : CBUnifiedJob) : BlendModule :=
  { s with cbJobs := s.cbJobs.set rid job }

def setLeg (s : BlendModule) (rid : String) (leg : SparseLeg) : BlendModule :=
  { s with legs := Function.update s.legs rid leg }

end BlendModule

def nonOverlappingAfterPrefix (found : List CBMatchResult) (prefixTokens : Int) :
    List CBMatchResult :=
  (((found.filter fun r => prefixTokens ≤ r.curSt).insertionSort
      fun a b => a.curSt ≤ b.curSt).foldl keep ([], -1)).1
where
  keep (acc : List CBMatchResult × Int) (r : CBMatchResult) : List CBMatchResult × Int :=
    if acc.2 ≤ r.curSt then (acc.1 ++ [r], r.curEd) else acc

def sparsePrefetchSubmit (leg : SparseLeg) (key : IPCCacheServerKey) (read : CBReadGroups)
    (inputs : PollInputs) (found : List CBMatchResult) :
    SparseLeg × PrefetchHandle × Dict Bytes (List ObjectKey) × List Nat :=
  let allHashes := found.map (·.hash)
  let allObjKeys := cbChunkMajorObjectKeys key allHashes read.gids
  let perChunk := allObjKeys.length / allHashes.length
  let perHashObjKeys :=
    Dict.ofList (allHashes.zipIdx.map fun (h, i) => (h, block perChunk i allObjKeys))
  let numbering := Numbering.ofList allObjKeys
  let (leg, handle) :=
    submitPrefetchTask leg numbering.elements inputs.readable inputs.hasL2Adapters
  (leg, handle, perHashObjKeys, numbering.numbers)

/-- Strikes after a stale hash, and the chunks to remove. -/
def strikeStale (pendingFpHashes : List Bytes) (acc : Dict Bytes Nat × List Bytes) (h : Bytes) :
    Dict Bytes Nat × List Bytes :=
  if h ∈ pendingFpHashes then acc
  else
    let n := (acc.1.get? h).getD 0 + 1
    if staleStrikeThreshold ≤ n then (acc.1.erase h, acc.2 ++ [h]) else (acc.1.set h n, acc.2)

def chunkFound (expandedUidx foundUidx : List Nat) (perChunk j : Nat) : Bool :=
  (List.range perChunk).all fun t => decide (expandedUidx.getD (j * perChunk + t) 0 ∈ foundUidx)

def BlendModule.sparseClassify (s : BlendModule) (key : IPCCacheServerKey) (inputs : PollInputs)
    (job : CBUnifiedJob) : BlendModule × List CBMatchResult :=
  let perChunk := job.expandedUidx.length / job.nonPrefix.length
  let isFound := fun p : CBMatchResult × Nat =>
    chunkFound job.expandedUidx (job.foundUidx.getD []) perChunk p.2
  let found := (job.nonPrefix.zipIdx.filter isFound).map Prod.fst
  let staleHashes := (job.nonPrefix.zipIdx.filter fun p => !isFound p).map (·.1.hash)
  let confirmed := found.foldl (fun strikes r => strikes.erase r.hash) s.staleStrike
  let (strikes, evicted) :=
    staleHashes.foldl (strikeStale inputs.pendingFpHashes) (confirmed, [])
  let cacheEntry := Dict.ofList
    (found.filterMap fun r => (job.perHashObjKeys.get? r.hash).map fun keys => (r.hash, keys))
  ({ s with
      staleStrike := strikes
      removedChunks := s.removedChunks ++ evicted
      lookupObjKeysCache :=
        if found.isEmpty then s.lookupObjKeysCache
        else s.lookupObjKeysCache.set key.requestId cacheEntry },
    found)

/-- The first call of a request: what the job starts with. -/
def openJob (cfg : BlendConfig) (inputs : PollInputs) : Result CBUnifiedJob := do
  let resolved ← resolveCbReadLayouts inputs.registration
  inputs.prefixSubmitted
  return {
    candidates := if cfg.hasCoordinator then [] else inputs.localMatches
    prefixChunks := none
    retainedChunks := none
    sparseStarted := false
    handle := none
    nonPrefix := []
    perHashObjKeys := Dict.empty
    expandedUidx := []
    foundUidx := none
    coordSubmitted := cfg.hasCoordinator && inputs.coordSubmitted
    segmented := cfg.segmentedPrefix && !resolved.any fun read => !read.recurrentGids.isEmpty }

namespace CBUnifiedJob

/-- `_poll_prefix_leg`, consumed once; nothing while the leg is loading. -/
def pollPrefixLeg (job : CBUnifiedJob) (inputs : PollInputs) : Option (Nat × CBUnifiedJob) :=
  match job.prefixChunks with
  | some leading => some (leading, job)
  | none =>
    match inputs.prefixAnswer with
    | none => none
    | some (leading, retained) =>
      some (leading,
        { job with
          prefixChunks := some leading
          retainedChunks := if job.segmented then some retained else job.retainedChunks })

/-- `_poll_coordinator_match`, or the matches of the local matcher. -/
def pollCandidates (cfg : BlendConfig) (inputs : PollInputs) (job : CBUnifiedJob) :
    Option (List CBMatchResult) :=
  if cfg.hasCoordinator then
    if job.coordSubmitted then inputs.coordinatorAnswer else some []
  else some job.candidates

/-- The candidates that neither the prefix nor the segmented tail covers. -/
def nonPrefixOf (cfg : BlendConfig) (job : CBUnifiedJob) (leading : Nat)
    (candidates : List CBMatchResult) : List CBMatchResult :=
  let uncovered :=
    if job.segmented then
      candidates.filter fun c =>
        c.oldSt ≠ c.curSt ∨ ¬∃ i ∈ job.retainedChunks.getD [],
          c.curSt.fdiv cfg.chunkSize = (i : Int)
    else candidates
  uncovered.filter fun c => (leading * cfg.chunkSize : Int) ≤ c.curSt

end CBUnifiedJob

namespace BlendModule

/-- The sparse leg is submitted, once. The answer is whether the poll goes on. -/
def startSparseLeg (s : BlendModule) (cfg : BlendConfig) (key : IPCCacheServerKey)
    (inputs : PollInputs) (leading : Nat) (job : CBUnifiedJob) :
    BlendModule × CBUnifiedJob × Result Bool :=
  if job.sparseStarted then (s, job, .ok true)
  else
    match job.pollCandidates cfg inputs with
    | none => (s, job, .ok false)
    | some candidates =>
      let job := { job with nonPrefix := job.nonPrefixOf cfg leading candidates }
      if job.nonPrefix.isEmpty then (s, { job with sparseStarted := true }, .ok true)
      else
        match resolveCbReadLayouts inputs.registration with
        | .error e => (s, job, .error e)
        | .ok none => (s, { job with nonPrefix := [], sparseStarted := true }, .ok true)
        | .ok (some read) =>
          let (leg, handle, perHashObjKeys, expandedUidx) :=
            sparsePrefetchSubmit (s.legs key.requestId) key read inputs job.nonPrefix
          (s.setLeg key.requestId leg,
            { job with
              handle := some handle
              perHashObjKeys := perHashObjKeys
              expandedUidx := expandedUidx
              sparseStarted := true },
            .ok true)

/-- The sparse leg is polled, consumed once; nothing while it is loading. -/
def pollSparseLeg (s : BlendModule) (key : IPCCacheServerKey) (inputs : PollInputs)
    (job : CBUnifiedJob) : Option (BlendModule × CBUnifiedJob) :=
  match job.handle, job.foundUidx with
  | some handle, none =>
    match queryPrefetchStatus (s.legs key.requestId) handle inputs.l2Result with
    | none => none
    | some (leg, bitmap) =>
      some (s.setLeg key.requestId leg, { job with foundUidx := some bitmap.getIndicesList })
  | _, _ => some (s, job)

/-- The chunks past the leading run that the prefix leg kept resident. -/
def segmentedTail (cfg : BlendConfig) (key : IPCCacheServerKey) (leading : Nat)
    (job : CBUnifiedJob) : List CBMatchResult :=
  if job.segmented then
    (job.retainedChunks.getD []).filterMap fun i =>
      if i < leading then none
      else (cfg.computeChunkHashes key.tokenIds)[i]?.map fun hash =>
        { oldSt := i * cfg.chunkSize
          oldEd := i * cfg.chunkSize + cfg.chunkSize
          curSt := i * cfg.chunkSize
          curEd := i * cfg.chunkSize + cfg.chunkSize
          hash := hash }
  else []

/-- Both legs are ready: classify the complement and close the job. -/
def finalizeLookup (s : BlendModule) (cfg : BlendConfig) (key : IPCCacheServerKey)
    (inputs : PollInputs) (leading : Nat) (job : CBUnifiedJob) :
    BlendModule × CBUnifiedLookupResult :=
  let prefixTokens : Int := leading * cfg.chunkSize
  let (s, found) :=
    if job.handle.isSome then
      let (s, fetched) := s.sparseClassify key inputs job
      (s, nonOverlappingAfterPrefix fetched prefixTokens)
    else (s, [])
  ({ s with cbJobs := s.cbJobs.erase key.requestId },
    { prefixCoverageTokens := prefixTokens
      nonPrefixSegments := found
      segmentedPrefixSegments := segmentedTail cfg key leading job })

def pollJob (s : BlendModule) (cfg : BlendConfig) (key : IPCCacheServerKey) (inputs : PollInputs)
    (job : CBUnifiedJob) : BlendModule × Result (Option CBUnifiedLookupResult) :=
  match job.pollPrefixLeg inputs with
  | none => (s.saveJob key.requestId job, .ok none)
  | some (leading, job) =>
    match s.startSparseLeg cfg key inputs leading job with
    | (s, job, .error e) => (s.saveJob key.requestId job, .error e)
    | (s, job, .ok false) => (s.saveJob key.requestId job, .ok none)
    | (s, job, .ok true) =>
      match s.pollSparseLeg key inputs job with
      | none => (s.saveJob key.requestId job, .ok none)
      | some (s, job) =>
        let (s, result) := s.finalizeLookup cfg key inputs leading job
        (s, .ok (some result))

def cbUnifiedLookup (s : BlendModule) (cfg : BlendConfig) (key : IPCCacheServerKey)
    (inputs : PollInputs) : BlendModule × Result (Option CBUnifiedLookupResult) :=
  match s.cbJobs.get? key.requestId with
  | some job => s.pollJob cfg key inputs job
  | none =>
    match openJob cfg inputs with
    | .error e => (s, .error e)
    | .ok job => s.pollJob cfg key inputs job

end BlendModule

end LMCache.Blend
