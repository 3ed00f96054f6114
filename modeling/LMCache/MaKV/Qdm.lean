import LMCache.MaKV.Plan

/-!
# The drift meter

For every block of tokens, at fixed places of the request, the meter keeps the greatest
quantization error of the keys and of the values, and the greatest norm of the values. A
witness is computed from the tensors of one chunk at once, or gathered by an observer that is
made for the plan of the chunk.
-/

namespace LMCache.MaKV

open Lib

/-- The `float32` norms of vectors and of differences of vectors. They are never below zero,
and `nan` counts as the greatest. -/
class VectorNorms (E N : Type) [LinearOrder N] [OrderBot N] where
  distance : List E → List E → N
  norm : List E → N
  zero : E
  one : E
  distance_nil : distance [] [] = ⊥
  norm_zeros : ∀ dim, norm (List.replicate dim zero) = ⊥
  norm_ones : ∀ dim, 0 < dim → ⊥ < norm (List.replicate dim one)

variable {E N : Type} [LinearOrder N] [OrderBot N] [VectorNorms E N]

abbrev BlockTable (N : Type) := List (List N)

structure QdmWitness (N : Type) where
  kError : BlockTable N
  vError : BlockTable N
  vNorm : BlockTable N
  deriving DecidableEq, Repr

/-- The vector of a token and a head in a tensor `[tokens, heads, dim]`. -/
def vectorAt (x : Tensor E) (dim token head : Nat) : List E :=
  (List.range dim).filterMap fun d => x.get? [token, head, d]

/-- One number for every token and head. -/
def tokenTable (tokens heads : Nat) (f : Nat → Nat → N) : List (List N) :=
  (List.range tokens).map fun token => (List.range heads).map (f token)

def residualNorm (a b : Tensor E) (dim token head : Nat) : N :=
  VectorNorms.distance (vectorAt a dim token head) (vectorAt b dim token head)

def valueNorm (v : Tensor E) (dim token head : Nat) : N :=
  VectorNorms.norm (vectorAt v dim token head)

/-- `rows.amax(dim=0)`. -/
def amax : List (List N) → Result (List N)
  | [] => raise .indexError "amax(): Expected reduction dim 0 to have non-zero size."
  | row :: rest => .ok (rest.foldl (List.zipWith max) row)

/-- The entry of one block, over the rows that the block is said to hold. -/
def witnessRow (tokenStart : Int) (tokens : Nat) (blockSize blockStart : Int)
    (rows : List (List N)) (block : Nat) : Result (List N) :=
  let globalStart := max tokenStart ((blockStart + block) * blockSize)
  let globalEnd := min (tokenStart + tokens) (globalStart + blockSize)
  amax (pySlice rows (globalStart - tokenStart) (globalEnd - tokenStart))

def touchedBlocks (chunkStart chunkLength blockSize : Int) : Nat :=
  ((chunkStart + chunkLength + blockSize - 1) / blockSize - chunkStart / blockSize).toNat

def witnessRows (tokenStart : Int) (tokens : Nat) (blockSize : Int)
    (kResidual vResidual values : List (List N)) (block : Nat) :
    Result (List N × List N × List N) := do
  let blockStart := tokenStart / blockSize
  let k ← witnessRow tokenStart tokens blockSize blockStart kResidual block
  let v ← witnessRow tokenStart tokens blockSize blockStart vResidual block
  let n ← witnessRow tokenStart tokens blockSize blockStart values block
  return (k, v, n)

def computeQdmWitness (originalK originalV dequantizedK dequantizedV : Tensor E)
    (tokenStart blockSize : Int) : Result (QdmWitness N) := do
  rejectIf (originalK.shape ≠ originalV.shape || originalK.shape ≠ dequantizedK.shape ||
      originalK.shape ≠ dequantizedV.shape)
    "QDM witness tensors must have matching shapes"
  match originalK.shape with
  | [tokens, heads, dim] =>
    rejectIf (tokenStart < 0 || blockSize ≤ 0) "QDM token_start and block_size must be valid"
    let rows ← (List.range (touchedBlocks tokenStart tokens blockSize)).mapM
      (witnessRows tokenStart tokens blockSize
        (tokenTable tokens heads (residualNorm originalK dequantizedK dim))
        (tokenTable tokens heads (residualNorm originalV dequantizedV dim))
        (tokenTable tokens heads (valueNorm originalV dim)))
    return ⟨rows.map fun r => r.1, rows.map fun r => r.2.1, rows.map fun r => r.2.2⟩
  | _ => valueError "QDM witness tensors must have shape [tokens, heads, dim]"

def precisionIdMixed : Nat := 255

def pairToPrecisionId : Int × Int → Nat
  | (2, 2) => 0
  | (4, 2) => 1
  | (8, 4) => 2
  | (16, 16) => 3
  | _ => precisionIdMixed

/-- The block of a token, counted from the first block of the chunk. -/
def tokenBlock (chunkStart blockSize : Int) (token : Int) : Int :=
  (token + chunkStart) / blockSize - chunkStart / blockSize

/-- `bucket_bits[int(value)]`. -/
def bitOfBucket (bits : List Int) (id : UInt8) : Result Int :=
  match bits[id.toNat]? with
  | some bit => .ok bit
  | none => raise .indexError "tuple index out of range"

/-- The widths of the key and the value of every layer and token. What an id outside the plan
leaves in the uninitialized tensor is given as `empty`. -/
def planPairs (plan : MaKVQuantPlan) (empty : Nat → Int) :
    Result (Nat → Nat → Int × Int) :=
  if plan.importanceLayout = "token" then do
    rejectIf ((plan.bucketIds.length : Int) ≠ plan.chunkLength)
      "QDM token plan length does not match chunk length"
    let bits ← plan.bucketIds.mapM (bitOfBucket plan.bucketBits)
    return fun _ token => (bits.getD token 0, bits.getD token 0)
  else if plan.importanceLayout = "layer_kv_token" then do
    rejectIf ((plan.bucketIds.length : Int) ≠ plan.numLayers * 2 * plan.chunkLength)
      "QDM layer/KV plan length does not match chunk length"
    let bits := plan.bucketIds.zipIdx.map fun (id, i) =>
      (plan.bucketBits[id.toNat]?).getD (empty i)
    let n := plan.chunkLength.toNat
    return fun layer token =>
      (bits.getD (layer * 2 * n + token) 0, bits.getD ((layer * 2 + 1) * n + token) 0)
  else valueError ("unsupported QDM plan layout: '" ++ plan.importanceLayout ++ "'")

/-- The id of a block: that of its one pair of widths, or the mixed one. -/
def blockPrecisionId (plan : MaKVQuantPlan) (blockSize : Int) (pairs : Nat → Int × Int)
    (block : Nat) : Nat :=
  let tokens := (List.range plan.chunkLength.toNat).filter fun (token : Nat) =>
    tokenBlock plan.chunkStart blockSize token = block
  match (tokens.map pairs).dedup with
  | [pair] => pairToPrecisionId pair
  | _ => precisionIdMixed

structure PlanBlocks where
  precision : List (List Nat)
  validTokens : List Nat
  blockStart : Int

/-- The ids are the same for every head. -/
def precisionIdsFromPlan (plan : MaKVQuantPlan) (blockSize : Int) (empty : Nat → Int) :
    Result PlanBlocks := do
  rejectIf (blockSize ≤ 0) "QDM block_size must be positive"
  rejectIf (plan.chunkLength ≤ 0) "QDM requires a non-empty KV chunk"
  let blocks := touchedBlocks plan.chunkStart plan.chunkLength blockSize
  let pairs ← planPairs plan empty
  raiseIf .runtimeError (plan.numLayers < 0) "Trying to create tensor with negative dimension"
  raiseIf .runtimeError (plan.numKvHeads < -1) "The expanded size of the tensor isn't allowed"
  return {
    precision := (List.range plan.numLayers.toNat).map fun layer =>
      (List.range blocks).map (blockPrecisionId plan blockSize (pairs layer))
    validTokens := (List.range blocks).map fun (block : Nat) =>
      (List.range plan.chunkLength.toNat).countP fun (token : Nat) =>
        tokenBlock plan.chunkStart blockSize token = block
    blockStart := plan.chunkStart / blockSize }

structure QdmBuffers (N : Type) where
  kError : List (BlockTable N)
  vError : List (BlockTable N)
  vNorm : List (BlockTable N)

/-- The observer of a plan; the tables are made by the first observation. -/
structure BlockObserver (N : Type) where
  plan : MaKVQuantPlan
  blockSize : Int
  blocks : PlanBlocks
  buffers : Option (QdmBuffers N)

def BlockObserver.make (N : Type) (plan : MaKVQuantPlan) (blockSize : Int)
    (empty : Nat → Int) : Result (BlockObserver N) := do
  rejectIf (blockSize ≤ 0) "QDM block_size must be positive"
  let blocks ← precisionIdsFromPlan plan blockSize empty
  return ⟨plan, blockSize, blocks, none⟩

/-- `torch.zeros((num_layers, num_blocks, num_kv_heads))`. -/
def BlockObserver.zeros (observer : BlockObserver N) : List (BlockTable N) :=
  List.replicate observer.plan.numLayers.toNat
    (List.replicate observer.blocks.validTokens.length
      (List.replicate observer.plan.numKvHeads.toNat ⊥))

def BlockObserver.ensureBuffers (observer : BlockObserver N) : Result (QdmBuffers N) :=
  match observer.buffers with
  | some buffers => .ok buffers
  | none => do
    raiseIf .runtimeError (observer.plan.numKvHeads < 0)
      "Trying to create tensor with negative dimension"
    return ⟨observer.zeros, observer.zeros, observer.zeros⟩

/-- The greater of every pair of entries; a shorter row leaves the rest as it is. -/
def maxInto : List N → List N → List N
  | x :: xs, y :: ys => max x y :: maxInto xs ys
  | xs, [] => xs
  | [], _ :: _ => []

/-- `scatter_reduce_(1, index, values, reduce="amax")` into zeros, and the maximum of the
target and of that. -/
def scatterMax (heads valueHeads : Nat) (target : BlockTable N) (values : List (List N))
    (blockIndices : List Int) : Result (BlockTable N) := do
  if values.length * valueHeads = 0 then return target
  raiseIf .runtimeError (values.length < blockIndices.length || heads < valueHeads)
    "Expected index to be smaller than self apart from dimension 1 and smaller than src"
  raiseIf .runtimeError (blockIndices.any fun i => i < 0 || target.length ≤ i)
    "index out of bounds"
  let zeros := List.replicate target.length (List.replicate heads ⊥)
  let reduced := (blockIndices.zip values).foldl
    (fun table (entry : Int × List N) => table.modify entry.1.toNat fun row => maxInto row entry.2)
    zeros
  return List.zipWith (List.zipWith max) target reduced

def scatterLayer (heads valueHeads layer : Nat) (tables : List (BlockTable N))
    (values : List (List N)) (blockIndices : List Int) : Result (List (BlockTable N)) := do
  let table ← scatterMax heads valueHeads (tables.getD layer []) values blockIndices
  return tables.set layer table

/-- Observe the unpacked keys and values of some tokens of a layer. -/
def BlockObserver.observeBlock (observer : BlockObserver N) (layer : Int)
    (tokenPositions : List Int) (originalK originalV dequantizedK dequantizedV : Tensor E) :
    Result (BlockObserver N) := do
  rejectIf (originalK.shape ≠ originalV.shape || originalK.shape ≠ dequantizedK.shape)
    "QDM K/V witness tensors must have matching shapes"
  rejectIf (originalK.shape ≠ dequantizedV.shape) "QDM dequantized V shape mismatch"
  match originalK.shape with
  | [tokens, heads, dim] =>
    rejectIf (layer < 0 || observer.plan.numLayers ≤ layer) "QDM layer index is out of range"
    let buffers ← observer.ensureBuffers
    let blockIndices := tokenPositions.map (tokenBlock observer.plan.chunkStart observer.blockSize)
    let scatter := scatterLayer observer.plan.numKvHeads.toNat heads layer.toNat
    let kError ← scatter buffers.kError
      (tokenTable tokens heads (residualNorm originalK dequantizedK dim)) blockIndices
    let vError ← scatter buffers.vError
      (tokenTable tokens heads (residualNorm originalV dequantizedV dim)) blockIndices
    let vNorm ← scatter buffers.vNorm
      (tokenTable tokens heads (valueNorm originalV dim)) blockIndices
    return { observer with buffers := some ⟨kError, vError, vNorm⟩ }
  | _ => valueError "QDM block tensors must have shape [tokens, heads, dim]"

def BlockObserver.report (observer : BlockObserver N) (layer : Nat) : Option (QdmWitness N) := do
  let buffers ← observer.buffers
  let kError ← buffers.kError[layer]?
  let vError ← buffers.vError[layer]?
  let vNorm ← buffers.vNorm[layer]?
  return ⟨kError, vError, vNorm⟩

end LMCache.MaKV
