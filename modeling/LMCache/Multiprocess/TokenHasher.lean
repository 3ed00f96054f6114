import LMCache.Lib.HashChain
import LMCache.Lib.Python
import LMCache.Lib.Words
import Mathlib.Data.List.Induction

/-!
# The token hasher

`TokenHasher` turns a token list into the hashes of its complete chunks, each hash over the
hash before it and the tokens of the chunk. The hash functions are third-party code: blake3
over the bytes of the prefix hash and the tokens, and functions of vLLM or of the interpreter
over the pair itself, which return bytes or an integer.
-/

namespace LMCache.Multiprocess

open Lib List

/-- What a hash function returns, and the prefix hash it is given. -/
inductive HashValue
  | bytes (value : Bytes)
  | int (value : Int)
  deriving DecidableEq, Repr

/-- `n.to_bytes(8, byteorder="big", signed=True)`. -/
def signedBytes8 (n : Int) : Result Bytes :=
  if -2 ^ 63 ≤ n ∧ n < 2 ^ 63 then .ok (signedBytes 8 n).reverse
  else raise .overflowError "int too big to convert"

/-- A field of `struct.pack(">…I", *tokens)`. -/
def packToken (token : Int) : Result Bytes :=
  if 0 ≤ token ∧ token < 2 ^ 32 then .ok (Bytes.toBE 4 token.toNat)
  else raise .structError "'I' format requires 0 <= number <= 4294967295"

/-- `TokenHasher.hash_to_bytes`, which is also how blake3 takes its prefix hash. -/
def hashToBytes : HashValue → Result Bytes
  | .bytes value => .ok value
  | .int value => signedBytes8 value

/-- The function `_make_blake3_hash_func` returns. -/
def blake3Hash (digest : Bytes → Bytes) (prefixHash : HashValue) (tokens : List Int) :
    Result HashValue := do
  let first ← hashToBytes prefixHash
  let packed ← tokens.mapM packToken
  return .bytes (digest (first ++ packed.flatten))

/-- What `_get_hash_func` loads. -/
inductive HashFunc
  | blake3 (digest : Bytes → Bytes)
  | byteValued (hash : HashValue → List Int → Bytes)
  | intValued (hash : HashValue → List Int → Int)

/-- `hash_func((prefix_hash, tokens, None))`. -/
def HashFunc.call : HashFunc → HashValue → List Int → Result HashValue
  | .blake3 digest, prefixHash, tokens => blake3Hash digest prefixHash tokens
  | .byteValued hash, prefixHash, tokens => .ok (.bytes (hash prefixHash tokens))
  | .intValued hash, prefixHash, tokens => .ok (.int (hash prefixHash tokens))

/-- `_init_none_hash`; `vllmNoneHash` is the `NONE_HASH` of vLLM where there is one. -/
def initNoneHash (hashFunc : HashFunc) (vllmNoneHash : Option HashValue) : Result HashValue :=
  match hashFunc, vllmNoneHash with
  | .byteValued _, some noneHash | .intValued _, some noneHash => .ok noneHash
  | _, _ => hashFunc.call (.int 0) [0]

structure TokenHasher where
  chunkSize : Nat
  hashFunc : HashFunc
  noneHash : HashValue
  chunkSize_pos : 0 < chunkSize
  noneHash_init : ∃ vllmNoneHash, initNoneHash hashFunc vllmNoneHash = .ok noneHash

namespace TokenHasher

variable (h : TokenHasher)

/-- `TokenHasher.__init__` with a positive chunk size. -/
def new (chunkSize : Nat) (chunkSize_pos : 0 < chunkSize) (hashFunc : HashFunc)
    (vllmNoneHash : Option HashValue) : Result TokenHasher :=
  match h : initNoneHash hashFunc vllmNoneHash with
  | .error e => .error e
  | .ok noneHash => .ok ⟨chunkSize, hashFunc, noneHash, chunkSize_pos, vllmNoneHash, h⟩

def hashTokens (tokens : List Int) (prefixHash : Option HashValue) : Result HashValue :=
  h.hashFunc.call (prefixHash.getD h.noneHash) tokens

/-- One round of the loop of `compute_chunk_hashes`, on the prefix hash and the hashes so
far. -/
def hashChunk (tokenIds : List Int) (start : Int) (state : HashValue × List Bytes) (j : Nat) :
    Result (HashValue × List Bytes) := do
  let i := j * h.chunkSize
  let prefixHash ← h.hashTokens ((tokenIds.drop i).take h.chunkSize) (some state.1)
  if start ≤ i then
    let hash ← hashToBytes prefixHash
    return (prefixHash, state.2 ++ [hash])
  else
    return (prefixHash, state.2)

/-- The tokens in complete chunks before `stop`. -/
def numComplete (tokenIds : List Int) (stop : Option Int) : Int :=
  let effectiveLen : Int := match stop with
    | some stop => min tokenIds.length stop
    | none => tokenIds.length
  effectiveLen - effectiveLen % h.chunkSize

def computeChunkHashes (tokenIds : List Int) (prefixHash : Option HashValue) (start : Int)
    (stop : Option Int) : Result (List Bytes) := do
  let loop ← (List.range (h.numComplete tokenIds stop / h.chunkSize).toNat).foldlM
    (h.hashChunk tokenIds start) (prefixHash.getD h.noneHash, [])
  return loop.2

def chunks (tokenIds : List Int) (count : Nat) : List (List Int) :=
  rowsOf count h.chunkSize tokenIds

def step (prefixHash : HashValue) (chunk : List Int) : Result HashValue :=
  h.hashFunc.call prefixHash chunk

/-- The hashes of the complete chunks as the hash function returns them, the prefix hashes
from which the chain can be resumed. -/
def rollingHashes (tokenIds : List Int) (prefixHash : Option HashValue) :
    Result (List HashValue) :=
  chainHashes h.step (prefixHash.getD h.noneHash)
    (h.chunks tokenIds (tokenIds.length / h.chunkSize))

variable {h}

theorem chunks_succ (tokenIds : List Int) (count : Nat) :
    h.chunks tokenIds (count + 1) =
      h.chunks tokenIds count ++ [(tokenIds.drop (count * h.chunkSize)).take h.chunkSize] := by
  rw [chunks, chunks, rowsOf, rowsOf, range_succ, map_append]
  rfl

@[simp] theorem length_chunks (tokenIds : List Int) (count : Nat) :
    (h.chunks tokenIds count).length = count := length_rowsOf _ _ _

theorem getElem?_chunks (tokenIds : List Int) {count n : Nat} (hn : n < count) :
    (h.chunks tokenIds count)[n]? = some ((tokenIds.drop (n * h.chunkSize)).take h.chunkSize) := by
  rw [chunks, rowsOf, getElem?_map, getElem?_range hn]
  rfl

theorem take_chunks (tokenIds : List Int) (count n : Nat) :
    (h.chunks tokenIds count).take n = h.chunks tokenIds (min count n) := by
  rw [chunks, chunks, rowsOf, rowsOf, ← map_take, take_range, Nat.min_comm]

theorem drop_chunks (tokenIds : List Int) (count k : Nat) :
    (h.chunks tokenIds count).drop k = h.chunks (tokenIds.drop (k * h.chunkSize)) (count - k) := by
  apply ext_getElem?
  intro i
  rw [getElem?_drop, chunks, chunks, rowsOf, rowsOf, getElem?_map, getElem?_map]
  rcases Nat.lt_or_ge (k + i) count with hIn | hOut
  · rw [getElem?_range hIn, getElem?_range (by omega), Option.map_some, Option.map_some,
      drop_drop, Nat.add_mul]
  · rw [getElem?_eq_none (by rw [length_range]; exact hOut),
      getElem?_eq_none (by rw [length_range]; omega)]
    rfl

theorem chunks_congr {tokenIds tokenIds' : List Int} {count : Nat}
    (h' : tokenIds.take (count * h.chunkSize) = tokenIds'.take (count * h.chunkSize)) :
    h.chunks tokenIds count = h.chunks tokenIds' count := by
  rw [chunks, chunks, rowsOf, rowsOf]
  apply map_congr_left
  intro j hj
  have hEnd : (j + 1) * h.chunkSize ≤ count * h.chunkSize :=
    Nat.mul_le_mul_right _ (mem_range.mp hj)
  rw [Nat.add_mul, Nat.one_mul] at hEnd
  have hTake : ∀ tokens : List Int, (tokens.drop (j * h.chunkSize)).take h.chunkSize =
      ((tokens.take (count * h.chunkSize)).drop (j * h.chunkSize)).take h.chunkSize := by
    intro tokens
    rw [drop_take, take_take, Nat.min_eq_left (by omega)]
  rw [hTake tokenIds, hTake tokenIds', h']

theorem flatten_chunks (tokenIds : List Int) (count : Nat) :
    (h.chunks tokenIds count).flatten = tokenIds.take (count * h.chunkSize) := by
  induction count with
  | zero => rw [Nat.zero_mul, take_zero]; rfl
  | succ count ih =>
    rw [chunks_succ, flatten_append, ih, flatten_singleton, Nat.add_mul, Nat.one_mul, take_add]

theorem length_of_mem_chunks {tokenIds chunk : List Int} {count : Nat}
    (hCount : count * h.chunkSize ≤ tokenIds.length) (hMem : chunk ∈ h.chunks tokenIds count) :
    chunk.length = h.chunkSize := by
  rw [chunks, rowsOf] at hMem
  obtain ⟨j, hj, rfl⟩ := mem_map.mp hMem
  have hEnd : (j + 1) * h.chunkSize ≤ count * h.chunkSize :=
    Nat.mul_le_mul_right _ (mem_range.mp hj)
  rw [Nat.add_mul, Nat.one_mul] at hEnd
  rw [length_take, length_drop]
  omega

/-- What the rounds of the loop leave: the chain of the chunks, its hashes from chunk `first`
on in bytes. -/
theorem foldlM_hashChunk {tokenIds : List Int} {start : Int} {first : Nat}
    (hStart : ∀ j : Nat, start ≤ (j * h.chunkSize : Nat) ↔ first ≤ j) (seed : HashValue)
    (count : Nat) (last : HashValue) (hashes : List Bytes) :
    (List.range count).foldlM (h.hashChunk tokenIds start) (seed, []) = .ok (last, hashes) ↔
      ∃ raw, Chained h.step seed (h.chunks tokenIds count) raw ∧ raw.getLastD seed = last ∧
        (raw.drop first).mapM hashToBytes = .ok hashes := by
  induction count generalizing last hashes with
  | zero =>
    constructor
    · intro hRun
      cases hRun
      exact ⟨[], .nil seed, rfl, by rw [drop_nil]; rfl⟩
    · rintro ⟨raw, hRaw, rfl, hBytes⟩
      cases hRaw
      rw [drop_nil] at hBytes
      cases hBytes
      rfl
  | succ count ih =>
    rw [range_succ, foldlM_append, bind_eq_ok, chunks_succ]
    simp only [foldlM_cons, foldlM_nil, bind_pure, Prod.exists, ih, Chained.concat_iff]
    constructor
    · rintro ⟨p, before, ⟨raw, hRaw, rfl, hBytes⟩, hRound⟩
      obtain ⟨v, hv, hRound⟩ := bind_eq_ok.mp hRound
      have hLength : raw.length = count := by rw [hRaw.length_eq, length_chunks]
      refine ⟨raw ++ [v], ⟨raw, v, hRaw, hv, rfl⟩, ?_⟩
      dsimp only at hRound
      split at hRound
      · rename_i hLate
        obtain ⟨b, hb, hRound⟩ := bind_eq_ok.mp hRound
        cases hRound
        rw [drop_append_of_le_length (hLength ▸ (hStart count).mp hLate), mapM_concat_eq_ok]
        exact ⟨getLastD_concat, before, b, hBytes, hb, rfl⟩
      · rename_i hEarly
        cases hRound
        have hFirst : count < first := Nat.lt_of_not_le fun hLe => hEarly ((hStart count).mpr hLe)
        rw [drop_eq_nil_of_le (by rw [hLength]; exact hFirst.le)] at hBytes
        rw [drop_eq_nil_of_le (by rw [length_append, hLength]; exact hFirst)]
        exact ⟨getLastD_concat, hBytes⟩
    · rintro ⟨_, ⟨raw, v, hRaw, hv, rfl⟩, rfl, hBytes⟩
      have hLength : raw.length = count := by rw [hRaw.length_eq, length_chunks]
      by_cases hLate : start ≤ (count * h.chunkSize : Nat)
      · rw [drop_append_of_le_length (hLength ▸ (hStart count).mp hLate),
          mapM_concat_eq_ok] at hBytes
        obtain ⟨before, b, hBefore, hb, rfl⟩ := hBytes
        refine ⟨raw.getLastD seed, before, ⟨raw, hRaw, rfl, hBefore⟩, bind_eq_ok.mpr ⟨v, hv, ?_⟩⟩
        rw [if_pos hLate, hb, getLastD_concat]
        rfl
      · have hFirst : count < first := Nat.lt_of_not_le fun hLe => hLate ((hStart count).mpr hLe)
        rw [drop_eq_nil_of_le (by rw [length_append, hLength]; exact hFirst)] at hBytes
        refine ⟨raw.getLastD seed, hashes, ⟨raw, hRaw, rfl, ?_⟩, bind_eq_ok.mpr ⟨v, hv, ?_⟩⟩
        · rw [drop_eq_nil_of_le (by rw [hLength]; exact hFirst.le)]
          exact hBytes
        · rw [if_neg hLate, getLastD_concat]
          rfl

theorem computeChunkHashes_eq_ok_iff {tokenIds : List Int} {prefixHash : Option HashValue}
    {start : Int} {stop : Option Int} {first : Nat}
    (hStart : ∀ j : Nat, start ≤ (j * h.chunkSize : Nat) ↔ first ≤ j) {hashes : List Bytes} :
    h.computeChunkHashes tokenIds prefixHash start stop = .ok hashes ↔
      ∃ raw, Chained h.step (prefixHash.getD h.noneHash)
          (h.chunks tokenIds (h.numComplete tokenIds stop / h.chunkSize).toNat) raw ∧
        (raw.drop first).mapM hashToBytes = .ok hashes := by
  rw [computeChunkHashes, bind_eq_ok]
  constructor
  · rintro ⟨⟨last, bytes⟩, hLoop, hReturn⟩
    cases hReturn
    obtain ⟨raw, hRaw, -, hBytes⟩ := (foldlM_hashChunk hStart _ _ _ _).mp hLoop
    exact ⟨raw, hRaw, hBytes⟩
  · rintro ⟨raw, hRaw, hBytes⟩
    exact ⟨_, (foldlM_hashChunk hStart _ _ _ _).mpr ⟨raw, hRaw, rfl, hBytes⟩, rfl⟩

theorem start_chunk_iff (k j : Nat) :
    ((k * h.chunkSize : Nat) : Int) ≤ (j * h.chunkSize : Nat) ↔ k ≤ j := by
  rw [Int.ofNat_le]
  exact Nat.mul_le_mul_right_iff h.chunkSize_pos

theorem count_of_effective (n : Nat) :
    (((n : Int) - n % h.chunkSize) / h.chunkSize).toNat = n / h.chunkSize := by
  have hPos : (h.chunkSize : Int) ≠ 0 := by exact_mod_cast h.chunkSize_pos.ne'
  have hSplit : (n : Int) - n % h.chunkSize = n / h.chunkSize * h.chunkSize := by
    have hDiv := Int.mul_ediv_add_emod n h.chunkSize
    rw [Int.mul_comm] at hDiv
    omega
  rw [hSplit, Int.mul_ediv_cancel _ hPos, ← Int.natCast_ediv, Int.toNat_natCast]

theorem count_none (tokenIds : List Int) :
    (h.numComplete tokenIds none / h.chunkSize).toNat = tokenIds.length / h.chunkSize :=
  count_of_effective _

theorem count_some (tokenIds : List Int) (k : Nat) :
    (h.numComplete tokenIds (some (k * h.chunkSize : Nat)) / h.chunkSize).toNat =
      min (tokenIds.length / h.chunkSize) k := by
  have hMin : (min (tokenIds.length : Int) (k * h.chunkSize : Nat)) =
      ((min tokenIds.length (k * h.chunkSize) : Nat) : Int) := by
    push_cast
    rfl
  rw [numComplete, hMin, count_of_effective]
  rcases Nat.le_total tokenIds.length (k * h.chunkSize) with hShort | hLong
  · rw [Nat.min_eq_left hShort, Nat.min_eq_left]
    exact Nat.div_le_of_le_mul (Nat.mul_comm k _ ▸ hShort)
  · rw [Nat.min_eq_right hLong, Nat.mul_div_cancel _ h.chunkSize_pos, Nat.min_eq_right]
    exact (Nat.le_div_iff_mul_le h.chunkSize_pos).mpr hLong

end TokenHasher

end LMCache.Multiprocess
