import LMCache.Multiprocess.TokenHasher

/-!
# Chunk hashes identify prefixes

Where the hash function has no collisions, two token lists have the same hash for chunk `i`
exactly when they agree on every token up to the end of that chunk: a hash determines its
chunk and the hash before it, and this goes back to the common seed.
-/

namespace LMCache.Multiprocess

open Lib List Option Dict

def HashFunc.Injective : HashFunc → Prop
  | .blake3 digest => Function.Injective digest
  | .byteValued hash => Function.Injective2 hash
  | .intValued hash => Function.Injective2 hash

theorem packToken_eq_ok {token : Int} {packed : Bytes} (h : packToken token = .ok packed) :
    packed.length = 4 ∧ (Bytes.ofBE packed : Int) = token := by
  unfold packToken at h
  split at h
  · rename_i hRange
    cases h
    refine ⟨Bytes.length_toBE _ _, ?_⟩
    rw [Bytes.ofBE_toBE (by omega)]
    omega
  · cases h

theorem packed_inj {tokens tokens' : List Int} {packed packed' : List Bytes} {first first' : Bytes}
    (hLength : tokens.length = tokens'.length) (hPacked : tokens.mapM packToken = .ok packed)
    (hPacked' : tokens'.mapM packToken = .ok packed')
    (hEq : first ++ packed.flatten = first' ++ packed'.flatten) :
    first = first' ∧ tokens = tokens' := by
  -- one token at a time from the back of the message
  induction tokens using List.reverseRecOn generalizing tokens' packed packed' with
  | nil =>
    obtain rfl := length_eq_zero_iff.mp hLength.symm
    cases hPacked
    cases hPacked'
    exact ⟨by simpa using hEq, rfl⟩
  | append_singleton rest token ih =>
    rcases eq_nil_or_concat tokens' with rfl | ⟨rest', token', rfl⟩
    · simp at hLength
    rw [concat_eq_append] at hLength hPacked' ⊢
    obtain ⟨init, last, hInit, hLast, rfl⟩ := mapM_concat_eq_ok.mp hPacked
    obtain ⟨init', last', hInit', hLast', rfl⟩ := mapM_concat_eq_ok.mp hPacked'
    obtain ⟨hWidth, hToken⟩ := packToken_eq_ok hLast
    obtain ⟨hWidth', hToken'⟩ := packToken_eq_ok hLast'
    rw [flatten_append, flatten_append, flatten_singleton, flatten_singleton,
      ← append_assoc, ← append_assoc] at hEq
    obtain ⟨hInitEq, hLastEq⟩ := append_inj' hEq (hWidth.trans hWidth'.symm)
    obtain ⟨hFirst, hRest⟩ := ih (by simpa using hLength) hInit hInit' hInitEq
    exact ⟨hFirst, by rw [hRest, ← hToken, ← hToken', hLastEq]⟩

theorem signedBytes8_inj {m n : Int} {b : Bytes} (hm : signedBytes8 m = .ok b)
    (hn : signedBytes8 n = .ok b) : m = n := by
  unfold signedBytes8 at hm hn
  split at hm
  · rename_i hRangeM
    split at hn
    · rename_i hRangeN
      cases hm
      injection hn with hBytes
      have hEq := congrArg signedOfBytes (reverse_injective hBytes)
      rwa [signedOfBytes_signedBytes (by norm_num; omega) (by norm_num; omega),
        signedOfBytes_signedBytes (by norm_num; omega) (by norm_num; omega), eq_comm] at hEq
    · cases hn
  · cases hm

namespace HashFunc

variable {f : HashFunc} {p q v w : HashValue} {c d : List Int}

theorem call_kind (h : f.call p c = .ok v) :
    match f with
    | .intValued _ => ∃ n, v = .int n
    | _ => ∃ b, v = .bytes b := by
  cases f with
  | blake3 digest =>
    obtain ⟨first, -, h⟩ := bind_eq_ok.mp h
    obtain ⟨packed, -, h⟩ := bind_eq_ok.mp h
    cases h
    exact ⟨_, rfl⟩
  | byteValued hash | intValued hash =>
    cases h
    exact ⟨_, rfl⟩

theorem eq_of_hashToBytes {b : Bytes} (h : f.call p c = .ok v) (g : f.call q d = .ok w)
    (hv : hashToBytes v = .ok b) (hw : hashToBytes w = .ok b) : v = w := by
  have hKind := call_kind h
  have gKind := call_kind g
  cases f with
  | intValued hash =>
    obtain ⟨m, rfl⟩ := hKind
    obtain ⟨n, rfl⟩ := gKind
    rw [signedBytes8_inj hv hw]
  | _ =>
    obtain ⟨m, rfl⟩ := hKind
    obtain ⟨n, rfl⟩ := gKind
    cases hv
    cases hw
    rfl

theorem blake3_inj {digest : Bytes → Bytes} (hInjective : Function.Injective digest)
    {x y : Bytes} (hx : hashToBytes p = .ok x) (hy : hashToBytes q = .ok y)
    (hLength : c.length = d.length) (h : blake3Hash digest p c = .ok v)
    (g : blake3Hash digest q d = .ok v) : x = y ∧ c = d := by
  rw [blake3Hash, hx, ok_bind] at h
  rw [blake3Hash, hy, ok_bind] at g
  obtain ⟨packed, hPacked, h⟩ := bind_eq_ok.mp h
  obtain ⟨packed', gPacked, g⟩ := bind_eq_ok.mp g
  cases h
  injection g with hDigest
  injection hDigest with hDigest
  exact packed_inj hLength hPacked gPacked (hInjective hDigest.symm)

theorem Injective.determines (h : f.Injective) (chunkSize : Nat) :
    Determines f.call fun chunk => chunk.length = chunkSize where
  chunk := by
    intro p c d v hc hd hCall gCall
    cases f with
    | blake3 digest =>
      obtain ⟨x, hx, -⟩ := bind_eq_ok.mp hCall
      exact (blake3_inj h hx hx (hc.trans hd.symm) hCall gCall).2
    | byteValued hash | intValued hash =>
      cases hCall
      injection gCall with hEq
      injection hEq with hEq
      exact (h hEq.symm).2
  before := by
    intro p q c d v p' q' c' d' hc hd hBefore gBefore hCall gCall
    cases f with
    | blake3 digest =>
      obtain ⟨x, rfl⟩ := call_kind hBefore
      obtain ⟨y, rfl⟩ := call_kind gBefore
      obtain ⟨hxy, hcd⟩ := blake3_inj h rfl rfl (hc.trans hd.symm) hCall gCall
      exact ⟨congrArg _ hxy, hcd⟩
    | byteValued hash | intValued hash =>
      cases hCall
      injection gCall with hEq
      injection hEq with hEq
      exact h hEq.symm

/-- The tokens are in the range the function takes, and what it returns has bytes. -/
def Accepts (f : HashFunc) (seed : HashValue) (tokens : List Int) : Prop :=
  match f with
  | .blake3 _ => (∃ first, hashToBytes seed = .ok first) ∧ ∀ token ∈ tokens, 0 ≤ token ∧
      token < 2 ^ 32
  | .byteValued _ => True
  | .intValued hash => ∀ p chunk, -2 ^ 63 ≤ hash p chunk ∧ hash p chunk < 2 ^ 63

theorem Accepts.of_subset (h : f.Accepts p c) (hSubset : d ⊆ c) : f.Accepts p d := by
  cases f with
  | blake3 digest => exact ⟨h.1, fun token hMem => h.2 token (hSubset hMem)⟩
  | _ => exact h

theorem Accepts.call (h : f.Accepts p c) :
    ∃ v b, f.call p c = .ok v ∧ hashToBytes v = .ok b ∧ ∀ d, f.Accepts p d → f.Accepts v d := by
  cases f with
  | blake3 digest =>
    obtain ⟨⟨first, hFirst⟩, hTokens⟩ := h
    have hPacked : c.mapM packToken = .ok (c.map fun token => Bytes.toBE 4 token.toNat) :=
      mapM_ok fun token hMem => if_pos (hTokens token hMem)
    have hCall : blake3Hash digest p c = .ok (.bytes (digest (first ++
        (c.map fun token => Bytes.toBE 4 token.toNat).flatten))) := by
      rw [blake3Hash, hFirst, ok_bind, hPacked]
      rfl
    exact ⟨_, _, hCall, rfl, fun d hd => ⟨⟨_, rfl⟩, hd.2⟩⟩
  | byteValued hash => exact ⟨_, _, rfl, rfl, fun d _ => trivial⟩
  | intValued hash => exact ⟨_, _, rfl, if_pos (h p c), fun d _ => h⟩

end HashFunc

namespace TokenHasher

variable {h : TokenHasher} {tokenIds : List Int} {prefixHash : Option HashValue}
  {hashes : List Bytes}

theorem computeChunkHashes_all : h.computeChunkHashes tokenIds prefixHash 0 none = .ok hashes ↔
    ∃ raw, h.rollingHashes tokenIds prefixHash = .ok raw ∧ raw.mapM hashToBytes = .ok hashes := by
  have hStart : ∀ j : Nat, (0 : Int) ≤ (j * h.chunkSize : Nat) ↔ 0 ≤ j := fun j =>
    ⟨fun _ => Nat.zero_le j, fun _ => Int.natCast_nonneg _⟩
  rw [computeChunkHashes_eq_ok_iff hStart, count_none]
  exact exists_congr fun raw => and_congr chainHashes_eq_ok_iff.symm (by rw [drop_zero])

variable {raw : List HashValue} {i : Nat}

theorem getElem?_of_mapM (h : raw.mapM hashToBytes = .ok hashes) {x : Bytes}
    (hx : hashes[i]? = some x) : ∃ v, raw[i]? = some v ∧ hashToBytes v = .ok x :=
  (mapM_eq_ok h).2 i x hx

variable {tokenIds' : List Int}

theorem take_chunks_eq_iff {count count' : Nat} (hi : i < count) (hi' : i < count') :
    (h.chunks tokenIds count).take (i + 1) = (h.chunks tokenIds' count').take (i + 1) ↔
      tokenIds.take ((i + 1) * h.chunkSize) = tokenIds'.take ((i + 1) * h.chunkSize) := by
  rw [take_chunks, take_chunks, Nat.min_eq_right hi, Nat.min_eq_right hi']
  constructor
  · intro hChunks
    rw [← flatten_chunks, ← flatten_chunks, hChunks]
  · exact chunks_congr

theorem hash_eq_iff (hInjective : h.hashFunc.Injective) {hashes' : List Bytes} {x y : Bytes}
    (hRun : h.computeChunkHashes tokenIds prefixHash 0 none = .ok hashes)
    (hRun' : h.computeChunkHashes tokenIds' prefixHash 0 none = .ok hashes')
    (hx : hashes[i]? = some x) (hy : hashes'[i]? = some y) :
    x = y ↔ tokenIds.take ((i + 1) * h.chunkSize) = tokenIds'.take ((i + 1) * h.chunkSize) := by
  obtain ⟨raw, hRaw, hBytes⟩ := computeChunkHashes_all.mp hRun
  obtain ⟨raw', hRaw', hBytes'⟩ := computeChunkHashes_all.mp hRun'
  rw [rollingHashes, chainHashes_eq_ok_iff] at hRaw hRaw'
  obtain ⟨v, hv, hvx⟩ := getElem?_of_mapM hBytes hx
  obtain ⟨w, hw, hwy⟩ := getElem?_of_mapM hBytes' hy
  have hIn := (List.getElem?_eq_some_iff.mp hv).1
  have hIn' := (List.getElem?_eq_some_iff.mp hw).1
  rw [hRaw.length_eq, length_chunks] at hIn
  rw [hRaw'.length_eq, length_chunks] at hIn'
  rw [← take_chunks_eq_iff hIn hIn']
  constructor
  · rintro rfl
    obtain ⟨p, c, -, -, hCall⟩ := hRaw.step_at hv
    obtain ⟨q, d, -, -, hCall'⟩ := hRaw'.step_at hw
    have hSame : v = w := HashFunc.eq_of_hashToBytes hCall hCall' hvx hwy
    exact hRaw.take_eq_of_getElem? (hInjective.determines h.chunkSize)
      (fun c hc => length_of_mem_chunks (Nat.div_mul_le_self _ _) hc)
      (fun c hc => length_of_mem_chunks (Nat.div_mul_le_self _ _) hc) hRaw' hv (hSame ▸ hw)
  · intro hChunks
    have hSame := hRaw.getElem?_of_take_eq hRaw' hChunks
    rw [hv, hw] at hSame
    cases hSame
    rw [hvx] at hwy
    exact Except.ok.inj hwy

theorem length_computeChunkHashes
    (hRun : h.computeChunkHashes tokenIds prefixHash 0 none = .ok hashes) :
    hashes.length = tokenIds.length / h.chunkSize := by
  obtain ⟨raw, hRaw, hBytes⟩ := computeChunkHashes_all.mp hRun
  rw [rollingHashes, chainHashes_eq_ok_iff] at hRaw
  rw [(mapM_eq_ok hBytes).1, hRaw.length_eq, length_chunks]

theorem exists_chained {seed : HashValue} {cs : List (List Int)}
    (hAccepts : h.hashFunc.Accepts seed cs.flatten) :
    ∃ raw hashes, Chained h.step seed cs raw ∧ raw.mapM hashToBytes = .ok hashes := by
  induction cs generalizing seed with
  | nil => exact ⟨[], [], .nil seed, rfl⟩
  | cons c rest ih =>
    rw [flatten_cons] at hAccepts
    obtain ⟨v, b, hCall, hb, hAfter⟩ := (hAccepts.of_subset (subset_append_left _ _)).call
    obtain ⟨raw, hashes, hRaw, hBytes⟩ :=
      ih (hAfter _ (hAccepts.of_subset (subset_append_right _ _)))
    refine ⟨v :: raw, b :: hashes, .cons hCall hRaw, ?_⟩
    rw [mapM_cons, hb, ok_bind, hBytes]
    rfl

theorem exists_computeChunkHashes
    (hAccepts : h.hashFunc.Accepts (prefixHash.getD h.noneHash) tokenIds) :
    ∃ hashes, h.computeChunkHashes tokenIds prefixHash 0 none = .ok hashes := by
  have hComplete : h.hashFunc.Accepts (prefixHash.getD h.noneHash)
      (h.chunks tokenIds (tokenIds.length / h.chunkSize)).flatten := by
    rw [flatten_chunks]
    exact hAccepts.of_subset (take_subset _ _)
  obtain ⟨raw, hashes, hRaw, hBytes⟩ := exists_chained hComplete
  exact ⟨hashes, computeChunkHashes_all.mpr ⟨raw, chainHashes_eq_ok_iff.mpr hRaw, hBytes⟩⟩

/-- The chain is resumed after `k` chunks from the last hash before. -/
theorem computeChunkHashes_resumed (hRaw : h.rollingHashes tokenIds prefixHash = .ok raw)
    (hBytes : raw.mapM hashToBytes = .ok hashes) (k a b : Nat) :
    h.computeChunkHashes (tokenIds.drop (k * h.chunkSize))
        (some ((raw.take k).getLastD (prefixHash.getD h.noneHash))) (a * h.chunkSize : Nat)
        (some (b * h.chunkSize : Nat)) = .ok (((hashes.drop k).take b).drop a) := by
  rw [computeChunkHashes_eq_ok_iff (start_chunk_iff a), count_some]
  rw [rollingHashes, chainHashes_eq_ok_iff] at hRaw
  have hRest := ((hRaw.split k).2.split b).1
  rw [drop_chunks, take_chunks] at hRest
  have hCount : (tokenIds.drop (k * h.chunkSize)).length / h.chunkSize =
      tokenIds.length / h.chunkSize - k := by
    rw [length_drop, Nat.mul_comm, Nat.sub_mul_div]
  refine ⟨(raw.drop k).take b, ?_, ?_⟩
  · rw [hCount]
    exact hRest
  · exact (mapM_take_drop (mapM_take_drop (mapM_take_drop hBytes k).2 b).1 a).2

end TokenHasher

open TokenHasher in
/-- The hash at a position identifies the tokens up to the end of its chunk, there is one for
each complete chunk, and the chain of hashes can be cut and resumed at any chunk. -/
theorem chunk_hashes_identify_prefixes (h : TokenHasher) (prefixHash : Option HashValue) :
    (h.hashFunc.Injective → ∀ tokens tokens' hashes hashes' i x y,
      h.computeChunkHashes tokens prefixHash 0 none = .ok hashes →
      h.computeChunkHashes tokens' prefixHash 0 none = .ok hashes' →
      hashes[i]? = some x → hashes'[i]? = some y →
      (x = y ↔ tokens.take ((i + 1) * h.chunkSize) = tokens'.take ((i + 1) * h.chunkSize))) ∧
    (∀ tokens, (h.hashFunc.Accepts (prefixHash.getD h.noneHash) tokens →
        ∃ hashes, h.computeChunkHashes tokens prefixHash 0 none = .ok hashes) ∧
      ∀ hashes, h.computeChunkHashes tokens prefixHash 0 none = .ok hashes →
        hashes.length = tokens.length / h.chunkSize) ∧
    ∀ tokens hashes, h.computeChunkHashes tokens prefixHash 0 none = .ok hashes →
      ∃ raw, h.rollingHashes tokens prefixHash = .ok raw ∧
        raw.mapM hashToBytes = .ok hashes ∧
        ∀ k a b : Nat,
          h.computeChunkHashes (tokens.drop (k * h.chunkSize))
              (some ((raw.take k).getLastD (prefixHash.getD h.noneHash)))
              (a * h.chunkSize : Nat) (some (b * h.chunkSize : Nat)) =
            .ok (((hashes.drop k).take b).drop a) := by
  refine ⟨?_, ?_, ?_⟩
  · intro hInjective tokens tokens' hashes hashes' i x y hRun hRun' hx hy
    exact hash_eq_iff hInjective hRun hRun' hx hy
  · intro tokens
    exact ⟨exists_computeChunkHashes, fun hashes hRun => length_computeChunkHashes hRun⟩
  · intro tokens hashes hRun
    obtain ⟨raw, hRaw, hBytes⟩ := computeChunkHashes_all.mp hRun
    exact ⟨raw, hRaw, hBytes, computeChunkHashes_resumed hRaw hBytes⟩

section Sample

/-- The digest of twelve zero bytes, the hash before the first chunk. -/
def sampleNoneHash : Bytes :=
  [126, 62, 255, 158, 247, 97, 58, 80, 52, 14, 177, 38, 119, 238, 3, 184,
    58, 199, 89, 252, 186, 155, 179, 39, 5, 240, 114, 72, 213, 109, 71, 59]

/-- The digest of that hash and the token 7. -/
def sampleHash7 : Bytes :=
  [193, 27, 24, 241, 235, 114, 3, 35, 96, 23, 106, 204, 82, 155, 212, 204,
    227, 172, 154, 116, 248, 217, 111, 86, 145, 100, 12, 18, 159, 47, 79, 9]

/-- The digest of the hash of 7 and the token 8. -/
def sampleHash78 : Bytes :=
  [123, 79, 71, 85, 216, 149, 178, 105, 20, 132, 92, 158, 0, 25, 9, 198,
    62, 18, 197, 12, 52, 164, 103, 59, 195, 172, 45, 26, 206, 149, 118, 176]

/-- The digest of the hash of 7 and the token 9. -/
def sampleHash79 : Bytes :=
  [171, 231, 198, 162, 90, 62, 252, 89, 97, 247, 173, 173, 251, 207, 128, 194,
    22, 50, 7, 134, 194, 116, 119, 236, 70, 165, 149, 183, 51, 0, 42, 203]

def sampleDigests : List (Bytes × Bytes) :=
  [(Bytes.zeros 12, sampleNoneHash), (sampleNoneHash ++ [0, 0, 0, 7], sampleHash7),
    (sampleHash7 ++ [0, 0, 0, 8], sampleHash78), (sampleHash7 ++ [0, 0, 0, 9], sampleHash79)]

/-- BLAKE3 on the inputs above; other inputs are kept apart from them by their length. -/
def sampleDigest (input : Bytes) : Bytes :=
  (Dict.find input sampleDigests).getD (Bytes.zeros 33 ++ input)

theorem sampleDigest_injective : Function.Injective sampleDigest := by
  have hShort : ∀ p ∈ sampleDigests, p.2.length = 32 := by decide
  have hDistinct : ∀ p ∈ sampleDigests, ∀ q ∈ sampleDigests, p.2 = q.2 → p.1 = q.1 := by decide
  intro x y hEq
  rw [sampleDigest, sampleDigest] at hEq
  cases hx : Dict.find x sampleDigests with
  | none =>
    cases hy : Dict.find y sampleDigests with
    | none =>
      rw [hx, hy] at hEq
      exact append_cancel_left hEq
    | some digest =>
      rw [hx, hy] at hEq
      have hLength := congrArg List.length hEq
      rw [getD_none, getD_some, length_append, Bytes.length_zeros,
        hShort _ (mem_of_find hy)] at hLength
      omega
  | some digest =>
    cases hy : Dict.find y sampleDigests with
    | none =>
      rw [hx, hy] at hEq
      have hLength := congrArg List.length hEq
      rw [getD_none, getD_some, length_append, Bytes.length_zeros,
        hShort _ (mem_of_find hx)] at hLength
      omega
    | some digest' =>
      rw [hx, hy] at hEq
      exact hDistinct _ (mem_of_find hx) _ (mem_of_find hy) hEq

def sampleHasher : TokenHasher :=
  ⟨1, .blake3 sampleDigest, .bytes sampleNoneHash, Nat.one_pos, none, rfl⟩

/-- The prompts `7 8` and `7 9` share the hash of their first chunk only. -/
theorem chunk_hashes_identify_prefixes_sample :
    sampleHasher.computeChunkHashes [7, 8] none 0 none = .ok [sampleHash7, sampleHash78] ∧
      sampleHasher.computeChunkHashes [7, 9] none 0 none = .ok [sampleHash7, sampleHash79] ∧
      sampleHash78 ≠ sampleHash79 := by
  have hRun : sampleHasher.computeChunkHashes [7, 8] none 0 none =
      .ok [sampleHash7, sampleHash78] := rfl
  have hRun' : sampleHasher.computeChunkHashes [7, 9] none 0 none =
      .ok [sampleHash7, sampleHash79] := rfl
  have hIff : sampleHash78 = sampleHash79 ↔ [(7 : Int), 8].take 2 = [(7 : Int), 9].take 2 :=
    (chunk_hashes_identify_prefixes sampleHasher none).1 sampleDigest_injective _ _ _ _ 1 _ _
      hRun hRun' rfl rfl
  refine ⟨hRun, hRun', ?_⟩
  rw [Ne, hIff]
  decide

end Sample

end LMCache.Multiprocess
