import LMCache.Lib.Cursor
import LMCache.Multiprocess.PrefixIdentity

/-!
# Sessions

A session holds the tokens of a request and the hashes of the chunks it has been asked for.
Chunks are hashed once: the hashes are kept in a list that only grows, with the last of them
to go on from. `set_tokens` replaces the tokens and leaves that list as it is.
-/

namespace LMCache.Multiprocess

open Lib TokenHasher List

structure Session where
  tokenIds : List Int
  chunkHashes : List HashValue
  lastPrefixHash : Option HashValue
  numChunksProcessed : Nat
  deriving DecidableEq

namespace Session

variable (h : TokenHasher)

def new : Session := ⟨[], [], none, 0⟩

def setTokens (s : Session) (fullTokenIds : List Int) : Session :=
  { s with tokenIds := fullTokenIds }

def prefixHash (s : Session) : HashValue := s.lastPrefixHash.getD h.noneHash

/-- One round of the loop of `_compute_hash`. -/
def hashNext (s : Session) : Result Session := do
  let cs := s.numChunksProcessed * h.chunkSize
  let chunk := (s.tokenIds.drop cs).take h.chunkSize
  let hash ← h.hashTokens chunk (some (s.prefixHash h))
  return { s with
    lastPrefixHash := some hash
    chunkHashes := s.chunkHashes ++ [hash]
    numChunksProcessed := s.numChunksProcessed + 1 }

/-- The rounds of `_compute_hash`; what was hashed before an exception is kept. -/
def hashRounds (s : Session) : Nat → Session × Result Unit
  | 0 => (s, .ok ())
  | rounds + 1 =>
    match s.hashNext h with
    | .error e => (s, .error e)
    | .ok s => s.hashRounds rounds

def computeHash (s : Session) (endChunk : Int) : Session × Result Unit :=
  s.hashRounds h (endChunk - s.numChunksProcessed).toNat

def getHashesTo (s : Session) (startChunk stop : Int) : Session × Result (List HashValue) :=
  if stop % h.chunkSize ≠ 0 then
    (s, raise .assertionError s!"end ({stop}) must be a multiple of chunk_size ({h.chunkSize})")
  else
    let endChunk := stop / h.chunkSize
    match s.computeHash h endChunk with
    | (s, .error e) => (s, .error e)
    | (s, .ok ()) => (s, .ok (sliceOf s.chunkHashes startChunk endChunk))

def getHashes (s : Session) (start : Int) (stop : Option Int) :
    Session × Result (List HashValue) :=
  if start % h.chunkSize ≠ 0 then
    (s, raise .assertionError
      s!"start ({start}) must be a multiple of chunk_size ({h.chunkSize})")
  else
    let startChunk := start / h.chunkSize
    match stop with
    | some stop =>
      if s.tokenIds.length < stop then
        (s, valueError (s!"get_hashes end ({stop}) exceeds the session's " ++
          s!"{s.tokenIds.length} token(s); the session may have " ++
          "been recreated after request cleanup"))
      else s.getHashesTo h startChunk stop
    | none =>
      s.getHashesTo h startChunk (s.tokenIds.length - s.tokenIds.length % h.chunkSize : Nat)

inductive Call
  | setTokens (fullTokenIds : List Int)
  | getHashes (start : Int) (stop : Option Int)

def after (s : Session) : Call → Session
  | .setTokens fullTokenIds => s.setTokens fullTokenIds
  | .getHashes start stop => (s.getHashes h start stop).1

/-- The chunks that the hashes of a session were computed from, as a call adds to them. -/
def hashedAfter (s : Session) (hashed : List (List Int)) (call : Call) : List (List Int) :=
  hashed ++ (h.chunks s.tokenIds (s.after h call).numChunksProcessed).drop s.numChunksProcessed

def next (state : Session × List (List Int)) (call : Call) : Session × List (List Int) :=
  (state.1.after h call, state.1.hashedAfter h state.2 call)

variable {h}

/-- `t` is the session `s` with more of its chunks hashed. -/
structure Extends (h : TokenHasher) (s t : Session) (hashes : List HashValue) : Prop where
  tokenIds : t.tokenIds = s.tokenIds
  chunkHashes : t.chunkHashes = s.chunkHashes ++ hashes
  count : t.numChunksProcessed = s.numChunksProcessed + hashes.length
  last : t.prefixHash h = hashes.getLastD (s.prefixHash h)
  chained : Chained h.step (s.prefixHash h)
    ((h.chunks s.tokenIds t.numChunksProcessed).drop s.numChunksProcessed) hashes

theorem drop_chunks_self (tokens : List Int) (n : Nat) : (h.chunks tokens n).drop n = [] :=
  drop_eq_nil_of_le (length_chunks tokens n).le

theorem Extends.refl (s : Session) : Extends h s s [] where
  tokenIds := rfl
  chunkHashes := (append_nil _).symm
  count := rfl
  last := rfl
  chained := by
    rw [drop_chunks_self]
    exact .nil _

theorem drop_chunks_cons (tokens : List Int) {n count : Nat} (hn : n < count) :
    (h.chunks tokens count).drop n =
      (tokens.drop (n * h.chunkSize)).take h.chunkSize :: (h.chunks tokens count).drop (n + 1) := by
  have hIn : n < (h.chunks tokens count).length := by rwa [length_chunks]
  rw [drop_eq_getElem_cons hIn]
  congr 1
  have hAt := getElem?_eq_getElem hIn
  rw [getElem?_chunks tokens hn] at hAt
  exact (Option.some.inj hAt).symm

theorem hashNext_eq_ok {s t : Session} : s.hashNext h = .ok t ↔
    ∃ hash, h.step (s.prefixHash h)
        ((s.tokenIds.drop (s.numChunksProcessed * h.chunkSize)).take h.chunkSize) = .ok hash ∧
      t = ⟨s.tokenIds, s.chunkHashes ++ [hash], some hash, s.numChunksProcessed + 1⟩ := by
  rw [hashNext, bind_eq_ok]
  exact exists_congr fun hash => and_congr_right'
    ⟨fun h => (Except.ok.inj h).symm, fun h => h ▸ rfl⟩

theorem hashRounds_spec (s : Session) (rounds : Nat) :
    ∃ hashes, Extends h s (s.hashRounds h rounds).1 hashes ∧ hashes.length ≤ rounds ∧
      (∀ u, (s.hashRounds h rounds).2 = .ok u → hashes.length = rounds) ∧
      ∀ e, (s.hashRounds h rounds).2 = .error e → ∀ ks, ¬ Chained h.step (s.prefixHash h)
        ((h.chunks s.tokenIds (s.numChunksProcessed + rounds)).drop s.numChunksProcessed) ks := by
  induction rounds generalizing s with
  | zero => exact ⟨[], .refl s, le_rfl, fun _ _ => rfl, fun e h => (nomatch h)⟩
  | succ rounds ih =>
    have hCons := drop_chunks_cons (h := h) s.tokenIds
      (show s.numChunksProcessed < s.numChunksProcessed + (rounds + 1) by omega)
    cases hNext : s.hashNext h with
    | error e =>
      rw [hashRounds, hNext]
      refine ⟨[], .refl s, Nat.zero_le _, fun u h => (nomatch h), ?_⟩
      intro e' hError ks hChained
      rw [hCons] at hChained
      cases hChained with
      | cons hHead _ =>
        exact nomatch hNext.symm.trans (hashNext_eq_ok.mpr ⟨_, hHead, rfl⟩)
    | ok t =>
      rw [hashRounds, hNext]
      obtain ⟨hash, hHash, rfl⟩ := hashNext_eq_ok.mp hNext
      obtain ⟨hashes, hExtends, hLength, hOk, hError⟩ := ih
        ⟨s.tokenIds, s.chunkHashes ++ [hash], some hash, s.numChunksProcessed + 1⟩
      have hCount := hExtends.count
      refine ⟨hash :: hashes, ⟨hExtends.tokenIds, ?_, ?_, ?_, ?_⟩, ?_, ?_, ?_⟩
      · rw [hExtends.chunkHashes, append_assoc]
        rfl
      · rw [hCount, length_cons]
        exact Nat.add_right_comm _ 1 _
      · rw [hExtends.last]
        cases hashes <;> rfl
      · rw [drop_chunks_cons s.tokenIds
          (by rw [hCount]; exact Nat.lt_add_right _ (Nat.lt_succ_self _))]
        exact .cons hHash hExtends.chained
      · exact Nat.succ_le_succ hLength
      · intro u h
        rw [length_cons, hOk u h]
      · intro e h ks hChained
        rw [hCons] at hChained
        cases hChained with
        | cons hHead hRest =>
          rw [hHash] at hHead
          cases hHead
          refine hError e h ?ks ?_
          case ks => assumption
          rw [Nat.add_right_comm s.numChunksProcessed 1 rounds]
          exact hRest

/-- The hashes kept are the chain of the chunks that were hashed, all of them complete. -/
structure Cached (h : TokenHasher) (s : Session) (hashed : List (List Int)) : Prop where
  chained : Chained h.step h.noneHash hashed s.chunkHashes
  complete : ∀ chunk ∈ hashed, chunk.length = h.chunkSize
  count : s.numChunksProcessed = hashed.length
  last : s.prefixHash h = s.chunkHashes.getLastD h.noneHash

theorem cached_new : Cached h new [] where
  chained := .nil _
  complete := by simp
  count := rfl
  last := rfl

theorem Cached.setTokens {s : Session} {hashed : List (List Int)} (hCached : Cached h s hashed)
    (tokens : List Int) : Cached h (s.setTokens tokens) hashed :=
  ⟨hCached.chained, hCached.complete, hCached.count, hCached.last⟩

theorem Cached.extend {s t : Session} {hashed : List (List Int)} {hashes : List HashValue}
    (hCached : Cached h s hashed) (hExtends : Extends h s t hashes)
    (hIn : s.numChunksProcessed < t.numChunksProcessed →
      t.numChunksProcessed * h.chunkSize ≤ s.tokenIds.length) :
    Cached h t (hashed ++
      (h.chunks s.tokenIds t.numChunksProcessed).drop s.numChunksProcessed) where
  chained := by
    rw [hExtends.chunkHashes]
    exact hCached.chained.append (hCached.last ▸ hExtends.chained)
  complete := by
    intro chunk hMem
    rcases mem_append.mp hMem with hOld | hNew
    · exact hCached.complete chunk hOld
    · have hLess : s.numChunksProcessed < t.numChunksProcessed := by
        have hLength := length_pos_of_mem hNew
        rw [length_drop, length_chunks] at hLength
        omega
      exact length_of_mem_chunks (hIn hLess) (mem_of_mem_drop hNew)
  count := by
    rw [length_append, length_drop, length_chunks, ← hCached.count, hExtends.count]
    omega
  last := by
    rw [hExtends.last, hExtends.chunkHashes, hCached.last]
    rcases eq_nil_or_concat hashes with rfl | ⟨init, hash, rfl⟩
    · rw [append_nil]
      rfl
    · rw [concat_eq_append, ← append_assoc, getLastD_concat, getLastD_concat]

theorem extends_computeHash (s : Session) (endChunk : Int) :
    ∃ hashes, Extends h s (s.computeHash h endChunk).1 hashes ∧
      hashes.length ≤ (endChunk - s.numChunksProcessed).toNat := by
  obtain ⟨hashes, hExtends, hLength, -⟩ :=
    hashRounds_spec s (endChunk - s.numChunksProcessed).toNat
  exact ⟨hashes, hExtends, hLength⟩

theorem getHashesTo_eq (s : Session) (startChunk stop : Int) (hStop : stop % h.chunkSize = 0) :
    s.getHashesTo h startChunk stop =
      ((s.computeHash h (stop / h.chunkSize)).1,
        (s.computeHash h (stop / h.chunkSize)).2.map fun _ =>
          sliceOf (s.computeHash h (stop / h.chunkSize)).1.chunkHashes startChunk
            (stop / h.chunkSize)) := by
  rw [getHashesTo, if_neg (not_not_intro hStop)]
  dsimp only
  rcases s.computeHash h (stop / h.chunkSize) with ⟨t, _ | _⟩ <;> rfl

/-- A call asks for chunks of the tokens only, or hashes nothing. -/
theorem extends_getHashesTo (s : Session) (startChunk : Int) {stop : Int}
    (hStop : stop ≤ s.tokenIds.length) :
    ∃ hashes, Extends h s (s.getHashesTo h startChunk stop).1 hashes ∧
      (hashes ≠ [] → (s.getHashesTo h startChunk stop).1.numChunksProcessed * h.chunkSize ≤
        s.tokenIds.length) := by
  by_cases hAligned : stop % h.chunkSize = 0
  · obtain ⟨hashes, hExtends, hLength⟩ := extends_computeHash (h := h) s (stop / h.chunkSize)
    have hCount := hExtends.count
    rw [getHashesTo_eq s startChunk stop hAligned]
    refine ⟨hashes, hExtends, fun hSome => ?_⟩
    have hPos := length_pos_iff.mpr hSome
    have hLast : ((s.computeHash h (stop / h.chunkSize)).1.numChunksProcessed : Int) ≤
        stop / h.chunkSize := by omega
    have hMul := Int.mul_le_mul_of_nonneg_right hLast (Int.natCast_nonneg h.chunkSize)
    have hDiv : stop / h.chunkSize * h.chunkSize ≤ stop :=
      Int.ediv_mul_le _ (by exact_mod_cast h.chunkSize_pos.ne')
    exact_mod_cast hMul.trans (hDiv.trans hStop)
  · rw [getHashesTo, if_pos hAligned]
    exact ⟨[], .refl s, fun h => absurd rfl h⟩

theorem extends_getHashes (s : Session) (start : Int) (stop : Option Int) :
    ∃ hashes, Extends h s (s.getHashes h start stop).1 hashes ∧
      (hashes ≠ [] → (s.getHashes h start stop).1.numChunksProcessed * h.chunkSize ≤
        s.tokenIds.length) := by
  rw [getHashes]
  split
  · exact ⟨[], .refl s, fun h => absurd rfl h⟩
  · dsimp only
    split
    · split
      · exact ⟨[], .refl s, fun h => absurd rfl h⟩
      · exact extends_getHashesTo s _ (by omega)
    · exact extends_getHashesTo s _ (by exact_mod_cast Nat.sub_le _ _)

variable {state : Session × List (List Int)}

theorem Cached.next (hCached : Cached h state.1 state.2) (call : Call) :
    Cached h (next h state call).1 (next h state call).2 := by
  cases call with
  | setTokens tokens =>
    have hKept : state.1.hashedAfter h state.2 (.setTokens tokens) = state.2 := by
      rw [hashedAfter]
      exact (congrArg _ (drop_chunks_self _ _)).trans (append_nil _)
    rw [Session.next, hKept]
    exact hCached.setTokens tokens
  | getHashes start stop =>
    obtain ⟨hashes, hExtends, hIn⟩ := extends_getHashes (h := h) state.1 start stop
    refine hCached.extend hExtends fun hMore => hIn ?_
    rintro rfl
    exact absurd (hMore.trans_eq hExtends.count) (lt_irrefl _)

theorem cached_run (calls : List Call) : Cached h (calls.foldl (next h) (new, [])).1
    (calls.foldl (next h) (new, [])).2 := by
  have hRun : ∀ state : Session × List (List Int), Cached h state.1 state.2 →
      Cached h (calls.foldl (Session.next h) state).1 (calls.foldl (Session.next h) state).2 := by
    induction calls with
    | nil => exact fun state hCached => hCached
    | cons call rest ih => exact fun state hCached => ih _ (hCached.next call)
  exact hRun _ cached_new

/-- The chunks hashed before `endChunk` are chunks of the tokens now set. -/
def Agrees (h : TokenHasher) (state : Session × List (List Int)) (endChunk : Nat) : Prop :=
  state.2.take endChunk = (h.chunks state.1.tokenIds state.2.length).take endChunk

/-- Once the chunks before `endChunk` are hashed, they are those of the tokens exactly when the
ones hashed before were. -/
theorem agrees_iff {endChunk count : Nat} (hEnd : endChunk ≤ count)
    (hCount : state.2.length ≤ count) :
    (state.2 ++ (h.chunks state.1.tokenIds count).drop state.2.length).take endChunk =
      h.chunks state.1.tokenIds endChunk ↔ Agrees h state endChunk := by
  rw [Agrees, take_chunks]
  rcases Nat.le_total endChunk state.2.length with hOld | hNew
  · rw [take_append_of_le_length hOld, Nat.min_eq_right hOld]
  · rw [Nat.min_eq_left hNew, take_of_length_le (l := state.2) hNew, take_append,
      take_of_length_le (l := state.2) hNew]
    have hSplit : h.chunks state.1.tokenIds endChunk = h.chunks state.1.tokenIds state.2.length ++
        ((h.chunks state.1.tokenIds count).drop state.2.length).take
          (endChunk - state.2.length) := by
      rw [← Nat.min_eq_right hEnd, ← take_chunks, ← Nat.min_eq_right hCount,
        ← take_chunks, Nat.min_eq_right hCount]
      rw [← take_add, Nat.min_eq_right hEnd, Nat.add_sub_cancel' hNew]
    constructor
    · intro hAll
      rw [hSplit] at hAll
      exact append_cancel_right hAll
    · intro hOld
      rw [hSplit, ← hOld]

section Coherence

variable {s : Session} {hashed : List (List Int)} {endChunk : Nat}

/-- What the cache holds when the rounds up to `endChunk` are done. -/
theorem Cached.computeHash_ok (hCached : Cached h s hashed)
    (hIn : endChunk * h.chunkSize ≤ s.tokenIds.length) {u : Unit}
    (hOk : (s.computeHash h endChunk).2 = .ok u) :
    ∃ all : List (List Int), Chained h.step h.noneHash (all.take endChunk)
        ((s.computeHash h endChunk).1.chunkHashes.take endChunk) ∧
      (∀ chunk ∈ all, chunk.length = h.chunkSize) ∧
      endChunk ≤ all.length ∧
      (all.take endChunk = h.chunks s.tokenIds endChunk ↔ Agrees h (s, hashed) endChunk) := by
  obtain ⟨hashes, hExtends, -, hRounds, -⟩ :=
    hashRounds_spec (h := h) s ((endChunk : Int) - s.numChunksProcessed).toNat
  have hCount := hExtends.count
  have hDone := hRounds u hOk
  have hMax : (s.computeHash h endChunk).1.numChunksProcessed =
      max s.numChunksProcessed endChunk := by
    rw [computeHash, hCount, hDone]
    omega
  have hAfter := hCached.extend hExtends fun hMore => by
    rw [computeHash] at hMax
    rwa [hMax, max_eq_right (by omega)]
  refine ⟨_, (hAfter.chained.split endChunk).1, hAfter.complete, ?_, ?_⟩
  · rw [← hAfter.count]
    exact (le_max_right _ _).trans_eq hMax.symm
  · have hLast : endChunk ≤ (s.computeHash h endChunk).1.numChunksProcessed :=
      (le_max_right _ _).trans_eq hMax.symm
    have hFirst : hashed.length ≤ (s.computeHash h endChunk).1.numChunksProcessed :=
      hCached.count.symm.trans_le ((le_max_left _ _).trans_eq hMax.symm)
    have hIff := @agrees_iff h (s, hashed) _ _ hLast hFirst
    dsimp only at hIff
    rw [← hCached.count] at hIff
    exact hIff

theorem Cached.computeHash_error (hCached : Cached h s hashed)
    (hAgrees : Agrees h (s, hashed) endChunk) {e : PyException}
    (hError : (s.computeHash h endChunk).2 = .error e) (raw : List HashValue) :
    ¬ Chained h.step h.noneHash (h.chunks s.tokenIds endChunk) raw := by
  intro hRaw
  obtain ⟨-, -, -, -, hNone⟩ :=
    hashRounds_spec (h := h) s ((endChunk : Int) - s.numChunksProcessed).toNat
  have hFails := hNone e hError
  rcases Nat.le_total endChunk s.numChunksProcessed with hOld | hNew
  · have hZero : ((endChunk : Int) - s.numChunksProcessed).toNat = 0 := by omega
    rw [hZero, Nat.add_zero, drop_chunks_self] at hFails
    exact hFails [] (.nil _)
  · have hSum : s.numChunksProcessed + ((endChunk : Int) - s.numChunksProcessed).toNat =
        endChunk := by omega
    rw [hSum] at hFails
    obtain ⟨hFirst, hRest⟩ := hRaw.split s.numChunksProcessed
    have hLength : hashed.length ≤ endChunk := hCached.count ▸ hNew
    rw [Agrees, take_of_length_le hLength, take_of_length_le
      (by rw [length_chunks]; exact hLength), ← hCached.count] at hAgrees
    rw [take_chunks, Nat.min_eq_right hNew, ← hAgrees] at hFirst
    rw [hFirst.unique hCached.chained, ← hCached.last] at hRest
    exact hFails _ hRest

/-- The chunk before which a range ends, with its end inside the tokens. -/
def EndsAt (h : TokenHasher) (tokens : List Int) (stop : Option Int) (endChunk : Nat) : Prop :=
  match stop with
  | some stop => stop = (endChunk * h.chunkSize : Nat) ∧ endChunk * h.chunkSize ≤ tokens.length
  | none => endChunk = tokens.length / h.chunkSize

variable {startChunk : Nat}

theorem eq_of_bytes (hInjective : h.hashFunc.Injective) {cs ds : List (List Int)}
    {hs ks : List HashValue} {bytes : List Bytes} (hcs : ∀ c ∈ cs, c.length = h.chunkSize)
    (hds : ∀ d ∈ ds, d.length = h.chunkSize) (hChained : Chained h.step h.noneHash cs hs)
    (gChained : Chained h.step h.noneHash ds ks) (hLength : cs.length = ds.length)
    (hRange : startChunk < cs.length) (hBytes : (hs.drop startChunk).mapM hashToBytes = .ok bytes)
    (gBytes : (ks.drop startChunk).mapM hashToBytes = .ok bytes) : cs = ds := by
  obtain ⟨hCount, hAll⟩ := mapM_eq_ok hBytes
  obtain ⟨-, gAll⟩ := mapM_eq_ok gBytes
  rw [length_drop, hChained.length_eq] at hCount
  obtain ⟨x, hx⟩ : ∃ x, bytes[cs.length - 1 - startChunk]? = some x :=
    ⟨_, getElem?_eq_getElem (by omega)⟩
  obtain ⟨v, hv, hvx⟩ := hAll _ _ hx
  obtain ⟨w, hw, hwx⟩ := gAll _ _ hx
  rw [getElem?_drop, Nat.add_sub_cancel' (by omega)] at hv hw
  obtain ⟨p, c, -, -, hCall⟩ := hChained.step_at hv
  obtain ⟨q, d, -, -, gCall⟩ := gChained.step_at hw
  have hSame : v = w := HashFunc.eq_of_hashToBytes hCall gCall hvx hwx
  have hTake := hChained.take_eq_of_getElem? (hInjective.determines h.chunkSize) hcs hds gChained
    hv (hSame ▸ hw)
  rwa [take_of_length_le (by omega), take_of_length_le (by omega)] at hTake

theorem EndsAt.le {tokens : List Int} {stop : Option Int} (hStop : EndsAt h tokens stop endChunk) :
    endChunk * h.chunkSize ≤ tokens.length := by
  cases stop with
  | some stop => exact hStop.2
  | none =>
    obtain rfl := hStop
    exact Nat.div_mul_le_self _ _

theorem getHashes_eq {stop : Option Int} (hStop : EndsAt h s.tokenIds stop endChunk) :
    (s.getHashes h (startChunk * h.chunkSize : Nat) stop).2 =
      (s.computeHash h endChunk).2.map fun _ =>
        ((s.computeHash h endChunk).1.chunkHashes.take endChunk).drop startChunk := by
  have hPos : (h.chunkSize : Int) ≠ 0 := by exact_mod_cast h.chunkSize_pos.ne'
  have hDiv : ∀ n : Nat, ((n * h.chunkSize : Nat) : Int) / h.chunkSize = n := fun n => by
    rw [Nat.cast_mul, Int.mul_ediv_cancel _ hPos]
  have hMod : ∀ n : Nat, ((n * h.chunkSize : Nat) : Int) % h.chunkSize = 0 := fun n => by
    rw [Nat.cast_mul, Int.mul_emod_left]
  have hTo : (s.getHashesTo h startChunk (endChunk * h.chunkSize : Nat)).2 =
      (s.computeHash h endChunk).2.map fun _ =>
        ((s.computeHash h endChunk).1.chunkHashes.take endChunk).drop startChunk := by
    rw [getHashesTo_eq _ _ _ (hMod endChunk), hDiv]
    dsimp only
    rw [sliceOf_natCast]
  rw [getHashes, if_neg (not_not_intro (hMod startChunk)), hDiv]
  dsimp only
  cases stop with
  | some stop =>
    obtain ⟨rfl, hIn⟩ := hStop
    dsimp only
    rw [if_neg (by omega)]
    exact hTo
  | none =>
    obtain rfl := hStop
    have hBoundary : s.tokenIds.length - s.tokenIds.length % h.chunkSize =
        s.tokenIds.length / h.chunkSize * h.chunkSize := by
      have hSplit := Nat.div_add_mod s.tokenIds.length h.chunkSize
      rw [Nat.mul_comm] at hSplit
      omega
    rw [← hBoundary] at hTo
    exact hTo

theorem computeChunkHashes_eq_ok {stop : Option Int} (hStop : EndsAt h s.tokenIds stop endChunk)
    {bytes : List Bytes} :
    h.computeChunkHashes s.tokenIds none (startChunk * h.chunkSize : Nat) stop = .ok bytes ↔
      ∃ raw, Chained h.step h.noneHash (h.chunks s.tokenIds endChunk) raw ∧
        (raw.drop startChunk).mapM hashToBytes = .ok bytes := by
  rw [computeChunkHashes_eq_ok_iff (start_chunk_iff startChunk)]
  cases stop with
  | some stop =>
    obtain ⟨rfl, hIn⟩ := hStop
    rw [count_some, Nat.min_eq_right ((Nat.le_div_iff_mul_le h.chunkSize_pos).mpr hIn)]
    rfl
  | none =>
    obtain rfl := hStop
    rw [count_none]
    rfl

end Coherence

/-- In every reachable session the hashes returned for a range are those computed from scratch
for the tokens now set, where the chunks of the range that were hashed earlier are chunks of
these tokens; and only there, where the hash function has no collisions. -/
theorem session_hashes_coherent (h : TokenHasher) (calls : List Call) (startChunk endChunk : Nat)
    (stop : Option Int)
    (hStop : EndsAt h (calls.foldl (next h) (new, [])).1.tokenIds stop endChunk) :
    let state := calls.foldl (next h) (new, [])
    let answer := (state.1.getHashes h (startChunk * h.chunkSize : Nat) stop).2
    let scratch := h.computeChunkHashes state.1.tokenIds none (startChunk * h.chunkSize : Nat) stop
    (Agrees h state endChunk → ∀ bytes,
      answer >>= List.mapM hashToBytes = .ok bytes ↔ scratch = .ok bytes) ∧
    (h.hashFunc.Injective → startChunk < endChunk → ∀ bytes,
      answer >>= List.mapM hashToBytes = .ok bytes → scratch = .ok bytes →
        Agrees h state endChunk) := by
  intro state answer scratch
  have hCached : Cached h state.1 state.2 := cached_run calls
  have hAnswer : answer = _ := getHashes_eq hStop
  have hScratch : ∀ bytes, scratch = .ok bytes ↔ _ := fun bytes => computeChunkHashes_eq_ok hStop
  constructor
  · intro hAgrees bytes
    rw [hAnswer, hScratch]
    cases hRun : (state.1.computeHash h endChunk).2 with
    | error e =>
      refine ⟨fun h => (nomatch h), ?_⟩
      rintro ⟨raw, hRaw, -⟩
      exact absurd hRaw (hCached.computeHash_error hAgrees hRun raw)
    | ok u =>
      obtain ⟨all, hChained, -, -, hIff⟩ := hCached.computeHash_ok hStop.le hRun
      rw [hIff.mpr hAgrees] at hChained
      constructor
      · exact fun hBytes => ⟨_, hChained, hBytes⟩
      · rintro ⟨raw, hRaw, hBytes⟩
        rw [hRaw.unique hChained] at hBytes
        exact hBytes
  · intro hInjective hRange bytes hBytes hSame
    rw [hAnswer] at hBytes
    obtain ⟨raw, hRaw, hRawBytes⟩ := (hScratch bytes).mp hSame
    cases hRun : (state.1.computeHash h endChunk).2 with
    | error e =>
      rw [hRun] at hBytes
      cases hBytes
    | ok u =>
      rw [hRun] at hBytes
      obtain ⟨all, hChained, hComplete, hLength, hIff⟩ := hCached.computeHash_ok hStop.le hRun
      rw [← hIff]
      have hCount : (all.take endChunk).length = endChunk :=
        List.length_take_of_le hLength
      exact eq_of_bytes hInjective (fun c hc => hComplete c (List.mem_of_mem_take hc))
        (fun c hc => length_of_mem_chunks hStop.le hc) hChained hRaw
        (hCount.trans (length_chunks _ _).symm) (hRange.trans_eq hCount.symm)
        hBytes hRawBytes

/-- The hashes of `7` are extended when the prompt grows to `7 8`. -/
theorem session_hashes_coherent_extended :
    ((Session.getHashes sampleHasher ([Call.setTokens [7], .getHashes 0 none,
        .setTokens [7, 8]].foldl (next sampleHasher) (new, [])).1 0 none).2 >>=
      List.mapM hashToBytes) = .ok [sampleHash7, sampleHash78] :=
  ((session_hashes_coherent sampleHasher
    [.setTokens [7], .getHashes 0 none, .setTokens [7, 8]] 0 2 none rfl).1 rfl _).mpr rfl

/-- After the prompt `7 8` is replaced by `7 9`, the hashes of `7 8` are returned still. -/
theorem session_hashes_stale :
    let session := ([Call.setTokens [7, 8], .getHashes 0 none, .setTokens [7, 9]].foldl
      (next sampleHasher) (new, [])).1
    ((session.getHashes sampleHasher 0 (some 2)).2 >>= List.mapM hashToBytes) =
        .ok [sampleHash7, sampleHash78] ∧
      sampleHasher.computeChunkHashes session.tokenIds none 0 (some 2) =
        .ok [sampleHash7, sampleHash79] ∧
      sampleHash78 ≠ sampleHash79 := by
  refine ⟨rfl, rfl, ?_⟩
  decide

end Session

end LMCache.Multiprocess
