import LMCache.Coordinator.KeyDirectory
import LMCache.Lib.HashChain

/-!
# The fingerprint index

`BlendIndex` answers which cached chunks the tokens of a request contain, and where. Contents
are found by a fingerprint of 64 bits: a table resolves fingerprints exactly, and a filter of
slots, one bit each, says cheaply that a fingerprint is not in the table. A removal leaves its
bit set, and the filter is built anew when it has become too small or too stale.

The fingerprint is a parameter of the operations. The index itself uses a polynomial hash, and
`match` computes it for all windows of a query by rolling.
-/

namespace LMCache.Coordinator

open Lib Serde

def polyBase : UInt64 := 0x9E3779B97F4A7C15

/-- `chunk_hash_windows_numba`: one hash for each whole chunk. -/
def chunkHashWindows (arr : List UInt64) (k : Nat) (base : UInt64) : List UInt64 :=
  (List.range (arr.length / k)).map fun w =>
    ((arr.drop (w * k)).take k).foldl (fun h x => h * base + x) 0

/-- The second loop of `rolling_hash_windows_numba`, over the words that leave the window and
those that enter it. -/
def rollWindows (base power : UInt64) : UInt64 → List UInt64 → List UInt64 → List UInt64
  | h, old :: olds, new :: news =>
    let next := (h - old * power) * base + new
    next :: rollWindows base power next olds news
  | _, _, _ => []

/-- `rolling_hash_windows_numba`: one hash for each position with a whole window. -/
def rollingHashWindows (arr : List UInt64) (k : Nat) (base : UInt64) : List UInt64 :=
  let power := (· * base)^[k - 1] 1
  let h := (arr.take k).foldl (fun h x => h * base + x) 0
  h :: rollWindows base power h arr (arr.drop k)

/-- An occupant is a chunk with its offset in the stored sequence. -/
structure FingerprintEntry where
  tokenIds : List UInt32
  occupants : List (Bytes × Nat)
deriving DecidableEq

structure BlendMatch where
  chunkHash : Bytes
  oldSt : Nat
  curSt : Nat
deriving DecidableEq

/-- The checks of `__init__` are fields. -/
structure BlendIndex where
  chunkSize : Nat
  probeStride : Nat
  fingerprintTable : Dict UInt64 FingerprintEntry
  slots : List Bool
  bitsSet : Nat
  chunkSize_pos : 1 ≤ chunkSize
  probeStride_pos : 1 ≤ probeStride

def tableGrowth : Nat := 16

def minTableSize : Nat := 1024

/-- `np.asarray(token_ids, dtype=np.uint64)` of stored tokens. -/
def asUInt64 (tokenIds : List UInt32) : List UInt64 := tokenIds.map UInt32.toUInt64

/-- The doubling loop of `_rebuild_table`; a bound on its rounds is enough fuel. -/
def growTable (needed : Nat) : Nat → Nat → Nat
  | 0, size => size
  | fuel + 1, size => if size < needed then growTable needed fuel (2 * size) else size

namespace BlendIndex

def new (chunkSize probeStride : Nat) (hSize : 1 ≤ chunkSize) (hStride : 1 ≤ probeStride) :
    BlendIndex :=
  ⟨chunkSize, probeStride, .empty, List.replicate minTableSize false, 0, hSize, hStride⟩

def slot (size : Nat) (poly : UInt64) : Nat := poly.toNat &&& (size - 1)

def rebuildTable (s : BlendIndex) : BlendIndex :=
  let needed := tableGrowth * s.fingerprintTable.size
  let size := growTable needed needed minTableSize
  let slots := s.fingerprintTable.keys.foldl (fun slots poly => slots.set (slot size poly) true)
    (List.replicate size false)
  { s with slots, bitsSet := slots.countP id }

def mark (s : BlendIndex) (poly : UInt64) : BlendIndex :=
  let i := slot s.slots.length poly
  if s.slots.getD i false then s
  else { s with slots := s.slots.set i true, bitsSet := s.bitsSet + 1 }

variable (fingerprint : List UInt64 → UInt64)

def add (s : BlendIndex) (tokenIds : List UInt32) (chunkHash : Bytes) (tokenOffset : Nat) :
    BlendIndex :=
  if tokenIds.length ≠ s.chunkSize then s
  else
    let poly := fingerprint (asUInt64 tokenIds)
    match s.fingerprintTable.get? poly with
    | none =>
      let table := s.fingerprintTable.set poly ⟨tokenIds, [(chunkHash, tokenOffset)]⟩
      let entered := mark { s with fingerprintTable := table } poly
      if entered.slots.length < tableGrowth * entered.fingerprintTable.size then
        entered.rebuildTable
      else entered
    | some entry =>
      let occupants := upsert (fun o => o.1 = chunkHash) (chunkHash, tokenOffset) entry.occupants
      { s with fingerprintTable := s.fingerprintTable.set poly { entry with occupants } }

def remove (s : BlendIndex) (tokenIds : List UInt32) (chunkHash : Bytes) : BlendIndex :=
  if tokenIds.length ≠ s.chunkSize then s
  else
    let poly := fingerprint (asUInt64 tokenIds)
    match s.fingerprintTable.get? poly with
    | none => s
    | some entry =>
      let occupants := entry.occupants.filter fun o => o.1 ≠ chunkHash
      if occupants.isEmpty then
        let dropped := { s with fingerprintTable := s.fingerprintTable.erase poly }
        -- the bit stays until a rebuild
        if 2 * dropped.fingerprintTable.size < dropped.bitsSet then dropped.rebuildTable
        else dropped
      else { s with fingerprintTable := s.fingerprintTable.set poly { entry with occupants } }

def strided {α : Type} (stride : Nat) (l : List α) : List α :=
  (List.range ((l.length + stride - 1) / stride)).filterMap fun i => l[i * stride]?

/-- What one occupied position of the probe adds: the first occupant of its content that has
not been seen, if the content is that of the query. -/
def matchAt (s : BlendIndex) (query : List UInt64) (probe : List UInt64)
    (found : List BlendMatch × List Bytes) (position : Nat) : List BlendMatch × List Bytes :=
  match s.fingerprintTable.get? (probe.getD position 0) with
  | none => found
  | some entry =>
    let curSt := position * s.probeStride
    if (query.drop curSt).take s.chunkSize ≠ asUInt64 entry.tokenIds then found
    else
      match entry.occupants.find? fun o => o.1 ∉ found.2 with
      | none => found
      | some (chunkHash, tokenOffset) =>
        (found.1 ++ [⟨chunkHash, tokenOffset, curSt⟩], chunkHash :: found.2)

/-- `match` after the hashes of the windows of the query were computed. -/
def matchRolling (s : BlendIndex) (query rolling : List UInt64) : List BlendMatch :=
  let probe := strided s.probeStride rolling
  let occupied := (List.range probe.length).filter fun position =>
    s.slots.getD (slot s.slots.length (probe.getD position 0)) false
  (occupied.foldl (s.matchAt query probe) ([], [])).1

/-- `match`, where the hash of every window is its fingerprint. -/
def matchWindows (s : BlendIndex) (query : List UInt64) : List BlendMatch :=
  if query.length < s.chunkSize then []
  else s.matchRolling query ((Lib.windows s.chunkSize query).map fingerprint)

/-- `match`. -/
def matchTokens (s : BlendIndex) (query : List UInt64) : List BlendMatch :=
  if query.length < s.chunkSize then []
  else s.matchRolling query (rollingHashWindows query s.chunkSize polyBase)

/-- `_fingerprint`, for content of a chunk's length. -/
def polynomialFingerprint (chunkSize : Nat) (window : List UInt64) : UInt64 :=
  (chunkHashWindows window chunkSize polyBase).headD 0

end BlendIndex

end LMCache.Coordinator
