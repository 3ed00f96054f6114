import LMCache.Lib.Updates
import LMCache.Lib.Words
import LMCache.Serde.Wrapper

/-!
# Cache events and the key directory

MP servers report changes of their caches to the coordinator in batches. All entries of a
batch are of one type and about one tier and backend. The checks of `__post_init__` are fields
of the structures.

`KeyDirectory` maps every key to its placements in the fleet. Next to it are the reverse index
of L1 placements by instance, which makes fencing an instance cheap, and the token contents of
the chunk hashes. Fragment lookup is off.

A Python set is a dictionary without values; loops over it go in the order of insertion, and
no result depends on that.
-/

namespace LMCache.Coordinator

open Lib Serde

inductive Tier
  | l1
  | l2
deriving DecidableEq, Repr

inductive CacheEventType
  | store
  | delete
  | access
  | config
deriving DecidableEq, Repr

namespace CacheEventType

theorem store_ne_config : store ≠ .config := nofun

theorem delete_ne_config : delete ≠ .config := nofun

theorem access_ne_config : access ≠ .config := nofun

theorem access_backend (backend : String) : access ≠ .access → backend ≠ "" :=
  fun h => absurd rfl h

end CacheEventType

/-- One key of a batch. `none` is `UNKNOWN_TOKEN_OFFSET`. -/
structure CacheEventEntry where
  key : ObjectKey
  sizeBytes : Nat := 0
  tokenIds : List Int := []
  tokenOffset : Option Nat := none
deriving DecidableEq

structure CacheEventBatch where
  instanceId : String
  incarnation : Nat
  seq : Nat
  eventType : CacheEventType
  tier : Tier
  backend : String
  entries : List CacheEventEntry
  shared : Bool
  ts : ℚ
  capacityBytes : Nat
  capacityRevision : Nat
  instanceId_ne : instanceId ≠ ""
  backend_ne : eventType ≠ .access → backend ≠ ""
  config_empty : eventType = .config → entries = []
  seq_pos : 1 ≤ seq
  ts_nonneg : 0 ≤ ts
deriving DecidableEq

abbrev KeySet := Dict ObjectKey Unit

structure Placement where
  instanceId : String
  incarnation : Nat
  tier : Tier
  backend : String
  sizeBytes : Nat
  shared : Bool
deriving DecidableEq

/-- What `_find_placement` compares. The owner of a shared placement is the fleet. -/
structure PlacementIdentity where
  shared : Bool
  owner : String
  tier : Tier
  backend : String
deriving DecidableEq

def Placement.identity (p : Placement) : PlacementIdentity :=
  ⟨p.shared, if p.shared then "" else p.instanceId, p.tier, p.backend⟩

namespace CacheEventBatch

def identity (batch : CacheEventBatch) : PlacementIdentity :=
  ⟨batch.shared, if batch.shared then "" else batch.instanceId, batch.tier, batch.backend⟩

def placement (batch : CacheEventBatch) (entry : CacheEventEntry) : Placement :=
  ⟨batch.instanceId, batch.incarnation, batch.tier, batch.backend, entry.sizeBytes, batch.shared⟩

end CacheEventBatch

/-- The condition of `_find_placement`. -/
def Placement.matchesBatch (p : Placement) (batch : CacheEventBatch) : Bool :=
  p.shared == batch.shared && (batch.shared || p.instanceId == batch.instanceId) &&
    p.tier == batch.tier && p.backend == batch.backend

/-- A placement that the end of an incarnation of the instance makes void. -/
def Placement.fencedBy (instanceId : String) (p : Placement) : Bool :=
  p.tier = .l1 ∧ p.instanceId = instanceId

/-- The order of lookups: `(instance_id, tier, backend)`. -/
def Placement.before (p q : Placement) : Bool :=
  let tier : Tier → Nat
    | .l1 => 1
    | .l2 => 2
  if p.instanceId ≠ q.instanceId then p.instanceId < q.instanceId
  else if p.tier ≠ q.tier then tier p.tier < tier q.tier
  else !(q.backend < p.backend : Bool)

structure KeyRecord where
  placements : List Placement
  lastAccess : ℚ
deriving DecidableEq

structure TokenBinding where
  tokenIds : List UInt32
  tokenOffset : Option Nat
  keys : KeySet

abbrev TokenBindings := Dict Bytes TokenBinding

/-- `np.asarray(token_ids, dtype=uint32)`; `none` where it raises. -/
def asTokenIds (tokenIds : List Int) : Option (List UInt32) :=
  tokenIds.mapM fun t => if 0 ≤ t ∧ t < 2 ^ 32 then some (UInt32.ofNat t.toNat) else none

namespace TokenBindings

def addKey (bindings : TokenBindings) (key : ObjectKey) : TokenBindings :=
  match bindings.get? key.chunkHash with
  | none => bindings.set key.chunkHash ⟨[], none, Dict.empty.set key ()⟩
  | some binding => bindings.set key.chunkHash { binding with keys := binding.keys.set key () }

def removeKey (bindings : TokenBindings) (key : ObjectKey) : TokenBindings :=
  match bindings.get? key.chunkHash with
  | none => bindings
  | some binding =>
    let keys := binding.keys.erase key
    if keys.keys.isEmpty then bindings.erase key.chunkHash
    else bindings.set key.chunkHash { binding with keys := keys }

/-- `_create_token_binding`. -/
def fill (bindings : TokenBindings) (chunkHash : Bytes) (entry : CacheEventEntry) :
    TokenBindings :=
  match asTokenIds entry.tokenIds, bindings.get? chunkHash with
  | some tokenIds, some binding =>
    bindings.set chunkHash { binding with tokenIds := tokenIds, tokenOffset := entry.tokenOffset }
  | _, _ => bindings

end TokenBindings

structure KeyDirectory where
  directory : Dict ObjectKey KeyRecord
  l1KeysByInstance : Dict String KeySet
  tokenBindings : TokenBindings

namespace KeyDirectory

def new : KeyDirectory := ⟨.empty, .empty, .empty⟩

def l1Keys (d : KeyDirectory) (instanceId : String) : KeySet :=
  (d.l1KeysByInstance.get? instanceId).getD .empty

def setL1Keys (d : KeyDirectory) (instanceId : String) (keys : KeySet) : KeyDirectory :=
  { d with l1KeysByInstance := d.l1KeysByInstance.set instanceId keys }

def applyStore (d : KeyDirectory) (batch : CacheEventBatch) (entry : CacheEventEntry) :
    KeyDirectory :=
  let key := entry.key
  let record := (d.directory.get? key).getD ⟨[], 0⟩
  let bindings :=
    match d.directory.get? key with
    | none => d.tokenBindings.addKey key
    | some _ => d.tokenBindings
  let stored : KeyDirectory :=
    { d with
      directory := d.directory.set key
        ⟨upsert (fun p => p.matchesBatch batch) (batch.placement entry) record.placements,
          max record.lastAccess batch.ts⟩
      tokenBindings :=
        if entry.tokenIds.isEmpty then bindings else bindings.fill key.chunkHash entry }
  if batch.tier = .l1 then
    stored.setL1Keys batch.instanceId ((stored.l1Keys batch.instanceId).set key ())
  else stored

/-- The record of a key after some of its placements are gone; without placements it goes. -/
def keepPlacements (d : KeyDirectory) (key : ObjectKey) (record : KeyRecord)
    (placements : List Placement) : KeyDirectory :=
  if placements.isEmpty then
    { d with
      directory := d.directory.erase key
      tokenBindings := d.tokenBindings.removeKey key }
  else { d with directory := d.directory.set key { record with placements := placements } }

def applyDelete (d : KeyDirectory) (batch : CacheEventBatch) (entry : CacheEventEntry) :
    KeyDirectory :=
  let key := entry.key
  match d.directory.get? key with
  | none => d
  | some record =>
    let placements := record.placements.eraseP fun p => p.matchesBatch batch
    let deleted := d.keepPlacements key record placements
    if batch.tier = .l1 ∧
        ¬ placements.any (fun p => p.tier = .l1 ∧ p.instanceId = batch.instanceId) then
      deleted.setL1Keys batch.instanceId ((deleted.l1Keys batch.instanceId).erase key)
    else deleted

def applyAccess (d : KeyDirectory) (batch : CacheEventBatch) (entry : CacheEventEntry) :
    KeyDirectory :=
  match d.directory.get? entry.key with
  | none => d
  | some record =>
    { d with
      directory := d.directory.set entry.key
        { record with lastAccess := max record.lastAccess batch.ts } }

def applyEntry (batch : CacheEventBatch) (d : KeyDirectory) (entry : CacheEventEntry) :
    KeyDirectory :=
  match batch.eventType with
  | .store => d.applyStore batch entry
  | .delete => d.applyDelete batch entry
  | .access => d.applyAccess batch entry
  | .config => d

def consume (d : KeyDirectory) (batch : CacheEventBatch) : KeyDirectory :=
  batch.entries.foldl (applyEntry batch) (d.setL1Keys batch.instanceId (d.l1Keys batch.instanceId))

/-- One key of `_drop_l1_placements`. -/
def dropL1Key (instanceId : String) (d : KeyDirectory) (key : ObjectKey) : KeyDirectory :=
  match d.directory.get? key with
  | none => d
  | some record =>
    d.keepPlacements key record (record.placements.filter fun p => !p.fencedBy instanceId)

def fenceInstance (d : KeyDirectory) (instanceId : String) : KeyDirectory :=
  let dropped := (d.l1Keys instanceId).keys.foldl (dropL1Key instanceId) d
  { dropped with l1KeysByInstance := dropped.l1KeysByInstance.erase instanceId }

def lookup (d : KeyDirectory) (keys : List ObjectKey) : List (List Placement) :=
  keys.map fun key =>
    match d.directory.get? key with
    | none => []
    | some record => record.placements.mergeSort Placement.before

def getTokenIds (d : KeyDirectory) (chunkHashes : List Bytes) : List (List UInt32) :=
  chunkHashes.map fun chunkHash =>
    match d.tokenBindings.get? chunkHash with
    | none => []
    | some binding => binding.tokenIds

end KeyDirectory

/-- An item of a stored section; `none` is one that the component cannot decode. -/
abbrev Stored (α : Type) := Option α

def readable {α : Type} : List (Stored α) → List α
  | [] => []
  | none :: _ => []
  | some a :: rest => a :: readable rest

def isReadable {α : Type} (items : List (Stored α)) : Bool := items.all Option.isSome

instance : Storable UInt32 where
  size := 4
  toBytes x := Bytes.toLE 4 x.toNat
  ofBytes bs := UInt32.ofNat (Bytes.ofLE bs)
  size_pos := by decide
  length_toBytes _ := Bytes.length_toLE ..
  ofBytes_toBytes x := by
    rw [Bytes.ofLE_toLE (by have := x.toNat_lt; omega)]
    exact UInt32.ofNat_toNat

/-- The section `key_directory` of a checkpoint. Keys are cited by position. -/
structure DirectorySection where
  keys : List (Stored (ObjectKey × ℚ × List Placement))
  bindings : List (Stored (Bytes × Option Nat × Bytes))
  l1KeysByInstance : Dict String (List (Stored Int))

namespace KeyDirectory

def capture (d : KeyDirectory) : DirectorySection where
  keys := d.directory.entries.map fun e => some (e.1, e.2.lastAccess, e.2.placements)
  bindings := d.tokenBindings.entries.map fun e =>
    some (e.1, e.2.tokenOffset, Storable.store e.2.tokenIds)
  l1KeysByInstance := d.l1KeysByInstance.mapValues fun keys =>
    keys.keys.filterMap fun k => (d.directory.keys.idxOf? k).map fun i : Nat => some (Int.ofNat i)

def restoreKey (d : KeyDirectory) (item : ObjectKey × ℚ × List Placement) : KeyDirectory :=
  { d with
    directory := d.directory.set item.1 ⟨item.2.2, item.2.1⟩
    tokenBindings := d.tokenBindings.addKey item.1 }

/-- The loop over the bindings. Content that no key references is skipped, and
`np.frombuffer` raises for a part of a word. -/
def restoreBindings :
    List (Stored (Bytes × Option Nat × Bytes)) → KeyDirectory → KeyDirectory × Bool
  | [], d => (d, true)
  | none :: _, d => (d, false)
  | some (chunkHash, tokenOffset, raw) :: rest, d =>
    match d.tokenBindings.get? chunkHash with
    | none => restoreBindings rest d
    | some binding =>
      if raw.length % 4 ≠ 0 then (d, false)
      else
        restoreBindings rest { d with
          tokenBindings := d.tokenBindings.set chunkHash
            { binding with tokenIds := Storable.load raw, tokenOffset := tokenOffset } }

def citedKey (keyTable : List ObjectKey) (position : Stored Int) : Option ObjectKey :=
  position.bind fun n => if 0 ≤ n then keyTable[n.toNat]? else none

/-- The loop over the reverse index, up to the first instance that cites a bad position. -/
def restoreIndex (keyTable : List ObjectKey) :
    List (String × List (Stored Int)) → KeyDirectory → KeyDirectory × Bool
  | [], d => (d, true)
  | (instanceId, positions) :: rest, d =>
    match positions.mapM (citedKey keyTable) with
    | none => (d, false)
    | some keys =>
      restoreIndex keyTable rest (d.setL1Keys instanceId (Dict.ofList (keys.map fun k => (k, ()))))

/-- The directory after `restore`, and whether it returned without raising. -/
def restore (d : KeyDirectory) (stored : DirectorySection) : KeyDirectory × Bool :=
  if d.directory.size ≠ 0 ∨ d.l1KeysByInstance.size ≠ 0 then (d, false)
  else
    let items := readable stored.keys
    let withKeys := items.foldl restoreKey d
    if !isReadable stored.keys then (withKeys, false)
    else
      let (withBindings, isComplete) := restoreBindings stored.bindings withKeys
      if !isComplete then (withBindings, false)
      else restoreIndex (items.map Prod.fst) stored.l1KeysByInstance.entries withBindings

end KeyDirectory

end LMCache.Coordinator
