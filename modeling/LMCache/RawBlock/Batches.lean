import LMCache.Lib.Tally
import LMCache.RawBlock.Store

/-!
# Recovering a store

`_apply_loaded_state`: a decoded checkpoint is refused if it was written with another layout,
else its valid entries become the index, and the slots below its `next_slot` that no entry
uses become the free list. With verification, entries that the slot header on the device does
not confirm are dropped and their slots given back.

`get_metadata_many`, `exists_many`, `unlock_many` and `delete_many` hold the lock once for all
their keys. `Separate` says that no key has an entry and a write in flight; every section keeps
it, and a deletion changes the entries of its key only.
-/

namespace LMCache.RawBlock

open Lib

/-- What recovery reads besides the checkpoint: settings, the slot headers on the device, and
the conversions of an entry's tensor metadata. -/
structure RecoveryEnv (F M : Type) where
  devicePath : String
  metaVerifyOnLoad : Bool
  fdpSlotAffinityEnabled : Bool
  recoverInfo : String → Json F → Result M
  readSlotHeader : Nat → Option (Nat × Nat)
  slotIdentity : String → Result Nat

section Recovery

variable {F M : Type} [PyRuntime F] (layout : Layout) (env : RecoveryEnv F M)

/-- `int(data.get(key, default))`. -/
def getInt (data : Json F) (key : String) (default : Int) : Result Int :=
  match data.get? key with
  | none => .ok default
  | some value => value.toInt

def metaMagicText : String := String.ofList (layout.metaMagic.map fun b => Char.ofNat b.toNat)

/-- The checks of the checkpoint's own layout. -/
def matchesLayout (data : Json F) : Result Bool := do
  if !data.isObject then return false
  if (← getInt data "version" 0) ≠ 1 then return false
  let devicePath := (data.get? "device_path").getD .null
  if devicePath.truthy && !devicePath.equalsText env.devicePath then return false
  if (← getInt data "block_align" layout.blockAlign) ≠ layout.blockAlign then return false
  if (← getInt data "header_bytes" layout.headerBytes) ≠ layout.headerBytes then return false
  if (← getInt data "slot_bytes" layout.slotBytes) ≠ layout.slotBytes then return false
  if (← getInt data "meta_total_bytes" layout.metaTotalBytes) ≠ layout.metaTotalBytes then
    return false
  if ((data.get? "meta_magic").getD (.str (metaMagicText layout))).toText ≠
    metaMagicText layout then return false
  if (← getInt data "meta_version" layout.metaVersion) ≠ layout.metaVersion then return false
  return true

theorem toNat_le_of_range {n : Int} {max : Nat} (h : ¬ (n < 0 ∨ (max : Int) < n)) :
    n.toNat ≤ max := by omega

/-- `next_slot` of the checkpoint, if it is a slot count of this device. -/
def recoveredNextSlot (data : Json F) : Option { n : Nat // n ≤ layout.maxSlots } :=
  match getInt data "next_slot" 0 with
  | .error _ => none
  | .ok nextSlot =>
    if hRange : nextSlot < 0 ∨ (layout.maxSlots : Int) < nextSlot then none
    else some ⟨nextSlot.toNat, toNat_le_of_range hRange⟩

def isValidCheckpointEntry (offset size : Int) : Bool :=
  if offset < layout.dataBaseOffset then false
  else
    let rel := offset - layout.dataBaseOffset
    if rel % layout.slotBytes ≠ 0 then false
    else if (layout.maxSlots : Int) ≤ rel / layout.slotBytes then false
    else 0 < size && size ≤ (layout.slotBytes : Int) - layout.headerBytes

/-- One member of `entries`; `none` where it is skipped. -/
def recoverEntry (member : String × Json F) : Result (Option (String × Entry M)) := do
  if !member.2.isObject then return none
  let offset ← getInt member.2 "offset" 0
  let size ← getInt member.2 "size" 0
  if !isValidCheckpointEntry layout offset size then return none
  let info ← env.recoverInfo member.1 member.2
  return some (member.1, ⟨offset.toNat, size.toNat, info⟩)

/-- The valid entries of a checkpoint. -/
def recoveredIndex (data : Json F) : Result (Dict String (Entry M)) :=
  match data.get? "entries" with
  | some (.obj members) => do
    let entries ← members.mapM (recoverEntry layout env)
    return Dict.ofList (entries.filterMap id)
  | _ => .ok Dict.empty

/-- The slots below `nextSlot` that no entry uses. -/
def rebuiltFreeSlots (index : Dict String (Entry M)) (nextSlot : Nat) : List Nat :=
  let usedSlots := index.values.map (Store.slotOf layout)
  (List.range nextSlot).filter fun slot => slot ∉ usedSlots

/-- The store before its entries are verified. -/
def recoveredStore (index : Dict String (Entry M)) (nextSlot : { n : Nat // n ≤ layout.maxSlots }) :
    Store layout String M where
  index
  lockRefcnt := Dict.empty
  inflight := Dict.empty
  pool :=
    { fdpSlotAffinityEnabled := env.fdpSlotAffinityEnabled
      nextSlot := nextSlot.val
      freeSlots := rebuiltFreeSlots layout index nextSlot.val
      freeSlotsByPlacementId := Dict.empty
      slotPlacementIds := Dict.empty
      nextSlot_le := nextSlot.property
      freeSlots_lt := fun _ hMem => Nat.lt_of_lt_of_le
        (List.mem_range.mp (List.mem_of_mem_filter hMem)) nextSlot.property
      freeSlots_nodup := List.nodup_range.filter _
      affinity := affinityOk_empty _ _ }

/-- The slot header on the device is the one of the entry. -/
def RecoveryEnv.confirms (key : String) (e : Entry M) : Bool :=
  match env.readSlotHeader e.offset with
  | none => false
  | some (slotIdentity, payloadLen) =>
    match env.slotIdentity key with
    | .error _ => false
    | .ok expectedIdentity => slotIdentity = expectedIdentity && payloadLen = e.size

variable {layout} in
def dropEntry (s : Store layout String M) (key : String) : Store layout String M :=
  let dropped := { s with index := s.index.erase key, lockRefcnt := s.lockRefcnt.erase key }
  match s.index.get? key with
  | none => dropped
  | some e => dropped.freeOffset e.offset

variable {layout} in
def validateLoadedEntries (s : Store layout String M) : Store layout String M :=
  (s.index.entries.filter fun p => !env.confirms p.1 p.2).foldl (fun s p => dropEntry s p.1) s

/-- `_apply_loaded_state`; `none` where it returns `False`. -/
def applyLoadedState (data : Json F) : Result (Option (Store layout String M)) := do
  if !(← matchesLayout layout env data) then return none
  match recoveredNextSlot layout data with
  | none => return none
  | some nextSlot =>
    let index ← recoveredIndex layout env data
    let store := recoveredStore layout env index nextSlot
    return some (if env.metaVerifyOnLoad then validateLoadedEntries env store else store)

end Recovery

namespace Store

variable {layout : Layout} {K M : Type} [DecidableEq K]

def getMetadataMany (s : Store layout K M) (keys : List K) : List (Option (Entry M)) :=
  keys.map fun key => s.index.get? key

def lockKey (s : Store layout K M) (key : K) : Store layout K M :=
  { s with lockRefcnt := s.lockRefcnt.set key ((s.lockRefcnt.get? key).getD 0 + 1) }

def existsMany (s : Store layout K M) (lock : Bool) : List K → List Bool × Store layout K M
  | [] => ([], s)
  | key :: keys =>
    let found := s.index.contains key
    let rest := (if found && lock then s.lockKey key else s).existsMany lock keys
    (found :: rest.1, rest.2)

def unlockKey (s : Store layout K M) (key : K) : Store layout K M :=
  let refcnt := (s.lockRefcnt.get? key).getD 0
  { s with
    lockRefcnt := if refcnt ≤ 1 then s.lockRefcnt.erase key else s.lockRefcnt.set key (refcnt - 1) }

def unlockMany (s : Store layout K M) (keys : List K) : Store layout K M := keys.foldl unlockKey s

def deleteMany (s : Store layout K M) (force : Bool) : List K → List Bool × Store layout K M
  | [] => ([], s)
  | key :: keys =>
    let (deleted, t) := s.delete key force
    let rest := t.deleteMany force keys
    (deleted :: rest.1, rest.2)

/-- No key with a write in flight has an entry. -/
def Separate (s : Store layout K M) : Prop :=
  ∀ k, s.inflight.contains k = true → s.index.get? k = none

/-- Whether a lock keeps a key from being deleted. -/
def locked (s : Store layout K M) (key : K) : Bool := 0 < (s.lockRefcnt.get? key).getD 0

theorem index_existsMany (s : Store layout K M) (lock : Bool) (keys : List K) :
    (s.existsMany lock keys).2.index = s.index ∧
      (s.existsMany lock keys).2.inflight = s.inflight := by
  induction keys generalizing s with
  | nil => exact ⟨rfl, rfl⟩
  | cons key keys ih =>
    obtain ⟨hIndex, hInflight⟩ := ih (if s.index.contains key && lock then s.lockKey key else s)
    rw [existsMany]
    dsimp only
    rw [hIndex, hInflight]
    split <;> exact ⟨rfl, rfl⟩

theorem index_unlockMany (s : Store layout K M) (keys : List K) :
    (s.unlockMany keys).index = s.index ∧ (s.unlockMany keys).inflight = s.inflight := by
  induction keys generalizing s with
  | nil => exact ⟨rfl, rfl⟩
  | cons key keys ih => exact ih (s.unlockKey key)

theorem reserve_cases (s : Store layout K M) (key : K) (placementId : Option Nat) (size : Nat)
    (info : M) : (s.reserve key placementId size info).2 = s ∨
      (s.reserve key placementId size info).2.index = s.index ∧ s.index.get? key = none ∧
        ∃ i, (s.reserve key placementId size info).2.inflight = s.inflight.set key i := by
  unfold reserve
  split
  · exact .inl rfl
  rename_i hAbsent
  split
  · exact .inl rfl
  split
  · exact .inl rfl
  exact .inr ⟨rfl, Dict.not_contains_iff.mp hAbsent, _, rfl⟩

theorem commit_cases {s t : Store layout K M} {key : K} {success stored : Bool}
    (h : s.commit key success = some (stored, t)) :
    s.inflight.contains key = true ∧ t.inflight = s.inflight.erase key ∧
      (stored = false ∧ t.index = s.index ∨
        stored = true ∧ ∃ e, t.index = s.index.set key e) := by
  unfold commit at h
  split at h
  · cases h
  rename_i i hGet
  have hIn : s.inflight.contains key = true := Dict.contains_iff.mpr ⟨i, hGet⟩
  split at h
  · cases h
    exact ⟨hIn, rfl, .inl ⟨rfl, rfl⟩⟩
  · cases h
    exact ⟨hIn, rfl, .inr ⟨rfl, _, rfl⟩⟩

/-- What a deletion does: nothing to a locked entry, else the entry goes and a write in flight
is canceled. -/
theorem delete_cases (s : Store layout K M) (key : K) :
    ((s.delete key false).1 = false ∧ (s.delete key false).2 = s ∧
        (s.index.get? key).isSome = true ∧ s.locked key = true) ∨
      (s.delete key false).2.index = s.index.erase key ∧
        (∀ k, (s.delete key false).2.inflight.contains k = s.inflight.contains k) ∧
        (∀ k, key ≠ k → (s.delete key false).2.locked k = s.locked k) ∧
        ((s.index.get? key).isSome = true → s.locked key = false) ∧
        (s.delete key false).1 = ((s.index.get? key).isSome || s.inflight.contains key) := by
  unfold delete
  dsimp only
  split
  · rename_i hLocked
    rw [Bool.and_eq_true, Bool.and_eq_true] at hLocked
    exact .inl ⟨rfl, rfl, hLocked.1.1, by simpa [locked] using hLocked.1.2⟩
  · rename_i hFree
    refine .inr ⟨?_, fun k => ?_, fun k hNe => ?_, fun hSome => ?_, rfl⟩
    · cases s.index.get? key <;> rfl
    · cases hGet : s.inflight.get? key with
      | none => cases s.index.get? key <;> rfl
      | some i =>
        have hSame : (s.inflight.set key { i with canceled := true }).contains k =
            s.inflight.contains k := by
          rw [Bool.eq_iff_iff, contains_set]
          refine ⟨fun h => h.elim (fun hEq => ?_) id, .inr⟩
          exact Dict.contains_iff.mpr ⟨i, hEq ▸ hGet⟩
        cases s.index.get? key <;> exact hSame
    · have hLocks : ∀ u : Store layout K M, u.lockRefcnt = s.lockRefcnt.erase key →
          u.locked k = s.locked k := by
        intro u hErase
        rw [locked, hErase, Dict.get?_erase_ne _ hNe, locked]
      apply hLocks
      cases s.index.get? key <;> rfl
    · rw [Bool.and_eq_true, Bool.and_eq_true, not_and_or, not_and_or] at hFree
      simpa [locked, hSome] using hFree

theorem Separate.of_index {s t : Store layout K M} (h : s.Separate) (hIndex : t.index = s.index)
    (hInflight : t.inflight = s.inflight) : t.Separate := by
  intro k hIn
  rw [hIndex]
  exact h k (hInflight ▸ hIn)

theorem Separate.reserve {s : Store layout K M} (h : s.Separate) (key : K)
    (placementId : Option Nat) (size : Nat) (info : M) :
    (s.reserve key placementId size info).2.Separate := by
  rcases s.reserve_cases key placementId size info with hSame | ⟨hIndex, hNone, i, hInflight⟩
  · rwa [hSame]
  · intro k hIn
    rw [hInflight, contains_set] at hIn
    rw [hIndex]
    rcases hIn with rfl | hOld
    · exact hNone
    · exact h k hOld

theorem Separate.commit {s t : Store layout K M} (h : s.Separate) {key : K}
    {success stored : Bool} (hCommit : s.commit key success = some (stored, t)) :
    t.Separate := by
  obtain ⟨-, hInflight, hIndex⟩ := commit_cases hCommit
  intro k hIn
  rw [hInflight, Dict.contains, Dict.get?_erase] at hIn
  split at hIn
  · cases hIn
  rename_i hNe
  rcases hIndex with ⟨-, hIndex⟩ | ⟨-, e, hIndex⟩
  · rw [hIndex]
    exact h k hIn
  · rw [hIndex, Dict.get?_set_ne _ hNe]
    exact h k hIn

theorem Separate.delete {s : Store layout K M} (h : s.Separate) (key : K) :
    (s.delete key false).2.Separate := by
  rcases s.delete_cases key with ⟨-, hSame, -⟩ | ⟨hIndex, hInflight, -⟩
  · rwa [hSame]
  · intro k hIn
    rw [hInflight] at hIn
    rw [hIndex, Dict.get?_erase]
    split
    · rfl
    · exact h k hIn

end Store

end LMCache.RawBlock
