import LMCache.Coordinator.KeyDirectory
import LMCache.Lib.Rollup

/-!
# The usage view

`CacheUsageManager` keeps the size of every placement and rolls the sizes up per key, per salt
and per instance and backend. The L1 placements of an instance are indexed, for fences. The
number of underflows that were clamped is a record that nothing reads.

The rollups are the sums of the sizes of the placements, so that no sum is ever clamped, and
the index of an instance is exactly its L1 placements. Both are kept by every store, removal
and fence.
-/

namespace LMCache.Coordinator

open Lib Serde List Dict

/-- The owner of a placement is the reporting instance, or `""` for a shared pool. -/
structure PlacementId where
  tier : Tier
  key : ObjectKey
  owner : String
  backend : String
deriving DecidableEq

namespace PlacementId

def keyGroup (id : PlacementId) : Tier × ObjectKey := (id.tier, id.key)

def saltGroup (id : PlacementId) : Tier × String := (id.tier, id.key.cacheSalt)

def nodeGroup (id : PlacementId) : Tier × String × String := (id.tier, id.owner, id.backend)

end PlacementId

structure CacheUsageManager where
  placementSizes : Dict PlacementId Nat
  keyBytes : Dict (Tier × ObjectKey) Int
  saltBytes : Dict (Tier × String) Int
  instanceBytes : Dict (Tier × String × String) Int
  l1ByInstance : Dict String (Dict PlacementId Unit)
  underflows : Nat

def CacheEventBatch.placementId (batch : CacheEventBatch) (entry : CacheEventEntry) : PlacementId :=
  ⟨batch.tier, entry.key, if batch.shared then "" else batch.instanceId, batch.backend⟩

namespace CacheUsageManager

def new : CacheUsageManager := ⟨.empty, .empty, .empty, .empty, .empty, 0⟩

/-- A sum below zero is clamped. -/
def underflow {κ : Type} [DecidableEq κ] (rollup : Dict κ Int) (k : κ) (delta : Int) : Nat :=
  if (rollup.get? k).getD 0 + delta < 0 then 1 else 0

def adjust (u : CacheUsageManager) (id : PlacementId) (delta : Int) : CacheUsageManager :=
  if delta = 0 then u
  else
    { u with
      keyBytes := u.keyBytes.adjust id.keyGroup delta
      saltBytes := u.saltBytes.adjust id.saltGroup delta
      instanceBytes := u.instanceBytes.adjust id.nodeGroup delta
      underflows := u.underflows + underflow u.keyBytes id.keyGroup delta +
        underflow u.saltBytes id.saltGroup delta + underflow u.instanceBytes id.nodeGroup delta }

/-- `_l1_by_instance` without a placement; no empty set is kept. -/
def unindex (index : Dict String (Dict PlacementId Unit)) (id : PlacementId) :
    Dict String (Dict PlacementId Unit) :=
  if id.tier = .l1 then
    match index.get? id.owner with
    | none => index
    | some owned =>
      let rest := owned.erase id
      if rest.keys.isEmpty then index.erase id.owner else index.set id.owner rest
  else index

def remove (u : CacheUsageManager) (id : PlacementId) : CacheUsageManager :=
  adjust { u with
      l1ByInstance := unindex u.l1ByInstance id
      placementSizes := u.placementSizes.erase id } id
    (-((u.placementSizes.get? id).getD 0 : Nat))

/-- `_l1_by_instance` with an L1 placement that has an owner. -/
def indexed (index : Dict String (Dict PlacementId Unit)) (id : PlacementId) :
    Dict String (Dict PlacementId Unit) :=
  if id.tier = .l1 ∧ id.owner ≠ "" then
    index.set id.owner (((index.get? id.owner).getD .empty).set id ())
  else index

def store (u : CacheUsageManager) (id : PlacementId) (sizeBytes : Nat) : CacheUsageManager :=
  adjust { u with
      placementSizes := u.placementSizes.set id sizeBytes
      l1ByInstance := indexed u.l1ByInstance id } id
    (sizeBytes - ((u.placementSizes.get? id).getD 0 : Nat))

def applyEntry (batch : CacheEventBatch) (u : CacheUsageManager) (entry : CacheEventEntry) :
    CacheUsageManager :=
  match batch.eventType with
  | .store => u.store (batch.placementId entry) entry.sizeBytes
  | .delete => u.remove (batch.placementId entry)
  | _ => u

def consume (u : CacheUsageManager) (batch : CacheEventBatch) : CacheUsageManager :=
  batch.entries.foldl (applyEntry batch) u

def fenceInstance (u : CacheUsageManager) (instanceId : String) : CacheUsageManager :=
  ((u.l1ByInstance.get? instanceId).getD .empty).keys.foldl remove
    { u with l1ByInstance := u.l1ByInstance.erase instanceId }

def getKeyBytes (u : CacheUsageManager) (tier : Tier) (key : ObjectKey) : Int :=
  (u.keyBytes.get? (tier, key)).getD 0

def getSaltBytes (u : CacheUsageManager) (tier : Tier) (cacheSalt : String) : Int :=
  (u.saltBytes.get? (tier, cacheSalt)).getD 0

/-- `get_bytes_by_salt`, as the function from salts to bytes that the dictionary is. -/
def getBytesBySalt (u : CacheUsageManager) (tier : Tier) (cacheSalt : String) : Option Int :=
  u.saltBytes.get? (tier, cacheSalt)

/-- `get_bytes_by_instance`, as a function from instances and backends. -/
def getBytesByInstance (u : CacheUsageManager) (tier : Tier) (instanceId backend : String) :
    Option Int :=
  u.instanceBytes.get? (tier, instanceId, backend)

def getTotalBytes (u : CacheUsageManager) (tier : Tier) : Int :=
  ((u.saltBytes.entries.filter fun e => e.1.1 = tier).map Prod.snd).sum

/-- An item of the section. An `unsized` one names a placement, with a size that is no number. -/
inductive StoredPlacement
  | unreadable
  | unsized (id : PlacementId)
  | placement (id : PlacementId) (sizeBytes : Nat)
deriving DecidableEq

abbrev UsageSection := List StoredPlacement

def capture (u : CacheUsageManager) : UsageSection :=
  u.placementSizes.entries.map fun e => .placement e.1 e.2

def restorePlacement (u : CacheUsageManager) (item : PlacementId × Nat) : CacheUsageManager :=
  adjust { u with
      placementSizes := u.placementSizes.set item.1 item.2
      l1ByInstance := indexed u.l1ByInstance item.1 } item.1 item.2

/-- The loop of `restore`, and whether it returned without raising. Next to the view is the
placement that is recorded without a size, if the loop came to one: `_adjust` raises on it. -/
def restoreItems : UsageSection → CacheUsageManager →
    (CacheUsageManager × Option PlacementId) × Bool
  | [], u => ((u, none), true)
  | .unreadable :: _, u => ((u, none), false)
  | .unsized id :: _, u => (({ u with l1ByInstance := indexed u.l1ByInstance id }, some id), false)
  | .placement id sizeBytes :: rest, u => restoreItems rest (u.restorePlacement (id, sizeBytes))

def restore (u : CacheUsageManager) (stored : UsageSection) :
    (CacheUsageManager × Option PlacementId) × Bool :=
  if u.placementSizes.size ≠ 0 then ((u, none), false) else restoreItems stored u

/-- A section whose sizes are numbers. -/
abbrev SizedSection := { stored : UsageSection // ∀ id, .unsized id ∉ stored }

/-- The placements before the first item that raises. -/
def UsageSection.placements : UsageSection → List (PlacementId × Nat)
  | .placement id sizeBytes :: rest => (id, sizeBytes) :: placements rest
  | _ => []

def captureSized (u : CacheUsageManager) : SizedSection :=
  ⟨u.capture, fun id hMem => by
    obtain ⟨e, -, hEq⟩ := List.mem_map.mp hMem
    cases hEq⟩

theorem restoreItems_sized {stored : UsageSection} (h : ∀ id, .unsized id ∉ stored)
    (u : CacheUsageManager) :
    (restoreItems stored u).1.1 = stored.placements.foldl restorePlacement u := by
  induction stored generalizing u with
  | nil => rfl
  | cons item rest ih =>
    cases item with
    | unreadable => rfl
    | unsized id => exact absurd List.mem_cons_self (h id)
    | placement id sizeBytes => exact ih (fun id hMem => h id (List.mem_cons_of_mem _ hMem)) _

theorem placements_map (items : List (PlacementId × Nat)) :
    UsageSection.placements (items.map fun e => .placement e.1 e.2) = items := by
  induction items with
  | nil => rfl
  | cons e rest ih => rw [List.map_cons, UsageSection.placements, ih]

variable {u : CacheUsageManager} {id x : PlacementId} {i : String}

@[simp] theorem placementSizes_adjust (u : CacheUsageManager) (id : PlacementId) (delta : Int) :
    (u.adjust id delta).placementSizes = u.placementSizes := by
  unfold adjust
  split <;> rfl

@[simp] theorem l1ByInstance_adjust (u : CacheUsageManager) (id : PlacementId) (delta : Int) :
    (u.adjust id delta).l1ByInstance = u.l1ByInstance := by
  unfold adjust
  split <;> rfl

theorem get?_placementSizes_remove (u : CacheUsageManager) (id x : PlacementId) :
    (u.remove id).placementSizes.get? x = if id = x then none else u.placementSizes.get? x := by
  rw [remove, placementSizes_adjust, get?_erase]

theorem get?_placementSizes_foldl_remove (ids : List PlacementId) (u : CacheUsageManager)
    (x : PlacementId) :
    (ids.foldl remove u).placementSizes.get? x =
      if x ∈ ids then none else u.placementSizes.get? x := by
  induction ids generalizing u with
  | nil => simp
  | cons id rest ih =>
    rw [foldl_cons, ih, get?_placementSizes_remove]
    by_cases hx : id = x
    · simp [hx]
    · simp [hx, Ne.symm hx]

/-- The three rollups are exact, and none was ever clamped. -/
structure Rolled (u : CacheUsageManager) : Prop where
  keys : u.keyBytes.Sums PlacementId.keyGroup u.placementSizes
  salts : u.saltBytes.Sums PlacementId.saltGroup u.placementSizes
  nodes : u.instanceBytes.Sums PlacementId.nodeGroup u.placementSizes
  exact : u.underflows = 0

theorem rolled_new : new.Rolled := ⟨.empty, .empty, .empty, rfl⟩

theorem underflow_eq_zero {κ : Type} [DecidableEq κ] {rollup : Dict κ Int} {k : κ} {delta : Int}
    (h : 0 ≤ (rollup.get? k).getD 0 + delta) : underflow rollup k delta = 0 := by
  rw [underflow, if_neg (by omega)]

theorem Rolled.adjust (h : u.Rolled) {sizes : Dict PlacementId Nat} {delta : Int}
    (hTotal : ∀ {κ : Type} [DecidableEq κ] (group : PlacementId → κ) (k : κ),
      (sizes.total group k : Int) =
        u.placementSizes.total group k + if group id = k then delta else 0)
    (index : Dict String (Dict PlacementId Unit)) :
    (CacheUsageManager.adjust { u with placementSizes := sizes, l1ByInstance := index }
      id delta).Rolled := by
  unfold CacheUsageManager.adjust
  split
  · rename_i hZero
    have hSame : ∀ {κ : Type} [DecidableEq κ] (group : PlacementId → κ) (k : κ),
        sizes.total group k = u.placementSizes.total group k := by
      intro κ _ group k
      have := hTotal group k
      rw [hZero, ite_self] at this
      omega
    refine ⟨fun k => ?_, fun k => ?_, fun k => ?_, h.exact⟩
    · rw [hSame]
      exact h.keys k
    · rw [hSame]
      exact h.salts k
    · rw [hSame]
      exact h.nodes k
  · refine ⟨h.keys.adjust (hTotal _), h.salts.adjust (hTotal _), h.nodes.adjust (hTotal _), ?_⟩
    dsimp only
    rw [h.exact, underflow_eq_zero (h.keys.nonneg (hTotal _)),
      underflow_eq_zero (h.salts.nonneg (hTotal _)), underflow_eq_zero (h.nodes.nonneg (hTotal _))]

theorem Rolled.store (h : u.Rolled) (id : PlacementId) (size : Nat) : (u.store id size).Rolled :=
  h.adjust (fun _ k => total_set u.placementSizes id size k) _

theorem Rolled.remove (h : u.Rolled) (id : PlacementId) : (u.remove id).Rolled :=
  h.adjust (fun _ k => total_erase u.placementSizes id k) _

theorem Rolled.applyEntry (h : u.Rolled) (batch : CacheEventBatch) (entry : CacheEventEntry) :
    (applyEntry batch u entry).Rolled := by
  unfold CacheUsageManager.applyEntry
  split
  · exact h.store _ _
  · exact h.remove _
  · exact h

theorem Rolled.fenceInstance (h : u.Rolled) (i : String) : (u.fenceInstance i).Rolled :=
  List.foldlRecOn _ _ (motive := Rolled) ⟨h.keys, h.salts, h.nodes, h.exact⟩
    fun _ hu id _ => hu.remove id

def owned (index : Dict String (Dict PlacementId Unit)) (i : String) : List PlacementId :=
  ((index.get? i).getD .empty).keys

variable {index : Dict String (Dict PlacementId Unit)}

theorem mem_owned_indexed : x ∈ owned (indexed index id) i ↔
      (x = id ∧ id.tier = .l1 ∧ id.owner = i ∧ i ≠ "") ∨ x ∈ owned index i := by
  unfold owned indexed
  split
  · rename_i hOwned
    by_cases hi : id.owner = i
    · subst hi
      rw [get?_set_self, Option.getD_some, mem_keys_set]
      simp [hOwned.1, hOwned.2]
    · rw [get?_set_ne _ hi]
      simp [hi]
  · rename_i hOther
    constructor
    · exact Or.inr
    · rintro (⟨-, hTier, rfl, hNe⟩ | hOld)
      · exact absurd ⟨hTier, hNe⟩ hOther
      · exact hOld

theorem mem_owned_unindex : x ∈ owned (unindex index id) i ↔
      x ∈ owned index i ∧ ¬ (x = id ∧ id.tier = .l1 ∧ id.owner = i) := by
  unfold owned unindex
  by_cases hTier : id.tier = .l1
  · rw [if_pos hTier]
    by_cases hi : id.owner = i
    · subst hi
      cases hSet : index.get? id.owner with
      | none =>
        rw [hSet]
        have hEmpty : x ∉ (Dict.empty : Dict PlacementId Unit).keys := not_mem_nil
        simp [hEmpty]
      | some ids =>
        dsimp only
        have hErase : x ∈ (ids.erase id).keys ↔ x ∈ ids.keys ∧ ¬ x = id := by
          rw [mem_keys_erase, and_comm]
        split
        · rename_i hEmpty
          have hNone : x ∉ (Dict.empty : Dict PlacementId Unit).keys := not_mem_nil
          rw [List.isEmpty_iff.mp hEmpty] at hErase
          rw [get?_erase_self]
          simpa [hTier, hNone] using hErase
        · rw [get?_set_self]
          simpa [hTier] using hErase
    · cases hSet : index.get? id.owner with
      | none => simp [hi]
      | some ids =>
        dsimp only
        split
        · rw [get?_erase_ne _ hi]
          simp [hi]
        · rw [get?_set_ne _ hi]
          simp [hi]
  · rw [if_neg hTier]
    simp [hTier]

theorem mem_owned_foldl_remove (ids : List PlacementId) (u : CacheUsageManager) :
    x ∈ owned (ids.foldl remove u).l1ByInstance i ↔
      x ∈ owned u.l1ByInstance i ∧ ¬ (x ∈ ids ∧ x.tier = .l1 ∧ x.owner = i) := by
  induction ids generalizing u with
  | nil => simp
  | cons id rest ih =>
    rw [foldl_cons, ih, remove, l1ByInstance_adjust, mem_owned_unindex]
    by_cases hx : x = id
    · subst hx
      simp only [mem_cons, true_or, true_and]
      tauto
    · simp [hx]

def Owned (u : CacheUsageManager) : Prop :=
  ∀ i x, x ∈ owned u.l1ByInstance i ↔
    x.tier = .l1 ∧ x.owner = i ∧ i ≠ "" ∧ x ∈ u.placementSizes.keys

theorem owned_new : new.Owned := by
  intro i x
  constructor <;> rintro ⟨⟩
  rename_i h
  cases h.2.2

theorem Owned.store (h : u.Owned) (id : PlacementId) (size : Nat) : (u.store id size).Owned := by
  intro i x
  unfold CacheUsageManager.store
  rw [l1ByInstance_adjust, placementSizes_adjust, mem_owned_indexed, mem_keys_set, h i x]
  constructor
  · rintro (⟨rfl, hTier, hOwner, hi⟩ | ⟨hTier, hOwner, hi, hMem⟩)
    · exact ⟨hTier, hOwner, hi, Or.inl rfl⟩
    · exact ⟨hTier, hOwner, hi, Or.inr hMem⟩
  · rintro ⟨hTier, hOwner, hi, rfl | hMem⟩
    · exact Or.inl ⟨rfl, hTier, hOwner, hi⟩
    · exact Or.inr ⟨hTier, hOwner, hi, hMem⟩

theorem Owned.remove (h : u.Owned) (id : PlacementId) : (u.remove id).Owned := by
  intro i x
  unfold CacheUsageManager.remove
  rw [l1ByInstance_adjust, placementSizes_adjust, mem_owned_unindex, mem_keys_erase, h i x]
  constructor
  · rintro ⟨⟨hTier, hOwner, hi, hMem⟩, hOther⟩
    refine ⟨hTier, hOwner, hi, fun hx => hOther ?_, hMem⟩
    exact ⟨hx, hx ▸ hTier, hx ▸ hOwner⟩
  · rintro ⟨hTier, hOwner, hi, hNe, hMem⟩
    exact ⟨⟨hTier, hOwner, hi, hMem⟩, fun hx => hNe hx.1⟩

theorem Owned.applyEntry (h : u.Owned) (batch : CacheEventBatch) (entry : CacheEventEntry) :
    (applyEntry batch u entry).Owned := by
  unfold CacheUsageManager.applyEntry
  split
  · exact h.store _ _
  · exact h.remove _
  · exact h

theorem owned_erase (index : Dict String (Dict PlacementId Unit)) (j : String) :
    x ∈ owned (index.erase j) i ↔ j ≠ i ∧ x ∈ owned index i := by
  unfold owned
  rw [get?_erase]
  split
  · rename_i hj
    have hEmpty : x ∉ (Dict.empty : Dict PlacementId Unit).keys := not_mem_nil
    simp [hj, hEmpty]
  · rename_i hj
    simp [hj]

theorem get?_placementSizes_fenceInstance (u : CacheUsageManager) (i : String) (x : PlacementId) :
    (u.fenceInstance i).placementSizes.get? x =
      if x ∈ owned u.l1ByInstance i then none else u.placementSizes.get? x :=
  get?_placementSizes_foldl_remove _ _ x

theorem mem_keys_fenceInstance (u : CacheUsageManager) (i : String) (x : PlacementId) :
    x ∈ (u.fenceInstance i).placementSizes.keys ↔
      x ∉ owned u.l1ByInstance i ∧ x ∈ u.placementSizes.keys := by
  rw [mem_keys_iff, mem_keys_iff, get?_placementSizes_fenceInstance]
  split
  · rename_i hOwned
    simp [hOwned]
  · rename_i hOther
    simp [hOther]

theorem Owned.fenceInstance (h : u.Owned) (i : String) : (u.fenceInstance i).Owned := by
  intro j x
  rw [mem_keys_fenceInstance]
  unfold CacheUsageManager.fenceInstance
  rw [mem_owned_foldl_remove, owned_erase, h j x]
  change (i ≠ j ∧ _) ∧ ¬ (x ∈ owned u.l1ByInstance i ∧ _) ↔ _
  rw [h i x]
  constructor
  · rintro ⟨⟨hij, hTier, hOwner, hj, hMem⟩, -⟩
    exact ⟨hTier, hOwner, hj, fun hx => hij (hx.2.1.symm.trans hOwner), hMem⟩
  · rintro ⟨hTier, hOwner, hj, hOther, hMem⟩
    have hij : i ≠ j := fun hij => hOther ⟨hTier, hij ▸ hOwner, hij ▸ hj, hMem⟩
    exact ⟨⟨hij, hTier, hOwner, hj, hMem⟩, fun hx => hij (hx.1.2.1.symm.trans hOwner)⟩

end CacheUsageManager

end LMCache.Coordinator
