import LMCache.Coordinator.DirectoryInvariant
import LMCache.Coordinator.EventGate
import LMCache.Eviction.Isolation

/-!
# The views of the fleet agree

The directory, the usage view and the eviction controller read the same batches and fences,
each with an index of its own. The usage view holds the placements of the directory, and the
controller tracks every key with bytes in L2 and only keys with a placement in L2.
-/

namespace LMCache.Coordinator

open Lib Serde Eviction KeyDirectory FleetEvictionController List Dict

def Placement.placementId (p : Placement) (key : ObjectKey) : PlacementId :=
  ⟨p.tier, key, if p.shared then "" else p.instanceId, p.backend⟩

def PlacementId.identity (id : PlacementId) : PlacementIdentity :=
  ⟨id.owner = "", id.owner, id.tier, id.backend⟩

theorem Placement.identity_eq_iff {p : Placement} (h : p.instanceId ≠ "") (id : PlacementId) :
    p.identity = id.identity ↔ p.placementId id.key = id := by
  obtain ⟨tier, key, owner, backend⟩ := id
  unfold identity placementId PlacementId.identity
  cases hShared : p.shared
  · simp only [Bool.false_eq_true, if_false, PlacementIdentity.mk.injEq, PlacementId.mk.injEq]
    constructor
    · rintro ⟨-, rfl, rfl, rfl⟩
      exact ⟨rfl, trivial, rfl, rfl⟩
    · rintro ⟨rfl, -, rfl, rfl⟩
      exact ⟨by simp [h], rfl, rfl, rfl⟩
  · simp only [if_true, PlacementIdentity.mk.injEq, PlacementId.mk.injEq]
    constructor
    · rintro ⟨-, rfl, rfl, rfl⟩
      exact ⟨rfl, trivial, rfl, rfl⟩
    · rintro ⟨rfl, -, rfl, rfl⟩
      exact ⟨by simp, rfl, rfl, rfl⟩

theorem CacheEventBatch.identity_eq_iff (batch : CacheEventBatch) (entry : CacheEventEntry)
    (id : PlacementId) :
    (entry.key = id.key ∧ id.identity = batch.identity) ↔ batch.placementId entry = id := by
  rw [← batch.identity_placement entry, eq_comm (a := id.identity),
    Placement.identity_eq_iff batch.instanceId_ne]
  obtain ⟨tier, key, owner, backend⟩ := id
  unfold Placement.placementId CacheEventBatch.placement CacheEventBatch.placementId
  simp only [PlacementId.mk.injEq]
  tauto

theorem CacheEventBatch.ite_placementId {α : Type} (batch : CacheEventBatch)
    (entry : CacheEventEntry) (id : PlacementId) (a b : α) :
    (if entry.key = id.key then if id.identity = batch.identity then a else b else b) =
      if batch.placementId entry = id then a else b := by
  simp only [← batch.identity_eq_iff entry id, ite_and]

def CacheEventBatch.resize (batch : CacheEventBatch) (entry : CacheEventEntry) (id : PlacementId)
    (size : Option Nat) : Option Nat :=
  match batch.eventType with
  | .store => if batch.placementId entry = id then some entry.sizeBytes else size
  | .delete => if batch.placementId entry = id then none else size
  | _ => size

theorem CacheUsageManager.get?_placementSizes_applyEntry (batch : CacheEventBatch)
    (u : CacheUsageManager) (entry : CacheEventEntry) (id : PlacementId) :
    (applyEntry batch u entry).placementSizes.get? id =
      batch.resize entry id (u.placementSizes.get? id) := by
  unfold applyEntry CacheEventBatch.resize
  cases batch.eventType with
  | store => rw [store, placementSizes_adjust, get?_set]
  | delete => exact get?_placementSizes_remove ..
  | access => rfl
  | config => rfl

namespace KeyDirectory

variable {d : KeyDirectory} {batch : CacheEventBatch} {entry : CacheEventEntry} {k : ObjectKey}
  {p : Placement}

def sizeAt (d : KeyDirectory) (id : PlacementId) : Option Nat :=
  ((d.placements id.key).find? fun p => p.identity = id.identity).map (·.sizeBytes)

theorem sizeAt_applyStore (hType : batch.eventType = .store) (id : PlacementId) :
    (applyEntry batch d entry).sizeAt id =
      if batch.placementId entry = id then some entry.sizeBytes else d.sizeAt id := by
  unfold sizeAt
  rw [placements_applyEntry, CacheEventBatch.revise, hType]
  dsimp only
  rw [matchesBatch_eq, ← batch.ite_placementId]
  split
  · rw [find?_upsert (batch.identity_placement entry)]
    split <;> rfl
  · rfl

theorem sizeAt_applyDelete (hType : batch.eventType = .delete)
    (h : ∀ k, ((d.placements k).map Placement.identity).Nodup) (id : PlacementId) :
    (applyEntry batch d entry).sizeAt id =
      if batch.placementId entry = id then none else d.sizeAt id := by
  unfold sizeAt
  rw [placements_applyEntry, CacheEventBatch.revise, hType]
  dsimp only
  rw [matchesBatch_eq, ← batch.ite_placementId]
  split
  · rw [find?_eraseP (h id.key)]
    split <;> rfl
  · rfl

theorem sizeAt_applyEntry (h : ∀ k, ((d.placements k).map Placement.identity).Nodup)
    (batch : CacheEventBatch) (entry : CacheEventEntry) (id : PlacementId) :
    (applyEntry batch d entry).sizeAt id = batch.resize entry id (d.sizeAt id) := by
  unfold CacheEventBatch.resize
  cases hType : batch.eventType with
  | store => exact sizeAt_applyStore hType id
  | delete => exact sizeAt_applyDelete hType h id
  | access | config =>
    rw [sizeAt, placements_applyEntry, CacheEventBatch.revise, hType]
    simp [sizeAt]

/-- Every placement has a reporter, and only L2 placements are shared. -/
def Reported (d : KeyDirectory) : Prop :=
  ∀ k, ∀ p ∈ d.placements k, p.instanceId ≠ "" ∧ (p.tier = .l1 → p.shared = false)

theorem Reported.applyEntry (h : d.Reported) (hShared : batch.shared = true → batch.tier = .l2)
    (entry : CacheEventEntry) : (applyEntry batch d entry).Reported := by
  intro k p hp
  rcases mem_applyEntry_cases hp with hOld | rfl
  · exact h k p hOld
  · refine ⟨batch.instanceId_ne, fun hTier => ?_⟩
    cases hs : batch.shared with
    | false => exact hs
    | true => cases (show batch.tier = .l1 from hTier).symm.trans (hShared hs)

theorem Reported.fenceInstance (h : d.Reported) (hIndexed : d.Indexed) (instanceId : String) :
    (d.fenceInstance instanceId).Reported := by
  intro k p hp
  rw [hIndexed.placements_fenceInstance] at hp
  exact h k p (mem_of_mem_filter hp)

theorem sizeAt_fenceInstance_of_iff (hIndexed : d.Indexed) {instanceId : String} {id : PlacementId}
    {C : Prop} [Decidable C] (hFenced : ∀ p ∈ d.placements id.key, p.identity = id.identity →
      (p.fencedBy instanceId = true ↔ C)) :
    (d.fenceInstance instanceId).sizeAt id = if C then none else d.sizeAt id := by
  unfold sizeAt
  rw [hIndexed.placements_fenceInstance, find?_filter]
  split
  · rename_i hId
    rw [find?_eq_none.mpr]
    · rfl
    · intro p hp hBoth
      simp only [Bool.not_eq_true', decide_eq_true_eq] at hBoth
      rw [(hFenced p hp hBoth.2).mpr hId] at hBoth
      cases hBoth.1
  · rename_i hId
    congr 1
    rw [← head?_filter, ← head?_filter]
    refine congrArg List.head? (filter_congr fun p hp => ?_)
    by_cases hIdentity : p.identity = id.identity
    · have hKept : p.fencedBy instanceId = false := by
        rw [← Bool.not_eq_true, hFenced p hp hIdentity]
        exact hId
      simp [hKept]
    · simp [hIdentity]

theorem sizeAt_fenceInstance (h : d.Reported) (hIndexed : d.Indexed) (instanceId : String)
    (id : PlacementId) :
    (d.fenceInstance instanceId).sizeAt id =
      if id.tier = .l1 ∧ id.owner = instanceId then none else d.sizeAt id := by
  refine sizeAt_fenceInstance_of_iff hIndexed fun p hp hIdentity => ?_
  obtain ⟨hName, hUnshared⟩ := h id.key p hp
  have hId := (Placement.identity_eq_iff hName id).mp hIdentity
  rw [← hId]
  unfold Placement.fencedBy Placement.placementId
  rw [decide_eq_true_iff]
  refine and_congr_right fun hTier => ?_
  rw [hUnshared hTier]
  rfl

end KeyDirectory

theorem consume_both {R : KeyDirectory → CacheUsageManager → Prop} {batch : CacheEventBatch}
    (hEntry : ∀ d u entry, R d u →
      R (KeyDirectory.applyEntry batch d entry) (CacheUsageManager.applyEntry batch u entry))
    {d : KeyDirectory} {u : CacheUsageManager}
    (h : R (d.setL1Keys batch.instanceId (d.l1Keys batch.instanceId)) u) :
    R (d.consume batch) (u.consume batch) := by
  unfold KeyDirectory.consume CacheUsageManager.consume
  generalize d.setL1Keys batch.instanceId (d.l1Keys batch.instanceId) = d at h
  induction batch.entries generalizing d u with
  | nil => exact h
  | cons entry rest ih => exact ih _ (hEntry d u entry h)

structure Mirrored (d : KeyDirectory) (u : CacheUsageManager) : Prop where
  distinct : ∀ k, ((d.placements k).map Placement.identity).Nodup
  indexed : d.Indexed
  reported : d.Reported
  sizes : ∀ id, u.placementSizes.get? id = d.sizeAt id
  rolled : u.Rolled
  owned : u.Owned

namespace Mirrored

variable {d : KeyDirectory} {u : CacheUsageManager} {batch : CacheEventBatch}

theorem applyEntry (h : Mirrored d u) (hShared : batch.shared = true → batch.tier = .l2)
    (entry : CacheEventEntry) :
    Mirrored (KeyDirectory.applyEntry batch d entry)
      (CacheUsageManager.applyEntry batch u entry) where
  distinct := distinct_applyEntry h.distinct batch entry
  indexed := h.indexed.applyEntry batch entry
  reported := h.reported.applyEntry hShared entry
  sizes := by
    intro id
    rw [sizeAt_applyEntry h.distinct, ← h.sizes]
    exact CacheUsageManager.get?_placementSizes_applyEntry batch u entry id
  rolled := h.rolled.applyEntry batch entry
  owned := h.owned.applyEntry batch entry

theorem consume (h : Mirrored d u) (hShared : batch.shared = true → batch.tier = .l2) :
    Mirrored (d.consume batch) (u.consume batch) := by
  refine consume_both (fun d u entry hu => hu.applyEntry hShared entry) ?_
  exact ⟨h.distinct, h.indexed.setDefault _, h.reported, h.sizes, h.rolled, h.owned⟩

theorem sizes_iff (h : Mirrored d u) {id : PlacementId} {size : Nat} :
    u.placementSizes.get? id = some size ↔
      ∃ p ∈ d.placements id.key, p.placementId id.key = id ∧ p.sizeBytes = size := by
  rw [h.sizes, KeyDirectory.sizeAt, Option.map_eq_some_iff]
  constructor
  · rintro ⟨p, hFind, hSize⟩
    obtain ⟨hp, hIdentity⟩ := (find?_eq_some_iff_mem (h.distinct id.key)).mp hFind
    exact ⟨p, hp, (Placement.identity_eq_iff (h.reported _ p hp).1 id).mp hIdentity, hSize⟩
  · rintro ⟨p, hp, hId, hSize⟩
    have hIdentity := (Placement.identity_eq_iff (h.reported _ p hp).1 id).mpr hId
    exact ⟨p, (find?_eq_some_iff_mem (h.distinct id.key)).mpr ⟨hp, hIdentity⟩, hSize⟩

theorem owner_ne (h : Mirrored d u) {id : PlacementId} (hTier : id.tier = .l1)
    (hPlaced : id ∈ u.placementSizes.keys) : id.owner ≠ "" := by
  obtain ⟨size, hSize⟩ := mem_keys_iff.mp hPlaced
  obtain ⟨p, hp, hId, -⟩ := h.sizes_iff.mp hSize
  obtain ⟨hName, hUnshared⟩ := h.reported _ p hp
  rw [← hId] at hTier ⊢
  unfold Placement.placementId at hTier ⊢
  rw [hUnshared hTier]
  exact hName

theorem fenceInstance (h : Mirrored d u) (instanceId : String) :
    Mirrored (d.fenceInstance instanceId) (u.fenceInstance instanceId) where
  distinct := by
    intro k
    rw [h.indexed.placements_fenceInstance]
    exact (h.distinct k).sublist (filter_sublist.map _)
  indexed := h.indexed.fenceInstance instanceId
  reported := h.reported.fenceInstance h.indexed instanceId
  sizes := by
    intro id
    rw [CacheUsageManager.get?_placementSizes_fenceInstance,
      sizeAt_fenceInstance h.reported h.indexed, ← h.sizes]
    by_cases hPlaced : id ∈ u.placementSizes.keys
    · refine if_congr ?_ rfl rfl
      rw [h.owned]
      constructor
      · exact fun hId => ⟨hId.1, hId.2.1⟩
      · exact fun hId => ⟨hId.1, hId.2, hId.2 ▸ h.owner_ne hId.1 hPlaced, hPlaced⟩
    · rw [get?_eq_none_iff.mpr hPlaced, ite_self, ite_self]
  rolled := h.rolled.fenceInstance instanceId
  owned := h.owned.fenceInstance instanceId

theorem keyBytes_pos_iff (h : Mirrored d u) (tier : Tier) (k : ObjectKey) :
    0 < u.getKeyBytes tier k ↔ ∃ p ∈ d.placements k, p.tier = tier ∧ 0 < p.sizeBytes := by
  unfold CacheUsageManager.getKeyBytes
  rw [h.rolled.keys.getD, Int.natCast_pos]
  constructor
  · intro hPos
    obtain ⟨⟨id, size⟩, hMem, hGroup, hSize⟩ := exists_of_groupSum_pos hPos
    obtain ⟨p, hp, hId, rfl⟩ := h.sizes_iff.mp (get?_eq_some_iff.mpr hMem)
    obtain ⟨hTier, rfl⟩ := Prod.mk.inj hGroup
    exact ⟨p, hp, hTier ▸ congrArg PlacementId.tier hId, hSize⟩
  · rintro ⟨p, hp, rfl, hSize⟩
    have hGet : u.placementSizes.get? (p.placementId k) = some p.sizeBytes :=
      h.sizes_iff.mpr ⟨p, hp, rfl, rfl⟩
    exact Nat.lt_of_lt_of_le hSize (le_groupSum (get?_eq_some_iff.mp hGet))

theorem keyBytes_eq_zero_iff (h : Mirrored d u) (tier : Tier) (k : ObjectKey) :
    u.getKeyBytes tier k = 0 ↔ ¬ ∃ p ∈ d.placements k, p.tier = tier ∧ 0 < p.sizeBytes := by
  rw [← h.keyBytes_pos_iff]
  unfold CacheUsageManager.getKeyBytes
  rw [h.rolled.keys.getD]
  omega

end Mirrored

namespace KeyDirectory

variable {d : KeyDirectory} {batch : CacheEventBatch} {k : ObjectKey} {p : Placement}

theorem placements_consume_of_not_mem (h : ¬ ∃ e ∈ batch.entries, e.key = k) :
    (d.consume batch).placements k = d.placements k := by
  rw [placements_consume, filter_eq_nil_iff.mpr]
  · rfl
  · exact fun e he hKey => h ⟨e, he, by simpa using hKey⟩

theorem mem_placements_consume_of_tier (h : p.tier ≠ batch.tier) :
    p ∈ (d.consume batch).placements k ↔ p ∈ d.placements k := by
  have hOther : p.matchesBatch batch = false := by
    rw [← Bool.not_eq_true, p.matchesBatch_iff]
    exact fun hIdentity => h (congrArg PlacementIdentity.tier hIdentity)
  have hRevise : ∀ entry ps, p ∈ batch.revise entry ps ↔ p ∈ ps := by
    intro entry ps
    unfold CacheEventBatch.revise
    split
    · constructor
      · intro hp
        rcases mem_of_mem_upsert hp with rfl | hOld
        · exact absurd rfl h
        · exact hOld
      · exact fun hp => mem_upsert_of_mem hp hOther
    · exact mem_eraseP_of_neg (by simpa using hOther)
    · rfl
  rw [placements_consume]
  refine List.foldlRecOn (motive := fun ps => p ∈ ps ↔ p ∈ d.placements k) _ _ Iff.rfl ?_
  exact fun ps hps entry _ => (hRevise entry ps).trans hps

theorem exists_placement_of_store (hType : batch.eventType = .store)
    (h : ∃ e ∈ batch.entries, e.key = k) :
    ∃ p ∈ (d.consume batch).placements k, p.tier = batch.tier := by
  obtain ⟨e, he, hKey⟩ := h
  rw [placements_consume]
  have hMem : e ∈ batch.entries.filter fun e => e.key = k :=
    mem_filter.mpr ⟨he, by simpa using hKey⟩
  rcases eq_nil_or_concat (batch.entries.filter fun e => e.key = k) with hNil | ⟨l, last, hl⟩
  · rw [hNil] at hMem
    cases hMem
  · rw [hl, concat_eq_append, foldl_append, foldl_cons, foldl_nil, CacheEventBatch.revise, hType]
    exact ⟨_, mem_upsert_self _ _ _, rfl⟩

theorem mem_of_mem_consume_delete (hType : batch.eventType = .delete)
    (h : p ∈ (d.consume batch).placements k) : p ∈ d.placements k := by
  rw [placements_consume] at h
  refine List.foldlRecOn (motive := fun ps => p ∈ ps → p ∈ d.placements k) _ _ id ?_ h
  intro ps hps e _ hp
  rw [CacheEventBatch.revise, hType] at hp
  exact hps (mem_of_mem_eraseP hp)

theorem placements_consume_access (hType : batch.eventType = .access) :
    (d.consume batch).placements k = d.placements k := by
  rw [placements_consume]
  refine List.foldlRecOn (motive := fun ps => ps = d.placements k) _ _ rfl ?_
  intro ps hps e _
  rw [CacheEventBatch.revise, hType]
  exact hps

end KeyDirectory

namespace FleetEvictionController

variable {c : FleetEvictionController} {usage : CacheUsageManager} {batch : CacheEventBatch}
  {k : ObjectKey}

theorem tracks_consume (hTier : batch.tier = .l2) :
    (c.consume usage batch).policy.Tracks k ↔
      match batch.eventType with
      | .store => c.policy.Tracks k ∨ ∃ e ∈ batch.entries, e.key = k
      | .delete =>
        c.policy.Tracks k ∧ ¬ ((∃ e ∈ batch.entries, e.key = k) ∧ usage.getKeyBytes .l2 k = 0)
      | _ => c.policy.Tracks k := by
  unfold consume
  rw [if_neg (by simpa using hTier)]
  dsimp only
  generalize c.policy = policy
  generalize batch.entries = entries
  induction entries generalizing policy with
  | nil => cases batch.eventType <;> simp
  | cons entry rest ih =>
    rw [foldl_cons, ih]
    unfold applyEntry
    cases batch.eventType with
    | store =>
      change (policy.createKey entry.key).Tracks k ∨ _ ↔ _
      rw [IsolatedLRUEvictionPolicy.tracks_createKey]
      simp only [mem_cons, exists_eq_or_imp, eq_comm (a := k)]
      tauto
    | access => exact IsolatedLRUEvictionPolicy.tracks_touchKey
    | config => rfl
    | delete =>
      dsimp only
      simp only [mem_cons, exists_eq_or_imp]
      split
      · rename_i hZero
        change (policy.removeKey entry.key).Tracks k ∧ _ ↔ _
        rw [IsolatedLRUEvictionPolicy.tracks_removeKey]
        by_cases hk : entry.key = k
        · simp [← hk, hZero]
        · simp [hk, Ne.symm hk]
      · rename_i hBytes
        by_cases hk : entry.key = k
        · simp [← hk, hBytes]
        · simp [hk]

theorem consume_of_tier (hTier : batch.tier ≠ .l2) : c.consume usage batch = c := by
  rw [consume, if_pos hTier]

theorem homed_consume (h : c.policy.Homed) : (c.consume usage batch).policy.Homed := by
  unfold consume
  split
  · exact h
  · refine List.foldlRecOn _ _ (motive := IsolatedLRUEvictionPolicy.Homed) h fun p hp entry _ => ?_
    unfold applyEntry
    split
    · exact hp.createKey entry.key
    · exact hp.touchKey entry.key
    · split
      · exact hp.removeKey entry.key
      · exact hp
    · exact hp

end FleetEvictionController

structure Consumers.Agree (c : Consumers) : Prop where
  mirrored : Mirrored c.directory c.usage
  homed : c.eviction.policy.Homed
  tracked : ∀ k, (∃ p ∈ c.directory.placements k, p.tier = .l2 ∧ 0 < p.sizeBytes) →
    c.eviction.policy.Tracks k
  placed : ∀ k, c.eviction.policy.Tracks k → ∃ p ∈ c.directory.placements k, p.tier = .l2

namespace Consumers

variable {c : Consumers} {batch : CacheEventBatch}

theorem Agree.consume (h : c.Agree) (hShared : batch.shared = true → batch.tier = .l2) :
    (c.consume batch).Agree := by
  have hMirrored := h.mirrored.consume hShared
  refine ⟨hMirrored, homed_consume h.homed, ?_, ?_⟩
  · rintro k ⟨p, hp, hTier, hSize⟩
    change (c.eviction.consume (c.usage.consume batch) batch).policy.Tracks k
    by_cases hBatch : batch.tier = .l2
    · rw [tracks_consume hBatch]
      cases hType : batch.eventType with
      | store =>
        by_cases hKey : ∃ e ∈ batch.entries, e.key = k
        · exact Or.inr hKey
        · refine Or.inl (h.tracked k ⟨p, ?_, hTier, hSize⟩)
          exact placements_consume_of_not_mem hKey ▸ hp
      | delete =>
        refine ⟨h.tracked k ⟨p, mem_of_mem_consume_delete hType hp, hTier, hSize⟩, ?_⟩
        rintro ⟨-, hZero⟩
        exact (hMirrored.keyBytes_eq_zero_iff .l2 k).mp hZero ⟨p, hp, hTier, hSize⟩
      | access =>
        refine h.tracked k ⟨p, ?_, hTier, hSize⟩
        exact placements_consume_access hType ▸ hp
      | config =>
        refine h.tracked k ⟨p, ?_, hTier, hSize⟩
        have hKey : ¬ ∃ e ∈ batch.entries, e.key = k := by simp [batch.config_empty hType]
        exact placements_consume_of_not_mem hKey ▸ hp
    · rw [consume_of_tier hBatch]
      refine h.tracked k ⟨p, ?_, hTier, hSize⟩
      exact (mem_placements_consume_of_tier fun hEq => hBatch (hEq ▸ hTier)).mp hp
  · intro k hTracks
    change (c.eviction.consume (c.usage.consume batch) batch).policy.Tracks k at hTracks
    by_cases hBatch : batch.tier = .l2
    · rw [tracks_consume hBatch] at hTracks
      by_cases hKey : ∃ e ∈ batch.entries, e.key = k
      · cases hType : batch.eventType with
        | store =>
          rw [← hBatch]
          exact exists_placement_of_store hType hKey
        | delete =>
          rw [hType] at hTracks
          have hBytes : ¬ (c.usage.consume batch).getKeyBytes .l2 k = 0 :=
            fun hZero => hTracks.2 ⟨hKey, hZero⟩
          rw [hMirrored.keyBytes_eq_zero_iff, not_not] at hBytes
          obtain ⟨p, hp, hTier, -⟩ := hBytes
          exact ⟨p, hp, hTier⟩
        | access =>
          rw [hType] at hTracks
          change ∃ p ∈ (c.directory.consume batch).placements k, p.tier = .l2
          rw [placements_consume_access hType]
          exact h.placed k hTracks
        | config =>
          rw [batch.config_empty hType] at hKey
          simp at hKey
      · change ∃ p ∈ (c.directory.consume batch).placements k, p.tier = .l2
        rw [placements_consume_of_not_mem hKey]
        refine h.placed k ?_
        cases hType : batch.eventType with
        | store =>
          rw [hType] at hTracks
          exact hTracks.resolve_right hKey
        | delete =>
          rw [hType] at hTracks
          exact hTracks.1
        | access | config =>
          rw [hType] at hTracks
          exact hTracks
    · rw [consume_of_tier hBatch] at hTracks
      obtain ⟨p, hp, hTier⟩ := h.placed k hTracks
      refine ⟨p, ?_, hTier⟩
      exact (mem_placements_consume_of_tier fun hEq => hBatch (hEq ▸ hTier)).mpr hp

theorem Agree.fenceInstance (h : c.Agree) (instanceId : String) :
    (c.fenceInstance instanceId).Agree := by
  have hKept : ∀ k p, p.tier = .l2 →
      (p ∈ (c.directory.fenceInstance instanceId).placements k ↔ p ∈ c.directory.placements k) := by
    intro k p hTier
    rw [h.mirrored.indexed.placements_fenceInstance, mem_filter]
    simp [Placement.fencedBy, hTier]
  refine ⟨h.mirrored.fenceInstance instanceId, h.homed, ?_, ?_⟩
  · rintro k ⟨p, hp, hTier, hSize⟩
    exact h.tracked k ⟨p, (hKept k p hTier).mp hp, hTier, hSize⟩
  · intro k hTracks
    obtain ⟨p, hp, hTier⟩ := h.placed k hTracks
    exact ⟨p, (hKept k p hTier).mpr hp, hTier⟩

/-- What the gate sends to the consumers. -/
inductive Broadcast
  | batch (batch : CacheEventBatch)
  | fence (instanceId : String)

def receive (c : Consumers) : Broadcast → Consumers
  | .batch batch => c.consume batch
  | .fence instanceId => c.fenceInstance instanceId

theorem agree_new (evictionRatio triggerWatermark : ℚ) :
    (new evictionRatio triggerWatermark).Agree where
  mirrored :=
    ⟨fun _ => nodup_nil, nofun, nofun, fun _ => rfl, CacheUsageManager.rolled_new,
      CacheUsageManager.owned_new⟩
  homed := nofun
  tracked := by
    rintro k ⟨p, hp, -⟩
    cases hp
  placed := nofun

theorem Agree.receive (h : c.Agree) {broadcast : Broadcast}
    (hShared : ∀ batch, broadcast = .batch batch → batch.shared = true → batch.tier = .l2) :
    (c.receive broadcast).Agree := by
  cases broadcast with
  | batch batch => exact h.consume (hShared batch rfl)
  | fence instanceId => exact h.fenceInstance instanceId

/-- The views after any history of batches and fences: the usage view holds the placements of
the directory with their sizes and exact sums, and the tracked keys are between those with
bytes in L2 and those with a placement in L2. -/
theorem views_agree (evictionRatio triggerWatermark : ℚ) (history : List Broadcast)
    (hShared : ∀ batch, .batch batch ∈ history → batch.shared = true → batch.tier = .l2) :
    let c := history.foldl Consumers.receive (new evictionRatio triggerWatermark)
    (∀ key, ((c.directory.placements key).map fun p => p.placementId key).Nodup) ∧
    (∀ id size, c.usage.placementSizes.get? id = some size ↔
      ∃ p ∈ c.directory.placements id.key, p.placementId id.key = id ∧ p.sizeBytes = size) ∧
    c.usage.keyBytes.Sums PlacementId.keyGroup c.usage.placementSizes ∧
    c.usage.saltBytes.Sums PlacementId.saltGroup c.usage.placementSizes ∧
    c.usage.instanceBytes.Sums PlacementId.nodeGroup c.usage.placementSizes ∧
    c.usage.underflows = 0 ∧
    (∀ key, 0 < c.usage.getKeyBytes .l2 key →
      key ∈ (c.eviction.policy.order key.cacheSalt).keys) ∧
    ∀ cacheSalt, ∀ key ∈ (c.eviction.policy.order cacheSalt).keys,
      ∃ p ∈ c.directory.placements key, p.tier = .l2 := by
  intro c
  have hAgree : c.Agree := by
    refine List.foldlRecOn _ _ (motive := Agree) (agree_new _ _) fun c hc broadcast hMem => ?_
    exact hc.receive fun batch hBatch => hShared batch (hBatch ▸ hMem)
  have hMirrored := hAgree.mirrored
  refine ⟨fun key => ?_, fun id size => hMirrored.sizes_iff, hMirrored.rolled.keys,
    hMirrored.rolled.salts, hMirrored.rolled.nodes, hMirrored.rolled.exact, fun key hPos => ?_,
    fun cacheSalt key hKey => ?_⟩
  · -- among placements with a reporter, the two identities are the same
    refine (List.pairwise_map.mp (hMirrored.distinct key)).imp_of_mem ?_ |> List.pairwise_map.mpr
    intro p q hp hq hNe hId
    refine hNe ?_
    have hp :=
      (Placement.identity_eq_iff (hMirrored.reported key p hp).1 (p.placementId key)).mpr rfl
    have hq := (Placement.identity_eq_iff (hMirrored.reported key q hq).1 (p.placementId key)).mpr
      hId.symm
    exact hp.trans hq.symm
  · exact hAgree.tracked key ((hMirrored.keyBytes_pos_iff .l2 key).mp hPos)
  · refine hAgree.placed key ?_
    have hSalt := hAgree.homed cacheSalt key hKey
    subst hSalt
    exact hKey

/-- A key of one instance in both tiers, after the instance was fenced. -/
theorem views_agree_sample :
    let c := [Broadcast.batch (Sample.stored "a" Sample.name_ne .l1),
      .batch (Sample.stored "a" Sample.name_ne .l2), .fence "a"].foldl Consumers.receive (new 1 1)
    c.usage.placementSizes.entries = [(⟨.l2, Sample.key, "a", "dram"⟩, 4)] ∧
      c.usage.getKeyBytes .l2 Sample.key = 4 ∧
      Sample.key ∈ (c.eviction.policy.order Sample.key.cacheSalt).keys := by
  intro c
  have hAgree := views_agree 1 1 [Broadcast.batch (Sample.stored "a" Sample.name_ne .l1),
    .batch (Sample.stored "a" Sample.name_ne .l2), .fence "a"] (by
      intro batch hMem hShared
      rcases List.mem_cons.mp hMem with hBatch | hMem
      · cases hBatch
        cases hShared
      · rcases List.mem_cons.mp hMem with hBatch | hMem
        · cases hBatch
          cases hShared
        · simp at hMem)
  refine ⟨by decide +kernel, by decide +kernel, hAgree.2.2.2.2.2.2.1 Sample.key ?_⟩
  decide +kernel

end Consumers

end LMCache.Coordinator
