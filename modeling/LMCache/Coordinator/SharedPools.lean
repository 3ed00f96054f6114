import LMCache.Coordinator.FleetViews

/-!
# Shared pools under fences

The directory keeps the last reporter of a shared placement, the usage view keeps no owner for
it. A fence takes the L1 placements of an instance out of both, so a shared L1 placement goes
from the directory alone, and only if the fenced instance reported it last.
-/

namespace LMCache.Coordinator

open Lib Serde List

variable {d : KeyDirectory} {u : CacheUsageManager} {id : PlacementId} {i : String}
  {batch : CacheEventBatch}

namespace KeyDirectory

def Holds (d : KeyDirectory) (id : PlacementId) : Prop :=
  ∃ p ∈ d.placements id.key, p.placementId id.key = id

def FenceDrops (d : KeyDirectory) (i : String) (id : PlacementId) : Prop :=
  d.Holds id ∧ ¬ (d.fenceInstance i).Holds id

/-- The placement is an L1 placement of the instance, outside any shared pool. -/
def OwnL1 (d : KeyDirectory) (i : String) (id : PlacementId) : Prop :=
  ∃ p ∈ d.placements id.key,
    p.placementId id.key = id ∧ p.tier = .l1 ∧ p.shared = false ∧ p.instanceId = i

def LastInPool (d : KeyDirectory) (i : String) : Prop :=
  ∃ k, ∃ p ∈ d.placements k, p.tier = .l1 ∧ p.shared = true ∧ p.instanceId = i

end KeyDirectory

def CacheUsageManager.FenceDrops (u : CacheUsageManager) (i : String) (id : PlacementId) : Prop :=
  id ∈ u.placementSizes.keys ∧ id ∉ (u.fenceInstance i).placementSizes.keys

/-- Shared placements are left out: a fence may remove them from one view only. -/
structure Aligned (d : KeyDirectory) (u : CacheUsageManager) : Prop where
  distinct : ∀ k, ((d.placements k).map Placement.identity).Nodup
  indexed : d.Indexed
  named : ∀ k, ∀ p ∈ d.placements k, p.instanceId ≠ ""
  sizes : ∀ id : PlacementId, id.owner ≠ "" → u.placementSizes.get? id = d.sizeAt id
  owned : u.Owned

theorem unshared_of_owner_ne {p : Placement} {k : ObjectKey} (hId : p.placementId k = id)
    (hOwner : id.owner ≠ "") : p.shared = false ∧ p.instanceId = id.owner := by
  subst hId
  unfold Placement.placementId at hOwner ⊢
  cases hShared : p.shared with
  | false => simp
  | true =>
    rw [hShared] at hOwner
    exact absurd rfl hOwner

namespace Aligned

theorem new : Aligned .new .new where
  distinct _ := nodup_nil
  indexed := by
    rintro k p hp
    cases hp
  named := by
    rintro k p hp
    cases hp
  sizes _ _ := rfl
  owned := CacheUsageManager.owned_new

theorem applyEntry (h : Aligned d u) (batch : CacheEventBatch) (entry : CacheEventEntry) :
    Aligned (KeyDirectory.applyEntry batch d entry)
      (CacheUsageManager.applyEntry batch u entry) where
  distinct := KeyDirectory.distinct_applyEntry h.distinct batch entry
  indexed := h.indexed.applyEntry batch entry
  named := by
    intro k p hp
    rcases KeyDirectory.mem_applyEntry_cases hp with hOld | rfl
    · exact h.named k p hOld
    · exact batch.instanceId_ne
  sizes := by
    intro id hOwner
    rw [KeyDirectory.sizeAt_applyEntry h.distinct, ← h.sizes id hOwner]
    exact CacheUsageManager.get?_placementSizes_applyEntry batch u entry id
  owned := h.owned.applyEntry batch entry

theorem consume (h : Aligned d u) (batch : CacheEventBatch) :
    Aligned (d.consume batch) (u.consume batch) := by
  have hFold : ∀ (entries : List CacheEventEntry) (d : KeyDirectory) (u : CacheUsageManager),
      Aligned d u → Aligned (entries.foldl (KeyDirectory.applyEntry batch) d)
        (entries.foldl (CacheUsageManager.applyEntry batch) u) := by
    intro entries
    induction entries with
    | nil => exact fun d u h => h
    | cons entry rest ih => exact fun d u h => ih _ _ (h.applyEntry batch entry)
  exact hFold batch.entries _ u ⟨h.distinct, h.indexed.setDefault _, h.named, h.sizes, h.owned⟩

theorem fenceInstance (h : Aligned d u) (i : String) :
    Aligned (d.fenceInstance i) (u.fenceInstance i) where
  distinct := by
    intro k
    rw [h.indexed.placements_fenceInstance]
    exact (h.distinct k).sublist (filter_sublist.map _)
  indexed := h.indexed.fenceInstance i
  named := by
    intro k p hp
    rw [h.indexed.placements_fenceInstance] at hp
    exact h.named k p (mem_of_mem_filter hp)
  sizes := by
    intro id hOwner
    rw [CacheUsageManager.get?_placementSizes_fenceInstance,
      KeyDirectory.sizeAt_fenceInstance_of_iff (C := id.tier = .l1 ∧ id.owner = i) h.indexed,
      ← h.sizes id hOwner]
    · by_cases hPlaced : id ∈ u.placementSizes.keys
      · refine if_congr ?_ rfl rfl
        rw [h.owned]
        constructor
        · exact fun hId => ⟨hId.1, hId.2.1⟩
        · exact fun hId => ⟨hId.1, hId.2, hId.2 ▸ hOwner, hPlaced⟩
      · rw [Dict.get?_eq_none_iff.mpr hPlaced, ite_self, ite_self]
    · intro p hp hIdentity
      have hId := (Placement.identity_eq_iff (h.named _ p hp) id).mp hIdentity
      unfold Placement.fencedBy
      rw [decide_eq_true_iff, (unshared_of_owner_ne hId hOwner).2, ← hId]
      rfl
  owned := h.owned.fenceInstance i

theorem receive {c : Consumers} (h : Aligned c.directory c.usage)
    (broadcast : Consumers.Broadcast) :
    Aligned (c.receive broadcast).directory (c.receive broadcast).usage := by
  cases broadcast with
  | batch batch => exact h.consume batch
  | fence instanceId => exact h.fenceInstance instanceId

theorem mem_keys_iff (h : Aligned d u) (hOwner : id.owner ≠ "") :
    id ∈ u.placementSizes.keys ↔ d.Holds id := by
  rw [Dict.mem_keys_iff, h.sizes id hOwner]
  unfold KeyDirectory.sizeAt KeyDirectory.Holds
  constructor
  · rintro ⟨size, hSize⟩
    obtain ⟨p, hFind, -⟩ := Option.map_eq_some_iff.mp hSize
    obtain ⟨hp, hIdentity⟩ := (find?_eq_some_iff_mem (h.distinct id.key)).mp hFind
    exact ⟨p, hp, (Placement.identity_eq_iff (h.named _ p hp) id).mp hIdentity⟩
  · rintro ⟨p, hp, hId⟩
    have hIdentity := (Placement.identity_eq_iff (h.named _ p hp) id).mpr hId
    refine ⟨p.sizeBytes, Option.map_eq_some_iff.mpr ⟨p, ?_, rfl⟩⟩
    exact (find?_eq_some_iff_mem (h.distinct id.key)).mpr ⟨hp, hIdentity⟩

theorem usage_fenceDrops_iff (h : Aligned d u) : u.FenceDrops i id ↔ d.OwnL1 i id := by
  unfold CacheUsageManager.FenceDrops
  rw [CacheUsageManager.mem_keys_fenceInstance]
  constructor
  · rintro ⟨hPlaced, hGone⟩
    have hOwned : id ∈ CacheUsageManager.owned u.l1ByInstance i := by
      by_contra hOther
      exact hGone ⟨hOther, hPlaced⟩
    obtain ⟨hTier, hOwner, hi, -⟩ := (h.owned i id).mp hOwned
    have hNe : id.owner ≠ "" := hOwner ▸ hi
    obtain ⟨p, hp, hId⟩ := (h.mem_keys_iff hNe).mp hPlaced
    obtain ⟨hShared, hInstance⟩ := unshared_of_owner_ne hId hNe
    exact ⟨p, hp, hId, (congrArg PlacementId.tier hId).trans hTier, hShared, hInstance.trans hOwner⟩
  · rintro ⟨p, hp, hId, hTier, hShared, rfl⟩
    have hOwner : id.owner = p.instanceId := by
      rw [← hId, Placement.placementId, hShared]
      rfl
    have hNe : p.instanceId ≠ "" := h.named _ p hp
    have hPlaced := (h.mem_keys_iff (hOwner ▸ hNe)).mpr ⟨p, hp, hId⟩
    refine ⟨hPlaced, fun hKept => hKept.1 ?_⟩
    exact (h.owned _ id).mpr ⟨(congrArg PlacementId.tier hId).symm.trans hTier, hOwner,
      hNe, hPlaced⟩

theorem directory_fenceDrops_iff (h : Aligned d u) :
    d.FenceDrops i id ↔
      ∃ p ∈ d.placements id.key, p.placementId id.key = id ∧ p.tier = .l1 ∧ p.instanceId = i := by
  unfold KeyDirectory.FenceDrops KeyDirectory.Holds
  rw [h.indexed.placements_fenceInstance]
  constructor
  · rintro ⟨⟨p, hp, hId⟩, hGone⟩
    have hFenced : p.fencedBy i = true := by
      by_contra hKept
      exact hGone ⟨p, mem_filter.mpr ⟨hp, by simpa using hKept⟩, hId⟩
    obtain ⟨hTier, hInstance⟩ := of_decide_eq_true hFenced
    exact ⟨p, hp, hId, hTier, hInstance⟩
  · rintro ⟨p, hp, hId, hTier, hInstance⟩
    refine ⟨⟨p, hp, hId⟩, ?_⟩
    rintro ⟨q, hqKept, hqId⟩
    obtain ⟨hq, hKept⟩ := mem_filter.mp hqKept
    have hpIdentity := (Placement.identity_eq_iff (h.named _ p hp) id).mpr hId
    have hqIdentity := (Placement.identity_eq_iff (h.named _ q hq) id).mpr hqId
    -- the identity has one placement only
    obtain rfl := inj_on_of_nodup_map (h.distinct id.key) hp hq (hpIdentity.trans hqIdentity.symm)
    simp [Placement.fencedBy, hTier, hInstance] at hKept

theorem fenceDrops_same_iff (h : Aligned d u) :
    (∀ id, (d.FenceDrops i id ↔ d.OwnL1 i id) ∧ (u.FenceDrops i id ↔ d.OwnL1 i id)) ↔
      ¬ d.LastInPool i := by
  constructor
  · rintro hSame ⟨k, p, hp, hTier, hShared, hInstance⟩
    have hDropped : d.FenceDrops i (p.placementId k) :=
      h.directory_fenceDrops_iff.mpr ⟨p, hp, rfl, hTier, hInstance⟩
    obtain ⟨q, -, hId, -, hUnshared, hOwner⟩ := (hSame _).1.mp hDropped
    have hNamed : q.instanceId ≠ "" := by
      rw [hOwner, ← hInstance]
      exact h.named k p hp
    refine hNamed ?_
    simpa [Placement.placementId, hShared, hUnshared] using congrArg PlacementId.owner hId
  · intro hNone id
    refine ⟨?_, h.usage_fenceDrops_iff⟩
    rw [h.directory_fenceDrops_iff]
    constructor
    · rintro ⟨p, hp, hId, hTier, hInstance⟩
      refine ⟨p, hp, hId, hTier, ?_, hInstance⟩
      rw [← Bool.not_eq_true]
      exact fun hShared => hNone ⟨id.key, p, hp, hTier, hShared, hInstance⟩
    · rintro ⟨p, hp, hId, hTier, -, hInstance⟩
      exact ⟨p, hp, hId, hTier, hInstance⟩

end Aligned

namespace Consumers

/-- A fence removes the same placements from both views, the unshared L1 placements of the
instance, exactly if the instance is not the last reporter of a shared L1 placement. -/
theorem fence_removes_same_iff (evictionRatio triggerWatermark : ℚ) (history : List Broadcast)
    (i : String) :
    let c := history.foldl receive (new evictionRatio triggerWatermark)
    (∀ id, (c.directory.FenceDrops i id ↔ c.directory.OwnL1 i id) ∧
      (c.usage.FenceDrops i id ↔ c.directory.OwnL1 i id)) ↔
    ¬ c.directory.LastInPool i := by
  intro c
  have hAligned : Aligned c.directory c.usage := by
    refine List.foldlRecOn _ _ (motive := fun c : Consumers => Aligned c.directory c.usage) .new ?_
    exact fun c hc broadcast _ => hc.receive broadcast
  exact hAligned.fenceDrops_same_iff

end Consumers

namespace Sample

def pooled (instanceId : String) (h : instanceId ≠ "") : CacheEventBatch :=
  { stored instanceId h .l1 with shared := true }

end Sample

namespace Consumers

/-- Two instances report a placement of their pool, and the one that reported last restarts. -/
theorem pool_fenced_by_last_reporter :
    ¬ ∀ (history : List Broadcast) (i : String) (id : PlacementId),
      let c := history.foldl receive (new 1 1)
      (c.directory.FenceDrops i id ↔ c.directory.OwnL1 i id) ∧
        (c.usage.FenceDrops i id ↔ c.directory.OwnL1 i id) := by
  intro hSame
  let history : List Broadcast := [.batch (Sample.pooled "b" Sample.other_name_ne),
    .batch (Sample.pooled "a" Sample.name_ne)]
  let c := history.foldl receive (new 1 1)
  have hLast : c.directory.LastInPool "a" :=
    ⟨Sample.key, (Sample.pooled "a" Sample.name_ne).placement ⟨Sample.key, 4, [7], some 0⟩,
      by decide +kernel⟩
  exact (fence_removes_same_iff 1 1 history "a").mp (fun id => hSame history "a" id) hLast

end Consumers

end LMCache.Coordinator
