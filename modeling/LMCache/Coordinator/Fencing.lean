import LMCache.Coordinator.Quiesce
import LMCache.Coordinator.GateSpec

/-!
# Fencing after a restart

An L1 placement can be fenced if the gate has a cursor for its instance and the reverse index
has its key. Batches and dropped instances keep that. A restart brings it about exactly if the
sections of the checkpoint fit together: every L1 placement that is loaded has a loaded cursor
and is cited by the loaded index.
-/

namespace LMCache.Coordinator

open Lib Serde Dict List

namespace DirectorySection

def keyTable (stored : DirectorySection) : List ObjectKey := (readable stored.keys).map Prod.fst

/-- The placements of each key; a later record of a key replaces an earlier one. -/
def records (stored : DirectorySection) : Dict ObjectKey (List Placement) :=
  Dict.ofList ((readable stored.keys).map fun item => (item.1, item.2.2))

/-- No binding raises: each can be decoded, and the content of a known chunk is whole words. -/
def bindingsReadable (stored : DirectorySection) : Bool :=
  stored.bindings.all fun item =>
    item.any fun (chunkHash, _, raw) =>
      !stored.keyTable.any (fun k => k.chunkHash = chunkHash) || raw.length % 4 = 0

/-- The keys that an index cites for an instance, if no instance up to it cites a position
that does not exist. -/
def citedFor (table : List ObjectKey) (instanceId : String) :
    List (String × List (Stored Int)) → List ObjectKey
  | [] => []
  | (i, positions) :: rest =>
    match positions.mapM (KeyDirectory.citedKey table) with
    | none => []
    | some keys => if i = instanceId then keys else citedFor table instanceId rest

/-- The keys that the section cites for an instance. The index is read last. -/
def cited (stored : DirectorySection) (instanceId : String) : List ObjectKey :=
  if isReadable stored.keys && stored.bindingsReadable then
    citedFor stored.keyTable instanceId stored.l1KeysByInstance.entries
  else []

end DirectorySection

namespace Checkpoint

def heard (c : Checkpoint) : List String :=
  (c.streamCursors.elim [] CursorSection.cursors).map Prod.fst

structure Covered (c : Checkpoint) : Prop where
  directory : ∀ stored, c.keyDirectory = some stored → ∀ k placements,
    stored.records.get? k = some placements → ∀ p ∈ placements, p.tier = .l1 →
      p.instanceId ∈ c.heard ∧ k ∈ stored.cited p.instanceId
  usage : ∀ stored, c.cacheUsage = some stored → ∀ item ∈ stored.val.placements,
    item.1.tier = .l1 → item.1.owner ≠ "" → item.1.owner ∈ c.heard

end Checkpoint

namespace Fleet

def HoldsL1 (f : Fleet) (instanceId : String) : Prop :=
  (∃ k, ∃ p ∈ f.consumers.directory.placements k, p.tier = .l1 ∧ p.instanceId = instanceId) ∨
    ∃ id ∈ f.consumers.usage.placementSizes.keys,
      id.tier = .l1 ∧ id.owner = instanceId ∧ instanceId ≠ ""

/-- The L1 placements of the instance are those that the batch reports. -/
def LeavesOnly (f : Fleet) (batch : CacheEventBatch) : Prop :=
  (∀ k, ∀ p ∈ f.consumers.directory.placements k, p.tier = .l1 →
    p.instanceId = batch.instanceId → ∃ e ∈ batch.entries, e.key = k ∧ p = batch.placement e) ∧
  ∀ id ∈ f.consumers.usage.placementSizes.keys, id.tier = .l1 → id.owner = batch.instanceId →
    ∃ e ∈ batch.entries, id = batch.placementId e

/-- Every instance with an L1 placement has a cursor, and the first batch of a newer
incarnation removes its L1 placements. -/
def Fenceable (f : Fleet) : Prop :=
  ∀ instanceId, f.HoldsL1 instanceId →
    ∃ cursor, f.cursors.get? instanceId = some cursor ∧
      ∀ batch : CacheEventBatch, batch.instanceId = instanceId →
        cursor.incarnation < batch.incarnation → (f.ingest batch).2.LeavesOnly batch

structure Tended (f : Fleet) : Prop where
  indexed : f.consumers.directory.Indexed
  owned : f.consumers.usage.Owned
  placed : ∀ k, ∀ p ∈ f.consumers.directory.placements k, p.tier = .l1 →
    p.instanceId ∈ f.cursors.keys
  sized : ∀ id ∈ f.consumers.usage.placementSizes.keys, id.tier = .l1 → id.owner ≠ "" →
    id.owner ∈ f.cursors.keys

end Fleet

namespace CacheUsageManager

variable {u : CacheUsageManager} {id : PlacementId}

theorem mem_consume_cases {batch : CacheEventBatch}
    (h : id ∈ (u.consume batch).placementSizes.keys) :
    id ∈ u.placementSizes.keys ∨ ∃ e ∈ batch.entries, id = batch.placementId e := by
  unfold consume at h
  generalize batch.entries = entries at h
  induction entries generalizing u with
  | nil => exact Or.inl h
  | cons e rest ih =>
    rcases ih h with hNext | ⟨e', he', rfl⟩
    · unfold applyEntry at hNext
      split at hNext
      · unfold store at hNext
        rw [placementSizes_adjust, mem_keys_set] at hNext
        exact hNext.symm.imp_right fun hEq => ⟨e, mem_cons_self, hEq⟩
      · unfold remove at hNext
        rw [placementSizes_adjust, mem_keys_erase] at hNext
        exact Or.inl hNext.2
      · exact Or.inl hNext
    · exact Or.inr ⟨e', mem_cons_of_mem _ he', rfl⟩

theorem Owned.consume (h : u.Owned) (batch : CacheEventBatch) : (u.consume batch).Owned :=
  List.foldlRecOn _ _ (motive := Owned) h fun _ hu entry _ => hu.applyEntry batch entry

theorem Owned.not_mem_fence (h : u.Owned) {i : String}
    (hId : id ∈ (u.fenceInstance i).placementSizes.keys) (hTier : id.tier = .l1) (hName : i ≠ "")
    : id.owner ≠ i := by
  intro hOwner
  obtain ⟨hOther, hMem⟩ := (u.mem_keys_fenceInstance i id).mp hId
  exact hOther ((h i id).mpr ⟨hTier, hOwner, hName, hMem⟩)

end CacheUsageManager

namespace Fleet

variable {f : Fleet} {batch : CacheEventBatch} {instanceId : String}

theorem Tended.fence (h : f.Tended) (instanceId : String) :
    Tended { f with consumers := f.consumers.fenceInstance instanceId } where
  indexed := h.indexed.fenceInstance instanceId
  owned := h.owned.fenceInstance instanceId
  placed := by
    intro k p hp
    refine h.placed k p ?_
    change p ∈ (f.consumers.directory.fenceInstance instanceId).placements k at hp
    rw [h.indexed.placements_fenceInstance] at hp
    exact mem_of_mem_filter hp
  sized := fun id hId => h.sized id ((f.consumers.usage.mem_keys_fenceInstance _ id).mp hId).2

theorem Tended.pass (h : f.Tended) (cursor : StreamCursor) (batch : CacheEventBatch) :
    (f.pass cursor batch).Tended where
  indexed := h.indexed.consume batch
  owned := h.owned.consume batch
  placed := by
    intro k p hp hTier
    refine mem_keys_set.mpr ?_
    rcases KeyDirectory.mem_consume_cases hp with hOld | ⟨e, -, -, rfl⟩
    · exact Or.inr (h.placed k p hOld hTier)
    · exact Or.inl rfl
  sized := by
    intro id hId hTier hName
    refine mem_keys_set.mpr ?_
    rcases CacheUsageManager.mem_consume_cases hId with hOld | ⟨e, -, rfl⟩
    · exact Or.inr (h.sized id hOld hTier hName)
    · unfold CacheEventBatch.placementId at hName ⊢
      dsimp only at hName ⊢
      split at hName
      · exact absurd rfl hName
      · rename_i hShared
        rw [if_neg hShared]
        exact Or.inl rfl

theorem Tended.ingest (h : f.Tended) (batch : CacheEventBatch) : (f.ingest batch).2.Tended := by
  rcases f.ingest_cases batch with ⟨_, _, _, _, hEq⟩ | ⟨_, hEq⟩ | ⟨_, _, _, hEq⟩ |
    ⟨_, _, _, _, hEq⟩ <;> rw [hEq]
  · exact h
  · exact h.pass _ batch
  · exact (h.fence batch.instanceId).pass _ batch
  · exact h.pass _ batch

theorem Tended.dropInstance (h : f.Tended) (instanceId : String) :
    (f.dropInstance instanceId).Tended where
  indexed := h.indexed.fenceInstance instanceId
  owned := h.owned.fenceInstance instanceId
  placed := by
    intro k p hp hTier
    change p ∈ (f.consumers.directory.fenceInstance instanceId).placements k at hp
    rw [h.indexed.placements_fenceInstance] at hp
    obtain ⟨hOld, hKept⟩ := mem_filter.mp hp
    refine mem_keys_erase.mpr ⟨fun hInstance => ?_, h.placed k p hOld hTier⟩
    simp [Placement.fencedBy, hTier, hInstance] at hKept
  sized := by
    intro id hId hTier hName
    refine mem_keys_erase.mpr ⟨fun hOwner => ?_, (h.fence instanceId).sized id hId hTier hName⟩
    exact h.owned.not_mem_fence hId hTier (hOwner ▸ hName) hOwner

theorem Tended.act (h : f.Tended) (action : Action) : (f.act action).Tended := by
  cases action with
  | ingest batch => exact h.ingest batch
  | dropInstance instanceId => exact h.dropInstance instanceId

theorem Tended.fenceable (h : f.Tended) : f.Fenceable := by
  intro instanceId hHolds
  have hCursor : instanceId ∈ f.cursors.keys := by
    rcases hHolds with ⟨k, p, hp, hTier, rfl⟩ | ⟨id, hId, hTier, rfl, hName⟩
    · exact h.placed k p hp hTier
    · exact h.sized id hId hTier hName
  obtain ⟨cursor, hCursor⟩ := Dict.mem_keys_iff.mp hCursor
  refine ⟨cursor, hCursor, ?_⟩
  rintro batch rfl hNewer
  have hIngest : (f.ingest batch).2 =
      Fleet.pass { f with consumers := f.consumers.fenceInstance batch.instanceId }
        (.start batch.incarnation) batch := by
    unfold Fleet.ingest
    rw [hCursor]
    dsimp only
    rw [if_neg (by omega), if_pos hNewer]
    rfl
  rw [hIngest]
  refine ⟨fun k p hp hTier hInstance => ?_, fun id hId hTier hOwner => ?_⟩
  · rcases KeyDirectory.mem_consume_cases hp with hOld | hNew
    · change p ∈ (f.consumers.directory.fenceInstance batch.instanceId).placements k at hOld
      rw [h.indexed.placements_fenceInstance] at hOld
      have hKept := (mem_filter.mp hOld).2
      simp [Placement.fencedBy, hTier, hInstance] at hKept
    · exact hNew
  · rcases CacheUsageManager.mem_consume_cases hId with hOld | hNew
    · exact absurd hOwner (h.owned.not_mem_fence hOld hTier batch.instanceId_ne)
    · exact hNew

end Fleet

theorem CursorSection.mem_restoreCursors (stored : CursorSection) (instanceId : String) :
    instanceId ∈ (restoreCursors .empty stored).keys ↔
      instanceId ∈ stored.cursors.map Prod.fst := by
  unfold restoreCursors
  rw [if_neg (by simp [Dict.size, Dict.empty])]
  change instanceId ∈ (Dict.ofList stored.cursors).keys ↔ _
  rw [Dict.mem_keys_iff]
  constructor
  · rintro ⟨cursor, hCursor⟩
    exact mem_map.mpr ⟨_, mem_of_get?_ofList hCursor, rfl⟩
  · intro hMem
    obtain ⟨⟨i, cursor⟩, hEntry, rfl⟩ := mem_map.mp hMem
    exact exists_get?_ofList hEntry

namespace CacheUsageManager

theorem mem_foldl_restorePlacement (items : List (PlacementId × Nat)) (u : CacheUsageManager)
    (id : PlacementId) :
    id ∈ (items.foldl restorePlacement u).placementSizes.keys ↔
      id ∈ items.map Prod.fst ∨ id ∈ u.placementSizes.keys := by
  induction items generalizing u with
  | nil => simp
  | cons item rest ih =>
    rw [foldl_cons, ih, restorePlacement, placementSizes_adjust, mem_keys_set,
      map_cons, mem_cons, or_left_comm, or_assoc]

theorem Owned.restorePlacement {u : CacheUsageManager} (h : u.Owned) (item : PlacementId × Nat) :
    (u.restorePlacement item).Owned := by
  have hStore := h.store item.1 item.2
  intro i x
  have := hStore i x
  unfold CacheUsageManager.store at this
  unfold CacheUsageManager.restorePlacement
  rw [l1ByInstance_adjust, placementSizes_adjust] at this ⊢
  exact this

theorem mem_restore (stored : SizedSection) (id : PlacementId) :
    id ∈ (new.restore stored.val).1.1.placementSizes.keys ↔
      ∃ item ∈ stored.val.placements, item.1 = id := by
  unfold restore
  rw [if_neg (by simp [new, Dict.size, Dict.empty]), restoreItems_sized stored.property,
    mem_foldl_restorePlacement, mem_map]
  exact or_iff_left not_mem_nil

theorem owned_restore (stored : SizedSection) : (new.restore stored.val).1.1.Owned := by
  unfold restore
  rw [if_neg (by simp [new, Dict.size, Dict.empty]), restoreItems_sized stored.property]
  exact List.foldlRecOn _ _ (motive := Owned) owned_new fun _ hu item _ => hu.restorePlacement item

end CacheUsageManager

namespace KeyDirectory

variable {d : KeyDirectory}

theorem restoreBindings_frame (items : List (Stored (Bytes × Option Nat × Bytes)))
    (d : KeyDirectory) :
    (restoreBindings items d).1.directory = d.directory ∧
      (restoreBindings items d).1.l1KeysByInstance = d.l1KeysByInstance := by
  induction items generalizing d with
  | nil => exact ⟨rfl, rfl⟩
  | cons item rest ih =>
    obtain _ | ⟨chunkHash, tokenOffset, raw⟩ := item
    · exact ⟨rfl, rfl⟩
    · unfold restoreBindings
      split
      · exact ih d
      · split
        · exact ⟨rfl, rfl⟩
        · exact ih _

theorem restoreIndex_frame (table : List ObjectKey) (entries : List (String × List (Stored Int)))
    (d : KeyDirectory) : (restoreIndex table entries d).1.directory = d.directory := by
  induction entries generalizing d with
  | nil => rfl
  | cons e rest ih =>
    unfold restoreIndex
    split
    · rfl
    · exact ih _

theorem restore_directory (stored : DirectorySection) :
    (new.restore stored).1.directory = ((readable stored.keys).foldl restoreKey new).directory := by
  unfold restore
  rw [if_neg (by simp [new, Dict.size, Dict.empty])]
  dsimp only
  split
  · rfl
  · split
    · exact (restoreBindings_frame _ _).1
    · exact (restoreIndex_frame _ _ _).trans (restoreBindings_frame _ _).1

theorem placements_restore (stored : DirectorySection) (k : ObjectKey) :
    (new.restore stored).1.placements k = (stored.records.get? k).getD [] := by
  have hFold : ∀ (items : List (ObjectKey × ℚ × List Placement)) (t : Dict ObjectKey KeyRecord)
      (t' : Dict ObjectKey (List Placement)),
      (∀ k, (t.get? k).map KeyRecord.placements = t'.get? k) →
      ((items.foldl (fun t e => t.set e.1 ⟨e.2.2, e.2.1⟩) t).get? k).map KeyRecord.placements =
        (items.foldl (fun t e => t.set e.1 e.2.2) t').get? k := by
    intro items
    induction items with
    | nil => exact fun t t' h => h k
    | cons item rest ih =>
      intro t t' h
      refine ih _ _ fun k => ?_
      rw [get?_set, get?_set]
      split
      · rfl
      · exact h k
  rw [placements, restore_directory, (foldl_restoreKey _ new).1, hFold _ _ .empty fun _ => rfl,
    DirectorySection.records, Dict.ofList, foldl_map]

theorem contains_addKey (bindings : TokenBindings) (key : ObjectKey) (chunkHash : Bytes) :
    (bindings.addKey key).contains chunkHash =
      (decide (key.chunkHash = chunkHash) || bindings.contains chunkHash) := by
  unfold TokenBindings.addKey Dict.contains
  split
  · rw [get?_set]
    split
    · rename_i hHash
      simp [hHash]
    · rename_i hHash
      simp [hHash]
  · rw [get?_set]
    split
    · rename_i hHash
      simp [hHash]
    · rename_i hHash
      simp [hHash]

theorem contains_foldl_restoreKey (items : List (ObjectKey × ℚ × List Placement))
    (d : KeyDirectory) (chunkHash : Bytes) :
    (items.foldl restoreKey d).tokenBindings.contains chunkHash =
      ((items.map Prod.fst).any (fun k => k.chunkHash = chunkHash) ||
        d.tokenBindings.contains chunkHash) := by
  induction items generalizing d with
  | nil => simp
  | cons item rest ih =>
    rw [foldl_cons, ih]
    change (_ || (d.tokenBindings.addKey item.1).contains chunkHash) = _
    rw [contains_addKey]
    simp only [map_cons, any_cons, Bool.or_assoc, Bool.or_left_comm]

/-- The bindings are read to the end exactly if none raises. -/
theorem restoreBindings_complete (items : List (Stored (Bytes × Option Nat × Bytes)))
    (d : KeyDirectory) (known : Bytes → Bool)
    (hKnown : ∀ chunkHash, d.tokenBindings.contains chunkHash = known chunkHash) :
    (restoreBindings items d).2 = items.all fun item =>
      item.any fun (chunkHash, _, raw) => !known chunkHash || raw.length % 4 = 0 := by
  induction items generalizing d with
  | nil => rfl
  | cons item rest ih =>
    obtain _ | ⟨chunkHash, tokenOffset, raw⟩ := item
    · rfl
    · have hHash := hKnown chunkHash
      unfold restoreBindings
      rw [all_cons, Option.any_some]
      dsimp only
      cases hBinding : d.tokenBindings.get? chunkHash with
      | none =>
        rw [Dict.contains, hBinding] at hHash
        rw [← hHash]
        simpa using ih d hKnown
      | some binding =>
        rw [Dict.contains, hBinding] at hHash
        rw [← hHash]
        by_cases hWords : raw.length % 4 = 0
        · simp only [hWords, ne_eq, not_true_eq_false, if_false]
          rw [ih]
          · simp
          · intro h
            rw [← hKnown h]
            unfold Dict.contains
            rw [get?_set]
            split
            · rename_i hEq
              rw [← hEq, hBinding]
              rfl
            · rfl
        · simp [hWords]

theorem mem_l1Keys_restoreIndex (table : List ObjectKey)
    (entries : List (String × List (Stored Int))) (hNodup : (entries.map Prod.fst).Nodup)
    (d : KeyDirectory) (i : String) (hEmpty : (d.l1Keys i).keys = []) (k : ObjectKey) :
    k ∈ ((restoreIndex table entries d).1.l1Keys i).keys ↔
      k ∈ DirectorySection.citedFor table i entries := by
  induction entries generalizing d with
  | nil => simp [restoreIndex, hEmpty, DirectorySection.citedFor]
  | cons e rest ih =>
    rw [map_cons, nodup_cons] at hNodup
    unfold restoreIndex DirectorySection.citedFor
    cases hKeys : e.2.mapM (citedKey table) with
    | none => simp [hEmpty]
    | some keys =>
      dsimp only
      by_cases hi : e.1 = i
      · rw [if_pos hi]
        have hKept : ∀ (rest : List (String × List (Stored Int))) (d : KeyDirectory),
            i ∉ rest.map Prod.fst → (restoreIndex table rest d).1.l1Keys i = d.l1Keys i := by
          intro rest
          induction rest with
          | nil => exact fun d _ => rfl
          | cons e' rest ih' =>
            intro d hAbsent
            rw [map_cons, mem_cons, not_or] at hAbsent
            unfold restoreIndex
            split
            · rfl
            · rw [ih' _ hAbsent.2, l1Keys_setL1Keys, if_neg (Ne.symm hAbsent.1)]
        rw [hKept rest _ (hi ▸ hNodup.1), l1Keys_setL1Keys, if_pos hi]
        exact mem_ofList_keys
      · rw [if_neg hi]
        refine ih hNodup.2 _ ?_
        rw [l1Keys_setL1Keys, if_neg hi]
        exact hEmpty

theorem restoreBindings_restored (stored : DirectorySection) :
    (restoreBindings stored.bindings ((readable stored.keys).foldl restoreKey new)).2 =
      stored.bindingsReadable :=
  restoreBindings_complete stored.bindings _
    (fun chunkHash => stored.keyTable.any fun k => k.chunkHash = chunkHash) fun chunkHash => by
      rw [contains_foldl_restoreKey]
      exact Bool.or_false _

theorem mem_l1Keys_restore (stored : DirectorySection) (i : String) (k : ObjectKey) :
    k ∈ ((new.restore stored).1.l1Keys i).keys ↔ k ∈ stored.cited i := by
  have hKeys : ((readable stored.keys).foldl restoreKey new).l1KeysByInstance = .empty :=
    (foldl_restoreKey _ new).2
  have hNone : k ∉ (((Dict.empty : Dict String KeySet).get? i).getD .empty).keys := nofun
  unfold restore DirectorySection.cited
  rw [if_neg (by simp [new, Dict.size, Dict.empty])]
  dsimp only
  cases hReadable : isReadable stored.keys with
  | false =>
    simp only [Bool.not_false, if_true, Bool.false_and, Bool.false_eq_true, if_false]
    rw [l1Keys, hKeys]
    exact iff_of_false hNone not_mem_nil
  | true =>
    simp only [Bool.not_true, Bool.false_eq_true, if_false, Bool.true_and]
    rw [restoreBindings_restored]
    split
    · rename_i hBad
      have hFrame := (restoreBindings_frame stored.bindings
        ((readable stored.keys).foldl restoreKey new)).2
      rw [if_neg (by simpa using hBad), l1Keys, hFrame, hKeys]
      exact iff_of_false hNone not_mem_nil
    · rename_i hGood
      rw [if_pos (by simpa using hGood)]
      refine mem_l1Keys_restoreIndex _ _ stored.l1KeysByInstance.nodup _ i ?_ k
      rw [l1Keys, (restoreBindings_frame _ _).2, hKeys]
      rfl

end KeyDirectory

namespace Fleet

variable {checkpoint : Checkpoint} {eviction : FleetEvictionController}

theorem mem_cursors_loadCheckpoint (instanceId : String) :
    instanceId ∈ ((fresh eviction).loadCheckpoint checkpoint).cursors.keys ↔
      instanceId ∈ checkpoint.heard := by
  unfold loadCheckpoint Checkpoint.heard
  cases checkpoint.streamCursors with
  | none => exact Iff.rfl
  | some stored => exact CursorSection.mem_restoreCursors stored instanceId

theorem mem_placements_restore {stored : DirectorySection} {k : ObjectKey} {p : Placement} :
    p ∈ (KeyDirectory.new.restore stored).1.placements k ↔
      ∃ placements, stored.records.get? k = some placements ∧ p ∈ placements := by
  rw [KeyDirectory.placements_restore]
  cases stored.records.get? k <;> simp

theorem tended_loadCheckpoint (h : checkpoint.Covered) :
    ((fresh eviction).loadCheckpoint checkpoint).Tended where
  indexed := by
    unfold loadCheckpoint
    dsimp only
    cases hStored : checkpoint.keyDirectory with
    | none => nofun
    | some stored =>
      intro k p hp hTier
      obtain ⟨placements, hRecord, hp⟩ := mem_placements_restore.mp hp
      have hCited := (h.directory stored hStored k placements hRecord p hp hTier).2
      exact (KeyDirectory.mem_l1Keys_restore stored p.instanceId k).mpr hCited
  owned := by
    unfold loadCheckpoint
    dsimp only
    cases checkpoint.cacheUsage with
    | none => exact CacheUsageManager.owned_new
    | some stored => exact CacheUsageManager.owned_restore stored
  placed := by
    intro k p hp hTier
    rw [mem_cursors_loadCheckpoint]
    unfold loadCheckpoint at hp
    dsimp only at hp
    cases hStored : checkpoint.keyDirectory with
    | none =>
      rw [hStored] at hp
      cases hp
    | some stored =>
      rw [hStored] at hp
      obtain ⟨placements, hRecord, hp⟩ := mem_placements_restore.mp hp
      exact (h.directory stored hStored k placements hRecord p hp hTier).1
  sized := by
    intro id hId hTier hName
    rw [mem_cursors_loadCheckpoint]
    unfold loadCheckpoint at hId
    dsimp only at hId
    cases hStored : checkpoint.cacheUsage with
    | none =>
      rw [hStored] at hId
      cases hId
    | some stored =>
      rw [hStored] at hId
      obtain ⟨item, hItem, rfl⟩ := (CacheUsageManager.mem_restore stored id).mp hId
      exact h.usage stored hStored item hItem hTier hName

end Fleet

end LMCache.Coordinator
