import LMCache.Coordinator.Fencing

/-!
# Restored components

A component that is restored from its own section differs from the original only in derived
tables: the members of token bindings, the reverse indexes and the order of the rollups.
Batches and fences keep the two alike, and no answer depends on the difference.
-/

namespace LMCache.Coordinator

open Lib Serde Eviction Dict List

namespace TokenBindings

variable {bindings : TokenBindings} {key : ObjectKey} {chunkHash : Bytes}

def content (bindings : TokenBindings) (chunkHash : Bytes) : Option (List UInt32 × Option Nat) :=
  (bindings.get? chunkHash).map TokenBinding.content

theorem content_addKey (bindings : TokenBindings) (key : ObjectKey) (chunkHash : Bytes) :
    (bindings.addKey key).content chunkHash =
      if key.chunkHash = chunkHash then some ((bindings.content chunkHash).getD ([], none))
      else bindings.content chunkHash := by
  unfold addKey content
  by_cases hHash : key.chunkHash = chunkHash
  · subst hHash
    rw [if_pos rfl]
    cases bindings.get? key.chunkHash with
    | none | some binding =>
      dsimp only
      rw [get?_set_self]
      rfl
  · rw [if_neg hHash]
    split <;> rw [get?_set_ne _ hHash]

theorem content_fill (bindings : TokenBindings) (filled : Bytes) (entry : CacheEventEntry)
    (chunkHash : Bytes) :
    (bindings.fill filled entry).content chunkHash =
      match asTokenIds entry.tokenIds with
      | none => bindings.content chunkHash
      | some tokenIds =>
        if filled = chunkHash then (bindings.content chunkHash).map fun _ =>
          (tokenIds, entry.tokenOffset)
        else bindings.content chunkHash := by
  unfold fill content
  cases asTokenIds entry.tokenIds with
  | none => rfl
  | some tokenIds =>
    dsimp only
    by_cases hHash : filled = chunkHash
    · subst hHash
      rw [if_pos rfl]
      cases hBinding : bindings.get? filled with
      | none =>
        dsimp only
        rw [hBinding]
        rfl
      | some binding =>
        dsimp only
        rw [get?_set_self]
        rfl
    · rw [if_neg hHash]
      cases bindings.get? filled with
      | none => rfl
      | some binding =>
        dsimp only
        rw [get?_set_ne _ hHash]

theorem content_of_removeKey {c : List UInt32 × Option Nat}
    (h : (bindings.removeKey key).content chunkHash = some c) :
    bindings.content chunkHash = some c := by
  unfold removeKey at h
  split at h
  · exact h
  · rename_i binding hBinding
    unfold content at h ⊢
    dsimp only at h
    split at h
    · rw [get?_erase] at h
      split at h
      · cases h
      · exact h
    · rw [get?_set] at h
      split at h
      · rename_i hHash
        rw [← hHash, hBinding]
        exact h
      · exact h

end TokenBindings

namespace KeyDirectory

variable {d d' : KeyDirectory} {batch : CacheEventBatch} {entry : CacheEventEntry}
  {k : ObjectKey} {chunkHash : Bytes}

theorem Booked.content_isSome_iff (h : d.Booked) (chunkHash : Bytes) :
    (d.tokenBindings.content chunkHash).isSome ↔
      ∃ k, (d.directory.get? k).isSome ∧ k.chunkHash = chunkHash := by
  unfold TokenBindings.content
  rw [Option.isSome_map, Option.isSome_iff_exists]
  constructor
  · rintro ⟨binding, hBinding⟩
    obtain ⟨k, hk⟩ := exists_mem_of_ne_nil _ (h.inhabited chunkHash binding hBinding)
    obtain ⟨hHash, hMem⟩ := (h.bound chunkHash k).mp ⟨binding, hBinding, hk⟩
    exact ⟨k, Option.isSome_iff_exists.mpr (mem_keys_iff.mp hMem), hHash⟩
  · rintro ⟨k, hk, hHash⟩
    have hMem := mem_keys_iff.mpr (Option.isSome_iff_exists.mp hk)
    obtain ⟨binding, hBinding, -⟩ := (h.bound chunkHash k).mpr ⟨hHash, hMem⟩
    exact ⟨binding, hBinding⟩

/-- The same records and the same contents. -/
structure Alike (d d' : KeyDirectory) : Prop where
  records : ∀ k, d'.directory.get? k = d.directory.get? k
  contents : ∀ chunkHash, d'.tokenBindings.content chunkHash = d.tokenBindings.content chunkHash
  left : d.Consistent
  right : d'.Consistent

theorem Alike.remove {e e' : KeyDirectory} (h : Alike d d')
    (hRecords : ∀ k, e'.directory.get? k = e.directory.get? k)
    (hLeft : ∀ chunkHash c, e.tokenBindings.content chunkHash = some c →
      d.tokenBindings.content chunkHash = some c)
    (hRight : ∀ chunkHash c, e'.tokenBindings.content chunkHash = some c →
      d'.tokenBindings.content chunkHash = some c)
    (left : e.Consistent) (right : e'.Consistent) : Alike e e' where
  records := hRecords
  contents := by
    intro chunkHash
    have hSome : (e'.tokenBindings.content chunkHash).isSome ↔
        (e.tokenBindings.content chunkHash).isSome := by
      rw [left.booked.content_isSome_iff, right.booked.content_isSome_iff]
      simp only [hRecords]
    cases hOld : e.tokenBindings.content chunkHash with
    | none =>
      rw [hOld] at hSome
      simpa using hSome
    | some c =>
      rw [hOld] at hSome
      obtain ⟨c', hc'⟩ := Option.isSome_iff_exists.mp (hSome.mpr rfl)
      have hSame := (hRight _ _ hc').symm.trans ((h.contents chunkHash).trans (hLeft _ _ hOld))
      rw [hc', Option.some.inj hSame]
  left := left
  right := right

theorem get?_keepPlacements (key : ObjectKey) (record : KeyRecord) (kept : List Placement) :
    (d.keepPlacements key record kept).directory.get? k =
      if key = k then if kept.isEmpty then none else some { record with placements := kept }
      else d.directory.get? k := by
  unfold keepPlacements
  split
  · rw [get?_erase]
  · rw [get?_set]

variable {c : List UInt32 × Option Nat}

theorem content_of_keepPlacements {key : ObjectKey} {record : KeyRecord} {kept : List Placement}
    (h : (d.keepPlacements key record kept).tokenBindings.content chunkHash = some c) :
    d.tokenBindings.content chunkHash = some c := by
  unfold keepPlacements at h
  split at h
  · exact TokenBindings.content_of_removeKey h
  · exact h

theorem Alike.applyStore (h : Alike d d') (hType : batch.eventType = .store) :
    Alike (applyEntry batch d entry) (applyEntry batch d' entry) := by
  refine ⟨fun k => ?_, fun chunkHash => ?_, h.left.applyEntry batch entry,
    h.right.applyEntry batch entry⟩
  · have hStored : ∀ d : KeyDirectory, (applyEntry batch d entry).directory.get? k =
        if entry.key = k then
          some ⟨upsert (fun p => p.matchesBatch batch) (batch.placement entry)
            ((d.directory.get? entry.key).getD ⟨[], 0⟩).placements,
            max ((d.directory.get? entry.key).getD ⟨[], 0⟩).lastAccess batch.ts⟩
        else d.directory.get? k := by
      intro d
      unfold applyEntry
      rw [hType]
      dsimp only
      unfold KeyDirectory.applyStore
      dsimp only
      split <;> exact get?_set _ _ _ _
    rw [hStored, hStored, h.records, h.records]
  · have hStored : ∀ d : KeyDirectory,
        (applyEntry batch d entry).tokenBindings.content chunkHash =
          TokenBindings.content
            (if entry.tokenIds.isEmpty then
              if (d.directory.get? entry.key).isNone then d.tokenBindings.addKey entry.key
              else d.tokenBindings
            else TokenBindings.fill
              (if (d.directory.get? entry.key).isNone then d.tokenBindings.addKey entry.key
                else d.tokenBindings) entry.key.chunkHash entry) chunkHash := by
      intro d
      unfold applyEntry
      rw [hType]
      dsimp only
      unfold KeyDirectory.applyStore
      dsimp only
      cases d.directory.get? entry.key <;> split <;> rfl
    rw [hStored, hStored, h.records]
    have hAdded : ∀ chunkHash, TokenBindings.content
        (if (d.directory.get? entry.key).isNone then d'.tokenBindings.addKey entry.key
          else d'.tokenBindings) chunkHash =
        TokenBindings.content
          (if (d.directory.get? entry.key).isNone then d.tokenBindings.addKey entry.key
            else d.tokenBindings) chunkHash := by
      intro chunkHash
      split
      · rw [TokenBindings.content_addKey, TokenBindings.content_addKey, h.contents]
      · exact h.contents chunkHash
    split
    · exact hAdded chunkHash
    · rw [TokenBindings.content_fill, TokenBindings.content_fill, hAdded]

theorem Alike.applyDelete (h : Alike d d') (hType : batch.eventType = .delete) :
    Alike (applyEntry batch d entry) (applyEntry batch d' entry) := by
  have hRecords : ∀ (d : KeyDirectory) k, (applyEntry batch d entry).directory.get? k =
      if entry.key = k then
        (d.directory.get? entry.key).bind fun record =>
          let kept := record.placements.eraseP fun p => p.matchesBatch batch
          if kept.isEmpty then none else some { record with placements := kept }
      else d.directory.get? k := by
    intro d k
    unfold applyEntry
    rw [hType]
    dsimp only
    unfold KeyDirectory.applyDelete
    dsimp only
    split
    · rename_i hNone
      split
      · rename_i hKey
        rw [← hKey, hNone]
        rfl
      · rfl
    · rename_i record hRecord
      rw [hRecord, Option.bind_some]
      split
      · exact get?_keepPlacements _ _ _
      · exact get?_keepPlacements _ _ _
  have hContents : ∀ (d : KeyDirectory) chunkHash c,
      (applyEntry batch d entry).tokenBindings.content chunkHash = some c →
        d.tokenBindings.content chunkHash = some c := by
    intro d chunkHash c hc
    unfold applyEntry at hc
    rw [hType] at hc
    dsimp only at hc
    unfold KeyDirectory.applyDelete at hc
    dsimp only at hc
    split at hc
    · exact hc
    · split at hc
      · exact content_of_keepPlacements hc
      · exact content_of_keepPlacements hc
  refine h.remove (fun k => ?_) (hContents d) (hContents d') (h.left.applyEntry batch entry)
    (h.right.applyEntry batch entry)
  rw [hRecords, hRecords, h.records, h.records]

theorem Alike.applyEntry (h : Alike d d') (batch : CacheEventBatch) (entry : CacheEventEntry) :
    Alike (applyEntry batch d entry) (KeyDirectory.applyEntry batch d' entry) := by
  cases hType : batch.eventType with
  | store => exact h.applyStore hType
  | delete => exact h.applyDelete hType
  | config =>
    have hSame : ∀ d, KeyDirectory.applyEntry batch d entry = d := by
      intro d
      unfold KeyDirectory.applyEntry
      rw [hType]
    rw [hSame, hSame]
    exact h
  | access =>
    refine ⟨fun k => ?_, fun chunkHash => ?_, h.left.applyEntry batch entry,
      h.right.applyEntry batch entry⟩
    · unfold KeyDirectory.applyEntry
      rw [hType]
      dsimp only
      unfold applyAccess
      rw [h.records]
      cases d.directory.get? entry.key with
      | none => exact h.records k
      | some record =>
        dsimp only
        rw [get?_set, get?_set, h.records]
    · unfold KeyDirectory.applyEntry
      rw [hType]
      dsimp only
      unfold applyAccess
      rw [h.records]
      cases d.directory.get? entry.key <;> exact h.contents chunkHash

theorem Alike.consume (h : Alike d d') (batch : CacheEventBatch) :
    Alike (d.consume batch) (d'.consume batch) := by
  have hFold : ∀ (entries : List CacheEventEntry) (d d' : KeyDirectory), Alike d d' →
      Alike (entries.foldl (KeyDirectory.applyEntry batch) d)
        (entries.foldl (KeyDirectory.applyEntry batch) d') := by
    intro entries
    induction entries with
    | nil => exact fun d d' h => h
    | cons entry rest ih => exact fun d d' h => ih _ _ (h.applyEntry batch entry)
  refine hFold batch.entries _ _ ⟨h.records, h.contents, ?_, ?_⟩
  · exact ⟨h.left.booked.withL1Keys _, h.left.distinct, h.left.indexed.setDefault _⟩
  · exact ⟨h.right.booked.withL1Keys _, h.right.distinct, h.right.indexed.setDefault _⟩

def fenceRecord (instanceId : String) (record : KeyRecord) : Option KeyRecord :=
  let kept := record.placements.filter fun p => !p.fencedBy instanceId
  if kept.isEmpty then none else some { record with placements := kept }

theorem get?_foldl_dropL1Key (instanceId : String) {keys : List ObjectKey} (hNodup : keys.Nodup)
    (d : KeyDirectory) (k : ObjectKey) :
    (keys.foldl (dropL1Key instanceId) d).directory.get? k =
      if k ∈ keys then (d.directory.get? k).bind (fenceRecord instanceId)
      else d.directory.get? k := by
  induction keys generalizing d with
  | nil => simp
  | cons key rest ih =>
    rw [nodup_cons] at hNodup
    have hDrop : (dropL1Key instanceId d key).directory.get? k =
        if key = k then (d.directory.get? key).bind (fenceRecord instanceId)
        else d.directory.get? k := by
      unfold dropL1Key
      split
      · rename_i hNone
        split
        · rename_i hKey
          rw [← hKey, hNone]
          rfl
        · rfl
      · rename_i record hRecord
        rw [get?_keepPlacements, hRecord]
        rfl
    rw [foldl_cons, ih hNodup.2, hDrop]
    by_cases hKey : key = k
    · subst hKey
      simp [hNodup.1]
    · simp [hKey, Ne.symm hKey]

theorem Consistent.get?_fenceInstance (h : d.Consistent) (instanceId : String) (k : ObjectKey) :
    (d.fenceInstance instanceId).directory.get? k =
      (d.directory.get? k).bind (fenceRecord instanceId) := by
  refine (get?_foldl_dropL1Key instanceId (d.l1Keys instanceId).nodup_keys d k).trans ?_
  split
  · rfl
  · rename_i hAbsent
    cases hRecord : d.directory.get? k with
    | none => rfl
    | some record =>
      rw [Option.bind_some, fenceRecord]
      have hKept : record.placements.filter (fun p => !p.fencedBy instanceId) =
          record.placements := by
        refine filter_eq_self.mpr fun p hp => ?_
        rw [Bool.not_eq_true', Placement.fencedBy, decide_eq_false_iff_not]
        rintro ⟨hTier, rfl⟩
        exact hAbsent (h.indexed k p (placements_of_get? hRecord ▸ hp) hTier)
      rw [hKept, if_neg (by simpa using h.booked.nonempty k record hRecord)]

theorem content_of_fenceInstance {instanceId : String}
    (h : (d.fenceInstance instanceId).tokenBindings.content chunkHash = some c) :
    d.tokenBindings.content chunkHash = some c := by
  refine List.foldlRecOn (motive := fun e : KeyDirectory =>
    e.tokenBindings.content chunkHash = some c → d.tokenBindings.content chunkHash = some c)
    _ _ id ?_ h
  intro e he key _ hc
  unfold dropL1Key at hc
  split at hc
  · exact he hc
  · exact he (content_of_keepPlacements hc)

theorem Alike.fenceInstance (h : Alike d d') (instanceId : String) :
    Alike (d.fenceInstance instanceId) (d'.fenceInstance instanceId) := by
  refine h.remove (fun k => ?_) (fun _ _ => content_of_fenceInstance)
    (fun _ _ => content_of_fenceInstance) (h.left.fenceInstance instanceId)
    (h.right.fenceInstance instanceId)
  rw [h.left.get?_fenceInstance, h.right.get?_fenceInstance, h.records]

theorem Alike.lookup (h : Alike d d') (keys : List ObjectKey) : d'.lookup keys = d.lookup keys := by
  unfold KeyDirectory.lookup
  simp only [h.records]

theorem Alike.getTokenIds (h : Alike d d') (chunkHashes : List Bytes) :
    d'.getTokenIds chunkHashes = d.getTokenIds chunkHashes := by
  have hIds : ∀ d : KeyDirectory, d.getTokenIds chunkHashes = chunkHashes.map fun chunkHash =>
      ((d.tokenBindings.content chunkHash).map Prod.fst).getD [] := by
    intro d
    refine map_congr_left fun chunkHash _ => ?_
    unfold TokenBindings.content
    cases d.tokenBindings.get? chunkHash <;> rfl
  rw [hIds, hIds]
  simp only [h.contents]

theorem Consistent.alike_restore (h : d.Consistent) : Alike d (new.restore d.capture).1 := by
  obtain ⟨-, hDirectory, hContents, hConsistent⟩ := h.restore_capture
  exact ⟨fun k => by rw [hDirectory], hContents, h, hConsistent⟩

end KeyDirectory

namespace CacheUsageManager

variable {u u' : CacheUsageManager}

/-- The same placements, with exact rollups and indexes on both sides. -/
structure Alike (u u' : CacheUsageManager) : Prop where
  sizes : u'.placementSizes = u.placementSizes
  left : u.Rolled ∧ u.Owned
  right : u'.Rolled ∧ u'.Owned

theorem Alike.applyEntry (h : Alike u u') (batch : CacheEventBatch) (entry : CacheEventEntry) :
    Alike (applyEntry batch u entry) (CacheUsageManager.applyEntry batch u' entry) where
  sizes := by
    unfold CacheUsageManager.applyEntry
    split
    · rw [store, store, placementSizes_adjust, placementSizes_adjust, h.sizes]
    · rw [remove, remove, placementSizes_adjust, placementSizes_adjust, h.sizes]
    · exact h.sizes
  left := ⟨h.left.1.applyEntry batch entry, h.left.2.applyEntry batch entry⟩
  right := ⟨h.right.1.applyEntry batch entry, h.right.2.applyEntry batch entry⟩

theorem Alike.consume (h : Alike u u') (batch : CacheEventBatch) :
    Alike (u.consume batch) (u'.consume batch) := by
  unfold CacheUsageManager.consume
  generalize batch.entries = entries
  induction entries generalizing u u' with
  | nil => exact h
  | cons entry rest ih => exact ih (h.applyEntry batch entry)

theorem entries_foldl_remove (ids : List PlacementId) (u : CacheUsageManager) :
    (ids.foldl remove u).placementSizes.entries =
      u.placementSizes.entries.filter fun e => e.1 ∉ ids := by
  induction ids generalizing u with
  | nil => simp
  | cons id rest ih =>
    rw [foldl_cons, ih, remove, placementSizes_adjust]
    simp only [erase]
    rw [filter_filter]
    refine filter_congr fun e _ => ?_
    simp [Bool.and_comm]

theorem Alike.fenceInstance (h : Alike u u') (i : String) :
    Alike (u.fenceInstance i) (u'.fenceInstance i) where
  sizes := by
    have hOwned : ∀ x, x ∈ owned u'.l1ByInstance i ↔ x ∈ owned u.l1ByInstance i := by
      intro x
      rw [h.right.2, h.left.2, h.sizes]
    refine ext ?_
    unfold CacheUsageManager.fenceInstance
    rw [entries_foldl_remove, entries_foldl_remove]
    dsimp only
    rw [h.sizes]
    refine filter_congr fun e _ => ?_
    rw [decide_eq_decide]
    exact not_congr (hOwned e.1)
  left := ⟨h.left.1.fenceInstance i, h.left.2.fenceInstance i⟩
  right := ⟨h.right.1.fenceInstance i, h.right.2.fenceInstance i⟩

theorem Alike.keyBytes (h : Alike u u') (k : Tier × ObjectKey) :
    u'.keyBytes.get? k = u.keyBytes.get? k :=
  h.left.1.keys.get?_eq (h.sizes ▸ h.right.1.keys) k

theorem Alike.saltBytes (h : Alike u u') (k : Tier × String) :
    u'.saltBytes.get? k = u.saltBytes.get? k :=
  h.left.1.salts.get?_eq (h.sizes ▸ h.right.1.salts) k

theorem Alike.instanceBytes (h : Alike u u') (k : Tier × String × String) :
    u'.instanceBytes.get? k = u.instanceBytes.get? k :=
  h.left.1.nodes.get?_eq (h.sizes ▸ h.right.1.nodes) k

theorem Alike.getKeyBytes (h : Alike u u') (tier : Tier) (key : ObjectKey) :
    u'.getKeyBytes tier key = u.getKeyBytes tier key := by
  unfold CacheUsageManager.getKeyBytes
  rw [h.keyBytes]

theorem Alike.getSaltBytes (h : Alike u u') (tier : Tier) (cacheSalt : String) :
    u'.getSaltBytes tier cacheSalt = u.getSaltBytes tier cacheSalt := by
  unfold CacheUsageManager.getSaltBytes
  rw [h.saltBytes]

theorem Alike.getTotalBytes (h : Alike u u') (tier : Tier) :
    u'.getTotalBytes tier = u.getTotalBytes tier :=
  (((perm_of_get?_eq h.saltBytes).filter _).map _).sum_eq

theorem restored (items : List (PlacementId × Nat)) {u : CacheUsageManager} (hRolled : u.Rolled)
    (hNodup : (u.placementSizes.keys ++ items.map Prod.fst).Nodup) :
    (items.foldl restorePlacement u).Rolled ∧
      (items.foldl restorePlacement u).placementSizes.entries =
        u.placementSizes.entries ++ items := by
  induction items generalizing u with
  | nil => exact ⟨hRolled, (append_nil _).symm⟩
  | cons item rest ih =>
    rw [map_cons] at hNodup
    have hAbsent : item.1 ∉ u.placementSizes.keys := by
      intro hMem
      exact (nodup_append.mp hNodup).2.2 _ hMem _ mem_cons_self rfl
    have hNext : (restorePlacement u item).Rolled := by
      refine hRolled.adjust (fun group k => ?_) _
      have hTotal : ((u.placementSizes.set item.1 item.2).total group k : Int) = _ :=
        total_set u.placementSizes item.1 item.2 k
      rw [get?_eq_none_iff.mpr hAbsent] at hTotal
      simpa using hTotal
    have hEntries : (restorePlacement u item).placementSizes.entries =
        u.placementSizes.entries ++ [item] := by
      rw [restorePlacement, placementSizes_adjust]
      exact assign_of_not_mem hAbsent item.2
    have hKeys : (restorePlacement u item).placementSizes.keys ++ rest.map Prod.fst =
        u.placementSizes.keys ++ item.1 :: rest.map Prod.fst := by
      unfold Dict.keys
      rw [hEntries]
      simp
    obtain ⟨hRest, hAll⟩ := ih hNext (hKeys ▸ hNodup)
    refine ⟨hRest, ?_⟩
    rw [foldl_cons, hAll, hEntries, append_assoc]
    rfl

theorem alike_restore (hRolled : u.Rolled) (hOwned : u.Owned) :
    Alike u (new.restore u.capture).1.1 := by
  have hRestored := restored u.placementSizes.entries rolled_new (by
    simpa [new, Dict.keys, empty] using u.placementSizes.nodup)
  have hEq : (new.restore u.capture).1.1 =
      u.placementSizes.entries.foldl restorePlacement new := by
    unfold restore
    rw [if_neg (by simp [new, size, empty])]
    exact (restoreItems_sized u.captureSized.property new).trans
      (congrArg (foldl restorePlacement new) (placements_map _))
  refine ⟨?_, ⟨hRolled, hOwned⟩, ?_, owned_restore u.captureSized⟩
  · rw [hEq]
    exact ext hRestored.2
  · rw [hEq]
    exact hRestored.1

end CacheUsageManager

namespace ServerConfigRegistry

variable {r : ServerConfigRegistry}

/-- Stamps and declarations have the same instances, and modules are under their own names. -/
structure Coherent (r : ServerConfigRegistry) : Prop where
  instances : r.stamps.keys = r.byInstance.keys
  named : ∀ i declaration, r.byInstance.get? i = some declaration →
    ∀ e ∈ declaration.entries, e.1 = (e.2.tier, e.2.backend)

theorem coherent_new : new.Coherent := ⟨rfl, nofun⟩

variable {declaration : Declaration}

theorem named_declare (h : ∀ e ∈ declaration.entries, e.1 = (e.2.tier, e.2.backend))
    (m : ModuleMemoryCapacity) :
    ∀ e ∈ (declaration.set (m.tier, m.backend) m).entries, e.1 = (e.2.tier, e.2.backend) := by
  intro e he
  have hGet := get?_eq_some_iff.mpr (show (e.1, e.2) ∈ _ from he)
  rw [get?_set] at hGet
  split at hGet
  · rename_i hKey
    rw [← Option.some.inj hGet]
    exact hKey.symm
  · exact h e (get?_eq_some_iff.mp hGet)

theorem Coherent.setDeclaration (h : r.Coherent) {i : String}
    (hNamed : ∀ e ∈ declaration.entries, e.1 = (e.2.tier, e.2.backend)) :
    ∀ j d, (r.byInstance.set i declaration).get? j = some d →
      ∀ e ∈ d.entries, e.1 = (e.2.tier, e.2.backend) := by
  intro j d hGet
  rw [get?_set] at hGet
  split at hGet
  · rw [← Option.some.inj hGet]
    exact hNamed
  · exact h.named j d hGet

theorem Coherent.consume (h : r.Coherent) (batch : CacheEventBatch) :
    (r.consume batch).Coherent := by
  have hFresh := named_declare (show ∀ e ∈ (empty : Declaration).entries, _ from nofun)
    ⟨batch.tier, batch.backend, batch.capacityBytes, batch.shared⟩
  have hBoth : ∀ declaration stamp,
      (r.stamps.set batch.instanceId stamp).keys =
        (r.byInstance.set batch.instanceId declaration).keys := by
    intro declaration stamp
    rw [keys_set, keys_set, h.instances]
  unfold ServerConfigRegistry.consume
  split
  · exact h
  · dsimp only
    split
    · exact ⟨hBoth _ _, h.setDeclaration hFresh⟩
    · rename_i stored hStored
      split
      · exact h
      · split
        · exact ⟨hBoth _ _, h.setDeclaration hFresh⟩
        · split
          · exact h
          · rename_i modules hModules
            refine ⟨?_, h.setDeclaration (named_declare (h.named _ modules hModules)
              ⟨batch.tier, batch.backend, batch.capacityBytes, batch.shared⟩)⟩
            have hMem : batch.instanceId ∈ r.byInstance.keys :=
              mem_keys_iff.mpr ⟨modules, hModules⟩
            rw [keys_set, if_pos hMem]
            exact h.instances

theorem Coherent.forget (h : r.Coherent) (i : String) : (r.forget i).Coherent where
  instances := by
    have hKeys : ∀ {υ : Type} (t : Dict String υ), (t.erase i).keys = t.keys.filter (· ≠ i) := by
      intro υ t
      simp only [Dict.keys, erase, filter_map]
      rfl
    change (r.stamps.erase i).keys = (r.byInstance.erase i).keys
    rw [hKeys, hKeys, h.instances]
  named := by
    intro j d hGet
    change (r.byInstance.erase i).get? j = some d at hGet
    obtain ⟨-, hGet⟩ := get?_erase_cases hGet
    exact h.named j d hGet

theorem ofList_values (h : ∀ e ∈ declaration.entries, e.1 = (e.2.tier, e.2.backend)) :
    ofList (declaration.values.map fun m => ((m.tier, m.backend), m)) = declaration := by
  have hEntries : (declaration.values.map fun m => ((m.tier, m.backend), m)) =
      declaration.entries := by
    unfold values
    rw [map_map]
    refine (map_congr_left fun e he => ?_).trans (map_id _)
    exact Prod.ext (h e he).symm rfl
  rw [hEntries]
  exact ext (entries_ofList declaration.nodup)

theorem restoreDeclarations_captured (entries : List (String × Nat × Nat))
    (f : String → Declaration) (t : ServerConfigRegistry)
    (hNamed : ∀ e ∈ entries, ∀ m ∈ (f e.1).entries, m.1 = (m.2.tier, m.2.backend)) :
    restoreDeclarations (entries.map fun e =>
        some (e.1, e.2.1, e.2.2, (f e.1).values.map some)) t =
      ⟨(entries.map fun e => (e.1, f e.1)).foldl (fun d e => d.set e.1 e.2) t.byInstance,
        entries.foldl (fun d e => d.set e.1 e.2) t.stamps⟩ := by
  induction entries generalizing t with
  | nil => rfl
  | cons e rest ih =>
    rw [map_cons, restoreDeclarations, isReadable_map_some, readable_map_some,
      ofList_values (hNamed e mem_cons_self)]
    exact ih _ fun e' he' => hNamed e' (mem_cons_of_mem _ he')

theorem Coherent.restore_capture (h : r.Coherent) : new.restore r.capture = r := by
  let f := fun i => (r.byInstance.get? i).getD .empty
  have hNamed : ∀ e ∈ r.stamps.entries, ∀ m ∈ (f e.1).entries, m.1 = (m.2.tier, m.2.backend) := by
    intro e _
    dsimp only [f]
    cases hGet : r.byInstance.get? e.1 with
    | none => exact nofun
    | some declaration => exact h.named _ declaration hGet
  have hEntries : (r.stamps.entries.map fun e => (e.1, f e.1)) = r.byInstance.entries := by
    have hKeys : (r.stamps.entries.map fun e => (e.1, f e.1)) =
        r.stamps.keys.map fun i => (i, f i) := by
      simp [Dict.keys, Function.comp_def]
    rw [hKeys, h.instances]
    simp only [Dict.keys, map_map]
    refine (map_congr_left fun e he => ?_).trans (map_id _)
    have hGet : r.byInstance.get? e.1 = some e.2 := get?_eq_some_iff.mpr he
    simp [f, hGet]
  unfold restore
  rw [if_neg (by simp [new, size, empty])]
  refine (restoreDeclarations_captured r.stamps.entries f new hNamed).trans ?_
  rw [hEntries]
  have hLoad : ∀ {υ : Type} (t : Dict String υ),
      t.entries.foldl (fun d e => d.set e.1 e.2) (.empty : Dict String υ) = t :=
    fun t => ext (entries_ofList t.nodup)
  exact congrArg₂ ServerConfigRegistry.mk (hLoad _) (hLoad _)

end ServerConfigRegistry

/-- No destination is registered, as the coordinator builds the policy. -/
def Plain (p : IsolatedLRUEvictionPolicy) : Prop :=
  p.destinations = [] ∧ p.defaultDestination = .discard

namespace Plain

variable {p : IsolatedLRUEvictionPolicy}

theorem touchKey (h : Plain p) (key : ObjectKey) : Plain (p.touchKey key) := by
  unfold IsolatedLRUEvictionPolicy.touchKey
  split <;> exact h

theorem removeKey (h : Plain p) (key : ObjectKey) : Plain (p.removeKey key) := by
  unfold IsolatedLRUEvictionPolicy.removeKey
  split
  · exact h
  · dsimp only
    split <;> exact h

theorem consume {c : FleetEvictionController} (h : Plain c.policy) (usage : CacheUsageManager)
    (batch : CacheEventBatch) : Plain (c.consume usage batch).policy := by
  unfold FleetEvictionController.consume
  split
  · exact h
  · refine List.foldlRecOn _ _ (motive := Plain) h fun p hp entry _ => ?_
    unfold FleetEvictionController.applyEntry
    split
    · exact hp
    · exact hp.touchKey entry.key
    · split
      · exact hp.removeKey entry.key
      · exact hp
    · exact hp

theorem restore_capture (h : Plain p) : restoreOrder (.new .discard) (captureOrder p) = p := by
  have hReadable : (captureOrder p).values.all isReadable = true := by
    unfold captureOrder mapValues values
    rw [all_eq_true]
    intro keys hKeys
    obtain ⟨e, he, rfl⟩ := mem_map.mp hKeys
    obtain ⟨e', -, rfl⟩ := mem_map.mp he
    exact isReadable_map_some _
  unfold restoreOrder
  rw [if_pos hReadable]
  obtain ⟨order, destinations, defaultDestination⟩ := p
  obtain ⟨rfl, rfl⟩ := h
  refine congrArg (fun order => IsolatedLRUEvictionPolicy.mk order [] .discard) (ext ?_)
  simp only [captureOrder, mapValues, map_map]
  refine (map_congr_left fun e _ => ?_).trans (map_id _)
  refine Prod.ext rfl (ext ?_)
  simp only [Function.comp_apply, readable_map_some]
  have hEntries : e.2.keys.map (fun key => (key, ())) = e.2.entries := by
    simp [Dict.keys, Function.comp_def]
  rw [hEntries]
  exact entries_ofList e.2.nodup

end Plain

end LMCache.Coordinator
