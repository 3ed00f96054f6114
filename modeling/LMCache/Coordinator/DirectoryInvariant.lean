import LMCache.Coordinator.DirectorySpec

/-!
# The invariant of the key directory

Batches and fences keep the four tables consistent, and so does the restore of a captured
directory, which rebuilds the token bindings from the keys.
-/

namespace LMCache.Coordinator

open Lib Serde Dict List Option

namespace KeyDirectory

variable {d : KeyDirectory} {batch : CacheEventBatch} {entry : CacheEventEntry}
  {key k : ObjectKey} {instanceId : String}

/-- No record is empty, and the bindings are those of the keys of the directory. -/
structure Booked (d : KeyDirectory) : Prop where
  nonempty : ∀ k record, d.directory.get? k = some record → record.placements ≠ []
  bound : ∀ chunkHash k, d.tokenBindings.Bound chunkHash k ↔
    k.chunkHash = chunkHash ∧ k ∈ d.directory.keys
  inhabited : d.tokenBindings.Inhabited

structure Consistent (d : KeyDirectory) : Prop where
  booked : d.Booked
  distinct : ∀ k, ((d.placements k).map Placement.identity).Nodup
  indexed : d.Indexed

variable {index : Dict String KeySet}

theorem Booked.enter (h : d.Booked) {record : KeyRecord} (hRecord : record.placements ≠ []) :
    Booked ⟨d.directory.set key record, index, d.tokenBindings.addKey key⟩ where
  nonempty := by
    intro k found hFound
    obtain ⟨-, rfl⟩ | ⟨-, hFound⟩ := get?_set_cases hFound
    · exact hRecord
    · exact h.nonempty k found hFound
  bound := by
    intro chunkHash k
    rw [TokenBindings.bound_addKey, mem_keys_set, h.bound]
    constructor
    · rintro (⟨rfl, rfl⟩ | ⟨hHash, hMem⟩)
      · exact ⟨rfl, Or.inl rfl⟩
      · exact ⟨hHash, Or.inr hMem⟩
    · rintro ⟨rfl, rfl | hMem⟩
      · exact Or.inl ⟨rfl, rfl⟩
      · exact Or.inr ⟨rfl, hMem⟩
  inhabited := h.inhabited.addKey key

theorem Booked.replace (h : d.Booked) {old record : KeyRecord}
    (hOld : d.directory.get? key = some old) (hRecord : record.placements ≠ []) :
    Booked ⟨d.directory.set key record, index, d.tokenBindings⟩ where
  nonempty := by
    intro k found hFound
    obtain ⟨-, rfl⟩ | ⟨-, hFound⟩ := get?_set_cases hFound
    · exact hRecord
    · exact h.nonempty k found hFound
  bound := by
    intro chunkHash k
    rw [h.bound, mem_keys_set]
    refine and_congr_right fun _ => ⟨Or.inr, ?_⟩
    rintro (rfl | hMem)
    · exact Dict.mem_keys_iff.mpr ⟨old, hOld⟩
    · exact hMem
  inhabited := h.inhabited

theorem Booked.withL1Keys (h : d.Booked) (keys : KeySet) : (d.setL1Keys instanceId keys).Booked :=
  ⟨h.nonempty, h.bound, h.inhabited⟩

theorem Booked.fill (h : d.Booked) (chunkHash : Bytes) (entry : CacheEventEntry) :
    Booked { d with tokenBindings := d.tokenBindings.fill chunkHash entry } where
  nonempty := h.nonempty
  bound := fun hash k => (TokenBindings.bound_fill entry chunkHash).trans (h.bound hash k)
  inhabited := h.inhabited.fill chunkHash entry

theorem Booked.keepPlacements (h : d.Booked) {record : KeyRecord}
    (hRecord : d.directory.get? key = some record) (kept : List Placement) :
    (d.keepPlacements key record kept).Booked := by
  unfold KeyDirectory.keepPlacements
  split
  · refine ⟨?_, ?_, h.inhabited.removeKey key⟩
    · intro k found hFound
      obtain ⟨-, hFound⟩ := get?_erase_cases hFound
      exact h.nonempty k found hFound
    · intro chunkHash k
      rw [TokenBindings.bound_removeKey, h.bound, mem_keys_erase]
      constructor
      · rintro ⟨⟨rfl, hMem⟩, hOther⟩
        exact ⟨rfl, fun hEq => hOther ⟨hEq, by rw [hEq]⟩, hMem⟩
      · rintro ⟨rfl, hNe, hMem⟩
        exact ⟨⟨rfl, hMem⟩, fun hEq => hNe hEq.1⟩
  · rename_i hNonempty
    exact h.replace hRecord (by simpa using hNonempty)

theorem Booked.applyStore (h : d.Booked) (batch : CacheEventBatch) (entry : CacheEventEntry) :
    (d.applyStore batch entry).Booked := by
  have hFilled : ∀ {stored : KeyDirectory}, stored.Booked → Booked
      { stored with
        tokenBindings :=
          if entry.tokenIds.isEmpty then stored.tokenBindings
          else stored.tokenBindings.fill entry.key.chunkHash entry } := by
    intro stored hStored
    split
    · exact hStored
    · exact hStored.fill entry.key.chunkHash entry
  unfold KeyDirectory.applyStore
  dsimp only
  cases hOld : d.directory.get? entry.key with
  | none =>
    split
    · exact (hFilled (h.enter (upsert_ne_nil _ _ _))).withL1Keys _
    · exact hFilled (h.enter (upsert_ne_nil _ _ _))
  | some old =>
    split
    · exact (hFilled (h.replace hOld (upsert_ne_nil _ _ _))).withL1Keys _
    · exact hFilled (h.replace hOld (upsert_ne_nil _ _ _))

theorem Booked.applyEntry (h : d.Booked) (batch : CacheEventBatch) (entry : CacheEventEntry) :
    (applyEntry batch d entry).Booked := by
  unfold KeyDirectory.applyEntry
  split
  · exact h.applyStore batch entry
  · unfold applyDelete
    dsimp only
    split
    · exact h
    · rename_i record hRecord
      split
      · exact (h.keepPlacements hRecord _).withL1Keys _
      · exact h.keepPlacements hRecord _
  · unfold applyAccess
    split
    · exact h
    · rename_i record hRecord
      refine h.replace hRecord ?_
      exact h.nonempty _ record hRecord
  · exact h

theorem Booked.dropL1Key (h : d.Booked) (instanceId : String) (key : ObjectKey) :
    (dropL1Key instanceId d key).Booked := by
  unfold KeyDirectory.dropL1Key
  split
  · exact h
  · rename_i record hRecord
    exact h.keepPlacements hRecord _

theorem distinct_revise (batch : CacheEventBatch) (entry : CacheEventEntry)
    {placements : List Placement} (h : (placements.map Placement.identity).Nodup) :
    ((batch.revise entry placements).map Placement.identity).Nodup := by
  unfold CacheEventBatch.revise
  rw [matchesBatch_eq]
  split
  · exact nodup_upsert (batch.identity_placement entry) h
  · exact h.sublist (eraseP_sublist.map _)
  · exact h

theorem distinct_applyEntry (h : ∀ k, ((d.placements k).map Placement.identity).Nodup)
    (batch : CacheEventBatch) (entry : CacheEventEntry) (k : ObjectKey) :
    (((applyEntry batch d entry).placements k).map Placement.identity).Nodup := by
  rw [placements_applyEntry]
  split
  · exact distinct_revise batch entry (h k)
  · exact h k

theorem Consistent.applyEntry (h : d.Consistent) (batch : CacheEventBatch)
    (entry : CacheEventEntry) : (applyEntry batch d entry).Consistent where
  booked := h.booked.applyEntry batch entry
  distinct := distinct_applyEntry h.distinct batch entry
  indexed := h.indexed.applyEntry batch entry

theorem Consistent.consume (h : d.Consistent) (batch : CacheEventBatch) :
    (d.consume batch).Consistent := by
  have hFold : ∀ (entries : List CacheEventEntry) (d : KeyDirectory), d.Consistent →
      (entries.foldl (KeyDirectory.applyEntry batch) d).Consistent := by
    intro entries
    induction entries with
    | nil => exact fun d hd => hd
    | cons entry rest ih => exact fun d hd => ih _ (hd.applyEntry batch entry)
  exact hFold batch.entries _
    ⟨h.booked.withL1Keys _, h.distinct, h.indexed.setDefault batch.instanceId⟩

theorem Consistent.fenceInstance (h : d.Consistent) (instanceId : String) :
    (d.fenceInstance instanceId).Consistent := by
  have hFold : ∀ (keys : List ObjectKey) (d : KeyDirectory), d.Booked →
      (keys.foldl (KeyDirectory.dropL1Key instanceId) d).Booked := by
    intro keys
    induction keys with
    | nil => exact fun d hd => hd
    | cons key rest ih => exact fun d hd => ih _ (hd.dropL1Key instanceId key)
  have hBooked := hFold (d.l1Keys instanceId).keys d h.booked
  refine ⟨⟨hBooked.nonempty, hBooked.bound, hBooked.inhabited⟩, fun k => ?_,
    h.indexed.fenceInstance instanceId⟩
  rw [h.indexed.placements_fenceInstance]
  exact (h.distinct k).sublist (filter_sublist.map _)

theorem consistent_new : new.Consistent where
  booked := ⟨nofun, fun _ _ => ⟨nofun, nofun⟩, nofun⟩
  distinct := fun _ => nodup_nil
  indexed := fun _ _ hp => nomatch hp

end KeyDirectory

theorem readable_map_some {α : Type} (l : List α) : readable (l.map some) = l := by
  induction l with
  | nil => rfl
  | cons a rest ih => simp [readable, ih]

theorem isReadable_map_some {α : Type} (l : List α) : isReadable (l.map some) = true := by
  simp [isReadable]

namespace KeyDirectory

variable {d : KeyDirectory}

theorem foldl_restoreKey (items : List (ObjectKey × ℚ × List Placement)) (d : KeyDirectory) :
    (items.foldl restoreKey d).directory =
        items.foldl (fun t e => t.set e.1 ⟨e.2.2, e.2.1⟩) d.directory ∧
      (items.foldl restoreKey d).l1KeysByInstance = d.l1KeysByInstance := by
  induction items generalizing d with
  | nil => exact ⟨rfl, rfl⟩
  | cons item rest ih => exact ih (restoreKey d item)

theorem Booked.restoreKeys (h : d.Booked) (items : List (ObjectKey × ℚ × List Placement))
    (hItems : ∀ item ∈ items, item.2.2 ≠ []) : (items.foldl restoreKey d).Booked := by
  induction items generalizing d with
  | nil => exact h
  | cons item rest ih =>
    refine ih ?_ fun item' hItem => hItems item' (mem_cons_of_mem _ hItem)
    exact h.enter (hItems item mem_cons_self)

end KeyDirectory

def TokenBinding.content (binding : TokenBinding) : List UInt32 × Option Nat :=
  (binding.tokenIds, binding.tokenOffset)

theorem TokenBindings.bound_iff_of_keys {bindings bindings' : TokenBindings} {chunkHash : Bytes}
    (h : (bindings'.get? chunkHash).map TokenBinding.keys =
      (bindings.get? chunkHash).map TokenBinding.keys) (k : ObjectKey) :
    bindings'.Bound chunkHash k ↔ bindings.Bound chunkHash k := by
  unfold Bound
  cases hOld : bindings.get? chunkHash with
  | none =>
    rw [hOld] at h
    simp [map_eq_none_iff.mp h]
  | some binding =>
    rw [hOld] at h
    obtain ⟨binding', hNew, hKeys⟩ := map_eq_some_iff.mp h
    simp [hNew, hKeys]

namespace KeyDirectory

variable {d : KeyDirectory}

theorem restoreBindings_captured (entries : List (Bytes × TokenBinding))
    (hNodup : (entries.map Prod.fst).Nodup) (d : KeyDirectory) :
    ∃ bindings, restoreBindings (entries.map fun e =>
        some (e.1, e.2.tokenOffset, Storable.store e.2.tokenIds)) d =
          ({ d with tokenBindings := bindings }, true) ∧
      (∀ chunkHash, (bindings.get? chunkHash).map TokenBinding.keys =
        (d.tokenBindings.get? chunkHash).map TokenBinding.keys) ∧
      ∀ chunkHash, (bindings.get? chunkHash).map TokenBinding.content =
        (d.tokenBindings.get? chunkHash).map fun binding =>
          ((Dict.find chunkHash entries).getD binding).content := by
  induction entries generalizing d with
  | nil => exact ⟨d.tokenBindings, rfl, fun _ => rfl, fun _ => rfl⟩
  | cons e rest ih =>
    rw [map_cons, nodup_cons] at hNodup
    rw [map_cons, restoreBindings]
    cases hOld : d.tokenBindings.get? e.1 with
    | none =>
      obtain ⟨bindings, hRestore, hKeys, hContent⟩ := ih hNodup.2 d
      refine ⟨bindings, hRestore, hKeys, fun chunkHash => ?_⟩
      rw [hContent, Dict.find]
      split
      · rename_i hHash
        rw [← hHash, hOld]
        rfl
      · rfl
    | some binding =>
      have hWords : (Storable.store e.2.tokenIds).length % 4 = 0 := by
        rw [Storable.length_store]
        exact Nat.mul_mod_left _ 4
      have hLoad : (Storable.load (Storable.store e.2.tokenIds) : List UInt32) = e.2.tokenIds :=
        Storable.load_store _
      rw [hLoad]
      simp only [hWords, ne_eq, not_true_eq_false, if_false]
      obtain ⟨bindings, hRestore, hKeys, hContent⟩ := ih hNodup.2 { d with
        tokenBindings := d.tokenBindings.set e.1
          { binding with tokenIds := e.2.tokenIds, tokenOffset := e.2.tokenOffset } }
      refine ⟨bindings, hRestore, fun chunkHash => ?_, fun chunkHash => ?_⟩
      · rw [hKeys, get?_set]
        split
        · rename_i hHash
          rw [← hHash, hOld]
          rfl
        · rfl
      · rw [hContent, get?_set, Dict.find]
        split
        · rename_i hHash
          have hRest : Dict.find chunkHash rest = none :=
            find_eq_none_iff.mpr (hHash ▸ hNodup.1)
          rw [← hHash, hOld] at *
          rw [hRest]
          rfl
        · rfl

theorem cited_captured (table keys : List ObjectKey) :
    (keys.filterMap fun k => (table.idxOf? k).map fun i : Nat => some (Int.ofNat i)).mapM
        (citedKey table) = some (keys.filter fun k => k ∈ table) := by
  induction keys with
  | nil => rfl
  | cons k rest ih =>
    cases hAt : table.idxOf? k with
    | none =>
      have hAbsent : k ∉ table := idxOf?_eq_none_iff.mp hAt
      simpa [hAt, hAbsent] using ih
    | some n =>
      have hFound := of_findIdx?_eq_some hAt
      have hGet : table[n]? = some k := by
        cases hGet : table[n]? with
        | none => simp [hGet] at hFound
        | some k' =>
          have hEq : k' = k := by simpa [hGet] using hFound
          rw [hEq]
      have hMem : k ∈ table := mem_of_getElem? hGet
      have hCited : citedKey table (some (Int.ofNat n)) = some k := by
        simp [citedKey, hGet]
      rw [filterMap_cons, hAt, map_some]
      dsimp only
      rw [mapM_cons, hCited, ih]
      simp [hMem]

/-- The entries of a reverse index, less the keys that are not in the table. -/
def restrictIndex (table : List ObjectKey) (entries : List (String × KeySet)) :
    List (String × KeySet) :=
  entries.map fun e =>
    (e.1, Dict.ofList ((e.2.keys.filter fun k => k ∈ table).map fun k => (k, ())))

theorem restoreIndex_captured (table : List ObjectKey) (entries : List (String × KeySet))
    (d : KeyDirectory) :
    restoreIndex table (entries.map fun e => (e.1, e.2.keys.filterMap fun k =>
        (table.idxOf? k).map fun i : Nat => some (Int.ofNat i))) d =
      (⟨d.directory, (restrictIndex table entries).foldl (fun t e => t.set e.1 e.2)
        d.l1KeysByInstance, d.tokenBindings⟩, true) := by
  induction entries generalizing d with
  | nil => rfl
  | cons e rest ih =>
    rw [map_cons, restoreIndex, cited_captured]
    exact ih _

theorem mem_ofList_keys {keys : List ObjectKey} {k : ObjectKey} :
    k ∈ (Dict.ofList (keys.map fun k => (k, ()))).keys ↔ k ∈ keys := by
  rw [Dict.mem_keys_iff]
  constructor
  · rintro ⟨v, hv⟩
    obtain ⟨k', hk', hEq⟩ := List.mem_map.mp (mem_of_get?_ofList hv)
    cases hEq
    exact hk'
  · intro hk
    exact exists_get?_ofList (v := ()) (List.mem_map.mpr ⟨k, hk, rfl⟩)

theorem Consistent.restore_capture (h : d.Consistent) :
    (new.restore d.capture).2 = true ∧
      (new.restore d.capture).1.directory = d.directory ∧
      (∀ chunkHash,
        ((new.restore d.capture).1.tokenBindings.get? chunkHash).map TokenBinding.content =
          (d.tokenBindings.get? chunkHash).map TokenBinding.content) ∧
      (new.restore d.capture).1.Consistent := by
  let items := d.directory.entries.map fun e => (e.1, e.2.lastAccess, e.2.placements)
  have hKeys : d.capture.keys = items.map some := by simp [items, capture]
  have hTable : items.map Prod.fst = d.directory.keys := by
    simp [items, Dict.keys, Function.comp_def]
  have hDirectory : (items.foldl restoreKey new).directory = d.directory := by
    rw [(foldl_restoreKey items new).1]
    refine Dict.ext ?_
    simp only [items, foldl_map]
    rw [entries_foldl_set _ _ (by simpa [new, Dict.empty] using d.directory.nodup)]
    rfl
  have hBooked : (items.foldl restoreKey new).Booked := by
    refine consistent_new.booked.restoreKeys items fun item hItem => ?_
    obtain ⟨e, he, rfl⟩ := List.mem_map.mp hItem
    exact h.booked.nonempty e.1 e.2 (get?_eq_some_iff.mpr he)
  obtain ⟨bindings, hRestore, hBoundKeys, hContent⟩ :=
    restoreBindings_captured d.tokenBindings.entries d.tokenBindings.nodup
      (items.foldl restoreKey new)
  have hEq : new.restore d.capture =
      (⟨d.directory, (restrictIndex d.directory.keys d.l1KeysByInstance.entries).foldl
        (fun t e => t.set e.1 e.2) .empty, bindings⟩, true) := by
    unfold restore
    rw [if_neg (by simp [new, Dict.size, Dict.empty])]
    dsimp only
    rw [hKeys, readable_map_some, isReadable_map_some, hTable]
    simp only [Bool.not_true, Bool.false_eq_true, if_false]
    rw [show d.capture.bindings = d.tokenBindings.entries.map fun e =>
      some (e.1, e.2.tokenOffset, Storable.store e.2.tokenIds) from rfl, hRestore]
    simp only [Bool.not_true, Bool.false_eq_true, if_false]
    refine (restoreIndex_captured d.directory.keys d.l1KeysByInstance.entries _).trans ?_
    rw [hDirectory, (foldl_restoreKey items new).2]
    rfl
  rw [hEq]
  refine ⟨rfl, rfl, fun chunkHash => ?_, ?_⟩
  · -- both have a binding for the same chunk hashes, those of the keys of the directory
    rw [hContent]
    cases hOld : d.tokenBindings.get? chunkHash with
    | none =>
      refine map_eq_none_iff.mpr ?_
      cases hNew : (items.foldl restoreKey new).tokenBindings.get? chunkHash with
      | none => rfl
      | some binding =>
        obtain ⟨k, hk⟩ := exists_mem_of_ne_nil _ (hBooked.inhabited chunkHash binding hNew)
        have hMem := (hBooked.bound chunkHash k).mp ⟨binding, hNew, hk⟩
        rw [hDirectory] at hMem
        obtain ⟨binding', hBinding', -⟩ := (h.booked.bound chunkHash k).mpr hMem
        cases hOld.symm.trans hBinding'
    | some binding =>
      obtain ⟨k, hk⟩ := exists_mem_of_ne_nil _ (h.booked.inhabited chunkHash binding hOld)
      have hMem := (h.booked.bound chunkHash k).mp ⟨binding, hOld, hk⟩
      rw [← hDirectory] at hMem
      obtain ⟨binding', hNew, -⟩ := (hBooked.bound chunkHash k).mpr hMem
      rw [hNew, show Dict.find chunkHash d.tokenBindings.entries = some binding from hOld]
      rfl
  · refine ⟨⟨?_, ?_, ?_⟩, h.distinct, ?_⟩
    · exact h.booked.nonempty
    · intro chunkHash k
      rw [TokenBindings.bound_iff_of_keys (hBoundKeys chunkHash), hBooked.bound, hDirectory]
    · intro chunkHash binding hBinding
      have hOld := hBoundKeys chunkHash
      rw [hBinding] at hOld
      obtain ⟨old, hGet, hSame⟩ := map_eq_some_iff.mp hOld.symm
      rw [← hSame]
      exact hBooked.inhabited chunkHash old hGet
    · intro k p hp hTier
      have hIndexed := h.indexed k p hp hTier
      have hMem : k ∈ d.directory.keys := by
        rw [Dict.mem_keys_iff]
        cases hRecord : d.directory.get? k with
        | none =>
          rw [placements, show Dict.get? _ k = none from hRecord] at hp
          cases hp
        | some record => exact ⟨record, rfl⟩
      unfold l1Keys at hIndexed ⊢
      cases hSet : d.l1KeysByInstance.get? p.instanceId with
      | none =>
        rw [hSet] at hIndexed
        cases hIndexed
      | some keys =>
        rw [hSet] at hIndexed
        rw [get?_foldl_set _ (by
          simpa [restrictIndex, List.map_map, Function.comp_def] using d.l1KeysByInstance.nodup)]
        have hFind : Dict.find p.instanceId
            (restrictIndex d.directory.keys d.l1KeysByInstance.entries) =
            some (Dict.ofList ((keys.keys.filter fun k => k ∈ d.directory.keys).map
              fun k => (k, ()))) := by
          refine (get?_mapValues (fun keys : KeySet => Dict.ofList
            ((keys.keys.filter fun k => k ∈ d.directory.keys).map fun k => (k, ())))
            d.l1KeysByInstance p.instanceId).trans ?_
          rw [hSet]
          rfl
        rw [hFind]
        refine mem_ofList_keys.mpr (mem_filter.mpr ⟨hIndexed, by simpa using hMem⟩)

/-- Batches, fences, and restarts that restore the last capture. -/
inductive Reachable : KeyDirectory → Prop
  | new : Reachable new
  | consume {d : KeyDirectory} (batch : CacheEventBatch) : Reachable d → Reachable (d.consume batch)
  | fenceInstance {d : KeyDirectory} (instanceId : String) :
      Reachable d → Reachable (d.fenceInstance instanceId)
  | restore {d : KeyDirectory} : Reachable d → Reachable (KeyDirectory.new.restore d.capture).1

theorem Reachable.consistent (h : d.Reachable) : d.Consistent := by
  induction h with
  | new => exact consistent_new
  | consume batch _ ih => exact ih.consume batch
  | fenceInstance instanceId _ ih => exact ih.fenceInstance instanceId
  | restore _ ih => exact ih.restore_capture.2.2.2

/-- The tables of a reachable directory agree, and a fence takes the L1 placements of its
instance and nothing else. -/
theorem Reachable.tables_agree (h : d.Reachable) :
    (∀ k record, d.directory.get? k = some record →
      record.placements ≠ [] ∧ (record.placements.map Placement.identity).Nodup) ∧
    (∀ chunkHash, (∃ binding, d.tokenBindings.get? chunkHash = some binding) ↔
      ∃ k ∈ d.directory.keys, k.chunkHash = chunkHash) ∧
    (∀ chunkHash binding, d.tokenBindings.get? chunkHash = some binding →
      ∀ k, k ∈ binding.keys.keys ↔ k ∈ d.directory.keys ∧ k.chunkHash = chunkHash) ∧
    (∀ k, ∀ p ∈ d.placements k, p.tier = .l1 → k ∈ (d.l1Keys p.instanceId).keys) ∧
    ∀ instanceId k, (d.fenceInstance instanceId).placements k =
      (d.placements k).filter fun p => ¬ (p.tier = .l1 ∧ p.instanceId = instanceId) := by
  have hConsistent := h.consistent
  have hBound := hConsistent.booked.bound
  refine ⟨?_, ?_, ?_, hConsistent.indexed, ?_⟩
  · intro k record hRecord
    refine ⟨hConsistent.booked.nonempty k record hRecord, ?_⟩
    rw [← placements_of_get? hRecord]
    exact hConsistent.distinct k
  · intro chunkHash
    constructor
    · rintro ⟨binding, hBinding⟩
      obtain ⟨k, hk⟩ := List.exists_mem_of_ne_nil _
        (hConsistent.booked.inhabited chunkHash binding hBinding)
      obtain ⟨hHash, hMem⟩ := (hBound chunkHash k).mp ⟨binding, hBinding, hk⟩
      exact ⟨k, hMem, hHash⟩
    · rintro ⟨k, hMem, hHash⟩
      obtain ⟨binding, hBinding, -⟩ := (hBound chunkHash k).mpr ⟨hHash, hMem⟩
      exact ⟨binding, hBinding⟩
  · intro chunkHash binding hBinding k
    rw [and_comm, ← hBound]
    constructor
    · exact fun hk => ⟨binding, hBinding, hk⟩
    · rintro ⟨found, hFound, hk⟩
      rwa [Option.some.inj (hBinding.symm.trans hFound)]
  · intro instanceId k
    rw [hConsistent.indexed.placements_fenceInstance]
    refine List.filter_congr fun p _ => ?_
    rw [Placement.fencedBy, decide_not]

end KeyDirectory

namespace Sample

def key : ObjectKey := ⟨[1], "m", 0, 0, ""⟩

theorem name_ne : "a" ≠ "" := by decide

theorem other_name_ne : "b" ≠ "" := by decide

def stored (instanceId : String) (h : instanceId ≠ "") (tier : Tier) : CacheEventBatch where
  instanceId := instanceId
  incarnation := 1
  seq := 1
  eventType := .store
  tier := tier
  backend := "dram"
  entries := [⟨key, 4, [7], some 0⟩]
  shared := false
  ts := 0
  capacityBytes := 0
  capacityRevision := 0
  instanceId_ne := h
  backend_ne := by decide
  config_empty := nofun
  seq_pos := by decide
  ts_nonneg := le_refl 0

/-- Two instances hold the key in L1, one of them also in L2. -/
def directory : KeyDirectory :=
  ((KeyDirectory.new.consume (stored "a" name_ne .l1)).consume
    (stored "a" name_ne .l2)).consume (stored "b" other_name_ne .l1)

end Sample

namespace KeyDirectory

theorem restored_sample_fenced :
    ((new.restore Sample.directory.capture).1.placements Sample.key).length = 3 ∧
      ((new.restore Sample.directory.capture).1.fenceInstance "a").placements Sample.key =
        ((new.restore Sample.directory.capture).1.placements Sample.key).filter fun p =>
          ¬ (p.tier = .l1 ∧ p.instanceId = "a") := by
  have hReachable : Sample.directory.Reachable := .consume _ (.consume _ (.consume _ .new))
  refine ⟨?_, (Reachable.tables_agree (.restore hReachable)).2.2.2.2 "a" Sample.key⟩
  rw [show (new.restore Sample.directory.capture).1.placements Sample.key =
    Sample.directory.placements Sample.key by
      rw [placements, hReachable.consistent.restore_capture.2.1]; rfl]
  rfl

end KeyDirectory

end LMCache.Coordinator
