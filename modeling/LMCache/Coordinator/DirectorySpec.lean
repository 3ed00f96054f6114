import LMCache.Coordinator.KeyDirectory

/-!
# What the key directory holds

The placements of a key after a batch and after a fence, and the invariant of the four tables:
records are not empty and hold one placement per identity, the bindings of a chunk hash are the
keys with that hash, and the reverse index has every key with an L1 placement of the instance.
-/

namespace LMCache.Coordinator

open Lib Serde Dict List

theorem Placement.matchesBatch_iff (p : Placement) (batch : CacheEventBatch) :
    p.matchesBatch batch = true ↔ p.identity = batch.identity := by
  simp only [matchesBatch, identity, CacheEventBatch.identity, PlacementIdentity.mk.injEq,
    Bool.and_eq_true, Bool.or_eq_true, beq_iff_eq]
  cases hBatch : batch.shared <;> cases hShared : p.shared <;> simp [and_assoc]

theorem matchesBatch_eq (batch : CacheEventBatch) :
    (fun p : Placement => p.matchesBatch batch) = fun p =>
      decide (p.identity = batch.identity) := by
  funext p
  rw [Bool.eq_iff_iff, p.matchesBatch_iff, decide_eq_true_iff]

theorem CacheEventBatch.identity_placement (batch : CacheEventBatch) (entry : CacheEventEntry) :
    (batch.placement entry).identity = batch.identity := rfl

namespace TokenBindings

variable {bindings : TokenBindings} {key k : ObjectKey} {chunkHash : Bytes}

def Bound (bindings : TokenBindings) (chunkHash : Bytes) (k : ObjectKey) : Prop :=
  ∃ binding, bindings.get? chunkHash = some binding ∧ k ∈ binding.keys.keys

def Inhabited (bindings : TokenBindings) : Prop :=
  ∀ chunkHash binding, bindings.get? chunkHash = some binding → binding.keys.keys ≠ []

theorem bound_addKey : (bindings.addKey key).Bound chunkHash k ↔
    (k = key ∧ chunkHash = key.chunkHash) ∨ bindings.Bound chunkHash k := by
  unfold Bound addKey
  by_cases hHash : key.chunkHash = chunkHash
  · subst hHash
    cases hOld : bindings.get? key.chunkHash with
    | none =>
      have hEmpty : k ∉ (Dict.empty : KeySet).keys := not_mem_nil
      simp [mem_keys_set, hEmpty]
    | some binding => simp [mem_keys_set]
  · cases hOld : bindings.get? key.chunkHash <;>
      simp [get?_set_ne _ hHash, Ne.symm hHash]

theorem Inhabited.addKey (h : bindings.Inhabited) (key : ObjectKey) :
    (bindings.addKey key).Inhabited := by
  intro chunkHash binding hBinding
  unfold TokenBindings.addKey at hBinding
  split at hBinding <;> rw [get?_set] at hBinding <;> split at hBinding
  · obtain rfl := Option.some.inj hBinding
    exact ne_nil_of_mem (mem_keys_set.mpr (Or.inl rfl))
  · exact h chunkHash binding hBinding
  · obtain rfl := Option.some.inj hBinding
    exact ne_nil_of_mem (mem_keys_set.mpr (Or.inl rfl))
  · exact h chunkHash binding hBinding

theorem bound_removeKey : (bindings.removeKey key).Bound chunkHash k ↔
    bindings.Bound chunkHash k ∧ ¬ (k = key ∧ chunkHash = key.chunkHash) := by
  unfold Bound removeKey
  by_cases hHash : key.chunkHash = chunkHash
  · subst hHash
    cases hOld : bindings.get? key.chunkHash with
    | none => simp [hOld]
    | some binding =>
      dsimp only
      split
      · rename_i hEmpty
        have hNone : ∀ k', ¬ (k' ≠ key ∧ k' ∈ binding.keys.keys) := by
          intro k' hk'
          have hMem := mem_keys_erase.mpr hk'
          rw [List.isEmpty_iff.mp hEmpty] at hMem
          cases hMem
        simp only [get?_erase_self, reduceCtorEq, false_and, exists_false, Option.some.injEq,
          exists_eq_left', and_true, false_iff, not_and, not_not]
        intro hk
        by_contra hNe
        exact hNone k ⟨hNe, hk⟩
      · simp [mem_keys_erase, and_comm]
  · cases hOld : bindings.get? key.chunkHash with
    | none => simp [Ne.symm hHash]
    | some binding =>
      dsimp only
      split
      · simp [get?_erase_ne _ hHash, Ne.symm hHash]
      · simp [get?_set_ne _ hHash, Ne.symm hHash]

theorem Inhabited.removeKey (h : bindings.Inhabited) (key : ObjectKey) :
    (bindings.removeKey key).Inhabited := by
  intro chunkHash binding hBinding
  unfold TokenBindings.removeKey at hBinding
  split at hBinding
  · exact h chunkHash binding hBinding
  · dsimp only at hBinding
    split at hBinding
    · obtain ⟨-, hBinding⟩ := get?_erase_cases hBinding
      exact h chunkHash binding hBinding
    · rename_i hNonempty
      obtain ⟨-, rfl⟩ | ⟨-, hBinding⟩ := get?_set_cases hBinding
      · simpa using hNonempty
      · exact h chunkHash binding hBinding

theorem bound_fill (entry : CacheEventEntry) (filled : Bytes) :
    (bindings.fill filled entry).Bound chunkHash k ↔ bindings.Bound chunkHash k := by
  unfold Bound fill
  split
  · rename_i tokenIds binding hIds hBinding
    by_cases hHash : filled = chunkHash
    · subst hHash
      simp [hBinding]
    · simp [get?_set_ne _ hHash]
  · rfl

theorem Inhabited.fill (h : bindings.Inhabited) (filled : Bytes) (entry : CacheEventEntry) :
    (bindings.fill filled entry).Inhabited := by
  intro chunkHash binding hBinding
  unfold TokenBindings.fill at hBinding
  split at hBinding
  · rename_i tokenIds old hIds hOld
    obtain ⟨-, rfl⟩ | ⟨-, hBinding⟩ := get?_set_cases hBinding
    · exact h filled old hOld
    · exact h chunkHash binding hBinding
  · exact h chunkHash binding hBinding

end TokenBindings

/-- What one entry of a batch does to the placements of its key. -/
def CacheEventBatch.revise (batch : CacheEventBatch) (entry : CacheEventEntry)
    (placements : List Placement) : List Placement :=
  match batch.eventType with
  | .store => upsert (fun p => p.matchesBatch batch) (batch.placement entry) placements
  | .delete => placements.eraseP fun p => p.matchesBatch batch
  | _ => placements

namespace KeyDirectory

variable {d : KeyDirectory} {batch : CacheEventBatch} {entry : CacheEventEntry}
  {key k : ObjectKey} {instanceId i : String}

def placements (d : KeyDirectory) (k : ObjectKey) : List Placement :=
  ((d.directory.get? k).map (·.placements)).getD []

theorem placements_of_get? {record : KeyRecord} (h : d.directory.get? k = some record) :
    d.placements k = record.placements := by
  rw [placements, h]
  rfl

theorem placements_setL1Keys (keys : KeySet) :
    (d.setL1Keys instanceId keys).placements k = d.placements k := rfl

theorem l1Keys_setL1Keys (keys : KeySet) :
    (d.setL1Keys instanceId keys).l1Keys i = if instanceId = i then keys else d.l1Keys i := by
  simp only [l1Keys, setL1Keys, get?_set]
  split <;> rfl

theorem placements_keepPlacements (record : KeyRecord) (kept : List Placement) :
    (d.keepPlacements key record kept).placements k = if key = k then kept else d.placements k := by
  unfold keepPlacements placements
  split
  · rename_i hEmpty
    rw [get?_erase, List.isEmpty_iff.mp hEmpty]
    split <;> rfl
  · rw [get?_set]
    split <;> rfl

theorem l1Keys_keepPlacements (record : KeyRecord) (kept : List Placement) :
    (d.keepPlacements key record kept).l1Keys i = d.l1Keys i := by
  unfold keepPlacements l1Keys
  split <;> rfl

theorem placements_applyEntry (batch : CacheEventBatch) (d : KeyDirectory)
    (entry : CacheEventEntry) (k : ObjectKey) :
    (applyEntry batch d entry).placements k =
      if entry.key = k then batch.revise entry (d.placements k) else d.placements k := by
  unfold applyEntry CacheEventBatch.revise
  cases batch.eventType with
  | store =>
    dsimp only
    unfold applyStore
    dsimp only
    have hStored : ∀ (bindings : TokenBindings) (ts : ℚ), KeyDirectory.placements
        ⟨d.directory.set entry.key ⟨upsert (fun p => p.matchesBatch batch) (batch.placement entry)
          ((d.directory.get? entry.key).getD ⟨[], 0⟩).placements, ts⟩, d.l1KeysByInstance,
          bindings⟩ k =
        if entry.key = k then
          upsert (fun p => p.matchesBatch batch) (batch.placement entry) (d.placements k)
        else d.placements k := by
      intro bindings ts
      unfold placements
      rw [get?_set]
      split
      · rename_i hKey
        rw [hKey]
        cases d.directory.get? k <;> rfl
      · rfl
    split
    · rw [placements_setL1Keys]
      exact hStored _ _
    · exact hStored _ _
  | delete =>
    dsimp only
    unfold applyDelete
    dsimp only
    split
    · rename_i hNone
      split
      · rename_i hKey
        rw [placements, ← hKey, hNone]
        rfl
      · rfl
    · rename_i record hRecord
      have hKept : (d.keepPlacements entry.key record
          (record.placements.eraseP fun p => p.matchesBatch batch)).placements k =
          if entry.key = k then (d.placements k).eraseP fun p => p.matchesBatch batch
          else d.placements k := by
        rw [placements_keepPlacements]
        split
        · rename_i hKey
          rw [placements_of_get? (hKey ▸ hRecord)]
        · rfl
      split
      · exact hKept
      · exact hKept
  | access =>
    dsimp only
    rw [ite_self]
    unfold applyAccess
    split
    · rfl
    · rename_i record hRecord
      unfold placements
      rw [get?_set]
      split
      · rename_i hKey
        rw [← hKey, hRecord]
        rfl
      · rfl
  | config =>
    dsimp only
    rw [ite_self]

theorem placements_foldl (batch : CacheEventBatch) (entries : List CacheEventEntry)
    (d : KeyDirectory) (k : ObjectKey) :
    (entries.foldl (applyEntry batch) d).placements k =
      (entries.filter fun e => e.key = k).foldl (fun ps e => batch.revise e ps)
        (d.placements k) := by
  induction entries generalizing d with
  | nil => rfl
  | cons entry rest ih =>
    rw [foldl_cons, ih, placements_applyEntry]
    by_cases hKey : entry.key = k
    · simp [hKey]
    · simp [hKey]

theorem placements_consume (d : KeyDirectory) (batch : CacheEventBatch) (k : ObjectKey) :
    (d.consume batch).placements k =
      (batch.entries.filter fun e => e.key = k).foldl (fun ps e => batch.revise e ps)
        (d.placements k) :=
  placements_foldl batch batch.entries _ k

variable {p : Placement}

theorem mem_revise_cases {placements : List Placement} (h : p ∈ batch.revise entry placements) :
    p ∈ placements ∨ p = batch.placement entry := by
  unfold CacheEventBatch.revise at h
  split at h
  · exact (mem_of_mem_upsert h).symm
  · exact Or.inl (mem_of_mem_eraseP h)
  · exact Or.inl h

theorem mem_applyEntry_cases (h : p ∈ (applyEntry batch d entry).placements k) :
    p ∈ d.placements k ∨ p = batch.placement entry := by
  rw [placements_applyEntry] at h
  split at h
  · exact mem_revise_cases h
  · exact Or.inl h

theorem mem_consume_cases (h : p ∈ (d.consume batch).placements k) :
    p ∈ d.placements k ∨ ∃ e ∈ batch.entries, e.key = k ∧ p = batch.placement e := by
  rw [placements_consume] at h
  have hFold : ∀ (entries : List CacheEventEntry) (ps : List Placement),
      p ∈ entries.foldl (fun ps e => batch.revise e ps) ps →
        p ∈ ps ∨ ∃ e ∈ entries, p = batch.placement e := by
    intro entries
    induction entries with
    | nil => exact fun ps hp => Or.inl hp
    | cons e rest ih =>
      intro ps hp
      rcases ih _ hp with hRevised | ⟨e', he', rfl⟩
      · rcases mem_revise_cases hRevised with hOld | rfl
        · exact Or.inl hOld
        · exact Or.inr ⟨e, mem_cons_self, rfl⟩
      · exact Or.inr ⟨e', mem_cons_of_mem _ he', rfl⟩
  rcases hFold _ _ h with hOld | ⟨e, he, rfl⟩
  · exact Or.inl hOld
  · obtain ⟨hMem, hKey⟩ := mem_filter.mp he
    exact Or.inr ⟨e, hMem, by simpa using hKey, rfl⟩

theorem mem_of_mem_consume (h : p ∈ (d.consume batch).placements k)
    (hOther : p.instanceId ≠ batch.instanceId) : p ∈ d.placements k := by
  rcases mem_consume_cases h with hOld | ⟨e, -, -, rfl⟩
  · exact hOld
  · exact absurd rfl hOther

theorem placements_dropL1Key (instanceId : String) (d : KeyDirectory) (key k : ObjectKey) :
    (dropL1Key instanceId d key).placements k =
      if key = k then (d.placements k).filter fun p => !p.fencedBy instanceId
      else d.placements k := by
  unfold dropL1Key
  split
  · rename_i hNone
    split
    · rename_i hKey
      rw [placements, ← hKey, hNone]
      rfl
    · rfl
  · rename_i record hRecord
    rw [placements_keepPlacements]
    split
    · rename_i hKey
      rw [placements_of_get? (hKey ▸ hRecord)]
    · rfl

theorem placements_fenceInstance (d : KeyDirectory) (instanceId : String) (k : ObjectKey) :
    (d.fenceInstance instanceId).placements k =
      if k ∈ (d.l1Keys instanceId).keys then
        (d.placements k).filter fun p => !p.fencedBy instanceId
      else d.placements k := by
  have hFold : ∀ (keys : List ObjectKey) (d : KeyDirectory),
      (keys.foldl (dropL1Key instanceId) d).placements k =
        if k ∈ keys then (d.placements k).filter fun p => !p.fencedBy instanceId
        else d.placements k := by
    intro keys
    induction keys with
    | nil => simp
    | cons key rest ih =>
      intro d
      rw [foldl_cons, ih, placements_dropL1Key]
      by_cases hKey : key = k
      · subst hKey
        simp [filter_filter]
      · simp [hKey, Ne.symm hKey]
  exact hFold _ d

/-- Every key with an L1 placement of an instance is in the index of that instance. -/
def Indexed (d : KeyDirectory) : Prop :=
  ∀ k, ∀ p ∈ d.placements k, p.tier = .l1 → k ∈ (d.l1Keys p.instanceId).keys

theorem l1Keys_applyEntry_of_ne (h : batch.instanceId ≠ i) :
    (applyEntry batch d entry).l1Keys i = d.l1Keys i := by
  unfold applyEntry
  cases batch.eventType with
  | store =>
    dsimp only
    unfold applyStore
    dsimp only
    split
    · rw [l1Keys_setL1Keys, if_neg h]
      rfl
    · rfl
  | delete =>
    dsimp only
    unfold applyDelete
    dsimp only
    split
    · rfl
    · split
      · rw [l1Keys_setL1Keys, if_neg h, l1Keys_keepPlacements]
      · rw [l1Keys_keepPlacements]
  | access =>
    dsimp only
    unfold applyAccess
    split <;> rfl
  | config => rfl

theorem mem_l1Keys_applyEntry_of_ne (h : entry.key ≠ k) :
    k ∈ ((applyEntry batch d entry).l1Keys i).keys ↔ k ∈ (d.l1Keys i).keys := by
  by_cases hInstance : batch.instanceId = i
  · unfold applyEntry
    cases batch.eventType with
    | store =>
      dsimp only
      unfold applyStore
      dsimp only
      split
      · rw [l1Keys_setL1Keys, if_pos hInstance, mem_keys_set, hInstance]
        exact or_iff_right (Ne.symm h)
      · rfl
    | delete =>
      dsimp only
      unfold applyDelete
      dsimp only
      split
      · rfl
      · split
        · rw [l1Keys_setL1Keys, if_pos hInstance, mem_keys_erase, l1Keys_keepPlacements, hInstance]
          exact and_iff_right (Ne.symm h)
        · rw [l1Keys_keepPlacements]
    | access =>
      dsimp only
      unfold applyAccess
      split <;> rfl
    | config => rfl
  · rw [l1Keys_applyEntry_of_ne hInstance]

theorem Indexed.applyEntry (h : d.Indexed) (batch : CacheEventBatch) (entry : CacheEventEntry) :
    (applyEntry batch d entry).Indexed := by
  intro k p hp hTier
  rw [placements_applyEntry] at hp
  by_cases hKey : entry.key = k
  · rw [if_pos hKey] at hp
    subst hKey
    by_cases hInstance : batch.instanceId = p.instanceId
    · unfold CacheEventBatch.revise at hp
      unfold KeyDirectory.applyEntry
      cases hType : batch.eventType with
      | store =>
        rw [hType] at hp
        dsimp only at hp ⊢
        unfold applyStore
        dsimp only
        split
        · rw [l1Keys_setL1Keys, if_pos hInstance]
          exact mem_keys_set.mpr (Or.inl rfl)
        · rename_i hOther
          rcases mem_of_mem_upsert hp with rfl | hOld
          · exact absurd hTier hOther
          · exact h _ p hOld hTier
      | delete =>
        rw [hType] at hp
        dsimp only at hp ⊢
        unfold applyDelete
        dsimp only
        split
        · exact h _ p (mem_of_mem_eraseP hp) hTier
        · rename_i record hRecord
          rw [placements_of_get? hRecord] at hp
          split
          · rename_i hLast
            refine absurd (any_eq_true.mpr ⟨p, hp, ?_⟩) hLast.2
            simp [hTier, hInstance]
          · rw [l1Keys_keepPlacements]
            refine h _ p ?_ hTier
            rw [placements_of_get? hRecord]
            exact mem_of_mem_eraseP hp
      | access =>
        rw [hType] at hp
        dsimp only at hp ⊢
        unfold applyAccess
        split <;> exact h _ p hp hTier
      | config =>
        rw [hType] at hp
        exact h _ p hp hTier
    · rw [l1Keys_applyEntry_of_ne hInstance]
      refine h _ p ?_ hTier
      unfold CacheEventBatch.revise at hp
      split at hp
      · rcases mem_of_mem_upsert hp with rfl | hOld
        · exact absurd rfl hInstance
        · exact hOld
      · exact mem_of_mem_eraseP hp
      · exact hp
  · rw [if_neg hKey] at hp
    rw [mem_l1Keys_applyEntry_of_ne hKey]
    exact h k p hp hTier

theorem Indexed.setDefault (h : d.Indexed) (instanceId : String) :
    (d.setL1Keys instanceId (d.l1Keys instanceId)).Indexed := by
  intro k p hp hTier
  rw [l1Keys_setL1Keys]
  split
  · rename_i hInstance
    rw [hInstance]
    exact h k p hp hTier
  · exact h k p hp hTier

theorem Indexed.consume (h : d.Indexed) (batch : CacheEventBatch) : (d.consume batch).Indexed := by
  unfold KeyDirectory.consume
  have hFold : ∀ (entries : List CacheEventEntry) (d : KeyDirectory), d.Indexed →
      (entries.foldl (KeyDirectory.applyEntry batch) d).Indexed := by
    intro entries
    induction entries with
    | nil => exact fun d hd => hd
    | cons entry rest ih => exact fun d hd => ih _ (hd.applyEntry batch entry)
  exact hFold batch.entries _ (h.setDefault batch.instanceId)

theorem l1Keys_dropL1Key (instanceId : String) (d : KeyDirectory) (key : ObjectKey) :
    (dropL1Key instanceId d key).l1Keys i = d.l1Keys i := by
  unfold dropL1Key
  split
  · rfl
  · rw [l1Keys_keepPlacements]

theorem l1Keys_fenceInstance (d : KeyDirectory) (instanceId i : String) :
    (d.fenceInstance instanceId).l1Keys i = if instanceId = i then .empty else d.l1Keys i := by
  have hFold : ∀ (keys : List ObjectKey) (d : KeyDirectory),
      (keys.foldl (dropL1Key instanceId) d).l1Keys i = d.l1Keys i := by
    intro keys
    induction keys with
    | nil => exact fun d => rfl
    | cons key rest ih => exact fun d => (ih _).trans (l1Keys_dropL1Key instanceId d key)
  unfold fenceInstance
  rw [l1Keys]
  dsimp only
  rw [get?_erase]
  split
  · rfl
  · exact hFold _ d

theorem Indexed.placements_fenceInstance (h : d.Indexed) (instanceId : String) (k : ObjectKey) :
    (d.fenceInstance instanceId).placements k =
      (d.placements k).filter fun p => !p.fencedBy instanceId := by
  rw [KeyDirectory.placements_fenceInstance]
  split
  · rfl
  · rename_i hAbsent
    refine (filter_eq_self.mpr fun p hp => ?_).symm
    rw [Bool.not_eq_true', Placement.fencedBy, decide_eq_false_iff_not]
    rintro ⟨hTier, rfl⟩
    exact hAbsent (h k p hp hTier)

theorem Indexed.fenceInstance (h : d.Indexed) (instanceId : String) :
    (d.fenceInstance instanceId).Indexed := by
  intro k p hp hTier
  rw [h.placements_fenceInstance] at hp
  obtain ⟨hOld, hKept⟩ := mem_filter.mp hp
  rw [l1Keys_fenceInstance]
  split
  · rename_i hInstance
    simp [Placement.fencedBy, hTier, hInstance] at hKept
  · exact h k p hOld hTier

end KeyDirectory

end LMCache.Coordinator
