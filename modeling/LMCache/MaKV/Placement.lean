import LMCache.MaKV.Layout

/-!
# Payloads in their places

The encoder seen as a list of placements, each a table entry with the bytes it stands for:
aligned, one behind the other, behind the metadata and inside the blob. What the encoder
writes into the blob is then read back from it, field by field.
-/

namespace LMCache.MaKV

open Lib Bytes List

variable {F : Type} [PyRuntime F]

abbrev Placement := PayloadEntry × Bytes

def placements (offset : Nat) : List (String × Bytes) → List Placement
  | [] => []
  | (name, data) :: rest =>
    (⟨name, alignUp payloadAlignment offset, data.length⟩, data) ::
      placements (alignUp payloadAlignment offset + data.length) rest

def Placement.stop (p : Placement) : Nat := p.1.offset + p.2.length

theorem placements_map_fst (offset : Nat) (payloads : List (String × Bytes)) :
    (placements offset payloads).map Prod.fst = payloadEntries offset payloads := by
  induction payloads generalizing offset with
  | nil => rfl
  | cons payload payloads ih => simp only [placements, payloadEntries, map_cons, ih]

theorem placements_map_payload (offset : Nat) (payloads : List (String × Bytes)) :
    (placements offset payloads).map (fun p => (p.1.name, p.2)) = payloads := by
  induction payloads generalizing offset with
  | nil => rfl
  | cons payload payloads ih => simp only [placements, map_cons, ih]

/-- One placement behind the other from `offset` on. -/
def Chained : Nat → List Placement → Prop
  | _, [] => True
  | offset, p :: rest => offset ≤ p.1.offset ∧ Chained p.stop rest

theorem chained_placements (offset : Nat) (payloads : List (String × Bytes)) :
    Chained offset (placements offset payloads) := by
  induction payloads generalizing offset with
  | nil => trivial
  | cons payload payloads ih => exact ⟨le_alignUp (by decide) offset, ih _⟩

variable {p : Placement}

theorem Chained.le_offset {offset : Nat} {ps : List Placement} (h : Chained offset ps)
    (hp : p ∈ ps) : offset ≤ p.1.offset := by
  induction ps generalizing offset with
  | nil => cases hp
  | cons q ps ih =>
    rcases mem_cons.mp hp with rfl | hMem
    · exact h.1
    · have hStop := ih h.2 hMem
      have hFirst := h.1
      unfold Placement.stop at hStop
      omega

theorem placements_spec (offset : Nat) (payloads : List (String × Bytes)) :
    ∀ p ∈ placements offset payloads, payloadAlignment ∣ p.1.offset ∧ p.1.length = p.2.length := by
  induction payloads generalizing offset with
  | nil => simp [placements]
  | cons payload payloads ih =>
    intro p hp
    rcases mem_cons.mp hp with rfl | hMem
    · exact ⟨dvd_alignUp _ _, rfl⟩
    · exact ih _ p hMem

/-- The end of the last placement, at least `total`. -/
def stopFrom (total : Nat) (ps : List Placement) : Nat :=
  ps.foldl (fun t p => max t p.stop) total

theorem le_stopFrom (total : Nat) (ps : List Placement) : total ≤ stopFrom total ps := by
  induction ps generalizing total with
  | nil => exact le_rfl
  | cons p ps ih => exact (le_max_left _ _).trans (ih (max total p.stop))

theorem stop_le_stopFrom {total : Nat} {ps : List Placement} (hp : p ∈ ps) :
    p.stop ≤ stopFrom total ps := by
  induction ps generalizing total with
  | nil => cases hp
  | cons q ps ih =>
    rcases mem_cons.mp hp with rfl | hMem
    · exact (le_max_right _ _).trans (le_stopFrom _ ps)
    · exact ih hMem

variable {table : List PayloadEntry}

theorem entryOf_eq (hNames : (table.map (·.name)).Nodup) {entry : PayloadEntry}
    (h : entry ∈ table) : entryOf table entry.name = .ok entry := by
  have hKeys : ((table.map fun e => (e.name, e)).map Prod.fst).Nodup := by
    simpa [Function.comp_def] using hNames
  have hGet : (Dict.ofList (table.map fun e => (e.name, e))).get? entry.name = some entry := by
    rw [Dict.get?_ofList _ hKeys, Dict.find_eq_some_iff hKeys]
    exact mem_map.mpr ⟨entry, h, rfl⟩
  rw [entryOf, hGet]

theorem totalLength_eq (ps : List Placement) (total : Nat)
    (h : ∀ p ∈ ps, entryOf table p.1.name = .ok p.1) :
    totalLength table total (ps.map fun p => (p.1.name, p.2)) = .ok (stopFrom total ps) := by
  induction ps generalizing total with
  | nil => rfl
  | cons p ps ih =>
    rw [map_cons, totalLength, h p (by simp), ok_bind, ih _ fun q hq => h q (by simp [hq])]
    rfl

def assignPlacements (body : Bytes) (ps : List Placement) : Bytes :=
  ps.foldl (fun b p => b.assign p.1.offset p.2) body

theorem writePayloads_eq (ps : List Placement) (body : Bytes)
    (h : ∀ p ∈ ps, entryOf table p.1.name = .ok p.1) :
    writePayloads table body (ps.map fun p => (p.1.name, p.2)) =
      .ok (assignPlacements body ps) := by
  induction ps generalizing body with
  | nil => rfl
  | cons p ps ih =>
    rw [map_cons, writePayloads, h p (by simp), ok_bind, ih _ fun q hq => h q (by simp [hq])]
    rfl

variable {body : Bytes}

theorem length_assignPlacements {ps : List Placement} (h : ∀ p ∈ ps, p.stop ≤ body.length) :
    (assignPlacements body ps).length = body.length := by
  induction ps generalizing body with
  | nil => rfl
  | cons p ps ih =>
    have hLength := length_assign (h p (by simp))
    exact (ih fun q hq => hLength ▸ h q (by simp [hq])).trans hLength

theorem slice_assignPlacements_before {offset start length : Nat} {ps : List Placement}
    (hChained : Chained offset ps) (h : ∀ p ∈ ps, p.stop ≤ body.length)
    (hBefore : start + length ≤ offset) :
    (assignPlacements body ps).slice start length = body.slice start length := by
  induction ps generalizing body offset with
  | nil => rfl
  | cons p ps ih =>
    have hIn := h p (by simp)
    have hLength := length_assign hIn
    have hFirst := hChained.1
    have hInRest : ∀ q ∈ ps, q.stop ≤ (body.assign p.1.offset p.2).length :=
      fun q hq => hLength ▸ h q (by simp [hq])
    have hRest := ih hChained.2 hInRest (by unfold Placement.stop; omega)
    exact hRest.trans (slice_assign_of_disjoint hIn (Or.inl (by omega)))

theorem slice_assignPlacements {offset : Nat} {ps : List Placement} (hChained : Chained offset ps)
    (h : ∀ p ∈ ps, p.stop ≤ body.length) (hp : p ∈ ps) :
    (assignPlacements body ps).slice p.1.offset p.2.length = p.2 := by
  induction ps generalizing body offset with
  | nil => cases hp
  | cons q ps ih =>
    have hIn := h q (by simp)
    have hLength := length_assign hIn
    have hInRest : ∀ r ∈ ps, r.stop ≤ (body.assign q.1.offset q.2).length :=
      fun r hr => hLength ▸ h r (by simp [hr])
    rcases mem_cons.mp hp with rfl | hMem
    · exact (slice_assignPlacements_before hChained.2 hInRest le_rfl).trans (slice_assign_self hIn)
    · exact ih hChained.2 hInRest hMem

def headerBytes (magic : Bytes) (metaLength total : Nat) : Bytes :=
  magic ++ toLE 4 1 ++ toLE 4 metaLength ++ toLE 4 total ++ toLE 4 0

theorem packHeader_eq {magic : Bytes} {metaLength total : Nat} (hMeta : metaLength < 2 ^ 32)
    (hTotal : total < 2 ^ 32) :
    packHeader magic 1 metaLength total 0 = .ok (headerBytes magic metaLength total) := by
  simp only [packHeader, packUInt32, if_pos hMeta, if_pos hTotal]
  rfl

theorem length_headerBytes {magic : Bytes} (hMagic : magic.length = 4) (metaLength total : Nat) :
    (headerBytes magic metaLength total).length = headerSize := by
  simp [headerBytes, hMagic, headerSize]

theorem slice_headerBytes {magic : Bytes} (hMagic : magic.length = 4) (metaLength total : Nat) :
    (headerBytes magic metaLength total).slice 0 4 = magic ∧
      (headerBytes magic metaLength total).slice 4 4 = toLE 4 1 ∧
      (headerBytes magic metaLength total).slice 8 4 = toLE 4 metaLength ∧
      (headerBytes magic metaLength total).slice 12 4 = toLE 4 total ∧
      (headerBytes magic metaLength total).slice 16 4 = toLE 4 0 := by
  obtain ⟨a, b, c, d, rfl⟩ : ∃ a b c d, magic = [a, b, c, d] := by
    match magic, hMagic with
    | [a, b, c, d], _ => exact ⟨a, b, c, d, rfl⟩
  exact ⟨rfl, rfl, rfl, rfl, rfl⟩

def blobBody (magic metaBytes : Bytes) (total : Nat) (ps : List Placement) : Bytes :=
  assignPlacements (((zeros total).assign 0 (headerBytes magic metaBytes.length total)).assign
    headerSize metaBytes) ps

def sealBody (body : Bytes) : Bytes :=
  body.assign checksumOffset (toLE 4 (crc32 body 0 % 2 ^ 32))

/-- What a decoder finds in a blob with these metadata and placements. -/
structure Holds (blob magic : Bytes) (metadata : Metadata F) (ps : List Placement) : Prop where
  magic : blob.slice 0 4 = magic
  version : uint32At blob 4 = 1
  metaLength : uint32At blob 8 = (dumps metadata).length
  total : uint32At blob 12 = blob.length
  checksum : uint32At blob checksumOffset = expectedChecksum blob
  metaBytes : blob.slice headerSize (dumps metadata).length = dumps metadata
  metaEnd_le : headerSize + (dumps metadata).length ≤ blob.length
  chained : Chained (headerSize + (dumps metadata).length) ps
  payload : ∀ p ∈ ps, blob.slice p.1.offset p.2.length = p.2 ∧ p.stop ≤ blob.length

section Body

variable {magic metaBytes : Bytes} {total : Nat} {ps : List Placement}

theorem length_headerAssigned (hMagic : magic.length = 4) (hFits : headerSize ≤ total) :
    ((zeros total).assign 0 (headerBytes magic metaBytes.length total)).length = total := by
  rw [length_assign, length_zeros]
  rw [length_headerBytes hMagic, length_zeros]
  omega

theorem length_blobBody (hMagic : magic.length = 4) (hMeta : headerSize + metaBytes.length ≤ total)
    (hStops : ∀ p ∈ ps, p.stop ≤ total) : (blobBody magic metaBytes total ps).length = total := by
  have hFirst := @length_headerAssigned magic metaBytes total hMagic (by omega)
  have hSecond := length_assign (hMeta.trans hFirst.ge)
  rw [blobBody, length_assignPlacements fun p hp => ?_, hSecond, hFirst]
  rw [hSecond, hFirst]
  exact hStops p hp

theorem slice_blobBody (hMagic : magic.length = 4) (hMeta : headerSize + metaBytes.length ≤ total)
    (hChained : Chained (headerSize + metaBytes.length) ps) (hStops : ∀ p ∈ ps, p.stop ≤ total) :
    (∀ start length, start + length ≤ headerSize →
      (blobBody magic metaBytes total ps).slice start length =
        (headerBytes magic metaBytes.length total).slice start length) ∧
      (blobBody magic metaBytes total ps).slice headerSize metaBytes.length = metaBytes ∧
      ∀ p ∈ ps, (blobBody magic metaBytes total ps).slice p.1.offset p.2.length = p.2 := by
  have hFirst := @length_headerAssigned magic metaBytes total hMagic (by omega)
  have hSecond := length_assign (hMeta.trans hFirst.ge)
  have hIn : ∀ p ∈ ps, p.stop ≤ (((zeros total).assign 0
      (headerBytes magic metaBytes.length total)).assign headerSize metaBytes).length := by
    intro p hp
    rw [hSecond, hFirst]
    exact hStops p hp
  refine ⟨?_, ?_, ?_⟩
  · intro start length hBefore
    rw [blobBody, slice_assignPlacements_before hChained hIn (by omega),
      slice_assign_of_disjoint (hMeta.trans hFirst.ge) (Or.inl hBefore), assign,
      take_zero, nil_append, slice_append_left]
    rw [length_headerBytes hMagic]
    exact hBefore
  · rw [blobBody, slice_assignPlacements_before hChained hIn le_rfl,
      slice_assign_self (hMeta.trans hFirst.ge)]
  · exact fun p hp => slice_assignPlacements hChained hIn hp

theorem expectedChecksum_sealBody {body : Bytes} (hLength : headerSize ≤ body.length)
    (hZero : body.slice checksumOffset 4 = [0, 0, 0, 0]) :
    expectedChecksum (sealBody body) = crc32 body 0 % 2 ^ 32 := by
  have hSize : headerSize = checksumOffset + 4 := rfl
  have hTakeLength : (body.take checksumOffset).length = checksumOffset := by
    rw [length_take]
    omega
  have hTake : (sealBody body).take checksumOffset = body.take checksumOffset := by
    rw [sealBody, assign, append_assoc, take_append_of_le_length (by omega),
      take_of_length_le (by omega)]
  have hDrop : (sealBody body).drop (checksumOffset + 4) = body.drop (checksumOffset + 4) := by
    rw [sealBody, assign, length_toLE, drop_append, drop_eq_nil_of_le (by simp), nil_append]
    simp only [length_append, hTakeLength, length_toLE, Nat.sub_self, drop_zero]
  have hBody : body = body.take checksumOffset ++ [0, 0, 0, 0] ++
      body.drop (checksumOffset + 4) := by
    rw [← hZero, slice, append_assoc, ← drop_drop, take_append_drop, take_append_drop]
  rw [expectedChecksum, hTake, hDrop, ← crc32_append, ← crc32_append, ← append_assoc, ← hBody]

end Body

variable {metadata : Metadata F}

theorem holds_sealBody {magic : Bytes} {total : Nat} {ps : List Placement}
    (hMagic : magic.length = 4) (hMeta : headerSize + (dumps metadata).length ≤ total)
    (hTotal : total < 2 ^ 32) (hChained : Chained (headerSize + (dumps metadata).length) ps)
    (hStops : ∀ p ∈ ps, p.stop ≤ total) :
    Holds (sealBody (blobBody magic (dumps metadata) total ps)) magic metadata ps := by
  have hBody := length_blobBody hMagic hMeta hStops
  have hSize : headerSize = checksumOffset + 4 := rfl
  have hSeal : checksumOffset + (toLE 4
      (crc32 (blobBody magic (dumps metadata) total ps) 0 % 2 ^ 32)).length ≤
        (blobBody magic (dumps metadata) total ps).length := by
    rw [length_toLE, hBody]
    omega
  have hLength : (sealBody (blobBody magic (dumps metadata) total ps)).length = total := by
    rw [sealBody, length_assign hSeal, hBody]
  obtain ⟨hHeader, hMetaBytes, hPayload⟩ := slice_blobBody hMagic hMeta hChained hStops
  obtain ⟨hMagicField, hVersion, hMetaField, hTotalField, hZero⟩ :=
    slice_headerBytes hMagic (dumps metadata).length total
  -- the seal touches the checksum field only
  have hAway : ∀ start length, start + length ≤ checksumOffset ∨ headerSize ≤ start →
      (sealBody (blobBody magic (dumps metadata) total ps)).slice start length =
        (blobBody magic (dumps metadata) total ps).slice start length := by
    intro start length hDisjoint
    exact slice_assign_of_disjoint hSeal (by rw [length_toLE]; omega)
  have hMetaLt : (dumps metadata).length < 256 ^ 4 := by
    rw [show 256 ^ 4 = 2 ^ 32 by norm_num]
    omega
  have hTotalLt : total < 256 ^ 4 := by
    rw [show 256 ^ 4 = 2 ^ 32 by norm_num]
    omega
  have hChecksum : expectedChecksum (sealBody (blobBody magic (dumps metadata) total ps)) =
      crc32 (blobBody magic (dumps metadata) total ps) 0 % 2 ^ 32 := by
    refine expectedChecksum_sealBody (by omega) ?_
    rw [hHeader _ _ (by decide)]
    exact hZero
  refine ⟨?_, ?_, ?_, ?_, ?_, ?_, ?_, hChained, ?_⟩
  · rw [hAway _ _ (Or.inl (by decide)), hHeader _ _ (by decide), hMagicField]
  · rw [uint32At, hAway _ _ (Or.inl (by decide)), hHeader _ _ (by decide), hVersion,
      ofLE_toLE (by decide)]
  · rw [uint32At, hAway _ _ (Or.inl (by decide)), hHeader _ _ (by decide), hMetaField,
      ofLE_toLE hMetaLt]
  · rw [uint32At, hAway _ _ (Or.inl (by decide)), hHeader _ _ (by decide), hTotalField,
      ofLE_toLE hTotalLt, hLength]
  · have hField : (sealBody (blobBody magic (dumps metadata) total ps)).slice checksumOffset 4 =
        toLE 4 (crc32 (blobBody magic (dumps metadata) total ps) 0 % 2 ^ 32) := by
      have hSelf := slice_assign_self hSeal
      rwa [length_toLE] at hSelf
    rw [uint32At, hField, hChecksum, ofLE_toLE]
    rw [show 256 ^ 4 = 2 ^ 32 by norm_num]
    exact Nat.mod_lt _ (by norm_num)
  · rw [hAway _ _ (Or.inr le_rfl), hMetaBytes]
  · rw [hLength]
    exact hMeta
  · intro p hp
    have hBehind := hChained.le_offset hp
    refine ⟨?_, ?_⟩
    · rw [hAway _ _ (Or.inr (by omega)), hPayload p hp]
    · rw [hLength]
      exact hStops p hp

def blobSize (metadata : Metadata F) (payloads : Payloads) : Nat :=
  match buildMetadataWithOffsets metadata payloads with
  | some table =>
    stopFrom (headerSize + metaLength metadata table)
      (placements (headerSize + metaLength metadata table) payloads.entries)
  | none => 0

variable {payloads : Payloads}

theorem encodeBlob_eq {magic : Bytes} {ps : List Placement} {total : Nat}
    (hBuild : buildMetadataWithOffsets metadata payloads = some table)
    (hPayloads : ps.map (fun p => (p.1.name, p.2)) = payloads.entries)
    (hEntryOf : ∀ p ∈ ps, entryOf table p.1.name = .ok p.1)
    (hTotal : total = stopFrom (headerSize + metaLength metadata table) ps)
    (hMetaLt : metaLength metadata table < 2 ^ 32) (hTotalLt : total < 2 ^ 32) :
    encodeBlob magic metadata payloads 1 =
      .ok (sealBody (blobBody magic (dumps (withPayloadTable metadata table)) total ps)) := by
  have hTotalEq := totalLength_eq ps (headerSize + metaLength metadata table) hEntryOf
  rw [hPayloads, ← hTotal] at hTotalEq
  have hWrite := fun body => writePayloads_eq ps body hEntryOf
  simp only [hPayloads] at hWrite
  unfold metaLength at hTotalEq hMetaLt
  simp only [encodeBlob, supportedObjectVersions, mem_singleton, not_true_eq_false, if_false,
    hBuild, ok_bind, hTotalEq, packHeader_eq hMetaLt hTotalLt, hWrite]
  rfl

theorem settled_table (metadata : Metadata F) (payloads : Payloads) :
    ∃ table, buildMetadataWithOffsets metadata payloads = some table ∧
      payloadEntries (headerSize + metaLength metadata table) payloads.entries = table ∧
      ∀ p ∈ placements (headerSize + metaLength metadata table) payloads.entries,
        entryOf table p.1.name = .ok p.1 := by
  obtain ⟨table, hBuild, hTable⟩ := buildMetadataWithOffsets_settles metadata payloads
  rw [nextTable_eq] at hTable
  have hPayloads := placements_map_payload (headerSize + metaLength metadata table) payloads.entries
  have hEntries := placements_map_fst (headerSize + metaLength metadata table) payloads.entries
  rw [hTable] at hEntries
  have hNames : (table.map (·.name)).Nodup := by
    have hNodup := payloads.nodup
    rw [← hPayloads, map_map] at hNodup
    rw [← hEntries, map_map]
    exact hNodup
  refine ⟨table, hBuild, hTable, fun p hp => entryOf_eq hNames ?_⟩
  rw [← hEntries]
  exact mem_map.mpr ⟨p, hp, rfl⟩

theorem encodeBlob_holds (magic : Bytes) (hMagic : magic.length = 4) (metadata : Metadata F)
    (payloads : Payloads) (hFits : blobSize metadata payloads < 2 ^ 32) :
    ∃ blob table, encodeBlob magic metadata payloads 1 = .ok blob ∧
      table = payloadEntries (headerSize + metaLength metadata table) payloads.entries ∧
      Holds blob magic (withPayloadTable metadata table)
        (placements (headerSize + metaLength metadata table) payloads.entries) := by
  obtain ⟨table, hBuild, hTable, hEntryOf⟩ := settled_table metadata payloads
  rw [blobSize, hBuild] at hFits
  simp only at hFits
  have hPayloads := placements_map_payload (headerSize + metaLength metadata table) payloads.entries
  have hMetaLe := le_stopFrom (headerSize + metaLength metadata table)
    (placements (headerSize + metaLength metadata table) payloads.entries)
  refine ⟨_, table, encodeBlob_eq hBuild hPayloads hEntryOf rfl (by omega) hFits, hTable.symm, ?_⟩
  exact holds_sealBody hMagic hMetaLe hFits (chained_placements _ _) fun p hp =>
    stop_le_stopFrom hp

theorem blobSize_lt_of_encodeBlob {magic : Bytes} {version : Nat} {blob : Bytes}
    (h : encodeBlob magic metadata payloads version = .ok blob) :
    blobSize metadata payloads < 2 ^ 32 := by
  obtain ⟨table, hBuild, -, hEntryOf⟩ := settled_table metadata payloads
  have hTotal := totalLength_eq _ (headerSize + metaLength metadata table) hEntryOf
  rw [placements_map_payload] at hTotal
  rw [blobSize, hBuild]
  unfold metaLength at hTotal ⊢
  simp only [encodeBlob, hBuild, ok_bind, hTotal, packHeader] at h
  split at h
  · cases h
  obtain ⟨header, hHeader, -⟩ := bind_eq_ok.mp h
  obtain ⟨_, -, hHeader⟩ := bind_eq_ok.mp hHeader
  obtain ⟨_, -, hHeader⟩ := bind_eq_ok.mp hHeader
  obtain ⟨_, hLength, -⟩ := bind_eq_ok.mp hHeader
  by_contra hLarge
  rw [packUInt32, if_neg hLarge] at hLength
  cases hLength

omit [PyRuntime F] in
theorem Chained.pairwise {offset : Nat} {ps : List Placement} (h : Chained offset ps) :
    ps.Pairwise fun p q => p.stop ≤ q.1.offset := by
  induction ps generalizing offset with
  | nil => exact List.Pairwise.nil
  | cons p ps ih => exact pairwise_cons.mpr ⟨fun q hq => h.2.le_offset hq, ih h.2⟩

theorem layoutRounds_add {rounds : Nat} {settled : List PayloadEntry}
    (h : layoutRounds metadata payloads rounds table = some settled) (more : Nat) :
    layoutRounds metadata payloads (rounds + more) table = some settled := by
  induction rounds generalizing table with
  | zero => cases h
  | succ rounds ih =>
    rw [layoutRounds] at h
    rw [Nat.add_right_comm, layoutRounds]
    split_ifs at h ⊢ with hSettled
    · exact h
    · exact ih h

/-- The loop over the layouts ends, and however many rounds it may take, at one table: that of
the metadata which holds it. The table lists the payloads in order, behind the metadata and one
behind the other. -/
theorem payload_table_is_fixpoint (metadata : Metadata F) (payloads : Payloads) :
    ∃ table, buildMetadataWithOffsets metadata payloads = some table ∧
      (∃ rounds, ∀ more, layoutRounds metadata payloads (rounds + more) [] = some table) ∧
      table = payloadEntries (headerSize + (dumps (withPayloadTable metadata table)).length)
        payloads.entries ∧
      table.map (fun entry => (entry.name, entry.length)) =
        payloads.entries.map (fun p => (p.1, p.2.length)) ∧
      (∀ entry ∈ table,
        headerSize + (dumps (withPayloadTable metadata table)).length ≤ entry.offset) ∧
      table.Pairwise fun a b => a.offset + a.length ≤ b.offset := by
  obtain ⟨table, hBuild, hTable⟩ := buildMetadataWithOffsets_settles metadata payloads
  rw [nextTable] at hTable
  generalize hEnd : headerSize + (dumps (withPayloadTable metadata table)).length = stop at hTable
  have hEntries := placements_map_fst stop payloads.entries
  rw [hTable] at hEntries
  have hLengths : ∀ p ∈ placements stop payloads.entries, p.1.length = p.2.length :=
    fun p hp => (placements_spec stop payloads.entries p hp).2
  have hChained := chained_placements stop payloads.entries
  refine ⟨table, hBuild, ⟨_, layoutRounds_add hBuild⟩, hEnd.symm ▸ hTable.symm, ?_, ?_, ?_⟩
  · rw [← hEntries, List.map_map]
    conv_rhs => rw [← placements_map_payload stop payloads.entries, List.map_map]
    refine List.map_congr_left fun p hp => ?_
    rw [Function.comp_apply, Function.comp_apply, hLengths p hp]
  · intro entry hEntry
    rw [← hEntries] at hEntry
    obtain ⟨p, hp, rfl⟩ := List.mem_map.mp hEntry
    rw [hEnd]
    exact hChained.le_offset hp
  · rw [← hEntries, List.pairwise_map]
    refine hChained.pairwise.imp_of_mem fun {p q} hp _ hStop => ?_
    rw [hLengths p hp]
    exact hStop

end LMCache.MaKV
