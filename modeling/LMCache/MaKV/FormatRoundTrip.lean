import LMCache.Lib.ExactFloat
import LMCache.MaKV.Placement

/-!
# Decoding what was encoded

The decoder of an encoded blob finds its header, the metadata as a dictionary and every
payload, whichever decode mode is used. Dictionaries are compared by their lookups, up to
the order of members inside their values.
-/

namespace LMCache.MaKV

open Lib Dict List Json

variable {F : Type} [PyRuntime F]

/-- The metadata with its keys sorted, as a decoder reads it. -/
def canonical (metadata : Metadata F) : Metadata F :=
  ⟨sortMembers (canonMembers metadata.entries),
    ((perm_insertionSort _ _).map Prod.fst).nodup_iff.mpr (by
    rw [map_fst_canonMembers]
    exact metadata.nodup)⟩

omit [PyRuntime F] in
theorem get?_canonical (metadata : Metadata F) (key : String) :
    (canonical metadata).get? key = (metadata.get? key).map canon := by
  have hMem : ∀ value, (key, value) ∈ (canonical metadata).entries ↔
      ∃ v, metadata.get? key = some v ∧ value = v.canon := by
    intro value
    rw [canonical, mem_sortMembers, canonMembers_eq_map, mem_map]
    constructor
    · rintro ⟨⟨k, v⟩, hIn, hEq⟩
      cases hEq
      exact ⟨v, get?_eq_some_iff.mpr hIn, rfl⟩
    · rintro ⟨v, hGet, rfl⟩
      exact ⟨(key, v), get?_eq_some_iff.mp hGet, rfl⟩
  cases hGet : metadata.get? key with
  | none =>
    cases hCanon : (canonical metadata).get? key with
    | none => rfl
    | some value =>
      obtain ⟨v, hSome, -⟩ := (hMem value).mp (get?_eq_some_iff.mp hCanon)
      rw [hGet] at hSome
      cases hSome
  | some v => exact get?_eq_some_iff.mpr ((hMem v.canon).mpr ⟨v, hGet, rfl⟩)

theorem read_dumps (metadata : Metadata F) :
    (Bytes.decodeUtf8 (dumps metadata)).bind read =
      some (.obj (canonical metadata).entries) := by
  have hEntries : (Dict.ofList (sortMembers (canonMembers metadata.entries))).entries =
      (canonical metadata).entries := entries_ofList (canonical metadata).nodup
  rw [dumps, Bytes.decodeUtf8_encodeUtf8, Option.bind_some, read_text, canon, hEntries]

omit [PyRuntime F] in
theorem ofList_canonical (metadata : Metadata F) :
    Dict.ofList (canonical metadata).entries = canonical metadata :=
  Dict.ext (entries_ofList (canonical metadata).nodup)

theorem loads_dumps (metadata : Metadata F) :
    loads (dumps metadata) = .ok (canonical metadata) := by
  rw [loads, read_dumps]
  simp only [ofList_canonical]

variable {blob : Bytes} {metadata : Metadata F} {ps : List Placement}

theorem Holds.decodeBlob {magic : Bytes} (h : Holds blob magic metadata ps)
    (verifyChecksum : Bool) : MaKV.decodeBlob blob magic verifyChecksum =
      .ok (canonical metadata, headerSize + (dumps metadata).length, 1) := by
  have hLength : headerSize ≤ blob.length := le_trans (Nat.le_add_right _ _) h.metaEnd_le
  have hMetaLe : ¬ ((dumps metadata).length > blob.length - headerSize) := by
    have hEnd := h.metaEnd_le
    omega
  simp only [MaKV.decodeBlob, h.magic, h.version, h.metaLength, h.total, h.checksum, h.metaBytes,
    supportedObjectVersions, loads_dumps, Nat.not_lt.mpr hLength, hMetaLe, decide_false,
    ne_eq, not_true_eq_false, mem_singleton, Bool.or_false, Bool.and_false, rejectIf_false,
    ok_bind]
  rfl

/-- A table entry as it is read back, its members sorted. -/
def entryJson (entry : PayloadEntry) : Json F :=
  .obj [("length", .int entry.length), ("name", .str entry.name), ("offset", .int entry.offset)]

omit [PyRuntime F] in
theorem canon_toJson (entry : PayloadEntry) :
    (PayloadEntry.toJson entry : Json F).canon = entryJson entry := by
  have hSort : ∀ a b c : Json F, sortMembers [("name", a), ("offset", b), ("length", c)] =
      [("length", c), ("name", a), ("offset", b)] := by
    intro a b c
    simp only [sortMembers, insertionSort_cons, insertionSort_nil,
      orderedInsert_nil, List.orderedInsert]
    rw [if_neg (by decide)]
    simp only [List.orderedInsert]
    rw [if_neg (by decide), if_pos (by decide)]
  simp only [PayloadEntry.toJson, canon, canonMembers, hSort]
  rw [entries_ofList (by simp)]
  rfl

omit [PyRuntime F] in
theorem canon_table (table : List PayloadEntry) :
    (arr (table.map PayloadEntry.toJson) : Json F).canon = .arr (table.map entryJson) := by
  rw [canon, canonItems_eq_map, map_map]
  congr 1
  exact map_congr_left fun entry _ => canon_toJson entry

def Placement.payload (blob : Bytes) (copyPayloads : Bool) (p : Placement) : Payload :=
  if copyPayloads then .copied (blob.slice p.1.offset p.2.length)
  else .view blob p.1.offset p.2.length

variable {metaEnd : Nat} {p : Placement}

theorem decodeEntry_eq {copyPayloads : Bool} {acc : DecodedTable F}
    (hLength : p.1.length = p.2.length) (hBehind : metaEnd ≤ p.1.offset)
    (hStop : p.stop ≤ blob.length) :
    decodeEntry blob metaEnd copyPayloads acc (entryJson p.1) = .ok {
      payloads := acc.payloads.set p.1.name (p.payload blob copyPayloads)
      retained := acc.retained ++ [entryJson p.1]
      ranges := acc.ranges ++ [(p.1.offset, p.stop)] } := by
  unfold Placement.stop at hStop ⊢
  have hGuard : (decide ((p.1.offset : Int) < metaEnd) || decide ((p.1.length : Int) < 0) ||
      decide ((p.1.offset : Int) + p.1.length > blob.length)) = false := by
    simp only [Bool.or_eq_false_iff, decide_eq_false_iff_not]
    omega
  have hRetained : retainedEntry (F := F) [("length", .int p.1.length), ("name", .str p.1.name),
      ("offset", .int p.1.offset)] p.1.name p.1.offset p.1.length = entryJson p.1 := by
    simp [retainedEntry, entryJson, Dict.ofList, Dict.set, Dict.assign, Dict.empty]
  simp only [decodeEntry, entryJson, item, Dict.find, toInt, toText, tableEntryError,
    ok_bind, if_true, if_false, String.reduceEq, pure, Except.pure, hGuard,
    rejectIf_false, Int.toNat_natCast]
  rw [hRetained]
  simp only [Placement.payload, hLength, entryJson]

theorem decodeTable_eq (blob : Bytes) (copyPayloads : Bool) (ps : List Placement)
    (acc : DecodedTable F)
    (h : ∀ p ∈ ps, p.1.length = p.2.length ∧ metaEnd ≤ p.1.offset ∧ p.stop ≤ blob.length) :
    (ps.map fun p => entryJson p.1).foldlM (decodeEntry blob metaEnd copyPayloads) acc = .ok {
      payloads := (ps.map fun p => (p.1.name, p.payload blob copyPayloads)).foldl
        (fun d e => d.set e.1 e.2) acc.payloads
      retained := acc.retained ++ ps.map fun p => entryJson p.1
      ranges := acc.ranges ++ ps.map fun p => (p.1.offset, p.stop) } := by
  induction ps generalizing acc with
  | nil => simp [pure, Except.pure]
  | cons p ps ih =>
    obtain ⟨hLength, hBehind, hStop⟩ := h p (by simp)
    rw [map_cons, foldlM_cons, decodeEntry_eq hLength hBehind hStop, ok_bind,
      ih _ fun q hq => h q (by simp [hq])]
    simp

theorem overlapFrom_chained {offset : Nat} (h : Chained offset ps) :
    overlapFrom offset (ps.map fun p => (p.1.offset, p.stop)) = false := by
  induction ps generalizing offset with
  | nil => rfl
  | cons p ps ih =>
    have hFirst := h.1
    rw [map_cons, overlapFrom, if_neg (by omega)]
    exact ih h.2

theorem pairwise_ranges {offset : Nat} (h : Chained offset ps) :
    (ps.map fun p => (p.1.offset, p.stop)).Pairwise
      fun a b => a.1 < b.1 ∨ (a.1 = b.1 ∧ a.2 ≤ b.2) := by
  induction ps generalizing offset with
  | nil => simp
  | cons p ps ih =>
    rw [map_cons, pairwise_cons]
    refine ⟨?_, ih h.2⟩
    intro range hRange
    obtain ⟨q, hq, rfl⟩ := mem_map.mp hRange
    have hBehind := h.2.le_offset hq
    unfold Placement.stop at hBehind ⊢
    simp only
    omega

theorem rangesOverlap_chained {offset : Nat} (h : Chained offset ps) :
    rangesOverlap (ps.map fun p => (p.1.offset, p.stop)) = false := by
  rw [rangesOverlap, (pairwise_ranges h).insertionSort_eq]
  cases ps with
  | nil => rfl
  | cons p ps =>
    rw [map_cons, overlapFrom, if_neg (by omega)]
    exact overlapFrom_chained h.2

theorem toInt_canon (value : Json F) : value.canon.toInt = value.toInt := by
  cases value <;> rfl

/-- Placements of payloads with distinct names, whose entries record their lengths. -/
structure Placed (metaEnd : Nat) (ps : List Placement) (payloads : Payloads) : Prop where
  payloads_eq : ps.map (fun p => (p.1.name, p.2)) = payloads.entries
  lengths : ∀ p ∈ ps, p.1.length = p.2.length
  aligned : ∀ p ∈ ps, payloadAlignment ∣ p.1.offset
  chained : Chained metaEnd ps

theorem placed_placements (offset : Nat) (payloads : Payloads) :
    Placed offset (placements offset payloads.entries) payloads where
  payloads_eq := placements_map_payload offset payloads.entries
  lengths := fun p hp => (placements_spec offset payloads.entries p hp).2
  aligned := fun p hp => (placements_spec offset payloads.entries p hp).1
  chained := chained_placements offset payloads.entries

variable {payloads : Payloads}

theorem Placed.names_nodup (h : Placed metaEnd ps payloads) : (ps.map fun p => p.1.name).Nodup := by
  have hNodup := payloads.nodup
  rw [← h.payloads_eq, map_map] at hNodup
  exact hNodup

def viewsOf (blob : Bytes) (copyPayloads : Bool) (ps : List Placement) : Dict String Payload :=
  Dict.ofList (ps.map fun p => (p.1.name, p.payload blob copyPayloads))

theorem viewsOf_entries (h : Placed metaEnd ps payloads) (blob : Bytes) (copyPayloads : Bool) :
    (viewsOf blob copyPayloads ps).entries =
      ps.map fun p => (p.1.name, p.payload blob copyPayloads) := by
  refine entries_ofList ?_
  rw [map_map]
  exact h.names_nodup

theorem get?_viewsOf (h : Placed metaEnd ps payloads)
    (hSlices : ∀ p ∈ ps, blob.slice p.1.offset p.2.length = p.2) (copyPayloads : Bool)
    (name : String) :
    ((viewsOf blob copyPayloads ps).get? name).map Payload.toBytes = payloads.get? name := by
  have hFind : ∀ qs : List Placement, (∀ p ∈ qs, p ∈ ps) →
      (Dict.find name (qs.map fun p => (p.1.name, p.payload blob copyPayloads))).map
        Payload.toBytes = Dict.find name (qs.map fun p => (p.1.name, p.2)) := by
    intro qs hSub
    induction qs with
    | nil => rfl
    | cons p qs ih =>
      have hSlice := hSlices p (hSub p (by simp))
      simp only [map_cons, Dict.find]
      split
      · cases copyPayloads <;> simp [Placement.payload, Payload.toBytes, hSlice]
      · exact ih fun q hq => hSub q (by simp [hq])
  rw [Dict.get?, viewsOf_entries h, hFind ps fun p hp => hp, h.payloads_eq]
  rfl

/-- The metadata of a decoded object: sorted, its table retained, its type popped. -/
def decodedMetadata (metadata : Metadata F) (ps : List Placement) : Metadata F :=
  (((canonical metadata).erase payloadTableKey).set payloadTableKey
    (.arr (ps.map fun p => entryJson p.1))).erase "object_type"

variable {objectType : String}

theorem Holds.decodeMakvObject {checksum : Int} (h : Holds blob objectMagic metadata ps)
    (hPlaced : Placed (headerSize + (dumps metadata).length) ps payloads)
    (hTable : metadata.get? payloadTableKey =
      some (.arr ((ps.map Prod.fst).map PayloadEntry.toJson)))
    (hType : metadata.get? "object_type" = some (.str objectType))
    (hChecksum : checksumOf metadata = .ok checksum) (copyPayloads verifyChecksum : Bool) :
    MaKV.decodeMakvObject blob copyPayloads verifyChecksum = .ok {
      objectType := objectType
      metadata := decodedMetadata metadata ps
      payloads := viewsOf blob copyPayloads ps
      checksum := checksum
      protocolVersion := 1 } := by
  have hCanonTable : (canonical metadata).get? payloadTableKey =
      some (.arr (ps.map fun p => entryJson p.1)) := by
    rw [get?_canonical, hTable, Option.map_some, canon_table, map_map]
    rfl
  have hLoop := decodeTable_eq blob copyPayloads ps (⟨Dict.empty, [], []⟩ : DecodedTable F)
    fun p hp => ⟨hPlaced.lengths p hp, hPlaced.chained.le_offset hp, (h.payload p hp).2⟩
  have hSize : (viewsOf blob copyPayloads ps).size = ps.length := by
    rw [Dict.size, viewsOf_entries hPlaced, length_map]
  have hGuard : (decide ((viewsOf blob copyPayloads ps).size ≠
      (ps.map fun p => entryJson (F := F) p.1).length) ||
        rangesOverlap (ps.map fun p => (p.1.offset, p.stop))) = false := by
    rw [hSize, length_map, rangesOverlap_chained hPlaced.chained]
    simp
  have hGet : ∀ key, key ≠ payloadTableKey →
      (((canonical metadata).erase payloadTableKey).set payloadTableKey
        (.arr (ps.map fun p => entryJson p.1))).get? key = (metadata.get? key).map canon := by
    intro key hKey
    rw [get?_set_ne _ hKey.symm, get?_erase_ne _ hKey.symm, get?_canonical]
  have hChecksumOf : checksumOf (((canonical metadata).erase payloadTableKey).set payloadTableKey
      (.arr (ps.map fun p => entryJson p.1))) = .ok checksum := by
    rw [← hChecksum, checksumOf, hGet "checksum" (by decide), checksumOf]
    cases metadata.get? "checksum" with
    | none => rfl
    | some value => exact toInt_canon value
  have hTypeText : metadataText (((canonical metadata).erase payloadTableKey).set payloadTableKey
      (.arr (ps.map fun p => entryJson p.1))) "object_type" = .ok objectType := by
    rw [metadataText, hGet "object_type" (by decide), hType]
    rfl
  unfold MaKV.decodeMakvObject
  rw [h.decodeBlob, ok_bind]
  simp only [hCanonTable, ok_bind]
  rw [hLoop, ok_bind]
  simp only [nil_append]
  change (rejectIf (decide ((viewsOf blob copyPayloads ps).size ≠ _) || _) _ >>= _) = _
  rw [hGuard, rejectIf_false, ok_bind]
  simp only [hChecksumOf, hTypeText, ok_bind]
  rfl

theorem decodeClientEntry_eq (hLength : p.1.length = p.2.length) (hBehind : metaEnd ≤ p.1.offset)
    (hStop : p.stop ≤ blob.length) :
    decodeClientEntry blob metaEnd (Dict.empty, []) (entryJson (F := F) p.1) =
      .ok (Dict.empty.set (String.ofList (stringText p.1.name))
        (blob.slice p.1.offset p.2.length), [(p.1.offset, p.stop)]) := by
  unfold Placement.stop at hStop ⊢
  have hGuard : (decide ((p.1.offset : Int) < metaEnd) || decide ((p.2.length : Int) < 0) ||
      decide ((p.1.offset : Int) + p.2.length > blob.length)) = false := by
    simp only [Bool.or_eq_false_iff, decide_eq_false_iff_not]
    omega
  simp only [decodeClientEntry, entryJson, item, Dict.find, toInt, nameKey, ok_bind,
    if_true, if_false, String.reduceEq, hGuard, rejectIf_false, Int.toNat_natCast, hLength]
  rfl

theorem Holds.decodeClientPutEnvelope {key : String} (h : Holds blob clientMagic metadata [p])
    (hName : p.1.name = "raw_kv_payload") (hLength : p.1.length = p.2.length)
    (hTable : metadata.get? payloadTableKey = some (.arr [PayloadEntry.toJson p.1]))
    (hKey : metadata.get? "key" = some (.str key))
    (hType : metadata.get? "object_type" = some (.str objectType)) :
    MaKV.decodeClientPutEnvelope blob =
      .ok ⟨key, objectType, (canonical metadata).erase payloadTableKey, p.2⟩ := by
  have hCanonTable : (canonical metadata).get? payloadTableKey = some (.arr [entryJson p.1]) := by
    rw [get?_canonical, hTable, Option.map_some]
    exact congrArg some (canon_table [p.1])
  obtain ⟨hSlice, hStop⟩ := h.payload p (by simp)
  have hEntry := decodeClientEntry_eq (F := F) hLength (h.chained.le_offset (by simp)) hStop
  have hGuard : rangesOverlap [(p.1.offset, p.stop)] = false :=
    rangesOverlap_chained h.chained
  have hText : ∀ name text, name ≠ payloadTableKey → metadata.get? name = some (.str text) →
      metadataText ((canonical metadata).erase payloadTableKey) name = .ok text := by
    intro name text hNe hGet
    rw [metadataText, get?_erase_ne _ hNe.symm, get?_canonical, hGet]
    rfl
  unfold MaKV.decodeClientPutEnvelope
  rw [h.decodeBlob, ok_bind]
  simp only [hCanonTable, ne_eq, not_true_eq_false, decide_false, rejectIf_false, ok_bind,
    foldlM_cons, foldlM_nil, hEntry, hSlice, hGuard, hName,
    hText "key" key (by decide) hKey, hText "object_type" objectType (by decide) hType,
    pure, Except.pure, get?_set_self]
  rfl

def reservedObjectKeys : List String := ["object_type", payloadTableKey, "checksum"]

/-- The metadata keys that a PUT envelope writes itself. -/
def reservedEnvelopeKeys : List String := ["key", "object_type", "plan", payloadTableKey]

omit [PyRuntime F] in
theorem get?_storageMeta (objectType : String) (metadata : Metadata F) (key : String) :
    (storageMeta objectType metadata).get? key =
      (metadata.get? key).or (if key = "object_type" then some (.str objectType) else none) := by
  rw [storageMeta, get?_foldl_set _ metadata.nodup, get?_set]
  simp only [get?_empty, eq_comm]
  rfl

omit [PyRuntime F] in
theorem get?_envelopeMeta (name objectType : String) (plan : Json F) (extra : Metadata F)
    (key : String) :
    (envelopeMeta name objectType plan extra).get? key =
      (extra.get? key).or (if key = "plan" then some plan
        else if key = "object_type" then some (.str objectType)
        else if key = "key" then some (.str name) else none) := by
  rw [envelopeMeta, get?_foldl_set _ extra.nodup, get?_set, get?_set, get?_set]
  simp only [get?_empty, eq_comm]
  rfl

omit [PyRuntime F] in
theorem get?_decodedMetadata {key : String} (hKey : key ≠ payloadTableKey) :
    (decodedMetadata metadata ps).get? key =
      if key = "object_type" then none else (metadata.get? key).map canon := by
  rw [decodedMetadata, get?_erase, get?_set_ne _ hKey.symm, get?_erase_ne _ hKey.symm,
    get?_canonical]
  simp only [eq_comm]

theorem decode_encode_object (hReserved : ∀ key ∈ reservedObjectKeys, metadata.get? key = none)
    (hFits : blobSize (storageMeta objectType metadata) payloads < 2 ^ 32) :
    ∃ (blob : Bytes) (decoded : Metadata F) (table : List PayloadEntry),
      encodeMakvObject objectType metadata payloads 1 = .ok blob ∧
      (∀ key, key ≠ payloadTableKey → decoded.get? key = (metadata.get? key).map canon) ∧
      decoded.get? payloadTableKey = some (.arr (table.map entryJson)) ∧
      table.map PayloadEntry.name = payloads.keys ∧
      (∀ entry ∈ table, payloadAlignment ∣ entry.offset) ∧
      ∀ copyPayloads verifyChecksum, ∃ views,
        MaKV.decodeMakvObject blob copyPayloads verifyChecksum =
          .ok ⟨objectType, decoded, views, 0, 1⟩ ∧
        ∀ name, (views.get? name).map Payload.toBytes = payloads.get? name := by
  obtain ⟨blob, table, hEncode, hTable, hHolds⟩ := encodeBlob_holds
    objectMagic rfl (storageMeta objectType metadata) payloads hFits
  have hPlaced := placed_placements
    (headerSize + metaLength (storageMeta objectType metadata) table) payloads
  have hEntries := placements_map_fst
    (headerSize + metaLength (storageMeta objectType metadata) table) payloads.entries
  rw [← hTable] at hEntries
  generalize hps : placements (headerSize + metaLength (storageMeta objectType metadata) table)
    payloads.entries = ps at hHolds hPlaced hEntries
  have hGet : ∀ key, key ≠ payloadTableKey →
      (withPayloadTable (storageMeta objectType metadata) table).get? key =
        (metadata.get? key).or (if key = "object_type" then some (.str objectType) else none) := by
    intro key hKey
    rw [withPayloadTable, get?_set_ne _ hKey.symm, get?_storageMeta]
  have hType : metadata.get? "object_type" = none := hReserved _ (by simp [reservedObjectKeys])
  have hChecksum : checksumOf (withPayloadTable (storageMeta objectType metadata) table) =
      .ok 0 := by
    rw [checksumOf, hGet "checksum" (by decide),
      hReserved "checksum" (by simp [reservedObjectKeys])]
    rfl
  refine ⟨blob, decodedMetadata (withPayloadTable (storageMeta objectType metadata) table) ps,
    table, hEncode, ?_, ?_, ?_, ?_, ?_⟩
  · intro key hKey
    rw [get?_decodedMetadata hKey, hGet key hKey]
    split_ifs with hIs
    · subst hIs
      rw [hType]
      rfl
    · rw [Option.or_none]
  · rw [decodedMetadata, get?_erase_ne _ (by decide), get?_set_self, ← hEntries, map_map]
    rfl
  · rw [← hEntries, map_map, Dict.keys, ← hPlaced.payloads_eq, map_map]
    rfl
  · intro entry hEntry
    rw [← hEntries] at hEntry
    obtain ⟨p, hp, rfl⟩ := mem_map.mp hEntry
    exact hPlaced.aligned p hp
  · intro copyPayloads verifyChecksum
    refine ⟨viewsOf blob copyPayloads ps, ?_,
      get?_viewsOf hPlaced (fun p hp => (hHolds.payload p hp).1) copyPayloads⟩
    refine hHolds.decodeMakvObject hPlaced ?_ ?_ hChecksum copyPayloads verifyChecksum
    · rw [hEntries, withPayloadTable, get?_set_self]
    · rw [hGet _ (by decide), hType, if_pos rfl]
      rfl

theorem decode_encode_envelope {name : String} {plan : Json F} {raw : Bytes} {extra : Metadata F}
    (hReserved : ∀ key ∈ reservedEnvelopeKeys, extra.get? key = none)
    (hFits : blobSize (envelopeMeta name objectType plan extra)
      (Dict.empty.set "raw_kv_payload" raw) < 2 ^ 32) :
    ∃ (blob : Bytes) (decoded : Metadata F) (offset : Nat),
      encodeClientPutEnvelope name objectType plan raw extra = .ok blob ∧
      MaKV.decodeClientPutEnvelope blob = .ok ⟨name, objectType, decoded, raw⟩ ∧
      (∀ key, decoded.get? key = if key = "plan" then some plan.canon
        else if key = "object_type" then some (.str objectType)
        else if key = "key" then some (.str name) else (extra.get? key).map canon) ∧
      (∃ stored metaEnd, MaKV.decodeBlob (F := F) blob clientMagic true = .ok (stored, metaEnd, 1) ∧
        stored.get? payloadTableKey =
          some (.arr [entryJson ⟨"raw_kv_payload", offset, raw.length⟩])) ∧
      payloadAlignment ∣ offset := by
  obtain ⟨blob, table, hEncode, hTable, hHolds⟩ := encodeBlob_holds
    clientMagic rfl (envelopeMeta name objectType plan extra) _ hFits
  have hPlaced := placed_placements
    (headerSize + metaLength (envelopeMeta name objectType plan extra) table)
    (Dict.empty.set "raw_kv_payload" raw)
  have hEntries := placements_map_fst
    (headerSize + metaLength (envelopeMeta name objectType plan extra) table)
    (Dict.empty.set "raw_kv_payload" raw).entries
  rw [← hTable] at hEntries
  obtain ⟨p, hp, hRaw, hPayloadName⟩ : ∃ p : Placement,
      placements (headerSize + metaLength (envelopeMeta name objectType plan extra) table)
        (Dict.empty.set "raw_kv_payload" raw).entries = [p] ∧ p.2 = raw ∧
          p.1.name = "raw_kv_payload" := ⟨_, rfl, rfl, rfl⟩
  rw [hp] at hHolds hPlaced hEntries
  obtain ⟨hNoKey, hNoType, hNoPlan, hNoTable⟩ : extra.get? "key" = none ∧
      extra.get? "object_type" = none ∧ extra.get? "plan" = none ∧
      extra.get? payloadTableKey = none := by
    simpa [reservedEnvelopeKeys] using hReserved
  have hGet : ∀ key, key ≠ payloadTableKey →
      (withPayloadTable (envelopeMeta name objectType plan extra) table).get? key =
        (extra.get? key).or (if key = "plan" then some plan
          else if key = "object_type" then some (.str objectType)
          else if key = "key" then some (.str name) else none) := by
    intro key hKey
    rw [withPayloadTable, get?_set_ne _ hKey.symm, get?_envelopeMeta]
  refine ⟨blob, (canonical (withPayloadTable (envelopeMeta name objectType plan extra)
    table)).erase payloadTableKey, p.1.offset, hEncode, ?_, ?_, ?_, hPlaced.aligned p (by simp)⟩
  · rw [← hRaw]
    refine hHolds.decodeClientPutEnvelope hPayloadName (hPlaced.lengths p (by simp)) ?_ ?_ ?_
    · rw [withPayloadTable, get?_set_self, ← hEntries]
      rfl
    · rw [hGet _ (by decide), hNoKey]
      rfl
    · rw [hGet _ (by decide), hNoType]
      rfl
  · intro key
    rw [get?_erase]
    by_cases hKey : payloadTableKey = key
    · subst hKey
      rw [if_pos rfl, if_neg (by decide), if_neg (by decide), if_neg (by decide), hNoTable]
      rfl
    · rw [if_neg hKey, get?_canonical, hGet key (Ne.symm hKey)]
      split_ifs with hPlan hType hName
      · rw [hPlan, hNoPlan]
        rfl
      · rw [hType, hNoType]
        rfl
      · rw [hName, hNoKey]
        rfl
      · rw [Option.or_none]
  · refine ⟨_, _, hHolds.decodeBlob true, ?_⟩
    rw [get?_canonical, withPayloadTable, get?_set_self, Option.map_some]
    refine congrArg some ((canon_table table).trans ?_)
    rw [← hEntries, ← hRaw, ← hPayloadName, ← hPlaced.lengths p (by simp)]
    rfl

/-- Both formats give back what was encoded: the object type, the version, the metadata up
to the order of the members of JSON objects, and the payloads by name, with or without
copies and with or without the check. -/
theorem makv_formats_round_trip :
    (∀ (objectType : String) (metadata : Metadata F) (payloads : Payloads) (version : Nat),
      version ∈ supportedObjectVersions →
      (∀ key ∈ reservedObjectKeys, metadata.get? key = none) →
      blobSize (storageMeta objectType metadata) payloads < 2 ^ 32 →
      ∃ (blob : Bytes) (decoded : Metadata F) (table : List PayloadEntry),
        encodeMakvObject objectType metadata payloads version = .ok blob ∧
        (∀ key, key ≠ payloadTableKey →
          decoded.get? key = (metadata.get? key).map canon) ∧
        decoded.get? payloadTableKey = some (.arr (table.map entryJson)) ∧
        table.map PayloadEntry.name = payloads.keys ∧
        (∀ entry ∈ table, payloadAlignment ∣ entry.offset) ∧
        ∀ copyPayloads verifyChecksum, ∃ views,
          MaKV.decodeMakvObject blob copyPayloads verifyChecksum =
            .ok ⟨objectType, decoded, views, 0, version⟩ ∧
          ∀ name, (views.get? name).map Payload.toBytes = payloads.get? name) ∧
    (∀ (name objectType : String) (plan : Json F) (raw : Bytes) (extra : Metadata F),
      (∀ key ∈ reservedEnvelopeKeys, extra.get? key = none) →
      blobSize (envelopeMeta name objectType plan extra)
        (Dict.empty.set "raw_kv_payload" raw) < 2 ^ 32 →
      ∃ (blob : Bytes) (decoded : Metadata F) (offset : Nat),
        encodeClientPutEnvelope name objectType plan raw extra = .ok blob ∧
        MaKV.decodeClientPutEnvelope blob = .ok ⟨name, objectType, decoded, raw⟩ ∧
        (∀ key, decoded.get? key = if key = "plan" then some plan.canon
          else if key = "object_type" then some (.str objectType)
          else if key = "key" then some (.str name) else (extra.get? key).map canon) ∧
        (∃ stored metaEnd,
          MaKV.decodeBlob (F := F) blob clientMagic true = .ok (stored, metaEnd, 1) ∧
          stored.get? payloadTableKey =
            some (.arr [entryJson ⟨"raw_kv_payload", offset, raw.length⟩])) ∧
        payloadAlignment ∣ offset) := by
  constructor
  · intro objectType metadata payloads version hVersion hReserved hFits
    rw [supportedObjectVersions, List.mem_singleton] at hVersion
    subst hVersion
    exact decode_encode_object hReserved hFits
  · intro name objectType plan raw extra hReserved hFits
    exact decode_encode_envelope hReserved hFits

def sampleMetadata : Metadata Decimal := Dict.empty.set "scale" (.float ⟨500⟩)

def samplePayloads : Payloads := (Dict.empty.set "codes" [1, 2, 3]).set "scales" []

theorem sample_formats_round_trip :
    (∃ blob, encodeMakvObject "quantized" sampleMetadata samplePayloads 1 = .ok blob ∧
      ∃ object, MaKV.decodeMakvObject (F := Decimal) blob true true = .ok object ∧
        object.objectType = "quantized") ∧
    ∃ blob, encodeClientPutEnvelope "k" "quantized" .null [1, 2, 3] sampleMetadata = .ok blob ∧
      ∃ envelope, MaKV.decodeClientPutEnvelope (F := Decimal) blob = .ok envelope ∧
        envelope.rawKvPayload = [1, 2, 3] := by
  have hLaws := makv_formats_round_trip (F := Decimal)
  obtain ⟨blob, decoded, table, hEncode, -, -, -, -, hDecode⟩ :=
    hLaws.1 "quantized" sampleMetadata samplePayloads 1 (by decide) (by decide)
      (by decide +kernel)
  obtain ⟨envelope, extra, offset, hPut, hGet, -⟩ :=
    hLaws.2 "k" "quantized" .null [1, 2, 3] sampleMetadata (by decide) (by decide +kernel)
  obtain ⟨views, hViews, -⟩ := hDecode true true
  exact ⟨⟨blob, hEncode, _, hViews, rfl⟩, envelope, hPut, _, hGet, rfl⟩

end LMCache.MaKV
