import LMCache.MaKV.FormatRoundTrip

/-!
# Decoders stay inside their blob

A decoder that accepts a blob has read the ranges of its payloads out of a table that anyone
may have written. The checks on the table leave no room: the ranges lie behind the metadata
and inside the blob, no two of them meet, and no name comes twice.
-/

namespace LMCache.MaKV

open Lib List

variable {F : Type} [PyRuntime F]

/-- Two ranges that have no byte in common, and of which none lies inside the other. -/
def Apart (a b : Nat × Nat) : Prop := a.2 ≤ b.1 ∨ b.2 ≤ a.1

theorem pairwise_of_overlapFrom {previousEnd : Int} {ranges : List (Nat × Nat)}
    (hOrder : ∀ r ∈ ranges, r.1 ≤ r.2) (h : overlapFrom previousEnd ranges = false) :
    (∀ r ∈ ranges, previousEnd ≤ r.1) ∧ ranges.Pairwise fun a b => a.2 ≤ b.1 := by
  induction ranges generalizing previousEnd with
  | nil => exact ⟨fun r hr => absurd hr not_mem_nil, List.Pairwise.nil⟩
  | cons first rest ih =>
    rw [overlapFrom] at h
    split_ifs at h with hMeets
    have hFirst := hOrder first (by simp)
    obtain ⟨hBehind, hRest⟩ := ih (fun r hr => hOrder r (by simp [hr])) h
    refine ⟨fun r hr => ?_, pairwise_cons.mpr ⟨fun r hr => ?_, hRest⟩⟩
    · rcases mem_cons.mp hr with rfl | hMem
      · omega
      · have hAfter := hBehind r hMem
        omega
    · exact_mod_cast hBehind r hr

/-- Ranges that the check lets pass are apart, in whatever order they are listed. -/
theorem pairwise_of_rangesOverlap {ranges : List (Nat × Nat)} (hOrder : ∀ r ∈ ranges, r.1 ≤ r.2)
    (h : rangesOverlap ranges = false) : ranges.Pairwise Apart := by
  have hPerm := perm_insertionSort
    (fun a b : Nat × Nat => a.1 < b.1 ∨ (a.1 = b.1 ∧ a.2 ≤ b.2)) ranges
  obtain ⟨-, hSorted⟩ :=
    pairwise_of_overlapFrom (fun r hr => hOrder r (hPerm.mem_iff.mp hr)) h
  have hSymm : ∀ {a b : Nat × Nat}, Apart a b → Apart b a := fun hApart => hApart.symm
  exact (hPerm.pairwise_iff hSymm).mp (hSorted.imp fun hStop => Or.inl hStop)

/-- The entry of a table says that a payload lies at a place. -/
structure Declares (nameOf : Json F → Result String) (entry : Json F) (place : PayloadEntry) :
    Prop where
  offset : (entry.item "offset" >>= Json.toInt) = .ok (place.offset : Int)
  length : (entry.item "length" >>= Json.toInt) = .ok (place.length : Int)
  name : (entry.item "name" >>= nameOf) = .ok place.name

def PayloadEntry.range (place : PayloadEntry) : Nat × Nat :=
  (place.offset, place.offset + place.length)

/-- The places that a table declares lie behind the metadata and inside the blob, apart from
each other and under distinct names. -/
structure SafeTable (blob : Bytes) (metaEnd : Nat) (places : List PayloadEntry) : Prop where
  names : (places.map (·.name)).Nodup
  inside : ∀ place ∈ places, metaEnd ≤ place.offset ∧ place.offset + place.length ≤ blob.length
  apart : places.Pairwise fun a b => Apart a.range b.range

theorem inside_of_bounds {offset length : Int} {metaEnd size : Nat}
    (h : (decide (offset < metaEnd) || decide (length < 0) || decide (offset + length > size)) =
      false) :
    (offset.toNat : Int) = offset ∧ (length.toNat : Int) = length ∧ metaEnd ≤ offset.toNat ∧
      offset.toNat + length.toNat ≤ size := by
  simp only [Bool.or_eq_false_iff, decide_eq_false_iff_not] at h
  omega

def PayloadEntry.payload (blob : Bytes) (copyPayloads : Bool) (place : PayloadEntry) : Payload :=
  if copyPayloads then .copied (blob.slice place.offset place.length)
  else .view blob place.offset place.length

def withPlace {υ : Type} (view : PayloadEntry → υ) (acc : Dict String υ × List (Nat × Nat))
    (place : PayloadEntry) : Dict String υ × List (Nat × Nat) :=
  (acc.1.set place.name (view place), acc.2 ++ [place.range])

theorem foldl_withPlace {υ : Type} (view : PayloadEntry → υ) (places : List PayloadEntry)
    (acc : Dict String υ × List (Nat × Nat)) :
    places.foldl (withPlace view) acc =
      ((places.map fun p => (p.name, view p)).foldl (fun d e => d.set e.1 e.2) acc.1,
        acc.2 ++ places.map PayloadEntry.range) := by
  induction places generalizing acc with
  | nil => simp
  | cons place places ih =>
    rw [foldl_cons, ih, withPlace, append_assoc]
    rfl

theorem places_of_foldlM {α β υ : Type} {step : β → α → Result β} {view : PayloadEntry → υ}
    (taken : β → Dict String υ × List (Nat × Nat)) (declares : α → PayloadEntry → Prop)
    (hStep : ∀ entry acc acc', step acc entry = .ok acc' →
      ∃ place, declares entry place ∧ taken acc' = withPlace view (taken acc) place)
    {table : List α} {acc acc' : β} (h : table.foldlM step acc = .ok acc') :
    ∃ places, List.Forall₂ declares table places ∧
      taken acc' = places.foldl (withPlace view) (taken acc) := by
  induction table generalizing acc with
  | nil =>
    cases h
    exact ⟨[], List.Forall₂.nil, rfl⟩
  | cons entry table ih =>
    rw [foldlM_cons] at h
    obtain ⟨middle, hFirst, hRest⟩ := bind_eq_ok.mp h
    obtain ⟨place, hPlace, hMiddle⟩ := hStep entry acc middle hFirst
    obtain ⟨places, hPlaces, hEnd⟩ := ih hRest
    refine ⟨place :: places, List.Forall₂.cons hPlace hPlaces, ?_⟩
    rw [hEnd, hMiddle, foldl_cons]

theorem tableEntryError_eq_ok {α : Type} {result : Result α} {a : α} :
    tableEntryError result = .ok a ↔ result = .ok a := by
  cases result with
  | ok b => rfl
  | error e =>
    unfold tableEntryError
    dsimp only
    split_ifs <;> constructor <;> intro h <;> cases h

theorem decodeEntry_eq_ok {blob : Bytes} {metaEnd : Nat} {copyPayloads : Bool}
    {acc acc' : DecodedTable F} {entry : Json F}
    (h : decodeEntry blob metaEnd copyPayloads acc entry = .ok acc') :
    ∃ place, Declares (fun name => .ok name.toText) entry place ∧
      (metaEnd ≤ place.offset ∧ place.offset + place.length ≤ blob.length) ∧
      (acc'.payloads, acc'.ranges) =
        withPlace (PayloadEntry.payload blob copyPayloads) (acc.payloads, acc.ranges) place := by
  obtain ⟨⟨offset, length, name⟩, hFields, h⟩ := bind_eq_ok.mp h
  obtain ⟨rawOffset, hRawOffset, hFields⟩ := bind_eq_ok.mp (tableEntryError_eq_ok.mp hFields)
  obtain ⟨offset', hOffset, hFields⟩ := bind_eq_ok.mp hFields
  obtain ⟨rawLength, hRawLength, hFields⟩ := bind_eq_ok.mp hFields
  obtain ⟨length', hLength, hFields⟩ := bind_eq_ok.mp hFields
  obtain ⟨rawName, hRawName, hFields⟩ := bind_eq_ok.mp hFields
  cases hFields
  obtain ⟨_, hBounds, h⟩ := bind_eq_ok.mp h
  obtain ⟨hOffsetNat, hLengthNat, hInside⟩ := inside_of_bounds (rejectIf_eq_ok.mp hBounds)
  cases h
  refine ⟨⟨rawName.toText, offset.toNat, length.toNat⟩, ⟨?_, ?_, ?_⟩, hInside, rfl⟩
  · rw [hRawOffset, ok_bind, hOffset, hOffsetNat]
  · rw [hRawLength, ok_bind, hLength, hLengthNat]
  · rw [hRawName, ok_bind]

theorem decodeClientEntry_eq_ok {blob : Bytes} {metaEnd : Nat}
    {acc acc' : Dict String Bytes × List (Nat × Nat)} {entry : Json F}
    (h : decodeClientEntry blob metaEnd acc entry = .ok acc') :
    ∃ place, Declares nameKey entry place ∧
      (metaEnd ≤ place.offset ∧ place.offset + place.length ≤ blob.length) ∧
      acc' = withPlace (fun p => blob.slice p.offset p.length) acc place := by
  obtain ⟨rawOffset, hRawOffset, h⟩ := bind_eq_ok.mp h
  obtain ⟨offset, hOffset, h⟩ := bind_eq_ok.mp h
  obtain ⟨rawLength, hRawLength, h⟩ := bind_eq_ok.mp h
  obtain ⟨length, hLength, h⟩ := bind_eq_ok.mp h
  obtain ⟨_, hBounds, h⟩ := bind_eq_ok.mp h
  obtain ⟨rawName, hRawName, h⟩ := bind_eq_ok.mp h
  obtain ⟨name, hName, h⟩ := bind_eq_ok.mp h
  obtain ⟨hOffsetNat, hLengthNat, hInside⟩ := inside_of_bounds (rejectIf_eq_ok.mp hBounds)
  cases h
  refine ⟨⟨name, offset.toNat, length.toNat⟩, ⟨?_, ?_, ?_⟩, hInside, rfl⟩
  · rw [hRawOffset, ok_bind, hOffset, hOffsetNat]
  · rw [hRawLength, ok_bind, hLength, hLengthNat]
  · rw [hRawName, ok_bind, hName]

/-- A place that an entry of the table of a blob declares, behind the metadata and inside. -/
def DeclaresInside (nameOf : Json F → Result String) (blob : Bytes) (metaEnd : Nat)
    (entry : Json F) (place : PayloadEntry) : Prop :=
  Declares nameOf entry place ∧ metaEnd ≤ place.offset ∧ place.offset + place.length ≤ blob.length

theorem safeTable_of_checks {υ : Type} {view : PayloadEntry → υ} {blob : Bytes} {metaEnd : Nat}
    {nameOf : Json F → Result String} {table : List (Json F)} {places : List PayloadEntry}
    {taken : Dict String υ × List (Nat × Nat)}
    (hPlaces : List.Forall₂ (DeclaresInside nameOf blob metaEnd) table places)
    (hTaken : taken = places.foldl (withPlace view) (Dict.empty, []))
    (hChecks : (decide (taken.1.size ≠ table.length) || rangesOverlap taken.2) = false) :
    SafeTable blob metaEnd places ∧ taken.1.entries = places.map fun p => (p.name, view p) := by
  rw [foldl_withPlace, nil_append] at hTaken
  have hPayloads : taken.1 = Dict.ofList (places.map fun p => (p.name, view p)) := by
    rw [hTaken]
    rfl
  have hRanges : taken.2 = places.map PayloadEntry.range := by rw [hTaken]
  rw [Bool.or_eq_false_iff, decide_eq_false_iff_not, not_not, hPlaces.length_eq, hPayloads,
    hRanges] at hChecks
  have hNodup := Dict.nodup_of_size_ofList (l := places.map fun p => (p.name, view p))
    (by rw [length_map]; exact hChecks.1)
  refine ⟨⟨?_, fun place hPlace => ?_, ?_⟩, ?_⟩
  · rw [map_map] at hNodup
    exact hNodup
  · obtain ⟨i, hi, rfl⟩ := getElem_of_mem hPlace
    exact (forall₂_iff_get.mp hPlaces).2 i (hPlaces.length_eq ▸ hi) hi |>.2
  · have hApart := pairwise_of_rangesOverlap (fun r hr => ?_) hChecks.2
    · exact pairwise_map.mp hApart
    · obtain ⟨place, -, rfl⟩ := mem_map.mp hr
      exact Nat.le_add_right _ _
  · rw [hPayloads]
    exact Dict.entries_ofList hNodup

theorem decodeBlob_eq_ok {blob magic : Bytes} {verifyChecksum : Bool} {metadata : Metadata F}
    {metaEnd version : Nat}
    (h : decodeBlob blob magic verifyChecksum = .ok (metadata, metaEnd, version)) :
    uint32At blob 12 = blob.length ∧ metaEnd = headerSize + uint32At blob 8 ∧
      metaEnd ≤ blob.length ∧ loads (blob.slice headerSize (uint32At blob 8)) = .ok metadata := by
  obtain ⟨_, hHeader, h⟩ := bind_eq_ok.mp h
  obtain ⟨_, -, h⟩ := bind_eq_ok.mp h
  obtain ⟨_, -, h⟩ := bind_eq_ok.mp h
  obtain ⟨_, hTotal, h⟩ := bind_eq_ok.mp h
  obtain ⟨_, hMeta, h⟩ := bind_eq_ok.mp h
  obtain ⟨_, -, h⟩ := bind_eq_ok.mp h
  obtain ⟨loaded, hLoads, h⟩ := bind_eq_ok.mp h
  cases h
  have hLength := rejectIf_eq_ok.mp hTotal
  have hRoom := rejectIf_eq_ok.mp hMeta
  simp only [Bool.or_eq_false_iff, decide_eq_false_iff_not, not_not] at hLength hRoom
  exact ⟨hLength.2, rfl, by omega, hLoads⟩

omit [PyRuntime F] in
theorem table_of_match {α : Type} {metadata : Metadata F} {message : String}
    {rest : List (Json F) → Result α} {a : α} (h : (match metadata.get? payloadTableKey with
      | some (.arr table) => do
        let table ← (.ok table : Result (List (Json F)))
        rest table
      | _ => do
        let table ← (valueError message : Result (List (Json F)))
        rest table) = .ok a) :
    ∃ table, metadata.get? payloadTableKey = some (.arr table) ∧ rest table = .ok a := by
  split at h
  · rename_i table hTable
    exact ⟨table, hTable, h⟩
  · cases h

/-- A decoder has read its payloads out of the table in the metadata of the blob. -/
structure ReadFrom (nameOf : Json F → Result String) (blob : Bytes)
    (places : List PayloadEntry) : Prop where
  total : uint32At blob 12 = blob.length
  metaEnd : headerSize + uint32At blob 8 ≤ blob.length
  table : ∃ (metadata : Metadata F) (table : List (Json F)),
    loads (blob.slice headerSize (uint32At blob 8)) = .ok metadata ∧
      metadata.get? payloadTableKey = some (.arr table) ∧
      List.Forall₂ (Declares nameOf) table places
  safe : SafeTable blob (headerSize + uint32At blob 8) places

theorem readFrom_of_decodeMakvObject {blob : Bytes} {copyPayloads verifyChecksum : Bool}
    {object : MaKVObject F} (h : decodeMakvObject blob copyPayloads verifyChecksum = .ok object) :
    ∃ places, ReadFrom (F := F) (fun name => .ok name.toText) blob places ∧
      object.payloads.entries = places.map fun p => (p.name, p.payload blob copyPayloads) := by
  obtain ⟨⟨metadata, metaEnd, version⟩, hBlob, h⟩ := bind_eq_ok.mp h
  obtain ⟨hTotal, rfl, hMetaEnd, hLoads⟩ := decodeBlob_eq_ok hBlob
  obtain ⟨table, hGet, h⟩ := table_of_match h
  obtain ⟨decoded, hLoop, h⟩ := bind_eq_ok.mp h
  obtain ⟨_, hChecks, h⟩ := bind_eq_ok.mp h
  obtain ⟨checksum, -, h⟩ := bind_eq_ok.mp h
  obtain ⟨objectType, -, h⟩ := bind_eq_ok.mp h
  cases h
  obtain ⟨places, hPlaces, hTaken⟩ := places_of_foldlM
    (fun acc : DecodedTable F => (acc.payloads, acc.ranges))
    (DeclaresInside _ blob (headerSize + uint32At blob 8))
    (fun entry acc acc' hStep => by
      obtain ⟨place, hDeclares, hInside, hNext⟩ := decodeEntry_eq_ok hStep
      exact ⟨place, ⟨hDeclares, hInside⟩, hNext⟩) hLoop
  obtain ⟨hSafe, hEntries⟩ := safeTable_of_checks hPlaces hTaken (rejectIf_eq_ok.mp hChecks)
  exact ⟨places, ⟨hTotal, hMetaEnd, ⟨metadata, table, hLoads, hGet,
    hPlaces.imp fun _ _ hPlace => hPlace.1⟩, hSafe⟩, hEntries⟩

theorem readFrom_of_decodeClientPutEnvelope {blob : Bytes} {envelope : ClientPutEnvelope F}
    (h : decodeClientPutEnvelope blob = .ok envelope) :
    ∃ places, ReadFrom (F := F) nameKey blob places ∧
      ∃ place ∈ places, place.name = String.ofList (Json.stringText "raw_kv_payload") ∧
        envelope.rawKvPayload = blob.slice place.offset place.length := by
  obtain ⟨⟨metadata, metaEnd, version⟩, hBlob, h⟩ := bind_eq_ok.mp h
  obtain ⟨hTotal, rfl, hMetaEnd, hLoads⟩ := decodeBlob_eq_ok hBlob
  obtain ⟨_, -, h⟩ := bind_eq_ok.mp h
  obtain ⟨table, hGet, h⟩ := table_of_match h
  obtain ⟨decoded, hLoop, h⟩ := bind_eq_ok.mp h
  obtain ⟨_, hChecks, h⟩ := bind_eq_ok.mp h
  obtain ⟨key, -, h⟩ := bind_eq_ok.mp h
  obtain ⟨objectType, -, h⟩ := bind_eq_ok.mp h
  dsimp only at h
  cases hFound : decoded.1.get? (String.ofList (Json.stringText "raw_kv_payload")) with
  | none =>
    rw [hFound] at h
    cases h
  | some raw =>
  rw [hFound] at h
  cases h
  obtain ⟨places, hPlaces, hTaken⟩ := places_of_foldlM
    (fun acc : Dict String Bytes × List (Nat × Nat) => acc)
    (DeclaresInside nameKey blob (headerSize + uint32At blob 8))
    (fun entry acc acc' hStep => by
      obtain ⟨place, hDeclares, hInside, hNext⟩ := decodeClientEntry_eq_ok hStep
      exact ⟨place, ⟨hDeclares, hInside⟩, hNext⟩) hLoop
  obtain ⟨hSafe, hEntries⟩ := safeTable_of_checks hPlaces hTaken (rejectIf_eq_ok.mp hChecks)
  have hEntry := Dict.get?_eq_some_iff.mp hFound
  rw [hEntries] at hEntry
  obtain ⟨place, hPlace, hEq⟩ := mem_map.mp hEntry
  obtain ⟨hName, hData⟩ := Prod.mk.inj hEq
  exact ⟨places, ⟨hTotal, hMetaEnd, ⟨metadata, table, hLoads, hGet,
    hPlaces.imp fun _ _ hPlace => hPlace.1⟩, hSafe⟩, place, hPlace, hName, hData.symm⟩

/-- A blob that a decoder accepts has the length its header declares. The table in its metadata
gives every payload a name of its own and a range behind the metadata and inside the blob, apart
from all other ranges, and the payloads are read from these ranges. -/
theorem decoders_bounds_safe :
    (∀ (blob : Bytes) (copyPayloads verifyChecksum : Bool) (object : MaKVObject F),
      decodeMakvObject blob copyPayloads verifyChecksum = .ok object →
      ∃ places, ReadFrom (F := F) (fun name => .ok name.toText) blob places ∧
        object.payloads.entries = places.map fun p => (p.name, p.payload blob copyPayloads)) ∧
    ∀ (blob : Bytes) (envelope : ClientPutEnvelope F),
      decodeClientPutEnvelope blob = .ok envelope →
      ∃ places, ReadFrom (F := F) nameKey blob places ∧
        ∃ place ∈ places, place.name = String.ofList (Json.stringText "raw_kv_payload") ∧
          envelope.rawKvPayload = blob.slice place.offset place.length :=
  ⟨fun _ _ _ _ h => readFrom_of_decodeMakvObject h,
    fun _ _ h => readFrom_of_decodeClientPutEnvelope h⟩

theorem sample_bounds_safe :
    (∃ blob object, decodeMakvObject (F := Decimal) blob false true = .ok object ∧
      ∃ places, ReadFrom (F := Decimal) (fun name => .ok name.toText) blob places ∧
        object.payloads.entries = places.map fun p => (p.name, p.payload blob false)) ∧
    ∃ blob envelope, decodeClientPutEnvelope (F := Decimal) blob = .ok envelope ∧
      ∃ places, ReadFrom (F := Decimal) nameKey blob places ∧
        ∃ place ∈ places, place.name = String.ofList (Json.stringText "raw_kv_payload") ∧
          envelope.rawKvPayload = blob.slice place.offset place.length := by
  obtain ⟨blob, decoded, table, -, -, -, -, -, hDecode⟩ := @decode_encode_object Decimal _
    sampleMetadata samplePayloads "quantized" (by decide) (by decide +kernel)
  obtain ⟨views, hViews, -⟩ := hDecode false true
  obtain ⟨envelope, extra, offset, -, hGet, -⟩ := @decode_encode_envelope Decimal _
    "k" "quantized" .null [1, 2, 3] sampleMetadata (by decide) (by decide +kernel)
  exact ⟨⟨blob, _, hViews, decoders_bounds_safe.1 blob false true _ hViews⟩,
    envelope, _, hGet, decoders_bounds_safe.2 envelope _ hGet⟩

end LMCache.MaKV
