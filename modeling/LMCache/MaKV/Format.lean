import LMCache.Lib.Python
import LMCache.Lib.Digests

/-!
# MaKV PUT envelopes and stored objects

A blob is a header of twenty bytes, the metadata as JSON and the payloads at aligned
offsets. The metadata holds the table of the payloads, whose offsets depend on the length
of the metadata, so the encoder lays the table out again until it no longer changes.
-/

namespace LMCache.MaKV

open Lib

variable {F : Type} [PyRuntime F]

def clientMagic : Bytes := [0x4d, 0x4b, 0x56, 0x50]

def objectMagic : Bytes := [0x4d, 0x41, 0x4b, 0x56]

def headerSize : Nat := 20

def checksumOffset : Nat := 16

def supportedObjectVersions : List Nat := [1]

def payloadAlignment : Nat := 64

abbrev Metadata (F : Type) := Dict String (Json F)

abbrev Payloads := Dict String Bytes

def payloadTableKey : String := "_payload_table"

structure PayloadEntry where
  name : String
  offset : Nat
  length : Nat
  deriving DecidableEq, Repr

def PayloadEntry.toJson (entry : PayloadEntry) : Json F :=
  .obj [("name", .str entry.name), ("offset", .int entry.offset), ("length", .int entry.length)]

/-- The table of the payloads behind `offset`, each at the next aligned offset. -/
def payloadEntries (offset : Nat) : List (String × Bytes) → List PayloadEntry
  | [] => []
  | (name, data) :: rest =>
    ⟨name, Bytes.alignUp payloadAlignment offset, data.length⟩ ::
      payloadEntries (Bytes.alignUp payloadAlignment offset + data.length) rest

def withPayloadTable (metadata : Metadata F) (table : List PayloadEntry) : Metadata F :=
  metadata.set payloadTableKey (.arr (table.map PayloadEntry.toJson))

/-- `json.dumps(metadata, separators=(",", ":"), sort_keys=True).encode("utf-8")`. -/
def dumps (metadata : Metadata F) : Bytes := Bytes.encodeUtf8 (Json.text (.obj metadata.entries))

/-- The table that the metadata with `table` calls for. -/
def nextTable (metadata : Metadata F) (payloads : Payloads) (table : List PayloadEntry) :
    List PayloadEntry :=
  payloadEntries (headerSize + (dumps (withPayloadTable metadata table)).length) payloads.entries

/-- The loop over the layouts: ends when a layout calls for itself. Two metadata
dictionaries that differ only in their tables are equal when the tables are. -/
def layoutRounds (metadata : Metadata F) (payloads : Payloads) :
    Nat → List PayloadEntry → Option (List PayloadEntry)
  | 0, _ => none
  | rounds + 1, table =>
    if nextTable metadata payloads table = table then some table
    else layoutRounds metadata payloads rounds (nextTable metadata payloads table)

/-- A bound on the rounds of the loop, by the sizes of the metadata and of the payloads. -/
def roundLimit (metadata : Metadata F) (payloads : Payloads) : Nat :=
  (21 + (dumps (withPayloadTable metadata (payloadEntries 0 payloads.entries))).length +
    (payloads.entries.map fun p => payloadAlignment + p.2.length).sum) ^ 2 + 3

def buildMetadataWithOffsets (metadata : Metadata F) (payloads : Payloads) :
    Option (List PayloadEntry) :=
  layoutRounds metadata payloads (roundLimit metadata payloads) []

/-- `struct.pack("<I", value)`. -/
def packUInt32 (value : Nat) : Result Bytes :=
  if value < 2 ^ 32 then .ok (Bytes.toLE 4 value)
  else raise .structError "argument out of range"

def packHeader (magic : Bytes) (version metaLength totalLength checksum : Nat) : Result Bytes := do
  let version ← packUInt32 version
  let metaLength ← packUInt32 metaLength
  let totalLength ← packUInt32 totalLength
  let checksum ← packUInt32 checksum
  return magic ++ version ++ metaLength ++ totalLength ++ checksum

/-- `payload_table[name]` of the table as a dictionary by name. -/
def entryOf (table : List PayloadEntry) (name : String) : Result PayloadEntry :=
  match (Dict.ofList (table.map fun e => (e.name, e))).get? name with
  | some entry => .ok entry
  | none => raise .keyError name

def totalLength (table : List PayloadEntry) :
    Nat → List (String × Bytes) → Result Nat
  | total, [] => .ok total
  | total, (name, data) :: rest => do
    let entry ← entryOf table name
    totalLength table (max total (entry.offset + data.length)) rest

def writePayloads (table : List PayloadEntry) :
    Bytes → List (String × Bytes) → Result Bytes
  | body, [] => .ok body
  | body, (name, data) :: rest => do
    let entry ← entryOf table name
    writePayloads table (body.assign entry.offset data) rest

def encodeBlob (magic : Bytes) (metadata : Metadata F) (payloads : Payloads)
    (version : Nat) : Result Bytes := do
  if version ∉ supportedObjectVersions then
    valueError s!"unsupported MaKV protocol version {version}"
  let table ← match buildMetadataWithOffsets metadata payloads with
    | some table => .ok table
    | none => raise .runtimeError "the payload table does not settle"
  let metaBytes := dumps (withPayloadTable metadata table)
  let total ← totalLength table (headerSize + metaBytes.length) payloads.entries
  let header ← packHeader magic version metaBytes.length total 0
  let body := (Bytes.zeros total).assign 0 header
  let body := body.assign headerSize metaBytes
  let body ← writePayloads table body payloads.entries
  let checksum := crc32 body 0 % 2 ^ 32
  return body.assign checksumOffset (Bytes.toLE 4 checksum)

/-- The metadata of a stored object; what the caller gives comes last, so it wins. -/
def storageMeta (objectType : String) (metadata : Metadata F) : Metadata F :=
  metadata.entries.foldl (fun d e => d.set e.1 e.2)
    (Dict.empty.set "object_type" (.str objectType))

def encodeMakvObject (objectType : String) (metadata : Metadata F) (payloads : Payloads)
    (protocolVersion : Nat) : Result Bytes :=
  encodeBlob objectMagic (storageMeta objectType metadata) payloads protocolVersion

def envelopeMeta (key objectType : String) (plan : Json F) (extraMetadata : Metadata F) :
    Metadata F :=
  extraMetadata.entries.foldl (fun d e => d.set e.1 e.2)
    (((Dict.empty.set "key" (.str key)).set "object_type" (.str objectType)).set "plan" plan)

def encodeClientPutEnvelope (key objectType : String) (plan : Json F) (rawKvPayload : Bytes)
    (extraMetadata : Metadata F) : Result Bytes :=
  encodeBlob clientMagic (envelopeMeta key objectType plan extraMetadata)
    (Dict.empty.set "raw_kv_payload" rawKvPayload) 1

/-- A payload of a decoded object: a copy, or a view into the blob. -/
inductive Payload
  | copied (data : Bytes)
  | view (blob : Bytes) (offset length : Nat)

def Payload.toBytes : Payload → Bytes
  | .copied data => data
  | .view blob offset length => blob.slice offset length

structure MaKVObject (F : Type) where
  objectType : String
  metadata : Metadata F
  payloads : Dict String Payload
  checksum : Int
  protocolVersion : Nat

structure ClientPutEnvelope (F : Type) where
  key : String
  objectType : String
  metadata : Metadata F
  rawKvPayload : Bytes

def uint32At (blob : Bytes) (offset : Nat) : Nat := Bytes.ofLE (blob.slice offset 4)

/-- `(version, total_length, checksum)` without a scan of the payloads. -/
def peekMakvHeader (blob : Bytes) : Result (Nat × Nat × Nat) := do
  rejectIf (blob.length < headerSize) "truncated MaKV blob header"
  rejectIf (blob.slice 0 4 ≠ objectMagic) "not a MaKV object"
  rejectIf (uint32At blob 4 ∉ supportedObjectVersions)
    s!"Unsupported MaKV protocol version {uint32At blob 4}"
  rejectIf (uint32At blob 12 ≠ blob.length) "MaKV blob length mismatch"
  return (uint32At blob 4, uint32At blob 12, uint32At blob 16)

/-- The check of a blob whose checksum field counts as zero. -/
def expectedChecksum (blob : Bytes) : Nat :=
  crc32 (blob.drop (checksumOffset + 4))
    (crc32 [0, 0, 0, 0] (crc32 (blob.take checksumOffset) 0)) % 2 ^ 32

def loads (bytes : Bytes) : Result (Metadata F) :=
  match (Bytes.decodeUtf8 bytes).bind Json.read with
  | none => valueError "invalid MaKV metadata JSON"
  | some (.obj members) => .ok (Dict.ofList members)
  | some _ => valueError "MaKV metadata must be an object"

/-- Metadata, end of the metadata and version of a blob. -/
def decodeBlob (blob expectedMagic : Bytes) (verifyChecksum : Bool) :
    Result (Metadata F × Nat × Nat) := do
  rejectIf (blob.length < headerSize) "truncated MaKV blob header"
  let metaLength := uint32At blob 8
  let total := uint32At blob 12
  rejectIf (blob.slice 0 4 ≠ expectedMagic) "Unsupported MaKV blob magic"
  rejectIf (uint32At blob 4 ∉ supportedObjectVersions)
    s!"Unsupported MaKV protocol version {uint32At blob 4}"
  rejectIf (total < headerSize || total ≠ blob.length) "MaKV blob length mismatch"
  rejectIf (metaLength > total - headerSize) "MaKV metadata length is out of bounds"
  rejectIf (verifyChecksum && uint32At blob checksumOffset ≠ expectedChecksum blob)
    "MaKV checksum mismatch"
  let metadata ← loads (blob.slice headerSize metaLength)
  return (metadata, headerSize + metaLength, uint32At blob 4)

def overlapFrom : Int → List (Nat × Nat) → Bool
  | _, [] => false
  | previousEnd, (start, stop) :: rest =>
    if (start : Int) < previousEnd then true else overlapFrom stop rest

/-- `sorted(ranges)`: by start, then by end. -/
def rangesOverlap (ranges : List (Nat × Nat)) : Bool :=
  overlapFrom (-1) (ranges.insertionSort fun a b => a.1 < b.1 ∨ (a.1 = b.1 ∧ a.2 ≤ b.2))

/-- The entry of the table with its three fields replaced by their converted values. -/
def retainedEntry (members : List (String × Json F)) (name : String) (offset length : Nat) :
    Json F :=
  .obj ((((Dict.ofList members).set "name" (.str name)).set "offset" (.int offset)).set
    "length" (.int length)).entries

/-- A failed conversion of a table entry is reported as one kind of error; an overflow of
`int` passes through. -/
def tableEntryError {α : Type} : Result α → Result α
  | .error e =>
    if e.kind = .keyError ∨ e.kind = .typeError ∨ e.kind = .valueError then
      valueError "invalid MaKV payload table entry"
    else .error e
  | .ok a => .ok a

structure DecodedTable (F : Type) where
  payloads : Dict String Payload
  retained : List (Json F)
  ranges : List (Nat × Nat)

def decodeEntry (blob : Bytes) (metaEnd : Nat) (copyPayloads : Bool) (acc : DecodedTable F)
    (entry : Json F) : Result (DecodedTable F) := do
  let (offset, length, name) ← tableEntryError do
    let offset ← (← entry.item "offset").toInt
    let length ← (← entry.item "length").toInt
    let name := (← entry.item "name").toText
    return (offset, length, name)
  rejectIf (offset < metaEnd || length < 0 || offset + length > blob.length)
    "MaKV payload table out of bounds"
  let start := offset.toNat
  let size := length.toNat
  let members := match entry with
    | .obj members => members
    | _ => []
  return {
    payloads := acc.payloads.set name
      (if copyPayloads then .copied (blob.slice start size) else .view blob start size)
    retained := acc.retained ++ [retainedEntry members name start size]
    ranges := acc.ranges ++ [(start, start + size)] }

def metadataText (metadata : Metadata F) (key : String) : Result String :=
  match metadata.get? key with
  | some value => .ok value.toText
  | none => raise .keyError key

/-- `int(metadata.get("checksum", 0))`. -/
def checksumOf (metadata : Metadata F) : Result Int :=
  match metadata.get? "checksum" with
  | some value => value.toInt
  | none => .ok 0

/-- Decode a stored MaKV object, optionally with views in place of copies. -/
def decodeMakvObject (blob : Bytes) (copyPayloads verifyChecksum : Bool) :
    Result (MaKVObject F) := do
  let (metadata, metaEnd, version) ← decodeBlob blob objectMagic verifyChecksum
  let table ← match metadata.get? payloadTableKey with
    | some (.arr table) => .ok table
    | _ => valueError "MaKV object is missing its payload table"
  let metadata := metadata.erase payloadTableKey
  let decoded ← table.foldlM (decodeEntry blob metaEnd copyPayloads) ⟨Dict.empty, [], []⟩
  rejectIf (decoded.payloads.size ≠ table.length || rangesOverlap decoded.ranges)
    "MaKV payload table overlaps or repeats entries"
  let metadata := metadata.set payloadTableKey (.arr decoded.retained)
  let checksum ← checksumOf metadata
  let objectType ← metadataText metadata "object_type"
  return {
    objectType := objectType
    metadata := metadata.erase "object_type"
    payloads := decoded.payloads
    checksum := checksum
    protocolVersion := version }

/-- The text of a number among the keys of a dictionary: numbers that are equal are one key,
whether they are written as integers, as floats or as truth values. -/
def numberKey (x : F) : String :=
  match PyRuntime.truncate x with
  | .ok n => if PyRuntime.equalsInt x n then String.ofList (Json.intText n)
    else String.ofList (Json.text (.float x))
  | .error _ => String.ofList (Json.text (.float x))

def nameKey : Json F → Result String
  | .str s => .ok (String.ofList (Json.stringText s))
  | .arr _ => raise .typeError "unhashable type: 'list'"
  | .obj _ => raise .typeError "unhashable type: 'dict'"
  | .bool b => .ok (String.ofList (Json.intText (if b then 1 else 0)))
  | .float x => .ok (numberKey x)
  | value => .ok (String.ofList value.text)

def decodeClientEntry (blob : Bytes) (metaEnd : Nat)
    (acc : Dict String Bytes × List (Nat × Nat)) (entry : Json F) :
    Result (Dict String Bytes × List (Nat × Nat)) := do
  let offset ← (← entry.item "offset").toInt
  let length ← (← entry.item "length").toInt
  rejectIf (offset < metaEnd || length < 0 || offset + length > blob.length)
    "MaKV client payload table out of bounds"
  let start := offset.toNat
  let size := length.toNat
  let name ← nameKey (← entry.item "name")
  return (acc.1.set name (blob.slice start size), acc.2 ++ [(start, start + size)])

def decodeClientPutEnvelope (blob : Bytes) : Result (ClientPutEnvelope F) := do
  let (metadata, metaEnd, version) ← decodeBlob blob clientMagic true
  rejectIf (version ≠ 1) "client MaKV PUT envelopes only support protocol v1"
  let table ← match metadata.get? payloadTableKey with
    | some (.arr table) => .ok table
    | _ => valueError "MaKV client envelope is missing its payload table"
  let metadata := metadata.erase payloadTableKey
  let decoded ← table.foldlM (decodeClientEntry blob metaEnd) (Dict.empty, [])
  rejectIf (decoded.1.size ≠ table.length || rangesOverlap decoded.2)
    "MaKV client payload table overlaps or repeats entries"
  let key ← metadataText metadata "key"
  let objectType ← metadataText metadata "object_type"
  let rawKvPayload ← match decoded.1.get? (String.ofList (Json.stringText "raw_kv_payload")) with
    | some data => .ok data
    | none => raise .keyError "raw_kv_payload"
  return ⟨key, objectType, metadata, rawKvPayload⟩

end LMCache.MaKV
