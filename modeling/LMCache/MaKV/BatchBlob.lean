import LMCache.MaKV.Format

/-!
# MKVB batch blobs

A batch GET is answered with one binary directory followed by the objects at aligned
offsets. The manager packs the blob whole or writes it segment by segment behind a frame
header; the client decodes a whole blob, or reads the directory first and then the objects
as they arrive on its socket.
-/

namespace LMCache.MaKV

open Lib

variable {F : Type} [PyRuntime F]

def frameHeaderSize : Nat := 12

def maxHeaderBytes : Nat := 64 * 1024

def defaultMaxPayloadBytes : Nat := 8 * 1024 * 1024 * 1024

def batchBlobMagic : Bytes := [0x4d, 0x4b, 0x56, 0x42]

def batchBlobVersion : Nat := 1

def batchStreamVersion : Nat := 1

def batchBlobHeaderSize : Nat := 20

def batchBlobEntrySize : Nat := 24

def batchBlobAlignment : Nat := 64

def maxBatchObjects : Nat := 4096

/-- A big-endian field of `struct.pack`. -/
def packBE (width value : Nat) : Result Bytes :=
  if value < 256 ^ width then .ok (Bytes.toBE width value)
  else raise .structError "argument out of range"

def uintAt (blob : Bytes) (offset width : Nat) : Nat := Bytes.ofBE (blob.slice offset width)

/-- `FRAME_HEADER.pack`, the format `!IQ`. -/
def packFrameHeader (headerLength payloadLength : Nat) : Result Bytes := do
  let headerLength ← packBE 4 headerLength
  let payloadLength ← packBE 8 payloadLength
  return headerLength ++ payloadLength

/-- `BATCH_BLOB_HEADER.pack`, the format `!4sIIQ`. -/
def packBatchHeader (count totalLength : Nat) : Result Bytes := do
  let version ← packBE 4 batchBlobVersion
  let count ← packBE 4 count
  let totalLength ← packBE 8 totalLength
  return batchBlobMagic ++ version ++ count ++ totalLength

/-- `BATCH_BLOB_ENTRY.pack`, the format `!B7xQQ`. -/
def packBatchEntry (found offset length : Nat) : Result Bytes := do
  let found ← packBE 1 found
  let offset ← packBE 8 offset
  let length ← packBE 8 length
  return found ++ Bytes.zeros 7 ++ offset ++ length

/-- The ranges of the values behind `payloadOffset` and the end of the last one. -/
def batchOffsets : Nat → List (Option Bytes) → List (Option (Nat × Nat)) × Nat
  | payloadOffset, [] => ([], payloadOffset)
  | payloadOffset, none :: rest =>
    let (offsets, stop) := batchOffsets payloadOffset rest
    (none :: offsets, stop)
  | payloadOffset, some value :: rest =>
    let offset := Bytes.alignUp batchBlobAlignment payloadOffset
    let (offsets, stop) := batchOffsets (offset + value.length) rest
    (some (offset, value.length) :: offsets, stop)

structure BatchLayout where
  directory : Bytes
  segments : List Bytes
  writtenOffset : Nat

def layoutEntry (index : Nat) (layout : BatchLayout) :
    Option Bytes × Option (Nat × Nat) → Result BatchLayout
  | (some value, some (objectOffset, length)) => do
    let entry ← packBatchEntry 1 objectOffset length
    let padding := objectOffset - layout.writtenOffset
    return {
      directory := layout.directory.assign (batchBlobHeaderSize + index * batchBlobEntrySize) entry
      segments := layout.segments ++ (if padding = 0 then [] else [Bytes.zeros padding]) ++ [value]
      writtenOffset := objectOffset + length }
  | _ => do
    let entry ← packBatchEntry 0 0 0
    return { layout with
      directory := layout.directory.assign
        (batchBlobHeaderSize + index * batchBlobEntrySize) entry }

def layoutEntries : Nat → BatchLayout → List (Option Bytes × Option (Nat × Nat)) →
    Result BatchLayout
  | _, layout, [] => .ok layout
  | index, layout, item :: rest => do
    let layout ← layoutEntry index layout item
    layoutEntries (index + 1) layout rest

def directoryEnd (count : Nat) : Nat := batchBlobHeaderSize + count * batchBlobEntrySize

/-- The directory, the segments that start with it, and the length of the blob. -/
def batchBlobLayout (values : List (Option Bytes)) : Result (Bytes × List Bytes × Nat) := do
  rejectIf (values.length > maxBatchObjects) "MaKV batch blob contains too many objects"
  let (offsets, payloadOffset) := batchOffsets (directoryEnd values.length) values
  let header ← packBatchHeader values.length payloadOffset
  let directory := (Bytes.zeros (directoryEnd values.length)).assign 0 header
  let layout ← layoutEntries 0 ⟨directory, [], directoryEnd values.length⟩ (values.zip offsets)
  return (layout.directory, layout.directory :: layout.segments, payloadOffset)

def batchBlobSize (values : List (Option Bytes)) : Result Nat := do
  rejectIf (values.length > maxBatchObjects) "MaKV batch blob contains too many objects"
  return values.foldl
    (fun payloadOffset value =>
      match value with
      | none => payloadOffset
      | some value => Bytes.alignUp batchBlobAlignment payloadOffset + value.length)
    (directoryEnd values.length)

def writeBatchBlobFrame (header : Metadata F) (values : List (Option Bytes)) :
    Result (List Bytes) := do
  let headerBytes := dumps header
  rejectIf (headerBytes.length > maxHeaderBytes) "MaKV frame header exceeds configured limit"
  let (_, segments, payloadLength) ← batchBlobLayout values
  let size ← batchBlobSize values
  if payloadLength ≠ size then
    raise .runtimeError "MaKV batch blob layout size mismatch"
  let frameHeader ← packFrameHeader headerBytes.length payloadLength
  return [frameHeader, headerBytes] ++ segments

structure BatchTiming (F : Type) where
  hotCacheHit : Bool
  hotCacheMs : F
  storageMs : F
  validateMs : F
  totalMs : F
  batchStorageMs : F
  batchValidateMs : F
  batchTotalMs : F

def BatchTiming.compact (timing : BatchTiming F) : Json F :=
  .arr [.int (if timing.hotCacheHit then 1 else 0), .float timing.hotCacheMs,
    .float timing.storageMs, .float timing.validateMs, .float timing.totalMs,
    .float timing.batchStorageMs, .float timing.batchValidateMs, .float timing.batchTotalMs]

/-- The header of the response to a batch GET of `timings.length` keys; a long batch goes
without its timings. -/
def batchBlobResponse (timings : List (BatchTiming F)) : Metadata F :=
  (((Dict.empty.set "status" (.str "ok")).set "batch_blob_version" (.int batchBlobVersion)).set
    "count" (.int timings.length)).set "batch_timings"
      (.arr (if timings.length ≤ 256 then timings.map BatchTiming.compact else []))

def encodeBatchBlob (values : List (Option Bytes)) : Result Bytes := do
  let (_, segments, totalLength) ← batchBlobLayout values
  return Bytes.assignAll (Bytes.zeros totalLength) 0 segments

structure DirectoryScan where
  result : List (Option (Nat × Nat))
  ranges : List (Nat × Nat)

def decodeDirectoryEntry (directory : Bytes) (directoryEnd totalLength index : Nat)
    (scan : DirectoryScan) : Result DirectoryScan := do
  let entryOffset := batchBlobHeaderSize + index * batchBlobEntrySize
  let found := uintAt directory entryOffset 1
  let offset := uintAt directory (entryOffset + 8) 8
  let length := uintAt directory (entryOffset + 16) 8
  rejectIf (found ≠ 0 && found ≠ 1) "invalid MaKV batch blob found flag"
  if found = 0 then
    rejectIf (offset ≠ 0 || length ≠ 0) "missing MaKV batch entry has a payload range"
    return { scan with result := scan.result ++ [none] }
  else
    rejectIf (offset < directoryEnd || offset > totalLength)
      "MaKV batch payload offset is out of bounds"
    rejectIf (length > totalLength - offset) "MaKV batch payload length is out of bounds"
    return ⟨scan.result ++ [some (offset, length)], scan.ranges ++ [(offset, offset + length)]⟩

def decodeDirectoryEntries (directory : Bytes) (directoryEnd totalLength : Nat) :
    Nat → Nat → DirectoryScan → Result DirectoryScan
  | 0, _, scan => .ok scan
  | count + 1, index, scan => do
    let scan ← decodeDirectoryEntry directory directoryEnd totalLength index scan
    decodeDirectoryEntries directory directoryEnd totalLength count (index + 1) scan

def batchOverlapFrom : Nat → List (Nat × Nat) → Bool
  | _, [] => false
  | previousEnd, (start, stop) :: rest =>
    if start < previousEnd then true else batchOverlapFrom (max previousEnd stop) rest

/-- Validate a directory before the objects behind it are received. -/
def decodeBatchBlobDirectory (directory : Bytes) (payloadLength expectedCount : Nat) :
    Result (List (Option (Nat × Nat))) := do
  rejectIf (expectedCount > maxBatchObjects) "invalid MaKV batch object count"
  rejectIf (payloadLength > defaultMaxPayloadBytes) "invalid MaKV batch blob payload length"
  rejectIf (directory.length < batchBlobHeaderSize) "truncated MaKV batch blob header"
  let version := uintAt directory 4 4
  let count := uintAt directory 8 4
  let totalLength := uintAt directory 12 8
  rejectIf (directory.slice 0 4 ≠ batchBlobMagic) "invalid MaKV batch blob magic"
  rejectIf (version ≠ batchBlobVersion) s!"unsupported MaKV batch blob version {version}"
  rejectIf (count ≠ expectedCount) "MaKV batch blob object count mismatch"
  rejectIf (totalLength ≠ payloadLength) "MaKV batch blob length mismatch"
  rejectIf (directoryEnd count > directory.length || directoryEnd count > totalLength)
    "MaKV batch blob directory is out of bounds"
  let scan ← decodeDirectoryEntries directory (directoryEnd count) totalLength count 0 ⟨[], []⟩
  rejectIf (batchOverlapFrom (directoryEnd count)
    (scan.ranges.insertionSort fun a b => a.1 < b.1 ∨ (a.1 = b.1 ∧ a.2 ≤ b.2)))
    "MaKV batch payload ranges overlap"
  return scan.result

/-- The values of a whole blob, as the ranges of the directory cut them out. -/
def decodeBatchBlob (blob : Bytes) (expectedCount : Nat) : Result (List (Option Bytes)) := do
  let entries ← decodeBatchBlobDirectory blob blob.length expectedCount
  return entries.map fun entry => entry.map fun (offset, length) => blob.slice offset length

/-- The bytes still to arrive, cut as the network delivers them. -/
abbrev Socket := List Bytes

def recvInto : Nat → Socket → Result (Bytes × Socket)
  | 0, sock => .ok ([], sock)
  | _ + 1, [] => raise .connectionError "MaKV manager closed an incomplete response"
  | size + 1, chunk :: rest =>
    if chunk.length ≤ size + 1 then do
      let (data, sock) ← recvInto (size + 1 - chunk.length) rest
      return (chunk ++ data, sock)
    else .ok (chunk.take (size + 1), chunk.drop (size + 1) :: rest)

def discardChunk : Nat := 64 * 1024

/-- Consume `size` bytes, at most a chunk at a time. -/
def discardSocketBytes (size : Nat) (sock : Socket) : Result Socket :=
  if size = 0 then .ok sock
  else do
    let (_, sock) ← recvInto (min size discardChunk) sock
    discardSocketBytes (size - min size discardChunk) sock
  termination_by size
  decreasing_by
    unfold discardChunk
    omega

def loadHeader (bytes : Bytes) : Result (Metadata F) :=
  match (Bytes.decodeUtf8 bytes).bind Json.read with
  | none => valueError "invalid JSON"
  | some (.obj members) => .ok (Dict.ofList members)
  | some _ => valueError "MaKV frame header must be an object"

/-- Read the header of a frame and leave its payload on the socket. -/
def readSocketFrameHeader (sock : Socket) : Result ((Metadata F × Nat) × Socket) := do
  let (rawHeader, sock) ← recvInto frameHeaderSize sock
  let headerLength := uintAt rawHeader 0 4
  let payloadLength := uintAt rawHeader 4 8
  rejectIf (headerLength = 0 || headerLength > maxHeaderBytes) "invalid MaKV frame header length"
  rejectIf (payloadLength > defaultMaxPayloadBytes) "MaKV frame payload exceeds configured limit"
  let (headerBytes, sock) ← recvInto headerLength sock
  let header ← loadHeader headerBytes
  return ((header, payloadLength), sock)

def readSocketFrame (sock : Socket) : Result ((Metadata F × Bytes) × Socket) := do
  let ((header, payloadLength), sock) ← readSocketFrameHeader sock
  let (payload, sock) ← recvInto payloadLength sock
  return ((header, payload), sock)

structure MemoryObj (F : Type) where
  byteArray : Bytes
  checksumVerified : Bool
  serverTiming : Option (List (String × Json F))

/-- The conversions of a timing entry; their errors are reported as one kind. -/
def timingError {α : Type} : Result α → Result α
  | .error e =>
    if e.kind = .typeError ∨ e.kind = .valueError ∨ e.kind = .overflowError then
      raise .runtimeError "invalid MaKV batch timing value"
    else .error e
  | .ok a => .ok a

/-- Expand the compact timing entry of a batch blob. -/
def decodeBatchTiming : Json F → Result (Option (List (String × Json F)))
  | .null => .ok none
  | .arr [hit, cache, storage, validate, total, batchStorage, batchValidate, batchTotal] =>
    timingError do
      let hit ← hit.toInt
      let fields ← [("hot_cache_ms", cache), ("storage_ms", storage), ("validate_ms", validate),
        ("total_ms", total), ("batch_storage_ms", batchStorage),
        ("batch_validate_ms", batchValidate), ("batch_total_ms", batchTotal)].mapM
          fun (name, value) => do
            let x ← PyRuntime.floatOf value
            return (name, Json.float x)
      return some (("hot_cache_hit", .bool (hit ≠ 0)) :: fields)
  | _ => raise .runtimeError "invalid MaKV batch timing entry"

def memoryObjFromResponse (header : Metadata F) (payload : Bytes) : Option (MemoryObj F) :=
  if ((header.get? "found").getD (.bool false)).truthy then
    some {
      byteArray := payload
      checksumVerified := ((header.get? "checksum_verified").getD (.bool false)).truthy
      serverTiming := match header.get? "makv_server_timing" with
        | some (.obj members) => some members
        | _ => none }
  else none

/-- `int(header.get(key, -1))`. -/
def headerInt (header : Metadata F) (key : String) : Result Int :=
  ((header.get? key).getD (.int (-1))).toInt

def headerEquals (header : Metadata F) (key : String) (value : Nat) : Bool :=
  ((header.get? key).getD .null).equalsInt value

def requireOk (header : Metadata F) : Result Unit :=
  if ((header.get? "status").getD .null).equalsText "ok" then .ok ()
  else raise .runtimeError
    (((header.get? "error").map Json.toText).getD "MaKV batch GET failed")

/-- One response of the protocol with a frame for every object. -/
def legacyBatchResult (header : Metadata F) (payload : Bytes) (expectedIndex : Nat) :
    Result (Option (MemoryObj F)) := do
  requireOk header
  let index ← headerInt header "index"
  if index ≠ expectedIndex then
    raise .runtimeError "MaKV batch GET response order mismatch"
  return memoryObjFromResponse header payload

abbrev Streamed (F : Type) := List (Nat × Option (MemoryObj F)) × Result Unit

def Streamed.cons (index : Nat) (value : Option (MemoryObj F)) (rest : Streamed F) : Streamed F :=
  ((index, value) :: rest.1, rest.2)

/-- Frames read one by one; `check` is what the protocol asks of every further header. -/
def streamFrames (check : Metadata F → Result Unit) : Nat → Nat → Socket → Streamed F
  | 0, _, _ => ([], .ok ())
  | count + 1, index, sock =>
    let frame : Result (Option (MemoryObj F) × Socket) := do
      let ((header, payload), sock) ← readSocketFrame sock
      check header
      let value ← legacyBatchResult header payload index
      return (value, sock)
    match frame with
    | .error e => ([], .error e)
    | .ok (value, sock) => (streamFrames check count (index + 1) sock).cons index value

/-- The first frame, whose header has already been read, and then the others. -/
def streamFromFirst (check : Metadata F → Result Unit) (count : Nat) (header : Metadata F)
    (payloadLength : Nat) (sock : Socket) : Streamed F :=
  let frame : Result (Option (MemoryObj F) × Socket) := do
    let (payload, sock) ← recvInto payloadLength sock
    let value ← legacyBatchResult header payload 0
    return (value, sock)
  match frame with
  | .error e => ([], .error e)
  | .ok (value, sock) => (streamFrames check (count - 1) 1 sock).cons 0 value

def receiveObject (cursor : Nat) (timing : Option (List (String × Json F))) (offset length : Nat)
    (sock : Socket) : Result (Option (MemoryObj F) × Socket) := do
  if offset < cursor then
    raise .runtimeError "MaKV batch blob entries are not wire ordered"
  let sock ← discardSocketBytes (offset - cursor) sock
  let (payload, sock) ← recvInto length sock
  let header : Metadata F :=
    (Dict.empty.set "found" (.bool true)).set "checksum_verified" (.bool true)
  let header := match timing with
    | some timing => header.set "makv_server_timing" (.obj timing)
    | none => header
  return (memoryObjFromResponse header payload, sock)

/-- The loop over the entries of a directory; `cursor` is how much of the blob was read. -/
def streamEntries (timings : List (Json F)) (payloadLength : Nat) :
    Nat → Nat → Socket → List (Option (Nat × Nat)) → Streamed F
  | _, cursor, sock, [] =>
    ([], do
      let _ ← discardSocketBytes (payloadLength - cursor) sock
      return ())
  | index, cursor, sock, entry :: rest =>
    let received : Result (Option (MemoryObj F) × Socket × Nat) := do
      let timing ← decodeBatchTiming (timings[index]?.getD .null)
      match entry with
      | none => return (none, sock, cursor)
      | some (offset, length) =>
        let (value, sock) ← receiveObject cursor timing offset length sock
        return (value, sock, offset + length)
    match received with
    | .error e => ([], .error e)
    | .ok (value, sock, cursor) =>
      (streamEntries timings payloadLength (index + 1) cursor sock rest).cons index value

/-- The directory of a blob on the socket, and the timings in the header of its frame. -/
def readDirectory (count : Nat) (header : Metadata F) (payloadLength : Nat) (sock : Socket) :
    Result (List (Option (Nat × Nat)) × List (Json F) × Nat × Socket) := do
  if (← headerInt header "count") ≠ count then
    raise .runtimeError "MaKV batch blob response count mismatch"
  if payloadLength < batchBlobHeaderSize then
    raise .runtimeError "truncated MaKV batch blob header"
  let (head, sock) ← recvInto batchBlobHeaderSize sock
  let directorySize := directoryEnd (uintAt head 8 4)
  if directorySize > payloadLength then
    raise .runtimeError "MaKV batch blob directory is out of bounds"
  let (entries, sock) ← recvInto (directorySize - batchBlobHeaderSize) sock
  let entries ← decodeBatchBlobDirectory (head ++ entries) payloadLength count
  let timings ← match (header.get? "batch_timings").getD (.arr []) with
    | .arr timings =>
      if timings.length = 0 ∨ timings.length = count then .ok timings
      else raise .runtimeError "MaKV batch blob timing count mismatch"
    | _ => raise .runtimeError "MaKV batch blob timing count mismatch"
  return (entries, timings, directorySize, sock)

/-- Read one batch response for `count` keys, in whichever of the three formats it comes. -/
def batchedGetChunkStreaming (count : Nat) (sock : Socket) : Streamed F :=
  let first : Result ((Metadata F × Nat) × Socket) := do
    let ((header, payloadLength), sock) ← readSocketFrameHeader sock
    requireOk header
    return ((header, payloadLength), sock)
  match first with
  | .error e => ([], .error e)
  | .ok ((header, payloadLength), sock) =>
    if headerEquals header "batch_stream_version" batchStreamVersion then
      match headerInt header "count" with
      | .error e => ([], .error e)
      | .ok declared =>
        if declared ≠ count then
          ([], raise .runtimeError "MaKV batch stream response count mismatch")
        else
          streamFromFirst
            (fun header => do
              let mismatch := raise .runtimeError "MaKV batch stream response metadata mismatch"
              if !headerEquals header "batch_stream_version" batchStreamVersion then mismatch
              if (← headerInt header "count") ≠ count then mismatch)
            count header payloadLength sock
    else if headerEquals header "batch_blob_version" batchBlobVersion then
      match readDirectory count header payloadLength sock with
      | .error e => ([], .error e)
      | .ok (entries, timings, cursor, sock) =>
        streamEntries timings payloadLength 0 cursor sock entries
    else streamFromFirst (fun _ => .ok ()) count header payloadLength sock

end LMCache.MaKV
