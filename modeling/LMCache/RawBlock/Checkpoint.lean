import LMCache.Lib.Digests
import LMCache.Lib.Python
import LMCache.Lib.Run

/-!
# Metadata checkpoints of the raw-block store

The head of the device holds two metadata containers. A checkpoint takes the next sequence number,
which decides the container it overwrites: first the payload, then the header. Recovery takes the
valid container with the highest number. Several threads may be in `_checkpoint_once` at a time;
each of its locked sections, its read of `_meta_seq` and its two writes is a step.
-/

namespace LMCache.RawBlock

open Lib

inductive IoEngine
  | posix
  | ioUring
  | uringCmd
  deriving DecidableEq

/-- The settings of a core that the checkpoints use, as `__init__` checks them. -/
structure Config where
  blockAlign : Nat
  metaTotalBytes : Nat
  metaMagic : Bytes
  metaVersion : Nat
  ioEngine : IoEngine
  blockAlign_pow : ∃ k, blockAlign = 2 ^ k
  metaTotalBytes_dvd : blockAlign ∣ metaTotalBytes
  metaMagic_length : metaMagic.length = 8
  metaVersion_pos : 0 < metaVersion
  two_copies : blockAlign < metaTotalBytes / 2 / blockAlign * blockAlign

namespace Config

variable (cfg : Config)

def metaCopyCount : Nat := 2

def metaContainerBytes : Nat :=
  cfg.metaTotalBytes / metaCopyCount / cfg.blockAlign * cfg.blockAlign

def metaPayloadCapacity : Nat := cfg.metaContainerBytes - cfg.blockAlign

/-- The offset of a container, an element of `_meta_container_offsets`. -/
def containerOffset (idx : Nat) : Nat := idx * cfg.metaContainerBytes

end Config

def metaHeaderSize : Nat := 32

/-- A little-endian field of `struct.pack`. -/
def packLE (width value : Nat) : Result Bytes :=
  if value < 256 ^ width then .ok (Bytes.toLE width value)
  else raise .structError "argument out of range"

/-- `_META_HEADER_STRUCT.pack`, the format `<8sIQQI`. -/
def packMetaHeader (cfg : Config) (seq payloadLen crc : Nat) : Result Bytes := do
  let version ← packLE 4 cfg.metaVersion
  let seq ← packLE 8 seq
  let payloadLen ← packLE 8 payloadLen
  let crc ← packLE 4 crc
  return cfg.metaMagic ++ version ++ seq ++ payloadLen ++ crc

structure MetaHeader where
  seq : Nat
  payloadLen : Nat
  crc : Nat
  containerOffset : Nat
  deriving DecidableEq

/-- `_read_meta_header`. A block shorter than the header is an error of `unpack`. -/
def readMetaHeader (cfg : Config) (device : Bytes) (containerOffset : Nat) :
    Result (Option MetaHeader) := do
  let hdr : Bytes := (device.slice containerOffset cfg.blockAlign).take metaHeaderSize
  raiseIf .structError (hdr.length ≠ metaHeaderSize) "unpack requires a buffer of 32 bytes"
  let seq := Bytes.ofLE (hdr.slice 12 8)
  let payloadLen := Bytes.ofLE (hdr.slice 20 8)
  let crc := Bytes.ofLE (hdr.slice 28 4)
  if hdr.slice 0 8 ≠ cfg.metaMagic ∨ Bytes.ofLE (hdr.slice 8 4) ≠ cfg.metaVersion then return none
  if payloadLen ≤ 0 ∨ cfg.metaPayloadCapacity < payloadLen then return none
  return some ⟨seq, payloadLen, crc, containerOffset⟩

def loadMetaPayload (cfg : Config) (device : Bytes) (header : MetaHeader) : Option Bytes :=
  let totalLen := Bytes.alignUp cfg.blockAlign header.payloadLen
  let buf := device.slice (header.containerOffset + cfg.blockAlign) totalLen
  let payload := buf.take header.payloadLen
  if crc32 payload 0 % 2 ^ 32 ≠ header.crc then none else some payload

def readCheckpoint (cfg : Config) (device : Bytes) (containerOffset : Nat) :
    Result (Option (MetaHeader × Bytes)) := do
  match ← readMetaHeader cfg device containerOffset with
  | none => return none
  | some header => return (loadMetaPayload cfg device header).map fun payload => (header, payload)

/-- The checkpoint to keep of the best one so far and one that was found. -/
def laterCheckpoint (best : Option (MetaHeader × Bytes)) :
    Option (MetaHeader × Bytes) → Option (MetaHeader × Bytes)
  | none => best
  | some found =>
    match best with
    | none => some found
    | some kept => if kept.1.seq < found.1.seq then some found else some kept

def selectLatestCheckpoint (cfg : Config) (device : Bytes) :
    Result (Option (MetaHeader × Bytes)) :=
  (List.range Config.metaCopyCount).foldlM
    (fun best idx => do
      let found ← readCheckpoint cfg device (cfg.containerOffset idx)
      return laterCheckpoint best found)
    none

abbrev SnapshotText := { text : Bytes // text ≠ [] }

/-- A call of `_write_checkpoint` that has read `_meta_seq`. -/
structure CheckpointWrite where
  payload : Bytes
  dirtyTotal : Nat
  nextSeq : Nat
  headerBlock : Bytes
  payloadWritten : Bool := false
  headerWritten : Bool := false

inductive CheckpointCall
  | checked
  | snapped (payload : Bytes) (dirtyTotal : Nat)
  | writing (w : CheckpointWrite)

/-- A checkpoint whose `_write_checkpoint` returned `True`. -/
structure Checkpoint where
  seq : Nat
  payload : Bytes

/-- The core as far as checkpoints read and write it. `snapshot` is the text that
`_snapshot_state` would give now; `completed` is the last checkpoint that returned `True`, a
record that nothing reads. -/
structure Core where
  device : Bytes
  metaSeq : Nat
  metaDirtyTotal : Nat
  metaPersisted : Nat
  snapshot : SnapshotText
  calls : List CheckpointCall
  completed : Option Checkpoint

def targetIdx (nextSeq : Nat) : Nat := (nextSeq - 1) % Config.metaCopyCount

/-- The first part of `_write_checkpoint`; `none` when it returns `False` or raises. -/
def prepareWrite (cfg : Config) (metaSeq : Nat) (payload : Bytes) (dirtyTotal : Nat) :
    Option CheckpointWrite :=
  if cfg.metaPayloadCapacity < payload.length then none
  else
    let nextSeq := metaSeq + 1
    match packMetaHeader cfg nextSeq payload.length (crc32 payload 0 % 2 ^ 32) with
    | .error _ => none
    | .ok packed =>
      some {
        payload, dirtyTotal, nextSeq
        headerBlock := packed ++ Bytes.zeros (cfg.blockAlign - metaHeaderSize) }

namespace CheckpointWrite

variable (cfg : Config) (w : CheckpointWrite)

def target : Nat := cfg.containerOffset (targetIdx w.nextSeq)

def paddedPayload : Bytes :=
  w.payload ++ Bytes.zeros (Bytes.alignUp cfg.blockAlign w.payload.length - w.payload.length)

/-- The two writes go to the device as one batch, in no fixed order. -/
def isBatched : Bool :=
  match cfg.ioEngine with
  | .posix => false
  | .ioUring => w.payload.length == Bytes.alignUp cfg.blockAlign w.payload.length
  | .uringCmd => true

end CheckpointWrite

inductive CheckpointEvent
  /-- The index changes, and with it the snapshot. -/
  | change (snapshot : SnapshotText)
  /-- `_checkpoint_once` looks whether the state is dirty and the core is idle. -/
  | checkpointOnce (force idleOk : Bool)
  | snapshotState (i : Nat)
  /-- `_write_checkpoint` reads `_meta_seq` and prepares the header. -/
  | beginWrite (i : Nat)
  | writePayload (i : Nat)
  | writeHeader (i : Nat)
  /-- A write raises. -/
  | fail (i : Nat)
  /-- `_write_checkpoint` sets `_meta_seq` and returns `True`. -/
  | finish (i : Nat)

namespace Core

variable (cfg : Config)

def start (device : Bytes) (metaSeq : Nat) (snapshot : SnapshotText) : Core :=
  ⟨device, metaSeq, 0, 0, snapshot, [], none⟩

/-- Put the `i`-th call into its next stage. -/
def advance (σ : Core) (i : Nat) (call : CheckpointCall) : Core :=
  { σ with calls := σ.calls.set i call }

def leave (σ : Core) (i : Nat) : Core := { σ with calls := σ.calls.eraseIdx i }

def writePayload (σ : Core) (i : Nat) (w : CheckpointWrite) : Core :=
  { σ.advance i (.writing { w with payloadWritten := true }) with
    device := σ.device.assign (w.target cfg + cfg.blockAlign) (w.paddedPayload cfg) }

def writeHeader (σ : Core) (i : Nat) (w : CheckpointWrite) : Core :=
  { σ.advance i (.writing { w with headerWritten := true }) with
    device := σ.device.assign (w.target cfg) (w.headerBlock.take cfg.blockAlign) }

def finish (σ : Core) (i : Nat) (w : CheckpointWrite) : Core :=
  { σ.leave i with
    metaSeq := w.nextSeq
    metaPersisted := max σ.metaPersisted w.dirtyTotal
    completed := some ⟨w.nextSeq, w.payload⟩ }

def step (σ : Core) : CheckpointEvent → Option Core
  | .change snapshot => some { σ with snapshot, metaDirtyTotal := σ.metaDirtyTotal + 1 }
  | .checkpointOnce force idleOk =>
    if σ.metaDirtyTotal ≤ σ.metaPersisted then some σ
    else if !force && !idleOk then some σ
    else some { σ with calls := σ.calls ++ [.checked] }
  | .snapshotState i =>
    match σ.calls[i]? with
    | some .checked => some (σ.advance i (.snapped σ.snapshot.val σ.metaDirtyTotal))
    | _ => none
  | .beginWrite i =>
    match σ.calls[i]? with
    | some (.snapped payload dirtyTotal) =>
      match prepareWrite cfg σ.metaSeq payload dirtyTotal with
      | none => some (σ.leave i)
      | some w => some (σ.advance i (.writing w))
    | _ => none
  | .writePayload i =>
    match σ.calls[i]? with
    | some (.writing w) => if w.payloadWritten then none else some (σ.writePayload cfg i w)
    | _ => none
  | .writeHeader i =>
    match σ.calls[i]? with
    | some (.writing w) =>
      if w.headerWritten || !(w.payloadWritten || w.isBatched cfg) then none
      else some (σ.writeHeader cfg i w)
    | _ => none
  | .fail i =>
    match σ.calls[i]? with
    | some (.writing _) => some (σ.leave i)
    | _ => none
  | .finish i =>
    match σ.calls[i]? with
    | some (.writing w) =>
      if w.payloadWritten && w.headerWritten then some (σ.finish i w) else none
    | _ => none

end Core

end LMCache.RawBlock
