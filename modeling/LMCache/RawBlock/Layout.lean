import LMCache.Lib.Extents
import LMCache.RawBlock.Checkpoint

/-!
# The layout of the device

`RawBlockCore.__init__` checks the settings and `_ensure_capacity_and_layout` divides the
device: two metadata containers at its head, then the data slots, each a header and a payload.
A `Layout` is what the constructor accepts. The writes of `put_many` and of a checkpoint are
the ranges that reach the device, after raw commands are cut into chunks.
-/

namespace LMCache.RawBlock

open Lib

/-- The settings that the layout and the writes depend on. -/
structure RawBlockCoreConfig where
  devicePath : String
  capacityBytes : Int
  blockAlign : Int
  headerBytes : Int
  slotBytes : Int
  useOdirect : Bool
  metaTotalBytes : Int
  metaMagic : Bytes
  metaVersion : Int
  maxDataTransferSize : Int
  loadCheckpointOnInit : Bool
  ioEngine : String
  iouringQueueDepth : Int
  useUringCmd : Bool
  metaCheckpointPlacementId : Option Int

/-- What the constructor finds on the machine. -/
structure DeviceEnv where
  /-- The bytes of the device, or what opening it raises. -/
  device : Result Bytes
  /-- The checks that the path names a raw-command namespace. -/
  namespaceDevice : Result Unit
  hasQueueDir : Bool
  maxHwSectorsKb : Option Int
  maxSegments : Option Int
  pageSize : Nat

structure Layout extends Config where
  headerBytes : Nat
  slotBytes : Nat
  useOdirect : Bool
  /-- The size at which raw commands are cut; nothing else reads it. -/
  maxDataTransferSize : Nat
  deviceSize : Nat
  effectiveCapacityBytes : Nat
  headerBytes_ge : 24 ≤ headerBytes
  headerBytes_dvd : blockAlign ∣ headerBytes
  slotBytes_ge : headerBytes + 1 ≤ slotBytes
  slotBytes_dvd : blockAlign ∣ slotBytes
  transferSize_pos : 0 < maxDataTransferSize
  transferSize_dvd : blockAlign ∣ maxDataTransferSize
  capacity_le : effectiveCapacityBytes ≤ deviceSize
  metaTotalBytes_lt : metaTotalBytes < effectiveCapacityBytes
  maxSlots_pos : 0 < (effectiveCapacityBytes - metaTotalBytes) / slotBytes

/-- `normalize_raw_block_io_engine`; whether the engine is `io_uring`. -/
def normalizeIoEngine (ioEngine : String) : Result Bool :=
  if ioEngine = "" then .ok false
  else if ioEngine.toLower = "posix" then .ok false
  else if ioEngine.toLower = "io_uring" then .ok true
  else valueError "io_engine must be one of: io_uring, posix"

def maxFdpPlacementId : Int := 0xFFFF

/-- `normalize_raw_block_placement_ids` of one identifier. -/
def checkPlacementId (fieldName : String) : Option Int → Result Unit
  | none => .ok ()
  | some placementId => do
    rejectIf (placementId = 0) s!"{fieldName} must not contain placement identifier 0"
    rejectIf (placementId < 0) s!"{fieldName} must contain positive integers or None"
    rejectIf (placementId > maxFdpPlacementId)
      (s!"{fieldName} must contain placement identifiers in range " ++
        s!"1..={maxFdpPlacementId} or None")

theorem toNat_dvd_of_emod {a b : Int} (ha : 0 < a) (hb : 0 ≤ b) (h : ¬ b % a ≠ 0) :
    a.toNat ∣ b.toNat := by
  rw [not_not] at h
  have hDvd : a ∣ b := Int.dvd_of_emod_eq_zero h
  lift a to Nat using ha.le
  lift b to Nat using hb
  exact Int.natCast_dvd_natCast.mp hDvd

/-- A size at which raw commands can be cut. -/
abbrev TransferSize (blockAlign : Nat) := { size : Nat // 0 < size ∧ blockAlign ∣ size }

def resolveMaxDataTransferSize (env : DeviceEnv) (blockAlign : Nat) (hAlign : 0 < blockAlign)
    (configuredSize : Int) : Result (TransferSize blockAlign) :=
  if hSize : 0 < configuredSize then
    if hMultiple : configuredSize % (blockAlign : Int) ≠ 0 then
      valueError (s!"max_data_transfer_size ({configuredSize}) must be a " ++
        s!"multiple of block_align ({blockAlign})")
    else .ok ⟨configuredSize.toNat, Int.pos_iff_toNat_pos.mp hSize,
      toNat_dvd_of_emod (Int.natCast_pos.mpr hAlign) hSize.le hMultiple⟩
  else if !env.hasQueueDir then
    raise .runtimeError ("RustRawBlockBackend: unable to derive NVMe sysfs queue path from " ++
      "NVMe character device path for auto max_data_transfer_size")
  else
    match env.maxHwSectorsKb.filter (0 < ·) with
    | none =>
      raise .runtimeError ("RustRawBlockBackend: failed to read max_hw_sectors_kb " ++
        "for auto max_data_transfer_size")
    | some maxHwSectorsKb =>
      let hwBytes := maxHwSectorsKb.toNat * 1024
      let resolvedBytes :=
        match env.maxSegments.filter (0 < ·) with
        | none => hwBytes
        | some maxSegments => min hwBytes (maxSegments.toNat * env.pageSize)
      let alignedBytes := resolvedBytes / blockAlign * blockAlign
      if hAligned : alignedBytes ≤ 0 then .ok ⟨blockAlign, hAlign, Nat.dvd_refl _⟩
      else .ok ⟨alignedBytes, Nat.lt_of_not_le hAligned, Nat.dvd_mul_left _ _⟩

def RawBlockCoreConfig.transferSize (env : DeviceEnv) (config : RawBlockCoreConfig)
    (hAlign : 0 < config.blockAlign.toNat) : Result (TransferSize config.blockAlign.toNat) :=
  if config.useUringCmd then
    resolveMaxDataTransferSize env config.blockAlign.toNat hAlign config.maxDataTransferSize
  else .ok ⟨config.blockAlign.toNat, hAlign, Nat.dvd_refl _⟩

theorem pow_of_and_sub_one {blockAlign : Int}
    (h : ¬ (blockAlign ≤ 0 ∨ blockAlign.toNat &&& (blockAlign.toNat - 1) ≠ 0)) :
    ∃ k, blockAlign.toNat = 2 ^ k := by
  rw [not_or, not_not] at h
  exact (Nat.and_sub_one_eq_zero_iff_isPowerOfTwo (by omega)).mp h.2

/-- `RawBlockCore.__init__` with `_ensure_capacity_and_layout`, and of the recovery the reading
of the newest checkpoint. -/
def Layout.init (env : DeviceEnv) (config : RawBlockCoreConfig) : Result Layout := do
  let usesUring ← normalizeIoEngine config.ioEngine
  checkPlacementId "meta_checkpoint_placement_id" config.metaCheckpointPlacementId
  rejectIf (config.metaCheckpointPlacementId.isSome && !(usesUring && config.useUringCmd))
    "meta_checkpoint_placement_id requires io_engine='io_uring' and use_uring_cmd=true"
  rejectIf (config.devicePath = "") "RawBlockCore requires a non-empty device_path"
  if hAlign : config.blockAlign ≤ 0 ∨
      config.blockAlign.toNat &&& (config.blockAlign.toNat - 1) ≠ 0 then
    valueError s!"block_align must be a power of 2, got {config.blockAlign}"
  else if hHeader : config.headerBytes < 24 then valueError "header_bytes must be >= 24"
  else if hHeaderAlign : config.headerBytes % config.blockAlign ≠ 0 then
    valueError "header_bytes must be a multiple of block_align"
  else if hSlot : config.slotBytes < config.headerBytes + 1 then
    valueError "slot_bytes must be >= header_bytes + 1"
  else if hSlotAlign : config.slotBytes % config.blockAlign ≠ 0 then
    valueError "slot_bytes must be a multiple of block_align"
  else if hMeta : config.metaTotalBytes ≤ config.blockAlign then
    valueError "meta_total_bytes must provide room for metadata header"
  else if hMetaAlign : config.metaTotalBytes % config.blockAlign ≠ 0 then
    valueError "meta_total_bytes must be a multiple of block_align"
  else if hMagic : config.metaMagic.length ≠ 8 then
    valueError "meta_magic must be exactly 8 bytes"
  else if hVersion : config.metaVersion ≤ 0 then valueError "meta_version must be > 0"
  else
    rejectIf (config.iouringQueueDepth ≤ 0) "iouring_queue_depth must be > 0"
    rejectIf (config.useUringCmd && !usesUring) "use_uring_cmd requires io_uring as io_engine"
    (if config.useUringCmd then env.namespaceDevice else .ok ())
    let transfer ← config.transferSize env (by omega : 0 < config.blockAlign.toNat)
    rejectIf (config.metaMagic.any fun byte => 128 ≤ byte.toNat) "meta_magic must be ASCII bytes"
    let metaContainerBytes := config.metaTotalBytes.toNat / Config.metaCopyCount /
      config.blockAlign.toNat * config.blockAlign.toNat
    if hCopies : metaContainerBytes ≤ config.blockAlign.toNat then
      valueError "meta_total_bytes must provide room for at least two metadata copies"
    else
      let device ← env.device
      let requested := if 0 < config.capacityBytes then config.capacityBytes.toNat else
        device.length
      if hCapacity : min requested device.length ≤ config.metaTotalBytes.toNat then
        raise .runtimeError "metadata region exceeds usable device capacity"
      else if hSlots : (min requested device.length - config.metaTotalBytes.toNat) /
          config.slotBytes.toNat ≤ 0 then
        raise .runtimeError "raw block capacity too small for slot size after metadata"
      else
        let layout : Layout := {
          blockAlign := config.blockAlign.toNat
          metaTotalBytes := config.metaTotalBytes.toNat
          metaMagic := config.metaMagic
          metaVersion := config.metaVersion.toNat
          ioEngine :=
            if config.useUringCmd then .uringCmd else if usesUring then .ioUring else .posix
          blockAlign_pow := pow_of_and_sub_one hAlign
          metaTotalBytes_dvd := toNat_dvd_of_emod (by omega) (by omega) hMetaAlign
          metaMagic_length := not_not.mp hMagic
          metaVersion_pos := by omega
          two_copies := Nat.lt_of_not_le hCopies
          headerBytes := config.headerBytes.toNat
          slotBytes := config.slotBytes.toNat
          -- `use_odirect` is ignored for raw commands
          useOdirect := config.useOdirect && !config.useUringCmd
          maxDataTransferSize := transfer.val
          deviceSize := device.length
          effectiveCapacityBytes := min requested device.length
          headerBytes_ge := by omega
          headerBytes_dvd := toNat_dvd_of_emod (by omega) (by omega) hHeaderAlign
          slotBytes_ge := by omega
          slotBytes_dvd := toNat_dvd_of_emod (by omega) (by omega) hSlotAlign
          transferSize_pos := transfer.property.1
          transferSize_dvd := transfer.property.2
          capacity_le := Nat.min_le_right _ _
          metaTotalBytes_lt := Nat.lt_of_not_le hCapacity
          maxSlots_pos := Nat.lt_of_not_le hSlots }
        let _ ←
          (if config.loadCheckpointOnInit then selectLatestCheckpoint layout.toConfig device
            else .ok none)
        return layout

namespace Layout

variable (layout : Layout)

def maxSlots : Nat :=
  (layout.effectiveCapacityBytes - layout.metaTotalBytes) / layout.slotBytes

def dataBaseOffset : Nat := layout.metaTotalBytes

def slotToOffset (slot : Nat) : Nat := layout.dataBaseOffset + slot * layout.slotBytes

def offsetToSlot (offset : Nat) : Nat := (offset - layout.dataBaseOffset) / layout.slotBytes

def container (idx : Nat) : Extent := ⟨layout.containerOffset idx, layout.metaContainerBytes⟩

def slot (s : Nat) : Extent := ⟨layout.slotToOffset s, layout.slotBytes⟩

def requiresTransferAlignment : Bool := layout.useOdirect || layout.ioEngine == .uringCmd

def validateUringCmdChunk (offset totalLen : Nat) : Result Unit := do
  rejectIf (offset % layout.blockAlign ≠ 0) "io_uring_cmd requires aligned offsets"
  rejectIf (totalLen % layout.blockAlign ≠ 0) "io_uring_cmd requires aligned transfer lengths"

/-- The chunks of one raw-command write from `cursor` on. -/
def uringCmdChunks (offset cursor totalLen : Nat) : Result (List Extent) :=
  if cursor < totalLen then do
    let chunkLen := min layout.maxDataTransferSize (totalLen - cursor)
    layout.validateUringCmdChunk (offset + cursor) chunkLen
    let rest ← uringCmdChunks offset (cursor + chunkLen) totalLen
    return ⟨offset + cursor, chunkLen⟩ :: rest
  else .ok []
termination_by totalLen - cursor
decreasing_by
  have hPos := layout.transferSize_pos
  omega

/-- `_write_buffers`: the ranges that reach the device. -/
def writeBuffers (writes : List Extent) : Result (List Extent) :=
  match layout.ioEngine with
  | .posix | .ioUring => .ok writes
  | .uringCmd => do
    let chunks ← writes.mapM fun w => do
      layout.validateUringCmdChunk w.start w.size
      layout.uringCmdChunks w.start 0 w.size
    return chunks.flatten

/-- The total length of `_prepare_write_payload`. -/
def preparePayload (payloadLen : Nat) : Result Nat :=
  let payloadCapacity := layout.slotBytes - layout.headerBytes
  if payloadCapacity < payloadLen then
    raise .runtimeError
      s!"RawBlockCore payload {payloadLen} exceeds slot capacity {payloadCapacity}"
  else if layout.requiresTransferAlignment then
    let totalLen := Bytes.alignUp layout.blockAlign payloadLen
    if payloadCapacity < totalLen then
      raise .runtimeError s!"Aligned payload {totalLen} exceeds slot capacity {payloadCapacity}"
    else .ok totalLen
  else .ok payloadLen

/-- `_write_one`, for a payload of `payloadLen` bytes in the slot at `offset`. -/
def writeOne (offset payloadLen : Nat) : Result (List Extent) := do
  let totalLen ← layout.preparePayload payloadLen
  let hdrTotal :=
    if layout.requiresTransferAlignment then
      Bytes.alignUp layout.blockAlign layout.headerBytes
    else layout.headerBytes
  layout.writeBuffers [⟨offset, hdrTotal⟩, ⟨offset + layout.headerBytes, totalLen⟩]

/-- The writes of `_write_checkpoint`, if the payload fits. -/
def checkpointWrites (metaSeq : Nat) (payload : Bytes) (dirtyTotal : Nat) :
    Result (List Extent) :=
  match prepareWrite layout.toConfig metaSeq payload dirtyTotal with
  | none => .ok []
  | some w =>
    layout.writeBuffers
      [⟨w.target layout.toConfig + layout.blockAlign,
          Bytes.alignUp layout.blockAlign payload.length⟩,
        ⟨w.target layout.toConfig, layout.blockAlign⟩]

end Layout

end LMCache.RawBlock
