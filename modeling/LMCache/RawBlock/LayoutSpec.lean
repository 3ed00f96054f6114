import LMCache.RawBlock.CheckpointSpec
import LMCache.RawBlock.Layout
import LMCache.RawBlock.Slots

/-!
# No region runs into another

The containers and the slots of an accepted layout are disjoint ranges inside the capacity, and
every write stays in its own, aligned where the transfers have to be. What the constructor
does not check is that a block holds the 32 bytes of a checkpoint header.
-/

namespace LMCache.RawBlock

open Lib List Nat

namespace Layout

variable (layout : Layout) {i : Nat}

theorem containers_disjoint {j : Nat} (hi : i < 2) (hj : j < 2) (h : i ≠ j) :
    (layout.container i).Disjoint (layout.container j) :=
  containerOffset_disjoint layout.toConfig hi hj h

theorem container_stop_le (h : i < 2) : (layout.container i).stop ≤ layout.dataBaseOffset := by
  have hTwo := layout.toConfig.containers_le
  have hIdx : i * layout.metaContainerBytes ≤ 1 * layout.metaContainerBytes :=
    mul_le_mul_right _ (by omega)
  rw [container, Extent.stop_mk, Config.containerOffset, dataBaseOffset]
  omega

theorem slotToOffset_succ (s : Nat) :
    layout.slotToOffset (s + 1) = layout.slotToOffset s + layout.slotBytes := by
  rw [slotToOffset, slotToOffset, succ_mul, add_assoc]

variable {s : Nat}

theorem slotToOffset_mono {t : Nat} (h : s ≤ t) : layout.slotToOffset s ≤ layout.slotToOffset t :=
  Nat.add_le_add_left (mul_le_mul_right _ h) _

theorem slots_disjoint {t : Nat} (h : s ≠ t) : (layout.slot s).Disjoint (layout.slot t) := by
  rw [Extent.Disjoint, slot, slot, Extent.stop_mk, Extent.stop_mk, ← slotToOffset_succ,
    ← slotToOffset_succ]
  rcases lt_or_gt_of_ne h with hLt | hGt
  · exact .inl (layout.slotToOffset_mono hLt)
  · exact .inr (layout.slotToOffset_mono hGt)

theorem container_slot_disjoint (h : i < 2) (s : Nat) :
    (layout.container i).Disjoint (layout.slot s) :=
  .inl (le_trans (layout.container_stop_le h) (le_add_right _ _))

theorem slot_stop_le (h : s < layout.maxSlots) :
    (layout.slot s).stop ≤ layout.effectiveCapacityBytes := by
  have hSlots : (s + 1) * layout.slotBytes ≤
      layout.effectiveCapacityBytes - layout.metaTotalBytes :=
    le_trans (mul_le_mul_right _ h) (div_mul_le_self _ _)
  have hMeta := layout.metaTotalBytes_lt
  rw [slot, Extent.stop_mk, ← slotToOffset_succ, slotToOffset, dataBaseOffset]
  omega

def Aligned (w : Extent) : Prop := layout.blockAlign ∣ w.start ∧ layout.blockAlign ∣ w.stop

variable {layout}

theorem aligned_of_dvd {start size : Nat} (hStart : layout.blockAlign ∣ start)
    (hSize : layout.blockAlign ∣ size) : layout.Aligned ⟨start, size⟩ :=
  ⟨hStart, Nat.dvd_add hStart hSize⟩

variable {totalLen : Nat}

theorem aligned_of_validated {offset : Nat}
    (h : layout.validateUringCmdChunk offset totalLen = .ok ()) :
    layout.Aligned ⟨offset, totalLen⟩ := by
  obtain ⟨_, hOffset, hLen⟩ := bind_eq_ok.mp h
  rw [rejectIf_eq_ok, decide_eq_false_iff_not, not_not] at hOffset hLen
  exact aligned_of_dvd (dvd_of_mod_eq_zero hOffset) (dvd_of_mod_eq_zero hLen)

theorem uringCmdChunks_spec {offset cursor : Nat} {chunks : List Extent}
    (h : layout.uringCmdChunks offset cursor totalLen = .ok chunks) :
    ∀ w ∈ chunks, offset + cursor ≤ w.start ∧ w.stop ≤ offset + totalLen ∧ layout.Aligned w := by
  induction hLeft : totalLen - cursor using Nat.strong_induction_on generalizing cursor chunks with
  | _ left ih =>
    rw [uringCmdChunks] at h
    split at h
    · rename_i hMore
      have hPos := layout.transferSize_pos
      obtain ⟨_, hValid, h⟩ := bind_eq_ok.mp h
      obtain ⟨rest, hRest, h⟩ := bind_eq_ok.mp h
      cases h
      have hTail := ih _ (by omega) hRest rfl
      intro w hMem
      rcases mem_cons.mp hMem with rfl | hMem
      · refine ⟨le_refl _, ?_, aligned_of_validated hValid⟩
        rw [Extent.stop_mk]
        omega
      · obtain ⟨hLow, hHigh, hAligned⟩ := hTail w hMem
        exact ⟨by omega, hHigh, hAligned⟩
    · cases h
      exact nofun

variable {writes : List Extent}

theorem writeBuffers_spec {out : List Extent} (h : layout.writeBuffers writes = .ok out) :
    ∀ w ∈ out, ∃ whole ∈ writes, w.Inside whole ∧ (layout.Aligned whole → layout.Aligned w) := by
  have hSame : out = writes → ∀ w ∈ out, ∃ whole ∈ writes, w.Inside whole ∧
      (layout.Aligned whole → layout.Aligned w) := by
    rintro rfl w hMem
    exact ⟨w, hMem, Extent.Inside.refl w, id⟩
  unfold writeBuffers at h
  split at h
  · cases h
    exact hSame rfl
  · cases h
    exact hSame rfl
  · obtain ⟨chunks, hChunks, h⟩ := bind_eq_ok.mp h
    cases h
    intro w hMem
    obtain ⟨cut, hCut, hMem⟩ := mem_flatten.mp hMem
    obtain ⟨i, hi, rfl⟩ := mem_iff_getElem.mp hCut
    obtain ⟨whole, hWhole, hCut⟩ := (mapM_eq_ok hChunks).2 i _ (getElem?_eq_getElem hi)
    obtain ⟨_, -, hCut⟩ := bind_eq_ok.mp hCut
    obtain ⟨hLow, hHigh, hAligned⟩ := uringCmdChunks_spec hCut w hMem
    exact ⟨whole, mem_of_getElem? hWhole, ⟨hLow, hHigh⟩, fun _ => hAligned⟩

variable {payloadLen : Nat}

theorem preparePayload_spec (h : layout.preparePayload payloadLen = .ok totalLen) :
    totalLen ≤ layout.slotBytes - layout.headerBytes ∧
      (layout.requiresTransferAlignment = true → layout.blockAlign ∣ totalLen) := by
  unfold preparePayload at h
  dsimp only at h
  split at h
  · cases h
  · rename_i hFits
    split at h
    · split at h
      · cases h
      · rename_i hRoom
        cases h
        exact ⟨Nat.le_of_not_lt hRoom, fun _ => Bytes.dvd_alignUp _ _⟩
    · rename_i hPlain
      cases h
      exact ⟨Nat.le_of_not_lt hFits, fun h => absurd h hPlain⟩

theorem alignUp_of_dvd {length : Nat} (h : layout.blockAlign ∣ length) :
    Bytes.alignUp layout.blockAlign length = length := by
  have hPos := layout.toConfig.blockAlign_pos
  obtain ⟨blocks, rfl⟩ := h
  rw [Bytes.alignUp, Nat.add_sub_assoc hPos, mul_add_div hPos,
    div_eq_of_lt (sub_lt hPos Nat.one_pos), add_zero, mul_comm]

theorem dvd_slotToOffset (s : Nat) : layout.blockAlign ∣ layout.slotToOffset s :=
  Nat.dvd_add layout.metaTotalBytes_dvd (Nat.dvd_mul_left_of_dvd layout.slotBytes_dvd s)

theorem writeOne_spec (h : layout.writeOne (layout.slotToOffset s) payloadLen = .ok writes) :
    ∀ w ∈ writes, w.Inside (layout.slot s) ∧
      (layout.requiresTransferAlignment = true → layout.Aligned w) := by
  obtain ⟨totalLen, hPayload, h⟩ := bind_eq_ok.mp h
  obtain ⟨hRoom, hTotal⟩ := preparePayload_spec hPayload
  have hHeader : (if layout.requiresTransferAlignment = true then
      Bytes.alignUp layout.blockAlign layout.headerBytes else layout.headerBytes) =
      layout.headerBytes := by
    rw [alignUp_of_dvd layout.headerBytes_dvd, ite_self]
  have hSlot := layout.slotBytes_ge
  rw [hHeader] at h
  intro w hMem
  obtain ⟨whole, hWhole, hInside, hAligned⟩ := writeBuffers_spec h w hMem
  simp only [mem_cons, not_mem_nil, or_false] at hWhole
  rcases hWhole with rfl | rfl
  · refine ⟨hInside.trans ⟨le_refl _, ?_⟩, fun _ => hAligned ?_⟩
    · rw [slot, Extent.stop_mk, Extent.stop_mk]
      omega
    · exact aligned_of_dvd (dvd_slotToOffset s) layout.headerBytes_dvd
  · refine ⟨hInside.trans ⟨le_add_right _ _, ?_⟩, fun hRequired => hAligned ?_⟩
    · rw [slot, Extent.stop_mk, Extent.stop_mk]
      omega
    · exact aligned_of_dvd (Nat.dvd_add (dvd_slotToOffset s) layout.headerBytes_dvd)
        (hTotal hRequired)

theorem dvd_containerOffset (idx : Nat) : layout.blockAlign ∣ layout.containerOffset idx :=
  Nat.dvd_mul_left_of_dvd (dvd_mul_left _ _) idx

theorem checkpointWrites_spec {metaSeq dirtyTotal : Nat} {payload : Bytes}
    (h : layout.checkpointWrites metaSeq payload dirtyTotal = .ok writes) :
    ∀ w ∈ writes, w.Inside (layout.container (targetIdx (metaSeq + 1))) ∧ layout.Aligned w := by
  unfold checkpointWrites at h
  split at h
  · cases h
    exact nofun
  · rename_i w hPrepared
    have hFits : payload.length ≤ layout.metaPayloadCapacity ∧ w.nextSeq = metaSeq + 1 := by
      unfold prepareWrite at hPrepared
      split at hPrepared
      · cases hPrepared
      · rename_i hRoom
        dsimp only at hPrepared
        split at hPrepared
        · cases hPrepared
        · cases hPrepared
          exact ⟨Nat.le_of_not_lt hRoom, rfl⟩
    have hTarget : w.target layout.toConfig = layout.containerOffset (targetIdx (metaSeq + 1)) := by
      rw [CheckpointWrite.target, hFits.2]
    have hPadded := layout.toConfig.alignUp_le hFits.1
    rw [hTarget] at h
    intro part hMem
    obtain ⟨whole, hWhole, hInside, hAligned⟩ := writeBuffers_spec h part hMem
    simp only [mem_cons, not_mem_nil, or_false] at hWhole
    rcases hWhole with rfl | rfl
    · refine ⟨hInside.trans ?_, hAligned ?_⟩
      · exact @within_payload layout.toConfig _ _ hPadded
      · exact aligned_of_dvd (Nat.dvd_add (dvd_containerOffset _) (dvd_refl _))
          (Bytes.dvd_alignUp _ _)
    · refine ⟨hInside.trans ?_, hAligned ?_⟩
      · exact @within_header layout.toConfig _
      · exact aligned_of_dvd (dvd_containerOffset _) (dvd_refl _)

end Layout

/-- Containers and slots lie beside each other in the capacity of the device, writes stay in
their own, and a packed checkpoint header fits its block. -/
structure LayoutSound (layout : Layout) : Prop where
  containers : ∀ i < 2, ∀ j < 2, i ≠ j → (layout.container i).Disjoint (layout.container j)
  slots : ∀ s t, s ≠ t → (layout.slot s).Disjoint (layout.slot t)
  containers_slots : ∀ i < 2, ∀ s, (layout.container i).Disjoint (layout.slot s)
  containers_le : ∀ i < 2, (layout.container i).stop ≤ layout.effectiveCapacityBytes
  slots_le : ∀ s < layout.maxSlots, (layout.slot s).stop ≤ layout.effectiveCapacityBytes
  capacity_le : layout.effectiveCapacityBytes ≤ layout.deviceSize
  put_writes : ∀ (pool pool' : SlotPool layout.maxSlots) (placementId : Option Nat)
    (s payloadLen : Nat) (writes : List Extent), pool.allocate placementId = some (s, pool') →
    layout.writeOne (layout.slotToOffset s) payloadLen = .ok writes → s < layout.maxSlots ∧
      ∀ w ∈ writes, w.Inside (layout.slot s) ∧
        (layout.requiresTransferAlignment = true → layout.Aligned w)
  checkpoint_writes : ∀ (metaSeq dirtyTotal : Nat) (payload : Bytes) (writes : List Extent),
    layout.checkpointWrites metaSeq payload dirtyTotal = .ok writes → ∃ i < 2, ∀ w ∈ writes,
      w.Inside (layout.container i) ∧ (layout.requiresTransferAlignment = true → layout.Aligned w)
  header_fits : ∀ (seq payloadLen crc : Nat) (packed : Bytes),
    packMetaHeader layout.toConfig seq payloadLen crc = .ok packed →
      packed.length ≤ layout.blockAlign

theorem packMetaHeader_one (cfg : Config) (h : cfg.metaVersion < 256 ^ 4) :
    ∃ packed, packMetaHeader cfg 1 0 0 = .ok packed := by
  have hField : ∀ {width value : Nat}, value < 256 ^ width →
      packLE width value = .ok (Bytes.toLE width value) := fun h => if_pos h
  rw [packMetaHeader, hField h, hField (by decide), hField (by decide), hField (by decide)]
  exact ⟨_, rfl⟩

theorem Layout.init_fields {env : DeviceEnv} {config : RawBlockCoreConfig} {layout : Layout}
    (h : Layout.init env config = .ok layout) :
    (layout.blockAlign : Int) = config.blockAlign ∧
      (layout.metaVersion : Int) = config.metaVersion := by
  unfold Layout.init at h
  obtain ⟨usesUring, -, h⟩ := bind_eq_ok.mp h
  obtain ⟨_, -, h⟩ := bind_eq_ok.mp h
  obtain ⟨_, -, h⟩ := bind_eq_ok.mp h
  obtain ⟨_, -, h⟩ := bind_eq_ok.mp h
  obtain ⟨hAlign, h⟩ := dite_error_eq_ok.mp h
  obtain ⟨hHeader, h⟩ := dite_error_eq_ok.mp h
  obtain ⟨hHeaderAlign, h⟩ := dite_error_eq_ok.mp h
  obtain ⟨hSlot, h⟩ := dite_error_eq_ok.mp h
  obtain ⟨hSlotAlign, h⟩ := dite_error_eq_ok.mp h
  obtain ⟨hMeta, h⟩ := dite_error_eq_ok.mp h
  obtain ⟨hMetaAlign, h⟩ := dite_error_eq_ok.mp h
  obtain ⟨hMagic, h⟩ := dite_error_eq_ok.mp h
  obtain ⟨hVersion, h⟩ := dite_error_eq_ok.mp h
  obtain ⟨_, -, h⟩ := bind_eq_ok.mp h
  obtain ⟨_, -, h⟩ := bind_eq_ok.mp h
  obtain ⟨_, -, h⟩ := bind_eq_ok.mp h
  obtain ⟨transfer, -, h⟩ := bind_eq_ok.mp h
  obtain ⟨_, -, h⟩ := bind_eq_ok.mp h
  obtain ⟨hCopies, h⟩ := dite_error_eq_ok.mp h
  obtain ⟨device, -, h⟩ := bind_eq_ok.mp h
  obtain ⟨hCapacity, h⟩ := dite_error_eq_ok.mp h
  obtain ⟨hSlots, h⟩ := dite_error_eq_ok.mp h
  have hFields : layout.blockAlign = config.blockAlign.toNat ∧
      layout.metaVersion = config.metaVersion.toNat := by
    obtain ⟨_, -, h⟩ := bind_eq_ok.mp h
    cases h
    exact ⟨rfl, rfl⟩
  rw [hFields.1, hFields.2]
  omega

/-- The layout of every accepted configuration is sound exactly when a block holds a packed
checkpoint header, or none is ever packed because the version does not fit its field. -/
theorem raw_block_layout_sound (env : DeviceEnv) (config : RawBlockCoreConfig) (layout : Layout)
    (hInit : Layout.init env config = .ok layout) :
    LayoutSound layout ↔ 32 ≤ config.blockAlign ∨ 2 ^ 32 ≤ config.metaVersion := by
  obtain ⟨hAlign, hVersion⟩ := Layout.init_fields hInit
  have hCondition : 32 ≤ config.blockAlign ∨ 2 ^ 32 ≤ config.metaVersion ↔
      32 ≤ layout.blockAlign ∨ 256 ^ 4 ≤ layout.metaVersion := by
    rw [← hAlign, ← hVersion]
    omega
  rw [hCondition]
  constructor
  · intro h
    rw [or_iff_not_imp_right, not_le]
    intro hVersion
    obtain ⟨packed, hPacked⟩ := packMetaHeader_one layout.toConfig hVersion
    have hFits := h.header_fits 1 0 0 packed hPacked
    rwa [(packMetaHeader_eq_ok hPacked).1] at hFits
  · intro h
    refine ⟨fun i hi j hj => layout.containers_disjoint hi hj, fun s t => layout.slots_disjoint,
      fun i hi s => layout.container_slot_disjoint hi s, ?_, fun s => layout.slot_stop_le,
      layout.capacity_le, ?_, ?_, ?_⟩
    · intro i hi
      exact le_trans (layout.container_stop_le hi) (le_of_lt layout.metaTotalBytes_lt)
    · intro pool pool' placementId s payloadLen writes hAllocate hWrites
      exact ⟨SlotPool.allocate_lt hAllocate, Layout.writeOne_spec hWrites⟩
    · intro metaSeq dirtyTotal payload writes hWrites
      refine ⟨targetIdx (metaSeq + 1), targetIdx_lt _, fun w hMem => ?_⟩
      obtain ⟨hInside, hAligned⟩ := Layout.checkpointWrites_spec hWrites w hMem
      exact ⟨hInside, fun _ => hAligned⟩
    · intro seq payloadLen crc packed hPacked
      rw [(packMetaHeader_eq_ok hPacked).1]
      refine h.resolve_right fun hWide => ?_
      unfold packMetaHeader packLE at hPacked
      rw [if_neg (not_lt.mpr hWide)] at hPacked
      cases hPacked

section Sample

def fileEnv : DeviceEnv := ⟨.ok (Bytes.zeros 256), .ok (), false, none, none, 4096⟩

/-- Blocks of `blockAlign` bytes, and a slot of four of them. -/
def fileConfig (blockAlign : Int) : RawBlockCoreConfig where
  devicePath := "disk"
  capacityBytes := 0
  blockAlign
  headerBytes := 32
  slotBytes := 64
  useOdirect := false
  metaTotalBytes := 128
  metaMagic := [0x4c, 0x4d, 0x43, 0x49, 0x44, 0x58, 0x30, 0x31]
  metaVersion := 1
  maxDataTransferSize := 0
  loadCheckpointOnInit := false
  ioEngine := ""
  iouringQueueDepth := 256
  useUringCmd := false
  metaCheckpointPlacementId := none

theorem fileConfig_accepted {blockAlign : Int} (h : blockAlign = 16 ∨ blockAlign = 32) :
    ∃ layout, Layout.init fileEnv (fileConfig blockAlign) = .ok layout := by
  have hOk : (Layout.init fileEnv (fileConfig blockAlign)).isOk = true := by
    rcases h with rfl | rfl
    · decide +kernel
    · decide +kernel
  cases hInit : Layout.init fileEnv (fileConfig blockAlign) with
  | ok layout => exact ⟨layout, rfl⟩
  | error e =>
    rw [hInit] at hOk
    cases hOk

theorem raw_block_layout_sound_32 :
    ∃ layout, Layout.init fileEnv (fileConfig 32) = .ok layout ∧ LayoutSound layout := by
  obtain ⟨layout, hInit⟩ := fileConfig_accepted (.inr rfl)
  exact ⟨layout, hInit, (raw_block_layout_sound _ _ layout hInit).mpr (.inl (by decide))⟩

theorem small_block_layout_unsound :
    ∃ layout, Layout.init fileEnv (fileConfig 16) = .ok layout ∧ ¬ LayoutSound layout := by
  obtain ⟨layout, hInit⟩ := fileConfig_accepted (.inl rfl)
  obtain ⟨hAlign, hVersion⟩ := Layout.init_fields hInit
  have hSmall : (layout.blockAlign : Int) = 16 := hAlign
  have hOne : (layout.metaVersion : Int) = 1 := hVersion
  refine ⟨layout, hInit, fun h => ?_⟩
  obtain ⟨packed, hPacked⟩ := packMetaHeader_one layout.toConfig (by omega)
  have hFits := h.header_fits 1 0 0 packed hPacked
  rw [(packMetaHeader_eq_ok hPacked).1, metaHeaderSize] at hFits
  omega

end Sample

end LMCache.RawBlock
