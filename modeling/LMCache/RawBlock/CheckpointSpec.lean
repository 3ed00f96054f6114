import LMCache.RawBlock.Checkpoint

/-!
# Checkpoints that do not overlap are never lost

As long as a checkpoint reads `_meta_seq` only when no other one is between its read and its
end, the container it overwrites is not the one that holds the last completed checkpoint.
Two checkpoints that overlap take the same number and the same container, and the later
one's payload invalidates what the earlier one has completed. Recovery goes by the numbers, so
a header with a number above `_meta_seq` from before the run could hide what the run completes.
-/

namespace LMCache.RawBlock

open Lib Bytes List

namespace Config

variable (cfg : Config)

theorem blockAlign_pos : 0 < cfg.blockAlign := by
  obtain ⟨k, hk⟩ := cfg.blockAlign_pow
  rw [hk]
  exact Nat.pow_pos (by decide)

theorem blockAlign_lt : cfg.blockAlign < cfg.metaContainerBytes := cfg.two_copies

theorem containers_le : 2 * cfg.metaContainerBytes ≤ cfg.metaTotalBytes := by
  have hBlocks : cfg.metaContainerBytes ≤ cfg.metaTotalBytes / 2 := Nat.div_mul_le_self _ _
  omega

theorem alignUp_le {length : Nat} (h : length ≤ cfg.metaPayloadCapacity) :
    alignUp cfg.blockAlign length ≤ cfg.metaPayloadCapacity := by
  have hBlocks : alignUp cfg.blockAlign cfg.metaPayloadCapacity =
      cfg.metaPayloadCapacity := by
    have hDvd : cfg.blockAlign ∣ cfg.metaPayloadCapacity :=
      Nat.dvd_sub (Nat.dvd_mul_left _ _) (Nat.dvd_refl _)
    have hLower := le_alignUp cfg.blockAlign_pos cfg.metaPayloadCapacity
    have hUpper := alignUp_lt cfg.blockAlign_pos cfg.metaPayloadCapacity
    obtain ⟨a, ha⟩ := hDvd
    obtain ⟨b, hb⟩ := dvd_alignUp cfg.blockAlign cfg.metaPayloadCapacity
    rw [hb, ha] at hLower hUpper
    have hLe : a ≤ b := Nat.le_of_mul_le_mul_left hLower cfg.blockAlign_pos
    have hLt : b < a + 1 := by
      rw [← Nat.mul_succ] at hUpper
      exact Nat.lt_of_mul_lt_mul_left hUpper
    rw [hb, ha]
    congr 1
    omega
  exact Nat.le_trans (alignUp_mono _ h) (Nat.le_of_eq hBlocks)

end Config

def HoldsHeader (cfg : Config) (device : Bytes) (c : Checkpoint) : Prop :=
  ∃ packed, packMetaHeader cfg c.seq c.payload.length (crc32 c.payload 0 % 2 ^ 32) = .ok packed ∧
    device.slice (cfg.containerOffset (targetIdx c.seq)) cfg.blockAlign =
      (packed ++ zeros (cfg.blockAlign - metaHeaderSize)).take cfg.blockAlign

def HoldsPayload (cfg : Config) (device : Bytes) (c : Checkpoint) : Prop :=
  device.slice (cfg.containerOffset (targetIdx c.seq) + cfg.blockAlign) c.payload.length = c.payload

/-- The payload is one that `_write_checkpoint` writes. -/
def Fits (cfg : Config) (payload : Bytes) : Prop :=
  payload ≠ [] ∧ payload.length ≤ cfg.metaPayloadCapacity

variable {cfg : Config}

theorem packLE_eq_ok {width value : Nat} {bs : Bytes} (h : packLE width value = .ok bs) :
    bs.length = width ∧ ofLE bs = value := by
  unfold packLE at h
  split at h
  · rename_i hFits
    cases h
    exact ⟨length_toLE width value, ofLE_toLE hFits⟩
  · cases h

theorem packMetaHeader_eq_ok {seq payloadLen crc : Nat} {packed : Bytes}
    (h : packMetaHeader cfg seq payloadLen crc = .ok packed) :
    packed.length = metaHeaderSize ∧ packed.slice 0 8 = cfg.metaMagic ∧
      ofLE (packed.slice 8 4) = cfg.metaVersion ∧ ofLE (packed.slice 12 8) = seq ∧
      ofLE (packed.slice 20 8) = payloadLen ∧ ofLE (packed.slice 28 4) = crc := by
  unfold packMetaHeader at h
  obtain ⟨version, hVersion, h⟩ := bind_eq_ok.mp h
  obtain ⟨seqBytes, hSeq, h⟩ := bind_eq_ok.mp h
  obtain ⟨lenBytes, hLen, h⟩ := bind_eq_ok.mp h
  obtain ⟨crcBytes, hCrc, h⟩ := bind_eq_ok.mp h
  cases h
  obtain ⟨hVersionLength, hVersion⟩ := packLE_eq_ok hVersion
  obtain ⟨hSeqLength, hSeq⟩ := packLE_eq_ok hSeq
  obtain ⟨hLenLength, hLen⟩ := packLE_eq_ok hLen
  obtain ⟨hCrcLength, hCrc⟩ := packLE_eq_ok hCrc
  have hMagic := cfg.metaMagic_length
  refine ⟨?_, ?_, ?_, ?_, ?_, ?_⟩
  · simp only [length_append, hMagic, hVersionLength, hSeqLength, hLenLength, hCrcLength]
    rfl
  · simp [slice, hMagic]
  · have hField := slice_field cfg.metaMagic version (seqBytes ++ lenBytes ++ crcBytes)
      hMagic hVersionLength
    simp only [append_assoc] at hField ⊢
    rw [hField, hVersion]
  · have hBefore : (cfg.metaMagic ++ version).length = 12 := by
      rw [length_append, hMagic, hVersionLength]
    have hField := slice_field _ seqBytes (lenBytes ++ crcBytes) hBefore hSeqLength
    simp only [append_assoc] at hField ⊢
    rw [hField, hSeq]
  · have hBefore : (cfg.metaMagic ++ version ++ seqBytes).length = 20 := by
      simp only [length_append, hMagic, hVersionLength, hSeqLength]
    rw [slice_field _ lenBytes crcBytes hBefore hLenLength, hLen]
  · have hBefore : (cfg.metaMagic ++ version ++ seqBytes ++ lenBytes).length = 28 := by
      simp only [length_append, hMagic, hVersionLength, hSeqLength, hLenLength]
    have hField := slice_field _ crcBytes [] hBefore hCrcLength
    rw [append_nil] at hField
    rw [hField, hCrc]

theorem readCheckpoint_of_holds {device : Bytes} {c : Checkpoint}
    (hBlock : metaHeaderSize ≤ cfg.blockAlign)
    (hFits : Fits cfg c.payload) (hHeader : HoldsHeader cfg device c)
    (hPayload : HoldsPayload cfg device c) :
    ∃ header, readCheckpoint cfg device (cfg.containerOffset (targetIdx c.seq)) =
      .ok (some (header, c.payload)) ∧ header.seq = c.seq := by
  obtain ⟨packed, hPacked, hSlice⟩ := hHeader
  obtain ⟨hLength, hMagic, hVersion, hSeq, hLen, hCrc⟩ := packMetaHeader_eq_ok hPacked
  have hTake : (device.slice (cfg.containerOffset (targetIdx c.seq)) cfg.blockAlign).take
      metaHeaderSize = packed := by
    rw [hSlice, take_take, Nat.min_eq_left hBlock, ← hLength, take_left]
  have hPositive : 0 < c.payload.length := length_pos_iff.mpr hFits.1
  refine ⟨⟨c.seq, c.payload.length, crc32 c.payload 0 % 2 ^ 32,
    cfg.containerOffset (targetIdx c.seq)⟩, ?_, rfl⟩
  have hRead : readMetaHeader cfg device (cfg.containerOffset (targetIdx c.seq)) =
      .ok (some ⟨c.seq, c.payload.length, crc32 c.payload 0 % 2 ^ 32,
        cfg.containerOffset (targetIdx c.seq)⟩) := by
    unfold readMetaHeader
    dsimp only
    rw [hTake, hLength, hMagic, hVersion, hSeq, hLen, hCrc]
    have hRoom := hFits.2
    simp [raiseIf_false, show ¬ cfg.metaPayloadCapacity < c.payload.length by omega, hFits.1]
  have hLoad : loadMetaPayload cfg device ⟨c.seq, c.payload.length, crc32 c.payload 0 % 2 ^ 32,
      cfg.containerOffset (targetIdx c.seq)⟩ = some c.payload := by
    have hPad := le_alignUp cfg.blockAlign_pos c.payload.length
    have hBuf : (device.slice (cfg.containerOffset (targetIdx c.seq) + cfg.blockAlign)
        (alignUp cfg.blockAlign c.payload.length)).take c.payload.length = c.payload := by
      rw [slice, take_take, Nat.min_eq_left hPad]
      exact hPayload
    unfold loadMetaPayload
    dsimp only
    rw [hBuf, if_neg (by simp)]
  unfold readCheckpoint
  rw [hRead, ok_bind]
  dsimp only
  rw [hLoad]
  rfl

section Writes

variable {device : Bytes} {c : Checkpoint} {w : CheckpointWrite}

def CheckpointWrite.checkpoint (w : CheckpointWrite) : Checkpoint := ⟨w.nextSeq, w.payload⟩

theorem targetIdx_lt (seq : Nat) : targetIdx seq < 2 := Nat.mod_lt _ (by decide)

theorem targetIdx_succ_ne {seq : Nat} (h : 0 < seq) : targetIdx (seq + 1) ≠ targetIdx seq := by
  simp only [targetIdx, Config.metaCopyCount]
  omega

theorem containerOffset_add_le (cfg : Config) {idx : Nat} (h : idx < 2)
    (hDevice : cfg.metaTotalBytes ≤ device.length) :
    cfg.containerOffset idx + cfg.metaContainerBytes ≤ device.length := by
  have hTwo := cfg.containers_le
  have hIdx : idx * cfg.metaContainerBytes ≤ 1 * cfg.metaContainerBytes :=
    Nat.mul_le_mul_right _ (by omega)
  unfold Config.containerOffset
  omega

variable {j : Nat}

theorem containerOffset_disjoint (cfg : Config) {i : Nat} (hi : i < 2) (hj : j < 2) (h : i ≠ j) :
    cfg.containerOffset i + cfg.metaContainerBytes ≤ cfg.containerOffset j ∨
      cfg.containerOffset j + cfg.metaContainerBytes ≤ cfg.containerOffset i := by
  unfold Config.containerOffset
  have hCases : i = 0 ∧ j = 1 ∨ i = 1 ∧ j = 0 := by omega
  rcases hCases with ⟨rfl, rfl⟩ | ⟨rfl, rfl⟩
  · left
    omega
  · right
    omega

theorem length_paddedPayload (w : CheckpointWrite) :
    (w.paddedPayload cfg).length = alignUp cfg.blockAlign w.payload.length := by
  have hPad := le_alignUp cfg.blockAlign_pos w.payload.length
  simp only [CheckpointWrite.paddedPayload, length_append, length_zeros]
  omega

def Within (cfg : Config) (idx start length : Nat) : Prop :=
  cfg.containerOffset idx ≤ start ∧
    start + length ≤ cfg.containerOffset idx + cfg.metaContainerBytes

theorem within_header (idx : Nat) : Within cfg idx (cfg.containerOffset idx) cfg.blockAlign := by
  have hBlock := cfg.blockAlign_lt
  exact ⟨Nat.le_refl _, by omega⟩

theorem within_payload (idx : Nat) {length : Nat} (h : length ≤ cfg.metaPayloadCapacity) :
    Within cfg idx (cfg.containerOffset idx + cfg.blockAlign) length := by
  have hBlock := cfg.blockAlign_lt
  unfold Config.metaPayloadCapacity at h
  exact ⟨Nat.le_add_right _ _, by omega⟩

variable {segment : Bytes}

theorem slice_write_other {i start : Nat} {from' length : Nat}
    (hDevice : cfg.metaTotalBytes ≤ device.length) (hi : i < 2) (hj : j < 2) (hNe : i ≠ j)
    (hWrite : Within cfg j start segment.length) (hRead : Within cfg i from' length) :
    (device.assign start segment).slice from' length = device.slice from' length := by
  have hEnd := containerOffset_add_le cfg hj hDevice
  obtain ⟨hLow, hHigh⟩ := hWrite
  obtain ⟨hLow', hHigh'⟩ := hRead
  apply slice_assign_of_disjoint (by omega)
  rcases containerOffset_disjoint cfg hi hj hNe with h | h
  · left
    omega
  · right
    omega

theorem HoldsHeader.write_other {start : Nat} (h : HoldsHeader cfg device c)
    (hDevice : cfg.metaTotalBytes ≤ device.length) (hj : j < 2) (hNe : targetIdx c.seq ≠ j)
    (hWrite : Within cfg j start segment.length) :
    HoldsHeader cfg (device.assign start segment) c := by
  obtain ⟨packed, hPacked, hSlice⟩ := h
  refine ⟨packed, hPacked, ?_⟩
  rw [slice_write_other hDevice (targetIdx_lt _) hj hNe hWrite (within_header _), hSlice]

theorem HoldsPayload.write_other {start : Nat} (h : HoldsPayload cfg device c)
    (hDevice : cfg.metaTotalBytes ≤ device.length) (hj : j < 2) (hFits : Fits cfg c.payload)
    (hNe : targetIdx c.seq ≠ j) (hWrite : Within cfg j start segment.length) :
    HoldsPayload cfg (device.assign start segment) c := by
  unfold HoldsPayload
  rw [slice_write_other hDevice (targetIdx_lt _) hj hNe hWrite (within_payload _ hFits.2)]
  exact h

/-- What holds of a call that has read `_meta_seq` and not ended. -/
structure CheckpointWrite.Good (cfg : Config) (metaSeq : Nat) (device : Bytes)
    (w : CheckpointWrite) : Prop where
  seq : w.nextSeq = metaSeq + 1
  fits : Fits cfg w.payload
  block : ∃ packed,
    packMetaHeader cfg w.nextSeq w.payload.length (crc32 w.payload 0 % 2 ^ 32) = .ok packed ∧
      w.headerBlock = packed ++ zeros (cfg.blockAlign - metaHeaderSize)
  payload : w.payloadWritten = true → HoldsPayload cfg device w.checkpoint
  header : w.headerWritten = true → HoldsHeader cfg device w.checkpoint

variable {metaSeq : Nat}

theorem prepareWrite_good {dirtyTotal : Nat} {payload : Bytes}
    (h : prepareWrite cfg metaSeq payload dirtyTotal = some w) (hNonempty : payload ≠ []) :
    w.Good cfg metaSeq device := by
  unfold prepareWrite at h
  split at h
  · cases h
  · rename_i hRoom
    dsimp only at h
    split at h
    · cases h
    · rename_i packed hPacked
      cases h
      exact ⟨rfl, ⟨hNonempty, Nat.le_of_not_lt hRoom⟩, ⟨packed, hPacked, rfl⟩, nofun, nofun⟩

theorem within_paddedPayload (cfg : Config) (h : w.payload.length ≤ cfg.metaPayloadCapacity) :
    Within cfg (targetIdx w.nextSeq) (w.target cfg + cfg.blockAlign)
      (w.paddedPayload cfg).length := by
  rw [length_paddedPayload]
  exact within_payload _ (cfg.alignUp_le h)

theorem CheckpointWrite.Good.length_header (h : w.Good cfg metaSeq device)
    (hBlock : metaHeaderSize ≤ cfg.blockAlign) :
    (w.headerBlock.take cfg.blockAlign).length = cfg.blockAlign := by
  obtain ⟨packed, hPacked, hHeader⟩ := h.block
  have hLength := (packMetaHeader_eq_ok hPacked).1
  rw [hHeader, length_take, length_append, hLength, length_zeros]
  omega

theorem CheckpointWrite.Good.within_headerBlock (h : w.Good cfg metaSeq device)
    (hBlock : metaHeaderSize ≤ cfg.blockAlign) :
    Within cfg (targetIdx w.nextSeq) (w.target cfg) (w.headerBlock.take cfg.blockAlign).length := by
  rw [h.length_header hBlock]
  exact within_header _

theorem slice_header_writePayload {idx : Nat} (hDevice : cfg.metaTotalBytes ≤ device.length)
    (hFits : w.payload.length ≤ cfg.metaPayloadCapacity) (hIdx : idx < 2) :
    (device.assign (w.target cfg + cfg.blockAlign) (w.paddedPayload cfg)).slice
        (cfg.containerOffset idx) cfg.blockAlign =
      device.slice (cfg.containerOffset idx) cfg.blockAlign := by
  by_cases hSame : idx = targetIdx w.nextSeq
  · have hWithin := within_paddedPayload cfg hFits
    have hEnd := containerOffset_add_le cfg (targetIdx_lt w.nextSeq) hDevice
    obtain ⟨-, hHigh⟩ := hWithin
    apply slice_assign_of_disjoint (by omega)
    left
    rw [hSame]
    exact Nat.le_refl _
  · exact slice_write_other hDevice hIdx (targetIdx_lt _) hSame (within_paddedPayload cfg hFits)
      (within_header _)

theorem CheckpointWrite.Good.writePayload (h : w.Good cfg metaSeq device)
    (hDevice : cfg.metaTotalBytes ≤ device.length) : CheckpointWrite.Good cfg metaSeq
      (device.assign (w.target cfg + cfg.blockAlign) (w.paddedPayload cfg))
      { w with payloadWritten := true } where
  seq := h.seq
  fits := h.fits
  block := h.block
  payload := by
    intro _
    have hWithin := within_paddedPayload cfg h.fits.2
    have hEnd := containerOffset_add_le cfg (targetIdx_lt w.nextSeq) hDevice
    have hRoom : w.target cfg + cfg.blockAlign + (w.paddedPayload cfg).length ≤ device.length :=
      Nat.le_trans hWithin.2 hEnd
    have hBack := slice_assign_self hRoom
    have hTake := congrArg (List.take w.payload.length) hBack
    have hPad := le_alignUp cfg.blockAlign_pos w.payload.length
    rw [slice, take_take, length_paddedPayload, Nat.min_eq_left hPad,
      CheckpointWrite.paddedPayload, take_left] at hTake
    exact hTake
  header := by
    intro hWritten
    obtain ⟨packed, hPacked, hSlice⟩ := h.header hWritten
    refine ⟨packed, hPacked, ?_⟩
    rw [slice_header_writePayload hDevice h.fits.2 (targetIdx_lt _)]
    exact hSlice

theorem CheckpointWrite.Good.writeHeader (h : w.Good cfg metaSeq device)
    (hBlock : metaHeaderSize ≤ cfg.blockAlign) (hDevice : cfg.metaTotalBytes ≤ device.length) :
    CheckpointWrite.Good cfg metaSeq
      (device.assign (w.target cfg) (w.headerBlock.take cfg.blockAlign))
      { w with headerWritten := true } where
  seq := h.seq
  fits := h.fits
  block := h.block
  payload := by
    intro hWritten
    have hEnd := containerOffset_add_le cfg (targetIdx_lt w.nextSeq) hDevice
    have hLength := h.length_header hBlock
    have hAlign := cfg.blockAlign_lt
    unfold HoldsPayload
    rw [slice_assign_of_disjoint]
    · exact h.payload hWritten
    · rw [hLength]
      exact Nat.le_trans (Nat.add_le_add_left (Nat.le_of_lt hAlign) _) hEnd
    · right
      rw [hLength]
      exact Nat.le_refl _
  header := by
    intro _
    obtain ⟨packed, hPacked, hHeader⟩ := h.block
    have hEnd := containerOffset_add_le cfg (targetIdx_lt w.nextSeq) hDevice
    have hLength := h.length_header hBlock
    have hAlign := cfg.blockAlign_lt
    refine ⟨packed, hPacked, ?_⟩
    rw [← hHeader]
    have hRoom : w.target cfg + (w.headerBlock.take cfg.blockAlign).length ≤ device.length := by
      rw [hLength]
      exact Nat.le_trans (Nat.add_le_add_left (Nat.le_of_lt hAlign) _) hEnd
    have hBack := slice_assign_self hRoom
    rw [hLength] at hBack
    exact hBack

end Writes

def CheckpointCall.isWriting : CheckpointCall → Bool
  | .writing _ => true
  | _ => false

namespace Core

/-- `_meta_seq` is read only when no other checkpoint is between its read and its end. -/
def Serial (σ : Core) : CheckpointEvent → Prop
  | .beginWrite _ => ∀ call ∈ σ.calls, call.isWriting = false
  | _ => True

instance (σ : Core) : ∀ event, Decidable (σ.Serial event)
  | .beginWrite _ => inferInstanceAs (Decidable (∀ call ∈ σ.calls, call.isWriting = false))
  | .change _ | .checkpointOnce _ _ | .snapshotState _ | .writePayload _ | .writeHeader _
  | .fail _ | .finish _ => .isTrue trivial

inductive Moves (cfg : Config) (σ : Core) : CheckpointEvent → Core → Prop
  | change (snapshot : SnapshotText) : Moves cfg σ (.change snapshot)
      { σ with snapshot, metaDirtyTotal := σ.metaDirtyTotal + 1 }
  | skip {force idleOk : Bool}
      (h : σ.metaDirtyTotal ≤ σ.metaPersisted ∨ (!force && !idleOk) = true) :
      Moves cfg σ (.checkpointOnce force idleOk) σ
  | enter {force idleOk : Bool} (hDirty : ¬ σ.metaDirtyTotal ≤ σ.metaPersisted)
      (hMay : ¬ (!force && !idleOk) = true) :
      Moves cfg σ (.checkpointOnce force idleOk) { σ with calls := σ.calls ++ [.checked] }
  | snapshotState {i : Nat} (hAt : σ.calls[i]? = some .checked) : Moves cfg σ (.snapshotState i)
      (σ.advance i (.snapped σ.snapshot.val σ.metaDirtyTotal))
  | refuse {i : Nat} {payload : Bytes} {dirtyTotal : Nat}
      (hAt : σ.calls[i]? = some (.snapped payload dirtyTotal))
      (hPrepare : prepareWrite cfg σ.metaSeq payload dirtyTotal = none) :
      Moves cfg σ (.beginWrite i) (σ.leave i)
  | beginWrite {i : Nat} {payload : Bytes} {dirtyTotal : Nat} {w : CheckpointWrite}
      (hAt : σ.calls[i]? = some (.snapped payload dirtyTotal))
      (hPrepare : prepareWrite cfg σ.metaSeq payload dirtyTotal = some w) :
      Moves cfg σ (.beginWrite i) (σ.advance i (.writing w))
  | writePayload {i : Nat} {w : CheckpointWrite} (hAt : σ.calls[i]? = some (.writing w))
      (hLeft : w.payloadWritten = false) :
      Moves cfg σ (.writePayload i) (σ.writePayload cfg i w)
  | writeHeader {i : Nat} {w : CheckpointWrite} (hAt : σ.calls[i]? = some (.writing w))
      (hLeft : (w.headerWritten || !(w.payloadWritten || w.isBatched cfg)) = false) :
      Moves cfg σ (.writeHeader i) (σ.writeHeader cfg i w)
  | fail {i : Nat} {w : CheckpointWrite} (hAt : σ.calls[i]? = some (.writing w)) :
      Moves cfg σ (.fail i) (σ.leave i)
  | finish {i : Nat} {w : CheckpointWrite} (hAt : σ.calls[i]? = some (.writing w))
      (hWritten : (w.payloadWritten && w.headerWritten) = true) :
      Moves cfg σ (.finish i) (σ.finish i w)

theorem moves_of_step {cfg : Config} {σ τ : Core} {event : CheckpointEvent}
    (hStep : σ.step cfg event = some τ) : Moves cfg σ event τ := by
  unfold Core.step at hStep
  cases event with
  | change snapshot =>
    cases hStep
    exact .change snapshot
  | checkpointOnce force idleOk =>
    dsimp only at hStep
    split at hStep
    · rename_i hClean
      cases hStep
      exact .skip (.inl hClean)
    · rename_i hDirty
      split at hStep
      · rename_i hBusy
        cases hStep
        exact .skip (.inr hBusy)
      · rename_i hMay
        cases hStep
        exact .enter hDirty hMay
  | snapshotState i =>
    dsimp only at hStep
    split at hStep
    · rename_i hAt
      cases hStep
      exact .snapshotState hAt
    · cases hStep
  | beginWrite i =>
    dsimp only at hStep
    split at hStep
    · rename_i hAt
      split at hStep
      · rename_i hPrepare
        cases hStep
        exact .refuse hAt hPrepare
      · rename_i hPrepare
        cases hStep
        exact .beginWrite hAt hPrepare
    · cases hStep
  | writePayload i =>
    dsimp only at hStep
    split at hStep
    · rename_i hAt
      split at hStep
      · cases hStep
      · rename_i hLeft
        cases hStep
        exact .writePayload hAt (Bool.eq_false_iff.mpr hLeft)
    · cases hStep
  | writeHeader i =>
    dsimp only at hStep
    split at hStep
    · rename_i hAt
      split at hStep
      · cases hStep
      · rename_i hLeft
        cases hStep
        exact .writeHeader hAt (Bool.eq_false_iff.mpr hLeft)
    · cases hStep
  | fail i =>
    dsimp only at hStep
    split at hStep
    · rename_i hAt
      cases hStep
      exact .fail hAt
    · cases hStep
  | finish i =>
    dsimp only at hStep
    split at hStep
    · rename_i hAt
      split at hStep
      · rename_i hWritten
        cases hStep
        exact .finish hAt hWritten
      · cases hStep
    · cases hStep

structure Inv (cfg : Config) (σ : Core) : Prop where
  device : cfg.metaTotalBytes ≤ σ.device.length
  alone : ∀ (i j : Nat) w w', σ.calls[i]? = some (.writing w) →
    σ.calls[j]? = some (.writing w') → i = j
  snapped : ∀ (i : Nat) payload dirtyTotal, σ.calls[i]? = some (.snapped payload dirtyTotal) →
    payload ≠ []
  writing : ∀ (i : Nat) w, σ.calls[i]? = some (.writing w) → w.Good cfg σ.metaSeq σ.device
  completed : ∀ c, σ.completed = some c → c.seq = σ.metaSeq ∧ 0 < c.seq ∧ Fits cfg c.payload ∧
    HoldsHeader cfg σ.device c ∧ HoldsPayload cfg σ.device c

variable {i : Nat} {found : CheckpointCall}

theorem getElem?_advance {σ : Core} {j : Nat} {call : CheckpointCall}
    (h : (σ.advance i call).calls[j]? = some found) :
    j = i ∧ found = call ∨ j ≠ i ∧ σ.calls[j]? = some found := by
  simp only [advance, getElem?_set] at h
  by_cases hj : i = j
  · subst hj
    rw [if_pos rfl] at h
    split at h
    · exact Or.inl ⟨rfl, (Option.some.inj h).symm⟩
    · cases h
  · rw [if_neg hj] at h
    exact Or.inr ⟨fun hEq => hj hEq.symm, h⟩

theorem getElem?_leave {σ : Core} {j : Nat} (h : (σ.leave i).calls[j]? = some found) :
    σ.calls[if j < i then j else j + 1]? = some found := by
  simp only [leave, getElem?_eraseIdx] at h
  split at h
  · rename_i hj
    rw [if_pos hj]
    exact h
  · rename_i hj
    rw [if_neg hj]
    exact h

variable {cfg : Config} {σ τ : Core}

theorem Inv.leave (h : Inv cfg σ) (i : Nat) : Inv cfg (σ.leave i) where
  device := h.device
  alone := by
    intro j k w w' hj hk
    have hSame := h.alone _ _ w w' (getElem?_leave hj) (getElem?_leave hk)
    split at hSame <;> split at hSame <;> omega
  snapped := fun j payload dirtyTotal hj => h.snapped _ payload dirtyTotal (getElem?_leave hj)
  writing := fun j w hj => h.writing _ w (getElem?_leave hj)
  completed := h.completed

theorem Inv.snapshotState (h : Inv cfg σ) (i : Nat) :
    Inv cfg (σ.advance i (.snapped σ.snapshot.val σ.metaDirtyTotal)) where
  device := h.device
  alone := by
    intro j k w w' hj hk
    rcases getElem?_advance hj with ⟨-, hBad⟩ | ⟨-, hj⟩
    · cases hBad
    · rcases getElem?_advance hk with ⟨-, hBad⟩ | ⟨-, hk⟩
      · cases hBad
      · exact h.alone j k w w' hj hk
  snapped := by
    intro j payload dirtyTotal hj
    rcases getElem?_advance hj with ⟨-, hSelf⟩ | ⟨-, hj⟩
    · cases hSelf
      exact σ.snapshot.property
    · exact h.snapped j payload dirtyTotal hj
  writing := by
    intro j w hj
    rcases getElem?_advance hj with ⟨-, hBad⟩ | ⟨-, hj⟩
    · cases hBad
    · exact h.writing j w hj
  completed := h.completed

/-- A call reads `_meta_seq` while no other one is writing. -/
theorem Inv.beginWrite (h : Inv cfg σ) {w : CheckpointWrite}
    (hSerial : ∀ call ∈ σ.calls, call.isWriting = false) (hGood : w.Good cfg σ.metaSeq σ.device) :
    Inv cfg (σ.advance i (.writing w)) where
  device := h.device
  alone := by
    intro j k v v' hj hk
    rcases getElem?_advance hj with ⟨hji, -⟩ | ⟨-, hj⟩
    · rcases getElem?_advance hk with ⟨hki, -⟩ | ⟨-, hk⟩
      · rw [hji, hki]
      · cases hSerial _ (mem_of_getElem? hk)
    · cases hSerial _ (mem_of_getElem? hj)
  snapped := by
    intro j payload dirtyTotal hj
    rcases getElem?_advance hj with ⟨-, hBad⟩ | ⟨-, hj⟩
    · cases hBad
    · exact h.snapped j payload dirtyTotal hj
  writing := by
    intro j v hj
    rcases getElem?_advance hj with ⟨-, hSelf⟩ | ⟨-, hj⟩
    · cases hSelf
      exact hGood
    · cases hSerial _ (mem_of_getElem? hj)
  completed := h.completed

/-- A write of the one call that is writing goes into the container that does not hold the
last completed checkpoint. -/
theorem Inv.write (h : Inv cfg σ) {start : Nat} {w w' : CheckpointWrite} {segment : Bytes}
    (hAt : σ.calls[i]? = some (.writing w))
    (hWithin : Within cfg (targetIdx w.nextSeq) start segment.length)
    (hGood : w'.Good cfg σ.metaSeq (σ.device.assign start segment)) :
    Inv cfg { σ.advance i (.writing w') with device := σ.device.assign start segment } where
  device := by
    have hEnd := containerOffset_add_le cfg (targetIdx_lt w.nextSeq) h.device
    show cfg.metaTotalBytes ≤ (σ.device.assign start segment).length
    rw [length_assign (Nat.le_trans hWithin.2 hEnd)]
    exact h.device
  alone := by
    intro j k v v' hj hk
    have hOnly : ∀ (l : Nat) u, (σ.advance i (.writing w')).calls[l]? = some (.writing u) →
        l = i := by
      intro l u hl
      rcases getElem?_advance hl with ⟨hli, -⟩ | ⟨-, hl⟩
      · exact hli
      · exact h.alone l i u w hl hAt
    rw [hOnly j v hj, hOnly k v' hk]
  snapped := by
    intro j payload dirtyTotal hj
    rcases getElem?_advance hj with ⟨-, hBad⟩ | ⟨-, hj⟩
    · cases hBad
    · exact h.snapped j payload dirtyTotal hj
  writing := by
    intro j v hj
    rcases getElem?_advance hj with ⟨-, hSelf⟩ | ⟨hNe, hj⟩
    · cases hSelf
      exact hGood
    · exact (hNe (h.alone j i v w hj hAt)).elim
  completed := by
    intro c hc
    obtain ⟨hSeq, hPos, hFits, hHeader, hPayload⟩ := h.completed c hc
    have hNe : targetIdx c.seq ≠ targetIdx w.nextSeq := by
      rw [(h.writing i w hAt).seq, ← hSeq]
      exact (targetIdx_succ_ne hPos).symm
    exact ⟨hSeq, hPos, hFits, hHeader.write_other h.device (targetIdx_lt _) hNe hWithin,
      hPayload.write_other h.device (targetIdx_lt _) hFits hNe hWithin⟩

theorem Inv.finish (h : Inv cfg σ) {w : CheckpointWrite} (hAt : σ.calls[i]? = some (.writing w))
    (hWritten : (w.payloadWritten && w.headerWritten) = true) : Inv cfg (σ.finish i w) where
  device := h.device
  alone := (h.leave i).alone
  snapped := (h.leave i).snapped
  writing := by
    -- the call that ends was the only one that was writing
    intro j v hj
    have hSame := h.alone _ i v w (getElem?_leave hj) hAt
    split at hSame <;> omega
  completed := by
    intro c hc
    cases hc
    have hGood := h.writing i w hAt
    have hBoth := Bool.and_eq_true_iff.mp hWritten
    refine ⟨rfl, ?_, hGood.fits, hGood.header hBoth.2, hGood.payload hBoth.1⟩
    have hSeq := hGood.seq
    show 0 < w.nextSeq
    omega

theorem Inv.enter (h : Inv cfg σ) : Inv cfg { σ with calls := σ.calls ++ [.checked] } := by
  have hOld : ∀ (j : Nat) call, (σ.calls ++ [.checked])[j]? = some call →
      call = .checked ∨ σ.calls[j]? = some call := by
    intro j call hj
    rw [getElem?_append] at hj
    split at hj
    · exact Or.inr hj
    · exact Or.inl (by simpa using mem_of_getElem? hj)
  refine ⟨h.device, ?_, ?_, ?_, h.completed⟩
  · intro j k w w' hj hk
    exact h.alone j k w w' ((hOld j _ hj).resolve_left nofun) ((hOld k _ hk).resolve_left nofun)
  · intro j payload dirtyTotal hj
    exact h.snapped j payload dirtyTotal ((hOld j _ hj).resolve_left nofun)
  · intro j w hj
    exact h.writing j w ((hOld j _ hj).resolve_left nofun)

theorem Inv.step (hBlock : metaHeaderSize ≤ cfg.blockAlign) (h : Inv cfg σ)
    {event : CheckpointEvent} (hSerial : σ.Serial event) (hStep : σ.step cfg event = some τ) :
    Inv cfg τ := by
  cases moves_of_step hStep with
  | change snapshot => exact ⟨h.device, h.alone, h.snapped, h.writing, h.completed⟩
  | skip _ => exact h
  | enter _ _ => exact h.enter
  | snapshotState _ => exact h.snapshotState _
  | refuse _ _ => exact h.leave _
  | beginWrite hAt hPrepare =>
    exact h.beginWrite hSerial (prepareWrite_good hPrepare (h.snapped _ _ _ hAt))
  | writePayload hAt _ =>
    have hGood := h.writing _ _ hAt
    exact h.write hAt (within_paddedPayload cfg hGood.fits.2) (hGood.writePayload h.device)
  | writeHeader hAt _ =>
    have hGood := h.writing _ _ hAt
    exact h.write hAt (hGood.within_headerBlock hBlock) (hGood.writeHeader hBlock h.device)
  | fail _ => exact h.leave _
  | finish hAt hWritten => exact h.finish hAt hWritten

end Core

theorem readMetaHeader_congr {device device' : Bytes} {offset : Nat}
    (h : device.slice offset cfg.blockAlign = device'.slice offset cfg.blockAlign) :
    readMetaHeader cfg device offset = readMetaHeader cfg device' offset := by
  unfold readMetaHeader
  rw [h]

variable {header : MetaHeader}

theorem readMetaHeader_seq {device : Bytes} {offset : Nat}
    (h : readMetaHeader cfg device offset = .ok (some header)) : header.seq =
      ofLE (slice ((device.slice offset cfg.blockAlign).take metaHeaderSize) 12 8) := by
  unfold readMetaHeader at h
  obtain ⟨_, -, h⟩ := bind_eq_ok.mp h
  dsimp only at h
  split at h
  · cases h
  · split at h
    · cases h
    · cases h
      rfl

theorem HoldsHeader.seq_eq {device : Bytes} {c : Checkpoint}
    (hBlock : metaHeaderSize ≤ cfg.blockAlign) (h : HoldsHeader cfg device c)
    (hRead : readMetaHeader cfg device (cfg.containerOffset (targetIdx c.seq)) = .ok (some header))
    : header.seq = c.seq := by
  obtain ⟨packed, hPacked, hSlice⟩ := h
  obtain ⟨hLength, -, -, hSeq, -⟩ := packMetaHeader_eq_ok hPacked
  rw [readMetaHeader_seq hRead, hSlice, take_take, Nat.min_eq_left hBlock, ← hLength,
    take_left, hSeq]

theorem readCheckpoint_ok {device : Bytes} {idx : Nat} (hBlock : metaHeaderSize ≤ cfg.blockAlign)
    (hDevice : cfg.metaTotalBytes ≤ device.length) (hIdx : idx < 2) :
    ∃ found, readCheckpoint cfg device (cfg.containerOffset idx) = .ok found := by
  have hEnd := containerOffset_add_le cfg hIdx hDevice
  have hAlign := cfg.blockAlign_lt
  have hLength : ((device.slice (cfg.containerOffset idx) cfg.blockAlign).take
      metaHeaderSize).length = metaHeaderSize := by
    rw [length_take, length_slice _ _ _ (by omega)]
    omega
  have hRead : ∃ header, readMetaHeader cfg device (cfg.containerOffset idx) = .ok header := by
    unfold readMetaHeader
    dsimp only
    rw [hLength]
    simp only [ne_eq, not_true_eq_false, decide_false, raiseIf_false, ok_bind]
    split
    · exact ⟨_, rfl⟩
    · split
      · exact ⟨_, rfl⟩
      · exact ⟨_, rfl⟩
  obtain ⟨header, hHeader⟩ := hRead
  unfold readCheckpoint
  rw [hHeader, ok_bind]
  cases header with
  | none => exact ⟨_, rfl⟩
  | some header => exact ⟨_, rfl⟩

theorem readMetaHeader_of_readCheckpoint {device : Bytes} {offset : Nat} {payload : Bytes}
    (h : readCheckpoint cfg device offset = .ok (some (header, payload))) :
    readMetaHeader cfg device offset = .ok (some header) := by
  unfold readCheckpoint at h
  obtain ⟨found, hFound, h⟩ := bind_eq_ok.mp h
  cases found with
  | none => cases h
  | some header' =>
    obtain ⟨payload', -, hPair⟩ := Option.map_eq_some_iff.mp (Except.ok.inj h)
    cases hPair
    exact hFound

namespace Core

/-- No header on the device has a number above `n`. -/
def HeadersUpTo (cfg : Config) (device : Bytes) (n : Nat) : Prop :=
  ∀ idx < 2, ∀ header,
    readMetaHeader cfg device (cfg.containerOffset idx) = .ok (some header) → header.seq ≤ n

/-- The container that is to be overwritten next may have the next number already, and no
other number as high as that of the last completed checkpoint. -/
structure Numbered (cfg : Config) (σ : Core) : Prop where
  next : HeadersUpTo cfg σ.device (σ.metaSeq + 1)
  last : ∀ idx < 2, idx ≠ targetIdx (σ.metaSeq + 1) → ∀ header,
    readMetaHeader cfg σ.device (cfg.containerOffset idx) = .ok (some header) →
      header.seq ≤ σ.metaSeq
  other : ∀ c header, σ.completed = some c →
    readMetaHeader cfg σ.device (cfg.containerOffset (targetIdx (σ.metaSeq + 1))) =
      .ok (some header) → header.seq ≠ σ.metaSeq

variable {cfg : Config} {σ τ : Core}

theorem Numbered.congr (h : Numbered cfg σ) (hSeq : τ.metaSeq = σ.metaSeq)
    (hCompleted : τ.completed = σ.completed)
    (hHeaders : ∀ idx < 2, τ.device.slice (cfg.containerOffset idx) cfg.blockAlign =
      σ.device.slice (cfg.containerOffset idx) cfg.blockAlign) : Numbered cfg τ := by
  have hRead : ∀ idx < 2, readMetaHeader cfg τ.device (cfg.containerOffset idx) =
      readMetaHeader cfg σ.device (cfg.containerOffset idx) :=
    fun idx hIdx => readMetaHeader_congr (hHeaders idx hIdx)
  refine ⟨?_, ?_, ?_⟩
  · intro idx hIdx header hHeader
    rw [hRead idx hIdx] at hHeader
    rw [hSeq]
    exact h.next idx hIdx header hHeader
  · intro idx hIdx hNe header hHeader
    rw [hRead idx hIdx] at hHeader
    rw [hSeq] at hNe ⊢
    exact h.last idx hIdx hNe header hHeader
  · intro c header hc hHeader
    rw [hCompleted] at hc
    rw [hSeq] at hHeader ⊢
    rw [hRead _ (targetIdx_lt _)] at hHeader
    exact h.other c header hc hHeader

theorem Numbered.writeHeader (hBlock : metaHeaderSize ≤ cfg.blockAlign) (h : Numbered cfg σ)
    (hInv : Inv cfg σ) {i : Nat} {w : CheckpointWrite} (hAt : σ.calls[i]? = some (.writing w)) :
    Numbered cfg (σ.writeHeader cfg i w) := by
  have hGood := hInv.writing i w hAt
  have hSelf : ∀ header, readMetaHeader cfg (σ.writeHeader cfg i w).device
      (cfg.containerOffset (targetIdx (σ.metaSeq + 1))) = .ok (some header) →
        header.seq = σ.metaSeq + 1 := by
    intro header hHeader
    have hHolds := (hGood.writeHeader hBlock hInv.device).header rfl
    rw [← hGood.seq] at hHeader ⊢
    exact hHolds.seq_eq hBlock hHeader
  have hOther : ∀ idx < 2, idx ≠ targetIdx (σ.metaSeq + 1) →
      readMetaHeader cfg (σ.writeHeader cfg i w).device (cfg.containerOffset idx) =
        readMetaHeader cfg σ.device (cfg.containerOffset idx) := by
    intro idx hIdx hNe
    rw [← hGood.seq] at hNe
    exact readMetaHeader_congr (slice_write_other hInv.device hIdx (targetIdx_lt _) hNe
      (hGood.within_headerBlock hBlock) (within_header _))
  refine ⟨?_, ?_, ?_⟩
  · intro idx hIdx header hHeader
    by_cases hNe : idx = targetIdx (σ.metaSeq + 1)
    · rw [hNe] at hHeader
      exact Nat.le_of_eq (hSelf header hHeader)
    · rw [hOther idx hIdx hNe] at hHeader
      exact h.next idx hIdx header hHeader
  · intro idx hIdx hNe header hHeader
    rw [hOther idx hIdx hNe] at hHeader
    exact h.last idx hIdx hNe header hHeader
  · intro c header _ hHeader
    rw [hSelf header hHeader]
    exact Nat.succ_ne_self _

theorem Numbered.finish (h : Numbered cfg σ) (hInv : Inv cfg σ) {i : Nat} {w : CheckpointWrite}
    (hAt : σ.calls[i]? = some (.writing w)) : Numbered cfg (σ.finish i w) := by
  have hSeq : (σ.finish i w).metaSeq = σ.metaSeq + 1 := (hInv.writing i w hAt).seq
  have hNext := targetIdx_succ_ne (Nat.succ_pos σ.metaSeq)
  refine ⟨?_, ?_, ?_⟩
  · intro idx hIdx header hHeader
    rw [hSeq]
    exact Nat.le_succ_of_le (h.next idx hIdx header hHeader)
  · intro idx hIdx _ header hHeader
    rw [hSeq]
    exact h.next idx hIdx header hHeader
  · intro c header _ hHeader
    rw [hSeq] at hHeader ⊢
    have hOld := h.last _ (targetIdx_lt _) hNext header hHeader
    omega

theorem Numbered.step (hBlock : metaHeaderSize ≤ cfg.blockAlign) (h : Numbered cfg σ)
    (hInv : Inv cfg σ) {event : CheckpointEvent} (hStep : σ.step cfg event = some τ) :
    Numbered cfg τ := by
  cases moves_of_step hStep with
  | change snapshot => exact h.congr rfl rfl fun _ _ => rfl
  | skip _ => exact h
  | enter _ _ => exact h.congr rfl rfl fun _ _ => rfl
  | snapshotState _ | refuse _ _ | beginWrite _ _ => exact h.congr rfl rfl fun _ _ => rfl
  | writePayload hAt _ =>
    exact h.congr rfl rfl fun idx hIdx =>
      slice_header_writePayload hInv.device (hInv.writing _ _ hAt).fits.2 hIdx
  | writeHeader hAt _ => exact h.writeHeader hBlock hInv hAt
  | fail _ => exact h.congr rfl rfl fun _ _ => rfl
  | finish hAt _ => exact h.finish hInv hAt

/-- Recovery selects the checkpoint, or the one with the next number. -/
def Recoverable (cfg : Config) (device : Bytes) (c : Checkpoint) : Prop :=
  ∃ header payload, selectLatestCheckpoint cfg device = .ok (some (header, payload)) ∧
    (header.seq = c.seq ∧ payload = c.payload ∨ header.seq = c.seq + 1)

/-- Some container holds a valid checkpoint, and the last completed one is recoverable. -/
def Protected (cfg : Config) (σ : Core) : Prop :=
  ∀ c, σ.completed = some c →
    (∃ idx < 2, ∃ found, readCheckpoint cfg σ.device (cfg.containerOffset idx) = .ok (some found)) ∧
      Recoverable cfg σ.device c

theorem selectLatestCheckpoint_eq {device : Bytes} {first second : Option (MetaHeader × Bytes)}
    (hFirst : readCheckpoint cfg device (cfg.containerOffset 0) = .ok first)
    (hSecond : readCheckpoint cfg device (cfg.containerOffset 1) = .ok second) :
    selectLatestCheckpoint cfg device = .ok (laterCheckpoint first second) := by
  have hRange : List.range Config.metaCopyCount = [0, 1] := rfl
  have hNone : laterCheckpoint none first = first := by cases first <;> rfl
  unfold selectLatestCheckpoint
  rw [hRange, foldlM_cons, hFirst, ok_bind]
  simp only [hNone, pure_bind, foldlM_cons, hSecond, ok_bind, foldlM_nil]
  rfl

theorem Inv.protected (hBlock : metaHeaderSize ≤ cfg.blockAlign) (h : Inv cfg σ)
    (hNumbered : Numbered cfg σ) : Protected cfg σ := by
  intro c hc
  obtain ⟨hSeq, hPos, hFits, hHeader, hPayload⟩ := h.completed c hc
  obtain ⟨header, hRead, hNumber⟩ := readCheckpoint_of_holds hBlock hFits hHeader hPayload
  obtain ⟨first, hFirst⟩ := readCheckpoint_ok hBlock h.device (show 0 < 2 by decide)
  obtain ⟨second, hSecond⟩ := readCheckpoint_ok hBlock h.device (show 1 < 2 by decide)
  refine ⟨⟨_, targetIdx_lt _, _, hRead⟩, ?_⟩
  unfold Recoverable
  rw [selectLatestCheckpoint_eq hFirst hSecond]
  have hTarget := targetIdx_lt c.seq
  have hCases : targetIdx c.seq = 0 ∨ targetIdx c.seq = 1 := by omega
  rcases hCases with hZero | hOne
  · -- the last completed checkpoint is read first, and only a higher number replaces it
    rw [hZero, hFirst] at hRead
    obtain rfl := Except.ok.inj hRead
    cases second with
    | none => exact ⟨header, c.payload, rfl, .inl ⟨hNumber, rfl⟩⟩
    | some found =>
      have hLimit := hNumbered.next 1 (by decide) found.1
        (readMetaHeader_of_readCheckpoint hSecond)
      simp only [laterCheckpoint]
      split
      · exact ⟨found.1, found.2, rfl, .inr (by omega)⟩
      · exact ⟨header, c.payload, rfl, .inl ⟨hNumber, rfl⟩⟩
  · rw [hOne, hSecond] at hRead
    obtain rfl := Except.ok.inj hRead
    cases first with
    | none => exact ⟨header, c.payload, rfl, .inl ⟨hNumber, rfl⟩⟩
    | some kept =>
      have hKept := readMetaHeader_of_readCheckpoint hFirst
      have hLimit := hNumbered.next 0 (by decide) kept.1 hKept
      simp only [laterCheckpoint]
      split
      · exact ⟨header, c.payload, rfl, .inl ⟨hNumber, rfl⟩⟩
      · have hOther : targetIdx (σ.metaSeq + 1) = 0 := by
          have hNext := targetIdx_succ_ne hPos
          have hLt := targetIdx_lt (c.seq + 1)
          rw [← hSeq]
          omega
        have hNe := hNumbered.other c kept.1 hc (by rw [hOther]; exact hKept)
        exact ⟨kept.1, kept.2, rfl, .inr (by omega)⟩

/-- In every run in which no checkpoint reads `_meta_seq` while another one is under way, from a
device without a header whose number is above `_meta_seq`, the last completed checkpoint stays
recoverable. -/
theorem protected_of_serial_run {device : Bytes} {metaSeq : Nat} {snapshot : SnapshotText}
    {events : List CheckpointEvent} (hBlock : metaHeaderSize ≤ cfg.blockAlign)
    (hDevice : cfg.metaTotalBytes ≤ device.length) (hHeaders : HeadersUpTo cfg device metaSeq)
    (hRun : Run (Run.Under Serial fun σ event τ => σ.step cfg event = some τ)
      (start device metaSeq snapshot) events σ) : Protected cfg σ := by
  have hStart : Numbered cfg (start device metaSeq snapshot) :=
    ⟨fun idx hIdx header hRead => Nat.le_succ_of_le (hHeaders idx hIdx header hRead),
      fun idx hIdx _ header hRead => hHeaders idx hIdx header hRead, nofun⟩
  have hKeep : ∀ s event t, (Inv cfg s ∧ Numbered cfg s) →
      Run.Under Serial (fun σ event τ => σ.step cfg event = some τ) s event t →
      Inv cfg t ∧ Numbered cfg t :=
    fun _ _ _ h hStep => ⟨h.1.step hBlock hStep.1 hStep.2, h.2.step hBlock h.1 hStep.2⟩
  obtain ⟨hInv, hNumbered⟩ := hRun.invariant hKeep ⟨⟨hDevice, nofun, nofun, nofun, nofun⟩, hStart⟩
  exact hInv.protected hBlock hNumbered

/-- Two containers of two blocks of 32 bytes each. -/
def smallConfig : Config where
  blockAlign := 32
  metaTotalBytes := 128
  metaMagic := [0x4c, 0x4d, 0x43, 0x49, 0x44, 0x58, 0x30, 0x31]
  metaVersion := 1
  ioEngine := .posix
  blockAlign_pow := ⟨5, rfl⟩
  metaTotalBytes_dvd := ⟨4, rfl⟩
  metaMagic_length := rfl
  metaVersion_pos := Nat.one_pos
  two_copies := by decide

def digitSnapshot (digit : UInt8) : SnapshotText := ⟨[0x7b, digit, 0x7d], nofun⟩

def smallCore : Core := start (zeros 128) 0 (digitSnapshot 0x30)

/-- Two calls take their snapshots at once and write one after the other. -/
def serialEvents : List CheckpointEvent :=
  [.change (digitSnapshot 0x31), .checkpointOnce true false, .snapshotState 0,
    .change (digitSnapshot 0x32), .checkpointOnce true false, .snapshotState 1, .beginWrite 0,
    .writePayload 0, .writeHeader 0, .finish 0, .beginWrite 0, .writePayload 0]

theorem protected_of_serialEvents : ∃ σ : Core,
    Run (Run.Under Serial fun σ event τ => σ.step smallConfig event = some τ) smallCore
      serialEvents σ ∧ σ.completed.isSome = true ∧ Protected smallConfig σ := by
  obtain ⟨σ, hRun, hCompleted⟩ := Run.exists_under_of_exec Serial (step smallConfig) smallCore
    serialEvents (fun σ => σ.completed.isSome = true) (by decide +kernel)
  have hEmpty : HeadersUpTo smallConfig (zeros 128) 0 := by
    intro idx hIdx header hRead
    have hNone : ∀ idx < 2, (readMetaHeader smallConfig (zeros 128)
        (smallConfig.containerOffset idx)).toOption = some none := by
      decide +kernel
    have hThis := hNone idx hIdx
    rw [hRead] at hThis
    cases hThis
  exact ⟨σ, hRun, hCompleted, protected_of_serial_run (by decide)
    (Nat.le_of_eq (length_zeros 128).symm) hEmpty hRun⟩

/-- The second call has read `_meta_seq` before the first one ends, and writes its payload
into the same container. -/
def overlappingEvents : List CheckpointEvent :=
  [.change (digitSnapshot 0x31), .checkpointOnce true false, .snapshotState 0,
    .change (digitSnapshot 0x32), .checkpointOnce true false, .snapshotState 1, .beginWrite 0,
    .beginWrite 1, .writePayload 0, .writeHeader 0, .finish 0, .writePayload 0]

/-- After a first checkpoint has completed, no container is valid. -/
theorem not_protected_of_overlap : ∃ σ : Core,
    Run (fun σ event τ => σ.step smallConfig event = some τ) smallCore overlappingEvents σ ∧
      σ.completed.isSome = true ∧ ¬ Protected smallConfig σ := by
  obtain ⟨σ, hRun, hCompleted, hInvalid⟩ := Run.exists_of_exec (step smallConfig) smallCore
    overlappingEvents (fun σ => σ.completed.isSome = true ∧ ∀ idx < (2 : Nat),
      (readCheckpoint smallConfig σ.device (smallConfig.containerOffset idx)).toOption.map
        Option.isSome = some false) (by decide +kernel)
  refine ⟨σ, hRun, hCompleted, fun hSafe => ?_⟩
  obtain ⟨c, hc⟩ := Option.isSome_iff_exists.mp hCompleted
  obtain ⟨⟨idx, hIdx, found, hRead⟩, -⟩ := hSafe c hc
  have hThis := hInvalid idx hIdx
  rw [hRead] at hThis
  cases hThis

end Core

end LMCache.RawBlock
