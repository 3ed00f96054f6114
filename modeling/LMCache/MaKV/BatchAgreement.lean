import LMCache.MaKV.BatchBlob
import LMCache.MaKV.FormatRoundTrip

/-!
# The five readings of a batch blob agree

A batch of optional byte strings has one layout: a header, one directory entry for each
value, and the values that are present behind it, padded to the alignment. The encoder,
the size calculation and the segment-wise writer produce this layout; the decoder of a
whole blob and the streaming reader take the values out of it again.
-/

namespace LMCache.MaKV

open Lib Bytes List Option

variable {F : Type} [PyRuntime F]

def batchHeaderBytes (count totalLength : Nat) : Bytes :=
  batchBlobMagic ++ toBE 4 batchBlobVersion ++ toBE 4 count ++ toBE 8 totalLength

def batchEntryBytes : Option (Nat × Nat) → Bytes
  | none => toBE 1 0 ++ zeros 7 ++ toBE 8 0 ++ toBE 8 0
  | some (offset, length) =>
    toBE 1 1 ++ zeros 7 ++ toBE 8 offset ++ toBE 8 length

/-- The bytes from `cursor` on: every value that is present, behind its padding. -/
def batchBody : Nat → List (Option Bytes) → Bytes
  | _, [] => []
  | cursor, none :: rest => batchBody cursor rest
  | cursor, some value :: rest =>
    zeros (alignUp batchBlobAlignment cursor - cursor) ++
      (value ++ batchBody (alignUp batchBlobAlignment cursor + value.length) rest)

/-- The entries come in the order of their ranges, from `cursor` to `stop`. -/
def WireOrdered (stop : Nat) : Nat → List (Option (Nat × Nat)) → Prop
  | cursor, [] => cursor = stop
  | cursor, none :: rest => WireOrdered stop cursor rest
  | cursor, some (offset, length) :: rest =>
    cursor ≤ offset ∧ WireOrdered stop (offset + length) rest

theorem le_alignUp_batch (cursor : Nat) : cursor ≤ alignUp batchBlobAlignment cursor :=
  le_alignUp (by decide) cursor

theorem wireOrdered_batchOffsets (values : List (Option Bytes)) (cursor : Nat) :
    WireOrdered (batchOffsets cursor values).2 cursor (batchOffsets cursor values).1 := by
  induction values generalizing cursor with
  | nil => rfl
  | cons value rest ih =>
    cases value with
    | none => exact ih cursor
    | some value => exact ⟨le_alignUp_batch cursor, ih _⟩

theorem length_batchOffsets (values : List (Option Bytes)) (cursor : Nat) :
    (batchOffsets cursor values).1.length = values.length := by
  induction values generalizing cursor with
  | nil => rfl
  | cons value rest ih =>
    cases value with
    | none => simp [batchOffsets, ih]
    | some value => simp [batchOffsets, ih]

variable {cursor : Nat}

theorem WireOrdered.le {stop : Nat} {entries : List (Option (Nat × Nat))}
    (h : WireOrdered stop cursor entries) : cursor ≤ stop := by
  induction entries generalizing cursor with
  | nil => exact Nat.le_of_eq h
  | cons entry rest ih =>
    cases entry with
    | none => exact ih h
    | some range =>
      have hFirst := h.1
      have hRest := ih h.2
      omega

theorem WireOrdered.mem {stop : Nat} {entries : List (Option (Nat × Nat))}
    (h : WireOrdered stop cursor entries) {offset length : Nat}
    (hMem : some (offset, length) ∈ entries) : cursor ≤ offset ∧ offset + length ≤ stop := by
  induction entries generalizing cursor with
  | nil => simp at hMem
  | cons entry rest ih =>
    cases entry with
    | none =>
      rw [mem_cons] at hMem
      rcases hMem with hHead | hTail
      · cases hHead
      · exact ih h hTail
    | some range =>
      obtain ⟨first, size⟩ := range
      obtain ⟨hFirst, hRest⟩ := h
      rw [mem_cons] at hMem
      rcases hMem with hHead | hTail
      · cases hHead
        exact ⟨hFirst, hRest.le⟩
      · have hBounds := ih hRest hTail
        omega

theorem length_batchBody (values : List (Option Bytes)) (cursor : Nat) :
    cursor + (batchBody cursor values).length = (batchOffsets cursor values).2 := by
  induction values generalizing cursor with
  | nil => rfl
  | cons value rest ih =>
    cases value with
    | none => exact ih cursor
    | some value =>
      have hAlign := le_alignUp_batch cursor
      have hRest := ih (alignUp batchBlobAlignment cursor + value.length)
      simp only [batchBody, length_append, length_zeros]
      change _ = (batchOffsets (alignUp batchBlobAlignment cursor + value.length) rest).2
      omega

theorem slices_batchBody (values : List (Option Bytes)) (before : Bytes) :
    ((batchOffsets before.length values).1.map fun entry => entry.map fun range =>
      (before ++ batchBody before.length values).slice range.1 range.2) = values := by
  induction values generalizing before with
  | nil => rfl
  | cons value rest ih =>
    cases value with
    | none => exact congrArg (none :: ·) (ih before)
    | some value =>
      have hAlign := le_alignUp_batch before.length
      have hPadded : (before ++ zeros
          (alignUp batchBlobAlignment before.length - before.length)).length =
            alignUp batchBlobAlignment before.length := by
        rw [length_append, length_zeros]
        omega
      have hRest := ih (before ++ zeros
        (alignUp batchBlobAlignment before.length - before.length) ++ value)
      rw [length_append, hPadded] at hRest
      have hBlob : before ++ batchBody before.length (some value :: rest) =
          before ++ zeros
            (alignUp batchBlobAlignment before.length - before.length) ++ value ++
              batchBody (alignUp batchBlobAlignment before.length + value.length) rest := by
        simp only [batchBody, append_assoc]
      have hHead : (before ++ batchBody before.length (some value :: rest)).slice
          (alignUp batchBlobAlignment before.length) value.length = value := by
        rw [hBlob, append_assoc _ value, slice_append_right (Nat.le_of_eq hPadded),
          hPadded, Nat.sub_self, slice_zero_left]
      rw [← hBlob] at hRest
      simp only [batchOffsets, map_cons, map_some, hHead]
      rw [hRest]

theorem packBE_eq {width value : Nat} (h : value < 256 ^ width) :
    packBE width value = .ok (toBE width value) := if_pos h

theorem packBatchEntry_none : packBatchEntry 0 0 0 = .ok (batchEntryBytes none) := rfl

theorem packBatchEntry_some (offset length : Nat) (hOffset : offset < 256 ^ 8)
    (hLength : length < 256 ^ 8) :
    packBatchEntry 1 offset length = .ok (batchEntryBytes (some (offset, length))) := by
  simp only [packBatchEntry, packBE_eq hOffset, packBE_eq hLength,
    packBE_eq (by decide : 1 < 256 ^ 1), ok_bind]
  rfl

@[simp] theorem length_batchEntryBytes (entry : Option (Nat × Nat)) :
    (batchEntryBytes entry).length = batchBlobEntrySize := by
  rcases entry with _ | ⟨offset, length⟩ <;>
    simp [batchEntryBytes, batchBlobEntrySize]

@[simp] theorem length_batchHeaderBytes (count totalLength : Nat) :
    (batchHeaderBytes count totalLength).length = batchBlobHeaderSize := by
  simp [batchHeaderBytes, batchBlobHeaderSize, batchBlobMagic]

theorem length_flatMap_batchEntryBytes (entries : List (Option (Nat × Nat))) :
    (entries.flatMap batchEntryBytes).length = entries.length * batchBlobEntrySize := by
  induction entries with
  | nil => simp
  | cons entry rest ih =>
    rw [flatMap_cons, length_append, ih, length_batchEntryBytes, length_cons]
    ring

theorem assign_zeros (before segment : Bytes) (n : Nat) :
    (before ++ zeros (segment.length + n)).assign before.length segment =
      before ++ segment ++ zeros n := by
  unfold assign
  rw [take_left, drop_length_add_append, zeros, drop_replicate,
    Nat.add_sub_cancel_left, zeros]

theorem layoutEntries_eq (values : List (Option Bytes)) (index cursor : Nat) (before : Bytes)
    (segments : List Bytes) (hBefore : before.length = directoryEnd index)
    (hFits : (batchOffsets cursor values).2 < 256 ^ 8) :
    ∃ more, layoutEntries index
        ⟨before ++ zeros (values.length * batchBlobEntrySize), segments, cursor⟩
        (values.zip (batchOffsets cursor values).1) =
      .ok ⟨before ++ (batchOffsets cursor values).1.flatMap batchEntryBytes, segments ++ more,
        (batchOffsets cursor values).2⟩ ∧ more.flatten = batchBody cursor values := by
  induction values generalizing index cursor before segments with
  | nil =>
    refine ⟨[], ?_, rfl⟩
    simp [layoutEntries, batchOffsets, zeros]
  | cons value rest ih =>
    have hNext : ∀ entry, (before ++ batchEntryBytes entry).length = directoryEnd (index + 1) := by
      intro entry
      rw [length_append, hBefore, length_batchEntryBytes, directoryEnd, directoryEnd]
      ring
    have hAssign : ∀ entry, (before ++ zeros
        ((rest.length + 1) * batchBlobEntrySize)).assign
          (batchBlobHeaderSize + index * batchBlobEntrySize) (batchEntryBytes entry) =
        before ++ batchEntryBytes entry ++ zeros (rest.length * batchBlobEntrySize) := by
      intro entry
      rw [← assign_zeros, length_batchEntryBytes, hBefore, directoryEnd]
      congr 3
      ring
    cases value with
    | none =>
      obtain ⟨more, hLoop, hBody⟩ := ih (index + 1) cursor (before ++ batchEntryBytes none)
        segments (hNext none) hFits
      refine ⟨more, ?_, hBody⟩
      simp only [batchOffsets, zip_cons_cons, layoutEntries, layoutEntry, packBatchEntry_none,
        ok_bind, length_cons, hAssign, flatMap_cons, pure, Except.pure]
      rw [hLoop, append_assoc]
    | some value =>
      have hAlign := le_alignUp_batch cursor
      have hBounds := (wireOrdered_batchOffsets (some value :: rest) cursor).mem (mem_cons_self ..)
      have hPack := packBatchEntry_some
        (alignUp batchBlobAlignment cursor) value.length
        (by omega) (by omega)
      obtain ⟨more, hLoop, hBody⟩ := ih (index + 1)
        (alignUp batchBlobAlignment cursor + value.length)
        (before ++ batchEntryBytes (some (alignUp batchBlobAlignment cursor, value.length)))
        (segments ++ (if alignUp batchBlobAlignment cursor - cursor = 0 then []
          else [zeros (alignUp batchBlobAlignment cursor - cursor)]) ++ [value])
        (hNext _) hFits
      refine ⟨(if alignUp batchBlobAlignment cursor - cursor = 0 then []
        else [zeros (alignUp batchBlobAlignment cursor - cursor)]) ++ [value] ++ more,
        ?_, ?_⟩
      · simp only [batchOffsets, zip_cons_cons, layoutEntries, layoutEntry, hPack,
          ok_bind, length_cons, hAssign, flatMap_cons, pure, Except.pure]
        rw [hLoop]
        simp only [append_assoc]
      · rw [flatten_append, flatten_append, hBody, batchBody]
        split
        · rename_i hZero
          simp [hZero, zeros]
        · simp

def batchTotal (values : List (Option Bytes)) : Nat :=
  (batchOffsets (directoryEnd values.length) values).2

def batchEntries (values : List (Option Bytes)) : List (Option (Nat × Nat)) :=
  (batchOffsets (directoryEnd values.length) values).1

def batchDirectory (values : List (Option Bytes)) : Bytes :=
  batchHeaderBytes values.length (batchTotal values) ++
    (batchEntries values).flatMap batchEntryBytes

def batchBytes (values : List (Option Bytes)) : Bytes :=
  batchDirectory values ++ batchBody (directoryEnd values.length) values

theorem length_batchDirectory (values : List (Option Bytes)) :
    (batchDirectory values).length = directoryEnd values.length := by
  rw [batchDirectory, length_append, length_batchHeaderBytes, length_flatMap_batchEntryBytes,
    batchEntries, length_batchOffsets, directoryEnd]

theorem length_batchBytes (values : List (Option Bytes)) :
    (batchBytes values).length = batchTotal values := by
  rw [batchBytes, length_append, length_batchDirectory, length_batchBody, batchTotal]

theorem batchBlobSize_eq {values : List (Option Bytes)} (hCount : values.length ≤ maxBatchObjects) :
    batchBlobSize values = .ok (batchTotal values) := by
  have hLoop : ∀ step : Nat → Option Bytes → Nat, (∀ cursor, step cursor none = cursor) →
      (∀ cursor value, step cursor (some value) =
        alignUp batchBlobAlignment cursor + value.length) →
      ∀ (values : List (Option Bytes)) (cursor : Nat),
        values.foldl step cursor = (batchOffsets cursor values).2 := by
    intro step hMissing hValue values
    induction values with
    | nil => intro cursor; rfl
    | cons value rest ih =>
      intro cursor
      cases value with
      | none => rw [foldl_cons, hMissing, ih, batchOffsets]
      | some value => rw [foldl_cons, hValue, ih, batchOffsets]
  have hGuard : decide (values.length > maxBatchObjects) = false := decide_eq_false (by omega)
  rw [batchBlobSize, hGuard, rejectIf_false, ok_bind]
  exact congrArg Except.ok (hLoop _ (fun _ => rfl) (fun _ _ => rfl) values _)

theorem count_of_batchBlobSize {values : List (Option Bytes)} {size : Nat}
    (h : batchBlobSize values = .ok size) : values.length ≤ maxBatchObjects := by
  obtain ⟨_, hGuard, -⟩ := bind_eq_ok.mp h
  rw [rejectIf_eq_ok, decide_eq_false_iff_not] at hGuard
  omega

theorem batchBlobLayout_eq {values : List (Option Bytes)}
    (hCount : values.length ≤ maxBatchObjects) (hTotal : batchTotal values < 256 ^ 8) :
    ∃ segments, batchBlobLayout values =
        .ok (batchDirectory values, batchDirectory values :: segments, batchTotal values) ∧
      segments.flatten = batchBody (directoryEnd values.length) values := by
  have hGuard : decide (values.length > maxBatchObjects) = false := decide_eq_false (by omega)
  have hHeader : packBatchHeader values.length (batchTotal values) =
      .ok (batchHeaderBytes values.length (batchTotal values)) := by
    have hSmall : values.length < 256 ^ 4 := by
      unfold maxBatchObjects at hCount
      omega
    simp only [packBatchHeader, packBE_eq hSmall, packBE_eq hTotal,
      packBE_eq (by decide : batchBlobVersion < 256 ^ 4), ok_bind]
    rfl
  have hDirectory : (zeros (directoryEnd values.length)).assign 0
      (batchHeaderBytes values.length (batchTotal values)) =
      batchHeaderBytes values.length (batchTotal values) ++
        zeros (values.length * batchBlobEntrySize) := by
    have hAssign := assign_zeros [] (batchHeaderBytes values.length (batchTotal values))
      (values.length * batchBlobEntrySize)
    rw [length_batchHeaderBytes] at hAssign
    exact hAssign
  obtain ⟨more, hLoop, hBody⟩ := layoutEntries_eq values 0 (directoryEnd values.length)
    (batchHeaderBytes values.length (batchTotal values)) []
    (by rw [length_batchHeaderBytes]; rfl) hTotal
  refine ⟨more, ?_, hBody⟩
  rw [batchBlobLayout, hGuard, rejectIf_false, ok_bind]
  change (packBatchHeader values.length (batchTotal values) >>= _) = _
  simp only [hHeader, ok_bind, hDirectory, hLoop]
  rfl

theorem encodeBatchBlob_eq {values : List (Option Bytes)}
    (hCount : values.length ≤ maxBatchObjects) (hTotal : batchTotal values < 256 ^ 8) :
    encodeBatchBlob values = .ok (batchBytes values) := by
  obtain ⟨segments, hLayout, hBody⟩ := batchBlobLayout_eq hCount hTotal
  have hFlatten : (batchDirectory values :: segments).flatten = batchBytes values := by
    rw [flatten_cons, hBody, batchBytes]
  have hFill := assignAll_zeros (batchDirectory values :: segments)
  rw [hFlatten, length_batchBytes] at hFill
  rw [encodeBatchBlob, hLayout, ok_bind]
  exact congrArg Except.ok hFill

def frameHeaderBytes (headerLength payloadLength : Nat) : Bytes :=
  toBE 4 headerLength ++ toBE 8 payloadLength

variable {header : Metadata F}

theorem writeBatchBlobFrame_eq {values : List (Option Bytes)}
    (hHeader : (dumps header).length ≤ maxHeaderBytes) (hCount : values.length ≤ maxBatchObjects)
    (hTotal : batchTotal values < 256 ^ 8) : ∃ segments, writeBatchBlobFrame header values =
        .ok (frameHeaderBytes (dumps header).length (batchTotal values) ::
          dumps header :: segments) ∧ segments.flatten = batchBytes values := by
  obtain ⟨segments, hLayout, hBody⟩ := batchBlobLayout_eq hCount hTotal
  have hGuard : decide ((dumps header).length > maxHeaderBytes) = false :=
    decide_eq_false (by omega)
  have hSmall : (dumps header).length < 256 ^ 4 := by
    unfold maxHeaderBytes at hHeader
    omega
  refine ⟨batchDirectory values :: segments, ?_, ?_⟩
  · simp only [writeBatchBlobFrame, hGuard, rejectIf_false, ok_bind, hLayout,
      batchBlobSize_eq hCount, packFrameHeader, packBE_eq hSmall, packBE_eq hTotal, ne_eq,
      not_true_eq_false, if_false]
    rfl
  · rw [flatten_cons, hBody, batchBytes]

def presentRanges (entries : List (Option (Nat × Nat))) : List (Nat × Nat) :=
  entries.filterMap fun entry => entry.map fun range => (range.1, range.1 + range.2)

theorem mem_presentRanges {entries : List (Option (Nat × Nat))} {range : Nat × Nat}
    (h : range ∈ presentRanges entries) :
    ∃ length, some (range.1, length) ∈ entries ∧ range.2 = range.1 + length := by
  obtain ⟨entry, hEntry, hRange⟩ := mem_filterMap.mp h
  cases entry with
  | none => cases hRange
  | some pair =>
    rw [map_some, Option.some.injEq] at hRange
    subst hRange
    exact ⟨pair.2, hEntry, rfl⟩

theorem uintAt_append (before after : Bytes) {field : Bytes} {offset width value : Nat}
    (hOffset : offset = before.length) (hField : field = toBE width value)
    (hValue : value < 256 ^ width) : uintAt (before ++ (field ++ after)) offset width = value := by
  have hWidth : field.length = width := by rw [hField, length_toBE]
  have hSlice := slice_zero_left field after
  rw [hWidth] at hSlice
  rw [uintAt, hOffset, slice_append_right (Nat.le_refl _), Nat.sub_self, hSlice, hField,
    ofBE_toBE hValue]

theorem uintAt_batchEntry (before after : Bytes) (found offset length : Nat)
    (hFound : found < 256) (hOffset : offset < 256 ^ 8) (hLength : length < 256 ^ 8) :
    let blob := before ++ ((toBE 1 found ++ zeros 7 ++ toBE 8 offset ++
      toBE 8 length) ++ after)
    uintAt blob before.length 1 = found ∧ uintAt blob (before.length + 8) 8 = offset ∧
      uintAt blob (before.length + 16) 8 = length := by
  refine ⟨?_, ?_, ?_⟩
  · simp only [append_assoc]
    exact uintAt_append _ _ rfl rfl (by omega)
  · have hSplit : before ++ ((toBE 1 found ++ zeros 7 ++ toBE 8 offset ++
        toBE 8 length) ++ after) = (before ++ toBE 1 found ++ zeros 7) ++
          (toBE 8 offset ++ (toBE 8 length ++ after)) := by
      simp only [append_assoc]
    rw [hSplit]
    exact uintAt_append _ _ (by simp) rfl hOffset
  · have hSplit : before ++ ((toBE 1 found ++ zeros 7 ++ toBE 8 offset ++
        toBE 8 length) ++ after) =
          (before ++ toBE 1 found ++ zeros 7 ++ toBE 8 offset) ++
            (toBE 8 length ++ after) := by
      simp only [append_assoc]
    rw [hSplit]
    exact uintAt_append _ _ (by simp) rfl hLength

theorem decodeDirectoryEntries_eq (entries : List (Option (Nat × Nat))) (index : Nat)
    (before after : Bytes) (scan : DirectoryScan) {first total : Nat}
    (hBefore : before.length = directoryEnd index) (hOrdered : WireOrdered total cursor entries)
    (hFirst : first ≤ cursor) (hTotal : total < 256 ^ 8) :
    decodeDirectoryEntries (before ++ (entries.flatMap batchEntryBytes ++ after)) first total
      entries.length index scan =
        .ok ⟨scan.result ++ entries, scan.ranges ++ presentRanges entries⟩ := by
  induction entries generalizing index cursor before scan with
  | nil => simp [decodeDirectoryEntries, presentRanges]
  | cons entry rest ih =>
    have hNext : (before ++ batchEntryBytes entry).length = directoryEnd (index + 1) := by
      rw [length_append, hBefore, length_batchEntryBytes, directoryEnd, directoryEnd]
      ring
    have hBlob : before ++ ((entry :: rest).flatMap batchEntryBytes ++ after) =
        before ++ (batchEntryBytes entry ++ (rest.flatMap batchEntryBytes ++ after)) := by
      rw [flatMap_cons, append_assoc]
    have hStep : ∃ cursor', decodeDirectoryEntry
        (before ++ (batchEntryBytes entry ++ (rest.flatMap batchEntryBytes ++ after))) first total
          index scan = .ok ⟨scan.result ++ [entry], scan.ranges ++ presentRanges [entry]⟩ ∧
        cursor ≤ cursor' ∧ WireOrdered total cursor' rest := by
      cases entry with
      | none =>
        obtain ⟨hFound, hOffset, hLength⟩ := uintAt_batchEntry before
          (rest.flatMap batchEntryBytes ++ after) 0 0 0 (by decide) (by decide) (by decide)
        refine ⟨cursor, ?_, Nat.le_refl _, hOrdered⟩
        rw [hBefore, directoryEnd] at hFound hOffset hLength
        simp only [decodeDirectoryEntry, batchEntryBytes, hFound, hOffset, hLength]
        simp [presentRanges, rejectIf, pure, Except.pure]
      | some range =>
        obtain ⟨offset, length⟩ := range
        have hRest := hOrdered.2.le
        have hFrom := hOrdered.1
        obtain ⟨hFound, hOffset, hLength⟩ := uintAt_batchEntry before
          (rest.flatMap batchEntryBytes ++ after) 1 offset length (by decide) (by omega) (by omega)
        refine ⟨offset + length, ?_, by omega, hOrdered.2⟩
        rw [hBefore, directoryEnd] at hFound hOffset hLength
        have hBounds : (decide (offset < first) || decide (offset > total)) = false := by
          simp only [Bool.or_eq_false_iff, decide_eq_false_iff_not]
          omega
        have hRoom : decide (length > total - offset) = false := decide_eq_false (by omega)
        simp only [decodeDirectoryEntry, batchEntryBytes, hFound, hOffset, hLength, hBounds, hRoom,
          rejectIf_false, ok_bind]
        simp [presentRanges, rejectIf, pure, Except.pure]
    obtain ⟨cursor', hEntry, hLe, hOrdered'⟩ := hStep
    have hLoop := ih (index + 1) (before ++ batchEntryBytes entry)
      ⟨scan.result ++ [entry], scan.ranges ++ presentRanges [entry]⟩ hNext hOrdered' (by omega)
    rw [append_assoc] at hLoop
    rw [hBlob, length_cons, decodeDirectoryEntries, hEntry, ok_bind, hLoop]
    have hRanges : presentRanges (entry :: rest) = presentRanges [entry] ++ presentRanges rest :=
      filterMap_append (l := [entry])
    rw [hRanges]
    simp only [append_assoc, singleton_append]

theorem batchOverlapFrom_eq_false {stop : Nat} {entries : List (Option (Nat × Nat))}
    (h : WireOrdered stop cursor entries) :
    batchOverlapFrom cursor (presentRanges entries) = false := by
  induction entries generalizing cursor with
  | nil => rfl
  | cons entry rest ih =>
    cases entry with
    | none => exact ih h
    | some range =>
      obtain ⟨offset, length⟩ := range
      have hFrom := h.1
      have hMax : max cursor (offset + length) = offset + length := by omega
      change batchOverlapFrom cursor ((offset, offset + length) :: presentRanges rest) = false
      rw [batchOverlapFrom, if_neg (by omega), hMax]
      exact ih h.2

theorem pairwise_presentRanges {stop : Nat} {entries : List (Option (Nat × Nat))}
    (h : WireOrdered stop cursor entries) :
    (presentRanges entries).Pairwise fun a b => a.1 < b.1 ∨ (a.1 = b.1 ∧ a.2 ≤ b.2) := by
  induction entries generalizing cursor with
  | nil => exact List.Pairwise.nil
  | cons entry rest ih =>
    cases entry with
    | none => exact ih h
    | some range =>
      obtain ⟨offset, length⟩ := range
      change ((offset, offset + length) :: presentRanges rest).Pairwise _
      refine pairwise_cons.mpr ⟨?_, ih h.2⟩
      intro later hLater
      obtain ⟨size, hMem, hStop⟩ := mem_presentRanges hLater
      have hBounds := h.2.mem hMem
      simp only
      omega

theorem decodeBatchBlobDirectory_eq {values : List (Option Bytes)} (after : Bytes)
    (hCount : values.length ≤ maxBatchObjects)
    (hTotal : batchTotal values ≤ defaultMaxPayloadBytes) :
    decodeBatchBlobDirectory (batchDirectory values ++ after) (batchTotal values) values.length =
      .ok (batchEntries values) := by
  have hOrdered := wireOrdered_batchOffsets values (directoryEnd values.length)
  have hTotalLt : batchTotal values < 256 ^ 8 := by
    unfold defaultMaxPayloadBytes at hTotal
    omega
  have hCountLt : values.length < 256 ^ 4 := by
    unfold maxBatchObjects at hCount
    omega
  have hSplit : batchDirectory values ++ after =
      batchHeaderBytes values.length (batchTotal values) ++
      ((batchEntries values).flatMap batchEntryBytes ++ after) := by
    rw [batchDirectory, append_assoc]
  have hMagic : (batchDirectory values ++ after).slice 0 4 = batchBlobMagic := by
    rw [hSplit, batchHeaderBytes]
    simp only [append_assoc]
    exact slice_zero_left batchBlobMagic _
  have hVersion : uintAt (batchDirectory values ++ after) 4 4 = batchBlobVersion := by
    rw [hSplit, batchHeaderBytes]
    simp only [append_assoc]
    exact uintAt_append _ _ rfl rfl (by decide)
  have hCountField : uintAt (batchDirectory values ++ after) 8 4 = values.length := by
    rw [hSplit, batchHeaderBytes, append_assoc, append_assoc]
    exact uintAt_append _ _ (by simp [batchBlobMagic]) rfl hCountLt
  have hTotalField : uintAt (batchDirectory values ++ after) 12 8 = batchTotal values := by
    rw [hSplit, batchHeaderBytes, append_assoc]
    exact uintAt_append _ _ (by simp [batchBlobMagic]) rfl hTotalLt
  have hLength : directoryEnd values.length ≤ (batchDirectory values ++ after).length := by
    rw [length_append, length_batchDirectory]
    omega
  have hStop : directoryEnd values.length ≤ batchTotal values := hOrdered.le
  have hScan : decodeDirectoryEntries (batchDirectory values ++ after)
      (directoryEnd values.length) (batchTotal values) values.length 0 ⟨[], []⟩ =
        .ok ⟨batchEntries values, presentRanges (batchEntries values)⟩ := by
    have hLoop := decodeDirectoryEntries_eq (batchEntries values) 0
      (batchHeaderBytes values.length (batchTotal values)) after ⟨[], []⟩
      (by rw [length_batchHeaderBytes]; rfl) hOrdered (Nat.le_refl _) hTotalLt
    rw [← hSplit, batchEntries, length_batchOffsets] at hLoop
    exact hLoop
  have hHeaderSize : batchBlobHeaderSize ≤ directoryEnd values.length := Nat.le_add_right _ _
  have hOverlap := batchOverlapFrom_eq_false hOrdered
  rw [← (pairwise_presentRanges hOrdered).insertionSort_eq] at hOverlap
  have hGuards : decide (values.length > maxBatchObjects) = false ∧
      decide (batchTotal values > defaultMaxPayloadBytes) = false ∧
      decide ((batchDirectory values ++ after).length < batchBlobHeaderSize) = false ∧
      (decide (directoryEnd values.length > (batchDirectory values ++ after).length) ||
        decide (directoryEnd values.length > batchTotal values)) = false := by
    simp only [Bool.or_eq_false_iff, decide_eq_false_iff_not]
    omega
  obtain ⟨hMany, hLarge, hShort, hOutside⟩ := hGuards
  unfold decodeBatchBlobDirectory
  simp only [hMany, hLarge, hShort, hMagic, hVersion, hCountField, hTotalField, hOutside, hScan,
    ne_eq, not_true_eq_false, decide_false, rejectIf_false, ok_bind]
  rw [batchEntries, hOverlap]
  rfl

theorem decodeBatchBlob_eq {values : List (Option Bytes)} (hCount : values.length ≤ maxBatchObjects)
    (hTotal : batchTotal values ≤ defaultMaxPayloadBytes) :
    decodeBatchBlob (batchBytes values) values.length = .ok values := by
  have hSlices := slices_batchBody values (batchDirectory values)
  rw [length_batchDirectory] at hSlices
  have hDirectory := decodeBatchBlobDirectory_eq (batchBody (directoryEnd values.length) values)
    hCount hTotal
  rw [← batchBytes] at hDirectory
  rw [decodeBatchBlob, length_batchBytes, hDirectory, ok_bind]
  exact congrArg Except.ok hSlices

theorem recvInto_cons {size : Nat} (hSize : 0 < size) (chunk : Bytes) (rest : Socket) :
    recvInto size (chunk :: rest) =
      if chunk.length ≤ size then do
        let (data, sock) ← recvInto (size - chunk.length) rest
        return (chunk ++ data, sock)
      else .ok (chunk.take size, chunk.drop size :: rest) := by
  cases size with
  | zero => omega
  | succ size => rfl

variable {sock : Socket} {rest : Bytes}

theorem recvInto_eq {data : Bytes} (h : sock.flatten = data ++ rest) :
    ∃ sock', recvInto data.length sock = .ok (data, sock') ∧ sock'.flatten = rest := by
  induction sock generalizing data with
  | nil =>
    rw [flatten_nil, eq_comm, append_eq_nil_iff] at h
    obtain ⟨rfl, rfl⟩ := h
    exact ⟨[], rfl, rfl⟩
  | cons chunk more ih =>
    rcases data.eq_nil_or_concat with rfl | ⟨_, _, hData⟩
    · exact ⟨chunk :: more, by simp [recvInto], h⟩
    · have hPos : 0 < data.length := by simp [hData]
      rw [flatten_cons, append_eq_append_iff] at h
      rcases h with ⟨left, rfl, hMore⟩ | ⟨left, rfl, hRest⟩
      · obtain ⟨sock', hRecv, hFlatten⟩ := ih hMore
        refine ⟨sock', ?_, hFlatten⟩
        rw [recvInto_cons hPos, if_pos (by simp), length_append, Nat.add_sub_cancel_left, hRecv]
        rfl
      · by_cases hLeft : left = []
        · subst hLeft
          obtain ⟨sock', hRecv, hFlatten⟩ := ih (show more.flatten = [] ++ rest from hRest.symm)
          refine ⟨sock', ?_, hFlatten⟩
          rw [recvInto_cons hPos, if_pos (by simp)]
          simp only [append_nil, Nat.sub_self]
          rw [length_nil] at hRecv
          rw [hRecv]
          simp [pure, Except.pure]
        · have hLong : 0 < left.length := length_pos_iff.mpr hLeft
          refine ⟨left :: more, ?_, by rw [flatten_cons, hRest]⟩
          rw [recvInto_cons hPos, if_neg (by rw [length_append]; omega)]
          simp

theorem discardSocketBytes_eq (padding : Bytes) (h : sock.flatten = padding ++ rest) :
    ∃ sock', discardSocketBytes padding.length sock = .ok sock' ∧ sock'.flatten = rest := by
  induction hSize : padding.length using Nat.strong_induction_on generalizing padding sock with
  | _ size ih =>
    by_cases hZero : size = 0
    · have hNil : padding = [] := length_eq_zero_iff.mp (by omega)
      subst hNil
      refine ⟨sock, ?_, h⟩
      rw [discardSocketBytes, if_pos hZero]
    · have hCut : (padding.take discardChunk).length = min size discardChunk := by
        rw [length_take, hSize, Nat.min_comm]
      have hRest : (padding.drop discardChunk).length = size - min size discardChunk := by
        rw [length_drop, hSize]
        omega
      rw [← take_append_drop discardChunk padding, append_assoc] at h
      obtain ⟨next, hRecv, hNext⟩ := recvInto_eq h
      obtain ⟨sock', hDiscard, hFlatten⟩ := ih _ (by unfold discardChunk; omega) _ hNext hRest
      refine ⟨sock', ?_, hFlatten⟩
      rw [hCut] at hRecv
      rw [discardSocketBytes, if_neg hZero, hRecv, ok_bind]
      exact hDiscard

theorem receiveObject_eq {offset : Nat} (timing : Option (List (String × Json F))) {value : Bytes}
    (hFrom : cursor ≤ offset)
    (hSock : sock.flatten = zeros (offset - cursor) ++ (value ++ rest)) :
    ∃ object sock', receiveObject cursor timing offset value.length sock =
        .ok (some object, sock') ∧ object.byteArray = value ∧ sock'.flatten = rest := by
  obtain ⟨next, hDiscard, hNext⟩ := discardSocketBytes_eq _ hSock
  obtain ⟨sock', hRecv, hFlatten⟩ := recvInto_eq hNext
  rw [length_zeros] at hDiscard
  refine ⟨⟨value, true, timing⟩, sock', ?_, rfl, hFlatten⟩
  rw [receiveObject, if_neg (by omega)]
  change (discardSocketBytes (offset - cursor) sock >>= _) = _
  rw [hDiscard, ok_bind, hRecv, ok_bind]
  cases timing with
  | none => rfl
  | some timing => rfl

theorem streamEntries_eq (values : List (Option Bytes)) (timings : List (Json F))
    (index cursor : Nat)
    (hTimings : ∀ i : Nat, ∃ timing, decodeBatchTiming (timings[i]?.getD .null) = .ok timing)
    (hSock : sock.flatten = batchBody cursor values ++ rest) :
    ∃ objects, streamEntries timings (batchOffsets cursor values).2 index cursor sock
        (batchOffsets cursor values).1 = (objects, .ok ()) ∧
      objects.map (fun o => (o.1, o.2.map MemoryObj.byteArray)) =
        (List.range' index values.length).zip values := by
  induction values generalizing index cursor sock with
  | nil =>
    refine ⟨[], ?_, rfl⟩
    simp [batchOffsets, streamEntries, discardSocketBytes, pure, Except.pure]
  | cons value more ih =>
    obtain ⟨timing, hTiming⟩ := hTimings index
    cases value with
    | none =>
      obtain ⟨objects, hLoop, hValues⟩ := ih (index + 1) cursor hSock
      refine ⟨(index, none) :: objects, ?_, ?_⟩
      · simp only [batchOffsets, streamEntries, hTiming, ok_bind, pure, Except.pure, hLoop,
          Streamed.cons]
      · rw [map_cons, hValues]
        rfl
    | some value =>
      rw [batchBody, append_assoc, append_assoc] at hSock
      obtain ⟨object, sock', hObject, hBytes, hFlatten⟩ :=
        receiveObject_eq timing (le_alignUp_batch cursor) hSock
      obtain ⟨objects, hLoop, hValues⟩ := ih (index + 1) _ hFlatten
      refine ⟨(index, some object) :: objects, ?_, ?_⟩
      · simp only [batchOffsets, streamEntries, hTiming, ok_bind, pure, Except.pure, hObject, hLoop,
          Streamed.cons]
      · rw [map_cons, hValues, map_some, hBytes]
        rfl

theorem decodeBatchTiming_compact (timing : BatchTiming F) :
    ∃ decoded, decodeBatchTiming timing.compact = .ok decoded := by
  refine ⟨some [("hot_cache_hit", .bool ((if timing.hotCacheHit then 1 else 0 : Int) ≠ 0)),
    ("hot_cache_ms", .float timing.hotCacheMs), ("storage_ms", .float timing.storageMs),
    ("validate_ms", .float timing.validateMs), ("total_ms", .float timing.totalMs),
    ("batch_storage_ms", .float timing.batchStorageMs),
    ("batch_validate_ms", .float timing.batchValidateMs),
    ("batch_total_ms", .float timing.batchTotalMs)], ?_⟩
  simp only [BatchTiming.compact, decodeBatchTiming, Json.toInt, mapM_cons, mapM_nil,
    PyRuntime.floatOf_float, ok_bind, pure, Except.pure, timingError]

omit [PyRuntime F] in
theorem get?_batchBlobResponse (timings : List (BatchTiming F)) :
    (batchBlobResponse timings).get? "status" = some (.str "ok") ∧
    (batchBlobResponse timings).get? "batch_stream_version" = none ∧
    (batchBlobResponse timings).get? "batch_blob_version" = some (.int batchBlobVersion) ∧
    (batchBlobResponse timings).get? "count" = some (.int timings.length) ∧
    (batchBlobResponse timings).get? "batch_timings" = some
      (.arr (if timings.length ≤ 256 then timings.map BatchTiming.compact else [])) := by
  unfold batchBlobResponse
  refine ⟨?_, ?_, ?_, ?_, ?_⟩ <;> simp [Dict.get?_set, Dict.get?_empty]

theorem loadHeader_dumps (header : Metadata F) :
    loadHeader (dumps header) = .ok (canonical header) := by
  rw [loadHeader, read_dumps]
  simp only [ofList_canonical]

theorem length_dumps_pos (header : Metadata F) : 0 < (dumps header).length := by
  have hObj := byteLength_obj header.entries
  change 0 < byteLength (Json.text (.obj header.entries))
  split at hObj <;> omega

theorem readSocketFrameHeader_eq {payloadLength : Nat}
    (hHeader : (dumps header).length ≤ maxHeaderBytes)
    (hPayload : payloadLength ≤ defaultMaxPayloadBytes)
    (hSock : sock.flatten = frameHeaderBytes (dumps header).length payloadLength ++
      (dumps header ++ rest))
    : ∃ sock', readSocketFrameHeader sock = .ok ((canonical header, payloadLength), sock') ∧
      sock'.flatten = rest := by
  obtain ⟨next, hFrame, hNext⟩ := recvInto_eq hSock
  obtain ⟨sock', hBytes, hFlatten⟩ := recvInto_eq hNext
  have hSize : (frameHeaderBytes (dumps header).length payloadLength).length = frameHeaderSize := by
    simp [frameHeaderBytes, frameHeaderSize]
  have hHeaderField : uintAt (frameHeaderBytes (dumps header).length payloadLength) 0 4 =
      (dumps header).length := by
    unfold maxHeaderBytes at hHeader
    exact uintAt_append [] _ rfl rfl (by omega)
  have hPayloadField : uintAt (frameHeaderBytes (dumps header).length payloadLength) 4 8 =
      payloadLength := by
    unfold defaultMaxPayloadBytes at hPayload
    rw [frameHeaderBytes, ← append_nil (toBE 8 payloadLength)]
    exact uintAt_append _ [] (by simp) rfl (by omega)
  have hPos := length_dumps_pos header
  have hGuard : (decide ((dumps header).length = 0) ||
      decide ((dumps header).length > maxHeaderBytes)) = false := by
    simp only [Bool.or_eq_false_iff, decide_eq_false_iff_not]
    omega
  have hLimit : decide (payloadLength > defaultMaxPayloadBytes) = false :=
    decide_eq_false (by omega)
  refine ⟨sock', ?_, hFlatten⟩
  rw [hSize] at hFrame
  simp only [readSocketFrameHeader, hFrame, ok_bind, hHeaderField, hPayloadField, hGuard, hLimit,
    rejectIf_false, hBytes, loadHeader_dumps]
  rfl

variable {timings : List (BatchTiming F)}

theorem readDirectory_eq {values : List (Option Bytes)} (hCount : values.length ≤ maxBatchObjects)
    (hTotal : batchTotal values ≤ defaultMaxPayloadBytes)
    (hTimings : timings.length = values.length)
    (hSock : sock.flatten = batchDirectory values ++ rest) :
    ∃ compact sock', readDirectory values.length (canonical (batchBlobResponse timings))
        (batchTotal values) sock =
          .ok (batchEntries values, compact, directoryEnd values.length, sock') ∧
      (∀ i : Nat, ∃ timing, decodeBatchTiming (compact[i]?.getD .null) = .ok timing) ∧
      sock'.flatten = rest := by
  obtain ⟨-, -, -, hDeclared, hCompact⟩ := get?_batchBlobResponse timings
  have hStop : directoryEnd values.length ≤ batchTotal values :=
    (wireOrdered_batchOffsets values (directoryEnd values.length)).le
  have hHeaderLe : batchBlobHeaderSize ≤ directoryEnd values.length := Nat.le_add_right _ _
  have hSplit := hSock
  rw [batchDirectory, append_assoc] at hSplit
  obtain ⟨next, hHead, hNext⟩ := recvInto_eq hSplit
  obtain ⟨sock', hEntries, hFlatten⟩ := recvInto_eq hNext
  rw [length_batchHeaderBytes] at hHead
  rw [length_flatMap_batchEntryBytes, batchEntries, length_batchOffsets, ← batchEntries] at hEntries
  have hCountField : uintAt (batchHeaderBytes values.length (batchTotal values)) 8 4 =
      values.length := by
    unfold maxBatchObjects at hCount
    rw [batchHeaderBytes, append_assoc]
    exact uintAt_append _ _ (by simp [batchBlobMagic]) rfl (by omega)
  have hDeclaredInt : headerInt (canonical (batchBlobResponse timings)) "count" =
      .ok (values.length : Int) := by
    rw [headerInt, get?_canonical, hDeclared, hTimings]
    rfl
  have hDecode := decodeBatchBlobDirectory_eq [] hCount hTotal
  rw [append_nil, batchDirectory] at hDecode
  have hRoom : directoryEnd values.length - batchBlobHeaderSize =
      values.length * batchBlobEntrySize := Nat.add_sub_cancel_left _ _
  let compact : List (Json F) :=
    (if timings.length ≤ 256 then timings.map BatchTiming.compact else []).map Json.canon
  have hField : ((canonical (batchBlobResponse timings)).get? "batch_timings").getD (.arr []) =
      .arr compact := by
    rw [get?_canonical, hCompact, map_some, getD_some, Json.canon, Json.canonItems_eq_map]
  have hLength : compact.length = 0 ∨ compact.length = values.length := by
    simp only [compact, length_map]
    split
    · exact Or.inr (by rw [length_map, hTimings])
    · exact Or.inl rfl
  refine ⟨compact, sock', ?_, ?_, hFlatten⟩
  · simp only [readDirectory, hDeclaredInt, ok_bind, ne_eq, not_true_eq_false, if_false,
      if_neg (by omega : ¬ batchTotal values < batchBlobHeaderSize), hHead, hCountField,
      if_neg (by omega : ¬ directoryEnd values.length > batchTotal values), hRoom, hEntries,
      hDecode, hField, if_pos hLength, pure, Except.pure]
  · intro i
    cases hAt : compact[i]? with
    | none => exact ⟨none, rfl⟩
    | some entry =>
      have hMem := mem_of_getElem? hAt
      simp only [compact, List.mem_map] at hMem
      obtain ⟨original, hOriginal, rfl⟩ := hMem
      split at hOriginal
      · obtain ⟨timing, -, rfl⟩ := List.mem_map.mp hOriginal
        exact decodeBatchTiming_compact timing
      · cases hOriginal

theorem batchedGetChunkStreaming_eq {values : List (Option Bytes)}
    (hCount : values.length ≤ maxBatchObjects) (hTotal : batchTotal values ≤ defaultMaxPayloadBytes)
    (hTimings : timings.length = values.length)
    (hHeader : (dumps (batchBlobResponse timings)).length ≤ maxHeaderBytes)
    (hSock : sock.flatten = frameHeaderBytes (dumps (batchBlobResponse timings)).length
      (batchTotal values) ++ (dumps (batchBlobResponse timings) ++ (batchBytes values ++ rest)))
    : ∃ objects, batchedGetChunkStreaming (F := F) values.length sock = (objects, .ok ()) ∧
      objects.map (fun o => (o.1, o.2.map MemoryObj.byteArray)) =
        (List.range values.length).zip values := by
  obtain ⟨hStatus, hStream, hBlob, -, -⟩ := get?_batchBlobResponse timings
  obtain ⟨next, hFrame, hNext⟩ := readSocketFrameHeader_eq hHeader hTotal hSock
  rw [batchBytes, append_assoc] at hNext
  obtain ⟨compact, body, hDirectory, hCompact, hBody⟩ :=
    readDirectory_eq hCount hTotal hTimings hNext
  obtain ⟨objects, hLoop, hValues⟩ := streamEntries_eq values compact 0
    (directoryEnd values.length) hCompact hBody
  have hOk : requireOk (canonical (batchBlobResponse timings)) = .ok () := by
    rw [requireOk, get?_canonical, hStatus]
    rfl
  have hNoStream : headerEquals (canonical (batchBlobResponse timings)) "batch_stream_version"
      batchStreamVersion = false := by
    rw [headerEquals, get?_canonical, hStream]
    rfl
  have hIsBlob : headerEquals (canonical (batchBlobResponse timings)) "batch_blob_version"
      batchBlobVersion = true := by
    rw [headerEquals, get?_canonical, hBlob]
    rfl
  refine ⟨objects, ?_, ?_⟩
  · simp only [batchedGetChunkStreaming, hFrame, ok_bind, hOk, pure, Except.pure, hNoStream,
      hIsBlob, if_true, Bool.false_eq_true, if_false, hDirectory]
    exact hLoop
  · rw [hValues, range_eq_range']

/-- Producers and consumers of batch blobs agree on every batch within the limits: the
decoder gives the values back, the size is the length, the segments are the blob, and the
streaming reader yields the values in order, however the network cuts the frame. -/
theorem batch_blob_agreement (values : List (Option Bytes)) (size : Nat)
    (hSize : batchBlobSize values = .ok size) (hLimit : size ≤ defaultMaxPayloadBytes) :
    ∃ blob, encodeBatchBlob values = .ok blob ∧ blob.length = size ∧
      decodeBatchBlob blob values.length = .ok values ∧
      (∀ header : Metadata F, (dumps header).length ≤ maxHeaderBytes →
        ∃ frameHeader segments,
          packFrameHeader (dumps header).length blob.length = .ok frameHeader ∧
          writeBatchBlobFrame header values = .ok (frameHeader :: dumps header :: segments) ∧
          segments.flatten = blob) ∧
      ∀ (timings : List (BatchTiming F)) (writes : List Bytes) (sock : Socket) (rest : Bytes),
        timings.length = values.length →
        writeBatchBlobFrame (batchBlobResponse timings) values = .ok writes →
        sock.flatten = writes.flatten ++ rest →
        ∃ objects, batchedGetChunkStreaming (F := F) values.length sock = (objects, .ok ()) ∧
          objects.map (fun o => (o.1, o.2.map MemoryObj.byteArray)) =
            (List.range values.length).zip values := by
  have hCount := count_of_batchBlobSize hSize
  have hTotal : batchTotal values = size := by
    rw [batchBlobSize_eq hCount] at hSize
    exact Except.ok.inj hSize
  subst hTotal
  have hSmall : batchTotal values < 256 ^ 8 := by
    unfold defaultMaxPayloadBytes at hLimit
    omega
  refine ⟨batchBytes values, encodeBatchBlob_eq hCount hSmall, length_batchBytes values,
    decodeBatchBlob_eq hCount hLimit, ?_, ?_⟩
  · intro header hHeader
    obtain ⟨segments, hWrite, hFlatten⟩ := writeBatchBlobFrame_eq hHeader hCount hSmall
    refine ⟨_, segments, ?_, hWrite, hFlatten⟩
    unfold maxHeaderBytes at hHeader
    rw [packFrameHeader, packBE_eq (by omega), ok_bind, length_batchBytes,
      packBE_eq hSmall, ok_bind]
    rfl
  · intro timings writes sock rest hTimings hWrites hSock
    have hHeader : (dumps (batchBlobResponse timings)).length ≤ maxHeaderBytes := by
      obtain ⟨_, hGuard, -⟩ := bind_eq_ok.mp hWrites
      rw [rejectIf_eq_ok, decide_eq_false_iff_not] at hGuard
      omega
    obtain ⟨segments, hWrite, hFlatten⟩ := writeBatchBlobFrame_eq hHeader hCount hSmall
    rw [hWrite] at hWrites
    obtain rfl := Except.ok.inj hWrites
    rw [List.flatten_cons, List.flatten_cons, hFlatten, List.append_assoc, List.append_assoc]
      at hSock
    exact batchedGetChunkStreaming_eq hCount hLimit hTimings hHeader hSock

theorem mixed_batch_agreement :
    batchBlobSize [some [1, 2, 3], none, some []] = .ok 192 ∧
      ∃ blob, encodeBatchBlob [some [1, 2, 3], none, some []] = .ok blob ∧ blob.length = 192 ∧
        decodeBatchBlob blob 3 = .ok [some [1, 2, 3], none, some []] := by
  have hSize : batchBlobSize [some [1, 2, 3], none, some []] = .ok 192 := by decide +kernel
  obtain ⟨blob, hEncode, hLength, hDecode, -⟩ :=
    batch_blob_agreement (F := Decimal) [some [1, 2, 3], none, some []] 192 hSize (by decide)
  exact ⟨hSize, blob, hEncode, hLength, hDecode⟩

end LMCache.MaKV
