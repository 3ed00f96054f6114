import LMCache.Coordinator.BlendMatches
import LMCache.Lib.Assignment
import Mathlib.Data.List.Sort

/-!
# What the fingerprint index finds

Rolling computes the fingerprint of every window. The filter has the bit of every fingerprint in
the table, through marks, growth and rebuilds, so a probed window of indexed content always
reaches its entry. Each such window takes the next chunk of the content that is not taken, and
the chunks that the windows of one content take are its occupants in order.
-/

namespace LMCache.Coordinator

open Lib Serde FingerprintEntry List

theorem rollWindows_eq (base : UInt64) (k : Nat) (l : List UInt64) :
    rollWindows base ((· * base)^[k] 1) (polynomialHash base (l.take (k + 1))) l (l.drop (k + 1)) =
      (Lib.windows (k + 1) l).tail.map (polynomialHash base) := by
  induction l with
  | nil => simp [rollWindows, Lib.windows]
  | cons x rest ih =>
    by_cases hMore : k + 1 ≤ rest.length
    · have hEnters : rest.drop k = rest[k] :: rest.drop (k + 1) := drop_eq_getElem_cons hMore
      have hWindow : rest.take (k + 1) = rest.take k ++ [rest[k]] :=
        take_succ_eq_append_getElem hMore
      have hShift := polynomialHash_shift base x rest[k] (rest.take k)
      rw [length_take_of_le (by omega), ← hWindow] at hShift
      rw [windows_cons hMore, drop_succ_cons, hEnters, take_succ_cons, tail_cons,
        windows_eq_cons hMore, map_cons, ← ih, hShift]
      rfl
    · have hNone : (x :: rest).drop (k + 1) = [] :=
        drop_eq_nil_of_le (by rw [length_cons]; omega)
      have hOne : (Lib.windows (k + 1) (x :: rest)).tail = [] := by
        refine eq_nil_of_length_eq_zero ?_
        rw [length_tail, length_windows, length_cons]
        omega
      rw [hNone, hOne]
      rfl

variable {k : Nat}

theorem rollingHashWindows_eq (base : UInt64) (hk : 1 ≤ k) {l : List UInt64} (h : k ≤ l.length) :
    rollingHashWindows l k base = (Lib.windows k l).map (polynomialHash base) := by
  obtain ⟨k, rfl⟩ : ∃ j, k = j + 1 := ⟨k - 1, by omega⟩
  rw [windows_eq_cons h, map_cons, ← rollWindows_eq]
  rfl

theorem polynomialFingerprint_eq (hk : 1 ≤ k) {window : List UInt64} (h : window.length = k) :
    BlendIndex.polynomialFingerprint k window = polynomialHash polyBase window := by
  unfold BlendIndex.polynomialFingerprint chunkHashWindows
  rw [h, Nat.div_self hk, ← h]
  simp [polynomialHash]

namespace BlendIndex

theorem matchTokens_eq (s : BlendIndex) (query : List UInt64) :
    s.matchTokens query = s.matchWindows (polynomialFingerprint s.chunkSize) query := by
  unfold matchTokens matchWindows
  split
  · rfl
  · rename_i hLong
    rw [rollingHashWindows_eq polyBase s.chunkSize_pos (Nat.le_of_not_lt hLong)]
    refine congrArg _ (map_congr_left fun window hWindow => ?_)
    exact (polynomialFingerprint_eq s.chunkSize_pos (length_of_mem_windows hWindow)).symm

/-- The filter has the bit of every fingerprint in the table, and its set bits are counted. -/
structure FilterKept (s : BlendIndex) : Prop where
  size : 0 < s.slots.length
  kept : ∀ poly ∈ s.fingerprintTable.keys, s.slots.getD (slot s.slots.length poly) false = true
  counted : s.bitsSet = s.slots.countP id

theorem slot_lt {size : Nat} (h : 0 < size) (poly : UInt64) : slot size poly < size := by
  have hMask : slot size poly ≤ size - 1 := Nat.and_le_right
  omega

theorem getD_set_bit {slots : List Bool} {i : Nat} (h : i < slots.length) (j : Nat) :
    (slots.set i true).getD j false = (decide (i = j) || slots.getD j false) := by
  rw [getD_eq_getElem?_getD, getD_eq_getElem?_getD, getElem?_set]
  by_cases hj : i = j
  · simp [hj, hj ▸ h]
  · simp [hj]

theorem length_foldl_set (size : Nat) (polys : List UInt64) (slots : List Bool) :
    (polys.foldl (fun slots poly => slots.set (slot size poly) true) slots).length =
      slots.length := by
  induction polys generalizing slots with
  | nil => rfl
  | cons poly rest ih => exact (ih _).trans length_set

theorem bits_foldl_set {size : Nat} (hSize : 0 < size) {polys : List UInt64} {slots : List Bool}
    (hLength : slots.length = size) {j : Nat}
    (h : slots.getD j false = true ∨ ∃ poly ∈ polys, slot size poly = j) :
    (polys.foldl (fun slots poly => slots.set (slot size poly) true) slots).getD j false =
      true := by
  induction polys generalizing slots with
  | nil =>
    rcases h with hSet | ⟨poly, hMem, -⟩
    · exact hSet
    · cases hMem
  | cons poly rest ih =>
    refine ih (length_set.trans hLength) ?_
    rw [getD_set_bit (by rw [hLength]; exact slot_lt hSize poly)]
    rcases h with hSet | ⟨other, hMem, hSlot⟩
    · exact Or.inl (by rw [hSet, Bool.or_true])
    · rcases mem_cons.mp hMem with rfl | hRest
      · exact Or.inl (by simp [hSlot])
      · exact Or.inr ⟨other, hRest, hSlot⟩

theorem le_growTable (needed fuel size : Nat) : size ≤ growTable needed fuel size := by
  induction fuel generalizing size with
  | zero => exact Nat.le_refl size
  | succ fuel ih =>
    unfold growTable
    split
    · exact Nat.le_trans (by omega) (ih (2 * size))
    · exact Nat.le_refl size

theorem filterKept_rebuildTable (s : BlendIndex) : s.rebuildTable.FilterKept := by
  have hSize : 0 < growTable (tableGrowth * s.fingerprintTable.size)
      (tableGrowth * s.fingerprintTable.size) minTableSize :=
    Nat.lt_of_lt_of_le (by decide) (le_growTable _ _ _)
  have hLength : s.rebuildTable.slots.length = growTable (tableGrowth * s.fingerprintTable.size)
      (tableGrowth * s.fingerprintTable.size) minTableSize :=
    (length_foldl_set _ _ _).trans length_replicate
  refine ⟨hLength ▸ hSize, fun poly hPoly => ?_, rfl⟩
  rw [hLength]
  exact bits_foldl_set hSize length_replicate (Or.inr ⟨poly, hPoly, rfl⟩)

theorem FilterKept.mark {s : BlendIndex} {poly : UInt64} (hSize : 0 < s.slots.length)
    (hKept : ∀ other ∈ s.fingerprintTable.keys,
      other = poly ∨ s.slots.getD (slot s.slots.length other) false = true)
    (hCounted : s.bitsSet = s.slots.countP id) : (s.mark poly).FilterKept := by
  have hSlot := slot_lt hSize poly
  unfold BlendIndex.mark
  dsimp only
  split
  · rename_i hBit
    refine ⟨hSize, fun other hOther => ?_, hCounted⟩
    rcases hKept other hOther with rfl | hSet
    · exact hBit
    · exact hSet
  · rename_i hClear
    constructor
    · exact hSize.trans_eq length_set.symm
    · intro other hOther
      dsimp only
      rw [length_set, getD_set_bit hSlot]
      rcases hKept other hOther with rfl | hSet
      · simp
      · rw [hSet, Bool.or_true]
    · have hNone : s.slots[slot s.slots.length poly] = false := by
        rw [getD_eq_getElem?_getD, getElem?_eq_getElem hSlot, Option.getD_some] at hClear
        exact eq_false_of_ne_true hClear
      dsimp only
      rw [countP_set hSlot, hNone, hCounted]
      simp

theorem filterKept_new {chunkSize probeStride : Nat} (hSize : 1 ≤ chunkSize)
    (hStride : 1 ≤ probeStride) : (new chunkSize probeStride hSize hStride).FilterKept := by
  refine ⟨?_, fun poly hPoly => ?_, ?_⟩
  · rw [show (new chunkSize probeStride hSize hStride).slots = List.replicate minTableSize false
      from rfl, length_replicate]
    decide
  · cases hPoly
  · exact (countP_eq_zero.mpr fun b hb => by simp [eq_of_mem_replicate hb]).symm

theorem FilterKept.call {fingerprint : List UInt64 → UInt64} {s : BlendIndex} (h : s.FilterKept)
    (c : IndexCall) : (s.call fingerprint c).FilterKept := by
  cases c with
  | add tokenIds chunkHash tokenOffset =>
    unfold BlendIndex.call add
    dsimp only
    split
    · exact h
    · split
      · split
        · exact filterKept_rebuildTable _
        · refine FilterKept.mark h.size (fun other hOther => ?_) h.counted
          exact (Dict.mem_keys_set.mp hOther).imp_right (h.kept other)
      · rename_i entry hEntry
        refine ⟨h.size, fun other hOther => ?_, h.counted⟩
        rcases Dict.mem_keys_set.mp hOther with rfl | hOld
        · exact h.kept _ (Dict.mem_keys_iff.mpr ⟨entry, hEntry⟩)
        · exact h.kept other hOld
  | remove tokenIds chunkHash =>
    unfold BlendIndex.call remove
    dsimp only
    split
    · exact h
    · split
      · exact h
      · rename_i entry hEntry
        split
        · split
          · exact filterKept_rebuildTable _
          · exact ⟨h.size, fun other hOther => h.kept other (Dict.mem_keys_erase.mp hOther).2,
              h.counted⟩
        · refine ⟨h.size, fun other hOther => ?_, h.counted⟩
          rcases Dict.mem_keys_set.mp hOther with rfl | hOld
          · exact h.kept _ (Dict.mem_keys_iff.mpr ⟨entry, hEntry⟩)
          · exact h.kept other hOld

theorem FilterKept.after {fingerprint : List UInt64 → UInt64} {s : BlendIndex} (h : s.FilterKept)
    (calls : List IndexCall) : (s.after fingerprint calls).FilterKept := by
  induction calls generalizing s with
  | nil => exact h
  | cons c rest ih => exact ih (h.call c)

def probed (s : BlendIndex) (query : List UInt64) : List Nat :=
  (List.range (query.length + 1 - s.chunkSize)).filter fun curSt => s.probeStride ∣ curSt

def occurrences (s : BlendIndex) (query : List UInt64) (tokenIds : List UInt32) : List Nat :=
  (s.probed query).filter fun curSt => (query.drop curSt).take s.chunkSize = asUInt64 tokenIds

/-- The occupants of the content at a position. -/
def offers (s : BlendIndex) (fingerprint : List UInt64 → UInt64) (query : List UInt64)
    (curSt : Nat) : List (Bytes × Nat) :=
  match s.fingerprintTable.get? (fingerprint ((query.drop curSt).take s.chunkSize)) with
  | none => []
  | some entry =>
    if (query.drop curSt).take s.chunkSize = asUInt64 entry.tokenIds then entry.occupants else []

def matchOf (o : Bytes × Nat) (curSt : Nat) : BlendMatch := ⟨o.1, o.2, curSt⟩

theorem probed_ascending (s : BlendIndex) (query : List UInt64) :
    (s.probed query).Pairwise (· < ·) := pairwise_lt_range.filter _

theorem lt_strided_iff {stride : Nat} (h : 1 ≤ stride) (n p : Nat) :
    p < (n + stride - 1) / stride ↔ p * stride < n := by
  rw [Nat.lt_iff_add_one_le, Nat.le_div_iff_mul_le h, Nat.add_one_mul]
  omega

theorem map_mul_range {stride : Nat} (h : 1 ≤ stride) (n : Nat) :
    (List.range ((n + stride - 1) / stride)).map (· * stride) =
      (List.range n).filter fun i => stride ∣ i := by
  refine List.Pairwise.eq_of_mem_iff (r := (· < ·)) ?_ (pairwise_lt_range.filter _) fun i => ?_
  · exact pairwise_lt_range.map _ fun a b hab => (Nat.mul_lt_mul_right h).mpr hab
  · simp only [mem_map, mem_range, mem_filter, decide_eq_true_eq, lt_strided_iff h]
    constructor
    · rintro ⟨p, hp, rfl⟩
      exact ⟨hp, Nat.dvd_mul_left stride p⟩
    · rintro ⟨hi, p, rfl⟩
      exact ⟨p, by rwa [Nat.mul_comm], Nat.mul_comm p stride⟩

theorem strided_eq {α : Type} {stride : Nat} (h : 1 ≤ stride) (l : List α) (d : α) :
    strided stride l =
      (List.range ((l.length + stride - 1) / stride)).map fun p => l.getD (p * stride) d := by
  unfold strided
  rw [← filterMap_eq_map]
  refine filterMap_congr fun p hp => ?_
  have hInside := (lt_strided_iff h _ _).mp (mem_range.mp hp)
  rw [Function.comp_apply, getD_eq_getElem?_getD, getElem?_eq_getElem hInside]
  rfl

variable {fingerprint : List UInt64 → UInt64} {s : BlendIndex} {query : List UInt64}

theorem matchAt_eq {probe : List UInt64} {position : Nat} (h : probe.getD position 0 =
      fingerprint ((query.drop (position * s.probeStride)).take s.chunkSize))
    (found : List BlendMatch × List Bytes) :
    s.matchAt query probe found position =
      assignStep Prod.fst matchOf (s.offers fingerprint query) found
        (position * s.probeStride) := by
  unfold matchAt
  rw [h]
  cases hEntry : s.fingerprintTable.get?
      (fingerprint ((query.drop (position * s.probeStride)).take s.chunkSize)) with
  | none =>
    refine (assignStep_of_none ?_).symm
    unfold offers
    rw [hEntry]
    rfl
  | some entry =>
    dsimp only
    split
    · rename_i hWindow
      refine (assignStep_of_none ?_).symm
      unfold offers
      rw [hEntry]
      dsimp only
      rw [if_neg hWindow]
      rfl
    · rename_i hWindow
      have hOffers : s.offers fingerprint query (position * s.probeStride) = entry.occupants := by
        unfold offers
        rw [hEntry]
        exact if_pos (not_not.mp hWindow)
      split
      · rename_i hNone
        refine (assignStep_of_none ?_).symm
        rw [hOffers]
        exact hNone
      · rename_i chunkHash tokenOffset hSome
        have hFind : (s.offers fingerprint query (position * s.probeStride)).find?
            (fun o => o.1 ∉ found.2) = some (chunkHash, tokenOffset) := by
          rw [hOffers]
          exact hSome
        refine Eq.trans ?_ (assignStep_of_some hFind).symm
        rfl

theorem matchWindows_eq (h : s.FilterKept) :
    s.matchWindows fingerprint query =
      ((s.probed query).foldl (assignStep Prod.fst matchOf (s.offers fingerprint query))
        ([], [])).1 := by
  unfold matchWindows probed
  split
  · rw [show query.length + 1 - s.chunkSize = 0 by omega]
    rfl
  · unfold matchRolling
    rw [strided_eq s.probeStride_pos _ 0, length_map, length_windows,
      ← map_mul_range s.probeStride_pos, foldl_map]
    dsimp only
    rw [length_map, length_range, foldl_filter]
    refine congrArg Prod.fst (foldl_ext _ _ _ fun found position hPosition => ?_)
    have hInside := (lt_strided_iff s.probeStride_pos _ _).mp (mem_range.mp hPosition)
    have hProbe : ((List.range ((query.length + 1 - s.chunkSize + s.probeStride - 1) /
        s.probeStride)).map fun p => ((Lib.windows s.chunkSize query).map fingerprint).getD
          (p * s.probeStride) 0).getD position 0 =
        fingerprint ((query.drop (position * s.probeStride)).take s.chunkSize) := by
      rw [getD_eq_getElem?_getD, getElem?_map,
        getElem?_range (mem_range.mp hPosition), Option.map_some, Option.getD_some,
        getD_eq_getElem?_getD, getElem?_map, getElem?_windows (by omega)]
      rfl
    split
    · exact matchAt_eq hProbe found
    · rename_i hClear
      rw [hProbe] at hClear
      have hAbsent : fingerprint ((query.drop (position * s.probeStride)).take s.chunkSize) ∉
          s.fingerprintTable.keys := fun hMem => hClear (h.kept _ hMem)
      refine (assignStep_of_none ?_).symm
      rw [offers, Dict.get?_eq_none_iff.mpr hAbsent]
      rfl

theorem matches_ascending (h : s.FilterKept) :
    ((s.matchWindows fingerprint query).map BlendMatch.curSt).Pairwise (· < ·) := by
  rw [matchWindows_eq h]
  exact (probed_ascending s query).sublist (positions_sublist (fun _ _ => rfl) _ _)

/-- Every attachment is an occupant of the entry of its content. -/
def Complete (fingerprint : List UInt64 → UInt64) (s : BlendIndex)
    (attached : List Attachment) : Prop :=
  ∀ a ∈ attached, ∃ entry,
    s.fingerprintTable.get? (fingerprint (asUInt64 a.tokenIds)) = some entry ∧
      entry.tokenIds = a.tokenIds ∧ (a.chunkHash, a.tokenOffset) ∈ entry.occupants

variable {attached : List Attachment} {tokenIds : List UInt32}

theorem Complete.add (h : s.Complete fingerprint attached) (hFiled : s.Filed fingerprint attached)
    (hFree : tokenIds.length = s.chunkSize → s.Free fingerprint tokenIds) (chunkHash : Bytes)
    (tokenOffset : Nat) :
    (s.add fingerprint tokenIds chunkHash tokenOffset).Complete fingerprint
      (IndexCall.attach s.chunkSize attached (.add tokenIds chunkHash tokenOffset)) := by
  unfold IndexCall.attach
  dsimp only
  by_cases hLength : tokenIds.length = s.chunkSize
  · have hDistinct : ∀ entry,
        s.fingerprintTable.get? (fingerprint (asUInt64 tokenIds)) = some entry → entry.Distinct :=
      fun entry hEntry => (hFiled.entries _ entry hEntry).2.1
    have hFree := hFree hLength
    rw [if_neg (not_not.mpr hLength)]
    intro a ha
    rw [fingerprintTable_add hLength, Dict.get?_set]
    rcases mem_cons.mp ha with rfl | hOld
    · rw [if_pos rfl]
      exact ⟨_, rfl, tokenIds_enter hFree, (mem_enter hDistinct).mpr (Or.inl rfl)⟩
    · obtain ⟨hMem, hKept⟩ := mem_filter.mp hOld
      obtain ⟨entry, hEntry, hContent, hOccupant⟩ := h a hMem
      split
      · rename_i hPoly
        rw [← hPoly] at hEntry
        have hSame := hFree entry hEntry
        refine ⟨_, rfl, ?_, (mem_enter hDistinct).mpr
          (Or.inr ⟨entry, hEntry, hOccupant, fun hChunk => ?_⟩)⟩
        · rw [tokenIds_enter hFree, ← hSame]
          exact hContent
        · have hChunk : a.chunkHash = chunkHash := hChunk
          simp [Attachment.isOf, hChunk, ← hContent, hSame] at hKept
      · exact ⟨entry, hEntry, hContent, hOccupant⟩
  · unfold BlendIndex.add
    rw [if_pos hLength, if_pos hLength]
    exact h

theorem Complete.remove (h : s.Complete fingerprint attached)
    (hFree : tokenIds.length = s.chunkSize → s.Free fingerprint tokenIds) (chunkHash : Bytes) :
    (s.remove fingerprint tokenIds chunkHash).Complete fingerprint
      (IndexCall.attach s.chunkSize attached (.remove tokenIds chunkHash)) := by
  unfold IndexCall.attach
  dsimp only
  intro a ha
  obtain ⟨hMem, hKept⟩ := mem_filter.mp ha
  obtain ⟨entry, hEntry, hContent, hOccupant⟩ := h a hMem
  by_cases hLength : tokenIds.length = s.chunkSize
  · rw [get?_remove hLength]
    split
    · rename_i hPoly
      have hSame := hFree hLength entry (hPoly ▸ hEntry)
      have hChunk : a.chunkHash ≠ chunkHash := fun hEq => by
        simp [Attachment.isOf, hEq, ← hContent, hSame] at hKept
      rw [hEntry, Option.bind_some]
      cases hDrop : entry.drop chunkHash with
      | none => exact absurd (drop_eq_none hDrop hOccupant) hChunk
      | some kept =>
        obtain ⟨hTokens, hOccupants, -⟩ := drop_eq_some hDrop
        refine ⟨kept, rfl, hTokens.trans hContent, ?_⟩
        rw [hOccupants]
        exact mem_filter.mpr ⟨hOccupant, by simpa using hChunk⟩
    · exact ⟨entry, hEntry, hContent, hOccupant⟩
  · unfold BlendIndex.remove
    rw [if_pos hLength]
    exact ⟨entry, hEntry, hContent, hOccupant⟩

end BlendIndex

/-- Different contents of the calls have different fingerprints. -/
def Separate (fingerprint : List UInt64 → UInt64) (chunkSize : Nat) (calls : List IndexCall) :
    Prop :=
  ∀ c ∈ calls, ∀ c' ∈ calls, c.tokenIds.length = chunkSize → c'.tokenIds.length = chunkSize →
    fingerprint (asUInt64 c.tokenIds) = fingerprint (asUInt64 c'.tokenIds) →
    c.tokenIds = c'.tokenIds

instance (fingerprint : List UInt64 → UInt64) (chunkSize : Nat) (calls : List IndexCall) :
    Decidable (Separate fingerprint chunkSize calls) :=
  inferInstanceAs (Decidable (∀ c ∈ calls, ∀ c' ∈ calls, c.tokenIds.length = chunkSize →
    c'.tokenIds.length = chunkSize →
    fingerprint (asUInt64 c.tokenIds) = fingerprint (asUInt64 c'.tokenIds) →
    c.tokenIds = c'.tokenIds))

def attachmentsOf (attached : List Attachment) (tokenIds : List UInt32) : List Attachment :=
  attached.filter fun a => a.tokenIds = tokenIds

def Attachment.matchedAt (a : Attachment) (curSt : Nat) : BlendMatch :=
  ⟨a.chunkHash, a.tokenOffset, curSt⟩

theorem exists_call_of_attached {calls : List IndexCall} :
    ∀ a ∈ attached k calls, ∃ c ∈ calls, c.tokenIds = a.tokenIds := by
  induction calls using List.reverseRecOn with
  | nil =>
    intro a ha
    cases ha
  | append_singleton before c ih =>
    have hOld : ∀ a ∈ attached k before, ∃ c' ∈ before ++ [c], c'.tokenIds = a.tokenIds :=
      fun a ha => (ih a ha).imp fun c' h => ⟨mem_append_left _ h.1, h.2⟩
    intro a ha
    rw [attached_concat] at ha
    cases c with
    | add tokenIds chunkHash tokenOffset =>
      unfold IndexCall.attach at ha
      dsimp only at ha
      split at ha
      · exact hOld a ha
      · rcases mem_cons.mp ha with rfl | hKept
        · exact ⟨_, mem_append_right _ (mem_singleton_self _), rfl⟩
        · exact hOld a (mem_filter.mp hKept).1
    | remove tokenIds chunkHash => exact hOld a (mem_filter.mp ha).1

theorem nodup_attached (k : Nat) (calls : List IndexCall) :
    ((attached k calls).map fun a => (a.chunkHash, a.tokenIds)).Nodup := by
  induction calls using List.reverseRecOn with
  | nil => exact nodup_nil
  | append_singleton before c ih =>
    rw [attached_concat]
    cases c with
    | add tokenIds chunkHash tokenOffset =>
      unfold IndexCall.attach
      dsimp only
      split
      · exact ih
      · refine nodup_cons.mpr ⟨fun hMem => ?_, ih.sublist (filter_sublist.map _)⟩
        obtain ⟨a, ha, hSame⟩ := mem_map.mp hMem
        obtain ⟨hChunk, hContent⟩ := Prod.mk.inj hSame
        have hKept := (mem_filter.mp ha).2
        simp [Attachment.isOf, hChunk, hContent] at hKept
    | remove tokenIds chunkHash => exact ih.sublist (filter_sublist.map _)

namespace Separate

variable {fingerprint : List UInt64 → UInt64} {s : BlendIndex} {calls : List IndexCall}

theorem filed (hs : s.fingerprintTable = .empty) (h : Separate fingerprint s.chunkSize calls) :
    (s.after fingerprint calls).Filed fingerprint (attached s.chunkSize calls) ∧
      (s.after fingerprint calls).Complete fingerprint (attached s.chunkSize calls) := by
  induction calls using List.reverseRecOn with
  | nil =>
    refine ⟨⟨?_, ?_⟩, fun a ha => by cases ha⟩
    all_goals
      intro poly entry hEntry
      rw [show s.after fingerprint [] = s from rfl, hs, Dict.get?_empty] at hEntry
      cases hEntry
  | append_singleton before c ih =>
    have hBefore := ih fun c hc c' hc' =>
      h c (mem_append_left _ hc) c' (mem_append_left _ hc')
    have hSize : (s.after fingerprint before).chunkSize = s.chunkSize :=
      BlendIndex.chunkSize_after s before
    have hFree : c.tokenIds.length = s.chunkSize →
        (s.after fingerprint before).Free fingerprint c.tokenIds := fun hLength entry hEntry => by
      obtain ⟨hPlaced, -, hSome⟩ := hBefore.1.entries _ entry hEntry
      obtain ⟨o, ho⟩ := exists_mem_of_ne_nil _ hSome
      have hAttached := hBefore.1.attached _ entry hEntry o ho
      obtain ⟨c', hc', hTokens⟩ := exists_call_of_attached _ hAttached
      have hOther := length_of_attached _ hAttached
      dsimp only at hTokens hOther
      rw [← hTokens] at hPlaced hOther ⊢
      exact h c' (mem_append_left _ hc') c
        (mem_append_right _ (mem_singleton_self c)) hOther hLength hPlaced
    rw [attached_concat, BlendIndex.after_concat, ← hSize]
    rw [← hSize] at hBefore hFree
    cases c with
    | add tokenIds chunkHash tokenOffset =>
      exact ⟨hBefore.1.add hFree _ _, hBefore.2.add hBefore.1 hFree _ _⟩
    | remove tokenIds chunkHash =>
      refine ⟨hBefore.1.remove (fun a ha => ?_) _ _, hBefore.2.remove hFree _⟩
      exact length_of_attached a ha

theorem occupants_perm (hs : s.fingerprintTable = .empty)
    (h : Separate fingerprint s.chunkSize calls) {tokenIds : List UInt32}
    (hIndexed : attachmentsOf (attached s.chunkSize calls) tokenIds ≠ []) :
    ∃ entry, (s.after fingerprint calls).fingerprintTable.get?
        (fingerprint (asUInt64 tokenIds)) = some entry ∧
      entry.tokenIds = tokenIds ∧ entry.Distinct ∧
      (entry.occupants.map fun o => (⟨o.1, tokenIds, o.2⟩ : Attachment)).Perm
        (attachmentsOf (attached s.chunkSize calls) tokenIds) := by
  obtain ⟨hFiled, hComplete⟩ := h.filed hs
  obtain ⟨a, ha⟩ := exists_mem_of_ne_nil _ hIndexed
  obtain ⟨hMem, hContent⟩ := mem_filter.mp ha
  have hContent : a.tokenIds = tokenIds := of_decide_eq_true hContent
  obtain ⟨entry, hEntry, hTokens, -⟩ := hComplete a hMem
  rw [hContent] at hEntry hTokens
  obtain ⟨-, hDistinct, -⟩ := hFiled.entries _ entry hEntry
  refine ⟨entry, hEntry, hTokens, hDistinct, ?_⟩
  have hOccupants : (entry.occupants.map fun o => (⟨o.1, tokenIds, o.2⟩ : Attachment)).Nodup := by
    refine List.Nodup.of_map Attachment.chunkHash ?_
    rw [map_map]
    exact hDistinct
  have hAttachments : (attachmentsOf (attached s.chunkSize calls) tokenIds).Nodup :=
    (List.Nodup.of_map _ (nodup_attached s.chunkSize calls)).filter _
  refine (perm_ext_iff_of_nodup hOccupants hAttachments).mpr fun b => ?_
  constructor
  · intro hb
    obtain ⟨o, ho, rfl⟩ := mem_map.mp hb
    refine mem_filter.mpr ⟨?_, decide_eq_true rfl⟩
    rw [← hTokens]
    exact hFiled.attached _ entry hEntry o ho
  · intro hb
    obtain ⟨hAttached, hOf⟩ := mem_filter.mp hb
    have hOf : b.tokenIds = tokenIds := of_decide_eq_true hOf
    obtain ⟨other, hOther, -, hOccupant⟩ := hComplete b hAttached
    rw [hOf, hEntry] at hOther
    obtain rfl := Option.some.inj hOther
    refine mem_map.mpr ⟨_, hOccupant, ?_⟩
    rw [← hOf]

end Separate

namespace BlendIndex

variable {fingerprint : List UInt64 → UInt64} {s : BlendIndex} {query : List UInt64}

theorem attached_of_offered {attached : List Attachment} (h : s.Filed fingerprint attached)
    {curSt : Nat} {o : Bytes × Nat} (ho : o ∈ s.offers fingerprint query curSt) :
    ∃ tokenIds, (query.drop curSt).take s.chunkSize = asUInt64 tokenIds ∧
      ⟨o.1, tokenIds, o.2⟩ ∈ attached := by
  unfold offers at ho
  split at ho
  · cases ho
  · rename_i entry hEntry
    split at ho
    · rename_i hWindow
      exact ⟨entry.tokenIds, hWindow, h.attached _ entry hEntry o ho⟩
    · cases ho

theorem matches_of_content {attached : List Attachment} {tokenIds : List UInt32}
    {entry : FingerprintEntry} (hFilter : s.FilterKept) (hFiled : s.Filed fingerprint attached)
    (hEntry : s.fingerprintTable.get? (fingerprint (asUInt64 tokenIds)) = some entry)
    (hTokens : entry.tokenIds = tokenIds)
    (hApart : ∀ a ∈ attached, ∀ b ∈ attached, a.tokenIds = tokenIds →
      b.chunkHash = a.chunkHash → b.tokenIds ≠ tokenIds → s.occurrences query b.tokenIds = []) :
    (s.matchWindows fingerprint query).filter
        (fun m => (query.drop m.curSt).take s.chunkSize = asUInt64 tokenIds) =
      List.zipWith matchOf entry.occupants (s.occurrences query tokenIds) := by
  have hTaken : Taken Prod.fst matchOf
      (fun curSt => (query.drop curSt).take s.chunkSize = asUInt64 tokenIds)
      (fun m => (query.drop m.curSt).take s.chunkSize = asUInt64 tokenIds) entry.occupants
      (s.probed query)
      ((s.probed query).foldl (assignStep Prod.fst matchOf (s.offers fingerprint query))
        ([], [])) := by
    refine taken_foldl (fun _ _ => rfl) (hFiled.entries _ entry hEntry).2.1
      (fun curSt _ hShows => ?_) fun curSt hProbed hShows o ho hTaken => ?_
    · have hShows : (query.drop curSt).take s.chunkSize = asUInt64 tokenIds :=
        of_decide_eq_true hShows
      unfold offers
      rw [hShows, hEntry]
      exact if_pos (by rw [hTokens])
    · have hShows : (query.drop curSt).take s.chunkSize ≠ asUInt64 tokenIds :=
        of_decide_eq_false hShows
      obtain ⟨other, hWindow, hAttached⟩ := attached_of_offered hFiled ho
      obtain ⟨occupant, hOccupant, hSame⟩ := mem_map.mp hTaken
      have hNone := hApart _ (hFiled.attached _ entry hEntry occupant hOccupant) _ hAttached hTokens
        hSame.symm fun hEq => hShows (hWindow.trans (congrArg asUInt64 hEq))
      have hFound : curSt ∈ s.occurrences query other :=
        mem_filter.mpr ⟨hProbed, decide_eq_true hWindow⟩
      rw [hNone] at hFound
      cases hFound
  rw [matchWindows_eq hFilter]
  exact hTaken.results

/-- The filter loses no fingerprint, and the chunks of a content are found at the first windows
that show it, if none of them is attached to another content of the query. -/
theorem finds_attached (chunkSize probeStride : Nat) (hSize : 1 ≤ chunkSize)
    (hStride : 1 ≤ probeStride) (calls : List IndexCall)
    (h : Separate (polynomialFingerprint chunkSize) chunkSize calls) (query : List UInt64) :
    let s := (new chunkSize probeStride hSize hStride).after (polynomialFingerprint chunkSize) calls
    s.FilterKept ∧ ((s.matchTokens query).map BlendMatch.curSt).Pairwise (· < ·) ∧
      ∀ tokenIds, attachmentsOf (attached chunkSize calls) tokenIds ≠ [] →
        (∀ a ∈ attached chunkSize calls, ∀ b ∈ attached chunkSize calls, a.tokenIds = tokenIds →
          b.chunkHash = a.chunkHash → b.tokenIds ≠ tokenIds →
          s.occurrences query b.tokenIds = []) →
        ∃ chunks : List Attachment,
          chunks.Perm (attachmentsOf (attached chunkSize calls) tokenIds) ∧
          (chunks.map Attachment.chunkHash).Nodup ∧
          (s.matchTokens query).filter
              (fun m => (query.drop m.curSt).take chunkSize = asUInt64 tokenIds) =
            List.zipWith Attachment.matchedAt chunks (s.occurrences query tokenIds) := by
  intro s
  have hFilter : s.FilterKept := (filterKept_new hSize hStride).after calls
  have hLength : s.chunkSize = chunkSize := chunkSize_after _ calls
  rw [matchTokens_eq, hLength]
  refine ⟨hFilter, matches_ascending hFilter, fun tokenIds hIndexed hApart => ?_⟩
  obtain ⟨hFiled, -⟩ := Separate.filed (s := new chunkSize probeStride hSize hStride) rfl h
  obtain ⟨entry, hEntry, hTokens, hDistinct, hPerm⟩ :=
    Separate.occupants_perm (s := new chunkSize probeStride hSize hStride) rfl h hIndexed
  refine ⟨_, hPerm, ?_, ?_⟩
  · rw [List.map_map]
    exact hDistinct
  · have hMatches := matches_of_content hFilter hFiled hEntry hTokens hApart
    rw [hLength] at hMatches
    rw [hMatches, List.zipWith_map_left]
    rfl

theorem finds_attached_sample :
    let calls := [IndexCall.add [7] [1] 0, .add [7] [2] 5, .add [8] [3] 1]
    let s := (new 1 1 (by decide) (by decide)).after (polynomialFingerprint 1) calls
    ∃ chunks : List Attachment, chunks.Perm (attachmentsOf (attached 1 calls) [7]) ∧
      (chunks.map Attachment.chunkHash).Nodup ∧
      (s.matchTokens [7, 8, 7, 7]).filter
          (fun m => (([7, 8, 7, 7] : List UInt64).drop m.curSt).take 1 = asUInt64 [7]) =
        List.zipWith Attachment.matchedAt chunks (s.occurrences [7, 8, 7, 7] [7]) := by
  intro calls s
  have hFound := finds_attached 1 1 (by decide) (by decide) calls (by decide +kernel) [7, 8, 7, 7]
  exact hFound.2.2 [7] (by decide +kernel) (by decide +kernel)

/-- A chunk that is attached to two contents is found at one of them. -/
theorem chunk_of_two_contents_is_found_once :
    let calls := [IndexCall.add [7] [1] 0, .add [8] [1] 5]
    let s := (new 1 1 (by decide) (by decide)).after (polynomialFingerprint 1) calls
    Separate (polynomialFingerprint 1) 1 calls ∧
      attachmentsOf (attached 1 calls) [8] = [⟨[1], [8], 5⟩] ∧ s.occurrences [7, 8] [8] = [1] ∧
      (s.matchTokens [7, 8]).filter
        (fun m => (([7, 8] : List UInt64).drop m.curSt).take 1 = asUInt64 [8]) = [] := by
  intro calls s
  exact ⟨by decide +kernel, by decide +kernel, by decide +kernel, by decide +kernel⟩

end BlendIndex

end LMCache.Coordinator
