import LMCache.Coordinator.BlendIndex

/-!
# What the fingerprint index matches

The calls of the index say which chunks are attached to which contents, and at which offsets.
The table has every attachment under the fingerprint of its content, as long as no call meets
an entry of the same fingerprint and another content: then the chunk is filed under content
that it does not have, and is matched there.
-/

namespace LMCache.Coordinator

open Lib Serde FingerprintEntry List

inductive IndexCall
  | add (tokenIds : List UInt32) (chunkHash : Bytes) (tokenOffset : Nat)
  | remove (tokenIds : List UInt32) (chunkHash : Bytes)

structure Attachment where
  chunkHash : Bytes
  tokenIds : List UInt32
  tokenOffset : Nat
deriving DecidableEq

namespace Attachment

def isOf (tokenIds : List UInt32) (chunkHash : Bytes) (a : Attachment) : Bool :=
  a.chunkHash = chunkHash ∧ a.tokenIds = tokenIds

end Attachment

namespace IndexCall

def tokenIds : IndexCall → List UInt32
  | .add tokenIds _ _ => tokenIds
  | .remove tokenIds _ => tokenIds

/-- What is attached after a call, the newest first. Content of another length is ignored. -/
def attach (chunkSize : Nat) (attached : List Attachment) : IndexCall → List Attachment
  | .add tokenIds chunkHash tokenOffset =>
    if tokenIds.length ≠ chunkSize then attached
    else ⟨chunkHash, tokenIds, tokenOffset⟩ ::
      attached.filter fun a => !a.isOf tokenIds chunkHash
  | .remove tokenIds chunkHash => attached.filter fun a => !a.isOf tokenIds chunkHash

end IndexCall

def attached (chunkSize : Nat) (calls : List IndexCall) : List Attachment :=
  calls.foldl (IndexCall.attach chunkSize) []

/-- The content under which a chunk was most recently added and not removed. -/
def newest (attached : List Attachment) (chunkHash : Bytes) : Option Attachment :=
  attached.find? fun a => a.chunkHash = chunkHash

def FingerprintEntry.enter (old : Option FingerprintEntry) (tokenIds : List UInt32)
    (chunkHash : Bytes) (tokenOffset : Nat) : FingerprintEntry :=
  match old with
  | none => ⟨tokenIds, [(chunkHash, tokenOffset)]⟩
  | some entry => { entry with
      occupants := upsert (fun o => o.1 = chunkHash) (chunkHash, tokenOffset) entry.occupants }

def FingerprintEntry.drop (chunkHash : Bytes) (entry : FingerprintEntry) :
    Option FingerprintEntry :=
  let occupants := entry.occupants.filter fun o => o.1 ≠ chunkHash
  if occupants.isEmpty then none else some { entry with occupants }

namespace FingerprintEntry

variable {old : Option FingerprintEntry} {entry kept : FingerprintEntry} {tokenIds : List UInt32}
  {chunkHash : Bytes} {tokenOffset : Nat}

def Distinct (entry : FingerprintEntry) : Prop := (entry.occupants.map Prod.fst).Nodup

theorem tokenIds_enter (h : ∀ entry, old = some entry → entry.tokenIds = tokenIds) :
    (enter old tokenIds chunkHash tokenOffset).tokenIds = tokenIds := by
  cases old with
  | none => rfl
  | some entry => exact h entry rfl

variable {o : Bytes × Nat}

theorem mem_enter (h : ∀ entry, old = some entry → entry.Distinct) :
    o ∈ (enter old tokenIds chunkHash tokenOffset).occupants ↔
      o = (chunkHash, tokenOffset) ∨
        ∃ entry, old = some entry ∧ o ∈ entry.occupants ∧ o.1 ≠ chunkHash := by
  cases old with
  | none => simp [enter]
  | some entry =>
    have hMem := mem_upsert_iff (h entry rfl) (a := (chunkHash, tokenOffset)) (b := o)
      (i := chunkHash) rfl
    refine hMem.trans ?_
    simp

theorem enter_distinct (h : ∀ entry, old = some entry → entry.Distinct) :
    (enter old tokenIds chunkHash tokenOffset).Distinct := by
  cases old with
  | none => exact nodup_singleton _
  | some entry =>
    have hNodup := nodup_upsert (a := (chunkHash, tokenOffset)) (i := chunkHash) rfl (h entry rfl)
    exact hNodup

theorem drop_eq_some (h : entry.drop chunkHash = some kept) :
    kept.tokenIds = entry.tokenIds ∧
      kept.occupants = entry.occupants.filter (fun o => o.1 ≠ chunkHash) ∧ kept.occupants ≠ [] := by
  unfold drop at h
  dsimp only at h
  split at h
  · cases h
  · rename_i hSome
    cases h
    exact ⟨rfl, rfl, by simpa using hSome⟩

theorem drop_eq_none (h : entry.drop chunkHash = none) (ho : o ∈ entry.occupants) :
    o.1 = chunkHash := by
  unfold drop at h
  dsimp only at h
  split at h
  · rename_i hEmpty
    by_contra hNe
    have hMem : o ∈ entry.occupants.filter fun o => o.1 ≠ chunkHash :=
      mem_filter.mpr ⟨ho, by simpa using hNe⟩
    rw [List.isEmpty_iff.mp hEmpty] at hMem
    cases hMem
  · cases h

end FingerprintEntry

namespace BlendIndex

variable (fingerprint : List UInt64 → UInt64)

def call (s : BlendIndex) : IndexCall → BlendIndex
  | .add tokenIds chunkHash tokenOffset => s.add fingerprint tokenIds chunkHash tokenOffset
  | .remove tokenIds chunkHash => s.remove fingerprint tokenIds chunkHash

def after (s : BlendIndex) (calls : List IndexCall) : BlendIndex :=
  calls.foldl (call fingerprint) s

/-- The entry that holds the fingerprint of the content, if any, has that content. -/
def Free (s : BlendIndex) (tokenIds : List UInt32) : Prop :=
  ∀ entry, s.fingerprintTable.get? (fingerprint (asUInt64 tokenIds)) = some entry →
    entry.tokenIds = tokenIds

instance (s : BlendIndex) (tokenIds : List UInt32) : Decidable (s.Free fingerprint tokenIds) :=
  inferInstanceAs (Decidable (∀ entry ∈
    s.fingerprintTable.get? (fingerprint (asUInt64 tokenIds)), entry.tokenIds = tokenIds))

variable {fingerprint} {s : BlendIndex} {tokenIds : List UInt32} {chunkHash : Bytes}
  {tokenOffset : Nat}

@[simp] theorem chunkSize_rebuildTable (s : BlendIndex) : s.rebuildTable.chunkSize = s.chunkSize :=
  rfl

@[simp] theorem fingerprintTable_rebuildTable (s : BlendIndex) :
    s.rebuildTable.fingerprintTable = s.fingerprintTable := rfl

@[simp] theorem chunkSize_mark (s : BlendIndex) (poly : UInt64) :
    (s.mark poly).chunkSize = s.chunkSize := by
  unfold mark
  dsimp only
  split <;> rfl

@[simp] theorem fingerprintTable_mark (s : BlendIndex) (poly : UInt64) :
    (s.mark poly).fingerprintTable = s.fingerprintTable := by
  unfold mark
  dsimp only
  split <;> rfl

theorem fingerprintTable_add (h : tokenIds.length = s.chunkSize) :
    (s.add fingerprint tokenIds chunkHash tokenOffset).fingerprintTable =
      s.fingerprintTable.set (fingerprint (asUInt64 tokenIds))
        (.enter (s.fingerprintTable.get? (fingerprint (asUInt64 tokenIds))) tokenIds chunkHash
          tokenOffset) := by
  unfold add
  rw [if_neg (not_not.mpr h)]
  dsimp only
  cases s.fingerprintTable.get? (fingerprint (asUInt64 tokenIds)) with
  | none =>
    dsimp only
    split
    · rw [fingerprintTable_rebuildTable, fingerprintTable_mark]
      rfl
    · rw [fingerprintTable_mark]
      rfl
  | some entry => rfl

theorem get?_remove (h : tokenIds.length = s.chunkSize) (poly : UInt64) :
    (s.remove fingerprint tokenIds chunkHash).fingerprintTable.get? poly =
      if fingerprint (asUInt64 tokenIds) = poly then
        (s.fingerprintTable.get? poly).bind (FingerprintEntry.drop chunkHash)
      else s.fingerprintTable.get? poly := by
  unfold remove
  rw [if_neg (not_not.mpr h)]
  dsimp only
  cases hEntry : s.fingerprintTable.get? (fingerprint (asUInt64 tokenIds)) with
  | none =>
    dsimp only
    split
    · rename_i hPoly
      rw [← hPoly, hEntry]
      rfl
    · rfl
  | some entry =>
    have hDrop : ∀ table : Dict UInt64 FingerprintEntry,
        (∀ poly, table.get? poly = if fingerprint (asUInt64 tokenIds) = poly then
          entry.drop chunkHash else s.fingerprintTable.get? poly) →
        table.get? poly = if fingerprint (asUInt64 tokenIds) = poly then
          (s.fingerprintTable.get? poly).bind (FingerprintEntry.drop chunkHash)
        else s.fingerprintTable.get? poly := by
      intro table hTable
      rw [hTable]
      split
      · rename_i hPoly
        rw [← hPoly, hEntry]
        rfl
      · rfl
    refine hDrop _ fun poly => ?_
    unfold FingerprintEntry.drop
    dsimp only
    split
    · split
      · exact s.fingerprintTable.get?_erase _ poly
      · exact s.fingerprintTable.get?_erase _ poly
    · exact s.fingerprintTable.get?_set _ poly _

@[simp] theorem chunkSize_call (s : BlendIndex) (c : IndexCall) :
    (s.call fingerprint c).chunkSize = s.chunkSize := by
  cases c with
  | add tokenIds chunkHash tokenOffset =>
    unfold call add
    dsimp only
    split
    · rfl
    · split
      · split <;> simp
      · rfl
  | remove tokenIds chunkHash =>
    unfold call remove
    dsimp only
    split
    · rfl
    · split
      · rfl
      · split
        · split <;> rfl
        · rfl

/-- An entry is filed under the fingerprint of its content, and its occupants are attached to
that content. -/
structure Filed (fingerprint : List UInt64 → UInt64) (s : BlendIndex)
    (attached : List Attachment) : Prop where
  entries : ∀ poly entry, s.fingerprintTable.get? poly = some entry →
    fingerprint (asUInt64 entry.tokenIds) = poly ∧ entry.Distinct ∧ entry.occupants ≠ []
  attached : ∀ poly entry, s.fingerprintTable.get? poly = some entry →
    ∀ o ∈ entry.occupants, ⟨o.1, entry.tokenIds, o.2⟩ ∈ attached

variable {attached : List Attachment}

theorem Filed.add (h : s.Filed fingerprint attached)
    (hFree : tokenIds.length = s.chunkSize → s.Free fingerprint tokenIds) (chunkHash : Bytes)
    (tokenOffset : Nat) :
    (s.add fingerprint tokenIds chunkHash tokenOffset).Filed fingerprint
      (IndexCall.attach s.chunkSize attached (.add tokenIds chunkHash tokenOffset)) := by
  unfold IndexCall.attach
  dsimp only
  by_cases hLength : tokenIds.length = s.chunkSize
  · have hDistinct : ∀ entry,
        s.fingerprintTable.get? (fingerprint (asUInt64 tokenIds)) = some entry → entry.Distinct :=
      fun entry hEntry => (h.entries _ entry hEntry).2.1
    have hFree := hFree hLength
    rw [if_neg (not_not.mpr hLength)]
    constructor
    · intro poly entry hEntry
      rw [fingerprintTable_add hLength] at hEntry
      obtain ⟨hPoly, rfl⟩ | ⟨-, hEntry⟩ := Dict.get?_set_cases hEntry
      · refine ⟨?_, enter_distinct hDistinct, ?_⟩
        · rw [tokenIds_enter hFree]
          exact hPoly
        · exact ne_nil_of_mem ((mem_enter hDistinct).mpr (Or.inl rfl))
      · exact h.entries poly entry hEntry
    · intro poly entry hEntry o ho
      rw [fingerprintTable_add hLength] at hEntry
      obtain ⟨-, rfl⟩ | ⟨hPoly, hSame⟩ := Dict.get?_set_cases hEntry
      · rw [tokenIds_enter hFree]
        rcases (mem_enter hDistinct).mp ho with rfl | ⟨old, hOld, hMem, hNe⟩
        · exact mem_cons_self
        · refine mem_cons_of_mem _ (mem_filter.mpr ⟨?_, ?_⟩)
          · rw [← hFree old hOld]
            exact h.attached _ old hOld o hMem
          · simp [Attachment.isOf, hNe]
      · refine mem_cons_of_mem _ (mem_filter.mpr ⟨h.attached poly entry hSame o ho, ?_⟩)
        have hContent : entry.tokenIds ≠ tokenIds := by
          rintro rfl
          exact hPoly (h.entries poly entry hSame).1
        simp [Attachment.isOf, hContent]
  · unfold BlendIndex.add
    rw [if_pos hLength, if_pos hLength]
    exact h

theorem Filed.remove (h : s.Filed fingerprint attached)
    (hAll : ∀ a ∈ attached, a.tokenIds.length = s.chunkSize) (tokenIds : List UInt32)
    (chunkHash : Bytes) :
    (s.remove fingerprint tokenIds chunkHash).Filed fingerprint
      (IndexCall.attach s.chunkSize attached (.remove tokenIds chunkHash)) := by
  unfold IndexCall.attach
  dsimp only
  by_cases hLength : tokenIds.length = s.chunkSize
  · have hKept : ∀ poly entry,
        (s.remove fingerprint tokenIds chunkHash).fingerprintTable.get? poly = some entry →
        (fingerprint (asUInt64 tokenIds) = poly ∧
          ∃ old, s.fingerprintTable.get? poly = some old ∧ old.drop chunkHash = some entry) ∨
        (fingerprint (asUInt64 tokenIds) ≠ poly ∧ s.fingerprintTable.get? poly = some entry) := by
      intro poly entry hEntry
      rw [get?_remove hLength] at hEntry
      split at hEntry
      · exact Or.inl ⟨‹_›, Option.bind_eq_some_iff.mp hEntry⟩
      · exact Or.inr ⟨‹_›, hEntry⟩
    constructor
    · intro poly entry hEntry
      rcases hKept poly entry hEntry with ⟨-, old, hOld, hDrop⟩ | ⟨-, hSame⟩
      · obtain ⟨hContent, hOccupants, hSome⟩ := drop_eq_some hDrop
        obtain ⟨hPlaced, hDistinct, -⟩ := h.entries poly old hOld
        refine ⟨hContent ▸ hPlaced, ?_, hSome⟩
        unfold FingerprintEntry.Distinct
        rw [hOccupants]
        exact hDistinct.sublist (filter_sublist.map _)
      · exact h.entries poly entry hSame
    · intro poly entry hEntry o ho
      rcases hKept poly entry hEntry with ⟨-, old, hOld, hDrop⟩ | ⟨hPoly, hSame⟩
      · obtain ⟨hContent, hOccupants, -⟩ := drop_eq_some hDrop
        rw [hOccupants] at ho
        obtain ⟨hMem, hNe⟩ := mem_filter.mp ho
        rw [hContent]
        refine mem_filter.mpr ⟨h.attached poly old hOld o hMem, ?_⟩
        simp only [decide_eq_true_eq] at hNe
        simp [Attachment.isOf, hNe]
      · refine mem_filter.mpr ⟨h.attached poly entry hSame o ho, ?_⟩
        have hContent : entry.tokenIds ≠ tokenIds := by
          rintro rfl
          exact hPoly (h.entries poly entry hSame).1
        simp [Attachment.isOf, hContent]
  · -- no attached content has that length
    have hSame : attached.filter (fun a => !a.isOf tokenIds chunkHash) = attached := by
      refine filter_eq_self.mpr fun a ha => ?_
      have hContent : a.tokenIds ≠ tokenIds := by
        rintro rfl
        exact hLength (hAll a ha)
      simp [Attachment.isOf, hContent]
    unfold BlendIndex.remove
    rw [if_pos hLength, hSame]
    exact h

/-- The match is an occupant of an entry with the content of its window. -/
def Matched (s : BlendIndex) (query : List UInt64) (m : BlendMatch) : Prop :=
  ∃ poly entry, s.fingerprintTable.get? poly = some entry ∧
    (query.drop m.curSt).take s.chunkSize = asUInt64 entry.tokenIds ∧
    (m.chunkHash, m.oldSt) ∈ entry.occupants

variable {query probe : List UInt64} {m : BlendMatch} {found : List BlendMatch × List Bytes}

theorem matched_matchAt (position : Nat) (h : ∀ m ∈ found.1, s.Matched query m)
    (hm : m ∈ (s.matchAt query probe found position).1) : s.Matched query m := by
  unfold matchAt at hm
  split at hm
  · exact h m hm
  · rename_i entry hEntry
    dsimp only at hm
    split at hm
    · exact h m hm
    · rename_i hWindow
      split at hm
      · exact h m hm
      · rename_i chunkHash tokenOffset hFind
        rcases mem_append.mp hm with hOld | hNew
        · exact h m hOld
        · rw [mem_singleton.mp hNew]
          exact ⟨_, entry, hEntry, not_not.mp hWindow, mem_of_find?_eq_some hFind⟩

theorem matched_foldl (positions : List Nat) (h : ∀ m ∈ found.1, s.Matched query m)
    (hm : m ∈ (positions.foldl (s.matchAt query probe) found).1) : s.Matched query m := by
  induction positions generalizing found with
  | nil => exact h m hm
  | cons position rest ih => exact ih (fun m => matched_matchAt position h) hm

theorem matched_matchWindows (hm : m ∈ s.matchWindows fingerprint query) : s.Matched query m := by
  unfold matchWindows at hm
  split at hm
  · cases hm
  · exact matched_foldl _ (fun _ h => absurd h not_mem_nil) hm

theorem chunkSize_after (s : BlendIndex) (calls : List IndexCall) :
    (s.after fingerprint calls).chunkSize = s.chunkSize := by
  induction calls generalizing s with
  | nil => rfl
  | cons c rest ih => exact (ih _).trans (chunkSize_call s c)

theorem after_concat (s : BlendIndex) (calls : List IndexCall) (c : IndexCall) :
    s.after fingerprint (calls ++ [c]) = (s.after fingerprint calls).call fingerprint c := by
  unfold after
  rw [foldl_concat]

end BlendIndex

theorem attached_concat (k : Nat) (calls : List IndexCall) (c : IndexCall) :
    attached k (calls ++ [c]) = c.attach k (attached k calls) := by
  unfold attached
  rw [foldl_concat]

theorem length_of_attached {k : Nat} {calls : List IndexCall} :
    ∀ a ∈ attached k calls, a.tokenIds.length = k := by
  induction calls using List.reverseRecOn with
  | nil =>
    intro a ha
    cases ha
  | append_singleton before c ih =>
    intro a ha
    rw [attached_concat] at ha
    cases c with
    | add tokenIds chunkHash tokenOffset =>
      unfold IndexCall.attach at ha
      dsimp only at ha
      split at ha
      · exact ih a ha
      · rename_i hLength
        rcases mem_cons.mp ha with rfl | hOld
        · exact not_not.mp hLength
        · exact ih a (mem_filter.mp hOld).1
    | remove tokenIds chunkHash => exact ih a (mem_filter.mp ha).1

/-- The calls add a chunk under content of a chunk's length only while the fingerprint of the
content is not that of another content in the table, and while the chunk is not attached to
another content. -/
def Apart (fingerprint : List UInt64 → UInt64) (s : BlendIndex) (calls : List IndexCall) : Prop :=
  ∀ before tokenIds chunkHash tokenOffset,
    before ++ [.add tokenIds chunkHash tokenOffset] <+: calls → tokenIds.length = s.chunkSize →
    (s.after fingerprint before).Free fingerprint tokenIds ∧
      ∀ a ∈ attached s.chunkSize before, a.chunkHash = chunkHash → a.tokenIds = tokenIds

namespace Apart

variable {fingerprint : List UInt64 → UInt64} {s : BlendIndex} {calls before : List IndexCall}

theorem earlier (h : Apart fingerprint s calls) (hPrefix : before <+: calls) :
    Apart fingerprint s before :=
  fun _ tokenIds chunkHash tokenOffset hAdd =>
    h _ tokenIds chunkHash tokenOffset (hAdd.trans hPrefix)

theorem nil (fingerprint : List UInt64 → UInt64) (s : BlendIndex) : Apart fingerprint s [] := by
  intro before tokenIds chunkHash tokenOffset hAdd
  exact absurd (prefix_nil.mp hAdd) (append_ne_nil_of_right_ne_nil _ (cons_ne_nil _ _))

theorem remove (h : Apart fingerprint s calls) (tokenIds : List UInt32) (chunkHash : Bytes) :
    Apart fingerprint s (calls ++ [.remove tokenIds chunkHash]) := by
  intro before tokenIds' chunkHash' tokenOffset' hAdd hLength
  rcases prefix_concat_iff.mp hAdd with hEq | hEarlier
  · cases (append_inj' hEq rfl).2
  · exact h before tokenIds' chunkHash' tokenOffset' hEarlier hLength

theorem add (h : Apart fingerprint s calls) (tokenIds : List UInt32) (chunkHash : Bytes)
    (tokenOffset : Nat) (hFree : (s.after fingerprint calls).Free fingerprint tokenIds)
    (hOwn : ∀ a ∈ attached s.chunkSize calls, a.chunkHash = chunkHash → a.tokenIds = tokenIds) :
    Apart fingerprint s (calls ++ [.add tokenIds chunkHash tokenOffset]) := by
  intro before tokenIds' chunkHash' tokenOffset' hAdd hLength
  rcases prefix_concat_iff.mp hAdd with hEq | hEarlier
  · obtain ⟨rfl, hLast⟩ := append_inj' hEq rfl
    cases hLast
    exact ⟨hFree, hOwn⟩
  · exact h before tokenIds' chunkHash' tokenOffset' hEarlier hLength

theorem nodup (h : Apart fingerprint s calls) :
    ((attached s.chunkSize calls).map Attachment.chunkHash).Nodup := by
  induction calls using List.reverseRecOn with
  | nil => exact nodup_nil
  | append_singleton before c ih =>
    have hBefore := ih (h.earlier (prefix_append _ _))
    rw [attached_concat]
    cases c with
    | add tokenIds chunkHash tokenOffset =>
      unfold IndexCall.attach
      dsimp only
      split
      · exact hBefore
      · rename_i hLength
        refine nodup_cons.mpr ⟨fun hMem => ?_, hBefore.sublist (filter_sublist.map _)⟩
        obtain ⟨a, ha, hSame⟩ := mem_map.mp hMem
        obtain ⟨hOld, hKept⟩ := mem_filter.mp ha
        have hContent := (h before tokenIds chunkHash tokenOffset prefix_rfl
          (not_not.mp hLength)).2 a hOld hSame
        simp [Attachment.isOf, hSame, hContent] at hKept
    | remove tokenIds chunkHash => exact hBefore.sublist (filter_sublist.map _)

theorem filed (hs : s.fingerprintTable = .empty) (h : Apart fingerprint s calls) :
    (s.after fingerprint calls).Filed fingerprint (attached s.chunkSize calls) := by
  induction calls using List.reverseRecOn with
  | nil =>
    constructor
    all_goals
      intro poly entry hEntry
      rw [show s.after fingerprint [] = s from rfl, hs, Dict.get?_empty] at hEntry
      cases hEntry
  | append_singleton before c ih =>
    have hBefore := ih (h.earlier (prefix_append _ _))
    have hSize : (s.after fingerprint before).chunkSize = s.chunkSize :=
      BlendIndex.chunkSize_after s before
    rw [attached_concat, BlendIndex.after_concat, ← hSize]
    rw [← hSize] at hBefore
    cases c with
    | add tokenIds chunkHash tokenOffset =>
      refine hBefore.add (fun hLength => ?_) _ _
      exact (h before tokenIds chunkHash tokenOffset prefix_rfl (hLength.trans hSize)).1
    | remove tokenIds chunkHash =>
      refine hBefore.remove (fun a ha => ?_) _ _
      exact length_of_attached a ha

end Apart

namespace BlendIndex

variable {fingerprint : List UInt64 → UInt64}

/-- While the calls keep contents and chunks apart, a match shows the content and the offset of
the newest addition of its chunk. -/
theorem matches_newest (chunkSize probeStride : Nat) (hSize : 1 ≤ chunkSize)
    (hStride : 1 ≤ probeStride) (calls : List IndexCall)
    (h : Apart fingerprint (new chunkSize probeStride hSize hStride) calls) (query : List UInt64)
    (m : BlendMatch)
    (hm : m ∈ ((new chunkSize probeStride hSize hStride).after fingerprint calls).matchWindows
      fingerprint query) :
    ∃ a, newest (attached chunkSize calls) m.chunkHash = some a ∧
      (query.drop m.curSt).take chunkSize = asUInt64 a.tokenIds ∧ m.oldSt = a.tokenOffset := by
  obtain ⟨poly, entry, hEntry, hWindow, hOccupant⟩ := matched_matchWindows hm
  rw [chunkSize_after] at hWindow
  refine ⟨⟨m.chunkHash, entry.tokenIds, m.oldSt⟩, ?_, hWindow, rfl⟩
  have hAttached := (h.filed rfl).attached poly entry hEntry _ hOccupant
  exact (find?_eq_some_iff_mem h.nodup).mpr ⟨hAttached, rfl⟩

/-- Two chunks, the first of which was removed and added again under other content. -/
def movedCalls : List IndexCall :=
  [.add [7, 8] [1] 4, .add [9, 10] [2] 6, .remove [7, 8] [1], .add [11, 12] [1] 0]

theorem apart_movedCalls :
    Apart (polynomialFingerprint 2) (new 2 1 (by decide) (by decide)) movedCalls := by
  have hAdded := (Apart.nil (polynomialFingerprint 2) (new 2 1 (by decide) (by decide))).add
    [7, 8] [1] 4 nofun nofun
  have hBoth := hAdded.add [9, 10] [2] 6 (by decide +kernel) (by decide)
  exact (hBoth.remove [7, 8] [1]).add [11, 12] [1] 0 (by decide +kernel) (by decide)

theorem matches_newest_sample :
    ∃ a, newest (attached 2 movedCalls) [1] = some a ∧
      (([5, 9, 10, 11, 12] : List UInt64).drop 3).take 2 = asUInt64 a.tokenIds ∧
      0 = a.tokenOffset :=
  matches_newest 2 1 (by decide) (by decide) movedCalls apart_movedCalls [5, 9, 10, 11, 12]
    ⟨[1], 0, 3⟩ (by decide +kernel)

/-- Two contents of four tokens with one polynomial fingerprint: the second chunk is filed under
the content of the first. -/
theorem colliding_chunk_is_matched :
    let calls := [IndexCall.add [0, 0, 0, 5534] [1] 0, .add [9525, 45872, 56681, 0] [2] 4]
    ∃ m ∈ ((new 4 1 (by decide) (by decide)).after (polynomialFingerprint 4) calls).matchTokens
      [0, 0, 0, 5534, 0, 0, 0, 5534],
    ∀ a, newest (attached 4 calls) m.chunkHash = some a →
      (([0, 0, 0, 5534, 0, 0, 0, 5534] : List UInt64).drop m.curSt).take 4 ≠
        asUInt64 a.tokenIds := by
  refine ⟨⟨[2], 4, 4⟩, by decide +kernel, fun a ha => ?_⟩
  obtain rfl := Option.some.inj ha
  decide

end BlendIndex

end LMCache.Coordinator
