import LMCache.Prefetch.NativeQueries
import LMCache.Lib.Run
import Mathlib.Order.Interval.Finset.Nat

/-!
# The sets that native bitmaps stand for

A bitmap denotes a finite set of indices below its size. The constructors and operations
have their set counterparts, where the binary operators truncate to the smaller size. A
bitmap agrees with its set when its padding is clear and every query answers for the set.

All operations keep the agreement but one: `|` of bitmaps of different sizes copies the bits
of the larger one that fall into the padding of the result.
-/

namespace LMCache

open Lib List

structure IndexSet where
  size : Nat
  members : Finset Nat
  below : ∀ i ∈ members, i < size

namespace IndexSet

def empty (size : Nat) : IndexSet := ⟨size, ∅, by simp⟩

def initial (size count : Nat) : IndexSet :=
  ⟨size, Finset.range (min count size), fun _ hi =>
    lt_of_lt_of_le (Finset.mem_range.mp hi) (Nat.min_le_right _ _)⟩

/-- Members are added; those past the size are dropped. -/
def extend (d : IndexSet) (added : Finset Nat) : IndexSet :=
  ⟨d.size, (d.members ∪ added).filter (· < d.size), fun _ hi => (Finset.mem_filter.mp hi).2⟩

def erase (d : IndexSet) (index : Nat) : IndexSet :=
  ⟨d.size, d.members.erase index, fun i hi => d.below i (Finset.mem_of_mem_erase hi)⟩

def inter (a b : IndexSet) : IndexSet :=
  ⟨min a.size b.size, a.members ∩ b.members, fun i hi =>
    lt_min (a.below i (Finset.mem_of_mem_inter_left hi))
      (b.below i (Finset.mem_of_mem_inter_right hi))⟩

def union (a b : IndexSet) : IndexSet :=
  ⟨min a.size b.size, (a.members ∪ b.members).filter (· < min a.size b.size), fun _ hi =>
    (Finset.mem_filter.mp hi).2⟩

def compl (d : IndexSet) : IndexSet :=
  ⟨d.size, Finset.range d.size \ d.members, fun _ hi =>
    Finset.mem_range.mp (Finset.mem_sdiff.mp hi).1⟩

end IndexSet

namespace NativeBitmap

/-- Every bit of the byte vector, padding included, is membership in the set. -/
structure Denotes (b : NativeBitmap) (d : IndexSet) : Prop where
  size : b.size = d.size
  bit : ∀ i, b.bit i = decide (i ∈ d.members)

/-- The padding is clear, and every query answers for the set. -/
structure Agrees (b : NativeBitmap) (d : IndexSet) : Prop where
  size : b.size = d.size
  padding : ∀ i, b.size ≤ i → b.bit i = false
  test : ∀ i, b.test i = decide (i ∈ d.members)
  popcount : b.popcount = d.members.card
  clz : IsLeast (insert d.size (d.members : Set Nat)) b.clz
  clo : IsLeast {i | i ∉ d.members} b.clo
  highestSetBit : d.members = ∅ ∧ b.highestSetBit = -1 ∨
    ∃ m : Nat, IsGreatest (d.members : Set Nat) m ∧ b.highestSetBit = m
  getIndices : b.getIndices = d.members.sort (· ≤ ·)

variable {a b : NativeBitmap} {d e : IndexSet}

theorem Agrees.denotes (h : b.Agrees d) : b.Denotes d where
  size := h.size
  bit i := by
    have hTest := h.test i
    rw [test_eq] at hTest
    by_cases hi : i < b.size
    · simpa [hi] using hTest
    · rw [h.padding i (Nat.not_lt.mp hi), ← hTest, decide_eq_false hi, Bool.false_and]

theorem Denotes.lt_size (h : b.Denotes d) {i : Nat} (hi : b.bit i = true) : i < b.size := by
  rw [h.bit i, decide_eq_true_eq] at hi
  exact h.size ▸ d.below i hi

theorem Denotes.popcount (h : b.Denotes d) : b.popcount = d.members.card := by
  rw [popcount_eq, Nat.count_eq_card_filter_range]
  congr 1
  ext i
  simp only [Finset.mem_filter, Finset.mem_range, h.bit i, decide_eq_true_eq, and_iff_right_iff_imp]
  exact fun hi => h.size ▸ d.below i hi

theorem Denotes.clz (h : b.Denotes d) : IsLeast (insert d.size (d.members : Set Nat)) b.clz := by
  obtain ⟨hLe, hBelow, hAt⟩ := b.clz_spec
  rw [h.size] at hLe hAt
  constructor
  · rcases Nat.lt_or_eq_of_le hLe with hLt | hEq
    · have hBit := hAt hLt
      rw [h.bit, decide_eq_true_eq] at hBit
      exact Or.inr hBit
    · exact Or.inl hEq
  · rintro i (rfl | hi)
    · exact hLe
    · by_contra hLt
      have hBit := hBelow i (Nat.not_le.mp hLt)
      rw [h.bit, decide_eq_false_iff_not] at hBit
      exact hBit hi

theorem Denotes.clo (h : b.Denotes d) : IsLeast {i | i ∉ d.members} b.clo := by
  obtain ⟨hLe, hBelow, hAt⟩ := b.clo_spec
  constructor
  · intro hMem
    rcases Nat.lt_or_eq_of_le hLe with hLt | hEq
    · have hBit := hAt hLt
      rw [h.bit, decide_eq_false_iff_not] at hBit
      exact hBit hMem
    · have hLt := d.below _ hMem
      rw [← h.size, hEq] at hLt
      exact absurd hLt (lt_irrefl _)
  · intro i hi
    by_contra hLt
    have hBit := hBelow i (Nat.not_le.mp hLt)
    rw [h.bit, decide_eq_true_eq] at hBit
    exact hi hBit

theorem Denotes.highestSetBit (h : b.Denotes d) :
    d.members = ∅ ∧ b.highestSetBit = -1 ∨
      ∃ m : Nat, IsGreatest (d.members : Set Nat) m ∧ b.highestSetBit = m := by
  rcases b.highestSetBit_spec with ⟨hNone, hAll⟩ | ⟨m, hSome, hSet, hAbove⟩
  · refine Or.inl ⟨Finset.eq_empty_of_forall_notMem fun i hi => ?_, hNone⟩
    have hBit := hAll i
    rw [h.bit, decide_eq_false_iff_not] at hBit
    exact hBit hi
  · rw [h.bit, decide_eq_true_eq] at hSet
    refine Or.inr ⟨m, ⟨hSet, fun i hi => ?_⟩, hSome⟩
    by_contra hLt
    have hBit := hAbove i (Nat.not_le.mp hLt)
    rw [h.bit, decide_eq_false_iff_not] at hBit
    exact hBit hi

theorem Denotes.getIndices (h : b.Denotes d) : b.getIndices = d.members.sort (· ≤ ·) := by
  rw [getIndices_eq]
  have hSorted : ((List.range b.size).filter b.bit).Pairwise (· ≤ ·) :=
    (pairwise_lt_range.imp Nat.le_of_lt).sublist filter_sublist
  refine List.Perm.eq_of_pairwise (fun _ _ _ _ => Nat.le_antisymm) hSorted
    (Finset.pairwise_sort _ _) ?_
  refine perm_of_nodup_nodup_toFinset_eq (nodup_range.filter _) (Finset.sort_nodup _ _) ?_
  ext i
  simp only [mem_toFinset, mem_filter, mem_range, Finset.mem_sort, h.bit,
    decide_eq_true_eq, and_iff_right_iff_imp]
  exact fun hi => h.size ▸ d.below i hi

theorem Denotes.agrees (h : b.Denotes d) : b.Agrees d where
  size := h.size
  padding i hi := by
    by_contra hSet
    exact absurd (h.lt_size (Bool.not_eq_false _ ▸ hSet)) (Nat.not_lt.mpr hi)
  test i := by
    rw [test_eq, h.bit, ← Bool.decide_and]
    exact decide_eq_decide.mpr ⟨And.right, fun hi => ⟨h.size ▸ d.below i hi, hi⟩⟩
  popcount := h.popcount
  clz := h.clz
  clo := h.clo
  highestSetBit := h.highestSetBit
  getIndices := h.getIndices

/-- A bitmap agrees with a set exactly when its bytes are the set. -/
theorem agrees_iff_denotes : b.Agrees d ↔ b.Denotes d := ⟨Agrees.denotes, Denotes.agrees⟩

theorem denotes_zeros (size : Nat) : (zeros size).Denotes (.empty size) :=
  ⟨rfl, fun i => by simp [IndexSet.empty]⟩

theorem denotes_leading (size prefixBits : Nat) :
    (leading size prefixBits).Denotes (.initial size prefixBits) :=
  ⟨size_leading _ _, fun i => by simp only [bit_leading, IndexSet.initial, Finset.mem_range]⟩

theorem Denotes.set (h : b.Denotes d) (index : Nat) : (b.set index).Denotes (d.extend {index}) where
  size := (size_set ..).trans h.size
  bit i := by
    rw [bit_set, h.bit, h.size]
    simp only [IndexSet.extend, ← Bool.decide_and, ← Bool.decide_or, Finset.mem_filter,
      Finset.mem_union, Finset.mem_singleton]
    have := d.below i
    exact decide_eq_decide.mpr (by tauto)

theorem Denotes.setRange (h : b.Denotes d) (start stop : Nat) :
    (b.setRange start stop).Denotes (d.extend (Finset.Ico start stop)) where
  size := (size_setRange ..).trans h.size
  bit i := by
    rw [bit_setRange, h.bit, h.size]
    simp only [IndexSet.extend, ← Bool.decide_and, ← Bool.decide_or, Finset.mem_filter,
      Finset.mem_union, Finset.mem_Ico]
    have := d.below i
    exact decide_eq_decide.mpr (by tauto)

theorem Denotes.clear (h : b.Denotes d) (index : Nat) :
    (b.clear index).Denotes (d.erase index) where
  size := (size_clear ..).trans h.size
  bit i := by
    rw [bit_clear, h.bit, h.size]
    simp only [IndexSet.erase, ← Bool.decide_and, ← decide_not, Finset.mem_erase]
    have := d.below i
    exact decide_eq_decide.mpr (by tauto)

theorem Denotes.and (ha : a.Denotes d) (hb : b.Denotes e) : (a.and b).Denotes (d.inter e) where
  size := by rw [NativeBitmap.and, size_zipBytes, ha.size, hb.size]; rfl
  bit i := by
    rw [bit_and, ha.bit, hb.bit, ha.size, hb.size]
    simp only [IndexSet.inter, ← Bool.decide_and, Finset.mem_inter, lt_byteCount_iff]
    refine decide_eq_decide.mpr ⟨And.right, fun hi => ⟨?_, hi⟩⟩
    have := d.below i hi.1
    have := e.below i hi.2
    omega

theorem Denotes.not (h : b.Denotes d) : b.not.Denotes d.compl where
  size := (size_not b).trans h.size
  bit i := by
    rw [bit_not, h.bit, h.size]
    simp only [IndexSet.compl, ← Bool.decide_and, ← decide_not, Finset.mem_sdiff, Finset.mem_range]

theorem Denotes.batchedSet (h : b.Denotes d) (indices : List Nat) :
    (b.batchedSet indices).Denotes (indices.foldl (fun d i => d.extend {i}) d) := by
  induction indices generalizing b d with
  | nil => exact h
  | cons i rest ih => exact ih (h.set i)

/-- Neither operand of `|` has a bit in the padding of the result. -/
def ClearPadding (a b : NativeBitmap) : Prop :=
  ∀ i, min a.size b.size ≤ i → i < 8 * byteCount (min a.size b.size) →
    a.test i = false ∧ b.test i = false

instance (a b : NativeBitmap) : Decidable (ClearPadding a b) :=
  decidable_of_iff (∀ i < 8 * byteCount (min a.size b.size), min a.size b.size ≤ i →
      a.test i = false ∧ b.test i = false)
    ⟨fun h i hLe hLt => h i hLt hLe, fun h i hLt hLe => h i hLe hLt⟩

/-- `|` agrees with the truncated union exactly when no operand reaches into the padding. -/
theorem denotes_or_iff (ha : a.Denotes d) (hb : b.Denotes e) :
    (a.or b).Denotes (d.union e) ↔ ClearPadding a b := by
  have hMember : ∀ i, (a.bit i || b.bit i) = decide (i ∈ d.members ∪ e.members) := by
    intro i
    rw [ha.bit, hb.bit, ← Bool.decide_or]
    exact decide_eq_decide.mpr Finset.mem_union.symm
  constructor
  · intro h i hLe hByte
    have hBit := h.bit i
    have hOut : i ∉ (d.union e).members := fun hi => by
      have hLt : i < min d.size e.size := (d.union e).below i hi
      rw [← ha.size, ← hb.size] at hLt
      exact absurd hLt (Nat.not_lt.mpr hLe)
    rw [bit_or, decide_eq_true (by omega), Bool.true_and, decide_eq_false hOut,
      Bool.or_eq_false_iff] at hBit
    exact ⟨by rw [test_eq, hBit.1, Bool.and_false], by rw [test_eq, hBit.2, Bool.and_false]⟩
  · intro hClear
    refine ⟨?_, fun i => ?_⟩
    · rw [NativeBitmap.or, size_zipBytes, ha.size, hb.size]
      rfl
    · rw [bit_or, hMember, ← Bool.decide_and]
      simp only [IndexSet.union, Finset.mem_filter, lt_byteCount_iff]
      refine decide_eq_decide.mpr ⟨?_, fun h => ⟨by rw [ha.size, hb.size]; omega, h.1⟩⟩
      rintro ⟨hByte, hMem⟩
      refine ⟨hMem, ?_⟩
      by_contra hOut
      rw [← ha.size, ← hb.size] at hOut
      -- A member past the smaller size would be a set bit of the padding.
      have hPadding := hClear i (Nat.not_lt.mp hOut) (by
        have := lt_byteCount_iff.mpr hByte
        omega)
      rw [ha.agrees.test, hb.agrees.test, decide_eq_false_iff_not, decide_eq_false_iff_not]
        at hPadding
      exact (Finset.mem_union.mp hMem).elim hPadding.1 hPadding.2

end NativeBitmap

abbrev BitmapStore := List (NativeBitmap × IndexSet)

inductive BitmapCall
  | create (size : Nat)
  | createLeading (size prefixBits : Nat)
  | set (k index : Nat)
  | batchedSet (k : Nat) (indices : List Nat)
  | setRange (k start stop : Nat)
  | clear (k index : Nat)
  | and (j k : Nat)
  | or (j k : Nat)
  | not (k : Nat)
  deriving DecidableEq, Repr

namespace BitmapStore

/-- One construction or operation; `k` and `j` are positions in the store. -/
def call (s : BitmapStore) : BitmapCall → Option BitmapStore
  | .create size => some (s ++ [(.zeros size, .empty size)])
  | .createLeading size prefixBits =>
    some (s ++ [(.leading size prefixBits, .initial size prefixBits)])
  | .set k index => s[k]?.map fun e => List.set s k (e.1.set index, e.2.extend {index})
  | .batchedSet k indices => s[k]?.map fun e =>
    List.set s k (e.1.batchedSet indices, indices.foldl (fun d i => d.extend {i}) e.2)
  | .setRange k start stop => s[k]?.map fun e =>
    List.set s k (e.1.setRange start stop, e.2.extend (Finset.Ico start stop))
  | .clear k index => s[k]?.map fun e => List.set s k (e.1.clear index, e.2.erase index)
  | .and j k => s[j]?.bind fun a => s[k]?.map fun b => s ++ [(a.1.and b.1, a.2.inter b.2)]
  | .or j k => s[j]?.bind fun a => s[k]?.map fun b => s ++ [(a.1.or b.1, a.2.union b.2)]
  | .not k => s[k]?.map fun e => s ++ [(e.1.not, e.2.compl)]

/-- A `|` keeps to the result's size: no operand has a bit in the padding of the result. -/
def KeepsPadding (s : BitmapStore) : BitmapCall → Prop
  | .or j k => ∀ a ∈ s[j]?, ∀ b ∈ s[k]?, NativeBitmap.ClearPadding a.1 b.1
  | _ => True

instance (s : BitmapStore) : ∀ c : BitmapCall, Decidable (KeepsPadding s c)
  | .or j k => inferInstanceAs
    (Decidable (∀ a ∈ s[j]?, ∀ b ∈ s[k]?, NativeBitmap.ClearPadding a.1 b.1))
  | .create _ | .createLeading _ _ | .set _ _ | .batchedSet _ _ | .setRange _ _ _ | .clear _ _
  | .and _ _ | .not _ => .isTrue trivial

def Faithful (s : BitmapStore) : Prop := ∀ e ∈ s, e.1.Denotes e.2

variable {s t : BitmapStore}

theorem Faithful.set (h : Faithful s) {k : Nat} {e : NativeBitmap × IndexSet}
    (he : e.1.Denotes e.2) : Faithful (List.set s k e) := fun _ hMem =>
  (mem_or_eq_of_mem_set hMem).elim (h _) fun hEq => hEq ▸ he

theorem Faithful.append (h : Faithful s) {e : NativeBitmap × IndexSet} (he : e.1.Denotes e.2) :
    Faithful (s ++ [e]) := fun _ hMem =>
  (mem_append.mp hMem).elim (h _) fun hEq => mem_singleton.mp hEq ▸ he

theorem Faithful.call (h : Faithful s) {c : BitmapCall} (hKeeps : KeepsPadding s c)
    (hCall : BitmapStore.call s c = some t) : Faithful t := by
  cases c with
  | create size =>
    cases hCall
    exact h.append (NativeBitmap.denotes_zeros size)
  | createLeading size prefixBits =>
    cases hCall
    exact h.append (NativeBitmap.denotes_leading size prefixBits)
  | set k index =>
    obtain ⟨e, he, rfl⟩ := Option.map_eq_some_iff.mp hCall
    exact h.set ((h e (mem_of_getElem? he)).set index)
  | batchedSet k indices =>
    obtain ⟨e, he, rfl⟩ := Option.map_eq_some_iff.mp hCall
    exact h.set ((h e (mem_of_getElem? he)).batchedSet indices)
  | setRange k start stop =>
    obtain ⟨e, he, rfl⟩ := Option.map_eq_some_iff.mp hCall
    exact h.set ((h e (mem_of_getElem? he)).setRange start stop)
  | clear k index =>
    obtain ⟨e, he, rfl⟩ := Option.map_eq_some_iff.mp hCall
    exact h.set ((h e (mem_of_getElem? he)).clear index)
  | and j k =>
    obtain ⟨a, ha, hRest⟩ := Option.bind_eq_some_iff.mp hCall
    obtain ⟨b, hb, rfl⟩ := Option.map_eq_some_iff.mp hRest
    exact h.append ((h a (mem_of_getElem? ha)).and (h b (mem_of_getElem? hb)))
  | or j k =>
    obtain ⟨a, ha, hRest⟩ := Option.bind_eq_some_iff.mp hCall
    obtain ⟨b, hb, rfl⟩ := Option.map_eq_some_iff.mp hRest
    have hDenotes := NativeBitmap.denotes_or_iff (h a (mem_of_getElem? ha))
      (h b (mem_of_getElem? hb))
    exact h.append (hDenotes.mpr (hKeeps a ha b hb))
  | not k =>
    obtain ⟨e, he, rfl⟩ := Option.map_eq_some_iff.mp hCall
    exact h.append (h e (mem_of_getElem? he)).not

/-- In every run whose `|` steps keep to the size of their result, every bitmap agrees with
its set; and a next `|` gives a bitmap that agrees exactly when it keeps to its size too. -/
theorem agrees_of_run {calls : List BitmapCall}
    (hRun : Run (Run.Under KeepsPadding fun s c t => call s c = some t) [] calls s) :
    (∀ e ∈ s, e.1.Agrees e.2) ∧ ∀ a ∈ s, ∀ b ∈ s,
      (a.1.or b.1).Agrees (a.2.union b.2) ↔ NativeBitmap.ClearPadding a.1 b.1 := by
  have hFaithful : Faithful s :=
    hRun.invariant (fun _ _ _ h hStep => h.call hStep.1 hStep.2) (by simp [Faithful])
  refine ⟨fun e he => (hFaithful e he).agrees, fun a ha b hb => ?_⟩
  rw [NativeBitmap.agrees_iff_denotes]
  exact NativeBitmap.denotes_or_iff (hFaithful a ha) (hFaithful b hb)

/-- A run with a `|` of different sizes that keeps to the size of its result: bit 9 of the
larger bitmap lies past the padding of the smaller one. -/
theorem agrees_of_run_mixed_sizes : ∃ s,
    Run (Run.Under KeepsPadding fun s c t => call s c = some t) []
      [.createLeading 5 3, .create 12, .set 1 9, .or 0 1, .not 2] s ∧
    ∀ e ∈ s, e.1.Agrees e.2 := by
  obtain ⟨s, hs⟩ : ∃ s, Run.exec (fun s c => if KeepsPadding s c then call s c else none) []
      [.createLeading 5 3, .create 12, .set 1 9, .or 0 1, .not 2] = some s :=
    Option.isSome_iff_exists.mp (by decide)
  have hRun := Run.under_of_exec KeepsPadding call hs
  exact ⟨s, hRun, (agrees_of_run hRun).1⟩

/-- `Bitmap(3) | Bitmap(8, 8)` has three bits and says that bit 7 is its highest. -/
theorem or_sets_padding : ∃ s,
    Run (fun s c t => call s c = some t) [] [.create 3, .createLeading 8 8, .or 0 1] s ∧
    ∃ e ∈ s, e.1.size = 3 ∧ e.1.bit 3 = true ∧ e.1.highestSetBit = 7 ∧ ¬ e.1.Agrees e.2 := by
  refine ⟨_, Run.of_exec call rfl, (_, _), List.mem_append_right _ (List.mem_singleton_self _),
    by decide, by decide, by decide, fun h => ?_⟩
  exact absurd (h.padding 3 (by decide)) (by decide)

end BitmapStore

end LMCache
