import Mathlib.Data.List.Nodup

/-!
# Bitmaps

`Bitmap` of the native extension: a fixed number of bits, reads past the end are `false`
and writes past the end are ignored. The binary operators shrink to the smaller size.
The bytes of the source are abstracted to a function from bit numbers; everything about a
bitmap is stated through `test`.
-/

namespace LMCache

open List

structure Bitmap where
  size : Nat
  bits : Nat → Bool

namespace Bitmap

def test (b : Bitmap) (index : Nat) : Bool := decide (index < b.size) && b.bits index

/-- `Bitmap(size)`. -/
def zeros (size : Nat) : Bitmap := ⟨size, fun _ => false⟩

/-- `Bitmap(size, prefix_bits)`: the first `prefixBits` bits are set. -/
def leading (size prefixBits : Nat) : Bitmap := ⟨size, fun i => decide (i < prefixBits)⟩

def set (b : Bitmap) (index : Nat) : Bitmap := ⟨b.size, fun i => decide (i = index) || b.bits i⟩

def batchedSet (b : Bitmap) (indices : List Nat) : Bitmap := indices.foldl set b

def setRange (b : Bitmap) (start stop : Nat) : Bitmap :=
  ⟨b.size, fun i => (decide (start ≤ i) && decide (i < stop)) || b.bits i⟩

def clear (b : Bitmap) (index : Nat) : Bitmap :=
  ⟨b.size, fun i => !decide (i = index) && b.bits i⟩

def and (a b : Bitmap) : Bitmap := ⟨min a.size b.size, fun i => a.test i && b.test i⟩

def or (a b : Bitmap) : Bitmap := ⟨min a.size b.size, fun i => a.test i || b.test i⟩

def not (b : Bitmap) : Bitmap := ⟨b.size, fun i => !b.test i⟩

def getIndicesList (b : Bitmap) : List Nat := (List.range b.size).filter b.test

def popcount (b : Bitmap) : Nat := b.getIndicesList.length

/-- Elements of `items` at the set bits; bits past the end of `items` are dropped. -/
def gather {α : Type} (b : Bitmap) (items : List α) : List α :=
  b.getIndicesList.filterMap fun i => items[i]?

def highestSetBit (b : Bitmap) : Int :=
  match (List.range b.size).reverse.find? b.test with
  | some i => i
  | none => -1

/-- `count_leading_ones`. -/
def clo (b : Bitmap) : Nat := ((List.range b.size).takeWhile b.test).length

variable {b : Bitmap} {i : Nat}

theorem lt_size_of_test (h : b.test i = true) : i < b.size := by
  simp only [test, Bool.and_eq_true, decide_eq_true_eq] at h
  exact h.1

theorem test_of_size_le (h : b.size ≤ i) : b.test i = false := by
  simp [test, Nat.not_lt.mpr h]

variable {a : Bitmap}

@[simp] theorem test_zeros (size i : Nat) : (zeros size).test i = false := by
  simp [test, zeros]

@[simp] theorem test_leading (size prefixBits i : Nat) :
    (leading size prefixBits).test i = (decide (i < size) && decide (i < prefixBits)) := rfl

@[simp] theorem test_set (b : Bitmap) (index i : Nat) :
    (b.set index).test i = ((decide (i < b.size) && decide (i = index)) || b.test i) := by
  by_cases h : i < b.size <;> simp [test, set, h]

@[simp] theorem test_setRange (b : Bitmap) (start stop i : Nat) :
    (b.setRange start stop).test i =
      ((decide (i < b.size) && (decide (start ≤ i) && decide (i < stop))) || b.test i) := by
  by_cases h : i < b.size <;> simp [test, setRange, h]

@[simp] theorem test_clear (b : Bitmap) (index i : Nat) :
    (b.clear index).test i = (!decide (i = index) && b.test i) := by
  by_cases h : i < b.size <;> simp [test, clear, h]

@[simp] theorem test_and (a b : Bitmap) (i : Nat) : (a.and b).test i = (a.test i && b.test i) := by
  by_cases ha : i < a.size <;> by_cases hb : i < b.size <;> simp [test, and, Nat.lt_min, ha, hb]

theorem test_or (hSize : a.size = b.size) (i : Nat) : (a.or b).test i = (a.test i || b.test i) := by
  by_cases h : i < b.size <;> simp [test, or, hSize, h]

@[simp] theorem test_not (b : Bitmap) (i : Nat) :
    b.not.test i = (decide (i < b.size) && !b.test i) := rfl

@[simp] theorem size_zeros (size : Nat) : (zeros size).size = size := rfl

@[simp] theorem size_set (b : Bitmap) (index : Nat) : (b.set index).size = b.size := rfl

@[simp] theorem size_setRange (b : Bitmap) (start stop : Nat) :
    (b.setRange start stop).size = b.size := rfl

@[simp] theorem size_clear (b : Bitmap) (index : Nat) : (b.clear index).size = b.size := rfl

@[simp] theorem size_not (b : Bitmap) : b.not.size = b.size := rfl

theorem size_and (h : a.size = b.size) : (a.and b).size = b.size := by
  simp [and, h]

theorem size_or (h : a.size = b.size) : (a.or b).size = b.size := by
  simp [or, h]

theorem batchedSet_cons (b : Bitmap) (i : Nat) (indices : List Nat) :
    b.batchedSet (i :: indices) = (b.set i).batchedSet indices := rfl

@[simp] theorem size_batchedSet (b : Bitmap) (indices : List Nat) :
    (b.batchedSet indices).size = b.size := by
  induction indices generalizing b with
  | nil => rfl
  | cons i rest ih => rw [batchedSet_cons, ih, size_set]

theorem test_batchedSet (b : Bitmap) (indices : List Nat) (i : Nat) :
    (b.batchedSet indices).test i = true ↔ b.test i = true ∨ (i < b.size ∧ i ∈ indices) := by
  induction indices generalizing b with
  | nil => simp [batchedSet]
  | cons a rest ih =>
    rw [batchedSet_cons, ih]
    simp only [test_set, size_set, Bool.or_eq_true, Bool.and_eq_true, decide_eq_true_eq, mem_cons]
    constructor
    · rintro ((⟨hLt, rfl⟩ | hOld) | ⟨hLt, hMem⟩)
      · exact Or.inr ⟨hLt, Or.inl rfl⟩
      · exact Or.inl hOld
      · exact Or.inr ⟨hLt, Or.inr hMem⟩
    · rintro (hOld | ⟨hLt, rfl | hMem⟩)
      · exact Or.inl (Or.inr hOld)
      · exact Or.inl (Or.inl ⟨hLt, rfl⟩)
      · exact Or.inr ⟨hLt, hMem⟩

theorem mem_getIndicesList : i ∈ b.getIndicesList ↔ b.test i = true := by
  simp only [getIndicesList, mem_filter, mem_range]
  exact ⟨And.right, fun h => ⟨lt_size_of_test h, h⟩⟩

theorem getIndicesList_nodup (b : Bitmap) : b.getIndicesList.Nodup := nodup_range.filter _

theorem popcount_eq_zero_iff : b.popcount = 0 ↔ ∀ i, b.test i = false := by
  rw [popcount, length_eq_zero_iff, eq_nil_iff_forall_not_mem]
  simp [mem_getIndicesList]

variable {α : Type}

theorem mem_gather {items : List α} {x : α} :
    x ∈ b.gather items ↔ ∃ i, b.test i = true ∧ items[i]? = some x := by
  simp [gather, mem_filterMap, mem_getIndicesList]

theorem gather_nodup (b : Bitmap) {items : List α} (hItems : items.Nodup) :
    (b.gather items).Nodup := by
  refine b.getIndicesList_nodup.filterMap ?_
  intro i j x hi hj
  obtain ⟨hiLt, hiEq⟩ := List.getElem?_eq_some_iff.mp hi
  obtain ⟨hjLt, hjEq⟩ := List.getElem?_eq_some_iff.mp hj
  exact (hItems.getElem_inj_iff).mp (hiEq.trans hjEq.symm)

/-- Over distinct items, an item is gathered exactly when its own bit is set. -/
theorem getElem_mem_gather_iff {items : List α} (hItems : items.Nodup) {x : α}
    (hx : items[i]? = some x) : x ∈ b.gather items ↔ b.test i = true := by
  rw [mem_gather]
  constructor
  · rintro ⟨j, hTest, hj⟩
    obtain ⟨hiLt, hiEq⟩ := List.getElem?_eq_some_iff.mp hx
    obtain ⟨hjLt, hjEq⟩ := List.getElem?_eq_some_iff.mp hj
    obtain rfl : i = j := (hItems.getElem_inj_iff).mp (hiEq.trans hjEq.symm)
    exact hTest
  · intro hTest
    exact ⟨i, hTest, hx⟩

theorem highestSetBit_eq {h : Nat} (hLe : h ≤ b.size) (hTop : 0 < h → b.test (h - 1) = true)
    (hAbove : ∀ i, h ≤ i → b.test i = false) : b.highestSetBit = (h : Int) - 1 := by
  unfold highestSetBit
  cases h with
  | zero =>
    have hNone : (List.range b.size).reverse.find? b.test = none := by
      rw [find?_eq_none]
      intro i _
      simp [hAbove i (Nat.zero_le i)]
    rw [hNone]
    rfl
  | succ h =>
    have hSome : (List.range b.size).reverse.find? b.test = some h := by
      rw [find?_eq_some_iff_getElem]
      refine ⟨hTop (Nat.succ_pos h), b.size - 1 - h, by simp; omega, ?_, ?_⟩
      · simp
        omega
      · intro j hj
        have hj' : j < b.size - 1 - h := hj
        simp only [getElem_reverse, getElem_range, length_range]
        rw [hAbove _ (by omega)]
        rfl
    rw [hSome]
    simp

theorem neg_one_le_highestSetBit (b : Bitmap) : -1 ≤ b.highestSetBit := by
  unfold highestSetBit
  split
  · exact Int.le_trans (by decide) (Int.natCast_nonneg _)
  · exact Int.le_refl _

end Bitmap

end LMCache
