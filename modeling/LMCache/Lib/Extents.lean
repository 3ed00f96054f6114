import Mathlib.Algebra.BigOperators.Group.List.Basic
import Mathlib.Algebra.GroupWithZero.Nat
import Mathlib.Data.List.Sort

/-!
# Lists of extents

An extent is a half-open interval `[start, start + size)` of addresses. A list of extents
tiles `[0, n)` when its members are disjoint, stay below `n`, reach every address below `n`
and have the total size `n`. Tilings do not depend on the order of the list, and three moves
keep them: cutting an extent in two (read backwards, merging two that touch), dropping an
empty extent, and appending an extent at the end of the range.

The second half is a list kept sorted by a key, with the insertion that goes after equal
keys.
-/

namespace LMCache.Lib

open List

structure Extent where
  start : Nat
  size : Nat
  deriving DecidableEq, Repr

namespace Extent

def stop (b : Extent) : Nat := b.start + b.size

@[simp] theorem stop_mk (start size : Nat) : (Extent.mk start size).stop = start + size := rfl

def Has (b : Extent) (x : Nat) : Prop := b.start ≤ x ∧ x < b.stop

def Disjoint (a b : Extent) : Prop := a.stop ≤ b.start ∨ b.stop ≤ a.start

theorem Disjoint.symm {a b : Extent} (h : a.Disjoint b) : b.Disjoint a := Or.symm h

def Inside (a b : Extent) : Prop := b.start ≤ a.start ∧ a.stop ≤ b.stop

theorem Inside.refl (a : Extent) : a.Inside a := ⟨Nat.le_refl _, Nat.le_refl _⟩

theorem Inside.trans {a b c : Extent} (h : a.Inside b) (g : b.Inside c) : a.Inside c :=
  ⟨Nat.le_trans g.1 h.1, Nat.le_trans h.2 g.2⟩

instance : Std.Symm Extent.Disjoint := ⟨fun _ _ h => h.symm⟩

/-- The part of an extent after its first `n` addresses, when there is any. -/
def after (b : Extent) (n : Nat) : List Extent :=
  if n < b.size then [⟨b.start + n, b.size - n⟩] else []

theorem mem_after {b c : Extent} {n : Nat} :
    c ∈ b.after n ↔ n < b.size ∧ c = ⟨b.start + n, b.size - n⟩ := by
  unfold after
  split <;> simp_all

end Extent

/-- Some member of the list has the address. -/
def Covered (l : List Extent) (x : Nat) : Prop := ∃ b ∈ l, b.Has x

structure Tiles (l : List Extent) (n : Nat) : Prop where
  disjoint : l.Pairwise Extent.Disjoint
  within : ∀ b ∈ l, b.stop ≤ n
  covered : ∀ x < n, Covered l x
  total : (l.map Extent.size).sum = n

namespace Tiles

variable {l l' : List Extent} {n : Nat}

theorem perm (h : Tiles l n) (hPerm : l.Perm l') : Tiles l' n where
  disjoint := (hPerm.pairwise_iff Extent.Disjoint.symm).mp h.disjoint
  within b hb := h.within b (hPerm.mem_iff.mpr hb)
  covered x hx := by
    obtain ⟨b, hb, hHas⟩ := h.covered x hx
    exact ⟨b, hPerm.mem_iff.mp hb, hHas⟩
  total := by rw [← (hPerm.map Extent.size).sum_eq, h.total]

theorem split {b : Extent} {k : Nat} (h : Tiles (b :: l) n) (hk : k ≤ b.size) :
    Tiles (⟨b.start, k⟩ :: ⟨b.start + k, b.size - k⟩ :: l) n := by
  obtain ⟨hHead, hTail⟩ := pairwise_cons.mp h.disjoint
  have hStop : b.stop ≤ n := h.within b (by simp)
  refine ⟨?_, ?_, ?_, ?_⟩
  · refine pairwise_cons.mpr ⟨?_, pairwise_cons.mpr ⟨?_, hTail⟩⟩
    · intro c hc
      rcases mem_cons.mp hc with rfl | hc
      · exact Or.inl (by simp)
      · have := hHead c hc
        simp only [Extent.Disjoint, Extent.stop] at this ⊢
        omega
    · intro c hc
      have := hHead c hc
      simp only [Extent.Disjoint, Extent.stop] at this ⊢
      omega
  · simp only [Extent.stop] at hStop
    simp only [mem_cons, forall_eq_or_imp, Extent.stop_mk]
    exact ⟨by omega, by omega, fun c hc => h.within c (mem_cons_of_mem _ hc)⟩
  · intro x hx
    obtain ⟨c, hc, hHas⟩ := h.covered x hx
    rcases mem_cons.mp hc with rfl | hc
    · obtain ⟨hLow, hHigh⟩ := hHas
      simp only [Extent.stop] at hHigh
      by_cases hCut : x < c.start + k
      · exact ⟨_, mem_cons_self, hLow, by simpa using hCut⟩
      · refine ⟨⟨c.start + k, c.size - k⟩, by simp, ?_, ?_⟩
        · simpa using hCut
        · simp only [Extent.stop]
          omega
    · exact ⟨c, by simp [hc], hHas⟩
  · have := h.total
    simp only [map_cons, sum_cons] at this ⊢
    omega

theorem merge {b c : Extent} (h : Tiles (b :: c :: l) n) (hTouch : b.stop = c.start)
    (hNonempty : ∀ d ∈ l, 0 < d.size) :
    Tiles (⟨b.start, b.size + c.size⟩ :: l) n := by
  obtain ⟨hHead, hTail⟩ := pairwise_cons.mp h.disjoint
  obtain ⟨hNext, hTail⟩ := pairwise_cons.mp hTail
  have hStop : c.stop ≤ n := h.within c (by simp)
  simp only [Extent.stop] at hTouch hStop
  refine ⟨pairwise_cons.mpr ⟨?_, hTail⟩, ?_, ?_, ?_⟩
  · intro d hd
    have hb := hHead d (mem_cons_of_mem _ hd)
    have hc := hNext d hd
    have := hNonempty d hd
    simp only [Extent.Disjoint, Extent.stop] at hb hc ⊢
    omega
  · simp only [mem_cons, forall_eq_or_imp, Extent.stop_mk]
    exact ⟨by omega, fun d hd => h.within d (by simp [hd])⟩
  · intro x hx
    obtain ⟨d, hd, hLow, hHigh⟩ := h.covered x hx
    simp only [Extent.stop] at hHigh
    rcases mem_cons.mp hd with rfl | hd
    · exact ⟨_, mem_cons_self, hLow, by simp only [Extent.stop]; omega⟩
    · rcases mem_cons.mp hd with rfl | hd
      · refine ⟨_, mem_cons_self, ?_, ?_⟩
        · simp only
          omega
        · simp only [Extent.stop]
          omega
      · exact ⟨d, mem_cons_of_mem _ hd, hLow, hHigh⟩
  · have := h.total
    simp only [map_cons, sum_cons] at this ⊢
    omega

theorem drop_empty {b : Extent} (h : Tiles (b :: l) n) (hEmpty : b.size = 0) : Tiles l n where
  disjoint := (pairwise_cons.mp h.disjoint).2
  within c hc := h.within c (mem_cons_of_mem _ hc)
  covered x hx := by
    obtain ⟨c, hc, hLow, hHigh⟩ := h.covered x hx
    rcases mem_cons.mp hc with rfl | hc
    · simp only [Extent.stop] at hHigh
      omega
    · exact ⟨c, hc, hLow, hHigh⟩
  total := by simpa [hEmpty] using h.total

theorem cut {b : Extent} {k : Nat} (h : Tiles (b :: l) n) (hk : k ≤ b.size) :
    Tiles (⟨b.start, k⟩ :: (b.after k ++ l)) n := by
  have hSplit := h.split hk
  unfold Extent.after
  split
  · exact hSplit
  · exact ((hSplit.perm (.swap _ _ _)).drop_empty (by simp only; omega)).perm (.refl _)

theorem extend (h : Tiles l n) (k : Nat) : Tiles (⟨n, k⟩ :: l) (n + k) where
  disjoint := pairwise_cons.mpr ⟨fun b hb => Or.inr (h.within b hb), h.disjoint⟩
  within := by
    simp only [mem_cons, forall_eq_or_imp, Extent.stop_mk, le_refl, true_and]
    exact fun b hb => le_trans (h.within b hb) (Nat.le_add_right n k)
  covered x hx := by
    by_cases hOld : x < n
    · obtain ⟨b, hb, hHas⟩ := h.covered x hOld
      exact ⟨b, mem_cons_of_mem _ hb, hHas⟩
    · exact ⟨_, mem_cons_self, by simpa using hOld, hx⟩
  total := by
    simp only [map_cons, sum_cons, h.total]
    omega

theorem covered_iff {free live : List Extent} (h : Tiles (free ++ live) n) (x : Nat) :
    Covered free x ↔ x < n ∧ ¬ Covered live x := by
  obtain ⟨-, -, hCross⟩ := pairwise_append.mp h.disjoint
  constructor
  · rintro ⟨b, hb, hLow, hHigh⟩
    refine ⟨lt_of_lt_of_le hHigh (h.within b (by simp [hb])), ?_⟩
    rintro ⟨c, hc, hLow', hHigh'⟩
    rcases hCross b hb c hc with hApart | hApart
    · exact absurd (lt_of_lt_of_le hHigh hApart) (not_lt.mpr hLow')
    · exact absurd (lt_of_lt_of_le hHigh' hApart) (not_lt.mpr hLow)
  · rintro ⟨hx, hLive⟩
    obtain ⟨b, hb, hHas⟩ := h.covered x hx
    rcases mem_append.mp hb with hb | hb
    · exact ⟨b, hb, hHas⟩
    · exact absurd ⟨b, hb, hHas⟩ hLive

end Tiles

/-- In the order of the addresses, and with a gap between neighbours. -/
def Separated (l : List Extent) : Prop := l.Pairwise fun a b => a.stop < b.start

theorem covered_cons (b : Extent) (l : List Extent) (x : Nat) :
    Covered (b :: l) x ↔ b.Has x ∨ Covered l x := by
  simp [Covered]

theorem Separated.tail_after {b : Extent} {l : List Extent} (h : Separated (b :: l)) {x : Nat}
    (hx : Covered l x) : b.stop < x := by
  obtain ⟨c, hc, hLow, -⟩ := hx
  exact ((pairwise_cons.mp h).1 c hc).trans_le hLow

theorem Separated.le_of_covered {b : Extent} {l : List Extent} (h : Separated (b :: l)) {x : Nat}
    (hx : Covered (b :: l) x) : b.start ≤ x := by
  rcases (covered_cons b l x).mp hx with hHas | hx
  · exact hHas.1
  · have hAfter := h.tail_after hx
    simp only [Extent.stop] at hAfter
    omega

theorem Separated.eq_of_covered {l l' : List Extent} (h : Separated l) (h' : Separated l')
    (hPos : ∀ b ∈ l, 0 < b.size) (hPos' : ∀ b ∈ l', 0 < b.size)
    (hCovered : ∀ x, Covered l x ↔ Covered l' x) : l = l' := by
  have hHead : ∀ {b : Extent} {l : List Extent}, 0 < b.size → Covered (b :: l) b.start := by
    intro b l hSize
    refine ⟨b, mem_cons_self, le_refl _, ?_⟩
    simp only [Extent.stop]
    omega
  induction l generalizing l' with
  | nil =>
    cases l' with
    | nil => rfl
    | cons b l' =>
      obtain ⟨c, hc, -⟩ := (hCovered b.start).mpr (hHead (hPos' b mem_cons_self))
      cases hc
  | cons b l ih =>
    cases l' with
    | nil =>
      obtain ⟨c, hc, -⟩ := (hCovered b.start).mp (hHead (hPos b mem_cons_self))
      cases hc
    | cons b' l' =>
      have hStart : b.start = b'.start := le_antisymm
        (h.le_of_covered ((hCovered _).mpr (hHead (hPos' b' mem_cons_self))))
        (h'.le_of_covered ((hCovered _).mp (hHead (hPos b mem_cons_self))))
      -- the first address after an extent is in no extent of its list
      have hEnds : ∀ {c c' : Extent} {m m' : List Extent}, Separated (c :: m) →
          c.start = c'.start → (Covered (c' :: m') c.stop → Covered (c :: m) c.stop) →
          ¬ c.stop < c'.stop := by
        intro c c' m m' hSep hEq hBack hLt
        have hStop : Covered (c' :: m') c.stop :=
          ⟨c', mem_cons_self, by simp only [Extent.stop, hEq]; omega, hLt⟩
        rcases (covered_cons c m _).mp (hBack hStop) with hHas | hTail
        · exact absurd hHas.2 (lt_irrefl _)
        · exact absurd (hSep.tail_after hTail) (lt_irrefl _)
      have hStop : b.stop = b'.stop := le_antisymm
        (not_lt.mp (hEnds h' hStart.symm (hCovered _).mp))
        (not_lt.mp (hEnds h hStart (hCovered _).mpr))
      have hSame : b = b' := by
        simp only [Extent.stop] at hStop
        cases b
        cases b'
        simp only at hStart hStop
        rw [Extent.mk.injEq]
        omega
      subst hSame
      rw [ih (pairwise_cons.mp h).2 (pairwise_cons.mp h').2
        (fun c hc => hPos c (mem_cons_of_mem _ hc))
        (fun c hc => hPos' c (mem_cons_of_mem _ hc)) fun x => ?_]
      have hBoth := hCovered x
      rw [covered_cons, covered_cons] at hBoth
      constructor
      · intro hx
        rcases hBoth.mp (Or.inr hx) with hHas | hx'
        · exact absurd (h.tail_after hx) (not_lt.mpr hHas.2.le)
        · exact hx'
      · intro hx
        rcases hBoth.mpr (Or.inr hx) with hHas | hx'
        · exact absurd (h'.tail_after hx) (not_lt.mpr hHas.2.le)
        · exact hx'

section KeyList

variable {α : Type} (key : α → Nat)

/-- Insert after every element whose key is not greater. -/
def addByKey (a : α) (l : List α) : List α :=
  l.orderedInsert (fun x y => key x < key y) a

theorem addByKey_perm (a : α) (l : List α) : (addByKey key a l).Perm (a :: l) :=
  perm_orderedInsert _ a l

theorem addByKey_sorted {l : List α} (h : l.Pairwise fun x y => key x ≤ key y) (a : α) :
    (addByKey key a l).Pairwise fun x y => key x ≤ key y := by
  induction l with
  | nil => simp [addByKey]
  | cons b l ih =>
    obtain ⟨hHead, hTail⟩ := pairwise_cons.mp h
    simp only [addByKey, orderedInsert_cons]
    split
    · rename_i hLt
      refine pairwise_cons.mpr ⟨fun c hc => ?_, h⟩
      rcases mem_cons.mp hc with rfl | hc
      · exact le_of_lt hLt
      · exact le_trans (le_of_lt hLt) (hHead c hc)
    · rename_i hLe
      refine pairwise_cons.mpr ⟨fun c hc => ?_, ih hTail⟩
      rcases mem_cons.mp ((addByKey_perm key a l).mem_iff.mp hc) with rfl | hc
      · exact not_lt.mp hLe
      · exact hHead c hc

/-- The position of the first element whose key is not smaller. -/
def bisectLeft (k : Nat) (l : List α) : Nat := l.findIdx fun x => decide (k ≤ key x)

theorem bisectLeft_le (k : Nat) (l : List α) : bisectLeft key k l ≤ l.length :=
  findIdx_le_length

theorem key_lt_of_lt_bisectLeft {k i : Nat} {l : List α} (h : i < bisectLeft key k l)
    (hi : i < l.length) : key l[i] < k := by
  simpa using not_of_lt_findIdx h

theorem le_key_of_bisectLeft_le {k i : Nat} {l : List α}
    (hSorted : l.Pairwise fun x y => key x ≤ key y) (h : bisectLeft key k l ≤ i)
    (hi : i < l.length) : k ≤ key l[i] := by
  have hFirst : bisectLeft key k l < l.length := lt_of_le_of_lt h hi
  have hAt : k ≤ key (l[bisectLeft key k l]) := by
    exact of_decide_eq_true (findIdx_getElem (w := hFirst))
  rcases Nat.lt_or_eq_of_le h with hLt | hEq
  · exact le_trans hAt (pairwise_iff_getElem.mp hSorted _ _ hFirst hi hLt)
  · simpa only [hEq] using hAt

end KeyList

end LMCache.Lib
