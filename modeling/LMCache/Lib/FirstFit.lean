import LMCache.Lib.Extents

/-!
# First fit

Extents stand in a list sorted by their start. A block of `n` addresses is taken from the
first extent that is large enough, and what is left of that extent is inserted again. Only the
extents that are large enough decide what happens: as long as these lie apart, several blocks
taken one after the other come from one extent until it is too small (`takeMany_first`). An
extent holds as many blocks as its size allows, and a list holds the sum of that (`slots`).
-/

namespace LMCache.Lib

open List Option

namespace Extent

/-- The first `count` blocks of `n` addresses of an extent. -/
def blocks (b : Extent) (n count : Nat) : List Extent :=
  (List.range count).map fun i => ⟨b.start + i * n, n⟩

theorem blocks_succ (b : Extent) (n count : Nat) :
    b.blocks n (count + 1) =
      ⟨b.start, n⟩ :: (Extent.mk (b.start + n) (b.size - n)).blocks n count := by
  simp only [blocks, range_succ_eq_map, map_cons, List.map_map, Nat.zero_mul,
    Nat.add_zero, List.cons.injEq, true_and]
  refine map_congr_left fun i _ => ?_
  simp only [Function.comp_apply, Nat.succ_mul, Extent.mk.injEq, and_true]
  omega

theorem after_after {b : Extent} {n : Nat} (k : Nat) (hMore : n < b.size) :
    (Extent.mk (b.start + n) (b.size - n)).after k = b.after (n + k) := by
  simp only [after]
  by_cases hLeft : n + k < b.size
  · rw [if_pos (by omega), if_pos hLeft]
    congr 2 <;> omega
  · rw [if_neg (by omega), if_neg hLeft]

end Extent

namespace FirstFit

def insert (l : List Extent) (b : Extent) : List Extent := addByKey Extent.start b l

def insertAll (l more : List Extent) : List Extent := more.foldl insert l

def Sorted (l : List Extent) : Prop := l.Pairwise fun a b => a.start ≤ b.start

/-- The extents that hold a block of `n` addresses. -/
def fitting (n : Nat) (l : List Extent) : List Extent := l.filter fun b => decide (n ≤ b.size)

variable {n : Nat} {l more rest : List Extent} {a b : Extent}

theorem insert_cons (a b : Extent) (l : List Extent) :
    insert (a :: l) b = if b.start < a.start then b :: a :: l else a :: insert l b := by
  simp only [insert, addByKey, orderedInsert_cons]

theorem Sorted.insert (h : Sorted l) (b : Extent) : Sorted (insert l b) :=
  addByKey_sorted Extent.start h b

theorem Sorted.erase (h : Sorted l) (b : Extent) : Sorted (l.erase b) :=
  List.Pairwise.sublist erase_sublist h

theorem Sorted.insertAll (h : Sorted l) (more : List Extent) : Sorted (insertAll l more) := by
  induction more generalizing l with
  | nil => exact h
  | cons b more ih => exact ih (h.insert b)

theorem insert_of_lt (h : ∀ a ∈ l, b.start < a.start) : insert l b = b :: l := by
  cases l with
  | nil => rfl
  | cons a l => rw [insert_cons, if_pos (h a mem_cons_self)]

theorem erase_insert_self (h : b ∉ l) : (insert l b).erase b = l := by
  induction l with
  | nil => simp [insert, addByKey]
  | cons a l ih =>
    obtain ⟨hne, hb⟩ := not_or.mp (mt mem_cons.mpr h)
    rw [insert_cons]
    split
    · rw [erase_cons_head]
    · rw [erase_cons_tail (by simpa using Ne.symm hne), ih hb]

theorem erase_insert (h : Sorted l) (hne : a ≠ b) :
    (insert l b).erase a = insert (l.erase a) b := by
  induction l with
  | nil => simp [insert, addByKey, Ne.symm hne]
  | cons c l ih =>
    obtain ⟨hHead, hTail⟩ := pairwise_cons.mp h
    have hba : ¬ (b == a) = true := by simpa using Ne.symm hne
    rw [insert_cons]
    by_cases hLt : b.start < c.start
    · have hAll : ∀ d ∈ (c :: l).erase a, b.start < d.start := by
        intro d hd
        rcases mem_cons.mp (mem_of_mem_erase hd) with rfl | hd
        · exact hLt
        · exact hLt.trans_le (hHead d hd)
      rw [if_pos hLt, erase_cons_tail hba, insert_of_lt hAll]
    · rw [if_neg hLt]
      by_cases hca : c = a
      · rw [hca, erase_cons_head, erase_cons_head]
      · have hca : ¬ (c == a) = true := by simpa using hca
        rw [erase_cons_tail hca, erase_cons_tail hca, insert_cons, if_neg hLt, ih hTail]

theorem erase_insertAll (h : Sorted l) (hMore : a ∉ more) :
    (insertAll l more).erase a = insertAll (l.erase a) more := by
  induction more generalizing l with
  | nil => rfl
  | cons b more ih =>
    obtain ⟨hne, hMore⟩ := not_or.mp (mt mem_cons.mpr hMore)
    rw [insertAll, foldl_cons, ← insertAll, ih (h.insert b) hMore, erase_insert h hne]
    rfl

theorem fitting_cons (n : Nat) (a : Extent) (l : List Extent) :
    fitting n (a :: l) = if n ≤ a.size then a :: fitting n l else fitting n l := by
  simp [fitting, filter_cons]

theorem mem_fitting : b ∈ fitting n l ↔ b ∈ l ∧ n ≤ b.size := by
  simp [fitting]

theorem fitting_insert_small (h : b.size < n) : fitting n (insert l b) = fitting n l := by
  induction l with
  | nil => simp [insert, addByKey, fitting, h]
  | cons a l ih =>
    rw [insert_cons]
    split
    · rw [fitting_cons, if_neg (Nat.not_le.mpr h)]
    · rw [fitting_cons, fitting_cons, ih]

theorem fitting_insert_first (hFits : n ≤ b.size) (hFirst : ∀ c ∈ fitting n l, b.start < c.start) :
    fitting n (insert l b) = b :: fitting n l := by
  induction l with
  | nil => simp [insert, addByKey, fitting, hFits]
  | cons a l ih =>
    rw [insert_cons]
    split
    · rw [fitting_cons, if_pos hFits]
    · rename_i hNot
      have hSmall : ¬ n ≤ a.size := fun hLe =>
        hNot (hFirst a (mem_fitting.mpr ⟨mem_cons_self, hLe⟩))
      rw [fitting_cons, if_neg hSmall] at hFirst ⊢
      rw [fitting_cons, if_neg hSmall, ih hFirst]

theorem fitting_erase_first (h : fitting n l = b :: rest) : fitting n (l.erase b) = rest := by
  induction l with
  | nil => cases h
  | cons a l ih =>
    rw [fitting_cons] at h
    split at h
    · obtain ⟨rfl, rfl⟩ := List.cons.inj h
      rw [erase_cons_head]
    · rename_i hSmall
      have hb : n ≤ b.size := (mem_fitting.mp (h ▸ mem_cons_self)).2
      have hne : ¬ (a == b) = true := by
        rintro hEq
        exact hSmall (beq_iff_eq.mp hEq ▸ hb)
      rw [erase_cons_tail hne, fitting_cons, if_neg hSmall, ih h]

/-- One block off the first extent that is large enough, and the list after it. -/
def takeFirst (n : Nat) (l : List Extent) : Option (Extent × List Extent) :=
  (l.find? fun b => decide (n ≤ b.size)).map fun b =>
    (⟨b.start, n⟩, insertAll (l.erase b) (b.after n))

/-- Blocks taken one after the other; `none` as soon as one is missing. -/
def takeMany (n : Nat) : Nat → List Extent → Option (List Extent × List Extent)
  | 0, l => some ([], l)
  | count + 1, l =>
    (takeFirst n l).bind fun r =>
      (takeMany n count r.2).map fun s => (r.1 :: s.1, s.2)

theorem takeFirst_eq_none (h : fitting n l = []) : takeFirst n l = none := by
  rw [takeFirst, ← head?_filter, ← fitting, h]
  rfl

theorem takeFirst_eq_some (h : fitting n l = b :: rest) :
    takeFirst n l = some (⟨b.start, n⟩, insertAll (l.erase b) (b.after n)) := by
  rw [takeFirst, ← head?_filter, ← fitting, h]
  rfl

theorem takeMany_add (s t : Nat) (l : List Extent) :
    takeMany n (s + t) l =
      (takeMany n s l).bind fun r => (takeMany n t r.2).map fun q => (r.1 ++ q.1, q.2) := by
  induction s generalizing l with
  | zero => simp [takeMany]
  | succ s ih =>
    rw [Nat.add_right_comm, takeMany, takeMany]
    cases takeFirst n l with
    | none => rfl
    | some r =>
      rw [bind_some, bind_some, ih]
      cases takeMany n s r.2 with
      | none => rfl
      | some q =>
        simp only [bind_some, map_some, Option.map_map]
        rfl

theorem length_takeMany {count : Nat} {taken left : List Extent}
    (h : takeMany n count l = some (taken, left)) : taken.length = count := by
  induction count generalizing l taken with
  | zero =>
    cases h
    rfl
  | succ count ih =>
    obtain ⟨first, -, h⟩ := bind_eq_some_iff.mp h
    obtain ⟨rest, hRest, hEq⟩ := map_eq_some_iff.mp h
    cases hEq
    rw [length_cons, ih hRest]

/-- As long as the first extent that is large enough ends before the others, all blocks come
from it until it is too small. -/
theorem takeMany_first (hPos : 0 < n) {t : Nat} (hFirst : fitting n l = b :: rest)
    (hApart : ∀ c ∈ rest, b.stop ≤ c.start) (hSome : 0 < t) (hRoom : t * n ≤ b.size) :
    takeMany n t l = some (b.blocks n t, insertAll (l.erase b) (b.after (t * n))) := by
  induction t generalizing l b with
  | zero => exact absurd hSome (lt_irrefl 0)
  | succ t ih =>
    rw [Nat.succ_mul] at hRoom
    rw [takeMany, takeFirst_eq_some hFirst, bind_some]
    rcases Nat.eq_zero_or_pos t with rfl | hMore
    · simp [takeMany, Extent.blocks]
    · -- what is left of the extent is the first that is large enough
      have hLeft : n ≤ t * n := Nat.le_mul_of_pos_left n hMore
      have hSize : n < b.size := by omega
      have hAfter : b.after n = [⟨b.start + n, b.size - n⟩] := if_pos hSize
      have hErased := fitting_erase_first hFirst
      have hLater : ∀ c ∈ fitting n (l.erase b), b.start + n < c.start := by
        intro c hc
        have hEnd := hApart c (hErased ▸ hc)
        simp only [Extent.stop] at hEnd
        omega
      have hNew : Extent.mk (b.start + n) (b.size - n) ∉ l.erase b := fun hMem =>
        absurd (hLater _ (mem_fitting.mpr ⟨hMem, by simp only; omega⟩)) (lt_irrefl _)
      have hNext : fitting n (insert (l.erase b) ⟨b.start + n, b.size - n⟩) =
          ⟨b.start + n, b.size - n⟩ :: rest := by
        rw [fitting_insert_first (by simp only; omega) hLater, hErased]
      have hEnds : ∀ c ∈ rest, (Extent.mk (b.start + n) (b.size - n)).stop ≤ c.start := by
        intro c hc
        have hEnd := hApart c hc
        simp only [Extent.stop] at hEnd ⊢
        omega
      have hTail := ih hNext hEnds hMore (by simp only; omega)
      rw [erase_insert_self hNew, Extent.after_after _ hSize] at hTail
      have hCut : n + t * n = (t + 1) * n := by rw [Nat.succ_mul, Nat.add_comm]
      rw [hCut] at hTail
      rw [hAfter]
      change (takeMany n t (insert (l.erase b) _)).map _ = _
      rw [hTail, map_some, Extent.blocks_succ]

/-- How many blocks the extents hold. -/
def slots (n : Nat) (l : List Extent) : Nat := (l.map fun b => b.size / n).sum

@[simp] theorem slots_nil (n : Nat) : slots n [] = 0 := rfl

theorem slots_cons (n : Nat) (b : Extent) (l : List Extent) :
    slots n (b :: l) = b.size / n + slots n l := by
  simp [slots]

end FirstFit

end LMCache.Lib
