import LMCache.Lib.Dict

/-!
# Numbering the distinct elements of a list

One pass over a list that collects its distinct elements in the order of their first
occurrence and writes down, for every position, the number of its element. Beside it, the
slices of a concatenation of blocks of one length.
-/

namespace LMCache.Lib

open List

variable {α β : Type} [DecidableEq α]

/-- `items[i * width : (i + 1) * width]` -/
def block (width i : Nat) (items : List β) : List β := (items.drop (i * width)).take width

variable {f : α → List β} {width : Nat}

omit [DecidableEq α] in
theorem length_flatMap_of_width (hWidth : ∀ a, (f a).length = width) (l : List α) :
    (l.flatMap f).length = l.length * width := by
  induction l with
  | nil => simp
  | cons a l ih => rw [flatMap_cons, length_append, hWidth a, ih, length_cons,
      Nat.succ_mul, Nat.add_comm]

omit [DecidableEq α] in
theorem drop_flatMap_of_width (hWidth : ∀ a, (f a).length = width) (i : Nat) (l : List α) :
    (l.flatMap f).drop (i * width) = (l.drop i).flatMap f := by
  induction i generalizing l with
  | zero => simp
  | succ i ih =>
    cases l with
    | nil => simp
    | cons a l =>
      have hSplit : (i + 1) * width = (f a).length + i * width := by
        rw [hWidth a, Nat.succ_mul, Nat.add_comm]
      rw [flatMap_cons, hSplit, ← drop_drop, drop_left, ih, drop_succ_cons]

omit [DecidableEq α] in
theorem block_flatMap (hWidth : ∀ a, (f a).length = width) {i : Nat} {l : List α} {a : α}
    (h : l[i]? = some a) : block width i (l.flatMap f) = f a := by
  obtain ⟨hLt, rfl⟩ := List.getElem?_eq_some_iff.mp h
  rw [block, drop_flatMap_of_width hWidth, drop_eq_getElem_cons hLt, flatMap_cons]
  exact take_left' (hWidth _)

omit [DecidableEq α] in
theorem flatMap_range_length {g : Nat → List β} {l : List α}
    (h : ∀ i a, l[i]? = some a → g i = f a) : (List.range l.length).flatMap g = l.flatMap f := by
  induction l generalizing g with
  | nil => rfl
  | cons a l ih =>
    rw [length_cons, range_succ_eq_map, flatMap_cons, flatMap_cons, flatMap_map, h 0 a rfl]
    exact congrArg _ (ih fun i b hb => h (i + 1) b (by simpa using hb))

structure Numbering (α : Type) where
  /-- The distinct elements, by number. -/
  elements : List α
  numberOf : Dict α Nat
  /-- The number of the element at each position. -/
  numbers : List Nat

namespace Numbering

def empty : Numbering α := ⟨[], Dict.empty, []⟩

def add (n : Numbering α) (a : α) : Numbering α :=
  match n.numberOf.get? a with
  | some u => { n with numbers := n.numbers ++ [u] }
  | none =>
    { elements := n.elements ++ [a]
      numberOf := n.numberOf.set a n.elements.length
      numbers := n.numbers ++ [n.elements.length] }

def ofList (l : List α) : Numbering α := l.foldl add empty

/-- What holds of the numbering after the list `l`. -/
structure Numbers (n : Numbering α) (l : List α) : Prop where
  nodup : n.elements.Nodup
  mem_elements : ∀ a, a ∈ n.elements ↔ a ∈ l
  numberOf : ∀ a u, n.numberOf.get? a = some u ↔ n.elements[u]? = some a
  elementAt : n.numbers.map (fun u => n.elements[u]?) = l.map some

variable {n : Numbering α} {l : List α}

theorem numbers_empty : Numbers (empty : Numbering α) [] where
  nodup := nodup_nil
  mem_elements _ := Iff.rfl
  numberOf _ _ := by simp [empty]
  elementAt := rfl

theorem Numbers.add (h : n.Numbers l) (a : α) : (n.add a).Numbers (l ++ [a]) := by
  unfold Numbering.add
  cases hGet : n.numberOf.get? a with
  | some u =>
    have hAt := (h.numberOf a u).mp hGet
    have hMem : a ∈ l := (h.mem_elements a).mp (mem_of_getElem? hAt)
    refine ⟨h.nodup, fun b => ?_, h.numberOf, ?_⟩
    · rw [h.mem_elements b, mem_append, mem_singleton]
      exact ⟨Or.inl, fun hb => hb.elim id fun hEq => hEq ▸ hMem⟩
    · rw [map_append, map_append, h.elementAt, map_singleton, hAt, map_singleton]
  | none =>
    have hNew : a ∉ n.elements := by
      intro hMem
      obtain ⟨u, hAt⟩ := getElem?_of_mem hMem
      rw [(h.numberOf a u).mpr hAt] at hGet
      exact absurd hGet (by simp)
    refine ⟨?_, fun b => ?_, fun b u => ?_, ?_⟩
    · exact nodup_append.mpr ⟨h.nodup, nodup_singleton a, fun b hb c hc hEq =>
        hNew (by rwa [← mem_singleton.mp hc, ← hEq])⟩
    · rw [mem_append, mem_append, h.mem_elements b]
    · rw [Dict.get?_set]
      split
      · rename_i hEq
        subst hEq
        refine ⟨fun hu => ?_, fun hAt => ?_⟩
        · cases hu
          simp
        · rcases Nat.lt_trichotomy u n.elements.length with hLt | rfl | hGt
          · rw [getElem?_append_left hLt] at hAt
            exact absurd (mem_of_getElem? hAt) hNew
          · rfl
          · rw [getElem?_eq_none (by simp; omega)] at hAt
            cases hAt
      · rename_i hNe
        rw [h.numberOf b u]
        refine ⟨fun hAt => ?_, fun hAt => ?_⟩
        · rwa [getElem?_append_left (List.getElem?_eq_some_iff.mp hAt).1]
        · rcases Nat.lt_or_ge u n.elements.length with hLt | hGe
          · rwa [getElem?_append_left hLt] at hAt
          · rw [getElem?_append_right hGe] at hAt
            have hEq := mem_singleton.mp (mem_of_getElem? hAt)
            exact absurd hEq (Ne.symm hNe)
    · have hOld : ∀ u ∈ n.numbers, (n.elements ++ [a])[u]? = n.elements[u]? := by
        intro u hu
        have hSome : n.elements[u]? ∈ l.map some := by
          rw [← h.elementAt]
          exact mem_map_of_mem hu
        obtain ⟨b, -, hb⟩ := mem_map.mp hSome
        exact getElem?_append_left (List.getElem?_eq_some_iff.mp hb.symm).1
      rw [map_append, map_congr_left hOld, h.elementAt]
      simp

theorem numbers_ofList (l : List α) : (ofList l).Numbers l := by
  suffices hAll : ∀ (l done : List α) (n : Numbering α), n.Numbers done →
      (l.foldl Numbering.add n).Numbers (done ++ l) by
    exact hAll l [] empty numbers_empty
  intro l
  induction l with
  | nil =>
    intro done n h
    simpa using h
  | cons a l ih =>
    intro done n h
    simpa using ih (done ++ [a]) (n.add a) (h.add a)

end Numbering

end LMCache.Lib
