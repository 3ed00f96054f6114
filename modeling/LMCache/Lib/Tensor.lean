import Mathlib.Algebra.BigOperators.Group.List.Basic
import Mathlib.Tactic.Ring

/-!
# Tensors

A tensor is its shape and its elements in row-major order. A multi-index names one
element, by the position it has when the indices below it vary fastest; a tensor is built
from a function of the multi-index, and reading it there gives the function back.
-/

namespace LMCache.Lib

open List

structure Tensor (α : Type) where
  shape : List Nat
  data : List α
  length_data : data.length = shape.prod

namespace Tensor

variable {α β : Type}

/-- The position of a multi-index in row-major order. -/
def flatIndex : List Nat → List Nat → Nat
  | _ :: shape, i :: index => i * shape.prod + flatIndex shape index
  | _, _ => 0

/-- A multi-index names an element of a tensor of this shape. -/
def InBounds (shape index : List Nat) : Prop := List.Forall₂ (fun i n => i < n) index shape

/-- All multi-indices, in row-major order. -/
def indices : List Nat → List (List Nat)
  | [] => [[]]
  | n :: shape => (List.range n).flatMap fun i => (indices shape).map (i :: ·)

def get? (t : Tensor α) (index : List Nat) : Option α := t.data[flatIndex t.shape index]?

theorem length_flatMap_const {γ : Type} (l : List γ) (f : γ → List β) {n : Nat}
    (h : ∀ a ∈ l, (f a).length = n) : (l.flatMap f).length = l.length * n := by
  induction l with
  | nil => simp
  | cons a l ih =>
    rw [flatMap_cons, length_append, h a (by simp), ih fun b hb => h b (by simp [hb]), length_cons]
    ring

/-- The element at offset `j` of piece `i`, when all pieces have the same length. -/
theorem getElem?_flatMap_const {γ : Type} (l : List γ) (f : γ → List β) {n : Nat}
    (h : ∀ a ∈ l, (f a).length = n) {i j : Nat} (hj : j < n) :
    (l.flatMap f)[i * n + j]? = l[i]?.bind fun a => (f a)[j]? := by
  induction l generalizing i with
  | nil => simp
  | cons a l ih =>
    have hHead : (f a).length = n := h a (by simp)
    rw [flatMap_cons]
    cases i with
    | zero =>
      rw [Nat.zero_mul, Nat.zero_add, getElem?_append_left (by omega)]
      rfl
    | succ i =>
      have hOffset : (i + 1) * n + j - n = i * n + j := by
        rw [Nat.succ_mul]
        omega
      rw [getElem?_append_right (by rw [hHead, Nat.succ_mul]; omega), hHead, hOffset,
        ih fun b hb => h b (by simp [hb])]
      rfl

@[simp] theorem length_indices (shape : List Nat) : (indices shape).length = shape.prod := by
  induction shape with
  | nil => rfl
  | cons n shape ih =>
    rw [indices, length_flatMap_const _ _ (n := shape.prod)
      (fun i _ => by rw [length_map, ih]), length_range, prod_cons]

theorem flatIndex_lt {shape index : List Nat} (h : InBounds shape index) :
    flatIndex shape index < shape.prod := by
  induction h with
  | nil => simp [flatIndex]
  | @cons i n index shape hi hRest ih =>
    rw [flatIndex, prod_cons]
    calc i * shape.prod + flatIndex shape index < i * shape.prod + shape.prod := by omega
      _ = (i + 1) * shape.prod := by ring
      _ ≤ n * shape.prod := Nat.mul_le_mul_right _ hi

theorem getElem?_indices {shape index : List Nat} (h : InBounds shape index) :
    (indices shape)[flatIndex shape index]? = some index := by
  induction h with
  | nil => rfl
  | @cons i n index shape hi hRest ih =>
    rw [indices, flatIndex, getElem?_flatMap_const _ _ (n := shape.prod)
      (fun i _ => by rw [length_map, length_indices]) (flatIndex_lt hRest),
      getElem?_range hi, Option.bind_some, getElem?_map, ih]
    rfl

def ofFn (shape : List Nat) (f : List Nat → α) : Tensor α :=
  ⟨shape, (indices shape).map f, by simp⟩

@[simp] theorem shape_ofFn (shape : List Nat) (f : List Nat → α) :
    (ofFn shape f).shape = shape := rfl

theorem get?_ofFn {shape index : List Nat} (h : InBounds shape index) (f : List Nat → α) :
    (ofFn shape f).get? index = some (f index) := by
  rw [get?, ofFn, getElem?_map, getElem?_indices h]
  rfl

end Tensor

end LMCache.Lib
