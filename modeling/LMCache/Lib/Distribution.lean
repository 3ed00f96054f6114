import Mathlib.Algebra.BigOperators.Group.List.Basic
import Mathlib.Algebra.Order.Ring.Int

/-!
# Distributing a demand over bins

A demand is filled from a list of bins, in order. Each bin is asked once, for as much as is
still missing and as it claims to hold, and gives all of that or nothing. A bin that claims no
more than it holds always gives; one that claims more gives only when the whole rest of the
demand fits into it. So the demand is met exactly when some bin holds what the truthful bins
before it have left of it (`foldl_fill_le_zero_iff`).
-/

namespace LMCache.Lib

structure Bin where
  room : Nat
  estimate : Int
  deriving DecidableEq, Repr

namespace Bin

/-- What is missing after a bin was asked. -/
def fill (demand : Int) (b : Bin) : Int :=
  if 0 < min demand b.estimate ∧ min demand b.estimate ≤ b.room then
    demand - min demand b.estimate
  else demand

/-- The bin claims no more than it holds. -/
def Truthful (b : Bin) : Prop := b.estimate ≤ b.room

instance (b : Bin) : Decidable b.Truthful := inferInstanceAs (Decidable (b.estimate ≤ b.room))

/-- What the bin gives to any demand that exceeds its room. -/
def surely (b : Bin) : Nat := if b.Truthful then b.room else 0

def totalRoom (bins : List Bin) : Nat := (bins.map room).sum

def truthfulRoom (bins : List Bin) : Nat := (bins.map surely).sum

/-- Some bin holds the demand together with the truthful bins before it. -/
def Meets (bins : List Bin) (demand : Int) : Prop :=
  ∃ before b after, bins = before ++ b :: after ∧ demand ≤ b.room + truthfulRoom before

variable {b : Bin} {bins : List Bin} {demand : Int}

theorem truthfulRoom_cons (b : Bin) (bins : List Bin) :
    truthfulRoom (b :: bins) = b.surely + truthfulRoom bins := by
  simp [truthfulRoom]

theorem surely_le (b : Bin) : b.surely ≤ b.room := by
  unfold surely
  split <;> omega

theorem not_meets_nil (demand : Int) : ¬ Meets [] demand := by
  rintro ⟨before, b, after, hEq, -⟩
  cases before <;> cases hEq

theorem meets_cons_iff :
    Meets (b :: bins) demand ↔ demand ≤ b.room ∨ Meets bins (demand - b.surely) := by
  constructor
  · rintro ⟨before, c, after, hEq, hRoom⟩
    cases before with
    | nil =>
      cases hEq
      exact Or.inl (by simpa [truthfulRoom] using hRoom)
    | cons first before =>
      obtain ⟨rfl, rfl⟩ := List.cons.inj hEq
      refine Or.inr ⟨before, c, after, rfl, ?_⟩
      rw [truthfulRoom_cons] at hRoom
      push_cast at hRoom
      omega
  · rintro (hRoom | ⟨before, c, after, rfl, hRoom⟩)
    · exact ⟨[], b, bins, rfl, by simpa [truthfulRoom] using hRoom⟩
    · refine ⟨b :: before, c, after, rfl, ?_⟩
      rw [truthfulRoom_cons]
      push_cast
      omega

theorem fill_of_nonpos (h : demand ≤ 0) : fill demand b = demand := by
  apply if_neg
  omega

theorem foldl_fill_of_nonpos (h : demand ≤ 0) : bins.foldl fill demand = demand := by
  induction bins with
  | nil => rfl
  | cons b bins ih => rw [List.foldl_cons, fill_of_nonpos h, ih]

/-- A bin claims at least what it holds, so it can be asked for that. -/
theorem fill_eq (hEstimate : (b.room : Int) ≤ b.estimate) (hPos : 0 < demand) :
    fill demand b = if demand ≤ b.room then 0 else demand - b.surely := by
  unfold fill surely
  by_cases hFits : demand ≤ b.room
  · rw [if_pos hFits, min_eq_left (hFits.trans hEstimate), if_pos ⟨hPos, hFits⟩, sub_self]
  · rw [if_neg hFits]
    by_cases hTruthful : b.Truthful
    · have hClaim : b.estimate ≤ b.room := hTruthful
      rw [if_pos hTruthful, min_eq_right (hClaim.trans (not_le.mp hFits).le)]
      split <;> omega
    · have hClaim : b.room < b.estimate := not_le.mp hTruthful
      rw [if_neg hTruthful, if_neg (by omega), Nat.cast_zero, sub_zero]

/-- A demand is met exactly when some bin holds what the truthful bins before it have left. -/
theorem foldl_fill_le_zero_iff (hEstimate : ∀ b ∈ bins, (b.room : Int) ≤ b.estimate)
    (hPos : 0 < demand) : bins.foldl fill demand ≤ 0 ↔ Meets bins demand := by
  induction bins generalizing demand with
  | nil => exact iff_of_false (not_le.mpr hPos) (not_meets_nil demand)
  | cons b bins ih =>
    rw [List.foldl_cons, fill_eq (hEstimate b List.mem_cons_self) hPos, meets_cons_iff]
    by_cases hRoom : demand ≤ b.room
    · rw [if_pos hRoom, foldl_fill_of_nonpos le_rfl]
      exact iff_of_true le_rfl (Or.inl hRoom)
    · rw [if_neg hRoom, or_iff_right hRoom]
      have hLess := surely_le b
      apply ih (fun c hc => hEstimate c (List.mem_cons_of_mem _ hc))
      omega

end Bin

end LMCache.Lib
