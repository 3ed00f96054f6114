import Mathlib.Order.Bounds.Basic
import Mathlib.Order.Nat

/-!
# Prefixes served through sliding windows

A sequence of chunks is stored for several groups at once. A group with window `some w`
serves a prefix of length `L` when its last `min w L` chunks are present; a group without a
window needs all of them. A length is servable when every group serves it, and the hit is
the greatest servable length.

Servability is not monotone in the length. The greatest length grows with the presence, and
past a hit of a smaller presence it can be computed on the chunks after that hit alone.
-/

namespace LMCache.Lib.Window

variable {ι : Type} (w : ι → Option Nat)

/-- First chunk that a window needs for a prefix of length `L`. -/
def lo (window : Option Nat) (L : Nat) : Nat :=
  match window with
  | none => 0
  | some n => L - n

/-- Every group has the chunks it needs for a prefix of length `L`. -/
def Servable (P : Nat → ι → Prop) (L : Nat) : Prop :=
  ∀ g j, lo (w g) L ≤ j → j < L → P j g

def lengths (P : Nat → ι → Prop) (n : Nat) : Set Nat := {L | L ≤ n ∧ Servable w P L}

/-- Presence seen from chunk `h` on. -/
def shift (h : Nat) (P : Nat → ι → Prop) : Nat → ι → Prop := fun j g => P (h + j) g

theorem lo_mono (window : Option Nat) {L L' : Nat} (h : L ≤ L') : lo window L ≤ lo window L' := by
  cases window with
  | none => exact le_rfl
  | some n => exact Nat.sub_le_sub_right h n

theorem lo_le (window : Option Nat) (L : Nat) : lo window L ≤ L := by
  cases window with
  | none => exact Nat.zero_le L
  | some n => exact Nat.sub_le L n

theorem lo_shift (window : Option Nat) {h L j : Nat} :
    lo window (h + L) ≤ h + j ↔ lo window L ≤ j := by
  cases window with
  | none => simp [lo]
  | some n =>
    simp only [lo]
    omega

variable {w} {P Q : Nat → ι → Prop} {n h l s L : Nat}

theorem servable_zero (P : Nat → ι → Prop) : Servable w P 0 := by
  intro g j _ hj
  omega

theorem exists_isGreatest (n : Nat) : ∃ h, IsGreatest (lengths w P n) h := by
  classical
  refine ⟨Nat.findGreatest (Servable w P) n, ⟨Nat.findGreatest_le n, ?_⟩, ?_⟩
  · exact Nat.findGreatest_spec (Nat.zero_le n) (servable_zero P)
  · rintro L ⟨hLn, hL⟩
    exact Nat.le_findGreatest hLn hL

theorem Servable.mono (hPQ : ∀ j g, P j g → Q j g) (hL : Servable w P L) : Servable w Q L :=
  fun g j hLo hj => hPQ j g (hL g j hLo hj)

theorem le_of_isGreatest (hPQ : ∀ j g, P j g → Q j g) (hP : IsGreatest (lengths w P n) h)
    (hQ : IsGreatest (lengths w Q n) l) : h ≤ l :=
  hQ.2 ⟨hP.1.1, hP.1.2.mono hPQ⟩

theorem servable_add_iff (hPQ : ∀ j g, P j g → Q j g) (hP : Servable w P h) :
    Servable w Q (h + L) ↔ Servable w (shift h Q) L := by
  constructor
  · intro hQ g j hLo hj
    exact hQ g (h + j) ((lo_shift (w g)).mpr hLo) (by omega)
  · intro hQ g j hLo hj
    by_cases hBelow : j < h
    · -- below `h` the window is inside the one that `P` already serves
      exact hPQ j g (hP g j (le_trans (lo_mono (w g) (Nat.le_add_right h L)) hLo) hBelow)
    · obtain ⟨i, rfl⟩ : ∃ i, j = h + i := ⟨j - h, by omega⟩
      exact hQ g i ((lo_shift (w g)).mp hLo) (by omega)

/-- Splitting a hit: the greatest length is a hit of the smaller presence plus the hit of
the chunks after it. -/
theorem isGreatest_add (hPQ : ∀ j g, P j g → Q j g) (hP : IsGreatest (lengths w P n) h)
    (hSuffix : IsGreatest (lengths w (shift h Q) (n - h)) l) :
    IsGreatest (lengths w Q n) (h + l) := by
  have hle : h ≤ n := hP.1.1
  constructor
  · refine ⟨?_, (servable_add_iff hPQ hP.1.2).mpr hSuffix.1.2⟩
    have := hSuffix.1.1
    omega
  · rintro L ⟨hLn, hL⟩
    by_cases hLh : L ≤ h
    · omega
    · obtain ⟨i, rfl⟩ : ∃ i, L = h + i := ⟨L - h, by omega⟩
      have hi : i ≤ l := hSuffix.2 ⟨by omega, (servable_add_iff hPQ hP.1.2).mp hL⟩
      omega

/-- Chunks behind the windows of a servable length `s` may be dropped: no length from `s`
on needs them. -/
theorem servable_of_le (hs : s ≤ L) (hKeep : ∀ j g, P j g → lo (w g) s ≤ j → Q j g)
    (hL : Servable w P L) : Servable w Q L :=
  fun g j hLo hj => hKeep j g (hL g j hLo hj) (le_trans (lo_mono (w g) hs) hLo)

theorem isGreatest_of_dropped (hQP : ∀ j g, Q j g → P j g)
    (hKeep : ∀ j g, P j g → lo (w g) s ≤ j → Q j g) (hs : s ∈ lengths w P n)
    (hP : IsGreatest (lengths w P n) l) : IsGreatest (lengths w Q n) l := by
  refine ⟨⟨hP.1.1, servable_of_le (hP.2 hs) hKeep hP.1.2⟩, ?_⟩
  rintro L ⟨hLn, hL⟩
  exact hP.2 ⟨hLn, hL.mono hQP⟩

end LMCache.Lib.Window
