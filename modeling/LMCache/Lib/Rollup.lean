import LMCache.Lib.Dict
import Mathlib.Algebra.BigOperators.Group.List.Basic
import Mathlib.Algebra.GroupWithZero.Nat

/-!
# Rollups

Sums of the values of a dictionary, one per group of its keys, that are kept up to date by
deltas. A sum that falls to zero is dropped. A rollup is exact when it holds the sum of every
group; an update of one value and the delta of that update keep it exact, and then no sum
becomes negative.
-/

namespace LMCache.Lib

open List

namespace Dict

variable {ι κ : Type} [DecidableEq κ]

def groupSum (group : ι → κ) (entries : List (ι × Nat)) (k : κ) : Nat :=
  ((entries.filter fun e => group e.1 = k).map Prod.snd).sum

def total (group : ι → κ) (sizes : Dict ι Nat) (k : κ) : Nat := groupSum group sizes.entries k

theorem groupSum_cons (group : ι → κ) (e : ι × Nat) (rest : List (ι × Nat)) (k : κ) :
    groupSum group (e :: rest) k = (if group e.1 = k then e.2 else 0) + groupSum group rest k := by
  unfold groupSum
  by_cases hk : group e.1 = k
  · simp [hk]
  · simp [hk]

theorem le_groupSum {group : ι → κ} {entries : List (ι × Nat)} {i : ι} {size : Nat}
    (h : (i, size) ∈ entries) : size ≤ groupSum group entries (group i) := by
  induction entries with
  | nil => cases h
  | cons e rest ih =>
    rw [groupSum_cons]
    rcases mem_cons.mp h with rfl | hRest
    · rw [if_pos rfl]
      exact Nat.le_add_right _ _
    · exact Nat.le_trans (ih hRest) (Nat.le_add_left _ _)

theorem exists_of_groupSum_pos {group : ι → κ} {entries : List (ι × Nat)} {k : κ}
    (h : 0 < groupSum group entries k) : ∃ e ∈ entries, group e.1 = k ∧ 0 < e.2 := by
  induction entries with
  | nil => cases h
  | cons e rest ih =>
    rw [groupSum_cons] at h
    by_cases hHead : group e.1 = k ∧ 0 < e.2
    · exact ⟨e, mem_cons_self, hHead⟩
    · have hRest : 0 < groupSum group rest k := by
        split at h
        · rename_i hk
          have hZero : ¬ 0 < e.2 := fun hPos => hHead ⟨hk, hPos⟩
          omega
        · omega
      obtain ⟨e', hMem, hGroup⟩ := ih hRest
      exact ⟨e', mem_cons_of_mem _ hMem, hGroup⟩

variable {group : ι → κ}

section Updates

variable [DecidableEq ι]

theorem groupSum_assign (group : ι → κ) (i : ι) (size : Nat) (entries : List (ι × Nat)) (k : κ) :
    groupSum group (assign i size entries) k +
        (if group i = k then (find i entries).getD 0 else 0) =
      groupSum group entries k + if group i = k then size else 0 := by
  induction entries with
  | nil =>
    rw [assign, groupSum_cons, find]
    simp [groupSum]
  | cons e rest ih =>
    by_cases he : e.1 = i
    · rw [assign, if_pos he, find, if_pos he, groupSum_cons, groupSum_cons, he]
      split
      · simp only [Option.getD_some]
        omega
      · rfl
    · rw [assign, if_neg he, find, if_neg he, groupSum_cons, groupSum_cons]
      omega

theorem groupSum_filter (group : ι → κ) (i : ι) {entries : List (ι × Nat)}
  (h : (entries.map Prod.fst).Nodup) (k : κ) :
    groupSum group (entries.filter fun e => e.1 ≠ i) k +
        (if group i = k then (find i entries).getD 0 else 0) = groupSum group entries k := by
  induction entries with
  | nil => simp [groupSum, find]
  | cons e rest ih =>
    rw [map_cons, nodup_cons] at h
    have ih := ih h.2
    by_cases he : e.1 = i
    · have hNone : find i rest = none := find_eq_none_iff.mpr (he ▸ h.1)
      rw [hNone] at ih
      rw [filter_cons_of_neg (by simpa using he), find, if_pos he, groupSum_cons, he]
      simp only [Option.getD_none, ite_self, Nat.add_zero] at ih
      rw [ih, Nat.add_comm]
      rfl
    · rw [filter_cons_of_pos (by simpa using he), find, if_neg he, groupSum_cons,
        groupSum_cons, Nat.add_assoc, ih]

theorem total_set (sizes : Dict ι Nat) (i : ι) (size : Nat) (k : κ) :
    ((sizes.set i size).total group k : Int) =
      sizes.total group k + if group i = k then (size : Int) - (sizes.get? i).getD 0 else 0 := by
  have hSum := groupSum_assign group i size sizes.entries k
  rw [total, total, show (sizes.set i size).entries = assign i size sizes.entries from rfl,
    show sizes.get? i = find i sizes.entries from rfl]
  by_cases hk : group i = k
  · simp only [if_pos hk] at hSum ⊢
    omega
  · simp only [if_neg hk] at hSum ⊢
    omega

theorem total_erase (sizes : Dict ι Nat) (i : ι) (k : κ) :
    ((sizes.erase i).total group k : Int) =
      sizes.total group k + if group i = k then -(((sizes.get? i).getD 0 : Nat) : Int) else 0 := by
  have hSum := groupSum_filter group i sizes.nodup k
  have hEntries : (sizes.erase i).entries = sizes.entries.filter fun e => e.1 ≠ i := by
    simp only [erase]
  rw [total, total, hEntries, show sizes.get? i = find i sizes.entries from rfl]
  by_cases hk : group i = k
  · simp only [if_pos hk] at hSum ⊢
    omega
  · simp only [if_neg hk] at hSum ⊢
    omega

end Updates

/-- Add a delta to a sum; a sum that is not positive is dropped. -/
def adjust (rollup : Dict κ Int) (k : κ) (delta : Int) : Dict κ Int :=
  let sum := (rollup.get? k).getD 0 + delta
  if 0 < sum then rollup.set k sum else rollup.erase k

/-- The rollup holds the positive sums. -/
def Sums (rollup : Dict κ Int) (group : ι → κ) (sizes : Dict ι Nat) : Prop :=
  ∀ k, rollup.get? k = if sizes.total group k = 0 then none else some (sizes.total group k : Int)

variable {rollup : Dict κ Int}

theorem Sums.getD {sizes : Dict ι Nat} (h : rollup.Sums group sizes) (k : κ) :
    (rollup.get? k).getD 0 = sizes.total group k := by
  rw [h k]
  split
  · rename_i hZero
    rw [hZero]
    rfl
  · rfl

theorem Sums.empty : (Dict.empty : Dict κ Int).Sums group (Dict.empty : Dict ι Nat) := fun _ => rfl

variable {sizes' : Dict ι Nat}

theorem Sums.adjust {sizes : Dict ι Nat} {i : ι} {delta : Int} (h : rollup.Sums group sizes)
    (hTotal : ∀ k, (sizes'.total group k : Int) =
      sizes.total group k + if group i = k then delta else 0)
    : (rollup.adjust (group i) delta).Sums group sizes' := by
  intro k
  have hSum := hTotal k
  unfold Dict.adjust
  dsimp only
  rw [h.getD]
  by_cases hk : group i = k
  · subst hk
    rw [if_pos rfl] at hSum
    rw [← hSum]
    by_cases hZero : sizes'.total group (group i) = 0
    · rw [if_neg (by omega), if_pos hZero, get?_erase_self]
    · rw [if_pos (by omega), if_neg hZero, get?_set_self]
  · rw [if_neg hk, Int.add_zero] at hSum
    have hSame : sizes'.total group k = sizes.total group k := by omega
    rw [hSame, ← h k]
    split
    · rw [get?_set_ne _ hk]
    · rw [get?_erase_ne _ hk]

theorem Sums.nonneg {sizes : Dict ι Nat} {i : ι} {delta : Int} (h : rollup.Sums group sizes)
    (hTotal : ∀ k, (sizes'.total group k : Int) =
      sizes.total group k + if group i = k then delta else 0)
    : 0 ≤ (rollup.get? (group i)).getD 0 + delta := by
  have hSum := hTotal (group i)
  rw [if_pos rfl] at hSum
  rw [h.getD]
  omega

theorem Sums.get?_eq {rollup' : Dict κ Int} {sizes : Dict ι Nat} (h : rollup.Sums group sizes)
    (h' : rollup'.Sums group sizes) (k : κ) : rollup'.get? k = rollup.get? k := by
  rw [h k, h' k]

end Dict

end LMCache.Lib
