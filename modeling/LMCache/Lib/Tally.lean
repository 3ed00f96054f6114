import LMCache.Lib.Dict
import Mathlib.Algebra.BigOperators.Group.List.Basic
import Mathlib.Algebra.GroupWithZero.Nat
import Mathlib.Data.List.SplitBy

/-!
# Groups and sums

Two ways to group: a dictionary of lists filled by a loop, and splitting a list into runs of
equal keys. In both, a group holds items of one key. A loop over the groups that may fail
is a `mapM` in `Option`.

A weight is summed over the bindings of a dictionary, where an assignment and a deletion change
one term, or over a list of items, group by group.
-/

namespace LMCache.Lib

open List

variable {α κ : Type} [DecidableEq κ]

/-- A loop that appends every item to the list filed under its key. -/
def collect (key : α → κ) (items : List α) : Dict κ (List α) :=
  items.foldl (fun groups a => groups.set (key a) ((groups.get? (key a)).getD [] ++ [a])) Dict.empty

theorem get?_foldl_collect (key : α → κ) (items : List α) (groups : Dict κ (List α)) (k : κ) :
    (items.foldl (fun groups a => groups.set (key a) ((groups.get? (key a)).getD [] ++ [a]))
        groups).get? k =
      if items.filter (fun a => key a = k) = [] then groups.get? k
      else some ((groups.get? k).getD [] ++ items.filter fun a => key a = k) := by
  induction items generalizing groups with
  | nil => simp
  | cons a items ih =>
    rw [foldl_cons, ih, Dict.get?_set, filter_cons]
    by_cases hKey : key a = k
    · subst hKey
      by_cases hRest : items.filter (fun b => key b = key a) = []
      · simp [hRest]
      · simp [hRest]
    · simp [hKey]

/-- The group of `k` has the items of that key, in order. -/
theorem get?_collect_eq_some_iff {key : α → κ} {items : List α} {k : κ} {group : List α} :
    (collect key items).get? k = some group ↔
      items.filter (fun a => key a = k) ≠ [] ∧ group = items.filter fun a => key a = k := by
  rw [collect, get?_foldl_collect]
  have hEmpty : (Dict.empty : Dict κ (List α)).get? k = none := rfl
  rw [hEmpty, Option.getD_none, nil_append]
  split
  · rename_i hNone
    exact ⟨nofun, fun h => absurd hNone h.1⟩
  · rename_i hSome
    exact ⟨fun h => ⟨hSome, (Option.some.inj h).symm⟩, fun h => congrArg some h.2.symm⟩

theorem key_eq_of_mem_splitBy {key : α → κ} {items group : List α}
    (hGroup : group ∈ items.splitBy fun a b => key a == key b) {a b : α} (ha : a ∈ group)
    (hb : b ∈ group) : key a = key b := by
  have hChain : group.IsChain fun a b => key a = key b := by
    simpa using isChain_of_mem_splitBy hGroup
  have hPair : group.Pairwise fun a b => key a = key b :=
    isChain_iff_pairwise.mp hChain
  have hFlip : group.Pairwise (flip fun a b => key a = key b) := hPair.imp Eq.symm
  exact List.Pairwise.forall_of_forall_of_flip (R := fun a b => key a = key b) (fun _ _ => rfl)
    hPair hFlip ha hb

section Loop

variable {β : Type} {f : α → Option β}

theorem mapM_eq_some {items : List α} {results : List β} (h : items.mapM f = some results) :
    (∀ b ∈ results, ∃ a ∈ items, f a = some b) ∧ ∀ a ∈ items, ∃ b ∈ results, f a = some b := by
  induction items generalizing results with
  | nil =>
    obtain rfl : [] = results := Option.some.inj h
    exact ⟨nofun, nofun⟩
  | cons a items ih =>
    rw [mapM_cons] at h
    obtain ⟨b, hHead, h⟩ := Option.bind_eq_some_iff.mp h
    obtain ⟨rest, hRest, h⟩ := Option.bind_eq_some_iff.mp h
    obtain rfl : b :: rest = results := Option.some.inj h
    obtain ⟨hFrom, hTo⟩ := ih hRest
    constructor
    · intro x hx
      rcases mem_cons.mp hx with rfl | hx
      · exact ⟨a, mem_cons_self, hHead⟩
      · obtain ⟨a', ha', hf⟩ := hFrom x hx
        exact ⟨a', mem_cons_of_mem _ ha', hf⟩
    · intro x hx
      rcases mem_cons.mp hx with rfl | hx
      · exact ⟨b, mem_cons_self, hHead⟩
      · obtain ⟨b', hb', hf⟩ := hTo x hx
        exact ⟨b', mem_cons_of_mem _ hb', hf⟩

theorem exists_mapM {items : List α} (h : ∀ a ∈ items, ∃ b, f a = some b) :
    ∃ results, items.mapM f = some results := by
  induction items with
  | nil => exact ⟨[], rfl⟩
  | cons a items ih =>
    obtain ⟨b, hHead⟩ := h a mem_cons_self
    obtain ⟨rest, hRest⟩ := ih fun a' ha' => h a' (mem_cons_of_mem _ ha')
    exact ⟨b :: rest, by rw [mapM_cons, hHead, hRest]; rfl⟩

end Loop

namespace Dict

section Tally

variable {κ υ : Type} [DecidableEq κ]

/-- The weights of the bindings, summed. -/
def tally (w : κ → υ → Nat) (d : Dict κ υ) : Nat := (d.entries.map fun e => w e.1 e.2).sum

omit [DecidableEq κ] in
theorem tally_empty (w : κ → υ → Nat) : (empty : Dict κ υ).tally w = 0 := rfl

variable {w : κ → υ → Nat} {d : Dict κ υ}

omit [DecidableEq κ] in
theorem tally_perm {d' : Dict κ υ} (h : d.entries.Perm d'.entries) :
    d.tally w = d'.tally w := (h.map _).sum_eq

theorem tally_erase {k : κ} {v : υ} (h : d.get? k = some v) :
    d.tally w = w k v + (d.erase k).tally w := by
  rw [tally, ((entries_perm_erase h).map _).sum_eq, map_cons, sum_cons]
  rfl

theorem tally_erase_of_get?_eq_none {k : κ} (h : d.get? k = none) :
    (d.erase k).tally w = d.tally w :=
  tally_perm (erase_of_get?_eq_none h)

theorem tally_set (w : κ → υ → Nat) (d : Dict κ υ) (k : κ) (v : υ) :
    (d.set k v).tally w = w k v + (d.erase k).tally w := by
  rw [tally, ((entries_set_perm d k v).map _).sum_eq, map_cons, sum_cons]
  rfl

theorem tally_set_new {k : κ} (h : d.get? k = none) (v : υ) :
    (d.set k v).tally w = w k v + d.tally w := by
  rw [tally_set, tally_erase_of_get?_eq_none h]

theorem tally_set_old {k : κ} {v : υ} (h : d.get? k = some v) (v' : υ) :
    (d.set k v').tally w + w k v = d.tally w + w k v' := by
  rw [tally_set, tally_erase h]
  omega

end Tally

section Groups

variable {α κ : Type}

def weightOf (counts : α → Bool) (weight : α → Nat) (items : List α) : Nat :=
  (items.map fun a => if counts a then weight a else 0).sum

theorem weightOf_cons (counts : α → Bool) (weight : α → Nat) (a : α) (items : List α) :
    weightOf counts weight (a :: items) =
      (if counts a then weight a else 0) + weightOf counts weight items := by
  rw [weightOf, map_cons, sum_cons]
  rfl

theorem weightOf_append (counts : α → Bool) (weight : α → Nat) (items items' : List α) :
    weightOf counts weight (items ++ items') =
      weightOf counts weight items + weightOf counts weight items' := by
  rw [weightOf, map_append, sum_append]
  rfl

variable [DecidableEq κ]

/-- The weights added up by group. -/
def sumBy (group : α → κ) (weight : α → Nat) (items : List α) : Dict κ Int :=
  items.foldl (fun sums a => sums.set (group a) ((sums.get? (group a)).getD 0 + weight a)) empty

theorem getD_sumBy (group : α → κ) (weight : α → Nat) (items : List α) (k : κ) :
    ((sumBy group weight items).get? k).getD 0 =
      (weightOf (fun a => group a = k) weight items : Int) := by
  suffices ∀ sums : Dict κ Int, ((items.foldl (fun sums a =>
      sums.set (group a) ((sums.get? (group a)).getD 0 + weight a)) sums).get? k).getD 0 =
        (sums.get? k).getD 0 + (weightOf (fun a => group a = k) weight items : Int) by
    rw [sumBy, this, empty]
    simp [get?, find]
  intro sums
  induction items generalizing sums with
  | nil => simp [weightOf]
  | cons a rest ih =>
    rw [foldl_cons, ih, weightOf_cons, get?_set]
    by_cases hk : group a = k
    · subst hk
      simp only [if_true, Option.getD_some, decide_true]
      omega
    · simp [hk]

theorem get?_foldl_put {υ ω : Type} (g : Option υ → ω → Option υ) {l : List (κ × ω)}
    (hl : (l.map Prod.fst).Nodup) (d : Dict κ υ) (k : κ) :
    (l.foldl (fun d e => d.put e.1 (g (d.get? e.1) e.2)) d).get? k =
      match find k l with
      | none => d.get? k
      | some x => g (d.get? k) x := by
  induction l generalizing d with
  | nil => rfl
  | cons e rest ih =>
    obtain ⟨hNotMem, hRest⟩ := nodup_cons.mp hl
    rw [foldl_cons, ih hRest, get?_put]
    by_cases he : e.1 = k
    · have hNone : find k rest = none := find_eq_none_iff.mpr (he ▸ hNotMem)
      rw [hNone, find, if_pos he, if_pos he, he]
    · rw [find, if_neg he, if_neg he]

end Groups

end Dict

end LMCache.Lib
