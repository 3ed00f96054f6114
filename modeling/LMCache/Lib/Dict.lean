import Mathlib.Data.List.Nodup

/-!
# Insertion-ordered dictionaries

A finite map that remembers the order in which its keys were first inserted, with the
operations of an ordered hash table: lookup, assignment, deletion and removal of the
first or the last entry. Assignment to a present key keeps its position.

Distinctness of the keys is a field, so no operation can build a dictionary with two
entries for one key. Every lemma about an operation is stated through `get?`; only the
two removal operations also need the list of entries.
-/

namespace LMCache.Lib

open List

/-- An association list with distinct keys, in insertion order. -/
structure Dict (κ υ : Type) where
  entries : List (κ × υ)
  nodup : (entries.map Prod.fst).Nodup

namespace Dict

variable {κ υ : Type}

section Assoc

variable [DecidableEq κ]

/-- First value filed under `k`. -/
def find (k : κ) : List (κ × υ) → Option υ
  | [] => none
  | e :: rest => if e.1 = k then some e.2 else find k rest

/-- Overwrite the entry of `k` in place, or append one. -/
def assign (k : κ) (v : υ) : List (κ × υ) → List (κ × υ)
  | [] => [(k, v)]
  | e :: rest => if e.1 = k then (k, v) :: rest else e :: assign k v rest

theorem find_assign (k k' : κ) (v : υ) (l : List (κ × υ)) :
    find k' (assign k v l) = if k = k' then some v else find k' l := by
  induction l with
  | nil => simp [assign, find]
  | cons e rest ih =>
    by_cases he : e.1 = k
    · subst he
      by_cases hk : e.1 = k' <;> simp [assign, find, hk]
    · by_cases hk' : e.1 = k'
      · subst hk'
        simp [assign, he, find, Ne.symm he]
      · simp [assign, he, find, hk', ih]

theorem find_filter_key (p : κ → Bool) (k : κ) (l : List (κ × υ)) :
    find k (l.filter fun e => p e.1) = if p k then find k l else none := by
  induction l with
  | nil => simp [find]
  | cons e rest ih =>
    by_cases he : e.1 = k
    · subst he
      by_cases hp : p e.1 = true
      · simp [hp, find]
      · simp [hp, ih]
    · by_cases hp : p e.1 = true
      · simp [hp, find, he, ih]
      · simp [hp, find, he, ih]

theorem find_map {α : Type} (key : α → κ) (g : α → υ) (k : κ) (l : List α) :
    find k (l.map fun a => (key a, g a)) = (l.find? fun a => key a = k).map g := by
  induction l with
  | nil => simp [find]
  | cons a rest ih =>
    by_cases ha : key a = k
    · simp [find, ha]
    · simp [find, ha, ih]

theorem find_filterMap_pair (g : κ → Option υ) (ks : List κ) (k : κ) :
    find k (ks.filterMap fun a => (g a).map fun r => (a, r)) = if k ∈ ks then g k else none := by
  induction ks with
  | nil => simp [find]
  | cons a ks ih =>
    by_cases ha : a = k
    · subst ha
      cases hg : g a with
      | none =>
        simp only [filterMap_cons, hg, Option.map_none, ih, mem_cons, true_or, if_true]
        split <;> rfl
      | some r => simp [hg, find]
    · cases hg : g a with
      | none => simp [hg, ih, Ne.symm ha]
      | some r => simp [hg, find, ha, ih, Ne.symm ha]

omit [DecidableEq κ] in
theorem map_fst_filterMap_pair (g : κ → Option υ) (ks : List κ) :
    (ks.filterMap fun a => (g a).map fun r => (a, r)).map Prod.fst =
      ks.filter fun a => (g a).isSome := by
  induction ks with
  | nil => rfl
  | cons a ks ih => cases hg : g a <;> simp [hg, ih]

variable {l : List (κ × υ)}

theorem find_eq_none_iff {k : κ} : find k l = none ↔ k ∉ l.map Prod.fst := by
  induction l with
  | nil => simp [find]
  | cons e rest ih =>
    by_cases he : e.1 = k
    · simp [find, he]
    · simp [find, he, ih, Ne.symm he]

theorem mem_of_find {k : κ} {v : υ} (h : find k l = some v) : (k, v) ∈ l := by
  induction l with
  | nil => cases h
  | cons e rest ih =>
    by_cases he : e.1 = k
    · rw [find, if_pos he] at h
      cases h
      rw [← he]
      exact mem_cons_self
    · rw [find, if_neg he] at h
      exact mem_cons_of_mem _ (ih h)

theorem find_eq_some_iff {k : κ} {v : υ} (h : (l.map Prod.fst).Nodup) :
    find k l = some v ↔ (k, v) ∈ l := by
  induction l with
  | nil => simp [find]
  | cons e rest ih =>
    obtain ⟨k', v'⟩ := e
    simp only [map_cons, nodup_cons] at h
    by_cases he : k' = k
    · subst he
      simp only [find, if_true, Option.some.injEq, mem_cons, Prod.mk.injEq, true_and]
      constructor
      · intro hv
        exact Or.inl hv.symm
      · rintro (hv | hmem)
        · exact hv.symm
        · exact (h.1 (mem_map.mpr ⟨_, hmem, rfl⟩)).elim
    · simp [find, he, ih h.2, Ne.symm he]

theorem keys_assign (k : κ) (v : υ) (l : List (κ × υ)) :
    (assign k v l).map Prod.fst =
      if k ∈ l.map Prod.fst then l.map Prod.fst else l.map Prod.fst ++ [k] := by
  induction l with
  | nil => simp [assign]
  | cons e rest ih =>
    by_cases he : e.1 = k
    · simp [assign, he]
    · by_cases hm : k ∈ rest.map Prod.fst
      · simp only [assign, he, if_false, map_cons, ih, hm, if_true]
        rw [if_pos (mem_cons_of_mem _ hm)]
      · simp only [assign, he, if_false, map_cons, ih, hm]
        rw [if_neg (by simpa [Ne.symm he] using hm)]
        rfl

end Assoc

variable {d d' : Dict κ υ}

theorem ext (h : d.entries = d'.entries) : d = d' := by
  cases d
  cases d'
  cases h
  rfl

def empty : Dict κ υ := ⟨[], by simp⟩

instance : Inhabited (Dict κ υ) := ⟨empty⟩

instance [DecidableEq κ] [DecidableEq υ] : DecidableEq (Dict κ υ) := fun d d' =>
  decidable_of_iff (d.entries = d'.entries) ⟨ext, fun h => h ▸ rfl⟩

def keys (d : Dict κ υ) : List κ := d.entries.map Prod.fst

def values (d : Dict κ υ) : List υ := d.entries.map Prod.snd

def size (d : Dict κ υ) : Nat := d.entries.length

theorem nodup_keys (d : Dict κ υ) : d.keys.Nodup := d.nodup

def filter (p : κ → υ → Bool) (d : Dict κ υ) : Dict κ υ :=
  ⟨d.entries.filter fun e => p e.1 e.2, d.nodup.sublist (filter_sublist.map _)⟩

def popFirst (d : Dict κ υ) : Option ((κ × υ) × Dict κ υ) :=
  match d with
  | ⟨[], _⟩ => none
  | ⟨e :: rest, h⟩ => some (e, ⟨rest, (nodup_cons.mp h).2⟩)

theorem popFirst_eq_none (h : d.popFirst = none) : d.entries = [] := by
  obtain ⟨entries, _⟩ := d
  cases entries with
  | nil => rfl
  | cons e rest => cases h

theorem entries_of_popFirst {rest : Dict κ υ} {e : κ × υ} (h : d.popFirst = some (e, rest)) :
    d.entries = e :: rest.entries := by
  obtain ⟨entries, _⟩ := d
  cases entries with
  | nil => cases h
  | cons first others =>
    cases h
    rfl

variable [DecidableEq κ]

def get? (d : Dict κ υ) (k : κ) : Option υ := find k d.entries

def contains (d : Dict κ υ) (k : κ) : Bool := (d.get? k).isSome

def set (d : Dict κ υ) (k : κ) (v : υ) : Dict κ υ :=
  ⟨assign k v d.entries, by
    rw [keys_assign]
    split
    · exact d.nodup
    · rename_i hk
      exact nodup_append.mpr ⟨d.nodup, by simp, by
        intro a ha b hb
        rw [mem_singleton.mp hb]
        rintro rfl
        exact hk ha⟩⟩

/-- Item deletion; absent keys are ignored. -/
def erase (d : Dict κ υ) (k : κ) : Dict κ υ :=
  ⟨d.entries.filter fun e => decide (e.1 ≠ k), d.nodup.sublist (filter_sublist.map _)⟩

@[simp] theorem get?_empty (k : κ) : (empty : Dict κ υ).get? k = none := rfl

theorem get?_set (d : Dict κ υ) (k k' : κ) (v : υ) :
    (d.set k v).get? k' = if k = k' then some v else d.get? k' := find_assign k k' v d.entries

variable {k k' : κ}

@[simp] theorem get?_set_self (d : Dict κ υ) (k : κ) (v : υ) : (d.set k v).get? k = some v := by
  simp [get?_set]

theorem get?_set_ne (d : Dict κ υ) (h : k ≠ k') (v : υ) : (d.set k v).get? k' = d.get? k' := by
  simp [get?_set, h]

theorem get?_erase (d : Dict κ υ) (k k' : κ) :
    (d.erase k).get? k' = if k = k' then none else d.get? k' := by
  have h := find_filter_key (fun a => decide (a ≠ k)) k' d.entries
  by_cases hk : k = k'
  · subst hk
    simpa [get?, erase] using h
  · simpa [get?, erase, hk, Ne.symm hk] using h

@[simp] theorem get?_erase_self (d : Dict κ υ) (k : κ) : (d.erase k).get? k = none := by
  simp [get?_erase]

theorem get?_erase_ne (d : Dict κ υ) (h : k ≠ k') : (d.erase k).get? k' = d.get? k' := by
  simp [get?_erase, h]

variable {v : υ}

theorem get?_set_cases {w : υ} (h : (d.set k v).get? k' = some w) :
    k = k' ∧ v = w ∨ k ≠ k' ∧ d.get? k' = some w := by
  rw [get?_set] at h
  split at h
  · exact Or.inl ⟨‹_›, Option.some.inj h⟩
  · exact Or.inr ⟨‹_›, h⟩

theorem get?_erase_cases (h : (d.erase k).get? k' = some v) : k ≠ k' ∧ d.get? k' = some v := by
  rw [get?_erase] at h
  split at h
  · cases h
  · exact ⟨‹_›, h⟩

theorem get?_eq_some_iff : d.get? k = some v ↔ (k, v) ∈ d.entries := find_eq_some_iff d.nodup

theorem get?_eq_none_iff : d.get? k = none ↔ k ∉ d.keys :=
  find_eq_none_iff

theorem mem_keys_iff : k ∈ d.keys ↔ ∃ v, d.get? k = some v := by
  rw [← not_iff_not, ← get?_eq_none_iff, Option.eq_none_iff_forall_ne_some]
  simp

theorem contains_iff : d.contains k = true ↔ ∃ v, d.get? k = some v := by
  rw [contains, Option.isSome_iff_exists]

theorem not_contains_iff : ¬ d.contains k = true ↔ d.get? k = none := by
  rw [contains, Bool.not_eq_true, Option.isSome_eq_false_iff, Option.isNone_iff_eq_none]

theorem perm_of_get?_eq (h : ∀ k, d'.get? k = d.get? k) : d'.entries.Perm d.entries := by
  rw [perm_ext_iff_of_nodup d'.nodup.of_map d.nodup.of_map]
  rintro ⟨k, v⟩
  rw [← get?_eq_some_iff, ← get?_eq_some_iff, h]

theorem entries_perm_erase (h : d.get? k = some v) :
    d.entries.Perm ((k, v) :: (d.erase k).entries) := by
  have hNodup : ((k, v) :: (d.erase k).entries).Nodup := by
    refine nodup_cons.mpr ⟨fun hMem => ?_, (d.erase k).nodup.of_map⟩
    have hGet := get?_eq_some_iff.mpr hMem
    rw [get?_erase_self] at hGet
    cases hGet
  rw [perm_ext_iff_of_nodup d.nodup.of_map hNodup]
  rintro ⟨k', v'⟩
  rw [mem_cons, ← get?_eq_some_iff, ← get?_eq_some_iff, get?_erase]
  by_cases hEq : k = k'
  · subst hEq
    rw [if_pos rfl, h]
    simp [eq_comm]
  · rw [if_neg hEq]
    simp [Ne.symm hEq]

theorem entries_set_perm (d : Dict κ υ) (k : κ) (v : υ) :
    (d.set k v).entries.Perm ((k, v) :: (d.erase k).entries) := by
  refine (entries_perm_erase (get?_set_self d k v)).trans (List.Perm.cons _ ?_)
  apply perm_of_get?_eq
  intro k'
  rw [get?_erase, get?_erase, get?_set]
  split <;> rfl

theorem erase_of_get?_eq_none (h : d.get? k = none) : (d.erase k).entries.Perm d.entries := by
  apply perm_of_get?_eq
  intro k'
  rw [get?_erase]
  split
  · rename_i hEq
    rw [← hEq, h]
  · rfl

theorem keys_set (d : Dict κ υ) (k : κ) (v : υ) :
    (d.set k v).keys = if k ∈ d.keys then d.keys else d.keys ++ [k] := keys_assign k v d.entries

theorem get?_filter (p : κ → υ → Bool) (d : Dict κ υ) (k : κ) :
    (d.filter p).get? k = (d.get? k).filter (p k) := by
  cases h : d.get? k with
  | none =>
    rw [Option.filter_none, get?_eq_none_iff]
    intro hm
    obtain ⟨e, he, hk⟩ := mem_map.mp hm
    exact get?_eq_none_iff.mp h (mem_map.mpr ⟨e, mem_of_mem_filter he, hk⟩)
  | some v =>
    have hmem := get?_eq_some_iff.mp h
    by_cases hp : p k v = true
    · rw [Option.filter_some, if_pos hp, get?_eq_some_iff]
      exact mem_filter.mpr ⟨hmem, hp⟩
    · rw [Option.filter_some, if_neg hp, get?_eq_none_iff]
      intro hm
      obtain ⟨e, he, hk⟩ := mem_map.mp hm
      obtain ⟨heMem, hep⟩ := mem_filter.mp he
      subst hk
      have hv : v = e.2 := Option.some.inj (h.symm.trans (get?_eq_some_iff.mpr heMem))
      exact hp (hv ▸ hep)

/-- Recompute every value, dropping the keys for which the result is `none`. -/
def filterMapValues {ω : Type} (f : υ → Option ω) (d : Dict κ υ) : Dict κ ω :=
  ⟨d.entries.filterMap fun e => (f e.2).map fun v => (e.1, v), by
    refine d.nodup.sublist ?_
    induction d.entries with
    | nil => exact List.Sublist.slnil
    | cons e rest ih =>
      cases h : f e.2 with
      | none =>
        rw [filterMap_cons, h]
        exact ih.trans (sublist_cons_self _ _)
      | some v =>
        rw [filterMap_cons, h]
        exact ih.cons_cons _⟩

theorem get?_filterMapValues {ω : Type} (f : υ → Option ω) (d : Dict κ υ) (k : κ) (v : ω) :
    (d.filterMapValues f).get? k = some v ↔ ∃ u, d.get? k = some u ∧ f u = some v := by
  rw [get?_eq_some_iff, filterMapValues, mem_filterMap]
  constructor
  · rintro ⟨⟨k', u⟩, hMem, hMap⟩
    obtain ⟨v', hf, hEq⟩ := Option.map_eq_some_iff.mp hMap
    cases hEq
    exact ⟨u, get?_eq_some_iff.mpr hMem, hf⟩
  · rintro ⟨u, hGet, hf⟩
    exact ⟨(k, u), get?_eq_some_iff.mp hGet, by rw [hf]; rfl⟩

def mapValues {ω : Type} (f : υ → ω) (d : Dict κ υ) : Dict κ ω :=
  ⟨d.entries.map fun e => (e.1, f e.2), by simpa [map_map, Function.comp_def] using d.nodup⟩

theorem get?_mapValues {ω : Type} (f : υ → ω) (d : Dict κ υ) (k : κ) :
    (d.mapValues f).get? k = (d.get? k).map f := by
  change find k (d.entries.map fun e => (e.1, f e.2)) = (find k d.entries).map f
  induction d.entries with
  | nil => rfl
  | cons e rest ih =>
    by_cases he : e.1 = k
    · simp [find, he]
    · simp [find, he, ih]

theorem mem_keys_set : k' ∈ (d.set k v).keys ↔ k' = k ∨ k' ∈ d.keys := by
  rw [mem_keys_iff, mem_keys_iff]
  by_cases hk : k = k'
  · subst hk
    simp
  · simp [get?_set_ne _ hk, Ne.symm hk]

theorem mem_keys_erase : k' ∈ (d.erase k).keys ↔ k' ≠ k ∧ k' ∈ d.keys := by
  rw [mem_keys_iff, mem_keys_iff]
  by_cases hk : k = k'
  · subst hk
    simp
  · simp [get?_erase_ne _ hk, Ne.symm hk]

theorem mem_values_iff : v ∈ d.values ↔ ∃ k, d.get? k = some v := by
  rw [values, mem_map]
  constructor
  · rintro ⟨⟨k, u⟩, hMem, rfl⟩
    exact ⟨k, get?_eq_some_iff.mpr hMem⟩
  · rintro ⟨k, hGet⟩
    exact ⟨(k, v), get?_eq_some_iff.mp hGet, rfl⟩

/-- The dictionary built by assigning the pairs of a list in order. -/
def ofList (l : List (κ × υ)) : Dict κ υ := l.foldl (fun d e => d.set e.1 e.2) empty

theorem get?_foldl_set (l : List (κ × υ)) (hl : (l.map Prod.fst).Nodup) (d : Dict κ υ) (k : κ) :
    (l.foldl (fun d e => d.set e.1 e.2) d).get? k = (find k l).or (d.get? k) := by
  induction l generalizing d with
  | nil => simp [find]
  | cons e rest ih =>
    obtain ⟨hNotMem, hRest⟩ := nodup_cons.mp hl
    rw [foldl_cons, ih hRest, get?_set]
    by_cases he : e.1 = k
    · have hNone : find k rest = none := find_eq_none_iff.mpr (he ▸ hNotMem)
      simp [find, he, hNone]
    · simp [find, he]

theorem get?_ofList (l : List (κ × υ)) (hl : (l.map Prod.fst).Nodup) (k : κ) :
    (ofList l).get? k = find k l := by
  rw [ofList, get?_foldl_set l hl]
  simp

variable {l : List (κ × υ)}

theorem assign_of_not_mem (h : k ∉ l.map Prod.fst) (v : υ) : assign k v l = l ++ [(k, v)] := by
  induction l with
  | nil => rfl
  | cons e rest ih =>
    simp only [map_cons, mem_cons, not_or] at h
    rw [assign, if_neg (Ne.symm h.1), ih h.2, cons_append]

theorem entries_set_of_get?_eq_none (h : d.get? k = none) (v : υ) :
    (d.set k v).entries = d.entries ++ [(k, v)] :=
  assign_of_not_mem (get?_eq_none_iff.mp h) v

theorem entries_foldl_set (l : List (κ × υ)) (d : Dict κ υ)
    (h : (d.entries.map Prod.fst ++ l.map Prod.fst).Nodup) :
    (l.foldl (fun d e => d.set e.1 e.2) d).entries = d.entries ++ l := by
  induction l generalizing d with
  | nil => simp
  | cons e rest ih =>
    have hNot : e.1 ∉ d.entries.map Prod.fst := by
      intro hMem
      exact (nodup_append.mp h).2.2 e.1 hMem e.1 (by simp) rfl
    have hSet : (d.set e.1 e.2).entries = d.entries ++ [e] := assign_of_not_mem hNot e.2
    rw [foldl_cons, ih, hSet, append_assoc, singleton_append]
    rw [hSet]
    simpa using h

theorem entries_set_ne_nil (d : Dict κ υ) (k : κ) (v : υ) : (d.set k v).entries ≠ [] :=
  ne_nil_of_mem (get?_eq_some_iff.mp (d.get?_set_self k v))

theorem entries_foldl_set_ne_nil (h : d.entries ≠ [] ∨ l ≠ []) :
    (l.foldl (fun d e => d.set e.1 e.2) d).entries ≠ [] := by
  induction l generalizing d with
  | nil => exact h.resolve_right fun hNe => hNe rfl
  | cons e rest ih => exact ih (Or.inl (entries_set_ne_nil d e.1 e.2))

theorem entries_ofList (h : (l.map Prod.fst).Nodup) : (ofList l).entries = l := by
  rw [ofList, entries_foldl_set l empty (by simpa [empty] using h)]
  rfl

theorem mem_of_get?_foldl_set (h : (l.foldl (fun d e => d.set e.1 e.2) d).get? k = some v) :
    (k, v) ∈ l ∨ (d.get? k = some v ∧ k ∉ l.map Prod.fst) := by
  induction l generalizing d with
  | nil => exact Or.inr ⟨h, by simp⟩
  | cons e rest ih =>
    rcases ih h with hRest | ⟨hSet, hNot⟩
    · exact Or.inl (mem_cons_of_mem _ hRest)
    · rw [get?_set] at hSet
      by_cases he : e.1 = k
      · rw [if_pos he] at hSet
        cases hSet
        left
        rw [← he]
        exact mem_cons_self
      · rw [if_neg he] at hSet
        exact Or.inr ⟨hSet, by simp [Ne.symm he, hNot]⟩

theorem mem_of_get?_ofList (h : (ofList l).get? k = some v) : (k, v) ∈ l := by
  rcases mem_of_get?_foldl_set h with hMem | ⟨hEmpty, -⟩
  · exact hMem
  · cases hEmpty

theorem get?_foldl_set_of_mem (h : k ∈ l.map Prod.fst ∨ ∃ v, d.get? k = some v) :
    ∃ v, (l.foldl (fun d e => d.set e.1 e.2) d).get? k = some v := by
  induction l generalizing d with
  | nil => simpa using h
  | cons e rest ih =>
    apply ih
    by_cases he : e.1 = k
    · exact Or.inr ⟨e.2, by rw [get?_set, if_pos he]⟩
    · rcases h with hMem | ⟨v, hv⟩
      · exact Or.inl (by simpa [Ne.symm he] using hMem)
      · exact Or.inr ⟨v, by rw [get?_set, if_neg he, hv]⟩

theorem exists_get?_ofList (h : (k, v) ∈ l) : ∃ v', (ofList l).get? k = some v' :=
  get?_foldl_set_of_mem (Or.inl (mem_map_of_mem h))

theorem size_set (d : Dict κ υ) (k : κ) (v : υ) :
    (d.set k v).size = if k ∈ d.keys then d.size else d.size + 1 := by
  have hKeys := congrArg List.length (keys_set d k v)
  rw [keys, length_map] at hKeys
  rw [size, hKeys]
  split_ifs
  · rw [keys, length_map, size]
  · rw [length_append, keys, length_map, size, length_singleton]

theorem size_foldl_set_le (l : List (κ × υ)) (d : Dict κ υ) :
    (l.foldl (fun d e => d.set e.1 e.2) d).size ≤ d.size + l.length := by
  induction l generalizing d with
  | nil => exact Nat.le_refl _
  | cons e l ih =>
    have hRest := ih (d.set e.1 e.2)
    have hSet := size_set d e.1 e.2
    rw [foldl_cons, length_cons]
    split_ifs at hSet <;> omega

theorem nodup_of_size_foldl_set
    (h : (l.foldl (fun d e => d.set e.1 e.2) d).size = d.size + l.length) :
    (l.map Prod.fst).Nodup ∧ ∀ k ∈ l.map Prod.fst, k ∉ d.keys := by
  induction l generalizing d with
  | nil => exact ⟨nodup_nil, fun k hk => by cases hk⟩
  | cons e l ih =>
    have hRest := size_foldl_set_le l (d.set e.1 e.2)
    have hSet := size_set d e.1 e.2
    rw [foldl_cons, length_cons] at h
    have hNew : e.1 ∉ d.keys := by
      intro hIn
      rw [if_pos hIn] at hSet
      omega
    rw [if_neg hNew] at hSet
    obtain ⟨hNodup, hFresh⟩ := ih (d := d.set e.1 e.2) (by omega)
    refine ⟨nodup_cons.mpr ⟨fun hIn => ?_, hNodup⟩, fun k hk => ?_⟩
    · exact hFresh e.1 hIn (mem_keys_set.mpr (Or.inl rfl))
    · rcases mem_cons.mp hk with rfl | hMem
      · exact hNew
      · exact fun hIn => hFresh k hMem (mem_keys_set.mpr (Or.inr hIn))

theorem nodup_of_size_ofList (h : (ofList l).size = l.length) : (l.map Prod.fst).Nodup :=
  (nodup_of_size_foldl_set (d := empty) (by rw [← ofList, h]; exact (Nat.zero_add _).symm)).1

theorem values_ofList_iff : (ofList l).values = l.map Prod.snd ↔ (l.map Prod.fst).Nodup := by
  constructor
  · intro h
    have hLength := congrArg List.length h
    rw [values, length_map, length_map] at hLength
    exact nodup_of_size_ofList hLength
  · intro h
    rw [values, entries_ofList h]

theorem get?_ofList_append {l' : List (κ × υ)} (hl : (l.map Prod.fst).Nodup)
    (hl' : (l'.map Prod.fst).Nodup) (k : κ) :
    (ofList (l ++ l')).get? k = (find k l').or (find k l) := by
  rw [ofList, foldl_append, get?_foldl_set l' hl', ← ofList, get?_ofList l hl]

/-- Bind `k` to an optional value: assignment or deletion. -/
def put (d : Dict κ υ) (k : κ) : Option υ → Dict κ υ
  | some v => d.set k v
  | none => d.erase k

theorem get?_put (d : Dict κ υ) (k k' : κ) (o : Option υ) :
    (d.put k o).get? k' = if k = k' then o else d.get? k' := by
  cases o with
  | none => simp [put, get?_erase]
  | some v => simp [put, get?_set]

variable {ρ : Type}

/-- A loop over `keys` whose body decides the outcome and the new binding of one key from
its current binding. Returns the outcomes in loop order and the final dictionary. -/
def updateEach (f : κ → Option υ → ρ × Option υ) :
    List κ → Dict κ υ → List (κ × ρ) × Dict κ υ
  | [], d => ([], d)
  | k :: ks, d =>
    let r := f k (d.get? k)
    let rest := updateEach f ks (d.put k r.2)
    ((k, r.1) :: rest.1, rest.2)

theorem updateEach_keys (f : κ → Option υ → ρ × Option υ) (ks : List κ) (d : Dict κ υ) :
    (updateEach f ks d).1.map Prod.fst = ks := by
  induction ks generalizing d with
  | nil => rfl
  | cons k ks ih => simp [updateEach, ih]

theorem updateEach_invariant (f : κ → Option υ → ρ × Option υ) {I : Dict κ υ → Prop}
    (hBody : ∀ d k, I d → I (d.put k (f k (d.get? k)).2)) (ks : List κ) (h : I d) :
    I (updateEach f ks d).2 := by
  induction ks generalizing d with
  | nil => exact h
  | cons k ks ih => exact ih (hBody d k h)

variable {ks : List κ}

theorem get?_updateEach_of_not_mem (f : κ → Option υ → ρ × Option υ) (hk : k ∉ ks) (d : Dict κ υ) :
    (updateEach f ks d).2.get? k = d.get? k := by
  induction ks generalizing d with
  | nil => rfl
  | cons a ks ih =>
    obtain ⟨hne, hRest⟩ := ne_and_not_mem_of_not_mem_cons hk
    rw [updateEach, ih hRest, get?_put, if_neg (Ne.symm hne)]

variable {P : Option υ → Prop}

theorem updateEach_binding (f : κ → Option υ → ρ × Option υ) (hBody : ∀ o, P o → P (f k o).2)
    (ks : List κ) (h : P (d.get? k)) : P ((updateEach f ks d).2.get? k) := by
  refine updateEach_invariant (I := fun d => P (d.get? k)) f ?_ ks h
  intro d a hd
  rw [get?_put]
  split
  · rename_i hak
    subst hak
    exact hBody _ hd
  · exact hd

/-- An outcome of the loop, with the binding it was decided from and what the rest of the
loop keeps of the binding it left. Keys may repeat. -/
theorem updateEach_mem (f : κ → Option υ → ρ × Option υ) {Q : Option υ → Prop}
    (hP : ∀ o, P o → P (f k o).2) (hQ : ∀ o, Q o → Q (f k o).2) {r : ρ} (h : P (d.get? k))
    (hr : (k, r) ∈ (updateEach f ks d).1) :
    ∃ o, P o ∧ r = (f k o).1 ∧ (Q (f k o).2 → Q ((updateEach f ks d).2.get? k)) := by
  induction ks generalizing d with
  | nil => cases hr
  | cons a ks ih =>
    rcases mem_cons.mp hr with hHead | hTail
    · obtain ⟨rfl, rfl⟩ := Prod.mk.inj hHead
      refine ⟨d.get? k, h, rfl, ?_⟩
      intro hq
      refine updateEach_binding f hQ ks ?_
      rw [get?_put, if_pos rfl]
      exact hq
    · refine ih ?_ hTail
      rw [get?_put]
      split
      · rename_i hak
        subst hak
        exact hP _ h
      · exact h

/-- Over distinct keys the loop is simultaneous: every key is decided from its binding in
the first dictionary. -/
theorem get?_updateEach (f : κ → Option υ → ρ × Option υ) (hks : ks.Nodup) (d : Dict κ υ) (k : κ)
    : (updateEach f ks d).2.get? k = if k ∈ ks then (f k (d.get? k)).2 else d.get? k := by
  induction ks generalizing d with
  | nil => simp [updateEach]
  | cons a ks ih =>
    obtain ⟨hNotMem, hRest⟩ := nodup_cons.mp hks
    rw [updateEach, ih hRest, get?_put]
    by_cases hk : a = k
    · subst hk
      simp [hNotMem]
    · simp [hk, Ne.symm hk]

theorem updateEach_outcomes (f : κ → Option υ → ρ × Option υ) (hks : ks.Nodup) (d : Dict κ υ) :
    (updateEach f ks d).1 = ks.map fun k => (k, (f k (d.get? k)).1) := by
  induction ks generalizing d with
  | nil => rfl
  | cons a ks ih =>
    obtain ⟨hNotMem, hRest⟩ := nodup_cons.mp hks
    simp only [updateEach, ih hRest, map_cons, List.cons.injEq, true_and]
    apply map_congr_left
    intro k hk
    have hne : a ≠ k := fun h => hNotMem (h ▸ hk)
    simp [get?_put, hne]

theorem find_map_pair (g : κ → ρ) (ks : List κ) (k : κ) :
    find k (ks.map fun a => (a, g a)) = if k ∈ ks then some (g k) else none := by
  induction ks with
  | nil => simp [find]
  | cons a ks ih =>
    by_cases ha : a = k
    · subst ha
      simp [find]
    · simp [find, ha, Ne.symm ha, ih]

theorem get?_ofList_updateEach (f : κ → Option υ → ρ × Option υ) (hks : ks.Nodup) (d : Dict κ υ)
    (k : κ) :
    (ofList (updateEach f ks d).1).get? k = if k ∈ ks then some (f k (d.get? k)).1 else none := by
  have hNodup : ((updateEach f ks d).1.map Prod.fst).Nodup := by
    rw [updateEach_keys]
    exact hks
  rw [get?_ofList _ hNodup, updateEach_outcomes f hks, find_map_pair fun a => (f a (d.get? a)).1]

end Dict

end LMCache.Lib
