import Mathlib.Data.Finset.Basic

/-!
# Tables and their copies

A list whose elements have an identity, such as the records of a table without an index.
`upsert` overwrites the first element of the same identity in place or appends, and the first
element of an identity is removed by `List.eraseP`.

A set is changed by insertions and deletions, and the changes reach a copy of it later, in
order. `Follows us hidden base target` says that the copy `base` becomes `target` when the
updates `us` have been applied and the elements of `hidden` are deleted as well: those are
deletions that are not in the list yet.

Only the last update of an element matters. A list that leaves the target as it is therefore
also leads to it from every copy that is right about the elements not updated since.
-/

namespace LMCache.Lib

open List

variable {α ι : Type}

/-- Overwrite the first element that meets `same`, or append. -/
def upsert (same : α → Bool) (a : α) : List α → List α
  | [] => [a]
  | b :: rest => if same b then a :: rest else b :: upsert same a rest

theorem mem_upsert_self (same : α → Bool) (a : α) (l : List α) : a ∈ upsert same a l := by
  induction l with
  | nil => exact mem_singleton_self a
  | cons b rest ih =>
    unfold upsert
    split
    · exact mem_cons_self
    · exact mem_cons_of_mem _ ih

theorem mem_of_mem_upsert {same : α → Bool} {a b : α} {l : List α} (h : b ∈ upsert same a l) :
    b = a ∨ b ∈ l := by
  induction l with
  | nil => exact Or.inl (mem_singleton.mp h)
  | cons c rest ih =>
    unfold upsert at h
    split at h
    · exact (mem_cons.mp h).imp_right (mem_cons_of_mem _)
    · rcases mem_cons.mp h with rfl | hRest
      · exact Or.inr mem_cons_self
      · exact (ih hRest).imp_right (mem_cons_of_mem _)

theorem mem_upsert_of_mem {same : α → Bool} {a b : α} {l : List α} (h : b ∈ l)
    (hOther : same b = false) : b ∈ upsert same a l := by
  induction l with
  | nil => cases h
  | cons c rest ih =>
    unfold upsert
    split
    · rename_i hSame
      rcases mem_cons.mp h with rfl | hRest
      · rw [hOther] at hSame
        cases hSame
      · exact mem_cons_of_mem _ hRest
    · rcases mem_cons.mp h with rfl | hRest
      · exact mem_cons_self
      · exact mem_cons_of_mem _ (ih hRest)

theorem upsert_ne_nil (same : α → Bool) (a : α) (l : List α) : upsert same a l ≠ [] :=
  ne_nil_of_mem (mem_upsert_self same a l)

theorem filter_upsert {same keep : α → Bool} {a : α} {kept : Bool}
    (hSame : ∀ b, same b = true → keep b = kept) (ha : keep a = kept) (l : List α) :
    (upsert same a l).filter keep =
      if kept then upsert same a (l.filter keep) else l.filter keep := by
  induction l with
  | nil => cases kept <;> simp [upsert, ha]
  | cons b rest ih =>
    by_cases hb : same b = true
    · cases kept <;> simp [upsert, hb, ha, hSame b hb]
    · cases hKeep : keep b <;> cases kept <;> simp_all [upsert]

theorem filter_eraseP {same keep : α → Bool} {kept : Bool}
    (hSame : ∀ b, same b = true → keep b = kept) (l : List α) :
    (l.eraseP same).filter keep = if kept then (l.filter keep).eraseP same else l.filter keep := by
  induction l with
  | nil => simp
  | cons b rest ih =>
    by_cases hb : same b = true
    · cases kept <;> simp [hb, hSame b hb]
    · cases hKeep : keep b <;> cases kept <;> simp_all

section Identity

variable [DecidableEq ι] {identity : α → ι} {a : α}

theorem map_upsert (i : ι) (ha : identity a = i) (l : List α) :
    (upsert (fun b => identity b = i) a l).map identity =
      if i ∈ l.map identity then l.map identity else l.map identity ++ [i] := by
  induction l with
  | nil => simp [upsert, ha]
  | cons b rest ih =>
    by_cases hb : identity b = i
    · simp [upsert, hb, ha]
    · simp only [upsert, hb, decide_false, Bool.false_eq_true, if_false, map_cons, ih]
      by_cases hMem : i ∈ rest.map identity
      · simp only [hMem, mem_cons, or_true, if_true]
      · simp only [hMem, mem_cons, or_false, if_false, Ne.symm hb, cons_append]

variable {i : ι} {l : List α}

theorem nodup_upsert (ha : identity a = i) (h : (l.map identity).Nodup) :
    ((upsert (fun b => identity b = i) a l).map identity).Nodup := by
  rw [map_upsert i ha]
  split
  · exact h
  · rename_i hAbsent
    exact nodup_append.mpr ⟨h, nodup_singleton i, fun x hx y hy hEq =>
      hAbsent (by rw [← mem_singleton.mp hy, ← hEq]; exact hx)⟩

theorem find?_upsert (ha : identity a = i) (l : List α) (j : ι) :
    (upsert (fun b => identity b = i) a l).find? (fun b => identity b = j) =
      if j = i then some a else l.find? fun b => identity b = j := by
  induction l with
  | nil =>
    by_cases hj : j = i
    · simp [upsert, ha, hj]
    · simp [upsert, ha, hj, Ne.symm hj]
  | cons b rest ih =>
    by_cases hb : identity b = i
    · by_cases hj : j = i
      · simp [upsert, hb, ha, hj]
      · simp [upsert, hb, ha, hj, Ne.symm hj]
    · by_cases hbj : identity b = j
      · have hj : j ≠ i := fun h => hb (hbj.trans h)
        simp [upsert, hbj, hj]
      · simp [upsert, hb, hbj, ih]

theorem find?_eraseP (h : (l.map identity).Nodup) (i j : ι) :
    (l.eraseP fun b => identity b = i).find? (fun b => identity b = j) =
      if j = i then none else l.find? fun b => identity b = j := by
  induction l with
  | nil => simp
  | cons b rest ih =>
    rw [map_cons, nodup_cons] at h
    by_cases hb : identity b = i
    · rw [eraseP_cons_of_pos (by simpa using hb)]
      by_cases hj : j = i
      · rw [if_pos hj]
        refine find?_eq_none.mpr fun c hc hEq => h.1 ?_
        rw [hb, ← hj]
        have hcj : identity c = j := by simpa using hEq
        exact hcj ▸ mem_map_of_mem hc
      · have hbj : identity b ≠ j := fun hEq => hj (hEq.symm.trans hb)
        simp [hj, hbj]
    · rw [eraseP_cons_of_neg (by simpa using hb)]
      by_cases hbj : identity b = j
      · have hj : j ≠ i := fun hEq => hb (hbj.trans hEq)
        simp [hbj, hj]
      · simp [hbj, ih h.2]

theorem find?_eq_some_iff_mem (h : (l.map identity).Nodup) :
    l.find? (fun b => identity b = i) = some a ↔ a ∈ l ∧ identity a = i := by
  constructor
  · intro hFind
    exact ⟨mem_of_find?_eq_some hFind, by simpa using find?_some hFind⟩
  · rintro ⟨hMem, rfl⟩
    cases hFind : l.find? (fun b => identity b = identity a) with
    | none =>
      have hNone := find?_eq_none.mp hFind a hMem
      simp at hNone
    | some b =>
      have hb : identity b = identity a := by simpa using find?_some hFind
      rw [inj_on_of_nodup_map h (mem_of_find?_eq_some hFind) hMem hb]

theorem mem_upsert_iff (h : (l.map identity).Nodup) {b : α} (ha : identity a = i) :
    b ∈ upsert (fun c => identity c = i) a l ↔ b = a ∨ (b ∈ l ∧ identity b ≠ i) := by
  have hFound := find?_eq_some_iff_mem (nodup_upsert ha h) (i := identity b) (a := b)
  have hOld := find?_eq_some_iff_mem h (i := identity b) (a := b)
  rw [find?_upsert ha] at hFound
  by_cases hb : identity b = i
  · rw [if_pos hb, Option.some.injEq] at hFound
    simp only [and_true] at hFound
    rw [← hFound, eq_comm]
    simp [hb]
  · rw [if_neg hb, hOld] at hFound
    simp only [and_true] at hFound
    have hNe : b ≠ a := fun hEq => hb (hEq ▸ ha)
    simp [← hFound, hb, hNe]

end Identity

variable {α : Type} [DecidableEq α]

structure SetUpdate (α : Type) where
  adds : Bool
  key : α

def SetUpdate.apply (s : Finset α) (u : SetUpdate α) : Finset α :=
  if u.adds then insert u.key s else s.erase u.key

def replay (us : List (SetUpdate α)) (s : Finset α) : Finset α := us.foldl SetUpdate.apply s

theorem mem_apply {s : Finset α} {u : SetUpdate α} {x : α} :
    x ∈ u.apply s ↔ (u.key = x ∧ u.adds = true) ∨ (u.key ≠ x ∧ x ∈ s) := by
  unfold SetUpdate.apply
  by_cases hx : u.key = x
  · subst hx
    split <;> simp_all
  · split <;> simp [hx, Ne.symm hx]

theorem replay_append (us vs : List (SetUpdate α)) (s : Finset α) :
    replay (us ++ vs) s = replay vs (replay us s) := foldl_append

/-- Whether an element is there depends on nothing else. -/
theorem mem_replay_congr {s s' : Finset α} {x : α} (h : x ∈ s ↔ x ∈ s')
    (us : List (SetUpdate α)) : x ∈ replay us s ↔ x ∈ replay us s' := by
  induction us generalizing s s' with
  | nil => exact h
  | cons u us ih =>
    refine ih ?_
    rw [mem_apply, mem_apply, h]

theorem mem_replay_of_not_mem {us : List (SetUpdate α)} {x : α} (h : ∀ u ∈ us, u.key ≠ x)
    (s : Finset α) : x ∈ replay us s ↔ x ∈ s := by
  induction us generalizing s with
  | nil => rfl
  | cons u us ih =>
    rw [show replay (u :: us) s = replay us (u.apply s) from rfl,
      ih fun v hv => h v (mem_cons_of_mem _ hv), mem_apply]
    have hne := h u mem_cons_self
    tauto

theorem mem_replay_of_mem {us : List (SetUpdate α)} {x : α} (h : ∃ u ∈ us, u.key = x)
    (s s' : Finset α) : x ∈ replay us s ↔ x ∈ replay us s' := by
  induction us generalizing s s' with
  | nil =>
    obtain ⟨u, hu, -⟩ := h
    cases hu
  | cons u us ih =>
    by_cases hRest : ∃ v ∈ us, v.key = x
    · exact ih hRest (u.apply s) (u.apply s')
    · have hKey : u.key = x := by
        obtain ⟨v, hv, hvx⟩ := h
        rcases mem_cons.mp hv with rfl | hv
        · exact hvx
        · exact (hRest ⟨v, hv, hvx⟩).elim
      refine mem_replay_congr ?_ us
      rw [mem_apply, mem_apply]
      tauto

/-- After the updates and without the hidden elements, the copy is the target. -/
def Follows (us : List (SetUpdate α)) (hidden base target : Finset α) : Prop :=
  ∀ x, x ∈ target ↔ x ∈ replay us base ∧ x ∉ hidden

namespace Follows

variable {us vs : List (SetUpdate α)} {hidden base base' target : Finset α} {x : α}

theorem refl (s : Finset α) : Follows [] ∅ s s := fun x => by simp [replay]

theorem eq_of_nil (h : Follows [] ∅ base target) : base = target := by
  ext x
  simpa [replay] using (h x).symm

/-- The target never has a hidden element. -/
theorem nil_of_not_hidden (h : ∀ y ∈ target, y ∉ hidden) : Follows [] hidden target target :=
  fun y => ⟨fun hy => ⟨hy, h y hy⟩, fun hy => hy.1⟩

theorem not_hidden (h : Follows us hidden base target) : ∀ y ∈ target, y ∉ hidden :=
  fun y hy => ((h y).mp hy).2

theorem mem_congr (h : Follows us hidden base target) {y : α} (hy : y ∈ base' ↔ y ∈ base) :
    y ∈ target ↔ y ∈ replay us base' ∧ y ∉ hidden := by
  rw [h y, mem_replay_congr hy]

theorem add (h : Follows us hidden base target) (hx : x ∉ hidden)
    (hBase : ∀ y, y ≠ x → (y ∈ base' ↔ y ∈ base)) :
    Follows (us ++ [⟨true, x⟩]) hidden base' (insert x target) := by
  intro y
  rw [replay_append, Finset.mem_insert, show replay [⟨true, x⟩] (replay us base') =
    SetUpdate.apply (replay us base') ⟨true, x⟩ from rfl, mem_apply]
  by_cases hy : y = x
  · subst hy
    simp [hx]
  · simp [hy, Ne.symm hy, h.mem_congr (hBase y hy)]

theorem erase (h : Follows us hidden base target) (hBase : ∀ y, y ≠ x → (y ∈ base' ↔ y ∈ base)) :
    Follows (us ++ [⟨false, x⟩]) hidden base' (target.erase x) := by
  intro y
  rw [replay_append, Finset.mem_erase, show replay [⟨false, x⟩] (replay us base') =
    SetUpdate.apply (replay us base') ⟨false, x⟩ from rfl, mem_apply]
  by_cases hy : y = x
  · simp [hy]
  · simp [hy, Ne.symm hy, h.mem_congr (hBase y hy)]

theorem hide (h : Follows us hidden base target) (hBase : ∀ y, y ≠ x → (y ∈ base' ↔ y ∈ base)) :
    Follows us (insert x hidden) base' (target.erase x) := by
  intro y
  rw [Finset.mem_erase, Finset.mem_insert]
  by_cases hy : y = x
  · simp [hy]
  · simp [hy, h.mem_congr (hBase y hy)]

theorem reveal (h : Follows us (insert x hidden) base target)
    (hBase : ∀ y, y ≠ x → (y ∈ base' ↔ y ∈ base)) :
    Follows (us ++ [⟨false, x⟩]) hidden base' target := by
  intro y
  rw [replay_append, show replay [⟨false, x⟩] (replay us base') =
    SetUpdate.apply (replay us base') ⟨false, x⟩ from rfl, mem_apply]
  by_cases hy : y = x
  · subst hy
    simp [h y]
  · rw [h.mem_congr (hBase y hy), Finset.mem_insert]
    simp [hy, Ne.symm hy]

theorem tail (h : Follows (us ++ vs) hidden target target) : Follows vs hidden target target := by
  intro y
  by_cases hUpdated : ∃ u ∈ vs, u.key = y
  · rw [h y, replay_append, mem_replay_of_mem hUpdated _ target]
  · push Not at hUpdated
    rw [mem_replay_of_not_mem hUpdated]
    exact ⟨fun hy => ⟨hy, h.not_hidden y hy⟩, fun hy => hy.1⟩

theorem extend (h : Follows (us ++ vs) hidden target target)
    (hSince : Follows vs hidden base target) : Follows (us ++ vs) hidden base target := by
  intro y
  by_cases hUpdated : ∃ u ∈ vs, u.key = y
  · rw [hSince y, replay_append, mem_replay_of_mem hUpdated (replay us base) base]
  · push Not at hUpdated
    by_cases hHidden : y ∈ hidden
    · simp only [hHidden, not_true, and_false, iff_false]
      exact fun hy => h.not_hidden y hy hHidden
    · have hBase : y ∈ base ↔ y ∈ target := by
        have := hSince y
        rw [mem_replay_of_not_mem hUpdated] at this
        tauto
      rw [h y, mem_replay_congr hBase]

end Follows

end LMCache.Lib
