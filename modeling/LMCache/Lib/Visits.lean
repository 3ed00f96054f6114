import LMCache.Lib.Dict
import Mathlib.Data.List.Count

/-!
# Loops that come back to a key

A loop over a list with repeated keys visits a key as often as the list names it. Every visit
sees what the one before it left, and no visit to another key is seen. So the loop acts on
one key as the iteration of its body, `visits`, and on the outcomes of that key a table that
is written in loop order keeps the last one.

A body that refuses leaves the binding alone. What it then says to one visit it says to all,
so a key is granted once, and told so, exactly if a key that is granted at all is named once.
-/

namespace LMCache.Lib.Dict

open List

variable {κ υ ρ : Type}

section Filed

variable [DecidableEq κ]

/-- The values that a list files under `k`, in order. -/
def filed (k : κ) (l : List (κ × υ)) : List υ :=
  l.filterMap fun e => if e.1 = k then some e.2 else none

@[simp] theorem filed_nil (k : κ) : filed k ([] : List (κ × υ)) = [] := rfl

theorem filed_cons (k : κ) (e : κ × υ) (l : List (κ × υ)) :
    filed k (e :: l) = if e.1 = k then e.2 :: filed k l else filed k l := by
  unfold filed
  by_cases he : e.1 = k <;> simp [he]

theorem filed_append (k : κ) (l l' : List (κ × υ)) :
    filed k (l ++ l') = filed k l ++ filed k l' := filterMap_append

theorem mem_filed_iff {k : κ} {v : υ} {l : List (κ × υ)} : v ∈ filed k l ↔ (k, v) ∈ l := by
  unfold filed
  rw [mem_filterMap]
  constructor
  · rintro ⟨⟨k', v'⟩, hMem, hEq⟩
    split at hEq
    · rename_i hKey
      cases hEq
      cases hKey
      exact hMem
    · cases hEq
  · intro h
    exact ⟨(k, v), h, if_pos rfl⟩

theorem filed_map {α : Type} (key : α → κ) (g : α → υ) (k : κ) (l : List α) :
    filed k (l.map fun a => (key a, g a)) = (l.filter fun a => key a = k).map g := by
  induction l with
  | nil => rfl
  | cons a l ih =>
    rw [map_cons, filed_cons, filter_cons]
    by_cases ha : key a = k <;> simp [ha, ih]

theorem filed_map_snd (g : υ → ρ) (k : κ) (l : List (κ × υ)) :
    filed k (l.map fun e => (e.1, g e.2)) = (filed k l).map g := by
  induction l with
  | nil => rfl
  | cons e l ih =>
    rw [map_cons, filed_cons, filed_cons]
    by_cases he : e.1 = k <;> simp [he, ih]

theorem filed_filterMap (k : κ) (l : List (κ × Option υ)) :
    filed k (l.filterMap fun e => e.2.map fun v => (e.1, v)) = (filed k l).filterMap id := by
  induction l with
  | nil => rfl
  | cons e l ih =>
    rw [filterMap_cons, filed_cons]
    by_cases he : e.1 = k <;> cases hv : e.2 <;> simp [filed_cons, he, ih]

theorem filed_eq_nil_iff {k : κ} {l : List (κ × υ)} : filed k l = [] ↔ k ∉ l.map Prod.fst := by
  induction l with
  | nil => simp
  | cons e l ih =>
    rw [filed_cons, map_cons, mem_cons]
    by_cases he : e.1 = k
    · simp [he]
    · rw [if_neg he, ih]
      simp [Ne.symm he]

theorem get?_foldl_set_filed (l : List (κ × υ)) (d : Dict κ υ) (k : κ) :
    (l.foldl (fun d e => d.set e.1 e.2) d).get? k = (filed k l).getLast?.or (d.get? k) := by
  induction l generalizing d with
  | nil => rfl
  | cons e l ih =>
    rw [foldl_cons, ih, get?_set, filed_cons]
    by_cases he : e.1 = k
    · rw [if_pos he, if_pos he, getLast?_cons]
      cases (filed k l).getLast? <;> rfl
    · rw [if_neg he, if_neg he]

theorem get?_ofList_filed (l : List (κ × υ)) (k : κ) :
    (ofList l).get? k = (filed k l).getLast? := by
  rw [ofList, get?_foldl_set_filed, get?_empty, Option.or_none]

theorem count_map_filter (p : υ → Bool) (l : List (κ × υ)) (k : κ) :
    ((l.filter fun e => p e.2).map Prod.fst).count k = (filed k l).countP p := by
  induction l with
  | nil => rfl
  | cons e l ih =>
    rw [filed_cons, filter_cons]
    by_cases he : e.1 = k <;> cases hp : p e.2 <;> simp [he, hp, ih]

end Filed

/-- The body `f`, run `n` times on one binding: its outcomes, and the binding it leaves. -/
def visits (f : Option υ → ρ × Option υ) : Nat → Option υ → List ρ × Option υ
  | 0, o => ([], o)
  | n + 1, o =>
    let r := f o
    let rest := visits f n r.2
    (r.1 :: rest.1, rest.2)

theorem updateEach_visits [DecidableEq κ] (f : κ → Option υ → ρ × Option υ) (ks : List κ)
    (d : Dict κ υ) (k : κ) :
    (filed k (updateEach f ks d).1, (updateEach f ks d).2.get? k) =
      visits (f k) (ks.count k) (d.get? k) := by
  induction ks generalizing d with
  | nil => rfl
  | cons a ks ih =>
    have hRest := ih (d.put a (f a (d.get? a)).2)
    rw [get?_put] at hRest
    by_cases ha : a = k
    · subst ha
      rw [if_pos rfl] at hRest
      rw [count_cons_self, visits, ← hRest, updateEach, filed_cons, if_pos rfl]
    · rw [if_neg ha] at hRest
      rw [count_cons_of_ne ha, ← hRest, updateEach, filed_cons, if_neg ha]

theorem filed_updateEach [DecidableEq κ] (f : κ → Option υ → ρ × Option υ) (ks : List κ)
    (d : Dict κ υ) (k : κ) : filed k (updateEach f ks d).1 =
      (visits (f k) (ks.count k) (d.get? k)).1 := congrArg Prod.fst (updateEach_visits f ks d k)

theorem get?_updateEach_visits [DecidableEq κ] (f : κ → Option υ → ρ × Option υ) (ks : List κ)
    (d : Dict κ υ) (k : κ) : (updateEach f ks d).2.get? k =
      (visits (f k) (ks.count k) (d.get? k)).2 := congrArg Prod.snd (updateEach_visits f ks d k)

section Visits

variable {f : Option υ → ρ × Option υ} {o : Option υ} {ok : ρ → Bool}

@[simp] theorem visits_length (f : Option υ → ρ × Option υ) (n : Nat) (o : Option υ) :
    (visits f n o).1.length = n := by
  induction n generalizing o with
  | zero => rfl
  | succ n ih => rw [visits, length_cons, ih]

theorem visits_of_kept (h : (f o).2 = o) (n : Nat) :
    visits f n o = (List.replicate n (f o).1, o) := by
  induction n with
  | zero => rfl
  | succ n ih => rw [visits, h, ih, replicate_succ]

theorem visits_binding {P : Option υ → Prop} (hBody : ∀ o, P o → P (f o).2) (n : Nat)
    (h : P o) : P (visits f n o).2 := by
  induction n generalizing o with
  | zero => exact h
  | succ n ih => exact ih (hBody o h)

theorem countP_visits_of_refused (hRefuse : ∀ o, ok (f o).1 = false → (f o).2 = o)
    (h : ok (f o).1 = false) (n : Nat) : (visits f n o).1.countP ok = 0 := by
  rw [visits_of_kept (hRefuse o h), countP_replicate, h]
  rfl

/-- Among `n` visits there is one success, and the last visit is it, or there is none and the
last visit is none: exactly if a first visit that succeeds is the only one. -/
theorem countP_visits_iff (hRefuse : ∀ o, ok (f o).1 = false → (f o).2 = o) (n : Nat) :
    (visits f n o).1.countP ok = (if (visits f n o).1.getLast?.any ok then 1 else 0) ↔
      (ok (f o).1 = true → n ≤ 1) := by
  cases hFirst : ok (f o).1 with
  | false =>
    rw [countP_visits_of_refused hRefuse hFirst, visits_of_kept (hRefuse o hFirst)]
    have hLast : (List.replicate n (f o).1).getLast?.any ok = false := by
      cases n with
      | zero => rfl
      | succ n => simp [getLast?_replicate, hFirst]
    simp [hLast]
  | true =>
    match n with
    | 0 => simp [visits]
    | 1 => simp [visits, hFirst]
    | n + 2 =>
      -- the last visit counts once more, if it counts at all
      have hSplit : (visits f (n + 2) o).1 = (f o).1 :: (visits f (n + 1) (f o).2).1 := rfl
      have hNonempty : (visits f (n + 1) (f o).2).1 ≠ [] := by
        rw [← length_pos_iff, visits_length]
        omega
      have hLast : (visits f (n + 2) o).1.getLast? =
          some ((visits f (n + 1) (f o).2).1.getLast hNonempty) := by
        rw [hSplit, getLast?_cons, getLast?_eq_some_getLast hNonempty]
        rfl
      have hCount : (visits f (n + 2) o).1.countP ok =
          (visits f (n + 1) (f o).2).1.countP ok + 1 := by
        rw [hSplit, countP_cons_of_pos hFirst]
      rw [hLast, hCount, Option.any_some]
      constructor
      · intro hEq
        exfalso
        split at hEq
        · rename_i hOk
          have hPos : 0 < (visits f (n + 1) (f o).2).1.countP ok :=
            countP_pos_iff.mpr ⟨_, getLast_mem hNonempty, hOk⟩
          omega
        · omega
      · intro hLe
        have hTwo := hLe rfl
        omega

end Visits

end LMCache.Lib.Dict
