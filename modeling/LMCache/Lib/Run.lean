import Mathlib.Logic.Relation

/-!
# Runs of a labelled transition system

A system is a step relation `step s l t`: from state `s` the label `l` leads to `t`. A run
is a finite sequence of steps, built at its end, so that a property of the last step reads
off the last constructor. Runs are used through the induction rules below: a state invariant, a
state invariant under a condition that every step of the run meets, and an invariant of the
state and of what an observer has gathered from the labels.
-/

namespace LMCache.Lib

variable {σ ι : Type}

/-- `Run step s ls t`: the labels `ls`, in order, lead from `s` to `t`. -/
inductive Run (step : σ → ι → σ → Prop) : σ → List ι → σ → Prop
  | nil (s : σ) : Run step s [] s
  | snoc {s t u : σ} {ls : List ι} {l : ι} :
      Run step s ls t → step t l u → Run step s (ls ++ [l]) u

namespace Run

variable {step : σ → ι → σ → Prop}

theorem invariant {I : σ → Prop} (hStep : ∀ s l t, I s → step s l t → I t)
    {s t : σ} {ls : List ι} (h : Run step s ls t) (h0 : I s) : I t := by
  induction h with
  | nil => exact h0
  | snoc _ hs ih => exact hStep _ _ _ ih hs

theorem observed {ω : Type} {observe : ω → ι → ω} {J : ω → σ → Prop}
    (hStep : ∀ o s l t, J o s → step s l t → J (observe o l) t) {s t : σ} {ls : List ι}
    (h : Run step s ls t) {o : ω} (h0 : J o s) : J (ls.foldl observe o) t := by
  induction h with
  | nil => exact h0
  | snoc _ hs ih =>
    rw [List.foldl_append]
    exact hStep _ _ _ _ ih hs

/-- The steps of a run that also meet the condition `C` on the state before the step. -/
def Under (C : σ → ι → Prop) (step : σ → ι → σ → Prop) (s : σ) (l : ι) (t : σ) : Prop :=
  C s l ∧ step s l t

theorem under_mono {C C' : σ → ι → Prop} (hLess : ∀ s l, C s l → C' s l) {s t : σ} {ls : List ι}
    (h : Run (Under C step) s ls t) : Run (Under C' step) s ls t := by
  induction h with
  | nil => exact .nil _
  | snoc _ hs ih => exact .snoc ih ⟨hLess _ _ hs.1, hs.2⟩

theorem under_labels {P : ι → Prop} {s t : σ} {ls : List ι} (h : Run step s ls t)
    (hAll : ∀ l ∈ ls, P l) : Run (Under (fun _ l => P l) step) s ls t := by
  induction h with
  | nil => exact .nil _
  | snoc _ hs ih =>
    refine .snoc (ih fun l hl => hAll l (List.mem_append_left _ hl)) ⟨?_, hs⟩
    exact hAll _ (List.mem_append_right _ List.mem_cons_self)

/-- Run an executable step function over a list of labels; `none` when a step is refused. -/
def exec (next : σ → ι → Option σ) : σ → List ι → Option σ
  | s, [] => some s
  | s, l :: ls => (next s l).bind fun t => exec next t ls

theorem single {s t : σ} {l : ι} (h : step s l t) : Run step s [l] t := .snoc (.nil s) h

theorem trans {s t u : σ} {ls ls' : List ι} (h : Run step s ls t) (g : Run step t ls' u) :
    Run step s (ls ++ ls') u := by
  induction g with
  | nil => simpa using h
  | snoc _ hs ih =>
    rw [← List.append_assoc]
    exact .snoc ih hs

theorem of_exec (next : σ → ι → Option σ) {s t : σ} {ls : List ι}
    (h : exec next s ls = some t) : Run (fun s l t => next s l = some t) s ls t := by
  induction ls generalizing s with
  | nil =>
    cases h
    exact .nil _
  | cons l ls ih =>
    obtain ⟨u, hu, hRest⟩ := Option.bind_eq_some_iff.mp h
    exact (single hu).trans (ih hRest)

theorem under_of_exec (C : σ → ι → Prop) [∀ s l, Decidable (C s l)] (next : σ → ι → Option σ)
    {s t : σ} {ls : List ι} (h : exec (fun s l => if C s l then next s l else none) s ls = some t) :
    Run (Under C fun s l t => next s l = some t) s ls t := by
  induction ls generalizing s with
  | nil =>
    cases h
    exact .nil _
  | cons l ls ih =>
    obtain ⟨u, hu, hRest⟩ := Option.bind_eq_some_iff.mp h
    simp only at hu
    split at hu
    · rename_i hC
      exact (single ⟨hC, hu⟩).trans (ih hRest)
    · cases hu

section Computed

variable (C : σ → ι → Prop) [∀ s l, Decidable (C s l)] (next : σ → ι → Option σ) (s : σ)
  (ls : List ι)

/-- A run that is computed, to a state that shows what is asked. -/
theorem exists_of_exec (View : σ → Prop) [DecidablePred View]
    (h : (exec next s ls).any (fun t => decide (View t)) = true) :
    ∃ t, Run (fun s l t => next s l = some t) s ls t ∧ View t := by
  obtain ⟨t, ht, hView⟩ := (Option.any_eq_true _ _).mp h
  exact ⟨t, of_exec next ht, of_decide_eq_true hView⟩

theorem exists_under_of_exec (View : σ → Prop) [DecidablePred View]
    (h : (exec (fun s l => if C s l then next s l else none) s ls).any
      (fun t => decide (View t)) = true) :
    ∃ t, Run (Under C fun s l t => next s l = some t) s ls t ∧ View t := by
  obtain ⟨t, ht, hView⟩ := (Option.any_eq_true _ _).mp h
  exact ⟨t, under_of_exec C next ht, of_decide_eq_true hView⟩

/-- The state is looked at through something that it may lack. -/
theorem exists_under_of_exec_some {α : Type} (read : σ → Option α) (View : σ → α → Prop)
    [∀ t a, Decidable (View t a)]
    (h : (exec (fun s l => if C s l then next s l else none) s ls).any
      (fun t => (read t).any fun a => decide (View t a)) = true) :
    ∃ t a, Run (Under C fun s l t => next s l = some t) s ls t ∧ read t = some a ∧ View t a := by
  obtain ⟨t, ht, hRead⟩ := (Option.any_eq_true _ _).mp h
  obtain ⟨a, ha, hView⟩ := (Option.any_eq_true _ _).mp hRead
  exact ⟨t, a, under_of_exec C next ht, ha, of_decide_eq_true hView⟩

end Computed

end Run

end LMCache.Lib
