import Mathlib.Data.Set.Basic

/-!
# Channels and threads

An ordered channel carries items and markers, and a message that is lost leaves the rest in
order. `Preceded` says that before every marker the items it closes have been seen: they were
seen before, or are ahead of it in the channel. Taking the first message, losing any message
and adding one at the end keep this, when what leaves the channel counts as seen.

A thread is a sequence of indivisible accesses to a memory of type `ε`: each access changes
the memory and goes on with what the memory was. Between two accesses other threads may
change the memory, as far as the relation `rely` allows. `Ensures` is a triple over all these
interleavings: every access of the thread changes the memory as `guar` allows, and the value
it ends with satisfies the postcondition.
-/

namespace LMCache.Lib

variable {μ ι : Type} {items : μ → Set ι} {closes : μ → Prop} {need seen : Set ι}

/-- Every marker of the channel comes after what it needs. -/
def Preceded (items : μ → Set ι) (closes : μ → Prop) (need : Set ι) :
    Set ι → List μ → Prop
  | _, [] => True
  | seen, m :: rest => (closes m → need ⊆ seen) ∧ Preceded items closes need (seen ∪ items m) rest

namespace Preceded

variable {channel : List μ}

theorem mono {seen' : Set ι} (hSeen : seen ⊆ seen') (h : Preceded items closes need seen channel) :
    Preceded items closes need seen' channel := by
  induction channel generalizing seen seen' with
  | nil => trivial
  | cons m rest ih =>
    refine ⟨fun hCloses => (h.1 hCloses).trans hSeen, ih ?_ h.2⟩
    exact Set.union_subset_union_left _ hSeen

theorem eraseIdx (h : Preceded items closes need seen channel) {i : Nat} {m : μ}
    (hm : channel[i]? = some m) :
    Preceded items closes need (seen ∪ items m) (channel.eraseIdx i) := by
  induction channel generalizing seen i with
  | nil => cases hm
  | cons m' rest ih =>
    cases i with
    | zero =>
      cases hm
      exact h.2
    | succ i =>
      refine ⟨fun hCloses => (h.1 hCloses).trans Set.subset_union_left, ?_⟩
      rw [Set.union_right_comm]
      exact ih h.2 hm

theorem concat (h : Preceded items closes need seen channel) {m : μ}
    (hm : closes m → need ⊆ seen ∪ {x | ∃ m' ∈ channel, x ∈ items m'}) :
    Preceded items closes need seen (channel ++ [m]) := by
  induction channel generalizing seen with
  | nil =>
    refine ⟨fun hCloses x hx => ?_, trivial⟩
    rcases hm hCloses hx with hSeen | ⟨m', hm', -⟩
    · exact hSeen
    · cases hm'
  | cons m' rest ih =>
    refine ⟨h.1, ih h.2 fun hCloses x hx => ?_⟩
    rcases hm hCloses hx with hSeen | ⟨m'', hMem, hItem⟩
    · exact Or.inl (Or.inl hSeen)
    · rcases List.mem_cons.mp hMem with rfl | hRest
      · exact Or.inl (Or.inr hItem)
      · exact Or.inr ⟨m'', hRest, hItem⟩

theorem of_not_closes (h : ∀ m ∈ channel, ¬ closes m) :
    Preceded items closes need seen channel := by
  induction channel generalizing seen with
  | nil => trivial
  | cons m rest ih =>
    refine ⟨fun hCloses => (h m List.mem_cons_self hCloses).elim, ?_⟩
    exact ih fun m' hm' => h m' (List.mem_cons_of_mem _ hm')

theorem of_subset (h : need ⊆ seen) : Preceded items closes need seen channel := by
  induction channel generalizing seen with
  | nil => trivial
  | cons m rest ih => exact ⟨fun _ => h, ih (h.trans Set.subset_union_left)⟩

end Preceded

inductive Thread (ε α : Type)
  | ret (a : α)
  | act (effect : ε → ε) (next : ε → Thread ε α)

namespace Thread

variable {ε α β : Type}

protected def bind : Thread ε α → (α → Thread ε β) → Thread ε β
  | ret a, f => f a
  | act effect next, f => act effect fun e => (next e).bind f

instance : Monad (Thread ε) where
  pure := ret
  bind := Thread.bind

@[simp] theorem pure_eq (a : α) : (pure a : Thread ε α) = ret a := rfl

@[simp] theorem ret_bind (a : α) (f : α → Thread ε β) : (ret a >>= f) = f a := rfl

@[simp] theorem act_bind (effect : ε → ε) (next : ε → Thread ε α) (f : α → Thread ε β) :
    (act effect next >>= f) = act effect fun e => next e >>= f := rfl

def read (f : ε → α) : Thread ε α := act id fun e => ret (f e)

/-- Change the memory, and return something of what it was. -/
def update (effect : ε → ε) (f : ε → α) : Thread ε α := act effect fun e => ret (f e)

section Ensures

variable {rely guar : ε → ε → Prop}

/-- From the memory `e`, whatever the others do within `rely`, every access is within `guar`
and the thread ends in the postcondition. -/
def Ensures (rely guar : ε → ε → Prop) : Thread ε α → (α → ε → Prop) → ε → Prop
  | ret a, post, e => ∀ e', rely e e' → post a e'
  | act effect next, post, e => ∀ e', rely e e' →
      guar e' (effect e') ∧ (next e').Ensures rely guar post (effect e')

variable {p : Thread ε α} {post : α → ε → Prop} {e : ε}

theorem Ensures.stable (hTrans : ∀ {a b c}, rely a b → rely b c → rely a c) {e' : ε}
    (h : p.Ensures rely guar post e) (hMove : rely e e') : p.Ensures rely guar post e' := by
  cases p with
  | ret a | act effect next => exact fun e₂ h₂ => h e₂ (hTrans hMove h₂)

theorem Ensures.mono {post' : α → ε → Prop} (h : p.Ensures rely guar post e)
    (hPost : ∀ a e, post a e → post' a e) : p.Ensures rely guar post' e := by
  induction p generalizing e with
  | ret a => exact fun e' hMove => hPost a e' (h e' hMove)
  | act effect next ih =>
    intro e' hMove
    obtain ⟨hGuar, hRest⟩ := h e' hMove
    exact ⟨hGuar, ih e' hRest⟩

theorem Ensures.weaken {rely' guar' : ε → ε → Prop} (h : p.Ensures rely guar post e)
    (hRely : ∀ a b, rely' a b → rely a b) (hGuar : ∀ a b, guar a b → guar' a b) :
    p.Ensures rely' guar' post e := by
  induction p generalizing e with
  | ret a => exact fun e' hMove => h e' (hRely e e' hMove)
  | act effect next ih =>
    intro e' hMove
    obtain ⟨hStep, hRest⟩ := h e' (hRely e e' hMove)
    exact ⟨hGuar _ _ hStep, ih e' hRest⟩

theorem ensures_ret {a : α} (h : ∀ e', rely e e' → post a e') :
    (ret a).Ensures rely guar post e := h

theorem ensures_read (hGuar : ∀ e, guar e e) {f : ε → α}
    (h : ∀ e₁, rely e e₁ → ∀ e₂, rely e₁ e₂ → post (f e₁) e₂) :
    (read f).Ensures rely guar post e :=
  fun e₁ hMove => ⟨hGuar e₁, h e₁ hMove⟩

theorem ensures_update {effect : ε → ε} {f : ε → α}
    (h : ∀ e₁, rely e e₁ → guar e₁ (effect e₁) ∧ ∀ e₂, rely (effect e₁) e₂ → post (f e₁) e₂) :
    (update effect f).Ensures rely guar post e := h

theorem Ensures.bind (hRefl : ∀ e, rely e e) {f : α → Thread ε β} {mid : α → ε → Prop}
    {post : β → ε → Prop} (h : p.Ensures rely guar mid e)
    (hNext : ∀ a e, mid a e → (f a).Ensures rely guar post e) :
    (p >>= f).Ensures rely guar post e := by
  induction p generalizing e with
  | ret a => exact hNext a e (h e (hRefl e))
  | act effect next ih =>
    intro e' hMove
    obtain ⟨hGuar, hRest⟩ := h e' hMove
    exact ⟨hGuar, ih e' hRest⟩

/-- The rule for a loop over a list: the invariant speaks of what is left of the list. -/
theorem ensures_foldlM (hRefl : ∀ e, rely e e) {γ : Type} {f : β → γ → Thread ε β}
    (inv : β → List γ → ε → Prop)
    (hStep : ∀ b c rest e, inv b (c :: rest) e →
      (f b c).Ensures rely guar (fun b' e' => inv b' rest e') e)
    (hEnd : ∀ b e e', inv b [] e → rely e e' → inv b [] e') {l : List γ} {b : β} (h : inv b l e) :
    (l.foldlM f b).Ensures rely guar (fun b' e' => inv b' [] e') e := by
  induction l generalizing b e with
  | nil => exact ensures_ret fun e' hMove => hEnd b e e' h hMove
  | cons c rest ih =>
    rw [List.foldlM_cons]
    exact (hStep b c rest e h).bind hRefl fun b' e' h' => ih h'

end Ensures

end Thread

end LMCache.Lib
