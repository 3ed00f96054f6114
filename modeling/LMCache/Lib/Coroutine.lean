import LMCache.Lib.Python
import LMCache.Lib.Run

/-!
# Coroutines on an event loop

A coroutine is a sequence of accesses to a memory of type `σ`, with suspension points
between them. The event loop runs a coroutine from one suspension point to the next; what
others do to the memory happens at the suspension points only. A pool is the memory with all
the coroutines that were started on it.

Two rules are used: an invariant of the memory that every access of every coroutine keeps
holds in every state of a pool, and the accesses that a coroutine makes on its way to a
result are those of its parts.
-/

namespace LMCache.Lib

open List

inductive Coroutine (σ α : Type)
  | ret (a : α)
  | act (effect : σ → σ) (next : σ → Coroutine σ α)
  | suspend (next : Coroutine σ α)

namespace Coroutine

variable {σ α β : Type}

protected def bind : Coroutine σ α → (α → Coroutine σ β) → Coroutine σ β
  | ret a, f => f a
  | act effect next, f => act effect fun s => (next s).bind f
  | suspend next, f => suspend (next.bind f)

instance : Monad (Coroutine σ) where
  pure := ret
  bind := Coroutine.bind

@[simp] theorem pure_eq (a : α) : (pure a : Coroutine σ α) = ret a := rfl

@[simp] theorem ret_bind (a : α) (f : α → Coroutine σ β) : (ret a >>= f) = f a := rfl

@[simp] theorem act_bind (effect : σ → σ) (next : σ → Coroutine σ α) (f : α → Coroutine σ β) :
    (act effect next >>= f) = act effect fun s => next s >>= f := rfl

@[simp] theorem suspend_bind (next : Coroutine σ α) (f : α → Coroutine σ β) :
    (suspend next >>= f) = suspend (next >>= f) := rfl

theorem bind_ret (c : Coroutine σ α) : (c >>= ret) = c := by
  induction c with
  | ret a => rfl
  | act effect next ih => exact congrArg (act effect) (funext ih)
  | suspend next ih => exact congrArg suspend ih

theorem bind_bind {γ : Type} (c : Coroutine σ α) (f : α → Coroutine σ β) (g : β → Coroutine σ γ) :
    ((c >>= f) >>= g) = (c >>= fun a => f a >>= g) := by
  induction c with
  | ret a => rfl
  | act effect next ih => exact congrArg (act effect) (funext ih)
  | suspend next ih => exact congrArg suspend ih

instance : LawfulMonad (Coroutine σ) := LawfulMonad.mk'
  (Coroutine σ) bind_ret (fun _ _ => rfl) bind_bind

/-- One access: what it returns and the memory it leaves. -/
def access (f : σ → α × σ) : Coroutine σ α := act (fun s => (f s).2) fun s => ret (f s).1

/-- Run to the next suspension point, or to the end. -/
def resume : Coroutine σ α → σ → Coroutine σ α × σ
  | ret a, s => (ret a, s)
  | act effect next, s => (next s).resume (effect s)
  | suspend next, s => (next, s)

/-- Run to the end while nothing else touches the memory. -/
def alone : Coroutine σ α → σ → α × σ
  | ret a, s => (a, s)
  | act effect next, s => (next s).alone (effect s)
  | suspend next, s => next.alone s

theorem alone_bind (c : Coroutine σ α) (f : α → Coroutine σ β) (s : σ) :
    (c >>= f).alone s = (f (c.alone s).1).alone (c.alone s).2 := by
  induction c generalizing s with
  | ret a => rfl
  | act effect next ih => exact ih s (effect s)
  | suspend next ih => exact ih s

/-- Every access, in any memory, changes it as `R` allows. -/
def Within (R : σ → σ → Prop) : Coroutine σ α → Prop
  | ret _ => True
  | act effect next => ∀ s, R s (effect s) ∧ (next s).Within R
  | suspend next => next.Within R

abbrev Keeps (I : σ → Prop) (c : Coroutine σ α) : Prop := c.Within fun s t => I s → I t

section Within

variable {R : σ → σ → Prop}

theorem within_access {f : σ → α × σ} (h : ∀ s, R s (f s).2) : (access f).Within R :=
  fun s => ⟨h s, trivial⟩

variable {c : Coroutine σ α}

theorem Within.bind {f : α → Coroutine σ β} (h : c.Within R) (hNext : ∀ a, (f a).Within R) :
    (c >>= f).Within R := by
  induction c with
  | ret a => exact hNext a
  | act effect next ih =>
    intro s
    obtain ⟨hEffect, hRest⟩ := h s
    exact ⟨hEffect, ih s hRest⟩
  | suspend next ih => exact ih h

theorem Within.resume {I : σ → Prop} (h : c.Keeps I) {s : σ} (hs : I s) :
    I (c.resume s).2 ∧ (c.resume s).1.Keeps I := by
  induction c generalizing s with
  | ret a => exact ⟨hs, trivial⟩
  | act effect next ih =>
    obtain ⟨hEffect, hRest⟩ := h s
    exact ih s hRest (hEffect hs)
  | suspend next ih => exact ⟨hs, h⟩

end Within

/-- In some interleaving the coroutine makes these accesses, each given by the memory before
and after it, and ends with the value. -/
inductive Accesses : Coroutine σ α → List (σ × σ) → α → Prop
  | ret (a : α) : Accesses (ret a) [] a
  | act {effect : σ → σ} {next : σ → Coroutine σ α} {trace : List (σ × σ)} {a : α} (s : σ) :
      Accesses (next s) trace a → Accesses (act effect next) ((s, effect s) :: trace) a
  | suspend {next : Coroutine σ α} {trace : List (σ × σ)} {a : α} :
      Accesses next trace a → Accesses (suspend next) trace a

variable {c : Coroutine σ α}

theorem Accesses.within {R : σ → σ → Prop} {trace : List (σ × σ)} {a : α} (h : c.Accesses trace a)
    (hWithin : c.Within R) : ∀ s ∈ trace, R s.1 s.2 := by
  induction h with
  | ret a => exact fun _ hs => nomatch hs
  | act s hRest ih =>
    obtain ⟨hEffect, hNext⟩ := hWithin s
    intro t ht
    rcases mem_cons.mp ht with rfl | ht
    · exact hEffect
    · exact ih hNext t ht
  | suspend hRest ih => exact ih hWithin

theorem Accesses.of_bind {f : α → Coroutine σ β} {trace : List (σ × σ)} {b : β}
    (h : (c >>= f).Accesses trace b) :
    ∃ before a after, trace = before ++ after ∧ c.Accesses before a ∧ (f a).Accesses after b := by
  induction c generalizing trace with
  | ret a => exact ⟨[], a, trace, rfl, .ret a, h⟩
  | act effect next ih =>
    cases h with
    | act s hRest =>
      obtain ⟨before, a, after, rfl, hFirst, hSecond⟩ := ih s hRest
      exact ⟨(s, effect s) :: before, a, after, rfl, .act s hFirst, hSecond⟩
  | suspend next ih =>
    cases h with
    | suspend hRest =>
      obtain ⟨before, a, after, rfl, hFirst, hSecond⟩ := ih hRest
      exact ⟨before, a, after, rfl, .suspend hFirst, hSecond⟩

theorem accesses_access {f : σ → α × σ} {trace : List (σ × σ)} {a : α}
    (h : (access f).Accesses trace a) : ∃ s, trace = [(s, (f s).2)] ∧ a = (f s).1 := by
  cases h with
  | act s hRest =>
    cases hRest
    exact ⟨s, rfl, rfl⟩

theorem accesses_alone {κ : Type} (kept : σ → κ) (c : Coroutine σ α) (s : σ) :
    ∃ trace, c.Accesses trace (c.alone s).1 ∧
      ((∀ a ∈ trace, kept a.2 = kept a.1) → kept (c.alone s).2 = kept s) := by
  induction c generalizing s with
  | ret a => exact ⟨[], .ret a, fun _ => rfl⟩
  | act effect next ih =>
    obtain ⟨trace, hTrace, hKept⟩ := ih s (effect s)
    refine ⟨(s, effect s) :: trace, .act s hTrace, fun hAll => ?_⟩
    have hRest := hKept fun a ha => hAll a (mem_cons_of_mem _ ha)
    exact hRest.trans (hAll (s, effect s) mem_cons_self)
  | suspend next ih =>
    obtain ⟨trace, hTrace, hKept⟩ := ih s
    exact ⟨trace, .suspend hTrace, hKept⟩

end Coroutine

/-- A coroutine that may raise. -/
abbrev Async (σ α : Type) := ExceptT PyException (Coroutine σ) α

namespace Async

variable {σ α β : Type}

/-- A computation that touches no memory. -/
def ofResult (r : Result α) : Async σ α := ExceptT.mk (.ret r)

/-- One access that may raise; what it did to the memory before stays done. -/
def access (f : σ → Result α × σ) : Async σ α := ExceptT.mk (Coroutine.access f)

def update (f : σ → α × σ) : Async σ α := access fun s => (.ok (f s).1, (f s).2)

def modify (f : σ → σ) : Async σ Unit := access fun s => (.ok (), f s)

def suspend : Async σ Unit := ExceptT.mk (.suspend (.ret (.ok ())))

theorem run_bind (c : Async σ α) (f : α → Async σ β) :
    (c >>= f).run = c.run >>= fun r =>
      match r with
      | .ok a => (f a).run
      | .error e => .ret (.error e) := by
  show Coroutine.bind _ _ = Coroutine.bind _ _
  congr
  funext r
  cases r <;> rfl

theorem run_tryCatch (c : Async σ α) (handle : PyException → Async σ α) :
    (tryCatch c handle).run = c.run >>= fun r =>
      match r with
      | .ok a => .ret (.ok a)
      | .error e => (handle e).run := by
  show Coroutine.bind _ _ = Coroutine.bind _ _
  congr
  funext r
  cases r <;> rfl

/-- What a coroutine that runs alone ends with, and the memory it leaves. -/
def alone (c : Async σ α) (s : σ) : Result α × σ := c.run.alone s

@[simp] theorem alone_ofResult (r : Result α) (s : σ) : (ofResult r).alone s = (r, s) := rfl

@[simp] theorem alone_pure (a : α) (s : σ) : (pure a : Async σ α).alone s = (.ok a, s) := rfl

@[simp] theorem alone_access (f : σ → Result α × σ) (s : σ) : (access f).alone s = f s := rfl

@[simp] theorem alone_update (f : σ → α × σ) (s : σ) :
    (update f).alone s = (.ok (f s).1, (f s).2) := rfl

@[simp] theorem alone_suspend (s : σ) : (suspend : Async σ Unit).alone s = (.ok (), s) := rfl

theorem alone_bind_ok {c : Async σ α} {f : α → Async σ β} {s t : σ} {a : α}
    (h : c.alone s = (.ok a, t)) : (c >>= f).alone s = (f a).alone t := by
  rw [alone, run_bind, Coroutine.alone_bind]
  rw [alone] at h
  rw [h]
  rfl

theorem alone_bind_error {c : Async σ α} {f : α → Async σ β} {s t : σ} {e : PyException}
    (h : c.alone s = (.error e, t)) : (c >>= f).alone s = (.error e, t) := by
  rw [alone, run_bind, Coroutine.alone_bind]
  rw [alone] at h
  rw [h]
  rfl

/-- Every access changes the memory as `R` allows. -/
def Within (R : σ → σ → Prop) (c : Async σ α) : Prop := Coroutine.Within R c.run

/-- Every access keeps the invariant. -/
abbrev Keeps (I : σ → Prop) (c : Async σ α) : Prop := c.Within fun s t => I s → I t

section Within

variable {R : σ → σ → Prop}

theorem within_ofResult (r : Result α) : (ofResult r : Async σ α).Within R := trivial

theorem within_pure (a : α) : (pure a : Async σ α).Within R := trivial

theorem within_throw (e : PyException) : (throw e : Async σ α).Within R := trivial

theorem within_suspend : (suspend : Async σ Unit).Within R := trivial

theorem within_access {f : σ → Result α × σ} (h : ∀ s, R s (f s).2) : (access f).Within R :=
  Coroutine.within_access h

theorem within_update {f : σ → α × σ} (h : ∀ s, R s (f s).2) : (update f).Within R :=
  within_access h

theorem within_modify {f : σ → σ} (h : ∀ s, R s (f s)) : (modify f).Within R := within_access h

theorem Within.bind {c : Async σ α} {f : α → Async σ β} (h : c.Within R)
    (hNext : ∀ a, (f a).Within R) : (c >>= f).Within R := by
  rw [Within, run_bind]
  refine Coroutine.Within.bind h fun r => ?_
  cases r with
  | ok a => exact hNext a
  | error e => trivial

theorem Within.tryCatch {c : Async σ α} {handle : PyException → Async σ α} (h : c.Within R)
    (hHandle : ∀ e, (handle e).Within R) : (tryCatch c handle).Within R := by
  rw [Within, run_tryCatch]
  refine Coroutine.Within.bind h fun r => ?_
  cases r with
  | ok a => trivial
  | error e => exact hHandle e

theorem within_mapM {f : α → Async σ β} (h : ∀ a, (f a).Within R) (l : List α) :
    (l.mapM f).Within R := by
  induction l with
  | nil => exact within_pure []
  | cons a rest ih =>
    rw [mapM_cons]
    exact (h a).bind fun b => ih.bind fun bs => within_pure (b :: bs)

end Within

section Accesses

variable {trace : List (σ × σ)}

theorem accesses_ofResult {r r' : Result α} (h : (ofResult r : Async σ α).run.Accesses trace r') :
    trace = [] ∧ r' = r := by
  cases h
  exact ⟨rfl, rfl⟩

theorem accesses_suspend {r : Result Unit} (h : (suspend : Async σ Unit).run.Accesses trace r) :
    trace = [] ∧ r = .ok () := by
  cases h with
  | suspend hRest =>
    cases hRest
    exact ⟨rfl, rfl⟩

theorem accesses_access {f : σ → Result α × σ} {r : Result α}
    (h : (access f).run.Accesses trace r) : ∃ s, trace = [(s, (f s).2)] ∧ r = (f s).1 :=
  Coroutine.accesses_access h

/-- A raised exception comes from the first part, or from the rest after what the first part
returned. -/
theorem accesses_bind_error {c : Async σ α} {f : α → Async σ β} {e : PyException}
    (h : (c >>= f).run.Accesses trace (.error e)) :
    c.run.Accesses trace (.error e) ∨
      ∃ before a after, trace = before ++ after ∧ c.run.Accesses before (.ok a) ∧
        (f a).run.Accesses after (.error e) := by
  rw [run_bind] at h
  obtain ⟨before, r, after, rfl, hFirst, hSecond⟩ := h.of_bind
  cases r with
  | ok a => exact Or.inr ⟨before, a, after, rfl, hFirst, hSecond⟩
  | error e' =>
    cases hSecond
    rw [append_nil]
    exact Or.inl hFirst

end Accesses

/-- On every way to an exception the accesses are within `R`. -/
def RaisesWithin (R : σ → σ → Prop) (c : Async σ α) : Prop :=
  ∀ trace e, c.run.Accesses trace (.error e) → ∀ s ∈ trace, R s.1 s.2

def NeverRaises (c : Async σ α) : Prop := ∀ trace e, ¬ c.run.Accesses trace (.error e)

section Raises

variable {R : σ → σ → Prop} {f : α → Async σ β} {c : Async σ α}

theorem Within.raisesWithin_bind (h : c.Within R) (hNext : ∀ a, (f a).RaisesWithin R) :
    (c >>= f).RaisesWithin R := by
  intro trace e hTrace s hs
  rcases accesses_bind_error hTrace with hFail | ⟨before, a, after, rfl, hFirst, hSecond⟩
  · exact hFail.within h s hs
  · rcases mem_append.mp hs with hs | hs
    · exact hFirst.within h s hs
    · exact hNext a after e hSecond s hs

theorem raisesWithin_ofResult_bind {r : Result α} (hNext : ∀ a, r = .ok a → (f a).RaisesWithin R) :
    (ofResult r >>= f).RaisesWithin R := by
  intro trace e hTrace
  rcases accesses_bind_error hTrace with hFail | ⟨before, a, after, rfl, hFirst, hSecond⟩
  · exact hFail.within (within_ofResult r)
  · obtain ⟨rfl, hOk⟩ := accesses_ofResult hFirst
    exact hNext a hOk.symm after e hSecond

theorem RaisesWithin.bind (h : c.RaisesWithin R) (hNext : ∀ a, (f a).NeverRaises) :
    (c >>= f).RaisesWithin R := by
  intro trace e hTrace
  rcases accesses_bind_error hTrace with hFail | ⟨before, a, after, rfl, -, hSecond⟩
  · exact h trace e hFail
  · exact absurd hSecond (hNext a after e)

theorem neverRaises_pure (a : α) : (pure a : Async σ α).NeverRaises :=
  fun _ _ hTrace => nomatch hTrace

theorem neverRaises_access {f : σ → Result α × σ} (value : σ → α)
    (h : ∀ s, (f s).1 = .ok (value s)) : (access f).NeverRaises := by
  intro trace e hTrace
  obtain ⟨s, -, hError⟩ := accesses_access hTrace
  rw [h s] at hError
  cases hError

theorem NeverRaises.bind (h : c.NeverRaises) (hNext : ∀ a, (f a).NeverRaises) :
    (c >>= f).NeverRaises := by
  intro trace e hTrace
  rcases accesses_bind_error hTrace with hFail | ⟨before, a, after, -, -, hSecond⟩
  · exact h trace e hFail
  · exact hNext a after e hSecond

end Raises

end Async

/-- The memory, and the coroutines started on it; one that has ended stays with its value. -/
structure Pool (σ ω : Type) where
  memory : σ
  running : List (Coroutine σ ω)

/-- A move of a pool: a call, the next segment of a coroutine, or something outside that
changes the memory. -/
inductive PoolMove (ι ε : Type)
  | start (call : ι)
  | resume (index : Nat)
  | outside (event : ε)

namespace Pool

variable {σ ω ι ε : Type}

def next (code : ι → Coroutine σ ω) (world : ε → σ → σ) (p : Pool σ ω) :
    PoolMove ι ε → Option (Pool σ ω)
  | .start call => some { p with running := p.running ++ [code call] }
  | .resume index => p.running[index]?.map fun c =>
      ⟨(c.resume p.memory).2, p.running.set index (c.resume p.memory).1⟩
  | .outside event => some { p with memory := world event p.memory }

abbrev Step (code : ι → Coroutine σ ω) (world : ε → σ → σ) (p : Pool σ ω) (move : PoolMove ι ε)
    (q : Pool σ ω) : Prop :=
  p.next code world move = some q

/-- An invariant that every access of every coroutine keeps holds along every run. -/
theorem invariant {code : ι → Coroutine σ ω} {world : ε → σ → σ} {I : σ → Prop}
    (hCode : ∀ call, (code call).Keeps I) (hWorld : ∀ event s, I s → I (world event s))
    {p q : Pool σ ω} {moves : List (PoolMove ι ε)} (hRun : Run (Step code world) p moves q)
    (hIdle : p.running = []) (hMemory : I p.memory) : I q.memory := by
  have hInv : I q.memory ∧ ∀ c ∈ q.running, c.Keeps I := by
    refine hRun.invariant (I := fun p => I p.memory ∧ ∀ c ∈ p.running, c.Keeps I) ?_
      ⟨hMemory, by simp [hIdle]⟩
    rintro p move q ⟨hp, hRunning⟩ hStep
    cases move with
    | start call =>
      cases hStep
      refine ⟨hp, fun c hc => ?_⟩
      rcases mem_append.mp hc with hOld | hNew
      · exact hRunning c hOld
      · rw [mem_singleton.mp hNew]
        exact hCode call
    | resume index =>
      obtain ⟨c, hAt, rfl⟩ := Option.map_eq_some_iff.mp hStep
      have hKeeps := (hRunning c (mem_of_getElem? hAt)).resume hp
      refine ⟨hKeeps.1, fun c' hc' => ?_⟩
      rcases mem_or_eq_of_mem_set hc' with hOld | rfl
      · exact hRunning c' hOld
      · exact hKeeps.2
    | outside event =>
      cases hStep
      exact ⟨hWorld event _ hp, hRunning⟩
  exact hInv.1

end Pool

end LMCache.Lib
