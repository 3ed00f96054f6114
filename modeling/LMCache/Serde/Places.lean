import LMCache.Serde.System

/-!
# Where a wrapped task is

A wrapped task whose temporary buffers are not given back stands with its submitter, in one
of the four reverse maps or with the drain loop, and never in two of these places. The place
decides in which stage its buffers are: written to, released but not deleted, or read by the
inner adapter. `Coherent` is what holds of the places and of the keys they name in every run,
whatever the others do to the manager.
-/

namespace LMCache.Serde

open Lib

/-- What the wrapper has done with the temporary buffers of a task. -/
inductive Stage
  | written
  | released
  | reading
deriving DecidableEq

namespace SubmitPoint

def stage : SubmitPoint → Option Stage
  | .alloc | .register _ _ | .unregister _ | .releaseWrite _ => some .written
  | .deleteTemps _ => some .released
  | .finalize => none

/-- The point names the temporary keys of its task; before the allocation nothing is kept. -/
def Holds (kept : List (List ObjectKey)) (temps : List ObjectKey) : SubmitPoint → Prop
  | .alloc => temps = [] ∧ kept = []
  | .register tempKeys _ | .unregister tempKeys | .releaseWrite tempKeys
  | .deleteTemps tempKeys => tempKeys = temps
  | .finalize => True

end SubmitPoint

namespace DrainPoint

/-- The task that the thread has taken out of a reverse map, unless its buffers are given back. -/
def standing : DrainPoint → Option (Nat × Stage)
  | .handOver id _ _ | .submitDeserialize id _ _ | .registerDeserialize id _ _
  | .releaseWrite id _ _ _ => some (id, .written)
  | .submitStore id _ _ | .registerStore id _ _ | .finishRead id _ _ _ => some (id, .reading)
  | .deleteTemps id _ _ _ => some (id, .released)
  | _ => none

/-- The point names the temporary keys of the task it has taken. -/
def Holds (tempsOf : Nat → List ObjectKey) : DrainPoint → Prop
  | .handOver id state _ | .submitStore id state _ => state.tempKeys = tempsOf id
  | .submitDeserialize id state _ => state.tempKeys = tempsOf id
  | .finishRead id tempKeys _ _ | .releaseWrite id tempKeys _ _
  | .deleteTemps id tempKeys _ _ => tempKeys = tempsOf id
  | _ => True

end DrainPoint

/-- The temporary keys kept for a task. -/
def SerdeL2AdapterWrapper.kept (w : SerdeL2AdapterWrapper) (id : Nat) : List (List ObjectKey) :=
  ((w.storeTasks.get? id).map (·.tempKeys)).toList ++
    ((w.loadTasks.get? id).map (·.tempKeys)).toList

namespace SerdeSystem

variable {V : Type}

def tempsOf (σ : SerdeSystem V) (id : Nat) : List ObjectKey := σ.records.tempsOf id

def submitted (σ : SerdeSystem V) (id : Nat) (s : Stage) : Nat :=
  if (σ.submissions.get? id).bind (·.point.stage) = some s then 1 else 0

def drained (σ : SerdeSystem V) (id : Nat) (s : Stage) : Nat :=
  if σ.drain.standing = some (id, s) then 1 else 0

end SerdeSystem

def SerdeL2AdapterWrapper.mapped (w : SerdeL2AdapterWrapper) (id : Nat) : Stage → Nat
  | .written => w.serdeToStore.values.count id + w.innerToLoad.values.count id +
      w.serdeToLoad.values.count id
  | .reading => w.innerToStore.values.count id
  | .released => 0

namespace SerdeSystem

variable {V : Type}

/-- In how many places the task stands in the stage. -/
def count (σ : SerdeSystem V) (id : Nat) (s : Stage) : Nat :=
  σ.submitted id s + σ.wrapper.mapped id s + σ.drained id s

def total (σ : SerdeSystem V) (id : Nat) : Nat :=
  σ.count id .written + σ.count id .released + σ.count id .reading

/-- No task stands in two places, and every place names the temporary keys of its task. -/
structure Coherent (σ : SerdeSystem V) : Prop where
  single : ∀ id, σ.total id ≤ 1
  submission : ∀ id s, σ.submissions.get? id = some s →
    id < σ.wrapper.nextTaskId ∧ s.point.Holds (σ.wrapper.kept id) (σ.tempsOf id)
  drain : σ.drain.Holds σ.tempsOf
  kept : ∀ id, ∀ tempKeys ∈ σ.wrapper.kept id, tempKeys = σ.tempsOf id
  fresh : ∀ id, σ.wrapper.nextTaskId ≤ id →
    σ.total id = 0 ∧ σ.tempsOf id = [] ∧ σ.wrapper.kept id = []

end SerdeSystem

def mark (s : Option Stage) (t : Stage) : Nat := if s = some t then 1 else 0

/-- The counts lose the stage `s` of the task `id` and gain at most `s'`, and nothing is lost
that is released. -/
def Counted (f g : Nat → Stage → Nat) (id : Nat) (s s' : Option Stage) : Prop :=
  ∀ j t, g j t + (if id = j then mark s t else 0) ≤ f j t + (if id = j then mark s' t else 0) ∧
    (t = .released →
      g j t + (if id = j then mark s t else 0) = f j t + if id = j then mark s' t else 0)

section Counts

variable {f g f' g' : Nat → Stage → Nat} {id : Nat} {s s' r r' : Option Stage}

theorem Counted.refl (f : Nat → Stage → Nat) (id : Nat) (s : Option Stage) :
    Counted f f id s s := fun _ _ => ⟨le_rfl, fun _ => rfl⟩

def Joined (u s r : Option Stage) : Prop := (u = s ∧ r = none) ∨ (u = r ∧ s = none)

theorem Joined.mark {u s r : Option Stage} (h : Joined u s r) (t : Stage) :
    mark u t = mark s t + mark r t := by
  rcases h with ⟨rfl, rfl⟩ | ⟨rfl, rfl⟩ <;> simp [Serde.mark]

theorem Counted.add {u u' : Option Stage} (h : Counted f g id s s') (h' : Counted f' g' id r r')
    (hOld : Joined u s r) (hNew : Joined u' s' r') :
    Counted (fun j t => f j t + f' j t) (fun j t => g j t + g' j t) id u u' := by
  intro j t
  obtain ⟨hLe, hEq⟩ := h j t
  obtain ⟨hLe', hEq'⟩ := h' j t
  rw [hOld.mark, hNew.mark]
  dsimp only
  split_ifs at *
  · refine ⟨by omega, fun ht => ?_⟩
    have hFirst := hEq ht
    have hSecond := hEq' ht
    omega
  · refine ⟨by omega, fun ht => ?_⟩
    have hFirst := hEq ht
    have hSecond := hEq' ht
    omega

end Counts

namespace SerdeSystem

variable {V : Type}

/-- The step takes the task `id` from one stage to another. -/
def Moves (σ τ : SerdeSystem V) (id : Nat) (s s' : Option Stage) : Prop :=
  Counted σ.count τ.count id s s'

variable {σ τ : SerdeSystem V} {id j : Nat} {s s' : Option Stage}

theorem Moves.total (h : Moves σ τ id s s') (hStage : s = none → s' = none) (j : Nat) :
    τ.total j ≤ σ.total j := by
  have hWritten := (h j .written).1
  have hReleased := (h j .released).1
  have hReading := (h j .reading).1
  unfold SerdeSystem.total
  by_cases hj : id = j
  · rw [if_pos hj, if_pos hj] at hWritten hReleased hReading
    rcases s with - | s
    · obtain rfl := hStage rfl
      omega
    · rcases s' with - | s' <;> cases s <;> try cases s'
      all_goals simp only [mark, reduceCtorEq, Option.some.injEq, if_true, if_false] at *
      all_goals omega
  · rw [if_neg hj, if_neg hj] at hWritten hReleased hReading
    omega

theorem counted_submitted (hOthers : ∀ j, id ≠ j → τ.submissions.get? j = σ.submissions.get? j) :
    Counted σ.submitted τ.submitted id ((σ.submissions.get? id).bind (·.point.stage))
      ((τ.submissions.get? id).bind (·.point.stage)) := by
  intro j t
  unfold submitted mark
  by_cases hj : id = j
  · subst hj
    simp [Nat.add_comm]
  · simp [hj, hOthers j hj]

theorem counted_drained (hOld : σ.drain.standing = s.map (id, ·))
    (hNew : τ.drain.standing = s'.map (id, ·)) : Counted σ.drained τ.drained id s s' := by
  intro j t
  unfold drained mark
  rw [hOld, hNew]
  by_cases hj : id = j
  · subst hj
    cases s <;> cases s' <;> simp [Nat.add_comm]
  · cases s <;> cases s' <;> simp [hj]

end SerdeSystem

section Maps

variable {d : Dict Nat Nat} {n id : Nat}

theorem count_values_erase (h : d.get? n = some id) (j : Nat) :
    (d.erase n).values.count j + (if id = j then 1 else 0) = d.values.count j := by
  have hPerm := ((Dict.entries_perm_erase h).map Prod.snd).count_eq j
  rw [List.map_cons, List.count_cons] at hPerm
  simp only [beq_iff_eq] at hPerm
  exact hPerm.symm

theorem count_values_set (d : Dict Nat Nat) (n id j : Nat) :
    (d.set n id).values.count j ≤ d.values.count j + if id = j then 1 else 0 := by
  have hSet := ((Dict.entries_set_perm d n id).map Prod.snd).count_eq j
  have hErase : (d.erase n).values.count j ≤ d.values.count j := by
    cases hGet : d.get? n with
    | none => exact (((Dict.erase_of_get?_eq_none hGet).map Prod.snd).count_eq j).le
    | some i => exact (Nat.le_add_right _ _).trans (count_values_erase hGet j).le
  rw [List.map_cons, List.count_cons] at hSet
  simp only [Dict.values, beq_iff_eq] at hSet hErase ⊢
  omega

inductive ReverseMap
  | serdeToStore
  | innerToStore
  | innerToLoad
  | serdeToLoad

namespace ReverseMap

def get (w : SerdeL2AdapterWrapper) : ReverseMap → Dict Nat Nat
  | .serdeToStore => w.serdeToStore
  | .innerToStore => w.innerToStore
  | .innerToLoad => w.innerToLoad
  | .serdeToLoad => w.serdeToLoad

def put (w : SerdeL2AdapterWrapper) (d : Dict Nat Nat) : ReverseMap → SerdeL2AdapterWrapper
  | .serdeToStore => { w with serdeToStore := d }
  | .innerToStore => { w with innerToStore := d }
  | .innerToLoad => { w with innerToLoad := d }
  | .serdeToLoad => { w with serdeToLoad := d }

def stage : ReverseMap → Stage
  | .innerToStore => .reading
  | _ => .written

theorem counted_erase (m : ReverseMap) {w : SerdeL2AdapterWrapper}
    (h : (m.get w).get? n = some id) :
    Counted w.mapped (m.put w ((m.get w).erase n)).mapped id (some m.stage) none := by
  intro j t
  have hCount := count_values_erase h j
  cases m <;> cases t <;>
    simp [get, put, stage, mark, SerdeL2AdapterWrapper.mapped] at hCount ⊢ <;> omega

theorem counted_set (m : ReverseMap) (w : SerdeL2AdapterWrapper) (n id : Nat) :
    Counted w.mapped (m.put w ((m.get w).set n id)).mapped id none (some m.stage) := by
  intro j t
  have hCount := count_values_set (m.get w) n id j
  cases m <;> cases t <;>
    simp [get, put, stage, mark, SerdeL2AdapterWrapper.mapped] at hCount ⊢ <;> omega

end ReverseMap

end Maps

end LMCache.Serde
