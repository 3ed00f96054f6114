import LMCache.Coordinator.Quiesce
import LMCache.Coordinator.DirectoryInvariant

/-!
# Captures are consistent

The lock counts the calls in flight, so the components are read while no call is. What is
written is then the state after a number of whole calls. A caller is parked only while the
quiesce is requested, because every release notifies all of them.
-/

namespace LMCache.Coordinator

open Lib Serde List Option

namespace CheckpointSystem

variable {s t : CheckpointSystem} {fleet : Fleet} {i : Nat} {c : Caller}

/-- What a step does: one case for each outcome, with what it found. -/
inductive Moves (s : CheckpointSystem) : CheckpointSystem → Prop
  | call {i : Nat} {action : Fleet.Action} (hc : s.callers[i]? = some .idle) :
      Moves s (s.setCaller i (.calling action))
  | park {i : Nat} {action : Fleet.Action} (hc : s.callers[i]? = some (.calling action))
      (hRequested : s.quiesceRequested = true) : Moves s (s.setCaller i (.parked action))
  | enter {i : Nat} {action : Fleet.Action} (hc : s.callers[i]? = some (.calling action))
      (hOpen : s.quiesceRequested = false) :
      Moves s { s.setCaller i (.applying action) with inFlight := s.inFlight + 1 }
  | lock {i : Nat} {action : Fleet.Action} (hc : s.callers[i]? = some (.applying action))
      (hFree : s.gateLock = none) :
      Moves s { s.setCaller i (.locked (s.fleet.calls action)) with
        gateLock := some i, applied := s.applied ++ [action] }
  | run {i : Nat} {call : GateCall} {todo : List GateCall}
      (hc : s.callers[i]? = some (.locked (call :: todo))) :
      Moves s { s.setCaller i (.locked todo) with fleet := s.fleet.run call }
  | unlock {i : Nat} (hc : s.callers[i]? = some (.locked [])) :
      Moves s { s.setCaller i .leaving with gateLock := none }
  | leave {i : Nat} (hc : s.callers[i]? = some .leaving) :
      Moves s (let left := { s.setCaller i .idle with inFlight := s.inFlight - 1 }
        if left.inFlight = 0 then left.notifyAll else left)
  | request (hSaver : s.saver = .idle) :
      Moves s (checkInFlight { s with quiesceRequested := true }
        { s with quiesceRequested := true, saver := .waiting })
  | wake (hSaver : s.saver = .notified) : Moves s (s.checkInFlight { s with saver := .waiting })
  | timeout (hSaver : s.saver = .waiting ∨ s.saver = .notified) :
      Moves s (s.checkInFlight { s.releaseLocked with saver := .idle })
  | capture {sections : Checkpoint} {component : Component} {rest : List Component}
      (hSaver : s.saver = .capturing sections (component :: rest)) :
      Moves s { s with saver := .capturing (sections.add s.fleet component) rest }
  | release {sections : Checkpoint} (hSaver : s.saver = .capturing sections []) :
      Moves s { s.releaseLocked with saver := .writing sections }
  | write {sections : Checkpoint} (hSaver : s.saver = .writing sections) (succeeds : Bool) :
      Moves s { s with
        saver := .idle, written := if succeeds then s.written ++ [sections] else s.written }

theorem moves_of_next {step : CheckpointStep} (hNext : s.next step = some t) : s.Moves t := by
  unfold next at hNext
  split at hNext
  · split at hNext <;> cases hNext
    exact .call ‹_›
  · split at hNext
    · split at hNext
      · cases hNext
        exact .park ‹_› ‹_›
      · rename_i hOpen
        cases hNext
        exact .enter ‹_› (Bool.eq_false_iff.mpr hOpen)
    · cases hNext
  · split at hNext <;> cases hNext
    exact .lock ‹_› ‹_›
  · split at hNext <;> cases hNext
    exact .run ‹_›
  · split at hNext <;> cases hNext
    exact .unlock ‹_›
  · split at hNext <;> cases hNext
    exact .leave ‹_›
  · split at hNext <;> cases hNext
    exact .request ‹_›
  · split at hNext <;> cases hNext
    exact .wake ‹_›
  · split at hNext <;> cases hNext
    · exact .timeout (.inl ‹_›)
    · exact .timeout (.inr ‹_›)
  · split at hNext
    · split at hNext <;> cases hNext
      exact .capture ‹_›
    · cases hNext
      exact .capture ‹_›
    · cases hNext
  · split at hNext <;> cases hNext
    exact .release ‹_›
  · split at hNext <;> cases hNext
    exact .write ‹_› _

def replay (fleet : Fleet) (actions : List Fleet.Action) : Fleet := actions.foldl Fleet.act fleet

/-- The state of some whole calls that were applied is in the checkpoint. -/
def Taken (fleet : Fleet) (s : CheckpointSystem) (sections : Checkpoint) : Prop :=
  ∃ actions, actions <+: s.applied ∧ sections = (replay fleet actions).capture

structure Orderly (fleet : Fleet) (s : CheckpointSystem) : Prop where
  counted : s.inFlight = s.callers.countP Caller.inFlight
  held : ∀ i, s.gateLock = some i ↔ ∃ todo, s.callers[i]? = some (.locked todo)
  free : s.gateLock = none → s.fleet = replay fleet s.applied
  busy : ∀ (i : Nat) todo, s.callers[i]? = some (.locked todo) →
    todo.foldl Fleet.run s.fleet = replay fleet s.applied
  parked : ∀ (i : Nat) action, s.callers[i]? = some (.parked action) → s.quiesceRequested = true
  requested : s.quiesceRequested = s.saver.quiescing
  waiting : s.saver = .waiting → 0 < s.inFlight
  capturing : ∀ sections rest, s.saver = .capturing sections rest →
    s.inFlight = 0 ∧ rest.foldl (Checkpoint.add s.fleet) sections = s.fleet.capture
  taken : ∀ sections, s.saver = .writing sections ∨ sections ∈ s.written → Taken fleet s sections

theorem orderly_new (callers : Nat) (fleet : Fleet) : Orderly fleet (new callers fleet) where
  counted := by
    rw [new, countP_replicate]
    rfl
  held := by
    intro i
    refine ⟨nofun, ?_⟩
    rintro ⟨todo, hLocked⟩
    cases eq_of_mem_replicate (mem_of_getElem? hLocked)
  free := fun _ => rfl
  busy := fun i todo hLocked => by cases eq_of_mem_replicate (mem_of_getElem? hLocked)
  parked := fun i action hParked => by
    cases eq_of_mem_replicate (mem_of_getElem? hParked)
  requested := rfl
  waiting := nofun
  capturing := nofun
  taken := fun sections h => by rcases h with h | h <;> cases h

variable {callers : List Caller}

theorem getElem?_set_of_get (h : callers[i]? = some c) (c' : Caller) (j : Nat) :
    (callers.set i c')[j]? = if i = j then some c' else callers[j]? := by
  rw [getElem?_set]
  split
  · exact if_pos (List.getElem?_eq_some_iff.mp h).1
  · rfl

theorem locked_set (hc : callers[i]? = some c) {c' : Caller} (hOld : ∀ todo, c ≠ .locked todo)
    (hNew : ∀ todo, c' ≠ .locked todo) (j : Nat) (todo : List GateCall) :
    (callers.set i c')[j]? = some (.locked todo) ↔ callers[j]? = some (.locked todo) := by
  rw [getElem?_set_of_get hc]
  split
  · rename_i hij
    rw [← hij, hc]
    exact iff_of_false (fun h => hNew todo (some.inj h)) fun h => hOld todo (some.inj h)
  · rfl

theorem countP_set_of_get (h : callers[i]? = some c) (c' : Caller) :
    (callers.set i c').countP Caller.inFlight + (if c.inFlight then 1 else 0) =
      callers.countP Caller.inFlight + if c'.inFlight then 1 else 0 := by
  obtain ⟨hi, hc⟩ := List.getElem?_eq_some_iff.mp h
  have hLe : (if c.inFlight then 1 else 0) ≤ callers.countP Caller.inFlight := by
    split
    · rename_i hFlight
      exact countP_pos_iff.mpr ⟨c, mem_of_getElem? h, hFlight⟩
    · exact Nat.zero_le _
  rw [countP_set hi, hc]
  omega

theorem notified_eq_locked {todo : List GateCall} :
    (callers.map Caller.notified)[i]? = some (.locked todo) ↔
      callers[i]? = some (.locked todo) := by
  rw [getElem?_map, map_eq_some_iff]
  constructor
  · rintro ⟨c, hc, hNotified⟩
    cases c with
    | locked todo' =>
      rw [hc]
      exact congrArg some hNotified
    | _ => cases hNotified
  · exact fun hLocked => ⟨_, hLocked, rfl⟩

theorem notified_ne_parked (action : Fleet.Action) :
    (callers.map Caller.notified)[i]? ≠ some (.parked action) := by
  rw [getElem?_map, Ne, map_eq_some_iff]
  rintro ⟨c, hc, hNotified⟩
  cases c <;> cases hNotified

theorem countP_notified (callers : List Caller) :
    (callers.map Caller.notified).countP Caller.inFlight = callers.countP Caller.inFlight := by
  rw [countP_map]
  refine countP_congr fun c _ => ?_
  cases c <;> rfl

theorem quiescing_afterNotify (saver : Saver) : saver.afterNotify.quiescing = saver.quiescing := by
  cases saver <;> rfl

namespace Orderly

theorem not_inFlight (h : Orderly fleet s) (hZero : s.inFlight = 0)
    (hc : s.callers[i]? = some c) : c.inFlight = false := by
  rw [h.counted, countP_eq_zero] at hZero
  simpa using hZero c (mem_of_getElem? hc)

variable {sections : Checkpoint} {rest : List Component}

theorem not_capturing (h : Orderly fleet s) (hc : s.callers[i]? = some c) (hFlight : c.inFlight) :
    s.saver ≠ .capturing sections rest := by
  intro hSaver
  have hOut := h.not_inFlight (h.capturing sections rest hSaver).1 hc
  rw [hFlight] at hOut
  cases hOut

theorem inFlight_pos (h : Orderly fleet s) (hc : s.callers[i]? = some c) (hFlight : c.inFlight) :
    0 < s.inFlight := by
  rw [h.counted]
  exact countP_pos_iff.mpr ⟨c, mem_of_getElem? hc, hFlight⟩

variable {todo : List GateCall}

theorem holder_unique (h : Orderly fleet s) {j : Nat} {todo' : List GateCall}
    (hi : s.callers[i]? = some (.locked todo)) (hj : s.callers[j]? = some (.locked todo')) :
    i = j :=
  some.inj (((h.held i).mpr ⟨todo, hi⟩).symm.trans ((h.held j).mpr ⟨todo', hj⟩))

theorem parked_set (h : Orderly fleet s) (hc : s.callers[i]? = some c) {c' : Caller}
    (hNew : ∀ action, c' = .parked action → s.quiesceRequested = true) (j : Nat)
    (action : Fleet.Action) (hParked : (s.callers.set i c')[j]? = some (.parked action)) :
    s.quiesceRequested = true := by
  rw [getElem?_set_of_get hc] at hParked
  split at hParked
  · exact hNew action (some.inj hParked)
  · exact h.parked j action hParked

theorem counted_set (h : Orderly fleet s) (hc : s.callers[i]? = some c) {c' : Caller}
    (hFlight : c'.inFlight = c.inFlight) :
    s.inFlight = (s.callers.set i c').countP Caller.inFlight := by
  have hCount := countP_set_of_get hc c'
  rw [hFlight] at hCount
  exact h.counted.trans (Nat.add_right_cancel hCount).symm

theorem move (h : Orderly fleet s) (hc : s.callers[i]? = some c) {c' : Caller}
    (hFlight : c'.inFlight = c.inFlight) (hUnlocked : ∀ todo, c ≠ .locked todo)
    (hUnlocked' : ∀ todo, c' ≠ .locked todo)
    (hParked : ∀ action, c' = .parked action → s.quiesceRequested = true) :
    Orderly fleet (s.setCaller i c') where
  counted := h.counted_set hc hFlight
  held j := (h.held j).trans
    (exists_congr fun todo => (locked_set hc hUnlocked hUnlocked' j todo).symm)
  free := h.free
  busy j todo hTodo := h.busy j todo ((locked_set hc hUnlocked hUnlocked' j todo).mp hTodo)
  parked := h.parked_set hc hParked
  requested := h.requested
  waiting := h.waiting
  capturing := h.capturing
  taken := h.taken

variable {action : Fleet.Action}

theorem enter (h : Orderly fleet s) (hc : s.callers[i]? = some (.calling action))
    (hOpen : s.quiesceRequested = false) :
    Orderly fleet { s.setCaller i (.applying action) with inFlight := s.inFlight + 1 } := by
  have hSaver : s.saver.quiescing = false := h.requested.symm.trans hOpen
  have hCount := countP_set_of_get hc (.applying action)
  have hLocked : ∀ (j : Nat) todo, (s.callers.set i (.applying action))[j]? =
      some (.locked todo) ↔ s.callers[j]? = some (.locked todo) := locked_set hc nofun nofun
  refine ⟨?_, fun j => (h.held j).trans (exists_congr fun todo => (hLocked j todo).symm), h.free,
    fun j todo hTodo => h.busy j todo ((hLocked j todo).mp hTodo), h.parked_set hc nofun,
    h.requested, fun _ => Nat.succ_pos _, fun sections rest hCapture => ?_, h.taken⟩
  · simpa [setCaller, h.counted, Caller.inFlight] using hCount.symm
  · rw [show s.saver = _ from hCapture] at hSaver
    cases hSaver

theorem lock (h : Orderly fleet s) (hc : s.callers[i]? = some (.applying action))
    (hFree : s.gateLock = none) :
    Orderly fleet { s.setCaller i (.locked (s.fleet.calls action)) with
      gateLock := some i, applied := s.applied ++ [action] } := by
  have hNone : ∀ (j : Nat) todo, s.callers[j]? ≠ some (.locked todo) := by
    intro j todo hTodo
    have hHeld := (h.held j).mpr ⟨todo, hTodo⟩
    rw [hFree] at hHeld
    cases hHeld
  refine ⟨h.counted_set hc rfl, fun j => ?_, nofun, fun j todo hTodo => ?_,
    h.parked_set hc nofun, h.requested, h.waiting,
    fun sections rest hCapture => absurd hCapture (h.not_capturing hc rfl),
    fun sections hSections => ?_⟩
  · dsimp only [setCaller]
    rw [getElem?_set_of_get hc]
    split
    · rename_i hij
      subst hij
      exact ⟨fun _ => ⟨_, rfl⟩, fun _ => rfl⟩
    · rename_i hij
      constructor
      · exact fun hEq => absurd (some.inj hEq) hij
      · rintro ⟨todo, hTodo⟩
        exact absurd hTodo (hNone j todo)
  · dsimp only [setCaller] at hTodo
    rw [getElem?_set_of_get hc] at hTodo
    split at hTodo
    · obtain rfl := Caller.locked.inj (some.inj hTodo)
      refine (s.fleet.foldl_calls action).trans ?_
      rw [replay, foldl_append, h.free hFree]
      rfl
    · exact absurd hTodo (hNone j todo)
  · obtain ⟨actions, hPrefix, hEq⟩ := h.taken sections hSections
    exact ⟨actions, hPrefix.trans (prefix_append _ _), hEq⟩

theorem run (h : Orderly fleet s) {call : GateCall}
    (hc : s.callers[i]? = some (.locked (call :: todo))) :
    Orderly fleet { s.setCaller i (.locked todo) with fleet := s.fleet.run call } := by
  have hHeld := (h.held i).mpr ⟨_, hc⟩
  refine ⟨h.counted_set hc rfl, fun j => ?_, fun hFree => ?_, fun j todo' hTodo => ?_,
    h.parked_set hc nofun, h.requested, h.waiting,
    fun sections rest hCapture => absurd hCapture (h.not_capturing hc rfl), h.taken⟩
  · refine (h.held j).trans ?_
    dsimp only [setCaller]
    rw [getElem?_set_of_get hc]
    split
    · rename_i hij
      subst hij
      rw [hc]
      exact ⟨fun _ => ⟨_, rfl⟩, fun _ => ⟨_, rfl⟩⟩
    · rfl
  · rw [show s.gateLock = none from hFree] at hHeld
    cases hHeld
  · dsimp only [setCaller] at hTodo ⊢
    rw [getElem?_set_of_get hc] at hTodo
    split at hTodo
    · obtain rfl := Caller.locked.inj (some.inj hTodo)
      exact h.busy i _ hc
    · rename_i hij
      exact absurd (h.holder_unique hc hTodo) hij

theorem unlock (h : Orderly fleet s) (hc : s.callers[i]? = some (.locked [])) :
    Orderly fleet { s.setCaller i .leaving with gateLock := none } := by
  have hNone : ∀ (j : Nat) todo, (s.callers.set i .leaving)[j]? ≠ some (.locked todo) := by
    intro j todo hTodo
    rw [getElem?_set_of_get hc] at hTodo
    split at hTodo
    · cases hTodo
    · rename_i hij
      exact absurd (h.holder_unique hc hTodo) hij
  exact ⟨h.counted_set hc rfl, fun j => ⟨nofun, fun ⟨todo, hTodo⟩ => absurd hTodo (hNone j todo)⟩,
    fun _ => h.busy i [] hc, fun j todo hTodo => absurd hTodo (hNone j todo),
    h.parked_set hc nofun, h.requested, h.waiting,
    fun sections rest hCapture => absurd hCapture (h.not_capturing hc rfl), h.taken⟩

theorem leave (h : Orderly fleet s) (hc : s.callers[i]? = some .leaving) :
    let left := { s.setCaller i .idle with inFlight := s.inFlight - 1 }
    Orderly fleet (if left.inFlight = 0 then left.notifyAll else left) := by
  intro left
  have hPos := h.inFlight_pos hc rfl
  have hNone : ∀ {sections rest}, s.saver ≠ .capturing sections rest := h.not_capturing hc rfl
  have hCount : s.inFlight - 1 = (s.callers.set i .idle).countP Caller.inFlight := by
    have := countP_set_of_get hc .idle
    rw [h.counted]
    simp only [Caller.inFlight, if_true, Bool.false_eq_true, if_false] at this
    omega
  have hLocked : ∀ (j : Nat) todo, (s.callers.set i .idle)[j]? = some (.locked todo) ↔
      s.callers[j]? = some (.locked todo) := locked_set hc nofun nofun
  split
  · refine ⟨hCount.trans (countP_notified _).symm, fun j => ?_, h.free, fun j todo hTodo => ?_,
      fun j action hAction => absurd hAction (notified_ne_parked action),
      h.requested.trans (quiescing_afterNotify s.saver).symm, fun hWaiting => ?_,
      fun sections rest hCapture => ?_, fun sections hSections => h.taken sections ?_⟩
    · refine (h.held j).trans (exists_congr fun todo => ?_)
      exact (notified_eq_locked.trans (hLocked j todo)).symm
    · exact h.busy j todo ((notified_eq_locked.trans (hLocked j todo)).mp hTodo)
    · have hWait : s.saver.afterNotify = .waiting := hWaiting
      cases hSaver : s.saver <;> rw [hSaver] at hWait <;> cases hWait
    · have hNotified : s.saver.afterNotify = .capturing sections rest := hCapture
      cases hSaver : s.saver with
      | capturing sections' rest' => exact absurd hSaver hNone
      | _ =>
        rw [hSaver] at hNotified
        cases hNotified
    · refine hSections.imp_left fun hWriting => ?_
      have hNotified : s.saver.afterNotify = .writing sections := hWriting
      cases hSaver : s.saver with
      | writing sections' =>
        rw [hSaver] at hNotified
        exact hNotified
      | _ =>
        rw [hSaver] at hNotified
        cases hNotified
  · rename_i hLeft
    exact ⟨hCount, fun j => (h.held j).trans (exists_congr fun todo => (hLocked j todo).symm),
      h.free, fun j todo hTodo => h.busy j todo ((hLocked j todo).mp hTodo),
      h.parked_set hc nofun, h.requested, fun _ => Nat.pos_of_ne_zero hLeft,
      fun sections rest hCapture => absurd hCapture hNone, h.taken⟩

theorem startCapture (h : Orderly fleet s) (hZero : s.inFlight = 0) {isRequested : Bool}
    (hRequested : isRequested = true) :
    Orderly fleet { s with
      quiesceRequested := isRequested, saver := .capturing .empty components } where
  counted := h.counted
  held := h.held
  free := h.free
  busy := h.busy
  parked := fun _ _ _ => hRequested
  requested := hRequested
  waiting := nofun
  capturing := by
    intro sections rest hSaver
    obtain ⟨rfl, rfl⟩ := Saver.capturing.inj hSaver
    exact ⟨hZero, rfl⟩
  taken := fun sections hSections =>
    h.taken sections (Or.inr (hSections.resolve_left nofun))

theorem request (h : Orderly fleet s) :
    Orderly fleet (checkInFlight { s with quiesceRequested := true }
      { s with quiesceRequested := true, saver := .waiting }) := by
  unfold checkInFlight
  split
  · rename_i hZero
    exact h.startCapture hZero rfl
  · rename_i hBusy
    refine ⟨h.counted, h.held, h.free, h.busy, fun _ _ _ => rfl, rfl,
      fun _ => Nat.pos_of_ne_zero hBusy, nofun, fun sections hSections => ?_⟩
    exact h.taken sections (Or.inr (hSections.resolve_left nofun))

theorem wake (h : Orderly fleet s) (hSaver : s.saver = .notified) :
    Orderly fleet (s.checkInFlight { s with saver := .waiting }) := by
  have hRequested : s.quiesceRequested = true := by
    rw [h.requested, hSaver]
    rfl
  unfold checkInFlight
  split
  · rename_i hZero
    exact h.startCapture hZero hRequested
  · rename_i hBusy
    refine ⟨h.counted, h.held, h.free, h.busy, h.parked, hRequested,
      fun _ => Nat.pos_of_ne_zero hBusy, nofun, fun sections hSections => ?_⟩
    exact h.taken sections (Or.inr (hSections.resolve_left nofun))

theorem released (h : Orderly fleet s) {saver : Saver} (hQuiet : saver.quiescing = false)
    (hTaken : ∀ sections, saver = .writing sections → Taken fleet s sections) :
    Orderly fleet { s.releaseLocked with saver := saver } where
  counted := h.counted.trans (countP_notified _).symm
  held := fun j => (h.held j).trans (exists_congr fun _ => notified_eq_locked.symm)
  free := h.free
  busy := fun j todo hTodo => h.busy j todo (notified_eq_locked.mp hTodo)
  parked := fun j action hAction => absurd hAction (notified_ne_parked action)
  requested := hQuiet.symm
  waiting := by
    intro hWaiting
    rw [show saver = .waiting from hWaiting] at hQuiet
    cases hQuiet
  capturing := by
    intro sections rest hCapture
    rw [show saver = .capturing sections rest from hCapture] at hQuiet
    cases hQuiet
  taken := by
    intro sections hSections
    rcases hSections with hWriting | hWritten
    · exact hTaken sections hWriting
    · exact h.taken sections (Or.inr hWritten)

theorem timeout (h : Orderly fleet s) (hSaver : s.saver = .waiting ∨ s.saver = .notified) :
    Orderly fleet (s.checkInFlight { s.releaseLocked with saver := .idle }) := by
  unfold checkInFlight
  split
  · rename_i hZero
    refine h.startCapture hZero ?_
    rw [h.requested]
    rcases hSaver with hSaver | hSaver <;> rw [hSaver] <;> rfl
  · exact h.released rfl nofun

theorem captureNext (h : Orderly fleet s) {component : Component}
    (hSaver : s.saver = .capturing sections (component :: rest)) :
    Orderly fleet { s with saver := .capturing (sections.add s.fleet component) rest } where
  counted := h.counted
  held := h.held
  free := h.free
  busy := h.busy
  parked := h.parked
  requested := by
    rw [h.requested, hSaver]
    rfl
  waiting := nofun
  capturing := by
    intro sections' rest' hNext
    obtain ⟨rfl, rfl⟩ := Saver.capturing.inj hNext
    exact h.capturing sections _ hSaver
  taken := fun sections' hSections =>
    h.taken sections' (Or.inr (hSections.resolve_left nofun))

theorem captured (h : Orderly fleet s) (hSaver : s.saver = .capturing sections []) :
    Taken fleet s sections := by
  obtain ⟨hZero, hSections⟩ := h.capturing sections [] hSaver
  have hFree : s.gateLock = none := by
    cases hLock : s.gateLock with
    | none => rfl
    | some i =>
      obtain ⟨todo, hTodo⟩ := (h.held i).mp hLock
      cases h.not_inFlight hZero hTodo
  refine ⟨s.applied, prefix_rfl, ?_⟩
  rw [← h.free hFree]
  exact hSections

theorem write (h : Orderly fleet s) (hSaver : s.saver = .writing sections) (succeeds : Bool) :
    Orderly fleet { s with
      saver := .idle, written := if succeeds then s.written ++ [sections] else s.written } where
  counted := h.counted
  held := h.held
  free := h.free
  busy := h.busy
  parked := h.parked
  requested := by
    rw [h.requested, hSaver]
    rfl
  waiting := nofun
  capturing := nofun
  taken := by
    intro sections' hSections
    have hMem := hSections.resolve_left nofun
    dsimp only at hMem
    split at hMem
    · rcases mem_append.mp hMem with hOld | hNew
      · exact h.taken sections' (Or.inr hOld)
      · rw [mem_singleton.mp hNew]
        exact h.taken sections (Or.inl hSaver)
    · exact h.taken sections' (Or.inr hMem)

theorem next (h : Orderly fleet s) {step : CheckpointStep} (hNext : s.next step = some t) :
    Orderly fleet t := by
  cases moves_of_next hNext with
  | call hc => exact h.move hc rfl nofun nofun nofun
  | park hc hRequested => exact h.move hc rfl nofun nofun fun _ _ => hRequested
  | enter hc hOpen => exact h.enter hc hOpen
  | lock hc hFree => exact h.lock hc hFree
  | run hc => exact h.run hc
  | unlock hc => exact h.unlock hc
  | leave hc => exact h.leave hc
  | request _ => exact h.request
  | wake hSaver => exact h.wake hSaver
  | timeout hSaver => exact h.timeout hSaver
  | capture hSaver => exact h.captureNext hSaver
  | release hSaver =>
    refine h.released rfl fun sections' hWriting => ?_
    obtain rfl := Saver.writing.inj hWriting
    exact h.captured hSaver
  | write hSaver succeeds => exact h.write hSaver succeeds

/-- No call is in flight while the components are read, so no step changes one. -/
theorem capturing_frame (h : Orderly fleet s) {sections : Checkpoint}
    {rest : List Component} (hSaver : s.saver = .capturing sections rest) {step : CheckpointStep}
    (hNext : s.next step = some t) : t.fleet = s.fleet ∧ t.applied = s.applied := by
  cases moves_of_next hNext with
  | lock hc _ | run hc | leave hc => exact absurd hSaver (h.not_capturing hc rfl)
  | request hIdle => cases hSaver.symm.trans hIdle
  | wake hNotified => cases hSaver.symm.trans hNotified
  | timeout hWaits => rcases hWaits with hWaits | hWaits <;> cases hSaver.symm.trans hWaits
  | _ => exact ⟨rfl, rfl⟩

end Orderly

/-- For any number of callers and any interleaving: every written checkpoint is the state of
the components after some whole calls, none is applied between two captures, and outside a
quiesce nobody is parked and every caller can go on. A saver that waits is not forgotten. -/
theorem captures_consistent (callers : Nat) (fleet : Fleet) {steps : List CheckpointStep}
    (h : Run (fun s step t => CheckpointSystem.next s step = some t) (new callers fleet) steps s) :
    (∀ sections ∈ s.written, ∃ actions, actions <+: s.applied ∧
      sections = (actions.foldl Fleet.act fleet).capture) ∧
    (∀ sections rest step t, s.saver = .capturing sections rest → s.next step = some t →
      t.fleet = s.fleet ∧ t.applied = s.applied) ∧
    (s.saver.quiescing = false → ∀ (i : Nat) action,
      s.callers[i]? ≠ some (.parked action) ∧
      (s.callers[i]? = some (.calling action) → ∃ t, s.next (.enter i) = some t ∧
        t.callers[i]? = some (.applying action))) ∧
    (s.saver = .waiting → 0 < s.inFlight) := by
  have hOrderly : Orderly fleet s :=
    h.invariant (I := Orderly fleet) (fun _ _ _ hs hNext => hs.next hNext)
      (orderly_new callers fleet)
  refine ⟨fun sections hWritten => hOrderly.taken sections (Or.inr hWritten),
    fun sections rest step t hSaver hNext => hOrderly.capturing_frame hSaver hNext,
    fun hQuiet i action => ⟨fun hParked => ?_, fun hCalling => ?_⟩, hOrderly.waiting⟩
  · have hRequested := hOrderly.parked i action hParked
    rw [hOrderly.requested, hQuiet] at hRequested
    cases hRequested
  · have hOpen : s.quiesceRequested = false := hOrderly.requested.trans hQuiet
    refine ⟨{ s.setCaller i (.applying action) with inFlight := s.inFlight + 1 }, ?_, ?_⟩
    · simp only [next, hCalling, hOpen, Bool.false_eq_true, if_false]
    · exact (getElem?_set_of_get hCalling _ i).trans (if_pos rfl)

end CheckpointSystem

namespace Sample

/-- A checkpoint is requested during the first call, and a second caller is parked until it is
released. -/
def parking : List CheckpointStep :=
  [.call 0 (.ingest (stored "a" name_ne .l1)), .enter 0, .lock 0, .run 0, .request,
    .call 1 (.dropInstance "a"), .enter 1, .run 0, .run 0, .run 0, .run 0, .unlock 0, .leave 0,
    .wake, .capture, .capture, .capture, .capture, .enter 1, .capture, .release, .enter 1,
    .write true, .lock 1]

end Sample

namespace CheckpointSystem

/-- The checkpoint has the first call, and the second one went on. -/
theorem captures_consistent_parking :
    ∃ s, Run (fun s step t => CheckpointSystem.next s step = some t)
        (new 2 (Fleet.fresh (.new 1 1))) Sample.parking s ∧
      s.applied.length = 2 ∧ s.written.length = 1 ∧
      ∀ sections ∈ s.written, ∃ actions, actions <+: s.applied ∧
        sections = (actions.foldl Fleet.act (Fleet.fresh (.new 1 1))).capture := by
  obtain ⟨s, hRun, hApplied, hWritten⟩ := Run.exists_of_exec CheckpointSystem.next
    (new 2 (Fleet.fresh (.new 1 1))) Sample.parking
    (fun s => s.applied.length = 2 ∧ s.written.length = 1) (by decide +kernel)
  exact ⟨s, hRun, hApplied, hWritten, (captures_consistent 2 _ hRun).1⟩

end CheckpointSystem

end LMCache.Coordinator
