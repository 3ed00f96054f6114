import LMCache.MaKV.ScoutRuns

/-!
# How long a submitted job is kept

A submission that is accepted promises its job for the time to live of a result. The cleanup
goes by the time at which the job was first submitted, which for a request that was given the
job of an earlier one is not the time of its own submission. The promises are kept in every run
in which no cleanup comes upon such a job after it has completed.
-/

namespace LMCache.MaKV

open Lib ScoutExecutor ScoutTables Thread Option Dict

variable {F : Type} {service : ScoutJobService} {runtime : ScoutRuntime F}

section Promises

variable {promises : String → Nat → Prop} {stale : Nat → Prop} {tables : ScoutTables}
  {e e' : ScoutExecutor F} {now : Int}

/-- Every request that was promised a future has its job, unless that has failed. -/
structure ScoutTables.Held (promises : String → Nat → Prop) (tables : ScoutTables)
    (e : ScoutExecutor F) : Prop where
  linked : Linked tables e
  kept : ∀ r future, promises r future →
    (∃ job, tables.jobs.get? r = some job ∧ job.future = future) ∨ Failed e future

/-- None of these futures has completed with a result. -/
def ScoutExecutor.Quiet (stale : Nat → Prop) (e : ScoutExecutor F) : Prop :=
  ∀ future, stale future → ∀ task, e[future]? = some task → ∀ result, task.state ≠ .done result

/-- The moves of a worker that completes none of these futures. -/
def ScoutExecutor.QuietMoves (runtime : ScoutRuntime F) (stale : Nat → Prop)
    (e e' : ScoutExecutor F) : Prop :=
  Moves runtime e e' ∧ (Quiet stale e → Quiet stale e')

theorem ScoutExecutor.QuietMoves.refl (e : ScoutExecutor F) : QuietMoves runtime stale e e :=
  ⟨Moves.refl e, id⟩

theorem ScoutExecutor.QuietMoves.trans {e'' : ScoutExecutor F} (h : QuietMoves runtime stale e e')
    (h' : QuietMoves runtime stale e' e'') : QuietMoves runtime stale e e'' :=
  ⟨h.1.trans h'.1, fun hQuiet => h'.2 (h.2 hQuiet)⟩

/-- What a thread of the event loop ends with, whatever a quiet worker does. -/
abbrev EndsWith {α : Type} (runtime : ScoutRuntime F) (stale : Nat → Prop)
    (p : Thread (ScoutExecutor F) α) (post : α → ScoutExecutor F → Prop) (e : ScoutExecutor F) :
    Prop :=
  p.Ensures (QuietMoves runtime stale) (fun _ _ => True) post e

theorem ScoutTables.Held.moves (h : Held promises tables e) (hMove : Moves runtime e e') :
    Held promises tables e' := by
  refine ⟨h.linked.longer hMove.length_eq.le, ?_⟩
  intro r future hPromise
  rcases h.kept r future hPromise with hJob | hFailed
  · exact Or.inl hJob
  · exact Or.inr (hFailed.moves hMove)

/-- What holds whatever the worker does holds with a quiet one. -/
theorem endsWith_of_ensures {α : Type} {p : Thread (ScoutExecutor F) α}
    {post : α → ScoutExecutor F → Prop}
    (h : p.Ensures (Moves runtime) (Grows 0) post e) : EndsWith runtime stale p post e :=
  h.weaken (fun _ _ hMove => hMove.1) fun _ _ _ => trivial

variable (service)

theorem evictCompleted_endsWith (rounds : Nat) (h : Held promises tables e) :
    EndsWith runtime stale (service.evictCompleted rounds tables)
      (fun t e' => Held promises t e' ∧ t.jobs = tables.jobs) e := by
  induction rounds generalizing tables e with
  | zero => exact fun e' hMove => ⟨h.moves hMove.1, rfl⟩
  | succ rounds ih =>
    unfold ScoutJobService.evictCompleted
    split
    · exact fun e' hMove => ⟨h.moves hMove.1, rfl⟩
    · have hSelect : EndsWith runtime stale (selectDone tables.promptJobs.values)
          (fun _ e' => Moves runtime e e') e := endsWith_of_ensures (selectDone_ensures _ e)
      apply hSelect.bind QuietMoves.refl
      intro completed e₁ h₁
      split
      · exact fun e' hMove => ⟨(h.moves h₁).moves hMove.1, rfl⟩
      · split
        · refine (ih ⟨(h.moves h₁).linked.erasePrompt _, (h.moves h₁).kept⟩).mono ?_
          exact fun t e' hPost => hPost
        · exact ih (h.moves h₁)

/-- The invariant of the loop of `_cleanup`, with `rest` still to be looked at: the jobs that are
promised and too old are among the futures that have not completed. -/
structure CleaningUp (promises : String → Nat → Prop) (stale : Nat → Prop) (now : Int)
    (tables : ScoutTables) (rest : List ScoutJob) (e : ScoutExecutor F) : Prop where
  held : Held promises tables e
  quiet : Quiet stale e
  aged : ∀ r job, promises r job.future → tables.jobs.get? r = some job →
    job.submittedAt + service.resultTtl ≤ now → stale job.future
  same : ∀ job ∈ rest, ∀ r found, tables.jobs.get? r = some found →
    found.future = job.future → found = job

variable {service} {rest : List ScoutJob}

theorem CleaningUp.later (h : CleaningUp service promises stale now tables rest e)
    (hMove : QuietMoves runtime stale e e') :
    CleaningUp service promises stale now tables rest e' :=
  ⟨h.held.moves hMove.1, hMove.2 h.quiet, h.aged, h.same⟩

variable {job : ScoutJob}

theorem CleaningUp.skip (h : CleaningUp service promises stale now tables (job :: rest) e) :
    CleaningUp service promises stale now tables rest e :=
  ⟨h.held, h.quiet, h.aged, fun other hMem => h.same other (List.mem_cons_of_mem _ hMem)⟩

theorem CleaningUp.drop (h : CleaningUp service promises stale now tables (job :: rest) e)
    (hFree : Failed e job.future ∨ ∀ r, tables.jobs.get? r = some job → ¬ promises r job.future) :
    CleaningUp service promises stale now (tables.dropJob job) rest e := by
  have hSame := h.same job List.mem_cons_self
  refine ⟨⟨h.held.linked.dropJob hSame, ?_⟩, h.quiet, ?_, ?_⟩
  · intro r future hPromise
    rcases h.held.kept r future hPromise with ⟨found, hGet, rfl⟩ | hFailed
    · by_cases hDropped : found.future = job.future
      · rcases hFree with hFailed | hFree
        · exact Or.inr (hDropped ▸ hFailed)
        · obtain rfl := hSame r found hGet hDropped
          exact absurd hPromise (hFree r hGet)
      · exact Or.inl ⟨found, get?_dropJob_jobs.mpr ⟨hGet, hDropped⟩, rfl⟩
    · exact Or.inr hFailed
  · intro r found hPromise hGet
    exact h.aged r found hPromise (get?_dropJob_jobs.mp hGet).1
  · intro other hMem r found hGet
    exact h.same other (List.mem_cons_of_mem _ hMem) r found (get?_dropJob_jobs.mp hGet).1

theorem cleanupJob_endsWith (h : CleaningUp service promises stale now tables (job :: rest) e) :
    EndsWith runtime stale (service.cleanupJob now tables job)
      (fun t e' => CleaningUp service promises stale now t rest e') e := by
  have hLook : EndsWith runtime stale (job.futureState (F := F))
      (fun state e' => QuietMoves runtime stale e e' ∧
        (state = .failed → Failed e' job.future) ∧
        ∀ result, state = .done result → ¬ stale job.future) e := by
    apply ensures_read fun _ => trivial
    intro e₁ h₁ e₂ h₂
    refine ⟨h₁.trans h₂, ?_, ?_⟩
    · intro hState
      cases hAt : e₁[job.future]? with
      | none =>
        rw [hAt] at hState
        cases hState
      | some task =>
        rw [hAt] at hState
        exact Failed.moves ⟨task, hAt, hState⟩ h₂.1
    · intro result hState hStale
      cases hAt : e₁[job.future]? with
      | none =>
        rw [hAt] at hState
        cases hState
      | some task =>
        rw [hAt] at hState
        exact h₁.2 h.quiet job.future hStale task hAt result hState
  apply hLook.bind QuietMoves.refl
  rintro state e₁ ⟨h₁, hFailed, hDone⟩
  have hLater := h.later h₁
  cases state with
  | pending => exact ensures_ret fun e₂ h₂ => hLater.skip.later h₂
  | failed => exact ensures_ret fun e₂ h₂ => (hLater.drop (Or.inl (hFailed rfl))).later h₂
  | done result =>
    refine ensures_ret fun e₂ h₂ => ?_
    split
    · rename_i hOld
      refine (hLater.drop (Or.inr ?_)).later h₂
      intro r hGet hPromise
      exact hDone result rfl (h.aged r job hPromise hGet (by omega))
    · exact hLater.skip.later h₂

theorem cleanup_endsWith (h : Held promises tables e) (hQuiet : Quiet stale e)
    (hAged : ∀ r job, promises r job.future → tables.jobs.get? r = some job →
      job.submittedAt + service.resultTtl ≤ now → stale job.future) :
    EndsWith runtime stale (service.cleanup now tables) (fun t e' => Held promises t e') e := by
  have hStart : CleaningUp service promises stale now tables tables.uniqueJobs e := by
    refine ⟨h, hQuiet, hAged, ?_⟩
    intro job hMem r found hGet
    obtain ⟨r', hGet'⟩ := mem_uniqueJobs_values hMem
    exact h.linked.unique r r' found job hGet hGet'
  have hLoop : EndsWith runtime stale
      (tables.uniqueJobs.foldlM (service.cleanupJob (F := F) now) tables)
      (fun t e' => CleaningUp service promises stale now t [] e') e :=
    ensures_foldlM QuietMoves.refl (CleaningUp service promises stale now)
      (fun t job rest e' hInv => cleanupJob_endsWith hInv)
      (fun t e₁ e₂ hInv hMove => hInv.later hMove) hStart
  apply hLoop.bind QuietMoves.refl
  intro t e₁ hInv
  exact (evictCompleted_endsWith service _ hInv.held).mono fun _ _ hPost => hPost.1

/-- What a submission ends with: the promises are kept, and an accepted request has a job. -/
structure GivenJob (promises : String → Nat → Prop) (s : ScoutSubmission)
    (result : ScoutTables × SubmitReply) (e : ScoutExecutor F) : Prop where
  held : Held promises result.1 e
  placed : result.2.isAccepted = true → ∃ job, result.1.jobs.get? s.requestId = some job

theorem ScoutTables.Held.set (h : Held promises tables e) {r : String}
    {promptJobs : Dict String ScoutJob} (hFree : tables.jobs.get? r = none)
    (hLinked : Linked ⟨tables.jobs.set r job, promptJobs⟩ e')
    (hLater : ∀ future, Failed e future → Failed e' future) :
    Held promises ⟨tables.jobs.set r job, promptJobs⟩ e' := by
  refine ⟨hLinked, ?_⟩
  intro q future hPromise
  rcases h.kept q future hPromise with ⟨found, hGet, hFuture⟩ | hFailed
  · refine Or.inl ⟨found, ?_, hFuture⟩
    rw [get?_set_ne _ (by rintro rfl; rw [hFree] at hGet; cases hGet)]
    exact hGet
  · exact Or.inr (hLater future hFailed)

theorem failed_append {future : Nat} (task : ScoutTask F) (h : Failed e future) :
    Failed (e ++ [task]) future := by
  obtain ⟨old, hAt, hState⟩ := h
  refine ⟨old, ?_, hState⟩
  rw [List.getElem?_append_left (List.getElem?_eq_some_iff.mp hAt).1]
  exact hAt

variable {s : ScoutSubmission}

theorem startJob_endsWith {prompt : ScoutPrompt} (h : Held promises tables e)
    (hFree : tables.jobs.get? s.requestId = none) :
    EndsWith runtime stale (service.startJob tables s prompt now) (GivenJob promises s) e := by
  have hCount : EndsWith runtime stale (countPending tables.uniqueJobs)
      (fun _ e' => Moves runtime e e') e :=
    endsWith_of_ensures ((countPending_ensures _ e).mono fun _ _ hPost => hPost.1)
  apply hCount.bind QuietMoves.refl
  intro n e₁ h₁
  split
  · exact fun e₂ h₂ => ⟨(h.moves h₁).moves h₂.1, nofun⟩
  · let task : ScoutTask F :=
      ⟨s.tokenIds, prompt.scoreStart, prompt.scoreEnd, prompt.fullTokenCount, .pending⟩
    have hHand : EndsWith runtime stale
        (Thread.update (fun executor : ScoutExecutor F => executor ++ [task]) List.length)
        (fun future e₃ => ∃ e₂, Moves runtime e₁ e₂ ∧ future = e₂.length ∧
          Moves runtime (e₂ ++ [task]) e₃) e₁ :=
      ensures_update fun e₂ h₂ => ⟨trivial, fun e₃ h₃ => ⟨e₂, h₂.1, rfl, h₃.1⟩⟩
    apply hHand.bind QuietMoves.refl
    rintro future e₃ ⟨e₂, h₂, rfl, h₃⟩
    have hBefore := (h.moves h₁).moves h₂
    let job : ScoutJob :=
      { prompt with requestId := s.requestId, submittedAt := now, future := e₂.length }
    have hLinked : Linked ⟨tables.jobs.set s.requestId job,
        tables.promptJobs.set job.scoreContextSha256 job⟩ (e₂ ++ [task]) :=
      hBefore.linked.newJob task hFree rfl
    have hPlaced := hBefore.set hFree hLinked fun _ hFailed => failed_append task hFailed
    apply (evictCompleted_endsWith service _ (hPlaced.moves h₃)).bind QuietMoves.refl
    rintro t e₄ ⟨hHeld, hJobs⟩ e₅ h₅
    refine ⟨hHeld.moves h₅.1, fun _ => ⟨job, ?_⟩⟩
    rw [hJobs, get?_set_self]

theorem place_endsWith {prompt : ScoutPrompt} (h : Held promises tables e) :
    EndsWith runtime stale (service.place tables s prompt now) (GivenJob promises s) e := by
  unfold ScoutJobService.place
  split
  · rename_i existing hExisting
    split
    · exact fun e₁ h₁ => ⟨h.moves h₁.1, nofun⟩
    · exact fun e₁ h₁ => ⟨h.moves h₁.1, fun _ => ⟨existing, hExisting⟩⟩
  · rename_i hAbsent
    split
    · rename_i promptJob hPromptJob
      split
      · exact fun e₁ h₁ => ⟨h.moves h₁.1, nofun⟩
      · intro e₁ h₁
        have hBefore := h.moves h₁.1
        obtain ⟨r, hReached⟩ := h.linked.reached _ promptJob hPromptJob
        refine ⟨hBefore.set hAbsent (hBefore.linked.alias hAbsent hReached)
          fun _ hFailed => hFailed,
          fun _ => ⟨promptJob, get?_set_self _ _ _⟩⟩
    · exact startJob_endsWith h hAbsent

theorem submit_endsWith (h : Held promises tables e)
    (hQuiet : (∃ prompt, s.prompt = .ok prompt) → Quiet stale e)
    (hAged : ∀ r job, promises r job.future → tables.jobs.get? r = some job →
      job.submittedAt + service.resultTtl ≤ now → stale job.future)
    : EndsWith runtime stale (service.submit tables s now) (GivenJob promises s) e := by
  unfold ScoutJobService.submit
  split
  · exact fun e₁ h₁ => ⟨h.moves h₁.1, nofun⟩
  · rename_i prompt hPrompt
    apply (cleanup_endsWith h (hQuiet ⟨prompt, hPrompt⟩) hAged).bind QuietMoves.refl
    intro t e₁ hHeld
    exact place_endsWith hHeld

end Promises

/-- The time that an event reads from the clock. -/
def ScoutEvent.now? : ScoutEvent → Option Int
  | .submit _ now => some now
  | .health now => some now
  | _ => none

structure TimedEvent where
  time : Int
  event : ScoutEvent

/-- The system with the time of its last event. `began` is the time at which the event loop took
up what it is in the middle of; `accepted` records, for every request, the time and the future
of its last accepted submission, and is read by nothing. -/
structure TimedScout (F : Type) where
  system : ScoutSystem F
  clock : Int
  began : Int
  accepted : Dict String (Int × Nat)

namespace TimedScout

def init (start : Int) : TimedScout F := ⟨.init, start, start, .empty⟩

/-- The accepted submissions when the event loop has made its next access. -/
def acceptedAfter (σ : TimedScout F) : Dict String (Int × Nat) :=
  match σ.system.activity with
  | .submitting s _ (.ret (tables, reply)) =>
    match reply.isAccepted, tables.jobs.get? s.requestId with
    | true, some job => σ.accepted.set s.requestId (σ.began, job.future)
    | _, _ => σ.accepted
  | _ => σ.accepted

variable (service runtime)

/-- One step at a time that is not before the last one. -/
def next (σ : TimedScout F) (l : TimedEvent) : Option (TimedScout F) :=
  if σ.clock ≤ l.time ∧ (l.event.now?.all fun now => now = l.time) then
    (σ.system.next service runtime l.event).map fun system =>
      { system
        clock := l.time
        began := if l.event.now?.isSome then l.time else σ.began
        accepted := match l.event with
          | .proceed => σ.acceptedAfter
          | _ => σ.accepted }
  else none

/-- The requests whose last submission was accepted less than the time to live ago, with the
futures they were given. -/
def Promised (σ : TimedScout F) (now : Int) (r : String) (future : Nat) : Prop :=
  ∃ t, σ.accepted.get? r = some (t, future) ∧ now < t + service.resultTtl

/-- A future that is promised to a request, but whose job was first submitted so long ago that a
cleanup may drop it. -/
def Overdue (σ : TimedScout F) (now : Int) (future : Nat) : Prop :=
  ∃ r job, σ.Promised service now r future ∧ σ.system.tables.jobs.get? r = some job ∧
    job.future = future ∧ job.submittedAt + service.resultTtl ≤ now

/-- No cleanup comes upon the result of an overdue job: there is none when the cleanup starts, and
the worker completes none before the event loop is idle again. -/
def Careful (σ : TimedScout F) (l : TimedEvent) : Prop :=
  match l.event with
  | .submit request _ => (∃ s prompt, request.submission = .ok s ∧ s.prompt = .ok prompt) →
    Quiet (σ.Overdue service l.time) σ.system.executor
  | .health _ => Quiet (σ.Overdue service l.time) σ.system.executor
  | .finish future call => σ.system.isIdle = true ∨
    (Quiet (σ.Overdue service σ.began) σ.system.executor →
      Quiet (σ.Overdue service σ.began)
        (σ.system.executor.modify future (ScoutTask.finish runtime call)))
  | _ => True

/-- What the event loop has, or is going to end with. -/
def Keeps (σ : TimedScout F) : Prop :=
  match σ.system.activity with
  | .idle => Held (σ.Promised service σ.clock) σ.system.tables σ.system.executor
  | .submitting s _ rest => EndsWith runtime (σ.Overdue service σ.began) rest
    (GivenJob (σ.Promised service σ.began) s) σ.system.executor
  | .cleaning rest => EndsWith runtime (σ.Overdue service σ.began) rest
    (fun t e' => Held (σ.Promised service σ.began) t e') σ.system.executor

structure Inv (σ : TimedScout F) : Prop where
  began_le : σ.began ≤ σ.clock
  keeps : σ.Keeps service runtime

variable {service runtime} {σ τ : TimedScout F}

theorem Promised.earlier {now later : Int} {r : String} {future : Nat} (hTime : now ≤ later)
    (h : σ.Promised service later r future) : σ.Promised service now r future := by
  obtain ⟨t, hGet, hRunning⟩ := h
  exact ⟨t, hGet, by omega⟩

theorem held_mono {promises promises' : String → Nat → Prop} {tables : ScoutTables}
    {e : ScoutExecutor F} (h : Held promises tables e)
    (hLess : ∀ r future, promises' r future → promises r future) : Held promises' tables e :=
  ⟨h.linked, fun r future hPromise => h.kept r future (hLess r future hPromise)⟩

theorem Inv.idle (h : σ.Inv service runtime) (hIdle : σ.system.isIdle = true) :
    Held (σ.Promised service σ.clock) σ.system.tables σ.system.executor := by
  have hKeeps := h.keeps
  unfold Keeps at hKeeps
  rw [ScoutSystem.isIdle_iff.mp hIdle] at hKeeps
  exact hKeeps

variable {time : Int}

theorem Inv.pass (h : σ.Inv service runtime) {system : ScoutSystem F} {began : Int}
    (hIdle : σ.system.isIdle = true) (hTime : σ.clock ≤ time) (hBegan : began ≤ time)
    (hTables : system.tables = σ.system.tables) (hExecutor : system.executor = σ.system.executor)
    (hActivity : system.activity = σ.system.activity) :
    Inv service runtime ⟨system, time, began, σ.accepted⟩ := by
  refine ⟨hBegan, ?_⟩
  have hHeld := held_mono (h.idle hIdle)
    fun r future (hPromise : σ.Promised service time r future) => hPromise.earlier hTime
  unfold Keeps
  rw [hActivity, ScoutSystem.isIdle_iff.mp hIdle]
  dsimp only
  rw [hTables, hExecutor]
  exact hHeld

theorem Inv.finish (h : σ.Inv service runtime) {future call : Nat} (hTime : σ.clock ≤ time)
    (hCareful : σ.Careful service runtime ⟨time, .finish future call⟩) :
    Inv service runtime ⟨{ σ.system with
      executor := σ.system.executor.modify future (ScoutTask.finish runtime call) }, time, σ.began,
      σ.accepted⟩ := by
  have hMove : Moves runtime σ.system.executor _ := moves_modify σ.system.executor future call
  refine ⟨h.began_le.trans hTime, ?_⟩
  have hKeeps := h.keeps
  unfold Keeps at hKeeps ⊢
  cases hActivity : σ.system.activity with
  | idle =>
    rw [hActivity] at hKeeps
    exact held_mono (Held.moves hKeeps hMove)
      fun r future (hPromise : σ.Promised service time r future) => hPromise.earlier hTime
  | submitting s atStart rest | cleaning rest =>
    rw [hActivity] at hKeeps
    have hQuiet := hCareful.resolve_left (by simp [ScoutSystem.isIdle, hActivity])
    exact Ensures.stable QuietMoves.trans hKeeps ⟨hMove, hQuiet⟩

variable {s : ScoutSubmission}

theorem Inv.submit (h : σ.Inv service runtime) {request : ScoutRequest}
    (hIdle : σ.system.isIdle = true) (hTime : σ.clock ≤ time)
    (hSubmission : request.submission = .ok s)
    (hCareful : σ.Careful service runtime ⟨time, .submit request time⟩) :
    Inv service runtime ⟨{ σ.system with
      activity := .submitting s σ.system.executor (service.submit σ.system.tables s time) },
      time, time, σ.accepted⟩ := by
  refine ⟨le_refl time, ?_⟩
  have hHeld := held_mono (h.idle hIdle)
    fun r future (hPromise : σ.Promised service time r future) => hPromise.earlier hTime
  refine submit_endsWith hHeld ?_ ?_
  · rintro ⟨prompt, hPrompt⟩
    exact hCareful ⟨s, prompt, hSubmission, hPrompt⟩
  · intro r job hPromise hGet hAged
    exact ⟨r, job, hPromise, hGet, rfl, hAged⟩

theorem Inv.health (h : σ.Inv service runtime) (hIdle : σ.system.isIdle = true)
    (hTime : σ.clock ≤ time) (hCareful : σ.Careful service runtime ⟨time, .health time⟩) :
    Inv service runtime ⟨{ σ.system with
      activity := .cleaning (service.cleanup time σ.system.tables) }, time, time, σ.accepted⟩ := by
  refine ⟨le_refl time, ?_⟩
  have hHeld := held_mono (h.idle hIdle)
    fun r future (hPromise : σ.Promised service time r future) => hPromise.earlier hTime
  refine cleanup_endsWith hHeld hCareful ?_
  intro r job hPromise hGet hAged
  exact ⟨r, job, hPromise, hGet, rfl, hAged⟩

theorem Inv.endSubmit (h : σ.Inv service runtime) {atStart : ScoutExecutor F}
    {tables : ScoutTables} {reply : SubmitReply}
    (hActivity : σ.system.activity = .submitting s atStart (.ret (tables, reply)))
    (hTime : σ.clock ≤ time)
    (hEnd : GivenJob (σ.Promised service σ.began) s (tables, reply) σ.system.executor) :
    Inv service runtime ⟨σ.system.endSubmit s atStart tables reply, time, σ.began,
      σ.acceptedAfter⟩ := by
  have hLater := h.began_le.trans hTime
  refine ⟨hLater, hEnd.held.linked, ?_⟩
  rintro r future ⟨t, hGet, hRunning⟩
  change σ.acceptedAfter.get? r = some (t, future) at hGet
  unfold acceptedAfter at hGet
  rw [hActivity] at hGet
  dsimp only at hGet
  split at hGet
  · rename_i job hAccepted hJob
    rw [get?_set] at hGet
    split at hGet
    · rename_i hSame
      cases hGet
      exact Or.inl ⟨job, hSame ▸ hJob, rfl⟩
    · exact hEnd.held.kept r future ⟨t, hGet, by dsimp only at hRunning; omega⟩
  · exact hEnd.held.kept r future ⟨t, hGet, by dsimp only at hRunning; omega⟩

theorem Inv.proceed (h : σ.Inv service runtime) {system : ScoutSystem F} (hTime : σ.clock ≤ time)
    (hStep : σ.system.proceed = some system) :
    Inv service runtime ⟨system, time, σ.began, σ.acceptedAfter⟩ := by
  have hKeeps := h.keeps
  have hLater := h.began_le.trans hTime
  unfold Keeps at hKeeps
  unfold ScoutSystem.proceed at hStep
  split at hStep
  · cases hStep
  · rename_i s atStart tables reply hAt
    rw [hAt] at hKeeps
    cases hStep
    exact h.endSubmit hAt hTime (hKeeps _ (QuietMoves.refl _))
  · rename_i s atStart effect next hAt
    rw [hAt] at hKeeps
    cases hStep
    rw [show σ.acceptedAfter = σ.accepted by rw [acceptedAfter, hAt]]
    exact ⟨hLater, (hKeeps _ (QuietMoves.refl _)).2⟩
  · rename_i tables hAt
    rw [hAt] at hKeeps
    cases hStep
    rw [show σ.acceptedAfter = σ.accepted by rw [acceptedAfter, hAt]]
    exact ⟨hLater, held_mono (hKeeps _ (QuietMoves.refl _))
      fun r future (hPromise : σ.Promised service time r future) => hPromise.earlier hLater⟩
  · rename_i effect next hAt
    rw [hAt] at hKeeps
    cases hStep
    rw [show σ.acceptedAfter = σ.accepted by rw [acceptedAfter, hAt]]
    exact ⟨hLater, (hKeeps _ (QuietMoves.refl _)).2⟩

theorem poll_frame {system system' : ScoutSystem F} {i : Nat} {remaining : Int}
    (h : system.poll i remaining = some system') :
    system'.tables = system.tables ∧ system'.executor = system.executor ∧
      system'.activity = system.activity := by
  unfold ScoutSystem.poll at h
  obtain ⟨waiting, -, h⟩ := bind_eq_some_iff.mp h
  obtain ⟨task, -, h⟩ := bind_eq_some_iff.mp h
  split at h
  · cases h
    split <;> exact ⟨rfl, rfl, rfl⟩
  · cases h
    exact ⟨rfl, rfl, rfl⟩
  · cases h
    exact ⟨rfl, rfl, rfl⟩

theorem Inv.next (h : σ.Inv service runtime) {l : TimedEvent}
    (hCareful : σ.Careful service runtime l) (hStep : σ.next service runtime l = some τ) :
    τ.Inv service runtime := by
  unfold TimedScout.next at hStep
  split at hStep
  · rename_i hGuard
    obtain ⟨hTime, hNow⟩ := hGuard
    obtain ⟨system, hSystem, rfl⟩ := map_eq_some_iff.mp hStep
    obtain ⟨time, event⟩ := l
    cases event with
    | finish future call =>
      cases hSystem
      exact h.finish hTime hCareful
    | submit request now =>
      obtain rfl : now = time := by simpa [ScoutEvent.now?] using hNow
      simp only [ScoutSystem.next] at hSystem
      split at hSystem
      · rename_i hIdle
        split at hSystem
        · cases hSystem
          exact h.pass hIdle hTime (le_refl _) rfl rfl rfl
        · rename_i s hSubmission
          cases hSystem
          exact h.submit hIdle hTime hSubmission hCareful
      · cases hSystem
    | health now =>
      obtain rfl : now = time := by simpa [ScoutEvent.now?] using hNow
      simp only [ScoutSystem.next] at hSystem
      split at hSystem
      · rename_i hIdle
        cases hSystem
        exact h.health hIdle hTime hCareful
      · cases hSystem
    | proceed => exact h.proceed hTime hSystem
    | wait request =>
      simp only [ScoutSystem.next] at hSystem
      split at hSystem
      · rename_i hIdle
        split at hSystem
        · cases hSystem
          exact h.pass hIdle hTime (h.began_le.trans hTime) rfl rfl rfl
        · cases hSystem
          exact h.pass hIdle hTime (h.began_le.trans hTime) rfl rfl rfl
      · cases hSystem
    | poll i remaining =>
      simp only [ScoutSystem.next] at hSystem
      split at hSystem
      · rename_i hIdle
        obtain ⟨hTables, hExecutor, hActivity⟩ := poll_frame hSystem
        exact h.pass hIdle hTime (h.began_le.trans hTime) hTables hExecutor hActivity
      · cases hSystem
  · cases hStep

theorem inv_init (start : Int) : Inv service runtime (init start : TimedScout F) where
  began_le := le_refl _
  keeps := ⟨⟨nofun, nofun, nofun, nofun⟩, nofun⟩

/-- A call of `wait` that fails because there is no job. -/
def NotFound (tables : ScoutTables) (w : ScoutWait) : Prop :=
  tables.waitJob w =
    raise .keyError ("ScoutRank job not found for request " ++ reprText w.key)

theorem rejectIf_bind_keyError {α : Type} {condition : Bool} {message text : String}
    {rest : Unit → Result α} (h : (rejectIf condition message >>= rest) = raise .keyError text) :
    rest () = raise .keyError text := by
  cases condition with
  | false => exact h
  | true => cases h

theorem not_notFound {tables : ScoutTables} {w : ScoutWait} {job : ScoutJob}
    (hJob : tables.jobs.get? w.key = some job) : ¬ NotFound tables w := by
  intro h
  unfold NotFound ScoutTables.waitJob at h
  rw [hJob] at h
  have h := rejectIf_bind_keyError h
  have h := rejectIf_bind_keyError h
  have h := rejectIf_bind_keyError h
  have h := rejectIf_bind_keyError h
  cases h

/-- A call of `wait`, made before the time to live since the last accepted submission of its
request has passed, finds a job, unless the job of the submission has failed. -/
def KeepsPromises (service : ScoutJobService) (σ : TimedScout F) : Prop :=
  σ.system.isIdle = true → ∀ (w : ScoutWait) (time t : Int) (future : Nat), σ.clock ≤ time →
    σ.accepted.get? w.key = some (t, future) → time < t + service.resultTtl →
    NotFound σ.system.tables w → Failed σ.system.executor future

/-- Every job is kept for its time to live in every run in which no cleanup comes upon the
result of an overdue job. -/
theorem wait_finds_accepted_job {start : Int} {events : List TimedEvent}
    (hRun : Run (Run.Under (Careful service runtime)
      fun σ l τ => next service runtime σ l = some τ) (init start) events σ) :
    σ.KeepsPromises service := by
  have hInv : σ.Inv service runtime :=
    hRun.invariant (fun _ _ _ h hStep => h.next hStep.1 hStep.2) (inv_init start)
  intro hIdle w time t future hTime hAccepted hBefore hMissing
  rcases (hInv.idle hIdle).kept w.key future ⟨t, hAccepted, by omega⟩ with ⟨job, hJob, -⟩ | hFailed
  · exact absurd hMissing (not_notFound hJob)
  · exact hFailed

/-- A first request at time 0, whose job completes, and a second one for the same prompt at
time 9, which is given that job. -/
def lateAlias : List TimedEvent :=
  [⟨0, .submit (ScoutSystem.oneToken "a") 0⟩, ⟨0, .proceed⟩, ⟨0, .proceed⟩, ⟨1, .finish 0 0⟩,
    ⟨9, .submit (ScoutSystem.oneToken "b") 9⟩, ⟨9, .proceed⟩, ⟨9, .proceed⟩]

/-- What a test looks at: the accepted submission of the second request, whether its job is
found, and whether that has failed. -/
def observed (σ : TimedScout Nat) : Option (Int × Nat) × Bool × Bool × Bool × Int :=
  (σ.accepted.get? "b", σ.system.isIdle, (σ.system.tables.jobs.get? "b").isNone,
    (σ.system.executor[0]?.map fun task => task.state matches .failed).getD false, σ.clock)

/-- With results kept for 10 units of time, a cleanup at time 11 takes the job from the second
request, which was accepted at time 9. -/
theorem late_alias_dropped : ∃ σ : TimedScout Nat,
    Run (fun σ l τ => next ScoutSystem.oneJob ScoutSystem.identityRuntime σ l = some τ) (init 0)
      (lateAlias ++ [⟨11, .health 11⟩, ⟨11, .proceed⟩, ⟨11, .proceed⟩]) σ ∧
    ¬ σ.KeepsPromises ScoutSystem.oneJob := by
  obtain ⟨σ, hRun, hObserved⟩ := Run.exists_of_exec
    (next ScoutSystem.oneJob ScoutSystem.identityRuntime) (init 0)
    (lateAlias ++ [⟨11, .health 11⟩, ⟨11, .proceed⟩, ⟨11, .proceed⟩])
    (fun σ => observed σ = (some (9, 0), true, true, false, 11)) (by decide +kernel)
  refine ⟨σ, hRun, ?_⟩
  simp only [observed, Prod.mk.injEq] at hObserved
  obtain ⟨hAccepted, hIdle, hNone, hFine, hClock⟩ := hObserved
  intro hKeeps
  have hFailed := hKeeps hIdle { key := "b", timeout := 5, fullTokenCount := 1 } 12 9 0
    (by omega) hAccepted (by decide) (by
      unfold NotFound ScoutTables.waitJob
      rw [Option.isNone_iff_eq_none.mp hNone]
      rfl)
  obtain ⟨task, hAt, hState⟩ := hFailed
  rw [hAt] at hFine
  simp [hState] at hFine

/-- No cleanup is called at a time at which a job is too old, and the worker moves while the
event loop is idle. -/
def Early (service : ScoutJobService) (σ : TimedScout F) (l : TimedEvent) : Prop :=
  (l.event.now?.isSome → ∀ job ∈ σ.system.tables.jobs.values,
    l.time < job.submittedAt + service.resultTtl) ∧
    (l.event matches .finish _ _ → σ.system.isIdle = true)

instance (service : ScoutJobService) (σ : TimedScout F) (l : TimedEvent) :
    Decidable (Early service σ l) := by
  unfold Early
  infer_instance

theorem Early.careful {l : TimedEvent} (h : Early service σ l) : σ.Careful service runtime l := by
  obtain ⟨time, event⟩ := l
  have hQuiet : event.now?.isSome → Quiet (σ.Overdue service time) σ.system.executor := by
    rintro hSome future ⟨r, job, -, hGet, -, hOld⟩
    have hYoung := h.1 hSome job (mem_values_iff.mpr ⟨r, hGet⟩)
    dsimp only at hYoung
    omega
  cases event with
  | submit request now => exact fun _ => hQuiet rfl
  | health now => exact hQuiet rfl
  | finish future call => exact Or.inl (h.2 rfl)
  | proceed => trivial
  | wait request => trivial
  | poll i remaining => trivial

theorem late_alias_found : ∃ σ : TimedScout Nat,
    Run (Run.Under (Careful ScoutSystem.oneJob ScoutSystem.identityRuntime)
      fun σ l τ => next ScoutSystem.oneJob ScoutSystem.identityRuntime σ l = some τ) (init 0)
      lateAlias σ ∧
    observed σ = (some (9, 0), true, false, false, 9) ∧ σ.KeepsPromises ScoutSystem.oneJob := by
  obtain ⟨σ, hRun, hObserved⟩ := Run.exists_under_of_exec (Early ScoutSystem.oneJob)
    (next ScoutSystem.oneJob ScoutSystem.identityRuntime) (init 0) lateAlias
    (fun σ => observed σ = (some (9, 0), true, false, false, 9)) (by decide +kernel)
  have hCareful : ∀ (σ : TimedScout Nat) l, Early ScoutSystem.oneJob σ l →
      Careful ScoutSystem.oneJob ScoutSystem.identityRuntime σ l := fun _ _ hEarly => hEarly.careful
  have hRun := hRun.under_mono hCareful
  exact ⟨σ, hRun, hObserved, wait_finds_accepted_job hRun⟩

end TimedScout

end LMCache.MaKV
