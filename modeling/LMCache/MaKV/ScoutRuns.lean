import LMCache.MaKV.ScoutServiceSpec

/-!
# Runs of the ScoutRank job service

The clients submit, wait and poll, the worker ends tasks, and the event loop takes its
accesses one at a time, in any order. What the event loop is in the middle of is carried as
a triple: it is going to end in sound tables whatever the worker does meanwhile.
-/

namespace LMCache.MaKV

open Lib ScoutExecutor ScoutTables Thread List Option

variable {F : Type} {service : ScoutJobService} {runtime : ScoutRuntime F}
  {texts : Bytes → Prop}

def ScoutWaiting.Served (w : ScoutWaiting) (e : ScoutExecutor F) : Prop :=
  ∃ task, e[w.job.future]? = some task ∧ task.tokenIds = w.submitted

structure ScoutExecutor.Good (service : ScoutJobService) (runtime : ScoutRuntime F)
    (waits : List ScoutWaiting) (e : ScoutExecutor F) : Prop where
  bounded : e.pendingFutures.length ≤ service.maxPendingJobs
  computed : ∀ (i : Nat) (task : ScoutTask F), e[i]? = some task → task.Computed runtime
  served : ∀ w ∈ waits, w.Served e

/-- What the event loop is going to end with. -/
def ScoutActivity.Good (service : ScoutJobService) (runtime : ScoutRuntime F)
    (texts : Bytes → Prop) (submitted : Dict String (List Nat)) (tables : ScoutTables)
    (e : ScoutExecutor F) : ScoutActivity F → Prop
  | .idle => Sound texts submitted tables e
  | .submitting s atStart rest =>
    rest.Ensures (Moves runtime) (Grows service.maxPendingJobs)
      (Submitted texts submitted s atStart) e
  | .cleaning rest =>
    rest.Ensures (Moves runtime) (Grows service.maxPendingJobs)
      (fun t e' => Sound texts submitted t e') e

/-- Every job of `_prompt_jobs` is one of `_jobs`. -/
def ScoutTables.Reached (tables : ScoutTables) : Prop :=
  ∀ job ∈ tables.promptJobs.values, job ∈ tables.jobs.values

namespace ScoutSystem

structure Inv (service : ScoutJobService) (runtime : ScoutRuntime F) (texts : Bytes → Prop)
    (σ : ScoutSystem F) : Prop where
  executor : σ.executor.Good service runtime σ.waits
  activity : σ.activity.Good service runtime texts σ.submitted σ.tables σ.executor
  reached : σ.tables.Reached
  answers : ∀ a ∈ σ.answers, ∃ call, runtime call a.submitted = some a.result.scores
  handouts : ∀ h ∈ σ.handouts, ¬ Failed h.executor h.job.future

end ScoutSystem

theorem ScoutTables.Sound.isReached {submitted : Dict String (List Nat)} {tables : ScoutTables}
    {e : ScoutExecutor F} (h : Sound texts submitted tables e) : tables.Reached := by
  intro job hMem
  obtain ⟨k, hGet⟩ := Dict.mem_values_iff.mp hMem
  exact Dict.mem_values_iff.mpr (h.reached k job hGet)

section Executor

variable {waits : List ScoutWaiting} {e e' : ScoutExecutor F}

theorem ScoutExecutor.Good.moves (h : e.Good service runtime waits) (hMove : Moves runtime e e') :
    e'.Good service runtime waits where
  bounded := Nat.le_trans hMove.pending_le h.bounded
  computed := by
    intro i task' hAt'
    obtain ⟨task, hAt, hTask⟩ := hMove.get_back hAt'
    exact (h.computed i task hAt).moves hTask
  served := by
    intro w hw
    obtain ⟨task, hAt, hTokens⟩ := h.served w hw
    obtain ⟨task', hAt', hTask⟩ := hMove.get hAt
    exact ⟨task', hAt', hTask.tokenIds.trans hTokens⟩

theorem ScoutExecutor.Good.grows (h : e.Good service runtime waits)
    (hGrow : Grows service.maxPendingJobs e e') : e'.Good service runtime waits := by
  rcases hGrow with rfl | ⟨task, hPending, rfl, hBound⟩
  · exact h
  · refine ⟨hBound, ?_, ?_⟩
    · intro i found hAt
      rw [getElem?_append] at hAt
      split at hAt
      · exact h.computed i found hAt
      · obtain rfl : found = task := by simpa using mem_of_getElem? hAt
        intro result hDone
        rw [hPending] at hDone
        cases hDone
    · intro w hw
      obtain ⟨found, hAt, hTokens⟩ := h.served w hw
      refine ⟨found, ?_, hTokens⟩
      rw [getElem?_append_left (List.getElem?_eq_some_iff.mp hAt).1]
      exact hAt

theorem ScoutExecutor.Good.dropWait (h : e.Good service runtime waits) (i : Nat) :
    e.Good service runtime (waits.eraseIdx i) :=
  ⟨h.bounded, h.computed, fun w hw => h.served w (mem_of_mem_eraseIdx hw)⟩

theorem ScoutActivity.Good.moves {submitted : Dict String (List Nat)} {tables : ScoutTables}
    {activity : ScoutActivity F} (h : activity.Good service runtime texts submitted tables e)
    (hMove : Moves runtime e e') : activity.Good service runtime texts submitted tables e' := by
  cases activity with
  | idle => exact Sound.moves h hMove
  | submitting s atStart rest | cleaning rest => exact Ensures.stable Moves.trans h hMove

end Executor

def ScoutEvent.hashedTexts : ScoutEvent → List Bytes
  | .submit request _ => request.hashedTexts
  | _ => []

namespace ScoutSystem

variable {σ τ : ScoutSystem F}

theorem Inv.finish (h : σ.Inv service runtime texts) (future call : Nat) :
    Inv service runtime texts
      { σ with executor := σ.executor.modify future (ScoutTask.finish runtime call) } :=
  have hMove := moves_modify σ.executor future call
  ⟨h.executor.moves hMove, h.activity.moves hMove, h.reached, h.answers, h.handouts⟩

theorem isIdle_iff : σ.isIdle = true ↔ σ.activity = .idle := by
  unfold isIdle
  split
  · rename_i hIdle
    simp [hIdle]
  · rename_i hBusy
    simp only [Bool.false_eq_true, false_iff]
    exact hBusy

theorem Inv.sound (h : σ.Inv service runtime texts) (hIdle : σ.isIdle = true) :
    Sound texts σ.submitted σ.tables σ.executor := by
  have hActivity := h.activity
  rw [isIdle_iff.mp hIdle] at hActivity
  exact hActivity

theorem Inv.endSubmit (h : σ.Inv service runtime texts) {s : ScoutSubmission}
    {atStart : ScoutExecutor F} {tables : ScoutTables} {reply : SubmitReply}
    (hEnd : Submitted texts σ.submitted s atStart (tables, reply) σ.executor) :
    (σ.endSubmit s atStart tables reply).Inv service runtime texts := by
  obtain ⟨hSound, hFine⟩ := hEnd
  refine ⟨h.executor, hSound, hSound.isReached, h.answers, ?_⟩
  intro handout hMem
  unfold ScoutSystem.endSubmit at hMem
  dsimp only at hMem
  split at hMem
  · rename_i job hAccepted hGet
    rcases mem_append.mp hMem with hOld | hNew
    · exact h.handouts handout hOld
    · rw [mem_singleton.mp hNew]
      exact hFine hAccepted job hGet
  · exact h.handouts handout hMem

theorem Inv.proceed (h : σ.Inv service runtime texts) (hStep : σ.proceed = some τ) :
    τ.Inv service runtime texts := by
  have hActivity := h.activity
  unfold ScoutSystem.proceed at hStep
  split at hStep
  · cases hStep
  · rename_i s atStart tables reply hAt
    rw [hAt] at hActivity
    cases hStep
    exact h.endSubmit (hActivity σ.executor (Moves.refl _))
  · rename_i s atStart effect next hAt
    rw [hAt] at hActivity
    cases hStep
    obtain ⟨hGrow, hRest⟩ := hActivity σ.executor (Moves.refl _)
    exact ⟨h.executor.grows hGrow, hRest, h.reached, h.answers, h.handouts⟩
  · rename_i tables hAt
    rw [hAt] at hActivity
    cases hStep
    have hSound := hActivity σ.executor (Moves.refl _)
    exact ⟨h.executor, hSound, hSound.isReached, h.answers, h.handouts⟩
  · rename_i effect next hAt
    rw [hAt] at hActivity
    cases hStep
    obtain ⟨hGrow, hRest⟩ := hActivity σ.executor (Moves.refl _)
    exact ⟨h.executor.grows hGrow, hRest, h.reached, h.answers, h.handouts⟩

theorem waitJob_eq_ok {tables : ScoutTables} {w : ScoutWait} {job : ScoutJob}
    (h : tables.waitJob w = .ok job) : tables.jobs.get? w.key = some job := by
  unfold ScoutTables.waitJob at h
  obtain ⟨_, -, h⟩ := bind_eq_ok.mp h
  obtain ⟨found, hFound, h⟩ := bind_eq_ok.mp h
  obtain ⟨_, -, h⟩ := bind_eq_ok.mp h
  obtain ⟨_, -, h⟩ := bind_eq_ok.mp h
  obtain ⟨_, -, h⟩ := bind_eq_ok.mp h
  cases h
  cases hGet : tables.jobs.get? w.key with
  | none =>
    rw [hGet] at hFound
    cases hFound
  | some found' =>
    rw [hGet] at hFound
    cases hFound
    rfl

theorem Inv.wait (h : σ.Inv service runtime texts) (hIdle : σ.isIdle = true) {w : ScoutWait}
    {job : ScoutJob} (hJob : σ.tables.waitJob w = .ok job) :
    Inv service runtime texts
      { σ with waits := σ.waits ++ [⟨w.key, job, (σ.submitted.get? w.key).getD []⟩] } := by
  refine ⟨⟨h.executor.bounded, h.executor.computed, ?_⟩, h.activity, h.reached, h.answers,
    h.handouts⟩
  intro waiting hMem
  rcases mem_append.mp hMem with hOld | hNew
  · exact h.executor.served waiting hOld
  · rw [mem_singleton.mp hNew]
    obtain ⟨tokenIds, hSubmitted, task, _, hAt, hTokens, -⟩ :=
      (h.sound hIdle).served _ job (waitJob_eq_ok hJob)
    refine ⟨task, hAt, ?_⟩
    rw [hSubmitted, getD_some]
    exact hTokens

theorem Inv.poll (h : σ.Inv service runtime texts) {i : Nat} {remaining : Int}
    (hStep : σ.poll i remaining = some τ) : τ.Inv service runtime texts := by
  have hDrop : Inv service runtime texts { σ with waits := σ.waits.eraseIdx i } :=
    ⟨h.executor.dropWait i, h.activity, h.reached, h.answers, h.handouts⟩
  unfold ScoutSystem.poll at hStep
  obtain ⟨waiting, hWaiting, hStep⟩ := bind_eq_some_iff.mp hStep
  obtain ⟨task, hTask, hStep⟩ := bind_eq_some_iff.mp hStep
  split at hStep
  · cases hStep
    split
    · exact hDrop
    · exact h
  · cases hStep
    exact hDrop
  · rename_i result hDone
    cases hStep
    refine ⟨hDrop.executor, h.activity, h.reached, ?_, h.handouts⟩
    intro answer hMem
    rcases mem_append.mp hMem with hOld | hNew
    · exact h.answers answer hOld
    · rw [mem_singleton.mp hNew]
      obtain ⟨task', hAt, hTokens⟩ := h.executor.served waiting (mem_of_getElem? hWaiting)
      rw [hTask] at hAt
      cases hAt
      rw [← hTokens]
      exact h.executor.computed _ task hTask result hDone

theorem Inv.next (hFree : CollisionFree texts) (h : σ.Inv service runtime texts)
    {event : ScoutEvent} (hTexts : ∀ text ∈ event.hashedTexts, texts text)
    (hStep : σ.next service runtime event = some τ) : τ.Inv service runtime texts := by
  cases event with
  | finish future call =>
    cases hStep
    exact h.finish future call
  | submit request now =>
    simp only [ScoutSystem.next] at hStep
    split at hStep
    · rename_i hIdle
      split at hStep
      · cases hStep
        exact h
      · rename_i s hSubmission
        cases hStep
        refine ⟨h.executor, ?_, h.reached, h.answers, h.handouts⟩
        exact submit_ensures service hFree (h.sound hIdle) fun prompt hPrompt =>
          ⟨_, origin_of_request hTexts hSubmission hPrompt⟩
    · cases hStep
  | health now =>
    simp only [ScoutSystem.next] at hStep
    split at hStep
    · rename_i hIdle
      cases hStep
      refine ⟨h.executor, ?_, h.reached, h.answers, h.handouts⟩
      exact (cleanup_ensures service (h.sound hIdle)).mono fun _ _ hPost => hPost.1
    · cases hStep
  | proceed => exact h.proceed hStep
  | wait request =>
    simp only [ScoutSystem.next] at hStep
    split at hStep
    · rename_i hIdle
      split at hStep
      · cases hStep
        exact h
      · rename_i job hJob
        cases hStep
        exact h.wait hIdle hJob
    · cases hStep
  | poll i remaining =>
    simp only [ScoutSystem.next] at hStep
    split at hStep
    · exact h.poll hStep
    · cases hStep

theorem inv_init (service : ScoutJobService) (runtime : ScoutRuntime F) (texts : Bytes → Prop) :
    Inv service runtime texts (init : ScoutSystem F) where
  executor := ⟨Nat.zero_le _, nofun, nofun⟩
  activity := ⟨nofun, nofun, nofun, nofun, nofun⟩
  reached := nofun
  answers := nofun
  handouts := nofun

/-- In every run in which no two hashed texts collide: the scores that `wait` returns were
computed from the tokens its request submitted, no more jobs are pending than allowed, every
job of `_prompt_jobs` is one of `_jobs`, and no submission gets a job that had failed when the
submission began. -/
theorem scoutJobService_of_run {events : List ScoutEvent}
    (hRun : Run (fun σ event τ => next service runtime σ event = some τ) init events σ)
    (hFree : CollisionFree (· ∈ events.flatMap ScoutEvent.hashedTexts)) :
    (∀ a ∈ σ.answers, ∃ call, runtime call a.submitted = some a.result.scores) ∧
      σ.executor.pendingFutures.length ≤ service.maxPendingJobs ∧
      σ.tables.Reached ∧
      ∀ h ∈ σ.handouts, ¬ Failed h.executor h.job.future := by
  have hTexts : ∀ event ∈ events, ∀ text ∈ event.hashedTexts,
      text ∈ events.flatMap ScoutEvent.hashedTexts :=
    fun event hEvent text hText => List.mem_flatMap.mpr ⟨event, hEvent, hText⟩
  have hInv : Inv service runtime (· ∈ events.flatMap ScoutEvent.hashedTexts) σ :=
    (hRun.under_labels hTexts).invariant (fun _ _ _ h hStep => h.next hFree hStep.1 hStep.2)
      (inv_init _ _ _)
  exact ⟨hInv.answers, hInv.executor.bounded, hInv.reached, hInv.handouts⟩

def oneToken (key : String) : ScoutRequest :=
  { key, payload := [0, 0, 0, 7], protocolVersion := 1, tokenCount := 1
    tokenSha256 := payloadSha256 [0, 0, 0, 7] }

/-- Two requests for one prompt; the job completes while the second is submitted. -/
def sharedPrompt : List ScoutEvent :=
  [.submit (oneToken "a") 0, .proceed, .proceed, .submit (oneToken "b") 1, .finish 0 0, .proceed,
    .proceed, .wait { key := "b", timeout := 5, fullTokenCount := 1 }, .poll 0 5]

def oneJob : ScoutJobService := ⟨1, 10, 1, by decide, by decide, by decide⟩

def identityRuntime : ScoutRuntime Nat := fun _ tokens => some tokens

theorem scoutJobService_sharedPrompt :
    ∃ σ : ScoutSystem Nat,
      Run (fun σ event τ => next oneJob identityRuntime σ event = some τ) init sharedPrompt σ ∧
      σ.answers.map (fun a => (a.requestId, a.result.scores)) = [("b", [7])] ∧
      (∀ a ∈ σ.answers, ∃ call, identityRuntime call a.submitted = some a.result.scores) ∧
      σ.executor.pendingFutures.length ≤ 1 ∧ σ.tables.Reached ∧
      ∀ h ∈ σ.handouts, ¬ Failed h.executor h.job.future := by
  obtain ⟨σ, hRun, hAnswers⟩ := Run.exists_of_exec (next oneJob identityRuntime) init sharedPrompt
    (fun σ => σ.answers.map (fun a => (a.requestId, a.result.scores)) = [("b", [7])])
    (by decide +kernel)
  refine ⟨σ, hRun, hAnswers, scoutJobService_of_run hRun ?_⟩
  have hOne : ∀ text ∈ sharedPrompt.flatMap ScoutEvent.hashedTexts, text = [0, 0, 0, 7] := by
    decide
  intro a b ha hb _
  rw [hOne a ha, hOne b hb]

end ScoutSystem

end LMCache.MaKV
