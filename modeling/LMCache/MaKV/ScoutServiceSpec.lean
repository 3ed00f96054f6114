import LMCache.MaKV.ScoutIdentity

/-!
# What the ScoutRank job service keeps

The worker only completes and fails pending futures, and the event loop only adds new ones.
Against that rely and guarantee the tables stay sound: every alias is of a job whose tokens
its request submitted, `_prompt_jobs` holds only jobs that `_jobs` holds under the context
of the job, and every pending future has an alias. A submission cleans up first, so that the
job it gets is none that had failed when it began.
-/

namespace LMCache.MaKV

open Lib Dict List Option

variable {F : Type}

namespace ScoutTask

/-- The worker leaves a task as it is or ends it. -/
def Moves (runtime : ScoutRuntime F) (task task' : ScoutTask F) : Prop :=
  task' = task ∨ task.state = .pending ∧
    ∃ call, task' = { task with state := task.run runtime call }

variable {runtime : ScoutRuntime F} {task task' task'' : ScoutTask F}

theorem run_ne_pending (call : Nat) : task.run runtime call ≠ .pending := by
  unfold run
  split
  · exact nofun
  · split
    · exact nofun
    · exact nofun

theorem Moves.trans (h : Moves runtime task task') (h' : Moves runtime task' task'') :
    Moves runtime task task'' := by
  rcases h with rfl | ⟨hPending, call, rfl⟩
  · exact h'
  · rcases h' with rfl | ⟨hAgain, -⟩
    · exact Or.inr ⟨hPending, call, rfl⟩
    · exact (run_ne_pending call hAgain).elim

theorem moves_finish (call : Nat) : Moves runtime task (task.finish runtime call) := by
  unfold finish
  split
  · rename_i hPending
    exact Or.inr ⟨hPending, call, rfl⟩
  · exact Or.inl rfl

theorem Moves.tokenIds (h : Moves runtime task task') : task'.tokenIds = task.tokenIds := by
  rcases h with rfl | ⟨-, call, rfl⟩
  · rfl
  · rfl

theorem Moves.pending (h : Moves runtime task task') (hPending : task'.state = .pending) :
    task.state = .pending := by
  rcases h with rfl | ⟨hBefore, -⟩
  · exact hPending
  · exact hBefore

theorem Moves.failed (h : Moves runtime task task') (hFailed : task.state = .failed) :
    task'.state = .failed := by
  rcases h with rfl | ⟨hBefore, -⟩
  · exact hFailed
  · rw [hBefore] at hFailed
    cases hFailed

/-- The scores of a done task are those of a call of the runtime on its tokens. -/
def Computed (runtime : ScoutRuntime F) (task : ScoutTask F) : Prop :=
  ∀ result, task.state = .done result → ∃ call, runtime call task.tokenIds = some result.scores

theorem Computed.moves (h : task.Computed runtime) (hMove : Moves runtime task task') :
    task'.Computed runtime := by
  rcases hMove with rfl | ⟨-, call, rfl⟩
  · exact h
  · intro result hDone
    simp only [run] at hDone
    refine ⟨call, ?_⟩
    split at hDone
    · cases hDone
    · rename_i scores hCall
      split at hDone
      · cases hDone
      · cases hDone
        exact hCall

end ScoutTask

namespace ScoutExecutor

/-- The worker moves some of the tasks. -/
def Moves (runtime : ScoutRuntime F) : ScoutExecutor F → ScoutExecutor F → Prop :=
  List.Forall₂ (ScoutTask.Moves runtime)

def pendingFutures (executor : ScoutExecutor F) : List Nat :=
  (List.range executor.length).filter fun i =>
    (executor[i]?.map fun task => task.state.isPending).getD false

def Failed (executor : ScoutExecutor F) (future : Nat) : Prop :=
  ∃ task, executor[future]? = some task ∧ task.state = .failed

variable {runtime : ScoutRuntime F} {e e' e'' : ScoutExecutor F}

theorem Moves.refl (e : ScoutExecutor F) : Moves runtime e e := by
  induction e with
  | nil => exact .nil
  | cons task e ih => exact .cons (Or.inl rfl) ih

theorem Moves.trans (h : Moves runtime e e') (h' : Moves runtime e' e'') : Moves runtime e e'' := by
  induction h generalizing e'' with
  | nil => exact h'
  | cons hTask _ ih =>
    cases h' with
    | cons hTask' hRest => exact .cons (hTask.trans hTask') (ih hRest)

variable {i : Nat}

theorem Moves.get (h : Moves runtime e e') {task : ScoutTask F} (hAt : e[i]? = some task) :
    ∃ task', e'[i]? = some task' ∧ ScoutTask.Moves runtime task task' := by
  induction h generalizing i with
  | nil => simp at hAt
  | cons hTask _ ih =>
    cases i with
    | zero =>
      cases hAt
      exact ⟨_, rfl, hTask⟩
    | succ i => exact ih hAt

theorem Moves.get_back (h : Moves runtime e e') {task' : ScoutTask F} (hAt : e'[i]? = some task') :
    ∃ task, e[i]? = some task ∧ ScoutTask.Moves runtime task task' := by
  induction h generalizing i with
  | nil => simp at hAt
  | cons hTask _ ih =>
    cases i with
    | zero =>
      cases hAt
      exact ⟨_, rfl, hTask⟩
    | succ i => exact ih hAt

theorem moves_modify (e : ScoutExecutor F) (future call : Nat) :
    Moves runtime e (e.modify future (ScoutTask.finish runtime call)) := by
  induction e generalizing future with
  | nil =>
    rw [modify_nil]
    exact .nil
  | cons task e ih =>
    cases future with
    | zero =>
      rw [modify_zero_cons]
      exact .cons (ScoutTask.moves_finish call) (Moves.refl e)
    | succ future =>
      rw [modify_succ_cons]
      exact .cons (Or.inl rfl) (ih future)

theorem Failed.moves (h : Failed e i) (hMove : Moves runtime e e') : Failed e' i := by
  obtain ⟨task, hAt, hFailed⟩ := h
  obtain ⟨task', hAt', hTask⟩ := hMove.get hAt
  exact ⟨task', hAt', hTask.failed hFailed⟩

theorem mem_pendingFutures :
    i ∈ e.pendingFutures ↔ ∃ task, e[i]? = some task ∧ task.state = .pending := by
  have hPending : ∀ state : FutureState F, state.isPending = true ↔ state = .pending := by
    intro state
    cases state <;> simp [FutureState.isPending]
  unfold pendingFutures
  rw [mem_filter, mem_range]
  constructor
  · rintro ⟨hi, hState⟩
    have hAt := getElem?_eq_getElem hi
    rw [hAt] at hState
    exact ⟨_, hAt, (hPending _).mp hState⟩
  · rintro ⟨task, hAt, hState⟩
    refine ⟨(List.getElem?_eq_some_iff.mp hAt).1, ?_⟩
    rw [hAt]
    exact (hPending _).mpr hState

theorem nodup_pendingFutures (e : ScoutExecutor F) : e.pendingFutures.Nodup :=
  nodup_range.filter _

theorem Moves.pendingFutures_subset (h : Moves runtime e e') :
    e'.pendingFutures ⊆ e.pendingFutures := by
  intro i hi
  obtain ⟨task', hAt', hPending⟩ := mem_pendingFutures.mp hi
  obtain ⟨task, hAt, hTask⟩ := h.get_back hAt'
  exact mem_pendingFutures.mpr ⟨task, hAt, hTask.pending hPending⟩

theorem Moves.pending_le (h : Moves runtime e e') :
    e'.pendingFutures.length ≤ e.pendingFutures.length :=
  (subperm_of_subset (nodup_pendingFutures e') h.pendingFutures_subset).length_le

theorem pending_append (e : ScoutExecutor F) (task : ScoutTask F) :
    (e ++ [task]).pendingFutures.length ≤ e.pendingFutures.length + 1 := by
  have hSubset : (e ++ [task]).pendingFutures ⊆ e.length :: e.pendingFutures := by
    intro i hi
    obtain ⟨found, hAt, hPending⟩ := mem_pendingFutures.mp hi
    rw [getElem?_append] at hAt
    split at hAt
    · exact mem_cons_of_mem _ (mem_pendingFutures.mpr ⟨found, hAt, hPending⟩)
    · have hIn := (List.getElem?_eq_some_iff.mp hAt).1
      simp only [length_singleton] at hIn
      have hLast : i = e.length := by omega
      exact hLast ▸ mem_cons_self
  exact (subperm_of_subset (nodup_pendingFutures _) hSubset).length_le

/-- The event loop leaves the executor as it is or hands it a task, within the limit. -/
def Grows (limit : Nat) (e e' : ScoutExecutor F) : Prop :=
  e' = e ∨ ∃ task : ScoutTask F, task.state = .pending ∧ e' = e ++ [task] ∧
    e'.pendingFutures.length ≤ limit

theorem Grows.refl {limit : Nat} (e : ScoutExecutor F) : Grows limit e e := Or.inl rfl

end ScoutExecutor

namespace ScoutTables

variable {runtime : ScoutRuntime F} {texts : Bytes → Prop} {submitted : Dict String (List Nat)}
  {tables tables' : ScoutTables} {e e' : ScoutExecutor F} {job : ScoutJob} {found : ScoutJob}
  {r : String}

theorem get?_dropJob_jobs : (tables.dropJob job).jobs.get? r = some found ↔
      tables.jobs.get? r = some found ∧ found.future ≠ job.future := by
  unfold dropJob
  rw [get?_filter]
  cases hGet : tables.jobs.get? r with
  | none => simp
  | some candidate =>
    by_cases hIs : candidate.future = job.future
    · simp only [filter_some, ScoutJob.is, hIs, beq_self_eq_true, Bool.not_true, Option.some.injEq]
      constructor
      · exact nofun
      · rintro ⟨rfl, hNe⟩
        exact (hNe hIs).elim
    · simp only [filter_some, ScoutJob.is, hIs, Bool.not_eq_true',
        beq_eq_false_iff_ne, ne_eq, not_false_eq_true, if_true, Option.some.injEq]
      constructor
      · rintro rfl
        exact ⟨rfl, hIs⟩
      · exact fun h => h.1

theorem get?_dropJob_promptJobs {k : String}
    (h : (tables.dropJob job).promptJobs.get? k = some found) :
    tables.promptJobs.get? k = some found ∧
      (k = job.scoreContextSha256 → found.future ≠ job.future) := by
  unfold dropJob at h
  dsimp only at h
  split at h
  · obtain ⟨hNe, h⟩ := get?_erase_cases h
    exact ⟨h, fun hk => (hNe hk.symm).elim⟩
  · rename_i hKept
    refine ⟨h, ?_⟩
    rintro rfl hSame
    rw [h] at hKept
    exact hKept (by simp [ScoutJob.is, hSame])

/-- The two tables name the same jobs, one for every future. -/
structure Linked (tables : ScoutTables) (e : ScoutExecutor F) : Prop where
  handed : ∀ r job, tables.jobs.get? r = some job → job.future < e.length
  unique : ∀ r r' job job', tables.jobs.get? r = some job → tables.jobs.get? r' = some job' →
    job.future = job'.future → job = job'
  keyed : ∀ k job, tables.promptJobs.get? k = some job → k = job.scoreContextSha256
  reached : ∀ k job, tables.promptJobs.get? k = some job → ∃ r, tables.jobs.get? r = some job

theorem Linked.longer (h : Linked tables e) (hLength : e.length ≤ e'.length) : Linked tables e' :=
  ⟨fun r job hGet => Nat.lt_of_lt_of_le (h.handed r job hGet) hLength, h.unique, h.keyed, h.reached⟩

theorem Linked.erasePrompt (h : Linked tables e) (k : String) :
    Linked { tables with promptJobs := tables.promptJobs.erase k } e := by
  have hErase : ∀ k' job, (tables.promptJobs.erase k).get? k' = some job →
      tables.promptJobs.get? k' = some job := by
    intro k' job hGet
    obtain ⟨-, hGet⟩ := get?_erase_cases hGet
    exact hGet
  exact ⟨h.handed, h.unique, fun k' job hGet => h.keyed k' job (hErase k' job hGet),
    fun k' job hGet => h.reached k' job (hErase k' job hGet)⟩

theorem Linked.dropJob (h : Linked tables e)
    (hSame : ∀ r found, tables.jobs.get? r = some found → found.future = job.future → found = job)
    : Linked (tables.dropJob job) e where
  handed := fun r found hGet => h.handed r found (get?_dropJob_jobs.mp hGet).1
  unique := fun r r' found found' hGet hGet' =>
    h.unique r r' found found' (get?_dropJob_jobs.mp hGet).1 (get?_dropJob_jobs.mp hGet').1
  keyed := fun k found hGet => h.keyed k found (get?_dropJob_promptJobs hGet).1
  reached := by
    intro k found hGet
    obtain ⟨hBefore, hOther⟩ := get?_dropJob_promptJobs hGet
    obtain ⟨r, hReached⟩ := h.reached k found hBefore
    refine ⟨r, get?_dropJob_jobs.mpr ⟨hReached, ?_⟩⟩
    -- an entry for the dropped job would stand under the context of that job
    intro hFuture
    have hFound := hSame r found hReached hFuture
    exact hOther (hFound ▸ h.keyed k found hBefore) hFuture

theorem Linked.alias (h : Linked tables e) {r' : String} (hFree : tables.jobs.get? r = none)
    (hJob : tables.jobs.get? r' = some job) :
    Linked { tables with jobs := tables.jobs.set r job } e := by
  have hKnown : ∀ q found, (tables.jobs.set r job).get? q = some found →
      ∃ q', tables.jobs.get? q' = some found := by
    intro q found hGet
    obtain ⟨-, rfl⟩ | ⟨-, hGet⟩ := get?_set_cases hGet
    · exact ⟨r', hJob⟩
    · exact ⟨q, hGet⟩
  refine ⟨?_, ?_, h.keyed, ?_⟩
  · intro q found hGet
    obtain ⟨q', hGet'⟩ := hKnown q found hGet
    exact h.handed q' found hGet'
  · intro q q' found found' hGet hGet'
    obtain ⟨p, hp⟩ := hKnown q found hGet
    obtain ⟨p', hp'⟩ := hKnown q' found' hGet'
    exact h.unique p p' found found' hp hp'
  · intro k found hGet
    obtain ⟨q, hReached⟩ := h.reached k found hGet
    refine ⟨q, ?_⟩
    rw [get?_set_ne _ (fun hEq => by rw [hEq, hReached] at hFree; cases hFree), hReached]

theorem Linked.newJob (h : Linked tables e) (task : ScoutTask F)
    (hFree : tables.jobs.get? r = none) (hFuture : job.future = e.length) :
    Linked { jobs := tables.jobs.set r job
             promptJobs := tables.promptJobs.set job.scoreContextSha256 job } (e ++ [task]) := by
  have hOther : ∀ q found, tables.jobs.get? q = some found → r ≠ q := by
    rintro q found hGet rfl
    rw [hFree] at hGet
    cases hGet
  refine ⟨?_, ?_, ?_, ?_⟩
  · intro q found hGet
    rw [length_append, length_singleton]
    obtain ⟨-, rfl⟩ | ⟨-, hGet⟩ := get?_set_cases hGet
    · omega
    · have hLess := h.handed q found hGet
      omega
  · intro q q' found found' hGet hGet' hSame
    rw [get?_set] at hGet hGet'
    split at hGet
    · split at hGet'
      · exact some.inj (hGet.symm.trans hGet')
      · cases hGet
        have hLess := h.handed q' found' hGet'
        omega
    · split at hGet'
      · cases hGet'
        have hLess := h.handed q found hGet
        omega
      · exact h.unique q q' found found' hGet hGet' hSame
  · intro k found hGet
    obtain ⟨hk, rfl⟩ | ⟨-, hGet⟩ := get?_set_cases hGet
    · exact hk.symm
    · exact h.keyed k found hGet
  · intro k found hGet
    obtain ⟨-, rfl⟩ | ⟨-, hGet⟩ := get?_set_cases hGet
    · exact ⟨r, get?_set_self _ _ _⟩
    · obtain ⟨q, hq⟩ := h.reached k found hGet
      exact ⟨q, by rw [get?_set_ne _ (hOther q found hq), hq]⟩

/-- The task of a job, and the tokens its request submitted. -/
def Served (texts : Bytes → Prop) (e : ScoutExecutor F) (job : ScoutJob) (tokenIds : List Nat) :
    Prop :=
  ∃ task payload, e[job.future]? = some task ∧ task.tokenIds = tokenIds ∧
    Origin texts payload job.toScoutPrompt tokenIds

/-- What holds of the tables between the accesses of the event loop. -/
structure Sound (texts : Bytes → Prop) (submitted : Dict String (List Nat))
    (tables : ScoutTables) (e : ScoutExecutor F) : Prop where
  served : ∀ r job, tables.jobs.get? r = some job →
    ∃ tokenIds, submitted.get? r = some tokenIds ∧ Served texts e job tokenIds
  unique : ∀ r r' job job', tables.jobs.get? r = some job → tables.jobs.get? r' = some job' →
    job.future = job'.future → job = job'
  keyed : ∀ k job, tables.promptJobs.get? k = some job → k = job.scoreContextSha256
  reached : ∀ k job, tables.promptJobs.get? k = some job → ∃ r, tables.jobs.get? r = some job
  live : ∀ i ∈ e.pendingFutures, ∃ r job, tables.jobs.get? r = some job ∧ job.future = i

theorem Sound.linked (h : Sound texts submitted tables e) : Linked tables e where
  handed := by
    intro r job hGet
    obtain ⟨_, -, _, _, hAt, -⟩ := h.served r job hGet
    exact (List.getElem?_eq_some_iff.mp hAt).1
  unique := h.unique
  keyed := h.keyed
  reached := h.reached

theorem Served.moves {tokenIds : List Nat} (h : Served texts e job tokenIds)
    (hMove : ScoutExecutor.Moves runtime e e') : Served texts e' job tokenIds := by
  obtain ⟨task, payload, hAt, hTokens, hOrigin⟩ := h
  obtain ⟨task', hAt', hTask⟩ := hMove.get hAt
  exact ⟨task', payload, hAt', hTask.tokenIds.trans hTokens, hOrigin⟩

theorem Sound.moves (h : Sound texts submitted tables e)
    (hMove : ScoutExecutor.Moves runtime e e') : Sound texts submitted tables e' where
  served := by
    intro r job hGet
    obtain ⟨tokenIds, hSubmitted, hServed⟩ := h.served r job hGet
    exact ⟨tokenIds, hSubmitted, hServed.moves hMove⟩
  unique := h.unique
  keyed := h.keyed
  reached := h.reached
  live := fun i hi => h.live i (hMove.pendingFutures_subset hi)

theorem Sound.erasePrompt (h : Sound texts submitted tables e) (k : String) :
    Sound texts submitted { tables with promptJobs := tables.promptJobs.erase k } e :=
  have hLinked := h.linked.erasePrompt k
  ⟨h.served, h.unique, hLinked.keyed, hLinked.reached, h.live⟩

theorem Sound.dropJob (h : Sound texts submitted tables e)
    (hSame : ∀ r found, tables.jobs.get? r = some found → found.future = job.future → found = job)
    (hDone : job.future ∉ e.pendingFutures) : Sound texts submitted (tables.dropJob job) e where
  served := fun r found hGet => h.served r found (get?_dropJob_jobs.mp hGet).1
  unique := (h.linked.dropJob hSame).unique
  keyed := (h.linked.dropJob hSame).keyed
  reached := (h.linked.dropJob hSame).reached
  live := by
    intro i hi
    obtain ⟨r, found, hGet, hFuture⟩ := h.live i hi
    refine ⟨r, found, get?_dropJob_jobs.mpr ⟨hGet, ?_⟩, hFuture⟩
    intro hEq
    exact hDone (hEq ▸ hFuture.symm ▸ hi)

theorem mem_uniqueJobs_values (h : job ∈ tables.uniqueJobs) :
    ∃ r, tables.jobs.get? r = some job := by
  obtain ⟨future, hGet⟩ := mem_values_iff.mp h
  have hMem := mem_of_get?_ofList hGet
  obtain ⟨job', hValue, hPair⟩ := List.mem_map.mp hMem
  cases hPair
  exact mem_values_iff.mp hValue

theorem exists_mem_uniqueJobs (h : tables.jobs.get? r = some job) :
    ∃ found ∈ tables.uniqueJobs, found.future = job.future := by
  have hMem : (job.future, job) ∈ tables.jobs.values.map fun job => (job.future, job) :=
    List.mem_map.mpr ⟨job, mem_values_iff.mpr ⟨r, h⟩, rfl⟩
  obtain ⟨found, hGet⟩ := exists_get?_ofList hMem
  obtain ⟨found', -, hPair⟩ := List.mem_map.mp (mem_of_get?_ofList hGet)
  obtain ⟨hFuture, rfl⟩ := Prod.mk.inj hPair
  exact ⟨found', mem_values_iff.mpr ⟨_, hGet⟩, hFuture⟩

end ScoutTables

section Threads

open ScoutExecutor ScoutTables Thread

variable {runtime : ScoutRuntime F} {limit : Nat} {texts : Bytes → Prop}
  {submitted : Dict String (List Nat)} {tables : ScoutTables} {e e₀ : ScoutExecutor F}
  {job : ScoutJob}

theorem futureState_ensures {post : FutureState F → ScoutExecutor F → Prop}
    (h : ∀ e₁, Moves runtime e e₁ → ∀ e₂, Moves runtime e₁ e₂ →
      post ((e₁[job.future]?.map ScoutTask.state).getD .pending) e₂)
    : (job.futureState (F := F)).Ensures (Moves runtime) (Grows limit) post e :=
  ensures_read Grows.refl h

theorem selectDone_ensures (l : List ScoutJob) (e : ScoutExecutor F) :
    (selectDone (F := F) l).Ensures (Moves runtime) (Grows limit)
      (fun _ e' => Moves runtime e e') e := by
  induction l generalizing e with
  | nil => exact fun e' hMove => hMove
  | cons job rest ih =>
    have hLook : (job.futureState (F := F)).Ensures (Moves runtime) (Grows limit)
        (fun _ e' => Moves runtime e e') e :=
      futureState_ensures fun e₁ h₁ e₂ h₂ => h₁.trans h₂
    apply hLook.bind Moves.refl
    intro _ e₁ h₁
    apply (ih e₁).bind Moves.refl
    intro _ e₂ h₂
    exact fun e₃ h₃ => h₁.trans (h₂.trans h₃)

theorem countPending_ensures (l : List ScoutJob) (e : ScoutExecutor F) :
    (countPending (F := F) l).Ensures (Moves runtime) (Grows limit)
      (fun n e' => Moves runtime e e' ∧
        (l.filter fun job => job.future ∈ e'.pendingFutures).length ≤ n) e := by
  induction l generalizing e with
  | nil => exact fun e' hMove => ⟨hMove, Nat.le_refl _⟩
  | cons job rest ih =>
    have hLook : (job.futureState (F := F)).Ensures (Moves runtime) (Grows limit)
        (fun state e' => Moves runtime e e' ∧
          (job.future ∈ e'.pendingFutures → state.isPending = true)) e := by
      apply futureState_ensures
      intro e₁ h₁ e₂ h₂
      refine ⟨h₁.trans h₂, fun hMem => ?_⟩
      obtain ⟨task, hAt, hPending⟩ := mem_pendingFutures.mp (h₂.pendingFutures_subset hMem)
      rw [hAt, map_some, getD_some, hPending]
      rfl
    apply hLook.bind Moves.refl
    rintro state e₁ ⟨h₁, hSeen⟩
    apply (ih e₁).bind Moves.refl
    rintro n e₂ ⟨h₂, hCount⟩ e₃ h₃
    refine ⟨h₁.trans (h₂.trans h₃), ?_⟩
    have hRest : (rest.filter fun job => job.future ∈ e₃.pendingFutures).length ≤ n := by
      refine Nat.le_trans (List.Sublist.length_le ?_) hCount
      apply monotone_filter_right
      intro other hOther
      simp only [decide_eq_true_eq] at hOther ⊢
      exact h₃.pendingFutures_subset hOther
    by_cases hMem : job.future ∈ e₃.pendingFutures
    · have hBefore := (h₂.trans h₃).pendingFutures_subset hMem
      rw [filter_cons_of_pos (by simpa using hMem), if_pos (hSeen hBefore)]
      exact Nat.succ_le_succ hRest
    · rw [filter_cons_of_neg (by simpa using hMem)]
      split
      · exact Nat.le_succ_of_le hRest
      · exact hRest

variable (service : ScoutJobService)

theorem evictCompleted_ensures (rounds : Nat) (h : Sound texts submitted tables e) :
    (service.evictCompleted rounds tables).Ensures (Moves runtime) (Grows limit)
      (fun t e' => Sound texts submitted t e' ∧ t.jobs = tables.jobs ∧ Moves runtime e e') e := by
  induction rounds generalizing tables e with
  | zero => exact fun e' hMove => ⟨h.moves hMove, rfl, hMove⟩
  | succ rounds ih =>
    unfold ScoutJobService.evictCompleted
    split
    · exact fun e' hMove => ⟨h.moves hMove, rfl, hMove⟩
    · apply (selectDone_ensures _ e).bind Moves.refl
      intro completed e₁ h₁
      split
      · exact fun e' hMove => ⟨(h.moves h₁).moves hMove, rfl, h₁.trans hMove⟩
      · split
        · refine (ih ((h.moves h₁).erasePrompt _)).mono ?_
          rintro t e' ⟨hSound, hJobs, hMove⟩
          exact ⟨hSound, hJobs, h₁.trans hMove⟩
        · refine (ih (h.moves h₁)).mono ?_
          rintro t e' ⟨hSound, hJobs, hMove⟩
          exact ⟨hSound, hJobs, h₁.trans hMove⟩

/-- The invariant of the loop of `_cleanup`, with `rest` still to be looked at: a job that had
failed when the loop began has its turn before it. -/
structure Cleaning (runtime : ScoutRuntime F) (texts : Bytes → Prop)
    (submitted : Dict String (List Nat)) (e₀ : ScoutExecutor F) (tables : ScoutTables)
    (rest : List ScoutJob) (e : ScoutExecutor F) : Prop where
  sound : Sound texts submitted tables e
  moves : Moves runtime e₀ e
  same : ∀ job ∈ rest, ∀ r found, tables.jobs.get? r = some found →
    found.future = job.future → found = job
  failed : ∀ r found, tables.jobs.get? r = some found → Failed e₀ found.future →
    ∃ job ∈ rest, job.future = found.future

variable {rest : List ScoutJob}

theorem Cleaning.later {e' : ScoutExecutor F}
    (h : Cleaning runtime texts submitted e₀ tables rest e) (hMove : Moves runtime e e') :
    Cleaning runtime texts submitted e₀ tables rest e' :=
  ⟨h.sound.moves hMove, h.moves.trans hMove, h.same, h.failed⟩

theorem Cleaning.skip (h : Cleaning runtime texts submitted e₀ tables (job :: rest) e)
    (hFine : ¬ Failed e₀ job.future) : Cleaning runtime texts submitted e₀ tables rest e := by
  refine ⟨h.sound, h.moves, fun other hMem => h.same other (mem_cons_of_mem _ hMem), ?_⟩
  intro r found hGet hFailed
  obtain ⟨other, hMem, hFuture⟩ := h.failed r found hGet hFailed
  rcases mem_cons.mp hMem with rfl | hRest
  · exact (hFine (hFuture ▸ hFailed)).elim
  · exact ⟨other, hRest, hFuture⟩

theorem Cleaning.drop (h : Cleaning runtime texts submitted e₀ tables (job :: rest) e)
    (hDone : job.future ∉ e.pendingFutures) :
    Cleaning runtime texts submitted e₀ (tables.dropJob job) rest e := by
  refine ⟨h.sound.dropJob (h.same job mem_cons_self) hDone, h.moves, ?_, ?_⟩
  · intro other hMem r found hGet
    exact h.same other (mem_cons_of_mem _ hMem) r found (get?_dropJob_jobs.mp hGet).1
  · intro r found hGet hFailed
    obtain ⟨hBefore, hOther⟩ := get?_dropJob_jobs.mp hGet
    obtain ⟨other, hMem, hFuture⟩ := h.failed r found hBefore hFailed
    rcases mem_cons.mp hMem with rfl | hRest
    · exact (hOther hFuture.symm).elim
    · exact ⟨other, hRest, hFuture⟩

variable {now : Int}

theorem cleanupJob_ensures (h : Cleaning runtime texts submitted e₀ tables (job :: rest) e) :
    (service.cleanupJob now tables job).Ensures (Moves runtime) (Grows limit)
      (fun t e' => Cleaning runtime texts submitted e₀ t rest e') e := by
  have hLook : (job.futureState (F := F)).Ensures (Moves runtime) (Grows limit)
      (fun state e' => Moves runtime e e' ∧
        (state.isPending = false → job.future ∉ e'.pendingFutures) ∧
        (Failed e₀ job.future → state = .failed)) e := by
    apply futureState_ensures
    intro e₁ h₁ e₂ h₂
    refine ⟨h₁.trans h₂, ?_, ?_⟩
    · intro hDone hMem
      obtain ⟨task, hAt, hPending⟩ := mem_pendingFutures.mp (h₂.pendingFutures_subset hMem)
      rw [hAt, map_some, getD_some, hPending] at hDone
      cases hDone
    · intro hFailed
      obtain ⟨task, hAt, hState⟩ := hFailed.moves (h.moves.trans h₁)
      rw [hAt, map_some, getD_some, hState]
  apply hLook.bind Moves.refl
  rintro state e₁ ⟨h₁, hDone, hFailed⟩
  have hLater := h.later h₁
  cases state with
  | pending =>
    refine ensures_ret fun e₂ h₂ => (hLater.skip fun hBad => ?_).later h₂
    cases hFailed hBad
  | failed => exact ensures_ret fun e₂ h₂ => (hLater.drop (hDone rfl)).later h₂
  | done result =>
    refine ensures_ret fun e₂ h₂ => ?_
    split
    · exact (hLater.drop (hDone rfl)).later h₂
    · refine (hLater.skip fun hBad => ?_).later h₂
      cases hFailed hBad

/-- After `_cleanup` no job that had failed when it began has an alias. -/
theorem cleanup_ensures (h : Sound texts submitted tables e) :
    (service.cleanup now tables).Ensures (Moves runtime) (Grows limit)
      (fun t e' => Sound texts submitted t e' ∧ Moves runtime e e' ∧
        ∀ r job, t.jobs.get? r = some job → ¬ Failed e job.future) e := by
  have hStart : Cleaning runtime texts submitted e tables tables.uniqueJobs e := by
    refine ⟨h, Moves.refl e, ?_, ?_⟩
    · intro job hMem r found hGet
      obtain ⟨r', hGet'⟩ := mem_uniqueJobs_values hMem
      exact h.unique r r' found job hGet hGet'
    · intro r found hGet _
      exact exists_mem_uniqueJobs hGet
  have hLoop : (tables.uniqueJobs.foldlM (service.cleanupJob (F := F) now) tables).Ensures
      (Moves runtime) (Grows limit) (fun t e' => Cleaning runtime texts submitted e t [] e') e :=
    ensures_foldlM Moves.refl (Cleaning runtime texts submitted e)
      (fun t job rest e' hInv => cleanupJob_ensures service hInv)
      (fun t e₁ e₂ hInv hMove => hInv.later hMove) hStart
  apply hLoop.bind Moves.refl
  intro t e₁ hInv
  refine (evictCompleted_ensures service _ hInv.sound).mono ?_
  rintro t' e₂ ⟨hSound, hJobs, hMove⟩
  refine ⟨hSound, hInv.moves.trans hMove, ?_⟩
  intro r job hGet hFailed
  rw [hJobs] at hGet
  obtain ⟨other, hMem, -⟩ := hInv.failed r job hGet hFailed
  cases hMem

/-- What a submission ends with: the tables are sound for what is then submitted, and the
job of an accepted request had not failed when the submission began. -/
def Submitted (texts : Bytes → Prop) (submitted : Dict String (List Nat)) (s : ScoutSubmission)
    (e₀ : ScoutExecutor F) (outcome : ScoutTables × SubmitReply) (e : ScoutExecutor F) : Prop :=
  Sound texts
      (if outcome.2.isAccepted then submitted.set s.requestId s.tokenIds else submitted)
      outcome.1 e ∧
    (outcome.2.isAccepted = true →
      ∀ job, outcome.1.jobs.get? s.requestId = some job → ¬ Failed e₀ job.future)

variable {r : String}

theorem ScoutTables.Sound.setSubmitted (h : Sound texts submitted tables e) {tokenIds : List Nat}
    (hAlias : ∀ job, tables.jobs.get? r = some job → Served texts e job tokenIds) :
    Sound texts (submitted.set r tokenIds) tables e := by
  refine ⟨?_, h.unique, h.keyed, h.reached, h.live⟩
  intro r' job hGet
  by_cases hr : r = r'
  · subst hr
    exact ⟨tokenIds, get?_set_self _ _ _, hAlias job hGet⟩
  · rw [get?_set_ne _ hr]
    exact h.served r' job hGet

theorem ScoutTables.Sound.alias (h : Sound texts submitted tables e) {r' : String}
    {tokenIds : List Nat} (hFree : tables.jobs.get? r = none)
    (hReached : tables.jobs.get? r' = some job) (hServed : Served texts e job tokenIds) :
    Sound texts (submitted.set r tokenIds) { tables with jobs := tables.jobs.set r job } e := by
  have hOld : ∀ q found, tables.jobs.get? q = some found →
      (tables.jobs.set r job).get? q = some found := by
    intro q found hGet
    rw [get?_set_ne _ (by rintro rfl; rw [hFree] at hGet; cases hGet)]
    exact hGet
  have hLinked := h.linked.alias hFree hReached
  refine ⟨?_, hLinked.unique, h.keyed, hLinked.reached, ?_⟩
  · intro q found hGet
    by_cases hq : r = q
    · subst hq
      rw [get?_set_self] at hGet
      cases hGet
      exact ⟨tokenIds, get?_set_self _ _ _, hServed⟩
    · rw [get?_set_ne _ hq] at hGet ⊢
      exact h.served q found hGet
  · intro i hi
    obtain ⟨q, found, hGet, hFuture⟩ := h.live i hi
    exact ⟨q, found, hOld q found hGet, hFuture⟩

theorem ScoutTables.Sound.newJob (h : Sound texts submitted tables e) {task : ScoutTask F}
    {payload : Bytes} (hFree : tables.jobs.get? r = none) (hFuture : job.future = e.length)
    (hOrigin : Origin texts payload job.toScoutPrompt task.tokenIds) :
    Sound texts (submitted.set r task.tokenIds)
      { jobs := tables.jobs.set r job
        promptJobs := tables.promptJobs.set job.scoreContextSha256 job } (e ++ [task]) := by
  have hOther : ∀ q found, tables.jobs.get? q = some found → r ≠ q := by
    rintro q found hGet rfl
    rw [hFree] at hGet
    cases hGet
  have hLinked := h.linked.newJob task hFree hFuture
  refine ⟨?_, hLinked.unique, hLinked.keyed, hLinked.reached, ?_⟩
  · intro q found hGet
    by_cases hq : r = q
    · subst hq
      rw [get?_set_self] at hGet
      cases hGet
      refine ⟨task.tokenIds, get?_set_self _ _ _, task, payload, ?_, rfl, hOrigin⟩
      rw [hFuture, getElem?_concat_length]
    · rw [get?_set_ne _ hq] at hGet ⊢
      obtain ⟨tokenIds, hSubmitted, old, payload', hAt, hTokens, hOld⟩ := h.served q found hGet
      refine ⟨tokenIds, hSubmitted, old, payload', ?_, hTokens, hOld⟩
      rw [getElem?_append_left (h.linked.handed q found hGet)]
      exact hAt
  · intro i hi
    obtain ⟨found, hAt, hPending⟩ := mem_pendingFutures.mp hi
    rw [getElem?_append] at hAt
    split at hAt
    · obtain ⟨q, job', hGet, hFuture'⟩ :=
        h.live i (mem_pendingFutures.mpr ⟨found, hAt, hPending⟩)
      exact ⟨q, job', by rw [get?_set_ne _ (hOther q job' hGet), hGet], hFuture'⟩
    · have hLast := (List.getElem?_eq_some_iff.mp hAt).1
      simp only [length_singleton] at hLast
      exact ⟨r, job, get?_set_self _ _ _, by omega⟩

theorem pending_le_uniqueJobs (h : Sound texts submitted tables e) :
    e.pendingFutures.length ≤
      (tables.uniqueJobs.filter fun job => job.future ∈ e.pendingFutures).length := by
  have hSubset : e.pendingFutures ⊆
      (tables.uniqueJobs.filter fun job => job.future ∈ e.pendingFutures).map ScoutJob.future := by
    intro i hi
    obtain ⟨r, job, hGet, rfl⟩ := h.live i hi
    obtain ⟨found, hMem, hFuture⟩ := exists_mem_uniqueJobs hGet
    refine List.mem_map.mpr ⟨found, mem_filter.mpr ⟨hMem, ?_⟩, hFuture⟩
    simpa [hFuture] using hi
  have hLength := (subperm_of_subset (nodup_pendingFutures e) hSubset).length_le
  rwa [length_map] at hLength

variable {s : ScoutSubmission}

theorem startJob_ensures {prompt : ScoutPrompt} {payload : Bytes}
    (h : Sound texts submitted tables e) (hStart : Moves runtime e₀ e)
    (hFree : tables.jobs.get? s.requestId = none)
    (hOrigin : Origin texts payload prompt s.tokenIds) :
    (service.startJob tables s prompt now).Ensures (Moves runtime) (Grows service.maxPendingJobs)
      (Submitted texts submitted s e₀) e := by
  apply (countPending_ensures tables.uniqueJobs e).bind Moves.refl
  rintro n e₁ ⟨h₁, hCount⟩
  split
  · exact fun e₂ h₂ => ⟨(h.moves h₁).moves h₂, nofun⟩
  · rename_i hRoom
    let task : ScoutTask F :=
      ⟨s.tokenIds, prompt.scoreStart, prompt.scoreEnd, prompt.fullTokenCount, .pending⟩
    have hHand : (Thread.update (fun executor : ScoutExecutor F => executor ++ [task])
        List.length).Ensures (Moves runtime) (Grows service.maxPendingJobs)
        (fun future e₃ => ∃ e₂, Moves runtime e₁ e₂ ∧ future = e₂.length ∧
          Moves runtime (e₂ ++ [task]) e₃) e₁ := by
      apply ensures_update
      intro e₂ h₂
      refine ⟨Or.inr ⟨task, rfl, rfl, ?_⟩, fun e₃ h₃ => ⟨e₂, h₂, rfl, h₃⟩⟩
      have hBound := pending_le_uniqueJobs (h.moves h₁)
      have hLess := h₂.pending_le
      have hMore := pending_append e₂ task
      omega
    apply hHand.bind Moves.refl
    rintro future e₃ ⟨e₂, h₂, rfl, h₃⟩
    let job : ScoutJob :=
      { prompt with requestId := s.requestId, submittedAt := now, future := e₂.length }
    have hSound : Sound texts (submitted.set s.requestId task.tokenIds)
        { jobs := tables.jobs.set s.requestId job
          promptJobs := tables.promptJobs.set job.scoreContextSha256 job } (e₂ ++ [task]) :=
      ((h.moves h₁).moves h₂).newJob hFree rfl hOrigin
    apply (evictCompleted_ensures service _ (hSound.moves h₃)).bind Moves.refl
    rintro t e₄ ⟨hEvicted, hJobs, -⟩ e₅ h₅
    refine ⟨hEvicted.moves h₅, ?_⟩
    intro _ job hGet hFailed
    simp only [hJobs, get?_set_self] at hGet
    cases hGet
    -- the future of the new job is none of the futures there were at the start
    obtain ⟨old, hAt, -⟩ := hFailed
    have hIn : e₂.length < e₀.length := (List.getElem?_eq_some_iff.mp hAt).1
    have hSize := ((hStart.trans h₁).trans h₂).length_eq
    omega

theorem place_ensures {prompt : ScoutPrompt} {payload : Bytes} (hFree : CollisionFree texts)
    (h : Sound texts submitted tables e) (hStart : Moves runtime e₀ e)
    (hFine : ∀ r job, tables.jobs.get? r = some job → ¬ Failed e₀ job.future)
    (hOrigin : Origin texts payload prompt s.tokenIds) :
    (service.place tables s prompt now).Ensures (Moves runtime) (Grows service.maxPendingJobs)
      (Submitted texts submitted s e₀) e := by
  unfold ScoutJobService.place
  split
  · rename_i existing hExisting
    split
    · exact fun e₁ h₁ => ⟨h.moves h₁, nofun⟩
    · rename_i hPrompt
      refine fun e₁ h₁ => ⟨(h.moves h₁).setSubmitted ?_, fun _ job hGet => hFine _ job hGet⟩
      intro job hGet
      rw [hExisting] at hGet
      cases hGet
      obtain ⟨_, -, task, payload', hAt, rfl, hJob⟩ := (h.moves h₁).served _ existing hExisting
      have hTokens := hJob.eq_of_digest hFree hOrigin
        (congrArg ScoutPrompt.tokenSha256 (not_not.mp hPrompt))
      exact ⟨task, payload', hAt, hTokens, hTokens ▸ hJob⟩
  · rename_i hAbsent
    split
    · rename_i promptJob hPromptJob
      split
      · exact fun e₁ h₁ => ⟨h.moves h₁, nofun⟩
      · rename_i hRange
        simp only [Bool.not_eq_true', Bool.not_eq_false] at hRange
        intro e₁ h₁
        obtain ⟨r, hReached⟩ := h.reached _ promptJob hPromptJob
        obtain ⟨_, -, task, payload', hAt, rfl, hJob⟩ := (h.moves h₁).served r promptJob hReached
        have hContext := h.keyed _ promptJob hPromptJob
        have hTokens := hJob.eq_of_context hFree hOrigin hRange hContext.symm
        refine ⟨(h.moves h₁).alias hAbsent hReached ⟨task, payload', hAt, hTokens, hTokens ▸ hJob⟩,
          ?_⟩
        intro _ job hGet
        simp only [get?_set_self] at hGet
        cases hGet
        exact hFine r promptJob hReached
    · exact startJob_ensures service h hStart hAbsent hOrigin

theorem submit_ensures (hFree : CollisionFree texts) (h : Sound texts submitted tables e)
    (hOrigin : ∀ prompt, s.prompt = .ok prompt → ∃ payload, Origin texts payload prompt s.tokenIds)
    : (service.submit tables s now).Ensures (Moves runtime) (Grows service.maxPendingJobs)
      (Submitted texts submitted s e) e := by
  unfold ScoutJobService.submit
  split
  · exact fun e₁ h₁ => ⟨h.moves h₁, nofun⟩
  · rename_i prompt hPrompt
    obtain ⟨payload, hNamed⟩ := hOrigin prompt hPrompt
    apply (cleanup_ensures service h).bind Moves.refl
    rintro t e₁ ⟨hSound, hMove, hFine⟩
    exact place_ensures service hFree hSound hMove hFine hNamed

end Threads

end LMCache.MaKV
