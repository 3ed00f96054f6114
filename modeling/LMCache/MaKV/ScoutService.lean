import LMCache.Lib.Run
import LMCache.Lib.Thread
import LMCache.Lib.Words
import LMCache.MaKV.Plan

/-!
# The ScoutRank job service of the MaKV manager

The service runs on the event loop of the manager, and its jobs on one worker thread. The two
share the futures of the jobs and nothing else. So `submit`, `_cleanup` and `_evict_completed` are
threads over the executor: between two looks at a future the worker may complete or fail any job.
-/

namespace LMCache.MaKV

open Lib

def payloadSha256 (payload : Bytes) : String := hexDigest (sha256 payload)

def scoreContextText (tokenSha256 : String) (scoreStart fullTokenCount : Int) : Bytes :=
  Bytes.encodeUtf8 (tokenSha256.toList ++ ':' :: (toString scoreStart).toList ++
    ':' :: (toString fullTokenCount).toList)

def scoreContextSha256 (tokenSha256 : String) (scoreStart fullTokenCount : Int) : String :=
  hexDigest (sha256 (scoreContextText tokenSha256 scoreStart fullTokenCount))

/-- The token ids of a payload of unsigned 32-bit integers in network order. -/
def decodeTokenIds (payload : Bytes) (tokenCount : Int) : Result (List Nat) := do
  rejectIf (tokenCount < 0 || payload.length ≠ tokenCount * 4)
    "ScoutRank token payload length does not match token_count"
  return (payload.words 4).map Bytes.ofBE

structure ScoutScoreResult (F : Type) where
  scores : List F
  scoreStart : Int
  scoreEnd : Int
  fullTokenCount : Int

inductive FutureState (F : Type)
  | pending
  | done (result : ScoutScoreResult F)
  | failed

def FutureState.isPending {F : Type} : FutureState F → Bool
  | .pending => true
  | _ => false

/-- A call of `_run` that was handed to the executor, and the state of its future. -/
structure ScoutTask (F : Type) where
  tokenIds : List Nat
  scoreStart : Int
  scoreEnd : Int
  fullTokenCount : Int
  state : FutureState F

/-- The calls handed to the executor so far; a future is known by its place. -/
abbrev ScoutExecutor (F : Type) := List (ScoutTask F)

/-- What the `call`-th call of `score_token_ids` returns on a prompt; `none` when it raises. -/
abbrev ScoutRuntime (F : Type) := Nat → List Nat → Option (List F)

variable {F : Type}

def ScoutTask.run (runtime : ScoutRuntime F) (call : Nat) (task : ScoutTask F) : FutureState F :=
  match runtime call task.tokenIds with
  | none => .failed
  | some scores =>
    if scores.length ≠ task.tokenIds.length then .failed
    else .done ⟨scores, task.scoreStart, task.scoreEnd, task.fullTokenCount⟩

/-- The worker ends a call; a future that is done stays as it is. -/
def ScoutTask.finish (runtime : ScoutRuntime F) (call : Nat) (task : ScoutTask F) : ScoutTask F :=
  match task.state with
  | .pending => { task with state := task.run runtime call }
  | _ => task

structure ScoutPrompt where
  tokenCount : Nat
  tokenSha256 : String
  scoreContextSha256 : String
  scoreStart : Int
  scoreEnd : Int
  fullTokenCount : Int
  deriving DecidableEq

structure ScoutJob extends ScoutPrompt where
  requestId : String
  submittedAt : Int
  future : Nat
  deriving DecidableEq

/-- `self is other`: every job has a future of its own. -/
def ScoutJob.is (self other : ScoutJob) : Bool := self.future == other.future

structure ScoutTables where
  jobs : Dict String ScoutJob
  promptJobs : Dict String ScoutJob

/-- The settings of the service, checked when it is built. -/
structure ScoutJobService where
  maxPendingJobs : Nat
  resultTtl : Int
  maxCachedPrompts : Nat
  maxPendingJobs_pos : 0 < maxPendingJobs
  resultTtl_pos : 0 < resultTtl
  maxCachedPrompts_pos : 0 < maxCachedPrompts

namespace ScoutTables

def uniqueJobs (tables : ScoutTables) : List ScoutJob :=
  (Dict.ofList (tables.jobs.values.map fun job => (job.future, job))).values

def dropJob (tables : ScoutTables) (job : ScoutJob) : ScoutTables where
  jobs := tables.jobs.filter fun _ candidate => !candidate.is job
  promptJobs :=
    if (tables.promptJobs.get? job.scoreContextSha256).any fun candidate => candidate.is job then
      tables.promptJobs.erase job.scoreContextSha256
    else tables.promptJobs

end ScoutTables

/-- `min(completed, key=lambda job: job.submitted_at)`. -/
def oldest : List ScoutJob → Option ScoutJob
  | [] => none
  | job :: rest =>
    match oldest rest with
    | none => some job
    | some best => if best.submittedAt < job.submittedAt then some best else some job

def ScoutJob.futureState (job : ScoutJob) : Thread (ScoutExecutor F) (FutureState F) :=
  .read fun executor => (executor[job.future]?.map ScoutTask.state).getD .pending

/-- The jobs of a list whose futures are found done, looked at one after another. -/
def selectDone : List ScoutJob → Thread (ScoutExecutor F) (List ScoutJob)
  | [] => return []
  | job :: rest => do
    let state ← job.futureState (F := F)
    let completed ← selectDone rest
    return if state.isPending then completed else job :: completed

/-- The number of jobs of a list whose futures are not found done. -/
def countPending : List ScoutJob → Thread (ScoutExecutor F) Nat
  | [] => return 0
  | job :: rest => do
    let state ← job.futureState (F := F)
    let count ← countPending rest
    return if state.isPending then count + 1 else count

namespace ScoutJobService

variable (service : ScoutJobService)

/-- `_evict_completed`; every round of the loop takes one entry out of `_prompt_jobs`. -/
def evictCompleted : Nat → ScoutTables → Thread (ScoutExecutor F) ScoutTables
  | 0, tables => return tables
  | rounds + 1, tables => do
    if tables.promptJobs.size ≤ service.maxCachedPrompts then return tables
    match oldest (← selectDone tables.promptJobs.values) with
    | none => return tables
    | some job =>
      if (tables.promptJobs.get? job.scoreContextSha256).any fun candidate => candidate.is job then
        evictCompleted rounds
          { tables with promptJobs := tables.promptJobs.erase job.scoreContextSha256 }
      else evictCompleted rounds tables

def cleanupJob (now : Int) (tables : ScoutTables) (job : ScoutJob) :
    Thread (ScoutExecutor F) ScoutTables := do
  match ← job.futureState (F := F) with
  | .pending => return tables
  | .failed => return tables.dropJob job
  | .done _ =>
    return if now - job.submittedAt ≥ service.resultTtl then tables.dropJob job else tables

def cleanup (now : Int) (tables : ScoutTables) : Thread (ScoutExecutor F) ScoutTables := do
  let tables ← tables.uniqueJobs.foldlM (service.cleanupJob now) tables
  service.evictCompleted tables.promptJobs.size tables

end ScoutJobService

structure ScoutSubmission where
  requestId : String
  tokenIds : List Nat
  tokenSha256 : String
  scoreStart : Int
  fullTokenCount : Option Int
  scoreContextSha256 : Option String

def ScoutSubmission.prompt (s : ScoutSubmission) : Result ScoutPrompt := do
  rejectIf (s.requestId == "") "ScoutRank submission requires request_id"
  rejectIf (s.tokenSha256 == "") "ScoutRank submission requires token_sha256"
  let fullTokenCount := s.fullTokenCount.getD s.tokenIds.length
  let scoreEnd := s.scoreStart + s.tokenIds.length
  rejectIf (!(0 ≤ s.scoreStart && s.scoreStart ≤ scoreEnd && scoreEnd ≤ fullTokenCount))
    "ScoutRank score range is outside the full prompt"
  let scoreContext := s.scoreContextSha256.getD ""
  return {
    tokenCount := s.tokenIds.length
    tokenSha256 := s.tokenSha256
    scoreContextSha256 := if scoreContext == "" then s.tokenSha256 else scoreContext
    scoreStart := s.scoreStart
    scoreEnd := scoreEnd
    fullTokenCount := fullTokenCount }

inductive SubmitReply
  | accepted (deduplicated : Bool) (dedupScope : Option String)
  | raised (error : PyException)
  | queueFull
  deriving DecidableEq

def SubmitReply.isAccepted : SubmitReply → Bool
  | .accepted _ _ => true
  | _ => false

def ScoutPrompt.sameRange (p q : ScoutPrompt) : Bool :=
  p.tokenCount == q.tokenCount && p.scoreStart == q.scoreStart && p.scoreEnd == q.scoreEnd &&
    p.fullTokenCount == q.fullTokenCount

namespace ScoutJobService

variable (service : ScoutJobService)

def startJob (tables : ScoutTables) (s : ScoutSubmission) (prompt : ScoutPrompt) (now : Int) :
    Thread (ScoutExecutor F) (ScoutTables × SubmitReply) := do
  let pending ← countPending tables.uniqueJobs
  if service.maxPendingJobs ≤ pending then return (tables, .queueFull)
  let future ← Thread.update
    (fun executor : ScoutExecutor F => executor ++
      [⟨s.tokenIds, prompt.scoreStart, prompt.scoreEnd, prompt.fullTokenCount, .pending⟩])
    List.length
  let job : ScoutJob :=
    { prompt with requestId := s.requestId, submittedAt := now, future := future }
  let tables : ScoutTables :=
    { jobs := tables.jobs.set s.requestId job
      promptJobs := tables.promptJobs.set prompt.scoreContextSha256 job }
  let tables ← service.evictCompleted tables.promptJobs.size tables
  return (tables, .accepted false none)

/-- `submit` after its cleanup. -/
def place (tables : ScoutTables) (s : ScoutSubmission) (prompt : ScoutPrompt) (now : Int) :
    Thread (ScoutExecutor F) (ScoutTables × SubmitReply) :=
  match tables.jobs.get? s.requestId with
  | some existing =>
    if existing.toScoutPrompt ≠ prompt then
      return (tables, .raised
        ⟨.valueError, "ScoutRank request_id was reused for another prompt"⟩)
    else return (tables, .accepted true none)
  | none =>
    match tables.promptJobs.get? prompt.scoreContextSha256 with
    | some promptJob =>
      if !promptJob.toScoutPrompt.sameRange prompt then
        return (tables, .raised
          ⟨.valueError, "ScoutRank score context was reused for another prompt range"⟩)
      else
        return ({ tables with jobs := tables.jobs.set s.requestId promptJob },
          .accepted true (some "prompt_hash"))
    | none => service.startJob tables s prompt now

def submit (tables : ScoutTables) (s : ScoutSubmission) (now : Int) :
    Thread (ScoutExecutor F) (ScoutTables × SubmitReply) :=
  match s.prompt with
  | .error e => return (tables, .raised e)
  | .ok prompt => do
    let tables ← service.cleanup now tables
    service.place tables s prompt now

end ScoutJobService

/-- A `SCOUT_SUBMIT` request: its key, its payload, and the fields of its header after
`int` and `str`. -/
structure ScoutRequest where
  key : String
  payload : Bytes
  protocolVersion : Int := -1
  tokenCount : Int := -1
  tokenSha256 : String := ""
  scoreStart : Int := -1
  scoreEnd : Int := -1
  fullTokenCount : Int := -1
  scoreContextSha256 : String := ""

def scoutProtocolVersion : Int := 1

def scoutSuffixProtocolVersion : Int := 2

/-- The checks of the server on a `SCOUT_SUBMIT` request. -/
def ScoutRequest.submission (r : ScoutRequest) : Result ScoutSubmission := do
  rejectIf (r.protocolVersion ≠ scoutProtocolVersion &&
    r.protocolVersion ≠ scoutSuffixProtocolVersion) "unsupported ScoutRank protocol version"
  rejectIf (r.tokenSha256 == "" || payloadSha256 r.payload ≠ r.tokenSha256)
    "ScoutRank token payload checksum mismatch"
  let tokenIds ← decodeTokenIds r.payload r.tokenCount
  if r.protocolVersion = scoutProtocolVersion then
    return ⟨r.key, tokenIds, r.tokenSha256, 0, some r.tokenCount, some r.tokenSha256⟩
  let scoreEnd := r.scoreStart + r.tokenCount
  rejectIf (r.scoreEnd ≠ scoreEnd ||
    !(0 ≤ r.scoreStart && r.scoreStart ≤ scoreEnd && scoreEnd ≤ r.fullTokenCount))
    "invalid ScoutRank suffix score range"
  rejectIf (r.scoreContextSha256 ≠
    MaKV.scoreContextSha256 r.tokenSha256 r.scoreStart r.fullTokenCount)
    "ScoutRank score context checksum mismatch"
  return ⟨r.key, tokenIds, r.tokenSha256, r.scoreStart, some r.fullTokenCount,
    some r.scoreContextSha256⟩

/-- `repr` of a text of printable characters. -/
def reprText (text : String) : String :=
  let single := Char.ofNat 39
  let quote := if text.contains single && !text.contains '"' then '"' else single
  let escaped := text.toList.flatMap fun c =>
    if c == '\\' || c == quote then ['\\', c] else [c]
  String.ofList (quote :: escaped ++ [quote])

structure ScoutWait where
  key : String
  timeout : Int
  fullTokenCount : Int
  scoreStart : Option Int := none
  scoreEnd : Option Int := none

def ScoutTables.waitJob (tables : ScoutTables) (w : ScoutWait) : Result ScoutJob := do
  rejectIf (w.timeout ≤ 0) "ScoutRank wait timeout must be positive"
  let job ← (tables.jobs.get? w.key).elim
    (raise .keyError ("ScoutRank job not found for request " ++ reprText w.key)) .ok
  rejectIf (job.fullTokenCount ≠ w.fullTokenCount)
    "ScoutRank wait full token_count does not match submission"
  rejectIf (w.scoreStart.any fun start => start ≠ job.scoreStart)
    "ScoutRank wait score_start does not match submission"
  rejectIf (w.scoreEnd.any fun stop => stop ≠ job.scoreEnd)
    "ScoutRank wait score_end does not match submission"
  return job

/-- A call of `wait` that has found its job. The tokens are those of the last accepted
submission of its request. -/
structure ScoutWaiting where
  requestId : String
  job : ScoutJob
  submitted : List Nat

/-- What a call of `wait` has returned. -/
structure ScoutAnswer (F : Type) where
  requestId : String
  submitted : List Nat
  result : ScoutScoreResult F

/-- The job an accepted submission has got, and the executor when the submission began. -/
structure ScoutHandout (F : Type) where
  job : ScoutJob
  executor : ScoutExecutor F

/-- What the event loop is in the middle of. -/
inductive ScoutActivity (F : Type)
  | idle
  | submitting (s : ScoutSubmission) (atStart : ScoutExecutor F)
      (rest : Thread (ScoutExecutor F) (ScoutTables × SubmitReply))
  | cleaning (rest : Thread (ScoutExecutor F) ScoutTables)

/-- The service with its executor and its clients. `submitted`, `answers` and `handouts`
record what has happened and are read by nothing. -/
structure ScoutSystem (F : Type) where
  executor : ScoutExecutor F
  tables : ScoutTables
  activity : ScoutActivity F
  waits : List ScoutWaiting
  submitted : Dict String (List Nat)
  answers : List (ScoutAnswer F)
  handouts : List (ScoutHandout F)

def ScoutSystem.init : ScoutSystem F := ⟨[], ⟨.empty, .empty⟩, .idle, [], .empty, [], []⟩

inductive ScoutEvent
  /-- The worker ends the task of a future with the outcome of a call of the runtime. -/
  | finish (future call : Nat)
  /-- The event loop takes up a `SCOUT_SUBMIT` request. -/
  | submit (request : ScoutRequest) (now : Int)
  /-- The event loop takes up a `HEALTH` request, which cleans up. -/
  | health (now : Int)
  /-- The event loop makes its next access to the executor, or ends what it is doing. -/
  | proceed
  | wait (request : ScoutWait)
  /-- The `i`-th call of `wait` looks at its future, with this much time left. -/
  | poll (i : Nat) (remaining : Int)

namespace ScoutSystem

def endSubmit (σ : ScoutSystem F) (s : ScoutSubmission) (atStart : ScoutExecutor F)
    (tables : ScoutTables) (reply : SubmitReply) : ScoutSystem F :=
  { σ with
    tables := tables
    activity := .idle
    submitted := if reply.isAccepted then σ.submitted.set s.requestId s.tokenIds else σ.submitted
    handouts := match reply.isAccepted, tables.jobs.get? s.requestId with
      | true, some job => σ.handouts ++ [⟨job, atStart⟩]
      | _, _ => σ.handouts }

/-- The next access of the event loop. -/
def proceed (σ : ScoutSystem F) : Option (ScoutSystem F) :=
  match σ.activity with
  | .idle => none
  | .submitting s atStart (.ret (tables, reply)) => some (σ.endSubmit s atStart tables reply)
  | .submitting s atStart (.act effect next) =>
    some { σ with
      executor := effect σ.executor, activity := .submitting s atStart (next σ.executor) }
  | .cleaning (.ret tables) => some { σ with tables := tables, activity := .idle }
  | .cleaning (.act effect next) =>
    some { σ with executor := effect σ.executor, activity := .cleaning (next σ.executor) }

/-- One round of the polling loop of `wait`. -/
def poll (σ : ScoutSystem F) (i : Nat) (remaining : Int) : Option (ScoutSystem F) := do
  let waiting ← σ.waits[i]?
  let task ← σ.executor[waiting.job.future]?
  match task.state with
  | .pending => return if remaining ≤ 0 then { σ with waits := σ.waits.eraseIdx i } else σ
  | .failed => return { σ with waits := σ.waits.eraseIdx i }
  | .done result =>
    return { σ with
      waits := σ.waits.eraseIdx i
      answers := σ.answers ++ [⟨waiting.requestId, waiting.submitted, result⟩] }

def isIdle (σ : ScoutSystem F) : Bool :=
  match σ.activity with
  | .idle => true
  | _ => false

variable (service : ScoutJobService) (runtime : ScoutRuntime F)

/-- One step of the system. The event loop takes up a request or polls only when it is in
the middle of nothing; the worker moves at any time. -/
def next (σ : ScoutSystem F) : ScoutEvent → Option (ScoutSystem F)
  | .finish future call =>
    some { σ with executor := σ.executor.modify future (ScoutTask.finish runtime call) }
  | .submit request now =>
    if σ.isIdle then
      match request.submission with
      | .error _ => some σ
      | .ok s =>
        some { σ with activity := .submitting s σ.executor (service.submit σ.tables s now) }
    else none
  | .health now =>
    if σ.isIdle then some { σ with activity := .cleaning (service.cleanup now σ.tables) }
    else none
  | .proceed => σ.proceed
  | .wait request =>
    if σ.isIdle then
      match σ.tables.waitJob request with
      | .error _ => some σ
      | .ok job =>
        some { σ with
          waits := σ.waits ++ [⟨request.key, job, (σ.submitted.get? request.key).getD []⟩] }
    else none
  | .poll i remaining => if σ.isIdle then σ.poll i remaining else none

end ScoutSystem

end LMCache.MaKV
