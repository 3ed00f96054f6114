import LMCache.CacheController.Pending

/-!
# Agreement at rest

Without losses the controller and a worker agree once nothing is on its way, in runs in which
five things do not happen. The end marker of an open sync is handled after an operation that was
queued since its snapshot, which the controller has then discarded or cleared; a start is
handled after batches of its sync were pushed; a key is evicted while another key with its chunk
hash stays; an eviction is not reported; a key is taken in again between its forced removal and
the report of it.
-/

namespace LMCache.CacheController

open Lib KVController Option

namespace Worker

variable {w w' : Worker} {copy : Option (Finset ChunkHash)} {id : ReportId}
  {init : SyncInitResult}

theorem Reported.leave (h : w.Reported copy) : w.leave.Reported copy :=
  h.congr rfl rfl rfl rfl rfl

theorem Reported.attemptStart (h : w.Reported copy) (id : ReportId) (init : SyncInitResult)
    (attempt : Nat) : (w.attemptStart id init attempt).Reported copy := by
  unfold Worker.attemptStart
  split
  · exact h.congr rfl rfl rfl rfl rfl
  · exact h.leave

theorem Reported.initializeSync (h : w.Reported copy) (id : ReportId) (syncId : String) :
    (w.initializeSync id syncId).Reported copy := by
  unfold Worker.initializeSync
  split
  · exact h.leave
  · exact (h.addSnapshot rfl true).attemptStart id (w.initResult syncId) 0

theorem Reported.onStartReply (h : w.Reported copy) (id : ReportId) (init : SyncInitResult)
    (attempt : Nat) (accepted : Bool) :
    (w.onStartReply id init attempt accepted).Reported copy := by
  unfold Worker.onStartReply
  split
  · exact h.congr rfl rfl rfl rfl rfl
  · exact h.attemptStart id init (attempt + 1)

theorem Reported.poll (h : w.Reported copy) (init : SyncInitResult)
    (pollAttempt resendCount : Nat) : (w.poll init pollAttempt resendCount).Reported copy := by
  unfold Worker.poll
  split <;> exact h.congr rfl rfl rfl rfl rfl

theorem Reported.pushNext (h : w.Reported copy) (hNext : w.pushNext id = some w') :
    w'.Reported copy := by
  unfold Worker.pushNext at hNext
  split at hNext
  · split at hNext
    · cases hNext
      exact h.append rfl rfl rfl rfl rfl rfl rfl
    · rename_i init _ _ _
      cases hNext
      have hEnd : (w.sendSyncEnd id init).Reported copy := h.append rfl rfl rfl rfl rfl rfl rfl
      exact hEnd.poll init 0 0
  · cases hNext
    exact h.append rfl rfl rfl rfl rfl rfl rfl
  · rename_i init pollAttempt resendCount _
    cases hNext
    have hEnd : (w.sendSyncEnd id init).Reported copy := h.append rfl rfl rfl rfl rfl rfl rfl
    exact hEnd.poll init (pollAttempt + 1) resendCount
  · cases hNext

theorem Reported.onStatus (h : w.Reported copy) (init : SyncInitResult)
    (pollAttempt resendCount : Nat) (status : FullSyncStatusRetMsg) :
    (w.onStatus init pollAttempt resendCount status).Reported copy := by
  unfold Worker.onStatus
  split
  · exact h.congr rfl rfl rfl rfl rfl
  · split
    · exact h.congr rfl rfl rfl rfl rfl
    · exact h.poll init (pollAttempt + 1) resendCount

theorem Reported.execute (h : w.Reported copy) (commands : List HeartbeatCommand) :
    (w.execute commands).Reported copy := by
  unfold Worker.execute
  split
  · split
    · exact h
    · exact h.congr rfl rfl rfl rfl rfl
  · exact h

end Worker

namespace KVController

def completedKeys (c : KVController) (id : ReportId) : Option (Finset ChunkHash) :=
  (c.getSyncInfo id).bind fun info => if info.state = .completed then some (c.keys id) else none

variable {c c' : KVController} {id : ReportId} {w : Worker} {rest : List PushMsg}

theorem completedKeys_congr (hInfo : c'.getSyncInfo id = c.getSyncInfo id)
    (hKeys : c'.keys id = c.keys id) : c'.completedKeys id = c.completedKeys id := by
  rw [completedKeys, completedKeys, hInfo, hKeys]

theorem completedKeys_eq_some_iff {keys : Finset ChunkHash} :
    c.completedKeys id = some keys ↔
      ∃ info, c.getSyncInfo id = some info ∧ info.state = .completed ∧ keys = c.keys id := by
  rw [completedKeys, bind_eq_some_iff]
  refine exists_congr fun info => and_congr_right fun _ => ?_
  split
  · rename_i hState
    simp [hState, eq_comm]
  · rename_i hState
    simp [hState]

theorem reported_operations {msg : BatchedKVOperationMsg} (hId : msg.reportId = id)
    (h : w.Reported (c.completedKeys id)) (hChannel : w.channel = .operations msg :: rest) :
    Worker.Reported { w with channel := rest }
      ((c.handleBatchedKvOperations msg).completedKeys id) := by
  refine h.pop hChannel fun keys hKeys => ?_
  obtain ⟨info, hInfo, hState, rfl⟩ := completedKeys_eq_some_iff.mp hKeys
  rw [getSyncInfo_handleOperations] at hInfo
  have hCopied := h.copied _ (completedKeys_eq_some_iff.mpr ⟨info, hInfo, hState, rfl⟩)
  have hUpdates : w.updates =
      (PushMsg.hotOperations (.operations msg)).map KVOpEvent.update ++
        Worker.updates { w with channel := rest } := by
    simp [Worker.updates, Worker.pending, hChannel]
  rw [hUpdates] at hCopied
  by_cases hLocation : msg.location = Worker.location
  · have hOpen : info.state ≠ .syncing := by
      simp [hState]
    rw [keys_handleOperations hId hLocation hInfo hOpen, foldl_apply_eq_replay]
    intro x
    rw [hCopied x, replay_append, PushMsg.hotOperations, if_pos hLocation]
  · rw [keys_handleOperations_of_not fun _ hEq => (hLocation hEq).elim]
    rw [PushMsg.hotOperations, if_neg hLocation] at hCopied
    exact hCopied

theorem reported_batch {msg : FullSyncBatchMsg} (hId : msg.reportId = id)
    (hLocation : msg.location = Worker.location)
    (h : w.Reported (c.completedKeys id)) (hChannel : w.channel = .syncBatch msg :: rest) :
    Worker.Reported { w with channel := rest } ((c.handleFullSyncBatch msg).completedKeys id) := by
  subst hId
  refine h.pop hChannel fun keys hKeys => ?_
  have hUpdates : w.updates = Worker.updates { w with channel := rest } := by
    simp [Worker.updates, Worker.pending, hChannel, PushMsg.hotOperations]
  rw [← hUpdates]
  by_cases hRejected : ∀ info, c.getSyncInfo msg.reportId = some info →
      info.syncId = msg.syncId → info.state ≠ .syncing
  · rw [handleBatch_rejected hRejected] at hKeys
    exact h.copied keys hKeys
  · push Not at hRejected
    obtain ⟨info, hInfo, hSync, hSyncing⟩ := hRejected
    obtain ⟨hReceived, -⟩ := handleBatch_accepted hInfo hSync hSyncing hLocation
    obtain ⟨info', hInfo', hState, -⟩ := completedKeys_eq_some_iff.mp hKeys
    rw [hReceived] at hInfo'
    cases hInfo'
    rw [hSyncing] at hState
    cases hState

end KVController

namespace System

def lossless (label : ReportId × Action) : Bool :=
  match label.2 with
  | .lose _ => false
  | _ => true

/-- What the hot cache takes in and gives up is what its operations say. -/
def operationsFaithful (s : System) (label : ReportId × Action) : Bool :=
  let w := s.workers label.1
  match label.2 with
  | .put key => decide (key ∈ w.hotCache ∨ key.chunkHash ∉ w.unsent)
  | .remove key _ => decide (∀ key' ∈ w.hotCache, key' ≠ key → key'.chunkHash ≠ key.chunkHash)
  | .popLayers keys => decide (∀ key ∈ w.hotCache, key ∈ keys →
      ∃ key' ∈ w.hotCache, key' ∉ keys ∧ key'.chunkHash = key.chunkHash)
  | _ => true

/-- An end marker of the open sync comes while every operation that was queued since the
snapshot is still pending. -/
def endBeforeOperations (s : System) (label : ReportId × Action) : Bool :=
  let w := s.workers label.1
  match label.2, w.channel, s.controller.getSyncInfo label.1 with
  | .deliver, .syncEnd msg :: _, some info =>
    match w.snapshots.get? msg.syncId with
    | some snap => decide (info.state = .syncing ∧ info.syncId = msg.syncId →
        w.queuedSince snap ≤ w.pending.length)
    | none => true
  | _, _, _ => true

/-- No step of the run does one of the five things. -/
def undisturbed (s : System) (label : ReportId × Action) : Bool :=
  s.operationsFaithful label && s.endBeforeOperations label && s.startInTime label

variable {s t : System} {id : ReportId}

theorem lost_attemptStart (w : Worker) (id : ReportId) (init : SyncInitResult) (attempt : Nat) :
    (w.attemptStart id init attempt).lost = w.lost := by
  unfold Worker.attemptStart
  split <;> rfl

theorem lost_poll (w : Worker) (init : SyncInitResult) (pollAttempt resendCount : Nat) :
    (w.poll init pollAttempt resendCount).lost = w.lost := by
  unfold Worker.poll
  split <;> rfl

theorem lost_onStartReply (w : Worker) (id : ReportId) (init : SyncInitResult) (attempt : Nat)
    (accepted : Bool) : (w.onStartReply id init attempt accepted).lost = w.lost := by
  unfold Worker.onStartReply
  split
  · rfl
  · exact lost_attemptStart w id init (attempt + 1)

theorem lost_submitPutTask (w : Worker) (key : CacheEngineKey) :
    (w.submitPutTask key).lost = w.lost := by
  unfold Worker.submitPutTask
  split <;> rfl

theorem lost_remove (w : Worker) (key : CacheEngineKey) (force : Bool) :
    (w.remove key force).lost = w.lost := by
  unfold Worker.remove
  split
  · rfl
  · dsimp only
    split <;> rfl

theorem lost_execute (w : Worker) (commands : List HeartbeatCommand) :
    (w.execute commands).lost = w.lost := by
  unfold Worker.execute
  split
  · split <;> rfl
  · rfl

theorem lost_initializeSync (w : Worker) (id : ReportId) (syncId : String) :
    (w.initializeSync id syncId).lost = w.lost := by
  unfold Worker.initializeSync
  split
  · rfl
  · exact lost_attemptStart _ _ _ _

theorem lost_pushNext {w w' : Worker} {id : ReportId} (hPush : w.pushNext id = some w') :
    w'.lost = w.lost := by
  unfold Worker.pushNext at hPush
  split at hPush
  · split at hPush <;> cases hPush
    · rfl
    · exact lost_poll _ _ _ _
  · cases hPush
    rfl
  · cases hPush
    exact lost_poll _ _ _ _
  · cases hPush

theorem lost_onStatus (w : Worker) (init : SyncInitResult) (pollAttempt resendCount : Nat)
    (status : FullSyncStatusRetMsg) :
    (w.onStatus init pollAttempt resendCount status).lost = w.lost := by
  unfold Worker.onStatus
  split
  · rfl
  · split
    · rfl
    · exact lost_poll _ _ _ _

structure Steady (w : Worker) (copy : Option (Finset ChunkHash)) : Prop where
  reported : w.Reported copy
  lost : w.lost = []

def Settled (s : System) : Prop :=
  ∀ id, Steady (s.workers id) (s.controller.completedKeys id)

theorem Settled.update (h : s.Settled) {w : Worker} {c : KVController}
    (hWorker : Steady w (c.completedKeys id))
    (hFrame : ∀ id', id ≠ id' → c.completedKeys id' = s.controller.completedKeys id') :
    Settled { s.setWorker id w with controller := c } := by
  intro id'
  by_cases hId : id = id'
  · subst hId
    simpa [setWorker] using hWorker
  · simp only [setWorker, Function.update_of_ne (Ne.symm hId), hFrame id' hId]
    exact h id'

theorem Settled.updateWorker (h : s.Settled) {w : Worker}
    (hReported : w.Reported (s.controller.completedKeys id))
    (hLost : w.lost = (s.workers id).lost) : (s.setWorker id w).Settled :=
  h.update ⟨hReported, hLost.trans (h id).lost⟩ fun _ _ => rfl

theorem Settled.endAfterResend (h : s.Settled) (label : ReportId × Action) :
    s.endAfterResend label = true := by
  unfold System.endAfterResend
  split
  · rw [(h label.1).lost]
    simp
  · rfl

theorem Settled.deliverEnd (h : s.Settled) (hSound : s.Sound) {msg : FullSyncEndMsg}
    {rest : List PushMsg} (hChannel : (s.workers id).channel = .syncEnd msg :: rest)
    (hEnd : s.endBeforeOperations (id, .deliver) = true)
    (hNext : s.next (id, .deliver) = some t) (ht : t.Sound)
    (hController : t.controller = s.controller.handleFullSyncEnd msg) :
    Worker.Reported { s.workers id with channel := rest } (t.controller.completedKeys id) := by
  have hReported := (h id).reported
  obtain ⟨rfl, -⟩ := (hSound id).channel (.syncEnd msg) (by rw [hChannel]; exact List.mem_cons_self)
  refine hReported.pop hChannel fun keys hKeys => ?_
  have hUpdates : (s.workers msg.reportId).updates =
      Worker.updates { s.workers msg.reportId with channel := rest } := by
    simp [Worker.updates, Worker.pending, hChannel, PushMsg.hotOperations]
  rw [← hUpdates]
  obtain ⟨info, hInfo, hState, rfl⟩ := completedKeys_eq_some_iff.mp hKeys
  by_cases hOpen : ∀ info', s.controller.getSyncInfo msg.reportId = some info' →
      info'.state = .completed → info'.syncId ≠ info.syncId
  · obtain ⟨snap, hSnap, hEq⟩ := hSound.keys_of_completes ht hNext hInfo hState hOpen
    obtain ⟨info', hInfo', hSyncing, rfl, -⟩ := hSound.completes hNext hInfo hState hOpen
    have hSync : info'.syncId = msg.syncId := by
      by_contra hOther
      rw [hController, getSyncInfo_handleEnd, hInfo', map_some, if_neg hOther] at hInfo
      rw [← (some.inj hInfo), hSyncing] at hState
      cases hState
    rw [hEq]
    refine hReported.copied_snapshot hSnap ?_
    rw [show ({ info' with state := FullSyncState.completed } : WorkerSyncInfo).syncId =
      msg.syncId from hSync] at hSnap
    simp only [endBeforeOperations, hChannel, hInfo', hSnap, decide_eq_true_eq] at hEnd
    exact hEnd ⟨hSyncing, hSync⟩
  · push Not at hOpen
    obtain ⟨info', hInfo', hState', -⟩ := hOpen
    rw [hController, keys_handleEnd]
    exact hReported.copied _ (completedKeys_eq_some_iff.mpr ⟨info', hInfo', hState', rfl⟩)

theorem Settled.next (h : s.Settled) (hSound : s.Sound) {label : ReportId × Action}
    (hLossless : lossless label = true) (hCond : s.undisturbed label = true)
    (hNext : s.next label = some t) : t.Settled := by
  obtain ⟨id, action⟩ := label
  simp only [undisturbed, Bool.and_eq_true] at hCond
  obtain ⟨⟨hFaithful, hEnd⟩, hStart⟩ := hCond
  have ht : t.Sound := hSound.next (h.endAfterResend _) hStart hNext
  have hOwn := (h id).reported
  cases moves_of_act hNext with
  | put key _ =>
    exact h.updateWorker (hOwn.submitPutTask (of_decide_eq_true hFaithful))
      (lost_submitPutTask _ key)
  | remove key force =>
    exact h.updateWorker (hOwn.remove (of_decide_eq_true hFaithful) force) (lost_remove _ key force)
  | queueEvict hUnsent => exact h.updateWorker (hOwn.queueEvict hUnsent) rfl
  | popLayers keys => exact h.updateWorker (hOwn.popLayers (of_decide_eq_true hFaithful)) rfl
  | @drain count _ => exact h.updateWorker (hOwn.drainAndSend id count) rfl
  | @pushOther location operations hLocation =>
    have hMsg : PushMsg.hotOperations (.operations ⟨id, location, operations⟩) = [] :=
      if_neg hLocation
    exact h.updateWorker (hOwn.append hMsg rfl rfl rfl rfl rfl rfl) rfl
  | @deliver msg rest hChannel =>
    have hPushed := (hSound id).channel msg (by rw [hChannel]; exact List.mem_cons_self)
    refine h.update ⟨?_, (h id).lost⟩ fun id' hId => ?_
    · cases msg with
      | operations msg => exact reported_operations hPushed hOwn hChannel
      | syncBatch msg =>
        exact reported_batch hPushed.1 hPushed.2.1 hOwn hChannel
      | syncEnd msg => exact h.deliverEnd hSound hChannel hEnd hNext ht rfl
    · obtain ⟨hInfo, hKeys⟩ := handleWorkerMessage_frame (c := s.controller) hPushed hId
      exact completedKeys_congr hInfo hKeys
  | lose _ => cases hLossless
  | heartbeat _ =>
    have hKeep : ∀ id', (s.controller.heartbeat id).2.completedKeys id' =
        s.controller.completedKeys id' := fun id' =>
      completedKeys_congr (getSyncInfo_heartbeat id) (keys_heartbeat id)
    refine h.update ⟨?_, (h id).lost⟩ fun id' _ => hKeep id'
    rw [hKeep]
    exact hOwn.congr rfl rfl rfl rfl rfl
  | @heartbeatReply commands arrives _ =>
    have hTaken : Worker.Reported { s.workers id with heartbeatReply := none } _ :=
      hOwn.congr rfl rfl rfl rfl rfl
    split
    · exact h.updateWorker (hTaken.execute commands) (lost_execute _ commands)
    · exact h.updateWorker hTaken rfl
  | @initializeSync syncId _ _ =>
    exact h.updateWorker (hOwn.initializeSync id syncId) (lost_initializeSync _ id syncId)
  | @handleStart _ msg hMsg =>
    obtain ⟨rfl, hLocation, -⟩ := (hSound id).requests msg (List.mem_of_getElem? hMsg)
    rcases handleStart_cases s.controller hLocation with
      ⟨hSame, -⟩ | ⟨-, hInfo, -, -, hOther⟩
    · rw [hSame]
      exact h.update ⟨hOwn.congr rfl rfl rfl rfl rfl, (h msg.reportId).lost⟩ fun _ _ => rfl
    · refine h.update ⟨?_, (h msg.reportId).lost⟩ fun id' hId => ?_
      · have hNone : (s.controller.handleFullSyncStart msg).1.completedKeys msg.reportId =
            none := by
          rw [KVController.completedKeys, hInfo]
          rfl
        rw [hNone]
        exact ⟨hOwn.own, fun _ hKeys => (some_ne_none _ hKeys.symm).elim, hOwn.marks, hOwn.since⟩
      · exact completedKeys_congr (getSyncInfo_congr (hOther id' hId)) (keys_congr (hOther id' hId))
  | loseStart index => exact h.updateWorker (hOwn.congr rfl rfl rfl rfl rfl) rfl
  | @startReply index attempt init ret _ _ _ =>
    have hTaken : Worker.Reported { s.workers id with
        startReplies := (s.workers id).startReplies.eraseIdx index } _ :=
      hOwn.congr rfl rfl rfl rfl rfl
    exact h.updateWorker (hTaken.onStartReply id init attempt ret.accepted)
      (lost_onStartReply _ _ _ _ _)
  | @startTimeout attempt init _ =>
    exact h.updateWorker (hOwn.onStartReply id init attempt false) (lost_onStartReply _ _ _ _ _)
  | push hPush => exact h.updateWorker (hOwn.pushNext hPush) (lost_pushNext hPush)
  | handleStatus expired _ _ =>
    exact h.update ⟨hOwn.congr rfl rfl rfl rfl rfl, (h id).lost⟩ fun _ _ => rfl
  | @statusReply pollAttempt resendCount init status _ _ =>
    exact h.updateWorker (hOwn.onStatus init pollAttempt resendCount status)
      (lost_onStatus _ init pollAttempt resendCount status)
  | @statusTimeout pollAttempt resendCount init _ =>
    exact h.updateWorker (hOwn.poll init (pollAttempt + 1) resendCount) (lost_poll _ _ _ _)

/-- In every run without losses that does none of the five things: when no operation of a worker
is on its way and its sync is completed, the keys stored for it are the chunk hashes of its hot
cache. -/
theorem agrees_at_rest (completionThreshold : ℚ) (config : ReportId → SenderConfig)
    (hotCache : ReportId → List CacheEngineKey) {labels : List (ReportId × Action)}
    (h : Run (Run.Under (fun s label => lossless label = true ∧ s.undisturbed label = true)
      fun s label t => System.next s label = some t)
      (System.new completionThreshold config hotCache) labels s) {id : ReportId}
    {info : WorkerSyncInfo} (hInfo : s.controller.getSyncInfo id = some info)
    (hState : info.state = .completed) (hChannel : (s.workers id).channel = [])
    (hQueue : (s.workers id).messageQueue = []) (hUnsent : (s.workers id).unsent = []) :
    s.controller.keys id = (s.workers id).hashes := by
  have hBoth : s.Sound ∧ s.Settled := by
    refine h.invariant (I := fun s => s.Sound ∧ s.Settled) ?_
      ⟨sound_new completionThreshold config hotCache,
        fun id => ⟨Worker.reported_new (config id) (hotCache id), rfl⟩⟩
    rintro s label t ⟨hSound, hSettled⟩ ⟨⟨hLossless, hCond⟩, hNext⟩
    have hStart : s.startInTime label = true := by
      simp only [undisturbed, Bool.and_eq_true] at hCond
      exact hCond.2
    exact ⟨hSound.next (hSettled.endAfterResend label) hStart hNext,
      hSettled.next hSound hLossless hCond hNext⟩
  have hCopied := (hBoth.2 id).reported.copied _
    (completedKeys_eq_some_iff.mpr ⟨info, hInfo, hState, rfl⟩)
  rw [Worker.updates, Worker.pending, hChannel, hQueue, hUnsent] at hCopied
  exact hCopied.eq_of_nil

end System

namespace Sample

/-- A key is evicted while its sync is pushed, and the operation arrives before the end. -/
def evictedEarly : List Action :=
  [.heartbeat, .heartbeatReply true, .initializeSync "sync", .handleStart 0, .startReply 0,
    .push, .push, .remove ⟨1, 0⟩ false, .drain 1, .push, .deliver, .deliver, .deliver, .deliver,
    .handleStatus false, .statusReply]

/-- The operation of the eviction leaves after the end. -/
def evictedLate : List Action :=
  [.put ⟨3, 0⟩, .drain 1, .heartbeat, .heartbeatReply true, .initializeSync "sync",
    .handleStart 0, .startReply 0, .deliver, .push, .push, .push, .remove ⟨1, 0⟩ false, .push,
    .deliver, .deliver, .deliver, .deliver, .drain 1, .deliver, .handleStatus false, .statusReply]

end Sample

namespace System

/-- The controller discards the eviction: nothing is on its way, the worker has left the sync,
and its key is still stored. -/
theorem evicted_key_stays :
    ∃ s info, Run (Run.Under (fun _ label => lossless label = true)
        fun s label t => System.next s label = some t) Sample.system
        (Sample.ofWorker Sample.evictedEarly) s ∧
      s.controller.getSyncInfo Sample.worker = some info ∧ info.state = .completed ∧
      (s.workers Sample.worker).phase = .idle ∧ (s.workers Sample.worker).channel = [] ∧
      (s.workers Sample.worker).messageQueue = [] ∧ (s.workers Sample.worker).unsent = [] ∧
      (s.workers Sample.worker).startRequests = [] ∧
      (s.workers Sample.worker).startReplies = [] ∧
      (s.workers Sample.worker).heartbeatReply = none ∧
      (s.workers Sample.worker).statusReply.isNone = true ∧
      s.controller.keys Sample.worker ≠ (s.workers Sample.worker).hashes := by
  exact Run.exists_under_of_exec_some (fun _ label => lossless label = true) System.next _ _ _ _
    (by decide +kernel)

theorem agrees_at_rest_late :
    ∃ s info, Run (Run.Under
        (fun s label => lossless label = true ∧ s.undisturbed label = true)
        fun s label t => System.next s label = some t) Sample.system
        (Sample.ofWorker Sample.evictedLate) s ∧
      s.controller.getSyncInfo Sample.worker = some info ∧ info.state = .completed ∧
      s.controller.keys Sample.worker = (s.workers Sample.worker).hashes ∧
      s.controller.keys Sample.worker = {2, 3} := by
  obtain ⟨s, info, hRun, hInfo, hState, hChannel, hQueue, hUnsent, hKeys⟩ :=
    Run.exists_under_of_exec_some
      (fun s label => lossless label = true ∧ s.undisturbed label = true) System.next Sample.system
      (Sample.ofWorker Sample.evictedLate) (fun s => s.controller.getSyncInfo Sample.worker)
      (fun s info => info.state = .completed ∧ (s.workers Sample.worker).channel = [] ∧
        (s.workers Sample.worker).messageQueue = [] ∧ (s.workers Sample.worker).unsent = [] ∧
        s.controller.keys Sample.worker = {2, 3}) (by decide +kernel)
  exact ⟨s, info, hRun, hInfo, hState,
    agrees_at_rest _ _ _ hRun hInfo hState hChannel hQueue hUnsent, hKeys⟩

end System

end LMCache.CacheController
