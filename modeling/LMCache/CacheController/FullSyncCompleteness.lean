import LMCache.CacheController.SyncInvariant

/-!
# Completed syncs

The end marker completes a sync whatever has been received, and afterwards no batch is asked
for. A completed sync is whole as long as two things do not happen: an end marker of the open
sync is handled although a batch of it was lost and has not been received in another copy, and
a start that timed out is handled again after batches of its sync have been pushed.
-/

namespace LMCache.CacheController

open Lib KVController List

namespace Worker

variable {id : ReportId} {w : Worker} {info? : Option WorkerSyncInfo} {info : WorkerSyncInfo}
  {keys keys' : Finset ChunkHash} {snap : Snapshot} {msg : PushMsg} {rest : List PushMsg}

/-- The first message leaves the channel; if it is a batch of the sync, it has been received,
or all have. -/
theorem Tracked.pop (h : w.Tracked keys info snap) (hChannel : w.channel = msg :: rest)
    (hMsg : msg.batchesOf info.syncId ⊆ w.gone info ∨ info.state = .completed)
    (hKeys : info.state = .syncing → keys' = keys) :
    Tracked { w with channel := rest } keys' info snap := by
  have hSeen : msg.batchesOf info.syncId ⊆ w.gone info ∨
      Set.Iio snap.init.batchCount ⊆ w.gone info :=
    hMsg.imp_right fun hState b hb => Or.inl (h.whole hState b hb)
  have hEnds := h.ends
  rw [hChannel] at hEnds
  refine ⟨h.snapshot, h.count, h.state, fun hState => ?_, h.whole, ?_, fun b hb hCount => ?_⟩
  · rw [hKeys hState]
    exact h.stored hState
  · rcases hSeen with hBatch | hAll
    · exact hEnds.2.mono (Set.union_subset subset_rfl hBatch)
    · exact .of_subset hAll
  · rcases h.sent b hb hCount with hGone | ⟨msg', hMem, hBatch⟩
    · exact Or.inl hGone
    · rw [hChannel] at hMem
      rcases mem_cons.mp hMem with rfl | hRest
      · exact Or.inl (hSeen.elim (fun hSub => hSub hBatch) fun hAll => hAll hCount)
      · exact Or.inr ⟨msg', hRest, hBatch⟩

theorem Sound.pop (h : w.Sound id info? keys) (hChannel : w.channel = msg :: rest)
    {info?' : Option WorkerSyncInfo} (hTracked : ∀ info, info?' = some info →
      ∃ snap, Tracked { w with channel := rest } keys' info snap) :
    Sound id { w with channel := rest } info?' keys' := by
  refine ⟨h.snapshots, h.running, h.starting, h.accepted, h.requests, h.known, ?_, hTracked⟩
  intro msg' hMsg'
  have hMem : msg' ∈ w.channel := by
    rw [hChannel]
    exact mem_cons_of_mem _ hMsg'
  exact (h.channel msg' hMem).mono rfl (fun _ _ hSnap => hSnap) (fun _ hMem => hMem)

end Worker

namespace KVController

variable {c : KVController} {id : ReportId} {w : Worker} {rest : List PushMsg}

theorem sound_operations {msg : BatchedKVOperationMsg}
    (h : w.Sound id (c.getSyncInfo id) (c.keys id))
    (hChannel : w.channel = .operations msg :: rest) :
    Worker.Sound id { w with channel := rest }
      ((c.handleBatchedKvOperations msg).getSyncInfo id)
      ((c.handleBatchedKvOperations msg).keys id) := by
  refine h.pop hChannel fun info hInfo => ?_
  rw [getSyncInfo_handleOperations] at hInfo
  obtain ⟨snap, hTracked⟩ := h.tracked info hInfo
  refine ⟨snap, hTracked.pop hChannel (Or.inl nofun) fun hState => ?_⟩
  exact keys_handleOperations_of_not fun _ _ => isWorkerSyncing_iff.mpr ⟨info, hInfo, hState⟩

theorem sound_batch {msg : FullSyncBatchMsg} (h : w.Sound id (c.getSyncInfo id) (c.keys id))
    (hChannel : w.channel = .syncBatch msg :: rest) :
    Worker.Sound id { w with channel := rest } ((c.handleFullSyncBatch msg).getSyncInfo id)
      ((c.handleFullSyncBatch msg).keys id) := by
  obtain ⟨rfl, hLocation, -, snap', hSnap', hKeys⟩ :=
    h.channel (.syncBatch msg) (by rw [hChannel]; exact mem_cons_self)
  by_cases hOpen : ∃ info, c.getSyncInfo msg.reportId = some info ∧ info.syncId = msg.syncId ∧
      info.state = .syncing
  · obtain ⟨info, hInfo, hSync, hState⟩ := hOpen
    obtain ⟨snap, hTracked⟩ := h.tracked info hInfo
    obtain ⟨hInfo', hKeys'⟩ := handleBatch_accepted hInfo hSync hState hLocation
    have hSnap : snap' = snap := by
      have hGet := hTracked.snapshot
      rw [hSync, hSnap'] at hGet
      exact Option.some.inj hGet
    subst hSnap
    rw [hInfo', hKeys']
    refine h.pop hChannel fun info' hEq => ⟨snap', ?_⟩
    cases hEq
    have hEnds := hTracked.ends
    rw [hChannel] at hEnds
    have hGone : w.gone info ∪ PushMsg.batchesOf info.syncId (.syncBatch msg) ⊆ w.gone { info with
        receivedBatches := insert msg.batchId info.receivedBatches
        receivedKeysCount := info.receivedKeysCount + msg.keys.length } := by
      rintro b ((hReceived | hLost) | hBatch)
      · exact Or.inl (Finset.mem_insert_of_mem hReceived)
      · exact Or.inr hLost
      · left
        obtain ⟨-, rfl⟩ := Prod.mk.inj (mem_singleton.mp hBatch)
        exact Finset.mem_insert_self _ _
    refine ⟨hTracked.snapshot, hTracked.count, hTracked.state, fun _ x => ?_, ?_,
      hEnds.2.mono hGone, fun b hb hCount => ?_⟩
    · rw [Finset.mem_union, hTracked.stored hState x, mem_toFinset, hKeys]
      constructor
      · rintro (⟨b, hb, hx⟩ | hx)
        · exact ⟨b, Finset.mem_insert_of_mem hb, hx⟩
        · exact ⟨msg.batchId, Finset.mem_insert_self _ _, hx⟩
      · rintro ⟨b, hb, hx⟩
        rcases Finset.mem_insert.mp hb with rfl | hOld
        · exact Or.inr hx
        · exact Or.inl ⟨b, hOld, hx⟩
    · intro hCompleted
      have : info.state = .completed := hCompleted
      rw [hState] at this
      cases this
    · rcases hTracked.sent b hb hCount with hOld | ⟨msg', hMem, hBatch⟩
      · exact Or.inl (hGone (Or.inl hOld))
      · rw [hChannel] at hMem
        rcases mem_cons.mp hMem with rfl | hRest
        · exact Or.inl (hGone (Or.inr hBatch))
        · exact Or.inr ⟨msg', hRest, hBatch⟩
  · have hSame : c.handleFullSyncBatch msg = c :=
      handleBatch_rejected fun info hInfo hSync hState => hOpen ⟨info, hInfo, hSync, hState⟩
    rw [hSame]
    refine h.pop hChannel fun info hInfo => ?_
    obtain ⟨snap, hTracked⟩ := h.tracked info hInfo
    refine ⟨snap, hTracked.pop hChannel ?_ fun _ => rfl⟩
    by_cases hSync : info.syncId = msg.syncId
    · right
      rcases hTracked.state with hState | hState
      · exact (hOpen ⟨info, hInfo, hSync, hState⟩).elim
      · exact hState
    · left
      intro b hb
      exact (hSync (Prod.mk.inj (mem_singleton.mp hb)).1).elim

theorem sound_end {msg : FullSyncEndMsg} (h : w.Sound id (c.getSyncInfo id) (c.keys id))
    (hChannel : w.channel = .syncEnd msg :: rest)
    (hLost : ∀ info, c.getSyncInfo id = some info → info.state = .syncing →
      info.syncId = msg.syncId → ∀ b, (info.syncId, b) ∈ w.lost → b ∈ info.receivedBatches) :
    Worker.Sound id { w with channel := rest } ((c.handleFullSyncEnd msg).getSyncInfo id)
      ((c.handleFullSyncEnd msg).keys id) := by
  obtain ⟨rfl, -⟩ :=
    h.channel (.syncEnd msg) (by rw [hChannel]; exact mem_cons_self)
  rw [getSyncInfo_handleEnd, keys_handleEnd]
  refine h.pop hChannel fun info' hInfo' => ?_
  obtain ⟨info, hInfo, hEq⟩ := Option.map_eq_some_iff.mp hInfo'
  obtain ⟨snap, hTracked⟩ := h.tracked info hInfo
  have hPop := hTracked.pop hChannel (Or.inl nofun) fun _ => rfl
  split at hEq
  · rename_i hSync
    subst hEq
    have hEnds := hTracked.ends
    rw [hChannel] at hEnds
    have hAll : ∀ b < snap.init.batchCount, b ∈ info.receivedBatches := by
      rcases hTracked.state with hState | hState
      · intro b hb
        rcases hEnds.1 ⟨msg, rfl, hSync.symm⟩ hb with hReceived | hGone
        · exact hReceived
        · exact hLost info hInfo hState hSync b hGone
      · exact hTracked.whole hState
    exact ⟨snap, hPop.snapshot, hPop.count, Or.inr rfl, nofun, fun _ => hAll, hPop.ends, hPop.sent⟩
  · subst hEq
    exact ⟨snap, hPop⟩

theorem handleWorkerMessage_frame {msg : PushMsg} (hMsg : w.Pushed id msg) {id' : ReportId}
    (hId : id ≠ id') :
    (c.handleWorkerMessage msg).getSyncInfo id' = c.getSyncInfo id' ∧
      (c.handleWorkerMessage msg).keys id' = c.keys id' := by
  cases msg with
  | operations msg =>
    have hOther : msg.reportId ≠ id' := fun hEq => hId ((show msg.reportId = id from hMsg) ▸ hEq)
    exact ⟨getSyncInfo_handleOperations msg,
      keys_handleOperations_of_not fun hEq => (hOther hEq).elim⟩
  | syncBatch msg =>
    have hGet := getWorker_handleBatch_of_ne (c := c) (hMsg.1.symm ▸ hId : msg.reportId ≠ id')
    exact ⟨getSyncInfo_congr hGet, keys_congr hGet⟩
  | syncEnd msg =>
    have hGet := getWorker_handleEnd_of_ne (c := c) (hMsg.1.symm ▸ hId : msg.reportId ≠ id')
    exact ⟨getSyncInfo_congr hGet, keys_congr hGet⟩

theorem sound_start {msg : FullSyncStartMsg} (h : w.Sound id (c.getSyncInfo id) (c.keys id))
    (hMsg : msg ∈ w.startRequests) (hNew : msg.syncId ∉ w.begun) :
    w.Sound id ((c.handleFullSyncStart msg).1.getSyncInfo id)
      ((c.handleFullSyncStart msg).1.keys id) := by
  obtain ⟨rfl, hLocation, snap, hSnap, hCount⟩ := h.requests msg hMsg
  rcases handleStart_cases c hLocation with ⟨hSame, -⟩ | ⟨-, hInfo, hKeys, -, -⟩
  · rw [hSame]
    exact h
  · rw [hInfo, hKeys]
    refine ⟨h.snapshots, h.running, h.starting, h.accepted, h.requests, h.known, h.channel, ?_⟩
    intro info hEq
    cases hEq
    refine ⟨snap, hSnap, hCount, Or.inl rfl, fun _ x => ?_, nofun, ?_, ?_⟩
    · simp
    · refine .of_not_closes ?_
      rintro msg' hMem ⟨e, rfl, hSync⟩
      have hBegun := (h.channel _ hMem).2
      rw [hSync] at hBegun
      exact hNew hBegun
    · intro b hb
      rw [Phase.pushedBatches_eq_zero] at hb
      · exact (Nat.not_lt_zero b hb).elim
      · intro init hInit hSync
        have hBegun := h.accepted init hInit
        rw [hSync] at hBegun
        exact hNew hBegun

end KVController

namespace System

/-- An end marker of the open sync comes when every batch of it that was lost has been
received in another copy. -/
def endAfterResend (s : System) (label : ReportId × Action) : Bool :=
  match label.2, (s.workers label.1).channel, s.controller.getSyncInfo label.1 with
  | .deliver, .syncEnd msg :: _, some info =>
    decide (info.state = .syncing ∧ info.syncId = msg.syncId →
      ∀ batch ∈ (s.workers label.1).lost, batch.1 = info.syncId → batch.2 ∈ info.receivedBatches)
  | _, _, _ => true

/-- A start is handled before the worker pushes batches of its sync. -/
def startInTime (s : System) (label : ReportId × Action) : Bool :=
  match label.2 with
  | .handleStart index =>
    match (s.workers label.1).startRequests[index]? with
    | some msg => decide (msg.syncId ∉ (s.workers label.1).begun)
    | none => true
  | _ => true

def Sound (s : System) : Prop :=
  ∀ id, (s.workers id).Sound id (s.controller.getSyncInfo id) (s.controller.keys id)

variable {s t : System} {id : ReportId}

theorem sound_new (completionThreshold : ℚ) (config : ReportId → SenderConfig)
    (hotCache : ReportId → List CacheEngineKey) :
    (System.new completionThreshold config hotCache).Sound :=
  fun id => Worker.sound_new id (config id) (hotCache id)

theorem Sound.update (h : s.Sound) {w : Worker} {c : KVController}
    (hWorker : w.Sound id (c.getSyncInfo id) (c.keys id))
    (hFrame : ∀ id', id ≠ id' → c.getSyncInfo id' = s.controller.getSyncInfo id' ∧
      c.keys id' = s.controller.keys id') :
    Sound { s.setWorker id w with controller := c } := by
  intro id'
  by_cases hId : id = id'
  · subst hId
    simpa [setWorker] using hWorker
  · obtain ⟨hInfo, hKeys⟩ := hFrame id' hId
    simp only [setWorker, Function.update_of_ne (Ne.symm hId), hInfo, hKeys]
    exact h id'

theorem Sound.updateWorker (h : s.Sound) {w : Worker}
    (hWorker : w.Sound id (s.controller.getSyncInfo id) (s.controller.keys id)) :
    (s.setWorker id w).Sound :=
  h.update hWorker fun _ _ => ⟨rfl, rfl⟩

variable {label : ReportId × Action}

theorem Sound.next (h : s.Sound) (hEnd : s.endAfterResend label = true)
    (hStart : s.startInTime label = true) (hNext : s.next label = some t) : t.Sound := by
  obtain ⟨id, action⟩ := label
  have hOwn := h id
  cases moves_of_act hNext with
  | put key _ =>
    refine h.updateWorker ?_
    unfold Worker.submitPutTask
    split
    · exact hOwn
    · exact hOwn.congr rfl rfl rfl (fun _ hMsg => hMsg) rfl rfl rfl
  | remove key force =>
    refine h.updateWorker ?_
    unfold Worker.remove
    split
    · exact hOwn
    · dsimp only
      split <;> exact hOwn.congr rfl rfl rfl (fun _ hMsg => hMsg) rfl rfl rfl
  | queueEvict _ | popLayers keys =>
    exact h.updateWorker (hOwn.congr rfl rfl rfl (fun _ hMsg => hMsg) rfl rfl rfl)
  | drain _ | pushOther operations _ => exact h.updateWorker (hOwn.pushOperations _ _ _ _)
  | @deliver msg rest hChannel =>
    have hPushed := hOwn.channel msg (by rw [hChannel]; exact mem_cons_self)
    refine h.update ?_ fun id' hId => handleWorkerMessage_frame hPushed hId
    cases msg with
    | operations msg => exact sound_operations hOwn hChannel
    | syncBatch msg => exact sound_batch hOwn hChannel
    | syncEnd msg =>
      refine sound_end hOwn hChannel fun info hInfo hState hSync b hLost => ?_
      simp only [endAfterResend, hChannel, hInfo, decide_eq_true_eq] at hEnd
      exact hEnd ⟨hState, hSync⟩ _ hLost rfl
  | lose hMsg => exact h.updateWorker (hOwn.lose hMsg)
  | heartbeat _ =>
    refine h.update ?_ fun id' _ => ⟨getSyncInfo_heartbeat id, keys_heartbeat id⟩
    rw [getSyncInfo_heartbeat, keys_heartbeat]
    exact hOwn.congr rfl rfl rfl (fun _ hMsg => hMsg) rfl rfl rfl
  | heartbeatReply arrives _ =>
    have hTaken : Worker.Sound id { s.workers id with heartbeatReply := none } _ _ :=
      hOwn.congr rfl rfl rfl (fun _ hMsg => hMsg) rfl rfl rfl
    refine h.updateWorker ?_
    split
    · unfold Worker.execute
      split
      · split
        · exact hTaken
        · exact hTaken.setPhase rfl
      · exact hTaken
    · exact hTaken
  | initializeSync hPhase hFresh => exact h.updateWorker (hOwn.initializeSync hPhase hFresh)
  | @handleStart _ msg hMsg =>
    have hMem := mem_of_getElem? hMsg
    have hNew : msg.syncId ∉ (s.workers id).begun := by
      simpa only [startInTime, hMsg, decide_eq_true_eq] using hStart
    obtain ⟨rfl, hLocation, -⟩ := hOwn.requests msg hMem
    refine h.update ?_ fun id' hId => ?_
    · exact (sound_start hOwn hMem hNew).congr rfl rfl rfl
        (fun _ hMsg => mem_of_mem_eraseIdx hMsg) rfl rfl rfl
    · rcases handleStart_cases s.controller hLocation with
        ⟨hSame, -⟩ | ⟨-, -, -, -, hOther⟩
      · rw [hSame]
        exact ⟨rfl, rfl⟩
      · exact ⟨getSyncInfo_congr (hOther id' hId), keys_congr (hOther id' hId)⟩
  | loseStart index =>
    exact h.updateWorker (hOwn.congr rfl rfl rfl (fun _ hMsg => mem_of_mem_eraseIdx hMsg)
      rfl rfl rfl)
  | @startReply index _ _ ret hPhase _ _ =>
    have hTaken : Worker.Sound id { s.workers id with
        startReplies := (s.workers id).startReplies.eraseIdx index } _ _ :=
      hOwn.congr rfl rfl rfl (fun _ hMsg => hMsg) rfl rfl rfl
    exact h.updateWorker (hTaken.onStartReply hPhase ret.accepted)
  | startTimeout hPhase => exact h.updateWorker (hOwn.onStartReply hPhase false)
  | push hPush => exact h.updateWorker (hOwn.pushNext hPush)
  | handleStatus expired _ _ =>
    exact h.update (hOwn.congr rfl rfl rfl (fun _ hMsg => hMsg) rfl rfl rfl) fun _ _ => ⟨rfl, rfl⟩
  | @statusReply _ _ _ status hPhase _ => exact h.updateWorker (hOwn.onStatus hPhase status)
  | @statusTimeout pollAttempt resendCount _ hPhase =>
    refine h.updateWorker (hOwn.poll (by rw [hPhase]; rfl) ?_ (pollAttempt + 1) resendCount)
    simp [hPhase, Phase.pushedBatches]

theorem Sound.completes (h : s.Sound) (hNext : s.next label = some t) {info : WorkerSyncInfo}
    (hInfo : t.controller.getSyncInfo id = some info) (hState : info.state = .completed)
    (hOpen : ∀ info', s.controller.getSyncInfo id = some info' → info'.state = .completed →
      info'.syncId ≠ info.syncId)
    : ∃ info', s.controller.getSyncInfo id = some info' ∧ info'.state = .syncing ∧
      info = { info' with state := .completed } ∧ t.controller.keys id = s.controller.keys id := by
  obtain ⟨owner, action⟩ := label
  have hSame : t.controller.getSyncInfo id ≠ s.controller.getSyncInfo id :=
    fun hEq => hOpen info (hEq ▸ hInfo) hState rfl
  rcases act_controller hNext with hEq | ⟨msg, rest, hChannel, hEq⟩ | ⟨msg, hMem, hEq⟩ | hEq |
    ⟨msg, expired, hEq⟩
  · exact (hSame (by rw [hEq])).elim
  · have hPushed := (h owner).channel msg (by rw [hChannel]; exact mem_cons_self)
    by_cases hId : owner = id
    · subst hId
      cases msg with
      | operations msg =>
        rw [hEq] at hSame
        exact (hSame (getSyncInfo_handleOperations msg)).elim
      | syncBatch msg =>
        obtain ⟨rfl, hLocation, -⟩ := hPushed
        by_cases hRejected : ∀ info, s.controller.getSyncInfo msg.reportId = some info →
            info.syncId = msg.syncId → info.state ≠ .syncing
        · rw [hEq] at hSame
          exact (hSame (by
            rw [KVController.handleWorkerMessage, handleBatch_rejected hRejected])).elim
        · push Not at hRejected
          obtain ⟨info', hInfo', hSync, hSyncing⟩ := hRejected
          obtain ⟨hReceived, -⟩ :=
            handleBatch_accepted hInfo' hSync hSyncing hLocation
          rw [hEq, KVController.handleWorkerMessage, hReceived] at hInfo
          cases hInfo
          rw [hSyncing] at hState
          cases hState
      | syncEnd msg =>
        obtain ⟨rfl, -⟩ := hPushed
        rw [hEq, KVController.handleWorkerMessage, getSyncInfo_handleEnd] at hInfo
        obtain ⟨info', hInfo', hEnd⟩ := Option.map_eq_some_iff.mp hInfo
        split at hEnd
        · subst hEnd
          refine ⟨info', hInfo', ?_, rfl, by rw [hEq]; exact keys_handleEnd msg⟩
          obtain ⟨snap, hTracked⟩ := (h msg.reportId).tracked info' hInfo'
          exact hTracked.state.resolve_right fun hDone => hOpen info' hInfo' hDone rfl
        · subst hEnd
          exact (hOpen info' hInfo' hState rfl).elim
    · rw [hEq] at hSame
      exact (hSame (handleWorkerMessage_frame hPushed hId).1).elim
  · obtain ⟨rfl, hLocation, -⟩ := (h owner).requests msg hMem
    rcases handleStart_cases s.controller hLocation with
      ⟨hRefused, -⟩ | ⟨-, hStarted, -, -, hOther⟩
    · exact (hSame (by rw [hEq, hRefused])).elim
    · by_cases hId : msg.reportId = id
      · subst hId
        rw [hEq, hStarted] at hInfo
        cases hInfo
        cases hState
      · rw [hEq] at hSame
        exact (hSame (getSyncInfo_congr (hOther id hId))).elim
  · rw [hEq] at hSame
    exact (hSame (getSyncInfo_heartbeat owner)).elim
  · rw [hEq] at hSame
    exact (hSame rfl).elim

theorem Sound.keys_of_completes (h : s.Sound) (ht : t.Sound) (hNext : s.next label = some t)
    {info : WorkerSyncInfo} (hInfo : t.controller.getSyncInfo id = some info)
    (hState : info.state = .completed)
    (hOpen : ∀ info', s.controller.getSyncInfo id = some info' → info'.state = .completed →
      info'.syncId ≠ info.syncId)
    : ∃ snap, (s.workers id).snapshots.get? info.syncId = some snap ∧
      t.controller.keys id = snap.init.keys.toFinset := by
  obtain ⟨info', hInfo', hSyncing, rfl, hKeys⟩ := h.completes hNext hInfo hState hOpen
  obtain ⟨snap, hTracked⟩ := (h id).tracked info' hInfo'
  obtain ⟨-, hForm⟩ := (h id).snapshots _ _ hTracked.snapshot
  obtain ⟨snap', hTracked'⟩ := (ht id).tracked _ hInfo
  have hCount : snap.init.batchCount = snap'.init.batchCount :=
    hTracked.count.symm.trans hTracked'.count
  refine ⟨snap, hTracked.snapshot, ?_⟩
  ext x
  rw [hKeys, hTracked.stored hSyncing x, mem_toFinset, hForm.mem_keys_iff]
  constructor
  · rintro ⟨b, -, hx⟩
    exact hForm.mem_keys_iff.mp (SyncInitResult.mem_keys_of_mem_batchKeys hx)
  · rintro ⟨b, hb, hx⟩
    exact ⟨b, hTracked'.whole rfl b (hCount ▸ hb), hx⟩

/-- In every run in which an end marker of an open sync is handled only after every lost batch
of it was received in another copy, and no start is handled after batches of its sync were
pushed: a completed sync has received all its batches, and the keys at its completion are
those of the snapshot. -/
theorem completed_syncs_whole (completionThreshold : ℚ) (config : ReportId → SenderConfig)
    (hotCache : ReportId → List CacheEngineKey) {labels : List (ReportId × Action)}
    (h : Run (Run.Under (fun s label => s.endAfterResend label = true ∧ s.startInTime label = true)
      fun s label t => System.next s label = some t)
      (System.new completionThreshold config hotCache) labels s) (id : ReportId) :
    (∀ info, s.controller.getSyncInfo id = some info → info.state = .completed →
      ∃ snap, (s.workers id).snapshots.get? info.syncId = some snap ∧
        info.expectedBatchCount = snap.init.batchCount ∧
        ∀ b < snap.init.batchCount, b ∈ info.receivedBatches) ∧
    (∀ label t info, s.endAfterResend label = true ∧ s.startInTime label = true →
      s.next label = some t → t.controller.getSyncInfo id = some info →
      info.state = .completed →
      (∀ info', s.controller.getSyncInfo id = some info' → info'.state = .completed →
        info'.syncId ≠ info.syncId) →
      ∃ snap, (s.workers id).snapshots.get? info.syncId = some snap ∧
        t.controller.keys id = snap.init.keys.toFinset) := by
  have hSound : s.Sound := h.invariant (I := Sound)
    (fun _ _ _ hs hStep => hs.next hStep.1.1 hStep.1.2 hStep.2)
    (sound_new completionThreshold config hotCache)
  constructor
  · intro info hInfo hState
    obtain ⟨snap, hTracked⟩ := (hSound id).tracked info hInfo
    exact ⟨snap, hTracked.snapshot, hTracked.count, hTracked.whole hState⟩
  · intro label t info hCond hNext hInfo hState hOpen
    exact hSound.keys_of_completes (hSound.next hCond.1 hCond.2 hNext) hNext hInfo hState hOpen

end System

namespace Sample

def config : SenderConfig := ⟨1, 3, 60⟩

def worker : ReportId := ("instance", 0)

/-- Two keys in the hot cache of every worker, one in a batch. -/
def system : System := .new (4 / 5) (fun _ => config) fun _ => [⟨1, 0⟩, ⟨2, 0⟩]

/-- The heartbeat registers the worker; the sync is accepted and pushed. -/
def pushed : List Action :=
  [.heartbeat, .heartbeatReply true, .initializeSync "sync", .handleStart 0, .startReply 0,
    .push, .push, .push]

def lostBatch : List Action := pushed ++ [.lose 1, .deliver, .deliver]

/-- The end marker is lost as well; the poll finds the batch missing, and it is pushed again. -/
def resent : List Action :=
  pushed ++ [.lose 1, .lose 1, .deliver, .handleStatus false, .statusReply, .push, .push,
    .deliver, .deliver]

def ofWorker (actions : List Action) : List (ReportId × Action) := actions.map (worker, ·)

end Sample

namespace System

/-- The sync completes without the second batch, and its key is not stored. -/
theorem lost_batch_completes :
    ∃ s info snap, Run (fun s label t => System.next s label = some t) Sample.system
        (Sample.ofWorker Sample.lostBatch) s ∧
      s.controller.getSyncInfo Sample.worker = some info ∧ info.state = .completed ∧
      (s.workers Sample.worker).snapshots.get? info.syncId = some snap ∧
      snap.init.batchCount = 2 ∧ 1 ∉ info.receivedBatches ∧
      s.controller.keys Sample.worker ≠ snap.init.keys.toFinset := by
  have hExec :
      ((Run.exec System.next Sample.system (Sample.ofWorker Sample.lostBatch)).bind fun s =>
      (s.controller.getSyncInfo Sample.worker).bind fun info =>
        ((s.workers Sample.worker).snapshots.get? info.syncId).map fun snap =>
          decide (info.state = .completed ∧ snap.init.batchCount = 2 ∧
            1 ∉ info.receivedBatches ∧
            s.controller.keys Sample.worker ≠ snap.init.keys.toFinset)) = some true := by
    decide +kernel
  obtain ⟨s, hs, hBind⟩ := Option.bind_eq_some_iff.mp hExec
  obtain ⟨info, hInfo, hMap⟩ := Option.bind_eq_some_iff.mp hBind
  obtain ⟨snap, hSnap, hView⟩ := Option.map_eq_some_iff.mp hMap
  obtain ⟨hState, hCount, hReceived, hKeys⟩ := of_decide_eq_true hView
  exact ⟨s, info, snap, Run.of_exec _ hs, hInfo, hState, hSnap, hCount, hReceived, hKeys⟩

/-- After the loss of a batch and of the end marker the resent batch makes the sync whole. -/
theorem completed_syncs_whole_resent :
    ∃ s info, Run (Run.Under
        (fun s label => s.endAfterResend label = true ∧ s.startInTime label = true)
        fun s label t => System.next s label = some t) Sample.system
        (Sample.ofWorker Sample.resent) s ∧
      s.controller.getSyncInfo Sample.worker = some info ∧ info.state = .completed ∧
      ∃ snap, (s.workers Sample.worker).snapshots.get? info.syncId = some snap ∧
        ∀ b < snap.init.batchCount, b ∈ info.receivedBatches := by
  obtain ⟨s, info, hRun, hInfo, hState⟩ := Run.exists_under_of_exec_some
    (fun s label => s.endAfterResend label = true ∧ s.startInTime label = true) System.next
    Sample.system (Sample.ofWorker Sample.resent)
    (fun s => s.controller.getSyncInfo Sample.worker) (fun _ info => info.state = .completed)
    (by decide +kernel)
  obtain ⟨snap, hSnap, -, hAll⟩ :=
    (completed_syncs_whole _ _ _ hRun Sample.worker).1 info hInfo hState
  exact ⟨s, info, hRun, hInfo, hState, snap, hSnap, hAll⟩

end System

end LMCache.CacheController
