import LMCache.CacheController.HandlerSpec
import LMCache.Lib.Thread
import Mathlib.Data.Finset.Sort

/-!
# What a sync has stored

While a sync is open, the keys stored for the worker are those of the batches that were
received. Every batch is pushed before an end marker, so in front of the marker each is
received, lost, or still ahead of it in the channel.
-/

namespace LMCache.CacheController

open Lib List Option

namespace SyncInitResult

/-- As `_initialize_sync` fills it. -/
structure WellFormed (init : SyncInitResult) (batchSize : Nat) : Prop where
  positive : 0 < batchSize
  total : init.totalKeys = init.keys.length
  count : init.batchCount = max ((init.totalKeys + batchSize - 1) / batchSize) 1

variable {init : SyncInitResult} {batchSize : Nat}

theorem mem_keys_of_mem_batchKeys {batchId : Nat} {x : ChunkHash}
    (h : x ∈ init.batchKeys batchSize batchId) : x ∈ init.keys :=
  mem_of_mem_take (mem_of_mem_drop h)

theorem WellFormed.div_lt (h : init.WellFormed batchSize) {i : Nat} (hi : i < init.keys.length) :
    i / batchSize < init.batchCount := by
  rw [h.count, h.total]
  refine lt_max_of_lt_left ?_
  rw [Nat.lt_iff_add_one_le, Nat.le_div_iff_mul_le h.positive, Nat.add_mul, Nat.one_mul]
  have hDiv := Nat.div_mul_le_self i batchSize
  have := h.positive
  omega

theorem WellFormed.mem_keys_iff (h : init.WellFormed batchSize) {x : ChunkHash} :
    x ∈ init.keys ↔ ∃ b < init.batchCount, x ∈ init.batchKeys batchSize b := by
  constructor
  · intro hx
    obtain ⟨i, hi, rfl⟩ := getElem_of_mem hx
    refine ⟨i / batchSize, h.div_lt hi, mem_iff_getElem?.mpr ⟨i % batchSize, ?_⟩⟩
    have hPosition : i / batchSize * batchSize + i % batchSize = i := Nat.div_add_mod' i batchSize
    have hMod : i % batchSize < batchSize := Nat.mod_lt i h.positive
    rw [batchKeys, getElem?_drop, hPosition, getElem?_take, if_pos]
    · exact getElem?_eq_getElem hi
    · rw [h.total]
      omega
  · rintro ⟨b, -, hx⟩
    exact mem_keys_of_mem_batchKeys hx

end SyncInitResult

namespace Phase

/-- The sync that is running. -/
def init? : Phase → Option SyncInitResult
  | .starting init _ | .sending init _ | .polling init _ _ | .resending init _ _ _ => some init
  | .idle | .delaying => none

/-- The running sync, once its start has been accepted. -/
def accepted? : Phase → Option SyncInitResult
  | .sending init _ | .polling init _ _ | .resending init _ _ _ => some init
  | .idle | .delaying | .starting _ _ => none

def pushedBatches (syncId : String) : Phase → Nat
  | .sending init batchId => if init.syncId = syncId then batchId else 0
  | .polling init _ _ | .resending init _ _ _ =>
    if init.syncId = syncId then init.batchCount else 0
  | .idle | .delaying | .starting _ _ => 0

theorem init?_of_accepted? {phase : Phase} {init : SyncInitResult}
    (h : phase.accepted? = some init) : phase.init? = some init := by
  cases phase <;> first | exact h | cases h

theorem pushedBatches_eq_zero {phase : Phase} {syncId : String}
    (h : ∀ init, phase.accepted? = some init → init.syncId ≠ syncId) :
    phase.pushedBatches syncId = 0 := by
  cases phase with
  | sending init batchId => exact if_neg (h init rfl)
  | polling init pollAttempt resendCount => exact if_neg (h init rfl)
  | resending init rest pollAttempt resendCount => exact if_neg (h init rfl)
  | idle | delaying | starting init attempt => rfl

end Phase

def PushMsg.batchesOf (syncId : String) (msg : PushMsg) : Set Nat := {b | (syncId, b) ∈ msg.batch}

def PushMsg.IsEnd (syncId : String) (msg : PushMsg) : Prop :=
  ∃ e, msg = .syncEnd e ∧ e.syncId = syncId

/-- The batches that have left the channel. -/
def Worker.gone (w : Worker) (info : WorkerSyncInfo) : Set Nat :=
  {b | b ∈ info.receivedBatches ∨ (info.syncId, b) ∈ w.lost}

def Worker.Pushed (id : ReportId) (w : Worker) : PushMsg → Prop
  | .operations msg => msg.reportId = id
  | .syncBatch msg => msg.reportId = id ∧ msg.location = Worker.location ∧ msg.syncId ∈ w.begun ∧
      ∃ snap, w.snapshots.get? msg.syncId = some snap ∧
        msg.keys = snap.init.batchKeys w.config.batchSize msg.batchId
  | .syncEnd msg => msg.reportId = id ∧ msg.syncId ∈ w.begun

structure Worker.Tracked (w : Worker) (keys : Finset ChunkHash) (info : WorkerSyncInfo)
    (snap : Snapshot) : Prop where
  snapshot : w.snapshots.get? info.syncId = some snap
  count : info.expectedBatchCount = snap.init.batchCount
  state : info.state = .syncing ∨ info.state = .completed
  stored : info.state = .syncing → ∀ x, x ∈ keys ↔
    ∃ b ∈ info.receivedBatches, x ∈ snap.init.batchKeys w.config.batchSize b
  whole : info.state = .completed → ∀ b < snap.init.batchCount, b ∈ info.receivedBatches
  ends : Preceded (PushMsg.batchesOf info.syncId) (PushMsg.IsEnd info.syncId)
    (Set.Iio snap.init.batchCount) (w.gone info) w.channel
  sent : ∀ b < w.phase.pushedBatches info.syncId, b < snap.init.batchCount →
    b ∈ w.gone info ∨ ∃ msg ∈ w.channel, b ∈ msg.batchesOf info.syncId

structure Worker.Sound (id : ReportId) (w : Worker) (info? : Option WorkerSyncInfo)
    (keys : Finset ChunkHash) : Prop where
  snapshots : ∀ syncId snap, w.snapshots.get? syncId = some snap →
    snap.init.syncId = syncId ∧ snap.init.WellFormed w.config.batchSize
  running : ∀ init, w.phase.init? = some init →
    ∃ snap, w.snapshots.get? init.syncId = some snap ∧ snap.init = init
  starting : ∀ init attempt, w.phase = .starting init attempt → init.syncId ∉ w.begun
  accepted : ∀ init, w.phase.accepted? = some init → init.syncId ∈ w.begun
  requests : ∀ msg ∈ w.startRequests, msg.reportId = id ∧ msg.location = Worker.location ∧
    ∃ snap, w.snapshots.get? msg.syncId = some snap ∧ msg.batchCount = snap.init.batchCount
  known : ∀ syncId ∈ w.begun, ∃ snap, w.snapshots.get? syncId = some snap
  channel : ∀ msg ∈ w.channel, w.Pushed id msg
  tracked : ∀ info, info? = some info → ∃ snap, w.Tracked keys info snap

namespace Worker

variable {id : ReportId} {w w' : Worker} {info? : Option WorkerSyncInfo} {info : WorkerSyncInfo}
  {keys : Finset ChunkHash} {snap : Snapshot}

theorem sound_new (id : ReportId) (config : SenderConfig) (hotCache : List CacheEngineKey) :
    Sound id (.new config hotCache) none keys where
  snapshots := nofun
  running := nofun
  starting := nofun
  accepted := nofun
  requests := nofun
  known := nofun
  channel := nofun
  tracked := nofun

variable {msg : PushMsg}

theorem Pushed.mono (h : w.Pushed id msg) (hConfig : w'.config = w.config)
    (hSnapshots : ∀ syncId snap, w.snapshots.get? syncId = some snap →
      w'.snapshots.get? syncId = some snap)
    (hBegun : w.begun ⊆ w'.begun) : w'.Pushed id msg := by
  cases msg with
  | operations msg => exact h
  | syncBatch msg =>
    obtain ⟨hId, hLocation, hMem, snap, hSnap, hKeys⟩ := h
    exact ⟨hId, hLocation, hBegun hMem, snap, hSnapshots _ _ hSnap, by rw [hConfig]; exact hKeys⟩
  | syncEnd msg => exact ⟨h.1, hBegun h.2⟩

theorem Tracked.mono (h : w.Tracked keys info snap) (hConfig : w'.config = w.config)
    (hSnapshots : ∀ syncId snap, w.snapshots.get? syncId = some snap →
      w'.snapshots.get? syncId = some snap)
    (hLost : w'.lost = w.lost) (hChannel : w'.channel = w.channel)
    (hPhase : ∀ b < w'.phase.pushedBatches info.syncId, b < w.phase.pushedBatches info.syncId ∨
      ∃ msg ∈ w.channel, b ∈ msg.batchesOf info.syncId) :
    w'.Tracked keys info snap where
  snapshot := hSnapshots _ _ h.snapshot
  count := h.count
  state := h.state
  stored := by
    rw [hConfig]
    exact h.stored
  whole := h.whole
  ends := by
    rw [gone, hLost, hChannel]
    exact h.ends
  sent := by
    intro b hb hCount
    rw [gone, hLost, hChannel]
    rcases hPhase b hb with hOld | hPushed
    · exact h.sent b hOld hCount
    · exact Or.inr hPushed

theorem Sound.congr (h : w.Sound id info? keys) (hConfig : w'.config = w.config)
    (hChannel : w'.channel = w.channel) (hPhase : w'.phase = w.phase)
    (hRequests : ∀ msg ∈ w'.startRequests, msg ∈ w.startRequests)
    (hSnapshots : w'.snapshots = w.snapshots) (hBegun : w'.begun = w.begun)
    (hLost : w'.lost = w.lost) : w'.Sound id info? keys where
  snapshots := by
    rw [hSnapshots, hConfig]
    exact h.snapshots
  running := by
    rw [hPhase, hSnapshots]
    exact h.running
  starting := by
    rw [hPhase, hBegun]
    exact h.starting
  accepted := by
    rw [hPhase, hBegun]
    exact h.accepted
  requests := by
    intro msg hMsg
    rw [hSnapshots]
    exact h.requests msg (hRequests msg hMsg)
  known := by
    rw [hBegun, hSnapshots]
    exact h.known
  channel := by
    intro msg hMsg
    rw [hChannel] at hMsg
    exact (h.channel msg hMsg).mono hConfig (by simp [hSnapshots]) (by simp [hBegun])
  tracked := by
    intro info hInfo
    obtain ⟨snap, hTracked⟩ := h.tracked info hInfo
    exact ⟨snap, hTracked.mono hConfig (by simp [hSnapshots]) hLost hChannel
      (by rw [hPhase]; exact fun b hb => Or.inl hb)⟩

variable {statusReply : Option FullSyncStatusRetMsg}

theorem Sound.setPhase (h : w.Sound id info? keys) {phase : Phase} (hPhase : phase.init? = none)
    {frozen : Bool} : Sound id { w with phase, frozen, statusReply } info? keys := by
  have hAccepted : phase.accepted? = none := by
    cases hEq : phase.accepted? with
    | none => rfl
    | some init =>
      rw [Phase.init?_of_accepted? hEq] at hPhase
      cases hPhase
  refine ⟨h.snapshots, ?_, ?_, ?_, h.requests, h.known, ?_, ?_⟩
  · intro init hInit
    simp [hPhase] at hInit
  · rintro init attempt rfl
    cases hPhase
  · intro init hInit
    simp [hAccepted] at hInit
  · intro msg hMsg
    exact (h.channel msg hMsg).mono rfl (fun _ _ hSnap => hSnap) (fun _ hMem => hMem)
  · intro info hInfo
    obtain ⟨snap, hTracked⟩ := h.tracked info hInfo
    refine ⟨snap, hTracked.mono rfl (fun _ _ hSnap => hSnap) rfl rfl fun b hb => ?_⟩
    rw [Phase.pushedBatches_eq_zero (by simp [hAccepted])] at hb
    exact (Nat.not_lt_zero b hb).elim

theorem Sound.keepPhase (h : w.Sound id info? keys) {phase : Phase} {init : SyncInitResult}
    (hOld : w.phase.accepted? = some init) (hNew : phase.accepted? = some init)
    (hBatches : ∀ syncId, ∀ b < phase.pushedBatches syncId, b < w.phase.pushedBatches syncId ∨
      ∃ msg ∈ w.channel, b ∈ msg.batchesOf syncId)
    : Sound id { w with phase, statusReply } info? keys := by
  refine ⟨h.snapshots, ?_, ?_, ?_, h.requests, h.known, ?_, ?_⟩
  · intro init' hInit
    have hEq : init = init' :=
      some.inj ((Phase.init?_of_accepted? hNew).symm.trans hInit)
    subst hEq
    exact h.running init (Phase.init?_of_accepted? hOld)
  · rintro init' attempt rfl
    cases hNew
  · intro init' hInit
    have hEq : init = init' := some.inj (hNew.symm.trans hInit)
    subst hEq
    exact h.accepted init hOld
  · intro msg hMsg
    exact (h.channel msg hMsg).mono rfl (fun _ _ hSnap => hSnap) (fun _ hMem => hMem)
  · intro info hInfo
    obtain ⟨snap, hTracked⟩ := h.tracked info hInfo
    exact ⟨snap, hTracked.mono rfl (fun _ _ hSnap => hSnap) rfl rfl (hBatches _)⟩

theorem Sound.attemptStart (h : w.Sound id info? keys) {init : SyncInitResult}
    (hInit : ∃ snap, w.snapshots.get? init.syncId = some snap ∧ snap.init = init)
    (hNew : init.syncId ∉ w.begun) (attempt : Nat) :
    Sound id (w.attemptStart id init attempt) info? keys := by
  unfold Worker.attemptStart
  split
  · refine ⟨h.snapshots, ?_, ?_, nofun, ?_, h.known, ?_, ?_⟩
    · intro init' hRunning
      cases hRunning
      exact hInit
    · intro init' attempt' hPhase
      cases hPhase
      exact hNew
    · intro msg hMsg
      rcases mem_append.mp hMsg with hOld | hStart
      · exact h.requests msg hOld
      · rw [mem_singleton.mp hStart]
        obtain ⟨snap, hSnap, hEq⟩ := hInit
        exact ⟨rfl, rfl, snap, hSnap, by rw [hEq]; rfl⟩
    · intro msg hMsg
      exact (h.channel msg hMsg).mono rfl (fun _ _ hSnap => hSnap) (fun _ hMem => hMem)
    · intro info hInfo
      obtain ⟨snap, hTracked⟩ := h.tracked info hInfo
      exact ⟨snap, hTracked.mono rfl (fun _ _ hSnap => hSnap) rfl rfl nofun⟩
  · exact h.setPhase rfl

variable {syncId : String}

theorem Sound.addSnapshot (h : w.Sound id info? keys) (hPhase : w.phase.init? = none)
    (hFresh : w.snapshots.get? syncId = none) (frozen : Bool) (snap : Snapshot)
    (hSync : snap.init.syncId = syncId) (hForm : snap.init.WellFormed w.config.batchSize) :
    Sound id { w with frozen, snapshots := w.snapshots.set syncId snap } info? keys := by
  have hKeep : ∀ syncId' snap', w.snapshots.get? syncId' = some snap' →
      (w.snapshots.set syncId snap).get? syncId' = some snap' := by
    intro syncId' snap' hSnap
    rw [Dict.get?_set_ne _ _, hSnap]
    rintro rfl
    rw [hFresh] at hSnap
    cases hSnap
  refine ⟨?_, ?_, h.starting, h.accepted, ?_, ?_, ?_, ?_⟩
  · intro syncId' snap' hSnap
    obtain ⟨hEq, rfl⟩ | ⟨-, hSnap⟩ := Dict.get?_set_cases hSnap
    · exact ⟨hSync.trans hEq, hForm⟩
    · exact h.snapshots syncId' snap' hSnap
  · intro init hInit
    rw [hPhase] at hInit
    cases hInit
  · intro msg hMsg
    obtain ⟨hId, hLocation, snap', hSnap, hCount⟩ := h.requests msg hMsg
    exact ⟨hId, hLocation, snap', hKeep _ _ hSnap, hCount⟩
  · intro syncId' hMem
    obtain ⟨snap', hSnap⟩ := h.known syncId' hMem
    exact ⟨snap', hKeep _ _ hSnap⟩
  · intro msg hMsg
    exact (h.channel msg hMsg).mono rfl hKeep (fun _ hMem => hMem)
  · intro info hInfo
    obtain ⟨snap', hTracked⟩ := h.tracked info hInfo
    exact ⟨snap', hTracked.mono rfl hKeep rfl rfl fun b hb => Or.inl hb⟩

theorem Sound.initializeSync (h : w.Sound id info? keys) (hPhase : w.phase = .delaying)
    (hFresh : w.snapshots.get? syncId = none) :
    Sound id (w.initializeSync id syncId) info? keys := by
  unfold Worker.initializeSync
  split
  · exact h.setPhase rfl
  · rename_i hSize
    have hInit : w.phase.init? = none := by rw [hPhase]; rfl
    have hAdded := h.addSnapshot hInit hFresh true
      ⟨w.initResult syncId, w.sequenceNumber + w.messageQueue.length⟩ rfl
      ⟨Nat.pos_of_ne_zero hSize, rfl, rfl⟩
    have hNew : (w.initResult syncId).syncId ∉ w.begun := by
      intro hBegun
      obtain ⟨snap, hSnap⟩ := h.known syncId hBegun
      rw [hFresh] at hSnap
      cases hSnap
    dsimp only
    refine hAdded.attemptStart ?_ hNew 0
    exact ⟨_, Dict.get?_set_self w.snapshots syncId _, rfl⟩

theorem Sound.onStartReply (h : w.Sound id info? keys) {init : SyncInitResult} {attempt : Nat}
    (hPhase : w.phase = .starting init attempt) (accepted : Bool) :
    Sound id (w.onStartReply id init attempt accepted) info? keys := by
  have hRunning := h.running init (by rw [hPhase]; rfl)
  unfold Worker.onStartReply
  split
  · refine ⟨h.snapshots, ?_, nofun, ?_, h.requests, ?_, ?_, ?_⟩
    · intro init' hInit
      cases hInit
      exact hRunning
    · intro init' hInit
      cases hInit
      exact mem_cons_self
    · intro syncId hMem
      rcases mem_cons.mp hMem with rfl | hOld
      · obtain ⟨snap, hSnap, -⟩ := hRunning
        exact ⟨snap, hSnap⟩
      · exact h.known syncId hOld
    · intro msg hMsg
      exact (h.channel msg hMsg).mono rfl (fun _ _ hSnap => hSnap)
        (fun _ hMem => mem_cons_of_mem _ hMem)
    · intro info hInfo
      obtain ⟨snap, hTracked⟩ := h.tracked info hInfo
      refine ⟨snap, hTracked.mono rfl (fun _ _ hSnap => hSnap) rfl rfl fun b hb => ?_⟩
      simp only [Phase.pushedBatches] at hb
      split at hb <;> exact (Nat.not_lt_zero b hb).elim
  · exact h.attemptStart hRunning (h.starting init attempt hPhase) (attempt + 1)

theorem Sound.append (h : w.Sound id info? keys) (hMsg : w.Pushed id msg)
    (hEnd : ∀ syncId snap, msg.IsEnd syncId → w.snapshots.get? syncId = some snap →
      snap.init.batchCount ≤ w.phase.pushedBatches syncId)
    {messageQueue : List KVOpEvent} {sequenceNumber : Nat} :
    Sound id { w with channel := w.channel ++ [msg], messageQueue, sequenceNumber } info? keys := by
  refine ⟨h.snapshots, h.running, h.starting, h.accepted, h.requests, h.known, ?_, ?_⟩
  · intro msg' hMsg'
    rcases mem_append.mp hMsg' with hOld | hNew
    · exact (h.channel msg' hOld).mono rfl (fun _ _ hSnap => hSnap) (fun _ hMem => hMem)
    · rw [mem_singleton.mp hNew]
      exact hMsg.mono rfl (fun _ _ hSnap => hSnap) (fun _ hMem => hMem)
  · intro info hInfo
    obtain ⟨snap, hTracked⟩ := h.tracked info hInfo
    refine ⟨snap, hTracked.snapshot, hTracked.count, hTracked.state, hTracked.stored,
      hTracked.whole, ?_, ?_⟩
    · refine hTracked.ends.concat fun hIsEnd b hb => ?_
      exact hTracked.sent b (lt_of_lt_of_le hb (hEnd _ snap hIsEnd hTracked.snapshot)) hb
    · intro b hb hCount
      rcases hTracked.sent b hb hCount with hGone | ⟨msg', hMem, hBatch⟩
      · exact Or.inl hGone
      · exact Or.inr ⟨msg', mem_append_left _ hMem, hBatch⟩

theorem Sound.pushOperations (h : w.Sound id info? keys) (location : Location)
    (operations messageQueue : List KVOpEvent) (sequenceNumber : Nat) :
    Sound id { w with
      channel := w.channel ++ [.operations ⟨id, location, operations⟩]
      messageQueue
      sequenceNumber } info? keys := by
  have hMsg : w.Pushed id (.operations ⟨id, location, operations⟩) := rfl
  refine h.append hMsg ?_
  rintro syncId snap ⟨e, hEnd, -⟩
  cases hEnd

theorem Sound.poll (h : w.Sound id info? keys) {init : SyncInitResult}
    (hPhase : w.phase.accepted? = some init)
    (hAll : init.batchCount ≤ w.phase.pushedBatches init.syncId) (pollAttempt resendCount : Nat) :
    Sound id (w.poll init pollAttempt resendCount) info? keys := by
  unfold Worker.poll
  split
  · refine h.keepPhase hPhase rfl fun syncId b hb => Or.inl ?_
    simp only [Phase.pushedBatches] at hb
    split at hb
    · rename_i hSync
      rw [← hSync]
      exact hb.trans_le hAll
    · exact (Nat.not_lt_zero b hb).elim
  · exact h.setPhase rfl

theorem Sound.sendSyncBatch (h : w.Sound id info? keys) {init : SyncInitResult}
    (hPhase : w.phase.accepted? = some init) (batchId : Nat) :
    Sound id (w.sendSyncBatch id init batchId) info? keys := by
  obtain ⟨snap, hSnap, hEq⟩ := h.running init (Phase.init?_of_accepted? hPhase)
  have hMsg : w.Pushed id (.syncBatch ⟨id, location, init.syncId, batchId,
      init.batchKeys w.config.batchSize batchId⟩) :=
    ⟨rfl, rfl, h.accepted init hPhase, snap, hSnap, by rw [hEq]⟩
  refine h.append hMsg ?_
  rintro syncId snap ⟨e, hEnd, -⟩
  cases hEnd

theorem Sound.sendSyncEnd (h : w.Sound id info? keys) {init : SyncInitResult}
    (hPhase : w.phase.accepted? = some init)
    (hAll : init.batchCount ≤ w.phase.pushedBatches init.syncId) :
    Sound id (w.sendSyncEnd id init) info? keys := by
  have hMsg : w.Pushed id (.syncEnd ⟨id, location, init.syncId, init.totalKeys⟩) :=
    ⟨rfl, h.accepted init hPhase⟩
  refine h.append hMsg ?_
  rintro syncId snap ⟨e, hEnd, rfl⟩ hSnap
  cases hEnd
  obtain ⟨snap', hSnap', hEq⟩ := h.running init (Phase.init?_of_accepted? hPhase)
  rw [hSnap'] at hSnap
  cases hSnap
  rw [hEq]
  exact hAll

theorem Sound.pushNext (h : w.Sound id info? keys) (hNext : w.pushNext id = some w') :
    Sound id w' info? keys := by
  unfold Worker.pushNext at hNext
  split at hNext
  · rename_i init batchId hPhase
    have hAccepted : w.phase.accepted? = some init := by rw [hPhase]; rfl
    split at hNext
    · cases hNext
      refine (h.sendSyncBatch hAccepted batchId).keepPhase hAccepted rfl fun syncId b hb => ?_
      simp only [Phase.pushedBatches, Worker.sendSyncBatch, hPhase] at hb ⊢
      split at hb
      · rename_i hSync
        rcases Nat.lt_succ_iff_lt_or_eq.mp hb with hLt | rfl
        · exact Or.inl (by simpa [hSync] using hLt)
        · refine Or.inr ⟨_, mem_append_right _ mem_cons_self, ?_⟩
          simp [PushMsg.batchesOf, PushMsg.batch, hSync]
      · exact (Nat.not_lt_zero b hb).elim
    · rename_i hDone
      cases hNext
      have hAll : init.batchCount ≤ w.phase.pushedBatches init.syncId := by
        simp only [hPhase, Phase.pushedBatches, if_true]
        omega
      exact (h.sendSyncEnd hAccepted hAll).poll hAccepted hAll 0 0
  · rename_i init batchId rest pollAttempt resendCount hPhase
    have hAccepted : w.phase.accepted? = some init := by rw [hPhase]; rfl
    cases hNext
    refine (h.sendSyncBatch hAccepted batchId).keepPhase hAccepted rfl fun syncId b hb => ?_
    exact Or.inl (by simpa [Worker.sendSyncBatch, hPhase, Phase.pushedBatches] using hb)
  · rename_i init pollAttempt resendCount hPhase
    have hAccepted : w.phase.accepted? = some init := by rw [hPhase]; rfl
    have hAll : init.batchCount ≤ w.phase.pushedBatches init.syncId := by
      simp [hPhase, Phase.pushedBatches]
    cases hNext
    exact (h.sendSyncEnd hAccepted hAll).poll hAccepted hAll (pollAttempt + 1) resendCount
  · cases hNext

theorem Sound.onStatus (h : w.Sound id info? keys) {init : SyncInitResult}
    {pollAttempt resendCount : Nat} (hPhase : w.phase = .polling init pollAttempt resendCount)
    (status : FullSyncStatusRetMsg) :
    Sound id (w.onStatus init pollAttempt resendCount status) info? keys := by
  have hAccepted : w.phase.accepted? = some init := by rw [hPhase]; rfl
  unfold Worker.onStatus
  split
  · exact h.setPhase rfl
  · split
    · refine h.keepPhase hAccepted rfl fun syncId b hb => Or.inl ?_
      simpa [hPhase, Phase.pushedBatches] using hb
    · refine h.poll hAccepted ?_ (pollAttempt + 1) resendCount
      simp [hPhase, Phase.pushedBatches]

theorem Sound.lose (h : w.Sound id info? keys) {i : Nat} (hMsg : w.channel[i]? = some msg) :
    Sound id { w with channel := w.channel.eraseIdx i, lost := w.lost ++ msg.batch }
      info? keys := by
  refine ⟨h.snapshots, h.running, h.starting, h.accepted, h.requests, h.known, ?_, ?_⟩
  · intro msg' hMsg'
    exact (h.channel msg' (mem_of_mem_eraseIdx hMsg')).mono rfl (fun _ _ hSnap => hSnap)
      (fun _ hMem => hMem)
  · intro info hInfo
    obtain ⟨snap, hTracked⟩ := h.tracked info hInfo
    refine ⟨snap, hTracked.snapshot, hTracked.count, hTracked.state, hTracked.stored,
      hTracked.whole, ?_, ?_⟩
    · refine (hTracked.ends.eraseIdx hMsg).mono ?_
      rintro b ((hReceived | hLost) | hBatch)
      · exact Or.inl hReceived
      · exact Or.inr (mem_append_left _ hLost)
      · exact Or.inr (mem_append_right _ hBatch)
    · intro b hb hCount
      rcases hTracked.sent b hb hCount with (hReceived | hLost) | ⟨msg', hMem, hBatch⟩
      · exact Or.inl (Or.inl hReceived)
      · exact Or.inl (Or.inr (mem_append_left _ hLost))
      · by_cases hSame : msg' = msg
        · subst hSame
          exact Or.inl (Or.inr (mem_append_right _ hBatch))
        · obtain ⟨j, hj⟩ := mem_iff_getElem?.mp hMem
          refine Or.inr ⟨msg', mem_eraseIdx_iff_getElem?.mpr ⟨j, ?_, hj⟩, hBatch⟩
          rintro rfl
          rw [hMsg] at hj
          exact hSame (some.inj hj).symm

end Worker

end LMCache.CacheController
