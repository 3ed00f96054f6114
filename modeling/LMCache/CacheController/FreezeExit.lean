import LMCache.CacheController.HandlerSpec

/-!
# The end of freeze mode

After a start, all workers are to sync, and workers leave freeze mode once enough of them have.
A status poll counts the workers that are ready, and among them are those that were never asked
to sync. What the polls promise holds as long as these workers do not decide: either enough
have completed, or too few even with them.
-/

namespace LMCache.CacheController

open Lib List

inductive ControllerCall
  | register (id : ReportId)
  | deregister (id : ReportId)
  | operations (msg : BatchedKVOperationMsg)
  | syncStart (msg : FullSyncStartMsg)
  | syncBatch (msg : FullSyncBatchMsg)
  | syncEnd (msg : FullSyncEndMsg)
  | markFailed (id : ReportId)
  | status (msg : FullSyncStatusMsg)
  | heartbeat (id : ReportId)

/-- A poll reads a list of workers that is fresh. -/
def KVController.call (c : KVController) : ControllerCall → KVController
  | .register id => c.register id
  | .deregister id => c.deregister id
  | .operations msg => c.handleBatchedKvOperations msg
  | .syncStart msg => (c.handleFullSyncStart msg).1
  | .syncBatch msg => c.handleFullSyncBatch msg
  | .syncEnd msg => c.handleFullSyncEnd msg
  | .markFailed id => c.markFailed id
  | .status msg => (c.handleFullSyncStatus msg true).2
  | .heartbeat id => (c.heartbeat id).2

/-- The controller, and the workers whose full sync was completed since it started. -/
structure Startup where
  controller : KVController
  completed : Finset ReportId

namespace Startup

def start (completionThreshold : ℚ) : Startup := ⟨.new completionThreshold, ∅⟩

def next (s : Startup) (call : ControllerCall) : Startup where
  controller := s.controller.call call
  completed :=
    match call with
    | .syncEnd msg =>
      if (s.controller.completeSync msg.reportId msg.syncId).2 then
        insert msg.reportId s.completed
      else s.completed
    | _ => s.completed

def after (completionThreshold : ℚ) (calls : List ControllerCall) : Startup :=
  calls.foldl next (start completionThreshold)

/-- Of the registered workers, enough have completed a full sync. -/
def Reached (completionThreshold : ℚ) (s : Startup) : Prop :=
  completionThreshold * s.controller.registry.workers.size ≤
    (s.controller.registry.workers.keys.filter (· ∈ s.completed)).length

instance (completionThreshold : ℚ) (s : Startup) : Decidable (s.Reached completionThreshold) :=
  inferInstanceAs (Decidable (_ ≤ _))

end Startup

namespace WorkerNode

def hasCompleted (node : WorkerNode) : Bool :=
  match node.syncInfo with
  | none => false
  | some info => info.state = .completed

def neverSynced (node : WorkerNode) : Bool := node.syncInfo.isNone

end WorkerNode

/-- The workers that never synced decide that the threshold is reached. -/
def KVController.Tipped (c : KVController) : Prop :=
  let needed := c.fullSyncTracker.completionThreshold * c.registry.workers.size
  let completed := c.registry.workers.values.countP WorkerNode.hasCompleted
  (completed : ℚ) < needed ∧
    needed ≤ completed + c.registry.workers.values.countP WorkerNode.neverSynced

/-- Freeze mode ends, and the wish for a sync of all workers, only once enough workers have
completed one. Until then a worker that neither syncs nor has completed is asked to. -/
structure ExitsAtThreshold (completionThreshold : ℚ) (calls : List ControllerCall) : Prop where
  exit : ∀ before msg, before ++ [.status msg] <+: calls →
    ((Startup.after completionThreshold before).controller.handleFullSyncStatus msg
      true).1.canExitFreeze = true →
    (Startup.after completionThreshold before).Reached completionThreshold
  cleared : ∀ before call, before ++ [call] <+: calls →
    (Startup.after completionThreshold before).controller.fullSyncTracker.needFullSyncAll = true →
    (Startup.after completionThreshold
      (before ++ [call])).controller.fullSyncTracker.needFullSyncAll = false →
    (Startup.after completionThreshold before).Reached completionThreshold
  asked : ∀ id node,
    (Startup.after completionThreshold calls).controller.registry.getWorker id = some node →
    (∀ info, node.syncInfo = some info → info.state ≠ .syncing ∧ info.state ≠ .completed) →
    (∀ before msg, before ++ [.status msg] <+: calls →
      ¬ (Startup.after completionThreshold before).Reached completionThreshold) →
    ((Startup.after completionThreshold calls).controller.heartbeat id).1 = ["controller_restart"]

namespace KVController

variable {c : KVController} {id : ReportId}

def Completed (c : KVController) (id : ReportId) : Prop :=
  ∃ info, c.getSyncInfo id = some info ∧ info.state = .completed

theorem completed_congr {c' : KVController} (h : c'.getSyncInfo id = c.getSyncInfo id) :
    c'.Completed id ↔ c.Completed id := by
  unfold Completed
  rw [h]

theorem getSyncInfo_setSyncInfo_cases (c : KVController) (target : ReportId) (info : WorkerSyncInfo)
    (id : ReportId) :
    (c.setSyncInfo target info).1.getSyncInfo id = c.getSyncInfo id ∨
      (target = id ∧ (c.setSyncInfo target info).1.getSyncInfo id = some info) := by
  cases hNode : c.registry.getWorker target with
  | none =>
    left
    simp only [setSyncInfo, hNode]
  | some node =>
    by_cases hId : target = id
    · subst hId
      exact Or.inr ⟨rfl, getSyncInfo_setSyncInfo hNode info⟩
    · left
      exact getSyncInfo_congr ((getWorker_setSyncInfo hNode info id).trans (if_neg hId))

theorem Completed.of_setSyncInfo {target : ReportId} {info : WorkerSyncInfo}
    (h : (c.setSyncInfo target info).1.Completed id) :
    c.Completed id ∨ (target = id ∧ info.state = .completed) := by
  rcases c.getSyncInfo_setSyncInfo_cases target info id with hSame | ⟨hId, hSet⟩
  · exact Or.inl ((completed_congr hSame).mp h)
  · obtain ⟨stored, hStored, hState⟩ := h
    rw [hSet, Option.some.injEq] at hStored
    exact Or.inr ⟨hId, hStored ▸ hState⟩

theorem getSyncInfo_of_map {r : RegistryTree} {f : WorkerNode → WorkerNode}
    (hInfo : ∀ node, (f node).syncInfo = node.syncInfo)
    (h : r.getWorker id = (c.registry.getWorker id).map f) :
    getSyncInfo { c with registry := r } id = c.getSyncInfo id := by
  unfold getSyncInfo
  rw [h]
  cases c.registry.getWorker id with
  | none => rfl
  | some node => exact hInfo node

theorem getSyncInfo_clearWorkerKv (target : ReportId) (location : Option Location) :
    getSyncInfo { c with registry := (c.registry.clearWorkerKv target location).1 } id =
      c.getSyncInfo id := by
  refine getSyncInfo_of_map ?_ (c.registry.getWorker_clearWorkerKv target id location)
  intro node
  split
  · cases location <;> rfl
  · rfl

theorem getSyncInfo_handle (msg : BatchedKVOperationMsg) (isFullSync : Bool) :
    getSyncInfo
      { c with registry := (c.registry.handleBatchedKvOperations msg isFullSync).1 } id =
      c.getSyncInfo id := by
  refine getSyncInfo_of_map ?_ (c.registry.getWorker_handle id msg isFullSync)
  intro node
  split <;> rfl

theorem Completed.of_register {target : ReportId} (h : (c.register target).Completed id) :
    c.Completed id := by
  unfold register at h
  split at h
  · exact (completed_congr (getSyncInfo_clearWorkerKv target none)).mp h
  · obtain ⟨info, hInfo, hState⟩ := h
    obtain ⟨node, hNode, hSync⟩ := getSyncInfo_eq_some_iff.mp hInfo
    have hGet := (c.registry.getWorker_setWorker target id .new).symm.trans hNode
    split at hGet
    · -- a new node has no sync
      cases hGet
      cases hSync
    · exact ⟨info, getSyncInfo_eq_some_iff.mpr ⟨node, hGet, hSync⟩, hState⟩

theorem Completed.of_deregister {target : ReportId} (h : (c.deregister target).Completed id) :
    c.Completed id := by
  obtain ⟨info, hInfo, hState⟩ := h
  obtain ⟨node, hNode, hSync⟩ := getSyncInfo_eq_some_iff.mp hInfo
  have hGet := (c.registry.workers.get?_erase target id).symm.trans hNode
  split at hGet
  · cases hGet
  · exact ⟨info, getSyncInfo_eq_some_iff.mpr ⟨node, hGet, hSync⟩, hState⟩

theorem Completed.of_start {msg : FullSyncStartMsg}
    (h : (c.handleFullSyncStart msg).1.Completed id) : c.Completed id := by
  have hStart : (c.startSync msg.reportId msg.syncId msg.totalKeys msg.batchCount).1.Completed id →
      c.Completed id := by
    intro hStarted
    unfold startSync at hStarted
    dsimp only at hStarted
    split at hStarted
    · split at hStarted
      · exact hStarted
      · exact hStarted.of_setSyncInfo.resolve_right (by rintro ⟨-, ⟨⟩⟩)
    · exact hStarted.of_setSyncInfo.resolve_right (by rintro ⟨-, ⟨⟩⟩)
  unfold handleFullSyncStart at h
  dsimp only at h
  split at h
  · exact hStart h
  · split at h
    · exact hStart h
    · exact hStart ((completed_congr (getSyncInfo_clearWorkerKv _ _)).mp h)

theorem Completed.of_batch {msg : FullSyncBatchMsg} (h : (c.handleFullSyncBatch msg).Completed id) :
    c.Completed id := by
  have hReceive :
      (c.receiveBatch msg.reportId msg.syncId msg.batchId msg.keys.length).1.Completed id →
        c.Completed id := by
    intro hReceived
    unfold receiveBatch at hReceived
    split at hReceived
    · exact hReceived
    · split at hReceived
      · exact hReceived
      · split at hReceived
        · exact hReceived
        · rename_i hState
          refine hReceived.of_setSyncInfo.resolve_right ?_
          rintro ⟨-, hCompleted⟩
          rw [hCompleted] at hState
          exact hState (by rintro ⟨⟩)
  unfold handleFullSyncBatch at h
  dsimp only at h
  split at h
  · exact hReceive h
  · split at h
    · exact hReceive h
    · exact hReceive ((completed_congr (getSyncInfo_handle _ true)).mp h)

theorem Completed.of_end {msg : FullSyncEndMsg} (h : (c.handleFullSyncEnd msg).Completed id) :
    c.Completed id ∨ (msg.reportId = id ∧ (c.completeSync msg.reportId msg.syncId).2 = true) := by
  unfold handleFullSyncEnd at h
  unfold completeSync at h ⊢
  split at h
  · exact Or.inl h
  · split at h
    · exact Or.inl h
    · rename_i hSync
      rw [if_neg hSync]
      exact h.of_setSyncInfo.imp_right fun hEnd => ⟨hEnd.1, rfl⟩

theorem Completed.of_markFailed {target : ReportId} (h : (c.markFailed target).Completed id) :
    c.Completed id := by
  unfold markFailed at h
  split at h
  · exact h
  · exact h.of_setSyncInfo.resolve_right (by rintro ⟨-, ⟨⟩⟩)

theorem getSyncInfo_status (msg : FullSyncStatusMsg) :
    (c.handleFullSyncStatus msg true).2.getSyncInfo id = c.getSyncInfo id := rfl

theorem Completed.of_call {call : ControllerCall} (h : (c.call call).Completed id) :
    c.Completed id ∨ ∃ msg, call = .syncEnd msg ∧ msg.reportId = id ∧
      (c.completeSync msg.reportId msg.syncId).2 = true := by
  cases call with
  | register target => exact Or.inl (of_register h)
  | deregister target => exact Or.inl (of_deregister h)
  | operations msg => exact Or.inl ((completed_congr (getSyncInfo_handleOperations msg)).mp h)
  | syncStart msg => exact Or.inl (of_start h)
  | syncBatch msg => exact Or.inl (of_batch h)
  | syncEnd msg =>
    rcases of_end h with hOld | ⟨hId, hEnd⟩
    · exact Or.inl hOld
    · exact Or.inr ⟨msg, rfl, hId, hEnd⟩
  | markFailed target => exact Or.inl (of_markFailed h)
  | status msg => exact Or.inl ((completed_congr (getSyncInfo_status msg)).mp h)
  | heartbeat target => exact Or.inl ((completed_congr (getSyncInfo_heartbeat target)).mp h)

theorem ready_eq (node : WorkerNode) : ready node = (node.hasCompleted || node.neverSynced) := by
  unfold ready WorkerNode.hasCompleted WorkerNode.neverSynced
  cases node.syncInfo <;> simp

theorem countP_ready (nodes : List WorkerNode) :
    nodes.countP ready =
      nodes.countP WorkerNode.hasCompleted + nodes.countP WorkerNode.neverSynced := by
  induction nodes with
  | nil => rfl
  | cons node rest ih =>
    have hEither : ¬ (node.hasCompleted = true ∧ node.neverSynced = true) := by
      unfold WorkerNode.hasCompleted WorkerNode.neverSynced
      cases node.syncInfo <;> simp
    rw [countP_cons, countP_cons, countP_cons, ih, ready_eq]
    cases hCompleted : node.hasCompleted <;> cases hNever : node.neverSynced
    · simp
    · simp only [Bool.false_or, if_true, Bool.false_eq_true, if_false]
      omega
    · simp only [Bool.or_false, if_true, Bool.false_eq_true, if_false]
      omega
    · exact absurd ⟨hCompleted, hNever⟩ hEither

theorem fresh_nodes (r : RegistryTree) : (r.getAllWorkerNodesCached true).1 = r.workers.values := by
  have hIds : (r.getAllWorkerNodesCached true).1 = r.workers.keys.filterMap r.getWorker := by
    unfold RegistryTree.getAllWorkerNodesCached
    cases r.workerNodeCache <;> rfl
  rw [hIds, Dict.keys, Dict.values, filterMap_map]
  refine filterMap_eq_map_iff_forall_eq_some.mpr fun e he => ?_
  exact Dict.get?_eq_some_iff.mpr he

/-- The threshold is reached with the workers that never synced counted as ready. -/
theorem canExit_iff (c : KVController) (msg : FullSyncStatusMsg)
    (hSome : c.registry.workers.size ≠ 0) :
    (c.handleFullSyncStatus msg true).1.canExitFreeze = true ↔
      c.fullSyncTracker.completionThreshold * c.registry.workers.size ≤
        c.registry.workers.values.countP WorkerNode.hasCompleted +
          c.registry.workers.values.countP WorkerNode.neverSynced := by
  have hPos : (0 : ℚ) < c.registry.workers.size := by
    exact_mod_cast Nat.pos_of_ne_zero hSome
  change decide (c.fullSyncTracker.completionThreshold ≤ (c.getGlobalProgress true).1) = true ↔ _
  rw [decide_eq_true_iff, getGlobalProgress]
  dsimp only
  rw [fresh_nodes, if_neg, countP_ready, Nat.cast_add]
  · rw [show c.registry.workers.values.length = c.registry.workers.size from length_map ..]
    exact le_div_iff₀ hPos
  · intro hEmpty
    rw [List.isEmpty_iff] at hEmpty
    refine hSome ?_
    rw [Dict.size, ← length_map Prod.snd]
    exact congrArg List.length hEmpty

theorem fullSyncTracker_setSyncInfo (c : KVController) (id : ReportId) (info : WorkerSyncInfo) :
    (c.setSyncInfo id info).1.fullSyncTracker = c.fullSyncTracker := by
  unfold setSyncInfo
  split <;> rfl

theorem fullSyncTracker_call (c : KVController) (call : ControllerCall) :
    (c.call call).fullSyncTracker = c.fullSyncTracker ∨
      ∃ msg, call = .status msg ∧ (c.call call).fullSyncTracker =
        { c.fullSyncTracker with needFullSyncAll := c.fullSyncTracker.needFullSyncAll &&
          !(c.handleFullSyncStatus msg true).1.canExitFreeze } := by
  cases call with
  | status msg => exact Or.inr ⟨msg, rfl, rfl⟩
  | register id =>
    left
    unfold call register
    dsimp only
    split <;> rfl
  | deregister id => exact Or.inl rfl
  | operations msg =>
    left
    unfold call handleBatchedKvOperations
    dsimp only
    split
    · rfl
    · split <;> rfl
  | syncStart msg =>
    left
    have hStart : (c.startSync msg.reportId msg.syncId msg.totalKeys
        msg.batchCount).1.fullSyncTracker = c.fullSyncTracker := by
      unfold startSync
      dsimp only
      split
      · split
        · rfl
        · exact c.fullSyncTracker_setSyncInfo _ _
      · exact c.fullSyncTracker_setSyncInfo _ _
    unfold call handleFullSyncStart
    dsimp only
    split
    · exact hStart
    · split
      · exact hStart
      · exact hStart
  | syncBatch msg =>
    left
    have hReceive : (c.receiveBatch msg.reportId msg.syncId msg.batchId
        msg.keys.length).1.fullSyncTracker = c.fullSyncTracker := by
      unfold receiveBatch
      split
      · rfl
      · split
        · rfl
        · split
          · rfl
          · exact c.fullSyncTracker_setSyncInfo _ _
    unfold call handleFullSyncBatch
    dsimp only
    split
    · exact hReceive
    · split
      · exact hReceive
      · exact hReceive
  | syncEnd msg =>
    left
    unfold call handleFullSyncEnd completeSync
    dsimp only
    split
    · rfl
    · split
      · rfl
      · exact c.fullSyncTracker_setSyncInfo _ _
  | markFailed id =>
    left
    unfold call markFailed
    dsimp only
    split
    · rfl
    · exact c.fullSyncTracker_setSyncInfo _ _
  | heartbeat id =>
    left
    unfold call heartbeat
    dsimp only
    split
    · unfold register
      split <;> rfl
    · rfl

end KVController

namespace Startup

variable {completionThreshold : ℚ} {s : Startup}

/-- The record has every worker whose last sync is completed. -/
def Recorded (s : Startup) : Prop := ∀ id, s.controller.Completed id → id ∈ s.completed

theorem Recorded.next (h : s.Recorded) (call : ControllerCall) : (s.next call).Recorded := by
  intro id hCompleted
  have hMono : s.completed ⊆ (s.next call).completed := by
    unfold Startup.next
    cases call with
    | syncEnd msg =>
      dsimp only
      split
      · exact Finset.subset_insert _ _
      · exact Finset.Subset.refl _
    | _ => exact Finset.Subset.refl _
  rcases KVController.Completed.of_call hCompleted with hOld | ⟨msg, rfl, hId, hEnd⟩
  · exact hMono (h id hOld)
  · unfold Startup.next
    dsimp only
    rw [if_pos hEnd, hId]
    exact Finset.mem_insert_self id _

theorem after_concat (completionThreshold : ℚ) (calls : List ControllerCall)
    (call : ControllerCall) :
    after completionThreshold (calls ++ [call]) = (after completionThreshold calls).next call :=
  foldl_concat ..

theorem recorded_after (completionThreshold : ℚ) (calls : List ControllerCall) :
    (after completionThreshold calls).Recorded := by
  refine List.foldlRecOn calls _ (motive := Recorded) ?_ fun s hs call _ => hs.next call
  rintro id ⟨info, hInfo, -⟩
  cases hInfo

theorem threshold_after (completionThreshold : ℚ) (calls : List ControllerCall) :
    (after completionThreshold calls).controller.fullSyncTracker.completionThreshold =
      completionThreshold := by
  refine List.foldlRecOn calls _ (motive := fun s : Startup =>
    s.controller.fullSyncTracker.completionThreshold = completionThreshold) rfl ?_
  intro s hs call _
  change (s.controller.call call).fullSyncTracker.completionThreshold = _
  rcases s.controller.fullSyncTracker_call call with hSame | ⟨msg, -, hPoll⟩
  · rw [hSame, hs]
  · rw [hPoll]
    exact hs

theorem Recorded.countP_le (h : s.Recorded) :
    s.controller.registry.workers.values.countP WorkerNode.hasCompleted ≤
      (s.controller.registry.workers.keys.filter (· ∈ s.completed)).length := by
  rw [Dict.values, Dict.keys, countP_map, ← countP_eq_length_filter, countP_map]
  refine countP_mono_left fun e he hCompleted => ?_
  refine decide_eq_true (h e.1 ?_)
  have hNode : s.controller.registry.getWorker e.1 = some e.2 := Dict.get?_eq_some_iff.mpr he
  change e.2.hasCompleted = true at hCompleted
  unfold WorkerNode.hasCompleted at hCompleted
  split at hCompleted
  · cases hCompleted
  · rename_i info hInfo
    exact ⟨info, KVController.getSyncInfo_eq_some_iff.mpr ⟨e.2, hNode, hInfo⟩,
      of_decide_eq_true hCompleted⟩

/-- A poll that lets workers leave, where those that never synced do not decide. -/
theorem reached_of_exit (calls : List ControllerCall) {msg : FullSyncStatusMsg}
    (hFair : ¬ (after completionThreshold calls).controller.Tipped)
    (hExit : ((after completionThreshold calls).controller.handleFullSyncStatus msg
      true).1.canExitFreeze = true) :
    (after completionThreshold calls).Reached completionThreshold := by
  have hThreshold := threshold_after completionThreshold calls
  have hCount := (recorded_after completionThreshold calls).countP_le
  unfold Reached
  unfold KVController.Tipped at hFair
  rw [hThreshold] at hFair
  by_cases hSize : (after completionThreshold calls).controller.registry.workers.size = 0
  · rw [hSize, Nat.cast_zero, mul_zero]
    exact Nat.cast_nonneg _
  · have hNeeded := (KVController.canExit_iff _ msg hSize).mp hExit
    rw [hThreshold] at hNeeded
    have hEnough := not_lt.mp fun hFew => hFair ⟨hFew, hNeeded⟩
    exact hEnough.trans (Nat.cast_le.mpr hCount)

theorem cleared_by_poll {call : ControllerCall}
    (hSet : s.controller.fullSyncTracker.needFullSyncAll = true)
    (hCleared : (s.next call).controller.fullSyncTracker.needFullSyncAll = false) :
    ∃ msg, call = .status msg ∧
      (s.controller.handleFullSyncStatus msg true).1.canExitFreeze = true := by
  change (s.controller.call call).fullSyncTracker.needFullSyncAll = false at hCleared
  rcases s.controller.fullSyncTracker_call call with hSame | ⟨msg, hCall, hPoll⟩
  · rw [hSame, hSet] at hCleared
    cases hCleared
  · rw [hPoll] at hCleared
    exact ⟨msg, hCall, by simpa [hSet] using hCleared⟩

theorem needFullSyncAll_of_no_exit (calls : List ControllerCall)
    (h : ∀ before msg, before ++ [.status msg] <+: calls →
      ((after completionThreshold before).controller.handleFullSyncStatus msg
        true).1.canExitFreeze = false) :
    (after completionThreshold calls).controller.fullSyncTracker.needFullSyncAll = true := by
  induction calls using List.reverseRecOn with
  | nil => rfl
  | append_singleton calls call ih =>
    have hSet := ih fun before msg hPrefix =>
      h before msg (hPrefix.trans (prefix_append calls [call]))
    by_contra hCleared
    rw [Bool.not_eq_true, after_concat] at hCleared
    obtain ⟨msg, rfl, hExit⟩ := cleared_by_poll hSet hCleared
    rw [h calls msg prefix_rfl] at hExit
    cases hExit

end Startup

theorem KVController.heartbeat_asks {c : KVController} {id : ReportId} {node : WorkerNode}
    (hNode : c.registry.getWorker id = some node)
    (hSet : c.fullSyncTracker.needFullSyncAll = true)
    (hIdle : ∀ info, node.syncInfo = some info → info.state ≠ .syncing ∧ info.state ≠ .completed) :
    (c.heartbeat id).1 = ["controller_restart"] := by
  have hInfo : c.getSyncInfo id = node.syncInfo := by
    unfold getSyncInfo
    rw [hNode]
    rfl
  unfold heartbeat shouldRequestFullSync
  rw [hNode, hInfo]
  dsimp only
  cases hSync : node.syncInfo with
  | none =>
    dsimp only
    rw [if_pos hSet]
    rfl
  | some info =>
    obtain ⟨hSyncing, hCompleted⟩ := hIdle info hSync
    dsimp only
    rw [if_pos ⟨hSet, not_or.mpr ⟨hSyncing, hCompleted⟩⟩]
    rfl

/-- In every run whose polls are not decided by workers that never synced. -/
theorem exits_at_threshold (completionThreshold : ℚ) (calls : List ControllerCall)
    (hFair : ∀ before msg, before ++ [.status msg] <+: calls →
      ¬ (Startup.after completionThreshold before).controller.Tipped) :
    ExitsAtThreshold completionThreshold calls where
  exit before msg hPrefix hExit := Startup.reached_of_exit before (hFair before msg hPrefix) hExit
  cleared before call hPrefix hSet hCleared := by
    rw [Startup.after_concat] at hCleared
    obtain ⟨msg, rfl, hExit⟩ := Startup.cleared_by_poll hSet hCleared
    exact Startup.reached_of_exit before (hFair before msg hPrefix) hExit
  asked id node hNode hIdle hNever := by
    refine KVController.heartbeat_asks hNode ?_ hIdle
    refine Startup.needFullSyncAll_of_no_exit calls fun before msg hPrefix => ?_
    rw [← Bool.not_eq_true]
    intro hExit
    exact hNever before msg hPrefix
      (Startup.reached_of_exit before (hFair before msg hPrefix) hExit)

/-- Of two workers, one completes its sync and polls; the other is not needed. -/
theorem exits_at_threshold_sample :
    (Startup.after (1 / 2) [.register ("a", 0), .register ("a", 1),
      .syncStart ⟨("a", 0), "hot", "s", 0, 0⟩, .syncEnd ⟨("a", 0), "hot", "s", 0⟩]).Reached
        (1 / 2) := by
  let calls : List ControllerCall := [.register ("a", 0), .register ("a", 1),
    .syncStart ⟨("a", 0), "hot", "s", 0, 0⟩, .syncEnd ⟨("a", 0), "hot", "s", 0⟩]
  refine (exits_at_threshold (1 / 2) (calls ++ [.status ⟨("a", 0), "s"⟩]) ?_).exit calls
    ⟨("a", 0), "s"⟩ List.prefix_rfl (by decide +kernel)
  rintro before msg ⟨rest, hRest⟩
  -- the poll is the last call
  obtain rfl : before = calls := by
    rcases before with _ | ⟨_, _ | ⟨_, _ | ⟨_, _ | ⟨_, _ | ⟨_, _⟩⟩⟩⟩⟩ <;> simp_all [calls]
  exact fun hTipped => absurd hTipped.1 (by decide +kernel)

/-- The first of five workers starts its sync and polls: the other four count as ready, and
freeze mode ends before any sync is completed. -/
theorem never_synced_count_as_ready :
    ¬ ∀ (completionThreshold : ℚ) (calls : List ControllerCall),
      ExitsAtThreshold completionThreshold calls := by
  intro h
  let calls : List ControllerCall := [.register ("a", 0), .register ("a", 1), .register ("a", 2),
    .register ("a", 3), .register ("a", 4), .syncStart ⟨("a", 0), "hot", "s", 8, 1⟩]
  have hReached := (h (4 / 5) (calls ++ [.status ⟨("a", 0), "s"⟩])).exit calls ⟨("a", 0), "s"⟩
    List.prefix_rfl (by decide +kernel)
  exact absurd hReached (by decide +kernel)

end LMCache.CacheController
