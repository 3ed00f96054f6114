import LMCache.CacheController.FullSyncCompleteness
import LMCache.Lib.Updates

/-!
# Operations on their way

What a hot cache holds, against the operations that it has queued and that have not reached the
controller. The queued operations always lead from what it holds to what it holds, so it does
not matter when those from before a snapshot arrive. From the snapshot to what it holds lead
the operations queued since, as long as none of them has left the channel.
-/

namespace LMCache.CacheController

open Lib List

def KVOpEvent.update (op : KVOpEvent) : SetUpdate ChunkHash :=
  ⟨decide (op.opType = .admitOp), op.key⟩

theorem KVOpEvent.apply_eq (keys : Finset ChunkHash) (op : KVOpEvent) :
    op.apply keys = op.update.apply keys := by
  obtain ⟨opType, key, seqNum⟩ := op
  cases opType <;> rfl

theorem foldl_apply_eq_replay (ops : List KVOpEvent) (keys : Finset ChunkHash) :
    ops.foldl KVOpEvent.apply keys = replay (ops.map KVOpEvent.update) keys := by
  induction ops generalizing keys with
  | nil => rfl
  | cons op ops ih =>
    rw [foldl_cons, ih, KVOpEvent.apply_eq]
    rfl

def PushMsg.hotOperations : PushMsg → List KVOpEvent
  | .operations msg => if msg.location = Worker.location then msg.operations else []
  | .syncBatch _ | .syncEnd _ => []

namespace Worker

def hashes (w : Worker) : Finset ChunkHash := (w.hotCache.map CacheEngineKey.chunkHash).toFinset

def pending (w : Worker) : List KVOpEvent :=
  w.channel.flatMap PushMsg.hotOperations ++ w.messageQueue

def updates (w : Worker) : List (SetUpdate ChunkHash) := w.pending.map KVOpEvent.update

def queued (w : Worker) : Nat := w.sequenceNumber + w.messageQueue.length

def queuedSince (w : Worker) (snap : Snapshot) : Nat := w.queued - snap.queued

def updatesSince (w : Worker) (snap : Snapshot) : List (SetUpdate ChunkHash) :=
  w.updates.drop (w.pending.length - w.queuedSince snap)

theorem mem_hashes {w : Worker} {x : ChunkHash} :
    x ∈ w.hashes ↔ ∃ key ∈ w.hotCache, key.chunkHash = x := by
  simp [hashes]

theorem length_updates (w : Worker) : w.updates.length = w.pending.length := length_map _

/-- `copy` are the keys that the controller has from a completed sync. -/
structure Reported (w : Worker) (copy : Option (Finset ChunkHash)) : Prop where
  own : Follows w.updates w.unsent.toFinset w.hashes w.hashes
  copied : ∀ keys, copy = some keys → Follows w.updates w.unsent.toFinset keys w.hashes
  marks : ∀ syncId snap, w.snapshots.get? syncId = some snap → snap.queued ≤ w.queued
  since : ∀ syncId snap, w.snapshots.get? syncId = some snap →
    w.queuedSince snap ≤ w.pending.length →
    Follows (w.updatesSince snap) w.unsent.toFinset snap.init.keys.toFinset w.hashes

variable {w w' : Worker} {copy copy' : Option (Finset ChunkHash)} {x : ChunkHash}

theorem reported_new (config : SenderConfig) (hotCache : List CacheEngineKey) :
    Reported (.new config hotCache) none where
  own := Follows.refl _
  copied := nofun
  marks := nofun
  since := nofun

theorem Reported.congr (h : w.Reported copy) (hUpdates : w'.updates = w.updates)
    (hQueued : w'.queued = w.queued) (hUnsent : w'.unsent = w.unsent)
    (hHot : w'.hashes = w.hashes) (hSnapshots : w'.snapshots = w.snapshots) :
    w'.Reported copy := by
  have hLength : w'.pending.length = w.pending.length := by
    rw [← length_updates, ← length_updates, hUpdates]
  refine ⟨?_, ?_, ?_, ?_⟩
  · rw [hUpdates, hUnsent, hHot]
    exact h.own
  · rw [hUpdates, hUnsent, hHot]
    exact h.copied
  · rw [hSnapshots, hQueued]
    exact h.marks
  · intro syncId snap hSnap hAll
    rw [hSnapshots] at hSnap
    rw [queuedSince, hQueued, hLength] at hAll
    rw [updatesSince, hUpdates, hLength, queuedSince, hQueued, hUnsent, hHot]
    exact h.since syncId snap hSnap hAll

theorem Reported.queue (h : w.Reported copy) (u : SetUpdate ChunkHash)
    (hUpdates : w'.updates = w.updates ++ [u]) (hQueued : w'.queued = w.queued + 1)
    (hSnapshots : w'.snapshots = w.snapshots)
    (hHashes : ∀ y, y ≠ x → (y ∈ w'.hashes ↔ y ∈ w.hashes))
    (hFollows : ∀ us base base', Follows us w.unsent.toFinset base w.hashes →
      (∀ y, y ≠ x → (y ∈ base' ↔ y ∈ base)) →
      Follows (us ++ [u]) w'.unsent.toFinset base' w'.hashes) : w'.Reported copy := by
  have hLength : w'.pending.length = w.pending.length + 1 := by
    rw [← length_updates, ← length_updates, hUpdates, length_append]
    rfl
  refine ⟨?_, ?_, ?_, ?_⟩
  · rw [hUpdates]
    exact hFollows _ _ _ h.own hHashes
  · intro keys hCopy
    rw [hUpdates]
    exact hFollows _ _ _ (h.copied keys hCopy) fun _ _ => Iff.rfl
  · intro syncId snap hSnap
    rw [hSnapshots] at hSnap
    have := h.marks syncId snap hSnap
    omega
  · intro syncId snap hSnap hAll
    rw [hSnapshots] at hSnap
    have hMark := h.marks syncId snap hSnap
    have hSince : w'.queuedSince snap = w.queuedSince snap + 1 := by
      unfold queuedSince
      omega
    have hOld : w.queuedSince snap ≤ w.pending.length := by omega
    have hDrop : w'.updatesSince snap = w.updatesSince snap ++ [u] := by
      rw [updatesSince, hUpdates, hLength, hSince, Nat.add_sub_add_right,
        drop_append_of_le_length (by rw [length_updates]; omega)]
      rfl
    rw [hDrop]
    exact hFollows _ _ _ (h.since syncId snap hSnap hOld) fun _ _ => Iff.rfl

theorem updates_addKvOp (w : Worker) (opType : OpType) (key : ChunkHash) :
    (w.addKvOp opType key).updates = w.updates ++ [⟨decide (opType = .admitOp), key⟩] := by
  simp only [updates, pending, addKvOp, ← append_assoc, map_append, map_cons, map_nil]
  rfl

theorem queued_addKvOp (w : Worker) (opType : OpType) (key : ChunkHash) :
    (w.addKvOp opType key).queued = w.queued + 1 := by
  simp only [queued, addKvOp, length_append, length_cons, length_nil]
  omega

theorem Reported.submitPutTask (h : w.Reported copy) {key : CacheEngineKey}
    (hUnsent : key ∈ w.hotCache ∨ key.chunkHash ∉ w.unsent) :
    (w.submitPutTask key).Reported copy := by
  unfold Worker.submitPutTask
  split
  · exact h
  · rename_i hAbsent
    have hNot : key.chunkHash ∉ w.unsent := hUnsent.resolve_left hAbsent
    have hHashes : hashes (addKvOp { w with hotCache := w.hotCache ++ [key] } .admitOp
        key.chunkHash) = insert key.chunkHash w.hashes := by
      simp [hashes, addKvOp, Finset.union_comm]
    refine h.queue (x := key.chunkHash) ⟨true, key.chunkHash⟩ (updates_addKvOp _ _ _)
      (queued_addKvOp _ _ _) rfl ?_ ?_
    · intro y hy
      simp [hHashes, hy]
    · intro us base base' hFollows hBase
      rw [hHashes]
      exact hFollows.add (by simpa [addKvOp] using hNot) hBase

theorem hashes_filter {key : CacheEngineKey}
    (hAlone : ∀ key' ∈ w.hotCache, key' ≠ key → key'.chunkHash ≠ key.chunkHash) :
    hashes { w with hotCache := w.hotCache.filter (· ≠ key) } = w.hashes.erase key.chunkHash := by
  ext y
  rw [Finset.mem_erase, mem_hashes, mem_hashes]
  constructor
  · rintro ⟨key', hMem, rfl⟩
    obtain ⟨hHot, hNe⟩ := mem_filter.mp hMem
    have hNe : key' ≠ key := by simpa using hNe
    exact ⟨hAlone key' hHot hNe, key', hHot, rfl⟩
  · rintro ⟨hNe, key', hHot, rfl⟩
    refine ⟨key', mem_filter.mpr ⟨hHot, ?_⟩, rfl⟩
    have : key' ≠ key := by
      rintro rfl
      exact hNe rfl
    simpa using this

theorem Reported.hide (h : w.Reported copy) (hUpdates : w'.updates = w.updates)
    (hQueued : w'.queued = w.queued) (hSnapshots : w'.snapshots = w.snapshots)
    (hUnsent : w'.unsent.toFinset = insert x w.unsent.toFinset)
    (hHot : w'.hashes = w.hashes.erase x) : w'.Reported copy := by
  have hLength : w'.pending.length = w.pending.length := by
    rw [← length_updates, ← length_updates, hUpdates]
  refine ⟨?_, ?_, ?_, ?_⟩
  · rw [hUpdates, hUnsent, hHot]
    exact h.own.hide fun y hy => by simp [hy]
  · intro keys hCopy
    rw [hUpdates, hUnsent, hHot]
    exact (h.copied keys hCopy).hide fun _ _ => Iff.rfl
  · rw [hSnapshots, hQueued]
    exact h.marks
  · intro syncId snap hSnap hAll
    rw [hSnapshots] at hSnap
    rw [queuedSince, hQueued, hLength] at hAll
    rw [updatesSince, hUpdates, hLength, queuedSince, hQueued, hUnsent, hHot]
    exact (h.since syncId snap hSnap hAll).hide fun _ _ => Iff.rfl

theorem Reported.remove (h : w.Reported copy) {key : CacheEngineKey}
    (hAlone : ∀ key' ∈ w.hotCache, key' ≠ key → key'.chunkHash ≠ key.chunkHash) (force : Bool) :
    (w.remove key force).Reported copy := by
  unfold Worker.remove
  split
  · exact h
  · dsimp only
    split
    · exact h.hide rfl rfl rfl (by simp) (hashes_filter hAlone)
    · have hHashes : hashes (addKvOp { w with hotCache := w.hotCache.filter (· ≠ key) } .evictOp
          key.chunkHash) = w.hashes.erase key.chunkHash := hashes_filter hAlone
      refine h.queue (x := key.chunkHash) ⟨false, key.chunkHash⟩ (updates_addKvOp _ _ _)
        (queued_addKvOp _ _ _) rfl ?_ ?_
      · intro y hy
        rw [hHashes, Finset.mem_erase]
        exact and_iff_right hy
      · intro us base base' hFollows hBase
        rw [hHashes]
        exact hFollows.erase hBase

theorem Reported.queueEvict (h : w.Reported copy) {i : Nat} {hash : ChunkHash}
    (hUnsent : w.unsent[i]? = some hash) :
    (addKvOp { w with unsent := w.unsent.eraseIdx i } .evictOp hash).Reported copy := by
  have hInsert : w.unsent.toFinset = insert hash (w.unsent.eraseIdx i).toFinset := by
    ext y
    rw [mem_toFinset, Finset.mem_insert, mem_toFinset, mem_eraseIdx_iff_getElem?]
    constructor
    · intro hy
      obtain ⟨j, hj⟩ := mem_iff_getElem?.mp hy
      by_cases hij : j = i
      · subst hij
        exact Or.inl (Option.some.inj (hj.symm.trans hUnsent))
      · exact Or.inr ⟨j, hij, hj⟩
    · rintro (rfl | ⟨j, -, hj⟩)
      · exact mem_of_getElem? hUnsent
      · exact mem_of_getElem? hj
  refine h.queue (x := hash) ⟨false, hash⟩ (updates_addKvOp _ _ _) (queued_addKvOp _ _ _) rfl
    (fun _ _ => Iff.rfl) ?_
  intro us base base' hFollows hBase
  rw [hInsert] at hFollows
  exact hFollows.reveal hBase

theorem Reported.popLayers (h : w.Reported copy) {keys : List CacheEngineKey}
    (hStay : ∀ key ∈ w.hotCache, key ∈ keys →
      ∃ key' ∈ w.hotCache, key' ∉ keys ∧ key'.chunkHash = key.chunkHash) :
    (w.popLayers keys).Reported copy := by
  refine h.congr rfl rfl rfl ?_ rfl
  ext y
  rw [mem_hashes, mem_hashes]
  constructor
  · rintro ⟨key, hMem, rfl⟩
    exact ⟨key, (mem_filter.mp hMem).1, rfl⟩
  · rintro ⟨key, hHot, rfl⟩
    by_cases hKey : key ∈ keys
    · obtain ⟨key', hHot', hOther, hHash⟩ := hStay key hHot hKey
      exact ⟨key', mem_filter.mpr ⟨hHot', by simpa using hOther⟩, hHash⟩
    · exact ⟨key, mem_filter.mpr ⟨hHot, by simpa using hKey⟩, rfl⟩

theorem map_update_numbered (first : Nat) (ops : List KVOpEvent) :
    (numbered first ops).map KVOpEvent.update = ops.map KVOpEvent.update := by
  have hFrom : ∀ start, ((ops.zipIdx start).map fun e =>
      ({ e.1 with seqNum := (first + e.2 : Nat) } : KVOpEvent)).map KVOpEvent.update =
        ops.map KVOpEvent.update := by
    induction ops with
    | nil => intro start; rfl
    | cons op ops ih =>
      intro start
      rw [zipIdx_cons, map_cons, map_cons, ih, map_cons]
      rfl
  exact hFrom 0

theorem Reported.drainAndSend (h : w.Reported copy) (id : ReportId) (count : Nat) :
    (w.drainAndSend id count).Reported copy := by
  refine h.congr ?_ ?_ rfl rfl rfl
  · simp only [updates, pending, Worker.drainAndSend, flatMap_append, flatMap_cons,
      flatMap_nil, append_nil, PushMsg.hotOperations, if_true, map_append,
      map_update_numbered, append_assoc]
    rw [← map_append, take_append_drop]
  · simp only [queued, Worker.drainAndSend, length_take, length_drop]
    omega

theorem Reported.append (h : w.Reported copy) {msg : PushMsg} (hMsg : msg.hotOperations = [])
    (hChannel : w'.channel = w.channel ++ [msg]) (hQueue : w'.messageQueue = w.messageQueue)
    (hNumber : w'.sequenceNumber = w.sequenceNumber) (hUnsent : w'.unsent = w.unsent)
    (hHot : w'.hotCache = w.hotCache) (hSnapshots : w'.snapshots = w.snapshots) :
    w'.Reported copy := by
  refine h.congr ?_ ?_ hUnsent ?_ hSnapshots
  · simp [updates, pending, hChannel, hQueue, hMsg]
  · simp only [queued, hQueue, hNumber]
  · simp only [hashes, hHot]

theorem Reported.pop (h : w.Reported copy) {msg : PushMsg} {rest : List PushMsg}
    (hChannel : w.channel = msg :: rest) (hCopy : ∀ keys, copy' = some keys →
      Follows (updates { w with channel := rest }) w.unsent.toFinset keys w.hashes) :
    Reported { w with channel := rest } copy' := by
  have hUpdates : w.updates = msg.hotOperations.map KVOpEvent.update ++
      updates { w with channel := rest } := by
    simp [updates, pending, hChannel]
  have hLength : w.pending.length =
      msg.hotOperations.length + (pending { w with channel := rest }).length := by
    simp [pending, hChannel]
  refine ⟨?_, hCopy, h.marks, ?_⟩
  · have hOwn := h.own
    rw [hUpdates] at hOwn
    exact hOwn.tail
  · intro syncId snap hSnap hAll
    have hAll : w.queuedSince snap ≤ (pending { w with channel := rest }).length := hAll
    have hSince := h.since syncId snap hSnap (by omega)
    have hDrop : w.updatesSince snap = updatesSince { w with channel := rest } snap := by
      have hIndex : w.pending.length - w.queuedSince snap = msg.hotOperations.length +
          ((pending { w with channel := rest }).length - w.queuedSince snap) := by
        omega
      have hMap : msg.hotOperations.length =
          (msg.hotOperations.map KVOpEvent.update).length := (length_map _).symm
      rw [updatesSince, hUpdates, hIndex, hMap, drop_length_add_append]
      rfl
    rw [hDrop] at hSince
    exact hSince

theorem Reported.addSnapshot (h : w.Reported copy) {syncId : String} {init : SyncInitResult}
    (hKeys : init.keys = w.hotCache.map CacheEngineKey.chunkHash) (frozen : Bool) :
    Reported { w with
      frozen
      snapshots := w.snapshots.set syncId ⟨init, w.sequenceNumber + w.messageQueue.length⟩ }
      copy := by
  refine ⟨h.own, h.copied, ?_, ?_⟩
  · intro syncId' snap hSnap
    simp only [Dict.get?_set] at hSnap
    split at hSnap
    · cases hSnap
      exact le_rfl
    · exact h.marks syncId' snap hSnap
  · intro syncId' snap hSnap hAll
    simp only [Dict.get?_set] at hSnap
    split at hSnap
    · cases hSnap
      have hNone : w.updates.drop (w.pending.length - 0) = [] := by
        rw [Nat.sub_zero, ← length_updates, drop_length]
      have hZero : w.queuedSince ⟨init, w.sequenceNumber + w.messageQueue.length⟩ = 0 :=
        Nat.sub_self _
      change Follows (w.updates.drop (w.pending.length - w.queuedSince _)) w.unsent.toFinset
        init.keys.toFinset w.hashes
      rw [hZero, hNone, hKeys]
      exact Follows.nil_of_not_hidden h.own.not_hidden
    · exact h.since syncId' snap hSnap hAll

theorem Reported.copied_snapshot (h : w.Reported copy) {syncId : String} {snap : Snapshot}
    (hSnap : w.snapshots.get? syncId = some snap) (hAll : w.queuedSince snap ≤ w.pending.length) :
    Follows w.updates w.unsent.toFinset snap.init.keys.toFinset w.hashes := by
  have hSince := h.since syncId snap hSnap hAll
  have hOwn := h.own
  rw [← take_append_drop (w.pending.length - w.queuedSince snap) w.updates] at hOwn ⊢
  exact hOwn.extend hSince

end Worker

end LMCache.CacheController
