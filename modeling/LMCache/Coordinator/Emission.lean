import LMCache.Coordinator.Subscriber

/-!
# What a subscriber emits

The batches that were handed to the sink are numbered from one, and they hold, in order, what
was recorded before the pending batches.
-/

namespace LMCache.Coordinator

open Lib Serde CacheEventType List

/-- One entry with what its batch says of it. -/
structure Report where
  eventType : CacheEventType
  tier : Tier
  backend : String
  shared : Bool
  entry : CacheEventEntry
deriving DecidableEq

def CacheEventBatch.reports (b : CacheEventBatch) : List Report :=
  b.entries.map fun entry => ⟨b.eventType, b.tier, b.backend, b.shared, entry⟩

def PendingBatch.reports (p : PendingBatch) : List Report :=
  p.entries.map fun entry => ⟨p.eventType, p.tier, p.backend, p.shared, entry⟩

def PendingBatch.Private (p : PendingBatch) : Prop := p.tier = .l1 → p.shared = false

namespace CacheEventSubscriber

variable {e : Emitter} {s : CacheEventSubscriber}

/-- What the subscriber recorded, published or pending. -/
def reports (s : CacheEventSubscriber) : List Report :=
  s.published.flatMap CacheEventBatch.reports ++ s.pendingBatches.flatMap PendingBatch.reports

def recordsOf (s : CacheEventSubscriber) : StorageEvent → List PendingBatch
  | .l1Store objects =>
    (byBackend (objects.map fun o => (o.2.backend, s.storeEntry o.1 o.2.sizeBytes))).entries.map
      fun group => l1Pending .store store_ne_config group.1 group.2
  | .l1Delete objects =>
    (byBackend (objects.map fun o => (o.2.backend, keyEntry o.1))).entries.map
      fun group => l1Pending .delete delete_ne_config group.1 group.2
  | .l1Access keys =>
    [⟨.access, .l1, "", false, keys.map keyEntry, access_backend "",
      access_ne_config⟩]
  | .l2Store backend shared objects =>
    [l2Pending .store store_ne_config backend shared (objects.map fun o => s.storeEntry o.1 o.2)]
  | .l2Delete backend shared keys =>
    [l2Pending .delete delete_ne_config backend shared (keys.map keyEntry)]
  | .l2Access backend shared keys =>
    [l2Pending .access access_ne_config backend shared (keys.map keyEntry)]
  | .tokens _ | .capacityChanged _ | .tick => []

variable {α : Type}

theorem number_cons (f : Nat → α → CacheEventBatch) (seq : Nat) (item : α) (rest : List α) :
    number f seq (item :: rest) = f seq item :: number f (seq + 1) rest := by
  unfold number
  rw [mapIdx_cons, Nat.add_zero]
  congr 2
  funext offset
  rw [Nat.add_assoc, Nat.add_comm 1]

variable {f : Nat → α → CacheEventBatch}

theorem map_seq_number (h : ∀ seq item, (f seq item).seq = seq + 1) (seq : Nat) (items : List α) :
    (number f seq items).map (·.seq) = List.range' (seq + 1) items.length := by
  induction items generalizing seq with
  | nil => rfl
  | cons item rest ih =>
    rw [number_cons, map_cons, ih, h, length_cons, range'_succ]

theorem reports_number {g : α → List Report} (h : ∀ seq item, (f seq item).reports = g item)
    (seq : Nat) (items : List α) :
    (number f seq items).flatMap CacheEventBatch.reports = items.flatMap g := by
  induction items generalizing seq with
  | nil => rfl
  | cons item rest ih => rw [number_cons, flatMap_cons, flatMap_cons, ih, h]

theorem map_number {β : Type} {g : CacheEventBatch → β} {k : α → β}
    (h : ∀ seq item, g (f seq item) = k item) (seq : Nat) (items : List α) :
    (number f seq items).map g = items.map k := by
  induction items generalizing seq with
  | nil => rfl
  | cons item rest ih => rw [number_cons, map_cons, map_cons, ih, h]

theorem mem_number {seq : Nat} {items : List α} {b : CacheEventBatch} (h : b ∈ number f seq items) :
    ∃ seq, ∃ item ∈ items, b = f seq item := by
  induction items generalizing seq with
  | nil => cases h
  | cons item rest ih =>
    rw [number_cons] at h
    rcases mem_cons.mp h with rfl | hRest
    · exact ⟨seq, item, mem_cons_self, rfl⟩
    · obtain ⟨seq', item', hMem, hb⟩ := ih hRest
      exact ⟨seq', item', mem_cons_of_mem _ hMem, hb⟩

structure Numbered (e : Emitter) (s : CacheEventSubscriber) : Prop where
  seq : s.seq = s.published.length
  numbers : s.published.map (·.seq) = List.range' 1 s.published.length
  stamped : ∀ b ∈ s.published, b.instanceId = e.instanceId ∧ b.incarnation = e.incarnation
  unshared : ∀ b ∈ s.published, b.eventType ≠ .config → b.tier = .l1 → b.shared = false
  pending : ∀ p ∈ s.pendingBatches, p.Private

theorem Numbered.flush (h : s.Numbered e) (f : Flush) : (s.flush e f).Numbered e := by
  unfold CacheEventSubscriber.flush
  split
  · exact h
  · generalize hRevision :
      (if s.pendingCapacity.isSome then s.capacityRevision + 1 else s.capacityRevision) = revision
    dsimp only
    refine ⟨?_, ?_, ?_, ?_, nofun⟩
    · exact (congrArg (· + _) h.seq).trans length_append.symm
    · dsimp only
      rw [map_append, map_append, map_seq_number fun _ _ => rfl,
        map_seq_number fun _ _ => rfl, h.numbers, h.seq]
      simp only [length_append, number, length_mapIdx]
      rw [Nat.add_comm s.published.length 1, Nat.add_right_comm s.published.length,
        Nat.add_comm (s.published.length + 1), ← range'_append_1, ← range'_append_1]
      simp [Nat.add_comm]
    · intro b hb
      rcases mem_append.mp hb with hOld | hNew
      · exact h.stamped b hOld
      · rcases mem_append.mp hNew with hMem | hMem
        · obtain ⟨_, _, _, rfl⟩ := mem_number hMem
          exact ⟨rfl, rfl⟩
        · obtain ⟨_, _, _, rfl⟩ := mem_number hMem
          exact ⟨rfl, rfl⟩
    · intro b hb hType hTier
      rcases mem_append.mp hb with hOld | hNew
      · exact h.unshared b hOld hType hTier
      · rcases mem_append.mp hNew with hMem | hMem
        · obtain ⟨_, _, _, rfl⟩ := mem_number hMem
          exact absurd rfl hType
        · obtain ⟨_, p, hp, rfl⟩ := mem_number hMem
          exact h.pending p hp hTier

theorem reports_flush (s : CacheEventSubscriber) (f : Flush) :
    (s.flush e f).reports = s.reports := by
  unfold flush
  split
  · rfl
  · unfold reports
    dsimp only
    rw [flatMap_append, flatMap_append, reports_number (g := fun _ => []) fun _ _ => rfl,
      reports_number (g := PendingBatch.reports) fun _ _ => rfl]
    simp

theorem Numbered.flushIfDue (h : s.Numbered e) (due : Option Flush) :
    (s.flushIfDue e due).Numbered e := by
  cases due with
  | none => exact h
  | some f => exact h.flush f

theorem reports_flushIfDue (s : CacheEventSubscriber) (due : Option Flush) :
    (s.flushIfDue e due).reports = s.reports := by
  cases due with
  | none => rfl
  | some f => exact s.reports_flush f

theorem reports_buffer (pending : List PendingBatch) (new : PendingBatch) :
    (buffer pending new).flatMap PendingBatch.reports =
      pending.flatMap PendingBatch.reports ++ new.reports := by
  unfold buffer
  split
  · rename_i hNone
    rw [getLast?_eq_none_iff.mp hNone]
    simp
  · rename_i last hLast
    obtain ⟨init, rfl⟩ := getLast?_eq_some_iff.mp hLast
    split
    · rename_i hSame
      simp [PendingBatch.reports, hSame]
    · simp

theorem private_buffer {pending : List PendingBatch} {new : PendingBatch}
    (h : ∀ p ∈ pending, p.Private) (hNew : new.Private) : ∀ p ∈ buffer pending new, p.Private := by
  intro p hp
  unfold buffer at hp
  split at hp
  · rw [mem_singleton.mp hp]
    exact hNew
  · rename_i last hLast
    split at hp
    · rcases mem_append.mp hp with hOld | hMem
      · exact h p (dropLast_subset _ hOld)
      · rw [mem_singleton.mp hMem]
        exact h last (mem_of_getLast? hLast)
    · rcases mem_append.mp hp with hOld | hMem
      · exact h p hOld
      · rw [mem_singleton.mp hMem]
        exact hNew

theorem Numbered.record (h : s.Numbered e) {new : PendingBatch} (hNew : new.Private)
    (due : Option Flush) : (s.record e new due).Numbered e := by
  unfold CacheEventSubscriber.record
  split
  · exact h
  · refine Numbered.flushIfDue ?_ due
    exact ⟨h.seq, h.numbers, h.stamped, h.unshared, private_buffer h.pending hNew⟩

theorem reports_record (s : CacheEventSubscriber) (new : PendingBatch) (due : Option Flush) :
    (s.record e new due).reports = s.reports ++ new.reports := by
  unfold record
  split
  · rename_i hEmpty
    rw [PendingBatch.reports, List.isEmpty_iff.mp hEmpty]
    simp
  · rw [reports_flushIfDue]
    unfold reports
    rw [reports_buffer, append_assoc]

variable {eventType : CacheEventType}

theorem recordL1Placements_spec (hType : eventType ≠ .config)
    (groups : List (L1BackendType × List CacheEventEntry)) (dues : List (Option Flush))
    {s : CacheEventSubscriber} (h : s.Numbered e) :
    (recordL1Placements e eventType hType groups dues s).Numbered e ∧
      (recordL1Placements e eventType hType groups dues s).reports = s.reports ++
        (groups.map fun group => l1Pending eventType hType group.1 group.2).flatMap
          PendingBatch.reports := by
  induction groups generalizing dues s with
  | nil => exact ⟨h, by simp [recordL1Placements]⟩
  | cons group rest ih =>
    have hNext : (s.record e (l1Pending eventType hType group.1 group.2)
        dues.head?.join).Numbered e := h.record (fun _ => rfl) _
    refine ⟨(ih dues.tail hNext).1, ?_⟩
    rw [recordL1Placements, (ih dues.tail hNext).2, reports_record]
    simp

theorem bindTokens_eq (s : CacheEventSubscriber) (chunks : List (Bytes × ChunkTokens)) :
    ∃ bindings, s.bindTokens chunks = { s with tokenBindings := bindings } := by
  unfold bindTokens
  dsimp only
  split
  · exact ⟨_, rfl⟩
  · exact ⟨_, rfl⟩

theorem handle_spec (h : s.Numbered e) (event : StorageEvent) (dues : List (Option Flush)) :
    (s.handle e event dues).Numbered e ∧
      (s.handle e event dues).reports =
        s.reports ++ (s.recordsOf event).flatMap PendingBatch.reports := by
  have hOne : ∀ {new : PendingBatch} (due : Option Flush), new.Private →
      (s.record e new due).Numbered e ∧
        (s.record e new due).reports = s.reports ++ [new].flatMap PendingBatch.reports := by
    intro new due hNew
    refine ⟨h.record hNew due, ?_⟩
    rw [reports_record]
    simp
  cases event with
  | l1Store objects | l1Delete objects => exact recordL1Placements_spec _ _ dues h
  | l1Access keys => exact hOne _ fun _ => rfl
  | l2Store backend shared objects => exact hOne _ nofun
  | l2Delete backend shared keys => exact hOne _ nofun
  | l2Access backend shared keys => exact hOne _ nofun
  | tokens chunks =>
    obtain ⟨bindings, hBind⟩ := s.bindTokens_eq chunks
    rw [show s.handle e (.tokens chunks) dues = _ from hBind]
    exact ⟨⟨h.seq, h.numbers, h.stamped, h.unshared, h.pending⟩, (append_nil _).symm⟩
  | capacityChanged snapshot =>
    have hHeld : Numbered e { s with pendingCapacity := some snapshot } :=
      ⟨h.seq, h.numbers, h.stamped, h.unshared, h.pending⟩
    exact ⟨hHeld.flushIfDue _, (reports_flushIfDue _ _).trans (append_nil _).symm⟩
  | tick => exact ⟨h.flushIfDue _, (reports_flushIfDue _ _).trans (append_nil _).symm⟩

variable {P : CacheEventSubscriber → Prop}

theorem recordL1Placements_keeps (hRecord : ∀ s new due, P s → P (s.record e new due))
    (hType : eventType ≠ .config) (groups : List (L1BackendType × List CacheEventEntry))
    (dues : List (Option Flush)) {s : CacheEventSubscriber} (h : P s) :
    P (recordL1Placements e eventType hType groups dues s) := by
  induction groups generalizing dues s with
  | nil => exact h
  | cons group rest ih => exact ih dues.tail (hRecord _ _ _ h)

theorem handle_keeps (hFlush : ∀ s f, P s → P (s.flush e f))
    (hPending : ∀ s pending, P s → P { s with pendingBatches := pending })
    (hBindings : ∀ s bindings, P s → P { s with tokenBindings := bindings })
    {s : CacheEventSubscriber} {event : StorageEvent} {dues : List (Option Flush)}
    (hDeclare : ∀ snapshot, event = .capacityChanged snapshot →
      P { s with pendingCapacity := some snapshot })
    (h : P s) : P (s.handle e event dues) := by
  have hFlushIfDue : ∀ s (due : Option Flush), P s → P (s.flushIfDue e due) := by
    intro s due hs
    cases due with
    | none => exact hs
    | some f => exact hFlush s f hs
  have hRecord : ∀ s new due, P s → P (s.record e new due) := by
    intro s new due hs
    unfold record
    split
    · exact hs
    · exact hFlushIfDue _ due (hPending s _ hs)
  cases event with
  | l1Store objects | l1Delete objects => exact recordL1Placements_keeps hRecord _ _ dues h
  | l1Access keys => exact hRecord _ _ _ h
  | l2Store backend shared objects => exact hRecord _ _ _ h
  | l2Delete backend shared keys => exact hRecord _ _ _ h
  | l2Access backend shared keys => exact hRecord _ _ _ h
  | tokens chunks =>
    obtain ⟨bindings, hBind⟩ := s.bindTokens_eq chunks
    rw [show s.handle e (.tokens chunks) dues = _ from hBind]
    exact hBindings s bindings h
  | capacityChanged snapshot => exact hFlushIfDue _ _ (hDeclare snapshot rfl)
  | tick => exact hFlushIfDue _ _ h

theorem published_flush (s : CacheEventSubscriber) (f : Flush) :
    s.published ⊆ (s.flush e f).published := by
  unfold flush
  split
  · exact List.Subset.refl _
  · exact subset_append_left _ _

theorem published_handle (s : CacheEventSubscriber) (event : StorageEvent)
    (dues : List (Option Flush)) : s.published ⊆ (s.handle e event dues).published := by
  refine handle_keeps (P := fun t => s.published ⊆ t.published)
    (fun t f ht => List.Subset.trans ht (t.published_flush f)) (fun _ _ ht => ht)
      (fun _ _ ht => ht) ?_ ?_
  · exact fun _ _ => List.Subset.refl _
  · exact List.Subset.refl _

theorem numbered_new (e : Emitter) : new.Numbered e := ⟨rfl, rfl, nofun, nofun, nofun⟩

end CacheEventSubscriber

end LMCache.Coordinator
