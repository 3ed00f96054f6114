import LMCache.CacheController.KVController

/-!
# What the hot cache reports

Every change of the hot cache is to be reported by an operation. Operations name chunk hashes,
and keys of several layers or workers have one: an `EVICT` of one key takes the hash of the
others from the controller, and the eviction of `batched_allocate` reports nothing. The replay of
the operations gives the hashes of the cache exactly as long as no step evicts one of two keys
with a hash, nor drops the last one.
-/

namespace LMCache.Storage

open CacheController List

/-- Keys with their layers, which have the chunk hash of the key. -/
class LayeredKey (K : Type) where
  chunkHash : K → ChunkHash
  splitLayers : K → Nat → List K
  chunkHash_splitLayers : ∀ k n, ∀ layer ∈ splitLayers k n, chunkHash layer = chunkHash k

open LayeredKey

/-- `opsToSend` are the operations that the running `_drain_and_send` has taken. -/
structure BatchedMessageSender where
  messageQueue : List KVOpEvent
  sequenceNumber : Nat
  opsToSend : List KVOpEvent
  sent : List (List KVOpEvent)
  running : Bool

namespace BatchedMessageSender

def new : BatchedMessageSender := ⟨[], 0, [], [], true⟩

def addKvOp (m : BatchedMessageSender) (op : KVOpEvent) : BatchedMessageSender :=
  { m with messageQueue := m.messageQueue ++ [op] }

/-- The number of an operation is assigned when it leaves the queue. -/
def take (m : BatchedMessageSender) : BatchedMessageSender :=
  match m.running, m.messageQueue with
  | true, op :: rest =>
    { m with
      messageQueue := rest
      sequenceNumber := m.sequenceNumber + 1
      opsToSend := m.opsToSend ++ [{ op with seqNum := m.sequenceNumber }] }
  | _, _ => m

def send (m : BatchedMessageSender) : BatchedMessageSender :=
  if m.running ∧ m.opsToSend ≠ [] then
    { m with sent := m.sent ++ [m.opsToSend], opsToSend := [] }
  else m

/-- The thread ends: `close`, or an exception of `put_msg`, which loses the message. -/
def stop (m : BatchedMessageSender) : BatchedMessageSender :=
  { m with opsToSend := [], running := false }

end BatchedMessageSender

/-- `reported` is a record of all operations handed to `add_kv_op`. -/
structure LocalCPUBackend (K : Type) where
  useHot : Bool
  hotCache : List K
  sender : BatchedMessageSender
  reported : List KVOpEvent

inductive HotCacheOp (K : Type)
  | submitPutTask (key : K)
  | remove (key : K)
  | clear (canEvict : K → Bool)
  | evict (candidates : List K)
  | evictLayers (batchSize : Nat) (canEvict : K → Bool) (candidates : List K)
  | take
  | send
  | stop

namespace LocalCPUBackend

variable {K : Type} [DecidableEq K] [LayeredKey K]

def new (useHot : Bool) : LocalCPUBackend K := ⟨useHot, [], .new, []⟩

def addKvOp (s : LocalCPUBackend K) (opType : OpType) (key : ChunkHash) : LocalCPUBackend K :=
  { s with
    sender := s.sender.addKvOp ⟨opType, key, -1⟩
    reported := s.reported ++ [⟨opType, key, -1⟩] }

def submitPutTask (s : LocalCPUBackend K) (key : K) : LocalCPUBackend K :=
  if key ∈ s.hotCache then s
  else addKvOp { s with hotCache := s.hotCache ++ [key] } .admitOp (chunkHash key)

/-- `remove`, forced or not. -/
def remove (s : LocalCPUBackend K) (key : K) : LocalCPUBackend K :=
  if key ∈ s.hotCache then
    addKvOp { s with hotCache := s.hotCache.filter (· ≠ key) } .evictOp (chunkHash key)
  else s

def batchedRemove (s : LocalCPUBackend K) (keys : List K) : LocalCPUBackend K :=
  keys.foldl remove s

def wholeGroup (hotCache : List K) (batchSize : Nat) (canEvict : K → Bool) (key : K) : Bool :=
  splitLayers key batchSize ≠ [] &&
    (splitLayers key batchSize).all fun layer => decide (layer ∈ hotCache) && canEvict layer

/-- What an attempt of `batched_allocate` pops: the layers of the first candidate that has all
of them. -/
def popLayers (s : LocalCPUBackend K) (batchSize : Nat) (canEvict : K → Bool)
    (candidates : List K) : LocalCPUBackend K :=
  match candidates.find? (wholeGroup s.hotCache batchSize canEvict) with
  | some key => { s with hotCache := s.hotCache.filter (· ∉ splitLayers key batchSize) }
  | none => s

def step (s : LocalCPUBackend K) : HotCacheOp K → LocalCPUBackend K
  | .submitPutTask key => s.submitPutTask key
  | .remove key => s.remove key
  | .clear canEvict => if s.useHot then s.batchedRemove (s.hotCache.filter canEvict) else s
  | .evict candidates => if s.useHot then s.batchedRemove candidates else s
  | .evictLayers batchSize canEvict candidates =>
    if s.useHot then s.popLayers batchSize canEvict candidates else s
  | .take => { s with sender := s.sender.take }
  | .send => { s with sender := s.sender.send }
  | .stop => { s with sender := s.sender.stop }

def run (s : LocalCPUBackend K) (ops : List (HotCacheOp K)) : LocalCPUBackend K :=
  ops.foldl step s

def hashes (hotCache : List K) : Finset ChunkHash := (hotCache.map chunkHash).toFinset

def replay (ops : List KVOpEvent) : Finset ChunkHash := ops.foldl KVOpEvent.apply ∅

/-- The replay of the reported operations gives the hashes in the cache. -/
def Mirrored (s : LocalCPUBackend K) : Prop := replay s.reported = hashes s.hotCache

def numbered : Nat → List KVOpEvent → List KVOpEvent
  | _, [] => []
  | first, op :: rest => { op with seqNum := first } :: numbered (first + 1) rest

/-- The messages carry the first reported operations, in order and with their numbers. -/
def SentInOrder (s : LocalCPUBackend K) : Prop :=
  s.sender.sent.flatten <+: numbered 0 s.reported

/-- No key of `keys` shares its hash with a key that stays. -/
def EvictsHashes (hotCache keys : List K) : Prop :=
  ∀ k ∈ keys, k ∈ hotCache → ∀ other ∈ hotCache, other ∉ keys → chunkHash other ≠ chunkHash k

/-- A reported eviction takes all keys of a hash, and an unreported one leaves a key of it. -/
def Meets (s : LocalCPUBackend K) : HotCacheOp K → Prop
  | .remove key => EvictsHashes s.hotCache [key]
  | .clear canEvict => s.useHot → EvictsHashes s.hotCache (s.hotCache.filter canEvict)
  | .evict candidates => s.useHot → EvictsHashes s.hotCache candidates
  | .evictLayers batchSize canEvict candidates => s.useHot →
    ∀ key ∈ candidates.find? (wholeGroup s.hotCache batchSize canEvict),
      ∃ other ∈ s.hotCache, other ∉ splitLayers key batchSize ∧ chunkHash other = chunkHash key
  | _ => True

variable {s : LocalCPUBackend K}

theorem replay_concat (ops : List KVOpEvent) (op : KVOpEvent) :
    replay (ops ++ [op]) = op.apply (replay ops) := by
  rw [replay, foldl_append]
  rfl

omit [DecidableEq K] in
theorem mem_hashes {hotCache : List K} {h : ChunkHash} :
    h ∈ hashes hotCache ↔ ∃ k ∈ hotCache, chunkHash k = h := by
  rw [hashes, mem_toFinset, mem_map]

theorem batchedRemove_spec (keys : List K) (s : LocalCPUBackend K) :
    (s.batchedRemove keys).hotCache = s.hotCache.filter (· ∉ keys) ∧
      ∀ h, h ∈ replay (s.batchedRemove keys).reported ↔
        h ∈ replay s.reported ∧ ∀ k ∈ keys, k ∈ s.hotCache → chunkHash k ≠ h := by
  induction keys generalizing s with
  | nil => simp [batchedRemove]
  | cons key keys ih =>
    obtain ⟨hCache, hReplay⟩ := ih (s.remove key)
    change (batchedRemove (s.remove key) keys).hotCache = _ ∧
      ∀ h, h ∈ replay (batchedRemove (s.remove key) keys).reported ↔ _
    have hFilter : (s.remove key).hotCache = s.hotCache.filter (· ≠ key) := by
      unfold remove
      split
      · rfl
      · rename_i hNot
        refine (filter_eq_self.mpr fun k hk => ?_).symm
        exact decide_eq_true fun hEq => hNot (hEq ▸ hk)
    have hRemoved : ∀ h, h ∈ replay (s.remove key).reported ↔
        h ∈ replay s.reported ∧ (key ∈ s.hotCache → chunkHash key ≠ h) := by
      intro h
      unfold remove
      split
      · rename_i hMem
        rw [addKvOp, replay_concat, KVOpEvent.apply, Finset.mem_erase]
        simp [hMem, and_comm, ne_comm]
      · rename_i hNot
        simp [hNot]
    refine ⟨?_, fun h => ?_⟩
    · rw [hCache, hFilter, filter_filter]
      refine filter_congr fun k _ => ?_
      by_cases hk : k = key <;> simp [hk]
    · rw [hReplay, hRemoved, hFilter]
      simp only [mem_filter, forall_mem_cons, decide_eq_true_eq]
      constructor
      · rintro ⟨⟨hOld, hKey⟩, hRest⟩
        refine ⟨hOld, hKey, fun k hk hMem => ?_⟩
        by_cases hEq : k = key
        · subst hEq
          exact hKey hMem
        · exact hRest k hk ⟨hMem, hEq⟩
      · rintro ⟨hOld, hKey, hRest⟩
        exact ⟨⟨hOld, hKey⟩, fun k hk hMem => hRest k hk hMem.1⟩

theorem batchedRemove_mirrored_iff (h : s.Mirrored) (keys : List K) :
    (s.batchedRemove keys).Mirrored ↔ EvictsHashes s.hotCache keys := by
  obtain ⟨hCache, hReplay⟩ := batchedRemove_spec keys s
  have hMem : ∀ x, x ∈ replay (s.batchedRemove keys).reported ↔
      (∃ k ∈ s.hotCache, chunkHash k = x) ∧ ∀ k ∈ keys, k ∈ s.hotCache → chunkHash k ≠ x := by
    intro x
    rw [hReplay, show replay s.reported = hashes s.hotCache from h, mem_hashes]
  have hLeft : ∀ x, x ∈ hashes (s.batchedRemove keys).hotCache ↔
      ∃ k ∈ s.hotCache, k ∉ keys ∧ chunkHash k = x := by
    intro x
    rw [hCache, mem_hashes]
    simp only [mem_filter, decide_eq_true_eq, and_assoc]
  rw [Mirrored, Finset.ext_iff]
  constructor
  · intro hSame k hk hIn other hOther hNot hEq
    have hGone := ((hSame (chunkHash k)).trans (hLeft _)).mpr ⟨other, hOther, hNot, hEq⟩
    exact ((hMem _).mp hGone).2 k hk hIn rfl
  · intro hEvicts x
    rw [hMem, hLeft]
    constructor
    · rintro ⟨⟨k, hk, rfl⟩, hNone⟩
      exact ⟨k, hk, fun hIn => hNone k hIn hk rfl, rfl⟩
    · rintro ⟨k, hk, hNot, rfl⟩
      exact ⟨⟨k, hk, rfl⟩, fun k' hk' hIn => (hEvicts k' hk' hIn k hk hNot).symm⟩

theorem popLayers_mirrored_iff (h : s.Mirrored) (batchSize : Nat) (canEvict : K → Bool)
    (candidates : List K) : (s.popLayers batchSize canEvict candidates).Mirrored ↔
      ∀ key ∈ candidates.find? (wholeGroup s.hotCache batchSize canEvict),
        ∃ other ∈ s.hotCache, other ∉ splitLayers key batchSize ∧
          chunkHash other = chunkHash key := by
  unfold popLayers
  cases hFind : candidates.find? (wholeGroup s.hotCache batchSize canEvict) with
  | none => simpa using h
  | some key =>
    have hGroup := find?_some hFind
    rw [wholeGroup, Bool.and_eq_true, decide_eq_true_eq, all_eq_true] at hGroup
    obtain ⟨hSome, hAll⟩ := hGroup
    have hLayer := LayeredKey.chunkHash_splitLayers key batchSize
    have hLeft : ∀ x, x ∈ hashes (s.hotCache.filter (· ∉ splitLayers key batchSize)) ↔
        ∃ k ∈ s.hotCache, k ∉ splitLayers key batchSize ∧ chunkHash k = x := by
      intro x
      rw [mem_hashes]
      simp only [mem_filter, decide_eq_true_eq, and_assoc]
    simp only [Option.mem_def, Option.some.injEq, forall_eq']
    rw [Mirrored, show replay s.reported = hashes s.hotCache from h, Finset.ext_iff]
    constructor
    · intro hSame
      obtain ⟨layer, hMem⟩ := exists_mem_of_ne_nil _ hSome
      have hIn := (Bool.and_eq_true _ _ ▸ hAll layer hMem).1
      exact (hLeft _).mp ((hSame (chunkHash key)).mp
        (mem_hashes.mpr ⟨layer, of_decide_eq_true hIn, hLayer layer hMem⟩))
    · intro hOther x
      rw [hLeft, mem_hashes]
      constructor
      · rintro ⟨k, hk, rfl⟩
        by_cases hMem : k ∈ splitLayers key batchSize
        · rw [hLayer k hMem]
          exact hOther
        · exact ⟨k, hk, hMem, rfl⟩
      · rintro ⟨k, hk, -, rfl⟩
        exact ⟨k, hk, rfl⟩

theorem step_mirrored_iff (h : s.Mirrored) (op : HotCacheOp K) :
    (s.step op).Mirrored ↔ s.Meets op := by
  cases op with
  | submitPutTask key =>
    refine iff_of_true ?_ trivial
    rw [step, submitPutTask]
    split
    · exact h
    · rw [Mirrored, addKvOp, replay_concat, KVOpEvent.apply, show replay s.reported = _ from h,
        hashes, hashes]
      ext x
      simp [or_comm, eq_comm]
  | remove key => exact batchedRemove_mirrored_iff h [key]
  | clear canEvict | evict candidates =>
    rw [step, Meets]
    split
    · rename_i hHot
      exact (batchedRemove_mirrored_iff h _).trans ⟨fun hm _ => hm, fun hm => hm hHot⟩
    · rename_i hCold
      exact iff_of_true h fun hHot => absurd hHot hCold
  | evictLayers batchSize canEvict candidates =>
    rw [step, Meets]
    split
    · rename_i hHot
      exact (popLayers_mirrored_iff h _ _ _).trans ⟨fun hm _ => hm, fun hm => hm hHot⟩
    · rename_i hCold
      exact iff_of_true h fun hHot => absurd hHot hCold
  | _ => exact iff_of_true h trivial

theorem numbered_append (first : Nat) (ops more : List KVOpEvent) :
    numbered first (ops ++ more) = numbered first ops ++ numbered (first + ops.length) more := by
  induction ops generalizing first with
  | nil => rfl
  | cons op ops ih =>
    rw [cons_append, numbered, ih, numbered, length_cons, Nat.add_assoc,
      Nat.add_comm 1, cons_append]

/-- What the sender has of the reported operations. -/
structure Queued (m : BatchedMessageSender) (reported : List KVOpEvent) : Prop where
  running : m.running = true →
    m.sent.flatten ++ (m.opsToSend ++ numbered m.sequenceNumber m.messageQueue) =
      numbered 0 reported
  length : m.sequenceNumber + m.messageQueue.length = reported.length
  sent : m.sent.flatten <+: numbered 0 reported

section Sender

variable {m : BatchedMessageSender} {reported : List KVOpEvent}

theorem Queued.addKvOp (h : Queued m reported) (op : KVOpEvent) :
    Queued (m.addKvOp op) (reported ++ [op]) := by
  have hNumbered : numbered 0 (reported ++ [op]) =
      numbered 0 reported ++ numbered reported.length [op] := by
    rw [numbered_append, Nat.zero_add]
  refine ⟨fun hRunning => ?_, ?_, ?_⟩
  · rw [hNumbered, ← h.running hRunning, ← h.length]
    simp only [BatchedMessageSender.addKvOp, numbered_append, append_assoc]
  · simp only [BatchedMessageSender.addKvOp, length_append, ← h.length, Nat.add_assoc]
  · rw [hNumbered]
    exact h.sent.trans (prefix_append _ _)

theorem Queued.take (h : Queued m reported) : Queued m.take reported := by
  unfold BatchedMessageSender.take
  split
  · rename_i op rest hOn hQueue
    refine ⟨fun _ => ?_, ?_, h.sent⟩
    · rw [← h.running hOn, hQueue, numbered]
      simp only [append_assoc, singleton_append]
    · rw [← h.length, hQueue, length_cons, Nat.add_assoc, Nat.add_comm 1]
  · exact h

theorem Queued.send (h : Queued m reported) : Queued m.send reported := by
  unfold BatchedMessageSender.send
  split
  · rename_i hOn
    have hAll := h.running hOn.1
    have hFlatten : (m.sent ++ [m.opsToSend]).flatten = m.sent.flatten ++ m.opsToSend := by simp
    rw [← append_assoc] at hAll
    refine ⟨fun _ => ?_, h.length, ?_⟩
    · rw [hFlatten, nil_append, hAll]
    · rw [hFlatten, ← hAll]
      exact prefix_append _ _
  · exact h

end Sender

theorem queued_batchedRemove (keys : List K) {s : LocalCPUBackend K}
    (h : Queued s.sender s.reported) :
    Queued (s.batchedRemove keys).sender (s.batchedRemove keys).reported := by
  induction keys generalizing s with
  | nil => exact h
  | cons key keys ih =>
    refine ih ?_
    unfold remove
    split
    · exact h.addKvOp _
    · exact h

theorem queued_step (h : Queued s.sender s.reported) (op : HotCacheOp K) :
    Queued (s.step op).sender (s.step op).reported := by
  cases op with
  | submitPutTask key =>
    rw [step, submitPutTask]
    split
    · exact h
    · exact h.addKvOp _
  | remove key => exact queued_batchedRemove [key] h
  | clear canEvict | evict candidates =>
    rw [step]
    split
    · exact queued_batchedRemove _ h
    · exact h
  | evictLayers batchSize canEvict candidates =>
    rw [step, popLayers]
    split
    · split <;> exact h
    · exact h
  | take => exact h.take
  | send => exact h.send
  | stop => exact ⟨fun hOn => (by cases hOn), h.length, h.sent⟩

theorem run_concat (s : LocalCPUBackend K) (ops : List (HotCacheOp K)) (op : HotCacheOp K) :
    s.run (ops ++ [op]) = (s.run ops).step op := by
  rw [run, foldl_append]
  rfl

theorem queued_run (useHot : Bool) (ops : List (HotCacheOp K)) :
    Queued ((new useHot : LocalCPUBackend K).run ops).sender
      ((new useHot : LocalCPUBackend K).run ops).reported := by
  induction ops using List.reverseRecOn with
  | nil => exact ⟨fun _ => rfl, rfl, nil_prefix⟩
  | append_singleton ops op ih =>
    rw [run_concat]
    exact queued_step ih op

/-- In every run, the messages carry the reported operations in order, and the replay gives the
hashes of the cache in every state exactly when every step evicts all keys of a hash, or tells
nobody and leaves one. -/
theorem hot_cache_reported_iff (useHot : Bool) (ops : List (HotCacheOp K)) :
    (∀ front, front <+: ops → ((new useHot).run front).Mirrored ∧
      ((new useHot).run front).SentInOrder) ↔
    ∀ front op, front ++ [op] <+: ops → ((new useHot).run front).Meets op := by
  constructor
  · intro h front op hPrefix
    have hBefore := (h front ((List.prefix_append _ _).trans hPrefix)).1
    have hAfter := (h _ hPrefix).1
    rw [run_concat] at hAfter
    exact (step_mirrored_iff hBefore op).mp hAfter
  · intro h front hPrefix
    refine ⟨?_, (queued_run useHot front).sent⟩
    induction front using List.reverseRecOn with
    | nil => rfl
    | append_singleton front op ih =>
      rw [run_concat]
      exact (step_mirrored_iff (ih ((List.prefix_append _ _).trans hPrefix)) op).mpr
        (h front op hPrefix)

end LocalCPUBackend

/-- A chunk hash and a layer. -/
instance : LayeredKey (Int × Nat) where
  chunkHash := Prod.fst
  splitLayers key n := (List.range n).map (key.1, ·)
  chunkHash_splitLayers _ _ layer hMem := by
    obtain ⟨i, -, rfl⟩ := mem_map.mp hMem
    rfl

/-- The only chunk is dropped by `batched_allocate`, and stays in the replay. -/
theorem dropped_layers_stay_reported :
    ¬ ((LocalCPUBackend.new true).run
      [.submitPutTask ((7 : Int), 0), .submitPutTask (7, 1),
        .evictLayers 2 (fun _ => true) [(7, 0)]]).Mirrored := by
  unfold LocalCPUBackend.Mirrored
  decide

end LMCache.Storage
