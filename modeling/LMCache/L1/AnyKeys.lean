import LMCache.L1.WriteResults

/-!
# Runs under arbitrary calls

Nothing keeps a caller from naming a key twice in one call. What holds of an entry then still
holds through any run of calls: it was there before under the same memory object and the same
configuration, or the call has just made it. So objects in the table and objects that were
freed have all been allocated, and every write lock has the time to live of the manager.
-/

namespace LMCache

open Lib List Dict

/-- `e'` is `e` with its locks moved. -/
structure L1ObjectState.MovedFrom (e' e : L1ObjectState) : Prop where
  memoryObj_eq : e'.memoryObj = e.memoryObj
  writeTtl_eq : e'.writeLock.ttlMs = e.writeLock.ttlMs

theorem L1ObjectState.MovedFrom.trans {e e' e'' : L1ObjectState} (h : e''.MovedFrom e')
    (g : e'.MovedFrom e) : e''.MovedFrom e :=
  ⟨h.memoryObj_eq.trans g.memoryObj_eq, h.writeTtl_eq.trans g.writeTtl_eq⟩

namespace L1Manager

variable {K : Type} [DecidableEq K] {m m' : L1Manager K} {k : K}

def Step (m : L1Manager K) (op : L1Op K) (m' : L1Manager K) : Prop := (m.apply op).manager = m'

/-- A loop body that only moves the locks of an entry, or removes it. -/
def MovesLocks {ρ : Type} (f : K → Option L1ObjectState → ρ × Option L1ObjectState) : Prop :=
  ∀ k o e', (f k o).2 = some e' → ∃ e, o = some e ∧ e'.MovedFrom e

omit [DecidableEq K] in
theorem MovesLocks.of_some {ρ : Type} {f : K → Option L1ObjectState → ρ × Option L1ObjectState}
    (hNone : ∀ k, (f k none).2 = none)
    (hSome : ∀ k e e', (f k (some e)).2 = some e' → e'.MovedFrom e) : MovesLocks f := by
  intro k o e' h
  cases o with
  | none =>
    rw [hNone] at h
    cases h
  | some e => exact ⟨e, rfl, hSome k e e' h⟩

omit [DecidableEq K] in
theorem reserveReadKey_moves (now total : Nat) : MovesLocks (reserveReadKey now total : K → _) := by
  apply MovesLocks.of_some (fun _ => rfl)
  intro k e e' h
  simp only [reserveReadKey] at h
  split at h <;> cases h <;> exact ⟨rfl, rfl⟩

omit [DecidableEq K] in
theorem unsafeReadKey_moves (now : Nat) : MovesLocks (unsafeReadKey now : K → _) := by
  apply MovesLocks.of_some (fun _ => rfl)
  intro k e e' h
  simp only [unsafeReadKey] at h
  split at h <;> cases h <;> exact ⟨rfl, rfl⟩

omit [DecidableEq K] in
theorem finishReadKey_moves (now total : Nat) : MovesLocks (finishReadKey now total : K → _) := by
  apply MovesLocks.of_some (fun _ => rfl)
  intro k e e' h
  simp only [finishReadKey] at h
  split_ifs at h <;> cases h <;> exact ⟨rfl, rfl⟩

omit [DecidableEq K] in
theorem probeWriteKey_moves (mode : WriteMode) (now : Nat) :
    MovesLocks (probeWriteKey mode now : K → _) := by
  apply MovesLocks.of_some (fun _ => rfl)
  intro k e e' h
  simp only [probeWriteKey] at h
  split_ifs at h <;> cases h <;> first | exact ⟨rfl, rfl⟩ | exact ⟨rfl, TTLLock.lock_ttlMs _ _⟩

omit [DecidableEq K] in
theorem finishWriteKey_moves (now : Nat) : MovesLocks (finishWriteKey now : K → _) := by
  apply MovesLocks.of_some (fun _ => rfl)
  intro k e e' h
  simp only [finishWriteKey] at h
  split_ifs at h <;> cases h <;> exact ⟨rfl, rfl⟩

omit [DecidableEq K] in
theorem finishWriteAndReserveReadKey_moves (now total : Nat) :
    MovesLocks (finishWriteAndReserveReadKey now total : K → _) := by
  apply MovesLocks.of_some (fun _ => rfl)
  intro k e e' h
  simp only [finishWriteAndReserveReadKey] at h
  split_ifs at h <;> cases h <;> exact ⟨rfl, rfl⟩

omit [DecidableEq K] in
theorem deleteKey_moves (force : Bool) (now : Nat) : MovesLocks (deleteKey force now : K → _) := by
  apply MovesLocks.of_some (fun _ => rfl)
  intro k e e' h
  simp only [deleteKey] at h
  split at h <;> cases h
  exact ⟨rfl, rfl⟩

/-- Where the entry that a call leaves under `k` comes from. -/
def Origin (m m' : L1Manager K) (k : K) (e' : L1ObjectState) : Prop :=
  (∃ e, m.objects.get? k = some e ∧ e'.MovedFrom e) ∨
    ∃ obj isTemporary, obj < m'.memory.allocated ∧ e' = m.reservedState obj isTemporary

theorem updateEach_origin {ρ : Type} {f : K → Option L1ObjectState → ρ × Option L1ObjectState}
    (hf : MovesLocks f) (keys : List K) {e' : L1ObjectState}
    (h : (Dict.updateEach f keys m.objects).2.get? k = some e') :
    ∃ e, m.objects.get? k = some e ∧ e'.MovedFrom e := by
  have hAll := updateEach_binding f (k := k) (d := m.objects)
    (P := fun o => ∀ e', o = some e' → ∃ e, m.objects.get? k = some e ∧ e'.MovedFrom e) (by
      intro o ho e' he'
      obtain ⟨e, he, hMoved⟩ := hf k o e' he'
      obtain ⟨e₀, he₀, hMoved₀⟩ := ho e he
      exact ⟨e₀, he₀, L1ObjectState.MovedFrom.trans hMoved hMoved₀⟩)
    keys (fun e he => ⟨e, he, rfl, rfl⟩)
  exact hAll e' h

theorem dropObjects_origin (cleared : L1ObjectState → Bool) {e' : L1ObjectState}
    (h : (m.dropObjects cleared).objects.get? k = some e') :
    ∃ e, m.objects.get? k = some e ∧ e'.MovedFrom e := by
  simp only [dropObjects, get?_filter] at h
  exact ⟨e', (Option.filter_eq_some_iff.mp h).1, rfl, rfl⟩

theorem writtenObjects_cases {keys : List K} {isTemporary : List Bool} {mode : WriteMode}
    {outcome : AllocOutcome} {e' : L1ObjectState}
    (h : (m.writtenObjects keys isTemporary mode outcome).get? k = some e') :
    (∃ a ∈ m.entered keys isTemporary mode outcome, a.1.1 = k ∧ e' = m.reservedState a.2 a.1.2) ∨
    (Dict.updateEach (probeWriteKey mode m.nowMs) (flaggedKeys keys isTemporary)
      m.objects).2.get? k = some e' := by
  rw [writtenObjects, get?_foldl_set_allocation] at h
  cases hLast : ((m.entered keys isTemporary mode outcome).filter fun a => a.1.1 = k).getLast? with
  | none =>
    rw [hLast] at h
    exact Or.inr h
  | some a =>
    rw [hLast] at h
    obtain ⟨hMem, hak⟩ := mem_filter.mp (mem_of_getLast? hLast)
    exact Or.inl ⟨a, hMem, of_decide_eq_true hak, (Option.some.inj h).symm⟩

theorem entered_bounds {keys : List K} {isTemporary : List Bool} {mode : WriteMode}
    {outcome : AllocOutcome} {a : (K × Bool) × MemoryObj}
    (ha : a ∈ m.entered keys isTemporary mode outcome) :
    m.memory.allocated ≤ a.2 ∧
      a.2 < (m.writtenMemory keys isTemporary mode outcome).allocated ∧
      m.objects.get? a.1.1 = none := by
  unfold entered at ha
  split at ha
  · rename_i hBoth
    obtain ⟨hMode, rfl⟩ := hBoth
    obtain ⟨hLe, hGet⟩ := mem_allocation_iff.mp ha
    have hLt := (List.getElem?_eq_some_iff.mp hGet).1
    have hMem := mem_of_getElem? hGet
    have hLater : m.returnsEarly (keys.zip isTemporary) mode = false := by
      simpa [returnsEarly, hMode] using ne_nil_of_mem hMem
    refine ⟨hLe, ?_, mem_missing hMem⟩
    rw [writtenMemory, hLater]
    exact (Nat.sub_lt_iff_lt_add' hLe).mp hLt
  · cases ha

theorem apply_origin (op : L1Op K) {e' : L1ObjectState}
    (h : (m.apply op).manager.objects.get? k = some e') :
    m.Origin (m.apply op).manager k e' := by
  cases op with
  | reserveRead keys readLocks => exact Or.inl (updateEach_origin (reserveReadKey_moves _ _) _ h)
  | unsafeRead keys => exact Or.inl (updateEach_origin (unsafeReadKey_moves _) _ h)
  | finishRead keys readLocks => exact Or.inl (updateEach_origin (finishReadKey_moves _ _) _ h)
  | reserveWrite keys isTemporary mode outcome =>
    have hObjects := m.reserveWrite_objects keys isTemporary mode outcome
    have hMemory := m.reserveWrite_memory keys isTemporary mode outcome
    change (m.reserveWrite keys isTemporary mode outcome).manager.objects.get? k = some e' at h
    rw [hObjects] at h
    rcases writtenObjects_cases h with ⟨a, ha, -, rfl⟩ | hProbed
    · refine Or.inr ⟨a.2, a.1.2, ?_, rfl⟩
      show a.2 < (m.reserveWrite keys isTemporary mode outcome).manager.memory.allocated
      rw [hMemory]
      exact (entered_bounds ha).2.1
    · exact Or.inl (updateEach_origin (probeWriteKey_moves _ _) _ hProbed)
  | finishWrite keys => exact Or.inl (updateEach_origin (finishWriteKey_moves _) _ h)
  | finishWriteAndReserveRead keys readLocks =>
    exact Or.inl (updateEach_origin (finishWriteAndReserveReadKey_moves _ _) _ h)
  | delete keys force => exact Or.inl (updateEach_origin (deleteKey_moves _ _) _ h)
  | touchKeys keys => exact Or.inl ⟨e', h, rfl, rfl⟩
  | clear force => cases force <;> exact Or.inl (dropObjects_origin _ h)
  | close => exact Or.inl (dropObjects_origin _ h)
  | elapse ms => exact Or.inl ⟨e', h, rfl, rfl⟩

theorem mem_needToFree
    {f : K → Option L1ObjectState → (L1Error × Option MemoryObj) × Option L1ObjectState}
    (hFrees : Frees f) (hMoves : MovesLocks f) {keys : List K} {obj : MemoryObj}
    (h : obj ∈ needToFree (Dict.updateEach f keys m.objects).1) : ∃ k, m.heldBy k = some obj := by
  obtain ⟨⟨k, r⟩, hMem, hObj⟩ := mem_filterMap.mp h
  obtain ⟨o, hFrom, rfl, -⟩ := updateEach_mem f (k := k)
    (P := fun o => ∀ e, o = some e → m.heldBy k = some e.memoryObj) (Q := fun _ => True) (by
      intro o ho e' he'
      obtain ⟨e, he, hMoved⟩ := hMoves k o e' he'
      exact (ho e he).trans (congrArg some hMoved.memoryObj_eq.symm))
    (fun _ _ => trivial) (fun e he => heldBy_eq_some_iff.mpr ⟨e, he, rfl⟩) hMem
  refine ⟨k, ?_⟩
  rcases hFrees k o with ⟨e, rfl, hOut, -⟩ | ⟨hOut, -⟩
  · rw [hFrom e rfl]
    exact hOut.symm.trans hObj
  · cases hOut.symm.trans hObj

theorem apply_freed (op : L1Op K) {obj : MemoryObj} (h : obj ∈ (m.apply op).manager.memory.freed) :
    obj ∈ m.memory.freed ∨ (∃ k, m.heldBy k = some obj) ∨
      obj < (m.apply op).manager.memory.allocated := by
  have hDropped : ∀ cleared : L1ObjectState → Bool,
      obj ∈ (m.dropObjects cleared).memory.freed →
        obj ∈ m.memory.freed ∨ ∃ k, m.heldBy k = some obj := by
    intro cleared hMem
    rcases mem_append.mp hMem with hOld | hNew
    · exact Or.inl hOld
    · obtain ⟨e, he, rfl⟩ := mem_map.mp hNew
      obtain ⟨k, hk⟩ := mem_values_iff.mp he
      rw [get?_filter] at hk
      exact Or.inr ⟨k, heldBy_eq_some_iff.mpr ⟨e, (Option.filter_eq_some_iff.mp hk).1, rfl⟩⟩
  cases op with
  | finishRead keys readLocks =>
    rcases mem_append.mp h with hOld | hNew
    · exact Or.inl hOld
    · exact Or.inr
        (Or.inl (mem_needToFree (finishReadKey_frees _ _) (finishReadKey_moves _ _) hNew))
  | delete keys force =>
    rcases mem_append.mp h with hOld | hNew
    · exact Or.inl hOld
    · exact Or.inr (Or.inl (mem_needToFree (deleteKey_frees _ _) (deleteKey_moves _ _) hNew))
  | reserveWrite keys isTemporary mode outcome =>
    change obj ∈ (m.reserveWrite keys isTemporary mode outcome).manager.memory.freed at h
    show _ ∨ _ ∨ obj < (m.reserveWrite keys isTemporary mode outcome).manager.memory.allocated
    rw [reserveWrite_memory] at h ⊢
    unfold writtenMemory at h ⊢
    cases hEarly : m.returnsEarly (keys.zip isTemporary) mode with
    | true =>
      rw [hEarly] at h
      exact Or.inl h
    | false =>
      rw [hEarly] at h
      cases outcome with
      | success => exact Or.inl h
      | outOfMemory n =>
        rcases mem_append.mp h with hOld | hNew
        · exact Or.inl hOld
        · exact Or.inr (Or.inr (mem_range'_1.mp hNew).2)
  | clear force => cases force <;> exact (hDropped _ h).imp_right Or.inl
  | close => exact (hDropped _ h).imp_right Or.inl
  | _ => exact Or.inl h

structure Tidy (m : L1Manager K) : Prop where
  held_lt : ∀ k e, m.objects.get? k = some e → e.memoryObj < m.memory.allocated
  freed_lt : ∀ obj ∈ m.memory.freed, obj < m.memory.allocated
  write_ttl : ∀ k e, m.objects.get? k = some e → e.writeLock.ttlMs = m.writeTtlSeconds * 1000

theorem new_tidy (writeTtlSeconds readTtlSeconds nowMs : Nat) :
    (new writeTtlSeconds readTtlSeconds nowMs : L1Manager K).Tidy where
  held_lt := by simp [new]
  freed_lt := by simp [new]
  write_ttl := by simp [new]

theorem apply_writeTtlSeconds (m : L1Manager K) (op : L1Op K) :
    (m.apply op).manager.writeTtlSeconds = m.writeTtlSeconds := by
  cases op with
  | reserveWrite keys isTemporary mode outcome =>
    show (m.reserveWrite keys isTemporary mode outcome).manager.writeTtlSeconds = _
    rw [reserveWrite_eq]
  | clear force => cases force <;> rfl
  | _ => rfl

theorem Tidy.apply (h : m.Tidy) (op : L1Op K) : (m.apply op).manager.Tidy := by
  have hMono := (m.apply_monotone op).2
  constructor
  · intro k e' he'
    rcases apply_origin op he' with ⟨e, he, hMoved⟩ | ⟨obj, isTemporary, hLt, rfl⟩
    · rw [hMoved.memoryObj_eq]
      exact Nat.lt_of_lt_of_le (h.held_lt k e he) hMono
    · exact hLt
  · intro obj hObj
    rcases apply_freed op hObj with hOld | ⟨k, hk⟩ | hLt
    · exact Nat.lt_of_lt_of_le (h.freed_lt obj hOld) hMono
    · obtain ⟨e, he, rfl⟩ := heldBy_eq_some_iff.mp hk
      exact Nat.lt_of_lt_of_le (h.held_lt k e he) hMono
    · exact hLt
  · intro k e' he'
    rw [apply_writeTtlSeconds]
    rcases apply_origin op he' with ⟨e, he, hMoved⟩ | ⟨obj, isTemporary, -, rfl⟩
    · rw [hMoved.writeTtl_eq]
      exact h.write_ttl k e he
    · exact TTLLock.lock_ttlMs _ _

theorem run_writeTtlSeconds {writeTtl readTtl now : Nat} {ops : List (L1Op K)}
    (hRun : Run Step (new writeTtl readTtl now) ops m) : m.writeTtlSeconds = writeTtl :=
  hRun.invariant (I := fun m => m.writeTtlSeconds = writeTtl)
    (fun m op _ h hStep => hStep ▸ (m.apply_writeTtlSeconds op).trans h) rfl

end L1Manager

end LMCache
