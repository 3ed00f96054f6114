import LMCache.L1.Owners

/-!
# Keys that a call does not name

A call leaves the entry of a key it does not name as it is, unless it removes objects. The
same holds of an unforced `delete` for the keys it does name. Only `finish_write` tells the
listeners of finished writes, and only of keys it names.
-/

namespace LMCache

open Lib Dict List

namespace L1Manager

variable {K : Type} [DecidableEq K] {m : L1Manager K} {op : L1Op K} {k : K}

def KeptOrGone (m m' : L1Manager K) (k : K) : Prop :=
  m'.objects.get? k = m.objects.get? k ∨ m'.objects.get? k = none

theorem dropObjects_keptOrGone (cleared : L1ObjectState → Bool) :
    m.KeptOrGone (m.dropObjects cleared) k := by
  simp only [KeptOrGone, dropObjects, get?_filter]
  cases hEntry : m.objects.get? k with
  | none => exact Or.inl rfl
  | some e => cases hDrop : cleared e <;> simp [hDrop]

theorem get?_enterAllocated_of_not_mem {needed : List (K × Bool)} (objs : List MemoryObj)
    (hk : k ∉ needed.map Prod.fst) (d : Dict K L1ObjectState) :
    (m.enterAllocated needed objs d).get? k = d.get? k := by
  have hPairs : ∀ a ∈ needed.zip objs, a.1.1 ≠ k := by
    intro a ha hEq
    exact hk (mem_map.mpr ⟨a.1, (of_mem_zip ha).1, hEq⟩)
  unfold enterAllocated
  generalize needed.zip objs = pairs at hPairs
  induction pairs generalizing d with
  | nil => rfl
  | cons a rest ih =>
    rw [foldl_cons, ih _ fun b hb => hPairs b (mem_cons_of_mem _ hb),
      get?_set_ne _ (hPairs a mem_cons_self)]

theorem get?_reserveWrite_of_not_mem {keys : List K} (isTemporary : List Bool)
    (mode : WriteMode) (outcome : AllocOutcome) (hk : k ∉ keys) :
    (m.reserveWrite keys isTemporary mode outcome).manager.objects.get? k = m.objects.get? k := by
  have hPairs : k ∉ (keys.zip isTemporary).map Prod.fst := fun h => hk (mem_zip_keys h)
  obtain ⟨err, memory, -, -, -, hAfter⟩ | ⟨-, hAfter⟩ :=
    m.reserveWrite_outcomes keys isTemporary mode outcome
  · rw [hAfter]
    exact get?_updateEach_of_not_mem _ hPairs _
  · rw [hAfter]
    refine (get?_enterAllocated_of_not_mem _ (fun hMem => ?_) _).trans
      (get?_updateEach_of_not_mem _ hPairs _)
    exact hPairs (mem_missing_keys_iff.mp hMem).2

theorem apply_keptOrGone (hk : k ∉ op.keys) : m.KeptOrGone (m.apply op).manager k := by
  cases op with
  | reserveRead keys readLocks => exact Or.inl (get?_updateEach_of_not_mem _ hk _)
  | unsafeRead keys | finishRead keys readLocks => exact Or.inl (get?_updateEach_of_not_mem _ hk _)
  | reserveWrite keys isTemporary mode outcome =>
    exact Or.inl (get?_reserveWrite_of_not_mem isTemporary mode outcome hk)
  | finishWrite keys => exact Or.inl (get?_updateEach_of_not_mem _ hk _)
  | finishWriteAndReserveRead keys readLocks =>
    exact Or.inl (get?_updateEach_of_not_mem _ hk _)
  | delete keys force => exact Or.inl (get?_updateEach_of_not_mem _ hk _)
  | touchKeys keys => exact Or.inl rfl
  | clear force => cases force <;> exact dropObjects_keptOrGone _
  | close => exact dropObjects_keptOrGone _
  | elapse ms => exact Or.inl rfl

theorem delete_keptOrGone (m : L1Manager K) (keys : List K) (force : Bool) (k : K) :
    m.KeptOrGone (m.apply (.delete keys force)).manager k := by
  refine updateEach_binding _ (P := fun o => o = m.objects.get? k ∨ o = none) ?_ keys (Or.inl rfl)
  rintro o (rfl | rfl)
  · cases m.objects.get? k with
    | none => exact Or.inl rfl
    | some e =>
      rw [deleteKey]
      split
      · exact Or.inl rfl
      · exact Or.inr rfl
  · exact Or.inr rfl

theorem reserveRead_absent (keys : List K) (readLocks : Nat) (hNone : m.objects.get? k = none) :
    (m.reserveRead keys readLocks).manager.objects.get? k = none ∧
      ∀ r, (m.reserveRead keys readLocks).reply.get? k = some r → r = (.keyNotExist, none) := by
  have hKeeps : ∀ o : Option L1ObjectState, o = none →
      (reserveReadKey m.nowMs (validateReadLocks readLocks) k o).2 = none := by
    rintro o rfl
    rfl
  refine ⟨updateEach_binding _ (P := fun o => o = none) hKeeps keys hNone, fun r hr => ?_⟩
  obtain ⟨o, rfl, rfl, -⟩ := updateEach_mem _ (P := fun o => o = none)
    (Q := fun _ => True) hKeeps (fun _ _ => trivial) hNone (mem_of_get?_ofList hr)
  rfl

theorem reserveWrite_created {keys : List K} {isTemporary : List Bool} {mode : WriteMode}
    {outcome : AllocOutcome} {e : L1ObjectState} (hNone : m.objects.get? k = none)
    (he : (m.reserveWrite keys isTemporary mode outcome).manager.objects.get? k = some e) :
    ∃ obj flag, flag ∈ isTemporary ∧ e = m.reservedState obj flag := by
  have hProbe : (Dict.updateEach (probeWriteKey mode m.nowMs)
      ((keys.zip isTemporary).map Prod.fst) m.objects).2.get? k = none := by
    refine updateEach_binding _ (P := fun o => o = none) ?_ _ hNone
    rintro o rfl
    rfl
  obtain ⟨err, memory, -, -, -, hAfter⟩ | ⟨-, hAfter⟩ :=
    m.reserveWrite_outcomes keys isTemporary mode outcome
  · rw [hAfter] at he
    cases hProbe.symm.trans he
  · rw [hAfter] at he
    simp only [enterAllocated] at he
    rw [← foldl_map (f := fun a : (K × Bool) × MemoryObj =>
      (a.1.1, m.reservedState a.2 a.1.2))
      (g := fun (d : Dict K L1ObjectState) e => d.set e.1 e.2)] at he
    rcases mem_of_get?_foldl_set he with hMem | ⟨hOld, -⟩
    · obtain ⟨a, ha, hEq⟩ := mem_map.mp hMem
      cases hEq
      have hPair := (mem_filter.mp (of_mem_zip ha).1).1
      exact ⟨a.2, a.1.2, (of_mem_zip hPair).2, rfl⟩
    · cases hProbe.symm.trans hOld

theorem mem_writeFinished {keys : List K} (h : .writeFinished keys ∈ (m.apply op).events)
    (hk : k ∈ keys) : ∃ named, op = .finishWrite named ∧ k ∈ named := by
  cases op with
  | finishWrite named =>
    refine ⟨named, rfl, ?_⟩
    obtain rfl : keys = successfulKeys id (Dict.updateEach (finishWriteKey m.nowMs) named
        m.objects).1 := by
      simpa [apply, L1Outcome.map, finishWrite] using h
    obtain ⟨o, ho, rfl⟩ := mem_map.mp hk
    have hMem := mem_map_of_mem (f := Prod.fst) (mem_filter.mp ho).1
    rwa [updateEach_keys] at hMem
  | reserveWrite named isTemporary mode outcome =>
    exfalso
    simp only [apply, L1Outcome.map, reserveWrite] at h
    split at h
    · cases h
    · split at h
      · cases h
      · split at h <;> simp at h
  | clear force =>
    exfalso
    cases force
    · simp only [apply, L1Outcome.map, clear, Bool.false_eq_true, if_false] at h
      split at h <;> simp at h
    · simp [apply, L1Outcome.map, clear] at h
  | _ => simp [apply, L1Outcome.map, reserveRead, unsafeRead, finishRead,
      finishWriteAndReserveRead, delete, touchKeys, close] at h

end L1Manager

end LMCache
