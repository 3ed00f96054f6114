import LMCache.L1.Transitions

/-!
# Memory accounting of the L1 manager

The memory objects that were allocated and not freed are exactly the ones the object table
holds, no two keys hold the same one, and nothing is freed twice. A call changes the
account in one of three ways: it frees objects whose entries it removes, it gives a partial
allocation back, or it enters freshly allocated objects under keys that had none.
-/

namespace LMCache

open Lib List Option Dict

namespace L1Manager

variable {K : Type} [DecidableEq K]

def heldBy (m : L1Manager K) (k : K) : Option MemoryObj :=
  (m.objects.get? k).map fun e => e.memoryObj

theorem heldBy_eq_some_iff {m : L1Manager K} {k : K} {obj : MemoryObj} :
    m.heldBy k = some obj ↔ ∃ e, m.objects.get? k = some e ∧ e.memoryObj = obj := by
  simp [heldBy]

/-- Allocated and not freed equals held, with every object held once and freed once. -/
structure Accounted (m : L1Manager K) : Prop where
  freed_nodup : m.memory.freed.Nodup
  freed_lt : ∀ obj : Nat, obj ∈ m.memory.freed → obj < m.memory.allocated
  held_lt : ∀ k (obj : Nat), m.heldBy k = some obj → obj < m.memory.allocated
  held_not_freed : ∀ k (obj : Nat), m.heldBy k = some obj → obj ∉ m.memory.freed
  held_inj : ∀ k k' (obj : Nat), m.heldBy k = some obj → m.heldBy k' = some obj → k = k'
  live_held : ∀ obj : Nat, obj < m.memory.allocated → obj ∉ m.memory.freed →
    ∃ k, m.heldBy k = some obj

theorem new_accounted (writeTtlSeconds readTtlSeconds nowMs : Nat) :
    (new writeTtlSeconds readTtlSeconds nowMs : L1Manager K).Accounted where
  freed_nodup := nodup_nil
  freed_lt := by simp [new]
  held_lt := by simp [new, heldBy]
  held_not_freed := by simp [new, heldBy]
  held_inj := by simp [new, heldBy]
  live_held := by simp [new]

variable {m m' : L1Manager K}

theorem Accounted.congr (h : m.Accounted) (hHeld : ∀ k, m'.heldBy k = m.heldBy k)
    (hMemory : m'.memory = m.memory) : m'.Accounted where
  freed_nodup := hMemory ▸ h.freed_nodup
  freed_lt := hMemory ▸ h.freed_lt
  held_lt := fun k obj hk => hMemory ▸ h.held_lt k obj (hHeld k ▸ hk)
  held_not_freed := fun k obj hk => hMemory ▸ h.held_not_freed k obj (hHeld k ▸ hk)
  held_inj := fun k k' obj hk hk' => h.held_inj k k' obj (hHeld k ▸ hk) (hHeld k' ▸ hk')
  live_held := by
    intro obj hLt hNot
    rw [hMemory] at hLt hNot
    obtain ⟨k, hk⟩ := h.live_held obj hLt hNot
    exact ⟨k, (hHeld k).trans hk⟩

theorem Accounted.release (h : m.Accounted) {released : List MemoryObj} (hNodup : released.Nodup)
    (hRemoved : ∀ obj ∈ released, ∃ k, m.heldBy k = some obj ∧ m'.heldBy k = none)
    (hKept : ∀ k, m'.heldBy k = m.heldBy k ∨
      (m'.heldBy k = none ∧ ∀ obj, m.heldBy k = some obj → obj ∈ released))
    (hMemory : m'.memory = m.memory.free released) : m'.Accounted := by
  have hFreed : m'.memory.freed = m.memory.freed ++ released := by rw [hMemory]; rfl
  have hAllocated : m'.memory.allocated = m.memory.allocated := by rw [hMemory]; rfl
  have hBefore : ∀ k obj, m'.heldBy k = some obj → m.heldBy k = some obj := by
    intro k obj hk
    rcases hKept k with hSame | ⟨hNone, _⟩
    · exact hSame ▸ hk
    · rw [hNone] at hk
      cases hk
  refine ⟨?_, ?_, ?_, ?_, ?_, ?_⟩
  · rw [hFreed]
    refine nodup_append.mpr ⟨h.freed_nodup, hNodup, ?_⟩
    rintro obj hOld _ hNew rfl
    obtain ⟨k, hk, _⟩ := hRemoved obj hNew
    exact h.held_not_freed k obj hk hOld
  · intro obj hObj
    rw [hFreed] at hObj
    rw [hAllocated]
    rcases mem_append.mp hObj with hOld | hNew
    · exact h.freed_lt obj hOld
    · obtain ⟨k, hk, _⟩ := hRemoved obj hNew
      exact h.held_lt k obj hk
  · intro k obj hk
    rw [hAllocated]
    exact h.held_lt k obj (hBefore k obj hk)
  · intro k obj hk hObj
    rw [hFreed] at hObj
    rcases mem_append.mp hObj with hOld | hNew
    · exact h.held_not_freed k obj (hBefore k obj hk) hOld
    · -- the object is held by one key only, and that key was removed
      obtain ⟨k', hk', hGone⟩ := hRemoved obj hNew
      have hEq := h.held_inj k k' obj (hBefore k obj hk) hk'
      rw [hEq, hGone] at hk
      cases hk
  · intro k k' obj hk hk'
    exact h.held_inj k k' obj (hBefore k obj hk) (hBefore k' obj hk')
  · intro obj hLt hNot
    rw [hAllocated] at hLt
    rw [hFreed, mem_append, not_or] at hNot
    obtain ⟨k, hk⟩ := h.live_held obj hLt hNot.1
    rcases hKept k with hSame | ⟨_, hGone⟩
    · exact ⟨k, hSame.trans hk⟩
    · exact absurd (hGone obj hk) hNot.2

theorem Accounted.refuse (h : m.Accounted) (n : Nat) (hHeld : ∀ k, m'.heldBy k = m.heldBy k)
    (hMemory : m'.memory =
      { m.memory with
        allocated := m.memory.allocated + n
        freed := m.memory.freed ++ List.range' m.memory.allocated n }) : m'.Accounted := by
  have hFreed : m'.memory.freed = m.memory.freed ++ List.range' m.memory.allocated n := by
    rw [hMemory]
  have hAllocated : m'.memory.allocated = m.memory.allocated + n := by rw [hMemory]
  refine ⟨?_, ?_, ?_, ?_, ?_, ?_⟩
  · rw [hFreed]
    refine nodup_append.mpr ⟨h.freed_nodup, nodup_range', ?_⟩
    rintro (obj : Nat) hOld _ hNew rfl
    have hLt := h.freed_lt obj hOld
    have hGe := (mem_range'_1.mp hNew).1
    omega
  · intro obj hObj
    rw [hFreed] at hObj
    rw [hAllocated]
    rcases mem_append.mp hObj with hOld | hNew
    · have hLt := h.freed_lt obj hOld
      omega
    · exact (mem_range'_1.mp hNew).2
  · intro k obj hk
    have hLt := h.held_lt k obj (hHeld k ▸ hk)
    omega
  · intro k obj hk hObj
    rw [hHeld k] at hk
    rw [hFreed] at hObj
    rcases mem_append.mp hObj with hOld | hNew
    · exact h.held_not_freed k obj hk hOld
    · have hLt := h.held_lt k obj hk
      have hGe := (mem_range'_1.mp hNew).1
      omega
  · intro k k' obj hk hk'
    exact h.held_inj k k' obj (hHeld k ▸ hk) (hHeld k' ▸ hk')
  · intro obj hLt hNot
    rw [hFreed, mem_append, not_or, mem_range'_1] at hNot
    obtain ⟨k, hk⟩ := h.live_held obj (by omega) hNot.1
    exact ⟨k, (hHeld k).trans hk⟩

theorem Accounted.enter (h : m.Accounted) {n : Nat} (entered : K → Option MemoryObj)
    (hHeld : ∀ k, m'.heldBy k = (entered k).or (m.heldBy k))
    (hAbsent : ∀ k obj, entered k = some obj → m.heldBy k = none)
    (hRange : ∀ k (obj : Nat), entered k = some obj →
      m.memory.allocated ≤ obj ∧ obj < m.memory.allocated + n)
    (hInj : ∀ k k' obj, entered k = some obj → entered k' = some obj → k = k')
    (hSurj : ∀ obj : Nat, m.memory.allocated ≤ obj → obj < m.memory.allocated + n →
      ∃ k, entered k = some obj)
    (hMemory : m'.memory = { m.memory with allocated := m.memory.allocated + n }) :
    m'.Accounted := by
  have hFreed : m'.memory.freed = m.memory.freed := by rw [hMemory]
  have hAllocated : m'.memory.allocated = m.memory.allocated + n := by rw [hMemory]
  have hCases : ∀ k (obj : Nat), m'.heldBy k = some obj →
      entered k = some obj ∨ m.heldBy k = some obj := by
    intro k obj hk
    rw [hHeld k] at hk
    cases hEntered : entered k with
    | none =>
      right
      simpa [hEntered] using hk
    | some new =>
      left
      simpa [hEntered] using hk
  refine ⟨hFreed ▸ h.freed_nodup, ?_, ?_, ?_, ?_, ?_⟩
  · intro obj hObj
    have hLt := h.freed_lt obj (hFreed ▸ hObj)
    omega
  · intro k obj hk
    rcases hCases k obj hk with hNew | hOld
    · have hBound := hRange k obj hNew
      omega
    · have hLt := h.held_lt k obj hOld
      omega
  · intro k obj hk hObj
    rw [hFreed] at hObj
    rcases hCases k obj hk with hNew | hOld
    · have hBound := hRange k obj hNew
      have hLt := h.freed_lt obj hObj
      omega
    · exact h.held_not_freed k obj hOld hObj
  · intro k k' obj hk hk'
    -- a fresh serial and an old one never meet
    rcases hCases k obj hk with hNew | hOld <;> rcases hCases k' obj hk' with hNew' | hOld'
    · exact hInj k k' obj hNew hNew'
    · have hBound := hRange k obj hNew
      have hLt := h.held_lt k' obj hOld'
      omega
    · have hBound := hRange k' obj hNew'
      have hLt := h.held_lt k obj hOld
      omega
    · exact h.held_inj k k' obj hOld hOld'
  · intro obj hLt hNot
    rw [hFreed] at hNot
    by_cases hOld : obj < m.memory.allocated
    · obtain ⟨k, hk⟩ := h.live_held obj hOld hNot
      refine ⟨k, ?_⟩
      rw [hHeld k]
      cases hEntered : entered k with
      | none => simpa using hk
      | some new =>
        rw [hAbsent k new hEntered] at hk
        cases hk
    · obtain ⟨k, hk⟩ := hSurj obj (by omega) (by omega)
      exact ⟨k, by rw [hHeld k, hk, some_or]⟩

/-- A loop body that reports a memory object for freeing exactly when it removes its entry. -/
def Frees (f : K → Option L1ObjectState → (L1Error × Option MemoryObj) × Option L1ObjectState) :
    Prop :=
  ∀ k o,
    (∃ e, o = some e ∧ (f k o).1.2 = some e.memoryObj ∧ (f k o).2 = none) ∨
    ((f k o).1.2 = none ∧ (f k o).2.map L1ObjectState.memoryObj = o.map L1ObjectState.memoryObj)

omit [DecidableEq K] in
theorem finishReadKey_frees (now total : Nat) : Frees (finishReadKey now total : K → _) := by
  intro k o
  cases o with
  | none => exact Or.inr ⟨rfl, rfl⟩
  | some e =>
    simp only [finishReadKey]
    split
    · exact Or.inr ⟨rfl, rfl⟩
    · split
      · exact Or.inr ⟨rfl, rfl⟩
      · split
        · exact Or.inl ⟨e, rfl, rfl, rfl⟩
        · exact Or.inr ⟨rfl, rfl⟩

omit [DecidableEq K] in
theorem deleteKey_frees (force : Bool) (now : Nat) : Frees (deleteKey force now : K → _) := by
  intro k o
  cases o with
  | none => exact Or.inr ⟨rfl, rfl⟩
  | some e =>
    simp only [deleteKey]
    split
    · exact Or.inr ⟨rfl, rfl⟩
    · exact Or.inl ⟨e, rfl, rfl, rfl⟩

theorem Accounted.updateEach (h : m.Accounted)
    {f : K → Option L1ObjectState → (L1Error × Option MemoryObj) × Option L1ObjectState}
    (hf : Frees f) {keys : List K} (hKeys : keys.Nodup) :
    ({ m with
      objects := (Dict.updateEach f keys m.objects).2
      memory := m.memory.free (needToFree (Dict.updateEach f keys m.objects).1) }
      : L1Manager K).Accounted := by
  have hReleased : needToFree (Dict.updateEach f keys m.objects).1 =
      keys.filterMap fun k => (f k (m.objects.get? k)).1.2 := by
    rw [needToFree, updateEach_outcomes f hKeys, filterMap_map]
    rfl
  have hHolds : ∀ k obj, (f k (m.objects.get? k)).1.2 = some obj →
      m.heldBy k = some obj ∧ (f k (m.objects.get? k)).2 = none := by
    intro k obj hObj
    rcases hf k (m.objects.get? k) with ⟨e, hEntry, hOut, hGone⟩ | ⟨hOut, _⟩
    · rw [hObj, Option.some.injEq] at hOut
      refine ⟨?_, hGone⟩
      rw [heldBy, hEntry, map_some, hOut]
    · rw [hObj] at hOut
      cases hOut
  refine h.release ?_ ?_ ?_ rfl
  · rw [hReleased]
    refine hKeys.filterMap ?_
    intro k k' obj hk hk'
    exact h.held_inj k k' obj (hHolds k obj hk).1 (hHolds k' obj hk').1
  · intro obj hObj
    rw [hReleased] at hObj
    obtain ⟨k, hk, hOut⟩ := mem_filterMap.mp hObj
    obtain ⟨hBefore, hGone⟩ := hHolds k obj hOut
    refine ⟨k, hBefore, ?_⟩
    rw [heldBy]
    simp only [get?_updateEach f hKeys, if_pos hk, hGone, map_none]
  · intro k
    rw [heldBy]
    simp only [get?_updateEach f hKeys]
    by_cases hk : k ∈ keys
    · rw [if_pos hk]
      rcases hf k (m.objects.get? k) with ⟨e, hEntry, hOut, hGone⟩ | ⟨_, hSame⟩
      · right
        refine ⟨by rw [hGone]; rfl, ?_⟩
        intro obj hObj
        rw [hReleased]
        refine mem_filterMap.mpr ⟨k, hk, ?_⟩
        rw [heldBy, hEntry, map_some] at hObj
        rw [hOut, hObj]
      · exact Or.inl hSame
    · rw [if_neg hk]
      exact Or.inl rfl

theorem Accounted.dropObjects (h : m.Accounted) (cleared : L1ObjectState → Bool) :
    (m.dropObjects cleared).Accounted := by
  have hMem : ∀ k e, (k, e) ∈ (m.objects.filter fun _ e => cleared e).entries →
      m.objects.get? k = some e ∧ cleared e = true := by
    intro k e hke
    have hFind := get?_eq_some_iff.mpr hke
    rw [get?_filter] at hFind
    obtain ⟨hEntry, hCleared⟩ := filter_eq_some_iff.mp hFind
    exact ⟨hEntry, hCleared⟩
  refine h.release ?_ ?_ ?_ rfl
  · -- entries of one dictionary have distinct keys, and distinct keys hold distinct objects
    rw [Dict.values, List.map_map]
    refine List.Nodup.map_on ?_ (List.Nodup.of_map _ (m.objects.filter _).nodup)
    rintro ⟨k, e⟩ hke ⟨k', e'⟩ hke' hEq
    obtain ⟨hEntry, _⟩ := hMem k e hke
    obtain ⟨hEntry', _⟩ := hMem k' e' hke'
    have hk : k = k' := h.held_inj k k' e.memoryObj
      (heldBy_eq_some_iff.mpr ⟨e, hEntry, rfl⟩) (heldBy_eq_some_iff.mpr ⟨e', hEntry', hEq.symm⟩)
    subst hk
    rw [hEntry, Option.some.injEq] at hEntry'
    rw [hEntry']
  · intro obj hObj
    obtain ⟨e, he, rfl⟩ := List.mem_map.mp hObj
    obtain ⟨⟨k, e'⟩, hke, rfl⟩ := List.mem_map.mp he
    obtain ⟨hEntry, hCleared⟩ := hMem k e' hke
    refine ⟨k, heldBy_eq_some_iff.mpr ⟨e', hEntry, rfl⟩, ?_⟩
    simp [heldBy, L1Manager.dropObjects, get?_filter, hEntry, hCleared]
  · intro k
    simp only [heldBy, L1Manager.dropObjects, get?_filter]
    cases hEntry : m.objects.get? k with
    | none => exact Or.inl rfl
    | some e =>
      cases hCleared : cleared e with
      | false =>
        left
        simp [filter_some, hCleared]
      | true =>
        right
        refine ⟨by simp [filter_some, hCleared], ?_⟩
        intro obj hObj
        have hMemE : (k, e) ∈ (m.objects.filter fun _ e => cleared e).entries := by
          rw [← get?_eq_some_iff, get?_filter, hEntry, filter_some, if_pos hCleared]
        rw [map_some, Option.some.injEq] at hObj
        exact List.mem_map.mpr ⟨e, List.mem_map.mpr ⟨_, hMemE, rfl⟩, hObj⟩

/-- A loop body that never changes which memory object is held. -/
def KeepsObject {ρ : Type} (f : K → Option L1ObjectState → ρ × Option L1ObjectState) : Prop :=
  ∀ k o, (f k o).2.map L1ObjectState.memoryObj = o.map L1ObjectState.memoryObj

theorem heldBy_updateEach {ρ : Type} {f : K → Option L1ObjectState → ρ × Option L1ObjectState}
    (hf : KeepsObject f) {keys : List K} (hKeys : keys.Nodup) (k : K) :
    ((Dict.updateEach f keys m.objects).2.get? k).map L1ObjectState.memoryObj = m.heldBy k := by
  rw [get?_updateEach f hKeys, heldBy]
  split
  · exact hf k (m.objects.get? k)
  · rfl

omit [DecidableEq K] in
theorem reserveReadKey_keeps (now total : Nat) :
    KeepsObject (reserveReadKey now total : K → _) := by
  intro k o
  cases o with
  | none => rfl
  | some e =>
    simp only [reserveReadKey]
    split <;> rfl

omit [DecidableEq K] in
theorem unsafeReadKey_keeps (now : Nat) : KeepsObject (unsafeReadKey now : K → _) := by
  intro k o
  cases o with
  | none => rfl
  | some e =>
    simp only [unsafeReadKey]
    split <;> rfl

omit [DecidableEq K] in
theorem probeWriteKey_keeps (mode : WriteMode) (now : Nat) :
    KeepsObject (probeWriteKey mode now : K → _) := by
  intro k o
  cases o with
  | none => rfl
  | some e =>
    simp only [probeWriteKey]
    split
    · rfl
    · split <;> rfl

omit [DecidableEq K] in
theorem finishWriteKey_keeps (now : Nat) : KeepsObject (finishWriteKey now : K → _) := by
  intro k o
  cases o with
  | none => rfl
  | some e =>
    simp only [finishWriteKey]
    split
    · rfl
    · split <;> rfl

omit [DecidableEq K] in
theorem finishWriteAndReserveReadKey_keeps (now total : Nat) :
    KeepsObject (finishWriteAndReserveReadKey now total : K → _) := by
  intro k o
  cases o with
  | none => rfl
  | some e =>
    simp only [finishWriteAndReserveReadKey]
    split
    · rfl
    · split <;> rfl

/-- The serial a successful allocation enters under `k`. -/
def enteredAt (needed : List (K × Bool)) (start : Nat) (k : K) : Option MemoryObj :=
  Dict.find k ((needed.zip (List.range' start needed.length)).map fun a => (a.1.1, a.2))

theorem enteredAt_eq_some_iff {needed : List (K × Bool)} (hNeeded : (needed.map Prod.fst).Nodup)
    (start : Nat) (k : K) (obj : Nat) :
    enteredAt needed start k = some obj ↔
      start ≤ obj ∧ ∃ b, needed[obj - start]? = some (k, b) := by
  have hKeys : (((needed.zip (List.range' start needed.length)).map
      fun a => (a.1.1, a.2)).map Prod.fst).Nodup := by
    rw [List.map_map]
    exact zip_objs_nodup hNeeded _
  rw [enteredAt, find_eq_some_iff hKeys, ← zipIdx_eq_zip_range', List.mem_map]
  constructor
  · rintro ⟨⟨⟨k', b⟩, obj'⟩, ha, hEq⟩
    obtain ⟨rfl, rfl⟩ := Prod.mk.injEq .. ▸ hEq
    obtain ⟨hLe, hGet⟩ := mem_zipIdx_iff_le_and_getElem?_sub.mp ha
    exact ⟨hLe, b, hGet⟩
  · rintro ⟨hLe, b, hGet⟩
    exact ⟨((k, b), obj), mem_zipIdx_iff_le_and_getElem?_sub.mpr ⟨hLe, hGet⟩, rfl⟩

theorem Accounted.reserveWrite (h : m.Accounted) {keys : List K} (hKeys : keys.Nodup)
    (isTemporary : List Bool) (mode : WriteMode) (outcome : AllocOutcome) :
    (m.reserveWrite keys isTemporary mode outcome).manager.Accounted := by
  have hPairs := zip_keys_nodup hKeys isTemporary
  have hProbe := heldBy_updateEach (m := m) (probeWriteKey_keeps mode m.nowMs) hPairs
  obtain ⟨-, memory, -, -, hMemory, hAfter⟩ | ⟨-, hAfter⟩ :=
    m.reserveWrite_outcomes keys isTemporary mode outcome
  · rw [hAfter]
    rcases hMemory with rfl | ⟨n, rfl⟩
    · exact h.congr hProbe rfl
    · exact h.refuse n hProbe rfl
  · have hNeeded := missing_nodup (m := m) hPairs
    have hEntered := fun k obj => enteredAt_eq_some_iff hNeeded m.memory.allocated k obj
    rw [hAfter]
    refine h.enter (enteredAt (m.missing (keys.zip isTemporary)) m.memory.allocated)
      ?_ ?_ ?_ ?_ ?_ rfl
    · intro k
      rw [heldBy, enteredAt]
      simp only [get?_enterAllocated hNeeded]
      rw [map_or, hProbe, find_map (fun a : (K × Bool) × MemoryObj => a.1.1)
        (fun a => a.2), Option.map_map]
      rfl
    · intro k obj hk
      obtain ⟨-, b, hb⟩ := (hEntered k obj).mp hk
      rw [heldBy, mem_missing (mem_of_getElem? hb)]
      rfl
    · intro k obj hk
      obtain ⟨hLe, b, hb⟩ := (hEntered k obj).mp hk
      have hLt := (List.getElem?_eq_some_iff.mp hb).1
      omega
    · intro k k' obj hk hk'
      obtain ⟨-, b, hb⟩ := (hEntered k obj).mp hk
      obtain ⟨-, b', hb'⟩ := (hEntered k' obj).mp hk'
      rw [hb, Option.some.injEq, Prod.mk.injEq] at hb'
      exact hb'.1
    · intro obj hLe hLt
      have hIndex : obj - m.memory.allocated < (m.missing (keys.zip isTemporary)).length := by
        omega
      exact ⟨_, (hEntered _ obj).mpr ⟨hLe, _, getElem?_eq_getElem hIndex⟩⟩

theorem Accounted.apply (h : m.Accounted) {op : L1Op K} (hKeys : op.keys.Nodup) :
    (m.apply op).manager.Accounted := by
  cases op with
  | reserveRead keys readLocks =>
    exact h.congr (heldBy_updateEach (reserveReadKey_keeps _ _) hKeys) rfl
  | unsafeRead keys => exact h.congr (heldBy_updateEach (unsafeReadKey_keeps _) hKeys) rfl
  | finishRead keys readLocks => exact h.updateEach (finishReadKey_frees _ _) hKeys
  | reserveWrite keys isTemporary mode outcome =>
    exact h.reserveWrite hKeys isTemporary mode outcome
  | finishWrite keys => exact h.congr (heldBy_updateEach (finishWriteKey_keeps _) hKeys) rfl
  | finishWriteAndReserveRead keys readLocks =>
    exact h.congr (heldBy_updateEach (finishWriteAndReserveReadKey_keeps _ _) hKeys) rfl
  | delete keys force => exact h.updateEach (deleteKey_frees _ _) hKeys
  | touchKeys keys => exact h
  | clear force =>
    cases force with
    | true => exact h.dropObjects _
    | false => exact h.dropObjects _
  | close => exact h.dropObjects _
  | elapse ms => exact h.congr (fun _ => rfl) rfl

end L1Manager

end LMCache
