import LMCache.Lib.ExactFloat
import LMCache.RawBlock.CheckpointSpec
import LMCache.RawBlock.Batches
import Mathlib.Data.Set.Finite.List

/-!
# Slots of a recovered store

A recovered store is sound exactly when every valid entry of the checkpoint lies below its
`next_slot` and no entry that is kept shares its slot with another valid one. Otherwise a run
of stores of fresh keys is handed a slot that has an entry: the slots still to come are the
free list from its end and then those from `nextSlot` on, and each store takes the first.
-/

namespace LMCache.RawBlock

open Lib Dict List

/-- No two entries share a slot, every slot is one of the device, and no slot allocated after
any run of the store has an entry. -/
structure KeepsOwnership {layout : Layout} {K M : Type} [DecidableEq K]
    (s : Store layout K M) : Prop where
  distinct : ∀ k k' e e', s.index.get? k = some e → s.index.get? k' = some e' → k ≠ k' →
    Store.slotOf layout e ≠ Store.slotOf layout e'
  lt_maxSlots : ∀ k e, s.index.get? k = some e → Store.slotOf layout e < layout.maxSlots
  unallocated : ∀ (events : List (StoreEvent K M)) (t : Store layout K M)
    (placementId : Option Nat) (slot : Nat) (pool : SlotPool layout.maxSlots),
    Run Store.Step s events t → t.pool.allocate placementId = some (slot, pool) →
      ∀ k e, t.index.get? k = some e → Store.slotOf layout e ≠ slot

namespace SlotPool

variable {maxSlots : Nat} {pool : SlotPool maxSlots}

/-- The slots that allocations without a placement identifier hand out, in order. -/
def future (pool : SlotPool maxSlots) : List Nat :=
  pool.freeSlots.reverse ++ List.range' pool.nextSlot (maxSlots - pool.nextSlot)

theorem mem_future {slot : Nat} : slot ∈ pool.future ↔
    slot ∈ pool.freeSlots ∨ pool.nextSlot ≤ slot ∧ slot < maxSlots := by
  have hNext := pool.nextSlot_le
  rw [future, mem_append, mem_reverse, mem_range'_1]
  exact or_congr_right (by omega)

theorem lt_nextSlot_of_nodup_future (h : pool.future.Nodup) {s : Nat}
    (hMem : s ∈ pool.freeSlots) : s < pool.nextSlot := by
  by_contra hGe
  refine disjoint_of_nodup_append h (mem_reverse.mpr hMem) ?_
  have hNext := pool.nextSlot_le
  have hLt := pool.freeSlots_lt s hMem
  exact mem_range'_1.mpr (by omega)

theorem allocate_none {slot : Nat} {rest : List Nat} (h : pool.future = slot :: rest) :
    ∃ pool', pool.allocate none = some (slot, pool') ∧ pool'.future = rest := by
  have hAffinity : pool.affinitySlot none = none := by
    rw [affinitySlot]
    split <;> rfl
  unfold allocate
  rw [hAffinity]
  dsimp only
  rcases eq_nil_or_concat pool.freeSlots with hEmpty | ⟨front, last, hFree⟩
  · have hLast : pool.freeSlots.getLast? = none := getLast?_eq_none_iff.mpr hEmpty
    rw [future, hEmpty, reverse_nil, nil_append] at h
    have hNext : pool.nextSlot < maxSlots := by
      by_contra hGe
      rw [Nat.sub_eq_zero_of_le (Nat.le_of_not_lt hGe)] at h
      cases h
    obtain ⟨n, hn⟩ := Nat.exists_eq_succ_of_ne_zero (Nat.sub_ne_zero_of_lt hNext)
    rw [hn, range'_succ] at h
    obtain ⟨rfl, rfl⟩ := List.cons.inj h
    split
    · rename_i hSome
      rw [hLast] at hSome
      cases hSome
    · rw [dif_pos hNext]
      refine ⟨_, rfl, ?_⟩
      rw [future]
      dsimp only
      rw [hEmpty, reverse_nil, nil_append]
      congr 1
      omega
  · rw [concat_eq_append] at hFree
    have hLast : pool.freeSlots.getLast? = some last := by
      rw [hFree, getLast?_concat]
    rw [future, hFree, reverse_concat, cons_append] at h
    obtain ⟨rfl, rfl⟩ := List.cons.inj h
    split
    · rename_i found hSome
      rw [hLast] at hSome
      cases hSome
      refine ⟨_, rfl, ?_⟩
      have hNodup := pool.freeSlots_nodup
      rw [hFree, nodup_append] at hNodup
      have hNot : last ∉ front := fun hMem =>
        hNodup.2.2 last hMem last (mem_singleton.mpr rfl) rfl
      rw [future, takeSlot]
      dsimp only
      rw [hFree, erase_append_right _ hNot, erase_cons_head, append_nil]
    · rename_i hNone
      rw [hLast] at hNone
      cases hNone

end SlotPool

namespace Store

variable {layout : Layout} {K M : Type} [DecidableEq K] {s t : Store layout K M}

/-- After a run that stores fresh keys, `m` slots are gone and each has an entry. -/
structure Drained (s : Store layout K M) (m : Nat) (t : Store layout K M) : Prop where
  future : t.pool.future = s.pool.future.drop m
  kept : ∀ k e, s.index.get? k = some e → t.index.get? k = some e
  taken : ∀ i < m, ∀ slot, s.pool.future[i]? = some slot →
    ∃ k e, t.index.get? k = some e ∧ slotOf layout e = slot
  idle : t.inflight = Dict.empty

theorem exists_fresh [Infinite K] (s : Store layout K M) : ∃ k, s.index.get? k = none := by
  obtain ⟨k, hk⟩ := Infinite.exists_notMem_finset s.index.keys.toFinset
  exact ⟨k, get?_eq_none_iff.mpr fun hMem => hk (mem_toFinset.mpr hMem)⟩

theorem store_fresh [Infinite K] (hIdle : t.inflight = Dict.empty) (info : M) {slot : Nat}
    {rest : List Nat} (hFuture : t.pool.future = slot :: rest) :
    ∃ k u events, Run Step t events u ∧ t.index.get? k = none ∧ u.pool.future = rest ∧
      u.index = t.index.set k ⟨layout.slotToOffset slot, 0, info⟩ ∧ u.inflight = Dict.empty := by
  obtain ⟨k, hFresh⟩ := exists_fresh t
  obtain ⟨pool, hAllocate, hRest⟩ := SlotPool.allocate_none hFuture
  let i := reservation layout slot 0 info
  let granted : Store layout K M := { t with inflight := t.inflight.set k i, pool }
  let stored : Store layout K M := { granted with
    index := t.index.set k i.toEntry, inflight := granted.inflight.erase k }
  have hReserve : t.reserve k none 0 info = (.granted, granted) := by
    have hAbsent : t.index.contains k = false := by
      rw [Dict.contains, hFresh]
      rfl
    have hNone : t.inflight.contains k = false := by
      rw [hIdle]
      rfl
    rw [reserve, hAbsent, hNone, hAllocate]
    rfl
  have hCommit : granted.commit k true = some (true, stored) := by
    have hGet : granted.inflight.get? k = some i := get?_set_self _ _ _
    rw [commit, hGet]
    rfl
  have hFirst : Step t (.reserve k none 0 info) granted :=
    congrArg (fun r => some (Prod.snd r)) hReserve
  have hSecond : Step granted (.commit k true) stored := congrArg (Option.map Prod.snd) hCommit
  refine ⟨k, stored, _, .snoc (.single hFirst) hSecond, hFresh, hRest, rfl, ?_⟩
  apply Dict.ext
  have hPerm := entries_perm_erase (get?_set_self t.inflight k i)
  have hNil : t.inflight.get? k = none := by
    rw [hIdle]
    rfl
  have hLength := hPerm.length_eq
  rw [entries_set_of_get?_eq_none hNil, hIdle, length_cons] at hLength
  have hZero : ((Dict.empty.set k i).erase k).entries.length = 0 := (Nat.succ.inj hLength).symm
  change (((t.inflight.set k i)).erase k).entries = _
  rw [hIdle]
  exact length_eq_zero_iff.mp hZero

theorem exists_drained [Infinite K] (hIdle : s.inflight = Dict.empty) (info : M) {m : Nat}
    (hm : m ≤ s.pool.future.length) : ∃ events t, Run Step s events t ∧ s.Drained m t := by
  induction m with
  | zero => exact ⟨[], s, .nil s, ⟨rfl, fun _ _ h => h, fun i hi => absurd hi (Nat.not_lt_zero i),
      hIdle⟩⟩
  | succ m ih =>
    obtain ⟨events, t, hRun, hDrained⟩ := ih (Nat.le_of_succ_le hm)
    have hFuture := hDrained.future
    rw [drop_eq_getElem_cons hm] at hFuture
    obtain ⟨k, u, more, hMore, hFresh, hRest, hIndex, hIdle'⟩ :=
      store_fresh hDrained.idle info hFuture
    have hKept : ∀ k' e, t.index.get? k' = some e → u.index.get? k' = some e := by
      intro k' e hGet
      have hNe : k ≠ k' := by
        rintro rfl
        rw [hFresh] at hGet
        cases hGet
      rw [hIndex, get?_set_ne _ hNe, hGet]
    refine ⟨events ++ more, u, hRun.trans hMore, ⟨hRest, ?_, ?_, hIdle'⟩⟩
    · exact fun k' e hGet => hKept k' e (hDrained.kept k' e hGet)
    · intro i hi slot hSlot
      rcases Nat.lt_succ_iff_lt_or_eq.mp hi with hLt | rfl
      · obtain ⟨k', e, hGet, hEq⟩ := hDrained.taken i hLt slot hSlot
        exact ⟨k', e, hKept k' e hGet, hEq⟩
      · rw [getElem?_eq_getElem hm] at hSlot
        cases hSlot
        refine ⟨k, _, by rw [hIndex, get?_set_self], ?_⟩
        exact offsetToSlot_slotToOffset layout _

/-- A store that keeps ownership never hands out a slot with an entry, nor one twice. -/
theorem future_of_keepsOwnership [Infinite K] (h : KeepsOwnership s)
    (hIdle : s.inflight = Dict.empty) (info : M) :
    (∀ k e, s.index.get? k = some e → slotOf layout e ∉ s.pool.future) ∧ s.pool.future.Nodup := by
  -- the slot at place `m` is allocated after `m` stores
  have hAllocated : ∀ m slot, s.pool.future[m]? = some slot → ∃ events t pool,
      Run Step s events t ∧ s.Drained m t ∧ t.pool.allocate none = some (slot, pool) := by
    intro m slot hSlot
    obtain ⟨hm, rfl⟩ := List.getElem?_eq_some_iff.mp hSlot
    obtain ⟨events, t, hRun, hDrained⟩ := exists_drained hIdle info (Nat.le_of_lt hm)
    have hFuture := hDrained.future
    rw [drop_eq_getElem_cons hm] at hFuture
    obtain ⟨pool, hAllocate, -⟩ := SlotPool.allocate_none hFuture
    exact ⟨events, t, pool, hRun, hDrained, hAllocate⟩
  constructor
  · intro k e hGet hMem
    obtain ⟨m, hSlot⟩ := mem_iff_getElem?.mp hMem
    obtain ⟨events, t, pool, hRun, hDrained, hAllocate⟩ := hAllocated m _ hSlot
    exact h.unallocated events t none _ pool hRun hAllocate k e (hDrained.kept k e hGet) rfl
  · rw [nodup_iff_getElem?_ne_getElem?]
    intro i j hLt hj hEq
    obtain ⟨events, t, pool, hRun, hDrained, hAllocate⟩ :=
      hAllocated j _ (getElem?_eq_getElem hj)
    obtain ⟨k, e, hGet, hSame⟩ := hDrained.taken i hLt _ (hEq.trans (getElem?_eq_getElem hj))
    exact h.unallocated events t none _ pool hRun hAllocate k e hGet hSame

theorem Owned.keepsOwnership (h : s.Owned) : KeepsOwnership s where
  distinct := by
    intro k k' e e' hGet hGet' hNe hEq
    have hNodup : s.indexed.Nodup := by
      have hOwned := h.nodup
      rw [owned, append_assoc] at hOwned
      exact (nodup_append.mp hOwned).1
    have hInj := inj_on_of_nodup_map hNodup (get?_eq_some_iff.mp hGet)
      (get?_eq_some_iff.mp hGet') hEq
    exact hNe (congrArg Prod.fst hInj)
  lt_maxSlots := by
    intro k e hGet
    apply h.lt_maxSlots
    refine mem_append_left _ (mem_append_left _ ?_)
    exact mem_map_of_mem (f := fun p : K × Entry M => slotOf layout p.2) (get?_eq_some_iff.mp hGet)
  unallocated _ _ _ _ _ hRun hAllocate _ _ hGet := (h.run hRun).allocate_ne hAllocate hGet

end Store

section Recovered

variable {layout : Layout} {F M : Type} {env : RecoveryEnv F M}

/-- The entry stays in the index. -/
def RecoveryEnv.keeps (env : RecoveryEnv F M) (key : String) (e : Entry M) : Bool :=
  !env.metaVerifyOnLoad || env.confirms key e

/-- The store that recovery makes of the valid entries and the next slot of a checkpoint. -/
structure RecoveredFrom (env : RecoveryEnv F M) (index : Dict String (Entry M)) (nextSlot : Nat)
    (s : Store layout String M) : Prop where
  idle : s.inflight = Dict.empty
  nextSlot_eq : s.pool.nextSlot = nextSlot
  index_iff : ∀ k e, s.index.get? k = some e ↔ index.get? k = some e ∧ env.keeps k e = true
  free_iff : ∀ x, x ∈ s.pool.freeSlots ↔
    (x < nextSlot ∧ ∀ k e, index.get? k = some e → Store.slotOf layout e ≠ x) ∨
      ∃ k e, index.get? k = some e ∧ env.keeps k e = false ∧ Store.slotOf layout e = x

variable {index : Dict String (Entry M)}

theorem mem_rebuiltFreeSlots {nextSlot x : Nat} : x ∈ rebuiltFreeSlots layout index nextSlot ↔
      x < nextSlot ∧ ∀ k e, index.get? k = some e → Store.slotOf layout e ≠ x := by
  rw [rebuiltFreeSlots, mem_filter, mem_range, decide_eq_true_iff]
  refine and_congr_right fun _ => ?_
  rw [mem_map]
  constructor
  · intro h k e hGet hEq
    exact h ⟨e, mem_values_iff.mpr ⟨k, hGet⟩, hEq⟩
  · rintro h ⟨e, hMem, hEq⟩
    obtain ⟨k, hGet⟩ := mem_values_iff.mp hMem
    exact h k e hGet hEq

structure Dropped (s : Store layout String M) (drops : List (String × Entry M))
    (t : Store layout String M) : Prop where
  idle : t.inflight = s.inflight
  nextSlot_eq : t.pool.nextSlot = s.pool.nextSlot
  index_eq : ∀ k, t.index.get? k = if k ∈ drops.map Prod.fst then none else s.index.get? k
  free_iff : ∀ x, x ∈ t.pool.freeSlots ↔ x ∈ s.pool.freeSlots ∨
    ∃ p ∈ drops, x = Store.slotOf layout p.2 ∧ Store.slotOf layout p.2 < layout.maxSlots

theorem foldl_dropEntry (drops : List (String × Entry M)) {s : Store layout String M}
    (hEntries : ∀ p ∈ drops, s.index.get? p.1 = some p.2) (hNodup : (drops.map Prod.fst).Nodup) :
    Dropped s drops (drops.foldl (fun s p => dropEntry s p.1) s) := by
  induction drops generalizing s with
  | nil => exact ⟨rfl, rfl, fun _ => rfl, fun x => by simp⟩
  | cons p rest ih =>
    rw [map_cons, nodup_cons] at hNodup
    have hFirst := hEntries p mem_cons_self
    have hDrop : dropEntry s p.1 = Store.freeOffset { s with
        index := s.index.erase p.1, lockRefcnt := s.lockRefcnt.erase p.1 } p.2.offset := by
      rw [dropEntry, hFirst]
    have hIndex : (dropEntry s p.1).index = s.index.erase p.1 := by rw [hDrop]; rfl
    have hRest := @ih (dropEntry s p.1) (by
      intro q hMem
      have hNe : p.1 ≠ q.1 := fun hEq =>
        hNodup.1 (hEq ▸ mem_map_of_mem (f := Prod.fst) hMem)
      rw [hIndex, get?_erase_ne _ hNe]
      exact hEntries q (mem_cons_of_mem _ hMem)) hNodup.2
    refine ⟨?_, ?_, fun k => ?_, fun x => ?_⟩
    · exact hRest.idle.trans (by rw [hDrop]; rfl)
    · refine hRest.nextSlot_eq.trans ?_
      rw [hDrop, Store.freeOffset, SlotPool.nextSlot_appendFreeSlot]
    · rw [foldl_cons, hRest.index_eq, hIndex, get?_erase]
      have hIn : k ∈ (p :: rest).map Prod.fst ↔ p.1 = k ∨ k ∈ rest.map Prod.fst := by
        rw [map_cons, mem_cons, eq_comm]
      by_cases hEq : p.1 = k
      · rw [if_pos hEq, if_pos (hIn.mpr (.inl hEq)), ite_self]
      · rw [if_neg hEq]
        exact if_congr ⟨fun h => hIn.mpr (.inr h), fun h => (hIn.mp h).resolve_left hEq⟩ rfl rfl
    · rw [foldl_cons, hRest.free_iff, hDrop, Store.freeOffset, SlotPool.mem_appendFreeSlot,
        or_assoc]
      refine or_congr_right ?_
      rw [exists_mem_cons_iff]
      rfl

theorem recoveredStore_from (index : Dict String (Entry M))
    (nextSlot : { n : Nat // n ≤ layout.maxSlots }) (h : env.metaVerifyOnLoad = false) :
    RecoveredFrom env index nextSlot.val (recoveredStore layout env index nextSlot) where
  idle := rfl
  nextSlot_eq := rfl
  index_iff k e := by simp [recoveredStore, RecoveryEnv.keeps, h]
  free_iff x := by
    refine mem_rebuiltFreeSlots.trans ⟨.inl, fun hFree => hFree.resolve_right ?_⟩
    rintro ⟨k, e, -, hDropped, -⟩
    rw [RecoveryEnv.keeps, h] at hDropped
    cases hDropped

theorem validateLoadedEntries_from (index : Dict String (Entry M))
    (nextSlot : { n : Nat // n ≤ layout.maxSlots }) (h : env.metaVerifyOnLoad = true)
    (hValid : ∀ k e, index.get? k = some e → Store.slotOf layout e < layout.maxSlots) :
    RecoveredFrom env index nextSlot.val
      (validateLoadedEntries env (recoveredStore layout env index nextSlot)) := by
  let drops := index.entries.filter fun p => !env.confirms p.1 p.2
  have hKeeps : ∀ k e, env.keeps k e = env.confirms k e := fun k e => by
    rw [RecoveryEnv.keeps, h]
    rfl
  have hMem : ∀ {p}, p ∈ drops ↔ index.get? p.1 = some p.2 ∧ env.keeps p.1 p.2 = false := by
    intro p
    rw [mem_filter, Bool.not_eq_true', hKeeps, get?_eq_some_iff]
  have hDropped : Dropped (recoveredStore layout env index nextSlot) drops
      (validateLoadedEntries env (recoveredStore layout env index nextSlot)) :=
    foldl_dropEntry drops (fun p hp => (hMem.mp hp).1) (index.nodup.sublist (filter_sublist.map _))
  refine ⟨hDropped.idle, hDropped.nextSlot_eq, fun k e => ?_, fun x => ?_⟩
  · rw [hDropped.index_eq]
    constructor
    · intro hGet
      split at hGet
      · cases hGet
      · rename_i hKept
        refine ⟨hGet, Bool.not_eq_false _ ▸ fun hNot => hKept ?_⟩
        exact mem_map.mpr ⟨(k, e), hMem.mpr ⟨hGet, hNot⟩, rfl⟩
    · rintro ⟨hGet, hKeep⟩
      rw [if_neg]
      · exact hGet
      · intro hIn
        obtain ⟨⟨k', e'⟩, hDrop, rfl⟩ := mem_map.mp hIn
        obtain ⟨hGet', hNot⟩ := hMem.mp hDrop
        rw [hGet] at hGet'
        cases hGet'
        rw [hKeep] at hNot
        cases hNot
  · rw [hDropped.free_iff]
    refine or_congr mem_rebuiltFreeSlots ⟨?_, ?_⟩
    · rintro ⟨⟨k, e⟩, hDrop, rfl, -⟩
      exact ⟨k, e, (hMem.mp hDrop).1, (hMem.mp hDrop).2, rfl⟩
    · rintro ⟨k, e, hGet, hNot, rfl⟩
      exact ⟨(k, e), hMem.mpr ⟨hGet, hNot⟩, rfl, hValid k e hGet⟩

variable [PyRuntime F]

theorem slotOf_lt_of_valid {offset size : Int}
    (h : isValidCheckpointEntry layout offset size = true) :
    layout.offsetToSlot offset.toNat < layout.maxSlots := by
  unfold isValidCheckpointEntry at h
  dsimp only at h
  split_ifs at h with hLow hMod hHigh
  have hRel : ((offset.toNat - layout.dataBaseOffset : Nat) : Int) =
      offset - layout.dataBaseOffset := by omega
  rw [Layout.offsetToSlot, ← Int.ofNat_lt, Int.natCast_ediv, hRel]
  exact not_le.mp hHigh

variable {data : Json F}

theorem slotOf_lt_of_recovered (h : recoveredIndex layout env data = .ok index) {k : String}
    {e : Entry M} (hGet : index.get? k = some e) : Store.slotOf layout e < layout.maxSlots := by
  unfold recoveredIndex at h
  split at h
  · obtain ⟨entries, hEntries, h⟩ := bind_eq_ok.mp h
    cases h
    obtain ⟨found, hFound, hSome⟩ := mem_filterMap.mp (mem_of_get?_ofList hGet)
    obtain ⟨i, hi⟩ := mem_iff_getElem?.mp hFound
    obtain ⟨member, -, hRecover⟩ := (mapM_eq_ok hEntries).2 i found hi
    cases hSome
    unfold recoverEntry at hRecover
    split at hRecover
    · cases hRecover
    · obtain ⟨offset, -, hRecover⟩ := bind_eq_ok.mp hRecover
      obtain ⟨size, -, hRecover⟩ := bind_eq_ok.mp hRecover
      split at hRecover
      · cases hRecover
      · rename_i hValid
        obtain ⟨info, -, hRecover⟩ := bind_eq_ok.mp hRecover
        cases hRecover
        exact slotOf_lt_of_valid (by simpa using hValid)
  · cases h
    cases hGet

theorem applyLoadedState_from {s : Store layout String M}
    (h : applyLoadedState layout env data = .ok (some s)) :
    ∃ index nextSlot, recoveredIndex layout env data = .ok index ∧
      recoveredNextSlot layout data = some nextSlot ∧
      RecoveredFrom env index nextSlot.val s := by
  unfold applyLoadedState at h
  obtain ⟨fits, -, h⟩ := bind_eq_ok.mp h
  split at h
  · cases h
  split at h
  · cases h
  rename_i nextSlot hNext
  obtain ⟨index, hIndex, h⟩ := bind_eq_ok.mp h
  cases h
  refine ⟨index, nextSlot, hIndex, hNext, ?_⟩
  cases hVerify : env.metaVerifyOnLoad with
  | false => exact recoveredStore_from index nextSlot hVerify
  | true =>
    exact validateLoadedEntries_from index nextSlot hVerify fun k e hGet =>
      slotOf_lt_of_recovered hIndex hGet

/-- Every valid entry lies below `next_slot`, and no entry that is kept shares its slot with
another valid one. -/
def ConsistentState (layout : Layout) (env : RecoveryEnv F M) (data : Json F) : Prop :=
  ∀ index nextSlot, recoveredIndex layout env data = .ok index →
    recoveredNextSlot layout data = some nextSlot →
    (∀ k e, index.get? k = some e → Store.slotOf layout e < nextSlot.val) ∧
      ∀ k k' e e', index.get? k = some e → index.get? k' = some e' → k ≠ k' →
        env.keeps k e = true → Store.slotOf layout e ≠ Store.slotOf layout e'

theorem consistentState_of_keepsOwnership {s : Store layout String M}
    (hLoad : applyLoadedState layout env data = .ok (some s)) (h : KeepsOwnership s) :
    ConsistentState layout env data := by
  obtain ⟨index, nextSlot, hIndex, hNext, hFrom⟩ := applyLoadedState_from hLoad
  intro index' nextSlot' hIndex' hNext'
  cases hIndex.symm.trans hIndex'
  cases hNext.symm.trans hNext'
  have hBelow : ∀ k e, index.get? k = some e → Store.slotOf layout e < nextSlot.val := by
    intro k e hGet
    obtain ⟨hKept, hNodup⟩ := Store.future_of_keepsOwnership h hFrom.idle e.info
    have hLt := slotOf_lt_of_recovered hIndex hGet
    cases hKeep : env.keeps k e with
    | true =>
      by_contra hGe
      refine hKept k e ((hFrom.index_iff k e).mpr ⟨hGet, hKeep⟩) (SlotPool.mem_future.mpr ?_)
      exact .inr ⟨hFrom.nextSlot_eq ▸ Nat.le_of_not_lt hGe, hLt⟩
    | false =>
      rw [← hFrom.nextSlot_eq]
      refine SlotPool.lt_nextSlot_of_nodup_future hNodup ((hFrom.free_iff _).mpr ?_)
      exact .inr ⟨k, e, hGet, hKeep, rfl⟩
  refine ⟨hBelow, fun k k' e e' hGet hGet' hNe hKeep hEq => ?_⟩
  have hEntry := (hFrom.index_iff k e).mpr ⟨hGet, hKeep⟩
  cases hKeep' : env.keeps k' e' with
  | true => exact h.distinct k k' e e' hEntry ((hFrom.index_iff k' e').mpr ⟨hGet', hKeep'⟩) hNe hEq
  | false =>
    -- the slot of a dropped entry is free
    refine (Store.future_of_keepsOwnership h hFrom.idle e.info).1 k e hEntry
      (SlotPool.mem_future.mpr (.inl ((hFrom.free_iff _).mpr ?_)))
    exact .inr ⟨k', e', hGet', hKeep', hEq.symm⟩

theorem owned_of_consistentState {s : Store layout String M}
    (hLoad : applyLoadedState layout env data = .ok (some s))
    (h : ConsistentState layout env data) : s.Owned := by
  obtain ⟨index, nextSlot, hIndex, hNext, hFrom⟩ := applyLoadedState_from hLoad
  obtain ⟨hBelow, hDistinct⟩ := h index nextSlot hIndex hNext
  have hEntry : ∀ {p}, p ∈ s.index.entries → index.get? p.1 = some p.2 ∧
      env.keeps p.1 p.2 = true := fun hMem =>
    (hFrom.index_iff _ _).mp (get?_eq_some_iff.mpr hMem)
  have hReserved : s.reserved = [] := by
    rw [Store.reserved, hFrom.idle]
    rfl
  refine ⟨?_, fun x hMem => ?_, fun k hIn => ?_⟩
  · rw [Store.owned, hReserved, append_nil, nodup_append]
    refine ⟨?_, s.pool.freeSlots_nodup, ?_⟩
    · refine List.Nodup.map_on ?_ s.index.nodup.of_map
      rintro ⟨k, e⟩ hMem ⟨k', e'⟩ hMem' hEq
      by_cases hKeys : k = k'
      · subst hKeys
        have hGet := (hEntry hMem).1
        rw [(hEntry hMem').1] at hGet
        cases hGet
        rfl
      · exact absurd hEq (hDistinct k k' e e' (hEntry hMem).1 (hEntry hMem').1 hKeys
          (hEntry hMem).2)
    · rintro x hIn y hFree rfl
      obtain ⟨⟨k, e⟩, hMem, rfl⟩ := mem_map.mp hIn
      obtain ⟨hGet, hKeep⟩ := hEntry hMem
      rcases (hFrom.free_iff _).mp hFree with ⟨-, hUnused⟩ | ⟨k', e', hGet', hDropped, hEq⟩
      · exact hUnused k e hGet rfl
      · have hKeys : k ≠ k' := by
          rintro rfl
          rw [hGet] at hGet'
          cases hGet'
          rw [hKeep] at hDropped
          cases hDropped
        exact hDistinct k k' e e' hGet hGet' hKeys hKeep hEq.symm
  · rw [Store.owned, hReserved, append_nil, mem_append] at hMem
    rw [hFrom.nextSlot_eq]
    rcases hMem with hIn | hFree
    · obtain ⟨⟨k, e⟩, hMem, rfl⟩ := mem_map.mp hIn
      exact hBelow k e (hEntry hMem).1
    · rcases (hFrom.free_iff _).mp hFree with ⟨hLt, -⟩ | ⟨k, e, hGet, -, rfl⟩
      · exact hLt
      · exact hBelow k e hGet
  · rw [hFrom.idle] at hIn
    cases hIn

/-- The store recovered from an accepted checkpoint keeps slot ownership exactly when the
checkpoint is consistent. -/
theorem accepted_checkpoint_ownership (layout : Layout) (env : RecoveryEnv F M) (data : Json F)
    (s : Store layout String M) (hLoad : applyLoadedState layout env data = .ok (some s)) :
    KeepsOwnership s ↔ ConsistentState layout env data :=
  ⟨consistentState_of_keepsOwnership hLoad, fun h =>
    (owned_of_consistentState hLoad h).keepsOwnership⟩

end Recovered

section Sample

def twoSlotLayout : Layout where
  toConfig := Core.smallConfig
  headerBytes := 32
  slotBytes := 64
  useOdirect := false
  maxDataTransferSize := 32
  deviceSize := 256
  effectiveCapacityBytes := 256
  headerBytes_ge := by decide
  headerBytes_dvd := ⟨1, rfl⟩
  slotBytes_ge := by decide
  slotBytes_dvd := ⟨2, rfl⟩
  transferSize_pos := by decide
  transferSize_dvd := ⟨1, rfl⟩
  capacity_le := Nat.le_refl _
  metaTotalBytes_lt := by decide
  maxSlots_pos := by decide

def trustingEnv : RecoveryEnv Decimal Unit :=
    ⟨"disk", false, false, fun _ _ => .ok (), fun _ => none, fun _ => .ok 0⟩

/-- A checkpoint of one entry, in the first slot. -/
def oneEntryState (nextSlot : Int) : Json Decimal := .obj [("version", .int 1),
  ("next_slot", .int nextSlot),
  ("entries", .obj [("k", .obj [("offset", .int 128), ("size", .int 5)])])]

def fourSlotLayout : Layout :=
  { twoSlotLayout with
    deviceSize := 384
    effectiveCapacityBytes := 384
    capacity_le := Nat.le_refl _
    metaTotalBytes_lt := by decide
    maxSlots_pos := by decide }

/-- A checkpoint of two entries, with a free slot between them. -/
def gappedState : Json Decimal := .obj [("version", .int 1), ("next_slot", .int 3),
  ("entries", .obj [("k", .obj [("offset", .int 128), ("size", .int 5)]),
    ("l", .obj [("offset", .int 256), ("size", .int 7)])])]

theorem accepted_checkpoint_ownership_sample :
    ∃ s, applyLoadedState fourSlotLayout trustingEnv gappedState = .ok (some s) ∧
      s.pool.freeSlots = [1] ∧ KeepsOwnership s := by
  refine ⟨_, rfl, rfl, (accepted_checkpoint_ownership fourSlotLayout trustingEnv gappedState _
    rfl).mpr ?_⟩
  intro index nextSlot hIndex hNext
  cases hIndex
  cases hNext
  have hTwo : ∀ k e, Dict.get? (Dict.ofList [("k", (⟨128, 5, ()⟩ : Entry Unit)),
      ("l", ⟨256, 7, ()⟩)]) k = some e →
      (k, e) = ("k", ⟨128, 5, ()⟩) ∨ (k, e) = ("l", ⟨256, 7, ()⟩) := fun k e hGet =>
    (List.mem_cons.mp (get?_eq_some_iff.mp hGet)).imp id List.mem_singleton.mp
  refine ⟨fun k e hGet => ?_, fun k k' e e' hGet hGet' hNe _ => ?_⟩
  · rcases hTwo k e hGet with hEq | hEq
    · cases hEq
      decide
    · cases hEq
      decide
  · rcases hTwo k e hGet with hEq | hEq <;> rcases hTwo k' e' hGet' with hEq' | hEq'
    · cases hEq
      cases hEq'
      exact absurd rfl hNe
    · cases hEq
      cases hEq'
      decide
    · cases hEq
      cases hEq'
      decide
    · cases hEq
      cases hEq'
      exact absurd rfl hNe

/-- With the slot at `next_slot`, the first allocation hands out the slot of the entry. -/
theorem accepted_checkpoint_reuses_slot :
    ∃ s, applyLoadedState twoSlotLayout trustingEnv (oneEntryState 0) = .ok (some s) ∧
      ¬ KeepsOwnership s :=
  ⟨_, rfl, fun h => h.unallocated [] _ none 0 _ (.nil _) rfl "k" ⟨128, 5, ()⟩ rfl rfl⟩

end Sample

end LMCache.RawBlock
