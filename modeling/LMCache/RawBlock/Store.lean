import LMCache.RawBlock.Layout
import LMCache.RawBlock.Slots

/-!
# Keys and their slots

The index of a raw-block store, the writes in flight and the locks. `put_many` holds the lock
twice for each key, once to reserve a slot and once to publish or to give up the write;
`delete_many` holds it for all its keys. Each of these sections, for one key, is a step.

A slot has at most one owner, an entry, a write in flight or the free list, and the slots from
`nextSlot` on have none.
-/

namespace LMCache.RawBlock

open Lib Dict List

/-- `_Entry`, with `info` for the rest of its metadata. -/
structure Entry (M : Type) where
  offset : Nat
  size : Nat
  info : M

structure Inflight (M : Type) extends Entry M where
  canceled : Bool := false

structure Store (layout : Layout) (K M : Type) where
  index : Dict K (Entry M)
  lockRefcnt : Dict K Nat
  inflight : Dict K (Inflight M)
  pool : SlotPool layout.maxSlots

/-- What the first section of `put_many` finds for a key. -/
inductive Reserved
  | present
  | busy
  | full
  | granted
  deriving DecidableEq

inductive StoreEvent (K M : Type)
  | reserve (key : K) (placementId : Option Nat) (size : Nat) (info : M)
  | commit (key : K) (success : Bool)
  | delete (key : K) (force : Bool)

namespace Store

variable {layout : Layout} {K M : Type} [DecidableEq K]

/-- The store of a core that recovered nothing. -/
def new (fdpSlotAffinityEnabled : Bool) : Store layout K M :=
  ⟨Dict.empty, Dict.empty, Dict.empty, SlotPool.new fdpSlotAffinityEnabled⟩

def reservation (layout : Layout) (slot size : Nat) (info : M) : Inflight M :=
  { offset := layout.slotToOffset slot, size, info }

/-- The first section of `put_many`. -/
def reserve (s : Store layout K M) (key : K) (placementId : Option Nat) (size : Nat) (info : M) :
    Reserved × Store layout K M :=
  if s.index.contains key then (.present, s)
  else if s.inflight.contains key then (.busy, s)
  else
    match s.pool.allocate placementId with
    | none => (.full, s)
    | some (slot, pool) =>
      (.granted, { s with
        inflight := s.inflight.set key (reservation layout slot size info)
        pool })

def freeOffset (s : Store layout K M) (offset : Nat) : Store layout K M :=
  { s with pool := s.pool.appendFreeSlot (layout.offsetToSlot offset) }

/-- The second section of `put_many`; `none` if the key has no write in flight. -/
def commit (s : Store layout K M) (key : K) (success : Bool) :
    Option (Bool × Store layout K M) :=
  match s.inflight.get? key with
  | none => none
  | some inflight =>
    let rest := { s with inflight := s.inflight.erase key }
    if inflight.canceled || !success then some (false, rest.freeOffset inflight.offset)
    else some (true, { rest with index := s.index.set key inflight.toEntry })

/-- `delete_many` for one key. -/
def delete (s : Store layout K M) (key : K) (force : Bool) : Bool × Store layout K M :=
  let entry := s.index.get? key
  let locked := 0 < (s.lockRefcnt.get? key).getD 0
  if entry.isSome && locked && !force then (false, s)
  else
    let inflight := s.inflight.get? key
    let unindexed : Store layout K M := { s with
      index := s.index.erase key
      inflight :=
        match inflight with
        | none => s.inflight
        | some i => s.inflight.set key { i with canceled := true }
      lockRefcnt := s.lockRefcnt.erase key }
    (entry.isSome || inflight.isSome,
      match entry with
      | none => unindexed
      | some e => unindexed.freeOffset e.offset)

/-- One locked section; `none` if there is nothing to commit. -/
def next (s : Store layout K M) : StoreEvent K M → Option (Store layout K M)
  | .reserve key placementId size info => some (s.reserve key placementId size info).2
  | .commit key success => (s.commit key success).map Prod.snd
  | .delete key force => some (s.delete key force).2

def Step (s : Store layout K M) (event : StoreEvent K M) (t : Store layout K M) : Prop :=
  s.next event = some t

def slotOf (layout : Layout) (e : Entry M) : Nat := layout.offsetToSlot e.offset

theorem offsetToSlot_slotToOffset (layout : Layout) (slot : Nat) :
    layout.offsetToSlot (layout.slotToOffset slot) = slot := by
  have hPos : 0 < layout.slotBytes := Nat.lt_of_lt_of_le (Nat.succ_pos _) layout.slotBytes_ge
  rw [Layout.offsetToSlot, Layout.slotToOffset, Nat.add_sub_cancel_left, Nat.mul_div_cancel _ hPos]

omit [DecidableEq K] in
def indexed (s : Store layout K M) : List Nat := s.index.entries.map fun p => slotOf layout p.2

omit [DecidableEq K] in
def reserved (s : Store layout K M) : List Nat :=
  s.inflight.entries.map fun p => slotOf layout p.2.toEntry

omit [DecidableEq K] in
def owned (s : Store layout K M) : List Nat := s.indexed ++ s.reserved ++ s.pool.freeSlots

structure Owned (s : Store layout K M) : Prop where
  nodup : s.owned.Nodup
  lt_nextSlot : ∀ x ∈ s.owned, x < s.pool.nextSlot
  separate : ∀ k, s.inflight.contains k = true → s.index.get? k = none

theorem Owned.of_perm {s t : Store layout K M} (h : s.Owned) (hPerm : t.owned.Perm s.owned)
    (hNext : t.pool.nextSlot = s.pool.nextSlot)
    (hSeparate : ∀ k, t.inflight.contains k = true → t.index.get? k = none) : t.Owned where
  nodup := hPerm.nodup_iff.mpr h.nodup
  lt_nextSlot x hMem := hNext ▸ h.lt_nextSlot x (hPerm.mem_iff.mp hMem)
  separate := hSeparate

theorem contains_set (d : Dict K (Inflight M)) (key k : K) (i : Inflight M) :
    (d.set key i).contains k = true ↔ key = k ∨ d.contains k = true := by
  rw [Dict.contains, get?_set, Dict.contains]
  split
  · rename_i hEq
    exact ⟨fun _ => .inl hEq, fun _ => rfl⟩
  · rename_i hNe
    exact ⟨.inr, fun h => h.resolve_left hNe⟩

theorem reserved_perm {s : Store layout K M} {key : K} {i : Inflight M}
    (h : s.inflight.get? key = some i) : s.reserved.Perm (slotOf layout i.toEntry ::
      (s.inflight.erase key).entries.map fun p => slotOf layout p.2.toEntry) :=
  (entries_perm_erase h).map fun p : K × Inflight M => slotOf layout p.2.toEntry

variable {s t : Store layout K M}

omit [DecidableEq K] in
theorem freeSlots_freeOffset {offset : Nat} (hFree : layout.offsetToSlot offset ∉ s.pool.freeSlots)
    (hLt : layout.offsetToSlot offset < layout.maxSlots) :
    (s.freeOffset offset).pool.freeSlots = s.pool.freeSlots ++ [layout.offsetToSlot offset] := by
  rw [freeOffset, SlotPool.appendFreeSlot, dif_neg (Nat.not_le.mpr hLt), dif_neg hFree]

theorem Owned.lt_maxSlots (h : s.Owned) {x : Nat} (hMem : x ∈ s.owned) : x < layout.maxSlots :=
  Nat.lt_of_lt_of_le (h.lt_nextSlot x hMem) s.pool.nextSlot_le

theorem Owned.freeOffset {u : Store layout K M} (h : s.Owned) {offset : Nat} (hPerm : s.owned.Perm
      (layout.offsetToSlot offset :: (u.indexed ++ u.reserved ++ s.pool.freeSlots)))
    (hPool : u.pool = s.pool)
    (hSeparate : ∀ k, u.inflight.contains k = true → u.index.get? k = none) :
    (u.freeOffset offset).Owned := by
  have hSlot : layout.offsetToSlot offset < layout.maxSlots :=
    h.lt_maxSlots (hPerm.mem_iff.mpr mem_cons_self)
  have hFree : layout.offsetToSlot offset ∉ u.pool.freeSlots := by
    have hNodup := hPerm.nodup_iff.mp h.nodup
    rw [hPool]
    exact fun hMem => (nodup_cons.mp hNodup).1 (mem_append_right _ hMem)
  apply h.of_perm
  · rw [owned, freeSlots_freeOffset hFree hSlot, hPool]
    refine List.Perm.trans ?_ hPerm.symm
    rw [← append_assoc]
    exact perm_append_comm
  · rw [Store.freeOffset, SlotPool.nextSlot_appendFreeSlot, hPool]
  · exact hSeparate

theorem Owned.reserve (h : s.Owned) (key : K) (placementId : Option Nat) (size : Nat) (info : M) :
    (s.reserve key placementId size info).2.Owned := by
  unfold Store.reserve
  split
  · exact h
  rename_i hAbsent
  split
  · exact h
  rename_i hIdle
  have hNone : s.inflight.get? key = none := not_contains_iff.mp hIdle
  split
  · exact h
  rename_i slot pool hAllocate
  dsimp only
  let inflight := s.inflight.set key (reservation layout slot size info)
  have hReserved : (inflight.entries.map fun p => slotOf layout p.2.toEntry) =
      s.reserved ++ [slot] := by
    rw [entries_set_of_get?_eq_none hNone, map_append, map_singleton]
    exact congrArg (fun x => s.reserved ++ [x]) (offsetToSlot_slotToOffset layout slot)
  have hSeparate : ∀ k, inflight.contains k = true → s.index.get? k = none := by
    intro k hIn
    rcases (contains_set _ _ _ _).mp hIn with rfl | hOld
    · exact not_contains_iff.mp hAbsent
    · exact h.separate k hOld
  have hOwned : ∀ free, s.indexed ++ (s.reserved ++ [slot]) ++ free =
      s.indexed ++ s.reserved ++ (slot :: free) := fun free => by
    simp only [append_assoc, singleton_append]
  rcases SlotPool.allocate_cases hAllocate with
    ⟨hMem, hFree, hNext⟩ | ⟨hEmpty, hSlot, -, hFree, hNext⟩
  · refine h.of_perm ?_ hNext hSeparate
    change (s.indexed ++ (inflight.entries.map _) ++ pool.freeSlots).Perm _
    rw [hReserved, hFree, hOwned]
    exact List.Perm.append_left _ (perm_cons_erase hMem).symm
  · have hSame : s.owned = s.indexed ++ s.reserved := by
      rw [owned, hEmpty, append_nil]
    have hList : ({ s with inflight, pool } : Store layout K M).owned =
        s.indexed ++ s.reserved ++ [slot] := by
      change s.indexed ++ (inflight.entries.map _) ++ pool.freeSlots = _
      rw [hReserved, hFree, hOwned]
    have hBelow := h.lt_nextSlot
    have hNodup := h.nodup
    rw [hSame] at hBelow hNodup
    refine ⟨?_, ?_, hSeparate⟩
    · rw [hList, nodup_append]
      refine ⟨hNodup, nodup_singleton _, fun x hx y hy => ?_⟩
      rw [mem_singleton.mp hy, hSlot]
      exact Nat.ne_of_lt (hBelow x hx)
    · intro x hx
      rw [hList, mem_append, mem_singleton] at hx
      change x < pool.nextSlot
      rw [hNext]
      rcases hx with hOld | rfl
      · exact Nat.lt_succ_of_lt (hBelow x hOld)
      · rw [hSlot]
        exact Nat.lt_succ_self _

theorem Owned.commit (h : s.Owned) {key : K} {success result : Bool}
    (hCommit : s.commit key success = some (result, t)) : t.Owned := by
  unfold Store.commit at hCommit
  split at hCommit
  · cases hCommit
  rename_i i hGet
  have hReserved := reserved_perm hGet
  have hKept : ∀ k, (s.inflight.erase key).contains k = true → key ≠ k ∧
      s.inflight.contains k = true := by
    intro k hIn
    rw [Dict.contains, get?_erase] at hIn
    split at hIn
    · cases hIn
    · rename_i hNe
      exact ⟨hNe, hIn⟩
  split at hCommit
  · cases hCommit
    refine h.freeOffset ?_ rfl fun k hIn => h.separate k (hKept k hIn).2
    refine (((List.Perm.append_left _ hReserved)).append_right _).trans ?_
    rw [← cons_append, ← cons_append]
    exact List.Perm.append_right _ perm_middle
  · cases hCommit
    have hNone : s.index.get? key = none := by
      apply h.separate
      rw [Dict.contains, hGet]
      rfl
    apply h.of_perm
    · refine List.Perm.append_right _ ?_
      refine List.Perm.trans ?_ (List.Perm.append_left _ hReserved).symm
      change ((s.index.set key i.toEntry).entries.map _ ++
        (s.inflight.erase key).entries.map _).Perm _
      rw [entries_set_of_get?_eq_none hNone, map_append, map_singleton,
        append_assoc, singleton_append]
      exact List.Perm.refl _
    · rfl
    · intro k hIn
      obtain ⟨hNe, hOld⟩ := hKept k hIn
      exact (get?_set_ne _ hNe _).trans (h.separate k hOld)

theorem Owned.delete (h : s.Owned) (key : K) (force : Bool) : (s.delete key force).2.Owned := by
  unfold Store.delete
  dsimp only
  split
  · exact h
  have hSeparate : ∀ (d : Dict K (Inflight M)), (∀ k, d.contains k = true →
      s.inflight.contains k = true) → ∀ k, d.contains k = true →
        (s.index.erase key).get? k = none := by
    intro d hSub k hIn
    rw [get?_erase]
    split
    · rfl
    · exact h.separate k (hSub k hIn)
  -- a canceled write keeps its slot
  obtain ⟨inflight, hInflight, hReserved, hSub⟩ : ∃ inflight : Dict K (Inflight M),
      (match s.inflight.get? key with
        | none => s.inflight
        | some i => s.inflight.set key { i with canceled := true }) = inflight ∧
      (inflight.entries.map fun p => slotOf layout p.2.toEntry).Perm s.reserved ∧
      ∀ k, inflight.contains k = true → s.inflight.contains k = true := by
    cases hGet : s.inflight.get? key with
    | none => exact ⟨_, rfl, List.Perm.refl _, fun _ hIn => hIn⟩
    | some i =>
      refine ⟨_, rfl, ?_, fun k hIn => ?_⟩
      · exact ((entries_set_perm _ _ _).map _).trans (reserved_perm hGet).symm
      · rcases (contains_set _ _ _ _).mp hIn with rfl | hOld
        · rw [Dict.contains, hGet]
          rfl
        · exact hOld
  rw [hInflight]
  cases hEntry : s.index.get? key with
  | none =>
    apply h.of_perm
    · refine List.Perm.append_right _ (List.Perm.append ?_ hReserved)
      exact (erase_of_get?_eq_none hEntry).map fun p => slotOf layout p.2
    · rfl
    · exact hSeparate _ hSub
  | some e =>
    refine h.freeOffset ?_ rfl (hSeparate _ hSub)
    refine (List.Perm.append_right _ (List.Perm.append ((entries_perm_erase hEntry).map _)
      hReserved.symm)).trans ?_
    exact List.Perm.refl _

theorem Owned.step (h : s.Owned) {event : StoreEvent K M} (hStep : s.Step event t) : t.Owned := by
  cases event with
  | reserve key placementId size info =>
    cases hStep
    exact h.reserve key placementId size info
  | commit key success =>
    obtain ⟨⟨result, u⟩, hCommit, rfl⟩ := Option.map_eq_some_iff.mp hStep
    exact h.commit hCommit
  | delete key force =>
    cases hStep
    exact h.delete key force

theorem Owned.run (h : s.Owned) {events : List (StoreEvent K M)} (hRun : Run Step s events t) :
    t.Owned := hRun.invariant (fun _ _ _ hInv hStep => hInv.step hStep) h

theorem Owned.allocate_ne (h : s.Owned) {placementId : Option Nat} {slot : Nat}
    {pool : SlotPool layout.maxSlots} (hAllocate : s.pool.allocate placementId = some (slot, pool))
    {k : K} {e : Entry M} (hGet : s.index.get? k = some e) : slotOf layout e ≠ slot := by
  have hMem : slotOf layout e ∈ s.indexed :=
    mem_map_of_mem (f := fun p : K × Entry M => slotOf layout p.2) (get?_eq_some_iff.mp hGet)
  rintro rfl
  rcases SlotPool.allocate_cases hAllocate with ⟨hFree, -⟩ | ⟨-, hNext, -⟩
  · have hNodup := h.nodup
    rw [owned, append_assoc] at hNodup
    exact (disjoint_of_nodup_append hNodup) hMem (mem_append_right _ hFree)
  · have hLt := h.lt_nextSlot _ (mem_append_left _ (mem_append_left _ hMem))
    omega

end Store

end LMCache.RawBlock
