import LMCache.Lib.Dict

/-!
# Free slots

The slots of a raw-block store that are free: those given back, in the order in which they
were, and those from `nextSlot` on that were never used. With slot affinity, a free slot is also
listed under the placement identifier it was last written with. A dictionary without values
is the list of its keys; `popitem` takes the last.
-/

namespace LMCache.RawBlock

open Lib List Option Dict

/-- Slots listed under a placement identifier are free, and were last written with it. -/
def AffinityOk (freeSlots : List Nat) (freeSlotsByPlacementId : Dict Nat (List Nat))
    (slotPlacementIds : Dict Nat Nat) : Prop :=
  ∀ placementId slots, freeSlotsByPlacementId.get? placementId = some slots →
    slots.Nodup ∧ ∀ s ∈ slots, s ∈ freeSlots ∧ slotPlacementIds.get? s = some placementId

structure SlotPool (maxSlots : Nat) where
  fdpSlotAffinityEnabled : Bool
  nextSlot : Nat
  freeSlots : List Nat
  freeSlotsByPlacementId : Dict Nat (List Nat)
  slotPlacementIds : Dict Nat Nat
  nextSlot_le : nextSlot ≤ maxSlots
  freeSlots_lt : ∀ s ∈ freeSlots, s < maxSlots
  freeSlots_nodup : freeSlots.Nodup
  affinity : AffinityOk freeSlots freeSlotsByPlacementId slotPlacementIds

theorem affinityOk_empty (freeSlots : List Nat) (slotPlacementIds : Dict Nat Nat) :
    AffinityOk freeSlots Dict.empty slotPlacementIds := fun _ _ h => (nomatch h)

def removeFromAffinityPool (slotPlacementIds : Dict Nat Nat)
    (freeSlotsByPlacementId : Dict Nat (List Nat)) (slot : Nat) : Dict Nat (List Nat) :=
  match slotPlacementIds.get? slot with
  | none => freeSlotsByPlacementId
  | some placementId =>
    match freeSlotsByPlacementId.get? placementId with
    | none => freeSlotsByPlacementId
    | some affinitySlots =>
      if affinitySlots.erase slot = [] then freeSlotsByPlacementId.erase placementId
      else freeSlotsByPlacementId.set placementId (affinitySlots.erase slot)

def setSlotPlacementId (enabled : Bool) (slotPlacementIds : Dict Nat Nat) (slot : Nat)
    (placementId : Option Nat) : Dict Nat Nat :=
  match placementId with
  | none => slotPlacementIds.erase slot
  | some placementId =>
    if enabled then slotPlacementIds.set slot placementId else slotPlacementIds.erase slot

theorem get?_setSlotPlacementId_ne (enabled : Bool) (slotPlacementIds : Dict Nat Nat)
    {slot s : Nat} (h : slot ≠ s) (placementId : Option Nat) :
    (setSlotPlacementId enabled slotPlacementIds slot placementId).get? s =
      slotPlacementIds.get? s := by
  unfold setSlotPlacementId
  split
  · exact get?_erase_ne _ h
  · split
    · exact get?_set_ne _ h _
    · exact get?_erase_ne _ h

theorem get?_removeFromAffinityPool {freeSlots : List Nat}
    {freeSlotsByPlacementId : Dict Nat (List Nat)} {slotPlacementIds : Dict Nat Nat}
    (hOk : AffinityOk freeSlots freeSlotsByPlacementId slotPlacementIds) {slot placementId : Nat}
    {slots : List Nat} (h : (removeFromAffinityPool slotPlacementIds freeSlotsByPlacementId
      slot).get? placementId = some slots) :
    slot ∉ slots ∧ ∃ listed, freeSlotsByPlacementId.get? placementId = some listed ∧
      List.Sublist slots listed := by
  have hSame : freeSlotsByPlacementId.get? placementId = some slots →
      slotPlacementIds.get? slot ≠ some placementId → slot ∉ slots ∧ ∃ listed,
        freeSlotsByPlacementId.get? placementId = some listed ∧ List.Sublist slots listed :=
    fun hGet hOther => ⟨fun hMem => hOther ((hOk _ _ hGet).2 slot hMem).2, slots, hGet,
      List.Sublist.refl _⟩
  unfold removeFromAffinityPool at h
  split at h
  · rename_i hNone
    refine hSame h ?_
    rw [hNone]
    exact (some_ne_none _).symm
  · rename_i taken hTaken
    split at h
    · rename_i hNone
      refine hSame h ?_
      rw [hTaken, Ne, some_inj]
      rintro rfl
      rw [hNone] at h
      cases h
    · rename_i listed hListed
      by_cases hEq : taken = placementId
      · subst hEq
        split at h
        · rw [get?_erase_self] at h
          cases h
        · rw [get?_set_self, some_inj] at h
          subst h
          exact ⟨(hOk _ _ hListed).1.not_mem_erase, listed, hListed, erase_sublist⟩
      · refine hSame ?_ ?_
        · split at h
          · rwa [get?_erase_ne _ hEq] at h
          · rwa [get?_set_ne _ hEq] at h
        · rw [hTaken, Ne, some_inj]
          exact hEq

namespace SlotPool

variable {maxSlots : Nat}

/-- The pools as `__init__` leaves them. -/
def new (fdpSlotAffinityEnabled : Bool) : SlotPool maxSlots where
  fdpSlotAffinityEnabled
  nextSlot := 0
  freeSlots := []
  freeSlotsByPlacementId := Dict.empty
  slotPlacementIds := Dict.empty
  nextSlot_le := Nat.zero_le _
  freeSlots_lt := nofun
  freeSlots_nodup := nodup_nil
  affinity := affinityOk_empty _ _

/-- A free slot leaves the pools. The last slot of an affinity pool is listed under the
identifier it was written with, so to pop it is to remove it by name. -/
def takeSlot (pool : SlotPool maxSlots) (slot : Nat) (placementId : Option Nat) :
    SlotPool maxSlots where
  fdpSlotAffinityEnabled := pool.fdpSlotAffinityEnabled
  nextSlot := pool.nextSlot
  freeSlots := pool.freeSlots.erase slot
  freeSlotsByPlacementId :=
    removeFromAffinityPool pool.slotPlacementIds pool.freeSlotsByPlacementId slot
  slotPlacementIds :=
    setSlotPlacementId pool.fdpSlotAffinityEnabled pool.slotPlacementIds slot placementId
  nextSlot_le := pool.nextSlot_le
  freeSlots_lt s hMem := pool.freeSlots_lt s (mem_of_mem_erase hMem)
  freeSlots_nodup := pool.freeSlots_nodup.erase slot
  affinity := by
    intro placementId slots hGet
    obtain ⟨hSlot, listed, hListed, hSub⟩ := get?_removeFromAffinityPool pool.affinity hGet
    obtain ⟨hNodup, hFree⟩ := pool.affinity _ _ hListed
    refine ⟨hSub.nodup hNodup, fun s hMem => ?_⟩
    have hNe : slot ≠ s := fun hEq => hSlot (hEq ▸ hMem)
    obtain ⟨hIn, hId⟩ := hFree s (hSub.subset hMem)
    exact ⟨(mem_erase_of_ne (Ne.symm hNe)).mpr hIn,
      (get?_setSlotPlacementId_ne _ _ hNe _).trans hId⟩

/-- The last free slot under a placement identifier. -/
def affinitySlot (pool : SlotPool maxSlots) (placementId : Option Nat) : Option Nat :=
  if pool.fdpSlotAffinityEnabled then
    placementId.bind fun placementId =>
      (pool.freeSlotsByPlacementId.get? placementId).bind List.getLast?
  else none

/-- `_allocate_slot_locked`; `none` where it raises. -/
def allocate (pool : SlotPool maxSlots) (placementId : Option Nat) :
    Option (Nat × SlotPool maxSlots) :=
  match pool.affinitySlot placementId with
  | some slot => some (slot, pool.takeSlot slot placementId)
  | none =>
    match hFree : pool.freeSlots.getLast? with
    | some slot => some (slot, pool.takeSlot slot placementId)
    | none =>
      if hNext : pool.nextSlot < maxSlots then
        some (pool.nextSlot, { pool with
          nextSlot := pool.nextSlot + 1
          slotPlacementIds := setSlotPlacementId pool.fdpSlotAffinityEnabled
            pool.slotPlacementIds pool.nextSlot placementId
          nextSlot_le := hNext
          affinity := fun placementId slots hGet => ⟨(pool.affinity _ _ hGet).1, fun s hMem => by
            have hIn := ((pool.affinity _ _ hGet).2 s hMem).1
            rw [getLast?_eq_none_iff.mp hFree] at hIn
            cases hIn⟩ })
      else none

def appendFreeSlot (pool : SlotPool maxSlots) (slot : Nat) : SlotPool maxSlots :=
  if hSlot : maxSlots ≤ slot then pool
  else if hFree : slot ∈ pool.freeSlots then pool
  else { pool with
    freeSlots := pool.freeSlots ++ [slot]
    freeSlotsByPlacementId :=
      if pool.fdpSlotAffinityEnabled then
        match pool.slotPlacementIds.get? slot with
        | none => pool.freeSlotsByPlacementId
        | some placementId => pool.freeSlotsByPlacementId.set placementId
            (((pool.freeSlotsByPlacementId.get? placementId).getD []) ++ [slot])
      else pool.freeSlotsByPlacementId
    freeSlots_lt := by
      intro s hMem
      rcases mem_append.mp hMem with hOld | hNew
      · exact pool.freeSlots_lt s hOld
      · rw [mem_singleton.mp hNew]
        exact Nat.lt_of_not_le hSlot
    freeSlots_nodup := by
      rw [nodup_append]
      refine ⟨pool.freeSlots_nodup, nodup_singleton _, fun s hOld t hNew => ?_⟩
      rw [mem_singleton.mp hNew]
      rintro rfl
      exact hFree hOld
    affinity := by
      have hKept : AffinityOk (pool.freeSlots ++ [slot]) pool.freeSlotsByPlacementId
          pool.slotPlacementIds := fun placementId slots hGet =>
        ⟨(pool.affinity _ _ hGet).1, fun s hMem =>
          ⟨mem_append_left _ ((pool.affinity _ _ hGet).2 s hMem).1,
            ((pool.affinity _ _ hGet).2 s hMem).2⟩⟩
      split
      · split
        · exact hKept
        · rename_i written hWritten
          intro placementId slots hGet
          obtain ⟨rfl, rfl⟩ | ⟨-, hGet⟩ := get?_set_cases hGet
          · -- the slots listed so far are free, and this one is not
            have hListed : ∀ s ∈ (pool.freeSlotsByPlacementId.get? written).getD [],
                s ∈ pool.freeSlots ∧ pool.slotPlacementIds.get? s = some written := by
              cases hOld : pool.freeSlotsByPlacementId.get? written with
              | none => exact nofun
              | some listed => exact (pool.affinity _ _ hOld).2
            have hNodup : ((pool.freeSlotsByPlacementId.get? written).getD []).Nodup := by
              cases hOld : pool.freeSlotsByPlacementId.get? written with
              | none => exact nodup_nil
              | some listed => exact (pool.affinity _ _ hOld).1
            refine ⟨?_, fun s hMem => ?_⟩
            · rw [nodup_append]
              refine ⟨hNodup, nodup_singleton _, fun s hOld t hNew => ?_⟩
              rw [mem_singleton.mp hNew]
              rintro rfl
              exact hFree (hListed _ hOld).1
            · rcases mem_append.mp hMem with hOld | hNew
              · exact ⟨mem_append_left _ (hListed s hOld).1, (hListed s hOld).2⟩
              · rw [mem_singleton.mp hNew]
                exact ⟨mem_append_right _ (mem_singleton.mpr rfl), hWritten⟩
          · exact hKept placementId slots hGet
      · exact hKept }

variable {pool pool' : SlotPool maxSlots} {slot : Nat}

theorem affinitySlot_mem {placementId : Option Nat}
    (h : pool.affinitySlot placementId = some slot) : slot ∈ pool.freeSlots := by
  unfold affinitySlot at h
  split at h
  · obtain ⟨written, -, h⟩ := bind_eq_some_iff.mp h
    obtain ⟨slots, hGet, hLast⟩ := bind_eq_some_iff.mp h
    exact ((pool.affinity _ _ hGet).2 slot (mem_of_getLast? hLast)).1
  · cases h

theorem allocate_cases {placementId : Option Nat}
    (h : pool.allocate placementId = some (slot, pool')) :
    (slot ∈ pool.freeSlots ∧ pool'.freeSlots = pool.freeSlots.erase slot ∧
      pool'.nextSlot = pool.nextSlot) ∨
    (pool.freeSlots = [] ∧ slot = pool.nextSlot ∧ slot < maxSlots ∧ pool'.freeSlots = [] ∧
      pool'.nextSlot = pool.nextSlot + 1) := by
  unfold allocate at h
  split at h
  · rename_i taken hTaken
    cases h
    exact .inl ⟨affinitySlot_mem hTaken, rfl, rfl⟩
  · split at h
    · rename_i taken hTaken
      cases h
      exact .inl ⟨mem_of_getLast? hTaken, rfl, rfl⟩
    · rename_i hNone
      have hEmpty := getLast?_eq_none_iff.mp hNone
      split at h
      · rename_i hNext
        cases h
        exact .inr ⟨hEmpty, rfl, hNext, hEmpty, rfl⟩
      · cases h

theorem allocate_lt {placementId : Option Nat}
    (h : pool.allocate placementId = some (slot, pool')) : slot < maxSlots := by
  rcases allocate_cases h with ⟨hMem, -, -⟩ | ⟨-, -, hLt, -, -⟩
  · exact pool.freeSlots_lt slot hMem
  · exact hLt

theorem nextSlot_appendFreeSlot (pool : SlotPool maxSlots) (slot : Nat) :
    (pool.appendFreeSlot slot).nextSlot = pool.nextSlot := by
  unfold appendFreeSlot
  split_ifs <;> rfl

theorem mem_appendFreeSlot {s : Nat} :
    s ∈ (pool.appendFreeSlot slot).freeSlots ↔ s ∈ pool.freeSlots ∨ s = slot ∧ slot < maxSlots := by
  rw [appendFreeSlot]
  by_cases hSlot : maxSlots ≤ slot
  · rw [dif_pos hSlot]
    exact ⟨Or.inl, fun h => h.resolve_right fun ⟨_, hLt⟩ => absurd hSlot (Nat.not_le.mpr hLt)⟩
  rw [dif_neg hSlot]
  by_cases hFree : slot ∈ pool.freeSlots
  · rw [dif_pos hFree]
    exact ⟨Or.inl, fun h => h.elim id fun ⟨hEq, _⟩ => hEq ▸ hFree⟩
  · rw [dif_neg hFree, mem_append, mem_singleton]
    exact or_congr_right ⟨fun h => ⟨h, Nat.lt_of_not_le hSlot⟩, And.left⟩

end SlotPool

end LMCache.RawBlock
