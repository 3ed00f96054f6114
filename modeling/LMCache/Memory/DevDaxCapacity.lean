import LMCache.Memory.DevDaxLifecycle

/-!
# When a batch is refused

The plan of a batch divides the free bytes of a heap by the size of an object. A fragmented heap
holds fewer objects than that; it refuses the share it is given as a whole, and the batch goes on
with the next one. So a batch can be refused although the heaps could hold it.
-/

namespace LMCache

open Lib FirstFit

/-- The count of free bytes never falls short of what a heap holds. -/
theorem TensorMemoryAllocator.Serves.room_le_availableCount {P : Type} {alignBytes : Nat}
    {mine : P → Bool} {objs : ObjTable P} {a : TensorMemoryAllocator}
    (h : a.Serves alignBytes mine objs) (hAlign : 0 < alignBytes) {rawSize : Nat}
    (hPos : 0 < rawSize) : (a.room rawSize : Int) ≤ availableCount a.addressManager rawSize := by
  have hUnit := h.held.aligned_pos hAlign hPos
  have hSlots := AddressManager.slots_le (a.addressManager.computeAlignedSize rawSize)
    a.addressManager.explicitList
  unfold availableCount TensorMemoryAllocator.room AddressManager.room
  dsimp only
  rw [if_neg (not_le.mpr hUnit), h.held.getFreeSize]
  exact_mod_cast hSlots

namespace DevDaxMemoryAllocator

variable {s : DevDaxMemoryAllocator} {rawSize : Nat}

def capacity (s : DevDaxMemoryAllocator) (rawSize : Nat) : Nat := Bin.totalRoom (s.bins rawSize)

theorem Sound.room_le_estimate (h : s.Sound) (hPos : 0 < rawSize) :
    ∀ b ∈ s.bins rawSize, (b.room : Int) ≤ b.estimate := by
  intro b hb
  rcases List.mem_append.mp hb with hb | hb
  · obtain ⟨a, ha, rfl⟩ := List.mem_map.mp hb
    exact (h.atHome a (Option.mem_toList.mp ha)).room_le_availableCount h.alignPos hPos
  · obtain ⟨arena, hArena, rfl⟩ := List.mem_map.mp hb
    exact (h.arenas arena (List.mem_filter.mp hArena).1).serves.room_le_availableCount
      h.alignPos hPos

/-- A batch is served exactly when some heap holds what the heaps before it, as far as all their
free bytes are usable, have left of it. -/
theorem Sound.batchedAllocate_eq_none_iff (h : s.Sound) (hPos : 0 < rawSize) (batchSize : Int) :
    s.batchedAllocate rawSize batchSize = .ok (none, s) ↔
      0 < batchSize ∧ ¬ Bin.Meets (s.bins rawSize) batchSize := by
  have hGreedy : 0 < (s.bins rawSize).foldl Bin.fill batchSize ↔
      0 < batchSize ∧ ¬ Bin.Meets (s.bins rawSize) batchSize := by
    by_cases hSome : 0 < batchSize
    · rw [← Bin.foldl_fill_le_zero_iff (h.room_le_estimate hPos) hSome, not_le]
      exact (and_iff_right hSome).symm
    · rw [Bin.foldl_fill_of_nonpos (not_lt.mp hSome)]
      exact iff_of_false hSome fun hBoth => hSome hBoth.1
  rw [← hGreedy]
  rcases h.batchedAllocate hPos batchSize with ⟨hNone, hOpen⟩ | ⟨ids, t, hSome, -, -, hMet⟩
  · exact iff_of_true hNone hOpen
  · refine iff_of_false ?_ (not_lt.mpr hMet)
    intro hNone
    rw [hSome] at hNone
    cases hNone

/-- In every state of the pool a batch that is refused changes nothing. It is refused only for
want of room if and only if some heap holds what the truthful heaps before it leave of the
batch, or all heaps together do not hold the batch. -/
theorem batchedAllocate_complete_iff {calls : List DevDaxCall} (h : Reached calls s)
    (hPos : 0 < rawSize) (batchSize : Int) :
    ∃ r t, s.batchedAllocate rawSize batchSize = .ok (r, t) ∧ (r = none → t = s) ∧
      ((r = none → (s.capacity rawSize : Int) < batchSize) ↔
        batchSize ≤ 0 ∨ Bin.Meets (s.bins rawSize) batchSize ∨
          (s.capacity rawSize : Int) < batchSize) := by
  have hSound := h.sound
  have hRefused := hSound.batchedAllocate_eq_none_iff hPos batchSize
  rcases hSound.batchedAllocate hPos batchSize with ⟨hNone, -⟩ | ⟨ids, t, hSome, -⟩
  · obtain ⟨hMore, hShort⟩ := hRefused.mp hNone
    refine ⟨none, s, hNone, fun _ => rfl, ?_⟩
    rw [or_iff_right (not_le.mpr hMore), or_iff_right hShort]
    exact ⟨fun hOnly => hOnly rfl, fun hRoom _ => hRoom⟩
  · refine ⟨some ids, t, hSome, fun hEq => absurd hEq (Option.some_ne_none ids), ?_⟩
    refine iff_of_true (fun hEq => absurd hEq (Option.some_ne_none ids)) ?_
    by_contra hNot
    have hNone := hRefused.mpr ⟨by omega, fun hMeets => hNot (Or.inr (Or.inl hMeets))⟩
    rw [hSome] at hNone
    cases hNone

/-- An arena with free blocks of three units and of one, and one of two units. -/
def fragmentedCalls : List DevDaxCall :=
  [.allocate 12288, .allocate 4096, .free [] 0, .addDevice "/dev/dax1.0" 8192 (.ok 65536)]

def fragmentedState : DevDaxMemoryAllocator :=
  fragmentedCalls.foldl call (init 4096 none "/dev/dax0.0" 20480 4096)

theorem fragmentedState_reached : Reached fragmentedCalls fragmentedState := by
  refine ⟨4096, none, "/dev/dax0.0", 20480, 4096, by decide, by decide, ?_⟩
  refine ((((Run.nil _).snoc ⟨Nat.zero_lt_succ 12287, rfl⟩).snoc
    ⟨Nat.zero_lt_succ 4095, rfl⟩).snoc ⟨trivial, rfl⟩).snoc ⟨⟨by decide, ?_⟩, rfl⟩
  intro arena hArena
  obtain rfl := List.mem_singleton.mp hArena
  exact Or.inl (by decide)

theorem batchedAllocate_complete_units :
    fragmentedState.capacity 4096 = 6 ∧ ∃ r t,
      fragmentedState.batchedAllocate 4096 6 = .ok (r, t) ∧ (r = none → t = fragmentedState) ∧
        ((r = none → (fragmentedState.capacity 4096 : Int) < 6) ↔
          (6 : Int) ≤ 0 ∨ Bin.Meets (fragmentedState.bins 4096) 6 ∨
            (fragmentedState.capacity 4096 : Int) < 6) :=
  ⟨by decide, batchedAllocate_complete_iff fragmentedState_reached (by decide) 6⟩

/-- Of two objects of two units the fragmented arena is asked for both, and gives none. -/
theorem batchedAllocate_refuses_room :
    ¬ ∀ (calls : List DevDaxCall) (s : DevDaxMemoryAllocator), Reached calls s →
      ∀ (rawSize : Nat) (batchSize : Int), 0 < rawSize → ∀ t,
        s.batchedAllocate rawSize batchSize = .ok (none, t) →
          (s.capacity rawSize : Int) < batchSize := by
  intro hAll
  rcases fragmentedState_reached.sound.batchedAllocate (show 0 < 8192 by decide) 2 with
    ⟨hRefused, -⟩ | ⟨-, -, -, -, -, hMet⟩
  · have hRoom := hAll _ _ fragmentedState_reached 8192 2 (by decide) _ hRefused
    exact absurd hRoom (by decide)
  · exact absurd hMet (by decide)

end DevDaxMemoryAllocator

end LMCache
