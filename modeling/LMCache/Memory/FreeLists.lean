import LMCache.Memory.AddressSpec

/-!
# The live blocks determine the free list

A manager of a given heap with given live blocks has one free list and one counter, whatever
the calls were that led to it. The live blocks count up to order, and two live blocks that
touch may be given back as one.
-/

namespace LMCache

open Lib List

namespace Packed

variable {size : Nat} {free live : List Extent}

theorem fuse {b c : Extent} (h : Packed size free (b :: c :: live)) (hTouch : b.stop = c.start) :
    Packed size free (⟨b.start, b.size + c.size⟩ :: live) where
  tiles := by
    have hMoved : Tiles (b :: c :: (free ++ live)) size :=
      h.tiles.perm (perm_middle.trans (perm_middle.cons b))
    refine (hMoved.merge hTouch fun d hd => h.nonempty d ?_).perm perm_middle.symm
    rcases mem_append.mp hd with hd | hd
    · exact mem_append_left _ hd
    · exact mem_append_right _ (mem_cons_of_mem _ (mem_cons_of_mem _ hd))
  nonempty d hd := by
    rcases mem_append.mp hd with hd | hd
    · exact h.nonempty d (mem_append_left _ hd)
    · rcases mem_cons.mp hd with rfl | hd
      · have hSize := h.nonempty b (by simp)
        simp only
        omega
      · exact h.nonempty d (by simp [hd])
  coalesced := h.coalesced

end Packed

namespace AddressManager

variable {am : AddressManager}

theorem add_eq_or {y m : Nat} (h : y &&& m = 0) : y + m = y ||| m := by
  have hWidth : y + m < 2 ^ (y + m) := Nat.lt_two_pow_self
  have hy : y < 2 ^ (y + m) := by omega
  have hm : m < 2 ^ (y + m) := by omega
  have hAnd : BitVec.ofNat (y + m) y &&& BitVec.ofNat (y + m) m = 0#(y + m) := by
    apply BitVec.eq_of_toNat_eq
    rw [BitVec.toNat_and, BitVec.toNat_ofNat, BitVec.toNat_ofNat, Nat.mod_eq_of_lt hy,
      Nat.mod_eq_of_lt hm, h]
    rfl
  have hSum := congrArg BitVec.toNat (BitVec.add_eq_or_of_and_eq_zero _ _ hAnd)
  rwa [BitVec.toNat_add, BitVec.toNat_or, BitVec.toNat_ofNat, BitVec.toNat_ofNat,
    Nat.mod_eq_of_lt hy, Nat.mod_eq_of_lt hm, Nat.mod_eq_of_lt hWidth] at hSum

theorem computeAlignedSize_idem (hAlign : 0 < am.align) (rawSize : Nat) :
    am.computeAlignedSize (am.computeAlignedSize rawSize) = am.computeAlignedSize rawSize := by
  have hClear : am.computeAlignedSize rawSize &&& (am.align - 1) = 0 := by
    rw [computeAlignedSize, Nat.and_xor_distrib_right, Nat.and_assoc, Nat.and_self, Nat.xor_self]
  generalize am.computeAlignedSize rawSize = y at hClear ⊢
  rw [computeAlignedSize, Nat.add_sub_assoc hAlign, add_eq_or hClear]
  apply Nat.eq_of_testBit_eq
  intro i
  have hBit : (y.testBit i && (am.align - 1).testBit i) = false := by
    rw [← Nat.testBit_and, hClear, Nat.zero_testBit]
  rw [Nat.testBit_xor, Nat.testBit_and, Nat.testBit_or]
  cases hy : y.testBit i <;> cases hm : (am.align - 1).testBit i <;> simp_all

end AddressManager

namespace AddressSpace

open AddressManager

variable {alignBytes : Nat} {am am' : AddressManager} {live live' : List FreeBlock}

theorem Kept.perm (h : Kept alignBytes ⟨am, live⟩) (hPerm : live.Perm live') :
    Kept alignBytes ⟨am, live'⟩ :=
  ⟨h.align, h.sorted, h.packed.perm .rfl hPerm, by
    rw [h.counter]
    exact congrArg Nat.cast (hPerm.map Extent.size).sum_eq⟩

theorem Kept.fuse {b c : FreeBlock} (h : Kept alignBytes ⟨am, b :: c :: live⟩)
    (hTouch : b.stop = c.start) :
    Kept alignBytes ⟨am, ⟨b.start, b.size + c.size⟩ :: live⟩ :=
  ⟨h.align, h.sorted, h.packed.fuse hTouch, by
    rw [h.counter]
    simp only [map_cons, sum_cons, Nat.add_assoc]⟩

theorem Kept.giveBack {block : FreeBlock} (h : Kept alignBytes ⟨am, block :: live⟩) :
    Kept alignBytes ⟨am.free block, live⟩ := by
  have hFreed := h.free mem_cons_self
  rwa [erase_cons_head] at hFreed

theorem Kept.unique (h : Kept alignBytes ⟨am, live⟩) (h' : Kept alignBytes ⟨am', live'⟩)
    (hSize : am.size = am'.size) (hPerm : live.Perm live') : am = am' := by
  have h' := h'.perm hPerm.symm
  have hList : am.explicitList = am'.explicitList := by
    refine h.separated.eq_of_covered h'.separated
      (fun b hb => h.packed.nonempty b (mem_append_left _ hb))
      (fun b hb => h'.packed.nonempty b (mem_append_left _ hb)) fun x => ?_
    rw [h.packed.tiles.covered_iff, h'.packed.tiles.covered_iff]
    simp only [hSize]
  have hAlign : am.align = am'.align := h.align.trans h'.align.symm
  have hCounter : am.totalAllocatedSize = am'.totalAllocatedSize := h.counter.trans h'.counter.symm
  cases am
  cases am'
  simp only at hSize hAlign hList hCounter
  rw [hSize, hAlign, hList, hCounter]

end AddressSpace

open AddressManager AddressSpace

/-- A manager with its live blocks: kept, or new and without addresses. -/
inductive Held (alignBytes : Nat) (am : AddressManager) (live : List FreeBlock) : Prop
  | kept (h : Kept alignBytes ⟨am, live⟩) (hSize : 0 < am.size)
  | vacant (hManager : am = .init 0 alignBytes) (hLive : live = [])

namespace Held

variable {alignBytes : Nat} {am am' : AddressManager} {live live' : List FreeBlock}

theorem init (size alignBytes : Nat) : Held alignBytes (.init size alignBytes) [] := by
  rcases Nat.eq_zero_or_pos size with rfl | hPos
  · exact .vacant rfl rfl
  · exact .kept (sound_init hPos).kept hPos

theorem align (h : Held alignBytes am live) : am.align = alignBytes := by
  cases h with
  | kept h _ => exact h.align
  | vacant hManager _ => rw [hManager, AddressManager.init]

theorem aligned_pos (h : Held alignBytes am live) (hAlign : 0 < alignBytes) {size : Nat}
    (hPos : 0 < size) : 0 < am.computeAlignedSize size :=
  AddressManager.aligned_pos (h.align ▸ hAlign) hPos

theorem perm (h : Held alignBytes am live) (hPerm : live.Perm live') :
    Held alignBytes am live' := by
  cases h with
  | kept h hSize => exact .kept (h.perm hPerm) hSize
  | vacant hManager hLive => exact .vacant hManager (nil_perm.mp (hLive ▸ hPerm))

theorem fuse {b c : FreeBlock} (h : Held alignBytes am (b :: c :: live))
    (hTouch : b.stop = c.start) :
    Held alignBytes am (⟨b.start, b.size + c.size⟩ :: live) := by
  cases h with
  | kept h hSize => exact .kept (h.fuse hTouch) hSize
  | vacant _ hLive => cases hLive

theorem giveBack {block : FreeBlock} (h : Held alignBytes am (block :: live)) :
    Held alignBytes (am.free block) live := by
  cases h with
  | kept h hSize => exact .kept h.giveBack hSize
  | vacant _ hLive => cases hLive

theorem allocate (h : Held alignBytes am live) {size : Nat} (hPos : 0 < am.computeAlignedSize size)
    {block : FreeBlock} (hCall : am.allocate size = .ok (block, am')) :
    Held alignBytes am' (block :: live) := by
  cases h with
  | kept h hSize =>
    obtain ⟨_, -, -, -, hSame⟩ := allocate_eq_ok hCall
    exact .kept (h.allocate hPos hCall) (hSame ▸ hSize)
  | vacant hManager hLive =>
    subst hManager
    cases (allocate_init_zero hPos).symm.trans hCall

theorem batchedAllocate (h : Held alignBytes am live) {size : Nat} {batchSize : Int}
    (hPos : 0 < am.computeAlignedSize size) {blocks : List FreeBlock}
    (hCall : am.batchedAllocate size batchSize = .ok (blocks, am')) :
    Held alignBytes am' (blocks ++ live) := by
  cases h with
  | kept h hSize =>
    obtain ⟨_, _, _, -, -, -, hSame⟩ := batchedAllocate_eq_ok hPos hCall
    exact .kept (h.batchedAllocate hPos hCall) (hSame ▸ hSize)
  | vacant hManager hLive =>
    subst hManager hLive
    obtain ⟨rfl, rfl, -⟩ := batchedAllocate_init_zero hPos hCall
    exact .vacant rfl rfl

theorem sbrk (h : Held alignBytes am live) {size : Nat} (hPos : 0 < am.computeAlignedSize size) :
    Held alignBytes (am.sbrk size) live := by
  cases h with
  | kept h hSize => exact .kept (h.sbrk hPos) (Nat.add_pos_left hSize _)
  | vacant hManager hLive =>
    subst hManager hLive
    have hGrown : (AddressManager.init 0 alignBytes).sbrk size =
        .init ((AddressManager.init 0 alignBytes).computeAlignedSize size) alignBytes := by
      simp [AddressManager.sbrk, AddressManager.init, add, addByKey, coalesce,
        FreeBlock.canBeCoalesced, Option.filter]
    rw [hGrown]
    exact .init _ _

theorem giveBackAll {α : Type} (f : α → FreeBlock) (runs : List α)
    (h : Held alignBytes am (runs.map f ++ live)) :
    Held alignBytes (runs.foldl (fun am run => am.free (f run)) am) live := by
  induction runs generalizing am with
  | nil => exact h
  | cons run runs ih => exact ih h.giveBack

theorem unique (h : Held alignBytes am live) (h' : Held alignBytes am' live')
    (hSize : am.size = am'.size) (hPerm : live.Perm live') : am = am' := by
  cases h with
  | kept h hPos =>
    cases h' with
    | kept h' _ => exact h.unique h' hSize hPerm
    | vacant hManager' _ =>
      rw [hManager'] at hSize
      exact absurd hSize hPos.ne'
  | vacant hManager hLive =>
    cases h' with
    | kept h' hPos' =>
      rw [hManager] at hSize
      exact absurd hSize.symm hPos'.ne'
    | vacant hManager' _ => rw [hManager, hManager']

theorem within (h : Held alignBytes am live) {block : FreeBlock} (hLive : block ∈ live) :
    block.stop ≤ am.size ∧ 0 < block.size := by
  cases h with
  | kept h _ =>
    exact ⟨h.packed.tiles.within block (mem_append_right _ hLive),
      h.packed.nonempty block (mem_append_right _ hLive)⟩
  | vacant _ hNone =>
    rw [hNone] at hLive
    cases hLive

end Held

end LMCache
