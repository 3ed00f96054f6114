import LMCache.Lib.FirstFit
import LMCache.Memory.TensorAllocator
import Mathlib.Data.Nat.Bitwise

/-!
# The address manager keeps its heap packed

The abstract heap is a pair of lists of extents, free and live, taken up to order. It is packed
when both together tile the address range, no extent is empty and no two free extents touch. Every
call of the address manager is made of moves that keep it packed, whatever the order of its free
list is.
-/

namespace LMCache

open Lib List

structure Packed (size : Nat) (free live : List Extent) : Prop where
  tiles : Tiles (free ++ live) size
  nonempty : ∀ b ∈ free ++ live, 0 < b.size
  coalesced : ∀ a ∈ free, ∀ b ∈ free, a.stop ≠ b.start

/-- `Joined c free free'`: up to order, `free'` is `free` with the extent `c` joined to the
extents that touch it. -/
inductive Joined (c : Extent) (free free' : List Extent) : Prop
  | both {p s : Extent} {rest : List Extent} (hPrev : p.stop = c.start)
      (hSucc : c.stop = s.start) (hFree : free.Perm (p :: s :: rest))
      (hFree' : free'.Perm (⟨p.start, p.size + (c.size + s.size)⟩ :: rest))
  | prev {p : Extent} {rest : List Extent} (hPrev : p.stop = c.start)
      (hSucc : ∀ b ∈ free, c.stop ≠ b.start) (hFree : free.Perm (p :: rest))
      (hFree' : free'.Perm (⟨p.start, p.size + c.size⟩ :: rest))
  | succ {s : Extent} {rest : List Extent} (hPrev : ∀ b ∈ free, b.stop ≠ c.start)
      (hSucc : c.stop = s.start) (hFree : free.Perm (s :: rest))
      (hFree' : free'.Perm (⟨c.start, c.size + s.size⟩ :: rest))
  | apart (hPrev : ∀ b ∈ free, b.stop ≠ c.start) (hSucc : ∀ b ∈ free, c.stop ≠ b.start)
      (hFree' : free'.Perm (c :: free))

namespace Packed

variable {size : Nat} {free free' live live' : List Extent}

theorem perm (h : Packed size free live) (hFree : free.Perm free') (hLive : live.Perm live') :
    Packed size free' live' where
  tiles := h.tiles.perm (hFree.append hLive)
  nonempty b hb := h.nonempty b ((hFree.append hLive).mem_iff.mpr hb)
  coalesced a ha b hb := h.coalesced a (hFree.mem_iff.mpr ha) b (hFree.mem_iff.mpr hb)

variable {b : Extent}

theorem disjoint_head (h : Packed size (b :: free) live) : ∀ c ∈ free ++ live, b.Disjoint c :=
  (pairwise_cons.mp h.tiles.disjoint).1

theorem take {n : Nat} (h : Packed size (b :: free) live) (hPos : 0 < n) (hFits : n ≤ b.size) :
    Packed size (b.after n ++ free) (⟨b.start, n⟩ :: live) where
  tiles := by
    have hCut : Tiles (⟨b.start, n⟩ :: (b.after n ++ (free ++ live))) size :=
      h.tiles.cut hFits
    rw [← append_assoc] at hCut
    exact hCut.perm perm_middle.symm
  nonempty c hc := by
    simp only [mem_append, mem_cons, Extent.mem_after] at hc
    rcases hc with (⟨hLt, rfl⟩ | hc) | rfl | hc
    · simp only
      omega
    · exact h.nonempty c (by simp [hc])
    · exact hPos
    · exact h.nonempty c (by simp [hc])
  coalesced a ha c hc := by
    simp only [mem_append, Extent.mem_after] at ha hc
    have hStop : b.start + n + (b.size - n) = b.stop := by
      simp only [Extent.stop]
      omega
    rcases ha with ⟨hLt, rfl⟩ | ha
    · rcases hc with ⟨-, rfl⟩ | hc
      · simp only [Extent.stop_mk]
        omega
      · rw [Extent.stop_mk, hStop]
        exact h.coalesced b (by simp) c (by simp [hc])
    · rcases hc with ⟨hLt, rfl⟩ | hc
      · -- The cut lies inside `b`, where no other extent ends.
        have hApart := h.disjoint_head a (by simp [ha])
        have hSize := h.nonempty a (by simp [ha])
        simp only [Extent.Disjoint, Extent.stop] at hApart ⊢
        omega
      · exact h.coalesced a (by simp [ha]) c (by simp [hc])

theorem take_many {n k : Nat} (h : Packed size (b :: free) live) (hPos : 0 < n)
    (hFits : k * n ≤ b.size) : Packed size (b.after (k * n) ++ free)
      ((List.range k).map (fun i => ⟨b.start + i * n, n⟩) ++ live) := by
  induction k with
  | zero =>
    have hSize := h.nonempty b (by simp)
    have hAll : b.after (0 * n) = [b] := by
      simp only [Extent.after, Nat.zero_mul, hSize, ↓reduceIte, Nat.add_zero, Nat.sub_zero]
    rw [hAll]
    simpa using h
  | succ k ih =>
    rw [Nat.succ_mul] at hFits
    have hLt : k * n < b.size := by omega
    have hAfter : b.after (k * n) = [⟨b.start + k * n, b.size - k * n⟩] := if_pos hLt
    have hPrev := ih (by omega)
    rw [hAfter] at hPrev
    have hTaken := Packed.take (n := n) hPrev hPos (by simp only; omega)
    have hRest : (Extent.mk (b.start + k * n) (b.size - k * n)).after n =
        b.after ((k + 1) * n) := by
      simp only [Extent.after, Nat.succ_mul]
      by_cases hMore : k * n + n < b.size
      · rw [if_pos (by omega), if_pos hMore, Nat.sub_sub, Nat.add_assoc]
      · rw [if_neg (by omega), if_neg hMore]
    rw [hRest] at hTaken
    refine hTaken.perm .rfl ?_
    rw [range_succ, map_append, append_assoc]
    exact perm_middle.symm

theorem grow {k : Nat} (h : Packed size free live) (hPos : 0 < k) :
    Packed (size + k) free (⟨size, k⟩ :: live) where
  tiles := (h.tiles.extend k).perm perm_middle.symm
  nonempty b hb := by
    simp only [mem_append, mem_cons] at hb
    rcases hb with hb | rfl | hb
    · exact h.nonempty b (by simp [hb])
    · exact hPos
    · exact h.nonempty b (by simp [hb])
  coalesced := h.coalesced

theorem put {m : Extent} {rest : List Extent} (h : Packed size free live)
    (hTiles : Tiles (m :: (rest ++ live')) size) (hRest : rest ⊆ free) (hLive : live' ⊆ live)
    (hPos : 0 < m.size) (hBefore : ∀ b ∈ rest, b.stop ≠ m.start)
    (hAfter : ∀ b ∈ rest, m.stop ≠ b.start) : Packed size (m :: rest) live' where
  tiles := hTiles
  nonempty b hb := by
    simp only [cons_append, mem_cons, mem_append] at hb
    rcases hb with rfl | hb | hb
    · exact hPos
    · exact h.nonempty b (by simp [hRest hb])
    · exact h.nonempty b (by simp [hLive hb])
  coalesced a ha b hb := by
    rcases mem_cons.mp ha with rfl | ha
    · rcases mem_cons.mp hb with rfl | hb
      · simp only [Extent.stop]
        omega
      · exact hAfter b hb
    · rcases mem_cons.mp hb with hm | hb
      · rw [hm]
        exact hBefore a ha
      · exact h.coalesced a (hRest ha) b (hRest hb)

theorem join {c : Extent} (h : Packed size free (c :: live)) (hJoin : Joined c free free') :
    Packed size free' live := by
  have hLive : live ⊆ c :: live := fun b hb => mem_cons_of_mem c hb
  have hPos : 0 < c.size := h.nonempty c (by simp)
  have hOther : ∀ b ∈ free ++ live, 0 < b.size := fun b hb =>
    h.nonempty b (by
      rcases mem_append.mp hb with hb | hb
      · exact mem_append_left _ hb
      · exact mem_append_right _ (hLive hb))
  have hTiles : Tiles (c :: (free ++ live)) size := h.tiles.perm perm_middle
  cases hJoin with
  | @both p s rest hPrev hSucc hFree hFree' =>
    have hp : p ∈ free := hFree.mem_iff.mpr (by simp)
    have hs : s ∈ free := hFree.mem_iff.mpr (by simp)
    have hSub : rest ⊆ free := fun b hb => hFree.mem_iff.mpr (by simp [hb])
    have hRest : ∀ b ∈ p :: (rest ++ live), 0 < b.size := fun b hb =>
      hOther b ((hFree.append_right live).mem_iff.mpr (by
        simp only [cons_append, mem_cons] at hb ⊢
        exact hb.imp_right Or.inr))
    have hMoved : Tiles (c :: s :: p :: (rest ++ live)) size :=
      hTiles.perm (((hFree.append_right live).trans (.swap s p _)).cons c)
    have hFirst := hMoved.merge hSucc hRest
    have hBoth : Tiles (⟨p.start, p.size + (c.size + s.size)⟩ :: (rest ++ live)) size :=
      (hFirst.perm (.swap p _ _)).merge hPrev fun b hb => hRest b (mem_cons_of_mem _ hb)
    have hEnd : p.start + (p.size + (c.size + s.size)) = s.stop := by
      simp only [Extent.stop] at hPrev hSucc ⊢
      omega
    refine (h.put hBoth hSub hLive (by simp only; omega) ?_ ?_).perm hFree'.symm .rfl
    · exact fun b hb => h.coalesced b (hSub hb) p hp
    · intro b hb
      rw [Extent.stop_mk, hEnd]
      exact h.coalesced s hs b (hSub hb)
  | @prev p rest hPrev hSucc hFree hFree' =>
    have hp : p ∈ free := hFree.mem_iff.mpr (by simp)
    have hSub : rest ⊆ free := fun b hb => hFree.mem_iff.mpr (by simp [hb])
    have hMoved : Tiles (p :: c :: (rest ++ live)) size :=
      hTiles.perm (((hFree.append_right live).cons c).trans (.swap p c _))
    have hMerged := hMoved.merge hPrev fun b hb =>
      hOther b ((hFree.append_right live).mem_iff.mpr (mem_cons_of_mem p hb))
    have hEnd : p.start + (p.size + c.size) = c.stop := by
      simp only [Extent.stop] at hPrev ⊢
      omega
    refine (h.put hMerged hSub hLive (by simp only; omega) ?_ ?_).perm hFree'.symm .rfl
    · exact fun b hb => h.coalesced b (hSub hb) p hp
    · intro b hb
      rw [Extent.stop_mk, hEnd]
      exact hSucc b (hSub hb)
  | @succ s rest hPrev hSucc hFree hFree' =>
    have hs : s ∈ free := hFree.mem_iff.mpr (by simp)
    have hSub : rest ⊆ free := fun b hb => hFree.mem_iff.mpr (by simp [hb])
    have hMoved : Tiles (c :: s :: (rest ++ live)) size :=
      hTiles.perm ((hFree.append_right live).cons c)
    have hMerged := hMoved.merge hSucc fun b hb =>
      hOther b ((hFree.append_right live).mem_iff.mpr (mem_cons_of_mem s hb))
    have hEnd : c.start + (c.size + s.size) = s.stop := by
      simp only [Extent.stop] at hSucc ⊢
      omega
    refine (h.put hMerged hSub hLive (by simp only; omega) ?_ ?_).perm hFree'.symm .rfl
    · exact fun b hb => hPrev b (hSub hb)
    · intro b hb
      rw [Extent.stop_mk, hEnd]
      exact h.coalesced s hs b (hSub hb)
  | apart hPrev hSucc hFree' =>
    exact (h.put hTiles (List.Subset.refl free) hLive hPos hPrev hSucc).perm hFree'.symm .rfl

end Packed

/-- The extents of a joined list start where free extents or the joined one started; the
joined one only when no free extent ends there. -/
theorem Joined.start_mem {c : Extent} {free free' : List Extent} (h : Joined c free free') :
    ∀ b ∈ free', (∃ a ∈ free, a.start = b.start) ∨
      (b.start = c.start ∧ ∀ a ∈ free, a.stop ≠ c.start) := by
  intro b hb
  cases h with
  | @both p s rest hPrev hSucc hFree hFree' | @prev p rest hPrev hSucc hFree hFree' =>
    rcases mem_cons.mp (hFree'.mem_iff.mp hb) with rfl | hb
    · exact Or.inl ⟨p, hFree.mem_iff.mpr (by simp), rfl⟩
    · exact Or.inl ⟨b, hFree.mem_iff.mpr (by simp [hb]), rfl⟩
  | @succ s rest hPrev hSucc hFree hFree' =>
    rcases mem_cons.mp (hFree'.mem_iff.mp hb) with rfl | hb
    · exact Or.inr ⟨rfl, hPrev⟩
    · exact Or.inl ⟨b, hFree.mem_iff.mpr (by simp [hb]), rfl⟩
  | apart hPrev hSucc hFree' =>
    rcases mem_cons.mp (hFree'.mem_iff.mp hb) with rfl | hb
    · exact Or.inr ⟨rfl, hPrev⟩
    · exact Or.inl ⟨b, hb, rfl⟩

namespace AddressManager

/-- The free list as `SortedList` keeps it. -/
def Sorted (blocks : List FreeBlock) : Prop :=
  blocks.Pairwise fun a b => a.start ≤ b.start

theorem Sorted.add {blocks : List FreeBlock} (h : Sorted blocks) (block : FreeBlock) :
    Sorted (add block blocks) :=
  FirstFit.Sorted.insert h block

theorem Sorted.erase {blocks : List FreeBlock} (h : Sorted blocks) (block : FreeBlock) :
    Sorted (blocks.erase block) :=
  FirstFit.Sorted.erase h block

theorem Sorted.set {blocks : List FreeBlock} {i : Nat} {p m : FreeBlock} (h : Sorted blocks)
    (hAt : blocks[i]? = some p) (hStart : m.start = p.start) : Sorted (blocks.set i m) := by
  have hMap : (blocks.set i m).map Extent.start = blocks.map Extent.start := by
    rw [map_set, hStart]
    apply ext_getElem?
    intro j
    rw [getElem?_set]
    split
    · rename_i hij
      subst hij
      obtain ⟨hi, hp⟩ := List.getElem?_eq_some_iff.mp hAt
      simp [hi, hp]
    · rfl
  have hStarts : (blocks.map Extent.start).Pairwise (· ≤ ·) := pairwise_map.mpr h
  rw [← hMap] at hStarts
  exact pairwise_map.mp hStarts

theorem set_perm {blocks : List FreeBlock} {i : Nat} {p m : FreeBlock} (hAt : blocks[i]? = some p) :
    ∃ rest, blocks.Perm (p :: rest) ∧ (blocks.set i m).Perm (m :: rest) := by
  obtain ⟨hi, hp⟩ := List.getElem?_eq_some_iff.mp hAt
  refine ⟨blocks.eraseIdx i, ?_, set_perm_cons_eraseIdx hi m⟩
  rw [← hp]
  exact (getElem_cons_eraseIdx_perm hi).symm

/-- `_coalesce` with positions that hold every block that touches the new one: the list that
`free` and `sbrk` leave is the joined list. -/
theorem coalesce_joined {blocks : List FreeBlock} {curr : FreeBlock} {prev succ : Option Nat}
    (hSorted : Sorted blocks) (hPos : 0 < curr.size)
    (hPrev : ∀ b ∈ blocks, b.stop = curr.start → prev.bind (blocks[·]?) = some b)
    (hSucc : ∀ b ∈ blocks, curr.stop = b.start → succ.bind (blocks[·]?) = some b) :
    Sorted ((coalesce blocks curr prev succ).getD (add curr blocks)) ∧
      Joined curr blocks ((coalesce blocks curr prev succ).getD (add curr blocks)) := by
  unfold coalesce
  dsimp only
  generalize hp : Option.filter _ (prev.bind _) = mergePrev
  generalize hs : Option.filter _ (succ.bind _) = mergeSucc
  have hNoPrev : mergePrev = none → ∀ b ∈ blocks, b.stop ≠ curr.start := by
    rintro rfl b hb hTouch
    obtain ⟨i, rfl, hi⟩ := Option.bind_eq_some_iff.mp (hPrev b hb hTouch)
    have := Option.filter_eq_none_iff.mp hp (i, b) (by simp [hi])
    exact this (beq_iff_eq.mpr hTouch)
  have hNoSucc : mergeSucc = none → ∀ b ∈ blocks, curr.stop ≠ b.start := by
    rintro rfl b hb hTouch
    obtain ⟨i, rfl, hi⟩ := Option.bind_eq_some_iff.mp (hSucc b hb hTouch)
    have := Option.filter_eq_none_iff.mp hs b (by simp [hi])
    exact this (beq_iff_eq.mpr hTouch)
  have hIsPrev : ∀ i p, mergePrev = some (i, p) → blocks[i]? = some p ∧ p.stop = curr.start := by
    rintro i p rfl
    obtain ⟨hAt, hTouch⟩ := Option.filter_eq_some_iff.mp hp
    obtain ⟨j, -, hj⟩ := Option.bind_eq_some_iff.mp hAt
    obtain ⟨q, hq, hEq⟩ := Option.map_eq_some_iff.mp hj
    cases hEq
    exact ⟨hq, beq_iff_eq.mp hTouch⟩
  have hIsSucc : ∀ s, mergeSucc = some s → s ∈ blocks ∧ curr.stop = s.start := by
    rintro s rfl
    obtain ⟨hAt, hTouch⟩ := Option.filter_eq_some_iff.mp hs
    obtain ⟨j, -, hj⟩ := Option.bind_eq_some_iff.mp hAt
    exact ⟨mem_of_getElem? hj, beq_iff_eq.mp hTouch⟩
  rcases mergePrev with _ | ⟨i, p⟩ <;> rcases mergeSucc with _ | s
  · simp only [Option.getD_none]
    exact ⟨hSorted.add curr, .apart (hNoPrev rfl) (hNoSucc rfl) (addByKey_perm _ _ _)⟩
  · obtain ⟨hMem, hTouch⟩ := hIsSucc s rfl
    have hStart : s.start - curr.size = curr.start := by
      simp only [Extent.stop] at hTouch
      omega
    simp only [Option.getD_some, hStart, Nat.add_comm s.size]
    refine ⟨(hSorted.erase s).add _, ?_⟩
    exact .succ (hNoPrev rfl) hTouch (perm_cons_erase hMem) (addByKey_perm _ _ _)
  · obtain ⟨hAt, hTouch⟩ := hIsPrev i p rfl
    obtain ⟨rest, hOld, hNew⟩ := set_perm (m := ⟨p.start, p.size + curr.size⟩) hAt
    simp only [Option.getD_some]
    exact ⟨hSorted.set hAt rfl, .prev hTouch (hNoSucc rfl) hOld hNew⟩
  · obtain ⟨hAt, hTouch⟩ := hIsPrev i p rfl
    obtain ⟨hMem, hTouch'⟩ := hIsSucc s rfl
    obtain ⟨rest, hOld, hNew⟩ :=
      set_perm (m := ⟨p.start, p.size + (curr.size + s.size)⟩) hAt
    simp only [Extent.stop] at hTouch hTouch'
    -- The successor starts after the predecessor, so it is another block of the list.
    have hLater : p.start < s.start := by omega
    have hRest : s ∈ rest := by
      rcases mem_cons.mp (hOld.mem_iff.mp hMem) with rfl | hs
      · exact absurd hLater (lt_irrefl _)
      · exact hs
    simp only [Option.getD_some]
    have hSet : Sorted (blocks.set i ⟨p.start, p.size + (curr.size + s.size)⟩) :=
      hSorted.set hAt rfl
    refine ⟨hSet.erase s, ?_⟩
    refine .both hTouch hTouch' (hOld.trans ((perm_cons_erase hRest).cons p)) ?_
    have hErase := hNew.erase s
    rwa [erase_cons_tail] at hErase
    intro hEq
    exact absurd (congrArg Extent.start (beq_iff_eq.mp hEq)) (ne_of_lt hLater)

/-- The list after a block is given back: `free` and `sbrk` look for its neighbours at the
position where it would stand. -/
def giveBack (blocks : List FreeBlock) (block : FreeBlock) : List FreeBlock :=
  let index := bisectLeft Extent.start block.start blocks
  let prev := if index > 0 then some (index - 1) else none
  let succ := if index < blocks.length then some index else none
  (coalesce blocks block prev succ).getD (add block blocks)

theorem giveBack_joined {size : Nat} {blocks live : List FreeBlock} {block : FreeBlock}
    (hSorted : Sorted blocks) (hPacked : Packed size blocks (block :: live)) :
    Sorted (giveBack blocks block) ∧ Joined block blocks (giveBack blocks block) := by
  have hPos : 0 < block.size := hPacked.nonempty block (by simp)
  have hSize : ∀ b ∈ blocks, 0 < b.size := fun b hb => hPacked.nonempty b (by simp [hb])
  have hOrder := pairwise_iff_getElem.mp hSorted
  have hApart := pairwise_iff_getElem.mp (pairwise_append.mp hPacked.tiles.disjoint).1
  -- Sorted and disjoint: an earlier block ends where a later one starts, or before.
  have hBefore : ∀ i j (hi : i < blocks.length) (hj : j < blocks.length), i < j →
      blocks[i].stop ≤ blocks[j].start := by
    intro i j hi hj hij
    have hi' := hSize _ (getElem_mem hi)
    have hj' := hSize _ (getElem_mem hj)
    have hLe := hOrder i j hi hj hij
    rcases hApart i j hi hj hij with hEnd | hEnd
    · exact hEnd
    · simp only [Extent.stop] at hEnd ⊢
      omega
  refine coalesce_joined hSorted hPos ?_ ?_
  · intro b hb hTouch
    obtain ⟨i, hi, rfl⟩ := getElem_of_mem hb
    have hb' := hSize _ hb
    have hLt : i < bisectLeft Extent.start block.start blocks := by
      by_contra hNot
      have := le_key_of_bisectLeft_le Extent.start hSorted (not_lt.mp hNot) hi
      simp only [Extent.stop] at hTouch
      omega
    have hLast : i = bisectLeft Extent.start block.start blocks - 1 := by
      by_contra hNot
      have hj : bisectLeft Extent.start block.start blocks - 1 < blocks.length := by
        have := bisectLeft_le Extent.start block.start blocks
        omega
      have hKey := key_lt_of_lt_bisectLeft Extent.start
        (show bisectLeft Extent.start block.start blocks - 1 <
          bisectLeft Extent.start block.start blocks by omega) hj
      have := hBefore i _ hi hj (by omega)
      omega
    rw [if_pos (by omega), Option.bind_some, ← hLast, getElem?_eq_getElem hi]
  · intro b hb hTouch
    obtain ⟨i, hi, rfl⟩ := getElem_of_mem hb
    have hLe : bisectLeft Extent.start block.start blocks ≤ i := by
      by_contra hNot
      have := key_lt_of_lt_bisectLeft Extent.start (not_le.mp hNot) hi
      simp only [Extent.stop] at hTouch
      omega
    have hFirst : bisectLeft Extent.start block.start blocks = i := by
      by_contra hNot
      have hj : bisectLeft Extent.start block.start blocks < blocks.length := by omega
      have hKey := le_key_of_bisectLeft_le Extent.start hSorted le_rfl hj
      have hEnd := hBefore _ i hj hi (by omega)
      have hj' := hSize _ (getElem_mem hj)
      have hDisjoint : Extent.Disjoint _ block :=
        (pairwise_append.mp hPacked.tiles.disjoint).2.2 _ (getElem_mem hj) block (by simp)
      simp only [Extent.Disjoint, Extent.stop] at hDisjoint hTouch hEnd
      omega
    rw [if_pos (by omega), Option.bind_some, hFirst, getElem?_eq_getElem hi]

variable {am : AddressManager}

/-- Every free block starts below the end of the heap, so `sbrk` looks at the last one. -/
theorem sbrk_explicitList {live : List FreeBlock} (hPacked : Packed am.size am.explicitList live)
    (size : Nat) : (am.sbrk size).explicitList =
      giveBack am.explicitList ⟨am.size, am.computeAlignedSize size⟩ := by
  have hEnd : bisectLeft Extent.start am.size am.explicitList = am.explicitList.length := by
    refine findIdx_eq_length.mpr fun b hb => ?_
    have hStop := hPacked.tiles.within b (by simp [hb])
    have hSize := hPacked.nonempty b (by simp [hb])
    simp only [Extent.stop] at hStop
    simp only [decide_eq_false_iff_not]
    omega
  simp only [sbrk, giveBack, hEnd, lt_irrefl, ↓reduceIte]

theorem computeAlignedSize_eq {k : Nat} (hAlign : am.align = 2 ^ k) (rawSize : Nat) :
    am.computeAlignedSize rawSize = (rawSize + 2 ^ k - 1) / 2 ^ k * 2 ^ k := by
  rw [computeAlignedSize, hAlign]
  apply Nat.eq_of_testBit_eq
  intro i
  rw [Nat.testBit_xor, Nat.testBit_and, Nat.testBit_two_pow_sub_one, Nat.testBit_mul_two_pow,
    Nat.testBit_div_two_pow]
  by_cases hLow : i < k
  · simp [hLow]
  · simp [hLow, not_lt.mp hLow, Nat.sub_add_cancel (not_lt.mp hLow)]

theorem dvd_computeAlignedSize {k : Nat} (hAlign : am.align = 2 ^ k) (rawSize : Nat) :
    am.align ∣ am.computeAlignedSize rawSize := by
  rw [computeAlignedSize_eq hAlign, hAlign]
  exact Dvd.intro_left _ rfl

theorem aligned_pos {rawSize : Nat} (hAlign : 0 < am.align) (hPos : 0 < rawSize) :
    0 < am.computeAlignedSize rawSize := by
  refine Nat.pos_of_ne_zero fun hZero => ?_
  have hSame : rawSize + am.align - 1 = (rawSize + am.align - 1) &&& (am.align - 1) :=
    Nat.xor_eq_zero_iff.mp hZero
  have hMask : (rawSize + am.align - 1) &&& (am.align - 1) ≤ am.align - 1 := Nat.and_le_right
  omega

/-- What the loop of `batched_allocate` has done on the blocks it went through: `kept` stay as
they are, the removed ones gave the blocks `allocated` and leave the ends `added`. -/
structure Carved (n : Nat) (blocks : List FreeBlock) (c c' : Carving)
    (allocated kept added : List FreeBlock) : Prop where
  allocateResult : c'.allocateResult = c.allocateResult ++ allocated
  blocksToAdd : c'.blocksToAdd = c.blocksToAdd ++ added
  removed : ∃ removed, c'.blocksToRemove = c.blocksToRemove ++ removed ∧
    blocks.Perm (removed ++ kept)
  sizes : ∀ b ∈ allocated, b.size = n
  starts : ∀ b ∈ allocated ++ added, ∃ a ∈ blocks, ∃ i, b.start = a.start + i * n
  packed : ∀ size free live, Packed size (blocks ++ free) live →
    Packed size (added ++ kept ++ free) (allocated ++ live)

variable {n : Nat}

theorem carve_carved (hPos : 0 < n) (blocks : List FreeBlock) (c : Carving) :
    ∃ allocated kept added, Carved n blocks c (carve n blocks c) allocated kept added := by
  induction blocks generalizing c with
  | nil =>
    exact ⟨[], [], [], by simp [carve], by simp [carve], ⟨[], by simp [carve], .nil⟩,
      by simp, by simp, fun _ _ _ h => h⟩
  | cons block blocks ih =>
    unfold carve
    by_cases hDone : c.remaining ≤ 0
    · rw [if_pos hDone]
      exact ⟨[], block :: blocks, [], by simp, by simp, ⟨[], by simp, .refl _⟩, by simp, by simp,
        fun _ _ _ h => h⟩
    rw [if_neg hDone]
    by_cases hSmall : block.size < n
    · rw [if_pos hSmall]
      obtain ⟨allocated, kept, added, h⟩ := ih c
      obtain ⟨removed, hRemoved, hPerm⟩ := h.removed
      refine ⟨allocated, block :: kept, added, h.allocateResult, h.blocksToAdd,
        ⟨removed, hRemoved, (hPerm.cons block).trans perm_middle.symm⟩, h.sizes, ?_, ?_⟩
      · intro b hb
        obtain ⟨a, ha, hStart⟩ := h.starts b hb
        exact ⟨a, mem_cons_of_mem _ ha, hStart⟩
      · intro size free live hPacked
        have hMoved : Packed size (blocks ++ block :: free) live :=
          hPacked.perm perm_middle.symm .rfl
        refine (h.packed _ _ _ hMoved).perm ?_ .rfl
        simp only [append_assoc, cons_append]
        exact perm_append_left_iff _ |>.mpr perm_middle
    · rw [if_neg hSmall]
      obtain ⟨allocated, kept, added, h⟩ := ih (c.take n block)
      obtain ⟨removed, hRemoved, hPerm⟩ := h.removed
      let count := min c.remaining.toNat (block.size / n)
      let first : List FreeBlock :=
        (List.range count).map fun i => ⟨block.start + i * n, n⟩
      have hFits : count * n ≤ block.size :=
        le_trans (Nat.mul_le_mul_right n (min_le_right _ _)) (Nat.div_mul_le_self _ _)
      refine ⟨first ++ allocated, kept, block.after (count * n) ++ added, ?_, ?_,
        ⟨block :: removed, ?_, hPerm.cons block⟩, ?_, ?_, ?_⟩
      · rw [h.allocateResult, ← append_assoc]
        rfl
      · rw [h.blocksToAdd, ← append_assoc]
        simp only [Carving.take, Extent.after]
        split <;> simp_all [count]
      · rw [hRemoved]
        simp [Carving.take]
      · intro b hb
        rcases mem_append.mp hb with hb | hb
        · obtain ⟨i, -, rfl⟩ := mem_map.mp hb
          rfl
        · exact h.sizes b hb
      · intro b hb
        simp only [mem_append] at hb
        rcases hb with (hb | hb) | hb | hb
        · obtain ⟨i, -, rfl⟩ := mem_map.mp hb
          exact ⟨block, by simp, i, rfl⟩
        · obtain ⟨a, ha, hStart⟩ := h.starts b (by simp [hb])
          exact ⟨a, mem_cons_of_mem _ ha, hStart⟩
        · obtain ⟨-, rfl⟩ := Extent.mem_after.mp hb
          exact ⟨block, by simp, count, rfl⟩
        · obtain ⟨a, ha, hStart⟩ := h.starts b (by simp [hb])
          exact ⟨a, mem_cons_of_mem _ ha, hStart⟩
      · intro size free live hPacked
        have hTaken : Packed size (block.after (count * n) ++ (blocks ++ free)) (first ++ live) :=
          Packed.take_many hPacked hPos hFits
        have hMoved : Packed size (blocks ++ (block.after (count * n) ++ free)) (first ++ live) :=
          hTaken.perm (by
            simp only [← append_assoc]
            exact perm_append_comm.append_right free) .rfl
        refine (h.packed _ _ _ hMoved).perm ?_ ?_
        · simp only [← append_assoc]
          refine List.Perm.append_right free ?_
          exact (perm_append_comm).trans (by simp [append_assoc])
        · simp only [← append_assoc]
          exact perm_append_comm.append_right live

/-- The free list after `batched_allocate`: the removed blocks are out, the ends are in. -/
theorem foldl_erase_perm {blocks removed kept : List FreeBlock}
    (h : blocks.Perm (removed ++ kept)) :
    (removed.foldl (fun l block => l.erase block) blocks).Perm kept := by
  induction removed generalizing blocks with
  | nil => exact h
  | cons b removed ih =>
    rw [foldl_cons]
    refine ih ?_
    simpa using h.erase b

theorem foldl_erase_sorted {blocks : List FreeBlock} (removed : List FreeBlock)
    (h : Sorted blocks) : Sorted (removed.foldl (fun l block => l.erase block) blocks) := by
  induction removed generalizing blocks with
  | nil => exact h
  | cons b removed ih => exact ih (h.erase b)

theorem foldl_add_perm (added blocks : List FreeBlock) :
    (added.foldl (fun l block => add block l) blocks).Perm (added ++ blocks) := by
  induction added generalizing blocks with
  | nil => exact .refl _
  | cons b added ih =>
    rw [foldl_cons]
    refine (ih _).trans ?_
    exact ((addByKey_perm _ b blocks).append_left added).trans perm_middle

theorem foldl_add_sorted {blocks : List FreeBlock} (added : List FreeBlock)
    (h : Sorted blocks) : Sorted (added.foldl (fun l block => add block l) blocks) :=
  FirstFit.Sorted.insertAll h added

variable {am' : AddressManager}

theorem allocate_eq_ok {size : Nat} {block : FreeBlock} (h : am.allocate size = .ok (block, am'))
    : ∃ found ∈ am.explicitList, am.computeAlignedSize size ≤ found.size ∧
      block = ⟨found.start, am.computeAlignedSize size⟩ ∧
      am' = { am with
        explicitList := FirstFit.insertAll (am.explicitList.erase found)
          (found.after (am.computeAlignedSize size))
        totalAllocatedSize := am.totalAllocatedSize + am.computeAlignedSize size } := by
  unfold allocate at h
  dsimp only at h
  split at h
  · cases h
  rename_i found hFound
  obtain ⟨rfl, rfl⟩ := Prod.mk.inj (Except.ok.inj h)
  refine ⟨found, mem_of_find?_eq_some hFound, by simpa using find?_some hFound, rfl, ?_⟩
  unfold Extent.after
  split <;> rfl

variable {batchSize : Int}

theorem batchedAllocate_eq_ok {size : Nat} {blocks : List FreeBlock}
    (hPos : 0 < am.computeAlignedSize size)
    (h : am.batchedAllocate size batchSize = .ok (blocks, am')) :
    ∃ removed kept added, am.explicitList.Perm (removed ++ kept) ∧
      Carved (am.computeAlignedSize size) am.explicitList ⟨batchSize, [], [], []⟩
        (carve (am.computeAlignedSize size) am.explicitList ⟨batchSize, [], [], []⟩)
        blocks kept added ∧
      (blocks.length : Int) = batchSize ∧
      am' = { am with
        explicitList := FirstFit.insertAll
          (removed.foldl (fun l block => l.erase block) am.explicitList) added
        totalAllocatedSize :=
          am.totalAllocatedSize + am.computeAlignedSize size * batchSize } := by
  unfold batchedAllocate at h
  dsimp only at h
  obtain ⟨_, -, h⟩ := bind_eq_ok.mp h
  obtain ⟨_, -, h⟩ := bind_eq_ok.mp h
  obtain ⟨_, hLength, h⟩ := bind_eq_ok.mp h
  obtain ⟨rfl, rfl⟩ := Prod.mk.inj (Except.ok.inj h)
  obtain ⟨allocated, kept, added, hCarved⟩ :=
    carve_carved hPos am.explicitList ⟨batchSize, [], [], []⟩
  obtain ⟨removed, hRemoved, hPerm⟩ := hCarved.removed
  have hResult := hCarved.allocateResult
  have hAdded := hCarved.blocksToAdd
  simp only [nil_append] at hResult hAdded hRemoved
  rw [raiseIf_eq_ok, decide_eq_false_iff_not, not_not] at hLength
  rw [hResult] at hLength ⊢
  rw [hAdded, hRemoved]
  exact ⟨removed, kept, added, hPerm, hCarved, hLength, rfl⟩

theorem batchedAllocate_error {size : Nat} {e : PyException}
    (hPos : 0 < am.computeAlignedSize size) (h : am.batchedAllocate size batchSize = .error e) :
    e.kind = .runtimeError := by
  have hNoDivision : decide (am.computeAlignedSize size = 0) = false := decide_eq_false hPos.ne'
  unfold batchedAllocate at h
  dsimp only at h
  rw [hNoDivision, Bool.false_and, Bool.false_and, raiseIf_false, ok_bind] at h
  generalize carve (am.computeAlignedSize size) am.explicitList ⟨batchSize, [], [], []⟩ = c at h
  cases hRemaining : decide (c.remaining > 0) with
  | true =>
    rw [hRemaining] at h
    cases h
    rfl
  | false =>
    rw [hRemaining, raiseIf_false, ok_bind] at h
    cases hLength : decide ((c.allocateResult.length : Int) ≠ batchSize) with
    | true =>
      rw [hLength] at h
      cases h
      rfl
    | false =>
      rw [hLength] at h
      cases h

theorem allocate_init_zero {alignBytes : Nat}
    (hPos : 0 < (init 0 alignBytes).computeAlignedSize n) : (init 0 alignBytes).allocate n =
      raise .runtimeError (noMemoryText n) := by
  have hSmall : ¬ (init 0 alignBytes).computeAlignedSize n ≤ 0 := not_le.mpr hPos
  unfold allocate
  dsimp only
  rw [show (init 0 alignBytes).explicitList = [⟨0, 0⟩] from rfl,
    find?_singleton, decide_eq_false hSmall]
  rfl

theorem batchedAllocate_init_zero {alignBytes : Nat} {blocks : List FreeBlock}
    (hPos : 0 < (init 0 alignBytes).computeAlignedSize n)
    (h : (init 0 alignBytes).batchedAllocate n batchSize = .ok (blocks, am)) :
    blocks = [] ∧ am = .init 0 alignBytes ∧ batchSize = 0 := by
  have hCarve : carve ((init 0 alignBytes).computeAlignedSize n)
      [⟨0, 0⟩] ⟨batchSize, [], [], []⟩ = ⟨batchSize, [], [], []⟩ := by
    simp only [carve, hPos, ↓reduceIte, ite_self]
  unfold batchedAllocate at h
  dsimp only at h
  rw [show (init 0 alignBytes).explicitList = [⟨0, 0⟩] from rfl, hCarve] at h
  obtain ⟨_, -, h⟩ := bind_eq_ok.mp h
  obtain ⟨_, -, h⟩ := bind_eq_ok.mp h
  obtain ⟨_, hLength, h⟩ := bind_eq_ok.mp h
  rw [raiseIf_eq_ok, decide_eq_false_iff_not, not_not] at hLength
  obtain rfl : (0 : Int) = batchSize := hLength
  obtain ⟨rfl, rfl⟩ := Prod.mk.inj (Except.ok.inj h)
  refine ⟨rfl, ?_, rfl⟩
  simp [init, add, addByKey]

end AddressManager

namespace AddressSpace

open AddressManager

/-- The free list is sorted, the heap packed, free and live blocks stand on boundaries, and
the counter is the sum of the live sizes. -/
structure Sound (alignBytes : Nat) (s : AddressSpace) : Prop where
  align : s.manager.align = alignBytes
  sorted : Sorted s.manager.explicitList
  packed : Packed s.manager.size s.manager.explicitList s.live
  freeAligned : ∀ b ∈ s.manager.explicitList, alignBytes ∣ b.start
  liveAligned : ∀ b ∈ s.live, alignBytes ∣ b.start ∧ alignBytes ∣ b.size
  counter : s.manager.totalAllocatedSize = (s.live.map Extent.size).sum

/-- What holds for alignments of any size: everything but the boundaries. -/
structure Kept (alignBytes : Nat) (s : AddressSpace) : Prop where
  align : s.manager.align = alignBytes
  sorted : Sorted s.manager.explicitList
  packed : Packed s.manager.size s.manager.explicitList s.live
  counter : s.manager.totalAllocatedSize = (s.live.map Extent.size).sum

variable {alignBytes k : Nat} {s t : AddressSpace}

theorem Sound.kept (h : Sound alignBytes s) : Kept alignBytes s :=
  ⟨h.align, h.sorted, h.packed, h.counter⟩

theorem Kept.aligned_pos (h : Kept alignBytes s) (hAlign : 0 < alignBytes) {size : Nat}
    (hPos : 0 < size) : 0 < s.manager.computeAlignedSize size :=
  AddressManager.aligned_pos (h.align ▸ hAlign) hPos

variable {am : AddressManager}

theorem Kept.allocate (h : Kept alignBytes s) {size : Nat}
    (hPos : 0 < s.manager.computeAlignedSize size) {block : FreeBlock}
    (hCall : s.manager.allocate size = .ok (block, am)) :
    Kept alignBytes ⟨am, block :: s.live⟩ := by
  obtain ⟨found, hMem, hFits, rfl, rfl⟩ := allocate_eq_ok hCall
  have hTaken := Packed.take (h.packed.perm (perm_cons_erase hMem) .rfl) hPos hFits
  refine ⟨h.align, FirstFit.Sorted.insertAll (h.sorted.erase _) _,
    hTaken.perm (foldl_add_perm _ _).symm .rfl, ?_⟩
  simp only [h.counter, map_cons, sum_cons]
  push_cast
  ring

variable {batchSize : Int}

theorem Kept.batchedAllocate (h : Kept alignBytes s) {size : Nat}
    (hPos : 0 < s.manager.computeAlignedSize size) {blocks : List FreeBlock}
    (hCall : s.manager.batchedAllocate size batchSize = .ok (blocks, am)) :
    Kept alignBytes ⟨am, blocks ++ s.live⟩ := by
  obtain ⟨removed, kept, added, hPerm, hCarved, hLength, rfl⟩ := batchedAllocate_eq_ok hPos hCall
  have hList := (foldl_add_perm added _).trans ((foldl_erase_perm hPerm).append_left added)
  refine ⟨h.align, foldl_add_sorted added (foldl_erase_sorted removed h.sorted), ?_, ?_⟩
  · have hPacked := hCarved.packed s.manager.size [] s.live (by simpa using h.packed)
    rw [append_nil] at hPacked
    exact hPacked.perm hList.symm .rfl
  · have hSizes : blocks.map Extent.size =
        List.replicate blocks.length (s.manager.computeAlignedSize size) :=
      eq_replicate_iff.mpr ⟨length_map .., fun n hn => by
        obtain ⟨b, hb, rfl⟩ := mem_map.mp hn
        exact hCarved.sizes b hb⟩
    simp only [h.counter, map_append, sum_append, hSizes, sum_replicate_nat, ← hLength]
    push_cast
    ring

theorem Kept.free (h : Kept alignBytes s) {block : FreeBlock} (hLive : block ∈ s.live) :
    Kept alignBytes ⟨s.manager.free block, s.live.erase block⟩ := by
  have hPacked : Packed s.manager.size s.manager.explicitList (block :: s.live.erase block) :=
    h.packed.perm .rfl (perm_cons_erase hLive)
  obtain ⟨hSorted, hJoined⟩ := giveBack_joined h.sorted hPacked
  refine ⟨h.align, hSorted, hPacked.join hJoined, ?_⟩
  have hSum := ((perm_cons_erase hLive).map Extent.size).sum_eq
  rw [map_cons, sum_cons] at hSum
  simp only [AddressManager.free, h.counter, hSum]
  push_cast
  ring

theorem Kept.sbrk (h : Kept alignBytes s) {size : Nat}
    (hPos : 0 < s.manager.computeAlignedSize size) :
    Kept alignBytes ⟨s.manager.sbrk size, s.live⟩ := by
  have hGrown := h.packed.grow hPos
  obtain ⟨hSorted, hJoined⟩ := giveBack_joined h.sorted hGrown
  rw [← sbrk_explicitList h.packed] at hSorted hJoined
  exact ⟨h.align, hSorted, hGrown.join hJoined, h.counter⟩

theorem Sound.allocate (h : Sound (2 ^ k) s) {size : Nat} (hPos : 0 < size) {block : FreeBlock}
    (hCall : s.manager.allocate size = .ok (block, am)) :
    Sound (2 ^ k) ⟨am, block :: s.live⟩ := by
  have hKept := h.kept.allocate (h.kept.aligned_pos (Nat.two_pow_pos k) hPos) hCall
  have hAligned := dvd_computeAlignedSize h.align size
  rw [h.align] at hAligned
  obtain ⟨found, hMem, -, rfl, rfl⟩ := allocate_eq_ok hCall
  refine ⟨hKept.align, hKept.sorted, hKept.packed, ?_, ?_, hKept.counter⟩
  · intro b hb
    rcases mem_append.mp ((foldl_add_perm _ _).mem_iff.mp hb) with hb | hb
    · obtain ⟨-, rfl⟩ := Extent.mem_after.mp hb
      exact Nat.dvd_add (h.freeAligned found hMem) hAligned
    · exact h.freeAligned b (mem_of_mem_erase hb)
  · intro b hb
    rcases mem_cons.mp hb with rfl | hb
    · exact ⟨h.freeAligned found hMem, hAligned⟩
    · exact h.liveAligned b hb

theorem Sound.batchedAllocate (h : Sound (2 ^ k) s) {size : Nat} (hPos : 0 < size)
    {blocks : List FreeBlock}
    (hCall : s.manager.batchedAllocate size batchSize = .ok (blocks, am)) :
    Sound (2 ^ k) ⟨am, blocks ++ s.live⟩ := by
  have hAlignedPos := h.kept.aligned_pos (Nat.two_pow_pos k) hPos
  have hKept := h.kept.batchedAllocate hAlignedPos hCall
  have hAligned := dvd_computeAlignedSize h.align size
  rw [h.align] at hAligned
  obtain ⟨removed, kept, added, hPerm, hCarved, -, rfl⟩ := batchedAllocate_eq_ok hAlignedPos hCall
  have hList := (foldl_add_perm added _).trans ((foldl_erase_perm hPerm).append_left added)
  have hDvd : ∀ b ∈ blocks ++ added, 2 ^ k ∣ b.start := by
    intro b hb
    obtain ⟨a, ha, i, hStart⟩ := hCarved.starts b hb
    rw [hStart]
    exact Nat.dvd_add (h.freeAligned a ha) (Dvd.dvd.mul_left hAligned i)
  refine ⟨hKept.align, hKept.sorted, hKept.packed, ?_, ?_, hKept.counter⟩
  · intro b hb
    rcases mem_append.mp (hList.mem_iff.mp hb) with hb | hb
    · exact hDvd b (mem_append_right _ hb)
    · exact h.freeAligned b (hPerm.mem_iff.mpr (mem_append_right _ hb))
  · intro b hb
    rcases mem_append.mp hb with hb | hb
    · rw [hCarved.sizes b hb]
      exact ⟨hDvd b (mem_append_left _ hb), hAligned⟩
    · exact h.liveAligned b hb

theorem Sound.free (h : Sound (2 ^ k) s) {block : FreeBlock} (hLive : block ∈ s.live) :
    Sound (2 ^ k) ⟨s.manager.free block, s.live.erase block⟩ := by
  have hPacked : Packed s.manager.size s.manager.explicitList (block :: s.live.erase block) :=
    h.packed.perm .rfl (perm_cons_erase hLive)
  obtain ⟨-, hJoined⟩ := giveBack_joined h.sorted hPacked
  have hKept := h.kept.free hLive
  refine ⟨hKept.align, hKept.sorted, hKept.packed, ?_, ?_, hKept.counter⟩
  · intro b hb
    rcases hJoined.start_mem b hb with ⟨a, ha, hStart⟩ | ⟨hStart, -⟩
    · rw [← hStart]
      exact h.freeAligned a ha
    · rw [hStart]
      exact (h.liveAligned block hLive).1
  · exact fun b hb => h.liveAligned b (mem_of_mem_erase hb)

/-- The heap may end off a boundary; then its last addresses are free, and `sbrk` joins the
new block to them. -/
theorem Sound.sbrk (h : Sound (2 ^ k) s) {size : Nat} (hPos : 0 < size) :
    Sound (2 ^ k) ⟨s.manager.sbrk size, s.live⟩ := by
  have hAlignedPos := h.kept.aligned_pos (Nat.two_pow_pos k) hPos
  have hKept := h.kept.sbrk hAlignedPos
  obtain ⟨-, hJoined⟩ := giveBack_joined h.sorted (h.packed.grow hAlignedPos)
  rw [← sbrk_explicitList h.packed] at hJoined
  refine ⟨hKept.align, hKept.sorted, hKept.packed, ?_, h.liveAligned, hKept.counter⟩
  intro b hb
  rcases hJoined.start_mem b hb with ⟨a, ha, hStart⟩ | ⟨hStart, hNone⟩
  · rw [← hStart]
    exact h.freeAligned a ha
  · rw [hStart]
    simp only at hNone ⊢
    by_contra hOff
    have hSize : 0 < s.manager.size := by
      rcases Nat.eq_zero_or_pos s.manager.size with hZero | hSize
      · exact absurd (hZero ▸ dvd_zero _) hOff
      · exact hSize
    obtain ⟨c, hc, -, hHigh⟩ := h.packed.tiles.covered (s.manager.size - 1) (by omega)
    have hStop : c.stop = s.manager.size := by
      have := h.packed.tiles.within c hc
      omega
    rcases mem_append.mp hc with hc | hc
    · exact hNone c hc hStop
    · obtain ⟨hStartDvd, hSizeDvd⟩ := h.liveAligned c hc
      exact hOff (hStop ▸ Nat.dvd_add hStartDvd hSizeDvd)

variable {c : AddressCall}

theorem call_cases (h : AddressSpace.call s c = some t) : t = s ∨
    (∃ size block am, 0 < size ∧ s.manager.allocate size = .ok (block, am) ∧
      t = ⟨am, block :: s.live⟩) ∨
    (∃ size batchSize blocks am, 0 < size ∧
      s.manager.batchedAllocate size batchSize = .ok (blocks, am) ∧ t = ⟨am, blocks ++ s.live⟩) ∨
    (∃ block, block ∈ s.live ∧ t = ⟨s.manager.free block, s.live.erase block⟩) ∨
    (∃ size, 0 < size ∧ t = ⟨s.manager.sbrk size, s.live⟩) := by
  cases c with
  | allocate size =>
    simp only [AddressSpace.call, Option.ite_none_right_eq_some] at h
    obtain ⟨hPos, h⟩ := h
    split at h
    · rename_i block am hOk
      exact .inr (.inl ⟨size, block, am, hPos, hOk, (Option.some.inj h).symm⟩)
    · exact .inl (Option.some.inj h).symm
  | batchedAllocate size batchSize =>
    simp only [AddressSpace.call, Option.ite_none_right_eq_some] at h
    obtain ⟨hPos, h⟩ := h
    split at h
    · rename_i blocks am hOk
      exact .inr (.inr (.inl ⟨size, batchSize, blocks, am, hPos, hOk, (Option.some.inj h).symm⟩))
    · exact .inl (Option.some.inj h).symm
  | free block =>
    simp only [AddressSpace.call, Option.ite_none_right_eq_some, Option.some.injEq] at h
    exact .inr (.inr (.inr (.inl ⟨block, h.1, h.2.symm⟩)))
  | sbrk size =>
    simp only [AddressSpace.call, Option.ite_none_right_eq_some, Option.some.injEq] at h
    exact .inr (.inr (.inr (.inr ⟨size, h.1, h.2.symm⟩)))

theorem Kept.call (hAlign : 0 < alignBytes) (h : Kept alignBytes s)
    (hCall : AddressSpace.call s c = some t) : Kept alignBytes t := by
  obtain rfl | ⟨_, _, _, hPos, hOk, rfl⟩ | ⟨_, _, _, _, hPos, hOk, rfl⟩ | ⟨_, hLive, rfl⟩ |
    ⟨_, hPos, rfl⟩ := call_cases hCall
  · exact h
  · exact h.allocate (h.aligned_pos hAlign hPos) hOk
  · exact h.batchedAllocate (h.aligned_pos hAlign hPos) hOk
  · exact h.free hLive
  · exact h.sbrk (h.aligned_pos hAlign hPos)

theorem Sound.call (hAlign : alignBytes = 2 ^ k) (h : Sound alignBytes s)
    (hCall : AddressSpace.call s c = some t) : Sound alignBytes t := by
  subst hAlign
  obtain rfl | ⟨_, _, _, hPos, hOk, rfl⟩ | ⟨_, _, _, _, hPos, hOk, rfl⟩ | ⟨_, hLive, rfl⟩ |
    ⟨_, hPos, rfl⟩ := call_cases hCall
  · exact h
  · exact h.allocate hPos hOk
  · exact h.batchedAllocate hPos hOk
  · exact h.free hLive
  · exact h.sbrk hPos

theorem size_le_call (hCall : AddressSpace.call s c = some t) :
    s.manager.size ≤ t.manager.size := by
  obtain rfl | ⟨_, _, _, -, hOk, rfl⟩ | ⟨_, _, _, _, -, hOk, rfl⟩ | ⟨_, -, rfl⟩ |
    ⟨_, -, rfl⟩ := call_cases hCall
  · exact le_rfl
  · obtain ⟨_, -, -, -, rfl⟩ := allocate_eq_ok hOk
    exact le_rfl
  · unfold AddressManager.batchedAllocate at hOk
    dsimp only at hOk
    obtain ⟨_, -, hOk⟩ := bind_eq_ok.mp hOk
    obtain ⟨_, -, hOk⟩ := bind_eq_ok.mp hOk
    obtain ⟨_, -, hOk⟩ := bind_eq_ok.mp hOk
    obtain ⟨-, rfl⟩ := Prod.mk.inj (Except.ok.inj hOk)
    exact le_rfl
  · exact le_rfl
  · exact Nat.le_add_right _ _

theorem sound_init {size : Nat} (hPos : 0 < size) : Sound alignBytes (init size alignBytes) where
  align := rfl
  sorted := pairwise_singleton _ _
  packed := by
    refine ⟨⟨pairwise_singleton _ _, ?_, ?_, ?_⟩, ?_, ?_⟩
    · simp [init, AddressManager.init, add, addByKey, Extent.stop]
    · intro x hx
      exact ⟨⟨0, size⟩, by simp [init, AddressManager.init, add, addByKey], Nat.zero_le x,
        by simpa [init, AddressManager.init] using hx⟩
    · simp [init, AddressManager.init, add, addByKey]
    · simpa [init, AddressManager.init, add, addByKey] using hPos
    · simp only [init, AddressManager.init, add, addByKey, orderedInsert_nil,
        mem_singleton, forall_eq, Extent.stop]
      omega
  freeAligned := by simp [init, AddressManager.init, add, addByKey]
  liveAligned := by simp [init]
  counter := by simp [init, AddressManager.init]

/-- A new manager of size zero has one empty free block, and no call changes that before the
heap grows. -/
theorem call_init_zero (hAlign : 0 < alignBytes)
    (h : AddressSpace.call (init 0 alignBytes) c = some t) :
    t = init 0 alignBytes ∨ ∃ size, 0 < size ∧ t = init size alignBytes := by
  have hPositive : ∀ size, 0 < size →
      0 < (AddressManager.init 0 alignBytes).computeAlignedSize size := fun size hPos =>
    AddressManager.aligned_pos hAlign hPos
  obtain rfl | ⟨_, _, _, hPos, hOk, -⟩ | ⟨_, _, _, _, hPos, hOk, rfl⟩ | ⟨_, hLive, -⟩ |
    ⟨_, hPos, rfl⟩ := call_cases h
  · exact Or.inl rfl
  · cases (allocate_init_zero (hPositive _ hPos)).symm.trans hOk
  · obtain ⟨rfl, rfl, -⟩ := batchedAllocate_init_zero (hPositive _ hPos) hOk
    exact Or.inl rfl
  · cases hLive
  · refine Or.inr ⟨_, hPositive _ hPos, ?_⟩
    simp [init, AddressManager.sbrk, AddressManager.init, add, addByKey, coalesce,
      FreeBlock.canBeCoalesced, Option.filter]

/-- Every state reached from a new manager is sound, but for a manager of size zero that has
not grown yet. -/
theorem Reachable.sound {size : Nat} (hAlign : alignBytes = 2 ^ k)
    (h : Reachable size alignBytes s) :
    s = init 0 alignBytes ∨ Sound alignBytes s ∧ 0 < s.manager.size := by
  obtain ⟨calls, hRun⟩ := h
  refine hRun.invariant
    (I := fun s => s = init 0 alignBytes ∨ Sound alignBytes s ∧ 0 < s.manager.size) ?_ ?_
  · rintro s c t (rfl | ⟨hSound, hSize⟩) hCall
    · rcases call_init_zero (hAlign ▸ Nat.two_pow_pos k) hCall with hInit | ⟨size, hPos, hInit⟩
      · exact Or.inl hInit
      · exact Or.inr (hInit ▸ ⟨sound_init hPos, hPos⟩)
    · exact Or.inr ⟨hSound.call hAlign hCall, lt_of_lt_of_le hSize (size_le_call hCall)⟩
  · rcases Nat.eq_zero_or_pos size with rfl | hPos
    · exact Or.inl rfl
    · exact Or.inr ⟨sound_init hPos, hPos⟩

theorem Reachable.kept {size : Nat} (hAlign : 0 < alignBytes) (h : Reachable size alignBytes s) :
    s = init 0 alignBytes ∨ Kept alignBytes s ∧ 0 < s.manager.size := by
  obtain ⟨calls, hRun⟩ := h
  refine hRun.invariant
    (I := fun s => s = init 0 alignBytes ∨ Kept alignBytes s ∧ 0 < s.manager.size) ?_ ?_
  · rintro s c t (rfl | ⟨hKept, hSize⟩) hCall
    · rcases call_init_zero hAlign hCall with hInit | ⟨size, hPos, hInit⟩
      · exact Or.inl hInit
      · exact Or.inr (hInit ▸ ⟨(sound_init hPos).kept, hPos⟩)
    · exact Or.inr ⟨hKept.call hAlign hCall, lt_of_lt_of_le hSize (size_le_call hCall)⟩
  · rcases Nat.eq_zero_or_pos size with rfl | hPos
    · exact Or.inl rfl
    · exact Or.inr ⟨(sound_init hPos).kept, hPos⟩

/-- The representation invariant of the address manager, with the live blocks beside it. -/
structure RepInvariant (s : AddressSpace) : Prop where
  /-- Sorted, disjoint and with a gap between neighbours. -/
  separated : s.manager.explicitList.Pairwise fun a b => a.stop < b.start
  complement : ∀ x, Covered s.manager.explicitList x ↔
    x < s.manager.getHeapSize ∧ ¬ Covered s.live x
  liveDisjoint : s.live.Pairwise Extent.Disjoint
  liveNonempty : ∀ b ∈ s.live, 0 < b.size
  liveInside : ∀ b ∈ s.live, b.stop ≤ s.manager.getHeapSize
  liveAligned : ∀ b ∈ s.live, s.manager.align ∣ b.start
  counter : s.manager.totalAllocatedSize = (s.live.map Extent.size).sum
  consistent : s.manager.checkConsistency = true

theorem separated_of_packed {size : Nat} {free live : List Extent} (h : Packed size free live)
    (hSorted : Sorted free) : Separated free := by
  have hDisjoint := (pairwise_append.mp h.tiles.disjoint).1
  refine (hSorted.and hDisjoint).imp_of_mem ?_
  rintro a b ha hb ⟨hLe, hApart⟩
  have hTouch := h.coalesced a ha b hb
  have ha' := h.nonempty a (mem_append_left _ ha)
  have hb' := h.nonempty b (mem_append_left _ hb)
  simp only [Extent.Disjoint, Extent.stop] at hApart hTouch ⊢
  omega

theorem Kept.separated (h : Kept alignBytes s) : Separated s.manager.explicitList :=
  separated_of_packed h.packed h.sorted

theorem checkConsistency_of {live : List FreeBlock}
    (hSeparated : am.explicitList.Pairwise fun a b => a.stop < b.start)
    (hTotal : ((am.explicitList ++ live).map Extent.size).sum = am.size)
    (hCounter : am.totalAllocatedSize = (live.map Extent.size).sum) :
    am.checkConsistency = true := by
  have hGaps : (am.explicitList.dropLast.zip am.explicitList.tail).any
      (fun p => FreeBlock.canBeCoalesced p.1 p.2) = false := by
    rw [any_eq_false]
    rintro ⟨a, b⟩ hMem
    obtain ⟨i, hi, hPair⟩ := getElem_of_mem hMem
    rw [getElem_zip, Prod.mk.injEq, getElem_dropLast, getElem_tail] at hPair
    obtain ⟨rfl, rfl⟩ := hPair
    have hLength : i + 1 < am.explicitList.length := by
      simp only [length_zip, length_dropLast, length_tail] at hi
      omega
    have hGap := pairwise_iff_getElem.mp hSeparated i (i + 1) (by omega) hLength
      (Nat.lt_succ_self i)
    rw [FreeBlock.canBeCoalesced, beq_iff_eq]
    exact ne_of_lt hGap
  rw [map_append, sum_append] at hTotal
  simp only [checkConsistency, hGaps, Bool.false_eq_true, ↓reduceIte, decide_eq_true_eq, hCounter]
  exact_mod_cast hTotal

theorem Sound.repInvariant (h : Sound alignBytes s) : RepInvariant s where
  separated := h.kept.separated
  complement x := h.packed.tiles.covered_iff x
  liveDisjoint := (pairwise_append.mp h.packed.tiles.disjoint).2.1
  liveNonempty b hb := h.packed.nonempty b (mem_append_right _ hb)
  liveInside b hb := h.packed.tiles.within b (mem_append_right _ hb)
  liveAligned b hb := h.align ▸ (h.liveAligned b hb).1
  counter := h.counter
  consistent := checkConsistency_of h.kept.separated h.packed.tiles.total h.counter

theorem repInvariant_init_zero (alignBytes : Nat) : RepInvariant (init 0 alignBytes) where
  separated := pairwise_singleton _ _
  complement x := by
    refine iff_of_false ?_ (by simp [init, AddressManager.init, getHeapSize])
    simp [Covered, init, AddressManager.init, add, addByKey, Extent.Has, Extent.stop]
  liveDisjoint := .nil
  liveNonempty := by simp [init]
  liveInside := by simp [init]
  liveAligned := by simp [init]
  counter := rfl
  consistent := rfl

/-- The address manager keeps its representation invariant in every run, from a heap of any
size and for every power-of-two alignment. Its free blocks are nonempty as soon as the heap
is; the free list of an empty heap is one empty block. -/
theorem repInvariant_of_reachable {size k : Nat} (h : Reachable size (2 ^ k) s) :
    RepInvariant s ∧
      (0 < s.manager.getHeapSize → ∀ b ∈ s.manager.explicitList, 0 < b.size) ∧
      (s.manager.getHeapSize = 0 → s.manager.explicitList = [⟨0, 0⟩]) := by
  rcases h.sound rfl with rfl | ⟨hSound, hSize⟩
  · exact ⟨repInvariant_init_zero _, fun hPos => absurd hPos (lt_irrefl 0), fun _ => rfl⟩
  · refine ⟨hSound.repInvariant, fun _ b hb => ?_, fun hZero => absurd hZero hSize.ne'⟩
    exact hSound.packed.nonempty b (List.mem_append_left _ hb)

/-- Two blocks are taken from a heap of 10000 bytes, the second is given back, and the heap
grows past its end, which is off a boundary. -/
theorem repInvariant_after_growth :
    RepInvariant ⟨⟨14096, 2 ^ 12, [⟨4096, 10000⟩], 4096⟩, [⟨0, 4096⟩]⟩ :=
  have hReachable : Reachable 10000 (2 ^ 12)
      ⟨⟨14096, 2 ^ 12, [⟨4096, 10000⟩], 4096⟩, [⟨0, 4096⟩]⟩ :=
    ⟨[.allocate 100, .batchedAllocate 1 1, .free ⟨4096, 4096⟩, .sbrk 1],
      Run.of_exec call (by decide)⟩
  (repInvariant_of_reachable hReachable).1

theorem not_freeNonempty_init_zero :
    ∃ s, Reachable 0 (2 ^ 12) s ∧ ¬ ∀ b ∈ s.manager.explicitList, 0 < b.size :=
  ⟨init 0 (2 ^ 12), ⟨[], .nil _⟩, by decide⟩

end AddressSpace

end LMCache
