import LMCache.Blend.Lookup
import Mathlib.Data.Set.Card

/-!
# Overlapping matches

The greedy scan keeps, of matches of one length, as many as any choice of disjoint ones: two
disjoint matches never start in one kept match, and every match starts in one. The sweep over
sorted ranges counts each token position once.
-/

namespace LMCache.Blend

open List

/-- Two matches with no position in common. -/
def Apart (a b : CBMatchResult) : Prop := a.curEd ≤ b.curSt ∨ b.curEd ≤ a.curSt

/-- What the scan has kept of the matches seen so far, all of which start at or before `last`. -/
structure Scanned (seen : List CBMatchResult) (last : Int) (acc : List CBMatchResult × Int) :
    Prop where
  mem : ∀ k ∈ acc.1, k ∈ seen
  ascending : acc.1.Pairwise fun a b => a.curEd ≤ b.curSt
  ended : ∀ k ∈ acc.1, k.curEd ≤ acc.2
  /-- Every match starts in a kept one. -/
  covers : ∀ r ∈ seen, ∃ k ∈ acc.1, k.curSt ≤ r.curSt ∧ r.curSt < k.curEd
  /-- The last kept match reaches to the end. -/
  reached : acc = ([], -1) ∨ ∃ k ∈ acc.1, k.curSt ≤ last ∧ acc.2 = k.curEd

variable {seen : List CBMatchResult} {last : Int} {acc : List CBMatchResult × Int}

theorem Scanned.keep (h : Scanned seen last acc) {r : CBMatchResult} (hLast : last ≤ r.curSt)
    (hStart : 0 ≤ r.curSt) (hLength : r.curSt < r.curEd) :
    Scanned (seen ++ [r]) r.curSt (nonOverlappingAfterPrefix.keep acc r) := by
  unfold nonOverlappingAfterPrefix.keep
  split
  · rename_i hFree
    refine ⟨fun k hk => ?_, ?_, fun k hk => ?_, fun s hs => ?_, Or.inr ⟨r, by simp, le_refl _, rfl⟩⟩
    · rcases mem_append.mp hk with hOld | hNew
      · exact mem_append_left _ (h.mem k hOld)
      · exact mem_append_right _ hNew
    · refine pairwise_append.mpr ⟨h.ascending, pairwise_singleton _ _, fun k hk s hs => ?_⟩
      rw [mem_singleton.mp hs]
      exact (h.ended k hk).trans hFree
    · rcases mem_append.mp hk with hOld | hNew
      · have hEnd := h.ended k hOld
        dsimp only
        omega
      · rw [mem_singleton.mp hNew]
    · rcases mem_append.mp hs with hOld | hNew
      · obtain ⟨k, hk, hBounds⟩ := h.covers s hOld
        exact ⟨k, mem_append_left _ hk, hBounds⟩
      · rw [mem_singleton.mp hNew]
        exact ⟨r, by simp, le_refl _, hLength⟩
  · rename_i hTaken
    obtain hNone | ⟨k, hk, hBefore, hEnd⟩ := h.reached
    · rw [hNone] at hTaken
      dsimp only at hTaken
      omega
    · refine ⟨fun s hs => mem_append_left _ (h.mem s hs), h.ascending, h.ended, fun s hs => ?_,
        Or.inr ⟨k, hk, hBefore.trans hLast, hEnd⟩⟩
      rcases mem_append.mp hs with hOld | hNew
      · exact h.covers s hOld
      · rw [mem_singleton.mp hNew]
        exact ⟨k, hk, hBefore.trans hLast, by omega⟩

theorem Scanned.foldl {l : List CBMatchResult} (h : Scanned seen last acc)
    (hSorted : l.Pairwise fun a b => a.curSt ≤ b.curSt) (hLast : ∀ r ∈ l, last ≤ r.curSt)
    (hStart : ∀ r ∈ l, 0 ≤ r.curSt) (hLength : ∀ r ∈ l, r.curSt < r.curEd) :
    ∃ last', Scanned (seen ++ l) last' (l.foldl nonOverlappingAfterPrefix.keep acc) := by
  induction l generalizing seen last acc with
  | nil => exact ⟨last, by simpa using h⟩
  | cons r rest ih =>
    obtain ⟨hFirst, hRest⟩ := pairwise_cons.mp hSorted
    have hStep := h.keep (hLast r (by simp)) (hStart r (by simp)) (hLength r (by simp))
    obtain ⟨last', hDone⟩ := ih hStep hRest hFirst (fun s hs => hStart s (by simp [hs]))
      fun s hs => hLength s (by simp [hs])
    exact ⟨last', by simpa using hDone⟩

theorem length_le_of_covered {kept chosen : List CBMatchResult} {chunkSize : Int}
    (hKept : ∀ k ∈ kept, k.curEd = k.curSt + chunkSize)
    (hChosen : ∀ r ∈ chosen, r.curEd = r.curSt + chunkSize)
    (hCovers : ∀ r ∈ chosen, ∃ k ∈ kept, k.curSt ≤ r.curSt ∧ r.curSt < k.curEd)
    (hApart : chosen.Pairwise Apart) : chosen.length ≤ kept.length := by
  have hCover : ∀ r, ∃ k, r ∈ chosen → k ∈ kept ∧ k.curSt ≤ r.curSt ∧ r.curSt < k.curEd := by
    intro r
    by_cases hr : r ∈ chosen
    · obtain ⟨k, hk⟩ := hCovers r hr
      exact ⟨k, fun _ => hk⟩
    · exact ⟨r, fun hIn => absurd hIn hr⟩
  choose cover hIn using hCover
  have hNodup : (chosen.map cover).Nodup := by
    refine pairwise_map.mpr (hApart.imp_of_mem fun {a b} ha hb hDisjoint hEq => ?_)
    obtain ⟨hKeptA, hLowA, hHighA⟩ := hIn a ha
    obtain ⟨-, hLowB, hHighB⟩ := hIn b hb
    rw [← hEq] at hLowB hHighB
    have hEnd := hKept _ hKeptA
    have hEndA := hChosen a ha
    have hEndB := hChosen b hb
    unfold Apart at hDisjoint
    omega
  have hSubset : chosen.map cover ⊆ kept := by
    intro k hk
    obtain ⟨r, hr, rfl⟩ := mem_map.mp hk
    exact (hIn r hr).1
  have hLength := (subperm_of_subset hNodup hSubset).length_le
  rwa [length_map] at hLength

def uniqueTokenCoverage (results : List CBMatchResult) : Int :=
  (((results.map fun r => (r.curSt, r.curEd)).insertionSort
    fun a b => a.1 < b.1 ∨ a.1 = b.1 ∧ a.2 ≤ b.2).foldl sweep (0, -1)).1
where
  sweep (acc : Int × Int) (range : Int × Int) : Int × Int :=
    (if acc.2 ≤ range.1 then acc.1 + (range.2 - range.1)
      else if acc.2 < range.2 then acc.1 + (range.2 - acc.2) else acc.1,
      if acc.2 < range.2 then range.2 else acc.2)

def span (start stop : Int) : Finset Int :=
  (Finset.range (stop - start).toNat).image fun i : Nat => start + i

theorem mem_span {start stop p : Int} : p ∈ span start stop ↔ start ≤ p ∧ p < stop := by
  rw [span, Finset.mem_image]
  constructor
  · rintro ⟨i, hi, rfl⟩
    rw [Finset.mem_range] at hi
    omega
  · intro hp
    exact ⟨(p - start).toNat, by rw [Finset.mem_range]; omega, by omega⟩

theorem card_span (start stop : Int) : (span start stop).card = (stop - start).toNat := by
  rw [span, Finset.card_image_of_injective, Finset.card_range]
  intro i j hEq
  have hSame : start + (i : Int) = start + j := hEq
  omega

def positions (ranges : List (Int × Int)) : Finset Int :=
  ranges.foldr (fun range s => span range.1 range.2 ∪ s) ∅

theorem positions_cons (range : Int × Int) (rest : List (Int × Int)) :
    positions (range :: rest) = span range.1 range.2 ∪ positions rest := rfl

theorem mem_positions {ranges : List (Int × Int)} {p : Int} :
    p ∈ positions ranges ↔ ∃ range ∈ ranges, range.1 ≤ p ∧ p < range.2 := by
  induction ranges with
  | nil => simp [positions]
  | cons range rest ih =>
    rw [positions_cons, Finset.mem_union, mem_span, exists_mem_cons_iff, ← ih]

/-- The sweep has counted the positions `seen`. Behind the start of the last range they reach
to the current end. -/
structure Swept (seen : Finset Int) (last : Int) (acc : Int × Int) : Prop where
  count : acc.1 = seen.card
  reach : ∀ p, last ≤ p → (p ∈ seen ↔ p < acc.2)

theorem Swept.sweep {seen : Finset Int} {acc : Int × Int} (h : Swept seen last acc)
    {range : Int × Int} (hLast : last ≤ range.1) (hRange : range.1 < range.2) :
    Swept (seen ∪ span range.1 range.2) range.1 (uniqueTokenCoverage.sweep acc range) := by
  have hNew : seen ∪ span range.1 range.2 = seen ∪ span (max range.1 acc.2) range.2 := by
    ext p
    simp only [Finset.mem_union, mem_span]
    by_cases hp : range.1 ≤ p
    · have hReach := h.reach p (hLast.trans hp)
      rw [hReach]
      omega
    · constructor <;> rintro (hOld | hIn) <;> first | exact Or.inl hOld | omega
  have hDisjoint : Disjoint seen (span (max range.1 acc.2) range.2) := by
    rw [Finset.disjoint_left]
    intro p hp hIn
    rw [mem_span] at hIn
    have hReach := (h.reach p (by omega)).mp hp
    omega
  refine ⟨?_, fun p hp => ?_⟩
  · rw [hNew, Finset.card_union_of_disjoint hDisjoint, card_span]
    have hCount := h.count
    unfold uniqueTokenCoverage.sweep
    dsimp only
    split_ifs <;> omega
  · rw [Finset.mem_union, mem_span, h.reach p (hLast.trans hp)]
    unfold uniqueTokenCoverage.sweep
    dsimp only
    omega

theorem Swept.foldl {l : List (Int × Int)} {seen : Finset Int} {acc : Int × Int}
    (h : Swept seen last acc) (hSorted : l.Pairwise fun a b => a.1 ≤ b.1)
    (hLast : ∀ range ∈ l, last ≤ range.1) (hRange : ∀ range ∈ l, range.1 < range.2) :
    (l.foldl uniqueTokenCoverage.sweep acc).1 = (seen ∪ positions l).card := by
  induction l generalizing seen last acc with
  | nil => simpa [positions] using h.count
  | cons range rest ih =>
    obtain ⟨hFirst, hRest⟩ := pairwise_cons.mp hSorted
    have hStep := h.sweep (hLast range (by simp)) (hRange range (by simp))
    have hDone := ih hStep hRest hFirst fun s hs => hRange s (by simp [hs])
    rw [foldl_cons, hDone, positions_cons, Finset.union_assoc]

theorem pairwise_sorted_starts (l : List CBMatchResult) :
    (l.insertionSort fun a b => a.curSt ≤ b.curSt).Pairwise fun a b => a.curSt ≤ b.curSt :=
  have : Std.Total fun a b : CBMatchResult => a.curSt ≤ b.curSt := ⟨fun _ _ => Int.le_total _ _⟩
  have : IsTrans CBMatchResult fun a b => a.curSt ≤ b.curSt := ⟨fun _ _ _ => Int.le_trans⟩
  pairwise_insertionSort _ l

theorem pairwise_sorted_ranges (l : List (Int × Int)) :
    (l.insertionSort fun a b => a.1 < b.1 ∨ a.1 = b.1 ∧ a.2 ≤ b.2).Pairwise
      fun a b => a.1 ≤ b.1 := by
  have : Std.Total fun a b : Int × Int => a.1 < b.1 ∨ a.1 = b.1 ∧ a.2 ≤ b.2 :=
    ⟨fun a b => by omega⟩
  have : IsTrans (Int × Int) fun a b => a.1 < b.1 ∨ a.1 = b.1 ∧ a.2 ≤ b.2 :=
    ⟨fun a b c _ _ => by omega⟩
  exact (pairwise_insertionSort _ l).imp fun hOrder => by omega

/-- The greedy scan keeps a largest choice of disjoint matches, and the sweep counts the
positions that the ranges cover. -/
theorem overlap_selection :
    (∀ (found : List CBMatchResult) (prefixTokens : Nat) (chunkSize : Int), 0 < chunkSize →
      (∀ r ∈ found, r.curEd = r.curSt + chunkSize) →
      (∀ k ∈ nonOverlappingAfterPrefix found prefixTokens, k ∈ found ∧ prefixTokens ≤ k.curSt) ∧
      ((nonOverlappingAfterPrefix found prefixTokens).Pairwise fun a b => a.curEd ≤ b.curSt) ∧
      ∀ chosen : List CBMatchResult, (∀ r ∈ chosen, r ∈ found ∧ prefixTokens ≤ r.curSt) →
        chosen.Pairwise Apart →
        chosen.length ≤ (nonOverlappingAfterPrefix found prefixTokens).length) ∧
    ∀ results : List CBMatchResult, (∀ r ∈ results, 0 ≤ r.curSt ∧ r.curSt < r.curEd) →
      uniqueTokenCoverage results =
        Set.ncard {p : Int | ∃ r ∈ results, r.curSt ≤ p ∧ p < r.curEd} := by
  refine ⟨fun found prefixTokens chunkSize hSize hEqual => ?_, fun results hRanges => ?_⟩
  · have hSorted := pairwise_sorted_starts
      (found.filter fun r => (prefixTokens : Int) ≤ r.curSt)
    have hMem : ∀ r, r ∈ (found.filter fun r => (prefixTokens : Int) ≤ r.curSt).insertionSort
        (fun a b => a.curSt ≤ b.curSt) ↔ r ∈ found ∧ prefixTokens ≤ r.curSt := by
      intro r
      rw [List.mem_insertionSort, List.mem_filter, decide_eq_true_eq]
    have hStart : Scanned [] 0 ([], -1) :=
      ⟨by simp, List.Pairwise.nil, by simp, by simp, Or.inl rfl⟩
    obtain ⟨last, hScanned⟩ := hStart.foldl hSorted
      (fun r hr => (Int.natCast_nonneg _).trans ((hMem r).mp hr).2)
      (fun r hr => (Int.natCast_nonneg _).trans ((hMem r).mp hr).2)
      fun r hr => by
        have hEnd := hEqual r ((hMem r).mp hr).1
        omega
    have hKept : ∀ k ∈ nonOverlappingAfterPrefix found prefixTokens,
        k ∈ found ∧ prefixTokens ≤ k.curSt := fun k hk => (hMem k).mp (hScanned.mem k hk)
    refine ⟨hKept, hScanned.ascending, fun chosen hChosen hApart => ?_⟩
    exact length_le_of_covered (fun k hk => hEqual k (hKept k hk).1)
      (fun r hr => hEqual r (hChosen r hr).1)
      (fun r hr => hScanned.covers r ((hMem r).mpr (hChosen r hr))) hApart
  · have hStart : Swept ∅ 0 (0, -1) := ⟨rfl, fun p hp => by
      rw [iff_false_left (Finset.notMem_empty p)]
      dsimp only
      omega⟩
    have hIn : ∀ range, range ∈ (results.map fun r => (r.curSt, r.curEd)).insertionSort
        (fun a b => a.1 < b.1 ∨ a.1 = b.1 ∧ a.2 ≤ b.2) ↔
        ∃ r ∈ results, (r.curSt, r.curEd) = range := by
      intro range
      rw [List.mem_insertionSort, List.mem_map]
    have hSum := hStart.foldl (pairwise_sorted_ranges _)
      (fun range hRange => by
        obtain ⟨r, hr, rfl⟩ := (hIn range).mp hRange
        exact (hRanges r hr).1)
      fun range hRange => by
        obtain ⟨r, hr, rfl⟩ := (hIn range).mp hRange
        exact (hRanges r hr).2
    rw [uniqueTokenCoverage, hSum, Finset.empty_union, ← Set.ncard_coe_finset]
    congr 2
    ext p
    simp only [Finset.mem_coe, mem_positions, hIn, Set.mem_ofPred_eq]
    constructor
    · rintro ⟨range, ⟨r, hr, rfl⟩, hp⟩
      exact ⟨r, hr, hp⟩
    · rintro ⟨r, hr, hp⟩
      exact ⟨_, ⟨r, hr, rfl⟩, hp⟩

theorem overlap_selection_chain :
    2 ≤ (nonOverlappingAfterPrefix
        [⟨0, 4, 8, 12, []⟩, ⟨0, 4, 6, 10, []⟩, ⟨0, 4, 4, 8, []⟩, ⟨0, 4, 0, 4, []⟩] 1).length ∧
      uniqueTokenCoverage [⟨0, 4, 6, 10, []⟩, ⟨0, 4, 4, 8, []⟩] =
        Set.ncard {p : Int | ∃ r ∈ [CBMatchResult.mk 0 4 6 10 [], ⟨0, 4, 4, 8, []⟩],
          r.curSt ≤ p ∧ p < r.curEd} := by
  refine ⟨(overlap_selection.1 _ 1 4 (by decide) (by decide)).2.2
    [⟨0, 4, 8, 12, []⟩, ⟨0, 4, 4, 8, []⟩] (by decide) ?_, overlap_selection.2 _ (by decide)⟩
  exact List.pairwise_pair.mpr (Or.inr (by decide))

end LMCache.Blend
