import Mathlib.Data.List.Infix
import Mathlib.Tactic.NormNum

/-!
# Ranges between two patterns

`RangePatternMatcher` finds the ranges of a token sequence that a start pattern opens and the
next end pattern closes. The scan goes on behind a range, or behind a start pattern that no end
pattern follows.
-/

namespace LMCache.Native

open List Option

structure RangePatternMatcher where
  startPattern : List Int32
  endPattern : List Int32
  start_ne : startPattern ≠ []
  end_ne : endPattern ≠ []

/-- A difference of two `size_t`, where it does not wrap around. -/
def checkedSub (a b : Nat) : Option Nat := if b ≤ a then some (a - b) else none

/-- The loop of `matchesAt`, from `i` on. -/
def matchesFrom (data : List Int32) (pos : Nat) (pattern : List Int32) : Nat → Nat → Option Bool
  | _, 0 => some true
  | i, n + 1 => do
    let x ← data[pos + i]?
    let y ← pattern[i]?
    if x ≠ y then return false
    matchesFrom data pos pattern (i + 1) n

def matchesAt (data : List Int32) (pos : Nat) (pattern : List Int32) : Option Bool :=
  if pos + pattern.length > data.length then some false
  else matchesFrom data pos pattern 0 pattern.length

/-- The inner loop of `match`, over the `n` positions from `j` on. -/
def findEnd (data endPattern : List Int32) : Nat → Nat → Option (Option Nat)
  | _, 0 => some none
  | j, n + 1 => do
    if ← matchesAt data j endPattern then return some j
    findEnd data endPattern (j + 1) n

namespace RangePatternMatcher

/-- The outer loop of `match`, from position `i` on. -/
def scan (m : RangePatternMatcher) (data : List Int32) : Nat → Nat → Option (List (Nat × Nat))
  | 0, _ => none
  | fuel + 1, i => do
    let last ← checkedSub data.length m.startPattern.length
    if i > last then return []
    if ← matchesAt data i m.startPattern then
      let searchStart := i + m.startPattern.length
      let lastEnd ← checkedSub data.length m.endPattern.length
      match ← findEnd data m.endPattern searchStart (lastEnd + 1 - searchStart) with
      | some j =>
        let ranges ← m.scan data fuel (j + m.endPattern.length)
        return (i, j + m.endPattern.length) :: ranges
      | none => m.scan data fuel searchStart
    else m.scan data fuel (i + 1)

def castInt (n : Nat) : Int := Int.bmod n (2 ^ 32)

/-- `match`. There is no result where an access is out of bounds or the scan does not end. -/
def matchRanges (m : RangePatternMatcher) (data : List Int32) : Option (List (Int × Int)) :=
  if data.length < m.startPattern.length + m.endPattern.length then some []
  else (m.scan data (data.length + 1) 0).map
    (List.map fun range => (castInt range.1, castInt range.2))

end RangePatternMatcher

variable {data pattern : List Int32} {pos : Nat}

def OccursAt (pattern data : List Int32) (pos : Nat) : Prop := pattern <+: data.drop pos

instance : Decidable (OccursAt pattern data pos) := inferInstanceAs (Decidable (_ <+: _))

theorem OccursAt.end_le (hSome : pattern ≠ []) (h : OccursAt pattern data pos) :
    pos + pattern.length ≤ data.length := by
  have hLength := h.length_le
  have hPos := length_pos_iff.mpr hSome
  rw [length_drop] at hLength
  omega

theorem matchesFrom_eq {i n : Nat} (hPattern : i + n = pattern.length)
    (hData : pos + pattern.length ≤ data.length) :
    matchesFrom data pos pattern i n = some (decide (pattern.drop i <+: data.drop (pos + i))) := by
  induction n generalizing i with
  | zero => simp [matchesFrom, drop_eq_nil_of_le, ← hPattern]
  | succ n ih =>
    have hi : i < pattern.length := by omega
    have hAt : pos + i < data.length := by omega
    rw [matchesFrom, getElem?_eq_getElem hi, getElem?_eq_getElem hAt,
      drop_eq_getElem_cons hi, drop_eq_getElem_cons hAt]
    simp only [bind_eq_bind, bind_some, cons_prefix_cons]
    by_cases hSame : data[pos + i] = pattern[i]
    · rw [if_neg (not_not.mpr hSame), ih (by omega)]
      simp [hSame, Nat.add_assoc]
    · rw [if_pos hSame, decide_eq_false (mt (·.1.symm) hSame)]
      rfl

theorem matchesAt_eq (hSome : pattern ≠ []) (data : List Int32) (pos : Nat) :
    matchesAt data pos pattern = some (decide (OccursAt pattern data pos)) := by
  unfold matchesAt
  split
  · rename_i hShort
    rw [decide_eq_false fun h => absurd (h.end_le hSome) (Nat.not_le.mpr hShort)]
  · rename_i hFit
    exact matchesFrom_eq (Nat.zero_add _) (Nat.le_of_not_gt hFit)

/-- The inner loop finds the first occurrence, if there is one. -/
theorem findEnd_eq (hSome : pattern ≠ []) (data : List Int32) (j n : Nat) : ∃ found,
    findEnd data pattern j n = some found ∧ match found with
      | some k => j ≤ k ∧ OccursAt pattern data k ∧ ∀ l, j ≤ l → l < k → ¬OccursAt pattern data l
      | none => ∀ l, j ≤ l → l < j + n → ¬OccursAt pattern data l := by
  induction n generalizing j with
  | zero => exact ⟨none, rfl, fun l hLow hHigh => absurd hHigh (Nat.not_lt.mpr hLow)⟩
  | succ n ih =>
    rw [findEnd, matchesAt_eq hSome]
    by_cases hHere : OccursAt pattern data j
    · refine ⟨some j, by simp [hHere], le_refl j, hHere, fun l hLow hHigh => ?_⟩
      exact absurd hHigh (Nat.not_lt.mpr hLow)
    · obtain ⟨found, hRun, hFound⟩ := ih (j + 1)
      -- an occurrence at `j` or later is one behind `j`
      have hBehind : ∀ l, j ≤ l → OccursAt pattern data l → j + 1 ≤ l := by
        intro l hLow hOccurs
        rcases Nat.eq_or_lt_of_le hLow with rfl | hLess
        · exact absurd hOccurs hHere
        · exact hLess
      refine ⟨found, by simp [hHere, hRun], ?_⟩
      cases found with
      | some k =>
        obtain ⟨hLow, hOccurs, hFirst⟩ := hFound
        exact ⟨by omega, hOccurs, fun l hl hk h => hFirst l (hBehind l hl h) hk h⟩
      | none => exact fun l hl hEnd h => hFound l (hBehind l hl h) (by omega) h

namespace RangePatternMatcher

variable {m : RangePatternMatcher}

/-- `range` begins with a start pattern and ends with the first end pattern behind it. -/
def IsRange (m : RangePatternMatcher) (data : List Int32) (range : Nat × Nat) : Prop :=
  OccursAt m.startPattern data range.1 ∧ ∃ j, range.2 = j + m.endPattern.length ∧
    range.1 + m.startPattern.length ≤ j ∧ OccursAt m.endPattern data j ∧
    ∀ l, range.1 + m.startPattern.length ≤ l → l < j → ¬OccursAt m.endPattern data l

/-- `ranges` are the ranges at and behind position `i`. -/
structure RangesFrom (m : RangePatternMatcher) (data : List Int32) (i : Nat)
    (ranges : List (Nat × Nat)) : Prop where
  behind : ∀ range ∈ ranges, i ≤ range.1
  isRange : ∀ range ∈ ranges, m.IsRange data range
  increasing : ranges.Pairwise fun first second => first.2 ≤ second.1
  complete : ∀ p, i ≤ p → OccursAt m.startPattern data p →
    (∀ range ∈ ranges, p + m.startPattern.length ≤ range.1 ∨ range.2 ≤ p) →
    ∀ q, p + m.startPattern.length ≤ q → ¬OccursAt m.endPattern data q

variable {ranges : List (Nat × Nat)}

theorem RangesFrom.of_later {i next : Nat} (hLe : i ≤ next)
    (hSkip : ∀ p, i ≤ p → p < next → OccursAt m.startPattern data p →
      ∀ q, p + m.startPattern.length ≤ q → ¬OccursAt m.endPattern data q)
    (h : m.RangesFrom data next ranges) : m.RangesFrom data i ranges where
  behind range hRange := hLe.trans (h.behind range hRange)
  isRange := h.isRange
  increasing := h.increasing
  complete p hp hStart hApart := by
    by_cases hNext : next ≤ p
    · exact h.complete p hNext hStart hApart
    · exact hSkip p hp (Nat.lt_of_not_le hNext) hStart

theorem RangesFrom.cons {i stop : Nat} (hRange : m.IsRange data (i, stop))
    (h : m.RangesFrom data stop ranges) : m.RangesFrom data i ((i, stop) :: ranges) := by
  obtain ⟨hStart, j, rfl, hBehind, -⟩ := id hRange
  have hPos := length_pos_iff.mpr m.start_ne
  dsimp only at hBehind
  refine ⟨?_, ?_, pairwise_cons.mpr ⟨h.behind, h.increasing⟩, fun p hp hOccurs hApart => ?_⟩
  · rintro range (_ | ⟨_, hLater⟩)
    · exact le_refl i
    · have hStop := h.behind range hLater
      omega
  · rintro range (_ | ⟨_, hLater⟩)
    · exact hRange
    · exact h.isRange range hLater
  · have hFirst := hApart _ mem_cons_self
    dsimp only at hFirst
    exact h.complete p (by omega) hOccurs fun range hLater =>
      hApart range (mem_cons_of_mem _ hLater)

/-- Every round moves the position on, so the scan ends. -/
theorem scan_spec (hFit : m.startPattern.length + m.endPattern.length ≤ data.length)
    (fuel i : Nat) (hi : i ≤ data.length) (hFuel : data.length < fuel + i) :
    ∃ ranges, m.scan data fuel i = some ranges ∧ m.RangesFrom data i ranges := by
  have hStartPos := length_pos_iff.mpr m.start_ne
  have hLast : checkedSub data.length m.startPattern.length =
      some (data.length - m.startPattern.length) := if_pos (by omega)
  have hLastEnd : checkedSub data.length m.endPattern.length =
      some (data.length - m.endPattern.length) := if_pos (by omega)
  induction fuel generalizing i with
  | zero => omega
  | succ fuel ih =>
    rw [scan, hLast]
    by_cases hPast : i > data.length - m.startPattern.length
    · refine ⟨[], by simp [hPast], by simp, by simp, List.Pairwise.nil, fun p hp hStart => ?_⟩
      have hEnd := hStart.end_le m.start_ne
      omega
    · simp only [bind_eq_bind, bind_some, if_neg hPast, matchesAt_eq m.start_ne, hLastEnd]
      by_cases hStart : OccursAt m.startPattern data i
      · rw [if_pos (decide_eq_true hStart)]
        obtain ⟨found, hRun, hFound⟩ := findEnd_eq m.end_ne data
          (i + m.startPattern.length)
          (data.length - m.endPattern.length + 1 - (i + m.startPattern.length))
        rw [hRun, bind_some]
        have hStartEnd := hStart.end_le m.start_ne
        cases found with
        | some j =>
          obtain ⟨hBehind, hEnd, hFirst⟩ := hFound
          have hStop := hEnd.end_le m.end_ne
          obtain ⟨ranges, hScan, hRanges⟩ := ih (j + m.endPattern.length) hStop (by omega)
          refine ⟨_, by simp [hScan], hRanges.cons ⟨hStart, j, rfl, hBehind, hEnd, hFirst⟩⟩
        | none =>
          obtain ⟨ranges, hScan, hRanges⟩ := ih (i + m.startPattern.length) hStartEnd (by omega)
          refine ⟨ranges, hScan, hRanges.of_later (by omega) fun p hp _ _ q hq hEnd => ?_⟩
          have hStop := hEnd.end_le m.end_ne
          exact hFound q (by omega) (by omega) hEnd
      · rw [if_neg (by simpa using hStart)]
        obtain ⟨ranges, hScan, hRanges⟩ := ih (i + 1) (by omega) (by omega)
        refine ⟨ranges, hScan, hRanges.of_later (by omega) fun p hp hNext hOccurs => ?_⟩
        have hHere : p = i := by omega
        exact absurd (hHere ▸ hOccurs) hStart

/-- `match` gives the ranges, as far as an `int` can hold them. -/
theorem matchRanges_eq (m : RangePatternMatcher) (data : List Int32) : ∃ ranges,
    m.matchRanges data = some (ranges.map fun range => (castInt range.1, castInt range.2)) ∧
      m.RangesFrom data 0 ranges := by
  unfold matchRanges
  split
  · rename_i hShort
    refine ⟨[], rfl, by simp, by simp, List.Pairwise.nil, fun p _ hStart _ q hq hEnd => ?_⟩
    have hStop := hEnd.end_le m.end_ne
    omega
  · rename_i hFit
    obtain ⟨ranges, hScan, hRanges⟩ := m.scan_spec (Nat.le_of_not_gt hFit) (data.length + 1) 0
      (Nat.zero_le _) (by omega)
    exact ⟨ranges, by rw [hScan, map_some], hRanges⟩

theorem castInt_eq {n : Nat} (h : n < 2 ^ 31) : castInt n = n := by
  unfold castInt
  norm_num at h ⊢
  exact Int.bmod_eq_of_le (by omega) (by omega)

theorem match_ranges (m : RangePatternMatcher) (data : List Int32) (hShort : data.length < 2 ^ 31) :
    ∃ ranges : List (Nat × Nat),
      m.matchRanges data = some (ranges.map fun range => ((range.1 : Int), (range.2 : Int))) ∧
      m.RangesFrom data 0 ranges := by
  obtain ⟨ranges, hMatch, hRanges⟩ := m.matchRanges_eq data
  refine ⟨ranges, ?_, hRanges⟩
  rw [hMatch]
  refine congrArg some (List.map_congr_left fun range h => ?_)
  obtain ⟨hStart, j, hStop, -, hEnd, -⟩ := hRanges.isRange range h
  have hStartIn := hStart.end_le m.start_ne
  have hEndIn := hEnd.end_le m.end_ne
  rw [castInt_eq (by omega), castInt_eq (by omega)]

def oneTwo : RangePatternMatcher := ⟨[1], [2], by decide, by decide⟩

theorem match_ranges_sample : ∃ ranges : List (Nat × Nat),
    oneTwo.matchRanges [1, 1, 0, 2, 1] =
      some (ranges.map fun range => ((range.1 : Int), (range.2 : Int))) ∧
    oneTwo.RangesFrom [1, 1, 0, 2, 1] 0 ranges :=
  match_ranges oneTwo [1, 1, 0, 2, 1] (by decide)

theorem occursAt_singleton {x : Int32} : OccursAt [x] data pos ↔ data[pos]? = some x := by
  rw [OccursAt, ← head?_drop]
  cases data.drop pos with
  | nil => simp
  | cons y rest => simp [eq_comm]

theorem getElem?_zeros {n : Nat} {x : Int32} (hx : x ≠ 0) :
    (List.replicate n 0 ++ [1, 2])[pos]? = some x ↔ pos = n ∧ x = 1 ∨ pos = n + 1 ∧ x = 2 := by
  rw [getElem?_append, length_replicate, getElem?_replicate]
  split
  · simp [hx.symm]
    omega
  · obtain ⟨k, rfl⟩ : ∃ k, pos = n + k := ⟨pos - n, by omega⟩
    rw [Nat.add_sub_cancel_left]
    rcases k with _ | _ | k
    · simp [eq_comm]
    · simp [eq_comm]
    · simp

/-- The range behind `2 ^ 31` other tokens comes back with negative ends. -/
theorem range_negative : ∃ ranges,
    oneTwo.matchRanges (List.replicate (2 ^ 31) 0 ++ [1, 2]) = some ranges ∧
      (-2147483648, -2147483646) ∈ ranges := by
  generalize hn : 2 ^ 31 = n
  obtain ⟨ranges, hMatch, hRanges⟩ := oneTwo.matchRanges_eq (List.replicate n 0 ++ [1, 2])
  have hStart : ∀ p, OccursAt [1] (List.replicate n 0 ++ [1, 2]) p ↔ p = n := by
    intro p
    simp [occursAt_singleton, getElem?_zeros]
  have hEnd : ∀ p, OccursAt [2] (List.replicate n 0 ++ [1, 2]) p ↔ p = n + 1 := by
    intro p
    simp [occursAt_singleton, getElem?_zeros]
  have hMem : (n, n + 2) ∈ ranges := by
    by_contra hNone
    refine hRanges.complete n (Nat.zero_le n) ((hStart n).mpr rfl) (fun range hRange => ?_) (n + 1)
      (le_refl _) ((hEnd _).mpr rfl)
    -- the one start pattern opens the range that is missing
    obtain ⟨hFrom, j, hStop, -, hTo, -⟩ := hRanges.isRange range hRange
    have hFirst := (hStart _).mp hFrom
    have hLast := (hEnd _).mp hTo
    have hOnly : range = (n, n + 2) := Prod.ext hFirst (by rw [hStop, hLast]; rfl)
    exact absurd (hOnly ▸ hRange) hNone
  refine ⟨_, hMatch, List.mem_map.mpr ⟨_, hMem, ?_⟩⟩
  subst hn
  rfl

end RangePatternMatcher

end LMCache.Native
