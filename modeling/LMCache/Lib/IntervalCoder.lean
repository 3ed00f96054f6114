import Mathlib.Tactic.Ring

/-!
# Interval coding

An arithmetic coder keeps an interval of 32-bit numbers. A symbol narrows the interval to
the part that its share of 2^16 takes; while the interval lies in one half, or in the two
middle quarters, it is doubled. The code of a sequence is a string of bits all of whose
continuations, read as 32-bit numbers, lie in the interval.
-/

namespace LMCache.Lib

open Bool

/-- An interval of 32-bit numbers, with both of its ends. -/
@[ext] structure Interval where
  low : Nat
  high : Nat
  deriving DecidableEq, Repr

/-- How an interval is doubled: out of the half of a bit, or out of the middle. -/
inductive Doubling
  | half (bit : Bool)
  | middle
  deriving DecidableEq, Repr

namespace Interval

def whole : Interval := ⟨0, 2 ^ 32 - 1⟩

def span (i : Interval) : Nat := i.high - i.low + 1

/-- The part of an interval that a symbol with the share from `cLow` to `cHigh` takes. -/
def narrow (i : Interval) (cLow cHigh : Nat) : Interval :=
  ⟨i.low + i.span * cLow / 2 ^ 16, i.low + i.span * cHigh / 2 ^ 16 - 1⟩

def doubling? (i : Interval) : Option Doubling :=
  if i.high < 2 ^ 31 then some (.half false)
  else if 2 ^ 31 ≤ i.low then some (.half true)
  else if 2 ^ 30 ≤ i.low ∧ i.high < 3 * 2 ^ 30 then some .middle
  else none

/-- What a doubling takes away before it doubles. -/
def offset : Doubling → Nat
  | .half false => 0
  | .half true => 2 ^ 31
  | .middle => 2 ^ 30

def doubled (d : Doubling) (i : Interval) : Interval :=
  ⟨2 * (i.low - offset d), 2 * (i.high - offset d) + 1⟩

def normalize : Nat → Interval → List Doubling × Interval
  | 0, i => ([], i)
  | fuel + 1, i =>
    match i.doubling? with
    | none => ([], i)
    | some d => (d :: (normalize fuel (doubled d i)).1, (normalize fuel (doubled d i)).2)

structure Valid (i : Interval) : Prop where
  le : i.low ≤ i.high
  high_lt : i.high < 2 ^ 32

/-- An interval that is not doubled is longer than a quarter. -/
structure Settled (i : Interval) : Prop where
  low_lt : i.low < 2 ^ 31
  le_high : 2 ^ 31 ≤ i.high
  high_lt : i.high < 2 ^ 32
  wide : i.low < 2 ^ 30 ∨ 3 * 2 ^ 30 ≤ i.high

variable {i : Interval}

theorem Settled.valid (h : i.Settled) : i.Valid :=
  ⟨by have := h.low_lt; have := h.le_high; omega, h.high_lt⟩

theorem Settled.span_gt (h : i.Settled) : 2 ^ 30 < i.span := by
  obtain ⟨hLow, hHigh, -, hWide⟩ := h
  unfold span
  omega

theorem Valid.span_le (h : i.Valid) : i.span ≤ 2 ^ 32 := by
  obtain ⟨-, hHigh⟩ := h
  unfold span
  omega

theorem settled_whole : whole.Settled := ⟨by decide, by decide, by decide, Or.inl (by decide)⟩

theorem doubling?_eq_none (hValid : i.Valid) (h : i.doubling? = none) : i.Settled := by
  unfold doubling? at h
  split_ifs at h with hLower hUpper hMiddle
  exact ⟨by omega, by omega, hValid.high_lt, by omega⟩

theorem doubling?_eq_some {d : Doubling} (hValid : i.Valid) (h : i.doubling? = some d) :
    offset d ≤ i.low ∧ i.high < offset d + 2 ^ 31 := by
  obtain ⟨hOrder, hHigh⟩ := hValid
  unfold doubling? at h
  split_ifs at h with hLower hUpper hMiddle
  · cases h
    simp only [offset]
    omega
  · cases h
    simp only [offset]
    omega
  · cases h
    simp only [offset]
    omega

theorem valid_doubled {d : Doubling} (hValid : i.Valid) (h : i.doubling? = some d) :
    (doubled d i).Valid ∧ (doubled d i).span = 2 * i.span := by
  obtain ⟨hLow, hHigh⟩ := doubling?_eq_some hValid h
  obtain ⟨hOrder, -⟩ := hValid
  refine ⟨⟨?_, ?_⟩, ?_⟩ <;> simp only [doubled, span] <;> omega

theorem settled_normalize {fuel : Nat} (hValid : i.Valid) (hFuel : 2 ^ 32 < i.span * 2 ^ fuel) :
    (normalize fuel i).2.Settled := by
  induction fuel generalizing i with
  | zero =>
    have hSpan := hValid.span_le
    omega
  | succ fuel ih =>
    rw [normalize]
    cases hStep : i.doubling? with
    | none => exact doubling?_eq_none hValid hStep
    | some d =>
      obtain ⟨hDoubled, hSpan⟩ := valid_doubled hValid hStep
      refine ih hDoubled ?_
      rw [hSpan]
      calc 2 ^ 32 < i.span * 2 ^ (fuel + 1) := hFuel
        _ = 2 * i.span * 2 ^ fuel := by ring

theorem settled_normalize_of_valid (hValid : i.Valid) : (normalize 33 i).2.Settled := by
  refine settled_normalize hValid ?_
  have hPos : 1 ≤ i.span := Nat.succ_pos _
  omega

variable {cLow cHigh : Nat}

theorem span_narrow (hOrder : cLow < cHigh) (hSpan : 2 ^ 16 ≤ i.span) :
    (i.narrow cLow cHigh).span = i.span * cHigh / 2 ^ 16 - i.span * cLow / 2 ^ 16 ∧
      i.span * (cHigh - cLow) / 2 ^ 16 ≤ (i.narrow cLow cHigh).span ∧
      (i.narrow cLow cHigh).low ≤ (i.narrow cLow cHigh).high := by
  have hSplit : i.span * cHigh = i.span * cLow + i.span * (cHigh - cLow) := by
    rw [← Nat.mul_add]
    congr 1
    omega
  have hStep : i.span ≤ i.span * (cHigh - cLow) := Nat.le_mul_of_pos_right _ (by omega)
  simp only [narrow, span] at hSplit hStep hSpan ⊢
  omega

theorem valid_narrow (hValid : i.Valid) (hOrder : cLow < cHigh) (hHigh : cHigh ≤ 2 ^ 16)
    (hSpan : 2 ^ 16 ≤ i.span) : (i.narrow cLow cHigh).Valid ∧ i.low ≤ (i.narrow cLow cHigh).low ∧
      (i.narrow cLow cHigh).high ≤ i.high := by
  obtain ⟨-, -, hLe⟩ := span_narrow hOrder hSpan
  have hTop : i.span * cHigh / 2 ^ 16 ≤ i.span :=
    Nat.div_le_of_le_mul (by rw [Nat.mul_comm]; exact Nat.mul_le_mul_right _ hHigh)
  obtain ⟨hOrder', hHigh'⟩ := hValid
  refine ⟨⟨hLe, ?_⟩, ?_, ?_⟩ <;> simp only [narrow, span] at hTop ⊢ <;> omega

def count (i : Interval) (value : Nat) : Nat := ((value - i.low + 1) * 2 ^ 16 - 1) / i.span

theorem count_lt {value : Nat} (hLow : i.low ≤ value) (hHigh : value ≤ i.high) :
    i.count value < 2 ^ 16 := by
  have hPos : 0 < i.span := Nat.succ_pos _
  have hIn : value - i.low + 1 ≤ i.span := by
    unfold span
    omega
  rw [count, Nat.div_lt_iff_lt_mul hPos, Nat.mul_comm (2 ^ 16)]
  omega

theorem count_narrow {value : Nat} (hOrder : cLow < cHigh) (hSpan : 2 ^ 16 ≤ i.span)
    (hLow : (i.narrow cLow cHigh).low ≤ value) (hHigh : value ≤ (i.narrow cLow cHigh).high) :
    cLow ≤ i.count value ∧ i.count value < cHigh := by
  have hPos : 0 < i.span := by omega
  have hStep : i.span ≤ i.span * cHigh := Nat.le_mul_of_pos_right _ (by omega)
  simp only [narrow] at hLow hHigh
  have hFloor := Nat.div_add_mod (i.span * cLow) (2 ^ 16)
  have hRest := Nat.mod_lt (i.span * cLow) (show 0 < 2 ^ 16 by decide)
  have hCeil := Nat.div_mul_le_self (i.span * cHigh) (2 ^ 16)
  refine ⟨?_, ?_⟩
  · rw [count, Nat.le_div_iff_mul_le hPos, Nat.mul_comm]
    omega
  · rw [count, Nat.div_lt_iff_lt_mul hPos, Nat.mul_comm cHigh]
    omega

end Interval

/-- The number that the first `n` bits of a string make. -/
def topBits : Nat → (Nat → Bool) → Nat
  | 0, _ => 0
  | n + 1, x => (x 0).toNat * 2 ^ n + topBits n fun k => x (k + 1)

theorem topBits_lt (n : Nat) (x : Nat → Bool) : topBits n x < 2 ^ n := by
  induction n generalizing x with
  | zero => exact Nat.one_pos
  | succ n ih =>
    have hRest := ih fun k => x (k + 1)
    have hBit : (x 0).toNat ≤ 1 := Bool.toNat_le _
    have hMul : (x 0).toNat * 2 ^ n ≤ 1 * 2 ^ n := Nat.mul_le_mul_right _ hBit
    rw [topBits, pow_succ]
    omega

theorem topBits_succ (n : Nat) (x : Nat → Bool) :
    topBits (n + 1) x = 2 * topBits n x + (x n).toNat := by
  induction n generalizing x with
  | zero => simp [topBits]
  | succ n ih =>
    rw [topBits, ih, topBits, pow_succ]
    ring

variable {x : Nat → Bool}

theorem topBits_congr {n : Nat} {y : Nat → Bool} (h : ∀ k < n, x k = y k) :
    topBits n x = topBits n y := by
  induction n with
  | zero => rfl
  | succ n ih =>
    rw [topBits_succ, topBits_succ, h n (Nat.lt_succ_self n), ih fun k hk => h k (by omega)]

theorem topBits_add (m n : Nat) (x : Nat → Bool) :
    topBits (m + n) x = topBits m x * 2 ^ n + topBits n fun k => x (m + k) := by
  induction n with
  | zero => simp [topBits]
  | succ n ih =>
    rw [← Nat.add_assoc, topBits_succ, ih, topBits_succ, pow_succ]
    ring

theorem topBits_testBit (n value : Nat) :
    topBits n (fun k => value.testBit (n - 1 - k)) = value % 2 ^ n := by
  induction n generalizing value with
  | zero => exact (Nat.mod_one value).symm
  | succ n ih =>
    have hRest : topBits n (fun k => value.testBit (n + 1 - 1 - k)) =
        topBits n fun k => (value / 2).testBit (n - 1 - k) := by
      refine topBits_congr fun k hk => ?_
      rw [show n + 1 - 1 - k = (n - 1 - k) + 1 by omega, Nat.testBit_succ]
    rw [topBits_succ, hRest, ih, Nat.add_sub_cancel, Nat.sub_self, Nat.testBit_zero, pow_succ,
      Nat.mul_comm (2 ^ n) 2, Nat.mod_mul]
    rcases Nat.mod_two_eq_zero_or_one value with hBit | hBit <;> rw [hBit] <;>
      simp [Nat.add_comm]

theorem topBits_tail (x : Nat → Bool) :
    topBits 32 (fun k => x (k + 1)) = (2 * topBits 32 x + (x 32).toNat) % 2 ^ 32 := by
  have hNext := topBits_succ 32 x
  have hHead : topBits (32 + 1) x = (x 0).toNat * 2 ^ 32 + topBits 32 fun k => x (k + 1) := rfl
  have hLt := topBits_lt 32 fun k => x (k + 1)
  have hBit := Bool.toNat_le (x 0)
  omega

def StartsWith (bits : List Bool) (x : Nat → Bool) : Prop :=
  ∀ k b, bits[k]? = some b → x k = b

theorem startsWith_cons {b : Bool} {bits : List Bool} (h : StartsWith (b :: bits) x) :
    x 0 = b ∧ StartsWith bits fun k => x (k + 1) :=
  ⟨h 0 b rfl, fun k c hAt => h (k + 1) c hAt⟩

namespace Doubling

/-- The string of bits after a doubling: the middle keeps the first bit and drops the second. -/
def advance : Doubling → (Nat → Bool) → Nat → Bool
  | .half _, x => fun k => x (k + 1)
  | .middle, x => fun k => if k = 0 then x 0 else x (k + 1)

/-- The bits before a doubling. -/
def prepend : Doubling → List Bool → List Bool
  | .half b, bits => b :: bits
  | .middle, b :: bits => b :: (!b) :: bits
  | .middle, [] => []

theorem startsWith_advance {d : Doubling} {bits : List Bool} {x : Nat → Bool}
    (h : StartsWith (d.prepend bits) x) : StartsWith bits (d.advance x) := by
  cases d with
  | half b => exact (startsWith_cons h).2
  | middle =>
    cases bits with
    | nil => exact fun k b hAt => nomatch hAt
    | cons b bits =>
      intro k c hAt
      cases k with
      | zero =>
        cases hAt
        exact h 0 b rfl
      | succ k => exact h (k + 2) c hAt

theorem topBits_middle {x : Nat → Bool} (hLow : 2 ^ 30 ≤ topBits 32 x)
    (hHigh : topBits 32 x < 3 * 2 ^ 30) :
    topBits 32 (advance .middle x) = 2 * (topBits 32 x - 2 ^ 30) + (x 32).toNat := by
  have hTail := topBits_succ 30 fun k => x (k + 2)
  have hRest := topBits_lt 30 fun k => x (k + 2)
  have hValue : topBits 32 x = (x 0).toNat * 2 ^ 31 + ((x 1).toNat * 2 ^ 30 +
      topBits 30 fun k => x (k + 2)) := rfl
  have hAfter : topBits 32 (advance .middle x) =
      (x 0).toNat * 2 ^ 31 + topBits 31 fun k => x (k + 2) := by
    rw [topBits]
    simp only [advance, if_true, Nat.add_one_ne_zero, if_false]
  have hFirst := Bool.toNat_le (x 0)
  have hSecond := Bool.toNat_le (x 1)
  have hTail' : topBits 31 (fun k => x (k + 2)) =
      2 * topBits 30 (fun k => x (k + 2)) + (x 32).toNat := hTail
  rw [hTail'] at hAfter
  rw [hAfter, hValue]
  rw [hValue] at hLow hHigh
  generalize topBits 30 (fun k => x (k + 2)) = t at hLow hHigh hRest ⊢
  generalize (x 32).toNat = last
  generalize (x 0).toNat = first at hFirst hLow hHigh ⊢
  generalize (x 1).toNat = second at hSecond hLow hHigh ⊢
  omega

theorem topBits_prepend {d : Doubling} {bits : List Bool} {x : Nat → Bool} (hBits : bits ≠ [])
    (h : StartsWith (d.prepend bits) x) :
    topBits 32 x = Interval.offset d + topBits 32 (d.advance x) / 2 := by
  cases d with
  | half b =>
    obtain ⟨hHead, -⟩ := startsWith_cons h
    have hTail := topBits_succ 31 fun k => x (k + 1)
    have hBit := Bool.toNat_le (x (31 + 1))
    have hValue : topBits 32 x = b.toNat * 2 ^ 31 + topBits 31 fun k => x (k + 1) := by
      rw [topBits, hHead]
    change topBits 32 x = _ + topBits 32 (fun k => x (k + 1)) / 2
    rw [hValue, hTail]
    cases b <;> simp only [Interval.offset, toNat_true, toNat_false] <;> omega
  | middle =>
    obtain ⟨b, bits, rfl⟩ := List.exists_cons_of_ne_nil hBits
    obtain ⟨hHead, hRest⟩ := startsWith_cons h
    obtain ⟨hSecond, -⟩ := startsWith_cons hRest
    have hTail := topBits_succ 30 fun k => x (k + 2)
    have hBit := Bool.toNat_le (x (30 + 2))
    have hValue : topBits 32 x =
        b.toNat * 2 ^ 31 + ((!b).toNat * 2 ^ 30 + topBits 30 fun k => x (k + 2)) := by
      rw [topBits, topBits, hHead]
      simp only [Nat.zero_add] at hSecond ⊢
      rw [hSecond]
    have hAfter : topBits 32 (advance .middle x) =
        b.toNat * 2 ^ 31 + topBits 31 fun k => x (k + 2) := by
      rw [topBits]
      simp only [advance, if_true, hHead, Nat.add_one_ne_zero, if_false]
    rw [hValue, hAfter, hTail]
    cases b <;> simp only [Interval.offset, toNat_true, toNat_false, Bool.not_true,
      Bool.not_false] <;> omega

end Doubling

/-- The string after a list of doublings. -/
def advanceAll (ds : List Doubling) (x : Nat → Bool) : Nat → Bool :=
  ds.foldl (fun x d => d.advance x) x

def prependAll (ds : List Doubling) (bits : List Bool) : List Bool := ds.foldr Doubling.prepend bits

theorem prepend_ne_nil {d : Doubling} {bits : List Bool} (h : bits ≠ []) : d.prepend bits ≠ [] := by
  obtain ⟨b, bits, rfl⟩ := List.exists_cons_of_ne_nil h
  cases d <;> exact List.cons_ne_nil _ _

variable {ds : List Doubling}

theorem prependAll_ne_nil {bits : List Bool} (h : bits ≠ []) : prependAll ds bits ≠ [] := by
  induction ds with
  | nil => exact h
  | cons d ds ih => exact prepend_ne_nil ih

theorem startsWith_advanceAll {bits : List Bool} (h : StartsWith (prependAll ds bits) x) :
    StartsWith bits (advanceAll ds x) := by
  induction ds generalizing x with
  | nil => exact h
  | cons d ds ih => exact ih (Doubling.startsWith_advance h)

theorem topBits_normalize {fuel : Nat} {i : Interval} {bits : List Bool} (hValid : i.Valid)
    (hBits : bits ≠ []) (hStarts : StartsWith (prependAll (i.normalize fuel).1 bits) x)
    (hLow : (i.normalize fuel).2.low ≤ topBits 32 (advanceAll (i.normalize fuel).1 x))
    (hHigh : topBits 32 (advanceAll (i.normalize fuel).1 x) ≤ (i.normalize fuel).2.high) :
    i.low ≤ topBits 32 x ∧ topBits 32 x ≤ i.high := by
  induction fuel generalizing i x with
  | zero => exact ⟨hLow, hHigh⟩
  | succ fuel ih =>
    rw [Interval.normalize] at hStarts hLow hHigh
    cases hStep : i.doubling? with
    | none =>
      rw [hStep] at hLow hHigh
      exact ⟨hLow, hHigh⟩
    | some d =>
      rw [hStep] at hStarts hLow hHigh
      obtain ⟨hFrom, hTo⟩ := Interval.doubling?_eq_some hValid hStep
      obtain ⟨hDoubled, -⟩ := Interval.valid_doubled hValid hStep
      obtain ⟨hAfterLow, hAfterHigh⟩ := ih hDoubled (Doubling.startsWith_advance hStarts) hLow hHigh
      have hValue := Doubling.topBits_prepend (prependAll_ne_nil hBits) hStarts
      have hOrder := hValid.le
      simp only [Interval.doubled] at hAfterLow hAfterHigh
      omega

/-- The bits of a sequence of shares: the doublings of every narrowing, and two bits that
put the number into the interval that is left. -/
def codeBits : Interval → List (Nat × Nat) → List Bool
  | i, [] => if i.low < 2 ^ 30 then [false, true] else [true, false]
  | i, share :: rest =>
    let n := (i.narrow share.1 share.2).normalize 33
    prependAll n.1 (codeBits n.2 rest)

theorem codeBits_cons (i : Interval) (share : Nat × Nat) (rest : List (Nat × Nat)) :
    codeBits i (share :: rest) = prependAll ((i.narrow share.1 share.2).normalize 33).1
      (codeBits ((i.narrow share.1 share.2).normalize 33).2 rest) := by
  rw [codeBits]

/-- Shares that are not empty, in a total of 2^16. -/
def Shares (shares : List (Nat × Nat)) : Prop := ∀ s ∈ shares, s.1 < s.2 ∧ s.2 ≤ 2 ^ 16

theorem codeBits_ne_nil (i : Interval) (shares : List (Nat × Nat)) : codeBits i shares ≠ [] := by
  induction shares generalizing i with
  | nil =>
    rw [codeBits]
    split_ifs <;> exact List.cons_ne_nil _ _
  | cons share rest ih => exact prependAll_ne_nil (ih _)

variable {share : Nat × Nat}

theorem settled_step {i : Interval} (h : i.Settled) (hOrder : share.1 < share.2)
    (hHigh : share.2 ≤ 2 ^ 16) : ((i.narrow share.1 share.2).normalize 33).2.Settled := by
  have hSpan := h.span_gt
  exact Interval.settled_normalize_of_valid
    (Interval.valid_narrow h.valid hOrder hHigh (by omega)).1

theorem topBits_codeBits {i : Interval} (hSettled : i.Settled) {shares : List (Nat × Nat)}
    (hShares : Shares shares) (hStarts : StartsWith (codeBits i shares) x) :
    i.low ≤ topBits 32 x ∧ topBits 32 x ≤ i.high := by
  induction shares generalizing i x with
  | nil =>
    obtain ⟨hLow, hHigh, -, hWide⟩ := hSettled
    have hRest := topBits_lt 30 fun k => x (k + 2)
    have hValue : topBits 32 x = (x 0).toNat * 2 ^ 31 + ((x 1).toNat * 2 ^ 30 +
        topBits 30 fun k => x (k + 2)) := rfl
    rw [codeBits] at hStarts
    split_ifs at hStarts with hQuarter
    · rw [hStarts 0 false rfl, hStarts 1 true rfl, toNat_false, toNat_true] at hValue
      omega
    · rw [hStarts 0 true rfl, hStarts 1 false rfl, toNat_false, toNat_true] at hValue
      omega
  | cons share rest ih =>
    obtain ⟨hOrder, hTop⟩ := hShares share (by simp)
    have hSpan := hSettled.span_gt
    obtain ⟨hValid, hLow, hHigh⟩ := Interval.valid_narrow hSettled.valid hOrder hTop (by omega)
    obtain ⟨hInLow, hInHigh⟩ := ih (settled_step hSettled hOrder hTop)
      (fun s hs => hShares s (by simp [hs])) (startsWith_advanceAll hStarts)
    obtain ⟨hFrom, hTo⟩ := topBits_normalize hValid (codeBits_ne_nil _ rest) hStarts hInLow hInHigh
    omega

/-- What a decoder finds in any continuation of the bits of a sequence: a number in the part
of the first symbol, with a count in its share, and behind it the bits of the rest. -/
theorem codeBits_step {i : Interval} (hSettled : i.Settled) {rest : List (Nat × Nat)}
    (hShares : Shares (share :: rest)) (hStarts : StartsWith (codeBits i (share :: rest)) x) :
    (i.narrow share.1 share.2).low ≤ topBits 32 x ∧
      topBits 32 x ≤ (i.narrow share.1 share.2).high ∧
      share.1 ≤ i.count (topBits 32 x) ∧ i.count (topBits 32 x) < share.2 ∧
      StartsWith (codeBits ((i.narrow share.1 share.2).normalize 33).2 rest)
        (advanceAll ((i.narrow share.1 share.2).normalize 33).1 x) := by
  obtain ⟨hOrder, hTop⟩ := hShares share (by simp)
  have hSpan := hSettled.span_gt
  obtain ⟨hValid, -, -⟩ := Interval.valid_narrow hSettled.valid hOrder hTop (by omega)
  have hAfter := startsWith_advanceAll hStarts
  obtain ⟨hInLow, hInHigh⟩ := topBits_codeBits (settled_step hSettled hOrder hTop)
    (fun s hs => hShares s (by simp [hs])) hAfter
  obtain ⟨hFrom, hTo⟩ := topBits_normalize hValid (codeBits_ne_nil _ _) hStarts hInLow hInHigh
  obtain ⟨hCountLow, hCountHigh⟩ := Interval.count_narrow hOrder (by omega) hFrom hTo
  exact ⟨hFrom, hTo, hCountLow, hCountHigh, hAfter⟩

end LMCache.Lib
