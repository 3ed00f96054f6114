import LMCache.Lib.Python
import Mathlib.Data.Rat.Floor
import Mathlib.Tactic.IntervalCases

/-!
# Decimal numbers as floats

Numbers with three decimals, with which the floating-point code can be run on concrete
inputs. What the runs use of them, sums and products by whole numbers, is exact.

The finite values of such floats are rational numbers, and the arithmetic is exact on them. Code
that compares, adds, scales and rounds such floats can be read as code on rationals.
-/

namespace LMCache.Lib

structure Decimal where
  thousandths : Int
  deriving DecidableEq, Repr

namespace Decimal

/-- The three digits behind the point. -/
def digits (n : Nat) : List Char :=
  [(n / 100 % 10).digitChar, (n / 10 % 10).digitChar, (n % 10).digitChar]

def digitValue (c : Char) : Nat := c.toNat - '0'.toNat

/-- The thousandths of the digits behind a point. -/
def fractionValue : List Char → Nat
  | [] => 0
  | a :: rest => digitValue a * 100 + match rest with
    | [] => 0
    | b :: rest => digitValue b * 10 + match rest with
      | [] => 0
      | c :: _ => digitValue c

/-- The literals with an exponent that the runs use are too small for three decimals. -/
def ofLiteral : FloatLiteral → Decimal
  | .decimal ⟨negative, whole, fraction, none⟩ =>
    let n : Int := whole * 1000 + fractionValue fraction
    ⟨if negative then -n else n⟩
  | _ => ⟨0⟩

def repr (x : Decimal) : FloatLiteral :=
  .decimal ⟨decide (x.thousandths < 0), x.thousandths.natAbs / 1000,
    digits (x.thousandths.natAbs % 1000), none⟩

theorem digit_spec (n : Nat) (h : n < 10) :
    n.digitChar.isDigit = true ∧ digitValue n.digitChar = n := by
  interval_cases n <;> decide

theorem fractionValue_digits {n : Nat} (h : n < 1000) : fractionValue (digits n) = n := by
  obtain ⟨-, hHundreds⟩ := digit_spec (n / 100 % 10) (by omega)
  obtain ⟨-, hTens⟩ := digit_spec (n / 10 % 10) (by omega)
  obtain ⟨-, hOnes⟩ := digit_spec (n % 10) (by omega)
  simp only [digits, fractionValue, hHundreds, hTens, hOnes]
  omega

theorem wellFormed_repr (x : Decimal) : (repr x).WellFormed := by
  refine ⟨?_, ?_, Or.inl ?_⟩
  · intro c hMem
    simp only [digits, List.mem_cons, List.not_mem_nil, or_false] at hMem
    rcases hMem with rfl | rfl | rfl
    all_goals exact (digit_spec _ (by omega)).1
  · intro e hMem
    cases hMem
  · exact List.cons_ne_nil _ _

theorem ofLiteral_repr (x : Decimal) : ofLiteral (repr x) = x := by
  obtain ⟨n⟩ := x
  have hFraction := fractionValue_digits (n := n.natAbs % 1000) (Nat.mod_lt _ (by decide))
  simp only [repr, ofLiteral, hFraction, decide_eq_true_eq, mk.injEq]
  split_ifs <;> omega

/-- Rounding to the nearest integer, ties to the even one. -/
def round (x : Decimal) : Int :=
  let floor := x.thousandths / 1000
  let rest := x.thousandths % 1000
  if rest < 500 ∨ (rest = 500 ∧ floor % 2 = 0) then floor else floor + 1

instance : FloatText Decimal where
  repr := repr
  ofLiteral := ofLiteral
  wellFormed_repr := wellFormed_repr
  ofLiteral_repr := ofLiteral_repr

/-- Texts are taken to be in lower case and without blanks. -/
instance : PyRuntime Decimal where
  truncate := fun x => .ok (x.thousandths.tdiv 1000)
  intOfText := fun _ => valueError "invalid literal for int()"
  textOf := fun value => String.ofList value.text
  reprOf := fun value => String.ofList value.text
  floatOf
    | .float x => .ok x
    | .int n => .ok ⟨n * 1000⟩
    | _ => raise .typeError "float() argument must be a string or a real number"
  floatOf_float := fun _ => rfl
  equalsInt := fun x n => x.thousandths == n * 1000
  strip := fun s => s
  lower := fun s => s

instance : PyFloat Decimal where
  add := fun x y => ⟨x.thousandths + y.thousandths⟩
  neg := fun x => ⟨-x.thousandths⟩
  mulInt := fun x n => ⟨x.thousandths * n⟩
  sum := fun xs => ⟨(xs.map thousandths).sum⟩
  lt := fun x y => x.thousandths < y.thousandths
  isNan := fun _ => false
  isInf := fun _ => false
  isClose := fun x y tolerance => (x.thousandths - y.thousandths).natAbs ≤ tolerance.thousandths
  round := fun x => .ok x.round
  floor := fun x => .ok (x.thousandths / 1000)

end Decimal

/-- The nearest integer, of two the even one. -/
def roundHalfEven (q : ℚ) : Int :=
  if q - ⌊q⌋ < 1 / 2 ∨ (q - ⌊q⌋ = 1 / 2 ∧ ⌊q⌋ % 2 = 0) then ⌊q⌋ else ⌊q⌋ + 1

theorem floor_le_roundHalfEven (q : ℚ) : ⌊q⌋ ≤ roundHalfEven q := by
  unfold roundHalfEven
  split_ifs <;> omega

theorem roundHalfEven_le (q : ℚ) : roundHalfEven q ≤ ⌊q⌋ + 1 := by
  unfold roundHalfEven
  split_ifs <;> omega

theorem roundHalfEven_mono {p q : ℚ} (h : p ≤ q) : roundHalfEven p ≤ roundHalfEven q := by
  rcases lt_or_eq_of_le (Int.floor_le_floor h) with hLess | hSame
  · have hUp := roundHalfEven_le p
    have hDown := floor_le_roundHalfEven q
    omega
  · -- with equal floors a number that is rounded up has no smaller one above it
    unfold roundHalfEven
    rw [hSame]
    split_ifs with hp hq hq
    · exact le_refl _
    · omega
    · exfalso
      rw [not_or, not_and] at hp
      rcases hq with hLow | ⟨hHalf, hEven⟩
      · exact hp.1 (by linarith)
      · rcases lt_or_eq_of_le (not_lt.mp hp.1) with hAbove | hTie
        · linarith
        · exact hp.2 hTie.symm hEven
    · exact le_refl _

@[simp] theorem roundHalfEven_intCast (n : Int) : roundHalfEven n = n := by
  rw [roundHalfEven, Int.floor_intCast, sub_self, if_pos (Or.inl (by norm_num))]

def IsFinite {F : Type} [PyFloat F] (x : F) : Prop :=
  PyFloat.isNan x = false ∧ PyFloat.isInf x = false

instance {F : Type} [PyFloat F] (x : F) : Decidable (IsFinite x) := by
  unfold IsFinite
  infer_instance

/-- Floats with the value of a rational, when they are finite, and exact arithmetic. -/
class ExactFloat (F : Type) extends PyFloat F where
  value : F → ℚ
  zero : ∃ x : F, x = FloatText.ofLiteral (.decimal ⟨false, 0, ['0'], none⟩) ∧
    (PyFloat.isNan x = false ∧ PyFloat.isInf x = false) ∧ value x = 0
  add_spec : ∀ x y : F, IsFinite x → IsFinite y →
    IsFinite (PyFloat.add x y) ∧ value (PyFloat.add x y) = value x + value y
  neg_spec : ∀ x : F, IsFinite x → IsFinite (PyFloat.neg x) ∧ value (PyFloat.neg x) = -value x
  mulInt_spec : ∀ (x : F) (n : Int), IsFinite x →
    IsFinite (PyFloat.mulInt x n) ∧ value (PyFloat.mulInt x n) = value x * n
  lt_iff : ∀ x y : F, IsFinite x → IsFinite y → (PyFloat.lt x y = true ↔ value x < value y)
  round_eq : ∀ x : F, IsFinite x → PyFloat.round x = .ok (roundHalfEven (value x))

namespace ExactFloat

variable {F : Type} [ExactFloat F]

theorem equals_iff {x y : F} (hx : IsFinite x) (hy : IsFinite y) :
    PyFloat.equals x y = true ↔ value x = value y := by
  have hLess := lt_iff x y hx hy
  have hMore := lt_iff y x hy hx
  unfold PyFloat.equals
  rw [hx.1, hy.1]
  simp only [Bool.not_false, Bool.true_and, Bool.and_eq_true, Bool.not_eq_true']
  constructor
  · rintro ⟨hNotLess, hNotMore⟩
    rw [← Bool.not_eq_true, hLess] at hNotLess
    rw [← Bool.not_eq_true, hMore] at hNotMore
    exact le_antisymm (not_lt.mp hNotMore) (not_lt.mp hNotLess)
  · intro hEq
    rw [← Bool.not_eq_true, ← Bool.not_eq_true, hLess, hMore, hEq]
    exact ⟨lt_irrefl _, lt_irrefl _⟩

end ExactFloat

theorem Decimal.round_eq (x : Decimal) : x.round = roundHalfEven ((x.thousandths : ℚ) / 1000) := by
  have hFloor : ⌊(x.thousandths : ℚ) / 1000⌋ = x.thousandths / 1000 := by
    have h := Rat.floor_intCast_div_natCast x.thousandths 1000
    exact_mod_cast h
  have hSplit : (x.thousandths : ℚ) / 1000 - ((x.thousandths / 1000 : Int) : ℚ) =
      ((x.thousandths % 1000 : Int) : ℚ) / 1000 := by
    have h := Int.mul_ediv_add_emod x.thousandths 1000
    have hCast : (1000 : ℚ) * ((x.thousandths / 1000 : Int) : ℚ) +
        ((x.thousandths % 1000 : Int) : ℚ) = (x.thousandths : ℚ) := by exact_mod_cast h
    linarith
  have hLess : (((x.thousandths % 1000 : Int) : ℚ) / 1000 < 1 / 2) ↔
      x.thousandths % 1000 < 500 := by
    rw [div_lt_div_iff₀ (by norm_num) (by norm_num)]
    constructor
    · intro h
      have h' : (x.thousandths % 1000) * 2 < 1 * 1000 := by exact_mod_cast h
      omega
    · intro h
      have h' : (x.thousandths % 1000) * 2 < 1 * 1000 := by omega
      exact_mod_cast h'
  have hTie : (((x.thousandths % 1000 : Int) : ℚ) / 1000 = 1 / 2) ↔ x.thousandths % 1000 = 500 := by
    rw [div_eq_div_iff (by norm_num) (by norm_num)]
    constructor
    · intro h
      have h' : (x.thousandths % 1000) * 2 = 1 * 1000 := by exact_mod_cast h
      omega
    · intro h
      have h' : (x.thousandths % 1000) * 2 = 1 * 1000 := by omega
      exact_mod_cast h'
  unfold Decimal.round roundHalfEven
  rw [hFloor, hSplit]
  simp only [hLess, hTie]

instance : ExactFloat Decimal where
  value := fun x => (x.thousandths : ℚ) / 1000
  zero := ⟨_, rfl, ⟨rfl, rfl⟩, by norm_num [FloatText.ofLiteral, Decimal.ofLiteral,
    Decimal.fractionValue, Decimal.digitValue]⟩
  add_spec := fun x y _ _ => ⟨⟨rfl, rfl⟩, by
    change (((x.thousandths + y.thousandths : Int) : ℚ)) / 1000 = _
    push_cast
    ring⟩
  neg_spec := fun x _ => ⟨⟨rfl, rfl⟩, by
    change (((-x.thousandths : Int) : ℚ)) / 1000 = _
    push_cast
    ring⟩
  mulInt_spec := fun x n _ => ⟨⟨rfl, rfl⟩, by
    change (((x.thousandths * n : Int) : ℚ)) / 1000 = _
    push_cast
    ring⟩
  lt_iff := fun x y _ _ => by
    change decide (x.thousandths < y.thousandths) = true ↔ _
    rw [decide_eq_true_eq, div_lt_div_iff_of_pos_right (by norm_num)]
    exact_mod_cast Iff.rfl
  round_eq := fun x _ => congrArg Except.ok (Decimal.round_eq x)

end LMCache.Lib
