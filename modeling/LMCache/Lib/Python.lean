import LMCache.Lib.Json

/-!
# Exceptions and conversions

The exceptions a modelled function raises, by class and message, and the conversions
`int(value)` and `str(value)` of a JSON value. What the interpreter does with numbers in
texts and with the printed form of containers is a parameter.
-/

namespace LMCache.Lib

open List

inductive ExceptionKind
  | indexError
  | keyError
  | overflowError
  | typeError
  | valueError
  | runtimeError
  | structError
  | connectionError
  | zeroDivisionError
  | attributeError
  | assertionError
  | osError
  | importError
  | unicodeEncodeError
  deriving DecidableEq, Repr

structure PyException where
  kind : ExceptionKind
  message : String
  deriving DecidableEq, Repr

abbrev Result (α : Type) := Except PyException α

def raise {α : Type} (kind : ExceptionKind) (message : String) : Result α :=
  .error ⟨kind, message⟩

def valueError {α : Type} (message : String) : Result α := raise .valueError message

/-- A guard that raises when its condition holds. -/
def raiseIf (kind : ExceptionKind) (condition : Bool) (message : String) : Result Unit :=
  if condition then raise kind message else .ok ()

/-- A guard that raises `ValueError` when its condition holds. -/
def rejectIf (condition : Bool) (message : String) : Result Unit :=
  if condition then valueError message else .ok ()

/-- `int` of a float and of a text, `str` of what is no text, `repr` and `float` of a value,
the comparison of a float with an integer, and `strip` and `lower` of a text. -/
class PyRuntime (F : Type) extends FloatText F where
  truncate : F → Result Int
  intOfText : String → Result Int
  textOf : Json F → String
  reprOf : Json F → String
  floatOf : Json F → Result F
  floatOf_float : ∀ x, floatOf (.float x) = .ok x
  equalsInt : F → Int → Bool
  strip : String → String
  lower : String → String

/-- The arithmetic of floats; `round` and `floor` fail on what is not finite. -/
class PyFloat (F : Type) extends PyRuntime F where
  add : F → F → F
  neg : F → F
  mulInt : F → Int → F
  sum : List F → F
  lt : F → F → Bool
  isNan : F → Bool
  isInf : F → Bool
  isClose : F → F → F → Bool
  round : F → Result Int
  floor : F → Result Int

/-- The text without the occurrences of `part`, found from the left; `skip` characters of the
last one are still to be dropped. -/
def removeFrom (part : List Char) : Nat → List Char → List Char
  | _, [] => []
  | skip + 1, _ :: rest => removeFrom part skip rest
  | 0, c :: rest =>
    if part.isPrefixOf (c :: rest) then removeFrom part (part.length - 1) rest
    else c :: removeFrom part 0 rest

/-- `text.replace(part, "")` for a part that is not empty. -/
def removeText (part text : String) : String := String.ofList (removeFrom part.toList 0 text.toList)

/-- `text.startswith(start)`. -/
def startsWith (start text : String) : Bool := start.toList.isPrefixOf text.toList

namespace Json

variable {F : Type} [PyRuntime F]

def toInt : Json F → Result Int
  | .int n => .ok n
  | .bool b => .ok (if b then 1 else 0)
  | .float x => PyRuntime.truncate x
  | .str s => PyRuntime.intOfText F s
  | _ => raise .typeError "int() argument must be a string or a real number"

def toText : Json F → String
  | .str s => s
  | value => PyRuntime.textOf value

/-- `value == n`; a boolean equals zero or one. -/
def equalsInt (n : Int) : Json F → Bool
  | .int m => m == n
  | .bool b => (if b then 1 else 0) == n
  | .float x => PyRuntime.equalsInt x n
  | _ => false

/-- `value == text`. -/
def equalsText (text : String) : Json F → Bool
  | .str s => s == text
  | _ => false

/-- `bool(value)`. -/
def truthy : Json F → Bool
  | .null => false
  | .str s => s ≠ ""
  | .arr items => !items.isEmpty
  | .obj members => !members.isEmpty
  | value => !value.equalsInt 0

/-- The items of `for item in value`: of a text its characters, of an object its keys. -/
def iterate : Json F → Result (List (Json F))
  | .arr items => .ok items
  | .str s => .ok (s.toList.map fun c => .str (String.ofList [c]))
  | .obj members => .ok (members.map fun m => .str m.1)
  | _ => raise .typeError "object is not iterable"

/-- `value.get(key)` of a dictionary. -/
def get? (value : Json F) (key : String) : Option (Json F) :=
  match value with
  | .obj members => Dict.find key members
  | _ => none

def isObject : Json F → Bool
  | .obj _ => true
  | _ => false

/-- `value[key]` of a decoded object. -/
def item (value : Json F) (key : String) : Result (Json F) :=
  match value with
  | .obj members =>
    match Dict.find key members with
    | some v => .ok v
    | none => raise .keyError key
  | _ => raise .typeError "indices must be integers"

end Json

section Equality

variable {F : Type} [PyFloat F]

/-- `x == y` of two floats. -/
def PyFloat.equals (x y : F) : Bool :=
  !PyFloat.isNan x && !PyFloat.isNan y && !PyFloat.lt x y && !PyFloat.lt y x

namespace Json

mutual

/-- `a == b`; integers, booleans and floats compare by value, objects as dictionaries. -/
def equals : Json F → Json F → Bool
  | .null, .null => true
  | .str s, .str t => s == t
  | .arr xs, .arr ys => equalItems xs ys
  | .obj ms, .obj ns => ms.length == ns.length && equalMembers ms ns
  | .int n, value => value.equalsInt n
  | .bool b, value => value.equalsInt (if b then 1 else 0)
  | .float x, .float y => PyFloat.equals x y
  | .float x, .int n => PyRuntime.equalsInt x n
  | .float x, .bool b => PyRuntime.equalsInt x (if b then 1 else 0)
  | _, _ => false

def equalItems : List (Json F) → List (Json F) → Bool
  | [], [] => true
  | x :: xs, y :: ys => equals x y && equalItems xs ys
  | _, _ => false

def equalMembers : List (String × Json F) → List (String × Json F) → Bool
  | [], _ => true
  | (key, value) :: rest, others =>
    (match Dict.find key others with
      | some other => equals value other
      | none => false) && equalMembers rest others

end

mutual

/-- Whether no float in the value is infinite or not a number. -/
def allFinite : Json F → Bool
  | .float x => !PyFloat.isNan x && !PyFloat.isInf x
  | .arr items => itemsFinite items
  | .obj members => membersFinite members
  | _ => true

def itemsFinite : List (Json F) → Bool
  | [] => true
  | item :: rest => allFinite item && itemsFinite rest

def membersFinite : List (String × Json F) → Bool
  | [] => true
  | (_, value) :: rest => allFinite value && membersFinite rest

end

end Json

end Equality

variable {ε α β : Type}

variable {f : α → Except ε β}

@[simp] theorem ok_bind (a : α) (f : α → Except ε β) : ((.ok a : Except ε α) >>= f) = f a := rfl

@[simp] theorem error_bind (e : ε) (f : α → Except ε β) :
    ((.error e : Except ε α) >>= f) = .error e := rfl

theorem bind_eq_ok {x : Except ε α} {b : β} : (x >>= f) = .ok b ↔ ∃ a, x = .ok a ∧ f a = .ok b := by
  cases x with
  | error e => simp
  | ok a => simp

theorem dite_error_eq_ok {c : Prop} [Decidable c] {e : ε} {f : ¬ c → Except ε α} {a : α} :
    (if h : c then .error e else f h) = .ok a ↔ ∃ h : ¬ c, f h = .ok a := by
  by_cases h : c
  · rw [dif_pos h]
    exact ⟨fun hEq => (nomatch hEq), fun ⟨hNot, _⟩ => absurd h hNot⟩
  · rw [dif_neg h]
    exact ⟨fun hEq => ⟨h, hEq⟩, fun ⟨_, hEq⟩ => hEq⟩

variable {l : List α}

theorem mapM_ok {g : α → β} (h : ∀ a ∈ l, f a = .ok (g a)) : l.mapM f = .ok (l.map g) := by
  induction l with
  | nil => rfl
  | cons a rest ih =>
    rw [mapM_cons, h a (by simp), ok_bind, ih fun b hb => h b (by simp [hb]), ok_bind]
    rfl

theorem mapM_eq_ok {values : List α} {results : List β} (h : values.mapM f = .ok results) :
    results.length = values.length ∧
      ∀ (i : Nat) (b : β), results[i]? = some b → ∃ a, values[i]? = some a ∧ f a = .ok b := by
  induction values generalizing results with
  | nil =>
    cases h
    exact ⟨rfl, fun i b hAt => nomatch hAt⟩
  | cons a rest ih =>
    rw [mapM_cons] at h
    obtain ⟨b, hHead, h⟩ := bind_eq_ok.mp h
    obtain ⟨more, hMore, h⟩ := bind_eq_ok.mp h
    cases h
    obtain ⟨hLength, hAll⟩ := ih hMore
    refine ⟨by rw [length_cons, length_cons, hLength], ?_⟩
    intro i c hAt
    cases i with
    | zero =>
      cases hAt
      exact ⟨a, rfl, hHead⟩
    | succ i => exact hAll i c hAt

theorem mapM_concat_eq_ok {a : α} {bs : List β} : (l ++ [a]).mapM f = .ok bs ↔
      ∃ init b, l.mapM f = .ok init ∧ f a = .ok b ∧ bs = init ++ [b] := by
  rw [mapM_append, bind_eq_ok]
  constructor
  · rintro ⟨init, hInit, h⟩
    obtain ⟨last, hLast, h⟩ := bind_eq_ok.mp h
    rw [mapM_cons] at hLast
    obtain ⟨b, hb, hLast⟩ := bind_eq_ok.mp hLast
    cases hLast
    cases h
    exact ⟨init, b, hInit, hb, rfl⟩
  · rintro ⟨init, b, hInit, hb, rfl⟩
    refine ⟨init, hInit, ?_⟩
    rw [mapM_cons, hb]
    rfl

theorem mapM_take_drop {bs : List β} (h : l.mapM f = .ok bs) (n : Nat) :
    (l.take n).mapM f = .ok (bs.take n) ∧ (l.drop n).mapM f = .ok (bs.drop n) := by
  have hLength := (mapM_eq_ok h).1
  rw [← take_append_drop n l, mapM_append] at h
  obtain ⟨first, hFirst, h⟩ := bind_eq_ok.mp h
  obtain ⟨rest, hRest, h⟩ := bind_eq_ok.mp h
  cases h
  have hCut := (mapM_eq_ok hFirst).1
  rw [length_take] at hCut
  rcases Nat.le_total n l.length with hIn | hOut
  · rw [Nat.min_eq_left hIn] at hCut
    rw [← hCut, take_left, drop_left, hCut]
    exact ⟨hFirst, hRest⟩
  · have hNil : rest = [] := by
      rw [← length_eq_zero_iff, (mapM_eq_ok hRest).1, length_drop]
      omega
    subst hNil
    rw [append_nil] at hLength ⊢
    rw [take_of_length_le (l := first) (by omega), drop_of_length_le (l := first) (by omega)]
    exact ⟨hFirst, hRest⟩

theorem exists_mapM_ok (h : ∀ a ∈ l, ∃ b, f a = .ok b) : ∃ results, l.mapM f = .ok results := by
  induction l with
  | nil => exact ⟨[], rfl⟩
  | cons a rest ih =>
    obtain ⟨b, hb⟩ := h a mem_cons_self
    obtain ⟨more, hMore⟩ := ih fun c hc => h c (mem_cons_of_mem _ hc)
    exact ⟨b :: more, by rw [mapM_cons, hb, ok_bind, hMore, ok_bind]; rfl⟩

variable {condition : Bool} {message : String}

@[simp] theorem rejectIf_eq_ok {u : Unit} :
    rejectIf condition message = .ok u ↔ condition = false := by
  cases condition <;> simp [rejectIf, valueError, raise]

@[simp] theorem raiseIf_eq_ok {kind : ExceptionKind} {u : Unit} :
    raiseIf kind condition message = .ok u ↔ condition = false := by
  cases condition <;> simp [raiseIf, raise]

@[simp] theorem raiseIf_false (kind : ExceptionKind) (message : String) :
    raiseIf kind false message = .ok () := rfl

@[simp] theorem rejectIf_false (message : String) : rejectIf false message = .ok () := rfl

end LMCache.Lib
