import Mathlib.Data.List.Sort
import Mathlib.Data.String.Basic
import LMCache.Lib.Dict
import LMCache.Lib.Bytes

/-!
# JSON texts

The JSON values of a dynamic language, the printer with sorted keys, no blanks and
escaped non-ASCII characters, and a recursive-descent reader. The reader accepts every
text of the grammar and keeps the last of two members with one key. Reading back a printed
value gives the value with the members of every object sorted by key.

Floating-point numbers stay abstract: what is used of them is that the shortest text of a
number is a literal of the grammar which reads back as the number.
-/

namespace LMCache.Lib

inductive ExponentSign
  | bare
  | plus
  | minus
  deriving DecidableEq, Repr

/-- A decimal literal: the digits behind the point are empty when there is no point. -/
structure DecimalLiteral where
  negative : Bool
  whole : Nat
  fraction : List Char
  exponent : Option (ExponentSign × List Char)
  deriving DecidableEq, Repr

inductive FloatLiteral
  | nan
  | infinity
  | negInfinity
  | decimal (literal : DecimalLiteral)
  deriving DecidableEq, Repr

def FloatLiteral.WellFormed : FloatLiteral → Prop
  | .decimal d =>
    (∀ c ∈ d.fraction, c.isDigit = true) ∧
      (∀ e ∈ d.exponent, e.2 ≠ [] ∧ ∀ c ∈ e.2, c.isDigit = true) ∧
      (d.fraction ≠ [] ∨ d.exponent.isSome = true)
  | _ => True

/-- Floating-point numbers, through the literals they are written as. -/
class FloatText (F : Type) where
  repr : F → FloatLiteral
  ofLiteral : FloatLiteral → F
  wellFormed_repr : ∀ x, (repr x).WellFormed
  ofLiteral_repr : ∀ x, ofLiteral (repr x) = x

inductive Json (F : Type)
  | null
  | bool (b : Bool)
  | int (n : Int)
  | float (x : F)
  | str (s : String)
  | arr (items : List (Json F))
  | obj (members : List (String × Json F))

namespace Json

variable {F : Type}

def ExponentSign.text : ExponentSign → List Char
  | .bare => []
  | .plus => ['+']
  | .minus => ['-']

def signText (negative : Bool) : List Char := if negative then ['-'] else []

def fractionText (digits : List Char) : List Char :=
  if digits = [] then [] else '.' :: digits

def exponentText : Option (ExponentSign × List Char) → List Char
  | none => []
  | some e => 'e' :: (ExponentSign.text e.1 ++ e.2)

def literalText : FloatLiteral → List Char
  | .nan => ['N', 'a', 'N']
  | .infinity => ['I', 'n', 'f', 'i', 'n', 'i', 't', 'y']
  | .negInfinity => ['-', 'I', 'n', 'f', 'i', 'n', 'i', 't', 'y']
  | .decimal d =>
    signText d.negative ++ Nat.toDigits 10 d.whole ++ fractionText d.fraction ++
      exponentText d.exponent

def intText (n : Int) : List Char := signText (decide (n < 0)) ++ Nat.toDigits 10 n.natAbs

/-- The four hexadecimal digits of a code unit. -/
def hexText (n : Nat) : List Char :=
  [(n / 4096 % 16).digitChar, (n / 256 % 16).digitChar, (n / 16 % 16).digitChar, (n % 16).digitChar]

/-- The escapes of one letter, with the code they stand for. -/
def shortEscapes : List (Char × Nat) :=
  [('"', 0x22), ('\\', 0x5c), ('/', 0x2f), ('b', 0x08), ('f', 0x0c), ('n', 0x0a), ('r', 0x0d),
    ('t', 0x09)]

def escapeChar (c : Char) : List Char :=
  if c = '"' then ['\\', '"']
  else if c = '\\' then ['\\', '\\']
  else if c.toNat = 0x08 then ['\\', 'b']
  else if c.toNat = 0x0c then ['\\', 'f']
  else if c.toNat = 0x0a then ['\\', 'n']
  else if c.toNat = 0x0d then ['\\', 'r']
  else if c.toNat = 0x09 then ['\\', 't']
  else if 0x20 ≤ c.toNat ∧ c.toNat ≤ 0x7e then [c]
  else if c.toNat < 0x10000 then '\\' :: 'u' :: hexText c.toNat
  else
    -- outside the basic plane, two code units
    '\\' :: 'u' :: hexText (0xd800 + (c.toNat - 0x10000) / 0x400) ++
      '\\' :: 'u' :: hexText (0xdc00 + (c.toNat - 0x10000) % 0x400)

def stringText (s : String) : List Char := '"' :: s.toList.flatMap escapeChar ++ ['"']

def joinComma : List (List Char) → List Char
  | [] => []
  | [text] => text
  | text :: rest => text ++ ',' :: joinComma rest

/-- Members in the order of their keys. -/
def sortMembers {α : Type} (members : List (String × α)) : List (String × α) :=
  members.insertionSort (fun a b => a.1 ≤ b.1)

def memberText (member : String × List Char) : List Char :=
  stringText member.1 ++ ':' :: member.2

section Printer

variable [FloatText F]

mutual

/-- The text of `json.dumps(value, separators=(",", ":"), sort_keys=True)`. -/
def text : Json F → List Char
  | .null => ['n', 'u', 'l', 'l']
  | .bool true => ['t', 'r', 'u', 'e']
  | .bool false => ['f', 'a', 'l', 's', 'e']
  | .int n => intText n
  | .float x => literalText (FloatText.repr x)
  | .str s => stringText s
  | .arr items => '[' :: joinComma (itemTexts items) ++ [']']
  | .obj members => '\x7b' :: joinComma ((sortMembers (memberTexts members)).map memberText) ++
      ['\x7d']

def itemTexts : List (Json F) → List (List Char)
  | [] => []
  | item :: rest => text item :: itemTexts rest

def memberTexts : List (String × Json F) → List (String × List Char)
  | [] => []
  | (key, value) :: rest => (key, text value) :: memberTexts rest

end

theorem text_int (n : Int) : text (.int n : Json F) = intText n := by rw [text]

end Printer

mutual

/-- The value with the members of every object in the order of their keys. -/
def canon : Json F → Json F
  | .arr items => .arr (canonItems items)
  | .obj members => .obj (Dict.ofList (sortMembers (canonMembers members))).entries
  | value => value

def canonItems : List (Json F) → List (Json F)
  | [] => []
  | item :: rest => canon item :: canonItems rest

def canonMembers : List (String × Json F) → List (String × Json F)
  | [] => []
  | (key, value) :: rest => (key, canon value) :: canonMembers rest

end

def isSpace (c : Char) : Bool := c = ' ' || c = '\t' || c = '\n' || c = '\r'

def skipSpace (cs : List Char) : List Char := cs.dropWhile isSpace

def expect : List Char → List Char → Option (List Char)
  | [], cs => some cs
  | w :: word, c :: cs => if w = c then expect word cs else none
  | _ :: _, [] => none

def hexValue (c : Char) : Option Nat :=
  if '0' ≤ c ∧ c ≤ '9' then some (c.toNat - 48)
  else if 'a' ≤ c ∧ c ≤ 'f' then some (c.toNat - 87)
  else if 'A' ≤ c ∧ c ≤ 'F' then some (c.toNat - 55)
  else none

def hexValue4 (a b c d : Char) : Option Nat :=
  match hexValue a, hexValue b, hexValue c, hexValue d with
  | some w, some x, some y, some z => some (((w * 16 + x) * 16 + y) * 16 + z)
  | _, _, _, _ => none

def escapeValue (c : Char) : Option Nat := Dict.find c shortEscapes

/-- The code units of a string literal, from behind its opening quote. -/
def scanUnits : List Char → Option (List Nat × List Char)
  | [] => none
  | c :: rest =>
    if c = '"' then some ([], rest)
    else if c = '\\' then
      match rest with
      | [] => none
      | e :: rest =>
        match escapeValue e with
        | some n => (scanUnits rest).map fun r => (n :: r.1, r.2)
        | none =>
          if e = 'u' then
            match rest with
            | h₁ :: h₂ :: h₃ :: h₄ :: rest =>
              match hexValue4 h₁ h₂ h₃ h₄ with
              | some n => (scanUnits rest).map fun r => (n :: r.1, r.2)
              | none => none
            | _ => none
          else none
    else if c.toNat < 0x20 then none
    else (scanUnits rest).map fun r => (c.toNat :: r.1, r.2)

/-- Code points from code units: a high and a low surrogate make one point. -/
def joinSurrogates : List Nat → List Nat
  | [] => []
  | [n] => [n]
  | n :: m :: rest =>
    if (0xd800 ≤ n ∧ n < 0xdc00) ∧ (0xdc00 ≤ m ∧ m < 0xe000) then
      (0x10000 + (n - 0xd800) * 0x400 + (m - 0xdc00)) :: joinSurrogates rest
    else n :: joinSurrogates (m :: rest)

/-- A string is made of scalar values, so an unpaired surrogate is no string here. -/
def charOf (n : Nat) : Option Char := if n.isValidChar then some (Char.ofNat n) else none

def parseString (cs : List Char) : Option (String × List Char) :=
  match scanUnits cs with
  | none => none
  | some (units, rest) =>
    ((joinSurrogates units).mapM charOf).map fun chars => (String.ofList chars, rest)

def parseWhole : List Char → Option (Nat × List Char)
  | [] => none
  | c :: rest =>
    if c = '0' then some (0, rest)
    else if c.isDigit then
      some (Nat.ofDigitChars 10 (c :: rest.takeWhile Char.isDigit) 0, rest.dropWhile Char.isDigit)
    else none

def parseFraction (cs : List Char) : List Char × List Char :=
  match cs with
  | '.' :: rest =>
    if rest.takeWhile Char.isDigit = [] then ([], cs)
    else (rest.takeWhile Char.isDigit, rest.dropWhile Char.isDigit)
  | _ => ([], cs)

def parseSign : List Char → ExponentSign × List Char
  | '+' :: rest => (.plus, rest)
  | '-' :: rest => (.minus, rest)
  | rest => (.bare, rest)

def parseExponent (cs : List Char) : Option (ExponentSign × List Char) × List Char :=
  match cs with
  | [] => (none, cs)
  | c :: rest =>
    if c = 'e' ∨ c = 'E' then
      let signed := parseSign rest
      if signed.2.takeWhile Char.isDigit = [] then (none, cs)
      else (some (signed.1, signed.2.takeWhile Char.isDigit), signed.2.dropWhile Char.isDigit)
    else (none, cs)

def parseNegative : List Char → Bool × List Char
  | '-' :: rest => (true, rest)
  | rest => (false, rest)

section Reader

variable [FloatText F]

def parseNumber (cs : List Char) : Option (Json F × List Char) :=
  let signed := parseNegative cs
  match parseWhole signed.2 with
  | none => none
  | some (whole, rest) =>
    let fraction := parseFraction rest
    let exponent := parseExponent fraction.2
    if fraction.1 = [] ∧ exponent.1 = none then
      some (.int (if signed.1 then -(whole : Int) else whole), exponent.2)
    else
      some (.float (FloatText.ofLiteral (.decimal ⟨signed.1, whole, fraction.1, exponent.1⟩)),
        exponent.2)

def constants : List (List Char × Json F) :=
  [(['n', 'u', 'l', 'l'], .null), (['t', 'r', 'u', 'e'], .bool true),
    (['f', 'a', 'l', 's', 'e'], .bool false),
    (literalText .nan, .float (FloatText.ofLiteral .nan)),
    (literalText .infinity, .float (FloatText.ofLiteral .infinity)),
    (literalText .negInfinity, .float (FloatText.ofLiteral .negInfinity))]

def parseConstant (cs : List Char) : Option (Json F × List Char) :=
  constants.findSome? fun word => (expect word.1 cs).map fun rest => (word.2, rest)

mutual

def parseValue : Nat → List Char → Option (Json F × List Char)
  | 0, _ => none
  | _ + 1, [] => none
  | fuel + 1, c :: rest =>
    if c = '"' then (parseString rest).map fun r => (.str r.1, r.2)
    else if c = '\x7b' then
      match skipSpace rest with
      | '\x7d' :: rest => some (.obj [], rest)
      | rest => (parseMembers fuel rest).map fun r => (.obj (Dict.ofList r.1).entries, r.2)
    else if c = '[' then
      match skipSpace rest with
      | ']' :: rest => some (.arr [], rest)
      | rest => (parseItems fuel rest).map fun r => (.arr r.1, r.2)
    else
      match parseConstant (c :: rest) with
      | some r => some r
      | none => parseNumber (c :: rest)

def parseItems : Nat → List Char → Option (List (Json F) × List Char)
  | 0, _ => none
  | fuel + 1, cs =>
    match parseValue fuel cs with
    | none => none
    | some (value, rest) =>
      match skipSpace rest with
      | ',' :: rest => (parseItems fuel (skipSpace rest)).map fun r => (value :: r.1, r.2)
      | ']' :: rest => some ([value], rest)
      | _ => none

def parseMembers : Nat → List Char → Option (List (String × Json F) × List Char)
  | 0, _ => none
  | fuel + 1, cs =>
    match expect ['"'] cs with
    | none => none
    | some cs =>
      match parseString cs with
      | none => none
      | some (key, rest) =>
        match expect [':'] (skipSpace rest) with
        | none => none
        | some rest =>
          match parseValue fuel (skipSpace rest) with
          | none => none
          | some (value, rest) =>
            match skipSpace rest with
            | ',' :: rest =>
              (parseMembers fuel (skipSpace rest)).map fun r => ((key, value) :: r.1, r.2)
            | '\x7d' :: rest => some ([(key, value)], rest)
            | _ => none

end

/-- The value of `json.loads(text)`; the fuel covers every nesting of the text. -/
def read (cs : List Char) : Option (Json F) :=
  match parseValue (cs.length + 1) (skipSpace cs) with
  | none => none
  | some (value, rest) => if skipSpace rest = [] then some value else none

end Reader

end Json

end LMCache.Lib
