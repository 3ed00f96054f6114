import LMCache.Lib.JsonReading
import LMCache.Lib.Python

/-!
# Texts of keys

What keys and file names are written with: fields between separators, integers and bytes in
hexadecimal, percent-encoding, and the replacement of one text by another. Each writer has a
reader that accepts what the interpreter accepts. A text is a list of code points, and one
with a surrogate among them has no bytes. The characters outside ASCII that count as digits or
spaces, and what replaces bytes that are no UTF-8, are a parameter.
-/

namespace LMCache.Lib

open List Option Nat

/-- A code point: a character, or one of the surrogates from `U+D800` on. -/
inductive PyChar
  | plain (c : Char)
  | surrogate (n : Fin 2048)
  deriving DecidableEq

abbrev PyStr := List PyChar

def PyChar.isSurrogate : PyChar → Bool
  | .plain _ => false
  | .surrogate _ => true

/-- Parts of the interpreter's handling of text: digits and spaces outside ASCII, the
replacement of invalid UTF-8, and the printed form of a text and of a set of characters. -/
class PyText where
  decimalValue : Char → Option Nat
  isSpace : Char → Bool
  replaceInvalid : Bytes → List Char
  reprOf : PyStr → String
  reprOfSet : PyStr → String

namespace Text

def ofChars (text : List Char) : PyStr := text.map .plain

def ofString (text : String) : PyStr := ofChars text.toList

/-- The characters of a text without surrogates. -/
def chars? : PyStr → Option (List Char)
  | [] => some []
  | .plain c :: rest => (chars? rest).map (c :: ·)
  | .surrogate _ :: _ => none

/-- The texts that have bytes. -/
def Encodable (text : PyStr) : Prop := ∀ c ∈ text, c.isSurrogate = false

instance (text : PyStr) : Decidable (Encodable text) := inferInstanceAs (Decidable (∀ _ ∈ _, _))

theorem chars?_ofChars (text : List Char) : chars? (ofChars text) = some text := by
  induction text with
  | nil => rfl
  | cons c rest ih =>
    rw [ofChars] at ih
    rw [ofChars, map_cons, chars?, ih, map_some]

theorem chars?_eq_none_iff {text : PyStr} : chars? text = none ↔ ¬ Encodable text := by
  induction text with
  | nil => exact ⟨fun h => (nomatch h), fun h => absurd (fun _ hMem => (nomatch hMem)) h⟩
  | cons c rest ih =>
    cases c with
    | plain c => simp [chars?, ih, Encodable, PyChar.isSurrogate]
    | surrogate n => simp [chars?, Encodable, PyChar.isSurrogate]

theorem eq_ofChars {text : PyStr} {chars : List Char} (h : chars? text = some chars) :
    text = ofChars chars := by
  induction text generalizing chars with
  | nil =>
    cases h
    rfl
  | cons c rest ih =>
    cases c with
    | plain c =>
      obtain ⟨more, hMore, rfl⟩ := map_eq_some_iff.mp h
      rw [ih hMore]
      rfl
    | surrogate n => cases h

theorem encodable_iff {text : PyStr} : Encodable text ↔ ∃ chars, text = ofChars chars := by
  constructor
  · intro h
    cases hChars : chars? text with
    | none => exact absurd h (chars?_eq_none_iff.mp hChars)
    | some chars => exact ⟨chars, eq_ofChars hChars⟩
  · rintro ⟨chars, rfl⟩
    by_contra h
    rw [← chars?_eq_none_iff, chars?_ofChars] at h
    cases h

theorem encodable_ofChars (text : List Char) : Encodable (ofChars text) :=
  encodable_iff.mpr ⟨text, rfl⟩

theorem encodable_nil : Encodable [] := encodable_ofChars []

theorem encodable_append {text more : PyStr} :
    Encodable (text ++ more) ↔ Encodable text ∧ Encodable more := by
  simp only [Encodable, mem_append, or_imp, forall_and]

section Fields

variable {α : Type} [DecidableEq α]

/-- `text.split(sep)` at a character. -/
def splitOn (sep : α) : List α → List (List α)
  | [] => [[]]
  | c :: rest =>
    if c = sep then [] :: splitOn sep rest
    else
      match splitOn sep rest with
      | [] => [[c]]
      | field :: fields => (c :: field) :: fields

def joinWith (sep : α) : List (List α) → List α
  | [] => []
  | [field] => field
  | field :: fields => field ++ sep :: joinWith sep fields

variable {sep : α}

theorem splitOn_of_not_mem {field : List α} (h : sep ∉ field) : splitOn sep field = [field] := by
  induction field with
  | nil => rfl
  | cons c rest ih =>
    rw [mem_cons, not_or] at h
    rw [splitOn, if_neg (Ne.symm h.1), ih h.2]

theorem splitOn_append {field : List α} (rest : List α) (h : sep ∉ field) :
    splitOn sep (field ++ sep :: rest) = field :: splitOn sep rest := by
  induction field with
  | nil => rw [nil_append, splitOn, if_pos rfl]
  | cons c more ih =>
    rw [mem_cons, not_or] at h
    rw [cons_append, splitOn, if_neg (Ne.symm h.1), ih h.2]

theorem splitOn_joinWith {fields : List (List α)} (hNe : fields ≠ [])
    (h : ∀ field ∈ fields, sep ∉ field) : splitOn sep (joinWith sep fields) = fields := by
  induction fields with
  | nil => exact absurd rfl hNe
  | cons field fields ih =>
    have hField := h field mem_cons_self
    cases fields with
    | nil => exact splitOn_of_not_mem hField
    | cons next more =>
      rw [joinWith, splitOn_append _ hField,
        ih (cons_ne_nil _ _) fun f hMem => h f (mem_cons_of_mem _ hMem)]
      exact cons_ne_nil _ _

theorem encodable_joinWith {sep : PyChar} (hSep : sep.isSurrogate = false) (fields : List PyStr) :
    Encodable (joinWith sep fields) ↔ ∀ field ∈ fields, Encodable field := by
  induction fields with
  | nil => exact iff_of_true (fun _ hMem => (nomatch hMem)) fun _ hMem => (nomatch hMem)
  | cons field fields ih =>
    cases fields with
    | nil => rw [joinWith, forall_mem_singleton]
    | cons next more =>
      rw [joinWith, encodable_append, forall_mem_cons, ← ih, Encodable, Encodable, Encodable,
        forall_mem_cons, and_iff_right hSep]
      exact fun h => cons_ne_nil _ _ h

/-- The text with `new` for the occurrences of `old`, found from the left; `skip` characters of
the last one are still to be dropped. -/
def replaceFrom (old new : List α) : Nat → List α → List α
  | _, [] => []
  | skip + 1, _ :: rest => replaceFrom old new skip rest
  | 0, c :: rest =>
    if old.isPrefixOf (c :: rest) then new ++ replaceFrom old new (old.length - 1) rest
    else c :: replaceFrom old new 0 rest

/-- `text.replace(old, new)` for an `old` that is not empty. -/
def replace (old new text : List α) : List α := replaceFrom old new 0 text

end Fields

/-- The format `x` of an integer that is not negative. -/
def hexText (n : Nat) : List Char := toDigits 16 n

/-- The format `#0{width}x`: the sign, the prefix, and zeros up to the width. -/
def paddedHexText (width : Nat) (n : Int) : List Char :=
  let front := (if n < 0 then ['-'] else []) ++ ['0', 'x']
  let digits := hexText n.natAbs
  front ++ List.replicate (width - front.length - digits.length) '0' ++ digits

section Reading

variable [PyText]

def isSpace (c : Char) : Bool :=
  if c.toNat < 128 then c = ' ' || (9 ≤ c.toNat && c.toNat ≤ 13) || (28 ≤ c.toNat && c.toNat ≤ 31)
  else PyText.isSpace c

/-- `text.strip()`. -/
def strip (text : List Char) : List Char :=
  ((text.dropWhile isSpace).reverse.dropWhile isSpace).reverse

def digitValue (c : Char) : Option Nat :=
  if c.toNat < 128 then Json.hexValue c else PyText.decimalValue c

/-- The digits behind one that was read; one underscore may stand before each. -/
def digitsAfter (value : Nat) : List Char → Option Nat
  | [] => some value
  | '_' :: c :: rest => (digitValue c).bind fun d => digitsAfter (16 * value + d) rest
  | c :: rest => (digitValue c).bind fun d => digitsAfter (16 * value + d) rest

def digitsOf : List Char → Option Nat
  | [] => none
  | c :: rest => (digitValue c).bind fun d => digitsAfter d rest

/-- The digits behind the prefix `0x`, which may be left out. -/
def unsignedOf : List Char → Option Nat
  | '0' :: 'x' :: '_' :: rest => digitsOf rest
  | '0' :: 'X' :: '_' :: rest => digitsOf rest
  | '0' :: 'x' :: rest => digitsOf rest
  | '0' :: 'X' :: rest => digitsOf rest
  | rest => digitsOf rest

/-- `int(text, 16)`, with `none` for `ValueError`. -/
def intOfHex (text : List Char) : Option Int :=
  match strip text with
  | '-' :: rest => (unsignedOf rest).map fun n : Nat => -(n : Int)
  | '+' :: rest => (unsignedOf rest).map Int.ofNat
  | rest => (unsignedOf rest).map Int.ofNat

end Reading

/-- The digits that are written. -/
def IsHexDigit (c : Char) : Prop := ∃ n < 16, c = digitChar n

variable {c : Char}

theorem isHexDigit_of_mem {n : Nat} (h : c ∈ hexText n) : IsHexDigit c := by
  induction n using Nat.strongRecOn with
  | ind n ih =>
    rw [hexText] at h
    rcases lt_or_ge n 16 with hSmall | hLarge
    · rw [toDigits_of_lt_base hSmall, mem_singleton] at h
      exact ⟨n, hSmall, h⟩
    · rw [toDigits_of_base_le (by norm_num) hLarge] at h
      rcases mem_append.mp h with hFront | hLast
      · exact ih (n / 16) (by omega) hFront
      · rw [mem_singleton] at hLast
        exact ⟨n % 16, mod_lt _ (by norm_num), hLast⟩

theorem exists_hexText (n : Nat) : ∃ c rest, hexText n = c :: rest ∧ IsHexDigit c := by
  have hNe : hexText n ≠ [] := toDigits_ne_nil
  obtain ⟨c, rest, hEq⟩ := exists_cons_of_ne_nil hNe
  exact ⟨c, rest, hEq, isHexDigit_of_mem (n := n) (hEq ▸ mem_cons_self)⟩

theorem dropWhile_eq_self {α : Type} {p : α → Bool} {l : List α} (h : ∀ a ∈ l, p a = false) :
    l.dropWhile p = l := by
  cases l with
  | nil => rfl
  | cons a rest => rw [dropWhile_cons_of_neg (by simp [h a mem_cons_self])]

theorem IsHexDigit.ne (h : IsHexDigit c) :
    c ≠ '_' ∧ c ≠ 'x' ∧ c ≠ 'X' ∧ c ≠ '-' ∧ c ≠ '+' ∧ c ≠ '@' := by
  obtain ⟨n, hn, rfl⟩ := h
  revert n
  decide

section Reading

variable [PyText]

theorem digitValue_digitChar {n : Nat} (hn : n < 16) : digitValue n.digitChar = some n := by
  have hAscii : ∀ n < 16, (digitChar n).toNat < 128 := by decide
  rw [digitValue, if_pos (hAscii n hn), Json.hexValue_digitChar n hn]

theorem digitsAfter_cons {c : Char} (h : IsHexDigit c) (value : Nat) (rest : List Char) :
    digitsAfter value (c :: rest) =
      (digitValue c).bind fun d => digitsAfter (16 * value + d) rest := by
  rw [digitsAfter]
  intro _ _ hEq
  exact absurd hEq h.ne.1

theorem digitsAfter_hexText (value n : Nat) (rest : List Char) :
    digitsAfter value (hexText n ++ rest) =
      digitsAfter (16 ^ (hexText n).length * value + n) rest := by
  induction n using Nat.strongRecOn generalizing rest with
  | ind n ih =>
    rw [hexText]
    rcases lt_or_ge n 16 with hSmall | hLarge
    · rw [toDigits_of_lt_base hSmall, singleton_append, digitsAfter_cons ⟨n, hSmall, rfl⟩,
        digitValue_digitChar hSmall, bind_some, length_singleton, pow_one]
    · have hMod : n % 16 < 16 := mod_lt _ (by norm_num)
      rw [toDigits_of_base_le (by norm_num) hLarge, append_assoc, singleton_append]
      have hFront := ih (n / 16) (by omega) ((n % 16).digitChar :: rest)
      rw [hexText] at hFront
      rw [hFront, digitsAfter_cons ⟨_, hMod, rfl⟩, digitValue_digitChar hMod, bind_some,
        length_append, length_singleton, pow_succ]
      congr 1
      have hDiv := div_add_mod n 16
      rw [mul_add, add_assoc, hDiv, mul_comm _ 16, mul_assoc]

theorem digitsAfter_zeros (value count : Nat) (rest : List Char) :
    digitsAfter value (List.replicate count '0' ++ rest) =
      digitsAfter (16 ^ count * value) rest := by
  induction count generalizing value with
  | zero => rw [replicate_zero, nil_append, pow_zero, one_mul]
  | succ count ih =>
    have hZero : digitValue '0' = some 0 := digitValue_digitChar (n := 0) (by norm_num)
    have hDigit : IsHexDigit '0' := ⟨0, by norm_num, rfl⟩
    rw [replicate_succ, cons_append, digitsAfter_cons hDigit, hZero,
      bind_some, ih, add_zero, pow_succ, mul_assoc]

theorem digitsOf_zeros_hexText (count n : Nat) :
    digitsOf (List.replicate count '0' ++ hexText n) = some n := by
  have hRead : digitsAfter 0 (List.replicate count '0' ++ (hexText n ++ [])) = some n := by
    rw [digitsAfter_zeros, digitsAfter_hexText, mul_zero, mul_zero, zero_add]
    rfl
  rw [append_nil] at hRead
  obtain ⟨c, rest, hEq, hDigit⟩ : ∃ c rest,
      List.replicate count '0' ++ hexText n = c :: rest ∧ IsHexDigit c := by
    cases count with
    | zero => exact exists_hexText n
    | succ count => exact ⟨'0', _, rfl, 0, by norm_num, rfl⟩
  rw [hEq, digitsAfter_cons hDigit, mul_zero] at hRead
  rw [hEq, digitsOf]
  exact (Option.bind_congr fun d _ => by rw [zero_add]).symm.trans hRead

theorem strip_eq_self {text : List Char} (h : ∀ c ∈ text, isSpace c = false) :
    strip text = text := by
  rw [strip, dropWhile_eq_self h, dropWhile_eq_self fun c hMem => h c (mem_reverse.mp hMem),
    reverse_reverse]

theorem isSpace_of_isHexDigit {c : Char} (h : IsHexDigit c) : isSpace c = false := by
  obtain ⟨n, hn, rfl⟩ := h
  have hAscii : ∀ n < 16, (digitChar n).toNat < 128 := by decide
  have hPlain : ∀ n < 16, (decide (digitChar n = ' ') ||
      (decide (9 ≤ (digitChar n).toNat) && decide ((digitChar n).toNat ≤ 13)) ||
      (decide (28 ≤ (digitChar n).toNat) && decide ((digitChar n).toNat ≤ 31))) = false := by
    decide
  rw [isSpace, if_pos (hAscii n hn)]
  exact hPlain n hn

end Reading

theorem mem_paddedHexText {width : Nat} {n : Int} (h : c ∈ paddedHexText width n) :
    c = '-' ∨ c = 'x' ∨ IsHexDigit c := by
  rw [paddedHexText] at h
  simp only [mem_append, mem_cons, not_mem_nil, or_false, mem_replicate] at h
  rcases h with ((hSign | hZero | hX) | ⟨-, hZero⟩) | hDigit
  · split at hSign
    · exact .inl (mem_singleton.mp hSign)
    · cases hSign
  · exact .inr (.inr ⟨0, by norm_num, hZero⟩)
  · exact .inr (.inl hX)
  · exact .inr (.inr ⟨0, by norm_num, hZero⟩)
  · exact .inr (.inr (isHexDigit_of_mem hDigit))

section Reading

variable [PyText]

theorem unsignedOf_prefixed {digits : List Char} (h : ∃ c rest, digits = c :: rest ∧ IsHexDigit c) :
    unsignedOf ('0' :: 'x' :: digits) = digitsOf digits := by
  obtain ⟨c, rest, rfl, hDigit⟩ := h
  rw [unsignedOf]
  intro _ hEq
  exact absurd (List.cons.inj hEq).1 hDigit.ne.1

theorem unsignedOf_hexText (n : Nat) : unsignedOf (hexText n) = digitsOf (hexText n) := by
  have hDigits : ∀ c ∈ hexText n, IsHexDigit c := fun c hMem => isHexDigit_of_mem hMem
  unfold unsignedOf
  split
  · rename_i hEq
    exact absurd rfl (hDigits 'x' (by rw [hEq]; simp)).ne.2.1
  · rename_i hEq
    exact absurd rfl (hDigits 'X' (by rw [hEq]; simp)).ne.2.2.1
  · rename_i hEq
    exact absurd rfl (hDigits 'x' (by rw [hEq]; simp)).ne.2.1
  · rename_i hEq
    exact absurd rfl (hDigits 'X' (by rw [hEq]; simp)).ne.2.2.1
  · rfl

theorem intOfHex_paddedHexText (width : Nat) (n : Int) :
    intOfHex (paddedHexText width n) = some n := by
  have hStrip : strip (paddedHexText width n) = paddedHexText width n := by
    apply strip_eq_self
    intro c hMem
    rcases mem_paddedHexText hMem with rfl | rfl | hDigit
    · rfl
    · rfl
    · exact isSpace_of_isHexDigit hDigit
  have hUnsigned : ∀ count m : Nat,
      unsignedOf ('0' :: 'x' :: (List.replicate count '0' ++ hexText m)) = some m := by
    intro count m
    rw [unsignedOf_prefixed, digitsOf_zeros_hexText]
    cases count with
    | zero => exact exists_hexText m
    | succ count => exact ⟨'0', _, rfl, 0, by norm_num, rfl⟩
  rw [intOfHex, hStrip, paddedHexText]
  rcases lt_or_ge n 0 with hNeg | hNonneg
  · rw [if_pos hNeg]
    have hRead := hUnsigned (width - 3 - (hexText n.natAbs).length) n.natAbs
    change (unsignedOf ('0' :: 'x' :: (List.replicate (width - 3 - (hexText n.natAbs).length) '0' ++
      hexText n.natAbs))).map (fun n : Nat => -(n : Int)) = some n
    rw [hRead, map_some, Int.ofNat_natAbs_of_nonpos hNeg.le, Int.neg_neg]
  · rw [if_neg (Int.not_lt.mpr hNonneg)]
    have hRead := hUnsigned (width - 2 - (hexText n.natAbs).length) n.natAbs
    change (unsignedOf ('0' :: 'x' :: (List.replicate (width - 2 - (hexText n.natAbs).length) '0' ++
      hexText n.natAbs))).map Int.ofNat = some n
    rw [hRead, map_some, Int.ofNat_eq_natCast, Int.natAbs_of_nonneg hNonneg]

theorem intOfHex_hexText (n : Nat) : intOfHex (hexText n) = some (n : Int) := by
  have hStrip : strip (hexText n) = hexText n :=
    strip_eq_self fun c hMem => isSpace_of_isHexDigit (isHexDigit_of_mem hMem)
  have hRead := digitsOf_zeros_hexText 0 n
  rw [replicate_zero, nil_append, ← unsignedOf_hexText] at hRead
  obtain ⟨c, rest, hEq, hDigit⟩ := exists_hexText n
  rw [intOfHex, hStrip]
  rw [hEq] at hRead ⊢
  split
  · rename_i hMinus
    exact absurd (List.cons.inj hMinus).1 hDigit.ne.2.2.2.1
  · rename_i hPlus
    exact absurd (List.cons.inj hPlus).1 hDigit.ne.2.2.2.2.1
  · rw [hRead]
    rfl

end Reading

def byteHex (b : UInt8) : List Char :=
  [digitChar (b.toNat / 16), digitChar (b.toNat % 16)]

/-- `data.hex()`. -/
def bytesHex (bs : Bytes) : List Char := bs.flatMap byteHex

/-- `bytes.fromhex(text)`, which skips spaces between bytes. -/
def fromHex : List Char → Option Bytes
  | [] => some []
  | c :: rest =>
    if c = ' ' ∨ 9 ≤ c.toNat ∧ c.toNat ≤ 13 then fromHex rest
    else
      match rest with
      | [] => none
      | d :: rest =>
        match Json.hexValue c, Json.hexValue d with
        | some high, some low => (fromHex rest).map (UInt8.ofNat (16 * high + low) :: ·)
        | _, _ => none

theorem isHexDigit_of_mem_bytesHex {bs : Bytes} (h : c ∈ bytesHex bs) : IsHexDigit c := by
  obtain ⟨b, -, hMem⟩ := mem_flatMap.mp h
  have hByte := b.toNat_lt
  rw [byteHex, mem_cons, mem_singleton] at hMem
  rcases hMem with rfl | rfl
  · exact ⟨_, by omega, rfl⟩
  · exact ⟨_, mod_lt _ (by norm_num), rfl⟩

theorem fromHex_bytesHex (bs : Bytes) : fromHex (bytesHex bs) = some bs := by
  induction bs with
  | nil => rfl
  | cons b bs ih =>
    have hByte := b.toNat_lt
    have hHigh : b.toNat / 16 < 16 := by omega
    have hLow : b.toNat % 16 < 16 := mod_lt _ (by norm_num)
    have hPlain : ∀ n < 16, ¬(digitChar n = ' ' ∨
        9 ≤ (digitChar n).toNat ∧ (digitChar n).toNat ≤ 13) := by decide
    have hJoin : 16 * (b.toNat / 16) + b.toNat % 16 = b.toNat := div_add_mod _ _
    rw [bytesHex] at ih
    rw [bytesHex, flatMap_cons, byteHex, cons_append, singleton_append, fromHex,
      if_neg (hPlain _ hHigh), Json.hexValue_digitChar _ hHigh, Json.hexValue_digitChar _ hLow]
    dsimp only
    rw [ih, hJoin, UInt8.ofNat_toNat]
    rfl

/-- The characters that `quote` leaves as they are. -/
def unreserved (b : UInt8) : Bool :=
  (48 ≤ b && b ≤ 57) || (65 ≤ b && b ≤ 90) || (97 ≤ b && b ≤ 122) ||
    b = 95 || b = 46 || b = 45 || b = 126

def upperHexDigit (n : Nat) : Char := if n < 10 then Char.ofNat (48 + n) else Char.ofNat (55 + n)

def quoteByte (b : UInt8) : List Char :=
  if unreserved b then [Char.ofNat b.toNat]
  else ['%', upperHexDigit (b.toNat / 16), upperHexDigit (b.toNat % 16)]

/-- `text.encode("utf-8")`; the error names the first surrogates. -/
def encode (text : PyStr) : Result Bytes :=
  match chars? text with
  | some chars => .ok (Bytes.encodeUtf8 chars)
  | none =>
    let start := text.findIdx PyChar.isSurrogate
    match (text.drop start).takeWhile PyChar.isSurrogate with
    | [.surrogate n] => raise .unicodeEncodeError (s!"'utf-8' codec can't encode character " ++
        s!"'\\u{String.ofList (hexText (55296 + n))}' in position {start}: " ++
        s!"surrogates not allowed")
    | run => raise .unicodeEncodeError (s!"'utf-8' codec can't encode characters in position " ++
        s!"{start}-{start + run.length - 1}: surrogates not allowed")

def quoteFromBytes (bs : Bytes) : List Char := bs.flatMap quoteByte

/-- `urllib.parse.quote(text, safe="")`. -/
def quote (text : PyStr) : Result PyStr := do
  let bytes ← encode text
  return ofChars (quoteFromBytes bytes)

theorem encode_ofChars (text : List Char) :
    encode (ofChars text) = .ok (Bytes.encodeUtf8 text) := by
  rw [encode, chars?_ofChars]

theorem exists_encode_iff {text : PyStr} : (∃ bytes, encode text = .ok bytes) ↔ Encodable text := by
  constructor
  · rintro ⟨bytes, h⟩
    by_contra hNot
    rw [encode, chars?_eq_none_iff.mpr hNot] at h
    dsimp only at h
    split at h
    · cases h
    · cases h
  · intro h
    obtain ⟨chars, rfl⟩ := encodable_iff.mp h
    exact ⟨_, encode_ofChars chars⟩

theorem quote_ofChars (text : List Char) :
    quote (ofChars text) = .ok (ofChars (quoteFromBytes (Bytes.encodeUtf8 text))) := by
  rw [quote, encode_ofChars]
  rfl

theorem encodable_of_quote {text quoted : PyStr} (h : quote text = .ok quoted) :
    Encodable text := by
  cases hBytes : encode text with
  | error e =>
    rw [quote, hBytes] at h
    cases h
  | ok bytes => exact exists_encode_iff.mp ⟨bytes, hBytes⟩

/-- The bytes of a text of ASCII characters, with the escapes that are well formed. -/
def percentDecode : List Char → Bytes
  | '%' :: c :: d :: rest =>
    match Json.hexValue c, Json.hexValue d with
    | some high, some low => UInt8.ofNat (16 * high + low) :: percentDecode rest
    | _, _ => 37 :: percentDecode (c :: d :: rest)
  | c :: rest => UInt8.ofNat c.toNat :: percentDecode rest
  | [] => []

theorem unreserved_char {b : UInt8} (h : unreserved b = true) :
    Char.ofNat b.toNat ≠ '%' ∧ Char.ofNat b.toNat ≠ '@' ∧ (Char.ofNat b.toNat).toNat = b.toNat ∧
      b.toNat < 128 := by
  have hAll : ∀ n < 256, unreserved (UInt8.ofNat n) = true → Char.ofNat n ≠ '%' ∧
      Char.ofNat n ≠ '@' ∧ (Char.ofNat n).toNat = n ∧ n < 128 := by decide +kernel
  have hByte := hAll b.toNat b.toNat_lt
  rw [UInt8.ofNat_toNat] at hByte
  exact hByte h

theorem percentDecode_quoteByte (b : UInt8) (rest : List Char) :
    percentDecode (quoteByte b ++ rest) = b :: percentDecode rest := by
  rw [quoteByte]
  split
  · rename_i hPlain
    obtain ⟨hNe, -, hChar, -⟩ := unreserved_char hPlain
    rw [singleton_append, percentDecode, hChar, UInt8.ofNat_toNat]
    intro _ _ _ hEq
    exact absurd hEq hNe
  · have hByte := b.toNat_lt
    have hHigh : b.toNat / 16 < 16 := by omega
    have hLow : b.toNat % 16 < 16 := mod_lt _ (by norm_num)
    have hValue : ∀ n < 16, Json.hexValue (upperHexDigit n) = some n := by decide
    have hJoin : 16 * (b.toNat / 16) + b.toNat % 16 = b.toNat := div_add_mod _ _
    change percentDecode ('%' :: upperHexDigit (b.toNat / 16) :: upperHexDigit (b.toNat % 16) ::
      rest) = _
    rw [percentDecode, hValue _ hHigh, hValue _ hLow]
    dsimp only
    rw [hJoin, UInt8.ofNat_toNat]

theorem percentDecode_quoteFromBytes (bs : Bytes) : percentDecode (quoteFromBytes bs) = bs := by
  rw [quoteFromBytes]
  induction bs with
  | nil => rfl
  | cons b bs ih => rw [flatMap_cons, percentDecode_quoteByte, ih]

/-- Quoted text is ASCII and has no `@`. -/
theorem mem_quoteFromBytes {bs : Bytes} (h : c ∈ quoteFromBytes bs) :
    c.toNat < 128 ∧ c ≠ '@' := by
  obtain ⟨b, -, hMem⟩ := mem_flatMap.mp h
  have hByte := b.toNat_lt
  rw [quoteByte] at hMem
  split at hMem
  · rename_i hPlain
    obtain ⟨-, hNe, hChar, hAscii⟩ := unreserved_char hPlain
    obtain rfl := mem_singleton.mp hMem
    exact ⟨by rw [hChar]; exact hAscii, hNe⟩
  · have hDigit : ∀ n < 16, (upperHexDigit n).toNat < 128 ∧ upperHexDigit n ≠ '@' := by decide
    simp only [mem_cons, not_mem_nil, or_false] at hMem
    rcases hMem with rfl | rfl | rfl
    · decide
    · exact hDigit _ (by omega)
    · exact hDigit _ (mod_lt _ (by norm_num))

/-- ASCII text without `%` stands for its own bytes. -/
theorem percentDecode_plain {text : List Char} (hAscii : ∀ c ∈ text, c.toNat < 128)
    (hPlain : '%' ∉ text) : percentDecode text = Bytes.encodeUtf8 text := by
  have hChar : ∀ n < 128, String.utf8EncodeChar (Char.ofNat n) = [UInt8.ofNat n] := by
    decide +kernel
  induction text with
  | nil => rfl
  | cons c rest ih =>
    rw [mem_cons, not_or] at hPlain
    have hByte := hChar c.toNat (hAscii c mem_cons_self)
    rw [Char.ofNat_toNat] at hByte
    rw [percentDecode, ih (fun d hMem => hAscii d (mem_cons_of_mem _ hMem)) hPlain.2,
      Bytes.encodeUtf8, Bytes.encodeUtf8, flatMap_cons, hByte, singleton_append]
    intro _ _ _ hEq
    exact absurd hEq.symm hPlain.1

section Unquote

variable [PyText]

/-- A run of ASCII characters with its escapes, as text. -/
def decodeRun (run : List Char) : List Char :=
  match Bytes.decodeUtf8 (percentDecode run) with
  | some text => text
  | none => PyText.replaceInvalid (percentDecode run)

/-- The runs of ASCII characters are decoded, the other code points are kept. -/
def unquoteRuns (run : List Char) : PyStr → PyStr
  | [] => ofChars (decodeRun run)
  | .plain c :: rest =>
    if c.toNat < 128 then unquoteRuns (run ++ [c]) rest
    else ofChars (decodeRun run) ++ .plain c :: unquoteRuns [] rest
  | .surrogate n :: rest => ofChars (decodeRun run) ++ .surrogate n :: unquoteRuns [] rest

/-- `urllib.parse.unquote(text)`. -/
def unquote (text : PyStr) : PyStr := if .plain '%' ∈ text then unquoteRuns [] text else text

theorem unquoteRuns_ascii {text : List Char} (h : ∀ c ∈ text, c.toNat < 128) (run : List Char) :
    unquoteRuns run (ofChars text) = ofChars (decodeRun (run ++ text)) := by
  induction text generalizing run with
  | nil => rw [ofChars, map_nil, unquoteRuns, append_nil]
  | cons c rest ih =>
    have hRest := ih (fun d hMem => h d (mem_cons_of_mem _ hMem)) (run ++ [c])
    rw [ofChars] at hRest
    rw [ofChars, map_cons, unquoteRuns, if_pos (h c mem_cons_self), hRest, append_assoc,
      singleton_append]

theorem unquote_quote {text quoted : PyStr} (h : quote text = .ok quoted) :
    unquote quoted = text := by
  obtain ⟨chars, rfl⟩ := encodable_iff.mp (encodable_of_quote h)
  rw [quote_ofChars] at h
  cases h
  have hAscii : ∀ c ∈ quoteFromBytes (Bytes.encodeUtf8 chars), c.toNat < 128 :=
    fun c hMem => (mem_quoteFromBytes hMem).1
  have hDecode := Bytes.decodeUtf8_encodeUtf8 chars
  rw [unquote]
  split
  · rw [unquoteRuns_ascii hAscii, nil_append, decodeRun, percentDecode_quoteFromBytes, hDecode]
  · rename_i hPlain
    have hNot : '%' ∉ quoteFromBytes (Bytes.encodeUtf8 chars) := fun hMem =>
      hPlain (mem_map_of_mem hMem)
    have hBytes := percentDecode_plain hAscii hNot
    rw [percentDecode_quoteFromBytes] at hBytes
    rw [hBytes, Bytes.decodeUtf8_encodeUtf8] at hDecode
    exact congrArg ofChars (some.inj hDecode)

end Unquote

end Text

end LMCache.Lib
