import LMCache.Lib.Json

/-!
# Reading back a printed value

The reader undoes the printer, piece by piece: a character with its escape, a string, a
number in front of anything that cannot continue it, and then by recursion on the value.
The recursion carries that the fuel covers the length of the text that is left to read.
-/

namespace LMCache.Lib

open List

namespace Json

variable {F : Type}

theorem skipSpace_cons {c : Char} {cs : List Char} (h : isSpace c = false) :
    skipSpace (c :: cs) = c :: cs := by
  simp [skipSpace, h]

theorem canonItems_eq_map (items : List (Json F)) : canonItems items = items.map canon := by
  induction items with
  | nil => rfl
  | cons item items ih => rw [canonItems, ih, map_cons]

theorem canonMembers_eq_map (members : List (String × Json F)) :
    canonMembers members = members.map fun m => (m.1, canon m.2) := by
  induction members with
  | nil => rfl
  | cons member members ih => rw [canonMembers, ih, map_cons]

theorem sortMembers_map {α β : Type} (f : α → β) (members : List (String × α)) :
    sortMembers (members.map fun m => (m.1, f m.2)) =
      (sortMembers members).map fun m => (m.1, f m.2) :=
  (map_insertionSort _ _ (fun m : String × α => (m.1, f m.2)) members fun _ _ _ _ => Iff.rfl).symm

theorem mem_sortMembers {α : Type} {members : List (String × α)} {member : String × α} :
    member ∈ sortMembers members ↔ member ∈ members :=
  mem_insertionSort _

theorem map_fst_canonMembers (members : List (String × Json F)) :
    (canonMembers members).map Prod.fst = members.map Prod.fst := by
  rw [canonMembers_eq_map, map_map]
  rfl

theorem hexValue_digitChar : ∀ n < 16, hexValue (Nat.digitChar n) = some n := by
  decide

theorem hexValue4_hexText {n : Nat} (h : n < 65536) :
    hexValue4 (n / 4096 % 16).digitChar (n / 256 % 16).digitChar (n / 16 % 16).digitChar
      (n % 16).digitChar = some n := by
  simp only [hexValue4, hexValue_digitChar _ (Nat.mod_lt _ (by decide : 0 < 16)), Option.some.injEq]
  omega

def unitsOf (c : Char) : List Nat :=
  if c.toNat < 0x10000 then [c.toNat]
  else [0xd800 + (c.toNat - 0x10000) / 0x400, 0xdc00 + (c.toNat - 0x10000) % 0x400]

theorem scanUnits_short {e : Char} {n : Nat} (h : escapeValue e = some n) (cs : List Char) :
    scanUnits ('\\' :: e :: cs) = (scanUnits cs).map fun r => (n :: r.1, r.2) := by
  rw [scanUnits.eq_def]
  simp [h]

theorem scanUnits_hex {n : Nat} (h : n < 65536) (cs : List Char) :
    scanUnits ('\\' :: 'u' :: hexText n ++ cs) = (scanUnits cs).map fun r => (n :: r.1, r.2) := by
  have hEscape : escapeValue 'u' = none := by decide
  rw [scanUnits.eq_def]
  simp [hexText, hEscape, hexValue4_hexText h]

theorem scanUnits_plain {c : Char} (hQuote : c ≠ '"') (hSlash : c ≠ '\\') (hLow : 0x20 ≤ c.toNat)
    (cs : List Char) : scanUnits (c :: cs) = (scanUnits cs).map fun r => (c.toNat :: r.1, r.2) := by
  rw [scanUnits.eq_def]
  simp [hQuote, hSlash, Nat.not_lt.mpr hLow]

theorem toNat_lt_of_char (c : Char) : c.toNat < 0x110000 := by
  rcases c.valid with h | h
  · have := UInt32.lt_iff_toNat_lt.mp (show c.val < 0xd800 from h)
    exact Nat.lt_trans this (by decide)
  · exact h.2

theorem not_surrogate_of_char (c : Char) : ¬ (0xd800 ≤ c.toNat ∧ c.toNat < 0xe000) := by
  rcases c.valid with h | h
  · intro hRange
    have hLt : c.toNat < 0xd800 := h
    omega
  · intro hRange
    have hLt : 0xdfff < c.toNat := h.1
    omega

theorem scanUnits_escapeChar (c : Char) (cs : List Char) :
    scanUnits (escapeChar c ++ cs) = (scanUnits cs).map fun r => (unitsOf c ++ r.1, r.2) := by
  have hBound := toNat_lt_of_char c
  by_cases hQuote : c = '"'
  · subst hQuote
    exact scanUnits_short (by decide) cs
  by_cases hSlash : c = '\\'
  · subst hSlash
    exact scanUnits_short (by decide) cs
  unfold escapeChar
  rw [if_neg hQuote, if_neg hSlash]
  by_cases hSmall : c.toNat < 0x10000
  · rw [unitsOf, if_pos hSmall]
    split_ifs with hB hF hN hR hT hPlain
    · rw [hB]
      exact scanUnits_short (by decide) cs
    · rw [hF]
      exact scanUnits_short (by decide) cs
    · rw [hN]
      exact scanUnits_short (by decide) cs
    · rw [hR]
      exact scanUnits_short (by decide) cs
    · rw [hT]
      exact scanUnits_short (by decide) cs
    · exact scanUnits_plain hQuote hSlash hPlain.1 cs
    · exact scanUnits_hex hSmall cs
  · rw [unitsOf, if_neg hSmall, if_neg (by omega), if_neg (by omega), if_neg (by omega),
      if_neg (by omega), if_neg (by omega), if_neg (by omega), if_neg hSmall]
    have hHigh : 0xd800 + (c.toNat - 0x10000) / 0x400 < 65536 := by omega
    have hLow : 0xdc00 + (c.toNat - 0x10000) % 0x400 < 65536 := by omega
    rw [append_assoc, scanUnits_hex hHigh, scanUnits_hex hLow]
    cases scanUnits cs <;> rfl

theorem scanUnits_flatMap (chars : List Char) (rest : List Char) :
    scanUnits (chars.flatMap escapeChar ++ '"' :: rest) = some (chars.flatMap unitsOf, rest) := by
  induction chars with
  | nil =>
    rw [flatMap_nil, nil_append, scanUnits.eq_def]
    simp
  | cons c chars ih =>
    rw [flatMap_cons, append_assoc, scanUnits_escapeChar, ih]
    rfl

theorem joinSurrogates_cons {n : Nat} (h : ¬ (0xd800 ≤ n ∧ n < 0xe000)) (ns : List Nat) :
    joinSurrogates (n :: ns) = n :: joinSurrogates ns := by
  cases ns with
  | nil => rfl
  | cons m ns =>
    rw [joinSurrogates, if_neg]
    omega

theorem joinSurrogates_flatMap (chars : List Char) :
    joinSurrogates (chars.flatMap unitsOf) = chars.map Char.toNat := by
  induction chars with
  | nil => rfl
  | cons c chars ih =>
    have hBound := toNat_lt_of_char c
    rw [flatMap_cons, map_cons, unitsOf]
    split_ifs with hSmall
    · rw [singleton_append, joinSurrogates_cons (not_surrogate_of_char c), ih]
    · have hPair : 0x10000 + (0xd800 + (c.toNat - 0x10000) / 0x400 - 0xd800) * 0x400 +
          (0xdc00 + (c.toNat - 0x10000) % 0x400 - 0xdc00) = c.toNat := by omega
      rw [cons_append, singleton_append, joinSurrogates, if_pos (by omega), ih, hPair]

theorem mapM_charOf (chars : List Char) : (chars.map Char.toNat).mapM charOf = some chars := by
  induction chars with
  | nil => rfl
  | cons c chars ih =>
    have hChar : charOf c.toNat = some c := by
      have hValid : c.toNat.isValidChar := c.valid
      rw [charOf, if_pos hValid, Char.ofNat_toNat]
    simp [mapM_cons, hChar, ih]

theorem parseString_text (s : String) (rest : List Char) :
    parseString (s.toList.flatMap escapeChar ++ '"' :: rest) = some (s, rest) := by
  unfold parseString
  rw [scanUnits_flatMap]
  simp only [joinSurrogates_flatMap, mapM_charOf, Option.map_some, String.ofList_toList]

/-- A text that cannot continue a number. -/
def Stops (rest : List Char) : Prop :=
  ∀ c ∈ rest.head?, c.isDigit = false ∧ c ≠ '.' ∧ c ≠ 'e' ∧ c ≠ 'E'

theorem takeWhile_digits {digits rest : List Char} (hDigits : ∀ c ∈ digits, c.isDigit = true)
    (hRest : ∀ c ∈ rest.head?, c.isDigit = false) :
    (digits ++ rest).takeWhile Char.isDigit = digits ∧
      (digits ++ rest).dropWhile Char.isDigit = rest := by
  induction digits with
  | nil =>
    cases rest with
    | nil => exact ⟨rfl, rfl⟩
    | cons c rest =>
      have hStop := hRest c rfl
      simp [hStop]
  | cons d digits ih =>
    have hHead := hDigits d (by simp)
    obtain ⟨hTake, hDrop⟩ := ih fun c hc => hDigits c (by simp [hc])
    simp [hHead, hTake, hDrop]

theorem digits_isDigit {n : Nat} {c : Char} (h : c ∈ Nat.toDigits 10 n) : c.isDigit = true :=
  Nat.isDigit_of_mem_toDigits (by decide) (by decide) h

theorem digitChar_ne_zero : ∀ n < 10, 0 < n → Nat.digitChar n ≠ '0' := by
  decide

theorem head_toDigits {n : Nat} (h : 0 < n) : ∃ c cs, Nat.toDigits 10 n = c :: cs ∧ c ≠ '0' := by
  induction n using Nat.strong_induction_on with
  | _ n ih =>
    by_cases hSmall : n < 10
    · exact ⟨n.digitChar, [], Nat.toDigits_of_lt_base hSmall, digitChar_ne_zero n hSmall h⟩
    · obtain ⟨c, cs, hEq, hNe⟩ := ih (n / 10) (by omega) (by omega)
      rw [Nat.toDigits_of_base_le (by decide) (by omega), hEq]
      exact ⟨c, cs ++ [(n % 10).digitChar], rfl, hNe⟩

theorem parseWhole_text (n : Nat) {rest : List Char} (hRest : ∀ c ∈ rest.head?, c.isDigit = false) :
    parseWhole (Nat.toDigits 10 n ++ rest) = some (n, rest) := by
  rcases Nat.eq_zero_or_pos n with rfl | hPos
  · rfl
  · obtain ⟨c, cs, hEq, hNe⟩ := head_toDigits hPos
    have hDigit : c.isDigit = true := digits_isDigit (n := n) (by simp [hEq])
    have hDigits : ∀ d ∈ cs, d.isDigit = true := fun d hd =>
      digits_isDigit (n := n) (by simp [hEq, hd])
    obtain ⟨hTake, hDrop⟩ := takeWhile_digits hDigits hRest
    have hValue : Nat.ofDigitChars 10 (c :: cs) 0 = n := by
      rw [← hEq, Nat.ofDigitChars_ten_toDigits]
    rw [hEq, cons_append, parseWhole, if_neg hNe, if_pos hDigit, hTake, hDrop, hValue]

theorem parseFraction_text {digits rest : List Char} (hDigits : ∀ c ∈ digits, c.isDigit = true)
    (hDigit : ∀ c ∈ rest.head?, c.isDigit = false) (hPoint : ∀ c ∈ rest.head?, c ≠ '.') :
    parseFraction (fractionText digits ++ rest) = (digits, rest) := by
  unfold fractionText
  split_ifs with hEmpty
  · subst hEmpty
    rw [nil_append, parseFraction.eq_def]
    split
    · exact absurd rfl (hPoint '.' rfl)
    · rfl
  · obtain ⟨hTake, hDrop⟩ := takeWhile_digits hDigits hDigit
    simp only [cons_append, parseFraction, hTake, hDrop, if_neg hEmpty]

theorem parseSign_text (sign : ExponentSign) {digits : List Char} (rest : List Char)
    (hNe : digits ≠ []) (hDigits : ∀ c ∈ digits, c.isDigit = true) :
    parseSign (ExponentSign.text sign ++ (digits ++ rest)) = (sign, digits ++ rest) := by
  cases sign with
  | plus => rfl
  | minus => rfl
  | bare =>
    obtain ⟨d, ds, rfl⟩ := exists_cons_of_ne_nil hNe
    have hDigit := hDigits d (by simp)
    rw [ExponentSign.text, nil_append, cons_append, parseSign.eq_def]
    split
    · rename_i heq
      cases heq
      cases hDigit
    · rename_i heq
      cases heq
      cases hDigit
    · rfl

theorem parseExponent_text {exponent : Option (ExponentSign × List Char)} {rest : List Char}
    (hDigits : ∀ e ∈ exponent, e.2 ≠ [] ∧ ∀ c ∈ e.2, c.isDigit = true) (hRest : Stops rest) :
    parseExponent (exponentText exponent ++ rest) = (exponent, rest) := by
  cases exponent with
  | none =>
    rw [exponentText, nil_append]
    cases rest with
    | nil => rfl
    | cons c rest =>
      obtain ⟨-, -, hLower, hUpper⟩ := hRest c rfl
      rw [parseExponent, if_neg (by simp [hLower, hUpper])]
  | some e =>
    obtain ⟨sign, digits⟩ := e
    obtain ⟨hNe, hAll⟩ := hDigits (sign, digits) rfl
    obtain ⟨hTake, hDrop⟩ := takeWhile_digits hAll fun c hc => (hRest c hc).1
    simp only [exponentText, cons_append, append_assoc, parseExponent, true_or,
      if_true, parseSign_text sign rest hNe hAll, hTake, hDrop, if_neg hNe]

theorem parseNegative_text (negative : Bool) {c : Char} {cs : List Char} (h : c ≠ '-') :
    parseNegative (signText negative ++ c :: cs) = (negative, c :: cs) := by
  cases negative with
  | true => rfl
  | false =>
    simp only [signText, Bool.false_eq_true, if_false, nil_append]
    rw [parseNegative.eq_def]
    split
    · rename_i heq
      cases heq
      exact absurd rfl h
    · rfl

theorem toDigits_eq_cons (n : Nat) : ∃ c cs, Nat.toDigits 10 n = c :: cs ∧ c.isDigit = true := by
  obtain ⟨c, cs, hEq⟩ := exists_cons_of_ne_nil (Nat.toDigits_ne_nil (n := n) (b := 10))
  exact ⟨c, cs, hEq, digits_isDigit (n := n) (by simp [hEq])⟩

theorem ne_of_isDigit {c d : Char} (hc : c.isDigit = true) (hd : d.isDigit = false) : c ≠ d := by
  rintro rfl
  rw [hc] at hd
  cases hd

theorem parseNegative_digits (negative : Bool) (n : Nat) (rest : List Char) :
    parseNegative (signText negative ++ (Nat.toDigits 10 n ++ rest)) =
      (negative, Nat.toDigits 10 n ++ rest) := by
  obtain ⟨c, cs, hEq, hDigit⟩ := toDigits_eq_cons n
  rw [hEq, cons_append]
  exact parseNegative_text negative (ne_of_isDigit hDigit (by decide))

section Values

variable [FloatText F]

theorem parseNumber_int (n : Int) {rest : List Char} (hRest : Stops rest) :
    parseNumber (intText n ++ rest) = some ((.int n : Json F), rest) := by
  have hNoDigits : ∀ c ∈ ([] : List Char), c.isDigit = true := by simp
  have hFraction : parseFraction rest = ([], rest) :=
    parseFraction_text hNoDigits (fun c hc => (hRest c hc).1) fun c hc => (hRest c hc).2.1
  have hNoExponent : ∀ e ∈ (none : Option (ExponentSign × List Char)),
      e.2 ≠ [] ∧ ∀ c ∈ e.2, c.isDigit = true := by simp
  have hExponent : parseExponent rest = (none, rest) := parseExponent_text hNoExponent hRest
  unfold parseNumber intText
  rw [append_assoc, parseNegative_digits]
  simp only [parseWhole_text n.natAbs fun c hc => (hRest c hc).1, hFraction, hExponent,
    and_self, if_true]
  congr 3
  by_cases hNeg : n < 0
  · simp only [hNeg, decide_true, if_true]
    omega
  · simp only [hNeg, decide_false, Bool.false_eq_true, if_false]
    omega

theorem parseNumber_decimal {d : DecimalLiteral} (hWell : (FloatLiteral.decimal d).WellFormed)
    {rest : List Char} (hRest : Stops rest) :
    parseNumber (literalText (.decimal d) ++ rest) =
      some ((.float (FloatText.ofLiteral (.decimal d)) : Json F), rest) := by
  obtain ⟨hFraction, hExponent, hFloat⟩ := hWell
  have hAfterFraction : ∀ c ∈ (exponentText d.exponent ++ rest).head?,
      c.isDigit = false ∧ c ≠ '.' := by
    cases hExp : d.exponent with
    | none => exact fun c hc => ⟨(hRest c hc).1, (hRest c hc).2.1⟩
    | some e =>
      intro c hc
      cases hc
      decide
  have hAfterWhole : ∀ c ∈ (fractionText d.fraction ++ (exponentText d.exponent ++ rest)).head?,
      c.isDigit = false := by
    intro c hc
    by_cases hEmpty : d.fraction = []
    · rw [fractionText, if_pos hEmpty] at hc
      exact (hAfterFraction c hc).1
    · rw [fractionText, if_neg hEmpty] at hc
      cases hc
      decide
  have hNotInt : ¬ (d.fraction = [] ∧ d.exponent = none) := by
    rintro ⟨hEmpty, hNone⟩
    rw [hEmpty, hNone] at hFloat
    simp at hFloat
  unfold parseNumber literalText
  simp only [append_assoc]
  rw [parseNegative_digits]
  simp only [parseWhole_text d.whole hAfterWhole,
    parseFraction_text hFraction (fun c hc => (hAfterFraction c hc).1)
      fun c hc => (hAfterFraction c hc).2,
    parseExponent_text hExponent hRest, if_neg hNotInt]

theorem parseConstant_number (negative : Bool) (n : Nat) (rest : List Char) :
    parseConstant (F := F) (signText negative ++ (Nat.toDigits 10 n ++ rest)) = none := by
  obtain ⟨c, cs, hEq, hDigit⟩ := toDigits_eq_cons n
  have hNe : ∀ d : Char, d.isDigit = false → d ≠ c := fun d hd =>
    (ne_of_isDigit hDigit hd).symm
  rw [hEq, cons_append]
  cases negative with
  | true =>
    simp [parseConstant, constants, signText, expect, literalText, hNe 'I' (by decide)]
  | false =>
    simp [parseConstant, constants, signText, expect, literalText, hNe 'n' (by decide),
      hNe 't' (by decide), hNe 'f' (by decide), hNe 'N' (by decide), hNe 'I' (by decide),
      hNe '-' (by decide)]

/-- A text that reads as `value` wherever a value may stand. -/
structure Reads (text : List Char) (value : Json F) : Prop where
  starts : ∃ c cs, text = c :: cs ∧ isSpace c = false ∧ c ≠ ']' ∧ c ≠ '\x7d'
  reads : ∀ fuel rest, text.length ≤ fuel → Stops rest →
    parseValue fuel (text ++ rest) = some (value, rest)

theorem Reads.skipSpace {text : List Char} {value : Json F} (h : Reads text value)
    (rest : List Char) : Json.skipSpace (text ++ rest) = text ++ rest := by
  obtain ⟨c, cs, rfl, hSpace, -⟩ := h.starts
  exact skipSpace_cons hSpace

theorem parseValue_of_plain {c : Char} {cs : List Char} {fuel : Nat} (hQuote : c ≠ '"')
    (hBrace : c ≠ '\x7b') (hBracket : c ≠ '[') :
    parseValue (F := F) (fuel + 1) (c :: cs) =
      match parseConstant (c :: cs) with
      | some r => some r
      | none => parseNumber (c :: cs) := by
  rw [parseValue, if_neg hQuote, if_neg hBrace]
  refine (if_neg hBracket).trans ?_
  cases parseConstant (F := F) (c :: cs) <;> rfl

theorem reads_constant {word : List Char} {value : Json F} {c : Char} {cs : List Char}
    (hWord : word = c :: cs)
    (hPlain : c ≠ '"' ∧ c ≠ '\x7b' ∧ c ≠ '[' ∧ isSpace c = false ∧ c ≠ ']' ∧ c ≠ '\x7d')
    (hConstant : ∀ rest, parseConstant (word ++ rest) = some (value, rest)) :
    Reads word value := by
  obtain ⟨hQuote, hBrace, hBracket, hSpace, hEnd, hClose⟩ := hPlain
  refine ⟨⟨c, cs, hWord, hSpace, hEnd, hClose⟩, ?_⟩
  intro fuel rest hFuel hRest
  obtain ⟨fuel, rfl⟩ : ∃ n, fuel = n + 1 := ⟨fuel - 1, by
    rw [hWord, length_cons] at hFuel
    omega⟩
  have hRead := hConstant rest
  subst hWord
  rw [cons_append] at hRead ⊢
  rw [parseValue_of_plain hQuote hBrace hBracket, hRead]

theorem plain_of_isDigit {c : Char} (h : c.isDigit = true) :
    c ≠ '"' ∧ c ≠ '\x7b' ∧ c ≠ '[' ∧ isSpace c = false ∧ c ≠ ']' ∧ c ≠ '\x7d' := by
  refine ⟨ne_of_isDigit h (by decide), ne_of_isDigit h (by decide), ne_of_isDigit h (by decide),
    ?_, ne_of_isDigit h (by decide), ne_of_isDigit h (by decide)⟩
  simp [isSpace, ne_of_isDigit h (by decide : ' '.isDigit = false),
    ne_of_isDigit h (by decide : '\t'.isDigit = false),
    ne_of_isDigit h (by decide : '\n'.isDigit = false),
    ne_of_isDigit h (by decide : '\r'.isDigit = false)]

theorem reads_number {negative : Bool} {n : Nat} {more : List Char} {value : Json F}
    (hNumber : ∀ rest, Stops rest →
      parseNumber (signText negative ++ (Nat.toDigits 10 n ++ (more ++ rest))) =
        some (value, rest)) :
    Reads (signText negative ++ (Nat.toDigits 10 n ++ more)) value := by
  obtain ⟨c, cs, hEq, hPlain⟩ : ∃ c cs,
      signText negative ++ (Nat.toDigits 10 n ++ more) = c :: cs ∧
        (c ≠ '"' ∧ c ≠ '\x7b' ∧ c ≠ '[' ∧ isSpace c = false ∧ c ≠ ']' ∧ c ≠ '\x7d') := by
    obtain ⟨d, ds, hDigits, hDigit⟩ := toDigits_eq_cons n
    cases negative with
    | true => exact ⟨'-', Nat.toDigits 10 n ++ more, rfl, by decide⟩
    | false => exact ⟨d, ds ++ more, by simp [signText, hDigits], plain_of_isDigit hDigit⟩
  obtain ⟨hQuote, hBrace, hBracket, hSpace, hEnd, hClose⟩ := hPlain
  refine ⟨⟨c, cs, hEq, hSpace, hEnd, hClose⟩, ?_⟩
  intro fuel rest hFuel hRest
  obtain ⟨fuel, rfl⟩ : ∃ n, fuel = n + 1 := ⟨fuel - 1, by
    rw [hEq, length_cons] at hFuel
    omega⟩
  have hRead := hNumber rest hRest
  have hConstant := parseConstant_number (F := F) negative n (more ++ rest)
  have hShape : signText negative ++ (Nat.toDigits 10 n ++ (more ++ rest)) = c :: (cs ++ rest) := by
    rw [← cons_append, ← hEq]
    simp
  rw [hShape] at hRead hConstant
  rw [hEq, cons_append, parseValue_of_plain hQuote hBrace hBracket, hConstant]
  exact hRead

theorem reads_int (n : Int) : Reads (intText n) (.int n : Json F) := by
  have hText : intText n = signText (decide (n < 0)) ++ (Nat.toDigits 10 n.natAbs ++ []) := by
    simp [intText]
  rw [hText]
  refine reads_number fun rest hRest => ?_
  have hRead := parseNumber_int (F := F) n hRest
  rw [intText, append_assoc] at hRead
  simpa using hRead

theorem reads_float (x : F) : Reads (literalText (FloatText.repr x)) (.float x) := by
  have hBack := FloatText.ofLiteral_repr x
  have hWell := FloatText.wellFormed_repr x
  cases hRepr : FloatText.repr x with
  | nan | infinity | negInfinity =>
    rw [hRepr] at hBack
    refine reads_constant rfl (by decide) fun rest => ?_
    simp [parseConstant, constants, expect, literalText, hBack]
  | decimal d =>
    rw [hRepr] at hBack hWell
    have hText : literalText (.decimal d) = signText d.negative ++ (Nat.toDigits 10 d.whole ++
        (fractionText d.fraction ++ exponentText d.exponent)) := by
      simp [literalText]
    rw [hText]
    refine reads_number fun rest hRest => ?_
    have hRead := parseNumber_decimal (F := F) hWell hRest
    rw [hText, hBack] at hRead
    simpa using hRead

theorem reads_str (s : String) : Reads (stringText s) (.str s : Json F) := by
  refine ⟨⟨'"', _, rfl, by decide⟩, ?_⟩
  intro fuel rest hFuel hRest
  obtain ⟨fuel, rfl⟩ : ∃ n, fuel = n + 1 := ⟨fuel - 1, by
    rw [stringText, cons_append, length_cons] at hFuel
    omega⟩
  rw [stringText, cons_append, cons_append, append_assoc, parseValue, if_pos rfl,
    singleton_append, parseString_text]
  rfl

theorem stops_comma (rest : List Char) : Stops (',' :: rest) := by
  intro c hc
  cases hc
  decide

theorem stops_bracket (rest : List Char) : Stops (']' :: rest) := by
  intro c hc
  cases hc
  decide

theorem stops_brace (rest : List Char) : Stops ('\x7d' :: rest) := by
  intro c hc
  cases hc
  decide

theorem joinComma_cons_cons (first second : List Char) (rest : List (List Char)) :
    joinComma (first :: second :: rest) = first ++ ',' :: joinComma (second :: rest) := rfl

theorem parseItems_texts (items : List (List Char × Json F)) (hNe : items ≠ [])
    (hItems : ∀ item ∈ items, Reads item.1 item.2) (fuel : Nat) (rest : List Char)
    (hFuel : (joinComma (items.map Prod.fst)).length < fuel) :
    parseItems fuel (joinComma (items.map Prod.fst) ++ ']' :: rest) =
      some (items.map Prod.snd, rest) := by
  induction items generalizing fuel with
  | nil => exact absurd rfl hNe
  | cons item items ih =>
    obtain ⟨fuel, rfl⟩ : ∃ n, fuel = n + 1 := ⟨fuel - 1, by omega⟩
    have hItem := hItems item (by simp)
    cases items with
    | nil =>
      simp only [map_cons, map_nil, joinComma] at hFuel ⊢
      rw [parseItems, hItem.reads fuel _ (by omega) (stops_bracket rest)]
      simp [skipSpace_cons (by decide : isSpace ']' = false)]
    | cons second items =>
      have hSecond := hItems second (by simp)
      simp only [map_cons, joinComma_cons_cons, length_append, length_cons] at hFuel ⊢
      have hRest := ih (by simp) (fun i hi => hItems i (by simp [hi])) fuel (by
        simp only [map_cons]
        omega)
      rw [append_assoc, cons_append, parseItems, hItem.reads fuel _ (by omega) (stops_comma _)]
      simp only [skipSpace_cons (by decide : isSpace ',' = false)]
      have hSkip : skipSpace (joinComma (second.1 :: items.map Prod.fst) ++ ']' :: rest) =
          joinComma (second.1 :: items.map Prod.fst) ++ ']' :: rest := by
        obtain ⟨c, cs, hText, hSpace, -⟩ := hSecond.starts
        cases items with
        | nil => simp [joinComma, hText, skipSpace_cons hSpace]
        | cons third items => simp [joinComma_cons_cons, hText, skipSpace_cons hSpace]
      simp only [map_cons] at hRest
      rw [hSkip, hRest]
      rfl

theorem parseMembers_one {key : String} {text : List Char} {value : Json F}
    (h : Reads text value) (fuel : Nat) (hFuel : text.length ≤ fuel) {c : Char} (rest : List Char)
    (hc : c = ',' ∨ c = '\x7d') :
    parseMembers (F := F) (fuel + 1) (memberText (key, text) ++ c :: rest) =
      match c :: rest with
      | ',' :: rest =>
        (parseMembers fuel (skipSpace rest)).map fun r => ((key, value) :: r.1, r.2)
      | '\x7d' :: rest => some ([(key, value)], rest)
      | _ => none := by
  have hStops : Stops (c :: rest) := by
    rcases hc with rfl | rfl
    · exact stops_comma rest
    · exact stops_brace rest
  have hSpace : isSpace c = false := by
    rcases hc with rfl | rfl <;> decide
  have hColon : skipSpace (':' :: (text ++ c :: rest)) = ':' :: (text ++ c :: rest) :=
    skipSpace_cons (by decide)
  have hShape : memberText (key, text) ++ c :: rest =
      '"' :: (key.toList.flatMap escapeChar ++ '"' :: ':' :: (text ++ c :: rest)) := by
    simp [memberText, stringText]
  rw [hShape, parseMembers]
  rcases hc with rfl | rfl <;> simp [expect, parseString_text, hColon, h.skipSpace,
    h.reads fuel _ hFuel hStops, skipSpace_cons hSpace]

theorem parseMembers_texts (members : List (String × List Char × Json F)) (hNe : members ≠ [])
    (hMembers : ∀ member ∈ members, Reads member.2.1 member.2.2) (fuel : Nat) (rest : List Char)
    (hFuel : (joinComma (members.map fun m => memberText (m.1, m.2.1))).length < fuel) :
    parseMembers fuel (joinComma (members.map fun m => memberText (m.1, m.2.1)) ++ '\x7d' :: rest) =
      some (members.map fun m => (m.1, m.2.2), rest) := by
  induction members generalizing fuel with
  | nil => exact absurd rfl hNe
  | cons member members ih =>
    obtain ⟨fuel, rfl⟩ : ∃ n, fuel = n + 1 := ⟨fuel - 1, by omega⟩
    have hMember := hMembers member (by simp)
    have hLength : member.2.1.length ≤ (memberText (member.1, member.2.1)).length := by
      simp only [memberText, length_append, length_cons]
      omega
    cases members with
    | nil =>
      simp only [map_cons, map_nil, joinComma] at hFuel ⊢
      rw [parseMembers_one hMember fuel (by omega) rest (Or.inr rfl)]
      rfl
    | cons second members =>
      simp only [map_cons, joinComma_cons_cons, length_append, length_cons] at hFuel ⊢
      have hRest := ih (by simp) (fun m hm => hMembers m (by simp [hm])) fuel (by
        simp only [map_cons]
        omega)
      rw [append_assoc, cons_append, parseMembers_one hMember fuel (by omega) _ (Or.inl rfl)]
      have hSkip : skipSpace (joinComma (memberText (second.1, second.2.1) ::
          members.map fun m => memberText (m.1, m.2.1)) ++ '\x7d' :: rest) =
            joinComma (memberText (second.1, second.2.1) ::
              members.map fun m => memberText (m.1, m.2.1)) ++ '\x7d' :: rest := by
        have hQuote : isSpace '"' = false := by decide
        cases members with
        | nil => simp [joinComma, memberText, stringText, skipSpace_cons hQuote]
        | cons third members =>
          simp [joinComma_cons_cons, memberText, stringText, skipSpace_cons hQuote]
      simp only [map_cons] at hRest
      simp only [hSkip, hRest]
      rfl

theorem itemTexts_eq_map (items : List (Json F)) : itemTexts items = items.map text := by
  induction items with
  | nil => rfl
  | cons item items ih => rw [itemTexts, ih, map_cons]

theorem memberTexts_eq_map (members : List (String × Json F)) :
    memberTexts members = members.map fun m => (m.1, text m.2) := by
  induction members with
  | nil => rfl
  | cons member members ih => rw [memberTexts, ih, map_cons]

theorem reads_arr {items : List (Json F)}
    (hItems : ∀ item ∈ items, Reads (text item) (canon item)) :
    Reads (text (.arr items)) (canon (.arr items)) := by
  refine ⟨⟨'[', joinComma (itemTexts items) ++ [']'], by simp [text], by decide⟩, ?_⟩
  intro fuel rest hFuel hRest
  have hShape : text (.arr items) ++ rest =
      '[' :: (joinComma (itemTexts items) ++ ']' :: rest) := by
    simp [text]
  rw [text, cons_append, length_cons, length_append, length_singleton] at hFuel
  obtain ⟨fuel, rfl⟩ : ∃ n, fuel = n + 1 := ⟨fuel - 1, by omega⟩
  rw [hShape, parseValue, if_neg (by decide), if_neg (by decide), if_pos rfl, canon]
  cases items with
  | nil => rfl
  | cons item items =>
    have hPairs := parseItems_texts ((item :: items).map fun i => (text i, canon i))
      (by simp) (by
        intro pair hPair
        obtain ⟨i, hi, rfl⟩ := mem_map.mp hPair
        exact hItems i hi) fuel rest
    simp only [map_map, Function.comp_def] at hPairs
    have hTexts : itemTexts (item :: items) = (item :: items).map fun i => text i :=
      itemTexts_eq_map _
    rw [hTexts] at hFuel ⊢
    rw [canonItems_eq_map]
    have hItem := hItems item (by simp)
    obtain ⟨c, cs, hText, hSpace, hEnd, -⟩ := hItem.starts
    obtain ⟨tail, hTail⟩ : ∃ tail, joinComma ((item :: items).map fun i => text i) ++
        ']' :: rest = c :: tail := by
      cases items with
      | nil => exact ⟨cs ++ ']' :: rest, by simp [joinComma, hText]⟩
      | cons second items => exact ⟨_, by simp [joinComma_cons_cons, hText]; rfl⟩
    rw [hTail, skipSpace_cons hSpace, ← hTail]
    split
    · rename_i heq
      rw [hTail] at heq
      cases heq
      exact absurd rfl hEnd
    · rw [hPairs (by omega)]
      rfl

theorem reads_obj {members : List (String × Json F)}
    (hMembers : ∀ member ∈ members, Reads (text member.2) (canon member.2)) :
    Reads (text (.obj members)) (canon (.obj members)) := by
  refine ⟨⟨'\x7b', _, by rw [text, cons_append], by decide⟩, ?_⟩
  intro fuel rest hFuel hRest
  have hShape : text (.obj members) ++ rest =
      '\x7b' :: (joinComma ((sortMembers (memberTexts members)).map memberText) ++
        '\x7d' :: rest) := by
    simp [text]
  rw [text, cons_append, length_cons, length_append, length_singleton] at hFuel
  obtain ⟨fuel, rfl⟩ : ∃ n, fuel = n + 1 := ⟨fuel - 1, by omega⟩
  rw [hShape, parseValue, if_neg (by decide), if_pos rfl, canon]
  rcases eq_nil_or_concat members with rfl | ⟨front, last, hConcat⟩
  · rfl
  -- both sides are images of the sorted members, read one by one
  have hNe : sortMembers members ≠ [] := by
    rw [hConcat, ← length_pos_iff, sortMembers, length_insertionSort]
    simp
  have hTexts : (sortMembers (memberTexts members)).map memberText =
      (sortMembers members).map fun m => memberText (m.1, text m.2) := by
    rw [memberTexts_eq_map, sortMembers_map, map_map]
    rfl
  have hValues : sortMembers (canonMembers members) =
      (sortMembers members).map fun m => (m.1, canon m.2) := by
    rw [canonMembers_eq_map, sortMembers_map]
  have hTriples := parseMembers_texts
    ((sortMembers members).map fun m => (m.1, text m.2, canon m.2))
    (by simpa using hNe) (by
      intro triple hTriple
      obtain ⟨m, hm, rfl⟩ := mem_map.mp hTriple
      exact hMembers m ((mem_insertionSort _).mp hm)) fuel rest
  simp only [map_map, Function.comp_def] at hTriples
  rw [hTexts] at hFuel ⊢
  rw [hValues]
  obtain ⟨first, others, hSorted⟩ := exists_cons_of_ne_nil hNe
  obtain ⟨tail, hTail⟩ : ∃ tail, joinComma ((sortMembers members).map fun m =>
      memberText (m.1, text m.2)) ++ '\x7d' :: rest = '"' :: tail := by
    rw [hSorted]
    cases others with
    | nil => exact ⟨_, by simp [joinComma, memberText, stringText]; rfl⟩
    | cons second others =>
      exact ⟨_, by simp [joinComma_cons_cons, memberText, stringText]; rfl⟩
  rw [hTail, skipSpace_cons (by decide), ← hTail]
  split
  · rename_i heq
    rw [hTail] at heq
    cases heq
  · rw [hTriples (by omega)]
    rfl

mutual

theorem reads_text : ∀ value : Json F, Reads (text value) (canon value)
  | .null | .bool true | .bool false => reads_constant rfl (by decide) fun rest => by
      simp [text, parseConstant, constants, expect, canon]
  | .int n => by
      rw [text, canon]
      exact reads_int n
      all_goals simp
  | .float x => by
      rw [text, canon]
      exact reads_float x
      all_goals simp
  | .str s => by
      rw [text, canon]
      exact reads_str s
      all_goals simp
  | .arr items => reads_arr (reads_items items)
  | .obj members => reads_obj (reads_members members)

theorem reads_items : ∀ items : List (Json F), ∀ item ∈ items, Reads (text item) (canon item)
  | [], _, h => absurd h (by simp)
  | first :: items, item, h => by
      rcases mem_cons.mp h with hEq | hMem
      · rw [hEq]
        exact reads_text first
      · exact reads_items items item hMem

theorem reads_members : ∀ members : List (String × Json F), ∀ member ∈ members,
    Reads (text member.2) (canon member.2)
  | [], _, h => absurd h (by simp)
  | (key, value) :: members, member, h => by
      rcases mem_cons.mp h with hEq | hMem
      · rw [hEq]
        exact reads_text value
      · exact reads_members members member hMem

end

theorem read_text (value : Json F) : read (text value) = some (canon value) := by
  have hReads := reads_text value
  obtain ⟨c, cs, hText, hSpace, -⟩ := hReads.starts
  have hSkip : skipSpace (text value) = text value := by
    rw [hText, skipSpace_cons hSpace]
  have hParse := hReads.reads ((text value).length + 1) [] (by omega) (by simp [Stops])
  rw [append_nil] at hParse
  rw [read, hSkip, hParse]
  rfl

end Values

end Json

end LMCache.Lib
