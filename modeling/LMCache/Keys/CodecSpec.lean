import LMCache.Keys.ObjectKey

/-!
# Which keys are read back

The raw-block encoding of a key is written and read back when its texts have bytes. A file name
is read back exactly when the model name has no `-SEP-` and no `-SEP/`: these are the texts in
which the reader finds the replacement of a slash where the name has none.
-/

namespace LMCache.Keys

open Lib Text Option

def dash : PyChar := .plain '-'

theorem replace_slash_cons (c : PyChar) (rest : PyStr) :
    replace [slash] pathSlashReplacement (c :: rest) =
      (if c = slash then pathSlashReplacement else [c]) ++
        replace [slash] pathSlashReplacement rest := by
  rw [replace, replaceFrom]
  by_cases hc : c = slash
  · subst hc
    rfl
  · have hNot : List.isPrefixOf [slash] (c :: rest) = false := by
      rw [List.isPrefixOf, beq_eq_false_iff_ne.mpr (Ne.symm hc), Bool.false_and]
    rw [hNot, if_neg hc]
    rfl

/-- The texts in front of which the reader finds the replacement of a slash. -/
def ReadAsSlash (text : PyStr) : Prop :=
  ofChars "-SEP-".toList <+: text ∨ ofChars "-SEP/".toList <+: text

theorem prefix_replace_cons {c : PyChar} (hDash : c ≠ dash) (hSlash : c ≠ slash)
    (front text : PyStr) :
    c :: front <+: replace [slash] pathSlashReplacement text ↔
      ∃ rest, text = c :: rest ∧ front <+: replace [slash] pathSlashReplacement rest := by
  cases text with
  | nil =>
    constructor
    · intro h
      exact absurd (List.prefix_nil.mp h) (List.cons_ne_nil _ _)
    · rintro ⟨rest, hEq, -⟩
      cases hEq
  | cons d rest =>
    rw [replace_slash_cons]
    split
    · rename_i hd
      constructor
      · intro h
        exact absurd (List.cons_prefix_cons.mp h).1 hDash
      · rintro ⟨_, hEq, -⟩
        exact absurd ((List.cons.inj hEq).1.symm.trans hd) hSlash
    · rw [List.singleton_append, List.cons_prefix_cons]
      constructor
      · rintro ⟨rfl, h⟩
        exact ⟨rest, rfl, h⟩
      · rintro ⟨_, hEq, h⟩
        cases hEq
        exact ⟨rfl, h⟩

theorem prefix_replace_dash (text : PyStr) :
    [dash] <+: replace [slash] pathSlashReplacement text ↔ [dash] <+: text ∨ [slash] <+: text := by
  cases text with
  | nil => simp [replace, replaceFrom]
  | cons d rest =>
    rw [replace_slash_cons]
    split
    · rename_i hd
      subst hd
      exact iff_of_true ⟨_, rfl⟩ (.inr ⟨rest, rfl⟩)
    · rename_i hd
      simp [List.cons_prefix_cons, Ne.symm hd]

theorem prefix_replace_word (word : PyStr) (h : ∀ c ∈ word, c ≠ dash ∧ c ≠ slash)
    (text : PyStr) : word ++ [dash] <+: replace [slash] pathSlashReplacement text ↔
      word ++ [dash] <+: text ∨ word ++ [slash] <+: text := by
  induction word generalizing text with
  | nil => exact prefix_replace_dash text
  | cons c word ih =>
    obtain ⟨hDash, hSlash⟩ := h c List.mem_cons_self
    have hRest := ih fun d hMem => h d (List.mem_cons_of_mem _ hMem)
    rw [List.cons_append, List.cons_append, prefix_replace_cons hDash hSlash]
    constructor
    · rintro ⟨rest, rfl, hPrefix⟩
      rw [List.cons_prefix_cons, List.cons_prefix_cons]
      exact ((hRest rest).mp hPrefix).imp (fun hp => ⟨rfl, hp⟩) fun hp => ⟨rfl, hp⟩
    · rintro (hPrefix | hPrefix)
      · obtain ⟨more, rfl⟩ := hPrefix
        exact ⟨_, rfl, (hRest _).mpr (.inl (List.prefix_append _ _))⟩
      · obtain ⟨more, rfl⟩ := hPrefix
        exact ⟨_, rfl, (hRest _).mpr (.inr (List.prefix_append _ _))⟩

theorem prefix_cons_replace (c : PyChar) (rest : PyStr) :
    pathSlashReplacement <+: c :: replace [slash] pathSlashReplacement rest ↔
      ReadAsSlash (c :: rest) := by
  have hLetters := prefix_replace_word (ofChars ['S', 'E', 'P']) (by decide) rest
  have hText : pathSlashReplacement = dash :: (ofChars ['S', 'E', 'P'] ++ [dash]) := rfl
  have hDash : ofChars "-SEP-".toList = dash :: (ofChars ['S', 'E', 'P'] ++ [dash]) := rfl
  have hSlash : ofChars "-SEP/".toList = dash :: (ofChars ['S', 'E', 'P'] ++ [slash]) := rfl
  rw [ReadAsSlash, hDash, hSlash, List.cons_prefix_cons, List.cons_prefix_cons, ← and_or_left,
    ← hLetters, ← List.cons_prefix_cons, ← hText]

/-- The model names whose replaced form is read back. -/
def ReadsBack (name : PyStr) : Prop :=
  ¬ ofChars "-SEP-".toList <:+: name ∧ ¬ ofChars "-SEP/".toList <:+: name

theorem readsBack_cons (c : PyChar) (rest : PyStr) :
    ReadsBack (c :: rest) ↔ ¬ ReadAsSlash (c :: rest) ∧ ReadsBack rest := by
  rw [ReadsBack, ReadsBack, ReadAsSlash, List.infix_cons_iff, List.infix_cons_iff]
  tauto

theorem replace_back_slash (rest : PyStr) :
    replace pathSlashReplacement [slash] (pathSlashReplacement ++ rest) =
      slash :: replace pathSlashReplacement [slash] rest := rfl

theorem replace_back_cons {c : PyChar} {rest : PyStr} (h : ¬ pathSlashReplacement <+: c :: rest) :
    replace pathSlashReplacement [slash] (c :: rest) =
      c :: replace pathSlashReplacement [slash] rest := by
  rw [replace, replaceFrom, if_neg fun hPrefix => h (List.isPrefixOf_iff_prefix.mp hPrefix)]
  rfl

theorem replace_replace_iff (name : PyStr) :
    replace pathSlashReplacement [slash] (replace [slash] pathSlashReplacement name) = name ↔
      ReadsBack name := by
  induction name with
  | nil =>
    refine ⟨fun _ => ⟨?_, ?_⟩, fun _ => rfl⟩
    · decide
    · decide
  | cons c rest ih =>
    rw [replace_slash_cons, readsBack_cons]
    by_cases hc : c = slash
    · subst hc
      have hNot : ¬ ReadAsSlash (slash :: rest) := by
        rintro (h | h)
        · exact absurd (List.cons_prefix_cons.mp h).1 (by decide)
        · exact absurd (List.cons_prefix_cons.mp h).1 (by decide)
      rw [if_pos rfl, replace_back_slash, List.cons_inj_right, ih]
      exact ⟨fun h => ⟨hNot, h⟩, fun h => h.2⟩
    · rw [if_neg hc, List.singleton_append]
      by_cases hSlash : ReadAsSlash (c :: rest)
      · obtain ⟨more, hMore⟩ := (prefix_cons_replace c rest).mpr hSlash
        rw [← hMore, replace_back_slash]
        exact ⟨fun h => absurd (List.cons.inj h).1.symm hc, fun h => absurd hSlash h.1⟩
      · rw [replace_back_cons (mt (prefix_cons_replace c rest).mp hSlash), List.cons_inj_right, ih]
        exact ⟨fun h => ⟨hSlash, h⟩, fun h => h.2⟩


section Fields

variable [PyText]

theorem make_self (key : ObjectKey) : ObjectKey.make key.chunkHash key.modelName key.kvRank
    key.objectGroupId key.cacheSalt = .ok key := by
  have hSalt : ¬ (key.cacheSalt.any (· ∈ saltForbiddenChars)) = true := by
    rw [List.any_eq_true]
    rintro ⟨c, hMem, hBad⟩
    exact key.cacheSalt_plain c hMem (of_decide_eq_true hBad)
  rw [ObjectKey.make, dif_neg key.modelName_plain, if_neg (not_lt.mpr (Int.natCast_nonneg _)),
    dif_neg hSalt, dif_neg (not_lt.mpr key.cacheSalt_length)]
  rfl

theorem modelName_of_make {chunkHash : Bytes} {modelName cacheSalt : PyStr}
    {kvRank objectGroupId : Int} {key : ObjectKey}
    (h : ObjectKey.make chunkHash modelName kvRank objectGroupId cacheSalt = .ok key) :
    key.modelName = modelName := by
  unfold ObjectKey.make at h
  split at h
  · cases h
  · split at h
    · cases h
    · split at h
      · cases h
      · split at h
        · cases h
        · cases h
          rfl

theorem keyOfFields_eq (readModel : PyStr → PyStr) (safeModel : PyStr) (key : ObjectKey) :
    keyOfFields readModel safeModel (ofChars (paddedHexText 10 key.kvRank))
        (ofChars (hexText key.objectGroupId)) (ofChars (bytesHex key.chunkHash)) key.cacheSalt =
      ObjectKey.make key.chunkHash (readModel safeModel) key.kvRank key.objectGroupId
        key.cacheSalt := by
  rw [keyOfFields, chars?_ofChars, bind_some, fromHex_bytesHex]
  dsimp only
  rw [chars?_ofChars, bind_some, intOfHex_paddedHexText]
  dsimp only
  rw [chars?_ofChars, bind_some, intOfHex_hexText]

theorem keyOfFields_eq_ok_iff (readModel : PyStr → PyStr) (safeModel : PyStr) (key : ObjectKey) :
    keyOfFields readModel safeModel (ofChars (paddedHexText 10 key.kvRank))
        (ofChars (hexText key.objectGroupId)) (ofChars (bytesHex key.chunkHash)) key.cacheSalt =
      .ok key ↔ readModel safeModel = key.modelName := by
  rw [keyOfFields_eq]
  constructor
  · intro h
    exact (modelName_of_make h).symm
  · intro h
    rw [h]
    exact make_self key

omit [PyText] in
theorem separator_not_mem_ofChars {text : List Char} (h : '@' ∉ text) :
    separator ∉ ofChars text := by
  intro hMem
  obtain ⟨c, hc, hEq⟩ := List.mem_map.mp hMem
  exact h (PyChar.plain.inj hEq ▸ hc)

omit [PyText] in
theorem separator_not_mem_quote {text quoted : PyStr} (h : quote text = .ok quoted) :
    separator ∉ quoted := by
  obtain ⟨chars, rfl⟩ := encodable_iff.mp (encodable_of_quote h)
  rw [quote_ofChars] at h
  cases h
  exact separator_not_mem_ofChars fun hMem => (mem_quoteFromBytes hMem).2 rfl

omit [PyText] in
theorem separator_not_mem_keyFields {safeModel : PyStr} (h : separator ∉ safeModel)
    (key : ObjectKey) : ∀ field ∈ keyFields safeModel key, separator ∉ field := by
  have hSalt : separator ∉ key.cacheSalt := fun hMem =>
    key.cacheSalt_plain separator hMem List.mem_cons_self
  have hRank : '@' ∉ paddedHexText 10 key.kvRank := by
    intro hMem
    rcases mem_paddedHexText hMem with hEq | hEq | hDigit
    · exact absurd hEq (by decide)
    · exact absurd hEq (by decide)
    · exact absurd rfl hDigit.ne.2.2.2.2.2
  have hGroup : '@' ∉ hexText key.objectGroupId := fun hMem =>
    (isHexDigit_of_mem hMem).ne.2.2.2.2.2 rfl
  have hHash : '@' ∉ bytesHex key.chunkHash := fun hMem =>
    (isHexDigit_of_mem_bytesHex hMem).ne.2.2.2.2.2 rfl
  intro field hMem
  rw [keyFields] at hMem
  rcases List.mem_append.mp hMem with hFront | hLast
  · simp only [List.mem_cons, List.not_mem_nil, or_false] at hFront
    rcases hFront with rfl | rfl | rfl | rfl
    · exact h
    · exact separator_not_mem_ofChars hRank
    · exact separator_not_mem_ofChars hGroup
    · exact separator_not_mem_ofChars hHash
  · split at hLast
    · cases hLast
    · obtain rfl := List.mem_singleton.mp hLast
      exact hSalt

omit [PyText] in
theorem splitOn_keyFields {safeModel : PyStr} (h : separator ∉ safeModel) (key : ObjectKey) :
    splitOn separator (joinWith separator (keyFields safeModel key)) = keyFields safeModel key :=
  splitOn_joinWith (List.cons_ne_nil _ _) (separator_not_mem_keyFields h key)

theorem decodeObjectKey_of_encoded {key : ObjectKey} {encoded : PyStr}
    (h : objectKeyToString key = .ok encoded) : decodeObjectKey encoded = .ok key := by
  cases hQuote : quote key.modelName with
  | error e =>
    rw [objectKeyToString, hQuote] at h
    cases h
  | ok quoted =>
    rw [objectKeyToString, hQuote] at h
    cases h
    have hRead := (keyOfFields_eq_ok_iff unquote quoted key).mpr (unquote_quote hQuote)
    rw [decodeObjectKey, splitOn_keyFields (separator_not_mem_quote hQuote), keyFields]
    split_ifs with hSalt
    · rw [hSalt] at hRead
      exact hRead
    · exact hRead

omit [PyText] in
theorem encodable_keyFields (safeModel : PyStr) (key : ObjectKey) :
    (∀ field ∈ keyFields safeModel key, Encodable field) ↔
      Encodable safeModel ∧ Encodable key.cacheSalt := by
  rw [keyFields]
  split_ifs with hSalt
  · rw [hSalt]
    simp [encodable_ofChars, encodable_nil]
  · simp [encodable_ofChars]

omit [PyText] in
theorem exists_objectKeyToString_iff (key : ObjectKey) :
    (∃ encoded, objectKeyToString key = .ok encoded) ↔ Encodable key.modelName := by
  constructor
  · rintro ⟨encoded, h⟩
    cases hQuote : quote key.modelName with
    | error e =>
      rw [objectKeyToString, hQuote] at h
      cases h
    | ok quoted => exact encodable_of_quote hQuote
  · intro h
    obtain ⟨chars, hChars⟩ := encodable_iff.mp h
    rw [objectKeyToString, hChars, quote_ofChars]
    exact ⟨_, rfl⟩

omit [PyText] in
theorem encodable_of_objectKeyToString {key : ObjectKey} {encoded : PyStr}
    (h : objectKeyToString key = .ok encoded) : Encodable encoded ↔ Encodable key.cacheSalt := by
  obtain ⟨chars, hChars⟩ := encodable_iff.mp ((exists_objectKeyToString_iff key).mp ⟨_, h⟩)
  rw [objectKeyToString, hChars, quote_ofChars] at h
  cases h
  rw [encodable_joinWith rfl, encodable_keyFields, and_iff_right (encodable_ofChars _)]

theorem decodeObjectKey_objectKeyToString_iff (key : ObjectKey) :
    (∃ encoded, objectKeyToString key = .ok encoded ∧ decodeObjectKey encoded = .ok key) ↔
      Encodable key.modelName := by
  rw [← exists_objectKeyToString_iff]
  exact exists_congr fun _ => and_iff_left_of_imp decodeObjectKey_of_encoded

omit [PyText] in
theorem exists_objectSlotIdentity_iff (blake2b : Bytes → Bytes) (encoded : PyStr) :
    (∃ identity, objectSlotIdentity blake2b encoded = .ok identity) ↔ Encodable encoded := by
  rw [← exists_encode_iff, objectSlotIdentity]
  cases encode encoded with
  | error e => exact iff_of_false (fun ⟨_, h⟩ => (nomatch h)) fun ⟨_, h⟩ => (nomatch h)
  | ok bytes => exact iff_of_true ⟨_, rfl⟩ ⟨_, rfl⟩

omit [PyText] in
theorem slotIdentity_iff (blake2b : Bytes → Bytes) (legacyChunkHash : PyStr → Result Int)
    (key : ObjectKey) :
    (∃ spec, encodeObjectKey blake2b key = .ok spec ∧
      slotIdentityFromEncodedKey blake2b legacyChunkHash spec.encoded .object =
        .ok spec.slotIdentity) ↔ Encodable key.modelName ∧ Encodable key.cacheSalt := by
  rw [← exists_objectKeyToString_iff, encodeObjectKey]
  cases hEncoded : objectKeyToString key with
  | error e => exact iff_of_false (fun ⟨_, h, _⟩ => (nomatch h)) fun ⟨⟨_, h⟩, _⟩ => (nomatch h)
  | ok encoded =>
    rw [and_iff_right ⟨encoded, rfl⟩, ← encodable_of_objectKeyToString hEncoded,
      ← exists_objectSlotIdentity_iff blake2b]
    dsimp only [bind, Except.bind, slotIdentityFromEncodedKey]
    cases hIdentity : objectSlotIdentity blake2b encoded with
    | error e => exact iff_of_false (fun ⟨_, h, _⟩ => (nomatch h)) fun ⟨_, h⟩ => (nomatch h)
    | ok identity => exact iff_of_true ⟨_, rfl, hIdentity⟩ ⟨_, rfl⟩

omit [PyText] in
theorem separator_not_mem_replaced {name : PyStr} (h : separator ∉ name) :
    separator ∉ replace [slash] pathSlashReplacement name := by
  induction name with
  | nil => exact h
  | cons c rest ih =>
    rw [List.mem_cons, not_or] at h
    rw [replace_slash_cons, List.mem_append, not_or]
    refine ⟨?_, ih h.2⟩
    split
    · decide
    · rw [List.mem_singleton]
      exact h.1

theorem filenameToObjectKey_eq (key : ObjectKey) :
    filenameToObjectKey (objectKeyToFilename key) = some key ↔ ReadsBack key.modelName := by
  rw [← replace_replace_iff, ← keyOfFields_eq_ok_iff]
  have hToOption : ∀ r : Result ObjectKey, r.toOption = some key ↔ r = .ok key := by
    rintro (e | k)
    · exact ⟨fun h => (nomatch h), fun h => (nomatch h)⟩
    · exact ⟨fun h => congrArg _ (some.inj h), fun h => congrArg _ (Except.ok.inj h)⟩
  have hSuffix : ∀ text : PyStr, fileExt.isSuffixOf (text ++ fileExt) = true := fun text =>
    List.isSuffixOf_iff_suffix.mpr (List.suffix_append text fileExt)
  rw [filenameToObjectKey, objectKeyToFilename, if_pos (hSuffix _)]
  dsimp only
  rw [List.length_append, Nat.add_sub_cancel, List.take_left,
    splitOn_keyFields (separator_not_mem_replaced key.modelName_plain), keyFields]
  split_ifs with hSalt
  · rw [hSalt]
    exact hToOption _
  · exact hToOption _

end Fields

section Sample

/-- An interpreter that knows ASCII only. -/
@[reducible] def asciiText : PyText where
  decimalValue _ := none
  isSpace _ := false
  replaceInvalid bs := bs.map fun b => Char.ofNat b.toNat
  reprOf text := String.ofList ((chars? text).getD [])
  reprOfSet chars := String.ofList ((chars? chars).getD [])

def sampleKey (modelName : PyStr) (h : separator ∉ modelName) : ObjectKey where
  chunkHash := [0xab, 0x01]
  modelName := modelName
  kvRank := 0x01000100
  objectGroupId := 2
  cacheSalt := []
  modelName_plain := h
  cacheSalt_plain := by simp
  cacheSalt_length := by simp

/-- The key of a model below a directory. -/
def nestedKey : ObjectKey :=
  sampleKey (ofChars ['o', 'r', 'g', '/', 'm', '-', '7']) (by decide)

def slashedKey : ObjectKey := sampleKey (ofChars ['a', '/', 'b']) (by decide)

/-- The key of the model `a-SEP-b`. -/
def replacedKey : ObjectKey :=
  sampleKey (ofChars ['a', '-', 'S', 'E', 'P', '-', 'b']) (by decide)

def surrogateKey : ObjectKey := sampleKey [.surrogate 0] (by decide)

theorem readsBack_nested : ReadsBack nestedKey.modelName := by
  unfold ReadsBack
  decide

theorem readsBack_slashed : ReadsBack slashedKey.modelName := by
  unfold ReadsBack
  decide

end Sample

end LMCache.Keys
