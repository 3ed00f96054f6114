import LMCache.MaKV.ScoutService

/-!
# The identity of a scored prompt

A submission that the server lets through is named by digests: of its payload, and, for a
suffix, of the payload's digest with the range. As long as no two of the hashed texts
collide, two submissions with the same score context and the same range have the same token
ids. A context of the first protocol and one of the second hash texts of different lengths.
-/

namespace LMCache.MaKV

open Lib List

theorem digitChar_inj : ∀ a < 16, ∀ b < 16, Nat.digitChar a = Nat.digitChar b → a = b := by
  decide

theorem hexDigest_inj {as bs : Bytes} (h : hexDigest as = hexDigest bs) : as = bs := by
  have hChars := String.ofList_injective h
  clear h
  induction as generalizing bs with
  | nil =>
    cases bs with
    | nil => rfl
    | cons b bs => simp at hChars
  | cons a as ih =>
    cases bs with
    | nil => simp at hChars
    | cons b bs =>
      simp only [flatMap_cons, cons_append, nil_append, List.cons.injEq] at hChars
      obtain ⟨hHigh, hLow, hRest⟩ := hChars
      have hA := a.toNat_lt
      have hB := b.toNat_lt
      have hHigh' := digitChar_inj _ (by omega) _ (by omega) hHigh
      have hLow' := digitChar_inj _ (by omega) _ (by omega) hLow
      have hByte : a = b := UInt8.toNat_inj.mp (by omega)
      rw [hByte, ih hRest]

theorem length_sha256 (message : Bytes) : (sha256 message).length = 32 := by
  simp [sha256, Sha2.wordBytes]

theorem length_hexDigest (digest : Bytes) :
    (hexDigest digest).toList.length = 2 * digest.length := by
  simp [hexDigest, length_flatMap, Nat.mul_comm]

theorem isAscii_hexDigest {digest : Bytes} {c : Char} (h : c ∈ (hexDigest digest).toList) :
    c.toNat < 128 := by
  simp only [hexDigest, String.toList_ofList, mem_flatMap] at h
  obtain ⟨b, -, hc⟩ := h
  have hDigit : ∀ d < 16, (Nat.digitChar d).toNat < 128 := by decide
  have hb := b.toNat_lt
  rcases mem_pair.mp hc with rfl | rfl
  · exact hDigit _ (by omega)
  · exact hDigit _ (by omega)

theorem length_payloadSha256 (payload : Bytes) : (payloadSha256 payload).toList.length = 64 := by
  rw [payloadSha256, length_hexDigest, length_sha256]

theorem scoreContextSha256_ne_empty (sha : String) (start full : Int) :
    scoreContextSha256 sha start full ≠ "" := by
  intro h
  have hLength := congrArg (fun s => s.toList.length) h
  simp [scoreContextSha256, length_hexDigest, length_sha256] at hLength

theorem length_encodeUtf8_ascii {cs : List Char} (h : ∀ c ∈ cs, c.toNat < 128) :
    (Bytes.encodeUtf8 cs).length = cs.length := by
  induction cs with
  | nil => rfl
  | cons c cs ih =>
    have hSize : c.utf8Size = 1 := by
      rw [Char.utf8Size_eq_one_iff, UInt32.le_iff_toNat_le]
      have hChar : c.val.toNat < 128 := h c mem_cons_self
      simpa using Nat.le_of_lt_succ hChar
    rw [Bytes.length_encodeUtf8_cons, hSize, ih fun d hd => h d (mem_cons_of_mem _ hd),
      length_cons, Nat.add_comm]

theorem isAscii_toDigits {n : Nat} {c : Char} (h : c ∈ Nat.toDigits 10 n) : c.toNat < 128 := by
  have hDigit := Nat.isDigit_of_mem_toDigits (by decide) (by decide) h
  simp only [Char.isDigit, Bool.and_eq_true, decide_eq_true_eq] at hDigit
  have hHigh : c.val.toNat ≤ 57 := UInt32.le_iff_toNat_le.mp hDigit.2
  exact Nat.lt_of_le_of_lt hHigh (by decide)

theorem length_scoreContextText (payload : Bytes) (n : Nat) :
    (scoreContextText (payloadSha256 payload) 0 n).length = 67 + (Nat.toDigits 10 n).length := by
  have hStart : (toString (0 : Int)).toList = ['0'] := rfl
  have hFull : (toString (n : Int)).toList = Nat.toDigits 10 n := Nat.toList_repr
  rw [scoreContextText, hStart, hFull, length_encodeUtf8_ascii]
  · simp only [length_append, length_cons, length_nil, length_payloadSha256]
    omega
  · intro c hc
    simp only [mem_append, mem_cons, not_mem_nil, or_false] at hc
    rcases hc with (hSha | rfl | rfl) | rfl | hDigit
    · exact isAscii_hexDigest hSha
    · decide
    · decide
    · decide
    · exact isAscii_toDigits hDigit

/-- No payload of `n` tokens is as long as the context text of a whole prompt of `n`
tokens. -/
theorem four_mul_ne_context_length (n : Nat) : 4 * n ≠ 67 + (Nat.toDigits 10 n).length := by
  intro h
  have hDigits : ∀ k, 0 < k → ((Nat.toDigits 10 n).length ≤ k ↔ n < 10 ^ k) :=
    fun k hk => Nat.length_toDigits_le_iff (by decide) hk
  have hOne := hDigits 1 (by decide)
  have hTwo := hDigits 2 (by decide)
  by_cases hn : n = 0
  · omega
  · have hSelf := (hDigits n (Nat.pos_of_ne_zero hn)).mpr (Nat.lt_pow_self (by decide))
    omega

theorem scoreContextText_inj {sha sha' : String} {start full : Int}
    (h : scoreContextText sha start full = scoreContextText sha' start full) : sha = sha' := by
  have hChars := Option.some.inj
    ((Bytes.decodeUtf8_encodeUtf8 _).symm.trans
      ((congrArg Bytes.decodeUtf8 h).trans (Bytes.decodeUtf8_encodeUtf8 _)))
  simp only [append_assoc] at hChars
  exact String.toList_inj.mp (append_cancel_right hChars)

/-- No two texts of a set have the same digest. -/
def CollisionFree (texts : Bytes → Prop) : Prop :=
  ∀ a b, texts a → texts b → sha256 a = sha256 b → a = b

/-- How a prompt is named: it is the whole prompt, named by its payload, or a range named
by a context text. -/
def NamedBy (texts : Bytes → Prop) (payload : Bytes) (p : ScoutPrompt) : Prop :=
  (p.scoreContextSha256 = payloadSha256 payload ∧ p.scoreStart = 0 ∧
      p.fullTokenCount = p.tokenCount) ∨
    (texts (scoreContextText p.tokenSha256 p.scoreStart p.fullTokenCount) ∧
      p.scoreContextSha256 = scoreContextSha256 p.tokenSha256 p.scoreStart p.fullTokenCount)

/-- The token ids were decoded from a payload whose digest the prompt has. -/
structure Origin (texts : Bytes → Prop) (payload : Bytes) (p : ScoutPrompt)
    (tokenIds : List Nat) : Prop where
  text : texts payload
  digest : p.tokenSha256 = payloadSha256 payload
  decoded : tokenIds = (payload.words 4).map Bytes.ofBE
  length : payload.length = 4 * p.tokenCount
  named : NamedBy texts payload p

variable {texts : Bytes → Prop} {payload payload' : Bytes} {p p' : ScoutPrompt}
  {tokenIds tokenIds' : List Nat}

theorem payload_eq_of_digest (hFree : CollisionFree texts) (h : texts payload)
    (h' : texts payload') (hDigest : payloadSha256 payload = payloadSha256 payload') :
    payload = payload' := hFree _ _ h h' (hexDigest_inj hDigest)

theorem Origin.eq_of_digest (hFree : CollisionFree texts) (h : Origin texts payload p tokenIds)
    (h' : Origin texts payload' p' tokenIds') (hDigest : p.tokenSha256 = p'.tokenSha256) :
    tokenIds = tokenIds' := by
  have hPayload : payload = payload' := by
    apply payload_eq_of_digest hFree h.text h'.text
    rw [← h.digest, ← h'.digest, hDigest]
  rw [h.decoded, h'.decoded, hPayload]

theorem not_sameRange_of_mixed (hFree : CollisionFree texts)
    (h : Origin texts payload p tokenIds) (h' : Origin texts payload' p' tokenIds')
    (hRange : p.sameRange p' = true) (hContext : p.scoreContextSha256 = p'.scoreContextSha256)
    (hWhole : p.scoreContextSha256 = payloadSha256 payload ∧ p.scoreStart = 0 ∧
      p.fullTokenCount = p.tokenCount)
    (hSuffix : texts (scoreContextText p'.tokenSha256 p'.scoreStart p'.fullTokenCount) ∧
      p'.scoreContextSha256 =
        scoreContextSha256 p'.tokenSha256 p'.scoreStart p'.fullTokenCount) : False := by
  obtain ⟨hName, hStart, hFull⟩ := hWhole
  simp only [ScoutPrompt.sameRange, Bool.and_eq_true, beq_iff_eq] at hRange
  obtain ⟨⟨⟨hCount, hStart'⟩, -⟩, hFull'⟩ := hRange
  have hText : payload = scoreContextText p'.tokenSha256 p'.scoreStart p'.fullTokenCount := by
    apply hFree _ _ h.text hSuffix.1
    apply hexDigest_inj
    exact hName.symm.trans (hContext.trans hSuffix.2)
  rw [← hStart', ← hFull', hStart, hFull, h'.digest] at hText
  have hLength := congrArg List.length hText
  rw [h.length, length_scoreContextText] at hLength
  exact four_mul_ne_context_length _ hLength

theorem Origin.eq_of_context (hFree : CollisionFree texts) (h : Origin texts payload p tokenIds)
    (h' : Origin texts payload' p' tokenIds') (hRange : p.sameRange p' = true)
    (hContext : p.scoreContextSha256 = p'.scoreContextSha256) : tokenIds = tokenIds' := by
  rcases h.named with hWhole | hSuffix
  · rcases h'.named with hWhole' | hSuffix'
    · have hPayload : payload = payload' := by
        apply payload_eq_of_digest hFree h.text h'.text
        rw [← hWhole.1, hContext, hWhole'.1]
      rw [h.decoded, h'.decoded, hPayload]
    · exact (not_sameRange_of_mixed hFree h h' hRange hContext hWhole hSuffix').elim
  · rcases h'.named with hWhole' | hSuffix'
    · have hRange' : p'.sameRange p = true := by
        simp only [ScoutPrompt.sameRange, Bool.and_eq_true, beq_iff_eq] at hRange ⊢
        simp [hRange]
      exact (not_sameRange_of_mixed hFree h' h hRange' hContext.symm hWhole' hSuffix).elim
    · have hText := hFree _ _ hSuffix.1 hSuffix'.1
        (hexDigest_inj (hSuffix.2.symm.trans (hContext.trans hSuffix'.2)))
      simp only [ScoutPrompt.sameRange, Bool.and_eq_true, beq_iff_eq] at hRange
      obtain ⟨⟨⟨-, hStart⟩, -⟩, hFull⟩ := hRange
      rw [hStart, hFull] at hText
      exact h.eq_of_digest hFree h' (scoreContextText_inj hText)

def ScoutRequest.hashedTexts (r : ScoutRequest) : List Bytes :=
  if r.protocolVersion = scoutSuffixProtocolVersion then
    [r.payload, scoreContextText r.tokenSha256 r.scoreStart r.fullTokenCount]
  else [r.payload]

theorem payload_mem_hashedTexts (r : ScoutRequest) : r.payload ∈ r.hashedTexts := by
  unfold ScoutRequest.hashedTexts
  split
  · exact mem_cons_self
  · exact mem_cons_self

theorem decodeTokenIds_eq_ok {tokenCount : Int}
    (h : decodeTokenIds payload tokenCount = .ok tokenIds) :
    tokenIds = (payload.words 4).map Bytes.ofBE ∧ tokenCount = tokenIds.length ∧
      payload.length = 4 * tokenIds.length := by
  obtain ⟨_, hGuard, h⟩ := bind_eq_ok.mp h
  simp only [rejectIf_eq_ok, Bool.or_eq_false_iff, decide_eq_false_iff_not] at hGuard
  cases h
  have hLength := Bytes.length_words 4 payload
  rw [length_map, hLength]
  refine ⟨rfl, ?_, ?_⟩ <;> omega

theorem prompt_eq_ok {s : ScoutSubmission} (h : s.prompt = .ok p) :
    p.tokenCount = s.tokenIds.length ∧ p.tokenSha256 = s.tokenSha256 ∧
      p.scoreContextSha256 = (if s.scoreContextSha256.getD "" == "" then s.tokenSha256
        else s.scoreContextSha256.getD "") ∧
      p.scoreStart = s.scoreStart ∧
      p.fullTokenCount = s.fullTokenCount.getD s.tokenIds.length := by
  unfold ScoutSubmission.prompt at h
  dsimp only at h
  obtain ⟨_, -, h⟩ := bind_eq_ok.mp h
  obtain ⟨_, -, h⟩ := bind_eq_ok.mp h
  obtain ⟨_, -, h⟩ := bind_eq_ok.mp h
  cases h
  exact ⟨rfl, rfl, rfl, rfl, rfl⟩

theorem origin_of_request {r : ScoutRequest} {s : ScoutSubmission}
    (hTexts : ∀ text ∈ r.hashedTexts, texts text) (hSubmission : r.submission = .ok s)
    (hPrompt : s.prompt = .ok p) : Origin texts r.payload p s.tokenIds := by
  obtain ⟨hCount, hSha, hContext, hStart, hFull⟩ := prompt_eq_ok hPrompt
  have hText := hTexts _ (payload_mem_hashedTexts r)
  unfold ScoutRequest.submission at hSubmission
  obtain ⟨_, hVersion, h⟩ := bind_eq_ok.mp hSubmission
  obtain ⟨_, hDigest, h⟩ := bind_eq_ok.mp h
  obtain ⟨tokenIds, hDecode, h⟩ := bind_eq_ok.mp h
  obtain ⟨hDecoded, hTokenCount, hLength⟩ := decodeTokenIds_eq_ok hDecode
  simp only [rejectIf_eq_ok, Bool.or_eq_false_iff, decide_eq_false_iff_not, ne_eq,
    not_not] at hDigest
  split at h
  · cases h
    refine ⟨hText, hSha.trans hDigest.2.symm, hDecoded, by rw [hCount]; exact hLength,
      Or.inl ⟨?_, hStart, ?_⟩⟩
    · rw [hContext, hDigest.2]
      simp
    · rw [hFull, hCount]
      exact hTokenCount
  · rename_i hSuffix
    obtain ⟨_, -, h⟩ := bind_eq_ok.mp h
    obtain ⟨_, hName, h⟩ := bind_eq_ok.mp h
    simp only [rejectIf_eq_ok, decide_eq_false_iff_not, ne_eq, not_not] at hName
    cases h
    have hTwo : r.protocolVersion = scoutSuffixProtocolVersion := by
      simp only [rejectIf_eq_ok, Bool.and_eq_false_iff, decide_eq_false_iff_not, ne_eq,
        not_not] at hVersion
      exact hVersion.resolve_left hSuffix
    refine ⟨hText, hSha.trans hDigest.2.symm, hDecoded, by rw [hCount]; exact hLength,
      Or.inr ⟨?_, ?_⟩⟩
    · rw [hSha, hStart, hFull]
      apply hTexts
      simp [ScoutRequest.hashedTexts, hTwo]
    · have hNonempty := scoreContextSha256_ne_empty r.tokenSha256 r.scoreStart r.fullTokenCount
      rw [hContext, hSha, hStart, hFull]
      simp [hName, hNonempty]

end LMCache.MaKV
