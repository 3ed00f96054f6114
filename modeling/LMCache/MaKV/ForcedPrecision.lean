import LMCache.MaKV.ScoutSpec

/-!
# Forced full precision

A request may mark tokens as invalid, or force them to `BF16`. The importance builder puts
such a token into bucket zero, whatever width that bucket has; the functional builder checks
the tokens that are masked out, and not those that are only forced.
-/

namespace LMCache.MaKV

open Lib Option

section

variable {F : Type} [PyFloat F] [Sha256] [TorchDtypes]

inductive PlanInput (F : Type)
  | importance (scores : Tensor F) (layoutHint : Option String) (status : Json F)
  | functional (precisionPlan : Metadata F) (actualPromptTokenHash : String)
  | scoutrank (precisionPlan : Metadata F) (actualPromptTokenHash : String)

def PlanInput.build (layout : ChunkLayout) (config : MaKVConfig F)
    (requestTokenCount : Option Int) : PlanInput F → Result MaKVQuantPlan
  | .importance scores layoutHint status =>
    buildChunkQuantPlan scores layoutHint layout config requestTokenCount status
  | .functional precisionPlan promptHash =>
    buildChunkQuantPlanFromV3FunctionalPrecisionPlan precisionPlan promptHash layout config
      requestTokenCount
  | .scoutrank precisionPlan promptHash =>
    buildChunkQuantPlanFromPrecisionPlan precisionPlan promptHash layout config requestTokenCount

def forcedBf16 (members : List (String × Json F)) : Bool :=
  ((Dict.find "forced_precision" members).getD .null).equalsText "BF16"

def statusAt (status : Json F) (t : Nat) : Option (List (String × Json F)) :=
  match status with
  | .arr items =>
    match items[t]? with
    | some (.obj members) => some members
    | _ => none
  | _ => none

def StatusForced (status : Json F) (t : Nat) : Prop :=
  ∃ members, statusAt status t = some members ∧ (masked members ∨ forcedBf16 members)

def isFunctional (payload : Metadata F) : Bool :=
  hasText payload "schema_version" scoutrankV3FunctionalPlanSchema

def tokenStatus (payload : Metadata F) : Json F := (payload.get? "token_status").getD .null

def blockPrecision (payload : Metadata F) (t : Nat) : Option (Json F) :=
  match payload.get? "precision_vector" with
  | some (.arr vector) => vector[t / 32]?
  | _ => none

/-- The tokens that an input masks out or forces to full precision. A block plan has no
status; it forces the tokens of the blocks that it assigns full precision. -/
def PlanInput.Forced (t : Nat) : PlanInput F → Prop
  | .importance _ _ status => StatusForced status t
  | .functional payload _ => StatusForced (tokenStatus payload) t
  | .scoutrank payload _ =>
    if isFunctional payload then StatusForced (tokenStatus payload) t
    else blockPrecision payload t = some (.str "BF16")

def ChunkLayout.Holds (layout : ChunkLayout) (t : Nat) : Prop :=
  layout.chunkStart ≤ t ∧ (t : Int) < layout.chunkEnd

/-- Every forced token of the chunk has 16 bits in both planes of every layer. -/
def FullPrecision (layout : ChunkLayout) (forced : Nat → Prop) (plan : MaKVQuantPlan) : Prop :=
  ∀ t, forced t → layout.Holds t → ∀ layer < layout.numLayers.toNat, ∀ kv < 2,
    planWidth plan layer kv (t - layout.chunkStart.toNat) = some 16

def tokenPrecision (payload : Metadata F) (t : Nat) : Option (Json F) :=
  match payload.get? "precision_by_token" with
  | some (.arr values) => values[t]?
  | _ => none

def requestLength (layout : ChunkLayout) (requestTokenCount : Option Int) : Int :=
  match layout.requestTokens requestTokenCount with
  | .ok n => n
  | .error _ => 0

/-- The tokens that a functional plan forces without masking them out are assigned full
precision, or lie in the protected ends of the request. -/
def ForcedAssigned (payload : Metadata F) (layout : ChunkLayout) (config : MaKVConfig F)
    (requestTokenCount : Option Int) : Prop :=
  ∀ t members, layout.Holds t → statusAt (tokenStatus payload) t = some members →
    masked members = false → forcedBf16 members = true →
    tokenPrecision payload t = some (.str "BF16") ∨
      InProtectedEnds config (requestLength layout requestTokenCount) t

/-- When a builder keeps its forced tokens at full precision. -/
def PlanInput.KeepsForced (layout : ChunkLayout) (config : MaKVConfig F)
    (requestTokenCount : Option Int) : PlanInput F → Prop
  | .importance _ _ status =>
    (∃ t, StatusForced status t ∧ layout.Holds t) → config.bucketBits[0]? = some 16
  | .functional payload _ => ForcedAssigned payload layout config requestTokenCount
  | .scoutrank payload _ =>
    isFunctional payload = true → ForcedAssigned payload layout config requestTokenCount

omit [Sha256] [TorchDtypes] in
theorem statusForces_spec {index : Nat} {item : Json F} {forced : Bool}
    (h : statusForces index item = .ok forced) :
    ∃ members, item = .obj members ∧ (forced = true ↔ masked members ∨ forcedBf16 members) := by
  obtain ⟨members, hMembers, h⟩ := bind_eq_ok.mp h
  obtain ⟨valid, hValid, h⟩ := bind_eq_ok.mp h
  obtain ⟨bf16, hForced, h⟩ := bind_eq_ok.mp h
  obtain ⟨-, -, h⟩ := bind_eq_ok.mp h
  cases h
  cases item with
  | obj found =>
    cases hMembers
    refine ⟨members, rfl, ?_⟩
    have hMasked : masked members = !valid := by
      unfold statusValidMask at hValid
      unfold masked
      split at hValid
      · rename_i b hBool
        cases hValid
        rw [hBool]
        cases valid <;> rfl
      · cases hValid
    have hBf16 : forcedBf16 members = bf16 := by
      unfold statusForcedPrecision at hForced
      unfold forcedBf16
      split at hForced
      · rename_i hNull
        cases hForced
        rw [hNull]
        rfl
      · rename_i text hText
        split_ifs at hForced with hSame
        · cases hForced
          rw [hText, hSame]
          rfl
        · cases hForced
      · cases hForced
    rw [hMasked, hBf16, Bool.or_eq_true]
  | _ => cases hMembers

omit [Sha256] [TorchDtypes] in
theorem statusMask_spec {items : List (Json F)} {index : Nat} {mask : List Bool}
    (h : statusMask index items = .ok mask) (t : Nat) :
    mask.getD t false = true ↔ ∃ members, items[t]? = some (.obj members) ∧
      (masked members ∨ forcedBf16 members) := by
  induction items generalizing index mask t with
  | nil =>
    cases h
    simp
  | cons item rest ih =>
    obtain ⟨forced, hForced, h⟩ := bind_eq_ok.mp h
    obtain ⟨more, hMore, h⟩ := bind_eq_ok.mp h
    cases h
    cases t with
    | zero =>
      obtain ⟨members, rfl, hIff⟩ := statusForces_spec hForced
      simpa using hIff
    | succ t => simpa using ih hMore t

variable {status : Json F} {t : Nat}

omit [Sha256] [TorchDtypes] in
theorem normalizeImportanceStatus_spec {tokenCount : Int} {mask : Option (List Bool)}
    (h : normalizeImportanceStatus status tokenCount = .ok mask) (hForced : StatusForced status t)
    : ∃ flags, mask = some flags ∧ flags.getD t false = true := by
  obtain ⟨members, hAt, hWhy⟩ := hForced
  cases status with
  | arr items =>
    simp only [normalizeImportanceStatus] at h
    split at h
    · cases h
    · obtain ⟨flags, hFlags, h⟩ := bind_eq_ok.mp h
      cases h
      refine ⟨flags, rfl, (statusMask_spec hFlags t).mpr ⟨members, ?_, hWhy⟩⟩
      simp only [statusAt] at hAt
      split at hAt
      · rename_i found hFound
        cases hAt
        exact hFound
      · cases hAt
  | _ => cases hAt

variable {kv : Nat}

omit [PyFloat F] [Sha256] [TorchDtypes] in
/-- The first tier has 16 bits in a plane exactly if the first bucket has. -/
theorem width_planeBucket_zero {config : MaKVConfig F} (hScheme : SchemeBits config) {id : Nat}
    (h : planeBucket config kv 0 = some id) :
    config.bucketBits[id]? = some 16 ↔ config.bucketBits[0]? = some 16 := by
  unfold SchemeBits at hScheme
  unfold planeBucket at h
  cases hConfig : config.precisionScheme with
  | shared =>
    rw [hConfig] at h
    cases h
    rfl
  | kvSeparate3Tier =>
    rw [hConfig] at h hScheme
    dsimp only at h hScheme
    rw [hScheme] at h ⊢
    rcases Nat.eq_zero_or_pos kv with rfl | hKv
    · obtain rfl : 0 = id := some.inj h
      rfl
    · rw [kvSeparate3TierPairBits, List.getElem?_cons_zero, bind_some, if_neg (by omega)] at h
      obtain rfl : 1 = id := some.inj h
      decide
  | kvSeparate4Tier =>
    rw [hConfig] at h hScheme
    dsimp only at h hScheme
    rw [hScheme] at h ⊢
    rw [kvSeparate4TierPairBits, List.getElem?_cons_zero, bind_some, ite_self] at h
    obtain rfl : 0 = id := some.inj h
    rfl

omit [PyFloat F] [Sha256] [TorchDtypes] in
theorem ChunkLayout.Holds.offset {layout : ChunkLayout} (h : layout.Holds t)
    (hStart : 0 ≤ layout.chunkStart) : t - layout.chunkStart.toNat < layout.length ∧
      layout.chunkStart.toNat + (t - layout.chunkStart.toNat) = t := by
  obtain ⟨hFrom, hTo⟩ := h
  unfold ChunkLayout.length
  omega

variable {plan : MaKVQuantPlan}

omit [TorchDtypes] in
/-- A forced token of the chunk has 16 bits exactly if the first bucket has. -/
theorem buildChunkQuantPlan_forced {importance : Tensor F} {hint : Option String}
    {layout : ChunkLayout} {config : MaKVConfig F} {request : Option Int}
    (h : buildChunkQuantPlan importance hint layout config request status = .ok plan)
    (hForced : StatusForced status t) (hHolds : layout.Holds t) {layer : Nat}
    (hLayer : layer < layout.numLayers.toNat) (hKv : kv < 2) :
    planWidth plan layer kv (t - layout.chunkStart.toNat) = some 16 ↔
      config.bucketBits[0]? = some 16 := by
  obtain ⟨hPlan, -, tokenCount, mask, hMask, hEnd, hPlanes⟩ := buildChunkQuantPlan_spec h
  obtain ⟨ids, ⟨hScheme, tiers, hRanked, hLength, hIds⟩, hAt⟩ := hPlanes layer hLayer kv hKv
  obtain ⟨hOffset, hToken⟩ := hHolds.offset hPlan.chunk.1
  have hIn : t < tokenCount.toNat := by
    have hTo := hHolds.2
    omega
  obtain ⟨flags, rfl, hFlag⟩ := normalizeImportanceStatus_spec hMask hForced
  have hTier : tiers[t]? = some 0 := by
    refine hRanked.protect t hIn ?_
    simp only [isProtected, hFlag, Bool.or_true]
  have hSome := hIds t
  rw [hTier, bind_some, List.getElem?_eq_getElem (by omega)] at hSome
  have hId := hAt _ hOffset
  rw [hToken, hIds t, hTier, bind_some, ← hSome] at hId
  rw [planWidth, hId, bind_some, hPlan.bits]
  exact width_planeBucket_zero hScheme hSome.symm

variable {members : List (String × Json F)}

omit [PyFloat F] [Sha256] [TorchDtypes] in
theorem statusAt_eq_some (h : statusAt status t = some members) :
    ∃ items, status = .arr items ∧ items[t]? = some (.obj members) := by
  cases status with
  | arr items =>
    refine ⟨items, rfl, ?_⟩
    simp only [statusAt] at h
    split at h
    · rename_i found hFound
      cases h
      exact hFound
    · cases h
  | _ => cases h

variable {promptHash : String}

/-- A forced token of the chunk has 16 bits if it is masked out, and else exactly if it is
assigned full precision or lies in the protected ends. -/
theorem buildChunkQuantPlanFromV3_forced {payload : Metadata F} {layout : ChunkLayout}
    {config : MaKVConfig F} {request : Option Int}
    (h : buildChunkQuantPlanFromV3FunctionalPrecisionPlan payload promptHash layout config
      request = .ok plan)
    (hStatus : statusAt (tokenStatus payload) t = some members) (hHolds : layout.Holds t)
    {layer : Nat} (hLayer : layer < layout.numLayers.toNat) (hKv : kv < 2) :
    planWidth plan layer kv (t - layout.chunkStart.toNat) = some 16 ↔
      masked members = true ∨ tokenPrecision payload t = some (.str "BF16") ∨
        InProtectedEnds config (requestLength layout request) t := by
  obtain ⟨hPlan, -, -, tokenCount, precisions, hCount, hField, hLength, hEnd, hStatuses, hAll⟩ :=
    buildChunkQuantPlanFromV3_spec h
  obtain ⟨hOffset, hToken⟩ := hHolds.offset hPlan.chunk.1
  obtain ⟨items, hItems, hAt⟩ := statusAt_eq_some hStatus
  have hWidth := (hAll layer hLayer kv hKv _ hOffset).2
  have hMasked : masked members = true → precisions[t]? = some "BF16" :=
    checkStatuses_spec hStatuses hItems hAt
  have hPrecision : tokenPrecision payload t = some (.str "BF16") ↔
      precisions[t]? = some "BF16" := by
    rw [tokenPrecision, hField]
    simp only [List.getElem?_map, map_eq_some_iff, Json.str.injEq, exists_eq_right]
  have hRequest : requestLength layout request = tokenCount := by
    rw [requestLength, hCount]
  rw [hWidth, hToken, hPrecision, hRequest]
  constructor
  · rintro (hEnds | hBf16)
    · exact Or.inr (Or.inr hEnds)
    · exact Or.inr (Or.inl hBf16)
  · rintro (hMask | hBf16 | hEnds)
    · exact Or.inr (hMasked hMask)
    · exact Or.inr hBf16
    · exact Or.inl hEnds

theorem functional_fullPrecision {payload : Metadata F} {layout : ChunkLayout}
    {config : MaKVConfig F} {request : Option Int}
    (h : buildChunkQuantPlanFromV3FunctionalPrecisionPlan payload promptHash layout config
      request = .ok plan)
    (hLayers : 0 < layout.numLayers) :
    FullPrecision layout (StatusForced (tokenStatus payload)) plan ↔
      ForcedAssigned payload layout config request := by
  constructor
  · intro hFull t members hHolds hStatus hValid hForced
    have hWidth := hFull t ⟨members, hStatus, Or.inr hForced⟩ hHolds 0 (by omega) 0 (by decide)
    rw [buildChunkQuantPlanFromV3_forced h hStatus hHolds (by omega) (by decide)] at hWidth
    rcases hWidth with hMasked | hAssigned
    · rw [hValid] at hMasked
      cases hMasked
    · exact hAssigned
  · rintro hAssigned t ⟨members, hStatus, hWhy⟩ hHolds layer hLayer kv hKv
    rw [buildChunkQuantPlanFromV3_forced h hStatus hHolds hLayer hKv]
    cases hMasked : masked members with
    | true => exact Or.inl rfl
    | false =>
      have hForced : forcedBf16 members = true := by
        rcases hWhy with hMask | hForced
        · rw [hMasked] at hMask
          cases hMask
        · exact hForced
      exact Or.inr (hAssigned t members hHolds hStatus hMasked hForced)

/-- A plan gives 16 bits to all forced tokens of its chunk exactly if the input keeps them:
the first bucket has 16 bits, or the functional plan assigns full precision itself. -/
theorem forced_full_precision {layout : ChunkLayout} {config : MaKVConfig F}
    {request : Option Int} {input : PlanInput F} {plan : MaKVQuantPlan}
    (h : input.build layout config request = .ok plan) :
    FullPrecision layout (fun t => input.Forced t) plan ↔
      (0 < layout.numLayers → input.KeepsForced layout config request) := by
  rcases lt_or_ge 0 layout.numLayers with hLayers | hNone
  · rw [forall_prop_of_true hLayers]
    cases input with
    | importance scores hint status =>
      constructor
      · rintro hFull ⟨t, hForced, hHolds⟩
        have hWidth := hFull t hForced hHolds 0 (by omega) 0 (by decide)
        exact (buildChunkQuantPlan_forced h hForced hHolds (by omega) (by decide)).mp hWidth
      · intro hKeeps t hForced hHolds layer hLayer kv hKv
        exact (buildChunkQuantPlan_forced h hForced hHolds hLayer hKv).mpr
          (hKeeps ⟨t, hForced, hHolds⟩)
    | functional payload promptHash => exact functional_fullPrecision h hLayers
    | scoutrank payload promptHash =>
      cases hSchema : isFunctional payload with
      | true =>
        simp only [PlanInput.Forced, PlanInput.KeepsForced, hSchema, if_true, forall_const]
        have hBuild : buildChunkQuantPlanFromV3FunctionalPrecisionPlan payload promptHash layout
            config request = .ok plan := (if_pos hSchema).symm.trans h
        exact functional_fullPrecision hBuild hLayers
      | false =>
        simp only [PlanInput.Forced, PlanInput.KeepsForced, hSchema, Bool.false_eq_true, if_false,
          false_imp_iff, iff_true]
        intro t hForced hHolds layer hLayer kv hKv
        obtain ⟨hPlan, -, -, vector, hVector, hAll⟩ :=
          buildChunkQuantPlanFromPrecisionPlan_spec hSchema h
        obtain ⟨hOffset, hToken⟩ := hHolds.offset hPlan.chunk.1
        refine (hAll layer hLayer kv hKv _ hOffset).2 ?_
        rw [hToken]
        rw [blockPrecision, hVector] at hForced
        exact hForced
  · refine iff_of_true ?_ (fun hLayers => absurd hLayers (by omega))
    intro t _ _ layer hLayer
    omega

end

instance : Sha256 := ⟨sha256⟩

instance : TorchDtypes :=
  ⟨fun name => Dict.find name [("float16", 2), ("bfloat16", 2), ("float32", 4)]⟩

def sampleEnvironment : Environment where
  urlScheme := fun url => String.ofList (url.toList.takeWhile (· ≠ ':'))
  scoutUrlComplete := fun _ => true
  cudaExtension := true
  pagedCudaOp := true

def sampleRuntime (bits : List Int) : RuntimeConfig Decimal where
  remoteSerde := some "makv"
  remoteUrl := "makv://localhost:7000"
  extraConfig := Dict.ofList [("makv_bucket_bits", intList bits)]

def sampleLayout : ChunkLayout where
  chunkStart := 0
  chunkEnd := 1
  originalShape := [2, 1, 1, 2]
  originalStrides := [2, 2, 2, 1]
  originalDtype := "torch.float16"
  tokenDim := 2
  numLayers := 1
  numKvHeads := 1
  headDim := 2
  modelName := "m"
  worldSize := 1
  workerId := 0

def maskedToken : PlanInput Decimal :=
  .importance ⟨[1], [⟨1000⟩], rfl⟩ (some "token")
    (.arr [.obj [("valid_mask", .bool false), ("forced_precision", .str "BF16")]])

theorem maskedToken_forced : maskedToken.Forced 0 ∧ sampleLayout.Holds 0 :=
  ⟨⟨[("valid_mask", .bool false), ("forced_precision", .str "BF16")], rfl, Or.inl rfl⟩,
    by decide, by decide⟩

theorem maskedToken_builds : ∃ (config : MaKVConfig Decimal) (plan : MaKVQuantPlan),
    getMakvConfig sampleEnvironment (sampleRuntime [16, 8, 4]) = .ok config ∧
      config.bucketBits = [16, 8, 4] ∧ maskedToken.build sampleLayout config none = .ok plan :=
  ⟨_, _, rfl, rfl, rfl⟩

theorem masked_token_kept : ∃ (config : MaKVConfig Decimal) (plan : MaKVQuantPlan),
    getMakvConfig sampleEnvironment (sampleRuntime [16, 8, 4]) = .ok config ∧
      maskedToken.build sampleLayout config none = .ok plan ∧
      maskedToken.Forced 0 ∧ sampleLayout.Holds 0 ∧
      FullPrecision sampleLayout (fun t => maskedToken.Forced t) plan := by
  obtain ⟨config, plan, hConfig, hBits, hPlan⟩ := maskedToken_builds
  refine ⟨config, plan, hConfig, hPlan, maskedToken_forced.1, maskedToken_forced.2, ?_⟩
  refine (forced_full_precision hPlan).mpr ?_
  intro _ _
  rw [hBits]
  rfl

/-- The widths 8, 4 and 2 are accepted, and the masked token is quantized to 8 bits. -/
theorem masked_token_quantized : ∃ (config : MaKVConfig Decimal) (plan : MaKVQuantPlan),
    getMakvConfig sampleEnvironment (sampleRuntime [8, 4, 2]) = .ok config ∧
      maskedToken.build sampleLayout config none = .ok plan ∧
      planWidth plan 0 0 0 = some 8 ∧
      ¬FullPrecision sampleLayout (fun t => maskedToken.Forced t) plan := by
  refine ⟨_, _, rfl, rfl, rfl, ?_⟩
  intro hFull
  have hWidth := hFull 0 maskedToken_forced.1 maskedToken_forced.2 0 (by decide) 0 (by decide)
  cases hWidth

end LMCache.MaKV
