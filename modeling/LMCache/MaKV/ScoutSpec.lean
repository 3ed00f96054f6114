import LMCache.MaKV.PlanSpec

/-!
# What the ScoutRank builders put into a plan

Both builders turn the precision of a token into the buckets of its two widths. A block
plan gives a token the precision of its block of 32 tokens; a functional plan gives it the
precision it lists, except at the protected ends of the request.
-/

namespace LMCache.MaKV

open Lib List Option

variable {F : Type} [PyFloat F]

variable {precisions : List String}

theorem precisionIds_spec {bits : List Int} {planes : List (Nat × Nat)} {ids : List Nat}
    (h : precisionIds bits precisions planes = .ok ids) :
    ∃ rows, ids = rows.flatten ∧ RowsFor precisions.length
      (fun _ kv row => ∀ (i id : Nat), row[i]? = some id →
        ∃ precision, precisions[i]? = some precision ∧
          precisionBucket bits kv precision = .ok id) planes rows := by
  induction planes generalizing ids with
  | nil =>
    cases h
    exact ⟨[], rfl, rfl, fun _ _ _ hAt => nomatch hAt⟩
  | cons plane rest ih =>
    obtain ⟨layer, kv⟩ := plane
    rw [precisionIds] at h
    obtain ⟨row, hRow, h⟩ := bind_eq_ok.mp h
    obtain ⟨more, hMore, h⟩ := bind_eq_ok.mp h
    cases h
    obtain ⟨rows, rfl, hRows⟩ := ih hMore
    obtain ⟨hLength, hAll⟩ := mapM_eq_ok hRow
    exact ⟨row :: rows, (flatten_cons ..).symm, hRows.cons hLength hAll⟩

theorem precisionBytes_spec {bits : List Int} {layout : ChunkLayout} {ids : List Nat}
    {bytes : Bytes} (hStart : 0 ≤ layout.chunkStart) (hEnd : layout.chunkEnd ≤ precisions.length)
    (hIds : precisionIds bits (pySlice precisions layout.chunkStart layout.chunkEnd)
      (planeRows layout.numLayers) = .ok ids) (hBytes : toByteString ids = .ok bytes) :
    bytes.length = layout.numLayers.toNat * 2 * layout.length ∧
      ∀ layer < layout.numLayers.toNat, ∀ kv < 2, ∀ token < layout.length, ∃ precision id,
        precisions[layout.chunkStart.toNat + token]? = some precision ∧
          precisionBucket bits kv precision = .ok id ∧
          bytes[(layer * 2 + kv) * layout.length + token]?.map UInt8.toNat = some id := by
  obtain ⟨rows, rfl, hRows⟩ := precisionIds_spec hIds
  have hPiece : (pySlice precisions layout.chunkStart layout.chunkEnd).length = layout.length :=
    length_pySlice hStart hEnd
  rw [hPiece] at hRows
  refine ⟨by rw [length_toByteString hBytes, hRows.length_flatten, length_planeRows], ?_⟩
  intro layer hLayer kv hKv token hToken
  obtain ⟨row, hRow, hLength, hAll⟩ := hRows.row _ _ _ (getElem?_planeRows hLayer hKv)
  have hAt : row[token]? = some (row.get ⟨token, by omega⟩) :=
    getElem?_eq_getElem (by omega)
  obtain ⟨precision, hPrecision, hBucket⟩ := hAll token _ hAt
  rw [getElem?_pySlice _ hStart hToken] at hPrecision
  refine ⟨precision, _, hPrecision, hBucket, ?_⟩
  rw [toByteString_spec hBytes, ← flatMap_id, Tensor.getElem?_flatMap_const rows id
    (fun _ hr => hRows.length_of_mem hr) hToken, hRow]
  exact hAt

theorem width_of_precisionBucket {kv id : Nat} {precision : String}
    (h : precisionBucket [16, 8, 4, 2] kv precision = .ok id) :
    id < 4 ∧ (([16, 8, 4, 2] : List Int)[id]? = some 16 ↔ precision = "BF16") := by
  unfold precisionBucket at h
  split at h
  · rename_i pair hPair
    have hCases : (precision = "BF16" ∧ pair = (16, 16)) ∨ (precision = "K8V4" ∧ pair = (8, 4)) ∨
        (precision = "K4V2" ∧ pair = (4, 2)) ∨ (precision = "K2V2" ∧ pair = (2, 2)) := by
      have hMem := Dict.mem_of_find hPair
      simpa [scoutrankPrecisionBits] using hMem
    rw [bucketOfBit_eq_ok] at h
    rcases hCases with ⟨rfl, rfl⟩ | ⟨rfl, rfl⟩ | ⟨rfl, rfl⟩ | ⟨rfl, rfl⟩
    · have hId : id = 0 := by
        split_ifs at h <;> exact (some.inj h).symm
      subst hId
      decide
    · split_ifs at h
      · obtain rfl : 1 = id := some.inj h
        decide
      · obtain rfl : 2 = id := some.inj h
        decide
    · split_ifs at h
      · obtain rfl : 2 = id := some.inj h
        decide
      · obtain rfl : 3 = id := some.inj h
        decide
    · have hId : id = 3 := by
        split_ifs at h <;> exact (some.inj h).symm
      subst hId
      decide
  · cases h

omit [PyFloat F] in
theorem arrayField_eq_ok {payload : Metadata F} {key message : String} {items : List (Json F)}
    (h : arrayField payload key message = .ok items) : payload.get? key = some (.arr items) := by
  unfold arrayField at h
  split at h
  · rename_i found hFound
    cases h
    exact hFound
  · cases h

omit [PyFloat F] in
theorem precisionTexts_spec {values : List (Json F)} (h : precisionTexts values = .ok precisions) :
    values = precisions.map .str := by
  induction values generalizing precisions with
  | nil =>
    cases h
    rfl
  | cons value rest ih =>
    cases value with
    | str s =>
      rw [precisionTexts] at h
      split at h
      · cases h
      · obtain ⟨more, hMore, h⟩ := bind_eq_ok.mp h
        cases h
        rw [ih hMore, map_cons]
    | _ => cases h

def masked (members : List (String × Json F)) : Bool :=
  !((Dict.find "valid_mask" members).getD (.bool true)).truthy

variable {statuses : List (Json F)} {members : List (String × Json F)}

theorem checkTokenStatus_spec (h : checkTokenStatus statuses precisions = .ok ()) {t : Nat}
    (hAt : statuses[t]? = some (.obj members)) (hMasked : masked members = true) :
    precisions[t]? = some "BF16" := by
  induction statuses generalizing precisions t with
  | nil => cases hAt
  | cons status rest ih =>
    cases status with
    | obj first =>
      rw [checkTokenStatus] at h
      obtain ⟨-, -, h⟩ := bind_eq_ok.mp h
      obtain ⟨_, hHead, h⟩ := bind_eq_ok.mp h
      cases t with
      | zero =>
        cases hAt
        rw [rejectIf_eq_ok] at hHead
        change (masked members && _) = false at hHead
        rw [hMasked, Bool.true_and, decide_eq_false_iff_not, ne_eq, not_not] at hHead
        rw [← head?_eq_getElem?]
        exact hHead
      | succ t =>
        have hTail := ih h hAt
        rw [getElem?_tail] at hTail
        exact hTail
    | _ => cases h

variable {tokenCount : Int}

theorem checkStatuses_spec {status : Json F}
    (h : checkStatuses status tokenCount precisions = .ok ()) (hStatus : status = .arr statuses)
    {t : Nat} (hAt : statuses[t]? = some (.obj members)) (hMasked : masked members = true) :
    precisions[t]? = some "BF16" := by
  subst hStatus
  obtain ⟨-, -, h⟩ := bind_eq_ok.mp h
  exact checkTokenStatus_spec h hAt hMasked

/-- A token lies in the protected head or tail of its request. -/
def InProtectedEnds (config : MaKVConfig F) (tokenCount : Int) (t : Nat) : Prop :=
  (t : Int) < min config.protectPrefixTokens tokenCount ∨
    tokenCount - min config.protectTailTokens
      (max 0 (tokenCount - min config.protectPrefixTokens tokenCount)) ≤ t

omit [PyFloat F] in
theorem getElem?_effectivePrecision (config : MaKVConfig F) (tokenCount : Int)
    (precisions : List String) (t : Nat) :
    (effectivePrecision config tokenCount precisions)[t]? = some "BF16" ↔
      t < precisions.length ∧
        (InProtectedEnds config tokenCount t ∨ precisions[t]? = some "BF16") := by
  rw [effectivePrecision, getElem?_mapIdx]
  cases hAt : precisions[t]? with
  | none =>
    have hOut := List.getElem?_eq_none_iff.mp hAt
    simp only [map_none, reduceCtorEq, false_iff, not_and]
    omega
  | some precision =>
    have hIn := (List.getElem?_eq_some_iff.mp hAt).1
    simp only [map_some, Option.some.injEq, hIn, true_and]
    unfold InProtectedEnds
    split_ifs with hEnds
    · simp only [hEnds, true_or]
    · simp only [hEnds, false_or]

variable [Sha256] [TorchDtypes] {promptHash : String} {plan : MaKVQuantPlan}

/-- The plan of the functional builder has 16 bits where the payload, or the protection of
the ends of the request, says full precision, and nowhere else. -/
theorem buildChunkQuantPlanFromV3_spec {payload : Metadata F} {layout : ChunkLayout}
    {config : MaKVConfig F} {request : Option Int}
    (h : buildChunkQuantPlanFromV3FunctionalPrecisionPlan payload promptHash layout config
      request = .ok plan)
    : PlanFor layout config plan ∧ plan.precisionScheme = config.precisionScheme.text ∧
      config.bucketBits = [16, 8, 4, 2] ∧
      ∃ (tokenCount : Int) (precisions : List String),
        layout.requestTokens request = .ok tokenCount ∧
        payload.get? "precision_by_token" = some (.arr (precisions.map .str)) ∧
        (precisions.length : Int) = tokenCount ∧ layout.chunkEnd ≤ tokenCount ∧
        checkStatuses ((payload.get? "token_status").getD .null) tokenCount precisions = .ok () ∧
        ∀ layer < layout.numLayers.toNat, ∀ kv < 2, ∀ token < layout.length,
          (∃ id, bucketIdAt plan layer kv token = some id ∧ id < 4) ∧
          (planWidth plan layer kv token = some 16 ↔
            InProtectedEnds config tokenCount (layout.chunkStart.toNat + token) ∨
              precisions[layout.chunkStart.toNat + token]? = some "BF16") := by
  obtain ⟨tokenCount, hCount, h⟩ := bind_eq_ok.mp h
  obtain ⟨_, hRange, h⟩ := bind_eq_ok.mp h
  obtain ⟨_, hBits, h⟩ := bind_eq_ok.mp h
  obtain ⟨_, -, h⟩ := bind_eq_ok.mp h
  obtain ⟨_, -, h⟩ := bind_eq_ok.mp h
  obtain ⟨⟨precisions, sourceHash⟩, hValid, h⟩ := bind_eq_ok.mp h
  obtain ⟨itemsize, -, h⟩ := bind_eq_ok.mp h
  obtain ⟨_, -, h⟩ := bind_eq_ok.mp h
  obtain ⟨ids, hIds, h⟩ := bind_eq_ok.mp h
  obtain ⟨bytes, hBytes, h⟩ := bind_eq_ok.mp h
  cases h
  rw [rejectIf_eq_ok, Bool.not_eq_false', ChunkLayout.inRequest_iff] at hRange
  obtain ⟨hStart, hOrder, hEnd⟩ := hRange
  rw [rejectIf_eq_ok, decide_eq_false_iff_not, ne_eq, not_not] at hBits
  obtain ⟨_, -, hValid⟩ := bind_eq_ok.mp hValid
  obtain ⟨_, -, hValid⟩ := bind_eq_ok.mp hValid
  obtain ⟨values, hValues, hValid⟩ := bind_eq_ok.mp hValid
  obtain ⟨_, hLength, hValid⟩ := bind_eq_ok.mp hValid
  obtain ⟨precisions', hTexts, hValid⟩ := bind_eq_ok.mp hValid
  obtain ⟨_, hStatuses, hValid⟩ := bind_eq_ok.mp hValid
  cases hValid
  obtain rfl := precisionTexts_spec hTexts
  rw [rejectIf_eq_ok, decide_eq_false_iff_not, ne_eq, not_not, length_map] at hLength
  have hField := arrayField_eq_ok hValues
  have hEffective : (effectivePrecision config tokenCount precisions).length = precisions.length :=
    length_mapIdx
  obtain ⟨hIdsLength, hAll⟩ := precisionBytes_spec hStart (by omega) hIds hBytes
  refine ⟨⟨rfl, rfl, rfl, rfl, rfl, rfl, rfl, rfl, rfl, rfl, rfl, Or.inr ⟨rfl, hIdsLength⟩, hStart,
    hOrder⟩, rfl, hBits, tokenCount, precisions, hCount, hField, hLength, hEnd, hStatuses, ?_⟩
  intro layer hLayer kv hKv token hToken
  obtain ⟨precision, id, hPrecision, hBucket, hAt⟩ := hAll layer hLayer kv hKv token hToken
  rw [hBits] at hBucket
  obtain ⟨hId, hWidth⟩ := width_of_precisionBucket hBucket
  refine ⟨⟨id, hAt, hId⟩, ?_⟩
  have hIn : layout.chunkStart.toNat + token < precisions.length := by
    rw [← hEffective]
    exact (List.getElem?_eq_some_iff.mp hPrecision).1
  have hEff := getElem?_effectivePrecision config tokenCount precisions
    (layout.chunkStart.toNat + token)
  rw [hPrecision, Option.some.injEq] at hEff
  suffices hPlan : ∀ plan : MaKVQuantPlan, plan.bucketBits = config.bucketBits →
      bucketIdAt plan layer kv token = some id → (planWidth plan layer kv token = some 16 ↔
        InProtectedEnds config tokenCount (layout.chunkStart.toNat + token) ∨
          precisions[layout.chunkStart.toNat + token]? = some "BF16") from hPlan _ rfl hAt
  intro plan hPlanBits hPlanId
  rw [planWidth, hPlanId, bind_some, hPlanBits, hBits, hWidth, hEff]
  exact and_iff_right hIn

omit [PyFloat F] [Sha256] [TorchDtypes] in
theorem getElem?_splice {values : List String} {start stop : Nat} (value : String)
    (hOrder : start ≤ stop) (hStop : stop ≤ values.length) (t : Nat) :
    (values.take start ++ List.replicate (stop - start) value ++ values.drop stop)[t]? =
      if start ≤ t ∧ t < stop then some value else values[t]? := by
  rw [append_assoc, getElem?_append, length_take, Nat.min_eq_left (by omega)]
  split_ifs with hBefore hIn hIn
  · omega
  · rw [getElem?_take, if_pos hBefore]
  · rw [getElem?_append_left (by rw [length_replicate]; omega),
      getElem?_replicate, if_pos (by omega)]
  · rw [getElem?_append_right (by rw [length_replicate]; omega), length_replicate, getElem?_drop]
    congr 1
    omega

omit [PyFloat F] [Sha256] [TorchDtypes] in
theorem length_splice {values : List String} {start stop : Nat} (value : String)
    (hOrder : start ≤ stop) (hStop : stop ≤ values.length) :
    (values.take start ++ List.replicate (stop - start) value ++ values.drop stop).length =
      values.length := by
  simp only [length_append, length_take, length_replicate, length_drop]
  omega

/-- The blocks, from the given one on, as the geometry of a request lays them out. -/
def BlocksFrom (tokenCount : Int) (first : Nat) (blocks : List ScoutBlock) : Prop :=
  ∀ (k : Nat) (block : ScoutBlock), blocks[k]? = some block →
    block.start = 32 * ((first + k : Nat) : Int) ∧
      block.stop = block.start + min 32 (tokenCount - block.start) ∧ block.start < tokenCount

variable {first : Nat}

omit [PyFloat F] [Sha256] [TorchDtypes] in
theorem BlocksFrom.tail {block : ScoutBlock} {blocks : List ScoutBlock}
    (h : BlocksFrom tokenCount first (block :: blocks)) :
    BlocksFrom tokenCount (first + 1) blocks := by
  intro k next hAt
  have hNext := h (k + 1) next hAt
  rw [← Nat.add_assoc, Nat.add_right_comm] at hNext
  exact hNext

omit [PyFloat F] [Sha256] [TorchDtypes] in
/-- Spreading the blocks gives every token of a block its precision, and leaves the tokens
before the first block as they were. -/
theorem spreadBlocks_spec {blocks : List ScoutBlock} (hBlocks : BlocksFrom tokenCount first blocks)
    (hLength : (precisions.length : Int) = tokenCount) :
    (spreadBlocks precisions blocks).length = precisions.length ∧
      (∀ t, t < 32 * first → (spreadBlocks precisions blocks)[t]? = precisions[t]?) ∧
      ∀ t, 32 * first ≤ t → (t : Int) < tokenCount → t / 32 - first < blocks.length →
        (spreadBlocks precisions blocks)[t]? =
          (blocks[t / 32 - first]?).map ScoutBlock.precision := by
  induction blocks generalizing first precisions with
  | nil => exact ⟨rfl, fun _ _ => rfl, fun _ _ _ hOut => absurd hOut (Nat.not_lt_zero _)⟩
  | cons block rest ih =>
    obtain ⟨hStart, hStop, hInside⟩ := hBlocks 0 block rfl
    rw [Nat.add_zero] at hStart
    obtain ⟨start, hS⟩ : ∃ start : Nat, block.start = start := ⟨32 * first, by omega⟩
    obtain ⟨stop, hE⟩ : ∃ stop : Nat, block.stop = stop := ⟨block.stop.toNat, by omega⟩
    have hSplice : spreadBlocks precisions (block :: rest) = spreadBlocks
        (precisions.take start ++ List.replicate (stop - start) block.precision ++
          precisions.drop stop) rest := by
      unfold spreadBlocks
      rw [foldl_cons, hS, hE, Int.toNat_natCast, Int.toNat_natCast, Int.toNat_sub]
    have hOrder : start ≤ stop := by omega
    have hIn : stop ≤ precisions.length := by omega
    have hSame := length_splice block.precision hOrder hIn
    obtain ⟨hLen, hBefore, hAfter⟩ := ih hBlocks.tail (by rw [hSame]; exact hLength)
    rw [hSplice]
    refine ⟨hLen.trans hSame, ?_, ?_⟩
    · intro t ht
      rw [hBefore t (by omega), getElem?_splice block.precision hOrder hIn, if_neg (by omega)]
    · intro t hFrom hTo hBlock
      rcases Nat.lt_or_ge t (32 * (first + 1)) with hHere | hLater
      · rw [hBefore t hHere, getElem?_splice block.precision hOrder hIn, if_pos (by omega),
          show t / 32 - first = 0 by omega]
        rfl
      · rw [length_cons] at hBlock
        rw [hAfter t hLater hTo (by omega),
          show t / 32 - first = (t / 32 - (first + 1)) + 1 by omega, getElem?_cons_succ]

omit [Sha256] [TorchDtypes] in
theorem scanBlocks_spec {before after : BlockTotals} {rows : List (Json F)}
    (h : scanBlocks tokenCount first before rows = .ok after)
    (hInside : 32 * ((first + rows.length : Nat) : Int) < tokenCount + 32) :
    ∃ blocks, after.blocks = before.blocks ++ blocks ∧ blocks.length = rows.length ∧
      BlocksFrom tokenCount first blocks ∧
      ∀ (k : Nat) (row : Json F), rows[k]? = some row → row.get? "precision" = some (.str "BF16") →
        (blocks[k]?).map ScoutBlock.precision = some "BF16" := by
  induction rows generalizing first before with
  | nil =>
    cases h
    exact ⟨[], (append_nil _).symm, rfl, fun _ _ hAt => (nomatch hAt), fun _ _ hAt => (nomatch hAt)⟩
  | cons row rest ih =>
    obtain ⟨middle, hRow, h⟩ := bind_eq_ok.mp h
    rw [length_cons] at hInside
    obtain ⟨blocks, hBlocks, hLength, hFrom, hPrecision⟩ := ih h (by omega)
    obtain ⟨_, -, hRow⟩ := bind_eq_ok.mp hRow
    obtain ⟨_, -, hRow⟩ := bind_eq_ok.mp hRow
    obtain ⟨_, -, hRow⟩ := bind_eq_ok.mp hRow
    obtain ⟨_, -, hRow⟩ := bind_eq_ok.mp hRow
    obtain ⟨start, -, hRow⟩ := bind_eq_ok.mp hRow
    obtain ⟨_, -, hRow⟩ := bind_eq_ok.mp hRow
    obtain ⟨stop, -, hRow⟩ := bind_eq_ok.mp hRow
    obtain ⟨_, -, hRow⟩ := bind_eq_ok.mp hRow
    obtain ⟨valid, -, hRow⟩ := bind_eq_ok.mp hRow
    obtain ⟨_, -, hRow⟩ := bind_eq_ok.mp hRow
    obtain ⟨stored, -, hRow⟩ := bind_eq_ok.mp hRow
    obtain ⟨precision, hItem, hRow⟩ := bind_eq_ok.mp hRow
    obtain ⟨_, hGeometry, hRow⟩ := bind_eq_ok.mp hRow
    obtain ⟨_, -, hRow⟩ := bind_eq_ok.mp hRow
    obtain ⟨_, -, hRow⟩ := bind_eq_ok.mp hRow
    obtain ⟨_, -, hRow⟩ := bind_eq_ok.mp hRow
    obtain ⟨_, -, hRow⟩ := bind_eq_ok.mp hRow
    obtain ⟨_, -, hRow⟩ := bind_eq_ok.mp hRow
    obtain ⟨_, -, hRow⟩ := bind_eq_ok.mp hRow
    cases hRow
    rw [rejectIf_eq_ok] at hGeometry
    simp only [ne_eq, decide_not, Bool.or_eq_false_iff, Bool.not_eq_false',
      decide_eq_true_eq] at hGeometry
    obtain ⟨⟨⟨⟨-, hStart⟩, hValid⟩, hExpected⟩, -⟩ := hGeometry
    refine ⟨⟨start, stop, precision.toText⟩ :: blocks, ?_, ?_, ?_, ?_⟩
    · rw [hBlocks, append_assoc]
      rfl
    · rw [length_cons, hLength, length_cons]
    · intro k block hAt
      cases k with
      | zero =>
        cases hAt
        refine ⟨?_, ?_, ?_⟩ <;> dsimp only <;> omega
      | succ k =>
        have hNext := hFrom k block hAt
        rw [Nat.add_right_comm, Nat.add_assoc] at hNext
        exact hNext
    · intro k row' hAt hBf16
      cases k with
      | zero =>
        cases hAt
        cases row with
        | obj members =>
          simp only [Json.get?] at hBf16
          simp only [Json.item, hBf16] at hItem
          cases hItem
          rfl
        | _ => cases hBf16
      | succ k => exact hPrecision k row' hAt hBf16

omit [Sha256] [TorchDtypes] in
theorem equalItems_str {xs ys : List (Json F)} (h : Json.equalItems xs ys = true) {k : Nat}
    {text : String} (hAt : ys[k]? = some (.str text)) : xs[k]? = some (.str text) := by
  induction xs generalizing ys k with
  | nil =>
    cases ys with
    | nil => cases hAt
    | cons y ys => simp [Json.equalItems] at h
  | cons x xs ih =>
    cases ys with
    | nil => cases hAt
    | cons y ys =>
      rw [Json.equalItems, Bool.and_eq_true] at h
      cases k with
      | zero =>
        cases hAt
        have hHead := h.1
        cases x with
        | str s =>
          rw [Json.equals, beq_iff_eq] at hHead
          rw [hHead]
          rfl
        | _ => simp [Json.equals, Json.equalsInt] at hHead
      | succ k => exact ih h.2 hAt

omit [TorchDtypes] in
/-- The blocks of a valid plan cover the request, and a block that the precision vector
assigns full precision has it. -/
theorem validateScoutrankPrecisionPlan_spec {payload : Metadata F} {config : MaKVConfig F}
    {blocks : List ScoutBlock} {digest : String}
    (h : validateScoutrankPrecisionPlan payload tokenCount promptHash config = .ok (blocks, digest))
    : BlocksFrom tokenCount 0 blocks ∧ (blocks.length : Int) = -((-tokenCount) / 32) ∧
      ∃ vector : List (Json F), payload.get? "precision_vector" = some (.arr vector) ∧
        ∀ k : Nat, vector[k]? = some (.str "BF16") →
          (blocks[k]?).map ScoutBlock.precision = some "BF16" := by
  obtain ⟨_, -, h⟩ := bind_eq_ok.mp h
  obtain ⟨plan, -, h⟩ := bind_eq_ok.mp h
  obtain ⟨_, -, h⟩ := bind_eq_ok.mp h
  obtain ⟨_, -, h⟩ := bind_eq_ok.mp h
  obtain ⟨rows, -, h⟩ := bind_eq_ok.mp h
  obtain ⟨_, hCount, h⟩ := bind_eq_ok.mp h
  obtain ⟨vector, hVector, h⟩ := bind_eq_ok.mp h
  obtain ⟨_, -, h⟩ := bind_eq_ok.mp h
  obtain ⟨_, hSame, h⟩ := bind_eq_ok.mp h
  obtain ⟨totals, hScan, h⟩ := bind_eq_ok.mp h
  obtain ⟨_, -, h⟩ := bind_eq_ok.mp h
  obtain ⟨_, -, h⟩ := bind_eq_ok.mp h
  obtain ⟨_, -, h⟩ := bind_eq_ok.mp h
  obtain ⟨_, -, h⟩ := bind_eq_ok.mp h
  cases h
  rw [rejectIf_eq_ok, decide_eq_false_iff_not, ne_eq, not_not] at hCount
  rw [rejectIf_eq_ok, Bool.not_eq_false'] at hSame
  obtain ⟨blocks, hBlocks, hLength, hFrom, hPrecision⟩ := scanBlocks_spec hScan (by omega)
  rw [nil_append] at hBlocks
  subst hBlocks
  refine ⟨hFrom, by rw [hLength]; exact hCount, vector, arrayField_eq_ok hVector, ?_⟩
  intro k hAt
  have hRow := equalItems_str hSame hAt
  rw [getElem?_map] at hRow
  obtain ⟨row, hRowAt, hText⟩ := map_eq_some_iff.mp hRow
  refine hPrecision k row hRowAt ?_
  cases hField : row.get? "precision" with
  | none =>
    rw [hField] at hText
    cases hText
  | some value =>
    rw [hField, getD_some] at hText
    rw [hText]

/-- The plan of the block builder has 16 bits where the precision vector of the payload says
full precision. -/
theorem buildChunkQuantPlanFromPrecisionPlan_spec {payload : Metadata F} {layout : ChunkLayout}
    {config : MaKVConfig F} {request : Option Int}
    (hSchema : hasText payload "schema_version" scoutrankV3FunctionalPlanSchema = false)
    (h : buildChunkQuantPlanFromPrecisionPlan payload promptHash layout config request = .ok plan)
    : PlanFor layout config plan ∧ plan.precisionScheme = "shared" ∧
      config.bucketBits = [16, 8, 4, 2] ∧
      ∃ vector : List (Json F), payload.get? "precision_vector" = some (.arr vector) ∧
        ∀ layer < layout.numLayers.toNat, ∀ kv < 2, ∀ token < layout.length,
          (∃ id, bucketIdAt plan layer kv token = some id ∧ id < 4) ∧
          (vector[(layout.chunkStart.toNat + token) / 32]? = some (.str "BF16") →
            planWidth plan layer kv token = some 16) := by
  unfold buildChunkQuantPlanFromPrecisionPlan at h
  rw [hSchema, if_neg Bool.false_ne_true] at h
  obtain ⟨tokenCount, -, h⟩ := bind_eq_ok.mp h
  obtain ⟨_, hRange, h⟩ := bind_eq_ok.mp h
  obtain ⟨⟨blocks, sourceHash⟩, hValid, h⟩ := bind_eq_ok.mp h
  obtain ⟨_, hBits, h⟩ := bind_eq_ok.mp h
  obtain ⟨ids, hIds, h⟩ := bind_eq_ok.mp h
  obtain ⟨bytes, hBytes, h⟩ := bind_eq_ok.mp h
  cases h
  rw [rejectIf_eq_ok, Bool.not_eq_false', ChunkLayout.inRequest_iff] at hRange
  obtain ⟨hStart, hOrder, hEnd⟩ := hRange
  rw [rejectIf_eq_ok, decide_eq_false_iff_not, ne_eq, not_not] at hBits
  obtain ⟨hFrom, hCount, vector, hVector, hPrecision⟩ :=
    validateScoutrankPrecisionPlan_spec hValid
  have hReplicate : ((List.replicate tokenCount.toNat "").length : Int) = tokenCount := by
    rw [length_replicate]
    omega
  obtain ⟨hLength, -, hAll⟩ := spreadBlocks_spec hFrom hReplicate
  rw [length_replicate] at hLength
  obtain ⟨hIdsLength, hIdsAt⟩ := precisionBytes_spec hStart (by omega) hIds hBytes
  refine ⟨⟨rfl, rfl, rfl, hBits.symm, rfl, rfl, rfl, rfl, rfl, rfl, rfl, Or.inr ⟨rfl, hIdsLength⟩,
    hStart, hOrder⟩, rfl, hBits, vector, hVector, ?_⟩
  intro layer hLayer kv hKv token hToken
  obtain ⟨precision, id, hAt, hBucket, hId⟩ := hIdsAt layer hLayer kv hKv token hToken
  obtain ⟨hLt, hWidth⟩ := width_of_precisionBucket hBucket
  refine ⟨⟨id, hId, hLt⟩, ?_⟩
  intro hBf16
  have hIn : ((layout.chunkStart.toNat + token : Nat) : Int) < tokenCount := by
    unfold ChunkLayout.length at hToken
    omega
  have hSpread := hAll (layout.chunkStart.toNat + token) (by omega) hIn (by omega)
  rw [Nat.sub_zero, hPrecision _ hBf16, hAt, Option.some.injEq] at hSpread
  suffices hPlan : ∀ plan : MaKVQuantPlan, plan.bucketBits = [16, 8, 4, 2] →
      bucketIdAt plan layer kv token = some id → planWidth plan layer kv token = some 16 from
    hPlan _ rfl hId
  intro plan hPlanBits hPlanId
  rw [planWidth, hPlanId, bind_some, hPlanBits, hWidth]
  exact hSpread

end LMCache.MaKV
