import Mathlib.Algebra.Order.BigOperators.Group.List
import Mathlib.Data.Prod.Lex
import LMCache.MaKV.PlanSpec

/-!
# The ranking of scores

Over exact floats the ranking is a sort of rationals. The tokens that take part are ordered by
falling score and then by index, and the buckets cut that order at the rounded sums of their
ratios.
-/

namespace LMCache.MaKV

open Lib ExactFloat List

section Scan

variable {F : Type} [PyFloat F]

/-- A token, with its index, that the ranking does not leave out. -/
def ranks (config : MaKVConfig F) (mask : Option (List Bool)) (n : Nat) (token : F × Nat) : Bool :=
  !isProtected config mask n token.2 && !PyFloat.isNan token.1 && !PyFloat.isInf token.1

def rankedTokens (config : MaKVConfig F) (mask : Option (List Bool)) (scores : List F) :
    List (F × Nat) :=
  scores.zipIdx.filter (ranks config mask scores.length)

def sortEntry (token : F × Nat) : Nat × F := (token.2, PyFloat.neg token.1)

theorem sortable_scanScores (config : MaKVConfig F) (mask : Option (List Bool)) (n : Nat)
    (scores : List F) (idx : Nat) :
    (scanScores config mask n idx scores).sortable =
      ((scores.zipIdx idx).filter (ranks config mask n)).map sortEntry := by
  induction scores generalizing idx with
  | nil => rfl
  | cons value rest ih =>
    rw [scanScores, zipIdx_cons, filter_cons]
    unfold ranks at ih ⊢
    split_ifs with hProtected hNan hInf <;> simp_all [sortEntry]

omit [PyFloat F] in
theorem isProtected_iff (config : MaKVConfig F) (mask : Option (List Bool)) {n i : Nat}
    (hi : i < n) :
    isProtected config mask n i = true ↔
      (i : Int) < config.protectPrefixTokens ∨ (n : Int) - config.protectTailTokens ≤ i ∨
        ∃ m, mask = some m ∧ m[i]? = some true := by
  have hMask : isProtected config mask n i = true ↔
      (i : Int) < min config.protectPrefixTokens n ∨
        (n : Int) - min config.protectTailTokens
          (max 0 (n - min config.protectPrefixTokens n)) ≤ i ∨
        ∃ m, mask = some m ∧ m[i]? = some true := by
    unfold isProtected
    simp only [Bool.or_eq_true, decide_eq_true_eq, or_assoc]
    refine or_congr_right (or_congr_right ?_)
    cases mask with
    | none => simp
    | some m => cases h : m[i]? <;> simp [List.getD, h]
  rw [hMask]
  constructor
  · rintro (hHead | hTail | hForced)
    · exact Or.inl (by omega)
    · by_cases hHead : (i : Int) < config.protectPrefixTokens
      · exact Or.inl hHead
      · exact Or.inr (Or.inl (by omega))
    · exact Or.inr (Or.inr hForced)
  · rintro (hHead | hTail | hForced)
    · exact Or.inl (by omega)
    · by_cases hHead : (i : Int) < min config.protectPrefixTokens n
      · exact Or.inl hHead
      · exact Or.inr (Or.inl (by omega))
    · exact Or.inr (Or.inr hForced)

theorem mem_rankedTokens {config : MaKVConfig F} {mask : Option (List Bool)} {scores : List F}
    {token : F × Nat} :
    token ∈ rankedTokens config mask scores ↔
      scores[token.2]? = some token.1 ∧ isProtected config mask scores.length token.2 = false ∧
        IsFinite token.1 := by
  unfold rankedTokens ranks IsFinite
  rw [mem_filter, mem_zipIdx_iff_getElem?]
  simp [and_assoc]

theorem nodup_rankedTokens (config : MaKVConfig F) (mask : Option (List Bool))
    (scores : List F) : ((rankedTokens config mask scores).map Prod.snd).Nodup := by
  have hSublist : ((rankedTokens config mask scores).map Prod.snd).Sublist
      (scores.zipIdx.map Prod.snd) := filter_sublist.map _
  refine hSublist.nodup ?_
  rw [zipIdx_map_snd]
  exact nodup_range'

/-- A token that has no place in the ranking: it lies in a protected end of the request, its
status forces it, or its score is not finite. -/
def LeftOut (config : MaKVConfig F) (mask : Option (List Bool)) (n : Nat) (token : F × Nat) :
    Prop :=
  (token.2 : Int) < config.protectPrefixTokens ∨
    (n : Int) - config.protectTailTokens ≤ token.2 ∨
    (∃ m, mask = some m ∧ m[token.2]? = some true) ∨ ¬ IsFinite token.1

theorem isProtected_false_iff {config : MaKVConfig F} {mask : Option (List Bool)}
    {scores : List F} {token : F × Nat} (hToken : scores[token.2]? = some token.1) :
    (isProtected config mask scores.length token.2 = false ∧ IsFinite token.1) ↔
      ¬ LeftOut config mask scores.length token := by
  obtain ⟨hLess, -⟩ := List.getElem?_eq_some_iff.mp hToken
  rw [← Bool.not_eq_true, isProtected_iff config mask hLess]
  unfold LeftOut
  simp only [not_or, not_not, and_assoc]

end Scan

section Cuts

def startOf (counts : List Int) (bucket : Nat) : Nat :=
  ((counts.take bucket).map Int.toNat).sum

theorem startOf_cons (count : Int) (counts : List Int) (bucket : Nat) :
    startOf (count :: counts) (bucket + 1) = count.toNat + startOf counts bucket := by
  simp [startOf]

variable {F : Type}

theorem getElem?_fillBucket_of_mem {bucketIdx i : Nat} {entries : List (Nat × F)} {ids : List Nat}
    (hMem : ∃ entry ∈ entries, entry.1 = i) (hi : i < ids.length) :
    (fillBucket bucketIdx entries ids)[i]? = some bucketIdx := by
  induction entries generalizing ids with
  | nil =>
    obtain ⟨entry, h, -⟩ := hMem
    cases h
  | cons entry rest ih =>
    change (fillBucket bucketIdx rest (ids.set entry.1 bucketIdx))[i]? = some bucketIdx
    by_cases hRest : ∃ e ∈ rest, e.1 = i
    · exact ih hRest (by rwa [length_set])
    · obtain ⟨e, hHere, rfl⟩ := hMem
      rcases mem_cons.mp hHere with rfl | hLater
      · rw [getElem?_fillBucket (fun e he hEq => hRest ⟨e, he, hEq⟩), getElem?_set_self hi]
      · exact absurd ⟨e, hLater, rfl⟩ hRest

theorem getElem?_assignBuckets {p k : Nat} {entry : Nat × F} (counts : List Int)
    (bucketIdx : Nat) (ranked : List (Nat × F)) (ids : List Nat)
    (hNodup : (ranked.map Prod.fst).Nodup) (hEntry : ranked[p]? = some entry)
    (hIds : entry.1 < ids.length) (hFrom : startOf counts k ≤ p)
    (hTo : p < startOf counts (k + 1)) :
    (assignBuckets bucketIdx counts ranked ids)[entry.1]? = some (bucketIdx + k) := by
  induction counts generalizing bucketIdx ranked ids p k with
  | nil => simp [startOf] at hTo
  | cons count counts ih =>
    have hSplit : ((ranked.take count.toNat).map Prod.fst ++
        (ranked.drop count.toNat).map Prod.fst).Nodup := by
      rw [← map_append, take_append_drop]
      exact hNodup
    change (assignBuckets (bucketIdx + 1) counts (ranked.drop count.toNat)
      (fillBucket bucketIdx (ranked.take count.toNat) ids))[entry.1]? = _
    cases k with
    | zero =>
      have hHere : p < count.toNat := by simpa [startOf] using hTo
      have hTaken : entry ∈ ranked.take count.toNat := by
        refine mem_of_getElem? (i := p) ?_
        rw [getElem?_take_of_lt hHere, hEntry]
      have hNotLater : ∀ e ∈ ranked.drop count.toNat, e.1 ≠ entry.1 := by
        intro e he hEq
        exact (nodup_append.mp hSplit).2.2 _ (mem_map_of_mem hTaken) _ (mem_map_of_mem he) hEq.symm
      rw [(assignBuckets_spec _ _ _ _).2.1 _ hNotLater]
      exact getElem?_fillBucket_of_mem ⟨entry, hTaken, rfl⟩ hIds
    | succ k =>
      rw [startOf_cons] at hFrom hTo
      have hLater := ih (p := p - count.toNat) (k := k) (bucketIdx + 1)
        (ranked.drop count.toNat) (fillBucket bucketIdx (ranked.take count.toNat) ids)
        (nodup_append.mp hSplit).2.1
        (by rw [getElem?_drop, Nat.add_sub_cancel' (by omega), hEntry])
        (by rwa [length_fillBucket]) (by omega) (by omega)
      rw [hLater]
      congr 1
      omega

end Cuts

section Boundaries

variable {F : Type} [ExactFloat F]

/-- The rounded share of the first buckets; the last bucket ends with the ranking. -/
def shareEnd (ratios : List F) (remaining bucket : Nat) : Int :=
  if bucket = ratios.length then remaining
  else roundHalfEven (((ratios.take bucket).map ExactFloat.value).sum * remaining)

theorem shareEnd_zero {ratios : List F} (h : ratios ≠ []) (remaining : Nat) :
    shareEnd ratios remaining 0 = 0 := by
  have hLength : 0 ≠ ratios.length := fun hZero => h (length_eq_zero_iff.mp hZero.symm)
  rw [shareEnd, if_neg hLength]
  simpa using roundHalfEven_intCast 0

theorem shareEnd_mono {ratios : List F} (hRatios : ∀ r ∈ ratios, 0 ≤ ExactFloat.value r)
    (remaining : Nat) {bucket : Nat} (hBucket : bucket + 1 < ratios.length) :
    shareEnd ratios remaining bucket ≤ shareEnd ratios remaining (bucket + 1) := by
  rw [shareEnd, shareEnd, if_neg (by omega), if_neg (by omega)]
  refine roundHalfEven_mono (mul_le_mul_of_nonneg_right ?_ (Nat.cast_nonneg _))
  rw [take_succ_eq_append_getElem (by omega), map_append, sum_append]
  have hNext := hRatios _ (getElem_mem (l := ratios) (n := bucket) (by omega))
  simpa using hNext

theorem bucketCounts_spec {remaining : Nat} (rest : List F) {ratios past : List F}
    {cumulative : F} {counts : List Int} (hRatios : ratios = past ++ rest)
    (hFinite : ∀ r ∈ rest, IsFinite r) (hCumulative : IsFinite cumulative)
    (hValue : ExactFloat.value cumulative = (past.map ExactFloat.value).sum)
    (hLength : counts.length = ratios.length) :
    ∃ result, bucketCounts remaining (ratios.length - 1) past.length cumulative
        (shareEnd ratios remaining past.length) rest counts = .ok result ∧
      (∀ i < past.length, result[i]? = counts[i]?) ∧
      ∀ i, past.length ≤ i → i < ratios.length → result[i]? =
        some (max 0 (shareEnd ratios remaining (i + 1) - shareEnd ratios remaining i)) := by
  induction rest generalizing past cumulative counts with
  | nil =>
    refine ⟨counts, rfl, fun _ _ => rfl, ?_⟩
    intro i hPast hi
    rw [hRatios, append_nil] at hi
    omega
  | cons ratio rest ih =>
    have hSize : ratios.length = past.length + rest.length + 1 := by
      rw [hRatios, length_append, length_cons, add_assoc]
    obtain ⟨hSumFinite, hSumValue⟩ := add_spec cumulative ratio hCumulative
      (hFinite ratio (by simp))
    obtain ⟨hShareFinite, hShareValue⟩ :=
      mulInt_spec (PyFloat.add cumulative ratio) remaining hSumFinite
    have hSum : ((past ++ [ratio]).map ExactFloat.value).sum =
        ExactFloat.value (PyFloat.add cumulative ratio) := by
      rw [hSumValue, hValue]
      simp
    have hBoundary : bucketBoundary remaining (ratios.length - 1) past.length
        (PyFloat.add cumulative ratio) = .ok (shareEnd ratios remaining (past.length + 1)) := by
      have hTake : ratios.take (past.length + 1) = past ++ [ratio] := by
        rw [hRatios, take_append, take_of_length_le (by omega)]
        simp
      unfold bucketBoundary shareEnd
      by_cases hLast : past.length = ratios.length - 1
      · rw [if_pos hLast, if_pos (by omega)]
      · rw [if_neg hLast, if_neg (by omega), ExactFloat.round_eq _ hShareFinite, hShareValue,
          hTake, hSum]
        rfl
    obtain ⟨result, hResult, hKept, hNew⟩ := @ih (past ++ [ratio])
      (PyFloat.add cumulative ratio)
      (counts.set past.length (max 0 (shareEnd ratios remaining (past.length + 1) -
        shareEnd ratios remaining past.length)))
      (by rw [hRatios, append_assoc, singleton_append])
      (fun r hr => hFinite r (by simp [hr])) hSumFinite hSum.symm
      (by rw [length_set, hLength])
    rw [length_append, length_singleton] at hResult hKept hNew
    refine ⟨result, ?_, ?_, ?_⟩
    · rw [bucketCounts, hBoundary]
      change (raiseIf .indexError (decide (counts.length ≤ past.length)) _ >>= _) = _
      rw [decide_eq_false (by omega), raiseIf_false]
      exact hResult
    · intro i hi
      rw [hKept i (by omega), getElem?_set_ne (by omega)]
    · intro i hFrom hTo
      rcases Nat.eq_or_lt_of_le hFrom with rfl | hLater
      · rw [hKept _ (by omega), getElem?_set_self (by omega)]
      · exact hNew i hLater hTo

/-- The place at which a bucket starts, within the ranking. -/
def cutoff (ratios : List F) (remaining bucket : Nat) : Int :=
  min remaining (shareEnd ratios remaining bucket)

/-- The counts that the loop over the ratios leaves. -/
def CountsOf (ratios : List F) (remaining : Nat) (counts : List Int) : Prop :=
  ∀ i < ratios.length, counts[i]? =
    some (max 0 (shareEnd ratios remaining (i + 1) - shareEnd ratios remaining i))

omit [ExactFloat F] in
theorem startOf_succ {counts : List Int} {bucket : Nat} {count : Int}
    (h : counts[bucket]? = some count) :
    startOf counts (bucket + 1) = startOf counts bucket + count.toNat := by
  unfold startOf
  rw [take_add_one, h, Option.toList_some, map_append, sum_append]
  simp

theorem startOf_eq {ratios : List F} {remaining : Nat} {counts : List Int}
    (hCounts : CountsOf ratios remaining counts)
    (hRatios : ∀ r ∈ ratios, 0 ≤ ExactFloat.value r) {bucket : Nat}
    (hBucket : bucket < ratios.length) :
    (startOf counts bucket : Int) = shareEnd ratios remaining bucket := by
  induction bucket with
  | zero =>
    rw [shareEnd_zero (ne_nil_of_length_pos hBucket)]
    rfl
  | succ bucket ih =>
    have hMono := shareEnd_mono hRatios remaining hBucket
    rw [startOf_succ (hCounts bucket (by omega)), Nat.cast_add, ih (by omega)]
    omega

theorem min_startOf {ratios : List F} {remaining : Nat} {counts : List Int}
    (hCounts : CountsOf ratios remaining counts)
    (hRatios : ∀ r ∈ ratios, 0 ≤ ExactFloat.value r) (hSome : ratios ≠ []) {bucket : Nat}
    (hBucket : bucket ≤ ratios.length) :
    (min remaining (startOf counts bucket) : Int) = cutoff ratios remaining bucket := by
  rcases Nat.eq_or_lt_of_le hBucket with rfl | hLess
  · -- the last bucket takes what the boundary before it leaves
    obtain ⟨last, hLast⟩ : ∃ last, ratios.length = last + 1 :=
      Nat.exists_eq_add_one_of_ne_zero fun h => hSome (length_eq_zero_iff.mp h)
    have hEnd : shareEnd ratios remaining (last + 1) = remaining := by
      rw [shareEnd, if_pos hLast.symm]
    have hBefore : (startOf counts last : Int) = shareEnd ratios remaining last :=
      startOf_eq hCounts hRatios (by omega)
    have hNext := startOf_succ (hCounts last (by omega))
    rw [cutoff, hLast, hNext, hEnd]
    omega
  · rw [startOf_eq hCounts hRatios hLess, cutoff]

end Boundaries

section Ranking

variable {F : Type} [ExactFloat F]

/-- Entries are sorted by their value and then by their index. -/
def sortKey (entry : Nat × F) : ℚ ×ₗ Nat := toLex (ExactFloat.value entry.2, entry.1)

theorem rankLe_iff {a b : Nat × F} (ha : IsFinite a.2) (hb : IsFinite b.2) :
    rankLe a b = true ↔ sortKey a ≤ sortKey b := by
  have hSame := equals_iff ha hb
  have hLess := lt_iff a.2 b.2 ha hb
  unfold rankLe sortKey
  rw [Prod.Lex.toLex_le_toLex]
  by_cases hEq : ExactFloat.value a.2 = ExactFloat.value b.2
  · rw [if_pos (hSame.mpr hEq)]
    simp [hEq]
  · rw [if_neg (fun h => hEq (hSame.mp h)), hLess]
    simp [hEq]

theorem pairwise_sorted {entries : List (Nat × F)} (hFinite : ∀ e ∈ entries, IsFinite e.2) :
    (entries.insertionSort fun a b => rankLe a b = true).Pairwise
      fun a b => sortKey a ≤ sortKey b := by
  rw [← pairwise_map (f := sortKey) (R := (· ≤ ·)),
    map_insertionSort (fun a b => rankLe a b = true) (· ≤ ·) sortKey entries
      fun a ha b hb => rankLe_iff (hFinite a ha) (hFinite b hb)]
  exact pairwise_insertionSort _ _

theorem exists_cut {f : Nat → Nat} {p n : Nat} (hFrom : f 0 ≤ p) (hTo : p < f n) :
    ∃ k < n, f k ≤ p ∧ p < f (k + 1) := by
  induction n with
  | zero => omega
  | succ n ih =>
    by_cases hLast : f n ≤ p
    · exact ⟨n, by omega, hLast, hTo⟩
    · obtain ⟨k, hk, hCut⟩ := ih (by omega)
      exact ⟨k, by omega, hCut⟩

theorem startOf_mono (counts : List Int) {j k : Nat} (h : j ≤ k) :
    startOf counts j ≤ startOf counts k := by
  unfold startOf
  exact ((take_sublist_take_left h).map Int.toNat).sum_le_sum fun _ _ => Nat.zero_le _

theorem countP_between {α : Type} {q : α → Bool} {lo hi : Nat} (l : List α) (hLo : lo ≤ hi)
    (hHi : hi ≤ l.length) (h : ∀ p e, l[p]? = some e → (q e = true ↔ lo ≤ p ∧ p < hi)) :
    l.countP q = hi - lo := by
  induction l generalizing lo hi with
  | nil =>
    have hZero : hi = 0 := Nat.le_zero.mp hHi
    rw [countP_nil, hZero, Nat.zero_sub]
  | cons e l ih =>
    rw [length_cons] at hHi
    have hRest := @ih (lo - 1) (hi - 1) (by omega) (by omega)
      fun p e' he => (h (p + 1) e' he).trans (by omega)
    have hFirst := h 0 e rfl
    rw [countP_cons, hRest]
    split_ifs with hHere
    · have := hFirst.mp hHere
      omega
    · rw [hFirst] at hHere
      omega

/-- The ids of a ranking, by what they mean: the tokens with a place are cut into buckets by
falling score, and the others stay in bucket zero. -/
structure RankedByScore (scores : List F) (config : MaKVConfig F) (mask : Option (List Bool))
    (ids : List Nat) : Prop where
  length : ids.length = scores.length
  bound : ∀ id ∈ ids, id < config.bucketBits.length
  kept : ∀ token, scores[token.2]? = some token.1 →
    LeftOut config mask scores.length token → ids[token.2]? = some 0
  remaining : ∀ token, token ∈ rankedTokens config mask scores ↔
    scores[token.2]? = some token.1 ∧ ¬ LeftOut config mask scores.length token
  order : ∀ a ∈ rankedTokens config mask scores, ∀ b ∈ rankedTokens config mask scores,
    (ExactFloat.value b.1 < ExactFloat.value a.1 ∨
      (ExactFloat.value b.1 = ExactFloat.value a.1 ∧ a.2 ≤ b.2)) →
    ∃ x y, ids[a.2]? = some x ∧ ids[b.2]? = some y ∧ x ≤ y
  counts : ∀ bucket < config.bucketBits.length,
    ((rankedTokens config mask scores).countP fun token => ids[token.2]? = some bucket : Int) =
      cutoff config.bucketRatios (rankedTokens config mask scores).length (bucket + 1) -
        cutoff config.bucketRatios (rankedTokens config mask scores).length bucket

structure RankConfig (config : MaKVConfig F) : Prop where
  same : config.bucketRatios.length = config.bucketBits.length
  some : config.bucketRatios ≠ []
  finite : ∀ r ∈ config.bucketRatios, IsFinite r
  nonneg : ∀ r ∈ config.bucketRatios, 0 ≤ ExactFloat.value r

theorem zero_spec : IsFinite (decimal 0 ['0'] : F) ∧
    ExactFloat.value (decimal 0 ['0'] : F) = 0 := by
  obtain ⟨x, rfl, hFinite, hValue⟩ := ExactFloat.zero (F := F)
  exact ⟨hFinite, hValue⟩

theorem rankConfig_of_validateBuckets {config : MaKVConfig F} {scheme : PrecisionScheme}
    (h : validateBuckets scheme config.bucketRatios config.bucketBits = .ok ())
    (hFinite : ∀ r ∈ config.bucketRatios, IsFinite r) : RankConfig config := by
  obtain ⟨_, hSame, h⟩ := bind_eq_ok.mp h
  obtain ⟨_, hSome, h⟩ := bind_eq_ok.mp h
  obtain ⟨_, hNonneg, -⟩ := bind_eq_ok.mp h
  rw [rejectIf_eq_ok] at hSame hSome hNonneg
  refine ⟨by simpa using hSame, by simpa using hSome, hFinite, ?_⟩
  intro r hr
  obtain ⟨hZero, hValue⟩ := zero_spec (F := F)
  have hNot : ¬ PyFloat.lt r (decimal 0 ['0']) = true := any_eq_false.mp hNonneg r hr
  rw [lt_iff _ _ (hFinite r hr) hZero, hValue] at hNot
  exact not_lt.mp hNot

theorem bucketCounts_config {config : MaKVConfig F} (hConfig : RankConfig config)
    (remaining : Nat) :
    ∃ counts, bucketCounts remaining (config.bucketRatios.length - 1) 0 (decimal 0 ['0']) 0
        config.bucketRatios (List.replicate config.bucketBits.length 0) = .ok counts ∧
      CountsOf config.bucketRatios remaining counts := by
  obtain ⟨hZero, hValue⟩ := zero_spec (F := F)
  obtain ⟨counts, hCounts, -, hEach⟩ := @bucketCounts_spec F _ remaining config.bucketRatios
    config.bucketRatios [] (decimal 0 ['0']) (List.replicate config.bucketBits.length 0) rfl
    hConfig.finite hZero hValue (by rw [length_replicate, hConfig.same])
  rw [length_nil, shareEnd_zero hConfig.some] at hCounts
  exact ⟨counts, hCounts, fun i hi => hEach i (Nat.zero_le _) hi⟩

/-- The sorted ranking and the counts of the buckets, as the loops leave them. -/
structure Sorted (scores : List F) (config : MaKVConfig F) (mask : Option (List Bool))
    (ranked : List (Nat × F)) (counts : List Int) : Prop where
  perm : ranked.Perm ((rankedTokens config mask scores).map sortEntry)
  sorted : ranked.Pairwise fun a b => sortKey a ≤ sortKey b
  counts : CountsOf config.bucketRatios ranked.length counts

theorem rankToBucketIds_sorted {scores : List F} {config : MaKVConfig F}
    {mask : Option (List Bool)} (hMask : ∀ m, mask = some m → m.length = scores.length)
    (hConfig : RankConfig config) :
    ∃ ranked counts nans infs, Sorted scores config mask ranked counts ∧
      rankToBucketIds scores config mask =
        .ok (assignBuckets 0 counts ranked (List.replicate scores.length 0), nans, infs) := by
  have hSortable := sortable_scanScores config mask scores.length scores 0
  change _ = (rankedTokens config mask scores).map sortEntry at hSortable
  have hFinite : ∀ e ∈ (rankedTokens config mask scores).map sortEntry, IsFinite e.2 := by
    intro e he
    obtain ⟨token, hToken, rfl⟩ := mem_map.mp he
    exact (neg_spec _ (mem_rankedTokens.mp hToken).2.2).1
  obtain ⟨counts, hCounts, hEach⟩ := bucketCounts_config hConfig
    (((rankedTokens config mask scores).map sortEntry).insertionSort
      fun a b => rankLe a b = true).length
  refine ⟨_, counts, (scanScores config mask scores.length 0 scores).nanProtected,
    (scanScores config mask scores.length 0 scores).infProtected,
    ⟨perm_insertionSort _ _, pairwise_sorted hFinite, hEach⟩, ?_⟩
  have hAccepted : (mask.any fun m => decide (m.length ≠ scores.length)) = false := by
    cases mask with
    | none => rfl
    | some m => simp [hMask m rfl]
  unfold rankToBucketIds
  dsimp only
  rw [hAccepted, rejectIf_false, hSortable]
  change (bucketCounts _ _ _ _ _ _ _ >>= _) = _
  rw [hCounts]
  rfl

namespace Sorted

variable {scores : List F} {config : MaKVConfig F} {mask : Option (List Bool)}
  {ranked : List (Nat × F)} {counts : List Int}

theorem length (h : Sorted scores config mask ranked counts) :
    ranked.length = (rankedTokens config mask scores).length := by
  rw [h.perm.length_eq, length_map]

theorem nodup (h : Sorted scores config mask ranked counts) : (ranked.map Prod.fst).Nodup := by
  have hSame : ((rankedTokens config mask scores).map sortEntry).map Prod.fst =
      (rankedTokens config mask scores).map Prod.snd := by
    rw [map_map]
    rfl
  rw [(h.perm.map Prod.fst).nodup_iff, hSame]
  exact nodup_rankedTokens config mask scores

theorem exists_place (h : Sorted scores config mask ranked counts) {token : F × Nat}
    (hToken : token ∈ rankedTokens config mask scores) :
    ∃ p : Nat, ranked[p]? = some (sortEntry token) :=
  mem_iff_getElem?.mp (h.perm.mem_iff.mpr (mem_map_of_mem hToken))

theorem exists_bucket (h : Sorted scores config mask ranked counts) (hConfig : RankConfig config)
    {p : Nat} {entry : Nat × F} (hEntry : ranked[p]? = some entry) :
    ∃ k < config.bucketBits.length, startOf counts k ≤ p ∧ p < startOf counts (k + 1) ∧
      (assignBuckets 0 counts ranked (List.replicate scores.length 0))[entry.1]? = some k := by
  obtain ⟨hLess, -⟩ := List.getElem?_eq_some_iff.mp hEntry
  have hAll := min_startOf h.counts hConfig.nonneg hConfig.some (le_refl _)
  have hEnd : p < startOf counts config.bucketBits.length := by
    rw [cutoff, shareEnd, if_pos rfl, hConfig.same] at hAll
    omega
  obtain ⟨k, hk, hFrom, hTo⟩ := exists_cut (f := startOf counts) (Nat.zero_le p) hEnd
  obtain ⟨token, hToken, hSame⟩ := mem_map.mp (h.perm.mem_iff.mp (mem_of_getElem? hEntry))
  have hIds : entry.1 < (List.replicate scores.length 0).length := by
    rw [length_replicate, ← hSame]
    exact (List.getElem?_eq_some_iff.mp (mem_rankedTokens.mp hToken).1).1
  have hGet := getElem?_assignBuckets counts 0 ranked _ h.nodup hEntry hIds hFrom hTo
  rw [Nat.zero_add] at hGet
  exact ⟨k, hk, hFrom, hTo, hGet⟩

theorem place_le (h : Sorted scores config mask ranked counts) {p q : Nat} {a b : Nat × F}
    (ha : ranked[p]? = some a) (hb : ranked[q]? = some b) (hKey : sortKey a ≤ sortKey b) :
    p ≤ q := by
  by_contra hLater
  obtain ⟨hp, rfl⟩ := List.getElem?_eq_some_iff.mp ha
  obtain ⟨hq, rfl⟩ := List.getElem?_eq_some_iff.mp hb
  have hBack := pairwise_iff_getElem.mp h.sorted q p hq hp (by omega)
  have hIndex : ranked[p].1 = ranked[q].1 :=
    congrArg (fun key => (ofLex key).2) (le_antisymm hKey hBack)
  have hEntries : (ranked.map Prod.fst)[p]? = (ranked.map Prod.fst)[q]? := by
    rw [getElem?_map, getElem?_map, ha, hb, Option.map_some, Option.map_some, hIndex]
  have hSame : p = q :=
    (getElem?_inj (by rwa [length_map]) h.nodup).mp hEntries
  omega

theorem order (h : Sorted scores config mask ranked counts) (hConfig : RankConfig config)
    {a b : F × Nat} (ha : a ∈ rankedTokens config mask scores)
    (hb : b ∈ rankedTokens config mask scores)
    (hBefore : ExactFloat.value b.1 < ExactFloat.value a.1 ∨
      (ExactFloat.value b.1 = ExactFloat.value a.1 ∧ a.2 ≤ b.2)) :
    ∃ x y, (assignBuckets 0 counts ranked (List.replicate scores.length 0))[a.2]? = some x ∧
      (assignBuckets 0 counts ranked (List.replicate scores.length 0))[b.2]? = some y ∧
      x ≤ y := by
  obtain ⟨p, hp⟩ := h.exists_place ha
  obtain ⟨q, hq⟩ := h.exists_place hb
  have hKey : sortKey (sortEntry a) ≤ sortKey (sortEntry b) := by
    unfold sortKey sortEntry
    rw [Prod.Lex.toLex_le_toLex, (neg_spec _ (mem_rankedTokens.mp ha).2.2).2,
      (neg_spec _ (mem_rankedTokens.mp hb).2.2).2]
    rcases hBefore with hHigher | ⟨hTie, hIndex⟩
    · exact Or.inl (neg_lt_neg hHigher)
    · exact Or.inr ⟨by rw [hTie], hIndex⟩
  have hPlace := h.place_le hp hq hKey
  obtain ⟨x, -, hFrom, -, hx⟩ := h.exists_bucket hConfig hp
  obtain ⟨y, -, -, hTo, hy⟩ := h.exists_bucket hConfig hq
  refine ⟨x, y, hx, hy, ?_⟩
  by_contra hMore
  have hMono := startOf_mono counts (j := y + 1) (k := x) (by omega)
  omega

theorem count (h : Sorted scores config mask ranked counts) (hConfig : RankConfig config)
    {bucket : Nat} (hBucket : bucket < config.bucketBits.length) :
    ((rankedTokens config mask scores).countP fun token =>
        (assignBuckets 0 counts ranked (List.replicate scores.length 0))[token.2]? =
          some bucket : Int) =
      cutoff config.bucketRatios (rankedTokens config mask scores).length (bucket + 1) -
        cutoff config.bucketRatios (rankedTokens config mask scores).length bucket := by
  have hCount : (rankedTokens config mask scores).countP (fun token =>
      (assignBuckets 0 counts ranked (List.replicate scores.length 0))[token.2]? = some bucket) =
      ranked.countP fun entry =>
        (assignBuckets 0 counts ranked (List.replicate scores.length 0))[entry.1]? =
          some bucket := by
    rw [h.perm.countP_eq, countP_map]
    rfl
  have hMono := startOf_mono counts (j := bucket) (k := bucket + 1) (by omega)
  rw [hCount, @countP_between _ _ (min ranked.length (startOf counts bucket))
    (min ranked.length (startOf counts (bucket + 1))) ranked (by omega) (by omega), ← h.length]
  · have hRatios : bucket < config.bucketRatios.length := by rwa [hConfig.same]
    have hFrom := min_startOf h.counts hConfig.nonneg hConfig.some hRatios.le
    have hTo : (min ranked.length (startOf counts (bucket + 1)) : Int) = _ :=
      min_startOf h.counts hConfig.nonneg hConfig.some hRatios
    omega
  · intro p entry hEntry
    obtain ⟨hLess, -⟩ := List.getElem?_eq_some_iff.mp hEntry
    obtain ⟨k, -, hFrom, hTo, hGet⟩ := h.exists_bucket hConfig hEntry
    rw [hGet, decide_eq_true_eq, Option.some.injEq]
    constructor
    · rintro rfl
      omega
    · intro hCut
      rcases Nat.lt_trichotomy k bucket with hBelow | hSame | hAbove
      · have := startOf_mono counts (j := k + 1) (k := bucket) (by omega)
        omega
      · exact hSame
      · have := startOf_mono counts (j := bucket + 1) (k := k) (by omega)
        omega

end Sorted

/-- Every score list is ranked: each token gets one bucket, the tokens with no place bucket
zero, and the others are cut by falling score at the rounded sums of the ratios. -/
theorem rank_to_bucket_ids_cuts_by_score {scores : List F} {config : MaKVConfig F}
    {mask : Option (List Bool)} {scheme : PrecisionScheme}
    (hMask : ∀ m, mask = some m → m.length = scores.length)
    (hValid : validateBuckets scheme config.bucketRatios config.bucketBits = .ok ())
    (hFinite : ∀ r ∈ config.bucketRatios, IsFinite r) :
    ∃ ids nans infs, rankToBucketIds scores config mask = .ok (ids, nans, infs) ∧
      RankedByScore scores config mask ids := by
  have hConfig := rankConfig_of_validateBuckets hValid hFinite
  obtain ⟨ranked, counts, nans, infs, hSorted, hResult⟩ := rankToBucketIds_sorted hMask hConfig
  have hRanked := rankToBucketIds_ranked hResult
  have hBuckets : 0 < config.bucketBits.length := by
    rw [← hConfig.same]
    exact List.length_pos_iff.mpr hConfig.some
  refine ⟨_, nans, infs, hResult, hRanked.length, ?_, ?_, ?_, ?_, ?_⟩
  · intro id hId
    rcases hRanked.bound id hId with hLess | rfl
    · exact hLess
    · exact hBuckets
  · intro token hToken hOut
    obtain ⟨hLess, -⟩ := List.getElem?_eq_some_iff.mp hToken
    rw [(assignBuckets_spec _ _ _ _).2.1, List.getElem?_replicate, if_pos hLess]
    intro entry hEntry hSame
    obtain ⟨other, hOther, rfl⟩ := List.mem_map.mp (hSorted.perm.mem_iff.mp hEntry)
    obtain ⟨hGet, hIn⟩ := mem_rankedTokens.mp hOther
    have hEq : other = token := by
      refine Prod.ext ?_ hSame
      rw [show other.2 = token.2 from hSame, hToken] at hGet
      exact (Option.some.inj hGet).symm
    rw [hEq] at hIn
    exact (isProtected_false_iff hToken).mp hIn hOut
  · intro token
    rw [mem_rankedTokens]
    exact and_congr_right isProtected_false_iff
  · intro a ha b hb hBefore
    exact hSorted.order hConfig ha hb hBefore
  · intro bucket hBucket
    exact hSorted.count hConfig hBucket

end Ranking

/-- Half of the tokens in each of two buckets, with one protected token at each end. -/
def halvesConfig : MaKVConfig Decimal where
  bucketRatios := [⟨500⟩, ⟨500⟩]
  bucketBits := [16, 4]
  importanceLayout := .token
  quantGranularity := "per_token_head"
  scaleDtype := .float16
  protectPrefixTokens := 1
  protectTailTokens := 1
  dequantBackend := .reference
  requireCudaDequant := false
  fallback := .miss
  enableChecksum := true
  allowScoutrankShadowPlan := false
  precisionScheme := .shared
  enableQdm := false
  qdmBlockSize := 32
  qdmQuantizerVersion := "1"
  entropyCodec := .none
  entropyBackend := .reference
  entropyRequireCuda := false
  residualDtype := .float16
  riskUpgradeThreshold := ⟨800⟩
  riskUpgradePolicy := .next
  riskWindowTokens := 0
  riskWindowTtlS := ⟨0⟩

theorem middle_tokens_halved :
    rankToBucketIds [⟨0⟩, ⟨1000⟩, ⟨0⟩, ⟨2000⟩, ⟨0⟩] halvesConfig
        (some [false, false, true, false, false]) = .ok ([0, 1, 0, 0, 0], 0, 0) ∧
      ∃ ids nans infs, rankToBucketIds [⟨0⟩, ⟨1000⟩, ⟨0⟩, ⟨2000⟩, ⟨0⟩] halvesConfig
        (some [false, false, true, false, false]) = .ok (ids, nans, infs) ∧
        RankedByScore [⟨0⟩, ⟨1000⟩, ⟨0⟩, ⟨2000⟩, ⟨0⟩] halvesConfig
          (some [false, false, true, false, false]) ids := by
  refine ⟨rfl, @rank_to_bucket_ids_cuts_by_score Decimal _ _ _ _ .shared ?_ rfl ?_⟩
  · rintro m ⟨rfl⟩
    rfl
  · intro r _
    exact ⟨rfl, rfl⟩

end LMCache.MaKV
