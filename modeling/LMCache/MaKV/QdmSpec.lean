import LMCache.MaKV.PlanSpec
import LMCache.MaKV.Qdm

/-!
# What the drift meter reports of a block

Both ways to a table give the greatest norm over a set of tokens. The observer takes the
tokens that lie in the block; the reference witness cuts a block off at its own start plus the
block size, which is too late for a first block that starts in its middle.
-/

namespace LMCache.MaKV

open Lib List

variable {N : Type} [LinearOrder N]

def entryAt (table : List (List N)) (i head : Nat) : Option N := table[i]?.bind (·[head]?)

theorem isGreatest_insert_max {x y : N} {S : Set N} {z : N}
    (h : IsGreatest (insert (max x y) S) z) : IsGreatest (insert x (insert y S)) z := by
  obtain ⟨hMem, hUpper⟩ := h
  refine ⟨?_, ?_⟩
  · rcases hMem with rfl | hMem
    · rcases max_choice x y with hMax | hMax
      · exact Or.inl hMax
      · exact Or.inr (Or.inl hMax)
    · exact Or.inr (Or.inr hMem)
  · rintro w (rfl | rfl | hw)
    · exact (le_max_left _ _).trans (hUpper (Or.inl rfl))
    · exact (le_max_right _ _).trans (hUpper (Or.inl rfl))
    · exact hUpper (Or.inr hw)

theorem isGreatest_of_insert_bot [OrderBot N] {S : Set N} {z : N} (h : IsGreatest (insert ⊥ S) z)
    (hSome : S.Nonempty) : IsGreatest S z := by
  obtain ⟨hMem, hUpper⟩ := h
  refine ⟨?_, fun w hw => hUpper (Or.inr hw)⟩
  rcases hMem with rfl | hMem
  · obtain ⟨w, hw⟩ := hSome
    rwa [← le_bot_iff.mp (hUpper (Or.inr hw))]
  · exact hMem

theorem foldl_zipWith_max {heads head : Nat} (hHead : head < heads) (rest : List (List N))
    {row : List N} (hRow : row.length = heads) (hRest : ∀ r ∈ rest, r.length = heads) :
    ∃ x, (rest.foldl (zipWith max) row)[head]? = some x ∧
      IsGreatest {x | ∃ r ∈ row :: rest, r[head]? = some x} x := by
  induction rest generalizing row with
  | nil =>
    have hAt : row[head]? = some row[head] := getElem?_eq_getElem (by omega)
    refine ⟨row[head], hAt, ⟨row, by simp, hAt⟩, ?_⟩
    rintro y ⟨r, hr, hy⟩
    rw [mem_singleton.mp hr, hAt] at hy
    exact (Option.some.inj hy).ge
  | cons next rest ih =>
    have hNext : next.length = heads := hRest next (by simp)
    obtain ⟨x, hx, hMem, hUpper⟩ := @ih (zipWith max row next)
      (by rw [length_zipWith, hRow, hNext, min_self]) fun r hr => hRest r (by simp [hr])
    have hRowAt : row[head]? = some row[head] := getElem?_eq_getElem (by omega)
    have hNextAt : next[head]? = some next[head] := getElem?_eq_getElem (by omega)
    have hZip : (zipWith max row next)[head]? = some (max row[head] next[head]) := by
      rw [getElem?_zipWith, hRowAt, hNextAt]
    refine ⟨x, hx, ?_, ?_⟩
    · obtain ⟨r, hr, hAt⟩ := hMem
      rcases mem_cons.mp hr with rfl | hr
      · rw [hZip] at hAt
        rcases max_choice row[head] next[head] with hMax | hMax
        · exact ⟨row, by simp, by rw [hRowAt, ← hAt, hMax]⟩
        · exact ⟨next, by simp, by rw [hNextAt, ← hAt, hMax]⟩
      · exact ⟨r, by simp [hr], hAt⟩
    · have hMax := hUpper ⟨zipWith max row next, by simp, hZip⟩
      rintro y ⟨r, hr, hAt⟩
      rcases mem_cons.mp hr with rfl | hr
      · rw [hRowAt] at hAt
        exact (Option.some.inj hAt) ▸ (le_max_left _ _).trans hMax
      · rcases mem_cons.mp hr with rfl | hr
        · rw [hNextAt] at hAt
          exact (Option.some.inj hAt) ▸ (le_max_right _ _).trans hMax
        · exact hUpper ⟨r, by simp [hr], hAt⟩

theorem amax_spec {heads : Nat} {rows : List (List N)} (hSome : rows ≠ [])
    (hRows : ∀ r ∈ rows, r.length = heads) :
    ∃ result, amax rows = .ok result ∧ ∀ head < heads, ∃ x, result[head]? = some x ∧
      IsGreatest {x | ∃ r ∈ rows, r[head]? = some x} x := by
  cases rows with
  | nil => exact absurd rfl hSome
  | cons row rest =>
    exact ⟨_, rfl, fun head hHead => foldl_zipWith_max hHead rest (hRows row (by simp))
      fun r hr => hRows r (by simp [hr])⟩

def blockNorms (tokenStart blockSize : Int) (tokens block : Nat) (f : Nat → N) : Set N :=
  {x | ∃ t < tokens, tokenBlock tokenStart blockSize t = block ∧ f t = x}

/-- The first place of the request that the reference witness takes for a block. -/
def cutStart (tokenStart blockSize : Int) (block : Nat) : Int :=
  max tokenStart ((tokenStart / blockSize + block) * blockSize)

section Cuts

variable {tokenStart blockSize : Int} {tokens block : Nat}

theorem tokenBlock_eq_iff (hSize : 0 < blockSize) (t : Nat) :
    tokenBlock tokenStart blockSize t = block ↔
      (tokenStart / blockSize + block) * blockSize ≤ t + tokenStart ∧
        t + tokenStart < (tokenStart / blockSize + block) * blockSize + blockSize := by
  have hLower := Int.le_ediv_iff_mul_le (a := tokenStart / blockSize + block)
    (b := t + tokenStart) hSize
  have hUpper := Int.ediv_lt_iff_lt_mul (a := t + tokenStart)
    (b := tokenStart / blockSize + block + 1) hSize
  rw [add_mul, one_mul] at hUpper
  unfold tokenBlock
  rw [← hLower, ← hUpper]
  omega

theorem touched_iff (hSize : 0 < blockSize) :
    block < touchedBlocks tokenStart tokens blockSize ↔
      (tokenStart / blockSize + block) * blockSize < tokenStart + tokens := by
  have hNext := Int.le_ediv_iff_mul_le (a := tokenStart / blockSize + block + 1)
    (b := tokenStart + tokens + blockSize - 1) hSize
  rw [add_mul, one_mul] at hNext
  unfold touchedBlocks
  rw [Int.lt_toNat]
  constructor
  · intro h
    have := hNext.mp (by omega)
    omega
  · intro h
    have := hNext.mpr (by omega)
    omega

theorem start_lt_end (hSize : 0 < blockSize) :
    tokenStart < (tokenStart / blockSize + block) * blockSize + blockSize := by
  have hFloor := Int.lt_ediv_add_one_mul_self tokenStart hSize
  have hMore : 0 ≤ (block : Int) * blockSize := by positivity
  rw [add_mul, one_mul] at hFloor
  rw [add_mul]
  omega

theorem block_start_cases (hSize : 0 < blockSize) :
    (block = 0 ∧ (tokenStart / blockSize + block) * blockSize =
        tokenStart - tokenStart % blockSize) ∨
      tokenStart ≤ (tokenStart / blockSize + block) * blockSize := by
  have hSplit := Int.mul_ediv_add_emod tokenStart blockSize
  rcases Nat.eq_zero_or_pos block with rfl | hLater
  · refine Or.inl ⟨rfl, ?_⟩
    rw [Nat.cast_zero, add_zero, mul_comm]
    omega
  · refine Or.inr ?_
    have hFloor := Int.lt_ediv_add_one_mul_self tokenStart hSize
    have hMore : 1 * blockSize ≤ (block : Int) * blockSize :=
      mul_le_mul_of_nonneg_right (by omega) hSize.le
    rw [add_mul, one_mul] at hFloor
    rw [add_mul]
    omega

theorem exists_token_of_touched (hTokens : 0 < tokens) (hSize : 0 < blockSize)
    (hBlock : block < touchedBlocks tokenStart tokens blockSize) :
    ∃ t < tokens, tokenBlock tokenStart blockSize t = block := by
  have hStart := (touched_iff hSize).mp hBlock
  have hEnd := @start_lt_end tokenStart blockSize block hSize
  refine ⟨((tokenStart / blockSize + block) * blockSize - tokenStart).toNat, by omega, ?_⟩
  rw [tokenBlock_eq_iff hSize]
  omega

/-- The chunk starts with a block or lies in one. -/
def StartsOrFits (tokenStart blockSize : Int) (tokens : Nat) : Prop :=
  tokenStart % blockSize = 0 ∨ tokenStart % blockSize + tokens ≤ blockSize

theorem cut_iff (hSize : 0 < blockSize) (hFits : StartsOrFits tokenStart blockSize tokens)
    {t : Nat} (ht : t < tokens) :
    (cutStart tokenStart blockSize block ≤ tokenStart + t ∧
        tokenStart + t < cutStart tokenStart blockSize block + blockSize) ↔
      tokenBlock tokenStart blockSize t = block := by
  rw [tokenBlock_eq_iff hSize]
  have hMod := Int.emod_nonneg tokenStart hSize.ne'
  have hCases := @block_start_cases tokenStart blockSize block hSize
  unfold cutStart
  unfold StartsOrFits at hFits
  generalize (tokenStart / blockSize + block) * blockSize = start at *
  rcases hCases with ⟨-, hFirst⟩ | hLater
  · rcases hFits with hAligned | hInside <;> omega
  · omega

end Cuts

section Reference

variable {tokenStart blockSize : Int} {tokens heads block : Nat} {f : Nat → Nat → N}

omit [LinearOrder N] in
theorem mem_slice_tokenTable {start stop : Int} (hStart : 0 ≤ start) (hStop : stop ≤ tokens)
    {row : List N} :
    row ∈ pySlice (tokenTable tokens heads f) start stop ↔
      ∃ t : Nat, start ≤ t ∧ (t : Int) < stop ∧ (range heads).map (f t) = row := by
  have hMem : ∀ t, t ∈ pySlice (range tokens) start stop ↔ start ≤ t ∧ (t : Int) < stop := by
    intro t
    rw [pySlice, take_range, range_eq_range', drop_range', mem_range'_1]
    omega
  rw [tokenTable, pySlice_map, mem_map]
  simp only [hMem, and_assoc]

/-- The norms of the tokens that the reference witness takes for a block. -/
def cutNorms (tokenStart blockSize : Int) (tokens block : Nat) (f : Nat → N) : Set N :=
  {x | ∃ t < tokens, (cutStart tokenStart blockSize block ≤ tokenStart + t ∧
    tokenStart + t < cutStart tokenStart blockSize block + blockSize) ∧ f t = x}

theorem amax_slice {start stop : Int} (hStart : 0 ≤ start) (hSome : start < stop)
    (hStop : stop ≤ tokens) :
    ∃ row, amax (pySlice (tokenTable tokens heads f) start stop) = .ok row ∧
      ∀ head < heads, ∃ x, row[head]? = some x ∧
        IsGreatest {x | ∃ t : Nat, start ≤ t ∧ (t : Int) < stop ∧ f t head = x} x := by
  have hMem : ∀ row, row ∈ pySlice (tokenTable tokens heads f) start stop ↔
      ∃ t : Nat, start ≤ t ∧ (t : Int) < stop ∧ (range heads).map (f t) = row :=
    fun row => mem_slice_tokenTable hStart hStop
  have hFirst := (hMem ((range heads).map (f start.toNat))).mpr
    ⟨start.toNat, by omega, by omega, rfl⟩
  have hRows : ∀ r ∈ pySlice (tokenTable tokens heads f) start stop, r.length = heads := by
    intro r hr
    obtain ⟨t, -, -, rfl⟩ := (hMem r).mp hr
    rw [length_map, length_range]
  obtain ⟨row, hRow, hAll⟩ := amax_spec (ne_nil_of_mem hFirst) hRows
  refine ⟨row, hRow, fun head hHead => ?_⟩
  obtain ⟨x, hx, hGreatest⟩ := hAll head hHead
  have hAt : ∀ t, ((range heads).map (f t))[head]? = some (f t head) := by
    intro t
    rw [getElem?_map, getElem?_range hHead, Option.map_some]
  have hSame : {x | ∃ r ∈ pySlice (tokenTable tokens heads f) start stop, r[head]? = some x} =
      {x | ∃ t : Nat, start ≤ t ∧ (t : Int) < stop ∧ f t head = x} := by
    ext y
    constructor
    · rintro ⟨r, hr, hy⟩
      obtain ⟨t, hFrom, hTo, rfl⟩ := (hMem r).mp hr
      rw [hAt] at hy
      exact ⟨t, hFrom, hTo, Option.some.inj hy⟩
    · rintro ⟨t, hFrom, hTo, rfl⟩
      exact ⟨_, (hMem _).mpr ⟨t, hFrom, hTo, rfl⟩, hAt t⟩
  exact ⟨x, hx, hSame ▸ hGreatest⟩

theorem witnessRow_spec (hSize : 0 < blockSize) (hTokens : 0 < tokens)
    (hBlock : block < touchedBlocks tokenStart tokens blockSize) :
    ∃ row, witnessRow tokenStart tokens blockSize (tokenStart / blockSize)
        (tokenTable tokens heads f) block = .ok row ∧
      ∀ head < heads, ∃ x, row[head]? = some x ∧
        IsGreatest (cutNorms tokenStart blockSize tokens block fun t => f t head) x := by
  have hLower : tokenStart ≤ cutStart tokenStart blockSize block := le_max_left _ _
  have hUpper : cutStart tokenStart blockSize block < tokenStart + tokens :=
    max_lt (by omega) ((touched_iff hSize).mp hBlock)
  obtain ⟨row, hRow, hAll⟩ := @amax_slice N _ tokens heads f
    (cutStart tokenStart blockSize block - tokenStart)
    (min (tokenStart + tokens) (cutStart tokenStart blockSize block + blockSize) - tokenStart)
    (by omega) (by omega) (by omega)
  refine ⟨row, hRow, fun head hHead => ?_⟩
  obtain ⟨x, hx, ⟨t, hFrom, hTo, hMax⟩, hGreatest⟩ := hAll head hHead
  refine ⟨x, hx, ⟨t, by omega, by omega, hMax⟩, ?_⟩
  rintro y ⟨u, hu, hCut, hy⟩
  exact hGreatest ⟨u, by omega, by omega, hy⟩

/-- A table of the greatest norms of given sets of tokens. -/
def IsTable (norms : Nat → (Nat → N) → Set N) (blocks heads : Nat) (f : Nat → Nat → N)
    (table : BlockTable N) : Prop :=
  ∀ block < blocks, ∀ head < heads, ∃ x, entryAt table block head = some x ∧
    IsGreatest (norms block fun t => f t head) x

/-- The tables of the errors of the keys and the values and of the norms of the values. -/
structure IsWitness (norms : Nat → (Nat → N) → Set N) (blocks heads : Nat)
    (k v n : Nat → Nat → N) (witness : QdmWitness N) : Prop where
  kError : IsTable norms blocks heads k witness.kError
  vError : IsTable norms blocks heads v witness.vError
  vNorm : IsTable norms blocks heads n witness.vNorm

theorem witnessRows_spec (hSize : 0 < blockSize) (hTokens : 0 < tokens) (k v n : Nat → Nat → N) :
    ∃ rows, (range (touchedBlocks tokenStart tokens blockSize)).mapM
        (witnessRows tokenStart tokens blockSize (tokenTable tokens heads k)
          (tokenTable tokens heads v) (tokenTable tokens heads n)) = .ok rows ∧
      IsWitness (cutNorms tokenStart blockSize tokens) (touchedBlocks tokenStart tokens blockSize)
        heads k v n ⟨rows.map fun r => r.1, rows.map fun r => r.2.1, rows.map fun r => r.2.2⟩ := by
  have hEach : ∀ block < touchedBlocks tokenStart tokens blockSize, ∃ r,
      witnessRows tokenStart tokens blockSize (tokenTable tokens heads k)
        (tokenTable tokens heads v) (tokenTable tokens heads n) block = .ok r ∧
      ∀ head < heads,
        (∃ x, r.1[head]? = some x ∧
          IsGreatest (cutNorms tokenStart blockSize tokens block fun t => k t head) x) ∧
        (∃ x, r.2.1[head]? = some x ∧
          IsGreatest (cutNorms tokenStart blockSize tokens block fun t => v t head) x) ∧
        ∃ x, r.2.2[head]? = some x ∧
          IsGreatest (cutNorms tokenStart blockSize tokens block fun t => n t head) x := by
    intro block hBlock
    obtain ⟨kRow, hkRow, hk⟩ := witnessRow_spec (f := k) hSize hTokens hBlock
    obtain ⟨vRow, hvRow, hv⟩ := witnessRow_spec (f := v) hSize hTokens hBlock
    obtain ⟨nRow, hnRow, hn⟩ := witnessRow_spec (f := n) hSize hTokens hBlock
    refine ⟨(kRow, vRow, nRow), ?_, fun head hHead => ⟨hk head hHead, hv head hHead, hn head hHead⟩⟩
    unfold witnessRows
    dsimp only
    rw [hkRow, ok_bind, hvRow, ok_bind, hnRow]
    rfl
  obtain ⟨rows, hRows⟩ := exists_mapM_ok (l := range _) fun block hBlock =>
    (hEach block (mem_range.mp hBlock)).imp fun _ h => h.1
  obtain ⟨hLength, hAll⟩ := mapM_eq_ok hRows
  rw [length_range] at hLength
  have hAt : ∀ block < touchedBlocks tokenStart tokens blockSize, ∃ r, rows[block]? = some r ∧
      witnessRows tokenStart tokens blockSize (tokenTable tokens heads k)
        (tokenTable tokens heads v) (tokenTable tokens heads n) block = .ok r := by
    intro block hBlock
    obtain ⟨a, ha, hRow⟩ := hAll block _ (getElem?_eq_getElem (by omega))
    rw [getElem?_range hBlock] at ha
    cases ha
    exact ⟨_, getElem?_eq_getElem (by omega), hRow⟩
  refine ⟨rows, hRows, ?_, ?_, ?_⟩
  all_goals
    intro block hBlock head hHead
    obtain ⟨r, hr, hRow⟩ := hAt block hBlock
    obtain ⟨r', hRow', hGreatest⟩ := hEach block hBlock
    rw [hRow] at hRow'
    cases hRow'
    unfold entryAt
    rw [getElem?_map, hr]
  · exact (hGreatest head hHead).1
  · exact (hGreatest head hHead).2.1
  · exact (hGreatest head hHead).2.2

end Reference

section Observer

variable {head : Nat} {y : N}

theorem getElem?_maxInto {xs ys : List N} {x : N} (hx : xs[head]? = some x)
    (hy : ys[head]? = some y) : (maxInto xs ys)[head]? = some (max x y) := by
  induction xs generalizing ys head with
  | nil => cases hx
  | cons a xs ih =>
    cases ys with
    | nil => cases hy
    | cons b ys =>
      cases head with
      | zero =>
        cases hx
        cases hy
        rfl
      | succ head => exact ih hx hy

def scatterRow (table : BlockTable N) (entry : Int × List N) : BlockTable N :=
  table.modify entry.1.toNat fun row => maxInto row entry.2

variable {table : BlockTable N} {entry : Int × List N}

theorem entryAt_scatterRow_self {x : N} (hx : entryAt table entry.1.toNat head = some x)
    (hy : entry.2[head]? = some y) :
    entryAt (scatterRow table entry) entry.1.toNat head = some (max x y) := by
  obtain ⟨row, hRow, hx⟩ := Option.bind_eq_some_iff.mp hx
  unfold entryAt scatterRow
  rw [getElem?_modify_eq, hRow]
  exact getElem?_maxInto hx hy

theorem entryAt_scatterRow_of_ne (table : BlockTable N) {block : Nat} (h : entry.1.toNat ≠ block)
    (head : Nat) : entryAt (scatterRow table entry) block head = entryAt table block head := by
  unfold entryAt scatterRow
  rw [getElem?_modify_ne _ _ h]

theorem foldl_scatterRow {block : Nat} (entries : List (Int × List N))
    (hTable : entryAt table block head = some y) (hRows : ∀ e ∈ entries, head < e.2.length) :
    ∃ x, entryAt (entries.foldl scatterRow table) block head = some x ∧
      IsGreatest (insert y {v | ∃ e ∈ entries, e.1.toNat = block ∧ e.2[head]? = some v}) x := by
  induction entries generalizing table y with
  | nil =>
    refine ⟨y, hTable, Or.inl rfl, ?_⟩
    rintro w (rfl | ⟨e, he, -⟩)
    · exact le_refl _
    · cases he
  | cons entry rest ih =>
    have hRest : ∀ e ∈ rest, head < e.2.length := fun e he => hRows e (by simp [he])
    obtain ⟨v, hv⟩ : ∃ v, entry.2[head]? = some v :=
      ⟨_, getElem?_eq_getElem (hRows entry (by simp))⟩
    by_cases hHere : entry.1.toNat = block
    · subst hHere
      obtain ⟨x, hx, hGreatest⟩ := ih (entryAt_scatterRow_self hTable hv) hRest
      refine ⟨x, hx, ?_⟩
      have hSame : {w | ∃ e ∈ entry :: rest, e.1.toNat = entry.1.toNat ∧ e.2[head]? = some w} =
          insert v {w | ∃ e ∈ rest, e.1.toNat = entry.1.toNat ∧ e.2[head]? = some w} := by
        ext w
        simp only [Set.mem_ofPred_eq, Set.mem_insert_iff, exists_mem_cons_iff, hv,
          Option.some.injEq, true_and]
        exact or_congr_left eq_comm
      rw [hSame]
      exact isGreatest_insert_max hGreatest
    · rw [← entryAt_scatterRow_of_ne table hHere] at hTable
      obtain ⟨x, hx, hGreatest⟩ := ih hTable hRest
      refine ⟨x, hx, ?_⟩
      have hSame : {w | ∃ e ∈ entry :: rest, e.1.toNat = block ∧ e.2[head]? = some w} =
          {w | ∃ e ∈ rest, e.1.toNat = block ∧ e.2[head]? = some w} := by
        ext w
        simp only [Set.mem_ofPred_eq, exists_mem_cons_iff, hHere, false_and, false_or]
      rwa [hSame]

theorem entryAt_zipWith {a b : BlockTable N} {block : Nat} {x : N}
    (hx : entryAt a block head = some x) (hy : entryAt b block head = some y) :
    entryAt (zipWith (zipWith max) a b) block head = some (max x y) := by
  obtain ⟨row, hRow, hx⟩ := Option.bind_eq_some_iff.mp hx
  obtain ⟨row', hRow', hy⟩ := Option.bind_eq_some_iff.mp hy
  unfold entryAt
  rw [getElem?_zipWith, hRow, hRow', Option.bind_some, getElem?_zipWith, hx, hy]

omit [LinearOrder N] in
theorem entryAt_replicate {blocks heads block : Nat} (hBlock : block < blocks)
    (hHead : head < heads) (x : N) :
    entryAt (replicate blocks (replicate heads x)) block head = some x := by
  unfold entryAt
  rw [getElem?_replicate, if_pos hBlock, Option.bind_some, getElem?_replicate, if_pos hHead]

theorem tokenBlock_lt {tokenStart blockSize : Int} {tokens t : Nat} (hSize : 0 < blockSize)
    (ht : t < tokens) :
    ∃ block : Nat, tokenBlock tokenStart blockSize t = block ∧
      block < touchedBlocks tokenStart tokens blockSize := by
  have hNonneg : 0 ≤ tokenBlock tokenStart blockSize t := by
    have hMono : tokenStart / blockSize ≤ (t + tokenStart) / blockSize :=
      Int.ediv_le_ediv hSize (by omega)
    unfold tokenBlock
    omega
  obtain ⟨block, hBlock⟩ := Int.eq_ofNat_of_zero_le hNonneg
  have hCut := (tokenBlock_eq_iff hSize t).mp hBlock
  exact ⟨block, hBlock, (touched_iff hSize).mpr (by omega)⟩

variable [OrderBot N] {tokenStart blockSize : Int} {tokens heads : Nat}

def chunkEntries (tokenStart blockSize : Int) (tokens heads : Nat) (f : Nat → Nat → N) :
    List (Int × List N) :=
  (range tokens).map fun (t : Nat) =>
    (tokenBlock tokenStart blockSize t, (range heads).map (f t))

omit [LinearOrder N] [OrderBot N] in
theorem chunkEntries_norms (hSize : 0 < blockSize) {block : Nat} (hHead : head < heads)
    (f : Nat → Nat → N) : {v | ∃ e ∈ chunkEntries tokenStart blockSize tokens heads f,
        e.1.toNat = block ∧ e.2[head]? = some v} =
      blockNorms tokenStart blockSize tokens block fun t => f t head := by
  have hAt : ∀ t, ((range heads).map (f t))[head]? = some (f t head) := by
    intro t
    rw [getElem?_map, getElem?_range hHead, Option.map_some]
  ext v
  constructor
  · rintro ⟨e, he, hBlock, hv⟩
    obtain ⟨t, ht, rfl⟩ := mem_map.mp he
    obtain ⟨b, hb, -⟩ := @tokenBlock_lt tokenStart blockSize tokens t hSize (mem_range.mp ht)
    rw [hAt] at hv
    refine ⟨t, mem_range.mp ht, ?_, Option.some.inj hv⟩
    rw [hb] at hBlock ⊢
    exact congrArg Int.ofNat hBlock
  · rintro ⟨t, ht, hBlock, rfl⟩
    refine ⟨_, mem_map.mpr ⟨t, mem_range.mpr ht, rfl⟩, ?_, hAt t⟩
    rw [hBlock, Int.toNat_natCast]

theorem scatterMax_spec (hSize : 0 < blockSize) (hTokens : 0 < tokens) (f : Nat → Nat → N) :
    ∃ table, scatterMax heads heads
        (replicate (touchedBlocks tokenStart tokens blockSize) (replicate heads ⊥))
        (tokenTable tokens heads f)
        (((range tokens).map Int.ofNat).map (tokenBlock tokenStart blockSize)) = .ok table ∧
      IsTable (blockNorms tokenStart blockSize tokens)
        (touchedBlocks tokenStart tokens blockSize) heads f table := by
  have hLength : (tokenTable tokens heads f).length = tokens := by simp [tokenTable]
  unfold scatterMax
  rcases Nat.eq_zero_or_pos heads with rfl | hHeads
  · rw [Nat.mul_zero, if_pos rfl]
    exact ⟨_, rfl, fun _ _ head hHead => absurd hHead (Nat.not_lt_zero head)⟩
  · have hInside : ((((range tokens).map Int.ofNat).map (tokenBlock tokenStart blockSize)).any
        fun i => decide (i < 0) || decide (((replicate
          (touchedBlocks tokenStart tokens blockSize) (replicate heads (⊥ : N))).length : Int)
            ≤ i)) = false := by
      rw [any_eq_false]
      intro i hi
      rw [map_map] at hi
      obtain ⟨t, ht, rfl⟩ := mem_map.mp hi
      obtain ⟨b, hb, hLess⟩ := @tokenBlock_lt tokenStart blockSize tokens t hSize (mem_range.mp ht)
      have hSame : (tokenBlock tokenStart blockSize ∘ Int.ofNat) t = b := hb
      rw [hSame, length_replicate]
      simp only [Bool.or_eq_true, decide_eq_true_eq, not_or]
      omega
    have hZip : (((range tokens).map Int.ofNat).map (tokenBlock tokenStart blockSize)).zip
        (tokenTable tokens heads f) = chunkEntries tokenStart blockSize tokens heads f := by
      rw [map_map, tokenTable, zip_map']
      rfl
    have hFits : (decide ((tokenTable tokens heads f).length <
        (((range tokens).map Int.ofNat).map (tokenBlock tokenStart blockSize)).length) ||
          decide (heads < heads)) = false := by
      simp [hLength]
    rw [if_neg (by rw [hLength]; exact (Nat.mul_pos hTokens hHeads).ne'), hFits, raiseIf_false,
      ok_bind, hInside, raiseIf_false, ok_bind, hZip]
    refine ⟨_, rfl, ?_⟩
    intro block hBlock head hHead
    have hZero : entryAt (replicate (touchedBlocks tokenStart tokens blockSize)
        (replicate heads (⊥ : N))) block head = some ⊥ := entryAt_replicate hBlock hHead _
    obtain ⟨x, hx, hGreatest⟩ := foldl_scatterRow
      (chunkEntries tokenStart blockSize tokens heads f) hZero (by
        intro e he
        obtain ⟨t, -, rfl⟩ := mem_map.mp he
        simpa using hHead)
    rw [chunkEntries_norms hSize hHead] at hGreatest
    obtain ⟨t, ht, hToken⟩ := exists_token_of_touched hTokens hSize hBlock
    refine ⟨x, ?_, isGreatest_of_insert_bot hGreatest ⟨_, t, ht, hToken, rfl⟩⟩
    rw [length_replicate, ← max_eq_right (bot_le (a := x))]
    exact entryAt_zipWith hZero hx

omit [LinearOrder N] [OrderBot N] in
theorem BlockObserver.make_spec {plan : MaKVQuantPlan} {blockSize : Int} {empty : Nat → Int}
    {observer : BlockObserver N} (h : BlockObserver.make N plan blockSize empty = .ok observer) :
    observer.plan = plan ∧ observer.blockSize = blockSize ∧ observer.buffers = none ∧
      0 < blockSize ∧ 0 < plan.chunkLength ∧
      observer.blocks.validTokens.length =
        touchedBlocks plan.chunkStart plan.chunkLength blockSize := by
  obtain ⟨_, hSize, h⟩ := bind_eq_ok.mp h
  obtain ⟨blocks, hBlocks, h⟩ := bind_eq_ok.mp h
  cases h
  obtain ⟨_, -, hBlocks⟩ := bind_eq_ok.mp hBlocks
  obtain ⟨_, hLength, hBlocks⟩ := bind_eq_ok.mp hBlocks
  obtain ⟨pairs, -, hBlocks⟩ := bind_eq_ok.mp hBlocks
  obtain ⟨_, -, hBlocks⟩ := bind_eq_ok.mp hBlocks
  obtain ⟨_, -, hBlocks⟩ := bind_eq_ok.mp hBlocks
  cases hBlocks
  rw [rejectIf_eq_ok, decide_eq_false_iff_not] at hSize hLength
  refine ⟨rfl, rfl, rfl, by omega, by omega, ?_⟩
  rw [length_map, length_range]

theorem scatterLayer_spec (hSize : 0 < blockSize) (hTokens : 0 < tokens) {layers layer : Nat}
    (hLayer : layer < layers) (f : Nat → Nat → N) :
    ∃ tables table, scatterLayer heads heads layer
        (replicate layers (replicate (touchedBlocks tokenStart tokens blockSize)
          (replicate heads ⊥))) (tokenTable tokens heads f)
        (((range tokens).map Int.ofNat).map (tokenBlock tokenStart blockSize)) = .ok tables ∧
      tables[layer]? = some table ∧
      IsTable (blockNorms tokenStart blockSize tokens)
        (touchedBlocks tokenStart tokens blockSize) heads f table := by
  obtain ⟨table, hTable, hSpec⟩ :=
    @scatterMax_spec N _ _ tokenStart blockSize tokens heads hSize hTokens f
  refine ⟨(replicate layers (replicate (touchedBlocks tokenStart tokens blockSize)
    (replicate heads ⊥))).set layer table, table, ?_, ?_, hSpec⟩
  · unfold scatterLayer
    rw [getD_eq_getElem?_getD, getElem?_replicate, if_pos hLayer, Option.getD_some, hTable]
    rfl
  · exact getElem?_set_self (by rwa [length_replicate])

end Observer

section Claim

variable {E : Type} [OrderBot N] [VectorNorms E N] {tokenStart blockSize : Int}
  {tokens heads dim : Nat}

structure ChunkTensors (E : Type) (tokens heads dim : Nat) where
  originalK : Tensor E
  originalV : Tensor E
  dequantizedK : Tensor E
  dequantizedV : Tensor E
  shape_originalK : originalK.shape = [tokens, heads, dim]
  shape_originalV : originalV.shape = [tokens, heads, dim]
  shape_dequantizedK : dequantizedK.shape = [tokens, heads, dim]
  shape_dequantizedV : dequantizedV.shape = [tokens, heads, dim]

namespace ChunkTensors

variable (chunk : ChunkTensors E tokens heads dim)

def reference (N : Type) [LinearOrder N] [OrderBot N] [VectorNorms E N]
    (chunk : ChunkTensors E tokens heads dim) (tokenStart blockSize : Int) :
    Result (QdmWitness N) :=
  computeQdmWitness chunk.originalK chunk.originalV chunk.dequantizedK chunk.dequantizedV
    tokenStart blockSize

def observe (chunk : ChunkTensors E tokens heads dim) (observer : BlockObserver N) (layer : Nat) :
    Result (BlockObserver N) :=
  observer.observeBlock layer ((range tokens).map Int.ofNat) chunk.originalK chunk.originalV
    chunk.dequantizedK chunk.dequantizedV

/-- The tables of the greatest norms of given sets of tokens of a chunk. -/
def HasWitness (chunk : ChunkTensors E tokens heads dim) (norms : Nat → (Nat → N) → Set N)
    (blocks : Nat) (witness : QdmWitness N) : Prop :=
  IsWitness norms blocks heads (residualNorm chunk.originalK chunk.dequantizedK dim)
    (residualNorm chunk.originalV chunk.dequantizedV dim) (valueNorm chunk.originalV dim) witness

theorem observe_spec {plan : MaKVQuantPlan} {empty : Nat → Int} {observer : BlockObserver N}
    {layer : Nat} (hStart : plan.chunkStart = tokenStart) (hTokens : plan.chunkLength = tokens)
    (hHeads : plan.numKvHeads = heads)
    (hMake : BlockObserver.make N plan blockSize empty = .ok observer)
    (hLayer : (layer : Int) < plan.numLayers) :
    ∃ after report, chunk.observe observer layer = .ok after ∧
      after.report layer = some report ∧
      chunk.HasWitness (blockNorms tokenStart blockSize tokens)
        (touchedBlocks tokenStart tokens blockSize) report := by
  obtain ⟨hPlan, hBlockSize, hFresh, hSize, hLength, hBlocks⟩ := BlockObserver.make_spec hMake
  have hSome : 0 < tokens := by omega
  have hIn : layer < plan.numLayers.toNat := by omega
  have hZeros : observer.zeros = replicate plan.numLayers.toNat
      (replicate (touchedBlocks tokenStart tokens blockSize) (replicate heads ⊥)) := by
    unfold BlockObserver.zeros
    rw [hPlan, hBlocks, hStart, hTokens, hHeads, Int.toNat_natCast]
  have hScatter := fun f => @scatterLayer_spec N _ _ tokenStart blockSize tokens heads hSize hSome
    plan.numLayers.toNat layer hIn f
  obtain ⟨kTables, kTable, hkTables, hkAt, hk⟩ :=
    hScatter (residualNorm chunk.originalK chunk.dequantizedK dim)
  obtain ⟨vTables, vTable, hvTables, hvAt, hv⟩ :=
    hScatter (residualNorm chunk.originalV chunk.dequantizedV dim)
  obtain ⟨nTables, nTable, hnTables, hnAt, hn⟩ := hScatter (valueNorm chunk.originalV dim)
  refine ⟨{ observer with buffers := some ⟨kTables, vTables, nTables⟩ }, ⟨kTable, vTable, nTable⟩,
    ?_, ?_, hk, hv, hn⟩
  · unfold observe BlockObserver.observeBlock BlockObserver.ensureBuffers
    rw [chunk.shape_originalK, chunk.shape_originalV, chunk.shape_dequantizedK,
      chunk.shape_dequantizedV, hFresh, hPlan, hStart, hBlockSize, hHeads, hZeros]
    have hLayerOk : (decide ((layer : Int) < 0) || decide (plan.numLayers ≤ (layer : Int))) =
        false := by
      rw [decide_eq_false (by omega), decide_eq_false (by omega), Bool.or_false]
    have hHeadsOk : decide ((heads : Int) < 0) = false := by simp
    simp only [ne_eq, not_true_eq_false, decide_false, Bool.or_self, rejectIf_false, ok_bind,
      hLayerOk, hHeadsOk, raiseIf_false]
    rw [Int.toNat_natCast, Int.toNat_natCast]
    rw [pure_bind, hkTables, ok_bind, hvTables, ok_bind, hnTables]
    rfl
  · unfold BlockObserver.report
    simp [hkAt, hvAt, hnAt]

theorem reference_eq (hStart : 0 ≤ tokenStart) (hSize : 0 < blockSize) :
    chunk.reference N tokenStart blockSize = do
      let rows ← (range (touchedBlocks tokenStart tokens blockSize)).mapM
        (witnessRows tokenStart tokens blockSize
          (tokenTable tokens heads (residualNorm chunk.originalK chunk.dequantizedK dim))
          (tokenTable tokens heads (residualNorm chunk.originalV chunk.dequantizedV dim))
          (tokenTable tokens heads (valueNorm chunk.originalV dim)))
      return ⟨rows.map fun r => r.1, rows.map fun r => r.2.1, rows.map fun r => r.2.2⟩ := by
  have hValid : (decide (tokenStart < 0) || decide (blockSize ≤ 0)) = false := by
    rw [decide_eq_false (by omega), decide_eq_false (by omega), Bool.or_false]
  unfold reference computeQdmWitness
  rw [chunk.shape_originalK, chunk.shape_originalV, chunk.shape_dequantizedK,
    chunk.shape_dequantizedV]
  simp only [ne_eq, not_true_eq_false, decide_false, Bool.or_self, rejectIf_false, ok_bind, hValid]

theorem reference_spec (hStart : 0 ≤ tokenStart) (hSize : 0 < blockSize) (hTokens : 0 < tokens) :
    ∃ witness, chunk.reference N tokenStart blockSize = .ok witness ∧
      chunk.HasWitness (cutNorms tokenStart blockSize tokens)
        (touchedBlocks tokenStart tokens blockSize) witness := by
  obtain ⟨rows, hRows, hWitness⟩ := @witnessRows_spec N _ tokenStart blockSize tokens heads hSize
    hTokens (residualNorm chunk.originalK chunk.dequantizedK dim)
    (residualNorm chunk.originalV chunk.dequantizedV dim) (valueNorm chunk.originalV dim)
  refine ⟨_, ?_, hWitness⟩
  rw [chunk.reference_eq hStart hSize, hRows]
  rfl

end ChunkTensors

/-- The reference witness has the greatest norms of the tokens in every block, and so does every
observer of a plan of the chunk. -/
def ChunkTensors.WitnessAgrees (N : Type) [LinearOrder N] [OrderBot N] [VectorNorms E N]
    (chunk : ChunkTensors E tokens heads dim) (tokenStart blockSize : Int) : Prop :=
  ∃ witness, chunk.reference N tokenStart blockSize = .ok witness ∧
    chunk.HasWitness (blockNorms tokenStart blockSize tokens)
      (touchedBlocks tokenStart tokens blockSize) witness ∧
    ∀ (plan : MaKVQuantPlan) (empty : Nat → Int) (observer : BlockObserver N) (layer : Nat),
      plan.chunkStart = tokenStart → plan.chunkLength = tokens → plan.numKvHeads = heads →
      BlockObserver.make N plan blockSize empty = .ok observer →
      (layer : Int) < plan.numLayers →
      ∃ after report, chunk.observe observer layer = .ok after ∧
        after.report layer = some report ∧
        ∀ block < touchedBlocks tokenStart tokens blockSize, ∀ head < heads,
          entryAt report.kError block head = entryAt witness.kError block head ∧
          entryAt report.vError block head = entryAt witness.vError block head ∧
          entryAt report.vNorm block head = entryAt witness.vNorm block head

variable {head : Nat}

omit [OrderBot N] in
theorem IsTable.unique {norms : Nat → (Nat → N) → Set N} {blocks : Nat} {f : Nat → Nat → N}
    {a b : BlockTable N} (ha : IsTable norms blocks heads f a)
    (hb : IsTable norms blocks heads f b) {block : Nat} (hBlock : block < blocks)
    (hHead : head < heads) : entryAt a block head = entryAt b block head := by
  obtain ⟨x, hx, hGreatest⟩ := ha block hBlock head hHead
  obtain ⟨y, hy, hGreatest'⟩ := hb block hBlock head hHead
  rw [hx, hy, hGreatest.unique hGreatest']

omit [OrderBot N] [LinearOrder N] in
theorem cutNorms_eq (hSize : 0 < blockSize) (hFits : StartsOrFits tokenStart blockSize tokens) :
    cutNorms (N := N) tokenStart blockSize tokens = blockNorms tokenStart blockSize tokens := by
  funext block f
  ext x
  constructor
  · rintro ⟨t, ht, hCut, hx⟩
    exact ⟨t, ht, (cut_iff hSize hFits ht).mp hCut, hx⟩
  · rintro ⟨t, ht, hBlock, hx⟩
    exact ⟨t, ht, (cut_iff hSize hFits ht).mpr hBlock, hx⟩

theorem IsTable.of_bot {f : Nat → Nat → N} {table : BlockTable N} (hSize : 0 < blockSize)
    (hTokens : 0 < tokens) (hBot : ∀ t head, f t head = ⊥)
    (h : IsTable (cutNorms tokenStart blockSize tokens)
      (touchedBlocks tokenStart tokens blockSize) heads f table) :
    IsTable (blockNorms tokenStart blockSize tokens)
      (touchedBlocks tokenStart tokens blockSize) heads f table := by
  intro block hBlock head hHead
  obtain ⟨x, hx, ⟨t, -, -, hMax⟩, -⟩ := h block hBlock head hHead
  obtain ⟨u, hu, hToken⟩ := exists_token_of_touched hTokens hSize hBlock
  refine ⟨x, hx, ⟨u, hu, hToken, ?_⟩, ?_⟩
  · exact (hBot u head).trans ((hBot t head).symm.trans hMax)
  · rintro y ⟨w, -, -, rfl⟩
    exact (hBot w head).trans_le bot_le

/-- The chunks whose reference witness can be relied on. -/
def WitnessReliable (tokenStart blockSize : Int) (tokens heads dim : Nat) : Prop :=
  tokenStart % blockSize = 0 ∨
    (0 < tokens ∧ (tokenStart % blockSize + tokens ≤ blockSize ∨ heads = 0 ∨ dim = 0))

theorem ChunkTensors.hasWitness_of_reliable (chunk : ChunkTensors E tokens heads dim)
    {witness : QdmWitness N} (hSize : 0 < blockSize) (hTokens : 0 < tokens)
    (hReliable : WitnessReliable tokenStart blockSize tokens heads dim)
    (h : chunk.HasWitness (cutNorms tokenStart blockSize tokens)
      (touchedBlocks tokenStart tokens blockSize) witness) :
    chunk.HasWitness (blockNorms tokenStart blockSize tokens)
      (touchedBlocks tokenStart tokens blockSize) witness := by
  have hCases : StartsOrFits tokenStart blockSize tokens ∨ heads = 0 ∨ dim = 0 := by
    rcases hReliable with hAligned | ⟨-, hFits | hEmpty⟩
    · exact Or.inl (Or.inl hAligned)
    · exact Or.inl (Or.inr hFits)
    · exact Or.inr hEmpty
  rcases hCases with hFits | rfl | rfl
  · rwa [cutNorms_eq hSize hFits] at h
  · exact ⟨fun _ _ head hHead => absurd hHead (Nat.not_lt_zero head),
      fun _ _ head hHead => absurd hHead (Nat.not_lt_zero head),
      fun _ _ head hHead => absurd hHead (Nat.not_lt_zero head)⟩
  · have hDistance : ∀ a b : Tensor E, ∀ t head, residualNorm (N := N) a b 0 t head = ⊥ :=
      fun _ _ _ _ => VectorNorms.distance_nil
    have hNorm : ∀ t head, valueNorm (N := N) chunk.originalV 0 t head = ⊥ :=
      fun _ _ => VectorNorms.norm_zeros 0
    exact ⟨h.kError.of_bot hSize hTokens (hDistance _ _),
      h.vError.of_bot hSize hTokens (hDistance _ _), h.vNorm.of_bot hSize hTokens hNorm⟩

/-- Zero vectors, but for the values of one token. -/
def spike (N : Type) [LinearOrder N] [OrderBot N] [VectorNorms E N] (tokens heads dim : Nat)
    (token : Nat) : ChunkTensors E tokens heads dim where
  originalK := Tensor.ofFn [tokens, heads, dim] fun _ => VectorNorms.zero N
  originalV := Tensor.ofFn [tokens, heads, dim] fun index =>
    if index.head? = some token then VectorNorms.one N else VectorNorms.zero N
  dequantizedK := Tensor.ofFn [tokens, heads, dim] fun _ => VectorNorms.zero N
  dequantizedV := Tensor.ofFn [tokens, heads, dim] fun _ => VectorNorms.zero N
  shape_originalK := rfl
  shape_originalV := rfl
  shape_dequantizedK := rfl
  shape_dequantizedV := rfl

theorem vectorAt_spike {token t : Nat} (ht : t < tokens) (hHead : head < heads) :
    vectorAt (spike (E := E) N tokens heads dim token).originalV dim t head =
      replicate dim (if t = token then VectorNorms.one N else VectorNorms.zero N) := by
  have hAt : ∀ d ∈ range dim,
      (spike (E := E) N tokens heads dim token).originalV.get? [t, head, d] =
        some (if t = token then VectorNorms.one N else VectorNorms.zero N) := by
    intro d hd
    refine (Tensor.get?_ofFn ?_ _).trans ?_
    · exact .cons ht (.cons hHead (.cons (mem_range.mp hd) .nil))
    · simp
  unfold vectorAt
  rw [filterMap_congr hAt]
  simp

theorem valueNorm_spike {token t : Nat} (ht : t < tokens) (hHead : head < heads) :
    valueNorm (N := N) (spike (E := E) N tokens heads dim token).originalV dim t head =
      if t = token then VectorNorms.norm (replicate dim (VectorNorms.one (E := E) N)) else ⊥ := by
  rw [valueNorm, vectorAt_spike ht hHead]
  split_ifs
  · rfl
  · exact VectorNorms.norm_zeros dim

/-- A chunk that starts inside a block and goes on behind it has a witness that takes in the
first token of the next block. -/
theorem not_witnessAgrees_spike (hStart : 0 ≤ tokenStart) (hSize : 0 < blockSize)
    (hInside : tokenStart % blockSize ≠ 0) (hBeyond : blockSize < tokenStart % blockSize + tokens)
    (hHeads : 0 < heads) (hDim : 0 < dim) :
    ¬ (spike (E := E) N tokens heads dim
      (blockSize - tokenStart % blockSize).toNat).WitnessAgrees N tokenStart blockSize := by
  have hMod := Int.emod_nonneg tokenStart hSize.ne'
  have hModLess := Int.emod_lt_of_pos tokenStart hSize
  have hSpill : (blockSize - tokenStart % blockSize).toNat < tokens := by omega
  have hFirst : (tokenStart / blockSize + (0 : Nat)) * blockSize =
      tokenStart - tokenStart % blockSize := by
    have hSplit := Int.mul_ediv_add_emod tokenStart blockSize
    rw [Nat.cast_zero, add_zero, mul_comm]
    omega
  have hBlock : 0 < touchedBlocks tokenStart tokens blockSize :=
    (touched_iff hSize).mpr (by omega)
  rintro ⟨witness, hWitness, hExact, -⟩
  obtain ⟨witness', hWitness', hCut⟩ := (spike (E := E) N tokens heads dim
    (blockSize - tokenStart % blockSize).toNat).reference_spec (N := N) hStart hSize (by omega)
  rw [hWitness] at hWitness'
  cases hWitness'
  obtain ⟨x, hx, ⟨t, ht, hToken, hMax⟩, -⟩ := hExact.vNorm 0 hBlock 0 hHeads
  obtain ⟨y, hy, -, hUpper⟩ := hCut.vNorm 0 hBlock 0 hHeads
  rw [hx] at hy
  cases hy
  -- the tokens of the block have zero values, the one behind it has not
  have hZero : x = ⊥ := by
    have hOther : t ≠ (blockSize - tokenStart % blockSize).toNat := by
      have := (tokenBlock_eq_iff hSize t).mp hToken
      omega
    exact hMax.symm.trans ((valueNorm_spike ht hHeads).trans (if_neg hOther))
  have hSpike : VectorNorms.norm (replicate dim (VectorNorms.one (E := E) N)) ≤ x := by
    refine hUpper ⟨_, hSpill, ?_, ?_⟩
    · unfold cutStart
      rw [hFirst]
      omega
    · exact (valueNorm_spike hSpill hHeads).trans (if_pos rfl)
  exact (VectorNorms.norm_ones dim hDim).not_ge (hZero ▸ hSpike)

theorem witnessAgrees_empty (chunk : ChunkTensors E 0 heads dim) (hStart : 0 ≤ tokenStart)
    (hSize : 0 < blockSize) (hAligned : tokenStart % blockSize = 0) :
    chunk.WitnessAgrees N tokenStart blockSize := by
  have hNone : touchedBlocks tokenStart (0 : Nat) blockSize = 0 := by
    by_contra hSome
    have hFirst := (touched_iff hSize).mp (Nat.pos_of_ne_zero hSome)
    have hSplit := Int.mul_ediv_add_emod tokenStart blockSize
    rw [Nat.cast_zero, add_zero, mul_comm] at hFirst
    omega
  have hVacuous : ∀ {f : Nat → Nat → N} {table : BlockTable N},
      IsTable (blockNorms tokenStart blockSize 0) (touchedBlocks tokenStart (0 : Nat) blockSize)
        heads f table := by
    intro f table block hBlock
    rw [hNone] at hBlock
    exact absurd hBlock (Nat.not_lt_zero block)
  refine ⟨⟨[], [], []⟩, ?_, ⟨hVacuous, hVacuous, hVacuous⟩, ?_⟩
  · rw [chunk.reference_eq hStart hSize, hNone]
    rfl
  · intro plan empty observer layer _ hLength _ hMake
    have hSome := (BlockObserver.make_spec hMake).2.2.2.2.1
    omega

theorem not_witnessAgrees_empty (chunk : ChunkTensors E 0 heads dim) (hStart : 0 ≤ tokenStart)
    (hSize : 0 < blockSize) (hInside : tokenStart % blockSize ≠ 0) :
    ¬ chunk.WitnessAgrees N tokenStart blockSize := by
  have hBlock : 0 < touchedBlocks tokenStart (0 : Nat) blockSize := by
    have hMod := Int.emod_nonneg tokenStart hSize.ne'
    have hSplit := Int.mul_ediv_add_emod tokenStart blockSize
    refine (touched_iff hSize).mpr ?_
    rw [Nat.cast_zero, add_zero, mul_comm]
    omega
  rintro ⟨witness, hWitness, -⟩
  rw [chunk.reference_eq hStart hSize] at hWitness
  obtain ⟨rows, hRows, -⟩ := bind_eq_ok.mp hWitness
  obtain ⟨hLength, hAll⟩ := mapM_eq_ok hRows
  rw [length_range] at hLength
  obtain ⟨block, -, hRow⟩ := hAll 0 _ (getElem?_eq_getElem (by omega))
  obtain ⟨row, hNone, -⟩ := bind_eq_ok.mp hRow
  simp [witnessRow, tokenTable, pySlice, amax, raise] at hNone

/-- The reference witness of every chunk of a shape agrees with the blocks of the request and
with the observer exactly when the chunk starts with a block, or is not empty and stays in the
block it starts in or has nothing to measure. -/
theorem qdm_witness_agrees_iff (hStart : 0 ≤ tokenStart) (hSize : 0 < blockSize) :
    (∀ chunk : ChunkTensors E tokens heads dim, chunk.WitnessAgrees N tokenStart blockSize) ↔
      WitnessReliable tokenStart blockSize tokens heads dim := by
  constructor
  · intro hAll
    by_contra hNot
    unfold WitnessReliable at hNot
    push Not at hNot
    obtain ⟨hInside, hSpills⟩ := hNot
    rcases Nat.eq_zero_or_pos tokens with rfl | hTokens
    · exact not_witnessAgrees_empty (spike (E := E) N 0 heads dim 0) hStart hSize hInside (hAll _)
    · obtain ⟨hBeyond, hHeads, hDim⟩ := hSpills hTokens
      exact not_witnessAgrees_spike hStart hSize hInside hBeyond (Nat.pos_of_ne_zero hHeads)
        (Nat.pos_of_ne_zero hDim) (hAll _)
  · intro hReliable chunk
    rcases Nat.eq_zero_or_pos tokens with rfl | hTokens
    · rcases hReliable with hAligned | ⟨hSome, -⟩
      · exact witnessAgrees_empty chunk hStart hSize hAligned
      · omega
    · obtain ⟨witness, hWitness, hCut⟩ := chunk.reference_spec (N := N) hStart hSize hTokens
      have hExact := chunk.hasWitness_of_reliable hSize hTokens hReliable hCut
      refine ⟨witness, hWitness, hExact, ?_⟩
      intro plan empty observer layer hPlanStart hLength hPlanHeads hMake hLayer
      obtain ⟨after, report, hObserve, hReport, hSame⟩ :=
        chunk.observe_spec hPlanStart hLength hPlanHeads hMake hLayer
      refine ⟨after, report, hObserve, hReport, fun block hBlock head hHead => ?_⟩
      exact ⟨hSame.kError.unique hExact.kError hBlock hHead,
        hSame.vError.unique hExact.vError hBlock hHead,
        hSame.vNorm.unique hExact.vNorm hBlock hHead⟩

end Claim

/-- Norms of integer vectors, as for vectors with one entry. -/
instance integerNorms : VectorNorms Int Nat where
  distance := fun a b => (zipWith (fun x y => (x - y).natAbs) a b).sum
  norm := fun v => (v.map Int.natAbs).sum
  zero := 0
  one := 1
  distance_nil := rfl
  norm_zeros := fun dim => by simp
  norm_ones := fun dim h => by simpa using h

/-- Two tokens at the places 1 and 2, in blocks of two: the entry of the first block is that of
the second token, which lies in the next block. -/
theorem unaligned_witness_spills :
    (spike (E := Int) Nat 2 1 1 1).reference Nat 1 2 =
        .ok ⟨[[0], [0]], [[1], [1]], [[1], [1]]⟩ ∧
      ¬ (spike (E := Int) Nat 2 1 1 1).WitnessAgrees Nat 1 2 :=
  ⟨rfl, not_witnessAgrees_spike (by decide) (by decide) (by decide) (by decide) (by decide)
    (by decide)⟩

theorem aligned_witness_agrees : (spike (E := Int) Nat 3 1 1 1).WitnessAgrees Nat 2 2 :=
  (qdm_witness_agrees_iff (by decide) (by decide)).mpr (Or.inl (by decide)) _

end LMCache.MaKV
