import LMCache.Lib.Python
import LMCache.Prefetch.BitmapDenotation
import LMCache.Prefetch.Fold

/-!
# Fold and unfold on the bytes

The kernel of `fold.cpp` and the reference functions `_fold_python` and `_unfold_python`,
both over native bitmaps. The kernel fills the cells of a group with `set_range`, the
reference sets bit after bit; both give the same bytes. The kernel refines `fold` and
`unfold` over bitmaps without bytes, so that what those compute holds of it.
-/

namespace LMCache

open Lib List NativeBitmap

namespace NativeFold

def chunkPresent (found : NativeBitmap) (numRanks cbase : Nat) : Bool :=
  (List.range numRanks).all fun r => found.test (cbase + r)

/-- One prefix length of one group: `run` and the flags `servable`. -/
def foldStep (found : NativeBitmap) (numRanks chunkStride gbase effWindow : Nat)
    (state : Nat × List Bool) (prefixLen : Nat) : Nat × List Bool :=
  let cbase := (prefixLen - 1) * chunkStride + gbase
  let run := if chunkPresent found numRanks cbase then state.1 + 1 else 0
  if state.2.getD (prefixLen - 1) false && decide (run < min effWindow prefixLen) then
    (run, state.2.set (prefixLen - 1) false)
  else
    (run, state.2)

def foldGroup (found : NativeBitmap) (numChunks numRanks numGroups : Nat) (servable : List Bool)
    (group : Int × Nat) : List Bool :=
  let effWindow := if group.1 ≤ 0 then numChunks else group.1.toNat
  ((List.range' 1 numChunks).foldl
    (foldStep found numRanks (numGroups * numRanks) (group.2 * numRanks) effWindow)
    (0, servable)).2

/-- The bitmap of the indices below `size` that have a flag. -/
def collect (size : Nat) (flag : Nat → Bool) : NativeBitmap :=
  (List.range size).foldl (fun b j => if flag j then b.set j else b) (.zeros size)

def fold (found : NativeBitmap) (numChunks numRanks : Nat) (groupWindows : List Int) :
    NativeBitmap :=
  let servable := groupWindows.zipIdx.foldl
    (foldGroup found numChunks numRanks groupWindows.length) (List.replicate numChunks true)
  collect numChunks fun j => servable.getD j false

def unfoldGroup (hitLength numRanks numGroups : Nat) (mask : NativeBitmap) (group : Int × Nat) :
    NativeBitmap :=
  let lo := retainLo group.1 hitLength
  (List.range' lo (hitLength - lo)).foldl
    (fun mask j =>
      let base := j * (numGroups * numRanks) + group.2 * numRanks
      mask.setRange base (base + numRanks)) mask

def unfold (hitLength numChunks numRanks : Nat) (groupWindows : List Int) : NativeBitmap :=
  let hitLength := min hitLength numChunks
  let retainMask := zeros (numChunks * (groupWindows.length * numRanks))
  if hitLength = 0 then retainMask
  else groupWindows.zipIdx.foldl (unfoldGroup hitLength numRanks groupWindows.length) retainMask

end NativeFold

namespace BitmapOps

def unfoldRange (prefixLen window : Int) : Int × Int :=
  if prefixLen ≤ 0 then (0, 0)
  else
    let lo := if window ≤ 0 then 0 else max 0 (prefixLen - window)
    (lo, prefixLen)

def foldPythonStep (found : NativeBitmap) (numRanks chunkStride gbase : Nat)
    (effectiveWindow : Int) (state : Nat × List Bool) (prefixLen : Nat) : Nat × List Bool :=
  let cbase := (prefixLen - 1) * chunkStride + gbase
  let present := (List.range numRanks).all fun r => found.test (cbase + r)
  let run := if present then state.1 + 1 else 0
  if state.2.getD (prefixLen - 1) false &&
      decide ((run : Int) < min effectiveWindow prefixLen) then
    (run, state.2.set (prefixLen - 1) false)
  else
    (run, state.2)

def foldPython (found : NativeBitmap) (numChunks numRanks : Nat) (groupWindows : List Int) :
    NativeBitmap :=
  let chunkStride := groupWindows.length * numRanks
  let servable := groupWindows.zipIdx.foldl
    (fun servable group =>
      let effectiveWindow : Int := if group.1 ≤ 0 then numChunks else group.1
      ((List.range' 1 numChunks).foldl
        (foldPythonStep found numRanks chunkStride (group.2 * numRanks) effectiveWindow)
        (0, servable)).2)
    (List.replicate numChunks true)
  (List.range numChunks).foldl
    (fun servableLengths j =>
      if servable.getD j false then servableLengths.set j else servableLengths)
    (.zeros numChunks)

def unfoldPython (hitLength : Int) (numChunks numRanks : Nat) (groupWindows : List Int) :
    NativeBitmap :=
  let hitLength := min hitLength numChunks
  let chunkStride := groupWindows.length * numRanks
  let retainMask := zeros (numChunks * chunkStride)
  if hitLength ≤ 0 then retainMask
  else groupWindows.zipIdx.foldl
    (fun mask group =>
      let range := unfoldRange hitLength group.1
      (List.range' range.1.toNat (range.2 - range.1).toNat).foldl
        (fun mask j =>
          let cbase := j * chunkStride + group.2 * numRanks
          (List.range numRanks).foldl (fun mask r => mask.set (cbase + r)) mask)
        mask)
    retainMask

/-- The checks of the wrappers around the kernel. -/
def checkArguments (numChunks numRanks : Int) (groupWindows : List Int) : Result Unit := do
  rejectIf (numRanks < 1) s!"num_ranks must be >= 1 (got {numRanks})"
  rejectIf (groupWindows = []) "group_windows must be non-empty"
  rejectIf (numChunks < 0) s!"num_chunks must be >= 0 (got {numChunks})"

def fold (found : NativeBitmap) (numChunks numRanks : Int) (groupWindows : List Int) :
    Result NativeBitmap := do
  checkArguments numChunks numRanks groupWindows
  return NativeFold.fold found numChunks.toNat numRanks.toNat groupWindows

def unfold (hitLength numChunks numRanks : Int) (groupWindows : List Int) :
    Result NativeBitmap := do
  checkArguments numChunks numRanks groupWindows
  return NativeFold.unfold hitLength.toNat numChunks.toNat numRanks.toNat groupWindows

def foldUnfoldRanked (found : NativeBitmap) (numChunks numRanks : Int)
    (groupWindows : List Int) : Result (Int × NativeBitmap) := do
  let servable ← fold found numChunks numRanks groupWindows
  let hitLength := servable.highestSetBit + 1
  let retainMask ← unfold hitLength numChunks numRanks groupWindows
  return (hitLength, retainMask)

end BitmapOps

namespace NativeBitmap

theorem ext_bit {a b : NativeBitmap} (hSize : a.size = b.size) (hBit : ∀ i, a.bit i = b.bit i) :
    a = b := by
  obtain ⟨size, data, hData⟩ := a
  obtain ⟨size', data', hData'⟩ := b
  obtain rfl : size = size' := hSize
  congr
  refine ext_getElem (hData.trans hData'.symm) fun k hk hk' => ?_
  apply BitVec.eq_of_getLsbD_eq
  intro i hi
  have hSame := hBit (8 * k + i)
  simpa only [bit, bitAt_byte _ _ _ hi, getD_eq_getElem?_getD, getElem?_eq_getElem hk,
    getElem?_eq_getElem hk', Option.getD_some] using hSame

theorem bit_foldl_set (indices : List Nat) (b : NativeBitmap) (i : Nat) :
    (indices.foldl set b).size = b.size ∧
      (indices.foldl set b).bit i = ((decide (i < b.size) && decide (i ∈ indices)) || b.bit i) := by
  induction indices generalizing b with
  | nil => simp
  | cons k rest ih =>
    obtain ⟨hSize, hBit⟩ := ih (b.set k)
    refine ⟨hSize.trans (size_set b k), ?_⟩
    rw [foldl_cons, hBit, bit_set, size_set]
    rcases eq_or_ne i k with rfl | hk
    · by_cases hi : i < b.size <;> simp [hi]
    · simp [hk]

theorem foldl_set_eq_setRange (b : NativeBitmap) (base width : Nat) :
    (List.range width).foldl (fun b r => b.set (base + r)) b = b.setRange base (base + width) := by
  have hMap : (List.range width).foldl (fun b r => b.set (base + r)) b =
      ((List.range width).map (base + ·)).foldl set b := by
    rw [foldl_map]
  rw [hMap]
  refine ext_bit ?_ fun i => ?_
  · rw [(bit_foldl_set _ b 0).1, size_setRange]
  · rw [(bit_foldl_set _ b i).2, bit_setRange, ← Bool.decide_and (base ≤ i)]
    have hMem : i ∈ (List.range width).map (base + ·) ↔ base ≤ i ∧ i < base + width := by
      rw [mem_map]
      constructor
      · rintro ⟨r, hr, rfl⟩
        rw [mem_range] at hr
        omega
      · rintro ⟨hLow, hHigh⟩
        exact ⟨i - base, mem_range.mpr (by omega), by omega⟩
    rw [decide_eq_decide.mpr hMem]

end NativeBitmap

namespace NativeFold

open BitmapOps

theorem foldPythonStep_eq (found : NativeBitmap) (numRanks chunkStride gbase effWindow : Nat)
    (effectiveWindow : Int) (hWindow : effectiveWindow = effWindow) (state : Nat × List Bool)
    (prefixLen : Nat) :
    foldPythonStep found numRanks chunkStride gbase effectiveWindow state prefixLen =
      foldStep found numRanks chunkStride gbase effWindow state prefixLen := by
  subst hWindow
  have hLt : ∀ run : Nat, (run : Int) < min (effWindow : Int) prefixLen ↔
      run < min effWindow prefixLen := by
    intro run
    omega
  simp only [foldPythonStep, foldStep, chunkPresent, hLt]
  rfl

theorem fold_eq_foldPython (found : NativeBitmap) (numChunks numRanks : Nat)
    (groupWindows : List Int) :
    fold found numChunks numRanks groupWindows =
      foldPython found numChunks numRanks groupWindows := by
  have hGroup : ∀ servable (group : Int × Nat),
      ((List.range' 1 numChunks).foldl (foldPythonStep found numRanks
        (groupWindows.length * numRanks) (group.2 * numRanks)
        (if group.1 ≤ 0 then (numChunks : Int) else group.1)) (0, servable)).2 =
      foldGroup found numChunks numRanks groupWindows.length servable group := by
    intro servable group
    have hWindow : (if group.1 ≤ 0 then (numChunks : Int) else group.1) =
        ((if group.1 ≤ 0 then numChunks else group.1.toNat : Nat) : Int) := by
      split <;> omega
    rw [foldGroup]
    congr 2
    funext state prefixLen
    exact foldPythonStep_eq _ _ _ _ _ _ hWindow state prefixLen
  simp only [fold, foldPython, collect, hGroup]

theorem unfoldRange_eq {hitLength : Nat} (hPos : 0 < hitLength) (window : Int) :
    unfoldRange hitLength window =
      (((retainLo window hitLength : Nat) : Int), (hitLength : Int)) := by
  unfold unfoldRange retainLo
  rw [if_neg (by omega)]
  simp only [Prod.mk.injEq, and_true]
  split <;> split <;> omega

theorem unfold_eq_unfoldPython (hitLength numChunks numRanks : Nat) (groupWindows : List Int) :
    unfold hitLength numChunks numRanks groupWindows =
      unfoldPython hitLength numChunks numRanks groupWindows := by
  have hMin : min (hitLength : Int) numChunks = (min hitLength numChunks : Nat) := by
    omega
  unfold unfold unfoldPython
  dsimp only
  rw [hMin]
  rcases Nat.eq_zero_or_pos (min hitLength numChunks) with hZero | hPos
  · rw [if_pos hZero, if_pos (by omega)]
  · rw [if_neg (by omega), if_neg (by omega)]
    congr 1
    funext mask group
    simp only [unfoldRange_eq hPos, unfoldGroup, foldl_set_eq_setRange,
      Int.toNat_natCast]
    congr 2
    omega

/-- Native bitmap and bitmap without bytes have the same bits. -/
structure Refines (b : NativeBitmap) (a : Bitmap) : Prop where
  size : b.size = a.size
  bit : ∀ i, b.bit i = a.test i

/-- Flags and bitmap without bytes have the same bits. -/
structure FlagsRefine (flags : List Bool) (a : Bitmap) : Prop where
  length : flags.length = a.size
  flag : ∀ i, flags.getD i false = a.test i

/-- A native bitmap without its bytes. -/
def bitsOf (b : NativeBitmap) : Bitmap := ⟨b.size, b.bit⟩

theorem test_bitsOf (b : NativeBitmap) (i : Nat) : (bitsOf b).test i = b.test i := by
  rw [test_eq]
  rfl

theorem chunkPresent_bitsOf (found : NativeBitmap) (numRanks cbase : Nat) :
    LMCache.chunkPresent (bitsOf found) numRanks cbase = chunkPresent found numRanks cbase := by
  simp only [LMCache.chunkPresent, chunkPresent, test_bitsOf]

variable {a : Bitmap} {flags : List Bool}

theorem FlagsRefine.clear (h : FlagsRefine flags a) (k : Nat) :
    FlagsRefine (flags.set k false) (a.clear k) where
  length := (length_set ..).trans h.length
  flag i := by
    have hFlag := h.flag i
    rw [getD_eq_getElem?_getD] at hFlag
    rw [Bitmap.test_clear, ← hFlag, getD_eq_getElem?_getD, getElem?_set]
    rcases eq_or_ne k i with rfl | hk
    · simp only [↓reduceIte, decide_true, Bool.not_true, Bool.false_and]
      split <;> rfl
    · simp [hk, hk.symm]

theorem foldStep_refines (found : NativeBitmap) (numRanks chunkStride gbase effWindow : Nat)
    {run : Nat} (h : FlagsRefine flags a) (prefixLen : Nat) :
    let native := foldStep found numRanks chunkStride gbase effWindow (run, flags) prefixLen
    let bits := LMCache.foldStep (bitsOf found) numRanks chunkStride gbase effWindow (run, a)
      prefixLen
    native.1 = bits.1 ∧ FlagsRefine native.2 bits.2 := by
  simp only [foldStep, LMCache.foldStep, chunkPresent_bitsOf, h.flag]
  generalize (if chunkPresent found numRanks _ then run + 1 else 0) = next
  split
  · exact ⟨rfl, h.clear _⟩
  · exact ⟨rfl, h⟩

theorem foldGroup_refines (found : NativeBitmap) (numChunks numRanks numGroups : Nat)
    (h : FlagsRefine flags a) (group : Int × Nat) :
    FlagsRefine (foldGroup found numChunks numRanks numGroups flags group)
      (LMCache.foldGroup (bitsOf found) numChunks numRanks numGroups a group) := by
  unfold foldGroup LMCache.foldGroup
  dsimp only
  refine (foldl_rel (r := fun (s : Nat × List Bool) (t : Nat × Bitmap) =>
    s.1 = t.1 ∧ FlagsRefine s.2 t.2) ⟨rfl, h⟩ ?_).2
  rintro prefixLen - ⟨run, flags⟩ ⟨run', a⟩ ⟨rfl, hFlags⟩
  exact foldStep_refines found numRanks _ _ _ hFlags prefixLen

theorem collect_refines {flag : Nat → Bool} {size : Nat} (hSize : a.size = size)
    (hFlag : ∀ i, i < size → flag i = a.test i) : Refines (collect size flag) a := by
  have hFilter : collect size flag = ((List.range size).filter flag).foldl set
      (.zeros size) := by
    rw [collect, foldl_filter]
  refine ⟨?_, fun i => ?_⟩
  · rw [hFilter, (bit_foldl_set _ _ 0).1, hSize]
    rfl
  · rw [hFilter, (bit_foldl_set _ _ i).2, bit_zeros, Bool.or_false,
      size_zeros, ← Bool.decide_and]
    by_cases hi : i < size
    · simp [hi, hFlag i hi]
    · simp [hi, Bitmap.test_of_size_le (hSize ▸ Nat.not_lt.mp hi)]

theorem fold_refines (found : NativeBitmap) (numChunks numRanks : Nat) (groupWindows : List Int) :
    Refines (fold found numChunks numRanks groupWindows)
      (LMCache.fold (bitsOf found) numChunks numRanks groupWindows) := by
  have hStart : FlagsRefine (List.replicate numChunks true) (Bitmap.leading numChunks numChunks) :=
    ⟨length_replicate, fun i => by
      by_cases hi : i < numChunks <;>
        simp [getD_eq_getElem?_getD, hi]⟩
  have hFlags : FlagsRefine _ (LMCache.fold (bitsOf found) numChunks numRanks groupWindows) :=
    foldl_rel (r := FlagsRefine) hStart fun group _ _ _ h =>
      foldGroup_refines found numChunks numRanks groupWindows.length h group
  exact collect_refines (size_fold _ _ _ _) fun i _ => hFlags.flag i

variable {b : NativeBitmap}

theorem Refines.setRange (h : Refines b a) (start stop : Nat) :
    Refines (b.setRange start stop) (a.setRange start stop) where
  size := (size_setRange ..).trans h.size
  bit i := by rw [bit_setRange, Bitmap.test_setRange, h.bit, h.size]

theorem unfold_refines (hitLength numChunks numRanks : Nat) (groupWindows : List Int) :
    Refines (unfold hitLength numChunks numRanks groupWindows)
      (LMCache.unfold hitLength numChunks numRanks groupWindows) := by
  have hZeros : ∀ size, Refines (.zeros size) (.zeros size) := fun size =>
    ⟨rfl, fun i => by rw [bit_zeros, Bitmap.test_zeros]⟩
  unfold unfold LMCache.unfold
  dsimp only
  split
  · exact hZeros _
  · refine foldl_rel (r := Refines) (hZeros _) fun group _ mask mask' hMask => ?_
    exact foldl_rel (r := Refines) hMask fun j _ _ _ h => h.setRange _ _

theorem Refines.test (h : Refines b a) (i : Nat) : b.test i = a.test i := by
  rw [test_eq, h.bit, h.size]
  by_cases hi : i < a.size
  · rw [decide_eq_true hi, Bool.true_and]
  · rw [Bitmap.test_of_size_le (Nat.not_lt.mp hi), Bool.and_false]

theorem Refines.highestSetBit (h : Refines b a) : b.highestSetBit = a.highestSetBit := by
  rcases b.highestSetBit_spec with ⟨hNone, hAll⟩ | ⟨m, hSome, hSet, hAbove⟩
  · rw [hNone, Bitmap.highestSetBit_eq (h := 0) (Nat.zero_le _)
      (fun hPos => absurd hPos (lt_irrefl 0))
      fun i _ => (h.bit i).symm.trans (hAll i)]
    rfl
  · rw [h.bit] at hSet
    rw [hSome, Bitmap.highestSetBit_eq (h := m + 1) (Bitmap.lt_size_of_test hSet) (fun _ => hSet)
      fun i hi => (h.bit i).symm.trans (hAbove i hi)]
    omega

end NativeFold

namespace BitmapOps

def lastChunks (window : Int) (L : Nat) : Nat := if window ≤ 0 then L else min window.toNat L

/-- Every group has all ranks of the last chunks it needs for a prefix of length `L`. -/
def Serves (found : NativeBitmap) (numRanks : Nat) (groupWindows : List Int) (L : Nat) : Prop :=
  ∀ g : Fin groupWindows.length, ∀ j, L - lastChunks (groupWindows.get g) L ≤ j → j < L →
    ∀ r < numRanks, found.test (cell numRanks groupWindows.length j g r) = true

def chunkAnd (found : NativeBitmap) (numChunks numRanks numGroups : Nat) : NativeBitmap :=
  NativeFold.collect numChunks fun j =>
    (List.range numGroups).all fun g => (List.range numRanks).all fun r =>
      found.test (cell numRanks numGroups j g r)

theorem lo_windowOf (window : Int) (L : Nat) :
    Window.lo (windowOf window) L = L - lastChunks window L := by
  unfold windowOf lastChunks
  split
  · simp [Window.lo]
  · simp only [Window.lo]
    omega

theorem servable_iff_serves (found : NativeBitmap) (numRanks : Nat) (groupWindows : List Int)
    (L : Nat) :
    Window.Servable (groupWindow groupWindows)
        (presentCells (NativeFold.bitsOf found) numRanks groupWindows) L ↔
      Serves found numRanks groupWindows L := by
  simp only [Window.Servable, Serves, groupWindow, lo_windowOf, presentCells,
    NativeFold.test_bitsOf]

variable {found : NativeBitmap} {numChunks numRanks : Nat} {groupWindows : List Int}

theorem checkArguments_ok (hRanks : 1 ≤ numRanks) (hWindows : groupWindows ≠ []) :
    checkArguments numChunks numRanks groupWindows = .ok () := by
  have hRanks' : decide ((numRanks : Int) < 1) = false := decide_eq_false (by omega)
  have hChunks : decide ((numChunks : Int) < 0) = false := decide_eq_false (by omega)
  simp only [checkArguments, hRanks', decide_eq_false hWindows, hChunks, rejectIf_false, ok_bind]

theorem foldUnfoldRanked_ok (found : NativeBitmap) (numChunks : Nat) (hRanks : 1 ≤ numRanks)
    (hWindows : groupWindows ≠ []) :
    let hit := (LMCache.foldUnfoldRanked (NativeFold.bitsOf found) numChunks numRanks
      groupWindows).1
    foldUnfoldRanked found numChunks numRanks groupWindows =
      .ok ((hit : Int), NativeFold.unfold hit numChunks numRanks groupWindows) := by
  intro hit
  have hHighest :
      (NativeFold.fold found numChunks numRanks groupWindows).highestSetBit + 1 = hit := by
    rw [(NativeFold.fold_refines found numChunks numRanks groupWindows).highestSetBit]
    have hLow := Bitmap.neg_one_le_highestSetBit
      (LMCache.fold (NativeFold.bitsOf found) numChunks numRanks groupWindows)
    simp only [hit, LMCache.foldUnfoldRanked]
    omega
  simp only [foldUnfoldRanked, fold, unfold, checkArguments_ok hRanks hWindows, ok_bind,
    Int.toNat_natCast]
  simp only [pure, Except.pure, ok_bind, hHighest, Int.toNat_natCast]

theorem hit_isGreatest (found : NativeBitmap) (numChunks numRanks : Nat) (groupWindows : List Int) :
    IsGreatest {L | L ≤ numChunks ∧ Serves found numRanks groupWindows L}
      (LMCache.foldUnfoldRanked (NativeFold.bitsOf found) numChunks numRanks groupWindows).1 := by
  have hGreatest := foldUnfoldRanked_isGreatest (NativeFold.bitsOf found) numChunks numRanks
    groupWindows
  simpa only [Window.lengths, servable_iff_serves] using hGreatest

theorem Serves.mono {found' : NativeBitmap} (hFound : ∀ i, found.test i = true →
    found'.test i = true)
    {L : Nat} (h : Serves found numRanks groupWindows L) : Serves found' numRanks groupWindows L :=
  fun g j hLo hHi r hr => hFound _ (h g j hLo hHi r hr)

theorem clo_isGreatest (hFull : ∀ w ∈ groupWindows, w ≤ 0) :
    IsGreatest {L | L ≤ numChunks ∧ Serves found numRanks groupWindows L}
      (chunkAnd found numChunks numRanks groupWindows.length).clo := by
  let flag : Nat → Bool := fun j => (List.range groupWindows.length).all fun g =>
    (List.range numRanks).all fun r => found.test (cell numRanks groupWindows.length j g r)
  have hBits : NativeFold.Refines (chunkAnd found numChunks numRanks groupWindows.length)
      ⟨numChunks, flag⟩ :=
    NativeFold.collect_refines rfl fun i hi => by simp [Bitmap.test, hi, flag]
  have hFlag : ∀ j, flag j = true ↔ ∀ g : Fin groupWindows.length, ∀ r < numRanks,
      found.test (cell numRanks groupWindows.length j g r) = true := by
    intro j
    simp only [flag, all_eq_true, mem_range]
    exact ⟨fun h g r hr => h g g.isLt r hr, fun h g hg r hr => h ⟨g, hg⟩ r hr⟩
  have hAll : ∀ (g : Fin groupWindows.length) L, lastChunks (groupWindows.get g) L = L := fun g L =>
    if_pos (hFull _ (get_mem _ _))
  obtain ⟨hLe, hBelow, hAt⟩ :=
    (chunkAnd found numChunks numRanks groupWindows.length).clo_spec
  rw [hBits.size] at hLe hAt
  constructor
  · refine ⟨hLe, fun g j _ hj => ?_⟩
    have hBit := hBelow j hj
    rw [hBits.bit, Bitmap.test, Bool.and_eq_true] at hBit
    exact (hFlag j).mp hBit.2 g
  · rintro L ⟨hLength, hServes⟩
    by_contra hLt
    have hClo := Nat.not_le.mp hLt
    have hBit := hAt (lt_of_lt_of_le hClo hLength)
    rw [hBits.bit, Bitmap.test, decide_eq_true (lt_of_lt_of_le hClo hLength), Bool.true_and] at hBit
    have hComplete := (hFlag _).mpr fun g r hr => hServes g _ (by rw [hAll]; omega) hClo r hr
    exact absurd (hComplete.symm.trans hBit) (by decide)

theorem test_unfold_iff {hit : Nat} (hHit : hit ≤ numChunks) (i : Nat) :
    (NativeFold.unfold hit numChunks numRanks groupWindows).test i = true ↔
      ∃ (g : Fin groupWindows.length) (j : Nat) (r : Nat), r < numRanks ∧
        i = cell numRanks groupWindows.length j g r ∧
        (unfoldRange hit (groupWindows.get g)).1 ≤ j ∧
        (j : Int) < (unfoldRange hit (groupWindows.get g)).2 := by
  have hRange : ∀ (g : Fin groupWindows.length) (j : Nat),
      ((unfoldRange hit (groupWindows.get g)).1 ≤ j ∧
        (j : Int) < (unfoldRange hit (groupWindows.get g)).2) ↔
      Window.lo (groupWindow groupWindows g) hit ≤ j ∧ j < hit := by
    intro g j
    rcases Nat.eq_zero_or_pos hit with rfl | hPos
    · simp [unfoldRange]
    · rw [NativeFold.unfoldRange_eq hPos, groupWindow, ← retainLo_eq]
      omega
  have hRefines := NativeFold.unfold_refines hit numChunks numRanks groupWindows
  rw [hRefines.test]
  constructor
  · intro hTest
    have hSize := Bitmap.lt_size_of_test hTest
    rw [size_unfold] at hSize
    obtain ⟨j, g, r, -, hg, hr, rfl⟩ := exists_cell hSize
    exact ⟨⟨g, hg⟩, j, r, hr, rfl, (hRange ⟨g, hg⟩ j).mpr
      ((test_unfold_cell hHit j ⟨g, hg⟩ hr).mp hTest)⟩
  · rintro ⟨g, j, r, hr, rfl, hIn⟩
    exact (test_unfold_cell hHit j g hr).mpr ((hRange g j).mp hIn)

/-- Fold and unfold over any found bitmap: the kernel agrees with the reference; the hit is
the greatest length that every group serves; the mask is the cells of `unfold_range`, all of
them found; a larger found bitmap has no smaller hit; and without windows the hit counts the
leading complete chunks. -/
theorem foldUnfoldRanked_spec (found : NativeBitmap) (numChunks numRanks : Nat)
    (groupWindows : List Int) (hRanks : 1 ≤ numRanks) (hWindows : groupWindows ≠ [])
    (hSize : found.size = numChunks * (groupWindows.length * numRanks)) :
    NativeFold.fold found numChunks numRanks groupWindows =
        foldPython found numChunks numRanks groupWindows ∧
    (∀ hitLength : Nat, NativeFold.unfold hitLength numChunks numRanks groupWindows =
        unfoldPython hitLength numChunks numRanks groupWindows) ∧
    ∃ (hit : Nat) (mask : NativeBitmap),
      foldUnfoldRanked found numChunks numRanks groupWindows = .ok ((hit : Int), mask) ∧
      IsGreatest {L | L ≤ numChunks ∧ Serves found numRanks groupWindows L} hit ∧
      mask.size = found.size ∧
      (∀ i, mask.test i = true → found.test i = true) ∧
      (∀ i, mask.test i = true ↔ ∃ (g : Fin groupWindows.length) (j : Nat) (r : Nat),
        r < numRanks ∧ i = cell numRanks groupWindows.length j g r ∧
        (unfoldRange hit (groupWindows.get g)).1 ≤ j ∧
        (j : Int) < (unfoldRange hit (groupWindows.get g)).2) ∧
      (∀ (found' : NativeBitmap) (hit' : Nat) (mask' : NativeBitmap),
        found'.size = found.size → (∀ i, found.test i = true → found'.test i = true) →
        foldUnfoldRanked found' numChunks numRanks groupWindows = .ok ((hit' : Int), mask') →
        hit ≤ hit') ∧
      ((∀ w ∈ groupWindows, w ≤ 0) →
        hit = (chunkAnd found numChunks numRanks groupWindows.length).clo) := by
  have hGreatest := hit_isGreatest found numChunks numRanks groupWindows
  refine ⟨NativeFold.fold_eq_foldPython _ _ _ _,
    fun hitLength => NativeFold.unfold_eq_unfoldPython hitLength _ _ _, _, _,
    foldUnfoldRanked_ok found numChunks hRanks hWindows, hGreatest, ?_, ?_,
    test_unfold_iff hGreatest.1.1, ?_, ?_⟩
  · rw [(NativeFold.unfold_refines _ numChunks numRanks groupWindows).size, size_unfold, hSize]
  · intro i hTest
    rw [(NativeFold.unfold_refines _ numChunks numRanks groupWindows).test] at hTest
    rw [← NativeFold.test_bitsOf]
    exact found_of_retained hTest
  · intro found' hit' mask' _ hFound hOk
    rw [foldUnfoldRanked_ok found' numChunks hRanks hWindows] at hOk
    obtain ⟨hHit, -⟩ := Prod.mk.inj (Except.ok.inj hOk)
    rw [← Int.ofNat_inj.mp hHit]
    exact (hit_isGreatest found' numChunks numRanks groupWindows).2
      ⟨hGreatest.1.1, hGreatest.1.2.mono hFound⟩
  · exact fun hFull => hGreatest.unique (clo_isGreatest hFull)

/-- Two chunks of a group with full attention and one with a window of one chunk; the first
chunk of the windowed group is missing, and still both chunks are a hit. -/
theorem foldUnfoldRanked_spec_windowed : ∃ mask : NativeBitmap,
    foldUnfoldRanked ((leading 4 4).clear 1) 2 1 [-1, 1] = .ok (2, mask) ∧
      ∀ i, mask.test i = true → ((leading 4 4).clear 1).test i = true := by
  obtain ⟨-, -, hit, mask, hOk, hGreatest, -, hSub, -⟩ :=
    foldUnfoldRanked_spec ((leading 4 4).clear 1) 2 1 [-1, 1] (by decide) (by decide)
      (by decide)
  have hTwo : hit = 2 := by
    refine hGreatest.unique ⟨⟨le_rfl, ?_⟩, fun L hL => hL.1⟩
    unfold Serves
    decide
  subst hTwo
  exact ⟨mask, hOk, hSub⟩

end BitmapOps

end LMCache
