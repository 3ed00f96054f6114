import LMCache.Memory.AddressSpec

/-!
# A batch is a sequence of allocations

`allocate` searches the free list from its start for every block; `batched_allocate` goes through
the list once. For a positive size a batch succeeds exactly when as many single allocations do,
with the same blocks and the same state, and a batch that fails has not touched the manager.
-/

namespace LMCache

open Lib FirstFit List

namespace AddressManager

abbrev Method (α : Type) := ExceptT PyException (StateM AddressManager) α

/-- The outcome of a method, and the state that it leaves also when it raises. -/
def Method.perform {α : Type} (method : Method α) (am : AddressManager) :
    Result α × AddressManager :=
  Id.run ((ExceptT.run method).run am)

def allocateBody (size : Nat) : Method FreeBlock := do
  let am ← get
  let alignedSize := am.computeAlignedSize size
  match am.explicitList.find? fun block => decide (alignedSize ≤ block.size) with
  | none => throw ⟨.runtimeError, noMemoryText size⟩
  | some block =>
    modify fun am => { am with explicitList := am.explicitList.erase block }
    if block.size > alignedSize then
      modify fun am => { am with
        explicitList := add ⟨block.start + alignedSize, block.size - alignedSize⟩ am.explicitList }
    modify fun am => { am with totalAllocatedSize := am.totalAllocatedSize + alignedSize }
    return ⟨block.start, alignedSize⟩

/-- The loop over the free blocks changes locals only; it comes before the first write. -/
def batchedAllocateBody (size : Nat) (batchSize : Int) : Method (List FreeBlock) := do
  let am ← get
  let alignedSize := am.computeAlignedSize size
  let c := carve alignedSize am.explicitList ⟨batchSize, [], [], []⟩
  if alignedSize = 0 && batchSize > 0 && !am.explicitList.isEmpty then
    throw ⟨.zeroDivisionError, "integer division or modulo by zero"⟩
  else if c.remaining > 0 then throw ⟨.runtimeError, noBatchMemoryText size batchSize⟩
  else if c.allocateResult.length ≠ batchSize then
    throw ⟨.runtimeError, batchLengthText size batchSize c.allocateResult.length⟩
  else
    c.blocksToRemove.forM fun block =>
      modify fun am => { am with explicitList := am.explicitList.erase block }
    c.blocksToAdd.forM fun block =>
      modify fun am => { am with explicitList := add block am.explicitList }
    modify fun am =>
      { am with totalAllocatedSize := am.totalAllocatedSize + alignedSize * batchSize }
    return c.allocateResult

/-- Successive calls of `allocate`, up to the first that raises. -/
def allocateEach (size : Nat) : Nat → Method (List FreeBlock)
  | 0 => return []
  | count + 1 => do
    let block ← allocateBody size
    let blocks ← allocateEach size count
    return block :: blocks

/-- A result of the model: an exception leaves the manager as it was. -/
def settle {α : Type} (am : AddressManager) (result : Result (α × AddressManager)) :
    Result α × AddressManager :=
  match result with
  | .ok r => (.ok r.1, r.2)
  | .error e => (.error e, am)

variable {α β : Type} {am : AddressManager}

theorem perform_bind (m : Method α) (k : α → Method β) :
    (m >>= k).perform am =
      match m.perform am with
      | (.ok a, am') => (k a).perform am'
      | (.error e, am') => (.error e, am') := by
  change Id.run _ = _
  unfold Method.perform
  simp only [ExceptT.run_bind, StateT.run_bind, Id.run_bind]
  rcases h : (StateT.run (ExceptT.run m) am).run with ⟨r | r, am'⟩ <;> rfl

theorem perform_get : (get : Method AddressManager).perform am = (.ok am, am) := rfl

theorem perform_pure (a : α) : (pure a : Method α).perform am = (.ok a, am) := rfl

theorem perform_modify (f : AddressManager → AddressManager) :
    (modify f : Method Unit).perform am = (.ok (), f am) := rfl

theorem perform_forM (f : FreeBlock → AddressManager → AddressManager) (blocks : List FreeBlock) :
    Method.perform (blocks.forM fun block => modify (f block)) am =
      (.ok (), blocks.foldl (fun am block => f block am) am) := by
  induction blocks generalizing am with
  | nil => rfl
  | cons block blocks ih =>
    change Method.perform (modify (f block) >>= fun _ => blocks.forM fun b => modify (f b)) am = _
    rw [perform_bind, perform_modify]
    exact ih

theorem foldl_explicitList (f : FreeBlock → List FreeBlock → List FreeBlock)
    (blocks : List FreeBlock) :
    blocks.foldl (fun (am : AddressManager) block =>
        { am with explicitList := f block am.explicitList }) am =
      { am with explicitList := blocks.foldl (fun l block => f block l) am.explicitList } := by
  induction blocks generalizing am with
  | nil => rfl
  | cons block blocks ih => exact ih

theorem perform_allocateBody (size : Nat) :
    (allocateBody size).perform am = settle am (am.allocate size) := by
  unfold allocateBody allocate
  rw [perform_bind, perform_get]
  dsimp only
  cases am.explicitList.find? fun block => decide (am.computeAlignedSize size ≤ block.size) with
  | none => rfl
  | some block =>
    dsimp only
    split <;> rfl

theorem perform_batchedAllocateBody (size : Nat) (batchSize : Int) :
    (batchedAllocateBody size batchSize).perform am =
      settle am (am.batchedAllocate size batchSize) := by
  unfold batchedAllocateBody batchedAllocate
  rw [perform_bind, perform_get]
  dsimp only
  generalize carve (am.computeAlignedSize size) am.explicitList ⟨batchSize, [], [], []⟩ = c
  generalize (decide (am.computeAlignedSize size = 0) && decide (batchSize > 0) &&
    !am.explicitList.isEmpty) = divides
  cases divides with
  | true => rfl
  | false =>
    rw [if_neg Bool.false_ne_true, raiseIf_false, ok_bind]
    by_cases hRemaining : c.remaining > 0
    · rw [if_pos hRemaining, decide_eq_true hRemaining]
      rfl
    rw [if_neg hRemaining, decide_eq_false hRemaining, raiseIf_false, ok_bind]
    by_cases hLength : (c.allocateResult.length : Int) ≠ batchSize
    · rw [if_pos hLength, decide_eq_true hLength]
      rfl
    rw [if_neg hLength, decide_eq_false hLength, raiseIf_false, ok_bind, perform_bind,
      perform_forM (fun block am => { am with explicitList := am.explicitList.erase block }),
      foldl_explicitList fun block l => l.erase block]
    dsimp only
    rw [perform_bind,
      perform_forM (fun block am => { am with explicitList := add block am.explicitList }),
      foldl_explicitList add]
    rfl

theorem allocate_of_none {size : Nat}
    (h : takeFirst (am.computeAlignedSize size) am.explicitList = none) :
    am.allocate size = raise .runtimeError (noMemoryText size) := by
  rw [takeFirst, Option.map_eq_none_iff] at h
  unfold allocate
  dsimp only
  rw [h]

theorem allocate_of_some {size : Nat} {block : FreeBlock} {blocks : List FreeBlock}
    (h : takeFirst (am.computeAlignedSize size) am.explicitList = some (block, blocks)) :
    am.allocate size = .ok (block,
      { am with
        explicitList := blocks
        totalAllocatedSize := am.totalAllocatedSize + am.computeAlignedSize size }) := by
  obtain ⟨found, hFound, hEq⟩ := Option.map_eq_some_iff.mp h
  obtain ⟨rfl, rfl⟩ := Prod.mk.inj hEq
  unfold allocate
  dsimp only
  rw [hFound]
  dsimp only [Extent.after]
  split <;> rfl

theorem perform_allocateEach {size count : Nat} {blocks free : List FreeBlock}
    (h : takeMany (am.computeAlignedSize size) count am.explicitList = some (blocks, free)) :
    (allocateEach size count).perform am = (.ok blocks,
      { am with
        explicitList := free
        totalAllocatedSize := am.totalAllocatedSize + am.computeAlignedSize size * count }) := by
  induction count generalizing am blocks with
  | zero =>
    cases h
    simp [allocateEach, perform_pure]
  | succ count ih =>
    obtain ⟨first, hFirst, h⟩ := Option.bind_eq_some_iff.mp h
    obtain ⟨rest, hRest, hEq⟩ := Option.map_eq_some_iff.mp h
    obtain ⟨rfl, rfl⟩ := Prod.mk.inj hEq
    rw [allocateEach, perform_bind, perform_allocateBody, allocate_of_some hFirst]
    dsimp only [settle]
    rw [perform_bind, ih hRest]
    dsimp only
    rw [perform_pure]
    congr 2
    push_cast
    change _ + (am.computeAlignedSize size : Int) * count = _
    ring

theorem perform_allocateEach_error {size count : Nat}
    (h : takeMany (am.computeAlignedSize size) count am.explicitList = none) :
    ∃ e am', (allocateEach size count).perform am = (.error e, am') := by
  induction count generalizing am with
  | zero => cases h
  | succ count ih =>
    rw [allocateEach, perform_bind, perform_allocateBody]
    cases hFirst : takeFirst (am.computeAlignedSize size) am.explicitList with
    | none =>
      rw [allocate_of_none hFirst]
      exact ⟨_, _, rfl⟩
    | some first =>
      rw [allocate_of_some hFirst]
      rw [takeMany, hFirst, Option.bind_some, Option.map_eq_none_iff] at h
      obtain ⟨e, am', hEach⟩ := @ih { am with
        explicitList := first.2
        totalAllocatedSize := am.totalAllocatedSize + am.computeAlignedSize size } h
      dsimp only [settle]
      rw [perform_bind, hEach]
      exact ⟨e, am', rfl⟩

def Carving.left (c : Carving) (blocks : List FreeBlock) : List FreeBlock :=
  insertAll (c.blocksToRemove.foldl (fun l block => l.erase block) blocks) c.blocksToAdd

/-- The blocks carved so far are those of single allocations. While some are missing, the
blocks that are still to be looked at are, of the free list that the allocations left, those
that are large enough. -/
structure Carves (n count : Nat) (blocks rest : List FreeBlock) (c : Carving) : Prop where
  taken : ∃ done missing : Nat, c.remaining = missing ∧ done + missing = count ∧
    takeMany n done blocks = some (c.allocateResult, c.left blocks)
  pending : 0 < c.remaining →
    fitting n (c.left blocks) = fitting n rest ∧ ∀ b ∈ c.blocksToAdd, b.size < n

variable {n count : Nat} {blocks rest : List FreeBlock} {c : Carving}

theorem left_take {block : FreeBlock} (c : Carving) (n : Nat) (hSorted : FirstFit.Sorted blocks)
    (hNew : block ∉ c.blocksToAdd) :
    (c.take n block).left blocks = insertAll ((c.left blocks).erase block)
      (block.after (min c.remaining.toNat (block.size / n) * n)) := by
  have hErased : FirstFit.Sorted (c.blocksToRemove.foldl (fun l b => l.erase b) blocks) :=
    foldl_erase_sorted c.blocksToRemove hSorted
  rw [Carving.left, Carving.left, erase_insertAll hErased hNew]
  simp only [Carving.take, insertAll, foldl_append, foldl_cons, foldl_nil, Extent.after, gt_iff_lt]
  split <;> simp

theorem Carves.take {block : FreeBlock} (hPos : 0 < n) (hSorted : FirstFit.Sorted blocks)
    (h : Carves n count blocks (block :: rest) c) (hOpen : 0 < c.remaining)
    (hFits : n ≤ block.size) (hApart : ∀ b ∈ fitting n rest, block.stop ≤ b.start) :
    Carves n count blocks rest (c.take n block) := by
  obtain ⟨done, missing, hRemaining, hCount, hTaken⟩ := h.taken
  obtain ⟨hFitting, hSmall⟩ := h.pending hOpen
  rw [fitting_cons, if_pos hFits] at hFitting
  have hNew : block ∉ c.blocksToAdd := fun hMem => absurd (hSmall block hMem) (not_lt.mpr hFits)
  have hMissing : c.remaining.toNat = missing := by omega
  have hLeft := left_take c n hSorted hNew
  rw [hMissing] at hLeft
  generalize hUsed : min missing (block.size / n) = used at hLeft
  have hRoom : used * n ≤ block.size :=
    (Nat.mul_le_mul_right n (hUsed ▸ min_le_right _ _)).trans (Nat.div_mul_le_self _ _)
  have hSome : 0 < used := by
    have hDiv := Nat.div_pos hFits hPos
    omega
  have hMore := takeMany_first hPos hFitting hApart hSome hRoom
  have hResult : (c.take n block).allocateResult = c.allocateResult ++ block.blocks n used := by
    simp only [Carving.take, hMissing, hUsed, Extent.blocks]
  have hNow : (c.take n block).remaining = ((missing - used : Nat) : Int) := by
    simp only [Carving.take, hRemaining]
    omega
  refine ⟨⟨done + used, missing - used, hNow, by omega, ?_⟩, fun hStill => ?_⟩
  · rw [takeMany_add, hTaken, Option.bind_some, hMore, hResult, hLeft]
    rfl
  · -- the batch goes on, so what is left of the block is too small
    have hAll : used = block.size / n := by omega
    have hRest : block.size - used * n < n := by
      have hMod := Nat.mod_lt block.size hPos
      have hDiv := Nat.div_add_mod block.size n
      rw [Nat.mul_comm, ← hAll] at hDiv
      omega
    have hEnd : ∀ b ∈ block.after (used * n), b.size < n := by
      intro b hb
      obtain ⟨-, rfl⟩ := Extent.mem_after.mp hb
      exact hRest
    constructor
    · rw [hLeft, ← fitting_erase_first hFitting]
      unfold Extent.after
      split
      · exact fitting_insert_small hRest
      · rfl
    · intro b hb
      simp only [Carving.take, hMissing, hUsed] at hb
      split at hb
      · rename_i hMoreSize
        rcases mem_append.mp hb with hb | hb
        · exact hSmall b hb
        · obtain rfl := mem_singleton.mp hb
          exact hRest
      · exact hSmall b hb

theorem Carves.carve (hPos : 0 < n) (hSorted : FirstFit.Sorted blocks)
    (h : Carves n count blocks rest c)
    (hApart : (fitting n rest).Pairwise fun a b => a.stop ≤ b.start) :
    ∃ rest', Carves n count blocks rest' (carve n rest c) ∧
      (0 < (AddressManager.carve n rest c).remaining → rest' = []) := by
  induction rest generalizing c with
  | nil => exact ⟨[], h, fun _ => rfl⟩
  | cons block rest ih =>
    unfold AddressManager.carve
    by_cases hDone : c.remaining ≤ 0
    · rw [if_pos hDone]
      exact ⟨_, h, fun hOpen => absurd hOpen (not_lt.mpr hDone)⟩
    rw [if_neg hDone]
    rw [fitting_cons] at hApart
    by_cases hSmall : block.size < n
    · rw [if_pos hSmall]
      rw [if_neg (not_le.mpr hSmall)] at hApart
      refine ih ⟨h.taken, fun hOpen => ?_⟩ hApart
      have hPending := h.pending hOpen
      rwa [fitting_cons, if_neg (not_le.mpr hSmall)] at hPending
    · rw [if_neg hSmall]
      rw [if_pos (not_lt.mp hSmall)] at hApart
      obtain ⟨hHead, hTail⟩ := pairwise_cons.mp hApart
      exact ih (h.take hPos hSorted (not_le.mp hDone) (not_lt.mp hSmall) hHead) hTail

theorem carve_takeMany (hPos : 0 < n) (hSorted : FirstFit.Sorted blocks)
    (hApart : (fitting n blocks).Pairwise fun a b => a.stop ≤ b.start) (count : Nat) :
    ((carve n blocks ⟨count, [], [], []⟩).remaining ≤ 0 ∧
      (carve n blocks ⟨count, [], [], []⟩).allocateResult.length = count ∧
      takeMany n count blocks = some ((carve n blocks ⟨count, [], [], []⟩).allocateResult,
        (carve n blocks ⟨count, [], [], []⟩).left blocks)) ∨
    (0 < (carve n blocks ⟨count, [], [], []⟩).remaining ∧ takeMany n count blocks = none) := by
  have hStart : Carves n count blocks blocks ⟨count, [], [], []⟩ :=
    ⟨⟨0, count, rfl, Nat.zero_add _, rfl⟩, fun _ => ⟨rfl, fun b hb => by cases hb⟩⟩
  obtain ⟨rest, hCarves, hEnd⟩ := hStart.carve hPos hSorted hApart
  generalize carve n blocks ⟨count, [], [], []⟩ = c at hCarves hEnd ⊢
  obtain ⟨done, missing, hRemaining, hCount, hTaken⟩ := hCarves.taken
  rcases Nat.eq_zero_or_pos missing with rfl | hMissing
  · rw [Nat.add_zero] at hCount
    rw [hCount] at hTaken
    exact Or.inl ⟨by omega, length_takeMany hTaken, hTaken⟩
  · have hOpen : 0 < c.remaining := by omega
    have hNone : fitting n (c.left blocks) = [] := by
      rw [(hCarves.pending hOpen).1, hEnd hOpen]
      rfl
    obtain ⟨more, rfl⟩ := Nat.exists_eq_succ_of_ne_zero hMissing.ne'
    refine Or.inr ⟨hOpen, ?_⟩
    rw [← hCount, takeMany_add, hTaken, Option.bind_some, takeMany, takeFirst_eq_none hNone]
    rfl

/-- The free list is sorted, and of its blocks those that are not empty lie apart. -/
structure Ordered (am : AddressManager) : Prop where
  sorted : FirstFit.Sorted am.explicitList
  apart : (fitting 1 am.explicitList).Pairwise fun a b => a.stop ≤ b.start

theorem Ordered.fitting (h : am.Ordered) (hPos : 0 < n) :
    (fitting n am.explicitList).Pairwise fun a b => a.stop ≤ b.start := by
  have hSublist : (FirstFit.fitting n am.explicitList).Sublist
      (FirstFit.fitting 1 am.explicitList) := by
    refine monotone_filter_right _ fun b hb => ?_
    rw [decide_eq_true_eq] at hb ⊢
    exact le_trans hPos hb
  exact h.apart.sublist hSublist

theorem batchedAllocate_of_pos {size : Nat} (hPos : 0 < am.computeAlignedSize size)
    (batchSize : Int) :
    am.batchedAllocate size batchSize = (do
      let c := carve (am.computeAlignedSize size) am.explicitList ⟨batchSize, [], [], []⟩
      raiseIf .runtimeError (c.remaining > 0) (noBatchMemoryText size batchSize)
      raiseIf .runtimeError (c.allocateResult.length ≠ batchSize)
        (batchLengthText size batchSize c.allocateResult.length)
      return (c.allocateResult,
        { am with
          explicitList := c.left am.explicitList
          totalAllocatedSize :=
            am.totalAllocatedSize + am.computeAlignedSize size * batchSize })) := by
  have hNoDivision : decide (am.computeAlignedSize size = 0) = false :=
    decide_eq_false hPos.ne'
  unfold batchedAllocate
  dsimp only
  rw [hNoDivision, Bool.false_and, Bool.false_and, raiseIf_false, ok_bind]
  rfl

/-- A batch of blocks of a positive size and as many single allocations have the same outcome;
a batch that fails leaves the manager as it was. -/
theorem Ordered.batch_eq_each (h : am.Ordered) (hAlign : 0 < am.align) {size : Nat}
    (hPos : 0 < size) (count : Nat) :
    ((∃ blocks am', (batchedAllocateBody size count).perform am = (.ok blocks, am') ∧
        (allocateEach size count).perform am = (.ok blocks, am')) ∨
      ((∃ e, (batchedAllocateBody size count).perform am = (.error e, am)) ∧
        ∃ e am', (allocateEach size count).perform am = (.error e, am'))) := by
  have hSize := aligned_pos hAlign hPos
  rw [perform_batchedAllocateBody, batchedAllocate_of_pos hSize]
  dsimp only
  rcases carve_takeMany hSize h.sorted (h.fitting hSize) count with
    ⟨hDone, hLength, hTaken⟩ | ⟨hOpen, hNone⟩
  · refine Or.inl ⟨_, _, ?_, perform_allocateEach hTaken⟩
    rw [decide_eq_false (not_lt.mpr hDone), raiseIf_false, ok_bind, hLength,
      decide_eq_false (by simp), raiseIf_false, ok_bind]
    rfl
  · refine Or.inr ⟨⟨⟨.runtimeError, noBatchMemoryText size count⟩, ?_⟩,
      perform_allocateEach_error hNone⟩
    rw [decide_eq_true hOpen]
    rfl

end AddressManager

namespace AddressSpace

open AddressManager

variable {alignBytes : Nat} {s : AddressSpace}

theorem Kept.ordered (h : Kept alignBytes s) : s.manager.Ordered where
  sorted := h.sorted
  apart := (h.separated.sublist filter_sublist).imp le_of_lt

theorem ordered_of_reachable {heap : Nat} (hAlign : 0 < alignBytes)
    (h : Reachable heap alignBytes s) : s.manager.Ordered ∧ s.manager.align = alignBytes := by
  rcases h.kept hAlign with rfl | ⟨hKept, -⟩
  · exact ⟨⟨pairwise_singleton _ _, .nil⟩, rfl⟩
  · exact ⟨hKept.ordered, hKept.align⟩

/-- In every state that a manager reaches, a batch of blocks of a positive size and as many
single allocations succeed together, with the same blocks and the same state; a batch that
fails leaves the state as it was. -/
theorem batched_eq_repeated {heap alignBytes : Nat} (hAlign : 0 < alignBytes) {s : AddressSpace}
    (h : Reachable heap alignBytes s) {size : Nat} (hPos : 0 < size) (count : Nat) :
    ((batchedAllocateBody size count).perform s.manager).1.isOk =
        ((allocateEach size count).perform s.manager).1.isOk ∧
      (((batchedAllocateBody size count).perform s.manager).1.isOk = true →
        (batchedAllocateBody size count).perform s.manager =
          (allocateEach size count).perform s.manager) ∧
      (((batchedAllocateBody size count).perform s.manager).1.isOk = false →
        ((batchedAllocateBody size count).perform s.manager).2 = s.manager) := by
  obtain ⟨hOrdered, hEq⟩ := ordered_of_reachable hAlign h
  rcases hOrdered.batch_eq_each (hEq ▸ hAlign) hPos count with
    ⟨blocks, am', hBatch, hEach⟩ | ⟨⟨e, hBatch⟩, e', am', hEach⟩
  · rw [hBatch, hEach]
    exact ⟨rfl, fun _ => rfl, fun hFailed => Bool.noConfusion hFailed⟩
  · rw [hBatch, hEach]
    exact ⟨rfl, fun hOk => Bool.noConfusion hOk, fun _ => rfl⟩

theorem batched_eq_repeated_fragmented :
    ((batchedAllocateBody 100 2).perform ⟨16384, 4096, [⟨0, 4096⟩, ⟨8192, 8192⟩], 4096⟩).1.isOk =
        ((allocateEach 100 2).perform ⟨16384, 4096, [⟨0, 4096⟩, ⟨8192, 8192⟩], 4096⟩).1.isOk ∧
      ((batchedAllocateBody 100 2).perform ⟨16384, 4096, [⟨0, 4096⟩, ⟨8192, 8192⟩], 4096⟩) =
        (.ok [⟨0, 4096⟩, ⟨8192, 4096⟩], ⟨16384, 4096, [⟨12288, 4096⟩], 12288⟩) :=
  have hReachable : Reachable 16384 4096
      ⟨⟨16384, 4096, [⟨0, 4096⟩, ⟨8192, 8192⟩], 4096⟩, [⟨4096, 4096⟩]⟩ :=
    ⟨[.batchedAllocate 1 2, .free ⟨0, 4096⟩], Run.of_exec call (by decide)⟩
  ⟨(batched_eq_repeated (by decide) hReachable (by decide) 2).1, by rfl⟩

/-- A batch of empty blocks divides by zero, where single allocations succeed. -/
theorem batched_ne_repeated_empty :
    ¬ ∀ (heap alignBytes : Nat) (s : AddressSpace), 0 < alignBytes → Reachable heap alignBytes s →
      ∀ size count : Nat, 1 ≤ count →
        ((batchedAllocateBody size count).perform s.manager).1.isOk =
          ((allocateEach size count).perform s.manager).1.isOk := by
  intro h
  have hOne := h 4096 4096 (init 4096 4096) (by decide) ⟨[], .nil _⟩ 0 1 le_rfl
  exact absurd hOne (by decide)

end AddressSpace

end LMCache
