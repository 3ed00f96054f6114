import LMCache.Prefetch.Request

/-!
# L2 locks of a request

An adapter locks the keys that its lookup reports, and `submit_unlock` gives a lock back. A
request keeps the locks it has not given back per adapter. Counting the unlocks of each key
shows that nothing is lost and nothing is given back twice: at every point, the unlocks of a
key and the lock still held add up to the lock that was acquired. When a request finishes it
holds none, so each acquired lock was released exactly once.
-/

namespace LMCache

open Lib List Dict

namespace InFlightPrefetchRequest

variable {K : Type}

/-- The lookup of `adapter` locked key number `i`. -/
def acquiredL2 (r : InFlightPrefetchRequest K) (adapter i : Nat) : Bool :=
  (r.lookupResults.get? adapter).any fun b => b.test i

def heldL2 (r : InFlightPrefetchRequest K) (adapter i : Nat) : Bool :=
  (r.l2Adapter2Readlocks.get? adapter).any fun b => b.test i

def L2Released (r : InFlightPrefetchRequest K) : Prop := ∀ a i, r.heldL2 a i = false

section Release

variable {r : InFlightPrefetchRequest K} (keep : LoadPlan)

/-- Bits of an adapter that `_release_l2_locks` keeps. -/
def keepBitmap (r : InFlightPrefetchRequest K) (keep : LoadPlan) (adapter : Nat) : Bitmap :=
  (keep.get? adapter).getD (Bitmap.zeros r.numKeys)

/-- The unlocks of one `_release_l2_locks`, in order. -/
def newUnlocks (r : InFlightPrefetchRequest K) (keep : LoadPlan) : List (Nat × K) :=
  r.l2Adapter2Readlocks.keys.flatMap fun a =>
    (r.releaseStep keep a (r.l2Adapter2Readlocks.get? a)).1.map fun k => (a, k)

theorem submittedUnlocks_releaseL2Locks :
    (r.releaseL2Locks keep).submittedUnlocks = r.submittedUnlocks ++ r.newUnlocks keep := by
  simp only [releaseL2Locks, newUnlocks,
    updateEach_outcomes _ r.l2Adapter2Readlocks.nodup_keys, flatMap_map]

theorem get?_l2_releaseL2Locks (a : Nat) :
    (r.releaseL2Locks keep).l2Adapter2Readlocks.get? a =
      (r.releaseStep keep a (r.l2Adapter2Readlocks.get? a)).2 := by
  simp only [releaseL2Locks, get?_updateEach _ r.l2Adapter2Readlocks.nodup_keys]
  split
  · rfl
  · rename_i hNot
    rw [get?_eq_none_iff.mpr hNot]
    rfl

theorem releaseStep_nodup (a : Nat) (o : Option Bitmap) : (r.releaseStep keep a o).1.Nodup := by
  cases o with
  | none => exact nodup_nil
  | some held => exact Bitmap.gather_nodup _ r.spec.keys_nodup

theorem newUnlocks_nodup : (r.newUnlocks keep).Nodup := by
  rw [newUnlocks, nodup_flatMap]
  constructor
  · intro a _
    refine (releaseStep_nodup keep a _).map ?_
    intro k k' hEq
    exact (Prod.mk.inj hEq).2
  · refine r.l2Adapter2Readlocks.nodup_keys.imp ?_
    intro a a' hne p hp hp'
    obtain ⟨k, -, rfl⟩ := mem_map.mp hp
    obtain ⟨k', -, hEq⟩ := mem_map.mp hp'
    exact hne (Prod.mk.inj hEq).1.symm

theorem mem_newUnlocks {a : Nat} {k : K} :
    (a, k) ∈ r.newUnlocks keep ↔ k ∈ (r.releaseStep keep a (r.l2Adapter2Readlocks.get? a)).1 := by
  rw [newUnlocks, mem_flatMap]
  constructor
  · rintro ⟨a', -, hMem⟩
    obtain ⟨k', hk', hEq⟩ := mem_map.mp hMem
    obtain ⟨rfl, rfl⟩ := Prod.mk.inj hEq
    exact hk'
  · intro hk
    refine ⟨a, ?_, mem_map.mpr ⟨k, hk, rfl⟩⟩
    by_contra hNot
    rw [get?_eq_none_iff.mpr hNot] at hk
    cases hk

theorem heldL2_releaseL2Locks (a i : Nat) :
    (r.releaseL2Locks keep).heldL2 a i = (r.heldL2 a i && (r.keepBitmap keep a).test i) := by
  rw [heldL2, get?_l2_releaseL2Locks, heldL2]
  cases r.l2Adapter2Readlocks.get? a with
  | none => rfl
  | some held =>
    simp only [releaseStep, Option.any_some]
    rw [← Bitmap.test_and]
    split
    · rename_i hZero
      exact (Bitmap.popcount_eq_zero_iff.mp hZero i).symm
    · rfl

theorem mem_newUnlocks_iff (hKeep : ∀ a b, keep.get? a = some b → b.size = r.numKeys) {a i : Nat}
    {k : K} (hk : r.spec.keys[i]? = some k) :
    (a, k) ∈ r.newUnlocks keep ↔ r.heldL2 a i = true ∧ (r.keepBitmap keep a).test i = false := by
  rw [mem_newUnlocks, heldL2]
  have hSize : (r.keepBitmap keep a).size = r.numKeys := by
    rw [keepBitmap]
    cases hGet : keep.get? a with
    | none => rfl
    | some b => exact hKeep a b hGet
  have hLt : i < r.numKeys := (List.getElem?_eq_some_iff.mp hk).1
  cases r.l2Adapter2Readlocks.get? a with
  | none => simp [releaseStep]
  | some held =>
    have hGather := Bitmap.getElem_mem_gather_iff (b := held.and (r.keepBitmap keep a).not)
      r.spec.keys_nodup hk
    refine hGather.trans ?_
    simp [Bitmap.test_and, Bitmap.test_not, hSize, hLt]

theorem releaseL2Locks_empty_released : (r.releaseL2Locks Dict.empty).L2Released := by
  intro a i
  rw [heldL2_releaseL2Locks, keepBitmap]
  simp

end Release

variable [DecidableEq K]

def unlockCount (r : InFlightPrefetchRequest K) (adapter : Nat) (k : K) : Nat :=
  r.submittedUnlocks.count (adapter, k)

/-- Unlocks and held locks add up to the acquired ones. -/
structure L2Balanced (r : InFlightPrefetchRequest K) : Prop where
  lookups_sized : ∀ a b, r.lookupResults.get? a = some b → b.size = r.numKeys
  balance : ∀ a i k, r.spec.keys[i]? = some k →
    r.unlockCount a k + (r.heldL2 a i).toNat = (r.acquiredL2 a i).toNat
  unlocks_mem : ∀ p ∈ r.submittedUnlocks, p.2 ∈ r.spec.keys
  pending_nodup : r.pendingLookupTasks.Nodup
  pending_fresh : ∀ a ∈ r.pendingLookupTasks,
    r.lookupResults.get? a = none ∧ r.l2Adapter2Readlocks.get? a = none

theorem L2Balanced.congr {r r' : InFlightPrefetchRequest K} (h : r.L2Balanced)
    (hSpec : r'.spec = r.spec) (hPending : r'.pendingLookupTasks = r.pendingLookupTasks)
    (hLookups : r'.lookupResults = r.lookupResults)
    (hLocks : r'.l2Adapter2Readlocks = r.l2Adapter2Readlocks)
    (hUnlocks : r'.submittedUnlocks = r.submittedUnlocks) : r'.L2Balanced := by
  cases r
  cases r'
  cases hSpec
  cases hPending
  cases hLookups
  cases hLocks
  cases hUnlocks
  exact ⟨h.lookups_sized, h.balance, h.unlocks_mem, h.pending_nodup, h.pending_fresh⟩

theorem start_l2Balanced (spec : PrefetchRequestSpec K) : (start spec).L2Balanced where
  lookups_sized := by
    intro a b h
    cases h
  balance := fun _ _ _ _ => rfl
  unlocks_mem := by
    intro p hp
    cases hp
  pending_nodup := nodup_nil
  pending_fresh := by
    intro a ha
    cases ha

theorem releaseL2Locks_balanced {r : InFlightPrefetchRequest K} (h : r.L2Balanced) (keep : LoadPlan)
    (hKeep : ∀ a b, keep.get? a = some b → b.size = r.numKeys) :
    (r.releaseL2Locks keep).L2Balanced where
  lookups_sized := h.lookups_sized
  balance := by
    intro a i k hk
    have hOld := h.balance a i k hk
    have hCount : (r.releaseL2Locks keep).unlockCount a k =
        r.unlockCount a k + if (a, k) ∈ r.newUnlocks keep then 1 else 0 := by
      rw [unlockCount, submittedUnlocks_releaseL2Locks, count_append, (newUnlocks_nodup keep).count]
      rfl
    have hNew := mem_newUnlocks_iff keep hKeep (a := a) hk
    have hAcquired : (r.releaseL2Locks keep).acquiredL2 a i = r.acquiredL2 a i := rfl
    rw [hCount, heldL2_releaseL2Locks, hAcquired, ← hOld]
    by_cases hHeld : r.heldL2 a i = true
    · cases hBit : (r.keepBitmap keep a).test i with
      | true =>
        have hNot : (a, k) ∉ r.newUnlocks keep := by simp [hNew, hBit]
        simp [hHeld, hNot]
      | false =>
        have hMem : (a, k) ∈ r.newUnlocks keep := hNew.mpr ⟨hHeld, hBit⟩
        simp [hHeld, hMem]
    · have hNot : (a, k) ∉ r.newUnlocks keep := fun hMem => hHeld (hNew.mp hMem).1
      simp [Bool.eq_false_iff.mpr hHeld, hNot]
  unlocks_mem := by
    intro p hp
    rw [submittedUnlocks_releaseL2Locks] at hp
    rcases mem_append.mp hp with hOld | hNew
    · exact h.unlocks_mem p hOld
    · have hMem := (mem_newUnlocks keep).mp hNew
      cases hGet : r.l2Adapter2Readlocks.get? p.1 with
      | none =>
        rw [hGet] at hMem
        cases hMem
      | some held =>
        rw [hGet] at hMem
        obtain ⟨i, -, hi⟩ := Bitmap.mem_gather.mp hMem
        exact mem_of_getElem? hi
  pending_nodup := h.pending_nodup
  pending_fresh := by
    intro a ha
    obtain ⟨hLookup, hLock⟩ := h.pending_fresh a ha
    refine ⟨hLookup, ?_⟩
    rw [get?_l2_releaseL2Locks, hLock]
    rfl

end InFlightPrefetchRequest

end LMCache
