import Mathlib.Data.List.Infix
import LMCache.Lib.Bytes
import LMCache.Lib.Dict

/-!
# The hot cache of the manager

The manager keeps the objects it used last in an ordered dictionary, next to a counter of
their bytes. What the calls asked of the cache, with what it held afterwards, is a list; from
it alone follow the objects by the time of their last use and what every call gave up. An
object is used when it is found in the cache or put into it, and forgotten when it is deleted
or replaced by one that cannot be cached.
-/

namespace LMCache.MaKV

open Lib List

abbrev CacheEntry := String × Bytes

structure MemoryCache where
  entries : Dict String Bytes
  size : Int

inductive CacheOp
  | get (key : String)
  | put (key : String) (data : Bytes)
  | pop (key : String)

structure CacheAccess where
  op : CacheOp
  after : Dict String Bytes

namespace MemoryCache

def empty : MemoryCache := ⟨Dict.empty, 0⟩

/-- `_cache_get`: a hit becomes the newest entry. -/
def cacheGet (capacity : Int) (cache : MemoryCache) (key : String) : Option Bytes × MemoryCache :=
  if capacity ≤ 0 then (none, cache)
  else
    match cache.entries.get? key with
    | none => (none, cache)
    | some data => (some data, { cache with entries := (cache.entries.erase key).set key data })

/-- `_memory_cache.pop(key, None)` with the counter. -/
def pop (cache : MemoryCache) (key : String) : MemoryCache :=
  match cache.entries.get? key with
  | none => cache
  | some old => { entries := cache.entries.erase key, size := cache.size - old.length }

/-- The loop of `_cache_put`: the oldest entries go until the data fits. Every round removes
an entry, so the number of entries bounds the rounds. -/
def evictFor (capacity : Int) (data : Bytes) : Nat → MemoryCache → MemoryCache
  | 0, cache => cache
  | rounds + 1, cache =>
    match cache.entries.popFirst with
    | none => cache
    | some (oldest, rest) =>
      if capacity < cache.size + data.length then
        evictFor capacity data rounds ⟨rest, cache.size - oldest.2.length⟩
      else cache

/-- `self._memory_cache[key] = data` for a key that is not there, with the counter. -/
def append (cache : MemoryCache) (key : String) (data : Bytes) : MemoryCache :=
  { entries := cache.entries.set key data, size := cache.size + data.length }

def cachePut (capacity : Int) (cache : MemoryCache) (key : String) (data : Bytes) : MemoryCache :=
  if capacity ≤ 0 then cache
  else if capacity < data.length then cache.pop key
  else
    let popped := cache.pop key
    (popped.evictFor capacity data popped.entries.size).append key data

theorem entries_pop (cache : MemoryCache) (key : String) :
    (cache.pop key).entries.entries = cache.entries.entries.filter fun e => e.1 ≠ key := by
  unfold pop
  split
  · rename_i hAbsent
    refine (filter_eq_self.mpr fun e he => decide_eq_true ?_).symm
    rintro rfl
    exact Dict.get?_eq_none_iff.mp hAbsent (mem_map_of_mem he)
  · rfl

theorem get?_pop (cache : MemoryCache) (key : String) :
    (cache.pop key).entries.get? key = none := by
  unfold pop
  split
  · assumption
  · exact Dict.get?_erase_self _ _

theorem cacheGet_cachePut {capacity : Int} {cache : MemoryCache} {key : String} {data found : Bytes}
    (h : ((cache.cachePut capacity key data).cacheGet capacity key).1 = some found) :
    found = data := by
  unfold cacheGet at h
  split at h
  · cases h
  · rename_i hPositive
    have hEntry : (cache.cachePut capacity key data).entries.get? key = some found := by
      split at h
      · cases h
      · rename_i hFound
        cases h
        exact hFound
    rw [cachePut, if_neg hPositive] at hEntry
    split at hEntry
    · rw [get?_pop] at hEntry
      cases hEntry
    · rw [append, Dict.get?_set_self] at hEntry
      exact (Option.some.inj hEntry).symm

end MemoryCache

def weight (entries : List CacheEntry) : Nat := (entries.map fun e => e.2.length).sum

def forget (key : String) (recency : List CacheEntry) : List CacheEntry :=
  recency.filter fun e => e.1 ≠ key

section History

variable (capacity : Int)

/-- What the cache holds after the accesses, of which the newest is the first. -/
def held : List CacheAccess → Dict String Bytes
  | [] => .empty
  | access :: _ => access.after

/-- The objects in the order of their last use. -/
def recency : List CacheAccess → List CacheEntry
  | [] => []
  | ⟨.get key, _⟩ :: past =>
    match (held past).get? key with
    | none => recency past
    | some data => forget key (recency past) ++ [(key, data)]
  | ⟨.put key data, _⟩ :: past =>
    forget key (recency past) ++ if capacity < data.length then [] else [(key, data)]
  | ⟨.pop key, _⟩ :: past => forget key (recency past)

/-- The newcomer fits, but not together with the entry and all that was used after it. -/
def Forced (recency : List CacheEntry) (entry : CacheEntry) (newcomer : Bytes) : Prop :=
  newcomer.length ≤ capacity ∧ ∃ before later, recency = before ++ entry :: later ∧
    capacity < entry.2.length + weight later + newcomer.length

/-- What an access takes in, and what it may give up. -/
def Fair (past : List CacheAccess) (access : CacheAccess) : Prop :=
  match access.op with
  | .get _ => ∀ entry ∈ (held past).entries, entry ∈ access.after.entries
  | .put key data => (0 < capacity → data.length ≤ capacity → access.after.get? key = some data) ∧
      ∀ entry ∈ (held past).entries, entry.1 ≠ key → entry ∈ access.after.entries ∨
        Forced capacity (forget key (recency capacity past)) entry data
  | .pop key => ∀ entry ∈ (held past).entries, entry.1 ≠ key → entry ∈ access.after.entries

/-- The counter is right, the cache holds the objects that were used last, and every access was
fair. -/
structure Accounted (cache : MemoryCache) (accesses : List CacheAccess) : Prop where
  size_eq : cache.size = weight cache.entries.entries
  size_le : cache.size ≤ capacity
  off : capacity ≤ 0 → cache.entries.entries = []
  last : held accesses = cache.entries
  recent : cache.entries.entries <:+ recency capacity accesses
  fair : ∀ access past, access :: past <:+ accesses → Fair capacity past access

end History

theorem accounted_empty {capacity : Int} (h : 0 ≤ capacity) : Accounted capacity .empty [] where
  size_eq := rfl
  size_le := h
  off _ := rfl
  last := rfl
  recent := suffix_refl _
  fair _ _ hSuffix := absurd (suffix_nil.mp hSuffix) (cons_ne_nil _ _)

theorem weight_append (l l' : List CacheEntry) : weight (l ++ l') = weight l + weight l' := by
  rw [weight, map_append, sum_append]
  rfl

theorem weight_erase {d : Dict String Bytes} {key : String} {old : Bytes}
    (h : d.get? key = some old) :
    weight (d.erase key).entries + old.length = weight d.entries := by
  obtain ⟨before, after, hSplit⟩ := append_of_mem (Dict.get?_eq_some_iff.mp h)
  have hNodup := d.nodup
  rw [hSplit, map_append, map_cons] at hNodup
  have hApart := nodup_middle.mp hNodup
  have hNot := (nodup_cons.mp hApart).1
  have hOthers : (before ++ after).filter (fun e => decide (e.1 ≠ key)) = before ++ after := by
    refine filter_eq_self.mpr fun e he => decide_eq_true fun hKey => hNot ?_
    rw [← map_append]
    exact mem_map.mpr ⟨e, he, hKey⟩
  have hErased : (d.erase key).entries = before ++ after := by
    show d.entries.filter _ = _
    rw [hSplit, filter_append, filter_cons_of_neg (by simp), ← filter_append, hOthers]
  rw [hErased, hSplit, weight_append, weight_append]
  simp only [weight, map_cons, sum_cons]
  omega

theorem suffix_append_right {l l' : List CacheEntry} (h : l <:+ l') (tail : List CacheEntry) :
    l ++ tail <:+ l' ++ tail := by
  obtain ⟨before, rfl⟩ := h
  exact ⟨before, (append_assoc _ _ _).symm⟩

variable {capacity : Int} {cache : MemoryCache} {accesses : List CacheAccess}

theorem MemoryCache.size_pop (h : cache.size = weight cache.entries.entries) (key : String) :
    (cache.pop key).size = weight (cache.pop key).entries.entries ∧
      (cache.pop key).size ≤ cache.size := by
  unfold pop
  split
  · exact ⟨h, le_rfl⟩
  · rename_i old hFound
    have hWeight := weight_erase hFound
    constructor
    · show cache.size - old.length = (weight (cache.entries.erase key).entries : Int)
      omega
    · show cache.size - old.length ≤ cache.size
      omega

/-- The loop of the eviction: what goes was used first and is forced out, and then the data fits
or nothing is left. -/
theorem MemoryCache.evictFor_spec {data : Bytes} (hData : data.length ≤ capacity) {rounds : Nat}
    (hSize : cache.size = weight cache.entries.entries) (hRounds : cache.entries.size ≤ rounds) :
    ∃ gone, cache.entries.entries =
        gone ++ (cache.evictFor capacity data rounds).entries.entries ∧
      (cache.evictFor capacity data rounds).size =
        weight (cache.evictFor capacity data rounds).entries.entries ∧
      (cache.evictFor capacity data rounds).size + data.length ≤ capacity ∧
      ∀ entry ∈ gone, Forced capacity cache.entries.entries entry data := by
  have hDone : cache.entries.entries = [] → cache.size + data.length ≤ capacity := by
    intro hEmpty
    rw [hSize, hEmpty]
    simpa [weight] using hData
  induction rounds generalizing cache with
  | zero =>
    have hEmpty := length_eq_zero_iff.mp (Nat.le_zero.mp hRounds)
    exact ⟨[], rfl, hSize, hDone hEmpty, nofun⟩
  | succ rounds ih =>
    rw [evictFor]
    cases hPop : cache.entries.popFirst with
    | none => exact ⟨[], rfl, hSize, hDone (Dict.popFirst_eq_none hPop), nofun⟩
    | some popped =>
      obtain ⟨oldest, rest⟩ := popped
      have hEntries := Dict.entries_of_popFirst hPop
      dsimp only
      split
      · rename_i hFull
        have hWeight : weight cache.entries.entries = oldest.2.length + weight rest.entries := by
          rw [hEntries, weight, map_cons, sum_cons]
          rfl
        have hRest : cache.size - oldest.2.length = (weight rest.entries : Int) := by omega
        have hLength : rest.entries.length + 1 ≤ rounds + 1 := by
          rw [← length_cons (a := oldest), ← hEntries]
          exact hRounds
        obtain ⟨gone, hGone, hSize', hFits, hForced⟩ := @ih ⟨rest, _⟩ hRest
          (Nat.le_of_succ_le_succ hLength) fun hEmpty => by
            rw [hRest, show rest.entries = [] from hEmpty]
            simpa [weight] using hData
        refine ⟨oldest :: gone, by rw [hEntries, cons_append, ← hGone], hSize', hFits, ?_⟩
        rw [hEntries]
        intro entry hEntry
        rcases mem_cons.mp hEntry with rfl | hEntry
        · exact ⟨hData, [], rest.entries, rfl, by omega⟩
        · obtain ⟨-, before, later, hSplit, hMore⟩ := hForced entry hEntry
          exact ⟨hData, oldest :: before, later, congrArg _ hSplit, hMore⟩
      · rename_i hFits
        exact ⟨[], rfl, hSize, by omega, nofun⟩

namespace Accounted

/-- One more access. -/
theorem next (h : Accounted capacity cache accesses) {op : CacheOp} {cache' : MemoryCache}
    (hSize : cache'.size = weight cache'.entries.entries) (hLe : cache'.size ≤ capacity)
    (hOff : capacity ≤ 0 → cache'.entries.entries = [])
    (hRecent : cache'.entries.entries <:+ recency capacity (⟨op, cache'.entries⟩ :: accesses))
    (hFair : Fair capacity accesses ⟨op, cache'.entries⟩) :
    Accounted capacity cache' (⟨op, cache'.entries⟩ :: accesses) where
  size_eq := hSize
  size_le := hLe
  off := hOff
  last := rfl
  recent := hRecent
  fair access past hSuffix := by
    rcases suffix_cons_iff.mp hSuffix with hNew | hOld
    · obtain ⟨rfl, rfl⟩ := cons.inj hNew
      exact hFair
    · exact h.fair access past hOld

theorem cacheGet (h : Accounted capacity cache accesses) (key : String) :
    Accounted capacity (cache.cacheGet capacity key).2
      (⟨.get key, (cache.cacheGet capacity key).2.entries⟩ :: accesses) := by
  have hMiss : cache.entries.get? key = none →
      Accounted capacity cache (⟨.get key, cache.entries⟩ :: accesses) := by
    intro hNone
    refine h.next h.size_eq h.size_le h.off ?_ ?_
    · rw [recency, h.last, hNone]
      exact h.recent
    · rw [Fair, h.last]
      exact fun _ he => he
  unfold MemoryCache.cacheGet
  split
  · rename_i hOff
    refine hMiss (Dict.get?_eq_none_iff.mpr ?_)
    rw [Dict.keys, h.off hOff]
    exact not_mem_nil
  · rename_i hOn
    split
    · rename_i hNone
      exact hMiss hNone
    · rename_i data hFound
      have hEntries : ((cache.entries.erase key).set key data).entries =
          (cache.entries.erase key).entries ++ [(key, data)] :=
        Dict.entries_set_of_get?_eq_none (Dict.get?_erase_self _ _) data
      refine h.next ?_ h.size_le (fun hOff => absurd hOff hOn) ?_ ?_
      · have hWeight := weight_erase hFound
        show cache.size = _
        rw [h.size_eq, hEntries, weight_append, ← hWeight]
        simp [weight]
      · rw [recency, h.last, hFound, hEntries]
        exact suffix_append_right (h.recent.filter _) _
      · rw [Fair, h.last, hEntries]
        intro entry hEntry
        by_cases hKey : entry.1 = key
        · refine mem_append_right _ (mem_singleton.mpr (Prod.ext hKey ?_))
          have hSame := Dict.get?_eq_some_iff.mpr hEntry
          rw [hKey, hFound] at hSame
          exact (Option.some.inj hSame).symm
        · exact mem_append_left _ (mem_filter.mpr ⟨hEntry, decide_eq_true hKey⟩)

theorem pop (h : Accounted capacity cache accesses) (key : String) :
    Accounted capacity (cache.pop key) (⟨.pop key, (cache.pop key).entries⟩ :: accesses) := by
  obtain ⟨hSize, hLe⟩ := MemoryCache.size_pop h.size_eq key
  have hEntries := cache.entries_pop key
  refine h.next hSize (hLe.trans h.size_le) (fun hOff => ?_) ?_ ?_
  · rw [hEntries, h.off hOff]
    rfl
  · rw [hEntries]
    exact h.recent.filter _
  · rw [Fair, h.last, hEntries]
    exact fun entry hEntry hKey => mem_filter.mpr ⟨hEntry, decide_eq_true hKey⟩

theorem cachePut (h : Accounted capacity cache accesses) (key : String) (data : Bytes) :
    Accounted capacity (cache.cachePut capacity key data)
      (⟨.put key data, (cache.cachePut capacity key data).entries⟩ :: accesses) := by
  obtain ⟨hSize, hLe⟩ := MemoryCache.size_pop h.size_eq key
  have hPopped := cache.entries_pop key
  have hRecent : (cache.pop key).entries.entries <:+ forget key (recency capacity accesses) := by
    rw [hPopped]
    exact h.recent.filter _
  have hStays : ∀ entry ∈ (held accesses).entries, entry.1 ≠ key →
      entry ∈ (cache.pop key).entries.entries := by
    rw [h.last, hPopped]
    exact fun entry hEntry hKey => mem_filter.mpr ⟨hEntry, decide_eq_true hKey⟩
  unfold MemoryCache.cachePut
  split
  · rename_i hOff
    refine h.next h.size_eq h.size_le h.off ?_ ⟨fun hOn => absurd hOff (not_le.mpr hOn), ?_⟩
    · rw [h.off hOff]
      exact nil_suffix
    · rw [h.last]
      exact fun entry hEntry _ => Or.inl hEntry
  · rename_i hOn
    split
    · rename_i hLarge
      refine h.next hSize (hLe.trans h.size_le) (fun hOff => absurd hOff hOn) ?_
        ⟨fun _ hFits => absurd hFits (not_le.mpr hLarge), fun entry hEntry hKey =>
          Or.inl (hStays entry hEntry hKey)⟩
      rw [recency, if_pos hLarge, append_nil]
      exact hRecent
    · rename_i hSmall
      dsimp only
      obtain ⟨gone, hGone, hSize', hFits, hForced⟩ :=
        MemoryCache.evictFor_spec (not_lt.mp hSmall) hSize le_rfl
      generalize (cache.pop key).evictFor capacity data (cache.pop key).entries.size = left at *
      have hAbsent : left.entries.get? key = none := by
        refine Dict.get?_eq_none_iff.mpr fun hMem => ?_
        obtain ⟨entry, hEntry, hKey⟩ := mem_map.mp hMem
        have hIn := mem_append_right gone hEntry
        rw [← hGone, hPopped] at hIn
        exact of_decide_eq_true (mem_filter.mp hIn).2 hKey
      have hEntries : (left.append key data).entries.entries =
          left.entries.entries ++ [(key, data)] :=
        Dict.entries_set_of_get?_eq_none hAbsent data
      refine h.next ?_ hFits (fun hOff => absurd hOff hOn) ?_ ⟨fun _ _ => ?_, ?_⟩
      · show left.size + data.length = _
        rw [hEntries, weight_append, hSize']
        simp [weight]
      · rw [recency, if_neg hSmall, hEntries]
        exact suffix_append_right ((show left.entries.entries <:+ _ from
          ⟨gone, hGone.symm⟩).trans hRecent) _
      · exact Dict.get?_set_self _ _ _
      · intro entry hEntry hKey
        have hIn := hStays entry hEntry hKey
        rw [hGone] at hIn
        rcases mem_append.mp hIn with hOut | hStill
        · obtain ⟨-, before, later, hSplit, hMore⟩ := hForced entry hOut
          obtain ⟨front, hFront⟩ := hRecent
          refine Or.inr ⟨not_lt.mp hSmall, front ++ before, later, ?_, hMore⟩
          rw [← hFront, hSplit, append_assoc]
        · rw [hEntries]
          exact Or.inl (mem_append_left _ hStill)

end Accounted

end LMCache.MaKV
