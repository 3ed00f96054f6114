import LMCache.Eviction.Isolation
import Mathlib.Data.List.Dedup
import Mathlib.Data.List.Induction

/-!
# Eviction goes by the last use

The order of an LRU policy is a function of what it was told: the keys that were created and not
removed since, each at the place of its last use. So the victims are the keys that were not used
for the longest time.
-/

namespace LMCache.Eviction

open Lib Serde List

/-- What a notification says of one key. -/
inductive KeyEvent
  | created (key : ObjectKey)
  | touched (key : ObjectKey)
  | removed (key : ObjectKey)

/-- The last key of a list counts as the one used first. -/
def Notification.events : Notification → List KeyEvent
  | .created keys => keys.reverse.map .created
  | .touched keys => keys.reverse.map .touched
  | .removed keys => keys.map .removed

def KeyEvent.use? : KeyEvent → Option ObjectKey
  | .created key | .touched key => some key
  | .removed _ => none

/-- Whether a key is still there after one more event. -/
def KeyEvent.keeps (key : ObjectKey) (here : Bool) : KeyEvent → Bool
  | .created key' => here || key' = key
  | .touched _ => here
  | .removed key' => here && key' ≠ key

def present (events : List KeyEvent) (key : ObjectKey) : Bool :=
  events.foldl (KeyEvent.keeps key) false

/-- The keys that are present, each at its last use. -/
def lastUses (events : List KeyEvent) : List ObjectKey :=
  (events.filterMap KeyEvent.use?).dedup.filter (present events)

theorem present_concat (events : List KeyEvent) (e : KeyEvent) (key : ObjectKey) :
    present (events ++ [e]) key = e.keeps key (present events key) := by
  simp [present]

theorem dedup_concat {α : Type} [DecidableEq α] (l : List α) (a : α) :
    (l ++ [a]).dedup = l.dedup.filter (fun b => b ≠ a) ++ [a] := by
  induction l with
  | nil => simp
  | cons b l ih =>
    by_cases hMem : b ∈ l
    · rw [cons_append, dedup_cons_of_mem (mem_append_left _ hMem), ih, dedup_cons_of_mem hMem]
    · by_cases hb : b = a
      · subst hb
        rw [cons_append, dedup_cons_of_mem (by simp), ih, dedup_cons_of_notMem hMem]
        simp
      · rw [cons_append, dedup_cons_of_notMem (by simp [hMem, hb]), ih, dedup_cons_of_notMem hMem]
        simp [hb]

theorem mem_uses_of_present {events : List KeyEvent} {key : ObjectKey}
    (h : present events key = true) : key ∈ events.filterMap KeyEvent.use? := by
  induction events using List.reverseRecOn with
  | nil => cases h
  | append_singleton events e ih =>
    rw [present_concat] at h
    rw [filterMap_append, mem_append]
    cases e with
    | created key' =>
      rcases Bool.or_eq_true_iff.mp h with hOld | hNew
      · exact Or.inl (ih hOld)
      · exact Or.inr (by simp [KeyEvent.use?, of_decide_eq_true hNew])
    | touched key' => exact Or.inl (ih h)
    | removed key' => exact Or.inl (ih (Bool.and_eq_true_iff.mp h).1)

namespace KeyOrder

def step (order : KeyOrder) : KeyEvent → KeyOrder
  | .created key => order.create key
  | .touched key => order.touch key
  | .removed key => order.remove key

theorem keys_touch (order : KeyOrder) (key : ObjectKey) :
    (order.touch key).keys =
      if key ∈ order.keys then order.keys.filter (fun k => k ≠ key) ++ [key] else order.keys := by
  have hMem : order.contains key = true ↔ key ∈ order.keys := by
    rw [Dict.mem_keys_iff, Dict.contains_iff]
  unfold touch
  simp only [hMem]
  split
  · exact keys_moveToEnd order key
  · rfl

/-- What a use of a key does to the last uses. -/
theorem lastUses_use (events : List KeyEvent) {e : KeyEvent} {key : ObjectKey}
    (hUse : e.use? = some key) (hKeeps : ∀ k ≠ key, present (events ++ [e]) k = present events k) :
    lastUses (events ++ [e]) = (lastUses events).filter (fun k => k ≠ key) ++
      [key].filter (present (events ++ [e])) := by
  have hUses : (events ++ [e]).filterMap KeyEvent.use? =
      events.filterMap KeyEvent.use? ++ [key] := by
    simp [hUse]
  rw [lastUses, hUses, dedup_concat, filter_append, lastUses, filter_filter, filter_filter]
  refine congrArg (· ++ _) (filter_congr fun k _ => ?_)
  by_cases hk : k = key
  · simp [hk]
  · rw [hKeeps k hk, Bool.and_comm]

theorem keys_run (events : List KeyEvent) :
    (events.foldl step (.empty : KeyOrder)).keys = lastUses events := by
  induction events using List.reverseRecOn with
  | nil => rfl
  | append_singleton events e ih =>
    rw [foldl_append]
    generalize events.foldl step (.empty : KeyOrder) = order at ih
    cases e with
    | created key =>
      refine (keys_create order key).trans ?_
      rw [ih, lastUses_use events rfl fun k hk => by
        simp [present_concat, KeyEvent.keeps, Ne.symm hk]]
      simp [present_concat, KeyEvent.keeps]
    | touched key =>
      refine (keys_touch order key).trans ?_
      rw [ih, lastUses_use events rfl fun k _ => present_concat _ _ _]
      have hMem : key ∈ lastUses events ↔ present events key = true := by
        rw [lastUses, mem_filter, mem_dedup]
        exact ⟨And.right, fun h => ⟨mem_uses_of_present h, h⟩⟩
      by_cases hPresent : present events key = true
      · simp [hMem, hPresent, present_concat, KeyEvent.keeps]
      · have hOther : ∀ k ∈ lastUses events, k ≠ key := by
          rintro k hk rfl
          exact hPresent (hMem.mp hk)
        rw [if_neg (mt hMem.mp hPresent), filter_eq_self.mpr (by simpa using hOther)]
        simp [hPresent, present_concat, KeyEvent.keeps]
    | removed key =>
      refine (keys_erase order key).trans ?_
      have hUses : (events ++ [KeyEvent.removed key]).filterMap KeyEvent.use? =
          events.filterMap KeyEvent.use? := by
        simp [KeyEvent.use?]
      rw [ih, lastUses, lastUses, hUses, filter_filter]
      refine filter_congr fun k _ => ?_
      rw [present_concat, KeyEvent.keeps, Bool.and_comm, decide_eq_decide.mpr ne_comm]

end KeyOrder

theorem LRUEvictionPolicy.order_run (notifications : List Notification) (p : LRUEvictionPolicy) :
    (notifications.foldl notify p).order =
      (notifications.flatMap Notification.events).foldl KeyOrder.step p.order := by
  induction notifications generalizing p with
  | nil => rfl
  | cons n rest ih =>
    rw [foldl_cons, ih, flatMap_cons, foldl_append]
    refine congrArg (List.foldl KeyOrder.step · _) ?_
    cases n
    all_goals
      unfold Notification.events
      rw [foldl_map]
      rfl

/-- A salt's victims are, of its eligible keys, those whose last use lies back the furthest. -/
theorem IsolatedLRUEvictionPolicy.evicts_by_last_use (destination : EvictionDestination)
    (notifications : List Notification) (cacheSalt : String) (expectedRatio : ℚ)
    (eligible : ObjectKey → Bool) :
    let policy := notifications.foldl notify (new destination)
    let kept := lastUses
      ((notifications.map (Notification.restrict cacheSalt)).flatMap Notification.events)
    (policy.order cacheSalt).keys = kept ∧
      (policy.getEvictionActions expectedRatio eligible cacheSalt).flatMap (·.keys) =
        (kept.filter eligible).take (targetCount kept.length expectedRatio) := by
  intro policy kept
  have hOrder : (policy.order cacheSalt).keys = kept := by
    have hNew : (new destination).order cacheSalt = (LRUEvictionPolicy.new destination).order := rfl
    rw [IsolatedLRUEvictionPolicy.order_run notifications cacheSalt hNew,
      LRUEvictionPolicy.order_run]
    exact KeyOrder.keys_run _
  refine ⟨hOrder, ?_⟩
  rw [← hOrder]
  exact flatMap_evictionActions _ _ _ _

end LMCache.Eviction
