import LMCache.Eviction.Policies

/-!
# Isolation of tenants

The order that an isolated policy keeps for one salt is the order of a plain LRU policy that
hears only of the keys of that salt. A pass of the eviction controller deletes, for every salt
with positive usage at or above its threshold, the least recently used keys of that salt, and
nothing else; salts without a positive quota lose all of them.
-/

namespace LMCache.Eviction

open Lib Serde List
open Dict hiding keys

/-- The part of a notification that is about the keys of one salt. -/
def Notification.restrict (cacheSalt : String) : Notification → Notification
  | .created keys => .created (keys.filter fun k => k.cacheSalt = cacheSalt)
  | .touched keys => .touched (keys.filter fun k => k.cacheSalt = cacheSalt)
  | .removed keys => .removed (keys.filter fun k => k.cacheSalt = cacheSalt)

namespace KeyOrder

theorem keys_erase (order : KeyOrder) (key : ObjectKey) :
    (order.erase key).keys = order.keys.filter fun k => k ≠ key := by
  unfold Dict.keys Dict.erase
  rw [filter_map]
  rfl

theorem keys_moveToEnd (order : KeyOrder) (key : ObjectKey) :
    (order.moveToEnd key).keys = order.keys.filter (fun k => k ≠ key) ++ [key] := by
  rw [moveToEnd, Dict.keys_set, if_neg (by simp [Dict.mem_keys_erase]), keys_erase]

theorem keys_create (order : KeyOrder) (key : ObjectKey) :
    (order.create key).keys = order.keys.filter (fun k => k ≠ key) ++ [key] := by
  unfold create
  split
  · exact keys_moveToEnd order key
  · rename_i hAbsent
    have hNotMem : key ∉ order.keys := by
      rwa [Dict.mem_keys_iff, ← Dict.contains_iff]
    rw [Dict.keys_set, if_neg hNotMem, filter_eq_self.mpr]
    exact fun k hk => decide_eq_true fun hEq => hNotMem (hEq ▸ hk)

theorem mem_keys_create {order : KeyOrder} {key k : ObjectKey} :
    k ∈ (order.create key).keys ↔ k = key ∨ k ∈ order.keys := by
  unfold create moveToEnd
  split
  · rw [mem_keys_set, mem_keys_erase]
    by_cases hk : k = key <;> simp [hk]
  · rw [mem_keys_set]

theorem mem_keys_touch {order : KeyOrder} {key k : ObjectKey} :
    k ∈ (order.touch key).keys ↔ k ∈ order.keys := by
  rw [Dict.mem_keys_iff, Dict.mem_keys_iff]
  unfold touch moveToEnd
  split
  · rename_i hContains
    by_cases hk : key = k
    · subst hk
      obtain ⟨v, hv⟩ := Dict.contains_iff.mp hContains
      exact ⟨fun _ => ⟨v, hv⟩, fun _ => ⟨(), get?_set_self _ _ _⟩⟩
    · rw [get?_set_ne _ hk, get?_erase_ne _ hk]
  · rfl

end KeyOrder

namespace IsolatedLRUEvictionPolicy

variable {p : IsolatedLRUEvictionPolicy} {key : ObjectKey} {cacheSalt : String}

theorem order_createKey (p : IsolatedLRUEvictionPolicy) (key : ObjectKey) (cacheSalt : String) :
    (p.createKey key).order cacheSalt =
      if key.cacheSalt = cacheSalt then (p.order cacheSalt).create key else p.order cacheSalt := by
  unfold createKey
  simp only [order, get?_set]
  split
  · rename_i h
    rw [h]
    rfl
  · rfl

theorem order_touchKey (p : IsolatedLRUEvictionPolicy) (key : ObjectKey) (cacheSalt : String) :
    (p.touchKey key).order cacheSalt =
      if key.cacheSalt = cacheSalt then (p.order cacheSalt).touch key else p.order cacheSalt := by
  unfold touchKey
  split
  · rename_i hNone
    split
    · rename_i h
      rw [order, ← h, hNone]
      rfl
    · rfl
  · rename_i bucket hBucket
    simp only [order, get?_set]
    split
    · rename_i h
      rw [← h, hBucket]
      rfl
    · rfl

theorem order_removeKey (p : IsolatedLRUEvictionPolicy) (key : ObjectKey) (cacheSalt : String) :
    (p.removeKey key).order cacheSalt =
      if key.cacheSalt = cacheSalt then (p.order cacheSalt).remove key else p.order cacheSalt := by
  unfold removeKey
  split
  · rename_i hNone
    split
    · rename_i h
      rw [order, ← h, hNone]
      rfl
    · rfl
  · rename_i bucket hBucket
    dsimp only
    split
    · rename_i hEmpty
      simp only [order, get?_erase]
      split
      · rename_i h
        rw [← h, hBucket]
        have hKeys : (bucket.remove key).entries = [] := by
          simpa [Dict.keys] using hEmpty
        exact (Dict.ext hKeys).symm
      · rfl
    · simp only [order, get?_set]
      split
      · rename_i h
        rw [← h, hBucket]
        rfl
      · rfl

variable {f : IsolatedLRUEvictionPolicy → ObjectKey → IsolatedLRUEvictionPolicy}

/-- A loop that acts on the bucket of each key acts on one bucket as a loop over its own
keys. -/
theorem order_foldl {g : KeyOrder → ObjectKey → KeyOrder} {cacheSalt : String}
    (hStep : ∀ p key, (f p key).order cacheSalt =
      if key.cacheSalt = cacheSalt then g (p.order cacheSalt) key else p.order cacheSalt)
    (keys : List ObjectKey) (p : IsolatedLRUEvictionPolicy) : (keys.foldl f p).order cacheSalt =
      (keys.filter fun k => k.cacheSalt = cacheSalt).foldl g (p.order cacheSalt) := by
  induction keys generalizing p with
  | nil => rfl
  | cons key rest ih =>
    rw [foldl_cons, ih, hStep]
    by_cases hSalt : key.cacheSalt = cacheSalt
    · simp [hSalt]
    · simp [hSalt]

variable {lru : LRUEvictionPolicy}

theorem order_notify (p : IsolatedLRUEvictionPolicy) (n : Notification) (cacheSalt : String)
    (h : p.order cacheSalt = lru.order) :
    (p.notify n).order cacheSalt = (lru.notify (n.restrict cacheSalt)).order := by
  cases n with
  | created keys =>
    refine (order_foldl (fun p key => order_createKey p key cacheSalt) _ _).trans ?_
    rw [h, filter_reverse]
    rfl
  | touched keys =>
    refine (order_foldl (fun p key => order_touchKey p key cacheSalt) _ _).trans ?_
    rw [h, filter_reverse]
    rfl
  | removed keys =>
    refine (order_foldl (fun p key => order_removeKey p key cacheSalt) _ _).trans ?_
    rw [h]
    rfl

theorem order_run (notifications : List Notification) (cacheSalt : String)
    {p : IsolatedLRUEvictionPolicy} (h : p.order cacheSalt = lru.order) :
    (notifications.foldl notify p).order cacheSalt =
      ((notifications.map (Notification.restrict cacheSalt)).foldl LRUEvictionPolicy.notify
        lru).order := by
  induction notifications generalizing p lru with
  | nil => exact h
  | cons n rest ih => exact ih (order_notify p n cacheSalt h)

def Homed (p : IsolatedLRUEvictionPolicy) : Prop :=
  ∀ cacheSalt, ∀ k ∈ (p.order cacheSalt).keys, k.cacheSalt = cacheSalt

theorem Homed.createKey (h : p.Homed) (key : ObjectKey) : (p.createKey key).Homed := by
  intro cacheSalt k hk
  rw [order_createKey] at hk
  split at hk
  · rename_i hSalt
    rcases KeyOrder.mem_keys_create.mp hk with rfl | hOld
    · exact hSalt
    · exact h cacheSalt k hOld
  · exact h cacheSalt k hk

theorem Homed.touchKey (h : p.Homed) (key : ObjectKey) : (p.touchKey key).Homed := by
  intro cacheSalt k hk
  rw [order_touchKey] at hk
  split at hk
  · exact h cacheSalt k (KeyOrder.mem_keys_touch.mp hk)
  · exact h cacheSalt k hk

theorem Homed.removeKey (h : p.Homed) (key : ObjectKey) : (p.removeKey key).Homed := by
  intro cacheSalt k hk
  rw [order_removeKey] at hk
  split at hk
  · exact h cacheSalt k (mem_keys_erase.mp hk).2
  · exact h cacheSalt k hk

theorem Homed.foldl (hStep : ∀ p key, p.Homed → (f p key).Homed) (keys : List ObjectKey)
    (h : p.Homed) : (keys.foldl f p).Homed := by
  induction keys generalizing p with
  | nil => exact h
  | cons key rest ih => exact ih (hStep p key h)

theorem Homed.notify (h : p.Homed) (n : Notification) : (p.notify n).Homed := by
  cases n with
  | created keys => exact h.foldl (fun _ key hp => hp.createKey key) _
  | touched keys => exact h.foldl (fun _ key hp => hp.touchKey key) _
  | removed keys => exact h.foldl (fun _ key hp => hp.removeKey key) _

theorem Homed.run (h : p.Homed) (notifications : List Notification) :
    (notifications.foldl IsolatedLRUEvictionPolicy.notify p).Homed := by
  induction notifications generalizing p with
  | nil => exact h
  | cons n rest ih => exact ih (h.notify n)

def Tracks (p : IsolatedLRUEvictionPolicy) (k : ObjectKey) : Prop :=
  k ∈ (p.order k.cacheSalt).keys

variable {k : ObjectKey}

theorem tracks_createKey : (p.createKey key).Tracks k ↔ k = key ∨ p.Tracks k := by
  unfold Tracks
  rw [order_createKey]
  split
  · exact KeyOrder.mem_keys_create
  · rename_i hSalt
    exact (or_iff_right fun hk => hSalt (congrArg _ hk.symm)).symm

theorem tracks_touchKey : (p.touchKey key).Tracks k ↔ p.Tracks k := by
  unfold Tracks
  rw [order_touchKey]
  split
  · exact KeyOrder.mem_keys_touch
  · rfl

theorem tracks_removeKey : (p.removeKey key).Tracks k ↔ k ≠ key ∧ p.Tracks k := by
  unfold Tracks
  rw [order_removeKey]
  split
  · exact mem_keys_erase
  · rename_i hSalt
    exact (and_iff_right fun hk => hSalt (congrArg _ hk.symm)).symm

end IsolatedLRUEvictionPolicy

theorem selectKeys_eq (eligible : ObjectKey → Bool) (count : Nat) (pool : List ObjectKey) :
    selectKeys eligible count pool = (pool.filter eligible).take count := by
  induction pool generalizing count with
  | nil => cases count <;> rfl
  | cons key rest ih =>
    cases count with
    | zero => rfl
    | succ count =>
      unfold selectKeys
      split
      · rename_i hEligible
        rw [ih, filter_cons_of_pos hEligible, take_succ_cons]
      · rename_i hSkipped
        rw [ih, filter_cons_of_neg hSkipped]

theorem selectKeys_all (count : Nat) (pool : List ObjectKey) :
    selectKeys (fun _ => true) count pool = pool.take count := by
  rw [selectKeys_eq, filter_eq_self.mpr fun _ _ => rfl]

theorem flatMap_evictionActions (pool : List ObjectKey) (destination : EvictionDestination)
    (expectedRatio : ℚ) (eligible : ObjectKey → Bool) :
    (evictionActions pool destination expectedRatio eligible).flatMap (·.keys) =
      (pool.filter eligible).take (targetCount pool.length expectedRatio) := by
  unfold evictionActions
  dsimp only
  rw [selectKeys_eq]
  split
  · rename_i hEmpty
    rw [List.isEmpty_iff.mp hEmpty, filter_nil, take_nil]
    rfl
  · split
    · rename_i hCount
      rw [hCount]
      rfl
    · split
      · rename_i hNone
        exact (List.isEmpty_iff.mp hNone).symm
      · exact append_nil _

theorem targetCount_pos (poolSize : Nat) {expectedRatio : ℚ} (h : 0 < expectedRatio) :
    0 < targetCount poolSize expectedRatio := by
  have hRatio : 0 < max 0 (min 1 expectedRatio) := lt_max_of_lt_right (lt_min one_pos h)
  unfold targetCount
  dsimp only
  split
  · exact one_pos
  · rename_i hNot
    exact Nat.pos_of_ne_zero fun hZero => hNot ⟨hRatio, hZero⟩

theorem evictionActions_all (pool : List ObjectKey) (destination : EvictionDestination)
    (expectedRatio : ℚ) :
    evictionActions pool destination expectedRatio (fun _ => true) =
      if pool.take (targetCount pool.length expectedRatio) = [] then []
      else [⟨destination, pool.take (targetCount pool.length expectedRatio)⟩] := by
  unfold evictionActions
  dsimp only
  rw [selectKeys_all]
  cases pool with
  | nil => simp
  | cons key rest =>
    by_cases hCount : targetCount (key :: rest).length expectedRatio = 0
    · rw [hCount]
      rfl
    · simp

theorem le_targetCount_one (poolSize : Nat) : poolSize ≤ targetCount poolSize 1 := by
  unfold targetCount
  simp only [min_self, zero_le_one, max_eq_right, mul_one, Int.floor_natCast, Int.toNat_natCast]
  split <;> omega

theorem take_targetCount_one (pool : List ObjectKey) :
    pool.take (targetCount pool.length 1) = pool :=
  take_of_length_le (le_targetCount_one pool.length)

def OverBudget (quota : QuotaManager) (config : EvictionConfig)
    (bytesByCacheSalt : Dict String Int) (cacheSalt : String) : Prop :=
  let userBytes := (bytesByCacheSalt.get? cacheSalt).getD 0
  0 < userBytes ∧ config.triggerWatermark * quota.getLimitBytes cacheSalt ≤ (userBytes : ℚ)

instance (quota : QuotaManager) (config : EvictionConfig) (bytesByCacheSalt : Dict String Int)
    (cacheSalt : String) : Decidable (OverBudget quota config bytesByCacheSalt cacheSalt) :=
  inferInstanceAs (Decidable (_ ∧ _))

def saltVictims (policy : IsolatedLRUEvictionPolicy) (quota : QuotaManager)
    (config : EvictionConfig) (cacheSalt : String) : List ObjectKey :=
  let pool := (policy.order cacheSalt).keys
  if quota.getLimitBytes cacheSalt = 0 then pool
  else pool.take (targetCount pool.length config.evictionRatio)

/-- At most one destination with these keys. -/
def pendingOf (destination : EvictionDestination) (keys : List ObjectKey) :
    Dict EvictionDestination (List ObjectKey) :=
  if keys = [] then .empty else Dict.empty.set destination keys

theorem values_pendingOf (destination : EvictionDestination) (keys : List ObjectKey) :
    (pendingOf destination keys).values.flatten = keys := by
  unfold pendingOf
  split
  · rename_i h
    rw [h]
    rfl
  · simp [Dict.values, Dict.set, Dict.empty, Dict.assign]

theorem addPending_pendingOf (destination : EvictionDestination) (keys more : List ObjectKey)
    (hMore : more ≠ []) :
    addPending (pendingOf destination keys) ⟨destination, more⟩ =
      pendingOf destination (keys ++ more) := by
  unfold addPending pendingOf
  by_cases hKeys : keys = []
  · simp [hKeys, hMore]
  · rw [if_neg hKeys, if_neg (by simp [hKeys]), get?_set_self]
    apply Dict.ext
    simp [Dict.set, Dict.empty, Dict.assign]

section Pass

variable (policy : IsolatedLRUEvictionPolicy) (quota : QuotaManager) (config : EvictionConfig)

/-- The part of a pass that is about one entry of the usage map. -/
def entryVictims (usage : String × Int) : List ObjectKey :=
  if 0 < usage.2 ∧ config.triggerWatermark * quota.getLimitBytes usage.1 ≤ (usage.2 : ℚ) then
    saltVictims policy quota config usage.1
  else []

theorem checkSalt_pendingOf (keys : List ObjectKey) (usage : String × Int) :
    checkSalt policy quota config
        (pendingOf (policy.destinations.headD policy.defaultDestination) keys) usage =
      pendingOf (policy.destinations.headD policy.defaultDestination)
        (keys ++ entryVictims policy quota config usage) := by
  obtain ⟨cacheSalt, userBytes⟩ := usage
  unfold checkSalt entryVictims
  dsimp only
  by_cases hPositive : userBytes ≤ 0
  · rw [if_pos hPositive, if_neg (fun h => absurd h.1 (by omega)), append_nil]
  · rw [if_neg hPositive]
    by_cases hBelow : (userBytes : ℚ) < config.triggerWatermark * quota.getLimitBytes cacheSalt
    · rw [if_pos hBelow, if_neg (fun h => absurd h.2 (not_le.mpr hBelow)), append_nil]
    · have hOver : 0 < userBytes ∧
          config.triggerWatermark * quota.getLimitBytes cacheSalt ≤ (userBytes : ℚ) :=
        ⟨by omega, not_lt.mp hBelow⟩
      rw [if_neg hBelow, if_pos hOver, IsolatedLRUEvictionPolicy.getEvictionActions,
        evictionActions_all]
      have hVictims : (policy.order cacheSalt).keys.take (targetCount
          (policy.order cacheSalt).keys.length
          (if quota.getLimitBytes cacheSalt = 0 then 1 else config.evictionRatio)) =
          saltVictims policy quota config cacheSalt := by
        unfold saltVictims
        by_cases hLimit : quota.getLimitBytes cacheSalt = 0
        · rw [if_pos hLimit, if_pos hLimit, take_targetCount_one]
        · rw [if_neg hLimit, if_neg hLimit]
      rw [hVictims]
      by_cases hNone : saltVictims policy quota config cacheSalt = []
      · simp [hNone]
      · rw [if_neg hNone]
        exact addPending_pendingOf _ keys _ hNone

theorem checkAndEvict_flatten (bytesByCacheSalt : Dict String Int) :
    (checkAndEvictByCacheSalt policy quota config bytesByCacheSalt).flatten =
      bytesByCacheSalt.entries.flatMap (entryVictims policy quota config) := by
  have hFold : ∀ (entries : List (String × Int)) (keys : List ObjectKey),
      entries.foldl (checkSalt policy quota config)
          (pendingOf (policy.destinations.headD policy.defaultDestination) keys) =
        pendingOf (policy.destinations.headD policy.defaultDestination)
          (keys ++ entries.flatMap (entryVictims policy quota config)) := by
    intro entries
    induction entries with
    | nil => simp
    | cons usage rest ih =>
      intro keys
      rw [foldl_cons, checkSalt_pendingOf, ih, flatMap_cons, append_assoc]
  have hStart := hFold bytesByCacheSalt.entries []
  rw [checkAndEvictByCacheSalt]
  refine Eq.trans (congrArg (fun d => (Dict.values d).flatten) hStart) ?_
  rw [values_pendingOf, nil_append]

end Pass

theorem flatMap_eq_of_find {υ α : Type} {f : String × υ → List α} {s : String}
    (entries : List (String × υ)) (hNodup : (entries.map Prod.fst).Nodup)
    (hOther : ∀ e ∈ entries, e.1 ≠ s → f e = []) :
    entries.flatMap f = ((Dict.find s entries).map fun v => f (s, v)).getD [] := by
  induction entries with
  | nil => rfl
  | cons e rest ih =>
    rw [map_cons, nodup_cons] at hNodup
    rw [flatMap_cons, Dict.find]
    by_cases hHead : e.1 = s
    · have hRest : rest.flatMap f = [] := by
        refine flatMap_eq_nil_iff.mpr fun e' he' => ?_
        refine hOther e' (mem_cons_of_mem _ he') fun hEq => hNodup.1 ?_
        rw [hHead, ← hEq]
        exact mem_map_of_mem he'
      rw [if_pos hHead, hRest, append_nil, ← hHead]
      rfl
    · rw [if_neg hHead, hOther e mem_cons_self hHead, nil_append]
      exact ih hNodup.2 fun e' he' => hOther e' (mem_cons_of_mem _ he')

variable {policy : IsolatedLRUEvictionPolicy}

theorem checkAndEvict_salt (h : policy.Homed) (quota : QuotaManager) (config : EvictionConfig)
    (bytesByCacheSalt : Dict String Int) (cacheSalt : String) :
    ((checkAndEvictByCacheSalt policy quota config bytesByCacheSalt).flatten.filter
        fun k => k.cacheSalt = cacheSalt) =
      if OverBudget quota config bytesByCacheSalt cacheSalt then
        saltVictims policy quota config cacheSalt
      else [] := by
  have hHome : ∀ s, ∀ k ∈ saltVictims policy quota config s, k.cacheSalt = s := by
    intro s k hk
    unfold saltVictims at hk
    dsimp only at hk
    split at hk
    · exact h s k hk
    · exact h s k (mem_of_mem_take hk)
  have hOwn : ∀ e, ∀ k ∈ entryVictims policy quota config e, k.cacheSalt = e.1 := by
    intro e k hk
    unfold entryVictims at hk
    split at hk
    · exact hHome e.1 k hk
    · cases hk
  rw [checkAndEvict_flatten, filter_flatMap,
    flatMap_eq_of_find (s := cacheSalt) _ bytesByCacheSalt.nodup]
  · change ((bytesByCacheSalt.get? cacheSalt).map _).getD [] = _
    obtain hUsage | ⟨userBytes, hUsage⟩ :=
      Option.eq_none_or_eq_some (bytesByCacheSalt.get? cacheSalt)
    · have hUnder : ¬ OverBudget quota config bytesByCacheSalt cacheSalt := by
        simp [OverBudget, hUsage]
      rw [hUsage, if_neg hUnder]
      rfl
    · have hOver : OverBudget quota config bytesByCacheSalt cacheSalt ↔ 0 < userBytes ∧
          config.triggerWatermark * quota.getLimitBytes cacheSalt ≤ (userBytes : ℚ) := by
        simp [OverBudget, hUsage]
      rw [hUsage, Option.map_some, Option.getD_some,
        filter_eq_self.mpr fun k hk => by simpa using hOwn _ k hk, entryVictims]
      exact if_congr hOver.symm rfl rfl
  · intro e _ hNe
    refine filter_eq_nil_iff.mpr fun k hk hEq => hNe ?_
    rw [← hOwn e k hk]
    simpa using hEq

theorem order_onKeysRemoved_other (policy : IsolatedLRUEvictionPolicy) {removed : List ObjectKey}
    {cacheSalt : String} (h : ∀ k ∈ removed, k.cacheSalt ≠ cacheSalt) :
    (policy.onKeysRemoved removed).order cacheSalt = policy.order cacheSalt := by
  rw [IsolatedLRUEvictionPolicy.onKeysRemoved, IsolatedLRUEvictionPolicy.order_foldl
    fun p key => IsolatedLRUEvictionPolicy.order_removeKey p key cacheSalt]
  rw [filter_eq_nil_iff.mpr fun k hk => by simpa using h k hk]
  rfl

/-- Notifications and passes keep tenants apart: the order of every salt is that of an LRU of
its own, a pass takes from a salt only what the salt's own usage, quota and order say, and the
removal of any of these keys changes no other order. -/
theorem eviction_isolated (destinations : List EvictionDestination)
    (defaultDestination : EvictionDestination) (notifications : List Notification)
    (quota : QuotaManager) (config : EvictionConfig) (bytesByCacheSalt : Dict String Int) :
    let policy := notifications.foldl IsolatedLRUEvictionPolicy.notify
      ⟨.empty, destinations, defaultDestination⟩
    let deleted := (checkAndEvictByCacheSalt policy quota config bytesByCacheSalt).flatten
    (∀ cacheSalt, policy.order cacheSalt =
      ((notifications.map (Notification.restrict cacheSalt)).foldl LRUEvictionPolicy.notify
        ⟨.empty, destinations, defaultDestination⟩).order) ∧
    (∀ cacheSalt, (deleted.filter fun k => k.cacheSalt = cacheSalt) =
      if OverBudget quota config bytesByCacheSalt cacheSalt then
        if quota.getLimitBytes cacheSalt = 0 then (policy.order cacheSalt).keys
        else (policy.order cacheSalt).keys.take
          (targetCount (policy.order cacheSalt).keys.length config.evictionRatio)
      else []) ∧
    ∀ gone : ObjectKey → Bool, ∀ cacheSalt, ¬ OverBudget quota config bytesByCacheSalt cacheSalt →
      (policy.onKeysRemoved (deleted.filter gone)).order cacheSalt = policy.order cacheSalt := by
  intro policy deleted
  have hNew : IsolatedLRUEvictionPolicy.Homed ⟨.empty, destinations, defaultDestination⟩ :=
    fun _ _ hk => nomatch hk
  have hHomed : policy.Homed := hNew.run notifications
  have hSalt := checkAndEvict_salt hHomed quota config bytesByCacheSalt
  refine ⟨fun s => IsolatedLRUEvictionPolicy.order_run notifications s rfl, hSalt, ?_⟩
  intro gone s hUnder
  refine order_onKeysRemoved_other policy fun k hk hEq => ?_
  have hMine : k ∈ deleted.filter fun k => k.cacheSalt = s :=
    List.mem_filter.mpr ⟨(List.mem_filter.mp hk).1, by simpa using hEq⟩
  rw [hSalt, if_neg hUnder] at hMine
  cases hMine

theorem eviction_isolated_two_tenants :
    let tenant (n : UInt8) (s : String) : ObjectKey := ⟨[n], "m", 0, 0, s⟩
    let quota : QuotaManager := ⟨.ofList [("a", 5), ("b", 100)], none⟩
    let usage : Dict String Int := .ofList [("a", 10), ("b", 10)]
    let policy := [Notification.created [tenant 1 "a", tenant 2 "a", tenant 1 "b"]].foldl
      IsolatedLRUEvictionPolicy.notify ⟨.empty, [], .discard⟩
    let deleted := (checkAndEvictByCacheSalt policy quota ⟨1, 1 / 2⟩ usage).flatten
    ¬ OverBudget quota ⟨1, 1 / 2⟩ usage "b" ∧
      (policy.onKeysRemoved (deleted.filter fun _ => true)).order "b" = policy.order "b" := by
  intro tenant quota usage policy deleted
  have hUnder : ¬ OverBudget quota ⟨1, 1 / 2⟩ usage "b" := by decide +kernel
  exact ⟨hUnder, (eviction_isolated [] .discard _ quota ⟨1, 1 / 2⟩ usage).2.2 _ "b" hUnder⟩

/-- A salt without a quota keeps its keys while its usage is not positive. -/
theorem idle_salt_keeps_keys :
    ¬ ∀ (notifications : List Notification) (quota : QuotaManager) (config : EvictionConfig)
      (usage : Dict String Int) (cacheSalt : String), quota.getLimitBytes cacheSalt = 0 →
      ((checkAndEvictByCacheSalt (notifications.foldl IsolatedLRUEvictionPolicy.notify
          ⟨.empty, [], .discard⟩) quota config usage).flatten.filter
            fun k => k.cacheSalt = cacheSalt) =
        ((notifications.foldl IsolatedLRUEvictionPolicy.notify
          ⟨.empty, [], .discard⟩).order cacheSalt).keys := by
  intro h
  have hAll := h [.created [⟨[1], "m", 0, 0, "a"⟩]] .new ⟨1, 1⟩ (.ofList [("a", 0)]) "a" rfl
  revert hAll
  decide +kernel

end LMCache.Eviction
