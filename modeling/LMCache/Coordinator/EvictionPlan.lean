import LMCache.Coordinator.RoundTrip

/-!
# The fleet's eviction plan

Four tables decide what is evicted from L2: the order of the tracked keys, the bytes of every
salt, the limits and the pins. Each follows its own calls. A salt over its threshold loses its
least recently used keys that are not pinned, and a salt without a byte to spend loses all of
them.
-/

namespace LMCache.Coordinator

open Lib Serde Eviction FleetEvictionController List
open Dict hiding keys

inductive EvictionCall
  | receive (broadcast : Consumers.Broadcast)
  | pin (keys : List ObjectKey)
  | unpin (keys : List ObjectKey)
  | forceDelete (keys : List ObjectKey)
  | setQuota (cacheSalt : String) (limitBytes : Int)
  | deleteQuota (cacheSalt : String)
  | setDefaultLimit (limitBytes : Option Int)
  | restart

namespace Consumers

def withQuota (c : Consumers) : Except String QuotaManager → Consumers
  | .ok quota => { c with eviction := { c.eviction with quota := quota } }
  | .error _ => c

def call (c : Consumers) : EvictionCall → Consumers
  | .receive broadcast => c.receive broadcast
  | .pin keys => { c with eviction := c.eviction.pin keys }
  | .unpin keys => { c with eviction := c.eviction.unpin keys }
  | .forceDelete keys => { c with eviction := c.eviction.dropPins keys }
  | .setQuota cacheSalt limitBytes => c.withQuota (c.eviction.quota.setQuota cacheSalt limitBytes)
  | .deleteQuota cacheSalt => c.withQuota (.ok (c.eviction.quota.deleteQuota cacheSalt))
  | .setDefaultLimit limitBytes => c.withQuota (c.eviction.quota.setDefaultLimitBytes limitBytes)
  | .restart => (Fleet.restarted ⟨.empty, c⟩).consumers

end Consumers

/-- The pins of a key after a call: applied, taken back down to zero, or dropped. -/
def pinsAfter (key : ObjectKey) (pins : Nat) : EvictionCall → Nat
  | .pin keys => pins + keys.count key
  | .unpin keys => pins - keys.count key
  | .forceDelete keys => if key ∈ keys then 0 else pins
  | _ => pins

def pinLedger (key : ObjectKey) (calls : List EvictionCall) : Nat :=
  calls.foldl (pinsAfter key) 0

namespace FleetEvictionController

variable {c : FleetEvictionController} {pins : ObjectKey → Nat}

structure Counts (c : FleetEvictionController) (pins : ObjectKey → Nat) : Prop where
  count : ∀ key, (c.pinCounts.get? key).getD 0 = pins key
  positive : ∀ key, c.pinCounts.get? key ≠ some 0

theorem Counts.contains_iff (h : c.Counts pins) (key : ObjectKey) :
    c.pinCounts.contains key = true ↔ 0 < pins key := by
  rw [Dict.contains_iff, ← h.count]
  cases hCount : c.pinCounts.get? key with
  | none => simp
  | some count =>
    have hPositive := h.positive key
    rw [hCount] at hPositive
    simp only [Option.some.injEq, exists_eq', Option.getD_some, true_iff]
    exact Nat.pos_of_ne_zero fun hZero => hPositive (congrArg some hZero)

theorem Counts.congr (h : c.Counts pins) {pins' : ObjectKey → Nat}
    (hSame : ∀ key, pins key = pins' key) : c.Counts pins' :=
  ⟨fun key => (h.count key).trans (hSame key), h.positive⟩

theorem Counts.set (h : c.Counts pins) (k : ObjectKey) {count : Nat} (hPos : 0 < count) :
    Counts { c with pinCounts := c.pinCounts.set k count }
      fun key => if k = key then count else pins key := by
  constructor
  · intro key
    dsimp only
    rw [get?_set]
    split
    · rfl
    · exact h.count key
  · intro key
    dsimp only
    rw [get?_set]
    split
    · exact fun hZero => Nat.ne_of_gt hPos (Option.some.inj hZero)
    · exact h.positive key

theorem Counts.erase (h : c.Counts pins) (k : ObjectKey) :
    Counts { c with pinCounts := c.pinCounts.erase k }
      fun key => if k = key then 0 else pins key := by
  constructor
  · intro key
    dsimp only
    rw [get?_erase]
    split
    · rfl
    · exact h.count key
  · intro key
    dsimp only
    rw [get?_erase]
    split
    · exact nofun
    · exact h.positive key

theorem Counts.pinKey (h : c.Counts pins) (k : ObjectKey) :
    (c.pinKey k).Counts fun key => if k = key then pins key + 1 else pins key := by
  unfold FleetEvictionController.pinKey
  rw [h.count]
  refine (h.set k (Nat.succ_pos (pins k))).congr fun key => ?_
  split
  · rename_i hKey
    rw [hKey]
  · rfl

theorem Counts.unpinKey (h : c.Counts pins) (k : ObjectKey) :
    (c.unpinKey k).Counts fun key => if k = key then pins key - 1 else pins key := by
  unfold FleetEvictionController.unpinKey
  rw [h.count]
  dsimp only
  split
  · rename_i hLast
    refine (h.erase k).congr fun key => ?_
    split
    · rename_i hKey
      rw [← hKey]
      omega
    · rfl
  · rename_i hMore
    refine (h.set k (Nat.pos_of_ne_zero fun hZero => hMore ?_)).congr fun key => ?_
    · omega
    · split
      · rename_i hKey
        rw [hKey]
      · rfl

theorem Counts.pin (h : c.Counts pins) (keys : List ObjectKey) :
    (c.pin keys).Counts fun key => pins key + keys.count key := by
  induction keys generalizing c pins with
  | nil => exact h
  | cons k rest ih =>
    refine (ih (h.pinKey k)).congr fun key => ?_
    rw [count_cons]
    by_cases hKey : k = key
    · rw [if_pos hKey, if_pos (beq_iff_eq.mpr hKey)]
      omega
    · rw [if_neg hKey, if_neg (beq_iff_eq.not.mpr hKey)]
      omega

theorem Counts.unpin (h : c.Counts pins) (keys : List ObjectKey) :
    (c.unpin keys).Counts fun key => pins key - keys.count key := by
  induction keys generalizing c pins with
  | nil => exact h
  | cons k rest ih =>
    refine (ih (h.unpinKey k)).congr fun key => ?_
    rw [count_cons]
    by_cases hKey : k = key
    · rw [if_pos hKey, if_pos (beq_iff_eq.mpr hKey)]
      omega
    · rw [if_neg hKey, if_neg (beq_iff_eq.not.mpr hKey)]
      omega

theorem get?_foldl_erase (keys : List ObjectKey) (table : Dict ObjectKey Nat) (key : ObjectKey) :
    (keys.foldl Dict.erase table).get? key = if key ∈ keys then none else table.get? key := by
  induction keys generalizing table with
  | nil => rfl
  | cons k rest ih =>
    rw [foldl_cons, ih, get?_erase]
    by_cases hRest : key ∈ rest
    · simp [hRest]
    · by_cases hKey : k = key
      · simp [hKey]
      · simp [hKey, hRest, Ne.symm hKey]

theorem Counts.dropPins (h : c.Counts pins) (keys : List ObjectKey) :
    (c.dropPins keys).Counts fun key => if key ∈ keys then 0 else pins key := by
  constructor
  · intro key
    refine (congrArg (Option.getD · 0) (get?_foldl_erase keys c.pinCounts key)).trans ?_
    split
    · rfl
    · exact h.count key
  · intro key hZero
    have hErased := (get?_foldl_erase keys c.pinCounts key).symm.trans hZero
    split at hErased
    · cases hErased
    · exact h.positive key hErased

end FleetEvictionController

def EvictionCall.uses : EvictionCall → List ObjectKey
  | .receive (.batch batch) =>
    if batch.tier = .l2 ∧ (batch.eventType = .store ∨ batch.eventType = .access) then
      batch.entries.map CacheEventEntry.key
    else []
  | _ => []

def usesOf (calls : List EvictionCall) : List ObjectKey := calls.flatMap EvictionCall.uses

def usesSince (uses : List ObjectKey) (key : ObjectKey) : Nat := uses.reverse.idxOf key

theorem usesSince_concat (uses : List ObjectKey) (key k : ObjectKey) :
    usesSince (uses ++ [key]) k = if k = key then 0 else usesSince uses k + 1 := by
  unfold usesSince
  rw [reverse_concat, idxOf_cons]
  by_cases hk : k = key
  · rw [if_pos hk, beq_iff_eq.mpr hk.symm]
    rfl
  · rw [if_neg hk, beq_eq_false_iff_ne.mpr (Ne.symm hk)]
    rfl

/-- From the least to the most recently used key. -/
def Recent (uses keys : List ObjectKey) : Prop :=
  keys.Pairwise fun a b => usesSince uses b < usesSince uses a

namespace Recent

variable {uses keys : List ObjectKey} {key : ObjectKey}

theorem other (h : Recent uses keys) (hAbsent : key ∉ keys) : Recent (uses ++ [key]) keys := by
  refine List.Pairwise.imp_of_mem (fun {a b} ha hb hab => ?_) h
  have hNe : ∀ k ∈ keys, k ≠ key := fun k hk hEq => hAbsent (hEq ▸ hk)
  rw [usesSince_concat, usesSince_concat, if_neg (hNe a ha), if_neg (hNe b hb)]
  omega

theorem moveToEnd (h : Recent uses keys) :
    Recent (uses ++ [key]) (keys.filter (fun k => k ≠ key) ++ [key]) := by
  refine pairwise_append.mpr ⟨?_, pairwise_singleton _ _, fun a ha b hb => ?_⟩
  · exact other (h.sublist filter_sublist) fun hMem => by
      simp at hMem
  · have hNe : a ≠ key := by simpa using (mem_filter.mp ha).2
    rw [mem_singleton.mp hb, usesSince_concat, usesSince_concat, if_pos rfl, if_neg hNe]
    exact Nat.succ_pos _

end Recent

namespace FleetEvictionController

open IsolatedLRUEvictionPolicy

variable {policy : IsolatedLRUEvictionPolicy} {uses : List ObjectKey} {key : ObjectKey}

def Ordered (policy : IsolatedLRUEvictionPolicy) (uses : List ObjectKey) : Prop :=
  ∀ cacheSalt, Recent uses (policy.order cacheSalt).keys

theorem Ordered.createKey (h : Ordered policy uses) (hHomed : policy.Homed) (key : ObjectKey) :
    Ordered (policy.createKey key) (uses ++ [key]) := by
  intro cacheSalt
  rw [order_createKey]
  split
  · rw [KeyOrder.keys_create]
    exact (h cacheSalt).moveToEnd
  · rename_i hSalt
    exact (h cacheSalt).other fun hMem => hSalt (hHomed cacheSalt key hMem)

theorem Ordered.touchKey (h : Ordered policy uses) (hHomed : policy.Homed) (key : ObjectKey) :
    Ordered (policy.touchKey key) (uses ++ [key]) := by
  intro cacheSalt
  rw [order_touchKey]
  split
  · unfold KeyOrder.touch
    split
    · rw [KeyOrder.keys_moveToEnd]
      exact (h cacheSalt).moveToEnd
    · rename_i hAbsent
      exact (h cacheSalt).other fun hMem =>
        hAbsent (Dict.contains_iff.mpr (mem_keys_iff.mp hMem))
  · rename_i hSalt
    exact (h cacheSalt).other fun hMem => hSalt (hHomed cacheSalt key hMem)

theorem Ordered.removeKey (h : Ordered policy uses) (key : ObjectKey) :
    Ordered (policy.removeKey key) uses := by
  intro cacheSalt
  rw [order_removeKey]
  split
  · exact (h cacheSalt).sublist (filter_sublist.map _)
  · exact h cacheSalt

theorem homed_applyEntry (h : policy.Homed) (usage : CacheUsageManager) (batch : CacheEventBatch)
    (entry : CacheEventEntry) : (applyEntry usage batch policy entry).Homed := by
  unfold applyEntry
  split
  · exact h.createKey entry.key
  · exact h.touchKey entry.key
  · split
    · exact h.removeKey entry.key
    · exact h
  · exact h

theorem Ordered.entries (h : Ordered policy uses) (hHomed : policy.Homed)
    (usage : CacheUsageManager) (batch : CacheEventBatch) (entries : List CacheEventEntry) :
    Ordered (entries.foldl (applyEntry usage batch) policy)
      (uses ++ if batch.eventType = .store ∨ batch.eventType = .access then
        entries.map CacheEventEntry.key else []) := by
  induction entries generalizing policy uses with
  | nil => simpa using h
  | cons entry rest ih =>
    have hRest := homed_applyEntry hHomed usage batch entry
    rw [foldl_cons, map_cons]
    have hStep : Ordered (applyEntry usage batch policy entry)
        (uses ++
          if batch.eventType = .store ∨ batch.eventType = .access then [entry.key] else []) := by
      unfold applyEntry
      cases batch.eventType with
      | store => exact h.createKey hHomed entry.key
      | access => exact h.touchKey hHomed entry.key
      | config => simpa using h
      | delete =>
        simp only [reduceCtorEq, or_self, if_false, append_nil]
        split
        · exact h.removeKey entry.key
        · exact h
    have hAll := ih hStep hRest
    rw [append_assoc] at hAll
    split
    · rename_i hUse
      rw [if_pos hUse, if_pos hUse] at hAll
      exact hAll
    · rename_i hUse
      rw [if_neg hUse, if_neg hUse] at hAll
      exact hAll

variable {c : FleetEvictionController} {usage : CacheUsageManager} {cacheSalt : String}
  {limit : Nat} {keys : List ObjectKey}

/-- The salt has bytes in L2, a limit, and bytes from its threshold on. -/
def OverThreshold (c : FleetEvictionController) (usage : CacheUsageManager) (cacheSalt : String)
    (limit : Nat) : Prop :=
  0 < usage.getSaltBytes .l2 cacheSalt ∧ c.quota.effectiveLimitBytes cacheSalt = some limit ∧
    c.triggerWatermark * limit ≤ (usage.getSaltBytes .l2 cacheSalt : ℚ)

def unpinned (c : FleetEvictionController) (cacheSalt : String) : List ObjectKey :=
  (c.policy.order cacheSalt).keys.filter fun key => !c.pinCounts.contains key

def planned (c : FleetEvictionController) (cacheSalt : String) (limit : Nat) : List ObjectKey :=
  (c.unpinned cacheSalt).take (targetCount (c.policy.order cacheSalt).keys.length
    (if limit = 0 then 1 else c.evictionRatio))

theorem saltPlan_of_over (h : c.OverThreshold usage cacheSalt limit) :
    c.saltPlan usage cacheSalt = c.planned cacheSalt limit := by
  obtain ⟨hBytes, hLimit, hThreshold⟩ := h
  unfold saltPlan
  dsimp only
  rw [if_neg (not_le.mpr hBytes), hLimit]
  dsimp only
  rw [if_neg (not_lt.mpr hThreshold)]
  exact flatMap_evictionActions _ _ _ _

theorem over_of_saltPlan (h : c.saltPlan usage cacheSalt ≠ []) :
    ∃ limit, c.OverThreshold usage cacheSalt limit := by
  unfold saltPlan at h
  dsimp only at h
  split at h
  · exact absurd rfl h
  · rename_i hBytes
    split at h
    · exact absurd rfl h
    · rename_i limit hLimit
      split at h
      · exact absurd rfl h
      · rename_i hThreshold
        exact ⟨limit, not_le.mp hBytes, hLimit, not_lt.mp hThreshold⟩

theorem planned_of_zero : c.planned cacheSalt 0 = c.unpinned cacheSalt := by
  unfold planned
  rw [if_pos rfl]
  exact take_of_length_le ((length_filter_le _ _).trans (le_targetCount_one _))

theorem planned_ne_nil (hRatio : limit = 0 ∨ 0 < c.evictionRatio) (h : c.unpinned cacheSalt ≠ []) :
    c.planned cacheSalt limit ≠ [] := by
  have hCount := targetCount_pos (c.policy.order cacheSalt).keys.length
    (show 0 < if limit = 0 then 1 else c.evictionRatio by
      split
      · exact one_pos
      · rename_i hSome
        exact hRatio.resolve_left hSome)
  intro hNone
  rcases take_eq_nil_iff.mp hNone with hZero | hEmpty
  · exact Nat.ne_of_gt hCount hZero
  · exact h hEmpty

theorem mem_plan_iff : (cacheSalt, keys) ∈ c.computeEvictionPlan usage ↔
    keys ≠ [] ∧ ∃ limit, c.OverThreshold usage cacheSalt limit ∧
      keys = c.planned cacheSalt limit := by
  unfold computeEvictionPlan
  rw [mem_filter, mem_map]
  constructor
  · rintro ⟨⟨salt, -, hPlan⟩, hSome⟩
    obtain ⟨rfl, rfl⟩ := Prod.mk.inj hPlan
    have hSome : c.saltPlan usage salt ≠ [] := by simpa using hSome
    obtain ⟨limit, hOver⟩ := over_of_saltPlan hSome
    exact ⟨hSome, limit, hOver, saltPlan_of_over hOver⟩
  · rintro ⟨hSome, limit, hOver, rfl⟩
    refine ⟨⟨cacheSalt, ?_, by rw [saltPlan_of_over hOver]⟩, by simpa using hSome⟩
    -- a salt with keys is tracked
    by_contra hAbsent
    refine hSome ?_
    have hNone : c.policy.perSaltOrder.get? cacheSalt = none := get?_eq_none_iff.mpr hAbsent
    unfold planned unpinned IsolatedLRUEvictionPolicy.order
    rw [hNone]
    exact take_nil

theorem nodup_plan (c : FleetEvictionController) (usage : CacheUsageManager) :
    ((c.computeEvictionPlan usage).map Prod.fst).Nodup := by
  unfold computeEvictionPlan
  refine List.Nodup.sublist (filter_sublist.map _) ?_
  rw [map_map]
  exact (map_id _).symm ▸ c.policy.perSaltOrder.nodup_keys

end FleetEvictionController

namespace Consumers

variable {c : Consumers} {calls : List EvictionCall}

/-- The tables of the controller follow the calls. -/
structure Follows (c : Consumers) (calls : List EvictionCall) : Prop where
  homed : c.eviction.policy.Homed
  plain : Plain c.eviction.policy
  ordered : FleetEvictionController.Ordered c.eviction.policy (usesOf calls)
  counts : c.eviction.Counts fun key => pinLedger key calls

theorem usesOf_concat (calls : List EvictionCall) (call : EvictionCall) :
    usesOf (calls ++ [call]) = usesOf calls ++ call.uses := by
  unfold usesOf
  rw [flatMap_append, flatMap_singleton]

theorem pinLedger_concat (key : ObjectKey) (calls : List EvictionCall) (call : EvictionCall) :
    pinLedger key (calls ++ [call]) = pinsAfter key (pinLedger key calls) call := by
  unfold pinLedger
  rw [foldl_concat]

theorem Follows.quiet {c' : Consumers} {call : EvictionCall} (h : c.Follows calls)
    (hPolicy : c'.eviction.policy = c.eviction.policy)
    (hPins : c'.eviction.pinCounts = c.eviction.pinCounts) (hUses : call.uses = [])
    (hLedger : ∀ key pins, pinsAfter key pins call = pins) : c'.Follows (calls ++ [call]) where
  homed := hPolicy ▸ h.homed
  plain := hPolicy ▸ h.plain
  ordered := by
    rw [usesOf_concat, hUses, append_nil, hPolicy]
    exact h.ordered
  counts := by
    refine FleetEvictionController.Counts.congr ?_ fun key =>
      ((pinLedger_concat key calls call).trans (hLedger key _)).symm
    exact ⟨fun key => hPins ▸ h.counts.count key, fun key => hPins ▸ h.counts.positive key⟩

theorem Follows.withQuota {call : EvictionCall} (h : c.Follows calls)
    (quota : Except String QuotaManager) (hUses : call.uses = [])
    (hLedger : ∀ key pins, pinsAfter key pins call = pins) :
    (c.withQuota quota).Follows (calls ++ [call]) := by
  unfold Consumers.withQuota
  split
  · exact h.quiet rfl rfl hUses hLedger
  · exact h.quiet rfl rfl hUses hLedger

theorem Follows.consume (h : c.Follows calls) (batch : CacheEventBatch) :
    (c.consume batch).Follows (calls ++ [.receive (.batch batch)]) where
  homed := homed_consume h.homed
  plain := h.plain.consume _ batch
  ordered := by
    rw [usesOf_concat]
    unfold Consumers.consume FleetEvictionController.consume EvictionCall.uses
    dsimp only
    by_cases hTier : batch.tier = .l2
    · rw [if_neg (not_not.mpr hTier)]
      simp only [hTier, true_and]
      exact h.ordered.entries h.homed _ batch batch.entries
    · rw [if_pos hTier, if_neg fun hBoth => hTier hBoth.1, append_nil]
      exact h.ordered
  counts := by
    refine FleetEvictionController.Counts.congr ?_ fun key => (pinLedger_concat key calls _).symm
    have hPins : (c.consume batch).eviction.pinCounts = c.eviction.pinCounts := by
      unfold Consumers.consume FleetEvictionController.consume
      dsimp only
      split <;> rfl
    exact ⟨fun key => hPins ▸ h.counts.count key, fun key => hPins ▸ h.counts.positive key⟩

theorem Follows.repin {eviction : FleetEvictionController} {call : EvictionCall}
    (h : c.Follows calls) (hPolicy : eviction.policy = c.eviction.policy) (hUses : call.uses = [])
    (hCounts : eviction.Counts fun key => pinsAfter key (pinLedger key calls) call) :
    Follows { c with eviction := eviction } (calls ++ [call]) where
  homed := hPolicy ▸ h.homed
  plain := hPolicy ▸ h.plain
  ordered := by
    rw [usesOf_concat, hUses, append_nil]
    exact hPolicy ▸ h.ordered
  counts := hCounts.congr fun key => (pinLedger_concat key calls call).symm

end Consumers

namespace FleetEvictionController

theorem pin_eq (c : FleetEvictionController) (keys : List ObjectKey) :
    c.pin keys = { c with pinCounts := (c.pin keys).pinCounts } := by
  induction keys generalizing c with
  | nil => rfl
  | cons key rest ih => exact ih (c.pinKey key)

theorem unpin_eq (c : FleetEvictionController) (keys : List ObjectKey) :
    c.unpin keys = { c with pinCounts := (c.unpin keys).pinCounts } := by
  induction keys generalizing c with
  | nil => rfl
  | cons key rest ih =>
    have hKey : c.unpinKey key = { c with pinCounts := (c.unpinKey key).pinCounts } := by
      unfold unpinKey
      dsimp only
      split <;> rfl
    have hRest := ih (c.unpinKey key)
    rw [hKey] at hRest
    rw [show c.unpin (key :: rest) = (c.unpinKey key).unpin rest from rfl, hKey]
    exact hRest

end FleetEvictionController

namespace Consumers

variable {c : Consumers} {calls : List EvictionCall}

theorem Follows.call (h : c.Follows calls) (call : EvictionCall) :
    (c.call call).Follows (calls ++ [call]) := by
  cases call with
  | receive broadcast =>
    cases broadcast with
    | batch batch => exact h.consume batch
    | fence instanceId => exact h.quiet rfl rfl rfl fun _ _ => rfl
  | pin keys =>
    exact h.repin (congrArg (·.policy) (c.eviction.pin_eq keys)) rfl (h.counts.pin keys)
  | unpin keys =>
    exact h.repin (congrArg (·.policy) (c.eviction.unpin_eq keys)) rfl (h.counts.unpin keys)
  | forceDelete keys => exact h.repin rfl rfl (h.counts.dropPins keys)
  | setQuota cacheSalt limitBytes => exact h.withQuota _ rfl fun _ _ => rfl
  | deleteQuota cacheSalt =>
    have hDeleted : (c.withQuota (.ok (c.eviction.quota.deleteQuota cacheSalt))).Follows
        (calls ++ [.deleteQuota cacheSalt]) := h.withQuota _ rfl fun _ _ => rfl
    exact hDeleted
  | setDefaultLimit limitBytes => exact h.withQuota _ rfl fun _ _ => rfl
  | restart =>
    -- the order is restored as it was captured
    refine h.quiet ?_ rfl rfl fun _ _ => rfl
    exact h.plain.restore_capture

theorem follows_run (evictionRatio triggerWatermark : ℚ) (calls : List EvictionCall) :
    (calls.foldl Consumers.call (.new evictionRatio triggerWatermark)).Follows calls := by
  induction calls using List.reverseRecOn with
  | nil =>
    refine ⟨?_, ⟨rfl, rfl⟩, fun _ => List.Pairwise.nil, ⟨fun _ => rfl, fun _ => nofun⟩⟩
    intro cacheSalt key hKey
    cases hKey
  | append_singleton before call ih =>
    rw [foldl_concat]
    exact ih.call call

theorem settings_call (c : Consumers) (call : EvictionCall) :
    (c.call call).eviction.triggerWatermark = c.eviction.triggerWatermark ∧
      (c.call call).eviction.evictionRatio = c.eviction.evictionRatio := by
  have hQuota : ∀ quota, (c.withQuota quota).eviction.triggerWatermark =
      c.eviction.triggerWatermark ∧
      (c.withQuota quota).eviction.evictionRatio = c.eviction.evictionRatio := by
    intro quota
    cases quota with
    | ok quota => exact ⟨rfl, rfl⟩
    | error message => exact ⟨rfl, rfl⟩
  cases call with
  | receive broadcast =>
    cases broadcast with
    | batch batch =>
      unfold Consumers.call Consumers.receive Consumers.consume FleetEvictionController.consume
      dsimp only
      split <;> exact ⟨rfl, rfl⟩
    | fence instanceId => exact ⟨rfl, rfl⟩
  | pin keys =>
    exact ⟨congrArg (·.triggerWatermark) (c.eviction.pin_eq keys),
      congrArg (·.evictionRatio) (c.eviction.pin_eq keys)⟩
  | unpin keys =>
    exact ⟨congrArg (·.triggerWatermark) (c.eviction.unpin_eq keys),
      congrArg (·.evictionRatio) (c.eviction.unpin_eq keys)⟩
  | forceDelete keys => exact ⟨rfl, rfl⟩
  | setQuota cacheSalt limitBytes => exact hQuota _
  | deleteQuota cacheSalt => exact hQuota _
  | setDefaultLimit limitBytes => exact hQuota _
  | restart => exact ⟨rfl, rfl⟩

theorem settings_run (evictionRatio triggerWatermark : ℚ) (calls : List EvictionCall) :
    let c := calls.foldl Consumers.call (.new evictionRatio triggerWatermark)
    c.eviction.triggerWatermark = triggerWatermark ∧
      c.eviction.evictionRatio = max 0 (min 1 evictionRatio) := by
  induction calls using List.reverseRecOn with
  | nil => exact ⟨rfl, rfl⟩
  | append_singleton before call ih =>
    dsimp only at ih ⊢
    rw [foldl_concat, (settings_call _ call).1, (settings_call _ call).2]
    exact ih

/-- The plan after any calls, and the pins that it respects. Of the unpinned keys of a salt over
its threshold the least recently used ones are planned, as many as the ratio of all its keys
asks for. -/
theorem eviction_plan (evictionRatio triggerWatermark : ℚ) (calls : List EvictionCall) :
    let c := calls.foldl Consumers.call (.new evictionRatio triggerWatermark)
    let plan := c.eviction.computeEvictionPlan c.usage
    c.eviction.triggerWatermark = triggerWatermark ∧ (plan.map Prod.fst).Nodup ∧
    (∀ cacheSalt keys, (cacheSalt, keys) ∈ plan →
      keys ≠ [] ∧ ∃ limit, c.eviction.OverThreshold c.usage cacheSalt limit ∧
        keys = (c.eviction.unpinned cacheSalt).take
          (targetCount (c.eviction.policy.order cacheSalt).keys.length
            (if limit = 0 then 1 else max 0 (min 1 evictionRatio))) ∧
        (limit = 0 → keys = c.eviction.unpinned cacheSalt) ∧
        ∀ key ∈ keys, key.cacheSalt = cacheSalt ∧ c.eviction.policy.Tracks key ∧
          pinLedger key calls = 0) ∧
    (∀ cacheSalt, Recent (usesOf calls) (c.eviction.unpinned cacheSalt)) ∧
    (∀ cacheSalt limit, limit = 0 ∨ 0 < evictionRatio →
      c.eviction.OverThreshold c.usage cacheSalt limit →
      c.eviction.unpinned cacheSalt ≠ [] → ∃ keys ≠ [], (cacheSalt, keys) ∈ plan) ∧
    ∀ key, c.eviction.pinCounts.contains key = true ↔ 0 < pinLedger key calls := by
  intro c plan
  have hFollows : c.Follows calls := follows_run evictionRatio triggerWatermark calls
  obtain ⟨hWatermark, hRatio⟩ := settings_run evictionRatio triggerWatermark calls
  refine ⟨hWatermark, c.eviction.nodup_plan c.usage, fun cacheSalt keys hMem => ?_,
    fun cacheSalt => (hFollows.ordered cacheSalt).sublist List.filter_sublist,
    fun cacheSalt limit hPositive hOver hSome => ?_, hFollows.counts.contains_iff⟩
  · obtain ⟨hSome, limit, hOver, rfl⟩ := mem_plan_iff.mp hMem
    refine ⟨hSome, limit, hOver, by rw [← hRatio]; rfl, ?_, fun key hKey => ?_⟩
    · rintro rfl
      exact planned_of_zero
    · obtain ⟨hTracked, hUnpinned⟩ := List.mem_filter.mp (List.mem_of_mem_take hKey)
      have hSalt := hFollows.homed cacheSalt key hTracked
      refine ⟨hSalt, ?_, Nat.eq_zero_of_not_pos fun hPins => ?_⟩
      · unfold IsolatedLRUEvictionPolicy.Tracks
        rwa [hSalt]
      · rw [(hFollows.counts.contains_iff key).mpr hPins] at hUnpinned
        cases hUnpinned
  · have hPlanned : c.eviction.planned cacheSalt limit ≠ [] :=
      planned_ne_nil (hPositive.imp_right fun hPositive =>
        hRatio ▸ lt_max_of_lt_right (lt_min one_pos hPositive)) hSome
    exact ⟨_, hPlanned, mem_plan_iff.mpr ⟨hPlanned, limit, hOver, rfl⟩⟩

def hashed (hash : UInt8) : ObjectKey := ⟨[hash], "m", 0, 0, ""⟩

def batchOf (eventType : CacheEventType) (h : eventType ≠ .config) (keys : List ObjectKey) :
    CacheEventBatch := { Sample.stored "a" Sample.name_ne .l2 with
  eventType := eventType
  entries := keys.map fun key => { key, sizeBytes := 4 }
  backend_ne := fun _ => by decide
  config_empty := fun hConfig => absurd hConfig h }

/-- Of three keys the first is used again and the second pinned; half of them are to go. -/
def mixedCalls : List EvictionCall :=
  [.receive (.batch (batchOf .store nofun [hashed 1, hashed 2, hashed 3])),
    .receive (.batch (batchOf .access nofun [hashed 1])), .pin [hashed 2], .setQuota "" 12]

theorem eviction_plan_sample :
    let c := mixedCalls.foldl call (.new (1 / 2) 1)
    c.eviction.computeEvictionPlan c.usage = [("", [hashed 3])] ∧
      Recent (usesOf mixedCalls) [hashed 3, hashed 1] := by
  intro c
  have hUnpinned : c.eviction.unpinned "" = [hashed 3, hashed 1] := by decide +kernel
  exact ⟨by decide +kernel, hUnpinned ▸ (eviction_plan (1 / 2) 1 mixedCalls).2.2.2.1 ""⟩

end Consumers

end LMCache.Coordinator
