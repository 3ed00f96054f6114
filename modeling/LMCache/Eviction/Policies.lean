import LMCache.Serde.Wrapper
import Mathlib.Data.Rat.Floor

/-!
# Eviction policies

`LRUEvictionPolicy` keeps one list of keys in the order of their last use,
`IsolatedLRUEvictionPolicy` one list per `cache_salt`. Both are told of created, touched and
removed keys, and select the least recently used keys of a list for eviction. `QuotaManager`
holds the byte limits, and the L2 eviction controller compares the usage of every salt with
its limit.

Ratios and watermarks are rationals. A policy that is isolated always gets a salt.
-/

namespace LMCache.Eviction

open Lib Serde

inductive EvictionDestination
  | discard
  | l2Cache
deriving DecidableEq, Repr

structure EvictionAction where
  destination : EvictionDestination
  keys : List ObjectKey

/-- An ordered dictionary without values, least recently used key first. -/
abbrev KeyOrder := Dict ObjectKey Unit

namespace KeyOrder

def moveToEnd (order : KeyOrder) (key : ObjectKey) : KeyOrder := (order.erase key).set key ()

/-- One key of `on_keys_created`. -/
def create (order : KeyOrder) (key : ObjectKey) : KeyOrder :=
  if order.contains key then order.moveToEnd key else order.set key ()

/-- One key of `on_keys_touched`. -/
def touch (order : KeyOrder) (key : ObjectKey) : KeyOrder :=
  if order.contains key then order.moveToEnd key else order

/-- One key of `on_keys_removed`. -/
def remove (order : KeyOrder) (key : ObjectKey) : KeyOrder := order.erase key

end KeyOrder

def targetCount (poolSize : Nat) (expectedRatio : ℚ) : Nat :=
  let ratio := max 0 (min 1 expectedRatio)
  let count := ⌊(poolSize : ℚ) * ratio⌋.toNat
  if 0 < ratio ∧ count = 0 then 1 else count

def selectKeys (eligible : ObjectKey → Bool) : Nat → List ObjectKey → List ObjectKey
  | 0, _ => []
  | _ + 1, [] => []
  | count + 1, key :: rest =>
    if eligible key then key :: selectKeys eligible count rest
    else selectKeys eligible (count + 1) rest

/-- `get_eviction_actions` on one list of keys. -/
def evictionActions (pool : List ObjectKey) (destination : EvictionDestination)
    (expectedRatio : ℚ) (eligible : ObjectKey → Bool) : List EvictionAction :=
  if pool.isEmpty then []
  else
    let count := targetCount pool.length expectedRatio
    if count = 0 then []
    else
      let keysToEvict := selectKeys eligible count pool
      if keysToEvict.isEmpty then [] else [⟨destination, keysToEvict⟩]

inductive Notification
  | created (keys : List ObjectKey)
  | touched (keys : List ObjectKey)
  | removed (keys : List ObjectKey)

structure LRUEvictionPolicy where
  order : KeyOrder
  destinations : List EvictionDestination
  defaultDestination : EvictionDestination

namespace LRUEvictionPolicy

def new (defaultDestination : EvictionDestination) : LRUEvictionPolicy :=
  ⟨.empty, [], defaultDestination⟩

def onKeysCreated (p : LRUEvictionPolicy) (keys : List ObjectKey) : LRUEvictionPolicy :=
  { p with order := keys.reverse.foldl KeyOrder.create p.order }

def onKeysTouched (p : LRUEvictionPolicy) (keys : List ObjectKey) : LRUEvictionPolicy :=
  { p with order := keys.reverse.foldl KeyOrder.touch p.order }

def onKeysRemoved (p : LRUEvictionPolicy) (keys : List ObjectKey) : LRUEvictionPolicy :=
  { p with order := keys.foldl KeyOrder.remove p.order }

def notify (p : LRUEvictionPolicy) : Notification → LRUEvictionPolicy
  | .created keys => p.onKeysCreated keys
  | .touched keys => p.onKeysTouched keys
  | .removed keys => p.onKeysRemoved keys

def getEvictionActions (p : LRUEvictionPolicy) (expectedRatio : ℚ)
    (eligible : ObjectKey → Bool) : List EvictionAction :=
  evictionActions p.order.keys (p.destinations.headD p.defaultDestination) expectedRatio eligible

end LRUEvictionPolicy

structure IsolatedLRUEvictionPolicy where
  perSaltOrder : Dict String KeyOrder
  destinations : List EvictionDestination
  defaultDestination : EvictionDestination

namespace IsolatedLRUEvictionPolicy

def new (defaultDestination : EvictionDestination) : IsolatedLRUEvictionPolicy :=
  ⟨.empty, [], defaultDestination⟩

def order (p : IsolatedLRUEvictionPolicy) (cacheSalt : String) : KeyOrder :=
  (p.perSaltOrder.get? cacheSalt).getD .empty

def createKey (p : IsolatedLRUEvictionPolicy) (key : ObjectKey) : IsolatedLRUEvictionPolicy :=
  { p with perSaltOrder := p.perSaltOrder.set key.cacheSalt ((p.order key.cacheSalt).create key) }

def touchKey (p : IsolatedLRUEvictionPolicy) (key : ObjectKey) : IsolatedLRUEvictionPolicy :=
  match p.perSaltOrder.get? key.cacheSalt with
  | none => p
  | some order => { p with perSaltOrder := p.perSaltOrder.set key.cacheSalt (order.touch key) }

def removeKey (p : IsolatedLRUEvictionPolicy) (key : ObjectKey) : IsolatedLRUEvictionPolicy :=
  match p.perSaltOrder.get? key.cacheSalt with
  | none => p
  | some order =>
    let rest := order.remove key
    if rest.keys.isEmpty then { p with perSaltOrder := p.perSaltOrder.erase key.cacheSalt }
    else { p with perSaltOrder := p.perSaltOrder.set key.cacheSalt rest }

def onKeysCreated (p : IsolatedLRUEvictionPolicy) (keys : List ObjectKey) :
    IsolatedLRUEvictionPolicy :=
  keys.reverse.foldl createKey p

def onKeysTouched (p : IsolatedLRUEvictionPolicy) (keys : List ObjectKey) :
    IsolatedLRUEvictionPolicy :=
  keys.reverse.foldl touchKey p

def onKeysRemoved (p : IsolatedLRUEvictionPolicy) (keys : List ObjectKey) :
    IsolatedLRUEvictionPolicy :=
  keys.foldl removeKey p

def notify (p : IsolatedLRUEvictionPolicy) : Notification → IsolatedLRUEvictionPolicy
  | .created keys => p.onKeysCreated keys
  | .touched keys => p.onKeysTouched keys
  | .removed keys => p.onKeysRemoved keys

def getTrackedSalts (p : IsolatedLRUEvictionPolicy) : List String := p.perSaltOrder.keys

def getEvictionActions (p : IsolatedLRUEvictionPolicy) (expectedRatio : ℚ)
    (eligible : ObjectKey → Bool) (cacheSalt : String) : List EvictionAction :=
  evictionActions (p.order cacheSalt).keys (p.destinations.headD p.defaultDestination)
    expectedRatio eligible

end IsolatedLRUEvictionPolicy

structure QuotaManager where
  limits : Dict String Nat
  defaultLimitBytes : Option Nat

namespace QuotaManager

def new : QuotaManager := ⟨.empty, none⟩

def setQuota (q : QuotaManager) (cacheSalt : String) (limitBytes : Int) :
    Except String QuotaManager :=
  if limitBytes < 0 then .error s!"limit_bytes must be non-negative (got {limitBytes})"
  else .ok { q with limits := q.limits.set cacheSalt limitBytes.toNat }

def deleteQuota (q : QuotaManager) (cacheSalt : String) : QuotaManager :=
  { q with limits := q.limits.erase cacheSalt }

def setDefaultLimitBytes (q : QuotaManager) : Option Int → Except String QuotaManager
  | none => .ok { q with defaultLimitBytes := none }
  | some limitBytes =>
    if limitBytes < 0 then .error s!"limit_bytes must be non-negative (got {limitBytes})"
    else .ok { q with defaultLimitBytes := some limitBytes.toNat }

def getLimitBytes (q : QuotaManager) (cacheSalt : String) : Nat :=
  (q.limits.get? cacheSalt).getD 0

def effectiveLimitBytes (q : QuotaManager) (cacheSalt : String) : Option Nat :=
  match q.limits.get? cacheSalt with
  | some explicit => some explicit
  | none => q.defaultLimitBytes

end QuotaManager

structure EvictionConfig where
  triggerWatermark : ℚ
  evictionRatio : ℚ

/-- `pending.setdefault(action.destination, []).extend(action.keys)`. -/
def addPending (pending : Dict EvictionDestination (List ObjectKey)) (action : EvictionAction) :
    Dict EvictionDestination (List ObjectKey) :=
  pending.set action.destination ((pending.get? action.destination).getD [] ++ action.keys)

/-- One salt of the loop of `_check_and_evict_by_cache_salt`. -/
def checkSalt (policy : IsolatedLRUEvictionPolicy) (quota : QuotaManager) (config : EvictionConfig)
    (pending : Dict EvictionDestination (List ObjectKey)) (usage : String × Int) :
    Dict EvictionDestination (List ObjectKey) :=
  let (cacheSalt, userBytes) := usage
  let limit := quota.getLimitBytes cacheSalt
  if userBytes ≤ 0 then pending
  else if (userBytes : ℚ) < config.triggerWatermark * limit then pending
  else
    let effectiveRatio := if limit = 0 then 1 else config.evictionRatio
    (policy.getEvictionActions effectiveRatio (fun _ => true) cacheSalt).foldl addPending pending

/-- The keys that one pass of `_check_and_evict_by_cache_salt` passes to `adapter.delete`, one
list per call. -/
def checkAndEvictByCacheSalt (policy : IsolatedLRUEvictionPolicy) (quota : QuotaManager)
    (config : EvictionConfig) (bytesByCacheSalt : Dict String Int) : List (List ObjectKey) :=
  (bytesByCacheSalt.entries.foldl (checkSalt policy quota config) .empty).values

end LMCache.Eviction
