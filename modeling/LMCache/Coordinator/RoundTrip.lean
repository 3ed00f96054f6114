import LMCache.Coordinator.Restored

/-!
# The round trip of a checkpoint

A fleet that starts again with its own checkpoint gives the answers of the original, for every
sequence of calls. Every call keeps the two fleets alike.
-/

namespace LMCache.Coordinator

open Lib Serde Eviction

namespace Fleet

variable {f f' : Fleet}

/-- Two fleets that no call can tell apart. -/
structure Alike (f f' : Fleet) : Prop where
  cursors : f'.cursors = f.cursors
  directory : f.consumers.directory.Alike f'.consumers.directory
  usage : f.consumers.usage.Alike f'.consumers.usage
  registry : f'.consumers.registry = f.consumers.registry
  eviction : f'.consumers.eviction = f.consumers.eviction

theorem evictionConsume_eq {usage usage' : CacheUsageManager} (h : usage.Alike usage')
    (c : FleetEvictionController) (batch : CacheEventBatch) :
    c.consume usage' batch = c.consume usage batch := by
  have hEntry : FleetEvictionController.applyEntry usage' batch =
      FleetEvictionController.applyEntry usage batch := by
    funext policy entry
    unfold FleetEvictionController.applyEntry
    rw [h.getKeyBytes]
  unfold FleetEvictionController.consume
  rw [hEntry]

theorem Alike.pass (h : Alike f f') (cursor : StreamCursor) (batch : CacheEventBatch) :
    Alike (f.pass cursor batch) (f'.pass cursor batch) where
  cursors := congrArg (fun t => Dict.set t _ _) h.cursors
  directory := h.directory.consume batch
  usage := h.usage.consume batch
  registry := congrArg (ServerConfigRegistry.consume · batch) h.registry
  eviction := by
    change f'.consumers.eviction.consume (f'.consumers.usage.consume batch) batch = _
    rw [h.eviction, evictionConsume_eq (h.usage.consume batch)]
    rfl

theorem Alike.fence (h : Alike f f') (instanceId : String) :
    Alike { f with consumers := f.consumers.fenceInstance instanceId }
      { f' with consumers := f'.consumers.fenceInstance instanceId } where
  cursors := h.cursors
  directory := h.directory.fenceInstance instanceId
  usage := h.usage.fenceInstance instanceId
  registry := h.registry
  eviction := h.eviction

theorem Alike.ingest (h : Alike f f') (batch : CacheEventBatch) :
    (f'.ingest batch).1 = (f.ingest batch).1 ∧ Alike (f.ingest batch).2 (f'.ingest batch).2 := by
  have hCursor : f'.cursors.get? batch.instanceId = f.cursors.get? batch.instanceId := by
    rw [h.cursors]
  unfold Fleet.ingest
  rw [hCursor]
  cases f.cursors.get? batch.instanceId with
  | none => exact ⟨rfl, h.pass _ batch⟩
  | some cursor =>
    dsimp only
    split
    · exact ⟨rfl, h⟩
    · split
      · exact ⟨rfl, (h.fence batch.instanceId).pass _ batch⟩
      · split
        · exact ⟨rfl, h⟩
        · exact ⟨rfl, h.pass _ batch⟩

theorem Alike.dropInstance (h : Alike f f') (instanceId : String) :
    Alike (f.dropInstance instanceId) (f'.dropInstance instanceId) where
  cursors := congrArg (fun t => Dict.erase t _) h.cursors
  directory := h.directory.fenceInstance instanceId
  usage := h.usage.fenceInstance instanceId
  registry := h.registry
  eviction := h.eviction

theorem Alike.computeEvictionPlan (h : Alike f f') :
    f'.consumers.eviction.computeEvictionPlan f'.consumers.usage =
      f.consumers.eviction.computeEvictionPlan f.consumers.usage := by
  have hSalt : ∀ cacheSalt, f.consumers.eviction.saltPlan f'.consumers.usage cacheSalt =
      f.consumers.eviction.saltPlan f.consumers.usage cacheSalt := by
    intro cacheSalt
    unfold FleetEvictionController.saltPlan
    rw [h.usage.getSaltBytes]
  unfold FleetEvictionController.computeEvictionPlan
  simp only [h.eviction, hSalt]

/-- The calls of the API on the components; quotas and pins are set from outside. -/
inductive Call
  | ingest (batch : CacheEventBatch)
  | dropInstance (instanceId : String)
  | forget (instanceId : String)
  | configure (quota : QuotaManager) (pinCounts : Dict ObjectKey Nat)
  | streamCursors
  | lookup (keys : List ObjectKey)
  | tokenIds (chunkHashes : List Bytes)
  | keyBytes (tier : Tier) (key : ObjectKey)
  | saltBytes (tier : Tier) (cacheSalt : String)
  | bytesBySalt (tier : Tier) (cacheSalt : String)
  | bytesByInstance (tier : Tier) (instanceId backend : String)
  | totalBytes (tier : Tier)
  | capacities (instanceId : String)
  | allCapacities
  | evictionPlan

inductive Answer
  | none
  | ingested (result : IngestResult)
  | cursors (cursors : List (String × StreamCursor))
  | placements (placements : List (List Placement))
  | tokenIds (tokenIds : List (List UInt32))
  | bytes (bytes : Int)
  | entry (bytes : Option Int)
  | capacities (modules : List ModuleMemoryCapacity)
  | allCapacities (modules : List (String × List ModuleMemoryCapacity))
  | plan (plan : List (String × List ObjectKey))
deriving DecidableEq

def after (f : Fleet) : Call → Fleet
  | .ingest batch => (f.ingest batch).2
  | .dropInstance instanceId => f.dropInstance instanceId
  | .forget instanceId =>
    { f with consumers := { f.consumers with
        registry := f.consumers.registry.forget instanceId } }
  | .configure quota pinCounts =>
    { f with consumers := { f.consumers with
        eviction := { f.consumers.eviction with quota := quota, pinCounts := pinCounts } } }
  | _ => f

def answer (f : Fleet) : Call → Answer
  | .ingest batch => .ingested (f.ingest batch).1
  | .dropInstance _ | .forget _ | .configure _ _ => .none
  | .streamCursors => .cursors f.cursors.entries
  | .lookup keys => .placements (f.consumers.directory.lookup keys)
  | .tokenIds chunkHashes => .tokenIds (f.consumers.directory.getTokenIds chunkHashes)
  | .keyBytes tier key => .bytes (f.consumers.usage.getKeyBytes tier key)
  | .saltBytes tier cacheSalt => .bytes (f.consumers.usage.getSaltBytes tier cacheSalt)
  | .bytesBySalt tier cacheSalt => .entry (f.consumers.usage.getBytesBySalt tier cacheSalt)
  | .bytesByInstance tier instanceId backend =>
    .entry (f.consumers.usage.getBytesByInstance tier instanceId backend)
  | .totalBytes tier => .bytes (f.consumers.usage.getTotalBytes tier)
  | .capacities instanceId => .capacities (f.consumers.registry.get instanceId)
  | .allCapacities => .allCapacities f.consumers.registry.getAll
  | .evictionPlan => .plan (f.consumers.eviction.computeEvictionPlan f.consumers.usage)

def answers : Fleet → List Call → List Answer
  | _, [] => []
  | f, call :: rest => f.answer call :: answers (f.after call) rest

theorem Alike.after (h : Alike f f') (call : Call) : Alike (f.after call) (f'.after call) := by
  cases call with
  | ingest batch => exact (h.ingest batch).2
  | dropInstance instanceId => exact h.dropInstance instanceId
  | forget instanceId =>
    exact ⟨h.cursors, h.directory, h.usage, congrArg (·.forget instanceId) h.registry, h.eviction⟩
  | configure quota pinCounts =>
    refine ⟨h.cursors, h.directory, h.usage, h.registry, ?_⟩
    exact congrArg (fun c : FleetEvictionController =>
      { c with quota := quota, pinCounts := pinCounts }) h.eviction
  | _ => exact h

theorem Alike.answer (h : Alike f f') (call : Call) : f'.answer call = f.answer call := by
  cases call with
  | ingest batch => exact congrArg Answer.ingested (h.ingest batch).1
  | dropInstance instanceId => rfl
  | forget instanceId => rfl
  | configure quota pinCounts => rfl
  | streamCursors => exact congrArg (fun t => Answer.cursors (Dict.entries t)) h.cursors
  | lookup keys => exact congrArg Answer.placements (h.directory.lookup keys)
  | tokenIds chunkHashes => exact congrArg Answer.tokenIds (h.directory.getTokenIds chunkHashes)
  | keyBytes tier key => exact congrArg Answer.bytes (h.usage.getKeyBytes tier key)
  | saltBytes tier cacheSalt => exact congrArg Answer.bytes (h.usage.getSaltBytes tier cacheSalt)
  | bytesBySalt tier cacheSalt => exact congrArg Answer.entry (h.usage.saltBytes _)
  | bytesByInstance tier instanceId backend =>
    exact congrArg Answer.entry (h.usage.instanceBytes _)
  | totalBytes tier => exact congrArg Answer.bytes (h.usage.getTotalBytes tier)
  | capacities instanceId =>
    exact congrArg (fun r => Answer.capacities (ServerConfigRegistry.get r instanceId)) h.registry
  | allCapacities => exact congrArg (fun r => Answer.allCapacities r.getAll) h.registry
  | evictionPlan => exact congrArg Answer.plan h.computeEvictionPlan

theorem Alike.answers (h : Alike f f') (calls : List Call) :
    f'.answers calls = f.answers calls := by
  induction calls generalizing f f' with
  | nil => rfl
  | cons call rest ih =>
    unfold Fleet.answers
    rw [h.answer call, ih (h.after call)]

structure Sound (f : Fleet) : Prop where
  consistent : f.consumers.directory.Consistent
  rolled : f.consumers.usage.Rolled
  owned : f.consumers.usage.Owned
  coherent : f.consumers.registry.Coherent
  plain : Plain f.consumers.eviction.policy

theorem Sound.pass (h : f.Sound) (cursor : StreamCursor) (batch : CacheEventBatch) :
    (f.pass cursor batch).Sound where
  consistent := h.consistent.consume batch
  rolled := List.foldlRecOn _ _ (motive := CacheUsageManager.Rolled) h.rolled
    fun _ hu entry _ => hu.applyEntry batch entry
  owned := h.owned.consume batch
  coherent := h.coherent.consume batch
  plain := h.plain.consume _ batch

theorem Sound.fence (h : f.Sound) (instanceId : String) :
    Sound { f with consumers := f.consumers.fenceInstance instanceId } where
  consistent := h.consistent.fenceInstance instanceId
  rolled := h.rolled.fenceInstance instanceId
  owned := h.owned.fenceInstance instanceId
  coherent := h.coherent
  plain := h.plain

theorem Sound.after (h : f.Sound) (call : Call) : (f.after call).Sound := by
  cases call with
  | ingest batch =>
    unfold Fleet.after
    dsimp only
    rcases f.ingest_cases batch with ⟨_, _, _, _, hEq⟩ | ⟨_, hEq⟩ | ⟨_, _, _, hEq⟩ |
      ⟨_, _, _, _, hEq⟩ <;> rw [hEq]
    · exact h
    · exact h.pass _ batch
    · exact (h.fence batch.instanceId).pass _ batch
    · exact h.pass _ batch
  | dropInstance instanceId =>
    have hFence := h.fence instanceId
    exact ⟨hFence.consistent, hFence.rolled, hFence.owned, h.coherent, h.plain⟩
  | forget instanceId =>
    exact ⟨h.consistent, h.rolled, h.owned, h.coherent.forget instanceId, h.plain⟩
  | configure quota pinCounts => exact ⟨h.consistent, h.rolled, h.owned, h.coherent, h.plain⟩
  | _ => exact h

def restarted (f : Fleet) : Fleet := (fresh f.consumers.eviction).loadCheckpoint f.capture

theorem Sound.restarted (h : f.Sound) : f.Alike f.restarted ∧ f.restarted.Sound := by
  have hDirectory := h.consistent.alike_restore
  have hUsage := CacheUsageManager.alike_restore h.rolled h.owned
  have hRegistry := h.coherent.restore_capture
  have hPolicy := h.plain.restore_capture
  refine ⟨⟨?_, hDirectory, hUsage, hRegistry, ?_⟩,
    ⟨hDirectory.right, hUsage.right.1, hUsage.right.2, ?_, ?_⟩⟩
  · refine Dict.ext ?_
    have hCursors : (CursorSection.capture f.cursors).cursors = f.cursors.entries := by
      unfold CursorSection.cursors CursorSection.capture Dict.mapValues
      rw [List.map_map]
      exact readable_map_some f.cursors.entries
    change (restoreCursors .empty (CursorSection.capture f.cursors)).entries = _
    unfold restoreCursors
    rw [if_neg (by simp [Dict.size, Dict.empty]), hCursors]
    exact Dict.entries_ofList f.cursors.nodup
  · exact congrArg (fun policy => { f.consumers.eviction with policy := policy }) hPolicy
  · change (ServerConfigRegistry.new.restore f.consumers.registry.capture).Coherent
    rw [hRegistry]
    exact h.coherent
  · change Plain (restoreOrder (.new .discard) (captureOrder f.consumers.eviction.policy))
    rw [hPolicy]
    exact h.plain

/-- States after calls, restarts included. -/
inductive Reachable : Fleet → Prop
  | fresh (eviction : FleetEvictionController) : Reachable (fresh eviction)
  | after {f : Fleet} (call : Call) : Reachable f → Reachable (f.after call)
  | restarted {f : Fleet} : Reachable f → Reachable f.restarted

theorem Reachable.sound (h : f.Reachable) : f.Sound := by
  induction h with
  | fresh eviction =>
    exact ⟨KeyDirectory.consistent_new, CacheUsageManager.rolled_new, CacheUsageManager.owned_new,
      ServerConfigRegistry.coherent_new, rfl, rfl⟩
  | after call _ ih => exact ih.after call
  | restarted _ ih => exact ih.restarted.2

/-- A restored fleet answers every sequence of calls as the original would. -/
theorem Reachable.restarted_answers (h : f.Reachable) (calls : List Call) :
    f.restarted.answers calls = f.answers calls :=
  h.sound.restarted.1.answers calls

theorem restarted_sample_plan :
    ∃ f : Fleet, f.Reachable ∧ f.restarted.answers
      [.configure ⟨.empty, some 0⟩ .empty, .evictionPlan, .totalBytes .l2] =
      [.none, .plan [("", [Sample.key])], .bytes 4] := by
  have hReachable : Reachable ((fresh (.new 1 1)).after
      (.ingest (Sample.stored "a" Sample.name_ne .l2))) := .after _ (.fresh _)
  refine ⟨_, hReachable, (Reachable.restarted_answers hReachable _).trans ?_⟩
  decide +kernel

end Fleet

end LMCache.Coordinator
