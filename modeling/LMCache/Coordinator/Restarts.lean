import LMCache.Coordinator.EvictionPlan
import LMCache.Coordinator.Emitters

/-!
# The views after restarts

A restart puts the tables of the fleet in another order and keeps what they say of each key. So
the usage view holds the placements of the directory, and the eviction plan names keys that are
in L2, in every run of calls and restarts.
-/

namespace LMCache.Coordinator.Fleet

open Lib Serde List FleetEvictionController

inductive Move
  | call (call : Call)
  | restart

def move (f : Fleet) : Move → Fleet
  | .call call => f.after call
  | .restart => f.restarted

variable {f f' : Fleet}

theorem Agree.after (h : f.consumers.Agree) {call : Call}
    (hShared : ∀ batch, call = .ingest batch → batch.shared = true → batch.tier = .l2) :
    (f.after call).consumers.Agree := by
  cases call with
  | ingest batch =>
    replace hShared := hShared batch rfl
    unfold Fleet.after
    dsimp only
    rcases f.ingest_cases batch with ⟨_, _, _, _, hEq⟩ | ⟨_, hEq⟩ | ⟨_, _, _, hEq⟩ |
      ⟨_, _, _, _, hEq⟩ <;> rw [hEq]
    · exact h
    · exact h.consume hShared
    · exact (h.fenceInstance batch.instanceId).consume hShared
    · exact h.consume hShared
  | dropInstance instanceId => exact h.fenceInstance instanceId
  | forget instanceId => exact ⟨h.mirrored, h.homed, h.tracked, h.placed⟩
  | configure quota pinCounts => exact ⟨h.mirrored, h.homed, h.tracked, h.placed⟩
  | _ => exact h

/-- Fleets that no call can tell apart agree in their views alike. -/
theorem Alike.agree (hAlike : f.Alike f') (h : f.consumers.Agree) : f'.consumers.Agree := by
  have hPlacements : f'.consumers.directory.placements = f.consumers.directory.placements := by
    funext k
    unfold KeyDirectory.placements
    rw [hAlike.directory.records]
  refine ⟨⟨fun k => ?_, hAlike.directory.right.indexed, fun k => ?_, fun id => ?_,
    hAlike.usage.right.1, hAlike.usage.right.2⟩, ?_, fun k => ?_, fun k => ?_⟩
  · rw [hPlacements]
    exact h.mirrored.distinct k
  · rw [hPlacements]
    exact h.mirrored.reported k
  · rw [hAlike.usage.sizes, h.mirrored.sizes, KeyDirectory.sizeAt, KeyDirectory.sizeAt, hPlacements]
  · rw [hAlike.eviction]
    exact h.homed
  · rw [hPlacements, hAlike.eviction]
    exact h.tracked k
  · rw [hPlacements, hAlike.eviction]
    exact h.placed k

theorem agree_run (eviction : FleetEvictionController) (moves : List Move)
    (hShared : ∀ batch, .call (.ingest batch) ∈ moves → batch.shared = true → batch.tier = .l2) :
    (moves.foldl move (fresh eviction)).consumers.Agree ∧
      (moves.foldl move (fresh eviction)).Reachable := by
  refine List.foldlRecOn _ _ (motive := fun f : Fleet => f.consumers.Agree ∧ f.Reachable)
    ⟨?_, .fresh eviction⟩ fun f ⟨hAgree, hReachable⟩ m hMem => ?_
  · have hNew := Consumers.agree_new 1 1
    exact ⟨hNew.mirrored, hNew.homed, hNew.tracked, hNew.placed⟩
  · cases m with
    | call call =>
      exact ⟨Agree.after hAgree fun batch hBatch => hShared batch (hBatch ▸ hMem),
        .after call hReachable⟩
    | restart => exact ⟨hReachable.sound.restarted.1.agree hAgree, .restarted hReachable⟩

/-- After any calls and restarts the usage view holds the placements of the directory, what
takes room in L2 can be evicted, and the eviction plan names keys of its salt that are in L2. -/
theorem plan_names_held_keys (eviction : FleetEvictionController) (moves : List Move)
    (hShared : ∀ batch, .call (.ingest batch) ∈ moves → batch.shared = true → batch.tier = .l2) :
    let c := (moves.foldl move (fresh eviction)).consumers
    (∀ id size, c.usage.placementSizes.get? id = some size ↔
      ∃ p ∈ c.directory.placements id.key, p.placementId id.key = id ∧ p.sizeBytes = size) ∧
    (∀ key, 0 < c.usage.getKeyBytes .l2 key → key ∈ (c.eviction.policy.order key.cacheSalt).keys) ∧
    ∀ cacheSalt keys, (cacheSalt, keys) ∈ c.eviction.computeEvictionPlan c.usage →
      ∀ key ∈ keys, key.cacheSalt = cacheSalt ∧ ∃ p ∈ c.directory.placements key, p.tier = .l2 := by
  intro c
  have hAgree : c.Agree := (agree_run eviction moves hShared).1
  refine ⟨fun id size => hAgree.mirrored.sizes_iff, fun key hPos => ?_,
    fun cacheSalt keys hMem key hKey => ?_⟩
  · exact hAgree.tracked key ((hAgree.mirrored.keyBytes_pos_iff .l2 key).mp hPos)
  · obtain ⟨-, limit, -, rfl⟩ := mem_plan_iff.mp hMem
    have hTracked := (mem_filter.mp (mem_of_mem_take hKey)).1
    have hSalt := hAgree.homed cacheSalt key hTracked
    refine ⟨hSalt, hAgree.placed key ?_⟩
    unfold Eviction.IsolatedLRUEvictionPolicy.Tracks
    rwa [hSalt]

theorem plan_names_held_keys_sample :
    let c := ([.call (.configure ⟨.empty, some 0⟩ .empty),
      .call (.ingest (Sample.stored "a" Sample.name_ne .l2)), .restart].foldl move
        (fresh (.new 1 1))).consumers
    c.eviction.computeEvictionPlan c.usage = [("", [Sample.key])] ∧
      ∃ p ∈ c.directory.placements Sample.key, p.tier = .l2 := by
  intro c
  have hPlan : c.eviction.computeEvictionPlan c.usage = [("", [Sample.key])] := by decide +kernel
  refine ⟨hPlan, ((plan_names_held_keys _ _ fun batch hMem hShared => ?_).2.2 "" _
    (hPlan ▸ mem_singleton_self _) _ (mem_singleton_self _)).2⟩
  obtain rfl : batch = Sample.stored "a" Sample.name_ne .l2 := by simpa using hMem
  cases hShared

end LMCache.Coordinator.Fleet
