import LMCache.Coordinator.FleetViews

/-!
# What the gate does with a batch

A batch is dropped, or it passes with a cursor that starts anew or goes on.
-/

namespace LMCache.Coordinator

open Lib Serde

def StreamCursor.start (incarnation : Nat) : StreamCursor := ⟨incarnation, 0, false⟩

theorem StreamCursor.advance_gap {cursor : StreamCursor} {seq : Nat}
    (h : (cursor.advance seq).gapDetected = false) (hSeq : cursor.lastSeq < seq) :
    cursor.gapDetected = false ∧ seq = cursor.lastSeq + 1 := by
  obtain ⟨hGap, hNext⟩ := Bool.or_eq_false_iff.mp h
  rw [decide_eq_false_iff_not] at hNext
  exact ⟨hGap, by omega⟩

namespace Fleet

variable {f : Fleet} {batch : CacheEventBatch}

theorem ingest_cases (f : Fleet) (batch : CacheEventBatch) :
    (∃ cursor, f.cursors.get? batch.instanceId = some cursor ∧
      (batch.incarnation < cursor.incarnation ∨
        batch.incarnation = cursor.incarnation ∧ batch.seq ≤ cursor.lastSeq) ∧
      (f.ingest batch).1 ≠ .admitted ∧ (f.ingest batch).2 = f) ∨
    (f.cursors.get? batch.instanceId = none ∧
      f.ingest batch = (.admitted, f.pass (.start batch.incarnation) batch)) ∨
    (∃ cursor, f.cursors.get? batch.instanceId = some cursor ∧
      cursor.incarnation < batch.incarnation ∧
      f.ingest batch = (.admitted,
        pass { f with consumers := f.consumers.fenceInstance batch.instanceId }
          (.start batch.incarnation) batch)) ∨
    ∃ cursor, f.cursors.get? batch.instanceId = some cursor ∧
      cursor.incarnation = batch.incarnation ∧ cursor.lastSeq < batch.seq ∧
      f.ingest batch = (.admitted, f.pass cursor batch) := by
  unfold ingest
  cases hCursor : f.cursors.get? batch.instanceId with
  | none => exact Or.inr (Or.inl ⟨rfl, rfl⟩)
  | some cursor =>
    dsimp only
    by_cases hOld : batch.incarnation < cursor.incarnation
    · rw [if_pos hOld]
      exact Or.inl ⟨cursor, rfl, Or.inl hOld, nofun, rfl⟩
    · rw [if_neg hOld]
      by_cases hNew : cursor.incarnation < batch.incarnation
      · rw [if_pos hNew]
        exact Or.inr (Or.inr (Or.inl ⟨cursor, rfl, hNew, rfl⟩))
      · rw [if_neg hNew]
        have hSame : cursor.incarnation = batch.incarnation := by omega
        by_cases hSeq : batch.seq ≤ cursor.lastSeq
        · rw [if_pos hSeq]
          exact Or.inl ⟨cursor, rfl, Or.inr ⟨hSame.symm, hSeq⟩, nofun, rfl⟩
        · rw [if_neg hSeq]
          exact Or.inr (Or.inr (Or.inr ⟨cursor, rfl, hSame, by omega, rfl⟩))

theorem cursors_ingest_of_ne {instanceId : String} (h : batch.instanceId ≠ instanceId) :
    (f.ingest batch).2.cursors.get? instanceId = f.cursors.get? instanceId := by
  rcases f.ingest_cases batch with ⟨_, _, _, _, hEq⟩ | ⟨_, hEq⟩ | ⟨_, _, _, hEq⟩ |
    ⟨_, _, _, _, hEq⟩ <;> rw [hEq]
  all_goals exact Dict.get?_set_ne _ h _

end Fleet

end LMCache.Coordinator
