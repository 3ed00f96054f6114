import LMCache.Coordinator.RoundTrip

/-!
# Emitters do not disturb each other

The batches of different instances reach the coordinator in no particular order, and a batch
that was sent may come again. What the fleet holds for an instance is read off the calls of that
instance alone, and a batch that comes again changes nothing.
-/

namespace LMCache.Coordinator

open Lib Serde List Option Dict

def Placement.reportedBy (instanceId : String) (p : Placement) : Bool :=
  p.instanceId = instanceId ∧ p.shared = false

/-- Only an unshared batch of the instance revises what the instance reports. -/
theorem CacheEventBatch.filter_revise (batch : CacheEventBatch) (entry : CacheEventEntry)
    (instanceId : String) (placements : List Placement) :
    (batch.revise entry placements).filter (·.reportedBy instanceId) =
      if batch.instanceId = instanceId ∧ batch.shared = false then
        batch.revise entry (placements.filter (·.reportedBy instanceId))
      else placements.filter (·.reportedBy instanceId) := by
  have hMatch : ∀ p : Placement, p.matchesBatch batch = true →
      p.reportedBy instanceId = decide (batch.instanceId = instanceId ∧ batch.shared = false) := by
    intro p hp
    simp only [Placement.matchesBatch, Bool.and_eq_true, Bool.or_eq_true, beq_iff_eq] at hp
    unfold Placement.reportedBy
    rcases hp.1.1 with ⟨hShared, hTrue | hSame⟩
    · simp [hShared, hTrue]
    · simp [hShared, hSame]
  have hNew : (batch.placement entry).reportedBy instanceId =
      decide (batch.instanceId = instanceId ∧ batch.shared = false) := rfl
  unfold CacheEventBatch.revise
  split
  · simpa using filter_upsert hMatch hNew placements
  · simpa using filter_eraseP hMatch placements
  · exact (ite_self _).symm

namespace KeyDirectory

variable {d d' : KeyDirectory} {instanceId : String} {k : ObjectKey}

def reported (d : KeyDirectory) (instanceId : String) (k : ObjectKey) : List Placement :=
  (d.placements k).filter (·.reportedBy instanceId)

theorem reported_consume (d : KeyDirectory) (batch : CacheEventBatch) :
    (d.consume batch).reported instanceId k =
      (batch.entries.filter fun e => e.key = k).foldl (fun ps e =>
        if batch.instanceId = instanceId ∧ batch.shared = false then batch.revise e ps else ps)
        (d.reported instanceId k) := by
  unfold reported
  rw [placements_consume]
  refine (foldl_hom (List.filter (Placement.reportedBy instanceId)) ?_).symm
  exact fun ps e => (batch.filter_revise e instanceId ps).symm

theorem reported_consume_of_ne (d : KeyDirectory) {batch : CacheEventBatch}
    (h : batch.instanceId ≠ instanceId) :
    (d.consume batch).reported instanceId = d.reported instanceId := by
  funext k
  simp [reported_consume, h]

theorem reported_consume_congr (h : d.reported instanceId = d'.reported instanceId)
    (batch : CacheEventBatch) :
    (d.consume batch).reported instanceId = (d'.consume batch).reported instanceId := by
  funext k
  rw [reported_consume, reported_consume, h]

theorem Indexed.reported_fenceInstance (h : d.Indexed) (fenced : String) :
    (d.fenceInstance fenced).reported instanceId = fun k =>
      (d.reported instanceId k).filter fun p => ¬ (p.tier = .l1 ∧ instanceId = fenced) := by
  funext k
  unfold reported
  rw [h.placements_fenceInstance, filter_comm]
  refine filter_congr fun p hp => ?_
  obtain ⟨hInstance, -⟩ := of_decide_eq_true (mem_filter.mp hp).2
  simp [Placement.fencedBy, hInstance]

end KeyDirectory

namespace ServerConfigRegistry

variable {r r' : ServerConfigRegistry} {batch : CacheEventBatch} {instanceId : String}

/-- What the registry holds for one instance. -/
def declared (r : ServerConfigRegistry) (instanceId : String) :
    Option Declaration × Option (Nat × Nat) :=
  (r.byInstance.get? instanceId, r.stamps.get? instanceId)

theorem declared_consume_of_ne (h : batch.instanceId ≠ instanceId) :
    (r.consume batch).declared instanceId = r.declared instanceId := by
  unfold consume declared
  dsimp only
  repeat' split
  all_goals simp [get?_set_ne, h]

theorem declared_consume_congr
    (h : r.declared batch.instanceId = r'.declared batch.instanceId) :
    (r.consume batch).declared batch.instanceId = (r'.consume batch).declared batch.instanceId := by
  obtain ⟨hModules, hStamp⟩ := Prod.mk.inj h
  unfold consume
  rw [hModules, hStamp]
  split
  · exact h
  · cases r'.stamps.get? batch.instanceId with
    | none => simp [declared]
    | some stored =>
      dsimp only
      split
      · exact h
      · split
        · simp [declared]
        · cases r'.byInstance.get? batch.instanceId with
          | none => exact h
          | some modules => simp [declared, hStamp]

theorem declared_forget (fenced : String) :
    (r.forget fenced).declared instanceId =
      if fenced = instanceId then (none, none) else r.declared instanceId := by
  unfold forget declared
  rw [get?_erase, get?_erase]
  split <;> rfl

end ServerConfigRegistry

namespace Fleet

variable {f g : Fleet} {instanceId : String}

/-- All that the fleet knows of one instance alone. -/
structure View where
  cursor : Option StreamCursor
  placements : ObjectKey → List Placement
  declared : Option Declaration × Option (Nat × Nat)

def view (f : Fleet) (instanceId : String) : View where
  cursor := f.cursors.get? instanceId
  placements := f.consumers.directory.reported instanceId
  declared := f.consumers.registry.declared instanceId

def Call.concerns (instanceId : String) : Call → Bool
  | .ingest batch => batch.instanceId = instanceId
  | .dropInstance other | .forget other => other = instanceId
  | _ => false

theorem view_pass_of_ne {cursor : StreamCursor} {batch : CacheEventBatch}
    (h : batch.instanceId ≠ instanceId) :
    (f.pass cursor batch).view instanceId = f.view instanceId := by
  unfold pass view
  congr 1
  · exact get?_set_ne _ h _
  · exact f.consumers.directory.reported_consume_of_ne h
  · exact ServerConfigRegistry.declared_consume_of_ne h

theorem view_pass_congr {cursor : StreamCursor} {batch : CacheEventBatch}
    (hPlacements : (f.view batch.instanceId).placements = (g.view batch.instanceId).placements)
    (hDeclared : (f.view batch.instanceId).declared = (g.view batch.instanceId).declared) :
    (f.pass cursor batch).view batch.instanceId = (g.pass cursor batch).view batch.instanceId := by
  unfold pass view
  congr 1
  · simp
  · exact KeyDirectory.reported_consume_congr hPlacements batch
  · exact ServerConfigRegistry.declared_consume_congr hDeclared

theorem Sound.reported_fence (h : f.Sound) (fenced : String) :
    (f.consumers.fenceInstance fenced).directory.reported instanceId = fun k =>
      ((f.view instanceId).placements k).filter fun p =>
        ¬ (p.tier = .l1 ∧ instanceId = fenced) :=
  h.consistent.indexed.reported_fenceInstance fenced

theorem Sound.reported_fence_of_ne (h : f.Sound) {fenced : String} (hOther : fenced ≠ instanceId) :
    (f.consumers.fenceInstance fenced).directory.reported instanceId =
      (f.view instanceId).placements := by
  rw [h.reported_fence]
  simp [Ne.symm hOther]

theorem Sound.view_after_of_not (h : f.Sound) {call : Call}
    (hOther : call.concerns instanceId = false) :
    (f.after call).view instanceId = f.view instanceId := by
  cases call with
  | ingest batch =>
    replace hOther : batch.instanceId ≠ instanceId := of_decide_eq_false hOther
    unfold Fleet.after
    dsimp only
    rcases f.ingest_cases batch with ⟨_, _, _, _, hEq⟩ | ⟨_, hEq⟩ | ⟨_, _, _, hEq⟩ |
      ⟨_, _, _, _, hEq⟩ <;> rw [hEq]
    · exact view_pass_of_ne hOther
    · rw [view_pass_of_ne hOther]
      exact congrArg (View.mk _ · _) (h.reported_fence_of_ne hOther)
    · exact view_pass_of_ne hOther
  | dropInstance other =>
    replace hOther : other ≠ instanceId := of_decide_eq_false hOther
    unfold Fleet.after dropInstance view
    congr 1
    · exact get?_erase_ne _ hOther
    · exact h.reported_fence_of_ne hOther
  | forget other =>
    replace hOther : other ≠ instanceId := of_decide_eq_false hOther
    unfold Fleet.after view
    congr 1
    exact (ServerConfigRegistry.declared_forget other).trans (if_neg hOther)
  | _ => rfl

theorem Sound.view_after_congr (hf : f.Sound) (hg : g.Sound)
    (hView : f.view instanceId = g.view instanceId) {call : Call}
    (hOwn : call.concerns instanceId = true) :
    (f.after call).view instanceId = (g.after call).view instanceId := by
  obtain ⟨hCursor, hPlacements, hDeclared⟩ := View.mk.inj hView
  cases call with
  | ingest batch =>
    obtain rfl : batch.instanceId = instanceId := of_decide_eq_true hOwn
    unfold Fleet.after Fleet.ingest
    dsimp only
    rw [hCursor]
    cases g.cursors.get? batch.instanceId with
    | none => exact view_pass_congr hPlacements hDeclared
    | some cursor =>
      dsimp only
      split
      · exact hView
      · split
        · refine view_pass_congr ?_ hDeclared
          change (f.consumers.fenceInstance _).directory.reported _ =
            (g.consumers.fenceInstance _).directory.reported _
          rw [hf.reported_fence, hg.reported_fence, hView]
        · split
          · exact hView
          · exact view_pass_congr hPlacements hDeclared
  | dropInstance other =>
    unfold Fleet.after dropInstance
    obtain rfl : other = instanceId := of_decide_eq_true hOwn
    unfold view
    congr 1
    · simp
    · rw [hf.reported_fence, hg.reported_fence, hView]
  | forget other =>
    unfold Fleet.after
    obtain rfl : other = instanceId := of_decide_eq_true hOwn
    unfold view
    congr 1
    simp [ServerConfigRegistry.declared_forget]
  | _ => cases hOwn

theorem Sound.view_run (hf : f.Sound) (hg : g.Sound)
    (hView : f.view instanceId = g.view instanceId) (calls : List Call) :
    (calls.foldl Fleet.after f).view instanceId =
      ((calls.filter (Call.concerns instanceId)).foldl Fleet.after g).view instanceId := by
  induction calls generalizing f g with
  | nil => exact hView
  | cons call rest ih =>
    rw [foldl_cons]
    by_cases hOwn : call.concerns instanceId = true
    · rw [filter_cons_of_pos hOwn, foldl_cons]
      exact ih (hf.after call) (hg.after call) (hf.view_after_congr hg hView hOwn)
    · rw [filter_cons_of_neg hOwn]
      refine ih (hf.after call) hg ?_
      rw [hf.view_after_of_not (Bool.eq_false_iff.mpr hOwn), hView]

/-- The cursor of an instance, the unshared placements it reports and its declared capacities
are those of a run of its own calls, whatever the calls of the others are and where they fall. -/
theorem Reachable.emitter_isolated (h : f.Reachable) (calls : List Call) (instanceId : String) :
    (calls.foldl Fleet.after f).view instanceId =
      ((calls.filter (Call.concerns instanceId)).foldl Fleet.after f).view instanceId :=
  h.sound.view_run h.sound rfl calls

/-- Batches and the end of another instance around one batch. -/
theorem emitter_isolated_sample :
    ([.ingest (Sample.stored "b" Sample.other_name_ne .l2),
      .ingest (Sample.stored "a" Sample.name_ne .l1), .dropInstance "b", .evictionPlan].foldl
        after (fresh (.new 1 1))).view "a" =
      ((fresh (.new 1 1)).after (.ingest (Sample.stored "a" Sample.name_ne .l1))).view "a" :=
  (Reachable.fresh (.new 1 1)).emitter_isolated _ "a"

/-- The gate has seen this batch or a later one of its instance. -/
def Passed (batch : CacheEventBatch) (f : Fleet) : Prop :=
  ∃ cursor, f.cursors.get? batch.instanceId = some cursor ∧
    (batch.incarnation < cursor.incarnation ∨
      batch.incarnation = cursor.incarnation ∧ batch.seq ≤ cursor.lastSeq)

theorem passed_ingest (f : Fleet) (batch : CacheEventBatch) : (f.ingest batch).2.Passed batch := by
  have hPass : ∀ (f : Fleet) {cursor : StreamCursor}, cursor.incarnation = batch.incarnation →
      (f.pass cursor batch).Passed batch := fun f cursor hSame =>
    ⟨cursor.advance batch.seq, get?_set_self _ _ _, Or.inr ⟨hSame.symm, Nat.le_refl _⟩⟩
  rcases f.ingest_cases batch with ⟨cursor, hCursor, hSeen, _, hEq⟩ | ⟨_, hEq⟩ | ⟨_, _, _, hEq⟩ |
    ⟨_, _, hSame, _, hEq⟩ <;> rw [hEq]
  · exact ⟨cursor, hCursor, hSeen⟩
  · exact hPass f rfl
  · exact hPass _ rfl
  · exact hPass f hSame

theorem Passed.ingest_eq {batch : CacheEventBatch} (h : f.Passed batch) :
    (f.ingest batch).1 ≠ .admitted ∧ (f.ingest batch).2 = f := by
  obtain ⟨cursor, hCursor, hSeen⟩ := h
  rcases f.ingest_cases batch with ⟨_, _, _, hResult, hEq⟩ | ⟨hNone, _⟩ | ⟨_, hSome, hNew, _⟩ |
    ⟨_, hSome, _, hNew, _⟩
  · exact ⟨hResult, hEq⟩
  · rw [hCursor] at hNone
    cases hNone
  all_goals
    obtain rfl := some.inj (hCursor.symm.trans hSome)
    omega

theorem Passed.after {batch : CacheEventBatch} (h : f.Passed batch) {call : Call}
    (hKept : call ≠ .dropInstance batch.instanceId) : (f.after call).Passed batch := by
  obtain ⟨cursor, hCursor, hSeen⟩ := h
  cases call with
  | ingest later =>
    by_cases hSame : later.instanceId = batch.instanceId
    · obtain ⟨cursor', hCursor', hSeen'⟩ := f.passed_ingest later
      rw [hSame] at hCursor'
      refine ⟨cursor', hCursor', ?_⟩
      rw [← hSame] at hCursor
      rcases f.ingest_cases later with ⟨_, _, _, _, hEq⟩ | ⟨hNone, _⟩ | ⟨_, hSome, hNew, _⟩ |
        ⟨_, hSome, hSameInc, hNew, _⟩
      · rw [hEq, ← hSame, hCursor] at hCursor'
        obtain rfl := some.inj hCursor'
        exact hSeen
      · rw [hCursor] at hNone
        cases hNone
      all_goals
        obtain rfl := some.inj (hCursor.symm.trans hSome)
        omega
    · exact ⟨cursor, (cursors_ingest_of_ne hSame).trans hCursor, hSeen⟩
  | dropInstance other =>
    refine ⟨cursor, ?_, hSeen⟩
    exact (get?_erase_ne _ fun hEq => hKept (congrArg _ hEq)).trans hCursor
  | _ => exact ⟨cursor, hCursor, hSeen⟩

theorem passed_run {batch : CacheEventBatch} (calls : List Call) (h : f.Passed batch)
    (hKept : .dropInstance batch.instanceId ∉ calls) : (calls.foldl Fleet.after f).Passed batch :=
  List.foldlRecOn calls Fleet.after h fun _ hPassed _ hCall =>
    hPassed.after fun hEq => hKept (hEq ▸ hCall)

/-- A batch that comes again is refused and leaves everything as it is, at any later time,
unless its instance was dropped in between. -/
theorem redelivery_ignored (f : Fleet) (batch : CacheEventBatch) (between later : List Call)
    (hKept : .dropInstance batch.instanceId ∉ between) :
    ((between.foldl Fleet.after (f.ingest batch).2).ingest batch).1 ≠ .admitted ∧
      (between ++ .ingest batch :: later).foldl Fleet.after (f.ingest batch).2 =
        (between ++ later).foldl Fleet.after (f.ingest batch).2 := by
  obtain ⟨hResult, hEq⟩ := (passed_run between (f.passed_ingest batch) hKept).ingest_eq
  refine ⟨hResult, ?_⟩
  rw [foldl_append, foldl_append, foldl_cons]
  exact congrArg (later.foldl Fleet.after) hEq

theorem redelivery_ignored_sample :
    let batch := Sample.stored "a" Sample.name_ne .l1
    (((((fresh (.new 1 1)).ingest batch).2.after (.dropInstance "b")).ingest batch).1) ≠
      .admitted :=
  (redelivery_ignored (fresh (.new 1 1)) _ [.dropInstance "b"] [] (by simp [Sample.stored])).1

end Fleet

end LMCache.Coordinator
