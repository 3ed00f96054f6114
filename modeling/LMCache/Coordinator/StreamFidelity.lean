import LMCache.Coordinator.Emission
import LMCache.Coordinator.GateSpec

/-!
# The stream of one emitter

One subscriber records events and flushes at any time. Each of its batches may be lost, or be
delivered late, or more than once, and in between the gate gets batches of other instances and
of earlier incarnations. No batch is applied twice, and a cursor without a gap says which
batches the L1 placements of the instance come from.
-/

namespace LMCache.Coordinator

open Lib Serde KeyDirectory CacheEventSubscriber List Option

/-- Sizes of the L1 placements of one instance, by key and medium. -/
abbrev Holdings := ObjectKey → String → Option Nat

def Holdings.apply (held : Holdings) (r : Report) : Holdings := fun key backend =>
  if r.tier = .l1 ∧ r.shared = false ∧ r.entry.key = key ∧ r.backend = backend then
    match r.eventType with
    | .store => some r.entry.sizeBytes
    | .delete => none
    | _ => held key backend
  else held key backend

/-- All entries of some batches, applied in order to nothing. -/
def holdings (batches : List CacheEventBatch) : Holdings :=
  (batches.flatMap CacheEventBatch.reports).foldl Holdings.apply fun _ _ => none

theorem holdings_concat (batches : List CacheEventBatch) (b : CacheEventBatch) :
    holdings (batches ++ [b]) = b.reports.foldl Holdings.apply (holdings batches) := by
  simp [holdings, foldl_append]

namespace KeyDirectory

variable {d : KeyDirectory} {b : CacheEventBatch} {instanceId : String} {key k : ObjectKey}
  {backend : String} {size : Nat} {p : Placement}

theorem sizeAt_eq_some_iff (h : d.Consistent) (hName : instanceId ≠ "") :
    d.sizeAt ⟨.l1, key, instanceId, backend⟩ = some size ↔
      ∃ p ∈ d.placements key, p.tier = .l1 ∧ p.instanceId = instanceId ∧ p.shared = false ∧
        p.backend = backend ∧ p.sizeBytes = size := by
  have hIdentity : ∀ p : Placement,
      p.identity = PlacementId.identity ⟨.l1, key, instanceId, backend⟩ ↔
        p.tier = .l1 ∧ p.instanceId = instanceId ∧ p.shared = false ∧ p.backend = backend := by
    intro p
    unfold Placement.identity PlacementId.identity
    cases hShared : p.shared
    · simp only [PlacementIdentity.mk.injEq, hName, decide_false, true_and, Bool.false_eq_true,
        if_false]
      tauto
    · simp [hName]
  rw [sizeAt, map_eq_some_iff]
  constructor
  · rintro ⟨p, hFind, hSize⟩
    obtain ⟨hp, hFound⟩ := (find?_eq_some_iff_mem (h.distinct key)).mp hFind
    obtain ⟨hTier, hInstance, hShared, hBackend⟩ := (hIdentity p).mp hFound
    exact ⟨p, hp, hTier, hInstance, hShared, hBackend, hSize⟩
  · rintro ⟨p, hp, hTier, hInstance, hShared, hBackend, hSize⟩
    have hFound := (hIdentity p).mpr ⟨hTier, hInstance, hShared, hBackend⟩
    exact ⟨p, (find?_eq_some_iff_mem (h.distinct key)).mpr ⟨hp, hFound⟩, hSize⟩

theorem sizeAt_consume (h : d.Consistent) {held : Holdings}
    (hHeld : ∀ key backend, d.sizeAt ⟨.l1, key, b.instanceId, backend⟩ = held key backend)
    (key : ObjectKey) (backend : String) :
    (d.consume b).sizeAt ⟨.l1, key, b.instanceId, backend⟩ =
      b.reports.foldl Holdings.apply held key backend := by
  unfold consume CacheEventBatch.reports
  rw [foldl_map]
  have hDefault : (d.setL1Keys b.instanceId (d.l1Keys b.instanceId)).Consistent :=
    ⟨h.booked.withL1Keys _, h.distinct, h.indexed.setDefault _⟩
  change ∀ key backend, (d.setL1Keys b.instanceId (d.l1Keys b.instanceId)).sizeAt _ = _ at hHeld
  generalize d.setL1Keys b.instanceId (d.l1Keys b.instanceId) = d at hDefault hHeld
  generalize b.entries = entries
  induction entries generalizing d held with
  | nil => exact hHeld key backend
  | cons entry rest ih =>
    refine ih _ (hDefault.applyEntry b entry) fun key backend => ?_
    have hId : b.placementId entry = ⟨.l1, key, b.instanceId, backend⟩ ↔
        b.tier = .l1 ∧ b.shared = false ∧ entry.key = key ∧ b.backend = backend := by
      unfold CacheEventBatch.placementId
      cases hShared : b.shared
      · simp
      · simp [Ne.symm b.instanceId_ne]
    unfold Holdings.apply
    dsimp only
    cases hType : b.eventType with
    | store =>
      rw [sizeAt_applyStore hType, hHeld]
      exact if_congr hId rfl rfl
    | delete =>
      rw [sizeAt_applyDelete hType hDefault.distinct, hHeld]
      exact if_congr hId rfl rfl
    | access | config =>
      rw [sizeAt, placements_applyEntry, CacheEventBatch.revise, hType]
      simpa [sizeAt] using hHeld key backend

theorem sizeAt_consume_of_ne (h : d.Consistent) (hOther : b.instanceId ≠ instanceId)
    (hName : instanceId ≠ "") :
    (d.consume b).sizeAt ⟨.l1, key, instanceId, backend⟩ =
      d.sizeAt ⟨.l1, key, instanceId, backend⟩ := by
  unfold consume
  have hDefault : (d.setL1Keys b.instanceId (d.l1Keys b.instanceId)).Consistent :=
    ⟨h.booked.withL1Keys _, h.distinct, h.indexed.setDefault _⟩
  change _ = (d.setL1Keys b.instanceId (d.l1Keys b.instanceId)).sizeAt _
  generalize d.setL1Keys b.instanceId (d.l1Keys b.instanceId) = d at hDefault
  generalize b.entries = entries
  induction entries generalizing d with
  | nil => rfl
  | cons entry rest ih =>
    refine (ih _ (hDefault.applyEntry b entry)).trans ?_
    have hId : b.placementId entry ≠ ⟨.l1, key, instanceId, backend⟩ := by
      unfold CacheEventBatch.placementId
      cases b.shared
      · simp [hOther]
      · simp [Ne.symm hName]
    cases hType : b.eventType with
    | store => rw [sizeAt_applyStore hType, if_neg hId]
    | delete => rw [sizeAt_applyDelete hType hDefault.distinct, if_neg hId]
    | access | config =>
      rw [sizeAt, placements_applyEntry, CacheEventBatch.revise, hType]
      simp [sizeAt]

theorem sizeAt_fence (h : d.Consistent) (hName : instanceId ≠ "") (fenced : String) :
    (d.fenceInstance fenced).sizeAt ⟨.l1, key, instanceId, backend⟩ =
      if instanceId = fenced then none else d.sizeAt ⟨.l1, key, instanceId, backend⟩ := by
  refine sizeAt_fenceInstance_of_iff h.indexed fun p hp hIdentity => ?_
  have hShared : p.shared = false := by
    rw [show p.shared = _ from congrArg PlacementIdentity.shared hIdentity]
    simpa [PlacementId.identity] using hName
  have hOwner := congrArg PlacementIdentity.owner hIdentity
  simp only [Placement.identity, hShared, Bool.false_eq_true, if_false,
    PlacementId.identity] at hOwner
  have hTier : p.tier = .l1 := congrArg PlacementIdentity.tier hIdentity
  simp [Placement.fencedBy, hTier, hOwner]

theorem mem_placements_fence (h : d.Consistent) (fenced : String) :
    p ∈ (d.fenceInstance fenced).placements k ↔
      p ∈ d.placements k ∧ ¬ (p.tier = .l1 ∧ p.instanceId = fenced) := by
  rw [h.indexed.placements_fenceInstance, mem_filter, Bool.not_eq_true', Placement.fencedBy,
    decide_eq_false_iff_not]

end KeyDirectory

/-- The subscriber and the fleet, with what was recorded and the batches of the instance that
were applied. -/
structure Stream where
  subscriber : CacheEventSubscriber
  recorded : List Report
  fleet : Fleet
  applied : List CacheEventBatch

inductive StreamAction
  | event (event : StorageEvent) (dues : List (Option Flush))
  | flush (flush : Flush)
  | deliver (batch : CacheEventBatch)
  | foreign (batch : CacheEventBatch)

namespace Stream

def new (evictionRatio triggerWatermark : ℚ) : Stream :=
  ⟨.new, [], .new evictionRatio triggerWatermark, []⟩

variable (e : Emitter)

def ingest (s : Stream) (batch : CacheEventBatch) : Stream :=
  { s with
    fleet := (s.fleet.ingest batch).2
    applied :=
      if (s.fleet.ingest batch).1 = .admitted ∧ batch.instanceId = e.instanceId then
        s.applied ++ [batch]
      else s.applied }

/-- Published batches may arrive at any time. Other batches are of other instances or of
earlier incarnations. -/
def next (s : Stream) : StreamAction → Option Stream
  | .event event dues =>
    some { s with
      subscriber := s.subscriber.handle e event dues
      recorded := s.recorded ++ (s.subscriber.recordsOf event).flatMap PendingBatch.reports }
  | .flush f => some { s with subscriber := s.subscriber.flush e f }
  | .deliver batch => if batch ∈ s.subscriber.published then some (s.ingest e batch) else none
  | .foreign batch =>
    if batch.instanceId = e.instanceId ∧ e.incarnation ≤ batch.incarnation then none
    else some (s.ingest e batch)

def ledger (applied : List CacheEventBatch) (incarnation : Nat) : List CacheEventBatch :=
  applied.filter fun b => b.incarnation = incarnation

variable {e} {applied : List CacheEventBatch} {d : KeyDirectory} {c : StreamCursor}
  {b : CacheEventBatch} {s : Stream}

theorem ledger_concat (h : b.incarnation = c.incarnation) :
    ledger (applied ++ [b]) c.incarnation = ledger applied c.incarnation ++ [b] := by
  simp [ledger, h]

theorem ledger_eq_nil {incarnation : Nat} (h : ∀ b ∈ applied, b.incarnation < incarnation) :
    ledger applied incarnation = [] := by
  refine filter_eq_nil_iff.mpr fun b hb => ?_
  have := h b hb
  simpa using this.ne

/-- The batches of the cursor's incarnation were applied in order, up to its number, without
a gap they are all of them, and the placements of the instance come from them. -/
structure Followed (e : Emitter) (applied : List CacheEventBatch) (d : KeyDirectory)
    (c : StreamCursor) : Prop where
  known : c.incarnation ≤ e.incarnation
  latest : ∀ b ∈ applied, b.incarnation ≤ c.incarnation
  ordered : ((ledger applied c.incarnation).map (·.seq)).Pairwise (· < ·)
  bounded : ∀ b ∈ ledger applied c.incarnation, b.seq ≤ c.lastSeq
  exact : c.gapDetected = false →
    (ledger applied c.incarnation).map (·.seq) = List.range' 1 c.lastSeq
  held : ∀ key backend, d.sizeAt ⟨.l1, key, e.instanceId, backend⟩ =
    holdings (ledger applied c.incarnation) key backend
  unshared : c.incarnation = e.incarnation → ∀ k, ∀ p ∈ d.placements k,
    p.tier = .l1 → p.instanceId = e.instanceId → p.shared = false

theorem Followed.start {incarnation : Nat} (hKnown : incarnation ≤ e.incarnation)
    (hOlder : ∀ b ∈ applied, b.incarnation < incarnation)
    (hSizes : ∀ key backend, d.sizeAt ⟨.l1, key, e.instanceId, backend⟩ = none)
    (hNone : ∀ k, ∀ p ∈ d.placements k, p.tier = .l1 → p.instanceId ≠ e.instanceId) :
    Followed e applied d (.start incarnation) := by
  have hLedger : ledger applied (StreamCursor.start incarnation).incarnation = [] :=
    ledger_eq_nil hOlder
  refine ⟨hKnown, fun b hb => Nat.le_of_lt (hOlder b hb), ?_, ?_, ?_, ?_, ?_⟩
  · rw [hLedger]
    exact .nil
  · rw [hLedger]
    nofun
  · rw [hLedger]
    exact fun _ => rfl
  · rw [hLedger]
    exact hSizes
  · exact fun _ k p hp hTier hInstance => absurd hInstance (hNone k p hp hTier)

theorem Followed.pass (h : Followed e applied d c) (hConsistent : d.Consistent)
    (hInstance : b.instanceId = e.instanceId) (hSame : c.incarnation = b.incarnation)
    (hSeq : c.lastSeq < b.seq)
    (hUnshared : b.incarnation = e.incarnation → b.eventType ≠ .config → b.tier = .l1 →
      b.shared = false) :
    Followed e (applied ++ [b]) (d.consume b) (c.advance b.seq) := by
  have hLedger : ledger (applied ++ [b]) (c.advance b.seq).incarnation =
      ledger applied c.incarnation ++ [b] := ledger_concat hSame.symm
  refine ⟨h.known, ?_, ?_, ?_, ?_, ?_, ?_⟩
  · intro b' hb'
    rcases mem_append.mp hb' with hOld | hNew
    · exact h.latest b' hOld
    · rw [mem_singleton.mp hNew]
      exact Nat.le_of_eq hSame.symm
  · rw [hLedger, map_append]
    refine pairwise_append.mpr ⟨h.ordered, pairwise_singleton _ _, ?_⟩
    intro n hn m hm
    obtain ⟨b', hb', rfl⟩ := List.mem_map.mp hn
    rw [mem_singleton.mp hm]
    exact Nat.lt_of_le_of_lt (h.bounded b' hb') hSeq
  · intro b' hb'
    rw [hLedger] at hb'
    rcases mem_append.mp hb' with hOld | hNew
    · exact Nat.le_of_lt (Nat.lt_of_le_of_lt (h.bounded b' hOld) hSeq)
    · rw [mem_singleton.mp hNew]
      exact Nat.le_refl b.seq
  · intro hGap
    obtain ⟨hOld, hNext⟩ := StreamCursor.advance_gap hGap hSeq
    rw [hLedger, map_append, h.exact hOld]
    change _ = List.range' 1 b.seq
    rw [hNext, range'_1_concat, Nat.add_comm 1]
    simp [hNext]
  · intro key backend
    rw [hLedger, holdings_concat, ← hInstance]
    exact sizeAt_consume hConsistent (hInstance ▸ h.held) key backend
  · intro hCurrent k p hp hTier hReporter
    rw [placements_consume] at hp
    refine List.foldlRecOn (motive := fun ps => p ∈ ps → p.shared = false) _ _
      (fun hp => h.unshared hCurrent k p hp hTier hReporter) ?_ hp
    intro ps hps entry _ hp
    unfold CacheEventBatch.revise at hp
    split at hp
    · rename_i hType
      rcases mem_of_mem_upsert hp with rfl | hOld
      · exact hUnshared (hSame.symm.trans hCurrent) (by simp [hType]) hTier
      · exact hps hOld
    · exact hps (mem_of_mem_eraseP hp)
    · exact hps hp

theorem Followed.consume_other (h : Followed e applied d c) (hConsistent : d.Consistent)
    (hOther : b.instanceId ≠ e.instanceId) : Followed e applied (d.consume b) c where
  known := h.known
  latest := h.latest
  ordered := h.ordered
  bounded := h.bounded
  exact := h.exact
  held := fun key backend =>
    (sizeAt_consume_of_ne hConsistent hOther e.instanceId_ne).trans (h.held key backend)
  unshared := fun hCurrent k p hp hTier hReporter => h.unshared hCurrent k p
    (mem_of_mem_consume hp (hReporter ▸ Ne.symm hOther)) hTier hReporter

theorem Followed.fence_other (h : Followed e applied d c) (hConsistent : d.Consistent)
    {fenced : String} (hOther : fenced ≠ e.instanceId) :
    Followed e applied (d.fenceInstance fenced) c where
  known := h.known
  latest := h.latest
  ordered := h.ordered
  bounded := h.bounded
  exact := h.exact
  held := by
    intro key backend
    rw [sizeAt_fence hConsistent e.instanceId_ne, if_neg (Ne.symm hOther)]
    exact h.held key backend
  unshared := fun hCurrent k p hp => h.unshared hCurrent k p
    ((mem_placements_fence hConsistent fenced).mp hp).1

structure Faithful (e : Emitter) (s : Stream) : Prop where
  numbered : s.subscriber.Numbered e
  recorded : s.subscriber.reports = s.recorded
  consistent : s.fleet.consumers.directory.Consistent
  origin : ∀ b ∈ s.applied, b.incarnation = e.incarnation → b ∈ s.subscriber.published
  fresh : s.fleet.cursors.get? e.instanceId = none → s.applied = [] ∧
    ∀ k, ∀ p ∈ s.fleet.consumers.directory.placements k, p.instanceId ≠ e.instanceId
  followed : ∀ c, s.fleet.cursors.get? e.instanceId = some c →
    Followed e s.applied s.fleet.consumers.directory c

theorem faithful_new (evictionRatio triggerWatermark : ℚ) :
    Faithful e (new evictionRatio triggerWatermark) where
  numbered := numbered_new e
  recorded := rfl
  consistent := consistent_new
  origin := nofun
  fresh := fun _ => ⟨rfl, nofun⟩
  followed := nofun

theorem Faithful.ingest_other (h : Faithful e s) (hOther : b.instanceId ≠ e.instanceId) :
    Faithful e (s.ingest e b) := by
  have hApplied : (s.ingest e b).applied = s.applied := if_neg fun hBoth => hOther hBoth.2
  have hCursor : (s.ingest e b).fleet.cursors.get? e.instanceId =
      s.fleet.cursors.get? e.instanceId := Fleet.cursors_ingest_of_ne hOther
  have hDirectory : (s.ingest e b).fleet.consumers.directory = s.fleet.consumers.directory ∨
      (s.ingest e b).fleet.consumers.directory = s.fleet.consumers.directory.consume b ∨
      (s.ingest e b).fleet.consumers.directory =
        (s.fleet.consumers.directory.fenceInstance b.instanceId).consume b := by
    unfold ingest
    rcases s.fleet.ingest_cases b with ⟨_, _, _, _, hEq⟩ | ⟨_, hEq⟩ | ⟨_, _, _, hEq⟩ |
      ⟨_, _, _, _, hEq⟩
    · exact Or.inl (by rw [hEq])
    · exact Or.inr (Or.inl (by rw [hEq]; rfl))
    · exact Or.inr (Or.inr (by rw [hEq]; rfl))
    · exact Or.inr (Or.inl (by rw [hEq]; rfl))
  have hFence := h.consistent.fenceInstance b.instanceId
  refine ⟨h.numbered, h.recorded, ?_, ?_, ?_, ?_⟩
  · rcases hDirectory with hEq | hEq | hEq <;> rw [hEq]
    · exact h.consistent
    · exact h.consistent.consume b
    · exact hFence.consume b
  · rw [hApplied]
    exact h.origin
  · rw [hApplied, hCursor]
    intro hNone
    refine ⟨(h.fresh hNone).1, fun k p hp hReporter => (h.fresh hNone).2 k p ?_ hReporter⟩
    have hNew : p.instanceId ≠ b.instanceId := hReporter ▸ Ne.symm hOther
    rcases hDirectory with hEq | hEq | hEq <;> rw [hEq] at hp
    · exact hp
    · exact mem_of_mem_consume hp hNew
    · exact ((mem_placements_fence h.consistent _).mp (mem_of_mem_consume hp hNew)).1
  · rw [hApplied, hCursor]
    intro c hc
    rcases hDirectory with hEq | hEq | hEq <;> rw [hEq]
    · exact h.followed c hc
    · exact (h.followed c hc).consume_other h.consistent hOther
    · exact ((h.followed c hc).fence_other h.consistent hOther).consume_other hFence hOther

theorem Faithful.ingest_own (h : Faithful e s) (hInstance : b.instanceId = e.instanceId)
    (hKnown : b.incarnation ≤ e.incarnation)
    (hOrigin : b.incarnation = e.incarnation → b ∈ s.subscriber.published) :
    Faithful e (s.ingest e b) := by
  have hUnshared : b.incarnation = e.incarnation → b.eventType ≠ .config → b.tier = .l1 →
      b.shared = false := fun hCurrent => h.numbered.unshared b (hOrigin hCurrent)
  -- a batch that passes with a cursor that is followed
  have hPass : ∀ (f : Fleet) (c : StreamCursor), f.consumers.directory.Consistent →
      Followed e s.applied f.consumers.directory c → c.incarnation = b.incarnation →
      c.lastSeq < b.seq → s.fleet.ingest b = (.admitted, f.pass c b) →
      Faithful e (s.ingest e b) := by
    intro f c hConsistent hFollowed hSame hSeq hEq
    have hFleet : (s.ingest e b).fleet = f.pass c b := congrArg Prod.snd hEq
    have hApplied : (s.ingest e b).applied = s.applied ++ [b] := by
      unfold ingest
      rw [hEq]
      exact if_pos ⟨rfl, hInstance⟩
    have hCursor : (f.pass c b).cursors.get? e.instanceId = some (c.advance b.seq) := by
      rw [← hInstance]
      exact Dict.get?_set_self _ _ _
    refine ⟨h.numbered, h.recorded, ?_, ?_, ?_, ?_⟩
    · rw [hFleet]
      exact hConsistent.consume b
    · rw [hApplied]
      intro b' hb' hCurrent
      rcases mem_append.mp hb' with hOld | hNew
      · exact h.origin b' hOld hCurrent
      · rw [mem_singleton.mp hNew] at hCurrent ⊢
        exact hOrigin hCurrent
    · rw [hFleet, hCursor]
      nofun
    · rw [hFleet, hCursor, hApplied]
      rintro c' hc'
      obtain rfl := some.inj hc'
      exact hFollowed.pass hConsistent hInstance hSame hSeq hUnshared
  rcases s.fleet.ingest_cases b with ⟨_, _, _, hDropped, hEq⟩ | ⟨hNone, hEq⟩ |
    ⟨c, hCursor, hNewer, hEq⟩ | ⟨c, hCursor, hSame, hSeq, hEq⟩
  · have hSame : s.ingest e b = s := by
      unfold ingest
      rw [hEq, if_neg fun hBoth => hDropped hBoth.1]
    rw [hSame]
    exact h
  · obtain ⟨hApplied, hPlacements⟩ := h.fresh (hInstance ▸ hNone)
    refine hPass _ _ h.consistent (Followed.start hKnown (by simp [hApplied]) ?_ ?_) rfl b.seq_pos
      hEq
    · intro key backend
      rw [← not_isSome_iff_eq_none, isSome_iff_exists]
      rintro ⟨size, hSize⟩
      obtain ⟨p, hp, -, hReporter, -⟩ :=
        (sizeAt_eq_some_iff h.consistent e.instanceId_ne).mp hSize
      exact hPlacements key p hp hReporter
    · exact fun k p hp _ => hPlacements k p hp
  · have hFollowed := h.followed c (hInstance ▸ hCursor)
    refine hPass { s.fleet with consumers := s.fleet.consumers.fenceInstance b.instanceId } _
      (h.consistent.fenceInstance b.instanceId) (Followed.start hKnown ?_ ?_ ?_) rfl b.seq_pos hEq
    · exact fun b' hb' => Nat.lt_of_le_of_lt (hFollowed.latest b' hb') hNewer
    · intro key backend
      exact (sizeAt_fence h.consistent e.instanceId_ne b.instanceId).trans (if_pos hInstance.symm)
    · intro k p hp hTier hReporter
      exact ((mem_placements_fence h.consistent _).mp hp).2 ⟨hTier, hReporter.trans hInstance.symm⟩
  · exact hPass _ c h.consistent (h.followed c (hInstance ▸ hCursor)) hSame hSeq hEq

theorem Faithful.next (h : Faithful e s) {action : StreamAction} {t : Stream}
    (hNext : s.next e action = some t) : Faithful e t := by
  cases action with
  | event event dues =>
    obtain rfl := some.inj hNext
    obtain ⟨hNumbered, hReports⟩ := handle_spec h.numbered event dues
    refine ⟨hNumbered, hReports.trans (congrArg (· ++ _) h.recorded), h.consistent, ?_, h.fresh,
      h.followed⟩
    exact fun b hb hCurrent =>
      published_handle _ event dues (h.origin b hb hCurrent)
  | flush f =>
    obtain rfl := some.inj hNext
    refine ⟨h.numbered.flush f, (s.subscriber.reports_flush f).trans h.recorded, h.consistent, ?_,
      h.fresh, h.followed⟩
    exact fun b hb hCurrent => published_flush _ f (h.origin b hb hCurrent)
  | deliver b =>
    simp only [Stream.next] at hNext
    split at hNext
    · rename_i hPublished
      obtain rfl := some.inj hNext
      obtain ⟨hInstance, hCurrent⟩ := h.numbered.stamped b hPublished
      exact h.ingest_own hInstance (Nat.le_of_eq hCurrent) fun _ => hPublished
    · cases hNext
  | foreign b =>
    simp only [Stream.next] at hNext
    split at hNext
    · cases hNext
    · rename_i hForeign
      obtain rfl := some.inj hNext
      by_cases hInstance : b.instanceId = e.instanceId
      · have hEarlier : b.incarnation < e.incarnation :=
          Nat.lt_of_not_le fun hAge => hForeign ⟨hInstance, hAge⟩
        exact h.ingest_own hInstance (Nat.le_of_lt hEarlier) fun hCurrent =>
          absurd hCurrent hEarlier.ne
      · exact h.ingest_other hInstance

theorem eq_take_of_numbers {batches published : List CacheEventBatch} {n : Nat}
    (hPublished : published.map (·.seq) = List.range' 1 published.length)
    (hBatches : batches.map (·.seq) = List.range' 1 n) (hMem : ∀ b ∈ batches, b ∈ published) :
    n ≤ published.length ∧ batches = published.take n := by
  have hLength : batches.length = n := by
    have := congrArg List.length hBatches
    rwa [length_map, length_range'] at this
  have hBatch : ∀ i (hi : i < batches.length), published[i]? = some batches[i] := by
    intro i hi
    obtain ⟨j, hj, hEq⟩ := getElem_of_mem (hMem _ (getElem_mem hi))
    have hSeq : (batches.map (·.seq))[i]? = some (i + 1) := by
      rw [hBatches, getElem?_range' (by omega)]
      simp [Nat.add_comm]
    have hSeq' : (published.map (·.seq))[j]? = some (j + 1) := by
      rw [hPublished, getElem?_range' hj]
      simp [Nat.add_comm]
    rw [getElem?_map, getElem?_eq_getElem hi] at hSeq
    rw [getElem?_map, getElem?_eq_getElem hj, hEq] at hSeq'
    have hij : j = i := by
      have := hSeq.symm.trans hSeq'
      simp only [Option.some.injEq] at this
      omega
    subst hij
    rw [getElem?_eq_getElem hj, hEq]
  have hBound : n ≤ published.length := by
    rcases Nat.eq_zero_or_pos n with rfl | hPos
    · exact Nat.zero_le _
    · have hLast := hBatch (n - 1) (by omega)
      have := (List.getElem?_eq_some_iff.mp hLast).1
      omega
  refine ⟨hBound, ext_getElem? fun i => ?_⟩
  rw [getElem?_take]
  split
  · rename_i hi
    rw [hBatch i (by omega), getElem?_eq_getElem]
  · rename_i hi
    exact getElem?_eq_none (by omega)

/-- Fidelity of the stream: the batches are numbered from one and hold what was recorded, those
of the incarnation are applied at most once and in order, and where the cursor shows no gap,
the L1 placements of the instance are what the batches up to its number say. -/
theorem stream_fidelity (e : Emitter) (evictionRatio triggerWatermark : ℚ)
    {actions : List StreamAction} {s : Stream}
    (h : Run (fun s a t => Stream.next e s a = some t) (new evictionRatio triggerWatermark)
      actions s) :
    (s.subscriber.published.map (·.seq) = List.range' 1 s.subscriber.published.length ∧
      s.subscriber.published.flatMap CacheEventBatch.reports ++
        s.subscriber.pendingBatches.flatMap PendingBatch.reports = s.recorded) ∧
    ((∀ b ∈ ledger s.applied e.incarnation, b ∈ s.subscriber.published) ∧
      ((ledger s.applied e.incarnation).map (·.seq)).Pairwise (· < ·)) ∧
    (∀ n, s.fleet.cursors.get? e.instanceId = some ⟨e.incarnation, n, false⟩ →
      n ≤ s.subscriber.published.length ∧
      ∀ key backend size,
        (∃ p ∈ s.fleet.consumers.directory.placements key, p.tier = .l1 ∧
          p.instanceId = e.instanceId ∧ p.backend = backend ∧ p.sizeBytes = size) ↔
        holdings (s.subscriber.published.take n) key backend = some size) ∧
    ∀ incarnation n, s.fleet.cursors.get? e.instanceId = some ⟨incarnation, n, false⟩ →
      (ledger s.applied incarnation).map (·.seq) = List.range' 1 n ∧
      ∀ key backend size,
        (∃ p ∈ s.fleet.consumers.directory.placements key, p.tier = .l1 ∧
          p.instanceId = e.instanceId ∧ p.shared = false ∧ p.backend = backend ∧
          p.sizeBytes = size) ↔
        holdings (ledger s.applied incarnation) key backend = some size := by
  have hFaithful : Faithful e s :=
    h.invariant (I := Faithful e) (fun _ _ _ hs hNext => hs.next hNext)
      (faithful_new evictionRatio triggerWatermark)
  have hOrigin : ∀ b ∈ ledger s.applied e.incarnation, b ∈ s.subscriber.published := by
    intro b hb
    obtain ⟨hMem, hCurrent⟩ := List.mem_filter.mp hb
    exact hFaithful.origin b hMem (by simpa using hCurrent)
  have hHeld : ∀ incarnation n, s.fleet.cursors.get? e.instanceId = some ⟨incarnation, n, false⟩ →
      (ledger s.applied incarnation).map (·.seq) = List.range' 1 n ∧
      ∀ key backend size,
        (∃ p ∈ s.fleet.consumers.directory.placements key, p.tier = .l1 ∧
          p.instanceId = e.instanceId ∧ p.shared = false ∧ p.backend = backend ∧
          p.sizeBytes = size) ↔
        holdings (ledger s.applied incarnation) key backend = some size := by
    intro incarnation n hCursor
    have hFollowed := hFaithful.followed _ hCursor
    refine ⟨hFollowed.exact rfl, fun key backend size => ?_⟩
    rw [← hFollowed.held key backend]
    exact (sizeAt_eq_some_iff hFaithful.consistent e.instanceId_ne).symm
  refine ⟨⟨hFaithful.numbered.numbers, hFaithful.recorded⟩, ⟨hOrigin, ?_⟩, ?_, hHeld⟩
  · cases hCursor : s.fleet.cursors.get? e.instanceId with
    | none =>
      rw [(hFaithful.fresh hCursor).1]
      exact .nil
    | some c =>
      have hFollowed := hFaithful.followed c hCursor
      by_cases hCurrent : c.incarnation = e.incarnation
      · exact hCurrent ▸ hFollowed.ordered
      · -- an older cursor: nothing of this incarnation was applied
        have hOlder := Nat.lt_of_le_of_ne hFollowed.known hCurrent
        rw [ledger_eq_nil fun b hb => Nat.lt_of_le_of_lt (hFollowed.latest b hb) hOlder]
        exact .nil
  · intro n hCursor
    obtain ⟨hNumbers, hIff⟩ := hHeld _ n hCursor
    obtain ⟨hBound, hTake⟩ :=
      eq_take_of_numbers hFaithful.numbered.numbers hNumbers hOrigin
    refine ⟨hBound, fun key backend size => ?_⟩
    rw [← hTake, ← hIff]
    constructor
    · rintro ⟨p, hp, hTier, hReporter, hRest⟩
      exact ⟨p, hp, hTier, hReporter,
        (hFaithful.followed _ hCursor).unshared rfl key p hp hTier hReporter, hRest⟩
    · rintro ⟨p, hp, hTier, hReporter, -, hRest⟩
      exact ⟨p, hp, hTier, hReporter, hRest⟩

end Stream

namespace Sample

def emitter : Emitter := ⟨"a", 2, name_ne⟩

def batch : CacheEventBatch :=
  CacheEventSubscriber.placementBatch emitter 0 0
    (CacheEventSubscriber.l1Pending .store CacheEventType.store_ne_config .gds [⟨key, 8, [], none⟩])

/-- The first incarnation stored a key, the second stores it again and is heard twice. -/
def restart : List StreamAction :=
  [.foreign (stored "a" name_ne .l1), .event (.l1Store [(key, ⟨8, .gds⟩)]) [],
    .flush ⟨0, false⟩, .deliver batch, .deliver batch]

end Sample

namespace Stream

/-- The placement of the first incarnation is gone, and one batch was applied. -/
theorem stream_fidelity_restart :
    ∃ s, Run (fun s a t => Stream.next Sample.emitter s a = some t) (new 1 1) Sample.restart s ∧
      s.fleet.cursors.get? "a" = some ⟨2, 1, false⟩ ∧
      ∃ p ∈ s.fleet.consumers.directory.placements Sample.key, p.tier = .l1 ∧
        p.instanceId = "a" ∧ p.backend = "gds" ∧ p.sizeBytes = 8 := by
  obtain ⟨s, hRun, hCursor, hHeld⟩ := Run.exists_of_exec (Stream.next Sample.emitter) (new 1 1)
    Sample.restart (fun s => s.fleet.cursors.get? "a" = some ⟨2, 1, false⟩ ∧
      holdings (s.subscriber.published.take 1) Sample.key "gds" = some 8) (by decide +kernel)
  refine ⟨s, hRun, hCursor, ?_⟩
  exact (((stream_fidelity Sample.emitter 1 1 hRun).2.2.1 1 hCursor).2 Sample.key "gds" 8).mpr hHeld

end Stream

end LMCache.Coordinator
