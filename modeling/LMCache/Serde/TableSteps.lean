import LMCache.Serde.Places

/-!
# Steps keep the tables

Every step of the wrapper, of those it works with and of those around it keeps `Coherent`, and
does to the temporary buffers one of the things that `BufferStep` lists. A step acts on one
task, whose place it may change, or on no task at all.
-/

namespace LMCache.Serde

open Lib Dict Option

/-- The calls that the wrapper makes for the temporary keys of one task. -/
inductive StageCall (temps : List ObjectKey) : Stage → L1Op ObjectKey → Option Stage → Prop
  | finishWrite : StageCall temps .written (.finishWrite temps) (some .released)
  | delete : StageCall temps .released (.delete temps false) none
  | handOver : StageCall temps .written (.finishWriteAndReserveRead temps 1) (some .reading)
  | finishRead : StageCall temps .reading (.finishRead temps 1) none

theorem SubmitPoint.Holds.mono {point : SubmitPoint} {kept kept' : List (List ObjectKey)}
    {temps : List ObjectKey} (h : point.Holds kept temps) (hKept : kept' ⊆ kept) :
    point.Holds kept' temps := by
  cases point with
  | alloc => exact ⟨h.1, List.subset_nil.mp (h.2 ▸ hKept)⟩
  | _ => exact h

namespace SerdeSystem

variable {V : Type} {σ τ : SerdeSystem V} {id j n : Nat} {label : Label V} {s s' : Option Stage}

/-- The manager, what the store controller was told, and the records of the calls. -/
structure SameBuffers (σ τ : SerdeSystem V) : Prop where
  l1 : τ.l1 = σ.l1
  controller : τ.controller = σ.controller
  known : τ.records.known = σ.records.known
  readGrants : τ.records.readGrants = σ.records.readGrants

/-- The temporary keys that the step makes. -/
def drawnKeys (σ : SerdeSystem V) : Label V → List ObjectKey
  | .submitCall id choice =>
    match σ.submissions.get? id with
    | some ⟨request, .alloc⟩ => List.zipWith makeTempKey request.keys choice.random
    | _ => []
  | _ => []

/-- What a step of the wrapper, of the executor or of the inner adapter does to the temporary
buffers. -/
inductive BufferStep (σ : SerdeSystem V) (label : Label V) : SerdeSystem V → Prop
  | quiet {τ : SerdeSystem V} {id : Nat} {s s' : Option Stage} (hSame : SameBuffers σ τ)
      (hTemps : τ.records.tempKeys = σ.records.tempKeys) (hMoves : Moves σ τ id s s')
      (hStage : s' = s ∨ (s' = none ∧ s ≠ some .released) ∨ σ.tempsOf id = []) :
      BufferStep σ label τ
  | call {τ : SerdeSystem V} {id : Nat} {s : Stage} {s' : Option Stage} {op : L1Op ObjectKey}
      (hCall : StageCall (σ.tempsOf id) s op s') (hSame : SameBuffers (σ.l1Call op) τ)
      (hTemps : τ.records.tempKeys = σ.records.tempKeys) (hMoves : Moves σ τ id (some s) s') :
      BufferStep σ label τ
  | alloc {τ : SerdeSystem V} {id : Nat} {outcome : AllocOutcome} {isTemporary : List Bool}
      {s' : Option Stage}
      (hSame : SameBuffers
        (σ.l1Call (.reserveWrite (σ.drawnKeys label) isTemporary .new outcome)) τ)
      (hNone : σ.tempsOf id = [])
      (hTemps : τ.tempsOf id = (σ.drawnKeys label).filter
        (reserved (σ.l1.reserveWrite (σ.drawnKeys label) isTemporary .new outcome).reply))
      (hOthers : ∀ j, id ≠ j → τ.tempsOf j = σ.tempsOf j)
      (hStood : σ.count id .written ≠ 0) (hMoves : Moves σ τ id (some .written) s')
      (hStage : s' ≠ some .released) :
      BufferStep σ label τ

theorem tempsOf_congr (h : τ.records.tempKeys = σ.records.tempKeys) : τ.tempsOf = σ.tempsOf := by
  funext j
  rw [tempsOf, tempsOf, Records.tempsOf, Records.tempsOf, h]

theorem Coherent.act (h : σ.Coherent) (id : Nat) (hTotal : ∀ j, τ.total j ≤ σ.total j)
    (hTemps : τ.records.tempKeys = σ.records.tempKeys)
    (hNext : τ.wrapper.nextTaskId = σ.wrapper.nextTaskId)
    (hOthers : ∀ j, id ≠ j → τ.submissions.get? j = σ.submissions.get? j)
    (hOwn : ∀ s, τ.submissions.get? id = some s → id < σ.wrapper.nextTaskId ∧
      s.point.Holds (τ.wrapper.kept id) (σ.tempsOf id))
    (hKept : ∀ j, ∀ tempKeys ∈ τ.wrapper.kept j, tempKeys ∈ σ.wrapper.kept j ∨
      id = j ∧ id < σ.wrapper.nextTaskId ∧ tempKeys = σ.tempsOf id)
    (hDrain : τ.drain.Holds σ.tempsOf) : τ.Coherent := by
  have hSame := tempsOf_congr hTemps
  refine ⟨fun j => (hTotal j).trans (h.single j), fun j s hs => ?_, hSame ▸ hDrain,
    fun j keys hKeys => ?_, fun j hj => ?_⟩
  · rw [hNext, hSame]
    by_cases hEq : id = j
    · subst hEq
      exact hOwn s hs
    · obtain ⟨hBelow, hHolds⟩ := h.submission j s (hOthers j hEq ▸ hs)
      exact ⟨hBelow, hHolds.mono fun keys hKeys => (hKept j keys hKeys).resolve_right
        fun hBoth => hEq hBoth.1⟩
  · rw [hSame]
    rcases hKept j keys hKeys with hOld | ⟨rfl, -, rfl⟩
    · exact h.kept j keys hOld
    · rfl
  · rw [hNext] at hj
    obtain ⟨hNone, hNoTemps, hNoKept⟩ := h.fresh j hj
    refine ⟨Nat.le_zero.mp (hNone ▸ hTotal j), by rw [hSame, hNoTemps], ?_⟩
    refine List.eq_nil_iff_forall_not_mem.mpr fun keys hKeys => ?_
    rcases hKept j keys hKeys with hOld | ⟨rfl, hBelow, -⟩
    · rw [hNoKept] at hOld
      cases hOld
    · exact absurd hBelow (Nat.not_lt.mpr hj)

/-- The parts of the state that a step of the drain loop leaves alone. -/
structure Beside (σ τ : SerdeSystem V) : Prop where
  submissions : τ.submissions = σ.submissions
  tempKeys : τ.records.tempKeys = σ.records.tempKeys
  nextTaskId : τ.wrapper.nextTaskId = σ.wrapper.nextTaskId

theorem counted_same {f g : Nat → Stage → Nat} (h : g = f) : Counted f g id none none :=
  h ▸ Counted.refl f id none

/-- A step of the drain loop on the task `id`, which it takes from `m` or from its point to
`m'` or to the next point. -/
theorem Coherent.drainAct (h : σ.Coherent) (hBeside : Beside σ τ) {m m' d d' : Option Stage}
    (hMapped : Counted σ.wrapper.mapped τ.wrapper.mapped id m m')
    (hBefore : σ.drain.standing = d.map (id, ·)) (hAfter : τ.drain.standing = d'.map (id, ·))
    (hOld : Joined s m d) (hNew : Joined s' m' d') (hStage : s = none → s' = none)
    (hKept : ∀ j, τ.wrapper.kept j ⊆ σ.wrapper.kept j) (hHolds : τ.drain.Holds σ.tempsOf) :
    τ.Coherent ∧ Moves σ τ id s s' := by
  have hSubmitted : τ.submitted = σ.submitted := by
    funext j t
    rw [submitted, hBeside.submissions]
    rfl
  have hMoves : Moves σ τ id s s' :=
    ((counted_same hSubmitted).add hMapped (Or.inr ⟨rfl, rfl⟩) (Or.inr ⟨rfl, rfl⟩)).add
      (counted_drained hBefore hAfter) hOld hNew
  refine ⟨h.act id (hMoves.total hStage) hBeside.tempKeys hBeside.nextTaskId
    (fun j _ => by rw [hBeside.submissions]) (fun s hs => ?_)
    (fun j keys hKeys => Or.inl (hKept j hKeys)) hHolds, hMoves⟩
  obtain ⟨hBelow, hPoint⟩ := h.submission id s (hBeside.submissions ▸ hs)
  exact ⟨hBelow, hPoint.mono (hKept id)⟩

theorem Coherent.submitAct (h : σ.Coherent) {sub : Submission} {a m' : Option Stage}
    (hs : σ.submissions.get? id = some sub) (hStage : sub.point.stage = s)
    (hOthers : ∀ j, id ≠ j → τ.submissions.get? j = σ.submissions.get? j)
    (hOwn : ∀ s, τ.submissions.get? id = some s → s.point.Holds (τ.wrapper.kept id) (σ.tempsOf id))
    (hAfter : (τ.submissions.get? id).bind (·.point.stage) = a)
    (hMapped : Counted σ.wrapper.mapped τ.wrapper.mapped id none m')
    (hNew : Joined s' a m') (hNone : s = none → s' = none)
    (hKept : ∀ j, ∀ tempKeys ∈ τ.wrapper.kept j, tempKeys ∈ σ.wrapper.kept j ∨
      id = j ∧ tempKeys = σ.tempsOf id)
    (hDrain : τ.drain = σ.drain) (hTemps : τ.records.tempKeys = σ.records.tempKeys)
    (hNext : τ.wrapper.nextTaskId = σ.wrapper.nextTaskId) :
    τ.Coherent ∧ Moves σ τ id s s' := by
  have hBelow := (h.submission id sub hs).1
  have hDrained : τ.drained = σ.drained := by
    funext j t
    rw [drained, hDrain]
    rfl
  have hSubmitted := counted_submitted hOthers
  rw [hs, hAfter, bind_some, hStage] at hSubmitted
  have hMoves : Moves σ τ id s s' := (hSubmitted.add hMapped (Or.inl ⟨rfl, rfl⟩) hNew).add
    (counted_same hDrained) (Or.inl ⟨rfl, rfl⟩) (Or.inl ⟨rfl, rfl⟩)
  refine ⟨h.act id (hMoves.total hNone) hTemps hNext hOthers
    (fun s hs => ⟨hBelow, hOwn s hs⟩) (fun j keys hKeys => (hKept j keys hKeys).imp_right
      fun hBoth => ⟨hBoth.1, hBelow, hBoth.2⟩) ?_, hMoves⟩
  rw [hDrain]
  exact h.drain

theorem SubmitPoint.holds_release {kept : List (List ObjectKey)} {temps : List ObjectKey} :
    (SubmitPoint.release temps).Holds kept temps := by
  cases temps with
  | nil => trivial
  | cons t ts => rfl

theorem SubmitPoint.stage_release (temps : List ObjectKey) :
    (SubmitPoint.release temps).stage = some .written ∨
      (SubmitPoint.release temps).stage = none := by
  cases temps with
  | nil => exact Or.inr rfl
  | cons t ts => exact Or.inl rfl

theorem Coherent.submitL1Call (h : σ.Coherent) {sub : Submission} {point : SubmitPoint}
    {t : Stage} {op : L1Op ObjectKey} (hs : σ.submissions.get? id = some sub)
    (hStage : sub.point.stage = some t) (hCall : StageCall (σ.tempsOf id) t op point.stage)
    (hHolds : point.Holds (σ.wrapper.kept id) (σ.tempsOf id)) :
    ((σ.l1Call op).setPoint id sub point).Coherent ∧
      BufferStep σ label ((σ.l1Call op).setPoint id sub point) := by
  have hPoint : ((σ.l1Call op).setPoint id sub point).submissions.get? id =
      some { sub with point := point } := get?_set_self _ _ _
  have hMapped : Counted σ.wrapper.mapped σ.wrapper.mapped id none none := Counted.refl _ _ _
  obtain ⟨hCoherent, hMoves⟩ := h.submitAct (τ := (σ.l1Call op).setPoint id sub point)
    (a := point.stage) hs hStage (fun j hj => get?_set_ne _ hj _) (fun s hs => by
      obtain rfl := some.inj (hPoint.symm.trans hs)
      exact hHolds) (by rw [hPoint]; rfl) hMapped (Or.inl ⟨rfl, rfl⟩)
    (fun hNone => by cases hNone) (fun _ _ hk => Or.inl hk) rfl rfl rfl
  exact ⟨hCoherent, .call hCall ⟨rfl, rfl, rfl, rfl⟩ rfl hMoves⟩

theorem Coherent.submitQuiet (h : σ.Coherent) {sub : Submission} {a m' : Option Stage}
    (hs : σ.submissions.get? id = some sub) (hStage : sub.point.stage = some .written)
    (hOthers : ∀ j, id ≠ j → τ.submissions.get? j = σ.submissions.get? j)
    (hOwn : ∀ s, τ.submissions.get? id = some s → s.point.Holds (τ.wrapper.kept id) (σ.tempsOf id))
    (hAfter : (τ.submissions.get? id).bind (·.point.stage) = a)
    (hMapped : Counted σ.wrapper.mapped τ.wrapper.mapped id none m')
    (hNew : Joined s' a m') (hStay : s' = some .written ∨ s' = none)
    (hKept : ∀ j, ∀ tempKeys ∈ τ.wrapper.kept j, tempKeys ∈ σ.wrapper.kept j ∨
      id = j ∧ tempKeys = σ.tempsOf id)
    (hDrain : τ.drain = σ.drain) (hTemps : τ.records.tempKeys = σ.records.tempKeys)
    (hNext : τ.wrapper.nextTaskId = σ.wrapper.nextTaskId) (hSame : SameBuffers σ τ) :
    τ.Coherent ∧ BufferStep σ label τ := by
  obtain ⟨hCoherent, hMoves⟩ := h.submitAct hs hStage hOthers hOwn hAfter hMapped hNew
    (fun hNone => by cases hNone) hKept hDrain hTemps hNext
  refine ⟨hCoherent, .quiet hSame hTemps hMoves ?_⟩
  exact hStay.imp_right fun hNone => Or.inl ⟨hNone, by decide⟩

theorem mem_kept {w : SerdeL2AdapterWrapper} {tempKeys : List ObjectKey} :
    tempKeys ∈ w.kept j ↔ (∃ state, w.storeTasks.get? j = some state ∧
      state.tempKeys = tempKeys) ∨ ∃ state, w.loadTasks.get? j = some state ∧
      state.tempKeys = tempKeys := by
  simp only [SerdeL2AdapterWrapper.kept, List.mem_append, mem_toList, map_eq_some_iff]

theorem get?_of_erase {κ υ : Type} [DecidableEq κ] {d : Dict κ υ} {k k' : κ} {v : υ}
    (h : (d.erase k).get? k' = some v) : d.get? k' = some v := by
  rw [get?_erase] at h
  split at h
  · cases h
  · exact h

theorem kept_finalize (w : SerdeL2AdapterWrapper) (id : Nat) (done : Completion) (j : Nat) :
    (w.finalize id done).kept j ⊆ w.kept j := by
  intro tempKeys hKeys
  rw [mem_kept] at hKeys ⊢
  cases done with
  | store result => exact hKeys.imp_left fun ⟨state, hState, hEq⟩ =>
      ⟨state, get?_of_erase hState, hEq⟩
  | load bitmap => exact hKeys.imp_right fun ⟨state, hState, hEq⟩ =>
      ⟨state, get?_of_erase hState, hEq⟩

theorem kept_unregister (σ : SerdeSystem V) (id : Nat) (kind : TaskKind) (j : Nat) :
    (σ.unregister id kind).wrapper.kept j ⊆ σ.wrapper.kept j := by
  cases kind with
  | store => exact kept_finalize σ.wrapper id (.store none) j
  | load => exact kept_finalize σ.wrapper id (.load (Bitmap.zeros 0)) j

theorem kept_setStore {w w' : SerdeL2AdapterWrapper} {tempKeys : List ObjectKey}
    (hKeys : tempKeys ∈ w'.kept j) (state : StoreTaskState)
    (hStore : w'.storeTasks = w.storeTasks.set id state) (hLoad : w'.loadTasks = w.loadTasks) :
    tempKeys ∈ w.kept j ∨ id = j ∧ tempKeys = state.tempKeys := by
  rw [mem_kept, hStore, hLoad, get?_set] at hKeys
  rw [mem_kept]
  split at hKeys
  · rename_i hEq
    rcases hKeys with ⟨_, hState, rfl⟩ | hOld
    · obtain rfl := some.inj hState
      exact Or.inr ⟨hEq, rfl⟩
    · exact Or.inl (Or.inr hOld)
  · exact Or.inl hKeys

theorem kept_setLoad {w w' : SerdeL2AdapterWrapper} {tempKeys : List ObjectKey}
    (hKeys : tempKeys ∈ w'.kept j) (state : LoadTaskState)
    (hStore : w'.storeTasks = w.storeTasks) (hLoad : w'.loadTasks = w.loadTasks.set id state) :
    tempKeys ∈ w.kept j ∨ id = j ∧ tempKeys = state.tempKeys := by
  rw [mem_kept, hStore, hLoad, get?_set] at hKeys
  rw [mem_kept]
  split at hKeys
  · rename_i hEq
    rcases hKeys with hOld | ⟨_, hState, rfl⟩
    · exact Or.inl (Or.inl hOld)
    · obtain rfl := some.inj hState
      exact Or.inr ⟨hEq, rfl⟩
  · exact Or.inl hKeys

theorem Coherent.register (h : σ.Coherent) {sub : Submission} {tempKeys : List ObjectKey}
    (hs : σ.submissions.get? id = some sub) (hStage : sub.point.stage = some .written)
    (hHolds : tempKeys = σ.tempsOf id) (m : ReverseMap) (hm : m.stage = .written)
    (accepted : Bool) (hSame : SameBuffers σ τ)
    (hSubmissions : τ.submissions = if accepted then σ.submissions.erase id
      else σ.submissions.set id { sub with point := .unregister tempKeys })
    (hMapped : τ.wrapper.mapped = if accepted
      then (m.put σ.wrapper ((m.get σ.wrapper).set n id)).mapped else σ.wrapper.mapped)
    (hKept : ∀ j, ∀ keys ∈ τ.wrapper.kept j, keys ∈ σ.wrapper.kept j ∨ id = j ∧ keys = tempKeys)
    (hDrain : τ.drain = σ.drain) (hTemps : τ.records.tempKeys = σ.records.tempKeys)
    (hNext : τ.wrapper.nextTaskId = σ.wrapper.nextTaskId) :
    τ.Coherent ∧ BufferStep σ label τ := by
  subst hHolds
  cases accepted with
  | true =>
    simp only [if_true] at hSubmissions hMapped
    have hCounted := m.counted_set σ.wrapper n id
    rw [← hMapped, hm] at hCounted
    have hErased : τ.submissions.get? id = none := by rw [hSubmissions, get?_erase_self]
    refine h.submitQuiet (a := none) hs hStage (fun j hj => ?_) (fun s hs => ?_)
      (by rw [hErased]; rfl) hCounted (Or.inr ⟨rfl, rfl⟩) (Or.inl rfl) hKept hDrain hTemps
      hNext hSame
    · rw [hSubmissions, get?_erase_ne _ hj]
    · rw [hErased] at hs
      cases hs
  | false =>
    simp only [Bool.false_eq_true, if_false] at hSubmissions hMapped
    have hPoint : τ.submissions.get? id =
        some { sub with point := .unregister (σ.tempsOf id) } := by
      rw [hSubmissions, get?_set_self]
    refine h.submitQuiet (a := some .written) hs hStage (fun j hj => ?_) (fun s hs => ?_)
      (by rw [hPoint]; rfl) (counted_same hMapped) (Or.inl ⟨rfl, rfl⟩) (Or.inl rfl) hKept hDrain
      hTemps hNext hSame
    · rw [hSubmissions, get?_set_ne _ hj]
    · obtain rfl := some.inj (hPoint.symm.trans hs)
      rfl

theorem Coherent.unregister (h : σ.Coherent) {sub : Submission}
    (hs : σ.submissions.get? id = some sub) (hPoint : sub.point = .unregister (σ.tempsOf id)) :
    ((σ.unregister id sub.request.kind).setPoint id sub (.release (σ.tempsOf id))).Coherent ∧
      BufferStep σ label
        ((σ.unregister id sub.request.kind).setPoint id sub (.release (σ.tempsOf id))) := by
  have hSubmissions : ((σ.unregister id sub.request.kind).setPoint id sub
      (.release (σ.tempsOf id))).submissions =
        σ.submissions.set id { sub with point := .release (σ.tempsOf id) } := by
    cases sub.request.kind <;> rfl
  refine h.submitQuiet (a := (SubmitPoint.release (σ.tempsOf id)).stage) hs (by rw [hPoint]; rfl)
    (fun j hj => ?_) (fun s hs => ?_) ?_ (counted_same ?_) (Or.inl ⟨rfl, rfl⟩)
    (SubmitPoint.stage_release _) (fun j keys hKeys => Or.inl ?_) ?_ ?_ ?_ ?_
  · rw [hSubmissions, get?_set_ne _ hj]
  · rw [hSubmissions, get?_set_self] at hs
    obtain rfl := some.inj hs
    exact SubmitPoint.holds_release
  · rw [hSubmissions, get?_set_self]
    rfl
  · cases sub.request.kind <;> rfl
  · exact kept_unregister σ id _ j hKeys
  all_goals cases sub.request.kind <;> first | rfl | exact ⟨rfl, rfl, rfl, rfl⟩

theorem Coherent.submitFinalize (h : σ.Coherent) {sub : Submission}
    (hs : σ.submissions.get? id = some sub) (hPoint : sub.point = .finalize) (done : Completion)
    (hTau : τ = { σ with
      wrapper := σ.wrapper.finalize id done
      submissions := σ.submissions.erase id }) : τ.Coherent ∧ BufferStep σ label τ := by
  have hErased : τ.submissions.get? id = none := by rw [hTau, get?_erase_self]
  have hAct : τ.Coherent ∧ Moves σ τ id none none := by
    refine h.submitAct (a := none) hs (by rw [hPoint]; rfl) (fun j hj => ?_) (fun s hs => ?_)
      (by rw [hErased]; rfl) (counted_same ?_) (Or.inl ⟨rfl, rfl⟩) (fun hNone => hNone)
      (fun j keys hKeys => Or.inl ?_) (by rw [hTau]) (by rw [hTau]) ?_
    · rw [hTau, get?_erase_ne _ hj]
    · rw [hErased] at hs
      cases hs
    · rw [hTau]
      cases done <;> rfl
    · rw [hTau] at hKeys
      exact kept_finalize _ _ _ _ hKeys
    · rw [hTau]
      cases done <;> rfl
  refine ⟨hAct.1, .quiet ?_ (by rw [hTau]) hAct.2 (Or.inl rfl)⟩
  rw [hTau]
  exact ⟨rfl, rfl, rfl, rfl⟩

theorem DrainPoint.Holds.congr {point : DrainPoint} {f g : Nat → List ObjectKey}
    (h : point.Holds f) (hEq : ∀ id t, point.standing = some (id, t) → f id = g id) :
    point.Holds g := by
  cases point with
  | handOver id state rest => exact h.trans (hEq id _ rfl)
  | submitStore id state rest => exact h.trans (hEq id _ rfl)
  | submitDeserialize id state rest => exact h.trans (hEq id _ rfl)
  | finishRead id tempKeys done rest => exact h.trans (hEq id _ rfl)
  | releaseWrite id tempKeys done rest => exact h.trans (hEq id _ rfl)
  | deleteTemps id tempKeys done rest => exact h.trans (hEq id _ rfl)
  | _ => trivial

theorem Coherent.standing_ne (h : σ.Coherent) {sub : Submission} {t t' : Stage}
    (hs : σ.submissions.get? id = some sub) (hStage : sub.point.stage = some t) :
    σ.drain.standing ≠ some (id, t') := by
  intro hStanding
  have hSingle := h.single id
  have hSubmitted : σ.submitted id t = 1 := if_pos (by rw [hs]; exact hStage)
  have hDrained : σ.drained id t' = 1 := if_pos hStanding
  unfold total count at hSingle
  cases t <;> cases t' <;> omega

theorem SubmitPoint.holds_afterAlloc (kept : List (List ObjectKey)) (tempKeys : List ObjectKey)
    (results : Dict ObjectKey L1OperationResult) :
    (SubmitPoint.afterAlloc tempKeys results).Holds kept (tempKeys.filter (reserved results)) := by
  unfold SubmitPoint.afterAlloc
  dsimp only
  split
  · exact holds_release
  · rename_i hAll
    have hFilter := List.filter_eq_self.mpr (List.length_filter_eq_length_iff.mp (not_not.mp hAll))
    exact hFilter.symm

theorem SubmitPoint.stage_afterAlloc (tempKeys : List ObjectKey)
    (results : Dict ObjectKey L1OperationResult) :
    (SubmitPoint.afterAlloc tempKeys results).stage ≠ some .released := by
  unfold SubmitPoint.afterAlloc
  dsimp only
  split
  · rcases stage_release (tempKeys.filter (reserved results)) with hStage | hStage <;>
      rw [hStage] <;> decide
  · intro hNone
    cases hNone

theorem Coherent.allocTempBuffers (h : σ.Coherent) {sub : Submission}
    (hs : σ.submissions.get? id = some sub) (hPoint : sub.point = .alloc) (choice : Choice) :
    (σ.allocTempBuffers id sub choice.random choice.outcome).Coherent ∧
      BufferStep σ (.submitCall id choice)
        (σ.allocTempBuffers id sub choice.random choice.outcome) := by
  obtain ⟨hBelow, hHolds⟩ := h.submission id sub hs
  rw [hPoint] at hHolds
  obtain ⟨hNoTemps, hNoKept⟩ := hHolds
  have hStage : sub.point.stage = some .written := by rw [hPoint]; rfl
  generalize hKeys : σ.drawnKeys (.submitCall id choice) = tempKeys
  have hDrawn : List.zipWith makeTempKey sub.request.keys choice.random = tempKeys := by
    obtain ⟨request, point⟩ := sub
    subst hPoint
    simp only [← hKeys, drawnKeys, hs]
  generalize hTau : σ.allocTempBuffers id sub choice.random choice.outcome = τ
  generalize hResults : (σ.l1.reserveWrite tempKeys (tempKeys.map fun _ => true) .new
    choice.outcome).reply = results
  obtain ⟨hTempKeys, hSame⟩ : τ.records.tempKeys =
        σ.records.tempKeys.set id (tempKeys.filter (reserved results)) ∧
      SameBuffers (σ.l1Call (.reserveWrite tempKeys (tempKeys.map fun _ => true) .new
        choice.outcome)) τ := by
    rw [← hTau, ← hResults]
    unfold SerdeSystem.allocTempBuffers
    rw [hDrawn]
    dsimp only
    split <;> exact ⟨rfl, rfl, rfl, rfl, rfl⟩
  obtain ⟨hSubmissions, hWrapper, hDrain⟩ : τ.submissions =
        σ.submissions.set id { sub with point := .afterAlloc tempKeys results } ∧
      τ.wrapper = σ.wrapper ∧ τ.drain = σ.drain := by
    rw [← hTau, ← hResults, ← hDrawn]
    exact ⟨rfl, rfl, rfl⟩
  have hOwn : τ.tempsOf id = tempKeys.filter (reserved results) := by
    rw [tempsOf, Records.tempsOf, hTempKeys, get?_set_self]
    rfl
  have hOthers : ∀ j, id ≠ j → τ.tempsOf j = σ.tempsOf j := by
    intro j hj
    rw [tempsOf, Records.tempsOf, hTempKeys, get?_set_ne _ hj]
    rfl
  have hMoves : Moves σ τ id (some .written) (SubmitPoint.afterAlloc tempKeys results).stage := by
    have hSubmitted := counted_submitted (σ := σ) (τ := τ) fun j (hj : id ≠ j) => by
      rw [hSubmissions, get?_set_ne _ hj]
    rw [hs, hSubmissions, get?_set_self, bind_some, bind_some, hStage] at hSubmitted
    have hMapped : τ.wrapper.mapped = σ.wrapper.mapped := by rw [hWrapper]
    have hDrained : τ.drained = σ.drained := by
      funext j t
      rw [drained, hDrain]
      rfl
    exact (hSubmitted.add (counted_same hMapped) (Or.inl ⟨rfl, rfl⟩) (Or.inl ⟨rfl, rfl⟩)).add
      (counted_same hDrained) (Or.inl ⟨rfl, rfl⟩) (Or.inl ⟨rfl, rfl⟩)
  have hTotal := hMoves.total fun hNone => by cases hNone
  have hStood : σ.count id .written ≠ 0 := by
    have hOne : σ.submitted id .written = 1 := by
      rw [submitted, hs, bind_some, hStage, if_pos rfl]
    rw [count, hOne]
    omega
  subst hKeys
  refine ⟨⟨fun j => (hTotal j).trans (h.single j), fun j s' hs' => ?_, ?_, fun j keys hk => ?_,
    fun j hj => ?_⟩, .alloc hSame hNoTemps (hResults ▸ hOwn) hOthers hStood hMoves
      (SubmitPoint.stage_afterAlloc _ _)⟩
  · rw [hWrapper]
    by_cases hj : id = j
    · subst hj
      rw [hSubmissions, get?_set_self] at hs'
      obtain rfl := some.inj hs'
      refine ⟨hBelow, ?_⟩
      rw [hOwn]
      exact SubmitPoint.holds_afterAlloc _ _ _
    · rw [hSubmissions, get?_set_ne _ hj] at hs'
      rw [hOthers j hj]
      exact h.submission j s' hs'
  · rw [hDrain]
    refine DrainPoint.Holds.congr h.drain fun j t hStanding => (hOthers j ?_).symm
    rintro rfl
    exact h.standing_ne hs hStage hStanding
  · rw [hWrapper] at hk
    by_cases hj : id = j
    · subst hj
      rw [hNoKept] at hk
      cases hk
    · rw [hOthers j hj]
      exact h.kept j keys hk
  · rw [hWrapper] at hj ⊢
    have hne : id ≠ j := by omega
    rw [hOthers j hne]
    obtain ⟨hNone, hFresh⟩ := h.fresh j hj
    exact ⟨Nat.le_zero.mp (hNone ▸ hTotal j), hFresh⟩

theorem Coherent.submitCall (h : σ.Coherent) {choice : Choice}
    (hStep : σ.submitCall id choice = some τ) :
    τ.Coherent ∧ BufferStep σ (.submitCall id choice) τ := by
  obtain ⟨sub, hs, hStep⟩ := bind_eq_some_iff.mp hStep
  obtain ⟨-, hHolds⟩ := h.submission id sub hs
  cases hPoint : sub.point with
  | alloc =>
    simp only [hPoint] at hStep
    split at hStep
    · cases hStep
    · obtain rfl := some.inj hStep
      exact h.allocTempBuffers hs hPoint choice
  | releaseWrite tempKeys =>
    simp only [hPoint] at hStep hHolds
    obtain rfl := some.inj hStep
    obtain rfl : tempKeys = σ.tempsOf id := hHolds
    exact h.submitL1Call hs (by rw [hPoint]; rfl) .finishWrite rfl
  | deleteTemps tempKeys =>
    simp only [hPoint] at hStep hHolds
    obtain rfl := some.inj hStep
    obtain rfl : tempKeys = σ.tempsOf id := hHolds
    exact h.submitL1Call hs (by rw [hPoint]; rfl) .delete trivial
  | register tempKeys tempObjs =>
    simp only [hPoint] at hStep hHolds
    have hStage : sub.point.stage = some .written := by rw [hPoint]; rfl
    cases hKind : sub.request.kind with
    | store =>
      simp only [hKind] at hStep
      obtain rfl := some.inj hStep
      refine h.register hs hStage hHolds .serdeToStore rfl (n := σ.serde.nextTaskId)
        choice.accepted ?_ ?_ ?_ (fun j keys hKeys => kept_setStore hKeys
          ⟨sub.request.keys, tempKeys, tempObjs⟩ ?_ ?_) ?_ ?_ ?_ <;>
        cases choice.accepted <;> first | rfl | exact ⟨rfl, rfl, rfl, rfl⟩
    | load =>
      simp only [hKind] at hStep
      obtain rfl := some.inj hStep
      refine h.register hs hStage hHolds .innerToLoad rfl (n := σ.inner.nextTaskId)
        choice.accepted ?_ ?_ ?_ (fun j keys hKeys => kept_setLoad hKeys
          ⟨sub.request.keys, sub.request.objects, tempKeys, tempObjs, Bitmap.zeros 0⟩ ?_ ?_)
        ?_ ?_ ?_ <;>
        cases choice.accepted <;> first | rfl | exact ⟨rfl, rfl, rfl, rfl⟩
  | unregister tempKeys =>
    simp only [hPoint] at hStep hHolds
    obtain rfl := some.inj hStep
    obtain rfl : tempKeys = σ.tempsOf id := hHolds
    exact h.unregister hs hPoint
  | finalize =>
    simp only [hPoint] at hStep
    obtain rfl := some.inj hStep
    exact h.submitFinalize hs hPoint _ rfl

theorem Coherent.drainQuiet (h : σ.Coherent) (id : Nat) (d d' : Option Stage)
    (hBeside : Beside σ τ) (hSame : SameBuffers σ τ) {m m' : Option Stage}
    (hMapped : Counted σ.wrapper.mapped τ.wrapper.mapped id m m')
    (hBefore : σ.drain.standing = d.map (id, ·)) (hAfter : τ.drain.standing = d'.map (id, ·))
    (hOld : Joined s m d) (hNew : Joined s' m' d')
    (hStay : s' = s ∨ (s' = none ∧ s ≠ some .released))
    (hKept : ∀ j, τ.wrapper.kept j ⊆ σ.wrapper.kept j) (hHolds : τ.drain.Holds σ.tempsOf) :
    τ.Coherent ∧ BufferStep σ label τ := by
  obtain ⟨hCoherent, hMoves⟩ := h.drainAct hBeside hMapped hBefore hAfter hOld hNew
    (fun hNone => hStay.elim (·.trans hNone) And.left) hKept hHolds
  exact ⟨hCoherent, .quiet hSame hBeside.tempKeys hMoves (hStay.imp_right Or.inl)⟩

theorem Coherent.goOn (h : σ.Coherent) (id : Nat) (d d' : Option Stage) (hBeside : Beside σ τ)
    (hSame : SameBuffers σ τ) (hWrapper : τ.wrapper = σ.wrapper)
    (hBefore : σ.drain.standing = d.map (id, ·)) (hAfter : τ.drain.standing = d'.map (id, ·))
    (hStay : d' = d ∨ (d' = none ∧ d ≠ some .released)) (hHolds : τ.drain.Holds σ.tempsOf) :
    τ.Coherent ∧ BufferStep σ label τ := by
  refine h.drainQuiet id d d' hBeside hSame (counted_same (by rw [hWrapper])) hBefore hAfter
    (Or.inr ⟨rfl, rfl⟩) (Or.inr ⟨rfl, rfl⟩) hStay (fun j => ?_) hHolds
  rw [hWrapper]
  exact List.Subset.refl _

theorem Coherent.take (h : σ.Coherent) (m : ReverseMap)
    (hGet : (m.get σ.wrapper).get? n = some id) (hBefore : σ.drain.standing = none)
    (hBeside : Beside σ τ) (hSame : SameBuffers σ τ)
    (hMapped : τ.wrapper.mapped = (m.put σ.wrapper ((m.get σ.wrapper).erase n)).mapped)
    (hKept : ∀ j, τ.wrapper.kept j ⊆ σ.wrapper.kept j)
    (hAfter : τ.drain.standing = some (id, m.stage) ∨ τ.drain.standing = none)
    (hHolds : τ.drain.Holds σ.tempsOf) : τ.Coherent ∧ BufferStep σ label τ := by
  have hCounted := m.counted_erase hGet
  rw [← hMapped] at hCounted
  rcases hAfter with hStanding | hNone
  · exact h.drainQuiet id none (some m.stage) hBeside hSame hCounted hBefore hStanding
      (Or.inl ⟨rfl, rfl⟩) (Or.inr ⟨rfl, rfl⟩) (Or.inl rfl) hKept hHolds
  · refine h.drainQuiet id none none hBeside hSame hCounted hBefore hNone
      (Or.inl ⟨rfl, rfl⟩) (Or.inr ⟨rfl, rfl⟩) (Or.inr ⟨rfl, ?_⟩) hKept hHolds
    cases m <;> exact nofun

theorem Coherent.put (h : σ.Coherent) (m : ReverseMap)
    (hBefore : σ.drain.standing = some (id, m.stage)) {rest : DrainLoop} (hTau : τ = { σ with
      wrapper := m.put σ.wrapper ((m.get σ.wrapper).set n id), drain := .loop rest }) :
    τ.Coherent ∧ BufferStep σ label τ := by
  subst hTau
  refine h.drainQuiet id (some m.stage) none ⟨rfl, rfl, ?_⟩ ⟨rfl, rfl, rfl, rfl⟩
    (m.counted_set σ.wrapper n id) hBefore rfl (Or.inr ⟨rfl, rfl⟩) (Or.inl ⟨rfl, rfl⟩)
    (Or.inl rfl) (fun j => ?_) trivial
  · cases m <;> rfl
  · cases m <;> exact List.Subset.refl _

theorem Coherent.drainL1Call (h : σ.Coherent) {t : Stage} {op : L1Op ObjectKey}
    {point : DrainPoint} (hBefore : σ.drain.standing = some (id, t))
    (hAfter : point.standing = s'.map (id, ·)) (hHolds : point.Holds σ.tempsOf)
    (hCall : StageCall (σ.tempsOf id) t op s') :
    ((σ.l1Call op).goto point).Coherent ∧ BufferStep σ label ((σ.l1Call op).goto point) := by
  have hMapped : Counted σ.wrapper.mapped σ.wrapper.mapped id none none := Counted.refl _ _ _
  obtain ⟨hCoherent, hMoves⟩ := h.drainAct (τ := (σ.l1Call op).goto point) (d := some t)
    ⟨rfl, rfl, rfl⟩ hMapped hBefore hAfter (Or.inr ⟨rfl, rfl⟩) (Or.inr ⟨rfl, rfl⟩)
    (fun hNone => by cases hNone) (fun _ => List.Subset.refl _) hHolds
  exact ⟨hCoherent, .call hCall ⟨rfl, rfl, rfl, rfl⟩ rfl hMoves⟩

theorem DrainPoint.standing_release (id : Nat) (done : Completion) (rest : DrainLoop)
    (temps : List ObjectKey) :
    (DrainPoint.release id done rest temps).standing = some (id, .written) ∨
      (DrainPoint.release id done rest temps).standing = none := by
  cases temps with
  | nil => exact Or.inr rfl
  | cons t ts => exact Or.inl rfl

theorem DrainPoint.holds_release {f : Nat → List ObjectKey} {id : Nat} {done : Completion}
    {rest : DrainLoop} {temps : List ObjectKey} (h : temps = f id) :
    (DrainPoint.release id done rest temps).Holds f := by
  cases temps with
  | nil => trivial
  | cons t ts => exact h

theorem Coherent.storeTask (h : σ.Coherent) {state : StoreTaskState}
    (hState : σ.wrapper.storeTasks.get? id = some state) : state.tempKeys = σ.tempsOf id :=
  h.kept id _ (mem_kept.mpr (Or.inl ⟨state, hState, rfl⟩))

theorem Coherent.loadTask (h : σ.Coherent) {state : LoadTaskState}
    (hState : σ.wrapper.loadTasks.get? id = some state) : state.tempKeys = σ.tempsOf id :=
  h.kept id _ (mem_kept.mpr (Or.inr ⟨state, hState, rfl⟩))

theorem Coherent.idle (h : σ.Coherent) (hBefore : σ.drain.standing = none) (hBeside : Beside σ τ)
    (hSame : SameBuffers σ τ) (hWrapper : τ.wrapper = σ.wrapper)
    (hAfter : τ.drain.standing = none) (hHolds : τ.drain.Holds σ.tempsOf) :
    τ.Coherent ∧ BufferStep σ label τ :=
  h.goOn 0 none none hBeside hSame hWrapper hBefore hAfter (Or.inl rfl) hHolds

theorem Coherent.goto (h : σ.Coherent) {point : DrainPoint} (hBefore : σ.drain.standing = none)
    (hAfter : point.standing = none) (hHolds : point.Holds σ.tempsOf) :
    (σ.goto point).Coherent ∧ BufferStep σ label (σ.goto point) :=
  h.idle hBefore ⟨rfl, rfl, rfl⟩ ⟨rfl, rfl, rfl, rfl⟩ rfl hAfter hHolds

theorem Coherent.storeDone (h : σ.Coherent) (hBefore : σ.drain.standing = none) (innerId : Nat)
    (result : L2StoreResult) (rest : DrainLoop) :
    (σ.storeDone innerId result rest).Coherent ∧
      BufferStep σ label (σ.storeDone innerId result rest) := by
  unfold SerdeSystem.storeDone
  split
  · exact h.goto hBefore rfl trivial
  · rename_i id hGet
    dsimp only
    split
    · rename_i state hState
      exact h.take .innerToStore hGet hBefore ⟨rfl, rfl, rfl⟩ ⟨rfl, rfl, rfl, rfl⟩ rfl
        (fun _ => List.Subset.refl _) (Or.inl rfl) (h.storeTask hState)
    · exact h.take .innerToStore hGet hBefore ⟨rfl, rfl, rfl⟩ ⟨rfl, rfl, rfl, rfl⟩ rfl
        (fun _ => List.Subset.refl _) (Or.inr rfl) trivial

theorem Coherent.serializeDone (h : σ.Coherent) (hBefore : σ.drain.standing = none)
    (serdeId : Nat) (result : Bool) (rest : DrainLoop) :
    (σ.serializeDone serdeId result rest).Coherent ∧
      BufferStep σ label (σ.serializeDone serdeId result rest) := by
  unfold SerdeSystem.serializeDone
  split
  · exact h.goto hBefore rfl trivial
  · rename_i id hGet
    dsimp only
    split
    · exact h.take .serdeToStore hGet hBefore ⟨rfl, rfl, rfl⟩ ⟨rfl, rfl, rfl, rfl⟩ rfl
        (fun _ => List.Subset.refl _) (Or.inr rfl) trivial
    · rename_i state hState
      split
      · exact h.take .serdeToStore hGet hBefore ⟨rfl, rfl, rfl⟩ ⟨rfl, rfl, rfl, rfl⟩ rfl
          (fun _ => List.Subset.refl _) (Or.inl rfl) (h.storeTask hState)
      · exact h.take .serdeToStore hGet hBefore ⟨rfl, rfl, rfl⟩ ⟨rfl, rfl, rfl, rfl⟩ rfl
          (fun _ => List.Subset.refl _) (DrainPoint.standing_release _ _ _ _)
          (DrainPoint.holds_release (h.storeTask hState))

theorem Coherent.loadDone (h : σ.Coherent) (hBefore : σ.drain.standing = none) (innerId : Nat)
    (bitmap : Bitmap) (rest : DrainLoop) :
    (σ.loadDone innerId bitmap rest).Coherent ∧
      BufferStep σ label (σ.loadDone innerId bitmap rest) := by
  unfold SerdeSystem.loadDone
  split
  · exact h.goto hBefore rfl trivial
  · rename_i id hGet
    dsimp only
    split
    · exact h.take .innerToLoad hGet hBefore ⟨rfl, rfl, rfl⟩ ⟨rfl, rfl, rfl, rfl⟩ rfl
        (fun _ => List.Subset.refl _) (Or.inr rfl) trivial
    · rename_i state hState
      have hTemps := h.loadTask hState
      split
      · exact h.take .innerToLoad hGet hBefore ⟨rfl, rfl, rfl⟩ ⟨rfl, rfl, rfl, rfl⟩ rfl
          (fun _ => List.Subset.refl _) (DrainPoint.standing_release _ _ _ _)
          (DrainPoint.holds_release hTemps)
      · refine h.take .innerToLoad hGet hBefore ⟨rfl, rfl, rfl⟩ ⟨rfl, rfl, rfl, rfl⟩ rfl
          (fun j keys hKeys => ?_) (Or.inl rfl) hTemps
        rcases kept_setLoad (w := σ.wrapper) hKeys { state with loadBitmap := bitmap } rfl rfl with
          hOld | ⟨rfl, rfl⟩
        · exact hOld
        · exact mem_kept.mpr (Or.inr ⟨state, hState, rfl⟩)

theorem Coherent.deserializeDone (h : σ.Coherent) (hBefore : σ.drain.standing = none)
    (serdeId : Nat) (result : Bool) (rest : DrainLoop) :
    (σ.deserializeDone serdeId result rest).Coherent ∧
      BufferStep σ label (σ.deserializeDone serdeId result rest) := by
  unfold SerdeSystem.deserializeDone
  split
  · exact h.goto hBefore rfl trivial
  · rename_i id hGet
    dsimp only
    split
    · exact h.take .serdeToLoad hGet hBefore ⟨rfl, rfl, rfl⟩ ⟨rfl, rfl, rfl, rfl⟩ rfl
        (fun _ => List.Subset.refl _) (Or.inr rfl) trivial
    · rename_i state hState
      exact h.take .serdeToLoad hGet hBefore ⟨rfl, rfl, rfl⟩ ⟨rfl, rfl, rfl, rfl⟩ rfl
        (fun _ => List.Subset.refl _) (DrainPoint.standing_release _ _ _ _)
        (DrainPoint.holds_release (h.loadTask hState))

theorem Coherent.drainLoop (h : σ.Coherent) (hBefore : σ.drain.standing = none) (rest : DrainLoop) :
    (σ.drainLoop rest).Coherent ∧ BufferStep σ label (σ.drainLoop rest) := by
  cases rest with
  | innerStore completed =>
    cases completed with
    | nil => exact h.goto hBefore rfl trivial
    | cons c completed => exact h.storeDone hBefore c.1 c.2 _
  | _ pending =>
    cases pending with
    | nil => exact h.goto hBefore rfl trivial
    | cons n pending =>
      simp only [SerdeSystem.drainLoop]
      split
      · exact h.goto hBefore rfl trivial
      · exact h.idle hBefore ⟨rfl, rfl, rfl⟩ ⟨rfl, rfl, rfl, rfl⟩ rfl rfl trivial

theorem Coherent.drainFinalize (h : σ.Coherent) {done : Completion} {rest : DrainLoop}
    (hBefore : σ.drain.standing = none)
    (hTau : τ = { σ with wrapper := σ.wrapper.finalize id done, drain := .loop rest }) :
    τ.Coherent ∧ BufferStep σ label τ := by
  subst hTau
  refine h.drainQuiet id none none ⟨rfl, rfl, ?_⟩ ⟨rfl, rfl, rfl, rfl⟩
    (counted_same ?_) hBefore rfl (Or.inr ⟨rfl, rfl⟩) (Or.inr ⟨rfl, rfl⟩) (Or.inl rfl)
    (fun j => kept_finalize _ _ _ j) trivial
  · cases done <;> rfl
  · cases done <;> rfl

theorem Coherent.drainCall (h : σ.Coherent) {accepted : Bool}
    (hStep : σ.drainCall accepted = some τ) : τ.Coherent ∧ BufferStep σ label τ := by
  have hHolds := h.drain
  unfold SerdeSystem.drainCall at hStep
  split at hStep
  case h_1 => cases hStep
  all_goals
    rename_i hDrain
    rw [hDrain] at hHolds
    obtain rfl := some.inj hStep
  case h_2 fd =>
    cases fd <;> exact h.idle (by rw [hDrain]; rfl) ⟨rfl, rfl, rfl⟩
      ⟨rfl, rfl, rfl, rfl⟩ rfl rfl trivial
  case h_3 rest => exact h.drainLoop (by rw [hDrain]; rfl) rest
  case h_4 serdeId result rest => exact h.serializeDone (by rw [hDrain]; rfl) serdeId result rest
  case h_5 id state rest =>
    have hState : state.tempKeys = σ.tempsOf id := hHolds
    rw [hState]
    exact h.drainL1Call (by rw [hDrain]; rfl) rfl hState .handOver
  case h_6 id state rest =>
    unfold SerdeSystem.submitInnerStore
    split
    · exact h.goOn id (some .reading) (some .reading) ⟨rfl, rfl, rfl⟩
        ⟨rfl, rfl, rfl, rfl⟩ rfl (by rw [hDrain]; rfl) rfl (Or.inl rfl) trivial
    · exact h.goOn id (some .reading) (some .reading) ⟨rfl, rfl, rfl⟩
        ⟨rfl, rfl, rfl, rfl⟩ rfl (by rw [hDrain]; rfl) rfl (Or.inl rfl) hHolds
  case h_7 id innerId rest => exact h.put .innerToStore (by rw [hDrain]; rfl) rfl
  case h_8 innerId bitmap rest => exact h.loadDone (by rw [hDrain]; rfl) innerId bitmap rest
  case h_9 id state rest =>
    unfold SerdeSystem.submitInnerDeserialize
    split
    · exact h.goOn id (some .written) (some .written) ⟨rfl, rfl, rfl⟩
        ⟨rfl, rfl, rfl, rfl⟩ rfl (by rw [hDrain]; rfl) rfl (Or.inl rfl) trivial
    · rcases DrainPoint.standing_release id (.load (Bitmap.zeros state.keys.length)) rest
        state.tempKeys with hAfter | hAfter
      · exact h.goOn id (some .written) (some .written) ⟨rfl, rfl, rfl⟩
          ⟨rfl, rfl, rfl, rfl⟩ rfl (by rw [hDrain]; rfl) hAfter (Or.inl rfl)
          (DrainPoint.holds_release hHolds)
      · exact h.goOn id (some .written) none ⟨rfl, rfl, rfl⟩ ⟨rfl, rfl, rfl, rfl⟩ rfl
          (by rw [hDrain]; rfl) hAfter (Or.inr ⟨rfl, nofun⟩) (DrainPoint.holds_release hHolds)
  case h_10 id serdeId rest => exact h.put .serdeToLoad (by rw [hDrain]; rfl) rfl
  case h_11 serdeId result rest => exact h.deserializeDone (by rw [hDrain]; rfl) serdeId result rest
  case h_12 id tempKeys done rest =>
    obtain rfl : tempKeys = σ.tempsOf id := hHolds
    exact h.drainL1Call (by rw [hDrain]; rfl) rfl trivial .finishRead
  case h_13 id tempKeys done rest =>
    obtain rfl : tempKeys = σ.tempsOf id := hHolds
    exact h.drainL1Call (by rw [hDrain]; rfl) rfl rfl .finishWrite
  case h_14 id tempKeys done rest =>
    obtain rfl : tempKeys = σ.tempsOf id := hHolds
    exact h.drainL1Call (by rw [hDrain]; rfl) rfl trivial .delete
  case h_15 id done rest => exact h.drainFinalize (by rw [hDrain]; rfl) rfl

/-- The step touches none of the places. -/
structure Outside (σ τ : SerdeSystem V) : Prop extends Beside σ τ where
  mapped : τ.wrapper.mapped = σ.wrapper.mapped
  kept : τ.wrapper.kept = σ.wrapper.kept
  drain : τ.drain = σ.drain

theorem Outside.drained (h : Outside σ τ) : τ.drained = σ.drained := by
  funext j t
  rw [SerdeSystem.drained, h.drain]
  rfl

theorem Coherent.outside (h : σ.Coherent) (hOutside : Outside σ τ) :
    τ.Coherent ∧ Moves σ τ 0 none none := by
  have hSubmitted : τ.submitted = σ.submitted := by
    funext j t
    rw [submitted, hOutside.submissions]
    rfl
  have hMoves : Moves σ τ 0 none none :=
    ((counted_same hSubmitted).add (counted_same hOutside.mapped) (Or.inl ⟨rfl, rfl⟩)
      (Or.inl ⟨rfl, rfl⟩)).add (counted_same hOutside.drained) (Or.inl ⟨rfl, rfl⟩)
      (Or.inl ⟨rfl, rfl⟩)
  refine ⟨h.act 0 (hMoves.total fun hNone => hNone) hOutside.tempKeys hOutside.nextTaskId
    (fun j _ => by rw [hOutside.submissions]) (fun s hs => ?_)
    (fun j keys hKeys => Or.inl (hOutside.kept ▸ hKeys)) ?_, hMoves⟩
  · rw [hOutside.kept]
    exact h.submission 0 s (hOutside.submissions ▸ hs)
  · rw [hOutside.drain]
    exact h.drain

theorem Coherent.enter (h : σ.Coherent)
    (hOthers : ∀ j, σ.wrapper.nextTaskId ≠ j → τ.submissions.get? j = σ.submissions.get? j)
    (hOwn : ∀ s, τ.submissions.get? σ.wrapper.nextTaskId = some s → s.point = .alloc)
    (hNext : τ.wrapper.nextTaskId = σ.wrapper.nextTaskId + 1)
    (hMapped : τ.wrapper.mapped = σ.wrapper.mapped) (hKept : τ.wrapper.kept = σ.wrapper.kept)
    (hDrain : τ.drain = σ.drain) (hTemps : τ.records.tempKeys = σ.records.tempKeys)
    (hSame : SameBuffers σ τ) : τ.Coherent ∧ BufferStep σ label τ := by
  obtain ⟨hNone, hNoTemps, hNoKept⟩ := h.fresh _ le_rfl
  have hNoSubmission : σ.submissions.get? σ.wrapper.nextTaskId = none := by
    rw [eq_none_iff_forall_ne_some]
    exact fun s hs => Nat.lt_irrefl _ (h.submission _ s hs).1
  have hDrained : τ.drained = σ.drained := by
    funext j t
    rw [drained, hDrain]
    rfl
  have hSubmitted := counted_submitted hOthers
  rw [hNoSubmission] at hSubmitted
  have hMoves : Moves σ τ σ.wrapper.nextTaskId none _ :=
    (hSubmitted.add (counted_same hMapped) (Or.inl ⟨rfl, rfl⟩) (Or.inl ⟨rfl, rfl⟩)).add
      (counted_same hDrained) (Or.inl ⟨rfl, rfl⟩) (Or.inl ⟨rfl, rfl⟩)
  generalize (τ.submissions.get? σ.wrapper.nextTaskId).bind (·.point.stage) = s' at hMoves
  have hTotal : ∀ j, σ.wrapper.nextTaskId ≠ j → τ.total j ≤ σ.total j := by
    intro j hj
    have hCount := fun t => (hMoves j t).1
    simp only [if_neg hj, Nat.add_zero] at hCount
    exact Nat.add_le_add (Nat.add_le_add (hCount _) (hCount _)) (hCount _)
  have hSameTemps := tempsOf_congr hTemps
  refine ⟨⟨fun j => ?_, fun j s hs => ?_, by rw [hSameTemps, hDrain]; exact h.drain,
    by rw [hSameTemps, hKept]; exact h.kept, fun j hj => ?_⟩,
    .quiet hSame hTemps hMoves (Or.inr (Or.inr hNoTemps))⟩
  · by_cases hj : σ.wrapper.nextTaskId = j
    · subst hj
      have hCount := fun t => (hMoves σ.wrapper.nextTaskId t).1
      have hWritten := hCount .written
      have hReleased := hCount .released
      have hReading := hCount .reading
      unfold total at hNone ⊢
      rcases s' with - | s'
      · simp [mark] at hWritten hReleased hReading
        omega
      · cases s' <;> simp [mark] at hWritten hReleased hReading <;> omega
    · exact (hTotal j hj).trans (h.single j)
  · rw [hNext, hKept, hSameTemps]
    by_cases hj : σ.wrapper.nextTaskId = j
    · subst hj
      rw [hOwn s hs]
      exact ⟨Nat.lt_succ_self _, hNoTemps, hNoKept⟩
    · obtain ⟨hBelow, hHolds⟩ := h.submission j s (hOthers j hj ▸ hs)
      exact ⟨Nat.lt_succ_of_lt hBelow, hHolds⟩
  · rw [hNext] at hj
    rw [hKept, hSameTemps]
    obtain ⟨hNothing, hFresh⟩ := h.fresh j (by omega)
    exact ⟨Nat.le_zero.mp (hNothing ▸ hTotal j (by omega)), hFresh⟩

theorem Coherent.submit (h : σ.Coherent) {request : Request} (hStep : σ.submit request = some τ) :
    τ.Coherent ∧ BufferStep σ label τ := by
  unfold SerdeSystem.submit at hStep
  split at hStep
  · cases hStep
  · dsimp only at hStep
    split at hStep
    · obtain rfl := some.inj hStep
      exact h.enter (fun _ _ => rfl) (fun s hs => absurd (h.submission _ s hs).1 (Nat.lt_irrefl _))
        rfl rfl rfl rfl rfl ⟨rfl, rfl, rfl, rfl⟩
    · obtain rfl := some.inj hStep
      refine h.enter (fun j hj => get?_set_ne _ hj _) (fun s hs => ?_) rfl rfl rfl rfl rfl
        ⟨rfl, rfl, rfl, rfl⟩
      obtain rfl := some.inj ((get?_set_self _ _ _).symm.trans hs)
      rfl

theorem Coherent.wake (h : σ.Coherent) {fd : Notifier} (hStep : σ.wake fd = some τ) :
    τ.Coherent ∧ BufferStep σ label τ := by
  unfold SerdeSystem.wake at hStep
  split at hStep
  · rename_i hDrain
    split at hStep
    · obtain rfl := some.inj hStep
      cases fd <;> exact h.idle (by rw [hDrain]; rfl) ⟨rfl, rfl, rfl⟩ ⟨rfl, rfl, rfl, rfl⟩ rfl rfl
        trivial
    · cases hStep
  · cases hStep

end SerdeSystem

/-- Steps of the store controller and of other clients of the manager. -/
def Label.isForeign {V : Type} : Label V → Bool
  | .storePop _ | .storeReserve | .storeFinish _ | .client _ => true
  | _ => false

namespace SerdeSystem

variable {V : Type} {σ τ : SerdeSystem V} {label : Label V} {codec : Codec V}

theorem Coherent.step (h : σ.Coherent) (hStep : σ.Step codec label τ) :
    τ.Coherent ∧ (BufferStep σ label τ ∨ (label.isForeign = true ∧
      τ.records.tempKeys = σ.records.tempKeys ∧ Moves σ τ 0 none none)) := by
  have hOwn : τ.Coherent ∧ BufferStep σ label τ → τ.Coherent ∧ (BufferStep σ label τ ∨
      (label.isForeign = true ∧ τ.records.tempKeys = σ.records.tempKeys ∧
        Moves σ τ 0 none none)) := fun hBoth => ⟨hBoth.1, Or.inl hBoth.2⟩
  have hOutside : Outside σ τ → SameBuffers σ τ ∨ label.isForeign = true → τ.Coherent ∧
      (BufferStep σ label τ ∨ (label.isForeign = true ∧
        τ.records.tempKeys = σ.records.tempKeys ∧ Moves σ τ 0 none none)) := by
    intro hOut hCase
    obtain ⟨hCoherent, hMoves⟩ := h.outside hOut
    exact ⟨hCoherent, hCase.imp (fun hSame => .quiet hSame hOut.tempKeys hMoves (Or.inl rfl))
      fun hForeign => ⟨hForeign, hOut.tempKeys, hMoves⟩⟩
  unfold Step at hStep
  cases label with
  | submit request => exact hOwn (h.submit hStep)
  | submitCall id choice => exact hOwn (h.submitCall hStep)
  | popCompletedStoreTasks =>
    obtain rfl := some.inj hStep
    exact hOutside ⟨⟨rfl, rfl, rfl⟩, rfl, rfl, rfl⟩ (Or.inl ⟨rfl, rfl, rfl, rfl⟩)
  | queryLoadResult id =>
    simp only [next, SerdeSystem.queryLoadResult] at hStep
    split at hStep
    all_goals
      obtain rfl := some.inj hStep
      exact hOutside ⟨⟨rfl, rfl, rfl⟩, rfl, rfl, rfl⟩ (Or.inl ⟨rfl, rfl, rfl, rfl⟩)
  | fill obj value =>
    obtain rfl := some.inj hStep
    exact hOutside ⟨⟨rfl, rfl, rfl⟩, rfl, rfl, rfl⟩ (Or.inl ⟨rfl, rfl, rfl, rfl⟩)
  | wake fd => exact hOwn (h.wake hStep)
  | drainCall accepted => exact hOwn (h.drainCall hStep)
  | serializeDone serdeId outputs | deserializeDone serdeId outputs =>
    obtain ⟨job, -, hStep⟩ := bind_eq_some_iff.mp hStep
    split at hStep
    · obtain rfl := some.inj hStep
      refine hOutside ⟨⟨rfl, ?_, rfl⟩, rfl, rfl, rfl⟩ (Or.inl ⟨rfl, rfl, ?_, ?_⟩) <;>
        (dsimp only; split <;> rfl)
    · cases hStep
  | innerStoreDone innerId result =>
    obtain ⟨job, -, rfl⟩ := map_eq_some_iff.mp hStep
    refine hOutside ⟨⟨rfl, ?_, rfl⟩, rfl, rfl, rfl⟩ (Or.inl ⟨rfl, rfl, ?_, ?_⟩) <;>
      (dsimp only; split <;> rfl)
  | innerLoadDone innerId bitmap buffers =>
    obtain ⟨job, -, rfl⟩ := map_eq_some_iff.mp hStep
    exact hOutside ⟨⟨rfl, rfl, rfl⟩, rfl, rfl, rfl⟩ (Or.inl ⟨rfl, rfl, rfl, rfl⟩)
  | storePop targets =>
    simp only [next, SerdeSystem.storePop] at hStep
    split at hStep
    · obtain rfl := some.inj hStep
      exact hOutside ⟨⟨rfl, rfl, rfl⟩, rfl, rfl, rfl⟩ (Or.inr rfl)
    · cases hStep
  | storeReserve =>
    simp only [next, SerdeSystem.storeReserve] at hStep
    split at hStep
    · cases hStep
    · obtain rfl := some.inj hStep
      exact hOutside ⟨⟨rfl, rfl, rfl⟩, rfl, rfl, rfl⟩ (Or.inr rfl)
  | storeFinish task =>
    obtain ⟨keys, -, rfl⟩ := map_eq_some_iff.mp hStep
    exact hOutside ⟨⟨rfl, rfl, rfl⟩, rfl, rfl, rfl⟩ (Or.inr rfl)
  | client op =>
    obtain rfl := some.inj hStep
    exact hOutside ⟨⟨rfl, rfl, rfl⟩, rfl, rfl, rfl⟩ (Or.inr rfl)

theorem coherent_init (m : L1Manager ObjectKey) (bytes : MemoryObj → Bytes)
    (kv : MemoryObj → V) : (init m bytes kv).Coherent where
  single _ := Nat.zero_le 1
  submission _ _ hs := by cases hs
  drain := trivial
  kept _ _ hKeys := by cases hKeys
  fresh _ _ := ⟨rfl, rfl, rfl⟩

end SerdeSystem

end LMCache.Serde
