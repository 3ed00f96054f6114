import LMCache.L1.Bystanders
import LMCache.Serde.TableSteps

/-!
# The temporary buffers of the serde wrapper

What the manager holds under the temporary keys of a task, stage by stage, and what the store
controller knows of them. Runs are restricted in three ways: `os.urandom` does not repeat itself,
the other clients of the manager can only delete temporary keys that the eviction listener was
told of, and the store controller does not reserve a temporary key between the two calls of its
release.
-/

namespace LMCache.Serde

open Lib L1Manager List Option

/-- What the manager holds under a temporary key, as far as the stage decides it. -/
def Stage.Fact (now : Nat) (o : Option L1ObjectState) : Stage → Prop
  | .written => ∀ e, o = some e → e.writeLock.counter = 1 ∧ e.readLock.counter = 0
  | .released => ∀ e, o = some e → e.isLocked now = false
  | .reading => True

namespace StoreController

/-- The controller may still reserve the key. -/
def Knows (c : StoreController) (k : ObjectKey) : Prop :=
  k ∈ c.pendingKeys ∨ ∃ keys ∈ c.targets, k ∈ keys

def Stored (c : StoreController) (k : ObjectKey) : Prop :=
  (∃ keys ∈ c.inFlightTasks, k ∈ keys) ∨ ∃ keys ∈ c.submitted, k ∈ keys

end StoreController

namespace SerdeSystem

variable {V : Type}

def releasedTemps (σ : SerdeSystem V) : List ObjectKey :=
  (σ.submissions.values.flatMap fun s =>
    match s.point with
    | .deleteTemps tempKeys => tempKeys
    | _ => []) ++
  match σ.drain with
  | .deleteTemps _ tempKeys _ _ => tempKeys
  | _ => []

/-- What a client that has no temporary keys can call, and the eviction of keys that a
listener was told of. -/
def permitted (σ : SerdeSystem V) : L1Op ObjectKey → Bool
  | .delete _ false | .touchKeys _ => true
  | op => op.keys.all fun k => k ∉ σ.records.temps

/-- Fresh random bytes, clients that keep to their own keys, and a store controller that does
not reserve a temporary key between the two calls of its release. -/
def Undisturbed (σ : SerdeSystem V) (label : Label V) : Prop :=
  ((σ.drawnKeys label).Nodup ∧ ∀ t ∈ σ.drawnKeys label, t ∉ σ.records.known) ∧
  match label with
  | .storeReserve => ∀ keys ∈ σ.controller.targets.head?, ∀ k ∈ keys, k ∉ σ.releasedTemps
  | .client op => σ.permitted op = true
  | _ => True

instance (σ : SerdeSystem V) (label : Label V) : Decidable (σ.Undisturbed label) := by
  unfold Undisturbed
  cases label <;> infer_instance

/-- The temporary keys, what the manager holds under them, and who knows them. -/
structure Buffers (σ : SerdeSystem V) : Prop where
  nodup : ∀ id, (σ.tempsOf id).Nodup
  disjoint : ∀ id id' t, t ∈ σ.tempsOf id → t ∈ σ.tempsOf id' → id = id'
  tempsKnown : ∀ id t, t ∈ σ.tempsOf id → t ∈ σ.records.known
  objectsKnown : ∀ k e, σ.l1.objects.get? k = some e → k ∈ σ.records.known
  controllerKnown : ∀ k, σ.controller.Knows k ∨ σ.controller.Stored k ∨
    k ∈ σ.records.readGrants → k ∈ σ.records.known
  fact : ∀ id s t, σ.count id s ≠ 0 → t ∈ σ.tempsOf id → s.Fact σ.l1.nowMs (σ.l1.objects.get? t)
  told : ∀ id t, t ∈ σ.tempsOf id → σ.controller.Knows t →
    σ.l1.objects.get? t = none ∨ σ.count id .released ≠ 0
  unread : ∀ id t, t ∈ σ.tempsOf id → ¬ σ.controller.Stored t ∧ t ∉ σ.records.readGrants

end SerdeSystem

section Calls

variable {m : L1Manager ObjectKey} {op : L1Op ObjectKey} {t : ObjectKey} {s : Stage}
  {s' : Option Stage} {temps : List ObjectKey}

theorem Stage.Fact.keptOrGone {now now' : Nat} {o o' : Option L1ObjectState}
    (h : s.Fact now o) (hKept : o' = o ∨ o' = none) (hNow : now ≤ now') : s.Fact now' o' := by
  rcases hKept with rfl | rfl
  · cases s with
    | written => exact h
    | released =>
      intro e he
      have hFree := h e he
      simp only [L1ObjectState.isLocked, TTLLock.isLocked, Bool.or_eq_false_iff,
        Bool.and_eq_false_iff, decide_eq_false_iff_not] at hFree ⊢
      omega
    | reading => trivial
  · cases s with
    | reading => trivial
    | _ => exact fun e he => by cases he

theorem finishWrite_released {keys : List ObjectKey} (hKeys : keys.Nodup) (ht : t ∈ keys)
    (h : Stage.Fact m.nowMs (m.objects.get? t) .written) :
    Stage.Fact m.nowMs ((m.finishWrite keys).manager.objects.get? t) .released := by
  intro e' he'
  rw [L1Manager.finishWrite] at he'
  dsimp only at he'
  rw [Dict.get?_updateEach _ hKeys, if_pos ht] at he'
  cases hEntry : m.objects.get? t with
  | none =>
    rw [hEntry] at he'
    cases he'
  | some e =>
    obtain ⟨hCount, hRead⟩ := h e hEntry
    have hNotRead : ∀ now, e.readLock.isLocked now = false := by
      intro now
      simp [TTLLock.isLocked, hRead]
    rw [hEntry, L1Manager.finishWriteKey] at he'
    split at he'
    · rename_i hExpired
      obtain rfl := some.inj he'
      simpa [L1ObjectState.isLocked, hNotRead] using hExpired
    · rw [hNotRead] at he'
      simp only [Bool.false_eq_true, if_false] at he'
      obtain rfl := some.inj he'
      simp [L1ObjectState.isLocked, TTLLock.isLocked, TTLLock.unlock, hCount, hRead]

theorem delete_released {keys : List ObjectKey} (hKeys : keys.Nodup) (ht : t ∈ keys)
    (h : Stage.Fact m.nowMs (m.objects.get? t) .released) :
    (m.delete keys false).manager.objects.get? t = none := by
  rw [L1Manager.delete]
  dsimp only
  rw [Dict.get?_updateEach _ hKeys, if_pos ht]
  cases hEntry : m.objects.get? t with
  | none => rfl
  | some e =>
    have hFree := h e hEntry
    simp [L1Manager.deleteKey, hFree]

theorem StageCall.fact (hCall : StageCall temps s op s') (hTemps : temps.Nodup) (ht : t ∈ temps)
    (h : s.Fact m.nowMs (m.objects.get? t)) (r : Stage) (hr : s' = some r) :
    r.Fact (m.apply op).manager.nowMs ((m.apply op).manager.objects.get? t) := by
  cases hCall with
  | finishWrite =>
    obtain rfl := some.inj hr
    exact finishWrite_released hTemps ht h
  | handOver =>
    obtain rfl := some.inj hr
    trivial
  | _ => cases hr

theorem StageCall.keys (hCall : StageCall temps s op s') : op.keys = temps := by
  cases hCall <;> rfl

theorem StageCall.absent (hCall : StageCall temps s op s') (hTemps : temps.Nodup)
    (hNone : m.objects.get? t = none) : (m.apply op).manager.objects.get? t = none := by
  by_cases ht : t ∈ temps
  · cases hCall with
    | delete => exact (delete_keptOrGone m temps false t).elim (·.trans hNone) id
    | _ =>
      refine (Dict.get?_updateEach _ hTemps _ _).trans ?_
      rw [if_pos ht, hNone]
      rfl
  · have hNot : t ∉ op.keys := by
      rw [hCall.keys]
      exact ht
    exact (apply_keptOrGone hNot).elim (·.trans hNone) id

end Calls

namespace SerdeSystem

variable {V : Type} {σ τ : SerdeSystem V} {label : Label V} {op : L1Op ObjectKey}
  {k : ObjectKey} {id j : Nat} {s : Stage} {s' : Option Stage}

theorem Moves.other (h : Moves σ τ id (some s) s') (hj : id ≠ j) (t : Stage) :
    τ.count j t ≤ σ.count j t := by
  have hLe := (h j t).1
  rwa [if_neg hj, if_neg hj] at hLe

theorem Moves.other_released {s : Option Stage} (h : Moves σ τ id s s') (hj : id ≠ j) :
    τ.count j .released = σ.count j .released := by
  have hEq := (h j .released).2 rfl
  rwa [if_neg hj, if_neg hj] at hEq

theorem Coherent.only (h : σ.Coherent) {t : Stage} (hs : σ.count id s ≠ 0)
    (ht : σ.count id t ≠ 0) : s = t := by
  have hSingle := h.single id
  unfold total at hSingle
  cases s <;> cases t <;> first | rfl | omega

theorem Moves.called {temps : List ObjectKey} (h : Moves σ τ id (some s) s') (hσ : σ.Coherent)
    (hCall : StageCall temps s op s') :
    σ.count id s ≠ 0 ∧ (∀ t, τ.count id t ≠ 0 → s' = some t) ∧
      (s' = some .released → τ.count id .released ≠ 0) := by
  have hStage : s' ≠ some s := by cases hCall <;> decide
  have hStood : σ.count id s ≠ 0 := by
    have hLe := (h id s).1
    rw [if_pos rfl, if_pos rfl, mark, mark, if_pos rfl, if_neg hStage] at hLe
    omega
  refine ⟨hStood, fun t ht => ?_, fun hReleased => ?_⟩
  · by_contra hNot
    have hLe := (h id t).1
    rw [if_pos rfl, if_pos rfl, mark, mark, if_neg hNot] at hLe
    have hSame : s = t := hσ.only hStood (by split at hLe <;> omega)
    subst hSame
    have hSingle : σ.count id s ≤ 1 := by
      have hTotal := hσ.single id
      unfold SerdeSystem.total at hTotal
      cases s <;> omega
    rw [if_pos rfl] at hLe
    omega
  · have hEq := (h id .released).2 rfl
    rw [if_pos rfl, if_pos rfl, mark, mark, hReleased, if_pos rfl,
      if_neg fun hSame => hStage (hReleased.trans hSame.symm)] at hEq
    omega

theorem l1Call_knows (h : (σ.l1Call op).controller.Knows k) :
    σ.controller.Knows k ∨ ∃ named, op = .finishWrite named ∧ k ∈ named := by
  rcases h with hPending | hTargets
  · rcases mem_append.mp hPending with hOld | hNew
    · exact Or.inl (Or.inl hOld)
    · obtain ⟨event, hEvent, hk⟩ := mem_flatMap.mp hNew
      cases event with
      | writeFinished keys => exact Or.inr (mem_writeFinished hEvent hk)
      | _ => cases hk
  · exact Or.inl (Or.inr hTargets)

theorem l1Call_readGrants (h : k ∈ (σ.l1Call op).records.readGrants) :
    k ∈ σ.records.readGrants ∨ ∃ keys readLocks, op = .reserveRead keys readLocks ∧
      k ∈ keys ∧ reserved (σ.l1.reserveRead keys readLocks).reply k = true := by
  rcases mem_append.mp h with hOld | hNew
  · exact Or.inl hOld
  · right
    cases op with
    | reserveRead keys readLocks =>
      obtain ⟨hk, hReserved⟩ := mem_filter.mp hNew
      exact ⟨keys, readLocks, rfl, hk, hReserved⟩
    | _ => cases hNew

theorem l1Call_known : (σ.l1Call op).records.known = σ.records.known ++ op.keys := rfl

theorem Buffers.objectsKnown_call (h : σ.Buffers) (k : ObjectKey) (e : L1ObjectState)
    (he : (σ.l1Call op).l1.objects.get? k = some e) : k ∈ (σ.l1Call op).records.known := by
  rw [l1Call_known]
  by_cases hk : k ∈ op.keys
  · exact mem_append_right _ hk
  · refine mem_append_left _ ?_
    rcases apply_keptOrGone (m := σ.l1) hk with hKept | hGone
    · exact h.objectsKnown k e (hKept.symm.trans he)
    · cases hGone.symm.trans he

theorem Buffers.controllerKnown_call (h : σ.Buffers) (k : ObjectKey)
    (hk : (σ.l1Call op).controller.Knows k ∨ (σ.l1Call op).controller.Stored k ∨
      k ∈ (σ.l1Call op).records.readGrants) : k ∈ (σ.l1Call op).records.known := by
  rw [l1Call_known]
  rcases hk with hKnows | hStored | hGrants
  · rcases l1Call_knows hKnows with hOld | ⟨named, rfl, hNamed⟩
    · exact mem_append_left _ (h.controllerKnown k (Or.inl hOld))
    · exact mem_append_right _ hNamed
  · exact mem_append_left _ (h.controllerKnown k (Or.inr (Or.inl hStored)))
  · rcases l1Call_readGrants hGrants with hOld | ⟨keys, readLocks, rfl, hNamed, -⟩
    · exact mem_append_left _ (h.controllerKnown k (Or.inr (Or.inr hOld)))
    · exact mem_append_right _ hNamed

/-- A step that moves no task to or from the release, at most removes entries of temporary
keys, and shows none of them to the store controller. -/
theorem Buffers.beside (h : σ.Buffers) (hTemps : τ.records.tempKeys = σ.records.tempKeys)
    (hCount : ∀ j t, σ.tempsOf j ≠ [] → τ.count j t ≤ σ.count j t ∧
      (t = .released → τ.count j t = σ.count j t))
    (hKept : ∀ id t, t ∈ σ.tempsOf id → σ.l1.KeptOrGone τ.l1 t)
    (hNow : σ.l1.nowMs ≤ τ.l1.nowMs) (hKnown : ∀ k ∈ σ.records.known, k ∈ τ.records.known)
    (hObjects : ∀ k e, τ.l1.objects.get? k = some e → k ∈ τ.records.known)
    (hController : ∀ k, τ.controller.Knows k ∨ τ.controller.Stored k ∨
      k ∈ τ.records.readGrants → k ∈ τ.records.known)
    (hKnows : ∀ id t, t ∈ σ.tempsOf id → τ.controller.Knows t → σ.controller.Knows t)
    (hUnread : ∀ id t, t ∈ σ.tempsOf id →
      ¬ τ.controller.Stored t ∧ t ∉ τ.records.readGrants) : τ.Buffers := by
  have hSame := tempsOf_congr hTemps
  refine ⟨?_, ?_, ?_, hObjects, hController, ?_, ?_, ?_⟩ <;> rw [hSame]
  · exact h.nodup
  · exact h.disjoint
  · exact fun id t ht => hKnown t (h.tempsKnown id t ht)
  · intro id s t hs ht
    have hLe := (hCount id s (ne_nil_of_mem ht)).1
    exact (h.fact id s t (by omega) ht).keptOrGone (hKept id t ht) hNow
  · intro id t ht hk
    rcases h.told id t ht (hKnows id t ht hk) with hNone | hReleased
    · exact Or.inl ((hKept id t ht).elim (·.trans hNone) fun hGone => hGone)
    · exact Or.inr ((hCount id _ (ne_nil_of_mem ht)).2 rfl ▸ hReleased)
  · exact hUnread

theorem Buffers.quiet (h : σ.Buffers) (hSame : SameBuffers σ τ)
    (hTemps : τ.records.tempKeys = σ.records.tempKeys)
    {s : Option Stage} (hMoves : Moves σ τ id s s')
    (hStage : s' = s ∨ (s' = none ∧ s ≠ some .released) ∨ σ.tempsOf id = []) :
    τ.Buffers := by
  refine h.beside hTemps ?_ (fun _ _ _ => Or.inl (by rw [hSame.l1])) (by rw [hSame.l1])
    (by rw [hSame.known]; exact fun _ hk => hk) ?_ ?_ ?_ ?_
  · intro j t hNe
    have hAt := hMoves j t
    by_cases hj : id = j
    · subst hj
      rw [if_pos rfl, if_pos rfl] at hAt
      rcases hStage with rfl | ⟨rfl, hNot⟩ | hNone
      · exact ⟨by omega, fun ht => by have := hAt.2 ht; omega⟩
      · have hNone : mark none t = 0 := rfl
        rw [hNone] at hAt
        refine ⟨by omega, fun ht => ?_⟩
        have hEq := hAt.2 ht
        rw [ht, mark, if_neg hNot] at hEq
        rw [ht]
        exact hEq
      · exact absurd hNone hNe
    · rw [if_neg hj, if_neg hj] at hAt
      exact hAt
  · rw [hSame.l1, hSame.known]
    exact h.objectsKnown
  · rw [hSame.controller, hSame.known, hSame.readGrants]
    exact h.controllerKnown
  · rw [hSame.controller]
    exact fun _ _ _ hk => hk
  · rw [hSame.controller, hSame.readGrants]
    exact h.unread

theorem Buffers.call (h : σ.Buffers) (hCoherent : σ.Coherent)
    (hCall : StageCall (σ.tempsOf id) s op s') (hSame : SameBuffers (σ.l1Call op) τ)
    (hTemps : τ.records.tempKeys = σ.records.tempKeys) (hMoves : Moves σ τ id (some s) s') :
    τ.Buffers := by
  obtain ⟨hStood, hOnly, hReleases⟩ := hMoves.called hCoherent hCall
  have hNodup := h.nodup id
  have hOther : ∀ {j t}, id ≠ j → t ∈ σ.tempsOf j → t ∉ op.keys := by
    intro j t hj ht hMem
    rw [hCall.keys] at hMem
    exact hj (h.disjoint id j t hMem ht)
  have hTempsOf := tempsOf_congr hTemps
  refine ⟨?_, ?_, ?_, ?_, ?_, ?_, ?_, ?_⟩ <;> try rw [hTempsOf]
  · exact h.nodup
  · exact h.disjoint
  · intro j t ht
    rw [hSame.known]
    exact mem_append_left _ (h.tempsKnown j t ht)
  · rw [hSame.l1, hSame.known]
    exact h.objectsKnown_call
  · rw [hSame.controller, hSame.known, hSame.readGrants]
    exact h.controllerKnown_call
  · intro j r t hr ht
    rw [hSame.l1]
    by_cases hj : id = j
    · subst hj
      exact hCall.fact hNodup ht (h.fact id s t hStood ht) r (hOnly r hr)
    · have hLe := hMoves.other hj r
      exact (h.fact j r t (by omega) ht).keptOrGone
        (apply_keptOrGone (hOther hj ht)) (σ.l1.apply_monotone op).1
  · intro j t ht hKnows
    rw [hSame.controller] at hKnows
    rw [hSame.l1]
    by_cases hFinish : ∃ named, op = .finishWrite named ∧ t ∈ named
    · obtain ⟨named, rfl, hNamed⟩ := hFinish
      have hMem : t ∈ σ.tempsOf id := hCall.keys ▸ hNamed
      obtain rfl := h.disjoint j id t ht hMem
      refine Or.inr (hReleases ?_)
      cases hCall
      rfl
    · rcases h.told j t ht ((l1Call_knows hKnows).resolve_right hFinish) with hNone | hReleased
      · exact Or.inl (hCall.absent hNodup hNone)
      · by_cases hj : id = j
        · subst hj
          obtain rfl := hCoherent.only hReleased hStood
          cases hCall
          exact Or.inl (delete_released hNodup ht (h.fact id _ t hStood ht))
        · exact Or.inr (hMoves.other_released hj ▸ hReleased)
  · intro j t ht
    rw [hSame.controller, hSame.readGrants]
    refine ⟨(h.unread j t ht).1, fun hGrant => ?_⟩
    rcases l1Call_readGrants hGrant with hOld | ⟨keys, readLocks, hOp, -⟩
    · exact (h.unread j t ht).2 hOld
    · cases hCall <;> cases hOp

theorem Buffers.alloc (h : σ.Buffers) (hCoherent : σ.Coherent) {outcome : AllocOutcome}
    {isTemporary : List Bool} (hSame : SameBuffers
      (σ.l1Call (.reserveWrite (σ.drawnKeys label) isTemporary .new outcome)) τ)
    (hTemps : τ.tempsOf id = (σ.drawnKeys label).filter
      (reserved (σ.l1.reserveWrite (σ.drawnKeys label) isTemporary .new outcome).reply))
    (hOthers : ∀ j, id ≠ j → τ.tempsOf j = σ.tempsOf j) (hStood : σ.count id .written ≠ 0)
    (hMoves : Moves σ τ id (some .written) s') (hStage : s' ≠ some .released)
    (hFresh : (σ.drawnKeys label).Nodup ∧ ∀ t ∈ σ.drawnKeys label, t ∉ σ.records.known) :
    τ.Buffers := by
  have hDrawn : ∀ t ∈ τ.tempsOf id, t ∈ σ.drawnKeys label := by
    intro t ht
    rw [hTemps] at ht
    exact (mem_filter.mp ht).1
  have hNew : ∀ t ∈ τ.tempsOf id, t ∉ σ.records.known :=
    fun t ht => hFresh.2 t (hDrawn t ht)
  -- what the controller knows was named before, so it knows no new key
  have hKnows : ∀ k, τ.controller.Knows k → σ.controller.Knows k := by
    intro k hk
    rw [hSame.controller] at hk
    exact (l1Call_knows hk).resolve_right fun ⟨_, hOp, _⟩ => by cases hOp
  have hGrants : ∀ k, k ∈ τ.records.readGrants → k ∈ σ.records.readGrants := by
    intro k hk
    rw [hSame.readGrants] at hk
    exact (l1Call_readGrants hk).resolve_right fun ⟨_, _, hOp, _⟩ => by cases hOp
  have hStored : ∀ k, τ.controller.Stored k → σ.controller.Stored k := by
    intro k hk
    rwa [hSame.controller] at hk
  have hOldTemps : ∀ {j t}, id ≠ j → t ∈ σ.tempsOf j → t ∉ σ.drawnKeys label :=
    fun _ ht hMem => hFresh.2 _ hMem (h.tempsKnown _ _ ht)
  have hKept : ∀ {t}, t ∉ σ.drawnKeys label → σ.l1.KeptOrGone
      (σ.l1.apply (.reserveWrite (σ.drawnKeys label) isTemporary .new outcome)).manager t :=
    fun ht => apply_keptOrGone ht
  refine ⟨?_, ?_, ?_, ?_, ?_, ?_, ?_, ?_⟩
  · intro j
    by_cases hj : id = j
    · subst hj
      rw [hTemps]
      exact hFresh.1.filter _
    · rw [hOthers j hj]
      exact h.nodup j
  · intro j j' t ht ht'
    by_cases hj : id = j
    · by_cases hj' : id = j'
      · exact hj.symm.trans hj'
      · subst hj
        rw [hOthers j' hj'] at ht'
        exact absurd (h.tempsKnown j' t ht') (hNew t ht)
    · rw [hOthers j hj] at ht
      by_cases hj' : id = j'
      · subst hj'
        exact absurd (h.tempsKnown j t ht) (hNew t ht')
      · rw [hOthers j' hj'] at ht'
        exact h.disjoint j j' t ht ht'
  · intro j t ht
    rw [hSame.known]
    by_cases hj : id = j
    · subst hj
      exact mem_append_right _ (hDrawn t ht)
    · rw [hOthers j hj] at ht
      exact mem_append_left _ (h.tempsKnown j t ht)
  · rw [hSame.l1, hSame.known]
    exact h.objectsKnown_call
  · rw [hSame.controller, hSame.known, hSame.readGrants]
    exact h.controllerKnown_call
  · intro j s t hs ht
    rw [hSame.l1]
    by_cases hj : id = j
    · subst hj
      cases s with
      | written =>
        have hAbsent : σ.l1.objects.get? t = none := by
          rw [eq_none_iff_forall_ne_some]
          exact fun e he => hNew t ht (h.objectsKnown t e he)
        intro e he
        obtain ⟨obj, flag, -, rfl⟩ := reserveWrite_created hAbsent he
        refine ⟨?_, rfl⟩
        change ((TTLLock.new _).lock _).counter = 1
        simp [TTLLock.lock, TTLLock.new]
      | released =>
        have hEq := (hMoves id .released).2 rfl
        simp only [if_true, mark, hStage, if_false, Option.some.injEq, reduceCtorEq] at hEq
        exact absurd (hCoherent.only hStood (by omega : σ.count id .released ≠ 0)) (by decide)
      | reading => trivial
    · rw [hOthers j hj] at ht
      have hLe := hMoves.other hj s
      exact (h.fact j s t (by omega) ht).keptOrGone (hKept (hOldTemps hj ht))
        (σ.l1.apply_monotone _).1
  · intro j t ht hKnown
    have hOld := hKnows t hKnown
    by_cases hj : id = j
    · subst hj
      exact absurd (h.controllerKnown t (Or.inl hOld)) (hNew t ht)
    · rw [hOthers j hj] at ht
      rw [hSame.l1]
      rcases h.told j t ht hOld with hAbsent | hReleased
      · exact Or.inl ((hKept (hOldTemps hj ht)).elim (·.trans hAbsent) fun hGone => hGone)
      · exact Or.inr (hMoves.other_released hj ▸ hReleased)
  · intro j t ht
    by_cases hj : id = j
    · subst hj
      exact ⟨fun hk => hNew t ht (h.controllerKnown t (Or.inr (Or.inl (hStored t hk)))),
        fun hk => hNew t ht (h.controllerKnown t (Or.inr (Or.inr (hGrants t hk))))⟩
    · rw [hOthers j hj] at ht
      exact ⟨fun hk => (h.unread j t ht).1 (hStored t hk),
        fun hk => (h.unread j t ht).2 (hGrants t hk)⟩

end SerdeSystem

end LMCache.Serde
