import LMCache.Serde.Buffers

/-!
# Privacy of the temporary buffers

The store controller is told of a temporary key when `_release_write_temps` finishes its
write, and finds it in the manager until the `delete` that follows. Runs in which it does not
reserve such a key in between keep every temporary buffer to the wrapper. The release of a
serialized object has no such gap: `finish_write_and_reserve_read` tells nobody, and the
`finish_read` that ends the store also removes the object.
-/

namespace LMCache.Serde

open Lib List Option

namespace SerdeSystem

variable {V : Type} {σ τ : SerdeSystem V} {label : Label V} {op : L1Op ObjectKey}
  {k : ObjectKey}

theorem mem_temps {id : Nat} {t : ObjectKey} (ht : t ∈ σ.tempsOf id) : t ∈ σ.records.temps := by
  unfold tempsOf Records.tempsOf at ht
  cases hEntry : σ.records.tempKeys.get? id with
  | none =>
    rw [hEntry] at ht
    cases ht
  | some temps =>
    rw [hEntry] at ht
    exact mem_flatten.mpr ⟨temps, Dict.mem_values_iff.mpr ⟨id, hEntry⟩, ht⟩

theorem Coherent.mem_releasedTemps (h : σ.Coherent) {id : Nat} {t : ObjectKey}
    (hReleased : σ.count id .released ≠ 0) (ht : t ∈ σ.tempsOf id) : t ∈ σ.releasedTemps := by
  by_cases hSubmitted : (σ.submissions.get? id).bind (·.point.stage) = some .released
  · obtain ⟨s, hs, hStage⟩ := bind_eq_some_iff.mp hSubmitted
    have hHolds := (h.submission id s hs).2
    refine mem_append_left _ (mem_flatMap.mpr ⟨s, Dict.mem_values_iff.mpr ⟨id, hs⟩, ?_⟩)
    cases hPoint : s.point with
    | deleteTemps tempKeys =>
      rw [hPoint] at hHolds
      exact hHolds ▸ ht
    | _ =>
      rw [hPoint] at hStage
      cases hStage
  · have hDrained : σ.drain.standing = some (id, .released) := by
      by_contra hNot
      refine hReleased ?_
      rw [count, submitted, drained, if_neg hSubmitted, if_neg hNot]
      rfl
    have hHolds := h.drain
    refine mem_append_right _ ?_
    cases hPoint : σ.drain with
    | deleteTemps i tempKeys done rest =>
      rw [hPoint] at hHolds hDrained
      obtain rfl : i = id := congrArg Prod.fst (some.inj hDrained)
      exact hHolds ▸ ht
    | _ =>
      rw [hPoint] at hDrained
      cases hDrained

theorem Moves.still (h : Moves σ τ 0 none none) (j : Nat) (t : Stage) :
    τ.count j t ≤ σ.count j t ∧ (t = .released → τ.count j t = σ.count j t) := by
  have hAt := h j t
  simpa [mark] using hAt

theorem Buffers.storePop (h : σ.Buffers) {targets : List (List ObjectKey)}
    (hStep : σ.storePop targets = some τ) (hMoves : Moves σ τ 0 none none)
    (hTemps : τ.records.tempKeys = σ.records.tempKeys) : τ.Buffers := by
  unfold SerdeSystem.storePop at hStep
  split at hStep
  · rename_i hPending
    obtain rfl := some.inj hStep
    have hKnows : ∀ k, StoreController.Knows ⟨[], targets, σ.controller.inFlightTasks,
        σ.controller.submitted⟩ k → σ.controller.Knows k := by
      rintro k (hNone | ⟨keys, hKeys, hk⟩)
      · cases hNone
      · exact Or.inl (hPending.2 keys hKeys k hk)
    refine h.beside hTemps (fun j t _ => hMoves.still j t) (fun _ _ _ => Or.inl rfl)
      (Nat.le_refl _) (fun _ hk => hk) h.objectsKnown ?_ (fun _ t _ ht => hKnows t ht) h.unread
    intro k hk
    exact h.controllerKnown k (hk.imp_left (hKnows k))
  · cases hStep

variable {c : StoreController} {rest : List (List ObjectKey)}

theorem submitStore_stored {successfulKeys : List ObjectKey}
    (h : (c.submitStore rest successfulKeys).Stored k) : c.Stored k ∨ k ∈ successfulKeys := by
  unfold StoreController.submitStore at h
  split at h
  · exact Or.inl h
  · rcases h with ⟨keys, hKeys, hk⟩ | ⟨keys, hKeys, hk⟩ <;>
      rcases mem_append.mp hKeys with hOld | hNew
    · exact Or.inl (Or.inl ⟨keys, hOld, hk⟩)
    · exact Or.inr (mem_singleton.mp hNew ▸ hk)
    · exact Or.inl (Or.inr ⟨keys, hOld, hk⟩)
    · exact Or.inr (mem_singleton.mp hNew ▸ hk)

theorem submitStore_knows {keys : List ObjectKey} {successfulKeys : List ObjectKey}
    (hTargets : c.targets = keys :: rest) (h : (c.submitStore rest successfulKeys).Knows k) :
    c.Knows k := by
  have hKnows : k ∈ c.pendingKeys ∨ ∃ named ∈ rest, k ∈ named := by
    unfold StoreController.submitStore at h
    split at h <;> exact h
  refine hKnows.imp_right fun ⟨named, hNamed, hk⟩ => ⟨named, ?_, hk⟩
  rw [hTargets]
  exact mem_cons_of_mem _ hNamed

variable {m : L1Manager ObjectKey}

theorem not_reserved_absent (keys : List ObjectKey) (readLocks : Nat)
    (hNone : m.objects.get? k = none) :
    reserved (m.reserveRead keys readLocks).reply k = false := by
  unfold reserved
  cases hReply : (m.reserveRead keys readLocks).reply.get? k with
  | none => rfl
  | some r =>
    rw [(L1Manager.reserveRead_absent keys readLocks hNone).2 r hReply]

/-- The store controller reserves no temporary key that is between the two calls of its
release, and the others are no longer there. -/
theorem Buffers.storeReserve (h : σ.Buffers) (hCoherent : σ.Coherent)
    (hStep : σ.storeReserve = some τ) (hMoves : Moves σ τ 0 none none)
    (hTemps : τ.records.tempKeys = σ.records.tempKeys)
    (hGap : ∀ keys ∈ σ.controller.targets.head?, ∀ k ∈ keys, k ∉ σ.releasedTemps) :
    τ.Buffers := by
  unfold SerdeSystem.storeReserve at hStep
  split at hStep
  · cases hStep
  · rename_i keys rest hTargets
    obtain rfl := some.inj hStep
    have hAbsent : ∀ id t, t ∈ σ.tempsOf id → t ∈ keys → σ.l1.objects.get? t = none := by
      intro id t ht hMem
      have hKnows : σ.controller.Knows t := Or.inr ⟨keys, by rw [hTargets]; simp, hMem⟩
      refine (h.told id t ht hKnows).resolve_right fun hReleased => ?_
      exact hGap keys (by rw [hTargets]; rfl) t hMem (hCoherent.mem_releasedTemps hReleased ht)
    have hFree : ∀ id t, t ∈ σ.tempsOf id →
        t ∉ keys.filter (reserved (σ.l1.reserveRead keys 1).reply) := by
      intro id t ht hMem
      obtain ⟨hKey, hReserved⟩ := mem_filter.mp hMem
      rw [not_reserved_absent keys 1 (hAbsent id t ht hKey)] at hReserved
      cases hReserved
    have hCall : ∀ k, (σ.l1Call (.reserveRead keys 1)).controller.Knows k → σ.controller.Knows k :=
      fun k hk => (l1Call_knows hk).resolve_right fun ⟨_, hOp, _⟩ => by cases hOp
    refine h.beside hTemps (fun j t _ => hMoves.still j t) ?_ (σ.l1.apply_monotone _).1
      (fun k hk => mem_append_left _ hk) h.objectsKnown_call ?_ ?_ ?_
    · intro id t ht
      by_cases hKey : t ∈ keys
      · exact Or.inr (L1Manager.reserveRead_absent keys 1 (hAbsent id t ht hKey)).1
      · have hNot : t ∉ (L1Op.reserveRead keys 1 : L1Op ObjectKey).keys := hKey
        exact L1Manager.apply_keptOrGone hNot
    · rintro k (hKnows | hStored | hGrants)
      · exact h.controllerKnown_call k (Or.inl (submitStore_knows hTargets hKnows))
      · rcases submitStore_stored hStored with hOld | hNew
        · exact h.controllerKnown_call k (Or.inr (Or.inl hOld))
        · exact mem_append_right _ (mem_filter.mp hNew).1
      · exact h.controllerKnown_call k (Or.inr (Or.inr hGrants))
    · intro id t ht hKnows
      exact hCall t (submitStore_knows hTargets hKnows)
    · intro id t ht
      refine ⟨fun hStored => ?_, fun hGrant => ?_⟩
      · rcases submitStore_stored hStored with hOld | hNew
        · exact (h.unread id t ht).1 hOld
        · exact hFree id t ht hNew
      · rcases mem_append.mp hGrant with hOld | hNew
        · exact (h.unread id t ht).2 hOld
        · exact hFree id t ht hNew

theorem Buffers.storeFinish (h : σ.Buffers) {task : Nat}
    (hStep : σ.storeFinish task = some τ) (hMoves : Moves σ τ 0 none none)
    (hTemps : τ.records.tempKeys = σ.records.tempKeys) : τ.Buffers := by
  obtain ⟨keys, hKeys, rfl⟩ := map_eq_some_iff.mp hStep
  have hInFlight : keys ∈ σ.controller.inFlightTasks := mem_of_getElem? hKeys
  have hKnows : ∀ k, (σ.l1Call (.finishRead keys 1)).controller.Knows k → σ.controller.Knows k :=
    fun k hk => (l1Call_knows hk).resolve_right fun ⟨_, hOp, _⟩ => by cases hOp
  have hGrants : ∀ k, k ∈ (σ.l1Call (.finishRead keys 1)).records.readGrants →
      k ∈ σ.records.readGrants :=
    fun k hk => (l1Call_readGrants hk).resolve_right fun ⟨_, _, hOp, _⟩ => by cases hOp
  have hErased : ∀ k, StoreController.Stored
      { (σ.l1Call (.finishRead keys 1)).controller with
        inFlightTasks := σ.controller.inFlightTasks.eraseIdx task } k → σ.controller.Stored k := by
    rintro k (⟨named, hNamed, hk⟩ | hSubmitted)
    · exact Or.inl ⟨named, mem_of_mem_eraseIdx hNamed, hk⟩
    · exact Or.inr hSubmitted
  refine h.beside hTemps (fun j t _ => hMoves.still j t) ?_ (σ.l1.apply_monotone _).1
    (fun k hk => mem_append_left _ hk) h.objectsKnown_call ?_ ?_ ?_
  · intro id t ht
    have hNot : t ∉ (L1Op.finishRead keys 1 : L1Op ObjectKey).keys :=
      fun hMem => (h.unread id t ht).1 (Or.inl ⟨keys, hInFlight, hMem⟩)
    exact L1Manager.apply_keptOrGone hNot
  · rintro k (hk | hk | hk)
    · exact h.controllerKnown_call k (Or.inl hk)
    · exact h.controllerKnown_call k (Or.inr (Or.inl (hErased k hk)))
    · exact h.controllerKnown_call k (Or.inr (Or.inr hk))
  · exact fun _ t _ hk => hKnows t hk
  · intro id t ht
    exact ⟨fun hk => (h.unread id t ht).1 (hErased t hk), fun hk =>
      (h.unread id t ht).2 (hGrants t hk)⟩

theorem permitted_cases (h : σ.permitted op = true) :
    (∃ keys, op = .delete keys false) ∨ (∃ keys, op = .touchKeys keys) ∨
      ∀ t ∈ σ.records.temps, t ∉ op.keys := by
  have hOther : (op.keys.all fun k => k ∉ σ.records.temps) = true →
      ∀ t ∈ σ.records.temps, t ∉ op.keys := by
    intro hAll t ht hMem
    simpa [ht] using List.all_eq_true.mp hAll t hMem
  cases op with
  | delete keys force =>
    cases force with
    | false => exact Or.inl ⟨keys, rfl⟩
    | true => exact Or.inr (Or.inr (hOther h))
  | touchKeys keys => exact Or.inr (Or.inl ⟨keys, rfl⟩)
  | _ => exact Or.inr (Or.inr (hOther h))

theorem Buffers.client (h : σ.Buffers) (hMoves : Moves σ (σ.l1Call op) 0 none none)
    (hPermitted : σ.permitted op = true) : (σ.l1Call op).Buffers := by
  have hCases := permitted_cases hPermitted
  refine h.beside rfl (fun j t _ => hMoves.still j t) ?_ (σ.l1.apply_monotone _).1
    (fun k hk => mem_append_left _ hk) h.objectsKnown_call h.controllerKnown_call ?_ ?_
  · intro id t ht
    rcases hCases with ⟨keys, rfl⟩ | ⟨keys, rfl⟩ | hOther
    · exact L1Manager.delete_keptOrGone σ.l1 keys false t
    · exact Or.inl rfl
    · exact L1Manager.apply_keptOrGone (hOther t (mem_temps ht))
  · intro id t ht hk
    refine (l1Call_knows hk).resolve_right ?_
    rintro ⟨named, rfl, hNamed⟩
    rcases hCases with ⟨keys, hOp⟩ | ⟨keys, hOp⟩ | hOther
    · cases hOp
    · cases hOp
    · exact hOther t (mem_temps ht) hNamed
  · intro id t ht
    refine ⟨(h.unread id t ht).1, fun hk => ?_⟩
    rcases l1Call_readGrants hk with hOld | ⟨keys, readLocks, rfl, hNamed, -⟩
    · exact (h.unread id t ht).2 hOld
    · rcases hCases with ⟨named, hOp⟩ | ⟨named, hOp⟩ | hOther
      · cases hOp
      · cases hOp
      · exact hOther t (mem_temps ht) hNamed

variable {codec : Codec V}

theorem Buffers.step (h : σ.Coherent ∧ σ.Buffers) (hUndisturbed : σ.Undisturbed label)
    (hStep : σ.Step codec label τ) : τ.Coherent ∧ τ.Buffers := by
  obtain ⟨hCoherent, hBuffers⟩ := h
  obtain ⟨hAfter, hBuffer | ⟨hForeign, hTemps, hMoves⟩⟩ := hCoherent.step hStep
  · refine ⟨hAfter, ?_⟩
    cases hBuffer with
    | quiet hSame hTemps hMoves hStage => exact hBuffers.quiet hSame hTemps hMoves hStage
    | call hCall hSame hTemps hMoves => exact hBuffers.call hCoherent hCall hSame hTemps hMoves
    | alloc hSame hNone hTemps hOthers hStood hMoves hStage =>
      exact hBuffers.alloc hCoherent hSame hTemps hOthers hStood hMoves hStage hUndisturbed.1
  · refine ⟨hAfter, ?_⟩
    cases label with
    | storePop targets => exact hBuffers.storePop hStep hMoves hTemps
    | storeReserve => exact hBuffers.storeReserve hCoherent hStep hMoves hTemps hUndisturbed.2
    | storeFinish task => exact hBuffers.storeFinish hStep hMoves hTemps
    | client op =>
      obtain rfl := some.inj hStep
      exact hBuffers.client hMoves hUndisturbed.2
    | _ => cases hForeign

theorem buffers_init (hEmpty : m.objects = .empty) (bytes : MemoryObj → Bytes)
    (kv : MemoryObj → V) : (init m bytes kv).Buffers := by
  have hNone : ∀ id t, t ∉ (init m bytes kv).tempsOf id := fun _ _ ht => nomatch ht
  refine ⟨fun _ => nodup_nil, ?_, ?_, ?_, ?_, ?_, ?_, ?_⟩
  · exact fun id _ t ht => absurd ht (hNone id t)
  · exact fun id t ht => absurd ht (hNone id t)
  · intro k e he
    rw [show (init m bytes kv).l1.objects = .empty from hEmpty] at he
    cases he
  · rintro k ((hk | ⟨_, hk, _⟩) | (⟨_, hk, _⟩ | ⟨_, hk, _⟩) | hk) <;> cases hk
  · exact fun id _ t _ ht => absurd ht (hNone id t)
  · exact fun id t ht => absurd ht (hNone id t)
  · exact fun id t ht => absurd ht (hNone id t)

theorem Buffers.run {labels : List (Label V)} (h : σ.Coherent ∧ σ.Buffers)
    (hRun : Run (Run.Under Undisturbed (Step codec)) σ labels τ) : τ.Coherent ∧ τ.Buffers :=
  hRun.invariant (I := fun σ => σ.Coherent ∧ σ.Buffers)
    (fun _ _ _ hInv hStep => Buffers.step hInv hStep.1 hStep.2) h

/-- No temporary key was granted by `reserve_read`, which the wrapper never calls, or went into
a store task of the controller. -/
def Private (σ : SerdeSystem V) : Prop :=
  ∀ id, ∀ t ∈ σ.tempsOf id, (∀ keys ∈ σ.controller.submitted, t ∉ keys) ∧ t ∉ σ.records.readGrants

theorem Buffers.isPrivate (h : σ.Buffers) : σ.Private := by
  intro id t ht
  obtain ⟨hStored, hGrants⟩ := h.unread id t ht
  exact ⟨fun keys hKeys hMem => hStored (Or.inr ⟨keys, hKeys, hMem⟩), hGrants⟩

/-- Undisturbed runs keep the temporary buffers private. -/
theorem undisturbed_isPrivate (codec : Codec V) (writeTtl readTtl nowMs : Nat)
    (bytes : MemoryObj → Bytes) (kv : MemoryObj → V) {labels : List (Label V)}
    (hRun : Run (Run.Under Undisturbed (Step codec))
      (init (L1Manager.new writeTtl readTtl nowMs) bytes kv) labels σ) : σ.Private := by
  have hInit := coherent_init (L1Manager.new writeTtl readTtl nowMs) bytes kv
  exact (Buffers.run ⟨hInit, buffers_init rfl bytes kv⟩ hRun).2.isPrivate

end SerdeSystem

namespace Sample

/-- One byte per object. -/
def codec : Codec UInt8 where
  serialize _ value bytes := bytes == [value]
  deserialize _ bytes value := bytes == [value]

def key : ObjectKey := ⟨[1], "m", 0, 0, ""⟩

def random : RandomBytes := ⟨[0, 1, 2, 3, 4, 5, 6, 7, 8, 9, 10, 11, 12, 13, 14, 15], rfl⟩

def start : SerdeSystem UInt8 := .init (L1Manager.new 600 300 0) (fun _ => []) (fun _ => 0)

/-- A load of one key, up to the gap between `finish_write` and `delete` of its buffer. -/
def loadToGap : List (Label UInt8) :=
  [.submit ⟨.load, [key], [100]⟩, .submitCall 0 { random := [random] }, .submitCall 0 {},
    .innerLoadDone 0 (Bitmap.leading 1 1) [[7]], .wake .innerLoad, .drainCall true,
    .drainCall true, .drainCall true, .drainCall true, .drainCall true, .drainCall true,
    .deserializeDone 0 [7], .wake .deserialize, .drainCall true, .drainCall true,
    .drainCall true, .drainCall true]

/-- The store controller takes the temporary key from its queue and reserves it. -/
def leak : List (Label UInt8) := [.storePop [[makeTempKey key random]], .storeReserve]

/-- The same after the `delete`. -/
def lateReserve : List (Label UInt8) :=
  [.storePop [[makeTempKey key random]], .drainCall true, .storeReserve]

end Sample

namespace SerdeSystem

theorem loadToGap_leak :
    ∃ σ, Run (Step Sample.codec) Sample.start (Sample.loadToGap ++ Sample.leak) σ ∧
      ¬ σ.Private := by
  obtain ⟨σ, hRun, hTemp, hSubmitted⟩ := Run.exists_of_exec (next Sample.codec) Sample.start
    (Sample.loadToGap ++ Sample.leak)
    (fun σ => makeTempKey Sample.key Sample.random ∈ σ.tempsOf 0 ∧
      [makeTempKey Sample.key Sample.random] ∈ σ.controller.submitted) (by decide +kernel)
  refine ⟨σ, hRun, fun hPrivate => ?_⟩
  exact (hPrivate 0 _ hTemp).1 _ hSubmitted List.mem_cons_self

theorem loadToGap_lateReserve :
    ∃ σ, (Run (Run.Under Undisturbed (Step Sample.codec)) Sample.start
        (Sample.loadToGap ++ Sample.lateReserve) σ ∧
        makeTempKey Sample.key Sample.random ∈ σ.tempsOf 0) ∧ σ.Private := by
  obtain ⟨σ, hRun, hTemp⟩ := Run.exists_under_of_exec Undisturbed (next Sample.codec)
    Sample.start (Sample.loadToGap ++ Sample.lateReserve)
    (fun σ => makeTempKey Sample.key Sample.random ∈ σ.tempsOf 0) (by decide +kernel)
  exact ⟨σ, ⟨hRun, hTemp⟩, undisturbed_isPrivate _ _ _ _ _ _ hRun⟩

end SerdeSystem

end LMCache.Serde
