import LMCache.Coordinator.Emission

/-!
# Declarations of capacity

A snapshot of the capacities is published as one batch per compartment, all of one revision,
and the registry puts the batches of a revision together again. A snapshot without
compartments has no batch that could replace the previous one, and of two compartments of one
tier and backend the registry keeps the second.
-/

namespace LMCache.Coordinator

open Lib Serde List

inductive EmitterCall
  | event (event : StorageEvent) (dues : List (Option Flush))
  | flush (flush : Flush)

def EmitterCall.snapshot : EmitterCall → Option CapacitySnapshot
  | .event (.capacityChanged snapshot) _ => some snapshot
  | _ => none

def CapacityModule.capacity (m : CapacityModule) : ModuleMemoryCapacity :=
  ⟨m.tier, m.backend, m.capacityBytes, m.shared⟩

/-- What the registry tells compartments apart by. -/
def CapacityModule.compartment (m : CapacityModule) : Tier × String := (m.tier, m.backend)

namespace CacheEventBatch

def stamp (b : CacheEventBatch) : Nat × Nat := (b.incarnation, b.capacityRevision)

/-- What a declaring batch adds to its declaration. -/
def capacity (b : CacheEventBatch) : (Tier × String) × ModuleMemoryCapacity :=
  ((b.tier, b.backend), ⟨b.tier, b.backend, b.capacityBytes, b.shared⟩)

def declaresFor (instanceId : String) (b : CacheEventBatch) : Bool :=
  b.eventType = .config ∧ b.instanceId = instanceId

def declares (revision : Nat) (b : CacheEventBatch) : Bool :=
  b.eventType = .config ∧ b.capacityRevision = revision

end CacheEventBatch

namespace CacheEventSubscriber

variable {e : Emitter} {s : CacheEventSubscriber} {snapshot : CapacitySnapshot} {revision : Nat}

def call (e : Emitter) (s : CacheEventSubscriber) : EmitterCall → CacheEventSubscriber
  | .event event dues => s.handle e event dues
  | .flush f => s.flush e f

def after (e : Emitter) (calls : List EmitterCall) : CacheEventSubscriber :=
  calls.foldl (call e) new

def lastDeclaration (s : CacheEventSubscriber) : List CacheEventBatch :=
  s.published.filter (CacheEventBatch.declares s.capacityRevision)

theorem call_keeps {P : CacheEventSubscriber → Prop} (hFlush : ∀ s f, P s → P (s.flush e f))
    (hPending : ∀ s pending, P s → P { s with pendingBatches := pending })
    (hBindings : ∀ s bindings, P s → P { s with tokenBindings := bindings })
    {c : EmitterCall}
    (hDeclare : ∀ snapshot, c.snapshot = some snapshot →
      P { s with pendingCapacity := some snapshot }) (h : P s) : P (s.call e c) := by
  cases c with
  | event event dues =>
    refine handle_keeps hFlush hPending hBindings (fun snapshot hEvent => ?_) h
    exact hDeclare snapshot (by rw [hEvent]; rfl)
  | flush f => exact hFlush s f h

theorem filter_declares_placements (seq : Nat) (ts : ℚ≥0) (pending : List PendingBatch) :
    (number (fun seq => placementBatch e seq ts) seq pending).filter
      (CacheEventBatch.declares revision) = [] := by
  refine filter_eq_nil_iff.mpr fun b hb => ?_
  obtain ⟨_, p, -, rfl⟩ := mem_number hb
  intro hDeclares
  exact p.not_config (of_decide_eq_true hDeclares).1

theorem filter_declares_capacities (seq : Nat) (ts : ℚ≥0) (snapshot : CapacitySnapshot) :
    (number (fun seq => capacityBatch e seq revision ts) seq snapshot).filter
      (CacheEventBatch.declares revision) =
        number (fun seq => capacityBatch e seq revision ts) seq snapshot := by
  refine filter_eq_self.mpr fun b hb => ?_
  obtain ⟨_, m, -, rfl⟩ := mem_number hb
  exact decide_eq_true ⟨rfl, rfl⟩

def Revised (s : CacheEventSubscriber) : Prop :=
  ∀ b ∈ s.published, b.eventType = .config → b.capacityRevision ≤ s.capacityRevision

theorem Revised.flush (h : s.Revised) (f : Flush) : (s.flush e f).Revised := by
  unfold CacheEventSubscriber.flush
  split
  · exact h
  · intro b hb hType
    have hGrows : s.capacityRevision ≤
        if s.pendingCapacity.isSome then s.capacityRevision + 1 else s.capacityRevision := by
      split <;> omega
    rcases mem_append.mp hb with hOld | hNew
    · exact (h b hOld hType).trans hGrows
    · rcases mem_append.mp hNew with hMem | hMem
      · obtain ⟨_, _, _, rfl⟩ := mem_number hMem
        exact le_refl _
      · obtain ⟨_, p, _, rfl⟩ := mem_number hMem
        exact absurd hType p.not_config

theorem revised_after (e : Emitter) (calls : List EmitterCall) : (after e calls).Revised := by
  refine List.foldlRecOn calls _ (motive := Revised) nofun fun s hs c _ => ?_
  exact call_keeps (fun _ f ht => ht.flush f) (fun _ _ ht => ht) (fun _ _ ht => ht)
    (fun _ _ => hs) hs

/-- Since the snapshot came at a revision, nothing else was declared: it waits, or the last
declaration carried it. -/
structure Declares (e : Emitter) (start : Nat) (snapshot : CapacitySnapshot)
    (s : CacheEventSubscriber) : Prop where
  revised : s.Revised
  pending : ∀ waiting, s.pendingCapacity = some waiting → waiting = snapshot
  carried : start < s.capacityRevision → ∃ seq ts, s.lastDeclaration =
    number (fun seq => capacityBatch e seq s.capacityRevision ts) seq snapshot

theorem Declares.flush {start : Nat} (h : s.Declares e start snapshot) (f : Flush) :
    (s.flush e f).Declares e start snapshot := by
  have hRevised := h.revised.flush (e := e) f
  unfold CacheEventSubscriber.flush at hRevised ⊢
  split
  · exact h
  · rename_i hSome
    rw [if_neg hSome] at hRevised
    refine ⟨hRevised, ?_, ?_⟩
    · intro waiting hWaiting
      dsimp only at hWaiting
      split at hWaiting
      · exact h.pending waiting hWaiting
      · cases hWaiting
    · intro hLater
      cases hPending : s.pendingCapacity with
      | none =>
        rw [hPending] at hLater
        obtain ⟨seq, ts, hLast⟩ := h.carried hLater
        refine ⟨seq, ts, ?_⟩
        unfold lastDeclaration at hLast ⊢
        dsimp only
        rw [filter_append, filter_append, filter_declares_placements]
        simpa [number] using hLast
      | some waiting =>
        obtain rfl := h.pending waiting hPending
        refine ⟨s.seq, f.ts, ?_⟩
        unfold lastDeclaration
        dsimp only
        -- what was published before is of earlier revisions
        have hOld :
            s.published.filter (CacheEventBatch.declares (s.capacityRevision + 1)) = [] := by
          refine filter_eq_nil_iff.mpr fun b hb hDeclares => ?_
          obtain ⟨hType, hRevision⟩ := of_decide_eq_true hDeclares
          have := h.revised b hb hType
          omega
        rw [if_pos (show (some waiting).isSome = true from rfl), filter_append,
          filter_append, filter_declares_placements, hOld, Option.getD_some,
          filter_declares_capacities, nil_append, append_nil]

theorem lastDeclaration_after (e : Emitter) (before later : List EmitterCall) (c : EmitterCall)
    (hNewest : c.snapshot = some snapshot) (hNone : ∀ c ∈ later, c.snapshot = none)
    (hCarried : (after e before).capacityRevision <
      (after e (before ++ c :: later)).capacityRevision) :
    ∃ seq ts, (after e (before ++ c :: later)).lastDeclaration =
      number (fun seq => capacityBatch e seq (after e (before ++ c :: later)).capacityRevision ts)
        seq snapshot := by
  have hAfter : after e (before ++ c :: later) = later.foldl (call e)
      ((after e before).call e c) := by
    unfold after
    rw [foldl_append, foldl_cons]
  rw [hAfter] at hCarried ⊢
  generalize hStart : (after e before).capacityRevision = start at hCarried
  have hOnce : ((after e before).call e c).Declares e start snapshot := by
    cases c with
    | event event dues =>
      cases event with
      | capacityChanged given =>
        obtain rfl : given = snapshot := Option.some.inj hNewest
        have hHeld : Declares e start given { after e before with pendingCapacity := some given } :=
          ⟨revised_after e before, fun _ h => (Option.some.inj h).symm,
            fun hLater => absurd hLater (by rw [hStart]; exact lt_irrefl _)⟩
        change (flushIfDue e _ dues.head?.join).Declares e start given
        cases dues.head?.join with
        | none => exact hHeld
        | some f => exact hHeld.flush f
      | _ => cases hNewest
    | flush f => cases hNewest
  have hDeclares :
      (later.foldl (call e) ((after e before).call e c)).Declares e start snapshot := by
    refine List.foldlRecOn later _ (motive := Declares e start snapshot) hOnce fun s hs c hc => ?_
    refine call_keeps (fun _ f ht => ht.flush f)
      (fun _ _ ht => ⟨ht.revised, ht.pending, ht.carried⟩)
      (fun _ _ ht => ⟨ht.revised, ht.pending, ht.carried⟩) (fun given hGiven => ?_) hs
    rw [hNone c hc] at hGiven
    cases hGiven
  exact hDeclares.carried hCarried

end CacheEventSubscriber

namespace ServerConfigRegistry

variable {r : ServerConfigRegistry} {b : CacheEventBatch} {i : String} {stamp : Nat × Nat}

theorem stampLt_irrefl (stamp : Nat × Nat) : stampLt stamp stamp = false := by
  simp [stampLt]

theorem stampLt_asymm {a b : Nat × Nat} (h : stampLt a b = true) : stampLt b a = false := by
  simp only [stampLt, decide_eq_true_eq, decide_eq_false_iff_not] at h ⊢
  omega

theorem eq_of_not_stampLt {a b : Nat × Nat} (h : stampLt a b = false) (h' : stampLt b a = false) :
    a = b := by
  simp only [stampLt, decide_eq_false_iff_not] at h h'
  ext <;> omega

theorem consume_newer (hType : b.eventType = .config)
    (h : ∀ stored, r.stamps.get? b.instanceId = some stored → stampLt stored b.stamp = true) :
    r.consume b = ⟨r.byInstance.set b.instanceId (Dict.ofList [b.capacity]),
      r.stamps.set b.instanceId b.stamp⟩ := by
  unfold consume
  rw [if_neg (not_not.mpr hType)]
  dsimp only
  cases hStored : r.stamps.get? b.instanceId with
  | none => rfl
  | some stored =>
    have hLt := h stored hStored
    dsimp only
    rw [show (b.incarnation, b.capacityRevision) = b.stamp from rfl, stampLt_asymm hLt, hLt]
    rfl

theorem consume_older {stored : Nat × Nat} (hStored : r.stamps.get? b.instanceId = some stored)
    (h : stampLt b.stamp stored = true) : r.consume b = r := by
  unfold consume
  split
  · rfl
  · dsimp only
    rw [hStored]
    exact if_pos h

theorem consume_same {declaration : Declaration} (hType : b.eventType = .config)
    (hStored : r.stamps.get? b.instanceId = some b.stamp)
    (hHeld : r.byInstance.get? b.instanceId = some declaration) :
    r.consume b = ⟨r.byInstance.set b.instanceId (declaration.set b.capacity.1 b.capacity.2),
      r.stamps⟩ := by
  unfold consume
  rw [if_neg (not_not.mpr hType)]
  dsimp only
  rw [hStored, show (b.incarnation, b.capacityRevision) = b.stamp from rfl]
  dsimp only
  rw [stampLt_irrefl, hHeld]
  rfl

theorem consume_other (h : b.declaresFor i = false) :
    (r.consume b).stamps.get? i = r.stamps.get? i ∧
      (r.consume b).byInstance.get? i = r.byInstance.get? i := by
  unfold consume
  split
  · exact ⟨rfl, rfl⟩
  · rename_i hType
    have hNe : b.instanceId ≠ i := by
      rintro rfl
      exact of_decide_eq_false h ⟨not_not.mp hType, rfl⟩
    have hSet : ∀ (declaration : Declaration) (stamp : Nat × Nat),
        (r.stamps.set b.instanceId stamp).get? i = r.stamps.get? i ∧
          (r.byInstance.set b.instanceId declaration).get? i = r.byInstance.get? i :=
      fun _ _ => ⟨Dict.get?_set_ne _ hNe _, Dict.get?_set_ne _ hNe _⟩
    dsimp only
    split
    · exact hSet _ _
    · split
      · exact ⟨rfl, rfl⟩
      · split
        · exact hSet _ _
        · split
          · exact ⟨rfl, rfl⟩
          · exact ⟨rfl, (hSet _ (0, 0)).2⟩

/-- What is held for an instance: nothing, something of an older stamp, or the capacities that
came with the newest stamp. -/
inductive Gathered (stamp : Nat × Nat) (i : String) (r : ServerConfigRegistry) :
    List CacheEventBatch → List CacheEventBatch → Prop
  | nothing (hStamp : r.stamps.get? i = none) (hHeld : r.byInstance.get? i = none) :
      Gathered stamp i r [] []
  | older {heard : List CacheEventBatch} (hHeard : heard ≠ []) {stored : Nat × Nat}
      {declaration : Declaration} (hStamp : r.stamps.get? i = some stored)
      (hLt : stampLt stored stamp = true) (hHeld : r.byInstance.get? i = some declaration)
      (hSome : declaration.entries ≠ []) : Gathered stamp i r heard []
  | newest {heard last : List CacheEventBatch} (hLast : last ≠ [])
      (hStamp : r.stamps.get? i = some stamp)
      (hHeld : r.byInstance.get? i = some (Dict.ofList (last.map CacheEventBatch.capacity))) :
      Gathered stamp i r heard last

variable {heard last : List CacheEventBatch}

theorem Gathered.consume_other (h : Gathered stamp i r heard last)
    (hOther : b.declaresFor i = false) :
    Gathered stamp i (r.consume b) heard last := by
  obtain ⟨hStamps, hDeclarations⟩ := ServerConfigRegistry.consume_other (r := r) hOther
  cases h with
  | nothing hStamp hHeld => exact .nothing (hStamps.trans hStamp) (hDeclarations.trans hHeld)
  | older hHeard hStamp hLt hHeld hSome =>
    exact .older hHeard (hStamps.trans hStamp) hLt (hDeclarations.trans hHeld) hSome
  | newest hLast hStamp hHeld =>
    exact .newest hLast (hStamps.trans hStamp) (hDeclarations.trans hHeld)

theorem Gathered.consume_last (h : Gathered stamp i r heard last) (hOwn : b.declaresFor i = true)
    (hStamp : b.stamp = stamp) :
    Gathered stamp i (r.consume b) (heard ++ [b]) (last ++ [b]) := by
  obtain ⟨hType, rfl⟩ := of_decide_eq_true hOwn
  subst hStamp
  cases h with
  | nothing hStored hHeld =>
    rw [consume_newer hType fun stored h => by rw [hStored] at h; cases h]
    exact .newest (cons_ne_nil _ _) (r.stamps.get?_set_self ..) (r.byInstance.get?_set_self ..)
  | older hHeard hStored hLt hHeld hSome =>
    rw [consume_newer hType fun stored h => by rwa [Option.some.inj (h.symm.trans hStored)]]
    exact .newest (cons_ne_nil _ _) (r.stamps.get?_set_self ..) (r.byInstance.get?_set_self ..)
  | newest hLast hStored hHeld =>
    rw [consume_same hType hStored hHeld]
    refine .newest (by simp) hStored ((r.byInstance.get?_set_self ..).trans ?_)
    rw [map_append, Dict.ofList, Dict.ofList, foldl_append]
    rfl

theorem Gathered.consume_straggler (h : Gathered stamp i r heard last)
    (hOwn : b.declaresFor i = true) (hLt : stampLt b.stamp stamp = true) :
    Gathered stamp i (r.consume b) (heard ++ [b]) last := by
  obtain ⟨hType, rfl⟩ := of_decide_eq_true hOwn
  have hHeard : heard ++ [b] ≠ [] := by simp
  have hReplaced : ∀ r' : ServerConfigRegistry,
      r' = ⟨r.byInstance.set b.instanceId (Dict.ofList [b.capacity]),
        r.stamps.set b.instanceId b.stamp⟩ →
      Gathered stamp b.instanceId r' (heard ++ [b]) [] := by
    rintro _ rfl
    exact .older hHeard (r.stamps.get?_set_self ..) hLt (r.byInstance.get?_set_self ..)
      (cons_ne_nil b.capacity [])
  cases h with
  | nothing hStored hHeld =>
    exact hReplaced _ (consume_newer hType fun stored h => by rw [hStored] at h; cases h)
  | @older _ _ stored declaration hStored hOld hHeld hSome =>
    cases hAbove : stampLt stored b.stamp with
    | true =>
      refine hReplaced _ (consume_newer hType fun stored' h => ?_)
      rwa [Option.some.inj (h.symm.trans hStored)]
    | false =>
      cases hBelow : stampLt b.stamp stored with
      | true =>
        rw [consume_older hStored hBelow]
        exact .older hHeard hStored hOld hHeld hSome
      | false =>
        obtain rfl := eq_of_not_stampLt hAbove hBelow
        rw [consume_same hType hStored hHeld]
        refine .older hHeard hStored hOld (r.byInstance.get?_set_self ..) ?_
        exact declaration.entries_set_ne_nil _ _
  | newest hLast hStored hHeld =>
    rw [consume_older hStored hLt]
    exact .newest hLast hStored hHeld

theorem gathered (delivered : List CacheEventBatch)
    (h : ∀ b ∈ delivered, b.declaresFor i = true → b.stamp = stamp ∨ stampLt b.stamp stamp = true) :
    Gathered stamp i (delivered.foldl consume new)
      (delivered.filter (CacheEventBatch.declaresFor i))
      ((delivered.filter (CacheEventBatch.declaresFor i)).filter fun b => b.stamp = stamp) := by
  induction delivered using List.reverseRecOn with
  | nil => exact .nothing rfl rfl
  | append_singleton delivered b ih =>
    have hBefore := ih fun b' hb' => h b' (mem_append_left _ hb')
    rw [foldl_concat, filter_append]
    cases hOwn : b.declaresFor i with
    | false => simpa [hOwn] using hBefore.consume_other hOwn
    | true =>
      rcases h b (by simp) hOwn with hStamp | hLt
      · simpa [hOwn, hStamp] using hBefore.consume_last hOwn hStamp
      · have hNe : b.stamp ≠ stamp := by
          rintro rfl
          rw [stampLt_irrefl] at hLt
          cases hLt
        simpa [hOwn, hNe] using hBefore.consume_straggler hOwn hLt

theorem Gathered.get_eq_iff (h : Gathered stamp i r heard last) :
    r.get i = last.map (·.capacity.2) ↔
      (last.map (·.capacity.1)).Nodup ∧ (last = [] → heard = []) := by
  unfold get
  cases h with
  | nothing hStamp hHeld =>
    rw [hHeld]
    simp [Dict.values, Dict.empty]
  | older hHeard hStamp hLt hHeld hSome =>
    rw [hHeld, Option.getD_some, Dict.values]
    simp [hSome, hHeard]
  | newest hLast hStamp hHeld =>
    have hValues := Dict.values_ofList_iff (l := last.map CacheEventBatch.capacity)
    rw [map_map, map_map] at hValues
    rw [hHeld, Option.getD_some]
    exact hValues.trans (and_iff_left fun hNil => absurd hNil hLast).symm

end ServerConfigRegistry

/-- Batches that were applied, in this order: all those of the last declaration, and none of
the instance that its process did not publish or an earlier one left. -/
structure Applied (e : Emitter) (s : CacheEventSubscriber) (applied : List CacheEventBatch) :
    Prop where
  last : applied.filter (fun b => b.instanceId = e.instanceId ∧ b.incarnation = e.incarnation ∧
    b.declares s.capacityRevision = true) = s.lastDeclaration
  known : ∀ b ∈ applied, b.declaresFor e.instanceId = true →
    b ∈ s.published ∨ b.incarnation < e.incarnation

namespace CacheEventSubscriber

variable {e : Emitter} {s : CacheEventSubscriber} {applied : List CacheEventBatch}

theorem numbered_after (e : Emitter) (calls : List EmitterCall) : (after e calls).Numbered e := by
  refine List.foldlRecOn calls _ (motive := Numbered e) (numbered_new e) fun s hs c _ => ?_
  cases c with
  | event event dues => exact (handle_spec hs event dues).1
  | flush f => exact hs.flush f

theorem stamp_of_applied (h : Applied e s applied) (hNumbered : s.Numbered e) (hRevised : s.Revised)
    {b : CacheEventBatch} (hb : b ∈ applied) (hOwn : b.declaresFor e.instanceId = true) :
    b.stamp = (e.incarnation, s.capacityRevision) ∨
      ServerConfigRegistry.stampLt b.stamp (e.incarnation, s.capacityRevision) = true := by
  have hLt : ∀ i' r' : Nat, i' < e.incarnation ∨ (i' = e.incarnation ∧ r' < s.capacityRevision) →
      ServerConfigRegistry.stampLt (i', r') (e.incarnation, s.capacityRevision) = true :=
    fun _ _ hLess => decide_eq_true hLess
  rcases h.known b hb hOwn with hPublished | hEarlier
  · have hIncarnation := (hNumbered.stamped b hPublished).2
    have hRevision := hRevised b hPublished (of_decide_eq_true hOwn).1
    rcases Nat.lt_or_eq_of_le hRevision with hLess | hSame
    · exact Or.inr (hLt _ _ (Or.inr ⟨hIncarnation, hLess⟩))
    · exact Or.inl (Prod.ext hIncarnation hSame)
  · exact Or.inr (hLt _ _ (Or.inl hEarlier))

theorem gathered_applied (h : Applied e s applied) (hNumbered : s.Numbered e)
    (hRevised : s.Revised) :
    ServerConfigRegistry.Gathered (e.incarnation, s.capacityRevision) e.instanceId
      (applied.foldl ServerConfigRegistry.consume .new)
      (applied.filter (CacheEventBatch.declaresFor e.instanceId)) s.lastDeclaration := by
  have hGathered := ServerConfigRegistry.gathered applied
    fun b hb hOwn => stamp_of_applied h hNumbered hRevised hb hOwn
  rw [filter_filter] at hGathered
  rw [← h.last]
  convert hGathered using 2
  funext b
  simp only [CacheEventBatch.declaresFor, CacheEventBatch.declares, CacheEventBatch.stamp,
    Prod.mk.injEq, Bool.decide_and]
  grind

/-- Once the last declaration was applied, the registry lists exactly the newest snapshot if
and only if the snapshot names no compartment twice and, when it is empty, no declaration for
the instance was applied before. -/
theorem declaration_replaces_iff (e : Emitter) (before later : List EmitterCall) (c : EmitterCall)
    (snapshot : CapacitySnapshot) (hNewest : c.snapshot = some snapshot)
    (hNone : ∀ c ∈ later, c.snapshot = none)
    (hCarried : (after e before).capacityRevision <
      (after e (before ++ c :: later)).capacityRevision)
    (applied : List CacheEventBatch)
    (hApplied : Applied e (after e (before ++ c :: later)) applied) :
    (applied.foldl ServerConfigRegistry.consume .new).get e.instanceId =
        snapshot.map CapacityModule.capacity ↔
      (snapshot.map CapacityModule.compartment).Nodup ∧
        (snapshot = [] → ∀ b ∈ applied, b.declaresFor e.instanceId = false) := by
  have hGathered := gathered_applied hApplied (numbered_after e _) (revised_after e _)
  obtain ⟨seq, ts, hLast⟩ := lastDeclaration_after e before later c hNewest hNone hCarried
  rw [hLast] at hGathered
  have hLists := hGathered.get_eq_iff
  rw [map_number (k := CapacityModule.capacity) fun _ _ => rfl,
    map_number (k := CapacityModule.compartment) fun _ _ => rfl] at hLists
  rw [hLists]
  refine and_congr_right fun _ => imp_congr ?_ ?_
  · simp [number]
  · simp [List.filter_eq_nil_iff]

namespace Sample

def emitter : Emitter := ⟨"a", 1, by decide⟩

def adapter (name : String) (h : name ≠ "") (capacityBytes : Nat) : CapacityModule :=
  ⟨.l2, ⟨name, h⟩, capacityBytes, false⟩

def snapshot : CapacitySnapshot := [adapter "fs" (by decide) 8, adapter "s3" (by decide) 0]

def declare (snapshot : CapacitySnapshot) (fails : Bool) : EmitterCall :=
  .event (.capacityChanged snapshot) [some ⟨0, fails⟩]

end Sample

/-- The flush that comes first fails; the next one carries the declaration again. -/
theorem declaration_replaces_sample :
    let calls := [Sample.declare Sample.snapshot true, .flush ⟨1, false⟩]
    ((after Sample.emitter calls).lastDeclaration.foldl ServerConfigRegistry.consume .new).get
        "a" = Sample.snapshot.map CapacityModule.capacity := by
  intro calls
  refine (declaration_replaces_iff Sample.emitter [] [.flush ⟨1, false⟩]
    (Sample.declare Sample.snapshot true) Sample.snapshot rfl ?_ (by decide +kernel)
    (after Sample.emitter calls).lastDeclaration ⟨by decide +kernel, ?_⟩).mpr
    ⟨by decide, by decide⟩
  · intro c hc
    rw [List.mem_singleton.mp hc]
    rfl
  · exact fun b hb _ => Or.inl (List.mem_of_mem_filter hb)

/-- The last adapter is removed: nothing replaces the declaration that has it. -/
theorem empty_snapshot_keeps_the_old :
    ¬ ∀ (e : Emitter) (before later : List EmitterCall) (c : EmitterCall)
        (snapshot : CapacitySnapshot), c.snapshot = some snapshot →
        (∀ c ∈ later, c.snapshot = none) →
        (after e before).capacityRevision < (after e (before ++ c :: later)).capacityRevision →
        ∀ applied, Applied e (after e (before ++ c :: later)) applied →
          (applied.foldl ServerConfigRegistry.consume .new).get e.instanceId =
            snapshot.map CapacityModule.capacity := by
  intro h
  let before := [Sample.declare Sample.snapshot false]
  have hEmpty := h Sample.emitter before [] (Sample.declare [] false) [] rfl nofun
    (by decide +kernel) (after Sample.emitter before).published
    ⟨by decide +kernel, fun b hb _ => Or.inl ?_⟩
  · revert hEmpty
    decide +kernel
  · exact (by decide +kernel : (after Sample.emitter before).published =
      (after Sample.emitter (before ++ [Sample.declare [] false])).published) ▸ hb

end CacheEventSubscriber

end LMCache.Coordinator
