import LMCache.Coordinator.Fencing

/-!
# Sections that raise

A section is restored item by item. An item that cannot be decoded ends the loop, and the items
before it stay: only the order of the eviction policy is decoded as a whole before it replaces
anything. A component whose `restore` raises is as it was only if the first item raises, or if
it was not empty.

The sections of the usage view are modelled more closely here. A size that is no number is
found out after its placement was recorded.
-/

namespace LMCache.Coordinator

open Lib Serde Eviction List Dict

/-- A call that raises leaves the component as it was. `restored` is the component after the
call, and whether the call returned. -/
def Atomic {σ : Type} (before : σ) (restored : σ × Bool) : Prop :=
  restored.2 = false → restored.1 = before

theorem atomic_iff {σ : Type} {before : σ} {restored : σ × Bool} :
    Atomic before restored ↔ restored.2 = true ∨ restored.1 = before := by
  unfold Atomic
  cases restored.2 <;> simp

theorem readable_eq_nil_iff {α : Type} {items : List (Stored α)} :
    readable items = [] ↔ items = [] ∨ items.head? = some none := by
  rcases items with _ | ⟨_ | a, rest⟩ <;> simp [readable]

namespace CursorSection

def items (stored : CursorSection) : List (Stored (String × StreamCursor)) :=
  stored.entries.map fun e => e.2.map fun cursor => (e.1, cursor)

end CursorSection

/-- `EventGate.restore`, and whether it returned. -/
def restoreGate (cursors : Dict String StreamCursor) (stored : CursorSection) :
    Dict String StreamCursor × Bool :=
  (restoreCursors cursors stored, cursors.size = 0 && isReadable stored.items)

theorem restoreGate_atomic_iff (cursors : Dict String StreamCursor) (stored : CursorSection) :
    Atomic cursors (restoreGate cursors stored) ↔
      cursors.size ≠ 0 ∨ isReadable stored.items = true ∨ stored.items.head? = some none := by
  rw [atomic_iff]
  unfold restoreGate restoreCursors
  by_cases hSize : cursors.size = 0
  · have hEmpty : cursors.entries = [] := length_eq_zero_iff.mp hSize
    simp only [hSize, ne_eq, not_true_eq_false, if_false, decide_true, Bool.true_and, false_or]
    refine or_congr_right' fun hBad => ?_
    constructor
    · intro hSame
      refine (readable_eq_nil_iff.mp ?_).resolve_left fun hNil => hBad (by rw [hNil]; rfl)
      by_contra hSome
      have hEntries := entries_foldl_set_ne_nil (d := cursors)
        (Or.inr (show stored.cursors ≠ [] from hSome))
      rw [hSame] at hEntries
      exact hEntries hEmpty
    · intro hHead
      have hNone : stored.cursors = [] := readable_eq_nil_iff.mpr (Or.inr hHead)
      rw [hNone]
      rfl
  · simp [hSize]

/-- `IsolatedLRUEvictionPolicy.restore`, and whether it returned. -/
def restorePolicy (p : IsolatedLRUEvictionPolicy) (stored : OrderSection) :
    IsolatedLRUEvictionPolicy × Bool :=
  (restoreOrder p stored, stored.values.all isReadable)

theorem restorePolicy_atomic (p : IsolatedLRUEvictionPolicy) (stored : OrderSection) :
    Atomic p (restorePolicy p stored) := by
  intro hRaised
  have hRaised : stored.values.all isReadable = false := hRaised
  unfold restorePolicy restoreOrder
  rw [hRaised]
  rfl

def RegistrySection.isWhole (stored : RegistrySection) : Bool :=
  stored.all fun item => item.any fun (_, _, _, modules) => isReadable modules

namespace ServerConfigRegistry

variable {r : ServerConfigRegistry}

/-- `restore`, and whether it returned. -/
def restoreWhole (r : ServerConfigRegistry) (stored : RegistrySection) :
    ServerConfigRegistry × Bool :=
  (r.restore stored, r.byInstance.size = 0 && r.stamps.size = 0 && stored.isWhole)

theorem stamps_restoreDeclarations (stored : RegistrySection) (h : r.stamps.entries ≠ []) :
    (restoreDeclarations stored r).stamps.entries ≠ [] := by
  induction stored generalizing r with
  | nil => exact h
  | cons item rest ih =>
    obtain _ | ⟨instanceId, incarnation, revision, modules⟩ := item
    · exact h
    · have hStamped := r.stamps.entries_set_ne_nil instanceId (incarnation, revision)
      unfold restoreDeclarations
      dsimp only
      split
      · exact hStamped
      · exact ih hStamped

theorem restoreWhole_atomic_iff (r : ServerConfigRegistry) (stored : RegistrySection) :
    Atomic r (r.restoreWhole stored) ↔
      r.byInstance.size ≠ 0 ∨ r.stamps.size ≠ 0 ∨ stored.isWhole = true ∨
        stored.head? = some none := by
  rw [atomic_iff]
  unfold restoreWhole restore
  by_cases hHeld : r.byInstance.size ≠ 0 ∨ r.stamps.size ≠ 0
  · rw [if_pos hHeld, ← or_assoc]
    exact iff_of_true (Or.inr rfl) (Or.inl hHeld)
  · rw [if_neg hHeld]
    obtain ⟨hInstances, hStamps⟩ := not_or.mp hHeld
    rw [not_not] at hInstances hStamps
    have hEmpty : r.stamps.entries = [] := length_eq_zero_iff.mp hStamps
    simp only [hInstances, hStamps, decide_true, Bool.true_and, ne_eq, not_true_eq_false, false_or]
    refine or_congr_right' fun hBad => ?_
    rcases stored with _ | ⟨_ | ⟨instanceId, incarnation, revision, modules⟩, rest⟩
    · exact absurd rfl hBad
    · exact iff_of_true rfl rfl
    · refine iff_of_false (fun hSame => ?_) (by simp)
      have hStamped := r.stamps.entries_set_ne_nil instanceId (incarnation, revision)
      refine absurd hEmpty (hSame ▸ ?_)
      unfold restoreDeclarations
      dsimp only
      split
      · exact hStamped
      · exact stamps_restoreDeclarations rest hStamped

end ServerConfigRegistry

namespace CacheUsageManager

variable {u : CacheUsageManager}

def StoredPlacement.sized : StoredPlacement → Bool
  | .placement _ _ => true
  | _ => false

theorem entries_restorePlacement (u : CacheUsageManager) (item : PlacementId × Nat) :
    (u.restorePlacement item).placementSizes.entries ≠ [] := by
  unfold restorePlacement
  rw [placementSizes_adjust]
  exact u.placementSizes.entries_set_ne_nil _ _

theorem entries_restoreItems (stored : UsageSection) (h : u.placementSizes.entries ≠ []) :
    (restoreItems stored u).1.1.placementSizes.entries ≠ [] := by
  induction stored generalizing u with
  | nil => exact h
  | cons item rest ih =>
    cases item with
    | unreadable => exact h
    | unsized id => exact h
    | placement id sizeBytes => exact ih (u.entries_restorePlacement (id, sizeBytes))

theorem returned_restoreItems (stored : UsageSection) (u : CacheUsageManager) :
    (restoreItems stored u).2 = stored.all StoredPlacement.sized := by
  induction stored generalizing u with
  | nil => rfl
  | cons item rest ih =>
    cases item with
    | unreadable => rfl
    | unsized id => rfl
    | placement id sizeBytes => exact ih _

theorem restoreSection_atomic_iff (u : CacheUsageManager) (stored : UsageSection) :
    Atomic (u, none) (u.restore stored) ↔
      u.placementSizes.size ≠ 0 ∨ stored.all StoredPlacement.sized = true ∨
        stored.head? = some .unreadable := by
  rw [atomic_iff]
  unfold restore
  by_cases hSize : u.placementSizes.size = 0
  · have hEmpty : u.placementSizes.entries = [] := length_eq_zero_iff.mp hSize
    rw [if_neg (not_not.mpr hSize), returned_restoreItems]
    simp only [hSize, ne_eq, not_true_eq_false, false_or]
    refine or_congr_right' fun hBad => ?_
    rcases stored with _ | ⟨_ | id | ⟨id, sizeBytes⟩, rest⟩
    · exact absurd rfl hBad
    · exact iff_of_true rfl rfl
    · refine iff_of_false (fun hSame => ?_) (by simp)
      cases congrArg Prod.snd hSame
    · refine iff_of_false (fun hSame => ?_) (by simp)
      refine entries_restoreItems rest (u.entries_restorePlacement (id, sizeBytes)) ?_
      rw [show restoreItems rest _ = restoreItems
        (.placement id sizeBytes :: rest) u from rfl, hSame]
      exact hEmpty
  · rw [if_pos hSize]
    exact iff_of_true (Or.inr rfl) (Or.inl hSize)

end CacheUsageManager

namespace DirectorySection

/-- Every position that the index cites is one of a key. -/
def indexReadable (stored : DirectorySection) : Bool :=
  stored.l1KeysByInstance.entries.all fun e =>
    e.2.all fun position => (KeyDirectory.citedKey stored.keyTable position).isSome

/-- Nothing in the section raises. -/
def isWhole (stored : DirectorySection) : Bool :=
  isReadable stored.keys && stored.bindingsReadable && stored.indexReadable

/-- What raises first comes before anything that is restored: the first key; or there is no
key, and it is a binding or a position of the first instance. -/
def FailsAtOnce (stored : DirectorySection) : Prop :=
  stored.keys.head? = some none ∨
    (stored.keys = [] ∧ (isReadable stored.bindings = false ∨
      ∃ i position positions rest,
        stored.l1KeysByInstance.entries = (i, position :: positions) :: rest))

end DirectorySection

namespace KeyDirectory

variable {d : KeyDirectory}

theorem isSome_mapM {α β : Type} {f : α → Option β} (l : List α) :
    (l.mapM f).isSome = l.all fun a => (f a).isSome := by
  induction l with
  | nil => rfl
  | cons a rest ih =>
    rw [mapM_cons, all_cons, ← ih]
    cases f a <;> cases rest.mapM f <;> rfl

theorem returned_restoreIndex (table : List ObjectKey)
    (entries : List (String × List (Stored Int))) (d : KeyDirectory) :
    (restoreIndex table entries d).2 =
      entries.all fun e => e.2.all fun position => (citedKey table position).isSome := by
  induction entries generalizing d with
  | nil => rfl
  | cons e rest ih =>
    have hCited := isSome_mapM (f := citedKey table) e.2
    unfold restoreIndex
    rw [all_cons, ← hCited]
    cases e.2.mapM (citedKey table) with
    | none => rfl
    | some keys => exact ih _

theorem returned_restore (stored : DirectorySection) : (new.restore stored).2 = stored.isWhole := by
  unfold restore DirectorySection.isWhole
  rw [if_neg (by simp [new, Dict.size, Dict.empty])]
  dsimp only
  cases isReadable stored.keys with
  | false => rfl
  | true =>
    rw [restoreBindings_restored]
    cases stored.bindingsReadable with
    | false => rfl
    | true => exact returned_restoreIndex ..

theorem restoreBindings_new (items : List (Stored (Bytes × Option Nat × Bytes))) :
    restoreBindings items new = (new, isReadable items) := by
  induction items with
  | nil => rfl
  | cons item rest ih =>
    obtain _ | ⟨chunkHash, tokenOffset, raw⟩ := item
    · rfl
    · exact ih

theorem entries_restoreIndex (table : List ObjectKey) (entries : List (String × List (Stored Int)))
    (h : d.l1KeysByInstance.entries ≠ []) :
    (restoreIndex table entries d).1.l1KeysByInstance.entries ≠ [] := by
  induction entries generalizing d with
  | nil => exact h
  | cons e rest ih =>
    unfold restoreIndex
    split
    · exact h
    · exact ih (d.l1KeysByInstance.entries_set_ne_nil _ _)

theorem restore_new_eq_iff (stored : DirectorySection) (hBad : stored.isWhole = false) :
    (new.restore stored).1 = new ↔ stored.FailsAtOnce := by
  have hStart : ¬ (new.directory.size ≠ 0 ∨ new.l1KeysByInstance.size ≠ 0) := by
    simp [new, Dict.size, Dict.empty]
  unfold DirectorySection.FailsAtOnce
  rcases hKeys : stored.keys with _ | ⟨_ | item, rest⟩
  · have hRestore : new.restore stored = if !isReadable stored.bindings then (new, false)
        else restoreIndex [] stored.l1KeysByInstance.entries new := by
      unfold restore
      rw [if_neg hStart, hKeys]
      simp only [readable, foldl_nil, restoreBindings_new]
      rfl
    rw [hRestore]
    cases hBindings : isReadable stored.bindings with
    | false => exact iff_of_true rfl (Or.inr ⟨rfl, Or.inl rfl⟩)
    | true =>
      rw [if_neg (by simp)]
      rcases hEntries : stored.l1KeysByInstance.entries with _ |
        ⟨⟨i, _ | ⟨position, positions⟩⟩, rest⟩
      · -- nothing raises
        have hWhole : stored.isWhole = true := by
          unfold DirectorySection.isWhole DirectorySection.bindingsReadable
            DirectorySection.indexReadable DirectorySection.keyTable
          rw [hKeys, hEntries]
          simpa [isReadable, readable, Option.isSome_iff_exists, Option.any_eq_true] using hBindings
        rw [hWhole] at hBad
        cases hBad
      · refine iff_of_false (fun hSame => ?_) (by simp)
        let entered := new.setL1Keys i (Dict.ofList [])
        have hEntered : entered.l1KeysByInstance.entries ≠ [] := entries_set_ne_nil _ _ _
        have hStep : restoreIndex [] ((i, []) :: rest) new = restoreIndex [] rest entered := rfl
        refine entries_restoreIndex [] rest hEntered ?_
        rw [← hStep, hSame]
        rfl
      · refine iff_of_true ?_ (Or.inr ⟨rfl, Or.inr ⟨i, position, positions, rest, rfl⟩⟩)
        have hNone : (position :: positions).mapM (citedKey []) = none := by
          rw [mapM_cons, show citedKey [] position = none by
            unfold citedKey
            cases position <;> simp]
          rfl
        unfold restoreIndex
        rw [hNone]
  · refine iff_of_true ?_ (Or.inl rfl)
    unfold restore
    rw [if_neg hStart, hKeys]
    rfl
  · refine iff_of_false (fun hSame => ?_) (by simp)
    have hDirectory := congrArg KeyDirectory.directory hSame
    rw [restore_directory, (foldl_restoreKey _ new).1, hKeys] at hDirectory
    refine (entries_foldl_set_ne_nil (d := new.directory)
      (l := (item :: readable rest).map fun item => (item.1, ⟨item.2.2, item.2.1⟩))
      (Or.inr (by simp))) ?_
    rw [foldl_map]
    exact congrArg Dict.entries hDirectory

theorem Reachable.eq_new (h : d.Reachable) (hKeys : d.directory.size = 0)
    (hIndex : d.l1KeysByInstance.size = 0) : d = KeyDirectory.new := by
  obtain ⟨directory, index, bindings⟩ := d
  obtain rfl : directory = .empty := ext (length_eq_zero_iff.mp hKeys)
  obtain rfl : index = .empty := ext (length_eq_zero_iff.mp hIndex)
  obtain rfl : bindings = .empty := by
    refine ext ?_
    by_contra hSome
    obtain ⟨e, he⟩ := exists_mem_of_ne_nil _ hSome
    have hGet := get?_eq_some_iff.mpr (show (e.1, e.2) ∈ bindings.entries from he)
    have hBooked := h.consistent.booked
    obtain ⟨k, hk⟩ := exists_mem_of_ne_nil _ (hBooked.inhabited e.1 e.2 hGet)
    have hKey := ((hBooked.bound e.1 k).mp ⟨e.2, hGet, hk⟩).2
    cases hKey
  rfl

theorem restore_succeeds_iff (h : d.Reachable) (stored : DirectorySection) :
    Atomic d (d.restore stored) ↔
      d.directory.size ≠ 0 ∨ d.l1KeysByInstance.size ≠ 0 ∨ stored.isWhole = true ∨
        stored.FailsAtOnce := by
  rw [atomic_iff]
  by_cases hHeld : d.directory.size ≠ 0 ∨ d.l1KeysByInstance.size ≠ 0
  · have hRestore : d.restore stored = (d, false) := if_pos hHeld
    rw [hRestore, ← or_assoc]
    exact iff_of_true (Or.inr rfl) (Or.inl hHeld)
  · obtain ⟨hKeys, hIndex⟩ := not_or.mp hHeld
    rw [not_not] at hKeys hIndex
    obtain rfl := h.eq_new hKeys hIndex
    rw [returned_restore]
    simp only [hKeys, hIndex, ne_eq, not_true_eq_false, false_or]
    refine or_congr_right' fun hBad => restore_new_eq_iff stored ?_
    rwa [Bool.not_eq_true] at hBad

end KeyDirectory

/-- A restore that raises leaves its component as it was if and only if the component was not
empty, nothing in the section raises, or what raises comes before everything that is
restored. The order of the eviction policy is always restored as a whole. -/
theorem restore_atomic_iff (cursors : Dict String StreamCursor) (cursorSection : CursorSection)
    (d : KeyDirectory) (hReachable : d.Reachable) (directorySection : DirectorySection)
    (u : CacheUsageManager) (usageSection : CacheUsageManager.UsageSection)
    (r : ServerConfigRegistry) (registrySection : RegistrySection)
    (p : IsolatedLRUEvictionPolicy) (orderSection : OrderSection) :
    (Atomic cursors (restoreGate cursors cursorSection) ↔
      cursors.size ≠ 0 ∨ isReadable cursorSection.items = true ∨
        cursorSection.items.head? = some none) ∧
    (Atomic d (d.restore directorySection) ↔
      d.directory.size ≠ 0 ∨ d.l1KeysByInstance.size ≠ 0 ∨ directorySection.isWhole = true ∨
        directorySection.FailsAtOnce) ∧
    (Atomic (u, none) (u.restore usageSection) ↔
      u.placementSizes.size ≠ 0 ∨ usageSection.all (·.sized) = true ∨
        usageSection.head? = some .unreadable) ∧
    (Atomic r (r.restoreWhole registrySection) ↔
      r.byInstance.size ≠ 0 ∨ r.stamps.size ≠ 0 ∨ registrySection.isWhole = true ∨
        registrySection.head? = some none) ∧
    Atomic p (restorePolicy p orderSection) :=
  ⟨restoreGate_atomic_iff cursors cursorSection,
    KeyDirectory.restore_succeeds_iff hReachable directorySection,
    u.restoreSection_atomic_iff usageSection, r.restoreWhole_atomic_iff registrySection,
    restorePolicy_atomic p orderSection⟩

/-- The first key cannot be decoded: nothing is restored. -/
theorem restore_atomic_sample :
    Atomic KeyDirectory.new
      (KeyDirectory.new.restore ⟨[none, some (Sample.key, 0, [])], [], .empty⟩) :=
  (restore_atomic_iff .empty .empty .new .new ⟨[none, some (Sample.key, 0, [])], [], .empty⟩
    .new [] .new [] (.new .discard) .empty).2.1.mpr (Or.inr (Or.inr (Or.inr (Or.inl rfl))))

/-- What comes before the item that raises is kept, in four of the five components. -/
theorem raising_restore_keeps_items :
    ¬ Atomic .empty (restoreGate .empty (Dict.ofList [("a", some ⟨1, 1, false⟩), ("b", none)])) ∧
    ¬ Atomic KeyDirectory.new
      (KeyDirectory.new.restore ⟨[some (Sample.key, 0, []), none], [], .empty⟩) ∧
    ¬ Atomic (CacheUsageManager.new, none) (CacheUsageManager.new.restore
      [.placement ⟨.l2, Sample.key, "a", "dram"⟩ 4, .unreadable]) ∧
    ¬ Atomic ServerConfigRegistry.new
      (ServerConfigRegistry.new.restoreWhole [some ("a", 1, 1, [none])]) := by
  refine ⟨fun h => ?_, fun h => ?_, fun h => ?_, fun h => ?_⟩
  · exact absurd (congrArg Dict.size (h (by decide))) (by decide)
  · exact absurd (congrArg (·.directory.size) (h rfl)) (by decide)
  · exact absurd (congrArg (·.1.placementSizes.size) (h rfl)) (by decide)
  · exact absurd (congrArg (·.stamps.size) (h rfl)) (by decide)

end LMCache.Coordinator
