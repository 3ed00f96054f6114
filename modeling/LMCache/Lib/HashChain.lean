import Mathlib.Data.List.Basic
import Mathlib.Logic.Function.Iterate

/-!
# Hash chains and hashes of windows

Chunks hashed one after another: the hash of a chunk is computed from the hash before it and
the chunk, the first one from a seed. A hash may fail, and then the chain does.

A chain may be cut anywhere and resumed from its last hash. Where the hash of a chunk
determines what it was computed from, the hashes at one position of two chains with the same
seed agree exactly when all chunks up to that position do.

The hash of a window of 64-bit words is the value of a polynomial at a base, modulo `2 ^ 64`.
When the window moves on by one word, its hash follows from the hash before, the word that
leaves and the word that enters.
-/

namespace LMCache.Lib

open List

variable {ε H C : Type}

def chainHashes (step : H → C → Except ε H) : H → List C → Except ε (List H)
  | _, [] => .ok []
  | seed, c :: rest => do
    let h ← step seed c
    let more ← chainHashes step h rest
    return h :: more

/-- `hs` are the hashes of the chunks `cs` after `seed`. -/
inductive Chained (step : H → C → Except ε H) : H → List C → List H → Prop
  | nil (seed : H) : Chained step seed [] []
  | cons {seed h : H} {c : C} {cs : List C} {hs : List H} :
      step seed c = .ok h → Chained step h cs hs → Chained step seed (c :: cs) (h :: hs)

variable {step : H → C → Except ε H}

theorem chainHashes_eq_ok_iff {seed : H} {cs : List C} {hs : List H} :
    chainHashes step seed cs = .ok hs ↔ Chained step seed cs hs := by
  constructor
  · intro h
    induction cs generalizing seed hs with
    | nil =>
      cases h
      exact .nil seed
    | cons c rest ih =>
      rw [chainHashes] at h
      cases hHead : step seed c with
      | error e =>
        rw [hHead] at h
        cases h
      | ok first =>
        rw [hHead] at h
        change (chainHashes step first rest >>= fun more => .ok (first :: more)) = _ at h
        cases hRest : chainHashes step first rest with
        | error e =>
          rw [hRest] at h
          cases h
        | ok more =>
          rw [hRest] at h
          cases h
          exact .cons hHead (ih hRest)
  · intro h
    induction h with
    | nil => rfl
    | cons hHead _ ih =>
      rw [chainHashes, hHead]
      change (chainHashes step _ _ >>= fun more => .ok (_ :: more)) = _
      rw [ih]
      rfl

theorem chainHashes_append (seed : H) (cs ds : List C) :
    chainHashes step seed (cs ++ ds) = (do
      let hs ← chainHashes step seed cs
      let ks ← chainHashes step (hs.getLastD seed) ds
      return hs ++ ks) := by
  induction cs generalizing seed with
  | nil =>
    change chainHashes step seed ds = (chainHashes step seed ds >>= fun ks => .ok ks)
    cases chainHashes step seed ds <;> rfl
  | cons c rest ih =>
    rw [cons_append, chainHashes, chainHashes]
    cases step seed c with
    | error e => rfl
    | ok h =>
      change (chainHashes step h (rest ++ ds) >>= fun more => .ok (h :: more)) =
        ((chainHashes step h rest >>= fun more => .ok (h :: more)) >>= _)
      rw [ih]
      cases chainHashes step h rest with
      | error e => rfl
      | ok hs =>
        have hLast : (h :: hs).getLastD seed = hs.getLastD h := by
          cases hs <;> rfl
        change ((chainHashes step (hs.getLastD h) ds >>= fun ks => .ok (hs ++ ks)) >>= _) =
          (chainHashes step ((h :: hs).getLastD seed) ds >>= fun ks => .ok (h :: hs ++ ks))
        rw [hLast]
        cases chainHashes step (hs.getLastD h) ds <;> rfl

namespace Chained

variable {seed : H} {cs ds : List C} {hs ks : List H}

theorem length_eq (h : Chained step seed cs hs) : hs.length = cs.length := by
  induction h with
  | nil => rfl
  | cons _ _ ih => rw [length_cons, length_cons, ih]

theorem unique (h : Chained step seed cs hs) (g : Chained step seed cs ks) : hs = ks := by
  induction h generalizing ks with
  | nil =>
    cases g
    rfl
  | cons hHead _ ih =>
    cases g with
    | cons gHead gRest =>
      rw [hHead] at gHead
      cases gHead
      rw [ih gRest]

theorem append (h : Chained step seed cs hs) (g : Chained step (hs.getLastD seed) ds ks) :
    Chained step seed (cs ++ ds) (hs ++ ks) := by
  rw [← chainHashes_eq_ok_iff] at h g ⊢
  rw [chainHashes_append, h]
  change (chainHashes step (hs.getLastD seed) ds >>= fun ks => .ok (hs ++ ks)) = _
  rw [g]
  rfl

theorem split (h : Chained step seed cs hs) (n : Nat) :
    Chained step seed (cs.take n) (hs.take n) ∧
      Chained step ((hs.take n).getLastD seed) (cs.drop n) (hs.drop n) := by
  induction h generalizing n with
  | nil seed =>
    rw [take_nil, take_nil, drop_nil, drop_nil]
    exact ⟨.nil seed, .nil seed⟩
  | @cons seed first c cs hs hHead hRest ih =>
    cases n with
    | zero => exact ⟨.nil seed, .cons hHead hRest⟩
    | succ n =>
      obtain ⟨hTake, hDrop⟩ := ih n
      refine ⟨.cons hHead hTake, ?_⟩
      rw [take_succ_cons, drop_succ_cons, drop_succ_cons]
      have hLast : (first :: hs.take n).getLastD seed = (hs.take n).getLastD first := by
        cases hs.take n <;> rfl
      rw [hLast]
      exact hDrop

theorem concat_iff {c : C} : Chained step seed (cs ++ [c]) ks ↔
    ∃ hs h, Chained step seed cs hs ∧ step (hs.getLastD seed) c = .ok h ∧ ks = hs ++ [h] := by
  constructor
  · intro h
    obtain ⟨hFirst, hLast⟩ := h.split cs.length
    rw [take_left] at hFirst
    rw [drop_left] at hLast
    have hJoin := take_append_drop cs.length ks
    generalize ks.take cs.length = hs at hFirst hLast hJoin
    generalize ks.drop cs.length = last at hLast hJoin
    cases hLast with
    | cons hStep hNil =>
      cases hNil
      exact ⟨hs, _, hFirst, hStep, hJoin.symm⟩
  · rintro ⟨hs, h, hFirst, hStep, rfl⟩
    exact hFirst.append (.cons hStep (.nil h))

theorem step_at (h : Chained step seed cs hs) {i : Nat} {x : H} (hx : hs[i]? = some x) :
    ∃ p c, (if i = 0 then some seed else hs[i - 1]?) = some p ∧ cs[i]? = some c ∧
      step p c = .ok x := by
  induction h generalizing i with
  | nil => simp at hx
  | @cons seed first c cs hs hHead hRest ih =>
    cases i with
    | zero =>
      cases hx
      exact ⟨seed, c, rfl, rfl, hHead⟩
    | succ i =>
      obtain ⟨p, d, hp, hd, hStep⟩ := ih hx
      refine ⟨p, d, ?_, hd, hStep⟩
      cases i with
      | zero => exact hp
      | succ i => exact hp

end Chained

/-- The hash of a chunk determines the chunk, and the hash before it where that is a hash of
the chain too; `admissible` are the chunks that occur. -/
structure Determines (step : H → C → Except ε H) (admissible : C → Prop) : Prop where
  chunk : ∀ {p c d h}, admissible c → admissible d → step p c = .ok h → step p d = .ok h → c = d
  before : ∀ {p q c d h p' q' c' d'}, admissible c → admissible d → step p' c' = .ok p →
    step q' d' = .ok q → step p c = .ok h → step q d = .ok h → p = q ∧ c = d

/-- Two chains from one seed have the same hash at a position only if the chunks agree up to
there. -/
theorem Chained.take_eq_of_getElem? {admissible : C → Prop} {seed : H} {cs ds : List C}
    {hs ks : List H} (hDetermines : Determines step admissible)
    (hcs : ∀ c ∈ cs, admissible c) (hds : ∀ c ∈ ds, admissible c)
    (h : Chained step seed cs hs) (g : Chained step seed ds ks) {i : Nat} {x : H}
    (hx : hs[i]? = some x) (gx : ks[i]? = some x) : cs.take (i + 1) = ds.take (i + 1) := by
  -- by induction on the position: the hash before it is the same in both chains
  induction i generalizing x with
  | zero =>
    obtain ⟨p, c, hp, hc, hStep⟩ := h.step_at hx
    obtain ⟨q, d, hq, hd, gStep⟩ := g.step_at gx
    cases hp
    cases hq
    have hEq := hDetermines.chunk (hcs c (mem_of_getElem? hc))
      (hds d (mem_of_getElem? hd)) hStep gStep
    rw [take_add_one, take_add_one, hc, hd, hEq]
    rfl
  | succ i ih =>
    obtain ⟨p, c, hp, hc, hStep⟩ := h.step_at hx
    obtain ⟨q, d, hq, hd, gStep⟩ := g.step_at gx
    rw [if_neg (Nat.succ_ne_zero i), Nat.add_sub_cancel] at hp hq
    obtain ⟨_, _, _, _, hBefore⟩ := h.step_at hp
    obtain ⟨_, _, _, _, gBefore⟩ := g.step_at hq
    obtain ⟨hSame, hEq⟩ := hDetermines.before (hcs c (mem_of_getElem? hc))
      (hds d (mem_of_getElem? hd)) hBefore gBefore hStep gStep
    rw [take_add_one, take_add_one (l := ds), ih hp (hSame ▸ hq), hc, hd, hEq]

theorem Chained.getElem?_of_take_eq {seed : H} {cs ds : List C} {hs ks : List H}
    (h : Chained step seed cs hs) (g : Chained step seed ds ks) {i : Nat}
    (hTake : cs.take (i + 1) = ds.take (i + 1)) : hs[i]? = ks[i]? := by
  have hPrefix := (h.split (i + 1)).1
  rw [hTake] at hPrefix
  have hEq := hPrefix.unique (g.split (i + 1)).1
  have hAt : (hs.take (i + 1))[i]? = (ks.take (i + 1))[i]? := by rw [hEq]
  rwa [getElem?_take_of_lt (Nat.lt_succ_self i), getElem?_take_of_lt (Nat.lt_succ_self i)] at hAt

/-- Horner's rule, from the first word on. -/
def polynomialHash (base : UInt64) (window : List UInt64) : UInt64 :=
  window.foldl (fun h x => h * base + x) 0

theorem foldl_horner (base h : UInt64) (window : List UInt64) :
    window.foldl (fun h x => h * base + x) h =
      h * (· * base)^[window.length] 1 + polynomialHash base window := by
  unfold polynomialHash
  induction window generalizing h with
  | nil =>
    simp only [foldl_nil, length_nil, Function.iterate_zero_apply]
    grind
  | cons x rest ih =>
    rw [foldl_cons, foldl_cons, ih, ih (0 * base + x), length_cons, Function.iterate_succ_apply']
    grind

theorem polynomialHash_shift (base x y : UInt64) (window : List UInt64) :
    polynomialHash base (window ++ [y]) =
      (polynomialHash base (x :: window) - x * (· * base)^[window.length] 1) * base + y := by
  have hLeaves := foldl_horner base (0 * base + x) window
  rw [show window.foldl _ (0 * base + x) = polynomialHash base (x :: window) from rfl] at hLeaves
  rw [hLeaves, show polynomialHash base (window ++ [y]) = polynomialHash base window * base + y by
    unfold polynomialHash
    rw [foldl_concat]]
  grind

variable {α : Type}

/-- The windows of a length, one for every position that has a whole one. -/
def windows (k : Nat) (l : List α) : List (List α) :=
  (List.range (l.length + 1 - k)).map fun i => (l.drop i).take k

theorem length_windows (k : Nat) (l : List α) : (windows k l).length = l.length + 1 - k := by
  rw [windows, length_map, length_range]

variable {k : Nat} {l : List α}

theorem getElem?_windows {i : Nat} (h : i + k ≤ l.length) :
    (windows k l)[i]? = some ((l.drop i).take k) := by
  rw [windows, getElem?_map, getElem?_range (by omega)]
  rfl

theorem windows_eq_cons (h : k ≤ l.length) : windows k l = l.take k :: (windows k l).tail := by
  have hSome : (windows k l)[0]? = some (l.take k) := getElem?_windows (i := 0) (by omega)
  cases hAll : windows k l with
  | nil =>
    rw [hAll] at hSome
    cases hSome
  | cons w others =>
    rw [hAll] at hSome
    exact congrArg (· :: others) (Option.some.inj hSome)

theorem length_of_mem_windows {window : List α} (h : window ∈ windows k l) : window.length = k := by
  obtain ⟨i, hi, rfl⟩ := mem_map.mp h
  have hRange := mem_range.mp hi
  rw [length_take, length_drop]
  omega

theorem windows_cons {x : α} (h : k ≤ l.length) :
    windows k (x :: l) = (x :: l).take k :: windows k l := by
  unfold windows
  rw [length_cons, show l.length + 1 + 1 - k = l.length + 1 - k + 1 by omega,
    range_succ_eq_map, map_cons, map_map]
  rfl

end LMCache.Lib
