import Mathlib.Data.List.Nodup
import Mathlib.Data.List.Induction

/-!
# Assignment in order

Positions come one after another, and each takes the first of its offers whose key is not taken.
Positions that share their offers with no other kind of position take these offers in order.
-/

namespace LMCache.Lib

open List

variable {α β κ π : Type} [BEq κ] [LawfulBEq κ] (key : α → κ) (result : α → π → β)
  (offers : π → List α)

/-- What a position adds to the results and to the keys that are taken. -/
def assignStep (found : List β × List κ) (p : π) : List β × List κ :=
  match (offers p).find? fun o => key o ∉ found.2 with
  | none => found
  | some o => (found.1 ++ [result o p], key o :: found.2)

variable {key result offers} {found : List β × List κ}

theorem assignStep_of_none {p : π} (h : (offers p).find? (fun o => key o ∉ found.2) = none) :
    assignStep key result offers found p = found := by
  unfold assignStep
  rw [h]

theorem assignStep_of_some {p : π} {o : α}
    (h : (offers p).find? (fun o => key o ∉ found.2) = some o) :
    assignStep key result offers found p = (found.1 ++ [result o p], key o :: found.2) := by
  unfold assignStep
  rw [h]

theorem positions_sublist {position : β → π} (h : ∀ o p, position (result o p) = p) (ps : List π)
    (found : List β × List κ) :
    ((ps.foldl (assignStep key result offers) found).1.map position).Sublist
      (found.1.map position ++ ps) := by
  induction ps generalizing found with
  | nil => rw [foldl_nil, append_nil]
  | cons p rest ih =>
    refine (ih _).trans ?_
    unfold assignStep
    split
    · exact (sublist_cons_self p rest).append_left _
    · rw [map_append, map_singleton, h, append_assoc, singleton_append]

theorem zipWith_concat (l : List α) (ps : List π) (p : π) :
    List.zipWith result l (ps ++ [p]) =
      List.zipWith result l ps ++ ((l.drop ps.length).head?.map fun o => result o p).toList := by
  induction ps generalizing l with
  | nil =>
    cases l with
    | nil => rfl
    | cons o rest => simp
  | cons q others ih =>
    cases l with
    | nil => rfl
    | cons o rest =>
      rw [cons_append, zipWith_cons_cons, zipWith_cons_cons, ih, cons_append,
        length_cons, drop_succ_cons]

section Kind

variable {kind : π → Bool} {ofKind : β → Bool} {shared : List α}

/-- The positions of a kind have taken the first of the offers that they share. -/
structure Taken (key : α → κ) (result : α → π → β) (kind : π → Bool) (ofKind : β → Bool)
    (shared : List α) (before : List π) (found : List β × List κ) : Prop where
  results : found.1.filter ofKind = List.zipWith result shared (before.filter kind)
  free : shared.filter (fun o => key o ∉ found.2) = shared.drop (before.filter kind).length

variable {found : List β × List κ}

theorem Taken.same {before : List π} {p : π} (h : Taken key result kind ofKind shared before found)
    (hKind : ∀ o p, ofKind (result o p) = kind p) (hNodup : (shared.map key).Nodup)
    (hp : kind p = true) (hOffers : offers p = shared) :
    Taken key result kind ofKind shared (before ++ [p]) (assignStep key result offers found p) := by
  have hFind : (offers p).find? (fun o => key o ∉ found.2) =
      (shared.drop (before.filter kind).length).head? := by
    rw [hOffers, ← h.free, head?_filter]
  have hFilter : (before ++ [p]).filter kind = before.filter kind ++ [p] := by
    rw [filter_append, filter_cons_of_pos hp, filter_nil]
  cases hRest : shared.drop (before.filter kind).length with
  | nil =>
    have hAll : shared.length ≤ (before.filter kind).length := drop_eq_nil_iff.mp hRest
    rw [hRest] at hFind
    rw [assignStep_of_none hFind]
    constructor
    · rw [hFilter, zipWith_concat, hRest, h.results]
      exact (append_nil _).symm
    · rw [hFilter, length_append, length_singleton, drop_eq_nil_of_le (by omega), ← hRest]
      exact h.free
  | cons o rest =>
    have hNext : shared.drop ((before.filter kind).length + 1) = rest := by
      rw [← drop_drop, hRest, drop_one, tail_cons]
    have hOthers : ∀ x ∈ rest, key x ≠ key o := by
      have hSuffix : (o :: rest).map key <:+ shared.map key :=
        hRest ▸ (drop_suffix _ shared).map key
      have hHead := (nodup_cons.mp (hNodup.sublist hSuffix.sublist)).1
      exact fun x hx hEq => hHead (hEq ▸ mem_map_of_mem hx)
    rw [hRest] at hFind
    rw [assignStep_of_some hFind]
    constructor
    · rw [hFilter, zipWith_concat, hRest, filter_append, h.results,
        filter_cons_of_pos (by rw [hKind, hp]), filter_nil]
      rfl
    · have hFewer : shared.filter (fun x => key x ∉ key o :: found.2) =
          (shared.filter fun x => key x ∉ found.2).filter fun x => key x != key o := by
        rw [filter_filter]
        refine filter_congr fun x _ => ?_
        simp [bne]
      rw [hFewer, h.free, hRest, hFilter, length_append, length_singleton, hNext,
        filter_cons_of_neg (by simp)]
      exact filter_eq_self.mpr fun x hx => by simpa using hOthers x hx

theorem Taken.other {before : List π} {p : π} (h : Taken key result kind ofKind shared before found)
    (hKind : ∀ o p, ofKind (result o p) = kind p) (hp : kind p = false)
    (hOffers : ∀ o ∈ offers p, key o ∉ shared.map key) :
    Taken key result kind ofKind shared (before ++ [p]) (assignStep key result offers found p) := by
  have hFilter : (before ++ [p]).filter kind = before.filter kind := by
    rw [filter_append, filter_cons_of_neg (by simp [hp]), filter_nil, append_nil]
  cases hFind : (offers p).find? fun o => key o ∉ found.2 with
  | none =>
    rw [assignStep_of_none hFind]
    exact ⟨hFilter ▸ h.results, hFilter ▸ h.free⟩
  | some o =>
    have hOffer := hOffers o (mem_of_find?_eq_some hFind)
    rw [assignStep_of_some hFind]
    constructor
    · rw [hFilter, filter_append, h.results,
        filter_cons_of_neg (by rw [hKind, hp]; simp), filter_nil, append_nil]
    · rw [hFilter, ← h.free]
      refine filter_congr fun x hx => ?_
      have hNe : key x ≠ key o := fun hEq => hOffer (hEq ▸ mem_map_of_mem hx)
      simp [hNe]

/-- The positions of one kind have the same offers, and no other position offers one of their
keys. -/
theorem taken_foldl {ps : List π} (hKind : ∀ o p, ofKind (result o p) = kind p)
    (hNodup : (shared.map key).Nodup) (hShared : ∀ p ∈ ps, kind p = true → offers p = shared)
    (hOther : ∀ p ∈ ps, kind p = false → ∀ o ∈ offers p, key o ∉ shared.map key) :
    Taken key result kind ofKind shared ps (ps.foldl (assignStep key result offers) ([], [])) := by
  induction ps using List.reverseRecOn with
  | nil =>
    constructor
    · rw [filter_nil, zipWith_nil_right]
      rfl
    · simp
  | append_singleton before p ih =>
    have hBefore := ih (fun q hq => hShared q (mem_append_left _ hq))
      (fun q hq => hOther q (mem_append_left _ hq))
    have hLast : p ∈ before ++ [p] := mem_append_right _ (mem_singleton_self p)
    rw [foldl_concat]
    cases hp : kind p with
    | true => exact hBefore.same hKind hNodup hp (hShared p hLast hp)
    | false => exact hBefore.other hKind hp (hOther p hLast hp)

end Kind

end LMCache.Lib
