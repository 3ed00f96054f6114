import LMCache.Lib.Words

/-!
# Slices and cursors

`values[start:stop]` with the interpreter's meaning of negative bounds, which count from the
end.

A reader keeps a buffer and the offset it has come to. What is left there says all that the
next read depends on: a field at its front is read back, and the rest is left behind it.
-/

namespace LMCache.Lib

variable {α : Type}

/-- The place a bound of a slice stands for. -/
def sliceBound (length : Nat) (i : Int) : Nat :=
  if i < 0 then (length + i).toNat else i.toNat

/-- `values[start:stop]`. -/
def sliceOf (values : List α) (start stop : Int) : List α :=
  (values.take (sliceBound values.length stop)).drop (sliceBound values.length start)

@[simp] theorem sliceBound_natCast (length n : Nat) : sliceBound length n = n := by
  rw [sliceBound, if_neg (by omega), Int.toNat_natCast]

theorem sliceOf_natCast (values : List α) (start stop : Nat) :
    sliceOf values start stop = (values.take stop).drop start := by
  rw [sliceOf, sliceBound_natCast, sliceBound_natCast]

namespace Bytes

/-- `rest` is what is left of a buffer from `off` on. -/
def Remaining (buf : Bytes) (off : Nat) (rest : Bytes) : Prop :=
  off ≤ buf.length ∧ buf.drop off = rest

variable {buf front rest : Bytes} {off n : Nat}

theorem Remaining.le (h : Remaining buf off (front ++ rest)) (hn : front.length = n) :
    off + n ≤ buf.length := by
  have hLength := congrArg List.length h.2
  rw [List.length_drop, List.length_append, hn] at hLength
  have hOff := h.1
  omega

theorem Remaining.field (h : Remaining buf off (front ++ rest)) (hn : front.length = n) :
    buf.slice off n = front := by
  rw [slice, h.2, ← hn, List.take_left]

theorem Remaining.skip (h : Remaining buf off (front ++ rest)) (hn : front.length = n) :
    Remaining buf (off + n) rest := by
  refine ⟨h.le hn, ?_⟩
  rw [← List.drop_drop, h.2, ← hn, List.drop_left]

theorem Remaining.off_eq {before : Bytes} (h : Remaining (before ++ rest) off rest) :
    off = before.length := by
  have hLength := congrArg List.length h.2
  have hOff := h.1
  rw [List.length_drop, List.length_append] at hLength
  rw [List.length_append] at hOff
  omega

theorem Remaining.fields {fields : List Bytes} (h : Remaining buf off (fields.flatten ++ rest))
    (hn : ∀ field ∈ fields, field.length = n) {i : Nat} {field : Bytes}
    (hAt : fields[i]? = some field) : buf.slice (off + n * i) n = field := by
  induction fields generalizing off i with
  | nil => simp at hAt
  | cons first fields ih =>
    rw [List.flatten_cons, List.append_assoc] at h
    have hFirst := hn first List.mem_cons_self
    cases i with
    | zero =>
      cases hAt
      exact h.field hFirst
    | succ i =>
      rw [Nat.mul_succ, Nat.add_comm (n * i), ← Nat.add_assoc]
      exact ih (h.skip hFirst) (fun field hMem => hn field (List.mem_cons_of_mem _ hMem)) hAt

theorem length_flatten_of_width {fields : List Bytes} (hn : ∀ field ∈ fields, field.length = n) :
    fields.flatten.length = n * fields.length := by
  induction fields with
  | nil => rfl
  | cons first fields ih =>
    rw [List.flatten_cons, List.length_append, hn first List.mem_cons_self,
      ih fun field hMem => hn field (List.mem_cons_of_mem _ hMem), List.length_cons, Nat.mul_succ,
      Nat.add_comm]

end Bytes

end LMCache.Lib
