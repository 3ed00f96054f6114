import Mathlib.Data.List.Basic
import Mathlib.Tactic.Ring

/-!
# Byte strings

Byte strings as lists of octets: fixed-width integers in both byte orders, the
slice reads and slice assignments of a mutable buffer, and the alignment of an
offset. Every binary format of the development is written with these.
-/

namespace LMCache.Lib

open List

abbrev Bytes := List UInt8

namespace Bytes

/-- One name for the proof, so that every membership test of byte strings has the same term. -/
instance lawfulBEq : LawfulBEq Bytes := inferInstance

/-- The `width` little-endian octets of `n`; higher digits are dropped. -/
def toLE : Nat → Nat → Bytes
  | 0, _ => []
  | width + 1, n => UInt8.ofNat n :: toLE width (n / 256)

def ofLE : Bytes → Nat
  | [] => 0
  | b :: bs => b.toNat + 256 * ofLE bs

def toBE (width n : Nat) : Bytes := (toLE width n).reverse

def ofBE (bs : Bytes) : Nat := ofLE bs.reverse

@[simp] theorem length_toLE (width n : Nat) : (toLE width n).length = width := by
  induction width generalizing n with
  | zero => rfl
  | succ width ih => simp [toLE, ih]

@[simp] theorem length_toBE (width n : Nat) : (toBE width n).length = width := by
  simp [toBE]

theorem ofLE_toLE {width n : Nat} (h : n < 256 ^ width) : ofLE (toLE width n) = n := by
  induction width generalizing n with
  | zero =>
    have hZero : n = 0 := by simpa using h
    rw [hZero]
    rfl
  | succ width ih =>
    have hQuot : n / 256 < 256 ^ width := by
      rw [Nat.div_lt_iff_lt_mul (by decide)]
      simpa [pow_succ] using h
    have hHead : (UInt8.ofNat n).toNat = n % 256 := by simp
    rw [toLE, ofLE, ih hQuot, hHead]
    omega

theorem ofBE_toBE {width n : Nat} (h : n < 256 ^ width) : ofBE (toBE width n) = n := by
  rw [ofBE, toBE, reverse_reverse, ofLE_toLE h]

/-- The bytes `blob[start : start + length]`. -/
def slice (bs : Bytes) (start length : Nat) : Bytes := (bs.drop start).take length

/-- The slice assignment `blob[start : start + len(segment)] = segment`. -/
def assign (bs : Bytes) (start : Nat) (segment : Bytes) : Bytes :=
  bs.take start ++ segment ++ bs.drop (start + segment.length)

def zeros (n : Nat) : Bytes := List.replicate n 0

@[simp] theorem length_zeros (n : Nat) : (zeros n).length = n := length_replicate

theorem getElem?_slice (bs : Bytes) (start length i : Nat) :
    (slice bs start length)[i]? = if i < length then bs[start + i]? else none := by
  unfold slice
  rw [getElem?_take]
  split
  · rw [getElem?_drop]
  · rfl

theorem length_slice (bs : Bytes) (start length : Nat) (h : start + length ≤ bs.length) :
    (slice bs start length).length = length := by
  simp only [slice, length_take, length_drop]
  omega

variable {bs segment : Bytes}

theorem length_assign {start : Nat} (h : start + segment.length ≤ bs.length) :
    (assign bs start segment).length = bs.length := by
  simp only [assign, length_append, length_take, length_drop]
  omega

theorem getElem?_assign {start : Nat} (h : start + segment.length ≤ bs.length) (i : Nat) :
    (assign bs start segment)[i]? =
      if start ≤ i ∧ i < start + segment.length then segment[i - start]? else bs[i]? := by
  have hTake : (bs.take start).length = start := by
    rw [length_take]
    omega
  unfold assign
  rcases Nat.lt_or_ge i start with hBefore | hFrom
  · rw [append_assoc, getElem?_append_left (by omega), getElem?_take,
      if_pos hBefore, if_neg (by omega)]
  · rcases Nat.lt_or_ge i (start + segment.length) with hIn | hAfter
    · rw [append_assoc, getElem?_append_right (by omega), hTake,
        getElem?_append_left (by omega), if_pos ⟨hFrom, hIn⟩]
    · rw [getElem?_append_right (by rw [length_append]; omega), length_append,
        hTake, getElem?_drop, if_neg (by omega)]
      congr 1
      omega

theorem slice_assign_self {start : Nat} (h : start + segment.length ≤ bs.length) :
    slice (assign bs start segment) start segment.length = segment := by
  apply ext_getElem?
  intro i
  rw [getElem?_slice, getElem?_assign h]
  split
  · rw [if_pos (by omega), Nat.add_sub_cancel_left]
  · rw [getElem?_eq_none (by omega)]

theorem slice_assign_of_disjoint {start from' length : Nat} (h : start + segment.length ≤ bs.length)
    (hDisjoint : from' + length ≤ start ∨ start + segment.length ≤ from') :
    slice (assign bs start segment) from' length = slice bs from' length := by
  apply ext_getElem?
  intro i
  rw [getElem?_slice, getElem?_slice, getElem?_assign h]
  split
  · rw [if_neg (by omega)]
  · rfl

theorem slice_append_left {as : Bytes} {start length : Nat} (h : start + length ≤ as.length) :
    slice (as ++ bs) start length = slice as start length := by
  unfold slice
  rw [drop_append_of_le_length (by omega), take_append_of_le_length]
  rw [length_drop]
  omega

theorem slice_append_right {as : Bytes} {start length : Nat} (h : as.length ≤ start) :
    slice (as ++ bs) start length = slice bs (start - as.length) length := by
  unfold slice
  have hSplit : start = as.length + (start - as.length) := by omega
  conv_lhs => rw [hSplit, drop_append]
  rw [Nat.add_sub_cancel_left, drop_eq_nil_of_le (by omega), nil_append]

theorem slice_field (before field after : Bytes) {start width : Nat}
    (hStart : before.length = start) (hWidth : field.length = width) :
    slice (before ++ field ++ after) start width = field := by
  subst hStart hWidth
  simp [slice, append_assoc]

theorem slice_zero_left (as bs : Bytes) : slice (as ++ bs) 0 as.length = as := by
  simp [slice]

/-- Segments assigned one behind the other from `start`. -/
def assignAll (bs : Bytes) (start : Nat) : List Bytes → Bytes
  | [] => bs
  | segment :: rest => assignAll (assign bs start segment) (start + segment.length) rest

theorem assignAll_eq (segments : List Bytes) (bs : Bytes) (start : Nat)
    (h : start + segments.flatten.length ≤ bs.length) :
    assignAll bs start segments =
      bs.take start ++ segments.flatten ++ bs.drop (start + segments.flatten.length) := by
  induction segments generalizing bs start with
  | nil =>
    simp [assignAll]
  | cons segment rest ih =>
    simp only [flatten_cons, length_append] at h
    have hLength : (assign bs start segment).length = bs.length := length_assign (by omega)
    rw [assignAll, ih _ _ (by omega), flatten_cons]
    have hTake : (assign bs start segment).take (start + segment.length) =
        bs.take start ++ segment := by
      unfold assign
      rw [take_append_of_le_length (by simp; omega), take_of_length_le (by simp)]
    have hDrop : (assign bs start segment).drop
        (start + segment.length + rest.flatten.length) =
          bs.drop (start + (segment ++ rest.flatten).length) := by
      unfold assign
      rw [drop_append, drop_eq_nil_of_le (by simp; omega), nil_append, drop_drop]
      congr 1
      simp only [length_append, length_take]
      omega
    rw [hTake, hDrop]
    simp [append_assoc]

theorem assignAll_zeros (segments : List Bytes) :
    assignAll (zeros segments.flatten.length) 0 segments = segments.flatten := by
  rw [assignAll_eq _ _ _ (by simp)]
  simp [zeros]

def encodeUtf8 (cs : List Char) : Bytes := cs.flatMap String.utf8EncodeChar

def decodeUtf8 (bs : Bytes) : Option (List Char) := bs.toByteArray.utf8Decode?.map Array.toList

theorem decodeUtf8_encodeUtf8 (cs : List Char) : decodeUtf8 (encodeUtf8 cs) = some cs := by
  have hEncode : (encodeUtf8 cs).toByteArray = cs.utf8Encode := rfl
  rw [decodeUtf8, hEncode, utf8Decode?_utf8Encode, Option.map_some]

theorem encodeUtf8_append (cs ds : List Char) :
    encodeUtf8 (cs ++ ds) = encodeUtf8 cs ++ encodeUtf8 ds := flatMap_append

theorem length_encodeUtf8_cons (c : Char) (cs : List Char) :
    (encodeUtf8 (c :: cs)).length = c.utf8Size + (encodeUtf8 cs).length := by
  simp [encodeUtf8]

/-- The first multiple of `alignment` from `offset` on. -/
def alignUp (alignment offset : Nat) : Nat :=
  (offset + alignment - 1) / alignment * alignment

theorem dvd_alignUp (alignment offset : Nat) : alignment ∣ alignUp alignment offset :=
  Nat.dvd_mul_left _ _

theorem le_alignUp {alignment : Nat} (h : 0 < alignment) (offset : Nat) :
    offset ≤ alignUp alignment offset := by
  have hMod := Nat.mod_lt (offset + alignment - 1) h
  have hDiv := Nat.div_add_mod (offset + alignment - 1) alignment
  have hComm := Nat.mul_comm alignment ((offset + alignment - 1) / alignment)
  unfold alignUp
  omega

theorem alignUp_lt {alignment : Nat} (h : 0 < alignment) (offset : Nat) :
    alignUp alignment offset < offset + alignment := by
  have hDiv := Nat.div_add_mod (offset + alignment - 1) alignment
  have hComm := Nat.mul_comm alignment ((offset + alignment - 1) / alignment)
  unfold alignUp
  omega

theorem alignUp_mono (alignment : Nat) {offset offset' : Nat} (h : offset ≤ offset') :
    alignUp alignment offset ≤ alignUp alignment offset' :=
  Nat.mul_le_mul_right _ (Nat.div_le_div_right (by omega))

end Bytes

end LMCache.Lib
