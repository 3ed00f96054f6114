import Mathlib.Tactic.IntervalCases
import LMCache.Lib.Bytes
import LMCache.Lib.Tensor

/-!
# Elements in bytes

The elements of a buffer, each in the same number of bytes: words of a fixed size, signed
bytes, 32-bit positions, and rows of narrow signed codes that share bytes.
-/

namespace LMCache.Lib

open List Option

def Bytes.words (size : Nat) (bs : Bytes) : List Bytes :=
  (List.range (bs.length / size)).map fun i => bs.slice (i * size) size

theorem Bytes.length_words (size : Nat) (bs : Bytes) :
    (bs.words size).length = bs.length / size := by
  rw [Bytes.words, length_map, length_range]

def rowsOf {α : Type} (count size : Nat) (values : List α) : List (List α) :=
  (List.range count).map fun r => (values.drop (r * size)).take size

@[simp] theorem length_rowsOf {α : Type} (count size : Nat) (values : List α) :
    (rowsOf count size values).length = count := by
  rw [rowsOf, length_map, length_range]

theorem rowsOf_flatMap {α β : Type} (f : β → List α) {size : Nat} (l : List β)
    (h : ∀ b ∈ l, (f b).length = size) : rowsOf l.length size (l.flatMap f) = l.map f := by
  apply ext_getElem?
  intro i
  rw [rowsOf, getElem?_map, getElem?_map]
  cases hAt : l[i]? with
  | none =>
    rw [getElem?_eq_none (by rw [length_range]; exact List.getElem?_eq_none_iff.mp hAt)]
    rfl
  | some b =>
    have hIn := (List.getElem?_eq_some_iff.mp hAt).1
    have hSize := h b (mem_of_getElem? hAt)
    rw [getElem?_range hIn, map_some, map_some, Option.some.injEq]
    apply ext_getElem?
    intro j
    rw [getElem?_take, getElem?_drop]
    split_ifs with hj
    · rw [Tensor.getElem?_flatMap_const l f h hj, hAt, bind_some]
    · rw [getElem?_eq_none (by omega)]

theorem Bytes.words_flatMap {α : Type} {f : α → Bytes} {size : Nat} (hSize : 0 < size)
    (values : List α) (h : ∀ a ∈ values, (f a).length = size) :
    (Bytes.words size (values.flatMap f)) = values.map f := by
  have hRows := rowsOf_flatMap f values h
  rw [Bytes.words, Tensor.length_flatMap_const values f h, Nat.mul_div_cancel _ hSize]
  exact hRows

/-- The elements of one data type, as the bytes they are stored in. -/
class Storable (α : Type) where
  size : Nat
  toBytes : α → Bytes
  ofBytes : Bytes → α
  size_pos : 0 < size
  length_toBytes : ∀ a, (toBytes a).length = size
  ofBytes_toBytes : ∀ a, ofBytes (toBytes a) = a

namespace Storable

variable {α : Type} [Storable α]

def store (values : List α) : Bytes := values.flatMap toBytes

def load (bs : Bytes) : List α := (bs.words (size α)).map ofBytes

theorem length_store (values : List α) : (store values).length = values.length * size α :=
  Tensor.length_flatMap_const values toBytes fun a _ => length_toBytes a

theorem load_store (values : List α) : load (store values) = values := by
  rw [load, store, Bytes.words_flatMap size_pos values fun a _ => length_toBytes a, List.map_map]
  conv_rhs => rw [← List.map_id values]
  exact map_congr_left fun a _ => ofBytes_toBytes a

end Storable

/-- The bytes of a signed integer, in two's complement and the lowest first. -/
def signedBytes (width : Nat) (n : Int) : Bytes := Bytes.toLE width (n % 256 ^ width).toNat

def signedOfBytes (bs : Bytes) : Int :=
  let n : Int := Bytes.ofLE bs
  if 2 * n < 256 ^ bs.length then n else n - 256 ^ bs.length

@[simp] theorem length_signedBytes (width : Nat) (n : Int) :
    (signedBytes width n).length = width := Bytes.length_toLE ..

theorem signedOfBytes_signedBytes {width : Nat} {n : Int} (hLow : -(256 ^ width) ≤ 2 * n)
    (hHigh : 2 * n < 256 ^ width) : signedOfBytes (signedBytes width n) = n := by
  have hPos : (0 : Int) < 256 ^ width := by positivity
  have hMod := Int.emod_nonneg n hPos.ne'
  have hLt := Int.emod_lt_of_pos n hPos
  have hNat : (n % 256 ^ width).toNat < 256 ^ width := by
    have hCast : ((256 ^ width : Nat) : Int) = 256 ^ width := by push_cast; rfl
    omega
  rw [signedOfBytes, signedBytes, Bytes.ofLE_toLE hNat, Bytes.length_toLE, Int.toNat_of_nonneg hMod]
  rcases lt_or_ge n 0 with hNeg | hNonneg
  · have hEq : n % 256 ^ width = n + 256 ^ width := by
      rw [← Int.add_emod_right, Int.emod_eq_of_lt (by omega) (by omega)]
    rw [hEq, if_neg (by omega)]
    omega
  · rw [Int.emod_eq_of_lt hNonneg (by omega), if_pos hHigh]

/-- The two's-complement field of a code. -/
def codeField (bits : Nat) (code : Int) : Nat := (code % 2 ^ bits).toNat

def fieldCode (bits field : Nat) : Int := ((field ^^^ 2 ^ (bits - 1) : Nat) : Int) - 2 ^ (bits - 1)

/-- Byte `j` of a row, with the first code in the lowest bits; the row is padded with zeros. -/
def packByte (bits : Nat) (codes : List Int) (j : Nat) : UInt8 :=
  UInt8.ofNat ((List.range (8 / bits)).map fun i =>
    codeField bits (codes.getD (j * (8 / bits) + i) 0) * 2 ^ (bits * i)).sum

def rowBytes (bits length : Nat) : Nat := (length + 8 / bits - 1) / (8 / bits)

def packRow (bits : Nat) (codes : List Int) : Bytes :=
  (List.range (rowBytes bits codes.length)).map (packByte bits codes)

def unpackByte (bits : Nat) (b : UInt8) : List Int :=
  (List.range (8 / bits)).map fun i => fieldCode bits (b.toNat / 2 ^ (bits * i) % 2 ^ bits)

def unpackRow (bits length : Nat) (row : Bytes) : List Int :=
  (row.flatMap (unpackByte bits)).take length

@[simp] theorem length_packRow (bits : Nat) (codes : List Int) :
    (packRow bits codes).length = rowBytes bits codes.length := by
  rw [packRow, length_map, length_range]

/-- The widths whose codes share bytes. -/
def IsPackedWidth (bits : Nat) : Prop := bits = 2 ∨ bits = 4

def FitsWidth (bits : Nat) (code : Int) : Prop := -2 ^ (bits - 1) ≤ code ∧ code < 2 ^ (bits - 1)

theorem fieldCode_codeField {bits : Nat} (hBits : IsPackedWidth bits) {code : Int}
    (hFits : FitsWidth bits code) : fieldCode bits (codeField bits code) = code := by
  obtain ⟨hLow, hHigh⟩ := hFits
  rcases hBits with rfl | rfl
  · norm_num at hLow hHigh
    interval_cases code <;> rfl
  · norm_num at hLow hHigh
    interval_cases code <;> rfl

theorem codeField_lt (bits : Nat) (code : Int) : codeField bits code < 2 ^ bits := by
  have hPos : (0 : Int) < 2 ^ bits := by positivity
  have hLt := Int.emod_lt_of_pos code hPos
  have hMod := Int.emod_nonneg code hPos.ne'
  have hCast : ((2 ^ bits : Nat) : Int) = 2 ^ bits := by push_cast; rfl
  unfold codeField
  omega

theorem field_of_sum {bits : Nat} (hBits : IsPackedWidth bits) (f : Nat → Nat)
    (hField : ∀ k, f k < 2 ^ bits) {i : Nat} (hi : i < 8 / bits) :
    (UInt8.ofNat ((List.range (8 / bits)).map fun k => f k * 2 ^ (bits * k)).sum).toNat /
      2 ^ (bits * i) % 2 ^ bits = f i := by
  rcases hBits with rfl | rfl
  · have h0 := hField 0
    have h1 := hField 1
    have h2 := hField 2
    have h3 := hField 3
    simp only [List.range, List.range.loop, map_cons, map_nil, sum_cons,
      sum_nil, UInt8.toNat_ofNat', Nat.reduceDiv, Nat.reduceMul, Nat.reducePow]
      at h0 h1 h2 h3 hi ⊢
    interval_cases i <;> norm_num <;> omega
  · have h0 := hField 0
    have h1 := hField 1
    simp only [List.range, List.range.loop, map_cons, map_nil, sum_cons,
      sum_nil, UInt8.toNat_ofNat', Nat.reduceDiv, Nat.reduceMul, Nat.reducePow]
      at h0 h1 hi ⊢
    interval_cases i <;> norm_num <;> omega

theorem field_packByte {bits : Nat} (hBits : IsPackedWidth bits) (codes : List Int) (j : Nat)
    {i : Nat} (hi : i < 8 / bits) :
    (packByte bits codes j).toNat / 2 ^ (bits * i) % 2 ^ bits =
      codeField bits (codes.getD (j * (8 / bits) + i) 0) :=
  field_of_sum hBits (fun k => codeField bits (codes.getD (j * (8 / bits) + k) 0))
    (fun _ => codeField_lt bits _) hi

theorem unpackRow_packRow {bits : Nat} (hBits : IsPackedWidth bits) {codes : List Int}
    (hFits : ∀ code ∈ codes, FitsWidth bits code) :
    unpackRow bits codes.length (packRow bits codes) = codes := by
  have hPer : 0 < 8 / bits := by
    rcases hBits with rfl | rfl <;> decide
  apply ext_getElem?
  intro t
  rw [unpackRow, getElem?_take]
  split_ifs with ht
  · have hBound : t / (8 / bits) < rowBytes bits codes.length := by
      unfold rowBytes
      rw [Nat.div_lt_iff_lt_mul hPer]
      have hUp := Nat.lt_div_mul_add hPer (a := codes.length + 8 / bits - 1)
      omega
    rw [← Nat.div_add_mod' t (8 / bits), Tensor.getElem?_flatMap_const _ _
        (fun b _ => by rw [unpackByte, length_map, length_range])
        (Nat.mod_lt t hPer), packRow, getElem?_map, getElem?_range hBound,
      map_some, bind_some, unpackByte, getElem?_map,
      getElem?_range (Nat.mod_lt t hPer), map_some,
      field_packByte hBits codes _ (Nat.mod_lt t hPer), Nat.div_add_mod',
      getD_eq_getElem?_getD, getElem?_eq_getElem ht, getD_some,
      fieldCode_codeField hBits (hFits _ (getElem_mem ht))]
  · rw [getElem?_eq_none (by omega)]

end LMCache.Lib
