import Mathlib.Data.Nat.Count

/-!
# The bytes of a native bitmap

`Bitmap` of the native extension as it is stored: a size in bits and a vector of bytes, eight
bits a byte with the lowest bit first. The last byte can hold padding bits past the size.
Every operation is translated with its byte masks; `bit` reads one bit of the vector, padding
included, and each operation has one lemma about `bit`.
-/

namespace LMCache

open List

abbrev Octet := BitVec 8

/-- `static_cast<uint8_t>`. -/
def octet (n : Nat) : Octet := BitVec.ofNat 8 n

def byteCount (size : Nat) : Nat := if size = 0 then 0 else (size - 1) / 8 + 1

variable {k : Nat}

theorem lt_byteCount_iff {size : Nat} : k < byteCount size ↔ 8 * k < size := by
  unfold byteCount
  split <;> omega

theorem ite_gt_eq_min (a b : Nat) : (if a > b then b else a) = min a b := by
  split <;> omega

def builtinPopcount (byte : Octet) : Nat := Nat.count (fun i => byte.getLsbD i = true) 8

/-- `__builtin_ctz` of a byte that is not zero: the position of its lowest set bit. -/
def builtinCtz (byte : Octet) : Nat := (List.range 32).findIdx fun i => byte.getLsbD i

/-- `__builtin_clz` of a byte as a 32-bit number: the zero bits above its highest set bit. -/
def builtinClz (byte : Octet) : Nat :=
  (List.range 32).reverse.findIdx fun i => byte.getLsbD i

theorem builtinCtz_spec : ∀ byte : Octet, byte ≠ 0#8 →
    builtinCtz byte < 8 ∧ byte.getLsbD (builtinCtz byte) = true ∧
      ∀ i < builtinCtz byte, byte.getLsbD i = false := by
  decide +kernel

theorem builtinClz_spec : ∀ byte : Octet, byte ≠ 0#8 →
    31 - builtinClz byte < 8 ∧ byte.getLsbD (31 - builtinClz byte) = true ∧
      ∀ i < 8, 31 - builtinClz byte < i → byte.getLsbD i = false := by
  decide +kernel

def bitAt (data : List Octet) (i : Nat) : Bool := (data.getD (i / 8) 0#8).getLsbD (i % 8)

variable {data : List Octet}

theorem bitAt_set (hk : k < data.length) (byte : Octet) (i : Nat) :
    bitAt (data.set k byte) i = if i / 8 = k then byte.getLsbD (i % 8) else bitAt data i := by
  unfold bitAt
  simp only [getD_eq_getElem?_getD, getElem?_set, hk, ↓reduceIte, eq_comm (b := k)]
  split <;> rfl

theorem bitAt_modify (hk : k < data.length) (f : Octet → Octet) (i : Nat) :
    bitAt (data.modify k f) i =
      if i / 8 = k then (f (data.getD (i / 8) 0#8)).getLsbD (i % 8) else bitAt data i := by
  unfold bitAt
  simp only [getD_eq_getElem?_getD, getElem?_modify]
  by_cases hi : i / 8 = k
  · rw [if_pos hi, hi, getElem?_eq_getElem hk]
    simp
  · rw [if_neg hi]
    simp [Ne.symm hi]

/-- A run of bytes is overwritten with ones. -/
def fillBytes (data : List Octet) (indices : List Nat) : List Octet :=
  indices.foldl (fun data i => data.set i 0xFF#8) data

@[simp] theorem length_fillBytes (data : List Octet) (indices : List Nat) :
    (fillBytes data indices).length = data.length := by
  induction indices generalizing data with
  | nil => rfl
  | cons k rest ih => exact (ih _).trans (length_set ..)

theorem bitAt_fillBytes {indices : List Nat} (hIndices : ∀ k ∈ indices, k < data.length) (i : Nat)
    : bitAt (fillBytes data indices) i = (decide (i / 8 ∈ indices) || bitAt data i) := by
  induction indices generalizing data with
  | nil => simp [fillBytes]
  | cons k rest ih =>
    have hRest : ∀ j ∈ rest, j < (data.set k 0xFF#8).length := by
      intro j hj
      rw [length_set]
      exact hIndices j (mem_cons_of_mem k hj)
    have hOnes : (0xFF#8).getLsbD (i % 8) = true :=
      (by decide : ∀ j < 8, (0xFF#8).getLsbD j = true) _ (Nat.mod_lt _ (by decide))
    rw [fillBytes, foldl_cons, ← fillBytes, ih hRest, bitAt_set (hIndices k mem_cons_self), hOnes]
    by_cases hi : i / 8 = k <;> simp [hi]

theorem getLsbD_octet_ones (width i : Nat) (hi : i < 8) :
    (octet (1 <<< width - 1)).getLsbD i = decide (i < width) := by
  rw [octet, BitVec.getLsbD_ofNat, Nat.shiftLeft_eq, Nat.one_mul, Nat.testBit_two_pow_sub_one]
  simp [hi]

theorem getLsbD_octet_one (offset i : Nat) (hi : i < 8) :
    (octet (1 <<< offset)).getLsbD i = decide (offset = i) := by
  rw [octet, BitVec.getLsbD_ofNat, Nat.shiftLeft_eq, Nat.one_mul, Nat.testBit_two_pow]
  simp [hi]

theorem getLsbD_octet_shifted (width low i : Nat) (hi : i < 8) :
    (octet ((1 <<< width - 1) <<< low)).getLsbD i =
      (decide (low ≤ i) && decide (i < low + width)) := by
  rw [octet, BitVec.getLsbD_ofNat, Nat.testBit_shiftLeft, Nat.shiftLeft_eq 1, Nat.one_mul,
    Nat.testBit_two_pow_sub_one]
  by_cases hLow : low ≤ i
  · simp [hi, hLow, Nat.sub_lt_iff_lt_add' hLow]
  · simp [hLow]

structure NativeBitmap where
  size : Nat
  data : List Octet
  length_data : data.length = byteCount size
  deriving DecidableEq

namespace NativeBitmap

/-- `Bitmap(size)`. -/
def zeros (size : Nat) : NativeBitmap where
  size := size
  data := List.replicate (byteCount size) 0#8
  length_data := length_replicate

def modifyByte (b : NativeBitmap) (k : Nat) (f : Octet → Octet) : NativeBitmap where
  size := b.size
  data := b.data.modify k f
  length_data := (length_modify ..).trans b.length_data

/-- The bytes of `[first, last)` are overwritten with ones. -/
def fill (b : NativeBitmap) (first last : Nat) : NativeBitmap where
  size := b.size
  data := fillBytes b.data (List.range' first (last - first))
  length_data := (length_fillBytes ..).trans b.length_data

/-- `Bitmap(size, prefix_bits)`: full bytes of ones, then the partial byte. -/
def leading (size prefixBits : Nat) : NativeBitmap :=
  if prefixBits = 0 ∨ size = 0 then zeros size
  else
    let prefixBits := if prefixBits > size then size else prefixBits
    let fullBytes := prefixBits / 8
    let filled := (zeros size).fill 0 fullBytes
    let remaining := prefixBits % 8
    if remaining > 0 then filled.modifyByte fullBytes fun _ => octet (1 <<< remaining - 1)
    else filled

def set (b : NativeBitmap) (index : Nat) : NativeBitmap :=
  if index ≥ b.size then b
  else b.modifyByte (index / 8) fun byte => byte ||| octet (1 <<< (index % 8))

def batchedSet (b : NativeBitmap) (indices : List Nat) : NativeBitmap := indices.foldl set b

/-- `set_range`: the head byte, whole bytes in the middle, the tail byte. -/
def setRange (b : NativeBitmap) (start stop : Nat) : NativeBitmap :=
  let stop := if stop > b.size then b.size else stop
  if start ≥ stop then b
  else
    let firstByte := start / 8
    let lastByte := (stop - 1) / 8
    let headLow := start % 8
    if firstByte = lastByte then
      let width := stop - start
      b.modifyByte firstByte fun byte => byte ||| octet ((1 <<< width - 1) <<< headLow)
    else
      let head := b.modifyByte firstByte fun byte => byte ||| octet (0xFF <<< headLow)
      let middle := head.fill (firstByte + 1) lastByte
      let tailWidth := stop - lastByte * 8
      middle.modifyByte lastByte fun byte => byte ||| octet (1 <<< tailWidth - 1)

def clear (b : NativeBitmap) (index : Nat) : NativeBitmap :=
  if index ≥ b.size then b
  else b.modifyByte (index / 8) fun byte => byte &&& ~~~octet (1 <<< (index % 8))

def test (b : NativeBitmap) (index : Nat) : Bool :=
  if index ≥ b.size then false
  else ((b.data.getD (index / 8) 0#8) >>> (index % 8)) &&& 1#8 != 0#8

/-- The binary operators work byte by byte up to the smaller size. -/
def zipBytes (f : Octet → Octet → Octet) (a b : NativeBitmap) : NativeBitmap :=
  let resultSize := if a.size ≤ b.size then a.size else b.size
  { size := resultSize
    data := (List.range (byteCount resultSize)).map fun i =>
      f (a.data.getD i 0#8) (b.data.getD i 0#8)
    length_data := by rw [length_map, length_range] }

def and (a b : NativeBitmap) : NativeBitmap := zipBytes (· &&& ·) a b

def or (a b : NativeBitmap) : NativeBitmap := zipBytes (· ||| ·) a b

def flipBytes (b : NativeBitmap) : NativeBitmap where
  size := b.size
  data := b.data.map fun byte => ~~~byte
  length_data := (length_map ..).trans b.length_data

/-- `~`: the padding of the last byte is masked out. -/
def not (b : NativeBitmap) : NativeBitmap :=
  let result := b.flipBytes
  let remainingBits := b.size % 8
  if remainingBits > 0 then
    result.modifyByte (result.data.length - 1) fun byte => byte &&& octet (1 <<< remainingBits - 1)
  else result

/-- `data_.back()`. -/
def back (b : NativeBitmap) : Octet := b.data.getD (b.data.length - 1) 0#8

def popcount (b : NativeBitmap) : Nat :=
  if b.data = [] then 0
  else
    let count := (List.range (b.size / 8)).foldl
      (fun count i => count + builtinPopcount (b.data.getD i 0#8)) 0
    let remainingBits := b.size % 8
    if remainingBits > 0 then
      count + builtinPopcount (b.back &&& octet (1 <<< remainingBits - 1))
    else count

/-- The loop of `clz` over the full bytes; the flag tells that it returned from inside. -/
def clzLoop : List Octet → Nat → Nat × Bool
  | [], count => (count, false)
  | byte :: rest, count =>
    if byte = 0#8 then clzLoop rest (count + 8) else (count + builtinCtz byte, true)

/-- `count_leading_zeros`. -/
def clz (b : NativeBitmap) : Nat :=
  if b.size = 0 then 0
  else
    let (count, returned) := clzLoop (b.data.take (b.size / 8)) 0
    if returned then count
    else
      let remainingBits := b.size % 8
      if remainingBits > 0 then
        let lastByte := b.back &&& octet (1 <<< remainingBits - 1)
        if lastByte = 0#8 then count + remainingBits else count + builtinCtz lastByte
      else count

/-- `count_leading_ones`. -/
def clo (b : NativeBitmap) : Nat := b.not.clz

/-- The loop of `highest_set_bit` over the bytes below `byte`, from the last one down. -/
def highestLoop (data : List Octet) : Nat → Int
  | 0 => -1
  | byte + 1 =>
    let value := data.getD byte 0#8
    if value ≠ 0#8 then ((byte * 8 + (31 - builtinClz value) : Nat) : Int)
    else highestLoop data byte

def highestSetBit (b : NativeBitmap) : Int := highestLoop b.data b.data.length

/-- The loop of `get_indices` over one byte: its lowest set bit is taken and cleared. A byte
has eight bits, so eight rounds empty it. -/
def takeBits : Nat → Octet → List Nat
  | 0, _ => []
  | rounds + 1, byte =>
    if byte = 0#8 then []
    else builtinCtz byte :: takeBits rounds (byte &&& (byte - 1#8))

def getIndices (b : NativeBitmap) : List Nat :=
  (List.range b.data.length).flatMap fun i =>
    ((takeBits 8 (b.data.getD i 0#8)).map fun bit => i * 8 + bit).filter fun idx =>
      decide (idx < b.size)

theorem takeBits_eq : ∀ byte : Octet, takeBits 8 byte = (List.range 8).filter byte.getLsbD := by
  decide +kernel

/-- One bit of the vector, padding included. -/
def bit (b : NativeBitmap) (i : Nat) : Bool := bitAt b.data i

variable {b : NativeBitmap}

theorem bit_of_le {i : Nat} (h : 8 * byteCount b.size ≤ i) : b.bit i = false := by
  have hLength : b.data.length ≤ i / 8 := by
    rw [b.length_data]
    omega
  simp [bit, bitAt, getD_eq_getElem?_getD, getElem?_eq_none hLength]

@[simp] theorem size_zeros (size : Nat) : (zeros size).size = size := rfl

@[simp] theorem bit_zeros (size i : Nat) : (zeros size).bit i = false := by
  simp only [bit, bitAt, zeros, getD_eq_getElem?_getD, getElem?_replicate]
  split <;> simp

theorem bit_modifyByte {k : Nat} (hk : k < byteCount b.size) (f : Octet → Octet) (i : Nat) :
    (b.modifyByte k f).bit i =
      if i / 8 = k then (f (b.data.getD (i / 8) 0#8)).getLsbD (i % 8) else b.bit i :=
  bitAt_modify (b.length_data.symm ▸ hk) f i

theorem bit_modifyByte_or {k : Nat} (hk : k < byteCount b.size) (mask : Octet) (i : Nat) :
    (b.modifyByte k fun byte => byte ||| mask).bit i =
      ((decide (i / 8 = k) && mask.getLsbD (i % 8)) || b.bit i) := by
  rw [bit_modifyByte hk]
  by_cases hi : i / 8 = k
  · simp [hi, bit, bitAt, Bool.or_comm]
  · simp [hi]

theorem bit_fill {first last : Nat} (hLast : last ≤ byteCount b.size) (i : Nat) :
    (b.fill first last).bit i = (decide (first ≤ i / 8 ∧ i / 8 < last) || b.bit i) := by
  have hIndices : ∀ k ∈ List.range' first (last - first), k < b.data.length := by
    intro k hk
    rw [mem_range'_1] at hk
    rw [b.length_data]
    omega
  have hMem : i / 8 ∈ List.range' first (last - first) ↔ first ≤ i / 8 ∧ i / 8 < last := by
    rw [mem_range'_1]
    omega
  rw [bit, fill, bitAt_fillBytes hIndices, decide_eq_decide.mpr hMem]
  rfl

@[simp] theorem size_leading (size prefixBits : Nat) : (leading size prefixBits).size = size := by
  unfold leading
  rw [ite_gt_eq_min]
  dsimp only
  split
  · rfl
  · split <;> rfl

theorem bit_leading (size prefixBits i : Nat) :
    (leading size prefixBits).bit i = decide (i < min prefixBits size) := by
  unfold leading
  rw [ite_gt_eq_min]
  dsimp only
  split
  · rename_i hEmpty
    rw [bit_zeros, eq_comm, decide_eq_false_iff_not]
    omega
  rename_i hSome
  have hFull : min prefixBits size / 8 ≤ byteCount (zeros size).size := by
    rw [size_zeros]
    unfold byteCount
    split <;> omega
  split
  · have hByte : min prefixBits size / 8 <
        byteCount ((zeros size).fill 0 (min prefixBits size / 8)).size :=
      lt_byteCount_iff.mpr (by simp only [fill, size_zeros]; omega)
    rw [bit_modifyByte hByte, bit_fill hFull, bit_zeros, Bool.or_false,
      getLsbD_octet_ones _ _ (Nat.mod_lt i (by decide))]
    split
    · exact decide_eq_decide.mpr (by omega)
    · exact decide_eq_decide.mpr (by omega)
  · rw [bit_fill hFull, bit_zeros, Bool.or_false]
    exact decide_eq_decide.mpr (by omega)

@[simp] theorem size_set (b : NativeBitmap) (index : Nat) : (b.set index).size = b.size := by
  unfold set
  split <;> rfl

theorem bit_set (b : NativeBitmap) (index i : Nat) :
    (b.set index).bit i = ((decide (i < b.size) && decide (i = index)) || b.bit i) := by
  unfold set
  split
  · rename_i hOut
    have hNot : ¬ (i < b.size ∧ i = index) := by omega
    simp only [← Bool.decide_and, hNot, decide_false, Bool.false_or]
  · rename_i hIn
    have hByte : index / 8 < byteCount b.size := lt_byteCount_iff.mpr (by omega)
    rw [bit_modifyByte_or hByte, getLsbD_octet_one _ _ (Nat.mod_lt i (by decide)),
      ← Bool.decide_and, ← Bool.decide_and]
    congr 1
    exact decide_eq_decide.mpr (by omega)

@[simp] theorem size_setRange (b : NativeBitmap) (start stop : Nat) :
    (b.setRange start stop).size = b.size := by
  unfold setRange
  rw [ite_gt_eq_min]
  dsimp only
  split
  · rfl
  · split <;> rfl

theorem bit_setRange (b : NativeBitmap) (start stop i : Nat) :
    (b.setRange start stop).bit i =
      ((decide (i < b.size) && (decide (start ≤ i) && decide (i < stop))) || b.bit i) := by
  have hMin : (if stop > b.size then b.size else stop) = min stop b.size :=
    ite_gt_eq_min stop b.size
  have hMod := Nat.mod_lt i (by decide : 8 > 0)
  unfold setRange
  rw [hMin]
  dsimp only
  split
  · rename_i hEmpty
    have hNot : ¬ (i < b.size ∧ start ≤ i ∧ i < stop) := by omega
    simp only [← Bool.decide_and, hNot, decide_false, Bool.false_or]
  rename_i hSome
  have hFirst : start / 8 < byteCount b.size := lt_byteCount_iff.mpr (by omega)
  have hLast : (min stop b.size - 1) / 8 < byteCount b.size := lt_byteCount_iff.mpr (by omega)
  split
  · rename_i hOne
    rw [bit_modifyByte_or hFirst, getLsbD_octet_shifted _ _ _ hMod]
    simp only [← Bool.decide_and]
    congr 1
    exact decide_eq_decide.mpr (by omega)
  · rename_i hMore
    have hBytes : (min stop b.size - 1) / 8 ≤ byteCount (b.modifyByte (start / 8) fun byte =>
        byte ||| octet (0xFF <<< (start % 8))).size := le_of_lt hLast
    have hTail : (min stop b.size - 1) / 8 < byteCount ((b.modifyByte (start / 8) fun byte =>
        byte ||| octet (0xFF <<< (start % 8))).fill (start / 8 + 1)
          ((min stop b.size - 1) / 8)).size := hLast
    rw [bit_modifyByte_or hTail, getLsbD_octet_ones _ _ hMod, bit_fill hBytes,
      bit_modifyByte_or hFirst, show (0xFF : Nat) = 1 <<< 8 - 1 from rfl,
      getLsbD_octet_shifted _ _ _ hMod, ← Bool.or_assoc, ← Bool.or_assoc]
    simp only [← Bool.decide_and, ← Bool.decide_or]
    congr 1
    exact decide_eq_decide.mpr (by omega)

@[simp] theorem size_clear (b : NativeBitmap) (index : Nat) : (b.clear index).size = b.size := by
  unfold clear
  split <;> rfl

theorem bit_clear (b : NativeBitmap) (index i : Nat) :
    (b.clear index).bit i = (!(decide (i < b.size) && decide (i = index)) && b.bit i) := by
  unfold clear
  split
  · rename_i hOut
    have hNot : ¬ (i < b.size ∧ i = index) := by omega
    simp only [← Bool.decide_and, hNot, decide_false, Bool.not_false, Bool.true_and]
  · rename_i hIn
    have hByte : index / 8 < byteCount b.size := lt_byteCount_iff.mpr (by omega)
    rw [bit_modifyByte hByte]
    by_cases hi : i / 8 = index / 8
    · have hMask := getLsbD_octet_one (index % 8) (i % 8) (Nat.mod_lt i (by decide))
      have hMod : i % 8 < 8 := Nat.mod_lt i (by decide)
      have hSame : (index % 8 = i % 8) ↔ i < b.size ∧ i = index := by omega
      rw [if_pos hi, BitVec.getLsbD_and, BitVec.getLsbD_not, hMask, decide_eq_decide.mpr hSame,
        Bool.decide_and]
      simp only [hMod, decide_true, Bool.true_and]
      exact Bool.and_comm _ _
    · have hNot : ¬ (i < b.size ∧ i = index) := by
        rintro ⟨-, rfl⟩
        exact hi rfl
      rw [if_neg hi, ← Bool.decide_and]
      simp only [hNot, decide_false, Bool.not_false, Bool.true_and]

theorem size_zipBytes (f : Octet → Octet → Octet) (a b : NativeBitmap) :
    (zipBytes f a b).size = min a.size b.size := rfl

theorem bit_zipBytes (f : Octet → Octet → Octet) (a b : NativeBitmap) (i : Nat) :
    (zipBytes f a b).bit i = (decide (i / 8 < byteCount (min a.size b.size)) &&
      (f (a.data.getD (i / 8) 0#8) (b.data.getD (i / 8) 0#8)).getLsbD (i % 8)) := by
  have hMin : (if a.size ≤ b.size then a.size else b.size) = min a.size b.size := rfl
  simp only [bit, bitAt, zipBytes, hMin, getD_eq_getElem?_getD, getElem?_map]
  by_cases hByte : i / 8 < byteCount (min a.size b.size)
  · rw [getElem?_eq_getElem (by simpa using hByte)]
    simp [hByte]
  · rw [getElem?_eq_none (by simpa using hByte)]
    simp [hByte]

theorem bit_and (a b : NativeBitmap) (i : Nat) :
    (a.and b).bit i = (decide (i / 8 < byteCount (min a.size b.size)) && (a.bit i && b.bit i)) := by
  rw [and, bit_zipBytes, BitVec.getLsbD_and]
  rfl

theorem bit_or (a b : NativeBitmap) (i : Nat) :
    (a.or b).bit i = (decide (i / 8 < byteCount (min a.size b.size)) && (a.bit i || b.bit i)) := by
  rw [or, bit_zipBytes, BitVec.getLsbD_or]
  rfl

@[simp] theorem size_not (b : NativeBitmap) : b.not.size = b.size := by
  unfold not
  dsimp only
  split <;> rfl

theorem bit_flipBytes (b : NativeBitmap) (i : Nat) :
    b.flipBytes.bit i = (decide (i / 8 < byteCount b.size) && !b.bit i) := by
  have hMod := Nat.mod_lt i (by decide : 8 > 0)
  simp only [bit, bitAt, flipBytes, getD_eq_getElem?_getD, getElem?_map, ← b.length_data]
  by_cases hByte : i / 8 < b.data.length
  · rw [getElem?_eq_getElem hByte]
    simp [hByte, hMod]
  · rw [getElem?_eq_none (Nat.not_lt.mp hByte)]
    simp [hByte]

theorem bit_not (b : NativeBitmap) (i : Nat) : b.not.bit i = (decide (i < b.size) && !b.bit i) := by
  have hMod := Nat.mod_lt i (by decide : 8 > 0)
  unfold not
  dsimp only
  split
  · rename_i hRest
    have hLast : b.flipBytes.data.length - 1 = b.size / 8 := by
      rw [b.flipBytes.length_data, show b.flipBytes.size = b.size from rfl]
      unfold byteCount
      split <;> omega
    have hByte : b.size / 8 < byteCount b.flipBytes.size :=
      lt_byteCount_iff.mpr (by simp only [flipBytes]; omega)
    rw [hLast, bit_modifyByte hByte]
    split
    · rename_i hi
      have hIn : i / 8 < byteCount b.size := lt_byteCount_iff.mpr (by omega)
      have hSame : i % 8 < b.size % 8 ↔ i < b.size := by omega
      rw [BitVec.getLsbD_and, getLsbD_octet_ones _ _ hMod, ← bitAt, ← bit, bit_flipBytes,
        decide_eq_true hIn, Bool.true_and, decide_eq_decide.mpr hSame, Bool.and_comm]
    · rename_i hi
      rw [bit_flipBytes]
      congr 1
      refine decide_eq_decide.mpr ?_
      rw [lt_byteCount_iff]
      omega
  · rename_i hRest
    rw [bit_flipBytes]
    congr 1
    refine decide_eq_decide.mpr ?_
    rw [lt_byteCount_iff]
    omega

end NativeBitmap

end LMCache
