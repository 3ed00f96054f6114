import Mathlib.Tactic.Linarith
import LMCache.Lib.JsonReading
import LMCache.MaKV.Format

/-!
# The payload table settles

The loop over the layouts ends. A longer metadata text pushes the payloads further back,
and larger offsets have at least as many digits, so the lengths of the metadata never
shrink from one round to the next. They are bounded, because an offset has only
logarithmically many digits, and a round that does not lengthen the metadata repeats its
table.
-/

namespace LMCache.MaKV

open Lib List Json

variable {F : Type} [PyRuntime F]

def byteLength (cs : List Char) : Nat := (Bytes.encodeUtf8 cs).length

theorem byteLength_append (cs ds : List Char) :
    byteLength (cs ++ ds) = byteLength cs + byteLength ds := by
  rw [byteLength, Bytes.encodeUtf8_append, length_append]
  rfl

theorem byteLength_cons (c : Char) (cs : List Char) :
    byteLength (c :: cs) = c.utf8Size + byteLength cs := Bytes.length_encodeUtf8_cons c cs

theorem byteLength_nil : byteLength [] = 0 := rfl

theorem utf8Size_of_isDigit {c : Char} (h : c.isDigit = true) : c.utf8Size = 1 := by
  simp only [Char.isDigit, Bool.and_eq_true, decide_eq_true_eq] at h
  have hLe : c.val ≤ 0x7f := UInt32.le_trans h.2 (by decide)
  simp [Char.utf8Size, hLe]

theorem byteLength_digits {cs : List Char} (h : ∀ c ∈ cs, c.isDigit = true) :
    byteLength cs = cs.length := by
  induction cs with
  | nil => rfl
  | cons c cs ih =>
    rw [byteLength_cons, utf8Size_of_isDigit (h c (by simp)), ih fun d hd => h d (by simp [hd]),
      length_cons, Nat.add_comm]

def digitCount (n : Nat) : Nat := (Nat.toDigits 10 n).length

theorem byteLength_intText (n : Nat) : byteLength (intText n) = digitCount n := by
  have hText : intText n = Nat.toDigits 10 n := by
    simp [intText, signText]
  rw [hText, byteLength_digits fun c hc => digits_isDigit hc]
  rfl

theorem digitCount_le_iff {n k : Nat} (h : 0 < k) : digitCount n ≤ k ↔ n < 10 ^ k :=
  Nat.length_toDigits_le_iff (by decide) h

theorem digitCount_pos (n : Nat) : 0 < digitCount n := Nat.length_toDigits_pos

theorem digitCount_mono {n n' : Nat} (h : n ≤ n') : digitCount n ≤ digitCount n' :=
  (digitCount_le_iff (digitCount_pos n')).mpr
    (Nat.lt_of_le_of_lt h ((digitCount_le_iff (digitCount_pos n')).mp le_rfl))

theorem byteLength_joinComma (texts : List (List Char)) :
    byteLength (joinComma texts) + 1 =
      (texts.map fun t => byteLength t + 1).sum + (if texts = [] then 1 else 0) := by
  induction texts with
  | nil => rfl
  | cons text texts ih =>
    cases texts with
    | nil => simp [joinComma]
    | cons second rest =>
      have hComma : (',' : Char).utf8Size = 1 := by decide
      rw [joinComma_cons_cons, byteLength_append, byteLength_cons, hComma]
      simp only [map_cons, sum_cons, reduceCtorEq, if_false] at ih ⊢
      omega

/-- The bytes a member takes in the text of its object, its separator included. -/
def memberLength (member : String × Json F) : Nat :=
  byteLength (memberText (member.1, member.2.text)) + 1

theorem byteLength_obj (members : List (String × Json F)) :
    byteLength (text (.obj members)) =
      (members.map memberLength).sum + (if members = [] then 2 else 1) := by
  have hOpen : ('\x7b' : Char).utf8Size = 1 := by decide
  have hClose : ('\x7d' : Char).utf8Size = 1 := by decide
  have hJoin := byteLength_joinComma
    ((sortMembers (memberTexts members)).map memberText)
  have hPerm : ((sortMembers (memberTexts members)).map fun m =>
      byteLength (memberText m) + 1).Perm (members.map memberLength) := by
    rw [memberTexts_eq_map]
    refine ((perm_insertionSort _ _).map _).trans ?_
    rw [map_map]
    exact List.Perm.of_eq rfl
  have hEmpty : ((sortMembers (memberTexts members)).map memberText = []) ↔
      members = [] := by
    rw [memberTexts_eq_map, map_eq_nil_iff, sortMembers, ← length_eq_zero_iff,
      length_insertionSort, length_map, length_eq_zero_iff]
  rw [map_map] at hJoin
  have hSum := hPerm.sum_nat
  simp only [Function.comp_def] at hJoin
  simp only [hEmpty] at hJoin
  rw [text, cons_append, byteLength_cons, byteLength_append, byteLength_cons,
    byteLength_nil, hOpen, hClose]
  split_ifs at hJoin ⊢ <;> omega

theorem byteLength_arr (items : List (Json F)) :
    byteLength (text (.arr items)) =
      (items.map fun i => byteLength i.text + 1).sum + (if items = [] then 2 else 1) := by
  have hOpen : ('[' : Char).utf8Size = 1 := by decide
  have hClose : (']' : Char).utf8Size = 1 := by decide
  have hJoin := byteLength_joinComma (itemTexts items)
  rw [itemTexts_eq_map] at hJoin
  simp only [map_map, Function.comp_def, map_eq_nil_iff] at hJoin
  rw [text, cons_append, byteLength_cons, byteLength_append, byteLength_cons,
    byteLength_nil, hOpen, hClose, itemTexts_eq_map]
  split_ifs at hJoin ⊢ <;> omega

theorem memberLength_assign (key : String) (value value' : Json F)
    (members : List (String × Json F)) :
    ((Dict.assign key value members).map memberLength).sum + byteLength value'.text =
      ((Dict.assign key value' members).map memberLength).sum + byteLength value.text := by
  have hMember : memberLength (key, value) + byteLength value'.text =
      memberLength (key, value') + byteLength value.text := by
    simp only [memberLength, memberText, byteLength_append, byteLength_cons]
    omega
  induction members with
  | nil =>
    simp only [Dict.assign, map_cons, map_nil, sum_cons, sum_nil]
    omega
  | cons member members ih =>
    simp only [Dict.assign]
    split_ifs with hKey
    · simp only [map_cons, sum_cons]
      omega
    · simp only [map_cons, sum_cons]
      omega

theorem assign_ne_nil {κ υ : Type} [DecidableEq κ] (k : κ) (v : υ) (l : List (κ × υ)) :
    Dict.assign k v l ≠ [] := by
  cases l with
  | nil => simp [Dict.assign]
  | cons e rest =>
    rw [Dict.assign]
    split <;> simp

def metaLength (metadata : Metadata F) (table : List PayloadEntry) : Nat :=
  (dumps (withPayloadTable metadata table)).length

def tableText (table : List PayloadEntry) : Json F := .arr (table.map PayloadEntry.toJson)

theorem metaLength_add (metadata : Metadata F) (table table' : List PayloadEntry) :
    metaLength metadata table + byteLength (tableText (F := F) table').text =
      metaLength metadata table' + byteLength (tableText (F := F) table).text := by
  have hAssign := memberLength_assign payloadTableKey (tableText (F := F) table)
    (tableText table') metadata.entries
  have hLength : ∀ t : List PayloadEntry, metaLength metadata t =
      ((Dict.assign payloadTableKey (tableText t) metadata.entries).map memberLength).sum + 1 := by
    intro t
    have hObj := byteLength_obj (Dict.assign payloadTableKey (tableText (F := F) t)
      metadata.entries)
    rw [if_neg (assign_ne_nil _ _ _)] at hObj
    exact hObj
  rw [hLength, hLength]
  omega

theorem byteLength_toJson (entry : PayloadEntry) (offset : Nat) :
    byteLength (PayloadEntry.toJson (F := F) entry).text + digitCount offset =
      byteLength (PayloadEntry.toJson (F := F) { entry with offset := offset }).text +
        digitCount entry.offset := by
  have hObj := byteLength_obj (F := F) [("name", .str entry.name),
    ("offset", .int entry.offset), ("length", .int entry.length)]
  have hObj' := byteLength_obj (F := F) [("name", .str entry.name),
    ("offset", .int offset), ("length", .int entry.length)]
  simp only [map_cons, map_nil, sum_cons, sum_nil, memberLength,
    memberText, byteLength_append, byteLength_cons, text_int, byteLength_intText,
    reduceCtorEq, if_false] at hObj hObj'
  simp only [PayloadEntry.toJson]
  omega

def offsetDigits (table : List PayloadEntry) : Nat :=
  (table.map fun e => digitCount e.offset).sum

theorem byteLength_tableText {table table' : List PayloadEntry}
    (h : table.map (fun e => (e.name, e.length)) = table'.map fun e => (e.name, e.length)) :
    byteLength (tableText (F := F) table).text + offsetDigits table' =
      byteLength (tableText (F := F) table').text + offsetDigits table := by
  have hSum : ∀ t t' : List PayloadEntry,
      t.map (fun e => (e.name, e.length)) = t'.map (fun e => (e.name, e.length)) →
        (t.map fun e => byteLength (PayloadEntry.toJson (F := F) e).text + 1).sum +
            offsetDigits t' =
          (t'.map fun e => byteLength (PayloadEntry.toJson (F := F) e).text + 1).sum +
            offsetDigits t := by
    intro t
    induction t with
    | nil =>
      intro t' hEq
      rw [map_nil] at hEq
      rw [map_eq_nil_iff.mp hEq.symm]
    | cons entry t ih =>
      intro t' hEq
      cases t' with
      | nil => simp at hEq
      | cons entry' t' =>
        simp only [map_cons, List.cons.injEq, Prod.mk.injEq] at hEq
        obtain ⟨⟨hName, hLength⟩, hRest⟩ := hEq
        have hHead := byteLength_toJson (F := F) entry entry'.offset
        have hSame : ({ entry with offset := entry'.offset } : PayloadEntry) = entry' := by
          cases entry
          cases entry'
          simp_all
        rw [hSame] at hHead
        have hTail := ih t' hRest
        simp only [map_cons, sum_cons, offsetDigits] at hTail ⊢
        omega
  have hNil : table.map (PayloadEntry.toJson (F := F)) = [] ↔
      table'.map (PayloadEntry.toJson (F := F)) = [] := by
    have hLengths := congrArg List.length h
    simp only [length_map] at hLengths
    rw [map_eq_nil_iff, map_eq_nil_iff, ← length_eq_zero_iff, hLengths, length_eq_zero_iff]
  have hItems := hSum table table' h
  rw [tableText, tableText, byteLength_arr, byteLength_arr]
  simp only [map_map, Function.comp_def, hNil]
  omega

theorem two_le_byteLength_tableText (table : List PayloadEntry) :
    byteLength (tableText (F := F) []).text ≤ byteLength (tableText (F := F) table).text := by
  rw [tableText, tableText, byteLength_arr, byteLength_arr]
  cases table with
  | nil => exact le_rfl
  | cons entry table =>
    simp only [map_nil, sum_nil, if_true, map_cons, sum_cons, reduceCtorEq, if_false]
    omega

theorem payloadEntries_names (offset offset' : Nat) (payloads : List (String × Bytes)) :
    (payloadEntries offset payloads).map (fun e => (e.name, e.length)) =
      (payloadEntries offset' payloads).map fun e => (e.name, e.length) := by
  induction payloads generalizing offset offset' with
  | nil => rfl
  | cons payload payloads ih =>
    simp only [payloadEntries, map_cons]
    rw [ih]

theorem offsetDigits_mono {offset offset' : Nat} (h : offset ≤ offset')
    (payloads : List (String × Bytes)) :
    offsetDigits (payloadEntries offset payloads) ≤
      offsetDigits (payloadEntries offset' payloads) := by
  induction payloads generalizing offset offset' with
  | nil => exact le_rfl
  | cons payload payloads ih =>
    have hAlign := Bytes.alignUp_mono payloadAlignment h
    have hRest := ih (Nat.add_le_add_right hAlign payload.2.length)
    have hHead := digitCount_mono hAlign
    simp only [payloadEntries, offsetDigits, map_cons, sum_cons] at hRest ⊢
    omega

/-- The room that the payloads and their paddings take at most. -/
def payloadRoom (payloads : List (String × Bytes)) : Nat :=
  (payloads.map fun p => payloadAlignment + p.2.length).sum

theorem offsetDigits_le (offset width : Nat) (hWidth : 0 < width)
    (payloads : List (String × Bytes)) (h : offset + payloadRoom payloads < 10 ^ width) :
    offsetDigits (payloadEntries offset payloads) ≤ payloads.length * width := by
  induction payloads generalizing offset with
  | nil => exact Nat.zero_le _
  | cons payload payloads ih =>
    have hAlign := Bytes.alignUp_lt (by decide : 0 < payloadAlignment) offset
    simp only [payloadRoom, map_cons, sum_cons] at h
    have hRest := ih (Bytes.alignUp payloadAlignment offset + payload.2.length) (by
      unfold payloadRoom
      omega)
    have hHead := (digitCount_le_iff (n := Bytes.alignUp payloadAlignment offset) hWidth).mpr
      (by omega)
    simp only [payloadEntries, offsetDigits, map_cons, sum_cons, length_cons,
      Nat.add_mul, Nat.one_mul] at hRest ⊢
    omega

theorem length_le_payloadRoom (payloads : List (String × Bytes)) :
    payloads.length ≤ payloadRoom payloads := by
  induction payloads with
  | nil => exact le_rfl
  | cons payload payloads ih =>
    have hAlignment : payloadAlignment = 64 := rfl
    simp only [payloadRoom, map_cons, sum_cons, length_cons] at ih ⊢
    omega

section Loop

variable (metadata : Metadata F) (payloads : Payloads)

def nextLength (length : Nat) : Nat :=
  metaLength metadata (payloadEntries (headerSize + length) payloads.entries)

theorem nextTable_eq (table : List PayloadEntry) :
    nextTable metadata payloads table =
      payloadEntries (headerSize + metaLength metadata table) payloads.entries := rfl

theorem nextLength_mono {length length' : Nat} (h : length ≤ length') :
    nextLength metadata payloads length ≤ nextLength metadata payloads length' := by
  have hAdd := metaLength_add metadata (payloadEntries (headerSize + length) payloads.entries)
    (payloadEntries (headerSize + length') payloads.entries)
  have hTable := byteLength_tableText (F := F)
    (payloadEntries_names (headerSize + length) (headerSize + length') payloads.entries)
  have hDigits := offsetDigits_mono (Nat.add_le_add_left h headerSize) payloads.entries
  unfold nextLength
  omega

theorem metaLength_nil_le (table : List PayloadEntry) :
    metaLength metadata [] ≤ metaLength metadata table := by
  have hAdd := metaLength_add metadata [] table
  have hTwo := two_le_byteLength_tableText (F := F) table
  omega

def lengthSide : Nat :=
  21 + metaLength metadata (payloadEntries 0 payloads.entries) + payloadRoom payloads.entries

theorem sq_add_lt_pow (k : Nat) (h : 1 ≤ k) : k ^ 2 + k < 10 ^ k := by
  induction k, h using Nat.le_induction with
  | base => decide
  | succ k hk ih =>
    rw [pow_succ 10 k]
    nlinarith

theorem nextLength_lengthSide :
    nextLength metadata payloads (lengthSide metadata payloads ^ 2) ≤
      lengthSide metadata payloads ^ 2 := by
  have hPow := sq_add_lt_pow (lengthSide metadata payloads) (by unfold lengthSide; omega)
  have hAdd := metaLength_add metadata
    (payloadEntries (headerSize + lengthSide metadata payloads ^ 2) payloads.entries)
    (payloadEntries 0 payloads.entries)
  have hTable := byteLength_tableText (F := F) (payloadEntries_names
    (headerSize + lengthSide metadata payloads ^ 2) 0 payloads.entries)
  have hDigits := offsetDigits_le (headerSize + lengthSide metadata payloads ^ 2)
    (lengthSide metadata payloads) (by unfold lengthSide; omega) payloads.entries (by
      have hSide : headerSize + payloadRoom payloads.entries ≤ lengthSide metadata payloads := by
        unfold lengthSide headerSize
        omega
      omega)
  have hCount := length_le_payloadRoom payloads.entries
  have hSquare : metaLength metadata (payloadEntries 0 payloads.entries) +
      payloads.entries.length * lengthSide metadata payloads ≤
        lengthSide metadata payloads ^ 2 := by
    calc metaLength metadata (payloadEntries 0 payloads.entries) +
          payloads.entries.length * lengthSide metadata payloads
        ≤ (21 + metaLength metadata (payloadEntries 0 payloads.entries)) *
            lengthSide metadata payloads +
          payloadRoom payloads.entries * lengthSide metadata payloads := by
          have hRoom := Nat.mul_le_mul_right (lengthSide metadata payloads) hCount
          have hPos : 1 ≤ lengthSide metadata payloads := by
            unfold lengthSide
            omega
          have hLength := Nat.le_mul_of_pos_right
            (21 + metaLength metadata (payloadEntries 0 payloads.entries)) hPos
          omega
      _ = lengthSide metadata payloads ^ 2 := by
          rw [← Nat.add_mul, Nat.pow_two]
          rfl
  unfold nextLength
  omega

/-- One step of the loop towards its end: the rounds that are left cover what the lengths
can still grow. -/
theorem layoutRounds_isSome (rounds : Nat) (table : List PayloadEntry) {bound : Nat}
    (hBound : nextLength metadata payloads bound ≤ bound)
    (hGrows : metaLength metadata table ≤ nextLength metadata payloads (metaLength metadata table))
    (hLength : metaLength metadata table ≤ bound)
    (hRounds : bound + 2 ≤ rounds + metaLength metadata table) :
    ∃ settled, layoutRounds metadata payloads rounds table = some settled := by
  induction rounds generalizing table with
  | zero => omega
  | succ rounds ih =>
    rw [layoutRounds]
    split
    · exact ⟨table, rfl⟩
    · have hNextLength : metaLength metadata (nextTable metadata payloads table) =
          nextLength metadata payloads (metaLength metadata table) := rfl
      rcases Nat.lt_or_ge (metaLength metadata table)
        (metaLength metadata (nextTable metadata payloads table)) with hLonger | hSame
      · refine ih _ ?_ ?_ (by omega)
        · rw [hNextLength]
          exact nextLength_mono metadata payloads hGrows
        · rw [hNextLength]
          exact (nextLength_mono metadata payloads hLength).trans hBound
      · -- the same length calls for the same table, so the next round is the last
        have hEq : metaLength metadata (nextTable metadata payloads table) =
            metaLength metadata table := by omega
        obtain ⟨rounds, rfl⟩ : ∃ n, rounds = n + 1 := ⟨rounds - 1, by omega⟩
        rw [layoutRounds, if_pos]
        · exact ⟨_, rfl⟩
        · rw [nextTable_eq, hEq]
          rfl

theorem nextTable_of_layoutRounds {rounds : Nat} {table settled : List PayloadEntry}
    (h : layoutRounds metadata payloads rounds table = some settled) :
    nextTable metadata payloads settled = settled := by
  induction rounds generalizing table with
  | zero => cases h
  | succ rounds ih =>
    rw [layoutRounds] at h
    split at h
    · rename_i hEq
      cases h
      exact hEq
    · exact ih h

theorem buildMetadataWithOffsets_settles :
    ∃ table, buildMetadataWithOffsets metadata payloads = some table ∧
      nextTable metadata payloads table = table := by
  have hNil := metaLength_nil_le metadata (payloadEntries 0 payloads.entries)
  have hSide : metaLength metadata [] ≤ lengthSide metadata payloads ^ 2 := by
    have hLe : metaLength metadata [] ≤ lengthSide metadata payloads := by
      unfold lengthSide
      omega
    exact hLe.trans (Nat.le_self_pow (by decide) _)
  have hLimit : roundLimit metadata payloads = lengthSide metadata payloads ^ 2 + 3 := rfl
  obtain ⟨table, hTable⟩ := layoutRounds_isSome metadata payloads
    (roundLimit metadata payloads) []
    (nextLength_lengthSide metadata payloads) (metaLength_nil_le metadata _) hSide (by omega)
  exact ⟨table, hTable, nextTable_of_layoutRounds metadata payloads hTable⟩

end Loop

end LMCache.MaKV
