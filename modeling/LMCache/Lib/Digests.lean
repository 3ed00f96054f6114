import LMCache.Lib.Bytes
import Mathlib.Data.Nat.Bitwise

/-!
# Digests

The reflected CRC of 32 bits with its running value, as in `crc32(data, value)`: the check
of a concatenation continues the check of the first part. SHA-256 is the digest behind
fingerprints and plan hashes.
-/

namespace LMCache.Lib

def crcBit (crc : Nat) : Nat :=
  if crc % 2 = 1 then (crc / 2) ^^^ 0xedb88320 else crc / 2

def crcByte (crc : Nat) (b : UInt8) : Nat := crcBit^[8] (crc ^^^ b.toNat)

/-- `binascii.crc32(data, value)`. -/
def crc32 (data : Bytes) (value : Nat) : Nat :=
  data.foldl crcByte (value ^^^ 0xffffffff) ^^^ 0xffffffff

theorem crc32_append (as bs : Bytes) (value : Nat) :
    crc32 (as ++ bs) value = crc32 bs (crc32 as value) := by
  unfold crc32
  rw [List.foldl_append, Nat.xor_assoc, Nat.xor_self, Nat.xor_zero]

namespace Sha2

def roundConstants : List UInt32 :=
  [0x428a2f98, 0x71374491, 0xb5c0fbcf, 0xe9b5dba5, 0x3956c25b, 0x59f111f1, 0x923f82a4, 0xab1c5ed5,
    0xd807aa98, 0x12835b01, 0x243185be, 0x550c7dc3, 0x72be5d74, 0x80deb1fe, 0x9bdc06a7, 0xc19bf174,
    0xe49b69c1, 0xefbe4786, 0x0fc19dc6, 0x240ca1cc, 0x2de92c6f, 0x4a7484aa, 0x5cb0a9dc, 0x76f988da,
    0x983e5152, 0xa831c66d, 0xb00327c8, 0xbf597fc7, 0xc6e00bf3, 0xd5a79147, 0x06ca6351, 0x14292967,
    0x27b70a85, 0x2e1b2138, 0x4d2c6dfc, 0x53380d13, 0x650a7354, 0x766a0abb, 0x81c2c92e, 0x92722c85,
    0xa2bfe8a1, 0xa81a664b, 0xc24b8b70, 0xc76c51a3, 0xd192e819, 0xd6990624, 0xf40e3585, 0x106aa070,
    0x19a4c116, 0x1e376c08, 0x2748774c, 0x34b0bcb5, 0x391c0cb3, 0x4ed8aa4a, 0x5b9cca4f, 0x682e6ff3,
    0x748f82ee, 0x78a5636f, 0x84c87814, 0x8cc70208, 0x90befffa, 0xa4506ceb, 0xbef9a3f7, 0xc67178f2]

structure State where
  a : UInt32
  b : UInt32
  c : UInt32
  d : UInt32
  e : UInt32
  f : UInt32
  g : UInt32
  h : UInt32

def initial : State :=
  ⟨0x6a09e667, 0xbb67ae85, 0x3c6ef372, 0xa54ff53a, 0x510e527f, 0x9b05688c, 0x1f83d9ab, 0x5be0cd19⟩

def rotateRight (x n : UInt32) : UInt32 := (x >>> n) ||| (x <<< (32 - n))

def round (s : State) (constant word : UInt32) : State :=
  let s1 := rotateRight s.e 6 ^^^ rotateRight s.e 11 ^^^ rotateRight s.e 25
  let choice := (s.e &&& s.f) ^^^ (~~~s.e &&& s.g)
  let temp1 := s.h + s1 + choice + constant + word
  let s0 := rotateRight s.a 2 ^^^ rotateRight s.a 13 ^^^ rotateRight s.a 22
  let majority := (s.a &&& s.b) ^^^ (s.a &&& s.c) ^^^ (s.b &&& s.c)
  ⟨temp1 + (s0 + majority), s.a, s.b, s.c, s.d + temp1, s.e, s.f, s.g⟩

/-- The rounds of a block; the window holds the next sixteen words of the schedule. -/
def rounds (s : State) (window : List UInt32) : List UInt32 → State
  | [] => s
  | constant :: rest =>
    let word (i : Nat) : UInt32 := window[i]?.getD 0
    let s0 := rotateRight (word 1) 7 ^^^ rotateRight (word 1) 18 ^^^ (word 1 >>> 3)
    let s1 := rotateRight (word 14) 17 ^^^ rotateRight (word 14) 19 ^^^ (word 14 >>> 10)
    rounds (round s constant (word 0)) (window.tail ++ [word 0 + s0 + word 9 + s1]) rest

/-- The words of a list of bytes, the first byte of each the highest. -/
def words : Bytes → List UInt32
  | a :: b :: c :: d :: rest =>
    (a.toUInt32 <<< 24 ||| b.toUInt32 <<< 16 ||| c.toUInt32 <<< 8 ||| d.toUInt32) :: words rest
  | _ => []

def compress (s : State) (block : Bytes) : State :=
  let r := rounds s (words block) roundConstants
  ⟨s.a + r.a, s.b + r.b, s.c + r.c, s.d + r.d, s.e + r.e, s.f + r.f, s.g + r.g, s.h + r.h⟩

/-- The message with its padding: a one bit, zeros, and the length in bits. -/
def pad (message : Bytes) : Bytes :=
  message ++ 0x80 :: List.replicate ((119 - message.length % 64) % 64) 0 ++
    (List.range 8).map fun i => UInt8.ofNat (message.length * 8 / 256 ^ (7 - i))

def wordBytes (w : UInt32) : Bytes :=
  [(w >>> 24).toUInt8, (w >>> 16).toUInt8, (w >>> 8).toUInt8, w.toUInt8]

end Sha2

open Sha2 in
def sha256 (message : Bytes) : Bytes :=
  let padded := pad message
  let s := (List.range (padded.length / 64)).foldl
    (fun s i => compress s ((padded.drop (64 * i)).take 64)) initial
  [s.a, s.b, s.c, s.d, s.e, s.f, s.g, s.h].flatMap wordBytes

example : (sha256 [97, 98, 99]).take 8 = [0xba, 0x78, 0x16, 0xbf, 0x8f, 0x01, 0xcf, 0xea] := by
  decide +kernel

end LMCache.Lib
