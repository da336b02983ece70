import Mathlib.Algebra.Group.Nat.Defs
import Mathlib.Data.List.Basic

/-! SHA-256 (FIPS 180-4) and HMAC (RFC 2104) over byte lists. -/

set_option autoImplicit false

namespace Skygo.Crypto

abbrev Bytes := List UInt8

namespace Sha256

def rotateRight (x n : UInt32) : UInt32 := x >>> n ||| x <<< (32 - n)

def bigSigma0 (x : UInt32) : UInt32 := rotateRight x 2 ^^^ rotateRight x 13 ^^^ rotateRight x 22
def bigSigma1 (x : UInt32) : UInt32 := rotateRight x 6 ^^^ rotateRight x 11 ^^^ rotateRight x 25
def smallSigma0 (x : UInt32) : UInt32 := rotateRight x 7 ^^^ rotateRight x 18 ^^^ x >>> 3
def smallSigma1 (x : UInt32) : UInt32 := rotateRight x 17 ^^^ rotateRight x 19 ^^^ x >>> 10

def choose (x y z : UInt32) : UInt32 := (x &&& y) ^^^ (~~~x &&& z)
def majority (x y z : UInt32) : UInt32 := (x &&& y) ^^^ (x &&& z) ^^^ (y &&& z)

def roundConstants : List UInt32 :=
  [0x428a2f98, 0x71374491, 0xb5c0fbcf, 0xe9b5dba5, 0x3956c25b, 0x59f111f1, 0x923f82a4, 0xab1c5ed5,
    0xd807aa98, 0x12835b01, 0x243185be, 0x550c7dc3, 0x72be5d74, 0x80deb1fe, 0x9bdc06a7, 0xc19bf174,
    0xe49b69c1, 0xefbe4786, 0x0fc19dc6, 0x240ca1cc, 0x2de92c6f, 0x4a7484aa, 0x5cb0a9dc, 0x76f988da,
    0x983e5152, 0xa831c66d, 0xb00327c8, 0xbf597fc7, 0xc6e00bf3, 0xd5a79147, 0x06ca6351, 0x14292967,
    0x27b70a85, 0x2e1b2138, 0x4d2c6dfc, 0x53380d13, 0x650a7354, 0x766a0abb, 0x81c2c92e, 0x92722c85,
    0xa2bfe8a1, 0xa81a664b, 0xc24b8b70, 0xc76c51a3, 0xd192e819, 0xd6990624, 0xf40e3585, 0x106aa070,
    0x19a4c116, 0x1e376c08, 0x2748774c, 0x34b0bcb5, 0x391c0cb3, 0x4ed8aa4a, 0x5b9cca4f, 0x682e6ff3,
    0x748f82ee, 0x78a5636f, 0x84c87814, 0x8cc70208, 0x90befffa, 0xa4506ceb, 0xbef9a3f7, 0xc67178f2]

structure Chain where
  (a b c d e f g h : UInt32)
  deriving DecidableEq

def initial : Chain :=
  ⟨0x6a09e667, 0xbb67ae85, 0x3c6ef372, 0xa54ff53a, 0x510e527f, 0x9b05688c, 0x1f83d9ab, 0x5be0cd19⟩

def bigEndian32 (n : Nat) : Bytes :=
  [UInt8.ofNat (n / 2 ^ 24), UInt8.ofNat (n / 2 ^ 16), UInt8.ofNat (n / 2 ^ 8), UInt8.ofNat n]

def bigEndian64 (n : Nat) : Bytes := bigEndian32 (n / 2 ^ 32) ++ bigEndian32 n

/-- The message, a one bit, zeros up to eight bytes short of a block, and the length in bits. -/
def pad (message : Bytes) : Bytes :=
  message ++ [0x80] ++ List.replicate ((119 - message.length % 64) % 64) 0 ++ bigEndian64 (8 * message.length)

def words : Bytes → List UInt32
  | a :: b :: c :: d :: rest =>
      (a.toUInt32 <<< 24 ||| b.toUInt32 <<< 16 ||| c.toUInt32 <<< 8 ||| d.toUInt32) :: words rest
  | _ => []

/-- `schedule` keeps the words with the latest first. -/
def schedule : Nat → List UInt32 → List UInt32
  | 0, latest => latest
  | n + 1, latest =>
      let word := smallSigma1 (latest.getD 1 0) + latest.getD 6 0 + smallSigma0 (latest.getD 14 0) + latest.getD 15 0
      schedule n (word :: latest)

def round (s : Chain) (constant word : UInt32) : Chain :=
  let first := s.h + bigSigma1 s.e + choose s.e s.f s.g + constant + word
  let second := bigSigma0 s.a + majority s.a s.b s.c
  ⟨first + second, s.a, s.b, s.c, s.d + first, s.e, s.f, s.g⟩

def compress (s : Chain) (block : List UInt32) : Chain :=
  let inputs := roundConstants.zip (schedule 48 block.reverse).reverse
  let t := inputs.foldl (fun s input => round s input.1 input.2) s
  ⟨s.a + t.a, s.b + t.b, s.c + t.c, s.d + t.d, s.e + t.e, s.f + t.f, s.g + t.g, s.h + t.h⟩

def process : Nat → Chain → List UInt32 → Chain
  | 0, s, _ => s
  | blocks + 1, s, input => process blocks (compress s (input.take 16)) (input.drop 16)

def Chain.bytes (s : Chain) : Bytes :=
  [s.a, s.b, s.c, s.d, s.e, s.f, s.g, s.h].flatMap fun word => bigEndian32 word.toNat

end Sha256

open Sha256 in
def sha256 (message : Bytes) : Bytes :=
  let input := words (pad message)
  (process (input.length / 16) initial input).bytes

/-- `hmac.New(sha256.New, key)` after writing `message`. -/
def hmacSha256 (key message : Bytes) : Bytes :=
  let key := if 64 < key.length then sha256 key else key
  let key := key ++ List.replicate (64 - key.length) 0
  sha256 (key.map (· ^^^ 0x5c) ++ sha256 (key.map (· ^^^ 0x36) ++ message))

-- the first example of FIPS 180-4, and the second test case of RFC 4231
example : sha256 "abc".toUTF8.toList =
    [0xba, 0x78, 0x16, 0xbf, 0x8f, 0x01, 0xcf, 0xea, 0x41, 0x41, 0x40, 0xde, 0x5d, 0xae, 0x22, 0x23,
      0xb0, 0x03, 0x61, 0xa3, 0x96, 0x17, 0x7a, 0x9c, 0xb4, 0x10, 0xff, 0x61, 0xf2, 0x00, 0x15, 0xad] := by
  decide +kernel

example : hmacSha256 "Jefe".toUTF8.toList "what do ya want for nothing?".toUTF8.toList =
    [0x5b, 0xdc, 0xc1, 0x46, 0xbf, 0x60, 0x75, 0x4e, 0x6a, 0x04, 0x24, 0x26, 0x08, 0x95, 0x75, 0xc7,
      0x5a, 0x00, 0x3f, 0x08, 0x9d, 0x27, 0x39, 0x83, 0x9d, 0xec, 0x58, 0xb9, 0x64, 0xec, 0x38, 0x43] := by
  decide +kernel

end Skygo.Crypto
