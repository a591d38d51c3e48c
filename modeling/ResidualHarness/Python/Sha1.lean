import ResidualHarness.Python.Sha256

/-!
# SHA-1 and HMAC

`hmac.new(key, message, hashlib.sha1).digest()` on lists of bytes. Padding, bytes and the evaluation
order are those of `Sha256`; the message schedule is kept in the digits of one number as there.
-/

set_option autoImplicit false

namespace ResidualHarness.Python

namespace Sha1

open Sha256 (force double valueOfBytes bytesOfNat pad)

/-- The chaining value: five 32-bit words. -/
structure Words where
  a : Nat
  b : Nat
  c : Nat
  d : Nat
  e : Nat

/-- The initial chaining value. -/
def initial : Words := ⟨0x67452301, 0xefcdab89, 0x98badcfe, 0x10325476, 0xc3d2e1f0⟩

/-- Left rotation of a 32-bit word. -/
def rotl (n x : Nat) : Nat := (double x >>> (32 - n)) % 4294967296

/-- The function and the constant of each quarter of the rounds. -/
def roundFunction (t b c d : Nat) : Nat :=
  if t < 20 then ((b &&& c) ^^^ ((4294967295 - b) &&& d)) + 0x5a827999
  else if t < 40 then (b ^^^ c ^^^ d) + 0x6ed9eba1
  else if t < 60 then ((b &&& c) ^^^ (b &&& d) ^^^ (c &&& d)) + 0x8f1bbcdc
  else (b ^^^ c ^^^ d) + 0xca62c1d6

/-- `n` rounds from round `t` on. The last sixteen words of the schedule are the digits of `w` in base
`2^32`, the oldest one on top. -/
def rounds : Nat → Nat → Nat → Words → Words
  | 0, _, _, s => s
  | n + 1, t, w, ⟨a, b, c, d, e⟩ =>
      let x := ((w >>> 480) ^^^ (w >>> 416) ^^^ (w >>> 224) ^^^ (w >>> 64)) % 4294967296
      force ((rotl 5 a + roundFunction t b c d + e + (w >>> 480)) % 4294967296) fun a' =>
      force (rotl 30 b) fun c' =>
      force ((w <<< 32) % 2 ^ 512 + rotl 1 x) fun w' =>
      rounds n (t + 1) w' ⟨a', a, c', c, d⟩

/-- Addition of chaining values, word by word modulo `2^32`. -/
def Words.add (s t : Words) : Words :=
  force ((s.a + t.a) % 4294967296) fun a => force ((s.b + t.b) % 4294967296) fun b =>
  force ((s.c + t.c) % 4294967296) fun c => force ((s.d + t.d) % 4294967296) fun d =>
  force ((s.e + t.e) % 4294967296) fun e => ⟨a, b, c, d, e⟩

/-- The compression function. -/
def compress (s : Words) (block : List Nat) : Words :=
  force (valueOfBytes block) fun w => s.add (rounds 80 0 w s)

/-- Compression of `n` consecutive blocks. -/
def blocks : Nat → List Nat → Words → Words
  | 0, _, s => s
  | n + 1, bs, s => blocks n (bs.drop 64) (compress s (bs.take 64))

end Sha1

open Sha256 (bytesOfNat pad)

/-- `hashlib.sha1(data).digest()`. -/
def sha1 (data : List Nat) : List Nat :=
  let padded := pad data
  let s := Sha1.blocks (padded.length / 64) padded Sha1.initial
  [s.a, s.b, s.c, s.d, s.e].flatMap (bytesOfNat 4)

/-- The key of an HMAC, filled up to one block. -/
def hmacKey (key : List Nat) : List Nat :=
  let k := if 64 < key.length then sha1 key else key
  k ++ List.replicate (64 - k.length) 0

/-- `hmac.new(key, message, hashlib.sha1).digest()`. -/
def hmacSha1 (key message : List Nat) : List Nat :=
  let inner := sha1 ((hmacKey key).map (· ^^^ 0x36) ++ message)
  sha1 ((hmacKey key).map (· ^^^ 0x5c) ++ inner)

example : sha1 [0x61, 0x62, 0x63] = bytesOfNat 20 0xa9993e364706816aba3e25717850c26c9cd0d89d := by
  decide +kernel

end ResidualHarness.Python
