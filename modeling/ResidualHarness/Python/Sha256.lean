import ResidualHarness.Python.Text

/-!
# SHA-256

`hashlib.sha256(data).hexdigest()` on lists of bytes, with 32-bit words as naturals below `2^32`.
Nothing here is assumed about collisions; the facts used elsewhere are that the digest is a string
of 64 lowercase hexadecimal digits (`sha256_length`, `sha256_isHex`).
-/

set_option autoImplicit false

namespace ResidualHarness.Python

namespace Sha256

/-- `f x`, with `x` evaluated first: the match makes the kernel compute the number once. -/
def force {α : Type} (x : Nat) (f : Nat → α) : α :=
  match x with
  | 0 => f 0
  | n + 1 => f (n + 1)

/-- Two copies of a 32-bit word side by side: the low word of a right shift of it is a right
rotation of the word. -/
def double (x : Nat) : Nat := x * 4294967297

/-- The round constants. -/
def roundConstants : List Nat :=
  [0x428a2f98, 0x71374491, 0xb5c0fbcf, 0xe9b5dba5, 0x3956c25b, 0x59f111f1, 0x923f82a4, 0xab1c5ed5,
   0xd807aa98, 0x12835b01, 0x243185be, 0x550c7dc3, 0x72be5d74, 0x80deb1fe, 0x9bdc06a7, 0xc19bf174,
   0xe49b69c1, 0xefbe4786, 0x0fc19dc6, 0x240ca1cc, 0x2de92c6f, 0x4a7484aa, 0x5cb0a9dc, 0x76f988da,
   0x983e5152, 0xa831c66d, 0xb00327c8, 0xbf597fc7, 0xc6e00bf3, 0xd5a79147, 0x06ca6351, 0x14292967,
   0x27b70a85, 0x2e1b2138, 0x4d2c6dfc, 0x53380d13, 0x650a7354, 0x766a0abb, 0x81c2c92e, 0x92722c85,
   0xa2bfe8a1, 0xa81a664b, 0xc24b8b70, 0xc76c51a3, 0xd192e819, 0xd6990624, 0xf40e3585, 0x106aa070,
   0x19a4c116, 0x1e376c08, 0x2748774c, 0x34b0bcb5, 0x391c0cb3, 0x4ed8aa4a, 0x5b9cca4f, 0x682e6ff3,
   0x748f82ee, 0x78a5636f, 0x84c87814, 0x8cc70208, 0x90befffa, 0xa4506ceb, 0xbef9a3f7, 0xc67178f2]

/-- The chaining value: eight 32-bit words. -/
structure Words where
  a : Nat
  b : Nat
  c : Nat
  d : Nat
  e : Nat
  f : Nat
  g : Nat
  h : Nat

/-- The initial chaining value. -/
def initial : Words :=
  ⟨0x6a09e667, 0xbb67ae85, 0x3c6ef372, 0xa54ff53a, 0x510e527f, 0x9b05688c, 0x1f83d9ab, 0x5be0cd19⟩

/-- The rounds of one block. The last sixteen words of the message schedule are the digits of `w` in
base `2^32`, the oldest one on top; each round takes that one and appends the next word. -/
def rounds : List Nat → Nat → Words → Words
  | [], _, s => s
  | k :: ks, w, ⟨a, b, c, d, e, f, g, h⟩ =>
      let ee := double e
      let s1 := ((ee >>> 6) ^^^ (ee >>> 11) ^^^ (ee >>> 25)) % 4294967296
      let ch := (e &&& f) ^^^ ((4294967295 - e) &&& g)
      let t1 := h + s1 + ch + k + (w >>> 480)
      let aa := double a
      let s0 := ((aa >>> 2) ^^^ (aa >>> 13) ^^^ (aa >>> 22)) % 4294967296
      let maj := (a &&& b) ^^^ (a &&& c) ^^^ (b &&& c)
      let x := (w >>> 448) % 4294967296
      let y := (w >>> 32) % 4294967296
      let r0 := ((double x >>> 7) ^^^ (double x >>> 18) ^^^ (x >>> 3)) % 4294967296
      let r1 := ((double y >>> 17) ^^^ (double y >>> 19) ^^^ (y >>> 10)) % 4294967296
      let next := ((w >>> 480) + r0 + (w >>> 192) % 4294967296 + r1) % 4294967296
      force ((t1 + s0 + maj) % 4294967296) fun a' =>
      force ((d + t1) % 4294967296) fun e' =>
      force ((w <<< 32) % 2 ^ 512 + next) fun w' =>
      rounds ks w' ⟨a', a, b, c, e', e, f, g⟩

/-- Big-endian value of a list of bytes. -/
def valueOfBytes (bs : List Nat) : Nat := bs.foldl (fun n b => n * 256 + b) 0

/-- Addition of chaining values, word by word modulo `2^32`. -/
def Words.add (s t : Words) : Words :=
  force ((s.a + t.a) % 4294967296) fun a => force ((s.b + t.b) % 4294967296) fun b =>
  force ((s.c + t.c) % 4294967296) fun c => force ((s.d + t.d) % 4294967296) fun d =>
  force ((s.e + t.e) % 4294967296) fun e => force ((s.f + t.f) % 4294967296) fun f =>
  force ((s.g + t.g) % 4294967296) fun g => force ((s.h + t.h) % 4294967296) fun h =>
  ⟨a, b, c, d, e, f, g, h⟩

/-- The compression function. -/
def compress (s : Words) (block : List Nat) : Words :=
  force (valueOfBytes block) fun w => s.add (rounds roundConstants w s)

/-- `n` bytes of `x`, big endian. -/
def bytesOfNat (n x : Nat) : List Nat :=
  (List.range n).map fun i => x / 256 ^ (n - 1 - i) % 256

/-- The padded message: a one bit, zeros up to 56 bytes modulo 64, and the bit length. -/
def pad (data : List Nat) : List Nat :=
  data ++ 0x80 :: List.replicate ((119 - data.length % 64) % 64) 0 ++
    bytesOfNat 8 (8 * data.length)

/-- Compression of `n` consecutive blocks. -/
def blocks : Nat → List Nat → Words → Words
  | 0, _, s => s
  | n + 1, bs, s => blocks n (bs.drop 64) (compress s (bs.take 64))

/-- The eight words of the digest. -/
def digestWords (data : List Nat) : List Nat :=
  let padded := pad data
  let s := blocks (padded.length / 64) padded initial
  [s.a, s.b, s.c, s.d, s.e, s.f, s.g, s.h]

end Sha256

/-- Eight hexadecimal digits of a 32-bit word. -/
def hexWord (w : Nat) : Str := (List.range 8).map fun i => hexChar (w / 16 ^ (7 - i) % 16)

/-- `hashlib.sha256(data).hexdigest()`. -/
def sha256 (data : List Nat) : Str := (Sha256.digestWords data).flatMap hexWord

theorem sha256_isHex (data : List Nat) : ∀ c ∈ sha256 data, isHexDigit c = true := by
  intro c hc
  obtain ⟨w, -, hw⟩ := List.mem_flatMap.1 hc
  obtain ⟨i, -, rfl⟩ := List.mem_map.1 hw
  exact isHexDigit_hexChar _

theorem sha256_length (data : List Nat) : (sha256 data).length = 64 := by
  simp [sha256, Sha256.digestWords, hexWord]

example : sha256 [0x61, 0x62, 0x63] =
    lit "ba7816bf8f01cfea414140de5dae2223b00361a396177a9cb410ff61f20015ad" := by
  decide +kernel

end ResidualHarness.Python
