import ResidualHarness.Python.Sha256

/-!
# HMAC over SHA-256

`hmac.new(key, message, hashlib.sha256).digest()` on lists of bytes.
-/

set_option autoImplicit false

namespace ResidualHarness.Python

/-- `hashlib.sha256(data).digest()`. -/
def sha256Digest (data : List Nat) : List Nat :=
  (Sha256.digestWords data).flatMap (Sha256.bytesOfNat 4)

/-- The key of an HMAC, filled up to one block. -/
def hmacKey256 (key : List Nat) : List Nat :=
  let k := if 64 < key.length then sha256Digest key else key
  k ++ List.replicate (64 - k.length) 0

/-- `hmac.new(key, message, hashlib.sha256).digest()`. -/
def hmacSha256Digest (key message : List Nat) : List Nat :=
  let inner := sha256Digest ((hmacKey256 key).map (· ^^^ 0x36) ++ message)
  sha256Digest ((hmacKey256 key).map (· ^^^ 0x5c) ++ inner)

end ResidualHarness.Python
