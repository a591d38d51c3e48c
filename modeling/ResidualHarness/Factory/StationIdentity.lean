import ResidualHarness.Factory.ReceiptEnvelope
import ResidualHarness.Python.Decode

/-!
# Station signatures

`StationIdentity` of `residual/factory/evidence_receipts.py`. The signatures are those of the
`cryptography` package, a parameter here; `Ed25519.Correct` states what its documentation promises
of a signature on the message that was signed. A signature is kept as hexadecimal text, and
`fromHex_toHex` says that the text gives the bytes back.
-/

set_option autoImplicit false

namespace ResidualHarness.Factory

open Python Core

/-! ## Hexadecimal text -/

/-- `data.hex()`. -/
def toHex (data : Bytes) : Str := data.flatMap fun b => [hexChar (b / 16), hexChar (b % 16)]

/-- The white space that `bytes.fromhex` skips between bytes. -/
def isAsciiSpace (c : CodePoint) : Bool := decide ((9 ≤ c.val ∧ c.val ≤ 13) ∨ c.val = 32)

/-- `bytes.fromhex(text)`; `none` is a `ValueError`. -/
def fromHex : Str → Option Bytes
  | [] => some []
  | [c] => if isAsciiSpace c then some [] else none
  | c :: d :: rest =>
      if isAsciiSpace c then fromHex (d :: rest)
      else do
        let hi ← hexVal c
        let lo ← hexVal d
        let data ← fromHex rest
        return (16 * hi + lo) :: data

theorem hexChar_not_space (d : Nat) : isAsciiSpace (hexChar d) = false := by
  have hhex := isHexDigit_hexChar d
  simp only [isHexDigit, decide_eq_true_eq] at hhex
  simp only [isAsciiSpace, decide_eq_false_iff_not]
  omega

theorem fromHex_toHex {data : Bytes} (h : ∀ b ∈ data, b < 256) : fromHex (toHex data) = some data := by
  induction data with
  | nil => rfl
  | cons b data ih =>
      have hb : b < 256 := h b List.mem_cons_self
      have hhi := hexVal_hexChar (d := b / 16) (by omega)
      have hlo := hexVal_hexChar (d := b % 16) (by omega)
      have hrest := ih fun x hx => h x (List.mem_cons_of_mem _ hx)
      have hval : 16 * (b / 16) + b % 16 = b := by omega
      rw [toHex] at hrest
      rw [toHex, List.flatMap_cons, List.cons_append, List.cons_append, List.nil_append, fromHex,
        hexChar_not_space, if_neg (by decide), hhi, hlo, hrest]
      simp [hval]

/-! ## Signatures -/

/-- `SIGNATURE_DOMAIN`. -/
def signatureDomain : Str := lit "residual.factory.worker-receipt.v1\n"

/-- `SIGNATURE_DOMAIN + payload_hash.encode("ascii")`. -/
def signedMessage (payloadHash : Str) : Bytes := (signatureDomain ++ payloadHash).map fun c => c.val

theorem signedMessage_injective {a b : Str} (h : signedMessage a = signedMessage b) : a = b := by
  have hinj : Function.Injective fun c : CodePoint => c.val := fun _ _ => Fin.ext
  exact List.append_cancel_left (List.map_injective_iff.2 hinj h)

/-- The Ed25519 keys of the `cryptography` package: the raw public key of a private key, the
signature of a message, and whether `verify` accepts a signature. -/
structure Ed25519 where
  PrivateKey : Type
  publicBytes : PrivateKey → Bytes
  sign : PrivateKey → Bytes → Bytes
  verifies : Bytes → Bytes → Bytes → Bool

/-- What the package promises: keys of 32 bytes, signatures of 64 bytes, and that a signature is
accepted for the message that was signed. -/
structure Ed25519.Correct (ed : Ed25519) : Prop where
  key_length : ∀ k, (ed.publicBytes k).length = 32
  sign_length : ∀ k m, (ed.sign k m).length = 64
  sign_bytes : ∀ k m, ∀ b ∈ ed.sign k m, b < 256
  verifies_sign : ∀ k m, ed.verifies (ed.publicBytes k) (ed.sign k m) m = true

/-- The signature of a message is not accepted for this other one. -/
def Ed25519.Rejects (ed : Ed25519) (k : ed.PrivateKey) (m m' : Bytes) : Prop :=
  m' ≠ m → ed.verifies (ed.publicBytes k) (ed.sign k m) m' = false

namespace StationIdentity

variable (ed : Ed25519)

/-- `StationIdentity.key_id`. -/
def keyId (key : ed.PrivateKey) : Str := sha256 (ed.publicBytes key)

/-- `StationIdentity.sign(payload_hash)`. -/
def sign (key : ed.PrivateKey) (payloadHash : Str) : Except PyExn Str := do
  requireHash payloadHash "receipt hash"
  return toHex (ed.sign key (signedMessage payloadHash))

/-- `StationIdentity.verify(receipt, public_key)`: a receipt without a hash and a signature that is
no hexadecimal text are `ValueError`s, which are caught. -/
def verify [FloatModel] (receipt : ReceiptValue) (publicKey : Bytes) : Bool :=
  decide (publicKey.length = 32) && decide (sha256 publicKey = receipt.stationKeyId) &&
    match fromHex receipt.stationSignature, receipt.receiptHash with
    | some signature, .ok hash => ed.verifies publicKey signature (signedMessage hash)
    | _, _ => false

variable {ed}

/-- Verification of a receipt with the signature of a message. -/
theorem verify_signed [FloatModel] (hed : ed.Correct) (key : ed.PrivateKey) (m : Bytes)
    {r : ReceiptValue} (hsig : r.stationSignature = toHex (ed.sign key m))
    (hdig : Digestible (.obj r.unsignedPayload)) :
    verify ed r (ed.publicBytes key) = true ↔ r.stationKeyId = keyId ed key ∧
      ed.verifies (ed.publicBytes key) (ed.sign key m) (signedMessage r.hash) = true := by
  have hhash : r.receiptHash = .ok r.hash := digest_of_digestible hdig
  rw [verify, hsig, fromHex_toHex (hed.sign_bytes key m), hhash]
  simp only [hed.key_length, Bool.and_eq_true, decide_eq_true_eq, true_and, keyId]
  exact and_congr_left' eq_comm

end StationIdentity

end ResidualHarness.Factory
