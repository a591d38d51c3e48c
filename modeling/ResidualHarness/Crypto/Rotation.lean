import ResidualHarness.Core.Task
import ResidualHarness.Python.Hmac
import ResidualHarness.Python.WholeFloats

/-!
# Key rotation

`KeyRing` of `residual/crypto/rotation.py`. The active key is recorded twice: by its id, and by a
record that has no time of retirement. `rotate` retires the old record before the new one has passed
its checks, and `add_key` adds a record without retiring another. Runs without the two are those in
which the ring does what it says (`rotates_iff`).
-/

set_option autoImplicit false

namespace ResidualHarness.Crypto

open Python Core

variable {T : Type}

/-! ## Records and rings -/

/-- `KeyRecord`. -/
structure KeyRecord (T : Type) where
  keyId : Str
  key : List Nat
  createdAt : T
  retiredAt : Option T
  verifyUntil : Option T

/-- `KeyRecord.active`. -/
def KeyRecord.active (r : KeyRecord T) : Bool := r.retiredAt.isNone

/-- `KeyRing`: the records by id, and the id of the active one. -/
structure KeyRing (T : Type) where
  keys : Dict Str (KeyRecord T)
  activeId : Option Str

/-- A new ring. -/
def KeyRing.empty : KeyRing T := ⟨[], none⟩

/-- `key or os.urandom(32)`. -/
def keyMaterial (key : Option (List Nat)) (urandom : List Nat) : List Nat :=
  match key with
  | some (b :: bs) => b :: bs
  | _ => urandom

/-- `active_record`. -/
def KeyRing.activeRecord (ring : KeyRing T) : Option (KeyRecord T) :=
  ring.activeId.bind fun id => if id = [] then none else ring.keys.get? id

/-- The active record gets its time of retirement and the end of its window. -/
def KeyRing.retire (ring : KeyRing T) (now verifyUntil : T) : KeyRing T :=
  match ring.activeId, ring.activeRecord with
  | some id, some old =>
      { ring with
        keys := ring.keys.set id { old with retiredAt := some now, verifyUntil := some verifyUntil } }
  | _, _ => ring

/-- `sign(data)`. -/
def sign (ring : KeyRing T) (data : List Nat) : Except PyExn (Str × List Nat) :=
  match ring.activeRecord with
  | none => .error (contractError "no active key in ring")
  | some active => .ok (active.keyId, hmacSha256Digest active.key data)

/-- `verify(key_id, data, signature)` at a time. -/
def verify [LinearOrder T] (ring : KeyRing T) (now : T) (keyId : Str) (data signature : List Nat) : Bool :=
  match ring.keys.get? keyId with
  | none => false
  | some record =>
      (record.active || match record.verifyUntil with
        | none => false
        | some u => !decide (u < now)) &&
      decide (hmacSha256Digest record.key data = signature)

/-! ## Calls -/

section Calls

variable [FloatModel]

/-- `KeyRecord(key_id=key_id, key=key, created_at=now)`. -/
def KeyRecord.make (keyId : Json) (key : List Nat) (now : T) : Except PyExn (KeyRecord T) :=
  match keyId with
  | .str id => do
      identifier id
      require (16 ≤ key.length) (contractError "key material must be at least 16 bytes")
      return ⟨id, key, now, none, none⟩
  | _ => .error (contractError "invalid identifier")

/-- `key_id in self._keys`. A list or a dictionary cannot be looked up. -/
def KeyRing.has (ring : KeyRing T) : Json → Except PyExn Bool
  | .str id => .ok (decide (id ∈ ring.keys.keys))
  | .arr _ => .error .typeError
  | .obj _ => .error .typeError
  | _ => .ok false

/-- `add_key(key_id, key)`. -/
def addKey (ring : KeyRing T) (keyId : Json) (key : List Nat) (now : T) :
    Except PyExn (KeyRecord T) × KeyRing T :=
  match ring.has keyId with
  | .error x => (.error x, ring)
  | .ok true => (.error (contractError "duplicate key_id"), ring)
  | .ok false =>
      match KeyRecord.make keyId key now with
      | .error x => (.error x, ring)
      | .ok record => (.ok record,
          ⟨ring.keys.set record.keyId record, some (ring.activeId.getD record.keyId)⟩)

/-- `rotate(new_key_id, key)`. The old record is retired before the new one is checked. -/
def rotate [Add T] (window : T) (ring : KeyRing T) (keyId : Json) (key : List Nat) (now : T) :
    Except PyExn (KeyRecord T) × KeyRing T :=
  match ring.has keyId with
  | .error x => (.error x, ring)
  | .ok true => (.error (contractError "duplicate key_id"), ring)
  | .ok false =>
      let ring := ring.retire now (now + window)
      match KeyRecord.make keyId key now with
      | .error x => (.error x, ring)
      | .ok record => (.ok record, ⟨ring.keys.set record.keyId record, some record.keyId⟩)

/-- A call that writes to the ring, with the bytes that `os.urandom` would give and the time. -/
inductive KeyCall (T : Type) where
  | addKey (keyId : Json) (key : Option (List Nat)) (urandom : List Nat) (now : T)
  | rotate (keyId : Json) (key : Option (List Nat)) (urandom : List Nat) (now : T)

/-- A call. -/
def KeyRing.call [Add T] (window : T) (ring : KeyRing T) : KeyCall T → Except PyExn (KeyRecord T) × KeyRing T
  | .addKey keyId key urandom now => Crypto.addKey ring keyId (keyMaterial key urandom) now
  | .rotate keyId key urandom now => Crypto.rotate window ring keyId (keyMaterial key urandom) now

/-- The ring after some calls. -/
def KeyRing.after [Add T] (window : T) (calls : List (KeyCall T)) : KeyRing T :=
  calls.foldl (fun ring c => (ring.call window c).2) KeyRing.empty

/-! ## What a ring promises -/

/-- The key is accepted at this time. -/
def KeyRecord.Verifiable [LinearOrder T] (r : KeyRecord T) (now : T) : Prop :=
  r.retiredAt = none ∨ ∃ u, r.verifyUntil = some u ∧ now ≤ u

/-- What a ring does in a run: a call that raises changes nothing; one key of a ring is active, and it
signs; the signature is accepted later on as long as its key is active or in its window; nothing else
is accepted; and a window is set once, at the retirement. -/
structure Rotates [LinearOrder T] [Add T] (window : T) (calls : List (KeyCall T)) : Prop where
  unchanged : ∀ pre c post, calls = pre ++ c :: post → ∀ x,
    ((KeyRing.after window pre).call window c).1 = .error x →
      ((KeyRing.after window pre).call window c).2 = KeyRing.after window pre
  active : ∀ pre, pre <+: calls → (KeyRing.after window pre).keys ≠ [] →
    ∃ id r, (KeyRing.after window pre).keys.get? id = some r ∧ r.active = true ∧
      (∀ id' r', (KeyRing.after window pre).keys.get? id' = some r' → r'.active = true → id' = id) ∧
      ∀ data, sign (KeyRing.after window pre) data = .ok (id, hmacSha256Digest r.key data)
  signatures : ∀ pre mid, pre ++ mid <+: calls → ∀ data id signature,
    sign (KeyRing.after window pre) data = .ok (id, signature) →
      ∃ r, (KeyRing.after window (pre ++ mid)).keys.get? id = some r ∧ ∀ now,
        verify (KeyRing.after window (pre ++ mid)) now id data signature = true ↔ r.Verifiable now
  accepted : ∀ pre, pre <+: calls → ∀ now id data signature,
    verify (KeyRing.after window pre) now id data signature = true →
      sign (KeyRing.after window pre) data = .ok (id, signature) ∨
        ∃ r t u, (KeyRing.after window pre).keys.get? id = some r ∧ r.retiredAt = some t ∧
          r.verifyUntil = some u ∧ now ≤ u
  windows : ∀ pre mid, pre ++ mid <+: calls → ∀ id r t,
    (KeyRing.after window pre).keys.get? id = some r → r.retiredAt = some t →
      r.verifyUntil = some (t + window) ∧ (KeyRing.after window (pre ++ mid)).keys.get? id = some r

/-- The id and the key pass the checks of `KeyRecord`. -/
def Valid (keyId : Json) (key : List Nat) : Prop :=
  ∃ id, keyId = .str id ∧ isIdentifier id = true ∧ 16 ≤ key.length

/-- The condition on a call, in the ring before it. Unless the ring is empty or the id is refused as a
duplicate, an addition has a bad id or key, and a rotation a good id and key. -/
def Careful (ring : KeyRing T) : KeyCall T → Prop
  | .addKey keyId key urandom _ =>
      ring.keys = [] ∨ ring.has keyId ≠ .ok false ∨ ¬ Valid keyId (keyMaterial key urandom)
  | .rotate keyId key urandom _ =>
      ring.keys = [] ∨ ring.has keyId ≠ .ok false ∨ Valid keyId (keyMaterial key urandom)

/-- Every call of the run meets the condition. -/
def AllCareful [Add T] (window : T) (calls : List (KeyCall T)) : Prop :=
  ∀ pre c post, calls = pre ++ c :: post → Careful (KeyRing.after window pre) c

end Calls

/-! ## Records that are in order -/

/-- No record is lost, keys do not change, and retired records stay as they are. -/
def Evolves (keys keys' : Dict Str (KeyRecord T)) : Prop :=
  ∀ id r, keys.get? id = some r →
    ∃ r', keys'.get? id = some r' ∧ r'.key = r.key ∧ ∀ t, r.retiredAt = some t → r' = r

/-- This id is the only one with a record that is not retired. -/
def OnlyActive (keys : Dict Str (KeyRecord T)) (id : Str) : Prop :=
  ∀ id' r', keys.get? id' = some r' → r'.retiredAt = none → id' = id

/-- Every record is filed under its own id, and a retired one has its window. -/
structure Filed [Add T] (window : T) (keys : Dict Str (KeyRecord T)) : Prop where
  named : ∀ id r, keys.get? id = some r → r.keyId = id ∧ isIdentifier id = true
  retired : ∀ id r t, keys.get? id = some r → r.retiredAt = some t → r.verifyUntil = some (t + window)

/-- The invariant: one record is active, and it is the one under the active id. -/
structure Sound [Add T] (window : T) (ring : KeyRing T) : Prop where
  filed : Filed window ring.keys
  active : (ring.keys = [] ∧ ring.activeId = none) ∨
    ∃ id r, ring.activeId = some id ∧ ring.keys.get? id = some r ∧ r.retiredAt = none ∧
      OnlyActive ring.keys id

section Records

variable {window : T} {keys : Dict Str (KeyRecord T)} {ring : KeyRing T}

theorem Evolves.refl (keys : Dict Str (KeyRecord T)) : Evolves keys keys :=
  fun _ r h => ⟨r, h, rfl, fun _ _ => rfl⟩

theorem Evolves.trans {keys' keys'' : Dict Str (KeyRecord T)} (h : Evolves keys keys')
    (h' : Evolves keys' keys'') : Evolves keys keys'' := by
  intro id r hr
  obtain ⟨r', hr', hkey, hold⟩ := h id r hr
  obtain ⟨r'', hr'', hkey', hold'⟩ := h' id r' hr'
  refine ⟨r'', hr'', hkey'.trans hkey, fun t ht => ?_⟩
  have heq := hold t ht
  exact (hold' t (heq ▸ ht)).trans heq

theorem evolves_set {id : Str} (h : keys.get? id = none) (r : KeyRecord T) :
    Evolves keys (keys.set id r) := by
  intro id' r' hr'
  refine ⟨r', ?_, rfl, fun _ _ => rfl⟩
  rw [Dict.get?_set, if_neg]
  · exact hr'
  · rintro rfl
    rw [h] at hr'
    cases hr'

theorem verify_iff [LinearOrder T] {now : T} {id : Str} {data signature : List Nat} :
    verify ring now id data signature = true ↔
      ∃ r, ring.keys.get? id = some r ∧ r.Verifiable now ∧ hmacSha256Digest r.key data = signature := by
  rw [verify]
  cases hget : ring.keys.get? id with
  | none => simp
  | some r =>
      rw [Bool.and_eq_true, Bool.or_eq_true, decide_eq_true_iff, KeyRecord.active,
        Option.isNone_iff_eq_none]
      cases hu : r.verifyUntil <;> simp [KeyRecord.Verifiable, hu]

section Windows

variable [Add T]

theorem sound_empty : Sound window (KeyRing.empty : KeyRing T) where
  filed := ⟨fun _ _ h => (nomatch h), fun _ _ _ h => (nomatch h)⟩
  active := .inl ⟨rfl, rfl⟩

theorem sound_add (hf : Filed window keys) {id : Str} (hid : isIdentifier id = true)
    (hall : ∀ id' r', keys.get? id' = some r' → r'.retiredAt ≠ none) (key : List Nat) (now : T) :
    Sound window ⟨keys.set id ⟨id, key, now, none, none⟩, some id⟩ := by
  refine ⟨⟨fun id' r' h => ?_, fun id' r' t h ht => ?_⟩,
    .inr ⟨id, ⟨id, key, now, none, none⟩, rfl, ?_, rfl, fun id' r' h hr' => ?_⟩⟩
  · rw [Dict.get?_set] at h
    split at h
    · rename_i heq
      cases h
      exact ⟨heq.symm, heq ▸ hid⟩
    · exact hf.named id' r' h
  · rw [Dict.get?_set] at h
    split at h
    · cases h
      cases ht
    · exact hf.retired id' r' t h ht
  · rw [Dict.get?_set, if_pos rfl]
  · by_contra hne
    rw [Dict.get?_set, if_neg hne] at h
    exact hall id' r' h hr'

theorem Sound.activeRecord_eq (h : Sound window ring) {id : Str} {r : KeyRecord T}
    (hid : ring.activeId = some id) (hr : ring.keys.get? id = some r) :
    ring.activeRecord = some r := by
  have hne : id ≠ [] := by
    rintro rfl
    have hname := (h.filed.named _ _ hr).2
    cases hname
  rw [KeyRing.activeRecord, hid, Option.bind_some, if_neg hne, hr]

theorem Sound.exists_active (h : Sound window ring) (hne : ring.keys ≠ []) :
    ∃ id r, ring.activeId = some id ∧ ring.keys.get? id = some r ∧ r.retiredAt = none ∧
      OnlyActive ring.keys id ∧ ring.activeRecord = some r := by
  rcases h.active with ⟨hnil, -⟩ | ⟨id, r, hid, hr, hact, honly⟩
  · exact absurd hnil hne
  · exact ⟨id, r, hid, hr, hact, honly, h.activeRecord_eq hid hr⟩

theorem retire_spec (h : Sound window ring) (hne : ring.keys ≠ []) (now : T) :
    Filed window (ring.retire now (now + window)).keys ∧
      Evolves ring.keys (ring.retire now (now + window)).keys ∧
      (∀ id r, (ring.retire now (now + window)).keys.get? id = some r → r.retiredAt ≠ none) ∧
      ∀ id, ring.keys.get? id = none → (ring.retire now (now + window)).keys.get? id = none := by
  obtain ⟨id, r, hid, hr, hact, honly, hrecord⟩ := h.exists_active hne
  have heq : (ring.retire now (now + window)).keys =
      ring.keys.set id { r with retiredAt := some now, verifyUntil := some (now + window) } := by
    rw [KeyRing.retire, hid, hrecord]
  rw [heq]
  refine ⟨⟨fun id' r' h' => ?_, fun id' r' t h' ht => ?_⟩, fun id' r' h' => ?_, fun id' r' h' => ?_,
    fun id' h' => ?_⟩
  · rw [Dict.get?_set] at h'
    split at h'
    · rename_i hsame
      cases h'
      rw [hsame]
      exact h.filed.named id r hr
    · exact h.filed.named id' r' h'
  · rw [Dict.get?_set] at h'
    split at h'
    · cases h'
      cases ht
      rfl
    · exact h.filed.retired id' r' t h' ht
  · rw [Dict.get?_set]
    split
    · rename_i hsame
      rw [hsame, hr] at h'
      cases h'
      refine ⟨_, rfl, rfl, fun t ht => ?_⟩
      rw [hact] at ht
      cases ht
    · exact ⟨r', h', rfl, fun _ _ => rfl⟩
  · rw [Dict.get?_set] at h'
    split at h'
    · cases h'
      intro h
      cases h
    · rename_i hother
      exact fun hnone => hother (honly id' r' h' hnone)
  · rw [Dict.get?_set, if_neg]
    · exact h'
    · rintro rfl
      rw [h'] at hr
      cases hr

theorem Sound.activeId_eq_none (h : Sound window ring) (hnil : ring.keys = []) :
    ring.activeId = none := by
  rcases h.active with ⟨-, hnone⟩ | ⟨id, r, -, hr, -⟩
  · exact hnone
  · rw [hnil] at hr
    cases hr

theorem sign_eq (h : Sound window ring) {id : Str} {r : KeyRecord T} (hid : ring.activeId = some id)
    (hr : ring.keys.get? id = some r) (data : List Nat) :
    sign ring data = .ok (id, hmacSha256Digest r.key data) := by
  rw [sign, h.activeRecord_eq hid hr, ← (h.filed.named id r hr).1]

/-- Whoever signs is the active record. -/
theorem signer (h : Sound window ring) {id : Str} {data signature : List Nat}
    (hs : sign ring data = .ok (id, signature)) :
    ∃ r, ring.keys.get? id = some r ∧ signature = hmacSha256Digest r.key data := by
  by_cases hnil : ring.keys = []
  · rw [sign, KeyRing.activeRecord, h.activeId_eq_none hnil] at hs
    cases hs
  · obtain ⟨id', r, hid, hr, -⟩ := h.exists_active hnil
    rw [sign_eq h hid hr] at hs
    cases hs
    exact ⟨r, hr, rfl⟩

/-- What a call in order does: the invariant holds after it, no record is lost, and an exception
changes nothing. -/
structure Orderly (window : T) (ring : KeyRing T) (out : Except PyExn (KeyRecord T) × KeyRing T) :
    Prop where
  sound : Sound window out.2
  evolves : Evolves ring.keys out.2.keys
  unchanged : ∀ x, out.1 = .error x → out.2 = ring

theorem Sound.refused (h : Sound window ring) (x : PyExn) : Orderly window ring (.error x, ring) :=
  ⟨h, Evolves.refl _, fun _ _ => rfl⟩

end Windows

end Records

theorem prefix_of_snoc {α : Type} {calls pre : List α} {c : α} (h : pre ++ [c] <+: calls) :
    pre <+: calls ∧ ∃ post, calls = pre ++ c :: post := by
  obtain ⟨post, rfl⟩ := h
  exact ⟨⟨[c] ++ post, by rw [List.append_assoc]⟩, post, by rw [List.append_assoc]; rfl⟩

section Runs

variable [FloatModel] {window : T} {ring : KeyRing T}

/-! ## One call -/

theorem make_eq_ok {keyId : Json} {key : List Nat} {now : T} {r : KeyRecord T} :
    KeyRecord.make keyId key now = .ok r ↔ ∃ id, keyId = .str id ∧ isIdentifier id = true ∧
      16 ≤ key.length ∧ r = ⟨id, key, now, none, none⟩ := by
  constructor
  · intro h
    cases keyId with
    | str id =>
        obtain ⟨_, hid, h⟩ := bind_eq_ok.1 h
        obtain ⟨_, hlen, h⟩ := bind_eq_ok.1 h
        cases h
        exact ⟨id, rfl, require_eq_ok.1 hid, require_eq_ok.1 hlen, rfl⟩
    | _ => cases h
  · rintro ⟨id, rfl, hid, hlen, rfl⟩
    exact bind_eq_ok.2 ⟨(), require_of hid, bind_eq_ok.2 ⟨(), require_of hlen, rfl⟩⟩

theorem valid_of_make {keyId : Json} {key : List Nat} {now : T} {r : KeyRecord T}
    (h : KeyRecord.make keyId key now = .ok r) : Valid keyId key := by
  obtain ⟨id, hid, hname, hlen, -⟩ := make_eq_ok.1 h
  exact ⟨id, hid, hname, hlen⟩

theorem make_of_valid {keyId : Json} {key : List Nat} (h : Valid keyId key) (now : T) :
    ∃ id, keyId = .str id ∧ isIdentifier id = true ∧
      KeyRecord.make keyId key now = .ok ⟨id, key, now, none, none⟩ := by
  obtain ⟨id, hid, hname, hlen⟩ := h
  exact ⟨id, hid, hname, make_eq_ok.2 ⟨id, hid, hname, hlen, rfl⟩⟩

theorem get?_of_has {id : Str} (h : ring.has (.str id) = .ok false) : ring.keys.get? id = none :=
  Dict.get?_eq_none_iff.2 (of_decide_eq_false (Except.ok.inj h))

variable [Add T]

theorem addKey_orderly (h : Sound window ring) {keyId : Json} {key : List Nat} (now : T)
    (hc : ring.keys = [] ∨ ring.has keyId ≠ .ok false ∨ ¬ Valid keyId key) :
    Orderly window ring (addKey ring keyId key now) := by
  rw [addKey]
  cases hhas : ring.has keyId with
  | error x => exact h.refused x
  | ok known =>
      cases known with
      | true => exact h.refused _
      | false =>
          cases hmake : KeyRecord.make keyId key now with
          | error x => exact h.refused x
          | ok r =>
              have hnil : ring.keys = [] := hc.resolve_right fun hc =>
                hc.elim (fun hne => hne hhas) fun hbad => hbad (valid_of_make hmake)
              obtain ⟨id, rfl, hid, -, rfl⟩ := make_eq_ok.1 hmake
              refine ⟨?_, evolves_set (get?_of_has hhas) _, fun x hx => nomatch hx⟩
              rw [h.activeId_eq_none hnil]
              refine sound_add h.filed hid (fun id' r' hr' => ?_) key now
              rw [hnil] at hr'
              cases hr'

theorem rotate_orderly (h : Sound window ring) {keyId : Json} {key : List Nat} (now : T)
    (hc : ring.keys = [] ∨ ring.has keyId ≠ .ok false ∨ Valid keyId key) :
    Orderly window ring (rotate window ring keyId key now) := by
  rw [rotate]
  cases hhas : ring.has keyId with
  | error x => exact h.refused x
  | ok known =>
      cases known with
      | true => exact h.refused _
      | false =>
          by_cases hnil : ring.keys = []
          · have hsame : ring.retire now (now + window) = ring := by
              rw [KeyRing.retire, h.activeId_eq_none hnil]
            simp only [hsame]
            cases hmake : KeyRecord.make keyId key now with
            | error x => exact h.refused x
            | ok r =>
                obtain ⟨id, rfl, hid, -, rfl⟩ := make_eq_ok.1 hmake
                refine ⟨sound_add h.filed hid (fun id' r' hr' => ?_) key now,
                  evolves_set (get?_of_has hhas) _, fun x hx => nomatch hx⟩
                rw [hnil] at hr'
                cases hr'
          · have hvalid := (hc.resolve_left hnil).resolve_left fun hne => hne hhas
            obtain ⟨id, rfl, hid, hmake⟩ := make_of_valid hvalid now
            obtain ⟨hfiled, hevolves, hnone, hnew⟩ := retire_spec h hnil now
            simp only [hmake]
            exact ⟨sound_add hfiled hid hnone key now,
              hevolves.trans (evolves_set (hnew id (get?_of_has hhas)) _), fun x hx => nomatch hx⟩

theorem call_orderly (h : Sound window ring) {c : KeyCall T} (hc : Careful ring c) :
    Orderly window ring (ring.call window c) := by
  cases c with
  | addKey keyId key urandom now => exact addKey_orderly h now hc
  | rotate keyId key urandom now => exact rotate_orderly h now hc

/-- A call without the condition leaves two active records, or raises after a retirement. -/
theorem careful_of_call (h : Sound window ring) {c : KeyCall T}
    (hone : ∃ id, OnlyActive (ring.call window c).2.keys id)
    (hsame : ∀ x, (ring.call window c).1 = .error x → (ring.call window c).2 = ring) :
    Careful ring c := by
  cases c with
  | addKey keyId key urandom now =>
      by_contra hc
      rw [Careful, not_or, not_or, not_not, not_not] at hc
      obtain ⟨hne, hhas, hvalid⟩ := hc
      obtain ⟨old, r, hold, hr, hact, -⟩ := h.exists_active hne
      obtain ⟨id, rfl, hid, hmake⟩ := make_of_valid hvalid now
      obtain ⟨one, honly⟩ := hone
      rw [KeyRing.call, addKey, hhas] at honly
      simp only [hmake] at honly
      have hnew := honly id _ (by rw [Dict.get?_set, if_pos rfl]) rfl
      have hother : old ≠ id := by
        rintro rfl
        rw [get?_of_has hhas] at hr
        cases hr
      have hstays := honly old r (by rw [Dict.get?_set, if_neg hother]; exact hr) hact
      exact hother (hstays.trans hnew.symm)
  | rotate keyId key urandom now =>
      by_contra hc
      rw [Careful, not_or, not_or, not_not] at hc
      obtain ⟨hne, hhas, hvalid⟩ := hc
      obtain ⟨id, r, -, hr, hact, -⟩ := h.exists_active hne
      rw [KeyRing.call, rotate, hhas] at hsame
      cases hmake : KeyRecord.make keyId (keyMaterial key urandom) now with
      | ok r => exact hvalid (valid_of_make hmake)
      | error x =>
          simp only [hmake] at hsame
          -- the old record is retired, and it was active
          have hretired := (retire_spec h hne now).2.2.1
          rw [hsame x rfl] at hretired
          exact hretired id r hr hact

/-! ## Runs -/

theorem after_snoc (pre : List (KeyCall T)) (c : KeyCall T) :
    KeyRing.after window (pre ++ [c]) = ((KeyRing.after window pre).call window c).2 := by
  rw [KeyRing.after, List.foldl_append]
  rfl

theorem sound_prefix {calls : List (KeyCall T)}
    (hc : ∀ pre c post, calls = pre ++ c :: post → Sound window (KeyRing.after window pre) →
      Careful (KeyRing.after window pre) c)
    (pre : List (KeyCall T)) (hpre : pre <+: calls) : Sound window (KeyRing.after window pre) := by
  induction pre using List.reverseRecOn with
  | nil => exact sound_empty
  | append_singleton pre c ih =>
      obtain ⟨hinit, post, hpost⟩ := prefix_of_snoc hpre
      rw [after_snoc]
      exact (call_orderly (ih hinit) (hc pre c post hpost (ih hinit))).sound

theorem sound_after {calls : List (KeyCall T)} (hc : AllCareful window calls)
    (pre : List (KeyCall T)) (hpre : pre <+: calls) : Sound window (KeyRing.after window pre) :=
  sound_prefix (fun pre c post hpost _ => hc pre c post hpost) pre hpre

theorem evolves_after {calls : List (KeyCall T)} (hc : AllCareful window calls)
    (pre mid : List (KeyCall T)) (h : pre ++ mid <+: calls) :
    Evolves (KeyRing.after window pre).keys (KeyRing.after window (pre ++ mid)).keys := by
  induction mid using List.reverseRecOn with
  | nil =>
      rw [List.append_nil]
      exact Evolves.refl _
  | append_singleton mid c ih =>
      rw [← List.append_assoc] at h ⊢
      obtain ⟨hinit, post, hpost⟩ := prefix_of_snoc h
      rw [after_snoc]
      exact (ih hinit).trans
        (call_orderly (sound_after hc _ hinit) (hc _ c post hpost)).evolves

variable [LinearOrder T]

theorem rotates_of_careful {calls : List (KeyCall T)} (hc : AllCareful window calls) :
    Rotates window calls where
  unchanged pre c post hpost x hx :=
    (call_orderly (sound_after hc pre ⟨c :: post, hpost.symm⟩) (hc pre c post hpost)).unchanged x hx
  active pre hpre hne := by
    have hs := sound_after hc pre hpre
    obtain ⟨id, r, hid, hr, hact, honly, -⟩ := hs.exists_active hne
    exact ⟨id, r, hr, Option.isNone_iff_eq_none.2 hact,
      fun id' r' hr' hact' => honly id' r' hr' (Option.isNone_iff_eq_none.1 hact'),
      sign_eq hs hid hr⟩
  signatures pre mid h data id signature hsign := by
    have hpre : pre <+: calls := (List.prefix_append pre mid).trans h
    obtain ⟨r, hr, rfl⟩ := signer (sound_after hc pre hpre) hsign
    obtain ⟨r', hr', hkey, -⟩ := evolves_after hc pre mid h id r hr
    refine ⟨r', hr', fun now => verify_iff.trans ⟨?_, fun hv => ⟨r', hr', hv, by rw [hkey]⟩⟩⟩
    rintro ⟨r'', hr'', hv, -⟩
    rw [hr'] at hr''
    cases hr''
    exact hv
  accepted pre hpre now id data signature hv := by
    have hs := sound_after hc pre hpre
    obtain ⟨r, hr, hverifiable, rfl⟩ := verify_iff.1 hv
    cases ht : r.retiredAt with
    | none =>
        have hne : (KeyRing.after window pre).keys ≠ [] := by
          intro hnil
          rw [hnil] at hr
          cases hr
        obtain ⟨id', r', hid, hr', -, honly, -⟩ := hs.exists_active hne
        have hsame := honly id r hr ht
        subst hsame
        exact .inl (sign_eq hs hid hr data)
    | some t =>
        rcases hverifiable with hnone | ⟨u, hu, hle⟩
        · rw [ht] at hnone
          cases hnone
        · exact .inr ⟨r, t, u, hr, ht, hu, hle⟩
  windows pre mid h id r t hr ht := by
    have hpre : pre <+: calls := (List.prefix_append pre mid).trans h
    obtain ⟨r', hr', -, hsame⟩ := evolves_after hc pre mid h id r hr
    exact ⟨(sound_after hc pre hpre).filed.retired id r t hr ht, hsame t ht ▸ hr'⟩

theorem Rotates.careful {calls pre post : List (KeyCall T)} {c : KeyCall T}
    (h : Rotates window calls) (hpost : calls = pre ++ c :: post)
    (hs : Sound window (KeyRing.after window pre)) : Careful (KeyRing.after window pre) c := by
  refine careful_of_call hs ?_ (h.unchanged pre c post hpost)
  have hpre : pre ++ [c] <+: calls := ⟨post, by rw [hpost, List.append_assoc]; rfl⟩
  rw [← after_snoc]
  by_cases hnil : (KeyRing.after window (pre ++ [c])).keys = []
  · refine ⟨[], fun id' r' hr' _ => ?_⟩
    rw [hnil] at hr'
    cases hr'
  · obtain ⟨id, r, -, -, honly, -⟩ := h.active _ hpre hnil
    exact ⟨id, fun id' r' hr' hact => honly id' r' hr' (Option.isNone_iff_eq_none.2 hact)⟩

/-- A ring keeps its promises in exactly the runs in which every call meets the condition. -/
theorem rotates_iff (window : T) (calls : List (KeyCall T)) :
    Rotates window calls ↔ AllCareful window calls := by
  refine ⟨fun h => ?_, rotates_of_careful⟩
  have hsound := sound_prefix fun pre c post hpost hs => h.careful hpost hs
  exact fun pre c post hpost => h.careful hpost (hsound pre ⟨c :: post, hpost.symm⟩)

end Runs

section Concrete

attribute [local instance] wholeFloats

/-- `add_key("a", key)` at 1 and `rotate("b", b"short")` at 5. -/
def shortRotation : List (KeyCall Nat) :=
  [.addKey (.str (lit "a")) (some (List.replicate 16 7)) [] 1,
    .rotate (.str (lit "b")) (some [1, 2, 3, 4, 5]) [] 5]

/-- The rotation raises for its short key, and has retired the active record. -/
theorem failed_rotation_retires : ¬ ∀ calls : List (KeyCall Nat), Rotates 60 calls := by
  intro h
  have hsame := (h shortRotation).unchanged [shortRotation[0]] shortRotation[1] [] rfl
    (contractError "key material must be at least 16 bytes") rfl
  have hretired := congrArg
    (fun ring : KeyRing Nat => (ring.keys.get? (lit "a")).map KeyRecord.retiredAt) hsame
  revert hretired
  decide

end Concrete

end ResidualHarness.Crypto
