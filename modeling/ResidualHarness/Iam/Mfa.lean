import ResidualHarness.Core.Task
import ResidualHarness.Python.Sha1

/-!
# Step-up authentication

`residual/iam/mfa.py`: time-based codes and the manager that asks for them before privileged
actions. The manager remembers that a subject once presented a right code (`mem_after`) and neither
forgets this after a privileged action nor remembers the code.
-/

set_option autoImplicit false

namespace ResidualHarness.Iam

open Python Core

/-! ## Time-based codes -/

/-- `s.zfill(n)` for a string of digits. -/
def zfill (n : Nat) (s : Str) : Str := List.replicate (n - s.length) (digitChar 0) ++ s

/-- `generate_totp(secret, at, period=period, digits=digits)`. -/
def generateTotp (secret : List Nat) (time period digits : Int) : Except PyExn Str := do
  require (secret ≠ []) (contractError "totp secret must be non-empty bytes")
  require (0 ≤ time) (contractError "totp time must be a nonnegative integer")
  require (1 ≤ period ∧ 6 ≤ digits ∧ digits ≤ 8) (contractError "invalid totp period/digits")
  let counter := (time / period).toNat
  -- `struct.pack(">Q", counter)`
  require (counter < 2 ^ 64) (.runtimeError "struct.error" "int too large to convert")
  let digest := hmacSha1 secret (Sha256.bytesOfNat 8 counter)
  let offset := digest.getLastD 0 &&& 0x0F
  let code := Sha256.valueOfBytes ((digest.drop offset).take 4) &&& 0x7FFFFFFF
  return zfill digits.toNat (natRepr (code % 10 ^ digits.toNat))

/-- `hmac.compare_digest(a, b)` on strings: both must be ASCII. -/
def compareDigest (a b : Str) : Except PyExn Bool :=
  if isAscii a = true ∧ isAscii b = true then .ok (decide (a = b)) else .error .typeError

/-- `range(-window, window + 1)`. -/
def drifts (window : Int) : List Int :=
  (List.range (2 * window + 1).toNat).map fun (i : Nat) => (i : Int) - window

/-- The loop of `verify_totp`: the time step whose code matches. -/
def matchingStep (secret : List Nat) (code : Str) (time period digits : Int) :
    List Int → Except PyExn (Option Int)
  | [] => .ok none
  | drift :: rest =>
      let step := time + drift * period
      if step < 0 then matchingStep secret code time period digits rest
      else do
        let expected ← generateTotp secret step period digits
        if ← compareDigest expected code then return some (step / period)
        matchingStep secret code time period digits rest

section

-- which characters beyond ASCII are digits
variable (otherDigit : CodePoint → Bool)

/-- `code.isdigit()`. -/
def isDigitText (code : Str) : Bool :=
  !code.isEmpty && code.all fun c => isDigit c || (decide (0x80 ≤ c.val) && otherDigit c)

/-- The time step for which a code is accepted. -/
def acceptedStep (secret : List Nat) (code : Str) (time period digits window : Int) :
    Except PyExn (Option Int) :=
  if isDigitText otherDigit code then do
    require (0 ≤ window) (contractError "window must be a nonnegative integer")
    matchingStep secret code time period digits (drifts window)
  else .ok none

/-- `verify_totp(secret, code, at, period=period, digits=digits, window=window)`. -/
def verifyTotp (secret : List Nat) (code : Str) (time period digits window : Int) :
    Except PyExn Bool :=
  Option.isSome <$> acceptedStep otherDigit secret code time period digits window

/-- The step for which the manager accepts a code: the defaults of `verify_totp`. -/
def stepOf (secret : List Nat) (code : Str) (time : Int) : Except PyExn (Option Int) :=
  acceptedStep otherDigit secret code time 30 6 1

/-! ## The manager -/

/-- `PRIVILEGED_ACTIONS`. -/
def privilegedActions : List Str :=
  [lit "hitl_approval", lit "policy_modification", lit "module_installation"]

/-- `IDP_MFA_AMR`. -/
def idpMfaAmr : List Str := [lit "mfa", lit "otp", lit "hwk", lit "fido2", lit "webauthn"]

/-- `IDP_MFA_AUTHN_CONTEXT`. -/
def idpMfaAuthnContext : List Str :=
  [lit "urn:oasis:names:tc:SAML:2.0:ac:classes:Multifactor",
    lit "http://schemas.microsoft.com/claims/multipleauthn"]

/-- `c.lower()` for the characters whose lower case is an ASCII letter: the capitals and the Kelvin
sign. The names of `IDP_MFA_AMR` have no other characters. -/
def lowerAscii (c : CodePoint) : CodePoint :=
  if 0x41 ≤ c.val ∧ c.val ≤ 0x5A then c + 0x20 else if c = 0x212A then 0x6B else c

/-- `idp_mfa_satisfied(amr, authn_context)`. -/
def idpMfaSatisfied (amr : List Str) (authnContext : Option Str) : Bool :=
  amr.any (fun a => decide (a.map lowerAscii ∈ idpMfaAmr)) ||
    authnContext.any fun c => decide (c ∈ idpMfaAuthnContext)

/-- `MFAManager`: the last verification of each subject. -/
structure MFAManager where
  localVerifications : Dict Str Int

/-- `verify_local(subject_id, secret, code)`, with the two readings of the clock. -/
def verifyLocal (m : MFAManager) (subjectId : Str) (secret : List Nat) (code : Str)
    (clock again : Int) : Except PyExn (Bool × MFAManager) := do
  identifier subjectId
  let ok ← verifyTotp otherDigit secret code clock 30 6 1
  if ok then return (true, ⟨m.localVerifications.set subjectId again⟩)
  return (false, m)

/-- `has_local_mfa(subject_id)`. -/
def hasLocalMfa (m : MFAManager) (subjectId : Str) : Except PyExn Bool := do
  identifier subjectId
  return decide (subjectId ∈ m.localVerifications.keys)

/-- `require_privileged(action, subject_id, amr=amr, authn_context=authn_context)`. -/
def requirePrivileged (m : MFAManager) (action subjectId : Str) (amr : List Str)
    (authnContext : Option Str) : Except PyExn Unit := do
  identifier subjectId
  require (action ∈ privilegedActions) (contractError "unknown privileged action")
  if idpMfaSatisfied amr authnContext then return ()
  if ← hasLocalMfa m subjectId then return ()
  throw (contractError "MFA required for privileged action")

/-! ## Runs -/

/-- Calls on a manager. -/
inductive MfaCall where
  | verifyLocal (subjectId : Str) (secret : List Nat) (code : Str) (clock again : Int)
  | requirePrivileged (action subjectId : Str) (amr : List Str) (authnContext : Option Str)

/-- What a call came to. -/
inductive MfaOutcome where
  | verified (ok : Bool)
  | passed
  | raised (x : PyExn)
deriving DecidableEq

/-- One call. -/
def mfaStep (m : MFAManager) : MfaCall → MFAManager × MfaOutcome
  | .verifyLocal subjectId secret code clock again =>
      match verifyLocal otherDigit m subjectId secret code clock again with
      | .ok (ok, m') => (m', .verified ok)
      | .error x => (m, .raised x)
  | .requirePrivileged action subjectId amr authnContext =>
      match requirePrivileged m action subjectId amr authnContext with
      | .ok () => (m, .passed)
      | .error x => (m, .raised x)

/-- A new manager after these calls. -/
def after (calls : List MfaCall) : MFAManager :=
  calls.foldl (fun m c => (mfaStep otherDigit m c).1) ⟨[]⟩

/-- What call `i` of a run came to. -/
def outcomeAt (calls : List MfaCall) (i : Nat) : Option MfaOutcome :=
  calls[i]?.map fun c => (mfaStep otherDigit (after otherDigit (calls.take i)) c).2

/-- Call `i` is a verification of this subject with this secret, accepted for this time step. -/
def AcceptedAt (calls : List MfaCall) (i : Nat) (subjectId : Str) (secret : List Nat) (n : Int) :
    Prop :=
  ∃ code clock again, calls[i]? = some (.verifyLocal subjectId secret code clock again) ∧
    outcomeAt otherDigit calls i = some (.verified true) ∧
    stepOf otherDigit secret code clock = .ok (some n)

/-- Call `i` is a privileged action of this subject that was let through. -/
def PassedAt (calls : List MfaCall) (i : Nat) (subjectId : Str) : Prop :=
  ∃ action amr authnContext,
    calls[i]? = some (.requirePrivileged action subjectId amr authnContext) ∧
      outcomeAt otherDigit calls i = some .passed

/-- A privileged action without evidence of the identity provider is let through only when the
subject verified a code after its previous privileged action, and the code of a time step is
accepted at most once per subject and secret. -/
structure FreshStepUp (calls : List MfaCall) : Prop where
  fresh : ∀ (i : Nat) action subjectId amr authnContext,
    calls[i]? = some (.requirePrivileged action subjectId amr authnContext) →
    idpMfaSatisfied amr authnContext = false → outcomeAt otherDigit calls i = some .passed →
      ∃ j < i, (∃ secret n, AcceptedAt otherDigit calls j subjectId secret n) ∧
        ∀ k, j < k → k < i → ¬ PassedAt otherDigit calls k subjectId
  once : ∀ (i j : Nat) subjectId secret n, i < j → AcceptedAt otherDigit calls i subjectId secret n →
    ¬ AcceptedAt otherDigit calls j subjectId secret n

/-! ## What callers would have to see to -/

/-- The call presents a code that is right for time step `n`. -/
def RightCode (c : MfaCall) (subjectId : Str) (secret : List Nat) (n : Int) : Prop :=
  ∃ code clock again, c = .verifyLocal subjectId secret code clock again ∧
    isIdentifier subjectId = true ∧ stepOf otherDigit secret code clock = .ok (some n)

/-- The call presents a right code of this subject. -/
def Right (c : MfaCall) (subjectId : Str) : Prop :=
  ∃ secret n, RightCode otherDigit c subjectId secret n

/-- The call asks for a privileged action of this subject. -/
def Privileged (c : MfaCall) (subjectId : Str) : Prop :=
  ∃ action amr authnContext, c = .requirePrivileged action subjectId amr authnContext ∧
    isIdentifier subjectId = true ∧ action ∈ privilegedActions

/-- A subject that has presented a right code presents another one between two privileged actions,
unless the second has evidence of the identity provider; and no right code is presented twice. -/
structure Careful (calls : List MfaCall) : Prop where
  renewed : ∀ (i : Nat) action subjectId amr authnContext,
    calls[i]? = some (.requirePrivileged action subjectId amr authnContext) →
    isIdentifier subjectId = true → action ∈ privilegedActions →
    idpMfaSatisfied amr authnContext = false → (∃ c ∈ calls.take i, Right otherDigit c subjectId) →
      ∃ j < i, (∃ c, calls[j]? = some c ∧ Right otherDigit c subjectId) ∧
        ∀ (k : Nat) c, j < k → k < i → calls[k]? = some c → ¬ Privileged c subjectId
  single : ∀ (i j : Nat) c c' subjectId secret n, i < j → calls[i]? = some c → calls[j]? = some c' →
    RightCode otherDigit c subjectId secret n → ¬ RightCode otherDigit c' subjectId secret n

/-! ## What the manager remembers -/

theorem identifier_ok {s : Str} {u : Unit} : identifier s = .ok u ↔ isIdentifier s = true :=
  require_eq_ok

/-- A verification is accepted when the subject is an identifier and the code right for a step. -/
theorem verifyLocal_true {m m' : MFAManager} {subjectId code : Str} {secret : List Nat}
    {clock again : Int} :
    verifyLocal otherDigit m subjectId secret code clock again = .ok (true, m') ↔
      isIdentifier subjectId = true ∧ (∃ n, stepOf otherDigit secret code clock = .ok (some n)) ∧
        m' = ⟨m.localVerifications.set subjectId again⟩ := by
  rw [verifyLocal, bind_eq_ok]
  simp only [identifier_ok, verifyTotp, stepOf]
  cases hstep : acceptedStep otherDigit secret code clock 30 6 1 with
  | error x => simp [bind, Except.bind, Functor.map, Except.map]
  | ok found =>
      cases found with
      | none => simp [bind, Except.bind, pure, Except.pure, Functor.map, Except.map]
      | some n =>
          constructor
          · rintro ⟨_, hid, hret⟩
            cases hret
            exact ⟨hid, ⟨n, rfl⟩, rfl⟩
          · rintro ⟨hid, -, rfl⟩
            exact ⟨(), hid, rfl⟩

theorem mfaStep_verified {m : MFAManager} {subjectId code : Str} {secret : List Nat}
    {clock again : Int} :
    (mfaStep otherDigit m (.verifyLocal subjectId secret code clock again)).2 = .verified true ↔
      isIdentifier subjectId = true ∧ ∃ n, stepOf otherDigit secret code clock = .ok (some n) := by
  rw [mfaStep]
  cases hv : verifyLocal otherDigit m subjectId secret code clock again with
  | error x =>
      constructor
      · intro h
        cases h
      · rintro ⟨hid, hn⟩
        rw [(verifyLocal_true otherDigit).2 ⟨hid, hn, rfl⟩] at hv
        cases hv
  | ok r =>
      obtain ⟨ok, m'⟩ := r
      constructor
      · intro h
        cases h
        obtain ⟨hid, hn, -⟩ := (verifyLocal_true otherDigit).1 hv
        exact ⟨hid, hn⟩
      · rintro ⟨hid, hn⟩
        rw [(verifyLocal_true otherDigit).2 ⟨hid, hn, rfl⟩] at hv
        cases hv
        rfl

omit otherDigit in
/-- A privileged action is let through on evidence or on a remembered verification. -/
theorem requirePrivileged_ok {m : MFAManager} {action subjectId : Str} {amr : List Str}
    {authnContext : Option Str} :
    requirePrivileged m action subjectId amr authnContext = .ok () ↔
      isIdentifier subjectId = true ∧ action ∈ privilegedActions ∧
        (idpMfaSatisfied amr authnContext = true ∨ subjectId ∈ m.localVerifications.keys) := by
  rw [requirePrivileged, bind_eq_ok]
  simp only [identifier_ok, bind_eq_ok, require_eq_ok]
  constructor
  · rintro ⟨_, hid, _, hact, h⟩
    refine ⟨hid, hact, ?_⟩
    by_cases hidp : idpMfaSatisfied amr authnContext = true
    · exact .inl hidp
    · rw [if_neg hidp] at h
      obtain ⟨found, hfound, h⟩ := bind_eq_ok.1 h
      obtain ⟨_, _, hret⟩ := bind_eq_ok.1 hfound
      cases hret
      by_cases hmem : subjectId ∈ m.localVerifications.keys
      · exact .inr hmem
      · rw [decide_eq_false hmem] at h
        cases h
  · rintro ⟨hid, hact, hev⟩
    refine ⟨(), hid, (), hact, ?_⟩
    by_cases hidp : idpMfaSatisfied amr authnContext = true
    · rw [if_pos hidp]
      rfl
    · have hmem := hev.resolve_left hidp
      rw [if_neg hidp]
      refine bind_eq_ok.2 ⟨true, bind_eq_ok.2 ⟨(), identifier_ok.2 hid, ?_⟩, rfl⟩
      rw [decide_eq_true hmem]
      rfl

theorem mfaStep_passed {m : MFAManager} {action subjectId : Str} {amr : List Str}
    {authnContext : Option Str} :
    (mfaStep otherDigit m (.requirePrivileged action subjectId amr authnContext)).2 = .passed ↔
      isIdentifier subjectId = true ∧ action ∈ privilegedActions ∧
        (idpMfaSatisfied amr authnContext = true ∨ subjectId ∈ m.localVerifications.keys) := by
  rw [← requirePrivileged_ok, mfaStep]
  cases requirePrivileged m action subjectId amr authnContext with
  | error x => exact ⟨nofun, nofun⟩
  | ok u => exact ⟨fun _ => rfl, fun _ => rfl⟩

/-- One call adds the subject of a right code, and nothing else is added or forgotten. -/
theorem mem_mfaStep {m : MFAManager} {c : MfaCall} {subjectId : Str} :
    subjectId ∈ (mfaStep otherDigit m c).1.localVerifications.keys ↔
      subjectId ∈ m.localVerifications.keys ∨ Right otherDigit c subjectId := by
  cases c with
  | requirePrivileged action s amr authnContext =>
      have hright : ¬ Right otherDigit (.requirePrivileged action s amr authnContext) subjectId := by
        rintro ⟨_, _, _, _, _, h, -⟩
        cases h
      rw [mfaStep]
      split <;> simp [hright]
  | verifyLocal s secret code clock again =>
      rw [mfaStep]
      have hwrong (hv : ∀ m', verifyLocal otherDigit m s secret code clock again ≠ .ok (true, m')) :
          ¬ Right otherDigit (.verifyLocal s secret code clock again) subjectId := by
        rintro ⟨_, n, _, _, _, h, hid, hn⟩
        cases h
        exact hv _ ((verifyLocal_true otherDigit).2 ⟨hid, ⟨n, hn⟩, rfl⟩)
      cases hv : verifyLocal otherDigit m s secret code clock again with
      | error x =>
          simp [hwrong (by rw [hv]; nofun)]
      | ok r =>
          obtain ⟨ok, m'⟩ := r
          cases ok with
          | true =>
              obtain ⟨hid, ⟨n, hn⟩, rfl⟩ := (verifyLocal_true otherDigit).1 hv
              show subjectId ∈ (m.localVerifications.set s again).keys ↔ _
              rw [Dict.mem_keys_set]
              constructor
              · rintro (rfl | h)
                · exact .inr ⟨secret, n, code, clock, again, rfl, hid, hn⟩
                · exact .inl h
              · rintro (h | ⟨_, _, _, _, _, h, -⟩)
                · exact .inr h
                · cases h
                  exact .inl rfl
          | false =>
              have hright := hwrong (by rw [hv]; nofun)
              have hm : m' = m := by
                rw [verifyLocal, bind_eq_ok] at hv
                obtain ⟨_, -, hv⟩ := hv
                obtain ⟨ok, -, hv⟩ := bind_eq_ok.1 hv
                cases ok <;> cases hv
                rfl
              simp [hright, hm]

/-- The manager remembers exactly the subjects that presented a right code. -/
theorem mem_after {calls : List MfaCall} {subjectId : Str} :
    subjectId ∈ (after otherDigit calls).localVerifications.keys ↔
      ∃ c ∈ calls, Right otherDigit c subjectId := by
  induction calls using List.reverseRecOn with
  | nil => simp [after, Dict.keys]
  | append_singleton calls c ih =>
      rw [after, List.foldl_append, List.foldl_cons, List.foldl_nil, mem_mfaStep]
      rw [after] at ih
      rw [ih]
      constructor
      · rintro (⟨c', hc', h⟩ | h)
        · exact ⟨c', List.mem_append_left _ hc', h⟩
        · exact ⟨c, by simp, h⟩
      · rintro ⟨c', hc', h⟩
        rcases List.mem_append.1 hc' with hc' | hc'
        · exact .inl ⟨c', hc', h⟩
        · rw [List.mem_singleton.1 hc'] at h
          exact .inr h

/-! ## The exact condition -/

variable {otherDigit} {calls : List MfaCall}

theorem outcomeAt_of {i : Nat} {c : MfaCall} (h : calls[i]? = some c) :
    outcomeAt otherDigit calls i =
      some (mfaStep otherDigit (after otherDigit (calls.take i)) c).2 := by
  rw [outcomeAt, h, Option.map_some]

/-- A verification is accepted exactly when its code is right. -/
theorem acceptedAt_iff {i : Nat} {subjectId : Str} {secret : List Nat} {n : Int} :
    AcceptedAt otherDigit calls i subjectId secret n ↔
      ∃ c, calls[i]? = some c ∧ RightCode otherDigit c subjectId secret n := by
  constructor
  · rintro ⟨code, clock, again, hc, hout, hn⟩
    rw [outcomeAt_of hc, Option.some.injEq, mfaStep_verified] at hout
    exact ⟨_, hc, code, clock, again, rfl, hout.1, hn⟩
  · rintro ⟨_, hc, code, clock, again, rfl, hid, hn⟩
    refine ⟨code, clock, again, hc, ?_, hn⟩
    rw [outcomeAt_of hc, Option.some.injEq, mfaStep_verified]
    exact ⟨hid, n, hn⟩

omit otherDigit in
theorem mem_take_of_lt {i j : Nat} {c : MfaCall} (hij : j < i) (h : calls[j]? = some c) :
    c ∈ calls.take i := by
  apply List.mem_of_getElem? (i := j)
  rw [List.getElem?_take, if_pos hij]
  exact h

/-- Once a subject has presented a right code, all its privileged actions pass. -/
theorem passedAt_of_right {j k : Nat} {c c' : MfaCall} {subjectId : Str} (hjk : j < k)
    (hj : calls[j]? = some c) (hright : Right otherDigit c subjectId) (hk : calls[k]? = some c')
    (hpriv : Privileged c' subjectId) : PassedAt otherDigit calls k subjectId := by
  obtain ⟨action, amr, authnContext, rfl, hid, hact⟩ := hpriv
  refine ⟨action, amr, authnContext, hk, ?_⟩
  rw [outcomeAt_of hk, Option.some.injEq, mfaStep_passed]
  exact ⟨hid, hact, .inr ((mem_after otherDigit).2 ⟨c, mem_take_of_lt hjk hj, hright⟩)⟩

/-- Codes are fresh before privileged actions and accepted once, exactly when the callers present a
new right code between two privileged actions of a subject that has presented one before, and never
the code of one step twice. -/
theorem freshStepUp_iff (otherDigit : CodePoint → Bool) (calls : List MfaCall) :
    FreshStepUp otherDigit calls ↔ Careful otherDigit calls := by
  constructor
  · intro h
    refine ⟨?_, ?_⟩
    · intro i action subjectId amr authnContext hc hid hact hidp hbefore
      have hpass : outcomeAt otherDigit calls i = some .passed := by
        rw [outcomeAt_of hc, Option.some.injEq, mfaStep_passed]
        exact ⟨hid, hact, .inr ((mem_after otherDigit).2 hbefore)⟩
      obtain ⟨j, hji, ⟨secret, n, hacc⟩, hnone⟩ := h.fresh i _ _ _ _ hc hidp hpass
      obtain ⟨c, hcj, hright⟩ := acceptedAt_iff.1 hacc
      refine ⟨j, hji, ⟨c, hcj, secret, n, hright⟩, ?_⟩
      intro k c' hjk hki hk hpriv
      exact hnone k hjk hki (passedAt_of_right hjk hcj ⟨secret, n, hright⟩ hk hpriv)
    · intro i j c c' subjectId secret n hij hci hcj hr hr'
      exact h.once i j subjectId secret n hij (acceptedAt_iff.2 ⟨c, hci, hr⟩)
        (acceptedAt_iff.2 ⟨c', hcj, hr'⟩)
  · intro h
    refine ⟨?_, ?_⟩
    · intro i action subjectId amr authnContext hc hidp hpass
      rw [outcomeAt_of hc, Option.some.injEq, mfaStep_passed] at hpass
      obtain ⟨hid, hact, hev⟩ := hpass
      have hmem := hev.resolve_left (by rw [hidp]; exact Bool.false_ne_true)
      obtain ⟨j, hji, ⟨c, hcj, secret, n, hright⟩, hnone⟩ :=
        h.renewed i _ _ _ _ hc hid hact hidp ((mem_after otherDigit).1 hmem)
      refine ⟨j, hji, ⟨secret, n, acceptedAt_iff.2 ⟨c, hcj, hright⟩⟩, ?_⟩
      rintro k hjk hki ⟨action', amr', ctx', hk, hpass'⟩
      rw [outcomeAt_of hk, Option.some.injEq, mfaStep_passed] at hpass'
      exact hnone k _ hjk hki hk ⟨action', amr', ctx', rfl, hpass'.1, hpass'.2.1⟩
    · intro i j subjectId secret n hij hi hj
      obtain ⟨c, hci, hr⟩ := acceptedAt_iff.1 hi
      obtain ⟨c', hcj, hr'⟩ := acceptedAt_iff.1 hj
      exact h.single i j c c' subjectId secret n hij hci hcj hr hr'

end

/-! ## One code for two actions -/

/-- The secret of RFC 6238's examples, `12345678901234567890`. -/
def sampleSecret : List Nat := (List.range 20).map fun i => 0x30 + (i + 1) % 10

/-- One verification at time 59, the same again, and two privileged actions after it. -/
def sampleCalls : List MfaCall :=
  [.verifyLocal (lit "alice") sampleSecret (lit "287082") 59 59,
    .verifyLocal (lit "alice") sampleSecret (lit "287082") 60 60,
    .requirePrivileged (lit "hitl_approval") (lit "alice") [] none,
    .requirePrivileged (lit "policy_modification") (lit "alice") [] none]

example : generateTotp sampleSecret 59 30 8 = .ok (lit "94287082") := by decide +kernel

/-- The code is accepted twice, and the second action passes without another code. -/
theorem code_serves_twice :
    (List.range 4).map (outcomeAt (fun _ => false) sampleCalls) =
      [some (.verified true), some (.verified true), some .passed, some .passed] ∧
    ¬ FreshStepUp (fun _ => false) sampleCalls := by
  refine ⟨by decide +kernel, ?_⟩
  intro h
  have hstep : ∀ t, t = 59 ∨ t = 60 →
      stepOf (fun _ => false) sampleSecret (lit "287082") t = .ok (some 1) := by
    rintro t (rfl | rfl) <;> decide +kernel
  have hout : outcomeAt (fun _ => false) sampleCalls 0 = some (.verified true) ∧
      outcomeAt (fun _ => false) sampleCalls 1 = some (.verified true) := by
    constructor <;> decide +kernel
  exact h.once 0 1 (lit "alice") sampleSecret 1 (by decide)
    ⟨_, _, _, rfl, hout.1, hstep 59 (.inl rfl)⟩ ⟨_, _, _, rfl, hout.2, hstep 60 (.inr rfl)⟩

end ResidualHarness.Iam
