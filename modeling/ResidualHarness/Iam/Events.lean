import ResidualHarness.Core.Task
import ResidualHarness.Python.IpAddress

/-!
# The event log of the access management

`residual/iam/events.py`: observations, chained receipts and the log that holds both. An event is
recorded exactly when its observation passes its checks and has a digest (`record_ok`), and a log
that was filled by `record` verifies (`verifyChain_of_chained`).
-/

set_option autoImplicit false

namespace ResidualHarness.Iam

open Python Core

variable [FloatModel]

/-! ## Observations -/

/-- `[a-zA-Z0-9_]`. -/
def isSubjectStart (c : CodePoint) : Bool := isLetter c || isDigit c || decide (c = 0x5F)

/-- The characters after the first one: also `.`, `@`, `:`, `+`, `-` and `/`. -/
def isSubjectChar (c : CodePoint) : Bool :=
  isSubjectStart c ||
    decide (c = 0x2E ∨ c = 0x40 ∨ c = 0x3A ∨ c = 0x2B ∨ c = 0x2D ∨ c = 0x2F)

/-- The texts that `subject_identifier` accepts. -/
def isSubject : Str → Bool
  | [] => false
  | c :: cs => isSubjectStart c && decide (cs.length ≤ 127) && cs.all isSubjectChar

/-- `subject_identifier(value)`. -/
def subjectIdentifier (value : Str) : Except PyExn Unit :=
  require (isSubject value = true) (contractError "invalid subject identifier")

/-- `validate_ip(value)`. -/
def validateIp (value : Str) : Except PyExn Unit :=
  require ((ipAddress value).isSome = true) (contractError "invalid source IP address")

/-- `AUTH_EVENT_TYPES`. -/
inductive EventType where
  | login
  | logout
  | tokenRefresh
  | elevation
  | accessDenied
  | serviceAction
  | sessionRevoked
  | mfa
deriving DecidableEq

/-- The text of an event type. -/
def EventType.name : EventType → Str
  | .login => lit "login"
  | .logout => lit "logout"
  | .tokenRefresh => lit "token_refresh"
  | .elevation => lit "permission_elevation"
  | .accessDenied => lit "access_denied"
  | .serviceAction => lit "service_account_action"
  | .sessionRevoked => lit "session_revoked"
  | .mfa => lit "mfa_event"

/-- The authorization result. -/
inductive AuthResult where
  | allow
  | deny
deriving DecidableEq

/-- The text of a result. -/
def AuthResult.name : AuthResult → Str
  | .allow => lit "allow"
  | .deny => lit "deny"

/-- `SUBJECT_HUMAN`, `SUBJECT_SERVICE`. -/
def subjectTypes : List Str := [lit "human", lit "service"]

/-- `Observation`. -/
structure Observation where
  eventType : EventType
  subjectId : Str
  timestamp : Int
  sourceIp : Str
  result : AuthResult
  subjectType : Str
  details : Fields

/-- `Observation.__post_init__`. -/
def Observation.checks (o : Observation) : Except PyExn Unit := do
  subjectIdentifier o.subjectId
  validateIp o.sourceIp
  require (o.subjectType ∈ subjectTypes) (contractError "invalid subject type")
  let _ ← canonical (.obj o.details)

/-- `Observation.payload()`. -/
def Observation.payload (o : Observation) : Fields :=
  [(lit "schema", .str (lit "residual.iam.observation.v1")),
    (lit "event_type", .str o.eventType.name), (lit "subject_id", .str o.subjectId),
    (lit "subject_type", .str o.subjectType), (lit "timestamp", .int o.timestamp),
    (lit "source_ip", .str o.sourceIp), (lit "result", .str o.result.name),
    (lit "details", .obj o.details)]

/-! ## Receipts -/

/-- `EventReceipt`. -/
structure EventReceipt where
  receiptHash : Str
  observationHash : Str
  previousHash : Str
  eventType : EventType
  subjectId : Str
  subjectType : Str
  timestamp : Int

/-- The payload of a receipt without its own hash. -/
def receiptCore (observationHash previousHash : Str) (o : Observation) : Fields :=
  [(lit "schema", .str (lit "residual.iam.receipt.v1")),
    (lit "observation_hash", .str observationHash), (lit "previous_hash", .str previousHash),
    (lit "event_type", .str o.eventType.name), (lit "subject_id", .str o.subjectId),
    (lit "subject_type", .str o.subjectType), (lit "timestamp", .int o.timestamp)]

/-- `receipt.payload()` without the field `receipt_hash`. -/
def EventReceipt.core (r : EventReceipt) : Fields :=
  [(lit "schema", .str (lit "residual.iam.receipt.v1")),
    (lit "observation_hash", .str r.observationHash), (lit "previous_hash", .str r.previousHash),
    (lit "event_type", .str r.eventType.name), (lit "subject_id", .str r.subjectId),
    (lit "subject_type", .str r.subjectType), (lit "timestamp", .int r.timestamp)]

/-- `GENESIS_HASH`. -/
def genesisHash : Str := List.replicate 64 0x30

/-- `EventLog`. -/
structure EventLog where
  observations : List Observation
  receipts : List EventReceipt

/-- A new log. -/
def EventLog.empty : EventLog := ⟨[], []⟩

/-- The hash a new receipt is chained to. -/
def EventLog.previousHash (log : EventLog) : Str :=
  match log.receipts.getLast? with
  | some r => r.receiptHash
  | none => genesisHash

/-- `record(event_type, subject_id, source_ip, result, subject_type=.., details=..)` at a reading of
the clock. -/
def EventLog.record (log : EventLog) (o : Observation) : Except PyExn EventLog := do
  o.checks
  let observationHash ← digest (.obj o.payload)
  let core := receiptCore observationHash log.previousHash o
  let receiptHash ← digest (.obj core)
  let receipt := ⟨receiptHash, observationHash, log.previousHash, o.eventType, o.subjectId,
    o.subjectType, o.timestamp⟩
  return ⟨log.observations ++ [o], log.receipts ++ [receipt]⟩

/-- The loop of `verify_chain`. -/
def verifyFrom (previous : Str) : List (Observation × EventReceipt) → Except PyExn Bool
  | [] => .ok true
  | (o, r) :: rest => do
      if r.observationHash ≠ (← digest (.obj o.payload)) then return false
      if r.previousHash ≠ previous then return false
      if r.receiptHash ≠ (← digest (.obj r.core)) then return false
      verifyFrom r.receiptHash rest

/-- `verify_chain()`. -/
def EventLog.verifyChain (log : EventLog) : Except PyExn Bool := do
  if ← verifyFrom genesisHash (log.observations.zip log.receipts) then
    return decide (log.observations.length = log.receipts.length)
  return false

/-! ## What is recorded -/

/-- The log takes the event: the subject, the address and the kind of subject pass their checks, and
the observation has a digest. -/
def Observation.Loggable (o : Observation) : Prop :=
  isSubject o.subjectId = true ∧ (ipAddress o.sourceIp).isSome = true ∧
    o.subjectType ∈ subjectTypes ∧ Digestible (.obj o.payload)

instance (o : Observation) : Decidable o.Loggable :=
  inferInstanceAs (Decidable (_ ∧ _ ∧ _ ∧ _))

/-- The receipt of an observation. -/
def receiptOf (o : Observation) (previousHash : Str) : EventReceipt :=
  let observationHash := digestText (.obj o.payload)
  ⟨digestText (.obj (receiptCore observationHash previousHash o)), observationHash, previousHash,
    o.eventType, o.subjectId, o.subjectType, o.timestamp⟩

theorem Observation.details_dumpable {o : Observation} (h : Digestible (.obj o.payload)) :
    (Json.obj o.details).dumpable = true := by
  have hmem : (lit "details", Json.obj o.details) ∈ o.payload := by simp [Observation.payload]
  exact (digestible_obj.1 h _ hmem).2.1

theorem Observation.checks_ok {o : Observation} :
    o.checks = .ok () ↔ isSubject o.subjectId = true ∧ (ipAddress o.sourceIp).isSome = true ∧
      o.subjectType ∈ subjectTypes ∧ (Json.obj o.details).dumpable = true := by
  rw [Observation.checks]
  simp only [bind_eq_ok, subjectIdentifier, validateIp, require_eq_ok]
  constructor
  · rintro ⟨_, h1, _, h2, _, h3, text, h4, -⟩
    exact ⟨h1, h2, h3, (dumpable_of_canonical h4).1⟩
  · rintro ⟨h1, h2, h3, h4⟩
    exact ⟨(), h1, (), h2, (), h3, _, canonical_of_dumpable h4, rfl⟩

/-- A hash is 64 ASCII characters, whatever it is chained to. -/
theorem digestible_receiptCore {o : Observation} {observationHash previousHash : Str}
    (h : Digestible (.obj o.payload)) (h1 : encodable observationHash = true)
    (h2 : encodable previousHash = true) :
    Digestible (.obj (receiptCore observationHash previousHash o)) := by
  have hall := digestible_obj.1 h
  simp only [Observation.payload, List.mem_cons, List.not_mem_nil, or_false, forall_eq_or_imp,
    forall_eq] at hall
  obtain ⟨-, het, hsub, hst, hts, -⟩ := hall
  rw [digestible_obj]
  simp only [receiptCore, List.mem_cons, List.not_mem_nil, or_false, forall_eq_or_imp, forall_eq,
    encodable_lit, digestible_str, h1, h2, true_and]
  exact ⟨digestible_str.1 het.2, digestible_str.1 hsub.2, digestible_str.1 hst.2, hts.2⟩

theorem record_ok {log log' : EventLog} {o : Observation} (hprev : encodable log.previousHash = true) :
    log.record o = .ok log' ↔ o.Loggable ∧
      log' = ⟨log.observations ++ [o], log.receipts ++ [receiptOf o log.previousHash]⟩ := by
  rw [EventLog.record]
  constructor
  · intro h
    obtain ⟨_, hchecks, h⟩ := bind_eq_ok.1 h
    obtain ⟨hash, hdigest, h⟩ := bind_eq_ok.1 h
    obtain ⟨hash', hdigest', h⟩ := bind_eq_ok.1 h
    cases h
    obtain ⟨h1, h2, h3, -⟩ := Observation.checks_ok.1 hchecks
    obtain ⟨hd, rfl⟩ := digest_eq_ok_iff.1 hdigest
    obtain ⟨-, rfl⟩ := digest_eq_ok_iff.1 hdigest'
    exact ⟨⟨h1, h2, h3, hd⟩, rfl⟩
  · rintro ⟨⟨h1, h2, h3, hd⟩, rfl⟩
    have hchecks := Observation.checks_ok.2 ⟨h1, h2, h3, Observation.details_dumpable hd⟩
    have hcore : Digestible (.obj (receiptCore (digestText (.obj o.payload)) log.previousHash o)) :=
      digestible_receiptCore hd (sha256_encodable _) hprev
    exact bind_eq_ok.2 ⟨(), hchecks, bind_eq_ok.2 ⟨_, digest_of_digestible hd,
      bind_eq_ok.2 ⟨_, digest_of_digestible hcore, rfl⟩⟩⟩

/-! ## Logs filled by recording -/

/-- The receipts of these observations, chained from a hash on. -/
def receiptsFrom (previous : Str) : List Observation → List EventReceipt
  | [] => []
  | o :: os => receiptOf o previous :: receiptsFrom (receiptOf o previous).receiptHash os

/-- The hash after these observations. -/
def hashAfter (previous : Str) : List Observation → Str
  | [] => previous
  | o :: os => hashAfter (receiptOf o previous).receiptHash os

/-- The log holds loggable observations with their chained receipts. -/
structure Chained (log : EventLog) : Prop where
  receipts : log.receipts = receiptsFrom genesisHash log.observations
  loggable : ∀ o ∈ log.observations, o.Loggable

theorem chained_empty : Chained EventLog.empty :=
  ⟨rfl, fun _ h => absurd h List.not_mem_nil⟩

theorem receiptsFrom_concat (previous : Str) (os : List Observation) (o : Observation) :
    receiptsFrom previous (os ++ [o]) =
      receiptsFrom previous os ++ [receiptOf o (hashAfter previous os)] := by
  induction os generalizing previous with
  | nil => rfl
  | cons o' os ih => rw [List.cons_append, receiptsFrom, ih, receiptsFrom, List.cons_append, hashAfter]

theorem getLast?_receiptsFrom (previous : Str) (os : List Observation) :
    (match (receiptsFrom previous os).getLast? with
      | some r => r.receiptHash
      | none => previous) = hashAfter previous os := by
  induction os using List.reverseRecOn generalizing previous with
  | nil => rfl
  | append_singleton os o ih =>
      rw [receiptsFrom_concat, List.getLast?_concat]
      show (receiptOf o (hashAfter previous os)).receiptHash = _
      clear ih
      induction os generalizing previous with
      | nil => rfl
      | cons o' os ih => exact ih _

theorem Chained.previousHash {log : EventLog} (h : Chained log) :
    log.previousHash = hashAfter genesisHash log.observations := by
  rw [EventLog.previousHash, h.receipts]
  exact getLast?_receiptsFrom genesisHash log.observations

theorem encodable_hashAfter {previous : Str} (hp : encodable previous = true)
    (os : List Observation) : encodable (hashAfter previous os) = true := by
  induction os generalizing previous with
  | nil => exact hp
  | cons o os ih => exact ih (sha256_encodable _)

theorem Chained.encodable {log : EventLog} (h : Chained log) :
    Python.encodable log.previousHash = true := by
  rw [h.previousHash]
  exact encodable_hashAfter (by decide) _

theorem Chained.record_ok {log log' : EventLog} {o : Observation} (h : Chained log) :
    log.record o = .ok log' ↔ o.Loggable ∧
      log' = ⟨log.observations ++ [o], log.receipts ++ [receiptOf o log.previousHash]⟩ :=
  Iam.record_ok h.encodable

theorem Chained.record_loggable {log : EventLog} {o : Observation} (h : Chained log)
    (ho : o.Loggable) : ∃ log', log.record o = .ok log' :=
  ⟨_, h.record_ok.2 ⟨ho, rfl⟩⟩

/-- Recording keeps the chain and adds one observation. -/
theorem Chained.record {log log' : EventLog} {o : Observation} (h : Chained log)
    (hrec : log.record o = .ok log') : Chained log' ∧ log'.observations = log.observations ++ [o] := by
  obtain ⟨ho, rfl⟩ := h.record_ok.1 hrec
  refine ⟨⟨?_, ?_⟩, rfl⟩
  · rw [receiptsFrom_concat, h.receipts, h.previousHash]
  · intro o' ho'
    rcases List.mem_append.1 ho' with ho' | ho'
    · exact h.loggable o' ho'
    · rw [List.mem_singleton.1 ho']
      exact ho

theorem length_receiptsFrom (previous : Str) (os : List Observation) :
    (receiptsFrom previous os).length = os.length := by
  induction os generalizing previous with
  | nil => rfl
  | cons o os ih => rw [receiptsFrom, List.length_cons, ih, List.length_cons]

theorem verifyFrom_receiptsFrom (previous : Str) (hp : encodable previous = true)
    {os : List Observation} (h : ∀ o ∈ os, o.Loggable) :
    verifyFrom previous (os.zip (receiptsFrom previous os)) = .ok true := by
  induction os generalizing previous with
  | nil => rfl
  | cons o os ih =>
      have hd := (h o List.mem_cons_self).2.2.2
      have hcore : digest (.obj (receiptOf o previous).core) = .ok (receiptOf o previous).receiptHash :=
        digest_of_digestible (digestible_receiptCore hd (sha256_encodable _) hp)
      rw [receiptsFrom, List.zip_cons_cons, verifyFrom, digest_of_digestible hd, hcore]
      have hrest := ih (receiptOf o previous).receiptHash (sha256_encodable _) fun o' ho' => h o' (List.mem_cons_of_mem _ ho')
      simpa [bind, Except.bind, pure, Except.pure, receiptOf] using hrest

theorem verifyChain_of_chained {log : EventLog} (h : Chained log) : log.verifyChain = .ok true := by
  have hfrom := verifyFrom_receiptsFrom genesisHash (by decide) h.loggable
  rw [EventLog.verifyChain, h.receipts, hfrom, length_receiptsFrom]
  simp [bind, Except.bind, pure, Except.pure]

end ResidualHarness.Iam
