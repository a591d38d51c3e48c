import ResidualHarness.Factory.EvidenceInvariant

/-!
# Station issuance

`FactoryStationIssuer` of `residual/factory/station_issuer.py`, with `VerificationDecision` of
`residual/factory/evidence_receipts.py`. The workspace is a function that tells what stands at a
path. The payload that is signed is assembled by hand next to the constructor of the receipt.
`issue_verifies` collects what holds of an issued receipt.
-/

set_option autoImplicit false

namespace ResidualHarness.Factory

open Python Core

/-! ## Decisions -/

/-- The fields of `VerificationDecision`. -/
structure DecisionData where
  requirementsMet : List (Str × Bool)
  results : List (Str × Str)
  verdict : Str
  verifierIdentity : Str
  verifierRevision : Str

/-- `VerificationDecision.__post_init__`. -/
def DecisionData.postInit (d : DecisionData) : Except PyExn DecisionData := do
  require (d.verdict ∈ [lit "pass", lit "fail", lit "unknown"])
    (evidenceError "invalid verification verdict")
  require (isBlank d.verifierIdentity = false) (evidenceError "verifier identity required")
  requireHash d.verifierRevision "verifier revision"
  require ((d.requirementsMet.map Prod.fst).Nodup ∧ (d.results.map Prod.fst).Nodup)
    (evidenceError "duplicate verification keys")
  require (∀ x ∈ d.results, x.2 ∈ [lit "pass", lit "fail", lit "unknown", lit "skipped"])
    (evidenceError "invalid check result")
  return { d with
    requirementsMet := sortPairs (fun a b => !a || b) d.requirementsMet
    results := sortPairs (fun a b => decide (a ≤ b)) d.results }

/-- A decision that its constructor returned. -/
structure VerificationDecision extends DecisionData where
  made : ∃ raw : DecisionData, raw.postInit = .ok toDecisionData

/-! ## Candidates -/

/-- The fields of `CandidateTree` that the issuer reads. -/
structure CandidateTree where
  inputCommit : Str
  outputCommit : Str
  artifacts : List (Str × Option Str)

/-- The fields of `RuntimeResult` that the issuer reads. -/
structure CandidateResult where
  attemptId : Str
  status : Str
  contractHash : Str
  executionPlanHash : Str
  candidate : Option CandidateTree
  engineName : Str
  engineVersion : Str

/-- What stands at a path of the workspace. -/
inductive WorkspaceEntry where
  | absent
  | danglingLink
  | file (data : Bytes)
  | unreadable
  | other

/-- The workspace: whether a path stays below the root, and what stands there. -/
structure Workspace where
  inside : Str → Bool
  entry : Str → WorkspaceEntry

/-- An artifact that its constructor accepted. -/
abbrev CheckedArtifact := { a : ArtifactBinding // a.postInit = .ok () }

/-- `ArtifactBinding(path, sha256, size_bytes, deleted)`. -/
def bindArtifact (a : ArtifactBinding) : Except PyExn CheckedArtifact :=
  match h : a.postInit with
  | .ok () => .ok ⟨a, h⟩
  | .error e => .error e

/-- The binding of one artifact of the candidate, and its bytes. -/
def candidateArtifact (ws : Workspace) (item : Str × Option Str) :
    Except PyExn (CheckedArtifact × Option Bytes) := do
  require (ws.inside item.1 = true) (evidenceError "candidate artifact escapes workspace")
  match item.2, ws.entry item.1 with
  | none, .absent => return (← bindArtifact ⟨item.1, none, 0, true⟩, none)
  | none, .danglingLink => return (← bindArtifact ⟨item.1, none, 0, true⟩, none)
  | none, _ => throw (evidenceError "candidate deletion does not match workspace")
  | some expected, .file data => do
      require (sha256 data = expected)
        (evidenceError "candidate artifact hash changed before Station verification")
      return (← bindArtifact ⟨item.1, some (sha256 data), data.length, false⟩, some data)
  | some _, .unreadable => throw (.runtimeError "OSError" "")
  | some _, _ => throw (evidenceError "candidate artifact is not a regular file")

/-- `_candidate_bytes(result, workspace_root)`: the candidate with its bindings and their bytes. -/
def candidateBytes (result : CandidateResult) (ws : Workspace) :
    Except PyExn (CandidateTree × List CheckedArtifact × Dict Str Bytes) := do
  match result.candidate with
  | none => throw (evidenceError "only quarantined candidates can be verified")
  | some candidate => do
      require (result.status = lit "CANDIDATE")
        (evidenceError "only quarantined candidates can be verified")
      let items ← mapE (candidateArtifact ws) candidate.artifacts
      return (candidate, items.map Prod.fst, Dict.ofPairs (items.filterMap fun x =>
        x.2.map fun data => (x.1.val.path, data)))

/-! ## Issuance -/

variable [FloatModel]

/-- The arguments of `issue`, with the identifier and the time that it draws. -/
structure IssueRequest where
  contract : WorkerContract
  result : CandidateResult
  workspace : Workspace
  decision : VerificationDecision
  parentReceipts : List Str
  supersedes : Option Str
  receiptId : Str
  issuedAtNs : Int

namespace IssueRequest

/-- The checks of `_issue` before it reads the candidate. -/
def checks (q : IssueRequest) : Except PyExn Unit := do
  let contractHash ← q.contract.contractHash
  require (q.result.contractHash = contractHash ∧
      q.result.executionPlanHash = q.contract.executionPlanHash)
    (evidenceError "runtime candidate does not match WorkerContract")
  require (q.result.attemptId = q.contract.attemptId)
    (evidenceError "runtime candidate attempt mismatch")
  require (q.decision.verdict = lit "pass" ∧ ∀ x ∈ q.decision.requirementsMet, x.2 = true)
    (evidenceError "Station verification did not pass")
  require (∀ name ∈ q.contract.acceptance, (name, lit "pass") ∈ q.decision.results)
    (evidenceError "Station decision does not satisfy WorkerContract acceptance criteria")
  require (∀ name ∈ q.contract.requirements, (name, true) ∈ q.decision.requirementsMet)
    (evidenceError "Station decision does not satisfy WorkerContract requirements")

/-- `WorkerReceipt(**fields, station_signature=signature)` before its constructor. -/
def fields (q : IssueRequest) (contractHash : Str) (candidate : CandidateTree)
    (artifacts : List ArtifactBinding) (keyId signature : Str) : ReceiptData where
  receiptId := q.receiptId
  executionPlanHash := q.contract.executionPlanHash
  taskId := q.contract.taskId
  workerId := q.contract.workerId
  swarmId := q.contract.swarmId
  attemptId := q.contract.attemptId
  engineName := q.result.engineName
  engineVersion := q.result.engineVersion
  inputCommit := candidate.inputCommit
  outputCommit := candidate.outputCommit
  contractHash := contractHash
  artifacts := artifacts
  requirementsMet := q.decision.requirementsMet
  verificationResults := q.decision.results
  overallVerdict := lit "pass"
  verifierIdentity := q.decision.verifierIdentity
  verifierRevision := q.decision.verifierRevision
  parentReceipts := q.parentReceipts
  supersedes := q.supersedes
  issuedAtNs := q.issuedAtNs
  stationKeyId := keyId
  stationSignature := signature
  schemaVersion := receiptSchema

/-- The payload that `_issue` assembles and signs. -/
def unsigned (q : IssueRequest) (contractHash : Str) (candidate : CandidateTree)
    (artifacts : List ArtifactBinding) (keyId : Str) : Fields :=
  [(lit "schema_version", .str receiptSchema), (lit "receipt_id", .str q.receiptId),
    (lit "execution_plan_hash", .str q.contract.executionPlanHash),
    (lit "task_id", .str q.contract.taskId), (lit "worker_id", .str q.contract.workerId),
    (lit "swarm_id", .str q.contract.swarmId), (lit "attempt_id", .str q.contract.attemptId),
    (lit "engine_name", .str q.result.engineName), (lit "engine_version", .str q.result.engineVersion),
    (lit "input_commit", .str candidate.inputCommit),
    (lit "output_commit", .str candidate.outputCommit), (lit "contract_hash", .str contractHash),
    (lit "artifacts", .arr ((sortArtifacts artifacts).map ArtifactBinding.toDict)),
    (lit "requirements_met", .arr ((sortPairs (fun a b => !a || b) q.decision.requirementsMet).map
      fun x => .arr [.str x.1, .bool x.2])),
    (lit "verification_results", .arr ((sortPairs (fun a b => decide (a ≤ b)) q.decision.results).map
      fun x => strings [x.1, x.2])),
    (lit "overall_verdict", .str (lit "pass")),
    (lit "verifier_identity", .str q.decision.verifierIdentity),
    (lit "verifier_revision", .str q.decision.verifierRevision),
    (lit "parent_receipts", strings (q.parentReceipts.insertionSort (· ≤ ·))),
    (lit "supersedes", optionalString q.supersedes), (lit "issued_at_ns", .int q.issuedAtNs),
    (lit "station_key_id", .str keyId)]

end IssueRequest

omit [FloatModel] in
/-- `WorkerReceipt(...)`. -/
def makeReceipt (raw : ReceiptData) (hart : ∀ a ∈ raw.artifacts, a.postInit = .ok ()) :
    Except PyExn WorkerReceipt :=
  match h : raw.postInit with
  | .ok r => .ok ⟨r, raw, hart, h⟩
  | .error e => .error e

/-- The receipt of a request and the bytes of its artifacts, before they enter the bus. -/
def signedReceipt (ed : Ed25519) (key : ed.PrivateKey) (q : IssueRequest) :
    Except PyExn (WorkerReceipt × Dict Str Bytes) := do
  q.checks
  let contractHash ← q.contract.contractHash
  let (candidate, artifacts, content) ← candidateBytes q.result q.workspace
  let payload := q.unsigned contractHash candidate (artifacts.map Subtype.val) (StationIdentity.keyId ed key)
  let signature ← StationIdentity.sign ed key (← digest (.obj payload))
  let receipt ← makeReceipt
    (q.fields contractHash candidate (artifacts.map Subtype.val) (StationIdentity.keyId ed key) signature)
    (by
      intro a ha
      obtain ⟨c, -, rfl⟩ := List.mem_map.1 ha
      exact c.property)
  return (receipt, content)

/-- `issue(...)` on a bus: the receipt, and the tables afterwards. A rejected candidate is reported in
`evidence_events`, which is not modelled. -/
def issue (ed : Ed25519) (key : ed.PrivateKey) (bus : EvidenceBus) (q : IssueRequest) :
    Except PyExn WorkerReceipt × EvidenceBus :=
  match signedReceipt ed key q with
  | .error e => (.error e, bus)
  | .ok (receipt, content) =>
      match bus.append receipt content with
      | (.error e, bus) => (.error e, bus)
      | (.ok (), bus) => (.ok receipt, bus)

/-! ## What issuance has checked -/

/-- The candidate belongs to the contract and its plan, and the decision passes what they require. -/
structure IssueRequest.Passed (q : IssueRequest) : Prop where
  contract : q.contract.contractHash = .ok q.result.contractHash
  plan : q.result.executionPlanHash = q.contract.executionPlanHash
  attempt : q.result.attemptId = q.contract.attemptId
  verdict : q.decision.verdict = lit "pass"
  listed : ∀ x ∈ q.decision.requirementsMet, x.2 = true
  acceptance : ∀ name ∈ q.contract.acceptance, (name, lit "pass") ∈ q.decision.results
  requirements : ∀ name ∈ q.contract.requirements, (name, true) ∈ q.decision.requirementsMet

theorem checks_spec {q : IssueRequest} (h : q.checks = .ok ()) : q.Passed := by
  simp only [IssueRequest.checks, bind_eq_ok, require_eq_ok] at h
  obtain ⟨hash, hhash, -, ⟨hcontract, hplan⟩, -, hattempt, -, ⟨hverdict, hlisted⟩, -, hacc, hreq⟩ := h
  rw [← hcontract] at hhash
  exact ⟨hhash, hplan, hattempt, hverdict, hlisted, hacc, hreq⟩

omit [FloatModel] in
theorem makeReceipt_spec {raw : ReceiptData} {hart : ∀ a ∈ raw.artifacts, a.postInit = .ok ()}
    {r : WorkerReceipt} (h : makeReceipt raw hart = .ok r) : raw.postInit = .ok r.toReceiptData := by
  rw [makeReceipt] at h
  split at h
  · rename_i x hx
    cases h
    exact hx
  · cases h

/-- The payload that is assembled by hand is that of the receipt. -/
theorem unsigned_eq {q : IssueRequest} {contractHash keyId signature : Str} {candidate : CandidateTree}
    {artifacts : List ArtifactBinding} {r : ReceiptData}
    (h : (q.fields contractHash candidate artifacts keyId signature).postInit = .ok r) :
    q.unsigned contractHash candidate artifacts keyId = r.unsignedPayload := by
  obtain ⟨-, rfl⟩ := postInit_checks h
  rfl

/-- What was signed, and by whom. -/
structure SignedBy (ed : Ed25519) (key : ed.PrivateKey) (q : IssueRequest) (r : WorkerReceipt) : Prop where
  payload : ∃ contractHash candidate artifacts content, q.contract.contractHash = .ok contractHash ∧
    candidateBytes q.result q.workspace = .ok (candidate, artifacts, content) ∧
    q.unsigned contractHash candidate (artifacts.map Subtype.val) (StationIdentity.keyId ed key) =
      r.unsignedPayload
  digestible : Digestible (.obj r.unsignedPayload)
  keyId : r.stationKeyId = StationIdentity.keyId ed key
  signature : r.stationSignature = toHex (ed.sign key (signedMessage r.hash))

theorem signedReceipt_spec {ed : Ed25519} {key : ed.PrivateKey} {q : IssueRequest} {r : WorkerReceipt}
    {content : Dict Str Bytes} (h : signedReceipt ed key q = .ok (r, content)) :
    q.Passed ∧ SignedBy ed key q r := by
  rw [signedReceipt] at h
  obtain ⟨u, hchecks, h⟩ := bind_eq_ok.1 h
  obtain ⟨contractHash, hcontract, h⟩ := bind_eq_ok.1 h
  obtain ⟨⟨candidate, artifacts, content'⟩, hcandidate, h⟩ := bind_eq_ok.1 h
  obtain ⟨hash, hhash, h⟩ := bind_eq_ok.1 h
  obtain ⟨signature, hsign, h⟩ := bind_eq_ok.1 h
  obtain ⟨receipt, hmake, h⟩ := bind_eq_ok.1 h
  cases h
  have hpost := makeReceipt_spec hmake
  have hpayload := unsigned_eq hpost
  have hdigest : digest (.obj r.unsignedPayload) = .ok hash := by
    rw [← hpayload]
    exact hhash
  have hrhash : hash = r.hash := WorkerReceipt.hash_of_receiptHash hdigest
  obtain ⟨-, -, hsig⟩ := bind_eq_ok.1 hsign
  obtain ⟨-, hr⟩ := postInit_checks hpost
  refine ⟨checks_spec hchecks, ⟨contractHash, candidate, artifacts, content, hcontract, hcandidate,
    hpayload⟩, (digest_eq_ok_iff.1 hdigest).1, by rw [hr]; rfl, ?_⟩
  have hfield : r.stationSignature = signature := by rw [hr]; rfl
  rw [hfield, ← hrhash]
  exact (Except.ok.inj hsig).symm

theorem issue_spec {ed : Ed25519} {key : ed.PrivateKey} {bus bus' : EvidenceBus} {q : IssueRequest}
    {r : WorkerReceipt} (h : issue ed key bus q = (.ok r, bus')) :
    q.Passed ∧ SignedBy ed key q r ∧ EvidenceBus.Accepts bus r bus' := by
  rw [issue] at h
  split at h
  · cases h
  · rename_i receipt content hsigned
    obtain ⟨hpassed, hby⟩ := signedReceipt_spec hsigned
    rcases EvidenceBus.append_cases bus receipt content with ⟨e, he⟩ | ⟨bus₁, hok, hacc⟩
    · rw [he] at h
      cases h
    · rw [hok] at h
      cases h
      exact ⟨hpassed, hby, hacc⟩

omit [FloatModel] in
theorem row?_concat {bus bus' : EvidenceBus} {row : ReceiptRow}
    (h : bus'.receipts = bus.receipts ++ [row])
    (hfresh : ∀ old ∈ bus.receipts, old.receiptHash ≠ row.receiptHash) :
    bus'.row? row.receiptHash = some row := by
  have hnone : bus.receipts.find? (fun old => old.receiptHash == row.receiptHash) = none := by
    rw [List.find?_eq_none]
    intro old hold
    simpa using hfresh old hold
  rw [EvidenceBus.row?, h, List.find?_append, hnone]
  simp

theorem get_of_row {bus : EvidenceBus} {hash : Str} {row : ReceiptRow} {v : ReceiptValue}
    (hhash : isHash hash = true) (hrow : bus.row? hash = some row) (hload : EvidenceBus.load row = .ok v) :
    bus.get hash = .ok v := by
  rw [EvidenceBus.get, requireHash, require_of hhash, hrow]
  exact hload

/-- The receipt that was appended last is the one that `get` returns. -/
theorem get_accepted {bus bus' : EvidenceBus} {r : WorkerReceipt} (h : EvidenceBus.Accepts bus r bus') :
    bus'.get r.hash = .ok r.toValue := by
  have hrow : bus'.row? r.hash = some (EvidenceBus.rowOf bus.nextSequence bus.queueTail r) :=
    row?_concat h.receipts h.fresh
  exact get_of_row (sha256_isHash _) hrow (EvidenceBus.load_rowOf h.digestible _ _)

/-! ## Changed envelopes -/

/-- The bytes that are hashed for a receipt. -/
def payloadBytes (v : ReceiptValue) : Bytes := (Json.obj v.unsignedPayload).render.flatMap utf8Char

/-- A receipt with the hash of an issued one has its fields, unless SHA-256 collides on the payloads. -/
theorem eq_of_hash_eq {v : ReceiptValue} {r : WorkerReceipt} (hv : v.Wf)
    (hdv : Digestible (.obj v.unsignedPayload)) (hdr : Digestible (.obj r.unsignedPayload))
    (hsha : Set.InjOn sha256 {payloadBytes v, payloadBytes r.toValue}) (hsig : v.stationSignature = r.stationSignature)
    (h : v.hash = r.hash) : v = r.toValue := by
  have hbytes : payloadBytes v = payloadBytes r.toValue := by
    refine hsha (Set.mem_insert _ _) (Set.mem_insert_of_mem _ rfl) ?_
    rw [← WorkerReceipt.toValue_hash] at h
    exact h
  have hrender : (Json.obj v.unsignedPayload).render = (Json.obj r.unsignedPayload).render := by
    rw [← toValue_payload]
    exact utf8Text_injective hbytes
  have heq := eq_of_render_eq_payload hv hdv.1 hdr.1 hrender
  rw [← heq, ← hsig]

theorem SignedBy.verify {ed : Ed25519} (hed : ed.Correct) {key : ed.PrivateKey} {q : IssueRequest}
    {r : WorkerReceipt} (h : SignedBy ed key q r) :
    StationIdentity.verify ed r.toValue (ed.publicBytes key) = true := by
  have hdig : Digestible (.obj r.toValue.unsignedPayload) := by
    rw [toValue_payload]
    exact h.digestible
  rw [StationIdentity.verify_signed hed key _ h.signature hdig, WorkerReceipt.toValue_hash]
  exact ⟨h.keyId, hed.verifies_sign key _⟩

/-- An issued receipt: what was signed is its payload, so its signature is valid, its envelope gives it
back and so does the bus; and the request has passed the checks. An envelope with the same signature
that reads as another receipt has another hash and does not verify, as long as SHA-256 does not
collide on the two payloads and the signature of the one message is not valid for the other. -/
theorem issue_verifies {ed : Ed25519} (hed : ed.Correct) (key : ed.PrivateKey) (bus bus' : EvidenceBus)
    (q : IssueRequest) (r : WorkerReceipt) (h : issue ed key bus q = (.ok r, bus')) :
    SignedBy ed key q r ∧ StationIdentity.verify ed r.toValue (ed.publicBytes key) = true ∧
      fromDict (.obj r.toValue.toDict) = .ok r.toValue ∧ bus'.get r.hash = .ok r.toValue ∧ q.Passed ∧
      ∀ (e : Json) (v : ReceiptValue), e.wf = true → fromDict e = .ok v →
        v.stationSignature = r.stationSignature → v ≠ r.toValue →
        Set.InjOn sha256 {payloadBytes v, payloadBytes r.toValue} →
        ed.Rejects key (signedMessage r.hash) (signedMessage v.hash) →
        v.hash ≠ r.hash ∧ StationIdentity.verify ed v (ed.publicBytes key) = false := by
  obtain ⟨hpassed, hby, hacc⟩ := issue_spec h
  refine ⟨hby, hby.verify hed, fromDict_toDict hby.digestible, get_accepted hacc, hpassed, ?_⟩
  intro e v he hv hsig hne hsha hrejects
  obtain ⟨hwf, hdv⟩ := fromDict_spec he hv
  have hhash : v.hash ≠ r.hash := fun heq => hne (eq_of_hash_eq hwf hdv hby.digestible hsha hsig heq)
  have hmessage := hrejects fun heq => hhash (signedMessage_injective heq)
  refine ⟨hhash, ?_⟩
  rw [Bool.eq_false_iff, Ne, StationIdentity.verify_signed hed key _ (hsig.trans hby.signature) hdv,
    hmessage]
  exact fun hx => Bool.false_ne_true hx.2

end ResidualHarness.Factory

namespace ResidualHarness.Factory

open Python Core

section Concrete

attribute [local instance] wholeFloats

/-- One key, and as the signature of a message the text of its hash. -/
def sampleKeys : Ed25519 where
  PrivateKey := Unit
  publicBytes := fun _ => List.replicate 32 0x6B
  sign := fun _ m => (sha256 m).map fun c => c.val
  verifies := fun _ signature m => decide (signature = (sha256 m).map fun c => c.val)

theorem sampleKeys_correct : sampleKeys.Correct where
  key_length := fun _ => rfl
  sign_length := fun _ m => (List.length_map _).trans (sha256_length m)
  sign_bytes := by
    intro _ m b hb
    obtain ⟨c, hc, rfl⟩ := List.mem_map.1 hb
    exact lt_trans (isHexDigit_lt (sha256_isHex m c hc)) (by decide)
  verifies_sign := fun _ _ => decide_eq_true rfl

/-- A decision on two requirements. -/
def signedDecision : VerificationDecision where
  requirementsMet := [(lit "q", true), (lit "r", true)]
  results := [(lit "ok", lit "pass")]
  verdict := lit "pass"
  verifierIdentity := lit "v"
  verifierRevision := List.replicate 64 0x30
  made := ⟨⟨[(lit "q", true), (lit "r", true)], [(lit "ok", lit "pass")], lit "pass", lit "v",
    List.replicate 64 0x30⟩, by rfl⟩

/-- A request for a candidate with one file. -/
def sampleRequest : IssueRequest where
  contract := sampleContract
  result := ⟨sampleContract.attemptId, lit "CANDIDATE", digestText (.obj sampleContract.toDict),
    sampleContract.executionPlanHash, some ⟨lit "c", lit "d", [(lit "a", some (sha256 [0x78]))]⟩,
    lit "e", lit "1"⟩
  workspace := ⟨fun _ => true, fun _ => .file [0x78]⟩
  decision := signedDecision
  parentReceipts := []
  supersedes := none
  receiptId := lit "r"
  issuedAtNs := 1

/-- The envelope with another list of requirements. -/
def withRequirements (requirements : List (Str × Bool)) (e : Fields) : Fields :=
  e.map fun kv => if kv.1 = lit "requirements_met" then
    (kv.1, .arr (requirements.map fun x => .arr [.str x.1, .bool x.2])) else kv

/-- A test on the receipt of an outcome. -/
def receiptHolds (p : WorkerReceipt → Bool) (outcome : Except PyExn WorkerReceipt × EvidenceBus) : Bool :=
  match outcome.1 with
  | .ok r => p r
  | .error _ => false

theorem exists_of_receiptHolds {p : WorkerReceipt → Bool}
    {outcome : Except PyExn WorkerReceipt × EvidenceBus} (h : receiptHolds p outcome = true) :
    ∃ r bus', outcome = (.ok r, bus') ∧ p r = true := by
  obtain ⟨result, bus'⟩ := outcome
  cases result with
  | ok r => exact ⟨r, bus', rfl, h⟩
  | error e => cases h

theorem receiptHolds_and {p q : WorkerReceipt → Bool} {outcome : Except PyExn WorkerReceipt × EvidenceBus}
    (h : receiptHolds (fun r => p r && q r) outcome = true) :
    receiptHolds p outcome = true ∧ receiptHolds q outcome = true := by
  obtain ⟨result, bus'⟩ := outcome
  cases result with
  | ok r => exact Bool.and_eq_true_iff.1 h
  | error e => cases h

/-- The receipt of another task with the same signature. -/
def changedTask (r : WorkerReceipt) : ReceiptValue := { r.toValue with taskId := lit "u" }

theorem changed_made (r : WorkerReceipt) : ∃ raw : ReceiptData,
    (∀ a ∈ raw.artifacts, a.postInit = .ok ()) ∧
      raw.postInit = .ok { r.toReceiptData with taskId := lit "u" } := by
  obtain ⟨raw, harts, hmade⟩ := r.made
  obtain ⟨⟨hschema, hplan, hcontract, hrev, hsup, hparents, hnodup, hverdict, hissued, hids, hpaths⟩,
    hr⟩ := postInit_checks hmade
  refine ⟨{ raw with taskId := lit "u" }, harts, ?_⟩
  have hsup' : requireHashOpt raw.supersedes "supersedes" = .ok () := by
    cases hsome : raw.supersedes with
    | none => rfl
    | some h => exact require_of (hsup h hsome)
  have hids' : ∀ v ∈ [raw.receiptId, lit "u", raw.workerId, raw.swarmId, raw.attemptId,
      raw.engineName, raw.engineVersion, raw.inputCommit, raw.outputCommit, raw.verifierIdentity,
      raw.stationKeyId, raw.stationSignature], v ≠ [] := by
    intro v hv
    rcases List.mem_cons.1 hv with rfl | hv
    · exact hids _ List.mem_cons_self
    · rcases List.mem_cons.1 hv with rfl | hv
      · decide
      · exact hids v (List.mem_cons_of_mem _ (List.mem_cons_of_mem _ hv))
  rw [ReceiptData.postInit]
  refine bind_eq_ok.2 ⟨_, require_of hschema, bind_eq_ok.2 ⟨_, require_of hplan,
    bind_eq_ok.2 ⟨_, require_of hcontract, bind_eq_ok.2 ⟨_, require_of hrev,
    bind_eq_ok.2 ⟨_, hsup', bind_eq_ok.2 ⟨_, require_of hparents, bind_eq_ok.2 ⟨_, require_of hnodup,
    bind_eq_ok.2 ⟨_, require_of hverdict, bind_eq_ok.2 ⟨_, require_of hissued,
    bind_eq_ok.2 ⟨_, require_of hids', bind_eq_ok.2 ⟨_, require_of hpaths, ?_⟩⟩⟩⟩⟩⟩⟩⟩⟩⟩⟩
  rw [hr]
  rfl

/-- The changed receipt passes the constructor. -/
def changedReceipt (r : WorkerReceipt) : WorkerReceipt := ⟨_, changed_made r⟩

theorem changedReceipt_toValue (r : WorkerReceipt) : (changedReceipt r).toValue = changedTask r := rfl

theorem changedReceipt_read {r : WorkerReceipt}
    (h : Digestible (.obj (changedReceipt r).unsignedPayload)) :
    fromDict (.obj (changedTask r).toDict) = .ok (changedTask r) := by
  rw [← changedReceipt_toValue]
  exact fromDict_toDict h

/-- The requirements of the sample in the other order. -/
def reordered (r : WorkerReceipt) : Fields :=
  withRequirements [(lit "r", true), (lit "q", true)] r.toValue.toDict

theorem sample_tests :
    receiptHolds (fun r => decide (Digestible (.obj (changedReceipt r).unsignedPayload) ∧
        (changedTask r).hash ≠ r.toValue.hash ∧
        sha256 (signedMessage r.toValue.hash) ≠ sha256 (signedMessage (changedTask r).hash)))
      (issue sampleKeys () EvidenceBus.empty sampleRequest) = true ∧
    receiptHolds (fun r => decide (fromDict (.obj (reordered r)) = .ok r.toValue ∧
        (Json.obj (reordered r)).wf = true ∧
        (reordered r).get? (lit "requirements_met") ≠
          Fields.get? r.toValue.toDict (lit "requirements_met") ∧
        (reordered r).get? (lit "station_signature") =
          Fields.get? r.toValue.toDict (lit "station_signature")))
      (issue sampleKeys () EvidenceBus.empty sampleRequest) = true :=
  receiptHolds_and (by decide +kernel)

/-- A receipt is issued and verifies; with another task in the envelope it does not. -/
theorem sample_issue_verifies :
    ∃ r bus', issue sampleKeys () EvidenceBus.empty sampleRequest = (.ok r, bus') ∧
      StationIdentity.verify sampleKeys r.toValue (sampleKeys.publicBytes ()) = true ∧
      (changedTask r).hash ≠ r.hash ∧
      StationIdentity.verify sampleKeys (changedTask r) (sampleKeys.publicBytes ()) = false := by
  obtain ⟨r, bus', hissue, htest⟩ := exists_of_receiptHolds sample_tests.1
  obtain ⟨hdigestible, hhash, hmessage⟩ := of_decide_eq_true htest
  have hread := changedReceipt_read hdigestible
  obtain ⟨-, hverify, -, -, -, hchanged⟩ := issue_verifies sampleKeys_correct () EvidenceBus.empty bus'
    sampleRequest r hissue
  have hwf : (changedTask r).Wf := ⟨r.toValue_wf.artifacts, r.toValue_wf.requirements, r.toValue_wf.results⟩
  have hne : changedTask r ≠ r.toValue := fun heq => hhash (by rw [heq])
  have hsha : Set.InjOn sha256 {payloadBytes (changedTask r), payloadBytes r.toValue} :=
    Set.injOn_pair.2 fun heq => absurd heq hhash
  rw [WorkerReceipt.toValue_hash] at hmessage
  have hrejects : sampleKeys.Rejects () (signedMessage r.hash) (signedMessage (changedTask r).hash) := by
    refine fun _ => decide_eq_false fun heq => hmessage ?_
    exact List.map_injective_iff.2 (fun _ _ => Fin.ext) heq
  exact ⟨r, bus', hissue, hverify, hchanged (.obj (changedTask r).toDict) (changedTask r)
    (ReceiptValue.toDict_wf hwf) hread rfl hne hsha hrejects⟩

/-- Not every change that `from_dict` accepts breaks the signature: the constructor sorts the
requirements, so their order in the envelope does not matter. -/
theorem reordered_envelope_verifies :
    ∃ r bus', issue sampleKeys () EvidenceBus.empty sampleRequest = (.ok r, bus') ∧
      ¬ ∀ (d : Fields) (v : ReceiptValue), (Json.obj d).wf = true →
        (∃ key, key ≠ lit "station_signature" ∧ d.get? key ≠ Fields.get? r.toValue.toDict key) →
        d.get? (lit "station_signature") = Fields.get? r.toValue.toDict (lit "station_signature") →
        fromDict (.obj d) = .ok v →
        v.hash ≠ r.hash ∧ StationIdentity.verify sampleKeys v (sampleKeys.publicBytes ()) = false := by
  obtain ⟨r, bus', hissue, htest⟩ := exists_of_receiptHolds sample_tests.2
  obtain ⟨hread, hwf, hchanged, hsig⟩ := of_decide_eq_true htest
  refine ⟨r, bus', hissue, fun hall => ?_⟩
  obtain ⟨hhash, -⟩ := hall _ _ hwf ⟨lit "requirements_met", by decide, hchanged⟩ hsig hread
  exact hhash r.toValue_hash

end Concrete

end ResidualHarness.Factory
