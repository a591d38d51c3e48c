import ResidualHarness.Factory.WorkerContract
import ResidualHarness.Python.Loops

/-!
# Worker receipts

`ArtifactBinding` and `WorkerReceipt` of `residual/factory/evidence_receipts.py`: the checks and the
sorting of their constructors, the payload that is signed, and the receipt hash. A value of
`WorkerReceipt` is one that the constructor returned.
-/

set_option autoImplicit false

namespace ResidualHarness.Factory

open Python Core

/-- `EvidenceError`. -/
def evidenceError (msg : String) : PyExn := .userError "EvidenceError" msg

/-- `_require_hash(value, name)`. -/
def requireHash (value : Str) (name : String) : Except PyExn Unit :=
  require (isHash value = true) (evidenceError ("invalid " ++ name))

/-- `if value is not None: _require_hash(value, name)`. -/
def requireHashOpt (value : Option Str) (name : String) : Except PyExn Unit :=
  match value with
  | some h => requireHash h name
  | none => pure ()

/-- The separator of path components. -/
def slash : CodePoint := 0x2F

/-- The components of a path between its slashes. -/
def components (path : Str) : List Str := path.splitOn slash

/-- `ArtifactBinding`. -/
structure ArtifactBinding where
  path : Str
  sha256 : Option Str
  sizeBytes : Int
  deleted : Bool
deriving DecidableEq

/-- `ArtifactBinding.__post_init__`. -/
def ArtifactBinding.postInit (a : ArtifactBinding) : Except PyExn Unit := do
  require (a.path ≠ [] ∧ a.path.head? ≠ some slash ∧ lit ".." ∉ components a.path)
    (evidenceError "invalid artifact path")
  if a.deleted then
    require (a.sha256 = none ∧ a.sizeBytes = 0) (evidenceError "deleted artifact cannot carry bytes")
  else
    match a.sha256 with
    | none => throw (evidenceError "invalid artifact hash")
    | some h => requireHash h "artifact hash"
    require (0 ≤ a.sizeBytes) (evidenceError "invalid artifact size")

/-- `RECEIPT_SCHEMA`. -/
def receiptSchema : Str := lit "factory-worker-receipt-v1"

/-- The fields of `WorkerReceipt`. -/
structure ReceiptData where
  receiptId : Str
  executionPlanHash : Str
  taskId : Str
  workerId : Str
  swarmId : Str
  attemptId : Str
  engineName : Str
  engineVersion : Str
  inputCommit : Str
  outputCommit : Str
  contractHash : Str
  artifacts : List ArtifactBinding
  requirementsMet : List (Str × Bool)
  verificationResults : List (Str × Str)
  overallVerdict : Str
  verifierIdentity : Str
  verifierRevision : Str
  parentReceipts : List Str
  supersedes : Option Str
  issuedAtNs : Int
  stationKeyId : Str
  stationSignature : Str
  schemaVersion : Str
deriving DecidableEq

/-- `sorted(self.artifacts, key=lambda x: x.path)`. -/
def sortArtifacts (arts : List ArtifactBinding) : List ArtifactBinding :=
  arts.insertionSort fun a b => a.path ≤ b.path

/-- `sorted` of pairs, by the first and then by the second component. -/
def sortPairs {β : Type} (le : β → β → Bool) (xs : List (Str × β)) : List (Str × β) :=
  xs.insertionSort fun a b => a.1 < b.1 ∨ a.1 = b.1 ∧ le a.2 b.2 = true

/-- `WorkerReceipt.__post_init__`: the receipt with its sequences sorted. -/
def ReceiptData.postInit (r : ReceiptData) : Except PyExn ReceiptData := do
  require (r.schemaVersion = receiptSchema) (evidenceError "unsupported receipt schema")
  requireHash r.executionPlanHash "execution_plan_hash"
  requireHash r.contractHash "contract_hash"
  requireHash r.verifierRevision "verifier_revision"
  requireHashOpt r.supersedes "supersedes"
  require (∀ p ∈ r.parentReceipts, isHash p = true) (evidenceError "invalid parent receipt")
  require r.parentReceipts.Nodup (evidenceError "duplicate parent receipt")
  require (r.overallVerdict = lit "pass")
    (evidenceError "only passing decisions can issue WorkerReceipt")
  require (0 < r.issuedAtNs) (evidenceError "receipt issued_at_ns required")
  require (∀ v ∈ [r.receiptId, r.taskId, r.workerId, r.swarmId, r.attemptId, r.engineName,
      r.engineVersion, r.inputCommit, r.outputCommit, r.verifierIdentity, r.stationKeyId,
      r.stationSignature], v ≠ []) (evidenceError "receipt identity fields required")
  require (r.artifacts.map ArtifactBinding.path).Nodup
    (evidenceError "duplicate receipt artifact path")
  return { r with
    artifacts := sortArtifacts r.artifacts
    parentReceipts := r.parentReceipts.insertionSort (· ≤ ·)
    requirementsMet := sortPairs (fun a b => !a || b) r.requirementsMet
    verificationResults := sortPairs (fun a b => decide (a ≤ b)) r.verificationResults }

/-- A receipt that its constructor returned. -/
structure WorkerReceipt extends ReceiptData where
  made : ∃ raw : ReceiptData, (∀ a ∈ raw.artifacts, a.postInit = .ok ()) ∧
    raw.postInit = .ok toReceiptData

instance : DecidableEq WorkerReceipt := fun r s =>
  decidable_of_iff (r.toReceiptData = s.toReceiptData) (by
    cases r
    cases s
    simp)

theorem postInit_eq_ok {raw r : ReceiptData} (h : raw.postInit = .ok r) :
    raw.parentReceipts.Nodup ∧ (raw.artifacts.map ArtifactBinding.path).Nodup ∧
      r.artifacts = sortArtifacts raw.artifacts ∧
      r.parentReceipts = raw.parentReceipts.insertionSort (· ≤ ·) := by
  simp only [ReceiptData.postInit, bind_eq_ok, require_eq_ok] at h
  obtain ⟨-, -, -, -, -, -, -, -, -, -, -, -, -, hpar, -, -, -, -, -, -, -, hart, hr⟩ := h
  cases hr
  exact ⟨hpar, hart, rfl, rfl⟩

theorem WorkerReceipt.artifacts_nodup (r : WorkerReceipt) :
    (r.artifacts.map ArtifactBinding.path).Nodup := by
  obtain ⟨raw, -, h⟩ := r.made
  obtain ⟨-, hnd, hart, -⟩ := postInit_eq_ok h
  rw [hart, sortArtifacts]
  exact ((List.perm_insertionSort _ raw.artifacts).map _).nodup_iff.2 hnd

theorem WorkerReceipt.parents_nodup (r : WorkerReceipt) : r.parentReceipts.Nodup := by
  obtain ⟨raw, -, h⟩ := r.made
  obtain ⟨hnd, -, -, hpar⟩ := postInit_eq_ok h
  rw [hpar]
  exact (List.perm_insertionSort _ raw.parentReceipts).nodup_iff.2 hnd

variable [FloatModel]

/-- `ArtifactBinding.to_dict()`. -/
def ArtifactBinding.toDict (a : ArtifactBinding) : Json :=
  .obj [(lit "path", .str a.path), (lit "sha256", optionalString a.sha256),
    (lit "size_bytes", .int a.sizeBytes), (lit "deleted", .bool a.deleted)]

/-- `WorkerReceipt.unsigned_payload()`. -/
def ReceiptData.unsignedPayload (r : ReceiptData) : Fields :=
  [(lit "schema_version", .str r.schemaVersion), (lit "receipt_id", .str r.receiptId),
    (lit "execution_plan_hash", .str r.executionPlanHash), (lit "task_id", .str r.taskId),
    (lit "worker_id", .str r.workerId), (lit "swarm_id", .str r.swarmId),
    (lit "attempt_id", .str r.attemptId), (lit "engine_name", .str r.engineName),
    (lit "engine_version", .str r.engineVersion), (lit "input_commit", .str r.inputCommit),
    (lit "output_commit", .str r.outputCommit), (lit "contract_hash", .str r.contractHash),
    (lit "artifacts", .arr (r.artifacts.map ArtifactBinding.toDict)),
    (lit "requirements_met", .arr (r.requirementsMet.map fun x => .arr [.str x.1, .bool x.2])),
    (lit "verification_results", .arr (r.verificationResults.map fun x => strings [x.1, x.2])),
    (lit "overall_verdict", .str r.overallVerdict),
    (lit "verifier_identity", .str r.verifierIdentity),
    (lit "verifier_revision", .str r.verifierRevision),
    (lit "parent_receipts", strings r.parentReceipts),
    (lit "supersedes", optionalString r.supersedes), (lit "issued_at_ns", .int r.issuedAtNs),
    (lit "station_key_id", .str r.stationKeyId)]

/-- `WorkerReceipt.receipt_hash`. -/
def WorkerReceipt.receiptHash (r : WorkerReceipt) : Except PyExn Str :=
  digest (.obj r.unsignedPayload)

/-- The hash of a receipt that has one. -/
def WorkerReceipt.hash (r : WorkerReceipt) : Str := digestText (.obj r.unsignedPayload)

theorem WorkerReceipt.hash_of_receiptHash {r : WorkerReceipt} {h : Str}
    (hr : r.receiptHash = .ok h) : h = r.hash :=
  (digest_eq_ok_iff.1 hr).2

end ResidualHarness.Factory
