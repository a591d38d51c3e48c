import ResidualHarness.Factory.StationIdentity
import ResidualHarness.Factory.RuntimeJournal
import ResidualHarness.Graph.Search
import ResidualHarness.Core.HashChain

/-!
# The Evidence Bus

`EvidenceBus` of `residual/factory/evidence_bus.py`: the tables of its database as lists of rows,
and its operations as functions on them. A transaction that raises leaves the tables as they were.
`append` runs its checks in the order of the source, and what the database refuses (a repeated key,
a string that cannot be encoded, an integer of more than 64 bits) is an exception, too. The rows of
`evidence_events` and the observers are not modelled: no operation reads them.

After any operations the rows are those of the receipts that were accepted (`run_stored`).
-/

set_option autoImplicit false

namespace ResidualHarness.Factory

open Python Core Graph

/-! ## The tables -/

/-- A row of `receipts`. -/
structure ReceiptRow where
  sequence : Nat
  receiptHash : Str
  receiptJson : Str
  taskId : Str
  swarmId : Str
  engineName : Str
  verdict : Str
  issuedAtNs : Int
  supersedes : Option Str
  queuePrevious : Str
  queueHash : Str
deriving DecidableEq

/-- A row of `receipt_artifacts`. -/
structure ArtifactRow where
  receiptHash : Str
  path : Str
  sha256 : Option Str
  deleted : Bool
deriving DecidableEq

/-- A row of `stale_approvals`. -/
structure StaleApproval where
  receiptHash : Str
  approvedBy : Str
  reason : Str
  approvedAtNs : Int
deriving DecidableEq

/-- The tables of the bus. A row of `artifacts` is the bytes and their size under their hash. -/
structure EvidenceBus where
  receipts : List ReceiptRow
  requirements : List (Str × Str)
  receiptArtifacts : List ArtifactRow
  artifacts : Dict Str (Bytes × Nat)
  staleApprovals : List StaleApproval
deriving DecidableEq

/-- `sqlite3.IntegrityError`. -/
def integrityError (msg : String) : PyExn := .runtimeError "IntegrityError" msg

/-- `s.strip()`. -/
def strip (s : Str) : Str := ((s.dropWhile isSpace).reverse.dropWhile isSpace).reverse

namespace EvidenceBus

/-- The tables of a new bus. -/
def empty : EvidenceBus := ⟨[], [], [], [], []⟩

/-- `_tx`: the changes are committed, or rolled back when the body raises. -/
def tx (bus : EvidenceBus) (body : EvidenceBus → Except PyExn EvidenceBus) :
    Except PyExn Unit × EvidenceBus :=
  match body bus with
  | .ok bus' => (.ok (), bus')
  | .error e => (.error e, bus)

/-- `SELECT ... FROM receipts WHERE receipt_hash=?`. -/
def row? (bus : EvidenceBus) (hash : Str) : Option ReceiptRow :=
  bus.receipts.find? fun row => row.receiptHash == hash

/-- `... FROM receipts ORDER BY sequence`. -/
def ordered (bus : EvidenceBus) : List ReceiptRow :=
  bus.receipts.insertionSort fun a b => a.sequence ≤ b.sequence

/-- The next value of the `AUTOINCREMENT` column. -/
def nextSequence (bus : EvidenceBus) : Nat := (bus.receipts.map ReceiptRow.sequence).foldl max 0 + 1

variable [FloatModel]

/-! ## `append` -/

/-- `{a.path: a for a in receipt.artifacts if not a.deleted}`. -/
def expected (receipt : WorkerReceipt) : Dict Str ArtifactBinding :=
  Dict.ofPairs ((receipt.artifacts.filter fun a => !a.deleted).map fun a => (a.path, a))

/-- The bytes have the hash and the size of the artifact at their path. -/
def bytesMatch (expected : Dict Str ArtifactBinding) (item : Str × Bytes) : Bool :=
  (expected.get? item.1).any fun a =>
    decide (a.sha256 = some (sha256 item.2) ∧ a.sizeBytes = (item.2.length : Int))

/-- The checks of `append` before its transaction. -/
def checkReceipt (receipt : WorkerReceipt) (artifactBytes : Dict Str Bytes) : Except PyExn Unit := do
  require (receipt.overallVerdict = lit "pass")
    (evidenceError "non-passing receipt cannot enter Evidence Bus")
  require (artifactBytes.keys ⊆ (expected receipt).keys ∧ (expected receipt).keys ⊆ artifactBytes.keys)
    (evidenceError "artifact byte set differs from receipt")
  require (∀ item ∈ artifactBytes, bytesMatch (expected receipt) item = true)
    (evidenceError "artifact bytes do not match receipt")

/-- The superseded receipt is there and belongs to the same task. -/
def checkSupersedes (bus : EvidenceBus) (receipt : WorkerReceipt) : Except PyExn Unit :=
  match receipt.supersedes with
  | none => pure ()
  | some old =>
      require ((bus.row? old).map ReceiptRow.taskId = some receipt.taskId)
        (evidenceError "superseded receipt missing or belongs to another task")

/-- One round of the loop that stores the artifacts. -/
def storeArtifact (receipt : WorkerReceipt) (table : Dict Str (Bytes × Nat)) (item : Str × Bytes) :
    Except PyExn (Dict Str (Bytes × Nat)) :=
  match (expected receipt).get? item.1 with
  | none => .error .keyError
  | some a =>
      let sha := a.sha256.getD []
      match table.get? sha with
      | none => .ok (table.set sha (item.2, item.2.length))
      | some row =>
          if row.1 = item.2 ∧ row.2 = item.2.length then .ok table
          else .error (evidenceError "content-address collision or corrupt artifact store")

/-- The queue hash of a receipt after the previous queue hash. -/
def queueBody (previous receiptHash : Str) : Json :=
  .obj [(lit "schema", .str (lit "factory-evidence-queue-v1")), (lit "previous", .str previous),
    (lit "receipt_hash", .str receiptHash)]

/-- The queue hash before the next receipt. -/
def queueTail (bus : EvidenceBus) : Str := (bus.ordered.getLast?.map ReceiptRow.queueHash).getD genesis

/-- `INSERT INTO receipts`. The strings other than the text were encoded for the hash, and the
superseded receipt was looked up before. -/
def insertReceipt (bus : EvidenceBus) (row : ReceiptRow) : Except PyExn EvidenceBus := do
  require (encodable row.receiptJson = true) .unicodeEncodeError
  sqliteInteger row.issuedAtNs
  require (∀ old ∈ bus.receipts, old.receiptHash ≠ row.receiptHash)
    (integrityError "UNIQUE constraint failed: receipts.receipt_hash")
  require (∀ old ∈ bus.receipts, old.receiptJson ≠ row.receiptJson)
    (integrityError "UNIQUE constraint failed: receipts.receipt_json")
  require (∀ old ∈ bus.receipts, old.queueHash ≠ row.queueHash)
    (integrityError "UNIQUE constraint failed: receipts.queue_hash")
  return { bus with receipts := bus.receipts ++ [row] }

/-- `INSERT INTO receipt_requirements` for a requirement that is met. -/
def insertRequirement (hash : Str) (bus : EvidenceBus) (item : Str × Bool) :
    Except PyExn EvidenceBus :=
  if item.2 then do
    require ((hash, item.1) ∉ bus.requirements)
      (integrityError "UNIQUE constraint failed: receipt_requirements.receipt_hash, receipt_requirements.requirement_id")
    return { bus with requirements := bus.requirements ++ [(hash, item.1)] }
  else .ok bus

/-- `INSERT INTO receipt_artifacts`. -/
def insertArtifact (hash : Str) (bus : EvidenceBus) (a : ArtifactBinding) : Except PyExn EvidenceBus := do
  require (∀ old ∈ bus.receiptArtifacts, ¬(old.receiptHash = hash ∧ old.path = a.path))
    (integrityError "UNIQUE constraint failed: receipt_artifacts.receipt_hash, receipt_artifacts.path")
  return { bus with receiptArtifacts := bus.receiptArtifacts ++ [⟨hash, a.path, a.sha256, a.deleted⟩] }

/-- The row of a receipt with its text and its place in the queue. -/
def receiptRow (receipt : WorkerReceipt) (sequence : Nat) (hash text previous queueHash : Str) :
    ReceiptRow :=
  ⟨sequence, hash, text, receipt.taskId, receipt.swarmId, receipt.engineName, receipt.overallVerdict,
    receipt.issuedAtNs, receipt.supersedes, previous, queueHash⟩

/-- The transaction of `append`. -/
def appendBody (receipt : WorkerReceipt) (artifactBytes : Dict Str Bytes) (bus : EvidenceBus) :
    Except PyExn EvidenceBus := do
  checkSupersedes bus receipt
  require (∀ parent ∈ receipt.parentReceipts, (bus.row? parent).isSome = true)
    (evidenceError "parent receipt missing")
  let table ← artifactBytes.foldlM (storeArtifact receipt) bus.artifacts
  let hash ← receipt.receiptHash
  let text ← canonical (.obj receipt.toValue.toDict)
  let queueHash ← digest (queueBody bus.queueTail hash)
  let bus ← insertReceipt { bus with artifacts := table }
    (receiptRow receipt bus.nextSequence hash text bus.queueTail queueHash)
  let bus ← receipt.requirementsMet.foldlM (insertRequirement hash) bus
  receipt.artifacts.foldlM (insertArtifact hash) bus

/-- `append(receipt, artifact_bytes)`. -/
def append (bus : EvidenceBus) (receipt : WorkerReceipt) (artifactBytes : Dict Str Bytes) :
    Except PyExn Unit × EvidenceBus :=
  match checkReceipt receipt artifactBytes with
  | .error e => (.error e, bus)
  | .ok () => bus.tx (appendBody receipt artifactBytes)

/-! ## Reading -/

/-- One round of the loop of `verify_queue`, on the previous queue hash and the count. -/
def verifyRow (state : Str × Nat) (row : ReceiptRow) : Except PyExn (Str × Nat) := do
  let expected ← digest (queueBody state.1 row.receiptHash)
  require (row.queuePrevious = state.1 ∧ row.queueHash = expected)
    (evidenceError "Evidence Bus receipt queue integrity failure")
  return (row.queueHash, state.2 + 1)

/-- `verify_queue()`: the queue root and the number of receipts. -/
def verifyQueue (bus : EvidenceBus) : Except PyExn (Str × Nat) := bus.ordered.foldlM verifyRow (genesis, 0)

/-- `WorkerReceipt.from_dict(strict_json(row[0]))`. -/
def load (row : ReceiptRow) : Except PyExn ReceiptValue := (strictJson row.receiptJson).bind fromDict

/-- `get(receipt_hash)`. -/
def get (bus : EvidenceBus) (hash : Str) : Except PyExn ReceiptValue := do
  requireHash hash "receipt hash"
  match bus.row? hash with
  | none => throw (evidenceError "receipt not found")
  | some row => load row

/-- `{r.supersedes for r in receipts if r.supersedes}`. -/
def superseded (receipts : List ReceiptValue) : List Str :=
  (receipts.filterMap ReceiptValue.supersedes).filter fun s => s ≠ []

/-- `{r.receipt_hash: r for r in receipts}`. -/
def byHash (receipts : List ReceiptValue) : Except PyExn (Dict Str ReceiptValue) := do
  let pairs ← mapE (fun r => do return (← r.receiptHash, r)) receipts
  return Dict.ofPairs pairs

/-- The parents of a receipt that is stored. -/
def parents (table : Dict Str ReceiptValue) (hash : Str) : Option (List Str) :=
  (table.get? hash).map ReceiptValue.parentReceipts

/-- The walk of `is_stale` through the parents. The last error is no exception of the source: the walk
has ended before. -/
def staleFrom (superseded : List Str) (table : Dict Str ReceiptValue) (hash : Str) :
    Except PyExn Bool :=
  match search (fun h => decide (h ∈ superseded)) (parents table)
      (searchFuel (parents table) table.keys) [hash] [] with
  | some .found => .ok true
  | some .exhausted => .ok false
  | some .missing => .error (evidenceError "receipt graph references missing receipt")
  | none => .error (.runtimeError "NonTermination" "the walk does not end")

/-- `is_stale(receipt_hash)`. -/
def isStale (bus : EvidenceBus) (hash : Str) : Except PyExn Bool := do
  requireHash hash "receipt hash"
  let receipts ← mapE load bus.receipts
  let table ← byHash receipts
  staleFrom (superseded receipts) table hash

/-! ## Approval and consumption -/

/-- `INSERT INTO stale_approvals`; an `IntegrityError` is reported as an approval that exists. -/
def insertApproval (approval : StaleApproval) (bus : EvidenceBus) : Except PyExn EvidenceBus := do
  require (encodable approval.approvedBy = true ∧ encodable approval.reason = true) .unicodeEncodeError
  sqliteInteger approval.approvedAtNs
  require ((∀ old ∈ bus.staleApprovals, old.receiptHash ≠ approval.receiptHash) ∧
      (bus.row? approval.receiptHash).isSome = true)
    (evidenceError "stale receipt approval already exists")
  return { bus with staleApprovals := bus.staleApprovals ++ [approval] }

/-- `approve_stale(receipt_hash, approved_by=..., reason=...)` at a time. -/
def approveStale (bus : EvidenceBus) (hash approvedBy reason : Str) (timeNs : Int) :
    Except PyExn Unit × EvidenceBus :=
  if isBlank approvedBy || isBlank reason then
    (.error (evidenceError "stale approval identity and reason required"), bus)
  else
    match bus.isStale hash with
    | .error e => (.error e, bus)
    | .ok false => (.error (evidenceError "receipt is not stale"), bus)
    | .ok true => bus.tx (insertApproval ⟨hash, strip approvedBy, strip reason, timeNs⟩)

/-- The stored bytes of an artifact have its hash and its size. -/
def artifactStored (bus : EvidenceBus) (a : ArtifactValue) : Bool :=
  (bus.artifacts.get? (a.sha256.getD [])).any fun row =>
    decide (a.sizeBytes = .int row.1.length ∧ a.sha256 = some (sha256 row.1))

/-- `consumable(receipt_hash, station_public_key=...)`. -/
def consumable (ed : Ed25519) (bus : EvidenceBus) (hash : Str) (publicKey : Bytes) :
    Except PyExn ReceiptValue := do
  let receipt ← bus.get hash
  require (StationIdentity.verify ed receipt publicKey = true) (evidenceError "Station signature invalid")
  require (∀ a ∈ receipt.artifacts, a.deleted.truthy = true ∨ bus.artifactStored a = true)
    (evidenceError "artifact store integrity failure")
  let stale ← bus.isStale hash
  require (stale = false ∨ ∃ a ∈ bus.staleApprovals, a.receiptHash = hash)
    (evidenceError "stale receipt requires explicit human approval")
  return receipt

/-- The arguments of `query`. -/
structure Query where
  taskId : Option Str
  requirementId : Option Str
  artifactHash : Option Str
  engineName : Option Str
  verificationStatus : Option Str
  swarmId : Option Str
  startNs : Option Int
  endNs : Option Int

omit [FloatModel] in
/-- The clauses of a query for a row and its joined rows. -/
def Query.holds (q : Query) (bus : EvidenceBus) (row : ReceiptRow) : Bool :=
  (q.taskId.all fun s => row.taskId == s) && (q.engineName.all fun s => row.engineName == s) &&
    (q.verificationStatus.all fun s => row.verdict == s) && (q.swarmId.all fun s => row.swarmId == s) &&
    (q.startNs.all fun i => decide (i ≤ row.issuedAtNs)) &&
    (q.endNs.all fun i => decide (row.issuedAtNs ≤ i)) &&
    (q.requirementId.all fun s => bus.requirements.any fun x => x == (row.receiptHash, s)) &&
    (q.artifactHash.all fun s =>
      bus.receiptArtifacts.any fun a => a.receiptHash == row.receiptHash && a.sha256 == some s)

/-- `query(...)`. The text of a receipt is unique, so `DISTINCT` only drops the repetitions of a
join. -/
def query (bus : EvidenceBus) (q : Query) : Except PyExn (List ReceiptValue) := do
  requireHashOpt q.artifactHash "artifact hash"
  require (∀ s ∈ [q.taskId, q.engineName, q.verificationStatus, q.swarmId, q.requirementId],
    s.all encodable = true) .unicodeEncodeError
  require (∀ i ∈ [q.startNs, q.endNs], ∀ n ∈ i, -2 ^ 63 ≤ n ∧ n < 2 ^ 63) .overflowError
  mapE load (bus.ordered.filter (q.holds bus))

/-! ## Runs -/

/-- An operation on the bus. -/
inductive Operation where
  | append (receipt : WorkerReceipt) (artifactBytes : Dict Str Bytes)
  | approveStale (hash approvedBy reason : Str) (timeNs : Int)
  | query (q : Query)

/-- The tables after an operation. -/
def step (bus : EvidenceBus) : Operation → EvidenceBus
  | .append receipt artifactBytes => (bus.append receipt artifactBytes).2
  | .approveStale hash approvedBy reason timeNs => (bus.approveStale hash approvedBy reason timeNs).2
  | .query _ => bus

/-- The tables after a sequence of operations on a new bus. -/
def run (ops : List Operation) : EvidenceBus := ops.foldl step empty

/-- The receipt that an operation adds. -/
def acceptedBy (bus : EvidenceBus) : Operation → List WorkerReceipt
  | .append receipt artifactBytes =>
      match (bus.append receipt artifactBytes).1 with
      | .ok () => [receipt]
      | .error _ => []
  | .approveStale _ _ _ _ => []
  | .query _ => []

/-- The receipts that were accepted from a state on. -/
def acceptedFrom : EvidenceBus → List Operation → List WorkerReceipt
  | _, [] => []
  | bus, op :: ops => bus.acceptedBy op ++ acceptedFrom (bus.step op) ops

/-- The receipts that were accepted. -/
def accepted (ops : List Operation) : List WorkerReceipt := acceptedFrom empty ops

end EvidenceBus

end ResidualHarness.Factory
