import ResidualHarness.Core.Task

/-!
# Station receipts

`residual/receipts.py`: references to prerequisite receipts, station receipts with the checks of
their constructors, their wire form, and the cache key of an obligation. A receipt never grants
acceptance; the harness runs the host verifier on every value.
-/

set_option autoImplicit false

namespace ResidualHarness.Engine

open Python Core

/-- `hash_id(value)`. -/
def hashId (value : Str) : Except PyExn Unit :=
  require (isHash value = true) (contractError "expected a lowercase SHA-256 digest")

/-- `verifier_id(value)`. -/
def verifierId (value : Str) : Except PyExn Unit := do
  require (value.count colon = 1) (contractError "verifier name must be domain:evaluator")
  require (∀ part ∈ value.splitOn colon, isIdentifier part = true)
    (contractError "invalid identifier")

/-- `ReceiptReference`. -/
structure ReceiptReference where
  taskId : Str
  receiptHash : Str
deriving DecidableEq

/-- `ReceiptReference(task_id, receipt_hash)`. -/
def receiptReference (taskId receiptHash : Str) : Except PyExn ReceiptReference := do
  identifier taskId
  hashId receiptHash
  return ⟨taskId, receiptHash⟩

/-- `sorted(references)`. -/
def sortReferences (refs : List ReceiptReference) : List ReceiptReference :=
  refs.insertionSort fun a b =>
    a.taskId < b.taskId ∨ a.taskId = b.taskId ∧ a.receiptHash ≤ b.receiptHash

/-- `CheckResult`. -/
inductive CheckResult where
  | pass
  | fail
  | unknown
  | skipped
deriving DecidableEq, Repr

/-- The value of a check result. -/
def CheckResult.text : CheckResult → Str
  | .pass => lit "pass"
  | .fail => lit "fail"
  | .unknown => lit "unknown"
  | .skipped => lit "skipped"

/-- `CheckResult(value)`. -/
def CheckResult.ofText (value : Str) : Option CheckResult :=
  [CheckResult.pass, .fail, .unknown, .skipped].find? fun r => r.text = value

/-- The schemas of a receipt. -/
inductive ReceiptSchema where
  | v1
  | v2
deriving DecidableEq, Repr

/-- The text of a schema. -/
def ReceiptSchema.text : ReceiptSchema → Str
  | .v1 => lit "residual.station.receipt.v1"
  | .v2 => lit "residual.station.receipt.v2"

/-- `StationReceipt`. -/
structure StationReceipt where
  taskId : Str
  cacheKey : Str
  valueHash : Str
  verifierName : Str
  verifierRevision : Str
  verdict : CheckResult
  parentReceipts : List ReceiptReference
  engineName : Str
  engineVersion : Str
  schema : ReceiptSchema
deriving DecidableEq

/-- `StationReceipt.__post_init__`: the receipt with its parents sorted. -/
def StationReceipt.postInit (r : StationReceipt) : Except PyExn StationReceipt := do
  identifier r.taskId
  hashId r.cacheKey
  hashId r.valueHash
  hashId r.verifierRevision
  verifierId r.verifierName
  require (isBlank r.engineName = false) (contractError "receipt engine_name is required")
  require (isBlank r.engineVersion = false) (contractError "receipt engine_version is required")
  require (r.verdict ≠ .skipped) (contractError "skipped checks cannot issue receipts")
  let refs := sortReferences r.parentReceipts
  require ((refs.map ReceiptReference.taskId).Nodup ∧
      ∀ ref ∈ refs, ref.taskId ≠ r.taskId) (contractError "duplicate or self-dependent receipt")
  return { r with parentReceipts := refs }

section Json

variable [FloatModel]

/-- `_domain_hash(schema, payload)`. -/
def domainHash (schema : Str) (payload : Json) : Except PyExn Str := do
  let text ← canonical payload
  let data ← utf8 (schema ++ lf :: text)
  return sha256 data

/-- `asdict(reference)`. -/
def ReceiptReference.asDict (r : ReceiptReference) : Json :=
  .obj [(lit "task_id", .str r.taskId), (lit "receipt_hash", .str r.receiptHash)]

/-- `StationReceipt.payload()`. -/
def StationReceipt.payload (r : StationReceipt) : Json :=
  .obj ([(lit "task_id", Json.str r.taskId), (lit "cache_key", .str r.cacheKey),
    (lit "value_hash", .str r.valueHash), (lit "verifier_name", .str r.verifierName),
    (lit "verifier_revision", .str r.verifierRevision), (lit "verdict", .str r.verdict.text),
    (lit "parent_receipts", .arr (r.parentReceipts.map ReceiptReference.asDict))] ++
    (if r.schema = .v2 then
      [(lit "engine_name", Json.str r.engineName), (lit "engine_version", .str r.engineVersion)]
    else []))

/-- `StationReceipt.receipt_hash`. -/
def StationReceipt.receiptHash (r : StationReceipt) : Except PyExn Str :=
  domainHash r.schema.text r.payload

/-- `StationReceipt.to_dict()`. -/
def StationReceipt.toDict (r : StationReceipt) : Except PyExn Json := do
  return .obj [(lit "schema_version", .str r.schema.text),
    (lit "hash_algorithm", .str (lit "sha256")), (lit "receipt_hash", .str (← r.receiptHash)),
    (lit "payload", r.payload)]

/-- `set(d) == set(keys)`. -/
def keysAre (d : Fields) (keys : List Str) : Bool :=
  decide ((∀ kv ∈ d, kv.1 ∈ keys) ∧ ∀ k ∈ keys, k ∈ d.map Prod.fst)

/-- A field that is a string. -/
def strField (d : Fields) (key : Str) : Option Str :=
  match d.get? key with
  | some (.str s) => some s
  | _ => none

/-- `ReceiptReference(**p)`. -/
def referenceOfDict (p : Json) : Option ReceiptReference :=
  match p with
  | .obj d => do
      guard (keysAre d [lit "task_id", lit "receipt_hash"])
      let taskId ← strField d (lit "task_id")
      let receiptHash ← strField d (lit "receipt_hash")
      (receiptReference taskId receiptHash).toOption
  | _ => none

/-- The keys of a payload. -/
def payloadKeys (schema : ReceiptSchema) : List Str :=
  [lit "task_id", lit "cache_key", lit "value_hash", lit "verifier_name",
    lit "verifier_revision", lit "verdict", lit "parent_receipts"] ++
  (if schema = .v2 then [lit "engine_name", lit "engine_version"] else [])

/-- The receipt of a payload that its constructor returns. -/
def receiptOfPayload (schema : ReceiptSchema) (payload : Fields) : Option StationReceipt := do
  guard (keysAre payload (payloadKeys schema))
  let parents ← match payload.get? (lit "parent_receipts") with
    | some (.arr ps) => ps.mapM referenceOfDict
    | _ => none
  let engineName ← if schema = .v2 then strField payload (lit "engine_name")
    else some (lit "unknown")
  let engineVersion ← if schema = .v2 then strField payload (lit "engine_version")
    else some (lit "unknown")
  let verdict ← CheckResult.ofText (← strField payload (lit "verdict"))
  (StationReceipt.postInit {
    taskId := ← strField payload (lit "task_id")
    cacheKey := ← strField payload (lit "cache_key")
    valueHash := ← strField payload (lit "value_hash")
    verifierName := ← strField payload (lit "verifier_name")
    verifierRevision := ← strField payload (lit "verifier_revision")
    verdict := verdict
    parentReceipts := parents
    engineName := engineName
    engineVersion := engineVersion
    schema := schema }).toOption

/-- `StationReceipt.from_dict(envelope)`; every failure is the same `ContractError`. -/
def StationReceipt.fromDict (envelope : Json) : Option StationReceipt :=
  match envelope with
  | .obj env => do
      guard (keysAre env
        [lit "schema_version", lit "hash_algorithm", lit "receipt_hash", lit "payload"])
      let version ← strField env (lit "schema_version")
      let schema ← [ReceiptSchema.v2, .v1].find? fun s => s.text = version
      guard (strField env (lit "hash_algorithm") = some (lit "sha256"))
      let receiptHash ← strField env (lit "receipt_hash")
      match Fields.get? env (lit "payload") with
      | some (.obj payload) =>
          guard ((domainHash version (.obj payload)).toOption = some receiptHash)
          let receipt ← receiptOfPayload schema payload
          guard (receipt.payload.Same (.obj payload))
          guard (receipt.receiptHash.toOption = some receiptHash)
          return receipt
      | _ => none
  | _ => none

/-- `receipt.matches(value=..., ...)` without engine constraints. -/
def StationReceipt.matches (r : StationReceipt) (value : Json) (cacheKey verifierName
    verifierRevision : Str) (parents : List ReceiptReference) : Except PyExn Bool := do
  if r.verdict ≠ .pass then return false
  let valueHash ← digest value
  return decide (r.valueHash = valueHash ∧ r.cacheKey = cacheKey ∧
    r.verifierName = verifierName ∧ r.verifierRevision = verifierRevision ∧
    r.parentReceipts = sortReferences parents)

/-- `CACHE_SCHEMA`. -/
def cacheSchema : Str := lit "residual.station.cache.v1"

/-- `cache_key(...)`. -/
def cacheKey (projectId taskId goalHash contractHash verifierName verifierRevision : Str)
    (checkType : CheckType) (artifacts : List (Str × Str)) (parents : List ReceiptReference) :
    Except PyExn Str := do
  identifier projectId
  identifier taskId
  verifierId verifierName
  hashId goalHash
  hashId contractHash
  hashId verifierRevision
  require (∀ a ∈ artifacts, isHash a.2 = true)
    (contractError "expected a lowercase SHA-256 digest")
  require (∀ a ∈ artifacts, isIdentifier a.1 = true) (contractError "invalid identifier")
  let refs := sortReferences parents
  require ((refs.map ReceiptReference.taskId).Nodup ∧ ∀ ref ∈ refs, ref.taskId ≠ taskId)
    (contractError "invalid prerequisite references")
  domainHash cacheSchema (.obj [(lit "schema_version", .str cacheSchema),
    (lit "hash_algorithm", .str (lit "sha256")), (lit "project_id", .str projectId),
    (lit "task_id", .str taskId), (lit "goal_hash", .str goalHash),
    (lit "contract_hash", .str contractHash), (lit "verifier_name", .str verifierName),
    (lit "verifier_revision", .str verifierRevision), (lit "check_type", .str checkType.text),
    (lit "artifacts", .obj (artifacts.map fun a => (a.1, .str a.2))),
    (lit "parent_receipts", .arr (refs.map ReceiptReference.asDict))])

end Json

end ResidualHarness.Engine
