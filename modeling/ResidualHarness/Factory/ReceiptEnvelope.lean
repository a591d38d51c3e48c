import ResidualHarness.Factory.EvidenceReceipts

/-!
# The envelope of a receipt

`WorkerReceipt.to_dict` and `WorkerReceipt.from_dict`. The dataclasses do not check the types of all
their fields, so `from_dict` can return receipts with tuples of any JSON values: `ReceiptValue` is a
receipt as a Python object, and a typed receipt is one of them (`ReceiptData.toValue`). A receipt is
read back from its envelope (`fromDict_toDict`), and receipts with different fields have different
canonical payloads (`eq_of_render_eq_payload`).
-/

set_option autoImplicit false

namespace ResidualHarness.Factory

open Python Core

variable [FloatModel]

/-! ## Receipts as objects -/

/-- An `ArtifactBinding` as an object. -/
structure ArtifactValue where
  path : Str
  sha256 : Option Str
  sizeBytes : Json
  deleted : Json
deriving DecidableEq

/-- A `WorkerReceipt` as an object. -/
structure ReceiptValue where
  receiptId : Str
  executionPlanHash : Str
  taskId : Str
  workerId : Str
  swarmId : Str
  attemptId : Str
  engineName : Str
  engineVersion : Str
  inputCommit : Str
  outputCommit : Str
  contractHash : Str
  artifacts : List ArtifactValue
  requirementsMet : List (List Json)
  verificationResults : List (List Json)
  overallVerdict : Str
  verifierIdentity : Str
  verifierRevision : Str
  parentReceipts : List Str
  supersedes : Option Str
  issuedAtNs : Int
  stationKeyId : Str
  stationSignature : Str
  schemaVersion : Str
deriving DecidableEq

/-- A typed artifact as an object. -/
def ArtifactBinding.toValue (a : ArtifactBinding) : ArtifactValue :=
  ⟨a.path, a.sha256, .int a.sizeBytes, .bool a.deleted⟩

/-- A requirement as a tuple. -/
def requirementTuple (x : Str × Bool) : List Json := [.str x.1, .bool x.2]

/-- A result as a tuple. -/
def resultTuple (x : Str × Str) : List Json := [.str x.1, .str x.2]

/-- A typed receipt as an object. -/
def ReceiptData.toValue (r : ReceiptData) : ReceiptValue where
  receiptId := r.receiptId
  executionPlanHash := r.executionPlanHash
  taskId := r.taskId
  workerId := r.workerId
  swarmId := r.swarmId
  attemptId := r.attemptId
  engineName := r.engineName
  engineVersion := r.engineVersion
  inputCommit := r.inputCommit
  outputCommit := r.outputCommit
  contractHash := r.contractHash
  artifacts := r.artifacts.map ArtifactBinding.toValue
  requirementsMet := r.requirementsMet.map requirementTuple
  verificationResults := r.verificationResults.map resultTuple
  overallVerdict := r.overallVerdict
  verifierIdentity := r.verifierIdentity
  verifierRevision := r.verifierRevision
  parentReceipts := r.parentReceipts
  supersedes := r.supersedes
  issuedAtNs := r.issuedAtNs
  stationKeyId := r.stationKeyId
  stationSignature := r.stationSignature
  schemaVersion := r.schemaVersion

/-! ## Dictionaries -/

/-- The fields of an artifact. -/
def ArtifactValue.fields (a : ArtifactValue) : Fields :=
  [(lit "path", .str a.path), (lit "sha256", optionalString a.sha256),
    (lit "size_bytes", a.sizeBytes), (lit "deleted", a.deleted)]

/-- `ArtifactBinding.to_dict()`. -/
def ArtifactValue.toDict (a : ArtifactValue) : Json := .obj a.fields

/-- `unsigned_payload()`. -/
def ReceiptValue.unsignedPayload (r : ReceiptValue) : Fields :=
  [(lit "schema_version", .str r.schemaVersion), (lit "receipt_id", .str r.receiptId),
    (lit "execution_plan_hash", .str r.executionPlanHash), (lit "task_id", .str r.taskId),
    (lit "worker_id", .str r.workerId), (lit "swarm_id", .str r.swarmId),
    (lit "attempt_id", .str r.attemptId), (lit "engine_name", .str r.engineName),
    (lit "engine_version", .str r.engineVersion), (lit "input_commit", .str r.inputCommit),
    (lit "output_commit", .str r.outputCommit), (lit "contract_hash", .str r.contractHash),
    (lit "artifacts", .arr (r.artifacts.map ArtifactValue.toDict)),
    (lit "requirements_met", .arr (r.requirementsMet.map Json.arr)),
    (lit "verification_results", .arr (r.verificationResults.map Json.arr)),
    (lit "overall_verdict", .str r.overallVerdict),
    (lit "verifier_identity", .str r.verifierIdentity),
    (lit "verifier_revision", .str r.verifierRevision),
    (lit "parent_receipts", strings r.parentReceipts),
    (lit "supersedes", optionalString r.supersedes), (lit "issued_at_ns", .int r.issuedAtNs),
    (lit "station_key_id", .str r.stationKeyId)]

/-- `receipt_hash`. -/
def ReceiptValue.receiptHash (r : ReceiptValue) : Except PyExn Str := digest (.obj r.unsignedPayload)

/-- The hash of a receipt that has one. -/
def ReceiptValue.hash (r : ReceiptValue) : Str := digestText (.obj r.unsignedPayload)

/-- `to_dict()`, for a receipt that has a hash. -/
def ReceiptValue.toDict (r : ReceiptValue) : Fields :=
  r.unsignedPayload ++
    [(lit "receipt_hash", Json.str r.hash), (lit "station_signature", .str r.stationSignature)]

/-! ## `from_dict` -/

/-- What iterating over an object gives; `none` is a `TypeError`. -/
def iterate : Json → Option (List Json)
  | .arr xs => some xs
  | .str s => some (s.map fun c => .str [c])
  | .obj d => some (d.map fun kv => .str kv.1)
  | _ => none

/-- A string. -/
def asString : Json → Option Str
  | .str s => some s
  | _ => none

/-- A string or `None`. -/
def asOptionalString : Json → Option (Option Str)
  | .null => some none
  | .str s => some (some s)
  | _ => none

/-- An `int`, not a `bool`. -/
def asInt : Json → Option Int
  | .int i => some i
  | _ => none

/-- The path of an artifact is relative and stays inside. -/
def pathAllowed (path : Str) : Bool :=
  decide (path ≠ [] ∧ path.head? ≠ some slash ∧ lit ".." ∉ Factory.components path)

/-- The check of the bytes of an artifact. -/
def bytesAllowed (sha256 : Option Str) (size deleted : Json) : Bool :=
  if deleted.truthy = true then decide (sha256 = none ∧ size.Same (.int 0))
  else sha256.any isHash && (asInt size).any fun i => decide (0 ≤ i)

/-- The artifact of the fields of a dictionary. -/
def artifactFields (d : Fields) : Option ArtifactValue := do
  let path ← (d.get? (lit "path")).bind asString
  let sha256 ← (d.get? (lit "sha256")).bind asOptionalString
  let size ← d.get? (lit "size_bytes")
  let deleted := (d.get? (lit "deleted")).getD (.bool false)
  if (∀ kv ∈ d, kv.1 ∈ [lit "path", lit "sha256", lit "size_bytes", lit "deleted"]) ∧
      pathAllowed path = true ∧ bytesAllowed sha256 size deleted = true then
    some ⟨path, sha256, size, deleted⟩
  else none

/-- `ArtifactBinding(**value)`; `none` is an error. -/
def artifactOf : Json → Option ArtifactValue
  | .obj d => artifactFields d
  | _ => none

/-- `sorted` of tuples: a `TypeError` if two of them cannot be compared. -/
def sortTuples (xs : List (List Json)) : Option (List (List Json)) :=
  if ∀ x ∈ xs, ∀ y ∈ xs, (Json.lessElems x y).isSome = true then
    some (xs.insertionSort fun x y => Json.lessElems y x ≠ some true)
  else none

/-- The checks of `__post_init__`. -/
def ReceiptValue.checked (r : ReceiptValue) : Bool :=
  decide (r.schemaVersion = receiptSchema) && isHash r.executionPlanHash && isHash r.contractHash &&
    isHash r.verifierRevision && (r.supersedes.all fun h => isHash h) && r.parentReceipts.all isHash &&
    decide r.parentReceipts.Nodup && decide (r.overallVerdict = lit "pass") &&
    decide (0 < r.issuedAtNs) &&
    ([r.receiptId, r.taskId, r.workerId, r.swarmId, r.attemptId, r.engineName, r.engineVersion,
      r.inputCommit, r.outputCommit, r.verifierIdentity, r.stationKeyId,
      r.stationSignature].all fun v => decide (v ≠ [])) &&
    decide (r.artifacts.map ArtifactValue.path).Nodup

/-- `__post_init__`. -/
def ReceiptValue.postInit (r : ReceiptValue) : Option ReceiptValue := do
  let requirements ← sortTuples r.requirementsMet
  let results ← sortTuples r.verificationResults
  if r.checked = true then
    some { r with
      artifacts := r.artifacts.insertionSort fun a b => a.path ≤ b.path
      parentReceipts := r.parentReceipts.insertionSort (· ≤ ·)
      requirementsMet := requirements
      verificationResults := results }
  else none

/-- The names of the fields of `WorkerReceipt`. -/
def receiptKeys : List Str :=
  [lit "schema_version", lit "receipt_id", lit "execution_plan_hash", lit "task_id", lit "worker_id",
    lit "swarm_id", lit "attempt_id", lit "engine_name", lit "engine_version", lit "input_commit",
    lit "output_commit", lit "contract_hash", lit "artifacts", lit "requirements_met",
    lit "verification_results", lit "overall_verdict", lit "verifier_identity",
    lit "verifier_revision", lit "parent_receipts", lit "supersedes", lit "issued_at_ns",
    lit "station_key_id", lit "station_signature"]

/-- A field that is a string. -/
def textField (d : Fields) (key : String) : Option Str := (d.get? (lit key)).bind asString

/-- A field that is a sequence of tuples. -/
def tuples (d : Fields) (key : String) : Option (List (List Json)) :=
  ((d.get? (lit key)).bind iterate).bind fun xs => xs.mapM iterate

/-- The receipt of the fields that `from_dict` has read, before `__post_init__`; `none` is an error. -/
def fieldsOf (d : Fields) : Option ReceiptValue := do
  let artifacts ← ((d.get? (lit "artifacts")).bind iterate).bind fun xs => xs.mapM artifactOf
  let requirementsMet ← tuples d "requirements_met"
  let verificationResults ← tuples d "verification_results"
  let parents ← (((d.get? (lit "parent_receipts")).getD (.arr [])) |> iterate).bind fun xs =>
    xs.mapM asString
  let receiptId ← textField d "receipt_id"
  let executionPlanHash ← textField d "execution_plan_hash"
  let taskId ← textField d "task_id"
  let workerId ← textField d "worker_id"
  let swarmId ← textField d "swarm_id"
  let attemptId ← textField d "attempt_id"
  let engineName ← textField d "engine_name"
  let engineVersion ← textField d "engine_version"
  let inputCommit ← textField d "input_commit"
  let outputCommit ← textField d "output_commit"
  let contractHash ← textField d "contract_hash"
  let overallVerdict ← textField d "overall_verdict"
  let verifierIdentity ← textField d "verifier_identity"
  let verifierRevision ← textField d "verifier_revision"
  let supersedes ← ((d.get? (lit "supersedes")).getD .null) |> asOptionalString
  let issuedAtNs ← (d.get? (lit "issued_at_ns")).bind asInt
  let stationKeyId ← textField d "station_key_id"
  let stationSignature ← textField d "station_signature"
  let schemaVersion ← ((d.get? (lit "schema_version")).getD (.str receiptSchema)) |> asString
  if ∀ kv ∈ d, kv.1 ∈ receiptKeys then
    some ⟨receiptId, executionPlanHash, taskId, workerId, swarmId, attemptId, engineName,
      engineVersion, inputCommit, outputCommit, contractHash, artifacts, requirementsMet,
      verificationResults, overallVerdict, verifierIdentity, verifierRevision, parents, supersedes,
      issuedAtNs, stationKeyId, stationSignature, schemaVersion⟩
  else none

/-- The receipt of an envelope that was read back, with its hash compared. -/
def receiptOf (d : Fields) : Except PyExn ReceiptValue :=
  match (fieldsOf (d.filter fun kv => kv.1 ≠ lit "receipt_hash")).bind ReceiptValue.postInit with
  | none => .error (evidenceError "invalid receipt")
  | some receipt => do
      let hash ← receipt.receiptHash
      require (d.get? (lit "receipt_hash") = some (.str hash)) (evidenceError "receipt hash mismatch")
      return receipt

/-- The envelope is an object. -/
def receiptOfObject : Json → Except PyExn ReceiptValue
  | .obj d => receiptOf d
  | _ => .error (evidenceError "receipt must be an object")

/-- `WorkerReceipt.from_dict(value)`. -/
def fromDict : Json → Except PyExn ReceiptValue
  | .obj d => do
      let text ← canonical (.obj d)
      let value ← strictJson text
      receiptOfObject value
  | _ => .error (evidenceError "receipt must be an object")

/-! ## Sorting -/

section Sorting

variable {β : Type} {le : β → β → Bool}

/-- The order of pairs. -/
def pairLe (le : β → β → Bool) (a b : Str × β) : Prop := a.1 < b.1 ∨ a.1 = b.1 ∧ le a.2 b.2 = true

instance : DecidableRel (pairLe le) := fun _ _ => inferInstanceAs (Decidable (_ ∨ _ ∧ _))

omit [FloatModel] in
theorem pairLe_total (htotal : ∀ x y, le x y = true ∨ le y x = true) (a b : Str × β) :
    pairLe le a b ∨ pairLe le b a := by
  rcases lt_trichotomy a.1 b.1 with h | h | h
  · exact .inl (.inl h)
  · rcases htotal a.2 b.2 with h' | h'
    · exact .inl (.inr ⟨h, h'⟩)
    · exact .inr (.inr ⟨h.symm, h'⟩)
  · exact .inr (.inl h)

omit [FloatModel] in
theorem pairLe_trans (htrans : ∀ x y z, le x y = true → le y z = true → le x z = true)
    {a b c : Str × β} (h : pairLe le a b) (h' : pairLe le b c) : pairLe le a c := by
  rcases h with h | ⟨h, hle⟩
  · rcases h' with h' | ⟨h', -⟩
    · exact .inl (h.trans h')
    · exact .inl (h' ▸ h)
  · rcases h' with h' | ⟨h', hle'⟩
    · exact .inl (h ▸ h')
    · exact .inr ⟨h.trans h', htrans _ _ _ hle hle'⟩

omit [FloatModel] in
theorem sortPairs_idem (htotal : ∀ x y, le x y = true ∨ le y x = true)
    (htrans : ∀ x y z, le x y = true → le y z = true → le x z = true) (xs : List (Str × β)) :
    sortPairs le (sortPairs le xs) = sortPairs le xs := by
  have : Std.Total (pairLe le) := ⟨pairLe_total htotal⟩
  have : IsTrans (Str × β) (pairLe le) := ⟨fun _ _ _ h h' => pairLe_trans htrans h h'⟩
  exact (List.pairwise_insertionSort (pairLe le) xs).insertionSort_eq

theorem sortTuples_map {f : Str × β → List Json}
    (hf : ∀ x y, ∃ b, Json.lessElems (f x) (f y) = some b ∧ (b = true ↔ ¬ pairLe le y x))
    (xs : List (Str × β)) : sortTuples (xs.map f) = some ((sortPairs le xs).map f) := by
  have hall : ∀ x ∈ xs.map f, ∀ y ∈ xs.map f, (Json.lessElems x y).isSome = true := by
    intro x hx y hy
    obtain ⟨a, -, rfl⟩ := List.mem_map.1 hx
    obtain ⟨b, -, rfl⟩ := List.mem_map.1 hy
    obtain ⟨v, hv, -⟩ := hf a b
    rw [hv]
    rfl
  rw [sortTuples, if_pos hall, sortPairs]
  refine congrArg some (List.map_insertionSort _ _ f xs ?_).symm
  intro a _ b _
  obtain ⟨v, hv, hiff⟩ := hf b a
  show pairLe le a b ↔ _
  rw [hv, ne_eq, Option.some.injEq, hiff, not_not]

end Sorting

omit [FloatModel] in
theorem boolLe_total (x y : Bool) : (!x || y) = true ∨ (!y || x) = true := by
  cases x <;> cases y <;> decide

omit [FloatModel] in
theorem boolLe_trans (x y z : Bool) (h : (!x || y) = true) (h' : (!y || z) = true) :
    (!x || z) = true := by
  revert h h'
  cases x <;> cases y <;> cases z <;> decide

omit [FloatModel] in
theorem less_of_ne {β : Type} (le : β → β → Bool) {k l : Str} (u v : β) (hkl : k ≠ l) :
    ∃ b, some (decide (k < l)) = some b ∧ (b = true ↔ ¬ pairLe le (l, v) (k, u)) := by
  refine ⟨decide (k < l), rfl, ?_⟩
  rw [decide_eq_true_eq]
  simp only [pairLe, hkl.symm, false_and, or_false, not_lt]
  exact ⟨le_of_lt, fun h => lt_of_le_of_ne h hkl⟩

theorem requirementTuple_less (x y : Str × Bool) :
    ∃ b, Json.lessElems (requirementTuple x) (requirementTuple y) = some b ∧
      (b = true ↔ ¬ pairLe (fun a b => !a || b) y x) := by
  obtain ⟨k, u⟩ := x
  obtain ⟨l, v⟩ := y
  rw [requirementTuple, requirementTuple, Json.lessElems]
  split
  · rename_i hsame
    have hkl : k = l := Json.str.inj (Json.same_str hsame)
    subst hkl
    cases u <;> cases v <;> exact ⟨_, rfl, by simp [pairLe]⟩
  · rename_i hne
    exact less_of_ne _ u v fun h => hne (by rw [h]; rfl)

theorem resultTuple_less (x y : Str × Str) :
    ∃ b, Json.lessElems (resultTuple x) (resultTuple y) = some b ∧
      (b = true ↔ ¬ pairLe (fun a b => decide (a ≤ b)) y x) := by
  obtain ⟨k, u⟩ := x
  obtain ⟨l, v⟩ := y
  rw [resultTuple, resultTuple, Json.lessElems]
  split
  · rename_i hsame
    have hkl : k = l := Json.str.inj (Json.same_str hsame)
    subst hkl
    rw [Json.lessElems]
    split
    · rename_i hsame'
      have huv : u = v := Json.str.inj (Json.same_str hsame')
      subst huv
      exact ⟨false, rfl, by simp [pairLe]⟩
    · rename_i hne
      have huv : u ≠ v := fun h => hne (by rw [h]; rfl)
      refine ⟨decide (u < v), rfl, ?_⟩
      simp [pairLe, lt_iff_le_and_ne, huv]
  · rename_i hne
    exact less_of_ne _ u v fun h => hne (by rw [h]; rfl)

/-! ## The constructor, a second time -/

omit [FloatModel] in
/-- What the constructor has checked and what it returns. -/
theorem postInit_checks {raw r : ReceiptData} (h : raw.postInit = .ok r) :
    (raw.schemaVersion = receiptSchema ∧ isHash raw.executionPlanHash = true ∧
      isHash raw.contractHash = true ∧ isHash raw.verifierRevision = true ∧
      (∀ x ∈ raw.supersedes, isHash x = true) ∧ (∀ p ∈ raw.parentReceipts, isHash p = true) ∧
      raw.parentReceipts.Nodup ∧ raw.overallVerdict = lit "pass" ∧ 0 < raw.issuedAtNs ∧
      (∀ v ∈ [raw.receiptId, raw.taskId, raw.workerId, raw.swarmId, raw.attemptId, raw.engineName,
        raw.engineVersion, raw.inputCommit, raw.outputCommit, raw.verifierIdentity,
        raw.stationKeyId, raw.stationSignature], v ≠ []) ∧
      (raw.artifacts.map ArtifactBinding.path).Nodup) ∧
    r = { raw with
      artifacts := sortArtifacts raw.artifacts
      parentReceipts := raw.parentReceipts.insertionSort (· ≤ ·)
      requirementsMet := sortPairs (fun a b => !a || b) raw.requirementsMet
      verificationResults := sortPairs (fun a b => decide (a ≤ b)) raw.verificationResults } := by
  simp only [ReceiptData.postInit, requireHash, bind_eq_ok, require_eq_ok] at h
  obtain ⟨-, hschema, -, hplan, -, hcontract, -, hrev, u, hsup, -, hparents, -, hnodup, -, hverdict,
    -, hissued, -, hids, -, harts, hr⟩ := h
  have hsup' : ∀ x ∈ raw.supersedes, isHash x = true := by
    intro x hx
    rw [Option.mem_def.1 hx] at hsup
    exact (require_eq_ok.1 hsup)
  cases hr
  exact ⟨⟨hschema, hplan, hcontract, hrev, hsup', hparents, hnodup, hverdict, hissued, hids, harts⟩,
    rfl⟩

omit [FloatModel] in
theorem sortArtifacts_idem (arts : List ArtifactBinding) :
    sortArtifacts (sortArtifacts arts) = sortArtifacts arts := by
  have : Std.Total fun a b : ArtifactBinding => a.path ≤ b.path := ⟨fun a b => le_total a.path b.path⟩
  have : IsTrans ArtifactBinding fun a b => a.path ≤ b.path := ⟨fun _ _ _ h h' => le_trans h h'⟩
  exact (List.pairwise_insertionSort _ arts).insertionSort_eq

theorem sort_toValue (arts : List ArtifactBinding) :
    (arts.map ArtifactBinding.toValue).insertionSort (fun a b => a.path ≤ b.path) =
      (sortArtifacts arts).map ArtifactBinding.toValue :=
  (List.map_insertionSort _ _ ArtifactBinding.toValue arts fun _ _ _ _ => Iff.rfl).symm

theorem toValue_checked (r : WorkerReceipt) : r.toValue.checked = true := by
  obtain ⟨raw, -, h⟩ := r.made
  obtain ⟨⟨h1, h2, h3, h4, h5, h6, h7, h8, h9, h10, h11⟩, hr⟩ := postInit_checks h
  have hpaths : (r.toValue.artifacts.map ArtifactValue.path).Nodup := by
    have hmap : r.toValue.artifacts.map ArtifactValue.path = r.artifacts.map ArtifactBinding.path := by
      rw [ReceiptData.toValue, List.map_map]
      rfl
    rw [hmap]
    exact r.artifacts_nodup
  have hparents : ∀ p ∈ r.parentReceipts, isHash p = true := by
    intro p hp
    rw [hr, List.mem_insertionSort] at hp
    exact h6 p hp
  have hids : ∀ v ∈ [r.receiptId, r.taskId, r.workerId, r.swarmId, r.attemptId, r.engineName,
      r.engineVersion, r.inputCommit, r.outputCommit, r.verifierIdentity, r.stationKeyId,
      r.stationSignature], v ≠ [] := by
    rw [hr]
    exact h10
  have hsup : (r.supersedes.all fun x => isHash x) = true := by
    rw [hr, Option.all_eq_true]
    exact fun x hx => h5 x (Option.mem_def.2 hx)
  have hall : r.toValue.parentReceipts.all isHash = true := List.all_eq_true.2 hparents
  have hidsAll : ([r.receiptId, r.taskId, r.workerId, r.swarmId, r.attemptId, r.engineName,
      r.engineVersion, r.inputCommit, r.outputCommit, r.verifierIdentity, r.stationKeyId,
      r.stationSignature].all fun v => decide (v ≠ [])) = true := by
    rw [List.all_eq_true]
    exact fun v hv => decide_eq_true (hids v hv)
  have hschema : r.schemaVersion = receiptSchema := by rw [hr]; exact h1
  have hplan : isHash r.executionPlanHash = true := by rw [hr]; exact h2
  have hcontract : isHash r.contractHash = true := by rw [hr]; exact h3
  have hrev : isHash r.verifierRevision = true := by rw [hr]; exact h4
  have hverdict : r.overallVerdict = lit "pass" := by rw [hr]; exact h8
  have hissued : 0 < r.issuedAtNs := by rw [hr]; exact h9
  rw [ReceiptValue.checked]
  simp only [Bool.and_eq_true, decide_eq_true_eq]
  exact ⟨⟨⟨⟨⟨⟨⟨⟨⟨⟨hschema, hplan⟩, hcontract⟩, hrev⟩, hsup⟩, hall⟩, r.parents_nodup⟩, hverdict⟩,
    hissued⟩, hidsAll⟩, hpaths⟩

/-- A receipt that was made once is not changed by its constructor. -/
theorem toValue_postInit (r : WorkerReceipt) : r.toValue.postInit = some r.toValue := by
  obtain ⟨raw, -, h⟩ := r.made
  obtain ⟨-, hr⟩ := postInit_checks h
  have hreqs : sortTuples r.toValue.requirementsMet = some r.toValue.requirementsMet := by
    rw [ReceiptData.toValue]
    rw [sortTuples_map requirementTuple_less, hr, sortPairs_idem boolLe_total boolLe_trans]
  have hresults : sortTuples r.toValue.verificationResults = some r.toValue.verificationResults := by
    rw [ReceiptData.toValue]
    rw [sortTuples_map resultTuple_less, hr, sortPairs_idem]
    · intro x y
      simpa using le_total x y
    · intro x y z hxy hyz
      simp only [decide_eq_true_eq] at hxy hyz ⊢
      exact le_trans hxy hyz
  have harts : r.toValue.artifacts.insertionSort (fun a b => a.path ≤ b.path) =
      r.toValue.artifacts := by
    rw [ReceiptData.toValue]
    rw [sort_toValue, hr, sortArtifacts_idem]
  have hparents : r.toValue.parentReceipts.insertionSort (· ≤ ·) = r.toValue.parentReceipts := by
    have hsorted : r.toValue.parentReceipts = raw.parentReceipts.insertionSort (· ≤ ·) := by
      rw [ReceiptData.toValue, hr]
    rw [hsorted]
    exact (List.pairwise_insertionSort _ _).insertionSort_eq
  rw [ReceiptValue.postInit, hreqs, hresults]
  simp only [Option.bind_eq_bind, Option.bind_some, toValue_checked r, if_true, harts, hparents]

/-! ## Reading back -/

omit [FloatModel] in
theorem mapM_map_some {α β γ : Type} {f : β → Option γ} {g : α → β} {h : α → γ} {xs : List α}
    (hf : ∀ x ∈ xs, f (g x) = some (h x)) : (xs.map g).mapM f = some (xs.map h) := by
  induction xs with
  | nil => rfl
  | cons x xs ih =>
      rw [List.map_cons, List.mapM_cons, hf x List.mem_cons_self,
        ih fun y hy => hf y (List.mem_cons_of_mem _ hy)]
      rfl

omit [FloatModel] in
theorem ArtifactBinding.allowed {a : ArtifactBinding} (h : a.postInit = .ok ()) :
    pathAllowed a.path = true ∧
      if a.deleted = true then a.sha256 = none ∧ a.sizeBytes = 0
      else a.sha256.any isHash = true ∧ 0 ≤ a.sizeBytes := by
  rw [ArtifactBinding.postInit] at h
  obtain ⟨u, hpath, h⟩ := bind_eq_ok.1 h
  refine ⟨decide_eq_true (require_eq_ok.1 hpath), ?_⟩
  split
  · rename_i hdel
    rw [if_pos hdel] at h
    exact require_eq_ok.1 h
  · rename_i hdel
    rw [if_neg hdel] at h
    cases hs : a.sha256 with
    | none =>
        rw [hs] at h
        obtain ⟨u, hsha, -⟩ := bind_eq_ok.1 h
        cases hsha
    | some x =>
        rw [hs] at h
        obtain ⟨u, hsha, h⟩ := bind_eq_ok.1 h
        exact ⟨require_eq_ok.1 hsha, require_eq_ok.1 h⟩

theorem bytesAllowed_toValue {a : ArtifactBinding} (h : a.postInit = .ok ()) :
    bytesAllowed a.sha256 (.int a.sizeBytes) (.bool a.deleted) = true := by
  have hb := h |> ArtifactBinding.allowed |>.2
  rw [bytesAllowed]
  cases hd : a.deleted with
  | true =>
      rw [hd, if_pos rfl] at hb
      simp only [Json.truthy, if_true, decide_eq_true_eq, hb.2]
      exact ⟨hb.1, rfl⟩
  | false =>
      rw [hd, if_neg Bool.false_ne_true] at hb
      simp only [Json.truthy, Bool.false_eq_true, if_false, asInt, Option.any_some, Bool.and_eq_true,
        decide_eq_true_eq]
      exact hb

theorem ArtifactValue.fields_nodup (a : ArtifactValue) : (a.fields.map Prod.fst).Nodup := by
  have hkeys : [lit "path", lit "sha256", lit "size_bytes", lit "deleted"].Nodup := by decide
  exact hkeys

theorem optionalString_norm (x : Option Str) : (optionalString x).norm = optionalString x := by
  cases x <;> rfl

theorem asOptionalString_optionalString (x : Option Str) :
    asOptionalString (optionalString x) = some x := by
  cases x <;> rfl

theorem artifactOf_toDict {a : ArtifactBinding} (h : a.postInit = .ok ()) :
    artifactOf (a.toValue.toDict).norm = some a.toValue := by
  have hget : ∀ {k : Str} {v : Json}, (k, v) ∈ a.toValue.fields →
      Fields.get? (Fields.norm a.toValue.fields) k = some v.norm := by
    intro k v hm
    rw [Fields.get?_norm a.toValue.fields_nodup, Fields.get?_of_mem a.toValue.fields_nodup hm]
    rfl
  have hpath := hget (k := lit "path") (v := .str a.path) (by simp [ArtifactValue.fields,
    ArtifactBinding.toValue])
  have hsha := hget (k := lit "sha256") (v := optionalString a.sha256) (by
    simp [ArtifactValue.fields, ArtifactBinding.toValue])
  have hsize := hget (k := lit "size_bytes") (v := .int a.sizeBytes) (by
    simp [ArtifactValue.fields, ArtifactBinding.toValue])
  have hdel := hget (k := lit "deleted") (v := .bool a.deleted) (by
    simp [ArtifactValue.fields, ArtifactBinding.toValue])
  have hkeys : ∀ kv ∈ Fields.norm a.toValue.fields,
      kv.1 ∈ [lit "path", lit "sha256", lit "size_bytes", lit "deleted"] := by
    intro kv hkv
    obtain ⟨kw, hkw, rfl⟩ := List.mem_map.1 hkv
    exact List.mem_map_of_mem (f := Prod.fst) (mem_sortFields.1 hkw)
  have hallowed := h |> ArtifactBinding.allowed |>.1
  rw [ArtifactValue.toDict, Fields.obj_norm, artifactOf, artifactFields, hpath, hsha, hsize, hdel,
    optionalString_norm]
  simp only [Json.norm, Option.bind_some, asString, asOptionalString_optionalString,
    Option.bind_eq_bind, Option.getD_some]
  exact if_pos ⟨hkeys, hallowed, bytesAllowed_toValue h⟩

theorem iterate_strings (xs : List Str) :
    ((iterate (strings xs)).bind fun ys => ys.mapM asString) = some xs := by
  rw [strings, iterate, Option.bind_some]
  exact (mapM_map_some (f := asString) (g := Json.str) (h := id) fun _ _ => rfl).trans
    (congrArg some (List.map_id xs))

theorem textField_eq {d : Fields} {key : String} {s : Str} (h : d.get? (lit key) = some (.str s)) :
    textField d key = some s := by
  rw [textField, h]
  rfl

theorem tuples_eq {d : Fields} {key : String} {ts : List (List Json)}
    (h : d.get? (lit key) = some (.arr (ts.map Json.arr))) : tuples d key = some ts := by
  rw [tuples, h, Option.bind_some, iterate, Option.bind_some]
  exact (mapM_map_some (f := iterate) (g := Json.arr) (h := id) fun _ _ => rfl).trans
    (congrArg some (List.map_id ts))

theorem tuples_norm {α : Type} {f : α → List Json} (hf : ∀ x, (f x).map Json.norm = f x)
    (xs : List α) : (Json.arr ((xs.map f).map Json.arr)).norm = .arr ((xs.map f).map Json.arr) := by
  rw [Json.norm_arr, List.map_map, List.map_map, List.map_map]
  refine congrArg Json.arr (List.map_congr_left ?_)
  intro x _
  simp only [Function.comp, Json.norm_arr, hf]

/-- A dictionary that has the fields of a receipt is read as that receipt. -/
theorem fieldsOf_eq {r : WorkerReceipt} {d : Fields}
    (hget : ∀ k v, (k, v) ∈ r.toValue.unsignedPayload ++
      [(lit "station_signature", Json.str r.stationSignature)] → d.get? k = some v.norm)
    (hkeys : ∀ kv ∈ d, kv.1 ∈ receiptKeys) : fieldsOf d = some r.toValue := by
  have hstr : ∀ (key : String) (s : Str), (lit key, Json.str s) ∈ r.toValue.unsignedPayload ++
      [(lit "station_signature", Json.str r.stationSignature)] → textField d key = some s :=
    fun key s hm => textField_eq (hget _ _ hm)
  have harts : ((d.get? (lit "artifacts")).bind iterate).bind (fun xs => xs.mapM artifactOf) =
      some r.toValue.artifacts := by
    have hvalid : ∀ a ∈ r.artifacts, a.postInit = .ok () := by
      obtain ⟨raw, hraw, h⟩ := r.made
      intro a ha
      rw [(postInit_checks h).2, sortArtifacts, List.mem_insertionSort] at ha
      exact hraw a ha
    rw [hget (lit "artifacts") (.arr (r.toValue.artifacts.map ArtifactValue.toDict))
      (by simp [ReceiptValue.unsignedPayload])]
    simp only [Json.norm_arr, Option.bind_some, iterate, ReceiptData.toValue, List.map_map]
    exact mapM_map_some fun a ha => artifactOf_toDict (hvalid a ha)
  have hreqs : tuples d "requirements_met" = some r.toValue.requirementsMet := by
    refine tuples_eq ?_
    rw [hget (lit "requirements_met") (.arr (r.toValue.requirementsMet.map Json.arr))
      (by simp [ReceiptValue.unsignedPayload])]
    exact congrArg some (tuples_norm (fun _ => rfl) _)
  have hresults : tuples d "verification_results" = some r.toValue.verificationResults := by
    refine tuples_eq ?_
    rw [hget (lit "verification_results") (.arr (r.toValue.verificationResults.map Json.arr))
      (by simp [ReceiptValue.unsignedPayload])]
    exact congrArg some (tuples_norm (fun _ => rfl) _)
  have hparents : ((d.get? (lit "parent_receipts")).getD (.arr []) |> iterate).bind
      (fun xs => xs.mapM asString) = some r.toValue.parentReceipts := by
    rw [hget (lit "parent_receipts") (strings r.toValue.parentReceipts)
      (by simp [ReceiptValue.unsignedPayload]), strings_norm, Option.getD_some]
    exact iterate_strings _
  have hsup : asOptionalString ((d.get? (lit "supersedes")).getD .null) =
      some r.toValue.supersedes := by
    rw [hget (lit "supersedes") (optionalString r.toValue.supersedes)
      (by simp [ReceiptValue.unsignedPayload]), optionalString_norm, Option.getD_some]
    exact asOptionalString_optionalString _
  have hissued : (d.get? (lit "issued_at_ns")).bind asInt = some r.toValue.issuedAtNs := by
    rw [hget (lit "issued_at_ns") (.int r.toValue.issuedAtNs)
      (by simp [ReceiptValue.unsignedPayload])]
    rfl
  have hschema : asString ((d.get? (lit "schema_version")).getD (.str receiptSchema)) =
      some r.toValue.schemaVersion := by
    rw [hget (lit "schema_version") (.str r.toValue.schemaVersion)
      (by simp [ReceiptValue.unsignedPayload])]
    rfl
  rw [fieldsOf, harts, hreqs, hresults, hparents, hsup, hissued, hschema,
    hstr "receipt_id" r.toValue.receiptId (by simp [ReceiptValue.unsignedPayload]),
    hstr "execution_plan_hash" r.toValue.executionPlanHash (by simp [ReceiptValue.unsignedPayload]),
    hstr "task_id" r.toValue.taskId (by simp [ReceiptValue.unsignedPayload]),
    hstr "worker_id" r.toValue.workerId (by simp [ReceiptValue.unsignedPayload]),
    hstr "swarm_id" r.toValue.swarmId (by simp [ReceiptValue.unsignedPayload]),
    hstr "attempt_id" r.toValue.attemptId (by simp [ReceiptValue.unsignedPayload]),
    hstr "engine_name" r.toValue.engineName (by simp [ReceiptValue.unsignedPayload]),
    hstr "engine_version" r.toValue.engineVersion (by simp [ReceiptValue.unsignedPayload]),
    hstr "input_commit" r.toValue.inputCommit (by simp [ReceiptValue.unsignedPayload]),
    hstr "output_commit" r.toValue.outputCommit (by simp [ReceiptValue.unsignedPayload]),
    hstr "contract_hash" r.toValue.contractHash (by simp [ReceiptValue.unsignedPayload]),
    hstr "overall_verdict" r.toValue.overallVerdict (by simp [ReceiptValue.unsignedPayload]),
    hstr "verifier_identity" r.toValue.verifierIdentity (by simp [ReceiptValue.unsignedPayload]),
    hstr "verifier_revision" r.toValue.verifierRevision (by simp [ReceiptValue.unsignedPayload]),
    hstr "station_key_id" r.toValue.stationKeyId (by simp [ReceiptValue.unsignedPayload]),
    hstr "station_signature" r.stationSignature (by simp)]
  exact if_pos hkeys

/-! ## Envelopes -/

theorem toValue_payload (r : ReceiptData) : r.toValue.unsignedPayload = r.unsignedPayload := by
  simp only [ReceiptValue.unsignedPayload, ReceiptData.unsignedPayload, ReceiptData.toValue,
    List.map_map]
  rfl

theorem WorkerReceipt.toValue_hash (r : WorkerReceipt) : r.toValue.hash = r.hash := by
  rw [ReceiptValue.hash, toValue_payload, WorkerReceipt.hash]

/-- The keys of an envelope. -/
def envelopeKeys : List Str :=
  [lit "schema_version", lit "receipt_id", lit "execution_plan_hash", lit "task_id", lit "worker_id",
    lit "swarm_id", lit "attempt_id", lit "engine_name", lit "engine_version", lit "input_commit",
    lit "output_commit", lit "contract_hash", lit "artifacts", lit "requirements_met",
    lit "verification_results", lit "overall_verdict", lit "verifier_identity",
    lit "verifier_revision", lit "parent_receipts", lit "supersedes", lit "issued_at_ns",
    lit "station_key_id", lit "receipt_hash", lit "station_signature"]

omit [FloatModel] in
theorem envelopeKeys_nodup : envelopeKeys.Nodup := by decide

omit [FloatModel] in
theorem receiptKeys_of_envelopeKeys :
    ∀ k ∈ envelopeKeys, k ≠ lit "receipt_hash" → k ∈ receiptKeys := by decide

theorem ReceiptValue.toDict_nodup (r : ReceiptValue) : (r.toDict.map Prod.fst).Nodup :=
  envelopeKeys_nodup

/-- The parts of a receipt that can be any JSON value have distinct keys in their dictionaries. -/
structure ReceiptValue.Wf (r : ReceiptValue) : Prop where
  artifacts : ∀ a ∈ r.artifacts, a.sizeBytes.wf = true ∧ a.deleted.wf = true
  requirements : ∀ t ∈ r.requirementsMet, ∀ v ∈ t, v.wf = true
  results : ∀ t ∈ r.verificationResults, ∀ v ∈ t, v.wf = true

theorem ReceiptData.toValue_wf (r : ReceiptData) : r.toValue.Wf where
  artifacts a ha := by
    obtain ⟨b, -, rfl⟩ := List.mem_map.1 ha
    exact ⟨rfl, rfl⟩
  requirements t ht v hv := by
    obtain ⟨x, -, rfl⟩ := List.mem_map.1 ht
    simp only [requirementTuple, List.mem_cons, List.not_mem_nil, or_false] at hv
    rcases hv with rfl | rfl <;> rfl
  results t ht v hv := by
    obtain ⟨x, -, rfl⟩ := List.mem_map.1 ht
    simp only [resultTuple, List.mem_cons, List.not_mem_nil, or_false] at hv
    rcases hv with rfl | rfl <;> rfl

theorem ArtifactValue.toDict_wf {a : ArtifactValue} (h : a.sizeBytes.wf = true ∧ a.deleted.wf = true) :
    a.toDict.wf = true := by
  rw [ArtifactValue.toDict, Json.wf, Bool.and_eq_true, decide_eq_true_eq]
  refine ⟨a.fields_nodup, ?_⟩
  simp only [ArtifactValue.fields, Json.wfFields, Json.wf, optionalString_wf, h, Bool.and_self]

theorem tuples_wf {ts : List (List Json)} (h : ∀ t ∈ ts, ∀ v ∈ t, v.wf = true) :
    (Json.arr (ts.map Json.arr)).wf = true := by
  rw [Json.wf, Json.wfElems_iff]
  intro x hx
  obtain ⟨t, ht, rfl⟩ := List.mem_map.1 hx
  rw [Json.wf, Json.wfElems_iff]
  exact h t ht

theorem ReceiptValue.payload_wf {r : ReceiptValue} (h : r.Wf) :
    (Json.obj r.unsignedPayload).wf = true := by
  have harts : (Json.arr (r.artifacts.map ArtifactValue.toDict)).wf = true := by
    rw [Json.wf, Json.wfElems_iff]
    intro x hx
    obtain ⟨a, ha, rfl⟩ := List.mem_map.1 hx
    exact ArtifactValue.toDict_wf (h.artifacts a ha)
  rw [Json.wf, Bool.and_eq_true, decide_eq_true_eq]
  refine ⟨?_, ?_⟩
  · have hsub : (r.unsignedPayload.map Prod.fst).Sublist (r.toDict.map Prod.fst) := by
      rw [ReceiptValue.toDict, List.map_append]
      exact List.sublist_append_left _ _
    exact r.toDict_nodup.sublist hsub
  · simp only [ReceiptValue.unsignedPayload, Json.wfFields, Json.wf, strings_wf, optionalString_wf,
      Bool.true_and, Bool.and_true]
    rw [Json.wf] at harts
    have hreqs := tuples_wf h.requirements
    have hresults := tuples_wf h.results
    rw [Json.wf] at hreqs hresults
    simp only [harts, hreqs, hresults, Bool.and_self]

theorem ReceiptValue.toDict_wf {r : ReceiptValue} (h : r.Wf) : (Json.obj r.toDict).wf = true := by
  have hp := r.payload_wf h
  rw [Json.wf, Bool.and_eq_true, Json.wfFields_iff] at hp
  rw [Json.wf, Bool.and_eq_true, decide_eq_true_eq, Json.wfFields_iff]
  refine ⟨r.toDict_nodup, ?_⟩
  intro kv hkv
  rcases List.mem_append.1 hkv with hkv | hkv
  · exact hp.2 kv hkv
  · simp only [List.mem_cons, List.not_mem_nil, or_false] at hkv
    rcases hkv with rfl | rfl <;> rfl

theorem ReceiptValue.toDict_dumpable {r : ReceiptValue}
    (h : (Json.obj r.unsignedPayload).dumpable = true) : (Json.obj r.toDict).dumpable = true := by
  rw [Json.dumpable, Json.dumpableFields_iff] at h ⊢
  intro kv hkv
  rcases List.mem_append.1 hkv with hkv | hkv
  · exact h kv hkv
  · simp only [List.mem_cons, List.not_mem_nil, or_false] at hkv
    rcases hkv with rfl | rfl <;> rfl

theorem receiptOf_norm {r : WorkerReceipt} (h : Digestible (.obj r.unsignedPayload)) :
    receiptOf r.toValue.toDict.norm = .ok r.toValue := by
  have hget : ∀ k v, (k, v) ∈ r.toValue.toDict → r.toValue.toDict.norm.get? k = some v.norm := by
    intro k v hm
    rw [Fields.get?_norm r.toValue.toDict_nodup, Fields.get?_of_mem r.toValue.toDict_nodup hm]
    rfl
  have hfields : fieldsOf (r.toValue.toDict.norm.filter fun kv => kv.1 ≠ lit "receipt_hash") =
      some r.toValue := by
    refine fieldsOf_eq ?_ ?_
    · intro k v hm
      have hmem : (k, v) ∈ r.toValue.toDict := by
        rw [ReceiptValue.toDict]
        rcases List.mem_append.1 hm with hm | hm
        · exact List.mem_append_left _ hm
        · rw [List.mem_singleton.1 hm]
          exact List.mem_append_right _ (by simp [ReceiptData.toValue])
      have hne : k ≠ lit "receipt_hash" := by
        rintro rfl
        have hk := List.mem_map_of_mem (f := Prod.fst) hm
        have hno : lit "receipt_hash" ∉ (r.toValue.unsignedPayload ++
            [(lit "station_signature", Json.str r.stationSignature)]).map Prod.fst := by
          show lit "receipt_hash" ∉ receiptKeys
          decide
        exact hno hk
      rw [Fields.get?_filter_ne _ hne]
      exact hget k v hmem
    · intro kv hkv
      obtain ⟨hkv, hne⟩ := List.mem_filter.1 hkv
      obtain ⟨kw, hkw, rfl⟩ := List.mem_map.1 hkv
      have hk : kw.1 ∈ envelopeKeys := List.mem_map_of_mem (f := Prod.fst) (mem_sortFields.1 hkw)
      exact receiptKeys_of_envelopeKeys kw.1 hk (by simpa using hne)
  have hhash : r.toValue.receiptHash = .ok r.toValue.hash := by
    rw [ReceiptValue.receiptHash, toValue_payload, digest_of_digestible h, ReceiptValue.hash,
      toValue_payload]
  rw [receiptOf, hfields, Option.bind_some, toValue_postInit]
  simp only [hhash]
  refine bind_eq_ok.2 ⟨_, rfl, bind_eq_ok.2 ⟨(), require_of ?_, rfl⟩⟩
  exact hget (lit "receipt_hash") (.str r.toValue.hash) (by simp [ReceiptValue.toDict])

theorem canonical_toDict {r : WorkerReceipt} (h : Digestible (.obj r.unsignedPayload)) :
    canonical (.obj r.toValue.toDict) = .ok (Json.obj r.toValue.toDict).render ∧
      strictJson (Json.obj r.toValue.toDict).render = .ok (.obj r.toValue.toDict.norm) := by
  have hd : (Json.obj r.toValue.toDict).dumpable = true := by
    refine ReceiptValue.toDict_dumpable ?_
    rw [toValue_payload]
    exact h.1
  refine ⟨canonical_of_dumpable hd, ?_⟩
  rw [strictJson_render (ReceiptValue.toDict_wf r.toValue_wf) hd, Fields.obj_norm]

/-- `from_dict` on an object whose text is read as an envelope. -/
theorem fromDict_eq {d e : Fields} {t : Str} {r : ReceiptValue} (hcan : canonical (.obj d) = .ok t)
    (hread : strictJson t = .ok (.obj e)) (hr : receiptOf e = .ok r) : fromDict (.obj d) = .ok r := by
  rw [fromDict]
  exact bind_eq_ok.2 ⟨t, hcan, bind_eq_ok.2 ⟨.obj e, hread, hr⟩⟩

theorem fromDict_toDict {r : WorkerReceipt} (h : Digestible (.obj r.unsignedPayload)) :
    fromDict (.obj r.toValue.toDict) = .ok r.toValue := by
  obtain ⟨hcan, hread⟩ := canonical_toDict h
  exact fromDict_eq hcan hread (receiptOf_norm h)

/-- A receipt is read back from the text of its envelope. -/
theorem fromDict_text {r : WorkerReceipt} (h : Digestible (.obj r.unsignedPayload)) :
    (strictJson (Json.obj r.toValue.toDict).render).bind fromDict = .ok r.toValue := by
  obtain ⟨hcan, hread⟩ := canonical_toDict h
  have hd := (dumpable_of_canonical hcan).1
  have hnorm : canonical (.obj r.toValue.toDict.norm) = .ok (Json.obj r.toValue.toDict).render := by
    rw [← Fields.obj_norm, canonical_of_dumpable, Json.render_norm]
    rw [Json.dumpable_norm]
    exact hd
  have hbind : ∀ v : Json, (Except.ok v : Except PyExn Json).bind fromDict = fromDict v := fun _ => rfl
  rw [hread, hbind]
  exact fromDict_eq hnorm hread (receiptOf_norm h)

/-! ## Different receipts have different payloads -/

/-- Dictionaries with the same keys in the same order and the same sorted form have the same values,
up to the order of keys in them. -/
theorem map_norm_eq_of_norm_eq {d e : Fields} (hkeys : d.map Prod.fst = e.map Prod.fst)
    (hnd : (d.map Prod.fst).Nodup) (h : d.norm = e.norm) :
    (d.map fun kv => (kv.1, kv.2.norm)) = e.map fun kv => (kv.1, kv.2.norm) := by
  have hnorm : ∀ f : Fields, Fields.norm (f.map fun kv => (kv.1, kv.2.norm)) = f.norm := by
    intro f
    rw [Fields.norm, Fields.norm, sortFields_map, List.map_map]
    refine List.map_congr_left ?_
    intro kv _
    simp only [Function.comp, Json.norm_norm]
  have hvalues : ∀ f : Fields, ∀ kv ∈ f.map (fun kv : Str × Json => (kv.1, kv.2.norm)),
      kv.2.norm = kv.2 := by
    intro f kv hkv
    obtain ⟨kw, -, rfl⟩ := List.mem_map.1 hkv
    exact Json.norm_norm _
  have hmap : ∀ f : Fields, (f.map fun kv => (kv.1, kv.2.norm)).map Prod.fst = f.map Prod.fst := by
    intro f
    rw [List.map_map]
    rfl
  refine fields_eq_of_norm_eq ?_ ?_ (hvalues d) (hvalues e) ?_
  · rw [hmap, hmap, hkeys]
  · rw [hmap]
    exact hnd
  · rw [hnorm, hnorm, h]

theorem eq_of_norm_eq_bool {v : Json} {b : Bool} (h : v.norm = .bool b) : v = .bool b := by
  cases v with
  | arr xs =>
      rw [Json.norm_arr] at h
      cases h
  | obj d =>
      rw [Json.norm_obj] at h
      cases h
  | _ => exact h

theorem eq_of_norm_eq_str {v : Json} {s : Str} (h : v.norm = .str s) : v = .str s := Json.alike_str h

theorem eq_of_norm_eq_int {v : Json} {i : Int} (h : v.norm = .int i) : v = .int i := Json.alike_int h

omit [FloatModel] in
/-- Lists with the same images under functions that determine their arguments. -/
theorem map_eq_map_of_imp {α β γ : Type} {f : α → γ} {g : β → γ} {k : β → α} {xs : List α}
    {ys : List β} (h : xs.map f = ys.map g) (hfg : ∀ x y, f x = g y → x = k y) : xs = ys.map k := by
  induction ys generalizing xs with
  | nil => exact List.map_eq_nil_iff.1 h
  | cons y ys ih =>
      cases xs with
      | nil => cases h
      | cons x xs =>
          rw [List.map_cons, List.map_cons] at h
          obtain ⟨hxy, htail⟩ := List.cons.inj h
          rw [List.map_cons, hfg x y hxy, ih htail]

theorem artifact_eq_of_norm_eq {a : ArtifactValue} {b : ArtifactBinding}
    (h : a.toDict.norm = b.toValue.toDict.norm) : a = b.toValue := by
  rw [ArtifactValue.toDict, ArtifactValue.toDict, Fields.obj_norm, Fields.obj_norm] at h
  have hfields := map_norm_eq_of_norm_eq (d := a.fields) (e := b.toValue.fields) rfl a.fields_nodup
    (Json.obj.inj h)
  simp only [ArtifactValue.fields, ArtifactBinding.toValue, List.map_cons, List.map_nil,
    List.cons.injEq, Prod.mk.injEq, true_and, and_true, optionalString_norm] at hfields
  obtain ⟨hpath, hsha, hsize, hdel⟩ := hfields
  obtain ⟨path, sha, size, deleted⟩ := a
  rw [ArtifactBinding.toValue, ArtifactValue.mk.injEq]
  exact ⟨Json.str.inj hpath, optionalString_injective hsha, eq_of_norm_eq_int hsize,
    eq_of_norm_eq_bool hdel⟩

theorem requirement_eq_of_norm_eq {t : List Json} {x : Str × Bool}
    (h : (Json.arr t).norm = (Json.arr (requirementTuple x)).norm) : t = requirementTuple x := by
  rw [Json.norm_arr, Json.norm_arr, Json.arr.injEq] at h
  obtain ⟨u, v, rfl⟩ : ∃ u v, t = [u, v] :=
    List.length_eq_two.1 (by simpa [requirementTuple] using congrArg List.length h)
  simp only [requirementTuple, List.map_cons, List.map_nil, List.cons.injEq, and_true] at h
  rw [requirementTuple, eq_of_norm_eq_str h.1, eq_of_norm_eq_bool h.2]

theorem result_eq_of_norm_eq {t : List Json} {x : Str × Str}
    (h : (Json.arr t).norm = (Json.arr (resultTuple x)).norm) : t = resultTuple x := by
  rw [Json.norm_arr, Json.norm_arr, Json.arr.injEq] at h
  obtain ⟨u, v, rfl⟩ : ∃ u v, t = [u, v] :=
    List.length_eq_two.1 (by simpa [resultTuple] using congrArg List.length h)
  simp only [resultTuple, List.map_cons, List.map_nil, List.cons.injEq, and_true] at h
  rw [resultTuple, eq_of_norm_eq_str h.1, eq_of_norm_eq_str h.2]

theorem tuples_eq_of_norm_eq {α : Type} {f : α → List Json} {ts : List (List Json)} {xs : List α}
    (hf : ∀ t x, (Json.arr t).norm = (Json.arr (f x)).norm → t = f x)
    (h : (Json.arr (ts.map Json.arr)).norm = (Json.arr ((xs.map f).map Json.arr)).norm) :
    ts = xs.map f := by
  rw [Json.norm_arr, Json.norm_arr, Json.arr.injEq, List.map_map, List.map_map, List.map_map] at h
  exact map_eq_map_of_imp h hf

/-- A receipt whose payload has the canonical text of a typed receipt has its fields. -/
theorem eq_of_render_eq_payload {v : ReceiptValue} {r : ReceiptData} (hv : v.Wf)
    (hdv : (Json.obj v.unsignedPayload).dumpable = true)
    (hdr : (Json.obj r.unsignedPayload).dumpable = true)
    (h : (Json.obj v.unsignedPayload).render = (Json.obj r.unsignedPayload).render) :
    { v with stationSignature := r.stationSignature } = r.toValue := by
  rw [← toValue_payload] at h hdr
  have hnorm := norm_eq_of_render_eq (v.payload_wf hv) (r.toValue.payload_wf r.toValue_wf) hdv hdr h
  rw [Fields.obj_norm, Fields.obj_norm] at hnorm
  have hnd : (v.unsignedPayload.map Prod.fst).Nodup := by
    have hwf := v.payload_wf hv
    rw [Json.wf, Bool.and_eq_true, decide_eq_true_eq] at hwf
    exact hwf.1
  have hfields := map_norm_eq_of_norm_eq (d := v.unsignedPayload) (e := r.toValue.unsignedPayload) rfl
    hnd (Json.obj.inj hnorm)
  simp only [ReceiptValue.unsignedPayload, ReceiptData.toValue, List.map_cons, List.map_nil,
    List.cons.injEq, Prod.mk.injEq, true_and, and_true, optionalString_norm, strings_norm] at hfields
  obtain ⟨h1, h2, h3, h4, h5, h6, h7, h8, h9, h10, h11, h12, harts, hreqs, hresults, h16, h17, h18,
    hparents, hsup, hissued, h22⟩ := hfields
  have harts' : v.artifacts = r.artifacts.map ArtifactBinding.toValue := by
    rw [Json.norm_arr, Json.norm_arr, Json.arr.injEq, List.map_map, List.map_map, List.map_map] at harts
    exact map_eq_map_of_imp harts fun _ _ hab => artifact_eq_of_norm_eq hab
  obtain ⟨⟩ := v
  simp only [ReceiptData.toValue, ReceiptValue.mk.injEq, true_and]
  exact ⟨Json.str.inj h2, Json.str.inj h3, Json.str.inj h4, Json.str.inj h5, Json.str.inj h6,
    Json.str.inj h7, Json.str.inj h8, Json.str.inj h9, Json.str.inj h10, Json.str.inj h11,
    Json.str.inj h12, harts', tuples_eq_of_norm_eq (fun _ _ => requirement_eq_of_norm_eq) hreqs,
    tuples_eq_of_norm_eq (fun _ _ => result_eq_of_norm_eq) hresults, Json.str.inj h16,
    Json.str.inj h17, Json.str.inj h18, strings_injective hparents, optionalString_injective hsup,
    Json.int.inj hissued, Json.str.inj h22, Json.str.inj h1⟩

/-! ## What `from_dict` returns -/

omit [FloatModel] in
theorem of_mem_mapM {α β : Type} {f : α → Option β} {xs : List α} {ys : List β}
    (h : xs.mapM f = some ys) {y : β} (hy : y ∈ ys) : ∃ x ∈ xs, f x = some y := by
  induction xs generalizing ys with
  | nil =>
      cases h
      cases hy
  | cons x xs ih =>
      rw [List.mapM_cons] at h
      obtain ⟨z, hz, h⟩ := Option.bind_eq_some_iff.1 h
      obtain ⟨zs, hzs, h⟩ := Option.bind_eq_some_iff.1 h
      cases h
      rcases List.mem_cons.1 hy with rfl | hy
      · exact ⟨x, List.mem_cons_self, hz⟩
      · obtain ⟨w, hw, hfw⟩ := ih hzs hy
        exact ⟨w, List.mem_cons_of_mem _ hw, hfw⟩

theorem wf_of_get? {d : Fields} (hd : (Json.obj d).wf = true) {k : Str} {v : Json}
    (h : d.get? k = some v) : v.wf = true := by
  rw [Json.wf, Bool.and_eq_true, Json.wfFields_iff] at hd
  exact hd.2 _ (Fields.mem_of_get? h)

theorem iterate_wf {v : Json} (hv : v.wf = true) {xs : List Json} (h : iterate v = some xs) :
    ∀ x ∈ xs, x.wf = true := by
  intro x hx
  cases v with
  | arr ys =>
      cases h
      rw [Json.wf, Json.wfElems_iff] at hv
      exact hv x hx
  | str s =>
      cases h
      obtain ⟨c, -, rfl⟩ := List.mem_map.1 hx
      rfl
  | obj d =>
      cases h
      obtain ⟨kv, -, rfl⟩ := List.mem_map.1 hx
      rfl
  | _ => cases h

theorem artifactFields_wf {d : Fields} (hd : (Json.obj d).wf = true) {a : ArtifactValue}
    (h : artifactFields d = some a) : a.sizeBytes.wf = true ∧ a.deleted.wf = true := by
  rw [artifactFields] at h
  obtain ⟨path, -, h⟩ := Option.bind_eq_some_iff.1 h
  obtain ⟨sha, -, h⟩ := Option.bind_eq_some_iff.1 h
  obtain ⟨size, hsize, h⟩ := Option.bind_eq_some_iff.1 h
  dsimp only at h
  split at h
  · cases h
    refine ⟨wf_of_get? hd hsize, ?_⟩
    cases hdel : d.get? (lit "deleted") with
    | none => rfl
    | some v => exact wf_of_get? hd hdel
  · cases h

theorem artifactOf_wf {v : Json} (hv : v.wf = true) {a : ArtifactValue} (h : artifactOf v = some a) :
    a.sizeBytes.wf = true ∧ a.deleted.wf = true := by
  cases v with
  | obj d => exact artifactFields_wf hv h
  | _ => cases h

theorem tuples_wf_of_eq {d : Fields} (hd : (Json.obj d).wf = true) {key : String}
    {ts : List (List Json)} (h : tuples d key = some ts) : ∀ t ∈ ts, ∀ v ∈ t, v.wf = true := by
  rw [tuples] at h
  obtain ⟨xs, hxs, h⟩ := Option.bind_eq_some_iff.1 h
  obtain ⟨v, hv, hxs⟩ := Option.bind_eq_some_iff.1 hxs
  intro t ht
  obtain ⟨x, hx, hxt⟩ := of_mem_mapM h ht
  exact iterate_wf (iterate_wf (wf_of_get? hd hv) hxs x hx) hxt

theorem fieldsOf_wf {d : Fields} (hd : (Json.obj d).wf = true) {r : ReceiptValue}
    (h : fieldsOf d = some r) : r.Wf := by
  rw [fieldsOf] at h
  obtain ⟨arts, harts, h⟩ := Option.bind_eq_some_iff.1 h
  obtain ⟨reqs, hreqs, h⟩ := Option.bind_eq_some_iff.1 h
  obtain ⟨results, hresults, h⟩ := Option.bind_eq_some_iff.1 h
  iterate 20 obtain ⟨_, -, h⟩ := Option.bind_eq_some_iff.1 h
  split at h
  · cases h
    refine ⟨?_, tuples_wf_of_eq hd hreqs, tuples_wf_of_eq hd hresults⟩
    obtain ⟨xs, hxs, harts⟩ := Option.bind_eq_some_iff.1 harts
    obtain ⟨v, hv, hxs⟩ := Option.bind_eq_some_iff.1 hxs
    intro a ha
    obtain ⟨x, hx, hxa⟩ := of_mem_mapM harts ha
    exact artifactOf_wf (iterate_wf (wf_of_get? hd hv) hxs x hx) hxa
  · cases h

theorem sortTuples_mem {xs ys : List (List Json)} (h : sortTuples xs = some ys) {t : List Json} :
    t ∈ ys ↔ t ∈ xs := by
  rw [sortTuples] at h
  split at h
  · cases h
    exact List.mem_insertionSort _
  · cases h

/-- The constructor does not change the parts of a receipt but for their order. -/
theorem postInit_wf {v r : ReceiptValue} (hv : v.Wf) (h : v.postInit = some r) : r.Wf := by
  rw [ReceiptValue.postInit] at h
  obtain ⟨reqs, hreqs, h⟩ := Option.bind_eq_some_iff.1 h
  obtain ⟨results, hresults, h⟩ := Option.bind_eq_some_iff.1 h
  split at h
  · cases h
    refine ⟨?_, ?_, ?_⟩
    · intro a ha
      exact hv.artifacts a ((List.mem_insertionSort _).1 ha)
    · intro t ht
      exact hv.requirements t ((sortTuples_mem hreqs).1 ht)
    · intro t ht
      exact hv.results t ((sortTuples_mem hresults).1 ht)
  · cases h

/-- A receipt that `from_dict` returns has a hash, and its JSON parts have distinct keys. -/
theorem fromDict_spec {e : Json} (he : e.wf = true) {r : ReceiptValue} (h : fromDict e = .ok r) :
    r.Wf ∧ Digestible (.obj r.unsignedPayload) := by
  cases e with
  | obj d =>
      rw [fromDict] at h
      obtain ⟨t, hcan, h⟩ := bind_eq_ok.1 h
      obtain ⟨hdump, rfl⟩ := dumpable_of_canonical hcan
      obtain ⟨v, hread, h⟩ := bind_eq_ok.1 h
      rw [strictJson_render he hdump, Fields.obj_norm] at hread
      cases hread
      have hwf : (Json.obj (Fields.norm d)).wf = true := by
        rw [← Fields.obj_norm]
        exact Json.wf_norm he
      have hfilter : (Json.obj ((Fields.norm d).filter fun kv => kv.1 ≠ lit "receipt_hash")).wf = true := by
        rw [Json.wf, Bool.and_eq_true, decide_eq_true_eq, Json.wfFields_iff] at hwf ⊢
        exact ⟨hwf.1.sublist (List.filter_sublist.map _),
          fun kv hkv => hwf.2 kv (List.mem_filter.1 hkv).1⟩
      rw [receiptOfObject, receiptOf] at h
      split at h
      · cases h
      · rename_i receipt hreceipt
        obtain ⟨raw, hraw, hpost⟩ := Option.bind_eq_some_iff.1 hreceipt
        obtain ⟨hash, hhash, h⟩ := bind_eq_ok.1 h
        obtain ⟨u, -, h⟩ := bind_eq_ok.1 h
        cases h
        exact ⟨postInit_wf (fieldsOf_wf hfilter hraw) hpost, (digest_eq_ok_iff.1 hhash).1⟩
  | _ => cases h

end ResidualHarness.Factory
