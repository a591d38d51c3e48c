import ResidualHarness.Core.Canonical
import ResidualHarness.Python.Loops

/-!
# Tasks, contexts and registries

The contracts of `residual/core.py`: artifacts with their lines and excerpts, obligations, tasks,
verdicts, the context a plugin sees, and the registry of checks and solvers. `Task` carries the
checks of its constructor. Plugins are functions of a hidden world, so that they may behave
differently at every call; what they see of a task is the `View` of their context.
-/

set_option autoImplicit false

namespace ResidualHarness.Core

open Python

/-! ## Names -/

/-- ASCII letters. -/
def isLetter (c : CodePoint) : Bool :=
  decide ((0x41 ≤ c.val ∧ c.val ≤ 0x5A) ∨ (0x61 ≤ c.val ∧ c.val ≤ 0x7A))

/-- `[a-zA-Z0-9_.-]`. -/
def isNameChar (c : CodePoint) : Bool :=
  isLetter c || isDigit c || decide (c = 0x5F ∨ c = 0x2E ∨ c = 0x2D)

/-- `re.fullmatch(r"[a-zA-Z][a-zA-Z0-9_.-]{0,95}", value)`. -/
def isIdentifier : Str → Bool
  | [] => false
  | c :: cs => isLetter c && decide (cs.length ≤ 95) && cs.all isNameChar

/-- `identifier(value)`. -/
def identifier (value : Str) : Except PyExn Unit :=
  require (isIdentifier value = true) (contractError "invalid identifier")

/-- `:`. -/
def colon : CodePoint := 0x3A

/-- One or two identifiers with a colon between them, the form of a verifier name. -/
def verifierName (check : Str) : Except PyExn Unit := do
  require (∀ part ∈ check.splitOn colon, isIdentifier part = true)
    (contractError "invalid identifier")
  require (check.count colon ≤ 1) (contractError "invalid verifier name")

/-! ## Artifacts -/

/-- `Artifact`. -/
structure Artifact where
  id : Str
  text : Str
  cloud : Bool
deriving DecidableEq

/-- `Artifact.sha256`. -/
def Artifact.sha256 (a : Artifact) : Except PyExn Str := do
  return Python.sha256 (← utf8 a.text)

/-- `Artifact.lines`. -/
def Artifact.lines (a : Artifact) : List Str :=
  if splitLines true a.text = [] then [[]] else splitLines true a.text

/-! ## Obligations -/

section Obligations

variable [FloatModel]

/-- `Artifact.excerpt(start, end)`. -/
def Artifact.excerpt (a : Artifact) (start stop : Int) : Except PyExn Json := do
  require (1 ≤ start) (contractError "start_line must be a positive integer")
  require (1 ≤ stop) (contractError "end_line must be a positive integer")
  require (start ≤ stop ∧ stop ≤ a.lines.length)
    (contractError "evidence window outside artifact")
  let text := ((a.lines.take stop.toNat).drop (start.toNat - 1)).flatten
  let sha ← a.sha256
  let excerptSha := Python.sha256 (← utf8 text)
  return .obj [(lit "artifact_id", .str a.id), (lit "artifact_sha256", .str sha),
    (lit "start_line", .int start), (lit "end_line", .int stop), (lit "text", .str text),
    (lit "excerpt_sha256", .str excerptSha)]

/-- `Obligation`. -/
structure Obligation where
  id : Str
  instruction : Str
  check : Str
  evidence : List Str
  dependsOn : List Str
  parameters : Fields
  solver : Option Str
  cloud : Bool
deriving DecidableEq

/-- `Obligation.__post_init__`. The parameters are a dictionary, so no key occurs twice in them. -/
def Obligation.postInit (o : Obligation) : Except PyExn Unit := do
  identifier o.id
  verifierName o.check
  require (isBlank o.instruction = false) (contractError "obligation requires an instruction")
  require ((Json.obj o.parameters).wf = true) (contractError "duplicate JSON key")
  let _ ← canonical (.obj o.parameters)
  require (o.evidence.Nodup ∧ o.dependsOn.Nodup) (contractError "duplicate obligation dependencies")

/-- `asdict(o)`. -/
def Obligation.asDict (o : Obligation) : Fields :=
  [(lit "id", .str o.id), (lit "instruction", .str o.instruction), (lit "check", .str o.check),
    (lit "evidence", strings o.evidence), (lit "depends_on", strings o.dependsOn),
    (lit "parameters", .obj o.parameters), (lit "solver", optionalString o.solver),
    (lit "cloud", .bool o.cloud)]

/-! ## Tasks -/

/-- The loop that looks for dependency cycles, with the ids resolved so far. -/
def resolves (obligations : List Obligation) : Nat → List Str → Bool
  | 0, _ => false
  | n + 1, resolved =>
      if resolved.length < obligations.length then
        let ready := (obligations.filter fun o => o.dependsOn ⊆ resolved).map Obligation.id
        if ready ⊆ resolved then false else resolves obligations n (resolved ∪ ready)
      else true

/-- The fields of `Task`. The artifacts are a dictionary whose keys are the artifacts' ids. -/
structure TaskData where
  id : Str
  goal : Str
  artifacts : List Artifact
  obligations : List Obligation
  structure_ : Option Str
deriving DecidableEq

/-- `Task.__post_init__`. -/
def TaskData.postInit (t : TaskData) : Except PyExn Unit := do
  identifier t.id
  require (isBlank t.goal = false ∧ t.obligations ≠ [])
    (contractError "task requires a goal and obligations")
  require (t.obligations.map Obligation.id).Nodup (contractError "duplicate obligation id")
  require (t.artifacts.map Artifact.id).Nodup (contractError "artifact key/id mismatch")
  require (∀ s ∈ t.structure_.toList, s ∈ t.artifacts.map Artifact.id)
    (contractError "unknown structural artifact")
  require (∀ o ∈ t.obligations, o.evidence ⊆ t.artifacts.map Artifact.id ∧
      o.dependsOn ⊆ t.obligations.map Obligation.id)
    (contractError "unknown artifact or dependency")
  require (resolves t.obligations (t.obligations.length + 1) [] = true)
    (contractError "obligation dependency cycle")

/-- A task that its constructor returned, of artifacts and obligations that theirs returned. -/
structure Task extends TaskData where
  artifactIds : ∀ a ∈ artifacts, isIdentifier a.id = true
  obligationsValid : ∀ o ∈ obligations, o.postInit = .ok ()
  valid : toTaskData.postInit = .ok ()

/-- `Task(...)`. -/
def TaskData.make (t : TaskData) (ha : ∀ a ∈ t.artifacts, isIdentifier a.id = true)
    (ho : ∀ o ∈ t.obligations, o.postInit = .ok ()) : Except PyExn Task :=
  match h : t.postInit with
  | .ok () => .ok { t with artifactIds := ha, obligationsValid := ho, valid := h }
  | .error e => .error e

namespace Task

/-- The ids of the obligations, in order. -/
def ids (t : Task) : List Str := t.obligations.map Obligation.id

/-- `task.by_id[n]`. -/
def byId (t : Task) (n : Str) : Option Obligation := t.obligations.find? fun o => o.id = n

/-- `task.artifacts[a]`. -/
def artifact (t : Task) (a : Str) : Option Artifact := t.artifacts.find? fun x => x.id = a

/-- `cloud_allowed`, with a bound on the depth of the recursion. -/
def cloudAllowedFrom (t : Task) : Nat → Str → Bool
  | 0, _ => false
  | n + 1, node =>
      match t.byId node with
      | none => false
      | some o => o.cloud && (o.evidence.all fun a => (t.artifact a).any Artifact.cloud) &&
          o.dependsOn.all (cloudAllowedFrom t n)

/-- `task.cloud_allowed(node_id)`: dependencies are acyclic, so that their depth is at most the
number of obligations. -/
def cloudAllowed (t : Task) (node : Str) : Bool := t.cloudAllowedFrom t.obligations.length node

variable {t : Task}

theorem checked (t : Task) : isIdentifier t.id = true ∧ t.ids.Nodup ∧
    (t.artifacts.map Artifact.id).Nodup ∧
    (∀ s ∈ t.structure_.toList, s ∈ t.artifacts.map Artifact.id) ∧
    (∀ o ∈ t.obligations, o.evidence ⊆ t.artifacts.map Artifact.id ∧ o.dependsOn ⊆ t.ids) ∧
    resolves t.obligations (t.obligations.length + 1) [] = true := by
  have h := t.valid
  simp only [TaskData.postInit, identifier] at h
  obtain ⟨_, h1, h⟩ := bind_eq_ok.1 h
  obtain ⟨_, -, h⟩ := bind_eq_ok.1 h
  obtain ⟨_, h2, h⟩ := bind_eq_ok.1 h
  obtain ⟨_, h3, h⟩ := bind_eq_ok.1 h
  obtain ⟨_, h4, h⟩ := bind_eq_ok.1 h
  obtain ⟨_, h5, h6⟩ := bind_eq_ok.1 h
  exact ⟨require_eq_ok.1 h1, require_eq_ok.1 h2, require_eq_ok.1 h3, require_eq_ok.1 h4,
    require_eq_ok.1 h5, require_eq_ok.1 h6⟩

theorem byId_mem {n : Str} {o : Obligation} (h : t.byId n = some o) :
    o ∈ t.obligations ∧ o.id = n :=
  ⟨List.mem_of_find?_eq_some h, by simpa using List.find?_some h⟩

theorem byId_of_mem {o : Obligation} (h : o ∈ t.obligations) : t.byId o.id = some o := by
  obtain ⟨-, hnd, -⟩ := t.checked
  cases hf : t.byId o.id with
  | none => exact absurd (List.find?_eq_none.1 hf o h) (by simp)
  | some o' =>
      obtain ⟨hmem, hid⟩ := byId_mem hf
      exact congrArg some (List.inj_on_of_nodup_map hnd hmem h hid)

theorem artifact_mem {a : Str} {x : Artifact} (h : t.artifact a = some x) :
    x ∈ t.artifacts ∧ x.id = a :=
  ⟨List.mem_of_find?_eq_some h, by simpa using List.find?_some h⟩

theorem exists_artifact {a : Str} (h : a ∈ t.artifacts.map Artifact.id) :
    ∃ x, t.artifact a = some x := by
  obtain ⟨x, hx, rfl⟩ := List.mem_map.1 h
  cases hf : t.artifact x.id with
  | none => exact absurd (List.find?_eq_none.1 hf x hx) (by simp)
  | some y => exact ⟨y, rfl⟩

end Task

/-! ## ASCII names -/

omit [FloatModel] in
theorem isAscii_of_isIdentifier {s : Str} (h : isIdentifier s = true) : isAscii s = true := by
  have hlt : ∀ c, isNameChar c = true → c.val < 0x80 := by
    intro c hc
    simp only [isNameChar, isLetter, isDigit, Bool.or_eq_true, decide_eq_true_eq] at hc
    rcases hc with (h | h) | rfl | rfl | rfl
    · omega
    · omega
    · decide
    · decide
    · decide
  cases s with
  | nil => cases h
  | cons c cs =>
      simp only [isIdentifier, Bool.and_eq_true] at h
      obtain ⟨⟨hc, -⟩, hcs⟩ := h
      have hc' : isNameChar c = true := by simp [isNameChar, hc]
      refine isAscii_of_all hlt ?_
      rw [List.all_cons, hc', hcs]
      rfl

omit [FloatModel] in
theorem encodable_of_isIdentifier {s : Str} (h : isIdentifier s = true) : encodable s = true :=
  encodable_of_isAscii (isAscii_of_isIdentifier h)

omit [FloatModel] in
theorem eq_or_mem_of_mem_intersperse {α : Type} {sep x : α} :
    ∀ {l : List α}, x ∈ l.intersperse sep → x = sep ∨ x ∈ l
  | [], h => by cases h
  | [y], h => Or.inr h
  | y :: z :: l, h => by
      rw [List.intersperse_cons_cons] at h
      rcases List.mem_cons.1 h with rfl | h
      · exact Or.inr List.mem_cons_self
      · rcases List.mem_cons.1 h with rfl | h
        · exact Or.inl rfl
        · rcases eq_or_mem_of_mem_intersperse h with h | h
          · exact Or.inl h
          · exact Or.inr (List.mem_cons_of_mem _ h)

omit [FloatModel] in
theorem isAscii_of_splitOn {s : Str}
    (h : ∀ part ∈ s.splitOn colon, isIdentifier part = true) : isAscii s = true := by
  rw [isAscii, List.all_eq_true]
  intro c hc
  have hs : List.intercalate [colon] (s.splitOn colon) = s := List.intercalate_splitOn colon
  rw [← hs] at hc
  rw [List.intercalate, List.mem_flatten] at hc
  obtain ⟨part, hpart, hcp⟩ := hc
  rcases eq_or_mem_of_mem_intersperse hpart with rfl | hpart
  · rw [List.mem_singleton.1 hcp]
    rfl
  · exact List.all_eq_true.1 (isAscii_of_isIdentifier (h part hpart)) c hcp

/-- What the constructor of an obligation has checked. -/
theorem Obligation.checked {o : Obligation} (h : o.postInit = .ok ()) :
    isIdentifier o.id = true ∧ isAscii o.check = true ∧ (Json.obj o.parameters).wf = true ∧
      (Json.obj o.parameters).dumpable = true ∧ o.evidence.Nodup ∧ o.dependsOn.Nodup := by
  simp only [Obligation.postInit, identifier, verifierName] at h
  obtain ⟨_, h1, h⟩ := bind_eq_ok.1 h
  obtain ⟨_, h2, h⟩ := bind_eq_ok.1 h
  obtain ⟨_, h2, -⟩ := bind_eq_ok.1 h2
  obtain ⟨_, -, h⟩ := bind_eq_ok.1 h
  obtain ⟨_, h3, h⟩ := bind_eq_ok.1 h
  obtain ⟨_, h4, h5⟩ := bind_eq_ok.1 h
  exact ⟨require_eq_ok.1 h1, isAscii_of_splitOn (require_eq_ok.1 h2), require_eq_ok.1 h3,
    (dumpable_of_canonical h4).1, (require_eq_ok.1 h5).1, (require_eq_ok.1 h5).2⟩

/-! ## Plugins -/

/-- The statuses of a verdict. -/
inductive Status where
  | pass
  | fail
  | unknown
deriving DecidableEq, Repr

/-- The text of a status. -/
def Status.text : Status → Str
  | .pass => lit "pass"
  | .fail => lit "fail"
  | .unknown => lit "unknown"

/-- `Verdict`. -/
structure Verdict where
  status : Status
  code : Str
  message : Str
deriving DecidableEq

/-- `Verdict.passed()`. -/
def Verdict.passed : Verdict := ⟨.pass, lit "contract_satisfied", []⟩

/-- `Context`. -/
structure Context where
  obligation : Obligation
  artifacts : List Artifact
  accepted : Dict Str Json

/-- `Context.evidence(artifact_id)`. -/
def Context.evidence (c : Context) (artifactId : Str) : Except PyExn Str := do
  require (artifactId ∈ c.obligation.evidence)
    (contractError "verifier accessed undeclared evidence")
  match c.artifacts.find? fun a => a.id = artifactId with
  | some a => return a.text
  | none => throw .keyError

/-- `Context.dependency(node_id)`: a copy of the accepted value. -/
def Context.dependency (c : Context) (nodeId : Str) : Except PyExn Json := do
  require (nodeId ∈ c.obligation.dependsOn)
    (contractError "verifier accessed undeclared dependency")
  match c.accepted.get? nodeId with
  | some v => strictJson (← canonical v)
  | none => throw .keyError

/-- What a plugin can see through its context: the obligation, the declared evidence and the
declared dependencies. -/
structure View where
  obligation : Obligation
  evidence : List (Str × Except PyExn Str)
  dependencies : List (Str × Except PyExn Json)

/-- The answers of a context to the declared questions. -/
def Context.view (c : Context) : View where
  obligation := c.obligation
  evidence := c.obligation.evidence.map fun a => (a, c.evidence a)
  dependencies := c.obligation.dependsOn.map fun d => (d, c.dependency d)

/-- A Python value: one that can be written as JSON, or another one. -/
inductive Value where
  | json (v : Json)
  | object
deriving DecidableEq

/-- `canonical(value)`. -/
def Value.canonical : Value → Except PyExn Str
  | .json v => Core.canonical v
  | .object => .error .typeError

/-- No dictionary of the value has a key twice. -/
def Value.wf : Value → Bool
  | .json v => v.wf
  | .object => true

/-- How a call of a check ends: with a verdict, another value or an exception. -/
inductive CheckReturn where
  | verdict (v : Verdict)
  | other
  | raised
deriving DecidableEq

/-- How a call of a solver ends. -/
inductive SolverReturn where
  | value (v : Value) (wf : v.wf = true)
  | raised
deriving DecidableEq

/-- A check may depend on a hidden world and change it. -/
abbrev Check (ω : Type) := ω → Json → View → CheckReturn × ω

/-- A solver may depend on a hidden world and change it. -/
abbrev Solver (ω : Type) := ω → View → SolverReturn × ω

/-- `VerifierRevision`. -/
structure VerifierRevision where
  implementationHash : Str
  configurationHash : Str
  policyHash : Str
  proofHash : Option Str
  valid : isHash implementationHash = true ∧ isHash configurationHash = true ∧
    isHash policyHash = true ∧ ∀ h ∈ proofHash.toList, isHash h = true

/-- `VerifierRevision.effective_revision`. -/
def VerifierRevision.effectiveRevision (r : VerifierRevision) : Except PyExn Str :=
  digest (.obj [(lit "schema", .str (lit "residual.verifier.revision.v1")),
    (lit "implementation_hash", .str r.implementationHash),
    (lit "configuration_hash", .str r.configurationHash), (lit "policy_hash", .str r.policyHash),
    (lit "proof_hash", optionalString r.proofHash)])

/-- The types of a check. -/
inductive CheckType where
  | mechanical
  | structural
  | judge
deriving DecidableEq, Repr

/-- The text of a check type. -/
def CheckType.text : CheckType → Str
  | .mechanical => lit "mechanical"
  | .structural => lit "structural"
  | .judge => lit "judge"

/-- `Registry`: checks with their revision labels, identities of some of them, and solvers. -/
structure Registry (ω : Type) where
  checks : Dict Str (Str × Check ω)
  identities : Dict Str (VerifierRevision × CheckType)
  solvers : Dict Str (Solver ω)

end Obligations

end ResidualHarness.Core
