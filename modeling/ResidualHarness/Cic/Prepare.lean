import ResidualHarness.Cic.Model
import ResidualHarness.Engine.Harness

/-!
# Compilation of a structural task

`prepare` of `residual/cic.py`: the connected components of the declared model, and every other
obligation alone, become the groups of a compiled task. The check of a group runs the joint
constraints and then the original checks of its members in dependency order, each in a context with
its own evidence and dependencies.
-/

set_option autoImplicit false

namespace ResidualHarness.Cic

open Python Core Engine

variable [FloatModel]

/-- The hash of the file `cic.py`. -/
structure Compiler where
  sha256 : Str
  valid : isHash sha256 = true

/-! ## Contexts of members -/

/-- `ctx.dependency(node_id)` of the context of a group. -/
def dependencyOf (view : View) (n : Str) : Except PyExn Json :=
  match Dict.get? view.dependencies n with
  | some r => r
  | none => .error (contractError "verifier accessed undeclared dependency")

/-- `ctx.dependency(owner[d])[d]`. -/
def projected (owner : Dict Str Str) (view : View) (d : Str) : Except PyExn Json := do
  let group ← lookupKey owner d
  let value ← dependencyOf view group
  value.item d

/-- `values[d] if d in values else ctx.dependency(owner[d])[d]`. -/
def memberDependency (owner : Dict Str Str) (view : View) (staged : Dict Str Json) (d : Str) :
    Except PyExn Json :=
  match staged.get? d with
  | some v => .ok v
  | none => projected owner view d

/-- `original_context(o, ctx, values)`. -/
def originalContext (artifacts : List Artifact) (owner : Dict Str Str) (view : View)
    (staged : Dict Str Json) (o : Obligation) : Except PyExn Context := do
  let deps ← mapE (fun d => do return (d, ← memberDependency owner view staged d)) o.dependsOn
  return ⟨o, artifacts, deps⟩

/-! ## The check of a group -/

section Group

variable {ω : Type} (registry : Registry ω) (artifacts : List Artifact) (owner : Dict Str Str)

/-- The arguments of the check of a member. -/
def memberArguments (view : View) (value : Fields) (staged : Dict Str Json) (o : Obligation) :
    Except PyExn (Json × Json × Check ω × Context) := do
  let check ← lookupKey registry.checks o.check
  let v ← Fields.get value o.id
  let copy ← strictJson (← canonical v)
  let context ← originalContext artifacts owner view staged o
  return (v, copy, check.2, context)

/-- The loop over the members of a group. -/
def checkMembers (view : View) (value : Fields) :
    List Obligation → Dict Str Json → ω → CheckReturn × ω
  | [], _, w => (.verdict .passed, w)
  | o :: rest, staged, w =>
      match memberArguments registry artifacts owner view value staged o with
      | .error _ => (.raised, w)
      | .ok (v, copy, check, context) =>
          match check w copy context.view with
          | (.verdict d, w') =>
              if d.status ≠ .pass then (.verdict d, w')
              else checkMembers view value rest (staged.set o.id v) w'
          | (.other, w') => (.verdict invalidVerifierResult, w')
          | (.raised, w') => (.raised, w')

/-- The verdict for a value with other keys than the members of the group. -/
def incompleteGroup : Verdict :=
  ⟨.fail, lit "structural_incomplete_group",
    lit "Return the complete object for every member of this group."⟩

/-- The verdict for a value that breaks the model. -/
def constraintFailed : Verdict :=
  ⟨.fail, lit "structural_constraint_failed",
    lit "Check every domain and joint constraint in the declared evidence."⟩

/-- `check(value, ctx)` of a group. -/
def groupCheck (ordered : List Obligation) (submodel : Option Model) (nodes : List Str) :
    Check ω := fun w value view =>
  match value with
  | .obj d =>
      if ¬ (Dict.keys d ⊆ nodes ∧ nodes ⊆ Dict.keys d) then (.verdict incompleteGroup, w)
      else if submodel.all (fun m => consistentValue m d) = false then
        (.verdict constraintFailed, w)
      else checkMembers registry artifacts owner view d ordered [] w
  | _ => (.verdict incompleteGroup, w)

/-! ## The solver of a group -/

/-- A value without repeated keys. -/
abbrev SolverValue := { v : Value // v.wf = true }

/-- The value of a dependency of a member, for its solver. -/
def solverDependency (view : View) (staged : Dict Str SolverValue) (d : Str) :
    Except PyExn Value :=
  match staged.get? d with
  | some v => .ok v.1
  | none => do return .json (← projected owner view d)

/-- `original_context(o, ctx, values)` of a solver, whose values may be any objects. -/
def solverView (view : View) (staged : Dict Str SolverValue) (o : Obligation) :
    Except PyExn View := do
  let deps ← mapE (fun d => do return (d, ← solverDependency owner view staged d)) o.dependsOn
  return {
    obligation := o
    evidence := (Context.view ⟨o, artifacts, []⟩).evidence
    dependencies := deps.map fun d => (d.1, do strictJson (← d.2.canonical)) }

/-- The items of a dictionary of values, if all can be written as JSON. -/
def jsonItems (staged : Dict Str SolverValue) : Option Fields :=
  staged.mapM fun kv =>
    match kv.2.1 with
    | .json v => some (kv.1, v)
    | .object => none

/-- The dictionary that the solver of a group returns. -/
def groupValue (staged : Dict Str SolverValue) : SolverReturn :=
  match jsonItems staged with
  | none => .value .object rfl
  | some d =>
      -- the keys of a dictionary are distinct, so that the other case does not occur
      if h : (Value.json (.obj d)).wf = true then .value (.json (.obj d)) h else .raised

/-- The loop over the members of a group. -/
def solveMembers (view : View) :
    List Obligation → Dict Str SolverValue → ω → SolverReturn × ω
  | [], staged, w => (groupValue staged, w)
  | o :: rest, staged, w =>
      match (do return (← lookupKey registry.solvers (o.solver.getD []),
          ← solverView artifacts owner view staged o) : Except PyExn (Solver ω × View)) with
      | .error _ => (.raised, w)
      | .ok (solve, v) =>
          match solve w v with
          | (.value x wf, w') => solveMembers view rest (staged.set o.id ⟨x, wf⟩) w'
          | (.raised, w') => (.raised, w')

/-- `solve(ctx)` of a group. -/
def groupSolver (ordered : List Obligation) : Solver ω := fun w view =>
  solveMembers registry artifacts owner view ordered [] w

end Group

/-! ## The loop over the groups -/

/-- The order in which the members of a group are checked. -/
def orderMembers (nodes : List Str) : Nat → List Obligation → List Obligation →
    Except PyExn (List Obligation)
  | _, ordered, [] => .ok ordered
  | 0, _, _ :: _ => .error (.runtimeError "fuel" "unreachable")
  | fuel + 1, ordered, o :: os =>
      let ready := (o :: os).filter fun x =>
        ∀ d ∈ x.dependsOn, d ∈ nodes → d ∈ ordered.map Obligation.id
      orderMembers nodes fuel (ordered ++ ready) ((o :: os).filter fun x => x ∉ ready)

/-- The names that the compiler gives. -/
def revisionName : Str := lit "cic-finite-v1"

/-- The binding of a check in the revision of a group. -/
def checkBinding {ω : Type} (registry : Registry ω) (check : Str) : Except PyExn (Str × Json) := do
  let (label, _) ← lookupKey registry.checks check
  match registry.identities.get? check with
  | none => return (check, .obj [(lit "label", .str label), (lit "identity", .null),
      (lit "check_type", .null)])
  | some (revision, checkType) => do
      let effective ← revision.effectiveRevision
      return (check, .obj [(lit "label", .str label), (lit "identity", .str effective),
        (lit "check_type", .str checkType.text)])

/-- `digest(value)` of a value, as a hash. -/
def digestHash (value : Json) : Except PyExn { s : Str // isHash s = true } :=
  match digest value with
  | .error e => .error e
  | .ok d => if h : isHash d = true then .ok ⟨d, h⟩ else .error (contractError "invalid hash")

/-- The identity of a group whose members all have one. -/
def groupIdentity {ω : Type} (compiler : Compiler) (registry : Registry ω)
    (ordered : List Obligation) (bindings : Fields) (modelRequired : Bool) :
    Except PyExn (Option VerifierRevision) :=
  if ∀ o ∈ ordered, o.check ∈ registry.identities.keys then do
    let configuration ← digestHash (.obj bindings)
    let policy ← digestHash (.obj [(lit "atomic_group", .bool true),
      (lit "model_required", .bool modelRequired)])
    return some ⟨compiler.sha256, configuration.1, policy.1, none,
      ⟨compiler.valid, configuration.2, policy.2, by simp⟩⟩
  else .ok none

/-- The check type of a group. -/
def groupCheckType {ω : Type} (registry : Registry ω) (ordered : List Obligation) : CheckType :=
  if ∃ o ∈ ordered, (registry.identities.get? o.check).map Prod.snd = some .judge then .judge
  else .structural

/-- `registry.check(name, function, revision, identity=..., check_type=...)`. -/
def registerCheck {ω : Type} (registry : Registry ω) (name : Str) (function : Check ω)
    (revision : Str) (identity : Option VerifierRevision) (checkType : CheckType) :
    Except PyExn (Registry ω) := do
  verifierName name
  require (name ∉ registry.checks.keys ∧ revision ≠ [])
    (contractError "duplicate check or missing revision")
  return { registry with
    checks := registry.checks.set name (revision, function)
    identities := identity.elim registry.identities fun i =>
      registry.identities.set name (i, checkType) }

/-- `registry.solver(name, function)`. -/
def registerSolver {ω : Type} (registry : Registry ω) (name : Str) (function : Solver ω) :
    Except PyExn (Registry ω) := do
  identifier name
  require (name ∉ registry.solvers.keys) (contractError "duplicate solver")
  return { registry with solvers := registry.solvers.set name function }

/-- The instruction of a group. -/
def groupInstruction (ordered : List Obligation) : Str :=
  lit "Return one JSON object mapping each of these member IDs to its answer. " ++
    lit "Satisfy all joint constraints and member contracts: " ++
    join (lit "; ") (ordered.map fun o => o.id ++ lit ": " ++ o.instruction)

/-- The groups that own the external dependencies of a group. -/
def groupDependencies (owner : Dict Str Str) (group : Str) (ordered : List Obligation) :
    Except PyExn (List Str) := do
  let owners ← mapE (lookupKey owner) (ordered.flatMap Obligation.dependsOn)
  return sortedSet (owners.filter fun g => g ≠ group)

/-- What all groups share. -/
structure Plan (ω : Type) where
  task : Task
  registry : Registry ω
  compiler : Compiler
  model : Model
  modelSha256 : Str
  groups : Dict Str (List Str)
  owner : Dict Str Str
  certificate : Option Certificate
  maxNodes : Nat

/-- The state of the loop over the groups. -/
structure Compiled (ω : Type) where
  registry : Registry ω
  blocked : Dict Str Failure
  feasibility : Dict Str (SearchStatus × Nat)
  searchNodes : Nat
  obligations : List Obligation

/-- The failure of a group without a satisfying assignment. -/
def structuralUnsat : Failure :=
  ⟨lit "structural_unsat", lit "The declared finite model has no satisfying assignment."⟩

section Compile

variable {ω : Type} (plan : Plan ω)

/-- The part of the model that belongs to a group. -/
def Plan.submodel (nodes : List Str) : Option Model :=
  if nodes.headD [] ∈ plan.model.domains.keys then some (plan.model.restricted nodes) else none

/-- The search for a group, in mode `cic`. -/
def Plan.searchGroup (c : Compiled ω) (group : Str) (nodes : List Str) :
    Except PyExn (Compiled ω) :=
  match plan.certificate, plan.submodel nodes with
  | some certificate, some submodel => do
      let order := certificate.ordering.filter fun n => n ∈ nodes
      let r ← feasibility submodel order ((plan.maxNodes : Int) - c.searchNodes)
      return { c with
        searchNodes := c.searchNodes + r.nodes
        feasibility := c.feasibility.set group (r.status, r.nodes)
        blocked := if r.status = .unsat then c.blocked.set group structuralUnsat else c.blocked }
  | _, _ => .ok c

/-- The members of a group, in the order in which they are checked. -/
def Plan.ordered (nodes : List Str) : Except PyExn (List Obligation) :=
  let selected := plan.task.obligations.filter fun o => o.id ∈ nodes
  orderMembers nodes selected.length [] selected

/-- The registration of the check of a group. -/
def Plan.registerGroup (c : Compiled ω) (group : Str) (nodes : List Str)
    (ordered : List Obligation) : Except PyExn (Registry ω) := do
  let bindings ← mapE (fun o : Obligation => checkBinding plan.registry o.check) ordered
  let bindings := Dict.ofPairs bindings
  let revision ← digest (.obj [(lit "compiler", .str revisionName),
    (lit "compiler_sha256", .str plan.compiler.sha256), (lit "checks", .obj bindings)])
  let identity ← groupIdentity plan.compiler plan.registry ordered bindings
    (plan.submodel nodes).isSome
  registerCheck c.registry group
    (groupCheck plan.registry plan.task.artifacts plan.owner ordered (plan.submodel nodes) nodes)
    revision identity (groupCheckType plan.registry ordered)

/-- The registration of the solver of a group whose members all have one. -/
def Plan.registerGroupSolver (registry : Registry ω) (group : Str) (ordered : List Obligation) :
    Except PyExn (Registry ω × Option Str) :=
  if ∀ o ∈ ordered, o.solver.getD [] ≠ [] then do
    let registry ← registerSolver registry group
      (groupSolver plan.registry plan.task.artifacts plan.owner ordered)
    return (registry, some group)
  else .ok (registry, none)

/-- The obligation of a group. -/
def Plan.groupObligation (group : Str) (ordered : List Obligation) (solver : Option Str) :
    Except PyExn Obligation := do
  let dependsOn ← groupDependencies plan.owner group ordered
  let o : Obligation := {
    id := group
    instruction := groupInstruction ordered
    check := group
    evidence := sortedSet (ordered.flatMap Obligation.evidence)
    dependsOn := dependsOn
    parameters := [(lit "members", .arr (ordered.map fun o => .obj o.asDict)),
      (lit "model_sha256", .str plan.modelSha256)]
    solver := solver
    cloud := ordered.all Obligation.cloud }
  o.postInit
  return o

/-- The body of the loop over the groups. -/
def Plan.compileGroup (c : Compiled ω) (g : Str × List Str) : Except PyExn (Compiled ω) := do
  let ordered ← plan.ordered g.2
  let c ← plan.searchGroup c g.1 g.2
  let registry ← plan.registerGroup c g.1 g.2 ordered
  let (registry, solver) ← plan.registerGroupSolver registry g.1 ordered
  let o ← plan.groupObligation g.1 ordered solver
  return { c with registry := registry, obligations := c.obligations ++ [o] }

/-- The loop over the groups. -/
def Plan.compile : Except PyExn (Compiled ω) :=
  plan.groups.foldlM plan.compileGroup ⟨plan.registry, [], [], 0, []⟩

/-- `analysis`, after the loop. -/
def Plan.analysis (c : Compiled ω) : Structural where
  applicable := true
  groups := plan.groups
  blocked := c.blocked
  searchNodes := c.searchNodes
  asDict := [(lit "applicable", .bool true), (lit "revision", .str revisionName),
    (lit "model_sha256", .str plan.modelSha256),
    (lit "groups", .obj (plan.groups.map fun g => (g.1, strings g.2))),
    (lit "certificate", plan.certificate.elim .null Certificate.asDict),
    (lit "blocked", .obj (c.blocked.map fun b => (b.1, b.2.asDict))),
    (lit "feasibility", .obj (c.feasibility.map fun f => (f.1,
      .obj [(lit "status", .str f.2.1.text), (lit "nodes", .int f.2.2)]))),
    (lit "search_nodes", .int c.searchNodes)]

end Compile

/-! ## The compilation -/

/-- `analysis` of a task without a structure. -/
def notApplicable : Structural where
  applicable := false
  groups := []
  blocked := []
  searchNodes := 0
  asDict := [(lit "applicable", .bool false), (lit "groups", .obj []), (lit "blocked", .obj []),
    (lit "search_nodes", .int 0)]

/-- The name of a group. -/
def groupName (members : List Str) : Except PyExn Str := do
  return lit "cicgroup." ++ (← digest (strings members)).take 20

/-- The checks of `prepare` on the model, and the model. -/
def readStructure (task : Task) (artifact : Artifact) : Except PyExn Model := do
  require ((← utf8 artifact.text).length ≤ 128000) (contractError "structural artifact too large")
  let model ← validateModel (← strictJson artifact.text)
  require (model.domains.keys ⊆ task.ids)
    (contractError "structural variable must name an obligation")
  require (∀ n ∈ model.domains.keys, ∀ o ∈ task.byId n, artifact.id ∈ o.evidence)
    (contractError "each structural member must declare the model as evidence")
  return model

variable {ω : Type}

/-- The part of `prepare` before the loop over the groups. -/
def makePlan (compiler : Compiler) (task : Task) (registry : Registry ω) (cic : Bool)
    (maxNodes : Nat) (artifact : Artifact) : Except PyExn (Plan ω) := do
  let model ← readStructure task artifact
  model.validate
  let graph := interactionGraph model
  let members := (← components graph) ++
    (task.ids.filter fun n => n ∉ graph.keys).map fun n => [n]
  let groups := Dict.ofPairs (← mapE (fun g => do return (← groupName g, g)) members)
  let owner := Dict.ofPairs (groups.flatMap fun g => g.2.map fun n => (n, g.1))
  require (∀ g ∈ groups.keys, g ∉ task.ids)
    (contractError "generated structural identifier collision")
  let certificate ← if cic then (do return some (← minFill graph)) else .ok none
  let sha ← artifact.sha256
  return ⟨task, registry, compiler, model, sha, groups, owner, certificate, maxNodes⟩

/-- `Task(task.id, task.goal, task.artifacts, tuple(obligations))`. -/
def compiledTask (task : Task) (os : List Obligation) : Except PyExn Task :=
  -- every obligation has been built by its constructor, so that the other case does not occur
  if h : ∀ o ∈ os, o.postInit = .ok () then
    TaskData.make ⟨task.id, task.goal, task.artifacts, os, none⟩ task.artifactIds h
  else .error (contractError "invalid obligation")

/-- `prepare(task, registry, mode, max_nodes)`. -/
def prepare (compiler : Compiler) (task : Task) (registry : Registry ω) (cic : Bool)
    (maxNodes : Nat) : Except PyExn (Task × Registry ω × Structural) :=
  match task.structure_ with
  | none => .ok (task, registry, notApplicable)
  | some name => do
      require (registeredIn registry task = true)
        (contractError "unregistered verifier or solver")
      match task.artifact name with
      | none => throw .keyError
      | some artifact => do
          let plan ← makePlan compiler task registry cic maxNodes artifact
          let c ← plan.compile
          let compiled ← compiledTask task c.obligations
          return (compiled, c.registry, plan.analysis c)

end ResidualHarness.Cic
