import ResidualHarness.Core.Digests
import ResidualHarness.Core.Task
import ResidualHarness.Factory.EvidenceBus
import ResidualHarness.Graph.Layers
import ResidualHarness.Python.Comprehensions

/-!
# Requirements, tasks and plans

`Requirement`, `FactoryTask`, `ExecutionPlan` and `FrozenPlan` of `residual/factory/models.py`. A
value of one of the first three types is one that its constructor returned: the ids of a plan are
distinct, its references are known and both of its graphs are acyclic (`ExecutionPlan.spec`). The
hash does not depend on how requirements and tasks are listed (`graphHash_congr`).
-/

set_option autoImplicit false

namespace ResidualHarness.Factory.Models

open Python Core Graph

/-! ## Requirements -/

/-- The fields of `Requirement`. -/
structure RequirementData where
  id : Str
  statement : Str
  acceptance : List Str
  dependsOn : List Str
deriving DecidableEq

/-- `Requirement.__post_init__`. -/
def RequirementData.postInit (r : RequirementData) : Except PyExn Unit := do
  identifier r.id
  require (isBlank r.statement = false) (contractError "requirement statement must be nonempty")
  require (r.acceptance ≠ [] ∧ ∀ x ∈ r.acceptance, isBlank x = false)
    (contractError "requirement acceptance must contain nonempty criteria")
  require r.dependsOn.Nodup (contractError "duplicate requirement dependency")

/-- A requirement that its constructor returned. -/
structure Requirement extends RequirementData where
  valid : toRequirementData.postInit = .ok ()

/-- `Requirement(...)`. -/
def RequirementData.make (r : RequirementData) : Except PyExn Requirement :=
  match h : r.postInit with
  | .ok () => .ok ⟨r, h⟩
  | .error e => .error e

theorem RequirementData.make_ok {r : RequirementData} (h : r.postInit = .ok ()) :
    r.make = .ok ⟨r, h⟩ := by
  rw [RequirementData.make]
  split
  · rfl
  · rename_i e he
    cases h.symm.trans he

theorem Requirement.ext {r s : Requirement} (h : r.toRequirementData = s.toRequirementData) :
    r = s := by
  cases r
  cases s
  cases h
  rfl

theorem RequirementData.postInit_iff {r : RequirementData} : r.postInit = .ok () ↔
    isIdentifier r.id = true ∧ isBlank r.statement = false ∧
      (r.acceptance ≠ [] ∧ ∀ x ∈ r.acceptance, isBlank x = false) ∧ r.dependsOn.Nodup := by
  simp only [RequirementData.postInit, identifier, bind_eq_ok, require_eq_ok, exists_const]

/-! ## Tasks -/

/-- The fields of `FactoryTask`. -/
structure TaskData where
  id : Str
  description : Str
  requirementIds : List Str
  dependsOn : List Str
  swarm : Option Str
deriving DecidableEq

/-- `FactoryTask.__post_init__`. -/
def TaskData.postInit (t : TaskData) : Except PyExn Unit := do
  identifier t.id
  require (isBlank t.description = false)
    (contractError "factory task description must be nonempty")
  require (t.requirementIds ≠ []) (contractError "factory task must bind at least one requirement")
  require (∀ s ∈ t.swarm, isIdentifier s = true) (contractError "invalid identifier")
  require (t.requirementIds.Nodup ∧ t.dependsOn.Nodup)
    (contractError "duplicate factory task binding or dependency")

/-- A task that its constructor returned. -/
structure FactoryTask extends TaskData where
  valid : toTaskData.postInit = .ok ()

/-- `FactoryTask(...)`. -/
def TaskData.make (t : TaskData) : Except PyExn FactoryTask :=
  match h : t.postInit with
  | .ok () => .ok ⟨t, h⟩
  | .error e => .error e

theorem TaskData.make_ok {t : TaskData} (h : t.postInit = .ok ()) : t.make = .ok ⟨t, h⟩ := by
  rw [TaskData.make]
  split
  · rfl
  · rename_i e he
    cases h.symm.trans he

theorem TaskData.make_error {t : TaskData} {e : PyExn} (h : t.postInit = .error e) :
    t.make = .error e := by
  rw [TaskData.make]
  split
  · rename_i hok
    cases h.symm.trans hok
  · rename_i e' he
    rw [Except.error.inj (h.symm.trans he)]

theorem TaskData.of_make {t : TaskData} {u : FactoryTask} (h : t.make = .ok u) :
    u.toTaskData = t := by
  cases hp : t.postInit with
  | ok x =>
      rw [TaskData.make_ok hp] at h
      cases h
      rfl
  | error e =>
      rw [TaskData.make_error hp] at h
      cases h

theorem FactoryTask.ext {t u : FactoryTask} (h : t.toTaskData = u.toTaskData) : t = u := by
  cases t
  cases u
  cases h
  rfl

theorem TaskData.postInit_iff {t : TaskData} : t.postInit = .ok () ↔
    isIdentifier t.id = true ∧ isBlank t.description = false ∧ t.requirementIds ≠ [] ∧
      (∀ s ∈ t.swarm, isIdentifier s = true) ∧ t.requirementIds.Nodup ∧ t.dependsOn.Nodup := by
  simp only [TaskData.postInit, identifier, bind_eq_ok, require_eq_ok, exists_const]

/-! ## Plans -/

/-- `{node_id: set(deps) for node_id, deps in nodes}[node_id]`. -/
def depsOf (nodes : List (Str × List Str)) (v : Str) : List Str := (Dict.get? nodes v).getD []

/-- `_assert_acyclic(nodes, kind)`, for distinct nodes: nodes are resolved in rounds. -/
def assertAcyclic (nodes : List (Str × List Str)) (kind : String) : Except PyExn Unit :=
  match layers (depsOf nodes) nodes.length (Dict.keys nodes) [] with
  | some _ => .ok ()
  | none => .error (contractError (kind ++ " dependency cycle"))

/-- The fields of `ExecutionPlan`. -/
structure PlanData where
  intent : Str
  requirements : List Requirement
  tasks : List FactoryTask
  schemaVersion : Str

namespace PlanData

variable (p : PlanData)

/-- The ids of the requirements. -/
def reqIds : List Str := p.requirements.map fun r => r.id

/-- The ids of the tasks. -/
def taskIds : List Str := p.tasks.map fun t => t.id

/-- `[(r.id, r.depends_on) for r in self.requirements]`. -/
def reqNodes : List (Str × List Str) := p.requirements.map fun r => (r.id, r.dependsOn)

/-- `[(t.id, t.depends_on) for t in self.tasks]`. -/
def taskNodes : List (Str × List Str) := p.tasks.map fun t => (t.id, t.dependsOn)

/-- `ExecutionPlan.__post_init__`. -/
def postInit : Except PyExn Unit := do
  require (isBlank p.intent = false) (contractError "execution plan intent must be nonempty")
  require (p.requirements ≠ [] ∧ p.tasks ≠ [])
    (contractError "execution plan requires requirements and tasks")
  require (p.reqIds.Nodup ∧ p.taskIds.Nodup) (contractError "duplicate requirement or task id")
  require (∀ r ∈ p.requirements, r.dependsOn ⊆ p.reqIds)
    (contractError "unknown requirement dependency")
  require (∀ t ∈ p.tasks, t.requirementIds ⊆ p.reqIds ∧ t.dependsOn ⊆ p.taskIds)
    (contractError "unknown task requirement or dependency")
  assertAcyclic p.reqNodes "requirement"
  assertAcyclic p.taskNodes "task"

end PlanData

/-- A plan that its constructor returned. -/
structure ExecutionPlan extends PlanData where
  valid : toPlanData.postInit = .ok ()

/-- `ExecutionPlan(...)`. -/
def PlanData.make (p : PlanData) : Except PyExn ExecutionPlan :=
  match h : p.postInit with
  | .ok () => .ok ⟨p, h⟩
  | .error e => .error e

theorem PlanData.make_ok {p : PlanData} (h : p.postInit = .ok ()) : p.make = .ok ⟨p, h⟩ := by
  rw [PlanData.make]
  split
  · rfl
  · rename_i e he
    cases h.symm.trans he

theorem PlanData.make_error {p : PlanData} {e : PyExn} (h : p.postInit = .error e) :
    p.make = .error e := by
  rw [PlanData.make]
  split
  · rename_i hok
    cases h.symm.trans hok
  · rename_i e' he
    rw [Except.error.inj (h.symm.trans he)]

theorem PlanData.of_make {p : PlanData} {plan : ExecutionPlan} (h : p.make = .ok plan) :
    plan.toPlanData = p := by
  cases hp : p.postInit with
  | ok x =>
      rw [PlanData.make_ok hp] at h
      cases h
      rfl
  | error e =>
      rw [PlanData.make_error hp] at h
      cases h

/-! ## Valid plans -/

theorem depsOf_of_mem {nodes : List (Str × List Str)} (hnd : (Dict.keys nodes).Nodup) {v : Str}
    {deps : List Str} (h : (v, deps) ∈ nodes) : depsOf nodes v = deps := by
  rw [depsOf, Dict.get?_of_mem hnd h, Option.getD_some]

/-- The graph of the nodes has no cycle. -/
def AcyclicNodes (nodes : List (Str × List Str)) : Prop := Acyclic (depsOf nodes) (Dict.keys nodes)

theorem within_depsOf {nodes : List (Str × List Str)} (hnd : (Dict.keys nodes).Nodup)
    (hknown : ∀ kv ∈ nodes, kv.2 ⊆ Dict.keys nodes) : Within (depsOf nodes) (Dict.keys nodes) := by
  intro v hv d hd
  obtain ⟨⟨k, deps⟩, hmem, rfl⟩ := List.mem_map.1 hv
  rw [depsOf_of_mem hnd hmem] at hd
  exact hknown _ hmem hd

/-- The rounds resolve every node exactly when there is no cycle. -/
theorem assertAcyclic_iff {nodes : List (Str × List Str)} (hnd : (Dict.keys nodes).Nodup)
    (hknown : ∀ kv ∈ nodes, kv.2 ⊆ Dict.keys nodes) (kind : String) :
    assertAcyclic nodes kind = .ok () ↔ AcyclicNodes nodes := by
  have hlen : (Dict.keys nodes).length = nodes.length := List.length_map _
  rw [AcyclicNodes, ← exists_layers_iff hnd (within_depsOf hnd hknown), assertAcyclic, hlen]
  cases layers (depsOf nodes) nodes.length (Dict.keys nodes) [] with
  | none => exact ⟨nofun, nofun⟩
  | some r => exact ⟨fun _ => ⟨r, rfl⟩, fun _ => rfl⟩

theorem assertAcyclic_error {nodes : List (Str × List Str)} {kind : String}
    (h : assertAcyclic nodes kind ≠ .ok ()) :
    assertAcyclic nodes kind = .error (contractError (kind ++ " dependency cycle")) := by
  rw [assertAcyclic] at h ⊢
  split
  · rename_i r hr
    rw [hr] at h
    exact absurd rfl h
  · rfl

/-- The edges do not depend on the order of the nodes, so neither does a cycle. -/
theorem AcyclicNodes.perm {nodes nodes' : List (Str × List Str)} (h : AcyclicNodes nodes)
    (hnd : (Dict.keys nodes).Nodup) (hperm : nodes'.Perm nodes) : AcyclicNodes nodes' := by
  have hkeys : (Dict.keys nodes').Perm (Dict.keys nodes) := hperm.map _
  have hdeps : ∀ v, depsOf nodes' v = depsOf nodes v := by
    intro v
    by_cases hv : v ∈ Dict.keys nodes
    · obtain ⟨⟨k, deps⟩, hmem, rfl⟩ := List.mem_map.1 hv
      rw [depsOf_of_mem hnd hmem, depsOf_of_mem (hkeys.nodup_iff.2 hnd) (hperm.mem_iff.2 hmem)]
    · rw [depsOf, depsOf, Dict.get?_eq_none_iff.2 hv,
        Dict.get?_eq_none_iff.2 fun h => hv (hkeys.mem_iff.1 h)]
  intro v hv
  refine h v (Relation.TransGen.mono ?_ _ _ hv)
  rintro a b ⟨x, hx, hb, ha⟩
  rw [hdeps] at ha
  exact ⟨x, hkeys.mem_iff.1 hx, hb, ha⟩

namespace PlanData

/-- What the constructor of a plan checks. -/
structure Spec (p : PlanData) : Prop where
  intent : isBlank p.intent = false
  requirements : p.requirements ≠ []
  tasks : p.tasks ≠ []
  reqIds : p.reqIds.Nodup
  taskIds : p.taskIds.Nodup
  reqDeps : ∀ r ∈ p.requirements, r.dependsOn ⊆ p.reqIds
  bound : ∀ t ∈ p.tasks, t.requirementIds ⊆ p.reqIds
  taskDeps : ∀ t ∈ p.tasks, t.dependsOn ⊆ p.taskIds
  reqAcyclic : AcyclicNodes p.reqNodes
  taskAcyclic : AcyclicNodes p.taskNodes

variable {p : PlanData}

theorem keys_reqNodes (p : PlanData) : Dict.keys p.reqNodes = p.reqIds := by
  rw [Dict.keys, reqNodes, List.map_map]
  rfl

theorem keys_taskNodes (p : PlanData) : Dict.keys p.taskNodes = p.taskIds := by
  rw [Dict.keys, taskNodes, List.map_map]
  rfl

theorem known_reqNodes (h : ∀ r ∈ p.requirements, r.dependsOn ⊆ p.reqIds) :
    ∀ kv ∈ p.reqNodes, kv.2 ⊆ Dict.keys p.reqNodes := by
  intro kv hkv
  obtain ⟨r, hr, rfl⟩ := List.mem_map.1 hkv
  rw [keys_reqNodes]
  exact h r hr

theorem known_taskNodes (h : ∀ t ∈ p.tasks, t.dependsOn ⊆ p.taskIds) :
    ∀ kv ∈ p.taskNodes, kv.2 ⊆ Dict.keys p.taskNodes := by
  intro kv hkv
  obtain ⟨t, ht, rfl⟩ := List.mem_map.1 hkv
  rw [keys_taskNodes]
  exact h t ht

theorem postInit_iff : p.postInit = .ok () ↔ p.Spec := by
  simp only [postInit, bind_eq_ok, require_eq_ok, exists_const]
  constructor
  · rintro ⟨hintent, ⟨hreqs, htasks⟩, ⟨hrn, htn⟩, hrd, htd, _, ha, hb⟩
    have hrn' : (Dict.keys p.reqNodes).Nodup := by rwa [keys_reqNodes]
    have htn' : (Dict.keys p.taskNodes).Nodup := by rwa [keys_taskNodes]
    exact ⟨hintent, hreqs, htasks, hrn, htn, hrd, fun t ht => (htd t ht).1,
      fun t ht => (htd t ht).2, (assertAcyclic_iff hrn' (known_reqNodes hrd) _).1 ha,
      (assertAcyclic_iff htn' (known_taskNodes fun t ht => (htd t ht).2) _).1 hb⟩
  · intro h
    have hrn' : (Dict.keys p.reqNodes).Nodup := by
      rw [keys_reqNodes]
      exact h.reqIds
    have htn' : (Dict.keys p.taskNodes).Nodup := by
      rw [keys_taskNodes]
      exact h.taskIds
    exact ⟨h.intent, ⟨h.requirements, h.tasks⟩, ⟨h.reqIds, h.taskIds⟩, h.reqDeps,
      fun t ht => ⟨h.bound t ht, h.taskDeps t ht⟩,
      (), (assertAcyclic_iff hrn' (known_reqNodes h.reqDeps) _).2 h.reqAcyclic,
      (assertAcyclic_iff htn' (known_taskNodes h.taskDeps) _).2 h.taskAcyclic⟩

/-- A plan is refused with a `ContractError`. -/
theorem postInit_error {e : PyExn} (h : p.postInit = .error e) : ∃ msg, e = contractError msg := by
  simp only [postInit, bind_eq_error] at h
  rcases h with h | ⟨_, -, h | ⟨_, -, h | ⟨_, -, h | ⟨_, -, h | ⟨_, -, h | ⟨_, -, h⟩⟩⟩⟩⟩⟩
  · exact ⟨_, require_eq_error h⟩
  · exact ⟨_, require_eq_error h⟩
  · exact ⟨_, require_eq_error h⟩
  · exact ⟨_, require_eq_error h⟩
  · exact ⟨_, require_eq_error h⟩
  · have hne : assertAcyclic p.reqNodes "requirement" ≠ .ok () := by
      rw [h]
      exact fun hc => by cases hc
    exact ⟨_, Except.error.inj (h.symm.trans (assertAcyclic_error hne))⟩
  · have hne : assertAcyclic p.taskNodes "task" ≠ .ok () := by
      rw [h]
      exact fun hc => by cases hc
    exact ⟨_, Except.error.inj (h.symm.trans (assertAcyclic_error hne))⟩

theorem make_refused (h : ¬ p.Spec) : ∃ msg, p.make = .error (contractError msg) := by
  cases hp : p.postInit with
  | ok u => exact absurd (postInit_iff.1 hp) h
  | error e =>
      obtain ⟨msg, rfl⟩ := postInit_error hp
      exact ⟨msg, PlanData.make_error hp⟩

end PlanData

theorem ExecutionPlan.spec (p : ExecutionPlan) : p.toPlanData.Spec := PlanData.postInit_iff.1 p.valid

/-! ## The payload and its hash -/

variable [FloatModel]

/-- `Requirement.to_dict()`. -/
def RequirementData.toDict (r : RequirementData) : Fields :=
  [(lit "id", .str r.id), (lit "statement", .str r.statement),
    (lit "acceptance", strings r.acceptance), (lit "depends_on", strings r.dependsOn)]

/-- `FactoryTask.to_dict()`. -/
def TaskData.toDict (t : TaskData) : Fields :=
  [(lit "id", .str t.id), (lit "description", .str t.description),
    (lit "requirement_ids", strings t.requirementIds), (lit "depends_on", strings t.dependsOn),
    (lit "swarm", optionalString t.swarm)]

namespace PlanData

variable (p : PlanData)

/-- `sorted(self.requirements, key=lambda x: x.id)`. -/
def sortedRequirements : List Requirement := p.requirements.insertionSort fun r s => r.id ≤ s.id

/-- `sorted(self.tasks, key=lambda x: x.id)`. -/
def sortedTasks : List FactoryTask := p.tasks.insertionSort fun t u => t.id ≤ u.id

/-- `canonical_payload()`. -/
def canonicalPayload : Fields :=
  [(lit "schema_version", .str p.schemaVersion), (lit "intent", .str (strip p.intent)),
    (lit "requirements", .arr (p.sortedRequirements.map fun r => .obj r.toDict)),
    (lit "tasks", .arr (p.sortedTasks.map fun t => .obj t.toDict))]

/-- `graph_hash`. -/
def graphHash : Except PyExn Str := digest (.obj p.canonicalPayload)

/-- `to_dict()`. -/
def toDict : Except PyExn Fields := do
  let hash ← p.graphHash
  return p.canonicalPayload ++ [(lit "graph_hash", Json.str hash)]

/-- `dump_plan(plan)`. -/
def dumpPlan : Except PyExn Str := do
  canonical (.obj (← p.toDict))

end PlanData

/-! ## Reading a plan -/

/-- A string, or an exception. -/
def textOr (e : PyExn) : Json → Except PyExn Str
  | .str s => .ok s
  | _ => .error e

/-- `tuple(v)`. -/
def tupleOf (v : Json) : Except PyExn (List Json) :=
  match iterate v with
  | some xs => .ok xs
  | none => .error .typeError

/-- `item.get(key, [])`, for a dictionary. -/
def getList (item : Json) (key : Str) : Json :=
  match item.item key with
  | .ok v => v
  | .error _ => .arr []

/-- A requirement of `ExecutionPlan.from_dict`. -/
def requirementOf (item : Json) : Except PyExn Requirement := do
  let id ← textOr (contractError "invalid identifier") (← item.item (lit "id"))
  let statement ← textOr (contractError "requirement statement must be nonempty")
    (← item.item (lit "statement"))
  let acceptance ← mapE (textOr
    (contractError "requirement acceptance must contain nonempty criteria"))
    (← tupleOf (← item.item (lit "acceptance")))
  let dependsOn ← mapE (textOr (contractError "unknown requirement dependency"))
    (← tupleOf (getList item (lit "depends_on")))
  RequirementData.make ⟨id, statement, acceptance, dependsOn⟩

/-- `item.get("swarm")`. -/
def swarmOf (item : Json) : Except PyExn (Option Str) :=
  match item.item (lit "swarm") with
  | .ok .null => .ok none
  | .ok v => do
      return some (← textOr (contractError "invalid identifier") v)
  | .error _ => .ok none

/-- A task of `ExecutionPlan.from_dict`. -/
def taskOf (item : Json) : Except PyExn FactoryTask := do
  let id ← textOr (contractError "invalid identifier") (← item.item (lit "id"))
  let description ← textOr (contractError "factory task description must be nonempty")
    (← item.item (lit "description"))
  let requirementIds ← mapE (textOr (contractError "unknown task requirement or dependency"))
    (← tupleOf (← item.item (lit "requirement_ids")))
  let dependsOn ← mapE (textOr (contractError "unknown task requirement or dependency"))
    (← tupleOf (getList item (lit "depends_on")))
  let swarm ← swarmOf item
  TaskData.make ⟨id, description, requirementIds, dependsOn, swarm⟩

/-- The keys of a plan. -/
def planKeys : List Str :=
  [lit "schema_version", lit "intent", lit "requirements", lit "tasks", lit "graph_hash"]

/-- `data.get("schema_version", "factory-plan-v1")`. -/
def schemaOf (data : Fields) : Except PyExn Str :=
  match data.get? (lit "schema_version") with
  | some v => textOr .typeError v
  | none => .ok (lit "factory-plan-v1")

/-- The hash that the data name is the hash of the plan. -/
def checkHash (supplied : Option Json) (plan : ExecutionPlan) : Except PyExn Unit :=
  match supplied with
  | none | some .null => .ok ()
  | some v => do
      let hash ← plan.graphHash
      require (v = .str hash) (contractError "execution plan hash mismatch")

/-- `ExecutionPlan.from_dict(data)` for a dictionary. -/
def ofFields (d : Fields) : Except PyExn ExecutionPlan := do
  require (∀ kv ∈ d, kv.1 ∈ planKeys) (contractError "unknown execution plan keys")
  let reqs ← mapE requirementOf (← tupleOf (← d.get (lit "requirements")))
  let tasks ← mapE taskOf (← tupleOf (← d.get (lit "tasks")))
  let intent ← textOr (contractError "execution plan intent must be nonempty")
    (← d.get (lit "intent"))
  let plan ← PlanData.make ⟨intent, reqs, tasks, ← schemaOf d⟩
  checkHash (d.get? (lit "graph_hash")) plan
  return plan

/-- `ExecutionPlan.from_dict(data)`. -/
def fromDict (data : Json) : Except PyExn ExecutionPlan :=
  match data with
  | .obj d => ofFields d
  | _ => .error (contractError "execution plan must be an object")

/-- `load_plan_text(text)`. -/
def loadPlanText (text : Str) : Except PyExn ExecutionPlan := do
  fromDict (← strictJson text)

/-! ## Approvals -/

/-- `FrozenPlan`. -/
structure FrozenPlan where
  graphHash : Str
  approvedBy : Str
  approvedAt : Str
  schemaVersion : Str

/-- `FrozenPlan.approve(plan, approved_by)`, at a time. -/
def FrozenPlan.approve (plan : ExecutionPlan) (approvedBy now : Str) :
    Except PyExn FrozenPlan := do
  require (isBlank approvedBy = false) (contractError "approved_by must be nonempty")
  return ⟨← plan.graphHash, strip approvedBy, now, lit "factory-approval-v1"⟩

/-- `approval.assert_matches(plan)`. -/
def FrozenPlan.assertMatches (f : FrozenPlan) (plan : ExecutionPlan) : Except PyExn Unit := do
  let hash ← plan.graphHash
  require (f.graphHash = hash) (contractError "approval does not match execution plan")

/-- The copy of the plan that `FactoryRuntime.run` makes. -/
def detach (plan : ExecutionPlan) : Except PyExn ExecutionPlan := do
  fromDict (← strictJson (← canonical (.obj (← plan.toDict))))

end ResidualHarness.Factory.Models
