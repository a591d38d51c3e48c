import ResidualHarness.Factory.Approval

/-!
# The requirement compiler

`RequirementCompiler.compile` of `residual/factory/compiler.py`. A document either yields questions
or a plan. Without tasks in the document, each requirement gets a task of its own, whose id is the
id of the requirement after `task.`: the graph of the tasks is a copy of the graph of the
requirements (`compile_iff`).
-/

set_option autoImplicit false

namespace ResidualHarness.Factory.Models

open Python Core Graph

/-! ## Results -/

/-- `CompileResult`. -/
structure CompileResult where
  plan : Option ExecutionPlan
  questions : List Str

/-- `CompileResult.ready`. -/
def CompileResult.ready (r : CompileResult) : Bool := r.plan.isSome && r.questions.isEmpty

section Compiler

variable [FloatModel]

/-! ## Requirements of a document -/

/-- The variables of the loop over the requirements. -/
structure Reading where
  requirements : List Requirement
  seen : List Str
  questions : List Str

/-- `questions.append(question)`. -/
def Reading.ask (st : Reading) (question : Str) : Reading :=
  { st with questions := st.questions ++ [question] }

/-- `item.get(key)`, if it is a nonblank string. -/
def nonblank (item : Fields) (key : Str) : Option Str :=
  match item.get? key with
  | some (.str s) => if isBlank s then none else some s
  | _ => none

/-- A list of strings. -/
def textList : Json → Option (List Str)
  | .arr xs => xs.mapM asString
  | _ => none

/-- `item.get("acceptance")`, if it is a nonempty list of nonblank strings. -/
def acceptanceOf (item : Fields) : Option (List Str) :=
  match (item.get? (lit "acceptance")).bind textList with
  | some xs => if xs = [] ∨ ∃ x ∈ xs, isBlank x = true then none else some xs
  | none => none

/-- `item.get("depends_on", [])`, which has to be a list of strings. -/
def dependenciesOf (item : Fields) (e : PyExn) : Except PyExn (List Str) :=
  match item.get? (lit "depends_on") with
  | none => .ok []
  | some v =>
      match textList v with
      | some xs => .ok xs
      | none => .error e

/-- The part of a turn after the checks of the id. -/
def readBody (st : Reading) (item : Fields) (reqId : Str) : Except PyExn Reading :=
  match nonblank item (lit "statement"), acceptanceOf item with
  | none, _ => .ok (st.ask (lit "What exactly must " ++ reqId ++ lit " require?"))
  | some _, none => .ok (st.ask (lit "What observable acceptance criteria prove " ++ reqId ++
      lit " is complete?"))
  | some statement, some acceptance => do
      let dependsOn ← dependenciesOf item
        (contractError "requirement depends_on must be an array of ids")
      let r ← RequirementData.make ⟨reqId, strip statement, acceptance.map strip, dependsOn⟩
      return { st with requirements := st.requirements ++ [r] }

/-- A turn of the loop for a dictionary. -/
def readFields (index : Nat) (st : Reading) (item : Fields) : Except PyExn Reading :=
  match item.get? (lit "id") with
  | some (.str reqId) => do
      identifier reqId
      require (reqId ∉ st.seen) (contractError "duplicate requirement id")
      readBody { st with seen := st.seen ++ [reqId] } item reqId
  | _ => .ok (st.ask (lit "Requirement " ++ natRepr index ++ lit " needs a stable id."))

/-- A turn of the loop over the requirements. -/
def readItem (index : Nat) (st : Reading) : Json → Except PyExn Reading
  | .obj item => readFields index st item
  | _ => .error (contractError "requirement entries must be objects")

/-- The loop over the requirements. -/
def readItems : Nat → Reading → List Json → Except PyExn Reading
  | _, st, [] => .ok st
  | index, st, item :: items => do
      let st ← readItem index st item
      readItems (index + 1) st items

/-! ## Tasks -/

/-- `d[key]`. -/
def itemOf (d : Dict Str Str) (key : Str) : Except PyExn Str :=
  match d.get? key with
  | some v => .ok v
  | none => .error .keyError

/-- `f"task.{req.id}"`. -/
def taskId (reqId : Str) : Str := lit "task." ++ reqId

/-- `{req.id: f"task.{req.id}" for req in requirements}`. -/
def reqToTask (requirements : List Requirement) : Dict Str Str :=
  Dict.ofPairs (requirements.map fun r => (r.id, taskId r.id))

/-- An element of the list that `_derive_tasks` returns. -/
def deriveTask (reqToTask : Dict Str Str) (r : Requirement) : Except PyExn FactoryTask := do
  let id ← itemOf reqToTask r.id
  let dependsOn ← mapE (itemOf reqToTask) r.dependsOn
  TaskData.make ⟨id, r.statement, [r.id], dependsOn, none⟩

/-- `_derive_tasks(requirements)`. -/
def deriveTasks (requirements : List Requirement) : Except PyExn (List FactoryTask) :=
  mapE (deriveTask (reqToTask requirements)) (requirements.insertionSort fun r s => r.id ≤ s.id)

/-- The keys of a task. -/
def taskKeys : List Str :=
  [lit "id", lit "description", lit "requirement_ids", lit "depends_on", lit "swarm"]

/-- `item.get("requirement_ids")`, which has to be a nonempty list of strings. -/
def boundIds (item : Fields) : Except PyExn (List Str) :=
  match (item.get? (lit "requirement_ids")).bind textList with
  | some (x :: xs) => .ok (x :: xs)
  | _ => .error (contractError "factory task requirement_ids must be a nonempty array")

/-- A turn of `_parse_tasks` for a dictionary. -/
def parseFields (reqIds : List Str) (item : Fields) : Except PyExn FactoryTask := do
  require (∀ kv ∈ item, kv.1 ∈ taskKeys) (contractError "unknown factory task keys")
  let requirementIds ← boundIds item
  require (requirementIds ⊆ reqIds) (contractError "factory task references unknown requirement")
  let dependsOn ← dependenciesOf item (contractError "factory task depends_on must be an array")
  let id ← textOr (contractError "invalid identifier") (← item.get (lit "id"))
  let description ← textOr (contractError "factory task description must be nonempty")
    (← item.get (lit "description"))
  let swarm ← swarmOf (.obj item)
  TaskData.make ⟨id, description, requirementIds, dependsOn, swarm⟩

/-- A turn of `_parse_tasks`. -/
def parseTask (reqIds : List Str) : Json → Except PyExn FactoryTask
  | .obj item => parseFields reqIds item
  | _ => .error (contractError "task entries must be objects")

/-- The tasks of a document: derived ones where it has none. -/
def tasksOf (document : Fields) (requirements : List Requirement) :
    Except PyExn (List FactoryTask) :=
  match document.get? (lit "tasks") with
  | none | some .null => deriveTasks requirements
  | some (.arr (item :: items)) =>
      mapE (parseTask (requirements.map fun r => r.id)) (item :: items)
  | some _ => .error (contractError "tasks must be a nonempty array when supplied")

/-! ## The compiler -/

/-- The keys of a document. -/
def documentKeys : List Str := [lit "intent", lit "requirements", lit "tasks"]

/-- The requirements of a document, if it has some. -/
def rawRequirements (document : Fields) : Option (List Json) :=
  match document.get? (lit "requirements") with
  | some (.arr (item :: items)) => some (item :: items)
  | _ => none

/-- The compilation of a document once its requirements are read without a question. -/
def buildPlan (document : Fields) (intent : Str) (requirements : List Requirement) :
    Except PyExn CompileResult := do
  require (∀ r ∈ requirements, r.dependsOn ⊆ requirements.map fun r => r.id)
    (contractError "unknown requirement dependency")
  let tasks ← tasksOf document requirements
  let plan ← PlanData.make ⟨strip intent, requirements, tasks, lit "factory-plan-v1"⟩
  return ⟨some plan, []⟩

/-- `compile(document)` for a dictionary. -/
def compileFields (document : Fields) : Except PyExn CompileResult := do
  require (∀ kv ∈ document, kv.1 ∈ documentKeys) (contractError "unknown factory input keys")
  let questions := match nonblank document (lit "intent") with
    | some _ => []
    | none => [lit "What is the project intent or desired outcome?"]
  match rawRequirements document with
  | none => return ⟨none, questions ++ [lit "What requirements must the project satisfy?"]⟩
  | some items => do
      let st ← readItems 1 ⟨[], [], questions⟩ items
      match nonblank document (lit "intent"), st.questions with
      | some intent, [] => buildPlan document intent st.requirements
      | _, questions => return ⟨none, questions⟩

/-- `RequirementCompiler.compile(document)`. -/
def compile : Json → Except PyExn CompileResult
  | .obj document => compileFields document
  | _ => .error (contractError "factory input must be an object")

/-! ## Reading a well-formed document -/

/-- A dictionary that describes a requirement, whose texts are stripped. -/
def Describes (item : Json) (r : RequirementData) : Prop :=
  ∃ (d : Fields) (statement : Str) (acceptance : List Str), item = .obj d ∧
    d.get? (lit "id") = some (.str r.id) ∧
    d.get? (lit "statement") = some (.str statement) ∧ isBlank statement = false ∧
    r.statement = strip statement ∧
    d.get? (lit "acceptance") = some (strings acceptance) ∧
    (acceptance ≠ [] ∧ ∀ x ∈ acceptance, isBlank x = false) ∧
    r.acceptance = acceptance.map strip ∧
    (d.get? (lit "depends_on") = some (strings r.dependsOn) ∨
      d.get? (lit "depends_on") = none ∧ r.dependsOn = [])

theorem textList_strings (xs : List Str) : textList (strings xs) = some xs := by
  rw [strings, textList]
  exact (mapM_map_some (f := asString) (g := Json.str) (h := id) fun _ _ => rfl).trans
    (congrArg some (List.map_id xs))

theorem nonblank_eq {d : Fields} {key s : Str} (h : d.get? key = some (.str s))
    (hs : isBlank s = false) : nonblank d key = some s := by
  rw [nonblank, h]
  simp only [hs, Bool.false_eq_true, if_false]

/-- A turn of the loop appends the requirement that the dictionary describes. -/
theorem readItem_describes {item : Json} {r : Requirement} (h : Describes item r.toRequirementData)
    (index : Nat) {st : Reading} (hseen : r.id ∉ st.seen) : readItem index st item =
      .ok ⟨st.requirements ++ [r], st.seen ++ [r.id], st.questions⟩ := by
  obtain ⟨d, statement, acceptance, rfl, hid, hstatement, hblank, hs, haccept, hall, ha, hdeps⟩ := h
  have hacceptance : acceptanceOf d = some acceptance := by
    have hno : ¬ (acceptance = [] ∨ ∃ x ∈ acceptance, isBlank x = true) := by
      rintro (hnil | ⟨x, hx, hb⟩)
      · exact hall.1 hnil
      · rw [hall.2 x hx] at hb
        cases hb
    rw [acceptanceOf, haccept, Option.bind_some, textList_strings]
    exact if_neg hno
  have hdepends : ∀ e, dependenciesOf d e = .ok r.dependsOn := by
    intro e
    rcases hdeps with hdeps | ⟨hdeps, hnil⟩
    · rw [dependenciesOf, hdeps]
      simp only [textList_strings]
    · rw [dependenciesOf, hdeps, hnil]
  have hdata : (⟨r.id, strip statement, acceptance.map strip, r.dependsOn⟩ : RequirementData) =
      r.toRequirementData := by
    rw [← hs, ← ha]
  have hidentifier := (RequirementData.postInit_iff.1 r.valid).1
  rw [readItem, readFields, hid]
  refine bind_eq_ok.2 ⟨(), require_of hidentifier, bind_eq_ok.2 ⟨(), require_of hseen, ?_⟩⟩
  rw [readBody, nonblank_eq hstatement hblank, hacceptance]
  refine bind_eq_ok.2 ⟨_, hdepends _, bind_eq_ok.2 ⟨r, ?_, rfl⟩⟩
  rw [hdata]
  exact RequirementData.make_ok r.valid

theorem readItems_describes {items : List Json} {reqs : List Requirement}
    (h : List.Forall₂ (fun item r => Describes item r.toRequirementData) items reqs) (index : Nat)
    (st : Reading) (hnd : (st.seen ++ reqs.map fun r => r.id).Nodup) : ∃ seen,
      readItems index st items = .ok ⟨st.requirements ++ reqs, seen, st.questions⟩ := by
  induction h generalizing index st with
  | nil => exact ⟨st.seen, by rw [readItems, List.append_nil]⟩
  | @cons item r items reqs hitem _ ih =>
      have hseen : r.id ∉ st.seen := by
        intro hmem
        exact List.disjoint_of_nodup_append hnd hmem List.mem_cons_self
      obtain ⟨seen, hrest⟩ := ih (index + 1)
        ⟨st.requirements ++ [r], st.seen ++ [r.id], st.questions⟩
        (by rwa [List.append_assoc, List.singleton_append])
      refine ⟨seen, bind_eq_ok.2 ⟨_, readItem_describes hitem index hseen, ?_⟩⟩
      rw [hrest, List.append_assoc, List.singleton_append]

/-- A document without tasks whose requirements pass their checks. -/
structure WellFormed (document : Fields) (intent : Str) (reqs : List Requirement) : Prop where
  keys : ∀ kv ∈ document, kv.1 ∈ documentKeys
  given : document.get? (lit "intent") = some (.str intent)
  filled : isBlank intent = false
  requirements : ∃ items, document.get? (lit "requirements") = some (.arr items) ∧
    List.Forall₂ (fun item r => Describes item r.toRequirementData) items reqs
  nonempty : reqs ≠ []
  distinct : (reqs.map fun r => r.id).Nodup
  known : ∀ r ∈ reqs, r.dependsOn ⊆ reqs.map fun r => r.id
  noTasks : document.get? (lit "tasks") = none ∨ document.get? (lit "tasks") = some .null

/-- The fields of the plan for some requirements and tasks. -/
def compiledData (intent : Str) (reqs : List Requirement) (tasks : List FactoryTask) : PlanData :=
  ⟨strip intent, reqs, tasks, lit "factory-plan-v1"⟩

/-- A well-formed document is compiled by deriving its tasks. -/
theorem compile_eq {document : Fields} {intent : Str} {reqs : List Requirement}
    (h : WellFormed document intent reqs) : compile (.obj document) = (do
      let tasks ← deriveTasks reqs
      let plan ← PlanData.make (compiledData intent reqs tasks)
      return ⟨some plan, []⟩) := by
  obtain ⟨items, hitems, hdescribes⟩ := h.requirements
  have hraw : rawRequirements document = some items := by
    rw [rawRequirements, hitems]
    cases hdescribes with
    | nil => exact absurd rfl h.nonempty
    | cons => rfl
  have hintent : nonblank document (lit "intent") = some intent := nonblank_eq h.given h.filled
  obtain ⟨seen, hread⟩ := readItems_describes hdescribes 1 ⟨[], [], []⟩ h.distinct
  have htasks : tasksOf document reqs = deriveTasks reqs := by
    rw [tasksOf]
    rcases h.noTasks with hnone | hnull
    · rw [hnone]
    · rw [hnull]
  rw [compile, compileFields, require_of h.keys, hraw]
  simp only [hintent, hread, List.nil_append]
  show buildPlan document intent reqs = _
  rw [buildPlan, require_of h.known, htasks]
  rfl

/-! ## Derived tasks -/

omit [FloatModel] in
theorem taskId_injective : Function.Injective taskId := fun _ _ h => List.append_cancel_left h

omit [FloatModel] in
/-- The prefix has five characters, and an identifier at most 96. -/
theorem isIdentifier_taskId {v : Str} (h : isIdentifier v = true) :
    isIdentifier (taskId v) = true ↔ v.length ≤ 91 := by
  have hall : v.all isNameChar = true := by
    cases v with
    | nil => rfl
    | cons c cs =>
        simp only [isIdentifier, Bool.and_eq_true] at h
        obtain ⟨⟨hc, -⟩, hcs⟩ := h
        have hc' : isNameChar c = true := by simp [isNameChar, hc]
        rw [List.all_cons, hc', hcs]
        rfl
  have hlit : lit "task." = [0x74, 0x61, 0x73, 0x6B, 0x2E] := by decide
  rw [taskId, hlit]
  have hfirst : isLetter 0x74 = true := by decide
  have hrest : ([0x61, 0x73, 0x6B, 0x2E] : Str).all isNameChar = true := by decide
  show isIdentifier (0x74 :: ([0x61, 0x73, 0x6B, 0x2E] ++ v)) = true ↔ _
  rw [isIdentifier, List.all_append, hfirst, hrest, hall]
  simp only [Bool.true_and, Bool.and_true, decide_eq_true_eq, List.length_append, List.length_cons,
    List.length_nil]
  omega

omit [FloatModel] in
/-- The fields of the task that is derived from a requirement. -/
def derivedTask (r : RequirementData) : TaskData :=
  ⟨taskId r.id, r.statement, [r.id], r.dependsOn.map taskId, none⟩

omit [FloatModel] in
theorem derivedTask_valid (r : Requirement) (h : r.id.length ≤ 91) :
    (derivedTask r.toRequirementData).postInit = .ok () := by
  obtain ⟨hid, hstatement, -, hnd⟩ := RequirementData.postInit_iff.1 r.valid
  refine TaskData.postInit_iff.2 ⟨(isIdentifier_taskId hid).2 h, hstatement, List.cons_ne_nil _ _,
    nofun, List.nodup_singleton _, hnd.map taskId_injective⟩

omit [FloatModel] in
theorem derivedTask_refused (r : Requirement) (h : ¬ r.id.length ≤ 91) :
    (derivedTask r.toRequirementData).make = .error (contractError "invalid identifier") := by
  have hid := (RequirementData.postInit_iff.1 r.valid).1
  have hno : ¬ isIdentifier (taskId r.id) = true := fun h' => h ((isIdentifier_taskId hid).1 h')
  refine TaskData.make_error ?_
  rw [TaskData.postInit, identifier, derivedTask, require, if_neg hno]
  rfl

omit [FloatModel] in
/-- A turn of the loop over the requirements makes the derived task. -/
theorem deriveTask_eq {reqs : List Requirement} (hnd : (reqs.map fun r => r.id).Nodup)
    {r : Requirement} (hr : r ∈ reqs) (hknown : r.dependsOn ⊆ reqs.map fun r => r.id) :
    deriveTask (reqToTask reqs) r = (derivedTask r.toRequirementData).make := by
  have hkeys : ((reqs.map fun r => (r.id, taskId r.id)).map Prod.fst).Nodup := by
    rw [List.map_map]
    exact hnd
  have hitem : ∀ v ∈ reqs.map fun r => r.id, itemOf (reqToTask reqs) v = .ok (taskId v) := by
    intro v hv
    obtain ⟨s, hs, rfl⟩ := List.mem_map.1 hv
    rw [itemOf, reqToTask, Dict.ofPairs_of_nodup hkeys,
      Dict.get?_of_mem hkeys (List.mem_map_of_mem hs)]
  rw [deriveTask, hitem r.id (List.mem_map_of_mem hr),
    mapE_eq_map (k := taskId) fun v hv => hitem v (hknown hv)]
  rfl

variable {document : Fields} {intent : Str} {reqs : List Requirement}

/-- Short ids have their tasks, in the order of the ids. -/
theorem deriveTasks_ok (h : WellFormed document intent reqs) (hshort : ∀ r ∈ reqs, r.id.length ≤ 91) :
    ∃ tasks, deriveTasks reqs = .ok tasks ∧ tasks.map FactoryTask.toTaskData =
      (reqs.insertionSort fun r s => r.id ≤ s.id).map fun r => derivedTask r.toRequirementData := by
  have hmake : ∀ r ∈ reqs.insertionSort (fun r s => r.id ≤ s.id), ∃ t : FactoryTask,
      deriveTask (reqToTask reqs) r = .ok t ∧ t.toTaskData = derivedTask r.toRequirementData := by
    intro r hr
    have hr' := (List.mem_insertionSort _).1 hr
    exact ⟨_, (deriveTask_eq h.distinct hr' (h.known r hr')).trans
      (TaskData.make_ok (derivedTask_valid r (hshort r hr'))), rfl⟩
  obtain ⟨tasks, htasks⟩ := exists_mapE fun r hr => (hmake r hr).imp fun _ h => h.1
  refine ⟨tasks, htasks, map_of_mapE htasks fun r hr t ht => ?_⟩
  obtain ⟨u, hu, hdata⟩ := hmake r hr
  rw [hu] at ht
  cases ht
  exact hdata

/-- A longer id has none. -/
theorem deriveTasks_error (h : WellFormed document intent reqs)
    (hlong : ∃ r ∈ reqs, ¬ r.id.length ≤ 91) :
    deriveTasks reqs = .error (contractError "invalid identifier") := by
  obtain ⟨r, hr, hlen⟩ := hlong
  have hr' : r ∈ reqs.insertionSort fun r s => r.id ≤ s.id := (List.mem_insertionSort _).2 hr
  obtain ⟨e, he⟩ := mapE_error hr'
    ((deriveTask_eq h.distinct hr (h.known r hr)).trans (derivedTask_refused r hlen))
  have he' : deriveTasks reqs = .error e := he
  obtain ⟨s, hs, hse⟩ := error_of_mapE he
  have hs' := (List.mem_insertionSort _).1 hs
  have hmake := (deriveTask_eq h.distinct hs' (h.known s hs')).symm.trans hse
  by_cases hshort : s.id.length ≤ 91
  · rw [TaskData.make_ok (derivedTask_valid s hshort)] at hmake
    cases hmake
  · rw [derivedTask_refused s hshort] at hmake
    rw [he', ← Except.error.inj hmake]

/-! ## The compiled plan -/

omit [FloatModel] in
/-- The nodes of the graph of some requirements. -/
def requirementNodes (reqs : List Requirement) : List (Str × List Str) :=
  reqs.map fun r => (r.id, r.dependsOn)

omit [FloatModel] in
/-- The graph of the tasks is the graph of the requirements with `taskId` on its nodes, and each task
has exactly its requirement. -/
structure Copies (plan : PlanData) : Prop where
  nodes : plan.taskIds.Perm (plan.reqIds.map taskId)
  edges : ∀ v ∈ plan.reqIds,
    depsOf plan.taskNodes (taskId v) = (depsOf plan.reqNodes v).map taskId
  bound : ∀ t ∈ plan.tasks, ∃ r ∈ plan.requirements, t.id = taskId r.id ∧ t.requirementIds = [r.id] ∧
    t.description = r.statement ∧ t.swarm = none

omit [FloatModel] in
/-- Some tasks are the derived ones, in the order of their requirements. -/
def Derived (reqs : List Requirement) (tasks : List FactoryTask) : Prop :=
  tasks.map FactoryTask.toTaskData =
    (reqs.insertionSort fun r s => r.id ≤ s.id).map fun r => derivedTask r.toRequirementData

section Derived

variable {tasks : List FactoryTask} (h : Derived reqs tasks)

include h

omit [FloatModel] in
theorem Derived.mem {t : FactoryTask} (ht : t ∈ tasks) :
    ∃ r ∈ reqs, t.toTaskData = derivedTask r.toRequirementData := by
  have hmem := List.mem_map_of_mem (f := FactoryTask.toTaskData) ht
  rw [h] at hmem
  obtain ⟨r, hr, heq⟩ := List.mem_map.1 hmem
  exact ⟨r, (List.mem_insertionSort _).1 hr, heq.symm⟩

omit [FloatModel] in
theorem Derived.exists_task {r : Requirement} (hr : r ∈ reqs) :
    ∃ t ∈ tasks, t.toTaskData = derivedTask r.toRequirementData := by
  have hmem : derivedTask r.toRequirementData ∈ tasks.map FactoryTask.toTaskData := by
    rw [h]
    exact List.mem_map_of_mem ((List.mem_insertionSort _).2 hr)
  exact List.mem_map.1 hmem

omit [FloatModel] in
theorem Derived.taskIds_perm :
    (tasks.map fun t => t.id).Perm ((reqs.map fun r => r.id).map taskId) := by
  have hids : (tasks.map fun t => t.id) =
      (reqs.insertionSort fun r s => r.id ≤ s.id).map fun r => taskId r.id := by
    have heq := congrArg (List.map TaskData.id) h
    rwa [List.map_map, List.map_map] at heq
  rw [hids, List.map_map]
  exact (List.perm_insertionSort _ reqs).map _

end Derived

omit [FloatModel] in
/-- The edges of the derived tasks. -/
theorem derived_edges {tasks : List FactoryTask} (h : Derived reqs tasks)
    (hnd : (reqs.map fun r => r.id).Nodup) {r : Requirement} (hr : r ∈ reqs) :
    depsOf (compiledData intent reqs tasks).taskNodes (taskId r.id) = r.dependsOn.map taskId := by
  obtain ⟨t, ht, hdata⟩ := h.exists_task hr
  have hmem : (taskId r.id, r.dependsOn.map taskId) ∈ (compiledData intent reqs tasks).taskNodes := by
    refine List.mem_map.2 ⟨t, ht, ?_⟩
    rw [hdata]
    rfl
  refine depsOf_of_mem ?_ hmem
  rw [PlanData.keys_taskNodes]
  exact h.taskIds_perm.nodup_iff.2 (hnd.map taskId_injective)

/-- The plan with the derived tasks is valid when the graph of the requirements has no cycle: a cycle
of tasks would be one of requirements. -/
theorem derived_spec {tasks : List FactoryTask} (hw : WellFormed document intent reqs)
    (h : Derived reqs tasks) (hacyclic : AcyclicNodes (requirementNodes reqs)) :
    (compiledData intent reqs tasks).Spec := by
  have hperm := h.taskIds_perm
  have hrn : (Dict.keys (requirementNodes reqs)).Nodup := by
    rw [Dict.keys, requirementNodes, List.map_map]
    exact hw.distinct
  have htn := hperm.nodup_iff.2 (hw.distinct.map taskId_injective)
  have hkeys : Dict.keys (requirementNodes reqs) = reqs.map fun r => r.id := by
    rw [Dict.keys, requirementNodes, List.map_map]
    rfl
  refine ⟨isBlank_strip.trans hw.filled, hw.nonempty, ?_, hw.distinct, htn, hw.known, ?_, ?_,
    hacyclic, ?_⟩
  · intro hnil
    have hlen := hperm.length_eq
    simp only [show tasks = [] from hnil, List.map_nil, List.length_nil, List.length_map] at hlen
    exact hw.nonempty (List.eq_nil_of_length_eq_zero hlen.symm)
  · intro t ht v hv
    obtain ⟨r, hr, hdata⟩ := h.mem ht
    rw [hdata] at hv
    rw [List.mem_singleton.1 hv]
    exact List.mem_map_of_mem hr
  · intro t ht v hv
    obtain ⟨r, hr, hdata⟩ := h.mem ht
    rw [hdata] at hv
    obtain ⟨u, hu, rfl⟩ := List.mem_map.1 hv
    exact hperm.mem_iff.2 (List.mem_map_of_mem (hw.known r hr hu))
  · refine Acyclic.of_hom hacyclic (List.drop 5) fun x hx => ?_
    have hdrop : ∀ v, (taskId v).drop 5 = v := by
      intro v
      have hlit : lit "task." = [0x74, 0x61, 0x73, 0x6B, 0x2E] := by decide
      rw [taskId, hlit]
      rfl
    rw [PlanData.keys_taskNodes] at hx
    obtain ⟨v, hv, rfl⟩ := List.mem_map.1 (hperm.mem_iff.1 hx)
    obtain ⟨r, hr, rfl⟩ := List.mem_map.1 hv
    refine ⟨by rw [hdrop, hkeys]; exact hv, fun d hd => ?_⟩
    rw [derived_edges h hw.distinct hr] at hd
    obtain ⟨u, hu, rfl⟩ := List.mem_map.1 hd
    rw [hdrop, hdrop, depsOf_of_mem hrn (List.mem_map_of_mem hr)]
    exact hu

theorem derived_copies {tasks : List FactoryTask} (hw : WellFormed document intent reqs)
    (h : Derived reqs tasks) : Copies (compiledData intent reqs tasks) where
  nodes := h.taskIds_perm
  edges v hv := by
    obtain ⟨r, hr, rfl⟩ := List.mem_map.1 hv
    have hrn : (Dict.keys (compiledData intent reqs tasks).reqNodes).Nodup := by
      rw [PlanData.keys_reqNodes]
      exact hw.distinct
    rw [derived_edges h hw.distinct hr, depsOf_of_mem hrn (List.mem_map_of_mem hr)]
  bound t ht := by
    obtain ⟨r, hr, hdata⟩ := h.mem ht
    rw [hdata]
    exact ⟨r, hr, rfl, rfl, rfl, rfl⟩

/-- A document whose ids are short is compiled to the plan with its derived tasks. -/
theorem compile_short (hw : WellFormed document intent reqs)
    (hacyclic : AcyclicNodes (requirementNodes reqs)) (hshort : ∀ r ∈ reqs, r.id.length ≤ 91) :
    ∃ (plan : ExecutionPlan) (tasks : List FactoryTask), Derived reqs tasks ∧
      plan.toPlanData = compiledData intent reqs tasks ∧
      compile (.obj document) = .ok ⟨some plan, []⟩ := by
  obtain ⟨tasks, htasks, hderived⟩ := deriveTasks_ok hw hshort
  have hvalid := PlanData.postInit_iff.2 (derived_spec hw hderived hacyclic)
  refine ⟨⟨compiledData intent reqs tasks, hvalid⟩, tasks, hderived, rfl, ?_⟩
  rw [compile_eq hw]
  exact bind_eq_ok.2 ⟨tasks, htasks, bind_eq_ok.2 ⟨_, PlanData.make_ok hvalid, rfl⟩⟩

/-- A compiled document has short ids, and its plan has the derived tasks. -/
theorem compile_plan (hw : WellFormed document intent reqs) {plan : ExecutionPlan}
    (h : compile (.obj document) = .ok ⟨some plan, []⟩) : (∀ r ∈ reqs, r.id.length ≤ 91) ∧
      ∃ tasks, Derived reqs tasks ∧ plan.toPlanData = compiledData intent reqs tasks := by
  rw [compile_eq hw] at h
  obtain ⟨tasks, htasks, h⟩ := bind_eq_ok.1 h
  obtain ⟨made, hmade, h⟩ := bind_eq_ok.1 h
  cases h
  have hshort : ∀ r ∈ reqs, r.id.length ≤ 91 := by
    by_contra hlong
    push Not at hlong
    obtain ⟨r, hr, hlen⟩ := hlong
    rw [deriveTasks_error hw ⟨r, hr, Nat.not_le.2 hlen⟩] at htasks
    cases htasks
  obtain ⟨tasks', htasks', hderived⟩ := deriveTasks_ok hw hshort
  rw [htasks] at htasks'
  cases htasks'
  exact ⟨hshort, tasks, hderived, PlanData.of_make hmade⟩

/-- A cycle of requirements is refused, whether the derived tasks exist or not. -/
theorem compile_cycle (hw : WellFormed document intent reqs)
    (hcycle : ¬ AcyclicNodes (requirementNodes reqs)) :
    ∃ msg, compile (.obj document) = .error (contractError msg) := by
  rw [compile_eq hw]
  by_cases hshort : ∀ r ∈ reqs, r.id.length ≤ 91
  · obtain ⟨tasks, htasks, -⟩ := deriveTasks_ok hw hshort
    obtain ⟨msg, hmsg⟩ := PlanData.make_refused (p := compiledData intent reqs tasks)
      fun hspec => hcycle hspec.reqAcyclic
    exact ⟨msg, bind_eq_error.2 (.inr ⟨tasks, htasks, bind_eq_error.2 (.inl hmsg)⟩)⟩
  · push Not at hshort
    obtain ⟨r, hr, hlen⟩ := hshort
    exact ⟨_, bind_eq_error.2 (.inl (deriveTasks_error hw ⟨r, hr, Nat.not_le.2 hlen⟩))⟩

/-- The order in which the requirements are listed does not change the derived tasks. -/
theorem derived_congr {reqs' : List Requirement} {tasks tasks' : List FactoryTask}
    (hw : WellFormed document intent reqs) (hperm : reqs'.Perm reqs) (h : Derived reqs tasks)
    (h' : Derived reqs' tasks') : tasks' = tasks := by
  have hsorted := sorted_congr (fun r : Requirement => r.id) hperm hw.distinct
  have hdata : tasks'.map FactoryTask.toTaskData = tasks.map FactoryTask.toTaskData := by
    rw [h, h', hsorted]
  exact List.map_injective_iff.2 (fun _ _ => FactoryTask.ext) hdata

/-- The compiler copies the graph of the requirements exactly when their ids leave room for the prefix
of a task id; it refuses cycles, and the order of the requirements does not change the hash. -/
theorem compile_iff (hw : WellFormed document intent reqs) :
    (AcyclicNodes (requirementNodes reqs) →
      ((∃ plan : ExecutionPlan, compile (.obj document) = .ok ⟨some plan, []⟩ ∧
          plan.requirements = reqs ∧ plan.intent = strip intent ∧ Copies plan.toPlanData) ↔
        ∀ r ∈ reqs, r.id.length ≤ 91)) ∧
    (¬ AcyclicNodes (requirementNodes reqs) →
      ∃ msg, compile (.obj document) = .error (contractError msg)) ∧
    ∀ (document' : Fields) (reqs' : List Requirement) (plan plan' : ExecutionPlan),
      WellFormed document' intent reqs' → reqs'.Perm reqs →
      compile (.obj document) = .ok ⟨some plan, []⟩ →
      compile (.obj document') = .ok ⟨some plan', []⟩ → plan'.graphHash = plan.graphHash := by
  refine ⟨fun hacyclic => ⟨?_, fun hshort => ?_⟩, compile_cycle hw,
    fun document' reqs' plan plan' hw' hperm h h' => ?_⟩
  · rintro ⟨plan, h, -⟩
    exact (compile_plan hw h).1
  · obtain ⟨plan, tasks, hderived, hdata, h⟩ := compile_short hw hacyclic hshort
    refine ⟨plan, h, ?_, ?_, ?_⟩
    · rw [hdata]
      rfl
    · rw [hdata]
      rfl
    · rw [hdata]
      exact derived_copies hw hderived
  · obtain ⟨-, tasks, hderived, hdata⟩ := compile_plan hw h
    obtain ⟨-, tasks', hderived', hdata'⟩ := compile_plan hw' h'
    have htasks := derived_congr hw hperm hderived hderived'
    rw [hdata, hdata', htasks]
    exact graphHash_congr (hdata ▸ plan.spec) rfl rfl hperm (List.Perm.refl _)

end Compiler

section Concrete

attribute [local instance] wholeFloats

/-- A document with one requirement. -/
def sampleDocument (id : Str) : Fields :=
  [(lit "intent", .str (lit "ship")),
    (lit "requirements", .arr [.obj [(lit "id", .str id), (lit "statement", .str (lit "holds")),
      (lit "acceptance", strings [lit "shown"])]])]

/-- A requirement whose id has a given number of characters. -/
def idOf (n : Nat) : Str := List.replicate n 0x61

theorem sampleDocument_wellFormed {r : Requirement}
    (h : r.toRequirementData = ⟨r.id, lit "holds", [lit "shown"], []⟩) :
    WellFormed (sampleDocument r.id) (lit "ship") [r] where
  keys := by
    rw [sampleDocument, List.forall_mem_cons, List.forall_mem_singleton]
    show lit "intent" ∈ documentKeys ∧ lit "requirements" ∈ documentKeys
    decide
  given := rfl
  filled := by decide
  requirements := by
    refine ⟨_, rfl, .cons ?_ .nil⟩
    rw [h]
    have hstatement : lit "holds" = strip (lit "holds") := by decide
    have hacceptance : [lit "shown"] = [lit "shown"].map strip := by decide
    exact ⟨_, lit "holds", [lit "shown"], rfl, rfl, rfl, by decide, hstatement, rfl,
      ⟨List.cons_ne_nil _ _, by decide⟩, hacceptance, .inr ⟨rfl, rfl⟩⟩
  nonempty := List.cons_ne_nil _ _
  distinct := List.nodup_singleton _
  known := by
    intro s hs v hv
    rw [List.mem_singleton.1 hs, h] at hv
    cases hv
  noTasks := .inl rfl

/-- Requirements without dependencies. -/
def shortRequirement : Requirement := ⟨⟨idOf 91, lit "holds", [lit "shown"], []⟩, by decide⟩

def longRequirement : Requirement := ⟨⟨idOf 92, lit "holds", [lit "shown"], []⟩, by decide⟩

theorem sample_acyclic {r : Requirement} (h : r.dependsOn = []) :
    AcyclicNodes (requirementNodes [r]) := by
  intro v hv
  obtain ⟨_, _, x, _, _, hd⟩ := Relation.TransGen.tail'_iff.1 hv
  have hnodes : requirementNodes [r] = [(r.id, [])] := by
    rw [requirementNodes, List.map_singleton, h]
  rw [hnodes, depsOf, Dict.get?] at hd
  split at hd <;> cases hd

/-- An id of 91 characters compiles. -/
theorem compile_iff_short : ∃ plan : ExecutionPlan,
    compile (.obj (sampleDocument (idOf 91))) = .ok ⟨some plan, []⟩ ∧ Copies plan.toPlanData := by
  have hw : WellFormed (sampleDocument (idOf 91)) (lit "ship") [shortRequirement] :=
    sampleDocument_wellFormed (r := shortRequirement) rfl
  obtain ⟨plan, h, -, -, hcopies⟩ := ((compile_iff hw).1 (sample_acyclic rfl)).2 (by
    intro r hr
    rw [List.mem_singleton.1 hr]
    decide)
  exact ⟨plan, h, hcopies⟩

/-- A valid id of 92 characters does not, although its document passes every check. -/
theorem long_id_refused : isIdentifier (idOf 92) = true ∧
    WellFormed (sampleDocument (idOf 92)) (lit "ship") [longRequirement] ∧
    AcyclicNodes (requirementNodes [longRequirement]) ∧
    compile (.obj (sampleDocument (idOf 92))) = .error (contractError "invalid identifier") := by
  have hw : WellFormed (sampleDocument (idOf 92)) (lit "ship") [longRequirement] :=
    sampleDocument_wellFormed (r := longRequirement) rfl
  refine ⟨by decide, hw, sample_acyclic rfl, ?_⟩
  rw [compile_eq hw]
  exact bind_eq_error.2 (.inl (deriveTasks_error hw ⟨longRequirement, List.mem_singleton_self _,
    by decide⟩))

end Concrete

end ResidualHarness.Factory.Models
