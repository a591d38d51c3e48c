import Mathlib.Data.List.DropRight
import ResidualHarness.Factory.IntegrationPlan
import ResidualHarness.Factory.Models

/-!
# Approvals bind plans

A plan is read back from its text with its hash (`loadPlanText_dumpPlan`), the hash does not depend
on the order of requirements and tasks (`graphHash_congr`), and it tells apart plans with different
content (`graphHash_eq_iff`). `ReceiptBackedM4.ready_dag` of `residual/factory/m4_evidence.py` is
the view of the tasks of a plan that receipts leave open.
-/

set_option autoImplicit false

namespace ResidualHarness.Factory.Models

open Python Core Graph

/-! ## Stripped texts -/

theorem strip_strip (s : Str) : strip (strip s) = strip s := by
  have hhead : (strip s).dropWhile isSpace = strip s := by
    rw [List.dropWhile_eq_self_iff]
    intro hlen
    -- the first character of the stripped text is the first one after the leading blanks
    obtain ⟨rest, hrest⟩ : strip s <+: s.dropWhile isSpace := List.rdropWhile_prefix isSpace _
    have hpos : 0 < (s.dropWhile isSpace).length := by
      rw [← hrest, List.length_append]
      exact Nat.add_pos_left hlen _
    have hnot := List.dropWhile_get_zero_not isSpace s hpos
    have hget : (s.dropWhile isSpace)[0] = (strip s)[0] := by
      simp only [← hrest]
      exact List.getElem_append_left hlen
    rwa [List.get_eq_getElem, hget] at hnot
  have hlast : ∀ t : Str, strip t = (t.dropWhile isSpace).rdropWhile isSpace := fun _ => rfl
  rw [hlast (strip s), hhead, hlast s, List.rdropWhile_idempotent]

theorem isBlank_strip {s : Str} : isBlank (strip s) = isBlank s := by
  have hmem : ∀ {t : Str} {c : CodePoint}, c ∈ t → isSpace c = false → c ∈ t.dropWhile isSpace := by
    intro t c hc hn
    rw [← List.takeWhile_append_dropWhile (p := isSpace) (l := t)] at hc
    rcases List.mem_append.1 hc with hc | hc
    · rw [List.mem_takeWhile_imp hc] at hn
      cases hn
    · exact hc
  rw [Bool.eq_iff_iff, isBlank, isBlank, List.all_eq_true, List.all_eq_true]
  constructor
  · intro h c hc
    by_contra hn
    have hn' : isSpace c = false := by simpa using hn
    have h1 := hmem (List.mem_reverse.2 (hmem hc hn')) hn'
    exact hn (h c (List.mem_reverse.2 h1))
  · intro h c hc
    have h1 := (List.dropWhile_suffix isSpace).subset (List.mem_reverse.1 hc)
    exact h c ((List.dropWhile_suffix isSpace).subset (List.mem_reverse.1 h1))

/-! ## Texts that can be hashed -/

variable {p q : PlanData}

theorem PlanData.identifier_requirement {v : Str} (hv : v ∈ p.reqIds) : isIdentifier v = true := by
  obtain ⟨r, -, rfl⟩ := List.mem_map.1 hv
  exact (RequirementData.postInit_iff.1 r.valid).1

theorem PlanData.identifier_task {v : Str} (hv : v ∈ p.taskIds) : isIdentifier v = true := by
  obtain ⟨t, -, rfl⟩ := List.mem_map.1 hv
  exact (TaskData.postInit_iff.1 t.valid).1

/-- UTF-8 encodes the texts of a plan: none of them has a lone surrogate. -/
structure PlanData.Encodable (p : PlanData) : Prop where
  intent : encodable (strip p.intent) = true
  schemaVersion : encodable p.schemaVersion = true
  statements : ∀ r ∈ p.requirements, encodable r.statement = true
  acceptance : ∀ r ∈ p.requirements, ∀ x ∈ r.acceptance, encodable x = true
  descriptions : ∀ t ∈ p.tasks, encodable t.description = true

section Hash

variable [FloatModel]

theorem digestible_requirement {r : Requirement} (hdeps : r.dependsOn ⊆ p.reqIds) :
    Digestible (.obj r.toDict) ↔
      encodable r.statement = true ∧ ∀ x ∈ r.acceptance, encodable x = true := by
  have hid := encodable_of_isIdentifier (RequirementData.postInit_iff.1 r.valid).1
  have hd : ∀ x ∈ r.dependsOn, encodable x = true :=
    fun x hx => encodable_of_isIdentifier (PlanData.identifier_requirement (hdeps hx))
  rw [digestible_obj]
  simp only [RequirementData.toDict, List.forall_mem_cons, encodable_lit, digestible_str,
    digestible_strings, true_and, List.not_mem_nil, false_imp_iff, implies_true, and_true]
  exact ⟨fun h => ⟨h.2.1, h.2.2.1⟩, fun h => ⟨hid, h.1, h.2, hd⟩⟩

theorem digestible_task {t : FactoryTask} (hreqs : t.requirementIds ⊆ p.reqIds)
    (hdeps : t.dependsOn ⊆ p.taskIds) :
    Digestible (.obj t.toDict) ↔ encodable t.description = true := by
  obtain ⟨hid, -, -, hswarm, -⟩ := TaskData.postInit_iff.1 t.valid
  have hr : ∀ x ∈ t.requirementIds, encodable x = true :=
    fun x hx => encodable_of_isIdentifier (PlanData.identifier_requirement (hreqs hx))
  have hd : ∀ x ∈ t.dependsOn, encodable x = true :=
    fun x hx => encodable_of_isIdentifier (PlanData.identifier_task (hdeps hx))
  rw [digestible_obj]
  simp only [TaskData.toDict, List.forall_mem_cons, encodable_lit, digestible_str,
    digestible_strings, digestible_optionalString, true_and, List.not_mem_nil, false_imp_iff,
    implies_true, and_true]
  exact ⟨fun h => h.2.1, fun h => ⟨encodable_of_isIdentifier hid, h, hr, hd,
    fun s hs => encodable_of_isIdentifier (hswarm s hs)⟩⟩

/-- The payload of a plan can be hashed exactly when its texts can be encoded. -/
theorem digestible_payload (h : p.Spec) : Digestible (.obj p.canonicalPayload) ↔ p.Encodable := by
  have hreq : ∀ r ∈ p.requirements, (Digestible (.obj r.toDict) ↔
      encodable r.statement = true ∧ ∀ x ∈ r.acceptance, encodable x = true) :=
    fun r hr => digestible_requirement (h.reqDeps r hr)
  have htask : ∀ t ∈ p.tasks, (Digestible (.obj t.toDict) ↔ encodable t.description = true) :=
    fun t ht => digestible_task (h.bound t ht) (h.taskDeps t ht)
  rw [digestible_obj]
  simp only [PlanData.canonicalPayload, List.forall_mem_cons, encodable_lit, digestible_str,
    digestible_arr, List.forall_mem_map, PlanData.sortedRequirements, PlanData.sortedTasks,
    List.mem_insertionSort, true_and, List.not_mem_nil, false_imp_iff, implies_true, and_true]
  constructor
  · rintro ⟨hschema, hintent, hreqs, htasks⟩
    exact ⟨hintent, hschema, fun r hr => ((hreq r hr).1 (hreqs r hr)).1,
      fun r hr => ((hreq r hr).1 (hreqs r hr)).2, fun t ht => (htask t ht).1 (htasks t ht)⟩
  · intro he
    exact ⟨he.schemaVersion, he.intent,
      fun r hr => (hreq r hr).2 ⟨he.statements r hr, he.acceptance r hr⟩,
      fun t ht => (htask t ht).2 (he.descriptions t ht)⟩

/-! ## The order of requirements and tasks -/

omit [FloatModel] in
theorem sortedRequirements_perm (p : PlanData) : p.sortedRequirements.Perm p.requirements :=
  List.perm_insertionSort _ _

omit [FloatModel] in
theorem sortedTasks_perm (p : PlanData) : p.sortedTasks.Perm p.tasks := List.perm_insertionSort _ _

/-- The payload does not depend on the order of requirements and tasks. -/
theorem canonicalPayload_congr (h : p.Spec) (hintent : strip q.intent = strip p.intent)
    (hschema : q.schemaVersion = p.schemaVersion) (hreqs : q.requirements.Perm p.requirements)
    (htasks : q.tasks.Perm p.tasks) : q.canonicalPayload = p.canonicalPayload := by
  have hr : q.sortedRequirements = p.sortedRequirements :=
    sorted_congr (fun r : Requirement => r.id) hreqs h.reqIds
  have ht : q.sortedTasks = p.sortedTasks :=
    sorted_congr (fun t : FactoryTask => t.id) htasks h.taskIds
  rw [PlanData.canonicalPayload, PlanData.canonicalPayload, hr, ht, hintent, hschema]

theorem graphHash_congr (h : p.Spec) (hintent : strip q.intent = strip p.intent)
    (hschema : q.schemaVersion = p.schemaVersion) (hreqs : q.requirements.Perm p.requirements)
    (htasks : q.tasks.Perm p.tasks) : q.graphHash = p.graphHash := by
  rw [PlanData.graphHash, PlanData.graphHash, canonicalPayload_congr h hintent hschema hreqs htasks]

theorem graphHash_eq_ok_iff (h : p.Spec) {hash : Str} :
    p.graphHash = .ok hash ↔ p.Encodable ∧ hash = digestText (.obj p.canonicalPayload) := by
  rw [PlanData.graphHash, digest_eq_ok_iff, digestible_payload h]

/-! ## Reading a plan back -/

theorem item_norm {d : Fields} (hnd : (d.map Prod.fst).Nodup) {k : Str} {v : Json}
    (h : (k, v) ∈ d) : (Json.obj d).norm.item k = .ok v.norm := by
  have hget := Fields.get?_norm hnd k
  rw [Fields.get?_of_mem hnd h] at hget
  rw [Fields.obj_norm, Json.item, show d.norm.lookup k = some v.norm from hget]

theorem mapE_textOr (e : PyExn) (xs : List Str) : mapE (textOr e) (xs.map Json.str) = .ok xs := by
  rw [mapE_map (f := textOr e) (g := Json.str) (k := id) fun _ _ => rfl, List.map_id]

theorem RequirementData.toDict_nodup (r : RequirementData) : (r.toDict.map Prod.fst).Nodup := by
  have hkeys : r.toDict.map Prod.fst =
    [lit "id", lit "statement", lit "acceptance", lit "depends_on"] := rfl
  rw [hkeys]
  decide

theorem requirementOf_norm (r : Requirement) : requirementOf (Json.obj r.toDict).norm = .ok r := by
  have hitem : ∀ {k : Str} {v : Json}, (k, v) ∈ r.toDict →
      (Json.obj r.toDict).norm.item k = .ok v.norm := item_norm r.toDict_nodup
  have hdeps := hitem (k := lit "depends_on") (v := strings r.dependsOn)
    (by simp [RequirementData.toDict])
  rw [strings_norm] at hdeps
  rw [requirementOf]
  refine bind_eq_ok.2 ⟨_, hitem (v := .str r.id) (by simp [RequirementData.toDict]),
    bind_eq_ok.2 ⟨r.id, rfl, ?_⟩⟩
  refine bind_eq_ok.2 ⟨_, hitem (v := .str r.statement) (by simp [RequirementData.toDict]),
    bind_eq_ok.2 ⟨r.statement, rfl, ?_⟩⟩
  refine bind_eq_ok.2 ⟨_, hitem (v := strings r.acceptance) (by simp [RequirementData.toDict]), ?_⟩
  rw [strings_norm]
  refine bind_eq_ok.2 ⟨_, rfl, bind_eq_ok.2 ⟨r.acceptance, mapE_textOr _ _, ?_⟩⟩
  rw [getList, hdeps]
  exact bind_eq_ok.2 ⟨_, rfl, bind_eq_ok.2 ⟨r.dependsOn, mapE_textOr _ _,
    RequirementData.make_ok r.valid⟩⟩

theorem TaskData.toDict_nodup (t : TaskData) : (t.toDict.map Prod.fst).Nodup := by
  have hkeys : t.toDict.map Prod.fst =
    [lit "id", lit "description", lit "requirement_ids", lit "depends_on", lit "swarm"] := rfl
  rw [hkeys]
  decide

theorem swarmOf_norm (t : TaskData) : swarmOf (Json.obj t.toDict).norm = .ok t.swarm := by
  have hitem := item_norm t.toDict_nodup (k := lit "swarm") (v := optionalString t.swarm)
    (by simp [TaskData.toDict])
  rw [optionalString_norm] at hitem
  rw [swarmOf, hitem]
  cases t.swarm <;> rfl

theorem taskOf_norm (t : FactoryTask) : taskOf (Json.obj t.toDict).norm = .ok t := by
  have hitem : ∀ {k : Str} {v : Json}, (k, v) ∈ t.toDict →
      (Json.obj t.toDict).norm.item k = .ok v.norm := item_norm t.toDict_nodup
  have hdeps := hitem (k := lit "depends_on") (v := strings t.dependsOn)
    (by simp [TaskData.toDict])
  rw [strings_norm] at hdeps
  rw [taskOf]
  refine bind_eq_ok.2 ⟨_, hitem (v := .str t.id) (by simp [TaskData.toDict]),
    bind_eq_ok.2 ⟨t.id, rfl, ?_⟩⟩
  refine bind_eq_ok.2 ⟨_, hitem (v := .str t.description) (by simp [TaskData.toDict]),
    bind_eq_ok.2 ⟨t.description, rfl, ?_⟩⟩
  refine bind_eq_ok.2 ⟨_, hitem (v := strings t.requirementIds) (by simp [TaskData.toDict]), ?_⟩
  rw [strings_norm]
  refine bind_eq_ok.2 ⟨_, rfl, bind_eq_ok.2 ⟨t.requirementIds, mapE_textOr _ _, ?_⟩⟩
  rw [getList, hdeps]
  exact bind_eq_ok.2 ⟨_, rfl, bind_eq_ok.2 ⟨t.dependsOn, mapE_textOr _ _,
    bind_eq_ok.2 ⟨_, swarmOf_norm t.toTaskData, TaskData.make_ok t.valid⟩⟩⟩

theorem requirement_wf (r : RequirementData) : (Json.obj r.toDict).wf = true := by
  rw [Json.wf, Bool.and_eq_true, decide_eq_true_eq, Json.wfFields_iff]
  refine ⟨r.toDict_nodup, ?_⟩
  simp only [RequirementData.toDict, List.forall_mem_cons, Json.wf, strings_wf, List.not_mem_nil,
    false_imp_iff, implies_true, and_self]

theorem task_wf (t : TaskData) : (Json.obj t.toDict).wf = true := by
  rw [Json.wf, Bool.and_eq_true, decide_eq_true_eq, Json.wfFields_iff]
  refine ⟨t.toDict_nodup, ?_⟩
  simp only [TaskData.toDict, List.forall_mem_cons, Json.wf, strings_wf, optionalString_wf,
    List.not_mem_nil, false_imp_iff, implies_true, and_self]

theorem wf_objects {α : Type} {f : α → Fields} (h : ∀ x, (Json.obj (f x)).wf = true) (xs : List α) :
    (Json.arr (xs.map fun x => .obj (f x))).wf = true := by
  rw [Json.wf, Json.wfElems_iff]
  intro v hv
  obtain ⟨x, -, rfl⟩ := List.mem_map.1 hv
  exact h x

theorem payload_keys (p : PlanData) : p.canonicalPayload.map Prod.fst =
    [lit "schema_version", lit "intent", lit "requirements", lit "tasks"] := rfl

theorem payload_nodup (p : PlanData) : (p.canonicalPayload.map Prod.fst).Nodup := by
  rw [payload_keys]
  decide

theorem payload_wf (p : PlanData) : (Json.obj p.canonicalPayload).wf = true := by
  rw [Json.wf, Bool.and_eq_true, decide_eq_true_eq, Json.wfFields_iff]
  refine ⟨payload_nodup p, ?_⟩
  simp only [PlanData.canonicalPayload, List.forall_mem_cons, List.not_mem_nil, false_imp_iff,
    implies_true, and_true]
  exact ⟨rfl, rfl, wf_objects (fun r : Requirement => requirement_wf r.toRequirementData) _,
    wf_objects (fun t : FactoryTask => task_wf t.toTaskData) _⟩

/-- The payload with its hash. -/
def PlanData.hashed (p : PlanData) (hash : Str) : Fields :=
  p.canonicalPayload ++ [(lit "graph_hash", Json.str hash)]

theorem hashed_keys (p : PlanData) (hash : Str) : (p.hashed hash).map Prod.fst = planKeys := rfl

theorem hashed_nodup (p : PlanData) (hash : Str) : ((p.hashed hash).map Prod.fst).Nodup := by
  rw [hashed_keys]
  decide

theorem hashed_wf (p : PlanData) (hash : Str) : (Json.obj (p.hashed hash)).wf = true := by
  have hp := payload_wf p
  rw [Json.wf, Bool.and_eq_true, decide_eq_true_eq, Json.wfFields_iff] at hp ⊢
  refine ⟨hashed_nodup p hash, ?_⟩
  intro kv hkv
  rcases List.mem_append.1 hkv with hkv | hkv
  · exact hp.2 kv hkv
  · rw [List.mem_singleton.1 hkv]
    rfl

omit [FloatModel] in
/-- A plan stays valid when its intent is stripped and its requirements and tasks are reordered. -/
theorem PlanData.Spec.congr (h : p.Spec) (hintent : isBlank q.intent = isBlank p.intent)
    (hreqs : q.requirements.Perm p.requirements) (htasks : q.tasks.Perm p.tasks) : q.Spec := by
  have hr : q.reqIds.Perm p.reqIds := hreqs.map _
  have ht : q.taskIds.Perm p.taskIds := htasks.map _
  have hrn : (Dict.keys p.reqNodes).Nodup := by
    rw [PlanData.keys_reqNodes]
    exact h.reqIds
  have htn : (Dict.keys p.taskNodes).Nodup := by
    rw [PlanData.keys_taskNodes]
    exact h.taskIds
  refine ⟨hintent.trans h.intent, ?_, ?_, hr.nodup_iff.2 h.reqIds, ht.nodup_iff.2 h.taskIds, ?_, ?_, ?_,
    h.reqAcyclic.perm hrn (hreqs.map _), h.taskAcyclic.perm htn (htasks.map _)⟩
  · intro hnil
    exact h.requirements (List.Perm.eq_nil (hnil ▸ hreqs.symm))
  · intro hnil
    exact h.tasks (List.Perm.eq_nil (hnil ▸ htasks.symm))
  · intro r hmem v hv
    exact hr.mem_iff.2 (h.reqDeps r (hreqs.mem_iff.1 hmem) hv)
  · intro t hmem v hv
    exact hr.mem_iff.2 (h.bound t (htasks.mem_iff.1 hmem) hv)
  · intro t hmem v hv
    exact ht.mem_iff.2 (h.taskDeps t (htasks.mem_iff.1 hmem) hv)

omit [FloatModel] in
/-- The fields of the plan that is read from the text of `p`. -/
def PlanData.copied (p : PlanData) : PlanData :=
  ⟨strip p.intent, p.sortedRequirements, p.sortedTasks, p.schemaVersion⟩

omit [FloatModel] in
theorem copied_spec (h : p.Spec) : p.copied.Spec :=
  h.congr isBlank_strip (sortedRequirements_perm p) (sortedTasks_perm p)

theorem copied_payload (h : p.Spec) : p.copied.canonicalPayload = p.canonicalPayload :=
  canonicalPayload_congr h (strip_strip p.intent) rfl (sortedRequirements_perm p) (sortedTasks_perm p)

theorem copied_graphHash (h : p.Spec) : p.copied.graphHash = p.graphHash := by
  rw [PlanData.graphHash, PlanData.graphHash, copied_payload h]

/-- A plan that has the fields of the copy. -/
theorem ofFields_hashed (h : p.Spec) {hash : Str} (hhash : p.graphHash = .ok hash) :
    ∃ plan : ExecutionPlan, plan.toPlanData = p.copied ∧
      ofFields (p.hashed hash).norm = .ok plan := by
  have hget : ∀ {k : Str} {v : Json}, (k, v) ∈ p.hashed hash →
      (p.hashed hash).norm.get? k = some v.norm := by
    intro key v hm
    rw [Fields.get?_norm (hashed_nodup p hash), Fields.get?_of_mem (hashed_nodup p hash) hm]
    rfl
  have hkeys : ∀ kv ∈ (p.hashed hash).norm, kv.1 ∈ planKeys := by
    intro kv hkv
    obtain ⟨kw, hkw, rfl⟩ := List.mem_map.1 hkv
    exact List.mem_map_of_mem (f := Prod.fst) (mem_sortFields.1 hkw)
  have hreqs := Fields.get_of_get? (hget (k := lit "requirements")
    (v := .arr (p.sortedRequirements.map fun r => .obj r.toDict))
    (by simp [PlanData.hashed, PlanData.canonicalPayload]))
  have htasks := Fields.get_of_get? (hget (k := lit "tasks")
    (v := .arr (p.sortedTasks.map fun t => .obj t.toDict))
    (by simp [PlanData.hashed, PlanData.canonicalPayload]))
  have hintent := Fields.get_of_get? (hget (k := lit "intent") (v := .str (strip p.intent))
    (by simp [PlanData.hashed, PlanData.canonicalPayload]))
  have hschema : schemaOf (p.hashed hash).norm = .ok p.schemaVersion := by
    rw [schemaOf, hget (v := .str p.schemaVersion)
      (by simp [PlanData.hashed, PlanData.canonicalPayload])]
    rfl
  have hsupplied := hget (k := lit "graph_hash") (v := .str hash) (by simp [PlanData.hashed])
  rw [Json.norm_arr, List.map_map] at hreqs htasks
  have hvalid := PlanData.postInit_iff.2 (copied_spec h)
  refine ⟨⟨p.copied, hvalid⟩, rfl, ?_⟩
  rw [ofFields]
  refine bind_eq_ok.2 ⟨(), require_of hkeys, bind_eq_ok.2 ⟨_, hreqs, bind_eq_ok.2 ⟨_, rfl, ?_⟩⟩⟩
  refine bind_eq_ok.2 ⟨p.sortedRequirements, ?_, ?_⟩
  · exact (mapE_map (k := id) fun r _ => requirementOf_norm r).trans
      (congrArg Except.ok (List.map_id _))
  refine bind_eq_ok.2 ⟨_, htasks, bind_eq_ok.2 ⟨_, rfl, bind_eq_ok.2 ⟨p.sortedTasks, ?_, ?_⟩⟩⟩
  · exact (mapE_map (k := id) fun t _ => taskOf_norm t).trans
      (congrArg Except.ok (List.map_id _))
  refine bind_eq_ok.2 ⟨_, hintent, bind_eq_ok.2 ⟨strip p.intent, rfl,
    bind_eq_ok.2 ⟨_, hschema, bind_eq_ok.2 ⟨_, PlanData.make_ok hvalid, ?_⟩⟩⟩⟩
  refine bind_eq_ok.2 ⟨(), ?_, rfl⟩
  rw [hsupplied, checkHash]
  · exact bind_eq_ok.2 ⟨hash, (copied_graphHash h).trans hhash, require_of rfl⟩
  · exact nofun

/-- The text of a plan is read as a plan with the same payload. -/
theorem loadPlanText_dumpPlan (h : p.Spec) (he : p.Encodable) :
    ∃ text plan, p.dumpPlan = .ok text ∧ loadPlanText text = .ok plan ∧
      plan.toPlanData = p.copied := by
  have hdig := (digestible_payload h).2 he
  have hhash : p.graphHash = .ok (digestText (.obj p.canonicalPayload)) :=
    (graphHash_eq_ok_iff h).2 ⟨he, rfl⟩
  obtain ⟨plan, hplan, hread⟩ := ofFields_hashed h hhash
  have hd : (Json.obj (p.hashed (digestText (.obj p.canonicalPayload)))).dumpable = true := by
    have hall := digestible_obj.1 hdig
    refine (digestible_obj.2 ?_).1
    intro kv hkv
    rcases List.mem_append.1 hkv with hkv | hkv
    · exact hall kv hkv
    · rw [List.mem_singleton.1 hkv]
      exact ⟨encodable_lit _, digestible_str.2 (sha256_encodable _)⟩
  refine ⟨_, plan, bind_eq_ok.2 ⟨_, bind_eq_ok.2 ⟨_, hhash, rfl⟩, canonical_of_dumpable hd⟩, ?_, hplan⟩
  refine bind_eq_ok.2 ⟨_, strictJson_render (hashed_wf p _) hd, ?_⟩
  rw [Fields.obj_norm]
  exact hread

theorem detach_eq (plan : ExecutionPlan) (he : plan.Encodable) :
    ∃ copy, detach plan = .ok copy ∧ copy.toPlanData = plan.copied := by
  obtain ⟨text, copy, hdump, hload, hcopy⟩ := loadPlanText_dumpPlan plan.spec he
  obtain ⟨d, hdict, hcan⟩ := bind_eq_ok.1 hdump
  obtain ⟨v, hread, hfrom⟩ := bind_eq_ok.1 hload
  exact ⟨copy, bind_eq_ok.2 ⟨d, hdict, bind_eq_ok.2 ⟨text, hcan, bind_eq_ok.2 ⟨v, hread, hfrom⟩⟩⟩,
    hcopy⟩

/-! ## The hash binds the content -/

omit [FloatModel] in
/-- Plans with the same stripped intent, schema version, and sets of requirements and tasks. -/
def SameContent (p q : PlanData) : Prop :=
  strip p.intent = strip q.intent ∧ p.schemaVersion = q.schemaVersion ∧
    (∀ r, r ∈ p.requirements ↔ r ∈ q.requirements) ∧ ∀ t, t ∈ p.tasks ↔ t ∈ q.tasks

omit [FloatModel] in
theorem PlanData.Spec.nodup_requirements (h : p.Spec) : p.requirements.Nodup :=
  List.Nodup.of_map _ h.reqIds

omit [FloatModel] in
theorem PlanData.Spec.nodup_tasks (h : p.Spec) : p.tasks.Nodup := List.Nodup.of_map _ h.taskIds

theorem SameContent.graphHash (h : SameContent p q) (hp : p.Spec) (hq : q.Spec) :
    q.graphHash = p.graphHash := by
  obtain ⟨hintent, hschema, hreqs, htasks⟩ := h
  exact graphHash_congr hp hintent.symm hschema.symm
    ((List.perm_ext_iff_of_nodup hq.nodup_requirements hp.nodup_requirements).2 fun r =>
      (hreqs r).symm)
    ((List.perm_ext_iff_of_nodup hq.nodup_tasks hp.nodup_tasks).2 fun t => (htasks t).symm)

/-- Dictionaries that are read back determine what they were written from. -/
theorem eq_of_map_norm {α : Type} {f : α → Fields} {g : Json → Except PyExn α}
    (hread : ∀ x, g (Json.obj (f x)).norm = .ok x) {xs ys : List α}
    (h : (xs.map fun x => (Json.obj (f x)).norm) = ys.map fun x => (Json.obj (f x)).norm) :
    xs = ys := by
  refine List.map_injective_iff.2 (fun x y hxy => ?_) h
  have heq := hread x
  rw [show (Json.obj (f x)).norm = (Json.obj (f y)).norm from hxy, hread y] at heq
  exact (Except.ok.inj heq).symm

/-- Payloads with one sorted form have the same content. -/
theorem sameContent_of_norm
    (h : (Json.obj p.canonicalPayload).norm = (Json.obj q.canonicalPayload).norm) :
    SameContent p q := by
  rw [Fields.obj_norm, Fields.obj_norm] at h
  have hfields := map_norm_eq_of_norm_eq ((payload_keys p).trans (payload_keys q).symm)
    (payload_nodup p) (Json.obj.inj h)
  simp only [PlanData.canonicalPayload, List.map_cons, List.map_nil, List.cons.injEq, Prod.mk.injEq,
    true_and, and_true, Json.norm, Json.normElems_eq, Json.str.injEq, Json.arr.injEq, List.map_map]
    at hfields
  obtain ⟨hschema, hintent, hreqs, htasks⟩ := hfields
  have hr : p.sortedRequirements = q.sortedRequirements :=
    eq_of_map_norm (f := fun r : Requirement => r.toDict) requirementOf_norm hreqs
  have ht : p.sortedTasks = q.sortedTasks :=
    eq_of_map_norm (f := fun t : FactoryTask => t.toDict) taskOf_norm htasks
  refine ⟨hintent, hschema, fun r => ?_, fun t => ?_⟩
  · rw [← (sortedRequirements_perm p).mem_iff, hr, (sortedRequirements_perm q).mem_iff]
  · rw [← (sortedTasks_perm p).mem_iff, ht, (sortedTasks_perm q).mem_iff]

/-- The bytes that are hashed for two plans. -/
def payloadBytes (p q : PlanData) : Set (List Nat) :=
  {digestBytes (.obj p.canonicalPayload), digestBytes (.obj q.canonicalPayload)}

/-- Plans have one hash exactly when they have the same content. -/
theorem graphHash_eq_iff (hp : p.Spec) (hq : q.Spec) (hS : Set.InjOn sha256 (payloadBytes p q))
    {hash : Str} (hhash : p.graphHash = .ok hash) : q.graphHash = .ok hash ↔ SameContent p q := by
  constructor
  · intro hq'
    exact sameContent_of_norm (norm_eq_of_digest hS (payload_wf p) (payload_wf q) (Set.mem_insert _ _)
      (Set.mem_insert_of_mem _ rfl) hhash hq')
  · intro h
    rw [h.graphHash hp hq, hhash]

/-! ## Approvals -/

theorem assertMatches_iff {f : FrozenPlan} {plan : ExecutionPlan} :
    f.assertMatches plan = .ok () ↔ plan.graphHash = .ok f.graphHash := by
  rw [FrozenPlan.assertMatches]
  constructor
  · intro h
    obtain ⟨hash, hhash, hreq⟩ := bind_eq_ok.1 h
    rw [hhash, require_eq_ok.1 hreq]
  · intro h
    exact bind_eq_ok.2 ⟨_, h, require_of rfl⟩

theorem assertMatches_congr (f : FrozenPlan) {plan copy : ExecutionPlan}
    (h : copy.graphHash = plan.graphHash) : f.assertMatches copy = f.assertMatches plan := by
  rw [FrozenPlan.assertMatches, FrozenPlan.assertMatches, h]

theorem approve_eq_ok_iff {plan : ExecutionPlan} {who now : Str} {f : FrozenPlan} :
    FrozenPlan.approve plan who now = .ok f ↔ isBlank who = false ∧
      ∃ hash, plan.graphHash = .ok hash ∧
        f = ⟨hash, strip who, now, lit "factory-approval-v1"⟩ := by
  rw [FrozenPlan.approve]
  simp only [bind_eq_ok, require_eq_ok, exists_const, pure, Except.pure, Except.ok.injEq,
    eq_comm (b := f)]

/-- An approval matches exactly the plans with the content of the approved plan. -/
theorem approve_matches_iff {plan other : ExecutionPlan} {who now : Str} {f : FrozenPlan}
    (hS : Set.InjOn sha256 (payloadBytes plan.toPlanData other.toPlanData))
    (hf : FrozenPlan.approve plan who now = .ok f) :
    f.assertMatches other = .ok () ↔ SameContent plan.toPlanData other.toPlanData := by
  obtain ⟨-, hash, hhash, rfl⟩ := approve_eq_ok_iff.1 hf
  rw [assertMatches_iff]
  exact graphHash_eq_iff plan.spec other.spec hS hhash

end Hash

/-! ## The readiness view -/

namespace PlanData

variable (p)

/-- `[task for task in self.plan.tasks if task.id not in completed]`. -/
def remaining (completed : List Str) : List FactoryTask :=
  p.tasks.filter fun t => t.id ∉ completed

/-- `sorted(task.id for task in remaining if set(task.depends_on) <= completed)`. -/
def readyTasks (completed : List Str) : List Str :=
  (((p.remaining completed).filter fun t => t.dependsOn ⊆ completed).map
    fun t => t.id).insertionSort (· ≤ ·)

/-- `sorted(task.id for task in remaining if task.id not in set(ready))`. -/
def blockedTasks (completed : List Str) : List Str :=
  (((p.remaining completed).filter fun t => t.id ∉ p.readyTasks completed).map
    fun t => t.id).insertionSort (· ≤ ·)

end PlanData

theorem mem_readyTasks {completed : List Str} {v : Str} : v ∈ p.readyTasks completed ↔
    ∃ t ∈ p.tasks, t.id = v ∧ v ∉ completed ∧ t.dependsOn ⊆ completed := by
  rw [PlanData.readyTasks, List.mem_insertionSort, List.mem_map]
  simp only [PlanData.remaining, List.mem_filter, decide_eq_true_eq]
  constructor
  · rintro ⟨t, ⟨⟨ht, hc⟩, hd⟩, rfl⟩
    exact ⟨t, ht, rfl, hc, hd⟩
  · rintro ⟨t, ht, rfl, hc, hd⟩
    exact ⟨t, ⟨⟨ht, hc⟩, hd⟩, rfl⟩

theorem mem_blockedTasks {completed : List Str} {v : Str} : v ∈ p.blockedTasks completed ↔
    v ∈ p.taskIds ∧ v ∉ completed ∧ v ∉ p.readyTasks completed := by
  rw [PlanData.blockedTasks, List.mem_insertionSort, List.mem_map, PlanData.taskIds, List.mem_map]
  simp only [PlanData.remaining, List.mem_filter, decide_eq_true_eq]
  constructor
  · rintro ⟨t, ⟨⟨ht, hc⟩, hr⟩, rfl⟩
    exact ⟨⟨t, ht, rfl⟩, hc, hr⟩
  · rintro ⟨⟨t, ht, rfl⟩, hc, hr⟩
    exact ⟨t, ⟨⟨ht, hc⟩, hr⟩, rfl⟩

theorem nodup_taskIds_filter (h : p.Spec) (keep : FactoryTask → Bool) :
    (((p.tasks.filter keep).map fun t => t.id).insertionSort (· ≤ ·)).Nodup :=
  (List.perm_insertionSort _ _).nodup_iff.2
    (h.taskIds.sublist ((List.filter_sublist).map fun t : FactoryTask => t.id))

/-- Every task is completed, ready or blocked, and one of these only. -/
theorem ready_partition (h : p.Spec) {completed : List Str} (hc : completed ⊆ p.taskIds) :
    (sortedSet completed ++ p.readyTasks completed ++ p.blockedTasks completed).Perm p.taskIds := by
  have hready : (p.readyTasks completed).Nodup := by
    rw [PlanData.readyTasks, PlanData.remaining, List.filter_filter]
    exact nodup_taskIds_filter h _
  have hblocked : (p.blockedTasks completed).Nodup := by
    rw [PlanData.blockedTasks, PlanData.remaining, List.filter_filter]
    exact nodup_taskIds_filter h _
  have hsorted : (sortedSet completed).Nodup :=
    (List.perm_insertionSort _ _).nodup_iff.2 (List.nodup_dedup completed)
  have hready_of : ∀ v ∈ p.readyTasks completed, v ∈ p.taskIds ∧ v ∉ completed := by
    intro v hv
    obtain ⟨t, ht, rfl, hn, -⟩ := mem_readyTasks.1 hv
    exact ⟨List.mem_map_of_mem ht, hn⟩
  refine (List.perm_ext_iff_of_nodup ?_ h.taskIds).2 fun v => ?_
  · refine List.Nodup.append (List.Nodup.append hsorted hready ?_) hblocked ?_
    · intro v hv hr
      exact (hready_of v hr).2 (mem_sortedSet.1 hv)
    · intro v hv hb
      obtain ⟨-, hn, hr⟩ := mem_blockedTasks.1 hb
      rcases List.mem_append.1 hv with hv | hv
      · exact hn (mem_sortedSet.1 hv)
      · exact hr hv
  · rw [List.mem_append, List.mem_append, mem_sortedSet, mem_blockedTasks]
    constructor
    · rintro ((hv | hv) | hv)
      · exact hc hv
      · exact (hready_of v hv).1
      · exact hv.1
    · intro hv
      by_cases hmem : v ∈ completed
      · exact Or.inl (Or.inl hmem)
      · by_cases hr : v ∈ p.readyTasks completed
        · exact Or.inl (Or.inr hr)
        · exact Or.inr ⟨hv, hmem, hr⟩

/-- While tasks remain, one is ready: the graph of the tasks has no cycle. -/
theorem ready_progress (h : p.Spec) {completed : List Str} {v : Str} (hv : v ∈ p.taskIds)
    (hn : v ∉ completed) : p.readyTasks completed ≠ [] := by
  have hsub : (p.taskIds.filter fun u => u ∉ completed) ⊆ Dict.keys p.taskNodes := by
    rw [PlanData.keys_taskNodes]
    exact fun u hu => List.mem_of_mem_filter hu
  obtain ⟨u, hu, hsource⟩ := h.taskAcyclic.exists_source hsub
    (List.ne_nil_of_mem (List.mem_filter.2 ⟨hv, decide_eq_true hn⟩))
  obtain ⟨hmem, hopen⟩ := List.mem_filter.1 hu
  obtain ⟨t, ht, rfl⟩ := List.mem_map.1 hmem
  have hdeps : depsOf p.taskNodes t.id = t.dependsOn := by
    refine depsOf_of_mem ?_ (List.mem_map_of_mem ht)
    rw [PlanData.keys_taskNodes]
    exact h.taskIds
  refine List.ne_nil_of_mem (mem_readyTasks.2 ⟨t, ht, rfl, of_decide_eq_true hopen, fun d hd => ?_⟩)
  by_contra hnot
  exact hsource d (hdeps ▸ hd)
    (List.mem_filter.2 ⟨h.taskDeps t ht hd, decide_eq_true hnot⟩)

section View

variable [FloatModel]

/-! ## The view from receipts -/

/-- `ReadyDagSnapshot`. -/
structure ReadyDagSnapshot where
  planHash : Str
  completedTasks : List Str
  readyTasks : List Str
  blockedTasks : List Str
  independenceFraction : ℚ
  receiptHashes : List Str

/-- The checks of a receipt against the plan. -/
def checkReceipt (plan : ExecutionPlan) (r : ReceiptValue) : Except PyExn Unit := do
  let hash ← plan.graphHash
  require (r.executionPlanHash = hash) (m4EvidenceError "receipt belongs to another ExecutionPlan")
  require (r.taskId ∈ plan.taskIds) (m4EvidenceError "receipt task is absent from ExecutionPlan")

/-- `_receipts(receipt_hashes)`, with `consume` for `bus.consumable`. -/
def receiptsOf (consume : Str → Except PyExn ReceiptValue) (plan : ExecutionPlan)
    (hashes : List Str) : Except PyExn (List ReceiptValue) := do
  require hashes.Nodup (m4EvidenceError "duplicate M3 receipt hash")
  let receipts ← mapE consume hashes
  let _ ← mapE (checkReceipt plan) receipts
  require (receipts.map ReceiptValue.taskId).Nodup
    (m4EvidenceError "multiple consumable receipts supplied for one task")
  return receipts

/-- `len(ready) / len(remaining)`, or one if nothing remains. -/
def independence (p : PlanData) (completed : List Str) : ℚ :=
  if p.remaining completed = [] then 1
  else (p.readyTasks completed).length / (p.remaining completed).length

/-- `ready_dag(receipt_hashes)`. -/
def readyDag (consume : Str → Except PyExn ReceiptValue) (plan : ExecutionPlan)
    (hashes : List Str) : Except PyExn ReadyDagSnapshot := do
  let receipts ← receiptsOf consume plan hashes
  let completed := receipts.map ReceiptValue.taskId
  let planHash ← plan.graphHash
  let receiptHashes ← mapE ReceiptValue.receiptHash receipts
  return ⟨planHash, sortedSet completed, plan.readyTasks completed, plan.blockedTasks completed,
    independence plan.toPlanData completed, receiptHashes.insertionSort (· ≤ ·)⟩

/-- A snapshot is the view for the tasks of its receipts, which are tasks of the plan. -/
theorem readyDag_spec {consume : Str → Except PyExn ReceiptValue} {plan : ExecutionPlan}
    {hashes : List Str} {s : ReadyDagSnapshot} (h : readyDag consume plan hashes = .ok s) :
    ∃ completed ⊆ plan.taskIds, s.completedTasks = sortedSet completed ∧
      s.readyTasks = plan.readyTasks completed ∧ s.blockedTasks = plan.blockedTasks completed := by
  rw [readyDag] at h
  obtain ⟨rs, hrs, h⟩ := bind_eq_ok.1 h
  obtain ⟨hash, -, h⟩ := bind_eq_ok.1 h
  obtain ⟨rhs, -, h⟩ := bind_eq_ok.1 h
  cases h
  refine ⟨rs.map ReceiptValue.taskId, ?_, rfl, rfl, rfl⟩
  rw [receiptsOf] at hrs
  obtain ⟨_, -, hrs⟩ := bind_eq_ok.1 hrs
  obtain ⟨xs, -, hrs⟩ := bind_eq_ok.1 hrs
  obtain ⟨us, hus, hrs⟩ := bind_eq_ok.1 hrs
  obtain ⟨_, -, hrs⟩ := bind_eq_ok.1 hrs
  cases hrs
  intro v hv
  obtain ⟨r, hr, rfl⟩ := List.mem_map.1 hv
  obtain ⟨u, -, hu⟩ := mem_zip_of_mapE hus hr
  rw [checkReceipt] at hu
  obtain ⟨_, -, hu⟩ := bind_eq_ok.1 hu
  obtain ⟨_, -, hu⟩ := bind_eq_ok.1 hu
  exact require_eq_ok.1 hu

/-- The tasks of a view partition the tasks of the plan, and one is ready while tasks remain. -/
def Progresses (plan : ExecutionPlan) (completed ready blocked : List Str) : Prop :=
  (completed ++ ready ++ blocked).Perm plan.taskIds ∧
    ((∃ v ∈ plan.taskIds, v ∉ completed) → ready ≠ [])

omit [FloatModel] in
theorem ready_progresses (plan : ExecutionPlan) {completed : List Str}
    (hc : completed ⊆ plan.taskIds) :
    Progresses plan (sortedSet completed) (plan.readyTasks completed)
      (plan.blockedTasks completed) := by
  refine ⟨ready_partition plan.spec hc, ?_⟩
  rintro ⟨v, hv, hn⟩
  exact ready_progress plan.spec hv fun h => hn (mem_sortedSet.2 h)

/-- The copy that a run makes is accepted exactly when the plan is. -/
theorem detach_matches (f : FrozenPlan) (plan : ExecutionPlan) :
    (∃ copy, detach plan = .ok copy ∧ f.assertMatches copy = .ok ()) ↔
      f.assertMatches plan = .ok () := by
  have hcopied : ∀ {copy : ExecutionPlan}, copy.toPlanData = plan.copied →
      copy.graphHash = plan.graphHash := by
    intro copy h
    rw [h]
    exact copied_graphHash plan.spec
  constructor
  · rintro ⟨copy, hdetach, hmatch⟩
    -- a plan that can be copied has a hash
    obtain ⟨d, hdict, -⟩ := bind_eq_ok.1 hdetach
    obtain ⟨hash, hhash, -⟩ := bind_eq_ok.1 hdict
    have he := ((graphHash_eq_ok_iff plan.spec).1 hhash).1
    obtain ⟨copy', hcopy', heq⟩ := detach_eq plan he
    rw [hdetach] at hcopy'
    cases hcopy'
    rwa [assertMatches_congr f (hcopied heq)] at hmatch
  · intro hmatch
    have he := ((graphHash_eq_ok_iff plan.spec).1 (assertMatches_iff.1 hmatch)).1
    obtain ⟨copy, hcopy, heq⟩ := detach_eq plan he
    exact ⟨copy, hcopy, by rwa [assertMatches_congr f (hcopied heq)]⟩

/-- What an approval of a plan binds. -/
theorem approval_binds (p : ExecutionPlan) :
    (p.Encodable → ∃ text copy hash, p.dumpPlan = .ok text ∧ loadPlanText text = .ok copy ∧
      p.graphHash = .ok hash ∧ copy.graphHash = .ok hash) ∧
    (∀ q : ExecutionPlan, q.intent = p.intent → q.schemaVersion = p.schemaVersion →
      q.requirements.Perm p.requirements → q.tasks.Perm p.tasks → q.graphHash = p.graphHash) ∧
    (∀ (q : ExecutionPlan) (who now : Str), p.Encodable → isBlank who = false →
      Set.InjOn sha256 (payloadBytes p.toPlanData q.toPlanData) →
      ∃ f, FrozenPlan.approve p who now = .ok f ∧
        (f.assertMatches q = .ok () ↔ SameContent p.toPlanData q.toPlanData)) ∧
    (∀ f : FrozenPlan, (∃ copy, detach p = .ok copy ∧ f.assertMatches copy = .ok ()) ↔
      f.assertMatches p = .ok ()) ∧
    (∀ completed ⊆ p.taskIds, Progresses p (sortedSet completed) (p.readyTasks completed)
      (p.blockedTasks completed)) ∧
    ∀ consume hashes s, readyDag consume p hashes = .ok s →
      Progresses p s.completedTasks s.readyTasks s.blockedTasks := by
  refine ⟨fun he => ?_, fun q hintent hschema hreqs htasks => ?_, fun q who now he hwho hS => ?_,
    fun f => detach_matches f p, fun completed hc => ready_progresses p hc, fun consume hashes s hs => ?_⟩
  · obtain ⟨text, copy, hdump, hload, hcopy⟩ := loadPlanText_dumpPlan p.spec he
    have hhash := (graphHash_eq_ok_iff p.spec).2 ⟨he, rfl⟩
    refine ⟨text, copy, _, hdump, hload, hhash, ?_⟩
    rw [hcopy, copied_graphHash p.spec, hhash]
  · exact graphHash_congr p.spec (congrArg strip hintent) hschema hreqs htasks
  · obtain ⟨f, hf⟩ : ∃ f, FrozenPlan.approve p who now = .ok f :=
      ⟨_, approve_eq_ok_iff.2 ⟨hwho, _, (graphHash_eq_ok_iff p.spec).2 ⟨he, rfl⟩, rfl⟩⟩
    exact ⟨f, hf, approve_matches_iff hS hf⟩
  · obtain ⟨completed, hc, hcompleted, hready, hblocked⟩ := readyDag_spec hs
    rw [hcompleted, hready, hblocked]
    exact ready_progresses p hc

end View

section Concrete

attribute [local instance] wholeFloats

/-- A requirement of the sample plans. -/
def sampleRequirement (id : Str) (dependsOn : List Str) : RequirementData :=
  ⟨id, lit "holds", [lit "shown"], dependsOn⟩

def firstRequirement : Requirement := ⟨sampleRequirement (lit "first") [], rfl⟩

def secondRequirement : Requirement := ⟨sampleRequirement (lit "second") [lit "first"], rfl⟩

def sampleTask : FactoryTask :=
  ⟨⟨lit "task", lit "do it", [lit "first", lit "second"], [], none⟩, rfl⟩

/-- A plan with the requirements in a given order. -/
def samplePlanData (intent : Str) (requirements : List Requirement) : PlanData :=
  ⟨intent, requirements, [sampleTask], lit "factory-plan-v1"⟩

def samplePlan : ExecutionPlan :=
  ⟨samplePlanData (lit "ship") [firstRequirement, secondRequirement], rfl⟩

def reorderedPlan : ExecutionPlan :=
  ⟨samplePlanData (lit "ship ") [secondRequirement, firstRequirement], rfl⟩

/-- A plan whose intent is a lone surrogate. -/
def surrogatePlan : ExecutionPlan :=
  ⟨samplePlanData [0xD800] [firstRequirement, secondRequirement], rfl⟩

/-- An approval of the sample plan accepts its reordering. -/
theorem approval_binds_sample : ∃ f, FrozenPlan.approve samplePlan (lit "me") (lit "now") = .ok f ∧
    f.assertMatches reorderedPlan = .ok () := by
  have hperm : reorderedPlan.requirements.Perm samplePlan.requirements := List.Perm.swap _ _ _
  have hpayload : reorderedPlan.canonicalPayload = samplePlan.canonicalPayload :=
    canonicalPayload_congr samplePlan.spec (by decide) rfl hperm (List.Perm.refl _)
  have hS : Set.InjOn sha256 (payloadBytes samplePlan.toPlanData reorderedPlan.toPlanData) := by
    rw [payloadBytes, hpayload, Set.pair_eq_singleton]
    exact Set.injOn_singleton _ _
  have hencodable : samplePlan.Encodable :=
    ⟨by decide, by decide, by decide, by decide, by decide⟩
  obtain ⟨f, hf, hmatches⟩ := (approval_binds samplePlan).2.2.1 reorderedPlan (lit "me") (lit "now")
    hencodable (by decide) hS
  exact ⟨f, hf, hmatches.2 ⟨by decide, rfl, fun r => hperm.mem_iff.symm, fun t => Iff.rfl⟩⟩

/-- A plan with a lone surrogate is valid, but it has no text and cannot be approved. -/
theorem surrogate_not_approved :
    ¬ (∃ text, surrogatePlan.dumpPlan = .ok text) ∧
      ¬ ∃ f, FrozenPlan.approve surrogatePlan (lit "me") (lit "now") = .ok f := by
  have hnone : ∀ hash, surrogatePlan.graphHash ≠ .ok hash := by
    intro hash h
    have hintent := ((graphHash_eq_ok_iff surrogatePlan.spec).1 h).1.intent
    revert hintent
    decide
  constructor
  · rintro ⟨text, h⟩
    obtain ⟨d, hdict, -⟩ := bind_eq_ok.1 h
    obtain ⟨hash, hhash, -⟩ := bind_eq_ok.1 hdict
    exact hnone hash hhash
  · rintro ⟨f, h⟩
    obtain ⟨-, hash, hhash, -⟩ := approve_eq_ok_iff.1 h
    exact hnone hash hhash

end Concrete

end ResidualHarness.Factory.Models
