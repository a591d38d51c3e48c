import Mathlib.Data.List.ReduceOption
import Mathlib.Data.Set.Card
import ResidualHarness.Factory.Approval
import ResidualHarness.Graph.Components
import ResidualHarness.Graph.Split

/-!
# Structural replanning

`M4AdaptiveScheduler.structural_replan` of `residual/factory/m4_scheduler.py`. A task that many
others wait for and that fails often is split into parts, each with its dependencies and its
dependents; the plan with the parts is a proposal. The ids of the parts are built from the id of the
task, and the rest of the plan stays as it is (`Replaces`). The observer of the scheduler is not
modelled.
-/

set_option autoImplicit false

namespace ResidualHarness.Factory.Models

open Python Core Graph

/-- `M4SchedulerError`. -/
def m4SchedulerError (msg : String) : PyExn := .runtimeError "M4SchedulerError" msg

/-- The fields of `SchedulerPolicy` that replanning reads, with the checks of its constructor. -/
structure SchedulerPolicy where
  structuralDownstreamThreshold : Nat
  structuralFailureThreshold : Nat
  structuralParts : Nat
  downstream_pos : 1 ≤ structuralDownstreamThreshold
  failure_pos : 1 ≤ structuralFailureThreshold
  two_parts : 2 ≤ structuralParts

/-! ## Dependents -/

namespace PlanData

variable (p : PlanData)

/-- `direct[task_id]`. -/
def dependents (taskId : Str) : List Str :=
  (p.tasks.filter fun t => taskId ∈ t.dependsOn).map fun t => t.id

/-- `_downstream(task_id)`. The fuel is enough (`exists_downstream`). -/
def downstream (taskId : Str) : List Str :=
  ((explore p.dependents (p.tasks.length + p.tasks.length * p.tasks.length) (p.dependents taskId)
    []).getD []).insertionSort (· ≤ ·)

/-- A task waits for another one, directly or not. -/
def WaitsFor (v u : Str) : Prop := Ancestor id (depsOf p.taskNodes) p.taskIds u v

end PlanData

namespace PlanData

variable {p : PlanData}

theorem mem_dependents {v u : Str} :
    v ∈ p.dependents u ↔ ∃ t ∈ p.tasks, t.id = v ∧ u ∈ t.dependsOn := by
  rw [dependents, List.mem_map]
  simp only [List.mem_filter, decide_eq_true_eq]
  constructor
  · rintro ⟨t, ⟨ht, hu⟩, rfl⟩
    exact ⟨t, ht, rfl, hu⟩
  · rintro ⟨t, ht, rfl, hu⟩
    exact ⟨t, ⟨ht, hu⟩, rfl⟩

theorem depsOf_task (hnd : p.taskIds.Nodup) {t : FactoryTask} (ht : t ∈ p.tasks) :
    depsOf p.taskNodes t.id = t.dependsOn := by
  refine depsOf_of_mem ?_ (List.mem_map_of_mem ht)
  rwa [keys_taskNodes]

/-- The dependents of a task are the nodes that it is a parent of. -/
theorem parentOf_iff (h : p.Spec) {v u : Str} :
    ParentOf id (depsOf p.taskNodes) p.taskIds u v ↔ v ∈ p.dependents u := by
  rw [mem_dependents]
  constructor
  · rintro ⟨x, hx, rfl, hu⟩
    obtain ⟨t, ht, rfl⟩ := List.mem_map.1 hx
    rw [depsOf_task h.taskIds ht] at hu
    exact ⟨t, ht, rfl, hu⟩
  · rintro ⟨t, ht, rfl, hu⟩
    refine ⟨t.id, List.mem_map_of_mem ht, rfl, ?_⟩
    rwa [depsOf_task h.taskIds ht]

theorem exists_downstream (h : p.Spec) (u : Str) : ∃ found : List Str, found.Nodup ∧
    p.downstream u = found.insertionSort (· ≤ ·) ∧ ∀ v, v ∈ found ↔ p.WaitsFor v u := by
  have hadj : ∀ x, p.dependents x ⊆ p.taskIds ∧ (p.dependents x).Nodup := by
    intro x
    constructor
    · intro v hv
      obtain ⟨t, ht, rfl, -⟩ := mem_dependents.1 hv
      exact List.mem_map_of_mem ht
    · exact h.taskIds.sublist ((List.filter_sublist).map fun t : FactoryTask => t.id)
  have hlen : p.taskIds.length = p.tasks.length := List.length_map _
  have hfuel : (p.dependents u).length + (unfound p.taskIds []).length * p.taskIds.length ≤
      p.tasks.length + p.tasks.length * p.tasks.length := by
    have hpending := ((hadj u).2.subperm (hadj u).1).length_le
    have hunfound : (unfound p.taskIds []).length ≤ p.taskIds.length := List.length_filter_le _ _
    rw [hlen] at hpending hunfound ⊢
    exact Nat.add_le_add hpending (Nat.mul_le_mul_right _ hunfound)
  obtain ⟨found, hfound⟩ := exists_explore (fun x _ => hadj x) (hadj u).1 hfuel
  refine ⟨found, explore_nodup hfound List.nodup_nil, ?_, fun v => ?_⟩
  · rw [downstream, hfound, Option.getD_some]
  · rw [mem_explore_iff hfound, WaitsFor, Ancestor]
    have hrel : (fun a b => b ∈ p.dependents a) =
        ParentOf id (depsOf p.taskNodes) p.taskIds := by
      funext a b
      exact propext (parentOf_iff h).symm
    rw [hrel]

/-- The search finds each task that waits for the task, once. -/
theorem mem_downstream (h : p.Spec) {u v : Str} : v ∈ p.downstream u ↔ p.WaitsFor v u := by
  obtain ⟨found, -, heq, hmem⟩ := exists_downstream h u
  rw [heq, List.mem_insertionSort, hmem]

theorem nodup_downstream (h : p.Spec) (u : Str) : (p.downstream u).Nodup := by
  obtain ⟨found, hnd, heq, -⟩ := exists_downstream h u
  rw [heq]
  exact (List.perm_insertionSort _ _).nodup_iff.2 hnd

theorem length_downstream (h : p.Spec) (u : Str) :
    (p.downstream u).length = {v | p.WaitsFor v u}.ncard := by
  have hset : {v | p.WaitsFor v u} = ((p.downstream u).toFinset : Set Str) := by
    ext v
    rw [Set.mem_ofPred_eq, List.coe_toFinset, Set.mem_ofPred_eq, mem_downstream h]
  rw [hset, Set.ncard_coe_finset, List.toFinset_card_of_nodup (nodup_downstream h u)]

end PlanData

/-! ## Parts -/

/-- `f"{index:02d}"`. -/
def pad2 (index : Nat) : Str := if index < 10 then lit "0" ++ natRepr index else natRepr index

/-- `f"{task.id}.part{index:02d}"`. -/
def partId (taskId : Str) (index : Nat) : Str := taskId ++ lit ".part" ++ pad2 index

/-- The indices of the parts. -/
def partIndices (policy : SchedulerPolicy) : List Nat :=
  (List.range policy.structuralParts).map fun i => i + 1

/-- `replacement_ids`. -/
def replacementIds (policy : SchedulerPolicy) (taskId : Str) : List Str :=
  (partIndices policy).map (partId taskId)

/-- A part of a task. -/
def partTask (policy : SchedulerPolicy) (t : TaskData) (index : Nat) : TaskData :=
  ⟨partId t.id index,
    lit "Part " ++ natRepr index ++ lit "/" ++ natRepr policy.structuralParts ++
      lit " of decomposed task: " ++ t.description,
    t.requirementIds, t.dependsOn, t.swarm⟩

/-- Another task, which waits for the parts instead of the task. -/
def rebind (policy : SchedulerPolicy) (taskId : Str) (o : TaskData) : TaskData :=
  { o with dependsOn := splitIn taskId (replacementIds policy taskId) o.dependsOn }

/-- The tasks of the replacement plan. -/
def replacementTasks (policy : SchedulerPolicy) (p : PlanData) (t : TaskData) : List TaskData :=
  p.tasks.flatMap fun o =>
    if o.id = t.id then (partIndices policy).map (partTask policy t)
    else [rebind policy t.id o.toTaskData]

/-- The replacement plan. -/
def replacement (policy : SchedulerPolicy) (p : PlanData) (t : TaskData) :
    Except PyExn ExecutionPlan := do
  let tasks ← mapE TaskData.make (replacementTasks policy p t)
  PlanData.make ⟨p.intent, p.requirements, tasks, lit "factory-plan-v1"⟩

/-- `StructuralReplanProposal`. -/
structure StructuralReplanProposal where
  blockingTaskId : Str
  downstreamTasks : List Str
  failureCount : Int
  replacementTaskIds : List Str
  sourcePlanHash : Str
  replacementPlan : ExecutionPlan
  reason : Str

/-- `failure_counts.get(task.id, 0)`. -/
def failuresOf (counts : Dict Str Int) (taskId : Str) : Int := (counts.get? taskId).getD 0

/-- The task is not skipped. -/
def Blocks (policy : SchedulerPolicy) (p : PlanData) (counts : Dict Str Int) (taskId : Str) : Prop :=
  policy.structuralDownstreamThreshold ≤ (p.downstream taskId).length ∧
    (policy.structuralFailureThreshold : Int) ≤ failuresOf counts taskId

instance (policy : SchedulerPolicy) (p : PlanData) (counts : Dict Str Int) (taskId : Str) :
    Decidable (Blocks policy p counts taskId) := inferInstanceAs (Decidable (_ ∧ _))

/-- The text of a proposal. -/
def reasonText (policy : SchedulerPolicy) (downstream : Nat) (failures : Int) : Str :=
  lit "task blocks " ++ natRepr downstream ++ lit " downstream tasks and has failed " ++
    intRepr failures ++ lit " times; decompose into " ++ natRepr policy.structuralParts ++
    lit " subtasks"

/-! ## The ids of the parts -/

theorem pad2_injective {m n : Nat} (h : pad2 m = pad2 n) : m = n := by
  have hinj : ∀ {a b : Nat}, natRepr a = natRepr b → a = b := by
    intro a b hab
    rw [← natOfDigits_natRepr a, hab, natOfDigits_natRepr]
  have hzero : lit "0" = [digitChar 0] := by decide
  -- a number with two digits does not start with a zero
  have hmixed : ∀ {a b : Nat}, ¬ b < 10 → lit "0" ++ natRepr a ≠ natRepr b := by
    intro a b hb heq
    obtain ⟨c, rest, hc, -, hne⟩ := natRepr_head (n := b) (by omega)
    rw [hzero, hc] at heq
    exact hne (List.cons.inj heq).1.symm
  rw [pad2, pad2] at h
  split at h <;> split at h
  · exact hinj (List.append_cancel_left h)
  · exact absurd h (hmixed ‹_›)
  · exact absurd h.symm (hmixed ‹_›)
  · exact hinj h

theorem partId_injective (taskId : Str) : Function.Injective (partId taskId) := fun _ _ h =>
  pad2_injective (List.append_cancel_left h)

theorem partId_ne (taskId : Str) (index : Nat) : partId taskId index ≠ taskId := by
  intro h
  have hlen := congrArg List.length h
  have hpart : (lit ".part").length = 5 := by decide
  rw [partId, List.length_append, List.length_append, hpart] at hlen
  omega

theorem mem_replacementIds {policy : SchedulerPolicy} {taskId w : Str} :
    w ∈ replacementIds policy taskId ↔ ∃ index ∈ partIndices policy, partId taskId index = w :=
  List.mem_map

theorem nodup_partIndices (policy : SchedulerPolicy) : (partIndices policy).Nodup :=
  List.nodup_range.map fun _ _ h => Nat.succ.inj h

theorem nodup_replacementIds (policy : SchedulerPolicy) (taskId : Str) :
    (replacementIds policy taskId).Nodup :=
  (nodup_partIndices policy).map (partId_injective taskId)

theorem notMem_replacementIds (policy : SchedulerPolicy) (taskId : Str) :
    taskId ∉ replacementIds policy taskId := by
  intro h
  obtain ⟨index, -, heq⟩ := mem_replacementIds.1 h
  exact partId_ne taskId index heq

theorem replacementIds_ne_nil (policy : SchedulerPolicy) (taskId : Str) :
    replacementIds policy taskId ≠ [] := by
  refine List.ne_nil_of_length_pos ?_
  rw [replacementIds, partIndices, List.length_map, List.length_map, List.length_range]
  have := policy.two_parts
  omega

/-- The ids of the parts are identifiers that no task of the plan has. -/
def Fits (policy : SchedulerPolicy) (p : PlanData) (taskId : Str) : Prop :=
  ∀ w ∈ replacementIds policy taskId, isIdentifier w = true ∧ w ∉ p.taskIds

/-! ## The tasks of the replacement -/

section Replacement

variable {policy : SchedulerPolicy} {p : PlanData} {t : FactoryTask}

theorem mem_replacementTasks (ht : t ∈ p.tasks) {x : TaskData} :
    x ∈ replacementTasks policy p t.toTaskData ↔
      (∃ index ∈ partIndices policy, x = partTask policy t.toTaskData index) ∨
        ∃ o ∈ p.tasks, o.id ≠ t.id ∧ x = rebind policy t.id o.toTaskData := by
  rw [replacementTasks, List.mem_flatMap]
  constructor
  · rintro ⟨o, ho, hx⟩
    split at hx
    · obtain ⟨index, hindex, rfl⟩ := List.mem_map.1 hx
      exact .inl ⟨index, hindex, rfl⟩
    · rename_i hne
      exact .inr ⟨o, ho, hne, List.mem_singleton.1 hx⟩
  · rintro (⟨index, hindex, rfl⟩ | ⟨o, ho, hne, rfl⟩)
    · refine ⟨t, ht, ?_⟩
      rw [if_pos rfl]
      exact List.mem_map_of_mem hindex
    · refine ⟨o, ho, ?_⟩
      rw [if_neg hne]
      exact List.mem_singleton_self _

/-- The ids of the replacement: the ids of the parts stand for the id of the task. -/
theorem replacement_ids (policy : SchedulerPolicy) (p : PlanData) (t : FactoryTask) :
    (replacementTasks policy p t.toTaskData).map (fun x => x.id) =
      splitIn t.id (replacementIds policy t.id) p.taskIds := by
  rw [replacementTasks, List.map_flatMap, splitIn, PlanData.taskIds, List.flatMap_map]
  refine List.flatMap_congr fun o _ => ?_
  split
  · rw [List.map_map, replacementIds]
    rfl
  · rfl

theorem partTask_valid {index : Nat} (hid : isIdentifier (partId t.id index) = true) :
    (partTask policy t.toTaskData index).postInit = .ok () := by
  obtain ⟨-, hdesc, hreqs, hswarm, hrn, hdn⟩ := TaskData.postInit_iff.1 t.valid
  refine TaskData.postInit_iff.2 ⟨hid, ?_, hreqs, hswarm, hrn, hdn⟩
  have hpart : isBlank (lit "Part ") = false := by decide
  rw [partTask, isBlank, List.all_append, List.all_append, List.all_append, List.all_append,
    List.all_append, ← isBlank, hpart]
  rfl

theorem rebind_valid {o : FactoryTask} (hknown : o.dependsOn ⊆ p.taskIds)
    (hfits : Fits policy p t.id) : (rebind policy t.id o.toTaskData).postInit = .ok () := by
  obtain ⟨hid, hdesc, hreqs, hswarm, hrn, hdn⟩ := TaskData.postInit_iff.1 o.valid
  refine TaskData.postInit_iff.2 ⟨hid, hdesc, hreqs, hswarm, hrn, ?_⟩
  exact nodup_splitIn hdn (nodup_replacementIds policy t.id) fun w hw hmem =>
    (hfits w hw).2 (hknown hmem)

/-- The fields of a replacement plan with some tasks. -/
def replacedData (p : PlanData) (tasks : List FactoryTask) : PlanData :=
  ⟨p.intent, p.requirements, tasks, lit "factory-plan-v1"⟩

/-- Some tasks are those of the replacement. -/
def Replaced (policy : SchedulerPolicy) (p : PlanData) (t : FactoryTask)
    (tasks : List FactoryTask) : Prop :=
  tasks.map FactoryTask.toTaskData = replacementTasks policy p t.toTaskData

variable {tasks : List FactoryTask}

theorem Replaced.taskIds_eq (hr : Replaced policy p t tasks) :
    (replacedData p tasks).taskIds = splitIn t.id (replacementIds policy t.id) p.taskIds := by
  have heq := congrArg (List.map fun x : TaskData => x.id) hr
  rw [List.map_map, replacement_ids] at heq
  exact heq

theorem Replaced.mem_iff (hr : Replaced policy p t tasks) {x : TaskData} :
    (∃ o ∈ tasks, o.toTaskData = x) ↔ x ∈ replacementTasks policy p t.toTaskData := by
  rw [← hr, List.mem_map]

theorem Replaced.nodup (hr : Replaced policy p t tasks) (h : p.Spec) (hfits : Fits policy p t.id) :
    (replacedData p tasks).taskIds.Nodup := by
  rw [hr.taskIds_eq]
  exact nodup_splitIn h.taskIds (nodup_replacementIds policy t.id) fun w hw => (hfits w hw).2

theorem Replaced.depsOf_eq (hr : Replaced policy p t tasks) (h : p.Spec)
    (hfits : Fits policy p t.id) {x : TaskData}
    (hx : x ∈ replacementTasks policy p t.toTaskData) :
    depsOf (replacedData p tasks).taskNodes x.id = x.dependsOn := by
  obtain ⟨o, ho, rfl⟩ := hr.mem_iff.2 hx
  exact PlanData.depsOf_task (p := replacedData p tasks) (hr.nodup h hfits) ho

theorem Replaced.split (hr : Replaced policy p t tasks) (h : p.Spec) (ht : t ∈ p.tasks)
    (hfits : Fits policy p t.id) : Split (depsOf p.taskNodes) p.taskIds
      (depsOf (replacedData p tasks).taskNodes) (replacedData p tasks).taskIds t.id
      (replacementIds policy t.id) where
  acyclic := by
    have hacyclic := h.taskAcyclic
    rwa [AcyclicNodes, PlanData.keys_taskNodes] at hacyclic
  within := by
    intro v hv d hd
    obtain ⟨o, ho, rfl⟩ := List.mem_map.1 hv
    rw [PlanData.depsOf_task h.taskIds ho] at hd
    exact h.taskDeps o ho hd
  mem := List.mem_map_of_mem ht
  nonempty := replacementIds_ne_nil policy t.id
  fresh w hw := (hfits w hw).2
  node v := by
    rw [hr.taskIds_eq, mem_splitIn]
    have hmem : t.id ∈ p.taskIds := List.mem_map_of_mem ht
    exact or_congr_left ⟨fun hw => hw.1, fun hw => ⟨hw, hmem⟩⟩
  part w hw d := by
    obtain ⟨index, hindex, rfl⟩ := mem_replacementIds.1 hw
    have hx := (mem_replacementTasks ht).2 (.inl ⟨index, hindex, rfl⟩)
    rw [PlanData.depsOf_task h.taskIds ht]
    exact iff_of_eq (congrArg (d ∈ ·) (hr.depsOf_eq h hfits hx))
  other v hv hvt d := by
    obtain ⟨o, ho, rfl⟩ := List.mem_map.1 hv
    have hx : rebind policy t.id o.toTaskData ∈ replacementTasks policy p t.toTaskData :=
      (mem_replacementTasks ht).2 (.inr ⟨o, ho, hvt, rfl⟩)
    rw [PlanData.depsOf_task h.taskIds ho, ← mem_splitIn]
    exact iff_of_eq (congrArg (d ∈ ·) (hr.depsOf_eq h hfits hx))

theorem Replaced.spec (hr : Replaced policy p t tasks) (h : p.Spec) (ht : t ∈ p.tasks)
    (hfits : Fits policy p t.id) : (replacedData p tasks).Spec := by
  have hsplit := hr.split h ht hfits
  have hnd := hr.nodup h hfits
  refine ⟨h.intent, h.requirements, ?_, h.reqIds, hnd, h.reqDeps, ?_, ?_, h.reqAcyclic, ?_⟩
  · obtain ⟨w, hw⟩ := List.exists_mem_of_ne_nil _ (replacementIds_ne_nil policy t.id)
    obtain ⟨index, hindex, -⟩ := mem_replacementIds.1 hw
    obtain ⟨o, ho, -⟩ := hr.mem_iff.2 ((mem_replacementTasks ht).2 (.inl ⟨index, hindex, rfl⟩))
    exact List.ne_nil_of_mem ho
  · intro o ho
    rcases (mem_replacementTasks ht).1 (hr.mem_iff.1 ⟨o, ho, rfl⟩) with
      ⟨index, -, heq⟩ | ⟨u, hu, -, heq⟩
    · rw [heq]
      exact h.bound t ht
    · rw [heq]
      exact h.bound u hu
  · intro o ho d hd
    have hmem : o.id ∈ (replacedData p tasks).taskIds := List.mem_map_of_mem ho
    rw [← PlanData.depsOf_task hnd ho] at hd
    -- the parts fold a dependency onto a task of the plan
    have hfold := hsplit.fold_hom hmem
    by_cases hw : d ∈ replacementIds policy t.id
    · exact (hsplit.node d).2 (.inl hw)
    · have hedge := hfold.2 d hd
      have hself : Split.fold t.id (replacementIds policy t.id) d = d := if_neg hw
      rw [hself] at hedge
      have hnode := hsplit.within _ hfold.1 d hedge
      refine (hsplit.node d).2 (.inr ⟨hnode, ?_⟩)
      rintro rfl
      rcases (hsplit.node o.id).1 hmem with hpart | ⟨hn, hne⟩
      · exact hsplit.notMem_self ((hsplit.part _ hpart _).1 hd)
      · rcases (hsplit.other _ hn hne _).1 hd with ⟨hp, -⟩ | ⟨-, hne'⟩
        · exact hw hp
        · exact hne' rfl
  · rw [AcyclicNodes, PlanData.keys_taskNodes]
    exact hsplit.acyclic_split

/-- The replacement plan exists exactly when the ids of the parts fit. -/
theorem replacement_ok (h : p.Spec) (ht : t ∈ p.tasks) (hfits : Fits policy p t.id) :
    ∃ (plan : ExecutionPlan) (tasks : List FactoryTask), Replaced policy p t tasks ∧
      plan.toPlanData = replacedData p tasks ∧
      replacement policy p t.toTaskData = .ok plan := by
  have hmake : ∀ x ∈ replacementTasks policy p t.toTaskData, ∃ o : FactoryTask,
      x.make = .ok o := by
    intro x hx
    rcases (mem_replacementTasks ht).1 hx with ⟨index, hindex, rfl⟩ | ⟨o, ho, -, rfl⟩
    · exact ⟨_, TaskData.make_ok (partTask_valid
        (hfits _ (mem_replacementIds.2 ⟨index, hindex, rfl⟩)).1)⟩
    · exact ⟨_, TaskData.make_ok (rebind_valid (h.taskDeps o ho) hfits)⟩
  obtain ⟨tasks, htasks⟩ := exists_mapE hmake
  have hr : Replaced policy p t tasks := by
    have hmap := map_of_mapE (k := id) htasks fun x _ o ho => TaskData.of_make ho
    rwa [List.map_id] at hmap
  have hvalid := PlanData.postInit_iff.2 (hr.spec h ht hfits)
  exact ⟨⟨replacedData p tasks, hvalid⟩, tasks, hr, rfl,
    bind_eq_ok.2 ⟨tasks, htasks, PlanData.make_ok hvalid⟩⟩

theorem fits_of_replacement (ht : t ∈ p.tasks) {plan : ExecutionPlan}
    (hok : replacement policy p t.toTaskData = .ok plan) : Fits policy p t.id := by
  obtain ⟨tasks, htasks, hmade⟩ := bind_eq_ok.1 hok
  have hr : Replaced policy p t tasks := by
    have hmap := map_of_mapE (k := id) htasks fun x _ o ho => TaskData.of_make ho
    rwa [List.map_id] at hmap
  have hspec : (replacedData p tasks).Spec := by
    have hplan := plan.spec
    rwa [PlanData.of_make hmade] at hplan
  intro w hw
  have hne : w ≠ t.id := fun heq => notMem_replacementIds policy t.id (heq ▸ hw)
  have hnd := hspec.taskIds
  rw [hr.taskIds_eq] at hnd
  refine ⟨?_, fresh_of_nodup hnd (List.mem_map_of_mem ht) hw hne⟩
  obtain ⟨index, hindex, rfl⟩ := mem_replacementIds.1 hw
  obtain ⟨o, -, heq⟩ := hr.mem_iff.2 ((mem_replacementTasks ht).2 (.inl ⟨index, hindex, rfl⟩))
  have hid := (TaskData.postInit_iff.1 o.valid).1
  rwa [heq] at hid

end Replacement

section Proposals

variable [FloatModel]

/-- A turn of the loop over the tasks: a proposal, or nothing. -/
def proposalFor (policy : SchedulerPolicy) (p : ExecutionPlan) (counts : Dict Str Int)
    (t : FactoryTask) : Except PyExn (Option StructuralReplanProposal) :=
  if Blocks policy p.toPlanData counts t.id then do
    let plan ← replacement policy p.toPlanData t.toTaskData
    let source ← p.graphHash
    -- the event of a proposal names the hash of its plan
    let _ ← plan.graphHash
    return some ⟨t.id, p.downstream t.id, failuresOf counts t.id, replacementIds policy t.id, source,
      plan, reasonText policy (p.downstream t.id).length (failuresOf counts t.id)⟩
  else .ok none

/-- The check of a failure count. -/
def checkCount (p : PlanData) (count : Str × Int) : Except PyExn Unit :=
  require (count.1 ∈ p.taskIds ∧ 0 ≤ count.2) (m4SchedulerError "invalid scheduler failure count")

/-- `structural_replan(failure_counts)`. -/
def structuralReplan (policy : SchedulerPolicy) (p : ExecutionPlan) (counts : Dict Str Int) :
    Except PyExn (List StructuralReplanProposal) := do
  let _ ← mapE (checkCount p.toPlanData) counts
  let proposals ← mapE (proposalFor policy p counts) p.sortedTasks
  return proposals.reduceOption

/-! ## Proposals -/

/-- The replacement plan keeps the rest of the plan. -/
structure Replaces (policy : SchedulerPolicy) (p : PlanData) (t : FactoryTask) (q : PlanData) :
    Prop where
  valid : q.Spec
  intent : q.intent = p.intent
  requirements : q.requirements = p.requirements
  ids : ∀ v, v ∈ q.taskIds ↔ v ∈ replacementIds policy t.id ∨ v ∈ p.taskIds ∧ v ≠ t.id
  others : ∀ o ∈ p.tasks, o.id ≠ t.id → ∃ o' ∈ q.tasks, o'.id = o.id ∧
    o'.description = o.description ∧ o'.requirementIds = o.requirementIds ∧ o'.swarm = o.swarm
  bound : ∀ r, (∃ o ∈ p.tasks, r ∈ o.requirementIds) ↔ ∃ o ∈ q.tasks, r ∈ o.requirementIds
  reach : ∀ u ∈ p.taskIds, u ≠ t.id → ∀ v ∈ p.taskIds, v ≠ t.id → (q.WaitsFor v u ↔ p.WaitsFor v u)
  before : ∀ w ∈ replacementIds policy t.id, ∀ u,
    u ∈ depsOf q.taskNodes w ↔ u ∈ depsOf p.taskNodes t.id
  after : ∀ w ∈ replacementIds policy t.id, ∀ v ∈ p.taskIds, v ≠ t.id →
    (w ∈ depsOf q.taskNodes v ↔ t.id ∈ depsOf p.taskNodes v)

omit [FloatModel] in
theorem Replaced.replaces {policy : SchedulerPolicy} {p : PlanData} {t : FactoryTask}
    {tasks : List FactoryTask} (hr : Replaced policy p t tasks) (h : p.Spec) (ht : t ∈ p.tasks)
    (hfits : Fits policy p t.id) : Replaces policy p t (replacedData p tasks) := by
  have hsplit := hr.split h ht hfits
  refine ⟨hr.spec h ht hfits, rfl, rfl, hsplit.node, fun o ho hne => ?_, fun r => ?_,
    fun u hu hut v hv hvt => hsplit.ancestor_iff hu hut hv hvt, hsplit.part, fun w hw v hv hvt => ?_⟩
  · have hx : rebind policy t.id o.toTaskData ∈ replacementTasks policy p t.toTaskData :=
      (mem_replacementTasks ht).2 (.inr ⟨o, ho, hne, rfl⟩)
    obtain ⟨o', ho', heq⟩ := hr.mem_iff.2 hx
    refine ⟨o', ho', ?_⟩
    rw [heq]
    exact ⟨rfl, rfl, rfl, rfl⟩
  · constructor
    · rintro ⟨o, ho, hbound⟩
      by_cases hot : o.id = t.id
      · -- a requirement of the task is bound to its parts
        obtain ⟨w, hw⟩ := List.exists_mem_of_ne_nil _ (replacementIds_ne_nil policy t.id)
        obtain ⟨index, hindex, -⟩ := mem_replacementIds.1 hw
        obtain ⟨o', ho', heq⟩ :=
          hr.mem_iff.2 ((mem_replacementTasks ht).2 (.inl ⟨index, hindex, rfl⟩))
        have hsame : o = t := List.inj_on_of_nodup_map h.taskIds ho ht hot
        refine ⟨o', ho', ?_⟩
        rw [heq]
        rwa [hsame] at hbound
      · have hx : rebind policy t.id o.toTaskData ∈ replacementTasks policy p t.toTaskData :=
          (mem_replacementTasks ht).2 (.inr ⟨o, ho, hot, rfl⟩)
        obtain ⟨o', ho', heq⟩ := hr.mem_iff.2 hx
        exact ⟨o', ho', by rw [heq]; exact hbound⟩
    · rintro ⟨o', ho', hbound⟩
      rcases (mem_replacementTasks ht).1 (hr.mem_iff.1 ⟨o', ho', rfl⟩) with
        ⟨index, -, heq⟩ | ⟨o, ho, -, heq⟩
      · rw [heq] at hbound
        exact ⟨t, ht, hbound⟩
      · rw [heq] at hbound
        exact ⟨o, ho, hbound⟩
  · rw [hsplit.other v hv hvt w]
    constructor
    · rintro (⟨-, hmem⟩ | ⟨hd, -⟩)
      · exact hmem
      · exact absurd (hsplit.within v hv w hd) (hsplit.fresh w hw)
    · intro hmem
      exact .inl ⟨hw, hmem⟩

omit [FloatModel] in
theorem encodable_natRepr (n : Nat) : encodable (natRepr n) = true :=
  encodable_of_isAscii (List.all_eq_true.2 fun c hc => by
    have hdigit := natRepr_isDigit n c hc
    simp only [isDigit, decide_eq_true_eq] at hdigit
    exact decide_eq_true (by omega))

omit [FloatModel] in
/-- The texts of the replacement can be encoded when those of the plan can. -/
theorem Replaced.encodable {policy : SchedulerPolicy} {p : PlanData} {t : FactoryTask}
    {tasks : List FactoryTask} (hr : Replaced policy p t tasks) (ht : t ∈ p.tasks)
    (he : p.Encodable) : (replacedData p tasks).Encodable := by
  refine ⟨he.intent, encodable_lit _, he.statements, he.acceptance, fun o ho => ?_⟩
  rcases (mem_replacementTasks ht).1 (hr.mem_iff.1 ⟨o, ho, rfl⟩) with
    ⟨index, -, heq⟩ | ⟨u, hu, -, heq⟩
  · rw [heq, partTask]
    simp only [encodable_append, encodable_lit, encodable_natRepr, he.descriptions t ht,
      Bool.and_self]
  · rw [heq]
    exact he.descriptions u hu

theorem proposalFor_blocking {policy : SchedulerPolicy} {p : ExecutionPlan} {counts : Dict Str Int}
    {t : FactoryTask} {r : Option StructuralReplanProposal}
    (h : proposalFor policy p counts t = .ok r) :
    r.map StructuralReplanProposal.blockingTaskId =
      if Blocks policy p.toPlanData counts t.id then some t.id else none := by
  rw [proposalFor] at h
  split at h
  · rename_i hblocks
    obtain ⟨plan, -, h⟩ := bind_eq_ok.1 h
    obtain ⟨source, -, h⟩ := bind_eq_ok.1 h
    obtain ⟨hash, -, h⟩ := bind_eq_ok.1 h
    cases h
    rw [if_pos hblocks]
    rfl
  · rename_i hblocks
    cases h
    rw [if_neg hblocks]
    rfl

/-- A proposal exists when its parts fit and the texts of the plan can be encoded. -/
theorem proposalFor_ok {policy : SchedulerPolicy} {p : ExecutionPlan} {counts : Dict Str Int}
    {t : FactoryTask} (ht : t ∈ p.tasks) (h : Blocks policy p.toPlanData counts t.id →
      p.Encodable ∧ Fits policy p.toPlanData t.id) :
    ∃ r, proposalFor policy p counts t = .ok r := by
  rw [proposalFor]
  split
  · rename_i hblocks
    obtain ⟨he, hfits⟩ := h hblocks
    obtain ⟨plan, tasks, hr, hplan, hok⟩ := replacement_ok p.spec ht hfits
    have hencodable := hr.encodable ht he
    rw [← hplan] at hencodable
    exact ⟨_, bind_eq_ok.2 ⟨plan, hok, bind_eq_ok.2 ⟨_, (graphHash_eq_ok_iff p.spec).2 ⟨he, rfl⟩,
      bind_eq_ok.2 ⟨_, (graphHash_eq_ok_iff plan.spec).2 ⟨hencodable, rfl⟩, rfl⟩⟩⟩⟩
  · exact ⟨none, rfl⟩

theorem proposalFor_some {policy : SchedulerPolicy} {p : ExecutionPlan} {counts : Dict Str Int}
    {t : FactoryTask} (ht : t ∈ p.tasks) {x : StructuralReplanProposal}
    (h : proposalFor policy p counts t = .ok (some x)) :
    x.blockingTaskId = t.id ∧ p.Encodable ∧ Fits policy p.toPlanData t.id ∧
      Replaces policy p.toPlanData t x.replacementPlan.toPlanData := by
  rw [proposalFor] at h
  split at h
  · obtain ⟨plan, hok, h⟩ := bind_eq_ok.1 h
    obtain ⟨source, hsource, h⟩ := bind_eq_ok.1 h
    obtain ⟨hash, -, h⟩ := bind_eq_ok.1 h
    cases h
    have hfits := fits_of_replacement ht hok
    obtain ⟨plan', tasks, hr, hplan, hok'⟩ := replacement_ok p.spec ht hfits
    rw [hok] at hok'
    cases hok'
    refine ⟨rfl, ((graphHash_eq_ok_iff p.spec).1 hsource).1, hfits, ?_⟩
    rw [hplan]
    exact hr.replaces p.spec ht hfits
  · cases h

omit [FloatModel] in
/-- The task has enough dependents and has failed often enough. -/
def Qualifies (policy : SchedulerPolicy) (p : PlanData) (counts : Dict Str Int) (taskId : Str) : Prop :=
  policy.structuralDownstreamThreshold ≤ {v | p.WaitsFor v taskId}.ncard ∧
    (policy.structuralFailureThreshold : Int) ≤ failuresOf counts taskId

omit [FloatModel] in
theorem blocks_iff {policy : SchedulerPolicy} {p : PlanData} {counts : Dict Str Int} (h : p.Spec)
    {taskId : Str} : Blocks policy p counts taskId ↔ Qualifies policy p counts taskId := by
  rw [Blocks, Qualifies, PlanData.length_downstream h]

/-- One proposal for each task that qualifies, and each of them keeps the rest of the plan. -/
def Proposes (policy : SchedulerPolicy) (p : PlanData) (counts : Dict Str Int)
    (proposals : List StructuralReplanProposal) : Prop :=
  (proposals.map StructuralReplanProposal.blockingTaskId).Nodup ∧
    (∀ v, v ∈ proposals.map StructuralReplanProposal.blockingTaskId ↔
      v ∈ p.taskIds ∧ Qualifies policy p counts v) ∧
    ∀ x ∈ proposals, ∃ t ∈ p.tasks, x.blockingTaskId = t.id ∧
      Replaces policy p t x.replacementPlan.toPlanData

omit [FloatModel] in
theorem reduceOption_map_ite {α β : Type} (f : α → β) (q : α → Prop) [DecidablePred q] (xs : List α) :
    (xs.map fun x => if q x then some (f x) else none).reduceOption =
      (xs.filter fun x => q x).map f := by
  induction xs with
  | nil => rfl
  | cons x xs ih =>
      rw [List.map_cons, List.filter_cons]
      by_cases hx : q x
      · rw [if_pos hx, List.reduceOption_cons_of_some, ih, if_pos (decide_eq_true hx), List.map_cons]
      · rw [if_neg hx, List.reduceOption_cons_of_none, ih, if_neg (by simpa using hx)]

/-- Where every turn returns, the proposals are those of the tasks that qualify. -/
theorem proposals_propose {policy : SchedulerPolicy} {p : ExecutionPlan} {counts : Dict Str Int}
    {rs : List (Option StructuralReplanProposal)}
    (h : mapE (proposalFor policy p counts) p.sortedTasks = .ok rs) :
    Proposes policy p.toPlanData counts rs.reduceOption := by
  have hperm := sortedTasks_perm p.toPlanData
  have hids : rs.reduceOption.map StructuralReplanProposal.blockingTaskId =
      (p.sortedTasks.filter fun t => Blocks policy p.toPlanData counts t.id).map fun t => t.id := by
    have hmap := map_of_mapE h fun t _ r hr => proposalFor_blocking hr
    rw [← List.reduceOption_map, hmap]
    exact reduceOption_map_ite (fun t : FactoryTask => t.id) _ _
  refine ⟨?_, fun v => ?_, fun x hx => ?_⟩
  · rw [hids]
    exact ((hperm.map _).nodup_iff.2 p.spec.taskIds).sublist
      ((List.filter_sublist).map fun t : FactoryTask => t.id)
  · rw [hids, List.mem_map, PlanData.taskIds, List.mem_map, ← blocks_iff p.spec]
    simp only [List.mem_filter, decide_eq_true_eq, hperm.mem_iff]
    constructor
    · rintro ⟨t, ⟨ht, hblocks⟩, rfl⟩
      exact ⟨⟨t, ht, rfl⟩, hblocks⟩
    · rintro ⟨⟨t, ht, rfl⟩, hblocks⟩
      exact ⟨t, ⟨ht, hblocks⟩, rfl⟩
  · obtain ⟨t, ht, hr⟩ := of_mem_mapE h (List.reduceOption_mem_iff.1 hx)
    have ht' := hperm.mem_iff.1 ht
    obtain ⟨hid, -, -, hreplaces⟩ := proposalFor_some ht' hr
    exact ⟨t, ht', hid, hreplaces⟩

/-- Where replanning returns, every task that qualifies has its proposal. -/
theorem fits_of_replan {policy : SchedulerPolicy} {p : ExecutionPlan} {counts : Dict Str Int}
    {proposals : List StructuralReplanProposal} (h : structuralReplan policy p counts = .ok proposals)
    {t : FactoryTask} (ht : t ∈ p.tasks) (hblocks : Blocks policy p.toPlanData counts t.id) :
    p.Encodable ∧ Fits policy p.toPlanData t.id := by
  obtain ⟨_, -, h⟩ := bind_eq_ok.1 h
  obtain ⟨rs, hrs, -⟩ := bind_eq_ok.1 h
  obtain ⟨r, -, hr⟩ := mem_zip_of_mapE hrs ((sortedTasks_perm p.toPlanData).mem_iff.2 ht)
  have hblocking := proposalFor_blocking hr
  rw [if_pos hblocks] at hblocking
  obtain ⟨x, rfl, -⟩ := Option.map_eq_some_iff.1 hblocking
  obtain ⟨-, he, hfits, -⟩ := proposalFor_some ht hr
  exact ⟨he, hfits⟩

end Proposals

section Concrete

attribute [local instance] wholeFloats

/-- A policy that splits a task with one dependent after one failure. -/
def eagerPolicy : SchedulerPolicy := ⟨1, 1, 2, by decide, by decide, by decide⟩

/-- A task for the sample requirements. -/
def chainTask (id : Str) (dependsOn : List Str) : TaskData :=
  ⟨id, lit "do it", [lit "first"], dependsOn, none⟩

/-- A plan in which a task waits for another one. -/
def chainData (first second : FactoryTask) : PlanData :=
  ⟨lit "ship", [firstRequirement], [first, second], lit "factory-plan-v1"⟩

def chainPlan : ExecutionPlan :=
  ⟨chainData ⟨chainTask (lit "a") [], rfl⟩ ⟨chainTask (lit "b") [lit "a"], rfl⟩, rfl⟩

set_option maxRecDepth 4000 in
/-- The first task has an id of 90 characters. -/
def longPlan : ExecutionPlan :=
  ⟨chainData ⟨chainTask (List.replicate 90 0x61) [], by decide⟩
    ⟨chainTask (lit "b") [List.replicate 90 0x61], by decide⟩, by decide⟩

/-- The second task has the id of a part of the first one. -/
def takenPlan : ExecutionPlan :=
  ⟨chainData ⟨chainTask (lit "a") [], rfl⟩ ⟨chainTask (lit "a.part01") [lit "a"], rfl⟩, rfl⟩

end Concrete

end ResidualHarness.Factory.Models
