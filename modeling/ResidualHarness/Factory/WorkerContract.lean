import ResidualHarness.Core.Canonical

/-!
# Worker contracts

The data of `WorkerContract` in `residual/factory/worker_contract.py`, its dictionary and its hash.
The dictionary determines the contract, and so does its canonical text (`toDict_injective`,
`eq_of_render_eq`); two contracts with the same hash are the same contract unless SHA-256 collides on
their texts (`eq_of_contractHash`).
-/

set_option autoImplicit false

namespace ResidualHarness.Factory

open Python Core

variable [FloatModel]

/-- `WorkerContractError`. -/
def workerContractError (msg : String) : PyExn := .userError "WorkerContractError" msg

/-- `WorkerContract`: the fields of the dataclass, with tuples of strings as lists. -/
structure WorkerContract where
  taskId : Str
  workerId : Str
  swarmId : Str
  executionPlanHash : Str
  attemptId : Str
  leaseId : Str
  leaseGeneration : Int
  inputCommit : Str
  workspaceRoot : Str
  inputs : List Str
  allowedOutputs : List Str
  forbidden : List Str
  requirements : List Str
  acceptance : List Str
  dependencies : List Str
  allowedTools : List Str
  forbiddenTools : List Str
  tokenBudget : Int
  wallClockBudgetS : FloatModel.F
  maxToolCalls : Int
  maxFileWrites : Int
  memoryLimitMb : Int
  engineHint : Option Str
  engineClass : Str
  schemaVersion : Str

/-- `WorkerContract.to_dict()`. -/
def WorkerContract.toDict (c : WorkerContract) : Fields :=
  [(lit "task_id", .str c.taskId), (lit "worker_id", .str c.workerId),
    (lit "swarm_id", .str c.swarmId), (lit "execution_plan_hash", .str c.executionPlanHash),
    (lit "attempt_id", .str c.attemptId), (lit "lease_id", .str c.leaseId),
    (lit "lease_generation", .int c.leaseGeneration), (lit "input_commit", .str c.inputCommit),
    (lit "workspace_root", .str c.workspaceRoot), (lit "inputs", strings c.inputs),
    (lit "allowed_outputs", strings c.allowedOutputs), (lit "forbidden", strings c.forbidden),
    (lit "requirements", strings c.requirements), (lit "acceptance", strings c.acceptance),
    (lit "dependencies", strings c.dependencies), (lit "allowed_tools", strings c.allowedTools),
    (lit "forbidden_tools", strings c.forbiddenTools), (lit "token_budget", .int c.tokenBudget),
    (lit "wall_clock_budget_s", .float c.wallClockBudgetS),
    (lit "max_tool_calls", .int c.maxToolCalls), (lit "max_file_writes", .int c.maxFileWrites),
    (lit "memory_limit_mb", .int c.memoryLimitMb), (lit "engine_hint", optionalString c.engineHint),
    (lit "engine_class", .str c.engineClass), (lit "schema_version", .str c.schemaVersion)]

/-- `WorkerContract.contract_hash`. -/
def WorkerContract.contractHash (c : WorkerContract) : Except PyExn Str := digest (.obj c.toDict)

/-- The bytes that are hashed. -/
def WorkerContract.text (c : WorkerContract) : List Nat :=
  (Json.obj c.toDict).render.flatMap utf8Char

omit [FloatModel] in
theorem contractKeys_nodup :
    [lit "task_id", lit "worker_id", lit "swarm_id", lit "execution_plan_hash", lit "attempt_id",
      lit "lease_id", lit "lease_generation", lit "input_commit", lit "workspace_root",
      lit "inputs", lit "allowed_outputs", lit "forbidden", lit "requirements", lit "acceptance",
      lit "dependencies", lit "allowed_tools", lit "forbidden_tools", lit "token_budget",
      lit "wall_clock_budget_s", lit "max_tool_calls", lit "max_file_writes",
      lit "memory_limit_mb", lit "engine_hint", lit "engine_class",
      lit "schema_version"].Nodup := by
  decide

theorem toDict_nodup (c : WorkerContract) : (c.toDict.map Prod.fst).Nodup := contractKeys_nodup

theorem optionalString_wf (s : Option Str) : (optionalString s).wf = true := by
  cases s <;> rfl

theorem toDict_wf (c : WorkerContract) : (Json.obj c.toDict).wf = true := by
  rw [Json.wf, Bool.and_eq_true, decide_eq_true_eq]
  refine ⟨toDict_nodup c, ?_⟩
  simp only [WorkerContract.toDict, Json.wfFields, Json.wf, strings_wf, optionalString_wf,
    Bool.and_self]

theorem strings_injective {xs ys : List Str} (h : strings xs = strings ys) : xs = ys :=
  List.map_injective_iff.2 (fun _ _ he => Json.str.inj he) (Json.arr.inj h)

theorem optionalString_injective {s t : Option Str} (h : optionalString s = optionalString t) :
    s = t := by
  cases s with
  | none =>
      cases t with
      | none => rfl
      | some b => cases h
  | some a =>
      cases t with
      | none => cases h
      | some b => rw [Json.str.inj h]

theorem toDict_injective {c d : WorkerContract} (h : c.toDict = d.toDict) : c = d := by
  simp only [WorkerContract.toDict, List.cons.injEq, Prod.mk.injEq, true_and, Json.str.injEq,
    Json.int.injEq, Json.float.injEq, and_true] at h
  obtain ⟨h1, h2, h3, h4, h5, h6, h7, h8, h9, h10, h11, h12, h13, h14, h15, h16, h17, h18, h19,
    h20, h21, h22, h23, h24, h25⟩ := h
  cases c
  cases d
  simp only [WorkerContract.mk.injEq]
  exact ⟨h1, h2, h3, h4, h5, h6, h7, h8, h9, strings_injective h10, strings_injective h11,
    strings_injective h12, strings_injective h13, strings_injective h14, strings_injective h15,
    strings_injective h16, strings_injective h17, h18, h19, h20, h21, h22,
    optionalString_injective h23, h24, h25⟩

/-- The values of a contract's dictionary are in sorted form already. -/
theorem toDict_values (c : WorkerContract) : ∀ kv ∈ c.toDict, kv.2.norm = kv.2 := by
  have hs : ∀ xs : List Str, (strings xs).norm = strings xs := by
    intro xs
    rw [strings, Json.norm_arr, List.map_map]
    rfl
  have ho : ∀ s : Option Str, (optionalString s).norm = optionalString s := by
    intro s
    cases s <;> rfl
  intro kv hkv
  simp only [WorkerContract.toDict, List.mem_cons, List.not_mem_nil, or_false] at hkv
  rcases hkv with rfl | rfl | rfl | rfl | rfl | rfl | rfl | rfl | rfl | rfl | rfl | rfl | rfl |
    rfl | rfl | rfl | rfl | rfl | rfl | rfl | rfl | rfl | rfl | rfl | rfl <;>
    first
      | rfl
      | exact hs _
      | exact ho _

/-- Dictionaries with the same keys in the same order and the same sorted form are equal. -/
theorem fields_eq_of_norm_eq {d e : Fields} (hkeys : d.map Prod.fst = e.map Prod.fst)
    (hnd : (d.map Prod.fst).Nodup) (hd : ∀ kv ∈ d, kv.2.norm = kv.2)
    (he : ∀ kv ∈ e, kv.2.norm = kv.2) (h : d.norm = e.norm) : d = e := by
  have hid : ∀ f : Fields, (∀ kv ∈ f, kv.2.norm = kv.2) → f.norm = sortFields f := by
    intro f hf
    rw [Fields.norm]
    conv_rhs => rw [← List.map_id (sortFields f)]
    apply List.map_congr_left
    intro kv hkv
    rw [hf kv (mem_sortFields.1 hkv)]
    rfl
  have hperm : d.Perm e := by
    have hs : sortFields d = sortFields e := by rw [← hid d hd, ← hid e he, h]
    have h1 : (sortFields d).Perm d := List.perm_insertionSort _ d
    have h2 : (sortFields e).Perm e := List.perm_insertionSort _ e
    rw [hs] at h1
    exact h1.symm.trans h2
  -- a key occurs once, so the field at a position is determined by its key
  apply List.ext_getElem
  · simpa using congrArg List.length hkeys
  · intro i hi hi'
    have hmem : d[i] ∈ e := hperm.mem_iff.1 (List.getElem_mem hi)
    have hnde : (e.map Prod.fst).Nodup := by rwa [← hkeys]
    apply List.inj_on_of_nodup_map hnde hmem (List.getElem_mem hi')
    have hk := congrArg (fun l : List Str => l[i]?) hkeys
    simp only [List.getElem?_map, List.getElem?_eq_getElem hi, List.getElem?_eq_getElem hi',
      Option.map_some, Option.some.injEq] at hk
    exact hk

theorem eq_of_render_eq {c d : WorkerContract} (hc : (Json.obj c.toDict).dumpable = true)
    (hd : (Json.obj d.toDict).dumpable = true)
    (h : (Json.obj c.toDict).render = (Json.obj d.toDict).render) : c = d := by
  have h1 := loads_render (toDict_wf c) hc
  have h2 := loads_render (toDict_wf d) hd
  rw [h, h2, Fields.obj_norm, Fields.obj_norm] at h1
  have hkeys : c.toDict.map Prod.fst = d.toDict.map Prod.fst := rfl
  apply toDict_injective
  apply fields_eq_of_norm_eq hkeys (toDict_nodup c) (toDict_values c) (toDict_values d)
  exact (Json.obj.inj (Option.some.inj h1)).symm

/-- SHA-256 does not collide on the texts of these contracts. -/
def CollisionFree (S : Set WorkerContract) : Prop := Set.InjOn sha256 (WorkerContract.text '' S)

/-- The hash identifies a contract among those on whose texts SHA-256 does not collide. -/
theorem eq_of_contractHash {S : Set WorkerContract} (hS : CollisionFree S) {c d : WorkerContract}
    (hc : c ∈ S) (hd : d ∈ S) {h : Str} (hch : c.contractHash = .ok h)
    (hdh : d.contractHash = .ok h) : c = d := by
  obtain ⟨⟨hcd, -⟩, rfl⟩ := digest_eq_ok_iff.1 hch
  obtain ⟨⟨hdd, -⟩, heq⟩ := digest_eq_ok_iff.1 hdh
  have htext : c.text = d.text :=
    hS (Set.mem_image_of_mem _ hc) (Set.mem_image_of_mem _ hd) heq
  exact eq_of_render_eq hcd hdd (utf8Text_injective htext)

end ResidualHarness.Factory
