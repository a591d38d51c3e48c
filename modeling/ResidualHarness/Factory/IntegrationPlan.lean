import ResidualHarness.Factory.StationIssuer
import ResidualHarness.Factory.Integrator
import ResidualHarness.Graph.Layers

/-!
# The integration planner

`ReceiptBackedM4.integration_plan` of `residual/factory/m4_evidence.py` on receipts that
`EvidenceBus.consumable` returns, and `EvidenceBus.artifact`, from which the integrator reads bytes.
Of an execution plan only its hash and the dependencies of its tasks are read. The observer of the
planner is not modelled.
-/

set_option autoImplicit false

namespace ResidualHarness.Factory

open Python Core Graph

/-- `M4EvidenceError`. -/
def m4EvidenceError (msg : String) : PyExn := .runtimeError "M4EvidenceError" msg

/-- The fields of `FactoryTask` that the planner reads. -/
structure FactoryTask where
  id : Str
  dependsOn : List Str

/-- `ExecutionPlan`: its hash and its tasks. -/
structure ExecutionPlan where
  graphHash : Str
  tasks : List FactoryTask

namespace ExecutionPlan

/-- `{task.id: task for task in plan.tasks}`. -/
def table (plan : ExecutionPlan) : Dict Str FactoryTask := Dict.ofPairs (plan.tasks.map fun t => (t.id, t))

/-- `self._tasks[task_id].depends_on`. -/
def dependsOn (plan : ExecutionPlan) (taskId : Str) : List Str :=
  ((plan.table.get? taskId).map FactoryTask.dependsOn).getD []

end ExecutionPlan

variable [FloatModel]

/-! ## Reading receipts -/

/-- The checks of a receipt against the plan. -/
def checkReceiptTask (plan : ExecutionPlan) (r : ReceiptValue) : Except PyExn Unit := do
  require (r.executionPlanHash = plan.graphHash)
    (m4EvidenceError "receipt belongs to another ExecutionPlan")
  require ((plan.table.get? r.taskId).isSome = true)
    (m4EvidenceError "receipt task is absent from ExecutionPlan")

/-- `_receipts(receipt_hashes)`, with `consume` for `bus.consumable`. -/
def suppliedReceipts (consume : Str → Except PyExn ReceiptValue) (plan : ExecutionPlan)
    (hashes : List Str) : Except PyExn (List ReceiptValue) := do
  require hashes.Nodup (m4EvidenceError "duplicate M3 receipt hash")
  let receipts ← mapE consume hashes
  let _ ← mapE (checkReceiptTask plan) receipts
  require (receipts.map ReceiptValue.taskId).Nodup
    (m4EvidenceError "multiple consumable receipts supplied for one task")
  return receipts

/-- `{receipt.task_id: receipt for receipt in receipts}`. -/
def byTask (receipts : List ReceiptValue) : Dict Str ReceiptValue :=
  Dict.ofPairs (receipts.map fun r => (r.taskId, r))

/-- `by_task[dep].receipt_hash`. -/
def dependencyHash (table : Dict Str ReceiptValue) (dep : Str) : Except PyExn Str :=
  match table.get? dep with
  | some r => r.receiptHash
  | none => .error .keyError

/-- The parents of a receipt are the receipts of the dependencies of its task. -/
def checkParents (plan : ExecutionPlan) (table : Dict Str ReceiptValue) (item : Str × ReceiptValue) :
    Except PyExn Unit := do
  require (∀ dep ∈ plan.dependsOn item.1, dep ∈ table.keys)
    (m4EvidenceError "receipt set omits task dependencies")
  let parents ← mapE (dependencyHash table) (plan.dependsOn item.1)
  require (item.2.parentReceipts ⊆ parents ∧ parents ⊆ item.2.parentReceipts)
    (m4EvidenceError "receipt parent bindings do not match task dependencies")

/-! ## Paths -/

/-- What a receipt does at a path. -/
structure PathEntry where
  receiptHash : Str
  sha256 : Option Str
  deleted : Json

/-- The entries of the receipts, in their order, with their paths. -/
def pathEntries (ordered : List ReceiptValue) : List (Str × PathEntry) :=
  ordered.flatMap fun r => r.artifacts.map fun a => (a.path, ⟨r.hash, a.sha256, a.deleted⟩)

/-- `paths[path]`. -/
def entriesAt (ordered : List ReceiptValue) (path : Str) : List PathEntry :=
  ((pathEntries ordered).filter fun e => e.1 = path).map Prod.snd

/-- `sorted(paths)`. -/
def plannedPaths (ordered : List ReceiptValue) : List Str :=
  ((pathEntries ordered).map Prod.fst).dedup.insertionSort (· ≤ ·)

/-- `PlannedArtifact`. -/
structure PlannedArtifact where
  path : Str
  sha256 : Option Str
  deleted : Json
  sourceReceiptHashes : List Str

/-- The states at a path, up to the equality of Python. -/
def statesOf (values : List PathEntry) : List (Option Str × Json) :=
  (values.map fun v => (v.sha256, v.deleted.plain)).dedup

/-- One turn of the loop over the paths: the planned artifact or the conflict. -/
def planPath (ordered : List ReceiptValue) (path : Str) : PlannedArtifact ⊕ IntegrationConflict :=
  let values := entriesAt ordered path
  if 1 < (statesOf values).length then
    .inr ⟨path, values.map PathEntry.receiptHash, values.map PathEntry.sha256⟩
  else
    .inl ⟨path, values.head?.bind PathEntry.sha256, (values.head?.map PathEntry.deleted).getD .null,
      values.map PathEntry.receiptHash⟩

/-! ## The plan -/

/-- `EvidenceIntegrationPlan`. -/
structure EvidenceIntegrationPlan where
  executionPlanHash : Str
  orderedReceiptHashes : List Str
  orderedTaskIds : List Str
  artifacts : List PlannedArtifact
  conflicts : List IntegrationConflict

/-- `PlannedArtifact.to_dict()`. -/
def PlannedArtifact.toDict (a : PlannedArtifact) : Json :=
  .obj [(lit "path", .str a.path), (lit "sha256", optionalString a.sha256), (lit "deleted", a.deleted),
    (lit "source_receipt_hashes", strings a.sourceReceiptHashes)]

/-- `IntegrationConflict.to_dict()`. -/
def IntegrationConflict.toDict (c : IntegrationConflict) : Json :=
  .obj [(lit "path", .str c.path), (lit "receipt_hashes", strings c.receiptHashes),
    (lit "artifact_hashes", .arr (c.artifactHashes.map optionalString))]

/-- `EvidenceIntegrationPlan.to_dict()`. -/
def EvidenceIntegrationPlan.toDict (p : EvidenceIntegrationPlan) : Json :=
  .obj [(lit "schema_version", .str (lit "factory-m4-evidence-integration-plan-v1")),
    (lit "execution_plan_hash", .str p.executionPlanHash),
    (lit "ordered_receipt_hashes", strings p.orderedReceiptHashes),
    (lit "ordered_task_ids", strings p.orderedTaskIds),
    (lit "artifacts", .arr (p.artifacts.map PlannedArtifact.toDict)),
    (lit "conflicts", .arr (p.conflicts.map IntegrationConflict.toDict)),
    (lit "integration_eligible", .bool p.conflicts.isEmpty)]

/-- `EvidenceIntegrationPlan.plan_hash`. -/
def EvidenceIntegrationPlan.planHash (p : EvidenceIntegrationPlan) : Except PyExn Str := digest p.toDict

/-- The plan of receipts in order. -/
def planOf (plan : ExecutionPlan) (orderedTasks : List Str) (ordered : List ReceiptValue) :
    EvidenceIntegrationPlan where
  executionPlanHash := plan.graphHash
  orderedReceiptHashes := ordered.map ReceiptValue.hash
  orderedTaskIds := orderedTasks
  artifacts := (plannedPaths ordered).filterMap fun path => (planPath ordered path).getLeft?
  conflicts := (plannedPaths ordered).filterMap fun path => (planPath ordered path).getRight?

/-- `integration_plan(receipt_hashes)`. The hash of the result is computed for the observer, and the
rounds have enough fuel (`layers_fuel`). -/
def integrationPlan (consume : Str → Except PyExn ReceiptValue) (plan : ExecutionPlan)
    (hashes : List Str) : Except PyExn EvidenceIntegrationPlan := do
  let receipts ← suppliedReceipts consume plan hashes
  let table := byTask receipts
  let _ ← mapE (checkParents plan table) table
  match layers plan.dependsOn table.length table.keys [] with
  | none => throw (m4EvidenceError "receipt dependency order cannot be resolved")
  | some orderedTasks => do
      let ordered := orderedTasks.filterMap table.get?
      let _ ← mapE ReceiptValue.receiptHash ordered
      let result := planOf plan orderedTasks ordered
      let _ ← result.planHash
      return result

/-! ## Bytes for the integrator -/

/-- `EvidenceBus.artifact(receipt_hash, path, station_public_key=...)`. -/
def EvidenceBus.artifact (ed : Ed25519) (bus : EvidenceBus) (publicKey : Bytes) (hash path : Str) :
    Except PyExn Bytes := do
  let receipt ← bus.consumable ed hash publicKey
  match receipt.artifacts.filter fun a => a.path = path with
  | [a] =>
      require (a.deleted.truthy = false) (evidenceError "artifact path not available in receipt")
      match bus.artifacts.get? (a.sha256.getD []) with
      | some row => return row.1
      | none => throw .typeError
  | _ => throw (evidenceError "artifact path not available in receipt")

/-! ## Loops over lists in another order -/

section Orders

omit [FloatModel]

variable {α β : Type} {f : α → Except PyExn β}

/-- A loop over the elements in another order returns the results in that order. -/
theorem mapE_perm {xs ys : List α} (h : xs.Perm ys) {rs : List β} (hrs : mapE f xs = .ok rs) :
    ∃ ss, mapE f ys = .ok ss ∧ rs.Perm ss := by
  induction h generalizing rs with
  | nil => exact ⟨rs, hrs, List.Perm.refl _⟩
  | cons x _ ih =>
      obtain ⟨r, hr, hrs⟩ := bind_eq_ok.1 hrs
      obtain ⟨rest, hrest, hrs⟩ := bind_eq_ok.1 hrs
      cases hrs
      obtain ⟨ss, hss, hperm⟩ := ih hrest
      exact ⟨r :: ss, bind_eq_ok.2 ⟨r, hr, bind_eq_ok.2 ⟨ss, hss, rfl⟩⟩, hperm.cons r⟩
  | swap x y xs =>
      obtain ⟨r, hr, hrs⟩ := bind_eq_ok.1 hrs
      obtain ⟨rest, hrest, hrs⟩ := bind_eq_ok.1 hrs
      cases hrs
      obtain ⟨s, hs, hrest⟩ := bind_eq_ok.1 hrest
      obtain ⟨more, hmore, hrest⟩ := bind_eq_ok.1 hrest
      cases hrest
      refine ⟨s :: r :: more, ?_, List.Perm.swap s r more⟩
      exact bind_eq_ok.2 ⟨s, hs, bind_eq_ok.2 ⟨r :: more,
        bind_eq_ok.2 ⟨r, hr, bind_eq_ok.2 ⟨more, hmore, rfl⟩⟩, rfl⟩⟩
  | trans _ _ ih ih' =>
      obtain ⟨ss, hss, hperm⟩ := ih hrs
      obtain ⟨ts, hts, hperm'⟩ := ih' hss
      exact ⟨ts, hts, hperm.trans hperm'⟩

/-- A key has the same value in a dictionary with its items in another order. -/
theorem get?_perm {d e : Dict Str β} (h : d.Perm e) (hnd : d.keys.Nodup) (k : Str) :
    d.get? k = e.get? k := by
  have hnd' : e.keys.Nodup := (h.map Prod.fst).nodup_iff.1 hnd
  cases hd : d.get? k with
  | some v => exact (Dict.get?_of_mem hnd' (h.mem_iff.1 (Dict.mem_of_get? hd))).symm
  | none =>
      rw [Dict.get?_eq_none_iff] at hd
      have he : k ∉ e.keys := fun hk => hd ((h.map Prod.fst).mem_iff.2 hk)
      exact (Dict.get?_eq_none_iff.2 he).symm

theorem require_congr {p q : Prop} [Decidable p] [Decidable q] (h : p ↔ q) (e : PyExn) :
    require p e = require q e := by
  rw [require, require]
  exact if_congr h rfl rfl

end Orders

/-! ## The order of the supplied receipts -/

theorem suppliedReceipts_spec {consume : Str → Except PyExn ReceiptValue} {plan : ExecutionPlan}
    {hashes : List Str} {rs : List ReceiptValue} (h : suppliedReceipts consume plan hashes = .ok rs) :
    hashes.Nodup ∧ mapE consume hashes = .ok rs ∧ (∃ us, mapE (checkReceiptTask plan) rs = .ok us) ∧
      (rs.map ReceiptValue.taskId).Nodup := by
  rw [suppliedReceipts] at h
  obtain ⟨u, hnd, h⟩ := bind_eq_ok.1 h
  obtain ⟨xs, hxs, h⟩ := bind_eq_ok.1 h
  obtain ⟨us, hus, h⟩ := bind_eq_ok.1 h
  obtain ⟨u, htasks, h⟩ := bind_eq_ok.1 h
  cases h
  exact ⟨require_eq_ok.1 hnd, hxs, ⟨us, hus⟩, require_eq_ok.1 htasks⟩

theorem suppliedReceipts_perm {consume : Str → Except PyExn ReceiptValue} {plan : ExecutionPlan}
    {hashes hashes' : List Str} (hp : hashes.Perm hashes') {rs : List ReceiptValue}
    (h : suppliedReceipts consume plan hashes = .ok rs) :
    ∃ rs', suppliedReceipts consume plan hashes' = .ok rs' ∧ rs.Perm rs' := by
  obtain ⟨hnd, hxs, ⟨us, hus⟩, htasks⟩ := suppliedReceipts_spec h
  obtain ⟨rs', hrs', hperm⟩ := mapE_perm hp hxs
  obtain ⟨us', hus', -⟩ := mapE_perm hperm hus
  refine ⟨rs', ?_, hperm⟩
  exact bind_eq_ok.2 ⟨(), require_of (hp.nodup_iff.1 hnd), bind_eq_ok.2 ⟨rs', hrs',
    bind_eq_ok.2 ⟨us', hus', bind_eq_ok.2 ⟨(), require_of ((hperm.map _).nodup_iff.1 htasks), rfl⟩⟩⟩⟩

theorem byTask_eq {rs : List ReceiptValue} (h : (rs.map ReceiptValue.taskId).Nodup) :
    byTask rs = rs.map fun r => (r.taskId, r) := by
  refine Dict.ofPairs_of_nodup ?_
  rw [List.map_map]
  exact h

theorem byTask_keys {rs : List ReceiptValue} (h : (rs.map ReceiptValue.taskId).Nodup) :
    (byTask rs).keys = rs.map ReceiptValue.taskId := by
  rw [byTask_eq h, Dict.keys, List.map_map]
  rfl

theorem checkParents_congr (plan : ExecutionPlan) {d e : Dict Str ReceiptValue} (h : d.Perm e)
    (hnd : d.keys.Nodup) : checkParents plan d = checkParents plan e := by
  have hget : ∀ k, d.get? k = e.get? k := get?_perm h hnd
  have hdep : dependencyHash d = dependencyHash e := by
    funext k
    rw [dependencyHash, dependencyHash, hget]
  have hkeys : ∀ k, k ∈ d.keys ↔ k ∈ e.keys := fun k => (h.map Prod.fst).mem_iff
  funext item
  rw [checkParents, checkParents, hdep]
  congr 1
  exact require_congr (forall₂_congr fun k _ => hkeys k) _

theorem integrationPlan_spec {consume : Str → Except PyExn ReceiptValue} {plan : ExecutionPlan}
    {hashes : List Str} {p : EvidenceIntegrationPlan} (h : integrationPlan consume plan hashes = .ok p) :
    ∃ rs tasks, suppliedReceipts consume plan hashes = .ok rs ∧
      (∃ us, mapE (checkParents plan (byTask rs)) (byTask rs) = .ok us) ∧
      layers plan.dependsOn (byTask rs).length (byTask rs).keys [] = some tasks ∧
      (∃ hs, mapE ReceiptValue.receiptHash (tasks.filterMap (byTask rs).get?) = .ok hs) ∧
      (∃ hash, p.planHash = .ok hash) ∧ p = planOf plan tasks (tasks.filterMap (byTask rs).get?) := by
  rw [integrationPlan] at h
  obtain ⟨rs, hrs, h⟩ := bind_eq_ok.1 h
  obtain ⟨us, hus, h⟩ := bind_eq_ok.1 h
  cases hl : layers plan.dependsOn (byTask rs).length (byTask rs).keys [] with
  | none =>
      rw [hl] at h
      cases h
  | some tasks =>
      rw [hl] at h
      obtain ⟨hs, hhs, h⟩ := bind_eq_ok.1 h
      obtain ⟨hash, hhash, h⟩ := bind_eq_ok.1 h
      cases h
      exact ⟨rs, tasks, hrs, ⟨us, hus⟩, hl, ⟨hs, hhs⟩, ⟨hash, hhash⟩, rfl⟩

/-- The plan does not depend on the order in which the receipts are supplied. -/
theorem integrationPlan_perm {consume : Str → Except PyExn ReceiptValue} {plan : ExecutionPlan}
    {hashes hashes' : List Str} (hp : hashes.Perm hashes') {p : EvidenceIntegrationPlan}
    (h : integrationPlan consume plan hashes = .ok p) : integrationPlan consume plan hashes' = .ok p := by
  obtain ⟨rs, tasks, hrs, ⟨us, hus⟩, hl, ⟨hs, hhs⟩, ⟨hash, hhash⟩, rfl⟩ := integrationPlan_spec h
  obtain ⟨rs', hrs', hperm⟩ := suppliedReceipts_perm hp hrs
  have hnd := (suppliedReceipts_spec hrs).2.2.2
  have htable : (byTask rs).Perm (byTask rs') := by
    rw [byTask_eq hnd, byTask_eq ((hperm.map _).nodup_iff.1 hnd)]
    exact hperm.map _
  have hkeys : (byTask rs).keys.Nodup := by
    rw [byTask_keys hnd]
    exact hnd
  have hget : (byTask rs).get? = (byTask rs').get? := funext (get?_perm htable hkeys)
  obtain ⟨us', hus', -⟩ := mapE_perm htable hus
  rw [checkParents_congr plan htable hkeys] at hus'
  have hperms : (byTask rs).keys.Perm (byTask rs').keys := htable.map Prod.fst
  rw [htable.length_eq, layers_congr hperms] at hl
  rw [hget] at hhs hhash ⊢
  refine bind_eq_ok.2 ⟨rs', hrs', bind_eq_ok.2 ⟨us', hus', ?_⟩⟩
  rw [hl]
  exact bind_eq_ok.2 ⟨hs, hhs, bind_eq_ok.2 ⟨hash, hhash, rfl⟩⟩

/-! ## Paths of the plan -/

/-- Whether planned or in conflict, a path is reported under its name. -/
theorem planPath_path (ordered : List ReceiptValue) (path : Str) :
    (planPath ordered path).elim PlannedArtifact.path IntegrationConflict.path = path := by
  rw [planPath]
  split <;> rfl

/-- The planned paths and the paths in conflict are those of the list. -/
theorem split_paths_perm (ordered : List ReceiptValue) (paths : List Str) :
    ((paths.filterMap fun path => (planPath ordered path).getLeft?).map PlannedArtifact.path ++
      (paths.filterMap fun path => (planPath ordered path).getRight?).map IntegrationConflict.path).Perm
        paths := by
  induction paths with
  | nil => exact List.Perm.refl _
  | cons path paths ih =>
      have hpath := planPath_path ordered path
      cases hp : planPath ordered path with
      | inl a =>
          rw [hp] at hpath
          have hpath : a.path = path := hpath
          simp only [List.filterMap_cons, hp, Sum.getLeft?_inl, Sum.getRight?_inl, List.map_cons, hpath,
            List.cons_append]
          exact ih.cons path
      | inr c =>
          rw [hp] at hpath
          have hpath : c.path = path := hpath
          simp only [List.filterMap_cons, hp, Sum.getLeft?_inr, Sum.getRight?_inr, List.map_cons, hpath]
          exact List.perm_middle.trans (ih.cons path)

theorem plannedPaths_nodup (ordered : List ReceiptValue) : (plannedPaths ordered).Nodup :=
  (List.perm_insertionSort _ _).nodup_iff.2 (List.nodup_dedup _)

theorem mem_plannedPaths {ordered : List ReceiptValue} {path : Str} :
    path ∈ plannedPaths ordered ↔ ∃ r ∈ ordered, ∃ a ∈ r.artifacts, a.path = path := by
  rw [plannedPaths, List.mem_insertionSort, List.mem_dedup, List.mem_map]
  constructor
  · rintro ⟨e, he, rfl⟩
    obtain ⟨r, hr, he⟩ := List.mem_flatMap.1 he
    obtain ⟨a, ha, rfl⟩ := List.mem_map.1 he
    exact ⟨r, hr, a, ha, rfl⟩
  · rintro ⟨r, hr, a, ha, rfl⟩
    exact ⟨_, List.mem_flatMap.2 ⟨r, hr, List.mem_map.2 ⟨a, ha, rfl⟩⟩, rfl⟩

theorem mem_entriesAt {ordered : List ReceiptValue} {path : Str} {e : PathEntry} :
    e ∈ entriesAt ordered path ↔ ∃ r ∈ ordered, ∃ a ∈ r.artifacts, a.path = path ∧
      e = ⟨r.hash, a.sha256, a.deleted⟩ := by
  rw [entriesAt, List.mem_map]
  constructor
  · rintro ⟨x, hx, rfl⟩
    obtain ⟨hx, hpath⟩ := List.mem_filter.1 hx
    obtain ⟨r, hr, hx⟩ := List.mem_flatMap.1 hx
    obtain ⟨a, ha, rfl⟩ := List.mem_map.1 hx
    exact ⟨r, hr, a, ha, of_decide_eq_true hpath, rfl⟩
  · rintro ⟨r, hr, a, ha, rfl, rfl⟩
    exact ⟨_, List.mem_filter.2 ⟨List.mem_flatMap.2 ⟨r, hr, List.mem_map.2 ⟨a, ha, rfl⟩⟩,
      decide_eq_true rfl⟩, rfl⟩

/-- A planned path has one state, and it is that of the planned artifact. -/
theorem planPath_inl {ordered : List ReceiptValue} {path : Str} {a : PlannedArtifact}
    (h : planPath ordered path = .inl a) {e : PathEntry} (he : e ∈ entriesAt ordered path) :
    e.sha256 = a.sha256 ∧ e.deleted.plain = a.deleted.plain := by
  rw [planPath] at h
  split at h
  · cases h
  · rename_i hlen
    cases h
    obtain ⟨x, xs, hx⟩ := List.exists_cons_of_ne_nil (List.ne_nil_of_mem he)
    -- both states are members of a list with at most one element
    have hmem : ∀ y ∈ entriesAt ordered path, (y.sha256, y.deleted.plain) ∈ statesOf (entriesAt ordered path) :=
      fun y hy => List.mem_dedup.2 (List.mem_map.2 ⟨y, hy, rfl⟩)
    have hex := hmem e he
    have hxx := hmem x (by rw [hx]; exact List.mem_cons_self)
    have hone : (e.sha256, e.deleted.plain) = (x.sha256, x.deleted.plain) := by
      match hs : statesOf (entriesAt ordered path), hlen with
      | [], _ =>
          rw [hs] at hex
          cases hex
      | [s], _ =>
          rw [hs] at hex hxx
          rw [List.mem_singleton.1 hex, List.mem_singleton.1 hxx]
      | s :: t :: rest, hlen => simp at hlen
    rw [hx]
    exact ⟨congrArg Prod.fst hone, congrArg Prod.snd hone⟩

/-! ## Receipts of the bus -/

section Bus

variable {ed : Ed25519} {bus : EvidenceBus} {publicKey : Bytes} {accepted : List WorkerReceipt}

/-- A receipt that can be consumed is one of those that were accepted. -/
theorem consumable_accepted (h : EvidenceBus.Stored bus accepted) {hash : Str} {v : ReceiptValue}
    (hc : bus.consumable ed hash publicKey = .ok v) : ∃ r ∈ accepted, r.toValue = v ∧ r.hash = hash := by
  obtain ⟨hget, -, -⟩ := EvidenceBus.consumable_spec hc
  rw [EvidenceBus.get] at hget
  obtain ⟨u, -, hget⟩ := bind_eq_ok.1 hget
  cases hrow : bus.row? hash with
  | none =>
      rw [hrow] at hget
      cases hget
  | some row =>
      rw [hrow] at hget
      have hhash : row.receiptHash = hash := by simpa using List.find?_some hrow
      obtain ⟨pre, r, post, hrs, rfl, rfl⟩ := h.loaded_iff.1 ⟨List.mem_of_find?_eq_some hrow, hget⟩
      exact ⟨r, by rw [hrs]; simp, rfl, hhash⟩

/-- The bytes of an artifact are those that are stored under its hash. -/
theorem artifact_stored (h : EvidenceBus.Stored bus accepted) {r : WorkerReceipt} (hr : r ∈ accepted)
    {b : ArtifactBinding} (hb : b ∈ r.artifacts) {data : Bytes}
    (hart : bus.artifact ed publicKey r.hash b.path = .ok data) :
    ∃ n, bus.artifacts.get? (b.sha256.getD []) = some (data, n) := by
  rw [EvidenceBus.artifact] at hart
  obtain ⟨v, hc, hread⟩ := bind_eq_ok.1 hart
  obtain ⟨r', hr', rfl, hhash⟩ := consumable_accepted h hc
  obtain rfl := List.inj_on_of_nodup_map h.nodup hr' hr hhash
  have hmem : b.toValue ∈ r'.toValue.artifacts.filter fun a => a.path = b.path :=
    List.mem_filter.2 ⟨List.mem_map.2 ⟨b, hb, rfl⟩, decide_eq_true rfl⟩
  split at hread
  · rename_i a ha
    rw [ha, List.mem_singleton] at hmem
    obtain ⟨u, -, hrow⟩ := bind_eq_ok.1 hread
    rw [← hmem] at hrow
    split at hrow
    · rename_i row hget
      cases hrow
      exact ⟨row.2, hget⟩
    · cases hrow
  · cases hread

/-- Receipts with the same state at a path leave the same bytes. -/
theorem artifactBytes_agree (h : EvidenceBus.Stored bus accepted) {src : Sources}
    (hsrc : src.artifact = bus.artifact ed publicKey) {path : Str} {r r' : WorkerReceipt}
    (hr : r ∈ accepted) (hr' : r' ∈ accepted)
    (hstate : ∀ a ∈ r.artifacts, ∀ a' ∈ r'.artifacts, a.path = path → a'.path = path →
      a.sha256 = a'.sha256 ∧ a.deleted = a'.deleted) {x x' : Option Bytes}
    (hx : artifactBytes src r path = .ok x) (hx' : artifactBytes src r' path = .ok x') : x = x' := by
  rw [artifactBytes] at hx hx'
  split at hx
  · cases hx
  · rename_i a ha
    split at hx'
    · cases hx'
    · rename_i a' ha'
      have hpath : a.path = path := by simpa using List.find?_some ha
      have hpath' : a'.path = path := by simpa using List.find?_some ha'
      have hmem := List.mem_of_find?_eq_some ha
      have hmem' := List.mem_of_find?_eq_some ha'
      obtain ⟨hsha, hdel⟩ := hstate a hmem a' hmem' hpath hpath'
      rw [hdel] at hx
      split at hx
      · rename_i htrue
        rw [if_pos htrue] at hx'
        cases hx
        cases hx'
        rfl
      · rename_i hfalse
        rw [if_neg hfalse] at hx'
        obtain ⟨data, hdata, hx⟩ := bind_eq_ok.1 hx
        obtain ⟨data', hdata', hx'⟩ := bind_eq_ok.1 hx'
        cases hx
        cases hx'
        rw [hsrc, ← hpath] at hdata
        rw [hsrc, ← hpath'] at hdata'
        obtain ⟨n, hn⟩ := artifact_stored h hr hmem hdata
        obtain ⟨n', hn'⟩ := artifact_stored h hr' hmem' hdata'
        rw [hsha, hn'] at hn
        cases hn
        rfl

end Bus

/-! ## Classification of paths in one state -/

/-- The receipts leave the same bytes at the path. -/
def SameBytes (src : Sources) (path : Str) (values : List WorkerReceipt) : Prop :=
  ∀ r ∈ values, ∀ r' ∈ values, ∀ x x', artifactBytes src r path = .ok x →
    artifactBytes src r' path = .ok x' → x = x'

theorem incomparable_subset (anc : Dict Str (List Str)) (values : List WorkerReceipt) :
    incomparable anc values ⊆ values := List.filter_subset_self _

/-- Receipts that leave the same bytes have the same edits. -/
theorem edits_eq {src : Sources} {path : Str} {inc : List WorkerReceipt} {bases : List (Option Bytes)}
    (hbases : mapE (fun r : WorkerReceipt => gitBlob src r.inputCommit path) inc = .ok bases)
    (hsame : ∀ v ∈ bases.tail, v = bases.headD none) (hbytes : SameBytes src path inc)
    {r r' : WorkerReceipt} (hr : r ∈ inc) (hr' : r' ∈ inc) {e e' : Finset Edit}
    (he : editSet src path r = .ok e) (he' : editSet src path r' = .ok e') : e = e' := by
  obtain ⟨a, ha, he⟩ := bind_eq_ok.1 he
  obtain ⟨b, hb, he⟩ := bind_eq_ok.1 he
  obtain ⟨a', ha', he'⟩ := bind_eq_ok.1 he'
  obtain ⟨b', hb', he'⟩ := bind_eq_ok.1 he'
  rw [gitBlob_of_bases hbases hsame hr] at hb
  rw [gitBlob_of_bases hbases hsame hr'] at hb'
  cases hb
  cases hb'
  cases he
  cases he'
  rw [hbytes r hr r' hr' a a' ha ha']

/-- There is no conflict at a path where all receipts leave the same bytes. -/
theorem classifyPath_ne_conflict {src : Sources} {anc : Dict Str (List Str)} {values : List WorkerReceipt}
    {path : Str} (hbytes : SameBytes src path values) (c : IntegrationConflict) :
    classifyPath src anc values path ≠ .ok (.inr c) := by
  intro h
  simp only [classifyPath] at h
  split at h
  · cases h
  · split at h
    · cases h
    · rename_i hinc
      obtain ⟨bases, hbases, h⟩ := bind_eq_ok.1 h
      obtain ⟨u, hu, h⟩ := bind_eq_ok.1 h
      obtain ⟨edits, hedits, h⟩ := bind_eq_ok.1 h
      have hsub : SameBytes src path (incomparable anc values) := fun r hr r' hr' =>
        hbytes r (incomparable_subset anc values hr) r' (incomparable_subset anc values hr')
      split at h
      · cases h
      · rename_i hnone
        -- the first of the receipts is a candidate
        obtain ⟨r, hr⟩ : ∃ r, r ∈ incomparable anc values :=
          List.exists_mem_of_length_pos (by omega)
        obtain ⟨e, he, hre⟩ := mem_zip_of_mapE hedits hr
        have hcand : (r, e) ∈ ((incomparable anc values).zip edits).filter fun x =>
            ((incomparable anc values).zip edits).all fun o => decide (o.2 ⊆ x.2) := by
          refine List.mem_filter.2 ⟨he, List.all_eq_true.2 fun o ho => decide_eq_true ?_⟩
          obtain ⟨ho₁, ho₂⟩ := of_mem_zip_mapE hedits ho
          rw [edits_eq hbases (require_eq_ok.1 hu) hsub ho₁ hr ho₂ hre]
        have hne := List.ne_nil_of_mem (List.mem_map_of_mem (f := fun x => (x.2.card, x.1.hash)) hcand)
        revert hnone
        cases hl : (((incomparable anc values).zip edits).filter fun x =>
            ((incomparable anc values).zip edits).all fun o => decide (o.2 ⊆ x.2)).map
              fun x => (x.2.card, x.1.hash) with
        | nil => exact fun _ => hne hl
        | cons x xs => exact fun h => by cases h

theorem classifyPath_winner_mem {src : Sources} {anc : Dict Str (List Str)} {values : List WorkerReceipt}
    {path winner : Str} (hne : values ≠ []) (h : classifyPath src anc values path = .ok (.inl winner)) :
    ∃ r ∈ values, r.hash = winner := by
  rcases classifyPath_cases h with ⟨-, rfl⟩ | ⟨bases, edits, -, -, hedits, e, he, rfl, -⟩
  · obtain ⟨pre, r, rfl⟩ : ∃ pre r, values = pre ++ [r] :=
      ⟨_, _, (List.dropLast_append_getLast hne).symm⟩
    exact ⟨r, by simp, by simp⟩
  · exact ⟨e.1, incomparable_subset anc values (of_mem_zip_mapE hedits he).1, rfl⟩

theorem classifyOverlaps_conflict {src : Sources} {receipts : List WorkerReceipt} {winners : Dict Str Str}
    {conflicts : List IntegrationConflict} (h : classifyOverlaps src receipts = .ok (winners, conflicts))
    {c : IntegrationConflict} (hc : c ∈ conflicts) :
    ∃ anc path, classifyPath src anc (receipts.filter (Touches path)) path = .ok (.inr c) := by
  obtain ⟨anc, hanc, h⟩ := bind_eq_ok.1 h
  obtain ⟨outcomes, hout, h⟩ := bind_eq_ok.1 h
  cases h
  obtain ⟨out, hmem, hright⟩ := List.mem_filterMap.1 hc
  obtain ⟨path, -, hclass⟩ := of_mem_mapE hout hmem
  obtain ⟨o, ho, heq⟩ := bind_eq_ok.1 hclass
  cases heq
  cases o with
  | inl w => cases hright
  | inr d =>
      cases hright
      exact ⟨anc, path, ho⟩

/-! ## Agreement -/

section Agreement

omit [FloatModel]

variable {α β : Type}

/-- A list of values of a function is the image of a list. -/
theorem exists_map_of_forall {f : α → β} {P : α → Prop} {l : List β} (h : ∀ y ∈ l, ∃ x, P x ∧ f x = y) :
    ∃ xs : List α, l = xs.map f ∧ ∀ x ∈ xs, P x := by
  induction l with
  | nil => exact ⟨[], rfl, nofun⟩
  | cons y l ih =>
      obtain ⟨x, hx, rfl⟩ := h y List.mem_cons_self
      obtain ⟨xs, rfl, hxs⟩ := ih fun z hz => h z (List.mem_cons_of_mem _ hz)
      exact ⟨x :: xs, rfl, List.forall_mem_cons.2 ⟨hx, hxs⟩⟩

/-- Looking up keys and taking the keys of what was found gives the keys back. -/
theorem map_filterMap_of_forall {get? : β → Option α} {key : α → β} {ks : List β}
    (h : ∀ k ∈ ks, ∃ x, get? k = some x ∧ key x = k) : (ks.filterMap get?).map key = ks := by
  induction ks with
  | nil => rfl
  | cons k ks ih =>
      obtain ⟨x, hx, hk⟩ := h k List.mem_cons_self
      rw [List.filterMap_cons_some hx, List.map_cons, hk, ih fun y hy => h y (List.mem_cons_of_mem _ hy)]

theorem mapE_map_of_forall {γ : Type} {f : β → Except PyExn γ} {g : α → β} {k : α → γ} {xs : List α}
    (h : ∀ x ∈ xs, f (g x) = .ok (k x)) : mapE f (xs.map g) = .ok (xs.map k) := by
  induction xs with
  | nil => rfl
  | cons x xs ih =>
      exact bind_eq_ok.2 ⟨k x, h x List.mem_cons_self, bind_eq_ok.2
        ⟨xs.map k, ih fun y hy => h y (List.mem_cons_of_mem _ hy), rfl⟩⟩

end Agreement

theorem byTask_get? {rs : List ReceiptValue} (hnd : (rs.map ReceiptValue.taskId).Nodup) {r : ReceiptValue}
    (hr : r ∈ rs) : (byTask rs).get? r.taskId = some r := by
  have hkeys : (byTask rs).keys.Nodup := by
    rw [byTask_keys hnd]
    exact hnd
  refine Dict.get?_of_mem hkeys ?_
  rw [byTask_eq hnd]
  exact List.mem_map.2 ⟨r, hr, rfl⟩

theorem ordered_receipts {plan : ExecutionPlan} {rs : List ReceiptValue} {tasks : List Str}
    (hnd : (rs.map ReceiptValue.taskId).Nodup)
    (h : layers plan.dependsOn (byTask rs).length (byTask rs).keys [] = some tasks) :
    (tasks.filterMap (byTask rs).get?).Perm rs ∧
      (tasks.filterMap (byTask rs).get?).map ReceiptValue.taskId = tasks := by
  have hperm : tasks.Perm (rs.map ReceiptValue.taskId) := by
    rw [byTask_keys hnd] at h
    exact layers_perm_append hnd h
  constructor
  · have hself : (rs.map ReceiptValue.taskId).filterMap (byTask rs).get? = rs := by
      rw [List.filterMap_map]
      refine (List.filterMap_congr fun r hr => ?_).trans List.filterMap_some
      exact byTask_get? hnd hr
    exact (hperm.filterMap _).trans (List.Perm.of_eq hself)
  · refine map_filterMap_of_forall fun k hk => ?_
    obtain ⟨r, hr, rfl⟩ := List.mem_map.1 (hperm.mem_iff.1 hk)
    exact ⟨r, byTask_get? hnd hr, rfl⟩

theorem plain_bool_injective {a b : Bool} (h : (Json.bool a).plain = (Json.bool b).plain) : a = b := by
  cases a <;> cases b <;> simp_all [Json.plain]

/-- The state of a planned artifact is that of the first entry. -/
theorem planPath_inl_head {ordered : List ReceiptValue} {path : Str} {a : PlannedArtifact}
    (h : planPath ordered path = .inl a) (hpath : path ∈ plannedPaths ordered) :
    ∃ e ∈ entriesAt ordered path, e.deleted = a.deleted := by
  obtain ⟨r, hr, b, hb, hbp⟩ := mem_plannedPaths.1 hpath
  have hmem := mem_entriesAt.2 ⟨r, hr, b, hb, hbp, rfl⟩
  obtain ⟨x, xs, hx⟩ := List.exists_cons_of_ne_nil (List.ne_nil_of_mem hmem)
  rw [planPath] at h
  split at h
  · cases h
  · cases h
    rw [hx]
    exact ⟨x, List.mem_cons_self, rfl⟩

theorem planPath_of_eligible {plan : ExecutionPlan} {tasks : List Str} {ordered : List ReceiptValue}
    (h : (planOf plan tasks ordered).conflicts = []) {path : Str} (hpath : path ∈ plannedPaths ordered) :
    ∃ a, planPath ordered path = .inl a := by
  cases hp : planPath ordered path with
  | inl a => exact ⟨a, rfl⟩
  | inr c =>
      have hc : c ∈ (planOf plan tasks ordered).conflicts :=
        List.mem_filterMap.2 ⟨path, hpath, by rw [hp]; rfl⟩
      rw [h] at hc
      cases hc

/-- In a plan without a conflict the receipts of a path have the same state there. -/
theorem state_eq_of_eligible {plan : ExecutionPlan} {tasks : List Str} {rs : List WorkerReceipt}
    (h : (planOf plan tasks (rs.map fun r => r.toValue)).conflicts = []) {r r' : WorkerReceipt}
    (hr : r ∈ rs) (hr' : r' ∈ rs) {a a' : ArtifactBinding} (ha : a ∈ r.artifacts) (ha' : a' ∈ r'.artifacts)
    (hpath : a.path = a'.path) : a.sha256 = a'.sha256 ∧ a.deleted = a'.deleted := by
  have hentry : ∀ x ∈ rs, ∀ b ∈ x.artifacts, (⟨x.toValue.hash, b.sha256, .bool b.deleted⟩ : PathEntry) ∈
      entriesAt (rs.map fun r => r.toValue) b.path := fun x hx b hb => mem_entriesAt.2
    ⟨x.toValue, List.mem_map.2 ⟨x, hx, rfl⟩, b.toValue, List.mem_map.2 ⟨b, hb, rfl⟩, rfl, rfl⟩
  have hplanned : a.path ∈ plannedPaths (rs.map fun r => r.toValue) := mem_plannedPaths.2
    ⟨r.toValue, List.mem_map.2 ⟨r, hr, rfl⟩, a.toValue, List.mem_map.2 ⟨a, ha, rfl⟩, rfl⟩
  obtain ⟨p, hp⟩ := planPath_of_eligible h hplanned
  obtain ⟨h1, h2⟩ := planPath_inl hp (hentry r hr a ha)
  have hother := hentry r' hr' a' ha'
  rw [← hpath] at hother
  obtain ⟨h1', h2'⟩ := planPath_inl hp hother
  exact ⟨h1.trans h1'.symm, plain_bool_injective (h2.trans h2'.symm)⟩

/-- The winner of a path has the planned state, and no conflict is reported. -/
theorem classify_of_eligible {ed : Ed25519} {bus : EvidenceBus} {publicKey : Bytes}
    {accepted rs : List WorkerReceipt} (hstored : EvidenceBus.Stored bus accepted) (hrs : rs ⊆ accepted)
    {plan : ExecutionPlan} {tasks : List Str}
    (helig : (planOf plan tasks (rs.map fun r => r.toValue)).conflicts = []) {src : Sources}
    (hsrc : src.artifact = bus.artifact ed publicKey) {winners : Dict Str Str}
    {conflicts : List IntegrationConflict} (h : classifyOverlaps src rs = .ok (winners, conflicts)) :
    conflicts = [] ∧ ∀ a ∈ (planOf plan tasks (rs.map fun r => r.toValue)).artifacts,
      ∃ r ∈ rs, winners.get? a.path = some r.hash ∧
        ∃ b ∈ r.artifacts, b.path = a.path ∧ b.sha256 = a.sha256 ∧ Json.bool b.deleted = a.deleted := by
  have hbytes : ∀ path, SameBytes src path (rs.filter (Touches path)) := by
    intro path r hr r' hr' x x' hx hx'
    have hr := (List.mem_filter.1 hr).1
    have hr' := (List.mem_filter.1 hr').1
    refine artifactBytes_agree hstored hsrc (hrs hr) (hrs hr') ?_ hx hx'
    intro a ha a' ha' hap hap'
    exact state_eq_of_eligible helig hr hr' ha ha' (hap.trans hap'.symm)
  have hnone : conflicts = [] := by
    refine List.eq_nil_iff_forall_not_mem.2 fun c hc => ?_
    obtain ⟨anc, path, hclass⟩ := classifyOverlaps_conflict h hc
    exact classifyPath_ne_conflict (hbytes path) c hclass
  refine ⟨hnone, fun a ha => ?_⟩
  obtain ⟨path, hpath, hleft⟩ := List.mem_filterMap.1 ha
  have hplan : planPath (rs.map fun r => r.toValue) path = .inl a := Sum.getLeft?_eq_some_iff.1 hleft
  have hap : a.path = path := by
    have hname := planPath_path (rs.map fun r => r.toValue) path
    rw [hplan] at hname
    exact hname
  obtain ⟨v, hv, x, hx, hxp⟩ := mem_plannedPaths.1 hpath
  obtain ⟨r₀, hr₀, rfl⟩ := List.mem_map.1 hv
  obtain ⟨b₀, hb₀, rfl⟩ := List.mem_map.1 hx
  have htouch : Touches path r₀ := List.mem_map.2 ⟨b₀, hb₀, hxp⟩
  obtain ⟨anc, winner, -, hclass, hwin⟩ := classifyOverlaps_winner h (mem_touchedPaths.2 ⟨r₀, hr₀, htouch⟩)
    (by rw [hnone]; nofun)
  have hne : rs.filter (Touches path) ≠ [] :=
    List.ne_nil_of_mem (List.mem_filter.2 ⟨hr₀, decide_eq_true htouch⟩)
  obtain ⟨r, hr, rfl⟩ := classifyPath_winner_mem hne hclass
  obtain ⟨hr, htr⟩ := List.mem_filter.1 hr
  obtain ⟨b, hb, hbp⟩ := List.mem_map.1 (of_decide_eq_true htr)
  have hentry : (⟨r.toValue.hash, b.sha256, .bool b.deleted⟩ : PathEntry) ∈
      entriesAt (rs.map fun r => r.toValue) path := mem_entriesAt.2
    ⟨r.toValue, List.mem_map.2 ⟨r, hr, rfl⟩, b.toValue, List.mem_map.2 ⟨b, hb, rfl⟩, hbp, rfl⟩
  obtain ⟨hsha, hplain⟩ := planPath_inl hplan hentry
  obtain ⟨e, he, hdel⟩ := planPath_inl_head hplan hpath
  obtain ⟨w, hw, y, hy, -, rfl⟩ := mem_entriesAt.1 he
  obtain ⟨r₁, hr₁, rfl⟩ := List.mem_map.1 hw
  obtain ⟨b₁, hb₁, rfl⟩ := List.mem_map.1 hy
  have hdel : Json.bool b₁.deleted = a.deleted := hdel
  refine ⟨r, hr, by rw [hap]; exact hwin, b, hb, hbp.trans hap.symm, hsha, ?_⟩
  rw [← hdel] at hplain ⊢
  exact congrArg Json.bool (plain_bool_injective hplain)

end ResidualHarness.Factory

namespace ResidualHarness.Factory
open Python Core
section Concrete
attribute [local instance] wholeFloats

/-- A receipt of the task `t` that deletes the file `a`, before it is signed. -/
def draftFields (signature : Str) : ReceiptData where
  receiptId := lit "1"
  executionPlanHash := List.replicate 64 0x30
  taskId := lit "t"
  workerId := lit "w"
  swarmId := lit "s"
  attemptId := lit "1"
  engineName := lit "e"
  engineVersion := lit "1"
  inputCommit := lit "c"
  outputCommit := lit "d"
  contractHash := List.replicate 64 0x30
  artifacts := [⟨lit "a", none, 0, true⟩]
  requirementsMet := []
  verificationResults := []
  overallVerdict := lit "pass"
  verifierIdentity := lit "v"
  verifierRevision := List.replicate 64 0x30
  parentReceipts := []
  supersedes := none
  issuedAtNs := 1
  stationKeyId := StationIdentity.keyId sampleKeys ()
  stationSignature := signature
  schemaVersion := receiptSchema

/-- The same receipt with its signature. -/
def signedFields : ReceiptData := draftFields
  (toHex (sampleKeys.sign () (signedMessage (digestText (.obj (draftFields []).unsignedPayload)))))

/-- It passes the constructor. -/
def signedSample : WorkerReceipt where
  toReceiptData := signedFields
  made := ⟨signedFields, by decide +kernel, by decide +kernel⟩

/-- A plan with one task. -/
def samplePlan : ExecutionPlan := ⟨List.replicate 64 0x30, [⟨lit "t", []⟩]⟩

theorem sample_isOk : (integrationPlan (fun hash => (EvidenceBus.run [.append signedSample []]).consumable
    sampleKeys hash (sampleKeys.publicBytes ())) samplePlan [signedSample.hash]).isOk = true := by
  decide +kernel

theorem exists_of_isOk {α : Type} {x : Except PyExn α} (h : x.isOk = true) : ∃ a, x = .ok a := by
  cases x with
  | ok a => exact ⟨a, rfl⟩
  | error e => cases h

end Concrete
end ResidualHarness.Factory
