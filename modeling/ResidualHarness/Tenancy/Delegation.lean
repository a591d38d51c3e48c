import ResidualHarness.Tenancy.Tenant

/-!
# Delegated executions

`residual/tenancy/delegation.py`: grants between two tenants, approval requests in the grantor's
queue, and executions whose receipts go to the chains of both. Nothing takes an approval off the
queue or marks it used. A run in which every execution presents an approval that no receipt of its
grant carries yet has at most one execution per approved request (`executions_within_approvals`).
-/

set_option autoImplicit false

namespace ResidualHarness.Tenancy

open Python Core

section

variable [FloatModel]

/-! ## Grants -/

/-- `DelegationGrant.__post_init__`. -/
def grantChecks (id grantor grantee : Str) (taskTypes resources : List Str) (expiresAt : Int) :
    Except PyExn Unit := do
  identifier id
  identifier grantor
  identifier grantee
  require (grantor ≠ grantee) (contractError "delegation requires two distinct tenants")
  require (taskTypes ≠ [] ∧ ∀ t ∈ taskTypes, t ≠ [])
    (contractError "delegation task_types must be non-empty")
  require (resources ≠ [] ∧ ∀ r ∈ resources, r ≠ [])
    (contractError "delegation resources must be non-empty")
  require (0 ≤ expiresAt) (contractError "delegation expires_at must be a nonnegative integer")

/-- `DelegationGrant`, with the checks of its constructor passed. -/
structure DelegationGrant where
  id : Str
  grantor : Str
  grantee : Str
  taskTypes : List Str
  resources : List Str
  expiresAt : Int
  checked : grantChecks id grantor grantee taskTypes resources expiresAt = .ok ()

/-- `permits(task_type, resource, now)`. -/
def DelegationGrant.permits (g : DelegationGrant) (taskType resource : Str) (now : Int) : Bool :=
  decide (now ≤ g.expiresAt) && decide (taskType ∈ g.taskTypes) && decide (resource ∈ g.resources)

omit [FloatModel] in
theorem DelegationGrant.distinct (g : DelegationGrant) : g.grantor ≠ g.grantee := by
  obtain ⟨_, _, h⟩ := bind_eq_ok.1 g.checked
  obtain ⟨_, _, h⟩ := bind_eq_ok.1 h
  obtain ⟨_, _, h⟩ := bind_eq_ok.1 h
  obtain ⟨_, h, _⟩ := bind_eq_ok.1 h
  exact require_eq_ok.1 h

/-! ## Receipts -/

/-- `DelegationReceipt`. -/
structure DelegationReceipt where
  grantId : Str
  taskType : Str
  resource : Str
  executedAt : Int
  approvalId : Str
  resultDigest : Str
deriving DecidableEq

/-- The fields of a receipt. -/
def DelegationReceipt.body (r : DelegationReceipt) : Fields :=
  [(lit "grant_id", .str r.grantId), (lit "task_type", .str r.taskType),
    (lit "resource", .str r.resource), (lit "executed_at", .int r.executedAt),
    (lit "approval_id", .str r.approvalId), (lit "result_digest", .str r.resultDigest)]

/-- `receipt_hash`. -/
def DelegationReceipt.receiptHash (r : DelegationReceipt) : Except PyExn Str := digest (.obj r.body)

/-- `to_dict()`. -/
def DelegationReceipt.toDict (r : DelegationReceipt) : Except PyExn Fields := do
  return (lit "receipt_hash", .str (← r.receiptHash)) :: r.body

/-! ## The engine -/

/-- `DelegationEngine`. -/
structure DelegationEngine where
  tenants : Dict Str TenantState
  grants : Dict Str DelegationGrant

/-- `self.tenants[id]`. -/
def DelegationEngine.tenant (e : DelegationEngine) (id : Str) : Except PyExn TenantState :=
  match e.tenants.get? id with
  | some s => .ok s
  | none => .error .keyError

/-- `add_grant(grant)`. -/
def addGrant (e : DelegationEngine) (grant : DelegationGrant) : Except PyExn DelegationEngine := do
  require (grant.id ∉ e.grants.keys) (contractError "duplicate delegation grant id")
  require (grant.grantor ∈ e.tenants.keys) (contractError "delegation tenant is unknown")
  require (grant.grantee ∈ e.tenants.keys) (contractError "delegation tenant is unknown")
  return { e with grants := e.grants.set grant.id grant }

/-- `_scoped_grant(grant_id, task_type, resource, now)`. -/
def scopedGrant (e : DelegationEngine) (grantId taskType resource : Str) (now : Int) :
    Except PyExn DelegationGrant := do
  match e.grants.get? grantId with
  | none => .error (contractError "unknown delegation grant")
  | some grant =>
      require (¬ grant.expiresAt < now) (contractError "delegation grant has expired (ENT3-R4)")
      require (taskType ∈ grant.taskTypes ∧ resource ∈ grant.resources)
        (contractError "delegation scope violation (ENT3-R4)")
      return grant

/-- The request that `request_approval` enqueues. -/
def approvalRequest (grant : DelegationGrant) (approvalId taskType resource : Str) : Fields :=
  [(lit "kind", .str (lit "delegation-approval")), (lit "approval_id", .str approvalId),
    (lit "grant_id", .str grant.id), (lit "grantee", .str grant.grantee),
    (lit "task_type", .str taskType), (lit "resource", .str resource),
    (lit "approved", .bool false)]

/-- `request_approval(grant_id, task_type, resource, now)`. -/
def requestApproval (e : DelegationEngine) (grantId taskType resource : Str) (now : Int) :
    Except PyExn (Str × DelegationEngine) := do
  let grant ← scopedGrant e grantId taskType resource now
  let grantor ← e.tenant grant.grantor
  let approvalId ← digest (.obj
    [(lit "grant", .str grant.id), (lit "task", .str taskType), (lit "resource", .str resource),
      (lit "at", .int now), (lit "pending", .int grantor.hitlQueue.length)])
  let grantor' ← enqueueHitl grantor (.obj (approvalRequest grant approvalId taskType resource))
  return (approvalId, { e with tenants := e.tenants.set grant.grantor grantor' })

/-- The grantor approves one request of its queue: `queue[index]["approved"] = True`. -/
def approve (e : DelegationEngine) (tenantId : Str) (index : Nat) : DelegationEngine :=
  match e.tenants.get? tenantId with
  | none => e
  | some s =>
      let queue := s.hitlQueue.modify index fun request => Dict.set request (lit "approved") (.bool true)
      { e with tenants := e.tenants.set tenantId { s with hitlQueue := queue } }

/-- The request asks for this execution. -/
def Asks (request : Fields) (approvalId grantId taskType resource : Str) : Prop :=
  Dict.get? request (lit "approval_id") = some (.str approvalId) ∧
    Dict.get? request (lit "grant_id") = some (.str grantId) ∧
    Dict.get? request (lit "task_type") = some (.str taskType) ∧
    Dict.get? request (lit "resource") = some (.str resource)

instance (request : Fields) (approvalId grantId taskType resource : Str) :
    Decidable (Asks request approvalId grantId taskType resource) :=
  inferInstanceAs (Decidable (_ ∧ _ ∧ _ ∧ _))

/-- `request.get("approved")` is true. -/
def isApproved (request : Fields) : Bool :=
  ((Dict.get? request (lit "approved")).getD .null).truthy

/-- `_approved(grant, approval_id, task_type, resource)`. -/
def approved (e : DelegationEngine) (grant : DelegationGrant) (approvalId taskType resource : Str) :
    Except PyExn Fields := do
  let grantor ← e.tenant grant.grantor
  match grantor.hitlQueue.find? fun r => decide (Asks r approvalId grant.id taskType resource) with
  | none => .error (contractError "no HITL approval recorded for this execution (ENT3-R4)")
  | some request =>
      require (isApproved request = true)
        (contractError "grantor HITL approval is still pending (ENT3-R4)")
      return request

/-- The part of `execute` before the first append: the grant and the receipt. -/
def authorize (e : DelegationEngine) (grantId taskType resource : Str) (now : Int)
    (approvalId : Str) (result : Json) : Except PyExn (DelegationGrant × DelegationReceipt) := do
  let grant ← scopedGrant e grantId taskType resource now
  let approval ← approved e grant approvalId taskType resource
  match result with
  | .obj _ =>
      -- the request was found by this very string
      match Dict.get? approval (lit "approval_id") with
      | some (.str id) =>
          return (grant, ⟨grant.id, taskType, resource, now, id, ← digest result⟩)
      | _ => .error .typeError
  | _ => .error (contractError "delegation result must be a mapping")

/-- `self.tenants[tenant_id].state.append_receipt(receipt.to_dict())`. -/
def appendTo (e : DelegationEngine) (tenantId : Str) (receipt : DelegationReceipt) :
    Except PyExn DelegationEngine := do
  let s ← e.tenant tenantId
  let (_, s') ← appendReceipt s (.obj (← receipt.toDict))
  return { e with tenants := e.tenants.set tenantId s' }

/-- `execute(grant_id, task_type, resource, now, approval_id, result)`. -/
def execute (e : DelegationEngine) (grantId taskType resource : Str) (now : Int)
    (approvalId : Str) (result : Json) : Except PyExn DelegationReceipt × DelegationEngine :=
  match authorize e grantId taskType resource now approvalId result with
  | .error x => (.error x, e)
  | .ok (grant, receipt) =>
      match appendTo e grant.grantor receipt with
      | .error x => (.error x, e)
      | .ok e₁ =>
          match appendTo e₁ grant.grantee receipt with
          -- the grantor would keep its copy
          | .error x => (.error x, e₁)
          | .ok e₂ => (.ok receipt, e₂)

/-! ## What the calls do -/

omit [FloatModel] in
theorem tenant_ok [FloatModel] {e : DelegationEngine} {id : Str} {s : TenantState} :
    e.tenant id = .ok s ↔ e.tenants.get? id = some s := by
  rw [DelegationEngine.tenant]
  cases e.tenants.get? id with
  | none => exact ⟨nofun, nofun⟩
  | some t => exact ⟨fun h => by cases h; rfl, fun h => by cases h; rfl⟩

theorem addGrant_ok {e e' : DelegationEngine} {grant : DelegationGrant}
    (h : addGrant e grant = .ok e') :
    grant.id ∉ e.grants.keys ∧ grant.grantor ∈ e.tenants.keys ∧ grant.grantee ∈ e.tenants.keys ∧
      e' = { e with grants := e.grants.set grant.id grant } := by
  obtain ⟨_, h1, h⟩ := bind_eq_ok.1 h
  obtain ⟨_, h2, h⟩ := bind_eq_ok.1 h
  obtain ⟨_, h3, h⟩ := bind_eq_ok.1 h
  cases h
  exact ⟨require_eq_ok.1 h1, require_eq_ok.1 h2, require_eq_ok.1 h3, rfl⟩

theorem scopedGrant_ok {e : DelegationEngine} {grantId taskType resource : Str} {now : Int}
    {g : DelegationGrant} (h : scopedGrant e grantId taskType resource now = .ok g) :
    e.grants.get? grantId = some g ∧ g.permits taskType resource now = true := by
  rw [scopedGrant] at h
  split at h
  · cases h
  · rename_i grant hgrant
    obtain ⟨_, htime, h⟩ := bind_eq_ok.1 h
    obtain ⟨_, hscope, h⟩ := bind_eq_ok.1 h
    cases h
    refine ⟨hgrant, ?_⟩
    have ht : now ≤ g.expiresAt := not_lt.1 (require_eq_ok.1 htime)
    have hs := require_eq_ok.1 hscope
    simp [DelegationGrant.permits, ht, hs.1, hs.2]

theorem requestApproval_ok {e e' : DelegationEngine} {grantId taskType resource id : Str}
    {now : Int} (h : requestApproval e grantId taskType resource now = .ok (id, e')) :
    ∃ g s, e.grants.get? grantId = some g ∧ e.tenants.get? g.grantor = some s ∧
      e' = { e with tenants := (e.tenants.set g.grantor
        { s with hitlQueue := s.hitlQueue ++ [approvalRequest g id taskType resource] }) } := by
  obtain ⟨g, hg, h⟩ := bind_eq_ok.1 h
  obtain ⟨s, hs, h⟩ := bind_eq_ok.1 h
  obtain ⟨d, -, h⟩ := bind_eq_ok.1 h
  obtain ⟨s', hs', h⟩ := bind_eq_ok.1 h
  cases h
  cases hs'
  exact ⟨g, s, (scopedGrant_ok hg).1, tenant_ok.1 hs, rfl⟩

theorem approved_ok {e : DelegationEngine} {g : DelegationGrant} {approvalId taskType resource : Str}
    {request : Fields} (h : approved e g approvalId taskType resource = .ok request) :
    ∃ s, e.tenants.get? g.grantor = some s ∧ request ∈ s.hitlQueue ∧
      Asks request approvalId g.id taskType resource ∧ isApproved request = true := by
  obtain ⟨s, hs, h⟩ := bind_eq_ok.1 h
  split at h
  · cases h
  · rename_i found hfound
    obtain ⟨_, hyes, h⟩ := bind_eq_ok.1 h
    cases h
    have hasks := List.find?_some hfound
    exact ⟨s, tenant_ok.1 hs, List.mem_of_find?_eq_some hfound, of_decide_eq_true hasks,
      require_eq_ok.1 hyes⟩

/-- What an authorised execution has: a grant that covers it and an approved request for it. -/
structure Authorized (e : DelegationEngine) (grantId : Str) (g : DelegationGrant)
    (r : DelegationReceipt) : Prop where
  grant : e.grants.get? grantId = some g
  named : r.grantId = g.id
  scope : g.permits r.taskType r.resource r.executedAt = true
  request : ∃ s request, e.tenants.get? g.grantor = some s ∧ request ∈ s.hitlQueue ∧
    Asks request r.approvalId g.id r.taskType r.resource ∧ isApproved request = true

theorem authorize_ok {e : DelegationEngine} {grantId taskType resource approvalId : Str}
    {now : Int} {result : Json} {g : DelegationGrant} {r : DelegationReceipt}
    (h : authorize e grantId taskType resource now approvalId result = .ok (g, r)) :
    Authorized e grantId g r ∧ r.approvalId = approvalId := by
  obtain ⟨g', hg, h⟩ := bind_eq_ok.1 h
  obtain ⟨request, hreq, h⟩ := bind_eq_ok.1 h
  obtain ⟨hgrant, hscope⟩ := scopedGrant_ok hg
  obtain ⟨s, hs, hmem, hasks, hyes⟩ := approved_ok hreq
  split at h
  · rw [hasks.1] at h
    obtain ⟨d, -, h⟩ := bind_eq_ok.1 h
    cases h
    exact ⟨⟨hgrant, rfl, hscope, s, request, hs, hmem, hasks, hyes⟩, rfl⟩
  · cases h

theorem appendTo_ok {e e' : DelegationEngine} {id : Str} {r : DelegationReceipt} :
    appendTo e id r = .ok e' ↔ ∃ s fields d, e.tenants.get? id = some s ∧ r.toDict = .ok fields ∧
      digest (commitment s.receiptChain fields) = .ok d ∧
      e' = { e with tenants := e.tenants.set id { s with
        receiptChain := s.receiptChain ++ [chainEntry fields s.receiptChain.length d] } } := by
  constructor
  · intro h
    obtain ⟨s, hs, h⟩ := bind_eq_ok.1 h
    obtain ⟨fields, hf, h⟩ := bind_eq_ok.1 h
    obtain ⟨⟨d, s'⟩, happ, h⟩ := bind_eq_ok.1 h
    cases h
    obtain ⟨hd, rfl⟩ := appendReceipt_ok.1 happ
    exact ⟨s, fields, d, tenant_ok.1 hs, hf, hd, rfl⟩
  · rintro ⟨s, fields, d, hs, hf, hd, rfl⟩
    exact bind_eq_ok.2 ⟨s, tenant_ok.2 hs, bind_eq_ok.2 ⟨fields, hf,
      bind_eq_ok.2 ⟨⟨d, _⟩, appendReceipt_ok.2 ⟨hd, rfl⟩, rfl⟩⟩⟩

/-! ## Sound engines -/

/-- Grants are filed under their own ids and name known tenants, and the chains of the tenants can
be extended: every `receipt_hash` on them can be digested. -/
structure Sound (e : DelegationEngine) : Prop where
  filed : ∀ id g, e.grants.get? id = some g → g.id = id
  known : ∀ id g, e.grants.get? id = some g →
    g.grantor ∈ e.tenants.keys ∧ g.grantee ∈ e.tenants.keys
  digestible : ∀ id s, e.tenants.get? id = some s → ∀ entry ∈ s.receiptChain,
    Digestible (hashField entry)

/-- An engine without grants over tenants whose chains were built by appending. -/
theorem sound_of_built {tenants : Dict Str TenantState}
    (h : ∀ id s, tenants.get? id = some s → ∃ rs, Built s.receiptChain rs) :
    Sound ⟨tenants, []⟩ := by
  refine ⟨?_, ?_, ?_⟩
  · intro id g hg
    cases hg
  · intro id g hg
    cases hg
  intro id s hs
  obtain ⟨rs, hrs⟩ := h id s hs
  exact hrs.digestible

/-- The digest of a commitment depends on the parts having one. -/
theorem digestible_commitment {chain : List Fields} {fields : Fields} :
    Digestible (commitment chain fields) ↔
      (∀ entry ∈ chain, Digestible (hashField entry)) ∧ Digestible (.obj fields) := by
  rw [commitment, digestible_arr]
  constructor
  · intro h
    exact ⟨fun entry he => h _ (List.mem_append_left _ (List.mem_map_of_mem he)), h _ (by simp)⟩
  · rintro ⟨hchain, hfields⟩ v hv
    rcases List.mem_append.1 hv with hv | hv
    · obtain ⟨entry, he, rfl⟩ := List.mem_map.1 hv
      exact hchain entry he
    · rw [List.mem_singleton.1 hv]
      exact hfields

/-- After the grantor's append, the grantee's does not fail. -/
theorem appendTo_grantee {e e₁ : DelegationEngine} {id : Str} {g : DelegationGrant}
    {r : DelegationReceipt} (he : Sound e) (hg : e.grants.get? id = some g)
    (h : appendTo e g.grantor r = .ok e₁) : ∃ e₂, appendTo e₁ g.grantee r = .ok e₂ := by
  obtain ⟨s, fields, d, hs, hf, hd, rfl⟩ := appendTo_ok.1 h
  obtain ⟨t, ht⟩ := Dict.mem_keys_iff.1 (he.known id g hg).2
  have hdig : Digestible (commitment t.receiptChain fields) :=
    digestible_commitment.2 ⟨he.digestible _ t ht, (digestible_commitment.1 (digest_eq_ok_iff.1 hd).1).2⟩
  refine ⟨_, appendTo_ok.2 ⟨t, fields, _, ?_, hf, digest_of_digestible hdig, rfl⟩⟩
  rw [Dict.get?_set, if_neg g.distinct.symm]
  exact ht

/-- The engine after the receipt was appended to both chains. -/
structure Recorded (e : DelegationEngine) (g : DelegationGrant) (r : DelegationReceipt)
    (e' : DelegationEngine) : Prop where
  grants : e'.grants = e.grants
  others : ∀ id, id ≠ g.grantor → id ≠ g.grantee → e'.tenants.get? id = e.tenants.get? id
  both : ∃ fields, r.toDict = .ok fields ∧ ∀ id, id = g.grantor ∨ id = g.grantee →
    ∃ s d, e.tenants.get? id = some s ∧ digest (commitment s.receiptChain fields) = .ok d ∧
      e'.tenants.get? id = some { s with
        receiptChain := s.receiptChain ++ [chainEntry fields s.receiptChain.length d] }

theorem execute_error {e e' : DelegationEngine} {grantId taskType resource approvalId : Str}
    {now : Int} {result : Json} {x : PyExn} (he : Sound e)
    (h : execute e grantId taskType resource now approvalId result = (.error x, e')) : e' = e := by
  rw [execute] at h
  cases hauth : authorize e grantId taskType resource now approvalId result with
  | error y =>
      simp only [hauth] at h
      cases h
      rfl
  | ok gr =>
      obtain ⟨g, r⟩ := gr
      simp only [hauth] at h
      cases hfirst : appendTo e g.grantor r with
      | error y =>
          simp only [hfirst] at h
          cases h
          rfl
      | ok e₁ =>
          obtain ⟨e₂, hsecond⟩ := appendTo_grantee he (authorize_ok hauth).1.grant hfirst
          simp only [hfirst, hsecond] at h
          cases h

/-- An execution that returns was authorised and appended its receipt to both chains. -/
theorem execute_ok {e e' : DelegationEngine} {grantId taskType resource approvalId : Str}
    {now : Int} {result : Json} {r : DelegationReceipt}
    (h : execute e grantId taskType resource now approvalId result = (.ok r, e')) :
    ∃ g, Authorized e grantId g r ∧ r.approvalId = approvalId ∧ Recorded e g r e' := by
  rw [execute] at h
  cases hauth : authorize e grantId taskType resource now approvalId result with
  | error y =>
      simp only [hauth] at h
      cases h
  | ok gr =>
      obtain ⟨g, r'⟩ := gr
      simp only [hauth] at h
      cases hfirst : appendTo e g.grantor r' with
      | error y =>
          simp only [hfirst] at h
          cases h
      | ok e₁ =>
          simp only [hfirst] at h
          cases hsecond : appendTo e₁ g.grantee r' with
          | error y =>
              simp only [hsecond] at h
              cases h
          | ok e₂ =>
              simp only [hsecond] at h
              cases h
              obtain ⟨hok, hid⟩ := authorize_ok hauth
              refine ⟨g, hok, hid, ?_⟩
              obtain ⟨s, fields, d, hs, hf, hd, rfl⟩ := appendTo_ok.1 hfirst
              obtain ⟨t, fields', d', ht, hf', hd', rfl⟩ := appendTo_ok.1 hsecond
              cases hf.symm.trans hf'
              rw [Dict.get?_set, if_neg g.distinct.symm] at ht
              refine ⟨rfl, ?_, fields, hf, ?_⟩
              · intro id h1 h2
                rw [Dict.get?_set, if_neg h2, Dict.get?_set, if_neg h1]
              · rintro id (rfl | rfl)
                · refine ⟨s, d, hs, hd, ?_⟩
                  rw [Dict.get?_set, if_neg g.distinct, Dict.get?_set, if_pos rfl]
                · refine ⟨t, d', ht, hd', ?_⟩
                  rw [Dict.get?_set, if_pos rfl]

/-! ## Runs -/

/-- The calls on an engine, with the approvals of the grantors between them. -/
inductive Call where
  | addGrant (grant : DelegationGrant)
  | requestApproval (grantId taskType resource : Str) (now : Int)
  | approve (tenantId : Str) (index : Nat)
  | execute (grantId taskType resource : Str) (now : Int) (approvalId : Str) (result : Json)

/-- One call: the engine after it and the receipt it produced. A call that raises before it has
written anything leaves the engine. -/
def step (e : DelegationEngine) : Call → DelegationEngine × Option DelegationReceipt
  | .addGrant grant =>
      match addGrant e grant with
      | .ok e' => (e', none)
      | .error _ => (e, none)
  | .requestApproval grantId taskType resource now =>
      match requestApproval e grantId taskType resource now with
      | .ok (_, e') => (e', none)
      | .error _ => (e, none)
  | .approve tenantId index => (approve e tenantId index, none)
  | .execute grantId taskType resource now approvalId result =>
      match execute e grantId taskType resource now approvalId result with
      | (.ok receipt, e') => (e', some receipt)
      | (.error _, e') => (e', none)

/-- A run: the engine at its end and the receipts produced, in order. -/
def run (e : DelegationEngine) : List Call → DelegationEngine × List DelegationReceipt
  | [] => (e, [])
  | c :: cs => ((run (step e c).1 cs).1, (step e c).2.toList ++ (run (step e c).1 cs).2)

/-- The entry is a receipt of this grant for this approval. -/
def CarriesApproval (entry : Fields) (grantId approvalId : Str) : Prop :=
  Dict.get? entry (lit "grant_id") = some (.str grantId) ∧
    Dict.get? entry (lit "approval_id") = some (.str approvalId)

instance (entry : Fields) (grantId approvalId : Str) :
    Decidable (CarriesApproval entry grantId approvalId) := inferInstanceAs (Decidable (_ ∧ _))

/-- No receipt of the grant on the grantor's chain carries the approval yet. -/
def Unspent (e : DelegationEngine) (grantId approvalId : Str) : Prop :=
  ∀ g s, e.grants.get? grantId = some g → e.tenants.get? g.grantor = some s →
    ∀ entry ∈ s.receiptChain, ¬ CarriesApproval entry grantId approvalId

/-- The condition on a call: an execution presents an unspent approval. -/
def Fresh (e : DelegationEngine) : Call → Prop
  | .execute grantId _ _ _ approvalId _ => Unspent e grantId approvalId
  | _ => True

/-- Every call of the run meets the condition in the state it is made in. -/
def AllFresh (e : DelegationEngine) : List Call → Prop
  | [] => True
  | c :: cs => Fresh e c ∧ AllFresh (step e c).1 cs

/-! ## What every call keeps -/

/-- A request that still asks for what it asked for, and is still approved if it was. -/
structure StillAsks (request request' : Fields) : Prop where
  fields : ∀ key, key ≠ lit "approved" → Dict.get? request' key = Dict.get? request key
  approved : isApproved request = true → isApproved request' = true

omit [FloatModel] in
theorem StillAsks.refl [FloatModel] (request : Fields) : StillAsks request request :=
  ⟨fun _ _ => rfl, id⟩

omit [FloatModel] in
theorem requestKeys_ne : lit "approval_id" ≠ lit "approved" ∧ lit "grant_id" ≠ lit "approved" ∧
    lit "task_type" ≠ lit "approved" ∧ lit "resource" ≠ lit "approved" := by
  decide

theorem StillAsks.asks {request request' : Fields} (h : StillAsks request request')
    {approvalId grantId taskType resource : Str}
    (hasks : Asks request approvalId grantId taskType resource) :
    Asks request' approvalId grantId taskType resource := by
  obtain ⟨k1, k2, k3, k4⟩ := requestKeys_ne
  obtain ⟨h1, h2, h3, h4⟩ := hasks
  exact ⟨(h.fields _ k1).trans h1, (h.fields _ k2).trans h2, (h.fields _ k3).trans h3,
    (h.fields _ k4).trans h4⟩

/-- The queue keeps its requests in their places, and the chain its entries. -/
structure Extends (s s' : TenantState) : Prop where
  queue : ∀ (i : Nat) (request : Fields), s.hitlQueue[i]? = some request →
    ∃ request', s'.hitlQueue[i]? = some request' ∧ StillAsks request request'
  chain : ∀ entry ∈ s.receiptChain, entry ∈ s'.receiptChain

theorem Extends.refl (s : TenantState) : Extends s s :=
  ⟨fun _ request h => ⟨request, h, .refl request⟩, fun _ h => h⟩

/-- What no call takes away. -/
structure Keeps (e e' : DelegationEngine) : Prop where
  grants : ∀ id g, e.grants.get? id = some g → e'.grants.get? id = some g
  tenants : ∀ id s, e.tenants.get? id = some s → ∃ s', e'.tenants.get? id = some s' ∧ Extends s s'

theorem Keeps.refl (e : DelegationEngine) : Keeps e e :=
  ⟨fun _ _ h => h, fun _ s h => ⟨s, h, .refl s⟩⟩

/-- Replacing the state of one tenant by an extension of it. -/
theorem keeps_set {e : DelegationEngine} {id : Str} {s s' : TenantState}
    (hs : e.tenants.get? id = some s) (h : Extends s s') :
    Keeps e { e with tenants := e.tenants.set id s' } := by
  refine ⟨fun _ _ h => h, ?_⟩
  intro id' t ht
  by_cases hid : id' = id
  · subst hid
    cases hs.symm.trans ht
    exact ⟨s', by rw [Dict.get?_set, if_pos rfl], h⟩
  · exact ⟨t, by rw [Dict.get?_set, if_neg hid]; exact ht, .refl t⟩

theorem extends_approve (s : TenantState) (index : Nat) :
    Extends s { s with hitlQueue := (s.hitlQueue.modify index
      fun request => Dict.set request (lit "approved") (.bool true)) } := by
  refine ⟨?_, fun _ h => h⟩
  intro i request hreq
  rw [List.getElem?_modify, hreq]
  refine ⟨_, rfl, ?_⟩
  by_cases hi : index = i
  · simp only [if_pos hi]
    constructor
    · intro key hkey
      rw [Dict.get?_set, if_neg hkey]
    · intro _
      rw [isApproved, Dict.get?_set, if_pos rfl]
      rfl
  · simp only [if_neg hi]
    exact .refl request

theorem extends_enqueue (s : TenantState) (request : Fields) :
    Extends s { s with hitlQueue := s.hitlQueue ++ [request] } := by
  refine ⟨?_, fun _ h => h⟩
  intro i r hr
  refine ⟨r, ?_, .refl r⟩
  rw [List.getElem?_append_left (List.getElem?_eq_some_iff.1 hr).1]
  exact hr

theorem Recorded.keeps {e e' : DelegationEngine} {g : DelegationGrant} {r : DelegationReceipt}
    (h : Recorded e g r e') : Keeps e e' := by
  refine ⟨fun id g' hg => by rw [h.grants]; exact hg, ?_⟩
  intro id s hs
  obtain ⟨fields, -, hboth⟩ := h.both
  by_cases hid : id = g.grantor ∨ id = g.grantee
  · obtain ⟨s', d, hs', -, hafter⟩ := hboth id hid
    cases hs.symm.trans hs'
    exact ⟨_, hafter, fun i request hreq => ⟨request, hreq, .refl request⟩,
      fun entry he => List.mem_append_left _ he⟩
  · rw [not_or] at hid
    exact ⟨s, by rw [h.others id hid.1 hid.2]; exact hs, .refl s⟩

theorem step_keeps {e : DelegationEngine} (he : Sound e) (c : Call) : Keeps e (step e c).1 := by
  cases c with
  | addGrant grant =>
      rw [step]
      split
      · rename_i e' h
        obtain ⟨hnew, -, -, rfl⟩ := addGrant_ok h
        refine ⟨?_, fun _ s h => ⟨s, h, .refl s⟩⟩
        intro id g hg
        have hne : id ≠ grant.id := by
          rintro rfl
          exact hnew (Dict.mem_keys_of_get? hg)
        rw [Dict.get?_set, if_neg hne]
        exact hg
      · exact .refl e
  | requestApproval grantId taskType resource now =>
      rw [step]
      split
      · rename_i e' h
        obtain ⟨g, s, -, hs, rfl⟩ := requestApproval_ok h
        exact keeps_set hs (extends_enqueue s _)
      · exact .refl e
  | approve tenantId index =>
      rw [step, approve]
      split
      · exact .refl e
      · rename_i s hs
        exact keeps_set hs (extends_approve s index)
  | execute grantId taskType resource now approvalId result =>
      rw [step]
      split
      · rename_i receipt e' h
        obtain ⟨g, -, -, hrec⟩ := execute_ok h
        exact hrec.keeps
      · rename_i x e' h
        rw [execute_error he h]
        exact .refl e

/-- Replacing one tenant's state, with a chain that can still be extended. -/
theorem sound_set {e : DelegationEngine} (he : Sound e) {id : Str} {s' : TenantState}
    (h : ∀ entry ∈ s'.receiptChain, Digestible (hashField entry)) :
    Sound { e with tenants := e.tenants.set id s' } := by
  refine ⟨he.filed, ?_, ?_⟩
  · intro id' g hg
    obtain ⟨h1, h2⟩ := he.known id' g hg
    exact ⟨Dict.mem_keys_set.2 (.inr h1), Dict.mem_keys_set.2 (.inr h2)⟩
  · intro id' t ht
    rw [Dict.get?_set] at ht
    split at ht
    · cases ht
      exact h
    · exact he.digestible id' t ht

theorem sound_recorded {e e' : DelegationEngine} (he : Sound e) {g : DelegationGrant}
    {r : DelegationReceipt} (h : Recorded e g r e') : Sound e' := by
  refine ⟨?_, ?_, ?_⟩
  · rw [h.grants]
    exact he.filed
  · intro id g' hg
    rw [h.grants] at hg
    obtain ⟨h1, h2⟩ := he.known id g' hg
    obtain ⟨s1, hs1⟩ := Dict.mem_keys_iff.1 h1
    obtain ⟨s2, hs2⟩ := Dict.mem_keys_iff.1 h2
    obtain ⟨t1, ht1, -⟩ := h.keeps.tenants _ s1 hs1
    obtain ⟨t2, ht2, -⟩ := h.keeps.tenants _ s2 hs2
    exact ⟨Dict.mem_keys_of_get? ht1, Dict.mem_keys_of_get? ht2⟩
  · intro id t ht
    obtain ⟨fields, -, hboth⟩ := h.both
    by_cases hid : id = g.grantor ∨ id = g.grantee
    · obtain ⟨s, d, hs, hd, hafter⟩ := hboth id hid
      cases hafter.symm.trans ht
      intro entry hentry
      rcases List.mem_append.1 hentry with hentry | hentry
      · exact he.digestible id s hs entry hentry
      · -- the new entry's hash is a field of the receipt that was just digested
        rw [List.mem_singleton.1 hentry, hashField_chainEntry, hashField]
        have hr := (digestible_commitment.1 (digest_eq_ok_iff.1 hd).1).2
        cases hget : Dict.get? fields (lit "receipt_hash") with
        | none => exact digestible_null
        | some v => exact (digestible_obj.1 hr _ (Dict.mem_of_get? hget)).2
    · rw [not_or] at hid
      rw [h.others id hid.1 hid.2] at ht
      exact he.digestible id t ht

theorem step_sound {e : DelegationEngine} (he : Sound e) (c : Call) : Sound (step e c).1 := by
  cases c with
  | addGrant grant =>
      rw [step]
      split
      · rename_i e' h
        obtain ⟨-, h1, h2, rfl⟩ := addGrant_ok h
        refine ⟨?_, ?_, he.digestible⟩
        · intro id g hg
          rw [Dict.get?_set] at hg
          split at hg
          · rename_i hid
            cases hg
            exact hid.symm
          · exact he.filed id g hg
        · intro id g hg
          rw [Dict.get?_set] at hg
          split at hg
          · cases hg
            exact ⟨h1, h2⟩
          · exact he.known id g hg
      · exact he
  | requestApproval grantId taskType resource now =>
      rw [step]
      split
      · rename_i id e' h
        obtain ⟨g, s, -, hs, rfl⟩ := requestApproval_ok h
        exact sound_set he (he.digestible _ s hs)
      · exact he
  | approve tenantId index =>
      rw [step, approve]
      split
      · exact he
      · rename_i s hs
        exact sound_set he (he.digestible _ s hs)
  | execute grantId taskType resource now approvalId result =>
      rw [step]
      split
      · rename_i receipt e' h
        obtain ⟨g, -, -, hrec⟩ := execute_ok h
        exact sound_recorded he hrec
      · rename_i x e' h
        rw [execute_error he h]
        exact he

/-! ## Receipts and the approvals behind them -/

/-- A receipt that was produced: its grant covered it, an approved request in the grantor's queue
asks for it, and it is on the grantor's chain. -/
structure Backed (e : DelegationEngine) (r : DelegationReceipt) : Prop where
  grant : ∃ g, e.grants.get? r.grantId = some g ∧
    g.permits r.taskType r.resource r.executedAt = true ∧
    ∃ s, e.tenants.get? g.grantor = some s ∧
      (∃ i request, s.hitlQueue[(i : Nat)]? = some request ∧
        Asks request r.approvalId r.grantId r.taskType r.resource ∧ isApproved request = true) ∧
      ∃ entry ∈ s.receiptChain, CarriesApproval entry r.grantId r.approvalId

theorem Backed.keeps {e e' : DelegationEngine} {r : DelegationReceipt} (h : Backed e r)
    (hk : Keeps e e') : Backed e' r := by
  obtain ⟨g, hg, hscope, s, hs, ⟨i, request, hreq, hasks, hyes⟩, entry, hentry, hcar⟩ := h.grant
  obtain ⟨s', hs', hext⟩ := hk.tenants _ s hs
  obtain ⟨request', hreq', hstill⟩ := hext.queue i request hreq
  exact ⟨g, hk.grants _ g hg, hscope, s', hs', ⟨i, request', hreq', hstill.asks hasks,
    hstill.approved hyes⟩, entry, hext.chain entry hentry, hcar⟩

omit [FloatModel] in
theorem entryKeys_ne : (lit "grant_id" ≠ lit "sequence" ∧ lit "grant_id" ≠ lit "chain_digest") ∧
    lit "approval_id" ≠ lit "sequence" ∧ lit "approval_id" ≠ lit "chain_digest" := by
  decide

/-- The entry of a delegation receipt carries its grant and its approval. -/
theorem carriesApproval_entry {r : DelegationReceipt} {fields : Fields} (h : r.toDict = .ok fields)
    (n : Nat) (d : Str) : CarriesApproval (chainEntry fields n d) r.grantId r.approvalId := by
  obtain ⟨hash, -, hret⟩ := bind_eq_ok.1 h
  cases hret
  have hnd : (Dict.keys ((lit "receipt_hash", Json.str hash) :: r.body)).Nodup := by
    change ([lit "receipt_hash", lit "grant_id", lit "task_type", lit "resource",
      lit "executed_at", lit "approval_id", lit "result_digest"]).Nodup
    decide
  obtain ⟨⟨k1, k2⟩, k3, k4⟩ := entryKeys_ne
  constructor
  · rw [get?_chainEntry k1 k2]
    exact Dict.get?_of_mem hnd (by simp [DelegationReceipt.body])
  · rw [get?_chainEntry k3 k4]
    exact Dict.get?_of_mem hnd (by simp [DelegationReceipt.body])

theorem backed_execute {e e' : DelegationEngine} {grantId : Str} {g : DelegationGrant}
    {r : DelegationReceipt} (he : Sound e) (hauth : Authorized e grantId g r)
    (hrec : Recorded e g r e') : r.grantId = grantId ∧ Backed e' r := by
  have hid : g.id = grantId := he.filed _ g hauth.grant
  have hrid : r.grantId = grantId := hauth.named.trans hid
  obtain ⟨s, request, hs, hmem, hasks, hyes⟩ := hauth.request
  obtain ⟨i, hi⟩ := List.getElem?_of_mem hmem
  obtain ⟨fields, hf, hboth⟩ := hrec.both
  obtain ⟨s', d, hs', -, hafter⟩ := hboth g.grantor (.inl rfl)
  cases hs.symm.trans hs'
  refine ⟨hrid, g, ?_, hauth.scope, _, hafter, ⟨i, request, hi, ?_, hyes⟩, _,
    List.mem_append_right _ List.mem_cons_self, carriesApproval_entry hf _ _⟩
  · rw [hrec.grants, hrid]
    exact hauth.grant
  · rw [hauth.named]
    exact hasks

/-- The receipts so far: each is backed, and no two of one grant have the same approval. -/
structure Accounted (e : DelegationEngine) (rs : List DelegationReceipt) : Prop where
  backed : ∀ r ∈ rs, Backed e r
  distinct : rs.Pairwise fun r r' => r.grantId = r'.grantId → r.approvalId ≠ r'.approvalId

theorem accounted_nil (e : DelegationEngine) : Accounted e [] :=
  ⟨fun _ hr => absurd hr List.not_mem_nil, .nil⟩

theorem step_accounted {e : DelegationEngine} (he : Sound e) {rs : List DelegationReceipt}
    (h : Accounted e rs) {c : Call} (hc : Fresh e c) :
    Accounted (step e c).1 (rs ++ (step e c).2.toList) := by
  have hk := step_keeps he c
  have hold : ∀ r ∈ rs, Backed (step e c).1 r := fun r hr => (h.backed r hr).keeps hk
  cases hout : (step e c).2 with
  | none =>
      rw [Option.toList_none, List.append_nil]
      exact ⟨hold, h.distinct⟩
  | some r =>
      -- only an execution produces a receipt
      cases c with
      | addGrant grant =>
          rw [step] at hout
          split at hout <;> cases hout
      | requestApproval grantId taskType resource now =>
          rw [step] at hout
          split at hout <;> cases hout
      | approve tenantId index => cases hout
      | execute grantId taskType resource now approvalId result =>
          rw [step] at hout
          split at hout
          · rename_i receipt e' hex
            cases hout
            obtain ⟨g, hauth, hid, hrec⟩ := execute_ok hex
            obtain ⟨hrid, hback⟩ := backed_execute he hauth hrec
            have he' : (step e (.execute grantId taskType resource now approvalId result)).1 = e' := by
              rw [step, hex]
            rw [he'] at hold ⊢
            refine ⟨?_, ?_⟩
            · intro r' hr'
              rcases List.mem_append.1 hr' with hr' | hr'
              · exact hold r' hr'
              · rw [List.mem_singleton.1 hr']
                exact hback
            · rw [List.pairwise_append]
              refine ⟨h.distinct, List.pairwise_singleton _ _, ?_⟩
              intro r' hr' r'' hr'' hgrant happ
              rw [List.mem_singleton.1 hr''] at hgrant happ
              -- the older receipt is on the chain, so its approval was not unspent
              obtain ⟨g', hg', -, s, hs, -, entry, hentry, hcar⟩ := (h.backed r' hr').grant
              rw [hgrant, hrid] at hg' hcar
              rw [happ, hid] at hcar
              exact hc g' s hg' hs entry hentry hcar
          · cases hout

theorem run_accounted {e : DelegationEngine} (he : Sound e) {rs : List DelegationReceipt}
    (h : Accounted e rs) (calls : List Call) (hc : AllFresh e calls) :
    Sound (run e calls).1 ∧ Accounted (run e calls).1 (rs ++ (run e calls).2) := by
  induction calls generalizing e rs with
  | nil =>
      rw [run, List.append_nil]
      exact ⟨he, h⟩
  | cons c cs ih =>
      obtain ⟨hfirst, hrest⟩ := hc
      rw [run, ← List.append_assoc]
      exact ih (step_sound he c) (step_accounted he h hfirst) hrest

theorem run_sound {e : DelegationEngine} (he : Sound e) (calls : List Call) :
    Sound (run e calls).1 := by
  induction calls generalizing e with
  | nil => exact he
  | cons c cs ih => exact ih (step_sound he c)

/-- The approved requests of a grant in a queue. -/
def approvedRequests (queue : List Fields) (grantId : Str) : List Fields :=
  queue.filter fun request =>
    decide (Dict.get? request (lit "grant_id") = some (.str grantId)) && isApproved request

/-- The receipts of a grant. -/
def receiptsOf (rs : List DelegationReceipt) (grantId : Str) : List DelegationReceipt :=
  rs.filter fun r => decide (r.grantId = grantId)

/-- A grant has at most as many receipts as approved requests: the approvals of its receipts are
distinct, and each is the approval of such a request. -/
theorem Accounted.count_le {e : DelegationEngine} {rs : List DelegationReceipt} (h : Accounted e rs)
    {id : Str} {g : DelegationGrant} {s : TenantState} (hg : e.grants.get? id = some g)
    (hs : e.tenants.get? g.grantor = some s) :
    (receiptsOf rs id).length ≤ (approvedRequests s.hitlQueue id).length := by
  have hmem : ∀ r ∈ receiptsOf rs id, r ∈ rs ∧ r.grantId = id := by
    intro r hr
    obtain ⟨hin, hid⟩ := List.mem_filter.1 hr
    exact ⟨hin, of_decide_eq_true hid⟩
  let approvals := (receiptsOf rs id).map fun r => Json.str r.approvalId
  have hnodup : approvals.Nodup := by
    rw [List.Nodup, List.pairwise_map]
    refine (h.distinct.filter _).imp_of_mem ?_
    intro r r' hr hr' hne heq
    exact hne ((hmem r hr).2.trans (hmem r' hr').2.symm) (Json.str.inj heq)
  have hsub : approvals ⊆ (approvedRequests s.hitlQueue id).map
      fun request => (Dict.get? request (lit "approval_id")).getD .null := by
    intro v hv
    obtain ⟨r, hr, rfl⟩ := List.mem_map.1 hv
    obtain ⟨hin, hid⟩ := hmem r hr
    obtain ⟨g', hg', -, s', hs', ⟨i, request, hreq, hasks, hyes⟩, -⟩ := (h.backed r hin).grant
    rw [hid] at hg' hasks
    cases hg.symm.trans hg'
    cases hs.symm.trans hs'
    refine List.mem_map.2 ⟨request, List.mem_filter.2 ⟨List.mem_of_getElem? hreq, ?_⟩, ?_⟩
    · rw [hasks.2.1, hyes]
      simp
    · rw [hasks.1]
      rfl
  have hle := (hnodup.subperm hsub).length_le
  rwa [List.length_map, List.length_map] at hle

/-- The request at a place of a tenant's queue is an approved request for this execution, and the
tenant is the grantor. -/
def ApprovedAt (e : DelegationEngine) (r : DelegationReceipt) (place : Str × Nat) : Prop :=
  ∃ g s request, e.grants.get? r.grantId = some g ∧ place.1 = g.grantor ∧
    e.tenants.get? g.grantor = some s ∧ s.hitlQueue[place.2]? = some request ∧
    Asks request r.approvalId r.grantId r.taskType r.resource ∧ isApproved request = true

/-- Different receipts have different approved requests behind them. -/
theorem Accounted.places {e : DelegationEngine} {rs : List DelegationReceipt} (h : Accounted e rs) :
    ∃ place : Fin rs.length → Str × Nat, Function.Injective place ∧
      ∀ i, ApprovedAt e (rs.get i) (place i) := by
  have hplace : ∀ i : Fin rs.length, ∃ p : Str × Nat, ApprovedAt e (rs.get i) p := by
    intro i
    obtain ⟨g, hg, -, s, hs, ⟨j, request, hreq, hasks, hyes⟩, -⟩ :=
      (h.backed _ (List.get_mem rs i)).grant
    exact ⟨(g.grantor, j), g, s, request, hg, rfl, hs, hreq, hasks, hyes⟩
  choose place hat using hplace
  refine ⟨place, ?_, hat⟩
  intro i j hij
  by_contra hne
  -- one request asks for one approval of one grant
  obtain ⟨g, s, request, hg, hp, hs, hreq, hasks, -⟩ := hat i
  obtain ⟨g', s', request', hg', hp', hs', hreq', hasks', -⟩ := hat j
  have htenant : g.grantor = g'.grantor := by rw [← hp, ← hp', hij]
  rw [← htenant, hs] at hs'
  cases hs'
  rw [hij, hreq'] at hreq
  cases hreq
  have happ : (rs.get i).approvalId = (rs.get j).approvalId := by
    have heq := hasks.1.symm.trans hasks'.1
    simpa using heq
  have hgrant : (rs.get i).grantId = (rs.get j).grantId := by
    have heq := hasks.2.1.symm.trans hasks'.2.1
    simpa using heq
  rcases lt_or_gt_of_ne hne with hlt | hgt
  · exact List.pairwise_iff_get.1 h.distinct i j hlt hgrant happ
  · exact List.pairwise_iff_get.1 h.distinct j i hgt hgrant.symm happ.symm

/-- In a run from a sound engine in which every execution presents an approval that no receipt of
its grant carries yet: a grant has at most as many receipts as approved requests; the receipts have
distinct approved requests with their grant, task type and resource behind them; every execution
was in time and in scope; and a further execution that raises leaves all chains as they are, while
one that returns appends its receipt to the chains of grantor and grantee. -/
theorem executions_within_approvals {e₀ : DelegationEngine} (h₀ : Sound e₀) (calls : List Call)
    (hfresh : AllFresh e₀ calls) :
    (∀ id g s, (run e₀ calls).1.grants.get? id = some g →
      (run e₀ calls).1.tenants.get? g.grantor = some s →
        (receiptsOf (run e₀ calls).2 id).length ≤ (approvedRequests s.hitlQueue id).length) ∧
    (∃ place : Fin (run e₀ calls).2.length → Str × Nat, Function.Injective place ∧
      ∀ i, ApprovedAt (run e₀ calls).1 ((run e₀ calls).2.get i) (place i)) ∧
    (∀ r ∈ (run e₀ calls).2, ∃ g, (run e₀ calls).1.grants.get? r.grantId = some g ∧
      r.executedAt ≤ g.expiresAt ∧ r.taskType ∈ g.taskTypes ∧ r.resource ∈ g.resources) ∧
    (∀ grantId taskType resource now approvalId result,
      (∀ x e', execute (run e₀ calls).1 grantId taskType resource now approvalId result =
        (.error x, e') → e' = (run e₀ calls).1) ∧
      ∀ r e', execute (run e₀ calls).1 grantId taskType resource now approvalId result =
        (.ok r, e') → ∃ g, (run e₀ calls).1.grants.get? grantId = some g ∧
          Recorded (run e₀ calls).1 g r e') := by
  obtain ⟨hsound, hacc⟩ := run_accounted h₀ (accounted_nil e₀) calls hfresh
  rw [List.nil_append] at hacc
  refine ⟨fun id g s hg hs => hacc.count_le hg hs, hacc.places, ?_, ?_⟩
  · intro r hr
    obtain ⟨g, hg, hscope, -⟩ := (hacc.backed r hr).grant
    simp only [DelegationGrant.permits, Bool.and_eq_true, decide_eq_true_eq] at hscope
    exact ⟨g, hg, hscope.1.1, hscope.1.2, hscope.2⟩
  · intro grantId taskType resource now approvalId result
    refine ⟨fun x e' hex => execute_error hsound hex, ?_⟩
    intro r e' hex
    obtain ⟨g, hauth, -, hrec⟩ := execute_ok hex
    exact ⟨g, hauth.grant, hrec⟩

end

/-! ## An approval used twice -/

section Concrete

attribute [local instance] wholeFloats

/-- A grant of `a` to `b`. -/
def sampleGrant : DelegationGrant where
  id := lit "g"
  grantor := lit "a"
  grantee := lit "b"
  taskTypes := [lit "deploy"]
  resources := [lit "db"]
  expiresAt := 10
  checked := by decide

/-- Two new tenants and no grant. -/
def sampleEngine : DelegationEngine := ⟨[(lit "a", .empty), (lit "b", .empty)], []⟩

/-- The id of the first request. -/
def sampleApproval : Str :=
  digestText (.obj [(lit "grant", .str (lit "g")), (lit "task", .str (lit "deploy")),
    (lit "resource", .str (lit "db")), (lit "at", .int 5), (lit "pending", .int 0)])

/-- The grant is added and one request is made and approved. -/
def sampleApproved : List Call :=
  [.addGrant sampleGrant, .requestApproval (lit "g") (lit "deploy") (lit "db") 5,
    .approve (lit "a") 0]

/-- An execution under that request. -/
def sampleExecution : Call := .execute (lit "g") (lit "deploy") (lit "db") 6 sampleApproval (.obj [])

theorem sampleEngine_sound : Sound sampleEngine := by
  apply sound_of_built
  intro id s hs
  have hempty : s = .empty := by
    have hmem := Dict.mem_of_get? hs
    simp only [List.mem_cons, Prod.mk.injEq, List.not_mem_nil, or_false] at hmem
    rcases hmem with ⟨-, h⟩ | ⟨-, h⟩ <;> exact h
  rw [hempty]
  exact ⟨[], .empty⟩

/-- Two executions under one approval produce two receipts for one approved request. -/
theorem approval_used_twice :
    (receiptsOf (run sampleEngine (sampleApproved ++ [sampleExecution, sampleExecution])).2
      (lit "g")).length = 2 ∧
    ∃ s, (run sampleEngine (sampleApproved ++ [sampleExecution, sampleExecution])).1.tenants.get?
      (lit "a") = some s ∧ (approvedRequests s.hitlQueue (lit "g")).length = 1 := by
  refine ⟨by decide +kernel, ?_⟩
  have hsome : ((run sampleEngine
      (sampleApproved ++ [sampleExecution, sampleExecution])).1.tenants.get? (lit "a")).map
      (fun s => (approvedRequests s.hitlQueue (lit "g")).length) = some 1 := by
    decide +kernel
  obtain ⟨s, hs, hlen⟩ := Option.map_eq_some_iff.1 hsome
  exact ⟨s, hs, hlen⟩

theorem sampleExecution_fresh : AllFresh sampleEngine (sampleApproved ++ [sampleExecution]) := by
  have hchains : ∀ kv ∈ (run sampleEngine sampleApproved).1.tenants, kv.2.receiptChain = [] := by
    decide
  refine ⟨trivial, trivial, trivial, ?_, trivial⟩
  intro g s hg hs entry hentry
  rw [hchains _ (Dict.mem_of_get? hs)] at hentry
  cases hentry

/-- The first execution alone keeps to its approval. -/
theorem executions_within_approvals_sample :
    (run sampleEngine (sampleApproved ++ [sampleExecution])).2.length = 1 ∧
    ∃ place : Fin (run sampleEngine (sampleApproved ++ [sampleExecution])).2.length → Str × Nat,
      Function.Injective place ∧ ∀ i, ApprovedAt
        (run sampleEngine (sampleApproved ++ [sampleExecution])).1
        ((run sampleEngine (sampleApproved ++ [sampleExecution])).2.get i) (place i) :=
  ⟨by decide +kernel,
    (executions_within_approvals sampleEngine_sound _ sampleExecution_fresh).2.1⟩

end Concrete

end ResidualHarness.Tenancy
