import ResidualHarness.Tenancy.Tenant

/-!
# Creating and deleting tenants

`TenantLifecycle` of `residual/tenancy/lifecycle.py` over runs. `delete_tenant` takes the tenant out
before it digests what it is going to archive, and an observation is not digested when it is
appended. A deletion that meets one that cannot be digested raises with the tenant in neither map
(`atomic_iff`).
-/

set_option autoImplicit false

namespace ResidualHarness.Tenancy

open Python Core

section

variable [FloatModel]

/-! ## Calls -/

/-- `type(quota) is int and quota >= 1`. -/
def isQuota : Json → Bool
  | .int n => decide (1 ≤ n)
  | _ => false

/-- The checks of `create_tenant`, with those of `Tenant`. -/
def createChecks (l : TenantLifecycle) (operator : PlatformOperator) (tenantId : Str) (quota : Json) :
    Except PyExn Unit := do
  requirePlatformAdmin operator
  identifier tenantId
  require (tenantId ∉ l.tenants.keys) (contractError "tenant already exists")
  require (tenantId ∉ l.archives.keys)
    (contractError "tenant id was previously deleted and archived")
  require (isQuota quota = true) (contractError "tenant quota must be a positive integer")

/-- `create_tenant(operator, tenant_id, quota)`. -/
def createTenant (l : TenantLifecycle) (operator : PlatformOperator) (tenantId : Str) (quota : Json) :
    Except PyExn TenantLifecycle := do
  createChecks l operator tenantId quota
  return { l with tenants := l.tenants.set tenantId .empty }

/-- A call on the lifecycle, or on the state of one of its tenants. -/
inductive LifecycleCall where
  | create (operator : PlatformOperator) (tenantId : Str) (quota : Json)
  | delete (operator : PlatformOperator) (tenantId : Str)
  | appendReceipt (tenantId : Str) (receipt : Json)
  | appendObservation (tenantId : Str) (observation : Json)

/-- An update of the state of a tenant; one that raises leaves it. -/
def TenantLifecycle.update (l : TenantLifecycle) (tenantId : Str)
    (f : TenantState → Except PyExn TenantState) : TenantLifecycle :=
  match l.tenants.get? tenantId with
  | none => l
  | some s =>
      match f s with
      | .error _ => l
      | .ok s' => { l with tenants := l.tenants.set tenantId s' }

/-- The lifecycle after a call. -/
def TenantLifecycle.step (l : TenantLifecycle) : LifecycleCall → TenantLifecycle
  | .create operator tenantId quota =>
      match createTenant l operator tenantId quota with
      | .error _ => l
      | .ok l' => l'
  | .delete operator tenantId => (deleteTenant l operator tenantId).2
  | .appendReceipt tenantId receipt =>
      l.update tenantId fun s => (appendReceipt s receipt).map Prod.snd
  | .appendObservation tenantId observation => l.update tenantId fun s => appendObservation s observation

/-- The lifecycle after some calls. -/
def TenantLifecycle.after (calls : List LifecycleCall) : TenantLifecycle :=
  calls.foldl TenantLifecycle.step ⟨[], []⟩

/-- A call of the run has created this tenant. -/
def Created (calls : List LifecycleCall) (tenantId : Str) : Prop :=
  ∃ pre operator quota post, calls = pre ++ LifecycleCall.create operator tenantId quota :: post ∧
    ∃ l, createTenant (.after pre) operator tenantId quota = .ok l

/-- Deletions are all or nothing in this run: one that raises changes nothing, one that returns has
archived all receipts and observations, and a tenant once created is in one of the two maps. -/
structure Atomic (calls : List LifecycleCall) : Prop where
  refused : ∀ pre operator tenantId post,
    calls = pre ++ LifecycleCall.delete operator tenantId :: post → ∀ x,
    (deleteTenant (.after pre) operator tenantId).1 = .error x →
      (deleteTenant (.after pre) operator tenantId).2 = .after pre
  archived : ∀ pre operator tenantId post,
    calls = pre ++ LifecycleCall.delete operator tenantId :: post →
    ∀ record, (deleteTenant (.after pre) operator tenantId).1 = .ok record →
      ∃ s, (TenantLifecycle.after pre).tenants.get? tenantId = some s ∧
        record.archivedReceipts = s.receiptChain ∧ record.archivedObservations = s.observationLog ∧
        (deleteTenant (.after pre) operator tenantId).2 =
          ⟨(TenantLifecycle.after pre).tenants.pop tenantId,
            (TenantLifecycle.after pre).archives.set tenantId record⟩
  conserved : ∀ pre, pre <+: calls → ∀ tenantId, Created pre tenantId →
    (tenantId ∈ (TenantLifecycle.after pre).tenants.keys ↔
      tenantId ∉ (TenantLifecycle.after pre).archives.keys)

/-- The state can be digested: every observation has a canonical text that can be encoded, and the
two counts can be printed. -/
def Recordable (s : TenantState) : Prop :=
  (∀ o ∈ s.observationLog, Digestible (.obj o)) ∧
    intPrintable s.receiptChain.length = true ∧ intPrintable s.observationLog.length = true

/-- Every deletion by a platform administrator of a tenant that is there finds a state that can be
digested. -/
def AllRecordable (calls : List LifecycleCall) : Prop :=
  ∀ pre operator tenantId post, calls = pre ++ LifecycleCall.delete operator tenantId :: post →
    operator.platformAdmin = true → ∀ s,
      (TenantLifecycle.after pre).tenants.get? tenantId = some s → Recordable s

/-! ## Deletion receipts -/

/-- A `receipt_hash` that was part of a digested receipt can be digested. -/
theorem digestible_hashField {chain : List Fields} {r : Fields} {d : Str}
    (h : digest (commitment chain r) = .ok d) : Digestible (hashField r) := by
  have hr : Digestible (.obj r) := digestible_arr.1 (digest_eq_ok_iff.1 h).1 _ (by simp)
  rw [hashField]
  cases hget : Dict.get? r (lit "receipt_hash") with
  | none => exact digestible_null
  | some v => exact (digestible_obj.1 hr _ (Dict.mem_of_get? hget)).2

/-- The hashes on the receipt chain can be digested. -/
def Hashed (s : TenantState) : Prop := ∀ e ∈ s.receiptChain, Digestible (hashField e)

/-- Every tenant is filed under an identifier, with hashes that can be digested. -/
def InOrder (l : TenantLifecycle) : Prop :=
  ∀ id s, l.tenants.get? id = some s → isIdentifier id = true ∧ Hashed s

theorem deletionReceipt_ok {tenantId : Str} {s : TenantState} (hid : isIdentifier tenantId = true)
    (hs : Hashed s) : (∃ r, deletionReceipt tenantId s = .ok r) ↔ Recordable s := by
  constructor
  · rintro ⟨r, h⟩
    obtain ⟨d, -, h⟩ := bind_eq_ok.1 h
    obtain ⟨d', hd', h⟩ := bind_eq_ok.1 h
    obtain ⟨hash, hhash, -⟩ := bind_eq_ok.1 h
    have hbody := digestible_obj.1 (digest_eq_ok_iff.1 hhash).1
    have hobservations := digestible_arr.1 (digest_eq_ok_iff.1 hd').1
    refine ⟨fun o ho => hobservations _ (List.mem_map_of_mem ho), digestible_int.1 ?_,
      digestible_int.1 ?_⟩
    · exact (hbody (lit "receipt_count", .int s.receiptChain.length) (by simp)).2
    · exact (hbody (lit "observation_count", .int s.observationLog.length) (by simp)).2
  · rintro ⟨hobservations, hreceipts, hcount⟩
    have h1 : Digestible (.arr (s.receiptChain.map hashField)) := by
      refine digestible_arr.2 fun v hv => ?_
      obtain ⟨e, he, rfl⟩ := List.mem_map.1 hv
      exact hs e he
    have h2 : Digestible (.arr (s.observationLog.map Json.obj)) := by
      refine digestible_arr.2 fun v hv => ?_
      obtain ⟨o, ho, rfl⟩ := List.mem_map.1 hv
      exact hobservations o ho
    refine ⟨_, bind_eq_ok.2 ⟨_, digest_of_digestible h1, bind_eq_ok.2 ⟨_, digest_of_digestible h2,
      bind_eq_ok.2 ⟨_, digest_of_digestible ?_, rfl⟩⟩⟩⟩
    have hhex : ∀ v : Json, encodable (digestText v) = true := fun v => sha256_encodable _
    rw [digestible_obj]
    simp only [List.mem_cons, List.not_mem_nil, or_false, forall_eq_or_imp, forall_eq, encodable_lit,
      digestible_str, digestible_int, hhex, encodable_of_isAscii (isAscii_of_isIdentifier hid),
      hreceipts, hcount, and_self]

/-! ## One call -/

variable {l : TenantLifecycle} {operator : PlatformOperator} {tenantId : Str}

/-- The ways in which a deletion ends: it is refused, it archives the tenant, or it raises with the
tenant taken out. -/
theorem deleteTenant_cases (hl : InOrder l) (operator : PlatformOperator) (tenantId : Str) :
    (∃ x, deleteTenant l operator tenantId = (.error x, l) ∧
        (operator.platformAdmin = true → l.tenants.get? tenantId = none)) ∨
      ∃ s, operator.platformAdmin = true ∧ l.tenants.get? tenantId = some s ∧
        ((∃ receipt, Recordable s ∧
          let record := ⟨tenantId, s.receiptChain, s.observationLog, receipt⟩
          deleteTenant l operator tenantId =
            (.ok record, ⟨l.tenants.pop tenantId, l.archives.set tenantId record⟩)) ∨
        ∃ x, ¬ Recordable s ∧
          deleteTenant l operator tenantId = (.error x, { l with tenants := l.tenants.pop tenantId })) := by
  rw [deleteTenant]
  cases hchecks : (do requirePlatformAdmin operator; identifier tenantId : Except PyExn Unit) with
  | error x =>
      refine .inl ⟨x, rfl, fun hadmin => ?_⟩
      rw [requirePlatformAdmin, require_of hadmin] at hchecks
      by_contra hsome
      obtain ⟨s, hs⟩ := Option.ne_none_iff_exists'.1 hsome
      have hid := require_of (x := contractError "invalid identifier") (hl tenantId s hs).1
      rw [show identifier tenantId = .ok () from hid] at hchecks
      cases hchecks
  | ok u =>
      cases u
      obtain ⟨_, hadmin, hid⟩ := bind_eq_ok.1 hchecks
      have hadmin := require_eq_ok.1 hadmin
      have hid := require_eq_ok.1 hid
      cases hget : l.tenants.get? tenantId with
      | none => exact .inl ⟨_, rfl, fun _ => rfl⟩
      | some s =>
          refine .inr ⟨s, hadmin, rfl, ?_⟩
          have hiff := deletionReceipt_ok hid (hl tenantId s hget).2
          cases hreceipt : deletionReceipt tenantId s with
          | error x =>
              refine .inr ⟨x, fun hs => ?_, by simp only [hreceipt]⟩
              obtain ⟨r, hr⟩ := hiff.2 hs
              rw [hreceipt] at hr
              cases hr
          | ok receipt => exact .inl ⟨receipt, hiff.1 ⟨_, hreceipt⟩, by simp only [hreceipt]⟩

theorem createTenant_ok {l' : TenantLifecycle} {quota : Json}
    (h : createTenant l operator tenantId quota = .ok l') :
    isIdentifier tenantId = true ∧ tenantId ∉ l.archives.keys ∧
      l' = { l with tenants := l.tenants.set tenantId .empty } := by
  obtain ⟨_, hchecks, hret⟩ := bind_eq_ok.1 h
  obtain ⟨_, -, hchecks⟩ := bind_eq_ok.1 hchecks
  obtain ⟨_, hid, hchecks⟩ := bind_eq_ok.1 hchecks
  obtain ⟨_, -, hchecks⟩ := bind_eq_ok.1 hchecks
  obtain ⟨_, hnew, -⟩ := bind_eq_ok.1 hchecks
  cases hret
  exact ⟨require_eq_ok.1 hid, require_eq_ok.1 hnew, rfl⟩

theorem update_cases (l : TenantLifecycle) (tenantId : Str)
    (f : TenantState → Except PyExn TenantState) :
    l.update tenantId f = l ∨ ∃ s s', l.tenants.get? tenantId = some s ∧ f s = .ok s' ∧
      l.update tenantId f = { l with tenants := l.tenants.set tenantId s' } := by
  rw [TenantLifecycle.update]
  cases hget : l.tenants.get? tenantId with
  | none => exact .inl rfl
  | some s =>
      cases hf : f s with
      | error x => exact .inl (by simp only [hf])
      | ok s' => exact .inr ⟨s, s', rfl, hf, by simp only [hf]⟩

theorem InOrder.set (hl : InOrder l) (hid : isIdentifier tenantId = true) {s : TenantState}
    (hs : Hashed s) : InOrder { l with tenants := l.tenants.set tenantId s } := by
  intro id s' hs'
  rw [Dict.get?_set] at hs'
  split at hs'
  · rename_i heq
    cases hs'
    exact ⟨heq ▸ hid, hs⟩
  · exact hl id s' hs'

theorem InOrder.pop (hl : InOrder l) (tenantId : Str) (archives : Dict Str DeletionRecord) :
    InOrder ⟨l.tenants.pop tenantId, archives⟩ := by
  intro id s hs
  rw [Dict.get?_pop] at hs
  split at hs
  · cases hs
  · exact hl id s hs

theorem InOrder.update (hl : InOrder l) {f : TenantState → Except PyExn TenantState}
    (hf : ∀ s s', f s = .ok s' → Hashed s → Hashed s') : InOrder (l.update tenantId f) := by
  rcases update_cases l tenantId f with heq | ⟨s, s', hget, hs', heq⟩
  · rw [heq]
    exact hl
  · rw [heq]
    exact hl.set (hl tenantId s hget).1 (hf s s' hs' (hl tenantId s hget).2)

theorem hashed_appendReceipt {s s' : TenantState} {receipt : Json}
    (h : (appendReceipt s receipt).map Prod.snd = .ok s') (hs : Hashed s) : Hashed s' := by
  cases happ : appendReceipt s receipt with
  | error x =>
      rw [happ] at h
      cases h
  | ok out =>
      rw [happ] at h
      cases h
      cases receipt with
      | obj fields =>
          obtain ⟨hd, heq⟩ := appendReceipt_ok.1 happ
          rw [heq]
          intro e he
          rcases List.mem_append.1 he with he | he
          · exact hs e he
          · rw [List.mem_singleton.1 he, hashField_chainEntry]
            exact digestible_hashField hd
      | _ => cases happ

theorem hashed_appendObservation {s s' : TenantState} {observation : Json}
    (h : appendObservation s observation = .ok s') (hs : Hashed s) : Hashed s' := by
  cases observation with
  | obj fields =>
      cases h
      exact hs
  | _ => cases h

theorem inOrder_step (hl : InOrder l) (c : LifecycleCall) : InOrder (l.step c) := by
  cases c with
  | create operator tenantId quota =>
      rw [TenantLifecycle.step]
      cases hcreate : createTenant l operator tenantId quota with
      | error x => exact hl
      | ok l' =>
          obtain ⟨hid, -, rfl⟩ := createTenant_ok hcreate
          exact hl.set hid fun e he => nomatch he
  | delete operator tenantId =>
      rw [TenantLifecycle.step]
      rcases deleteTenant_cases hl operator tenantId with
        ⟨x, heq, -⟩ | ⟨s, -, -, ⟨r, -, heq⟩ | ⟨x, -, heq⟩⟩
      · rw [heq]
        exact hl
      · rw [heq]
        exact hl.pop _ _
      · rw [heq]
        exact hl.pop _ _
  | appendReceipt tenantId receipt => exact hl.update fun s s' h => hashed_appendReceipt h
  | appendObservation tenantId observation => exact hl.update fun s s' h => hashed_appendObservation h

/-! ## Runs -/

theorem after_snoc (pre : List LifecycleCall) (c : LifecycleCall) :
    TenantLifecycle.after (pre ++ [c]) = (TenantLifecycle.after pre).step c := by
  rw [TenantLifecycle.after, List.foldl_append]
  rfl

theorem inOrder_after (calls : List LifecycleCall) : InOrder (.after calls) :=
  foldl_invariant (P := InOrder) (fun _ c hl => inOrder_step hl c) calls fun _ _ h => by cases h

theorem created_snoc {pre : List LifecycleCall} {c : LifecycleCall} {tenantId : Str}
    (h : Created (pre ++ [c]) tenantId) : Created pre tenantId ∨ ∃ operator quota l,
      c = .create operator tenantId quota ∧
        createTenant (.after pre) operator tenantId quota = .ok l := by
  obtain ⟨p, operator, quota, post, heq, l, hl⟩ := h
  rcases List.eq_nil_or_concat post with rfl | ⟨post, d, rfl⟩
  · obtain ⟨rfl, hc⟩ := List.append_inj' heq rfl
    cases hc
    exact .inr ⟨operator, quota, l, rfl, hl⟩
  · rw [List.concat_eq_append, ← List.cons_append, ← List.append_assoc] at heq
    obtain ⟨rfl, -⟩ := List.append_inj' heq rfl
    exact .inl ⟨p, operator, quota, post, rfl, l, hl⟩

theorem mem_keys_update (l : TenantLifecycle) (tenantId : Str)
    (f : TenantState → Except PyExn TenantState) (id : Str) :
    (id ∈ (l.update tenantId f).tenants.keys ↔ id ∈ l.tenants.keys) ∧
      (l.update tenantId f).archives = l.archives := by
  rcases update_cases l tenantId f with heq | ⟨s, s', hget, -, heq⟩
  · rw [heq]
    exact ⟨Iff.rfl, rfl⟩
  · rw [heq, Dict.mem_keys_set]
    exact ⟨or_iff_right_of_imp fun h => h ▸ Dict.mem_keys_of_get? hget, rfl⟩

/-- A tenant once created is in exactly one of the maps, after one more call. -/
theorem conserved_snoc {pre : List LifecycleCall} {c : LifecycleCall}
    (h : ∀ id, Created pre id → (id ∈ (TenantLifecycle.after pre).tenants.keys ↔
      id ∉ (TenantLifecycle.after pre).archives.keys))
    (hc : ∀ operator tenantId, c = .delete operator tenantId → operator.platformAdmin = true → ∀ s,
      (TenantLifecycle.after pre).tenants.get? tenantId = some s → Recordable s)
    {id : Str} (hid : Created (pre ++ [c]) id) :
    id ∈ (TenantLifecycle.after (pre ++ [c])).tenants.keys ↔
      id ∉ (TenantLifecycle.after (pre ++ [c])).archives.keys := by
  rw [after_snoc]
  cases c with
  | create operator tenantId quota =>
      rw [TenantLifecycle.step]
      rcases created_snoc hid with hid | ⟨_, _, l, hcreate, hl⟩
      · cases hcreate : createTenant (.after pre) operator tenantId quota with
        | error x => exact h id hid
        | ok l =>
            obtain ⟨-, hnew, rfl⟩ := createTenant_ok hcreate
            rw [Dict.mem_keys_set, ← h id hid]
            exact or_iff_right_of_imp fun heq => (h id hid).2 (heq ▸ hnew)
      · cases hcreate
        rw [hl]
        obtain ⟨-, hnew, rfl⟩ := createTenant_ok hl
        exact ⟨fun _ => hnew, fun _ => Dict.mem_keys_set.2 (.inl rfl)⟩
  | delete operator tenantId =>
      rw [TenantLifecycle.step]
      have hid : Created pre id := (created_snoc hid).resolve_right (by rintro ⟨_, _, _, hd, _⟩; cases hd)
      rcases deleteTenant_cases (inOrder_after pre) operator tenantId with
        ⟨x, heq, -⟩ | ⟨s, hadmin, hs, ⟨r, -, heq⟩ | ⟨x, hbad, -⟩⟩
      · rw [heq]
        exact h id hid
      · rw [heq, Dict.mem_keys_pop, Dict.mem_keys_set, not_or, h id hid]
      · exact absurd (hc operator tenantId rfl hadmin s hs) hbad
  | appendReceipt tenantId receipt =>
      have hid : Created pre id := (created_snoc hid).resolve_right (by rintro ⟨_, _, _, hd, _⟩; cases hd)
      obtain ⟨hkeys, harchives⟩ := mem_keys_update (.after pre) tenantId
        (fun s => (appendReceipt s receipt).map Prod.snd) id
      rw [TenantLifecycle.step, hkeys, harchives]
      exact h id hid
  | appendObservation tenantId observation =>
      have hid : Created pre id := (created_snoc hid).resolve_right (by rintro ⟨_, _, _, hd, _⟩; cases hd)
      obtain ⟨hkeys, harchives⟩ := mem_keys_update (.after pre) tenantId
        (fun s => appendObservation s observation) id
      rw [TenantLifecycle.step, hkeys, harchives]
      exact h id hid

theorem conserved_after {calls : List LifecycleCall} (hc : AllRecordable calls)
    (pre : List LifecycleCall) (hpre : pre <+: calls) : ∀ id, Created pre id →
      (id ∈ (TenantLifecycle.after pre).tenants.keys ↔
        id ∉ (TenantLifecycle.after pre).archives.keys) := by
  induction pre using List.reverseRecOn with
  | nil =>
      rintro id ⟨p, operator, quota, post, heq, -⟩
      cases p <;> cases heq
  | append_singleton pre c ih =>
      obtain ⟨post, hpost⟩ := hpre
      rw [List.append_assoc] at hpost
      refine fun id hid => conserved_snoc (ih ⟨[c] ++ post, hpost⟩) ?_ hid
      rintro operator tenantId rfl hadmin s hs
      exact hc pre operator tenantId post hpost.symm hadmin s hs

/-- Deletions are all or nothing in exactly the runs in which they find what they can digest. -/
theorem atomic_iff (calls : List LifecycleCall) : Atomic calls ↔ AllRecordable calls := by
  refine ⟨fun h pre operator tenantId post hpost hadmin s hs => ?_, fun hc => ⟨?_, ?_,
    fun pre hpre => conserved_after hc pre hpre⟩⟩
  · rcases deleteTenant_cases (inOrder_after pre) operator tenantId with
      ⟨x, -, hnone⟩ | ⟨s', -, hs', ⟨r, hrec, -⟩ | ⟨x, -, heq⟩⟩
    · rw [hs] at hnone
      cases hnone hadmin
    · rw [hs] at hs'
      cases hs'
      exact hrec
    · have hsame := h.refused pre operator tenantId post hpost x (by rw [heq])
      rw [heq] at hsame
      have hkeys := Dict.mem_keys_of_get? hs
      rw [← hsame] at hkeys
      exact absurd rfl (Dict.mem_keys_pop.1 hkeys).1
  · intro pre operator tenantId post hpost x hx
    rcases deleteTenant_cases (inOrder_after pre) operator tenantId with
      ⟨x, heq, -⟩ | ⟨s, hadmin, hs, ⟨r, -, heq⟩ | ⟨x, hbad, -⟩⟩
    · rw [heq]
    · rw [heq] at hx
      cases hx
    · exact absurd (hc pre operator tenantId post hpost hadmin s hs) hbad
  · intro pre operator tenantId post hpost record hrecord
    rcases deleteTenant_cases (inOrder_after pre) operator tenantId with
      ⟨x, heq, -⟩ | ⟨s, -, hs, ⟨r, -, heq⟩ | ⟨x, -, heq⟩⟩
    · rw [heq] at hrecord
      cases hrecord
    · rw [heq] at hrecord
      cases hrecord
      exact ⟨s, hs, rfl, rfl, by rw [heq]⟩
    · rw [heq] at hrecord
      cases hrecord

end

section Concrete

attribute [local instance] wholeFloats

/-- `{"x": inf}`. -/
def infiniteObservation : Fields := [(lit "x", .float none)]

/-- A tenant with an observation that has no canonical text is created and deleted. -/
def undigestedDeletion : List LifecycleCall :=
  [.create ⟨lit "root", true⟩ (lit "a") (.int 1), .appendObservation (lit "a") (.obj infiniteObservation),
    .delete ⟨lit "root", true⟩ (lit "a")]

/-- The deletion raises, and the tenant is in neither map. -/
theorem undigested_deletion_loses : ¬ ∀ calls : List LifecycleCall, Atomic calls := by
  intro h
  have hconserved := (h undigestedDeletion).conserved undigestedDeletion List.prefix_rfl (lit "a")
    ⟨[], _, _, _, rfl, _, rfl⟩
  revert hconserved
  decide

end Concrete

end ResidualHarness.Tenancy
