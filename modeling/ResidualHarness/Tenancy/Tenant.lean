import ResidualHarness.Core.Digests
import ResidualHarness.Core.Task
import ResidualHarness.Python.WholeFloats

/-!
# Tenant state and deletion records

`TenantState` of `residual/tenancy/tenant.py` and `delete_tenant` of
`residual/tenancy/lifecycle.py`. The `chain_digest` of an entry is the digest of the `receipt_hash`
fields of the entries before it and of the new receipt itself , so equal digests mean equal last
receipts and equal `receipt_hash` fields before them. The earlier receipts are bound as far as their
own `receipt_hash` determines them (`chain_digest_binds`).
-/

set_option autoImplicit false

namespace ResidualHarness.Tenancy

open Python Core

section

variable [FloatModel]

/-! ## Equal digests -/

/-- Equality of two values as dictionaries, whose fields have no order. -/
def Alike (v w : Json) : Prop := v.norm = w.norm

instance (v w : Json) : Decidable (Alike v w) := inferInstanceAs (Decidable (v.norm = w.norm))

/-- Values with one digest are equal, unless SHA-256 collides on their texts. -/
theorem alike_of_digest {v w : Json} {d : Str} (hv : v.wf = true) (hw : w.wf = true)
    (hsha : Set.InjOn sha256 {digestBytes v, digestBytes w}) (hdv : digest v = .ok d)
    (hdw : digest w = .ok d) : Alike v w :=
  norm_eq_of_digest hsha hv hw (by simp) (by simp) hdv hdw

theorem alike_arr {xs ys : List Json} (h : Alike (.arr xs) (.arr ys)) : List.Forall₂ Alike xs ys := by
  rw [Alike, Json.norm_arr, Json.norm_arr] at h
  have hmap : xs.map Json.norm = ys.map Json.norm := Json.arr.inj h
  rw [← List.forall₂_eq_eq_eq, List.forall₂_map_left_iff, List.forall₂_map_right_iff] at hmap
  exact hmap

/-! ## The state of a tenant -/

/-- `TenantState`: the receipts, the observations and the queue of approval requests. -/
structure TenantState where
  receiptChain : List Fields
  observationLog : List Fields
  hitlQueue : List Fields

/-- `TenantState()`. -/
def TenantState.empty : TenantState := ⟨[], [], []⟩

/-- `r.get("receipt_hash")`. -/
def hashField (r : Fields) : Json := (Dict.get? r (lit "receipt_hash")).getD .null

/-- The value under the digest of a new entry. -/
def commitment (chain : List Fields) (receipt : Fields) : Json :=
  .arr (chain.map hashField ++ [Json.obj receipt])

/-- The entry made of a receipt. -/
def chainEntry (receipt : Fields) (sequence : Nat) (chainDigest : Str) : Fields :=
  Dict.set (Dict.set receipt (lit "sequence") (.int sequence)) (lit "chain_digest")
    (.str chainDigest)

/-- `append_receipt(receipt)`. The digest is taken before the list is touched. -/
def appendReceipt (s : TenantState) (receipt : Json) : Except PyExn (Str × TenantState) :=
  match receipt with
  | .obj fields => do
      let chainDigest ← digest (commitment s.receiptChain fields)
      let entry := chainEntry fields s.receiptChain.length chainDigest
      return (chainDigest, { s with receiptChain := s.receiptChain ++ [entry] })
  | _ => .error (contractError "receipt must be a mapping")

/-- `append_observation(observation)`. -/
def appendObservation (s : TenantState) (observation : Json) : Except PyExn TenantState :=
  match observation with
  | .obj fields => .ok { s with observationLog := s.observationLog ++ [fields] }
  | _ => .error (contractError "observation must be a mapping")

/-- `enqueue_hitl(request)`. -/
def enqueueHitl (s : TenantState) (request : Json) : Except PyExn TenantState :=
  match request with
  | .obj fields => .ok { s with hitlQueue := s.hitlQueue ++ [fields] }
  | _ => .error (contractError "HITL request must be a mapping")

omit [FloatModel] in
theorem keys_ne : lit "receipt_hash" ≠ lit "sequence" ∧ lit "receipt_hash" ≠ lit "chain_digest" ∧
    lit "sequence" ≠ lit "chain_digest" := by
  decide

theorem get?_chainEntry {receipt : Fields} {n : Nat} {d key : Str} (hs : key ≠ lit "sequence")
    (hd : key ≠ lit "chain_digest") :
    Dict.get? (chainEntry receipt n d) key = Dict.get? receipt key := by
  rw [chainEntry, Dict.get?_set, if_neg hd, Dict.get?_set, if_neg hs]

theorem hashField_chainEntry (receipt : Fields) (n : Nat) (d : Str) :
    hashField (chainEntry receipt n d) = hashField receipt := by
  rw [hashField, get?_chainEntry keys_ne.1 keys_ne.2.1, hashField]

theorem chainDigest_chainEntry (receipt : Fields) (n : Nat) (d : Str) :
    Dict.get? (chainEntry receipt n d) (lit "chain_digest") = some (.str d) := by
  rw [chainEntry, Dict.get?_set, if_pos rfl]

theorem appendReceipt_ok {s s' : TenantState} {fields : Fields} {d : Str} :
    appendReceipt s (.obj fields) = .ok (d, s') ↔
      digest (commitment s.receiptChain fields) = .ok d ∧
        s' = { s with
          receiptChain := s.receiptChain ++ [chainEntry fields s.receiptChain.length d] } := by
  constructor
  · intro h
    obtain ⟨d', hd, hret⟩ := bind_eq_ok.1 h
    cases hret
    exact ⟨hd, rfl⟩
  · rintro ⟨hd, rfl⟩
    exact bind_eq_ok.2 ⟨d, hd, rfl⟩

/-! ## Chains built by appending -/

/-- Receipt chains built from the empty one by `append_receipt`, with the receipts appended.
A call that raises appends nothing. -/
inductive Built : List Fields → List Fields → Prop
  | empty : Built [] []
  | append {s s' : TenantState} {rs : List Fields} {r : Fields} {d : Str}
      (before : Built s.receiptChain rs) (wf : (Json.obj r).wf = true)
      (call : appendReceipt s (.obj r) = .ok (d, s')) : Built s'.receiptChain (rs ++ [r])

/-- The receipts of a chain are those appended, entry by entry. -/
theorem Built.entries {chain rs : List Fields} (h : Built chain rs) :
    List.Forall₂ (fun e r => ∃ n d, e = chainEntry r n d) chain rs := by
  induction h with
  | empty => exact .nil
  | append before wf call ih =>
      obtain ⟨-, rfl⟩ := appendReceipt_ok.1 call
      exact List.rel_append ih (.cons ⟨_, _, rfl⟩ .nil)

theorem Built.hashFields {chain rs : List Fields} (h : Built chain rs) :
    chain.map hashField = rs.map hashField := by
  have hall := h.entries
  clear h
  induction hall with
  | nil => rfl
  | cons he _ ih =>
      obtain ⟨n, d, rfl⟩ := he
      rw [List.map_cons, List.map_cons, hashField_chainEntry, ih]

theorem Built.wf {chain rs : List Fields} (h : Built chain rs) : ∀ r ∈ rs, (Json.obj r).wf = true := by
  induction h with
  | empty => exact fun r hr => absurd hr List.not_mem_nil
  | append before wf call ih =>
      intro r hr
      rcases List.mem_append.1 hr with hr | hr
      · exact ih r hr
      · rw [List.mem_singleton.1 hr]
        exact wf

/-- Every `receipt_hash` on a built chain can be digested: it was part of its own receipt. -/
theorem Built.digestible {chain rs : List Fields} (h : Built chain rs) :
    ∀ e ∈ chain, Digestible (hashField e) := by
  induction h with
  | empty => exact fun e he => absurd he List.not_mem_nil
  | @append s s' rs r d before wf call ih =>
      obtain ⟨hd, rfl⟩ := appendReceipt_ok.1 call
      intro e he
      rcases List.mem_append.1 he with he | he
      · exact ih e he
      · rw [List.mem_singleton.1 he, hashField_chainEntry, hashField]
        have hr : Digestible (.obj r) :=
          digestible_arr.1 (digest_eq_ok_iff.1 hd).1 _ (by simp)
        cases hget : Dict.get? r (lit "receipt_hash") with
        | none => exact digestible_null
        | some v => exact (digestible_obj.1 hr _ (Dict.mem_of_get? hget)).2

/-- `chain[-1]["chain_digest"]`. -/
def lastDigest (chain : List Fields) : Option Json :=
  chain.getLast?.bind fun e => Dict.get? e (lit "chain_digest")

theorem Built.last {chain rs : List Fields} (h : Built chain rs) {v : Json}
    (hv : lastDigest chain = some v) :
    ∃ before r d, rs = before ++ [r] ∧ v = .str d ∧ digest (commitment before r) = .ok d := by
  cases h with
  | empty => cases hv
  | @append s s' before r d hb wf call =>
      obtain ⟨hd, rfl⟩ := appendReceipt_ok.1 call
      rw [lastDigest, List.getLast?_concat, Option.bind_some, chainDigest_chainEntry] at hv
      cases hv
      refine ⟨before, r, d, rfl, rfl, ?_⟩
      rwa [commitment, ← hb.hashFields]

theorem hashField_wf {r : Fields} (h : (Json.obj r).wf = true) : (hashField r).wf = true := by
  rw [hashField]
  cases hget : Dict.get? r (lit "receipt_hash") with
  | none => rfl
  | some v =>
      rw [Json.wf, Bool.and_eq_true, Json.wfFields_iff] at h
      exact h.2 _ (Dict.mem_of_get? hget)

theorem commitment_wf {before : List Fields} {r : Fields}
    (hb : ∀ r ∈ before, (Json.obj r).wf = true) (hr : (Json.obj r).wf = true) :
    (commitment before r).wf = true := by
  rw [commitment, Json.wf, Json.wfElems_iff]
  intro x hx
  rcases List.mem_append.1 hx with hx | hx
  · obtain ⟨r', hr', rfl⟩ := List.mem_map.1 hx
    exact hashField_wf (hb r' hr')
  · rw [List.mem_singleton.1 hx]
    exact hr

/-! ## What the chain digest binds -/

/-- The two receipts carry the same `receipt_hash`. -/
def SameHash (r r' : Fields) : Prop := Alike (hashField r) (hashField r')

/-- Receipts of these histories that carry the same `receipt_hash` are the same. -/
def HashDetermines (rs ss : List Fields) : Prop :=
  ∀ r ∈ rs, ∀ s ∈ ss, SameHash r s → Alike (.obj r) (.obj s)

/-- The bytes under the last digest of a chain. -/
def chainBytes (rs : List Fields) : List Nat :=
  digestBytes (commitment rs.dropLast (rs.getLast?.getD []))

theorem sameHash_of_alike {r s : Fields} (hr : (Json.obj r).wf = true) (hs : (Json.obj s).wf = true)
    (h : Alike (.obj r) (.obj s)) : SameHash r s := by
  have hnd : ∀ {d : Fields}, (Json.obj d).wf = true → (d.map Prod.fst).Nodup := by
    intro d hd
    rw [Json.wf, Bool.and_eq_true, decide_eq_true_eq] at hd
    exact hd.1
  have hfield : ∀ {d : Fields}, (Json.obj d).wf = true →
      (hashField d).norm = ((Fields.norm d).get? (lit "receipt_hash")).getD .null := by
    intro d hd
    rw [Fields.get?_norm (hnd hd), hashField]
    have heq : Dict.get? d (lit "receipt_hash") = Fields.get? d (lit "receipt_hash") := by
      cases hget : Dict.get? d (lit "receipt_hash") with
      | some v => exact (Fields.get?_of_mem (hnd hd) (Dict.mem_of_get? hget)).symm
      | none =>
          cases hget' : Fields.get? d (lit "receipt_hash") with
          | none => rfl
          | some v =>
              rw [Dict.get?_of_mem (hnd hd) (Fields.mem_of_get? hget')] at hget
              cases hget
    rw [heq]
    cases Fields.get? d (lit "receipt_hash") <;> rfl
  have hnorm : Fields.norm r = Fields.norm s := by
    rw [Alike, Fields.obj_norm, Fields.obj_norm] at h
    exact Json.obj.inj h
  rw [SameHash, Alike, hfield hr, hfield hs, hnorm]

/-- Equal hashes at every place, for receipts that their hashes determine. -/
theorem alike_of_sameHash {rs ss : List Fields} (h : List.Forall₂ SameHash rs ss)
    (hdet : HashDetermines rs ss) : List.Forall₂ (fun r s => Alike (.obj r) (.obj s)) rs ss := by
  induction h with
  | nil => exact .nil
  | @cons r s rs ss hrs _ ih =>
      refine .cons (hdet r List.mem_cons_self s List.mem_cons_self hrs) (ih ?_)
      intro r' hr' s' hs'
      exact hdet r' (List.mem_cons_of_mem _ hr') s' (List.mem_cons_of_mem _ hs')

theorem forall₂_sameHash {rs ss : List Fields}
    (h : List.Forall₂ Alike (rs.map hashField) (ss.map hashField)) : List.Forall₂ SameHash rs ss := by
  rw [List.forall₂_map_left_iff, List.forall₂_map_right_iff] at h
  exact h

/-- Chains with the same last digest end in the same receipt and have the same `receipt_hash`
everywhere. -/
theorem chain_digest_binds {chain chain' rs ss : List Fields} {v : Json} (h : Built chain rs)
    (h' : Built chain' ss) (hv : lastDigest chain = some v) (hv' : lastDigest chain' = some v)
    (hsha : Set.InjOn sha256 {chainBytes rs, chainBytes ss}) :
    List.Forall₂ SameHash rs ss ∧
      ∃ r s, rs.getLast? = some r ∧ ss.getLast? = some s ∧ Alike (.obj r) (.obj s) := by
  obtain ⟨before, r, d, rfl, rfl, hd⟩ := h.last hv
  obtain ⟨before', r', d', rfl, hdd, hd'⟩ := h'.last hv'
  cases hdd
  rw [chainBytes, chainBytes, List.dropLast_concat, List.dropLast_concat, List.getLast?_concat,
    List.getLast?_concat] at hsha
  have hwf := h.wf
  have hwf' := h'.wf
  have hr : (Json.obj r).wf = true := hwf r (by simp)
  have hr' : (Json.obj r').wf = true := hwf' r' (by simp)
  have halike := alike_of_digest
    (commitment_wf (fun x hx => hwf x (List.mem_append_left _ hx)) hr)
    (commitment_wf (fun x hx => hwf' x (List.mem_append_left _ hx)) hr') hsha hd hd'
  -- the arrays agree place by place: the hashes before the end, the receipt at it
  have hall := alike_arr halike
  have hlen : (before.map hashField).length = (before'.map hashField).length := by
    have hl := hall.length_eq
    rw [List.length_append, List.length_append] at hl
    exact Nat.add_right_cancel hl
  have hhashes := List.forall₂_take (before.map hashField).length hall
  rw [List.take_left' rfl, List.take_left' hlen.symm] at hhashes
  have hlast := List.forall₂_drop (before.map hashField).length hall
  rw [List.drop_left' rfl, List.drop_left' hlen.symm] at hlast
  have hlast' : Alike (.obj r) (.obj r') := (List.forall₂_cons.1 hlast).1
  refine ⟨List.rel_append (forall₂_sameHash hhashes) (.cons (sameHash_of_alike hr hr' hlast') .nil),
    r, r', List.getLast?_concat, List.getLast?_concat, hlast'⟩

/-! ## Deletion -/

/-- `PlatformOperator`. -/
structure PlatformOperator where
  id : Str
  platformAdmin : Bool

/-- `DeletionRecord`. -/
structure DeletionRecord where
  tenantId : Str
  archivedReceipts : List Fields
  archivedObservations : List Fields
  deletionReceipt : Fields

/-- `TenantLifecycle`. -/
structure TenantLifecycle where
  tenants : Dict Str TenantState
  archives : Dict Str DeletionRecord

/-- The deletion receipt of a tenant. -/
def deletionReceipt (tenantId : Str) (s : TenantState) : Except PyExn Fields := do
  let receiptsDigest ← digest (.arr (s.receiptChain.map hashField))
  let observationsDigest ← digest (.arr (s.observationLog.map Json.obj))
  let body : Fields :=
    [(lit "kind", .str (lit "tenant-deletion")), (lit "tenant_id", .str tenantId),
      (lit "receipt_count", .int s.receiptChain.length),
      (lit "observation_count", .int s.observationLog.length),
      (lit "receipts_digest", .str receiptsDigest),
      (lit "observations_digest", .str observationsDigest)]
  let hash ← digest (.obj body)
  return body ++ [(lit "receipt_hash", Json.str hash)]

/-- `_require_platform_admin(operator)`. -/
def requirePlatformAdmin (operator : PlatformOperator) : Except PyExn Unit :=
  require (operator.platformAdmin = true)
    (contractError "platform-level privileges required for tenant lifecycle (ENT3-R6)")

/-- `delete_tenant(operator, tenant_id)`. The tenant is popped before its digests are taken. -/
def deleteTenant (l : TenantLifecycle) (operator : PlatformOperator) (tenantId : Str) :
    Except PyExn DeletionRecord × TenantLifecycle :=
  match (do requirePlatformAdmin operator; identifier tenantId : Except PyExn Unit) with
  | .error x => (.error x, l)
  | .ok () =>
      match l.tenants.get? tenantId with
      | none => (.error (contractError "unknown tenant"), l)
      | some s =>
          let l := { l with tenants := l.tenants.pop tenantId }
          match deletionReceipt tenantId s with
          | .error x => (.error x, l)
          | .ok receipt =>
              let record := ⟨tenantId, s.receiptChain, s.observationLog, receipt⟩
              (.ok record, { l with archives := l.archives.set tenantId record })

/-- `record.deletion_receipt[key]`. -/
def DeletionRecord.field (record : DeletionRecord) (key : String) : Option Json :=
  Dict.get? record.deletionReceipt (lit key)

/-- A deletion archives the tenant's receipts and observations and digests them. -/
theorem deleteTenant_ok {l l' : TenantLifecycle} {operator : PlatformOperator} {tenantId : Str}
    {record : DeletionRecord} (h : deleteTenant l operator tenantId = (.ok record, l')) :
    ∃ s d d', l.tenants.get? tenantId = some s ∧ record.archivedReceipts = s.receiptChain ∧
      record.archivedObservations = s.observationLog ∧
      record.field "receipts_digest" = some (.str d) ∧
      record.field "observations_digest" = some (.str d') ∧
      digest (.arr (s.receiptChain.map hashField)) = .ok d ∧
      digest (.arr (s.observationLog.map Json.obj)) = .ok d' := by
  rw [deleteTenant] at h
  split at h
  · cases h
  · split at h
    · cases h
    · rename_i s hs
      cases hreceipt : deletionReceipt tenantId s with
      | error x =>
          simp only [hreceipt] at h
          cases h
      | ok receipt =>
          simp only [hreceipt] at h
          cases h
          obtain ⟨d, hd, hrest⟩ := bind_eq_ok.1 hreceipt
          obtain ⟨d', hd', hrest⟩ := bind_eq_ok.1 hrest
          obtain ⟨hash, -, hret⟩ := bind_eq_ok.1 hrest
          cases hret
          refine ⟨s, d, d', hs, rfl, rfl, ?_, ?_, hd, hd'⟩
          all_goals
            rw [DeletionRecord.field]
            apply Dict.get?_of_mem _ (by simp)
            change ([lit "kind", lit "tenant_id", lit "receipt_count", lit "observation_count",
              lit "receipts_digest", lit "observations_digest", lit "receipt_hash"]).Nodup
            decide

/-- A tenant's state with the receipts it was given; its observations are dictionaries. -/
structure History (s : TenantState) (rs : List Fields) : Prop where
  built : Built s.receiptChain rs
  observations : ∀ o ∈ s.observationLog, (Json.obj o).wf = true

/-- The bytes under `receipts_digest` for these receipts. -/
def receiptsBytes (rs : List Fields) : List Nat := digestBytes (.arr (rs.map hashField))

/-- The bytes under `observations_digest`. -/
def observationsBytes (os : List Fields) : List Nat := digestBytes (.arr (os.map Json.obj))

theorem receiptsDigest_binds {s t : TenantState} {rs ss : List Fields} {d : Str}
    (hs : History s rs) (ht : History t ss) (hd : digest (.arr (s.receiptChain.map hashField)) = .ok d)
    (hd' : digest (.arr (t.receiptChain.map hashField)) = .ok d)
    (hsha : Set.InjOn sha256 {receiptsBytes rs, receiptsBytes ss}) : List.Forall₂ SameHash rs ss := by
  rw [hs.built.hashFields] at hd
  rw [ht.built.hashFields] at hd'
  have hwf : ∀ {u : TenantState} {us : List Fields}, History u us →
      (Json.arr (us.map hashField)).wf = true := by
    intro u us hu
    rw [Json.wf, Json.wfElems_iff]
    intro x hx
    obtain ⟨r, hr, rfl⟩ := List.mem_map.1 hx
    exact hashField_wf (hu.built.wf r hr)
  exact forall₂_sameHash (alike_arr (alike_of_digest (hwf hs) (hwf ht) hsha hd hd'))

theorem observationsDigest_binds {s t : TenantState} {rs ss : List Fields} {d : Str}
    (hs : History s rs) (ht : History t ss)
    (hd : digest (.arr (s.observationLog.map Json.obj)) = .ok d)
    (hd' : digest (.arr (t.observationLog.map Json.obj)) = .ok d)
    (hsha : Set.InjOn sha256 {observationsBytes s.observationLog, observationsBytes t.observationLog}) :
    List.Forall₂ (fun o o' => Alike (.obj o) (.obj o')) s.observationLog t.observationLog := by
  have hwf : ∀ {u : TenantState} {us : List Fields}, History u us →
      (Json.arr (u.observationLog.map Json.obj)).wf = true := by
    intro u us hu
    rw [Json.wf, Json.wfElems_iff]
    intro x hx
    obtain ⟨o, ho, rfl⟩ := List.mem_map.1 hx
    exact hu.observations o ho
  have hall := alike_arr (alike_of_digest (hwf hs) (hwf ht) hsha hd hd')
  rw [List.forall₂_map_left_iff, List.forall₂_map_right_iff] at hall
  exact hall

/-- The digests of a tenant's history. Equal last chain digests mean the same number of receipts,
the same last receipt and the same `receipt_hash` at every place; equal `receipts_digest`s of two
deletion records mean the same `receipt_hash` at every place, and equal `observations_digest`s the
same observations. Receipts that their `receipt_hash` determines are then the same throughout. -/
theorem tenant_digests_bind {s t : TenantState} {rs ss : List Fields} (hs : History s rs)
    (ht : History t ss) :
    (∀ v, lastDigest s.receiptChain = some v → lastDigest t.receiptChain = some v →
      Set.InjOn sha256 {chainBytes rs, chainBytes ss} →
        List.Forall₂ SameHash rs ss ∧
        (∃ r r', rs.getLast? = some r ∧ ss.getLast? = some r' ∧ Alike (.obj r) (.obj r')) ∧
        (HashDetermines rs ss → List.Forall₂ (fun r r' => Alike (.obj r) (.obj r')) rs ss)) ∧
    (∀ l operator tenantId record l₁ l' operator' tenantId' record' l₁',
      l.tenants.get? tenantId = some s → l'.tenants.get? tenantId' = some t →
      deleteTenant l operator tenantId = (.ok record, l₁) →
      deleteTenant l' operator' tenantId' = (.ok record', l₁') →
        (record.field "receipts_digest" = record'.field "receipts_digest" →
          Set.InjOn sha256 {receiptsBytes rs, receiptsBytes ss} →
            List.Forall₂ SameHash rs ss ∧
            (HashDetermines rs ss → List.Forall₂ (fun r r' => Alike (.obj r) (.obj r')) rs ss)) ∧
        (record.field "observations_digest" = record'.field "observations_digest" →
          Set.InjOn sha256 {observationsBytes s.observationLog, observationsBytes t.observationLog} →
            List.Forall₂ (fun o o' => Alike (.obj o) (.obj o')) s.observationLog
              t.observationLog)) := by
  constructor
  · intro v hv hv' hsha
    obtain ⟨hhash, hlast⟩ := chain_digest_binds hs.built ht.built hv hv' hsha
    exact ⟨hhash, hlast, alike_of_sameHash hhash⟩
  · intro l operator tenantId record l₁ l' operator' tenantId' record' l₁' hget hget' hdel hdel'
    obtain ⟨s', d, e, hs', -, -, hd, he, hdig, hobs⟩ := deleteTenant_ok hdel
    obtain ⟨t', d', e', ht', -, -, hd', he', hdig', hobs'⟩ := deleteTenant_ok hdel'
    cases hget.symm.trans hs'
    cases hget'.symm.trans ht'
    constructor
    · intro heq hsha
      rw [hd, hd'] at heq
      cases heq
      have hhash := receiptsDigest_binds hs ht hdig hdig' hsha
      exact ⟨hhash, alike_of_sameHash hhash⟩
    · intro heq hsha
      rw [he, he'] at heq
      cases heq
      exact observationsDigest_binds hs ht hobs hobs' hsha

end

/-! ## Two histories with the same digests -/

section Concrete

attribute [local instance] wholeFloats

/-- A receipt with a caller's hash and one more field. -/
def sampleFirst (x : Int) : Fields := [(lit "receipt_hash", .str (lit "h")), (lit "x", .int x)]

/-- The receipt after it. -/
def sampleLast : Fields := [(lit "receipt_hash", .str (lit "g"))]

/-- The chain of the two. -/
def sampleChain (x : Int) : List Fields :=
  [chainEntry (sampleFirst x) 0 (digestText (commitment [] (sampleFirst x))),
    chainEntry sampleLast 1 (digestText (commitment [sampleFirst x] sampleLast))]

/-- A tenant with this chain. -/
def sampleTenant (x : Int) : TenantState := ⟨sampleChain x, [], []⟩

theorem sampleTenant_history {x : Int} (hwf : (Json.obj (sampleFirst x)).wf = true)
    (hd : Digestible (.obj (sampleFirst x))) :
    History (sampleTenant x) [sampleFirst x, sampleLast] := by
  have hlast : Digestible (.obj sampleLast) := by decide
  have hfirst : Built [chainEntry (sampleFirst x) 0 (digestText (commitment [] (sampleFirst x)))]
      [sampleFirst x] := by
    refine Built.append (s := .empty) .empty hwf (appendReceipt_ok.2 ⟨?_, rfl⟩)
    apply digest_of_digestible
    rw [commitment, digestible_arr]
    exact fun v hv => by rw [List.mem_singleton.1 hv]; exact hd
  refine ⟨?_, fun o ho => absurd ho List.not_mem_nil⟩
  refine Built.append (s := ⟨_, [], []⟩) (d := digestText (commitment [sampleFirst x] sampleLast))
    hfirst (by decide) (appendReceipt_ok.2 ⟨?_, rfl⟩)
  -- the entry has the `receipt_hash` of its receipt
  change digest (.arr [hashField (chainEntry _ _ _), .obj sampleLast]) = _
  rw [hashField_chainEntry]
  apply digest_of_digestible
  rw [digestible_arr]
  intro v hv
  rcases List.mem_pair.1 hv with rfl | rfl
  · show Digestible (.str (lit "h"))
    exact digestible_str.2 (by decide)
  · exact hlast

/-- The two tenants are deleted with the same deletion receipt. -/
def sampleLifecycle (x : Int) : TenantLifecycle := ⟨[(lit "a", sampleTenant x)], []⟩

/-- The record of the deletion. -/
def sampleRecord (x : Int) : DeletionRecord :=
  let body : Fields :=
    [(lit "kind", .str (lit "tenant-deletion")), (lit "tenant_id", .str (lit "a")),
      (lit "receipt_count", .int 2), (lit "observation_count", .int 0),
      (lit "receipts_digest", .str (digestText (.arr [.str (lit "h"), .str (lit "g")]))),
      (lit "observations_digest", .str (digestText (.arr [])))]
  ⟨lit "a", sampleChain x, [], body ++ [(lit "receipt_hash", Json.str (digestText (.obj body)))]⟩

theorem deletionReceipt_sample (x : Int) :
    deletionReceipt (lit "a") (sampleTenant x) = .ok (sampleRecord x).deletionReceipt := by
  have hhash : (sampleTenant x).receiptChain.map hashField = [.str (lit "h"), .str (lit "g")] := by
    show [hashField (chainEntry _ _ _), hashField (chainEntry _ _ _)] = _
    rw [hashField_chainEntry, hashField_chainEntry]
    rfl
  have h1 : digest (.arr ((sampleTenant x).receiptChain.map hashField)) =
      .ok (digestText (.arr [.str (lit "h"), .str (lit "g")])) := by
    rw [hhash]
    exact digest_of_digestible (by decide)
  refine bind_eq_ok.2 ⟨_, h1, bind_eq_ok.2 ⟨digestText (.arr []), ?_, bind_eq_ok.2 ⟨_, ?_, rfl⟩⟩⟩
  · have hnone : Digestible (.arr []) := by decide
    exact digest_of_digestible hnone
  · apply digest_of_digestible
    rw [digestible_obj]
    have hhex : ∀ v : Json, encodable (digestText v) = true := fun v => sha256_encodable _
    simp only [List.mem_cons, List.not_mem_nil, or_false, forall_eq_or_imp, forall_eq,
      encodable_lit, digestible_str, digestible_int, hhex, true_and]
    have hcounts : intPrintable 2 = true ∧ intPrintable 0 = true := by decide
    exact ⟨hcounts.1, hcounts.2, trivial⟩

theorem deleteTenant_sample (x : Int) :
    deleteTenant (sampleLifecycle x) ⟨lit "root", true⟩ (lit "a") =
      (.ok (sampleRecord x), ⟨[], [(lit "a", sampleRecord x)]⟩) := by
  have hchecks : (do requirePlatformAdmin ⟨lit "root", true⟩; identifier (lit "a") :
      Except PyExn Unit) = .ok () := by decide
  have hget : (sampleLifecycle x).tenants.get? (lit "a") = some (sampleTenant x) := rfl
  simp only [deleteTenant, hchecks, hget, deletionReceipt_sample]
  rfl

theorem sampleFirst_checked : ((Json.obj (sampleFirst 1)).wf = true ∧
    Digestible (.obj (sampleFirst 1))) ∧
    (Json.obj (sampleFirst 2)).wf = true ∧ Digestible (.obj (sampleFirst 2)) := by
  decide

theorem lastDigest_sample (x : Int) : lastDigest (sampleChain x) =
    some (.str (digestText (.arr [.str (lit "h"), .obj sampleLast]))) := by
  rw [lastDigest, sampleChain, List.getLast?_cons_cons, List.getLast?_singleton, Option.bind_some,
    chainDigest_chainEntry]
  rfl

/-- Two histories that differ in their first receipt have the same last chain digest, and the
deletions of the two tenants give the same deletion receipt. -/
theorem first_receipts_differ :
    History (sampleTenant 1) [sampleFirst 1, sampleLast] ∧
    History (sampleTenant 2) [sampleFirst 2, sampleLast] ∧
    (∃ v, lastDigest (sampleTenant 1).receiptChain = some v ∧
      lastDigest (sampleTenant 2).receiptChain = some v) ∧
    (∃ record record' l l',
      deleteTenant (sampleLifecycle 1) ⟨lit "root", true⟩ (lit "a") = (.ok record, l) ∧
      deleteTenant (sampleLifecycle 2) ⟨lit "root", true⟩ (lit "a") = (.ok record', l') ∧
      record.deletionReceipt = record'.deletionReceipt) ∧
    ¬ List.Forall₂ (fun r r' => Alike (.obj r) (.obj r')) [sampleFirst 1, sampleLast]
      [sampleFirst 2, sampleLast] := by
  refine ⟨sampleTenant_history sampleFirst_checked.1.1 sampleFirst_checked.1.2,
    sampleTenant_history sampleFirst_checked.2.1 sampleFirst_checked.2.2,
    ⟨_, lastDigest_sample 1, lastDigest_sample 2⟩,
    ⟨_, _, _, _, deleteTenant_sample 1, deleteTenant_sample 2, rfl⟩, ?_⟩
  intro h
  have hne : ¬ Alike (.obj (sampleFirst 1)) (.obj (sampleFirst 2)) := by decide
  exact hne (List.forall₂_cons.1 h).1

/-- The two histories agree in every `receipt_hash`. -/
theorem tenant_digests_bind_sample :
    List.Forall₂ SameHash [sampleFirst 1, sampleLast] [sampleFirst 2, sampleLast] := by
  have hs := sampleTenant_history sampleFirst_checked.1.1 sampleFirst_checked.1.2
  have ht := sampleTenant_history sampleFirst_checked.2.1 sampleFirst_checked.2.2
  have hbytes : chainBytes [sampleFirst 1, sampleLast] = chainBytes [sampleFirst 2, sampleLast] := rfl
  have hsha : Set.InjOn sha256
      {chainBytes [sampleFirst 1, sampleLast], chainBytes [sampleFirst 2, sampleLast]} := by
    rw [hbytes, Set.pair_eq_singleton]
    exact Set.injOn_singleton _ _
  exact ((tenant_digests_bind hs ht).1 _ (lastDigest_sample 1) (lastDigest_sample 2) hsha).1

end Concrete

end ResidualHarness.Tenancy
