import ResidualHarness.Engine.ReceiptGraph
import ResidualHarness.Python.WholeFloats

/-!
# The envelope of a station receipt

`StationReceipt.to_dict` and `StationReceipt.from_dict` of `residual/receipts.py`. A receipt that
has an envelope is read back from it (`fromDict_toDict`), and an envelope that is accepted is, up to
the order of keys, the one that the receipt writes (`toDict_of_fromDict`).
-/

set_option autoImplicit false

namespace ResidualHarness.Engine

open Python Core

/-! ## Guards -/

theorem guard_bind_eq_some {α : Type} {p : Prop} [Decidable p] {x : Option α} {a : α} :
    (guard p >>= fun _ => x) = some a ↔ p ∧ x = some a := by
  by_cases h : p
  · rw [guard, if_pos h]
    exact ⟨fun hx => ⟨h, hx⟩, And.right⟩
  · rw [guard, if_neg h]
    exact ⟨nofun, fun hx => absurd hx.1 h⟩

/-! ## Receipts of the constructor -/

/-- A reference to an identifier and a hash. -/
def ReferenceOk (r : ReceiptReference) : Prop :=
  isIdentifier r.taskId = true ∧ isHash r.receiptHash = true

theorem receiptReference_ok {taskId hash : Str} {r : ReceiptReference}
    (hr : receiptReference taskId hash = .ok r) : ReferenceOk r := by
  rw [receiptReference] at hr
  obtain ⟨_, h1, hr⟩ := bind_eq_ok.1 hr
  obtain ⟨_, h2, hr⟩ := bind_eq_ok.1 hr
  cases hr
  exact ⟨require_eq_ok.1 h1, require_eq_ok.1 h2⟩

/-- A receipt that its constructor returned, with references that theirs returned. -/
structure StationReceipt.Made (r : StationReceipt) : Prop where
  references : ∀ p ∈ r.parentReceipts, ReferenceOk p
  made : ∃ s : StationReceipt, s.postInit = .ok r

/-- A receipt that the constructor returned goes through it unchanged. -/
theorem StationReceipt.Checked.postInit {r : StationReceipt} (h : r.Checked) :
    r.postInit = .ok r := by
  have hsorted := h.sorted
  rw [StationReceipt.postInit]
  refine bind_eq_ok.2 ⟨(), require_of h.taskId, bind_eq_ok.2 ⟨(), require_of h.cacheKey,
    bind_eq_ok.2 ⟨(), require_of h.valueHash, bind_eq_ok.2 ⟨(), require_of h.revision,
    bind_eq_ok.2 ⟨(), h.verifier, bind_eq_ok.2 ⟨(), require_of h.engine,
    bind_eq_ok.2 ⟨(), require_of h.version, bind_eq_ok.2 ⟨(), require_of h.verdict,
    bind_eq_ok.2 ⟨(), require_of ?_, ?_⟩⟩⟩⟩⟩⟩⟩⟩⟩
  · rw [hsorted]
    exact ⟨h.distinct, h.others⟩
  · rw [hsorted]
    rfl

theorem StationReceipt.Made.checked {r : StationReceipt} (h : r.Made) : r.Checked := by
  obtain ⟨s, hs⟩ := h.made
  exact (postInit_eq_ok hs).1

theorem ofText_text (c : CheckResult) : CheckResult.ofText c.text = some c := by
  cases c <;> decide

section Wire

variable [FloatModel]

/-! ## References -/

theorem strField_eq_some {d : Fields} {key t : Str} :
    strField d key = some t ↔ d.get? key = some (.str t) := by
  rw [strField]
  split
  · rename_i s hs
    rw [hs, Option.some.injEq, Option.some.injEq, Json.str.injEq]
  · rename_i hne
    exact ⟨nofun, fun h => absurd h (hne t)⟩

omit [FloatModel] in
theorem toOption_eq_some {ε α : Type} {x : Except ε α} {a : α} :
    x.toOption = some a ↔ x = .ok a := by
  cases x with
  | error e => exact ⟨nofun, nofun⟩
  | ok b => exact ⟨fun h => congrArg Except.ok (Option.some.inj h),
      fun h => congrArg some (Except.ok.inj h)⟩

theorem referenceOfDict_asDict {p : ReceiptReference} (h : ReferenceOk p) :
    referenceOfDict p.asDict = some p := by
  have hmake : receiptReference p.taskId p.receiptHash = .ok p :=
    bind_eq_ok.2 ⟨(), require_of h.1, bind_eq_ok.2 ⟨(), require_of h.2, rfl⟩⟩
  have hkeys : keysAre [(lit "task_id", .str p.taskId), (lit "receipt_hash", .str p.receiptHash)]
      [lit "task_id", lit "receipt_hash"] = true := by
    rw [keysAre, decide_eq_true_eq]
    simp
  rw [ReceiptReference.asDict, referenceOfDict]
  refine guard_bind_eq_some.2 ⟨hkeys, Option.bind_eq_some_iff.2 ⟨p.taskId, rfl,
    Option.bind_eq_some_iff.2 ⟨p.receiptHash, rfl, ?_⟩⟩⟩
  rw [hmake]
  rfl

theorem referenceOk_of_dict {v : Json} {p : ReceiptReference} (h : referenceOfDict v = some p) :
    ReferenceOk p := by
  cases v with
  | obj d =>
      obtain ⟨-, h⟩ := guard_bind_eq_some.1 h
      obtain ⟨taskId, -, h⟩ := Option.bind_eq_some_iff.1 h
      obtain ⟨hash, -, h⟩ := Option.bind_eq_some_iff.1 h
      exact receiptReference_ok (toOption_eq_some.1 h)
  | _ => cases h

theorem mapM_referenceOfDict {ps : List ReceiptReference} (h : ∀ p ∈ ps, ReferenceOk p) :
    (ps.map ReceiptReference.asDict).mapM referenceOfDict = some ps := by
  induction ps with
  | nil => rfl
  | cons p ps ih =>
      rw [List.map_cons, List.mapM_cons, referenceOfDict_asDict (h p List.mem_cons_self),
        ih fun q hq => h q (List.mem_cons_of_mem _ hq)]
      rfl

theorem referenceOk_of_mapM {vs : List Json} {ps : List ReceiptReference}
    (h : vs.mapM referenceOfDict = some ps) : ∀ p ∈ ps, ReferenceOk p := by
  induction vs generalizing ps with
  | nil =>
      cases h
      intro p hp
      cases hp
  | cons v vs ih =>
      rw [List.mapM_cons] at h
      obtain ⟨p, hp, h⟩ := Option.bind_eq_some_iff.1 h
      obtain ⟨qs, hqs, h⟩ := Option.bind_eq_some_iff.1 h
      cases h
      intro q hq
      rcases List.mem_cons.1 hq with rfl | hq
      · exact referenceOk_of_dict hp
      · exact ih hqs q hq

/-! ## Payloads -/

theorem keysAre_self (d : Fields) : keysAre d (d.map Prod.fst) = true := by
  rw [keysAre, decide_eq_true_eq]
  exact ⟨fun kv hkv => List.mem_map_of_mem hkv, fun k hk => hk⟩

/-- A receipt of the first schema has no engine of its own. -/
def StationReceipt.Legacy (r : StationReceipt) : Prop :=
  r.schema = .v1 → r.engineName = lit "unknown" ∧ r.engineVersion = lit "unknown"

/-- The references of a payload. -/
def parentsOf (payload : Fields) : Option (List ReceiptReference) :=
  match payload.get? (lit "parent_receipts") with
  | some (.arr ps) => ps.mapM referenceOfDict
  | _ => none

/-- A name of the engine in a payload. -/
def engineField (schema : ReceiptSchema) (payload : Fields) (key : String) : Option Str :=
  if schema = .v2 then strField payload (lit key) else some (lit "unknown")

theorem receiptOfPayload_eq (schema : ReceiptSchema) (payload : Fields) :
    receiptOfPayload schema payload = (guard (keysAre payload (payloadKeys schema)) >>= fun _ =>
      (parentsOf payload).bind fun parents =>
      (engineField schema payload "engine_name").bind fun engine =>
      (engineField schema payload "engine_version").bind fun version =>
      (strField payload (lit "verdict")).bind fun text =>
      (CheckResult.ofText text).bind fun verdict =>
      (strField payload (lit "task_id")).bind fun task =>
      (strField payload (lit "cache_key")).bind fun key =>
      (strField payload (lit "value_hash")).bind fun value =>
      (strField payload (lit "verifier_name")).bind fun name =>
      (strField payload (lit "verifier_revision")).bind fun revision =>
      (StationReceipt.postInit ⟨task, key, value, name, revision, verdict, parents, engine, version,
        schema⟩).toOption) := by
  rw [receiptOfPayload, parentsOf, engineField, engineField]
  refine congrArg (guard (keysAre payload (payloadKeys schema)) >>= ·) (funext fun _ => ?_)
  -- every branch goes on with the same rest
  generalize payload.get? (lit "parent_receipts") = parents
  cases parents with
  | none => rfl
  | some v => cases v <;> cases schema <;> rfl

/-- The payload of a receipt gives the receipt back. -/
theorem receiptOfPayload_payload {r : StationReceipt} (hr : r.Made) (hlegacy : r.Legacy) :
    receiptOfPayload r.schema r.payloadItems = some r := by
  obtain ⟨task, key, value, name, revision, verdict, parents, engine, version, schema⟩ := r
  have hkeys : keysAre (StationReceipt.payloadItems ⟨task, key, value, name, revision, verdict,
      parents, engine, version, schema⟩) (payloadKeys schema) = true := by
    have hself := keysAre_self (StationReceipt.payloadItems ⟨task, key, value, name, revision,
      verdict, parents, engine, version, schema⟩)
    rwa [payloadItems_keys] at hself
  have hparents := mapM_referenceOfDict hr.references
  have hpost := toOption_eq_some.2 hr.checked.postInit
  rw [receiptOfPayload_eq]
  refine guard_bind_eq_some.2 ⟨hkeys, Option.bind_eq_some_iff.2 ⟨parents, hparents, ?_⟩⟩
  cases schema with
  | v1 =>
      obtain ⟨rfl, rfl⟩ := hlegacy rfl
      refine Option.bind_eq_some_iff.2 ⟨_, rfl, Option.bind_eq_some_iff.2 ⟨_, rfl, ?_⟩⟩
      refine Option.bind_eq_some_iff.2 ⟨verdict.text, rfl, Option.bind_eq_some_iff.2
        ⟨verdict, ofText_text verdict, ?_⟩⟩
      exact hpost
  | v2 =>
      refine Option.bind_eq_some_iff.2 ⟨engine, rfl, Option.bind_eq_some_iff.2 ⟨version, rfl, ?_⟩⟩
      refine Option.bind_eq_some_iff.2 ⟨verdict.text, rfl, Option.bind_eq_some_iff.2
        ⟨verdict, ofText_text verdict, ?_⟩⟩
      exact hpost

/-- A payload that is accepted gives a receipt of the constructor. -/
theorem receiptOfPayload_spec {schema : ReceiptSchema} {payload : Fields} {r : StationReceipt}
    (h : receiptOfPayload schema payload = some r) : r.Made ∧ r.schema = schema ∧ r.Legacy := by
  rw [receiptOfPayload_eq] at h
  obtain ⟨-, h⟩ := guard_bind_eq_some.1 h
  obtain ⟨parents, hparents, h⟩ := Option.bind_eq_some_iff.1 h
  obtain ⟨engine, hengine, h⟩ := Option.bind_eq_some_iff.1 h
  obtain ⟨version, hversion, h⟩ := Option.bind_eq_some_iff.1 h
  obtain ⟨_, -, h⟩ := Option.bind_eq_some_iff.1 h
  obtain ⟨verdict, -, h⟩ := Option.bind_eq_some_iff.1 h
  obtain ⟨task, -, h⟩ := Option.bind_eq_some_iff.1 h
  obtain ⟨key, -, h⟩ := Option.bind_eq_some_iff.1 h
  obtain ⟨value, -, h⟩ := Option.bind_eq_some_iff.1 h
  obtain ⟨name, -, h⟩ := Option.bind_eq_some_iff.1 h
  obtain ⟨revision, -, h⟩ := Option.bind_eq_some_iff.1 h
  have hpost := toOption_eq_some.1 h
  obtain ⟨-, rfl⟩ := postInit_eq_ok hpost
  have hreferences : ∀ p ∈ parents, ReferenceOk p := by
    rw [parentsOf] at hparents
    split at hparents
    · exact referenceOk_of_mapM hparents
    · cases hparents
  refine ⟨⟨fun p hp => hreferences p (mem_sortReferences.1 hp), _, hpost⟩, rfl, ?_⟩
  rintro rfl
  cases hengine
  cases hversion
  exact ⟨rfl, rfl⟩

/-! ## Envelopes -/

/-- The items of an envelope. -/
def envelopeItems (schema : ReceiptSchema) (hash : Str) (payload : Json) : Fields :=
  [(lit "schema_version", .str schema.text), (lit "hash_algorithm", .str (lit "sha256")),
    (lit "receipt_hash", .str hash), (lit "payload", payload)]

theorem envelopeItems_nodup (schema : ReceiptSchema) (hash : Str) (payload : Json) :
    ((envelopeItems schema hash payload).map Prod.fst).Nodup := by
  rw [show (envelopeItems schema hash payload).map Prod.fst = [lit "schema_version",
    lit "hash_algorithm", lit "receipt_hash", lit "payload"] from rfl]
  decide

theorem toDict_eq_ok {r : StationReceipt} {e : Json} : r.toDict = .ok e ↔
    ∃ hash, r.receiptHash = .ok hash ∧ e = .obj (envelopeItems r.schema hash r.payload) := by
  constructor
  · intro h
    obtain ⟨hash, hhash, h⟩ := bind_eq_ok.1 h
    exact ⟨hash, hhash, (Except.ok.inj h).symm⟩
  · rintro ⟨hash, hhash, rfl⟩
    exact bind_eq_ok.2 ⟨hash, hhash, rfl⟩

omit [FloatModel] in
theorem find_schema (schema : ReceiptSchema) :
    ([ReceiptSchema.v2, .v1].find? fun s => s.text = schema.text) = some schema := by
  cases schema <;> decide

theorem fromDict_toDict {r : StationReceipt} (hr : r.Made) (hlegacy : r.Legacy) {e : Json}
    (h : r.toDict = .ok e) : StationReceipt.fromDict e = some r := by
  obtain ⟨hash, hhash, rfl⟩ := toDict_eq_ok.1 h
  have hkeys := keysAre_self (envelopeItems r.schema hash r.payload)
  have hdomain : (domainHash r.schema.text (.obj r.payloadItems)).toOption = some hash :=
    toOption_eq_some.2 hhash
  rw [StationReceipt.fromDict]
  refine guard_bind_eq_some.2 ⟨hkeys, Option.bind_eq_some_iff.2 ⟨r.schema.text, rfl,
    Option.bind_eq_some_iff.2 ⟨r.schema, find_schema r.schema, ?_⟩⟩⟩
  refine guard_bind_eq_some.2 ⟨rfl, Option.bind_eq_some_iff.2 ⟨hash, rfl, ?_⟩⟩
  refine guard_bind_eq_some.2 ⟨hdomain, Option.bind_eq_some_iff.2
    ⟨r, receiptOfPayload_payload hr hlegacy, ?_⟩⟩
  exact guard_bind_eq_some.2 ⟨Json.Same.refl _, guard_bind_eq_some.2
    ⟨toOption_eq_some.2 hhash, rfl⟩⟩

/-- What an envelope that is accepted consists of. -/
theorem fromDict_spec {v : Json} {r : StationReceipt} (h : StationReceipt.fromDict v = some r) :
    ∃ (env payload : Fields) (hash : Str), v = .obj env ∧
      keysAre env ((envelopeItems r.schema hash (.obj payload)).map Prod.fst) = true ∧
      (∀ kv ∈ envelopeItems r.schema hash (.obj payload), env.get? kv.1 = some kv.2) ∧
      r.Made ∧ r.Legacy ∧ r.payload.Same (.obj payload) ∧ r.receiptHash = .ok hash := by
  cases v with
  | obj env =>
      obtain ⟨hkeys, h⟩ := guard_bind_eq_some.1 h
      obtain ⟨version, hversion, h⟩ := Option.bind_eq_some_iff.1 h
      obtain ⟨schema, hschema, h⟩ := Option.bind_eq_some_iff.1 h
      obtain ⟨halgorithm, h⟩ := guard_bind_eq_some.1 h
      obtain ⟨hash, hhash, h⟩ := Option.bind_eq_some_iff.1 h
      split at h
      · rename_i payload hpayload
        obtain ⟨-, h⟩ := guard_bind_eq_some.1 h
        obtain ⟨r', hr, h⟩ := Option.bind_eq_some_iff.1 h
        obtain ⟨hsame, h⟩ := guard_bind_eq_some.1 h
        obtain ⟨hreceipt, h⟩ := guard_bind_eq_some.1 h
        cases h
        obtain ⟨hmade, rfl, hlegacy⟩ := receiptOfPayload_spec hr
        have hfound := List.find?_some hschema
        have htext : r.schema.text = version := of_decide_eq_true hfound
        refine ⟨env, payload, hash, rfl, hkeys, ?_, hmade, hlegacy, hsame,
          toOption_eq_some.1 hreceipt⟩
        simp only [envelopeItems, List.forall_mem_cons, List.not_mem_nil, false_imp_iff,
          implies_true, and_true, htext]
        exact ⟨strField_eq_some.1 hversion, strField_eq_some.1 halgorithm,
          strField_eq_some.1 hhash, hpayload⟩
      · cases h
  | _ => cases h

/-- A dictionary with the items of an envelope and no others is the envelope. -/
theorem norm_of_items {env d : Fields} (henv : (env.map Prod.fst).Nodup)
    (hd : (d.map Prod.fst).Nodup) (hkeys : keysAre env (d.map Prod.fst) = true)
    (hitems : ∀ kv ∈ d, env.get? kv.1 = some kv.2) : (Json.obj env).norm = (Json.obj d).norm := by
  rw [keysAre, decide_eq_true_eq] at hkeys
  rw [Fields.obj_norm, Fields.obj_norm]
  refine congrArg Json.obj (Fields.norm_ext henv hd fun key => ?_)
  by_cases hkey : key ∈ d.map Prod.fst
  · obtain ⟨kv, hkv, rfl⟩ := List.mem_map.1 hkey
    rw [hitems kv hkv, Fields.get?_of_mem hd hkv]
  · have hnone : ∀ e : Fields, (∀ kv ∈ e, kv.1 ∈ d.map Prod.fst) → e.get? key = none := by
      intro e he
      cases hget : e.get? key with
      | none => rfl
      | some w => exact absurd (he _ (Fields.mem_of_get? hget)) hkey
    rw [hnone env hkeys.1, hnone d fun kv hkv => List.mem_map_of_mem hkv]

/-- An envelope that is accepted is the one that its receipt writes. -/
theorem toDict_of_fromDict {v : Json} (hwf : v.wf = true) {r : StationReceipt}
    (h : StationReceipt.fromDict v = some r) : ∃ e, r.toDict = .ok e ∧ v.Same e := by
  obtain ⟨env, payload, hash, rfl, hkeys, hitems, -, -, hsame, hhash⟩ := fromDict_spec h
  rw [Json.wf, Bool.and_eq_true, decide_eq_true_eq] at hwf
  have hnorm := norm_of_items hwf.1 (envelopeItems_nodup _ _ _) hkeys hitems
  refine ⟨_, toDict_eq_ok.2 ⟨hash, hhash, rfl⟩, ?_⟩
  have hplain : (Json.obj env).Same (.obj (envelopeItems r.schema hash (.obj payload))) := by
    rw [Json.Same, ← Json.plain_norm, hnorm, Json.plain_norm]
  refine hplain.trans ?_
  rw [Json.Same, envelopeItems, envelopeItems]
  simp only [Json.plain, Json.plainFields]
  rw [hsame]
  rfl

/-! ## Receipts with an envelope -/

omit [FloatModel] in
theorem isAscii_of_verifierId {s : Str} (h : verifierId s = .ok ()) : isAscii s = true := by
  obtain ⟨_, -, h⟩ := bind_eq_ok.1 h
  exact isAscii_of_splitOn (require_eq_ok.1 h)

theorem domainHash_ok {schema : Str} {v : Json} (hs : encodable schema = true) (hv : Digestible v) :
    ∃ d, domainHash schema v = .ok d ∧ isHash d = true := by
  have hrender : encodable v.render = true := by
    rw [encodable_render hv.1]
    exact hv.2
  have htext : encodable (schema ++ lf :: v.render) = true := by
    rw [encodable_append, hs, show lf :: v.render = [lf] ++ v.render from rfl, encodable_append,
      hrender]
    rfl
  refine ⟨_, bind_eq_ok.2 ⟨_, canonical_of_dumpable hv.1, bind_eq_ok.2 ⟨_, utf8_of_encodable htext,
    rfl⟩⟩, sha256_isHash _⟩

omit [FloatModel] in
theorem schema_encodable (schema : ReceiptSchema) : encodable schema.text = true := by
  cases schema <;> exact encodable_lit _

omit [FloatModel] in
theorem verdict_encodable (c : CheckResult) : encodable c.text = true := by
  cases c <;> exact encodable_lit _

theorem domainHash_ok_iff {schema : Str} {v : Json} (hs : encodable schema = true) :
    (∃ d, domainHash schema v = .ok d) ↔ Digestible v := by
  constructor
  · rintro ⟨d, hd⟩
    obtain ⟨text, htext, hd⟩ := bind_eq_ok.1 hd
    obtain ⟨data, hdata, -⟩ := bind_eq_ok.1 hd
    obtain ⟨hdump, rfl⟩ := dumpable_of_canonical htext
    have hencodable := encodable_of_utf8 hdata
    rw [encodable_append, show lf :: v.render = [lf] ++ v.render from rfl, encodable_append,
      Bool.and_eq_true, Bool.and_eq_true, encodable_render hdump] at hencodable
    exact ⟨hdump, hencodable.2.2⟩
  · intro hv
    obtain ⟨d, hd, -⟩ := domainHash_ok hs hv
    exact ⟨d, hd⟩

/-- Only the names of the engine can keep a receipt from being hashed. -/
theorem digestible_payload_iff {r : StationReceipt} (hr : r.Made) : Digestible r.payload ↔
    (r.schema = .v2 → encodable r.engineName = true ∧ encodable r.engineVersion = true) := by
  have hc := hr.checked
  have hparents : Digestible (.arr (r.parentReceipts.map ReceiptReference.asDict)) := by
    rw [digestible_arr]
    intro v hv
    obtain ⟨p, hp, rfl⟩ := List.mem_map.1 hv
    obtain ⟨h1, h2⟩ := hr.references p hp
    rw [ReceiptReference.asDict, digestible_obj]
    simp [encodable_lit, encodable_of_isIdentifier h1, encodable_of_isHash h2]
  rw [StationReceipt.payload, digestible_obj]
  by_cases hschema : r.schema = .v2
  · simp [hschema, encodable_lit, hparents, verdict_encodable, encodable_of_isHash hc.cacheKey,
      encodable_of_isHash hc.valueHash, encodable_of_isHash hc.revision,
      encodable_of_isAscii (isAscii_of_verifierId hc.verifier), encodable_of_isIdentifier hc.taskId]
  · simp [hschema, encodable_lit, hparents, verdict_encodable, encodable_of_isHash hc.cacheKey,
      encodable_of_isHash hc.valueHash, encodable_of_isHash hc.revision,
      encodable_of_isAscii (isAscii_of_verifierId hc.verifier), encodable_of_isIdentifier hc.taskId]

theorem toDict_ok_iff {r : StationReceipt} (hr : r.Made) : (∃ e, r.toDict = .ok e) ↔
    (r.schema = .v2 → encodable r.engineName = true ∧ encodable r.engineVersion = true) := by
  rw [← digestible_payload_iff hr, ← domainHash_ok_iff (schema_encodable r.schema)]
  constructor
  · rintro ⟨e, he⟩
    obtain ⟨hash, hhash, -⟩ := toDict_eq_ok.1 he
    exact ⟨hash, hhash⟩
  · rintro ⟨hash, hhash⟩
    exact ⟨_, toDict_eq_ok.2 ⟨hash, hhash, rfl⟩⟩

omit [FloatModel] in
/-- The references of a receipt are in the order of their tasks, one for a task. -/
theorem StationReceipt.Checked.strictly_sorted {r : StationReceipt} (h : r.Checked) :
    r.parentReceipts.Pairwise fun a b => a.taskId < b.taskId := by
  have hsorted := sortReferences_sorted r.parentReceipts
  rw [h.sorted] at hsorted
  have hdistinct := List.pairwise_map.1 h.distinct
  refine (hsorted.and hdistinct).imp ?_
  rintro a b ⟨hlt | ⟨heq, -⟩, hne⟩
  · exact hlt
  · exact absurd heq hne

/-- The codec of station receipts. A receipt of the constructor has an envelope exactly when the names
of its engine can be encoded, and is read back from it; so is a receipt of the first schema. An
envelope that is accepted is the one that its receipt writes, with the references in order, and no two
envelopes give one receipt. -/
theorem receipt_codec :
    (∀ r : StationReceipt, r.Made → r.schema = .v2 →
      ((∃ e, r.toDict = .ok e) ↔
        encodable r.engineName = true ∧ encodable r.engineVersion = true) ∧
      ∀ e, r.toDict = .ok e → StationReceipt.fromDict e = some r) ∧
    (∀ (v : Json) (r : StationReceipt), StationReceipt.fromDict v = some r → r.schema = .v1 →
      ∃ e, r.toDict = .ok e ∧ StationReceipt.fromDict e = some r) ∧
    (∀ (v : {v : Json // v.wf = true}) (r : StationReceipt), StationReceipt.fromDict v.1 = some r →
      (∃ e, r.toDict = .ok e ∧ v.1.Same e) ∧
        r.parentReceipts.Pairwise fun a b => a.taskId < b.taskId) ∧
    ∀ (v w : {v : Json // v.wf = true}) (r : StationReceipt),
      StationReceipt.fromDict v.1 = some r → StationReceipt.fromDict w.1 = some r →
        v.1.Same w.1 := by
  refine ⟨fun r hr hschema => ⟨?_, fun e he => ?_⟩, fun v r h hschema => ?_, fun v r h => ?_,
    fun v w r hv hw => ?_⟩
  · rw [toDict_ok_iff hr]
    exact ⟨fun h => h hschema, fun h _ => h⟩
  · exact fromDict_toDict hr (fun hv1 => nomatch hv1.symm.trans hschema) he
  · obtain ⟨_, _, _, -, -, -, hmade, hlegacy, -, -⟩ := fromDict_spec h
    obtain ⟨e, he⟩ := (toDict_ok_iff hmade).2 fun hv2 => nomatch hschema.symm.trans hv2
    exact ⟨e, he, fromDict_toDict hmade hlegacy he⟩
  · obtain ⟨_, _, _, -, -, -, hmade, -, -, -⟩ := fromDict_spec h
    exact ⟨toDict_of_fromDict v.2 h, hmade.checked.strictly_sorted⟩
  · obtain ⟨e, he, hsame⟩ := toDict_of_fromDict v.2 hv
    obtain ⟨e', he', hsame'⟩ := toDict_of_fromDict w.2 hw
    cases he.symm.trans he'
    exact hsame.trans hsame'.symm

end Wire

section Concrete

attribute [local instance] wholeFloats

/-- A receipt of an engine with this name. -/
def namedReceipt (engineName : Str) : StationReceipt where
  taskId := lit "task"
  cacheKey := List.replicate 64 0x61
  valueHash := List.replicate 64 0x61
  verifierName := lit "host:check"
  verifierRevision := List.replicate 64 0x61
  verdict := .pass
  parentReceipts := []
  engineName := engineName
  engineVersion := lit "1"
  schema := .v2

theorem namedReceipt_made {engineName : Str} (h : isBlank engineName = false) :
    (namedReceipt engineName).Made where
  references _ hp := absurd hp List.not_mem_nil
  made := ⟨namedReceipt engineName, StationReceipt.Checked.postInit ⟨rfl, rfl, rfl, rfl, rfl, h, rfl,
    (fun h => nomatch h), rfl, List.nodup_nil, fun _ hp => absurd hp List.not_mem_nil⟩⟩

/-- A receipt is read back. -/
theorem receipt_codec_sample : ∃ e, (namedReceipt (lit "engine")).toDict = .ok e ∧
    StationReceipt.fromDict e = some (namedReceipt (lit "engine")) := by
  obtain ⟨hok, hback⟩ := receipt_codec.1 (namedReceipt (lit "engine"))
    (namedReceipt_made (by decide)) rfl
  obtain ⟨e, he⟩ := hok.2 ⟨encodable_lit _, encodable_lit _⟩
  exact ⟨e, he, hback e he⟩

/-- The constructor accepts an engine whose name is a lone surrogate, but then there is no envelope. -/
theorem receipt_without_envelope :
    ¬ ∀ r : StationReceipt, r.Made → r.schema = .v2 →
      ∃ e, r.toDict = .ok e ∧ StationReceipt.fromDict e = some r := by
  intro h
  have hmade : (namedReceipt [0xD800]).Made := namedReceipt_made (by decide)
  obtain ⟨e, he, -⟩ := h _ hmade rfl
  have hname := ((toDict_ok_iff hmade).1 ⟨e, he⟩ rfl).1
  exact absurd hname (by decide)

end Concrete

end ResidualHarness.Engine
