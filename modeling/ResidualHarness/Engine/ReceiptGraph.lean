import ResidualHarness.Engine.Harness
import ResidualHarness.Python.WholeFloats

/-!
# Receipt graphs

`validate_receipt_graph` of `residual/receipts.py`. A receipt names the hashes of the receipts of
its prerequisites, so that its own hash commits to all of its history: where SHA-256 does not
collide on the texts of two valid graphs, a task with the same hash in both has the same ancestors
in both, each with the same payload, schema and prerequisites (`history_of_hash`).
-/

set_option autoImplicit false

namespace ResidualHarness.Engine

open Python Core

/-! ## Sorted references -/

/-- The order of references. -/
def ReferenceLe (a b : ReceiptReference) : Prop :=
  a.taskId < b.taskId ∨ a.taskId = b.taskId ∧ a.receiptHash ≤ b.receiptHash

instance : DecidableRel ReferenceLe := fun a b =>
  inferInstanceAs (Decidable (a.taskId < b.taskId ∨ a.taskId = b.taskId ∧ a.receiptHash ≤ b.receiptHash))

instance : Std.Total ReferenceLe where
  total a b := by
    rcases lt_trichotomy a.taskId b.taskId with h | h | h
    · exact Or.inl (Or.inl h)
    · rcases le_total a.receiptHash b.receiptHash with h' | h'
      · exact Or.inl (Or.inr ⟨h, h'⟩)
      · exact Or.inr (Or.inr ⟨h.symm, h'⟩)
    · exact Or.inr (Or.inl h)

instance : IsTrans ReceiptReference ReferenceLe where
  trans a b c hab hbc := by
    rcases hab with hab | ⟨hab, hab'⟩
    · rcases hbc with hbc | ⟨hbc, -⟩
      · exact Or.inl (hab.trans hbc)
      · exact Or.inl (hbc ▸ hab)
    · rcases hbc with hbc | ⟨hbc, hbc'⟩
      · exact Or.inl (hab ▸ hbc)
      · exact Or.inr ⟨hab.trans hbc, hab'.trans hbc'⟩

theorem sortReferences_sorted (refs : List ReceiptReference) :
    (sortReferences refs).Pairwise ReferenceLe :=
  List.pairwise_insertionSort ReferenceLe refs

theorem mem_sortReferences {refs : List ReceiptReference} {r : ReceiptReference} :
    r ∈ sortReferences refs ↔ r ∈ refs :=
  List.mem_insertionSort _

theorem sortReferences_idem (refs : List ReceiptReference) :
    sortReferences (sortReferences refs) = sortReferences refs :=
  (sortReferences_sorted refs).insertionSort_eq

/-! ## The constructor -/

/-- What the constructor has checked. -/
structure StationReceipt.Checked (r : StationReceipt) : Prop where
  taskId : isIdentifier r.taskId = true
  cacheKey : isHash r.cacheKey = true
  valueHash : isHash r.valueHash = true
  revision : isHash r.verifierRevision = true
  verifier : verifierId r.verifierName = .ok ()
  engine : isBlank r.engineName = false
  version : isBlank r.engineVersion = false
  verdict : r.verdict ≠ .skipped
  sorted : sortReferences r.parentReceipts = r.parentReceipts
  distinct : (r.parentReceipts.map ReceiptReference.taskId).Nodup
  others : ∀ p ∈ r.parentReceipts, p.taskId ≠ r.taskId

/-- The constructor sorts the references and checks the rest. -/
theorem postInit_eq_ok {s r : StationReceipt} (h : s.postInit = .ok r) :
    r.Checked ∧ r = { s with parentReceipts := sortReferences s.parentReceipts } := by
  simp only [StationReceipt.postInit] at h
  obtain ⟨_, htask, h⟩ := bind_eq_ok.1 h
  obtain ⟨_, hkey, h⟩ := bind_eq_ok.1 h
  obtain ⟨_, hvalue, h⟩ := bind_eq_ok.1 h
  obtain ⟨_, hrevision, h⟩ := bind_eq_ok.1 h
  obtain ⟨⟨⟩, hverifier, h⟩ := bind_eq_ok.1 h
  obtain ⟨_, hengine, h⟩ := bind_eq_ok.1 h
  obtain ⟨_, hversion, h⟩ := bind_eq_ok.1 h
  obtain ⟨_, hverdict, h⟩ := bind_eq_ok.1 h
  obtain ⟨_, hrefs, h⟩ := bind_eq_ok.1 h
  cases h
  exact ⟨⟨require_eq_ok.1 htask, require_eq_ok.1 hkey, require_eq_ok.1 hvalue,
    require_eq_ok.1 hrevision, hverifier, require_eq_ok.1 hengine, require_eq_ok.1 hversion,
    require_eq_ok.1 hverdict, sortReferences_idem _, (require_eq_ok.1 hrefs).1,
    (require_eq_ok.1 hrefs).2⟩, rfl⟩

section Graphs

variable [FloatModel]

/-! ## Validation -/

/-- `tuple(sorted(ReceiptReference(d, receipts[d].receipt_hash) for d in deps))`. -/
def expectedParents (receipts : Dict Str StationReceipt) (deps : List Str) :
    Except PyExn (List ReceiptReference) := do
  let refs ← mapE (fun d => do
    receiptReference d (← (← lookupKey receipts d).receiptHash)) deps
  return sortReferences refs

/-- The checks of `validate_receipt_graph` on one receipt. -/
def validateReceipt (receipts : Dict Str StationReceipt) (dependencies : Dict Str (List Str))
    (item : Str × StationReceipt) : Except PyExn Unit := do
  let deps ← lookupKey dependencies item.1
  require (item.2.taskId = item.1 ∧ deps.Nodup ∧ ∀ d ∈ deps, d ∈ receipts.keys)
    (contractError "invalid receipt graph")
  let expected ← expectedParents receipts deps
  require (item.2.parentReceipts = expected) (contractError "prerequisite receipt mismatch")

/-- The tasks that can be resolved next. -/
def resolvable (dependencies : Dict Str (List Str)) (resolved : List Str) : List Str :=
  (dependencies.filter fun t => (∀ d ∈ t.2, d ∈ resolved) ∧ t.1 ∉ resolved).map Prod.fst

/-- The loop of `validate_receipt_graph`. Every round resolves a task, so that the fuel of one round
for each receipt is never used up. -/
def resolveAll (dependencies : Dict Str (List Str)) (count : Nat) :
    Nat → List Str → Except PyExn Unit
  | fuel, resolved =>
      if count ≤ resolved.length then .ok ()
      else
        match fuel with
        | 0 => .error (.runtimeError "fuel" "unreachable")
        | fuel + 1 =>
            if resolvable dependencies resolved = [] then
              .error (contractError "receipt dependency cycle")
            else resolveAll dependencies count fuel (resolved ++ resolvable dependencies resolved)

/-- `validate_receipt_graph(receipts, dependencies)`. -/
def validateReceiptGraph (receipts : Dict Str StationReceipt) (dependencies : Dict Str (List Str)) :
    Except PyExn Unit := do
  require ((∀ k ∈ receipts.keys, k ∈ dependencies.keys) ∧ ∀ k ∈ dependencies.keys, k ∈ receipts.keys)
    (contractError "missing receipt or dependency declaration")
  let _ ← mapE (validateReceipt receipts dependencies) receipts
  resolveAll dependencies receipts.length receipts.length []

/-! ## What a hash determines -/

/-- The items of a payload. -/
def StationReceipt.payloadItems (r : StationReceipt) : Fields :=
  [(lit "task_id", Json.str r.taskId), (lit "cache_key", .str r.cacheKey),
    (lit "value_hash", .str r.valueHash), (lit "verifier_name", .str r.verifierName),
    (lit "verifier_revision", .str r.verifierRevision), (lit "verdict", .str r.verdict.text),
    (lit "parent_receipts", .arr (r.parentReceipts.map ReceiptReference.asDict))] ++
    (if r.schema = .v2 then
      [(lit "engine_name", Json.str r.engineName), (lit "engine_version", .str r.engineVersion)]
    else [])

theorem payload_items (r : StationReceipt) : r.payload = .obj r.payloadItems := rfl

theorem payloadItems_keys (r : StationReceipt) :
    r.payloadItems.map Prod.fst = payloadKeys r.schema := by
  rw [StationReceipt.payloadItems, payloadKeys]
  cases r.schema <;> rfl

theorem payloadItems_nodup (r : StationReceipt) : (r.payloadItems.map Prod.fst).Nodup := by
  rw [payloadItems_keys]
  cases r.schema <;> decide

theorem reference_wf (r : ReceiptReference) : r.asDict.wf = true := by
  have hkeys : [lit "task_id", lit "receipt_hash"].Nodup := by decide
  simp only [ReceiptReference.asDict, Json.wf, Json.wfFields, List.map_cons, List.map_nil, hkeys,
    decide_true, Bool.and_self]

theorem payload_wf (r : StationReceipt) : r.payload.wf = true := by
  rw [payload_items, Json.wf, Bool.and_eq_true, decide_eq_true_eq, Json.wfFields_iff]
  refine ⟨payloadItems_nodup r, ?_⟩
  have hparents : (Json.arr (r.parentReceipts.map ReceiptReference.asDict)).wf = true := by
    rw [Json.wf, Json.wfElems_iff]
    intro v hv
    obtain ⟨ref, -, rfl⟩ := List.mem_map.1 hv
    exact reference_wf ref
  rw [StationReceipt.payloadItems, List.forall_mem_append]
  constructor
  · simp only [List.forall_mem_cons]
    exact ⟨rfl, rfl, rfl, rfl, rfl, rfl, hparents, nofun⟩
  · split <;> simp [Json.wf]

theorem reference_of_alike {a b : ReceiptReference} (h : a.asDict.norm = b.asDict.norm) : a = b := by
  rw [ReceiptReference.asDict, ReceiptReference.asDict, Fields.obj_norm, Fields.obj_norm] at h
  have hget := Fields.get?_alike (Json.obj.inj h)
    (show [lit "task_id", lit "receipt_hash"].Nodup by decide)
  obtain ⟨task, hash⟩ := a
  obtain ⟨task', hash'⟩ := b
  have h1 : task = task' := Json.str.inj (Option.some.inj (hget (lit "task_id")))
  have h2 : hash = hash' := Json.str.inj (Option.some.inj (hget (lit "receipt_hash")))
  rw [h1, h2]

/-- Payloads of one schema with the same canonical form are the same. -/
theorem payload_of_alike {r q : StationReceipt} (hs : r.schema = q.schema)
    (h : r.payload.norm = q.payload.norm) :
    r.payload = q.payload ∧ r.parentReceipts = q.parentReceipts := by
  rw [payload_items, payload_items, Fields.obj_norm, Fields.obj_norm] at h
  have hget := Fields.get?_alike (Json.obj.inj h) (payloadItems_nodup q)
  have hstr : ∀ {a b : Str}, some ((Json.str a).norm) = some ((Json.str b).norm) → a = b :=
    fun he => Json.str.inj (Option.some.inj he)
  have h1 : r.taskId = q.taskId := hstr (hget (lit "task_id"))
  have h2 : r.cacheKey = q.cacheKey := hstr (hget (lit "cache_key"))
  have h3 : r.valueHash = q.valueHash := hstr (hget (lit "value_hash"))
  have h4 : r.verifierName = q.verifierName := hstr (hget (lit "verifier_name"))
  have h5 : r.verifierRevision = q.verifierRevision := hstr (hget (lit "verifier_revision"))
  have h6 : r.verdict.text = q.verdict.text := hstr (hget (lit "verdict"))
  have h7 : r.parentReceipts = q.parentReceipts := by
    have harr := Option.some.inj (hget (lit "parent_receipts"))
    rw [Json.norm_arr, Json.norm_arr, List.map_map, List.map_map] at harr
    exact List.map_injective_iff.2 (fun _ _ => reference_of_alike) (Json.arr.inj harr)
  refine ⟨?_, h7⟩
  by_cases hv2 : r.schema = .v2
  · have hv2' : q.schema = .v2 := hs ▸ hv2
    rw [StationReceipt.payloadItems, StationReceipt.payloadItems, if_pos hv2, if_pos hv2'] at hget
    have h8 : r.engineName = q.engineName := hstr (hget (lit "engine_name"))
    have h9 : r.engineVersion = q.engineVersion := hstr (hget (lit "engine_version"))
    rw [StationReceipt.payload, StationReceipt.payload, hs, h1, h2, h3, h4, h5, h6, h7, h8, h9]
  · have hv2' : ¬ q.schema = .v2 := hs ▸ hv2
    rw [StationReceipt.payload, StationReceipt.payload, if_neg hv2, if_neg hv2', h1, h2, h3, h4, h5,
      h6, h7]

/-- The bytes that the hash of a receipt is taken of. -/
def StationReceipt.hashedBytes (r : StationReceipt) : Except PyExn (List Nat) := do
  let text ← canonical r.payload
  utf8 (r.schema.text ++ lf :: text)

theorem receiptHash_eq_ok {r : StationReceipt} {x : Str} :
    r.receiptHash = .ok x ↔ ∃ b, r.hashedBytes = .ok b ∧ x = sha256 b := by
  rw [StationReceipt.receiptHash, domainHash, StationReceipt.hashedBytes]
  constructor
  · intro h
    obtain ⟨text, ht, h⟩ := bind_eq_ok.1 h
    obtain ⟨data, hd, h⟩ := bind_eq_ok.1 h
    cases h
    exact ⟨data, bind_eq_ok.2 ⟨text, ht, hd⟩, rfl⟩
  · rintro ⟨b, hb, rfl⟩
    obtain ⟨text, ht, hd⟩ := bind_eq_ok.1 hb
    exact bind_eq_ok.2 ⟨text, ht, bind_eq_ok.2 ⟨b, hd, rfl⟩⟩

omit [FloatModel] in
theorem schema_of_text {a b : ReceiptSchema} {s t : Str} (h : a.text ++ lf :: s = b.text ++ lf :: t) :
    a = b ∧ s = t := by
  have hlen : a.text.length = b.text.length := by cases a <;> cases b <;> decide
  obtain ⟨htext, hrest⟩ := List.append_inj h hlen
  refine ⟨?_, (List.cons.inj hrest).2⟩
  cases a <;> cases b <;> first | rfl | exact absurd htext (by decide)

/-- The bytes determine the schema and the payload. -/
theorem payload_of_bytes {r q : StationReceipt} {b : List Nat} (hr : r.hashedBytes = .ok b)
    (hq : q.hashedBytes = .ok b) :
    r.schema = q.schema ∧ r.payload = q.payload ∧ r.parentReceipts = q.parentReceipts := by
  obtain ⟨text, ht, hb⟩ := bind_eq_ok.1 hr
  obtain ⟨text', ht', hb'⟩ := bind_eq_ok.1 hq
  obtain ⟨hd, rfl⟩ := dumpable_of_canonical ht
  obtain ⟨hd', rfl⟩ := dumpable_of_canonical ht'
  have hutf : ∀ {s : Str} {b : List Nat}, utf8 s = .ok b → b = s.flatMap utf8Char := by
    intro s b hs
    rw [utf8] at hs
    split at hs
    · cases hs
      rfl
    · cases hs
  obtain ⟨hschema, hrender⟩ := schema_of_text
    (utf8Text_injective ((hutf hb).symm.trans (hutf hb')))
  have hnorm : r.payload.norm = q.payload.norm := by
    have h1 := loads_render (payload_wf r) hd
    rw [hrender, loads_render (payload_wf q) hd'] at h1
    exact (Option.some.inj h1).symm
  exact ⟨hschema, payload_of_alike hschema hnorm⟩

/-! ## Histories -/

/-- The first task is a declared prerequisite of the second. -/
def Prerequisite (dependencies : Dict Str (List Str)) (d t : Str) : Prop :=
  ∃ deps, dependencies.get? t = some deps ∧ d ∈ deps

/-- The first task is an ancestor of the second. -/
def AncestorOf (dependencies : Dict Str (List Str)) : Str → Str → Prop :=
  Relation.TransGen (Prerequisite dependencies)

/-- SHA-256 does not collide on the texts of the receipts of two graphs. -/
def CollisionFreeGraphs (receipts receipts' : Dict Str StationReceipt) : Prop :=
  Set.InjOn sha256 {b | ∃ r, (r ∈ receipts.map Prod.snd ∨ r ∈ receipts'.map Prod.snd) ∧
    r.hashedBytes = .ok b}

/-- The task has a receipt in both graphs, with the same hash. -/
def SameHash (receipts receipts' : Dict Str StationReceipt) (t : Str) : Prop :=
  ∃ r r' x, receipts.get? t = some r ∧ receipts'.get? t = some r' ∧ r.receiptHash = .ok x ∧
    r'.receiptHash = .ok x

/-- The task has the same receipt and the same prerequisites in both graphs. -/
structure SameNode (receipts receipts' : Dict Str StationReceipt)
    (dependencies dependencies' : Dict Str (List Str)) (t : Str) : Prop where
  receipt : ∃ r r', receipts.get? t = some r ∧ receipts'.get? t = some r' ∧ r.payload = r'.payload ∧
    r.schema = r'.schema
  prerequisites : ∀ d, Prerequisite dependencies d t ↔ Prerequisite dependencies' d t

section Commit

variable {receipts receipts' : Dict Str StationReceipt}
  {dependencies dependencies' : Dict Str (List Str)}

omit [FloatModel] in
theorem lookupKey_eq_ok {κ β : Type} [DecidableEq κ] {d : Dict κ β} {k : κ} {v : β} :
    lookupKey d k = .ok v ↔ d.get? k = some v := by
  rw [lookupKey]
  cases d.get? k with
  | none => simp
  | some w => simp

/-- What a valid graph says about one receipt. -/
theorem validate_item (hv : validateReceiptGraph receipts dependencies = .ok ()) {t : Str}
    {r : StationReceipt} (hr : receipts.get? t = some r) :
    ∃ deps, dependencies.get? t = some deps ∧ expectedParents receipts deps = .ok r.parentReceipts := by
  obtain ⟨_, -, hv⟩ := bind_eq_ok.1 hv
  obtain ⟨us, hitems, -⟩ := bind_eq_ok.1 hv
  obtain ⟨u, -, hitem⟩ := mem_zip_of_mapE hitems (Dict.mem_of_get? hr)
  obtain ⟨deps, hdeps, hitem⟩ := bind_eq_ok.1 hitem
  obtain ⟨_, -, hitem⟩ := bind_eq_ok.1 hitem
  obtain ⟨expected, hexp, hitem⟩ := bind_eq_ok.1 hitem
  refine ⟨deps, lookupKey_eq_ok.1 hdeps, ?_⟩
  rw [require_eq_ok.1 hitem]
  exact hexp

/-- Each prerequisite has a reference with the hash of its receipt. -/
theorem reference_of_expectedParents {deps : List Str} {ps : List ReceiptReference}
    (hp : expectedParents receipts deps = .ok ps) {d : Str} (hd : d ∈ deps) :
    ∃ q x, receipts.get? d = some q ∧ q.receiptHash = .ok x ∧ ⟨d, x⟩ ∈ ps := by
  obtain ⟨refs, hrefs, hp⟩ := bind_eq_ok.1 hp
  cases hp
  obtain ⟨ref, hzip, hf⟩ := mem_zip_of_mapE hrefs hd
  obtain ⟨q, hq, hf⟩ := bind_eq_ok.1 hf
  obtain ⟨x, hx, hf⟩ := bind_eq_ok.1 hf
  obtain ⟨_, -, hf⟩ := bind_eq_ok.1 hf
  obtain ⟨_, -, hf⟩ := bind_eq_ok.1 hf
  cases hf
  exact ⟨q, x, lookupKey_eq_ok.1 hq, hx, mem_sortReferences.2 (List.of_mem_zip hzip).2⟩

/-- Each reference is that of a prerequisite, with the hash of its receipt. -/
theorem of_mem_expectedParents {deps : List Str} {ps : List ReceiptReference}
    (hp : expectedParents receipts deps = .ok ps) {p : ReceiptReference} (hmem : p ∈ ps) :
    p.taskId ∈ deps ∧ ∃ q, receipts.get? p.taskId = some q ∧ q.receiptHash = .ok p.receiptHash := by
  obtain ⟨refs, hrefs, hp⟩ := bind_eq_ok.1 hp
  cases hp
  obtain ⟨d, hd, hf⟩ := of_mem_mapE hrefs (mem_sortReferences.1 hmem)
  obtain ⟨q, hq, hf⟩ := bind_eq_ok.1 hf
  obtain ⟨x, hx, hf⟩ := bind_eq_ok.1 hf
  obtain ⟨_, -, hf⟩ := bind_eq_ok.1 hf
  obtain ⟨_, -, hf⟩ := bind_eq_ok.1 hf
  cases hf
  exact ⟨hd, q, lookupKey_eq_ok.1 hq, hx⟩

/-- Equal parents are those of the same prerequisites, with the same hashes. -/
theorem same_of_expectedParents {deps deps' : List Str} {ps : List ReceiptReference}
    (hp : expectedParents receipts deps = .ok ps) (hp' : expectedParents receipts' deps' = .ok ps)
    {d : Str} (hd : d ∈ deps) : d ∈ deps' ∧ SameHash receipts receipts' d := by
  obtain ⟨q, x, hq, hx, hmem⟩ := reference_of_expectedParents hp hd
  obtain ⟨hd', q', hq', hx'⟩ := of_mem_expectedParents hp' hmem
  exact ⟨hd', q, q', x, hq, hq', hx, hx'⟩

/-- The step of the induction: a hash determines a receipt and the hashes of its prerequisites. -/
theorem commit_step (hfree : CollisionFreeGraphs receipts receipts')
    (hv : validateReceiptGraph receipts dependencies = .ok ())
    (hv' : validateReceiptGraph receipts' dependencies' = .ok ()) {t : Str}
    (ht : SameHash receipts receipts' t) :
    SameNode receipts receipts' dependencies dependencies' t ∧
      ∀ d, Prerequisite dependencies d t → SameHash receipts receipts' d := by
  obtain ⟨r, r', x, hr, hr', hx, hx'⟩ := ht
  obtain ⟨b, hb, rfl⟩ := receiptHash_eq_ok.1 hx
  obtain ⟨b', hb', hsha⟩ := receiptHash_eq_ok.1 hx'
  have hmem : r ∈ receipts.map Prod.snd := List.mem_map.2 ⟨_, Dict.mem_of_get? hr, rfl⟩
  have hmem' : r' ∈ receipts'.map Prod.snd := List.mem_map.2 ⟨_, Dict.mem_of_get? hr', rfl⟩
  obtain rfl := hfree ⟨r, Or.inl hmem, hb⟩ ⟨r', Or.inr hmem', hb'⟩ hsha
  obtain ⟨hschema, hpayload, hparents⟩ := payload_of_bytes hb hb'
  obtain ⟨deps, hdeps, hexp⟩ := validate_item hv hr
  obtain ⟨deps', hdeps', hexp'⟩ := validate_item hv' hr'
  rw [← hparents] at hexp'
  refine ⟨⟨⟨r, r', hr, hr', hpayload, hschema⟩, fun d => ⟨?_, ?_⟩⟩, ?_⟩
  · rintro ⟨ds, hds, hd⟩
    cases hds.symm.trans hdeps
    exact ⟨deps', hdeps', (same_of_expectedParents hexp hexp' hd).1⟩
  · rintro ⟨ds, hds, hd⟩
    cases hds.symm.trans hdeps'
    exact ⟨deps, hdeps, (same_of_expectedParents hexp' hexp hd).1⟩
  · rintro d ⟨ds, hds, hd⟩
    cases hds.symm.trans hdeps
    exact (same_of_expectedParents hexp hexp' hd).2

omit [FloatModel] in
/-- Tasks on a path to one that the relation `P` holds of, where `P` passes to prerequisites. -/
theorem ancestor_inherits {P : Str → Prop}
    (hP : ∀ t, P t → (∀ d, Prerequisite dependencies d t ↔ Prerequisite dependencies' d t) ∧
      ∀ d, Prerequisite dependencies d t → P d) {a t : Str} (ht : P t)
    (ha : AncestorOf dependencies a t) : P a ∧ AncestorOf dependencies' a t := by
  induction ha using Relation.TransGen.head_induction_on with
  | single hd => exact ⟨(hP t ht).2 _ hd, .single (((hP t ht).1 _).1 hd)⟩
  | head hd _ ih => exact ⟨(hP _ ih.1).2 _ hd, .head (((hP _ ih.1).1 _).1 hd) ih.2⟩

end Commit

end Graphs

section Concrete

attribute [local instance] wholeFloats

/-- A receipt of the first schema, which leaves out the name of the engine. -/
def leafReceipt (engineName : Str) : StationReceipt :=
  ⟨lit "task", List.replicate 64 0x61, List.replicate 64 0x61, lit "host:check",
    List.replicate 64 0x61, .pass, [], engineName, lit "1", .v1⟩

/-- A graph of that receipt. -/
def leafGraph (engineName : Str) : Dict Str StationReceipt := [(lit "task", leafReceipt engineName)]

theorem leafReceipt_bytes : ∃ b, ∀ name, (leafReceipt name).hashedBytes = .ok b := by
  have hd : (leafReceipt []).payload.dumpable = true := by decide
  have he : encodable ((leafReceipt []).schema.text ++ ([lf] ++ (leafReceipt []).payload.render)) =
      true := by
    rw [encodable_append, encodable_append, encodable_render hd]
    decide
  have hbytes := utf8_of_encodable he
  refine ⟨_, fun name => Eq.trans ?_ hbytes⟩
  -- the payload does not have the name
  have hpayload : (leafReceipt name).payload = (leafReceipt []).payload := rfl
  have hschema : (leafReceipt name).schema = (leafReceipt []).schema := rfl
  simp only [StationReceipt.hashedBytes, hpayload, hschema, canonical_of_dumpable hd, bind, Except.bind,
    List.singleton_append]

end Concrete

end ResidualHarness.Engine
