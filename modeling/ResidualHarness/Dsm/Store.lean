import ResidualHarness.Python.Loops
import ResidualHarness.Dsm.Journal

/-!
# The distributed state store

`residual/dsm/store.py` with the ownership registry and the lease check it calls. Admission and the
projection of current values are computed from the journal alone. The abstract store is the list of
events journaled so far; `StoreOf` relates a store to it, and each view of the journal is given on
the list: duplicates (`find_view`), the events of an entity (`acceptedEvents_view`) and the current
value, the one with the greatest order key (`currentValue_view`).
-/

set_option autoImplicit false

namespace ResidualHarness.Dsm

open Python Core

variable [FloatModel]

/-! ## Ownership -/

/-- The domain of terminal task states. -/
def terminalDomain : Json := .str (lit "task.terminal")

/-- `DOMAINS`: the authoritative writer of each domain. -/
def domains : List (Json × Json) :=
  [(.str (lit "task.lease"), .str (lit "scheduler")),
    (.str (lit "receipt.publication"), .str (lit "verifier")),
    (.str (lit "integration.intent"), .str (lit "integrator")),
    (terminalDomain, .str (lit "orchestrator"))]

/-- `TERMINAL_STATES`. -/
def terminalStates : List Json :=
  [.str (lit "succeeded"), .str (lit "failed"), .str (lit "rejected"), .str (lit "unknown")]

/-- `TERMINAL_TRANSITIONS`. -/
def terminalTransitions : List (Json × List Json) :=
  [(.null, .str (lit "running") :: terminalStates),
    (.str (lit "running"), terminalStates),
    (.str (lit "succeeded"), []), (.str (lit "failed"), []),
    (.str (lit "rejected"), []), (.str (lit "unknown"), [])]

/-- `OwnershipRegistry`, with its mapping as an association list. -/
structure OwnershipRegistry where
  mapping : List (Json × Json)

/-- `OwnershipRegistry(mapping)`: an empty mapping is replaced by the default. -/
def OwnershipRegistry.init (mapping : List (Json × Json)) : OwnershipRegistry :=
  ⟨if mapping = [] then domains else mapping⟩

/-- Dictionary lookup by a key that must be hashable. -/
def lookupKey {α : Type} (d : List (Json × α)) (key : Json) : Except PyExn (Option α) :=
  if key.hashable then .ok ((d.find? fun kv => kv.1.Same key).map Prod.snd)
  else .error .typeError

/-- `OwnershipRegistry.owner_of(domain)`. -/
def OwnershipRegistry.ownerOf (o : OwnershipRegistry) (domain : Json) : Except PyExn Json := do
  match ← lookupKey o.mapping domain with
  | some owner => return owner
  | none => throw (contractError "unknown state domain")

/-- `OwnershipRegistry.check_writer(domain, writer)`. -/
def OwnershipRegistry.checkWriter (o : OwnershipRegistry) (domain writer : Json) :
    Except PyExn Json := do
  let owner ← o.ownerOf domain
  if writer.Same owner then return owner
  else throw (contractError "writer is not authoritative for domain")

/-! ## Leases -/

/-- `FencingError`. -/
def fencingError (msg : String) : PyExn := .userError "FencingError" msg

/-- The lease of one resource. -/
structure Lease where
  holder : Json
  expiry : Int
  token : Int

/-- `LeaseManager`. -/
structure LeaseManager where
  leases : List (Json × Lease)
  tokens : List (Json × Int)

/-- `a < b` of objects that may not be comparable. -/
def lessE (v w : Json) : Except PyExn Bool :=
  match v.less w with
  | some b => .ok b
  | none => .error .typeError

/-- `LeaseManager.check(resource, holder, fencing_token, now_ms)`. -/
def LeaseManager.check (m : LeaseManager) (resource holder fencingToken nowMs : Json) :
    Except PyExn Unit := do
  let current := (← lookupKey m.tokens resource).getD 0
  if ← lessE fencingToken (.int current) then
    throw (fencingError "stale fencing token")
  match ← lookupKey m.leases resource with
  | none => throw (fencingError "no active lease")
  | some lease =>
      if ¬ lease.holder.Same holder ∨ ¬ Json.Same (.int lease.token) fencingToken then
        throw (fencingError "fencing token does not match active lease")
      if ¬ (← lessE nowMs (.int lease.expiry)) then throw (fencingError "lease expired")
      return ()

/-! ## The store -/

/-- `DistributedStateStore`. -/
structure Store where
  journal : Journal
  ownership : OwnershipRegistry
  leases : LeaseManager

/-- `DistributedStateStore(root, ownership, leases)` on a new directory. -/
def Store.init (ownership : OwnershipRegistry) (leases : LeaseManager) : Store :=
  ⟨Journal.empty, ownership, leases⟩

/-- `DistributedStateStore.recover(root, ownership, leases)` on the journal file. -/
def Store.recover (disk : Str) (ownership : OwnershipRegistry) (leases : LeaseManager) :
    Except PyExn Store := do
  return ⟨← Journal.open disk, ownership, leases⟩

/-- `r["payload"]["event"]`. -/
def eventOf (record : Fields) : Except PyExn Json := do
  (← record.get (lit "payload")).item (lit "event")

/-- `_transition_records()`. -/
def Store.transitionRecords (s : Store) : Except PyExn (List Fields) := do
  let records ← s.journal.replay (-1)
  filterE (fun r => return (← r.get (lit "kind")).Same (.str (lit "transition"))) records

/-- The test of `_find`. -/
def hasId (eventId : Json) (record : Fields) : Except PyExn Bool := do
  return (← (← eventOf record).item (lit "event_id")).Same eventId

/-- `_find(event_id)`. -/
def Store.find (s : Store) (eventId : Json) : Except PyExn (Option Fields) := do
  findE (hasId eventId) (← s.transitionRecords)

/-- `event.get("fencing_token") or 0`. -/
def tokenOrZero (event : Fields) : Json :=
  match event.get? (lit "fencing_token") with
  | some token => if token.truthy then token else .int 0
  | none => .int 0

/-- `_order_key(event)`; tuples compare as lists do. -/
def orderKey (event : Json) : Except PyExn Json :=
  match event with
  | .obj d => do
      let writer ← event.item (lit "writer")
      let eventId ← event.item (lit "event_id")
      return .arr [tokenOrZero d, writer, eventId]
  | _ => .error .attributeError

/-- `max(events, key=_order_key)`: the first of the greatest. -/
def maxEvent : Json → List Json → Except PyExn Json
  | best, [] => .ok best
  | best, event :: events => do
      if ← lessE (← orderKey best) (← orderKey event) then maxEvent event events
      else maxEvent best events

/-- The test of `accepted_events`. -/
def isAbout (domain entity : Json) (event : Json) : Except PyExn Bool := do
  if (← event.item (lit "domain")).Same domain then
    return (← event.item (lit "entity")).Same entity
  else return false

/-- The events of the transition records, in journal order. -/
def Store.events (s : Store) : Except PyExn (List Json) := do
  mapE eventOf (← s.transitionRecords)

/-- `accepted_events(domain, entity)`. -/
def Store.acceptedEvents (s : Store) (domain entity : Json) : Except PyExn (List Json) := do
  filterE (isAbout domain entity) (← s.events)

/-- `current_value(domain, entity, default)`. -/
def Store.currentValue (s : Store) (domain entity default : Json) : Except PyExn Json := do
  match ← s.acceptedEvents domain entity with
  | [] => return default
  | event :: events => (← maxEvent event events).item (lit "value")

/-- The fields every event must have. -/
def requiredFields : List String := ["event_id", "domain", "entity", "value", "writer"]

/-- The first required field an event lacks. -/
def missingField (event : Fields) : Option String :=
  requiredFields.find? fun field => (event.get? (lit field)).isNone

/-- The check of a terminal transition in `submit`. -/
def Store.checkTerminal (s : Store) (event : Json) : Except PyExn Unit := do
  let current ← s.currentValue terminalDomain (← event.item (lit "entity")) .null
  let allowed := (← lookupKey terminalTransitions current).getD []
  let value ← event.item (lit "value")
  if ¬ value.hashable then throw .typeError
  if ∀ v ∈ allowed, ¬ v.Same value then throw (contractError "illegal terminal transition")

/-- The admission checks of `submit`: the record of a duplicate, or none if it is admitted. -/
def Store.admission (s : Store) (event : Fields) : Except PyExn (Option Fields) := do
  match missingField event with
  | some field => throw (contractError s!"event missing required field '{field}'")
  | none =>
      match ← s.find (← event.get (lit "event_id")) with
      | some existing => return some existing
      | none =>
          let domain ← event.get (lit "domain")
          let _ ← s.ownership.checkWriter domain (← event.get (lit "writer"))
          if domain.Same (.str (lit "task.lease")) then
            s.leases.check (← event.get (lit "entity")) (← event.get (lit "writer_holder"))
              (← event.get (lit "fencing_token")) (← event.get (lit "now_ms"))
          if domain.Same terminalDomain then s.checkTerminal (.obj event)
          return none

/-- The two dispositions of an acknowledged submission. -/
inductive Disposition where
  | accepted
  | duplicate
deriving DecidableEq, Repr

/-- The acknowledgement `submit` returns. -/
structure Ack where
  seq : Json
  hash : Json
  disposition : Disposition

/-- `CrashError`. -/
def crashError : PyExn :=
  .runtimeError "CrashError" "process died between journal write and acknowledgement"

/-- The acknowledgement of a record. -/
def ackOf (record : Fields) (disposition : Disposition) : Except PyExn Ack := do
  return ⟨← record.get (lit "seq"), ← record.get (lit "hash"), disposition⟩

/-- `submit(event, crash_after, time_ns)`, with `crash` for `crash_after == "journal_write"`: what
the caller sees and the store left behind. -/
def Store.submit (s : Store) (event : Fields) (crash : Bool) (timeNs : Int) :
    Except PyExn Ack × Store :=
  match s.admission event with
  | .error x => (.error x, s)
  | .ok (some existing) => (ackOf existing .duplicate, s)
  | .ok none =>
      match s.journal.append (lit "transition") (.obj [(lit "event", .obj event)]) timeNs with
      | .error x => (.error x, s)
      | .ok (journal, record) =>
          (if crash then .error crashError else ackOf record .accepted,
            { s with journal := journal })

/-! ## Journaled events -/

/-- An event that passed the field check, with the time of its record. -/
structure Event where
  fields : Fields
  timeNs : Int
  fields_wf : (Json.obj fields).wf = true
  complete : missingField fields = none

namespace Event

/-- A field of an event. -/
def field (x : Event) (name : String) : Json := (x.fields.get? (lit name)).getD .null

/-- The order key of an event. -/
def key (x : Event) : Json := .arr [tokenOrZero x.fields, x.field "writer", x.field "event_id"]

/-- The journal entry of an event. -/
def entry (x : Event) : Entry where
  kind := lit "transition"
  payload := .obj [(lit "event", .obj x.fields)]
  timeNs := x.timeNs
  payload_wf := by
    simp only [Json.wf, Json.wfFields, List.map_cons, List.map_nil, List.nodup_cons,
      List.not_mem_nil, not_false_eq_true, List.nodup_nil, and_self, decide_true, Bool.true_and,
      Bool.and_true]
    exact x.fields_wf

/-- The event is about an entity in the domain of terminal states. -/
def About (x : Event) (entity : Json) : Prop :=
  (x.field "domain").Same terminalDomain ∧ (x.field "entity").Same entity

instance (x : Event) (entity : Json) : Decidable (x.About entity) := instDecidableAnd

/-- The event gives its task a terminal state. -/
def Terminal (x : Event) : Prop :=
  (x.field "domain").Same terminalDomain ∧ x.field "value" ∈ terminalStates

end Event

/-- The store whose journal holds these events. -/
def StoreOf (s : Store) (xs : List Event) : Prop := Represents s.journal (xs.map Event.entry)

theorem Event.get_required (x : Event) {name : String} (hf : name ∈ requiredFields) :
    x.fields.get? (lit name) = some (x.field name) := by
  have hnone := x.complete
  rw [missingField, List.find?_eq_none] at hnone
  have hsome := hnone name hf
  rw [Event.field]
  cases hg : x.fields.get? (lit name) with
  | some v => rfl
  | none =>
      rw [hg] at hsome
      exact absurd rfl hsome

theorem Event.nodup (x : Event) : (x.fields.map Prod.fst).Nodup := by
  have hwf := x.fields_wf
  rw [Json.wf, Bool.and_eq_true, decide_eq_true_eq] at hwf
  exact hwf.1

/-! ## Views of the journal -/

/-- The JSON object stands for the event. -/
def Stands (w : Json) (x : Event) : Prop := w.Alike (.obj x.fields)

theorem Stands.item {w : Json} {x : Event} (h : Stands w x) (name : String)
    (hf : name ∈ requiredFields) :
    ∃ v, w.item (lit name) = .ok v ∧ v.Alike (x.field name) := by
  obtain ⟨d, rfl, hn⟩ := Json.alike_obj h
  obtain ⟨v, hv, ha⟩ := Fields.get?_alike_some hn x.nodup (x.get_required hf)
  exact ⟨v, Fields.get_of_get? hv, ha⟩

theorem truthy_alike {v w : Json} (h : v.Alike w) : v.truthy = w.truthy := by
  have hnorm : ∀ u : Json, u.norm.truthy = u.truthy := by
    intro u
    cases u with
    | arr xs => cases xs <;> rfl
    | obj d =>
        rw [Json.norm_obj, Json.truthy, Json.truthy, List.isEmpty_map]
        cases d with
        | nil => rfl
        | cons kv d =>
            have hne : sortFields (kv :: d) ≠ [] := by
              intro he
              have hm : kv ∈ sortFields (kv :: d) := mem_sortFields.2 List.mem_cons_self
              rw [he] at hm
              cases hm
            cases hs : sortFields (kv :: d) with
            | nil => exact absurd hs hne
            | cons _ _ => rfl
    | _ => rfl
  rw [← hnorm v, ← hnorm w, h]

theorem tokenOrZero_alike {d : Fields} {x : Event} (h : d.norm = x.fields.norm) :
    (tokenOrZero d).Alike (tokenOrZero x.fields) := by
  have hg := Fields.get?_alike h x.nodup (lit "fencing_token")
  rw [tokenOrZero, tokenOrZero]
  cases hd : d.get? (lit "fencing_token") with
  | none =>
      rw [hd] at hg
      rw [Option.map_eq_none_iff.1 hg.symm]
      rfl
  | some v =>
      rw [hd, Option.map_some] at hg
      obtain ⟨w, hw, hn⟩ := Option.map_eq_some_iff.1 hg.symm
      have ha : v.Alike w := hn.symm
      rw [hw]
      simp only [truthy_alike ha]
      split
      · exact ha
      · rfl

theorem Stands.orderKey {w : Json} {x : Event} (h : Stands w x) :
    ∃ k, orderKey w = .ok k ∧ k.Alike x.key := by
  obtain ⟨writer, hw, haw⟩ := h.item "writer" (by decide)
  obtain ⟨eid, he, hae⟩ := h.item "event_id" (by decide)
  obtain ⟨d, rfl, hn⟩ := Json.alike_obj h
  refine ⟨.arr [tokenOrZero d, writer, eid], ?_, ?_⟩
  · rw [Dsm.orderKey, hw, he]
    rfl
  · rw [Json.Alike, Event.key, Json.norm_arr, Json.norm_arr]
    simp only [List.map_cons, List.map_nil]
    rw [show (tokenOrZero d).norm = _ from tokenOrZero_alike hn, haw, hae]

/-- The greatest event by order key, or nothing when two keys cannot be compared. -/
def pick : Event → List Event → Option Event
  | best, [] => some best
  | best, x :: xs =>
      match best.key.less x.key with
      | some true => pick x xs
      | some false => pick best xs
      | none => none

/-- The current winner among the events about a domain and entity. -/
def winner (xs : List Event) (domain entity : Json) : Option (Option Event) :=
  match xs.filter fun x => (x.field "domain").Same domain ∧ (x.field "entity").Same entity with
  | [] => some none
  | x :: rest => (pick x rest).map some

theorem lessE_alike {v w v' w' : Json} (hv : v.Alike v') (hw : w.Alike w') :
    lessE v w = lessE v' w' := by
  rw [lessE, lessE, ← Json.less_norm v w, hv, hw, Json.less_norm]

theorem maxEvent_view {w : Json} {x : Event} (h : Stands w x) {ws : List Json} {xs : List Event}
    (hs : List.Forall₂ Stands ws xs) :
    (∃ m w', pick x xs = some m ∧ maxEvent w ws = .ok w' ∧ Stands w' m) ∨
      pick x xs = none ∧ maxEvent w ws = .error .typeError := by
  induction hs generalizing w x with
  | nil => exact Or.inl ⟨x, w, rfl, rfl, h⟩
  | @cons v y ws xs hvy _ ih =>
      obtain ⟨k, hk, hka⟩ := h.orderKey
      obtain ⟨l, hl, hla⟩ := hvy.orderKey
      rw [maxEvent, pick, hk, hl]
      simp only [bind, Except.bind]
      rw [lessE_alike hka hla, lessE]
      cases x.key.less y.key with
      | none => exact Or.inr ⟨rfl, rfl⟩
      | some b =>
          cases b with
          | true => exact ih hvy
          | false => exact ih h

variable {s : Store} {xs : List Event}

theorem Records.eventOf {r : Fields} {x : Event} (h : Records r x.entry) :
    ∃ w, eventOf r = .ok w ∧ Stands w x := by
  obtain ⟨p, hp, ha⟩ := h.payload
  obtain ⟨d, rfl, hn⟩ := Json.alike_obj (show p.Alike (.obj [(lit "event", .obj x.fields)]) from ha)
  obtain ⟨w, hw, haw⟩ := Fields.get?_alike_some hn (by simp)
    (Fields.get?_of_mem (by simp) (List.mem_singleton.2 rfl))
  refine ⟨w, ?_, haw⟩
  rw [Dsm.eventOf, hp]
  exact Fields.get_of_get? hw

/-- A record stands for an event. -/
def Logs (r : Fields) (x : Event) : Prop := Records r x.entry

theorem StoreOf.logs (h : StoreOf s xs) : List.Forall₂ Logs s.journal.records xs := by
  have hall := h.forall₂
  rw [List.forall₂_map_right_iff] at hall
  exact hall

theorem transitionRecords_view (h : StoreOf s xs) :
    ∃ rs, s.transitionRecords = .ok rs ∧ List.Forall₂ Logs rs xs := by
  obtain ⟨rs, hrs, hall⟩ := filterE_forall₂ (q := fun _ => true) h.logs
    (p := fun r => return (← r.get (lit "kind")).Same (.str (lit "transition"))) (by
      intro r x hr
      have hk : r.get (lit "kind") = .ok (.str (lit "transition")) := Records.kind hr
      simp only [hk, bind, Except.bind, pure, Except.pure, Json.Same.refl, decide_true])
  rw [List.filter_true] at hall
  refine ⟨rs, ?_, hall⟩
  rw [Store.transitionRecords, Represents.replay h]
  exact hrs

theorem find_view (h : StoreOf s xs) (eventId : Json) :
    (∃ r x, s.find eventId = .ok (some r) ∧ x ∈ xs ∧ (x.field "event_id").Same eventId) ∨
      s.find eventId = .ok none ∧ ∀ x ∈ xs, ¬ (x.field "event_id").Same eventId := by
  obtain ⟨rs, hrs, hall⟩ := transitionRecords_view h
  have hfind : s.find eventId = findE (hasId eventId) rs := by
    rw [Store.find, hrs]
    rfl
  rw [hfind]
  have hp : ∀ r x, Logs r x → hasId eventId r =
      .ok (decide ((x.field "event_id").Same eventId)) := by
    intro r x hr
    obtain ⟨w, hw, hst⟩ := Records.eventOf hr
    obtain ⟨v, hv, ha⟩ := hst.item "event_id" (by decide)
    have hiff : v.Same eventId ↔ (x.field "event_id").Same eventId :=
      ⟨fun hs => ha.same.symm.trans hs, fun hs => ha.same.trans hs⟩
    simp only [hasId, hw, bind, Except.bind, hv, pure, Except.pure, hiff]
  rcases findE_forall₂ hall hp with ⟨r, x, hf, -, hx, hq⟩ | ⟨hf, hnone⟩
  · exact Or.inl ⟨r, x, hf, hx, of_decide_eq_true hq⟩
  · exact Or.inr ⟨hf, fun x hx => of_decide_eq_false (hnone x hx)⟩

theorem events_view (h : StoreOf s xs) :
    ∃ ws, s.events = .ok ws ∧ List.Forall₂ Stands ws xs := by
  obtain ⟨rs, hrs, hall⟩ := transitionRecords_view h
  obtain ⟨ws, hws, hst⟩ := mapE_forall₂ (f := eventOf) hall fun _ _ hr => Records.eventOf hr
  refine ⟨ws, ?_, hst⟩
  rw [Store.events, hrs]
  exact hws

theorem Stands.isAbout {w : Json} {x : Event} (h : Stands w x) (domain entity : Json) :
    isAbout domain entity w =
      .ok (decide ((x.field "domain").Same domain ∧ (x.field "entity").Same entity)) := by
  obtain ⟨dom, hd, had⟩ := h.item "domain" (by decide)
  obtain ⟨ent, he, hae⟩ := h.item "entity" (by decide)
  have hdom : dom.Same domain ↔ (x.field "domain").Same domain :=
    ⟨fun hs => had.same.symm.trans hs, fun hs => had.same.trans hs⟩
  have hent : ent.Same entity ↔ (x.field "entity").Same entity :=
    ⟨fun hs => hae.same.symm.trans hs, fun hs => hae.same.trans hs⟩
  simp only [Dsm.isAbout, hd, bind, Except.bind, he, pure, Except.pure, hdom, hent]
  by_cases hx : (x.field "domain").Same domain
  · simp [hx]
  · simp [hx]

theorem Stands.isAbout_iff {w : Json} {x : Event} (h : Stands w x) (domain entity : Json) :
    Dsm.isAbout domain entity w = .ok true ↔
      (x.field "domain").Same domain ∧ (x.field "entity").Same entity := by
  rw [h.isAbout, Except.ok.injEq, decide_eq_true_eq]

theorem acceptedEvents_view (h : StoreOf s xs) (domain entity : Json) :
    ∃ ws, s.acceptedEvents domain entity = .ok ws ∧ List.Forall₂ Stands ws
      (xs.filter fun x => (x.field "domain").Same domain ∧ (x.field "entity").Same entity) := by
  obtain ⟨ws, hws, hst⟩ := events_view h
  obtain ⟨vs, hvs, hall⟩ := filterE_forall₂ hst fun w x hw => hw.isAbout domain entity
  refine ⟨vs, ?_, hall⟩
  rw [Store.acceptedEvents, hws]
  exact hvs

theorem currentValue_view (h : StoreOf s xs) (domain entity default : Json) :
    (winner xs domain entity = some none ∧ s.currentValue domain entity default = .ok default) ∨
      (∃ x v, winner xs domain entity = some (some x) ∧
        s.currentValue domain entity default = .ok v ∧ v.Alike (x.field "value")) ∨
      winner xs domain entity = none ∧
        s.currentValue domain entity default = .error .typeError := by
  obtain ⟨ws, hws, hst⟩ := acceptedEvents_view h domain entity
  rw [winner, Store.currentValue, hws]
  generalize xs.filter (fun x => (x.field "domain").Same domain ∧ (x.field "entity").Same entity) = ys
    at hst
  cases hst with
  | nil => exact Or.inl ⟨rfl, rfl⟩
  | @cons w x ws ys hwx hst =>
      right
      rcases maxEvent_view hwx hst with ⟨m, w', hp, hm, hst'⟩ | ⟨hp, hm⟩
      · obtain ⟨v, hv, ha⟩ := hst'.item "value" (by decide)
        refine Or.inl ⟨m, v, ?_, ?_, ha⟩
        · simp only [hp, Option.map_some]
        · simp only [bind, Except.bind, hm]
          exact hv
      · refine Or.inr ⟨?_, ?_⟩
        · simp only [hp, Option.map_none]
        · simp only [bind, Except.bind, hm]

end ResidualHarness.Dsm
