import ResidualHarness.Core.HashChain
import ResidualHarness.Python.Loops
import ResidualHarness.Python.WholeFloats

/-!
# The compliance log

`residual/compliance/log.py`: observation events, each with a hash over its body and the hash of the
event before it. Retention takes events out of the log and erasure rewrites the actors of some and
seals all of them again. Appending keeps a linked log linked (`append_linked`); erasure keeps every
event before the first that it rewrites (`reseal_prefix`).
-/

set_option autoImplicit false

namespace ResidualHarness.Compliance

open Python Core

/-! ## Tags, kinds and categories -/

/-- `[A-Z]`. -/
def isUpper (c : CodePoint) : Bool := decide (0x41 ≤ c.val ∧ c.val ≤ 0x5A)

/-- `[A-Z0-9-]`. -/
def isFrameworkChar (c : CodePoint) : Bool := isUpper c || isDigit c || decide (c = 0x2D)

/-- `[A-Za-z0-9.]`. -/
def isControlChar (c : CodePoint) : Bool :=
  isUpper c || isDigit c || decide (0x61 ≤ c.val ∧ c.val ≤ 0x7A) || decide (c = 0x2E)

/-- `_TAG.fullmatch(tag)`. The control has no hyphen, so it begins after the last one. -/
def isTag (tag : Str) : Bool :=
  let control := (tag.reverse.takeWhile fun c => decide (c ≠ 0x2D)).reverse
  match (tag.take (tag.length - control.length)).dropLast with
  | [] => false
  | c :: framework =>
      isUpper c && framework.all isFrameworkChar && decide (control ≠ []) &&
        control.all isControlChar

/-- `CATEGORIES`. -/
def categories : List Str := [lit "sox", lit "operational", lit "debug"]

/-- `KINDS`. -/
def kinds : List Str :=
  [lit "receipt", lit "observation", lit "hitl_decision", lit "hitl_escalation",
    lit "contract_violation", lit "sensitive_access", lit "module_install", lit "task_execution",
    lit "retention", lit "legal_hold", lit "residency", lit "erasure", lit "report", lit "siem",
    lit "transfer"]

/-- `validate_tag(tag)`. -/
def validateTag (tag : Str) : Except PyExn Unit :=
  require (isTag tag = true) (contractError "invalid compliance tag")

/-! ## Clocks -/

section

variable [FloatModel]

/-- What the code does with floats: differences and comparisons. A comparison with a NaN is false,
and a difference is one only if a term is, or both are infinite. -/
class Clocks where
  sub : FloatModel.F → FloatModel.F → FloatModel.F
  isNan : FloatModel.F → Bool
  lt : FloatModel.F → FloatModel.F → Bool
  ltInt : FloatModel.F → Int → Bool
  leInt : Int → FloatModel.F → Bool
  isNan_of_isFinite : ∀ f, FloatModel.isFinite f = true → isNan f = false
  isNan_sub : ∀ f g, isNan f = false → FloatModel.isFinite g = true → isNan (sub f g) = false
  leInt_of_not_ltInt : ∀ f n, isNan f = false → ltInt f n = false → leInt n f = true

variable [Clocks]

/-! ## Events -/

/-- `ObservationEvent`. -/
structure ObservationEvent where
  id : Nat
  kind : Str
  timestamp : FloatModel.F
  actor : Str
  taskId : Str
  category : Str
  region : Str
  payload : Fields
  tags : List Str
  chainHash : Str

/-- `__post_init__`. -/
def ObservationEvent.postInit (e : ObservationEvent) : Except PyExn Unit := do
  require (1 ≤ e.id) (contractError "event id must be a positive integer")
  require (e.kind ∈ kinds) (contractError "unknown observation kind")
  require (e.category ∈ categories) (contractError "unknown retention category")
  require (Clocks.ltInt e.timestamp 0 = false)
    (contractError "event timestamp must be a nonnegative number")
  require (∀ value ∈ [e.actor, e.taskId, e.region], isBlank value = false)
    (contractError "actor, task_id and region are required")
  let _ ← mapE validateTag e.tags
  let _ ← canonical (.obj e.payload)
  return ()

/-- The event, once its constructor has checked it. -/
def ObservationEvent.checked (e : ObservationEvent) : Except PyExn ObservationEvent := do
  e.postInit
  return e

/-- `body()`. -/
def ObservationEvent.body (e : ObservationEvent) : Json :=
  .obj [(lit "id", .int e.id), (lit "kind", .str e.kind), (lit "timestamp", .float e.timestamp),
    (lit "actor", .str e.actor), (lit "task_id", .str e.taskId), (lit "category", .str e.category),
    (lit "region", .str e.region), (lit "payload", .obj e.payload),
    (lit "tags", strings (e.tags.insertionSort (· ≤ ·)))]

/-- `sha256((prev + "\n" + canonical(event.body())).encode("utf-8")).hexdigest()`. -/
def chainOf (prev : Str) (e : ObservationEvent) : Except PyExn Str := do
  let text ← canonical e.body
  let data ← utf8 (prev ++ lf :: text)
  return sha256 data

/-! ## The log -/

/-- `ObservationLog`. The trace keeps the ids of the events that were appended. -/
structure ObservationLog where
  events : List ObservationEvent
  counter : Nat
  archived : List ObservationEvent
  appended : List Nat

/-- `ObservationLog()`. -/
def ObservationLog.empty : ObservationLog := ⟨[], 1, [], []⟩

/-- The chain hash of the last event, or the one before the first. -/
def lastHash : Str → List ObservationEvent → Str
  | prev, [] => prev
  | _, e :: es => lastHash e.chainHash es

/-- The hash that the next event is linked to. -/
def ObservationLog.head (log : ObservationLog) : Str := lastHash genesis log.events

/-- `_seal(event)`. -/
def ObservationLog.seal (log : ObservationLog) (event : ObservationEvent) :
    Except PyExn ObservationEvent := do
  let chain ← chainOf log.head event
  ObservationEvent.checked { event with chainHash := chain }

/-- The arguments of `append`. -/
structure Observation where
  kind : Str
  timestamp : FloatModel.F
  actor : Str
  taskId : Str
  category : Str
  region : Str
  payload : Fields
  tags : List Str

/-- The event of an observation, before it is sealed. -/
def Observation.event (o : Observation) (id : Nat) : ObservationEvent where
  id := id
  kind := o.kind
  timestamp := o.timestamp
  actor := o.actor
  taskId := o.taskId
  category := o.category
  region := o.region
  payload := o.payload
  tags := o.tags
  chainHash := []

/-- The event that `append` seals. -/
def ObservationLog.sealed (log : ObservationLog) (o : Observation) :
    Except PyExn ObservationEvent := do
  let event ← (o.event log.counter).checked
  log.seal event

/-- `append(…)`: the number of the event is spent also when the event is refused. -/
def ObservationLog.append (log : ObservationLog) (o : Observation) :
    Except PyExn ObservationEvent × ObservationLog :=
  match log.sealed o with
  | .error e => (.error e, { log with counter := log.counter + 1 })
  | .ok event => (.ok event,
      { log with
        events := log.events ++ [event]
        counter := log.counter + 1
        appended := log.appended ++ [log.counter] })

/-- `remove(ids)`. -/
def ObservationLog.remove (log : ObservationLog) (ids : List Nat) : ObservationLog :=
  { log with events := log.events.filter fun e => decide (e.id ∉ ids) }

/-- `mark_archived(events)`. -/
def ObservationLog.markArchived (log : ObservationLog) (events : List ObservationEvent) :
    ObservationLog :=
  { log with archived := log.archived ++ events }

/-- The event under another actor. -/
def ObservationEvent.renamed (e : ObservationEvent) (replacement : Str) : ObservationEvent :=
  { e with
    actor := replacement
    payload := Dict.set e.payload (lit "pseudonymized") (.bool true) }

/-- The first statement of the loop of `pseudonymize`. -/
def rewrite (ids : List Nat) (replacement : Str) (e : ObservationEvent) :
    Except PyExn ObservationEvent :=
  if e.id ∈ ids ∧ e.actor ≠ replacement then (e.renamed replacement).checked else .ok e

/-- The loop of `pseudonymize`. -/
def reseal (ids : List Nat) (replacement : Str) :
    Str → List ObservationEvent → Except PyExn (List ObservationEvent)
  | _, [] => .ok []
  | prev, e :: es => do
      let e' ← rewrite ids replacement e
      let chain ← chainOf prev e'
      let sealedEvent ← ObservationEvent.checked { e' with chainHash := chain }
      let rest ← reseal ids replacement chain es
      return sealedEvent :: rest

/-- `pseudonymize(event_ids, replacement)`. -/
def ObservationLog.pseudonymize (log : ObservationLog) (ids : List Nat) (replacement : Str) :
    Except PyExn (Nat × ObservationLog) := do
  let events ← reseal ids replacement genesis log.events
  let count := (log.events.filter fun e => decide (e.id ∈ ids ∧ e.actor ≠ replacement)).length
  return (count, { log with events := events })

/-- The loop of `verify_chain`. -/
def verifyFrom : Str → List ObservationEvent → Except PyExn Bool
  | _, [] => .ok true
  | prev, e :: es => do
      let expected ← chainOf prev e
      if e.chainHash ≠ expected then return false
      verifyFrom e.chainHash es

/-- `verify_chain()`. -/
def ObservationLog.verifyChain (log : ObservationLog) : Except PyExn Bool :=
  verifyFrom genesis log.events

/-! ## Linked events -/

/-- The event that `rewrite` makes, if it makes one. -/
def rewritten (ids : List Nat) (replacement : Str) (e : ObservationEvent) : ObservationEvent :=
  if e.id ∈ ids ∧ e.actor ≠ replacement then e.renamed replacement else e

/-- Every event is valid and has the hash of its body after the hash before it. -/
def Linked : Str → List ObservationEvent → Prop
  | _, [] => True
  | prev, e :: es => e.postInit = .ok () ∧ chainOf prev e = .ok e.chainHash ∧ Linked e.chainHash es

@[simp]
theorem linked_nil (prev : Str) : Linked prev [] := trivial

@[simp]
theorem linked_cons {prev : Str} {e : ObservationEvent} {es : List ObservationEvent} :
    Linked prev (e :: es) ↔
      e.postInit = .ok () ∧ chainOf prev e = .ok e.chainHash ∧ Linked e.chainHash es := Iff.rfl

theorem verifyFrom_of_linked {es : List ObservationEvent} :
    ∀ {prev : Str}, Linked prev es → verifyFrom prev es = .ok true := by
  induction es with
  | nil => exact fun _ => rfl
  | cons e es ih =>
      intro prev h
      obtain ⟨-, hchain, hrest⟩ := h
      rw [verifyFrom, hchain]
      simpa [bind, Except.bind] using ih hrest

theorem linked_append {es fs : List ObservationEvent} :
    ∀ {prev : Str}, Linked prev (es ++ fs) ↔ Linked prev es ∧ Linked (lastHash prev es) fs := by
  induction es with
  | nil => simp [lastHash]
  | cons e es ih => simp [lastHash, ih, and_assoc]

theorem checked_eq_ok {e e' : ObservationEvent} :
    e.checked = .ok e' ↔ e.postInit = .ok () ∧ e' = e := by
  rw [ObservationEvent.checked, bind_eq_ok]
  constructor
  · rintro ⟨_, h, h'⟩
    cases h'
    exact ⟨h, rfl⟩
  · rintro ⟨h, rfl⟩
    exact ⟨(), h, rfl⟩

omit [Clocks] in
theorem chainOf_eq_ok {prev hash : Str} {e : ObservationEvent} (h : chainOf prev e = .ok hash) :
    ∃ text, canonical e.body = .ok text ∧ encodable text = true ∧ encodable hash = true := by
  obtain ⟨text, ht, h⟩ := bind_eq_ok.1 h
  obtain ⟨data, hd, h⟩ := bind_eq_ok.1 h
  have henc : encodable (prev ++ lf :: text) = true := encodable_of_utf8 hd
  obtain ⟨-, htext⟩ := (Bool.and_eq_true _ _).mp (encodable_append prev (lf :: text) ▸ henc)
  rw [encodable, List.all_cons, Bool.and_eq_true] at htext
  obtain rfl : sha256 data = hash := Except.ok.inj h
  exact ⟨text, ht, htext.2, sha256_encodable _⟩

theorem rewrite_eq_ok {ids : List Nat} {replacement : Str} {e e' : ObservationEvent}
    (h : rewrite ids replacement e = .ok e') : e' = rewritten ids replacement e := by
  by_cases hr : e.id ∈ ids ∧ e.actor ≠ replacement
  · rw [rewrite, if_pos hr] at h
    rw [rewritten, if_pos hr]
    exact (checked_eq_ok.1 h).2
  · rw [rewrite, if_neg hr] at h
    rw [rewritten, if_neg hr]
    cases h
    rfl

@[simp]
theorem postInit_chainHash (e : ObservationEvent) (h : Str) :
    ObservationEvent.postInit { e with chainHash := h } = e.postInit := rfl

omit [Clocks] in
@[simp]
theorem chainOf_chainHash (prev : Str) (e : ObservationEvent) (h : Str) :
    chainOf prev { e with chainHash := h } = chainOf prev e := rfl

theorem append_ok {log log' : ObservationLog} {o : Observation} {event : ObservationEvent}
    (h : log.append o = (.ok event, log')) :
    (∃ hash, event = { o.event log.counter with chainHash := hash }) ∧
      event.postInit = .ok () ∧ chainOf log.head event = .ok event.chainHash ∧
      log' = { log with
        events := log.events ++ [event]
        counter := log.counter + 1
        appended := log.appended ++ [log.counter] } := by
  rw [ObservationLog.append] at h
  split at h
  · cases h
  · rename_i sealedEvent hs
    cases h
    rw [ObservationLog.sealed, bind_eq_ok] at hs
    obtain ⟨e, he, hseal⟩ := hs
    obtain ⟨-, rfl⟩ := checked_eq_ok.1 he
    rw [ObservationLog.seal, bind_eq_ok] at hseal
    obtain ⟨chain, hc, hs⟩ := hseal
    obtain ⟨hp, rfl⟩ := checked_eq_ok.1 hs
    exact ⟨⟨chain, rfl⟩, hp, by simpa using hc, rfl⟩

theorem append_error {log log' : ObservationLog} {o : Observation} {x : PyExn}
    (h : log.append o = (.error x, log')) : log' = { log with counter := log.counter + 1 } := by
  rw [ObservationLog.append] at h
  split at h <;> cases h
  rfl

theorem append_linked {log log' : ObservationLog} {o : Observation} {r : Except PyExn ObservationEvent}
    (h : log.append o = (r, log')) (hl : Linked genesis log.events) : Linked genesis log'.events := by
  cases r with
  | error x =>
      rw [append_error h]
      exact hl
  | ok event =>
      obtain ⟨-, hp, hc, rfl⟩ := append_ok h
      rw [linked_append, linked_cons]
      exact ⟨hl, hp, hc, trivial⟩

/-! ## Erasure -/

theorem reseal_linked {ids : List Nat} {replacement : Str} {es : List ObservationEvent} :
    ∀ {prev : Str} {fs : List ObservationEvent},
      reseal ids replacement prev es = .ok fs → Linked prev fs := by
  induction es with
  | nil =>
      intro prev fs h
      cases h
      trivial
  | cons e es ih =>
      intro prev fs h
      rw [reseal, bind_eq_ok] at h
      obtain ⟨e', he, h⟩ := h
      obtain ⟨chain, hc, h⟩ := bind_eq_ok.1 h
      obtain ⟨e₂, he₂, h⟩ := bind_eq_ok.1 h
      obtain ⟨rest, hrest, h⟩ := bind_eq_ok.1 h
      cases h
      obtain ⟨hp, rfl⟩ := checked_eq_ok.1 he₂
      exact ⟨hp, by simpa using hc, ih hrest⟩

/-- What resealing does to each event: it may rewrite the actor and the payload. -/
theorem reseal_forall₂ {ids : List Nat} {replacement : Str} {es : List ObservationEvent} :
    ∀ {prev : Str} {fs : List ObservationEvent}, reseal ids replacement prev es = .ok fs →
      List.Forall₂ (fun e f => ∃ hash, f = { rewritten ids replacement e with chainHash := hash })
        es fs := by
  induction es with
  | nil =>
      intro prev fs h
      cases h
      exact .nil
  | cons e es ih =>
      intro prev fs h
      rw [reseal, bind_eq_ok] at h
      obtain ⟨e', he, h⟩ := h
      obtain ⟨chain, -, h⟩ := bind_eq_ok.1 h
      obtain ⟨e₂, he₂, h⟩ := bind_eq_ok.1 h
      obtain ⟨rest, hrest, h⟩ := bind_eq_ok.1 h
      cases h
      obtain rfl := rewrite_eq_ok he
      obtain ⟨-, rfl⟩ := checked_eq_ok.1 he₂
      exact .cons ⟨chain, rfl⟩ (ih hrest)

omit [Clocks] in
@[simp]
theorem rewritten_id (ids : List Nat) (replacement : Str) (e : ObservationEvent) :
    (rewritten ids replacement e).id = e.id := by
  rw [rewritten]
  split <;> rfl

theorem reseal_ids {ids : List Nat} {replacement prev : Str} {es fs : List ObservationEvent}
    (h : reseal ids replacement prev es = .ok fs) :
    fs.map ObservationEvent.id = es.map ObservationEvent.id := by
  have hall := reseal_forall₂ h
  clear h
  induction hall with
  | nil => rfl
  | cons hd _ ih =>
      obtain ⟨hash, rfl⟩ := hd
      simp [ih]

/-- Linked events before the first that is rewritten stay as they are, hash included. -/
theorem reseal_prefix {ids : List Nat} {replacement : Str} {es rest : List ObservationEvent}
    (hids : ∀ e ∈ es, e.id ∉ ids) : ∀ {prev : Str} {fs : List ObservationEvent},
      Linked prev es → reseal ids replacement prev (es ++ rest) = .ok fs →
        ∃ fs', fs = es ++ fs' := by
  induction es with
  | nil => exact fun {_ fs} _ _ => ⟨fs, rfl⟩
  | cons e es ih =>
      intro prev fs hl h
      have he : rewrite ids replacement e = .ok e :=
        if_neg fun hr => hids e List.mem_cons_self hr.1
      obtain ⟨hp, hc, hrest⟩ := hl
      rw [List.cons_append, reseal, he] at h
      obtain ⟨_, h', h⟩ := bind_eq_ok.1 h
      cases h'
      obtain ⟨chain, hc', h⟩ := bind_eq_ok.1 h
      rw [hc] at hc'
      cases hc'
      obtain ⟨e₂, he₂, h⟩ := bind_eq_ok.1 h
      obtain ⟨-, rfl⟩ := checked_eq_ok.1 he₂
      obtain ⟨more, hmore, h⟩ := bind_eq_ok.1 h
      cases h
      obtain ⟨fs', rfl⟩ := ih (fun d hd => hids d (List.mem_cons_of_mem _ hd)) hrest hmore
      exact ⟨fs', rfl⟩

end

section Concrete

attribute [local instance] wholeFloats

/-- Clocks on whole floats. -/
@[reducible]
def wholeClocks : Clocks where
  sub := fun a b => a.bind fun x => b.map (x - ·)
  isNan := fun _ => false
  lt := fun a b => a.elim false fun x => b.elim true fun y => decide (x < y)
  ltInt := fun a n => a.elim false fun x => decide ((x : Int) < n)
  leInt := fun n a => a.elim true fun x => decide (n ≤ (x : Int))
  isNan_of_isFinite := fun _ _ => rfl
  isNan_sub := fun _ _ _ _ => rfl
  leInt_of_not_ltInt := by
    intro f n _ h
    cases f with
    | none => rfl
    | some x => simpa using h

end Concrete

end ResidualHarness.Compliance
