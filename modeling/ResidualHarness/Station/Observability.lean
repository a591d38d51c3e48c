import ResidualHarness.ObservationLayer.Bus
import ResidualHarness.Station.Store

/-!
# The observation store of the station

`StationBus` and `ObservationStore` of `residual/station/observability.py`, and the mirror of a workflow
event that `Store._event` of `residual/station/store.py` writes. The observations of a trace and the head of
their chain are in two tables. An append writes one after the other and may fail in between; a transaction
or a savepoint that fails puts the tables back.
-/

set_option autoImplicit false

namespace ResidualHarness.Station

open Python Core ObservationLayer

variable [FloatModel]

/-! ## Tables -/

/-- A row of the table `observations`. -/
structure ObservationRow where
  seq : Int
  trace : Str
  kind : Str
  provider : Option Str
  value : Str

/-- The tables of the store, with `observations_enabled` of the table `settings`. Not in the database:
`mirrors`, which pairs the row of a mirrored observation with the hash of its event. -/
structure Tables where
  store : Store
  enabled : Option Json
  observations : List ObservationRow
  heads : Dict Str (Str × Nat)
  mirrors : List (Int × Str)

/-- A new store. -/
def Tables.empty : Tables := ⟨.empty, none, [], [], []⟩

/-- `_observations_enabled(c)`. -/
def Tables.observationsEnabled (t : Tables) : Bool :=
  match t.enabled with
  | none => true
  | some (.bool b) => b
  | some _ => false

/-- The head of a trace and its count. -/
def Tables.head (t : Tables) (trace : Str) : Str × Nat :=
  (t.heads.get? trace).getD (genesisHash, 0)

/-- The rows of a trace. -/
def Tables.rows (t : Tables) (trace : Str) : List ObservationRow :=
  t.observations.filter fun r => decide (r.trace = trace)

/-- The next `AUTOINCREMENT` key; no row is ever deleted. -/
def Tables.nextRow (t : Tables) : Int := pageEnd ObservationRow.seq 0 t.observations + 1

/-! ## Appends -/

/-- Where SQLite fails during an append: in one of the two statements, or at its end. -/
inductive Fault where
  | insert
  | head
  | release

/-- What an append draws and meets. -/
structure Append where
  obsId : Str
  timeNs : Nat
  fault : Option Fault

/-- `sqlite3.OperationalError`. -/
def operationalError : PyExn := .runtimeError "OperationalError" "disk I/O error"

/-- A value as an argument; what the store builds is always well formed. -/
def argument (v : Json) : Arg := if h : v.wf = true then some ⟨v, h⟩ else none

/-- `tags.get('provider')` of an observation's tags. -/
def providerOf (tags : Fields) : Option Str :=
  match Fields.get? tags (lit "provider") with
  | some (.str s) => some s
  | _ => none

/-- The observation that `_append_observation` makes, and the head after it. -/
def sealNext (t : Tables) (trace : Str) (a : Append) (kind payload tags source : Arg) :
    Except PyExn (Observation × ObservationSequencer) := do
  let _ ← utf8 trace
  let s : ObservationSequencer := ⟨trace, (t.head trace).1, (t.head trace).2⟩
  s.commit (← s.draft a.obsId a.timeNs kind payload tags source)

/-- The text of an observation in its row. -/
def rowText (o : Observation) : Str := (Json.obj o.toDict).render

/-- The tables with a row for the observation. -/
def Tables.insert (t : Tables) (trace : Str) (o : Observation) : Tables :=
  { t with observations :=
      t.observations ++ [⟨t.nextRow, trace, o.kind.value, providerOf o.tags, rowText o⟩] }

/-- `_append_observation(c, trace, kind, payload, tags, source)`: the tables as they are where it ends. -/
def Tables.append (t : Tables) (trace : Str) (a : Append) (kind payload tags source : Arg) :
    Tables × Except PyExn Observation :=
  match sealNext t trace a kind payload tags source with
  | .error e => (t, .error e)
  | .ok (o, s) =>
      let inserted := t.insert trace o
      let headed := { inserted with heads := inserted.heads.set trace (s.prev, s.count) }
      match a.fault with
      | some .insert => (t, .error operationalError)
      | some .head => (inserted, .error operationalError)
      | some .release => (headed, .error operationalError)
      | none => (headed, .ok o)

/-! ## Writers -/

/-- The tables and `observation_failures`. -/
structure Observing where
  tables : Tables
  failures : Nat

/-- A new store. -/
def Observing.new : Observing := ⟨.empty, 0⟩

/-- `{**self.tags, **(tags or {})}`. -/
def mergeTags (own : Fields) (tags : Arg) : Except PyExn Fields :=
  match orEmpty tags with
  | some ⟨.obj d, _⟩ => .ok (d.foldl (fun m kv => Dict.set m kv.1 kv.2) own)
  | _ => .error .typeError

/-- `StationBus.emit(kind, payload, tags, source)` of a bus on the trace with its own tags. -/
def Observing.emit (w : Observing) (trace : Str) (own : Fields) (kind payload tags source : Arg)
    (a : Append) : Observing × Option Observation :=
  if w.tables.observationsEnabled = true then
    match mergeTags own tags with
    | .error _ => ({ w with failures := w.failures + 1 }, none)
    | .ok merged =>
        match w.tables.append trace a kind payload (argument (.obj merged)) source with
        | (tables, .ok o) => (⟨tables, w.failures⟩, some o)
        -- the transaction is rolled back
        | (_, .error _) => ({ w with failures := w.failures + 1 }, none)
  else (w, none)

/-- `task.transition`. -/
def transitionType : Str := lit "task.transition"

/-- The kind of the mirror of an event. -/
def mirrorKind (eventType : Str) : ObservationKind :=
  if eventType = transitionType then .stateTransition
  else if eventType = lit "task.claimed" ∨ eventType = lit "integration.completed" then .handoff
  else .checkpoint

/-- The payload of the mirror of an event. -/
def mirrorPayload (e : Event) (eventHash : Str) : Except PyExn Fields := do
  let base : Fields := [(lit "event_id", .str e.eventId), (lit "event_type", .str e.eventType),
    (lit "event_hash", .str eventHash), (lit "task_id", e.taskId), (lit "attempt", .int e.attempt)]
  if e.eventType = transitionType then do
    let start ← Fields.get e.data (lit "from")
    let target ← Fields.get e.data (lit "to")
    return base ++ [(lit "from", start), (lit "to", target)]
  else return base

/-- `observe_workflow(c, event, event_hash)`: a failure puts back the tables of the savepoint. -/
def Observing.observeWorkflow (w : Observing) (e : Event) (eventHash : Str) (a : Append) : Observing :=
  if w.tables.observationsEnabled = true then
    match mirrorPayload e eventHash with
    | .error _ => { w with failures := w.failures + 1 }
    | .ok payload =>
        match w.tables.append e.projectId a (.str (mirrorKind e.eventType).value)
            (argument (.obj payload)) (argument (.obj [(lit "actor", .str e.actor)]))
            (.str (lit "residual.ldd")) with
        | (tables, .ok _) =>
            ⟨{ tables with mirrors := tables.mirrors ++ [(w.tables.nextRow, eventHash)] }, w.failures⟩
        | (_, .error _) => { w with failures := w.failures + 1 }
  else w

/-- The arguments of `Store._event`, with what it draws. -/
structure Admission where
  project : Project
  eventType : Str
  actor : Str
  task : Option (Json × Nat)
  data : Fields
  draw : Draw
  mirror : Append

/-- The row of the event in the store. -/
def Admission.insert (a : Admission) (s : Store) : Except PyExn Store :=
  s.insertEvent a.project a.eventType a.actor a.task a.data a.draw

/-- The mirror of the event that was inserted last. -/
def Observing.mirrorLast (w : Observing) (store : Store) (a : Append) : Observing :=
  let w := { w with tables := { w.tables with store := store } }
  match store.events.getLast? with
  | some row => w.observeWorkflow row.event row.hash a
  | none => w

/-- `_event(c, project, event_type, actor, task, data)` for each event of a transaction, and whether one
of them fails. -/
def Observing.admitAll : Observing → List Admission → Observing × Bool
  | w, [] => (w, false)
  | w, a :: as =>
      match a.insert w.tables.store with
      | .error _ => (w, true)
      | .ok store => (w.mirrorLast store a.mirror).admitAll as

/-- What happens to the store. -/
inductive StationAction where
  /-- A transaction that admits these events; it may fail at its end. -/
  | transact (admissions : List Admission) (fails : Bool)
  /-- `emit` of a bus. -/
  | emit (trace : Str) (own : Fields) (kind payload tags source : Arg) (a : Append)
  /-- `settings({'observations_enabled': value})`. -/
  | enable (value : Json)

/-- The store after an action. A transaction that fails is rolled back, but the failures are counted
outside of the tables. -/
def Observing.step (w : Observing) : StationAction → Observing
  | .transact admissions fails =>
      let (w', failed) := w.admitAll admissions
      if failed = true ∨ fails = true then ⟨w.tables, w'.failures⟩ else w'
  | .emit trace own kind payload tags source a => (w.emit trace own kind payload tags source a).1
  | .enable value => { w with tables := { w.tables with enabled := some value } }

/-- The store after a sequence of actions. -/
def Observing.run (w : Observing) (actions : List StationAction) : Observing :=
  actions.foldl Observing.step w

/-! ## Readers -/

/-- `Observation(**json.loads(value))`. -/
def readValue (value : Str) : Except PyExn Observation :=
  match loads value with
  | some (.obj d) => ofDict d
  | some _ => .error .typeError
  | none => .error (.valueError "invalid JSON")

/-- `observation_summary(trace)`: its counts, and whether the integrity is `verified`. -/
structure Summary where
  eventCount : Nat
  headHash : Str
  verified : Bool
  counts : Dict Str Nat
  deliveryFailures : Nat

/-- `SELECT kind, count(*) ... GROUP BY kind`. -/
def countKinds (kinds : List Str) : Dict Str Nat := kinds.dedup.map fun k => (k, kinds.count k)

/-- `observation_summary(trace)`, in one read transaction. Every error of a row is caught. -/
def Observing.summary (w : Observing) (trace : Str) : Except PyExn Summary := do
  let _ ← utf8 trace
  let (head, count) := w.tables.head trace
  let rows := w.tables.rows trace
  let verified :=
    match mapE readValue (rows.map ObservationRow.value) with
    | .ok os => verifyChain os (some head) (some count)
    | .error _ => false
  return ⟨count, head, verified, countKinds (rows.map ObservationRow.kind), w.failures⟩

/-- `observation_export(trace)`, after its summary: the rows are read from the tables as they are then. -/
def Tables.exportFrom (t : Tables) (trace : Str) (s : Summary) : Except PyExn Str := do
  require (s.verified = true)
    (contractError "Observation chain failed verification; inspect diagnostics")
  let os ← mapE readValue (((t.rows trace).take s.eventCount).map ObservationRow.value)
  require (verifyChain os (some s.headHash) (some s.eventCount) = true)
    (contractError "Observation trace changed during export")
  let lines ← mapE (fun o => canonical (.obj (Observation.toDict o))) os
  return [lf].intercalate lines ++ [lf]

/-- A page of `observations`. -/
structure Page where
  events : List Fields
  hasMore : Bool
  nextCursor : Int

/-- The rows that match a query. -/
def Tables.matching (t : Tables) (trace kind provider : Str) : List ObservationRow :=
  t.observations.filter fun r => decide (r.trace = trace ∧ (kind = [] ∨ r.kind = kind) ∧
    (provider = [] ∨ r.provider = some provider))

/-- `{'seq': r['seq'], **json.loads(r['value'])}`. -/
def pageEvent (r : ObservationRow) : Except PyExn Fields :=
  match loads r.value with
  | some (.obj d) => .ok (d.foldl (fun m kv => Dict.set m kv.1 kv.2) [(lit "seq", .int r.seq)])
  | some _ => .error .typeError
  | none => .error (.valueError "invalid JSON")

/-- `observations(trace, after, limit, kind, provider)`. -/
def Tables.page (t : Tables) (trace : Str) (after limit : Int) (kind provider : Str) :
    Except PyExn Page := do
  require (kind = [] ∨ kind ∈ ObservationKind.all.map ObservationKind.value)
    (contractError "Unknown observation kind")
  require (0 ≤ after ∧ 1 ≤ limit ∧ limit ≤ 500) (contractError "Invalid observation page")
  let _ ← utf8 trace
  let _ ← utf8 provider
  let rows := Python.page ObservationRow.seq after (limit.toNat + 1) (t.matching trace kind provider)
  let shown := rows.take limit.toNat
  let events ← mapE pageEvent shown
  return ⟨events, decide (limit.toNat < rows.length), pageEnd ObservationRow.seq after shown⟩

end ResidualHarness.Station
