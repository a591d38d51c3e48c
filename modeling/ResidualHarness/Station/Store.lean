import ResidualHarness.Station.Feed
import ResidualHarness.Core.HashChain
import ResidualHarness.Core.Task

/-!
# The store of the station

Tasks, leases and events of `residual/station/store.py`, with the table of transitions and the event
checks of `residual/station/contracts.py`. A call is one transaction: it gives the tables after it, or
fails and leaves them as they were. Clock readings, tokens and identifiers that the code draws are
arguments of the calls.
-/

set_option autoImplicit false

namespace ResidualHarness.Station

open Python Core

/-! ## Contracts -/

/-- `STATES`. -/
inductive TaskState where
  | proposed
  | triaging
  | ready
  | running
  | repairRequired
  | blocked
  | localVerified
  | reviewReady
  | approved
  | integrated
deriving DecidableEq

namespace TaskState

/-- The text of a state. -/
def name : TaskState → Str
  | .proposed => lit "proposed"
  | .triaging => lit "triaging"
  | .ready => lit "ready"
  | .running => lit "running"
  | .repairRequired => lit "repair_required"
  | .blocked => lit "blocked"
  | .localVerified => lit "local_verified"
  | .reviewReady => lit "review_ready"
  | .approved => lit "approved"
  | .integrated => lit "integrated"

/-- `TRANSITIONS`. -/
def transitions : TaskState → List TaskState
  | .proposed => [.triaging]
  | .triaging => [.ready, .blocked]
  | .ready => [.running, .blocked]
  | .running => [.localVerified, .repairRequired, .blocked]
  | .repairRequired => [.ready, .running, .blocked]
  | .blocked => [.proposed, .ready]
  | .localVerified => [.reviewReady]
  | .reviewReady => [.approved, .repairRequired, .blocked]
  | .approved => [.integrated, .repairRequired, .blocked]
  | .integrated => []

end TaskState

/-- `ID.fullmatch(value)`. -/
def isTaskId : Str → Bool
  | [] => false
  | c :: cs => isLetter c && decide (cs.length ≤ 63) &&
      cs.all fun d => isLetter d || isDigit d || decide (d = 0x5F ∨ d = 0x2D)

/-- `EVENT_TYPES`. -/
def eventTypes : List Str :=
  [lit "project.created", lit "project.paused", lit "project.resumed", lit "task.transition",
    lit "task.claimed", lit "task.finding", lit "checks.completed", lit "review.completed",
    lit "integration.completed", lit "usage.recorded", lit "report.generated", lit "release.exported",
    lit "worker.joined", lit "worker.expired", lit "project.note"]

/-- `bounded(value, name, maximum)` of a text. -/
def bounded (value : Str) (name : String) (maximum : Nat) : Except PyExn Unit :=
  require (¬(isBlank value = true ∨ value.length > maximum))
    (contractError (name ++ " must be text of 1–" ++ toString maximum ++ " characters"))

/-- `secrets.compare_digest(a, b)` of two texts. -/
def compareDigest (a b : Str) : Except PyExn Bool :=
  if isAscii a && isAscii b then .ok (decide (a = b)) else .error .typeError

theorem compareDigest_true {a b : Str} (h : compareDigest a b = .ok true) : a = b := by
  rw [compareDigest] at h
  split at h
  · injection h with hdec
    exact of_decide_eq_true hdec
  · cases h

/-- A text in a message. -/
def shown (s : Str) : String := String.ofList (s.map fun c => Char.ofNat c.val)

section Store

variable [FloatModel]

/-! ## Events -/

/-- The event of a row; `schema_version` is always 1. -/
structure Event where
  eventId : Str
  eventType : Str
  timestamp : Str
  projectId : Str
  taskId : Json
  actor : Str
  attempt : Nat
  specHash : Str
  data : Fields

/-- The event as a dictionary. -/
def Event.fields (e : Event) : Fields :=
  [(lit "schema_version", .int 1), (lit "event_id", .str e.eventId),
    (lit "event_type", .str e.eventType), (lit "timestamp", .str e.timestamp),
    (lit "project_id", .str e.projectId), (lit "task_id", e.taskId), (lit "actor", .str e.actor),
    (lit "attempt", .int e.attempt), (lit "spec_hash", .str e.specHash), (lit "data", .obj e.data)]

/-- The task identifier of an event: `None` or an identifier. -/
def validTaskId : Json → Bool
  | .null => true
  | .str s => isTaskId s
  | _ => false

/-- `event_validate(event)`, of an event as `_event` builds it: its time stamp is a fresh `now()`. -/
def eventValidate (e : Event) : Except PyExn Unit := do
  require (e.eventType ∈ eventTypes) (contractError "Unknown LDD event type")
  bounded e.eventId "event_id" 200
  bounded e.timestamp "timestamp" 200
  bounded e.projectId "project_id" 200
  bounded e.actor "actor" 200
  bounded e.specHash "spec_hash" 200
  require (isHash e.specHash = true)
    (contractError "Event must reference a specification SHA-256")
  require (validTaskId e.taskId = true) (contractError "Invalid task ID")
  let text ← canonical (.obj e.fields)
  let bytes ← utf8 text
  require (bytes.length ≤ 24000)
    (contractError "Workflow events must stay under 24 KB; store larger evidence as artifacts")

/-- A row of the `events` table. -/
structure EventRow where
  seq : Int
  event : Event
  prevHash : Str
  hash : Str

/-- What the readers of the log see of a row. -/
def EventRow.entry (r : EventRow) : LogEntry :=
  ⟨r.seq, r.event.projectId, r.event.eventType,
    match r.event.taskId with
    | .str s => some s
    | _ => none,
    r.event.data⟩

/-- The hash of an event after another. -/
def eventHash (prev : Str) (e : Event) : Except PyExn Str :=
  digest (.obj [(lit "previous", .str prev), (lit "event", .obj e.fields)])

/-- The rows of a project. -/
def projectRows (rows : List EventRow) (pid : Str) : List EventRow :=
  rows.filter fun r => decide (r.event.projectId = pid)

/-- The hash of the last event of a project. -/
def headHash (rows : List EventRow) (pid : Str) : Str :=
  ((projectRows rows pid).getLast?.map EventRow.hash).getD genesis

/-! ## Tables -/

/-- A task, with the keys that nothing here reads in `rest`. -/
structure Task where
  id : Str
  state : TaskState
  attempt : Nat
  owner : Option Str
  lease : Option Str
  leaseUntil : ℚ
  dependsOn : List Str
  rest : Fields

/-- The tables. The tasks are in the order of their rows. -/
structure Store where
  projects : Dict Str Project
  tasks : Dict (Str × Str) Task
  events : List EventRow

/-- The tables of a new station. -/
def Store.empty : Store := ⟨[], [], []⟩

/-- The log that readers page through. -/
def Store.log (s : Store) : List LogEntry := s.events.map EventRow.entry

/-- What a call draws for an event: `uuid.uuid4().hex` and `now()`. -/
structure Draw where
  eventId : Str
  timestamp : Str

/-- `_project(c, pid)`. -/
def Store.project (s : Store) (pid : Str) : Except PyExn Project :=
  match s.projects.get? pid with
  | some p => .ok p
  | none => .error (contractError "Project was not found")

/-- `_task(c, pid, tid)`. -/
def Store.task (s : Store) (pid tid : Str) : Except PyExn Task :=
  match s.tasks.get? (pid, tid) with
  | some t => .ok t
  | none => .error (contractError "Task was not found")

/-- A violated constraint of a table. -/
def integrityError : PyExn := .runtimeError "IntegrityError" "UNIQUE constraint failed"

/-- `_event(c, project, event_type, actor, task, data)`; a task gives its identifier and attempt. -/
def Store.insertEvent (s : Store) (p : Project) (eventType actor : Str) (task : Option (Json × Nat))
    (data : Fields) (draw : Draw) : Except PyExn Store := do
  let event : Event := ⟨draw.eventId, eventType, draw.timestamp, p.id,
    (task.map Prod.fst).getD .null, actor, (task.map Prod.snd).getD 0, p.specHash, data⟩
  eventValidate event
  let prev := headHash s.events p.id
  let root ← eventHash prev event
  require (event.eventId ∉ s.events.map fun r => r.event.eventId) integrityError
  return { s with events := s.events ++ [⟨nextSeq s.log, event, prev, root⟩] }

/-- The dictionary of a task under a key `id`, without `lease_until`: a number that is always
written. -/
def Task.columns (t : Task) (id : Json) : Fields :=
  [(lit "id", id), (lit "state", .str t.state.name), (lit "attempt", .int t.attempt),
    (lit "owner", optionalString t.owner), (lit "lease", optionalString t.lease),
    (lit "depends_on", strings t.dependsOn)] ++ t.rest

/-- `_write_task(c, pid, task)` of a task whose dictionary has this `id`. A number or `None` is the
identifier of no row, and a list or dictionary cannot be bound. -/
def Store.writeTask (s : Store) (pid : Str) (id : Json) (t : Task) (updatedAt : Str) :
    Except PyExn Store := do
  let t := { t with rest := Dict.set t.rest (lit "updated_at") (.str updatedAt) }
  let text ← canonical (.obj (t.columns id))
  let _ ← utf8 text
  match id with
  | .str tid =>
      match s.tasks.get? (pid, tid) with
      | some _ => return { s with tasks := s.tasks.set (pid, tid) { t with id := tid } }
      | none => return s
  | .arr _ => throw (.runtimeError "ProgrammingError" "Error binding parameter 3")
  | .obj _ => throw (.runtimeError "ProgrammingError" "Error binding parameter 3")
  | _ => return s

/-! ## Projects -/

/-- A task of a manifest: its identifier, its dependencies and its other keys. -/
structure Definition where
  id : Str
  dependsOn : List Str
  rest : Fields

/-- A manifest that `parse_spec` accepted, with the document that was hashed. -/
structure Manifest where
  name : Str
  goal : Str
  tasks : List Definition
  document : Json
  ids_nodup : (tasks.map Definition.id).Nodup
  deps_known : ∀ d ∈ tasks, ∀ dep ∈ d.dependsOn, dep ∈ tasks.map Definition.id

/-- The row of a task of a new project. -/
def Definition.newTask (d : Definition) (updatedAt : Str) : Task where
  id := d.id
  state := .proposed
  attempt := 0
  owner := none
  lease := none
  leaseUntil := 0
  dependsOn := d.dependsOn
  rest := [(lit "base_commit", Json.null), (lit "head_commit", Json.null),
    (lit "checks_result", .arr []), (lit "baseline", .arr []), (lit "findings", .arr []),
    (lit "artifacts", .arr []), (lit "updated_at", .str updatedAt)].foldl
      (fun r kv => Dict.set r kv.1 kv.2) d.rest

/-- `INSERT INTO tasks` for one definition. -/
def insertTask (pid updatedAt : Str) (tasks : Dict (Str × Str) Task) (d : Definition) :
    Except PyExn (Dict (Str × Str) Task) := do
  let t := d.newTask updatedAt
  let text ← canonical (.obj (t.columns (.str t.id)))
  let _ ← utf8 text
  require ((pid, t.id) ∉ tasks.keys) integrityError
  return tasks ++ [((pid, t.id), t)]

/-- `create_project(manifest, markdown, repo, mode, allow_cloud)`, with the identifier it draws. -/
def Store.createProject (s : Store) (m : Manifest) (mode : Str) (allowCloud : Bool) (pid : Str)
    (updatedAt : Str) (draw : Draw) : Except PyExn Store := do
  let specHash ← digest m.document
  let p : Project := ⟨pid, m.name, m.goal, specHash, allowCloud, false, 100, 30, 5000000, none, none,
    none⟩
  require (pid ∉ s.projects.keys) integrityError
  let tasks ← m.tasks.foldlM (insertTask pid updatedAt) s.tasks
  Store.insertEvent { s with projects := s.projects ++ [(pid, p)], tasks := tasks } p
    (lit "project.created") (lit "operator") none
    [(lit "name", .str m.name), (lit "tasks", .int m.tasks.length), (lit "mode", .str mode)] draw

/-! ## Calls -/

/-- The keys of the state machine. -/
def machineKeys : List Str :=
  [lit "state", lit "owner", lit "lease", lit "lease_until", lit "attempt", lit "depends_on"]

/-- Fields of a call that do not name a key of the state machine. -/
structure Extra where
  fields : Fields
  plain : ∀ key ∈ machineKeys, key ∉ fields.map Prod.fst

/-- `task.update(fields)`: the identifier of the dictionary, and the task with its other keys. -/
def Task.update (t : Task) (extra : Extra) : Json × Task :=
  ((Dict.get? extra.fields (lit "id")).getD (.str t.id),
    { t with rest := (Dict.pop extra.fields (lit "id")).foldl (fun r kv => Dict.set r kv.1 kv.2) t.rest })

/-- `not lease or not compare_digest(lease, task.get("lease") or "") or task["lease_until"] < time.time()`,
negated. -/
def Task.presents (t : Task) (lease : Option Str) (now : ℚ) : Except PyExn Bool :=
  match lease with
  | none => .ok false
  | some l => if l = [] then .ok false else do
      let same ← compareDigest l (t.lease.getD [])
      return same && !decide (t.leaseUntil < now)

/-- `task.get("findings", [])[:5]`. -/
def firstFindings (t : Task) : Except PyExn Json :=
  match Dict.get? t.rest (lit "findings") with
  | none => .ok (.arr [])
  | some (.arr xs) => .ok (.arr (xs.take 5))
  | some (.str s) => .ok (.str (s.take 5))
  | some _ => .error .typeError

/-- `transition(pid, tid, state, actor, fields, lease)`. -/
def Store.transition (s : Store) (pid tid state actor : Str) (extra : Extra) (lease : Option Str)
    (now : ℚ) (updatedAt : Str) (draw : Draw) : Except PyExn Store := do
  let p ← s.project pid
  let t ← s.task pid tid
  match t.state.transitions.find? fun q => decide (q.name = state) with
  | none => throw (contractError ("Cannot move " ++ shown t.state.name ++ " to " ++ shown state))
  | some next =>
      if t.state = .running then
        let held ← t.presents lease now
        require (held = true) (contractError "Task lease has expired or belongs to another worker")
      let (id, moved) := t.update extra
      let moved := if t.state = .running then { moved with state := next, lease := none, leaseUntil := 0 }
        else { moved with state := next }
      let s' ← s.writeTask pid id moved updatedAt
      let findings ← firstFindings moved
      s'.insertEvent p (lit "task.transition") actor (some (id, moved.attempt))
        [(lit "from", .str t.state.name), (lit "to", .str next.name), (lit "findings", findings)] draw

/-- The keys that `update_task` refuses. -/
def guardedKeys : List Str :=
  [lit "state", lit "owner", lit "lease", lit "lease_until", lit "attempt"]

/-- `update_task(pid, tid, **fields)`. -/
def Store.updateTask (s : Store) (pid tid : Str) (extra : Extra) (updatedAt : Str) :
    Except PyExn Store := do
  require (∀ key ∈ guardedKeys, key ∉ extra.fields.map Prod.fst)
    (contractError "Use the state transition/claim API")
  let t ← s.task pid tid
  let (id, changed) := t.update extra
  s.writeTask pid id changed updatedAt

/-- `MAX_TASK_ATTEMPTS`. -/
def maxTaskAttempts : Nat := 5

/-- The tasks of a project, in the order of their rows. -/
def Store.projectTasks (s : Store) (pid : Str) : List Task :=
  (s.tasks.filter fun kv => decide (kv.1.1 = pid)).map Prod.snd

/-- `not any(states[d] != "integrated" for d in t["depends_on"])`. -/
def allIntegrated (states : Dict Str TaskState) : List Str → Except PyExn Bool
  | [] => .ok true
  | d :: deps =>
      match states.get? d with
      | none => .error .keyError
      | some q => if q ≠ .integrated then .ok false else allIntegrated states deps

/-- The tests of the loop of `claim`. -/
def claimable (states : Dict Str TaskState) (tid : Option Str) (t : Task) : Except PyExn Bool :=
  if (tid.getD [] ≠ [] ∧ t.id ≠ tid.getD []) ∨ (t.state ≠ .ready ∧ t.state ≠ .repairRequired) then
    .ok false
  else do
    let free ← allIntegrated states t.dependsOn
    return free && decide (t.attempt < maxTaskAttempts)

/-- `claim(pid, owner, tid)`: the task that is handed out, with its new lease. -/
def Store.claim (s : Store) (pid owner : Str) (tid : Option Str) (token : Str) (now : ℚ)
    (updatedAt : Str) (draw : Draw) : Except PyExn (Option Task × Store) := do
  let p ← s.project pid
  if p.paused then return (none, s)
  let tasks := s.projectTasks pid
  let states := Dict.ofPairs (tasks.map fun t => (t.id, t.state))
  match ← findE (claimable states tid) tasks with
  | none => return (none, s)
  | some t =>
      let t := { t with
        state := .running
        owner := some owner
        attempt := t.attempt + 1
        lease := some token
        leaseUntil := now + 900 }
      let s' ← s.writeTask pid (.str t.id) t updatedAt
      let route ← Fields.get t.rest (lit "route")
      let s'' ← s'.insertEvent p (lit "task.claimed") owner (some (.str t.id, t.attempt))
        [(lit "route", route), (lit "lease_seconds", .int 900)] draw
      return (some t, s'')

/-- `heartbeat(pid, tid, lease)`, with its two readings of the clock. -/
def Store.heartbeat (s : Store) (pid tid lease : Str) (now later : ℚ) (updatedAt : Str) :
    Except PyExn Store := do
  let t ← s.task pid tid
  require (¬(t.state ≠ .running ∨ t.leaseUntil < now)) (contractError "Stale task lease")
  let same ← compareDigest (t.lease.getD []) lease
  require (same = true) (contractError "Stale task lease")
  s.writeTask pid (.str t.id) { t with leaseUntil := later + 900 } updatedAt

/-- The tasks that `recover` takes back. -/
def Task.lost (t : Task) (startup : Bool) (now : ℚ) : Bool :=
  (decide (t.state = .running) && (decide (t.leaseUntil < now) ||
      (startup && !(lit "remote:").isPrefixOf (t.owner.getD [])))) ||
    (startup && decide (t.state = .triaging ∨ t.state = .localVerified))

/-- The task that `recover` leaves. -/
def Task.recovered (t : Task) : Task :=
  { t with
    state := .blocked
    owner := none
    lease := none
    leaseUntil := 0
    rest := Dict.set t.rest (lit "findings")
      (.arr [.str (lit "Interrupted work requires re-triage. Existing evidence is retained.")]) }

/-- The loop of `recover` over the rows it has fetched. The clock is read for each row. -/
def Store.recoverRows (startup : Bool) (now : Nat → ℚ) (updatedAt : Nat → Str) (draw : Nat → Draw) :
    Nat → List ((Str × Str) × Task) → Store → Except PyExn Store
  | _, [], s => .ok s
  | i, (key, t) :: rows, s =>
      if t.lost startup (now i) then do
        let s₁ ← s.writeTask key.1 (.str t.id) t.recovered (updatedAt i)
        let p ← s₁.project key.1
        let s₂ ← s₁.insertEvent p (lit "worker.expired") (lit "coordinator")
          (some (.str t.id, t.attempt)) [(lit "from", .str t.state.name)] (draw i)
        recoverRows startup now updatedAt draw (i + 1) rows s₂
      else recoverRows startup now updatedAt draw (i + 1) rows s

/-- `recover(startup)`. -/
def Store.recover (s : Store) (startup : Bool) (now : Nat → ℚ) (updatedAt : Nat → Str)
    (draw : Nat → Draw) : Except PyExn Store :=
  Store.recoverRows startup now updatedAt draw 0 s.tasks s

/-! ## What the writes do -/

/-- An inserted event: one more row, linked to the last one of its project. -/
structure Inserted (s s' : Store) (pid eventType : Str) (taskId : Json) (data : Fields)
    (row : EventRow) : Prop where
  store : s' = { s with events := s.events ++ [row] }
  project : row.event.projectId = pid
  type : row.event.eventType = eventType
  task : row.event.taskId = taskId
  data : row.event.data = data
  prev : row.prevHash = headHash s.events pid
  hash : eventHash row.prevHash row.event = .ok row.hash
  seq : row.seq = nextSeq s.log

theorem insertEvent_ok {s s' : Store} {p : Project} {eventType actor : Str}
    {task : Option (Json × Nat)} {data : Fields} {draw : Draw}
    (h : s.insertEvent p eventType actor task data draw = .ok s') :
    ∃ row, Inserted s s' p.id eventType ((task.map Prod.fst).getD .null) data row := by
  obtain ⟨-, -, h⟩ := bind_eq_ok.1 h
  obtain ⟨root, hroot, h⟩ := bind_eq_ok.1 h
  obtain ⟨-, -, h⟩ := bind_eq_ok.1 h
  cases h
  exact ⟨_, rfl, rfl, rfl, rfl, rfl, rfl, hroot, rfl⟩

theorem Inserted.log {s s' : Store} {pid eventType : Str} {taskId : Json} {data : Fields}
    {row : EventRow} (h : Inserted s s' pid eventType taskId data row) :
    s'.log = appendEntry s.log pid eventType row.entry.taskId data := by
  rw [h.store, Store.log, List.map_append, appendEntry]
  congr 1
  show [row.entry] = _
  rw [← h.project, ← h.type, ← h.data, ← h.seq]
  rfl

/-- A written task: the row of that identifier is replaced, if there is one. -/
theorem writeTask_ok {s s' : Store} {pid : Str} {id : Json} {t : Task} {updatedAt : Str}
    (h : s.writeTask pid id t updatedAt = .ok s') :
    (∃ tid old rest, id = .str tid ∧ s.tasks.get? (pid, tid) = some old ∧
        s' = { s with tasks := s.tasks.set (pid, tid) { t with id := tid, rest := rest } }) ∨
      ((∀ tid, id = .str tid → s.tasks.get? (pid, tid) = none) ∧ s' = s) := by
  obtain ⟨text, _, h⟩ := bind_eq_ok.1 h
  obtain ⟨bytes, _, h⟩ := bind_eq_ok.1 h
  cases id with
  | str tid =>
      dsimp only at h
      cases hold : s.tasks.get? (pid, tid) with
      | some old =>
          rw [hold] at h
          cases h
          exact .inl ⟨tid, old, _, rfl, hold, rfl⟩
      | none =>
          rw [hold] at h
          cases h
          refine .inr ⟨?_, rfl⟩
          intro other hother
          cases hother
          exact hold
  | arr => cases h
  | obj => cases h
  | null | bool | int | float =>
      cases h
      exact .inr ⟨fun tid htid => (nomatch htid), rfl⟩

theorem writeTask_row {s s' : Store} {pid tid : Str} {t old : Task} {updatedAt : Str}
    (h : s.writeTask pid (.str tid) t updatedAt = .ok s') (hold : s.tasks.get? (pid, tid) = some old) :
    ∃ rest, s' = { s with tasks := s.tasks.set (pid, tid) { t with id := tid, rest := rest } } := by
  rcases writeTask_ok h with ⟨tid', old', rest, hid, -, hs⟩ | ⟨hnone, -⟩
  · cases hid
    exact ⟨rest, hs⟩
  · rw [hnone tid rfl] at hold
    cases hold

theorem project_ok {s : Store} {pid : Str} {p : Project} (h : s.project pid = .ok p) :
    s.projects.get? pid = some p := by
  rw [Store.project] at h
  split at h
  · rename_i q hq
    cases h
    exact hq
  · cases h

theorem task_ok {s : Store} {pid tid : Str} {t : Task} (h : s.task pid tid = .ok t) :
    s.tasks.get? (pid, tid) = some t := by
  rw [Store.task] at h
  split at h
  · rename_i q hq
    cases h
    exact hq
  · cases h

/-- A lease that was presented is the one of the task and has not expired. -/
theorem presents_ok {t : Task} {lease : Option Str} {now : ℚ} (h : t.presents lease now = .ok true) :
    t.lease ≠ none ∧ lease = t.lease ∧ now ≤ t.leaseUntil := by
  cases lease with
  | none => cases h
  | some l =>
      by_cases hl : l = []
      · rw [Task.presents, if_pos hl] at h
        cases h
      · rw [Task.presents, if_neg hl] at h
        obtain ⟨same, hsame, h⟩ := bind_eq_ok.1 h
        injection h with hval
        obtain ⟨rfl, hlate⟩ : same = true ∧ ¬t.leaseUntil < now := by simpa using hval
        have heq := compareDigest_true hsame
        cases hlease : t.lease with
        | none =>
            rw [hlease] at heq
            exact absurd heq hl
        | some l' =>
            rw [hlease] at heq
            exact ⟨nofun, congrArg some heq, not_lt.1 hlate⟩

end Store

end ResidualHarness.Station
