import ResidualHarness.Study.Protocol

/-!
# Running a study

`residual/study.py`: `StudyBudget`, `MeteredProvider` and the loop of `run_study`. The state is the
output directory with the counters that the process keeps in memory, and every append or file write is
a point of the run at which the process may be killed. What the harness does in a run is a behaviour:
its calls, in order, with the answer of the provider, and how the run ends. A journal is the list of the
objects that were appended; its file has one line for each.
-/

set_option autoImplicit false

namespace ResidualHarness.Study

open Python Core Engine

variable [FloatModel]

/-! ## Journals -/

/-- The entry of the schedule as a dictionary. -/
def Job.dict (j : Job) : Fields :=
  [(lit "run_id", .str j.runId), (lit "case_id", .str j.caseId), (lit "family", .str j.family),
    (lit "repeat", .int j.round), (lit "mode", .str j.mode)]

/-- What a reservation records of a call. -/
structure Reservation where
  callId : Nat
  runId : Str
  role : Role
  provider : Str
  placement : Placement
  requestBytes : Nat

/-- What the end of a call adds. -/
structure Completion where
  usage : Option Usage
  costUsd : Option FloatModel.F
  failed : Bool
  elapsedMs : FloatModel.F

/-- An object of `calls.jsonl`: a reservation, or a call that ended. -/
structure CallLine where
  call : Reservation
  completion : Option Completion

/-- The fields of a call that both of its lines have. -/
def Reservation.dict (r : Reservation) : Fields :=
  [(lit "call_id", .int r.callId), (lit "run_id", .str r.runId), (lit "role", .str r.role.text),
    (lit "provider", .str r.provider), (lit "placement", .str r.placement.text),
    (lit "request_bytes", .int r.requestBytes)]

/-- A cost, or `None`. -/
def optionalFloat : Option FloatModel.F → Json
  | some f => .float f
  | none => .null

/-- The fields that the end of a call adds. -/
def Completion.dict (c : Completion) : Fields :=
  [(lit "cost_usd", optionalFloat c.costUsd),
    (lit "usage", match c.usage with | some u => u.asDict | none => .null),
    (lit "error", if c.failed = true then .str (lit "provider_call_failed") else .null),
    (lit "elapsed_ms", .float c.elapsedMs)]

/-- The dictionary of a line of `calls.jsonl`. -/
def CallLine.dict (l : CallLine) : Fields :=
  match l.completion with
  | none => (lit "event", .str (lit "reserved")) :: l.call.dict
  | some c => (lit "event", .str (lit "finished")) :: l.call.dict ++ c.dict

/-- The status of a recorded run. -/
inductive Status where
  | completed
  | error
  | notRunBudget
deriving DecidableEq

/-- The text of a status. -/
def Status.text : Status → Str
  | .completed => lit "completed"
  | .error => lit "error"
  | .notRunBudget => lit "not_run_budget"

/-- What grading adds to the row of a run. -/
structure Graded where
  passed : Bool
  gradingMs : FloatModel.F
  metrics : Json
  resultSha256 : Str

/-- What the end of a run adds to its row. -/
structure Measured where
  failed : Bool
  elapsedMs : FloatModel.F
  budgetExhausted : Bool
  transportCalls : Nat

/-- An object of `runs.jsonl`. -/
structure Row where
  job : Job
  status : Status
  controllerSuccess : Bool
  success : Bool
  graded : Option Graded
  measured : Option Measured

/-- `grade(...)`'s verdict. -/
def verdictDict (passed : Bool) : Json :=
  .obj [(lit "pass", .bool passed),
    (lit "code", .str (if passed = true then lit "independent_pass" else lit "independent_fail"))]

/-- The fields that grading adds. -/
def Graded.dict (g : Graded) : Fields :=
  [(lit "grade", verdictDict g.passed), (lit "grading_elapsed_ms", .float g.gradingMs),
    (lit "metrics", g.metrics), (lit "result_sha256", .str g.resultSha256)]

/-- The fields that the end of a run adds. -/
def Measured.dict (m : Measured) : Fields :=
  (if m.failed = true then [(lit "error", Json.str (lit "run_or_grader_failed"))] else []) ++
    [(lit "elapsed_ms", Json.float m.elapsedMs), (lit "budget_exhausted", .bool m.budgetExhausted),
      (lit "transport_calls", .int m.transportCalls)]

/-- The outcome fields of a row. -/
def Row.outcome (r : Row) : Fields :=
  [(lit "status", .str r.status.text), (lit "controller_success", .bool r.controllerSuccess),
    (lit "success", .bool r.success)]

/-- The dictionary of a line of `runs.jsonl`. -/
def Row.dict (r : Row) : Fields :=
  r.job.dict ++ (r.outcome ++ ((match r.graded with | some g => g.dict | none => []) ++
    match r.measured with | some m => m.dict | none => []))

/-- The output directory. A file that `write_json` wrote is kept as its value, and `none` is a result
file that is no JSON. -/
structure Directory where
  protocol : Fields
  schedule : List Fields
  lifecycle : List Fields
  runs : List Row
  calls : List CallLine
  results : Dict Str (Option Json)
  traces : Dict Str Str

/-! ## Budget -/

/-- `StudyBudget`. -/
structure Budget where
  maxCalls : Nat
  maxRemoteBytes : Nat
  calls : Nat
  remoteBytes : Nat
  exhausted : Bool

/-- `StudyBudget(max_calls, max_remote_bytes, journal)`. -/
def Budget.new (maxCalls maxRemoteBytes : Nat) : Budget := ⟨maxCalls, maxRemoteBytes, 0, 0, false⟩

/-- The directory, the budget and the number of records of the two providers of the current run. -/
structure World where
  dir : Directory
  budget : Budget
  records : Nat

/-- What ends a call or a run early: an `Exception`, or another exception that nothing here
catches. -/
inductive Raised where
  | exception (e : PyExn)
  | interrupt

abbrev Step (α : Type) := Prog World Raised α

/-- The text that `append_json` writes can be produced. -/
def serialised (d : Fields) : Except Raised Unit :=
  match digest (.obj d) with
  | .ok _ => .ok ()
  | .error e => .error (.exception e)

/-- `append_json(calls, line)`. -/
def appendCall (line : CallLine) : Step Unit := do
  Prog.eval (serialised line.dict)
  Prog.write fun w => { w with dir := { w.dir with calls := w.dir.calls ++ [line] } }

/-- `append_json(runs, row)`. -/
def appendRun (row : Row) : Step Unit := do
  Prog.eval (serialised row.dict)
  Prog.write fun w => { w with dir := { w.dir with runs := w.dir.runs ++ [row] } }

/-- `append_json(lifecycle, event)`. -/
def appendLifecycle (event : Fields) : Step Unit := do
  Prog.eval (serialised event)
  Prog.write fun w => { w with dir := { w.dir with lifecycle := w.dir.lifecycle ++ [event] } }

/-- A configured provider. -/
structure Tier where
  name : Str
  placement : Placement
  prices : Option Prices

/-- The bytes of a request that count as remote. -/
def remoteBytesOf (placement : Placement) (size : Nat) : Nat :=
  if placement = .remote then size else 0

/-- A reservation of this many bytes is refused. -/
def Budget.refuses (b : Budget) (remote : Nat) : Prop :=
  b.exhausted = true ∨ b.maxCalls ≤ b.calls ∨ b.maxRemoteBytes < b.remoteBytes + remote

instance (b : Budget) (remote : Nat) : Decidable (b.refuses remote) :=
  inferInstanceAs (Decidable (_ ∨ _ ∨ _))

/-- `budget.reserve(run_id, role, provider, size)`. -/
def reserve (runId : Str) (role : Role) (tier : Tier) (size : Nat) : Step Reservation := do
  let w ← Prog.read
  let remote := remoteBytesOf tier.placement size
  if w.budget.refuses remote then
    Prog.write fun w => { w with budget := { w.budget with exhausted := true } }
    Prog.raise (.exception (.userError "ProviderError" "study_budget_exhausted"))
  else
    Prog.write fun w => { w with budget := { w.budget with
      calls := w.budget.calls + 1, remoteBytes := w.budget.remoteBytes + remote } }
    let call : Reservation := ⟨w.budget.calls + 1, runId, role, tier.name, tier.placement, size⟩
    appendCall ⟨call, none⟩
    return call

/-! ## Runs -/

/-- What the provider does: a reply with its usage, an exception or a value that is no reply, or an
exception that is no `Exception`. -/
inductive Answer where
  | reply (usage : Usage)
  | failure
  | interrupt

/-- A call that the harness makes of a provider. -/
structure Attempt where
  role : Role
  size : Nat
  answer : Answer
  elapsedMs : FloatModel.F

/-- `self.prices.cost(usage) if self.prices else (0.0 if placement == "local" else None)`. -/
def Tier.cost (t : Tier) (u : Usage) : Except PyExn (Option FloatModel.F) :=
  match t.prices with
  | some prices => prices.cost u
  | none => .ok (if t.placement = .onHost then some (FloatModel.ofLiteral (lit "0.0")) else none)

/-- The record of the call when `finally` appends it, and what the call raises. -/
def Attempt.finish (a : Attempt) (t : Tier) : Completion × Option Raised :=
  match a.answer with
  | .reply usage =>
      match t.cost usage with
      | .ok cost => (⟨some usage, cost, false, a.elapsedMs⟩, none)
      | .error e => (⟨some usage, none, true, a.elapsedMs⟩, some (.exception e))
  | .failure =>
      (⟨none, none, true, a.elapsedMs⟩, some (.exception (.userError "ProviderError" "invalid_reply")))
  | .interrupt => (⟨none, none, false, a.elapsedMs⟩, some .interrupt)

/-- `MeteredProvider.generate(packet, max_output_tokens)`. -/
def generate (runId : Str) (t : Tier) (a : Attempt) : Step Unit := do
  let call ← reserve runId a.role t a.size
  Prog.write fun w => { w with records := w.records + 1 }
  appendCall ⟨call, some (a.finish t).1⟩
  match (a.finish t).2 with
  | some e => Prog.raise e
  | none => pure ()

/-- What writing a file did: a failed write may leave something. -/
inductive Landing (α : Type) where
  | written
  | failed (left : Option α)

/-- The files after the write of one. -/
def Landing.place {α : Type} (l : Landing α) (name : Str) (content : α) (files : Dict Str α) :
    Dict Str α :=
  match l with
  | .written => files.set name content
  | .failed none => files
  | .failed (some left) => files.set name left

/-- Writing a file raises. -/
def Landing.raised {α : Type} : Landing α → Except Raised Unit
  | .written => .ok ()
  | .failed _ => .error (.exception (.runtimeError "OSError" ""))

/-- A run of the harness that reaches its result: the result before the trace is bound to it, the
ledger before its last event, the verdict of the grader, and the writes of the two files. -/
structure Returned where
  body : Fields
  success : Bool
  metrics : Json
  ledger : Ledger
  entries : List Entry
  finishedAt : Int
  passed : Bool
  gradingMs : FloatModel.F
  resultWrite : Landing (Option Json)
  traceWrite : Landing Str
  wf : (Json.obj body).wf = true
  success_eq : body.get? (lit "success") = some (.bool success)
  metrics_eq : body.get? (lit "metrics") = some metrics
  metrics_safe : metrics.allStr lineSafe = true
  unbound : lit "trace_root" ∉ body.map Prod.fst
  represents : ledger.Represents entries
  started : ∃ e, entries.head? = some e ∧ e.kind = lit "run_started"

/-- The last lines of `harness.run(task)`: the ledger and the result. -/
def Returned.bind (r : Returned) : Except PyExn (Ledger × Fields) := do
  let sha ← digest (.obj r.body)
  let ledger ← r.ledger.add (lit "run_finished") r.finishedAt
    [(lit "result_sha256", .str sha), (lit "success", .bool r.success)]
  return (ledger, r.body ++ [(lit "trace_root", Json.str ledger.head)])

/-- How a run ends. -/
inductive Ending where
  | raised
  | interrupted
  | returned (r : Returned)

/-- What the harness does in a run. -/
structure Behaviour where
  attempts : List Attempt
  ending : Ending
  elapsedMs : FloatModel.F

/-- The providers by role. -/
abbrev Tiers := Role → Tier

/-- The calls of a run; the harness goes on after an `Exception`. -/
def dispatch (runId : Str) (tiers : Tiers) (a : Attempt) : Step Unit := do
  match ← Prog.attempt (generate runId (tiers a.role) a) with
  | .error .interrupt => Prog.raise .interrupt
  | _ => pure ()

/-- An expression of a run that may raise an `Exception`. -/
def checked {α : Type} (x : Except PyExn α) : Step α :=
  Prog.eval (match x with | .ok a => .ok a | .error e => .error (.exception e))

/-- The row of a run that was graded. -/
def gradedRow (job : Job) (r : Returned) (sha : Str) : Row where
  job := job
  status := .completed
  controllerSuccess := r.success
  success := r.success && r.passed
  graded := some ⟨r.passed, r.gradingMs, r.metrics, sha⟩
  measured := none

/-- The `try` of a run up to the update of the row: the row, and the files to be written. -/
def attemptRun (job : Job) (tiers : Tiers) (b : Behaviour) :
    Step (Row × Fields × Ledger × Returned) := do
  Prog.each b.attempts (dispatch job.runId tiers)
  match b.ending with
  | .raised => Prog.raise (.exception (.runtimeError "Exception" ""))
  | .interrupted => Prog.raise .interrupt
  | .returned r =>
      let (ledger, result) ← checked r.bind
      let sha ← checked (digest (.obj result))
      return (gradedRow job r sha, result, ledger, r)

/-- The files of a run. -/
def writeFiles (job : Job) (result : Fields) (ledger : Ledger) (r : Returned) : Step Unit := do
  Prog.write fun w => { w with dir := { w.dir with
    results := r.resultWrite.place job.runId (some (.obj result)) w.dir.results } }
  Prog.eval r.resultWrite.raised
  let text ← checked ledger.write
  Prog.write fun w => { w with dir := { w.dir with
    traces := r.traceWrite.place job.runId text w.dir.traces } }
  Prog.eval r.traceWrite.raised

/-- The row of a run before its `try`. -/
def openRow (job : Job) (status : Status) : Row := ⟨job, status, false, false, none, none⟩

/-- The `try` of a run: its row, and whether it raised an `Exception`. -/
def tryRun (job : Job) (tiers : Tiers) (b : Behaviour) : Step (Row × Bool) := do
  match ← Prog.attempt (attemptRun job tiers b) with
  | .error .interrupt => Prog.raise .interrupt
  | .error (.exception _) => return (openRow job .error, true)
  | .ok (row, result, ledger, r) =>
      match ← Prog.attempt (writeFiles job result ledger r) with
      | .error .interrupt => Prog.raise .interrupt
      | .error (.exception _) => return (row, true)
      | .ok _ => return (row, false)

/-- The row with what the end of the run adds. -/
def Row.measure (r : Row) (m : Measured) : Row := { r with measured := some m }

/-- The event that opens a run. -/
def startedEvent (job : Job) : Fields := (lit "event", .str (lit "run_started")) :: job.dict

/-- The event that closes a run. -/
def finishedEvent (job : Job) : Fields :=
  [(lit "event", .str (lit "run_finished")), (lit "run_id", .str job.runId)]

/-- One iteration of the loop of `run_study`. -/
def runJob (tiers : Tiers) (behaviour : Job → Behaviour) (job : Job) : Step Unit := do
  let w ← Prog.read
  if w.budget.exhausted = true then appendRun (openRow job .notRunBudget)
  else
    Prog.write fun w => { w with records := 0 }
    appendLifecycle (startedEvent job)
    let (row, failed) ← tryRun job tiers (behaviour job)
    let w ← Prog.read
    appendRun (row.measure ⟨failed, (behaviour job).elapsedMs, w.budget.exhausted, w.records⟩)
    appendLifecycle (finishedEvent job)

/-- The loop of `run_study`. -/
def runJobs (tiers : Tiers) (behaviour : Job → Behaviour) (jobs : List Job) : Step Unit :=
  Prog.each jobs (runJob tiers behaviour)

end ResidualHarness.Study
