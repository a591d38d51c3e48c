import ResidualHarness.Study.Run

/-!
# The report of a study

`residual/study.py`: `read_jsonl`, `summarize_rows` and `report_study`, which reads the output
directory back and checks every file against the others. Of the summary of a mode, the counts of runs,
calls and bytes are kept; the columns of time, cost and token usage are left out.
-/

set_option autoImplicit false

namespace ResidualHarness.Study

open Python Core Engine

variable [FloatModel]

/-! ## Reading -/

/-- A string. -/
def asText : Json → Except PyExn Str
  | .str s => .ok s
  | _ => .error .typeError

/-- A list. -/
def asList : Json → Except PyExn (List Json)
  | .arr xs => .ok xs
  | _ => .error .typeError

/-- An integer. -/
def asInteger : Json → Except PyExn Int
  | .int i => .ok i
  | _ => .error .typeError

/-- A term of a sum. -/
def asTerm : Json → Except PyExn Int
  | .int i => .ok i
  | .bool b => .ok (if b then 1 else 0)
  | _ => .error .typeError

/-- A line of a journal; only objects are used. -/
def readLine (line : Str) : Except PyExn Fields :=
  match strictJson line with
  | .ok (.obj d) => .ok d
  | .ok _ => .error .typeError
  | .error e => .error e

/-- `read_jsonl(path)` on the text of the file. -/
def readJsonl (text : Str) : Except PyExn (List Fields) :=
  mapE readLine ((splitLines false (universalNewlines text)).filter fun line => !isBlank line)

/-- `case["id"]` and `case["family"]`. -/
def Case.read (entry : Json) : Except PyExn Case := do
  return ⟨← asText (← entry.item (lit "id")), ← asText (← entry.item (lit "family"))⟩

/-- What `schedule(protocol)` reads of a protocol. -/
def Plan.read (p : Fields) : Except PyExn Plan := do
  let seed ← asInteger (← p.get (lit "seed"))
  let repeats ← asInteger (← p.get (lit "repeats"))
  let cases ← mapE Case.read (← asList (← p.get (lit "cases")))
  let modes ← mapE asText (← asList (← p.get (lit "modes")))
  return ⟨seed, repeats.toNat, cases, modes⟩

/-- The protocol of the directory, after the checks of its digest and of the schedule. -/
def readPlan (s : Shuffler) (d : Directory) : Except PyExn Plan := do
  let sha ← d.protocol.get (lit "sha256")
  let actual ← digest (.obj (d.protocol.filter fun kv => kv.1 ≠ lit "sha256"))
  require (sha.Same (.str actual)) (contractError "report protocol digest mismatch")
  let plan ← Plan.read d.protocol
  require ((Json.arr (d.schedule.map .obj)).Same (.arr ((plan.jobs s).map fun j => .obj j.dict)))
    (contractError "schedule differs from frozen protocol")
  return plan

/-- An entry of `{j["run_id"]: j for j in jobs}`. -/
def jobEntry (job : Fields) : Except PyExn (Str × Fields) := do
  return (← asText (← job.get (lit "run_id")), job)

/-! ## Runs -/

/-- `row[key]` is the value of the field. -/
def fieldKept (row : Fields) (e : PyExn) (field : Str × Json) : Except PyExn Unit := do
  let v ← row.get field.1
  require (v.Same field.2) e

/-- `result.json` of a run. -/
def readResult (d : Directory) (id : Str) : Except PyExn Fields :=
  match d.results.get? id with
  | none => .error (.runtimeError "FileNotFoundError" "")
  | some none => .error (.valueError "invalid JSON")
  | some (some (.obj value)) => .ok value
  | some (some _) => .error .typeError

/-- `trace.jsonl` of a run. -/
def readTrace (d : Directory) (id : Str) : Except PyExn Str :=
  match d.traces.get? id with
  | none => .error (.runtimeError "FileNotFoundError" "")
  | some text => .ok text

/-- `bool(row["controller_success"] and row["grade"]["pass"])`. -/
def outcomeOf (row : Fields) : Except PyExn Bool := do
  let controller ← row.get (lit "controller_success")
  if controller.truthy = true then
    let grade ← row.get (lit "grade")
    return (← grade.item (lit "pass")).truthy
  else return false

/-- The last event of a trace. -/
def terminalOf (text : Str) : Except PyExn Fields := do
  match (← readJsonl text).getLast? with
  | some event => return event
  | none => throw (.runtimeError "IndexError" "")

/-- The checks on the files of a completed run. -/
def checkResult (d : Directory) (id : Str) (row : Fields) : Except PyExn Unit := do
  let value ← readResult d id
  let sha ← digest (.obj value)
  let expected ← row.get (lit "result_sha256")
  require ((Json.str sha).Same expected) (contractError "run result differs from receipt")
  let success ← value.get (lit "success")
  let controller ← row.get (lit "controller_success")
  require (success.Same controller) (contractError "run result differs from receipt")
  let outcome ← outcomeOf row
  let success ← row.get (lit "success")
  require (success.Same (.bool outcome)) (contractError "independent outcome differs from receipt")
  let text ← readTrace d id
  let trace ← verifyLedger text none
  let terminal ← terminalOf text
  let unbound := contractError "run trace does not bind result"
  let root ← value.get (lit "trace_root")
  require (trace.root.Same root) unbound
  let data ← terminal.get (lit "data")
  let bound ← data.item (lit "result_sha256")
  let sha ← digest (.obj (value.filter fun kv => kv.1 ≠ lit "trace_root"))
  require (bound.Same (.str sha)) unbound

/-- The files of a run are checked if its row says that it was completed. -/
def checkCompleted (d : Directory) (id : Str) (row : Fields) : Except PyExn Unit := do
  let status ← row.get (lit "status")
  if status.Same (.str Status.completed.text) then checkResult d id row else return ()

/-- One iteration of the loop over `runs.jsonl`. -/
def checkRow (d : Directory) (expected byId : Dict Str Fields) (row : Fields) :
    Except PyExn (Dict Str Fields) := do
  let mismatch := contractError "duplicate or mismatched run receipt"
  let id ← asText (← row.get (lit "run_id"))
  require (byId.get? id = none) mismatch
  let job ← match expected.get? id with
    | some job => pure job
    | none => throw mismatch
  let _ ← mapE (fieldKept row mismatch) job
  checkCompleted d id row
  return byId.set id row

/-- The loop over `runs.jsonl`. -/
def checkRows (d : Directory) (expected : Dict Str Fields) :
    Dict Str Fields → List Fields → Except PyExn (Dict Str Fields)
  | byId, [] => .ok byId
  | byId, row :: rows => do checkRows d expected (← checkRow d expected byId row) rows

/-- The row of an entry of the schedule. -/
def rowOf (byId : Dict Str Fields) (entry : Str × Fields) : Fields :=
  match byId.get? entry.1 with
  | some row => row
  | none => entry.2 ++ [(lit "status", .str (lit "not_recorded")),
      (lit "controller_success", .bool false), (lit "success", .bool false)]

/-! ## Calls -/

/-- The reservations and the ends of calls, by call. -/
structure CallBook where
  reserved : Dict Int Fields
  finished : Dict Int Fields

/-- One iteration of the loop over `calls.jsonl`. -/
def checkCall (expected : Dict Str Fields) (book : CallBook) (call : Fields) :
    Except PyExn CallBook := do
  let invalid := contractError "invalid call journal"
  let event ← call.get (lit "event")
  let id ← asInteger (← call.get (lit "call_id"))
  let runId ← asText (← call.get (lit "run_id"))
  require (expected.get? runId ≠ none) invalid
  if event.Same (.str (lit "reserved")) then
    require (book.reserved.get? id = none) invalid
    return { book with reserved := book.reserved.set id call }
  else
    require (event.Same (.str (lit "finished")) ∧ book.finished.get? id = none) invalid
    return { book with finished := book.finished.set id call }

/-- The loop over `calls.jsonl`. -/
def checkCalls (expected : Dict Str Fields) : CallBook → List Fields → Except PyExn CallBook
  | book, [] => .ok book
  | book, call :: calls => do checkCalls expected (← checkCall expected book call) calls

/-- The record of a reserved call. -/
def mergeCall (finished : Dict Int Fields) (entry : Int × Fields) : Except PyExn Fields :=
  match finished.get? entry.1 with
  | some completion => do
      let _ ← mapE (fieldKept completion (contractError "call reservation mismatch"))
        (entry.2.filter fun kv => kv.1 ≠ lit "event")
      return completion
  | none => return entry.2 ++ [(lit "usage", .null), (lit "cost_usd", .null),
      (lit "error", .str (lit "completion_missing"))]

/-- The check of the number of calls of a recorded run. -/
def checkTransport (calls : List Fields) (row : Fields) : Except PyExn Unit := do
  let id ← row.get (lit "run_id")
  let ids ← mapE (fun c => Fields.get c (lit "run_id")) calls
  require ((Json.int (ids.countP fun i => decide (i.Same id))).Same
      ((row.get? (lit "transport_calls")).getD (.int 0)))
    (contractError "call journal is incomplete for a recorded run")

/-! ## Report -/

/-- The counts of a mode. -/
structure ModeSummary where
  mode : Str
  scheduled : Nat
  completed : Nat
  successful : Int
  controllerSuccessful : Int
  falseAcceptances : Nat
  complete : Bool
  calls : Nat
  remoteRequestBytes : Int

/-- `sum(r[key] for r in rows)`. -/
def total (key : Str) (rows : List Fields) : Except PyExn Int := do
  return (← mapE (fun r => do asTerm (← Fields.get r key)) rows).sum

/-- The runs whose field has a value. -/
def withField (key : Str) (value : Json) (rows : List Fields) : Except PyExn (List Fields) :=
  filterE (fun r => do return decide ((← Fields.get r key).Same value)) rows

/-- The counts of `summarize_rows` for a mode. -/
def summarizeMode (rows calls : List Fields) (mode : Str) : Except PyExn ModeSummary := do
  let group ← withField (lit "mode") (.str mode) rows
  let ids ← mapE (fun r => Fields.get r (lit "run_id")) group
  let used ← filterE (fun c => do
    let id ← Fields.get c (lit "run_id")
    return ids.any fun i => decide (id.Same i)) calls
  let successful ← total (lit "success") group
  let done ← withField (lit "status") (.str Status.completed.text) group
  let within := done.filter fun r => !((r.get? (lit "budget_exhausted")).getD .null).truthy
  let controllers ← total (lit "controller_success") group
  let accepted ← filterE (fun r => do
    return (← Fields.get r (lit "controller_success")).truthy &&
      !(← Fields.get r (lit "success")).truthy) group
  let remote ← withField (lit "placement") (.str Placement.remote.text) used
  let bytes ← total (lit "request_bytes") remote
  -- the success rate divides by the number of runs
  require (group ≠ []) (.runtimeError "ZeroDivisionError" "")
  return { mode, scheduled := group.length, completed := done.length, successful
           controllerSuccessful := controllers, falseAcceptances := accepted.length
           complete := decide (within.length = group.length), calls := used.length
           remoteRequestBytes := bytes }

/-- The counts of the report. -/
structure Report where
  comparisonComplete : Bool
  scheduledRuns : Nat
  recordedRuns : Nat
  reservedCalls : Nat
  missingCallCompletions : Int
  summary : List ModeSummary
  runs : List Fields

/-- `report_study(output)`. -/
def reportStudy (s : Shuffler) (d : Directory) : Except PyExn Report := do
  let plan ← readPlan s d
  let jobs ← mapE jobEntry d.schedule
  let expected := Dict.ofPairs jobs
  let records ← readJsonl (jsonLines (d.runs.map Row.dict))
  let byId ← checkRows d expected [] records
  let rows := jobs.map (rowOf byId)
  let lines ← readJsonl (jsonLines (d.calls.map CallLine.dict))
  let book ← checkCalls expected ⟨[], []⟩ lines
  require (∀ id ∈ book.finished.keys, id ∈ book.reserved.keys)
    (contractError "unreserved finished call")
  let calls ← mapE (mergeCall book.finished) book.reserved
  let _ ← mapE (checkTransport calls) records
  let summary ← mapE (summarizeMode rows calls) plan.modes
  return { comparisonComplete := summary.all ModeSummary.complete &&
             decide (book.reserved.length = book.finished.length)
           scheduledRuns := jobs.length, recordedRuns := records.length
           reservedCalls := calls.length
           missingCallCompletions := book.reserved.length - book.finished.length
           summary, runs := rows }

end ResidualHarness.Study
