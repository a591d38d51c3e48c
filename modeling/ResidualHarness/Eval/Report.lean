import ResidualHarness.Eval.Runs
import ResidualHarness.Factory.StationIdentity
import ResidualHarness.ObservationLayer.Bus

/-!
# Recording, reporting and replay

`EvaluationRunEvidence`, `SignedComparisonReport` and `SpecEvaluationEvidence` of
`residual/eval/spec_eval.py`, and `signed_report_from_observations` of `residual/eval/replay.py`. The
observations go through the bus of the observation layer; the statistics are a parameter.
-/

set_option autoImplicit false

namespace ResidualHarness.Eval

open Python Core Factory ObservationLayer

variable [FloatModel] [FloatOps]

/-! ## Runs -/

/-- `SPEC_EVAL_SCHEMA`. -/
def specEvalSchema : Str := lit "residual.eval.spec001.v1"

/-- `REPORT_SCHEMA`. -/
def reportSchema : Str := lit "residual.eval.comparison-report.v1"

/-- `RUN_EVENT`. -/
def runEvent : Str := lit "SpecEvalRunMeasured"

/-- `REPORT_EVENT`. -/
def reportEvent : Str := lit "SpecEvalReportIssued"

/-- The fields of `EvaluationRunEvidence`. -/
structure RunEvidence where
  configuration : Str
  runIndex : Int
  workloadHash : Str
  evidenceMode : Str
  controls : ControlFields
  counters : CounterFields
  metrics : SystemMetrics
  costs : CostAnalysis
deriving DecidableEq

/-- The configurations that a report compares, in order. -/
def configurations : List Str := [lit "dynamic", lit "fixed", lit "single"]

/-- `EvaluationRunEvidence.__post_init__`. -/
def RunEvidence.postInit (r : RunEvidence) : Except PyExn Unit := do
  require (r.configuration ∈ configurations)
    (specEvalError "configuration must be single, fixed, or dynamic")
  require (0 ≤ r.runIndex) (specEvalError "run_index must be nonnegative")
  require (r.evidenceMode ∈ [lit "measured", lit "simulated"])
    (specEvalError "evidence_mode must be measured or simulated")
  require (isHash r.workloadHash = true) (specEvalError "invalid workload hash")

/-- `to_dict()`. -/
def RunEvidence.toDict (r : RunEvidence) : Fields :=
  [(lit "schema_version", .str specEvalSchema), (lit "configuration", .str r.configuration),
    (lit "run_index", .int r.runIndex), (lit "workload_hash", .str r.workloadHash),
    (lit "evidence_mode", .str r.evidenceMode), (lit "controls", .obj r.controls.toDict),
    (lit "counters", .obj r.counters.toDict), (lit "metrics", .obj r.metrics.toDict),
    (lit "costs", .obj r.costs.toDict)]

/-- `run_hash`. -/
def RunEvidence.runHash (r : RunEvidence) : Except PyExn Str := digest (.obj r.toDict)

/-- A value that is used as a dictionary, and the error where it is none. -/
def mapping (e : PyExn) : Json → Except PyExn Fields
  | .obj d => .ok d
  | _ => .error e

/-- `EvaluationRunEvidence.from_dict(data)`. -/
def RunEvidence.fromDict (v : Json) : Except PyExn RunEvidence := do
  let d ← mapping .attributeError v
  require (((d.get? (lit "schema_version")).getD .null).Same (.str specEvalSchema))
    (specEvalError "unsupported SPEC-EVAL run schema")
  let configuration ← d.get (lit "configuration")
  let runIndex ← intOf (← d.get (lit "run_index"))
  let workloadHash ← d.get (lit "workload_hash")
  let evidenceMode ← d.get (lit "evidence_mode")
  let controls ← ControlFields.fromDict (← mapping .typeError (← d.get (lit "controls")))
  let counters ← CounterFields.fromDict (← mapping .typeError (← d.get (lit "counters")))
  let metrics ← SystemMetrics.fromDict (← mapping .typeError (← d.get (lit "metrics")))
  let costs ← CostAnalysis.fromDict (← mapping .typeError (← d.get (lit "costs")))
  let r : RunEvidence := ⟨strOf configuration, runIndex, strOf workloadHash, strOf evidenceMode,
    controls, counters, metrics, costs⟩
  r.postInit
  return r

/-! ## The workload and the reports -/

/-- `_canonical`: sorted keys and no blanks, in ASCII. -/
def packedStyle : JsonStyle :=
  { asciiStyle with
    afterComma := []
    afterColon := []
    afterComma_space := canonicalStyle.afterComma_space
    afterColon_space := canonicalStyle.afterColon_space }

/-- `FrozenWorkload`, with the content hashes of its tasks. -/
structure FrozenWorkload where
  name : Str
  seed : Int
  taskHashes : List Str
  nonempty : taskHashes ≠ []

/-- The body of the manifest. -/
def FrozenWorkload.body (w : FrozenWorkload) : Fields :=
  [(lit "schema_version", .str (lit "residual.eval.frozen_workload.v1")), (lit "name", .str w.name),
    (lit "seed", .int w.seed), (lit "task_count", .int w.taskHashes.length),
    (lit "task_hashes", strings w.taskHashes)]

/-- `manifest_hash`, which `verify()` computes again. -/
def FrozenWorkload.manifestHash (w : FrozenWorkload) : Str :=
  sha256 (((Json.obj w.body).renderIn packedStyle).flatMap utf8Char)

/-- `manifest()`. -/
def FrozenWorkload.manifest (w : FrozenWorkload) : Fields :=
  w.body ++ [(lit "manifest_hash", Json.str w.manifestHash)]

/-- The statistics: `summary_stats` and `compare_samples(…).to_dict()`, which are dictionaries. -/
structure Statistics where
  summary : List FloatModel.F → Except PyExn Json
  compare : Str → Str → List FloatModel.F → Str → List FloatModel.F → Str → Num → Except PyExn Json
  summary_wf : ∀ xs v, summary xs = .ok v → v.wf = true
  compare_wf : ∀ name left xs right ys test alpha v,
    compare name left xs right ys test alpha = .ok v → v.wf = true

/-- `SignedComparisonReport`. -/
structure SignedComparisonReport where
  payload : Fields
  stationKeyId : Str
  stationSignature : Str

/-- `report_hash`. -/
def SignedComparisonReport.reportHash (r : SignedComparisonReport) : Except PyExn Str :=
  digest (.obj r.payload)

/-- `verify_signature(public_key)`: a text that is not hexadecimal is a `ValueError`, which is
caught. -/
def SignedComparisonReport.verifySignature (ed : Ed25519) (r : SignedComparisonReport)
    (publicKey : Bytes) : Bool :=
  decide (publicKey.length = 32) && decide (sha256 publicKey = r.stationKeyId) &&
    match fromHex r.stationSignature, r.reportHash with
    | some signature, .ok hash => ed.verifies publicKey signature (signedMessage hash)
    | _, _ => false

/-- The parameters of a report. -/
structure ReportParams where
  minimumRuns : Nat
  significanceTest : Str
  alpha : Num
  three_le : 3 ≤ minimumRuns

variable (stats : Statistics) (workload : FrozenWorkload) (params : ReportParams)

/-- `sorted(records, key=lambda run: (run.configuration, run.run_index))`. -/
def sortRuns (runs : List RunEvidence) : List RunEvidence :=
  runs.insertionSort fun r s =>
    r.configuration < s.configuration ∨ r.configuration = s.configuration ∧ r.runIndex ≤ s.runIndex

/-- `by_config[config]`. -/
def byConfig (records : List RunEvidence) (config : Str) : List RunEvidence :=
  records.filter fun r => decide (r.configuration = config)

/-- The names of the cost columns of a summary. -/
def costNames : List Str :=
  [lit "api_cost", lit "gpu_cost", lit "infrastructure_cost", lit "total_cost"]

/-- `METRIC_NAMES`. -/
def metricNames : List Str :=
  [lit "elapsed_time_minutes", lit "accepted_tasks_per_hour", lit "token_cost_total",
    lit "gpu_time_minutes", lit "coordination_overhead_pct", lit "rework_rate_pct",
    lit "merge_conflicts", lit "verifier_rejection_rate_pct", lit "final_test_pass_rate_pct"]

/-- `[float(getattr(record, name)) for record in group]` for the metrics or the costs. -/
def column (group : List RunEvidence) (dict : RunEvidence → Fields) (name : Str) :
    Except PyExn (List FloatModel.F) :=
  mapE (fun r => do floatOf (← (dict r).get name)) group

/-- `summary_stats` of a column. -/
def columnSummary (group : List RunEvidence) (dict : RunEvidence → Fields) (name : Str) :
    Except PyExn Json := do
  stats.summary (← column group dict name)

/-- The summary of one configuration. -/
def summaryOf (config : Str) (records : List RunEvidence) : Except PyExn Json := do
  let group := (byConfig records config).insertionSort fun r s => r.runIndex ≤ s.runIndex
  let accepted := (group.map fun r => r.counters.acceptedTasks).sum
  let total := FloatModel.sum (group.map fun r => r.costs.totalCost)
  let metrics ← mapE (fun name => do
    return (name, ← columnSummary stats group (fun r => r.metrics.toDict) name)) metricNames
  let costs ← mapE (fun name => do
    return (name, ← columnSummary stats group (fun r => r.costs.toDict) name)) costNames
  let perTask ← perAccepted total accepted
  return .obj
    [(lit "runs", .int group.length),
      (lit "evidence_modes", strings (sortedSet (group.map RunEvidence.evidenceMode))),
      (lit "metrics", .obj metrics), (lit "costs", .obj costs),
      (lit "aggregate_cost_per_accepted_task", optionalFloat perTask)]

/-- `itertools.combinations(sorted(by_config), 2)`. -/
def configurationPairs : List (Str × Str) :=
  [(lit "dynamic", lit "fixed"), (lit "dynamic", lit "single"), (lit "fixed", lit "single")]

/-- The comparisons of two configurations. -/
def comparisonsOf (records : List RunEvidence) (pair : Str × Str) : Except PyExn (List Json) :=
  mapE (fun name => do
    let left ← column (byConfig records pair.1) (fun r => r.metrics.toDict) name
    let right ← column (byConfig records pair.2) (fun r => r.metrics.toDict) name
    stats.compare name pair.1 left pair.2 right params.significanceTest params.alpha) metricNames

/-- The row of one run in the cost analysis. -/
def costRow (r : RunEvidence) : Json :=
  .obj ([(lit "configuration", Json.str r.configuration), (lit "run_index", .int r.runIndex)] ++
    r.costs.toDict)

/-- The definitions of the costs. -/
def costDefinitions : Fields :=
  [(lit "api_cost", .str (lit "tokens_used/1000 * api_cost_per_1k_tokens")),
    (lit "gpu_cost", .str (lit "gpu_seconds/3600 * gpu_cost_per_hour")),
    (lit "infrastructure_cost", .str (lit "configured per-run infrastructure cost")),
    (lit "cost_per_accepted_task", .str (lit "total cost / accepted tasks"))]

/-- The checks of `build_report`; the result is the first record. -/
def checkRecords (records : List RunEvidence) : Except PyExn RunEvidence :=
  match records with
  | [] => .error (specEvalError "no evaluation runs recorded")
  | first :: rest => do
      require (∀ r ∈ records, r.workloadHash = workload.manifestHash)
        (specEvalError "evaluation runs use different FrozenWorkloads")
      require ((∀ r ∈ records, r.configuration ∈ configurations) ∧
          ∀ c ∈ configurations, byConfig records c ≠ [])
        (specEvalError "SPEC-EVAL requires single, fixed, and dynamic configurations")
      require (∀ c ∈ configurations, params.minimumRuns ≤ (byConfig records c).length)
        (specEvalError "insufficient runs for one or more configurations")
      require (∀ c ∈ configurations, ((byConfig records c).map RunEvidence.runIndex).Nodup)
        (specEvalError "duplicate run index in configuration")
      require (∀ r ∈ rest, (Json.obj r.controls.toDict).Same (.obj first.controls.toDict))
        (specEvalError "model/engine/temperature/seed controls differ across runs")
      return first

/-- The payload of `build_report`, and the hashes of the runs in it. -/
def reportPayload (records : List RunEvidence) : Except PyExn (Fields × List Str) := do
  let first ← checkRecords workload params records
  let summaries ← mapE (fun c => do return (c, ← summaryOf stats c records)) configurations
  let comparisons ← mapE (comparisonsOf stats params records) configurationPairs
  let ordered := sortRuns records
  let hashes ← mapE RunEvidence.runHash ordered
  return ([(lit "schema_version", .str reportSchema), (lit "workload", .obj workload.manifest),
    (lit "minimum_runs", .int params.minimumRuns), (lit "run_count", .int records.length),
    (lit "controls", .obj first.controls.toDict), (lit "summaries", .obj summaries),
    (lit "comparisons", .arr comparisons.flatten),
    (lit "cost_analysis", .obj [(lit "definition", .obj costDefinitions),
      (lit "per_run", .arr (ordered.map costRow))]),
    (lit "run_hashes", strings hashes), (lit "observation_derivable", .bool true)], hashes)

/-- `build_report` up to the event: the report, its hash and the hashes of its runs. -/
def signReport (ed : Ed25519) (key : ed.PrivateKey) (records : List RunEvidence) :
    Except PyExn (SignedComparisonReport × Str × List Str) := do
  let (payload, hashes) ← reportPayload stats workload params records
  let reportHash ← digest (.obj payload)
  let signature ← StationIdentity.sign ed key reportHash
  return (⟨payload, StationIdentity.keyId ed key, signature⟩, reportHash, hashes)

/-! ## Recording -/

/-- What one `emit` of the bus draws and meets: an id, a time, a filter that drops the observation or
passes it on, and a sink that raises or not. -/
structure Emission where
  obsId : Str
  timeNs : Nat
  dropped : Bool
  sinkRaises : Bool

/-- `SpecEvaluationEvidence`: the bus, if there is one, and the recorded runs. -/
structure SpecEvaluationEvidence where
  bus : Option ObservationBus
  runs : List RunEvidence

/-- A dictionary as an argument of the bus; the keys of a Python dictionary are distinct. -/
def dictArg (d : Fields) : Arg := if h : (Json.obj d).wf = true then some ⟨.obj d, h⟩ else none

/-- The call of the bus in `_emit`. -/
def emitCall (payload : Fields) (m : Emission) : EmitCall where
  kind := .str ObservationKind.custom.value
  payload := dictArg payload
  tags := dictArg [(lit "component", .str (lit "spec-eval-001"))]
  source := .str (lit "residual.eval.spec_eval")
  obsId := m.obsId
  timeNs := m.timeNs
  filter := fun obs => if m.dropped then .dropped else .kept obs
  sinkRaises := m.sinkRaises

/-- `_emit(event, payload)`, with the event as the first field of the payload. -/
def SpecEvaluationEvidence.emit (e : SpecEvaluationEvidence) (payload : Fields) (m : Emission) :
    Except PyExn Unit × SpecEvaluationEvidence :=
  match e.bus with
  | none => (.ok (), e)
  | some b =>
      match b.emit (emitCall payload m) with
      | (.ok (some _), b) => (.ok (), { e with bus := some b })
      | (_, b) => (.error (specEvalError "observation delivery failed"), { e with bus := some b })

/-- The arguments of `record_run` and what its `emit` meets. Where the call gives no rates they are
those of `CostRates()`. -/
structure RecordCall where
  configuration : Str
  runIndex : Int
  counters : RunCounters
  controls : ExecutionControls
  rates : CostRates
  evidenceMode : Str
  emission : Emission

/-- The run that `record_run` builds. -/
def RecordCall.evidence (c : RecordCall) : Except PyExn RunEvidence := do
  let metrics ← SystemMetrics.fromCounters c.counters.toCounterFields
  let costs ← CostAnalysis.calculate c.counters.toCounterFields c.rates
  let run : RunEvidence := ⟨c.configuration, c.runIndex, workload.manifestHash, c.evidenceMode,
    c.controls.toControlFields, c.counters.toCounterFields, metrics, costs⟩
  run.postInit
  return run

/-- The payload of a run event. -/
def runPayload (run : RunEvidence) (runHash : Str) : Fields :=
  [(lit "event", .str runEvent), (lit "run", .obj run.toDict), (lit "run_hash", .str runHash)]

/-- The call has the configuration and the index of a recorded run. -/
def SpecEvaluationEvidence.Recorded (e : SpecEvaluationEvidence) (c : RecordCall) : Prop :=
  ∃ r ∈ e.runs, r.configuration = c.configuration ∧ r.runIndex = c.runIndex

instance (e : SpecEvaluationEvidence) (c : RecordCall) : Decidable (e.Recorded c) :=
  inferInstanceAs (Decidable (∃ r ∈ e.runs, _))

/-- `record_run(…)`: the run is recorded before its observation is emitted. -/
def SpecEvaluationEvidence.recordRun (e : SpecEvaluationEvidence) (c : RecordCall) :
    Except PyExn RunEvidence × SpecEvaluationEvidence :=
  if e.Recorded c then (.error (specEvalError "duplicate configuration/run_index"), e)
  else
    match c.evidence workload with
    | .error err => (.error err, e)
    | .ok run =>
        let e : SpecEvaluationEvidence := { e with runs := e.runs ++ [run] }
        match run.runHash with
        | .error err => (.error err, e)
        | .ok runHash =>
            match e.emit (runPayload run runHash) c.emission with
            | (.ok (), e) => (.ok run, e)
            | (.error err, e) => (.error err, e)

/-- The payload of a report event. -/
def reportEventPayload (report : SignedComparisonReport) (reportHash : Str) (hashes : List Str) :
    Fields :=
  [(lit "event", .str reportEvent), (lit "report_hash", .str reportHash),
    (lit "station_key_id", .str report.stationKeyId),
    (lit "station_signature", .str report.stationSignature),
    (lit "source_run_hashes", strings hashes),
    (lit "significance_test", .str params.significanceTest), (lit "alpha", params.alpha.json)]

/-- `build_report(significance_test=…, alpha=…)`. -/
def SpecEvaluationEvidence.buildReport (e : SpecEvaluationEvidence) (ed : Ed25519)
    (key : ed.PrivateKey) (m : Emission) : Except PyExn SignedComparisonReport × SpecEvaluationEvidence :=
  match signReport stats workload params ed key e.runs with
  | .error err => (.error err, e)
  | .ok (report, reportHash, hashes) =>
      match e.emit (reportEventPayload params report reportHash hashes) m with
      | (.ok (), e) => (.ok report, e)
      | (.error err, e) => (.error err, e)

/-- A new `SpecEvaluationEvidence`. -/
def SpecEvaluationEvidence.new (bus : Option ObservationBus) : SpecEvaluationEvidence := ⟨bus, []⟩

/-- The evidence after a sequence of `record_run` calls. -/
def SpecEvaluationEvidence.run (e : SpecEvaluationEvidence) (calls : List RecordCall) :
    SpecEvaluationEvidence :=
  calls.foldl (fun e c => (e.recordRun workload c).2) e

/-- The observations that were delivered. -/
def SpecEvaluationEvidence.observations (e : SpecEvaluationEvidence) : List Observation :=
  (e.bus.map ObservationBus.stored).getD []

/-! ## Replay -/

/-- `payload.get("event") == event`. -/
def isEvent (event : Str) (payload : Fields) : Bool :=
  decide (((payload.get? (lit "event")).getD .null).Same (.str event))

/-- The run of a run event. -/
def runOf (payload : Fields) : Except PyExn RunEvidence := do
  let run ← RunEvidence.fromDict (← payload.get (lit "run"))
  let runHash ← run.runHash
  require (((payload.get? (lit "run_hash")).getD .null).Same (.str runHash))
    (specEvalError "observation run hash mismatch")
  return run

/-- The loop over the observations: the runs, and the payload of the last report event. The second
reader refuses a second one. -/
def replayLoop (unique : Bool) : List RunEvidence → Option Fields → List Fields →
    Except PyExn (List RunEvidence × Option Fields)
  | runs, terminal, [] => .ok (runs, terminal)
  | runs, terminal, payload :: rest =>
      if isEvent runEvent payload then do
        let run ← runOf payload
        replayLoop unique (runs ++ [run]) terminal rest
      else if isEvent reportEvent payload then
        if unique = true ∧ terminal.isSome = true then
          .error (specEvalError "multiple terminal evaluation report observations")
        else replayLoop unique runs (some payload) rest
      else replayLoop unique runs terminal rest

/-- The field of a payload, `None` if it is missing. -/
def optField (payload : Fields) (key : String) : Json := (payload.get? (lit key)).getD .null

/-- `SpecEvaluationEvidence.report_from_observations(…)`. -/
def reportFromObservations (ed : Ed25519) (key : ed.PrivateKey) (observations : List Observation) :
    Except PyExn SignedComparisonReport := do
  let (runs, terminal) ← replayLoop false [] none (observations.map Observation.payload)
  let (rebuilt, reportHash, hashes) ← signReport stats workload params ed key runs
  match terminal with
  | none => return rebuilt
  | some payload =>
      require ((optField payload "report_hash").Same (.str reportHash))
        (specEvalError "terminal observation report hash mismatch")
      require ((optField payload "source_run_hashes").Same (strings hashes))
        (specEvalError "terminal observation run binding mismatch")
      return rebuilt

/-- A text of the terminal observation. -/
def terminalText : Json → Except PyExn Str
  | .str s => .ok s
  | _ => .error (specEvalError "terminal observation lacks Station signature metadata")

/-- `signed_report_from_observations(…)`, with the key that `StationIdentity.generate()` draws. -/
def signedReportFromObservations (ed : Ed25519) (temporary : ed.PrivateKey)
    (observations : List Observation) : Except PyExn SignedComparisonReport := do
  let (runs, terminal) ← replayLoop true [] none (observations.map Observation.payload)
  match terminal with
  | none => throw (specEvalError "evaluation trace has no terminal report observation")
  | some payload =>
      let (candidate, reportHash, hashes) ← signReport stats workload params ed temporary runs
      require ((optField payload "report_hash").Same (.str reportHash))
        (specEvalError "terminal observation report hash mismatch")
      let source ← elementsOf (optField payload "source_run_hashes")
      require ((Json.arr source).Same (strings hashes))
        (specEvalError "terminal observation run binding mismatch")
      let keyId ← terminalText (optField payload "station_key_id")
      let signature ← terminalText (optField payload "station_signature")
      return ⟨candidate.payload, keyId, signature⟩

end ResidualHarness.Eval
