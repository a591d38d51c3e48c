import ResidualHarness.Core.Canonical
import ResidualHarness.Python.JsonStyles
import ResidualHarness.Python.Loops

/-!
# Evaluation runs

The records of `residual/eval/spec_eval.py`: counters, metrics, costs, controls and the run that
binds them, with their constructors, their dictionaries and `from_dict`. Integers and floats are kept
apart, as the canonical text keeps them apart; the arithmetic on floats is a parameter.
-/

set_option autoImplicit false

namespace ResidualHarness.Eval

open Python Core

variable [FloatModel]

/-! ## Numbers -/

/-- The float arithmetic that the metrics and the costs use, and the conversions of `str`, `int` and
`float` that do not stay within JSON scalars. -/
class FloatOps where
  /-- `float(i)`; `none` where it overflows. -/
  ofInt : Int → Option FloatModel.F
  add : FloatModel.F → FloatModel.F → FloatModel.F
  mul : FloatModel.F → FloatModel.F → FloatModel.F
  /-- `a / b`; `none` for a zero divisor. -/
  div : FloatModel.F → FloatModel.F → Option FloatModel.F
  /-- `v < w` for two numbers. -/
  less : Json → Json → Bool
  /-- `float(s)`. -/
  ofText : Str → Option FloatModel.F
  /-- `int(f)`. -/
  truncate : FloatModel.F → Except PyExn Int
  /-- `int(s)`. -/
  intOfText : Str → Option Int
  /-- `str(v)` of a list or a dictionary. -/
  repr : Json → Str

variable [FloatOps]

/-- An `int` or a `float`. -/
inductive Num where
  | int (i : Int)
  | float (f : FloatModel.F)
deriving DecidableEq

/-- The number as JSON. -/
def Num.json : Num → Json
  | .int i => .int i
  | .float f => .float f

/-- `float(i)`. -/
def floatOfInt (i : Int) : Except PyExn FloatModel.F :=
  match FloatOps.ofInt i with
  | some f => .ok f
  | none => .error .overflowError

/-- `float(x)` of a number. -/
def Num.toFloat : Num → Except PyExn FloatModel.F
  | .int i => floatOfInt i
  | .float f => .ok f

/-- `float(v)`. -/
def floatOf : Json → Except PyExn FloatModel.F
  | .float f => .ok f
  | .int i => floatOfInt i
  | .bool b => floatOfInt (if b then 1 else 0)
  | .str s =>
      match FloatOps.ofText s with
      | some f => .ok f
      | none => .error (.valueError "could not convert string to float")
  | _ => .error .typeError

/-- `int(v)`. -/
def intOf : Json → Except PyExn Int
  | .int i => .ok i
  | .bool b => .ok (if b then 1 else 0)
  | .float f => FloatOps.truncate f
  | .str s =>
      match FloatOps.intOfText s with
      | some i => .ok i
      | none => .error (.valueError "invalid literal for int() with base 10")
  | _ => .error .typeError

/-- `str(v)`. -/
def strOf : Json → Str
  | .str s => s
  | .int i => intRepr i
  | .float f => FloatModel.repr f
  | .bool true => lit "True"
  | .bool false => lit "False"
  | .null => lit "None"
  | v => FloatOps.repr v

/-- A float literal. -/
def flt (s : String) : FloatModel.F := FloatModel.ofLiteral (lit s)

/-- `a / b` of floats. -/
def divide (a b : FloatModel.F) : Except PyExn FloatModel.F :=
  match FloatOps.div a b with
  | some q => .ok q
  | none => .error (.runtimeError "ZeroDivisionError" "float division by zero")

/-- `x < y`. -/
def Num.less (x y : Num) : Bool := FloatOps.less x.json y.json

/-- `SpecEvalError`. -/
def specEvalError (msg : String) : PyExn := .userError "SpecEvalError" msg

/-! ## Counters -/

/-- The fields of `RunCounters`. -/
structure CounterFields where
  elapsedSeconds : Num
  acceptedTasks : Int
  totalTasks : Int
  tokensUsed : Int
  gpuSeconds : Num
  coordinationSeconds : Num
  reworkTasks : Int
  mergeConflicts : Int
  verifierRejections : Int
  verifierOutputs : Int
  testsPassed : Int
  testsTotal : Int
deriving DecidableEq

/-- The arguments of `RunCounters`, by name. -/
abbrev CounterArgs := String → Json

/-- `_nonnegative(value, name)`. -/
def nonnegative (value : Json) (name : String) : Except PyExn Num := do
  let n ← match value with
    | .int i => .ok (Num.int i)
    | .float f => .ok (Num.float f)
    | _ => .error (specEvalError (name ++ " must be nonnegative"))
  require (n.less (.int 0) = false) (specEvalError (name ++ " must be nonnegative"))
  return n

/-- The check of one integer counter. -/
def nonnegativeInt (value : Json) (name : String) : Except PyExn Int :=
  match value with
  | .int i =>
      if 0 ≤ i then .ok i else .error (specEvalError (name ++ " must be a nonnegative integer"))
  | _ => .error (specEvalError (name ++ " must be a nonnegative integer"))

/-- `RunCounters(…)`: the constructor and `__post_init__`. -/
def CounterFields.make (arg : CounterArgs) : Except PyExn CounterFields := do
  let elapsed ← nonnegative (arg "elapsed_seconds") "elapsed_seconds"
  let gpu ← nonnegative (arg "gpu_seconds") "gpu_seconds"
  let coordination ← nonnegative (arg "coordination_seconds") "coordination_seconds"
  let accepted ← nonnegativeInt (arg "accepted_tasks") "accepted_tasks"
  let total ← nonnegativeInt (arg "total_tasks") "total_tasks"
  let tokens ← nonnegativeInt (arg "tokens_used") "tokens_used"
  let rework ← nonnegativeInt (arg "rework_tasks") "rework_tasks"
  let conflicts ← nonnegativeInt (arg "merge_conflicts") "merge_conflicts"
  let rejections ← nonnegativeInt (arg "verifier_rejections") "verifier_rejections"
  let outputs ← nonnegativeInt (arg "verifier_outputs") "verifier_outputs"
  let passed ← nonnegativeInt (arg "tests_passed") "tests_passed"
  let tests ← nonnegativeInt (arg "tests_total") "tests_total"
  -- `elapsed_seconds <= 0`; a NaN is neither less than zero nor equal to it
  require (¬(elapsed.less (.int 0) = true ∨ elapsed.json.Same (.int 0)))
    (specEvalError "elapsed_seconds must be positive")
  require (1 ≤ total ∧ accepted ≤ total) (specEvalError "accepted_tasks outside total_tasks")
  require (rework ≤ total) (specEvalError "rework_tasks outside total_tasks")
  require (rejections ≤ outputs) (specEvalError "verifier_rejections exceed outputs")
  require (1 ≤ tests ∧ passed ≤ tests) (specEvalError "tests_passed outside tests_total")
  require (elapsed.less coordination = false)
    (specEvalError "coordination time exceeds elapsed time")
  return ⟨elapsed, accepted, total, tokens, gpu, coordination, rework, conflicts, rejections, outputs,
    passed, tests⟩

/-- `RunCounters.to_dict()`. -/
def CounterFields.toDict (c : CounterFields) : Fields :=
  [(lit "elapsed_seconds", c.elapsedSeconds.json), (lit "accepted_tasks", .int c.acceptedTasks),
    (lit "total_tasks", .int c.totalTasks), (lit "tokens_used", .int c.tokensUsed),
    (lit "gpu_seconds", c.gpuSeconds.json),
    (lit "coordination_seconds", c.coordinationSeconds.json),
    (lit "rework_tasks", .int c.reworkTasks), (lit "merge_conflicts", .int c.mergeConflicts),
    (lit "verifier_rejections", .int c.verifierRejections),
    (lit "verifier_outputs", .int c.verifierOutputs), (lit "tests_passed", .int c.testsPassed),
    (lit "tests_total", .int c.testsTotal)]

/-- The values of a dictionary as arguments. -/
def argsOf (d : Fields) : CounterArgs := fun name => (d.get? (lit name)).getD .null

/-- The names of the counters. -/
def counterNames : List Str :=
  [lit "elapsed_seconds", lit "accepted_tasks", lit "total_tasks", lit "tokens_used",
    lit "gpu_seconds", lit "coordination_seconds", lit "rework_tasks", lit "merge_conflicts",
    lit "verifier_rejections", lit "verifier_outputs", lit "tests_passed", lit "tests_total"]

/-- `RunCounters.from_dict(data)`. -/
def CounterFields.fromDict (d : Fields) : Except PyExn CounterFields := do
  let _ ← mapE d.get counterNames
  CounterFields.make (argsOf d)

/-- `RunCounters`: counters that the constructor accepts. -/
structure RunCounters extends CounterFields where
  accepted : CounterFields.make (argsOf toCounterFields.toDict) = .ok toCounterFields

/-! ## Metrics -/

/-- `SystemMetrics`. What `from_dict` reads is not checked. -/
structure SystemMetrics where
  elapsedTimeMinutes : Json
  acceptedTasksPerHour : Json
  tokenCostTotal : Json
  gpuTimeMinutes : Json
  coordinationOverheadPct : Json
  reworkRatePct : Json
  mergeConflicts : Json
  verifierRejectionRatePct : Json
  finalTestPassRatePct : Json
deriving DecidableEq

/-- `100.0 * part / whole`. -/
def percentage (part whole : Num) : Except PyExn FloatModel.F := do
  divide (FloatOps.mul (flt "100.0") (← part.toFloat)) (← whole.toFloat)

/-- `SystemMetrics.from_counters(counters)`. -/
def SystemMetrics.fromCounters (c : CounterFields) : Except PyExn SystemMetrics := do
  let elapsed ← divide (← c.elapsedSeconds.toFloat) (flt "60.0")
  let hours ← divide (← c.elapsedSeconds.toFloat) (flt "3600.0")
  let perHour ← divide (← floatOfInt c.acceptedTasks) hours
  let gpu ← divide (← c.gpuSeconds.toFloat) (flt "60.0")
  let coordination ← percentage c.coordinationSeconds c.elapsedSeconds
  let rework ← percentage (.int c.reworkTasks) (.int c.totalTasks)
  let rejections ← if c.verifierOutputs ≠ 0 then
      percentage (.int c.verifierRejections) (.int c.verifierOutputs)
    else .ok (flt "0.0")
  let passRate ← percentage (.int c.testsPassed) (.int c.testsTotal)
  return ⟨.float elapsed, .float perHour, .int c.tokensUsed, .float gpu, .float coordination,
    .float rework, .int c.mergeConflicts, .float rejections, .float passRate⟩

/-- `METRIC_NAMES` and the values of the metrics. -/
def SystemMetrics.toDict (m : SystemMetrics) : Fields :=
  [(lit "elapsed_time_minutes", m.elapsedTimeMinutes),
    (lit "accepted_tasks_per_hour", m.acceptedTasksPerHour),
    (lit "token_cost_total", m.tokenCostTotal), (lit "gpu_time_minutes", m.gpuTimeMinutes),
    (lit "coordination_overhead_pct", m.coordinationOverheadPct),
    (lit "rework_rate_pct", m.reworkRatePct), (lit "merge_conflicts", m.mergeConflicts),
    (lit "verifier_rejection_rate_pct", m.verifierRejectionRatePct),
    (lit "final_test_pass_rate_pct", m.finalTestPassRatePct)]

/-- `SystemMetrics.from_dict(data)`. -/
def SystemMetrics.fromDict (d : Fields) : Except PyExn SystemMetrics := do
  let elapsed ← d.get (lit "elapsed_time_minutes")
  let perHour ← d.get (lit "accepted_tasks_per_hour")
  let tokens ← d.get (lit "token_cost_total")
  let gpu ← d.get (lit "gpu_time_minutes")
  let coordination ← d.get (lit "coordination_overhead_pct")
  let rework ← d.get (lit "rework_rate_pct")
  let conflicts ← d.get (lit "merge_conflicts")
  let rejections ← d.get (lit "verifier_rejection_rate_pct")
  let passRate ← d.get (lit "final_test_pass_rate_pct")
  return ⟨elapsed, perHour, tokens, gpu, coordination, rework, conflicts, rejections, passRate⟩

/-! ## Costs -/

/-- `CostRates`: nonnegative numbers. -/
structure CostRates where
  apiCostPer1kTokens : Num
  gpuCostPerHour : Num
  infrastructureCostPerRun : Num
  nonneg : ∀ n ∈ [apiCostPer1kTokens, gpuCostPerHour, infrastructureCostPerRun],
    n.less (.int 0) = false

/-- `CostAnalysis`. The infrastructure cost is the rate as it was given. -/
structure CostAnalysis where
  apiCost : FloatModel.F
  gpuCost : FloatModel.F
  infrastructureCost : Num
  totalCost : FloatModel.F
  costPerAcceptedTask : Option FloatModel.F
deriving DecidableEq

/-- `total / accepted if accepted else None`. -/
def perAccepted (total : FloatModel.F) (accepted : Int) : Except PyExn (Option FloatModel.F) := do
  if accepted = 0 then return none
  return some (← divide total (← floatOfInt accepted))

/-- `CostAnalysis.calculate(counters, rates)`. -/
def CostAnalysis.calculate (c : CounterFields) (rates : CostRates) : Except PyExn CostAnalysis := do
  let api := FloatOps.mul (← divide (← floatOfInt c.tokensUsed) (flt "1000.0"))
    (← rates.apiCostPer1kTokens.toFloat)
  let gpu := FloatOps.mul (← divide (← c.gpuSeconds.toFloat) (flt "3600.0"))
    (← rates.gpuCostPerHour.toFloat)
  let infra := rates.infrastructureCostPerRun
  let total := FloatOps.add (FloatOps.add api gpu) (← infra.toFloat)
  let perTask ← perAccepted total c.acceptedTasks
  return ⟨api, gpu, infra, total, perTask⟩

/-- A float or `None`. -/
def optionalFloat (f : Option FloatModel.F) : Json := (f.map Json.float).getD .null

/-- `CostAnalysis.to_dict()`. -/
def CostAnalysis.toDict (c : CostAnalysis) : Fields :=
  [(lit "api_cost", .float c.apiCost), (lit "gpu_cost", .float c.gpuCost),
    (lit "infrastructure_cost", c.infrastructureCost.json), (lit "total_cost", .float c.totalCost),
    (lit "cost_per_accepted_task", optionalFloat c.costPerAcceptedTask)]

/-- `CostAnalysis.from_dict(data)`: every cost is read as a float. -/
def CostAnalysis.fromDict (d : Fields) : Except PyExn CostAnalysis := do
  let api ← floatOf (← d.get (lit "api_cost"))
  let gpu ← floatOf (← d.get (lit "gpu_cost"))
  let infra ← floatOf (← d.get (lit "infrastructure_cost"))
  let total ← floatOf (← d.get (lit "total_cost"))
  let perTask ← match d.get? (lit "cost_per_accepted_task") with
    | none => .ok none
    | some .null => .ok none
    | some v => (floatOf v).map some
  return ⟨api, gpu, .float infra, total, perTask⟩

/-! ## Controls -/

/-- The fields of `ExecutionControls`. -/
structure ControlFields where
  engineIds : List Str
  modelVersions : List Str
  temperatures : List Num
  seed : Int
deriving DecidableEq

/-- `ExecutionControls.__post_init__`. -/
def ControlFields.postInit (c : ControlFields) : Except PyExn Unit := do
  require (c.engineIds ≠ [] ∧ c.modelVersions ≠ [])
    (specEvalError "engine and model controls required")
  require (∀ v ∈ c.engineIds ++ c.modelVersions, isBlank v = false)
    (specEvalError "engine/model identities must be nonempty strings")
  require (c.temperatures ≠ []) (specEvalError "temperature controls required")

/-- `ExecutionControls`. -/
structure ExecutionControls extends ControlFields where
  accepted : toControlFields.postInit = .ok ()

/-- `ExecutionControls.to_dict()`. -/
def ControlFields.toDict (c : ControlFields) : Fields :=
  [(lit "engine_ids", strings c.engineIds), (lit "model_versions", strings c.modelVersions),
    (lit "temperatures", .arr (c.temperatures.map Num.json)), (lit "seed", .int c.seed)]

/-- The elements of an iterable. -/
def elementsOf : Json → Except PyExn (List Json)
  | .arr xs => .ok xs
  | .str s => .ok (s.map fun c => .str [c])
  | .obj d => .ok (d.map fun kv => .str kv.1)
  | _ => .error .typeError

/-- `ExecutionControls.from_dict(data)`: every temperature is read as a float. -/
def ControlFields.fromDict (d : Fields) : Except PyExn ControlFields := do
  let engines ← elementsOf (← d.get (lit "engine_ids"))
  let models ← elementsOf (← d.get (lit "model_versions"))
  let temperatures ← mapE floatOf (← elementsOf (← d.get (lit "temperatures")))
  let seed ← intOf (← d.get (lit "seed"))
  let c : ControlFields := ⟨engines.map strOf, models.map strOf, temperatures.map Num.float, seed⟩
  c.postInit
  return c

end ResidualHarness.Eval
