import ResidualHarness.Core.Task

/-!
# The verified loop runtime

`residual/factory/loop_runtime`: the goal contract, the result sets of the factory, `GoalEvaluator`,
the progress measure, the escalation policy and `LoopController.run`. The factory, the clock and the
abort switch are functions of the iteration in which they are asked. `run` also returns the events of
the run, which the source does not keep. A metrics sink only receives data and is left out.

Amounts of money and clock readings enter through `Quantities`, of which no law is used: the sum of two
decimals is rounded and may overflow, and the difference of two readings is rounded.
-/

set_option autoImplicit false

namespace ResidualHarness.LoopRuntime

open Python Core

/-- `Decimal` and the readings of a monotonic clock. No amount is a NaN: comparing one raises in the
checks of the contract and of the result sets. -/
class Quantities where
  Decimal : Type
  zero : Decimal
  add : Decimal → Decimal → Except PyExn Decimal
  le : Decimal → Decimal → Bool
  Time : Type
  origin : Time
  sub : Time → Time → Time
  reaches : Time → Nat → Bool

export Quantities (Decimal Time)

/-! ## Enumerations -/

/-- `VerificationStatus`. -/
inductive VerificationStatus where
  | pass
  | fail
  | unknown
deriving DecidableEq, Repr

/-- `VerificationStatus.value`. -/
def VerificationStatus.value : VerificationStatus → Str
  | .pass => lit "pass"
  | .fail => lit "fail"
  | .unknown => lit "unknown"

/-- `ObligationState`. -/
inductive ObligationState where
  | unresolved
  | submitted
  | accepted
  | rejected
  | unknown
deriving DecidableEq, Repr

/-- `MissionStatus`. -/
inductive MissionStatus where
  | complete
  | exhausted
  | stagnated
  | aborted
  | failed
deriving DecidableEq, Repr

/-- `CapabilityFloor`. -/
inductive CapabilityFloor where
  | default
  | higher
deriving DecidableEq, Repr

/-- `ParallelismHint`. -/
inductive ParallelismHint where
  | none
  | allow
  | prefer
deriving DecidableEq, Repr

/-- `Urgency`. -/
inductive Urgency where
  | none
  | low
  | normal
  | high
deriving DecidableEq, Repr

section Model

variable [FloatModel] [Quantities]

/-! ## Contracts and results -/

/-- `AbortCondition`. -/
structure AbortCondition where
  budgetThreshold : Option Decimal
  timeThresholdS : Option Nat
  requireNoProgress : Bool
  budget_nonneg : ∀ b ∈ budgetThreshold, Quantities.le Quantities.zero b = true
  time_pos : ∀ t ∈ timeThresholdS, 0 < t
  some_threshold : budgetThreshold.isSome = true ∨ timeThresholdS.isSome = true

/-- `GoalContract`, without the texts that no decision reads. -/
structure GoalContract where
  goalId : Str
  requiredVerificationIds : List Str
  maxIterations : Nat
  maxWallTimeS : Nat
  maxCost : Option Decimal
  noProgressLimit : Nat
  escalationCooldownPeriod : Nat
  abortConditions : List AbortCondition
  ids_ne_nil : requiredVerificationIds ≠ []
  ids_nodup : requiredVerificationIds.Nodup
  iterations_pos : 0 < maxIterations
  wallTime_pos : 0 < maxWallTimeS
  limit_pos : 0 < noProgressLimit
  cost_nonneg : ∀ c ∈ maxCost, Quantities.le Quantities.zero c = true

/-- `VerificationResultRef`. -/
structure VerificationResultRef where
  verificationId : Str
  status : VerificationStatus
  acceptedTreeHash : Option Str
  evidenceRoot : Option Str
  receiptRef : Option Str
deriving DecidableEq

/-- `FactoryResultSet`. -/
structure FactoryResultSet where
  factoryRunId : Str
  acceptedTreeHash : Option Str
  acceptedEvidenceRoot : Option Str
  rejectedEvidenceRoot : Option Str
  verificationResults : List VerificationResultRef
  residualObligations : List Obligation
  obligationStates : Dict Str ObligationState
  receiptRefs : List Str
  cost : Decimal
  residual_nodup : (residualObligations.map Obligation.id).Nodup
  states_nodup : obligationStates.keys.Nodup
  cost_nonneg : Quantities.le Quantities.zero cost = true

/-! ## Completion -/

/-- `GoalEvaluation`. -/
structure GoalEvaluation where
  complete : Bool
  missing : List Str
  failed : List Str
  unknown : List Str
deriving DecidableEq

/-- `not value` for a string or `None`. -/
def falsy (value : Option Str) : Bool := value == none || value == some []

/-- Where the loop of `evaluate` puts an id: `missing`, `failed`, `unknown` or nowhere. -/
inductive Finding where
  | missing
  | failed
  | unknown
  | passed
deriving DecidableEq, Repr

/-- The body of the loop of `evaluate`, for the item that `by_id` has. -/
def finding (result : FactoryResultSet) : Option VerificationResultRef → Finding
  | none => .missing
  | some item =>
      if item.acceptedTreeHash ≠ result.acceptedTreeHash ∨
          item.evidenceRoot ≠ result.acceptedEvidenceRoot then .failed
      else
        match item.status with
        | .fail => .failed
        | .unknown => .unknown
        | .pass => .passed

/-- `{item.verification_id: item for item in result.verification_results}`. -/
def byId (result : FactoryResultSet) : Dict Str VerificationResultRef :=
  Dict.ofPairs (result.verificationResults.map fun item => (item.verificationId, item))

/-- `GoalEvaluator.evaluate(contract, result)`. -/
def evaluate (contract : GoalContract) (result : FactoryResultSet) : GoalEvaluation :=
  if falsy result.acceptedTreeHash || falsy result.acceptedEvidenceRoot then
    ⟨false, contract.requiredVerificationIds, [], []⟩
  else
    let among (f : Finding) :=
      contract.requiredVerificationIds.filter fun id => finding result ((byId result).get? id) = f
    ⟨(among .missing).isEmpty && (among .failed).isEmpty && (among .unknown).isEmpty,
      among .missing, among .failed, among .unknown⟩

/-! ## Progress -/

/-- How many obligations are in a state that satisfies `p`. -/
def FactoryResultSet.countStates (result : FactoryResultSet) (p : ObligationState → Bool) : Nat :=
  result.obligationStates.countP fun kv => p kv.2

/-- `residual_mass(result)`, a count. -/
def residualMass (result : FactoryResultSet) : Nat :=
  (result.verificationResults.countP fun item => item.status = .fail) +
    (result.verificationResults.countP fun item => item.status = .unknown) +
    result.countStates fun s => s = .unresolved ∨ s = .rejected ∨ s = .unknown

/-- `sorted(...)` of pairs of strings. -/
def sortedPairs (xs : List (Str × Str)) : List (Str × Str) :=
  xs.insertionSort fun a b => a.1 < b.1 ∨ a.1 = b.1 ∧ a.2 ≤ b.2

/-- A string or `null`. -/
def optionJson : Option Str → Json
  | some s => .str s
  | none => .null

/-- `failure_fingerprint(result)`. -/
def failureFingerprint (result : FactoryResultSet) : Except PyExn Str :=
  let failures := sortedPairs
    ((result.verificationResults.filter fun item => item.status ≠ .pass).map fun item =>
      (item.verificationId, item.status.value))
  digest (.obj [
    (lit "residual_ids",
      .arr (((result.residualObligations.map Obligation.id).insertionSort (· ≤ ·)).map Json.str)),
    (lit "verification_failures", .arr (failures.map fun f => .arr [.str f.1, .str f.2])),
    (lit "accepted_tree_hash", optionJson result.acceptedTreeHash)])

/-- `ProgressVector`. -/
structure ProgressVector where
  residualMass : Nat
  progressDelta : Int
  acceptedObligations : Nat
  obligationResolvedDelta : Nat
  treeChanged : Bool
  churn : Bool
  repeatedFailure : Bool
deriving DecidableEq

/-- How many obligations are accepted. -/
def accepted (result : FactoryResultSet) : Nat := result.countStates fun s => s = .accepted

/-- `measure_progress(previous, current, fingerprint_seen)`. -/
def measureProgress (previous : Option FactoryResultSet) (current : FactoryResultSet)
    (fingerprintSeen : Nat) : ProgressVector :=
  let currentMass := LoopRuntime.residualMass current
  let previousMass := (previous.map LoopRuntime.residualMass).getD currentMass
  let resolvedDelta := accepted current - (previous.map accepted).getD 0
  let treeChanged := decide (∀ p ∈ previous, current.acceptedTreeHash ≠ p.acceptedTreeHash)
  { residualMass := currentMass
    progressDelta := (previousMass : Int) - currentMass
    acceptedObligations := accepted current
    obligationResolvedDelta := resolvedDelta
    treeChanged := treeChanged
    churn := previous.isSome && treeChanged && decide (resolvedDelta = 0) &&
      decide (¬ currentMass < previousMass)
    repeatedFailure := decide (0 < fingerprintSeen) }

/-! ## Intents -/

/-- `ExecutionIntent`. -/
structure ExecutionIntent where
  urgency : Urgency := .normal
  capabilityFloor : CapabilityFloor := .default
  parallelism : ParallelismHint := .allow
  rationale : Str := lit "initial_execution"
  deduplicationKeys : Dict Str Str

/-- `next_intent(progress, cooldown, deduplication_keys)`. -/
def nextIntent (progress : ProgressVector) (cooldown : Nat) (keys : Dict Str Str) :
    ExecutionIntent × Bool :=
  if progress.churn = true then
    if cooldown = 0 then
      ({ urgency := .low, capabilityFloor := .higher, parallelism := .allow,
         rationale := lit "accepted_tree_churn_without_obligation_resolution",
         deduplicationKeys := keys }, true)
    else ({ urgency := .low, rationale := lit "churn_cooldown", deduplicationKeys := keys }, false)
  else if progress.repeatedFailure = true ∨ progress.progressDelta ≤ 0 then
    if cooldown = 0 then
      ({ urgency := .high, capabilityFloor := .higher,
         rationale := lit "stagnation_or_repeated_failure", deduplicationKeys := keys }, true)
    else
      ({ urgency := .normal, rationale := lit "stagnation_cooldown", deduplicationKeys := keys },
        false)
  else ({ deduplicationKeys := keys }, false)

/-- `DeduplicationMaterial`. -/
structure DeduplicationMaterial where
  inputArtifactHashes : List Str
  workerContractHash : Str

/-- `deduplication_key(obligation, material)`. -/
def deduplicationKey (obligation : Obligation) (material : DeduplicationMaterial) :
    Except PyExn Str :=
  digest (.obj [
    (lit "schema", .str (lit "residual.loop.dedup.v1")),
    (lit "obligation_id", .str obligation.id),
    (lit "input_artifact_hashes",
      .arr ((material.inputArtifactHashes.insertionSort (· ≤ ·)).map Json.str)),
    (lit "worker_contract_hash", .str material.workerContractHash)])

/-! ## The controller -/

/-- `LoopMissionState`. -/
structure LoopMissionState where
  goalId : Str
  iteration : Nat := 0
  acceptedTreeHash : Option Str := none
  acceptedEvidenceRoot : Option Str := none
  residualMass : Nat := 0
  previousResidualMass : Option Nat := none
  noProgressStreak : Nat := 0
  escalationCooldown : Nat := 0
  spentCost : Decimal := Quantities.zero
  elapsedS : Time := Quantities.origin
  failureFingerprintCounts : Dict Str Nat := []
  status : Option MissionStatus := none

/-- `LoopIterationRecord`. -/
structure LoopIterationRecord where
  goalId : Str
  iteration : Nat
  factoryRunId : Str
  inputTreeHash : Option Str
  outputTreeHash : Option Str
  acceptedEvidenceRoot : Option Str
  rejectedEvidenceRoot : Option Str
  residualIds : List Str
  receiptRefs : List Str
  progress : ProgressVector
  intent : ExecutionIntent
  failureFingerprint : Str

/-- `MissionResult`. -/
structure MissionResult where
  status : MissionStatus
  state : LoopMissionState
  iterations : List LoopIterationRecord
  goalEvaluation : Option GoalEvaluation
  reason : Str

/-- `LoopController`: its factory, clock and abort switch. The argument of type `Nat` is the iteration;
the clock is read before the loop, and twice in an iteration. -/
structure LoopController where
  factoryRun : Nat → List Obligation → ExecutionIntent → Except PyExn FactoryResultSet
  deduplicationMaterial : Nat → Obligation → Except PyExn DeduplicationMaterial
  cancelInflight : Nat → Except PyExn Unit
  startTime : Time
  monotonic : Nat → Time × Time
  abortRequested : Nat → Except PyExn Bool

/-- What happens in a run: the checks at the beginning of an iteration with what they see, a call of
`factory.run`, the checks after it, and an intent for the next iteration. -/
inductive Event where
  | opened (iteration : Nat) (state : LoopMissionState) (abort : Bool)
  | called (iteration : Nat) (result : Except PyExn FactoryResultSet)
  | closed (iteration : Nat) (state : LoopMissionState) (result : FactoryResultSet)
  | emitted (iteration : Nat) (intent : ExecutionIntent)

/-- The local variables of `run`, and its events. -/
structure Mission where
  state : LoopMissionState
  records : List LoopIterationRecord
  current : List Obligation
  previous : Option FactoryResultSet
  counts : Dict Str Nat
  intent : ExecutionIntent
  evaluation : Option GoalEvaluation
  log : List Event

/-- How an iteration ends: with the next one, or with the result or the exception of `run`. -/
inductive Turn where
  | next
  | ended (r : Except PyExn MissionResult)

/-- `_dedup_keys(obligations)`. -/
def LoopController.dedupKeys (c : LoopController) (iteration : Nat) (obligations : List Obligation) :
    Except PyExn (Dict Str Str) := do
  let pairs ← obligations.mapM fun o => do
    let material ← c.deduplicationMaterial iteration o
    let key ← deduplicationKey o material
    return (o.id, key)
  return Dict.ofPairs pairs

/-- The checks of one condition in `_should_abort`. -/
def AbortCondition.reason (condition : AbortCondition) (state : LoopMissionState) : Option Str :=
  if condition.requireNoProgress = true ∧ state.noProgressStreak = 0 then none
  else if condition.budgetThreshold.any fun b => Quantities.le b state.spentCost then
    some (lit "abort_condition_budget_threshold")
  else if condition.timeThresholdS.any fun t => Quantities.reaches state.elapsedS t then
    some (lit "abort_condition_time_threshold")
  else none

/-- `_should_abort(contract, state)`. -/
def shouldAbort (contract : GoalContract) (state : LoopMissionState) : Option Str :=
  contract.abortConditions.findSome? fun condition => condition.reason state

/-- `contract.max_cost is not None and spent >= contract.max_cost`. -/
def costReached (contract : GoalContract) (spent : Decimal) : Bool :=
  contract.maxCost.any fun limit => Quantities.le limit spent

/-- `_abort(state, records, reason)`. -/
def LoopController.abort (c : LoopController) (iteration : Nat) (m : Mission) (reason : Str) :
    Except PyExn MissionResult := do
  c.cancelInflight iteration
  return ⟨.aborted, { m.state with status := some .aborted }, m.records, none, reason⟩

/-- The checks at the beginning of an iteration. -/
def opening (contract : GoalContract) (state : LoopMissionState) (abort : Bool) : Option Str :=
  if abort = true then some (lit "human_or_operator_abort")
  else if Quantities.reaches state.elapsedS contract.maxWallTimeS = true then
    some (lit "wall_time_exhausted")
  else if costReached contract state.spentCost = true then some (lit "cost_budget_exhausted")
  else shouldAbort contract state

/-- The state and the record after a result, and the local variables that go with them. -/
def absorb (contract : GoalContract) (iteration : Nat) (elapsed : Time) (m : Mission)
    (result : FactoryResultSet) : Except PyExn (Mission × ProgressVector) := do
  let fingerprint ← failureFingerprint result
  let seen := (m.counts.get? fingerprint).getD 0
  let counts := m.counts.set fingerprint (seen + 1)
  let progress := measureProgress m.previous result seen
  let noProgress := progress.progressDelta ≤ 0 ∧ progress.obligationResolvedDelta = 0
  let streak := if m.previous.isSome = true ∧ noProgress then m.state.noProgressStreak + 1 else 0
  let spent ← Quantities.add m.state.spentCost result.cost
  let state : LoopMissionState :=
    { goalId := contract.goalId
      iteration := iteration
      acceptedTreeHash := result.acceptedTreeHash
      acceptedEvidenceRoot := result.acceptedEvidenceRoot
      residualMass := residualMass result
      previousResidualMass := if m.state.iteration ≠ 0 then some m.state.residualMass else none
      noProgressStreak := streak
      escalationCooldown := m.state.escalationCooldown - 1
      spentCost := spent
      elapsedS := elapsed
      failureFingerprintCounts := counts
      status := none }
  let record : LoopIterationRecord :=
    { goalId := contract.goalId
      iteration := iteration
      factoryRunId := result.factoryRunId
      inputTreeHash := m.previous.bind FactoryResultSet.acceptedTreeHash
      outputTreeHash := result.acceptedTreeHash
      acceptedEvidenceRoot := result.acceptedEvidenceRoot
      rejectedEvidenceRoot := result.rejectedEvidenceRoot
      residualIds := result.residualObligations.map Obligation.id
      receiptRefs := result.receiptRefs
      progress := progress
      intent := m.intent
      failureFingerprint := fingerprint }
  return ({ m with state := state, records := m.records ++ [record], counts := counts,
                   evaluation := some (evaluate contract result),
                   log := m.log ++ [.closed iteration state result] }, progress)

/-- A result that ends the run after an iteration. -/
def Mission.finish (m : Mission) (status : MissionStatus) (reason : String) :
    Except PyExn MissionResult :=
  .ok ⟨status, { m.state with status := some status }, m.records, m.evaluation, lit reason⟩

/-- The exits after a result, in their order. -/
def LoopController.closing (c : LoopController) (contract : GoalContract) (iteration : Nat)
    (m : Mission) (result : FactoryResultSet) : Turn :=
  if (evaluate contract result).complete = true then
    .ended (m.finish .complete "goal_predicates_satisfied")
  else if costReached contract m.state.spentCost = true then
    .ended (c.abort iteration m (lit "cost_budget_exhausted"))
  else
    match shouldAbort contract m.state with
    | some reason => .ended (c.abort iteration m reason)
    | none =>
        if result.residualObligations = [] then
          .ended (m.finish .stagnated "no_residual_work_for_incomplete_goal")
        else if contract.noProgressLimit ≤ m.state.noProgressStreak then
          .ended (m.finish .stagnated "no_progress_limit_reached")
        else .next

/-- The next intent and the cooldown it starts. -/
def LoopController.advance (c : LoopController) (contract : GoalContract) (iteration : Nat)
    (m : Mission) (result : FactoryResultSet) (progress : ProgressVector) : Except PyExn Mission := do
  let keys ← c.dedupKeys iteration result.residualObligations
  let (intent, escalated) :=
    if m.previous.isNone = true then ({ deduplicationKeys := keys }, false)
    else nextIntent progress m.state.escalationCooldown keys
  let state :=
    if escalated = true then
      { m.state with escalationCooldown := contract.escalationCooldownPeriod }
    else m.state
  return { m with state := state, current := result.residualObligations, intent := intent,
                  previous := some result, log := m.log ++ [.emitted iteration intent] }

/-- The part of an iteration after its first checks. -/
def LoopController.work (c : LoopController) (contract : GoalContract) (iteration : Nat)
    (m : Mission) : Mission × Turn :=
  let called := c.factoryRun iteration m.current m.intent
  let m := { m with log := m.log ++ [.called iteration called] }
  match called with
  | .error e => (m, .ended (.error e))
  | .ok result =>
      match absorb contract iteration (Quantities.sub (c.monotonic iteration).2 c.startTime) m
          result with
      | .error e => (m, .ended (.error e))
      | .ok (m, progress) =>
          match c.closing contract iteration m result with
          | .ended r => (m, .ended r)
          | .next =>
              match c.advance contract iteration m result progress with
              | .error e => (m, .ended (.error e))
              | .ok m => (m, .next)

/-- One iteration. -/
def LoopController.iterate (c : LoopController) (contract : GoalContract) (iteration : Nat)
    (m : Mission) : Mission × Turn :=
  let m := { m with state :=
    { m.state with elapsedS := Quantities.sub (c.monotonic iteration).1 c.startTime } }
  match c.abortRequested iteration with
  | .error e => (m, .ended (.error e))
  | .ok abort =>
      let m := { m with log := m.log ++ [.opened iteration m.state abort] }
      match opening contract m.state abort with
      | some reason => (m, .ended (c.abort iteration m reason))
      | none => c.work contract iteration m

/-- The loop of `run`, with `left` iterations to go before `max_iterations`. -/
def LoopController.loop (c : LoopController) (contract : GoalContract) :
    Nat → Mission → Mission × Except PyExn MissionResult
  | 0, m => (m, m.finish .exhausted "max_iterations_reached")
  | left + 1, m =>
      match c.iterate contract (contract.maxIterations - left) m with
      | (m, .next) => c.loop contract left m
      | (m, .ended r) => (m, r)

/-- The local variables before the loop. -/
def LoopController.initial (contract : GoalContract) (obligations : List Obligation)
    (keys : Dict Str Str) : Mission where
  state := { goalId := contract.goalId }
  records := []
  current := obligations
  previous := none
  counts := []
  intent := { deduplicationKeys := keys }
  evaluation := none
  log := []

/-- `run(contract, obligations)`. -/
def LoopController.run (c : LoopController) (contract : GoalContract) (obligations : List Obligation) :
    List Event × Except PyExn MissionResult :=
  match c.dedupKeys 0 obligations with
  | .error e => ([], .error e)
  | .ok keys =>
      let (m, r) := c.loop contract contract.maxIterations (initial contract obligations keys)
      (m.log, r)

end Model

end ResidualHarness.LoopRuntime
