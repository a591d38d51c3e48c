import ResidualHarness.Loop.Brakes
import ResidualHarness.Python.Program

/-!
# The loop controller

`LoopController` of `residual/loop.py` with the standard brakes, without extensions and without an
`emit` callback; subscribers of the lifecycle bus cannot raise into the run and see nothing that
comes back. The harness is the sequence of its pass results. The state of a run has the local
variables of `_run`, the brakes and three records that the source does not keep.
-/

set_option autoImplicit false

namespace ResidualHarness.Loop

open Python Core

/-! ## Results -/

/-- `RunOutcome`. -/
inductive RunOutcome where
  | success
  | escalated
  | aborted
  | amended
deriving DecidableEq, Repr

/-- How a run ends without a result: an exception, or the `AssertionError` after the loop. -/
inductive Failure where
  | raised (e : PyExn)
  | assertion
deriving DecidableEq

section Controller

variable [FloatModel] {κ : Type}

/-- The dictionary that a pass returns: `tokens_used` where its type is `int`, `observations` where
the key is there, and `halt`, which is null where it is missing. -/
structure PassResult (κ : Type) where
  candidate : κ
  tokensUsed : Option Int
  observations : Option Json
  halt : Json

/-- What `run_pass` does: it raises, it returns something else than a dictionary with a candidate, or
it returns such a dictionary. -/
inductive PassReturn (κ : Type) where
  | raised (e : PyExn)
  | malformed
  | returned (r : PassResult κ)

/-- A call of an evaluator, with the pass, the candidate and the trips recorded before it. -/
structure PassCall (κ : Type) where
  pass : Nat
  candidate : κ
  call : EvaluatorCall
  trips : List BrakeTrip

/-- The state of a run. -/
structure RunState (κ : Type) where
  tokens : Option Int
  report : Option VerificationReport
  trips : List BrakeTrip
  brakes : Brakes
  passes : Nat
  checks : List FloatModel.F
  calls : List (PassCall κ)

/-- `RunResult`. -/
structure RunResult where
  outcome : RunOutcome
  goalId : Str
  runId : Str
  totalPasses : Nat
  totalTokens : Option Int
  wallClockS : FloatModel.F
  finalVerification : Option VerificationReport
  trippedBrakes : List Str
  tripReasons : List Str
  amendmentReason : Option Str
  specHash : Str

/-- `LoopController`, with the clock and the identifier of its run. -/
structure LoopController (κ : Type) where
  spec : GoalSpec
  verifier : Verifier κ
  harness : Nat → PassReturn κ
  noProgressThreshold : Nat
  clock : Clock
  runId : Str
  threshold_le : 2 ≤ noProgressThreshold

/-- The programs of a run. -/
abbrev Running (κ α : Type) := Prog (RunState κ) Failure α

/-- An expression that may raise. -/
def expr {α : Type} (x : Except PyExn α) : Running κ α := Prog.eval (x.mapError Failure.raised)

/-! ## Trips -/

/-- A trip of the same brake with the same action. -/
def BrakeTrip.sameAs (t u : BrakeTrip) : Prop :=
  u.brakeName = t.brakeName ∧ u.recommendedAction = t.recommendedAction

instance (t u : BrakeTrip) : Decidable (t.sameAs u) := inferInstanceAs (Decidable (_ ∧ _))

/-- `record(trip)`. -/
def record (t : BrakeTrip) : Running κ Unit :=
  Prog.write fun s => if ∃ u ∈ s.trips, t.sameAs u then s else { s with trips := s.trips ++ [t] }

/-- `if trip: record(trip)`. -/
def recordIfTripped : Option BrakeTrip → Running κ Unit
  | some t => record t
  | none => pure ()

/-- `force(name, reason, action, event)`. -/
def force (name : String) (reason : Str) (action : BrakeAction) (event : Fields) : Running κ Unit := do
  let hash ← expr (digest (.obj event))
  record ⟨lit name, reason, hash, action⟩

/-- Some recorded trip asks for an action. -/
def Asks (action : BrakeAction) (trips : List BrakeTrip) : Prop :=
  ∃ t ∈ trips, t.recommendedAction = action

instance (action : BrakeAction) (trips : List BrakeTrip) : Decidable (Asks action trips) :=
  inferInstanceAs (Decidable (∃ t ∈ trips, t.recommendedAction = action))

/-- `_decide(tripped, report)`. -/
def decision (trips : List BrakeTrip) : BrakeAction :=
  if Asks .abort trips then .abort
  else if Asks .escalate trips then .escalate
  else .continue_

/-- The outcome of a decision; `none` starts the next pass. -/
def outcomeOf (action : BrakeAction) (overallPass : Bool) : Option RunOutcome :=
  match action with
  | .abort => some .aborted
  | .escalate => some .escalated
  | .continue_ => if overallPass = true then some .success else none

/-! ## Events -/

/-- The event that opens a run. -/
def openedEvent : Fields :=
  [(lit "kind", .str (lit "checkpoint")), (lit "event", .str (lit "run_opened")),
    (lit "payload", .obj [(lit "event", .str (lit "run_opened"))])]

/-- The event of a reported usage. -/
def usageEvent (used : Int) : Fields :=
  [(lit "kind", .str (lit "llm.response")), (lit "usage", .obj [(lit "total_tokens", .int used)])]

/-- `verification`. -/
def verificationPayload (runId : Str) (report : VerificationReport) : Fields :=
  [(lit "event", .str (lit "verification_report")), (lit "goal_id", .str report.goalId),
    (lit "overall_pass", .bool report.overallPass),
    (lit "primary_failure", optionalString report.primaryFailure),
    (lit "duration_ms", .float report.durationMs), (lit "run_id", .str runId)]

/-- The event of a verification. -/
def verificationEvent (runId : Str) (report : VerificationReport) : Fields :=
  [(lit "kind", .str (lit "custom")), (lit "payload", .obj (verificationPayload runId report))]

/-- `completed`. -/
def completedPayload (runId : Str) (n : Nat) (overallPass : Bool) : Fields :=
  [(lit "event", .str (lit "pass_complete")), (lit "from_state", .str (lit "pass_running")),
    (lit "to_state", .str (lit "pass_complete")), (lit "pass_number", .int n),
    (lit "overall_pass", .bool overallPass), (lit "run_id", .str runId)]

/-- The event that ends a pass. -/
def completedEvent (runId : Str) (n : Nat) (overallPass : Bool) : Fields :=
  (lit "kind", .str (lit "state.transition")) :: completedPayload runId n overallPass

/-! ## Observations and halts -/

/-- A dictionary. -/
def asObject : Json → Except PyExn Fields
  | .obj d => .ok d
  | _ => .error (contractError "harness observations must be a bounded list of objects")

/-- The observations of a pass, which must be at most 10000 dictionaries. -/
def observationObjects : Option Json → Except PyExn (List Fields)
  | none => .ok []
  | some (.arr xs) =>
      if 10000 < xs.length then
        .error (contractError "harness observations must be a bounded list of objects")
      else mapE asObject xs
  | some _ => .error (contractError "harness observations must be a bounded list of objects")

/-- The reasons for which a harness may halt. -/
def haltReasons : List Str := [lit "paused", lit "no_runnable_tasks"]

/-- The test of `result["halt"]`. -/
def checkHalt : Json → Running κ Unit
  | .null => pure ()
  | .str reason =>
      if reason ∈ haltReasons then
        force "dispatch" reason .escalate [(lit "halt", .str reason)]
      else Prog.raise (.raised (contractError "unknown harness halt reason"))
  | v =>
      if v.hashable = true then Prog.raise (.raised (contractError "unknown harness halt reason"))
      else Prog.raise (.raised .typeError)

variable [FloatTime] (c : LoopController κ)

/-! ## The clock and the brakes -/

/-- Where `t0` is read. -/
def opening : Instant := ⟨0, .guard, 0⟩

/-- `time.monotonic() - t0 >= spec.wall_clock_budget_s`. -/
def overTime (i : Instant) : Running κ Bool := do
  let elapsed := c.clock.elapsed opening i
  Prog.write fun s => { s with checks := s.checks ++ [elapsed] }
  return decide (c.spec.wallClockBudgetS.value ≤ FloatModel.value elapsed)

/-- The trip of the controller for the wall-clock budget. -/
def forceTime (n : Nat) : Running κ Unit :=
  force "budget" (lit "wall_clock_budget_exhausted") .abort [(lit "pass", .int n)]

/-- The wall-clock check inside a pass. -/
def guardTime (n : Nat) (i : Instant) : Running κ Unit := do
  let late ← overTime c i
  if late = true then forceTime n else pure ()

/-- `trip = brake.update(event); if trip: record(trip)`. -/
def feedOne (i : Instant) (event : Fields) (name : BrakeName) : Running κ Unit := do
  let s ← Prog.read
  let updated ← expr (s.brakes.update c.spec c.noProgressThreshold event
    (c.clock.monotonicNs { i with index := 2 * i.index })
    (c.clock.monotonicNs { i with index := 2 * i.index + 1 }) name)
  Prog.write fun s => { s with brakes := updated.1 }
  recordIfTripped updated.2

/-- The order of `build_brakes`. -/
def brakeOrder : List BrakeName := [.maxIteration, .budget, .noProgress, .completion]

/-- `feed(event)`. -/
def feed (i : Instant) (event : Fields) : Running κ Unit := Prog.each brakeOrder (feedOne c i event)

/-! ## A pass -/

/-- Usage that is unknown or no nonnegative `int`. -/
def rejectUsage (n : Nat) : Running κ Unit := do
  Prog.write fun s => { s with tokens := none }
  force "budget" (lit "usage_unknown_or_invalid") .abort [(lit "pass", .int n)]

/-- The controller's own token check. -/
def guardTokens (total : Int) : Running κ Unit :=
  if c.spec.tokenBudget ≤ total then
    force "budget" (lit "token_budget_exhausted") .abort [(lit "tokens", .int total)]
  else pure ()

/-- `tokens += used` and what follows it. -/
def addUsage (n : Nat) (used : Int) : Running κ Unit := do
  let s ← Prog.read
  match s.tokens with
  | none => Prog.raise (.raised .typeError)
  | some tokens => do
      Prog.write fun s => { s with tokens := some (tokens + used) }
      feed c ⟨n, .usage, 0⟩ (usageEvent used)
      guardTokens c (tokens + used)

/-- The accounting of `result.get("tokens_used")`. -/
def countTokens (n : Nat) : Option Int → Running κ Unit
  | none => rejectUsage n
  | some used => if used < 0 then rejectUsage n else addUsage c n used

/-- The test of one observation's kind. -/
def feedObservation (n k : Nat) (obs : Fields) : Running κ Unit :=
  if isKind obs "tool.invoked" then feed c ⟨n, .observation, k⟩ obs else pure ()

/-- `for obs in observations`, from an index on. -/
def feedObservations (n : Nat) : Nat → List Fields → Running κ Unit
  | _, [] => pure ()
  | k, obs :: rest => do
      feedObservation c n k obs
      feedObservations n (k + 1) rest

/-- The verification of a candidate that no abort has excluded. -/
def verifyCandidate (n : Nat) (candidate : κ) : Running κ Unit := do
  let verified := c.verifier.verify c.clock c.spec n candidate
  Prog.write fun s => { s with
    report := some verified.1
    calls := s.calls ++ verified.2.map fun call => ⟨n, candidate, call, s.trips⟩ }
  feed c ⟨n, .reported, 0⟩ (verificationEvent c.runId verified.1)

/-- The verification of a pass. -/
def verifyPass (n : Nat) (candidate : κ) : Running κ Unit := do
  let s ← Prog.read
  if Asks .abort s.trips then Prog.write fun s => { s with report := none }
  else verifyCandidate c n candidate

/-- `bool(report and report.overall_pass)`. -/
def overallPass (report : Option VerificationReport) : Bool :=
  match report with
  | some report => report.overallPass
  | none => false

/-- The test of the last pass. -/
def guardPasses (n : Nat) (overall : Bool) : Running κ Unit :=
  if n = c.spec.maxPasses ∧ overall = false then
    force "max_iteration" (lit "max_passes_reached") .escalate (completedPayload c.runId n overall)
  else pure ()

/-- The end of a pass: the completion event and the decision. -/
def completePass (n : Nat) : Running κ (Option RunOutcome) := do
  let s ← Prog.read
  let overall := overallPass s.report
  feed c ⟨n, .completed, 0⟩ (completedEvent c.runId n overall)
  guardPasses c n overall
  let s ← Prog.read
  return outcomeOf (decision s.trips) overall

/-- What the controller does with the result of a pass. -/
def judgePass (n : Nat) (r : PassResult κ) : Running κ (Option RunOutcome) := do
  countTokens c n r.tokensUsed
  let observations ← expr (observationObjects r.observations)
  feedObservations c n 0 observations
  checkHalt r.halt
  guardTime c n ⟨n, .observed, 0⟩
  verifyPass c n r.candidate
  guardTime c n ⟨n, .verified, 0⟩
  completePass c n

/-- One pass, from the call of the harness on. -/
def runPass (n : Nat) : Running κ (Option RunOutcome) := do
  Prog.write fun s => { s with passes := s.passes + 1 }
  match c.harness n with
  | .raised e => Prog.raise (.raised e)
  | .malformed => Prog.raise (.raised (contractError "harness pass must return a candidate object"))
  | .returned r => judgePass c n r

/-! ## The run -/

/-- `_finish(outcome, …)`. -/
def finish (outcome : RunOutcome) (passes : Nat) : Running κ RunResult := do
  let s ← Prog.read
  let specHash ← expr c.spec.contentHash
  return { outcome := outcome
           goalId := c.spec.goalId
           runId := c.runId
           totalPasses := passes
           totalTokens := s.tokens
           wallClockS := FloatTime.rounded (c.clock.elapsed opening ⟨passes + 1, .guard, 1⟩)
           finalVerification := s.report
           trippedBrakes := s.trips.map BrakeTrip.brakeName
           tripReasons := s.trips.map BrakeTrip.tripReason
           amendmentReason := c.spec.amendmentReason
           specHash := specHash }

/-- `for pass_number in range(n, n + k)`. -/
def passes : Nat → Nat → Running κ RunResult
  | 0, _ => Prog.raise .assertion
  | k + 1, n => do
      let s ← Prog.read
      if s.trips ≠ [] then finish c .escalated (n - 1)
      else do
        let late ← overTime c ⟨n, .guard, 0⟩
        if late = true then do
          forceTime n
          finish c .aborted (n - 1)
        else do
          let outcome ← runPass c n
          match outcome with
          | some outcome => finish c outcome n
          | none => do
              Prog.write fun s => { s with trips := [] }
              passes k (n + 1)

/-- The state in which `_run` starts, after the brakes have been reset. -/
def RunState.opened : RunState κ :=
  { tokens := some 0
    report := none
    trips := []
    brakes := Brakes.reset
    passes := 0
    checks := []
    calls := [] }

/-- `LoopController.run()`. -/
def run : Running κ RunResult := do
  Prog.write fun _ => RunState.opened
  let _ ← expr c.spec.contentHash
  feed c ⟨0, .usage, 0⟩ openedEvent
  let s ← Prog.read
  if Asks .abort s.trips then finish c .aborted 0
  else passes c c.spec.maxPasses 1

end Controller

end ResidualHarness.Loop
