import ResidualHarness.Loop.Goal

/-!
# Brakes

The state machines of `residual/brakes.py`. A brake reads an event, which is a dictionary, and may
trip. `update` raises where the source raises: on the canonical form of the event that trips a brake,
on the fingerprint of a tool call, and on the texts of numbers that are too long to print.
-/

set_option autoImplicit false

namespace ResidualHarness.Loop

open Python Core

/-- `BrakeAction`. -/
inductive BrakeAction where
  | continue_
  | escalate
  | abort
deriving DecidableEq, Repr

/-- `BrakeTrip`. -/
structure BrakeTrip where
  brakeName : Str
  tripReason : Str
  triggeringObsHash : Str
  recommendedAction : BrakeAction
deriving DecidableEq

/-- `f"{n}"`. -/
def intText (n : Int) : Except PyExn Str :=
  if intPrintable n = true then .ok (intRepr n)
  else .error (.valueError "Exceeds the limit for integer string conversion")

section Brakes

variable [FloatModel]

/-- `f"{x}"`. -/
def Number.text : Number → Except PyExn Str
  | .int i => intText i
  | .float f => .ok (FloatModel.repr f)

/-- `_obs_hash(event)`. -/
def obsHash (event : Fields) : Except PyExn Str := digest (.obj event)

/-- `BrakeTrip(name, reason, _obs_hash(event), action)`. -/
def trip (name : String) (reason : Except PyExn Str) (event : Fields) (action : BrakeAction) :
    Except PyExn (Option BrakeTrip) := do
  let reason ← reason
  let hash ← obsHash event
  return some ⟨lit name, reason, hash, action⟩

/-- `event.get("kind") == kind`. -/
def isKind (event : Fields) (kind : String) : Prop :=
  event.get? (lit "kind") = some (.str (lit kind))

instance (event : Fields) (kind : String) : Decidable (isKind event kind) :=
  inferInstanceAs (Decidable (_ = _))

/-! ## `MaxIterationBrake` -/

/-- The event ends a pass. -/
def endsPass (event : Fields) : Prop :=
  isKind event "state.transition" ∧
    event.get? (lit "to_state") = some (.str (lit "pass_complete"))

instance (event : Fields) : Decidable (endsPass event) := inferInstanceAs (Decidable (_ ∧ _))

/-- `MaxIterationBrake`: `_pass_count`. -/
structure MaxIterationBrake where
  passCount : Nat

/-- `f"pass_count {self._pass_count} >= max_passes {self._spec.max_passes}"`. -/
def passCountText (spec : GoalSpec) (count : Nat) : Except PyExn Str := do
  let count ← intText count
  let passes ← intText spec.maxPasses
  return lit "pass_count " ++ count ++ lit " >= max_passes " ++ passes

/-- `MaxIterationBrake.update(event)`. -/
def MaxIterationBrake.update (spec : GoalSpec) (event : Fields) (b : MaxIterationBrake) :
    Except PyExn (MaxIterationBrake × Option BrakeTrip) :=
  if endsPass event then do
    let count := b.passCount + 1
    if spec.maxPasses ≤ count ∧ event.get? (lit "overall_pass") ≠ some (.bool true) then
      let t ← trip "max_iteration" (passCountText spec count) event .escalate
      return (⟨count⟩, t)
    else return (⟨count⟩, none)
  else return (b, none)

/-! ## `BudgetBrake` -/

/-- `BudgetBrake`: `_tokens_used`, `_start_ns`, and the elapsed times it has compared. -/
structure BudgetBrake where
  tokensUsed : Int
  startNs : Option Int
  checks : List FloatModel.F

/-- `usage.get("total_tokens") if isinstance(usage, dict) else None`, where it is a nonnegative `int`. -/
def reportedTokens (event : Fields) : Option Int :=
  match event.get? (lit "usage") with
  | some (.obj usage) =>
      match Fields.get? usage (lit "total_tokens") with
      | some (.int n) => if 0 ≤ n then some n else none
      | _ => none
  | _ => none

/-- `f"tokens {self._tokens_used} >= budget {self._spec.token_budget}"`. -/
def tokensText (spec : GoalSpec) (used : Int) : Except PyExn Str := do
  let used ← intText used
  let budget ← intText spec.tokenBudget
  return lit "tokens " ++ used ++ lit " >= budget " ++ budget

section WallClock

variable [FloatTime]

/-- `f"elapsed {elapsed_s:.1f}s >= budget {self._spec.wall_clock_budget_s}s"`. -/
def elapsedText (spec : GoalSpec) (elapsed : FloatModel.F) : Except PyExn Str := do
  let budget ← spec.wallClockBudgetS.text
  return lit "elapsed " ++ FloatTime.fixed elapsed ++ lit "s >= budget " ++ budget ++ lit "s"

/-- The wall-clock check of `BudgetBrake.update`, at the reading `now`. -/
def BudgetBrake.checkClock (spec : GoalSpec) (event : Fields) (start now : Int) (b : BudgetBrake) :
    Except PyExn (BudgetBrake × Option BrakeTrip) := do
  let elapsed := FloatTime.seconds (now - start)
  let b := { b with checks := b.checks ++ [elapsed] }
  if spec.wallClockBudgetS.value ≤ FloatModel.value elapsed then
    let t ← trip "budget" (elapsedText spec elapsed) event .abort
    return (b, t)
  else return (b, none)

/-- The token check of `BudgetBrake.update`, and the wall-clock check after it. -/
def BudgetBrake.checkTokens (spec : GoalSpec) (event : Fields) (start now tokens : Int)
    (b : BudgetBrake) : Except PyExn (BudgetBrake × Option BrakeTrip) :=
  let b := { b with tokensUsed := b.tokensUsed + tokens }
  if spec.tokenBudget ≤ b.tokensUsed then do
    let t ← trip "budget" (tokensText spec b.tokensUsed) event .abort
    return (b, t)
  else b.checkClock spec event start now

/-- `BudgetBrake.update(event)`, with the clock at `first` and then at `now`. -/
def BudgetBrake.update (spec : GoalSpec) (event : Fields) (first now : Int) (b : BudgetBrake) :
    Except PyExn (BudgetBrake × Option BrakeTrip) :=
  let start := b.startNs.getD first
  let b := { b with startNs := some start }
  if isKind event "llm.response" then
    match reportedTokens event with
    | some tokens => b.checkTokens spec event start now tokens
    | none => do
        let t ← trip "budget" (.ok (lit "usage_unknown_or_invalid")) event .abort
        return (b, t)
  else b.checkClock spec event start now

end WallClock

/-! ## `NoProgressBrake` -/

/-- `NoProgressBrake`: `_last_fingerprint` and `_streak`. -/
structure NoProgressBrake where
  lastFingerprint : Option Json
  streak : Nat

/-- `event.get("payload") or {}`, which must have `.get`. -/
def toolPayload (event : Fields) : Except PyExn Fields :=
  match event.get? (lit "payload") with
  | none => .ok []
  | some (.obj payload) => .ok payload
  | some v => if v.truthy = true then .error .attributeError else .ok []

/-- `payload.get(key)`. -/
def getOrNull (payload : Fields) (key : String) : Json := (payload.get? (lit key)).getD .null

/-- The fingerprint of a tool call. -/
def fingerprint (payload : Fields) : Except PyExn Json :=
  if (getOrNull payload "fingerprint").truthy = true then .ok (getOrNull payload "fingerprint")
  else do
    let hash ← digest (.obj [(lit "tool", getOrNull payload "tool"),
      (lit "args", getOrNull payload "args"), (lit "kwargs", getOrNull payload "kwargs")])
    return .str hash

/-- `fp == self._last_fingerprint`. -/
def sameFingerprint (fp : Json) : Option Json → Prop
  | some last => fp.Same last
  | none => fp = .null

instance (fp : Json) (last : Option Json) : Decidable (sameFingerprint fp last) :=
  match last with
  | some last => inferInstanceAs (Decidable (fp.Same last))
  | none => inferInstanceAs (Decidable (fp = .null))

/-- The streak after a fingerprint. -/
def NoProgressBrake.observe (b : NoProgressBrake) (fp : Json) : NoProgressBrake :=
  if sameFingerprint fp b.lastFingerprint then { b with streak := b.streak + 1 } else ⟨some fp, 1⟩

/-- `f"identical tool call repeated {self._streak} consecutive times"`. -/
def streakText (streak : Nat) : Except PyExn Str := do
  let streak ← intText streak
  return lit "identical tool call repeated " ++ streak ++ lit " consecutive times"

/-- `NoProgressBrake.update(event)`. -/
def NoProgressBrake.update (threshold : Nat) (event : Fields) (b : NoProgressBrake) :
    Except PyExn (NoProgressBrake × Option BrakeTrip) :=
  if isKind event "tool.invoked" then do
    let payload ← toolPayload event
    let fp ← fingerprint payload
    let b := b.observe fp
    if threshold ≤ b.streak then
      let t ← trip "no_progress" (streakText b.streak) event .escalate
      return (b, t)
    else return (b, none)
  else return (b, none)

/-! ## `CompletionBrake` -/

/-- `CompletionBrake`: `_tripped`. -/
structure CompletionBrake where
  tripped : Bool

/-- `event.get("payload", {})`, of an event whose payload is a dictionary. -/
def customPayload (event : Fields) : Fields :=
  match event.get? (lit "payload") with
  | some (.obj payload) => payload
  | _ => []

/-- The event reports that every check passed. -/
def reportsSuccess (event : Fields) : Prop :=
  isKind event "custom" ∧
    (customPayload event).get? (lit "event") = some (.str (lit "verification_report")) ∧
    (customPayload event).get? (lit "overall_pass") = some (.bool true)

instance (event : Fields) : Decidable (reportsSuccess event) :=
  inferInstanceAs (Decidable (_ ∧ _ ∧ _))

/-- `CompletionBrake.update(event)`. -/
def CompletionBrake.update (event : Fields) (b : CompletionBrake) :
    Except PyExn (CompletionBrake × Option BrakeTrip) :=
  if b.tripped = true then return (b, none)
  else if reportsSuccess event then do
    let t ← trip "completion" (.ok (lit "all goal spec checks passed")) event .continue_
    return (⟨true⟩, t)
  else return (b, none)

/-! ## The standard brakes -/

/-- The brakes that `build_brakes` makes. -/
structure Brakes where
  maxIteration : MaxIterationBrake
  budget : BudgetBrake
  noProgress : NoProgressBrake
  completion : CompletionBrake

/-- The names of the standard brakes, in the order of `build_brakes`. -/
inductive BrakeName where
  | maxIteration
  | budget
  | noProgress
  | completion
deriving DecidableEq, Repr

/-- `build_brakes(spec)` and `reset()`: every brake in its first state. -/
def Brakes.reset : Brakes := ⟨⟨0⟩, ⟨0, none, []⟩, ⟨none, 0⟩, ⟨false⟩⟩

/-- `brake.update(event)`. -/
def Brakes.update [FloatTime] (spec : GoalSpec) (threshold : Nat) (event : Fields) (first now : Int)
    (b : Brakes) : BrakeName → Except PyExn (Brakes × Option BrakeTrip)
  | .maxIteration => do
      let (m, t) ← b.maxIteration.update spec event
      return ({ b with maxIteration := m }, t)
  | .budget => do
      let (m, t) ← b.budget.update spec event first now
      return ({ b with budget := m }, t)
  | .noProgress => do
      let (m, t) ← b.noProgress.update threshold event
      return ({ b with noProgress := m }, t)
  | .completion => do
      let (m, t) ← b.completion.update event
      return ({ b with completion := m }, t)

end Brakes

end ResidualHarness.Loop
