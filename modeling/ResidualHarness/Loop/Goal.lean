import ResidualHarness.Core.Task

/-!
# Goals and their verification

`residual/goalspec.py` and `residual/verifier.py`. A goal specification carries the checks of its
constructor. An evaluator is host code that may answer differently at every call, so it is a function
of the pass and of the criterion it is called for, besides the candidate and the parameters. `verify`
returns its report with the evaluator calls it made, in order.
-/

set_option autoImplicit false

namespace ResidualHarness.Loop

open Python Core

/-! ## Goal specifications -/

/-- `CheckType`. -/
inductive CheckType where
  | mechanical
  | structural
  | judge
deriving DecidableEq, Repr

namespace CheckType

/-- The value of a check type. -/
def value : CheckType → Str
  | .mechanical => lit "mechanical"
  | .structural => lit "structural"
  | .judge => lit "judge"

/-- `order_index`. -/
def orderIndex : CheckType → Nat
  | .mechanical => 0
  | .structural => 1
  | .judge => 2

end CheckType

section Specs

variable [FloatModel]

/-- `SuccessCriterion`. -/
structure SuccessCriterion where
  name : Str
  checkType : CheckType
  description : Str
  evaluator : Str
  parameters : Fields
  name_identifier : isIdentifier name = true
  description_text : isBlank description = false
  evaluator_text : isBlank evaluator = false

/-- `AmendmentRule`. -/
structure AmendmentRule where
  authorizedRoles : List Str
  maxAmendments : Nat
  roles_given : authorizedRoles ≠ []
  roles_identifiers : ∀ r ∈ authorizedRoles, isIdentifier r = true
  amendments_positive : 1 ≤ maxAmendments

/-- An `int` or a `float`. -/
inductive Number where
  | int (i : Int)
  | float (f : FloatModel.F)

namespace Number

/-- The number a value stands for. -/
def value : Number → ℚ
  | .int i => i
  | .float f => FloatModel.value f

/-- `math.isfinite`. -/
def isFinite : Number → Bool
  | .int _ => true
  | .float f => FloatModel.isFinite f

/-- The JSON value of a number. -/
def toJson : Number → Json
  | .int i => .int i
  | .float f => .float f

end Number

/-- `re.fullmatch(r"[0-9]+\.[0-9]+\.[0-9]+", text)`. -/
def isVersion (text : Str) : Bool :=
  match text.splitOn 0x2E with
  | [major, minor, patch] =>
      [major, minor, patch].all fun part => !part.isEmpty && part.all isDigit
  | _ => false

/-- The amendment metadata that the constructor accepts. -/
def amendmentAllowed (rule : AmendmentRule) (count : Nat) (parent reason by_ : Option Str) : Prop :=
  if count = 0 then parent = none ∧ reason = none ∧ by_ = none
  else (∃ h, parent = some h ∧ isHash h = true) ∧ (∃ r, reason = some r ∧ isBlank r = false) ∧
    ∃ role ∈ rule.authorizedRoles, by_ = some role

/-- `GoalSpec`, with the checks of `__post_init__`. -/
structure GoalSpec where
  goalId : Str
  objective : Str
  successCriteria : List SuccessCriterion
  maxPasses : Nat
  tokenBudget : Int
  wallClockBudgetS : Number
  amendmentRule : AmendmentRule
  schemaVersion : Str
  amendmentCount : Nat
  parentHash : Option Str
  amendmentReason : Option Str
  amendedBy : Option Str
  goalId_identifier : isIdentifier goalId = true
  objective_text : isBlank objective = false
  criteria_given : successCriteria ≠ []
  passes_positive : 1 ≤ maxPasses
  tokens_positive : 1 ≤ tokenBudget
  wallClock_finite : wallClockBudgetS.isFinite = true
  wallClock_positive : 0 < wallClockBudgetS.value
  version_text : isVersion schemaVersion = true
  amendments_bounded : amendmentCount ≤ amendmentRule.maxAmendments
  amendment_allowed : amendmentAllowed amendmentRule amendmentCount parentHash amendmentReason amendedBy
  criteria_ordered : (successCriteria.map fun c => c.checkType.orderIndex).Pairwise (· ≤ ·)
  criteria_named : (successCriteria.map SuccessCriterion.name).Nodup

/-- An entry of `success_criteria` in `GoalSpec.to_dict()`. -/
def SuccessCriterion.toDict (c : SuccessCriterion) : Json :=
  .obj [(lit "name", .str c.name), (lit "check_type", .str c.checkType.value),
    (lit "description", .str c.description), (lit "evaluator", .str c.evaluator),
    (lit "parameters", .obj c.parameters)]

/-- `GoalSpec.to_dict()`. -/
def GoalSpec.toDict (spec : GoalSpec) : Json :=
  .obj [(lit "goal_id", .str spec.goalId), (lit "objective", .str spec.objective),
    (lit "success_criteria", .arr (spec.successCriteria.map SuccessCriterion.toDict)),
    (lit "max_passes", .int spec.maxPasses), (lit "token_budget", .int spec.tokenBudget),
    (lit "wall_clock_budget_s", spec.wallClockBudgetS.toJson),
    (lit "schema_version", .str spec.schemaVersion),
    (lit "amendment_rule", .obj [
      (lit "authorized_roles", strings spec.amendmentRule.authorizedRoles),
      (lit "max_amendments", .int spec.amendmentRule.maxAmendments)]),
    (lit "amendment_count", .int spec.amendmentCount),
    (lit "parent_hash", optionalString spec.parentHash),
    (lit "amendment_reason", optionalString spec.amendmentReason),
    (lit "amended_by", optionalString spec.amendedBy)]

/-- `GoalSpec.content_hash`. -/
def GoalSpec.contentHash (spec : GoalSpec) : Except PyExn Str := digest spec.toDict

end Specs

/-! ## Time -/

/-- Where in a run the clock is read. -/
inductive Stage where
  | guard
  | usage
  | observation
  | observed
  | verification
  | reported
  | verified
  | completed
deriving DecidableEq, Repr

/-- The order of the stages of a pass. -/
def Stage.rank : Stage → Nat
  | .guard => 0
  | .usage => 1
  | .observation => 2
  | .observed => 3
  | .verification => 4
  | .reported => 5
  | .verified => 6
  | .completed => 7

/-- One reading of the clock: the `index`-th one of its stage in a pass. The readings before the first
pass belong to pass 0. -/
structure Instant where
  pass : Nat
  stage : Stage
  index : Nat

/-- Instants in the order of a run. -/
instance : LE Instant :=
  ⟨fun i j => i.pass < j.pass ∨ i.pass = j.pass ∧
    (i.stage.rank < j.stage.rank ∨ i.stage.rank = j.stage.rank ∧ i.index ≤ j.index)⟩

/-- The operations on floats that the loop uses on its times. -/
class FloatTime [FloatModel] where
  /-- `a - b`. -/
  sub : FloatModel.F → FloatModel.F → FloatModel.F
  /-- `n / 1e9`. -/
  seconds : Int → FloatModel.F
  /-- `round(x * 1000, 3)`. -/
  millis : FloatModel.F → FloatModel.F
  /-- `round(x, 3)`. -/
  rounded : FloatModel.F → FloatModel.F
  /-- `format(x, ".1f")`. -/
  fixed : FloatModel.F → Str
  seconds_le : ∀ m n, m ≤ n → FloatModel.value (seconds m) ≤ FloatModel.value (seconds n)

/-- A monotone clock: `time.monotonic()` and `time.monotonic_ns()`. -/
structure Clock [FloatModel] where
  monotonic : Instant → FloatModel.F
  monotonicNs : Instant → Int
  monotonic_le : ∀ i j : Instant, i ≤ j → FloatModel.value (monotonic i) ≤ FloatModel.value (monotonic j)
  monotonicNs_le : ∀ i j : Instant, i ≤ j → monotonicNs i ≤ monotonicNs j

/-! ## The verifier -/

/-- `CheckResult`. -/
inductive CheckResult where
  | pass
  | fail
  | unknown
  | skipped
deriving DecidableEq, Repr

/-- What an evaluator call gives: it raised (or its result does not unpack to two values), or it
returned a result and a reason. `none` stands for a result that is no `CheckResult` and for a reason
that is no string. -/
inductive Evaluation where
  | raised
  | returned (result : Option CheckResult) (reason : Option Str)

section Verification

variable [FloatModel] {κ : Type}

/-- An evaluator: its answer at a pass, for the criterion at an index, on a candidate. -/
abbrev Evaluator (κ : Type) := Nat → Nat → κ → Fields → Evaluation

/-- `Verifier`: the evaluators by name. -/
structure Verifier (κ : Type) where
  evaluators : Dict Str (Evaluator κ)

/-- `CriterionResult`. -/
structure CriterionResult where
  name : Str
  checkType : CheckType
  result : CheckResult
  reason : Str
  durationMs : FloatModel.F

/-- `VerificationReport`. -/
structure VerificationReport where
  goalId : Str
  overallPass : Bool
  results : List CriterionResult
  primaryFailure : Option Str
  durationMs : FloatModel.F

/-- A call of an evaluator, for a criterion and its index. -/
structure EvaluatorCall where
  index : Nat
  criterion : SuccessCriterion

/-- The result of an evaluator, as `_evaluate_one` passes it on. -/
def screened : Evaluation → CheckResult × Str
  | .raised => (.fail, lit "check_error")
  | .returned (some .pass) (some reason) => (.pass, reason.take 1000)
  | .returned (some .fail) (some reason) => (.fail, reason.take 1000)
  | .returned (some .unknown) (some reason) => (.unknown, reason.take 1000)
  | .returned _ _ => (.fail, lit "invalid_check_result")

/-- `_evaluate_one(criterion, candidate, prior_failed)`, and whether it calls the evaluator. -/
def Verifier.evaluateOne (v : Verifier κ) (pass index : Nat) (c : SuccessCriterion) (candidate : κ)
    (priorFailed : Bool) : (CheckResult × Str) × Bool :=
  if c.checkType = .judge ∧ priorFailed = true then ((.skipped, lit "prior_check_failed"), false)
  else
    match v.evaluators.get? c.evaluator with
    | none =>
        if c.checkType = .judge then ((.fail, lit "judge_unavailable"), false)
        else ((.fail, lit "evaluator_not_registered:" ++ c.evaluator), false)
    | some evaluator => (screened (evaluator pass index candidate c.parameters), true)

/-- The variables of the loop in `verify`, and the evaluator calls so far. -/
structure Progress where
  results : List CriterionResult
  priorFailed : Bool
  primaryFailure : Option Str
  calls : List EvaluatorCall

variable [FloatTime]

/-- The time from one instant to another. -/
def Clock.elapsed (clock : Clock) (since i : Instant) : FloatModel.F :=
  FloatTime.sub (clock.monotonic i) (clock.monotonic since)

/-- The duration of the `index`-th check of a pass. -/
def checkDuration (clock : Clock) (pass index : Nat) : FloatModel.F :=
  FloatTime.millis (clock.elapsed ⟨pass, .verification, 2 * index + 1⟩
    ⟨pass, .verification, 2 * index + 2⟩)

/-- One round of the loop in `verify`. -/
def Verifier.round (v : Verifier κ) (clock : Clock) (pass : Nat) (candidate : κ) (index : Nat)
    (c : SuccessCriterion) (p : Progress) : Progress :=
  let evaluated := v.evaluateOne pass index c candidate p.priorFailed
  let result := evaluated.1.1
  { results := p.results ++
      [⟨c.name, c.checkType, result, evaluated.1.2, checkDuration clock pass index⟩]
    priorFailed := p.priorFailed || decide (result ≠ .pass)
    primaryFailure :=
      if result ≠ .pass ∧ p.primaryFailure = none then some c.name else p.primaryFailure
    calls := if evaluated.2 = true then p.calls ++ [⟨index, c⟩] else p.calls }

/-- `for criterion in spec.success_criteria`, from an index on. -/
def Verifier.rounds (v : Verifier κ) (clock : Clock) (pass : Nat) (candidate : κ) :
    Nat → List SuccessCriterion → Progress → Progress
  | _, [], p => p
  | index, c :: cs, p => v.rounds clock pass candidate (index + 1) cs
      (v.round clock pass candidate index c p)

/-- `verify(candidate, spec)` in a pass: the report and the evaluator calls. -/
def Verifier.verify (v : Verifier κ) (clock : Clock) (spec : GoalSpec) (pass : Nat) (candidate : κ) :
    VerificationReport × List EvaluatorCall :=
  let p := v.rounds clock pass candidate 0 spec.successCriteria ⟨[], false, none, []⟩
  (⟨spec.goalId, p.results.all fun r => decide (r.result = .pass), p.results, p.primaryFailure,
    FloatTime.millis (clock.elapsed ⟨pass, .verification, 0⟩
      ⟨pass, .verification, 2 * spec.successCriteria.length + 1⟩)⟩, p.calls)

/-! ## What a report says -/

/-- The evaluator of a criterion is registered and answers `PASS`. -/
def Verifier.Passes (v : Verifier κ) (pass index : Nat) (candidate : κ) (c : SuccessCriterion) : Prop :=
  ∃ evaluator reason, v.evaluators.get? c.evaluator = some evaluator ∧
    evaluator pass index candidate c.parameters = .returned (some .pass) (some reason)

/-- Every result is `PASS`. -/
def AllPass (results : List CriterionResult) : Prop := ∀ r ∈ results, r.result = .pass

omit [FloatModel] [FloatTime] in
theorem screened_pass {e : Evaluation} :
    (screened e).1 = .pass ↔ ∃ reason, e = .returned (some .pass) (some reason) := by
  cases e with
  | raised => simp [screened]
  | returned result reason => rcases result with _ | _ | _ | _ | _ <;> cases reason <;> simp [screened]

omit [FloatTime] in
/-- A criterion passes exactly when its evaluator answers so and it is no judge after a failure. -/
theorem evaluateOne_pass {v : Verifier κ} {pass index : Nat} {c : SuccessCriterion} {candidate : κ}
    {priorFailed : Bool} :
    (v.evaluateOne pass index c candidate priorFailed).1.1 = .pass ↔
      ¬(c.checkType = .judge ∧ priorFailed = true) ∧ v.Passes pass index candidate c := by
  rw [Verifier.evaluateOne]
  by_cases hskip : c.checkType = .judge ∧ priorFailed = true
  · rw [if_pos hskip]
    simp [hskip]
  · rw [if_neg hskip]
    cases hget : v.evaluators.get? c.evaluator with
    | none =>
        have hnone : ¬v.Passes pass index candidate c := by
          rintro ⟨evaluator, reason, hsome, -⟩
          rw [hget] at hsome
          cases hsome
        by_cases hjudge : c.checkType = .judge <;> simp [hjudge, hnone]
    | some evaluator =>
        simp only [screened_pass, hskip, not_false_eq_true, true_and, Verifier.Passes, hget,
          Option.some.injEq, exists_and_left, exists_eq_left']

omit [FloatTime] in
theorem evaluateOne_called {v : Verifier κ} {pass index : Nat} {c : SuccessCriterion} {candidate : κ}
    {priorFailed : Bool} (h : (v.evaluateOne pass index c candidate priorFailed).1.1 = .pass) :
    (v.evaluateOne pass index c candidate priorFailed).2 = true := by
  obtain ⟨hskip, evaluator, reason, hget, -⟩ := evaluateOne_pass.1 h
  rw [Verifier.evaluateOne, if_neg hskip, hget]

omit [FloatTime] in
/-- No judge is called after a failure. -/
theorem evaluateOne_judge {v : Verifier κ} {pass index : Nat} {c : SuccessCriterion} {candidate : κ}
    {priorFailed : Bool} (h : (v.evaluateOne pass index c candidate priorFailed).2 = true)
    (hjudge : c.checkType = .judge) : priorFailed = false := by
  rw [Verifier.evaluateOne] at h
  cases priorFailed with
  | false => rfl
  | true =>
      rw [if_pos ⟨hjudge, rfl⟩] at h
      cases h

/-- `prior_failed` says whether a result so far is no `PASS`. -/
def Progress.Sound (p : Progress) : Prop := p.priorFailed = false ↔ AllPass p.results

variable {v : Verifier κ} {clock : Clock} {pass : Nat} {candidate : κ}

theorem round_sound {index : Nat} {c : SuccessCriterion} {p : Progress} (h : p.Sound) :
    (v.round clock pass candidate index c p).Sound := by
  rw [Progress.Sound] at h
  simp only [Progress.Sound, Verifier.round, AllPass, List.mem_append, List.mem_singleton,
    Bool.or_eq_false_iff, h, decide_eq_false_iff_not, not_not]
  constructor
  · rintro ⟨hall, hnew⟩ r (hr | rfl)
    · exact hall r hr
    · exact hnew
  · intro hall
    exact ⟨fun r hr => hall r (Or.inl hr), hall _ (Or.inr rfl)⟩

/-- A round passes exactly when the criterion passes after passes only. -/
theorem round_allPass {index : Nat} {c : SuccessCriterion} {p : Progress} (h : p.Sound) :
    AllPass (v.round clock pass candidate index c p).results ↔
      AllPass p.results ∧ v.Passes pass index candidate c := by
  have hround : _ ↔ AllPass (v.round clock pass candidate index c p).results := round_sound h
  rw [← hround]
  rw [Progress.Sound] at h
  simp only [Verifier.round, Bool.or_eq_false_iff, decide_eq_false_iff_not, not_not,
    evaluateOne_pass, h]
  constructor
  · rintro ⟨hall, -, hpass⟩
    exact ⟨hall, hpass⟩
  · rintro ⟨hall, hpass⟩
    refine ⟨hall, ?_, hpass⟩
    rintro ⟨-, hfailed⟩
    rw [h.2 hall] at hfailed
    cases hfailed

theorem rounds_calls {index : Nat} {cs : List SuccessCriterion} {p : Progress} {call : EvaluatorCall}
    (h : call ∈ p.calls) : call ∈ (v.rounds clock pass candidate index cs p).calls := by
  induction cs generalizing index p with
  | nil => exact h
  | cons c cs ih =>
      apply ih
      rw [Verifier.round]
      by_cases hcalled : (v.evaluateOne pass index c candidate p.priorFailed).2 = true
      · simp only [if_pos hcalled]
        exact List.mem_append_left _ h
      · simp only [if_neg hcalled]
        exact h

/-- All results pass exactly when all evaluators answer `PASS`. -/
theorem rounds_allPass {index : Nat} {cs : List SuccessCriterion} {p : Progress} (h : p.Sound) :
    AllPass (v.rounds clock pass candidate index cs p).results ↔
      AllPass p.results ∧ ∀ i c, cs[i]? = some c → v.Passes pass (index + i) candidate c := by
  induction cs generalizing index p with
  | nil => simp [Verifier.rounds]
  | cons c cs ih =>
      rw [Verifier.rounds, ih (round_sound h), round_allPass h, and_assoc]
      refine and_congr_right fun _ => ?_
      constructor
      · rintro ⟨hfirst, hrest⟩ i d hd
        cases i with
        | zero =>
            rw [List.getElem?_cons_zero, Option.some.injEq] at hd
            rw [← hd]
            exact hfirst
        | succ i =>
            rw [List.getElem?_cons_succ] at hd
            have := hrest i d hd
            rwa [Nat.add_right_comm] at this
      · intro hall
        refine ⟨hall 0 c rfl, ?_⟩
        intro i d hd
        have := hall (i + 1) d hd
        rwa [← Nat.add_assoc, Nat.add_right_comm] at this

/-- Where all results pass, every criterion was evaluated. -/
theorem rounds_evaluated {index : Nat} {cs : List SuccessCriterion} {p : Progress} (h : p.Sound)
    (hpass : AllPass (v.rounds clock pass candidate index cs p).results) {i : Nat}
    {c : SuccessCriterion} (hc : cs[i]? = some c) :
    ∃ call ∈ (v.rounds clock pass candidate index cs p).calls,
      call.index = index + i ∧ call.criterion = c := by
  induction cs generalizing index p i with
  | nil => cases hc
  | cons d cs ih =>
      rw [Verifier.rounds] at hpass ⊢
      cases i with
      | zero =>
          rw [List.getElem?_cons_zero, Option.some.injEq] at hc
          have hall := (round_sound h).2 ((rounds_allPass (round_sound h)).1 hpass).1
          have hcalled : (v.evaluateOne pass index d candidate p.priorFailed).2 = true := by
            apply evaluateOne_called
            simp only [Verifier.round, Bool.or_eq_false_iff, decide_eq_false_iff_not, not_not] at hall
            exact hall.2
          refine ⟨⟨index, d⟩, rounds_calls ?_, rfl, hc⟩
          simp only [Verifier.round, if_pos hcalled]
          exact List.mem_append_right _ (List.mem_singleton.2 rfl)
      | succ i =>
          obtain ⟨call, hmem, hindex, hcriterion⟩ := ih (round_sound h) hpass hc
          exact ⟨call, hmem, by omega, hcriterion⟩

/-- A judge that is called comes after criteria that all pass. -/
theorem rounds_judged {index : Nat} {cs : List SuccessCriterion} {p : Progress} (h : p.Sound)
    {call : EvaluatorCall} (hcall : call ∈ (v.rounds clock pass candidate index cs p).calls)
    (hjudge : call.criterion.checkType = .judge) :
    call ∈ p.calls ∨ ∃ i, call.index = index + i ∧ cs[i]? = some call.criterion ∧
      AllPass p.results ∧ ∀ j < i, ∀ d, cs[j]? = some d → v.Passes pass (index + j) candidate d := by
  induction cs generalizing index p with
  | nil => exact Or.inl hcall
  | cons c cs ih =>
      rw [Verifier.rounds] at hcall
      rcases ih (round_sound h) hcall with hold | ⟨i, hindex, hget, hall, hearlier⟩
      · by_cases hcalled : (v.evaluateOne pass index c candidate p.priorFailed).2 = true
        · simp only [Verifier.round, if_pos hcalled, List.mem_append, List.mem_singleton] at hold
          rcases hold with hold | rfl
          · exact Or.inl hold
          · exact Or.inr ⟨0, rfl, rfl, h.1 (evaluateOne_judge hcalled hjudge), nofun⟩
        · simp only [Verifier.round, if_neg hcalled] at hold
          exact Or.inl hold
      · obtain ⟨hall, hfirst⟩ := (round_allPass h).1 hall
        refine Or.inr ⟨i + 1, by omega, hget, hall, ?_⟩
        intro j hj d hd
        cases j with
        | zero =>
            rw [List.getElem?_cons_zero, Option.some.injEq] at hd
            rw [← hd]
            exact hfirst
        | succ j =>
            have := hearlier j (by omega) d hd
            rwa [Nat.add_right_comm] at this

omit [FloatTime] in
theorem opening_sound : (⟨[], false, none, []⟩ : Progress).Sound := by
  simp [Progress.Sound, AllPass]

variable {spec : GoalSpec}

/-- The verification passes exactly when every criterion passes on the candidate. -/
theorem verify_overallPass :
    (v.verify clock spec pass candidate).1.overallPass = true ↔
      ∀ i c, spec.successCriteria[i]? = some c → v.Passes pass i candidate c := by
  have h : AllPass (v.rounds clock pass candidate 0 spec.successCriteria ⟨[], false, none, []⟩).results ↔
      AllPass [] ∧ ∀ i c, spec.successCriteria[i]? = some c → v.Passes pass (0 + i) candidate c :=
    rounds_allPass opening_sound
  simp only [Nat.zero_add] at h
  rw [Verifier.verify]
  simp only [List.all_eq_true, decide_eq_true_eq]
  rw [← AllPass, h]
  simp [AllPass]

theorem verify_results :
    (v.verify clock spec pass candidate).1.overallPass = true ↔
      AllPass (v.verify clock spec pass candidate).1.results := by
  simp only [Verifier.verify, AllPass, List.all_eq_true, decide_eq_true_eq]

theorem verify_evaluated (h : (v.verify clock spec pass candidate).1.overallPass = true) {i : Nat}
    {c : SuccessCriterion} (hc : spec.successCriteria[i]? = some c) :
    ∃ call ∈ (v.verify clock spec pass candidate).2, call.index = i ∧ call.criterion = c := by
  obtain ⟨call, hmem, hindex, hcriterion⟩ := rounds_evaluated opening_sound (verify_results.1 h) hc
  exact ⟨call, hmem, by omega, hcriterion⟩

/-- A judge is called only after every earlier criterion of the pass passed. -/
theorem verify_judged {call : EvaluatorCall} (h : call ∈ (v.verify clock spec pass candidate).2)
    (hjudge : call.criterion.checkType = .judge) {j : Nat} (hj : j < call.index)
    {d : SuccessCriterion} (hd : spec.successCriteria[j]? = some d) :
    v.Passes pass j candidate d := by
  rcases rounds_judged opening_sound h hjudge with hnone | ⟨i, hindex, -, -, hearlier⟩
  · cases hnone
  · have := hearlier j (by omega) d hd
    rwa [Nat.zero_add] at this

end Verification

end ResidualHarness.Loop
