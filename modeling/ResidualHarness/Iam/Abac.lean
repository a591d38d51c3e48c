import ResidualHarness.Iam.Jit
import ResidualHarness.Python.Comprehensions
import ResidualHarness.Python.WholeFloats

/-!
# Attribute-based access control

`residual/iam/abac.py`: conditions over attributes of a user, policies bound to a category and a
scope, and the evaluator with deny-overrides. Attribute values and the constants of conditions are
any JSON values. Of all operators and types, one combination raises: `contains` looks for a constant
that is no string in an attribute that is one. An evaluation without it decides by the applicable
policies alone (`decides_iff`).
-/

set_option autoImplicit false

namespace ResidualHarness.Iam

open Python Core

section

variable [FloatModel]

/-! ## Attributes -/

/-- `KNOWN_ATTRIBUTES`. -/
def knownAttributes : List Str :=
  [lit "department", lit "region", lit "clearance_level", lit "employment_status"]

/-- `UserAttributes`, as its constructor leaves it. -/
structure UserAttributes where
  department : Json
  region : Json
  clearanceLevel : Option Int
  employmentStatus : Json
  custom : Fields
  nonnegative : ∀ n, clearanceLevel = some n → 0 ≤ n
  canonicalCustom : (Json.obj custom).dumpable = true

/-- `UserAttributes(...)`. -/
def UserAttributes.make (department region : Json) (clearanceLevel : Option Int)
    (employmentStatus : Json) (custom : Fields) : Except PyExn UserAttributes :=
  if hlevel : ∀ n ∈ clearanceLevel, 0 ≤ n then
    match hcustom : canonical (.obj custom) with
    | .error x => .error x
    | .ok _ => .ok ⟨department, region, clearanceLevel, employmentStatus, custom, hlevel,
        (dumpable_of_canonical hcustom).1⟩
  else .error (contractError "clearance_level must be a nonnegative integer")

/-- `int(value)`; `intText` is what `int` reads from a string. A float of a JSON text is finite. -/
def toInt (intText : Str → Option Int) : Json → Except PyExn Int
  | .bool b => .ok (if b then 1 else 0)
  | .int i => .ok i
  | .float f =>
      if FloatModel.isFinite f then
        .ok (Int.tdiv (FloatModel.value f).num (FloatModel.value f).den)
      else .error .overflowError
  | .str s =>
      match intText s with
      | some i => .ok i
      | none => .error (.valueError "invalid literal for int() with base 10")
  | _ => .error .typeError

/-- The clearance level among the known attributes. -/
def clearanceOf (intText : Str → Option Int) : Option Json → Except PyExn (Option Int)
  | none => .ok none
  | some v =>
      match toInt intText v with
      | .ok i => .ok (some i)
      | .error .overflowError => .error .overflowError
      | .error _ => .error (contractError "clearance_level must be an integer")

/-- `from_idp(attributes)`. -/
def UserAttributes.fromIdp (intText : Str → Option Int) : Json → Except PyExn UserAttributes
  | .obj (attributes : Fields) => do
      let custom := attributes.filter fun kv => decide (kv.1 ∉ knownAttributes)
      let known (key : String) := (Dict.get? attributes (lit key)).getD .null
      let level ← clearanceOf intText (Dict.get? attributes (lit "clearance_level"))
      UserAttributes.make (known "department") (known "region") level (known "employment_status")
        custom
  | _ => .error (contractError "idp attributes must be a dict")

/-- `get(attribute)`. -/
def UserAttributes.get (a : UserAttributes) (attributeName : Str) : Json :=
  if attributeName = lit "department" then a.department
  else if attributeName = lit "region" then a.region
  else if attributeName = lit "clearance_level" then (a.clearanceLevel.map Json.int).getD .null
  else if attributeName = lit "employment_status" then a.employmentStatus
  else (Dict.get? a.custom attributeName).getD .null

/-! ## Conditions -/

/-- `OPERATORS`. -/
inductive Operator where
  | eq
  | neq
  | isIn
  | gte
  | lte
  | contains
deriving DecidableEq

/-- `Condition`, as its constructor leaves it. -/
structure Condition where
  attributeName : Str
  operator : Operator
  value : Json
  named : isBlank attributeName = false
  canonicalValue : value.dumpable = true

/-- The value of an object whose type is `int` or `float`. -/
def plainNumber : Json → Option ℚ
  | .int i => some i
  | .float f => some (FloatModel.value f)
  | _ => none

/-- `value in actual`; only a string can be looked for in a string. -/
def containsValue (value : Json) : Json → Except PyExn Bool
  | .arr xs => .ok (xs.any fun x => decide (x.Same value))
  | .str s =>
      match value with
      | .str t => .ok (decide (t <:+: s))
      | _ => .error .typeError
  | _ => .ok false

/-- `matches(attributes)`. -/
def Condition.matches (c : Condition) (attributes : UserAttributes) : Except PyExn Bool :=
  let actual := attributes.get c.attributeName
  if actual = .null then .ok false
  else
    match c.operator with
    | .eq => .ok (decide (actual.Same c.value))
    | .neq => .ok (!decide (actual.Same c.value))
    | .isIn =>
        match c.value with
        | .arr xs => .ok (xs.any fun x => decide (x.Same actual))
        | _ => .ok false
    | .contains => containsValue c.value actual
    | .gte =>
        match plainNumber actual, plainNumber c.value with
        | some p, some q => .ok (decide (q ≤ p))
        | _, _ => .ok false
    | .lte =>
        match plainNumber actual, plainNumber c.value with
        | some p, some q => .ok (decide (p ≤ q))
        | _, _ => .ok false

/-! ## Policies -/

/-- `ALLOW` and `DENY`. -/
inductive ABACEffect where
  | allow
  | deny
deriving DecidableEq

/-- `ABACPolicy`, as its constructor leaves it. -/
structure ABACPolicy where
  name : Str
  effect : ABACEffect
  category : Str
  conditions : List Condition
  scope : Str
  named : isIdentifier name = true
  known : category ∈ permissionCategories
  scopeNamed : isBlank scope = false

/-- `all(c.matches(attributes) for c in conditions)`. -/
def allMatch (attributes : UserAttributes) : List Condition → Except PyExn Bool
  | [] => .ok true
  | c :: cs => do
      if ← c.matches attributes then allMatch attributes cs else return false

/-- `applies(attributes, category, scope)`. -/
def ABACPolicy.applies (p : ABACPolicy) (attributes : UserAttributes) (category scope : Str) :
    Except PyExn Bool :=
  if p.category ≠ category then .ok false
  else if p.scope ≠ wildcard ∧ p.scope ≠ scope then .ok false
  else allMatch attributes p.conditions

/-- `ABACDecision`. -/
structure ABACDecision where
  allowed : Bool
  matchedAllow : List Str
  matchedDeny : List Str

/-- `ABACEvaluator`, as its constructor leaves it. -/
structure ABACEvaluator where
  policies : List ABACPolicy
  distinct : (policies.map ABACPolicy.name).Nodup

/-- `add_policy(policy)`. -/
def ABACEvaluator.addPolicy (e : ABACEvaluator) (p : ABACPolicy) : Except PyExn ABACEvaluator :=
  if h : p.name ∈ e.policies.map ABACPolicy.name then
    .error (contractError "duplicate policy name")
  else .ok ⟨e.policies ++ [p], by
    rw [List.map_append, List.nodup_append_comm]
    exact List.nodup_cons.2 ⟨h, e.distinct⟩⟩

/-- The loop of `evaluate`, with the names matched so far. -/
def evaluateLoop (attributes : UserAttributes) (category scope : Str) :
    List ABACPolicy → List Str → List Str → Except PyExn (List Str × List Str)
  | [], matchedAllow, matchedDeny => .ok (matchedAllow, matchedDeny)
  | p :: ps, matchedAllow, matchedDeny => do
      if ← p.applies attributes category scope then
        match p.effect with
        | .allow => evaluateLoop attributes category scope ps (matchedAllow ++ [p.name]) matchedDeny
        | .deny => evaluateLoop attributes category scope ps matchedAllow (matchedDeny ++ [p.name])
      else evaluateLoop attributes category scope ps matchedAllow matchedDeny

/-- `evaluate(attributes, category, scope)`. -/
def ABACEvaluator.evaluate (e : ABACEvaluator) (attributes : UserAttributes) (category scope : Str) :
    Except PyExn ABACDecision := do
  require (category ∈ permissionCategories) (contractError "unknown permission category")
  let (matchedAllow, matchedDeny) ← evaluateLoop attributes category scope e.policies [] []
  return ⟨matchedDeny.isEmpty && !matchedAllow.isEmpty, matchedAllow, matchedDeny⟩

/-! ## What an evaluation decides -/

/-- The condition looks for a constant that is no string in an attribute that is one. -/
def Condition.Mismatched (c : Condition) (attributes : UserAttributes) : Prop :=
  c.operator = .contains ∧ (∃ s, attributes.get c.attributeName = .str s) ∧ ¬ ∃ t, c.value = .str t

/-- The policy is bound to the category and scope, and a mismatched condition comes after conditions
that all match. -/
def ABACPolicy.Reaches (p : ABACPolicy) (attributes : UserAttributes) (category scope : Str) :
    Prop :=
  p.category = category ∧ (p.scope = wildcard ∨ p.scope = scope) ∧
    ∃ pre c post, p.conditions = pre ++ c :: post ∧ (∀ d ∈ pre, Condition.matches d attributes = .ok true) ∧
      c.Mismatched attributes

/-- An applicable policy with this effect. -/
def ABACEvaluator.Applicable (e : ABACEvaluator) (effect : ABACEffect) (attributes : UserAttributes)
    (category scope : Str) : Prop :=
  ∃ p ∈ e.policies, p.effect = effect ∧ p.applies attributes category scope = .ok true

/-- An evaluation returns and denies overrides: the decision is that of the applicable policies, their
order does not matter, and a further policy moves it in its own direction only. -/
structure DenyOverrides (e : ABACEvaluator) (attributes : UserAttributes) (category scope : Str) : Prop where
  returns : ∃ d, e.evaluate attributes category scope = .ok d
  allowed : ∀ d, e.evaluate attributes category scope = .ok d →
    (d.allowed = true ↔ e.Applicable .allow attributes category scope ∧
      ¬ e.Applicable .deny attributes category scope)
  permuted : ∀ e' : ABACEvaluator, e'.policies.Perm e.policies →
    ∃ d d', e.evaluate attributes category scope = .ok d ∧
      e'.evaluate attributes category scope = .ok d' ∧ d'.allowed = d.allowed ∧
      d'.matchedAllow.Perm d.matchedAllow ∧ d'.matchedDeny.Perm d.matchedDeny
  denied : ∀ p e' d d', p.effect = .deny → e.addPolicy p = .ok e' →
    e.evaluate attributes category scope = .ok d → e'.evaluate attributes category scope = .ok d' →
      d.allowed = false → d'.allowed = false
  permitted : ∀ p e' d d', p.effect = .allow → e.addPolicy p = .ok e' →
    e.evaluate attributes category scope = .ok d → e'.evaluate attributes category scope = .ok d' →
      d.allowed = true → d'.allowed = true

variable {attributes : UserAttributes} {category scope : Str}

/-! ## Conditions and policies that raise -/

theorem containsValue_error_iff {v actual : Json} :
    (∃ x, containsValue v actual = .error x) ↔ (∃ s, actual = .str s) ∧ ¬ ∃ t, v = .str t := by
  cases actual with
  | str s => cases v <;> simp [containsValue]
  | _ => simp [containsValue]

theorem matches_error_iff {c : Condition} :
    (∃ x, c.matches attributes = .error x) ↔ c.Mismatched attributes := by
  by_cases hnull : attributes.get c.attributeName = .null
  · simp [Condition.matches, Condition.Mismatched, hnull]
  · rw [Condition.matches, Condition.Mismatched]
    simp only [if_neg hnull]
    cases hop : c.operator with
    | contains => simpa using containsValue_error_iff
    | isIn => cases c.value <;> simp
    | gte => cases plainNumber (attributes.get c.attributeName) <;> cases plainNumber c.value <;> simp
    | lte => cases plainNumber (attributes.get c.attributeName) <;> cases plainNumber c.value <;> simp
    | _ => simp

theorem allMatch_error_iff (cs : List Condition) :
    (∃ x, allMatch attributes cs = .error x) ↔ ∃ pre c post, cs = pre ++ c :: post ∧
      (∀ d ∈ pre, Condition.matches d attributes = .ok true) ∧ c.Mismatched attributes := by
  induction cs with
  | nil => simp [allMatch]
  | cons c cs ih =>
      constructor
      · rintro ⟨x, hx⟩
        rcases bind_eq_error.1 hx with hc | ⟨b, hb, hx⟩
        · exact ⟨[], c, cs, rfl, nofun, matches_error_iff.1 ⟨x, hc⟩⟩
        · cases b with
          | false => cases hx
          | true =>
              obtain ⟨pre, c', post, rfl, hpre, hbad⟩ := ih.1 ⟨x, hx⟩
              refine ⟨c :: pre, c', post, rfl, fun d hd => ?_, hbad⟩
              rcases List.mem_cons.1 hd with rfl | hd
              · exact hb
              · exact hpre d hd
      · rintro ⟨pre, c', post, heq, hpre, hbad⟩
        cases pre with
        | nil =>
            cases heq
            obtain ⟨x, hx⟩ := matches_error_iff.2 hbad
            exact ⟨x, bind_eq_error.2 (.inl hx)⟩
        | cons d pre =>
            cases heq
            obtain ⟨x, hx⟩ := ih.2 ⟨pre, c', post, rfl,
              fun d hd => hpre d (List.mem_cons_of_mem _ hd), hbad⟩
            exact ⟨x, bind_eq_error.2 (.inr ⟨true, hpre _ List.mem_cons_self, hx⟩)⟩

theorem applies_error_iff {p : ABACPolicy} :
    (∃ x, p.applies attributes category scope = .error x) ↔ p.Reaches attributes category scope := by
  rw [ABACPolicy.applies, ABACPolicy.Reaches, ← allMatch_error_iff]
  by_cases hcat : p.category = category
  · by_cases hscope : p.scope ≠ wildcard ∧ p.scope ≠ scope
    · simp [hcat, hscope]
    · have hbound : p.scope = wildcard ∨ p.scope = scope := by
        by_contra hnot
        exact hscope (not_or.1 hnot)
      rw [if_neg (not_not.2 hcat), if_neg hscope]
      exact ⟨fun h => ⟨hcat, hbound, h⟩, fun h => h.2.2⟩
  · simp [hcat]

/-! ## The loop over the policies -/

/-- The policy applies. -/
def ABACPolicy.isApplicable (p : ABACPolicy) (attributes : UserAttributes) (category scope : Str) :
    Bool :=
  decide (p.applies attributes category scope = .ok true)

/-- The names of the applicable policies with this effect. -/
def matched (attributes : UserAttributes) (category scope : Str) (effect : ABACEffect)
    (ps : List ABACPolicy) : List Str :=
  (ps.filter fun p => decide (p.effect = effect) && p.isApplicable attributes category scope).map
    ABACPolicy.name

theorem matched_cons (effect : ABACEffect) (p : ABACPolicy) (ps : List ABACPolicy) :
    matched attributes category scope effect (p :: ps) =
      (if p.effect = effect ∧ p.applies attributes category scope = .ok true then [p.name] else []) ++
        matched attributes category scope effect ps := by
  rw [matched, List.filter_cons, ABACPolicy.isApplicable, matched]
  by_cases h : p.effect = effect ∧ p.applies attributes category scope = .ok true
  · simp [h]
  · rw [if_neg h, if_neg (by simpa using h), List.nil_append]

theorem evaluateLoop_eq {ps : List ABACPolicy}
    (h : ∀ p ∈ ps, ¬ p.Reaches attributes category scope) (as ds : List Str) :
    evaluateLoop attributes category scope ps as ds =
      .ok (as ++ matched attributes category scope .allow ps,
        ds ++ matched attributes category scope .deny ps) := by
  induction ps generalizing as ds with
  | nil => simp [evaluateLoop, matched]
  | cons p ps ih =>
      have hrest := ih fun q hq => h q (List.mem_cons_of_mem _ hq)
      rw [evaluateLoop, matched_cons, matched_cons]
      cases happ : p.applies attributes category scope with
      | error x => exact absurd (applies_error_iff.1 ⟨x, happ⟩) (h p List.mem_cons_self)
      | ok b =>
          refine bind_eq_ok.2 ⟨b, rfl, ?_⟩
          cases b with
          | false => simp [hrest]
          | true => cases p.effect <;> simp [hrest]

theorem evaluateLoop_error {ps : List ABACPolicy} {p : ABACPolicy} (hp : p ∈ ps)
    (h : p.Reaches attributes category scope) (as ds : List Str) :
    ∃ x, evaluateLoop attributes category scope ps as ds = .error x := by
  induction ps generalizing as ds with
  | nil => cases hp
  | cons q ps ih =>
      rw [evaluateLoop]
      cases happ : q.applies attributes category scope with
      | error x => exact ⟨x, rfl⟩
      | ok b =>
          have htail : p ∈ ps := by
            rcases List.mem_cons.1 hp with rfl | hp
            · obtain ⟨x, hx⟩ := applies_error_iff.2 h
              rw [happ] at hx
              cases hx
            · exact hp
          obtain ⟨x, hx⟩ : ∃ x, (if b = true then
              match q.effect with
              | .allow => evaluateLoop attributes category scope ps (as ++ [q.name]) ds
              | .deny => evaluateLoop attributes category scope ps as (ds ++ [q.name])
            else evaluateLoop attributes category scope ps as ds) = .error x := by
            cases b with
            | false => exact ih htail as ds
            | true =>
                cases q.effect with
                | allow => exact ih htail _ ds
                | deny => exact ih htail as _
          exact ⟨x, bind_eq_error.2 (.inr ⟨b, rfl, hx⟩)⟩

/-! ## Evaluations -/

variable {e : ABACEvaluator}

/-- The decision of the applicable policies. -/
def decision (attributes : UserAttributes) (category scope : Str) (ps : List ABACPolicy) :
    ABACDecision :=
  ⟨(matched attributes category scope .deny ps).isEmpty &&
      !(matched attributes category scope .allow ps).isEmpty,
    matched attributes category scope .allow ps, matched attributes category scope .deny ps⟩

theorem evaluate_eq (hcat : category ∈ permissionCategories)
    (h : ∀ p ∈ e.policies, ¬ p.Reaches attributes category scope) :
    e.evaluate attributes category scope = .ok (decision attributes category scope e.policies) := by
  rw [ABACEvaluator.evaluate]
  exact bind_eq_ok.2 ⟨(), require_of hcat, bind_eq_ok.2 ⟨_, evaluateLoop_eq h [] [], rfl⟩⟩

/-- An evaluation that returns has met no policy that raises. -/
theorem evaluate_ok {d : ABACDecision} (h : e.evaluate attributes category scope = .ok d) :
    (∀ p ∈ e.policies, ¬ p.Reaches attributes category scope) ∧
      d = decision attributes category scope e.policies := by
  rw [ABACEvaluator.evaluate] at h
  obtain ⟨_, hcat, h⟩ := bind_eq_ok.1 h
  obtain ⟨names, hloop, hret⟩ := bind_eq_ok.1 h
  have hnone : ∀ p ∈ e.policies, ¬ p.Reaches attributes category scope := by
    intro p hp hreach
    obtain ⟨x, hx⟩ := evaluateLoop_error hp hreach [] []
    rw [hx] at hloop
    cases hloop
  rw [evaluateLoop_eq hnone] at hloop
  cases hloop
  cases hret
  exact ⟨hnone, rfl⟩

theorem matched_ne_nil {effect : ABACEffect} :
    matched attributes category scope effect e.policies ≠ [] ↔
      e.Applicable effect attributes category scope := by
  rw [matched, ne_eq, List.map_eq_nil_iff, List.filter_eq_nil_iff, ABACEvaluator.Applicable]
  simp [ABACPolicy.isApplicable]

theorem decision_allowed : (decision attributes category scope e.policies).allowed = true ↔
    e.Applicable .allow attributes category scope ∧
      ¬ e.Applicable .deny attributes category scope := by
  rw [← matched_ne_nil, ← matched_ne_nil, not_not, decision, Bool.and_eq_true, Bool.not_eq_true',
    List.isEmpty_iff, ← Bool.not_eq_true, List.isEmpty_iff]
  exact and_comm

theorem matched_perm {ps qs : List ABACPolicy} (h : ps.Perm qs) (effect : ABACEffect) :
    (matched attributes category scope effect ps).Perm
      (matched attributes category scope effect qs) :=
  (h.filter _).map _

theorem decision_perm {ps qs : List ABACPolicy} (h : ps.Perm qs) :
    (decision attributes category scope ps).allowed =
      (decision attributes category scope qs).allowed := by
  simp only [decision, (matched_perm h _).isEmpty_eq]

theorem applicable_add {p : ABACPolicy} {e' : ABACEvaluator} (h : e.addPolicy p = .ok e')
    (effect : ABACEffect) : e'.Applicable effect attributes category scope ↔
      e.Applicable effect attributes category scope ∨
        (p.effect = effect ∧ p.applies attributes category scope = .ok true) := by
  rw [ABACEvaluator.addPolicy] at h
  split at h
  · cases h
  · cases h
    simp [ABACEvaluator.Applicable, or_and_right, exists_or]

/-- An evaluation decides as it should exactly when it meets no mismatched condition. -/
theorem decides_iff (e : ABACEvaluator) (attributes : UserAttributes) {category : Str}
    (hcat : category ∈ permissionCategories) (scope : Str) :
    DenyOverrides e attributes category scope ↔
      ∀ p ∈ e.policies, ¬ p.Reaches attributes category scope := by
  refine ⟨fun h => ?_, fun h => ?_⟩
  · obtain ⟨d, hd⟩ := h.returns
    exact (evaluate_ok hd).1
  · have heval := evaluate_eq hcat h
    refine ⟨⟨_, heval⟩, fun d hd => ?_, fun e' hperm => ?_, fun p e' d d' hp hadd hd hd' hno => ?_,
      fun p e' d d' hp hadd hd hd' hyes => ?_⟩
    · rw [heval] at hd
      cases hd
      exact decision_allowed
    · have h' : ∀ p ∈ e'.policies, ¬ p.Reaches attributes category scope :=
        fun p hp => h p (hperm.mem_iff.1 hp)
      exact ⟨_, _, heval, evaluate_eq hcat h', decision_perm hperm, matched_perm hperm .allow,
        matched_perm hperm .deny⟩
    · obtain ⟨-, rfl⟩ := evaluate_ok hd
      obtain ⟨-, rfl⟩ := evaluate_ok hd'
      rw [← Bool.not_eq_true, decision_allowed] at hno ⊢
      rw [applicable_add hadd, applicable_add hadd]
      rintro ⟨hallow | ⟨heffect, -⟩, hdeny⟩
      · exact hno ⟨hallow, fun hd => hdeny (.inl hd)⟩
      · rw [hp] at heffect
        cases heffect
    · obtain ⟨-, rfl⟩ := evaluate_ok hd
      obtain ⟨-, rfl⟩ := evaluate_ok hd'
      rw [decision_allowed] at hyes ⊢
      rw [applicable_add hadd, applicable_add hadd]
      refine ⟨.inl hyes.1, ?_⟩
      rintro (hdeny | ⟨heffect, -⟩)
      · exact hyes.2 hdeny
      · rw [hp] at heffect
        cases heffect

end

section Concrete

attribute [local instance] wholeFloats

/-- `from_idp({"department": "eng"})`. -/
def engineer : UserAttributes where
  department := .str (lit "eng")
  region := .null
  clearanceLevel := none
  employmentStatus := .null
  custom := []
  nonnegative := nofun
  canonicalCustom := by decide

/-- A policy for tasks with `contains` on the department. -/
def containsPolicy (value : Json) (hvalue : value.dumpable = true) : ABACPolicy where
  name := lit "p"
  effect := .allow
  category := lit "task_type"
  conditions := [⟨lit "department", .contains, value, by decide, hvalue⟩]
  scope := wildcard
  named := by decide
  known := by decide
  scopeNamed := by decide

/-- The one policy that looks for the number 5 in a department. -/
def numberEvaluator : ABACEvaluator := ⟨[containsPolicy (.int 5) (by decide)], by decide⟩

/-- The evaluation of that policy for an engineer raises. -/
theorem number_in_department : ¬ ∀ (e : ABACEvaluator) (attributes : UserAttributes),
    DenyOverrides e attributes (lit "task_type") wildcard := by
  intro h
  obtain ⟨d, hd⟩ := (h numberEvaluator engineer).returns
  have hraises : numberEvaluator.evaluate engineer (lit "task_type") wildcard = .error .typeError := by
    rfl
  rw [hraises] at hd
  cases hd

/-- A policy that looks for a string decides. -/
theorem decides_engineer : DenyOverrides ⟨[containsPolicy (.str (lit "en")) (by decide)], by decide⟩ engineer
    (lit "task_type") wildcard := by
  refine (decides_iff _ engineer (by decide) wildcard).2 fun p hp hreach => ?_
  obtain ⟨x, hx⟩ := applies_error_iff.2 hreach
  have happlies : (containsPolicy (.str (lit "en")) (by decide)).applies engineer (lit "task_type")
      wildcard = .ok true := by rfl
  rw [List.mem_singleton.1 hp, happlies] at hx
  cases hx

end Concrete

end ResidualHarness.Iam
