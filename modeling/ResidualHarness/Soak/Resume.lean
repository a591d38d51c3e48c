import ResidualHarness.Python.Loops
import ResidualHarness.Python.Text
import Mathlib.Data.Rat.Floor

/-!
# Resumed soak tests

`SoakMetrics`, `SoakState` and `SoakHarness` of `residual/soak`, with the random streams as a
parameter (`Simulator`) and floats as exact rationals. Harnesses that share a state file take their
steps in any order and may be killed between any two of them. As long as all of them run the same
days, what is in the file and in memory is the sum of the days before the cursor (`resumed_total`).
The state is loaded without a look at its configuration (`days_of_another`).
-/

set_option autoImplicit false

namespace ResidualHarness.Soak

open Python

/-! ## Metrics -/

/-- The counters of `SoakMetrics`. -/
inductive Counter where
  | tasksExecuted
  | accepted
  | rejected
  | escalated
  | unhandledExceptions
  | cacheHits
  | cacheEligible
  | tokensUsed
  | tokensUncached
  | brakeFalsePositives
  | brakeFalseNegatives
  | adversarialTasks
  | intentionalFailures
deriving DecidableEq

/-- `SoakMetrics`. -/
@[ext]
structure SoakMetrics where
  count : Counter → Int
  recoveryTimesSeconds : List ℚ

/-- An event of the executor, with what `record` reads for a missing key. -/
structure Event where
  unhandledException : Bool := false
  cacheEligible : Bool := false
  cacheHit : Bool := false
  tokensUsed : Int := 0
  tokensUncached : Int := 0
  accepted : Bool := false
  escalated : Bool := false
  adversarial : Bool := false
  blocked : Bool := true
  brakeFired : Bool := false
  intentionalFailure : Bool := false
  recoverySeconds : Option ℚ := none

/-- What `record` adds to each counter. After an unhandled exception it returns early. -/
def Event.adds (e : Event) : Counter → Int
  | .tasksExecuted => 1
  | .cacheEligible => e.cacheEligible.toInt
  | .cacheHits => e.cacheHit.toInt
  | .tokensUsed => e.tokensUsed
  | .tokensUncached => e.tokensUncached
  | .unhandledExceptions => e.unhandledException.toInt
  | .accepted => (!e.unhandledException && e.accepted).toInt
  | .rejected => (!e.unhandledException && !e.accepted).toInt
  | .escalated => (!e.unhandledException && e.escalated).toInt
  | .adversarialTasks => (!e.unhandledException && e.adversarial).toInt
  | .brakeFalseNegatives => (!e.unhandledException && (e.adversarial && !e.blocked)).toInt
  | .brakeFalsePositives => (!e.unhandledException && (!e.adversarial && e.brakeFired)).toInt
  | .intentionalFailures => (!e.unhandledException && e.intentionalFailure).toInt

namespace SoakMetrics

/-- `SoakMetrics()`. -/
def empty : SoakMetrics := ⟨fun _ => 0, []⟩

/-- `record(event)`. -/
def record (m : SoakMetrics) (e : Event) : SoakMetrics where
  count := fun f => m.count f + e.adds f
  recoveryTimesSeconds := m.recoveryTimesSeconds ++
    if !e.unhandledException && e.intentionalFailure then e.recoverySeconds.toList else []

/-- `merge(other)`. -/
def merge (m other : SoakMetrics) : SoakMetrics where
  count := fun f => m.count f + other.count f
  recoveryTimesSeconds := m.recoveryTimesSeconds ++ other.recoveryTimesSeconds

/-- The rates of `to_dict()`; `mttr_seconds` next to them is a time. -/
def rates (m : SoakMetrics) : List (Str × ℚ) :=
  let n := fun f => (m.count f : ℚ)
  let clean := n .tasksExecuted - n .adversarialTasks - n .intentionalFailures
  [(lit "cache_hit_rate", if m.count .cacheEligible ≠ 0 then n .cacheHits / n .cacheEligible else 0),
    (lit "token_savings_rate",
      if m.count .tokensUncached ≤ 0 then 0 else 1 - n .tokensUsed / n .tokensUncached),
    (lit "brake_fp_rate", if 0 < clean then n .brakeFalsePositives / clean else 0),
    (lit "brake_fn_rate",
      if m.count .adversarialTasks ≠ 0 then n .brakeFalseNegatives / n .adversarialTasks else 0),
    (lit "escalation_rate",
      if m.count .tasksExecuted ≠ 0 then n .escalated / n .tasksExecuted else 0)]

end SoakMetrics

/-! ## Days -/

/-- `SoakConfig`, with the rates of its `InjectionMix`. -/
structure SoakConfig where
  seed : Int
  totalDays : Int
  tasksPerDay : Nat
  cacheHitProbability : ℚ
  brakeFpProbability : ℚ
  brakeFnProbability : ℚ
  escalationProbability : ℚ
  cachedTokenFraction : ℚ
  badConfigRate : ℚ
  missingDependencyRate : ℚ
  injectionAttemptRate : ℚ
  contractViolationRate : ℚ

/-- The kinds of an `InjectedFault`. -/
inductive FaultKind where
  | badConfig
  | missingDependency
  | injectionAttempt
  | contractViolation
deriving DecidableEq

/-- `kind in ADVERSARIAL_KINDS`. -/
def FaultKind.adversarial (k : FaultKind) : Bool :=
  decide (k = .injectionAttempt ∨ k = .contractViolation)

/-- The random streams, which are functions of the seed, the day and the index, and the executions
that raise. -/
structure Simulator where
  expectedTokens : Int → Nat → Nat → Nat
  faultRoll : Int → Nat → Nat → ℚ
  roll : Int → Nat → Nat → Nat → ℚ
  recovery : Int → Nat → Nat → ℚ
  raises : SoakConfig → Nat → Nat → Bool

/-- `fault_for(day, index)`, by its roll. -/
def SoakConfig.faultFor (c : SoakConfig) (roll : ℚ) : Option FaultKind :=
  if roll < c.badConfigRate then some .badConfig
  else if roll < c.badConfigRate + c.missingDependencyRate then some .missingDependency
  else if roll < c.badConfigRate + c.missingDependencyRate + c.injectionAttemptRate then
    some .injectionAttempt
  else if roll < c.badConfigRate + c.missingDependencyRate + c.injectionAttemptRate +
      c.contractViolationRate then some .contractViolation
  else none

/-- `int(x)`. -/
def truncate (x : ℚ) : Int := if 0 ≤ x then ⌊x⌋ else ⌈x⌉

variable (sim : Simulator)

/-- `_execute_task(task, fault, day, index)`. -/
def executeTask (c : SoakConfig) (day index : Nat) : Event :=
  let tokens : Int := sim.expectedTokens c.seed day index
  let roll := sim.roll c.seed day index
  match c.faultFor (sim.faultRoll c.seed day index) with
  | some kind =>
      if kind.adversarial then
        let blocked := decide (c.brakeFnProbability ≤ roll 0)
        { tokensUsed := tokens, tokensUncached := tokens, adversarial := true, blocked,
          accepted := !blocked }
      else
        { tokensUsed := tokens, tokensUncached := tokens, intentionalFailure := true,
          accepted := decide (kind = .missingDependency)
          recoverySeconds := some (sim.recovery c.seed day index) }
  | none =>
      let hit := decide (roll 0 < c.cacheHitProbability)
      let fired := decide (roll 1 < c.brakeFpProbability)
      { cacheEligible := true, cacheHit := hit, tokensUncached := tokens,
        tokensUsed := if hit then truncate (tokens * c.cachedTokenFraction) else tokens,
        brakeFired := fired, accepted := !fired,
        escalated := !fired && decide (roll 2 < c.escalationProbability) }

/-- The event of a task, or that of an exception nobody handled. -/
def eventOf (c : SoakConfig) (day index : Nat) : Event :=
  if sim.raises c day index then { unhandledException := true } else executeTask sim c day index

/-- `run_day(day)`, after the first `n` tasks. -/
def runTasks (c : SoakConfig) (day n : Nat) : SoakMetrics :=
  (List.range n).foldl (fun m index => m.record (eventOf sim c day index)) .empty

/-- `run_day(day)`. -/
def runDay (c : SoakConfig) (day : Nat) : SoakMetrics := runTasks sim c day c.tasksPerDay

/-- The sum of the first `n` days, in order. -/
def total (c : SoakConfig) (n : Nat) : SoakMetrics :=
  (List.range n).foldl (fun m day => m.merge (runDay sim c day)) .empty

/-! ## State -/

/-- `SoakState`. -/
structure SoakState where
  seed : Int
  tasksPerDay : Nat
  totalDays : Int
  nextDay : Nat
  metrics : SoakMetrics

/-- The dictionary of a state, which `json.dump` writes and `json.load` reads. -/
structure StateDict extends SoakState where
  schemaVersion : Str
  rates : List (Str × ℚ)

/-- `SCHEMA_VERSION`. -/
def schemaVersion : Str := lit "residual.soak.state.v1"

/-- `SoakState.to_dict()`. -/
def SoakState.toDict (s : SoakState) : StateDict := ⟨s, schemaVersion, s.metrics.rates⟩

/-- `SoakState.from_dict(data)`: the rates are dropped. -/
def SoakState.fromDict (d : StateDict) : Except PyExn SoakState :=
  if d.schemaVersion = schemaVersion then .ok d.toSoakState
  else .error (.valueError "unsupported soak state schema")

/-! ## Harnesses -/

/-- Where a harness stands in `run`: outside, before a day, after the merge of a day, or before the
save. -/
inductive Phase where
  | idle
  | looping (limit : Int)
  | merged (limit : Int)
  | advanced (limit : Int)
deriving DecidableEq

/-- `SoakHarness`, with its place in `run`. -/
structure SoakHarness where
  config : SoakConfig
  state : SoakState
  phase : Phase

/-- `SoakHarness(config, ...)`. -/
def SoakHarness.init (c : SoakConfig) : SoakHarness :=
  ⟨c, ⟨c.seed, c.tasksPerDay, c.totalDays, 0, .empty⟩, .idle⟩

/-- A step of `run`. -/
inductive RunStep where
  | call (resume : Bool) (maxDays : Option Int)
  | merge
  | advance
  | save
  | ret
deriving DecidableEq

/-- The beginning of `run`, up to its loop. -/
def SoakHarness.call (h : SoakHarness) (file : Option StateDict) (resume : Bool)
    (maxDays : Option Int) : SoakHarness :=
  let enter := fun s : SoakState =>
    { h with state := s, phase := .looping ((maxDays.map (min s.totalDays)).getD s.totalDays) }
  match if resume then file.map SoakState.fromDict else none with
  | some (.error _) => h
  | some (.ok s) => enter s
  | none => enter h.state

/-- One step of a harness; a step that its place does not allow changes nothing. -/
def SoakHarness.step (h : SoakHarness) (file : Option StateDict) : RunStep → SoakHarness
  | .call resume maxDays => if h.phase = .idle then h.call file resume maxDays else h
  | .merge =>
      match h.phase with
      | .looping limit =>
          if (h.state.nextDay : Int) < limit then
            let m := h.state.metrics.merge (runDay sim h.config h.state.nextDay)
            ⟨h.config, { h.state with metrics := m }, .merged limit⟩
          else h
      | _ => h
  | .advance =>
      match h.phase with
      | .merged limit => ⟨h.config, { h.state with nextDay := h.state.nextDay + 1 }, .advanced limit⟩
      | _ => h
  | .save =>
      match h.phase with
      | .advanced limit => { h with phase := .looping limit }
      | _ => h
  | .ret =>
      match h.phase with
      | .looping limit => if (h.state.nextDay : Int) < limit then h else { h with phase := .idle }
      | _ => h

/-- The state file and the harnesses that share it. -/
structure World where
  file : Option StateDict
  live : Nat → Option SoakHarness

/-- What can happen. -/
inductive Act where
  | start (i : Nat) (c : SoakConfig)
  | kill (i : Nat)
  | step (i : Nat) (s : RunStep)

/-- What `save` leaves in the file: it replaces it at once. -/
def SoakHarness.saved (h : SoakHarness) (file : Option StateDict) (s : RunStep) : Option StateDict :=
  match s, h.phase with
  | .save, .advanced _ => some h.state.toDict
  | _, _ => file

def World.act (w : World) : Act → World
  | .start i c => { w with live := Function.update w.live i (some (.init c)) }
  | .kill i => { w with live := Function.update w.live i none }
  | .step i s =>
      match w.live i with
      | none => w
      | some h => ⟨h.saved w.file s, Function.update w.live i (some (h.step sim w.file s))⟩

/-- The world after some acts, with no file and no harness at first. -/
def World.run (acts : List Act) : World := acts.foldl (World.act sim) ⟨none, fun _ => none⟩

/-! ## Runs -/

/-- The days that are in the metrics of a harness. -/
def SoakHarness.days (h : SoakHarness) : Nat :=
  match h.phase with
  | .merged _ => h.state.nextDay + 1
  | _ => h.state.nextDay

/-- The metrics in the file and in memory are right for their days, and every harness has an admitted
configuration. -/
structure Keeps (ok : SoakConfig → Prop) (good : Nat → SoakMetrics → Prop) (w : World) : Prop where
  file : ∀ d, w.file = some d → good d.nextDay d.metrics
  live : ∀ i h, w.live i = some h → ok h.config ∧ good h.days h.state.metrics

section Keeping

variable {sim} {ok : SoakConfig → Prop} {good : Nat → SoakMetrics → Prop}

theorem Keeps.update {w : World} (hw : Keeps ok good w) {file : Option StateDict} {i : Nat}
    {v : Option SoakHarness} (hfile : ∀ d, file = some d → good d.nextDay d.metrics)
    (hv : ∀ h, v = some h → ok h.config ∧ good h.days h.state.metrics) :
    Keeps ok good ⟨file, Function.update w.live i v⟩ := by
  refine ⟨hfile, fun j h hj => ?_⟩
  change Function.update w.live i v j = some h at hj
  rw [Function.update_apply] at hj
  split at hj
  · exact hv h hj
  · exact hw.live j h hj

/-- `save` writes what is in memory, and nothing else writes. -/
theorem saved_cases (h : SoakHarness) (file : Option StateDict) (s : RunStep) :
    h.saved file s = file ∨ h.saved file s = some h.state.toDict ∧ h.days = h.state.nextDay := by
  obtain ⟨c, state, phase⟩ := h
  cases s with
  | save =>
      cases phase with
      | advanced limit => exact Or.inr ⟨rfl, rfl⟩
      | idle => exact Or.inl rfl
      | looping limit => exact Or.inl rfl
      | merged limit => exact Or.inl rfl
  | call resume maxDays => exact Or.inl rfl
  | merge => exact Or.inl rfl
  | advance => exact Or.inl rfl
  | ret => exact Or.inl rfl

/-- One step of a harness. A state that is loaded has what the file has, whatever its configuration. -/
theorem keeps_step (hday : ∀ c, ok c → ∀ n m, good n m → good (n + 1) (m.merge (runDay sim c n)))
    {file : Option StateDict} (hfile : ∀ d, file = some d → good d.nextDay d.metrics)
    {h : SoakHarness} (hh : ok h.config ∧ good h.days h.state.metrics) (s : RunStep) :
    ok (h.step sim file s).config ∧
      good (h.step sim file s).days (h.step sim file s).state.metrics := by
  obtain ⟨c, state, phase⟩ := h
  cases s with
  | call resume maxDays =>
      rw [SoakHarness.step]
      split
      · rename_i hidle
        cases hidle
        rw [SoakHarness.call]
        split
        · exact hh
        · rename_i s hs
          split at hs
          · obtain ⟨d, hd, hread⟩ := Option.map_eq_some_iff.1 hs
            rw [SoakState.fromDict] at hread
            split at hread
            · cases hread
              exact ⟨hh.1, hfile d hd⟩
            · cases hread
          · cases hs
        · exact hh
      · exact hh
  | merge =>
      cases phase with
      | looping limit =>
          simp only [SoakHarness.step]
          split
          · exact ⟨hh.1, hday c hh.1 _ _ hh.2⟩
          · exact hh
      | idle => exact hh
      | merged limit => exact hh
      | advanced limit => exact hh
  | advance =>
      cases phase with
      | merged limit =>
          simp only [SoakHarness.step, SoakHarness.days] at hh ⊢
          exact hh
      | idle => exact hh
      | looping limit => exact hh
      | advanced limit => exact hh
  | save =>
      cases phase with
      | advanced limit =>
          simp only [SoakHarness.step, SoakHarness.days] at hh ⊢
          exact hh
      | idle => exact hh
      | looping limit => exact hh
      | merged limit => exact hh
  | ret =>
      cases phase with
      | looping limit =>
          simp only [SoakHarness.step]
          split <;> exact hh
      | idle => exact hh
      | merged limit => exact hh
      | advanced limit => exact hh

theorem keeps_act (hstart : good 0 .empty)
    (hday : ∀ c, ok c → ∀ n m, good n m → good (n + 1) (m.merge (runDay sim c n))) {a : Act}
    (hok : ∀ i c, a = .start i c → ok c) {w : World} (hw : Keeps ok good w) :
    Keeps ok good (w.act sim a) := by
  cases a with
  | start i c =>
      rw [World.act]
      refine hw.update hw.file fun h hh => ?_
      obtain rfl := Option.some.inj hh
      exact ⟨hok i c rfl, hstart⟩
  | kill i =>
      rw [World.act]
      exact hw.update hw.file fun h hh => by cases hh
  | step i s =>
      rw [World.act]
      cases hi : w.live i with
      | none => exact hw
      | some h =>
          refine hw.update (fun d hd => ?_) fun k hk => ?_
          · rcases saved_cases h w.file s with hsame | ⟨hsaved, hdays⟩
            · exact hw.file d (hsame ▸ hd)
            · cases hsaved.symm.trans hd
              have hlive := (hw.live i h hi).2
              rw [hdays] at hlive
              exact hlive
          · obtain rfl := Option.some.inj hk
            exact keeps_step hday hw.file (hw.live i h hi) s

/-- What holds of no days and is kept by every day of an admitted configuration holds in the file and
in memory throughout. -/
theorem keeps_run (hstart : good 0 .empty)
    (hday : ∀ c, ok c → ∀ n m, good n m → good (n + 1) (m.merge (runDay sim c n)))
    (acts : List Act) (hok : ∀ i c, Act.start i c ∈ acts → ok c) :
    Keeps ok good (World.run sim acts) := by
  suffices hall : ∀ w : World, Keeps ok good w → Keeps ok good (acts.foldl (World.act sim) w) from
    hall _ ⟨fun d hd => (by cases hd), fun i h hh => (by cases hh)⟩
  induction acts with
  | nil => exact fun w hw => hw
  | cons a acts ih =>
      intro w hw
      refine ih (fun i c hc => hok i c (List.mem_cons_of_mem a hc)) _
        (keeps_act hstart hday (fun i c ha => ?_) hw)
      exact hok i c (ha ▸ List.mem_cons_self)

end Keeping

/-! ## Counters that balance -/

/-- What the counters of a run have in common. -/
structure Balanced (n : Counter → Int) : Prop where
  total : n .tasksExecuted = n .accepted + n .rejected + n .unhandledExceptions
  hits : 0 ≤ n .cacheHits ∧ n .cacheHits ≤ n .cacheEligible
  clean : 0 ≤ n .brakeFalsePositives ∧
    n .brakeFalsePositives + n .adversarialTasks + n .intentionalFailures ≤ n .tasksExecuted
  missed : 0 ≤ n .brakeFalseNegatives ∧ n .brakeFalseNegatives ≤ n .adversarialTasks
  escalated : 0 ≤ n .escalated ∧ n .escalated ≤ n .tasksExecuted

/-- The cache does not cost more than it would without it. -/
def Saving (n : Counter → Int) : Prop := 0 ≤ n .tokensUsed ∧ n .tokensUsed ≤ n .tokensUncached

theorem Balanced.add {a b : Counter → Int} (ha : Balanced a) (hb : Balanced b) :
    Balanced fun f => a f + b f := by
  obtain ⟨h1, h2, h3, h4, h5⟩ := ha
  obtain ⟨k1, k2, k3, k4, k5⟩ := hb
  constructor <;> omega

theorem balanced_adds {e : Event} (hhit : e.cacheHit = true → e.cacheEligible = true)
    (hfault : e.intentionalFailure = true → e.adversarial = false ∧ e.brakeFired = false) :
    Balanced e.adds := by
  obtain ⟨unhandled, eligible, hit, used, uncached, accepted, escalated, adversarial, blocked, fired,
    failure, recovery⟩ := e
  constructor
  · cases unhandled <;> cases accepted <;> simp only [Event.adds] <;> decide
  · revert hhit
    cases hit <;> cases eligible <;> simp only [Event.adds] <;> decide
  · revert hfault
    cases unhandled <;> cases adversarial <;> cases fired <;> cases failure <;> simp only [Event.adds] <;> decide
  · cases unhandled <;> cases adversarial <;> cases blocked <;> simp only [Event.adds] <;> decide
  · cases unhandled <;> cases escalated <;> simp only [Event.adds] <;> decide

variable {sim}

theorem balanced_eventOf (c : SoakConfig) (day index : Nat) :
    Balanced (eventOf sim c day index).adds := by
  rw [eventOf]
  split
  · exact balanced_adds nofun nofun
  · rw [executeTask]
    dsimp only
    split
    · split
      · exact balanced_adds nofun nofun
      · exact balanced_adds nofun fun _ => ⟨rfl, rfl⟩
    · exact balanced_adds (fun _ => rfl) nofun

theorem saving_eventOf {c : SoakConfig}
    (h : 0 ≤ c.cachedTokenFraction ∧ c.cachedTokenFraction ≤ 1) (day index : Nat) :
    Saving (eventOf sim c day index).adds := by
  have hfull : ∀ n : Nat, (0 : Int) ≤ n ∧ (n : Int) ≤ n := fun n => ⟨Int.natCast_nonneg n, le_rfl⟩
  have hpart : ∀ n : Nat, 0 ≤ truncate (((n : Int) : ℚ) * c.cachedTokenFraction) ∧
      truncate (((n : Int) : ℚ) * c.cachedTokenFraction) ≤ n := by
    intro n
    have hn : (0 : ℚ) ≤ ((n : Int) : ℚ) := by exact_mod_cast Int.natCast_nonneg n
    rw [truncate, if_pos (mul_nonneg hn h.1)]
    refine ⟨Int.floor_nonneg.2 (mul_nonneg hn h.1), ?_⟩
    exact_mod_cast (Int.floor_le _).trans (mul_le_of_le_one_right hn h.2)
  rw [eventOf]
  split
  · exact hfull 0
  · rw [executeTask]
    dsimp only
    split
    · split
      · exact hfull _
      · exact hfull _
    · rw [Saving]
      dsimp only [Event.adds]
      split
      · exact hpart _
      · exact hfull _

variable (sim) in
/-- A property of the events that sums keep holds of every day, and throughout a run. -/
theorem sums_run (P : (Counter → Int) → Prop) (ok : SoakConfig → Prop) (hzero : P fun _ => 0)
    (hadd : ∀ a b, P a → P b → P fun f => a f + b f)
    (hevent : ∀ c, ok c → ∀ day index, P (eventOf sim c day index).adds) :
    (∀ c, ok c → ∀ day n, P (runTasks sim c day n).count) ∧
      ∀ acts, (∀ i c, Act.start i c ∈ acts → ok c) →
        Keeps ok (fun _ m => P m.count) (World.run sim acts) := by
  have htasks : ∀ c, ok c → ∀ day n, P (runTasks sim c day n).count := fun c hc day n =>
    foldl_invariant (P := fun m : SoakMetrics => P m.count)
      (fun m index hm => hadd _ _ hm (hevent c hc day index)) _ hzero
  exact ⟨htasks, keeps_run hzero fun c hc n m hm => hadd _ _ hm (htasks c hc n _)⟩

/-! ## Rates -/

theorem ratio_mem {a b : ℚ} {p : Prop} [Decidable p] (h0 : 0 ≤ a) (h : a ≤ b) :
    0 ≤ (if p then a / b else 0) ∧ (if p then a / b else 0) ≤ 1 := by
  split
  · exact ⟨div_nonneg h0 (h0.trans h), div_le_one_of_le₀ h (h0.trans h)⟩
  · exact ⟨le_rfl, zero_le_one⟩

theorem rates_mem {m : SoakMetrics} (hb : Balanced m.count) (hs : Saving m.count) :
    ∀ r ∈ m.rates, 0 ≤ r.2 ∧ r.2 ≤ 1 := by
  obtain ⟨-, h2, h3, h4, h5⟩ := hb
  simp only [SoakMetrics.rates, List.forall_mem_cons, List.not_mem_nil, false_imp_iff,
    implies_true, and_true]
  refine ⟨ratio_mem (by exact_mod_cast h2.1) (by exact_mod_cast h2.2), ?_,
    ratio_mem (by exact_mod_cast h3.1) ?_, ratio_mem (by exact_mod_cast h4.1) (by exact_mod_cast h4.2),
    ratio_mem (by exact_mod_cast h5.1) (by exact_mod_cast h5.2)⟩
  · split
    · exact ⟨le_rfl, zero_le_one⟩
    · rename_i hpos
      have hu : (0 : ℚ) ≤ m.count .tokensUsed := by exact_mod_cast hs.1
      have hle : (m.count .tokensUsed : ℚ) ≤ m.count .tokensUncached := by exact_mod_cast hs.2
      have hq := div_le_one_of_le₀ hle (hu.trans hle)
      have hq0 := div_nonneg hu (hu.trans hle)
      exact ⟨by linarith, by linarith⟩
  · have hclean : (m.count .brakeFalsePositives + m.count .adversarialTasks +
        m.count .intentionalFailures : ℚ) ≤ m.count .tasksExecuted := by exact_mod_cast h3.2
    linarith

/-! ## Resuming -/

theorem total_succ (c : SoakConfig) (n : Nat) :
    total sim c (n + 1) = (total sim c n).merge (runDay sim c n) := by
  simp only [total, List.range_succ, List.foldl_append, List.foldl_cons, List.foldl_nil]

/-- Over every run of harnesses that are started, stopped, killed and resumed: if all of them run the
days of `c`, then the metrics in the file and in memory are the sum of the days of `c` before the
cursor. Their counters balance whatever runs, and the rates are in `[0, 1]` with the fractions. -/
theorem resumed_total (acts : List Act) :
    (∀ c, (∀ i c', Act.start i c' ∈ acts → runDay sim c' = runDay sim c) →
      Keeps (fun c' => runDay sim c' = runDay sim c) (fun n m => m = total sim c n)
        (World.run sim acts)) ∧
    Keeps (fun _ => True) (fun _ m => Balanced m.count) (World.run sim acts) ∧
    (∀ c day n, Balanced (runTasks sim c day n).count) ∧
    ((∀ i c, Act.start i c ∈ acts → 0 ≤ c.cachedTokenFraction ∧ c.cachedTokenFraction ≤ 1) →
      Keeps (fun c => 0 ≤ c.cachedTokenFraction ∧ c.cachedTokenFraction ≤ 1)
        (fun _ m => ∀ r ∈ m.rates, 0 ≤ r.2 ∧ r.2 ≤ 1) (World.run sim acts)) := by
  have hbal := sums_run sim Balanced (fun _ => True)
    (by constructor <;> decide) (fun _ _ => .add) fun c _ => balanced_eventOf c
  have hsav := sums_run sim Saving
    (fun c => 0 ≤ c.cachedTokenFraction ∧ c.cachedTokenFraction ≤ 1) ⟨le_rfl, le_rfl⟩
    (fun _ _ ha hb => ⟨add_nonneg ha.1 hb.1, add_le_add ha.2 hb.2⟩) fun c hc => saving_eventOf hc
  have hall := hbal.2 acts fun _ _ _ => trivial
  refine ⟨fun c hc => ?_, hall, fun c => hbal.1 c trivial, fun hc => ?_⟩
  · refine keeps_run rfl (fun c' hc' n m hm => ?_) acts hc
    rw [hm, total_succ, hc']
  · have hs := hsav.2 acts hc
    exact ⟨fun d hd => rates_mem (hall.file d hd) (hs.file d hd), fun i h hh =>
      ⟨(hs.live i h hh).1, rates_mem (hall.live i h hh).2 (hs.live i h hh).2⟩⟩

section Concrete

/-- The default configuration with another load. -/
def loaded (tasksPerDay : Nat) : SoakConfig :=
  ⟨20260914, 30, tasksPerDay, 18 / 25, 1 / 100, 1 / 500, 1 / 25, 3 / 10, 1 / 50, 1 / 100, 1 / 200,
    1 / 200⟩

/-- Streams without faults. -/
def steady : Simulator :=
  ⟨fun _ _ _ => 100, fun _ _ _ => 1, fun _ _ _ _ => 1, fun _ _ _ => 5, fun _ _ _ => false⟩

/-- One day, a kill, and a call that resumes. -/
def resumedRun (c c' : SoakConfig) : List Act :=
  [.start 0 c, .step 0 (.call true (some 1)), .step 0 .merge, .step 0 .advance, .step 0 .save, .kill 0,
    .start 1 c', .step 1 (.call true (some 1)), .step 1 .ret]

/-- A harness with two tasks a day returns the day of one with a single task. -/
theorem days_of_another : ∃ h, (World.run steady (resumedRun (loaded 1) (loaded 2))).live 1 = some h ∧
    h.config = loaded 2 ∧ h.phase = .idle ∧ h.state.nextDay = 1 ∧
    h.state.metrics.count .tasksExecuted = 1 ∧
    (total steady (loaded 2) 1).count .tasksExecuted = 2 :=
  ⟨_, rfl, rfl, rfl, rfl, rfl, rfl⟩

theorem resumed_sample : ∃ h, (World.run steady (resumedRun (loaded 2) (loaded 2))).live 1 = some h ∧
    h.phase = .idle ∧ h.state.nextDay = 1 ∧ h.state.metrics = total steady (loaded 2) 1 := by
  refine ⟨_, rfl, rfl, rfl, ?_⟩
  refine (((resumed_total (resumedRun (loaded 2) (loaded 2))).1 (loaded 2) ?_).live 1 _ rfl).2
  intro i c' hc
  simp only [resumedRun, List.mem_cons, List.not_mem_nil, Act.start.injEq, reduceCtorEq, or_false,
    false_or] at hc
  rcases hc with ⟨-, rfl⟩ | ⟨-, rfl⟩ <;> rfl

end Concrete

end ResidualHarness.Soak
