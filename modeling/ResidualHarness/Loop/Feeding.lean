import ResidualHarness.Loop.Controller

/-!
# What one event does to the brakes

`Fed` says what feeding an event changes: the counters of the brakes, and which actions the recorded
trips ask for. A worker's observation is fed only if it reports a tool call; it moves the brake for
lack of progress only, and the clock is compared once more.
-/

set_option autoImplicit false

namespace ResidualHarness.Loop

open Python Core

/-! ## Trips -/

section Trips

variable [FloatModel]

/-- An update trips exactly if `P`, and then asks for an action. -/
structure Trips (t : Option BrakeTrip) (action : BrakeAction) (P : Prop) : Prop where
  asked : ∀ u, t = some u → u.recommendedAction = action
  tripped : t.isSome = true ↔ P

omit [FloatModel] in
theorem trips_none {action : BrakeAction} {P : Prop} (h : ¬P) : Trips none action P :=
  ⟨nofun, by simp [h]⟩

theorem trip_trips {name : String} {reason : Except PyExn Str} {event : Fields} {action : BrakeAction}
    {t : Option BrakeTrip} {P : Prop} (h : trip name reason event action = .ok t) (hP : P) :
    Trips t action P := by
  rw [trip] at h
  obtain ⟨r, -, h⟩ := bind_eq_ok.1 h
  obtain ⟨hash, -, h⟩ := bind_eq_ok.1 h
  cases h
  refine ⟨?_, by simp [hP]⟩
  intro u hu
  cases hu
  rfl

/-- The trips after an update. -/
def recorded (trips : List BrakeTrip) : Option BrakeTrip → List BrakeTrip
  | some t => if ∃ u ∈ trips, t.sameAs u then trips else trips ++ [t]
  | none => trips

omit [FloatModel] in
/-- A trip that is not recorded again asks for nothing new. -/
theorem asks_recorded {trips : List BrakeTrip} {t : Option BrakeTrip} {action a : BrakeAction}
    {P : Prop} (h : Trips t action P) : Asks a (recorded trips t) ↔ Asks a trips ∨ (a = action ∧ P) := by
  cases t with
  | none =>
      have hP : ¬P := fun hP => Bool.false_ne_true (h.tripped.2 hP)
      simp [recorded, hP]
  | some t =>
      have hP : P := h.tripped.1 rfl
      have ht := h.asked t rfl
      rw [recorded]
      split
      · next hdup =>
          obtain ⟨u, hu, -, haction⟩ := hdup
          constructor
          · exact Or.inl
          · rintro (hold | ⟨rfl, -⟩)
            · exact hold
            · exact ⟨u, hu, haction.trans ht⟩
      · simp only [Asks, List.mem_append, List.mem_singleton, or_and_right, exists_or,
          exists_eq_left, ht, hP, and_true, eq_comm (a := a)]

end Trips

/-! ## One brake -/

section Brakes

variable [FloatModel] {spec : GoalSpec} {event : Fields}

theorem maxIteration_update {b m : MaxIterationBrake} {t : Option BrakeTrip}
    (h : b.update spec event = .ok (m, t)) :
    m.passCount = b.passCount + (if endsPass event then 1 else 0) ∧
      Trips t .escalate (endsPass event ∧ spec.maxPasses ≤ b.passCount + 1 ∧
        event.get? (lit "overall_pass") ≠ some (.bool true)) := by
  rw [MaxIterationBrake.update] at h
  by_cases hend : endsPass event
  · rw [if_pos hend] at h
    by_cases hlast : spec.maxPasses ≤ b.passCount + 1 ∧
        event.get? (lit "overall_pass") ≠ some (.bool true)
    · simp only [if_pos hlast] at h
      obtain ⟨t', ht', h⟩ := bind_eq_ok.1 h
      cases h
      rw [if_pos hend]
      exact ⟨rfl, trip_trips ht' ⟨hend, hlast⟩⟩
    · simp only [if_neg hlast] at h
      cases h
      rw [if_pos hend]
      exact ⟨rfl, trips_none fun hP => hlast hP.2⟩
  · rw [if_neg hend] at h
    cases h
    rw [if_neg hend]
    exact ⟨rfl, trips_none fun hP => hend hP.1⟩

theorem noProgress_update {threshold : Nat} {b m : NoProgressBrake} {t : Option BrakeTrip}
    (h : b.update threshold event = .ok (m, t)) :
    Trips t .escalate (t.isSome = true) ∧ (t.isSome = true → isKind event "tool.invoked") := by
  rw [NoProgressBrake.update] at h
  by_cases htool : isKind event "tool.invoked"
  · rw [if_pos htool] at h
    refine ⟨⟨?_, Iff.rfl⟩, fun _ => htool⟩
    obtain ⟨payload, -, h⟩ := bind_eq_ok.1 h
    obtain ⟨fp, -, h⟩ := bind_eq_ok.1 h
    by_cases hstreak : threshold ≤ (b.observe fp).streak
    · simp only [if_pos hstreak] at h
      obtain ⟨t', ht', h⟩ := bind_eq_ok.1 h
      cases h
      exact (trip_trips ht' trivial).asked
    · simp only [if_neg hstreak] at h
      cases h
      exact nofun
  · rw [if_neg htool] at h
    cases h
    exact ⟨⟨nofun, Iff.rfl⟩, nofun⟩

theorem completion_update {b m : CompletionBrake} {t : Option BrakeTrip}
    (h : b.update event = .ok (m, t)) :
    Trips t .continue_ (t.isSome = true) ∧ (t.isSome = true → reportsSuccess event) ∧
      (m.tripped = true → b.tripped = true ∨ reportsSuccess event) := by
  rw [CompletionBrake.update] at h
  by_cases hdone : b.tripped = true
  · rw [if_pos hdone] at h
    cases h
    exact ⟨⟨nofun, Iff.rfl⟩, nofun, Or.inl⟩
  · rw [if_neg hdone] at h
    by_cases hsuccess : reportsSuccess event
    · rw [if_pos hsuccess] at h
      obtain ⟨t', ht', h⟩ := bind_eq_ok.1 h
      cases h
      exact ⟨⟨(trip_trips ht' trivial).asked, Iff.rfl⟩, fun _ => hsuccess, fun _ => Or.inr hsuccess⟩
    · rw [if_neg hsuccess] at h
      cases h
      exact ⟨⟨nofun, Iff.rfl⟩, nofun, Or.inl⟩

variable [FloatTime]

/-- The brake's elapsed time reaches the budget. -/
def Late (spec : GoalSpec) (start now : Int) : Prop :=
  spec.wallClockBudgetS.value ≤ FloatModel.value (FloatTime.seconds (now - start))

/-- Lateness stays: the conversion to seconds is monotone. -/
theorem Late.mono {start now now' : Int} (h : Late spec start now) (hle : now ≤ now') :
    Late spec start now' :=
  le_trans h (FloatTime.seconds_le _ _ (by omega))

/-- The event reports usage that is unknown, or that uses up the budget. -/
def OverBudget (spec : GoalSpec) (event : Fields) (used : Int) : Prop :=
  isKind event "llm.response" ∧
    ∀ tokens, reportedTokens event = some tokens → spec.tokenBudget ≤ used + tokens

/-- The tokens that an event adds to the brake's count. -/
def spentBy (event : Fields) : Int :=
  if isKind event "llm.response" then (reportedTokens event).getD 0 else 0

/-- An elapsed time stays below the budget. -/
def InTime (spec : GoalSpec) (elapsed : FloatModel.F) : Prop :=
  FloatModel.value elapsed < spec.wallClockBudgetS.value

theorem checkClock_spec {start now : Int} {b m : BudgetBrake} {t : Option BrakeTrip}
    (h : b.checkClock spec event start now = .ok (m, t)) :
    m.tokensUsed = b.tokensUsed ∧ m.startNs = b.startNs ∧ Trips t .abort (Late spec start now) ∧
      ∀ e ∈ m.checks, e ∈ b.checks ∨ InTime spec e ∨ Late spec start now := by
  have hchecks : ∀ e ∈ b.checks ++ [FloatTime.seconds (now - start)],
      e ∈ b.checks ∨ InTime spec e ∨ Late spec start now := by
    intro e he
    rcases List.mem_append.1 he with he | he
    · exact Or.inl he
    · rw [List.mem_singleton.1 he]
      exact Or.inr (lt_or_ge _ _)
  rw [BudgetBrake.checkClock] at h
  by_cases hlate : Late spec start now
  · simp only [Late] at hlate
    simp only [if_pos hlate] at h
    obtain ⟨t', ht', h⟩ := bind_eq_ok.1 h
    cases h
    exact ⟨rfl, rfl, trip_trips ht' hlate, hchecks⟩
  · simp only [Late] at hlate
    simp only [if_neg hlate] at h
    cases h
    exact ⟨rfl, rfl, trips_none hlate, hchecks⟩

theorem budget_update {first now : Int} {b m : BudgetBrake} {t : Option BrakeTrip}
    (h : b.update spec event first now = .ok (m, t)) :
    m.tokensUsed = b.tokensUsed + spentBy event ∧ m.startNs = some (b.startNs.getD first) ∧
      Trips t .abort (OverBudget spec event b.tokensUsed ∨ Late spec (b.startNs.getD first) now) ∧
      ∀ e ∈ m.checks, e ∈ b.checks ∨ InTime spec e ∨ Late spec (b.startNs.getD first) now := by
  rw [BudgetBrake.update] at h
  by_cases hllm : isKind event "llm.response"
  · simp only [if_pos hllm] at h
    rw [spentBy, if_pos hllm]
    cases hreported : reportedTokens event with
    | none =>
        rw [hreported] at h
        obtain ⟨t', ht', h⟩ := bind_eq_ok.1 h
        cases h
        refine ⟨by simp, rfl, trip_trips ht' (Or.inl ⟨hllm, ?_⟩), fun e he => Or.inl he⟩
        intro tokens htokens
        rw [hreported] at htokens
        cases htokens
    | some tokens =>
        rw [hreported] at h
        simp only [BudgetBrake.checkTokens] at h
        have hover : OverBudget spec event b.tokensUsed ↔ spec.tokenBudget ≤ b.tokensUsed + tokens := by
          rw [OverBudget, hreported]
          simp [hllm]
        rw [hover]
        by_cases hbudget : spec.tokenBudget ≤ b.tokensUsed + tokens
        · simp only [if_pos hbudget] at h
          obtain ⟨t', ht', h⟩ := bind_eq_ok.1 h
          cases h
          exact ⟨rfl, rfl, trip_trips ht' (Or.inl hbudget), fun e he => Or.inl he⟩
        · simp only [if_neg hbudget] at h
          obtain ⟨hused, hstart, htrips, hchecks⟩ := checkClock_spec h
          refine ⟨hused, hstart, ?_, hchecks⟩
          simpa only [hbudget, false_or] using htrips
  · simp only [if_neg hllm] at h
    obtain ⟨hused, hstart, htrips, hchecks⟩ := checkClock_spec h
    have hover : ¬OverBudget spec event b.tokensUsed := fun hover => hllm hover.1
    refine ⟨?_, hstart, ?_, hchecks⟩
    · rw [spentBy, if_neg hllm, hused, add_zero]
    · simpa only [hover, false_or] using htrips

end Brakes

/-! ## Feeding an event -/

section Feeding

variable [FloatModel] [FloatTime] {κ : Type} {c : LoopController κ}

/-- Only an exception ends a program, and the records of passes and evaluator calls are as before. -/
def Harmless (s : RunState κ) (e : Failure) (t : RunState κ) : Prop :=
  e ≠ .assertion ∧ t.passes = s.passes ∧ t.calls = s.calls

omit [FloatTime] in
theorem harmless_raised {s : RunState κ} {x : PyExn} : Harmless s (.raised x) s :=
  ⟨nofun, rfl, rfl⟩

omit [FloatTime] in
theorem Harmless.back {s t u : RunState κ} {e : Failure} (h : Harmless t e u)
    (hpasses : t.passes = s.passes) (hcalls : t.calls = s.calls) : Harmless s e u :=
  ⟨h.1, h.2.1.trans hpasses, h.2.2.trans hcalls⟩

omit [FloatTime] in
theorem expr_yields {α : Type} {x : Except PyExn α} {s : RunState κ} {post : α → RunState κ → Prop}
    (h : ∀ a, x = .ok a → post a s) : Yields (expr x) s post (Harmless s) := by
  cases x with
  | ok a => exact yields_pure (h a rfl)
  | error e => exact yields_raise harmless_raised

omit [FloatTime] in
theorem record_yields (t : Option BrakeTrip) (s : RunState κ) :
    Yields (recordIfTripped t) s (fun _ u => u = { s with trips := recorded s.trips t })
      (Harmless s) := by
  cases t with
  | none => exact yields_pure rfl
  | some t =>
      refine ⟨?_, nofun⟩
      intro a _
      show (if ∃ u ∈ s.trips, t.sameAs u then s else { s with trips := s.trips ++ [t] }) = _
      rw [recorded]
      split <;> rfl

omit [FloatTime] in
/-- Where the controller forces a trip, its trips ask for the action and everything else stays. -/
theorem force_yields {name : String} {reason : Str} {action : BrakeAction} {event : Fields}
    {s : RunState κ} :
    Yields (force name reason action event) s
      (fun _ u => (∃ trips, u = { s with trips := trips }) ∧
        ∀ a, Asks a u.trips ↔ Asks a s.trips ∨ a = action)
      (Harmless s) := by
  rw [force]
  refine yields_bind (p := fun _ u => u = s) (expr_yields fun _ _ => rfl) ?_
  rintro hash t rfl
  refine (record_yields (some ⟨lit name, reason, hash, action⟩) t).conseq ?_ fun _ _ h => h
  rintro _ u rfl
  refine ⟨⟨_, rfl⟩, ?_⟩
  intro a
  have htrips : Trips (some (⟨lit name, reason, hash, action⟩ : BrakeTrip)) action True :=
    ⟨by rintro v hv; cases hv; rfl, by simp⟩
  rw [asks_recorded htrips]
  simp

/-- The reading of the clock with which a feed compares. -/
def reading (c : LoopController κ) (i : Instant) : Int :=
  c.clock.monotonicNs { i with index := 2 * i.index + 1 }

/-- The reading that the budget brake keeps, if it has none yet. -/
def firstReading (c : LoopController κ) (i : Instant) : Int :=
  c.clock.monotonicNs { i with index := 2 * i.index }

theorem feedOne_yields {i : Instant} {event : Fields} {name : BrakeName} {s : RunState κ} :
    Yields (feedOne c i event name) s
      (fun _ u => ∃ b t, s.brakes.update c.spec c.noProgressThreshold event (firstReading c i)
          (reading c i) name = .ok (b, t) ∧
        u = { s with brakes := b, trips := recorded s.trips t })
      (Harmless s) := by
  rw [feedOne]
  apply yields_read_bind
  refine yields_bind (p := fun r u => u = s ∧ s.brakes.update c.spec c.noProgressThreshold event
    (firstReading c i) (reading c i) name = .ok r) (expr_yields fun r hr => ⟨rfl, hr⟩) ?_
  rintro ⟨b, t⟩ _ ⟨rfl, hupdate⟩
  apply yields_write_bind
  refine (record_yields t _).conseq ?_ ?_
  · rintro _ u rfl
    exact ⟨b, t, hupdate, rfl⟩
  · intro e u h
    exact h.back rfl rfl

/-- What feeding an event changes. -/
structure Fed (c : LoopController κ) (i : Instant) (event : Fields) (stalled : Prop)
    (s u : RunState κ) : Prop where
  tokens : u.tokens = s.tokens
  report : u.report = s.report
  passes : u.passes = s.passes
  checks : u.checks = s.checks
  calls : u.calls = s.calls
  counted : u.brakes.maxIteration.passCount =
    s.brakes.maxIteration.passCount + (if endsPass event then 1 else 0)
  spent : u.brakes.budget.tokensUsed = s.brakes.budget.tokensUsed + spentBy event
  started : u.brakes.budget.startNs = some (s.brakes.budget.startNs.getD (firstReading c i))
  compared : ∀ e ∈ u.brakes.budget.checks, e ∈ s.brakes.budget.checks ∨ InTime c.spec e ∨
    Late c.spec (s.brakes.budget.startNs.getD (firstReading c i)) (reading c i)
  done : u.brakes.completion.tripped = true →
    s.brakes.completion.tripped = true ∨ reportsSuccess event
  abort : Asks .abort u.trips ↔ Asks .abort s.trips ∨
    OverBudget c.spec event s.brakes.budget.tokensUsed ∨
    Late c.spec (s.brakes.budget.startNs.getD (firstReading c i)) (reading c i)
  escalate : Asks .escalate u.trips ↔ Asks .escalate s.trips ∨
    (endsPass event ∧ c.spec.maxPasses ≤ s.brakes.maxIteration.passCount + 1 ∧
      event.get? (lit "overall_pass") ≠ some (.bool true)) ∨ stalled
  resume : Asks .continue_ u.trips → Asks .continue_ s.trips ∨ reportsSuccess event
  tool : stalled → isKind event "tool.invoked"

theorem feed_yields {i : Instant} {event : Fields} {s : RunState κ} :
    Yields (feed c i event) s (fun _ u => ∃ stalled, Fed c i event stalled s u) (Harmless s) := by
  show Yields (feedOne c i event .maxIteration >>= fun _ => feedOne c i event .budget >>= fun _ =>
    feedOne c i event .noProgress >>= fun _ => feedOne c i event .completion >>= fun _ => pure ()) s
    _ _
  refine yields_bind feedOne_yields ?_
  rintro _ _ ⟨b₁, t₁, h₁, rfl⟩
  obtain ⟨⟨m, t⟩, hm, h₁⟩ := bind_eq_ok.1 h₁
  cases h₁
  obtain ⟨hcounted, hlast⟩ := maxIteration_update hm
  refine yields_bind (feedOne_yields.conseq (fun _ _ h => h) fun _ _ h => h.back rfl rfl) ?_
  rintro _ _ ⟨b₂, t₂, h₂, rfl⟩
  obtain ⟨⟨m₂, t₂⟩, hm₂, h₂⟩ := bind_eq_ok.1 h₂
  cases h₂
  obtain ⟨hspent, hstarted, hbudget, hcompared⟩ := budget_update hm₂
  refine yields_bind (feedOne_yields.conseq (fun _ _ h => h) fun _ _ h => h.back rfl rfl) ?_
  rintro _ _ ⟨b₃, t₃, h₃, rfl⟩
  obtain ⟨⟨m₃, t₃⟩, hm₃, h₃⟩ := bind_eq_ok.1 h₃
  cases h₃
  obtain ⟨hstalled, htool⟩ := noProgress_update hm₃
  refine yields_bind (feedOne_yields.conseq (fun _ _ h => h) fun _ _ h => h.back rfl rfl) ?_
  rintro _ _ ⟨b₄, t₄, h₄, rfl⟩
  obtain ⟨⟨m₄, t₄⟩, hm₄, h₄⟩ := bind_eq_ok.1 h₄
  cases h₄
  obtain ⟨hcontinue, hresume, hdone⟩ := completion_update hm₄
  apply yields_pure
  refine ⟨t₃.isSome = true, rfl, rfl, rfl, rfl, rfl, hcounted, hspent, hstarted, hcompared, hdone,
    ?_, ?_, ?_, htool⟩
  · simp only [asks_recorded hcontinue, asks_recorded hstalled, asks_recorded hbudget,
      asks_recorded hlast, reduceCtorEq, false_and, or_false, true_and]
  · simp only [asks_recorded hcontinue, asks_recorded hstalled, asks_recorded hbudget,
      asks_recorded hlast, reduceCtorEq, false_and, or_false, true_and, or_assoc]
  · simp only [asks_recorded hcontinue, asks_recorded hstalled, asks_recorded hbudget,
      asks_recorded hlast, reduceCtorEq, false_and, or_false, true_and]
    exact Or.imp_right hresume

end Feeding

end ResidualHarness.Loop
