import ResidualHarness.Loop.Feeding

/-!
# What one pass decides

The decision of a pass depends on its usage, on the clock, on `halt` and on the verification of its
candidate; the observations of the worker enter only as one more reason to escalate (`verdict`). Extra
events may find the wall-clock budget exhausted earlier in the pass, but then the completion event of
the same pass finds it exhausted as well, so that the decision is the same.
-/

set_option autoImplicit false

namespace ResidualHarness.Loop

open Python Core

/-! ## Kinds of events -/

section Events

variable [FloatModel]

theorem isKind_cons {kind k : String} {rest : Fields} :
    isKind ((lit "kind", .str (lit kind)) :: rest) k ↔ lit kind = lit k := by
  simp [isKind, Fields.get?]

theorem isKind_unique {event : Fields} {k l : String} (h : isKind event k) (h' : isKind event l) :
    lit k = lit l := by
  rw [isKind] at h h'
  rw [h] at h'
  simpa using h'

theorem spentBy_of_not {event : Fields} (h : ¬isKind event "llm.response") : spentBy event = 0 := by
  rw [spentBy, if_neg h]

/-- An event of a kind that the accounting brakes ignore. -/
structure Idle (event : Fields) : Prop where
  response : ¬isKind event "llm.response"
  transition : ¬endsPass event
  custom : ¬reportsSuccess event

theorem tool_idle {event : Fields} (h : isKind event "tool.invoked") : Idle event := by
  refine ⟨?_, ?_, ?_⟩
  · intro h'
    exact absurd (isKind_unique h h') (by decide)
  · rintro ⟨h', -⟩
    exact absurd (isKind_unique h h') (by decide)
  · rintro ⟨h', -⟩
    exact absurd (isKind_unique h h') (by decide)

theorem opened_idle : Idle openedEvent ∧ ¬isKind openedEvent "tool.invoked" := by
  refine ⟨⟨?_, ?_, ?_⟩, ?_⟩
  · rw [openedEvent, isKind_cons]
    decide
  · rintro ⟨h, -⟩
    rw [openedEvent, isKind_cons] at h
    exact absurd h (by decide)
  · rintro ⟨h, -⟩
    rw [openedEvent, isKind_cons] at h
    exact absurd h (by decide)
  · rw [openedEvent, isKind_cons]
    decide

theorem usage_kind (used : Int) : isKind (usageEvent used) "llm.response" := by
  rw [usageEvent, isKind_cons]

theorem usage_other {used : Int} {k : String} (h : lit "llm.response" ≠ lit k) :
    ¬isKind (usageEvent used) k := by
  rw [usageEvent, isKind_cons]
  exact h

theorem reportedTokens_usage {used : Int} (h : 0 ≤ used) :
    reportedTokens (usageEvent used) = some used := by
  have hget : Fields.get? (usageEvent used) (lit "usage") =
      some (.obj [(lit "total_tokens", .int used)]) := rfl
  have htotal : Fields.get? [(lit "total_tokens", (.int used : Json))] (lit "total_tokens") =
      some (.int used) := rfl
  rw [reportedTokens, hget]
  simp only [htotal]
  rw [if_pos h]

theorem verification_kind (runId : Str) (report : VerificationReport) :
    isKind (verificationEvent runId report) "custom" := by
  rw [verificationEvent, isKind_cons]

theorem verification_success {runId : Str} {report : VerificationReport} :
    reportsSuccess (verificationEvent runId report) ↔ report.overallPass = true := by
  have hpayload : customPayload (verificationEvent runId report) = verificationPayload runId report :=
    rfl
  have hevent : (verificationPayload runId report).get? (lit "event") =
      some (.str (lit "verification_report")) := rfl
  have hoverall : (verificationPayload runId report).get? (lit "overall_pass") =
      some (.bool report.overallPass) := rfl
  rw [reportsSuccess, hpayload, hevent, hoverall]
  simp [verification_kind]

theorem completed_ends (runId : Str) (n : Nat) (overall : Bool) :
    endsPass (completedEvent runId n overall) :=
  ⟨by rw [completedEvent, isKind_cons], rfl⟩

theorem completed_overall (runId : Str) (n : Nat) (overall : Bool) :
    (completedEvent runId n overall).get? (lit "overall_pass") = some (.bool overall) := rfl

theorem completed_other {runId : Str} {n : Nat} {overall : Bool} {k : String}
    (h : lit "state.transition" ≠ lit k) : ¬isKind (completedEvent runId n overall) k := by
  rw [completedEvent, isKind_cons]
  exact h

end Events

/-! ## The conditions of a pass -/

section Conditions

variable [FloatModel] [FloatTime] {κ : Type} (c : LoopController κ)

/-- The reading that the budget brake starts from. -/
def startNs : Int := firstReading c ⟨0, .usage, 0⟩

/-- The controller's clock has reached the budget. -/
def ControllerLate (i : Instant) : Prop :=
  c.spec.wallClockBudgetS.value ≤ FloatModel.value (c.clock.elapsed opening i)

/-- The budget brake finds the wall-clock budget exhausted when a pass completes. -/
def LateEnd (n : Nat) : Prop := Late c.spec (startNs c) (reading c ⟨n, .completed, 0⟩)

/-- The usage of a pass is unknown, or uses up the token budget. -/
def UsageAborts (t : Int) (used : Option Int) : Prop :=
  ∀ u, used = some u → 0 ≤ u → c.spec.tokenBudget ≤ t + u

/-- A pass that the controller aborts. -/
def Aborts (n : Nat) (t : Int) (r : PassResult κ) : Prop :=
  ((UsageAborts c t r.tokensUsed ∨ ControllerLate c ⟨n, .observed, 0⟩) ∨
    ControllerLate c ⟨n, .verified, 0⟩) ∨ LateEnd c n

/-- The report of a pass whose candidate is verified. -/
def passReport (n : Nat) (r : PassResult κ) : VerificationReport :=
  (c.verifier.verify c.clock c.spec n r.candidate).1

open Classical in
/-- The decision of a pass with `t` tokens before it. -/
noncomputable def verdict (n : Nat) (t : Int) (r : PassResult κ) (stalled : Prop) :
    Option RunOutcome :=
  if Aborts c n t r then some .aborted
  else if r.halt ≠ .null ∨ stalled then some .escalated
  else if (passReport c n r).overallPass = true then some .success
  else if n = c.spec.maxPasses then some .escalated
  else none

/-- `tokens` after a pass. -/
def tokensAfter (t : Int) : Option Int → Option Int
  | some used => if used < 0 then none else some (t + used)
  | none => none

/-- The budget brake's count after a pass. -/
def spentAfter (t : Int) : Option Int → Int
  | some used => if used < 0 then t else t + used
  | none => t

/-- The worker reports a tool call. -/
def ReportsTools (observations : Option Json) : Prop :=
  ∃ xs d, observations = some (.arr xs) ∧ .obj d ∈ xs ∧ isKind d "tool.invoked"

/-- Judges were called only while no abort stood, after criteria that all passed. -/
def Judged (calls : List (PassCall κ)) : Prop :=
  ∀ call ∈ calls, call.call.criterion.checkType = .judge → ¬Asks .abort call.trips ∧
    ∀ j < call.call.index, ∀ d, c.spec.successCriteria[j]? = some d →
      c.verifier.Passes call.pass j call.candidate d

/-- How a run may fail. -/
def Fails (e : Failure) (s : RunState κ) : Prop :=
  e ≠ .assertion ∧ s.passes ≤ c.spec.maxPasses ∧ Judged c s.calls

/-- No elapsed time that was compared had reached the budget. -/
def Timely (s : RunState κ) : Prop :=
  (∀ e ∈ s.checks, InTime c.spec e) ∧ ∀ e ∈ s.brakes.budget.checks, InTime c.spec e

/-- The state inside a pass: `ab` are the reasons to abort that have been found, `es` those to
escalate, and `ok` those for the completion brake to have tripped. -/
structure Mid (n : Nat) (total : Option Int) (sum : Int) (ab es ok : Prop) (s : RunState κ) :
    Prop where
  tokens : s.tokens = total
  passes : s.passes = n
  counted : s.brakes.maxIteration.passCount + 1 = n
  spent : s.brakes.budget.tokensUsed = sum
  started : s.brakes.budget.startNs = some (startNs c)
  due : ab → Asks .abort s.trips
  early : Asks .abort s.trips → ab ∨ LateEnd c n
  up : Asks .escalate s.trips ↔ es
  passed : s.brakes.completion.tripped = true → ok
  timely : Asks .abort s.trips ∨ Timely c s
  judged : Judged c s.calls
  bounded : n ≤ c.spec.maxPasses

end Conditions

/-! ## Steps inside a pass -/

section Steps

variable [FloatModel] [FloatTime] {κ : Type} {c : LoopController κ} {n : Nat} {tokens : Option Int}
  {spent : Int} {due up passed : Prop} {s u : RunState κ}

theorem Mid.fails {e : Failure} (h : Mid c n tokens spent due up passed s) (he : Harmless s e u) :
    Fails c e u := by
  refine ⟨he.1, ?_, ?_⟩
  · rw [he.2.1, h.passes]
    exact h.bounded
  · rw [he.2.2]
    exact h.judged

omit [FloatTime] in
/-- Every reading of a pass comes before that of its completion. -/
theorem reading_le {stage : Stage} {k : Nat} (h : stage.rank < Stage.completed.rank) :
    reading c ⟨n, stage, k⟩ ≤ reading c ⟨n, .completed, 0⟩ :=
  c.clock.monotonicNs_le _ _ (Or.inr ⟨rfl, Or.inl h⟩)

theorem Mid.fed {stage : Stage} {k : Nat} {event : Fields} {stalled : Prop}
    (h : Mid c n tokens spent due up passed s) (hf : Fed c ⟨n, stage, k⟩ event stalled s u)
    (hstage : stage.rank < Stage.completed.rank) (hend : ¬endsPass event) :
    Mid c n tokens (spent + spentBy event) (due ∨ OverBudget c.spec event spent) (up ∨ stalled)
      (passed ∨ reportsSuccess event) u := by
  have hstart : s.brakes.budget.startNs.getD (firstReading c ⟨n, stage, k⟩) = startNs c := by
    rw [h.started]
    rfl
  have hfabort := hf.abort
  rw [hstart, h.spent] at hfabort
  have hcompared := hf.compared
  rw [hstart] at hcompared
  refine { tokens := hf.tokens.trans h.tokens, passes := hf.passes.trans h.passes, counted := ?_,
           spent := ?_, started := ?_, due := ?_, early := ?_, up := ?_, passed := ?_, timely := ?_,
           judged := ?_, bounded := h.bounded }
  · rw [hf.counted, if_neg hend]
    exact h.counted
  · rw [hf.spent, h.spent]
  · rw [hf.started, hstart]
  · rintro (hdue | hover)
    · exact hfabort.2 (Or.inl (h.due hdue))
    · exact hfabort.2 (Or.inr (Or.inl hover))
  · intro habort
    rcases hfabort.1 habort with hold | hover | hlate
    · exact (h.early hold).imp_left Or.inl
    · exact Or.inl (Or.inr hover)
    · exact Or.inr (hlate.mono (reading_le hstage))
  · rw [hf.escalate, h.up]
    simp [hend]
  · intro hdone
    exact (hf.done hdone).imp_left h.passed
  · by_cases habort : Asks .abort u.trips
    · exact Or.inl habort
    · have hold : ¬Asks .abort s.trips := fun hold => habort (hfabort.2 (Or.inl hold))
      obtain ⟨hchecks, hbrake⟩ := h.timely.resolve_left hold
      refine Or.inr ⟨hf.checks ▸ hchecks, ?_⟩
      intro e he
      rcases hcompared e he with he | hin | hlate
      · exact hbrake e he
      · exact hin
      · exact absurd (hfabort.2 (Or.inr (Or.inr hlate))) habort
  · rw [hf.calls]
    exact h.judged

/-- The reasons in a state inside a pass may be replaced by equivalent ones. -/
theorem Mid.congr {due' up' passed' : Prop} {spent' : Int} (h : Mid c n tokens spent due up passed s)
    (hspent : spent = spent') (hdue : due ↔ due') (hup : up ↔ up') (hpassed : passed → passed') :
    Mid c n tokens spent' due' up' passed' s := by
  subst hspent
  obtain rfl := propext hdue
  obtain rfl := propext hup
  exact { h with passed := fun hdone => hpassed (h.passed hdone) }

theorem Mid.forced {action : BrakeAction} {due' up' : Prop} (h : Mid c n tokens spent due up passed s)
    (hu : ∃ trips, u = { s with trips := trips })
    (hasks : ∀ a, Asks a u.trips ↔ Asks a s.trips ∨ a = action)
    (hdue : due' ↔ due ∨ action = .abort) (hup : up' ↔ up ∨ action = .escalate) :
    Mid c n tokens spent due' up' passed u := by
  obtain ⟨trips, rfl⟩ := hu
  refine { h with due := ?_, early := ?_, up := ?_, timely := ?_ }
  · intro hd
    rw [hasks, eq_comm (a := BrakeAction.abort)]
    exact (hdue.1 hd).imp_left h.due
  · intro habort
    rw [hasks, eq_comm (a := BrakeAction.abort)] at habort
    rw [hdue]
    rcases habort with hold | haction
    · exact (h.early hold).imp_left Or.inl
    · exact Or.inl (Or.inr haction)
  · rw [hasks, hup, h.up, eq_comm (a := BrakeAction.escalate)]
  · exact h.timely.imp_left fun habort => (hasks .abort).2 (Or.inl habort)

theorem guardTime_yields {i : Instant} (h : Mid c n tokens spent due up passed s) :
    Yields (guardTime c n i) s
      (fun _ u => Mid c n tokens spent (due ∨ ControllerLate c i) up passed u ∧ u.report = s.report ∧
        u.calls = s.calls ∧ (Asks .abort s.trips → Asks .abort u.trips))
      (Fails c) := by
  rw [guardTime, overTime]
  refine yields_bind (p := fun late t =>
    t = { s with checks := s.checks ++ [c.clock.elapsed opening i] } ∧
      (late = true ↔ ControllerLate c i)) ?_ ?_
  · apply yields_write_bind
    apply yields_pure
    exact ⟨rfl, decide_eq_true_iff⟩
  · rintro late _ ⟨rfl, hlate⟩
    by_cases hl : late = true
    · rw [if_pos hl, forceTime]
      refine force_yields.conseq ?_ ?_
      · rintro _ u ⟨⟨trips, rfl⟩, hasks⟩
        have habort : Asks .abort trips := (hasks .abort).2 (Or.inr rfl)
        refine ⟨{ h with due := fun _ => habort, early := fun _ => Or.inl (Or.inr (hlate.1 hl)),
                         up := ?_, timely := Or.inl habort }, rfl, rfl, fun _ => habort⟩
        rw [hasks]
        simpa using h.up
      · intro e u he
        exact h.fails ⟨he.1, he.2.1, he.2.2⟩
    · rw [if_neg hl]
      have hnot : ¬ControllerLate c i := fun hc => hl (hlate.2 hc)
      apply yields_pure
      refine ⟨{ h with due := ?_, early := ?_, timely := ?_ }, rfl, rfl, fun habort => habort⟩
      · rintro (hd | hd)
        · exact h.due hd
        · exact absurd hd hnot
      · intro habort
        exact (h.early habort).imp_left Or.inl
      · refine h.timely.imp_right fun htimely => ⟨?_, htimely.2⟩
        intro e he
        rcases List.mem_append.1 he with he | he
        · exact htimely.1 e he
        · rw [List.mem_singleton.1 he]
          exact lt_of_not_ge hnot

theorem feed_mid {stage : Stage} {k : Nat} {event : Fields}
    (h : Mid c n tokens spent due up passed s) (hstage : stage.rank < Stage.completed.rank)
    (hend : ¬endsPass event) :
    Yields (feed c ⟨n, stage, k⟩ event) s
      (fun _ u => ∃ stalled, (stalled → isKind event "tool.invoked") ∧
        Mid c n tokens (spent + spentBy event) (due ∨ OverBudget c.spec event spent) (up ∨ stalled)
          (passed ∨ reportsSuccess event) u ∧
        u.report = s.report ∧ u.calls = s.calls ∧ (Asks .abort s.trips → Asks .abort u.trips))
      (Fails c) := by
  refine feed_yields.conseq ?_ fun _ _ he => h.fails he
  rintro _ u ⟨stalled, hf⟩
  exact ⟨stalled, hf.tool, h.fed hf hstage hend, hf.report, hf.calls,
    fun habort => hf.abort.2 (Or.inl habort)⟩

/-- A forced trip, as a program. -/
theorem force_mid {name : String} {reason : Str} {action : BrakeAction} {event : Fields}
    {due' up' : Prop} (h : Mid c n tokens spent due up passed s)
    (hdue : due' ↔ due ∨ action = .abort) (hup : up' ↔ up ∨ action = .escalate) :
    Yields (force name reason action event) s (fun _ u => Mid c n tokens spent due' up' passed u)
      (Fails c) := by
  refine force_yields.conseq ?_ fun _ _ he => h.fails he
  rintro _ u ⟨hu, hasks⟩
  exact h.forced hu hasks hdue hup

/-! ## The parts of a pass -/

theorem rejectUsage_yields {t : Int} {used : Option Int}
    (h : Mid c n (some t) t False False False s) (hbad : ∀ u, used = some u → u < 0) :
    Yields (rejectUsage n) s
      (fun _ u => Mid c n (tokensAfter t used) (spentAfter t used) (UsageAborts c t used) False False u)
      (Fails c) := by
  have htokens : tokensAfter t used = none := by
    cases used with
    | none => rfl
    | some u => rw [tokensAfter, if_pos (hbad u rfl)]
  have hspent : spentAfter t used = t := by
    cases used with
    | none => rfl
    | some u => rw [spentAfter, if_pos (hbad u rfl)]
  have hdue : UsageAborts c t used := fun u hu hpos => absurd (hbad u hu) (by omega)
  rw [htokens, hspent]
  apply yields_write_bind
  have hmid : Mid c n none t False False False { s with tokens := none } := { h with tokens := rfl }
  exact force_mid hmid (by simp [hdue]) (by simp)

theorem addUsage_yields {t used : Int} (h : Mid c n (some t) t False False False s)
    (hused : 0 ≤ used) :
    Yields (addUsage c n used) s
      (fun _ u => Mid c n (some (t + used)) (t + used) (c.spec.tokenBudget ≤ t + used) False False u)
      (Fails c) := by
  have hcustom : ¬reportsSuccess (usageEvent used) := fun hr => usage_other (by decide) hr.1
  have hspent : spentBy (usageEvent used) = used := by
    rw [spentBy, if_pos (usage_kind used), reportedTokens_usage hused]
    rfl
  have hover : OverBudget c.spec (usageEvent used) t ↔ c.spec.tokenBudget ≤ t + used := by
    rw [OverBudget, reportedTokens_usage hused]
    simp [usage_kind]
  rw [addUsage]
  apply yields_read_bind
  rw [h.tokens]
  apply yields_write_bind
  have hmid : Mid c n (some (t + used)) t False False False { s with tokens := some (t + used) } :=
    { h with tokens := rfl }
  refine yields_bind (feed_mid hmid (by decide) fun hend => usage_other (by decide) hend.1) ?_
  rintro _ u ⟨stalled, htool, hu, -⟩
  have hstalled : ¬stalled := fun hstalled => usage_other (by decide) (htool hstalled)
  replace hu : Mid c n (some (t + used)) (t + used) (c.spec.tokenBudget ≤ t + used) False False u :=
    hu.congr (by rw [hspent]) (by rw [false_or, hover]) (by simp [hstalled]) (by simp [hcustom])
  rw [guardTokens]
  by_cases hbudget : c.spec.tokenBudget ≤ t + used
  · rw [if_pos hbudget]
    exact force_mid hu (by simp [hbudget]) (by simp)
  · rw [if_neg hbudget]
    exact yields_pure hu

theorem countTokens_yields {t : Int} {used : Option Int}
    (h : Mid c n (some t) t False False False s) :
    Yields (countTokens c n used) s
      (fun _ u => Mid c n (tokensAfter t used) (spentAfter t used) (UsageAborts c t used) False False u)
      (Fails c) := by
  cases used with
  | none => exact rejectUsage_yields h nofun
  | some used =>
      rw [countTokens]
      by_cases hneg : used < 0
      · rw [if_pos hneg]
        exact rejectUsage_yields h fun u hu => Option.some.inj hu ▸ hneg
      · rw [if_neg hneg, tokensAfter, spentAfter, if_neg hneg, if_neg hneg]
        refine (addUsage_yields h (by omega)).conseq ?_ fun _ _ he => he
        intro _ u hu
        refine hu.congr rfl ?_ Iff.rfl id
        simp only [UsageAborts, Option.some.injEq, forall_eq']
        exact ⟨fun hb _ => hb, fun hb => hb (by omega)⟩

/-- Observations only add a reason to escalate, and only those of tool calls do. -/
theorem feedObservations_yields {k : Nat} {observations : List Fields}
    (h : Mid c n tokens spent due up passed s) :
    Yields (feedObservations c n k observations) s
      (fun _ u => ∃ stalled, (stalled → ∃ d ∈ observations, isKind d "tool.invoked") ∧
        Mid c n tokens spent due (up ∨ stalled) passed u)
      (Fails c) := by
  induction observations generalizing k s up with
  | nil => exact yields_pure ⟨False, nofun, h.congr rfl Iff.rfl (by simp) id⟩
  | cons obs rest ih =>
      rw [feedObservations]
      refine yields_bind (p := fun _ u => ∃ stalled, (stalled → isKind obs "tool.invoked") ∧
        Mid c n tokens spent due (up ∨ stalled) passed u) ?_ ?_
      · rw [feedObservation]
        by_cases htool : isKind obs "tool.invoked"
        · rw [if_pos htool]
          have hidle := tool_idle htool
          refine (feed_mid h (by decide) hidle.transition).conseq ?_ fun _ _ he => he
          rintro _ u ⟨stalled, -, hu, -⟩
          refine ⟨stalled, fun _ => htool, hu.congr ?_ ?_ Iff.rfl ?_⟩
          · rw [spentBy_of_not hidle.response, add_zero]
          · exact ⟨fun hd => hd.resolve_right fun hover => hidle.response hover.1, Or.inl⟩
          · exact fun hp => hp.resolve_right hidle.custom
        · rw [if_neg htool]
          exact yields_pure ⟨False, nofun, h.congr rfl Iff.rfl (by simp) id⟩
      · rintro _ u ⟨stalled, htool, hu⟩
        refine (ih hu).conseq ?_ fun _ _ he => he
        rintro _ v ⟨stalled', htools, hv⟩
        refine ⟨stalled ∨ stalled', ?_, hv.congr rfl Iff.rfl or_assoc id⟩
        rintro (hs | hs)
        · exact ⟨obs, List.mem_cons_self, htool hs⟩
        · obtain ⟨d, hd, hkind⟩ := htools hs
          exact ⟨d, List.mem_cons_of_mem _ hd, hkind⟩

theorem checkHalt_yields {halt : Json} (h : Mid c n tokens spent due up passed s) :
    Yields (checkHalt halt) s
      (fun _ u => Mid c n tokens spent due (up ∨ halt ≠ .null) passed u) (Fails c) := by
  have hraise : ∀ x : PyExn, Yields (Prog.raise (.raised x) : Running κ Unit) s
      (fun _ u => Mid c n tokens spent due (up ∨ halt ≠ .null) passed u) (Fails c) :=
    fun x => yields_raise (h.fails harmless_raised)
  cases halt with
  | null => exact yields_pure (h.congr rfl Iff.rfl (by simp) id)
  | str reason =>
      rw [checkHalt]
      by_cases hreason : reason ∈ haltReasons
      · rw [if_pos hreason]
        exact force_mid h (by simp) (by simp)
      · rw [if_neg hreason]
        exact hraise _
  | _ =>
      simp only [checkHalt]
      split <;> exact hraise _

/-- The verification stands, or an abort has made it void. -/
def Reported (c : LoopController κ) (n : Nat) (r : PassResult κ) (s : RunState κ) : Prop :=
  (s.report = some (passReport c n r) ∧ ∀ call ∈ (c.verifier.verify c.clock c.spec n r.candidate).2,
      ∃ trips, (⟨n, r.candidate, call, trips⟩ : PassCall κ) ∈ s.calls) ∨
    s.report = none ∧ Asks .abort s.trips

theorem Reported.frame {r : PassResult κ} (h : Reported c n r s) (hreport : u.report = s.report)
    (hcalls : u.calls = s.calls) (habort : Asks .abort s.trips → Asks .abort u.trips) :
    Reported c n r u := by
  rw [Reported, hreport, hcalls]
  exact h.imp_right fun hn => ⟨hn.1, habort hn.2⟩

theorem verifyPass_yields {r : PassResult κ} (h : Mid c n tokens spent due up False s) :
    Yields (verifyPass c n r.candidate) s
      (fun _ u => Mid c n tokens spent due up ((passReport c n r).overallPass = true) u ∧
        Reported c n r u)
      (Fails c) := by
  rw [verifyPass]
  apply yields_read_bind
  by_cases habort : Asks .abort s.trips
  · rw [if_pos habort]
    refine ⟨?_, nofun⟩
    intro _ _
    exact ⟨{ h with passed := fun hdone => (h.passed hdone).elim }, Or.inr ⟨rfl, habort⟩⟩
  · rw [if_neg habort, verifyCandidate]
    apply yields_write_bind
    -- The calls of this pass are judged by the trips before them, among which there is no abort.
    have hmid : Mid c n tokens spent due up False
        { s with
          report := some (c.verifier.verify c.clock c.spec n r.candidate).1
          calls := s.calls ++ (c.verifier.verify c.clock c.spec n r.candidate).2.map
            fun call => ⟨n, r.candidate, call, s.trips⟩ } := by
      refine { h with judged := ?_ }
      intro call hcall hjudge
      rcases List.mem_append.1 hcall with hold | hnew
      · exact h.judged call hold hjudge
      · obtain ⟨call, hmem, rfl⟩ := List.mem_map.1 hnew
        exact ⟨habort, fun j hj d hd => verify_judged hmem hjudge hj hd⟩
    have hother : ∀ {k : String}, lit "custom" ≠ lit k → ¬isKind (verificationEvent c.runId
        (c.verifier.verify c.clock c.spec n r.candidate).1) k :=
      fun hne hkind => hne (isKind_unique (verification_kind _ _) hkind)
    refine (feed_mid hmid (by decide) fun hend => hother (by decide) hend.1).conseq ?_
      fun _ _ he => he
    rintro _ u ⟨stalled, htool, hu, hreport, hcalls, -⟩
    have hstalled : ¬stalled := fun hs => hother (by decide) (htool hs)
    refine ⟨hu.congr ?_ ?_ (by simp [hstalled]) ?_, Or.inl ⟨hreport, ?_⟩⟩
    · rw [spentBy_of_not (hother (by decide)), add_zero]
    · exact ⟨fun hd => hd.resolve_right fun hover => hother (by decide) hover.1, Or.inl⟩
    · rintro (hf | hsuccess)
      · exact hf.elim
      · exact verification_success.1 hsuccess
    · intro call hcall
      refine ⟨s.trips, ?_⟩
      rw [hcalls]
      exact List.mem_append_right _ (List.mem_map.2 ⟨call, hcall, rfl⟩)

/-- The state at the end of a pass, before its trips are cleared. -/
structure Closed (c : LoopController κ) (n : Nat) (total : Option Int) (sum : Int) (ab es ok : Prop)
    (s : RunState κ) : Prop where
  tokens : s.tokens = total
  passes : s.passes = n
  counted : s.brakes.maxIteration.passCount = n
  spent : s.brakes.budget.tokensUsed = sum
  started : s.brakes.budget.startNs = some (startNs c)
  abort : Asks .abort s.trips ↔ ab
  up : Asks .escalate s.trips ↔ es
  passed : s.brakes.completion.tripped = true → ok
  timely : Asks .abort s.trips ∨ Timely c s
  judged : Judged c s.calls

theorem Mid.completed {overall : Bool} {stalled : Prop} (h : Mid c n tokens spent due up passed s)
    (hf : Fed c ⟨n, .completed, 0⟩ (completedEvent c.runId n overall) stalled s u) :
    Closed c n tokens spent (due ∨ LateEnd c n)
      (up ∨ (n = c.spec.maxPasses ∧ overall = false)) passed u := by
  have hstart : s.brakes.budget.startNs.getD (firstReading c ⟨n, .completed, 0⟩) = startNs c := by
    rw [h.started]
    rfl
  have hends := completed_ends c.runId n overall
  have hllm : ¬isKind (completedEvent c.runId n overall) "llm.response" := completed_other (by decide)
  have hstalled : ¬stalled := fun hs => completed_other (by decide) (hf.tool hs)
  have hsuccess : ¬reportsSuccess (completedEvent c.runId n overall) :=
    fun hr => completed_other (by decide) hr.1
  have hfabort := hf.abort
  rw [hstart, h.spent] at hfabort
  have habort : Asks .abort u.trips ↔ due ∨ LateEnd c n := by
    rw [hfabort]
    constructor
    · rintro (hold | hover | hlate)
      · exact h.early hold
      · exact absurd hover.1 hllm
      · exact Or.inr hlate
    · rintro (hdue | hlate)
      · exact Or.inl (h.due hdue)
      · exact Or.inr (Or.inr hlate)
  have hcompared := hf.compared
  rw [hstart] at hcompared
  refine { tokens := hf.tokens.trans h.tokens, passes := hf.passes.trans h.passes, counted := ?_,
           spent := ?_, started := ?_, abort := habort, up := ?_, passed := ?_, timely := ?_,
           judged := ?_ }
  · rw [hf.counted, if_pos hends]
    exact h.counted
  · rw [hf.spent, h.spent, spentBy_of_not hllm, add_zero]
  · rw [hf.started, hstart]
  · have hcount : c.spec.maxPasses ≤ s.brakes.maxIteration.passCount + 1 ↔ n = c.spec.maxPasses := by
      have hn := h.counted
      have hle := h.bounded
      omega
    rw [hf.escalate, h.up, completed_overall, hcount]
    simp [hends, hstalled]
  · intro hdone
    exact h.passed ((hf.done hdone).resolve_right hsuccess)
  · by_cases hab : Asks .abort u.trips
    · exact Or.inl hab
    · have hold : ¬Asks .abort s.trips := fun hold => hab (hfabort.2 (Or.inl hold))
      obtain ⟨hchecks, hbrake⟩ := h.timely.resolve_left hold
      refine Or.inr ⟨hf.checks ▸ hchecks, ?_⟩
      intro e he
      rcases hcompared e he with he | hin | hlate
      · exact hbrake e he
      · exact hin
      · exact absurd (hfabort.2 (Or.inr (Or.inr hlate))) hab
  · rw [hf.calls]
    exact h.judged

theorem completePass_yields {r : PassResult κ} (h : Mid c n tokens spent due up passed s)
    (hreport : Reported c n r s) :
    Yields (completePass c n) s
      (fun o u => Closed c n tokens spent (due ∨ LateEnd c n)
          (up ∨ (n = c.spec.maxPasses ∧ overallPass s.report = false)) passed u ∧
        Reported c n r u ∧ u.report = s.report ∧
        o = outcomeOf (decision u.trips) (overallPass s.report))
      (Fails c) := by
  rw [completePass]
  apply yields_read_bind
  refine yields_bind (feed_yields.conseq (fun _ _ hu => hu) fun _ _ he => h.fails he) ?_
  rintro _ u ⟨stalled, hf⟩
  have hu := h.completed hf
  have hframe := hreport.frame hf.report hf.calls fun habort => hf.abort.2 (Or.inl habort)
  have hpure : ∀ v : RunState κ, Closed c n tokens spent (due ∨ LateEnd c n)
      (up ∨ (n = c.spec.maxPasses ∧ overallPass s.report = false)) passed v → Reported c n r v →
      v.report = s.report →
      Yields (Prog.read >>= fun t => (pure (outcomeOf (decision t.trips) (overallPass s.report)) :
        Running κ (Option RunOutcome))) v
      (fun o u => Closed c n tokens spent (due ∨ LateEnd c n)
          (up ∨ (n = c.spec.maxPasses ∧ overallPass s.report = false)) passed u ∧
        Reported c n r u ∧ u.report = s.report ∧
        o = outcomeOf (decision u.trips) (overallPass s.report)) (Fails c) :=
    fun v hv hr hs => yields_read_bind (yields_pure ⟨hv, hr, hs, rfl⟩)
  rw [guardPasses]
  by_cases hlast : n = c.spec.maxPasses ∧ overallPass s.report = false
  · rw [if_pos hlast]
    refine yields_bind (force_yields.conseq (fun _ _ hv => hv) ?_) ?_
    · intro e v he
      exact h.fails ⟨he.1, he.2.1.trans hf.passes, he.2.2.trans hf.calls⟩
    · rintro _ v ⟨⟨trips, rfl⟩, hasks⟩
      have habort : Asks .abort trips ↔ Asks .abort u.trips := by
        simpa using hasks .abort
      refine hpure _ { hu with abort := ?_, up := ?_, timely := ?_ } ?_ hf.report
      · exact habort.trans hu.abort
      · rw [hasks, hu.up]
        simp [hlast]
      · exact hu.timely.imp_left habort.2
      · exact hframe.frame rfl rfl habort.2
  · rw [if_neg hlast]
    refine yields_bind (p := fun _ v => v = u) (yields_pure rfl) ?_
    rintro _ v rfl
    exact hpure v hu hframe hf.report

/-! ## A whole pass -/

theorem outcome_verdict {r : PassResult κ} {t : Int} {stalled : Prop} {trips : List BrakeTrip}
    {report : Option VerificationReport} (habort : Asks .abort trips ↔ Aborts c n t r)
    (hup : Asks .escalate trips ↔ ((False ∨ stalled) ∨ r.halt ≠ .null) ∨
      (n = c.spec.maxPasses ∧ overallPass report = false))
    (hreport : ¬Asks .abort trips → report = some (passReport c n r)) :
    outcomeOf (decision trips) (overallPass report) = verdict c n t r stalled := by
  rw [verdict, decision]
  by_cases hab : Asks .abort trips
  · rw [if_pos hab, if_pos (habort.1 hab)]
    rfl
  · have hoverall : overallPass report = (passReport c n r).overallPass := by
      rw [hreport hab]
      rfl
    rw [if_neg hab, if_neg fun h => hab (habort.2 h)]
    by_cases hesc : r.halt ≠ .null ∨ stalled
    · have hasks : Asks .escalate trips := by
        rw [hup]
        tauto
      rw [if_pos hasks, if_pos hesc]
      rfl
    · rw [if_neg hesc]
      have hasks : Asks .escalate trips ↔
          n = c.spec.maxPasses ∧ (passReport c n r).overallPass = false := by
        rw [hup, hoverall]
        tauto
      by_cases hpass : (passReport c n r).overallPass = true
      · have hnot : ¬Asks .escalate trips := by
          rw [hasks, hpass]
          simp
        rw [if_neg hnot, if_pos hpass, outcomeOf, hoverall, if_pos hpass]
      · rw [if_neg hpass]
        by_cases hlast : n = c.spec.maxPasses
        · rw [if_pos (hasks.2 ⟨hlast, by simpa using hpass⟩), if_pos hlast]
          rfl
        · rw [if_neg fun h => hlast (hasks.1 h).1, if_neg hlast, outcomeOf, hoverall, if_neg hpass]

omit [FloatTime] in
theorem observationObjects_tools {observations : Option Json} {ds : List Fields}
    (h : observationObjects observations = .ok ds) (htool : ∃ d ∈ ds, isKind d "tool.invoked") :
    ReportsTools observations := by
  obtain ⟨d, hd, hkind⟩ := htool
  cases observations with
  | none =>
      cases h
      cases hd
  | some v =>
      cases v with
      | arr xs =>
          rw [observationObjects] at h
          split at h
          · cases h
          · obtain ⟨x, hx, hxd⟩ := of_mem_mapE h hd
            cases x with
            | obj e =>
                cases hxd
                exact ⟨xs, d, rfl, hx, hkind⟩
            | _ => cases hxd
      | _ => cases h

theorem judgePass_yields {r : PassResult κ} {t : Int}
    (h : Mid c n (some t) t False False False s) :
    Yields (judgePass c n r) s
      (fun o u => ∃ stalled, (stalled → ReportsTools r.observations) ∧
        o = verdict c n t r stalled ∧
        Closed c n (tokensAfter t r.tokensUsed) (spentAfter t r.tokensUsed) (Aborts c n t r)
          (((False ∨ stalled) ∨ r.halt ≠ .null) ∨
            (n = c.spec.maxPasses ∧ overallPass u.report = false))
          ((passReport c n r).overallPass = true) u ∧
        Reported c n r u)
      (Fails c) := by
  rw [judgePass]
  refine yields_bind (countTokens_yields h) ?_
  intro _ s₁ h₁
  refine yields_bind (p := fun ds u => u = s₁ ∧ observationObjects r.observations = .ok ds)
    ((expr_yields fun ds hds => ⟨rfl, hds⟩).conseq (fun _ _ hp => hp) fun _ _ he => h₁.fails he) ?_
  rintro ds _ ⟨rfl, hds⟩
  refine yields_bind (feedObservations_yields h₁) ?_
  rintro _ s₂ ⟨stalled, htools, h₂⟩
  refine yields_bind (checkHalt_yields h₂) ?_
  intro _ s₃ h₃
  refine yields_bind (guardTime_yields h₃) ?_
  rintro _ s₄ ⟨h₄, -⟩
  refine yields_bind (verifyPass_yields h₄) ?_
  rintro _ s₅ ⟨h₅, hreported⟩
  refine yields_bind (guardTime_yields h₅) ?_
  rintro _ s₆ ⟨h₆, hreport, hcalls, hmono⟩
  refine (completePass_yields h₆ (hreported.frame hreport hcalls hmono)).conseq ?_ fun _ _ he => he
  rintro o u ⟨hclosed, hu, hsame, rfl⟩
  rw [← hsame] at hclosed ⊢
  refine ⟨stalled, fun hs => observationObjects_tools hds (htools hs), ?_, hclosed, hu⟩
  apply outcome_verdict hclosed.abort hclosed.up
  intro hab
  exact hu.elim And.left fun hnone => absurd hnone.2 hab

end Steps

end ResidualHarness.Loop
