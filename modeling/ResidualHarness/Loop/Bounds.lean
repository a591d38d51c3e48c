import ResidualHarness.Loop.Passes
import ResidualHarness.Python.WholeFloats

/-!
# Bounded, verified loops

A run of the controller ends within `max_passes` passes, or it raises; the assertion after the loop
is not reached. `Ends` mentions the observations of the worker only where they report tool calls,
which is enough to compare two runs that differ in them.
-/

set_option autoImplicit false

namespace ResidualHarness.Loop

open Python Core

section Runs

variable [FloatModel] [FloatTime] {κ : Type}

/-- The usage that a pass reports, where it is an `int`. -/
def usageOf (c : LoopController κ) (k : Nat) : Option Int :=
  match c.harness k with
  | .returned r => r.tokensUsed
  | _ => none

/-- The usage of the passes before `n`. -/
def usageBefore (c : LoopController κ) (n : Nat) : Int :=
  ∑ k ∈ Finset.Ico 1 n, (usageOf c k).getD 0

/-- Every pass before `n` reported its usage. -/
def UsageKnown (c : LoopController κ) (n : Nat) : Prop :=
  ∀ k, 1 ≤ k → k < n → ∃ u, usageOf c k = some u ∧ 0 ≤ u

/-- The state at the head of the loop, before pass `n`. -/
structure Head (c : LoopController κ) (n : Nat) (s : RunState κ) : Prop where
  tokens : s.tokens = some (usageBefore c n)
  trips : s.trips = []
  passes : s.passes + 1 = n
  counted : s.brakes.maxIteration.passCount + 1 = n
  spent : s.brakes.budget.tokensUsed = usageBefore c n
  started : s.brakes.budget.startNs = some (startNs c)
  fresh : s.brakes.completion.tripped = false
  timely : Timely c s
  judged : Judged c s.calls
  known : UsageKnown c n
  bounded : n ≤ c.spec.maxPasses

/-- What a successful run has established: the last pass gave a candidate on which every criterion was
evaluated to `PASS`, every pass reported its usage and the sum is below the budget, no elapsed time
that was compared had reached the budget, and no trip asks for an abort or an escalation. -/
structure Verified (c : LoopController κ) (n : Nat) (total : Option Int)
    (report : Option VerificationReport) (s : RunState κ) : Prop where
  candidate : ∃ r, c.harness n = .returned r ∧
    ∀ i d, c.spec.successCriteria[i]? = some d → c.verifier.Passes n i r.candidate d ∧
      ∃ trips, (⟨n, r.candidate, ⟨i, d⟩, trips⟩ : PassCall κ) ∈ s.calls
  report : ∃ final, report = some final ∧ final.overallPass = true ∧ AllPass final.results
  known : UsageKnown c (n + 1)
  total : total = some (usageBefore c (n + 1))
  budget : usageBefore c (n + 1) < c.spec.tokenBudget
  timely : Timely c s
  quiet : ∀ t ∈ s.trips, t.recommendedAction = .continue_

/-- How a run may end from the head of pass `n`: with which outcome, after how many passes and with
how many tokens. -/
inductive Ends (c : LoopController κ) : Nat → Int → RunOutcome → Nat → Option Int → Prop where
  | late {n : Nat} {t : Int} (h : ControllerLate c ⟨n, .guard, 0⟩) :
      Ends c n t .aborted (n - 1) (some t)
  | decided {n : Nat} {t : Int} {r : PassResult κ} {stalled : Prop} {o : RunOutcome}
      (h : ¬ControllerLate c ⟨n, .guard, 0⟩) (hr : c.harness n = .returned r)
      (htools : stalled → ReportsTools r.observations) (ho : verdict c n t r stalled = some o) :
      Ends c n t o n (tokensAfter t r.tokensUsed)
  | again {n m : Nat} {t : Int} {total : Option Int} {r : PassResult κ} {stalled : Prop}
      {o : RunOutcome} (h : ¬ControllerLate c ⟨n, .guard, 0⟩) (hr : c.harness n = .returned r)
      (htools : stalled → ReportsTools r.observations) (ho : verdict c n t r stalled = none)
      (hrest : Ends c (n + 1) (spentAfter t r.tokensUsed) o m total) : Ends c n t o m total

variable {c : LoopController κ} {n : Nat} {s u : RunState κ}

/-! ## Reading a verdict -/

theorem verdict_none {t : Int} {r : PassResult κ} {stalled : Prop}
    (h : verdict c n t r stalled = none) : ¬Aborts c n t r ∧ n ≠ c.spec.maxPasses ∧
      ¬(passReport c n r).overallPass = true := by
  rw [verdict] at h
  split at h
  · cases h
  split at h
  · cases h
  split at h
  · cases h
  split at h
  · cases h
  · exact ⟨‹_›, ‹_›, ‹_›⟩

theorem verdict_success {t : Int} {r : PassResult κ} {stalled : Prop}
    (h : verdict c n t r stalled = some .success) :
    ¬Aborts c n t r ∧ r.halt = .null ∧ ¬stalled ∧ (passReport c n r).overallPass = true := by
  rw [verdict] at h
  split at h
  · cases h
  split at h
  · cases h
  · next hab hesc =>
      obtain ⟨hhalt, hstalled⟩ := not_or.1 hesc
      split at h
      · exact ⟨hab, not_not.1 hhalt, hstalled, ‹_›⟩
      · split at h <;> cases h

/-- Two verdicts of one pass differ only where one of them escalates for lack of progress. -/
theorem verdict_compare {t : Int} {r : PassResult κ} {stalled stalled' : Prop}
    {x y : Option RunOutcome} (hx : verdict c n t r stalled = x) (hy : verdict c n t r stalled' = y) :
    x = y ∨ (stalled ∧ x = some .escalated) ∨ (stalled' ∧ y = some .escalated) := by
  rw [verdict] at hx hy
  by_cases hab : Aborts c n t r
  · rw [if_pos hab] at hx hy
    exact Or.inl (hx.symm.trans hy)
  · rw [if_neg hab] at hx hy
    by_cases hs : stalled
    · rw [if_pos (Or.inr hs)] at hx
      exact Or.inr (Or.inl ⟨hs, hx.symm⟩)
    · by_cases hs' : stalled'
      · rw [if_pos (Or.inr hs')] at hy
        exact Or.inr (Or.inr ⟨hs', hy.symm⟩)
      · left
        rw [← hx, ← hy]
        simp only [hs, hs']

theorem usage_of_not_aborts {t : Int} {r : PassResult κ} (h : ¬Aborts c n t r) :
    ∃ used, r.tokensUsed = some used ∧ 0 ≤ used ∧ t + used < c.spec.tokenBudget := by
  have hu : ¬UsageAborts c t r.tokensUsed := fun hu => h (Or.inl (Or.inl (Or.inl hu)))
  simp only [UsageAborts, not_forall] at hu
  obtain ⟨used, hused, hpos, hlt⟩ := hu
  exact ⟨used, hused, hpos, lt_of_not_ge hlt⟩

/-! ## One pass of the loop -/

omit [FloatTime] in
theorem usageBefore_succ {r : PassResult κ} {used : Int} (hn : 1 ≤ n)
    (hr : c.harness n = .returned r) (hused : r.tokensUsed = some used) :
    usageBefore c (n + 1) = usageBefore c n + used := by
  rw [usageBefore, Finset.sum_Ico_succ_top hn, ← usageBefore, usageOf, hr]
  simp only [hused, Option.getD_some]

omit [FloatTime] in
theorem usageKnown_succ {r : PassResult κ} {used : Int} (h : UsageKnown c n)
    (hr : c.harness n = .returned r) (hused : r.tokensUsed = some used) (hpos : 0 ≤ used) :
    UsageKnown c (n + 1) := by
  intro k hk hkn
  rcases Nat.lt_succ_iff_lt_or_eq.1 hkn with hlt | rfl
  · exact h k hk hlt
  · refine ⟨used, ?_, hpos⟩
    rw [usageOf, hr]
    exact hused

theorem runPass_yields (h : Head c n s) :
    Yields (runPass c n) s
      (fun o u => ∃ r stalled, c.harness n = .returned r ∧ (stalled → ReportsTools r.observations) ∧
        o = verdict c n (usageBefore c n) r stalled ∧
        u.tokens = tokensAfter (usageBefore c n) r.tokensUsed ∧ u.passes = n ∧ Judged c u.calls ∧
        (o = none → Head c (n + 1) { u with trips := [] }) ∧
        (o = some .success → Verified c n u.tokens u.report u))
      (Fails c) := by
  have hn : 1 ≤ n := by
    have := h.passes
    omega
  rw [runPass]
  apply yields_write_bind
  have hmid : Mid c n (some (usageBefore c n)) (usageBefore c n) False False False
      { s with passes := s.passes + 1 } := by
    have hasks : ∀ a, ¬Asks a s.trips := by
      rintro a ⟨t, ht, -⟩
      rw [h.trips] at ht
      cases ht
    exact { tokens := h.tokens, passes := h.passes, counted := h.counted, spent := h.spent,
            started := h.started, due := False.elim, early := fun ha => absurd ha (hasks _),
            up := ⟨fun ha => absurd ha (hasks _), False.elim⟩,
            passed := fun hp => Bool.false_ne_true (h.fresh.symm.trans hp),
            timely := Or.inr h.timely, judged := h.judged, bounded := h.bounded }
  cases hr : c.harness n with
  | raised e => exact yields_raise (hmid.fails harmless_raised)
  | malformed => exact yields_raise (hmid.fails harmless_raised)
  | returned r =>
      refine (judgePass_yields hmid).conseq ?_ fun _ _ he => he
      rintro o u ⟨stalled, htools, ho, hu, hreported⟩
      refine ⟨r, stalled, rfl, htools, ho, hu.tokens, hu.passes, hu.judged, ?_, ?_⟩
      · rintro rfl
        obtain ⟨hab, hlast, hpass⟩ := verdict_none ho.symm
        obtain ⟨used, hused, hpos, -⟩ := usage_of_not_aborts hab
        have htimely := hu.timely.resolve_left fun ha => hab (hu.abort.1 ha)
        have hsum := usageBefore_succ hn hr hused
        refine { tokens := ?_, trips := rfl, passes := congrArg (· + 1) hu.passes,
                 counted := congrArg (· + 1) hu.counted, spent := ?_, started := hu.started,
                 fresh := ?_, timely := htimely, judged := hu.judged,
                 known := usageKnown_succ h.known hr hused hpos, bounded := ?_ }
        · rw [hu.tokens, hused, tokensAfter, if_neg (by omega), hsum]
        · rw [hu.spent, hused, spentAfter, if_neg (by omega), hsum]
        · by_contra hdone
          exact hpass (hu.passed (by simpa using hdone))
        · have := h.bounded
          omega
      · rintro rfl
        obtain ⟨hab, hhalt, hstalled, hpass⟩ := verdict_success ho.symm
        obtain ⟨used, hused, hpos, hlt⟩ := usage_of_not_aborts hab
        have habort : ¬Asks .abort u.trips := fun ha => hab (hu.abort.1 ha)
        obtain ⟨hreport, hcalls⟩ := hreported.resolve_right fun hnone => habort hnone.2
        have hsum := usageBefore_succ hn hr hused
        refine { candidate := ⟨r, hr, ?_⟩, report := ⟨_, hreport, hpass, verify_results.1 hpass⟩,
                 known := usageKnown_succ h.known hr hused hpos, total := ?_, budget := ?_,
                 timely := hu.timely.resolve_left habort, quiet := ?_ }
        · intro i d hd
          obtain ⟨call, hcall, rfl, rfl⟩ := verify_evaluated hpass hd
          exact ⟨verify_overallPass.1 hpass _ _ hd, hcalls call hcall⟩
        · rw [hu.tokens, hused, tokensAfter, if_neg (by omega), hsum]
        · rw [hsum]
          exact hlt
        · have hescalate : ¬Asks .escalate u.trips := by
            rw [hu.up, hreport]
            simp [hstalled, hhalt, overallPass, hpass]
          intro t ht
          cases haction : t.recommendedAction with
          | continue_ => rfl
          | escalate => exact absurd ⟨t, ht, haction⟩ hescalate
          | abort => exact absurd ⟨t, ht, haction⟩ habort

/-! ## Whole runs -/

theorem finish_yields {outcome : RunOutcome} {m : Nat} (hpasses : s.passes ≤ c.spec.maxPasses)
    (hjudged : Judged c s.calls) :
    Yields (finish c outcome m) s
      (fun r u => u = s ∧ r.outcome = outcome ∧ r.totalPasses = m ∧ r.totalTokens = s.tokens ∧
        r.finalVerification = s.report)
      (Fails c) := by
  rw [finish]
  apply yields_read_bind
  refine yields_bind (p := fun _ u => u = s) ?_ ?_
  · refine (expr_yields fun _ _ => rfl).conseq (fun _ _ hp => hp.symm) ?_
    intro e u he
    exact ⟨he.1, he.2.1.trans_le hpasses, he.2.2 ▸ hjudged⟩
  · rintro specHash u rfl
    exact yields_pure ⟨rfl, rfl, rfl, rfl, rfl⟩

/-- What holds where a run returns. -/
structure Returned (c : LoopController κ) (r : RunResult) (s : RunState κ) : Prop where
  passes : s.passes = r.totalPasses
  bounded : s.passes ≤ c.spec.maxPasses
  judged : Judged c s.calls
  verified : r.outcome = .success → Verified c r.totalPasses r.totalTokens r.finalVerification s

theorem passes_yields {k : Nat} (h : Head c n s) (hk : k + n = c.spec.maxPasses + 1) :
    Yields (passes c k n) s
      (fun r u => Returned c r u ∧
        Ends c n (usageBefore c n) r.outcome r.totalPasses r.totalTokens)
      (Fails c) := by
  -- Induction on the remaining passes; `Head` excludes that none is left.
  induction k generalizing n s with
  | zero =>
      have := h.bounded
      omega
  | succ k ih =>
      have hn : s.passes = n - 1 := by
        have := h.passes
        omega
      have hbound : s.passes ≤ c.spec.maxPasses := by
        have := h.bounded
        omega
      rw [passes]
      apply yields_read_bind
      rw [if_neg (not_not.2 h.trips)]
      refine yields_bind (p := fun late t =>
        t = { s with checks := s.checks ++ [c.clock.elapsed opening ⟨n, .guard, 0⟩] } ∧
          (late = true ↔ ControllerLate c ⟨n, .guard, 0⟩)) ?_ ?_
      · apply yields_write_bind
        apply yields_pure
        exact ⟨rfl, decide_eq_true_iff⟩
      · rintro late _ ⟨rfl, hlate⟩
        by_cases hl : late = true
        · rw [if_pos hl]
          refine yields_bind (force_yields.conseq (fun _ _ hp => hp) ?_) ?_
          · intro e u he
            exact ⟨he.1, he.2.1.trans_le hbound, he.2.2 ▸ h.judged⟩
          · rintro _ _ ⟨⟨trips, rfl⟩, -⟩
            refine Yields.conseq (finish_yields ?_ ?_) ?_ fun _ _ he => he
            · exact hbound
            · exact h.judged
            rintro r u ⟨rfl, houtcome, hpasses, htokens, -⟩
            refine ⟨⟨hn.trans hpasses.symm, hbound, h.judged, ?_⟩, ?_⟩
            · intro hsuccess
              rw [houtcome] at hsuccess
              cases hsuccess
            · rw [houtcome, hpasses, htokens.trans h.tokens]
              exact .late (hlate.1 hl)
        · have hnot : ¬ControllerLate c ⟨n, .guard, 0⟩ := fun hc => hl (hlate.2 hc)
          rw [if_neg hl]
          have hhead : Head c n
              { s with checks := s.checks ++ [c.clock.elapsed opening ⟨n, .guard, 0⟩] } := by
            refine { h with timely := ⟨?_, h.timely.2⟩ }
            intro e he
            rcases List.mem_append.1 he with he | he
            · exact h.timely.1 e he
            · rw [List.mem_singleton.1 he]
              exact lt_of_not_ge hnot
          refine yields_bind (runPass_yields hhead) ?_
          rintro o u ⟨r, stalled, hr, htools, ho, htokens, hpasses, hjudged, hagain, hsuccess⟩
          cases o with
          | some outcome =>
              have hle : u.passes ≤ c.spec.maxPasses := hpasses.trans_le h.bounded
              refine (finish_yields hle hjudged).conseq ?_ fun _ _ he => he
              rintro result v ⟨rfl, houtcome, hresult, htotal, hreport⟩
              refine ⟨⟨hpasses.trans hresult.symm, hle, hjudged, ?_⟩, ?_⟩
              · intro hs
                rw [hresult, htotal, hreport]
                exact hsuccess (by rw [← houtcome, hs])
              · rw [houtcome, hresult, htotal.trans htokens]
                exact .decided hnot hr htools ho.symm
          | none =>
              apply yields_write_bind
              have hnext := hagain rfl
              refine (ih hnext (by omega)).conseq ?_ fun _ _ he => he
              rintro result v ⟨hreturned, hends⟩
              refine ⟨hreturned, .again hnot hr htools ho.symm ?_⟩
              obtain ⟨used, hused, hpos, -⟩ := usage_of_not_aborts (verdict_none ho.symm).1
              rw [hused, spentAfter, if_neg (by omega),
                ← usageBefore_succ (by have := h.passes; omega) hr hused]
              exact hends

/-- The budget brake finds the wall-clock budget exhausted when the run opens. -/
def LateOpening (c : LoopController κ) : Prop :=
  Late c.spec (startNs c) (reading c ⟨0, .usage, 0⟩)

/-- How a whole run may end. -/
def RunEnds (c : LoopController κ) (r : RunResult) : Prop :=
  (LateOpening c ∧ r.outcome = .aborted ∧ r.totalPasses = 0 ∧ r.totalTokens = some 0) ∨
    ¬LateOpening c ∧ Ends c 1 0 r.outcome r.totalPasses r.totalTokens

/-- What a run returns, and how it may fail. -/
theorem run_yields (s : RunState κ) :
    Yields (run c) s (fun r u => Returned c r u ∧ RunEnds c r) (Fails c) := by
  have hnone : Judged c (RunState.opened : RunState κ).calls := nofun
  rw [run]
  apply yields_write_bind
  refine yields_bind (p := fun _ u => u = RunState.opened) ?_ ?_
  · refine (expr_yields fun _ _ => rfl).conseq (fun _ _ hp => hp.symm) ?_
    intro e u he
    exact ⟨he.1, he.2.1.trans_le (Nat.zero_le _), he.2.2 ▸ hnone⟩
  rintro _ _ rfl
  refine yields_bind (feed_yields.conseq (fun _ _ hp => hp) ?_) ?_
  · intro e u he
    exact ⟨he.1, he.2.1.trans_le (Nat.zero_le _), he.2.2 ▸ hnone⟩
  rintro _ u ⟨stalled, hf⟩
  obtain ⟨hidle, htool⟩ := opened_idle
  have hstart : (RunState.opened : RunState κ).brakes.budget.startNs.getD
      (firstReading c ⟨0, .usage, 0⟩) = startNs c := rfl
  have hnoAsk : ∀ a, ¬Asks a (RunState.opened : RunState κ).trips := by
    rintro a ⟨t, ht, -⟩
    cases ht
  have hpasses : u.passes = 0 := hf.passes
  have hle : u.passes ≤ c.spec.maxPasses := hpasses.trans_le (Nat.zero_le _)
  have hjudged : Judged c u.calls := hf.calls ▸ hnone
  have habort : Asks .abort u.trips ↔ LateOpening c := by
    rw [hf.abort, hstart]
    constructor
    · rintro (hold | hover | hlate)
      · exact absurd hold (hnoAsk _)
      · exact absurd hover.1 hidle.response
      · exact hlate
    · exact fun hlate => Or.inr (Or.inr hlate)
  apply yields_read_bind
  by_cases hlate : Asks .abort u.trips
  · rw [if_pos hlate]
    refine (finish_yields hle hjudged).conseq ?_ fun _ _ he => he
    rintro r v ⟨rfl, houtcome, hr, htokens, -⟩
    refine ⟨⟨hpasses.trans hr.symm, hle, hjudged, ?_⟩, Or.inl ⟨habort.1 hlate, houtcome, hr, ?_⟩⟩
    · intro hs
      rw [houtcome] at hs
      cases hs
    · exact htokens.trans hf.tokens
  · rw [if_neg hlate]
    have hnotLate : ¬LateOpening c := fun hl => hlate (habort.2 hl)
    have hhead : Head c 1 u := by
      refine { tokens := ?_, trips := ?_, passes := by rw [hpasses], counted := ?_, spent := ?_,
               started := hf.started.trans (congrArg some hstart), fresh := ?_, timely := ?_,
               judged := hjudged, known := by intro k hk hk1; omega,
               bounded := c.spec.passes_positive }
      · rw [hf.tokens, usageBefore, Finset.Ico_self, Finset.sum_empty]
        rfl
      · rw [List.eq_nil_iff_forall_not_mem]
        intro t ht
        cases haction : t.recommendedAction with
        | abort => exact hlate ⟨t, ht, haction⟩
        | escalate =>
            rcases hf.escalate.1 ⟨t, ht, haction⟩ with hold | hlast | hstalled
            · exact hnoAsk _ hold
            · exact hidle.transition hlast.1
            · exact htool (hf.tool hstalled)
        | continue_ =>
            rcases hf.resume ⟨t, ht, haction⟩ with hold | hsuccess
            · exact hnoAsk _ hold
            · exact hidle.custom hsuccess
      · rw [hf.counted, if_neg hidle.transition]
        rfl
      · rw [hf.spent, spentBy_of_not hidle.response, usageBefore, Finset.Ico_self, Finset.sum_empty]
        rfl
      · by_contra hdone
        rcases hf.done (by simpa using hdone) with hold | hsuccess
        · cases hold
        · exact hidle.custom hsuccess
      · refine ⟨?_, ?_⟩
        · rw [hf.checks]
          exact nofun
        · intro e he
          rcases hf.compared e he with hold | hin | hl
          · cases hold
          · exact hin
          · exact absurd hl hnotLate
    refine (passes_yields hhead rfl).conseq ?_ fun _ _ he => he
    rintro r v ⟨hreturned, hends⟩
    refine ⟨hreturned, Or.inr ⟨hnotLate, ?_⟩⟩
    rwa [usageBefore, Finset.Ico_self, Finset.sum_empty] at hends

/-! ## Two runs -/

/-- The result of a pass without its observations. -/
def PassResult.blind (r : PassResult κ) : PassResult κ := { r with observations := none }

/-- What a pass does, without the observations. -/
def PassReturn.blind : PassReturn κ → PassReturn κ
  | .returned r => .returned r.blind
  | p => p

/-- Two harnesses whose passes differ only in the observations. -/
def DifferInObservations (harness harness' : Nat → PassReturn κ) : Prop :=
  ∀ n, (harness n).blind = (harness' n).blind

/-- The pass reports tool calls. -/
def ToolPass (harness : Nat → PassReturn κ) (n : Nat) : Prop :=
  ∃ r, harness n = .returned r ∧ ReportsTools r.observations

/-- Two ends agree. -/
def SameEnd (r r' : RunResult) : Prop :=
  r.outcome = r'.outcome ∧ r.totalPasses = r'.totalPasses ∧ r.totalTokens = r'.totalTokens

omit [FloatTime] in
theorem blind_returned {harness harness' : Nat → PassReturn κ} {r r' : PassResult κ}
    (h : DifferInObservations harness harness') (hr : harness n = .returned r)
    (hr' : harness' n = .returned r') :
    r.candidate = r'.candidate ∧ r.tokensUsed = r'.tokensUsed ∧ r.halt = r'.halt := by
  have hblind := h n
  rw [hr, hr'] at hblind
  injection hblind with hblind
  injection hblind with h1 h2 h3 h4
  exact ⟨h1, h2, h4⟩

theorem ends_le {t : Int} {o : RunOutcome} {m : Nat} {total : Option Int}
    (h : Ends c n t o m total) : n ≤ m + 1 := by
  induction h with
  | late => omega
  | decided => omega
  | again _ _ _ _ _ ih => omega

/-- The verdict of a pass does not depend on the harness otherwise. -/
theorem verdict_blind {harness' : Nat → PassReturn κ} {t : Int} {r r' : PassResult κ} {stalled : Prop}
    (h : r.candidate = r'.candidate ∧ r.tokensUsed = r'.tokensUsed ∧ r.halt = r'.halt) :
    verdict { c with harness := harness' } n t r' stalled = verdict c n t r stalled := by
  obtain ⟨hcandidate, hused, hhalt⟩ := h
  have hab : Aborts { c with harness := harness' } n t r' ↔ Aborts c n t r := by
    rw [Aborts, Aborts, hused]
    exact Iff.rfl
  have hreport : passReport { c with harness := harness' } n r' = passReport c n r := by
    rw [passReport, passReport, hcandidate]
  rw [verdict, verdict, hreport, hhalt]
  by_cases h : Aborts c n t r
  · rw [if_pos h, if_pos (hab.2 h)]
  · rw [if_neg h, if_neg fun h' => h (hab.1 h')]

/-- Two runs that differ in observations end alike, or one of them escalates no later than the other
one ends, at a pass that reports tool calls. -/
theorem ends_compare {harness' : Nat → PassReturn κ} {t : Int} {o o' : RunOutcome} {m m' : Nat}
    {total total' : Option Int} (hdiffer : DifferInObservations c.harness harness')
    (h : Ends c n t o m total) (h' : Ends { c with harness := harness' } n t o' m' total') :
    (o = o' ∧ m = m' ∧ total = total') ∨
      (o = .escalated ∧ m ≤ m' ∧ ToolPass c.harness m) ∨
      (o' = .escalated ∧ m' ≤ m ∧ ToolPass harness' m') := by
  induction h with
  | late hlate =>
      cases h' with
      | late => exact Or.inl ⟨rfl, rfl, rfl⟩
      | decided hnot => exact absurd hlate hnot
      | again hnot => exact absurd hlate hnot
  | @decided n t r stalled o hnot hr htools ho =>
      cases h' with
      | late hlate => exact absurd hlate hnot
      | @decided _ _ r' stalled' _ _ hr' htools' ho' =>
          have hsame := blind_returned hdiffer hr hr'
          rw [verdict_blind hsame] at ho'
          rcases verdict_compare ho ho' with heq | ⟨hs, hesc⟩ | ⟨hs, hesc⟩
          · exact Or.inl ⟨Option.some.inj heq, rfl, by rw [hsame.2.1]⟩
          · exact Or.inr (Or.inl ⟨Option.some.inj hesc, le_refl _, r, hr, htools hs⟩)
          · exact Or.inr (Or.inr ⟨Option.some.inj hesc, le_refl _, r', hr', htools' hs⟩)
      | @again _ _ _ _ r' stalled' _ _ hr' htools' ho' hrest' =>
          have hsame := blind_returned hdiffer hr hr'
          rw [verdict_blind hsame] at ho'
          have hle := ends_le hrest'
          rcases verdict_compare ho ho' with heq | ⟨hs, hesc⟩ | ⟨hs, hesc⟩
          · cases heq
          · exact Or.inr (Or.inl ⟨Option.some.inj hesc, by omega, r, hr, htools hs⟩)
          · cases hesc
  | @again n m t total r stalled o hnot hr htools ho hrest ih =>
      cases h' with
      | late hlate => exact absurd hlate hnot
      | @decided _ _ r' stalled' _ _ hr' htools' ho' =>
          have hsame := blind_returned hdiffer hr hr'
          rw [verdict_blind hsame] at ho'
          have hle := ends_le hrest
          rcases verdict_compare ho ho' with heq | ⟨hs, hesc⟩ | ⟨hs, hesc⟩
          · cases heq
          · cases hesc
          · exact Or.inr (Or.inr ⟨Option.some.inj hesc, by omega, r', hr', htools' hs⟩)
      | @again _ _ _ _ r' stalled' _ _ hr' htools' ho' hrest' =>
          have hsame := blind_returned hdiffer hr hr'
          rw [← hsame.2.1] at hrest'
          exact ih hrest'

theorem runEnds_compare {harness' : Nat → PassReturn κ} {r r' : RunResult}
    (hdiffer : DifferInObservations c.harness harness') (h : RunEnds c r)
    (h' : RunEnds { c with harness := harness' } r') :
    SameEnd r r' ∨
      (r.outcome = .escalated ∧ r.totalPasses ≤ r'.totalPasses ∧ ToolPass c.harness r.totalPasses) ∨
      (r'.outcome = .escalated ∧ r'.totalPasses ≤ r.totalPasses ∧ ToolPass harness' r'.totalPasses) := by
  rcases h with ⟨hlate, ho, hm, ht⟩ | ⟨hnot, hends⟩
  · rcases h' with ⟨-, ho', hm', ht'⟩ | ⟨hnot', -⟩
    · exact Or.inl ⟨ho.trans ho'.symm, hm.trans hm'.symm, ht.trans ht'.symm⟩
    · exact absurd hlate hnot'
  · rcases h' with ⟨hlate', -⟩ | ⟨-, hends'⟩
    · exact absurd hlate' hnot
    · exact ends_compare hdiffer hends hends'

/-- The loop is bounded and verified, and worker observations can only make it escalate. Whatever the
passes return, a run makes at most `max_passes` passes and does not reach the assertion after the
loop; where it succeeds, `Verified` holds; judges are called only after passes and without an abort;
and of two runs that return and differ in their observations, either both end alike or one escalates,
at a pass that reports tool calls and no later than the other one ends. -/
theorem loop_bounded_verified (c : LoopController κ) (s : RunState κ) :
    (run c s).result ≠ .error .assertion ∧
      (run c s).state.passes ≤ c.spec.maxPasses ∧
      (∀ r, (run c s).result = .ok r → (run c s).state.passes = r.totalPasses ∧
        (r.outcome = .success →
          Verified c r.totalPasses r.totalTokens r.finalVerification (run c s).state)) ∧
      Judged c (run c s).state.calls ∧
      ∀ harness' s', DifferInObservations c.harness harness' →
        ∀ r r', (run c s).result = .ok r → (run { c with harness := harness' } s').result = .ok r' →
          SameEnd r r' ∨
            (r.outcome = .escalated ∧ r.totalPasses ≤ r'.totalPasses ∧
              ToolPass c.harness r.totalPasses) ∨
            (r'.outcome = .escalated ∧ r'.totalPasses ≤ r.totalPasses ∧
              ToolPass harness' r'.totalPasses) := by
  obtain ⟨hok, herr⟩ := run_yields (c := c) s
  refine ⟨?_, ?_, ?_, ?_, ?_⟩
  · intro he
    exact (herr _ he).1 rfl
  · cases hres : (run c s).result with
    | ok r => exact (hok r hres).1.bounded
    | error e => exact (herr e hres).2.1
  · intro r hr
    exact ⟨(hok r hr).1.passes, (hok r hr).1.verified⟩
  · cases hres : (run c s).result with
    | ok r => exact (hok r hres).1.judged
    | error e => exact (herr e hres).2.2
  · intro harness' s' hdiffer r r' hr hr'
    exact runEnds_compare hdiffer (hok r hr).2 ((run_yields s').1 r' hr').2

end Runs

/-! ## Observations that change an outcome -/

section Concrete

attribute [local instance] wholeFloats

/-- Times in whole seconds. -/
@[reducible]
def wholeSeconds : FloatTime where
  sub a b := some (a.getD 0 - b.getD 0)
  seconds n := some (n / 1000000000).toNat
  millis x := x.map (· * 1000)
  rounded x := x
  fixed x := natRepr (x.getD 0) ++ lit ".0"
  seconds_le m n h := by
    have hdiv : m / 1000000000 ≤ n / 1000000000 := Int.ediv_le_ediv (by decide) h
    have hle : (m / 1000000000).toNat ≤ (n / 1000000000).toNat := Int.toNat_le_toNat hdiv
    show ((m / 1000000000).toNat : ℚ) ≤ ((n / 1000000000).toNat : ℚ)
    exact_mod_cast hle

attribute [local instance] wholeSeconds

/-- A goal with one mechanical criterion and one pass. -/
def shortGoal : GoalSpec where
  goalId := lit "goal"
  objective := lit "pass"
  successCriteria := [{ name := lit "check", checkType := .mechanical, description := lit "passes",
                        evaluator := lit "ok", parameters := [], name_identifier := by decide,
                        description_text := by decide, evaluator_text := by decide }]
  maxPasses := 1
  tokenBudget := 10
  wallClockBudgetS := .int 5
  amendmentRule := { authorizedRoles := [lit "owner"], maxAmendments := 3, roles_given := by simp,
                     roles_identifiers := by decide, amendments_positive := by decide }
  schemaVersion := lit "1.0.0"
  amendmentCount := 0
  parentHash := none
  amendmentReason := none
  amendedBy := none
  goalId_identifier := by decide
  objective_text := by decide
  criteria_given := by simp
  passes_positive := Nat.one_pos
  tokens_positive := by decide
  wallClock_finite := rfl
  wallClock_positive := by
    show (0 : ℚ) < ((5 : Int) : ℚ)
    norm_num
  version_text := by decide
  amendments_bounded := by decide
  amendment_allowed := ⟨rfl, rfl, rfl⟩
  criteria_ordered := by simp
  criteria_named := by simp

/-- A clock that stands still. -/
def stillClock : Clock where
  monotonic _ := some 0
  monotonicNs _ := 0
  monotonic_le _ _ _ := le_refl _
  monotonicNs_le _ _ _ := le_refl _

/-- A tool call with a fingerprint. -/
def toolCall (fingerprint : String) : Json :=
  .obj [(lit "kind", .str (lit "tool.invoked")),
    (lit "payload", .obj [(lit "fingerprint", .str (lit fingerprint))])]

/-- Passes that return an acceptable candidate with the given observations. -/
def observing (observations : Json) (_ : Nat) : PassReturn Unit :=
  .returned ⟨(), some 1, some observations, .null⟩

/-- A controller whose criterion passes on every candidate. -/
def lenient (observations : Json) : LoopController Unit where
  spec := shortGoal
  verifier := ⟨[(lit "ok", fun _ _ _ _ => .returned (some .pass) (some []))]⟩
  harness := observing observations
  noProgressThreshold := 2
  clock := stillClock
  runId := lit "run"
  threshold_le := le_refl 2

/-- The outcome of a run and its passes, or how it failed. -/
def ending (c : LoopController Unit) : Except Failure (RunOutcome × Nat) :=
  (run c RunState.opened).result.map fun r => (r.outcome, r.totalPasses)

/-- Three runs that differ only in their observations: two equal tool calls make the first one
escalate, a different second call makes the second one succeed, and an observation list that is no
list makes the third one raise. -/
theorem observations_change_outcome :
    DifferInObservations (observing (.arr [toolCall "a", toolCall "a"]))
        (observing (.arr [toolCall "a", toolCall "b"])) ∧
      DifferInObservations (observing (.arr [toolCall "a", toolCall "a"])) (observing .null) ∧
      ending (lenient (.arr [toolCall "a", toolCall "a"])) = .ok (.escalated, 1) ∧
      ending (lenient (.arr [toolCall "a", toolCall "b"])) = .ok (.success, 1) ∧
      ending (lenient .null) = .error (.raised (contractError
        "harness observations must be a bounded list of objects")) := by
  refine ⟨fun _ => rfl, fun _ => rfl, ?_, ?_, ?_⟩ <;> decide +kernel

end Concrete

end ResidualHarness.Loop
