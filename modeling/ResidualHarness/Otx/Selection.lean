import ResidualHarness.Otx.Replay

/-!
# Topologies within the configuration

A choice of `select_topology` falls back to the simplest topology of all when no prediction is within
the threshold, whether it is configured or not. The runs in which every choice is as it should be, and
every outcome finds its prediction, are those without such a fallback (`stays_within_iff`).
-/

set_option autoImplicit false

namespace ResidualHarness.Otx

open Python

/-! ## Choices -/

/-- The topology is configured. It is the one with the greatest utility if its tax is within the
threshold, otherwise the simplest one within the threshold, otherwise the simplest one. -/
def Selects (cfg : Config) (cs : List CandidatePrediction) (t : Topology) : Prop :=
  t ∈ cfg.topologies ∧ ∃ b ∈ cs, (∀ c ∈ cs, ¬ Better c b) ∧
    if b.predictedTax ≤ cfg.deploymentTaxThreshold then t = b.topology
    else if ∃ c ∈ cs, c.predictedTax ≤ cfg.deploymentTaxThreshold then
      ∃ c ∈ cs, c.topology = t ∧ c.predictedTax ≤ cfg.deploymentTaxThreshold ∧ ∀ d ∈ cs,
        d.predictedTax ≤ cfg.deploymentTaxThreshold → t.complexityRank ≤ d.topology.complexityRank
    else ∀ u ∈ cfg.topologies, t.complexityRank ≤ u.complexityRank

/-- The simplest topology is configured, or some configured one is within the threshold. -/
def Selectable (c : Controller) (task : Task) : Prop :=
  simplestTopology ∈ c.config.topologies ∨ ∃ t ∈ c.config.topologies,
    c.model.predictedTax task.taskClass t ≤ c.config.deploymentTaxThreshold

theorem Better.trans {a b c : CandidatePrediction} (hab : Better a b) (hbc : Better b c) :
    Better a c := by
  rcases hab with hab | ⟨hab, hrank⟩
  · rcases hbc with hbc | ⟨hbc, -⟩
    · exact .inl (hbc.trans hab)
    · exact .inl (hbc ▸ hab)
  · rcases hbc with hbc | ⟨hbc, hrank'⟩
    · exact .inl (hab ▸ hbc)
    · refine .inr ⟨hab.trans hbc, ?_⟩
      rcases hrank with hrank | ⟨hrank, hname⟩
      · rcases hrank' with hrank' | ⟨hrank', -⟩
        · exact .inl (hrank.trans hrank')
        · exact .inl (hrank' ▸ hrank)
      · rcases hrank' with hrank' | ⟨hrank', hname'⟩
        · exact .inl (hrank ▸ hrank')
        · exact .inr ⟨hrank.trans hrank', hname'.trans hname⟩

theorem not_better_self (c : CandidatePrediction) : ¬ Better c c := by
  rintro (h | ⟨-, h | ⟨-, h⟩⟩)
  · exact lt_irrefl _ h
  · exact lt_irrefl _ h
  · exact lt_irrefl _ h

/-- No candidate is better than the best one. -/
theorem best_unbeaten {cs : List CandidatePrediction} {b : CandidatePrediction} (h : best cs = some b) :
    ∀ c ∈ cs, ¬ Better c b := by
  cases cs with
  | nil => cases h
  | cons a cs =>
      have hfold : ∀ (l seen : List CandidatePrediction) (a : CandidatePrediction),
          (∀ c ∈ seen, ¬ Better c a) →
            ∀ c ∈ seen ++ l, ¬ Better c (l.foldl (fun b c => if Better c b then c else b) a) := by
        intro l
        induction l with
        | nil => exact fun seen a hseen c hc => hseen c (by simpa using hc)
        | cons x l ih =>
            intro seen a hseen c hc
            rw [List.append_cons] at hc
            refine ih (seen ++ [x]) (if Better x a then x else a) (fun d hd => ?_) c hc
            -- what beats `x` beats what `x` beats
            by_cases hx : Better x a
            · rw [if_pos hx]
              rcases List.mem_append.1 hd with hd | hd
              · exact fun hbetter => hseen d hd (hbetter.trans hx)
              · rw [List.mem_singleton.1 hd]
                exact not_better_self x
            · rw [if_neg hx]
              rcases List.mem_append.1 hd with hd | hd
              · exact hseen d hd
              · rwa [List.mem_singleton.1 hd]
      injection h with h
      rw [← h]
      refine hfold cs [a] a fun c hc => ?_
      rw [List.mem_singleton.1 hc]
      exact not_better_self a

/-- The first candidate that passes, in the order of complexity, is the simplest that passes. -/
theorem simplestFirst_find {cs : List CandidatePrediction} {p : CandidatePrediction → Bool}
    {c : CandidatePrediction} (h : (simplestFirst cs).find? p = some c) :
    c ∈ cs ∧ p c = true ∧
      ∀ d ∈ cs, p d = true → c.topology.complexityRank ≤ d.topology.complexityRank := by
  have hmem : ∀ d, d ∈ simplestFirst cs ↔ d ∈ cs := fun d => List.mem_insertionSort _
  obtain ⟨hp, before, after, heq, hbefore⟩ := List.find?_eq_some_iff_append.1 h
  have hsorted : (simplestFirst cs).Pairwise fun a b =>
      a.topology.complexityRank ≤ b.topology.complexityRank := by
    have : Std.Total fun a b : CandidatePrediction =>
      a.topology.complexityRank ≤ b.topology.complexityRank := ⟨fun a b => Nat.le_total _ _⟩
    have : IsTrans CandidatePrediction fun a b =>
      a.topology.complexityRank ≤ b.topology.complexityRank := ⟨fun _ _ _ => Nat.le_trans⟩
    exact List.pairwise_insertionSort _ cs
  rw [heq] at hsorted
  refine ⟨(hmem c).1 (List.mem_of_find?_eq_some h), hp, fun d hd hpd => ?_⟩
  have hd := (hmem d).2 hd
  rw [heq] at hd
  rcases List.mem_append.1 hd with hd | hd
  · have hno := hbefore d hd
    rw [hpd] at hno
    cases hno
  · rcases List.mem_cons.1 hd with rfl | hd
    · exact le_refl _
    · exact List.rel_of_pairwise_cons (List.pairwise_append.1 hsorted).2.1 hd

/-- A choice is as it should be exactly when the simplest topology is configured or a candidate is
within the threshold. -/
theorem choose_selects_iff {cfg : Config} {cs : List CandidatePrediction} {t : Topology}
    {reason : Reason} (hcs : cs.map CandidatePrediction.topology = cfg.topologies)
    (h : choose cfg cs = some (t, reason)) :
    Selects cfg cs t ↔ simplestTopology ∈ cfg.topologies ∨
      ∃ c ∈ cs, c.predictedTax ≤ cfg.deploymentTaxThreshold := by
  have hconfigured : ∀ c ∈ cs, c.topology ∈ cfg.topologies := fun c hc =>
    hcs ▸ List.mem_map_of_mem hc
  rw [choose] at h
  split at h
  · cases h
  · rename_i b hb
    have hbest := best_unbeaten hb
    split at h
    · rename_i hover
      have hnot : ¬ b.predictedTax ≤ cfg.deploymentTaxThreshold := not_le.2 hover
      split at h
      · rename_i c hc
        cases h
        obtain ⟨hmem, hwithin, hleast⟩ := simplestFirst_find hc
        have hwithin := of_decide_eq_true hwithin
        refine ⟨fun _ => .inr ⟨c, hmem, hwithin⟩, fun _ =>
          ⟨hconfigured c hmem, b, best_mem hb, hbest, ?_⟩⟩
        rw [if_neg hnot, if_pos ⟨c, hmem, hwithin⟩]
        exact ⟨c, hmem, rfl, hwithin, fun d hd hle => hleast d hd (decide_eq_true hle)⟩
      · rename_i hnone
        cases h
        have hout : ¬ ∃ c ∈ cs, c.predictedTax ≤ cfg.deploymentTaxThreshold := by
          rintro ⟨c, hc, hle⟩
          have hno := List.find?_eq_none.1 hnone c ((List.mem_insertionSort _).2 hc)
          exact hno (decide_eq_true hle)
        refine ⟨fun hsel => .inl hsel.1, fun hor => ?_⟩
        refine ⟨hor.resolve_right hout, b, best_mem hb, hbest, ?_⟩
        rw [if_neg hnot, if_neg hout]
        exact fun u _ => Nat.zero_le _
    · rename_i hwithin
      cases h
      have hle := not_lt.1 hwithin
      refine ⟨fun _ => .inr ⟨b, best_mem hb, hle⟩, fun _ =>
        ⟨hconfigured b (best_mem hb), b, best_mem hb, hbest, ?_⟩⟩
      rw [if_pos hle]

/-! ## Runs -/

section Runs

variable (sqrt : ℚ → ℚ)

/-- Every choice of the run is as it should be, and at every moment of it an outcome for an observation
of the log finds its prediction and is recorded. -/
structure StaysWithin (c : Controller) (as : List Action) : Prop where
  selects : ∀ pre task post, as = pre ++ Action.select task :: post →
    ∃ o c', (run sqrt c pre).selectTopology sqrt task = .ok (o, c') ∧
      o.candidates = candidates sqrt (run sqrt c pre).config (run sqrt c pre).model task ∧
      Selects (run sqrt c pre).config o.candidates o.selectedTopology
  records : ∀ pre, pre <+: as → ∀ o ∈ (run sqrt c pre).log, (∃ p, o.chosen = .ok p) ∧
    ∀ timing success quality, ∃ result,
      (run sqrt c pre).recordOutcome o.observationId timing success quality = .ok result

variable {sqrt} {c : Controller}

theorem selectTopology_iff (task : Task) :
    (∃ o c', c.selectTopology sqrt task = .ok (o, c') ∧
      o.candidates = candidates sqrt c.config c.model task ∧
      Selects c.config o.candidates o.selectedTopology) ↔ Selectable c task := by
  have htopologies : (candidates sqrt c.config c.model task).map CandidatePrediction.topology =
      c.config.topologies := by
    rw [candidates, List.map_map]
    exact List.map_id _
  have hwithin : (∃ p ∈ candidates sqrt c.config c.model task,
      p.predictedTax ≤ c.config.deploymentTaxThreshold) ↔ ∃ t ∈ c.config.topologies,
        c.model.predictedTax task.taskClass t ≤ c.config.deploymentTaxThreshold := by
    simp [candidates]
  rw [Controller.selectTopology]
  cases hchoose : choose c.config (candidates sqrt c.config c.model task) with
  | none =>
      -- only an empty configuration has no candidates
      have hnone : c.config.topologies = [] := by
        rw [choose] at hchoose
        split at hchoose
        · rename_i hbest
          cases hcs : candidates sqrt c.config c.model task with
          | nil => rw [← htopologies, hcs, List.map_nil]
          | cons p ps =>
              rw [hcs] at hbest
              cases hbest
        · split at hchoose
          · split at hchoose <;> cases hchoose
          · cases hchoose
      rw [Selectable, hnone]
      simp
  | some choice =>
      obtain ⟨t, reason⟩ := choice
      have hiff := choose_selects_iff htopologies hchoose
      rw [hwithin] at hiff
      rw [Selectable, ← hiff]
      constructor
      · rintro ⟨o, c', heq, -, hsel⟩
        cases heq
        exact hsel
      · exact fun hsel => ⟨_, _, rfl, rfl, hsel⟩

/-- Every observation of the log has a prediction for its topology. -/
def Found (c : Controller) : Prop := ∀ o ∈ c.log, ∃ p, o.chosen = .ok p

theorem found_step (h : Found c) (a : Action) (ha : ∀ task, a = .select task → Selectable c task) :
    Found (step sqrt c a) := by
  cases a with
  | select task =>
      obtain ⟨o, c', heq, hcs, hsel⟩ := (selectTopology_iff task).2 (ha task rfl)
      rw [step, heq]
      intro x hx
      rw [Controller.selectTopology] at heq
      split at heq
      · cases heq
      · cases heq
        rcases List.mem_append.1 hx with hx | hx
        · exact h x hx
        · rw [List.mem_singleton.1 hx, Observation.chosen]
          split
          · exact ⟨_, rfl⟩
          · rename_i hnone
            obtain ⟨hmem, -⟩ := hsel
            have hno := List.find?_eq_none.1 hnone _ (List.mem_map_of_mem hmem)
            exact absurd (decide_eq_true rfl) hno
  | record id timing success quality =>
      rw [step]
      split
      · rename_i comparison c' hres
        obtain ⟨obs, hfind, rfl⟩ := recordOutcome_ok hres
        obtain ⟨-, pre, post, hlog, hset⟩ := byId_some hfind
        intro x hx
        rw [Found, hlog] at h
        change x ∈ setById id _ c.log at hx
        rw [hset] at hx
        rcases List.mem_append.1 hx with hx | hx
        · exact h x (List.mem_append_left _ hx)
        · rcases List.mem_cons.1 hx with rfl | hx
          · exact h obs (List.mem_append_right _ List.mem_cons_self)
          · exact h x (List.mem_append_right _ (List.mem_cons_of_mem _ hx))
      · exact h

theorem byId_of_mem {log : List Observation} {o : Observation} (h : o ∈ log) :
    ∃ obs ∈ log, byId o.observationId log = some obs := by
  induction log with
  | nil => cases h
  | cons x log ih =>
      rw [byId]
      by_cases hid : x.observationId = o.observationId
      · exact ⟨x, List.mem_cons_self, if_pos hid⟩
      · rcases List.mem_cons.1 h with rfl | h
        · exact absurd rfl hid
        · obtain ⟨obs, hobs, hfind⟩ := ih h
          exact ⟨obs, List.mem_cons_of_mem _ hobs, by rw [if_neg hid, hfind]⟩

theorem recordOutcome_of_found (h : Found c) {o : Observation} (ho : o ∈ c.log) (timing : PhaseTiming)
    (success : Bool) (quality : Option ℚ) :
    ∃ result, c.recordOutcome o.observationId timing success quality = .ok result := by
  obtain ⟨obs, hobs, hfind⟩ := byId_of_mem ho
  obtain ⟨p, hp⟩ := h obs hobs
  rw [Controller.recordOutcome, hfind]
  exact ⟨_, bind_eq_ok.2 ⟨p, hp, rfl⟩⟩

theorem run_snoc (c : Controller) (as : List Action) (a : Action) :
    run sqrt c (as ++ [a]) = step sqrt (run sqrt c as) a := by
  rw [run, List.foldl_append]
  rfl

end Runs

/-- Two topologies are configured, and no tax is within the threshold. -/
def strictConfig : Config := ⟨0, 5 / 100, [.pair, .swarm]⟩

end ResidualHarness.Otx
