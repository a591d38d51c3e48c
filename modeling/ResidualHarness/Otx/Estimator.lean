import ResidualHarness.Python.Dict
import ResidualHarness.Python.Text

/-!
# Estimates of the orchestration tax

`residual/otx/models.py` and `residual/otx/estimator.py` in exact rationals: phase timings, topologies,
and the estimates of tax, worker time and reliability of a task class and a topology. An outcome
changes the estimates of its own task class only (`observe_other`), and the estimates of a class after
an outcome depend on those before it (`observe_agree`).
-/

set_option autoImplicit false

namespace ResidualHarness.Otx

open Python

/-! ## Timings -/

/-- `Phase.ALL`. -/
inductive Phase where
  | planning
  | scheduling
  | contextPackaging
  | workerExecution
  | verification
  | integration
  | coordination
deriving DecidableEq

/-- `Phase.ALL`, in order. -/
def Phase.all : List Phase :=
  [.planning, .scheduling, .contextPackaging, .workerExecution, .verification, .integration,
    .coordination]

/-- `Phase.OVERHEAD`. -/
def Phase.overhead : List Phase :=
  [.planning, .scheduling, .contextPackaging, .verification, .integration, .coordination]

/-- `PhaseTiming`: no phase has a negative time. -/
structure PhaseTiming where
  seconds : Dict Phase ℚ
  nonneg : ∀ kv ∈ seconds, 0 ≤ kv.2

namespace PhaseTiming

/-- `phase_seconds(phase)`. -/
def phaseSeconds (t : PhaseTiming) (p : Phase) : ℚ := (t.seconds.get? p).getD 0

/-- `worker_execution_s`. -/
def workerExecution (t : PhaseTiming) : ℚ := t.phaseSeconds .workerExecution

/-- `coordination_overhead_s`. -/
def coordinationOverhead (t : PhaseTiming) : ℚ := (Phase.overhead.map t.phaseSeconds).sum

/-- `total_s`. -/
def total (t : PhaseTiming) : ℚ := t.workerExecution + t.coordinationOverhead

/-- `observed_tax()`; `none` is infinity. -/
def observedTax (t : PhaseTiming) : Option ℚ :=
  if t.workerExecution ≤ 0 then
    if t.coordinationOverhead > 0 then none else some 0
  else some (t.coordinationOverhead / t.workerExecution)

/-- `breakdown()`. -/
def breakdown (t : PhaseTiming) : Dict Phase ℚ := Phase.all.map fun p => (p, t.phaseSeconds p)

theorem phaseSeconds_nonneg (t : PhaseTiming) (p : Phase) : 0 ≤ t.phaseSeconds p := by
  rw [phaseSeconds]
  cases h : t.seconds.get? p with
  | none => exact le_refl 0
  | some s => exact t.nonneg (p, s) (Dict.mem_of_get? h)

/-- `PhaseTiming(seconds)`, with its check. -/
def make (seconds : Dict Phase ℚ) : Except PyExn PhaseTiming :=
  if h : ∀ kv ∈ seconds, 0 ≤ kv.2 then .ok ⟨seconds, h⟩
  else .error (.valueError "negative timing")

/-- The timing of the breakdown of a timing. -/
def ofBreakdown (t : PhaseTiming) : PhaseTiming where
  seconds := t.breakdown
  nonneg := by
    intro kv hkv
    obtain ⟨p, -, rfl⟩ := List.mem_map.1 hkv
    exact t.phaseSeconds_nonneg p

theorem make_breakdown (t : PhaseTiming) : make t.breakdown = .ok t.ofBreakdown :=
  dif_pos t.ofBreakdown.nonneg

theorem phaseSeconds_ofBreakdown (t : PhaseTiming) (p : Phase) :
    t.ofBreakdown.phaseSeconds p = t.phaseSeconds p := by
  cases p <;> rfl

end PhaseTiming

/-! ## Topologies -/

/-- `TOPOLOGIES`. -/
inductive Topology where
  | single
  | pair
  | swarm
deriving DecidableEq

namespace Topology

/-- `name`. -/
def name : Topology → Str
  | .single => lit "single"
  | .pair => lit "pair"
  | .swarm => lit "swarm"

/-- `complexity_rank`. -/
def complexityRank : Topology → Nat
  | .single => 0
  | .pair => 1
  | .swarm => 2

/-- `reliability_prior`. -/
def reliabilityPrior : Topology → ℚ
  | .single => 70 / 100
  | .pair => 85 / 100
  | .swarm => 93 / 100

end Topology

/-- `SIMPLEST_TOPOLOGY`. -/
def simplestTopology : Topology := .single

/-! ## Posteriors -/

/-- `NormalInverseGamma`. -/
structure NormalInverseGamma where
  mu : ℚ
  kappa : ℚ
  alpha : ℚ
  beta : ℚ
  n : Nat

namespace NormalInverseGamma

/-- `prior(mu, kappa, alpha, beta)`. -/
def prior (mu kappa alpha beta : ℚ) : NormalInverseGamma := ⟨mu, kappa, alpha, beta, 0⟩

/-- `update(x)`. -/
def update (e : NormalInverseGamma) (x : ℚ) : NormalInverseGamma where
  mu := (e.kappa * e.mu + x) / (e.kappa + 1)
  kappa := e.kappa + 1
  alpha := e.alpha + 1 / 2
  beta := e.beta + (e.kappa * (x - e.mu) ^ 2) / (2 * (e.kappa + 1))
  n := e.n + 1

/-- `mean_variance`; `none` is infinity. -/
def meanVariance (e : NormalInverseGamma) : Option ℚ :=
  if e.alpha ≤ 1 then none else some (e.beta / (e.kappa * (e.alpha - 1)))

/-- `mean_std`, with the square root of the platform. -/
def meanStd (sqrt : ℚ → ℚ) (e : NormalInverseGamma) : Option ℚ := e.meanVariance.map sqrt

end NormalInverseGamma

/-- `BetaRate`. -/
structure BetaRate where
  alpha : ℚ
  beta : ℚ

namespace BetaRate

/-- `prior(rate)`, with the default strength. -/
def prior (rate : ℚ) : BetaRate :=
  let rate := min (max rate (1 / 1000)) (1 - 1 / 1000)
  ⟨rate * 4, (1 - rate) * 4⟩

/-- `update(success)`. -/
def update (e : BetaRate) (success : Bool) : BetaRate :=
  if success then { e with alpha := e.alpha + 1 } else { e with beta := e.beta + 1 }

/-- `mean`. -/
def mean (e : BetaRate) : ℚ := e.alpha / (e.alpha + e.beta)

end BetaRate

/-! ## The tax model -/

/-- `TaxModel`, with the entries that outcomes have made: an estimate that is only read is its
prior. -/
structure TaxModel where
  tax : Dict Str NormalInverseGamma
  workerS : Dict Str NormalInverseGamma
  reliability : Dict Str BetaRate

/-- `_key(task_class, topology)`. -/
def modelKey (taskClass : Str) (topology : Topology) : Str := taskClass ++ 0x7C :: topology.name

namespace TaxModel

/-- `TaxModel(TOPOLOGIES)`. -/
def initial : TaxModel := ⟨[], [], []⟩

/-- `_tax_est(task_class, topology)`. -/
def taxEst (m : TaxModel) (taskClass : Str) (topology : Topology) : NormalInverseGamma :=
  (m.tax.get? (modelKey taskClass topology)).getD
    (.prior (5 / 100 + 15 / 100 * topology.complexityRank) 1 2 (5 / 100))

/-- `_worker_est(task_class, topology)`. -/
def workerEst (m : TaxModel) (taskClass : Str) (topology : Topology) : NormalInverseGamma :=
  (m.workerS.get? (modelKey taskClass topology)).getD (.prior 1 1 2 1)

/-- `_rel_est(task_class, topology)`. -/
def relEst (m : TaxModel) (taskClass : Str) (topology : Topology) : BetaRate :=
  (m.reliability.get? (modelKey taskClass topology)).getD (.prior topology.reliabilityPrior)

/-- `predicted_tax`. -/
def predictedTax (m : TaxModel) (taskClass : Str) (topology : Topology) : ℚ :=
  (m.taxEst taskClass topology).mu

/-- `tax_uncertainty`. -/
def taxUncertainty (sqrt : ℚ → ℚ) (m : TaxModel) (taskClass : Str) (topology : Topology) : Option ℚ :=
  (m.taxEst taskClass topology).meanStd sqrt

/-- `predicted_worker_s`. -/
def predictedWorker (m : TaxModel) (taskClass : Str) (topology : Topology) : ℚ :=
  (m.workerEst taskClass topology).mu

/-- `predicted_total_s`. -/
def predictedTotal (m : TaxModel) (taskClass : Str) (topology : Topology) : ℚ :=
  (m.workerEst taskClass topology).mu * (1 + (m.taxEst taskClass topology).mu)

/-- `predicted_reliability`. -/
def predictedReliability (m : TaxModel) (taskClass : Str) (topology : Topology) : ℚ :=
  (m.relEst taskClass topology).mean

/-- The tax that `observe` counts and returns. -/
def countedTax (timing : PhaseTiming) : ℚ := timing.observedTax.getD 10

/-- `observe(task_class, topology, timing, success)`. -/
def observe (m : TaxModel) (taskClass : Str) (topology : Topology) (timing : PhaseTiming)
    (success : Bool) : TaxModel :=
  let key := modelKey taskClass topology
  { tax := m.tax.set key ((m.taxEst taskClass topology).update (countedTax timing))
    workerS :=
      if timing.workerExecution > 0 then
        m.workerS.set key ((m.workerEst taskClass topology).update timing.workerExecution)
      else m.workerS
    reliability := m.reliability.set key ((m.relEst taskClass topology).update success) }

/-- Two models with the same estimates for a task class. -/
def Agree (taskClass : Str) (m m' : TaxModel) : Prop :=
  ∀ topology, m.taxEst taskClass topology = m'.taxEst taskClass topology ∧
    m.workerEst taskClass topology = m'.workerEst taskClass topology ∧
    m.relEst taskClass topology = m'.relEst taskClass topology

theorem Agree.refl (taskClass : Str) (m : TaxModel) : Agree taskClass m m := fun _ => ⟨rfl, rfl, rfl⟩

theorem Agree.symm {taskClass : Str} {m m' : TaxModel} (h : Agree taskClass m m') :
    Agree taskClass m' m := fun t => ⟨(h t).1.symm, (h t).2.1.symm, (h t).2.2.symm⟩

theorem Agree.trans {taskClass : Str} {m m' m'' : TaxModel} (h : Agree taskClass m m')
    (h' : Agree taskClass m' m'') : Agree taskClass m m'' := fun t =>
  ⟨(h t).1.trans (h' t).1, (h t).2.1.trans (h' t).2.1, (h t).2.2.trans (h' t).2.2⟩

end TaxModel

/-- The key of an estimate determines its task class and its topology. -/
theorem modelKey_injective {c c' : Str} {t t' : Topology} (h : modelKey c t = modelKey c' t') :
    c = c' ∧ t = t' := by
  have ht : t = t' := by
    have hlast : (modelKey c t).getLast? = (modelKey c' t').getLast? := by rw [h]
    have hname : ∀ (d : Str) (q : Topology), (modelKey d q).getLast? = q.name.getLast? := by
      intro d q
      rw [modelKey, List.getLast?_append]
      cases q <;> rfl
    rw [hname, hname] at hlast
    revert hlast
    cases t <;> cases t' <;> decide
  subst ht
  exact ⟨List.append_cancel_right h, rfl⟩

namespace TaxModel

theorem observe_est (m : TaxModel) (c d : Str) (t u : Topology) (timing : PhaseTiming) (success : Bool) :
    ((m.observe c t timing success).taxEst d u =
        if d = c ∧ u = t then (m.taxEst c t).update (countedTax timing) else m.taxEst d u) ∧
      ((m.observe c t timing success).workerEst d u =
        if (d = c ∧ u = t) ∧ timing.workerExecution > 0 then
          (m.workerEst c t).update timing.workerExecution else m.workerEst d u) ∧
      ((m.observe c t timing success).relEst d u =
        if d = c ∧ u = t then (m.relEst c t).update success else m.relEst d u) := by
  have hkey : modelKey d u = modelKey c t ↔ d = c ∧ u = t := by
    constructor
    · exact modelKey_injective
    · rintro ⟨rfl, rfl⟩
      rfl
  by_cases hsame : d = c ∧ u = t
  · obtain ⟨rfl, rfl⟩ := hsame
    by_cases hw : timing.workerExecution > 0 <;>
      simp [observe, taxEst, workerEst, relEst, hw]
  · have hne : modelKey d u ≠ modelKey c t := fun h => hsame (hkey.1 h)
    by_cases hw : timing.workerExecution > 0 <;>
      simp [observe, taxEst, workerEst, relEst, hw, hsame, hne]

theorem observe_other (m : TaxModel) {c d : Str} (hd : d ≠ c) (t : Topology) (timing : PhaseTiming)
    (success : Bool) : Agree d (m.observe c t timing success) m := by
  intro u
  obtain ⟨htax, hworker, hrel⟩ := observe_est m c d t u timing success
  have hnot : ¬(d = c ∧ u = t) := fun h => hd h.1
  rw [htax, hworker, hrel, if_neg hnot, if_neg hnot, if_neg fun h => hnot h.1]
  exact ⟨rfl, rfl, rfl⟩

theorem observe_agree {m m' : TaxModel} {d : Str} (h : Agree d m m') (c : Str) (t : Topology)
    (timing : PhaseTiming) (success : Bool) :
    Agree d (m.observe c t timing success) (m'.observe c t timing success) := by
  by_cases hd : d = c
  · subst hd
    intro u
    obtain ⟨h1, h2, h3⟩ := observe_est m d d t u timing success
    obtain ⟨h1', h2', h3'⟩ := observe_est m' d d t u timing success
    rw [h1, h2, h3, h1', h2', h3', (h t).1, (h t).2.1, (h t).2.2, (h u).1, (h u).2.1, (h u).2.2]
    exact ⟨rfl, rfl, rfl⟩
  · exact ((observe_other m hd t timing success).trans h).trans
      (observe_other m' hd t timing success).symm

/-- An outcome is counted by the times of its phases. -/
theorem observe_ofBreakdown (m : TaxModel) (c : Str) (t : Topology) (timing : PhaseTiming)
    (success : Bool) : m.observe c t timing.ofBreakdown success = m.observe c t timing success := by
  have hworker : timing.ofBreakdown.workerExecution = timing.workerExecution :=
    timing.phaseSeconds_ofBreakdown _
  have hoverhead : timing.ofBreakdown.coordinationOverhead = timing.coordinationOverhead := by
    rw [PhaseTiming.coordinationOverhead,
      List.map_congr_left fun p _ => timing.phaseSeconds_ofBreakdown p, PhaseTiming.coordinationOverhead]
  have htax : countedTax timing.ofBreakdown = countedTax timing := by
    rw [countedTax, countedTax, PhaseTiming.observedTax, PhaseTiming.observedTax, hworker, hoverhead]
  rw [observe, observe, htax, hworker]

end TaxModel

end ResidualHarness.Otx
