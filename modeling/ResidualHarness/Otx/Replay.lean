import ResidualHarness.Otx.Estimator
import ResidualHarness.Python.Loops

/-!
# Topology choices and their replay

`select_topology` and `record_outcome` of `residual/otx/controller.py` and `replay_decisions` of
`residual/otx/replay.py`. A replay folds each outcome right after its own decision. When it
reproduces the decisions is said in `replay_exact_of_allowed`.
-/

set_option autoImplicit false

namespace ResidualHarness.Otx

open Python

/-! ## The controller -/

/-- `ControllerConfig`. -/
structure Config where
  deploymentTaxThreshold : ℚ
  latencyPenalty : ℚ
  topologies : List Topology

/-- `Task`. -/
structure Task where
  taskId : Str
  taskClass : Str
  granularity : Str
  value : ℚ
  size : ℚ

/-- `CandidatePrediction`. -/
structure CandidatePrediction where
  topology : Topology
  predictedTax : ℚ
  taxStd : Option ℚ
  predictedWorker : ℚ
  predictedTotal : ℚ
  predictedReliability : ℚ
  predictedUtility : ℚ

/-- `ObservedResult`. -/
structure ObservedResult where
  timingBreakdown : Dict Phase ℚ
  observedTax : ℚ
  observedTotal : ℚ
  success : Bool
  qualityScore : ℚ

/-- `TaxComparison`. -/
structure TaxComparison where
  predictedTax : ℚ
  observedTax : ℚ
  error : ℚ
  absError : ℚ
  withinOneStd : Bool

/-- The reason of a selection. -/
inductive Reason where
  | maxUtility
  | deploymentThreshold
deriving DecidableEq

/-- `TopologyObservation`. -/
structure Observation where
  observationId : Str
  sequence : Nat
  task : Task
  config : Config
  candidates : List CandidatePrediction
  selectedTopology : Topology
  selectionReason : Reason
  result : Option ObservedResult
  comparison : Option TaxComparison

/-- `OrchestrationTaxController`. -/
structure Controller where
  config : Config
  model : TaxModel
  log : List Observation
  seq : Nat

/-- `OrchestrationTaxController(config)`. -/
def Controller.new (cfg : Config) : Controller := ⟨cfg, .initial, [], 0⟩

/-- The order of `max`: utility, then the simpler topology, then the name. -/
def Better (c b : CandidatePrediction) : Prop :=
  b.predictedUtility < c.predictedUtility ∨ (c.predictedUtility = b.predictedUtility ∧
    (c.topology.complexityRank < b.topology.complexityRank ∨
      (c.topology.complexityRank = b.topology.complexityRank ∧ b.topology.name < c.topology.name)))

instance (c b : CandidatePrediction) : Decidable (Better c b) :=
  inferInstanceAs (Decidable (_ ∨ _))

/-- `max(candidates, key=...)`: the first of the greatest. -/
def best : List CandidatePrediction → Option CandidatePrediction
  | [] => none
  | c :: cs => some (cs.foldl (fun b c => if Better c b then c else b) c)

/-- `sorted(candidates, key=complexity_rank)`. -/
def simplestFirst (cs : List CandidatePrediction) : List CandidatePrediction :=
  cs.insertionSort fun a b => a.topology.complexityRank ≤ b.topology.complexityRank

/-- The topology of `select_topology` and the reason, for the candidates. -/
def choose (cfg : Config) (cs : List CandidatePrediction) : Option (Topology × Reason) :=
  match best cs with
  | none => none
  | some b =>
      if b.predictedTax > cfg.deploymentTaxThreshold then
        match (simplestFirst cs).find? fun c => decide (c.predictedTax ≤ cfg.deploymentTaxThreshold) with
        | some c => some (c.topology, .deploymentThreshold)
        | none => some (simplestTopology, .deploymentThreshold)
      else some (b.topology, .maxUtility)

/-- `f"otx-{seq:06d}"`. -/
def observationIdOf (seq : Nat) : Str :=
  lit "otx-" ++ List.replicate (6 - (natRepr seq).length) 0x30 ++ natRepr seq

/-- `log.by_id(observation_id)`. -/
def byId (id : Str) : List Observation → Option Observation
  | [] => none
  | o :: os => if o.observationId = id then some o else byId id os

/-- The log with the observation of this identifier replaced. -/
def setById (id : Str) (new : Observation) : List Observation → List Observation
  | [] => []
  | o :: os => if o.observationId = id then new :: os else o :: setById id new os

/-- `next(c for c in obs.candidates if c.topology == obs.selected_topology)`. -/
def Observation.chosen (o : Observation) : Except PyExn CandidatePrediction :=
  match o.candidates.find? fun c => decide (c.topology = o.selectedTopology) with
  | some c => .ok c
  | none => .error (.runtimeError "StopIteration" "")

section Controller

/- The square root of the platform. -/
variable (sqrt : ℚ → ℚ)

/-- `_candidates(task)`. -/
def candidates (cfg : Config) (m : TaxModel) (task : Task) : List CandidatePrediction :=
  cfg.topologies.map fun t =>
    { topology := t
      predictedTax := m.predictedTax task.taskClass t
      taxStd := m.taxUncertainty sqrt task.taskClass t
      predictedWorker := m.predictedWorker task.taskClass t
      predictedTotal := m.predictedTotal task.taskClass t
      predictedReliability := m.predictedReliability task.taskClass t
      predictedUtility := m.predictedReliability task.taskClass t * task.value -
        cfg.latencyPenalty * m.predictedTotal task.taskClass t }

/-- `select_topology(task)`. -/
def Controller.selectTopology (c : Controller) (task : Task) : Except PyExn (Observation × Controller) :=
  let cs := candidates sqrt c.config c.model task
  match choose c.config cs with
  | none => .error (.valueError "max() iterable argument is empty")
  | some (selected, reason) =>
      let obs : Observation := ⟨observationIdOf (c.seq + 1), c.seq + 1, task, c.config, cs, selected,
        reason, none, none⟩
      .ok (obs, { c with log := c.log ++ [obs], seq := c.seq + 1 })

end Controller

/-- `abs(observed_tax - predicted_tax) <= max(tax_std, 1e-9)`. -/
def withinStd (absError : ℚ) : Option ℚ → Bool
  | none => true
  | some std => decide (absError ≤ max std (1 / 1000000000))

/-- The comparison of `record_outcome`. -/
def compareTax (chosen : CandidatePrediction) (observed : ℚ) : TaxComparison :=
  ⟨chosen.predictedTax, observed, observed - chosen.predictedTax, |observed - chosen.predictedTax|,
    withinStd |observed - chosen.predictedTax| chosen.taxStd⟩

/-- The result of `record_outcome`. -/
def observedResult (timing : PhaseTiming) (success : Bool) (quality : Option ℚ) : ObservedResult :=
  ⟨timing.breakdown, TaxModel.countedTax timing, timing.total, success,
    quality.getD (if success then 1 else 0)⟩

/-- `record_outcome(observation_id, timing, success, quality_score)`. -/
def Controller.recordOutcome (c : Controller) (id : Str) (timing : PhaseTiming) (success : Bool)
    (quality : Option ℚ) : Except PyExn (TaxComparison × Controller) := do
  match byId id c.log with
  | none => throw .keyError
  | some obs =>
      let chosen ← obs.chosen
      let comparison := compareTax chosen (TaxModel.countedTax timing)
      let done := { obs with
        result := some (observedResult timing success quality)
        comparison := some comparison }
      return (comparison, { c with
        model := c.model.observe obs.task.taskClass obs.selectedTopology timing success
        log := setById id done c.log })

/-! ## Replay -/

/-- A record of `replay_decisions`. -/
structure ReplayRecord where
  observationId : Str
  storedTopology : Topology
  replayedTopology : Topology
  storedUtility : ℚ
  replayedUtility : ℚ
  isMatch : Bool

/-- The stored outcome, folded after its decision. -/
def foldStored (c : Controller) (id : Str) : Option ObservedResult → Except PyExn Controller
  | none => .ok c
  | some r => do
      let timing ← PhaseTiming.make r.timingBreakdown
      let (_, c') ← c.recordOutcome id timing r.success (some r.qualityScore)
      return c'

section Replay

variable (sqrt : ℚ → ℚ)

/-- The loop of `replay_decisions`; the controller after it has the replayed observations. -/
def replayLoop (c : Controller) : List Observation → Except PyExn (List ReplayRecord × Controller)
  | [] => .ok ([], c)
  | stored :: rest => do
      let (replayed, c₁) ← c.selectTopology sqrt stored.task
      let storedChoice ← stored.chosen
      let replayedChoice ← replayed.chosen
      let c₂ ← foldStored c₁ replayed.observationId stored.result
      let (records, c₃) ← replayLoop c₂ rest
      return (⟨stored.observationId, stored.selectedTopology, replayed.selectedTopology,
        storedChoice.predictedUtility, replayedChoice.predictedUtility,
        decide (replayed.selectedTopology = stored.selectedTopology)⟩ :: records, c₃)

/-- `sorted(observations, key=lambda o: o.sequence)`. -/
def bySequence (observations : List Observation) : List Observation :=
  observations.insertionSort fun a b => a.sequence ≤ b.sequence

/-- `replay_decisions(config, observations)`. -/
def replayDecisions (cfg : Config) (observations : List Observation) :
    Except PyExn (List ReplayRecord) := do
  let (records, _) ← replayLoop sqrt (.new cfg) (bySequence observations)
  return records

/-! ## Runs -/

/-- A call of a live run. -/
inductive Action where
  | select (task : Task)
  | record (id : Str) (timing : PhaseTiming) (success : Bool) (quality : Option ℚ)

/-- The controller after a call; a call that raises changes nothing. -/
def step (c : Controller) : Action → Controller
  | .select task =>
      match c.selectTopology sqrt task with
      | .ok (_, c') => c'
      | .error _ => c
  | .record id timing success quality =>
      match c.recordOutcome id timing success quality with
      | .ok (_, c') => c'
      | .error _ => c

/-- The controller after some calls. -/
def run (c : Controller) (as : List Action) : Controller := as.foldl (step sqrt) c

/-- A replay of the log reproduces every decision: it finishes, every record is a match, and the
replayed observations have the stored topologies and predictions. -/
def ReplayExact (cfg : Config) (log : List Observation) : Prop :=
  ∃ records c, replayLoop sqrt (.new cfg) (bySequence log) = .ok (records, c) ∧
    replayDecisions sqrt cfg log = .ok records ∧
    records.map ReplayRecord.observationId = log.map Observation.observationId ∧
    (∀ r ∈ records, r.isMatch = true) ∧
    List.Forall₂ (fun stored replayed => replayed.selectedTopology = stored.selectedTopology ∧
      replayed.candidates = stored.candidates) log c.log

/-- What keeps a replay exact. A decision falls back to the simplest topology only if it is
configured, and an outcome is for the last decision on its task class and the first one for it. -/
def Allowed (c : Controller) : Action → Prop
  | .select task => c.config.topologies = [] ∨ simplestTopology ∈ c.config.topologies ∨
      ∃ t ∈ c.config.topologies, c.model.predictedTax task.taskClass t ≤ c.config.deploymentTaxThreshold
  | .record id _ _ _ => ∀ pre obs post, c.log = pre ++ obs :: post → obs.observationId = id →
      obs.result = none ∧ ∀ x ∈ post, x.task.taskClass ≠ obs.task.taskClass

/-- A run whose calls all keep a replay exact. -/
def AllowedRun (c : Controller) : List Action → Prop
  | [] => True
  | a :: as => Allowed c a ∧ AllowedRun (step sqrt c a) as

/-! ## Decisions from stored outcomes -/

/-- The model after the outcome of an observation. -/
def applyOutcome (m : TaxModel) (o : Observation) : TaxModel :=
  match o.result with
  | none => m
  | some r =>
      match PhaseTiming.make r.timingBreakdown with
      | .ok timing => m.observe o.task.taskClass o.selectedTopology timing r.success
      | .error _ => m

/-- The model after the outcomes of some observations. -/
def foldOutcomes (m : TaxModel) (os : List Observation) : TaxModel := os.foldl applyOutcome m

/-- The decision of an observation is the one of this model. -/
def Decided (cfg : Config) (m : TaxModel) (o : Observation) : Prop :=
  o.candidates = candidates sqrt cfg m o.task ∧
    choose cfg o.candidates = some (o.selectedTopology, o.selectionReason) ∧
    ∃ c ∈ o.candidates, c.topology = o.selectedTopology

/-- Each decision is the one of the model after the outcomes of the observations before it. -/
def DecidedFrom (cfg : Config) : TaxModel → List Observation → Prop
  | _, [] => True
  | m, o :: os => Decided sqrt cfg m o ∧ DecidedFrom cfg (applyOutcome m o) os

variable {sqrt}

theorem applyOutcome_agree {d : Str} {m m' : TaxModel} (h : m.Agree d m') (o : Observation) :
    (applyOutcome m o).Agree d (applyOutcome m' o) := by
  rw [applyOutcome, applyOutcome]
  split
  · exact h
  · split
    · exact TaxModel.observe_agree h _ _ _ _
    · exact h

theorem applyOutcome_other {d : Str} {o : Observation} (h : o.task.taskClass ≠ d) (m : TaxModel) :
    (applyOutcome m o).Agree d m := by
  rw [applyOutcome]
  split
  · exact .refl d m
  · split
    · exact TaxModel.observe_other m h.symm _ _ _
    · exact .refl d m

theorem foldOutcomes_agree {d : Str} {m m' : TaxModel} (h : m.Agree d m') (os : List Observation) :
    (foldOutcomes m os).Agree d (foldOutcomes m' os) := by
  induction os generalizing m m' with
  | nil => exact h
  | cons o os ih => exact ih (applyOutcome_agree h o)

theorem foldOutcomes_other {d : Str} {os : List Observation} (h : ∀ o ∈ os, o.task.taskClass ≠ d)
    (m : TaxModel) : (foldOutcomes m os).Agree d m := by
  induction os generalizing m with
  | nil => exact .refl d m
  | cons o os ih =>
      exact (ih (fun x hx => h x (List.mem_cons_of_mem _ hx)) _).trans
        (applyOutcome_other (h o List.mem_cons_self) m)

theorem foldOutcomes_append (m : TaxModel) (os ps : List Observation) :
    foldOutcomes m (os ++ ps) = foldOutcomes (foldOutcomes m os) ps := List.foldl_append ..

/-- The predictions for a task depend on the estimates of its class. -/
theorem candidates_agree {cfg : Config} {m m' : TaxModel} {task : Task}
    (h : m.Agree task.taskClass m') : candidates sqrt cfg m task = candidates sqrt cfg m' task := by
  apply List.map_congr_left
  intro t _
  obtain ⟨htax, hworker, hrel⟩ := h t
  simp only [TaxModel.predictedTax, TaxModel.taxUncertainty, TaxModel.predictedWorker,
    TaxModel.predictedTotal, TaxModel.predictedReliability, htax, hworker, hrel]

theorem Decided.agree {cfg : Config} {m m' : TaxModel} {o : Observation}
    (h : Decided sqrt cfg m o) (hm : m.Agree o.task.taskClass m') : Decided sqrt cfg m' o :=
  ⟨h.1.trans (candidates_agree hm), h.2⟩

theorem DecidedFrom.agree {cfg : Config} {m m' : TaxModel} {os : List Observation}
    (h : DecidedFrom sqrt cfg m os) (hm : ∀ o ∈ os, m.Agree o.task.taskClass m') :
    DecidedFrom sqrt cfg m' os := by
  induction os generalizing m m' with
  | nil => trivial
  | cons o os ih =>
      refine ⟨h.1.agree (hm o List.mem_cons_self), ih h.2 ?_⟩
      intro x hx
      exact applyOutcome_agree (hm x (List.mem_cons_of_mem _ hx)) o

theorem decidedFrom_append {cfg : Config} {m : TaxModel} {os ps : List Observation} :
    DecidedFrom sqrt cfg m (os ++ ps) ↔
      DecidedFrom sqrt cfg m os ∧ DecidedFrom sqrt cfg (foldOutcomes m os) ps := by
  induction os generalizing m with
  | nil => exact ⟨fun h => ⟨trivial, h⟩, fun h => h.2⟩
  | cons o os ih =>
      constructor
      · rintro ⟨hhead, htail⟩
        obtain ⟨hos, hps⟩ := ih.1 htail
        exact ⟨⟨hhead, hos⟩, hps⟩
      · rintro ⟨⟨hhead, hos⟩, hps⟩
        exact ⟨hhead, ih.2 ⟨hos, hps⟩⟩

/-! ## Candidates -/

theorem best_mem {cs : List CandidatePrediction} {b : CandidatePrediction} (h : best cs = some b) :
    b ∈ cs := by
  cases cs with
  | nil => cases h
  | cons c cs =>
      have hfold : ∀ (l : List CandidatePrediction) (a : CandidatePrediction),
          l.foldl (fun b c => if Better c b then c else b) a ∈ a :: l := by
        intro l
        induction l with
        | nil => exact fun a => List.mem_cons_self
        | cons x l ih =>
            intro a
            rw [List.foldl_cons]
            rcases List.mem_cons.1 (ih (if Better x a then x else a)) with heq | hmem
            · rw [heq]
              split
              · exact List.mem_cons_of_mem _ List.mem_cons_self
              · exact List.mem_cons_self
            · exact List.mem_cons_of_mem _ (List.mem_cons_of_mem _ hmem)
      injection h with h
      rw [← h]
      exact hfold cs c

/-- The topology that is chosen is one of the candidates, or the simplest one when no candidate has a
tax within the threshold. -/
theorem choose_mem {cfg : Config} {cs : List CandidatePrediction} {t : Topology} {reason : Reason}
    (h : choose cfg cs = some (t, reason)) :
    (∃ c ∈ cs, c.topology = t) ∨
      (t = simplestTopology ∧ ∀ c ∈ cs, ¬c.predictedTax ≤ cfg.deploymentTaxThreshold) := by
  rw [choose] at h
  split at h
  · cases h
  · rename_i b hb
    split at h
    · split at h
      · rename_i c hc
        cases h
        have hmem := List.mem_of_find?_eq_some hc
        exact .inl ⟨c, (List.mem_insertionSort _).1 hmem, rfl⟩
      · rename_i hnone
        cases h
        refine .inr ⟨rfl, ?_⟩
        intro c hc
        have hall := List.find?_eq_none.1 hnone c ((List.mem_insertionSort _).2 hc)
        simpa using hall
    · cases h
      exact .inl ⟨b, best_mem hb, rfl⟩

/-! ## Identifiers -/

theorem natOfDigits_zeros (k : Nat) (s : Str) :
    natOfDigits (List.replicate k 0x30 ++ s) = natOfDigits s := by
  induction k with
  | zero => rfl
  | succ k ih =>
      have hzero : natOfDigits (0x30 :: (List.replicate k 0x30 ++ s)) =
          natOfDigits (List.replicate k 0x30 ++ s) := by
        rw [natOfDigits, List.reverse_cons, List.map_append, Nat.ofDigits_append]
        simp [natOfDigits, digitVal]
      rw [List.replicate_succ, List.cons_append, hzero, ih]

/-- The identifiers of different sequence numbers are different. -/
theorem observationIdOf_injective {i j : Nat} (h : observationIdOf i = observationIdOf j) : i = j := by
  rw [observationIdOf, observationIdOf, List.append_assoc, List.append_assoc] at h
  have hdigits := congrArg natOfDigits (List.append_cancel_left h)
  rw [natOfDigits_zeros, natOfDigits_zeros, natOfDigits_natRepr, natOfDigits_natRepr] at hdigits
  exact hdigits

/-- The first observation with an identifier, and the log with it replaced. -/
theorem byId_some {id : Str} {log : List Observation} {obs : Observation} (h : byId id log = some obs) :
    obs.observationId = id ∧ ∃ pre post, log = pre ++ obs :: post ∧
      ∀ new, setById id new log = pre ++ new :: post := by
  induction log with
  | nil => cases h
  | cons o os ih =>
      rw [byId] at h
      by_cases hid : o.observationId = id
      · rw [if_pos hid] at h
        cases h
        exact ⟨hid, [], os, rfl, fun new => if_pos hid⟩
      · rw [if_neg hid] at h
        obtain ⟨hobs, pre, post, rfl, hset⟩ := ih h
        refine ⟨hobs, o :: pre, post, rfl, ?_⟩
        intro new
        rw [setById, if_neg hid, hset]
        rfl

/-- The last observation is found if no other has its identifier. -/
theorem byId_concat {log : List Observation} {obs : Observation}
    (hlog : ∀ o ∈ log, o.observationId ≠ obs.observationId) :
    byId obs.observationId (log ++ [obs]) = some obs ∧
      ∀ new, setById obs.observationId new (log ++ [obs]) = log ++ [new] := by
  induction log with
  | nil => exact ⟨if_pos rfl, fun new => if_pos rfl⟩
  | cons o os ih =>
      obtain ⟨hfind, hset⟩ := ih fun x hx => hlog x (List.mem_cons_of_mem _ hx)
      have hne := hlog o List.mem_cons_self
      refine ⟨?_, fun new => ?_⟩
      · rw [List.cons_append, byId, if_neg hne, hfind]
      · rw [List.cons_append, setById, if_neg hne, hset]
        rfl

/-! ## The live run -/

/-- What holds of a controller and its log between the calls of a run. -/
structure Faithful (sqrt : ℚ → ℚ) (cfg : Config) (c : Controller) : Prop where
  config : c.config = cfg
  seq : c.seq = c.log.length
  sequences : c.log.map Observation.sequence = (List.range c.log.length).map Nat.succ
  decided : DecidedFrom sqrt cfg .initial c.log
  model : ∀ d, c.model.Agree d (foldOutcomes .initial c.log)
  timings : ∀ o ∈ c.log, ∀ r, o.result = some r → ∃ t : PhaseTiming, r.timingBreakdown = t.breakdown

theorem faithful_new (sqrt : ℚ → ℚ) (cfg : Config) : Faithful sqrt cfg (.new cfg) :=
  ⟨rfl, rfl, rfl, trivial, fun d => .refl d _, fun _ ho => absurd ho List.not_mem_nil⟩

theorem Faithful.select {cfg : Config} {c : Controller} (h : Faithful sqrt cfg c) {task : Task}
    (ha : Allowed c (.select task)) : Faithful sqrt cfg (step sqrt c (.select task)) := by
  rw [step, Controller.selectTopology]
  cases hchoose : choose c.config (candidates sqrt c.config c.model task) with
  | none => exact h
  | some choice =>
      obtain ⟨t, reason⟩ := choice
      -- the chosen topology is a candidate
      have hmem : ∃ p ∈ candidates sqrt c.config c.model task, p.topology = t := by
        rcases choose_mem hchoose with hmem | ⟨ht, hall⟩
        · exact hmem
        · have hcand : ∀ u ∈ c.config.topologies,
              ∃ p ∈ candidates sqrt c.config c.model task, p.topology = u ∧
                p.predictedTax = c.model.predictedTax task.taskClass u := fun u hu =>
            ⟨_, List.mem_map_of_mem hu, rfl, rfl⟩
          rcases ha with hnone | hsingle | ⟨u, hu, htax⟩
          · rw [candidates, hnone, List.map_nil] at hchoose
            cases hchoose
          · obtain ⟨p, hp, htop, -⟩ := hcand _ hsingle
            exact ⟨p, hp, htop.trans ht.symm⟩
          · obtain ⟨p, hp, -, hpred⟩ := hcand u hu
            exact absurd (hpred ▸ htax) (hall p hp)
      have hsame : candidates sqrt c.config c.model task =
          candidates sqrt c.config (foldOutcomes .initial c.log) task :=
        candidates_agree (h.model task.taskClass)
      refine ⟨h.config, ?_, ?_, ?_, ?_, ?_⟩
      · show c.seq + 1 = (c.log ++ [_]).length
        rw [List.length_append, h.seq]
        rfl
      · show (c.log ++ [_]).map Observation.sequence = (List.range (c.log ++ [_]).length).map Nat.succ
        rw [List.map_append, h.sequences, List.length_append, List.length_singleton, List.range_succ,
          List.map_append, h.seq]
        rfl
      · refine decidedFrom_append.2 ⟨h.decided, ?_, trivial⟩
        rw [← h.config]
        exact ⟨hsame, hchoose, hmem⟩
      · intro d
        show c.model.Agree d (foldOutcomes .initial (c.log ++ [_]))
        rw [foldOutcomes_append]
        exact h.model d
      · intro o ho r hr
        rcases List.mem_append.1 ho with ho | ho
        · exact h.timings o ho r hr
        · rw [List.mem_singleton.1 ho] at hr
          cases hr

theorem recordOutcome_ok {c c' : Controller} {id : Str} {timing : PhaseTiming} {success : Bool}
    {quality : Option ℚ} {comparison : TaxComparison}
    (h : c.recordOutcome id timing success quality = .ok (comparison, c')) :
    ∃ obs, byId id c.log = some obs ∧
      c' = { c with
        model := c.model.observe obs.task.taskClass obs.selectedTopology timing success
        log := setById id { obs with
          result := some (observedResult timing success quality)
          comparison := some comparison } c.log } := by
  rw [Controller.recordOutcome] at h
  cases hfind : byId id c.log with
  | none =>
      rw [hfind] at h
      cases h
  | some obs =>
      rw [hfind] at h
      obtain ⟨chosen, _, h⟩ := bind_eq_ok.1 h
      cases h
      exact ⟨obs, rfl, rfl⟩

/-- The outcome that was just recorded, applied to a model. -/
theorem applyOutcome_recorded (m : TaxModel) {o : Observation} {timing : PhaseTiming} {success : Bool}
    {quality : Option ℚ} (h : o.result = some (observedResult timing success quality)) :
    applyOutcome m o = m.observe o.task.taskClass o.selectedTopology timing success := by
  rw [applyOutcome, h]
  show (match PhaseTiming.make timing.breakdown with
    | .ok t => m.observe o.task.taskClass o.selectedTopology t success
    | .error _ => m) = _
  rw [PhaseTiming.make_breakdown]
  exact TaxModel.observe_ofBreakdown m _ _ timing success

theorem Faithful.record {cfg : Config} {c : Controller} (h : Faithful sqrt cfg c) {id : Str}
    {timing : PhaseTiming} {success : Bool} {quality : Option ℚ}
    (ha : Allowed c (.record id timing success quality)) :
    Faithful sqrt cfg (step sqrt c (.record id timing success quality)) := by
  rw [step]
  cases hres : c.recordOutcome id timing success quality with
  | error e => exact h
  | ok res =>
      obtain ⟨comparison, c'⟩ := res
      obtain ⟨obs, hfind, rfl⟩ := recordOutcome_ok hres
      obtain ⟨hid, pre, post, hlog, hset⟩ := byId_some hfind
      obtain ⟨hopen, hlatest⟩ := ha pre obs post hlog hid
      rw [hset]
      generalize hdone : ({ obs with
        result := some (observedResult timing success quality)
        comparison := some comparison } : Observation) = done
      have htask : done.task = obs.task := by rw [← hdone]
      have hselected : done.selectedTopology = obs.selectedTopology := by rw [← hdone]
      have hresult : done.result = some (observedResult timing success quality) := by rw [← hdone]
      have hseq : done.sequence = obs.sequence := by rw [← hdone]
      have hclosed : ∀ m, applyOutcome m obs = m := by
        intro m
        rw [applyOutcome, hopen]
      have happly : ∀ m, applyOutcome m done =
          m.observe obs.task.taskClass obs.selectedTopology timing success := by
        intro m
        rw [applyOutcome_recorded m hresult, htask, hselected]
      have hdecided := h.decided
      rw [hlog] at hdecided
      obtain ⟨hbefore, hhere, hafter⟩ := decidedFrom_append.1 hdecided
      rw [hclosed] at hafter
      have hlength : (pre ++ done :: post).length = c.log.length := by
        rw [hlog, List.length_append, List.length_append, List.length_cons, List.length_cons]
      refine ⟨h.config, ?_, ?_, ?_, ?_, ?_⟩
      · show c.seq = (pre ++ done :: post).length
        rw [hlength, h.seq]
      · show (pre ++ done :: post).map Observation.sequence =
          (List.range (pre ++ done :: post).length).map Nat.succ
        rw [hlength, ← h.sequences, hlog, List.map_append, List.map_append, List.map_cons, List.map_cons,
          hseq]
      · -- the later decisions are on other task classes
        refine decidedFrom_append.2 ⟨hbefore, ?_, ?_⟩
        · obtain ⟨hcands, hchoose, hmem⟩ := hhere
          rw [← hdone]
          exact ⟨hcands, hchoose, hmem⟩
        · refine hafter.agree ?_
          intro x hx
          exact (applyOutcome_other (htask.symm ▸ (hlatest x hx).symm) _).symm
      · intro d
        have hmodel := h.model d
        rw [hlog, foldOutcomes_append] at hmodel
        show (c.model.observe obs.task.taskClass obs.selectedTopology timing success).Agree d
          (foldOutcomes .initial (pre ++ done :: post))
        rw [foldOutcomes_append]
        show TaxModel.Agree d _ (foldOutcomes (applyOutcome (foldOutcomes .initial pre) done) post)
        change c.model.Agree d (foldOutcomes (applyOutcome (foldOutcomes .initial pre) obs) post) at hmodel
        rw [hclosed] at hmodel
        rw [happly]
        by_cases hd : obs.task.taskClass = d
        · -- nothing after the observation touches its class
          subst hd
          have hold := hmodel.trans (foldOutcomes_other hlatest _)
          exact (TaxModel.observe_agree hold _ _ _ _).trans (foldOutcomes_other hlatest _).symm
        · have hother := TaxModel.observe_other (foldOutcomes .initial pre) (Ne.symm hd)
            obs.selectedTopology timing success
          exact ((TaxModel.observe_other c.model (Ne.symm hd) _ _ _).trans hmodel).trans
            (foldOutcomes_agree hother.symm post)
      · intro o ho r hr
        have hcases : o ∈ c.log ∨ o = done := by
          rw [hlog]
          rcases List.mem_append.1 ho with ho | ho
          · exact .inl (List.mem_append_left _ ho)
          · rcases List.mem_cons.1 ho with rfl | ho
            · exact .inr rfl
            · exact .inl (List.mem_append_right _ (List.mem_cons_of_mem _ ho))
        rcases hcases with ho | rfl
        · exact h.timings o ho r hr
        · rw [hresult] at hr
          cases hr
          exact ⟨timing, rfl⟩

theorem step_config (sqrt : ℚ → ℚ) (c : Controller) (a : Action) :
    (step sqrt c a).config = c.config := by
  cases a with
  | select task =>
      rw [step, Controller.selectTopology]
      cases choose c.config (candidates sqrt c.config c.model task) <;> rfl
  | record id timing success quality =>
      rw [step]
      split
      · rename_i hres
        obtain ⟨obs, -, rfl⟩ := recordOutcome_ok hres
        rfl
      · rfl

theorem Faithful.run {cfg : Config} {c : Controller} (h : Faithful sqrt cfg c) {as : List Action}
    (ha : AllowedRun sqrt c as) : Faithful sqrt cfg (run sqrt c as) := by
  induction as generalizing c with
  | nil => exact h
  | cons a as ih =>
      refine ih ?_ ha.2
      cases a with
      | select task => exact h.select ha.1
      | record id timing success quality => exact h.record ha.1

/-! ## The replay -/

/-- What a replayed observation has in common with the stored one. -/
def SameDecision (stored replayed : Observation) : Prop :=
  replayed.selectedTopology = stored.selectedTopology ∧ replayed.candidates = stored.candidates

theorem chosen_ok {o : Observation} (h : ∃ c ∈ o.candidates, c.topology = o.selectedTopology) :
    ∃ c, o.chosen = .ok c := by
  obtain ⟨c, hc, htop⟩ := h
  rw [Observation.chosen]
  cases hfind : o.candidates.find? fun c => decide (c.topology = o.selectedTopology) with
  | some p => exact ⟨p, rfl⟩
  | none =>
      have hall := List.find?_eq_none.1 hfind c hc
      rw [htop] at hall
      simp at hall

/-- `record_outcome` of an observation whose topology is one of its candidates. -/
theorem recordOutcome_eq {c : Controller} {id : Str} {obs : Observation} {chosen : CandidatePrediction}
    (hfind : byId id c.log = some obs) (hchosen : obs.chosen = .ok chosen) (timing : PhaseTiming)
    (success : Bool) (quality : Option ℚ) :
    c.recordOutcome id timing success quality =
      .ok (compareTax chosen (TaxModel.countedTax timing), { c with
        model := c.model.observe obs.task.taskClass obs.selectedTopology timing success
        log := setById id { obs with
          result := some (observedResult timing success quality)
          comparison := some (compareTax chosen (TaxModel.countedTax timing)) } c.log }) := by
  rw [Controller.recordOutcome, hfind]
  show (do
    let chosen ← obs.chosen
    return (compareTax chosen (TaxModel.countedTax timing), _)) = _
  rw [hchosen]
  rfl

theorem foldStored_some {c c' : Controller} {id : Str} {r : ObservedResult} {timing : PhaseTiming}
    {comparison : TaxComparison} (hmake : PhaseTiming.make r.timingBreakdown = .ok timing)
    (hrecord : c.recordOutcome id timing r.success (some r.qualityScore) = .ok (comparison, c')) :
    foldStored c id (some r) = .ok c' := by
  rw [foldStored, hmake]
  show (do
    let (_, c') ← c.recordOutcome id timing r.success (some r.qualityScore)
    return c') = _
  rw [hrecord]
  rfl

/-- Folding the stored outcome after its decision: the model is the one after the outcome, and the
replayed observation stands last. -/
theorem foldStored_ok {c : Controller} {log : List Observation} {stored replayed : Observation}
    (hlog : c.log = log ++ [replayed])
    (hids : ∀ o ∈ log, o.observationId ≠ replayed.observationId)
    (htask : replayed.task = stored.task) (hsame : SameDecision stored replayed)
    (hmem : ∃ p ∈ stored.candidates, p.topology = stored.selectedTopology)
    (htimings : ∀ r, stored.result = some r → ∃ t : PhaseTiming, r.timingBreakdown = t.breakdown) :
    ∃ c' last, foldStored c replayed.observationId stored.result = .ok c' ∧ c'.config = c.config ∧
      c'.seq = c.seq ∧ c'.model = applyOutcome c.model stored ∧ c'.log = log ++ [last] ∧
      last.observationId = replayed.observationId ∧ SameDecision stored last := by
  obtain ⟨hselected, hcandidates⟩ := hsame
  cases hresult : stored.result with
  | none =>
      refine ⟨c, replayed, rfl, rfl, rfl, ?_, hlog, rfl, hselected, hcandidates⟩
      rw [applyOutcome, hresult]
  | some r =>
      obtain ⟨timing, htiming⟩ := htimings r hresult
      obtain ⟨hfind, hset⟩ := byId_concat hids
      obtain ⟨chosen, hchosen⟩ := chosen_ok (o := replayed) (by rwa [hcandidates, hselected])
      have hmake : PhaseTiming.make r.timingBreakdown = .ok timing.ofBreakdown := by
        rw [htiming]
        exact timing.make_breakdown
      have hrecord := recordOutcome_eq (hlog ▸ hfind) hchosen timing.ofBreakdown r.success
        (some r.qualityScore)
      rw [hlog, hset] at hrecord
      refine ⟨_, _, foldStored_some hmake hrecord, rfl, rfl, ?_, rfl, rfl, hselected, hcandidates⟩
      rw [applyOutcome, hresult]
      show c.model.observe _ _ _ _ = (match PhaseTiming.make r.timingBreakdown with
        | .ok t => c.model.observe stored.task.taskClass stored.selectedTopology t r.success
        | .error _ => c.model)
      rw [hmake, htask, hselected]

/-- A replay from the model that the decisions were made from. -/
theorem replayLoop_spec {cfg : Config} {c : Controller} {os : List Observation} (hcfg : c.config = cfg)
    (hids : ∀ o ∈ c.log, ∃ j, j ≤ c.seq ∧ o.observationId = observationIdOf j)
    (hdecided : DecidedFrom sqrt cfg c.model os)
    (htimings : ∀ o ∈ os, ∀ r, o.result = some r → ∃ t : PhaseTiming, r.timingBreakdown = t.breakdown) :
    ∃ records c' new, replayLoop sqrt c os = .ok (records, c') ∧
      records.map ReplayRecord.observationId = os.map Observation.observationId ∧
      (∀ r ∈ records, r.isMatch = true) ∧ c'.log = c.log ++ new ∧ List.Forall₂ SameDecision os new := by
  induction os generalizing c with
  | nil =>
      exact ⟨[], c, [], rfl, rfl, fun _ hr => absurd hr List.not_mem_nil, (List.append_nil _).symm, .nil⟩
  | cons stored os ih =>
      obtain ⟨⟨hcands, hchoose, hmem⟩, hrest⟩ := hdecided
      -- the replayed decision
      let replayed : Observation := ⟨observationIdOf (c.seq + 1), c.seq + 1, stored.task, c.config,
        candidates sqrt c.config c.model stored.task, stored.selectedTopology, stored.selectionReason,
        none, none⟩
      have hcandidates : replayed.candidates = stored.candidates := by
        rw [hcands, ← hcfg]
      have hselect : c.selectTopology sqrt stored.task =
          .ok (replayed, { c with log := c.log ++ [replayed], seq := c.seq + 1 }) := by
        have hchoose' : choose c.config (candidates sqrt c.config c.model stored.task) =
            some (stored.selectedTopology, stored.selectionReason) := by
          rw [hcfg, ← hcands]
          exact hchoose
        rw [Controller.selectTopology]
        dsimp only
        rw [hchoose']
      obtain ⟨storedChoice, hstored⟩ := chosen_ok hmem
      obtain ⟨replayedChoice, hreplayed⟩ := chosen_ok (o := replayed) (by rw [hcandidates]; exact hmem)
      have hfresh : ∀ o ∈ c.log, o.observationId ≠ replayed.observationId := by
        intro o ho heq
        obtain ⟨j, hj, hoj⟩ := hids o ho
        have hsame := observationIdOf_injective (hoj.symm.trans heq)
        omega
      obtain ⟨c₂, last, hfold, hconfig, hseq, hmodel, hlog, hlastId, hlast⟩ :=
        @foldStored_ok { c with log := c.log ++ [replayed], seq := c.seq + 1 } c.log stored replayed rfl
          hfresh rfl ⟨rfl, hcandidates⟩ hmem (htimings stored List.mem_cons_self)
      have hids₂ : ∀ o ∈ c₂.log, ∃ j, j ≤ c₂.seq ∧ o.observationId = observationIdOf j := by
        intro o ho
        rw [hseq]
        rw [hlog] at ho
        rcases List.mem_append.1 ho with ho | ho
        · obtain ⟨j, hj, hoj⟩ := hids o ho
          exact ⟨j, hj.trans (Nat.le_succ _), hoj⟩
        · rw [List.mem_singleton.1 ho, hlastId]
          exact ⟨c.seq + 1, le_refl _, rfl⟩
      obtain ⟨records, c₃, new, hloop, hnames, hmatch, hlog₃, hsame⟩ :=
        ih (hconfig.trans hcfg) hids₂ (hmodel ▸ hrest)
          fun o ho => htimings o (List.mem_cons_of_mem _ ho)
      refine ⟨⟨stored.observationId, stored.selectedTopology, replayed.selectedTopology,
        storedChoice.predictedUtility, replayedChoice.predictedUtility,
        decide (replayed.selectedTopology = stored.selectedTopology)⟩ :: records, c₃, last :: new,
        ?_, ?_, ?_, ?_, .cons hlast hsame⟩
      · rw [replayLoop, hselect]
        show (do
          let storedChoice ← stored.chosen
          let replayedChoice ← replayed.chosen
          let c₂ ← foldStored { c with log := c.log ++ [replayed], seq := c.seq + 1 }
            replayed.observationId stored.result
          let (records, c₃) ← replayLoop sqrt c₂ os
          return ((⟨stored.observationId, stored.selectedTopology, replayed.selectedTopology,
            storedChoice.predictedUtility, replayedChoice.predictedUtility,
            decide (replayed.selectedTopology = stored.selectedTopology)⟩ : ReplayRecord) :: records,
              c₃)) = _
        simp only [hstored, hreplayed, hfold, hloop, bind, Except.bind]
        rfl
      · rw [List.map_cons, List.map_cons, hnames]
      · intro r hr
        rcases List.mem_cons.1 hr with rfl | hr
        · exact decide_eq_true rfl
        · exact hmatch r hr
      · rw [hlog₃, hlog, List.append_assoc]
        rfl

/-- A log in sequence is replayed in its own order. -/
theorem bySequence_eq {log : List Observation}
    (h : log.map Observation.sequence = (List.range log.length).map Nat.succ) : bySequence log = log := by
  have hsorted : (log.map Observation.sequence).Pairwise (· ≤ ·) := by
    rw [h]
    refine List.Pairwise.map Nat.succ ?_ List.pairwise_lt_range
    intro a b hab
    omega
  exact (List.pairwise_map.1 hsorted).insertionSort_eq

/-- In every run whose outcomes are recorded once and before the next decision on their task class,
the replay of the log reproduces every decision. -/
theorem replay_exact_of_allowed (cfg : Config) (as : List Action)
    (h : AllowedRun sqrt (.new cfg) as) : ReplayExact sqrt cfg (run sqrt (.new cfg) as).log := by
  have hfaithful := (faithful_new sqrt cfg).run h
  obtain ⟨records, c, new, hloop, hnames, hmatch, hlog, hsame⟩ :=
    @replayLoop_spec sqrt cfg (.new cfg) _ rfl (fun o ho => absurd ho List.not_mem_nil)
      hfaithful.decided hfaithful.timings
  have hnew : c.log = new := hlog
  rw [← bySequence_eq hfaithful.sequences] at hloop
  refine ⟨records, c, hloop, ?_, hnames, hmatch, ?_⟩
  · rw [replayDecisions, hloop]
    rfl
  · rw [hnew]
    exact hsame

end Replay

/-! ## Sample runs -/

/-- The default configuration. -/
def sampleConfig : Config := ⟨3, 5 / 100, [.single, .pair, .swarm]⟩

/-- A task of a class. -/
def sampleTask (taskClass : String) : Task := ⟨lit "t", lit taskClass, lit "atomic", 1, 1⟩

/-- One second of work. -/
def sampleTiming : PhaseTiming := ⟨[(.workerExecution, 1)], by simp⟩

/-- The outcome of the first observation is recorded after a decision on another class. -/
def sampleRun : List Action :=
  [.select (sampleTask "lookup"), .select (sampleTask "synthesis"),
    .record (lit "otx-000001") sampleTiming false none, .select (sampleTask "lookup")]

theorem sampleRun_replay_exact :
    ReplayExact (fun _ => 0) sampleConfig (run (fun _ => 0) (.new sampleConfig) sampleRun).log := by
  apply replay_exact_of_allowed
  have hsingle : simplestTopology ∈ sampleConfig.topologies := by decide
  refine ⟨.inr (.inl hsingle), .inr (.inl ?_), ?_, .inr (.inl ?_), trivial⟩
  · rw [step_config]
    exact hsingle
  rotate_left
  · rw [step_config, step_config, step_config]
    exact hsingle
  intro pre obs post hlog hid
  have hids : (run (fun _ => 0) (.new sampleConfig) (sampleRun.take 2)).log.map
      (fun o => (o.observationId, o.result.isNone, o.task.taskClass)) =
      [(lit "otx-000001", true, lit "lookup"), (lit "otx-000002", true, lit "synthesis")] := by
    decide +kernel
  change (run (fun _ => 0) (.new sampleConfig) (sampleRun.take 2)).log = pre ++ obs :: post at hlog
  rw [hlog, List.map_append, List.map_cons] at hids
  cases pre with
  | nil =>
      injection hids with hhead htail
      injection hhead with _ hhead
      injection hhead with hnone hclass
      refine ⟨Option.isNone_iff_eq_none.1 hnone, ?_⟩
      intro x hx
      have hmem := List.mem_map_of_mem (f := fun o : Observation =>
        (o.observationId, o.result.isNone, o.task.taskClass)) hx
      rw [htail, List.mem_singleton] at hmem
      injection hmem with _ hmem
      injection hmem with _ hother
      rw [hother, hclass]
      decide
  | cons first pre =>
      -- the second observation has another identifier
      injection hids with _ htail
      cases pre with
      | nil =>
          injection htail with hhead _
          injection hhead with hname _
          rw [hid] at hname
          exact absurd hname (by decide)
      | cons second pre =>
          injection htail with _ hnil
          simp at hnil

/-- The outcome of the first decision comes in after the second decision on the same class: the replay
has it earlier and decides otherwise. -/
theorem late_outcome_mismatch :
    ¬∀ (sqrt : ℚ → ℚ) (cfg : Config) (as : List Action),
      ReplayExact sqrt cfg (run sqrt (.new cfg) as).log := by
  intro hall
  obtain ⟨records, c, hloop, -, -, hmatch, -⟩ := hall (fun _ => 0) sampleConfig
    [.select (sampleTask "lookup"), .select (sampleTask "lookup"),
      .record (lit "otx-000001") sampleTiming false none]
  have hflags : ((replayLoop (fun _ => 0) (.new sampleConfig) (bySequence (run (fun _ => 0)
      (.new sampleConfig) [.select (sampleTask "lookup"), .select (sampleTask "lookup"),
        .record (lit "otx-000001") sampleTiming false none]).log)).toOption.map
          fun r => r.1.map ReplayRecord.isMatch) = some [true, false] := by
    decide +kernel
  rw [hloop] at hflags
  injection hflags with hflags
  change records.map ReplayRecord.isMatch = [true, false] at hflags
  have hmem : false ∈ records.map ReplayRecord.isMatch := by
    rw [hflags]
    decide
  obtain ⟨r, hr, hfalse⟩ := List.mem_map.1 hmem
  rw [hmatch r hr] at hfalse
  cases hfalse

end ResidualHarness.Otx
