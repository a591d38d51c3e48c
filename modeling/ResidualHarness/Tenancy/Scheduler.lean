import ResidualHarness.Core.Task
import Mathlib.Data.Int.CardIntervalMod

/-!
# Deficit round robin

`FairScheduler` of `residual/tenancy/scheduler.py`. A turn of the round order adds the quota of a
tenant with queued jobs to its deficit and runs jobs from its queue while the deficit covers them. A
measure of the cost that deficits do not cover yet bounds the number of passes (`drr_sound`).
-/

set_option autoImplicit false

namespace ResidualHarness.Tenancy

open Python Core

/-! ## The scheduler -/

/-- `Job`, as its constructor leaves it. -/
structure Job where
  id : Str
  tenantId : Str
  cost : Nat
  identified : isIdentifier id = true
  owned : isIdentifier tenantId = true
  positive : 1 ≤ cost

instance : DecidableEq Job := fun a b =>
  decidable_of_iff (a.id = b.id ∧ a.tenantId = b.tenantId ∧ a.cost = b.cost)
    (by cases a; cases b; simp)

/-- `FairScheduler`. -/
structure FairScheduler where
  quotas : Dict Str Nat
  queues : Dict Str (List Job)
  deficit : Dict Str Nat
  roundOrder : List Str
  completed : List Job
  quotasPositive : ∀ tenant quota, quotas.get? tenant = some quota → 1 ≤ quota

/-- `FairScheduler(quotas=quotas)`, with quotas that pass its check. -/
def FairScheduler.new (quotas : Dict Str Nat)
    (h : ∀ tenant quota, quotas.get? tenant = some quota → 1 ≤ quota) : FairScheduler :=
  ⟨quotas, [], [], [], [], h⟩

/-- `_queues[tenant]`. -/
def FairScheduler.queue (s : FairScheduler) (tenant : Str) : List Job :=
  (s.queues.get? tenant).getD []

/-- `_deficit[tenant]`. -/
def FairScheduler.credit (s : FairScheduler) (tenant : Str) : Nat :=
  (s.deficit.get? tenant).getD 0

/-- `quotas.get(tenant, 1)`. -/
def FairScheduler.quota (s : FairScheduler) (tenant : Str) : Nat := (s.quotas.get? tenant).getD 1

theorem quotas_set_positive {quotas : Dict Str Nat} {tenantId : Str} {quota : Nat}
    (h : ∀ tenant quota, quotas.get? tenant = some quota → 1 ≤ quota) (hq : 1 ≤ quota) :
    ∀ tenant q, (quotas.set tenantId quota).get? tenant = some q → 1 ≤ q := by
  intro tenant q hget
  rw [Dict.get?_set] at hget
  split at hget
  · cases hget
    exact hq
  · exact h tenant q hget

/-- `set_quota(tenant_id, quota)`. -/
def FairScheduler.setQuota (s : FairScheduler) (tenantId : Str) (quota : Int) :
    Except PyExn FairScheduler := do
  identifier tenantId
  if h : 1 ≤ quota then
    return { s with
      quotas := s.quotas.set tenantId quota.toNat
      quotasPositive := quotas_set_positive s.quotasPositive (by omega) }
  else throw (contractError "tenant quota must be a positive integer")

/-- The entries of a tenant that has none yet. -/
def FairScheduler.register (s : FairScheduler) (tenantId : Str) : FairScheduler :=
  if tenantId ∈ s.queues.keys then s
  else
    let s := { s with
      queues := s.queues.set tenantId []
      deficit := s.deficit.set tenantId 0
      roundOrder := s.roundOrder ++ [tenantId] }
    if tenantId ∈ s.quotas.keys then s
    else { s with
      quotas := s.quotas.set tenantId 1
      quotasPositive := quotas_set_positive s.quotasPositive (le_refl 1) }

/-- `submit(job)`. -/
def FairScheduler.submit (s : FairScheduler) (job : Job) : FairScheduler :=
  let s := s.register job.tenantId
  { s with queues := s.queues.set job.tenantId (s.queue job.tenantId ++ [job]) }

/-! ## A run -/

/-- What the inner loop works on. -/
structure Serving where
  queue : List Job
  deficit : Nat
  steps : Nat
  completed : List Job

/-- The inner loop: jobs run while the deficit covers them and steps are left. -/
def serve (maxSteps : Nat) : List Job → Nat → Nat → List Job → Serving
  | [], deficit, steps, completed => ⟨[], deficit, steps, completed⟩
  | job :: queue, deficit, steps, completed =>
      if job.cost ≤ deficit ∧ steps < maxSteps then
        serve maxSteps queue (deficit - job.cost) (steps + 1) (completed ++ [job])
      else ⟨job :: queue, deficit, steps, completed⟩

/-- A scheduler in a run, and the steps of the run. -/
structure Running extends FairScheduler where
  steps : Nat

/-- The run after the inner loop on the queue of a tenant; the deficit of an empty queue is reset. -/
def Running.served (r : Running) (tenant : Str) (out : Serving) : Running :=
  { r with
    queues := r.queues.set tenant out.queue
    deficit := r.deficit.set tenant (if out.queue.isEmpty then 0 else out.deficit)
    completed := out.completed
    steps := out.steps }

/-- The turn of a tenant. -/
def visit (maxSteps : Nat) (r : Running) (tenant : Str) : Running :=
  match r.queue tenant with
  | [] => r
  | job :: queue => r.served tenant
      (serve maxSteps (job :: queue) (r.credit tenant + r.quota tenant) r.steps r.completed)

/-- The turn of the first tenant of the round order, which goes to its end. -/
def turn (maxSteps : Nat) (r : Running) : Running :=
  match r.roundOrder with
  | [] => r
  | tenant :: order => visit maxSteps { r with roundOrder := order ++ [tenant] } tenant

/-- Some turns. -/
def turns (maxSteps : Nat) (r : Running) (n : Nat) : Running := (turn maxSteps)^[n] r

/-- The loop of `run_until_idle`, with a bound on its passes. A pass has progressed when it has taken
steps. -/
def runLoop (maxSteps : Nat) : Nat → Running → Option (FairScheduler × Except PyExn (List Job))
  | 0, _ => none
  | fuel + 1, r =>
      if r.roundOrder.all (fun tenant => (r.queue tenant).isEmpty) then
        some (r.toFairScheduler, .ok r.completed)
      else
        let r' := turns maxSteps r r.roundOrder.length
        if r'.steps = r.steps ∧ maxSteps ≤ r'.steps then
          some (r'.toFairScheduler, .error (contractError "scheduler exceeded max_steps"))
        else runLoop maxSteps fuel r'

/-- The cost of some jobs. -/
def costs (jobs : List Job) : Nat := (jobs.map Job.cost).sum

/-- What a tenant's deficit does not cover of its queue yet. -/
def FairScheduler.uncovered (s : FairScheduler) (tenant : Str) : Nat :=
  if (s.queue tenant).isEmpty then 0 else 1 + (costs (s.queue tenant) - s.credit tenant)

/-- What is not covered yet, over all tenants. -/
def FairScheduler.demand (s : FairScheduler) : Nat := (s.roundOrder.map s.uncovered).sum

/-- `run_until_idle(max_steps)`. Two passes are added to the demand for a run that is out of steps. -/
def FairScheduler.runUntilIdle (s : FairScheduler) (maxSteps : Nat) :
    Option (FairScheduler × Except PyExn (List Job)) :=
  if maxSteps < 1 then some (s, .error (contractError "max_steps must be a positive integer"))
  else runLoop maxSteps (s.demand + 2) ⟨s, 0⟩

/-- A call. -/
inductive Op where
  | setQuota (tenantId : Str) (quota : Int)
  | submit (job : Job)
  | run (maxSteps : Nat)

/-- The scheduler after a call. -/
def FairScheduler.step (s : FairScheduler) : Op → FairScheduler
  | .setQuota tenantId quota =>
      match s.setQuota tenantId quota with
      | .error _ => s
      | .ok s' => s'
  | .submit job => s.submit job
  | .run maxSteps => ((s.runUntilIdle maxSteps).map Prod.fst).getD s

/-- The scheduler after some calls. -/
def FairScheduler.after (s : FairScheduler) (ops : List Op) : FairScheduler := ops.foldl step s

/-- The jobs that some calls have submitted. -/
def submitted (ops : List Op) : List Job :=
  ops.filterMap fun
    | .submit job => some job
    | _ => none

/-! ## Sound runs -/

/-- The jobs of a tenant. -/
def jobsOf (tenant : Str) (jobs : List Job) : List Job :=
  jobs.filter fun job => decide (job.tenantId = tenant)

/-- The queued jobs. -/
def FairScheduler.queued (s : FairScheduler) : List Job := s.roundOrder.flatMap s.queue

/-- The visits of a tenant in `n` turns. -/
def visits (maxSteps : Nat) (r : Running) (tenant : Str) (n : Nat) : Nat :=
  Nat.count (fun i => (turns maxSteps r i).roundOrder.head? = some tenant) n

/-- The largest cost in a queue. -/
def largest (jobs : List Job) : Nat := (jobs.map Job.cost).foldr max 0

/-- The tenant has jobs in its queue after each of the first `n` turns, and before them, and steps are
left. -/
def Backlogged (maxSteps : Nat) (r : Running) (tenant : Str) (n : Nat) : Prop :=
  (∀ i ≤ n, (turns maxSteps r i).queue tenant ≠ []) ∧ (turns maxSteps r n).steps < maxSteps

/-- A run loses nothing, and a tenant that stays backlogged is served what is due to it up to one job; so
two of them can be compared over the same number of rounds. -/
structure RunSound (jobs : List Job) (s : FairScheduler) (maxSteps : Nat) (after : FairScheduler)
    (result : Except PyExn (List Job)) : Prop where
  conserved : (after.completed ++ after.queued).Perm jobs
  ordered : ∀ tenant, jobsOf tenant after.completed ++ after.queue tenant = jobsOf tenant jobs
  raises : (∃ x, result = .error x) ↔ maxSteps < s.queued.length
  ran : ∀ x, result = .error x → ∃ new, after.completed = s.completed ++ new ∧ new.length = maxSteps
  returned : ∀ out, result = .ok out → out = after.completed ∧ after.queued = []
  turned : ∃ n, after = (turns maxSteps ⟨s, 0⟩ n).toFairScheduler
  fair : ∀ i n tenant, Backlogged maxSteps (turns maxSteps ⟨s, 0⟩ i) tenant n →
    let r := turns maxSteps ⟨s, 0⟩ i
    ∃ new, (turns maxSteps r n).completed = r.completed ++ new ∧
      let due := r.credit tenant + visits maxSteps r tenant n * r.quota tenant
      costs (jobsOf tenant new) ≤ due ∧ (1 ≤ visits maxSteps r tenant n →
        due < costs (jobsOf tenant new) + largest (r.queue tenant))
  compared : ∀ i k tenant other, 1 ≤ k →
    Backlogged maxSteps (turns maxSteps ⟨s, 0⟩ i) tenant (k * s.roundOrder.length) →
      Backlogged maxSteps (turns maxSteps ⟨s, 0⟩ i) other (k * s.roundOrder.length) →
        let r := turns maxSteps ⟨s, 0⟩ i
        ∃ new, (turns maxSteps r (k * s.roundOrder.length)).completed = r.completed ++ new ∧
          costs (jobsOf tenant new) + r.credit other + k * r.quota other <
            costs (jobsOf other new) + largest (r.queue other) + r.credit tenant + k * r.quota tenant

theorem costs_append (xs ys : List Job) : costs (xs ++ ys) = costs xs + costs ys := by
  rw [costs, List.map_append, List.sum_append, costs, costs]

theorem jobsOf_append (tenant : Str) (xs ys : List Job) :
    jobsOf tenant (xs ++ ys) = jobsOf tenant xs ++ jobsOf tenant ys := List.filter_append ..

/-! ## One turn -/

theorem serve_spec (maxSteps : Nat) (queue : List Job) (deficit steps : Nat) (completed : List Job) :
    ∃ served, let out := serve maxSteps queue deficit steps completed
      queue = served ++ out.queue ∧ deficit = costs served + out.deficit ∧
      out.completed = completed ++ served ∧ out.steps = steps + served.length ∧
      (steps ≤ maxSteps → out.steps ≤ maxSteps) ∧
      (∀ job rest, out.queue = job :: rest → out.steps < maxSteps → out.deficit < job.cost) := by
  induction queue generalizing deficit steps completed with
  | nil => exact ⟨[], rfl, by simp [serve, costs], by simp [serve], rfl, id, nofun⟩
  | cons job queue ih =>
      rw [serve]
      by_cases hgo : job.cost ≤ deficit ∧ steps < maxSteps
      · rw [if_pos hgo]
        obtain ⟨served, hq, hd, hc, hs, hle, hstop⟩ :=
          ih (deficit - job.cost) (steps + 1) (completed ++ [job])
        refine ⟨job :: served, ?_, ?_, ?_, ?_, fun _ => hle hgo.2, hstop⟩
        · rw [List.cons_append, ← hq]
        · rw [costs, List.map_cons, List.sum_cons, ← costs]
          omega
        · rw [hc, List.append_assoc, List.singleton_append]
        · rw [hs, List.length_cons]
          omega
      · rw [if_neg hgo]
        refine ⟨[], rfl, by simp [costs], by simp, rfl, id, ?_⟩
        intro job' rest heq hlt
        cases heq
        exact not_le.1 fun hle => hgo ⟨hle, hlt⟩

/-- What the turn of a tenant does: some jobs from the front of its queue are served. -/
structure Visited (maxSteps : Nat) (r : Running) (tenant : Str) (served : List Job) (r' : Running) :
    Prop where
  queue : r.queue tenant = served ++ r'.queue tenant
  credit : r'.queue tenant ≠ [] →
    r.credit tenant + r.quota tenant = costs served + r'.credit tenant
  completed : r'.completed = r.completed ++ served
  steps : r'.steps = r.steps + served.length
  bounded : r.steps ≤ maxSteps → r'.steps ≤ maxSteps
  stopped : ∀ job rest, r'.queue tenant = job :: rest → r'.steps < maxSteps →
    r'.credit tenant < job.cost
  others : ∀ other, other ≠ tenant →
    r'.queue other = r.queue other ∧ r'.credit other = r.credit other
  quota : ∀ other, r'.quota other = r.quota other
  keys : ∀ other, other ∈ r'.queues.keys ↔ other ∈ r.queues.keys

theorem queue_of_notMem {s : FairScheduler} {tenant : Str} (h : tenant ∉ s.queues.keys) :
    s.queue tenant = [] := by
  rw [FairScheduler.queue, Dict.get?_eq_none_iff.2 h]
  rfl

theorem visit_roundOrder (maxSteps : Nat) (r : Running) (tenant : Str) :
    (visit maxSteps r tenant).roundOrder = r.roundOrder := by
  rw [visit]
  split <;> rfl

theorem queue_served (r : Running) (tenant other : Str) (out : Serving) :
    (r.served tenant out).queue other = if other = tenant then out.queue else r.queue other := by
  rw [FairScheduler.queue, Running.served, Dict.get?_set]
  split <;> rfl

theorem credit_served (r : Running) (tenant other : Str) (out : Serving) :
    (r.served tenant out).credit other =
      if other = tenant then (if out.queue.isEmpty then 0 else out.deficit) else r.credit other := by
  rw [FairScheduler.credit, Running.served, Dict.get?_set]
  split <;> rfl

theorem visit_spec (maxSteps : Nat) (r : Running) (tenant : Str) :
    ∃ served, Visited maxSteps r tenant served (visit maxSteps r tenant) := by
  rw [visit]
  split
  · rename_i hnil
    refine ⟨[], rfl, fun h => absurd hnil h, by simp, rfl, id, fun job rest h => ?_,
      fun _ _ => ⟨rfl, rfl⟩, fun _ => rfl, fun _ => Iff.rfl⟩
    rw [hnil] at h
    cases h
  · rename_i job queue hcons
    obtain ⟨served, hq, hd, hc, hs, hle, hstop⟩ := serve_spec maxSteps (job :: queue)
      (r.credit tenant + r.quota tenant) r.steps r.completed
    generalize serve maxSteps (job :: queue) (r.credit tenant + r.quota tenant) r.steps r.completed = out
      at hq hd hc hs hle hstop
    have hkey : tenant ∈ r.queues.keys := by
      by_contra h
      rw [queue_of_notMem h] at hcons
      cases hcons
    have hqueue : (r.served tenant out).queue tenant = out.queue := by rw [queue_served, if_pos rfl]
    have hcredit : out.queue ≠ [] → (r.served tenant out).credit tenant = out.deficit := by
      intro h
      rw [credit_served, if_pos rfl, if_neg (mt List.isEmpty_iff.1 h)]
    refine ⟨served, ?_, fun hne => ?_, hc, hs, hle, fun job' rest hq' hlt => ?_, fun other hne => ?_,
      fun _ => rfl, fun other => ?_⟩
    · rw [hcons, hqueue]
      exact hq
    · rw [hqueue] at hne
      rw [hcredit hne]
      exact hd
    · rw [hqueue] at hq'
      rw [hcredit (by rw [hq']; exact List.cons_ne_nil _ _)]
      exact hstop job' rest hq' hlt
    · rw [queue_served, credit_served, if_neg hne, if_neg hne]
      exact ⟨rfl, rfl⟩
    · rw [Running.served, Dict.mem_keys_set]
      exact or_iff_right_of_imp fun h => h ▸ hkey

/-! ## The invariant -/

/-- Each tenant with queued jobs is registered once, the jobs of a queue are its tenant's, and completed
and queued jobs of a tenant are those it has submitted, in order. -/
structure Conserved (jobs : List Job) (s : FairScheduler) : Prop where
  nodup : s.roundOrder.Nodup
  registered : ∀ tenant, tenant ∈ s.roundOrder ↔ tenant ∈ s.queues.keys
  owned : ∀ tenant, ∀ job ∈ s.queue tenant, job.tenantId = tenant
  ordered : ∀ tenant, jobsOf tenant s.completed ++ s.queue tenant = jobsOf tenant jobs

theorem quota_positive (s : FairScheduler) (tenant : Str) : 1 ≤ s.quota tenant := by
  rw [FairScheduler.quota]
  cases h : s.quotas.get? tenant with
  | none => exact le_refl 1
  | some quota => exact s.quotasPositive tenant quota h

theorem jobsOf_eq_self {tenant : Str} {jobs : List Job} (h : ∀ job ∈ jobs, job.tenantId = tenant) :
    jobsOf tenant jobs = jobs :=
  List.filter_eq_self.2 fun job hjob => decide_eq_true (h job hjob)

theorem jobsOf_eq_nil {tenant other : Str} (hne : other ≠ tenant) {jobs : List Job}
    (h : ∀ job ∈ jobs, job.tenantId = tenant) : jobsOf other jobs = [] :=
  List.filter_eq_nil_iff.2 fun job hjob => by simp [h job hjob, hne.symm]

theorem Conserved.visited {jobs : List Job} {maxSteps : Nat} {r r' : Running} {tenant : Str}
    {served : List Job} (h : Conserved jobs r.toFairScheduler) (hv : Visited maxSteps r tenant served r')
    (horder : r'.roundOrder.Perm r.roundOrder) : Conserved jobs r'.toFairScheduler := by
  have hserved : ∀ job ∈ served, job.tenantId = tenant := fun job hjob =>
    h.owned tenant job (hv.queue ▸ List.mem_append_left _ hjob)
  refine ⟨horder.nodup_iff.2 h.nodup, fun other => ?_, fun other job hjob => ?_, fun other => ?_⟩
  · rw [hv.keys, horder.mem_iff]
    exact h.registered other
  · by_cases hother : other = tenant
    · subst hother
      exact h.owned other job (hv.queue ▸ List.mem_append_right _ hjob)
    · rw [(hv.others other hother).1] at hjob
      exact h.owned other job hjob
  · rw [hv.completed, jobsOf_append, ← h.ordered other]
    by_cases hother : other = tenant
    · subst hother
      rw [jobsOf_eq_self hserved, hv.queue, List.append_assoc]
    · rw [jobsOf_eq_nil hother hserved, (hv.others other hother).1, List.append_nil]

theorem turn_spec (maxSteps : Nat) {r : Running} {tenant : Str} {order : List Str}
    (h : r.roundOrder = tenant :: order) :
    ∃ served, Visited maxSteps r tenant served (turn maxSteps r) ∧
      (turn maxSteps r).roundOrder = order ++ [tenant] := by
  rw [turn, h]
  obtain ⟨served, hv⟩ := visit_spec maxSteps { r with roundOrder := order ++ [tenant] } tenant
  exact ⟨served, ⟨hv.queue, hv.credit, hv.completed, hv.steps, hv.bounded, hv.stopped, hv.others,
    hv.quota, hv.keys⟩, visit_roundOrder _ _ _⟩

theorem turn_of_nil {maxSteps : Nat} {r : Running} (h : r.roundOrder = []) : turn maxSteps r = r := by
  rw [turn, h]

theorem turns_succ (maxSteps : Nat) (r : Running) (n : Nat) :
    turns maxSteps r (n + 1) = turn maxSteps (turns maxSteps r n) := Function.iterate_succ_apply' _ _ _

theorem turns_add (maxSteps : Nat) (r : Running) (m n : Nat) :
    turns maxSteps r (m + n) = turns maxSteps (turns maxSteps r m) n := by
  rw [turns, Nat.add_comm, Function.iterate_add_apply]
  rfl

theorem turn_rotates (maxSteps : Nat) (r : Running) :
    (turn maxSteps r).roundOrder = r.roundOrder.rotate 1 := by
  cases h : r.roundOrder with
  | nil => rw [turn_of_nil h, h, List.rotate_nil]
  | cons tenant order =>
      obtain ⟨served, -, hrot⟩ := turn_spec maxSteps h
      rw [hrot, List.rotate_cons_succ, List.rotate_zero]

theorem turns_rotates (maxSteps : Nat) (r : Running) (n : Nat) :
    (turns maxSteps r n).roundOrder = r.roundOrder.rotate n := by
  induction n with
  | zero => exact (List.rotate_zero _).symm
  | succ n ih => rw [turns_succ, turn_rotates, ih, List.rotate_rotate]

/-- What a turn keeps: the account, and what it adds to the completed jobs are its steps. -/
theorem turn_keeps {jobs : List Job} (maxSteps : Nat) {r : Running}
    (h : Conserved jobs r.toFairScheduler) :
    Conserved jobs (turn maxSteps r).toFairScheduler ∧
      (∀ tenant, (turn maxSteps r).quota tenant = r.quota tenant) ∧
      (r.steps ≤ maxSteps → (turn maxSteps r).steps ≤ maxSteps) ∧
      ∃ new, (turn maxSteps r).completed = r.completed ++ new ∧
        (turn maxSteps r).steps = r.steps + new.length := by
  cases horder : r.roundOrder with
  | nil =>
      rw [turn_of_nil horder]
      exact ⟨h, fun _ => rfl, id, [], (List.append_nil _).symm, rfl⟩
  | cons tenant order =>
      obtain ⟨served, hv, hrot⟩ := turn_spec maxSteps horder
      have hperm : (turn maxSteps r).roundOrder.Perm r.roundOrder := by
        rw [turn_rotates]
        exact List.rotate_perm _ _
      exact ⟨h.visited hv hperm, hv.quota, hv.bounded, served, hv.completed, hv.steps⟩

theorem turns_keeps {jobs : List Job} (maxSteps : Nat) {r : Running}
    (h : Conserved jobs r.toFairScheduler) (n : Nat) :
    Conserved jobs (turns maxSteps r n).toFairScheduler ∧
      (∀ tenant, (turns maxSteps r n).quota tenant = r.quota tenant) ∧
      (r.steps ≤ maxSteps → (turns maxSteps r n).steps ≤ maxSteps) ∧
      ∃ new, (turns maxSteps r n).completed = r.completed ++ new ∧
        (turns maxSteps r n).steps = r.steps + new.length := by
  induction n with
  | zero => exact ⟨h, fun _ => rfl, id, [], (List.append_nil _).symm, rfl⟩
  | succ n ih =>
      obtain ⟨hacc, hquota, hle, new, hnew, hsteps⟩ := ih
      obtain ⟨hacc', hquota', hle', new', hnew', hsteps'⟩ := turn_keeps maxSteps hacc
      rw [turns_succ]
      refine ⟨hacc', fun t => (hquota' t).trans (hquota t), fun h => hle' (hle h), new ++ new', ?_, ?_⟩
      · rw [hnew', hnew, List.append_assoc]
      · rw [hsteps', hsteps, List.length_append, Nat.add_assoc]

/-! ## Fairness -/

theorem cost_le_largest {jobs : List Job} {job : Job} (h : job ∈ jobs) : job.cost ≤ largest jobs := by
  induction jobs with
  | nil => cases h
  | cons j jobs ih =>
      rw [largest, List.map_cons, List.foldr_cons]
      rcases List.mem_cons.1 h with rfl | h
      · exact le_max_left _ _
      · exact (ih h).trans (le_max_right _ _)

theorem visits_succ (maxSteps : Nat) (r : Running) (tenant : Str) (n : Nat) :
    visits maxSteps r tenant (n + 1) = visits maxSteps r tenant n +
      if (turns maxSteps r n).roundOrder.head? = some tenant then 1 else 0 := Nat.count_succ _ _

theorem visits_rounds (maxSteps : Nat) {r : Running} (hnd : r.roundOrder.Nodup) {tenant : Str}
    (hmem : tenant ∈ r.roundOrder) (k : Nat) :
    visits maxSteps r tenant (k * r.roundOrder.length) = k := by
  have hlen : 0 < r.roundOrder.length := List.length_pos_of_mem hmem
  have hhead : ∀ i, (turns maxSteps r i).roundOrder.head? = some tenant ↔
      i ≡ r.roundOrder.idxOf tenant [MOD r.roundOrder.length] := by
    intro i
    have hidx := List.idxOf_lt_length_of_mem hmem
    rw [turns_rotates, ← List.rotate_mod, List.head?_rotate (Nat.mod_lt _ hlen), Nat.ModEq,
      Nat.mod_eq_of_lt hidx, List.getElem?_eq_some_iff]
    constructor
    · rintro ⟨hlt, heq⟩
      rw [← List.getElem_idxOf hidx] at heq
      exact (hnd.getElem_inj_iff).1 heq
    · intro heq
      refine ⟨Nat.mod_lt _ hlen, ?_⟩
      simp only [heq, List.getElem_idxOf hidx]
  have hcount : visits maxSteps r tenant (k * r.roundOrder.length) =
      Nat.count (· ≡ r.roundOrder.idxOf tenant [MOD r.roundOrder.length])
        (k * r.roundOrder.length) := by
    simp only [visits, hhead]
  rw [hcount, Nat.count_modEq_card _ hlen, Nat.mul_mod_left, Nat.mul_div_cancel _ hlen]
  simp

/-- What a backlogged tenant has been served and what is left of its deficit are its deficit and its
quotas; after a visit, what is left does not cover the next job. -/
theorem backlogged_account {jobs : List Job} {maxSteps : Nat} {r : Running} {tenant : Str}
    (hacc : Conserved jobs r.toFairScheduler) (n : Nat) (h : Backlogged maxSteps r tenant n) :
    ∃ new, (turns maxSteps r n).completed = r.completed ++ new ∧
      costs (jobsOf tenant new) + (turns maxSteps r n).credit tenant =
        r.credit tenant + visits maxSteps r tenant n * r.quota tenant ∧
      (turns maxSteps r n).queue tenant <:+ r.queue tenant ∧
      (1 ≤ visits maxSteps r tenant n → ∀ job rest, (turns maxSteps r n).queue tenant = job :: rest →
        (turns maxSteps r n).credit tenant < job.cost) := by
  induction n with
  | zero =>
      refine ⟨[], (List.append_nil _).symm, ?_, List.suffix_rfl, fun hv => ?_⟩
      · rw [visits, Nat.count_zero, Nat.zero_mul]
        exact Nat.zero_add _
      · rw [visits, Nat.count_zero] at hv
        omega
  | succ n ih =>
      obtain ⟨hqueues, hleft⟩ := h
      have hlast := hqueues (n + 1) (le_refl _)
      have hkeeps := turns_keeps maxSteps hacc n
      obtain ⟨-, -, -, more, -, hmore⟩ := turn_keeps maxSteps hkeeps.1
      have hquota := hkeeps.2.1 tenant
      rw [turns_succ] at hleft hlast ⊢
      obtain ⟨new, hnew, hsum, hsuffix, hstop⟩ := ih ⟨fun i hi => hqueues i (by omega), by omega⟩
      rw [visits_succ]
      cases horder : (turns maxSteps r n).roundOrder with
      | nil =>
          rw [turn_of_nil horder]
          exact ⟨new, hnew, by simpa using hsum, hsuffix, by simpa using hstop⟩
      | cons head order =>
          obtain ⟨served, hv, -⟩ := turn_spec maxSteps horder
          have howned : ∀ job ∈ served, job.tenantId = head := fun job hjob =>
            hkeeps.1.owned head job (hv.queue ▸ List.mem_append_left _ hjob)
          refine ⟨new ++ served, by rw [hv.completed, hnew, List.append_assoc], ?_⟩
          rw [jobsOf_append, costs_append, List.head?_cons]
          by_cases hhead : head = tenant
          · subst hhead
            rw [if_pos rfl, jobsOf_eq_self howned, Nat.add_mul, Nat.one_mul]
            have hcredit := hv.credit hlast
            rw [hquota] at hcredit
            exact ⟨by omega, (hv.queue ▸ List.suffix_append _ _).trans hsuffix,
              fun _ job rest heq => hv.stopped job rest heq hleft⟩
          · obtain ⟨hsame, hcredit⟩ := hv.others tenant (Ne.symm hhead)
            rw [if_neg fun h => hhead (Option.some.inj h), jobsOf_eq_nil (Ne.symm hhead) howned, hsame, hcredit, Nat.add_zero]
            exact ⟨by simpa [costs] using hsum, hsuffix, hstop⟩

/-- A backlogged tenant is served its deficit and its quotas, up to one job. -/
theorem backlogged_fair {jobs : List Job} {maxSteps : Nat} {r : Running} {tenant : Str}
    (hacc : Conserved jobs r.toFairScheduler) {n : Nat} (h : Backlogged maxSteps r tenant n) :
    ∃ new, (turns maxSteps r n).completed = r.completed ++ new ∧
      let due := r.credit tenant + visits maxSteps r tenant n * r.quota tenant
      costs (jobsOf tenant new) ≤ due ∧ (1 ≤ visits maxSteps r tenant n →
        due < costs (jobsOf tenant new) + largest (r.queue tenant)) := by
  obtain ⟨new, hnew, hsum, hsuffix, hstop⟩ := backlogged_account hacc n h
  refine ⟨new, hnew, by omega, fun hv => ?_⟩
  obtain ⟨job, rest, hcons⟩ := List.exists_cons_of_ne_nil (h.1 n (le_refl n))
  have hlt := hstop hv job rest hcons
  have hle := cost_le_largest (hsuffix.subset (hcons ▸ List.mem_cons_self))
  omega

theorem backlogged_compared {jobs : List Job} {maxSteps : Nat} {r : Running} {tenant other : Str}
    (hacc : Conserved jobs r.toFairScheduler) {k : Nat} (hk : 1 ≤ k)
    (ht : Backlogged maxSteps r tenant (k * r.roundOrder.length))
    (ho : Backlogged maxSteps r other (k * r.roundOrder.length)) :
    ∃ new, (turns maxSteps r (k * r.roundOrder.length)).completed = r.completed ++ new ∧
      costs (jobsOf tenant new) + r.credit other + k * r.quota other <
        costs (jobsOf other new) + largest (r.queue other) + r.credit tenant + k * r.quota tenant := by
  have hmem : ∀ t, Backlogged maxSteps r t (k * r.roundOrder.length) → t ∈ r.roundOrder := by
    intro t h
    by_contra hout
    exact h.1 0 (Nat.zero_le _) (queue_of_notMem fun hkey => hout ((hacc.registered t).2 hkey))
  obtain ⟨new, hnew, hle, -⟩ := backlogged_fair hacc ht
  obtain ⟨new', hnew', -, hlt⟩ := backlogged_fair hacc ho
  cases List.append_cancel_left (hnew.symm.trans hnew')
  rw [visits_rounds maxSteps hacc.nodup (hmem _ ho) k] at hlt
  rw [visits_rounds maxSteps hacc.nodup (hmem _ ht) k] at hle
  have hlt := hlt hk
  exact ⟨new, hnew, by omega⟩

/-! ## Termination -/

theorem uncovered_congr {s s' : FairScheduler} {tenant : Str} (hq : s'.queue tenant = s.queue tenant)
    (hc : s'.credit tenant = s.credit tenant) : s'.uncovered tenant = s.uncovered tenant := by
  rw [FairScheduler.uncovered, FairScheduler.uncovered, hq, hc]

theorem uncovered_of_nil {s : FairScheduler} {tenant : Str} (h : s.queue tenant = []) :
    s.uncovered tenant = 0 := by
  rw [FairScheduler.uncovered, h]
  rfl

theorem uncovered_of_ne {s : FairScheduler} {tenant : Str} (h : s.queue tenant ≠ []) :
    s.uncovered tenant = 1 + (costs (s.queue tenant) - s.credit tenant) :=
  if_neg (mt List.isEmpty_iff.1 h)

/-- The turn of a tenant with queued jobs covers more of its queue. -/
theorem Visited.uncovered_lt {maxSteps : Nat} {r r' : Running} {tenant : Str} {served : List Job}
    (hv : Visited maxSteps r tenant served r') (hleft : r'.steps < maxSteps)
    (hne : r.queue tenant ≠ []) : r'.uncovered tenant < r.uncovered tenant := by
  rw [uncovered_of_ne hne]
  by_cases hnil : r'.queue tenant = []
  · rw [uncovered_of_nil hnil]
    omega
  · rw [uncovered_of_ne hnil, hv.queue, costs_append]
    obtain ⟨job, rest, hcons⟩ := List.exists_cons_of_ne_nil hnil
    have hlt := hv.stopped job rest hcons hleft
    have hcredit := hv.credit hnil
    have hquota := quota_positive r.toFairScheduler tenant
    have hcosts : costs (r'.queue tenant) = job.cost + costs rest := by
      rw [hcons, costs, List.map_cons, List.sum_cons, ← costs]
    omega

theorem demand_turn (maxSteps : Nat) {r : Running} {tenant : Str} {order : List Str}
    (hnd : r.roundOrder.Nodup) (h : r.roundOrder = tenant :: order)
    (hleft : (turn maxSteps r).steps < maxSteps) :
    (turn maxSteps r).demand ≤ r.demand ∧
      (r.queue tenant ≠ [] → (turn maxSteps r).demand < r.demand) := by
  obtain ⟨served, hv, hrot⟩ := turn_spec maxSteps h
  rw [h] at hnd
  have hothers : order.map (turn maxSteps r).uncovered = order.map r.uncovered := by
    refine List.map_congr_left fun other hother => ?_
    have hne : other ≠ tenant := fun heq => (List.nodup_cons.1 hnd).1 (heq ▸ hother)
    exact uncovered_congr (hv.others other hne).1 (hv.others other hne).2
  rw [FairScheduler.demand, FairScheduler.demand, hrot, h, List.map_append, hothers, List.sum_append,
    List.map_cons, List.sum_cons, List.map_nil, List.sum_nil, List.map_cons, List.sum_cons]
  by_cases hne : r.queue tenant = []
  · have hnil := hv.queue
    rw [hne] at hnil
    rw [uncovered_of_nil (List.append_eq_nil_iff.1 hnil.symm).2, uncovered_of_nil hne]
    exact ⟨by omega, fun h => absurd hne h⟩
  · have hlt := hv.uncovered_lt hleft hne
    exact ⟨by omega, fun _ => by omega⟩

/-- The turns of some tenants lower the demand if one of them has queued jobs. -/
theorem demand_turns {jobs : List Job} {maxSteps : Nat} (ts us : List Str) {r : Running}
    (hacc : Conserved jobs r.toFairScheduler) (h : r.roundOrder = ts ++ us)
    (hleft : (turns maxSteps r ts.length).steps < maxSteps) :
    (turns maxSteps r ts.length).demand ≤ r.demand ∧
      ((∃ t ∈ ts, r.queue t ≠ []) → (turns maxSteps r ts.length).demand < r.demand) := by
  induction ts generalizing us r with
  | nil => exact ⟨le_refl _, nofun⟩
  | cons tenant ts ih =>
      have hacc' := (turn_keeps maxSteps hacc).1
      have hsplit : turns maxSteps r (ts.length + 1) = turns maxSteps (turn maxSteps r) ts.length :=
        Function.iterate_succ_apply _ _ _
      rw [List.length_cons, hsplit] at hleft ⊢
      obtain ⟨served, hv, hrot⟩ := turn_spec maxSteps h
      rw [List.append_eq, List.append_assoc] at hrot
      obtain ⟨-, -, -, new, -, hnew⟩ := turns_keeps maxSteps hacc' ts.length
      obtain ⟨hle, hlt⟩ := demand_turn maxSteps hacc.nodup h (by omega)
      obtain ⟨hle', hlt'⟩ := ih (us ++ [tenant]) hacc' hrot hleft
      refine ⟨hle'.trans hle, ?_⟩
      rintro ⟨t, ht, hne⟩
      by_cases htenant : r.queue tenant = []
      · rcases List.mem_cons.1 ht with rfl | ht
        · exact absurd htenant hne
        · have hother : t ≠ tenant := fun heq => hne (heq ▸ htenant)
          exact (hlt' ⟨t, ht, by rwa [(hv.others t hother).1]⟩).trans_le hle
      · exact hle'.trans_lt (hlt htenant)

theorem all_empty_iff {s : FairScheduler} :
    s.roundOrder.all (fun tenant => (s.queue tenant).isEmpty) = true ↔ s.queued = [] := by
  simp [FairScheduler.queued]

/-- A loop that is out of steps ends after one more pass. -/
theorem runLoop_of_out {jobs : List Job} {maxSteps : Nat} (n : Nat) {r : Running}
    (hacc : Conserved jobs r.toFairScheduler) (hout : r.steps = maxSteps) :
    (runLoop maxSteps (n + 1) r).isSome = true := by
  rw [runLoop]
  split
  · rfl
  · obtain ⟨-, -, hbound, new, -, hnew⟩ := turns_keeps maxSteps hacc r.roundOrder.length
    have hle := hbound (by omega)
    rw [if_pos (by omega)]
    rfl

theorem runLoop_isSome_of_pass {jobs : List Job} {maxSteps : Nat} (n : Nat) {r : Running}
    (hacc : Conserved jobs r.toFairScheduler) (hle : r.steps ≤ maxSteps)
    (hnext : (turns maxSteps r r.roundOrder.length).demand < r.demand →
      (turns maxSteps r r.roundOrder.length).steps ≤ maxSteps →
        (runLoop maxSteps (n + 1) (turns maxSteps r r.roundOrder.length)).isSome = true) :
    (runLoop maxSteps (n + 2) r).isSome = true := by
  rw [runLoop]
  by_cases hall : r.roundOrder.all (fun tenant => (r.queue tenant).isEmpty) = true
  · rw [if_pos hall]
    rfl
  · rw [if_neg hall]
    show (if _ then _ else _ : Option _).isSome = true
    split
    · rfl
    · obtain ⟨hacc', -, hbound, -⟩ := turns_keeps maxSteps hacc r.roundOrder.length
      rcases (hbound hle).lt_or_eq with hlt | heq
      · refine hnext ?_ hlt.le
        refine (demand_turns r.roundOrder [] hacc (List.append_nil _).symm hlt).2 ?_
        by_contra hno
        push Not at hno
        exact hall (List.all_eq_true.2 fun t ht => List.isEmpty_iff.2 (hno t ht))
      · exact runLoop_of_out n hacc' heq

theorem runLoop_isSome {jobs : List Job} (maxSteps : Nat) (n : Nat) {r : Running}
    (hacc : Conserved jobs r.toFairScheduler) (hle : r.steps ≤ maxSteps) (hn : r.demand ≤ n) :
    (runLoop maxSteps (n + 2) r).isSome = true := by
  induction n generalizing r with
  | zero => exact runLoop_isSome_of_pass 0 hacc hle fun hlt => absurd hlt (by omega)
  | succ n ih =>
      exact runLoop_isSome_of_pass (n + 1) hacc hle fun hlt hle' =>
        ih (turns_keeps maxSteps hacc r.roundOrder.length).1 hle' (by omega)

/-! ## Runs -/

/-- A run ends after some turns: with empty queues, or out of steps with jobs left. -/
theorem runLoop_cases {jobs : List Job} {maxSteps : Nat} (fuel : Nat) {r : Running}
    (hacc : Conserved jobs r.toFairScheduler) {out : FairScheduler × Except PyExn (List Job)}
    (h : runLoop maxSteps fuel r = some out) :
    ∃ n, out.1 = (turns maxSteps r n).toFairScheduler ∧
      ((out.2 = .ok (turns maxSteps r n).completed ∧ out.1.queued = []) ∨
        (∃ x, out.2 = .error x) ∧ maxSteps ≤ (turns maxSteps r n).steps ∧ out.1.queued ≠ []) := by
  induction fuel generalizing r with
  | zero => cases h
  | succ fuel ih =>
      rw [runLoop] at h
      by_cases hall : r.roundOrder.all (fun tenant => (r.queue tenant).isEmpty) = true
      · rw [if_pos hall] at h
        cases h
        exact ⟨0, rfl, .inl ⟨rfl, all_empty_iff.1 hall⟩⟩
      · rw [if_neg hall] at h
        obtain ⟨hacc', -, -, new, hnew, hsteps⟩ :=
          turns_keeps maxSteps hacc r.roundOrder.length
        by_cases hstop : (turns maxSteps r r.roundOrder.length).steps = r.steps ∧
            maxSteps ≤ (turns maxSteps r r.roundOrder.length).steps
        · replace h := (if_pos hstop).symm.trans h
          cases h
          refine ⟨r.roundOrder.length, rfl, .inr ⟨⟨_, rfl⟩, hstop.2, fun hnil => hall ?_⟩⟩
          -- a pass without steps leaves the queues
          have hnone : new = [] := List.eq_nil_of_length_eq_zero (by omega)
          rw [hnone, List.append_nil] at hnew
          rw [List.all_eq_true]
          intro tenant _
          have hsame := (hacc'.ordered tenant).trans (hacc.ordered tenant).symm
          rw [hnew] at hsame
          rw [← List.append_cancel_left hsame, List.isEmpty_iff]
          by_contra hne
          refine hne (queue_of_notMem fun hkey => hne ?_)
          exact List.flatMap_eq_nil_iff.1 hnil tenant ((hacc'.registered tenant).2 hkey)
        · replace h := (if_neg hstop).symm.trans h
          obtain ⟨n, hn, hcases⟩ := ih hacc' h
          rw [← turns_add] at hn hcases
          exact ⟨_, hn, hcases⟩

theorem jobsOf_flatMap {jobs : List Job} {s : FairScheduler} (h : Conserved jobs s) (tenant : Str)
    {order : List Str} (hnd : order.Nodup) :
    jobsOf tenant (order.flatMap s.queue) = if tenant ∈ order then s.queue tenant else [] := by
  induction order with
  | nil => rfl
  | cons t order ih =>
      obtain ⟨hout, hnd⟩ := List.nodup_cons.1 hnd
      rw [List.flatMap_cons, jobsOf_append, ih hnd]
      by_cases ht : tenant = t
      · subst ht
        rw [jobsOf_eq_self (h.owned tenant), if_neg hout, List.append_nil,
          if_pos List.mem_cons_self]
      · rw [jobsOf_eq_nil ht (h.owned t), List.nil_append]
        simp [ht]

theorem jobsOf_queued {jobs : List Job} {s : FairScheduler} (h : Conserved jobs s) (tenant : Str) :
    jobsOf tenant s.queued = s.queue tenant := by
  rw [FairScheduler.queued, jobsOf_flatMap h tenant h.nodup]
  split
  · rfl
  · rename_i hout
    exact (queue_of_notMem fun hkey => hout ((h.registered tenant).2 hkey)).symm

theorem Conserved.conserved {jobs : List Job} {s : FairScheduler} (h : Conserved jobs s) :
    (s.completed ++ s.queued).Perm jobs := by
  rw [List.perm_iff_count]
  intro job
  have hcount : ∀ l : List Job, (jobsOf job.tenantId l).count job = l.count job := fun l =>
    List.count_filter (by simp)
  rw [← hcount jobs, ← h.ordered, ← jobsOf_queued h, ← jobsOf_append, hcount]

/-- A run that starts with the account in order is sound. -/
theorem runUntilIdle_sound {jobs : List Job} {s : FairScheduler} {maxSteps : Nat} (hmax : 1 ≤ maxSteps)
    (hacc : Conserved jobs s) : ∃ after result, s.runUntilIdle maxSteps = some (after, result) ∧
      RunSound jobs s maxSteps after result := by
  obtain ⟨⟨after, result⟩, hout⟩ := Option.isSome_iff_exists.1
    (runLoop_isSome maxSteps s.demand (r := ⟨s, 0⟩) hacc (Nat.zero_le _) (le_refl _))
  obtain ⟨n, hafter, hcases⟩ := runLoop_cases (s.demand + 2) (r := ⟨s, 0⟩) hacc hout
  obtain ⟨hacc', -, hbound, new, hnew, hsteps⟩ :=
    turns_keeps maxSteps (r := ⟨s, 0⟩) hacc n
  rw [← hafter] at hacc' hnew
  replace hbound := hbound (Nat.zero_le _)
  dsimp only at hafter hcases hacc' hnew
  change (turns maxSteps ⟨s, 0⟩ n).steps = 0 + new.length at hsteps
  have hlength : s.queued.length = new.length + after.queued.length := by
    have hall := hacc'.conserved.length_eq.trans hacc.conserved.length_eq.symm
    rw [hnew, List.length_append, List.length_append, List.length_append] at hall
    omega
  refine ⟨after, result, ?_, hacc'.conserved, hacc'.ordered, ?_, ?_, ?_, ⟨n, hafter⟩, ?_, ?_⟩
  · rw [FairScheduler.runUntilIdle, if_neg (by omega)]
    exact hout
  · rcases hcases with ⟨hok, hnil⟩ | ⟨herror, hleft, hne⟩
    · have hzero : after.queued.length = 0 := congrArg List.length hnil
      refine ⟨fun ⟨x, hx⟩ => ?_, fun hlt => ?_⟩
      · rw [hok] at hx
        cases hx
      · omega
    · have hpos := List.length_pos_iff.2 hne
      exact ⟨fun _ => by omega, fun _ => herror⟩
  · rintro x hx
    rcases hcases with ⟨hok, -⟩ | ⟨-, hleft, -⟩
    · rw [hok] at hx
      cases hx
    · exact ⟨new, hnew, by omega⟩
  · rintro out hx
    rcases hcases with ⟨hok, hnil⟩ | ⟨⟨x, herror⟩, -⟩
    · rw [hok] at hx
      cases hx
      exact ⟨(congrArg FairScheduler.completed hafter).symm, hnil⟩
    · rw [herror] at hx
      cases hx
  · intro i n tenant h
    exact backlogged_fair (turns_keeps maxSteps hacc i).1 h
  · intro i k tenant other hk ht ho
    have hlen : s.roundOrder.length = (turns maxSteps ⟨s, 0⟩ i).roundOrder.length := by
      rw [turns_rotates, List.length_rotate]
    rw [hlen] at ht ho ⊢
    exact backlogged_compared (turns_keeps maxSteps hacc i).1 hk ht ho

/-! ## Calls -/

theorem accounted_new {quotas : Dict Str Nat}
    (h : ∀ tenant quota, quotas.get? tenant = some quota → 1 ≤ quota) :
    Conserved [] (FairScheduler.new quotas h) :=
  ⟨List.nodup_nil, fun _ => Iff.rfl, fun _ _ h => (nomatch h), fun _ => rfl⟩

theorem Conserved.register {jobs : List Job} {s : FairScheduler} (h : Conserved jobs s) (tenantId : Str) :
    Conserved jobs (s.register tenantId) ∧ tenantId ∈ (s.register tenantId).queues.keys := by
  rw [FairScheduler.register]
  by_cases hkey : tenantId ∈ s.queues.keys
  · rw [if_pos hkey]
    exact ⟨h, hkey⟩
  · rw [if_neg hkey]
    have hqueue : ∀ tenant, ((s.queues.set tenantId []).get? tenant).getD [] = s.queue tenant := by
      intro tenant
      rw [Dict.get?_set]
      split
      · rename_i heq
        rw [heq, queue_of_notMem hkey]
        rfl
      · rfl
    have hkeys : ∀ tenant, tenant ∈ s.roundOrder ++ [tenantId] ↔
        tenant ∈ (s.queues.set tenantId []).keys := by
      intro tenant
      rw [Dict.mem_keys_set, List.mem_append, List.mem_singleton, h.registered, or_comm]
    have hnodup : (s.roundOrder ++ [tenantId]).Nodup := by
      rw [List.nodup_append_comm]
      exact List.nodup_cons.2 ⟨fun hmem => hkey ((h.registered _).1 hmem), h.nodup⟩
    have howned : ∀ tenant, ∀ job ∈ ((s.queues.set tenantId []).get? tenant).getD [],
        job.tenantId = tenant := fun tenant job hjob => h.owned tenant job (hqueue tenant ▸ hjob)
    have hordered : ∀ tenant, jobsOf tenant s.completed ++
        ((s.queues.set tenantId []).get? tenant).getD [] = jobsOf tenant jobs := fun tenant =>
      hqueue tenant ▸ h.ordered tenant
    have hnew : tenantId ∈ (s.queues.set tenantId []).keys := Dict.mem_keys_set.2 (.inl rfl)
    by_cases hquota : tenantId ∈ s.quotas.keys
    · simp only [if_pos hquota]
      exact ⟨⟨hnodup, hkeys, howned, hordered⟩, hnew⟩
    · simp only [if_neg hquota]
      exact ⟨⟨hnodup, hkeys, howned, hordered⟩, hnew⟩

theorem Conserved.submit {jobs : List Job} {s : FairScheduler} (h : Conserved jobs s) (job : Job) :
    Conserved (jobs ++ [job]) (s.submit job) := by
  obtain ⟨hreg, hkey⟩ := h.register job.tenantId
  have hqueue : ∀ tenant, (s.submit job).queue tenant = (s.register job.tenantId).queue tenant ++
      jobsOf tenant [job] := by
    intro tenant
    rw [FairScheduler.queue, FairScheduler.submit, Dict.get?_set]
    by_cases ht : tenant = job.tenantId
    · subst ht
      simp [jobsOf]
    · simp [ht, jobsOf, FairScheduler.queue, Ne.symm ht]
  refine ⟨hreg.nodup, fun tenant => ?_, fun tenant j hj => ?_, fun tenant => ?_⟩
  · rw [FairScheduler.submit, Dict.mem_keys_set]
    exact (hreg.registered tenant).trans (or_iff_right_of_imp fun heq => heq ▸ hkey).symm
  · rw [hqueue] at hj
    rcases List.mem_append.1 hj with hj | hj
    · exact hreg.owned tenant j hj
    · exact of_decide_eq_true (List.mem_filter.1 hj).2
  · rw [hqueue, jobsOf_append, ← hreg.ordered tenant, List.append_assoc]
    rfl

theorem Conserved.step {jobs : List Job} {s : FairScheduler} (h : Conserved jobs s) (op : Op) :
    Conserved (jobs ++ submitted [op]) (s.step op) := by
  cases op with
  | setQuota tenantId quota =>
      rw [show submitted [.setQuota tenantId quota] = [] from rfl, List.append_nil, FairScheduler.step]
      split
      · exact h
      · rename_i s' hset
        rw [FairScheduler.setQuota] at hset
        obtain ⟨_, -, hset⟩ := bind_eq_ok.1 hset
        split at hset
        · cases hset
          exact ⟨h.nodup, h.registered, h.owned, h.ordered⟩
        · cases hset
  | submit job => exact h.submit job
  | run maxSteps =>
      rw [show submitted [.run maxSteps] = [] from rfl, List.append_nil, FairScheduler.step]
      by_cases hmax : maxSteps < 1
      · rw [FairScheduler.runUntilIdle, if_pos hmax]
        exact h
      · obtain ⟨after, result, hrun, hsound⟩ := runUntilIdle_sound (not_lt.1 hmax) h
        obtain ⟨n, hafter⟩ := hsound.turned
        rw [hrun]
        show Conserved jobs after
        rw [hafter]
        exact (turns_keeps maxSteps (r := ⟨s, 0⟩) h n).1

theorem accounted_after {quotas : Dict Str Nat}
    (h : ∀ tenant quota, quotas.get? tenant = some quota → 1 ≤ quota) (ops : List Op) :
    Conserved (submitted ops) ((FairScheduler.new quotas h).after ops) := by
  induction ops using List.reverseRecOn with
  | nil => exact accounted_new h
  | append_singleton ops op ih =>
      rw [FairScheduler.after, List.foldl_append, submitted, List.filterMap_append]
      exact ih.step op

/-- Whatever has been called before, a run ends, loses nothing and is fair. -/
theorem drr_sound (quotas : Dict Str Nat)
    (h : ∀ tenant quota, quotas.get? tenant = some quota → 1 ≤ quota) (ops : List Op) {maxSteps : Nat}
    (hmax : 1 ≤ maxSteps) : ∃ after result,
      ((FairScheduler.new quotas h).after ops).runUntilIdle maxSteps = some (after, result) ∧
        RunSound (submitted ops) ((FairScheduler.new quotas h).after ops) maxSteps after result :=
  runUntilIdle_sound hmax (accounted_after h ops)

/-- Two tenants with one job each, and one step. -/
def sampleOps : List Op :=
  [.submit ⟨lit "j", lit "a", 1, by decide, by decide, Nat.one_pos⟩,
    .submit ⟨lit "k", lit "b", 2, by decide, by decide, by decide⟩]

theorem drr_sound_sample : ∃ after result,
    ((FairScheduler.new [] nofun).after sampleOps).runUntilIdle 1 = some (after, result) ∧
      RunSound (submitted sampleOps) ((FairScheduler.new [] nofun).after sampleOps) 1 after result :=
  drr_sound [] nofun sampleOps (le_refl 1)

end ResidualHarness.Tenancy
