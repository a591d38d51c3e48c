import ResidualHarness.Hadr.Cluster
import ResidualHarness.Hadr.Replication

/-!
# Failover of a run

`RunState` and `FailoverController` of `residual/hadr/failover.py`. `complete` marks a task before its
receipt is made, and `failover` moves the run before its event is recorded: a call that raises in
between leaves its changes behind. Progress survives exactly the runs in which no call raises there
with something changed (`progress_iff`).
-/

set_option autoImplicit false

namespace ResidualHarness.Hadr

open Python Core

/-! ## Tasks of a run -/

/-- `_STATUSES`. -/
inductive TaskStatus where
  | pending
  | running
  | done
deriving DecidableEq

/-- `TaskRecord`. -/
structure TaskRecord where
  taskId : Str
  status : TaskStatus
  worker : Option Str
  receiptId : Option Str

/-- `RunState`. -/
structure RunState where
  runId : Str
  stationId : Str
  tasks : List TaskRecord
  chain : ReceiptChain

/-- `incomplete_tasks()`. -/
def incompleteTasks (tasks : List TaskRecord) : List TaskRecord :=
  tasks.filter fun t => decide (t.status ≠ .done)

/-- `_task(task_id)`, in a list of tasks. -/
def findTask (taskId : Str) (tasks : List TaskRecord) : Option TaskRecord :=
  tasks.find? fun t => decide (t.taskId = taskId)

/-- A change of the task that `_task(task_id)` finds. -/
def modifyTask (taskId : Str) (f : TaskRecord → TaskRecord) : List TaskRecord → List TaskRecord
  | [] => []
  | t :: ts => if t.taskId = taskId then f t :: ts else t :: modifyTask taskId f ts

/-- `task.status = TASK_DONE` and `task.worker = worker`. -/
def TaskRecord.doneBy (worker : Str) (t : TaskRecord) : TaskRecord :=
  { t with status := .done, worker := some worker }

/-- `task.receipt_id = receipt_id`. -/
def TaskRecord.withReceipt (receiptId : Str) (t : TaskRecord) : TaskRecord :=
  { t with receiptId := some receiptId }

/-- `workers[index % len(workers)]`; a station has workers. -/
def workerAt (workers : List Str) (index : Nat) : Str := workers.getD (index % workers.length) []

/-- The loop over the incomplete tasks: they get the workers in turn. -/
def reassign (workers : List Str) : Nat → List TaskRecord → List TaskRecord
  | _, [] => []
  | index, t :: ts =>
      if t.status = .done then t :: reassign workers index ts
      else { t with worker := some (workerAt workers index), status := .pending } ::
        reassign workers (index + 1) ts

/-- `reassignments`. -/
def reassignments (workers : List Str) (tasks : List TaskRecord) : List (Str × Str) :=
  (incompleteTasks tasks).mapIdx fun index t => (t.taskId, workerAt workers index)

theorem mem_modifyTask {taskId : Str} {f : TaskRecord → TaskRecord} {ts : List TaskRecord}
    {t : TaskRecord} (h : t ∈ modifyTask taskId f ts) :
    t ∈ ts ∨ ∃ u ∈ ts, u.taskId = taskId ∧ t = f u := by
  induction ts with
  | nil => cases h
  | cons u ts ih =>
      rw [modifyTask] at h
      split at h
      · rename_i hid
        rcases List.mem_cons.1 h with rfl | h
        · exact .inr ⟨u, List.mem_cons_self, hid, rfl⟩
        · exact .inl (List.mem_cons_of_mem _ h)
      · rcases List.mem_cons.1 h with rfl | h
        · exact .inl List.mem_cons_self
        · rcases ih h with h | ⟨v, hv, hid, heq⟩
          · exact .inl (List.mem_cons_of_mem _ h)
          · exact .inr ⟨v, List.mem_cons_of_mem _ hv, hid, heq⟩

/-- A change of a task changes nothing exactly when it leaves that task. -/
theorem modifyTask_eq_self_iff {taskId : Str} {f : TaskRecord → TaskRecord} {ts : List TaskRecord} :
    modifyTask taskId f ts = ts ↔ ∀ t, findTask taskId ts = some t → f t = t := by
  induction ts with
  | nil => simp [modifyTask, findTask]
  | cons u ts ih =>
      rw [modifyTask, findTask, List.find?_cons]
      by_cases hid : u.taskId = taskId
      · simp [hid]
      · simp only [hid, if_false, decide_false, List.cons.injEq, true_and]
        exact ih

theorem modifyTask_modifyTask {taskId : Str} {f g : TaskRecord → TaskRecord}
    (hf : ∀ t, (f t).taskId = t.taskId) (ts : List TaskRecord) :
    modifyTask taskId g (modifyTask taskId f ts) = modifyTask taskId (fun t => g (f t)) ts := by
  induction ts with
  | nil => rfl
  | cons t ts ih =>
      rw [modifyTask, modifyTask]
      by_cases hid : t.taskId = taskId
      · rw [if_pos hid, if_pos hid, modifyTask, if_pos ((hf t).trans hid)]
      · rw [if_neg hid, if_neg hid, modifyTask, if_neg hid, ih]

theorem incompleteTasks_reassign (workers : List Str) (k : Nat) (ts : List TaskRecord) :
    incompleteTasks (reassign workers k ts) = (incompleteTasks ts).mapIdx fun index t =>
      { t with worker := some (workerAt workers (k + index)), status := .pending } := by
  induction ts generalizing k with
  | nil => rfl
  | cons t ts ih =>
      rw [reassign]
      by_cases hdone : t.status = .done
      · rw [if_pos hdone, incompleteTasks, incompleteTasks, List.filter_cons_of_neg (by simp [hdone]),
          List.filter_cons_of_neg (by simp [hdone])]
        exact ih k
      · rw [if_neg hdone, incompleteTasks, incompleteTasks, List.filter_cons_of_pos (by simp),
          List.filter_cons_of_pos (by simp [hdone]), List.mapIdx_cons, List.cons.injEq]
        refine ⟨rfl, (ih (k + 1)).trans ?_⟩
        simp only [Nat.add_assoc, Nat.add_comm 1]
        rfl

section

variable [FloatModel]

/-! ## Receipts -/

theorem receiptHash_iff {sequence : Nat} {taskId payload prev : Str} :
    (∃ h, receiptHash sequence taskId payload prev = .ok h) ↔ intPrintable sequence = true ∧
      encodable taskId = true ∧ encodable payload = true ∧ encodable prev = true := by
  have hbody : Digestible (.obj [(lit "sequence", .int sequence), (lit "task_id", .str taskId),
      (lit "payload", .str payload), (lit "prev_hash", .str prev)]) ↔ intPrintable sequence = true ∧
        encodable taskId = true ∧ encodable payload = true ∧ encodable prev = true := by
    rw [digestible_obj]
    simp only [List.mem_cons, List.not_mem_nil, or_false, forall_eq_or_imp, forall_eq, encodable_lit,
      digestible_str, digestible_int, true_and]
  rw [← hbody, ← schema_utf8_iff chainSchema (by decide)]
  constructor
  · rintro ⟨h, heq⟩
    obtain ⟨text, htext, heq⟩ := bind_eq_ok.1 heq
    obtain ⟨data, hdata, -⟩ := bind_eq_ok.1 heq
    exact ⟨text, data, htext, hdata⟩
  · rintro ⟨text, data, htext, hdata⟩
    exact ⟨_, bind_eq_ok.2 ⟨text, htext, bind_eq_ok.2 ⟨data, hdata, rfl⟩⟩⟩

theorem Linked.isHash {index : Nat} {prev : Str} {c : ReceiptChain} (h : Linked index prev c) :
    ∀ r ∈ c, isHash r.receiptId = true := by
  induction c generalizing index prev with
  | nil => exact nofun
  | cons r rest ih =>
      obtain ⟨-, -, hhash, hrest⟩ := h
      rw [List.forall_mem_cons]
      refine ⟨?_, ih hrest⟩
      obtain ⟨text, -, heq⟩ := bind_eq_ok.1 hhash
      obtain ⟨data, -, heq⟩ := bind_eq_ok.1 heq
      rw [← Except.ok.inj heq]
      exact sha256_isHash data

theorem headHash_encodable {c : ReceiptChain} (h : Linked 0 genesis c) : encodable c.headHash = true := by
  rw [ReceiptChain.headHash]
  cases hlast : c.getLast? with
  | none => exact (by decide : encodable genesis = true)
  | some r => exact encodable_of_isAscii (isAscii_of_isHash (h.isHash r (List.mem_of_getLast? hlast)))

theorem next_iff {c : ReceiptChain} (h : Linked 0 genesis c) {taskId : Str} {payload : Value} :
    (∃ r, c.next (.json (.str taskId)) payload = .ok r) ↔ isBlank taskId = false ∧
      encodable taskId = true ∧ (∃ p, payload = .json (.str p) ∧ encodable p = true) ∧
        intPrintable c.length = true := by
  constructor
  · rintro ⟨r, hr⟩
    dsimp only [ReceiptChain.next] at hr
    split at hr
    · cases hr
    · rename_i hblank
      split at hr
      · rename_i p
        obtain ⟨id, hid, -⟩ := bind_eq_ok.1 hr
        obtain ⟨hlen, htask, hp, -⟩ := receiptHash_iff.1 ⟨id, hid⟩
        exact ⟨Bool.eq_false_of_not_eq_true hblank, htask, ⟨p, rfl, hp⟩, hlen⟩
      · cases hr
  · rintro ⟨hblank, htask, ⟨p, rfl, hp⟩, hlen⟩
    obtain ⟨id, hid⟩ := receiptHash_iff.2 ⟨hlen, htask, hp, headHash_encodable h⟩
    refine ⟨⟨id, c.length, taskId, p, c.headHash⟩, ?_⟩
    dsimp only [ReceiptChain.next]
    rw [if_neg (by rw [hblank]; exact Bool.false_ne_true)]
    exact bind_eq_ok.2 ⟨id, hid, rfl⟩

theorem next_taskId {c : ReceiptChain} {taskId : Str} {payload : Value} {r : ChainReceipt}
    (h : c.next (.json (.str taskId)) payload = .ok r) : r.taskId = taskId := by
  dsimp only [ReceiptChain.next] at h
  split at h
  · cases h
  · split at h
    · obtain ⟨id, -, hr⟩ := bind_eq_ok.1 h
      cases hr
      rfl
    · cases h

/-! ## The controller -/

/-- `complete(task_id, worker, payload)`. -/
def RunState.complete (run : RunState) (taskId worker : Str) (payload : Value) :
    RunState × Except PyExn Unit :=
  match findTask taskId run.tasks with
  | none => (run, .error (contractError "unknown task"))
  | some _ =>
      let run := { run with tasks := modifyTask taskId (TaskRecord.doneBy worker) run.tasks }
      match run.chain.next (.json (.str taskId)) payload with
      | .error x => (run, .error x)
      | .ok r =>
          ({ run with
            tasks := modifyTask taskId (TaskRecord.withReceipt r.receiptId) run.tasks
            chain := run.chain ++ [r] }, .ok ())

/-- `last_verified`. -/
def ReceiptChain.lastVerified (c : ReceiptChain) : Except PyExn (Option ChainReceipt) := do
  if ← c.verify then return c.getLast?
  else throw (contractError "receipt chain failed integrity verification")

/-- The run on its successor. -/
def RunState.moved (run : RunState) (successor : Station) : RunState :=
  { run with
    stationId := successor.stationId
    tasks := reassign successor.workers 0 run.tasks }

/-- What a failover does to a task: one that is done stays as it is, another one is pending with a
worker of the successor. -/
def Moved (successor : Station) (t t' : TaskRecord) : Prop :=
  if t.status = .done then t' = t
  else t'.taskId = t.taskId ∧ t'.receiptId = t.receiptId ∧ t'.status = .pending ∧
    ∃ worker ∈ successor.workers, t'.worker = some worker

theorem workerAt_mem (s : Station) (index : Nat) : workerAt s.workers index ∈ s.workers := by
  have hlt := Nat.mod_lt index (List.length_pos_iff.2 s.staffed)
  rw [workerAt, List.getD_eq_getElem?_getD, List.getElem?_eq_getElem hlt]
  exact List.getElem_mem hlt

theorem moved_reassign (s : Station) (k : Nat) (ts : List TaskRecord) :
    List.Forall₂ (Moved s) ts (reassign s.workers k ts) := by
  induction ts generalizing k with
  | nil => exact .nil
  | cons t ts ih =>
      rw [reassign]
      by_cases hdone : t.status = .done
      · rw [if_pos hdone]
        refine .cons ?_ (ih k)
        rw [Moved, if_pos hdone]
      · rw [if_neg hdone]
        refine .cons ?_ (ih (k + 1))
        rw [Moved, if_neg hdone]
        exact ⟨rfl, rfl, rfl, _, workerAt_mem s k, rfl⟩

/-- A receipt of this task, with its receipt id, is on the chain. -/
def Receipted (run : RunState) (t : TaskRecord) : Prop :=
  ∃ r ∈ run.chain, r.taskId = t.taskId ∧ t.receiptId = some r.receiptId

/-- The invariant of a run: its chain is linked, and its tasks are done with a receipt or have none. -/
structure RunState.Sound (run : RunState) : Prop where
  linked : Linked 0 genesis run.chain
  tasks : ∀ t ∈ run.tasks, if t.status = .done then Receipted run t else t.receiptId = none

theorem RunState.Sound.done_iff {run : RunState} (h : run.Sound) {t : TaskRecord} (ht : t ∈ run.tasks) :
    t.status = .done ↔ Receipted run t := by
  have htask := h.tasks t ht
  constructor
  · intro hdone
    rwa [if_pos hdone] at htask
  · rintro ⟨r, -, -, hid⟩
    by_contra hdone
    rw [if_neg hdone, hid] at htask
    cases htask

/-- `complete` is refused, or has changed the task before its receipt is made or not. -/
theorem complete_cases (run : RunState) (taskId worker : Str) (payload : Value) :
    (findTask taskId run.tasks = none ∧
        run.complete taskId worker payload = (run, .error (contractError "unknown task"))) ∨
      ∃ t, findTask taskId run.tasks = some t ∧
        ((∃ x, (∀ r, run.chain.next (.json (.str taskId)) payload ≠ .ok r) ∧
            run.complete taskId worker payload =
              ({ run with tasks := modifyTask taskId (TaskRecord.doneBy worker) run.tasks }, .error x)) ∨
          ∃ r, run.chain.next (.json (.str taskId)) payload = .ok r ∧
            run.complete taskId worker payload = ({ run with
              tasks := modifyTask taskId
                (fun t => (t.doneBy worker).withReceipt r.receiptId) run.tasks
              chain := run.chain ++ [r] }, .ok ())) := by
  rw [RunState.complete]
  cases hfind : findTask taskId run.tasks with
  | none => exact .inl ⟨rfl, rfl⟩
  | some t =>
      refine .inr ⟨t, rfl, ?_⟩
      cases hnext : run.chain.next (.json (.str taskId)) payload with
      | error x => exact .inl ⟨x, nofun, by simp only [hnext]⟩
      | ok r =>
          refine .inr ⟨r, rfl, ?_⟩
          simp only [hnext]
          rw [modifyTask_modifyTask (f := TaskRecord.doneBy worker) fun _ => rfl]

theorem RunState.Sound.completed {run : RunState} (h : run.Sound) {taskId worker : Str}
    {payload : Value} {r : ChainReceipt} (hr : run.chain.next (.json (.str taskId)) payload = .ok r) :
    RunState.Sound { run with
      tasks := modifyTask taskId (fun t => (t.doneBy worker).withReceipt r.receiptId) run.tasks
      chain := run.chain ++ [r] } := by
  refine ⟨(next_linked h.linked hr).1, fun t ht => ?_⟩
  rcases mem_modifyTask ht with ht | ⟨u, -, hid, rfl⟩
  · have htask := h.tasks t ht
    split
    · rename_i hdone
      rw [if_pos hdone] at htask
      obtain ⟨q, hq, hsame⟩ := htask
      exact ⟨q, List.mem_append_left _ hq, hsame⟩
    · rename_i hdone
      rwa [if_neg hdone] at htask
  · have hdone : ((u.doneBy worker).withReceipt r.receiptId).status = .done := rfl
    rw [if_pos hdone]
    exact ⟨r, List.mem_append_right _ List.mem_cons_self, (next_taskId hr).trans hid.symm, rfl⟩

theorem RunState.Sound.moved {run : RunState} (h : run.Sound) (successor : Station) :
    (run.moved successor).Sound := by
  refine ⟨h.linked, fun t' ht' => ?_⟩
  obtain ⟨t, ht, hmoved⟩ := forall₂_mem_right (moved_reassign successor 0 run.tasks) ht'
  have htask := h.tasks t ht
  rw [Moved] at hmoved
  by_cases hdone : t.status = .done
  · rw [if_pos hdone] at hmoved htask
    rw [hmoved, if_pos hdone]
    exact htask
  · rw [if_neg hdone] at hmoved htask
    obtain ⟨-, hreceipt, hpending, -⟩ := hmoved
    rw [if_neg (by rw [hpending]; exact nofun), hreceipt, htask]

/-- A new run: nothing is done, and there are no receipts. -/
structure Fresh (run : RunState) : Prop where
  undone : ∀ t ∈ run.tasks, t.status ≠ .done ∧ t.receiptId = none
  unreceipted : run.chain = []


theorem Fresh.sound {run : RunState} (h : Fresh run) : run.Sound := by
  refine ⟨?_, fun t ht => ?_⟩
  · rw [h.unreceipted]
    trivial
  · rw [if_neg (h.undone t ht).1]
    exact (h.undone t ht).2

/-! ## Calls -/

/-- `FailoverReport`. -/
structure FailoverReport where
  runId : Str
  failedStation : Str
  successorStation : Str
  resumedFromReceipt : Option Str
  incompleteTasks : List Str
  reassignments : List (Str × Str)
  rtoSeconds : FloatModel.F
  withinRto : Bool

/-- The details of a failover in the journal. -/
def FailoverReport.details (r : FailoverReport) : Fields :=
  [(lit "run_id", .str r.runId), (lit "failed_station", .str r.failedStation),
    (lit "successor_station", .str r.successorStation),
    (lit "resumed_from_receipt", .str (r.resumedFromReceipt.getD [])),
    (lit "incomplete_tasks", strings r.incompleteTasks), (lit "rto_seconds", .float r.rtoSeconds),
    (lit "within_rto", .bool r.withinRto)]

/-- A run, the stations of the registry and the journal. -/
structure World where
  run : RunState
  stations : List Station
  journal : List EventReceipt

/-- A call, with the readings of the clock that a failover makes. -/
inductive RunCall where
  | complete (taskId worker : Str) (payload : Value)
  | failover (failedStationId : Str) (started completed recorded : FloatModel.F)

variable [Readings]

/-- The report of a failover of this run. -/
def report (limit : FloatModel.F) (run : RunState) (failedStationId : Str) (successor : Station)
    (last : Option ChainReceipt) (started completed : FloatModel.F) : FailoverReport where
  runId := run.runId
  failedStation := failedStationId
  successorStation := successor.stationId
  resumedFromReceipt := last.map ChainReceipt.receiptId
  incompleteTasks := (incompleteTasks run.tasks).map TaskRecord.taskId
  reassignments := reassignments successor.workers run.tasks
  rtoSeconds := Readings.sub completed started
  withinRto := Readings.lt (Readings.sub completed started) limit

/-- The stations after `failed.fail()`, for one that is alive. -/
def failIfAlive (failed : Station) (stations : List Station) : List Station :=
  if failed.alive = true then failAll [failed.stationId] stations else stations

/-- `failover(run, failed_station_id)`. -/
def World.failover (limit : FloatModel.F) (w : World) (failedStationId : Str)
    (started completed recorded : FloatModel.F) : World × Except PyExn FailoverReport :=
  match w.stations.find? fun s => decide (s.stationId = failedStationId) with
  | none => (w, .error (contractError "unknown station"))
  | some failed =>
      let w := { w with stations := failIfAlive failed w.stations }
      match w.run.chain.lastVerified with
      | .error x => (w, .error x)
      | .ok last =>
          match successorFor w.stations failed with
          | .error x => (w, .error x)
          | .ok successor =>
              let report := report limit w.run failedStationId successor last started completed
              let w := { w with run := w.run.moved successor }
              match record w.journal .failover report.details recorded with
              | .error x => (w, .error x)
              | .ok journal => ({ w with journal := journal }, .ok report)

/-- A call. -/
def World.call (limit : FloatModel.F) (w : World) :
    RunCall → World × Except PyExn (Option FailoverReport)
  | .complete taskId worker payload =>
      let (run, result) := w.run.complete taskId worker payload
      ({ w with run := run }, result.map fun _ => none)
  | .failover failedStationId started completed recorded =>
      let (w, result) := w.failover limit failedStationId started completed recorded
      (w, result.map some)

/-- After some calls. -/
def World.after (limit : FloatModel.F) (w : World) (calls : List RunCall) : World :=
  calls.foldl (fun w c => (w.call limit c).1) w

/-! ## Progress -/

/-- What a successful failover leaves: the run is on the successor, and its report assigns each
incomplete task once, to the worker it then has. -/
def FailedOver (w w' : World) (r : FailoverReport) : Prop :=
  ∃ successor ∈ w'.stations, successor.active = true ∧ successor.stationId = r.successorStation ∧
    w'.run.stationId = successor.stationId ∧ w'.run.chain = w.run.chain ∧
    List.Forall₂ (Moved successor) w.run.tasks w'.run.tasks ∧
    r.reassignments.map Prod.fst = (incompleteTasks w.run.tasks).map TaskRecord.taskId ∧
    r.reassignments.map (fun p => (p.1, some p.2)) =
      (incompleteTasks w'.run.tasks).map fun t => (t.taskId, t.worker)

/-- Progress survives a run: a call that raises leaves the tasks, the chain and the station; the tasks
that are done are those with a receipt; the chain verifies; and a failover assigns what is left. -/
structure Progress (limit : FloatModel.F) (w : World) (calls : List RunCall) : Prop where
  unchanged : ∀ pre c post, calls = pre ++ c :: post → ∀ x,
    ((w.after limit pre).call limit c).2 = .error x →
      ((w.after limit pre).call limit c).1.run = (w.after limit pre).run
  receipted : ∀ pre, pre <+: calls → ∀ t ∈ (w.after limit pre).run.tasks,
    t.status = .done ↔ Receipted (w.after limit pre).run t
  verifies : ∀ pre, pre <+: calls → (w.after limit pre).run.chain.verify = .ok true
  assigned : ∀ pre c post, calls = pre ++ c :: post → ∀ r,
    ((w.after limit pre).call limit c).2 = .ok (some r) →
      FailedOver (w.after limit pre) ((w.after limit pre).call limit c).1 r

/-- The call does not raise after its first change, or has nothing to change. A `complete` of a task of
the run has an id and a payload for a receipt, or the task is done by that worker; a `failover` with a
successor can be recorded, or the run is already as it would leave it. -/
def Admitted (limit : FloatModel.F) (w : World) : RunCall → Prop
  | .complete taskId worker payload => ∀ t, findTask taskId w.run.tasks = some t →
      (isBlank taskId = false ∧ encodable taskId = true ∧
        (∃ p, payload = .json (.str p) ∧ encodable p = true) ∧
          intPrintable w.run.chain.length = true) ∨
      (t.status = .done ∧ t.worker = some worker)
  | .failover failedStationId started completed recorded => ∀ failed successor,
      w.stations.find? (fun s => decide (s.stationId = failedStationId)) = some failed →
        successorFor (failIfAlive failed w.stations) failed = .ok successor →
          Recordable (report limit w.run failedStationId successor w.run.chain.getLast? started
              completed).details recorded ∨
            w.run.moved successor = w.run

/-! ## One call -/

variable {limit : FloatModel.F} {w : World}

/-- `failover` is refused with the run as it was, or has moved the run before its event is recorded or
not. -/
theorem failover_cases (limit : FloatModel.F) (hrun : w.run.Sound) (failedStationId : Str)
    (started completed recorded : FloatModel.F) :
    let out := w.failover limit failedStationId started completed recorded
    ((∃ x, out.2 = .error x) ∧ out.1.run = w.run ∧ ∀ failed successor,
        w.stations.find? (fun s => decide (s.stationId = failedStationId)) = some failed →
          successorFor (failIfAlive failed w.stations) failed ≠ .ok successor) ∨
      ∃ failed successor,
        w.stations.find? (fun s => decide (s.stationId = failedStationId)) = some failed ∧
        successorFor (failIfAlive failed w.stations) failed = .ok successor ∧
        out.1.run = w.run.moved successor ∧ out.1.stations = failIfAlive failed w.stations ∧
        let r := report limit w.run failedStationId successor w.run.chain.getLast? started completed
        ((∃ x, out.2 = .error x) ∧ ¬ Recordable r.details recorded ∨
          out.2 = .ok r ∧ Recordable r.details recorded) := by
  intro out
  have hlast : w.run.chain.lastVerified = .ok w.run.chain.getLast? := by
    rw [ReceiptChain.lastVerified, ReceiptChain.verify, verifyFrom_of_linked hrun.linked]
    rfl
  simp only [out, World.failover]
  cases hfind : w.stations.find? fun s => decide (s.stationId = failedStationId) with
  | none => exact .inl ⟨⟨_, rfl⟩, rfl, nofun⟩
  | some failed =>
      simp only [hlast]
      cases hsucc : successorFor (failIfAlive failed w.stations) failed with
      | error x =>
          refine .inl ⟨⟨x, rfl⟩, rfl, fun failed' successor heq => ?_⟩
          cases heq
          rw [hsucc]
          exact nofun
      | ok successor =>
          refine .inr ⟨failed, successor, rfl, hsucc, ?_⟩
          have hiff := record_iff w.journal .failover (report limit w.run failedStationId successor
            w.run.chain.getLast? started completed).details recorded
          cases hrec : record w.journal .failover (report limit w.run failedStationId successor
            w.run.chain.getLast? started completed).details recorded with
          | error x =>
              dsimp only
              rw [hrec]
              refine ⟨rfl, rfl, .inl ⟨⟨x, rfl⟩, fun hgood => ?_⟩⟩
              obtain ⟨j, hj⟩ := hiff.2 hgood
              rw [hrec] at hj
              cases hj
          | ok j =>
              dsimp only
              rw [hrec]
              exact ⟨rfl, rfl, .inr ⟨rfl, hiff.1 ⟨j, hrec⟩⟩⟩

/-- A call that raises leaves the run exactly when it is admitted. -/
theorem unchanged_iff (hrun : w.run.Sound) (c : RunCall) :
    (∀ x, (w.call limit c).2 = .error x → (w.call limit c).1.run = w.run) ↔ Admitted limit w c := by
  cases c with
  | complete taskId worker payload =>
      rw [Admitted]
      simp only [World.call]
      rcases complete_cases w.run taskId worker payload with
        ⟨hnone, heq⟩ | ⟨t, ht, ⟨x, hbad, heq⟩ | ⟨r, hr, heq⟩⟩
      · rw [heq]
        simp [hnone]
      · have hsame : ({ w.run with
            tasks := modifyTask taskId (TaskRecord.doneBy worker) w.run.tasks } : RunState) = w.run ↔
              t.status = .done ∧ t.worker = some worker := by
          have htask : t.doneBy worker = t ↔ t.status = .done ∧ t.worker = some worker := by
            cases t
            simp [TaskRecord.doneBy, eq_comm]
          rw [← htask]
          constructor
          · intro h
            exact modifyTask_eq_self_iff.1 (congrArg RunState.tasks h) t ht
          · intro h
            have hall := modifyTask_eq_self_iff.2 (fun u hu => Option.some.inj (ht.symm.trans hu) ▸ h)
            rw [hall]
        have hnone : ¬ (isBlank taskId = false ∧ encodable taskId = true ∧
            (∃ p, payload = .json (.str p) ∧ encodable p = true) ∧
              intPrintable w.run.chain.length = true) := fun h =>
          (next_iff hrun.linked).2 h |>.elim hbad
        rw [heq]
        simp only [ht, Option.some.injEq, forall_eq', hnone, false_or, ← hsame]
        exact ⟨fun h => h x rfl, fun h _ _ => h⟩
      · rw [heq]
        refine ⟨fun _ u _ => .inl ((next_iff hrun.linked).1 ⟨r, hr⟩), fun _ x hx => ?_⟩
        cases hx
  | failover failedStationId started completed recorded =>
      rw [Admitted]
      simp only [World.call]
      rcases failover_cases limit hrun failedStationId started completed recorded with
        ⟨⟨x, hx⟩, hsame, hnone⟩ | ⟨failed, successor, hfind, hsucc, hmoved, -, hcases⟩
      · exact ⟨fun _ failed successor hfind hsucc => absurd hsucc (hnone failed successor hfind),
          fun _ _ _ => hsame⟩
      · rw [hmoved]
        rcases hcases with ⟨⟨x, hx⟩, hbad⟩ | ⟨hok, hgood⟩
        · rw [hx]
          constructor
          · intro h failed' successor' hfind' hsucc'
            cases hfind.symm.trans hfind'
            cases hsucc.symm.trans hsucc'
            exact .inr (h x rfl)
          · intro h _ _
            exact (h failed successor hfind hsucc).resolve_left hbad
        · rw [hok]
          constructor
          · intro _ failed' successor' hfind' hsucc'
            cases hfind.symm.trans hfind'
            cases hsucc.symm.trans hsucc'
            exact .inl hgood
          · intro _ x hx
            cases hx

theorem sound_call (hrun : w.run.Sound) {c : RunCall} (hc : Admitted limit w c) :
    (w.call limit c).1.run.Sound := by
  cases hresult : (w.call limit c).2 with
  | error x =>
      rw [(unchanged_iff hrun c).2 hc x hresult]
      exact hrun
  | ok r =>
      cases c with
      | complete taskId worker payload =>
          simp only [World.call] at hresult ⊢
          rcases complete_cases w.run taskId worker payload with
            ⟨-, heq⟩ | ⟨t, -, ⟨x, -, heq⟩ | ⟨q, hq, heq⟩⟩
          · rw [heq] at hresult
            cases hresult
          · rw [heq] at hresult
            cases hresult
          · rw [heq]
            exact hrun.completed hq
      | failover failedStationId started completed recorded =>
          simp only [World.call] at hresult ⊢
          rcases failover_cases limit hrun failedStationId started completed recorded with
            ⟨⟨x, hx⟩, -⟩ | ⟨failed, successor, -, -, hmoved, -⟩
          · rw [hx] at hresult
            cases hresult
          · rw [hmoved]
            exact hrun.moved successor

/-- A failover that returns has moved the run and reported how. -/
theorem failedOver_call (hrun : w.run.Sound) {c : RunCall} {r : FailoverReport}
    (h : (w.call limit c).2 = .ok (some r)) : FailedOver w (w.call limit c).1 r := by
  cases c with
  | complete taskId worker payload =>
      simp only [World.call] at h
      cases hc : (w.run.complete taskId worker payload).2 <;> rw [hc] at h <;> cases h
  | failover failedStationId started completed recorded =>
      simp only [World.call] at h ⊢
      rcases failover_cases limit hrun failedStationId started completed recorded with
        ⟨⟨x, hx⟩, -⟩ | ⟨failed, successor, -, hsucc, hmoved, hstations, ⟨⟨x, hx⟩, -⟩ | ⟨hok, -⟩⟩
      · rw [hx] at h
        cases h
      · rw [hx] at h
        cases h
      · rw [hok] at h
        cases h
        obtain ⟨hmem, hactive, -⟩ := successorFor_ok hsucc
        have hleft := incompleteTasks_reassign successor.workers 0 w.run.tasks
        refine ⟨successor, hstations ▸ hmem, hactive, rfl, ?_, ?_, ?_, ?_, ?_⟩
        · rw [hmoved]
          rfl
        · rw [hmoved]
          rfl
        · rw [hmoved]
          exact moved_reassign successor 0 w.run.tasks
        · rw [report, reassignments, List.mapIdx_eq_zipIdx_map, List.map_map]
          calc (incompleteTasks w.run.tasks).zipIdx.map (fun x => x.1.taskId)
              = ((incompleteTasks w.run.tasks).zipIdx.map Prod.fst).map TaskRecord.taskId :=
                (List.map_map ..).symm
            _ = (incompleteTasks w.run.tasks).map TaskRecord.taskId := by rw [List.zipIdx_map_fst]
        · rw [hmoved, RunState.moved, hleft]
          simp [report, reassignments, List.mapIdx_eq_zipIdx_map, Function.comp_def]

/-! ## Runs -/

theorem World.after_snoc (w : World) (calls : List RunCall) (c : RunCall) :
    w.after limit (calls ++ [c]) = ((w.after limit calls).call limit c).1 := by
  rw [World.after, List.foldl_append]
  rfl

/-- The invariant holds throughout a run whose calls are admitted as long as it holds. -/
theorem sound_after (limit : FloatModel.F) {calls : List RunCall} (hw : w.run.Sound)
    (hc : ∀ pre c post, calls = pre ++ c :: post → (w.after limit pre).run.Sound →
      Admitted limit (w.after limit pre) c) (pre : List RunCall) (hpre : pre <+: calls) :
    (w.after limit pre).run.Sound := by
  induction pre using List.reverseRecOn with
  | nil => exact hw
  | append_singleton pre c ih =>
      obtain ⟨post, hpost⟩ := hpre
      rw [List.append_assoc] at hpost
      have hsound := ih ⟨[c] ++ post, hpost⟩
      rw [World.after_snoc]
      exact sound_call hsound (hc pre c post hpost.symm hsound)

/-- Progress of a new run survives exactly when every call is admitted. -/
theorem progress_iff (limit : FloatModel.F) (w : World) (h : Fresh w.run) (calls : List RunCall) :
    Progress limit w calls ↔
      ∀ pre c post, calls = pre ++ c :: post → Admitted limit (w.after limit pre) c := by
  constructor
  · intro hp
    have hadmitted : ∀ pre c post, calls = pre ++ c :: post → (w.after limit pre).run.Sound →
        Admitted limit (w.after limit pre) c := fun pre c post hpost hsound =>
      (unchanged_iff hsound c).1 (hp.unchanged pre c post hpost)
    intro pre c post hpost
    exact hadmitted pre c post hpost (sound_after limit h.sound hadmitted pre ⟨c :: post, hpost.symm⟩)
  · intro hc
    have hsound := sound_after limit h.sound fun pre c post hpost _ => hc pre c post hpost
    refine ⟨fun pre c post hpost x hx => ?_, fun pre hpre t ht => (hsound pre hpre).done_iff ht,
      fun pre hpre => verifyFrom_of_linked (hsound pre hpre).linked, fun pre c post hpost r hr => ?_⟩
    · exact (unchanged_iff (hsound pre ⟨_, hpost.symm⟩) c).2 (hc pre c post hpost) x hx
    · exact failedOver_call (hsound pre ⟨_, hpost.symm⟩) hr

end

section Concrete

attribute [local instance] wholeFloats
attribute [local instance] wholeReadings

/-- A new run with one task. -/
def oneTask : World where
  run := ⟨lit "r", lit "a", [⟨lit "t", .pending, none, none⟩], []⟩
  stations := []
  journal := []

theorem fresh_oneTask : Fresh oneTask.run := by
  refine ⟨fun t ht => ?_, rfl⟩
  rw [List.mem_singleton.1 ht]
  exact ⟨nofun, rfl⟩

/-- The payload of a completion is a number: the task is done, and there is no receipt. -/
theorem unreceipted_completion : ¬ ∀ (limit : Option Nat) (w : World), Fresh w.run →
    ∀ calls, Progress limit w calls := by
  intro h
  have hsame := (h none oneTask fresh_oneTask
    [.complete (lit "t") (lit "w") (.json (.int 1))]).unchanged [] _ [] rfl _ rfl
  have hstatus := congrArg (fun run => run.tasks.map TaskRecord.status) hsame
  revert hstatus
  decide

theorem progress_oneTask : Progress (none : Option Nat) oneTask
    [.complete (lit "t") (lit "w") (.json (.str (lit "p")))] := by
  refine (progress_iff none oneTask fresh_oneTask _).2 fun pre c post hpost => ?_
  cases pre with
  | nil =>
      cases hpost
      exact fun t _ => .inl ⟨by decide, by decide, ⟨_, rfl, by decide⟩, by decide⟩
  | cons d pre =>
      have hnil := (List.cons.inj hpost).2
      simp at hnil

end Concrete

end ResidualHarness.Hadr
