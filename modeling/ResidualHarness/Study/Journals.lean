import ResidualHarness.Study.Run

/-!
# What the journals of a study keep

At every point of the loop of `run_study` the rows are those of the first entries of the schedule, a
call that ended was reserved, calls are numbered in order, a row counts the reservations of its run,
and the budget covers what was reserved (`Kept`). Once a reservation was refused no other is made
(`Onward`).
-/

set_option autoImplicit false

namespace ResidualHarness.Study

open Python Core Engine

variable [FloatModel]

/-! ## The invariant -/

/-- The line reserves a call. -/
def CallLine.isReserved (l : CallLine) : Bool := l.completion.isNone

/-- The reservations of a directory. -/
def Directory.reserved (d : Directory) : List CallLine := d.calls.filter CallLine.isReserved

/-- The calls of a directory that ended. -/
def Directory.finished (d : Directory) : List CallLine := d.calls.filter fun l => !l.isReserved

/-- The bytes that a reservation counts as remote. -/
def CallLine.remoteBytes (l : CallLine) : Nat := remoteBytesOf l.call.placement l.call.requestBytes

/-- The number of reservations of a run. -/
def Directory.tally (d : Directory) (runId : Str) : Nat :=
  d.reserved.countP fun l => decide (l.call.runId = runId)

/-- The number of calls that a row records. -/
def Row.transport (r : Row) : Nat := (r.measured.map Measured.transportCalls).getD 0

/-- The run returned, its files are those of the result, and the row is its row. -/
def Row.Filed (r : Row) (b : Behaviour) (d : Directory) : Prop :=
  ∃ run ledger result text graded sha, b.ending = .returned run ∧
    run.bind = .ok (ledger, result) ∧ digest (.obj result) = .ok sha ∧ ledger.write = .ok text ∧
    r.graded = some graded ∧ graded.passed = run.passed ∧ graded.resultSha256 = sha ∧
    r.controllerSuccess = run.success ∧ r.success = (run.success && run.passed) ∧
    d.results.get? r.job.runId = some (some (.obj result)) ∧
    d.traces.get? r.job.runId = some text

/-- The writes of the files of a run succeed if they are reached. -/
def Behaviour.Files (b : Behaviour) : Prop :=
  ∀ r, b.ending = .returned r → r.resultWrite = .written ∧ r.traceWrite = .written

section Runs

variable (tiers : Tiers) (behaviour : Job → Behaviour) (jobs : List Job)

/-- Every run writes the files of its result. -/
def FilesWritten : Prop := ∀ job ∈ jobs, (behaviour job).Files

/-- What holds of the journals when the rows of `done` are recorded and the run of `current` is going
on. -/
structure Kept (done : List Job) (current : Option Job) (w : World) : Prop where
  rows : w.dir.runs.map Row.job = done
  rows_digestible : ∀ r ∈ w.dir.runs, Digestible (.obj r.dict)
  rows_safe : ∀ r ∈ w.dir.runs, ∀ g ∈ r.graded, g.metrics.wf = true ∧
    g.metrics.allStr lineSafe = true ∧ isHash g.resultSha256 = true
  lines_digestible : ∀ l ∈ w.dir.calls, Digestible (.obj l.dict)
  providers : ∀ l ∈ w.dir.calls, ∃ role, l.call.provider = (tiers role).name
  reserved_ids : w.dir.reserved.Pairwise fun l m => l.call.callId < m.call.callId
  finished_ids : w.dir.finished.Pairwise fun l m => l.call.callId < m.call.callId
  numbered : ∀ l ∈ w.dir.calls, l.call.callId ≤ w.budget.calls
  backed : ∀ l ∈ w.dir.finished, ⟨l.call, none⟩ ∈ w.dir.reserved
  owned : ∀ l ∈ w.dir.calls, l.call.runId ∈ (done ++ current.toList).map Job.runId
  transport : ∀ r ∈ w.dir.runs, w.dir.tally r.job.runId = r.transport
  counted : w.dir.reserved.length ≤ w.budget.calls
  within : w.budget.calls ≤ w.budget.maxCalls
  sent : (w.dir.reserved.map CallLine.remoteBytes).sum ≤ w.budget.remoteBytes
  sent_within : w.budget.remoteBytes ≤ w.budget.maxRemoteBytes
  filed : FilesWritten behaviour jobs → ∀ r ∈ w.dir.runs, r.status = .completed → r.Filed (behaviour r.job) w.dir

/-- The invariant at some place of the schedule. -/
def Recorded (w : World) : Prop :=
  ∃ done current, done ++ Option.toList current <+: jobs ∧ Kept tiers behaviour jobs done current w

/-- The files and limits that no step changes, and no reservation after a refused one. -/
structure Onward (v w : World) : Prop where
  protocol : w.dir.protocol = v.dir.protocol
  schedule : w.dir.schedule = v.dir.schedule
  maxCalls : w.budget.maxCalls = v.budget.maxCalls
  maxRemoteBytes : w.budget.maxRemoteBytes = v.budget.maxRemoteBytes
  exhausted : v.budget.exhausted = true →
    w.budget.exhausted = true ∧ w.dir.reserved = v.dir.reserved

omit [FloatModel] in
theorem Onward.trans [FloatModel] {u v w : World} (h : Onward u v) (h' : Onward v w) : Onward u w where
  protocol := h'.protocol.trans h.protocol
  schedule := h'.schedule.trans h.schedule
  maxCalls := h'.maxCalls.trans h.maxCalls
  maxRemoteBytes := h'.maxRemoteBytes.trans h.maxRemoteBytes
  exhausted he := by
    obtain ⟨hv, hr⟩ := h.exhausted he
    obtain ⟨hw, hr'⟩ := h'.exhausted hv
    exact ⟨hw, hr'.trans hr⟩

theorem Onward.frame {v w : World} (hdir : w.dir = v.dir) (hbudget : w.budget = v.budget) :
    Onward v w := by
  constructor <;> simp [hdir, hbudget]

/-- A point of the run follows another. -/
def Point (v w : World) : Prop := Recorded tiers behaviour jobs w ∧ Onward v w

variable {tiers behaviour jobs} {done : List Job} {current : Option Job} {w : World}

/-- The invariant is about the journals, the files and the counters. -/
theorem Kept.congr (h : Kept tiers behaviour jobs done current w) {v : World} (hdir : v.dir = w.dir)
    (hbudget : v.budget = w.budget) : Kept tiers behaviour jobs done current v := by
  obtain ⟨d, b, n⟩ := v
  obtain ⟨d', b', n'⟩ := w
  cases hdir
  cases hbudget
  exact ⟨h.1, h.2, h.3, h.4, h.5, h.6, h.7, h.8, h.9, h.10, h.11, h.12, h.13, h.14, h.15, h.16⟩

theorem Kept.point (h : Kept tiers behaviour jobs done current w)
    (hpre : done ++ current.toList <+: jobs) {v : World} (hon : Onward v w) :
    Point tiers behaviour jobs v w := ⟨⟨done, current, hpre, h⟩, hon⟩

/-- The text of a dictionary can be written exactly if it is digestible. -/
theorem serialised_ok {d : Fields} {u : Unit} (h : serialised d = .ok u) : Digestible (.obj d) := by
  unfold serialised at h
  split at h
  · exact (digest_eq_ok_iff.1 ‹_›).1
  · cases h

/-! ## Writes -/

theorem Kept.spend (h : Kept tiers behaviour jobs done current w) {b : Budget}
    (hcalls : w.budget.calls ≤ b.calls) (hwithin : b.calls ≤ b.maxCalls)
    (hsent : w.budget.remoteBytes ≤ b.remoteBytes) (hbytes : b.remoteBytes ≤ b.maxRemoteBytes) :
    Kept tiers behaviour jobs done current { w with budget := b } :=
  { h with
    numbered := fun l hl => (h.numbered l hl).trans hcalls
    counted := h.counted.trans hcalls
    within := hwithin
    sent := h.sent.trans hsent
    sent_within := hbytes }

/-- The world with one more line in `calls.jsonl`. -/
def World.journal (w : World) (l : CallLine) : World :=
  { w with dir := { w.dir with calls := w.dir.calls ++ [l] } }

theorem reserved_journal (w : World) (l : CallLine) :
    (w.journal l).dir.reserved = w.dir.reserved ++ if l.isReserved = true then [l] else [] := by
  simp only [World.journal, Directory.reserved, List.filter_append, List.filter_singleton]
  cases l.isReserved <;> rfl

theorem finished_journal (w : World) (l : CallLine) :
    (w.journal l).dir.finished = w.dir.finished ++ if l.isReserved = true then [] else [l] := by
  simp only [World.journal, Directory.finished, List.filter_append, List.filter_singleton]
  cases l.isReserved <;> rfl

theorem tally_journal (w : World) (l : CallLine) (id : Str) : (w.journal l).dir.tally id =
    w.dir.tally id + if l.isReserved = true ∧ l.call.runId = id then 1 else 0 := by
  rw [Directory.tally, reserved_journal, List.countP_append, Directory.tally]
  by_cases hl : l.isReserved = true
  · by_cases hid : l.call.runId = id <;> simp [hl, hid]
  · simp [hl]

theorem pairwise_concat {l : CallLine} {ls : List CallLine}
    (h : ls.Pairwise fun l m => l.call.callId < m.call.callId)
    (hl : ∀ m ∈ ls, m.call.callId < l.call.callId) :
    (ls ++ [l]).Pairwise fun l m => l.call.callId < m.call.callId :=
  List.pairwise_append.2 ⟨h, List.pairwise_singleton _ _,
    fun m hm _ hx => List.mem_singleton.1 hx ▸ hl m hm⟩

theorem mem_calls_of_reserved {d : Directory} {l : CallLine} (h : l ∈ d.reserved) : l ∈ d.calls :=
  (List.mem_filter.1 h).1

theorem mem_calls_of_finished {d : Directory} {l : CallLine} (h : l ∈ d.finished) : l ∈ d.calls :=
  (List.mem_filter.1 h).1

omit [FloatModel] in
theorem forall_mem_concat {α : Type} {P : α → Prop} {xs : List α} {x : α} (h : ∀ a ∈ xs, P a)
    (hx : P x) : ∀ a ∈ xs ++ [x], P a := by
  intro a ha
  rcases List.mem_append.1 ha with ha | ha
  · exact h a ha
  · rw [List.mem_singleton.1 ha]
    exact hx

variable {job : Job} {l : CallLine}

/-- A reservation of the current run with a new number is recorded. -/
theorem Kept.reserve (h : Kept tiers behaviour jobs done (some job) w) (hnew : job.runId ∉ done.map Job.runId)
    (hl : l.completion = none) (hdig : Digestible (.obj l.dict))
    (hname : ∃ role, l.call.provider = (tiers role).name) (hrun : l.call.runId = job.runId)
    (hfresh : ∀ m ∈ w.dir.calls, m.call.callId < l.call.callId)
    (hid : l.call.callId ≤ w.budget.calls) (hcount : w.dir.reserved.length + 1 ≤ w.budget.calls)
    (hsent : (w.dir.reserved.map CallLine.remoteBytes).sum + l.remoteBytes ≤ w.budget.remoteBytes) :
    Kept tiers behaviour jobs done (some job) (w.journal l) := by
  have hres : l.isReserved = true := by rw [CallLine.isReserved, hl]; rfl
  have hreserved : (w.journal l).dir.reserved = w.dir.reserved ++ [l] := by
    rw [reserved_journal, if_pos hres]
  have hfinished : (w.journal l).dir.finished = w.dir.finished := by
    rw [finished_journal, if_pos hres, List.append_nil]
  refine
    { h with
      lines_digestible := forall_mem_concat h.lines_digestible hdig
      providers := forall_mem_concat h.providers hname
      reserved_ids := ?_
      finished_ids := by rw [hfinished]; exact h.finished_ids
      numbered := forall_mem_concat h.numbered hid
      backed := ?_
      owned := forall_mem_concat h.owned (by rw [hrun]; simp)
      transport := ?_
      counted := by rw [hreserved, List.length_append]; exact hcount
      sent := ?_ }
  · rw [hreserved]
    exact pairwise_concat h.reserved_ids fun m hm => hfresh m (mem_calls_of_reserved hm)
  · rw [hfinished, hreserved]
    exact fun m hm => List.mem_append_left _ (h.backed m hm)
  · intro r hr
    have hne : ¬ (l.isReserved = true ∧ l.call.runId = r.job.runId) := by
      rintro ⟨-, he⟩
      rw [hrun] at he
      apply hnew
      rw [he, ← h.rows, List.map_map]
      exact List.mem_map.2 ⟨r, hr, rfl⟩
    rw [tally_journal, if_neg hne]
    exact h.transport r hr
  · rw [hreserved, List.map_append, List.sum_append, List.map_singleton, List.sum_singleton]
    exact hsent

theorem Kept.finish (h : Kept tiers behaviour jobs done (some job) w) (hl : l.isReserved = false)
    (hdig : Digestible (.obj l.dict)) (hback : ⟨l.call, none⟩ ∈ w.dir.reserved)
    (hfresh : ∀ m ∈ w.dir.finished, m.call.callId < l.call.callId) :
    Kept tiers behaviour jobs done (some job) (w.journal l) := by
  have hres : ¬ l.isReserved = true := by rw [hl]; exact Bool.false_ne_true
  have hreserved : (w.journal l).dir.reserved = w.dir.reserved := by
    rw [reserved_journal, if_neg hres, List.append_nil]
  have hfinished : (w.journal l).dir.finished = w.dir.finished ++ [l] := by
    rw [finished_journal, if_neg hres]
  have hline := mem_calls_of_reserved hback
  have hname := h.providers _ hline
  have hnumber := h.numbered _ hline
  have howner := h.owned _ hline
  refine
    { h with
      lines_digestible := forall_mem_concat h.lines_digestible hdig
      providers := forall_mem_concat h.providers hname
      reserved_ids := by rw [hreserved]; exact h.reserved_ids
      finished_ids := by rw [hfinished]; exact pairwise_concat h.finished_ids hfresh
      numbered := forall_mem_concat h.numbered hnumber
      backed := ?_
      owned := forall_mem_concat h.owned howner
      transport := ?_
      counted := by rw [hreserved]; exact h.counted
      sent := by rw [hreserved]; exact h.sent }
  · rw [hfinished, hreserved]
    exact forall_mem_concat h.backed hback
  · intro r hr
    rw [tally_journal, if_neg fun hx => hres hx.1]
    exact h.transport r hr

/-! ## Calls -/

/-- The run of `job` is going on, and the providers hold a record of every reservation of it. -/
structure Going (tiers : Tiers) (behaviour : Job → Behaviour) (jobs done : List Job) (job : Job)
    (w : World) : Prop where
  kept : Kept tiers behaviour jobs done (some job) w
  records : w.dir.tally job.runId = w.records

/-- Where `job` stands in the schedule: its entry is the next one and has an identifier of its own. -/
structure Place (jobs done : List Job) (job : Job) : Prop where
  next : done ++ [job] <+: jobs
  fresh : job.runId ∉ done.map Job.runId

omit [FloatModel] in
theorem Place.prefix {jobs done : List Job} {job : Job} (h : Place jobs done job) :
    done ++ Option.toList (some job) <+: jobs := h.next

variable {post : Unit → World → Prop} {err : Raised → World → Prop}

/-- What an append does: the line is written, or nothing. -/
theorem appendCall_runs
    (hpoint : Digestible (.obj l.dict) → Point tiers behaviour jobs w (w.journal l))
    (hok : Digestible (.obj l.dict) → post () (w.journal l)) (herr : ∀ e, err e w) :
    Runs (Point tiers behaviour jobs) (appendCall l) w post err := by
  refine runs_bind (runs_eval (fun u hu => ?_) fun e _ => herr e)
  have hdig := serialised_ok hu
  exact runs_write (hpoint hdig) (hok hdig)

theorem journal_onward (w : World) (l : CallLine)
    (h : w.budget.exhausted = true → l.isReserved = false) : Onward w (w.journal l) where
  protocol := rfl
  schedule := rfl
  maxCalls := rfl
  maxRemoteBytes := rfl
  exhausted he := by
    refine ⟨he, ?_⟩
    rw [reserved_journal, h he]
    exact List.append_nil _

/-- A reservation that was made: the call is the newest of the journal, and the provider has no record
of it yet. -/
structure Opened (tiers : Tiers) (behaviour : Job → Behaviour) (jobs done : List Job) (job : Job)
    (call : Reservation) (w : World) : Prop where
  kept : Kept tiers behaviour jobs done (some job) w
  records : w.dir.tally job.runId = w.records + 1
  reserved : ⟨call, none⟩ ∈ w.dir.reserved
  newest : ∀ m ∈ w.dir.finished, m.call.callId < call.callId

theorem reserve_runs (hplace : Place jobs done job) (h : Going tiers behaviour jobs done job w)
    (role : Role) (size : Nat) : Runs (Point tiers behaviour jobs)
      (reserve job.runId role (tiers role) size) w
      (fun call v => Opened tiers behaviour jobs done job call v)
      (fun _ v => Going tiers behaviour jobs done job v) := by
  refine runs_bind (runs_read ?_)
  show Runs _ (if w.budget.refuses (remoteBytesOf (tiers role).placement size) then _ else _) w _ _
  by_cases hrefused : w.budget.refuses (remoteBytesOf (tiers role).placement size)
  · rw [if_pos hrefused]
    have hkept := h.kept.spend (b := { w.budget with exhausted := true }) le_rfl h.kept.within le_rfl
      h.kept.sent_within
    have hon : Onward w { w with budget := { w.budget with exhausted := true } } :=
      ⟨rfl, rfl, rfl, rfl, fun _ => ⟨rfl, rfl⟩⟩
    exact runs_bind (runs_write (hkept.point hplace.prefix hon) (runs_raise ⟨hkept, h.records⟩))
  · rw [if_neg hrefused]
    simp only [Budget.refuses, not_or, Bool.not_eq_true, Nat.not_le, Nat.not_lt] at hrefused
    obtain ⟨hexhausted, hcalls, hbytes⟩ := hrefused
    have hkept := h.kept.spend (b := { w.budget with
        calls := w.budget.calls + 1
        remoteBytes := w.budget.remoteBytes + remoteBytesOf (tiers role).placement size })
      (Nat.le_succ _) hcalls (Nat.le_add_right _ _) hbytes
    have hon : Onward w { w with budget := { w.budget with
        calls := w.budget.calls + 1
        remoteBytes := w.budget.remoteBytes + remoteBytesOf (tiers role).placement size } } :=
      ⟨rfl, rfl, rfl, rfl, fun he => ⟨he, rfl⟩⟩
    refine runs_bind (runs_write (hkept.point hplace.prefix hon) ?_)
    -- every call of the journal has a smaller number than the next one
    have hold : ∀ m ∈ w.dir.calls, m.call.callId < w.budget.calls + 1 :=
      fun m hm => Nat.lt_succ_of_le (h.kept.numbered m hm)
    have hnext (hdig) := hkept.reserve hplace.fresh (l := ⟨⟨w.budget.calls + 1, job.runId, role,
        (tiers role).name, (tiers role).placement, size⟩, none⟩) rfl hdig ⟨role, rfl⟩ rfl hold le_rfl
      (Nat.succ_le_succ h.kept.counted) (Nat.add_le_add_right h.kept.sent _)
    refine runs_bind (appendCall_runs (fun hdig => (hnext hdig).point hplace.prefix ?_)
      (fun hdig => runs_pure ⟨hnext hdig, ?_, ?_, ?_⟩) fun _ => ⟨hkept, h.records⟩)
    · refine journal_onward _ _ fun he => ?_
      rw [hexhausted] at he
      cases he
    · rw [tally_journal, if_pos ⟨rfl, rfl⟩]
      exact congrArg (· + 1) h.records
    · rw [reserved_journal]
      exact List.mem_append_right _ (List.mem_singleton_self _)
    · rw [finished_journal]
      intro m hm
      rcases List.mem_append.1 hm with hm | hm
      · exact hold m (mem_calls_of_finished hm)
      · cases hm

theorem generate_runs (hplace : Place jobs done job) (h : Going tiers behaviour jobs done job w)
    (a : Attempt) : Runs (Point tiers behaviour jobs) (generate job.runId (tiers a.role) a) w
      (fun _ v => Going tiers behaviour jobs done job v)
      (fun _ v => Going tiers behaviour jobs done job v) := by
  refine runs_bind ((reserve_runs hplace h a.role a.size).conseq (fun call v _ hv => ?_)
    fun _ _ _ he => he)
  have hcounted : Kept tiers behaviour jobs done (some job) { v with records := v.records + 1 } :=
    hv.kept.congr rfl rfl
  have hon : Onward v { v with records := v.records + 1 } := Onward.frame rfl rfl
  refine runs_bind (runs_write (hcounted.point hplace.prefix hon) ?_)
  have hnext (hdig) := hcounted.finish (l := ⟨call, some (a.finish (tiers a.role)).1⟩) rfl hdig
    hv.reserved hv.newest
  have hgoing (hdig : Digestible (.obj (CallLine.dict ⟨call, some (a.finish (tiers a.role)).1⟩))) :
      Going tiers behaviour jobs done job
        ({ v with records := v.records + 1 }.journal ⟨call, some (a.finish (tiers a.role)).1⟩) := by
    refine ⟨hnext hdig, ?_⟩
    rw [tally_journal, if_neg (by rintro ⟨hres, -⟩; cases hres)]
    exact hv.records
  refine runs_bind (appendCall_runs
    (fun hdig => (hnext hdig).point hplace.prefix (journal_onward _ _ fun _ => rfl))
    (fun hdig => ?_) fun _ => ⟨hcounted, hv.records⟩)
  cases (a.finish (tiers a.role)).2 with
  | some e => exact runs_raise (hgoing hdig)
  | none => exact runs_pure (hgoing hdig)

theorem dispatch_runs (hplace : Place jobs done job) (h : Going tiers behaviour jobs done job w)
    (a : Attempt) : Runs (Point tiers behaviour jobs) (dispatch job.runId tiers a) w
      (fun _ v => Going tiers behaviour jobs done job v)
      (fun _ v => Going tiers behaviour jobs done job v) := by
  refine runs_bind (runs_attempt ((generate_runs hplace h a).conseq
    (fun _ v _ hv => runs_pure hv) fun e v _ hv => ?_))
  cases e with
  | exception e => exact runs_pure hv
  | interrupt => exact runs_raise hv

/-! ## Runs -/

/-- Files of the current run leave the files of recorded runs. -/
theorem Kept.place (h : Kept tiers behaviour jobs done (some job) w)
    (hnew : job.runId ∉ done.map Job.runId) {results : Dict Str (Option Json)} {traces : Dict Str Str}
    (hresults : ∀ id, id ≠ job.runId → results.get? id = w.dir.results.get? id)
    (htraces : ∀ id, id ≠ job.runId → traces.get? id = w.dir.traces.get? id) :
    Kept tiers behaviour jobs done (some job)
      { w with dir := { w.dir with results := results, traces := traces } } :=
  { h with
    filed := by
      intro hfiles r hr hstatus
      have hne : r.job.runId ≠ job.runId := by
        intro he
        apply hnew
        rw [← he, ← h.rows, List.map_map]
        exact List.mem_map.2 ⟨r, hr, rfl⟩
      obtain ⟨run, ledger, result, text, graded, sha, h0, h1, h2, h3, h4, h5, h6, h7, h8, h9, h10⟩ :=
        h.filed hfiles r hr hstatus
      exact ⟨run, ledger, result, text, graded, sha, h0, h1, h2, h3, h4, h5, h6, h7, h8,
        (hresults _ hne).trans h9, (htraces _ hne).trans h10⟩ }

theorem Kept.lifecycle (h : Kept tiers behaviour jobs done current w) (events : List Fields) :
    Kept tiers behaviour jobs done current
      { w with dir := { w.dir with lifecycle := events } } :=
  ⟨h.1, h.2, h.3, h.4, h.5, h.6, h.7, h.8, h.9, h.10, h.11, h.12, h.13, h.14, h.15, h.16⟩

omit [FloatModel] in
theorem Landing.get?_place {α : Type} (landing : Landing α) (name : Str) (content : α)
    (files : Dict Str α) {id : Str} (h : id ≠ name) :
    (landing.place name content files).get? id = files.get? id := by
  unfold Landing.place
  split
  · rw [Dict.get?_set, if_neg h]
  · rfl
  · rw [Dict.get?_set, if_neg h]

/-- What a run that reaches its result hands on. -/
structure Reached (b : Behaviour) (job : Job) (row : Row) (result : Fields) (ledger : Ledger)
    (r : Returned) : Prop where
  ending : b.ending = .returned r
  bound : r.bind = .ok (ledger, result)
  graded : ∃ sha, digest (.obj result) = .ok sha ∧ row = gradedRow job r sha

theorem attempts_runs (hplace : Place jobs done job) (h : Going tiers behaviour jobs done job w)
    (attempts : List Attempt) : Runs (Point tiers behaviour jobs)
      (Prog.each attempts (dispatch job.runId tiers)) w
      (fun _ v => Going tiers behaviour jobs done job v)
      (fun _ v => Going tiers behaviour jobs done job v) :=
  runs_each (I := fun _ v => Going tiers behaviour jobs done job v) h
    fun _ a _ _ _ _ hv => dispatch_runs hplace hv a

theorem checked_runs {α : Type} {R : World → World → Prop} {x : Except PyExn α}
    {post : α → World → Prop} (hok : ∀ a, x = .ok a → post a w) (herr : ∀ e, err e w) :
    Runs R (checked x) w post err := by
  refine runs_eval (fun a ha => ?_) fun e _ => herr e
  cases x with
  | ok b => exact hok a (by cases ha; rfl)
  | error e => cases ha

theorem attemptRun_runs (hplace : Place jobs done job) (h : Going tiers behaviour jobs done job w)
    (b : Behaviour) : Runs (Point tiers behaviour jobs) (attemptRun job tiers b) w
      (fun out v => Going tiers behaviour jobs done job v ∧
        Reached b job out.1 out.2.1 out.2.2.1 out.2.2.2)
      (fun _ v => Going tiers behaviour jobs done job v) := by
  refine runs_bind ((attempts_runs hplace h b.attempts).conseq (fun _ v _ hv => ?_) fun _ _ _ he => he)
  cases hend : b.ending with
  | raised => exact runs_raise hv
  | interrupted => exact runs_raise hv
  | returned r =>
      refine runs_bind (checked_runs (fun out hout => ?_) fun _ => hv)
      refine runs_bind (checked_runs (fun sha hsha => ?_) fun _ => hv)
      exact runs_pure ⟨hv, hend, hout, sha, hsha, rfl⟩

theorem Returned.write_ok {r : Returned} {ledger : Ledger} {result : Fields}
    (h : r.bind = .ok (ledger, result)) : ∃ text, ledger.write = .ok text := by
  obtain ⟨sha, -, h⟩ := bind_eq_ok.1 h
  obtain ⟨l, hl, h⟩ := bind_eq_ok.1 h
  cases h
  have hwf : (Json.obj [(lit "result_sha256", .str sha), (lit "success", .bool r.success)]).wf = true :=
    by simp [Json.wf, Json.wfFields]; decide
  exact ⟨_, (Ledger.add_represents r.represents hwf hl).write⟩

theorem writeFiles_runs (hplace : Place jobs done job) (h : Going tiers behaviour jobs done job w)
    {b : Behaviour} {row : Row} {result : Fields} {ledger : Ledger} {r : Returned}
    (hr : Reached b job row result ledger r) : Runs (Point tiers behaviour jobs)
      (writeFiles job result ledger r) w
      (fun _ v => Going tiers behaviour jobs done job v ∧ (b.Files → row.Filed b v.dir))
      (fun _ v => Going tiers behaviour jobs done job v ∧ ¬ b.Files) := by
  obtain ⟨text, htext⟩ := Returned.write_ok hr.bound
  obtain ⟨sha, hsha, rfl⟩ := hr.graded
  have hresults := @Kept.place _ _ _ _ _ _ _ h.kept hplace.fresh _ w.dir.traces
    (fun id hid => r.resultWrite.get?_place job.runId (some (.obj result)) w.dir.results hid)
    fun _ _ => rfl
  refine runs_bind (runs_write (hresults.point hplace.prefix ⟨rfl, rfl, rfl, rfl, fun he => ⟨he, rfl⟩⟩) ?_)
  refine runs_bind (runs_eval (fun _ hwritten => ?_) fun _ hraised => ⟨⟨hresults, h.records⟩, ?_⟩)
  · rw [htext]
    refine runs_bind (runs_eval (fun t ht => ?_) fun e he => by cases he)
    · cases ht
      have htraces := hresults.place hplace.fresh (fun _ _ => rfl)
        fun id hid => r.traceWrite.get?_place job.runId text w.dir.traces hid
      refine runs_bind (runs_write (htraces.point hplace.prefix
        ⟨rfl, rfl, rfl, rfl, fun he => ⟨he, rfl⟩⟩) ?_)
      refine runs_eval (fun _ _ => ⟨⟨htraces, h.records⟩, fun hfiles => ?_⟩)
        fun _ hraised => ⟨⟨htraces, h.records⟩, fun hfiles => ?_⟩
      · obtain ⟨hresult, htrace⟩ := hfiles r hr.ending
        refine ⟨r, ledger, result, text, _, sha, hr.ending, hr.bound, hsha, htext, rfl, rfl, rfl, rfl, rfl, ?_, ?_⟩
        · simp [gradedRow, hresult, Landing.place, Dict.get?_set]
        · simp [gradedRow, htrace, Landing.place, Dict.get?_set]
      · rw [(hfiles r hr.ending).2] at hraised
        cases hraised
  · intro hfiles
    rw [(hfiles r hr.ending).1] at hraised
    cases hraised

/-- The row of a run before what the end of the run adds: a completed one has the files of its result if
they could be written. -/
structure Drafted (b : Behaviour) (job : Job) (row : Row) (d : Directory) : Prop where
  job_eq : row.job = job
  safe : ∀ g ∈ row.graded, g.metrics.wf = true ∧ g.metrics.allStr lineSafe = true ∧
    isHash g.resultSha256 = true
  filed : b.Files → row.status = .completed → row.Filed b d

theorem drafted_open {b : Behaviour} {d : Directory} {status : Status} (h : status ≠ .completed) :
    Drafted b job (openRow job status) d :=
  ⟨rfl, nofun, fun _ he => absurd he h⟩

theorem Reached.drafted {b : Behaviour} {row : Row} {result : Fields} {ledger : Ledger} {r : Returned}
    (h : Reached b job row result ledger r) {d : Directory} (hfiled : b.Files → row.Filed b d) :
    Drafted b job row d := by
  obtain ⟨sha, hsha, rfl⟩ := h.graded
  refine ⟨rfl, ?_, fun hfiles _ => hfiled hfiles⟩
  intro g hg
  cases hg
  have hwf : r.metrics.wf = true := by
    have hfields := r.wf
    rw [Json.wf, Bool.and_eq_true, Json.wfFields_iff] at hfields
    exact hfields.2 _ (Fields.mem_of_get? r.metrics_eq)
  exact ⟨hwf, r.metrics_safe, digest_isHash hsha⟩

theorem tryRun_runs (hplace : Place jobs done job) (h : Going tiers behaviour jobs done job w)
    (b : Behaviour) : Runs (Point tiers behaviour jobs) (tryRun job tiers b) w
      (fun out v => Going tiers behaviour jobs done job v ∧ Drafted b job out.1 v.dir)
      (fun _ v => Going tiers behaviour jobs done job v) := by
  refine runs_bind (runs_attempt ((attemptRun_runs hplace h b).conseq
    (fun out v _ hv => ?_) fun e v _ hv => ?_))
  · obtain ⟨row, result, ledger, r⟩ := out
    obtain ⟨hgoing, hreached⟩ := hv
    refine runs_bind (runs_attempt ((writeFiles_runs hplace hgoing hreached).conseq
      (fun _ u _ hu => ?_) fun e u _ hu => ?_))
    · exact runs_pure ⟨hu.1, hreached.drafted hu.2⟩
    · cases e with
      | exception e => exact runs_pure ⟨hu.1, hreached.drafted fun hfiles => absurd hfiles hu.2⟩
      | interrupt => exact runs_raise hu.1
  · cases e with
    | exception e => exact runs_pure ⟨hv, drafted_open nofun⟩
    | interrupt => exact runs_raise hv

/-- The world with one more row in `runs.jsonl`. -/
def World.row (w : World) (r : Row) : World :=
  { w with dir := { w.dir with runs := w.dir.runs ++ [r] } }

/-- A row of the current run that counts its calls is recorded. -/
theorem Kept.record (h : Kept tiers behaviour jobs done (some job) w) {r : Row} (hjob : r.job = job)
    (hdig : Digestible (.obj r.dict)) (hsafe : ∀ g ∈ r.graded, g.metrics.wf = true ∧
      g.metrics.allStr lineSafe = true ∧ isHash g.resultSha256 = true)
    (htransport : w.dir.tally job.runId = r.transport)
    (hfiled : FilesWritten behaviour jobs → r.status = .completed → r.Filed (behaviour r.job) w.dir) :
    Kept tiers behaviour jobs (done ++ [job]) none (w.row r) :=
  { h with
    rows := by
      show (w.dir.runs ++ [r]).map Row.job = _
      rw [List.map_append, h.rows, List.map_singleton, hjob]
    rows_digestible := forall_mem_concat h.rows_digestible hdig
    rows_safe := forall_mem_concat h.rows_safe hsafe
    owned := by
      rw [Option.toList_none, List.append_nil]
      exact h.owned
    transport := forall_mem_concat h.transport (by rw [hjob]; exact htransport)
    filed := fun hfiles => forall_mem_concat (h.filed hfiles) (hfiled hfiles) }

theorem Kept.open (h : Kept tiers behaviour jobs done none w) (hnew : job.runId ∉ done.map Job.runId) :
    Kept tiers behaviour jobs done (some job) w ∧ w.dir.tally job.runId = 0 := by
  refine ⟨{ h with owned := fun l hl => ?_ }, ?_⟩
  · have howned := h.owned l hl
    rw [Option.toList_none, List.append_nil] at howned
    rw [List.map_append]
    exact List.mem_append_left _ howned
  · rw [Directory.tally, List.countP_eq_zero]
    intro l hl
    rw [decide_eq_true_eq]
    rintro he
    apply hnew
    have howned := h.owned l (mem_calls_of_reserved hl)
    rwa [he, Option.toList_none, List.append_nil] at howned

theorem appendRun_runs {r : Row}
    (hpoint : Digestible (.obj r.dict) → Point tiers behaviour jobs w (w.row r))
    (hok : Digestible (.obj r.dict) → post () (w.row r)) (herr : ∀ e, err e w) :
    Runs (Point tiers behaviour jobs) (appendRun r) w post err := by
  refine runs_bind (runs_eval (fun u hu => ?_) fun e _ => herr e)
  have hdig := serialised_ok hu
  exact runs_write (hpoint hdig) (hok hdig)

theorem appendLifecycle_runs {event : Fields} (h : Kept tiers behaviour jobs done current w)
    (hpre : done ++ current.toList <+: jobs)
    (hok : post () { w with dir := { w.dir with lifecycle := w.dir.lifecycle ++ [event] } })
    (herr : ∀ e, err e w) : Runs (Point tiers behaviour jobs) (appendLifecycle event) w post err := by
  refine runs_bind (runs_eval (fun u _ => ?_) fun e _ => herr e)
  exact runs_write ((h.lifecycle _).point hpre ⟨rfl, rfl, rfl, rfl, fun he => ⟨he, rfl⟩⟩) hok

theorem runJob_runs (hplace : Place jobs done job) (hjob : job ∈ jobs)
    (h : Kept tiers behaviour jobs done none w) :
    Runs (Point tiers behaviour jobs) (runJob tiers behaviour job) w
      (fun _ v => Kept tiers behaviour jobs (done ++ [job]) none v) (fun _ _ => True) := by
  obtain ⟨hopen, hzero⟩ := h.open hplace.fresh
  have hpre : (done ++ [job]) ++ Option.toList none <+: jobs := by
    rw [Option.toList_none, List.append_nil]
    exact hplace.next
  refine runs_bind (runs_read ?_)
  show Runs _ (if w.budget.exhausted = true then _ else _) w _ _
  by_cases hexhausted : w.budget.exhausted = true
  · rw [if_pos hexhausted]
    have hrow (hdig) := hopen.record (r := openRow job .notRunBudget) rfl hdig nofun hzero
      fun _ he => by cases he
    exact appendRun_runs (fun hdig => (hrow hdig).point hpre
      ⟨rfl, rfl, rfl, rfl, fun he => ⟨he, rfl⟩⟩) hrow fun _ => trivial
  · rw [if_neg hexhausted]
    have hstart : Kept tiers behaviour jobs done (some job) { w with records := 0 } :=
      hopen.congr rfl rfl
    refine runs_bind (runs_write (hstart.point hplace.prefix (Onward.frame rfl rfl)) ?_)
    refine runs_bind (appendLifecycle_runs hstart hplace.prefix ?_ fun _ => trivial)
    refine runs_bind ((tryRun_runs hplace ⟨hstart.lifecycle (w.dir.lifecycle ++ [startedEvent job]), hzero⟩
      (behaviour job)).conseq
      (fun out v _ hv => ?_) fun _ _ _ _ => trivial)
    obtain ⟨row, failed⟩ := out
    obtain ⟨hgoing, hdraft⟩ := hv
    refine runs_bind (runs_read ?_)
    have hfiled : FilesWritten behaviour jobs → row.status = .completed →
        row.Filed (behaviour row.job) v.dir := by
      intro hfiles he
      rw [show row.job = job from hdraft.job_eq]
      exact hdraft.filed (hfiles job hjob) he
    have hrow (hdig) := hgoing.kept.record (r := row.measure ⟨failed, (behaviour job).elapsedMs,
        v.budget.exhausted, v.records⟩) hdraft.job_eq hdig hdraft.safe hgoing.records
      hfiled
    refine runs_bind (appendRun_runs (fun hdig => (hrow hdig).point hpre
      ⟨rfl, rfl, rfl, rfl, fun he => ⟨he, rfl⟩⟩) (fun hdig => ?_) fun _ => trivial)
    exact appendLifecycle_runs (hrow hdig) hpre ((hrow hdig).lifecycle _) fun _ => trivial

/-- The loop of `run_study` keeps the invariant at every point. -/
theorem runJobs_runs (hids : (jobs.map Job.runId).Nodup)
    (h : Kept tiers behaviour jobs [] none w) :
    Runs (Point tiers behaviour jobs) (runJobs tiers behaviour jobs) w
      (fun _ v => Kept tiers behaviour jobs jobs none v) (fun _ _ => True) := by
  refine runs_each (I := fun done v => Kept tiers behaviour jobs done none v) h ?_
  rintro done job rest v rfl - hv
  refine runJob_runs ⟨⟨rest, by simp⟩, ?_⟩ (by simp) hv
  rw [List.map_append, List.map_cons] at hids
  exact fun hmem => List.disjoint_of_nodup_append hids hmem List.mem_cons_self

end Runs

end ResidualHarness.Study
