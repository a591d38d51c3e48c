import ResidualHarness.Station.Log
import ResidualHarness.Core.Canonical
import ResidualHarness.Python.WholeFloats

/-!
# Reports and reserved model calls

`reserve_call`, `report` and `acknowledge` of `residual/station/store.py`. A report reads the
project, the cursor of its reader and a page of events, each through a connection of its own, and
then moves the cursor to the end of the page; anything may happen between these. One reader of one
project is followed through every interleaving.
-/

set_option autoImplicit false

namespace ResidualHarness.Station

open Python Core

/-! ## Reserved calls -/

/-- A row of the `projects` table. -/
structure Project where
  id : Str
  name : Str
  goal : Str
  specHash : Str
  allowCloud : Bool
  paused : Bool
  callLimit : Int
  cloudCallLimit : Int
  requestByteLimit : Int
  callsReserved : Option Int
  cloudCallsReserved : Option Int
  requestBytesReserved : Option Int

namespace Project

/-- `p.setdefault("calls_reserved", 0)`. -/
def calls (p : Project) : Int := p.callsReserved.getD 0

/-- `p.setdefault("cloud_calls_reserved", 0)`. -/
def cloud (p : Project) : Int := p.cloudCallsReserved.getD 0

/-- `p.setdefault("request_bytes_reserved", 0)`. -/
def sent (p : Project) : Int := p.requestBytesReserved.getD 0

/-- The reserved calls and bytes are within the limits of the project. -/
def Within (p : Project) : Prop :=
  p.calls ≤ p.callLimit ∧ p.cloud ≤ p.cloudCallLimit ∧ p.sent ≤ p.requestByteLimit

/-- Two rows of a project with the same limits and permissions. -/
def SameTerms (p q : Project) : Prop :=
  q.allowCloud = p.allowCloud ∧ q.callLimit = p.callLimit ∧ q.cloudCallLimit = p.cloudCallLimit ∧
    q.requestByteLimit = p.requestByteLimit

end Project

/-- `Store.reserve_call` on the row of its project. -/
def reserveCall (p : Project) (placement : Str) (requestBytes : Int) : Except PyExn Project := do
  require (¬(p.calls ≥ p.callLimit ∨ (placement = lit "remote" ∧ p.cloud ≥ p.cloudCallLimit) ∨
      p.sent + requestBytes > p.requestByteLimit))
    (contractError "Project model-call budget is exhausted")
  require (¬(placement = lit "remote" ∧ p.allowCloud = false))
    (contractError "Cloud sharing is disabled for this project")
  return { p with
    callsReserved := some (p.calls + 1)
    cloudCallsReserved := some (p.cloud + if placement = lit "remote" then 1 else 0)
    requestBytesReserved := some (p.sent + requestBytes) }

/-- What a successful reservation is. -/
theorem reserveCall_ok {p q : Project} {placement : Str} {requestBytes : Int}
    (h : reserveCall p placement requestBytes = .ok q) :
    (placement = lit "remote" → p.allowCloud = true ∧ p.cloud < p.cloudCallLimit) ∧
      p.SameTerms q ∧ q.calls = p.calls + 1 ∧
      q.cloud = p.cloud + (if placement = lit "remote" then 1 else 0) ∧
      q.sent = p.sent + requestBytes ∧ p.calls < p.callLimit ∧ q.sent ≤ p.requestByteLimit := by
  obtain ⟨u, hbudget, h⟩ := bind_eq_ok.1 h
  obtain ⟨v, hcloud, h⟩ := bind_eq_ok.1 h
  have hb := require_eq_ok.1 hbudget
  have hc := require_eq_ok.1 hcloud
  cases h
  refine ⟨fun hr => ⟨?_, ?_⟩, ⟨rfl, rfl, rfl, rfl⟩, rfl, rfl, rfl, ?_, ?_⟩
  · by_contra hno
    exact hc ⟨hr, by simpa using hno⟩
  · by_contra hno
    exact hb (.inr (.inl ⟨hr, not_lt.1 hno⟩))
  · by_contra hno
    exact hb (.inl (not_lt.1 hno))
  · by_contra hno
    exact hb (.inr (.inr (not_le.1 hno)))

/-- A reservation stays within the limits, and without the permission none is remote. -/
theorem reserveCall_within {p q : Project} {placement : Str} {requestBytes : Int}
    (h : reserveCall p placement requestBytes = .ok q) (hp : p.Within) :
    q.Within ∧ p.SameTerms q ∧ (p.allowCloud = false → q.cloud = p.cloud) := by
  obtain ⟨hremote, hterms, hcalls, hcloud, -, hroom, hbytes⟩ := reserveCall_ok h
  obtain ⟨-, hlimit, hcloudLimit, hbyteLimit⟩ := hterms
  obtain ⟨-, hold, -⟩ := hp
  by_cases hr : placement = lit "remote"
  · obtain ⟨hallow, hfree⟩ := hremote hr
    rw [if_pos hr] at hcloud
    refine ⟨⟨by omega, by omega, by omega⟩, (reserveCall_ok h).2.1, ?_⟩
    intro hno
    rw [hno] at hallow
    cases hallow
  · rw [if_neg hr] at hcloud
    exact ⟨⟨by omega, by omega, by omega⟩, (reserveCall_ok h).2.1, fun _ => by omega⟩

/-! ## Cursors -/

/-- `Store.acknowledge`: a cursor that is there moves to the larger number. -/
def acknowledge (cursors : Dict (Str × Str) Int) (pid reader : Str) (seq : Int) :
    Dict (Str × Str) Int :=
  match cursors.get? (pid, reader) with
  | none => cursors.set (pid, reader) seq
  | some old => cursors.set (pid, reader) (max old seq)

theorem acknowledge_mono (cursors : Dict (Str × Str) Int) (pid reader : Str) (seq : Int)
    {key : Str × Str} {old : Int} (h : cursors.get? key = some old) :
    ∃ new, (acknowledge cursors pid reader seq).get? key = some new ∧ old ≤ new := by
  by_cases hk : key = (pid, reader)
  · subst hk
    refine ⟨max old seq, ?_, le_max_left old seq⟩
    rw [acknowledge, h]
    simp
  · refine ⟨old, ?_, le_refl old⟩
    rw [acknowledge]
    split <;> simp [hk, h]

/-- An acknowledgement of what lies after a cursor moves the cursor there. -/
theorem cursor_acknowledge {cursors : Dict (Str × Str) Int} {pid reader : Str} {seq : Int}
    (h : (cursors.get? (pid, reader)).getD 0 ≤ seq) :
    ((acknowledge cursors pid reader seq).get? (pid, reader)).getD 0 = seq := by
  rw [acknowledge]
  cases hold : cursors.get? (pid, reader) with
  | none => simp
  | some old =>
      rw [hold, Option.getD_some] at h
      simp only [Dict.get?_set, if_true, Option.getD_some]
      exact max_eq_right h

/-! ## Reports -/

section Reports

variable [FloatModel]

/-- An entry of the `changes` of a report. -/
structure Change where
  seq : Int
  task : Option Str
  event : Str
  data : Fields

/-- The events that a report leaves out. -/
def silent (e : LogEntry) : Bool :=
  decide (e.eventType = lit "usage.recorded" ∨ e.eventType = lit "report.generated")

/-- The `changes` of a report on a page of events. -/
def changes (es : List LogEntry) : List Change :=
  (es.filter fun e => !silent e).map fun e => ⟨e.seq, e.taskId, e.eventType, e.data⟩

theorem changes_append (es fs : List LogEntry) : changes (es ++ fs) = changes es ++ changes fs := by
  rw [changes, List.filter_append, List.map_append]
  rfl

/-- The keys of a task that a report copies. -/
def reportedKeys : List Str :=
  [lit "id", lit "title", lit "state", lit "depends_on", lit "head_commit", lit "findings"]

/-- `t["verification_receipt"]["receipt"]["receipt_hash"]`, for a task that has a receipt. -/
def receiptField (t : Fields) : Except PyExn Fields :=
  match Fields.get? t (lit "verification_receipt") with
  | none => .ok []
  | some r =>
      if r.truthy = true then do
        let receipt ← r.item (lit "receipt")
        let hash ← receipt.item (lit "receipt_hash")
        return [(lit "receipt_hash", hash)]
      else .ok []

/-- The entry of a task in a report. -/
def taskEntry (t : Fields) : Except PyExn Fields := do
  let copied ← mapE (fun key => do return (key, ← Fields.get t key)) reportedKeys
  let receipt ← receiptField t
  return copied ++ receipt

/-- What `Store.report` returns. -/
structure Report where
  project : Str
  goal : Str
  specHash : Str
  fromSeq : Int
  throughSeq : Int
  tasks : List Fields
  changes : List Change

/-- The report on a project with these tasks and this page of events. -/
def makeReport (p : Project) (tasks : List Fields) (after : Int) (es : List LogEntry) :
    Except PyExn Report := do
  let entries ← mapE taskEntry tasks
  return ⟨p.id, p.goal, p.specHash, after, lastSeq after es, entries, changes es⟩

/-! ## One reader -/

/-- Where the reader is in a report. -/
inductive Phase where
  | idle
  | opened (p : Project) (tasks : List Fields)
  | placed (p : Project) (tasks : List Fields) (after : Int)
  | fetched (p : Project) (tasks : List Fields) (after : Int) (es : List LogEntry)

/-- The tables, and the reader with the changes of its reports so far. -/
structure Feed where
  log : List LogEntry
  projects : Dict Str Project
  tasks : Dict Str (List Fields)
  cursors : Dict (Str × Str) Int
  phase : Phase
  delivered : List Change

/-- What can happen next: an event, a change of task rows, a reservation or an acknowledgement by
anyone, and the four steps of `report(pid, reader, acknowledge=True)`. -/
inductive Action where
  | append (project eventType : Str) (taskId : Option Str) (data : Fields)
  | editTasks (project : Str) (rows : List Fields)
  | reserve (project placement : Str) (requestBytes : Int)
  | acknowledge (project reader : Str) (seq : Int)
  | openProject
  | readCursor
  | readEvents
  | finish

section Reader

variable (pid reader : Str)

namespace Feed

/-- The cursor of the reader: `row[0] if row else 0`. -/
def cursor (w : Feed) : Int := (w.cursors.get? (pid, reader)).getD 0

/-- The end of a report: its value and the acknowledgement. -/
def finish (w : Feed) : Feed :=
  match w.phase with
  | .fetched p tasks after es =>
      match makeReport p tasks after es with
      | .ok r =>
          { w with
            cursors := acknowledge w.cursors pid reader r.throughSeq
            phase := .idle
            delivered := w.delivered ++ r.changes }
      | .error _ => { w with phase := .idle }
  | _ => w

/-- One step. A call that fails changes nothing, and a step of a report that is not the next one
does not happen. -/
def step (w : Feed) : Action → Feed
  | .append project eventType taskId data =>
      { w with log := appendEntry w.log project eventType taskId data }
  | .editTasks project rows => { w with tasks := w.tasks.set project rows }
  | .reserve project placement requestBytes =>
      match w.projects.get? project with
      | none => w
      | some p =>
          match reserveCall p placement requestBytes with
          | .ok q => { w with projects := w.projects.set project q }
          | .error _ => w
  | .acknowledge project name seq =>
      { w with cursors := Station.acknowledge w.cursors project name seq }
  | .openProject =>
      match w.phase, w.projects.get? pid with
      | .idle, some p => { w with phase := .opened p ((w.tasks.get? pid).getD []) }
      | _, _ => w
  | .readCursor =>
      match w.phase with
      | .opened p tasks => { w with phase := .placed p tasks (w.cursor pid reader) }
      | _ => w
  | .readEvents =>
      match w.phase with
      | .placed p tasks after => { w with phase := .fetched p tasks after (events w.log pid after 1000) }
      | _ => w
  | .finish => w.finish pid reader

/-- The steps one after another. -/
def run (w : Feed) (as : List Action) : Feed := as.foldl (step pid reader) w

/-- A reader that has not read anything, of projects within their limits. -/
structure Fresh (w : Feed) : Prop where
  sound : Sound w.log
  unread : w.cursors.get? (pid, reader) = none
  idle : w.phase = .idle
  empty : w.delivered = []
  within : ∀ key p, w.projects.get? key = some p → p.Within

/-! ### Cursors and limits, under every action -/

variable {pid reader}

theorem step_cursors (pid reader : Str) (w : Feed) (a : Action) {key : Str × Str} {old : Int}
    (h : w.cursors.get? key = some old) :
    ∃ new, (w.step pid reader a).cursors.get? key = some new ∧ old ≤ new := by
  have hsame : ∃ new, w.cursors.get? key = some new ∧ old ≤ new := ⟨old, h, le_refl old⟩
  cases a with
  | append | editTasks => exact hsame
  | reserve =>
      rw [step]
      split
      · exact hsame
      · split <;> exact hsame
  | acknowledge project name seq => exact acknowledge_mono w.cursors project name seq h
  | openProject | readCursor | readEvents =>
      rw [step]
      split <;> exact hsame
  | finish =>
      rw [step, finish]
      split
      · split
        · exact acknowledge_mono _ _ _ _ h
        · exact hsame
      · exact hsame

/-- The order of the acknowledgements does not matter: no cursor moves backwards. -/
theorem run_cursors (w : Feed) (as : List Action) {key : Str × Str} {old : Int}
    (h : w.cursors.get? key = some old) :
    ∃ new, (w.run pid reader as).cursors.get? key = some new ∧ old ≤ new := by
  induction as generalizing w old with
  | nil => exact ⟨old, h, le_refl old⟩
  | cons a as ih =>
      obtain ⟨mid, hmid, hle⟩ := step_cursors pid reader w a h
      obtain ⟨new, hnew, hle'⟩ := ih _ hmid
      exact ⟨new, hnew, hle.trans hle'⟩

/-- The reserved calls of a project later on: within the same limits, and none of them remote
without the permission. -/
def Limits (p : Project) (projects : Dict Str Project) (key : Str) : Prop :=
  ∃ q, projects.get? key = some q ∧ q.Within ∧ p.SameTerms q ∧
    (p.allowCloud = false → q.cloud = p.cloud)

theorem step_limits (w : Feed) (a : Action) {p : Project} {key : Str}
    (h : Limits p w.projects key) : Limits p (w.step pid reader a).projects key := by
  cases a with
  | append | editTasks | acknowledge => exact h
  | openProject | readCursor | readEvents =>
      rw [step]
      split <;> exact h
  | finish =>
      rw [step, finish]
      split
      · split <;> exact h
      · exact h
  | reserve project placement requestBytes =>
      rw [step]
      split
      · exact h
      · rename_i r hr
        split
        · rename_i r' hr'
          obtain ⟨q, hq, hin, ⟨ht1, ht2, ht3, ht4⟩, hcloud⟩ := h
          by_cases hk : key = project
          · subst hk
            rw [hq] at hr
            cases hr
            obtain ⟨hin', ⟨hs1, hs2, hs3, hs4⟩, hcloud'⟩ := reserveCall_within hr' hin
            refine ⟨r', by simp, hin', ⟨hs1.trans ht1, hs2.trans ht2, hs3.trans ht3, hs4.trans ht4⟩, ?_⟩
            intro hno
            rw [hcloud' (ht1.trans hno), hcloud hno]
          · exact ⟨q, by simpa [hk] using hq, hin, ⟨ht1, ht2, ht3, ht4⟩, hcloud⟩
        · exact h

theorem run_limits (w : Feed) (as : List Action) {p : Project} {key : Str}
    (h : Limits p w.projects key) : Limits p (w.run pid reader as).projects key := by
  induction as generalizing w with
  | nil => exact h
  | cons a as ih => exact ih _ (step_limits w a h)

/-! ### What the reader has been given -/

/-- A cursor value `c` has been read up to by `es` after the events up to `after`. -/
def Covers (w : Feed) (pid : Str) (after c : Int) (es : List LogEntry) : Prop :=
  after ≤ c ∧ c < nextSeq w.log ∧
    upTo LogEntry.seq c (projectLog w.log pid) = upTo LogEntry.seq after (projectLog w.log pid) ++ es

/-- Where a report of the reader stands. -/
def PhaseOk (w : Feed) (pid reader : Str) : Prop :=
  match w.phase with
  | .idle => True
  | .opened _ _ => True
  | .placed _ _ after => after = w.cursor pid reader
  | .fetched _ _ after es => after = w.cursor pid reader ∧ Covers w pid after (lastSeq after es) es

/-- The reader has been given the events up to its cursor. -/
structure Read (w : Feed) (pid reader : Str) : Prop where
  sound : Sound w.log
  cursor_lt : w.cursor pid reader < nextSeq w.log
  phase : w.PhaseOk pid reader
  delivered : w.delivered =
    changes (upTo LogEntry.seq (w.cursor pid reader) (projectLog w.log pid))

theorem Fresh.read {w : Feed} (h : w.Fresh pid reader) : w.Read pid reader := by
  have hcursor : w.cursor pid reader = 0 := by
    rw [cursor, h.unread]
    rfl
  refine ⟨h.sound, ?_, ?_, ?_⟩
  · rw [hcursor]
    exact h.sound.lt_nextSeq.1
  · rw [PhaseOk, h.idle]
    trivial
  · have hnone : ∀ e ∈ projectLog w.log pid, (0 : Int) < e.seq := fun e he =>
      h.sound.positive e (List.mem_filter.1 he).1
    rw [h.empty, hcursor, upTo_eq_nil hnone]
    rfl

/-- An event that comes in while a report is made is left for the next one. -/
theorem Read.append {w : Feed} (h : w.Read pid reader) (project eventType : Str)
    (taskId : Option Str) (data : Fields) :
    (w.step pid reader (.append project eventType taskId data)).Read pid reader := by
  have hnext := nextSeq_append w.log project eventType taskId data
  have hkeep : ∀ {c : Int}, c < nextSeq w.log →
      upTo LogEntry.seq c (projectLog (appendEntry w.log project eventType taskId data) pid) =
        upTo LogEntry.seq c (projectLog w.log pid) := fun hc =>
    upTo_projectLog_append hc pid project eventType taskId data
  refine ⟨h.sound.append _ _ _ _, ?_, ?_, ?_⟩
  · have hlt := h.cursor_lt
    show w.cursor pid reader < nextSeq (appendEntry w.log project eventType taskId data)
    omega
  · have hphase := h.phase
    rw [PhaseOk] at hphase
    rw [PhaseOk]
    show match w.phase with
      | .idle => True
      | .opened _ _ => True
      | .placed _ _ after => after = w.cursor pid reader
      | .fetched _ _ after es => after = w.cursor pid reader ∧
          Covers (w.step pid reader (.append project eventType taskId data)) pid after
            (lastSeq after es) es
    cases hp : w.phase with
    | idle => trivial
    | opened => trivial
    | placed =>
        rw [hp] at hphase
        exact hphase
    | fetched p tasks after es =>
        rw [hp] at hphase
        obtain ⟨hafter, hle, hlt, hupto⟩ := hphase
        refine ⟨hafter, hle, ?_, ?_⟩
        · show lastSeq after es < nextSeq (appendEntry w.log project eventType taskId data)
          omega
        · show upTo LogEntry.seq _ (projectLog (appendEntry w.log project eventType taskId data) pid) =
            upTo LogEntry.seq _ (projectLog (appendEntry w.log project eventType taskId data) pid) ++ es
          rw [hkeep hlt, hkeep (by omega), hupto]
  · show w.delivered = changes (upTo LogEntry.seq (w.cursor pid reader)
      (projectLog (appendEntry w.log project eventType taskId data) pid))
    rw [hkeep h.cursor_lt]
    exact h.delivered

/-- Reading a page of the events after the cursor. -/
theorem covers_events (pid : Str) {w : Feed} (hs : Sound w.log) {after : Int} (hlt : after < nextSeq w.log) :
    Covers w pid after (lastSeq after (events w.log pid after 1000)) (events w.log pid after 1000) := by
  have hin : ∀ e ∈ events w.log pid after 1000, e ∈ w.log ∧ after < e.seq := by
    intro e he
    have hmem := List.mem_filter.1 (List.mem_of_mem_take he)
    exact ⟨(List.mem_filter.1 hmem.1).1, of_decide_eq_true hmem.2⟩
  have hinc : Increasing LogEntry.seq (events w.log pid after 1000) :=
    (Increasing.unread (hs.project pid) after).sublist (List.take_sublist _ _)
  refine ⟨(pageEnd_spec hinc fun e he => (hin e he).2).1, ?_, upTo_pageEnd (hs.project pid) after 1000⟩
  -- the end of the page is the cursor or the number of an event of the log
  rw [lastSeq, pageEnd]
  cases hlast : (events w.log pid after 1000).getLast? with
  | none => exact hlt
  | some e => exact hs.lt_nextSeq.2 e (hin e (List.mem_of_getLast? hlast)).1

theorem makeReport_ok {p : Project} {tasks : List Fields} {after : Int} {es : List LogEntry}
    {r : Report} (h : makeReport p tasks after es = .ok r) :
    r.throughSeq = lastSeq after es ∧ r.changes = changes es := by
  obtain ⟨entries, -, h⟩ := bind_eq_ok.1 h
  cases h
  exact ⟨rfl, rfl⟩

theorem Read.finish {w : Feed} (h : w.Read pid reader) : (w.finish pid reader).Read pid reader := by
  rw [Feed.finish]
  split
  case h_2 => exact h
  case h_1 p tasks after es hp =>
      have hphase := h.phase
      rw [PhaseOk, hp] at hphase
      obtain ⟨hafter, hle, hlt, hupto⟩ := hphase
      split
      · rename_i r hr
        obtain ⟨hthrough, hchanges⟩ := makeReport_ok hr
        -- the cursor moves from `after` to the end of the page
        have hcursor : ((acknowledge w.cursors pid reader r.throughSeq).get? (pid, reader)).getD 0 =
            lastSeq after es := by
          rw [hthrough]
          exact cursor_acknowledge (hafter ▸ hle)
        refine ⟨h.sound, ?_, trivial, ?_⟩
        · show ((acknowledge w.cursors pid reader r.throughSeq).get? (pid, reader)).getD 0 < _
          rw [hcursor]
          exact hlt
        · show w.delivered ++ r.changes = changes (upTo LogEntry.seq
            (((acknowledge w.cursors pid reader r.throughSeq).get? (pid, reader)).getD 0)
            (projectLog w.log pid))
          rw [hcursor, hupto, changes_append, hchanges, h.delivered, hafter]
      · exact ⟨h.sound, h.cursor_lt, trivial, h.delivered⟩

/-- No step by anyone loses an event or gives it twice. -/
theorem Read.step {w : Feed} (h : w.Read pid reader) {a : Action}
    (ha : ∀ seq, a ≠ .acknowledge pid reader seq) : (w.step pid reader a).Read pid reader := by
  cases a with
  | append project eventType taskId data => exact h.append project eventType taskId data
  | editTasks => exact ⟨h.sound, h.cursor_lt, h.phase, h.delivered⟩
  | reserve =>
      rw [Feed.step]
      split
      · exact h
      · split
        · exact ⟨h.sound, h.cursor_lt, h.phase, h.delivered⟩
        · exact h
  | acknowledge project name seq =>
      -- the cursor of another reader
      have hcursor : (w.step pid reader (.acknowledge project name seq)).cursor pid reader =
          w.cursor pid reader := by
        have hne : (pid, reader) ≠ (project, name) := by
          intro heq
          cases heq
          exact ha seq rfl
        show ((acknowledge w.cursors project name seq).get? (pid, reader)).getD 0 = _
        rw [Station.acknowledge, cursor]
        split <;> simp [hne]
      have hphase := h.phase
      rw [PhaseOk] at hphase
      refine ⟨h.sound, ?_, ?_, ?_⟩
      · rw [hcursor]
        exact h.cursor_lt
      · rw [PhaseOk, hcursor]
        exact hphase
      · rw [hcursor]
        exact h.delivered
  | openProject =>
      rw [Feed.step]
      split
      · exact ⟨h.sound, h.cursor_lt, trivial, h.delivered⟩
      · exact h
  | readCursor =>
      rw [Feed.step]
      split
      · exact ⟨h.sound, h.cursor_lt, rfl, h.delivered⟩
      · exact h
  | readEvents =>
      have hphase := h.phase
      rw [PhaseOk] at hphase
      rw [Feed.step]
      split
      · rename_i p tasks after hp
        rw [hp] at hphase
        have hlt := h.cursor_lt
        rw [← hphase] at hlt
        exact ⟨h.sound, h.cursor_lt, ⟨hphase, covers_events pid h.sound hlt⟩, h.delivered⟩
      · exact h
  | finish => exact h.finish

theorem Read.run {w : Feed} (h : w.Read pid reader) {as : List Action}
    (has : ∀ seq, Action.acknowledge pid reader seq ∉ as) : (w.run pid reader as).Read pid reader := by
  induction as generalizing w with
  | nil => exact h
  | cons a as ih =>
      have ha : ∀ seq, a ≠ .acknowledge pid reader seq := by
        intro seq heq
        exact has seq (heq ▸ List.mem_cons_self)
      exact ih (h.step ha) fun seq hseq => has seq (List.mem_cons_of_mem _ hseq)

/-! ### Reports in a row -/

/-- The steps of one report. -/
def round : List Action := [.openProject, .readCursor, .readEvents, .finish]

/-- A project that reports can be made on: it is there, and its task rows have the reported keys. -/
def Reportable (w : Feed) (pid : Str) : Prop :=
  w.phase = .idle ∧ ∃ p, w.projects.get? pid = some p ∧
    ∃ entries, mapE taskEntry ((w.tasks.get? pid).getD []) = .ok entries

/-- One undisturbed report moves the cursor past the next page. -/
theorem run_round {w : Feed} (h : w.Read pid reader) (hr : w.Reportable pid) :
    (w.run pid reader round).Reportable pid ∧ (w.run pid reader round).Read pid reader ∧
      (w.run pid reader round).log = w.log ∧
      unread LogEntry.seq ((w.run pid reader round).cursor pid reader) (projectLog w.log pid) =
        (unread LogEntry.seq (w.cursor pid reader) (projectLog w.log pid)).drop 1000 := by
  have hread : (w.run pid reader round).Read pid reader := by
    apply h.run
    intro seq hseq
    simp [round] at hseq
  obtain ⟨hidle, p, hp, entries, hentries⟩ := hr
  have hopen : w.step pid reader .openProject =
      { w with phase := .opened p ((w.tasks.get? pid).getD []) } := by
    rw [step, hidle, hp]
  have hreport : ∀ es, makeReport p ((w.tasks.get? pid).getD []) (w.cursor pid reader) es =
      .ok ⟨p.id, p.goal, p.specHash, w.cursor pid reader, lastSeq (w.cursor pid reader) es, entries,
        changes es⟩ := by
    intro es
    rw [makeReport, hentries]
    rfl
  have hrun : w.run pid reader round =
      { w with
        cursors := acknowledge w.cursors pid reader
          (lastSeq (w.cursor pid reader) (events w.log pid (w.cursor pid reader) 1000))
        phase := .idle
        delivered := w.delivered ++ changes (events w.log pid (w.cursor pid reader) 1000) } := by
    show ((((w.step pid reader .openProject).step pid reader .readCursor).step pid reader
      .readEvents).step pid reader .finish) = _
    rw [hopen]
    show Feed.finish pid reader { w with
      phase := (.fetched p ((w.tasks.get? pid).getD []) (w.cursor pid reader)
        (events w.log pid (w.cursor pid reader) 1000)) } = _
    rw [Feed.finish]
    simp only [hreport]
  refine ⟨?_, hread, by rw [hrun], ?_⟩
  · rw [hrun]
    exact ⟨rfl, p, hp, entries, hentries⟩
  · have hcover := covers_events pid h.sound h.cursor_lt
    have hcursor : (w.run pid reader round).cursor pid reader =
        lastSeq (w.cursor pid reader) (events w.log pid (w.cursor pid reader) 1000) := by
      rw [hrun]
      exact cursor_acknowledge hcover.1
    rw [hcursor]
    exact unread_pageEnd (h.sound.project pid) (w.cursor pid reader) 1000

/-- Reports in a row: each leaves the rest to the next. -/
theorem run_rounds {w : Feed} (h : w.Read pid reader) (hr : w.Reportable pid) (n : Nat) :
    (w.run pid reader (List.replicate n round).flatten).Read pid reader ∧
      (w.run pid reader (List.replicate n round).flatten).log = w.log ∧
      unread LogEntry.seq ((w.run pid reader (List.replicate n round).flatten).cursor pid reader)
          (projectLog w.log pid) =
        (unread LogEntry.seq (w.cursor pid reader) (projectLog w.log pid)).drop (1000 * n) := by
  induction n generalizing w with
  | zero => exact ⟨h, rfl, rfl⟩
  | succ n ih =>
      obtain ⟨hr', h', hlog, hrest⟩ := run_round h hr
      obtain ⟨hread, hlog', hrest'⟩ := ih h' hr'
      have hsplit : w.run pid reader (List.replicate (n + 1) round).flatten =
          (w.run pid reader round).run pid reader (List.replicate n round).flatten := by
        rw [List.replicate_succ, List.flatten_cons, run, run, run, List.foldl_append]
      rw [hsplit]
      refine ⟨hread, hlog'.trans hlog, ?_⟩
      rw [hlog] at hrest'
      rw [hrest', hrest, List.drop_drop]
      congr 1
      omega

theorem run_rounds_delivers {w : Feed} (h : w.Read pid reader) (hr : w.Reportable pid) {n : Nat}
    (hn : (unread LogEntry.seq (w.cursor pid reader) (projectLog w.log pid)).length ≤ 1000 * n) :
    (w.run pid reader (List.replicate n round).flatten).delivered =
      changes (projectLog w.log pid) := by
  obtain ⟨hread, hlog, hrest⟩ := run_rounds h hr n
  have hall := upTo_append_unread (h.sound.project pid)
    ((w.run pid reader (List.replicate n round).flatten).cursor pid reader)
  rw [hrest, List.drop_eq_nil_of_le hn, List.append_nil] at hall
  rw [hread.delivered, hlog, hall]

end Feed

/-- Every reader of a project is given each of its events once and in order, however they are
interleaved with its reports; the cursors of all readers only move forward, and the reserved calls
of all projects stay within their limits. -/
theorem reports_deliver_once (w : Feed) (h : w.Fresh pid reader) (as : List Action) :
    ((∀ seq, Action.acknowledge pid reader seq ∉ as) →
      (w.run pid reader as).delivered = changes (upTo LogEntry.seq
          ((w.run pid reader as).cursor pid reader) (projectLog (w.run pid reader as).log pid)) ∧
        ∀ n, (w.run pid reader as).Reportable pid →
          (unread LogEntry.seq ((w.run pid reader as).cursor pid reader)
            (projectLog (w.run pid reader as).log pid)).length ≤ 1000 * n →
          (w.run pid reader (as ++ (List.replicate n Feed.round).flatten)).delivered =
            changes (projectLog (w.run pid reader as).log pid)) ∧
      (∀ bs key old, (w.run pid reader as).cursors.get? key = some old →
        ∃ new, (w.run pid reader (as ++ bs)).cursors.get? key = some new ∧ old ≤ new) ∧
      ∀ key p, w.projects.get? key = some p → ∃ q,
        (w.run pid reader as).projects.get? key = some q ∧ q.Within ∧ p.SameTerms q ∧
          (p.allowCloud = false → q.cloud = p.cloud) := by
  have happend : ∀ bs, w.run pid reader (as ++ bs) = (w.run pid reader as).run pid reader bs := by
    intro bs
    rw [Feed.run, Feed.run, Feed.run, List.foldl_append]
  refine ⟨?_, ?_, ?_⟩
  · intro has
    have hread := h.read.run has
    refine ⟨hread.delivered, ?_⟩
    intro n hr hn
    rw [happend]
    exact Feed.run_rounds_delivers hread hr hn
  · intro bs key old hold
    rw [happend]
    exact Feed.run_cursors _ bs hold
  · intro key p hp
    exact Feed.run_limits w as ⟨p, hp, h.within key p hp, ⟨rfl, rfl, rfl, rfl⟩, fun _ => rfl⟩

end Reader

end Reports

section Concrete

attribute [local instance] wholeFloats

/-- A project as `create_project` makes it, in a store without events. -/
def sampleFeed : Feed where
  log := []
  projects := [(lit "p-1", ⟨lit "p-1", lit "demo", lit "ship it", List.replicate 64 0x61, false, false,
    100, 30, 5000000, none, none, none⟩)]
  tasks := []
  cursors := []
  phase := .idle
  delivered := []

/-- Events of two projects and a reservation, around the first steps of a report. -/
def sampleActions : List Action :=
  [.append (lit "p-1") (lit "project.note") none [], .openProject, .readCursor,
    .append (lit "p-2") (lit "project.note") none [], .readEvents,
    .append (lit "p-1") (lit "usage.recorded") none [], .reserve (lit "p-1") (lit "remote") 10,
    .append (lit "p-1") (lit "task.finding") (some (lit "T1")) [], .finish]

theorem sampleFeed_delivers :
    (sampleFeed.run (lit "p-1") (lit "cloud-review")
        (sampleActions ++ (List.replicate 1 Feed.round).flatten)).delivered =
      changes (projectLog (sampleFeed.run (lit "p-1") (lit "cloud-review") sampleActions).log
        (lit "p-1")) := by
  have hfresh : sampleFeed.Fresh (lit "p-1") (lit "cloud-review") := by
    refine ⟨sound_nil, rfl, rfl, rfl, ?_⟩
    intro key p hp
    have hmem := Dict.mem_of_get? hp
    rw [sampleFeed, List.mem_singleton] at hmem
    cases hmem
    exact ⟨by decide, by decide, by decide⟩
  have hown : ∀ seq, Action.acknowledge (lit "p-1") (lit "cloud-review") seq ∉ sampleActions := by
    intro seq hseq
    simp [sampleActions] at hseq
  obtain ⟨-, hrounds⟩ := 
    (reports_deliver_once (lit "p-1") (lit "cloud-review") sampleFeed hfresh sampleActions).1 hown
  refine hrounds 1 ⟨rfl, _, rfl, [], rfl⟩ ?_
  decide

end Concrete

end ResidualHarness.Station
