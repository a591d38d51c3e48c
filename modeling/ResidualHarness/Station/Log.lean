import ResidualHarness.Python.Paging
import ResidualHarness.Python.Compare
import ResidualHarness.Python.Loops

/-!
# The event log of the station

What the readers of the `events` table of `residual/station/store.py` use of its rows. The sequence
numbers are those of all projects together and are never used twice; `events` gives a reader the
next page of one project. Appending an event keeps the log sound (`Sound.append`) and adds at most
that event to the events of a project (`projectLog_append`).
-/

set_option autoImplicit false

namespace ResidualHarness.Station

open Python

variable [FloatModel]

/-- A row of the `events` table as its readers see it. -/
structure LogEntry where
  seq : Int
  project : Str
  eventType : Str
  taskId : Option Str
  data : Fields

/-- The next value of an `AUTOINCREMENT` key of a table no row is deleted from. -/
def nextSeq (log : List LogEntry) : Int := pageEnd LogEntry.seq 0 log + 1

/-- `INSERT INTO events`. -/
def appendEntry (log : List LogEntry) (project eventType : Str) (taskId : Option Str)
    (data : Fields) : List LogEntry :=
  log ++ [⟨nextSeq log, project, eventType, taskId, data⟩]

/-- The events of a project. -/
def projectLog (log : List LogEntry) (pid : Str) : List LogEntry :=
  log.filter fun e => decide (e.project = pid)

/-- `Store.events(pid, after, limit)`. -/
def events (log : List LogEntry) (pid : Str) (after : Int) (limit : Nat) : List LogEntry :=
  page LogEntry.seq after limit (projectLog log pid)

/-- `events[-1]["seq"] if events else after`. -/
def lastSeq (after : Int) (es : List LogEntry) : Int := pageEnd LogEntry.seq after es

/-- The sequence numbers of a log are positive and increase. -/
structure Sound (log : List LogEntry) : Prop where
  increasing : Increasing LogEntry.seq log
  positive : ∀ e ∈ log, 0 < e.seq

theorem sound_nil : Sound [] := ⟨List.Pairwise.nil, fun _ he => absurd he List.not_mem_nil⟩

theorem Sound.lt_nextSeq {log : List LogEntry} (h : Sound log) :
    0 < nextSeq log ∧ ∀ e ∈ log, e.seq < nextSeq log := by
  obtain ⟨hle, hkeys⟩ := pageEnd_spec h.increasing h.positive
  rw [nextSeq]
  refine ⟨by omega, fun e he => ?_⟩
  have hkey := hkeys e he
  omega

theorem nextSeq_append (log : List LogEntry) (project eventType : Str) (taskId : Option Str)
    (data : Fields) : nextSeq (appendEntry log project eventType taskId data) = nextSeq log + 1 := by
  rw [nextSeq, appendEntry, pageEnd, List.getLast?_concat]
  rfl

theorem Sound.append {log : List LogEntry} (h : Sound log) (project eventType : Str)
    (taskId : Option Str) (data : Fields) : Sound (appendEntry log project eventType taskId data) := by
  obtain ⟨hpos, hlt⟩ := h.lt_nextSeq
  constructor
  · refine List.pairwise_append.2 ⟨h.increasing, List.pairwise_singleton _ _, ?_⟩
    intro a ha b hb
    rw [List.mem_singleton.1 hb]
    exact hlt a ha
  · intro e he
    rcases List.mem_append.1 he with he | he
    · exact h.positive e he
    · rw [List.mem_singleton.1 he]
      exact hpos

theorem Sound.project {log : List LogEntry} (h : Sound log) (pid : Str) :
    Increasing LogEntry.seq (projectLog log pid) := h.increasing.filter _

theorem projectLog_append (log : List LogEntry) (pid project eventType : Str) (taskId : Option Str)
    (data : Fields) :
    projectLog (appendEntry log project eventType taskId data) pid =
      projectLog log pid ++
        if project = pid then [⟨nextSeq log, project, eventType, taskId, data⟩] else [] := by
  rw [appendEntry, projectLog, List.filter_append]
  by_cases hp : project = pid
  · rw [if_pos hp, List.filter_cons_of_pos (by simpa using hp), List.filter_nil]
    rfl
  · rw [if_neg hp, List.filter_cons_of_neg (by simpa using hp), List.filter_nil]
    rfl

/-- An event that is appended after a cursor was read is not up to that cursor. -/
theorem upTo_projectLog_append {log : List LogEntry} {c : Int} (hc : c < nextSeq log)
    (pid project eventType : Str) (taskId : Option Str) (data : Fields) :
    upTo LogEntry.seq c (projectLog (appendEntry log project eventType taskId data) pid) =
      upTo LogEntry.seq c (projectLog log pid) := by
  have hnew : ∀ a ∈ (if project = pid then
      [(⟨nextSeq log, project, eventType, taskId, data⟩ : LogEntry)] else []), c < a.seq := by
    intro a ha
    split at ha
    · rw [List.mem_singleton.1 ha]
      exact hc
    · exact absurd ha List.not_mem_nil
  rw [projectLog_append, upTo_append, upTo_eq_nil hnew, List.append_nil]

end ResidualHarness.Station
