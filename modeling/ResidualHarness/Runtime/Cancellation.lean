import ResidualHarness.Python.Dict
import ResidualHarness.Python.Text

/-!
# Cancellation of tasks

`CancellationController` of `residual/runtime/cancellation.py` in its event loop. Tasks are tracked,
they finish, their done-callbacks run, and aborts start and wake up, in any order; what was tracked
before is kept as a history. The registry has one task for each name, and a done-callback removes
whatever stands under its name (`abort_fail_closed`).
-/

set_option autoImplicit false

namespace ResidualHarness.Runtime

open Python

/-- `CancellationBudget`, with the check of its constructor passed. -/
structure CancellationBudget where
  budgetS : Rat
  positive : 0 < budgetS

/-- `CancellationReport`. -/
structure CancellationReport where
  cancelled : Bool
  propagated : Nat
  survived : List Str
  reason : Str
  outcomes : List (Str × Str)

/-- How a task ended: with a result, cancelled, or with an exception of a type. -/
inductive Ending where
  | completed
  | cancelled
  | error (type : Str)

variable {Task : Type}

/-- A call of `abort` that waits: what had been tracked before it, and the items it took from the
registry. -/
structure Abort (Task : Type) where
  before : List (Task × Str)
  items : List (Str × Task)
deriving DecidableEq

/-- A controller in its event loop: the registry `_tasks`, how tasks have ended, the done-callbacks that
have not run, the calls of `cancel`, every task ever tracked with its name, and the aborts that wait. -/
structure Loop (Task : Type) where
  tasks : Dict Str Task
  ending : Task → Option Ending
  callbacks : List (Task × Str)
  requests : List Task
  tracked : List (Task × Str)
  aborts : List (Abort Task)

/-- A new controller. -/
def Loop.start : Loop Task := ⟨[], fun _ => none, [], [], [], []⟩

/-- What the event loop can do: a call of `track`, the end of a task, a done-callback, a call of
`abort`, and the return of `asyncio.wait` in an abort. -/
inductive Event (Task : Type) where
  | track (task : Task) (name : Option Str)
  | finish (task : Task) (ending : Ending)
  | callback (task : Task) (name : Str)
  | abort
  | wake (call : Abort Task) (elapsedS : Rat)

namespace Loop

/-- `task.done()`. -/
def done (s : Loop Task) (t : Task) : Bool := (s.ending t).isSome

/-- `active`. -/
def active (s : Loop Task) : List Str := s.tasks.keys.insertionSort (· ≤ ·)

/-- The items of the registry that `abort` waits for. -/
def running (s : Loop Task) : List (Str × Task) :=
  (s.tasks.insertionSort fun p q => p.1 ≤ q.1).filter fun p => !s.done p.2

/-- The outcome of a task in the report. -/
def outcome (s : Loop Task) (t : Task) : Str :=
  match s.ending t with
  | none => lit "budget_exceeded"
  | some .cancelled => lit "cancelled"
  | some (.error type) => lit "error:" ++ type
  | some .completed => lit "completed"

/-- The report of `abort` after the wait. -/
def report (s : Loop Task) (a : Abort Task) : CancellationReport :=
  let survived := (a.items.filter fun p => !s.done p.2).map Prod.fst
  let outcomes := a.items.map fun p => (p.1, s.outcome p.2)
  if survived = [] then
    ⟨true, a.items.length, [], lit "propagated_within_budget", outcomes⟩
  else
    ⟨false, a.items.length, survived.insertionSort (· ≤ ·), lit "cancellation_budget_exceeded", outcomes⟩

/-- Every tracked task that is not done stands in the registry under its name. -/
def Represented (s : Loop Task) : Prop :=
  ∀ p ∈ s.tracked, s.done p.1 = false → s.tasks.get? p.2 = some p.1 ∧ p.2 ∈ s.active

/-- A report that says `cancelled` is given when all that was tracked before the abort is done, and
another one lists, once each, the names of what is still running. -/
def Honest (s : Loop Task) (a : Abort Task) (r : CancellationReport) : Prop :=
  (r.cancelled = true → ∀ p ∈ a.before, s.done p.1 = true) ∧
  (r.cancelled = false → r.survived.Nodup ∧
    ∀ name, name ∈ r.survived ↔ ∃ t, (t, name) ∈ a.before ∧ s.done t = false)

/-! ## Runs -/

section Runs

variable [DecidableEq Task] (getName : Task → Str) (budget : CancellationBudget)

/-- `name or task.get_name()`. -/
def key (t : Task) (name : Option Str) : Str :=
  match name with
  | none => getName t
  | some name => if name = [] then getName t else name

/-- One event, if it can happen, and the report if it ends an abort. A done-callback runs some time
after its task has ended; `asyncio.wait` returns when all tasks are done or the budget is used up. -/
def step (s : Loop Task) : Event Task → Option (Loop Task × Option (Abort Task × CancellationReport))
  | .track t name =>
      let name := key getName t name
      some ({ s with tasks := s.tasks.set name t, callbacks := s.callbacks ++ [(t, name)],
                     tracked := s.tracked ++ [(t, name)] }, none)
  | .finish t ending =>
      if s.done t then none
      else some ({ s with ending := Function.update s.ending t (some ending) }, none)
  | .callback t name =>
      if (t, name) ∈ s.callbacks ∧ s.done t = true then
        some ({ s with callbacks := s.callbacks.erase (t, name), tasks := s.tasks.pop name }, none)
      else none
  | .abort =>
      if s.running = [] then
        some (s, some (⟨s.tracked, []⟩, ⟨true, 0, [], lit "no_active_operations", []⟩))
      else
        some ({ s with requests := s.requests ++ s.running.map Prod.snd,
                       aborts := s.aborts ++ [⟨s.tracked, s.running⟩] }, none)
  | .wake a elapsedS =>
      if a ∈ s.aborts ∧ ((∀ p ∈ a.items, s.done p.2 = true) ∨ budget.budgetS ≤ elapsedS) then
        some ({ s with aborts := s.aborts.erase a }, some (a, s.report a))
      else none

/-- The states that events reach, each of them allowed in its state. -/
inductive Reach (allowed : Loop Task → Event Task → Prop) : Loop Task → Prop
  | start : Reach allowed start
  | step {s s' : Loop Task} {e : Event Task} {out : Option (Abort Task × CancellationReport)} :
      Reach allowed s → allowed s e → s.step getName budget e = some (s', out) → Reach allowed s'

/-- At any moment of a run the running tasks are in the registry, and the reports of aborts are
honest. -/
def FailClosed (allowed : Loop Task → Event Task → Prop) : Prop :=
  ∀ s, Reach getName budget allowed s → s.Represented ∧
    ∀ e s' a r, allowed s e → s.step getName budget e = some (s', some (a, r)) → s'.Honest a r

/-- A name is not tracked while the done-callback of another task under that name is to come. -/
def nameFree (s : Loop Task) : Event Task → Prop
  | .track t name => ∀ p ∈ s.callbacks, p.2 = key getName t name → p.1 = t
  | _ => True

end Runs

/-! ## The invariant -/

/-- The items of an abort are the running ones of what was tracked before it. -/
structure Covers (s : Loop Task) (a : Abort Task) : Prop where
  all : ∀ p ∈ a.before, s.done p.1 = false → (p.2, p.1) ∈ a.items
  only : ∀ q ∈ a.items, (q.2, q.1) ∈ a.before
  names : (a.items.map Prod.fst).Nodup

/-- What holds when names are only tracked free: a running task has its done-callback to come, the
registry has the tasks of these, and under one name they are of one task. -/
structure Inv (s : Loop Task) : Prop where
  pending : ∀ p ∈ s.tracked, s.done p.1 = false → p ∈ s.callbacks
  present : ∀ p ∈ s.callbacks, s.done p.1 = false → s.tasks.get? p.2 = some p.1
  single : ∀ p ∈ s.callbacks, ∀ q ∈ s.callbacks, p.2 = q.2 → p.1 = q.1
  names : s.tasks.keys.Nodup
  origin : ∀ q ∈ s.tasks, (q.2, q.1) ∈ s.tracked
  covers : ∀ a ∈ s.aborts, s.Covers a

theorem inv_start : (start : Loop Task).Inv where
  pending := nofun
  present := nofun
  single := nofun
  names := List.nodup_nil
  origin := nofun
  covers := nofun

theorem mem_running {s : Loop Task} {q : Str × Task} :
    q ∈ s.running ↔ q ∈ s.tasks ∧ s.done q.2 = false := by
  simp [running, List.mem_insertionSort]

theorem Inv.represented {s : Loop Task} (h : s.Inv) : s.Represented := by
  intro p hp hrun
  have hget := h.present p (h.pending p hp hrun) hrun
  exact ⟨hget, (List.mem_insertionSort _).2 (Dict.mem_keys_of_get? hget)⟩

/-- An abort covers what has been tracked when it starts. -/
theorem Inv.covers_running {s : Loop Task} (h : s.Inv) : s.Covers ⟨s.tracked, s.running⟩ where
  all p hp hrun := mem_running.2 ⟨Dict.mem_of_get? (h.represented p hp hrun).1, hrun⟩
  only q hq := h.origin q (mem_running.1 hq).1
  names := by
    refine List.Nodup.sublist (List.Sublist.map _ List.filter_sublist) ?_
    exact (((List.perm_insertionSort _ _).map _).nodup_iff).2 h.names

theorem Covers.later {s s' : Loop Task} {a : Abort Task} (h : s.Covers a)
    (hdone : ∀ t, s'.done t = false → s.done t = false) : s'.Covers a :=
  ⟨fun p hp hrun => h.all p hp (hdone _ hrun), h.only, h.names⟩

/-! ## Events -/

theorem Inv.track {s : Loop Task} (h : s.Inv) {t : Task} {name : Str}
    (hfree : ∀ p ∈ s.callbacks, p.2 = name → p.1 = t) :
    Inv { s with tasks := s.tasks.set name t, callbacks := s.callbacks ++ [(t, name)],
                 tracked := s.tracked ++ [(t, name)] } where
  pending p hp hrun := by
    rcases List.mem_append.1 hp with hp | hp
    · exact List.mem_append_left _ (h.pending p hp hrun)
    · exact List.mem_append_right _ hp
  present p hp hrun := by
    rw [Dict.get?_set]
    rcases List.mem_append.1 hp with hp | hp
    · by_cases hname : p.2 = name
      · rw [if_pos hname, hfree p hp hname]
      · rw [if_neg hname]
        exact h.present p hp hrun
    · cases List.mem_singleton.1 hp
      exact if_pos rfl
  single p hp q hq hpq := by
    rcases List.mem_append.1 hp with hp | hp <;> rcases List.mem_append.1 hq with hq | hq
    · exact h.single p hp q hq hpq
    · cases List.mem_singleton.1 hq
      exact hfree p hp hpq
    · cases List.mem_singleton.1 hp
      exact (hfree q hq hpq.symm).symm
    · cases List.mem_singleton.1 hp
      cases List.mem_singleton.1 hq
      rfl
  names := Dict.nodup_set h.names _ _
  origin q hq := by
    have hget := Dict.get?_of_mem (Dict.nodup_set h.names name t) hq
    rw [Dict.get?_set] at hget
    split at hget
    · rename_i hname
      cases hget
      rw [hname]
      exact List.mem_append_right _ List.mem_cons_self
    · exact List.mem_append_left _ (h.origin q (Dict.mem_of_get? hget))
  covers a ha := (h.covers a ha).later fun _ hrun => hrun

theorem Inv.abort {s : Loop Task} (h : s.Inv) :
    Inv { s with requests := s.requests ++ s.running.map Prod.snd,
                 aborts := s.aborts ++ [⟨s.tracked, s.running⟩] } where
  pending := h.pending
  present := h.present
  single := h.single
  names := h.names
  origin := h.origin
  covers a ha := by
    rcases List.mem_append.1 ha with ha | ha
    · exact (h.covers a ha).later fun _ hrun => hrun
    · cases List.mem_singleton.1 ha
      exact h.covers_running.later fun _ hrun => hrun

/-- The report of an abort is honest if the abort covers what had been tracked. -/
theorem Covers.honest {s : Loop Task} {a : Abort Task} (h : s.Covers a) : s.Honest a (s.report a) := by
  have hsurvived : ∀ name, name ∈ (a.items.filter fun p => !s.done p.2).map Prod.fst ↔
      ∃ t, (t, name) ∈ a.before ∧ s.done t = false := by
    intro name
    constructor
    · intro hname
      obtain ⟨q, hq, rfl⟩ := List.mem_map.1 hname
      obtain ⟨hq, hrun⟩ := List.mem_filter.1 hq
      exact ⟨q.2, h.only q hq, by simpa using hrun⟩
    · rintro ⟨t, ht, hrun⟩
      exact List.mem_map.2 ⟨(name, t), List.mem_filter.2 ⟨h.all _ ht hrun, by simp [hrun]⟩, rfl⟩
  simp only [report]
  split
  · rename_i hnone
    refine ⟨fun _ p hp => ?_, nofun⟩
    -- A task that still runs would be a survivor.
    by_contra hrun
    have hmem := (hsurvived p.2).2 ⟨p.1, hp, by simpa using hrun⟩
    rw [hnone] at hmem
    cases hmem
  · refine ⟨nofun, fun _ => ⟨?_, fun name => ?_⟩⟩
    · refine (List.perm_insertionSort _ _).nodup_iff.2 ?_
      exact h.names.sublist (List.filter_sublist.map _)
    · exact (List.mem_insertionSort _).trans (hsurvived name)

variable [DecidableEq Task]

theorem done_finish {s : Loop Task} {t t' : Task} {ending : Ending}
    (h : ({ s with ending := Function.update s.ending t (some ending) } : Loop Task).done t' = false) :
    s.done t' = false := by
  by_cases ht : t' = t
  · subst ht
    simp [done] at h
  · simpa [done, Function.update_of_ne ht] using h

theorem Inv.finish {s : Loop Task} (h : s.Inv) (t : Task) (ending : Ending) :
    Inv { s with ending := Function.update s.ending t (some ending) } where
  pending p hp hrun := h.pending p hp (done_finish hrun)
  present p hp hrun := h.present p hp (done_finish hrun)
  single := h.single
  names := h.names
  origin := h.origin
  covers a ha := (h.covers a ha).later fun _ hrun => done_finish hrun

/-- The done-callback of a task removes no other task, since no other one has a callback for the
name. -/
theorem Inv.callback {s : Loop Task} (h : s.Inv) {t : Task} {name : Str}
    (ht : (t, name) ∈ s.callbacks) (hdone : s.done t = true) :
    Inv { s with callbacks := s.callbacks.erase (t, name), tasks := s.tasks.pop name } where
  pending p hp hrun := by
    refine (List.mem_erase_of_ne ?_).2 (h.pending p hp hrun)
    rintro rfl
    exact Bool.false_ne_true (hrun.symm.trans hdone)
  present p hp hrun := by
    have hp := List.mem_of_mem_erase hp
    rw [Dict.get?_pop, if_neg]
    · exact h.present p hp hrun
    · intro hname
      have hpt : p.1 = t := h.single p hp _ ht hname
      have hrun : s.done p.1 = false := hrun
      rw [hpt, hdone] at hrun
      cases hrun
  single p hp q hq := h.single p (List.mem_of_mem_erase hp) q (List.mem_of_mem_erase hq)
  names := Dict.nodup_pop h.names _
  origin q hq := h.origin q ((Dict.pop_sublist _ _).subset hq)
  covers a ha := (h.covers a ha).later fun _ hrun => hrun

theorem Inv.wake {s : Loop Task} (h : s.Inv) (a : Abort Task) :
    Inv { s with aborts := s.aborts.erase a } where
  pending := h.pending
  present := h.present
  single := h.single
  names := h.names
  origin := h.origin
  covers b hb := (h.covers b (List.mem_of_mem_erase hb)).later fun _ hrun => hrun

variable {getName : Task → Str} {budget : CancellationBudget}

/-- What one event does: the invariant stays, and a report is honest. -/
theorem Inv.step {s s' : Loop Task} (h : s.Inv) {e : Event Task} (hfree : s.nameFree getName e)
    {out : Option (Abort Task × CancellationReport)} (hstep : s.step getName budget e = some (s', out)) :
    s'.Inv ∧ ∀ a r, out = some (a, r) → s'.Honest a r := by
  cases e with
  | track t name =>
      cases hstep
      exact ⟨h.track hfree, nofun⟩
  | finish t ending =>
      simp only [Loop.step] at hstep
      split at hstep
      · cases hstep
      · cases hstep
        exact ⟨h.finish t ending, nofun⟩
  | callback t name =>
      simp only [Loop.step] at hstep
      split at hstep
      · rename_i hcall
        cases hstep
        exact ⟨h.callback hcall.1 hcall.2, nofun⟩
      · cases hstep
  | abort =>
      simp only [Loop.step] at hstep
      split at hstep
      · rename_i hnone
        cases hstep
        refine ⟨h, ?_⟩
        rintro a r ⟨⟩
        refine ⟨fun _ p hp => ?_, nofun⟩
        by_contra hrun
        have hmem := h.covers_running.all p hp (by simpa using hrun)
        rw [hnone] at hmem
        cases hmem
      · cases hstep
        exact ⟨h.abort, nofun⟩
  | wake a elapsedS =>
      simp only [Loop.step] at hstep
      split at hstep
      · rename_i hwake
        cases hstep
        refine ⟨h.wake a, ?_⟩
        rintro b r ⟨⟩
        exact Covers.honest ((h.covers a hwake.1).later fun _ hrun => hrun)
      · cases hstep

theorem Reach.inv {s : Loop Task} (h : Reach getName budget (nameFree getName) s) : s.Inv := by
  induction h with
  | start => exact inv_start
  | step _ hfree hstep ih => exact (ih.step hfree hstep).1

/-- Abort is fail closed in every run that tracks a name only when no done-callback of another task
under that name is to come. -/
theorem abort_fail_closed (getName : Task → Str) (budget : CancellationBudget) :
    FailClosed getName budget (nameFree getName) := by
  intro s hs
  refine ⟨hs.inv.represented, ?_⟩
  intro e s' a r hfree hstep
  exact (hs.inv.step hfree hstep).2 a r rfl

/-- Two tasks under one name: the end of the first one takes the second one out of the registry, and
an abort then reports that nothing runs. -/
theorem reused_name_escapes :
    ¬ FailClosed (fun n : Nat => natRepr n) ⟨1, by decide⟩ fun _ _ => True := by
  intro h
  have hreach : Reach (fun n : Nat => natRepr n) ⟨1, by decide⟩ (fun _ _ => True) _ :=
    (((Reach.start.step (e := .track 0 (some (lit "op"))) trivial rfl).step
      (e := .track 1 (some (lit "op"))) trivial rfl).step
      (e := .finish 0 .completed) trivial rfl).step (e := .callback 0 (lit "op")) trivial rfl
  have hhonest := (h _ hreach).2 .abort _ _ _ trivial rfl
  exact absurd (hhonest.1 rfl (1, lit "op") (by decide)) (by decide)

end Loop

end ResidualHarness.Runtime
