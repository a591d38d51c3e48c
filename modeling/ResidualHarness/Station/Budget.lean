import ResidualHarness.Station.Log
import ResidualHarness.Core.Canonical
import ResidualHarness.Python.WholeFloats
import Mathlib.Algebra.Order.BigOperators.Group.List

/-!
# Admission to the run budget

`BudgetAdmission` and the accounting of `MissionPass` in `residual/station/control.py`. Workers
append events, hold reservations and give them back, in any order. The gate and the passes read the
log in pages of 100000 events and take the end of a page for the end of the log.
-/

set_option autoImplicit false

namespace ResidualHarness.Station

open Python Core

section Budget

variable [FloatModel]

/-! ## Usage -/

/-- A usage receipt. -/
def isUsage (e : LogEntry) : Bool := decide (e.eventType = lit "usage.recorded")

/-- The values that are accepted: `type(v) is int` and `v >= 0`. -/
def tokenCount : Option Json → Option Int
  | some (.int i) => if 0 ≤ i then some i else none
  | _ => none

/-- The input and output tokens of a receipt; `none` if one of them is not a count. -/
def tokens (e : LogEntry) : Option Int :=
  match tokenCount (Fields.get? e.data (lit "input_tokens")),
      tokenCount (Fields.get? e.data (lit "output_tokens")) with
  | some i, some o => some (i + o)
  | _, _ => none

/-- The usage that a receipt counts for. -/
def usageOf (e : LogEntry) : Int := if isUsage e then (tokens e).getD 0 else 0

/-- A usage receipt that cannot be counted. -/
def isInvalid (e : LogEntry) : Bool := isUsage e && (tokens e).isNone

/-- The valid usage recorded by these events. -/
def usage (es : List LogEntry) : Int := (es.map usageOf).sum

/-- One of these events is an invalid receipt. -/
def invalid (es : List LogEntry) : Bool := es.any isInvalid

theorem tokenCount_nonneg {v : Option Json} {i : Int} (h : tokenCount v = some i) : 0 ≤ i := by
  unfold tokenCount at h
  split at h
  · split at h
    · rename_i hi
      cases h
      exact hi
    · cases h
  · cases h

theorem tokens_nonneg {e : LogEntry} {u : Int} (h : tokens e = some u) : 0 ≤ u := by
  rw [tokens] at h
  split at h
  · rename_i i o hi ho
    cases h
    have h1 := tokenCount_nonneg hi
    have h2 := tokenCount_nonneg ho
    omega
  · cases h

theorem usageOf_nonneg (e : LogEntry) : 0 ≤ usageOf e := by
  rw [usageOf]
  split
  · cases h : tokens e with
    | none => exact le_refl 0
    | some u => exact tokens_nonneg h
  · exact le_refl 0

theorem usage_nonneg (es : List LogEntry) : 0 ≤ usage es := by
  apply List.sum_nonneg
  intro u hu
  obtain ⟨e, -, rfl⟩ := List.mem_map.1 hu
  exact usageOf_nonneg e

theorem usage_append (es fs : List LogEntry) : usage (es ++ fs) = usage es + usage fs := by
  rw [usage, List.map_append, List.sum_append]
  rfl

theorem invalid_append (es fs : List LogEntry) : invalid (es ++ fs) = (invalid es || invalid fs) :=
  List.any_append

/-! ## The gate -/

/-- `BudgetAdmission`, with the two budgets of the spec it is bound to. -/
structure Gate where
  seen : Int
  used : Int
  reserved : Int
  worstCall : Int
  unknown : Bool
  tokenBudget : Int
  wallClockBudget : ℚ

/-- `BudgetAdmission(station, pid, cursor)`. -/
def Gate.make (cursor tokenBudget : Int) (wallClockBudget : ℚ) : Gate :=
  ⟨cursor, 0, 0, 0, false, tokenBudget, wallClockBudget⟩

namespace Gate

/-- One round of the loop of `_refresh`. -/
def observe (g : Gate) (e : LogEntry) : Gate :=
  if isUsage e then
    match tokens e with
    | none => { g with seen := e.seq, unknown := true }
    | some u => { g with seen := e.seq, used := g.used + u, worstCall := max g.worstCall u }
  else { g with seen := e.seq }

/-- `_refresh()`. -/
def refresh (g : Gate) (log : List LogEntry) (pid : Str) : Gate :=
  (events log pid g.seen 100000).foldl observe g

/-- `_denial()`, at a reading of the clock since the start. -/
def denial (g : Gate) (elapsed : ℚ) : Option Str :=
  if g.unknown then some (lit "usage_unknown_or_invalid")
  else if elapsed ≥ g.wallClockBudget then some (lit "wall_clock_budget_exhausted")
  else if g.used + g.reserved ≥ g.tokenBudget then some (lit "token_budget_exhausted")
  else none

/-- `admit()`: the reason of a refusal, or the reservation. -/
def admitCall (g : Gate) (log : List LogEntry) (pid : Str) (elapsed : ℚ) : Except Str Int × Gate :=
  let g := g.refresh log pid
  match g.denial elapsed with
  | some reason => (.error reason, g)
  | none =>
      let reservation := max 1 g.worstCall
      if g.used + g.reserved + reservation ≥ g.tokenBudget then (.error (lit "token_budget_exhausted"), g)
      else (.ok reservation, { g with reserved := g.reserved + reservation })

/-- `release(reservation)`. -/
def release (g : Gate) (log : List LogEntry) (pid : Str) (reservation : Int) : Gate :=
  let g := g.refresh log pid
  { g with reserved := max 0 (g.reserved - reservation) }

/-- `denial_reason()`. -/
def denialReason (g : Gate) (log : List LogEntry) (pid : Str) (elapsed : ℚ) : Option Str × Gate :=
  let g := g.refresh log pid
  (g.denial elapsed, g)

theorem foldl_observe (es : List LogEntry) (g : Gate) :
    (es.foldl observe g).used = g.used + usage es ∧
      (es.foldl observe g).unknown = (g.unknown || invalid es) ∧
      (es.foldl observe g).seen = lastSeq g.seen es ∧
      (es.foldl observe g).reserved = g.reserved ∧
      (es.foldl observe g).tokenBudget = g.tokenBudget := by
  induction es using List.reverseRecOn with
  | nil =>
      refine ⟨?_, ?_, rfl, rfl, rfl⟩
      · simp [usage]
      · simp [invalid]
  | append_singleton es e ih =>
      obtain ⟨hused, hunknown, -, hreserved, hbudget⟩ := ih
      have hlast : lastSeq g.seen (es ++ [e]) = e.seq := by
        rw [lastSeq, pageEnd, List.getLast?_concat]
        rfl
      have hu : usage [e] = usageOf e := List.sum_singleton
      have hi : invalid [e] = isInvalid e := by simp [invalid]
      rw [List.foldl_append, usage_append, invalid_append, hlast, hu, hi]
      show (observe (es.foldl observe g) e).used = _ ∧ _
      rw [List.foldl_cons, List.foldl_nil, observe, usageOf, isInvalid]
      cases hkind : isUsage e with
      | false => simp [hused, hunknown, hreserved, hbudget]
      | true =>
          cases ht : tokens e with
          | none => simp [hused, hreserved, hbudget]
          | some u => simp [hused, hunknown, hreserved, hbudget, add_assoc]

end Gate

/-! ## Passes -/

/-- The loop of `MissionPass._result`: it stops at the first invalid receipt. -/
def resultLoop : Int → List LogEntry → Option Int
  | used, [] => some used
  | used, e :: es =>
      if isUsage e then
        match tokens e with
        | none => none
        | some u => resultLoop (used + u) es
      else resultLoop used es

/-- The `tokens_used` of `_result(cursor)`. -/
def resultTokens (log : List LogEntry) (pid : Str) (cursor : Int) : Option Int :=
  resultLoop 0 (events log pid cursor 100000)

theorem resultLoop_eq (es : List LogEntry) (used : Int) :
    resultLoop used es = if invalid es then none else some (used + usage es) := by
  induction es generalizing used with
  | nil => simp [resultLoop, invalid, usage]
  | cons e es ih =>
      have hu : usage (e :: es) = usageOf e + usage es := List.sum_cons
      have hi : invalid (e :: es) = (isInvalid e || invalid es) := List.any_cons
      rw [resultLoop, hu, hi, usageOf, isInvalid]
      cases hkind : isUsage e with
      | false =>
          rw [if_neg (by simp), ih]
          simp
      | true =>
          rw [if_pos rfl]
          cases ht : tokens e with
          | none => simp
          | some u =>
              show resultLoop (used + u) es = _
              rw [ih]
              simp [add_assoc]

/-- `before[-1]["seq"] if before else 0`, with `before = store.events(pid, 0, 100000)`. -/
def startCursor (log : List LogEntry) (pid : Str) : Int := lastSeq 0 (events log pid 0 100000)

/-! ## Positions of cursors -/

/-- A cursor stands after the first `k` events of the project. -/
def At (log : List LogEntry) (pid : Str) (c : Int) (k : Nat) : Prop :=
  k ≤ (projectLog log pid).length ∧ c < nextSeq log ∧
    upTo LogEntry.seq c (projectLog log pid) = (projectLog log pid).take k

section Cursors

variable {log : List LogEntry} {pid : Str} {c : Int} {k : Nat}

theorem at_zero (hs : Sound log) : At log pid 0 0 := by
  refine ⟨Nat.zero_le _, hs.lt_nextSeq.1, ?_⟩
  have hpos : ∀ e ∈ projectLog log pid, (0 : Int) < e.seq := fun e he =>
    hs.positive e (List.mem_filter.1 he).1
  rw [upTo_eq_nil hpos, List.take_zero]

theorem At.rest (hs : Sound log) (h : At log pid c k) :
    unread LogEntry.seq c (projectLog log pid) = (projectLog log pid).drop k := by
  have hsplit := upTo_append_unread (hs.project pid) c
  rw [h.2.2] at hsplit
  exact List.append_cancel_left (hsplit.trans (List.take_append_drop k _).symm)

theorem At.append (h : At log pid c k) (project eventType : Str) (taskId : Option Str)
    (data : Fields) : At (appendEntry log project eventType taskId data) pid c k := by
  obtain ⟨hk, hlt, hupto⟩ := h
  refine ⟨?_, ?_, ?_⟩
  · rw [projectLog_append, List.length_append]
    omega
  · rw [nextSeq_append]
    omega
  · rw [upTo_projectLog_append hlt, hupto, projectLog_append, List.take_append_of_le_length hk]

/-- A page that is not cut off is the rest of the log, and its end is the end of the log. -/
theorem At.wholePage (hs : Sound log) (h : At log pid c k)
    (hlen : (unread LogEntry.seq c (projectLog log pid)).length ≤ 100000) :
    events log pid c 100000 = (projectLog log pid).drop k ∧
      At log pid (lastSeq c (events log pid c 100000)) (projectLog log pid).length := by
  have hpage : events log pid c 100000 = unread LogEntry.seq c (projectLog log pid) :=
    List.take_of_length_le hlen
  refine ⟨by rw [hpage, h.rest hs], le_refl _, ?_, ?_⟩
  · rw [lastSeq, pageEnd]
    cases hlast : (events log pid c 100000).getLast? with
    | none => exact h.2.1
    | some e =>
        have hmem := List.mem_of_getLast? hlast
        rw [hpage] at hmem
        exact hs.lt_nextSeq.2 e (List.mem_filter.1 (List.mem_filter.1 hmem).1).1
  · have hupto := upTo_pageEnd (hs.project pid) c 100000
    rw [List.take_length]
    refine hupto.trans ?_
    show upTo LogEntry.seq c (projectLog log pid) ++ events log pid c 100000 = _
    rw [hpage, upTo_append_unread (hs.project pid)]

/-- The cursor that the gate and each pass start from. -/
theorem at_startCursor (hs : Sound log) (hlen : (projectLog log pid).length ≤ 100000) :
    At log pid (startCursor log pid) (projectLog log pid).length := by
  apply ((at_zero hs).wholePage hs ?_).2
  rw [(at_zero hs).rest hs, List.drop_zero]
  exact hlen

end Cursors

/-! ## The run -/

/-- The log, the gate with the reservations that are out, the pass under way and the `tokens_used` of
the passes before. `createdAt` and the second part of `pass` are positions in the log of the project:
where it ended when the gate was made and when the pass began. -/
structure Ledger where
  log : List LogEntry
  gate : Gate
  outstanding : List Int
  createdAt : Nat
  pass : Option (Int × Nat)
  returned : List (Option Int)

/-- What can happen next. A pass ends early, with no tokens, or with `_result`. -/
inductive Work where
  | append (project eventType : Str) (taskId : Option Str) (data : Fields)
  | admitCall (elapsed : ℚ)
  | release (i : Nat)
  | denialReason (elapsed : ℚ)
  | startPass
  | stopPass
  | finishPass

/-- `MissionPass(station, pid, progress)`. -/
def Ledger.make (log : List LogEntry) (pid : Str) (tokenBudget : Int) (wallClockBudget : ℚ) : Ledger where
  log := log
  gate := Gate.make (startCursor log pid) tokenBudget wallClockBudget
  outstanding := []
  createdAt := (projectLog log pid).length
  pass := none
  returned := []

namespace Ledger

variable (pid : Str)

/-- The events of the project. -/
def record (w : Ledger) : List LogEntry := projectLog w.log pid

/-- The events since the gate was made. -/
def since (w : Ledger) : List LogEntry := (w.record pid).drop w.createdAt

/-- One step. -/
def step (w : Ledger) : Work → Ledger
  | .append project eventType taskId data =>
      { w with log := appendEntry w.log project eventType taskId data }
  | .admitCall elapsed =>
      match w.gate.admitCall w.log pid elapsed with
      | (.ok r, g) => { w with gate := g, outstanding := w.outstanding ++ [r] }
      | (.error _, g) => { w with gate := g }
  | .release i =>
      match w.outstanding[i]? with
      | none => w
      | some r =>
          { w with gate := w.gate.release w.log pid r, outstanding := w.outstanding.eraseIdx i }
  | .denialReason elapsed => { w with gate := (w.gate.denialReason w.log pid elapsed).2 }
  | .startPass =>
      match w.pass with
      | none => { w with pass := some (startCursor w.log pid, (w.record pid).length) }
      | some _ => w
  | .stopPass =>
      match w.pass with
      | none => w
      | some _ => { w with pass := none, returned := w.returned ++ [some 0] }
  | .finishPass =>
      match w.pass with
      | none => w
      | some (c, _) => { w with pass := none, returned := w.returned ++ [resultTokens w.log pid c] }

/-- The steps one after another. -/
def run (w : Ledger) (as : List Work) : Ledger := as.foldl (step pid) w

/-- No page is cut off before a step, and a pass that ends early has no usage to count. -/
def Whole (w : Ledger) : Work → Prop
  | .append _ _ _ _ => True
  | .admitCall _ => (unread LogEntry.seq w.gate.seen (w.record pid)).length ≤ 100000
  | .release _ => (unread LogEntry.seq w.gate.seen (w.record pid)).length ≤ 100000
  | .denialReason _ => (unread LogEntry.seq w.gate.seen (w.record pid)).length ≤ 100000
  | .startPass => (w.record pid).length ≤ 100000
  | .stopPass => ∀ c k, w.pass = some (c, k) →
      ∀ e ∈ unread LogEntry.seq c (w.record pid), isUsage e = false
  | .finishPass => ∀ c k, w.pass = some (c, k) →
      (unread LogEntry.seq c (w.record pid)).length ≤ 100000

/-- A run in which no page is cut off. -/
def WholeRun (w : Ledger) : List Work → Prop
  | [] => True
  | a :: as => w.Whole pid a ∧ WholeRun (w.step pid a) as

/-- The gate has counted what was recorded since it was made, and not less than the passes. -/
structure Accounted (w : Ledger) : Prop where
  used : w.gate.used = usage (w.since pid)
  unknown : w.gate.unknown = invalid (w.since pid)
  passes : (w.returned.map fun r => r.getD 0).sum ≤ w.gate.used
  failed : none ∈ w.returned → w.gate.unknown = true

/-- The tokens that a pass should return: the usage recorded during the pass, unless a receipt is
invalid. -/
def passUsage (w : Ledger) (start : Nat) : Option Int :=
  if invalid ((w.record pid).drop start) then none else some (usage ((w.record pid).drop start))

/-- What is asked of a step. -/
def Exact (w : Ledger) (a : Work) : Prop :=
  (w.step pid a).gate.reserved = (w.step pid a).outstanding.sum ∧
    match a with
    | .append _ _ _ _ => True
    | .admitCall elapsed => (w.step pid a).Accounted pid ∧
        ∀ r, (w.gate.admitCall w.log pid elapsed).1 = .ok r → invalid (w.since pid) = false ∧
          (w.step pid a).gate.used + (w.step pid a).gate.reserved < (w.step pid a).gate.tokenBudget
    | .release i => ∀ r, w.outstanding[i]? = some r →
        (w.step pid a).Accounted pid ∧ (w.step pid a).gate.reserved = w.gate.reserved - r
    | .denialReason _ => (w.step pid a).Accounted pid
    | .startPass => True
    | .stopPass => ∀ c k, w.pass = some (c, k) →
        (w.step pid a).returned = w.returned ++ [w.passUsage pid k]
    | .finishPass => ∀ c k, w.pass = some (c, k) →
        (w.step pid a).returned = w.returned ++ [w.passUsage pid k]

variable {pid}

/-- The events since the gate was made, up to a position. -/
def sinceTo (pid : Str) (w : Ledger) (k : Nat) : List LogEntry := ((w.record pid).take k).drop w.createdAt

/-- The invariant of the runs: the gate has counted up to where it has read, and the passes before
have counted no more than lies before a position `m` from which no pass has begun earlier. -/
structure Balanced (pid : Str) (w : Ledger) : Prop where
  sound : Sound w.log
  gate : ∃ k, At w.log pid w.gate.seen k ∧ w.createdAt ≤ k ∧
    w.gate.used = usage (w.sinceTo pid k) ∧ w.gate.unknown = invalid (w.sinceTo pid k)
  reserved : w.gate.reserved = w.outstanding.sum
  held : ∀ r ∈ w.outstanding, 0 ≤ r
  pass : ∀ c k, w.pass = some (c, k) → At w.log pid c k
  passes : ∃ m, w.createdAt ≤ m ∧ m ≤ (w.record pid).length ∧
    (∀ c k, w.pass = some (c, k) → m ≤ k) ∧
    (w.returned.map fun r => r.getD 0).sum ≤ usage (w.sinceTo pid m) ∧
    (none ∈ w.returned → invalid (w.sinceTo pid m) = true)

theorem balanced_make {log : List LogEntry} (hs : Sound log)
    (hlen : (projectLog log pid).length ≤ 100000) (tokenBudget : Int) (wallClockBudget : ℚ) :
    (Ledger.make log pid tokenBudget wallClockBudget).Balanced pid := by
  have hnone : (Ledger.make log pid tokenBudget wallClockBudget).sinceTo pid (projectLog log pid).length =
      [] := by
    show ((projectLog log pid).take (projectLog log pid).length).drop (projectLog log pid).length = []
    rw [List.take_length, List.drop_length]
  refine ⟨hs, ⟨(projectLog log pid).length, at_startCursor hs hlen, le_refl _, ?_, ?_⟩, rfl, ?_, ?_,
    ⟨(projectLog log pid).length, le_refl _, le_refl _, ?_, ?_, ?_⟩⟩
  · rw [hnone]
    rfl
  · rw [hnone]
    rfl
  · intro r hr
    exact absurd hr List.not_mem_nil
  · intro c k hk
    cases hk
  · intro c k hk
    cases hk
  · show (0 : Int) ≤ usage _
    exact usage_nonneg _
  · intro h
    exact absurd h List.not_mem_nil

theorem since_make (log : List LogEntry) (pid : Str) (tokenBudget : Int) (wallClockBudget : ℚ) :
    (Ledger.make log pid tokenBudget wallClockBudget).since pid = [] := List.drop_length

theorem since_denialReason (w : Ledger) (elapsed : ℚ) :
    (w.step pid (.denialReason elapsed)).since pid = w.since pid := rfl

theorem sinceTo_length (w : Ledger) : w.sinceTo pid (w.record pid).length = w.since pid := by
  rw [sinceTo, List.take_length, since]

/-- What was recorded since the gate was made lies before or after a position. -/
theorem since_split (w : Ledger) {m : Nat} (hm : w.createdAt ≤ m) (hlen : m ≤ (w.record pid).length) :
    w.since pid = w.sinceTo pid m ++ (w.record pid).drop m := by
  rw [since, sinceTo, ← List.drop_append_of_le_length, List.take_append_drop]
  rw [List.length_take]
  omega

theorem Balanced.refresh {w : Ledger} (h : w.Balanced pid)
    (hlen : (unread LogEntry.seq w.gate.seen (w.record pid)).length ≤ 100000) :
    At w.log pid (w.gate.refresh w.log pid).seen (w.record pid).length ∧
      (w.gate.refresh w.log pid).used = usage (w.since pid) ∧
      (w.gate.refresh w.log pid).unknown = invalid (w.since pid) ∧
      (w.gate.refresh w.log pid).reserved = w.gate.reserved ∧
      (w.gate.refresh w.log pid).tokenBudget = w.gate.tokenBudget := by
  obtain ⟨k, hat, hk, hused, hunknown⟩ := h.gate
  obtain ⟨hpage, hend⟩ := hat.wholePage h.sound hlen
  obtain ⟨hu, hi, hseen, hr, hb⟩ := Gate.foldl_observe (events w.log pid w.gate.seen 100000) w.gate
  have hall := since_split w hk hat.1
  refine ⟨?_, ?_, ?_, hr, hb⟩
  · rw [Gate.refresh, hseen]
    exact hend
  · rw [Gate.refresh, hu, hpage, hused, hall, usage_append]
    rfl
  · rw [Gate.refresh, hi, hpage, hunknown, hall, invalid_append]
    rfl

/-- A refreshed gate has counted no less than the passes. -/
theorem Balanced.accounted {w : Ledger} (h : w.Balanced pid) {g : Gate} {out : List Int}
    (hused : g.used = usage (w.since pid)) (hunknown : g.unknown = invalid (w.since pid)) :
    ({ w with gate := g, outstanding := out } : Ledger).Accounted pid := by
  obtain ⟨m, hm, hmlen, -, hsum, hfail⟩ := h.passes
  have hall := since_split w hm hmlen
  refine ⟨hused, hunknown, ?_, ?_⟩
  · show (w.returned.map fun r => r.getD 0).sum ≤ g.used
    have hrest := usage_nonneg ((w.record pid).drop m)
    rw [hused, hall, usage_append]
    omega
  · intro hnone
    show g.unknown = true
    rw [hunknown, hall, invalid_append, hfail hnone, Bool.true_or]

theorem Balanced.gateStep {w : Ledger} (h : w.Balanced pid) {g : Gate} {out : List Int}
    (hat : At w.log pid g.seen (w.record pid).length) (hused : g.used = usage (w.since pid))
    (hunknown : g.unknown = invalid (w.since pid)) (hreserved : g.reserved = out.sum)
    (hheld : ∀ r ∈ out, 0 ≤ r) :
    ({ w with gate := g, outstanding := out } : Ledger).Balanced pid := by
  obtain ⟨k, hk, hcreated, -⟩ := h.gate
  refine ⟨h.sound, ⟨(w.record pid).length, hat, hcreated.trans hk.1, ?_, ?_⟩, hreserved, hheld, h.pass,
    h.passes⟩
  · rw [hused, ← sinceTo_length]
    rfl
  · rw [hunknown, ← sinceTo_length]
    rfl

/-- Appending an event changes nothing up to the positions in use. -/
theorem Balanced.append {w : Ledger} (h : w.Balanced pid) (project eventType : Str)
    (taskId : Option Str) (data : Fields) :
    (w.step pid (.append project eventType taskId data)).Balanced pid := by
  have hrecord : ∃ new, (w.step pid (.append project eventType taskId data)).record pid =
      w.record pid ++ new := ⟨_, projectLog_append w.log pid project eventType taskId data⟩
  obtain ⟨new, hnew⟩ := hrecord
  have hkeep : ∀ {k : Nat}, k ≤ (w.record pid).length →
      (w.step pid (.append project eventType taskId data)).sinceTo pid k = w.sinceTo pid k := by
    intro k hk
    rw [sinceTo, hnew, List.take_append_of_le_length hk]
    rfl
  obtain ⟨k, hat, hk, hused, hunknown⟩ := h.gate
  obtain ⟨m, hm, hmlen, hpass, hsum, hfail⟩ := h.passes
  refine ⟨h.sound.append _ _ _ _, ⟨k, hat.append _ _ _ _, hk, ?_, ?_⟩, h.reserved, h.held, ?_,
    ⟨m, hm, ?_, hpass, ?_, ?_⟩⟩
  · rw [hkeep hat.1]
    exact hused
  · rw [hkeep hat.1]
    exact hunknown
  · intro c k hk
    exact (h.pass c k hk).append _ _ _ _
  · rw [hnew, List.length_append]
    omega
  · rw [hkeep hmlen]
    exact hsum
  · rw [hkeep hmlen]
    exact hfail

/-- The end of a pass that returns the usage recorded during it. -/
theorem Balanced.endPass {w : Ledger} (h : w.Balanced pid) {c : Int} {k : Nat}
    (hp : w.pass = some (c, k)) :
    ({ w with pass := none, returned := w.returned ++ [w.passUsage pid k] } : Ledger).Balanced pid := by
  obtain ⟨m, hm, hmlen, hpass, hsum, hfail⟩ := h.passes
  have hmk := hpass c k hp
  have hk := (h.pass c k hp).1
  -- the pass began at `k`, after all that was counted before
  have hall := since_split w (hm.trans hmk) hk
  have hbefore : w.sinceTo pid k = w.sinceTo pid m ++ ((w.record pid).take k).drop m := by
    have htake := List.take_append_drop m ((w.record pid).take k)
    rw [List.take_take, min_eq_left hmk] at htake
    rw [sinceTo, sinceTo, ← List.drop_append_of_le_length, htake]
    rw [List.length_take]
    omega
  refine ⟨h.sound, h.gate, h.reserved, h.held, (fun _ _ hnone => nomatch hnone),
    ⟨(w.record pid).length, hm.trans hmlen, le_refl _, (fun _ _ hnone => nomatch hnone), ?_, ?_⟩⟩
  · show ((w.returned ++ [w.passUsage pid k]).map fun r => r.getD 0).sum ≤
      usage (w.sinceTo pid (w.record pid).length)
    have hlast : (w.passUsage pid k).getD 0 ≤ usage ((w.record pid).drop k) := by
      rw [passUsage]
      split
      · exact usage_nonneg _
      · exact le_refl _
    have hmid := usage_nonneg (((w.record pid).take k).drop m)
    rw [sinceTo_length, hall, hbefore, usage_append, usage_append, List.map_append, List.sum_append]
    simp only [List.map_cons, List.map_nil, List.sum_cons, List.sum_nil, add_zero]
    omega
  · intro hnone
    show invalid (w.sinceTo pid (w.record pid).length) = true
    rw [sinceTo_length, hall, hbefore, invalid_append, invalid_append]
    rcases List.mem_append.1 hnone with hold | hlast
    · rw [hfail hold, Bool.true_or, Bool.true_or]
    · have hinvalid : invalid ((w.record pid).drop k) = true := by
        have hnew := List.mem_singleton.1 hlast
        rw [passUsage] at hnew
        split at hnew
        · rename_i hi
          exact hi
        · cases hnew
      rw [hinvalid, Bool.or_true]

/-- What an admission that succeeded says of the refreshed gate. -/
theorem admit_ok {g g' : Gate} {log : List LogEntry} {elapsed : ℚ} {r : Int}
    (h : g.admitCall log pid elapsed = (.ok r, g')) :
    (g.refresh log pid).unknown = false ∧ 1 ≤ r ∧
      (g.refresh log pid).used + (g.refresh log pid).reserved + r < (g.refresh log pid).tokenBudget ∧
      g' = { g.refresh log pid with reserved := (g.refresh log pid).reserved + r } := by
  rw [Gate.admitCall] at h
  generalize g.refresh log pid = f at h ⊢
  dsimp only at h
  split at h
  · cases h
  · rename_i hdenial
    split at h
    · cases h
    · rename_i hroom
      cases h
      refine ⟨?_, le_max_left _ _, not_le.1 hroom, rfl⟩
      rw [Gate.denial] at hdenial
      split at hdenial
      · cases hdenial
      · rename_i hknown
        simpa using hknown

theorem admit_error {g g' : Gate} {log : List LogEntry} {elapsed : ℚ} {reason : Str}
    (h : g.admitCall log pid elapsed = (.error reason, g')) : g' = g.refresh log pid := by
  rw [Gate.admitCall] at h
  dsimp only at h
  split at h
  · cases h
    rfl
  · split at h
    · cases h
      rfl
    · cases h

theorem Balanced.admitCall {w : Ledger} (h : w.Balanced pid) {elapsed : ℚ}
    (hw : w.Whole pid (.admitCall elapsed)) :
    (w.step pid (.admitCall elapsed)).Balanced pid ∧ w.Exact pid (.admitCall elapsed) := by
  obtain ⟨hat, hused, hunknown, hreserved, -⟩ := h.refresh hw
  rw [Exact, step]
  cases hres : w.gate.admitCall w.log pid elapsed with
  | mk out g =>
      cases out with
      | error reason =>
          have hg := admit_error hres
          subst hg
          have hr := hreserved.trans h.reserved
          exact ⟨h.gateStep hat hused hunknown hr h.held, hr, h.accounted hused hunknown,
            fun r hr => nomatch hr⟩
      | ok r =>
          obtain ⟨hknown, hone, hroom, rfl⟩ := admit_ok hres
          have hsum : (w.gate.refresh w.log pid).reserved + r = (w.outstanding ++ [r]).sum := by
            rw [hreserved, h.reserved, List.sum_append, List.sum_singleton]
          refine ⟨h.gateStep hat hused hunknown hsum ?_, hsum, h.accounted hused hunknown, ?_⟩
          · intro r' hr'
            rcases List.mem_append.1 hr' with hr' | hr'
            · exact h.held r' hr'
            · rw [List.mem_singleton.1 hr']
              omega
          · intro r' _
            refine ⟨hunknown.symm.trans hknown, ?_⟩
            show (w.gate.refresh w.log pid).used + ((w.gate.refresh w.log pid).reserved + r) <
              (w.gate.refresh w.log pid).tokenBudget
            omega

/-- A reservation that is out is part of the reserved tokens, so the difference is not negative. -/
theorem Balanced.release {w : Ledger} (h : w.Balanced pid) {i : Nat}
    (hw : w.Whole pid (.release i)) :
    (w.step pid (.release i)).Balanced pid ∧ w.Exact pid (.release i) := by
  obtain ⟨hat, hused, hunknown, hreserved, -⟩ := h.refresh hw
  rw [Exact, step]
  cases hout : w.outstanding[i]? with
  | none => exact ⟨h, h.reserved, fun r hr => nomatch hr⟩
  | some r =>
      have hheld : ∀ r' ∈ w.outstanding.eraseIdx i, 0 ≤ r' := fun r' hr' =>
        h.held r' (List.mem_of_mem_eraseIdx hr')
      obtain ⟨hi, hr⟩ := List.getElem?_eq_some_iff.1 hout
      have hsum := List.CommMonoid.add_sum_eraseIdx hi
      rw [hr] at hsum
      have hrest := List.sum_nonneg hheld
      have hclamp : max 0 ((w.gate.refresh w.log pid).reserved - r) =
          (w.outstanding.eraseIdx i).sum := by
        rw [hreserved, h.reserved, ← hsum, add_sub_cancel_left]
        exact max_eq_right hrest
      refine ⟨h.gateStep hat hused hunknown hclamp hheld, hclamp, ?_⟩
      intro r' hr'
      cases hr'
      refine ⟨h.accounted hused hunknown, ?_⟩
      show max 0 ((w.gate.refresh w.log pid).reserved - r) = w.gate.reserved - r
      rw [hclamp, h.reserved, ← hsum, add_sub_cancel_left]

theorem Balanced.denialReason {w : Ledger} (h : w.Balanced pid) {elapsed : ℚ}
    (hw : w.Whole pid (.denialReason elapsed)) :
    (w.step pid (.denialReason elapsed)).Balanced pid ∧ w.Exact pid (.denialReason elapsed) := by
  obtain ⟨hat, hused, hunknown, hreserved, -⟩ := h.refresh hw
  have hr := hreserved.trans h.reserved
  exact ⟨h.gateStep hat hused hunknown hr h.held, hr, h.accounted hused hunknown⟩

theorem Balanced.startPass {w : Ledger} (h : w.Balanced pid) (hw : w.Whole pid .startPass) :
    (w.step pid .startPass).Balanced pid := by
  rw [step]
  split
  · obtain ⟨m, hm, hmlen, -, hsum, hfail⟩ := h.passes
    refine ⟨h.sound, h.gate, h.reserved, h.held, ?_, ⟨m, hm, hmlen, ?_, hsum, hfail⟩⟩
    · intro c k hk
      cases hk
      exact at_startCursor h.sound hw
    · intro c k hk
      cases hk
      exact hmlen
  · exact h

/-- A pass that ends early returns no tokens, and none were used. -/
theorem passUsage_early {w : Ledger} (h : w.Balanced pid) {c : Int} {k : Nat}
    (hp : w.pass = some (c, k)) (hw : w.Whole pid .stopPass) : w.passUsage pid k = some 0 := by
  have hnone : ∀ e ∈ (w.record pid).drop k, isUsage e = false := by
    intro e he
    have hrest := (h.pass c k hp).rest h.sound
    exact hw c k hp e (hrest ▸ he)
  have hinvalid : invalid ((w.record pid).drop k) = false := by
    rw [invalid, List.any_eq_false]
    intro e he
    simp [isInvalid, hnone e he]
  have husage : usage ((w.record pid).drop k) = 0 := by
    apply List.sum_eq_zero
    intro u hu
    obtain ⟨e, he, rfl⟩ := List.mem_map.1 hu
    simp [usageOf, hnone e he]
  rw [passUsage, hinvalid, husage]
  rfl

theorem passUsage_result {w : Ledger} (h : w.Balanced pid) {c : Int} {k : Nat}
    (hp : w.pass = some (c, k)) (hw : w.Whole pid .finishPass) :
    resultTokens w.log pid c = w.passUsage pid k := by
  have hpage := ((h.pass c k hp).wholePage h.sound (hw c k hp)).1
  rw [resultTokens, hpage, resultLoop_eq, zero_add]
  rfl

/-- No step loses or repeats a usage receipt while no page is cut off. -/
theorem Balanced.step {w : Ledger} (h : w.Balanced pid) {a : Work} (hw : w.Whole pid a) :
    (w.step pid a).Balanced pid ∧ w.Exact pid a := by
  cases a with
  | append project eventType taskId data =>
      exact ⟨h.append project eventType taskId data, h.reserved, trivial⟩
  | admitCall elapsed => exact h.admitCall hw
  | release i => exact h.release hw
  | denialReason elapsed => exact h.denialReason hw
  | startPass =>
      have hb := h.startPass hw
      exact ⟨hb, hb.reserved, trivial⟩
  | stopPass =>
      rw [Exact, Ledger.step]
      cases hp : w.pass with
      | none => exact ⟨h, h.reserved, fun c k hk => nomatch hk⟩
      | some ck =>
          obtain ⟨c, k⟩ := ck
          have hend := h.endPass hp
          have hearly := passUsage_early h hp hw
          rw [hearly] at hend
          refine ⟨hend, h.reserved, ?_⟩
          intro c' k' hk
          cases hk
          rw [hearly]
  | finishPass =>
      rw [Exact, Ledger.step]
      cases hp : w.pass with
      | none => exact ⟨h, h.reserved, fun c k hk => nomatch hk⟩
      | some ck =>
          obtain ⟨c, k⟩ := ck
          have hend := h.endPass hp
          have hresult := passUsage_result h hp hw
          rw [← hresult] at hend
          refine ⟨hend, h.reserved, ?_⟩
          intro c' k' hk
          cases hk
          rw [← hresult]

theorem Balanced.run {w : Ledger} (h : w.Balanced pid) {as : List Work} (hw : w.WholeRun pid as) :
    (w.run pid as).Balanced pid := by
  induction as generalizing w with
  | nil => exact h
  | cons a as ih => exact ih (h.step hw.1).1 hw.2

end Ledger

/-- In every run in which no page is cut off, the gate holds what is reserved, has counted what was
recorded, and each pass returns the usage recorded during it. -/
theorem budget_exact (pid : Str) (log : List LogEntry) (hs : Sound log)
    (hlen : (projectLog log pid).length ≤ 100000) (tokenBudget : Int) (wallClockBudget : ℚ)
    (as : List Work) (a : Work)
    (hrun : (Ledger.make log pid tokenBudget wallClockBudget).WholeRun pid as)
    (hlast : ((Ledger.make log pid tokenBudget wallClockBudget).run pid as).Whole pid a) :
    ((Ledger.make log pid tokenBudget wallClockBudget).run pid as).Exact pid a :=
  (((Ledger.balanced_make hs hlen tokenBudget wallClockBudget).run hrun).step hlast).2

end Budget

/-! ## A log longer than a page -/

section Concrete

attribute [local instance] wholeFloats

/-- The `i`-th event of a long log. -/
def longNote (i : Nat) : LogEntry := ⟨i + 1, lit "p-1", lit "project.note", none, []⟩

/-- A usage receipt that was recorded before the run. -/
def oldUsage : LogEntry :=
  ⟨100001, lit "p-1", lit "usage.recorded", none,
    [(lit "input_tokens", .int 4), (lit "output_tokens", .int 3)]⟩

/-- A page of notes and then a usage receipt. -/
def longLog : List LogEntry := (List.range 100000).map longNote ++ [oldUsage]

theorem longNote_seq {e : LogEntry} (he : e ∈ (List.range 100000).map longNote) :
    0 < e.seq ∧ e.seq ≤ 100000 ∧ e.project = lit "p-1" := by
  obtain ⟨i, hi, rfl⟩ := List.mem_map.1 he
  have hlt := List.mem_range.1 hi
  refine ⟨?_, ?_, rfl⟩
  · show (0 : Int) < (i : Int) + 1
    omega
  · show (i : Int) + 1 ≤ 100000
    omega

theorem sound_longLog : Sound longLog := by
  constructor
  · refine List.pairwise_append.2 ⟨?_, List.pairwise_singleton _ _, ?_⟩
    · refine List.Pairwise.map longNote ?_ List.pairwise_lt_range
      intro i j hij
      show (i : Int) + 1 < (j : Int) + 1
      omega
    · intro a ha b hb
      have hle := (longNote_seq ha).2.1
      rw [List.mem_singleton.1 hb]
      show a.seq < 100001
      omega
  · intro e he
    rcases List.mem_append.1 he with he | he
    · exact (longNote_seq he).1
    · rw [List.mem_singleton.1 he]
      show (0 : Int) < 100001
      omega

theorem projectLog_longLog : projectLog longLog (lit "p-1") = longLog := by
  rw [projectLog, List.filter_eq_self]
  intro e he
  rcases List.mem_append.1 he with he | he
  · exact decide_eq_true (longNote_seq he).2.2
  · rw [List.mem_singleton.1 he]
    rfl

/-- The page ends before the receipt. -/
theorem startCursor_longLog : startCursor longLog (lit "p-1") = 100000 := by
  have hall : unread LogEntry.seq 0 longLog = longLog := by
    rw [unread, List.filter_eq_self]
    intro e he
    exact decide_eq_true (sound_longLog.positive e he)
  have hlast : ((List.range 100000).map longNote).getLast? = some (longNote 99999) := by
    rw [List.getLast?_map, List.getLast?_range]
    rfl
  have hpage : events longLog (lit "p-1") 0 100000 = (List.range 100000).map longNote := by
    rw [events, projectLog_longLog, page, hall, longLog]
    apply List.take_left'
    rw [List.length_map, List.length_range]
  rw [startCursor, hpage, lastSeq, pageEnd, hlast]
  rfl

theorem events_longLog : events longLog (lit "p-1") 100000 100000 = [oldUsage] := by
  have hnotes : ((List.range 100000).map longNote).filter (fun e => decide (100000 < e.seq)) = [] := by
    rw [List.filter_eq_nil_iff]
    intro e he
    have hle := (longNote_seq he).2.1
    simpa using hle
  have hrest : unread LogEntry.seq 100000 longLog = [oldUsage] := by
    rw [unread, longLog, List.filter_append, hnotes]
    rfl
  rw [events, projectLog_longLog, page, hrest]
  rfl

/-- A gate that is made when the log is longer than a page counts usage from before the run. -/
theorem longLog_recounted :
    ¬∀ (pid : Str) (log : List LogEntry) (tokenBudget : Int) (wallClockBudget : ℚ) (as : List Work)
      (a : Work), Sound log →
        ((Ledger.make log pid tokenBudget wallClockBudget).run pid as).Exact pid a := by
  intro hall
  have hexact := hall (lit "p-1") longLog 1000 60 [] (.denialReason 0) sound_longLog
  have hused : (Gate.refresh (Gate.make (startCursor longLog (lit "p-1")) 1000 60) longLog
      (lit "p-1")).used = 7 := by
    rw [startCursor_longLog, Gate.refresh]
    show ((events longLog (lit "p-1") 100000 100000).foldl Gate.observe _).used = 7
    rw [events_longLog]
    decide
  have hcount := hexact.2.used
  have hnone : usage ([] : List LogEntry) = 0 := rfl
  rw [Ledger.run, List.foldl_nil, Ledger.since_denialReason, Ledger.since_make, hnone] at hcount
  have heq : (7 : Int) = 0 := hused.symm.trans hcount
  cases heq

/-- A short run: a worker is admitted, records its usage and gives its reservation back. -/
def sampleWork : List Work :=
  [.startPass, .admitCall 1,
    .append (lit "p-1") (lit "usage.recorded") none
      [(lit "input_tokens", .int 4), (lit "output_tokens", .int 3)],
    .release 0]

theorem sampleWork_exact :
    ((Ledger.make [] (lit "p-1") 100 60).run (lit "p-1") sampleWork).Exact (lit "p-1") .finishPass := by
  refine budget_exact (lit "p-1") [] sound_nil (by decide) 100 60 sampleWork .finishPass ?_ ?_
  · refine ⟨?_, ?_, trivial, ?_, trivial⟩
    · show List.length _ ≤ 100000
      decide
    · show List.length _ ≤ 100000
      decide
    · show List.length _ ≤ 100000
      decide
  · intro c k hk
    cases hk
    decide

end Concrete

end ResidualHarness.Station
