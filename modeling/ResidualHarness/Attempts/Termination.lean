import ResidualHarness.Attempts.Runtime

/-!
# Who terminated the process

`ProcessControl` of `residual/factory/termination_provenance.py` with any number of threads. A critical
section of the state lock is one step. Between two sections the other threads and the child go on: a
thread in `reap` holds the reap lock while it waits for the child, so that one reap at a time can time
out, and the handler in `kill` runs after that lock was given back.

The first request stands as it was recorded, except that one without a reason gets the reason of a reap
that timed out (`first_intent`).
-/

set_option autoImplicit false

namespace ResidualHarness.Factory.Termination

open Python Core

section Model

variable [FloatModel]

/-! ## Records -/

/-- `ProcessIdentity`. -/
structure ProcessIdentity where
  correlationId : Str
  pid : Int
  pidStartTimeTicks : Option Int
  bootId : Option Str
deriving DecidableEq

/-- `TerminationRecord`. -/
structure TerminationRecord where
  identity : ProcessIdentity
  requestedBy : Option Str
  requestBoundary : Option Str
  requestField : Option Str
  requestAction : Option Fields
  requestedMonotonicNs : Option Int
  observedMonotonicNs : Option Int
  reapedMonotonicNs : Option Int
  returncode : Option Int
  observedSignal : Option Int
  waitidCode : Option Int
  waitidStatus : Option Int
  memoryBefore : Option (Dict Str Int)
  memoryAfter : Option (Dict Str Int)
  oomKillDelta : Option Int
  classification : Str
  kernelAuditEvidence : Str

/-- What a host asked for: `reason`, `requested_by` and `requested_monotonic_ns`. -/
structure Intent where
  reason : Option Reason
  requestedBy : Option Str
  requestedMonotonicNs : Option Int
deriving DecidableEq

/-- The fields of `ProcessControl`, without the descriptors and the locks. -/
structure ProcessControl where
  identity : ProcessIdentity
  intent : Intent
  terminationRequested : Bool
  stopped : Bool
  reapTimedOut : Bool
  signalSent : Bool
  waitidCode : Option Int
  waitidStatus : Option Int
  waitidInvalid : Bool
  observedMonotonicNs : Option Int
  reapedMonotonicNs : Option Int
  memoryBefore : Option (Dict Str Int)
  memoryAfter : Option (Dict Str Int)
  reaped : Bool
  record : Option TerminationRecord
  returncode : Option Int

/-- `ProcessControl.__init__`. -/
def ProcessControl.init (identity : ProcessIdentity) (memory : Option (Dict Str Int)) :
    ProcessControl where
  identity := identity
  intent := ⟨none, none, none⟩
  terminationRequested := false
  stopped := false
  reapTimedOut := false
  signalSent := false
  waitidCode := none
  waitidStatus := none
  waitidInvalid := false
  observedMonotonicNs := none
  reapedMonotonicNs := none
  memoryBefore := memory
  memoryAfter := none
  reaped := false
  record := none
  returncode := none

/-! ## Classification -/

/-- `signal.SIGKILL`. -/
def sigkill : Int := 9
/-- `signal.SIGSYS`. -/
def sigsys : Int := 31
/-- `signal.NSIG`. -/
def nsig : Int := 65

/-- The value that `waitid` reported, if its code and status make sense. -/
def waitidValue (code status : Option Int) : Option Int :=
  match code, status with
  | some c, some s =>
      if c = 1 ∧ 0 ≤ s ∧ s ≤ 255 then some s
      else if (c = 2 ∨ c = 3) ∧ 0 < s ∧ s < nsig then some (-s)
      else none
  | _, _ => none

/-- `_exit_outcome()`. -/
def ProcessControl.exitOutcome (c : ProcessControl) : Option Int × Option Int × Bool :=
  let (value, valid) :=
    if c.waitidCode.isSome = true ∨ c.waitidStatus.isSome = true then
      match waitidValue c.waitidCode c.waitidStatus with
      | some v => (some v, c.returncode.isSome && some v == c.returncode)
      | none => (c.returncode, false)
    else (c.returncode, c.returncode.isSome)
  (value.bind fun v => if v < 0 then some (-v) else none,
    value.bind fun v => if 0 ≤ v then some v else none, valid && !c.waitidInvalid)

/-- The names of the requests of a watchdog. -/
def watchdogClass (field : Str) : Str :=
  if field = lit "wall_clock_budget_s" then lit "watchdog_wall_clock"
  else if field = lit "memory_limit_mb" then lit "watchdog_memory"
  else if field = lit "lease_generation" then lit "watchdog_lease_fence"
  else lit "watchdog_requested"

/-- The names of the other requests. -/
def requesterClass (requester : Option Str) : Option Str :=
  if requester = some (lit "operator") then some (lit "operator_cancel")
  else if requester = some (lit "guard") then some (lit "guard_contract_violation")
  else if requester = some (lit "runtime") then some (lit "runtime_cleanup")
  else none

/-- The class of a death by SIGKILL, if the host sent one. -/
def ProcessControl.requestClass (c : ProcessControl) : Option Str :=
  if c.signalSent = true then
    match c.intent.requestedBy, c.intent.reason with
    | some by_, some reason =>
        if by_ = lit "watchdog" then some (watchdogClass reason.field) else requesterClass (some by_)
    | by_, _ => requesterClass by_
  else none

/-- `_classification(observed_signal, exitcode, oom_delta, consistent)`. -/
def ProcessControl.classification (c : ProcessControl) (observedSignal exitcode oomDelta : Option Int)
    (consistent : Bool) : Str :=
  if consistent = false then lit "unknown_wait_status"
  else
    match observedSignal with
    | some s =>
        if s = sigsys then lit "kernel_sigsys"
        else if s = sigkill then
          match c.requestClass with
          | some name => name
          | none =>
              if oomDelta.any fun d => 0 < d then lit "unknown_sigkill_with_cgroup_oom_activity"
              else lit "unknown_sigkill"
        else lit "external_signal"
    | none => if exitcode = some 0 then lit "clean_exit" else lit "process_exit_nonzero"

/-- `_build_record()`. -/
def ProcessControl.buildRecord (c : ProcessControl) : TerminationRecord :=
  let outcome := c.exitOutcome
  let oomDelta := c.memoryBefore.bind fun before => c.memoryAfter.map fun after =>
    (after.get? (lit "oom_kill")).getD 0 - (before.get? (lit "oom_kill")).getD 0
  { identity := c.identity
    requestedBy := c.intent.requestedBy
    requestBoundary := c.intent.reason.map Reason.boundary
    requestField := c.intent.reason.map Reason.field
    requestAction := c.intent.reason.map Reason.action
    requestedMonotonicNs := c.intent.requestedMonotonicNs
    observedMonotonicNs := c.observedMonotonicNs
    reapedMonotonicNs := c.reapedMonotonicNs
    returncode := c.returncode
    observedSignal := outcome.1
    waitidCode := c.waitidCode
    waitidStatus := c.waitidStatus
    memoryBefore := c.memoryBefore
    memoryAfter := c.memoryAfter
    oomKillDelta := oomDelta
    classification := c.classification outcome.1 outcome.2.1 oomDelta outcome.2.2
    kernelAuditEvidence := lit "not_collected_by_unprivileged_runtime" }

/-! ## Critical sections -/

/-- The section of `kill` for a child that has not been reaped; `delivered` says whether the signal
found the process. -/
def ProcessControl.request (c : ProcessControl) (exited : Bool) (reason : Option Reason)
    (requester : Str) (now : Int) (delivered : Bool) : ProcessControl :=
  if exited = true then c
  else
    { c with
      intent :=
        if c.intent.requestedMonotonicNs = none then ⟨reason, some requester, some now⟩ else c.intent
      terminationRequested := true
      signalSent := c.signalSent || delivered }

/-- The reason that a reap which timed out gives. -/
def reapTimeout : Reason := ⟨lit "resource", lit "reap_timeout", [(lit "timeout_s", .int 2)]⟩

/-- The handler of `TimeoutExpired` in `kill`. -/
def ProcessControl.handleTimeout (c : ProcessControl) (requester : Str) (now : Int) : ProcessControl :=
  { c with
    reapTimedOut := true
    intent :=
      if c.intent.reason = none then ⟨some reapTimeout, some requester, some now⟩ else c.intent }

/-- What `os.waitid` does: it is not there or knows nothing yet, it raises an error that is an evidence
gap or not, or it reports a code and a status. -/
inductive Observation where
  | nothing
  | failed (gap : Bool)
  | reported (code status : Int)

/-- `_observe_exit_wnowait()`. -/
def ProcessControl.observe (c : ProcessControl) (o : Observation) (now : Int) : ProcessControl :=
  if c.observedMonotonicNs.isSome = true then c
  else
    match o with
    | .nothing => c
    | .failed gap => { c with waitidInvalid := gap }
    | .reported code status =>
        { c with waitidCode := some code, waitidStatus := some status, observedMonotonicNs := some now }

/-- The last section of `reap`. -/
def ProcessControl.finish (c : ProcessControl) (returncode now reapedAt : Int)
    (memory : Option (Dict Str Int)) : ProcessControl :=
  let c := { c with
    returncode := some returncode
    observedMonotonicNs := some (c.observedMonotonicNs.getD now)
    reapedMonotonicNs := some reapedAt
    memoryAfter := memory }
  { c with record := some c.buildRecord, reaped := true, stopped := true }

/-! ## Threads -/

/-- Where a thread is. In `reap` it knows whether `kill` called it, and for whom. -/
inductive Pc where
  | idle
  | wanting (caller : Option Str)
  | holding (caller : Option Str)
  | selecting (caller : Option Str)
  | observing
  | consuming
  | finishing (returncode : Int)
  | timedOut (requester : Str)

/-- The control, the child and the threads; and for the statements the consuming waits, the reaps that
timed out in a `kill`, and what the first request recorded. -/
structure World where
  control : ProcessControl
  exited : Bool
  reapLock : Option Nat
  pc : Nat → Pc
  waits : Nat
  timeouts : Nat
  first : Option Intent

/-- A new control, for a child that may have exited already. -/
def World.init (identity : ProcessIdentity) (memory : Option (Dict Str Int)) (exited : Bool) :
    World where
  control := .init identity memory
  exited := exited
  reapLock := none
  pc := fun _ => .idle
  waits := 0
  timeouts := 0
  first := none

def World.goto (w : World) (t : Nat) (pc : Pc) : World := { w with pc := Function.update w.pc t pc }

/-- The steps of the child and of the threads. -/
inductive Action where
  | exit
  | kill (t : Nat) (reason : Option Reason) (requester : Str) (now : Int) (delivered : Bool)
  | reap (t : Nat)
  | acquire (t : Nat)
  | enter (t : Nat)
  | ready (t : Nat)
  | expire (t : Nat)
  | observe (t : Nat) (o : Observation) (now : Int)
  | wait (t : Nat) (returncode : Int)
  | finish (t : Nat) (now reapedAt : Int) (memory : Option (Dict Str Int))
  | handle (t : Nat) (now : Int)

/-- The thread of a step. -/
def Action.thread : Action → Option Nat
  | .exit => none
  | .kill t _ _ _ _ | .reap t | .acquire t | .enter t | .ready t | .expire t | .observe t _ _
  | .wait t _ | .finish t _ _ _ | .handle t _ => some t

/-- The request of a `kill`, and what it recorded if it was the first. -/
def World.request (w : World) (t : Nat) (reason : Option Reason) (requester : Str) (now : Int)
    (delivered : Bool) : World :=
  let control := w.control.request w.exited reason requester now delivered
  { w with
    control := control
    pc := Function.update w.pc t (.wanting (some requester))
    first := if w.first = none ∧ control.intent.requestedMonotonicNs ≠ none then some control.intent
      else w.first }

/-- A step, if it can be taken. -/
def step (w : World) : Action → Option World
  | .exit => some { w with exited := true }
  | .kill t reason requester now delivered =>
      match w.pc t with
      | .idle =>
          if w.control.reaped = true then some w
          else some (w.request t reason requester now delivered)
      | _ => none
  | .reap t =>
      match w.pc t with
      | .idle => some (w.goto t (.wanting none))
      | _ => none
  | .acquire t =>
      match w.pc t, w.reapLock with
      | .wanting caller, none => some { w.goto t (.holding caller) with reapLock := some t }
      | _, _ => none
  | .enter t =>
      match w.pc t with
      | .holding caller =>
          if w.control.reaped = true then some { w.goto t .idle with reapLock := none }
          else some (w.goto t (.selecting caller))
      | _ => none
  | .ready t =>
      match w.pc t with
      | .selecting _ => if w.exited = true then some (w.goto t .observing) else none
      | _ => none
  | .expire t =>
      -- the descriptor of a child that has exited is ready
      match w.pc t with
      | .selecting caller =>
          if w.exited = true then none
          else
            match caller with
            | some requester =>
                some { w.goto t (.timedOut requester) with reapLock := none, timeouts := w.timeouts + 1 }
            | none => some { w.goto t .idle with reapLock := none }
      | _ => none
  | .observe t o now =>
      match w.pc t with
      | .observing => some { w.goto t .consuming with control := w.control.observe o now }
      | _ => none
  | .wait t returncode =>
      match w.pc t with
      | .consuming => some { w.goto t (.finishing returncode) with waits := w.waits + 1 }
      | _ => none
  | .finish t now reapedAt memory =>
      match w.pc t with
      | .finishing returncode =>
          some { w.goto t .idle with
            reapLock := none, control := w.control.finish returncode now reapedAt memory }
      | _ => none
  | .handle t now =>
      match w.pc t with
      | .timedOut requester =>
          some { w.goto t .idle with control := w.control.handleTimeout requester now }
      | _ => none

/-- A sequence of steps. -/
def run (w : World) (as : List Action) : Option World := as.foldlM step w

/-! ## What a step can do -/

/-- The steps, one constructor for each way to take one. -/
inductive Moves (w : World) : Action → World → Prop where
  | exit : Moves w .exit { w with exited := true }
  | killed {t reason requester now delivered} (hpc : w.pc t = .idle) (hr : w.control.reaped = true) :
      Moves w (.kill t reason requester now delivered) w
  | request {t reason requester now delivered} (hpc : w.pc t = .idle)
      (hr : w.control.reaped = false) :
      Moves w (.kill t reason requester now delivered) (w.request t reason requester now delivered)
  | reap {t} (hpc : w.pc t = .idle) : Moves w (.reap t) (w.goto t (.wanting none))
  | acquire {t caller} (hpc : w.pc t = .wanting caller) (hl : w.reapLock = none) :
      Moves w (.acquire t) { w.goto t (.holding caller) with reapLock := some t }
  | leave {t caller} (hpc : w.pc t = .holding caller) (hr : w.control.reaped = true) :
      Moves w (.enter t) { w.goto t .idle with reapLock := none }
  | enter {t caller} (hpc : w.pc t = .holding caller) (hr : w.control.reaped = false) :
      Moves w (.enter t) (w.goto t (.selecting caller))
  | ready {t caller} (hpc : w.pc t = .selecting caller) (hx : w.exited = true) :
      Moves w (.ready t) (w.goto t .observing)
  | expire {t requester} (hpc : w.pc t = .selecting (some requester)) (hx : w.exited = false) :
      Moves w (.expire t)
        { w.goto t (.timedOut requester) with reapLock := none, timeouts := w.timeouts + 1 }
  | giveUp {t} (hpc : w.pc t = .selecting none) (hx : w.exited = false) :
      Moves w (.expire t) { w.goto t .idle with reapLock := none }
  | observe {t o now} (hpc : w.pc t = .observing) :
      Moves w (.observe t o now) { w.goto t .consuming with control := w.control.observe o now }
  | wait {t returncode} (hpc : w.pc t = .consuming) :
      Moves w (.wait t returncode) { w.goto t (.finishing returncode) with waits := w.waits + 1 }
  | finish {t returncode now reapedAt memory} (hpc : w.pc t = .finishing returncode) :
      Moves w (.finish t now reapedAt memory)
        { w.goto t .idle with
          reapLock := none, control := w.control.finish returncode now reapedAt memory }
  | handle {t requester now} (hpc : w.pc t = .timedOut requester) :
      Moves w (.handle t now)
        { w.goto t .idle with control := w.control.handleTimeout requester now }

theorem moves_of_step {w w' : World} {a : Action} (h : step w a = some w') : Moves w a w' := by
  cases a with
  | exit =>
      cases h
      exact .exit
  | kill t reason requester now delivered =>
      simp only [step] at h
      split at h
      · rename_i hpc
        split at h
        · rename_i hr
          cases h
          exact .killed hpc hr
        · rename_i hr
          cases h
          exact .request hpc (Bool.not_eq_true _ ▸ hr)
      · cases h
  | reap t =>
      simp only [step] at h
      split at h
      · rename_i hpc
        cases h
        exact .reap hpc
      · cases h
  | acquire t =>
      simp only [step] at h
      split at h
      · rename_i caller hpc hl
        cases h
        exact .acquire hpc hl
      · cases h
  | enter t =>
      simp only [step] at h
      split at h
      · rename_i caller hpc
        split at h
        · rename_i hr
          cases h
          exact .leave hpc hr
        · rename_i hr
          cases h
          exact .enter hpc (Bool.not_eq_true _ ▸ hr)
      · cases h
  | ready t =>
      simp only [step] at h
      split at h
      · rename_i caller hpc
        split at h
        · rename_i hx
          cases h
          exact .ready hpc hx
        · cases h
      · cases h
  | expire t =>
      simp only [step] at h
      split at h
      · rename_i caller hpc
        split at h
        · cases h
        · rename_i hx
          have hx' : w.exited = false := Bool.not_eq_true _ ▸ hx
          split at h
          · cases h
            exact .expire hpc hx'
          · cases h
            exact .giveUp hpc hx'
      · cases h
  | observe t o now =>
      simp only [step] at h
      split at h
      · rename_i hpc
        cases h
        exact .observe hpc
      · cases h
  | wait t returncode =>
      simp only [step] at h
      split at h
      · rename_i hpc
        cases h
        exact .wait hpc
      · cases h
  | finish t now reapedAt memory =>
      simp only [step] at h
      split at h
      · rename_i returncode hpc
        cases h
        exact .finish hpc
      · cases h
  | handle t now =>
      simp only [step] at h
      split at h
      · rename_i requester hpc
        cases h
        exact .handle hpc
      · cases h

theorem run_cons {w w'' : World} {a : Action} {as : List Action} :
    run w (a :: as) = some w'' ↔ ∃ w', step w a = some w' ∧ run w' as = some w'' := by
  rw [run, List.foldlM_cons]
  exact Option.bind_eq_some_iff

@[simp]
theorem goto_pc_self (w : World) (t : Nat) (p : Pc) : (w.goto t p).pc t = p := by
  rw [World.goto]
  exact Function.update_self t p w.pc

theorem goto_pc_of_ne {w : World} {t u : Nat} {p : Pc} (h : u ≠ t) : (w.goto t p).pc u = w.pc u := by
  rw [World.goto]
  exact Function.update_of_ne h p w.pc

theorem run_append {w w'' : World} {as bs : List Action} :
    run w (as ++ bs) = some w'' ↔ ∃ w', run w as = some w' ∧ run w' bs = some w'' := by
  rw [run, List.foldlM_append]
  exact Option.bind_eq_some_iff

theorem run_induction {P : World → Prop} (hstep : ∀ w a w', P w → Moves w a w' → P w')
    {w w' : World} {as : List Action} (h : run w as = some w') (hw : P w) : P w' := by
  induction as generalizing w with
  | nil =>
      cases h
      exact hw
  | cons a as ih =>
      obtain ⟨v, hv, h⟩ := run_cons.1 h
      exact ih h (hstep w a v hw (moves_of_step hv))

/-! ## The locks -/

/-- The thread holds the reap lock. -/
def Pc.inReap : Pc → Bool
  | .holding _ | .selecting _ | .observing | .consuming | .finishing _ => true
  | _ => false

/-- The thread has found the child unreaped in its reap. -/
def Pc.pastCheck : Pc → Bool
  | .selecting _ | .observing | .consuming | .finishing _ => true
  | _ => false

/-- The thread has waited for the child. -/
def Pc.consumed : Pc → Bool
  | .finishing _ => true
  | _ => false

/-- One reap at a time, one consuming wait, and a record when the child has been reaped. -/
structure Exclusive (w : World) : Prop where
  lock : ∀ t, (w.pc t).inReap = true ↔ w.reapLock = some t
  unreaped : ∀ t, (w.pc t).pastCheck = true → w.control.reaped = false
  fresh : w.control.reaped = false → (∀ t, (w.pc t).consumed = false) → w.waits = 0
  once : w.waits ≤ 1
  record : w.control.record.isSome = w.control.reaped

omit [FloatModel] in
theorem Pc.inReap_of_pastCheck {pc : Pc} (h : pc.pastCheck = true) : pc.inReap = true := by
  cases pc <;> first | rfl | cases h

omit [FloatModel] in
theorem Pc.pastCheck_of_consumed {pc : Pc} (h : pc.consumed = true) : pc.pastCheck = true := by
  cases pc <;> first | rfl | cases h

section Locks

variable {w : World} {t : Nat} {p : Pc}

theorem Exclusive.lock_keep (h : Exclusive w) (hp : p.inReap = (w.pc t).inReap) (u : Nat) :
    (Function.update w.pc t p u).inReap = true ↔ w.reapLock = some u := by
  by_cases hu : u = t
  · subst hu
    rw [Function.update_self, hp]
    exact h.lock u
  · rw [Function.update_of_ne hu]
    exact h.lock u

theorem Exclusive.lock_take (h : Exclusive w) (hl : w.reapLock = none) (hp : p.inReap = true)
    (u : Nat) : (Function.update w.pc t p u).inReap = true ↔ some t = some u := by
  by_cases hu : u = t
  · subst hu
    rw [Function.update_self, hp]
    exact ⟨fun _ => rfl, fun _ => rfl⟩
  · rw [Function.update_of_ne hu, h.lock u, hl]
    exact ⟨nofun, fun hs => absurd (Option.some.inj hs).symm hu⟩

theorem Exclusive.lock_drop (h : Exclusive w) (ht : (w.pc t).inReap = true) (hp : p.inReap = false)
    (u : Nat) : (Function.update w.pc t p u).inReap = true ↔ none = some u := by
  by_cases hu : u = t
  · subst hu
    rw [Function.update_self, hp]
    exact ⟨nofun, nofun⟩
  · rw [Function.update_of_ne hu, h.lock u, (h.lock t).1 ht]
    exact ⟨fun hs => absurd (Option.some.inj hs).symm hu, nofun⟩

/-- No other thread is in a reap beside the one that holds the lock. -/
theorem Exclusive.alone (h : Exclusive w) (ht : (w.pc t).inReap = true) {u : Nat}
    (hu : (w.pc u).inReap = true) : u = t := by
  have hlock := (h.lock u).1 hu
  rw [(h.lock t).1 ht] at hlock
  exact (Option.some.inj hlock).symm

theorem Exclusive.unreaped_goto (h : Exclusive w) (hp : p.pastCheck = true → w.control.reaped = false)
    (u : Nat) (hu : (Function.update w.pc t p u).pastCheck = true) : w.control.reaped = false := by
  by_cases hut : u = t
  · subst hut
    rw [Function.update_self] at hu
    exact hp hu
  · rw [Function.update_of_ne hut] at hu
    exact h.unreaped u hu

theorem Exclusive.fresh_goto (h : Exclusive w) (ht : (w.pc t).consumed = false)
    (hr : w.control.reaped = false) (hall : ∀ u, (Function.update w.pc t p u).consumed = false) :
    w.waits = 0 := by
  refine h.fresh hr fun u => ?_
  by_cases hut : u = t
  · rw [hut]
    exact ht
  · have hu := hall u
    rwa [Function.update_of_ne hut] at hu

/-- A step of a thread that keeps its lock and neither waits nor reaps. -/
theorem Exclusive.goto (h : Exclusive w) (hin : p.inReap = (w.pc t).inReap)
    (hp : p.pastCheck = true → w.control.reaped = false) (ht : (w.pc t).consumed = false) :
    Exclusive (w.goto t p) where
  lock := h.lock_keep hin
  unreaped := h.unreaped_goto hp
  fresh := h.fresh_goto ht
  once := h.once
  record := h.record

theorem Exclusive.release (h : Exclusive w) (ht : (w.pc t).inReap = true) (hp : p.inReap = false)
    (hc : (w.pc t).consumed = false) : Exclusive { w.goto t p with reapLock := none } where
  lock := h.lock_drop ht hp
  unreaped := h.unreaped_goto fun hpast => absurd (Pc.inReap_of_pastCheck hpast) (by rw [hp]; nofun)
  fresh := h.fresh_goto hc
  once := h.once
  record := h.record

theorem Exclusive.control {c : ProcessControl} (h : Exclusive w) (hr : c.reaped = w.control.reaped)
    (hrec : c.record = w.control.record) : Exclusive { w with control := c } where
  lock := h.lock
  unreaped t ht := hr.trans (h.unreaped t ht)
  fresh hc hall := h.fresh (hr.symm.trans hc) hall
  once := h.once
  record := by
    rw [hrec, hr]
    exact h.record

end Locks

theorem request_reaped (c : ProcessControl) (exited : Bool) (reason : Option Reason) (requester : Str)
    (now : Int) (delivered : Bool) :
    (c.request exited reason requester now delivered).reaped = c.reaped ∧
      (c.request exited reason requester now delivered).record = c.record := by
  unfold ProcessControl.request
  split <;> exact ⟨rfl, rfl⟩

theorem observe_kept (c : ProcessControl) (o : Observation) (now : Int) :
    (c.observe o now).reaped = c.reaped ∧ (c.observe o now).record = c.record ∧
      (c.observe o now).intent = c.intent := by
  unfold ProcessControl.observe
  split
  · exact ⟨rfl, rfl, rfl⟩
  · cases o <;> exact ⟨rfl, rfl, rfl⟩

theorem Exclusive.step {w w' : World} {a : Action} (h : Exclusive w) (hm : Moves w a w') :
    Exclusive w' := by
  cases hm with
  | exit => exact ⟨h.lock, h.unreaped, h.fresh, h.once, h.record⟩
  | killed hpc hr => exact h
  | @request t reason requester now delivered hpc hr =>
      obtain ⟨hreaped, hrec⟩ :=
        request_reaped w.control w.exited reason requester now delivered
      have hgoto : Exclusive (w.goto t (.wanting (some requester))) :=
        h.goto (by rw [hpc]; rfl) nofun (by rw [hpc]; rfl)
      have hc := hgoto.control hreaped hrec
      exact ⟨hc.lock, hc.unreaped, hc.fresh, hc.once, hc.record⟩
  | reap hpc => exact h.goto (by rw [hpc]; rfl) nofun (by rw [hpc]; rfl)
  | acquire hpc hl =>
      exact ⟨h.lock_take hl rfl, h.unreaped_goto nofun, h.fresh_goto (by rw [hpc]; rfl), h.once,
        h.record⟩
  | leave hpc hr => exact h.release (by rw [hpc]; rfl) rfl (by rw [hpc]; rfl)
  | enter hpc hr => exact h.goto (by rw [hpc]; rfl) (fun _ => hr) (by rw [hpc]; rfl)
  | @ready t caller hpc hx =>
      refine h.goto (by rw [hpc]; rfl) (fun _ => ?_) (by rw [hpc]; rfl)
      exact h.unreaped t (by rw [hpc]; rfl)
  | @expire t requester hpc hx =>
      have hr := h.release (p := .timedOut requester) (by rw [hpc]; rfl) rfl (by rw [hpc]; rfl)
      exact ⟨hr.lock, hr.unreaped, hr.fresh, hr.once, hr.record⟩
  | giveUp hpc hx => exact h.release (by rw [hpc]; rfl) rfl (by rw [hpc]; rfl)
  | @observe t o now hpc =>
      obtain ⟨hreaped, hrec, -⟩ := observe_kept w.control o now
      have hgoto : Exclusive (w.goto t .consuming) :=
        h.goto (by rw [hpc]; rfl) (fun _ => h.unreaped t (by rw [hpc]; rfl)) (by rw [hpc]; rfl)
      exact hgoto.control hreaped hrec
  | @wait t returncode hpc =>
      have hreaped : w.control.reaped = false := h.unreaped t (by rw [hpc]; rfl)
      -- only this thread can have waited, and it has not
      have hzero : w.waits = 0 := by
        refine h.fresh hreaped fun u => ?_
        rw [← Bool.not_eq_true]
        intro hu
        have hut := h.alone (t := t) (by rw [hpc]; rfl)
          (Pc.inReap_of_pastCheck (Pc.pastCheck_of_consumed hu))
        rw [hut, hpc] at hu
        cases hu
      refine ⟨h.lock_keep (by rw [hpc]; rfl), h.unreaped_goto (fun _ => hreaped), ?_, ?_, h.record⟩
      · intro _ hall
        have ht := hall t
        simp only [World.goto, Function.update_self] at ht
        cases ht
      · show w.waits + 1 ≤ 1
        omega
  | @finish t returncode now reapedAt memory hpc =>
      refine ⟨h.lock_drop (by rw [hpc]; rfl) rfl, ?_, nofun, h.once, rfl⟩
      intro u hu
      simp only [World.goto] at hu
      by_cases hut : u = t
      · rw [hut, Function.update_self] at hu
        cases hu
      · rw [Function.update_of_ne hut] at hu
        exact absurd (h.alone (t := t) (by rw [hpc]; rfl) (Pc.inReap_of_pastCheck hu)) hut
  | handle hpc =>
      have hgoto := h.goto (p := .idle) (by rw [hpc]; rfl) nofun (by rw [hpc]; rfl)
      exact hgoto.control rfl rfl

/-! ## The first request -/

/-- The thread is in a `reap` that `kill` called, and has not waited for the child yet. -/
def Pc.called : Pc → Bool
  | .wanting caller | .holding caller | .selecting caller => caller.isSome
  | _ => false

/-- The class of a record names the watchdog. -/
def TerminationRecord.blamesWatchdog (r : TerminationRecord) : Bool :=
  (lit "watchdog").isPrefixOf r.classification

/-- Where the request stands that was recorded first. -/
structure Provenance (w : World) : Prop where
  requested : ∀ t, (w.pc t).called = true → w.exited = false →
    w.control.intent.requestedMonotonicNs ≠ none
  expired : ∀ t requester, w.pc t = .timedOut requester →
    w.control.intent.requestedMonotonicNs ≠ none ∧ 0 < w.timeouts
  untouched : w.control.intent.requestedMonotonicNs = none →
    w.control.intent = ⟨none, none, none⟩ ∧ w.first = none
  stands : w.control.intent.requestedMonotonicNs ≠ none → ∃ f, w.first = some f ∧
    (w.control.intent = f ∨
      f.reason = none ∧ w.control.intent.reason = some reapTimeout ∧ 0 < w.timeouts)
  watchdog : ∀ r, w.control.record = some r → r.blamesWatchdog = true → ∃ f, w.first = some f ∧
    (f.requestedBy = some (lit "watchdog") ∨ f.reason = none ∧ 0 < w.timeouts)

theorem watchdog_of_requestClass {c : ProcessControl} {name : Str} (h : c.requestClass = some name)
    (hw : (lit "watchdog").isPrefixOf name = true) :
    c.intent.requestedBy = some (lit "watchdog") := by
  have hother : ∀ {by_ : Option Str}, requesterClass by_ ≠ some name := by
    intro by_ hby
    unfold requesterClass at hby
    split at hby
    · cases hby
      exact absurd hw (by decide)
    · split at hby
      · cases hby
        exact absurd hw (by decide)
      · split at hby
        · cases hby
          exact absurd hw (by decide)
        · cases hby
  unfold ProcessControl.requestClass at h
  split at h
  · split at h
    · rename_i by_ reason hby _
      split at h
      · rename_i hdog
        rw [hby, hdog]
      · exact absurd h hother
    · exact absurd h hother
  · cases h

theorem watchdog_of_classification {c : ProcessControl} {observed exitcode oomDelta : Option Int}
    {consistent : Bool}
    (hw : (lit "watchdog").isPrefixOf (c.classification observed exitcode oomDelta consistent) = true) :
    c.intent.requestedBy = some (lit "watchdog") := by
  unfold ProcessControl.classification at hw
  split at hw
  · exact absurd hw (by decide)
  · split at hw
    · split at hw
      · exact absurd hw (by decide)
      · split at hw
        · split at hw
          · rename_i name hname
            exact watchdog_of_requestClass hname hw
          · split at hw
            · exact absurd hw (by decide)
            · exact absurd hw (by decide)
        · exact absurd hw (by decide)
    · split at hw
      · exact absurd hw (by decide)
      · exact absurd hw (by decide)

section Requests

variable {w : World} {t : Nat} {p : Pc}

theorem Provenance.goto (h : Provenance w)
    (hp : p.called = true → w.exited = false → w.control.intent.requestedMonotonicNs ≠ none)
    (hx : ∀ requester, p = .timedOut requester →
      w.control.intent.requestedMonotonicNs ≠ none ∧ 0 < w.timeouts) :
    Provenance (w.goto t p) where
  requested u hu hlive := by
    by_cases hut : u = t
    · rw [hut, goto_pc_self] at hu
      exact hp hu hlive
    · rw [goto_pc_of_ne hut] at hu
      exact h.requested u hu hlive
  expired u requester hu := by
    by_cases hut : u = t
    · rw [hut, goto_pc_self] at hu
      exact hx requester hu
    · rw [goto_pc_of_ne hut] at hu
      exact h.expired u requester hu
  untouched := h.untouched
  stands := h.stands
  watchdog := h.watchdog

theorem Provenance.control {c : ProcessControl} (h : Provenance w)
    (hi : c.intent = w.control.intent)
    (hr : ∀ r, c.record = some r → w.control.record = some r ∨
      (r.blamesWatchdog = true → w.control.intent.requestedBy = some (lit "watchdog"))) :
    Provenance { w with control := c } where
  requested := by
    show ∀ t, (w.pc t).called = true → w.exited = false → c.intent.requestedMonotonicNs ≠ none
    rw [hi]
    exact h.requested
  expired := by
    show ∀ t requester, w.pc t = .timedOut requester →
      c.intent.requestedMonotonicNs ≠ none ∧ 0 < w.timeouts
    rw [hi]
    exact h.expired
  untouched := by
    show c.intent.requestedMonotonicNs = none → c.intent = ⟨none, none, none⟩ ∧ w.first = none
    rw [hi]
    exact h.untouched
  stands := by
    show c.intent.requestedMonotonicNs ≠ none → ∃ f, w.first = some f ∧
      (c.intent = f ∨ f.reason = none ∧ c.intent.reason = some reapTimeout ∧ 0 < w.timeouts)
    rw [hi]
    exact h.stands
  watchdog r hrec hblame := by
    rcases hr r hrec with hold | hby
    · exact h.watchdog r hold hblame
    · -- the record was built from the request as it stood
      have hby := hby hblame
      by_cases hnone : w.control.intent.requestedMonotonicNs = none
      · rw [(h.untouched hnone).1] at hby
        cases hby
      · obtain ⟨f, hf, hstands⟩ := h.stands hnone
        rcases hstands with hsame | ⟨hreason, -, hpos⟩
        · rw [hsame] at hby
          exact ⟨f, hf, .inl hby⟩
        · exact ⟨f, hf, .inr ⟨hreason, hpos⟩⟩

end Requests

theorem finish_intent (c : ProcessControl) (returncode now reapedAt : Int)
    (memory : Option (Dict Str Int)) :
    (c.finish returncode now reapedAt memory).intent = c.intent ∧
      ∀ r, (c.finish returncode now reapedAt memory).record = some r → r.blamesWatchdog = true →
        c.intent.requestedBy = some (lit "watchdog") := by
  refine ⟨rfl, ?_⟩
  intro r hr hblame
  cases hr
  exact watchdog_of_classification (c := { c with
    returncode := some returncode
    observedMonotonicNs := some (c.observedMonotonicNs.getD now)
    reapedMonotonicNs := some reapedAt
    memoryAfter := memory }) hblame

/-- The request of a `kill` is recorded, or one has been recorded, or the child has exited. -/
theorem Provenance.request {w : World} (h : Provenance w) (t : Nat) (reason : Option Reason)
    (requester : Str) (now : Int) (delivered : Bool) :
    Provenance (w.request t reason requester now delivered) := by
  obtain ⟨hreaped, hrec⟩ := request_reaped w.control w.exited reason requester now delivered
  cases hx : w.exited with
  | true =>
      have hcontrol : w.control.request w.exited reason requester now delivered = w.control := by
        rw [ProcessControl.request, hx, if_pos rfl]
      have hfirst : ¬ (w.first = none ∧ w.control.intent.requestedMonotonicNs ≠ none) := by
        rintro ⟨hnone, hns⟩
        obtain ⟨f, hf, -⟩ := h.stands hns
        rw [hnone] at hf
        cases hf
      have hgoto : Provenance (w.goto t (.wanting (some requester))) :=
        h.goto (fun _ hlive => absurd hlive (by rw [hx]; nofun)) nofun
      rw [World.request, hcontrol, if_neg hfirst]
      exact hgoto
  | false =>
      have hcontrol : (w.control.request w.exited reason requester now delivered).intent =
          if w.control.intent.requestedMonotonicNs = none then ⟨reason, some requester, some now⟩
          else w.control.intent := by
        rw [ProcessControl.request, hx, if_neg Bool.false_ne_true]
      by_cases hns : w.control.intent.requestedMonotonicNs = none
      · -- this is the first request
        rw [if_pos hns] at hcontrol
        obtain ⟨-, hnone⟩ := h.untouched hns
        have hsome : (w.request t reason requester now delivered).first =
            some ⟨reason, some requester, some now⟩ := by
          rw [World.request]
          simp only [hcontrol, hnone, true_and]
          exact if_pos nofun
        have hns' : (w.request t reason requester now delivered).control.intent =
            ⟨reason, some requester, some now⟩ := hcontrol
        refine ⟨?_, ?_, ?_, ?_, ?_⟩
        · intro u _ _
          rw [hns']
          nofun
        · intro u r hu
          rw [hns']
          refine ⟨nofun, ?_⟩
          by_cases hut : u = t
          · rw [hut, World.request] at hu
            simp only [Function.update_self] at hu
            cases hu
          · rw [World.request] at hu
            simp only [Function.update_of_ne hut] at hu
            exact (h.expired u r hu).2
        · rw [hns']
          nofun
        · intro _
          exact ⟨_, hsome, .inl hns'⟩
        · intro r hr hblame
          have hold : w.control.record = some r := hrec ▸ hr
          obtain ⟨f, hf, -⟩ := h.watchdog r hold hblame
          rw [hnone] at hf
          cases hf
      · rw [if_neg hns] at hcontrol
        have hfirst : ¬ (w.first = none ∧ (w.control.request w.exited reason requester now
            delivered).intent.requestedMonotonicNs ≠ none) := by
          rintro ⟨hnone, -⟩
          obtain ⟨f, hf, -⟩ := h.stands hns
          rw [hnone] at hf
          cases hf
        have hgoto : Provenance (w.goto t (.wanting (some requester))) :=
          h.goto (fun _ _ => hns) nofun
        have hc := hgoto.control (c := w.control.request w.exited reason requester now delivered)
          hcontrol fun r hr => .inl (hrec ▸ hr)
        rw [World.request, if_neg hfirst]
        exact hc

/-- A reap that timed out gives its reason to a request that has none. -/
theorem Provenance.handle {w : World} (h : Provenance w) {t : Nat} {requester : Str} (now : Int)
    (hpc : w.pc t = .timedOut requester) :
    Provenance { w.goto t .idle with control := w.control.handleTimeout requester now } := by
  have hgoto : Provenance (w.goto t .idle) := h.goto nofun nofun
  by_cases hreason : w.control.intent.reason = none
  · obtain ⟨hns, hpos⟩ := h.expired t requester hpc
    have hi : (w.control.handleTimeout requester now).intent =
        ⟨some reapTimeout, some requester, some now⟩ := if_pos hreason
    refine ⟨?_, ?_, ?_, ?_, h.watchdog⟩
    · intro u _ _
      show (w.control.handleTimeout requester now).intent.requestedMonotonicNs ≠ none
      rw [hi]
      nofun
    · intro u r hu
      refine ⟨?_, hpos⟩
      show (w.control.handleTimeout requester now).intent.requestedMonotonicNs ≠ none
      rw [hi]
      nofun
    · show (w.control.handleTimeout requester now).intent.requestedMonotonicNs = none → _
      rw [hi]
      nofun
    · intro _
      obtain ⟨f, hf, hstands⟩ := h.stands hns
      refine ⟨f, hf, .inr ⟨?_, ?_, hpos⟩⟩
      · rcases hstands with hsame | ⟨hnone, -, -⟩
        · rw [← hsame]
          exact hreason
        · exact hnone
      · exact congrArg Intent.reason hi
  · exact hgoto.control (if_neg hreason) fun r hr => .inl hr

theorem Provenance.step {w w' : World} {a : Action} (h : Provenance w) (hm : Moves w a w') :
    Provenance w' := by
  cases hm with
  | exit => exact ⟨(nofun : ∀ t, (w.pc t).called = true → true = false → _), h.expired, h.untouched, h.stands, h.watchdog⟩
  | killed hpc hr => exact h
  | request hpc hr => exact h.request _ _ _ _ _
  | reap hpc => exact h.goto nofun nofun
  | @acquire t caller hpc hl =>
      have hg := h.goto (t := t) (p := .holding caller)
        (fun hc hx => h.requested t (by rw [hpc]; exact hc) hx) nofun
      exact ⟨hg.requested, hg.expired, hg.untouched, hg.stands, hg.watchdog⟩
  | @leave t caller hpc hr =>
      have hg := h.goto (t := t) (p := .idle) nofun nofun
      exact ⟨hg.requested, hg.expired, hg.untouched, hg.stands, hg.watchdog⟩
  | @enter t caller hpc hr =>
      exact h.goto (fun hc hx => h.requested t (by rw [hpc]; exact hc) hx) nofun
  | ready hpc hx => exact h.goto nofun nofun
  | @expire t requester hpc hx =>
      have hns : w.control.intent.requestedMonotonicNs ≠ none :=
        h.requested t (by rw [hpc]; rfl) hx
      -- one more reap has timed out
      have hmore : Provenance { w with timeouts := w.timeouts + 1 } := by
        refine ⟨h.requested, fun u r hu => ⟨(h.expired u r hu).1, Nat.succ_pos _⟩, h.untouched, ?_, ?_⟩
        · intro hns
          obtain ⟨f, hf, hstands⟩ := h.stands hns
          refine ⟨f, hf, hstands.imp_right ?_⟩
          rintro ⟨hreason, hto, -⟩
          exact ⟨hreason, hto, Nat.succ_pos _⟩
        · intro r hr hblame
          obtain ⟨f, hf, hby⟩ := h.watchdog r hr hblame
          refine ⟨f, hf, hby.imp_right ?_⟩
          rintro ⟨hreason, -⟩
          exact ⟨hreason, Nat.succ_pos _⟩
      have hg := hmore.goto (t := t) (p := .timedOut requester) nofun
        fun _ _ => ⟨hns, Nat.succ_pos _⟩
      exact ⟨hg.requested, hg.expired, hg.untouched, hg.stands, hg.watchdog⟩
  | @giveUp t hpc hx =>
      have hg := h.goto (t := t) (p := .idle) nofun nofun
      exact ⟨hg.requested, hg.expired, hg.untouched, hg.stands, hg.watchdog⟩
  | @observe t o now hpc =>
      obtain ⟨-, hrec, hi⟩ := observe_kept w.control o now
      have hg := h.goto (t := t) (p := .consuming) nofun nofun
      exact hg.control hi fun r hr => .inl (hrec ▸ hr)
  | @wait t returncode hpc =>
      have hg := h.goto (t := t) (p := .finishing returncode) nofun nofun
      exact ⟨hg.requested, hg.expired, hg.untouched, hg.stands, hg.watchdog⟩
  | @finish t returncode now reapedAt memory hpc =>
      obtain ⟨hi, hblame⟩ := finish_intent w.control returncode now reapedAt memory
      have hg := h.goto (t := t) (p := .idle) nofun nofun
      have hc := hg.control hi fun r hr => .inr (hblame r hr)
      exact ⟨hc.requested, hc.expired, hc.untouched, hc.stands, hc.watchdog⟩
  | handle hpc => exact h.handle _ hpc

/-! ## Runs -/

/-- The steps that change the request: the first `kill` of a live child, and the handler of a reap that
timed out if there is no reason. -/
theorem Moves.intent {w w' : World} {a : Action} (hm : Moves w a w') :
    w'.control.intent = w.control.intent ∨
      (w.exited = false ∧ w.control.intent.requestedMonotonicNs = none) ∨
      ∃ t requester now, a = .handle t now ∧ w.pc t = .timedOut requester ∧
        w.control.intent.reason = none ∧
        w'.control.intent = ⟨some reapTimeout, some requester, some now⟩ := by
  cases hm with
  | @request t reason requester now delivered hpc hr =>
      cases hx : w.exited with
      | true =>
          refine .inl ?_
          rw [World.request, ProcessControl.request, hx, if_pos rfl]
      | false =>
          by_cases hns : w.control.intent.requestedMonotonicNs = none
          · exact .inr (.inl ⟨rfl, hns⟩)
          · refine .inl ?_
            rw [World.request, ProcessControl.request, hx, if_neg Bool.false_ne_true]
            exact if_neg hns
  | @observe t o now hpc => exact .inl (observe_kept w.control o now).2.2
  | @handle t requester now hpc =>
      by_cases hreason : w.control.intent.reason = none
      · exact .inr (.inr ⟨t, requester, now, rfl, hpc, hreason, if_pos hreason⟩)
      · exact .inl (if_neg hreason)
  | exit => exact .inl rfl
  | killed hpc hr => exact .inl rfl
  | reap hpc => exact .inl rfl
  | acquire hpc hl => exact .inl rfl
  | leave hpc hr => exact .inl rfl
  | enter hpc hr => exact .inl rfl
  | ready hpc hx => exact .inl rfl
  | expire hpc hx => exact .inl rfl
  | giveUp hpc hx => exact .inl rfl
  | wait hpc => exact .inl rfl
  | finish hpc => exact .inl rfl

/-- The request as recorded, or with the reason of a reap that timed out in place of none. -/
def Intent.Becomes (i i' : Intent) : Prop :=
  i' = i ∨ i.reason = none ∧ i'.reason = some reapTimeout

theorem run_intent {w w' : World} {as : List Action} (h : run w as = some w')
    (hns : w.control.intent.requestedMonotonicNs ≠ none) :
    w.control.intent.Becomes w'.control.intent := by
  have hkept : w'.control.intent.requestedMonotonicNs ≠ none ∧
      w.control.intent.Becomes w'.control.intent := by
    refine run_induction (P := fun v => v.control.intent.requestedMonotonicNs ≠ none ∧
      w.control.intent.Becomes v.control.intent) ?_ h ⟨hns, .inl rfl⟩
    rintro v a v' ⟨hv, hbecomes⟩ hm
    rcases hm.intent with hsame | ⟨-, hnone⟩ | ⟨t, requester, now, -, -, hreason, hi⟩
    · rw [hsame]
      exact ⟨hv, hbecomes⟩
    · exact absurd hnone hv
    · rw [hi]
      refine ⟨nofun, .inr ⟨?_, rfl⟩⟩
      rcases hbecomes with hsame | ⟨hnone, -⟩
      · rw [← hsame]
        exact hreason
      · exact hnone
  exact hkept.2

theorem Moves.record {w w' : World} {a : Action} (he : Exclusive w) (hm : Moves w a w')
    {r : TerminationRecord} (h : w.control.record = some r) : w'.control.record = some r := by
  cases hm with
  | @request t reason requester now delivered hpc hr =>
      rw [World.request]
      exact (request_reaped w.control w.exited reason requester now delivered).2.trans h
  | @observe t o now hpc => exact (observe_kept w.control o now).2.1.trans h
  | @finish t returncode now reapedAt memory hpc =>
      -- the thread has found the child unreaped, so that there is no record
      have hreaped := he.unreaped t (by rw [hpc]; rfl)
      have hsome := he.record
      rw [hreaped, h] at hsome
      cases hsome
  | exit => exact h
  | killed hpc hr => exact h
  | reap hpc => exact h
  | acquire hpc hl => exact h
  | leave hpc hr => exact h
  | enter hpc hr => exact h
  | ready hpc hx => exact h
  | expire hpc hx => exact h
  | giveUp hpc hx => exact h
  | wait hpc => exact h
  | handle hpc => exact h

/-- The thread is not in the handler of a reap that timed out, and the child has exited. -/
def Late (t : Nat) (w : World) : Prop := w.exited = true ∧ ∀ requester, w.pc t ≠ .timedOut requester

theorem Late.goto {w : World} {t u : Nat} {p : Pc} (h : Late t w)
    (hp : ∀ requester, p ≠ .timedOut requester) : Late t (w.goto u p) := by
  refine ⟨h.1, fun requester => ?_⟩
  by_cases htu : t = u
  · rw [htu, goto_pc_self]
    exact hp requester
  · rw [goto_pc_of_ne htu]
    exact h.2 requester

theorem Late.step {w w' : World} {a : Action} {t : Nat} (h : Late t w) (hm : Moves w a w') :
    Late t w' := by
  cases hm with
  | exit => exact ⟨rfl, h.2⟩
  | killed hpc hr => exact h
  | @request u reason requester now delivered hpc hr =>
      have hg := h.goto (u := u) (p := .wanting (some requester)) nofun
      exact ⟨hg.1, hg.2⟩
  | reap hpc => exact h.goto nofun
  | @acquire u caller hpc hl =>
      have hg := h.goto (u := u) (p := .holding caller) nofun
      exact ⟨hg.1, hg.2⟩
  | @leave u caller hpc hr =>
      have hg := h.goto (u := u) (p := .idle) nofun
      exact ⟨hg.1, hg.2⟩
  | enter hpc hr => exact h.goto nofun
  | ready hpc hx => exact h.goto nofun
  | expire hpc hx => exact absurd h.1 (by rw [hx]; nofun)
  | giveUp hpc hx => exact absurd h.1 (by rw [hx]; nofun)
  | @observe u o now hpc =>
      have hg := h.goto (u := u) (p := .consuming) nofun
      exact ⟨hg.1, hg.2⟩
  | @wait u returncode hpc =>
      have hg := h.goto (u := u) (p := .finishing returncode) nofun
      exact ⟨hg.1, hg.2⟩
  | @finish u returncode now reapedAt memory hpc =>
      have hg := h.goto (u := u) (p := .idle) nofun
      exact ⟨hg.1, hg.2⟩
  | @handle u requester now hpc =>
      have hg := h.goto (u := u) (p := .idle) nofun
      exact ⟨hg.1, hg.2⟩

/-- A thread that starts its call after the exit of the child changes no request. -/
theorem Late.intent {w w' : World} {a : Action} {t : Nat} (h : Late t w) (ha : a.thread = some t)
    (hm : Moves w a w') : w'.control.intent = w.control.intent := by
  rcases hm.intent with hsame | ⟨hx, -⟩ | ⟨u, requester, now, rfl, hpc, -, -⟩
  · exact hsame
  · rw [h.1] at hx
    cases hx
  · cases ha
    exact absurd hpc (h.2 requester)

theorem init_exclusive (identity : ProcessIdentity) (memory : Option (Dict Str Int)) (exited : Bool) :
    Exclusive (World.init identity memory exited) :=
  ⟨fun _ => ⟨nofun, nofun⟩, nofun, fun _ _ => rfl, Nat.zero_le _, rfl⟩

theorem init_provenance (identity : ProcessIdentity) (memory : Option (Dict Str Int))
    (exited : Bool) : Provenance (World.init identity memory exited) where
  requested t h := Bool.noConfusion h
  expired t requester h := Pc.noConfusion h
  untouched _ := ⟨rfl, rfl⟩
  stands h := absurd rfl h
  watchdog r h := by cases h

/-- What holds of a state `w` of a run and of every later state `w'`. -/
structure FirstIntent (w w' : World) : Prop where
  stands : w.control.intent.requestedMonotonicNs ≠ none → w.control.intent.reason ≠ none →
    w'.control.intent = w.control.intent
  unreasoned : w.control.intent.requestedMonotonicNs ≠ none → w.control.intent.reason = none →
    w'.control.intent = w.control.intent ∨ w'.control.intent.reason = some reapTimeout
  late : w.exited = true → ∀ t, w.pc t = .idle → ∀ a w'', a.thread = some t →
    step w' a = some w'' → w''.control.intent = w'.control.intent
  once : w'.waits ≤ 1
  record : ∀ r, w.control.record = some r → w'.control.record = some r
  watchdog : ∀ r, w'.control.record = some r → r.blamesWatchdog = true →
    ∃ f, w'.first = some f ∧
      (f.reason ≠ none ∨ w'.timeouts = 0 → f.requestedBy = some (lit "watchdog"))

end Model

section Concrete

attribute [local instance] wholeFloats

/-- A control of a live child. -/
def sampleWorld : World := .init ⟨lit "c", 42, none, none⟩ none false

/-- A `kill` of a thread whose reap times out. -/
def stuckKill (t : Nat) (reason : Option Reason) (requester : String) (now : Int) : List Action :=
  [.kill t reason (lit requester) now true, .acquire t, .enter t, .expire t]

/-- A reap of a child that SIGKILL has ended. -/
def reapKilled (t : Nat) (now : Int) : List Action :=
  [.exit, .reap t, .acquire t, .enter t, .ready t, .observe t (.reported 2 9) now, .wait t (-9),
    .finish t now (now + 1) none]

/-- The run has a state that satisfies a test. -/
theorem exists_of_run (as : List Action) (P : World → Bool)
    (h : (run sampleWorld as).any P = true) : ∃ w, run sampleWorld as = some w ∧ P w = true := by
  cases hrun : run sampleWorld as with
  | none =>
      rw [hrun] at h
      cases h
  | some w =>
      rw [hrun] at h
      exact ⟨w, rfl, h⟩

/-- Two kills whose reaps time out, one without a reason and then one of the watchdog. -/
def stuckTwice : List Action :=
  stuckKill 0 none "runtime" 1 ++
    stuckKill 1 (some ⟨lit "resource", lit "memory_limit_mb", []⟩) "watchdog" 2

end Concrete

end ResidualHarness.Factory.Termination
