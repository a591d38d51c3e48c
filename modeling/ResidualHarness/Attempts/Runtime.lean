import ResidualHarness.Attempts.AttemptGuard
import ResidualHarness.Factory.RuntimeJournal

/-!
# The factory runtime

`FactoryRuntime.run` and `FactoryRuntime.cancel` of `residual/factory/runtime.py`, with
`ProcessControl` of `residual/factory/termination_provenance.py`. A run is a program of one thread.
What the other threads and the system do (cancellations, the watchdog, the exit of the process, a
deferred reap) is a list of steps before every access of the run to shared state, so every
interleaving is one choice of these lists. Every locked section and every transaction is one step.

What comes from outside is a field of `Outside`: clock readings, the stamps and the fate of
transactions, the outcome of system calls, the lines that the worker writes. The states that the row
of the attempt has had, the cause that was journaled, the writes that failed, and the moment at which
the run decides how the attempt ended are kept for the statements; the code does not read them.
-/

set_option autoImplicit false

namespace ResidualHarness.Factory

open Python Core

variable [FloatModel]

/-! ## The process -/

/-- Why a process is terminated: `(boundary, field, action)`. -/
structure Reason where
  boundary : Str
  field : Str
  action : Fields
deriving DecidableEq

/-- An action that names a reason. -/
def because (reason : String) : Fields := [(lit "reason", .str (lit reason))]

/-- `ProcessControl`: the first reason, whether the process has exited and whether it has been reaped.
Every caller of `kill` gives a reason, so a termination has been requested when there is one. The
reason at the reap is kept for the statements: a reason is never replaced. -/
structure Control where
  reason : Option Reason
  exited : Bool
  reaped : Bool
  reapedWith : Option Reason
  kept : ∀ r, reapedWith = some r → reason = some r

/-- `ProcessControl.__init__`. -/
def Control.init : Control := ⟨none, false, false, none, nofun⟩

/-- The first reason is recorded. -/
def Control.record (k : Control) (r : Reason) : Control :=
  match hk : k.reason with
  | some _ => k
  | none => { k with
      reason := some r
      kept := fun s hs => nomatch (k.kept s hs).symm.trans hk }

/-- `kill` under the state lock: the first request for a live process records its reason. -/
def Control.request (k : Control) (r : Reason) : Control :=
  if k.reaped ∨ k.exited then k else k.record r

/-- `reap(timeout)`: false when it times out. -/
def Control.reap (k : Control) : Bool × Control :=
  if k.reaped then (true, k)
  else if k.exited then
    (true, { k with reaped := true, reapedWith := k.reason, kept := fun _ hs => hs })
  else (false, k)

/-- The handler of a timed out reap in `kill`. -/
def Control.reapTimedOut (k : Control) : Control :=
  k.record ⟨lit "resource", lit "reap_timeout", [(lit "timeout_s", .int 2)]⟩

/-- A thread in `kill`, after its request. -/
inductive Killing where
  | idle
  | reaping
  | timedOut
  | done
deriving DecidableEq

/-- A thread in `cancel(attempt_id)`. -/
inductive Cancelling where
  | found
  | reaping
  | timedOut
  | killed
  | revoked
  | refused
  | judged (own : Bool)
  | returned (answer : Bool)
  | raised
deriving DecidableEq

/-- The causes for which the watchdog terminates the worker. -/
inductive WatchCause where
  | wallClock (elapsed : FloatModel.F)
  | memory (action : Fields)
  | leaseRevoked
  | leaseUnreadable (action : Fields)

/-- The reason that the watchdog gives. -/
def WatchCause.reason : WatchCause → Reason
  | .wallClock elapsed =>
      ⟨lit "resource", lit "wall_clock_budget_s", [(lit "elapsed_s", .float elapsed)]⟩
  | .memory action => ⟨lit "resource", lit "memory_limit_mb", action⟩
  | .leaseRevoked => ⟨lit "lease", lit "lease_generation", because "revoked_or_unavailable"⟩
  | .leaseUnreadable action => ⟨lit "lease", lit "lease_unreadable", action⟩

/-- The reason of a cancellation by the operator. -/
def operatorCancel : Reason := ⟨lit "cancellation", lit "operator_cancel", because "local_operator"⟩

/-- The reason of the guard's stop hook. -/
def guardStop : Reason := ⟨lit "guard", lit "contract_violation", because "guard_stop_hook"⟩

/-- The reason of the finalizer. -/
def finalizerStop : Reason := ⟨lit "runtime", lit "finalizer", because "ensure_reaped"⟩

/-- `reason[:2] == ('cancellation', 'operator_cancel')`. -/
def isOwn (reason : Option Reason) : Bool :=
  match reason with
  | some r => decide (r.boundary = lit "cancellation" ∧ r.field = lit "operator_cancel")
  | none => false

/-- `reason[0] == 'cancellation'`. -/
def isCancellation (reason : Option Reason) : Bool :=
  match reason with
  | some r => decide (r.boundary = lit "cancellation")
  | none => false

/-! ## Shared state -/

/-- A step of another thread or of the system. -/
inductive EnvStep where
  | exit
  | watch (cause : WatchCause)
  | watchStep
  | cancel
  | cancelStep (i : Nat) (stamp : Stamp) (commits readable : Bool)
  | recoverReap
  | recover (stamp : Stamp) (closes commits : Bool)

/-- The moment at which the run decides how the attempt ended: the access, whether the exchange was
complete, the recorded reason, the start of the guard's clock, and whether the lease is current. -/
structure Decision where
  time : Nat
  complete : Bool
  reason : Option Reason
  started : Option FloatModel.F
  lease : Bool
deriving DecidableEq

/-- The journal, the process, the other threads, and the variables of the run that its handlers
read. -/
structure World where
  db : Db
  time : Nat
  control : Option Control
  active : Bool
  watch : Option Killing
  cancels : List Cancelling
  deferred : Option (AttemptState × Str × Fields)
  spawned : Bool
  status : AttemptState
  why : Str
  captured : Option Json
  finished : Bool
  history : List AttemptState
  journaled : Option (AttemptState × Str)
  unwritten : Nat
  decided : Option Decision

/-- Before the run. -/
def World.init (db : Db) : World where
  db := db
  time := 0
  control := none
  active := false
  watch := none
  cancels := []
  deferred := none
  spawned := false
  status := .failed
  why := lit "launch_failed"
  captured := none
  finished := false
  history := []
  journaled := none
  unwritten := 0
  decided := none

/-- `control.reason`. -/
def World.reason (w : World) : Option Reason := w.control.bind Control.reason

/-- `control.reaped`. -/
def World.reaped (w : World) : Bool := (w.control.map Control.reaped).getD false

/-- A locked section of the process control. -/
def World.controlled (w : World) (f : Control → Control) : World :=
  { w with control := w.control.map f }

/-- A reap: false when it times out. -/
def World.reap (w : World) : Bool × World :=
  match w.control with
  | some k => (k.reap.1, { w with control := some k.reap.2 })
  | none => (true, w)

section Attempt

variable (c : CheckedContract)

/-- The row of the attempt. -/
def World.row (w : World) : Option Attempt := w.db.attempt c.attemptId

/-- A transaction has committed. -/
def World.commit (w : World) (db : Db) : World :=
  { w with
    db := db
    history := w.history ++ ((db.attempt c.attemptId).map Attempt.state).toList }

/-- The read of `rows` in `cancel`. -/
def World.cancelledRow (w : World) : Bool :=
  match w.row c with
  | some r => decide (r.state = .cancelled ∧ r.revoked = false)
  | none => false

/-- `JournalError`, as `except JournalError` tests it. -/
def isJournalError : PyExn → Bool
  | .userError cls _ => cls == "JournalError"
  | _ => false

/-- The revocation of `cancel`. -/
def World.cancelRevoke (w : World) (stamp : Stamp) (commits : Bool) : Cancelling × World :=
  match w.db.revoke stamp c.attemptId with
  | .ok db => if commits then (.revoked, w.commit c db) else (.raised, w)
  | .error e => if isJournalError e then (.refused, w) else (.raised, w)

/-- The next step of a cancellation. -/
def World.cancelNext (w : World) (stamp : Stamp) (commits readable : Bool) :
    Cancelling → Cancelling × World
  | .found => (.reaping, w.controlled fun k => k.request operatorCancel)
  | .reaping => if w.reap.1 then (.killed, w.reap.2) else (.timedOut, w)
  | .timedOut => (.killed, w.controlled Control.reapTimedOut)
  | .killed => w.cancelRevoke c stamp commits
  | .revoked => (.returned (isOwn w.reason), w)
  | .refused => (.judged (isOwn w.reason), w)
  | .judged own => if readable then (.returned (own && w.cancelledRow c), w) else (.raised, w)
  | .returned answer => (.returned answer, w)
  | .raised => (.raised, w)

/-- The next step of the watchdog's `kill`. -/
def World.watchNext (w : World) : Killing → Killing × World
  | .idle => (.idle, w)
  | .reaping => if w.reap.1 then (.done, w.reap.2) else (.timedOut, w)
  | .timedOut => (.done, w.controlled Control.reapTimedOut)
  | .done => (.done, w)

/-- `complete()` of a deferred reap: the resources are closed, the attempt is journaled and no longer
active. -/
def World.recover (w : World) (stamp : Stamp) (closes commits : Bool) : World :=
  match w.deferred with
  | some (status, why, details) =>
      if w.reaped ∧ closes then
        match w.db.finish stamp c.toWorkerContract status.name details with
        | .ok db =>
            if commits then
              { w.commit c db with
                active := false
                deferred := none
                journaled := some (status, why) }
            else { w with deferred := none }
        | .error _ => { w with deferred := none }
      else w
  | none => w

/-- One step of another thread or of the system. -/
def World.envStep (w : World) : EnvStep → World
  | .exit => w.controlled fun k => { k with exited := true }
  | .watch cause =>
      if w.watch = some .idle then
        { w.controlled fun k => k.request cause.reason with watch := some .reaping }
      else w
  | .watchStep =>
      match w.watch with
      | some k => { (w.watchNext k).2 with watch := some (w.watchNext k).1 }
      | none => w
  | .cancel =>
      { w with cancels := w.cancels ++ [if w.active then .found else .returned false] }
  | .cancelStep i stamp commits readable =>
      match w.cancels[i]? with
      | some k =>
          let next := w.cancelNext c stamp commits readable k
          { next.2 with cancels := next.2.cancels.set i next.1 }
      | none => w
  | .recoverReap => if w.deferred.isSome then w.reap.2 else w
  | .recover stamp closes commits => w.recover c stamp closes commits

/-- The steps of the other threads. -/
def World.envSteps (w : World) (steps : List EnvStep) : World := steps.foldl (World.envStep c) w

/-! ## The run -/

/-- What a round of the exchange meets: a system call that raises, too many bytes, or a line of the
worker. A line is a JSON value or not; `full` says that the reply does not fit, and `file` names the
exception of the file operation. -/
inductive Arrival where
  | failed (result : HookResult)
  | tooLong (field : Str) (bytes : Nat)
  | line (value : Option Json) (full : Bool) (file : Option Str)

/-- What a run takes from outside. Functions of a number are indexed by the accesses of the run. -/
structure Outside where
  steps : Nat → List EnvStep
  clock : Nat → Reading
  stamp : Nat → Stamp
  commits : Nat → Bool
  system : Nat → HookResult
  readable : Nat → Bool
  retries : Nat → Nat
  diagnostic : Nat → Option (Str × Int)
  joins : Nat → Bool
  monotonicNs : Nat → Int
  rounds : List (List Arrival)
  unterminated : Bool
  pid : Int
  identity : Json
  returncode : Int
  record : Json
  unknownExit : Bool
  waits : Bool
  candidate : Json
  text : Value → Str

variable [FloatArith] (o : Outside)

/-- The other threads have moved before an access. -/
def World.advance (w : World) : World :=
  ({ w with time := w.time + 1 }).envSteps c (o.steps (w.time + 1))

/-- The exception of a store that fails. -/
def storeError : PyExn := .runtimeError "OperationalError" "database is locked"

/-- A transaction of the run. -/
def World.transact (w : World) (body : Stamp → Db → Except PyExn Db) : Except PyExn Unit × World :=
  let w := w.advance c o
  match body (o.stamp w.time) w.db with
  | .ok db =>
      if o.commits w.time then (.ok (), w.commit c db)
      else (.error storeError, { w with unwritten := w.unwritten + 1 })
  | .error e => (.error e, { w with unwritten := w.unwritten + 1 })

/-- The end of `control.kill(reason)`: the reap and its handler. -/
def World.killReap (w : World) : World :=
  if w.reap.1 then w.reap.2 else (w.advance c o).controlled Control.reapTimedOut

/-- `control.kill(reason)`. -/
def World.kill (w : World) (r : Reason) : World :=
  (((w.advance c o).controlled fun k => k.request r).advance c o).killReap c o

/-- The fields of an event, which must be JSON. -/
def jsonFields (event : GuardEvent) : Except PyExn Fields :=
  mapE (fun kv => match kv.2 with
    | .json v => .ok (kv.1, v)
    | .object => .error .typeError) event

/-- `self.journal.observe(payload)`. -/
def appendEvent (event : GuardEvent) (stamp : Stamp) (db : Db) : Except PyExn Db := do
  let fields ← jsonFields event
  db.append stamp fields

/-- The hooks that the run gives to its guard. -/
def hooks : Hooks World where
  observe := fun w event =>
    match w.transact c o (appendEvent event) with
    | (.ok _, w) => (.returned, w)
    | (.error e, w) => (.raised e, w)
  terminate := fun w =>
    (.returned, if w.control.isSome then w.kill c o guardStop else w)
  clock := fun w => (o.clock (w.advance c o).time, w.advance c o)

/-- A write of the run. -/
def change (f : World → World) : Guarded World Unit :=
  Prog.write fun g => { g with world := f g.world }

/-- An access to shared state. -/
def access : Guarded World World := do
  change fun w => w.advance c o
  let g ← Prog.read
  return g.world

/-- Code outside the model: it returns, or raises. -/
def system : Guarded World Unit := do
  let w ← access c o
  match o.system w.time with
  | .returned => return ()
  | .raised e => Prog.raise (.exception e)
  | .aborted => Prog.raise .aborted

/-- A transaction. -/
def transaction (body : Stamp → Db → Except PyExn Db) : Guarded World Unit := do
  let g ← Prog.read
  let r := g.world.transact c o body
  change fun _ => r.2
  match r.1 with
  | .ok _ => return ()
  | .error e => Prog.raise (.exception e)

/-- `contract.contract_hash`. -/
def hashOf : Guarded World Str :=
  match c.contractHash with
  | .ok hash => return hash
  | .error e => Prog.raise (.exception e)

/-- `self.journal.observe({'event': ..., 'attempt_id': ..., ...})`. -/
def observe (event : String) (fields : Fields) : Guarded World Unit :=
  transaction c o fun stamp db => db.append stamp
    ([(lit "event", Json.str (lit event)), (lit "attempt_id", .str c.attemptId)] ++ fields)

/-- The correlation and the time of an event of the run. -/
def correlation (w : World) : Fields :=
  [(lit "correlation_id", .str c.attemptId), (lit "monotonic_ns", .int (o.monotonicNs w.time))]

/-- `guard.fail(*reason)`. -/
def failWith (r : Reason) : Guarded World Unit :=
  fail (hooks c o) r.boundary r.field (.json (.obj r.action))

/-- `guard.fail(*reason)` where there is a reason. -/
def failOn (reason : Option Reason) : Guarded World Unit :=
  match reason with
  | some r => failWith c o r
  | none => return ()

/-- `guard.fail(*reason)` under a condition. -/
def refuse (condition : Prop) [Decidable condition] (r : Reason) : Guarded World Unit :=
  if condition then failWith c o r else return ()

/-- `_unreadable_lease(detail, diagnostic)`. -/
def unreadableLease (detail : String) (diagnostic : Option (Str × Int)) : Reason :=
  ⟨lit "lease", lit "lease_unreadable", because detail ++
    match diagnostic with
    | some (name, code) => [(lit "read_error_type", .str name), (lit "sqlite_errorcode", .int code)]
    | none => []⟩

/-- One read of `_lease_denial(contract, detail)`: the denial, unless the lease is unreadable. -/
def leaseRead (detail : String) : Guarded World (Option (Option Reason)) := do
  let w ← access c o
  match w.db.leaseRead c.toWorkerContract (o.readable w.time) with
  | .error e => Prog.raise (.exception e)
  | .ok .current => return some none
  | .ok .revoked => return some (some ⟨lit "lease", lit "lease_generation", because detail⟩)
  | .ok .unknown => return none

/-- The reads of `_lease_denial(contract, detail)`, with a number of retries. -/
def leaseReads (detail : String) : Nat → Guarded World (Option Reason)
  | 0 => do
      match ← leaseRead c o detail with
      | some denial => return denial
      | none =>
          let g ← Prog.read
          return some (unreadableLease detail (o.diagnostic g.world.time))
  | retries + 1 => do
      match ← leaseRead c o detail with
      | some denial => return denial
      | none => leaseReads detail retries

/-- `_lease_denial(contract, detail)`, followed by `guard.fail(*denial)` where there is one. -/
def checkLease (detail : String) : Guarded World Unit := do
  system c o
  let w ← access c o
  let denial ← leaseReads c o detail (o.retries w.time)
  failOn c o denial

/-- `before_io()`. -/
def beforeIo : Guarded World Unit := do
  active (hooks c o)
  let w ← access c o
  failOn c o w.reason
  checkLease c o "fenced_before_io"

/-- The operations of the broker. -/
def brokerOperations : List Str := [lit "read_file", lit "write_file", lit "delete_file"]

/-- The arguments that an operation needs. -/
def requiredArguments (operation : Str) : List Str :=
  if operation = lit "write_file" then [lit "path", lit "content"] else [lit "path"]

/-- `arguments['path']`. -/
def pathArgument (arguments : Fields) : Value :=
  ((arguments.get? (lit "path")).map Value.json).getD .object

/-- `broker.dispatch(operation, arguments)`. -/
def dispatch (operation : Str) (arguments : Fields) (file : Option Str) : Guarded World Unit := do
  authorizeTool (hooks c o) o.text (.json (.str operation))
  refuse c o (operation ∉ brokerOperations ∨
      ¬ (requiredArguments operation).Perm (arguments.map Prod.fst))
    ⟨lit "tool", lit "broker_protocol",
      [(lit "operation", .str operation), (lit "reason", .str (lit "unsupported_shape"))]⟩
  authorizePath (hooks c o) o.text (pathArgument arguments)
    (.json (.bool (decide (operation ≠ lit "read_file"))))
  beforeIo c o
  failOn c o (file.map fun name => ⟨lit "filesystem", lit "broker_file_boundary",
    [(lit "path", .str (shown o.text (pathArgument arguments) 1024)),
      (lit "operation", .str operation), (lit "reason", .str name)]⟩)

/-- The variables of the exchange. -/
structure Session where
  ready : Bool
  completed : Bool
  expected : Int

/-- `value == {'event': 'SandboxReady', 'profile': PROFILE}`. -/
def isReadyFrame (fields : Fields) : Bool :=
  decide (fields.length = 2 ∧ fields.get? (lit "event") = some (.str (lit "SandboxReady")) ∧
    fields.get? (lit "profile") = some (.str (lit "linux-seccomp-broker-v1")))

/-- A request of the worker: its operation and its arguments. -/
def Session.request (s : Session) (fields : Fields) : Option (Str × Fields) :=
  match fields.get? (lit "sequence"), fields.get? (lit "operation"),
      fields.get? (lit "arguments") with
  | some (.int sequence), some (.str operation), some (.obj arguments) =>
      if s.completed = false ∧ fields.length = 3 ∧ sequence = s.expected then
        some (operation, arguments)
      else none
  | _, _, _ => none

/-- `queue(value)`. -/
def queue (full : Bool) : Guarded World Unit :=
  refuse c o (full = true) ⟨lit "resource", lit "protocol_frame_bytes", because "reply_limit"⟩

/-- The first line of the worker. -/
def greet (fields : Fields) (full : Bool) : Guarded World Unit := do
  refuse c o (isReadyFrame fields = false)
    ⟨lit "tool", lit "sandbox_handshake", because "not_ready"⟩
  let hash ← hashOf c
  let w ← access c o
  observe c o "RuntimeSandboxReady" (correlation c o w ++
    [(lit "profile", Json.str (lit "linux-seccomp-broker-v1")), (lit "contract_hash", .str hash)])
  queue c o full

/-- A request of the worker. -/
def serve (operation : Str) (arguments : Fields) (file : Option Str) : Guarded World Unit :=
  if operation = lit "__complete__" then
    refuse c o (arguments ≠ []) ⟨lit "tool", lit "broker_protocol", because "invalid_completion"⟩
  else dispatch c o operation arguments file

/-- A line of the worker. -/
def receive (s : Session) (value : Option Json) (full : Bool) (file : Option Str) :
    Guarded World Session := do
  match value with
  | some (.obj fields) =>
      if s.ready = false then
        greet c o fields full
        return { s with ready := true }
      else
        match s.request fields with
        | none =>
            failWith c o ⟨lit "tool", lit "broker_protocol", because "invalid_or_replayed_request"⟩
            return s
        | some (operation, arguments) =>
            checkLease c o "revoked_before_dispatch"
            serve c o operation arguments file
            queue c o full
            return { s with
              completed := s.completed || decide (operation = lit "__complete__")
              expected := s.expected + 1 }
  | _ =>
      failWith c o ⟨lit "tool", lit "broker_protocol", because "invalid_json"⟩
      return s

/-- One arrival. -/
def arrive (s : Session) : Arrival → Guarded World Session
  | .failed .returned => return s
  | .failed (.raised e) => Prog.raise (.exception e)
  | .failed .aborted => Prog.raise .aborted
  | .tooLong field bytes => do
      failWith c o ⟨lit "resource", field, [(lit "bytes", .int bytes)]⟩
      return s
  | .line value full file => receive c o s value full file

/-- The arrivals of a round. -/
def arriveAll : Session → List Arrival → Guarded World Session
  | s, [] => return s
  | s, a :: rest => do
      let s ← arrive c o s a
      arriveAll s rest

/-- `_exchange(process, control, guard, broker, contract, source)`. -/
def exchange : Session → List (List Arrival) → Guarded World Bool
  | s, [] => do
      refuse c o (o.unterminated = true)
        ⟨lit "tool", lit "broker_protocol", because "unterminated_frame"⟩
      return s.ready && s.completed
  | s, round :: rest => do
      let w ← access c o
      match w.reason with
      | some _ => return false
      | none =>
          let s ← arriveAll c o s round
          exchange s rest

/-- The test of `guard.deadline`. -/
def requireDeadline : Guarded World Unit := do
  let g ← Prog.read
  if g.deadline = none then
    Prog.raise (.exception (workerContractError "guard did not record a deadline"))
  else return ()

/-- The worktree, the guard and the process. -/
def launch : Guarded World Unit := do
  system c o
  let hash ← hashOf c
  let w ← access c o
  observe c o "RuntimeWorktreeCreated" (correlation c o w ++
    [(lit "input_commit", Json.str c.inputCommit), (lit "contract_hash", .str hash)])
  start (hooks c o)
  system c o
  change fun w => { w with spawned := true }
  system c o
  change fun w => { w with control := some Control.init }

/-- The watchdog, and the attempt as one that can be cancelled. -/
def register : Guarded World Unit := do
  requireDeadline
  change fun w => { w with watch := some .idle }
  let _ ← access c o
  change fun w => { w with active := true }
  transaction c o fun stamp db => db.started stamp c.toWorkerContract o.pid
  let w ← access c o
  observe c o "RuntimeProcessIdentity" (correlation c o w ++ [(lit "identity", o.identity)])

/-- `control.reap(timeout=2)` of the run. -/
def reapControl : Guarded World Bool := do
  let w ← access c o
  change fun w => w.reap.2
  return w.reap.1

/-- `done.set()` and `watcher.join(timeout=2)`: whether the watchdog has stopped. A watchdog that is
in `kill` does not stop before it has left it. -/
def joinWatch : Guarded World Bool := do
  let w ← access c o
  if o.joins w.time = false ∨ w.watch = some .reaping ∨ w.watch = some .timedOut then return false
  else
    change fun w => { w with watch := none }
    return true

/-- The reap after the exchange has timed out: a reason that is already recorded. -/
def drainReason (reason : Option Reason) : Guarded World Unit :=
  match reason with
  | some r =>
      if r.boundary = lit "cancellation" then do
        cancel (hooks c o)
        Prog.raise (.exception (.runtimeError "TimeoutExpired" ""))
      else failWith c o r
  | none => return ()

/-- The handler of the reap after the exchange. -/
def drainTimeout : Guarded World Unit := do
  let w ← access c o
  drainReason c o w.reason
  failWith c o ⟨lit "resource", lit "drain_timeout", [(lit "timeout_s", .int 2)]⟩

/-- The reap after the exchange. -/
def drain : Guarded World Unit := do
  let reaped ← reapControl c o
  if reaped then return () else drainTimeout c o

/-- The end of the watchdog. -/
def stopWatch : Guarded World Unit := do
  let stopped ← joinWatch c o
  if stopped then return ()
  else Prog.raise (.exception (workerContractError "watchdog did not stop"))

/-- `state, reason = ...`. -/
def setEnd (status : AttemptState) (why : Str) : Guarded World Unit :=
  change fun w => { w with status := status, why := why }

/-- `lease_read` would say that the lease is current. -/
def World.leaseCurrent (w : World) : Bool :=
  match w.db.leaseRead c.toWorkerContract true with
  | .ok .current => true
  | _ => false

/-- The decision is noted. -/
def noteDecision (complete : Bool) : Guarded World Unit :=
  Prog.write fun g => { g with world := { g.world with
    decided := some ⟨g.world.time, complete, g.world.reason, g.started, g.world.leaseCurrent c⟩ } }

/-- How the attempt ended, for the reason that was recorded. -/
def judge (reason : Option Reason) (complete : Bool) : Guarded World Unit := do
  match reason with
  | some r =>
      if r.boundary = lit "cancellation" then
        cancel (hooks c o)
        setEnd .cancelled r.field
      else failWith c o r
  | none =>
      if o.unknownExit then
        Prog.raise (.exception
          (workerContractError "inconsistent or unavailable process exit evidence"))
      else if o.returncode = -31 then
        failWith c o ⟨lit "tool", lit "os_syscall_allowlist",
          [(lit "reason", .str (lit "kernel_seccomp_kill")), (lit "signal", .int 31),
            (lit "syscall_attribution", .str (lit "unavailable")),
            (lit "profile", .str (lit "linux-seccomp-broker-v1"))]⟩
      else if o.returncode ≠ 0 ∨ complete = false then
        change fun w => { w with why := lit "worker_failed_or_incomplete" }
        cancel (hooks c o)
      else
        checkLease c o "stale_before_capture"
        system c o
        change fun w => { w with captured := some o.candidate }
        finish (hooks c o)
        setEnd .candidate (lit "awaiting_station_verification")

/-- The decision, after the worker has been reaped. -/
def conclude (complete : Bool) : Guarded World Unit := do
  let w ← access c o
  noteDecision c complete
  judge c o w.reason complete

/-- The details of the terminal event. -/
def finishDetails (g : Guard World) (reaped : Bool) (termination : Json) : Fields :=
  [(lit "reason", .str g.world.why), (lit "process_reaped", .bool reaped),
    (lit "returncode", if g.world.spawned && reaped then .int o.returncode else .null),
    (lit "usage", .obj g.usage), (lit "termination", termination)]

/-- `self.journal.finish(contract, state, ...)`. -/
def journalFinish (details : Fields) : Guarded World Unit := do
  let g ← Prog.read
  transaction c o fun stamp db =>
    db.finish stamp c.toWorkerContract g.world.status.name details
  change fun w => { w with journaled := some (w.status, w.why) }

/-- The body of the `try` statement of `run`. -/
def execute : Guarded World Unit := do
  launch c o
  register c o
  let complete ← exchange c o ⟨false, false, 1⟩ o.rounds
  drain c o
  stopWatch c o
  conclude c o complete
  let g ← Prog.read
  journalFinish c o (finishDetails o g true o.record ++
    [(lit "candidate", g.world.captured.getD .null)])
  change fun w => { w with finished := true }

/-- `type(exc).__name__`. -/
def exceptionName : PyExn → Str
  | .valueError _ => lit "ValueError"
  | .unicodeEncodeError => lit "UnicodeEncodeError"
  | .typeError => lit "TypeError"
  | .keyError => lit "KeyError"
  | .attributeError => lit "AttributeError"
  | .overflowError => lit "OverflowError"
  | .runtimeError cls _ => lit cls
  | .userError cls _ => lit cls

/-- The handlers of the `try` statement. -/
def handle : Except Raised Unit → Guarded World Unit
  | .ok _ => return ()
  | .error (.violation field) =>
      change fun w => { w with status := .violated, why := field, captured := none }
  | .error (.exception e) => do
      let w ← access c o
      let g ← Prog.read
      let status := if g.state = .auditFailed then AttemptState.auditFailed else .failed
      change fun w => { w with status := status, why := exceptionName e, captured := none }
      if isCancellation w.reason then setEnd .cancelled (lit "operator_cancel")
  | .error .aborted => return ()

/-- `RuntimeResult`; a status of `none` is `UNKNOWN`. -/
structure RuntimeResult where
  attemptId : Str
  status : Option AttemptState
  contractHash : Str
  executionPlanHash : Str
  returncode : Option Int
  processReaped : Bool
  usage : Fields
  candidate : Option Json
  reason : Str
  termination : Option Json

/-- A process that is not reaped yet is reaped, or killed. -/
def reapOrKill (k : Control) : Guarded World Unit :=
  if k.reaped then return ()
  else if k.exited then do
    let _ ← reapControl c o
    return ()
  else change fun w => w.kill c o finalizerStop

/-- The reap in the `finally` block: whether the process has been reaped. -/
def ensureReaped : Guarded World Bool := do
  let w ← access c o
  match w.control with
  | some k =>
      reapOrKill c o k
      let w ← access c o
      return w.reaped
  | none => return w.spawned && o.waits

/-- `_defer_reap(contract, control, complete)`. -/
def deferReap : Guarded World Unit := do
  let hash ← hashOf c
  change fun w => { w with active := true }
  let _ ← Prog.attempt (observe c o "RuntimeReapPending"
    [(lit "contract_hash", .str hash), (lit "state", .str (lit "UNKNOWN")),
      (lit "process_reaped", .bool false)])
  let g ← Prog.read
  change fun w => { w with
    deferred := some (w.status, w.why, finishDetails o g true o.record) }

/-- The journal is finished unless the body has done it. -/
def journalUnfinished (reaped : Bool) (termination : Json) : Guarded World Unit := do
  let g ← Prog.read
  if g.world.finished then return ()
  else journalFinish c o (finishDetails o g reaped termination)

/-- `finalize_resources()`. -/
def finalizeResources (reaped : Bool) (termination : Json) : Guarded World Unit := do
  system c o
  journalUnfinished c o reaped termination
  let _ ← access c o
  change fun w => { w with active := false }

/-- The `finally` block, and the result. -/
def conclusion : Guarded World RuntimeResult := do
  let reaped ← ensureReaped c o
  let _ ← joinWatch c o
  let w ← access c o
  let termination := if w.control.isSome && reaped then o.record else .null
  if w.control.isSome && !reaped then
    deferReap c o
    let hash ← hashOf c
    let g ← Prog.read
    return ⟨c.attemptId, none, hash, c.executionPlanHash, none, reaped, g.usage, none,
      lit "reap_pending", none⟩
  else
    finalizeResources c o reaped termination
    let hash ← hashOf c
    let g ← Prog.read
    return ⟨c.attemptId, some g.world.status, hash, c.executionPlanHash,
      if g.world.spawned && reaped then some o.returncode else none, reaped, g.usage,
      g.world.captured, g.world.why, if w.control.isSome && reaped then some o.record else none⟩

/-- `run(plan, approval, contract, source)`, after the checks of its arguments. -/
def run (sourceHash : Str) (approval : Json) : Guarded World RuntimeResult := do
  transaction c o fun stamp db => db.claim stamp c.toWorkerContract sourceHash approval
  let r ← Prog.attempt (execute c o)
  handle c o r
  let result ← conclusion c o
  if r = .error .aborted then Prog.raise .aborted else return result

end Attempt

end ResidualHarness.Factory
