import ResidualHarness.Core.Task
import ResidualHarness.Factory.WorkerContract
import ResidualHarness.Python.Program

/-!
# The attempt guard

`AttemptGuard` of `residual/factory/worker_contract.py`: the accounting of one attempt, with hooks
that observe events, stop the worker and read the clock. Every call is a program over the state of
the guard and the world of the hooks. The trace keeps the events whose observation was acknowledged
and the reservations that were settled; the code does not read it.
-/

set_option autoImplicit false

namespace ResidualHarness.Factory

open Python Core

/-! ## Clock readings -/

variable [FloatModel]

/-- The operations on floats that clocks need: `float(i)`, which fails when it overflows, sums and
differences. -/
class FloatArith where
  ofInt : Int → Option FloatModel.F
  add : FloatModel.F → FloatModel.F → FloatModel.F
  sub : FloatModel.F → FloatModel.F → FloatModel.F

/-- A float is at most another one. -/
def floatLe (a b : FloatModel.F) : Bool := decide (FloatModel.value a ≤ FloatModel.value b)

/-- `_number(value)` for the minimum 0. -/
def numberOf [FloatArith] : Value → Option FloatModel.F
  | .json (.int i) => if 0 ≤ i then FloatArith.ofInt i else none
  | .json (.float f) =>
      if FloatModel.isFinite f = true ∧ 0 ≤ FloatModel.value f then some f else none
  | _ => none

/-- `_integer(value, name, minimum)`. -/
def integerOf (minimum : Int) : Value → Option Int
  | .json (.int i) => if minimum ≤ i then some i else none
  | _ => none

/-! ## Paths -/

/-- A character that no workspace path may have. -/
def badPathChar (c : CodePoint) : Bool :=
  decide (c ∈ lit "\\:*?[]") || decide (c.val < 32) || decide (c.val = 127)

/-- `_path(value)` accepts the value. -/
def isWorkspacePath (value : Str) : Bool :=
  decide (value ≠ []) && !value.any badPathChar &&
    (value.splitOn 0x2F).all fun part => decide (part ∉ [[], lit ".", lit ".."])

/-- `_matches(path, selector)`. -/
def matchesSelector (path selector : Str) : Bool :=
  if selector.getLast? = some 0x2F then selector.isPrefixOf path else decide (path = selector)

/-- A component of a path that is `.git` but for the case of its letters. -/
def isGitComponent (part : Str) : Bool :=
  decide (part.map (fun c => if 0x41 ≤ c.val ∧ c.val ≤ 0x5A then c + 32 else c) = lit ".git")

/-- `permits_path(path, write)`. -/
def WorkerContract.permitsPath (c : WorkerContract) (path write : Value) : Except PyExn Bool :=
  match path, write with
  | .json (.str path), .json (.bool write) =>
      if isWorkspacePath path = false then .error (workerContractError "invalid workspace path")
      else if (path.splitOn 0x2F).any isGitComponent then .ok false
      else if c.forbidden.any (matchesSelector path) then .ok false
      else .ok ((if write then c.allowedOutputs else c.inputs).any (matchesSelector path))
  | .json (.str path), _ =>
      .error (workerContractError
        (if isWorkspacePath path then "write flag must be boolean" else "invalid workspace path"))
  | _, _ => .error (workerContractError "invalid workspace path")

/-! ## State -/

/-- The states of a guard. -/
inductive GuardState where
  | created
  | running
  | violated
  | auditFailed
  | cancelled
  | candidate
deriving DecidableEq, Repr

/-- The state in which no call does anything any more. -/
def GuardState.terminal (s : GuardState) : Bool := decide (s ≠ .created) && decide (s ≠ .running)

/-- How a call of a hook ends: with an exception that `except Exception` catches, or with another
one. -/
inductive HookResult where
  | returned
  | raised (e : PyExn)
  | aborted
deriving DecidableEq

/-- How a reading of the clock ends. -/
inductive Reading where
  | value (v : Value)
  | raised
  | aborted

/-- An event: its fields, of which the data may be any values. -/
abbrev GuardEvent := List (Str × Value)

/-- The hooks of a guard. -/
structure Hooks (ω : Type) where
  observe : ω → GuardEvent → HookResult × ω
  terminate : ω → HookResult × ω
  clock : ω → Reading × ω

/-- What the trace keeps. -/
inductive GuardNote where
  | observed (event : Str)
  | settled (ticket : Str) (reserved actual : Int)
deriving DecidableEq

/-- A contract whose budgets the constructor has checked. -/
structure CheckedContract extends WorkerContract where
  tokens : 0 ≤ tokenBudget
  tools : 0 ≤ maxToolCalls
  writes : 0 ≤ maxFileWrites

/-- `AttemptGuard`, with the world of its hooks and the trace. -/
structure Guard (ω : Type) where
  contract : CheckedContract
  state : GuardState
  started : Option FloatModel.F
  tokens : Int
  toolCalls : Int
  fileWrites : Int
  reservations : Dict Str Int
  ticket : Nat
  world : ω
  trace : List GuardNote

variable {ω : Type}

/-- `__init__`. -/
def Guard.init (contract : CheckedContract) (world : ω) : Guard ω :=
  ⟨contract, .created, none, 0, 0, 0, [], 0, world, []⟩

/-- `sum(self._reservations.values())`. -/
def Guard.reserved (g : Guard ω) : Int := (g.reservations.map Prod.snd).sum

/-- `usage`. -/
def Guard.usage (g : Guard ω) : Fields :=
  [(lit "tokens", .int g.tokens), (lit "tool_calls", .int g.toolCalls),
    (lit "file_writes", .int g.fileWrites), (lit "reserved_tokens", .int g.reserved)]

/-- `deadline`. -/
def Guard.deadline [FloatArith] (g : Guard ω) : Option FloatModel.F :=
  g.started.map fun started => FloatArith.add started g.contract.wallClockBudgetS

/-- `_event(event, **data)`. -/
def Guard.event (g : Guard ω) (event : Str) (data : GuardEvent) : Except PyExn GuardEvent := do
  let hash ← g.contract.contractHash
  return [(lit "event", Value.json (.str event)),
    (lit "schema_version", .json (.str (lit "factory-attempt-event-v1"))),
    (lit "task_id", .json (.str g.contract.taskId)),
    (lit "worker_id", .json (.str g.contract.workerId)),
    (lit "swarm_id", .json (.str g.contract.swarmId)),
    (lit "attempt_id", .json (.str g.contract.attemptId)),
    (lit "lease_id", .json (.str g.contract.leaseId)),
    (lit "lease_generation", .json (.int g.contract.leaseGeneration)),
    (lit "execution_plan_hash", .json (.str g.contract.executionPlanHash)),
    (lit "contract_hash", .json (.str hash))] ++ data

/-- An exception that `except Exception` catches, of which `ContractViolation` names its field, or
another one. -/
inductive Raised where
  | exception (e : PyExn)
  | violation (field : Str)
  | aborted
deriving DecidableEq

/-- A call of the guard. -/
abbrev Guarded (ω : Type) (α : Type) : Type := Prog (Guard ω) Raised α

section Calls

variable [FloatArith] (h : Hooks ω)

/-- A call of the observation hook; an acknowledged event stands in the trace. -/
def observeHook (event : Str) (fields : GuardEvent) : Guarded ω HookResult := do
  let g ← Prog.read
  let r := h.observe g.world fields
  Prog.write fun g => { g with
    world := r.2
    trace := g.trace ++ if r.1 = .returned then [.observed event] else [] }
  return r.1

/-- A call of the stop hook. -/
def terminateHook : Guarded ω HookResult := do
  let g ← Prog.read
  let r := h.terminate g.world
  Prog.write fun g => { g with world := r.2 }
  return r.1

/-- A reading of the clock, as a number. -/
def readClock : Guarded ω (Option FloatModel.F) := do
  let g ← Prog.read
  let r := h.clock g.world
  Prog.write fun g => { g with world := r.2 }
  match r.1 with
  | .value v => return numberOf v
  | .raised => return none
  | .aborted => Prog.raise .aborted

/-- The handler of `_emit`. -/
def auditFailure (e : PyExn) : Guarded ω Unit := do
  Prog.write fun g => { g with state := .auditFailed }
  let r ← terminateHook h
  if r = .aborted then Prog.raise .aborted else Prog.raise (.exception e)

/-- `_emit(event, **data)`. -/
def emit (event : Str) (data : GuardEvent) : Guarded ω Unit := do
  let g ← Prog.read
  match g.event event data with
  | .error e => auditFailure h e
  | .ok fields =>
      let r ← observeHook h event fields
      match r with
      | .returned => return ()
      | .raised e => auditFailure h e
      | .aborted => Prog.raise .aborted

/-- `ContractViolation(event)`, which fails on an event that is no JSON. -/
def violationError (fields : GuardEvent) (field : Str) : Raised :=
  match mapE (fun kv => kv.2.canonical) fields with
  | .error e => .exception e
  | .ok _ => .violation field

/-- `_violate(boundary, field, action)`. -/
def violate (boundary field : Str) (action : Value) : Guarded ω Unit := do
  Prog.write fun g => { g with state := .violated }
  let g ← Prog.read
  match g.event (lit "ContractViolation") [(lit "reason", .json (.str (lit "contract_violation"))),
      (lit "boundary", .json (.str boundary)), (lit "field", .json (.str field)),
      (lit "action", action)] with
  | .error e => Prog.raise (.exception e)
  | .ok fields =>
      let r ← terminateHook h
      if r = .aborted then Prog.raise .aborted
      else
        let stop := if r = .returned then lit "returned" else lit "failed"
        let fields := fields ++ [(lit "stop_hook", Value.json (.str stop))]
        let r ← observeHook h (lit "ContractViolation") fields
        if r = .aborted then Prog.raise .aborted
        else Prog.raise (violationError fields field)

/-- A text under a key. -/
def detail (key : String) (text : Str) : Value := .json (.obj [(lit key, .str text)])

/-- The clock is unavailable, has gone back, or is past the deadline. -/
def checkClock (now started : FloatModel.F) : Guarded ω Unit := do
  let g ← Prog.read
  if floatLe started now = false then
    violate h (lit "resource") (lit "monotonic_clock") (detail "reason" (lit "clock_regressed"))
  else if floatLe g.contract.wallClockBudgetS (FloatArith.sub now started) then
    violate h (lit "resource") (lit "wall_clock_budget_s")
      (.json (.obj [(lit "elapsed_s", .float (FloatArith.sub now started))]))

/-- `_active()`. -/
def active : Guarded ω Unit := do
  let g ← Prog.read
  if g.state ≠ .running then
    Prog.raise (.exception (workerContractError "attempt is not running"))
  else
    let now ← readClock h
    match now, g.started with
    | none, _ =>
        violate h (lit "resource") (lit "monotonic_clock")
          (detail "reason" (lit "clock_unavailable"))
    | some _, none => Prog.raise (.exception .typeError)
    | some now, some started => checkClock h now started

/-- `start()`. -/
def start : Guarded ω Unit := do
  let g ← Prog.read
  if g.state ≠ .created then
    Prog.raise (.exception (workerContractError "attempt cannot be started or restarted"))
  else
    emit h (lit "WorkerContractRecorded") [(lit "contract", .json (.obj g.contract.toDict))]
    let now ← readClock h
    match now with
    | none =>
        violate h (lit "resource") (lit "monotonic_clock")
          (detail "reason" (lit "clock_unavailable"))
    | some now =>
        Prog.write fun g => { g with started := some now }
        emit h (lit "WorkerAttemptStarted") []
        Prog.write fun g => { g with state := .running }

/-- `str(value)` cut to a length, for the action of a violation. -/
def shown (text : Value → Str) (value : Value) (length : Nat) : Str :=
  match value with
  | .json (.str s) => s.take length
  | v => (text v).take length

/-- `tool in tools`. -/
def isTool (tools : List Str) : Value → Bool
  | .json (.str s) => decide (s ∈ tools)
  | _ => false

/-- `authorize_tool(tool)`. `text` is `str` of a value that is not a string. -/
def authorizeTool (text : Value → Str) (tool : Value) : Guarded ω Unit := do
  active h
  let g ← Prog.read
  if (isTool g.contract.allowedTools tool && !isTool g.contract.forbiddenTools tool) = false then
    violate h (lit "tool") (lit "allowed_tools") (detail "tool" (shown text tool 96))
  else
    Prog.write fun g => { g with toolCalls := g.toolCalls + 1 }
    let g ← Prog.read
    if g.toolCalls > g.contract.maxToolCalls then
      violate h (lit "resource") (lit "max_tool_calls")
        (.json (.obj [(lit "count", .int g.toolCalls)]))
    else emit h (lit "ToolAuthorized") [(lit "tool", tool)]

/-- The truth value of the argument `write`. -/
def isWrite : Value → Bool
  | .json v => v.truthy
  | .object => true

/-- `authorize_path(path, write)`. -/
def authorizePath (text : Value → Str) (path write : Value) : Guarded ω Unit := do
  active h
  let g ← Prog.read
  if g.contract.permitsPath path write ≠ .ok true then
    violate h (lit "filesystem") (if isWrite write then lit "allowed_outputs" else lit "inputs")
      (match write with
        | .json write => .json (.obj [(lit "path", .str (shown text path 1024)), (lit "write", write)])
        | .object => .object)
  else if isWrite write then
    Prog.write fun g => { g with fileWrites := g.fileWrites + 1 }
    let g ← Prog.read
    if g.fileWrites > g.contract.maxFileWrites then
      violate h (lit "resource") (lit "max_file_writes")
        (.json (.obj [(lit "count", .int g.fileWrites)]))
    else emit h (lit "PathAuthorized") [(lit "path", path), (lit "write", write)]
  else emit h (lit "PathAuthorized") [(lit "path", path), (lit "write", write)]

/-- The ticket with a number. -/
def ticketName (n : Nat) : Str := lit "call-" ++ natRepr n

/-- `reserve_tokens(maximum_total)`. -/
def reserveTokens (maximumTotal : Value) : Guarded ω Str := do
  active h
  match integerOf 1 maximumTotal with
  | none => Prog.raise (.exception (workerContractError "invalid maximum_total"))
  | some n =>
      let g ← Prog.read
      if g.tokens + g.reserved + n > g.contract.tokenBudget then
        violate h (lit "resource") (lit "token_budget")
          (.json (.obj [(lit "reservation", .int n)]))
        return []
      else
        let ticket := ticketName (g.ticket + 1)
        Prog.write fun g => { g with
          ticket := g.ticket + 1
          reservations := g.reservations.set ticket n }
        emit h (lit "TokensReserved")
          [(lit "ticket", .json (.str ticket)), (lit "maximum_total", .json (.int n))]
        return ticket

/-- The reservation of a ticket. -/
def Guard.reservation (g : Guard ω) : Value → Option (Str × Int)
  | .json (.str ticket) => (g.reservations.get? ticket).map fun reserved => (ticket, reserved)
  | _ => none

/-- The tokens are counted and the reservation is deleted. -/
def settle (ticket : Str) (reserved actual : Int) : Guarded ω Unit :=
  Prog.write fun g => { g with
    tokens := g.tokens + actual
    reservations := g.reservations.pop ticket
    trace := g.trace ++ [.settled ticket reserved actual] }

/-- `settle_tokens(ticket, actual_total)`. -/
def settleTokens (ticket actualTotal : Value) : Guarded ω Unit := do
  active h
  let g ← Prog.read
  match g.reservation ticket with
  | none =>
      violate h (lit "resource") (lit "token_budget")
        (detail "reason" (lit "unknown_or_replayed_reservation"))
  | some (ticket, reserved) =>
      match integerOf 0 actualTotal with
      | none =>
          violate h (lit "resource") (lit "token_budget") (detail "reason" (lit "unknown_usage"))
      | some actual =>
          settle ticket reserved actual
          if actual > reserved then
            violate h (lit "resource") (lit "token_budget")
              (.json (.obj [(lit "reason", .str (lit "reservation_exceeded")),
                (lit "reported", .int actual)]))
          else
            emit h (lit "TokensSettled")
              [(lit "ticket", .json (.str ticket)), (lit "actual_total", .json (.int actual))]

/-- `check_memory(resident_bytes)`. -/
def checkMemory (residentBytes : Value) : Guarded ω Unit := do
  active h
  let g ← Prog.read
  match integerOf 0 residentBytes with
  | none =>
      violate h (lit "resource") (lit "memory_limit_mb")
        (detail "reason" (lit "memory_usage_unavailable"))
  | some n =>
      if n > g.contract.memoryLimitMb * 1024 * 1024 then
        violate h (lit "resource") (lit "memory_limit_mb")
          (.json (.obj [(lit "resident_bytes", .int n)]))

/-- `assert_lease(lease_id, generation)`. -/
def assertLease (leaseId generation : Value) : Guarded ω Unit := do
  active h
  let g ← Prog.read
  if leaseId ≠ .json (.str g.contract.leaseId) ∨
      generation ≠ .json (.int g.contract.leaseGeneration) then
    violate h (lit "lease") (lit "lease_generation") (detail "reason" (lit "stale_lease"))

/-- `finish()`. -/
def finish : Guarded ω Unit := do
  active h
  let g ← Prog.read
  if g.reservations ≠ [] then
    violate h (lit "resource") (lit "token_budget") (detail "reason" (lit "unsettled_usage"))
  else
    emit h (lit "WorkerCandidateReady") [(lit "usage", .json (.obj g.usage))]
    Prog.write fun g => { g with state := .candidate }

/-- `fail(boundary, field, action)`. -/
def fail (boundary field : Str) (action : Value) : Guarded ω Unit := do
  active h
  violate h boundary field action

/-- `cancel()`. -/
def cancel : Guarded ω Unit := do
  let g ← Prog.read
  if g.state ≠ .running then return ()
  else
    Prog.write fun g => { g with state := .cancelled }
    let r ← terminateHook h
    emit h (lit "WorkerAttemptCancelled") []
    match r with
    | .returned => return ()
    | .raised e => Prog.raise (.exception e)
    | .aborted => Prog.raise .aborted

/-- A public call of the guard, with any arguments. -/
inductive GuardCall where
  | start
  | checkDeadline
  | authorizeTool (tool : Value)
  | authorizePath (path write : Value)
  | reserveTokens (maximumTotal : Value)
  | settleTokens (ticket actualTotal : Value)
  | checkMemory (residentBytes : Value)
  | assertLease (leaseId generation : Value)
  | finish
  | fail (boundary field : Str) (action : Value)
  | cancel

/-- The program of a call. -/
def GuardCall.program (text : Value → Str) : GuardCall → Guarded ω Unit
  | .start => Factory.start h
  | .checkDeadline => active h
  | .authorizeTool tool => Factory.authorizeTool h text tool
  | .authorizePath path write => Factory.authorizePath h text path write
  | .reserveTokens n => do
      let _ ← Factory.reserveTokens h n
      return ()
  | .settleTokens ticket actual => Factory.settleTokens h ticket actual
  | .checkMemory n => Factory.checkMemory h n
  | .assertLease leaseId generation => Factory.assertLease h leaseId generation
  | .finish => Factory.finish h
  | .fail boundary field action => Factory.fail h boundary field action
  | .cancel => Factory.cancel h

/-- The guard after a call has returned or raised. -/
def Guard.after (text : Value → Str) (g : Guard ω) (c : GuardCall) : Guard ω :=
  (c.program h text g).state

/-- The guard after a sequence of calls. -/
def Guard.afterAll (text : Value → Str) (g : Guard ω) (cs : List GuardCall) : Guard ω :=
  cs.foldl (Guard.after h text) g

end Calls

end ResidualHarness.Factory
