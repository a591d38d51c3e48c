import ResidualHarness.Core.Task

/-!
# The quarantine store

`residual/quarantine.py`: actions are held, evaluated once under the lock, and then released or
denied. `release` and `deny` each have a second locked section after host code has run, so that
they are modelled as two operations with the pending thread between them. The trace of the system
keeps the evaluations, the calls of executors and the denials in order; the code does not read it.
-/

set_option autoImplicit false

namespace ResidualHarness.Quarantine

open Python Core

/-! ## Actions -/

/-- `ActionType`. -/
inductive ActionType where
  | toolCall
  | fileWrite
  | providerCall
  | configChange
deriving DecidableEq, Repr

/-- The value of an action type. -/
def ActionType.text : ActionType → Str
  | .toolCall => lit "tool_call"
  | .fileWrite => lit "file_write"
  | .providerCall => lit "provider_call"
  | .configChange => lit "config_change"

/-- `PolicyDecision`. -/
inductive PolicyDecision where
  | allow
  | deny
deriving DecidableEq, Repr

variable [FloatModel]

/-- `ProposedAction`, with the checks of its constructor. -/
structure ProposedAction where
  actionType : ActionType
  name : Str
  arguments : Fields
  agentId : Str
  agent : isIdentifier agentId = true
  named : name ≠ []
  frozen : (Json.obj arguments).wf = true
deriving DecidableEq

/-- `fingerprint`. -/
def ProposedAction.fingerprint (a : ProposedAction) : Except PyExn Str :=
  digest (.obj [(lit "action_type", .str a.actionType.text), (lit "name", .str a.name),
    (lit "arguments", .obj a.arguments), (lit "agent_id", .str a.agentId)])

/-- `HeldAction`. `ref` is the identity of the object, which `_entry` compares. -/
structure HeldAction where
  action : ProposedAction
  heldAtNs : Int
  holdId : Str
  ref : Nat
deriving DecidableEq

/-- `fingerprint` of a held action. -/
def HeldAction.fingerprint (h : HeldAction) : Except PyExn Str := h.action.fingerprint

/-! ## Policies -/

/-- How a call of a policy ends: with nothing, a text or another value, with an exception, or with
one that is not an `Exception`. -/
inductive PolicyResult where
  | nothing
  | text (reason : Str)
  | other
  | raised
  | aborted
deriving DecidableEq

/-- A policy acts on the world of the host. -/
structure Policy (ω : Type) where
  name : Str
  call : ω → ProposedAction → PolicyResult × ω

/-- The reason for which a result denies the action. -/
def PolicyResult.denial : PolicyResult → Option Str
  | .nothing => none
  | .text reason => some (if isBlank reason then lit "invalid_policy_result" else reason)
  | .other => some (lit "invalid_policy_result")
  | .raised => some (lit "policy_error")
  | .aborted => none

/-- The results of the policies, to the first that is not caught, and the world after them. -/
def callPolicies {ω : Type} : List (Policy ω) → ω → ProposedAction → List PolicyResult × ω
  | [], w, _ => ([], w)
  | p :: ps, w, a =>
      let r := p.call w a
      if r.1 = .aborted then ([r.1], r.2)
      else
        let rest := callPolicies ps r.2 a
        (r.1 :: rest.1, rest.2)

/-- A denial in the log. -/
structure Denial where
  policy : Str
  reason : Str
deriving DecidableEq

/-- `denials`. -/
def denials {ω : Type} (policies : List (Policy ω)) (results : List PolicyResult) : List Denial :=
  (policies.zip results).filterMap fun pr => pr.2.denial.map fun r => ⟨pr.1.name, r.take 1000⟩

/-! ## The store -/

/-- The state of a hold. -/
inductive HoldState where
  | held
  | evaluated
  | executing
  | executed
  | denied
deriving DecidableEq, Repr

/-- A value of `_holds`. -/
structure Entry where
  held : HeldAction
  state : HoldState
  decision : Option PolicyDecision
deriving DecidableEq

/-- A record of the log. -/
inductive LogRecord where
  | held (holdId fingerprint : Str) (actionType : ActionType) (name agentId : Str) (heldAtNs : Int)
  | evaluated (holdId fingerprint : Str) (decision : PolicyDecision) (denials : List Denial)
  | executed (holdId fingerprint : Str) (executedAtNs : Int) (error : Option Str)
  | denied (holdId fingerprint : Str) (deniedAtNs : Int) (reason policyName : Str)

/-- `QuarantineStore`. -/
structure Store where
  storeId : Str
  counter : Nat
  holds : Dict Str Entry
  log : List LogRecord

/-- `__init__`. -/
def Store.init (storeId : Str) : Store := ⟨storeId, 0, [], []⟩

/-- The format `08d`. -/
def padded (n : Nat) : Str := List.replicate (8 - (natRepr n).length) 0x30 ++ natRepr n

/-- The id of a hold. -/
def Store.holdId (s : Store) (counter : Nat) : Str := s.storeId ++ lit "-hold-" ++ padded counter

/-- The record is appended if the action has a fingerprint; else the error is raised. -/
def Store.append (s : Store) (h : HeldAction) (record : Str → LogRecord) :
    Except PyExn Unit × Store :=
  match h.fingerprint with
  | .error e => (.error e, s)
  | .ok fingerprint => (.ok (), { s with log := s.log ++ [record fingerprint] })

/-- The hold that `hold(action)` makes, on a new object at a time. -/
def Store.newHold (s : Store) (action : ProposedAction) (ref : Nat) (now : Int) : HeldAction :=
  ⟨action, now, s.holdId (s.counter + 1), ref⟩

/-- `hold(action)`. -/
def Store.hold (s : Store) (action : ProposedAction) (ref : Nat) (now : Int) :
    Except PyExn Unit × Store :=
  let h := s.newHold action ref now
  Store.append { s with
      counter := s.counter + 1
      holds := s.holds.set h.holdId ⟨h, .held, none⟩ } h
    fun fingerprint =>
      .held h.holdId fingerprint action.actionType action.name action.agentId h.heldAtNs

/-- `_entry(held)`. -/
def Store.entry (s : Store) (h : HeldAction) : Except PyExn Entry :=
  match s.holds.get? h.holdId with
  | none => .error (contractError "foreign or forged quarantine hold")
  | some e =>
      if e.held = h then .ok e else .error (contractError "foreign or forged quarantine hold")

/-- The entry of the hold in another state. -/
def Store.setEntry (s : Store) (h : HeldAction) (state : HoldState)
    (decision : Option PolicyDecision) : Store :=
  { s with holds := s.holds.set h.holdId ⟨h, state, decision⟩ }

/-- The decision on the results of the policies. -/
def decisionOn (results : List PolicyResult) : PolicyDecision :=
  if results.all fun r => decide (r.denial = none) then .allow else .deny

/-- What a call of `evaluate` does: the results that it recorded a decision on, if it did. -/
structure Evaluation (ω : Type) where
  store : Store
  world : ω
  recorded : Option (List PolicyResult)

/-- `evaluate(held, policies)`. -/
def Store.evaluate {ω : Type} (s : Store) (w : ω) (h : HeldAction) (policies : List (Policy ω)) :
    Evaluation ω :=
  match s.entry h with
  | .error _ => ⟨s, w, none⟩
  | .ok e =>
      if (e.state ≠ .held ∧ e.state ≠ .evaluated) ∨ e.decision ≠ none then ⟨s, w, none⟩
      else
        let r := callPolicies policies w h.action
        if .aborted ∈ r.1 then ⟨s, r.2, none⟩
        else
          let s := s.setEntry h .evaluated (some (decisionOn r.1))
          ⟨(s.append h fun fingerprint =>
              .evaluated h.holdId fingerprint (decisionOn r.1) (denials policies r.1)).2,
            r.2, some r.1⟩

/-- The first locked section of `release`. -/
def Store.beginRelease (s : Store) (h : HeldAction) : Except PyExn Store := do
  let e ← s.entry h
  require (e.state = .evaluated ∧ e.decision = some .allow)
    (contractError "release requires an unconsumed, allowed evaluation")
  return s.setEntry h .executing e.decision

/-- The second locked section of `release`. -/
def Store.endRelease (s : Store) (h : HeldAction) (now : Int) (error : Option Str) : Store :=
  let decision := (s.holds.get? h.holdId).bind Entry.decision
  ((s.setEntry h .executed decision).append h fun fingerprint =>
    .executed h.holdId fingerprint now error).2

/-- The first locked section of `deny`. -/
def Store.beginDeny (s : Store) (h : HeldAction) (reason : Str) : Except PyExn Store := do
  require (isBlank reason = false) (contractError "denial requires a reason")
  let e ← s.entry h
  require (e.state = .evaluated ∧ e.decision = some .deny)
    (contractError "deny requires an unconsumed denied evaluation")
  return s.setEntry h .denied e.decision

/-- The second locked section of `deny`. -/
def Store.endDeny (s : Store) (h : HeldAction) (now : Int) (reason policyName : Str) : Store :=
  (s.append h fun fingerprint => .denied h.holdId fingerprint now reason policyName).2

/-! ## Threads -/

/-- A thread between the two locked sections of a call. -/
inductive Pending where
  | call (h : HeldAction)
  | running (h : HeldAction)
  | finish (h : HeldAction) (error : Option Str)
  | deny (h : HeldAction) (reason policyName : Str)
deriving DecidableEq

/-- The hold that a pending call is about. -/
def Pending.hold : Pending → HeldAction
  | .call h => h
  | .running h => h
  | .finish h _ => h
  | .deny h _ _ => h

/-- What happens to a hold: a decision on the results of so many policies, a call of an executor,
a denial. -/
inductive Event where
  | evaluated (holdId : Str) (given : Nat) (results : List PolicyResult)
  | ran (holdId : Str)
  | denied (holdId : Str)
deriving DecidableEq

/-- A store with the threads that use it. -/
structure System (ω : Type) where
  store : Store
  world : ω
  threads : List Pending
  trace : List Event

/-- A step of a thread, or of the host. -/
inductive Op (ω : Type) where
  | hold (action : ProposedAction) (ref : Nat) (now : Int)
  | evaluate (h : HeldAction) (policies : List (Policy ω))
  | release (h : HeldAction)
  | call (h : HeldAction)
  | returned (h : HeldAction) (error : Option Str)
  | lost (h : HeldAction)
  | finish (h : HeldAction) (error : Option Str) (now : Int)
  | deny (h : HeldAction) (reason policyName : Str)
  | logDenied (h : HeldAction) (reason policyName : Str) (now : Int)
  | host (act : ω → ω)

variable {ω : Type}

/-- The thread goes on from one pending point to the next. -/
def System.goOn (s : System ω) (p : Pending) (next : List Pending) : System ω :=
  { s with threads := next ++ s.threads.erase p }

/-- One step. A step of a thread that is not at that point does nothing. -/
def System.step (s : System ω) : Op ω → System ω
  | .hold action ref now => { s with store := (s.store.hold action ref now).2 }
  | .evaluate h policies =>
      let v := s.store.evaluate s.world h policies
      { s with
        store := v.store
        world := v.world
        trace := s.trace ++
          (v.recorded.map fun results => .evaluated h.holdId policies.length results).toList }
  | .release h =>
      match s.store.beginRelease h with
      | .error _ => s
      | .ok store => { s with store := store, threads := .call h :: s.threads }
  | .call h =>
      if .call h ∈ s.threads then
        { s.goOn (.call h) [.running h] with trace := s.trace ++ [.ran h.holdId] }
      else s
  | .returned h error =>
      if .running h ∈ s.threads then s.goOn (.running h) [.finish h error] else s
  | .lost h => if .running h ∈ s.threads then s.goOn (.running h) [] else s
  | .finish h error now =>
      if .finish h error ∈ s.threads then
        { s.goOn (.finish h error) [] with store := s.store.endRelease h now error }
      else s
  | .deny h reason policyName =>
      match s.store.beginDeny h reason with
      | .error _ => s
      | .ok store =>
          { s with
            store := store
            threads := .deny h reason policyName :: s.threads
            trace := s.trace ++ [.denied h.holdId] }
  | .logDenied h reason policyName now =>
      if .deny h reason policyName ∈ s.threads then
        { s.goOn (.deny h reason policyName) [] with
          store := s.store.endDeny h now reason policyName }
      else s
  | .host act => { s with world := act s.world }

/-- A run of steps. -/
def System.run (s : System ω) (ops : List (Op ω)) : System ω := ops.foldl System.step s

/-- A new store in a world. -/
def System.init (storeId : Str) (world : ω) : System ω := ⟨Store.init storeId, world, [], []⟩

/-! ## The budget -/

/-- The world of the host with the count of a shared budget policy. -/
structure Counted (ω : Type) where
  host : ω
  count : Nat

/-- `budget_policy(max_actions)`. -/
def budgetPolicy (maxActions : Nat) : Policy (Counted ω) where
  name := lit "budget_policy"
  call := fun w _ =>
    let count := w.count + 1
    (if count > maxActions then
        .text (lit "action budget exhausted (" ++ natRepr maxActions ++ lit ")")
      else .nothing,
      { w with count := count })

end ResidualHarness.Quarantine
