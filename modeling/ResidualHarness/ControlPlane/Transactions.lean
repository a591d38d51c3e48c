import ResidualHarness.Core.Task

/-!
# Compound side effects

`residual/control_plane/transactions.py`: transactions of atomic effects that depend on each other,
and the coordinator that dispatches the effects that are ready, reconciles unknown outcomes and
compensates applied effects after a failure. The trace of a run keeps its transitions and its calls
in order, for the statements about them; the code does not read it.
-/

set_option autoImplicit false

namespace ResidualHarness.ControlPlane

open Python Core

/-! ## Transactions -/

/-- `IntentState`. -/
inductive IntentState where
  | prepared
  | attempted
  | applied
  | failed
  | ambiguous
  | reconciling
  | compensating
  | compensated
deriving DecidableEq, Repr

/-- The value of an intent state. -/
def IntentState.text : IntentState → Str
  | .prepared => lit "prepared"
  | .attempted => lit "attempted"
  | .applied => lit "applied"
  | .failed => lit "failed"
  | .ambiguous => lit "ambiguous"
  | .reconciling => lit "reconciling"
  | .compensating => lit "compensating"
  | .compensated => lit "compensated"

/-- `TransactionState`. -/
inductive TransactionState where
  | prepared
  | inProgress
  | complete
  | incomplete
  | failed
  | reconciliationRequired
  | compensating
  | compensated
deriving DecidableEq, Repr

/-- `AtomicEffect`. -/
structure AtomicEffect where
  effectId : Str
  intentId : Str
  dependsOn : List Str
  state : IntentState
  reversibility : Str
  resultRef : Option Str
  compensationIntentId : Option Str
deriving DecidableEq

/-- The effects of a transaction, in the order of the dictionary. -/
abbrev Effects := Dict Str AtomicEffect

/-- The effect has a compensation. -/
def AtomicEffect.compensable (e : AtomicEffect) : Bool := decide (e.compensationIntentId.getD [] ≠ [])

/-- The loop of `visit` over dependencies. -/
def visitAll (visit : Str → List Str → Except PyExn (List Str)) :
    List Str → List Str → Except PyExn (List Str)
  | [], done => .ok done
  | d :: ds, done => do visitAll visit ds (← visit d done)

/-- `visit(k)`, with the nodes being visited and the nodes done. A chain of visits has no node
twice, so that its length is at most the number of effects. -/
def visit (effects : Effects) : Nat → List Str → Str → List Str → Except PyExn (List Str)
  | 0, _, _, _ => .error (.valueError "side-effect dependency cycle")
  | fuel + 1, visiting, k, done =>
      if k ∈ visiting then .error (.valueError "side-effect dependency cycle")
      else if k ∈ done then .ok done
      else
        match effects.get? k with
        | none => .error .keyError
        | some e => do
            let done ← visitAll (visit effects fuel (k :: visiting)) e.dependsOn done
            return k :: done

/-- `SideEffectTransaction`, with the checks of its constructor. -/
structure SideEffectTransaction where
  transactionId : Str
  effects : Effects
  policyHash : Str
  nodup : effects.keys.Nodup
  policy : policyHash ≠ []
  known : ∀ e ∈ effects, ∀ d ∈ e.2.dependsOn, d ∈ effects.keys
  acyclic : ∃ done, visitAll (visit effects (effects.length + 1) []) effects.keys [] = .ok done

/-- The state of an effect. -/
def stateOf (effects : Effects) (k : Str) : Option IntentState :=
  (effects.get? k).map AtomicEffect.state

/-- All dependencies of the effect have been applied. -/
def depsApplied (effects : Effects) (e : AtomicEffect) : Bool :=
  e.dependsOn.all fun d => decide (stateOf effects d = some .applied)

/-- `ready()`. -/
def ready (effects : Effects) : List AtomicEffect :=
  (effects.map Prod.snd).filter fun e => decide (e.state = .prepared) && depsApplied effects e

/-- The transitions that are allowed from a state. -/
def allowed : IntentState → List IntentState
  | .prepared => [.attempted]
  | .attempted => [.applied, .failed, .ambiguous]
  | .ambiguous => [.reconciling]
  | .reconciling => [.applied, .failed]
  | .applied => [.compensating]
  | .compensating => [.compensated, .failed]
  | .failed => []
  | .compensated => []

/-- `state`, from the states of the effects. -/
def aggregate (states : List IntentState) : TransactionState :=
  if states ≠ [] ∧ ∀ x ∈ states, x = .applied then .complete
  else if .ambiguous ∈ states ∨ .reconciling ∈ states then .reconciliationRequired
  else if .compensating ∈ states then .compensating
  else if .compensated ∈ states ∧
      ∀ x ∈ states, x = .compensated ∨ x = .failed ∨ x = .prepared then .compensated
  else if .failed ∈ states ∧ .applied ∈ states then .incomplete
  else if .failed ∈ states ∧ .prepared ∈ states then .incomplete
  else if states ≠ [] ∧ ∀ x ∈ states, x = .failed then .failed
  else if states ≠ [] ∧ ∀ x ∈ states, x = .prepared then .prepared
  else .inProgress

/-- The states of the effects. -/
def statesOf (effects : Effects) : List IntentState := effects.map fun e => e.2.state

/-! ## The coordinator -/

variable [FloatModel]

/-- How a call of a hook ends. -/
inductive Returned where
  | value (v : Value)
  | raised

/-- `outcome in (...)` for one of the values listed. -/
def Returned.equals (r : Returned) (v : Json) : Bool :=
  match r with
  | .value (.json w) => decide (w.Same v)
  | _ => false

/-- `outcome in (True, "applied", "executed")`. -/
def Returned.isApplied (r : Returned) : Bool :=
  r.equals (.bool true) || r.equals (.str (lit "applied")) || r.equals (.str (lit "executed"))

/-- `outcome in (False, "failed", "denied")`. -/
def Returned.isFailed (r : Returned) : Bool :=
  r.equals (.bool false) || r.equals (.str (lit "failed")) || r.equals (.str (lit "denied"))

/-- `TransactionCoordinator`: the hooks act on a hidden world. The answer of `compensate` is the
truth value of what it returned, or nothing if it raised. `format` is the text of a value that is
not a string in a formatted string. -/
structure TransactionCoordinator (ω : Type) where
  format : Value → Str
  dispatch : ω → AtomicEffect → Returned × ω
  reconcile : ω → AtomicEffect → Returned × ω
  compensate : Option (ω → AtomicEffect → Option Bool × ω)

/-- What a run does, in order. -/
inductive Action where
  | became (k : Str) (state : IntentState)
  | dispatch (k : Str) (effects : Effects)
  | reconcile (k : Str)
  | compensate (k : Str)
deriving DecidableEq

/-- The state of a run. -/
structure Saga (ω : Type) where
  world : ω
  effects : Effects
  evidence : List Str
  trace : List Action

variable {ω : Type} (c : TransactionCoordinator ω)

/-- `tx.transition(effect_id, state)`. -/
def transition (s : Saga ω) (k : Str) (state : IntentState) : Except PyExn (Saga ω) :=
  match s.effects.get? k with
  | none => .error .keyError
  | some e =>
      if state ∈ allowed e.state then
        .ok { s with
          effects := s.effects.set k { e with state := state, resultRef := none }
          trace := s.trace ++ [.became k state] }
      else .error (.valueError "illegal transition")

/-- `event(name, effect)`. -/
def event (s : Saga ω) (name : Str) (e : AtomicEffect) : Saga ω :=
  { s with evidence := s.evidence ++
      [name ++ lit ":" ++ e.effectId ++ lit ":" ++ natRepr s.evidence.length] }

/-- `tx.transition(effect_id, state); event(name, effect)`. -/
def move (s : Saga ω) (e : AtomicEffect) (state : IntentState) (name : Str) :
    Except PyExn (Saga ω) := do
  return event (← transition s e.effectId state) name e

/-- The state after the answer of a hook, which is an event of its own if the hook raised. -/
def answered (s : Saga ω) (e : AtomicEffect) (action : Action) (world : ω) (raised : Bool)
    (name : Str) : Saga ω :=
  let s := { s with world := world, trace := s.trace ++ [action] }
  if raised then event s name e else s

/-- The hook raised. -/
def Returned.isRaised : Returned → Bool
  | .raised => true
  | .value _ => false

/-- The name of the event of a reconciliation, which is taken to have failed if the hook raised. -/
def resolvedName (r : Returned) : Str :=
  lit "reconciled_" ++
    match r with
    | .value (.json (.str s)) => s
    | .value v => c.format v
    | .raised => lit "failed"

/-- An unknown outcome: reconciliation decides. -/
def reconcileEffect (s : Saga ω) (e : AtomicEffect) : Except PyExn (Saga ω × Bool) := do
  let s ← move s e .ambiguous (lit "ambiguous")
  let s ← move s e .reconciling (lit "reconciling")
  let r := c.reconcile s.world e
  let s := answered s e (.reconcile e.effectId) r.2 r.1.isRaised (lit "reconciliation_error")
  if r.1.equals (.str (lit "applied")) then
    return (← move s e .applied (resolvedName c r.1), true)
  else return (← move s e .failed (resolvedName c r.1), false)

/-- The body of the loop on a ready effect: whether the loop goes on. -/
def attempt (s : Saga ω) (e : AtomicEffect) : Except PyExn (Saga ω × Bool) := do
  let s ← move s e .attempted (lit "attempted")
  let r := c.dispatch s.world e
  let s := answered s e (.dispatch e.effectId s.effects) r.2 r.1.isRaised (lit "dispatch_error")
  if r.1.isApplied then return (← move s e .applied (lit "applied"), true)
  else if r.1.isFailed then return (← move s e .failed (lit "failed"), false)
  else reconcileEffect c s e

/-- `while tx.ready()`. Every iteration takes an effect out of the prepared ones, so that the fuel
is enough (`forward_total`). -/
def forward : Nat → Saga ω → Except PyExn (Saga ω)
  | fuel, s =>
      match ready s.effects with
      | [] => .ok s
      | e :: _ =>
          match fuel with
          | 0 => .error (.runtimeError "fuel" "unreachable")
          | fuel + 1 => do
              let (t, goesOn) ← attempt c s e
              if goesOn then forward fuel t else return t

/-- The effects that are compensated after a failure. -/
def candidates (effects : Effects) : List AtomicEffect :=
  (effects.map Prod.snd).filter fun e => decide (e.state = .applied) && e.compensable

/-- The compensation of one effect. -/
def compensateEffect (compensate : ω → AtomicEffect → Option Bool × ω) (s : Saga ω)
    (e : AtomicEffect) : Except PyExn (Saga ω) := do
  let s ← move s e .compensating (lit "compensating")
  let r := compensate s.world e
  let s := answered s e (.compensate e.effectId) r.2 r.1.isNone (lit "compensation_error")
  if r.1 = some true then move s e .compensated (lit "compensated")
  else move s e .failed (lit "compensation_failed")

/-- The compensation of a list of effects, in order. -/
def compensateAll (compensate : ω → AtomicEffect → Option Bool × ω) :
    List AtomicEffect → Saga ω → Except PyExn (Saga ω)
  | [], s => .ok s
  | e :: es, s => do compensateAll compensate es (← compensateEffect compensate s e)

/-- The part of `run` after the loop. -/
def rollback (s : Saga ω) : Except PyExn (Saga ω) :=
  match c.compensate with
  | none => .ok s
  | some compensate =>
      if .failed ∈ statesOf s.effects then
        compensateAll compensate (candidates s.effects).reverse s
      else .ok s

/-- `TransactionReceipt`. -/
structure TransactionReceipt where
  transactionId : Str
  policyHash : Str
  finalState : TransactionState
  effectStates : List (Str × Str)
  evidenceRefs : List Str

/-- The state in which the run of a transaction starts. -/
def SideEffectTransaction.start (tx : SideEffectTransaction) (world : ω) : Saga ω :=
  ⟨world, tx.effects, [], []⟩

/-- The receipt of a run that has ended. -/
def SideEffectTransaction.receipt (tx : SideEffectTransaction) (s : Saga ω) : TransactionReceipt where
  transactionId := tx.transactionId
  policyHash := tx.policyHash
  finalState := aggregate (statesOf s.effects)
  effectStates := sortFields (s.effects.map fun e => (e.1, e.2.state.text))
  evidenceRefs := s.evidence

/-- `run(tx)`: the receipt, and the state in which the run ends. -/
def run (tx : SideEffectTransaction) (world : ω) : Except PyExn (TransactionReceipt × Saga ω) := do
  let s ← forward c tx.effects.length (tx.start world)
  let s ← rollback c s
  return (tx.receipt s, s)

end ResidualHarness.ControlPlane
