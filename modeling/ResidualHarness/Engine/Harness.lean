import ResidualHarness.Engine.Providers
import ResidualHarness.Engine.Receipts
import ResidualHarness.Engine.Storage
import ResidualHarness.Python.Program

/-!
# The harness

`residual/engine.py`: the state of a run and the operations of `Harness` on it, as programs over
`State`. Providers, checks, solvers and clocks act on a hidden world. The three updates of an
acceptance are one write, and so are the counters and the record of a reserved call: nothing else
runs between them. `packet` and `handed` are kept for the statements about what is sent; the code
does not read them.
-/

set_option autoImplicit false

namespace ResidualHarness.Engine

open Python Core

/-! ## Configuration -/

/-- `Limits`, with the checks of its constructor. -/
structure Limits where
  localRounds : Nat
  expertRounds : Nat
  maxCalls : Nat
  maxExpertCalls : Nat
  maxRemoteInputBytes : Nat
  maxRequestBytes : Nat
  maxOutputTokens : Nat
  maxRequestedLines : Nat
  seedLines : Nat
  maxStructuralNodes : Nat
  positive : 1 ≤ maxCalls ∧ 1 ≤ maxRequestBytes ∧ 1 ≤ maxOutputTokens ∧ 1 ≤ maxRequestedLines
  bounded : maxStructuralNodes ≤ 1000000

/-- `MODES`. -/
inductive Mode where
  | residual
  | residualFixed
  | cascade
  | fullCloud
  | localOnly
  | noPull
  | noFeedback
  | noSolvers
  | structural
  | cic
deriving DecidableEq, Repr

/-- The text of a mode. -/
def Mode.text : Mode → Str
  | .residual => lit "residual"
  | .residualFixed => lit "residual_fixed"
  | .cascade => lit "cascade"
  | .fullCloud => lit "full_cloud"
  | .localOnly => lit "local_only"
  | .noPull => lit "no_pull"
  | .noFeedback => lit "no_feedback"
  | .noSolvers => lit "no_solvers"
  | .structural => lit "structural"
  | .cic => lit "cic"

/-- The modes whose expert may get the complete evidence of its obligations inline. -/
def Mode.inlines (m : Mode) : Bool :=
  decide (m ∈ [Mode.residual, .noFeedback, .noSolvers, .structural, .cic])

variable [FloatModel]

/-- `asdict(limits)`. -/
def Limits.asDict (l : Limits) : Json :=
  .obj [(lit "local_rounds", .int l.localRounds), (lit "expert_rounds", .int l.expertRounds),
    (lit "max_calls", .int l.maxCalls), (lit "max_expert_calls", .int l.maxExpertCalls),
    (lit "max_remote_input_bytes", .int l.maxRemoteInputBytes),
    (lit "max_request_bytes", .int l.maxRequestBytes),
    (lit "max_output_tokens", .int l.maxOutputTokens),
    (lit "max_requested_lines", .int l.maxRequestedLines), (lit "seed_lines", .int l.seedLines),
    (lit "max_structural_nodes", .int l.maxStructuralNodes)]

/-- The rounds of a role. -/
def Limits.rounds (l : Limits) : Role → Nat
  | .worker => l.localRounds
  | .expert => l.expertRounds

/-- Clocks and float arithmetic. -/
structure Env (ω : Type) where
  timeNs : ω → Int × ω
  uuid4 : ω → Str × ω
  monotonic : ω → FloatModel.F × ω
  elapsedMs : FloatModel.F → FloatModel.F → FloatModel.F
  addMs : FloatModel.F → FloatModel.F → FloatModel.F
  zeroMs : FloatModel.F

/-- An entry of `failures`. -/
structure Failure where
  code : Str
  message : Str
deriving DecidableEq

/-- The dictionary of a failure. -/
def Failure.asDict (f : Failure) : Json :=
  .obj [(lit "code", .str f.code), (lit "message", .str f.message)]

/-- The analysis of a structural compilation. -/
structure Structural where
  applicable : Bool
  groups : Dict Str (List Str)
  blocked : Dict Str Failure
  searchNodes : Nat
  asDict : Fields

/-- What a run works on: the harness, and the task and registry after compilation. -/
structure Setup (ω : Type) where
  task : Task
  registry : Registry ω
  worker : Option (Provider ω)
  expert : Option (Provider ω)
  limits : Limits
  mode : Mode
  structural : Option Structural
  env : Env ω

/-! ## State -/

/-- A receipt of an accepted value. -/
structure Receipt where
  binding : Str
  valueSha256 : Str
  verifier : Str
  revision : Str
  sha256 : Str
deriving DecidableEq

/-- The receipt before its own hash is added. -/
def Receipt.body (r : Receipt) : Fields :=
  [(lit "binding", .str r.binding), (lit "value_sha256", .str r.valueSha256),
    (lit "verifier", .str r.verifier), (lit "revision", .str r.revision)]

/-- The dictionary of a receipt. -/
def Receipt.asDict (r : Receipt) : Json := .obj (r.body ++ [(lit "sha256", Json.str r.sha256)])

/-- A record of `calls`. -/
structure Call where
  role : Role
  provider : Str
  placement : Placement
  obligationIds : List Str
  requestBytes : Int
  packetSha256 : Str
  usage : Option Usage
  costUsd : Option FloatModel.F
  elapsedMs : Value
  error : Option Str
  packet : Json

/-- The state of a run. -/
structure State (ω : Type) where
  world : ω
  accepted : Dict Str Json
  receipts : Dict Str Receipt
  stationReceipts : Dict Str StationReceipt
  failures : Dict Str Failure
  windows : Dict (Str × Str × Str) (List (Int × Int))
  calls : List Call
  ledger : Ledger
  cache : Option CacheRows
  cacheHits : Nat
  deterministicAccepts : Nat
  remoteBytes : Int
  expertCalls : Nat
  verificationMs : FloatModel.F
  solverMs : FloatModel.F
  handed : List (Placement × Json)

/-- The state in which a run starts. -/
def State.initial {ω : Type} (env : Env ω) (world : ω) (cache : Option CacheRows) : State ω where
  world := world
  accepted := []
  receipts := []
  stationReceipts := []
  failures := []
  windows := []
  calls := []
  ledger := Ledger.empty
  cache := cache
  cacheHits := 0
  deterministicAccepts := 0
  remoteBytes := 0
  expertCalls := 0
  verificationMs := env.zeroMs
  solverMs := env.zeroMs
  handed := []

/-- Programs of the harness. -/
abbrev Run (ω α : Type) := Prog (State ω) PyExn α

/-- `d[k]` of a dictionary. -/
def lookupKey {κ β : Type} [DecidableEq κ] (d : Dict κ β) (k : κ) : Except PyExn β :=
  match d.get? k with
  | some v => .ok v
  | none => .error .keyError

/-- `Harness._merge(intervals)` on sorted intervals. -/
def mergeSorted : List (Int × Int) → List (Int × Int) → List (Int × Int)
  | merged, [] => merged
  | merged, (start, stop) :: rest =>
      match merged.getLast? with
      | some (a, b) =>
          if start ≤ b + 1 then mergeSorted (merged.dropLast ++ [(a, max stop b)]) rest
          else mergeSorted (merged ++ [(start, stop)]) rest
      | none => mergeSorted [(start, stop)] rest

/-- `Harness._merge(intervals)`. -/
def merge (intervals : List (Int × Int)) : List (Int × Int) :=
  mergeSorted [] (intervals.insertionSort fun a b => a.1 < b.1 ∨ a.1 = b.1 ∧ a.2 ≤ b.2)

variable {ω : Type} (h : Setup ω)

/-! ## Reading the state -/

/-- `task.by_id[n]`. -/
def Setup.byId (n : Str) : Except PyExn Obligation :=
  match h.task.byId n with
  | some o => .ok o
  | none => .error .keyError

/-- `task.artifacts[a]`. -/
def Setup.artifact (a : Str) : Except PyExn Artifact :=
  match h.task.artifact a with
  | some x => .ok x
  | none => .error .keyError

/-- The revision label of a check. -/
def Setup.label (check : Str) : Except PyExn Str := do return (← lookupKey h.registry.checks check).1

/-- `{a: self.task.artifacts[a].sha256 for a in o.evidence}`. -/
def Setup.evidenceHashes (o : Obligation) : Except PyExn (List (Str × Str)) :=
  mapE (fun a => do return (a, ← (← h.artifact a).sha256)) o.evidence

/-- `_context(node_id)`. -/
def Setup.context (s : State ω) (n : Str) : Except PyExn Context := do
  return ⟨← h.byId n, h.task.artifacts, s.accepted⟩

/-- `_binding(node_id)`. -/
def Setup.binding (s : State ω) (n : Str) : Except PyExn Json := do
  let o ← h.byId n
  let label ← h.label o.check
  let evidence ← h.evidenceHashes o
  let dependencies ← mapE (fun d => do return (d, (← lookupKey s.receipts d).sha256)) o.dependsOn
  return .obj [(lit "contract_version", .str (lit "residual.obligation.v1")),
    (lit "task_id", .str h.task.id), (lit "goal", .str h.task.goal),
    (lit "obligation", .obj o.asDict), (lit "check_revision", .str label),
    (lit "evidence", .obj (evidence.map fun e => (e.1, .str e.2))),
    (lit "dependencies", .obj (dependencies.map fun d => (d.1, .str d.2)))]

/-- `_identity(node_id)`. -/
def Setup.identity (s : State ω) (n : Str) : Except PyExn (Option (Str × Str × CheckType)) := do
  let o ← h.byId n
  match h.registry.identities.get? o.check with
  | none => return none
  | some (revision, checkType) =>
      if ∃ d ∈ o.dependsOn, d ∉ s.stationReceipts.keys then return none
      let name := if colon ∈ o.check then o.check else lit "host:" ++ o.check
      let effective ← revision.effectiveRevision
      let label ← h.label o.check
      let sha ← digest (.obj [(lit "identity", .str effective), (lit "label", .str label),
        (lit "check_type", .str checkType.text)])
      return some (name, sha, checkType)

/-- `_parents(node_id)`. -/
def Setup.parents (s : State ω) (n : Str) : Except PyExn (List ReceiptReference) := do
  let o ← h.byId n
  let refs ← mapE (fun d => do
    receiptReference d (← (← lookupKey s.stationReceipts d).receiptHash)) o.dependsOn
  return sortReferences refs

/-- `_cache_key(node_id)`. -/
def Setup.cacheKeyOf (s : State ω) (n : Str) : Except PyExn Str := do
  match ← h.identity s n with
  | some (name, revision, checkType) =>
      let o ← h.byId n
      let goalHash ← digest (.obj [(lit "task_id", .str h.task.id), (lit "goal", .str h.task.goal)])
      let contractHash ← digest (.obj o.asDict)
      let artifacts ← h.evidenceHashes o
      let parents ← h.parents s n
      cacheKey h.task.id n goalHash contractHash name revision checkType artifacts parents
  | none => digest (← h.binding s n)

/-- `except (ValueError, TypeError, KeyError)`. -/
def isDataError (e : PyExn) : Bool := e.isValueError || decide (e = .typeError ∨ e = .keyError)

/-- The body of `_cached_candidate(node_id, entry)`. -/
def Setup.cachedEntry (s : State ω) (n : Str) (entry : Json) : Except PyExn (Option Json) :=
  match entry with
  | .obj d => do
      if ¬ keysAre d [lit "schema_version", lit "value", lit "receipt"] then return none
      let version ← Fields.get d (lit "schema_version")
      if ¬ version.Same (.str (lit "residual.station.cache.entry.v1")) then return none
      let wire ← Fields.get d (lit "receipt")
      match StationReceipt.fromDict wire with
      | none => throw (contractError "invalid receipt envelope or integrity mismatch")
      | some receipt =>
          match ← h.identity s n with
          | none => throw .typeError
          | some (name, revision, _) =>
              if receipt.taskId ≠ n then return none
              let value ← Fields.get d (lit "value")
              let key ← h.cacheKeyOf s n
              let parents ← h.parents s n
              let okay ← receipt.matches value key name revision parents
              return if okay then some value else none
  | _ => .ok none

/-- `_cached_candidate(node_id, entry)`: the value, or a miss. -/
def Setup.cachedCandidate (s : State ω) (n : Str) (entry : Json) : Except PyExn (Option Json) :=
  match h.cachedEntry s n entry with
  | .ok r => .ok r
  | .error e => if isDataError e then .ok none else .error e

/-! ## Writing the state -/

/-- `time.monotonic()`. -/
def Env.now (env : Env ω) : Run ω FloatModel.F := do
  let s ← Prog.read
  let r := env.monotonic s.world
  Prog.write fun s => { s with world := r.2 }
  return r.1

/-- `time.monotonic()` of the harness. -/
def Setup.monotonic : Run ω FloatModel.F := h.env.now

/-- `self.ledger.add(kind, **data)`. -/
def Setup.addEvent (kind : String) (data : Fields) : Run ω Unit := do
  let s ← Prog.read
  let r := h.env.timeNs s.world
  Prog.write fun s => { s with world := r.2 }
  let ledger ← Prog.eval (s.ledger.add (lit kind) r.1 data)
  Prog.write fun s => { s with ledger := ledger }

/-- `_failure(node_id, code, message)`. -/
def Setup.failure (n code message : Str) : Run ω Unit := do
  Prog.write fun s => { s with failures := s.failures.set n ⟨code, message⟩ }
  h.addEvent "counterexample" [(lit "obligation_id", .str n), (lit "code", .str code)]

/-! ## Acceptance -/

/-- The verdict for a check that raised. -/
def verifierError : Verdict :=
  ⟨.unknown, lit "verifier_error", lit "The host verifier could not establish this obligation."⟩

/-- The verdict for a check that returned another value. -/
def invalidVerifierResult : Verdict := ⟨.unknown, lit "invalid_verifier_result", []⟩

/-- The part of the `try` block of `_accept` before the call of the check: the parsed copy of the
value, the check and its context. -/
def Setup.checkArguments (s : State ω) (n : Str) (value : Value) :
    Except PyExn (Json × Check ω × Context) := do
  let original ← value.canonical
  let o ← h.byId n
  let check ← lookupKey h.registry.checks o.check
  let parsed ← strictJson original
  let context ← h.context s n
  return (parsed, check.2, context)

/-- The `try` block of `_accept`: the verdict, and the parsed copy that was checked. -/
def Setup.judge (n : Str) (value : Value) : Run ω (Verdict × Json) := do
  let s ← Prog.read
  match h.checkArguments s n value with
  | .error _ => return (verifierError, .null)
  | .ok (parsed, check, context) =>
      let r := check s.world parsed context.view
      Prog.write fun s => { s with world := r.2 }
      match r.1 with
      | .verdict v => return (v, parsed)
      | .other => return (invalidVerifierResult, parsed)
      | .raised => return (verifierError, parsed)

/-- The sources of a value. -/
inductive Source where
  | cache
  | deterministic
  | role (r : Role)
deriving DecidableEq, Repr

/-- The text of a source. -/
def Source.text : Source → Str
  | .cache => lit "cache"
  | .deterministic => lit "deterministic"
  | .role r => r.text

/-- The station receipt of a value, for an obligation with an identity. -/
def Setup.stationReceipt (s : State ω) (n : Str) (value : Json) :
    Except PyExn (Option StationReceipt) := do
  match ← h.identity s n with
  | none => return none
  | some (name, revision, _) =>
      let key ← h.cacheKeyOf s n
      let valueHash ← digest value
      let parents ← h.parents s n
      let receipt ← StationReceipt.postInit {
        taskId := n
        cacheKey := key
        valueHash := valueHash
        verifierName := name
        verifierRevision := revision
        verdict := .pass
        parentReceipts := parents
        engineName := lit "unknown"
        engineVersion := lit "unknown"
        schema := .v2 }
      return some receipt

/-- The receipt of a value. -/
def Setup.receipt (s : State ω) (n : Str) (value : Json) : Except PyExn Receipt := do
  let binding ← h.cacheKeyOf s n
  let valueSha ← digest value
  let o ← h.byId n
  let label ← h.label o.check
  let sha ← digest (.obj (Receipt.body ⟨binding, valueSha, o.check, label, []⟩))
  return ⟨binding, valueSha, o.check, label, sha⟩

/-- What the cache keeps for a value. -/
def cacheEntry (value : Json) : Option StationReceipt → Except PyExn Json
  | none => .ok value
  | some modern => do
      return .obj [(lit "schema_version", .str (lit "residual.station.cache.entry.v1")),
        (lit "value", value), (lit "receipt", ← modern.toDict)]

/-- `self.station_receipts[node_id] = modern`, if there is one. -/
def keepStation (n : Str) : Option StationReceipt → Run ω Unit
  | some r => Prog.write fun s => { s with stationReceipts := s.stationReceipts.set n r }
  | none => pure ()

/-- `self.cache.put(...)`, if there is a cache and the value is new to it. -/
def Setup.keepCached (n : Str) (value : Json) (modern : Option StationReceipt) (source : Source) :
    Run ω Unit := do
  let s ← Prog.read
  match s.cache, source with
  | none, _ => pure ()
  | _, .cache => pure ()
  | some rows, _ => do
      let key ← Prog.eval (h.cacheKeyOf s n)
      let entry ← Prog.eval (cacheEntry value modern)
      let rows ← Prog.eval (rows.put key entry)
      Prog.write fun s => { s with cache := some rows }

/-- The event of a station receipt, if there is one. -/
def Setup.reportStation (n : Str) : Option StationReceipt → Run ω Unit
  | some r => do
      let wire ← Prog.eval r.toDict
      h.addEvent "station_receipt_issued" [(lit "obligation_id", .str n), (lit "receipt", wire)]
  | none => pure ()

/-- The part of `_accept` after a verdict that passed. -/
def Setup.record (n : Str) (value : Json) (source : Source) : Run ω Unit := do
  let s ← Prog.read
  let modern ← Prog.eval (h.stationReceipt s n value)
  keepStation n modern
  let s ← Prog.read
  let receipt ← Prog.eval (h.receipt s n value)
  Prog.write fun s => { s with
    accepted := s.accepted.set n value
    receipts := s.receipts.set n receipt
    failures := s.failures.pop n }
  h.keepCached n value modern source
  h.addEvent "obligation_accepted" [(lit "obligation_id", .str n),
    (lit "source", .str source.text), (lit "receipt", receipt.asDict)]
  h.reportStation n modern

/-- `_accept(node_id, value, source)`. -/
def Setup.accept (n : Str) (value : Value) (source : Source) : Run ω Bool := do
  let s ← Prog.read
  if n ∈ s.accepted.keys then
    Prog.raise (contractError "accepted obligation cannot be overwritten")
  else
    let started ← h.monotonic
    let (verdict, parsed) ← h.judge n value
    let ended ← h.monotonic
    Prog.write fun s => { s with
      verificationMs := h.env.addMs s.verificationMs (h.env.elapsedMs started ended) }
    h.addEvent "verification" [(lit "obligation_id", .str n), (lit "source", .str source.text),
      (lit "status", .str verdict.status.text), (lit "code", .str verdict.code)]
    if verdict.status ≠ .pass then
      h.failure n verdict.code verdict.message
      return false
    else
      h.record n parsed source
      return true

/-! ## Packets -/

/-- The evidence and the dependencies of a packet: those of the obligations, or all. -/
def Setup.fullContext (role : Role) : Bool :=
  decide (role = .expert ∧ (h.mode = .fullCloud ∨ h.mode = .cascade))

/-- The union of the evidence of the obligations. -/
def neededEvidence (os : List Obligation) : List Str := os.flatMap Obligation.evidence

/-- A call to a local provider of obligations that could all be exported. -/
def Setup.localPublic (placement : Placement) (ids : List Str) : Bool :=
  decide (placement = .onHost) && ids.all h.task.cloudAllowed

/-- The artifacts of a packet, sorted. -/
def Setup.packetArtifacts (placement : Placement) (os : List Obligation) (role : Role) :
    List Str :=
  let all := if h.fullContext role then h.task.artifacts.map Artifact.id else neededEvidence os
  let cloud := fun a => (h.task.artifact a).any Artifact.cloud
  let exportable := decide (placement = .remote) || h.localPublic placement (os.map Obligation.id)
  sortedSet (all.filter fun a => !exportable || cloud a)

/-- An entry of the manifest. -/
def Setup.manifestEntry (a : Str) : Except PyExn Json := do
  let x ← h.artifact a
  return .obj [(lit "artifact_id", .str a), (lit "sha256", .str (← x.sha256)),
    (lit "line_count", .int x.lines.length)]

/-- The excerpts of one artifact: all of it, or the seed lines and the windows. -/
def Setup.artifactExcerpts (s : State ω) (name : Str) (ids : List Str) (full : Bool) (a : Str) :
    Except PyExn (List Json) := do
  let x ← h.artifact a
  if full then return [← x.excerpt 1 x.lines.length]
  let seed : List (Int × Int) :=
    if h.limits.seedLines = 0 then [] else [(1, min (h.limits.seedLines : Int) x.lines.length)]
  let windows := ids.flatMap fun n => (s.windows.get? (name, n, a)).getD []
  mapE (fun w => x.excerpt w.1 w.2) (merge (seed ++ windows))

/-- An accepted dependency in a packet. -/
def dependencyEntry (s : State ω) (d : Str) : Except PyExn (Str × Json) := do
  let value ← lookupKey s.accepted d
  let receipt ← lookupKey s.receipts d
  return (d, .obj [(lit "value", value), (lit "receipt", .str receipt.sha256)])

/-- `{k: o[k] for k in ("id", "instruction", "evidence", "depends_on")}`. -/
def memberEntry (o : Json) : Except PyExn Json := do
  let fields ← mapE (fun k => do return (k, ← o.item k))
    [lit "id", lit "instruction", lit "evidence", lit "depends_on"]
  return .obj fields

/-- The members of a compiled group. -/
def membersOf (o : Obligation) : Except PyExn Fields :=
  match o.parameters.get? (lit "members") with
  | some (.arr os) => do return [(lit "members", .arr (← mapE memberEntry os))]
  | some _ => .error .typeError
  | none => .error .keyError

/-- The entry of an obligation in a packet. -/
def Setup.obligationEntry (o : Obligation) : Except PyExn Json := do
  let members ← if h.structural.any Structural.applicable then membersOf o else .ok []
  return .obj ([(lit "id", .str o.id), (lit "instruction", .str o.instruction),
    (lit "evidence_ids", strings o.evidence), (lit "depends_on", strings o.dependsOn)] ++ members)

/-- The packet with the given evidence. -/
def packetWith (fields : Fields) (evidence : List Json) (limits : Fields) : Json :=
  .obj (fields ++ [(lit "evidence", Json.arr evidence), (lit "request_limits", .obj limits)])

/-- The fields of a packet before its evidence. -/
def Setup.packetFields (s : State ω) (placement : Placement) (os : List Obligation) (role : Role)
    (manifest : List Json) : Except PyExn Fields := do
  let ids := os.map Obligation.id
  let exportable := decide (placement = .remote) || h.localPublic placement ids
  let deps := if h.fullContext role then s.accepted.keys else os.flatMap Obligation.dependsOn
  let dependencies ← mapE (dependencyEntry s)
    ((sortedSet deps).filter fun d => !exportable || h.task.cloudAllowed d)
  let obligations ← mapE h.obligationEntry os
  let counterexamples := if h.mode = .noFeedback then [] else
    ids.filterMap fun n => (s.failures.get? n).map fun f => (n, f.asDict)
  return [(lit "protocol", .str (lit "residual.packet.v1")), (lit "task_id", .str h.task.id),
    (lit "goal", .str h.task.goal), (lit "obligations", .arr obligations),
    (lit "accepted_dependencies", .obj dependencies),
    (lit "counterexamples", .obj counterexamples), (lit "manifest", .arr manifest)]

/-- `request_limits` of a packet. -/
def Setup.requestLimits : Fields :=
  [(lit "max_lines", .int h.limits.maxRequestedLines),
    (lit "pull_enabled", .bool (decide (h.mode ≠ .noPull)))]

/-- `provider.wire_size(packet, max_output_tokens)`. -/
def Setup.wireSize (p : Provider ω) (packet : Json) : Except PyExn Int :=
  match p.wireSize packet h.limits.maxOutputTokens with
  | some n => .ok n
  | none => .error (.runtimeError "Exception" "wire_size")

/-- The complete evidence of the obligations. -/
def Setup.completeEvidence (os : List Obligation) : Except PyExn (List Json) :=
  mapE (fun a => do
    let x ← h.artifact a
    x.excerpt 1 x.lines.length) (sortedSet (neededEvidence os))

/-- The number of bytes of the evidence of the obligations. -/
def Setup.evidenceBytes (os : List Obligation) : Except PyExn Nat := do
  let sizes ← mapE (fun a => do
    let x ← h.artifact a
    return (← utf8 x.text).length) (sortedSet (neededEvidence os))
  return sizes.sum

/-- The context plans. -/
inductive ContextPlan where
  | fullContext
  | seedAndPull
  | inlineComplete
deriving DecidableEq, Repr

/-- The text of a plan. -/
def ContextPlan.text : ContextPlan → Str
  | .fullContext => lit "full_context"
  | .seedAndPull => lit "seed_and_pull"
  | .inlineComplete => lit "inline_complete_scoped_evidence"

/-- `_packet(provider, ids, role)`, for the obligations with the ids: the packet and its plan. -/
def Setup.packet (s : State ω) (p : Provider ω) (os : List Obligation) (role : Role) :
    Except PyExn (Json × ContextPlan) := do
  let full := h.fullContext role
  let artifacts := h.packetArtifacts p.placement os role
  let manifest ← mapE h.manifestEntry artifacts
  let excerpts ← mapE (h.artifactExcerpts s p.name (os.map Obligation.id) full) artifacts
  let fields ← h.packetFields s p.placement os role manifest
  let packet := packetWith fields excerpts.flatten h.requestLimits
  let plan := if full then ContextPlan.fullContext else .seedAndPull
  if ¬ (h.mode.inlines = true ∧ role = .expert) then return (packet, plan)
  let seedSize ← h.wireSize p packet
  let rawSize ← h.evidenceBytes os
  if ¬ (rawSize : Int) ≤ 2 * seedSize then return (packet, plan)
  let complete := packetWith fields (← h.completeEvidence os) h.requestLimits
  let completeSize ← h.wireSize p complete
  let remaining := (h.limits.maxRemoteInputBytes : Int) - s.remoteBytes
  if completeSize ≤ 2 * seedSize ∧ completeSize ≤ h.limits.maxRequestBytes ∧
      (p.placement = .remote → completeSize ≤ remaining) then
    return (complete, .inlineComplete)
  else
    return (packet, plan)

/-! ## Replies -/

/-- A request for evidence. -/
structure EvidenceRequest where
  obligationId : Str
  artifactId : Str
  startLine : Int
  endLine : Int
deriving DecidableEq

/-- A parsed reply. -/
structure ReplyData where
  updates : List (Str × Json)
  requests : List EvidenceRequest

/-- `positive_int(value, name)`: an `int` that is no `bool`. -/
def positiveInt (value : Json) (name : String) : Except PyExn Int :=
  match value with
  | .int i =>
      if 1 ≤ i then .ok i else .error (contractError (name ++ " must be a positive integer"))
  | _ => .error (contractError (name ++ " must be a positive integer"))

/-- The checks of `_parse` on one request. -/
def parseRequest (ids : List Str) (request : Json) : Except PyExn EvidenceRequest :=
  match request with
  | .obj d => do
      require (keysAre d [lit "obligation_id", lit "artifact_id", lit "start_line", lit "end_line"]
        = true) (contractError "invalid evidence request")
      let node ← Fields.get d (lit "obligation_id")
      require (∃ n ∈ ids, node = .str n) (contractError "evidence request outside scope")
      let start ← positiveInt (← Fields.get d (lit "start_line")) "start_line"
      let stop ← positiveInt (← Fields.get d (lit "end_line")) "end_line"
      match node, ← Fields.get d (lit "artifact_id") with
      | .str n, .str a => return ⟨n, a, start, stop⟩
      | _, _ => throw (contractError "invalid artifact id")
  | _ => .error (contractError "invalid evidence request")

/-- `_parse(text, ids)`. -/
def parseReply (text : Value) (ids : List Str) : Except PyExn ReplyData :=
  match text with
  | .json (.str t) => do
      let data ← utf8 t
      require (data.length ≤ 2000000) (contractError "response too large")
      match ← strictJson t with
      | .obj d => do
          require (keysAre d [lit "updates", lit "requests"] = true)
            (contractError "invalid response keys")
          match ← Fields.get d (lit "updates"), ← Fields.get d (lit "requests") with
          | .obj updates, .arr requests => do
              require ((∀ u ∈ updates, u.1 ∈ ids) ∧ requests.length ≤ 8)
                (contractError "response exceeds obligation or request scope")
              let requests ← mapE (parseRequest ids) requests
              let _ ← canonical (.obj d)
              return ⟨updates, requests⟩
          | _, _ => throw (contractError "invalid response types")
      | _ => throw (contractError "invalid response keys")
  | _ => .error .attributeError

/-- The `try` block around `_parse`: truncated replies are refused. -/
def readReply (r : Reply) (ids : List Str) : Except PyExn ReplyData :=
  match r.finishReason with
  | .json v =>
      if v.hashable = false then .error .typeError
      else if v = .str (lit "length") ∨ v = .str (lit "max_tokens") then
        .error (contractError "truncated response")
      else parseReply r.text ids
  | .object => parseReply r.text ids

/-- `except (ValueError, TypeError, KeyError, RecursionError)`. -/
def isReplyError (e : PyExn) : Bool :=
  isDataError e || decide (e = .runtimeError "RecursionError" "maximum recursion depth exceeded")

/-- The value as JSON, for an event. -/
def Value.toJson : Value → Except PyExn Json
  | .json v => .ok v
  | .object => .error .typeError

/-- The decision of `_request_evidence`: the windows to keep, or the code of the refusal. -/
def Setup.grant (s : State ω) (p : Provider ω) (r : EvidenceRequest) :
    Except PyExn (Str ⊕ List (Int × Int)) := do
  let o ← h.byId r.obligationId
  if h.mode = .noPull then return .inl (lit "evidence_pull_disabled")
  if r.artifactId ∉ o.evidence then return .inl (lit "undeclared_evidence")
  let a ← h.artifact r.artifactId
  if p.placement = .remote ∧ a.cloud = false then return .inl (lit "private_evidence")
  if r.endLine < r.startLine ∨ r.endLine - r.startLine + 1 > h.limits.maxRequestedLines then
    return .inl (lit "evidence_window_limit")
  if r.endLine > a.lines.length then return .inl (lit "evidence_window_out_of_range")
  let old := (s.windows.get? (p.name, r.obligationId, r.artifactId)).getD []
  let merged := merge (old ++ [(r.startLine, r.endLine)])
  if merged = old then return .inl (lit "evidence_already_supplied")
  return .inr merged

/-- `_request_evidence(provider, request)`. -/
def Setup.requestEvidence (p : Provider ω) (r : EvidenceRequest) : Run ω Unit := do
  let s ← Prog.read
  if r.obligationId ∈ s.accepted.keys then pure ()
  else
    match ← Prog.eval (h.grant s p r) with
    | .inr merged => do
        Prog.write fun s => { s with
          windows := s.windows.set (p.name, r.obligationId, r.artifactId) merged }
        let sha ← Prog.eval (do (← h.artifact r.artifactId).sha256)
        h.addEvent "evidence_requested" [(lit "obligation_id", .str r.obligationId),
          (lit "artifact_id", .str r.artifactId), (lit "start_line", .int r.startLine),
          (lit "end_line", .int r.endLine), (lit "artifact_sha256", .str sha)]
    | .inl code => do
        h.failure r.obligationId code
          (lit "Choose a permitted, unseen evidence interval within the request limits.")
        h.addEvent "evidence_denied" [(lit "obligation_id", .str r.obligationId),
          (lit "code", .str code)]

/-! ## Calls -/

/-- `_failure` for every id. -/
def Setup.failAll (ids : List Str) (code message : String) : Run ω Unit :=
  Prog.each ids fun n => h.failure n (lit code) (lit message)

/-- A limit prevents a call of this size. -/
def Setup.blocked (s : State ω) (p : Provider ω) (role : Role) (size : Int) : Bool :=
  decide (h.limits.maxCalls ≤ s.calls.length ∨ (h.limits.maxRequestBytes : Int) < size ∨
    (role = .expert ∧ h.limits.maxExpertCalls ≤ s.expertCalls) ∨
    (p.placement = .remote ∧ (h.limits.maxRemoteInputBytes : Int) < s.remoteBytes + size))

/-- The record of a call that is about to be made. -/
def reservedCall (p : Provider ω) (role : Role) (ids : List Str) (size : Int) (packet : Json)
    (sha : Str) : Call where
  role := role
  provider := p.name
  placement := p.placement
  obligationIds := ids
  requestBytes := size
  packetSha256 := sha
  usage := none
  costUsd := none
  elapsedMs := .json .null
  error := none
  packet := packet

/-- The reservation of a call: the counters and the record. -/
def Setup.reserve (p : Provider ω) (role : Role) (ids : List Str) (size : Int) (packet : Json) :
    Run ω Unit := do
  let sha ← Prog.eval (digest packet)
  Prog.write fun s => { s with
    remoteBytes := if p.placement = .remote then s.remoteBytes + size else s.remoteBytes
    expertCalls := if role = .expert then s.expertCalls + 1 else s.expertCalls
    calls := s.calls ++ [reservedCall p role ids size packet sha] }
  h.addEvent "call_reserved" [(lit "role", .str role.text), (lit "provider", .str p.name),
    (lit "request_bytes", .int size), (lit "packet_sha256", .str sha),
    (lit "obligation_ids", strings ids)]

/-- A change of the last record. -/
def updateLast (f : Call → Call) (calls : List Call) : List Call :=
  calls.dropLast ++ (calls.getLast?.map f).toList

/-- `provider.generate(packet, max_output_tokens)`. -/
def Setup.generate (p : Provider ω) (packet : Json) : Run ω GenerateReturn := do
  let s ← Prog.read
  let r := p.generate s.world packet h.limits.maxOutputTokens
  Prog.write fun s => { s with world := r.2, handed := s.handed ++ [(p.placement, packet)] }
  return r.1

/-- What follows a call that raised. -/
def Setup.callFailed (role : Role) (ids : List Str) (started : FloatModel.F) (code : Str) :
    Run ω Unit := do
  let ended ← h.monotonic
  Prog.write fun s => { s with
    calls := updateLast (fun c => { c with
      error := some (errorCode code)
      elapsedMs := .json (.float (h.env.elapsedMs started ended)) }) s.calls }
  h.addEvent "provider_failed" [(lit "role", .str role.text), (lit "code", .str (errorCode code))]
  Prog.each ids fun n => h.failure n (errorCode code)
    (lit "The provider call failed; no candidate was accepted.")

/-- The event of a reply. -/
def Setup.callCompleted (p : Provider ω) (role : Role) (r : Reply) : Run ω Unit := do
  Prog.write fun s => { s with
    calls := updateLast (fun c => { c with usage := some r.usage, elapsedMs := r.elapsedMs })
      s.calls }
  let cost ← Prog.eval (match p.prices with
    | some prices => prices.cost r.usage
    | none => .ok none)
  Prog.write fun s => { s with calls := updateLast (fun c => { c with costUsd := cost }) s.calls }
  let sha ← Prog.eval (do digest (← Value.toJson r.text))
  let elapsed ← Prog.eval (Value.toJson r.elapsedMs)
  let finish ← Prog.eval (Value.toJson r.finishReason)
  h.addEvent "call_completed" [(lit "role", .str role.text), (lit "usage", r.usage.asDict),
    (lit "elapsed_ms", elapsed), (lit "response_sha256", .str sha), (lit "finish_reason", finish)]

/-- What a reply's updates and requests do; the result tells whether another round follows. -/
def Setup.applyReply (p : Provider ω) (role : Role) (ids : List Str) (data : ReplyData) :
    Run ω Bool := do
  Prog.each data.updates fun u => do
    let _ ← h.accept u.1 (.json u.2) (.role role)
  Prog.each data.requests fun r => h.requestEvidence p r
  if data.updates = [] ∧ data.requests = [] then
    h.failAll ids "worker_abstained" "The worker returned no candidate or evidence request."
    return false
  else return true

/-- What follows a reply. -/
def Setup.handleReply (p : Provider ω) (role : Role) (ids : List Str) (r : Reply) : Run ω Bool := do
  h.callCompleted p role r
  match readReply r ids with
  | .ok data => h.applyReply p role ids data
  | .error e =>
      if isReplyError e then do
        h.failAll ids "invalid_protocol"
          "Return exactly the documented updates/requests JSON object."
        return true
      else Prog.raise e

/-- The call of a round that no limit prevents. -/
def Setup.call (p : Provider ω) (role : Role) (ids : List Str) (size : Int) (packet : Json) :
    Run ω Bool := do
  h.reserve p role ids size packet
  let started ← h.monotonic
  match ← h.generate p packet with
  | .reply r => h.handleReply p role ids r
  | .other => do
      h.callFailed role ids started (lit "invalid_reply_type")
      return true
  | .providerError text => do
      h.callFailed role ids started text
      return true
  | .raised => do
      h.callFailed role ids started (lit "provider_exception")
      return true

/-- The obligations of a round that may be sent to the provider. -/
def Setup.sendable (p : Provider ω) (ids : List Str) : List Str :=
  if p.placement = .remote then ids.filter h.task.cloudAllowed else ids

/-- The failures of the obligations that must stay local. -/
def Setup.refusePrivate (p : Provider ω) (ids : List Str) : Run ω Unit :=
  if p.placement = .remote then
    Prog.each (ids.filter fun n => !h.task.cloudAllowed n) fun n => h.failure n (lit "local_only")
      (lit "This obligation or its dependencies cannot be sent remotely.")
  else pure ()

/-- The packet of a round, its size, and the call or the refusal. -/
def Setup.send (p : Provider ω) (role : Role) (ids : List Str) : Run ω Bool := do
  let s ← Prog.read
  let os ← Prog.eval (mapE h.byId ids)
  let (packet, plan) ← Prog.eval (h.packet s p os role)
  h.addEvent "context_plan" [(lit "role", .str role.text), (lit "plan", .str plan.text),
    (lit "obligation_ids", strings ids)]
  let size ← Prog.eval (h.wireSize p packet)
  let s ← Prog.read
  if h.blocked s p role size then do
    h.failAll ids "budget_exhausted" "A call or request-body byte limit prevents the next request."
    h.addEvent "budget_blocked" [(lit "role", .str role.text), (lit "request_bytes", .int size)]
    return false
  else h.call p role ids size packet

/-- One round of `_work`; the result tells whether another round follows. -/
def Setup.round (p : Provider ω) (role : Role) (ready : List Str) : Run ω Bool := do
  let s ← Prog.read
  let ids := ready.filter fun n => n ∉ s.accepted.keys
  h.refusePrivate p ids
  if h.sendable p ids = [] then return false else h.send p role (h.sendable p ids)

/-- `_work(provider, ready, role, rounds)`. -/
def Setup.work (p : Provider ω) (role : Role) (ready : List Str) : Nat → Run ω Unit
  | 0 => pure ()
  | rounds + 1 => do
      if ← h.round p role ready then Setup.work p role ready rounds else pure ()

/-- `_dispatch(provider, ready, role, rounds)`. -/
def Setup.dispatch (p : Provider ω) (role : Role) (ready : List Str) (rounds : Nat) : Run ω Unit :=
  if h.structural.any Structural.applicable then
    Prog.each ready fun n => h.work p role [n] rounds
  else if p.placement = .remote then h.work p role ready rounds
  else do
    h.work p role (ready.filter h.task.cloudAllowed) rounds
    h.work p role (ready.filter fun n => !h.task.cloudAllowed n) rounds

/-! ## The run -/

/-- The cache phase of a ready obligation: whether a cached value was accepted. -/
def Setup.tryCache (n : Str) : Run ω Bool := do
  let s ← Prog.read
  match s.cache with
  | none => return false
  | some rows => do
      let key ← Prog.eval (h.cacheKeyOf s n)
      match rows.lookup key with
      | none => return false
      | some entry => do
          let identity ← Prog.eval (h.identity s n)
          let hit ← Prog.eval (if identity.isSome then h.cachedCandidate s n entry
            else .ok (some entry))
          match hit with
          | none => return false
          | some value => do
              if ← h.accept n (.json value) .cache then do
                Prog.write fun s => { s with cacheHits := s.cacheHits + 1 }
                return true
              else return false

/-- The call of a solver, in a `try` block. -/
def Setup.callSolver (n solver : Str) : Run ω SolverReturn := do
  let s ← Prog.read
  match (do return (← lookupKey h.registry.solvers solver, ← h.context s n) :
      Except PyExn (Solver ω × Context)) with
  | .error _ => return .raised
  | .ok (solve, context) => do
      let r := solve s.world context.view
      Prog.write fun s => { s with world := r.2 }
      return r.1

/-- `self.solver_ms += (time.monotonic() - solver_started) * 1000`. -/
def Setup.addSolverMs (started : FloatModel.F) : Run ω Unit := do
  let ended ← h.monotonic
  Prog.write fun s => { s with
    solverMs := h.env.addMs s.solverMs (h.env.elapsedMs started ended) }

/-- The solver phase of a ready obligation. -/
def Setup.trySolver (n solver : Str) : Run ω Unit := do
  let started ← h.monotonic
  match ← h.callSolver n solver with
  | .raised => do
      h.failure n (lit "solver_error")
        (lit "The local solver failed; use the declared evidence.")
      h.addSolverMs started
  | .value v _ => do
      h.addSolverMs started
      if ← h.accept n v .deterministic then
        Prog.write fun s => { s with deterministicAccepts := s.deterministicAccepts + 1 }
      else pure ()

/-- The body of the loop over the ready obligations. -/
def Setup.attemptNode (n : Str) : Run ω Unit := do
  if ← h.tryCache n then pure ()
  else do
    let o ← Prog.eval (h.byId n)
    match o.solver with
    | some solver =>
        if solver ≠ [] ∧ h.mode ≠ .fullCloud ∧ h.mode ≠ .noSolvers then h.trySolver n solver
        else pure ()
    | none => pure ()

/-- The obligations that can be worked on. -/
def Setup.ready (s : State ω) (attempted : List Str) : List Str :=
  (h.task.obligations.filter fun o => o.id ∉ s.accepted.keys ∧ o.id ∉ attempted ∧
    o.dependsOn ⊆ s.accepted.keys).map Obligation.id

/-- The dispatch to a provider, if there is one and the mode uses it. -/
def Setup.dispatchTo (p : Option (Provider ω)) (role : Role) (ready : List Str) : Run ω Unit :=
  match p with
  | some p => h.dispatch p role ready (h.limits.rounds role)
  | none => pure ()

/-- One iteration of the main loop. -/
def Setup.iteration (ready : List Str) : Run ω Unit := do
  Prog.each ready h.attemptNode
  h.dispatchTo (if h.mode ≠ .fullCloud then h.worker else none) .worker ready
  h.dispatchTo (if h.mode ≠ .localOnly then h.expert else none) .expert ready

/-- The main loop. Every iteration attempts an obligation for the first time, so that the fuel is
never used up (`loop_fuel`). -/
def Setup.loop : Nat → List Str → Run ω Unit
  | 0, _ => Prog.raise (.runtimeError "fuel" "unreachable")
  | fuel + 1, attempted => do
      let s ← Prog.read
      if h.ready s attempted = [] then pure ()
      else do
        h.iteration (h.ready s attempted)
        Setup.loop fuel (attempted ++ h.ready s attempted)

/-- Every check and every solver of the task is registered. -/
def registeredIn (registry : Registry ω) (task : Task) : Bool :=
  task.obligations.all fun o => decide (o.check ∈ registry.checks.keys) &&
    (o.solver.all fun x => decide (x = [] ∨ x ∈ registry.solvers.keys))

/-- `self.failures.update(structural["blocked"])` and the event of the plan. -/
def Setup.planStructure : Run ω Unit :=
  match h.structural with
  | none => pure ()
  | some st => do
      Prog.write fun s => { s with
        failures := st.blocked.foldl (fun d kv => d.set kv.1 kv.2) s.failures }
      h.addEvent "structural_plan" st.asDict

/-- The ids that are blocked from the start. -/
def Setup.blockedIds : List Str :=
  match h.structural with
  | none => []
  | some st => st.blocked.keys

/-- The part of `run` before the main loop. -/
def Setup.start : Run ω Unit := do
  if registeredIn h.registry h.task then
    let s ← Prog.read
    let r := h.env.uuid4 s.world
    Prog.write fun s => { s with world := r.2 }
    let hashes ← Prog.eval (mapE (fun a : Artifact => do
      return (a.id, Json.str (← a.sha256))) h.task.artifacts)
    h.addEvent "run_started" [(lit "run_id", .str r.1), (lit "task_id", .str h.task.id),
      (lit "mode", .str h.mode.text), (lit "limits", h.limits.asDict),
      (lit "artifact_hashes", .obj hashes)]
    h.planStructure
  else Prog.raise (contractError "unregistered verifier or solver")

end ResidualHarness.Engine
