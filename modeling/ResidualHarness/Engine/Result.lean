import ResidualHarness.Engine.Harness

/-!
# The result of a run

The end of `Harness.run`: the obligations that stay unresolved, the metrics, the result dictionary,
its digest in the last event, and the trace root. `Setup.main` is the part of `run` after the
compilation.
-/

set_option autoImplicit false

namespace ResidualHarness.Engine

open Python Core

variable [FloatModel] {ω : Type} (h : Setup ω)

/-! ## Calls -/

/-- The usage of a call that has not been answered. -/
def unavailableUsage : Json :=
  .obj [(lit "input_tokens", .null), (lit "output_tokens", .null),
    (lit "cached_input_tokens", .null), (lit "source", .str UsageSource.unavailable.text)]

/-- A float or `None`. -/
def optionalFloat : Option FloatModel.F → Json
  | some f => .float f
  | none => .null

/-- The dictionary of a call. -/
def Call.asDict (c : Call) : Except PyExn Json := do
  return .obj [(lit "role", .str c.role.text), (lit "provider", .str c.provider),
    (lit "placement", .str c.placement.text), (lit "obligation_ids", strings c.obligationIds),
    (lit "request_bytes", .int c.requestBytes), (lit "packet_sha256", .str c.packetSha256),
    (lit "usage", (c.usage.map Usage.asDict).getD unavailableUsage),
    (lit "cost_usd", optionalFloat c.costUsd), (lit "elapsed_ms", ← Value.toJson c.elapsedMs),
    (lit "error", optionalString c.error)]

/-- The calls to remote providers. -/
def remoteCalls (calls : List Call) : List Call := calls.filter fun c => c.placement = .remote

/-- Input and output tokens of a call, if they were reported. -/
def Call.reported (c : Call) : Option (Nat × Nat) := do
  let u ← c.usage
  if u.source = .reported then return (← u.inputTokens, ← u.outputTokens) else none

/-- `sum(priced)`: an `int` if there is nothing to add. -/
def sumFloats : List FloatModel.F → Json
  | [] => .int 0
  | f :: fs => .float (FloatModel.sum (f :: fs))

/-- The calls that send an obligation again. -/
def repeatedDispatches : List Str → List (List Str) → Nat
  | _, [] => 0
  | dispatched, ids :: rest =>
      (if ∃ n ∈ ids, n ∈ dispatched then 1 else 0) + repeatedDispatches (dispatched ++ ids) rest

/-! ## Unresolved obligations -/

/-- The entry of an obligation that has not been accepted. -/
def unresolvedEntry (s : State ω) (o : Obligation) : Json :=
  let missing := o.dependsOn.filter fun d => d ∉ s.accepted.keys
  if missing ≠ [] then
    .obj [(lit "code", .str (lit "dependency_blocked")), (lit "dependencies", strings missing)]
  else
    match s.failures.get? o.id with
    | some f => f.asDict
    | none => .obj [(lit "code", .str (lit "no_verified_candidate"))]

/-- `unresolved`. -/
def Setup.unresolved (s : State ω) : Fields :=
  (h.task.obligations.filter fun o => o.id ∉ s.accepted.keys).map fun o =>
    (o.id, unresolvedEntry s o)

/-- The weight of an unresolved obligation among those that wait for a dependency. -/
def Setup.blockedWeight (u : Str × Json) : Except PyExn Nat := do
  let code ← u.2.item (lit "code")
  if code.Same (.str (lit "dependency_blocked")) then
    match h.structural with
    | some st => if st.applicable then return (← lookupKey st.groups u.1).length else return 1
    | none => return 1
  else return 0

/-! ## Metrics -/

/-- The event of a verification that did not pass. -/
def isRejection (e : Fields) : Except PyExn Bool := do
  let kind ← Fields.get e (lit "kind")
  if kind.Same (.str (lit "verification")) then
    let data ← Fields.get e (lit "data")
    let status ← data.item (lit "status")
    return !decide (status.Same (.str Status.pass.text))
  else return false

/-- `metrics`, with the times measured by the caller. -/
def Setup.metrics (s : State ω) (structuralMs elapsedMs : FloatModel.F) : Except PyExn Fields := do
  let remote := remoteCalls s.calls
  let reported := remote.filterMap Call.reported
  let priced := remote.filterMap Call.costUsd
  let waiting ← mapE h.blockedWeight (h.unresolved s)
  let rejections ← mapE isRejection s.ledger.events
  return [(lit "calls", .int s.calls.length), (lit "expert_calls", .int s.expertCalls),
    (lit "remote_calls", .int remote.length), (lit "remote_request_bytes", .int s.remoteBytes),
    (lit "remote_input_tokens_reported", .int (reported.map Prod.fst).sum),
    (lit "remote_output_tokens_reported", .int (reported.map Prod.snd).sum),
    (lit "remote_usage_complete", .bool (decide (reported.length = remote.length))),
    (lit "remote_cost_usd", if priced.length = remote.length then sumFloats priced else .null),
    (lit "remote_cost_known_subtotal_usd", sumFloats priced),
    (lit "cache_hits", .int s.cacheHits),
    (lit "deterministic_accepts", .int s.deterministicAccepts),
    (lit "accepted_obligations", .int s.accepted.length),
    (lit "total_obligations", .int h.task.obligations.length),
    (lit "verification_elapsed_ms", .float s.verificationMs),
    (lit "solver_elapsed_ms", .float s.solverMs),
    (lit "structural_elapsed_ms", .float structuralMs),
    (lit "structural_search_nodes", .int (h.structural.elim (0 : Nat) Structural.searchNodes : Nat)),
    (lit "structural_unsat_groups", .int (h.structural.elim 0 fun st => st.blocked.length : Nat)),
    (lit "dependency_blocked_obligations", .int waiting.sum),
    (lit "candidate_rejections", .int (rejections.countP id)),
    (lit "repeated_dispatch_calls", .int (repeatedDispatches [] (s.calls.map Call.obligationIds))),
    (lit "elapsed_ms", .float elapsedMs)]

/-! ## Result -/

/-- The items of a group's value. -/
def groupItems : Json → Except PyExn Fields
  | .obj d => .ok d
  | _ => .error .attributeError

/-- `original_values`: the values of all members of the accepted groups. -/
def originalValues (accepted : Dict Str Json) : Except PyExn (Dict Str Json) := do
  let groups ← mapE (fun g : Str × Json => groupItems g.2) accepted
  return Dict.ofPairs groups.flatten

/-- The fields that a structural analysis adds to the metrics and the result. -/
def Setup.structuralFields (s : State ω) : Except PyExn (Fields × Fields) :=
  match h.structural with
  | none => .ok ([], [])
  | some st =>
      if st.applicable then do
        let values ← originalValues s.accepted
        return ([(lit "original_accepted_obligations", .int values.length),
            (lit "original_total_obligations", .int (st.groups.map fun g => g.2.length).sum)],
          [(lit "structural", .obj st.asDict), (lit "original_values", .obj values)])
      else .ok ([], [(lit "structural", .obj st.asDict)])

/-- `status` of the result. -/
def runStatus (s : State ω) (unresolved : Fields) : Str :=
  if unresolved = [] then lit "passed" else if s.accepted ≠ [] then lit "partial" else lit "blocked"

/-- The result dictionary. -/
def Setup.result (s : State ω) (structuralMs elapsedMs : FloatModel.F) : Except PyExn Fields := do
  let unresolved := h.unresolved s
  let stations ← mapE (fun r : Str × StationReceipt => do return (r.1, ← r.2.toDict))
    s.stationReceipts
  let metrics ← h.metrics s structuralMs elapsedMs
  let calls ← mapE Call.asDict s.calls
  let (structuralMetrics, structuralResult) ← h.structuralFields s
  return [(lit "schema_version", .str (lit "residual.run.v1")), (lit "task_id", .str h.task.id),
    (lit "mode", .str h.mode.text), (lit "status", .str (runStatus s unresolved)),
    (lit "success", .bool (decide (unresolved = []))), (lit "values", .obj s.accepted),
    (lit "unresolved", .obj unresolved),
    (lit "receipts", .obj (s.receipts.map fun r => (r.1, r.2.asDict))),
    (lit "station_receipts", .obj stations), (lit "metrics", .obj (metrics ++ structuralMetrics)),
    (lit "calls", .arr calls)] ++ structuralResult

/-- The part of `run` after the main loop. -/
def Setup.finish (started structuralMs : FloatModel.F) : Run ω Fields := do
  let ended ← h.monotonic
  let s ← Prog.read
  let result ← Prog.eval (h.result s structuralMs (h.env.elapsedMs started ended))
  let sha ← Prog.eval (digest (.obj result))
  h.addEvent "run_finished" [(lit "result_sha256", .str sha),
    (lit "success", .bool (decide (h.unresolved s = [])))]
  let s ← Prog.read
  return result ++ [(lit "trace_root", Json.str s.ledger.head)]

/-- The part of `run` after the compilation. -/
def Setup.main (started structuralMs : FloatModel.F) : Run ω Fields := do
  h.start
  h.loop (h.task.obligations.length + 1) h.blockedIds
  h.finish started structuralMs

end ResidualHarness.Engine
