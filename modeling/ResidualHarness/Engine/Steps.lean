import ResidualHarness.Engine.ReceiptGraph
import ResidualHarness.Engine.Result

/-!
# The steps of a run

Every write of a run is a step of one of six kinds, each with what the code has checked before the
write (`Setup.Step`). `Kept` is what clocks, counters, windows, failures, answers and events leave as
it was, and `Later` what every step leaves: accepted values and their receipts.
-/

set_option autoImplicit false

namespace ResidualHarness.Engine

open Python Core

variable [FloatModel] {ω : Type} (h : Setup ω)

/-! ## What a step relies on -/

/-- The provider of a role. -/
def Setup.provider : Role → Option (Provider ω)
  | .worker => h.worker
  | .expert => h.expert

/-- The check of the obligation passed on the value, in the context of the accepted values. -/
def Setup.Passed (accepted : Dict Str Json) (n : Str) (v : Json) : Prop :=
  ∃ o label check w verdict, h.task.byId n = some o ∧
    h.registry.checks.get? o.check = some (label, check) ∧
    (check w v (Context.view ⟨o, h.task.artifacts, accepted⟩)).1 = .verdict verdict ∧
    verdict.status = .pass

/-- The obligation is one of the task and its dependencies have been accepted. -/
def Setup.Ready (accepted : Dict Str Json) (n : Str) : Prop :=
  ∃ o, h.task.byId n = some o ∧ o.dependsOn ⊆ accepted.keys

/-- None of the obligations has been accepted, and all are ready. -/
def Setup.Open (s : State ω) (ids : List Str) : Prop :=
  ∀ n ∈ ids, n ∉ s.accepted.keys ∧ h.Ready s.accepted n

/-- A station receipt of the obligation is one for the value. -/
def Certified (s : State ω) (n : Str) (v : Json) : Prop :=
  ∀ r, s.stationReceipts.get? n = some r → digest v = .ok r.valueHash

/-- The part of a call that its answer does not change. -/
structure Request where
  role : Role
  provider : Str
  placement : Placement
  obligationIds : List Str
  requestBytes : Int
  packetSha256 : Str
  packet : Json

/-- What was asked in a call. -/
def Call.request (c : Call) : Request :=
  ⟨c.role, c.provider, c.placement, c.obligationIds, c.requestBytes, c.packetSha256, c.packet⟩

/-- What was asked in a run. -/
def State.requests (s : State ω) : List Request := s.calls.map Call.request

/-- What `generate` is given for the requests. -/
def packets (requests : List Request) : List (Placement × Json) :=
  requests.map fun r => (r.placement, r.packet)

/-- A packet that may leave the host: the obligations, values and counterexamples in it are those of
obligations that may be sent, and the manifest and the evidence those of artifacts that may be sent. -/
structure Setup.Exportable (packet : Json) (obligations manifest evidence : List Json)
    (dependencies counterexamples : Fields) : Prop where
  packet : packet = packetWith [(lit "protocol", .str (lit "residual.packet.v1")),
    (lit "task_id", .str h.task.id), (lit "goal", .str h.task.goal),
    (lit "obligations", .arr obligations), (lit "accepted_dependencies", .obj dependencies),
    (lit "counterexamples", .obj counterexamples), (lit "manifest", .arr manifest)] evidence
    h.requestLimits
  obligations : ∀ e ∈ obligations, ∃ o, h.task.cloudAllowed o.id = true ∧ h.obligationEntry o = .ok e
  dependencies : ∀ d ∈ dependencies, h.task.cloudAllowed d.1 = true
  counterexamples : ∀ f ∈ counterexamples, h.task.cloudAllowed f.1 = true
  manifest : ∀ m ∈ manifest, ∃ a x, h.task.artifact a = some x ∧ x.cloud = true ∧
    h.manifestEntry a = .ok m
  evidence : ∀ e ∈ evidence, ∃ a x start stop, h.task.artifact a = some x ∧ x.cloud = true ∧
    x.excerpt start stop = .ok e

/-- The packet may leave the host. -/
def Setup.MayLeave (packet : Json) : Prop :=
  ∃ obligations manifest evidence dependencies counterexamples,
    h.Exportable packet obligations manifest evidence dependencies counterexamples

/-- A call may be reserved. -/
structure Setup.MayReserve (s : State ω) (r : Request) (p : Provider ω) : Prop where
  provider : h.provider r.role = some p ∧ p.placement = r.placement ∧ p.name = r.provider
  sized : h.wireSize p r.packet = .ok r.requestBytes
  allowed : h.blocked s p r.role r.requestBytes = false
  hashed : digest r.packet = .ok r.packetSha256
  ready : h.Open s r.obligationIds
  mayLeave : r.placement = .remote → h.MayLeave r.packet
  handed : s.handed = packets s.requests

/-! ## Steps -/

/-- Clocks, counters, windows, the cache, failures, answers and events aside, the states are the
same. -/
structure Kept (s t : State ω) : Prop where
  accepted : t.accepted = s.accepted
  receipts : t.receipts = s.receipts
  stationReceipts : t.stationReceipts = s.stationReceipts
  requests : t.requests = s.requests
  remoteBytes : t.remoteBytes = s.remoteBytes
  expertCalls : t.expertCalls = s.expertCalls
  handed : t.handed = s.handed

/-- The state after a call has been reserved. -/
def State.reserved (s : State ω) (c : Call) : State ω :=
  { s with
    remoteBytes := if c.placement = .remote then s.remoteBytes + c.requestBytes else s.remoteBytes
    expertCalls := if c.role = .expert then s.expertCalls + 1 else s.expertCalls
    calls := s.calls ++ [c] }

/-- The steps of a run. -/
inductive Setup.Step : State ω → State ω → Prop
  | aside {s t : State ω} : Kept s t → t.failures = s.failures → Step s t
  | fail {s : State ω} (failures : Dict Str Failure) :
      (∀ n ∈ failures.keys, n ∈ s.failures.keys ∨ n ∉ s.accepted.keys) →
      Step s { s with failures := failures }
  | station {s : State ω} (n : Str) (v : Json) (r : StationReceipt) : n ∉ s.accepted.keys →
      n ∉ s.stationReceipts.keys → h.Ready s.accepted n → h.stationReceipt s n v = .ok (some r) →
      Step s { s with stationReceipts := s.stationReceipts.set n r }
  | accept {s : State ω} (n : Str) (v : Json) (r : Receipt) : n ∉ s.accepted.keys →
      h.Ready s.accepted n → h.Passed s.accepted n v → Certified s n v → h.receipt s n v = .ok r →
      Step s { s with
        accepted := s.accepted.set n v
        receipts := s.receipts.set n r
        failures := s.failures.pop n }
  | reserve {s : State ω} (c : Call) (p : Provider ω) : h.MayReserve s c.request p →
      Step s (s.reserved c)
  | hand {s : State ω} (w : ω) (rs : List Request) (r : Request) : s.requests = rs ++ [r] →
      s.handed = packets rs →
      Step s { s with world := w, handed := s.handed ++ [(r.placement, r.packet)] }

/-! ## What stays -/

/-- Accepted values and their receipts are the same, and so are station receipts. -/
structure Later (s t : State ω) : Prop where
  accepted : s.accepted <+: t.accepted
  receipts : ∀ n ∈ s.accepted.keys, t.receipts.get? n = s.receipts.get? n
  stations : s.stationReceipts <+: t.stationReceipts

variable {h} {s t u : State ω}

theorem Kept.refl (s : State ω) : Kept s s := ⟨rfl, rfl, rfl, rfl, rfl, rfl, rfl⟩

theorem Kept.trans (h₁ : Kept s t) (h₂ : Kept t u) : Kept s u :=
  ⟨h₂.accepted.trans h₁.accepted, h₂.receipts.trans h₁.receipts,
    h₂.stationReceipts.trans h₁.stationReceipts,
    h₂.requests.trans h₁.requests, h₂.remoteBytes.trans h₁.remoteBytes,
    h₂.expertCalls.trans h₁.expertCalls, h₂.handed.trans h₁.handed⟩

theorem Later.refl (s : State ω) : Later s s := ⟨List.prefix_rfl, fun _ _ => rfl, List.prefix_rfl⟩

theorem Later.keys (hl : Later s t) : s.accepted.keys ⊆ t.accepted.keys :=
  (hl.accepted.map Prod.fst).subset

theorem Later.trans (h₁ : Later s t) (h₂ : Later t u) : Later s u :=
  ⟨h₁.accepted.trans h₂.accepted, fun n hn => (h₂.receipts n (h₁.keys hn)).trans (h₁.receipts n hn),
    h₁.stations.trans h₂.stations⟩

theorem Setup.Step.later (hs : h.Step s t) : Later s t := by
  cases hs with
  | aside hk hf =>
      exact ⟨by rw [hk.accepted], fun n _ => by rw [hk.receipts], by rw [hk.stationReceipts]⟩
  | accept n v r ha hr hp hc hrec =>
      refine ⟨?_, ?_, List.prefix_rfl⟩
      · rw [Dict.set_of_notMem ha]
        exact List.prefix_append _ _
      · intro m hm
        have hne : m ≠ n := fun he => ha (he ▸ hm)
        rw [Dict.get?_set, if_neg hne]
  | station n v r ha hs hn hr =>
      refine ⟨List.prefix_rfl, fun _ _ => rfl, ?_⟩
      rw [Dict.set_of_notMem hs]
      exact List.prefix_append _ _
  | fail failures hf => exact ⟨List.prefix_rfl, fun _ _ => rfl, List.prefix_rfl⟩
  | reserve c p hm => exact ⟨List.prefix_rfl, fun _ _ => rfl, List.prefix_rfl⟩
  | hand w rs r hrs hh => exact ⟨List.prefix_rfl, fun _ _ => rfl, List.prefix_rfl⟩

theorem Setup.Ready.mono {accepted accepted' : Dict Str Json} (hk : accepted.keys ⊆ accepted'.keys)
    {n : Str} (hr : h.Ready accepted n) : h.Ready accepted' n := by
  obtain ⟨o, ho, hd⟩ := hr
  exact ⟨o, ho, List.Subset.trans hd hk⟩

end ResidualHarness.Engine
