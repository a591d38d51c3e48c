import Mathlib.Data.Prod.Lex
import ResidualHarness.Factory.Approval
import ResidualHarness.Python.Numbers

/-!
# Selecting an engine

`M4AdaptiveScheduler.select_engine` of `residual/factory/m4_scheduler.py`. The loop asks the market
for the engine of every healthy node that offers the capability, and an engine that it cannot use
ends the call, whatever the other nodes are (`scan_unusable`). Otherwise the candidates are the
eligible nodes (`scan_eq`), with the least of their keys. The observer is not modelled.
-/

set_option autoImplicit false

namespace ResidualHarness.Factory.Models

open Python Core

/-! ## Nodes and the market -/

/-- The fields of `MarketProfile` that the selection reads. -/
structure MarketProfile where
  capabilities : List Str
  costPerTask : Number
  latencyMs : Number
  availability : Number
  privacyClass : Int
  retired : Bool
deriving DecidableEq

/-- `VerifiedComputeMarket.profiles`. -/
abbrev Market := Dict Str MarketProfile

/-- `"local"` and `"cloud"`. -/
inductive Locality where
  | onLocal
  | onCloud
deriving DecidableEq, Repr

/-- The fields of `SchedulerNode`. -/
structure NodeData where
  nodeId : Str
  engineId : Str
  locality : Locality
  capabilities : List Str
  capacity : Nat
  activeSlots : Nat
  healthy : Bool
deriving DecidableEq

/-- An exception of the scheduler. -/
inductive SchedulerExn where
  | contract (msg : String)
  | m4Scheduler (msg : String)
  | lookup (msg : Str)
deriving DecidableEq

/-- `SchedulerNode.__post_init__`. -/
def NodeData.postInit (n : NodeData) : Except SchedulerExn Unit := do
  require (isIdentifier n.nodeId = true) (.contract "invalid identifier")
  require (isBlank n.engineId = false) (.m4Scheduler "scheduler node engine_id required")
  require (n.capabilities ≠ [] ∧ ∀ x ∈ n.capabilities, isBlank x = false)
    (.m4Scheduler "scheduler node capabilities required")
  require (1 ≤ n.capacity) (.m4Scheduler "scheduler node capacity must be positive")
  require (n.activeSlots ≤ n.capacity) (.m4Scheduler "scheduler node active_slots outside capacity")

/-- A node that its constructor returned. -/
structure SchedulerNode extends NodeData where
  valid : toNodeData.postInit = .ok ()

theorem SchedulerNode.ext {m n : SchedulerNode} (h : m.toNodeData = n.toNodeData) : m = n := by
  cases m
  cases n
  cases h
  rfl

/-- `node.available_slots`. -/
def NodeData.availableSlots (n : NodeData) : Nat :=
  if n.healthy = true then n.capacity - n.activeSlots else 0

/-- `M4AdaptiveScheduler`, with the checks of its constructor. -/
structure M4AdaptiveScheduler where
  plan : ExecutionPlan
  market : Market
  nodes : List SchedulerNode
  nonempty : nodes ≠ []
  distinct : (nodes.map fun n => n.nodeId).Nodup

/-- The arguments of `select_engine`. -/
structure SelectRequest where
  taskId : Str
  capability : Str
  maxPrivacyClass : Int
  maxLatencyMs : Option Number

/-- `EnginePlacement`. -/
structure EnginePlacement where
  taskId : Str
  capability : Str
  engineId : Str
  nodeId : Str
  locality : Locality
  costPerTask : Number
  reason : String
deriving DecidableEq

/-! ## Keys -/

/-- The key of a candidate. -/
structure PlacementKey where
  rank : Nat
  cost : Number
  latency : Number
  load : ℚ
  engineId : Str
  nodeId : Str
deriving DecidableEq

/-- `a < b` of two keys as tuples: the first items that differ decide. -/
def PlacementKey.less (a b : PlacementKey) : Bool :=
  if a.rank ≠ b.rank then decide (a.rank < b.rank)
  else if a.cost ≠ b.cost then a.cost.lt b.cost
  else if a.latency ≠ b.latency then a.latency.lt b.latency
  else if a.load ≠ b.load then decide (a.load < b.load)
  else if a.engineId ≠ b.engineId then decide (a.engineId < b.engineId)
  else decide (a.nodeId < b.nodeId)

/-- The key of a node with its profile. -/
def placementKey (n : SchedulerNode) (p : MarketProfile) : PlacementKey where
  rank := if n.locality = .onLocal then 0 else 1
  cost := p.costPerTask
  latency := p.latencyMs
  load := trueDiv n.activeSlots n.capacity
  engineId := n.engineId
  nodeId := n.nodeId

/-! ## The loop -/

/-- `_market_profile(engine_id)`. -/
def marketProfile (market : Market) (engineId : Str) : Except SchedulerExn MarketProfile :=
  match Dict.get? market engineId with
  | some p =>
      if p.retired = true ∨ p.availability.le (.exact 0) = true then
        .error (.m4Scheduler "scheduler node references unavailable market engine")
      else .ok p
  | none => .error (.m4Scheduler "scheduler node references unavailable market engine")

/-- A candidate: its key, the node and its profile. -/
abbrev Candidate := PlacementKey × SchedulerNode × MarketProfile

/-- What the loop has found. -/
structure Scan where
  candidates : List Candidate
  localCapable : Bool
  localAvailable : Bool

/-- The body of the loop once the profile of the node is there. -/
def Scan.visit (r : SelectRequest) (s : Scan) (n : SchedulerNode) (p : MarketProfile) : Scan :=
  if r.capability ∉ p.capabilities then s
  else if r.maxPrivacyClass < p.privacyClass then s
  else if ∃ limit ∈ r.maxLatencyMs, limit.lt p.latencyMs = true then s
  else if n.availableSlots = 0 then
    { s with localCapable := s.localCapable || decide (n.locality = .onLocal) }
  else
    { candidates := s.candidates ++ [(placementKey n p, n, p)]
      localCapable := s.localCapable || decide (n.locality = .onLocal)
      localAvailable := s.localAvailable || decide (n.locality = .onLocal) }

/-- The loop over the nodes. -/
def scan (market : Market) (r : SelectRequest) : Scan → List SchedulerNode → Except SchedulerExn Scan
  | s, [] => .ok s
  | s, n :: nodes =>
      if n.healthy = false ∨ r.capability ∉ n.capabilities then scan market r s nodes
      else do
        let p ← marketProfile market n.engineId
        scan market r (s.visit r n p) nodes

/-- The reason of a placement. -/
def placementReason (s : Scan) (n : SchedulerNode) : String :=
  if n.locality = .onLocal then "local_capability_equal_preferred"
  else if s.localCapable = true ∧ s.localAvailable = false then
    "cloud_selected_local_capacity_exhausted"
  else "cloud_selected_for_capability_gap"

/-- The placement on a node. -/
def placementOn (r : SelectRequest) (n : SchedulerNode) (p : MarketProfile) (reason : String) :
    EnginePlacement where
  taskId := r.taskId
  capability := r.capability
  engineId := n.engineId
  nodeId := n.nodeId
  locality := n.locality
  costPerTask := p.costPerTask
  reason := reason

/-- The choice among what the loop has found. -/
def Scan.choose (r : SelectRequest) (s : Scan) : Except SchedulerExn EnginePlacement :=
  match s.candidates with
  | [] => .error (.lookup (lit "no available node supports " ++ r.capability))
  | c :: cs =>
      let best := minBy (fun a b : Candidate => a.1.less b.1) c cs
      .ok (placementOn r best.2.1 best.2.2 (placementReason s best.2.1))

/-- `select_engine(task_id, capability, max_privacy_class, max_latency_ms)`. -/
def M4AdaptiveScheduler.selectEngine (s : M4AdaptiveScheduler) (r : SelectRequest) :
    Except SchedulerExn EnginePlacement := do
  require (r.taskId ∈ s.plan.taskIds) (.m4Scheduler "unknown scheduler task")
  require (isBlank r.capability = false) (.m4Scheduler "task capability required")
  let found ← scan s.market r ⟨[], false, false⟩ s.nodes
  found.choose r

/-! ## The order of keys -/

namespace PlacementKey

/-- No item of the key is a NaN. -/
def Ordered (k : PlacementKey) : Prop := k.cost.Ordered ∧ k.latency.Ordered

/-- The key in the lexicographic order. -/
def lex (k : PlacementKey) :
    ℕ ×ₗ WithBot (WithTop ℚ) ×ₗ WithBot (WithTop ℚ) ×ₗ ℚ ×ₗ Str ×ₗ Str :=
  toLex (k.rank, toLex (k.cost.toValue, toLex (k.latency.toValue, toLex (k.load,
    toLex (k.engineId, k.nodeId)))))

theorem item_iff {α : Type} [LinearOrder α] {p : Prop} [Decidable p] {x y : α} {lt : Bool}
    (rest : Bool) (hp : p ↔ x = y) (hlt : lt = true ↔ x < y) :
    (if ¬ p then lt else rest) = true ↔ x < y ∨ x = y ∧ rest = true := by
  by_cases h : p
  · have heq := hp.1 h
    rw [if_neg (not_not.2 h)]
    exact ⟨fun hr => .inr ⟨heq, hr⟩, fun hr => hr.elim (fun hxy => absurd heq hxy.ne) And.right⟩
  · have hne := fun heq => h (hp.2 heq)
    rw [if_pos h, hlt]
    exact ⟨.inl, fun hr => hr.elim id fun hr => absurd hr.1 hne⟩

/-- Without NaNs, keys are compared in the lexicographic order. -/
theorem less_iff {a b : PlacementKey} (ha : a.Ordered) (hb : b.Ordered) :
    a.less b = true ↔ a.lex < b.lex := by
  have hcost := item_iff (if a.latency ≠ b.latency then a.latency.lt b.latency
    else if a.load ≠ b.load then decide (a.load < b.load)
    else if a.engineId ≠ b.engineId then decide (a.engineId < b.engineId)
    else decide (a.nodeId < b.nodeId)) (Number.toValue_inj ha.1 hb.1).symm (Number.lt_iff ha.1 hb.1)
  have hlatency := item_iff (if a.load ≠ b.load then decide (a.load < b.load)
    else if a.engineId ≠ b.engineId then decide (a.engineId < b.engineId)
    else decide (a.nodeId < b.nodeId)) (Number.toValue_inj ha.2 hb.2).symm (Number.lt_iff ha.2 hb.2)
  rw [less, lex, lex, Prod.Lex.toLex_lt_toLex, Prod.Lex.toLex_lt_toLex, Prod.Lex.toLex_lt_toLex,
    Prod.Lex.toLex_lt_toLex, Prod.Lex.toLex_lt_toLex]
  refine (item_iff _ Iff.rfl decide_eq_true_iff).trans (or_congr_right (and_congr_right fun _ => ?_))
  refine hcost.trans (or_congr_right (and_congr_right fun _ => ?_))
  refine hlatency.trans (or_congr_right (and_congr_right fun _ => ?_))
  refine (item_iff _ Iff.rfl decide_eq_true_iff).trans (or_congr_right (and_congr_right fun _ => ?_))
  exact (item_iff _ Iff.rfl decide_eq_true_iff).trans
    (or_congr_right (and_congr_right fun _ => decide_eq_true_iff))

theorem nodeId_of_lex_eq {a b : PlacementKey} (h : a.lex = b.lex) : a.nodeId = b.nodeId :=
  (Prod.mk.inj (Prod.mk.inj (Prod.mk.inj (Prod.mk.inj (Prod.mk.inj h).2).2).2).2).2

end PlacementKey

/-! ## What the loop finds -/

section Loop

variable {market : Market} {r : SelectRequest}

/-- The profile allows the request. -/
def fits (r : SelectRequest) (p : MarketProfile) : Bool :=
  decide (r.capability ∈ p.capabilities) && decide (p.privacyClass ≤ r.maxPrivacyClass) &&
    r.maxLatencyMs.all fun limit => !limit.lt p.latencyMs

theorem fits_iff {p : MarketProfile} : fits r p = true ↔ r.capability ∈ p.capabilities ∧
    p.privacyClass ≤ r.maxPrivacyClass ∧ ¬ ∃ limit ∈ r.maxLatencyMs, limit.lt p.latencyMs = true := by
  rw [fits, Bool.and_eq_true, Bool.and_eq_true, decide_eq_true_eq, decide_eq_true_eq, and_assoc,
    Option.all_eq_true]
  refine and_congr_right fun _ => and_congr_right fun _ => ?_
  constructor
  · rintro h ⟨limit, hmem, hlt⟩
    have hnot := h limit hmem
    rw [hlt] at hnot
    cases hnot
  · intro h limit hmem
    rw [Bool.not_eq_true', ← Bool.not_eq_true]
    exact fun hlt => h ⟨limit, hmem, hlt⟩

/-- The profile of a node that the loop asks for and that allows the request. -/
def offered (market : Market) (r : SelectRequest) (n : SchedulerNode) : Option MarketProfile :=
  if n.healthy = false ∨ r.capability ∉ n.capabilities then none
  else (Dict.get? market n.engineId).filter (fits r)

/-- The candidate of a node. -/
def candidateOf (market : Market) (r : SelectRequest) (n : SchedulerNode) : Option Candidate :=
  (offered market r n).bind fun p =>
    if n.availableSlots = 0 then none else some (placementKey n p, n, p)

/-- All that the loop finds among these nodes. -/
def found (market : Market) (r : SelectRequest) (nodes : List SchedulerNode) : Scan where
  candidates := nodes.filterMap (candidateOf market r)
  localCapable := nodes.any fun n =>
    (offered market r n).isSome && decide (n.locality = .onLocal)
  localAvailable := nodes.any fun n =>
    (candidateOf market r n).isSome && decide (n.locality = .onLocal)

theorem visit_eq (s : Scan) (n : SchedulerNode) (p : MarketProfile) : s.visit r n p =
    if fits r p = false then s
    else if n.availableSlots = 0 then
      { s with localCapable := s.localCapable || decide (n.locality = .onLocal) }
    else
      { candidates := s.candidates ++ [(placementKey n p, n, p)]
        localCapable := s.localCapable || decide (n.locality = .onLocal)
        localAvailable := s.localAvailable || decide (n.locality = .onLocal) } := by
  rw [Scan.visit]
  by_cases hcap : r.capability ∈ p.capabilities
  · rw [if_neg (not_not.2 hcap)]
    by_cases hprivacy : r.maxPrivacyClass < p.privacyClass
    · rw [if_pos hprivacy, if_pos]
      exact eq_false_of_ne_true fun h => absurd (fits_iff.1 h).2.1 (not_le.2 hprivacy)
    · rw [if_neg hprivacy]
      by_cases hlimit : ∃ limit ∈ r.maxLatencyMs, limit.lt p.latencyMs = true
      · rw [if_pos hlimit, if_pos]
        exact eq_false_of_ne_true fun h => (fits_iff.1 h).2.2 hlimit
      · have hfits : ¬ fits r p = false :=
          ne_false_of_eq_true (fits_iff.2 ⟨hcap, not_lt.1 hprivacy, hlimit⟩)
        rw [if_neg hlimit, if_neg hfits]
  · rw [if_pos hcap, if_pos]
    exact eq_false_of_ne_true fun h => hcap (fits_iff.1 h).1

theorem scan_eq {nodes : List SchedulerNode} (s : Scan)
    (h : ∀ n ∈ nodes, n.healthy = true → r.capability ∈ n.capabilities →
      ∃ p, marketProfile market n.engineId = .ok p) :
    scan market r s nodes = .ok {
      candidates := s.candidates ++ (found market r nodes).candidates
      localCapable := s.localCapable || (found market r nodes).localCapable
      localAvailable := s.localAvailable || (found market r nodes).localAvailable } := by
  induction nodes generalizing s with
  | nil => simp [scan, found]
  | cons n nodes ih =>
      have ih' := fun s => ih s fun m hm => h m (List.mem_cons_of_mem _ hm)
      rw [scan]
      by_cases hskip : n.healthy = false ∨ r.capability ∉ n.capabilities
      · have hnone : offered market r n = none := if_pos hskip
        rw [if_pos hskip, ih' s]
        simp [found, candidateOf, hnone]
      · rw [if_neg hskip]
        rw [not_or, Bool.not_eq_false, not_not] at hskip
        obtain ⟨p, hp⟩ := h n List.mem_cons_self hskip.1 hskip.2
        have hget : Dict.get? market n.engineId = some p := by
          rw [marketProfile] at hp
          split at hp
          · split at hp
            · cases hp
            · cases hp
              assumption
          · cases hp
        have hoffered : offered market r n = if fits r p = true then some p else none := by
          rw [offered, if_neg (by simp [hskip]), hget, Option.filter_some]
        refine bind_eq_ok.2 ⟨p, hp, ?_⟩
        rw [ih' (s.visit r n p), visit_eq]
        cases hfits : fits r p with
        | false =>
            rw [hfits] at hoffered
            simp [found, candidateOf, hoffered]
        | true =>
            rw [hfits] at hoffered
            by_cases hslots : n.availableSlots = 0
            · simp [found, candidateOf, hoffered, hslots, Bool.or_assoc]
            · simp [found, candidateOf, hoffered, hslots, Bool.or_assoc]

theorem scan_unusable {nodes : List SchedulerNode} (s : Scan)
    (h : ∃ n ∈ nodes, n.healthy = true ∧ r.capability ∈ n.capabilities ∧
      ∀ p, marketProfile market n.engineId ≠ .ok p) :
    scan market r s nodes =
      .error (.m4Scheduler "scheduler node references unavailable market engine") := by
  induction nodes generalizing s with
  | nil =>
      obtain ⟨n, hn, -⟩ := h
      cases hn
  | cons n nodes ih =>
      obtain ⟨m, hm, hhealthy, hcap, hbad⟩ := h
      rw [scan]
      by_cases hskip : n.healthy = false ∨ r.capability ∉ n.capabilities
      · rw [if_pos hskip]
        refine ih s ⟨m, ?_, hhealthy, hcap, hbad⟩
        rcases List.mem_cons.1 hm with rfl | hm
        · simp [hhealthy, hcap] at hskip
        · exact hm
      · rw [if_neg hskip]
        cases hprofile : marketProfile market n.engineId with
        | ok p =>
            refine ih _ ⟨m, ?_, hhealthy, hcap, hbad⟩
            rcases List.mem_cons.1 hm with rfl | hm
            · exact absurd hprofile (hbad p)
            · exact hm
        | error e =>
            rw [marketProfile] at hprofile
            split at hprofile
            · split at hprofile
              · cases hprofile
                rfl
              · cases hprofile
            · cases hprofile
              rfl

theorem candidateOf_eq_some {n : SchedulerNode} {c : Candidate} : candidateOf market r n = some c ↔
    n.healthy = true ∧ r.capability ∈ n.capabilities ∧ 0 < n.availableSlots ∧
      ∃ p, Dict.get? market n.engineId = some p ∧ fits r p = true ∧ c = (placementKey n p, n, p) := by
  rw [candidateOf, Option.bind_eq_some_iff, offered]
  by_cases hskip : n.healthy = false ∨ r.capability ∉ n.capabilities
  · rw [if_pos hskip]
    constructor
    · rintro ⟨p, hp, -⟩
      cases hp
    · rintro ⟨hhealthy, hcap, -⟩
      simp [hhealthy, hcap] at hskip
  · rw [if_neg hskip]
    rw [not_or, Bool.not_eq_false, not_not] at hskip
    constructor
    · rintro ⟨p, hp, hc⟩
      obtain ⟨hget, hfits⟩ := Option.filter_eq_some_iff.1 hp
      split at hc
      · cases hc
      · rename_i hslots
        exact ⟨hskip.1, hskip.2, Nat.pos_of_ne_zero hslots, p, hget, hfits, (Option.some.inj hc).symm⟩
    · rintro ⟨-, -, hslots, p, hget, hfits, rfl⟩
      exact ⟨p, Option.filter_eq_some_iff.2 ⟨hget, hfits⟩, if_neg hslots.ne'⟩

theorem mem_candidates {nodes : List SchedulerNode} {c : Candidate} :
    c ∈ (found market r nodes).candidates ↔
      ∃ n ∈ nodes, candidateOf market r n = some c := List.mem_filterMap

/-- What the loop finds does not depend on the order of the nodes, but for that of the candidates. -/
theorem found_perm (market : Market) (r : SelectRequest) {nodes nodes' : List SchedulerNode} (h : nodes.Perm nodes') :
    (found market r nodes).candidates.Perm (found market r nodes').candidates ∧
      (found market r nodes).localCapable = (found market r nodes').localCapable ∧
      (found market r nodes).localAvailable = (found market r nodes').localAvailable :=
  ⟨h.filterMap _, h.any_eq, h.any_eq⟩

end Loop

/-! ## Eligible nodes -/

/-- No number of the profile is a NaN. -/
def MarketProfile.Ordered (p : MarketProfile) : Prop :=
  p.costPerTask.Ordered ∧ p.latencyMs.Ordered ∧ p.availability.Ordered

/-- The engine has a profile that is not retired and has positive availability. -/
def Usable (market : Market) (engineId : Str) : Prop :=
  ∃ p, Dict.get? market engineId = some p ∧ p.retired = false ∧
    (Number.exact 0).lt p.availability = true

/-- A healthy node with a free slot that offers the capability, and whose profile can be used and
allows the request. -/
structure Eligible (market : Market) (r : SelectRequest) (n : SchedulerNode) (p : MarketProfile) :
    Prop where
  healthy : n.healthy = true
  offers : r.capability ∈ n.capabilities
  free : 0 < n.availableSlots
  profile : Dict.get? market n.engineId = some p
  active : p.retired = false
  available : (Number.exact 0).lt p.availability = true
  offered : r.capability ∈ p.capabilities
  privacy : p.privacyClass ≤ r.maxPrivacyClass
  latency : ∀ limit ∈ r.maxLatencyMs, p.latencyMs.le limit = true

section Spec

variable {market : Market} {r : SelectRequest}

theorem ordered_of_get? (hmarket : ∀ kv ∈ market, kv.2.Ordered) {engineId : Str} {p : MarketProfile}
    (h : Dict.get? market engineId = some p) : p.Ordered :=
  hmarket _ (Dict.mem_of_get? h)

theorem ordered_zero : (Number.exact 0).Ordered := trivial

/-- The market gives the profiles of the engines that can be used. -/
theorem marketProfile_ok_iff (hmarket : ∀ kv ∈ market, kv.2.Ordered) {engineId : Str} :
    (∃ p, marketProfile market engineId = .ok p) ↔ Usable market engineId := by
  rw [Usable]
  cases hget : Dict.get? market engineId with
  | none => simp [marketProfile, hget]
  | some p =>
      have hzero := Number.le_eq_false_iff (ordered_of_get? hmarket hget).2.2 ordered_zero
      simp only [marketProfile, hget, Option.some.injEq, exists_eq_left', ← hzero]
      cases p.retired <;> cases p.availability.le (.exact 0) <;> simp

theorem usable_of_get? {engineId : Str} {p : MarketProfile}
    (h : Usable market engineId) (hget : Dict.get? market engineId = some p) :
    p.retired = false ∧ (Number.exact 0).lt p.availability = true := by
  obtain ⟨q, hq, hactive, havailable⟩ := h
  rw [hget] at hq
  cases hq
  exact ⟨hactive, havailable⟩

/-- When the engines that are asked for can be used, the candidates are the eligible nodes. -/
theorem candidateOf_iff (hmarket : ∀ kv ∈ market, kv.2.Ordered)
    (hlimit : ∀ limit ∈ r.maxLatencyMs, limit.Ordered) {n : SchedulerNode} {c : Candidate}
    (husable : n.healthy = true → r.capability ∈ n.capabilities → Usable market n.engineId) :
    candidateOf market r n = some c ↔
      ∃ p, Eligible market r n p ∧ c = (placementKey n p, n, p) := by
  rw [candidateOf_eq_some]
  have hle : ∀ p : MarketProfile, p.Ordered → ((¬ ∃ limit ∈ r.maxLatencyMs, limit.lt p.latencyMs = true) ↔
      ∀ limit ∈ r.maxLatencyMs, p.latencyMs.le limit = true) := by
    intro p hp
    constructor
    · intro h limit hmem
      by_contra hne
      rw [Bool.not_eq_true, Number.le_eq_false_iff hp.2.1 (hlimit limit hmem)] at hne
      exact h ⟨limit, hmem, hne⟩
    · rintro h ⟨limit, hmem, hlt⟩
      rw [← Number.le_eq_false_iff hp.2.1 (hlimit limit hmem), h limit hmem] at hlt
      cases hlt
  constructor
  · rintro ⟨hhealthy, hcap, hslots, p, hget, hfits, rfl⟩
    obtain ⟨hactive, havailable⟩ := usable_of_get? (husable hhealthy hcap) hget
    obtain ⟨hoffered, hprivacy, hlatency⟩ := fits_iff.1 hfits
    exact ⟨p, ⟨hhealthy, hcap, hslots, hget, hactive, havailable, hoffered, hprivacy,
      (hle p (ordered_of_get? hmarket hget)).1 hlatency⟩, rfl⟩
  · rintro ⟨p, h, rfl⟩
    exact ⟨h.healthy, h.offers, h.free, p, h.profile, fits_iff.2 ⟨h.offered, h.privacy,
      (hle p (ordered_of_get? hmarket h.profile)).2 h.latency⟩, rfl⟩

/-- The choice does not depend on the order of the candidates when their keys can be compared. -/
theorem choose_congr {s s' : Scan} (hperm : s.candidates.Perm s'.candidates)
    (hcapable : s.localCapable = s'.localCapable)
    (havailable : s.localAvailable = s'.localAvailable)
    (hordered : ∀ c ∈ s.candidates, c.1.Ordered)
    (hinj : ∀ c ∈ s.candidates, ∀ d ∈ s.candidates, c.1.nodeId = d.1.nodeId → c = d) :
    s.choose r = s'.choose r := by
  have hreason : ∀ n, placementReason s n = placementReason s' n := by
    intro n
    rw [placementReason, placementReason, hcapable, havailable]
  rw [Scan.choose, Scan.choose]
  cases hs : s.candidates with
  | nil =>
      rw [hs] at hperm
      rw [← hperm.nil_eq]
  | cons c cs =>
      rw [hs] at hperm hordered hinj
      cases hs' : s'.candidates with
      | nil =>
          rw [hs'] at hperm
          cases hperm.eq_nil
      | cons d ds =>
          rw [hs'] at hperm
          have hmin := minBy_perm (fun a b : Candidate => a.1.less b.1)
            (fun a : Candidate => a.1.lex) hperm
            (fun a ha b hb => PlacementKey.less_iff (hordered a ha) (hordered b hb))
            fun a ha b hb h => hinj a ha b hb (PlacementKey.nodeId_of_lex_eq h)
          simp only [hmin, hreason]

end Spec

/-! ## Selection -/

section Selection

variable {s : M4AdaptiveScheduler} {r : SelectRequest}

theorem selectEngine_eq (htask : r.taskId ∈ s.plan.taskIds) (hcap : isBlank r.capability = false) :
    s.selectEngine r = (do (← scan s.market r ⟨[], false, false⟩ s.nodes).choose r) := by
  rw [M4AdaptiveScheduler.selectEngine, require_of htask, require_of hcap]
  rfl

/-- The nodes that the loop asks the market about. -/
def Asks (r : SelectRequest) (n : SchedulerNode) : Prop :=
  n.healthy = true ∧ r.capability ∈ n.capabilities

theorem selectEngine_unusable (htask : r.taskId ∈ s.plan.taskIds)
    (hcap : isBlank r.capability = false) (hmarket : ∀ kv ∈ s.market, kv.2.Ordered)
    (h : ∃ n ∈ s.nodes, Asks r n ∧ ¬ Usable s.market n.engineId) : s.selectEngine r =
      .error (.m4Scheduler "scheduler node references unavailable market engine") := by
  obtain ⟨n, hn, ⟨hhealthy, hoffers⟩, hbad⟩ := h
  rw [selectEngine_eq htask hcap, scan_unusable _ ⟨n, hn, hhealthy, hoffers, fun p hp =>
    hbad ((marketProfile_ok_iff hmarket).1 ⟨p, hp⟩)⟩]
  rfl

theorem selectEngine_found (htask : r.taskId ∈ s.plan.taskIds)
    (hcap : isBlank r.capability = false) (hmarket : ∀ kv ∈ s.market, kv.2.Ordered)
    (h : ∀ n ∈ s.nodes, Asks r n → Usable s.market n.engineId) :
    s.selectEngine r = (found s.market r s.nodes).choose r := by
  rw [selectEngine_eq htask hcap, scan_eq _ fun n hn hhealthy hoffers =>
    (marketProfile_ok_iff hmarket).2 (h n hn ⟨hhealthy, hoffers⟩)]
  rfl

theorem eq_of_nodeId {m n : SchedulerNode} (hm : m ∈ s.nodes) (hn : n ∈ s.nodes)
    (h : m.nodeId = n.nodeId) : m = n :=
  List.inj_on_of_nodup_map s.distinct hm hn h

/-- A candidate among the nodes: its node is eligible and the key is that of the node. -/
theorem candidate_spec (hmarket : ∀ kv ∈ s.market, kv.2.Ordered)
    (hlimit : ∀ limit ∈ r.maxLatencyMs, limit.Ordered)
    (h : ∀ n ∈ s.nodes, Asks r n → Usable s.market n.engineId) {c : Candidate} :
    c ∈ (found s.market r s.nodes).candidates ↔ ∃ n ∈ s.nodes, ∃ p, Eligible s.market r n p ∧
      c = (placementKey n p, n, p) := by
  rw [mem_candidates]
  refine exists_congr fun n => and_congr_right fun hn => ?_
  exact candidateOf_iff hmarket hlimit fun hhealthy hoffers => h n hn ⟨hhealthy, hoffers⟩

theorem candidates_ordered (hmarket : ∀ kv ∈ s.market, kv.2.Ordered)
    (hlimit : ∀ limit ∈ r.maxLatencyMs, limit.Ordered)
    (h : ∀ n ∈ s.nodes, Asks r n → Usable s.market n.engineId) :
    (∀ c ∈ (found s.market r s.nodes).candidates, c.1.Ordered) ∧
      ∀ c ∈ (found s.market r s.nodes).candidates, ∀ d ∈ (found s.market r s.nodes).candidates,
        c.1.nodeId = d.1.nodeId → c = d := by
  constructor
  · intro c hc
    obtain ⟨n, -, p, he, rfl⟩ := (candidate_spec hmarket hlimit h).1 hc
    have hp := ordered_of_get? hmarket he.profile
    exact ⟨hp.1, hp.2.1⟩
  · intro c hc d hd hid
    obtain ⟨n, hn, p, he, rfl⟩ := (candidate_spec hmarket hlimit h).1 hc
    obtain ⟨m, hm, q, hf, rfl⟩ := (candidate_spec hmarket hlimit h).1 hd
    obtain rfl := eq_of_nodeId hn hm hid
    have hpq := he.profile.symm.trans hf.profile
    cases hpq
    rfl

/-- The placement that is returned is on the eligible node with the least key. -/
theorem selectEngine_least (htask : r.taskId ∈ s.plan.taskIds)
    (hcap : isBlank r.capability = false) (hmarket : ∀ kv ∈ s.market, kv.2.Ordered)
    (hlimit : ∀ limit ∈ r.maxLatencyMs, limit.Ordered)
    (h : ∀ n ∈ s.nodes, Asks r n → Usable s.market n.engineId)
    (hsome : ∃ n ∈ s.nodes, ∃ p, Eligible s.market r n p) :
    ∃ n ∈ s.nodes, ∃ p, Eligible s.market r n p ∧
      (∀ m ∈ s.nodes, ∀ q, Eligible s.market r m q →
        m = n ∨ (placementKey n p).less (placementKey m q) = true) ∧
      ∃ reason, s.selectEngine r = .ok (placementOn r n p reason) := by
  obtain ⟨hordered, hinj⟩ := candidates_ordered hmarket hlimit h
  have hspec := fun c => candidate_spec (c := c) hmarket hlimit h
  rw [selectEngine_found htask hcap hmarket h, Scan.choose]
  cases hcs : (found s.market r s.nodes).candidates with
  | nil =>
      obtain ⟨n, hn, p, he⟩ := hsome
      have hmem := (hspec _).2 ⟨n, hn, p, he, rfl⟩
      rw [hcs] at hmem
      cases hmem
  | cons c cs =>
      rw [hcs] at hordered hinj hspec
      have hless : ∀ a ∈ c :: cs, ∀ b ∈ c :: cs, a.1.less b.1 = true ↔ a.1.lex < b.1.lex :=
        fun a ha b hb => PlacementKey.less_iff (hordered a ha) (hordered b hb)
      obtain ⟨hmem, hle⟩ := minBy_spec (fun a b : Candidate => a.1.less b.1)
        (fun a : Candidate => a.1.lex) cs c hless
      obtain ⟨n, hn, p, he, hbest⟩ := (hspec _).1 hmem
      refine ⟨n, hn, p, he, fun m hm q hq => ?_,
        placementReason (found s.market r s.nodes) n, ?_⟩
      · have hcand := (hspec _).2 ⟨m, hm, q, hq, rfl⟩
        have hkey := hle _ hcand
        rw [hbest] at hkey hmem
        rcases hkey.eq_or_lt with heq | hlt
        · exact .inl (eq_of_nodeId hm hn (PlacementKey.nodeId_of_lex_eq heq).symm)
        · exact .inr ((hless _ hmem _ hcand).2 hlt)
      · simp only [hbest]

/-- Selection of an engine. A healthy node that offers the capability with an engine that cannot be
used ends the call; otherwise the placement is the least of the eligible ones, and the call fails only
when there is none. The order of the nodes does not matter. -/
theorem selectEngine_spec (s : M4AdaptiveScheduler) (r : SelectRequest)
    (htask : r.taskId ∈ s.plan.taskIds) (hcap : isBlank r.capability = false)
    (hmarket : ∀ kv ∈ s.market, kv.2.Ordered)
    (hlimit : ∀ limit ∈ r.maxLatencyMs, limit.Ordered) :
    ((∃ n ∈ s.nodes, Asks r n ∧ ¬ Usable s.market n.engineId) → s.selectEngine r =
      .error (.m4Scheduler "scheduler node references unavailable market engine")) ∧
    ((∀ n ∈ s.nodes, Asks r n → Usable s.market n.engineId) →
      ((∃ n ∈ s.nodes, ∃ p, Eligible s.market r n p) →
        ∃ n ∈ s.nodes, ∃ p, Eligible s.market r n p ∧
          (∀ m ∈ s.nodes, ∀ q, Eligible s.market r m q →
            m = n ∨ (placementKey n p).less (placementKey m q) = true) ∧
          ∃ reason, s.selectEngine r = .ok (placementOn r n p reason)) ∧
      ((¬ ∃ n ∈ s.nodes, ∃ p, Eligible s.market r n p) → s.selectEngine r =
        .error (.lookup (lit "no available node supports " ++ r.capability)))) ∧
    ∀ s' : M4AdaptiveScheduler, s'.plan = s.plan → s'.market = s.market →
      s'.nodes.Perm s.nodes → s'.selectEngine r = s.selectEngine r := by
  refine ⟨selectEngine_unusable htask hcap hmarket, fun h =>
    ⟨selectEngine_least htask hcap hmarket hlimit h, fun hnone => ?_⟩, ?_⟩
  · rw [selectEngine_found htask hcap hmarket h, Scan.choose]
    cases hcs : (found s.market r s.nodes).candidates with
    | nil => rfl
    | cons c cs =>
        obtain ⟨n, hn, p, he, -⟩ := (candidate_spec hmarket hlimit h).1
          (hcs ▸ List.mem_cons_self : c ∈ (found s.market r s.nodes).candidates)
        exact absurd ⟨n, hn, p, he⟩ hnone
  · intro s' hplan hmarkets hperm
    have htask' : r.taskId ∈ s'.plan.taskIds := hplan ▸ htask
    have hmarket' : ∀ kv ∈ s'.market, kv.2.Ordered := hmarkets ▸ hmarket
    by_cases hbad : ∃ n ∈ s.nodes, Asks r n ∧ ¬ Usable s.market n.engineId
    · have hbad' : ∃ n ∈ s'.nodes, Asks r n ∧ ¬ Usable s'.market n.engineId := by
        obtain ⟨n, hn, h⟩ := hbad
        exact ⟨n, hperm.mem_iff.2 hn, hmarkets ▸ h⟩
      rw [selectEngine_unusable htask hcap hmarket hbad,
        selectEngine_unusable htask' hcap hmarket' hbad']
    · have hgood : ∀ n ∈ s.nodes, Asks r n → Usable s.market n.engineId := fun n hn ha =>
        not_not.1 fun hu => hbad ⟨n, hn, ha, hu⟩
      have hgood' : ∀ n ∈ s'.nodes, Asks r n → Usable s'.market n.engineId := fun n hn ha =>
        hmarkets ▸ hgood n (hperm.mem_iff.1 hn) ha
      obtain ⟨hordered, hinj⟩ := candidates_ordered hmarket hlimit hgood
      obtain ⟨hcands, hcapable, havailable⟩ := found_perm s.market r hperm.symm
      rw [selectEngine_found htask hcap hmarket hgood,
        selectEngine_found htask' hcap hmarket' hgood', hmarkets]
      exact (choose_congr hcands hcapable havailable hordered hinj).symm

end Selection

section Concrete

/-- A profile for Python at this cost. -/
def pythonProfile (cost : Number) : MarketProfile :=
  ⟨[lit "python"], cost, .exact 20, .exact 1, 0, false⟩

/-- An idle node for Python. -/
def pythonNode (nodeId engineId : Str) (locality : Locality) : NodeData :=
  ⟨nodeId, engineId, locality, [lit "python"], 2, 0, true⟩

def firstNode : SchedulerNode := ⟨pythonNode (lit "n1") (lit "a@1") .onLocal, by decide⟩

def secondNode : SchedulerNode := ⟨pythonNode (lit "n2") (lit "b@1") .onLocal, by decide⟩

/-- The two nodes with the engines of a market. -/
def firstThenSecond (market : Market) : M4AdaptiveScheduler :=
  ⟨samplePlan, market, [firstNode, secondNode], List.cons_ne_nil _ _, by decide⟩

def secondThenFirst (market : Market) : M4AdaptiveScheduler :=
  ⟨samplePlan, market, [secondNode, firstNode], List.cons_ne_nil _ _, by decide⟩

/-- A request for a task of the sample plan. -/
def pythonRequest : SelectRequest := ⟨lit "task", lit "python", 99, none⟩

/-- A market with both engines. -/
def fullMarket : Market :=
  [(lit "a@1", pythonProfile (.exact 2)), (lit "b@1", pythonProfile (.exact 1))]

/-- The selection among the sample nodes. -/
theorem selectEngine_spec_sample :
    ∃ n ∈ (firstThenSecond fullMarket).nodes, ∃ p, Eligible fullMarket pythonRequest n p ∧
      ∃ reason, (firstThenSecond fullMarket).selectEngine pythonRequest =
        .ok (placementOn pythonRequest n p reason) := by
  have husable : ∀ n ∈ (firstThenSecond fullMarket).nodes, Asks pythonRequest n →
      Usable fullMarket n.engineId := by
    intro n hn _
    rcases List.mem_cons.1 hn with rfl | hn
    · exact ⟨pythonProfile (.exact 2), rfl, rfl, by decide⟩
    · rw [List.mem_singleton.1 hn]
      exact ⟨pythonProfile (.exact 1), rfl, rfl, by decide⟩
  have hordered : ∀ kv ∈ (firstThenSecond fullMarket).market, kv.2.Ordered := by
    intro kv hkv
    rcases List.mem_cons.1 hkv with rfl | hkv
    · exact ⟨trivial, trivial, trivial⟩
    · rw [List.mem_singleton.1 hkv]
      exact ⟨trivial, trivial, trivial⟩
  have heligible : Eligible fullMarket pythonRequest firstNode (pythonProfile (.exact 2)) :=
    ⟨rfl, by decide, by decide, rfl, rfl, by decide, by decide, by decide, nofun⟩
  obtain ⟨n, hn, p, he, -, hok⟩ := ((selectEngine_spec (firstThenSecond fullMarket) pythonRequest
    (by decide) (by decide) hordered nofun).2.1 husable).1
    ⟨firstNode, List.mem_cons_self, _, heligible⟩
  exact ⟨n, hn, p, he, hok⟩

/-- An engine that the market does not know ends a call that another node could serve; and with NaN
costs the order of the nodes decides. -/
theorem selection_fails :
    (¬ ∀ (s : M4AdaptiveScheduler) (r : SelectRequest), r.taskId ∈ s.plan.taskIds →
      isBlank r.capability = false → (∃ n ∈ s.nodes, ∃ p, Eligible s.market r n p) →
        ∃ placement, s.selectEngine r = .ok placement) ∧
    ¬ ∀ (s s' : M4AdaptiveScheduler) (r : SelectRequest), r.taskId ∈ s.plan.taskIds →
      isBlank r.capability = false → s'.plan = s.plan → s'.market = s.market →
        s'.nodes.Perm s.nodes → s'.selectEngine r = s.selectEngine r := by
  constructor
  · intro h
    obtain ⟨placement, hok⟩ := h (firstThenSecond [(lit "a@1", pythonProfile (.exact 2))])
      pythonRequest (by decide) (by decide) ⟨firstNode, List.mem_cons_self, pythonProfile (.exact 2),
        rfl, by decide, by decide, rfl, rfl, by decide, by decide, by decide, nofun⟩
    have herror : (firstThenSecond [(lit "a@1", pythonProfile (.exact 2))]).selectEngine
        pythonRequest =
          .error (.m4Scheduler "scheduler node references unavailable market engine") := by decide
    rw [herror] at hok
    cases hok
  · intro h
    have heq := h (firstThenSecond [(lit "a@1", pythonProfile (.nan 0)),
      (lit "b@1", pythonProfile (.nan 1))]) (secondThenFirst [(lit "a@1", pythonProfile (.nan 0)),
      (lit "b@1", pythonProfile (.nan 1))]) pythonRequest (by decide) (by decide) rfl rfl
      (List.Perm.swap _ _ _)
    exact absurd heq (by decide)

end Concrete

end ResidualHarness.Factory.Models
