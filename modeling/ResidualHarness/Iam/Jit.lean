import ResidualHarness.Iam.Events

/-!
# Temporary elevation

`residual/iam/jit.py`: requests for elevation, their approval or denial by a designated approver, and
the test whether a subject is elevated now. An approval that passes the approver check makes a
grant, whether or not the event log then takes the event (`approve_of_approvable`); nothing else makes one
(`approve_of_not_approvable`). Over a run, a subject is elevated exactly in the windows of its
approvals (`isElevated_iff`).
-/

set_option autoImplicit false

namespace ResidualHarness.Iam

open Python Core

variable [FloatModel]

/-- `WILDCARD`. -/
def wildcard : Str := lit "*"

/-- `PERMISSION_CATEGORIES`. -/
def permissionCategories : List Str :=
  [lit "task_type", lit "swarm_participation", lit "hitl_approval", lit "receipt_visibility",
    lit "module_installation", lit "policy_modification"]

/-- `MAX_ELEVATION_SECONDS`. -/
def maxElevationSeconds : Int := 24 * 3600

/-- `ElevationRequest`. -/
structure ElevationRequest where
  requestId : Str
  subjectId : Str
  category : Str
  scope : Str
  reason : Str
  durationSeconds : Int
  requestedAt : Int
  taskId : Option Str

/-- `ElevationRequest.__post_init__`. -/
def ElevationRequest.checks (r : ElevationRequest) : Except PyExn Unit := do
  identifier r.requestId
  subjectIdentifier r.subjectId
  require (r.category ∈ permissionCategories) (contractError "unknown permission category")
  require (isBlank r.scope = false) (contractError "elevation scope must be a non-empty string")
  require (isBlank r.reason = false) (contractError "elevation requires a reason")
  require (0 < r.durationSeconds ∧ r.durationSeconds ≤ maxElevationSeconds)
    (contractError "elevation duration out of range")
  match r.taskId with
  | some taskId => identifier taskId
  | none => return ()

/-- `ElevationGrant`. -/
structure ElevationGrant where
  request : ElevationRequest
  approverId : Str
  grantedAt : Int
  expiresAt : Int

/-- `ElevationGrant.__post_init__`. -/
def ElevationGrant.checks (g : ElevationGrant) : Except PyExn Unit := do
  identifier g.approverId
  require (g.grantedAt < g.expiresAt) (contractError "grant must expire after it is granted")

/-- `is_active(now)`. -/
def ElevationGrant.isActive (g : ElevationGrant) (now : Int) : Bool :=
  decide (g.grantedAt ≤ now ∧ now < g.expiresAt)

/-- `JITManager`. -/
structure JITManager where
  approvers : List Str
  requests : Dict Str ElevationRequest
  grants : List ElevationGrant
  denied : List Str

/-- A new manager. -/
def JITManager.empty : JITManager := ⟨[], [], [], []⟩

/-- `add_approver(approver_id)`. -/
def addApprover (j : JITManager) (approverId : Str) : Except PyExn JITManager := do
  identifier approverId
  return { j with approvers := approverId :: j.approvers }

/-- `request_elevation(..)` at a reading of the clock, with the drawn token. -/
def requestElevation (j : JITManager) (subjectId category scope reason : Str) (duration : Int)
    (taskId : Option Str) (clock : Int) (token : Str) :
    Except PyExn (ElevationRequest × JITManager) := do
  let request : ElevationRequest :=
    ⟨lit "jit-" ++ token, subjectId, category, scope, reason, duration, clock, taskId⟩
  request.checks
  return (request, { j with requests := j.requests.set request.requestId request })

/-- The observation of a refused approval or of a denial. -/
def refusalEvent (kind : String) (request : ElevationRequest) (approverId sourceIp : Str)
    (stamp : Int) : Observation :=
  ⟨.accessDenied, request.subjectId, stamp, sourceIp, .deny, lit "human",
    [(lit "kind", .str (lit kind)), (lit "approver", .str approverId),
      (lit "category", .str request.category), (lit "scope", .str request.scope)]⟩

/-- The details of the observation of a grant. -/
def elevationDetails (g : ElevationGrant) : Fields :=
  [(lit "kind", .str (lit "jit_elevation")), (lit "approver", .str g.approverId),
    (lit "category", .str g.request.category), (lit "scope", .str g.request.scope),
    (lit "task_id", optionalString g.request.taskId), (lit "expires_at", .int g.expiresAt),
    (lit "reason", .str g.request.reason)]

/-- The observation of a grant. -/
def elevationEvent (g : ElevationGrant) (sourceIp : Str) (stamp : Int) : Observation :=
  ⟨.elevation, g.request.subjectId, stamp, sourceIp, .allow, lit "human", elevationDetails g⟩

/-- The grant of a request approved at a time. -/
def grantOf (request : ElevationRequest) (approverId : Str) (clock : Int) : ElevationGrant :=
  ⟨request, approverId, clock, clock + request.durationSeconds⟩

/-- `approve(request_id, approver_id, source_ip)`, with the readings of the clock for the grant and
for the log. The request is popped before the approver is checked, and the grant is added before the
event is logged. -/
def approve (j : JITManager) (log : EventLog) (requestId approverId sourceIp : Str)
    (clock stamp : Int) : Except PyExn ElevationGrant × JITManager × EventLog :=
  match identifier approverId with
  | .error x => (.error x, j, log)
  | .ok () =>
      match j.requests.get? requestId with
      | none => (.error (contractError "unknown elevation request"), j, log)
      | some request =>
          let j := { j with requests := j.requests.pop requestId }
          if requestId ∈ j.denied then
            (.error (contractError "elevation request already denied"), j, log)
          else if approverId ∉ j.approvers ∨ approverId = request.subjectId then
            match log.record (refusalEvent "jit_approval" request approverId sourceIp stamp) with
            | .error x => (.error x, j, log)
            | .ok log' =>
                (.error (contractError "approver is not designated for JIT pre-authorization"), j,
                  log')
          else
            let grant := grantOf request approverId clock
            match grant.checks with
            | .error x => (.error x, j, log)
            | .ok () =>
                let j := { j with grants := j.grants ++ [grant] }
                match log.record (elevationEvent grant sourceIp stamp) with
                | .error x => (.error x, j, log)
                | .ok log' => (.ok grant, j, log')

/-- `deny(request_id, approver_id, source_ip)`. The approver is not checked. -/
def deny (j : JITManager) (log : EventLog) (requestId approverId sourceIp : Str) (stamp : Int) :
    Except PyExn Unit × JITManager × EventLog :=
  match identifier approverId with
  | .error x => (.error x, j, log)
  | .ok () =>
      match j.requests.get? requestId with
      | none => (.error (contractError "unknown elevation request"), j, log)
      | some request =>
          if requestId ∈ j.denied then
            (.error (contractError "unknown elevation request"), j, log)
          else
            let j := { j with
              requests := j.requests.pop requestId
              denied := requestId :: j.denied }
            match log.record (refusalEvent "jit_denied" request approverId sourceIp stamp) with
            | .error x => (.error x, j, log)
            | .ok log' => (.ok (), j, log')

/-- `is_elevated(subject_id, category, scope)` at a reading of the clock. -/
def isElevated (j : JITManager) (subjectId category scope : Str) (now : Int) : Except PyExn Bool := do
  subjectIdentifier subjectId
  require (category ∈ permissionCategories) (contractError "unknown permission category")
  return j.grants.any fun g =>
    decide (g.request.subjectId = subjectId ∧ g.request.category = category ∧
      (g.request.scope = wildcard ∨ g.request.scope = scope)) && g.isActive now

/-! ## What the calls do -/

/-- The approval of this request passes the approver check. -/
structure Approvable (j : JITManager) (requestId approverId : Str) (request : ElevationRequest) :
    Prop where
  pending : j.requests.get? requestId = some request
  open_ : requestId ∉ j.denied
  designated : approverId ∈ j.approvers
  other : approverId ≠ request.subjectId

omit [FloatModel] in
theorem checks_pos {r : ElevationRequest} (h : r.checks = .ok ()) :
    isSubject r.subjectId = true ∧ r.category ∈ permissionCategories ∧ 0 < r.durationSeconds := by
  obtain ⟨_, -, h⟩ := bind_eq_ok.1 h
  obtain ⟨_, h2, h⟩ := bind_eq_ok.1 h
  obtain ⟨_, h3, h⟩ := bind_eq_ok.1 h
  obtain ⟨_, -, h⟩ := bind_eq_ok.1 h
  obtain ⟨_, -, h⟩ := bind_eq_ok.1 h
  obtain ⟨_, h6, -⟩ := bind_eq_ok.1 h
  exact ⟨require_eq_ok.1 h2, require_eq_ok.1 h3, (require_eq_ok.1 h6).1⟩

omit [FloatModel] in
theorem grant_checks {request : ElevationRequest} {approverId : Str} {clock : Int}
    (ha : isIdentifier approverId = true) (hd : 0 < request.durationSeconds) :
    (grantOf request approverId clock).checks = .ok () := by
  refine bind_eq_ok.2 ⟨(), require_of ha, require_of ?_⟩
  show clock < clock + request.durationSeconds
  omega

/-- Pending requests passed their checks and approvers are identifiers. -/
structure JITManager.Sound (j : JITManager) : Prop where
  requests : ∀ id r, j.requests.get? id = some r → r.checks = .ok ()
  approvers : ∀ a ∈ j.approvers, isIdentifier a = true

/-- An approvable request leaves the pending ones and becomes a grant, whatever the log says. -/
theorem approve_of_approvable {j : JITManager} {log : EventLog} {requestId approverId sourceIp : Str}
    {clock stamp : Int} {request : ElevationRequest} (hj : j.Sound)
    (h : Approvable j requestId approverId request) :
    approve j log requestId approverId sourceIp clock stamp =
      (let grant := grantOf request approverId clock
      let j' := { j with
        requests := j.requests.pop requestId
        grants := j.grants ++ [grant] }
      match log.record (elevationEvent grant sourceIp stamp) with
      | .error x => (.error x, j', log)
      | .ok log' => (.ok grant, j', log')) := by
  have hid : identifier approverId = .ok () := require_of (hj.approvers _ h.designated)
  have hchecks : (grantOf request approverId clock).checks = .ok () :=
    grant_checks (hj.approvers _ h.designated) (checks_pos (hj.requests _ _ h.pending)).2.2
  have hnot : ¬ (approverId ∉ j.approvers ∨ approverId = request.subjectId) := by
    rintro (hn | hn)
    · exact hn h.designated
    · exact h.other hn
  simp only [approve, hid, h.pending, if_neg h.open_, if_neg hnot, hchecks]

theorem approve_of_not_approvable {j : JITManager} {requestId approverId : Str} (log : EventLog)
    (sourceIp : Str) (clock stamp : Int)
    (h : ∀ request, ¬ Approvable j requestId approverId request) :
    ∃ x requests log', approve j log requestId approverId sourceIp clock stamp =
      (.error x, { j with requests := requests }, log') ∧
      (requests = j.requests ∨ requests = j.requests.pop requestId) ∧
      (log' = log ∨ ∃ o, log.record o = .ok log') := by
  rw [approve]
  split
  · exact ⟨_, j.requests, log, rfl, .inl rfl, .inl rfl⟩
  · split
    · exact ⟨_, j.requests, log, rfl, .inl rfl, .inl rfl⟩
    · rename_i request hreq
      dsimp only
      split_ifs with hden happ
      · exact ⟨_, _, log, rfl, .inr rfl, .inl rfl⟩
      · split
        · exact ⟨_, _, log, rfl, .inr rfl, .inl rfl⟩
        · rename_i log' hlog
          exact ⟨_, _, log', rfl, .inr rfl, .inr ⟨_, hlog⟩⟩
      · rw [not_or, not_not] at happ
        exact absurd ⟨hreq, hden, happ.1, happ.2⟩ (h request)

/-- A request that cannot be found leaves everything as it is. -/
theorem approve_of_unknown {j : JITManager} {requestId : Str} (log : EventLog)
    (approverId sourceIp : Str) (clock stamp : Int) (h : j.requests.get? requestId = none) :
    ∃ x, approve j log requestId approverId sourceIp clock stamp = (.error x, j, log) := by
  rw [approve]
  split
  · exact ⟨_, rfl⟩
  · rw [h]
    exact ⟨_, rfl⟩

/-- What a denial does: nothing, or the request moves from the pending to the denied ones. -/
theorem deny_cases (j : JITManager) (log : EventLog) (requestId approverId sourceIp : Str)
    (stamp : Int) :
    (∃ x, deny j log requestId approverId sourceIp stamp = (.error x, j, log)) ∨
      ∃ request, j.requests.get? requestId = some request ∧ requestId ∉ j.denied ∧
        deny j log requestId approverId sourceIp stamp =
          (let j' := { j with
            requests := j.requests.pop requestId
            denied := requestId :: j.denied }
          match log.record (refusalEvent "jit_denied" request approverId sourceIp stamp) with
          | .error x => (.error x, j', log)
          | .ok log' => (.ok (), j', log')) := by
  rw [deny]
  cases hid : identifier approverId with
  | error x => exact .inl ⟨x, rfl⟩
  | ok u =>
      cases hreq : j.requests.get? requestId with
      | none => exact .inl ⟨_, rfl⟩
      | some request =>
          by_cases hden : requestId ∈ j.denied
          · exact .inl ⟨_, by simp only [if_pos hden]; rfl⟩
          · exact .inr ⟨request, rfl, hden, by simp only [if_neg hden]⟩

/-! ## Runs -/

/-- The calls on an elevation manager. -/
inductive JitCall where
  | addApprover (approverId : Str)
  | requestElevation (subjectId category scope reason : Str) (duration : Int) (taskId : Option Str)
      (clock : Int) (token : Str)
  | approve (requestId approverId sourceIp : Str) (clock stamp : Int)
  | deny (requestId approverId sourceIp : Str) (stamp : Int)

/-- The call that made this request. -/
def ElevationRequest.call (r : ElevationRequest) (token : Str) : JitCall :=
  .requestElevation r.subjectId r.category r.scope r.reason r.durationSeconds r.taskId r.requestedAt
    token

/-- One call. -/
def jitStep (st : JITManager × EventLog) : JitCall → JITManager × EventLog
  | .addApprover approverId =>
      match addApprover st.1 approverId with
      | .ok j => (j, st.2)
      | .error _ => st
  | .requestElevation subjectId category scope reason duration taskId clock token =>
      match requestElevation st.1 subjectId category scope reason duration taskId clock token with
      | .ok (_, j) => (j, st.2)
      | .error _ => st
  | .approve requestId approverId sourceIp clock stamp =>
      (approve st.1 st.2 requestId approverId sourceIp clock stamp).2
  | .deny requestId approverId sourceIp stamp => (deny st.1 st.2 requestId approverId sourceIp stamp).2

/-- A run. -/
def jitRun (st : JITManager × EventLog) (calls : List JitCall) : JITManager × EventLog :=
  calls.foldl jitStep st

theorem jitRun_concat (st : JITManager × EventLog) (calls : List JitCall) (c : JitCall) :
    jitRun st (calls ++ [c]) = jitStep (jitRun st calls) c := by
  rw [jitRun, List.foldl_append]
  rfl

omit [FloatModel] in
theorem requestElevation_ok {j j' : JITManager} {subjectId category scope reason : Str}
    {duration : Int} {taskId : Option Str} {clock : Int} {token : Str} {r : ElevationRequest}
    (h : requestElevation j subjectId category scope reason duration taskId clock token = .ok (r, j')) :
    r = ⟨lit "jit-" ++ token, subjectId, category, scope, reason, duration, clock, taskId⟩ ∧
      r.checks = .ok () ∧ j' = { j with requests := j.requests.set (lit "jit-" ++ token) r } := by
  obtain ⟨_, hchecks, hret⟩ := bind_eq_ok.1 h
  cases hret
  exact ⟨rfl, hchecks, rfl⟩

/-- What a call can do to the manager: requests are popped and denials added, an approver is added, a
checked request is filed, or an approvable request becomes a grant. -/
inductive JitEffect (j : JITManager) : JitCall → JITManager → Prop
  | fewer {c : JitCall} {j' : JITManager}
      (pending : ∀ id r, j'.requests.get? id = some r → j.requests.get? id = some r)
      (grants : j'.grants = j.grants) (approvers : j'.approvers = j.approvers)
      (not_approve : ∀ requestId approverId sourceIp clock stamp,
        c = .approve requestId approverId sourceIp clock stamp →
          ∀ request, ¬ Approvable j requestId approverId request) : JitEffect j c j'
  | designated {a : Str} (ha : isIdentifier a = true) :
      JitEffect j (.addApprover a) { j with approvers := a :: j.approvers }
  | filed {r : ElevationRequest} {token : Str} (id : r.requestId = lit "jit-" ++ token)
      (checks : r.checks = .ok ()) :
      JitEffect j (r.call token) { j with requests := j.requests.set (lit "jit-" ++ token) r }
  | granted {requestId approverId sourceIp : Str} {clock stamp : Int} {request : ElevationRequest}
      (ok : Approvable j requestId approverId request) :
      JitEffect j (.approve requestId approverId sourceIp clock stamp)
        { j with
          requests := j.requests.pop requestId
          grants := j.grants ++ [grantOf request approverId clock] }

omit [FloatModel] in
theorem get?_of_get?_pop {κ β : Type} [DecidableEq κ] {d : Dict κ β} {k k' : κ} {v : β}
    (h : (d.pop k).get? k' = some v) : d.get? k' = some v := by
  rw [Dict.get?_pop] at h
  split at h
  · cases h
  · exact h

theorem jitStep_effect {st : JITManager × EventLog} (hj : st.1.Sound) (c : JitCall) :
    JitEffect st.1 c (jitStep st c).1 := by
  cases c with
  | addApprover a =>
      rw [jitStep]
      split
      · rename_i j' h
        obtain ⟨_, hid, hret⟩ := bind_eq_ok.1 h
        cases hret
        exact .designated (require_eq_ok.1 hid)
      · exact .fewer (fun _ _ h => h) rfl rfl nofun
  | requestElevation subjectId category scope reason duration taskId clock token =>
      rw [jitStep]
      split
      · rename_i r j' h
        obtain ⟨rfl, hchecks, rfl⟩ := requestElevation_ok h
        exact .filed rfl hchecks
      · exact .fewer (fun _ _ h => h) rfl rfl nofun
  | approve requestId approverId sourceIp clock stamp =>
      show JitEffect st.1 _ (approve st.1 st.2 requestId approverId sourceIp clock stamp).2.1
      by_cases happ : ∃ request, Approvable st.1 requestId approverId request
      · obtain ⟨request, hreq⟩ := happ
        rw [approve_of_approvable hj hreq]
        dsimp only
        split <;> exact .granted hreq
      · rw [not_exists] at happ
        obtain ⟨x, requests, log', heq, hsub, -⟩ := approve_of_not_approvable st.2
          sourceIp clock stamp happ
        rw [heq]
        refine .fewer ?_ rfl rfl ?_
        · intro id r hr
          rcases hsub with rfl | rfl
          · exact hr
          · exact get?_of_get?_pop hr
        · intro _ _ _ _ _ h
          cases h
          exact happ
  | deny requestId approverId sourceIp stamp =>
      show JitEffect st.1 _ (deny st.1 st.2 requestId approverId sourceIp stamp).2.1
      rcases deny_cases st.1 st.2 requestId approverId sourceIp stamp with ⟨x, h⟩ | ⟨r, -, -, h⟩
      · rw [h]
        exact .fewer (fun _ _ h => h) rfl rfl nofun
      · rw [h]
        dsimp only
        split <;> exact .fewer (fun _ _ h => get?_of_get?_pop h) rfl rfl nofun

omit [FloatModel] in
theorem sound_effect {j j' : JITManager} {c : JitCall} (hj : j.Sound) (h : JitEffect j c j') :
    j'.Sound := by
  cases h with
  | fewer pending grants approvers _ =>
      exact ⟨fun id r hr => hj.requests id r (pending id r hr), by rw [approvers]; exact hj.approvers⟩
  | designated ha =>
      refine ⟨hj.requests, ?_⟩
      intro b hb
      rcases List.mem_cons.1 hb with rfl | hb
      · exact ha
      · exact hj.approvers b hb
  | filed id checks =>
      refine ⟨?_, hj.approvers⟩
      intro id' r' hr'
      rw [Dict.get?_set] at hr'
      split at hr'
      · cases hr'
        exact checks
      · exact hj.requests id' r' hr'
  | granted ok => exact ⟨fun id r hr => hj.requests id r (get?_of_get?_pop hr), hj.approvers⟩

omit [FloatModel] in
theorem sound_empty : JITManager.empty.Sound := by
  refine ⟨?_, fun _ h => absurd h List.not_mem_nil⟩
  intro id r h
  cases h

theorem sound_run {j : JITManager} {log : EventLog} (h : j.Sound) (calls : List JitCall) :
    (jitRun (j, log) calls).1.Sound := by
  induction calls using List.reverseRecOn with
  | nil => exact h
  | append_singleton calls c ih =>
      rw [jitRun_concat]
      exact sound_effect ih (jitStep_effect ih c)

/-! ## Approvals and elevation -/

section History

variable {log : EventLog} {calls : List JitCall}

/-- The state of a new manager after these calls. -/
def elevations (log : EventLog) (calls : List JitCall) : JITManager × EventLog :=
  jitRun (JITManager.empty, log) calls

/-- The run made this request, by the call with this token. -/
def Requested (calls : List JitCall) (request : ElevationRequest) : Prop :=
  ∃ token, request.requestId = lit "jit-" ++ token ∧ request.call token ∈ calls

/-- In the run, a designated approver other than the subject approved this request at `t`. -/
structure ApprovedBy (log : EventLog) (calls : List JitCall) (request : ElevationRequest)
    (approverId : Str) (t : Int) : Prop where
  happened : ∃ pre post sourceIp stamp,
    calls = pre ++ JitCall.approve request.requestId approverId sourceIp t stamp :: post ∧
      Requested pre request ∧
      Approvable (elevations log pre).1 request.requestId approverId request

theorem pending_requested {id : Str} {request : ElevationRequest}
    (h : (elevations log calls).1.requests.get? id = some request) :
    request.requestId = id ∧ Requested calls request := by
  induction calls using List.reverseRecOn with
  | nil => cases h
  | append_singleton calls c ih =>
      have hold : ∀ {r : ElevationRequest}, Requested calls r → Requested (calls ++ [c]) r :=
        fun ⟨token, hid, hmem⟩ => ⟨token, hid, List.mem_append_left _ hmem⟩
      rw [elevations, jitRun_concat] at h
      have heff : JitEffect (elevations log calls).1 c (jitStep (elevations log calls) c).1 :=
        jitStep_effect (sound_run sound_empty calls) c
      change (jitStep (elevations log calls) c).1.requests.get? id = some request at h
      generalize (jitStep (elevations log calls) c).1 = j' at heff h
      cases heff with
      | fewer pending _ _ _ =>
          obtain ⟨h1, h2⟩ := ih (pending id request h)
          exact ⟨h1, hold h2⟩
      | designated ha =>
          obtain ⟨h1, h2⟩ := ih h
          exact ⟨h1, hold h2⟩
      | @filed r token hid checks =>
          rw [Dict.get?_set] at h
          split at h
          · rename_i heq
            cases h
            exact ⟨hid.trans heq.symm, token, hid, by simp⟩
          · obtain ⟨h1, h2⟩ := ih h
            exact ⟨h1, hold h2⟩
      | granted ok =>
          obtain ⟨h1, h2⟩ := ih (get?_of_get?_pop h)
          exact ⟨h1, hold h2⟩

theorem ApprovedBy.concat {request : ElevationRequest} {a : Str} {t : Int}
    (h : ApprovedBy log calls request a t) (c : JitCall) : ApprovedBy log (calls ++ [c]) request a t := by
  obtain ⟨pre, post, ip, stamp, rfl, hreq, happ⟩ := h.happened
  exact ⟨pre, post ++ [c], ip, stamp, by simp, hreq, happ⟩

/-- An approval is in the history of a longer run only if it was there before or is the last call. -/
theorem approvedBy_concat_iff {request : ElevationRequest} {a : Str} {t : Int} {c : JitCall} :
    ApprovedBy log (calls ++ [c]) request a t ↔ ApprovedBy log calls request a t ∨
      ∃ sourceIp stamp, c = .approve request.requestId a sourceIp t stamp ∧
        Requested calls request ∧ Approvable (elevations log calls).1 request.requestId a request := by
  constructor
  · intro h
    obtain ⟨pre, post, ip, stamp, hcalls, hreq, happ⟩ := h.happened
    rcases List.eq_nil_or_concat post with rfl | ⟨post', last, rfl⟩
    · have heq := List.append_inj' hcalls rfl
      obtain ⟨rfl, hc⟩ := heq
      exact .inr ⟨ip, stamp, by simpa using hc, hreq, happ⟩
    · left
      rw [List.concat_eq_append, ← List.cons_append, ← List.append_assoc] at hcalls
      obtain ⟨rfl, -⟩ := List.append_inj' hcalls rfl
      exact ⟨pre, post', ip, stamp, rfl, hreq, happ⟩
  · rintro (h | ⟨ip, stamp, rfl, hreq, happ⟩)
    · exact h.concat c
    · exact ⟨calls, [], ip, stamp, rfl, hreq, happ⟩

theorem mem_grants_iff {g : ElevationGrant} :
    g ∈ (elevations log calls).1.grants ↔
      ∃ request a t, ApprovedBy log calls request a t ∧ g = grantOf request a t := by
  induction calls using List.reverseRecOn with
  | nil =>
      constructor
      · intro h
        cases h
      · rintro ⟨request, a, t, h, -⟩
        obtain ⟨pre, post, ip, stamp, hcalls, -⟩ := h.happened
        cases pre <;> cases hcalls
  | append_singleton calls c ih =>
      have heff : JitEffect (elevations log calls).1 c (jitStep (elevations log calls) c).1 :=
        jitStep_effect (sound_run sound_empty calls) c
      have hrun : elevations log (calls ++ [c]) = jitStep (elevations log calls) c := jitRun_concat _ _ _
      rw [hrun]
      simp only [approvedBy_concat_iff]
      -- a call that is no approvable approval leaves the grants and the history of approvals
      have hold : (jitStep (elevations log calls) c).1.grants = (elevations log calls).1.grants →
          (∀ requestId a ip t stamp, c = .approve requestId a ip t stamp →
            ∀ request, ¬ Approvable (elevations log calls).1 requestId a request) →
          (g ∈ (jitStep (elevations log calls) c).1.grants ↔ ∃ request a t,
            (ApprovedBy log calls request a t ∨ ∃ ip stamp,
              c = .approve request.requestId a ip t stamp ∧ Requested calls request ∧
                Approvable (elevations log calls).1 request.requestId a request) ∧
              g = grantOf request a t) := by
        intro hsame hnot
        rw [hsame, ih]
        constructor
        · rintro ⟨request, a, t, h, hg⟩
          exact ⟨request, a, t, .inl h, hg⟩
        · rintro ⟨request, a, t, h | ⟨ip, stamp, hc, -, happ⟩, hg⟩
          · exact ⟨request, a, t, h, hg⟩
          · exact absurd happ (hnot _ _ _ _ _ hc request)
      generalize hj' : (jitStep (elevations log calls) c).1 = j' at heff hold
      cases heff with
      | fewer _ grants _ not_approve => exact hold grants not_approve
      | designated ha => exact hold rfl nofun
      | filed id checks => exact hold rfl nofun
      | @granted requestId a ip t stamp request ok =>
          obtain ⟨hid, hreq⟩ := pending_requested ok.pending
          subst hid
          rw [List.mem_append, List.mem_singleton, ih]
          constructor
          · rintro (⟨r, b, u, h, hg⟩ | hg)
            · exact ⟨r, b, u, .inl h, hg⟩
            · exact ⟨request, a, t, .inr ⟨ip, stamp, rfl, hreq, ok⟩, hg⟩
          · rintro ⟨r, b, u, h | ⟨ip', stamp', hc, -, happ⟩, hg⟩
            · exact .inl ⟨r, b, u, h, hg⟩
            · rw [JitCall.approve.injEq] at hc
              obtain ⟨hids, rfl, -, rfl, -⟩ := hc
              have hpend := happ.pending
              rw [← hids] at hpend
              cases hpend.symm.trans ok.pending
              exact .inr hg

/-- A subject is elevated now exactly when a designated approver other than the subject approved a
request of it for this category, with this scope or all scopes, and its window is open. -/
theorem isElevated_iff {subjectId category scope : Str} {now : Int} :
    isElevated (elevations log calls).1 subjectId category scope now = .ok true ↔
      ∃ request a t, ApprovedBy log calls request a t ∧ request.subjectId = subjectId ∧
        request.category = category ∧ (request.scope = wildcard ∨ request.scope = scope) ∧
        t ≤ now ∧ now < t + request.durationSeconds := by
  constructor
  · intro h
    obtain ⟨_, -, h⟩ := bind_eq_ok.1 h
    obtain ⟨_, -, h⟩ := bind_eq_ok.1 h
    obtain ⟨g, hg, hactive⟩ := List.any_eq_true.1 (Except.ok.inj h)
    obtain ⟨request, a, t, happ, rfl⟩ := mem_grants_iff.1 hg
    obtain ⟨hmatch, hopen⟩ := Bool.and_eq_true_iff.1 hactive
    obtain ⟨h1, h2, h3⟩ := of_decide_eq_true hmatch
    obtain ⟨h4, h5⟩ := of_decide_eq_true hopen
    exact ⟨request, a, t, happ, h1, h2, h3, h4, h5⟩
  · rintro ⟨request, a, t, happ, rfl, rfl, hscope, hfrom, hto⟩
    -- the request passed its checks, so the arguments pass theirs
    obtain ⟨pre, post, ip, stamp, -, -, hpre⟩ := happ.happened
    obtain ⟨hsub, hcat, -⟩ := checks_pos
      ((sound_run sound_empty pre).requests _ _ hpre.pending)
    refine bind_eq_ok.2 ⟨(), require_of hsub, bind_eq_ok.2 ⟨(), require_of hcat, ?_⟩⟩
    refine congrArg Except.ok (List.any_eq_true.2 ⟨grantOf request a t,
      mem_grants_iff.2 ⟨request, a, t, happ, rfl⟩, ?_⟩)
    exact Bool.and_eq_true_iff.2 ⟨decide_eq_true ⟨rfl, rfl, hscope⟩, decide_eq_true ⟨hfrom, hto⟩⟩

end History

end ResidualHarness.Iam
