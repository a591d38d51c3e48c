import ResidualHarness.Iam.Jit
import ResidualHarness.Iam.Sessions
import ResidualHarness.Python.WholeFloats

/-!
# Access management as a whole

The elevation manager and the session manager with the event log they share. Both write their own
maps before the log has taken the event, and `approve` pops the request before it looks at the
approver. `access_receipted` says when calls are all or nothing; the bounds on sessions and
elevations need no condition (`access_bounded`).
-/

set_option autoImplicit false

namespace ResidualHarness.Iam

open Python Core

section

variable [FloatModel]

/-- The two managers and their log. -/
structure World where
  jit : JITManager
  sessions : SessionManager
  log : EventLog

/-- New managers with a new log. -/
def World.empty : World := ⟨.empty, .empty, .empty⟩

/-- A call on one of the managers. -/
inductive IamCall where
  | jit (c : JitCall)
  | session (c : SessionCall)

variable (policy : SessionPolicy)

/-- The world after a call. -/
def World.step (w : World) : IamCall → World
  | .jit c =>
      let st := jitStep (w.jit, w.log) c
      { w with jit := st.1, log := st.2 }
  | .session c =>
      let st := sessionStep policy (w.sessions, w.log) c
      { w with sessions := st.1, log := st.2 }

/-- Whether a call returns or raises. -/
def World.result (w : World) : IamCall → Except PyExn Unit
  | .jit (.addApprover a) => (addApprover w.jit a).map fun _ => ()
  | .jit (.requestElevation subjectId category scope reason duration taskId clock token) =>
      (requestElevation w.jit subjectId category scope reason duration taskId clock token).map
        fun _ => ()
  | .jit (.approve requestId approverId sourceIp clock stamp) =>
      (approve w.jit w.log requestId approverId sourceIp clock stamp).1.map fun _ => ()
  | .jit (.deny requestId approverId sourceIp stamp) =>
      (deny w.jit w.log requestId approverId sourceIp stamp).1
  | .session (.create subjectId sourceIp mfaVerified subjectType first second stamp token) =>
      (createSession policy w.sessions w.log subjectId sourceIp mfaVerified subjectType first second
        stamp token).1.map fun _ => ()
  | .session (.validate sessionId sourceIp now) =>
      (validate policy w.sessions sessionId sourceIp now).map fun _ => ()
  | .session (.touch sessionId sourceIp first second) =>
      (touch policy w.sessions sessionId sourceIp first second).map fun _ => ()
  | .session (.revoke sessionId reason stamp) =>
      (revoke w.sessions w.log sessionId reason stamp).1
  | .session (.revokeAll subjectId reason stamps) =>
      (revokeAll w.sessions w.log subjectId reason stamps).1.map fun _ => ()
  | .session (.logout sessionId now stamp) => (logout policy w.sessions w.log sessionId now stamp).1

/-- A run. -/
def World.run (w : World) (calls : List IamCall) : World := calls.foldl (World.step policy) w

/-- The condition on a call, in the state before it. An approval or a denial of a pending request
comes from a designated approver other than the subject, and the log takes the event of what the
call is going to write. Drawn tokens are new. -/
def Orderly (w : World) : IamCall → Prop
  | .jit (.addApprover _) => True
  | .jit (.requestElevation _ _ _ _ _ _ _ token) =>
      lit "jit-" ++ token ∉ w.jit.requests.keys ∧ lit "jit-" ++ token ∉ w.jit.denied
  | .jit (.approve requestId approverId sourceIp clock stamp) =>
      ∀ request, w.jit.requests.get? requestId = some request →
        approverId ∈ w.jit.approvers ∧ approverId ≠ request.subjectId ∧
          (elevationEvent (grantOf request approverId clock) sourceIp stamp).Loggable
  | .jit (.deny requestId approverId sourceIp stamp) =>
      ∀ request, w.jit.requests.get? requestId = some request →
        approverId ∈ w.jit.approvers ∧ approverId ≠ request.subjectId ∧
          (refusalEvent "jit_denied" request approverId sourceIp stamp).Loggable
  | .session (.create subjectId sourceIp mfaVerified subjectType first second stamp token) =>
      lit "sess-" ++ token ∉ w.sessions.sessions.keys ∧
        (createChecks policy subjectId sourceIp = .ok true →
          (activeFor policy w.sessions subjectId first).length < policy.maxConcurrent →
          (loginEvent (newSession subjectId sourceIp mfaVerified subjectType second token)
            stamp).Loggable)
  | .session (.revoke sessionId reason stamp) =>
      ∀ s, w.sessions.sessions.get? sessionId = some s → isBlank reason = false →
        (revocationEvent s sessionId reason stamp).Loggable
  | .session (.logout sessionId now stamp) =>
      ∀ s, validate policy w.sessions sessionId none now = .ok s →
        (logoutEvent s sessionId stamp).Loggable
  | .session (.revokeAll _ _ _) => False
  | .session _ => True

/-- Every call of the run meets the condition. -/
def AllOrderly (w : World) : List IamCall → Prop
  | [] => True
  | c :: cs => Orderly policy w c ∧ AllOrderly (w.step policy c) cs

/-! ## Observations of grants and sessions -/

/-- The subjects and details of the elevations in a log. -/
def loggedElevations (log : EventLog) : List (Str × Fields) :=
  (log.observations.filter fun o => decide (o.eventType = .elevation)).map fun o =>
    (o.subjectId, o.details)

/-- The logins in a log that name this session. -/
def loggedLogins (log : EventLog) (id : Str) : List Observation :=
  log.observations.filter fun o => decide (o.eventType = .login ∧
    Dict.get? o.details (lit "session_id") = some (.str id))

/-- The elevations in the log are those of the grants, one each and in their order; a stored session
has one login in the log; and the log verifies, with a receipt for every observation. -/
structure Receipted (w : World) : Prop where
  elevations : loggedElevations w.log =
    w.jit.grants.map fun g => (g.request.subjectId, elevationDetails g)
  logins : ∀ id s, w.sessions.sessions.get? id = some s →
    ∃ stamp, loggedLogins w.log id = [loginEvent s stamp]
  chain : w.log.verifyChain = .ok true
  receipts : w.log.receipts.length = w.log.observations.length

/-- What the runs keep. -/
structure Kept (w : World) : Prop where
  jit : w.jit.Sound
  pending : ∀ id r, w.jit.requests.get? id = some r → id ∉ w.jit.denied
  keyed : Keyed w.sessions
  chained : Chained w.log
  elevations : loggedElevations w.log =
    w.jit.grants.map fun g => (g.request.subjectId, elevationDetails g)
  logins : ∀ id s, w.sessions.sessions.get? id = some s →
    ∃ stamp, loggedLogins w.log id = [loginEvent s stamp]
  noLogins : ∀ id, id ∉ w.sessions.sessions.keys → loggedLogins w.log id = []

variable {policy}

theorem Kept.receipted {w : World} (h : Kept w) : Receipted w := by
  refine ⟨h.elevations, h.logins, verifyChain_of_chained h.chained, ?_⟩
  rw [h.chained.receipts, length_receiptsFrom]

theorem kept_empty : Kept World.empty where
  jit := sound_empty
  pending := fun _ _ h => nomatch h
  keyed := keyed_empty
  chained := chained_empty
  elevations := rfl
  logins := fun _ _ h => nomatch h
  noLogins := fun _ _ => rfl

theorem loggedElevations_snoc {log log' : EventLog} {o : Observation}
    (h : log'.observations = log.observations ++ [o]) :
    loggedElevations log' = loggedElevations log ++
      if o.eventType = .elevation then [(o.subjectId, o.details)] else [] := by
  rw [loggedElevations, h, List.filter_append, List.map_append, loggedElevations]
  congr 1
  by_cases ho : o.eventType = .elevation
  · simp [ho]
  · simp [ho]

theorem loggedLogins_snoc {log log' : EventLog} {o : Observation}
    (h : log'.observations = log.observations ++ [o]) (id : Str) :
    loggedLogins log' id = loggedLogins log id ++
      if o.eventType = .login ∧ Dict.get? o.details (lit "session_id") = some (.str id) then [o]
      else [] := by
  rw [loggedLogins, h, List.filter_append, loggedLogins]
  congr 1
  rw [List.filter_cons, List.filter_nil]
  simp only [decide_eq_true_eq]

/-- An event that is neither an elevation nor a login. -/
theorem Kept.log {w : World} (h : Kept w) {log' : EventLog} {o : Observation}
    (hrec : w.log.record o = .ok log') (he : o.eventType ≠ .elevation) (hl : o.eventType ≠ .login) :
    Kept { w with log := log' } := by
  obtain ⟨hchain, hobs⟩ := h.chained.record hrec
  refine ⟨h.jit, h.pending, h.keyed, hchain, ?_, ?_, ?_⟩
  · rw [loggedElevations_snoc hobs, if_neg he, List.append_nil]
    exact h.elevations
  · intro id s hs
    obtain ⟨stamp, hlog⟩ := h.logins id s hs
    refine ⟨stamp, ?_⟩
    rw [loggedLogins_snoc hobs, if_neg fun hc => hl hc.1, List.append_nil]
    exact hlog
  · intro id hid
    rw [loggedLogins_snoc hobs, if_neg fun hc => hl hc.1, List.append_nil]
    exact h.noLogins id hid

/-! ## One call -/

/-- The call keeps the invariant, and if it raises it leaves both managers as they were. -/
def Clean (policy : SessionPolicy) (w : World) (c : IamCall) : Prop :=
  Kept (w.step policy c) ∧ ∀ x, w.result policy c = .error x →
    (w.step policy c).jit = w.jit ∧ (w.step policy c).sessions = w.sessions

theorem clean_addApprover {w : World} (h : Kept w) (a : Str) :
    Clean policy w (.jit (.addApprover a)) := by
  simp only [Clean, World.step, World.result, jitStep]
  cases hadd : addApprover w.jit a with
  | error x => exact ⟨h, fun _ _ => by simp⟩
  | ok j =>
      obtain ⟨_, hid, hret⟩ := bind_eq_ok.1 hadd
      cases hret
      refine ⟨⟨⟨h.jit.requests, ?_⟩, h.pending, h.keyed, h.chained, h.elevations, h.logins, h.noLogins⟩,
        fun x hx => by cases hx⟩
      intro b hb
      rcases List.mem_cons.1 hb with rfl | hb
      · exact require_eq_ok.1 hid
      · exact h.jit.approvers b hb

theorem clean_requestElevation {w : World} (h : Kept w) {subject category scope reason : Str}
    {duration : Int} {taskId : Option Str} {clock : Int} {token : Str}
    (hopen : lit "jit-" ++ token ∉ w.jit.denied) :
    Clean policy w (.jit (.requestElevation subject category scope reason duration taskId clock
      token)) := by
  simp only [Clean, World.step, World.result, jitStep]
  cases hreq : requestElevation w.jit subject category scope reason duration taskId clock token with
  | error x => exact ⟨h, fun _ _ => by simp⟩
  | ok rj =>
      obtain ⟨r, j⟩ := rj
      obtain ⟨-, hchecks, rfl⟩ := requestElevation_ok hreq
      refine ⟨⟨⟨?_, h.jit.approvers⟩, ?_, h.keyed, h.chained, h.elevations, h.logins, h.noLogins⟩,
        fun x hx => by cases hx⟩
      · intro id r' hr'
        rw [Dict.get?_set] at hr'
        split at hr'
        · cases hr'
          exact hchecks
        · exact h.jit.requests id r' hr'
      · intro id r' hr'
        rw [Dict.get?_set] at hr'
        split at hr'
        · rename_i hid
          rw [hid]
          exact hopen
        · exact h.pending id r' hr'

theorem clean_approve {w : World} (h : Kept w) {requestId a ip : Str} {clock stamp : Int}
    (hc : Orderly policy w (.jit (.approve requestId a ip clock stamp))) :
    Clean policy w (.jit (.approve requestId a ip clock stamp)) := by
  simp only [Clean, World.step, World.result, jitStep]
  cases hreq : w.jit.requests.get? requestId with
  | none =>
      obtain ⟨x, hx⟩ := approve_of_unknown w.log a ip clock stamp hreq
      rw [hx]
      exact ⟨h, fun _ _ => by simp⟩
  | some request =>
      obtain ⟨hdes, hother, hlog⟩ := hc request hreq
      have happ : Approvable w.jit requestId a request :=
        ⟨hreq, h.pending _ _ hreq, hdes, hother⟩
      obtain ⟨log', hrec⟩ := h.chained.record_loggable hlog
      rw [approve_of_approvable h.jit happ]
      simp only [hrec]
      obtain ⟨hchain, hobs⟩ := h.chained.record hrec
      have hkind : (elevationEvent (grantOf request a clock) ip stamp).eventType = .elevation := rfl
      have hnl : ∀ id, ¬ ((elevationEvent (grantOf request a clock) ip stamp).eventType = .login ∧
          Dict.get? (elevationEvent (grantOf request a clock) ip stamp).details (lit "session_id") =
            some (.str id)) := fun id hc => by cases hc.1
      refine ⟨⟨⟨fun id r hr => h.jit.requests id r (get?_of_get?_pop hr), h.jit.approvers⟩,
        fun id r hr => h.pending id r (get?_of_get?_pop hr), h.keyed, hchain, ?_, ?_, ?_⟩,
        fun x hx => by cases hx⟩
      · show loggedElevations log' = (w.jit.grants ++ [grantOf request a clock]).map _
        rw [loggedElevations_snoc hobs, if_pos hkind, h.elevations, List.map_append]
        rfl
      · intro id s hs
        obtain ⟨st, hst⟩ := h.logins id s hs
        refine ⟨st, ?_⟩
        rw [loggedLogins_snoc hobs, if_neg (hnl id), List.append_nil]
        exact hst
      · intro id hid
        rw [loggedLogins_snoc hobs, if_neg (hnl id), List.append_nil]
        exact h.noLogins id hid

theorem clean_deny {w : World} (h : Kept w) {requestId a ip : Str} {stamp : Int}
    (hc : Orderly policy w (.jit (.deny requestId a ip stamp))) :
    Clean policy w (.jit (.deny requestId a ip stamp)) := by
  simp only [Clean, World.step, World.result, jitStep]
  rcases deny_cases w.jit w.log requestId a ip stamp with ⟨x, hx⟩ | ⟨request, hreq, -, heq⟩
  · rw [hx]
    exact ⟨h, fun _ _ => by simp⟩
  · obtain ⟨log', hrec⟩ := h.chained.record_loggable (hc request hreq).2.2
    have hk := h.log hrec (fun hk => by cases hk) (fun hk => by cases hk)
    rw [heq]
    simp only [hrec]
    refine ⟨⟨⟨fun id r hr => h.jit.requests id r (get?_of_get?_pop hr), h.jit.approvers⟩, ?_, hk.keyed,
      hk.chained, hk.elevations, hk.logins, hk.noLogins⟩, fun x hx => by cases hx⟩
    -- the denied request is no longer pending
    intro id r hr
    rw [Dict.get?_pop] at hr
    split at hr
    · cases hr
    · rename_i hne
      rw [List.mem_cons, not_or]
      exact ⟨hne, h.pending id r hr⟩

theorem clean_create {w : World} (h : Kept w) {subject ip : Str} {mfa : Bool} {type : Str}
    {first second stamp : Int} {token : Str}
    (hc : Orderly policy w (.session (.create subject ip mfa type first second stamp token))) :
    Clean policy w (.session (.create subject ip mfa type first second stamp token)) := by
  simp only [Clean, World.step, World.result, sessionStep]
  rcases createSession_full w.sessions w.log subject ip mfa type first second stamp token with
    ⟨x, log', heq, hlog⟩ | ⟨hok, hroom, -, heq⟩
  · rw [heq]
    refine ⟨?_, fun _ _ => by simp⟩
    rcases hlog with rfl | ⟨kind, hrec⟩
    · exact h
    · exact h.log hrec (fun hk => by cases hk) (fun hk => by cases hk)
  · obtain ⟨hnew, hloggable⟩ := hc
    obtain ⟨log', hrec⟩ := h.chained.record_loggable (hloggable hok hroom)
    obtain ⟨hchain, hobs⟩ := h.chained.record hrec
    rw [heq]
    simp only [hrec]
    refine ⟨⟨h.jit, h.pending, ⟨Dict.nodup_set h.keyed.nodup _ _, ?_⟩, hchain, ?_, ?_, ?_⟩,
      fun x hx => by cases hx⟩
    · intro id s hs
      rw [Dict.get?_set] at hs
      split at hs
      · rename_i hid
        cases hs
        exact hid.symm
      · exact h.keyed.own id s hs
    · rw [loggedElevations_snoc hobs, if_neg (fun hk => by cases hk), List.append_nil]
      exact h.elevations
    · intro id s hs
      rw [Dict.get?_set] at hs
      split at hs
      · rename_i hid
        cases hs
        refine ⟨stamp, ?_⟩
        rw [loggedLogins_snoc hobs, hid, h.noLogins _ hnew, if_pos ⟨rfl, rfl⟩, List.nil_append]
      · rename_i hid
        obtain ⟨st, hst⟩ := h.logins id s hs
        refine ⟨st, ?_⟩
        rw [loggedLogins_snoc hobs, if_neg ?_, List.append_nil]
        · exact hst
        · rintro ⟨-, hname⟩
          exact hid (Json.str.inj (Option.some.inj hname)).symm
    · intro id hid
      rw [Dict.mem_keys_set, not_or] at hid
      rw [loggedLogins_snoc hobs, if_neg ?_, List.append_nil]
      · exact h.noLogins id hid.2
      · rintro ⟨-, hname⟩
        exact hid.1 (Json.str.inj (Option.some.inj hname)).symm

theorem clean_touch {w : World} (h : Kept w) {id : Str} {ip : Option Str} {first second : Int} :
    Clean policy w (.session (.touch id ip first second)) := by
  simp only [Clean, World.step, World.result, sessionStep]
  cases ht : touch policy w.sessions id ip first second with
  | error x => exact ⟨h, fun _ _ => by simp⟩
  | ok rm =>
      obtain ⟨r, m'⟩ := rm
      obtain ⟨s, hv, horder, rfl⟩ := touch_ok ht
      obtain ⟨hs, -⟩ := validate_ok hv
      refine ⟨⟨h.jit, h.pending, keyed_effect h.keyed (.touched hv horder), h.chained, h.elevations,
        ?_, ?_⟩, fun x hx => by cases hx⟩
      · intro id' s' hs'
        rw [Dict.get?_set] at hs'
        split at hs'
        · rename_i hid
          cases hs'
          rw [hid]
          exact h.logins id s hs
        · exact h.logins id' s' hs'
      · intro id' hid'
        exact h.noLogins id' fun hmem => hid' (Dict.mem_keys_set.2 (.inr hmem))

/-- More revocations leave the observations of the sessions. -/
theorem Kept.revoked {w : World} (h : Kept w) (ids : List Str) :
    Kept { w with sessions := { w.sessions with revoked := ids } } :=
  ⟨h.jit, h.pending, ⟨h.keyed.nodup, h.keyed.own⟩, h.chained, h.elevations, h.logins, h.noLogins⟩

theorem clean_revoke {w : World} (h : Kept w) {id reason : Str} {stamp : Int}
    (hc : Orderly policy w (.session (.revoke id reason stamp))) :
    Clean policy w (.session (.revoke id reason stamp)) := by
  simp only [Clean, World.step, World.result, sessionStep]
  rcases revoke_cases w.sessions w.log id reason stamp with ⟨x, hx⟩ | ⟨s, hs, hreason, heq⟩
  · rw [hx]
    exact ⟨h, fun _ _ => by simp⟩
  · obtain ⟨log', hrec⟩ := h.chained.record_loggable (hc s hs hreason)
    rw [heq]
    simp only [hrec]
    exact ⟨(h.log hrec (fun hk => by cases hk) (fun hk => by cases hk)).revoked _,
      fun x hx => by cases hx⟩

theorem clean_logout {w : World} (h : Kept w) {id : Str} {now stamp : Int}
    (hc : Orderly policy w (.session (.logout id now stamp))) :
    Clean policy w (.session (.logout id now stamp)) := by
  simp only [Clean, World.step, World.result, sessionStep, logout]
  cases hv : validate policy w.sessions id none now with
  | error x => exact ⟨h, fun _ _ => by simp⟩
  | ok s =>
      obtain ⟨log', hrec⟩ := h.chained.record_loggable (hc s hv)
      simp only [hrec]
      exact ⟨(h.log hrec (fun hk => by cases hk) (fun hk => by cases hk)).revoked _,
        fun x hx => by cases hx⟩

theorem clean_of_orderly {w : World} (h : Kept w) {c : IamCall} (hc : Orderly policy w c) :
    Clean policy w c := by
  cases c with
  | jit c =>
      cases c with
      | addApprover a => exact clean_addApprover h a
      | requestElevation subject category scope reason duration taskId clock token =>
          exact clean_requestElevation h hc.2
      | approve requestId a ip clock stamp => exact clean_approve h hc
      | deny requestId a ip stamp => exact clean_deny h hc
  | session c =>
      cases c with
      | create subject ip mfa type first second stamp token => exact clean_create h hc
      | validate id ip now => exact ⟨h, fun _ _ => ⟨rfl, rfl⟩⟩
      | touch id ip first second => exact clean_touch h
      | revoke id reason stamp => exact clean_revoke h hc
      | revokeAll subject reason stamps => exact hc.elim
      | logout id now stamp => exact clean_logout h hc

theorem kept_run {w : World} (h : Kept w) {calls : List IamCall} (hc : AllOrderly policy w calls) :
    Kept (w.run policy calls) := by
  induction calls generalizing w with
  | nil => exact h
  | cons c cs ih => exact ih (clean_of_orderly h hc.1).1 hc.2

theorem allOrderly_append {w : World} {pre post : List IamCall}
    (h : AllOrderly policy w (pre ++ post)) :
    AllOrderly policy w pre ∧ AllOrderly policy (w.run policy pre) post := by
  induction pre generalizing w with
  | nil => exact ⟨trivial, h⟩
  | cons c cs ih =>
      obtain ⟨h1, h2⟩ := ih h.2
      exact ⟨⟨h.1, h1⟩, h2⟩

/-- The call approves or denies this request for this approver. -/
def Decides (c : IamCall) (requestId approverId : Str) : Prop :=
  (∃ sourceIp clock stamp, c = .jit (.approve requestId approverId sourceIp clock stamp)) ∨
    ∃ sourceIp stamp, c = .jit (.deny requestId approverId sourceIp stamp)

/-- An approval or a denial that returns found a pending request. -/
theorem Decides.pending {w : World} {c : IamCall} {requestId a : Str} (h : Decides c requestId a)
    (hok : w.result policy c = .ok ()) : ∃ request, w.jit.requests.get? requestId = some request := by
  cases hreq : w.jit.requests.get? requestId with
  | some request => exact ⟨request, rfl⟩
  | none =>
      rcases h with ⟨ip, clock, stamp, rfl⟩ | ⟨ip, stamp, rfl⟩
      · obtain ⟨x, hx⟩ := approve_of_unknown w.log a ip clock stamp hreq
        rw [World.result, hx] at hok
        cases hok
      · rw [World.result] at hok
        rcases deny_cases w.jit w.log requestId a ip stamp with ⟨x, hx⟩ | ⟨r, hr, -⟩
        · rw [hx] at hok
          cases hok
        · rw [hr] at hreq
          cases hreq

/-- In a run of orderly calls: every grant and every stored session has exactly its observation and
the log verifies; a call that raises leaves pending requests, grants, denials, sessions and
revocations as they were; and only a designated approver other than the subject approves or denies.
The first part holds in every state of the run, since a beginning of the run is a run. -/
theorem access_receipted (policy : SessionPolicy) (calls : List IamCall)
    (hc : AllOrderly policy World.empty calls) :
    Receipted (World.empty.run policy calls) ∧
    ∀ pre c post, calls = pre ++ c :: post →
      (∀ x, (World.empty.run policy pre).result policy c = .error x →
        ((World.empty.run policy pre).step policy c).jit = (World.empty.run policy pre).jit ∧
        ((World.empty.run policy pre).step policy c).sessions =
          (World.empty.run policy pre).sessions) ∧
      ∀ requestId a, Decides c requestId a →
        (World.empty.run policy pre).result policy c = .ok () →
        ∃ request, (World.empty.run policy pre).jit.requests.get? requestId = some request ∧
          a ∈ (World.empty.run policy pre).jit.approvers ∧ a ≠ request.subjectId := by
  refine ⟨(kept_run kept_empty hc).receipted, ?_⟩
  rintro pre c post rfl
  obtain ⟨hpre, hfirst, -⟩ := allOrderly_append hc
  refine ⟨(clean_of_orderly (kept_run kept_empty hpre) hfirst).2, ?_⟩
  intro requestId a hdec hok
  obtain ⟨request, hreq⟩ := hdec.pending hok
  refine ⟨request, hreq, ?_⟩
  rcases hdec with ⟨ip, clock, stamp, rfl⟩ | ⟨ip, stamp, rfl⟩
  · exact ⟨(hfirst request hreq).1, (hfirst request hreq).2.1⟩
  · exact ⟨(hfirst request hreq).1, (hfirst request hreq).2.1⟩

/-- Bounds that hold whatever the log takes. Over a run of a session manager with a clock that does
not go back and new tokens: no subject has more validating sessions than the policy allows; a session
that was revoked, logged out or found expired never validates again; and none validates past its two
limits. Over a run of an elevation manager: a subject is elevated exactly in the windows of the
approvals of its requests by designated approvers other than itself. -/
theorem access_bounded (policy : SessionPolicy) (log : EventLog) (t₀ : Int)
    (calls : List SessionCall) (hfresh : FreshTokens policy (fresh log) calls)
    (htick : Ticking t₀ calls) (jitLog : EventLog) (jitCalls : List JitCall) :
    (∀ subject now, clockAfter t₀ calls ≤ now →
      (validating policy (sessionRun policy (fresh log) calls).1 subject now).length ≤
        policy.maxConcurrent) ∧
    (∀ pre c post id now ip s, calls = pre ++ c :: post →
      Ends policy (sessionRun policy (fresh log) pre) c id → clockAfter t₀ calls ≤ now →
        validate policy (sessionRun policy (fresh log) calls).1 id ip now ≠ .ok s) ∧
    (∀ pre c post id t now ip s, calls = pre ++ c :: post →
      validate policy (sessionRun policy (fresh log) calls).1 id ip now = .ok s →
        (Creates policy (sessionRun policy (fresh log) pre) c id t → now < t + policy.sessionTimeout) ∧
        (Creates policy (sessionRun policy (fresh log) pre) c id t ∨
            Touches policy (sessionRun policy (fresh log) pre) c id t →
          Untouched policy id (sessionStep policy (sessionRun policy (fresh log) pre) c) post →
            now < t + policy.idleTimeout)) ∧
    ∀ subject category scope now,
      isElevated (elevations jitLog jitCalls).1 subject category scope now = .ok true ↔
        ∃ request a t, ApprovedBy jitLog jitCalls request a t ∧ request.subjectId = subject ∧
          request.category = category ∧ (request.scope = wildcard ∨ request.scope = scope) ∧
          t ≤ now ∧ now < t + request.durationSeconds := by
  refine ⟨?_, ?_, ?_, ?_⟩
  · intro subject now hnow
    exact validating_le hfresh htick subject hnow
  · intro pre c post id now ip s hcalls hends hnow
    exact ended_stays hfresh htick hcalls hends hnow ip s
  · intro pre c post id t now ip s hcalls hv
    refine ⟨fun hcreate => validate_lt_session hfresh hcalls hcreate hv, ?_⟩
    intro hactive hun
    exact validate_lt_idle hfresh hcalls hactive hun hv
  · intro subject category scope now
    exact isElevated_iff

end

/-! ## Concrete runs -/

section Concrete

attribute [local instance] wholeFloats

/-- The default policy. -/
def samplePolicy : SessionPolicy where
  sessionTimeout := 8 * 3600
  idleTimeout := 30 * 60
  maxConcurrent := 3
  allowedNetworks := []
  positive := by decide
  idle_le := by decide

/-- `alice` asks for elevation, with `bob` as the designated approver. -/
def sampleRequestCalls : List IamCall :=
  [.jit (.addApprover (lit "bob")),
    .jit (.requestElevation (lit "alice") (lit "task_type") (lit "*") (lit "deploy") 60 none 1
      (lit "00ff"))]

/-- The approval of the request from an address. -/
def sampleApprove (sourceIp : String) : IamCall :=
  .jit (.approve (lit "jit-00ff") (lit "bob") (lit sourceIp) 5 5)

/-- An approval from what is no address raises, and yet the grant is there, with no observation of
it; an approval by someone else raises and takes the request away; a denial by someone else returns. -/
theorem failed_approval_grants :
    ((World.empty.run samplePolicy sampleRequestCalls).result samplePolicy (sampleApprove "nowhere") =
        .error (contractError "invalid source IP address") ∧
      (World.empty.run samplePolicy sampleRequestCalls).jit.grants.length = 0 ∧
      ((World.empty.run samplePolicy sampleRequestCalls).step samplePolicy
        (sampleApprove "nowhere")).jit.grants.length = 1 ∧
      loggedElevations ((World.empty.run samplePolicy sampleRequestCalls).step samplePolicy
        (sampleApprove "nowhere")).log = []) ∧
    ((World.empty.run samplePolicy sampleRequestCalls).result samplePolicy
        (.jit (.approve (lit "jit-00ff") (lit "eve") (lit "10.0.0.1") 5 5)) =
        .error (contractError "approver is not designated for JIT pre-authorization") ∧
      (World.empty.run samplePolicy sampleRequestCalls).jit.requests.keys = [lit "jit-00ff"] ∧
      ((World.empty.run samplePolicy sampleRequestCalls).step samplePolicy
        (.jit (.approve (lit "jit-00ff") (lit "eve") (lit "10.0.0.1") 5 5))).jit.requests.keys = []) ∧
    (World.empty.run samplePolicy sampleRequestCalls).result samplePolicy
        (.jit (.deny (lit "jit-00ff") (lit "eve") (lit "10.0.0.1") 5)) = .ok () ∧
      lit "eve" ∉ (World.empty.run samplePolicy sampleRequestCalls).jit.approvers := by
  decide +kernel

/-- The request is approved from an address, and `alice` logs in. -/
def sampleCallsOrderly : List IamCall :=
  sampleRequestCalls ++ [sampleApprove "10.0.0.1",
    .session (.create (lit "alice") (lit "10.0.0.1") true (lit "human") 6 6 6 (lit "aa"))]

/-- The request of the sample. -/
def sampleRequest : ElevationRequest :=
  ⟨lit "jit-00ff", lit "alice", lit "task_type", lit "*", lit "deploy", 60, 1, none⟩

theorem sampleCallsOrderly_orderly : AllOrderly samplePolicy World.empty sampleCallsOrderly := by
  refine ⟨trivial, ⟨by decide, by decide⟩, ?_, ⟨by decide, ?_⟩, trivial⟩
  · intro request hreq
    have hsample : (World.empty.run samplePolicy sampleRequestCalls).jit.requests.get?
        (lit "jit-00ff") = some sampleRequest := by
      rfl
    cases hreq.symm.trans hsample
    exact ⟨by decide, by decide, by decide⟩
  · intro _ _
    decide

/-- The run of the sample has one grant and one session, each with its observation. -/
theorem access_receipted_sample :
    (World.empty.run samplePolicy sampleCallsOrderly).jit.grants.length = 1 ∧
      (World.empty.run samplePolicy sampleCallsOrderly).sessions.sessions.keys = [lit "sess-aa"] ∧
      Receipted (World.empty.run samplePolicy sampleCallsOrderly) :=
  ⟨by decide +kernel, by decide +kernel,
    (access_receipted samplePolicy sampleCallsOrderly sampleCallsOrderly_orderly).1⟩

/-- A login, a touch, a second login and a logout of the first session. -/
def sampleSessionCalls : List SessionCall :=
  [.create (lit "alice") (lit "10.0.0.1") true (lit "human") 1 1 1 (lit "aa"),
    .touch (lit "sess-aa") none 5 6,
    .create (lit "alice") (lit "10.0.0.2") false (lit "human") 7 7 7 (lit "ab"),
    .logout (lit "sess-aa") 9 9]

/-- The elevation of the sample. -/
def sampleJitCalls : List JitCall :=
  [.addApprover (lit "bob"), sampleRequest.call (lit "00ff"),
    .approve (lit "jit-00ff") (lit "bob") (lit "10.0.0.1") 5 5]

/-- The bounds at the sample: one session is left, the other does not validate, and `alice` is
elevated for a minute. -/
theorem access_bounded_sample :
    (validating samplePolicy (sessionRun samplePolicy (fresh .empty) sampleSessionCalls).1
      (lit "alice") 9).length ≤ samplePolicy.maxConcurrent ∧
    validating samplePolicy (sessionRun samplePolicy (fresh .empty) sampleSessionCalls).1
      (lit "alice") 9 = [lit "sess-ab"] ∧
    (isElevated (elevations .empty sampleJitCalls).1 (lit "alice") (lit "task_type") (lit "db") 64 =
        .ok true ↔
      ∃ request a t, ApprovedBy .empty sampleJitCalls request a t ∧ request.subjectId = lit "alice" ∧
        request.category = lit "task_type" ∧
        (request.scope = wildcard ∨ request.scope = lit "db") ∧ t ≤ 64 ∧
        64 < t + request.durationSeconds) := by
  have hfresh : FreshTokens samplePolicy (fresh .empty) sampleSessionCalls := by
    refine ⟨?_, trivial, ?_, trivial, trivial⟩
    · show lit "sess-" ++ lit "aa" ∉ _
      decide
    · show lit "sess-" ++ lit "ab" ∉ _
      decide +kernel
  have htick : Ticking 0 sampleSessionCalls := by
    refine ⟨by decide, by decide, by decide, by decide, trivial⟩
  obtain ⟨h1, -, -, h4⟩ := access_bounded samplePolicy .empty 0 sampleSessionCalls hfresh htick .empty
    sampleJitCalls
  exact ⟨h1 (lit "alice") 9 (by decide), by decide +kernel, h4 _ _ _ _⟩

end Concrete

end ResidualHarness.Iam
