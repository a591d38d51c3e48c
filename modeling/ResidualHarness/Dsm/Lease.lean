import ResidualHarness.Dsm.Delivery

/-!
# Leases

`residual/dsm/lease.py`: the lease manager with its two maps, the active leases and the current
fencing tokens. An active lease always carries the current token of its resource (`Fenced`), so that
a token that passes `check` is the greatest one ever issued. The laws of `lease_fencing` follow from
this.
-/

set_option autoImplicit false

namespace ResidualHarness.Dsm

open Python Core

variable [FloatModel]

/-! ## Dictionaries -/

/-- `d.get(key)`. -/
def getKey {α : Type} (d : List (Json × α)) (key : Json) : Option α :=
  (d.find? fun kv => kv.1.Same key).map Prod.snd

/-- `del d[key]` of a key that is there. -/
def delKey {α : Type} (d : List (Json × α)) (key : Json) : List (Json × α) :=
  d.filter fun kv => ¬ kv.1.Same key

theorem lookupKey_eq_ok {α : Type} {d : List (Json × α)} {key : Json} {v : Option α}
    (h : lookupKey d key = .ok v) : v = getKey d key := by
  rw [lookupKey] at h
  split at h
  · exact (Except.ok.inj h).symm
  · cases h

theorem getKey_congr {α : Type} {k l : Json} (h : k.Same l) (d : List (Json × α)) :
    getKey d k = getKey d l := by
  have hp : (fun kv : Json × α => decide (kv.1.Same k)) = fun kv => decide (kv.1.Same l) := by
    funext kv
    exact decide_eq_decide.2 ⟨fun hk => hk.trans h, fun hl => hl.trans h.symm⟩
  rw [getKey, getKey, hp]

theorem getKey_cons {α : Type} (kv : Json × α) (d : List (Json × α)) (k : Json) :
    getKey (kv :: d) k = if kv.1.Same k then some kv.2 else getKey d k := by
  rw [getKey, List.find?_cons]
  by_cases hk : kv.1.Same k
  · simp [hk]
  · simp [hk, getKey]

theorem getKey_replace {α : Type} (d : List (Json × α)) (key : Json) (value : α) (k : Json) :
    getKey (d.map fun kv => if kv.1.Same key then (kv.1, value) else kv) k =
      if key.Same k then (getKey d k).map fun _ => value else getKey d k := by
  induction d with
  | nil => simp [getKey]
  | cons kv d ih =>
      rw [List.map_cons, getKey_cons, getKey_cons, ih]
      by_cases hkey : kv.1.Same key
      · by_cases hk : key.Same k
        · simp [hkey, hk, hkey.trans hk]
        · have hne : ¬ kv.1.Same k := fun h => hk (hkey.symm.trans h)
          simp [hkey, hk, hne]
      · by_cases hk : key.Same k
        · have hne : ¬ kv.1.Same k := fun h => hkey (h.trans hk.symm)
          simp [hkey, hk, hne]
        · simp [hkey, hk]

theorem getKey_append {α : Type} (d : List (Json × α)) (kv : Json × α) (k : Json) :
    getKey (d ++ [kv]) k = (getKey d k).or (if kv.1.Same k then some kv.2 else none) := by
  induction d with
  | nil => rw [List.nil_append, getKey_cons]; rfl
  | cons kw d ih =>
      rw [List.cons_append, getKey_cons, getKey_cons, ih]
      split
      · rfl
      · rfl

theorem getKey_isSome {α : Type} (d : List (Json × α)) (k : Json) :
    (getKey d k).isSome = d.any fun kv => kv.1.Same k := by
  rw [getKey, Option.isSome_map, List.isSome_find?]

/-- An assignment is seen under its own key and under no other. -/
theorem getKey_setKey {α : Type} {d d' : List (Json × α)} {key : Json} {value : α}
    (h : setKey d key value = .ok d') (k : Json) :
    getKey d' k = if key.Same k then some value else getKey d k := by
  rw [setKey, ← getKey_isSome] at h
  split at h
  case isFalse => cases h
  split at h
  case isTrue hany =>
    cases h
    rw [getKey_replace]
    split
    · rename_i hk
      rw [getKey_congr hk] at hany
      obtain ⟨w, hw⟩ := Option.isSome_iff_exists.1 hany
      rw [hw, Option.map_some]
    · rfl
  case isFalse hnone =>
    cases h
    rw [getKey_append]
    split
    · rename_i hk
      rw [getKey_congr hk, Option.not_isSome_iff_eq_none] at hnone
      rw [hnone, Option.none_or]
    · rw [Option.or_none]

theorem getKey_delKey {α : Type} (d : List (Json × α)) (key k : Json) :
    getKey (delKey d key) k = if key.Same k then none else getKey d k := by
  induction d with
  | nil => simp [delKey, getKey]
  | cons kv d ih =>
      rw [getKey_cons]
      by_cases hkey : kv.1.Same key
      · rw [delKey, List.filter_cons_of_neg (by simpa using hkey), ← delKey, ih]
        by_cases hk : key.Same k
        · rw [if_pos hk, if_pos hk]
        · have hne : ¬ kv.1.Same k := fun h => hk (hkey.symm.trans h)
          rw [if_neg hk, if_neg hk, if_neg hne]
      · rw [delKey, List.filter_cons_of_pos (by simpa using hkey), ← delKey, getKey_cons, ih]
        by_cases hk : key.Same k
        · have hne : ¬ kv.1.Same k := fun h => hkey (h.trans hk.symm)
          rw [if_neg hne, if_pos hk, if_pos hk]
        · rw [if_neg hk, if_neg hk]

/-! ## The manager -/

/-- `LeaseManager()`. -/
def LeaseManager.empty : LeaseManager := ⟨[], []⟩

/-- What `acquire` and `renew` return. -/
structure Grant where
  resource : Json
  holder : Json
  token : Int
  expiresAtMs : Int

/-- The two assignments with which `acquire` and `renew` end. -/
def LeaseManager.grant (m : LeaseManager) (resource holder : Json) (token ttlMs nowMs : Int) :
    Except PyExn (LeaseManager × Grant) := do
  let tokens ← setKey m.tokens resource token
  let leases ← setKey m.leases resource ⟨holder, nowMs + ttlMs, token⟩
  return (⟨leases, tokens⟩, ⟨resource, holder, token, nowMs + ttlMs⟩)

/-- The resource is leased to another holder. -/
def Lease.blocks (lease : Option Lease) (holder : Json) (nowMs : Int) : Prop :=
  ∃ l, lease = some l ∧ ¬ l.holder.Same holder ∧ nowMs < l.expiry

instance (lease : Option Lease) (holder : Json) (nowMs : Int) :
    Decidable (Lease.blocks lease holder nowMs) :=
  match lease with
  | none => isFalse nofun
  | some l => decidable_of_iff (¬ l.holder.Same holder ∧ nowMs < l.expiry)
      ⟨fun h => ⟨l, rfl, h⟩, fun ⟨_, he, h⟩ => Option.some.inj he ▸ h⟩

/-- `LeaseManager.acquire(resource, holder, ttl_ms, now_ms)`. -/
def LeaseManager.acquire (m : LeaseManager) (resource holder : Json) (ttlMs nowMs : Int) :
    Except PyExn (LeaseManager × Grant) := do
  let lease ← lookupKey m.leases resource
  require (¬ Lease.blocks lease holder nowMs) (fencingError "resource is leased")
  let current := (← lookupKey m.tokens resource).getD 0
  m.grant resource holder (current + 1) ttlMs nowMs

/-- `self._tokens[resource]`. -/
def LeaseManager.tokenAt (m : LeaseManager) (resource : Json) : Except PyExn Int := do
  match ← lookupKey m.tokens resource with
  | some token => return token
  | none => throw .keyError

/-- `LeaseManager.renew(resource, holder, fencing_token, ttl_ms, now_ms)`. -/
def LeaseManager.renew (m : LeaseManager) (resource holder fencingToken : Json)
    (ttlMs nowMs : Int) : Except PyExn (LeaseManager × Grant) := do
  m.check resource holder fencingToken (.int nowMs)
  let current ← m.tokenAt resource
  m.grant resource holder (current + 1) ttlMs nowMs

/-- `LeaseManager.release(resource, holder, fencing_token)`. -/
def LeaseManager.release (m : LeaseManager) (resource holder fencingToken : Json) :
    Except PyExn LeaseManager := do
  match ← lookupKey m.leases resource with
  | none => return m
  | some lease =>
      if lease.holder.Same holder ∧ Json.Same (.int lease.token) fencingToken then
        return { m with leases := delKey m.leases resource }
      else return m

/-- The calls of a manager. -/
inductive LeaseOp where
  | acquire (resource holder : Json) (ttlMs nowMs : Int)
  | renew (resource holder fencingToken : Json) (ttlMs nowMs : Int)
  | release (resource holder fencingToken : Json)
  | check (resource holder fencingToken nowMs : Json)

/-- What a call grants, and the manager after it. -/
def LeaseManager.call (m : LeaseManager) : LeaseOp → Except PyExn (LeaseManager × Option Grant)
  | .acquire resource holder ttlMs nowMs => do
      let r ← m.acquire resource holder ttlMs nowMs
      return (r.1, some r.2)
  | .renew resource holder fencingToken ttlMs nowMs => do
      let r ← m.renew resource holder fencingToken ttlMs nowMs
      return (r.1, some r.2)
  | .release resource holder fencingToken => do
      return (← m.release resource holder fencingToken, none)
  | .check resource holder fencingToken nowMs => do
      m.check resource holder fencingToken nowMs
      return (m, none)

/-- The manager after a call and what was granted; a call that raises changes nothing. -/
def LeaseManager.step (m : LeaseManager) (op : LeaseOp) : LeaseManager × Option Grant :=
  match m.call op with
  | .ok r => r
  | .error _ => (m, none)

/-- The manager after a sequence of calls, and the grants in their order. -/
def LeaseManager.run : LeaseManager → List LeaseOp → LeaseManager × List Grant
  | m, [] => (m, [])
  | m, op :: ops =>
      let r := (m.step op).1.run ops
      (r.1, (m.step op).2.toList ++ r.2)

/-! ## What a call does -/

/-- `current_token(resource)`. -/
def LeaseManager.currentToken (m : LeaseManager) (resource : Json) : Int :=
  (getKey m.tokens resource).getD 0

/-- An active lease carries the current token of its resource. -/
def LeaseManager.Fenced (m : LeaseManager) : Prop :=
  ∀ r lease, getKey m.leases r = some lease → lease.token = m.currentToken r

variable {m m' : LeaseManager}

/-- A grant raises the token of its resource by one and leaves the other resources alone. -/
structure Granted (m m' : LeaseManager) (g : Grant) : Prop where
  token : ∀ r, m'.currentToken r = if g.resource.Same r then g.token else m.currentToken r
  lease : ∀ r, getKey m'.leases r =
    if g.resource.Same r then some ⟨g.holder, g.expiresAtMs, g.token⟩ else getKey m.leases r
  next : g.token = m.currentToken g.resource + 1

theorem grant_ok {resource holder : Json} {ttlMs nowMs : Int} {g : Grant}
    (h : m.grant resource holder (m.currentToken resource + 1) ttlMs nowMs = .ok (m', g)) :
    Granted m m' g := by
  obtain ⟨tokens, ht, h⟩ := bind_eq_ok.1 h
  obtain ⟨leases, hl, h⟩ := bind_eq_ok.1 h
  cases h
  refine ⟨?_, getKey_setKey hl, rfl⟩
  intro r
  rw [LeaseManager.currentToken, getKey_setKey ht r]
  split
  · rfl
  · rfl

/-- What a token that passes `check` has been compared with. -/
theorem check_ok {resource holder token nowMs : Json} (h : m.check resource holder token nowMs = .ok ()) :
    lessE token (.int (m.currentToken resource)) = .ok false ∧
      ∃ lease, getKey m.leases resource = some lease ∧ lease.holder.Same holder ∧
        Json.Same (.int lease.token) token := by
  obtain ⟨current, hc, h⟩ := bind_eq_ok.1 h
  obtain ⟨stale, hs, h⟩ := bind_eq_ok.1 h
  have hcur : current.getD 0 = m.currentToken resource := by
    rw [lookupKey_eq_ok hc]
    rfl
  rw [hcur] at hs
  cases stale with
  | true => cases h
  | false =>
      refine ⟨hs, ?_⟩
      obtain ⟨lease, hl, h⟩ := bind_eq_ok.1 h
      have hlease := lookupKey_eq_ok hl
      cases lease with
      | none => cases h
      | some lease =>
          by_cases hm : ¬ lease.holder.Same holder ∨ ¬ Json.Same (.int lease.token) token
          · simp only [if_pos hm] at h
            cases h
          · rw [not_or, not_not, not_not] at hm
            exact ⟨lease, hlease.symm, hm.1, hm.2⟩

/-- What a call does: it grants, it ends a lease, or it changes nothing. -/
theorem step_lease (m : LeaseManager) (op : LeaseOp) :
    (∃ g, (m.step op).2 = some g ∧ Granted m (m.step op).1 g) ∨
      (m.step op).2 = none ∧ (∃ r, (m.step op).1 = { m with leases := delKey m.leases r }) ∨
      (m.step op).2 = none ∧ (m.step op).1 = m := by
  rw [LeaseManager.step]
  cases hcall : m.call op with
  | error e => exact Or.inr (Or.inr ⟨rfl, rfl⟩)
  | ok r =>
      cases op with
      | acquire resource holder ttlMs nowMs =>
          obtain ⟨⟨m', g⟩, ha, hr⟩ := bind_eq_ok.1 hcall
          cases hr
          obtain ⟨lease, -, ha⟩ := bind_eq_ok.1 ha
          obtain ⟨_, -, ha⟩ := bind_eq_ok.1 ha
          obtain ⟨current, hc, ha⟩ := bind_eq_ok.1 ha
          rw [lookupKey_eq_ok hc] at ha
          exact Or.inl ⟨g, rfl, grant_ok ha⟩
      | renew resource holder fencingToken ttlMs nowMs =>
          obtain ⟨⟨m', g⟩, ha, hr⟩ := bind_eq_ok.1 hcall
          cases hr
          obtain ⟨_, -, ha⟩ := bind_eq_ok.1 ha
          obtain ⟨current, hc, ha⟩ := bind_eq_ok.1 ha
          obtain ⟨found, hf, hc⟩ := bind_eq_ok.1 hc
          have hfound := lookupKey_eq_ok hf
          cases found with
          | none => cases hc
          | some token =>
              have htoken : current = m.currentToken resource := by
                rw [LeaseManager.currentToken, ← hfound]
                exact (Except.ok.inj hc).symm
              rw [htoken] at ha
              exact Or.inl ⟨g, rfl, grant_ok ha⟩
      | release resource holder fencingToken =>
          obtain ⟨m', ha, hr⟩ := bind_eq_ok.1 hcall
          cases hr
          obtain ⟨found, -, ha⟩ := bind_eq_ok.1 ha
          cases found with
          | none =>
              cases ha
              exact Or.inr (Or.inr ⟨rfl, rfl⟩)
          | some lease =>
              simp only at ha
              split at ha
              · cases ha
                exact Or.inr (Or.inl ⟨rfl, resource, rfl⟩)
              · cases ha
                exact Or.inr (Or.inr ⟨rfl, rfl⟩)
      | check resource holder fencingToken nowMs =>
          obtain ⟨_, -, hr⟩ := bind_eq_ok.1 hcall
          cases hr
          exact Or.inr (Or.inr ⟨rfl, rfl⟩)

theorem Granted.grows {g : Grant} (h : Granted m m' g) (r : Json) :
    m.currentToken r ≤ m'.currentToken r := by
  rw [h.token r]
  split
  · rename_i hr
    have hcongr : m.currentToken g.resource = m.currentToken r := by
      rw [LeaseManager.currentToken, getKey_congr hr, ← LeaseManager.currentToken]
    rw [h.next, hcongr]
    omega
  · exact le_refl _

theorem step_token (m : LeaseManager) (op : LeaseOp) (r : Json) :
    m.currentToken r ≤ (m.step op).1.currentToken r := by
  rcases step_lease m op with ⟨g, -, hg⟩ | ⟨-, r', hd⟩ | ⟨-, hs⟩
  · exact hg.grows r
  · rw [hd]
    exact le_refl _
  · rw [hs]

theorem step_fenced (h : m.Fenced) (op : LeaseOp) : (m.step op).1.Fenced := by
  rcases step_lease m op with ⟨g, -, hg⟩ | ⟨-, r', hd⟩ | ⟨-, hs⟩
  · intro r lease hl
    rw [hg.lease r] at hl
    rw [hg.token r]
    split at hl
    · rename_i hr
      cases hl
      rw [if_pos hr]
    · rename_i hr
      rw [if_neg hr]
      exact h r lease hl
  · rw [hd]
    intro r lease hl
    rw [getKey_delKey] at hl
    split at hl
    · cases hl
    · exact h r lease hl
  · rw [hs]
    exact h

theorem run_append (m : LeaseManager) (ops ops' : List LeaseOp) :
    m.run (ops ++ ops') =
      (((m.run ops).1.run ops').1, (m.run ops).2 ++ ((m.run ops).1.run ops').2) := by
  induction ops generalizing m with
  | nil => rfl
  | cons op ops ih =>
      rw [List.cons_append, LeaseManager.run, LeaseManager.run, ih]
      simp only [List.append_assoc]

/-- Every token granted in a run is at most the current one at its end, and greater than the current
one at its start; the tokens of a resource are strictly increasing. -/
theorem run_grants (m : LeaseManager) (ops : List LeaseOp) :
    (∀ r, m.currentToken r ≤ (m.run ops).1.currentToken r) ∧
      (∀ g ∈ (m.run ops).2, m.currentToken g.resource < g.token ∧
        g.token ≤ (m.run ops).1.currentToken g.resource) ∧
      (m.run ops).2.Pairwise fun g g' => g.resource.Same g'.resource → g.token < g'.token := by
  induction ops generalizing m with
  | nil => exact ⟨fun _ => le_refl _, nofun, List.Pairwise.nil⟩
  | cons op ops ih =>
      obtain ⟨hgrow, hbound, hpair⟩ := ih (m.step op).1
      refine ⟨fun r => (step_token m op r).trans (hgrow r), ?_, ?_⟩
      · intro g hg
        rcases List.mem_append.1 hg with hg | hg
        · rcases step_lease m op with ⟨g', hg', hgr⟩ | ⟨hn, -⟩ | ⟨hn, -⟩
          · rw [hg', Option.toList_some, List.mem_singleton] at hg
            subst hg
            refine ⟨by rw [hgr.next]; omega, ?_⟩
            have hself := hgr.token g.resource
            rw [if_pos (Json.Same.refl _)] at hself
            rw [← hself]
            exact hgrow g.resource
          · rw [hn] at hg
            cases hg
          · rw [hn] at hg
            cases hg
        · obtain ⟨hlow, hhigh⟩ := hbound g hg
          exact ⟨(step_token m op g.resource).trans_lt hlow, hhigh⟩
      · rw [LeaseManager.run, List.pairwise_append]
        refine ⟨?_, hpair, ?_⟩
        · cases (m.step op).2 with
          | none => exact List.Pairwise.nil
          | some g => exact List.pairwise_singleton _ g
        · intro g hg g' hg' hsame
          rcases step_lease m op with ⟨g'', hg'', hgr⟩ | ⟨hn, -⟩ | ⟨hn, -⟩
          · rw [hg'', Option.toList_some, List.mem_singleton] at hg
            subst hg
            have hlow := (hbound g' hg').1
            rw [hgr.token g'.resource, if_pos hsame] at hlow
            exact hlow
          · rw [hn] at hg
            cases hg
          · rw [hn] at hg
            cases hg

/-! ## Exclusion -/

theorem check_unique {resource holder token nowMs holder' token' nowMs' : Json}
    (h : m.check resource holder token nowMs = .ok ())
    (h' : m.check resource holder' token' nowMs' = .ok ()) :
    holder.Same holder' ∧ token.Same token' := by
  obtain ⟨-, lease, hl, hh, ht⟩ := check_ok h
  obtain ⟨-, lease', hl', hh', ht'⟩ := check_ok h'
  rw [hl] at hl'
  cases hl'
  exact ⟨hh.symm.trans hh', ht.symm.trans ht'⟩

theorem less_int_of_le {token : Json} {k n : Int} (h : token.less (.int k) = some true)
    (hkn : k ≤ n) : lessE token (.int n) = .ok true := by
  have hnum : ∃ q, token.number = some q ∧ q < (k : ℚ) := by
    rw [Json.less] at h
    · cases hq : token.number with
      | none =>
          rw [hq] at h
          cases h
      | some q =>
          rw [hq] at h
          exact ⟨q, rfl, by simpa [Json.number] using h⟩
    · intros; contradiction
    · intros; contradiction
  obtain ⟨q, hq, hlt⟩ := hnum
  have hless : token.less (.int n) = some true := by
    rw [Json.less]
    · rw [hq]
      have hq' : q < (n : ℚ) := hlt.trans_le (by exact_mod_cast hkn)
      simpa [Json.number] using hq'
    · intros; contradiction
    · intros; contradiction
  rw [lessE, hless]

/-- A token below the current one passes neither `check` nor `renew`. -/
theorem stale_refused {resource token : Json} {k : Int} (hk : k ≤ m.currentToken resource)
    (hlt : token.less (.int k) = some true) :
    (∀ holder nowMs, m.check resource holder token nowMs ≠ .ok ()) ∧
      ∀ holder ttlMs nowMs r, m.renew resource holder token ttlMs nowMs ≠ .ok r := by
  have hcheck : ∀ holder nowMs, m.check resource holder token nowMs ≠ .ok () := by
    intro holder nowMs h
    have hnot := (check_ok h).1
    rw [less_int_of_le hlt hk] at hnot
    cases hnot
  refine ⟨hcheck, ?_⟩
  intro holder ttlMs nowMs r h
  obtain ⟨_, hc, -⟩ := bind_eq_ok.1 h
  exact hcheck holder (.int nowMs) hc

/-! ## The journal of a store -/

/-- What can happen to a store and its manager: a call of the manager, a submission, with or without
a crash after the journal write, or a recovery with the same manager. -/
inductive FencedOp where
  | lease (op : LeaseOp)
  | submit (event : Fields) (event_wf : (Json.obj event).wf = true) (crash : Bool) (timeNs : Int)
  | recover (ownership : OwnershipRegistry)

/-- The operation of the store. -/
def FencedOp.toOp (s : Store) : FencedOp → Op
  | .lease op => .leases (s.leases.step op).1
  | .submit event wf crash timeNs => .submit event wf crash timeNs
  | .recover ownership => .recover ownership s.leases

/-- The store after a sequence of operations. -/
def Store.fencedRun (s : Store) (ops : List FencedOp) : Store :=
  ops.foldl (fun s op => s.step (op.toOp s)) s

/-- The domain of leases. -/
def leaseDomain : Json := .str (lit "task.lease")

theorem get?_of_get {d : Fields} {key : Str} {v : Json} (h : d.get key = .ok v) :
    d.get? key = some v := by
  cases hg : d.get? key with
  | some w =>
      rw [Fields.get_of_get? hg] at h
      exact congrArg some (Except.ok.inj h)
  | none =>
      rw [Fields.get, Json.item, ← Fields.get?, hg] at h
      cases h

/-- A lease event with this token. -/
def Event.Token (x : Event) (k : Int) : Prop :=
  ∃ t, x.fields.get? (lit "fencing_token") = some t ∧ t.Same (.int k)

/-- The lease events in the journal carry tokens of their entity, in their order. -/
structure TokensOf (m : LeaseManager) (xs : List Event) : Prop where
  issued : ∀ x ∈ xs, (x.field "domain").Same leaseDomain →
    ∃ k, x.Token k ∧ k ≤ m.currentToken (x.field "entity")
  ordered : xs.Pairwise fun x y => (x.field "domain").Same leaseDomain →
    (y.field "domain").Same leaseDomain → (x.field "entity").Same (y.field "entity") →
    ∃ k l, x.Token k ∧ y.Token l ∧ k ≤ l

theorem TokensOf.mono {xs : List Event} (h : TokensOf m xs)
    (hm : ∀ r, m.currentToken r ≤ m'.currentToken r) : TokensOf m' xs := by
  refine ⟨?_, h.ordered⟩
  intro x hx hd
  obtain ⟨k, hk, hle⟩ := h.issued x hx hd
  exact ⟨k, hk, hle.trans (hm _)⟩

theorem currentToken_congr (m : LeaseManager) {r r' : Json} (h : r.Same r') :
    m.currentToken r = m.currentToken r' := by
  rw [LeaseManager.currentToken, getKey_congr h, ← LeaseManager.currentToken]

theorem TokensOf.snoc {xs : List Event} (h : TokensOf m xs) {x : Event}
    (hx : (x.field "domain").Same leaseDomain → x.Token (m.currentToken (x.field "entity"))) :
    TokensOf m (xs ++ [x]) := by
  refine ⟨?_, ?_⟩
  · intro y hy hd
    rcases List.mem_append.1 hy with hy | hy
    · exact h.issued y hy hd
    · rw [List.mem_singleton.1 hy] at hd ⊢
      exact ⟨_, hx hd, le_refl _⟩
  · rw [List.pairwise_append]
    refine ⟨h.ordered, List.pairwise_singleton _ _, ?_⟩
    intro y hy z hz hdy hdz hent
    rw [List.mem_singleton.1 hz] at hdz hent ⊢
    obtain ⟨k, hk, hle⟩ := h.issued y hy hdy
    rw [currentToken_congr m hent] at hle
    exact ⟨k, _, hk, hx hdz, hle⟩

/-- An admitted lease event carries the current token of its entity. -/
theorem admission_lease {s : Store} {x : Event} (ha : s.admission x.fields = .ok none)
    (hf : s.find (x.field "event_id") = .ok none) (hm : s.leases.Fenced)
    (hd : (x.field "domain").Same leaseDomain) :
    x.Token (s.leases.currentToken (x.field "entity")) := by
  have hget : ∀ name ∈ requiredFields, x.fields.get (lit name) = .ok (x.field name) :=
    fun name hn => Fields.get_of_get? (x.get_required hn)
  rw [Store.admission, x.complete] at ha
  simp only [bind, Except.bind, hget "event_id" (by decide), hget "domain" (by decide),
    hget "writer" (by decide), hget "entity" (by decide), hf] at ha
  have hterm : ¬ (x.field "domain").Same terminalDomain := by
    intro ht
    have hlit : lit "task.terminal" = lit "task.lease" := Json.str.inj (ht.symm.trans hd)
    exact absurd hlit (by decide)
  split at ha
  · cases ha
  rw [if_pos (show (x.field "domain").Same (.str (lit "task.lease")) from hd)] at ha
  simp only [if_neg hterm] at ha
  cases hh : x.fields.get (lit "writer_holder") with
  | error e =>
      rw [hh] at ha
      cases ha
  | ok holder =>
      cases ht : x.fields.get (lit "fencing_token") with
      | error e =>
          simp only [hh, ht] at ha
          cases ha
      | ok token =>
          cases hn : x.fields.get (lit "now_ms") with
          | error e =>
              simp only [hh, ht, hn] at ha
              cases ha
          | ok now =>
              simp only [hh, ht, hn] at ha
              cases hc : s.leases.check (x.field "entity") holder token now with
              | error e =>
                  rw [hc] at ha
                  cases ha
              | ok u =>
                  obtain ⟨-, lease, hl, -, hsame⟩ := check_ok hc
                  rw [← hm _ lease hl]
                  exact ⟨token, get?_of_get ht, hsame.symm⟩

theorem submit_refused {s : Store} {event : Fields} (h : s.admission event ≠ .ok none)
    (crash : Bool) (timeNs : Int) : (s.submit event crash timeNs).2 = s := by
  rw [Store.submit]
  cases ha : s.admission event with
  | error e => rfl
  | ok found =>
      cases found with
      | some r => rfl
      | none => exact absurd ha h

/-- The invariant of a store and its manager. -/
structure FencedStore (s : Store) : Prop where
  fenced : s.leases.Fenced
  journal : ∃ xs, StoreOf s xs ∧ TokensOf s.leases xs

theorem submit_leases (s : Store) (event : Fields) (crash : Bool) (timeNs : Int) :
    (s.submit event crash timeNs).2.leases = s.leases := by
  rw [Store.submit]
  split
  · rfl
  · rfl
  · split
    · rfl
    · rfl

theorem fencedStore_step {s : Store} (h : FencedStore s) (op : FencedOp) :
    FencedStore (s.step (op.toOp s)) := by
  obtain ⟨hm, xs, hs, ht⟩ := h
  cases op with
  | lease op => exact ⟨step_fenced hm op, xs, hs, ht.mono (step_token s.leases op)⟩
  | submit event hwf crash timeNs =>
      have hleases := submit_leases s event crash timeNs
      by_cases ha : s.admission event = .ok none
      · rcases submit_cases hs hwf crash timeNs with ⟨hsame, -⟩ | ⟨x, rfl, hs', -, hf, -⟩
        · rw [FencedOp.toOp, Store.step, hsame]
          exact ⟨hm, xs, hs, ht⟩
        · rw [FencedOp.toOp, Store.step]
          refine ⟨by rw [hleases]; exact hm, xs ++ [x], hs', ?_⟩
          rw [hleases]
          exact ht.snoc (admission_lease ha hf hm)
      · rw [FencedOp.toOp, Store.step, submit_refused ha]
        exact ⟨hm, xs, hs, ht⟩
  | recover ownership =>
      rw [FencedOp.toOp, Store.step, Store.recover]
      cases ho : Journal.open s.journal.disk with
      | error e => exact ⟨hm, xs, hs, ht⟩
      | ok j => exact ⟨hm, xs, (open_represents hs ho).1, ht⟩

theorem fencedStore_run {s : Store} (h : FencedStore s) (ops : List FencedOp) :
    FencedStore (s.fencedRun ops) :=
  foldl_invariant (P := FencedStore) (fun _ op hs => fencedStore_step hs op) ops h

theorem empty_fenced : LeaseManager.empty.Fenced := nofun

theorem fencedStore_init (ownership : OwnershipRegistry) :
    FencedStore (Store.init ownership LeaseManager.empty) :=
  ⟨empty_fenced, [], init_storeOf ownership LeaseManager.empty, nofun, List.Pairwise.nil⟩

/-- The fencing token of a journaled event. -/
def HasToken (w : Json) (k : Int) : Prop :=
  ∃ t, w.item (lit "fencing_token") = .ok t ∧ t.Same (.int k)

theorem Event.Token.stands {x : Event} {k : Int} (h : x.Token k) {w : Json} (hw : Stands w x) :
    HasToken w k := by
  obtain ⟨t, ht, hsame⟩ := h
  obtain ⟨d, rfl, hn⟩ := Json.alike_obj hw
  obtain ⟨v, hv, ha⟩ := Fields.get?_alike_some hn x.nodup ht
  exact ⟨v, Fields.get_of_get? hv, ha.same.trans hsame⟩

/-- The lease events of an entity, in journal order, have tokens that do not fall. -/
theorem fencedStore_ordered {s : Store} (h : FencedStore s) :
    ∃ ws, s.events = .ok ws ∧ ws.Pairwise fun w w' => ∀ entity,
      isAbout leaseDomain entity w = .ok true → isAbout leaseDomain entity w' = .ok true →
      ∃ k l, HasToken w k ∧ HasToken w' l ∧ k ≤ l := by
  obtain ⟨-, xs, hs, ht⟩ := h
  obtain ⟨ws, hws, hst⟩ := events_view hs
  refine ⟨ws, hws, pairwise_of_forall₂ hst ht.ordered ?_⟩
  intro w w' x y hwx hwy hxy entity hw hw'
  obtain ⟨hdx, hex⟩ := (hwx.isAbout_iff leaseDomain entity).1 hw
  obtain ⟨hdy, hey⟩ := (hwy.isAbout_iff leaseDomain entity).1 hw'
  obtain ⟨k, l, hk, hl, hkl⟩ := hxy hdx hdy (hex.trans hey.symm)
  exact ⟨k, l, hk.stands hwx, hl.stands hwy, hkl⟩

/-- Fencing, over every sequence of calls: the tokens granted for a resource strictly increase, the
pairs that pass `check` are equal, a token below one that was granted passes neither `check` nor
`renew` any more, and the lease events of an entity are journaled in the order of their tokens. -/
theorem lease_fencing :
    (∀ ops, (LeaseManager.empty.run ops).2.Pairwise fun g g' =>
      g.resource.Same g'.resource → g.token < g'.token) ∧
    (∀ ops resource holder token nowMs holder' token' nowMs',
      (LeaseManager.empty.run ops).1.check resource holder token nowMs = .ok () →
      (LeaseManager.empty.run ops).1.check resource holder' token' nowMs' = .ok () →
      holder.Same holder' ∧ token.Same token') ∧
    (∀ pre post g resource token, g ∈ (LeaseManager.empty.run pre).2 → g.resource.Same resource →
      token.less (.int g.token) = some true →
      (∀ holder nowMs,
        (LeaseManager.empty.run (pre ++ post)).1.check resource holder token nowMs ≠ .ok ()) ∧
      ∀ holder ttlMs nowMs r,
        (LeaseManager.empty.run (pre ++ post)).1.renew resource holder token ttlMs nowMs ≠ .ok r) ∧
    (∀ ownership ops, ∃ ws,
      ((Store.init ownership LeaseManager.empty).fencedRun ops).events = .ok ws ∧
      ws.Pairwise fun w w' => ∀ entity, isAbout leaseDomain entity w = .ok true →
        isAbout leaseDomain entity w' = .ok true → ∃ k l, HasToken w k ∧ HasToken w' l ∧ k ≤ l) := by
  refine ⟨fun ops => (run_grants _ ops).2.2, ?_, ?_, ?_⟩
  · intro ops resource holder token nowMs holder' token' nowMs' h h'
    exact check_unique h h'
  · intro pre post g resource token hg hr hlt
    apply stale_refused (k := g.token) _ hlt
    rw [run_append]
    have hle := ((run_grants LeaseManager.empty pre).2.1 g hg).2
    rw [currentToken_congr _ hr] at hle
    exact hle.trans ((run_grants _ post).1 resource)
  · intro ownership ops
    exact fencedStore_ordered (fencedStore_run (fencedStore_init ownership) ops)

end ResidualHarness.Dsm
