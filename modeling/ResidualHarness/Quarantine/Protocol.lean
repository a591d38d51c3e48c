import ResidualHarness.Quarantine.Store

/-!
# The quarantine protocol

A step of the system concerns one hold, and what is seen of a hold follows a life cycle
(`Lifecycle`): it is held, evaluated once, and then released to one call of its executor or denied.
`quarantine_protocol` is read off it.
-/

set_option autoImplicit false

namespace ResidualHarness.Quarantine

open Python Core

section Model

variable [FloatModel] {ω : Type}

/-! ## What is seen of a hold -/

/-- The kind of a record of the log. -/
inductive Kind where
  | held
  | evaluated
  | executed
  | denied
deriving DecidableEq, Repr

omit [FloatModel] in
/-- The hold and the kind of a record. -/
def LogRecord.kind : LogRecord → Str × Kind
  | .held holdId .. => (holdId, .held)
  | .evaluated holdId .. => (holdId, .evaluated)
  | .executed holdId .. => (holdId, .executed)
  | .denied holdId .. => (holdId, .denied)

/-- The log restricted to one hold. -/
def kindsOf (log : List LogRecord) (k : Str) : List Kind :=
  log.filterMap fun r => if r.kind.1 = k then some r.kind.2 else none

/-- The hold of an event. -/
def Event.holdId : Event → Str
  | .evaluated holdId _ _ => holdId
  | .ran holdId => holdId
  | .denied holdId => holdId

/-- What is seen of a hold. -/
structure View where
  entry : Option Entry
  threads : List Pending
  log : List Kind
  trace : List Event

/-- What is seen of the hold `k`. -/
def System.view (s : System ω) (k : Str) : View where
  entry := s.store.holds.get? k
  threads := s.threads.filter fun p => decide (p.hold.holdId = k)
  log := kindsOf s.store.log k
  trace := s.trace.filter fun e => decide (e.holdId = k)

/-- The kinds of the records that are written of a hold: none if its action has no fingerprint. -/
def logged (h : HeldAction) (kinds : List Kind) : List Kind :=
  match h.fingerprint with
  | .error _ => []
  | .ok _ => kinds

/-- All policies that were given returned nothing. -/
def Allowed (given : Nat) (results : List PolicyResult) : Prop :=
  results = List.replicate given .nothing

/-- The life cycle of the hold with the id `k`. -/
inductive Lifecycle (k : Str) : View → Prop
  | absent : Lifecycle k ⟨none, [], [], []⟩
  | held (h : HeldAction) : h.holdId = k →
      Lifecycle k ⟨some ⟨h, .held, none⟩, [], logged h [.held], []⟩
  | allowed (h : HeldAction) (given : Nat) (results : List PolicyResult) : h.holdId = k →
      Allowed given results →
      Lifecycle k ⟨some ⟨h, .evaluated, some .allow⟩, [], logged h [.held, .evaluated],
        [.evaluated k given results]⟩
  | refused (h : HeldAction) (given : Nat) (results : List PolicyResult) : h.holdId = k →
      Lifecycle k ⟨some ⟨h, .evaluated, some .deny⟩, [], logged h [.held, .evaluated],
        [.evaluated k given results]⟩
  | consumed (h : HeldAction) (given : Nat) (results : List PolicyResult) : h.holdId = k →
      Allowed given results →
      Lifecycle k ⟨some ⟨h, .executing, some .allow⟩, [.call h], logged h [.held, .evaluated],
        [.evaluated k given results]⟩
  | running (h : HeldAction) (given : Nat) (results : List PolicyResult) (threads : List Pending) :
      h.holdId = k → Allowed given results →
      threads = [.running h] ∨ threads = [] ∨ (∃ error, threads = [.finish h error]) →
      Lifecycle k ⟨some ⟨h, .executing, some .allow⟩, threads, logged h [.held, .evaluated],
        [.evaluated k given results, .ran k]⟩
  | executed (h : HeldAction) (given : Nat) (results : List PolicyResult) : h.holdId = k →
      Allowed given results →
      Lifecycle k ⟨some ⟨h, .executed, some .allow⟩, [], logged h [.held, .evaluated, .executed],
        [.evaluated k given results, .ran k]⟩
  | denying (h : HeldAction) (given : Nat) (results : List PolicyResult) (reason policyName : Str) :
      h.holdId = k →
      Lifecycle k ⟨some ⟨h, .denied, some .deny⟩, [.deny h reason policyName],
        logged h [.held, .evaluated], [.evaluated k given results, .denied k]⟩
  | denied (h : HeldAction) (given : Nat) (results : List PolicyResult) : h.holdId = k →
      Lifecycle k ⟨some ⟨h, .denied, some .deny⟩, [], logged h [.held, .evaluated, .denied],
        [.evaluated k given results, .denied k]⟩

/-! ## Steps on views -/

section Views

variable {s : System ω} {h : HeldAction}

omit [FloatModel] in
theorem kindsOf_append (log : List LogRecord) (r : LogRecord) (k : Str) :
    kindsOf (log ++ [r]) k = kindsOf log k ++ if r.kind.1 = k then [r.kind.2] else [] := by
  rw [kindsOf, List.filterMap_append]
  split <;> simp_all [kindsOf]

/-- A record is written of the hold that it names. -/
theorem append_log (store : Store) (record : Str → LogRecord) (kind : Kind)
    (hr : ∀ fingerprint, (record fingerprint).kind = (h.holdId, kind)) (k : Str) :
    kindsOf (store.append h record).2.log k =
      kindsOf store.log k ++ if h.holdId = k then logged h [kind] else [] := by
  rw [Store.append, logged]
  cases hf : h.fingerprint with
  | error e => simp
  | ok fingerprint =>
      rw [kindsOf_append, hr]

@[simp]
theorem append_holds (store : Store) (record : Str → LogRecord) :
    (store.append h record).2.holds = store.holds := by
  rw [Store.append]
  split <;> rfl

@[simp]
theorem append_counter (store : Store) (record : Str → LogRecord) :
    (store.append h record).2.counter = store.counter := by
  rw [Store.append]
  split <;> rfl

@[simp]
theorem append_storeId (store : Store) (record : Str → LogRecord) :
    (store.append h record).2.storeId = store.storeId := by
  rw [Store.append]
  split <;> rfl

theorem logged_append (a b : List Kind) : logged h a ++ logged h b = logged h (a ++ b) := by
  rw [logged, logged, logged]
  split <;> rfl

theorem entry_eq_ok {store : Store} {e : Entry} (he : store.entry h = .ok e) :
    store.holds.get? h.holdId = some e ∧ e.held = h := by
  rw [Store.entry] at he
  split at he
  · cases he
  · split at he
    · cases he
      exact ⟨‹_›, ‹_›⟩
    · cases he

/-- What is seen of a hold whose thread goes on. -/
def View.goOn (v : View) (p : Pending) (next : List Pending) : View :=
  { v with threads := next ++ v.threads.erase p }

/-- A thread that goes on is seen in its own hold only. -/
theorem view_goOn {p : Pending} {next : List Pending} (hnext : ∀ q ∈ next, q.hold = p.hold)
    (k : Str) :
    (s.goOn p next).view k = if p.hold.holdId = k then (s.view k).goOn p next else s.view k := by
  have hthreads : ((s.goOn p next).threads.filter fun q => decide (q.hold.holdId = k)) =
      (next.filter fun q => decide (q.hold.holdId = k)) ++ (s.view k).threads.erase p := by
    rw [System.goOn, List.filter_append, System.view, List.erase_filter]
  split
  · rename_i hk
    have hall : (next.filter fun q => decide (q.hold.holdId = k)) = next := by
      rw [List.filter_eq_self]
      intro q hq
      rw [hnext q hq, decide_eq_true hk]
    rw [hall] at hthreads
    rw [System.view, hthreads]
    rfl
  · rename_i hk
    have hnone : (next.filter fun q => decide (q.hold.holdId = k)) = [] := by
      rw [List.filter_eq_nil_iff]
      intro q hq
      rw [hnext q hq, decide_eq_true_iff]
      exact hk
    have hout : p ∉ (s.view k).threads := by
      intro hp
      exact hk (of_decide_eq_true (List.mem_filter.1 hp).2)
    rw [hnone, List.nil_append, List.erase_of_not_mem hout] at hthreads
    rw [System.view, hthreads]
    rfl

theorem mem_view_threads {p : Pending} : p ∈ (s.view p.hold.holdId).threads ↔ p ∈ s.threads := by
  rw [System.view, List.mem_filter, decide_eq_true rfl]
  exact and_iff_left rfl

theorem get?_setEntry (store : Store) (state : HoldState) (decision : Option PolicyDecision)
    (k : Str) :
    (store.setEntry h state decision).holds.get? k =
      if k = h.holdId then some ⟨h, state, decision⟩ else store.holds.get? k := by
  rw [Store.setEntry, Dict.get?_set]

/-! ### Inversion of the life cycle -/

variable {k : Str} {v : View}

theorem Lifecycle.of_absent (hl : Lifecycle k v) (he : v.entry = none) : v = ⟨none, [], [], []⟩ := by
  cases hl <;> first | rfl | cases he

theorem Lifecycle.of_held (hl : Lifecycle k v) {e : Entry} (he : v.entry = some e)
    (hd : e.decision = none) :
    e.held.holdId = k ∧ v = ⟨some ⟨e.held, .held, none⟩, [], logged e.held [.held], []⟩ := by
  cases hl <;> cases he <;> first | exact ⟨‹_›, rfl⟩ | cases hd

theorem Lifecycle.of_evaluated (hl : Lifecycle k v) {e : Entry} (he : v.entry = some e)
    (hs : e.state = .evaluated) :
    ∃ d given results, e.decision = some d ∧ (d = .allow → Allowed given results) ∧
      e.held.holdId = k ∧ v = ⟨some ⟨e.held, .evaluated, some d⟩, [],
        logged e.held [.held, .evaluated], [.evaluated k given results]⟩ := by
  cases hl with
  | allowed h given results hk ha =>
      cases he
      exact ⟨_, given, results, rfl, fun _ => ha, hk, rfl⟩
  | refused h given results hk =>
      cases he
      exact ⟨_, given, results, rfl, nofun, hk, rfl⟩
  | absent => cases he
  | _ =>
      cases he
      cases hs

theorem Lifecycle.of_call (hl : Lifecycle k v) (hm : .call h ∈ v.threads) :
    h.holdId = k ∧ ∃ given results, Allowed given results ∧
      v = ⟨some ⟨h, .executing, some .allow⟩, [.call h], logged h [.held, .evaluated],
        [.evaluated k given results]⟩ := by
  cases hl with
  | consumed h' given results hk ha =>
      cases List.mem_singleton.1 hm
      exact ⟨hk, given, results, ha, rfl⟩
  | running h' given results threads hk ha ht =>
      rcases ht with rfl | rfl | ⟨error, rfl⟩
      · cases List.mem_singleton.1 hm
      · cases hm
      · cases List.mem_singleton.1 hm
  | denying h' given results reason policyName hk => cases List.mem_singleton.1 hm
  | _ => cases hm

theorem Lifecycle.of_running (hl : Lifecycle k v) {p : Pending} (hm : p ∈ v.threads)
    (hp : p = .running h ∨ ∃ error, p = .finish h error) :
    h.holdId = k ∧ ∃ given results, Allowed given results ∧
      v = ⟨some ⟨h, .executing, some .allow⟩, [p], logged h [.held, .evaluated],
        [.evaluated k given results, .ran k]⟩ := by
  cases hl with
  | consumed h' given results hk ha =>
      cases List.mem_singleton.1 hm
      rcases hp with hp | ⟨error, hp⟩ <;> cases hp
  | running h' given results threads hk ha ht =>
      rcases ht with rfl | rfl | ⟨error, rfl⟩
      · cases List.mem_singleton.1 hm
        rcases hp with hp | ⟨error, hp⟩ <;> cases hp
        exact ⟨hk, given, results, ha, rfl⟩
      · cases hm
      · cases List.mem_singleton.1 hm
        rcases hp with hp | ⟨error, hp⟩ <;> cases hp
        exact ⟨hk, given, results, ha, rfl⟩
  | denying h' given results reason policyName hk =>
      cases List.mem_singleton.1 hm
      rcases hp with hp | ⟨error, hp⟩ <;> cases hp
  | _ => cases hm

theorem Lifecycle.of_deny (hl : Lifecycle k v) {reason policyName : Str}
    (hm : .deny h reason policyName ∈ v.threads) :
    h.holdId = k ∧ ∃ given results, v = ⟨some ⟨h, .denied, some .deny⟩, [.deny h reason policyName],
      logged h [.held, .evaluated], [.evaluated k given results, .denied k]⟩ := by
  cases hl with
  | consumed h' given results hk ha => cases List.mem_singleton.1 hm
  | running h' given results threads hk ha ht =>
      rcases ht with rfl | rfl | ⟨error, rfl⟩
      · cases List.mem_singleton.1 hm
      · cases hm
      · cases List.mem_singleton.1 hm
  | denying h' given results reason' policyName' hk =>
      cases List.mem_singleton.1 hm
      exact ⟨hk, given, results, rfl⟩
  | _ => cases hm

end Views

/-! ## Every step follows the life cycle -/

section Steps

variable {s : System ω} {h : HeldAction}

omit [FloatModel] in
theorem natOfDigits_padded (n : Nat) : natOfDigits (padded n) = n := by
  have hn := natOfDigits_natRepr n
  rw [natOfDigits] at hn
  rw [natOfDigits, padded, List.reverse_append, List.map_append, List.reverse_replicate,
    List.map_replicate]
  exact (Nat.ofDigits_append_replicate_zero _).trans hn

theorem holdId_injective {store : Store} {m n : Nat} (he : store.holdId m = store.holdId n) :
    m = n := by
  have hp : padded m = padded n := List.append_cancel_left he
  rw [← natOfDigits_padded m, hp, natOfDigits_padded]

theorem mem_callPolicies {policies : List (Policy ω)} {w : ω} {a : ProposedAction}
    (hr : .aborted ∉ (callPolicies policies w a).1) :
    (callPolicies policies w a).1.length = policies.length := by
  induction policies generalizing w with
  | nil => rfl
  | cons p ps ih =>
      rw [callPolicies] at hr ⊢
      split at hr
      · rename_i hab
        exact absurd (List.mem_singleton.2 hab.symm) hr
      · rename_i hab
        rw [if_neg hab]
        rw [List.mem_cons, not_or] at hr
        simpa using ih hr.2

/-- Policies that do not deny have all returned nothing. -/
theorem allowed_of_decisionOn {policies : List (Policy ω)} {w : ω} {a : ProposedAction}
    (hr : .aborted ∉ (callPolicies policies w a).1)
    (hd : decisionOn (callPolicies policies w a).1 = .allow) :
    Allowed policies.length (callPolicies policies w a).1 := by
  rw [Allowed, ← mem_callPolicies hr]
  apply List.eq_replicate_of_mem
  intro r hrm
  have hall : (callPolicies policies w a).1.all (fun r => decide (r.denial = none)) = true := by
    rw [decisionOn] at hd
    by_contra hno
    rw [if_neg hno] at hd
    cases hd
  have hnone := of_decide_eq_true (List.all_eq_true.1 hall r hrm)
  cases r with
  | nothing => rfl
  | aborted => exact absurd hrm hr
  | _ => cases hnone

/-- What a call of `evaluate` does: nothing, or it records a decision on an unevaluated hold. -/
theorem evaluate_spec (store : Store) (w : ω) (policies : List (Policy ω)) :
    (store.evaluate w h policies).store = store ∧ (store.evaluate w h policies).recorded = none ∧
      ((store.evaluate w h policies).world = w ∨
        (store.evaluate w h policies).world = (callPolicies policies w h.action).2) ∨
    ∃ e, store.holds.get? h.holdId = some e ∧ e.held = h ∧ e.decision = none ∧
      .aborted ∉ (callPolicies policies w h.action).1 ∧
      (store.evaluate w h policies).recorded = some (callPolicies policies w h.action).1 ∧
      (store.evaluate w h policies).world = (callPolicies policies w h.action).2 ∧
      (store.evaluate w h policies).store =
        ((store.setEntry h .evaluated
          (some (decisionOn (callPolicies policies w h.action).1))).append h fun fingerprint =>
            .evaluated h.holdId fingerprint (decisionOn (callPolicies policies w h.action).1)
              (denials policies (callPolicies policies w h.action).1)).2 := by
  rw [Store.evaluate]
  cases he : store.entry h with
  | error _ => exact Or.inl ⟨rfl, rfl, Or.inl rfl⟩
  | ok e =>
      obtain ⟨hget, hheld⟩ := entry_eq_ok he
      dsimp only
      split
      · exact Or.inl ⟨rfl, rfl, Or.inl rfl⟩
      · rename_i hopen
        split
        · exact Or.inl ⟨rfl, rfl, Or.inr rfl⟩
        · rename_i hab
          rw [not_or, not_not] at hopen
          exact Or.inr ⟨e, hget, hheld, hopen.2, hab, rfl, rfl, rfl⟩

theorem beginRelease_eq_ok {store store' : Store} (hr : store.beginRelease h = .ok store') :
    store.holds.get? h.holdId = some ⟨h, .evaluated, some .allow⟩ ∧
      store' = store.setEntry h .executing (some .allow) := by
  rw [Store.beginRelease] at hr
  obtain ⟨e, he, hr⟩ := bind_eq_ok.1 hr
  obtain ⟨hget, hheld⟩ := entry_eq_ok he
  obtain ⟨_, hreq, hr⟩ := bind_eq_ok.1 hr
  obtain ⟨hs, hd⟩ := require_eq_ok.1 hreq
  cases hr
  cases e
  cases hheld
  cases hs
  cases hd
  exact ⟨hget, rfl⟩

theorem beginDeny_eq_ok {store store' : Store} {reason : Str}
    (hr : store.beginDeny h reason = .ok store') :
    store.holds.get? h.holdId = some ⟨h, .evaluated, some .deny⟩ ∧
      store' = store.setEntry h .denied (some .deny) := by
  rw [Store.beginDeny] at hr
  obtain ⟨-, -, hr⟩ := bind_eq_ok.1 hr
  obtain ⟨e, he, hr⟩ := bind_eq_ok.1 hr
  obtain ⟨hget, hheld⟩ := entry_eq_ok he
  obtain ⟨_, hreq, hr⟩ := bind_eq_ok.1 hr
  obtain ⟨hs, hd⟩ := require_eq_ok.1 hreq
  cases hr
  cases e
  cases hheld
  cases hs
  cases hd
  exact ⟨hget, rfl⟩

/-- Every hold follows its life cycle, and the ids of later holds are not in use. -/
structure Inv (s : System ω) : Prop where
  lifecycle : ∀ k, Lifecycle k (s.view k)
  fresh : ∀ n, s.store.counter < n → s.store.holds.get? (s.store.holdId n) = none

/-- A step from `s` to `t` that concerns the known hold `id`. -/
structure Touched (s t : System ω) (id : Str) (entry : Entry) (kinds : List Kind)
    (events : List Event) : Prop where
  holds : ∀ k, t.store.holds.get? k = if k = id then some entry else s.store.holds.get? k
  threads : ∀ k, k ≠ id → (t.view k).threads = (s.view k).threads
  log : ∀ k, kindsOf t.store.log k = kindsOf s.store.log k ++ if id = k then kinds else []
  trace : t.trace = s.trace ++ events
  own : ∀ e ∈ events, e.holdId = id
  counter : t.store.counter = s.store.counter
  storeId : t.store.storeId = s.store.storeId

/-- It is enough that the hold follows its life cycle. -/
theorem Touched.inv {t : System ω} {id : Str} {entry : Entry} {kinds : List Kind}
    {events : List Event} (ht : Touched s t id entry kinds events) (hi : Inv s)
    (hknown : (s.view id).entry ≠ none)
    (hl : Lifecycle id ⟨some entry, (t.view id).threads, (s.view id).log ++ kinds,
      (s.view id).trace ++ events⟩) : Inv t := by
  constructor
  · intro k
    by_cases hk : k = id
    · subst hk
      have hevents : (events.filter fun e => decide (e.holdId = k)) = events := by
        rw [List.filter_eq_self]
        intro e he
        exact decide_eq_true (ht.own e he)
      have hview : t.view k = ⟨some entry, (t.view k).threads, (s.view k).log ++ kinds,
          (s.view k).trace ++ events⟩ := by
        rw [System.view, ht.holds, ht.log, ht.trace, List.filter_append, hevents, if_pos rfl,
          if_pos rfl]
        rfl
      rw [hview]
      exact hl
    · have hevents : (events.filter fun e => decide (e.holdId = k)) = [] := by
        rw [List.filter_eq_nil_iff]
        intro e he hek
        exact hk ((of_decide_eq_true hek).symm.trans (ht.own e he))
      have hview : t.view k = s.view k := by
        have hthreads : (t.threads.filter fun p => decide (p.hold.holdId = k)) =
            (s.view k).threads := ht.threads k hk
        rw [System.view, ht.holds, ht.log, ht.trace, List.filter_append, hevents, if_neg hk,
          if_neg (Ne.symm hk), List.append_nil, List.append_nil, hthreads]
        rfl
      rw [hview]
      exact hi.lifecycle k
  · intro n hn
    rw [ht.counter] at hn
    have hnone := hi.fresh n hn
    rw [ht.holds, Store.holdId, ht.storeId, ← Store.holdId, if_neg, hnone]
    rintro rfl
    exact hknown hnone

theorem Inv.hold (hi : Inv s) (action : ProposedAction) (ref : Nat) (now : Int) :
    Inv (s.step (.hold action ref now)) := by
  generalize hh : s.store.newHold action ref now = h
  have hid : h.holdId = s.store.holdId (s.store.counter + 1) := by rw [← hh]; rfl
  have habsent := (hi.lifecycle h.holdId).of_absent
    (by rw [hid]; exact hi.fresh _ (Nat.lt_succ_self _))
  have hholds : (s.step (.hold action ref now)).store.holds =
      s.store.holds.set h.holdId ⟨h, .held, none⟩ := by
    rw [System.step, Store.hold, append_holds, hh]
  have hlog : ∀ k, kindsOf (s.step (.hold action ref now)).store.log k =
      kindsOf s.store.log k ++ if h.holdId = k then logged h [.held] else [] := by
    intro k
    rw [System.step, Store.hold, hh]
    exact append_log _ _ .held (fun _ => rfl) k
  constructor
  · intro k
    by_cases hk : k = h.holdId
    · subst hk
      have hview : (s.step (.hold action ref now)).view h.holdId =
          ⟨some ⟨h, .held, none⟩, (s.view h.holdId).threads,
            (s.view h.holdId).log ++ logged h [.held], (s.view h.holdId).trace⟩ := by
        rw [System.view, hholds, hlog, Dict.get?_set, if_pos rfl, if_pos rfl]
        rfl
      rw [hview, habsent]
      exact .held h rfl
    · have hview : (s.step (.hold action ref now)).view k = s.view k := by
        rw [System.view, hholds, hlog, Dict.get?_set, if_neg hk, if_neg (Ne.symm hk),
          List.append_nil]
        rfl
      rw [hview]
      exact hi.lifecycle k
  · intro n hn
    have hc : (s.step (.hold action ref now)).store.counter = s.store.counter + 1 := by
      rw [System.step, Store.hold, append_counter]
    have hnext : (s.step (.hold action ref now)).store.holdId n = s.store.holdId n := by
      rw [Store.holdId, System.step, Store.hold, append_storeId]
      rfl
    rw [hc] at hn
    rw [hholds, hnext, Dict.get?_set, if_neg]
    · exact hi.fresh n (by omega)
    · rw [hid]
      intro he
      have := holdId_injective he
      omega

theorem Inv.evaluate (hi : Inv s) (h : HeldAction) (policies : List (Policy ω)) :
    Inv (s.step (.evaluate h policies)) := by
  rcases evaluate_spec (h := h) s.store s.world policies with
    ⟨hstore, hrec, -⟩ | ⟨e, hget, rfl, hd, hab, hrec, -, hstore⟩
  · have hview : ∀ k, (s.step (.evaluate h policies)).view k = s.view k := by
      intro k
      simp only [System.step, System.view, hstore, hrec, Option.map_none, Option.toList_none,
        List.append_nil]
    refine ⟨fun k => by rw [hview]; exact hi.lifecycle k, ?_⟩
    simp only [System.step, hstore]
    exact hi.fresh
  · obtain ⟨-, hv⟩ := (hi.lifecycle e.held.holdId).of_held hget hd
    generalize hrs : (callPolicies policies s.world e.held.action).1 = results at hab hrec hstore
    have htouched : Touched s (s.step (.evaluate e.held policies)) e.held.holdId
        ⟨e.held, .evaluated, some (decisionOn results)⟩ (logged e.held [.evaluated])
        [.evaluated e.held.holdId policies.length results] := by
      have hst : (s.step (.evaluate e.held policies)).store =
          (s.store.evaluate s.world e.held policies).store := rfl
      constructor
      · intro k
        rw [hst, hstore, append_holds, get?_setEntry]
      · intro k _
        rfl
      · intro k
        rw [hst, hstore]
        exact append_log _ _ .evaluated (fun _ => rfl) k
      · simp only [System.step, hrec]
        rfl
      · intro e' he'
        rw [List.mem_singleton.1 he']
        rfl
      · rw [hst, hstore, append_counter]
        rfl
      · rw [hst, hstore, append_storeId]
        rfl
    apply htouched.inv hi
    · rw [hv]
      intro h
      cases h
    · show Lifecycle _ ⟨_, (s.view e.held.holdId).threads, _, _⟩
      rw [hv, logged_append]
      cases hdec : decisionOn results with
      | allow =>
          apply Lifecycle.allowed _ _ _ rfl
          rw [← hrs] at hab hdec ⊢
          exact allowed_of_decisionOn hab hdec
      | deny => exact .refused _ _ _ rfl

/-- The locked section that begins a release or a denial. -/
theorem Inv.begin (hi : Inv s) {d : PolicyDecision} (p : Pending) (state : HoldState)
    (events : List Event)
    (hget : s.store.holds.get? p.hold.holdId = some ⟨p.hold, .evaluated, some d⟩)
    (hown : ∀ e ∈ events, e.holdId = p.hold.holdId)
    (hl : ∀ given results, (d = .allow → Allowed given results) → Lifecycle p.hold.holdId
      ⟨some ⟨p.hold, state, some d⟩, [p], logged p.hold [.held, .evaluated],
        .evaluated p.hold.holdId given results :: events⟩) :
    Inv { s with
      store := s.store.setEntry p.hold state (some d)
      threads := p :: s.threads
      trace := s.trace ++ events } := by
  obtain ⟨d', given, results, hd, hall, -, hv⟩ :=
    (hi.lifecycle p.hold.holdId).of_evaluated hget rfl
  cases hd
  have htouched : Touched s { s with
      store := s.store.setEntry p.hold state (some d)
      threads := p :: s.threads
      trace := s.trace ++ events } p.hold.holdId ⟨p.hold, state, some d⟩ [] events := by
    constructor
    · intro k
      exact get?_setEntry _ _ _ k
    · intro k hk
      show ((p :: s.threads).filter fun q => decide (q.hold.holdId = k)) = (s.view k).threads
      rw [List.filter_cons_of_neg]
      · rfl
      · rw [decide_eq_true_iff]
        exact Ne.symm hk
    · intro k
      rw [ite_self, List.append_nil]
      rfl
    · rfl
    · exact hown
    · rfl
    · rfl
  apply htouched.inv hi
  · rw [hv]
    nofun
  · have hthreads : (System.view { s with
        store := s.store.setEntry p.hold state (some d)
        threads := p :: s.threads
        trace := s.trace ++ events } p.hold.holdId).threads = p :: (s.view p.hold.holdId).threads := by
      show ((p :: s.threads).filter fun q => decide (q.hold.holdId = p.hold.holdId)) = _
      rw [List.filter_cons_of_pos]
      · rfl
      · exact decide_eq_true rfl
    rw [hthreads, hv, List.append_nil]
    exact hl given results hall

theorem Inv.goOn (hi : Inv s) {t : System ω} {p : Pending} (next : List Pending) {e : Entry}
    {log : List Kind} {trace : List Event} (entry : Entry) (kinds : List Kind) (events : List Event)
    (hv : s.view p.hold.holdId = ⟨some e, [p], log, trace⟩) (hnext : ∀ q ∈ next, q.hold = p.hold)
    (hthreads : t.threads = (s.goOn p next).threads)
    (hholds : ∀ k, t.store.holds.get? k =
      if k = p.hold.holdId then some entry else s.store.holds.get? k)
    (hlog : ∀ k, kindsOf t.store.log k =
      kindsOf s.store.log k ++ if p.hold.holdId = k then kinds else [])
    (htrace : t.trace = s.trace ++ events) (hown : ∀ e ∈ events, e.holdId = p.hold.holdId)
    (hstore : t.store.counter = s.store.counter ∧ t.store.storeId = s.store.storeId)
    (hl : Lifecycle p.hold.holdId ⟨some entry, next, log ++ kinds, trace ++ events⟩) : Inv t := by
  have hgo : ∀ k, (t.view k).threads = ((s.goOn p next).view k).threads := by
    intro k
    rw [System.view, hthreads]
    rfl
  have htouched : Touched s t p.hold.holdId entry kinds events := by
    refine ⟨hholds, ?_, hlog, htrace, hown, hstore.1, hstore.2⟩
    intro k hk
    rw [hgo, view_goOn hnext, if_neg (Ne.symm hk)]
  apply htouched.inv hi
  · rw [hv]
    nofun
  · rw [hgo, view_goOn hnext, if_pos rfl, View.goOn, hv, List.erase_cons_head, List.append_nil]
    exact hl

theorem Inv.goOn_quiet (hi : Inv s) {p : Pending} (next : List Pending) {e : Entry}
    {log : List Kind} {trace : List Event} (events : List Event)
    (hv : s.view p.hold.holdId = ⟨some e, [p], log, trace⟩) (hnext : ∀ q ∈ next, q.hold = p.hold)
    (hown : ∀ e ∈ events, e.holdId = p.hold.holdId)
    (hl : Lifecycle p.hold.holdId ⟨some e, next, log, trace ++ events⟩) :
    Inv { s.goOn p next with trace := s.trace ++ events } := by
  have hget : s.store.holds.get? p.hold.holdId = some e := congrArg View.entry hv
  refine hi.goOn next e [] events hv hnext ?_ ?_ ?_ ?_ hown ?_ ?_
  · rfl
  · intro k
    split
    · rename_i hk
      rw [hk]
      exact hget
    · rfl
  · intro k
    rw [ite_self, List.append_nil]
    rfl
  · rfl
  · exact ⟨rfl, rfl⟩
  · rw [List.append_nil]
    exact hl

theorem Inv.step (hi : Inv s) (op : Op ω) : Inv (s.step op) := by
  cases op with
  | hold action ref now => exact hi.hold action ref now
  | evaluate h policies => exact hi.evaluate h policies
  | release h =>
      rw [System.step]
      cases hr : s.store.beginRelease h with
      | error _ => exact hi
      | ok store =>
          obtain ⟨hget, rfl⟩ := beginRelease_eq_ok hr
          have := hi.begin (.call h) .executing [] hget nofun fun given results ha =>
            .consumed h given results rfl (ha rfl)
          rwa [List.append_nil] at this
  | call h =>
      rw [System.step]
      split
      · rename_i hm
        obtain ⟨-, given, results, ha, hv⟩ := (hi.lifecycle _).of_call (mem_view_threads.2 hm)
        apply hi.goOn_quiet _ _ hv
        · simp [Pending.hold]
        · simp [Event.holdId, Pending.hold]
        · exact .running h given results _ rfl ha (Or.inl rfl)
      · exact hi
  | returned h error =>
      rw [System.step]
      split
      · rename_i hm
        obtain ⟨-, given, results, ha, hv⟩ :=
          (hi.lifecycle _).of_running (h := h) (mem_view_threads.2 hm) (Or.inl rfl)
        have := hi.goOn_quiet [.finish h error] [] hv (by simp [Pending.hold]) nofun
          (.running h given results _ rfl ha (Or.inr (Or.inr ⟨error, rfl⟩)))
        rwa [List.append_nil] at this
      · exact hi
  | lost h =>
      rw [System.step]
      split
      · rename_i hm
        obtain ⟨-, given, results, ha, hv⟩ :=
          (hi.lifecycle _).of_running (h := h) (mem_view_threads.2 hm) (Or.inl rfl)
        have := hi.goOn_quiet [] [] hv nofun nofun
          (.running h given results _ rfl ha (Or.inr (Or.inl rfl)))
        rwa [List.append_nil] at this
      · exact hi
  | finish h error now =>
      rw [System.step]
      split
      · rename_i hm
        obtain ⟨-, given, results, ha, hv⟩ :=
          (hi.lifecycle _).of_running (h := h) (mem_view_threads.2 hm) (Or.inr ⟨error, rfl⟩)
        have hget : s.store.holds.get? h.holdId = some ⟨h, .executing, some .allow⟩ :=
          congrArg View.entry hv
        refine hi.goOn [] ⟨h, .executed, some .allow⟩ (logged h [.executed]) [] hv nofun
          ?_ ?_ ?_ ?_ nofun ?_ ?_
        · rfl
        · intro k
          rw [Store.endRelease, append_holds, get?_setEntry, hget]
          rfl
        · exact append_log _ _ .executed fun _ => rfl
        · exact (List.append_nil _).symm
        · exact ⟨by rw [Store.endRelease, append_counter]; rfl,
            by rw [Store.endRelease, append_storeId]; rfl⟩
        · rw [logged_append, List.append_nil]
          exact .executed h given results rfl ha
      · exact hi
  | deny h reason policyName =>
      rw [System.step]
      cases hr : s.store.beginDeny h reason with
      | error _ => exact hi
      | ok store =>
          obtain ⟨hget, rfl⟩ := beginDeny_eq_ok hr
          exact hi.begin (.deny h reason policyName) .denied [.denied h.holdId] hget
            (by simp [Event.holdId, Pending.hold])
            fun given results _ => .denying h given results reason policyName rfl
  | logDenied h reason policyName now =>
      rw [System.step]
      split
      · rename_i hm
        obtain ⟨-, given, results, hv⟩ := (hi.lifecycle _).of_deny (mem_view_threads.2 hm)
        have hget : s.store.holds.get? h.holdId = some ⟨h, .denied, some .deny⟩ :=
          congrArg View.entry hv
        refine hi.goOn [] ⟨h, .denied, some .deny⟩ (logged h [.denied]) [] hv nofun
          ?_ ?_ ?_ ?_ nofun ?_ ?_
        · rfl
        · intro k
          rw [Store.endDeny, append_holds]
          split
          · rename_i hk
            rw [hk]
            exact hget
          · rfl
        · exact append_log _ _ .denied fun _ => rfl
        · exact (List.append_nil _).symm
        · exact ⟨by rw [Store.endDeny, append_counter], by rw [Store.endDeny, append_storeId]⟩
        · rw [logged_append, List.append_nil]
          exact .denied h given results rfl
      · exact hi
  | host act => exact ⟨hi.lifecycle, hi.fresh⟩

theorem inv_init (storeId : Str) (w : ω) : Inv (System.init storeId w) :=
  ⟨fun _ => .absent, fun _ _ => rfl⟩

theorem Inv.run (hi : Inv s) (ops : List (Op ω)) : Inv (s.run ops) := by
  induction ops generalizing s with
  | nil => exact hi
  | cons op ops ih => exact ih (hi.step op)

/-- The decision that is recorded of a hold. -/
def System.decision (s : System ω) (k : Str) : Option PolicyDecision :=
  (s.store.holds.get? k).bind Entry.decision

theorem decision_setEntry {store : Store} {e : Entry} (he : store.holds.get? h.holdId = some e)
    (state : HoldState) (k : Str) :
    ((store.setEntry h state e.decision).holds.get? k).bind Entry.decision =
      (store.holds.get? k).bind Entry.decision := by
  rw [get?_setEntry]
  split
  · rename_i hk
    rw [hk, he]
    rfl
  · rfl

theorem Inv.decision_step (hi : Inv s) (op : Op ω) {k : Str} {d : PolicyDecision}
    (hd : s.decision k = some d) : (s.step op).decision k = some d := by
  obtain ⟨e, he, hed⟩ := Option.bind_eq_some_iff.1 hd
  cases op with
  | hold action ref now =>
      have hk : k ≠ s.store.holdId (s.store.counter + 1) := by
        rintro rfl
        rw [hi.fresh _ (Nat.lt_succ_self _)] at he
        cases he
      rw [System.decision, System.step, Store.hold, append_holds, Dict.get?_set, if_neg]
      · exact hd
      · exact hk
  | evaluate h policies =>
      rcases evaluate_spec (h := h) s.store s.world policies with
        ⟨hstore, -, -⟩ | ⟨e', hget, -, hnone, -, -, -, hstore⟩
      · rw [System.decision, System.step, hstore]
        exact hd
      · have hk : k ≠ h.holdId := by
          rintro rfl
          rw [hget] at he
          cases he
          rw [hnone] at hed
          cases hed
        rw [System.decision, System.step, hstore, append_holds, get?_setEntry, if_neg hk]
        exact hd
  | release h =>
      rw [System.step]
      cases hr : s.store.beginRelease h with
      | error _ => exact hd
      | ok store =>
          obtain ⟨hget, rfl⟩ := beginRelease_eq_ok hr
          exact (decision_setEntry hget .executing k).trans hd
  | deny h reason policyName =>
      rw [System.step]
      cases hr : s.store.beginDeny h reason with
      | error _ => exact hd
      | ok store =>
          obtain ⟨hget, rfl⟩ := beginDeny_eq_ok hr
          exact (decision_setEntry hget .denied k).trans hd
  | finish h error now =>
      rw [System.step]
      split
      · rename_i hm
        obtain ⟨-, given, results, -, hv⟩ :=
          (hi.lifecycle _).of_running (h := h) (mem_view_threads.2 hm) (Or.inr ⟨error, rfl⟩)
        have hget : s.store.holds.get? h.holdId = some ⟨h, .executing, some .allow⟩ :=
          congrArg View.entry hv
        rw [System.decision, Store.endRelease, append_holds, hget]
        exact (decision_setEntry hget .executed k).trans hd
      · exact hd
  | call h =>
      rw [System.step]
      split
      · exact hd
      · exact hd
  | returned h error =>
      rw [System.step]
      split
      · exact hd
      · exact hd
  | lost h =>
      rw [System.step]
      split
      · exact hd
      · exact hd
  | logDenied h reason policyName now =>
      rw [System.step]
      split
      · rw [System.decision, Store.endDeny, append_holds]
        exact hd
      · exact hd
  | host act => exact hd

theorem Inv.decision_run (hi : Inv s) (ops : List (Op ω)) {k : Str} {d : PolicyDecision}
    (hd : s.decision k = some d) : (s.run ops).decision k = some d := by
  induction ops generalizing s with
  | nil => exact hd
  | cons op ops ih => exact ih (hi.step op) (hi.decision_step op hd)

/-! ## What the life cycle says -/

theorem logged_initial (h : HeldAction) (kinds : List Kind) : logged h kinds <+: kinds := by
  rw [logged]
  split
  · exact List.nil_prefix
  · exact List.prefix_rfl

theorem Lifecycle.log {k : Str} {v : View} (hl : Lifecycle k v) :
    v.log <+: [.held, .evaluated, .executed] ∨ v.log <+: [.held, .evaluated, .denied] := by
  have hstart : ∀ h : HeldAction,
      logged h [.held, .evaluated] <+: [Kind.held, Kind.evaluated, Kind.executed] :=
    fun h => (logged_initial h _).trans
      (List.prefix_append [Kind.held, Kind.evaluated] [Kind.executed])
  cases hl with
  | absent => exact Or.inl List.nil_prefix
  | held h _ =>
      exact Or.inl ((logged_initial h _).trans
        (List.prefix_append [Kind.held] [Kind.evaluated, Kind.executed]))
  | allowed h _ _ _ _ => exact Or.inl (hstart h)
  | refused h _ _ _ => exact Or.inl (hstart h)
  | consumed h _ _ _ _ => exact Or.inl (hstart h)
  | running h _ _ _ _ _ _ => exact Or.inl (hstart h)
  | executed h _ _ _ _ => exact Or.inl (logged_initial h _)
  | denying h _ _ _ _ _ => exact Or.inl (hstart h)
  | denied h _ _ _ => exact Or.inr (logged_initial h _)

/-- A hold whose executor ran was evaluated first, by policies that all returned nothing, and
nothing else happened to it. -/
theorem Lifecycle.ran {k : Str} {v : View} (hl : Lifecycle k v) (hr : .ran k ∈ v.trace) :
    ∃ given, v.trace = [.evaluated k given (List.replicate given .nothing), .ran k] := by
  cases hl with
  | running h given results threads _ ha _ => exact ⟨given, by rw [ha]⟩
  | executed h given results _ ha => exact ⟨given, by rw [ha]⟩
  | _ => simp at hr

theorem mem_view_trace {e : Event} : e ∈ (s.view e.holdId).trace ↔ e ∈ s.trace := by
  rw [System.view, List.mem_filter, decide_eq_true rfl]
  exact and_iff_left rfl

theorem Inv.ran_once (hi : Inv s) (k : Str) : s.trace.count (.ran k) ≤ 1 := by
  have hcount : (s.view k).trace.count (.ran k) = s.trace.count (.ran k) :=
    List.count_filter (decide_eq_true rfl)
  rw [← hcount]
  by_cases hr : .ran k ∈ (s.view k).trace
  · obtain ⟨given, htrace⟩ := (hi.lifecycle k).ran hr
    rw [htrace, List.count_cons_of_ne (by nofun), List.count_singleton_self]
  · rw [List.count_eq_zero_of_not_mem hr]
    exact Nat.zero_le 1

theorem Inv.ran_evaluated (hi : Inv s) {pre post : List Event} {k : Str}
    (ht : s.trace = pre ++ .ran k :: post) :
    ∃ given, .evaluated k given (List.replicate given .nothing) ∈ pre ∧
      ∀ g rs, .evaluated k g rs ∈ s.trace → g = given ∧ rs = List.replicate given .nothing := by
  have hr : .ran k ∈ s.trace := by
    rw [ht]
    exact List.mem_append_right _ List.mem_cons_self
  obtain ⟨given, htrace⟩ := (hi.lifecycle k).ran (mem_view_trace.2 hr)
  refine ⟨given, ?_, ?_⟩
  · have hmem : .evaluated k given (List.replicate given .nothing) ∈ (s.view k).trace := by
      rw [htrace]
      exact List.mem_cons_self
    have hfilter : (s.view k).trace = (pre.filter fun e => decide (e.holdId = k)) ++
        .ran k :: post.filter fun e => decide (e.holdId = k) := by
      rw [System.view, ht, List.filter_append, List.filter_cons_of_pos (by simp [Event.holdId])]
    rw [htrace] at hfilter
    cases hpre : pre.filter fun e => decide (e.holdId = k) with
    | nil =>
        rw [hpre] at hfilter
        cases hfilter
    | cons e rest =>
        rw [hpre] at hfilter
        obtain ⟨rfl, -⟩ := List.cons.inj hfilter
        exact (List.mem_filter.1 (hpre ▸ List.mem_cons_self)).1
  · intro g rs hg
    have hg' : .evaluated k g rs ∈ (s.view k).trace := mem_view_trace.2 hg
    rw [htrace] at hg'
    simpa using hg'

theorem Inv.ran_undenied (hi : Inv s) {k : Str} (hr : .ran k ∈ s.trace) : .denied k ∉ s.trace := by
  intro hd
  obtain ⟨given, htrace⟩ := (hi.lifecycle k).ran (mem_view_trace.2 hr)
  have hd' : .denied k ∈ (s.view k).trace := mem_view_trace.2 hd
  rw [htrace] at hd'
  simp at hd'

end Steps

/-! ## The shared budget -/

section Budget

variable {s : System (Counted ω)}

/-- The policy does not lower the count, which only the budget policy itself can reach. -/
def Policy.Keeps (p : Policy (Counted ω)) : Prop := ∀ w a, w.count ≤ (p.call w a).2.count

/-- Every evaluation includes the budget policy, and the host does not lower its count. -/
def SharesBudget (n : Nat) : Op (Counted ω) → Prop
  | .evaluate _ policies => budgetPolicy n ∈ policies ∧ ∀ p ∈ policies, p.Keeps
  | .host act => ∀ w, w.count ≤ (act w).count
  | _ => True

theorem callPolicies_count {policies : List (Policy (Counted ω))} (hk : ∀ p ∈ policies, p.Keeps)
    (w : Counted ω) (a : ProposedAction) : w.count ≤ (callPolicies policies w a).2.count := by
  induction policies generalizing w with
  | nil => exact Nat.le_refl _
  | cons p ps ih =>
      have hp := hk p List.mem_cons_self w a
      rw [callPolicies]
      split
      · exact hp
      · exact hp.trans (ih (fun q hq => hk q (List.mem_cons_of_mem _ hq)) _)

/-- Policies that all return nothing, the budget policy among them, take one unit of the budget. -/
theorem callPolicies_budget {n : Nat} {policies : List (Policy (Counted ω))}
    (hb : budgetPolicy n ∈ policies) (hk : ∀ p ∈ policies, p.Keeps) (w : Counted ω)
    (a : ProposedAction) (hr : ∀ r ∈ (callPolicies policies w a).1, r = .nothing) :
    w.count < n ∧ w.count < (callPolicies policies w a).2.count := by
  induction policies generalizing w with
  | nil => cases hb
  | cons p ps ih =>
      have hkeep : ∀ q ∈ ps, q.Keeps := fun q hq => hk q (List.mem_cons_of_mem _ hq)
      rw [callPolicies] at hr ⊢
      split at hr
      · rename_i hab
        have := hr _ List.mem_cons_self
        rw [this] at hab
        cases hab
      · rename_i hab
        rw [if_neg hab]
        have hfirst : (p.call w a).1 = .nothing := hr _ List.mem_cons_self
        rcases List.mem_cons.1 hb with rfl | hb
        · have hroom : ¬ w.count + 1 > n := by
            intro hgt
            simp only [budgetPolicy, if_pos hgt] at hfirst
            cases hfirst
          have hrest := callPolicies_count hkeep ((budgetPolicy n).call w a).2 a
          have hcount : ((budgetPolicy n).call w a).2.count = w.count + 1 := rfl
          rw [hcount] at hrest
          constructor
          · omega
          · exact hrest
        · have hp := hk p List.mem_cons_self w a
          obtain ⟨hlt, hgrow⟩ := ih hb hkeep _ fun r hrm => hr r (List.mem_cons_of_mem _ hrm)
          exact ⟨Nat.lt_of_le_of_lt hp hlt, Nat.lt_of_le_of_lt hp hgrow⟩

/-- The hold of an evaluation by policies that all returned nothing. -/
def Event.allowed : Event → Option Str
  | .evaluated k given results =>
      if results = List.replicate given .nothing then some k else none
  | _ => none

/-- The hold of a call of an executor. -/
def Event.executor : Event → Option Str
  | .ran k => some k
  | _ => none

/-- The evaluations that allowed are within the budget. -/
def WithinBudget (n : Nat) (s : System (Counted ω)) : Prop :=
  (s.trace.filterMap Event.allowed).length ≤ n ∧
    (s.trace.filterMap Event.allowed).length ≤ s.world.count

theorem WithinBudget.of_trace {n : Nat} {t : System (Counted ω)} (h : WithinBudget n s)
    (ht : t.trace.filterMap Event.allowed = s.trace.filterMap Event.allowed)
    (hw : s.world.count ≤ t.world.count) : WithinBudget n t := by
  rw [WithinBudget, ht]
  exact ⟨h.1, h.2.trans hw⟩

theorem WithinBudget.evaluate {n : Nat} (h : WithinBudget n s) (held : HeldAction)
    {policies : List (Policy (Counted ω))} (hb : budgetPolicy n ∈ policies)
    (hk : ∀ p ∈ policies, p.Keeps) : WithinBudget n (s.step (.evaluate held policies)) := by
  have hgrow := callPolicies_count hk s.world held.action
  rcases evaluate_spec (h := held) s.store s.world policies with
    ⟨-, hrec, hworld⟩ | ⟨e, -, -, -, -, hrec, hworld, -⟩
  · apply h.of_trace
    · simp only [System.step, hrec, Option.map_none, Option.toList_none, List.append_nil]
    · show s.world.count ≤ (s.store.evaluate s.world held policies).world.count
      rcases hworld with hworld | hworld
      · rw [hworld]
      · rw [hworld]
        exact hgrow
  · have hw : (s.step (.evaluate held policies)).world =
        (callPolicies policies s.world held.action).2 := hworld
    have htrace : (s.step (.evaluate held policies)).trace = s.trace ++
        [Event.evaluated held.holdId policies.length
          (callPolicies policies s.world held.action).1] := by
      simp only [System.step, hrec]
      rfl
    by_cases ha : (callPolicies policies s.world held.action).1 =
        List.replicate policies.length .nothing
    · -- the budget policy has returned nothing too, so that there was room
      have hroom := callPolicies_budget hb hk s.world held.action (by
        intro r hr
        rw [ha] at hr
        exact List.eq_of_mem_replicate hr)
      have hlen : ((s.step (.evaluate held policies)).trace.filterMap Event.allowed).length =
          (s.trace.filterMap Event.allowed).length + 1 := by
        rw [htrace, List.filterMap_append, List.length_append]
        simp [Event.allowed, ha]
      have hcount := h.2
      rw [WithinBudget, hlen, hw]
      exact ⟨by omega, by omega⟩
    · apply h.of_trace
      · rw [htrace, List.filterMap_append]
        simp [Event.allowed, ha]
      · rw [hw]
        exact hgrow

theorem WithinBudget.step {n : Nat} (h : WithinBudget n s) {op : Op (Counted ω)}
    (hop : SharesBudget n op) : WithinBudget n (s.step op) := by
  cases op with
  | evaluate held policies => exact h.evaluate held hop.1 hop.2
  | host act => exact h.of_trace rfl (hop s.world)
  | hold action ref now => exact h.of_trace rfl (Nat.le_refl _)
  | release held =>
      rw [System.step]
      split
      · exact h
      · exact h.of_trace rfl (Nat.le_refl _)
  | call held =>
      rw [System.step]
      split
      · apply h.of_trace
        · rw [List.filterMap_append]
          exact List.append_nil _
        · exact Nat.le_refl _
      · exact h
  | returned held error =>
      rw [System.step]
      split
      · exact h.of_trace rfl (Nat.le_refl _)
      · exact h
  | lost held =>
      rw [System.step]
      split
      · exact h.of_trace rfl (Nat.le_refl _)
      · exact h
  | finish held error now =>
      rw [System.step]
      split
      · exact h.of_trace rfl (Nat.le_refl _)
      · exact h
  | deny held reason policyName =>
      rw [System.step]
      split
      · exact h
      · apply h.of_trace
        · rw [List.filterMap_append]
          exact List.append_nil _
        · exact Nat.le_refl _
  | logDenied held reason policyName now =>
      rw [System.step]
      split
      · exact h.of_trace rfl (Nat.le_refl _)
      · exact h

theorem WithinBudget.run {n : Nat} (h : WithinBudget n s) {ops : List (Op (Counted ω))}
    (hops : ∀ op ∈ ops, SharesBudget n op) : WithinBudget n (s.run ops) := by
  induction ops generalizing s with
  | nil => exact h
  | cons op ops ih =>
      exact ih (h.step (hops op List.mem_cons_self)) fun o ho => hops o (List.mem_cons_of_mem _ ho)

omit [FloatModel] in
theorem mem_executors {trace : List Event} {k : Str} :
    k ∈ trace.filterMap Event.executor ↔ .ran k ∈ trace := by
  rw [List.mem_filterMap]
  constructor
  · rintro ⟨e, he, hk⟩
    cases e with
    | ran j =>
        cases hk
        exact he
    | _ => cases hk
  · intro h
    exact ⟨_, h, rfl⟩

omit [FloatModel] in
theorem count_executors (trace : List Event) (k : Str) :
    (trace.filterMap Event.executor).count k = trace.count (.ran k) := by
  induction trace with
  | nil => rfl
  | cons e trace ih =>
      cases e with
      | ran j => simp [Event.executor, List.count_cons, ih]
      | _ =>
          rw [List.filterMap_cons_none rfl, List.count_cons_of_ne (by nofun)]
          exact ih

/-- No more executors run than evaluations allowed. -/
theorem Inv.executors_le (hi : Inv s) :
    (s.trace.filterMap Event.executor).length ≤ (s.trace.filterMap Event.allowed).length := by
  have hnodup : (s.trace.filterMap Event.executor).Nodup := by
    rw [List.nodup_iff_count_le_one]
    intro k
    rw [count_executors]
    exact hi.ran_once k
  have hsub : s.trace.filterMap Event.executor ⊆ s.trace.filterMap Event.allowed := by
    intro k hk
    obtain ⟨pre, post, ht⟩ := List.append_of_mem (mem_executors.1 hk)
    obtain ⟨given, hmem, -⟩ := hi.ran_evaluated ht
    rw [List.mem_filterMap]
    refine ⟨.evaluated k given (List.replicate given .nothing), ?_, if_pos rfl⟩
    rw [ht]
    exact List.mem_append_left _ hmem
  exact (hnodup.subperm hsub).length_le

end Budget

/-! ## The protocol -/

/-- For every interleaving: an executor runs at most once, after the only evaluation of its hold, in
which all policies returned nothing; never for a hold that is denied; a decision stays; the log of a
hold is a prefix of the two complete ones; and a shared budget bounds the executors that run. -/
theorem quarantine_protocol (storeId : Str) (w : Counted ω) (ops : List (Op (Counted ω))) :
    (∀ k, ((System.init storeId w).run ops).trace.count (.ran k) ≤ 1) ∧
    (∀ pre k post, ((System.init storeId w).run ops).trace = pre ++ .ran k :: post →
      ∃ given, .evaluated k given (List.replicate given .nothing) ∈ pre ∧
        ∀ g rs, .evaluated k g rs ∈ ((System.init storeId w).run ops).trace →
          g = given ∧ rs = List.replicate given .nothing) ∧
    (∀ k, .ran k ∈ ((System.init storeId w).run ops).trace →
      .denied k ∉ ((System.init storeId w).run ops).trace) ∧
    (∀ k d more, ((System.init storeId w).run ops).decision k = some d →
      (((System.init storeId w).run ops).run more).decision k = some d) ∧
    (∀ k, kindsOf ((System.init storeId w).run ops).store.log k <+: [.held, .evaluated, .executed] ∨
      kindsOf ((System.init storeId w).run ops).store.log k <+: [.held, .evaluated, .denied]) ∧
    (∀ n, (∀ op ∈ ops, SharesBudget n op) →
      (((System.init storeId w).run ops).trace.filterMap Event.executor).length ≤ n) := by
  have hi := (inv_init storeId w).run ops
  refine ⟨hi.ran_once, fun pre k post ht => hi.ran_evaluated ht, fun k hr => hi.ran_undenied hr,
    fun k d more hd => hi.decision_run more hd, fun k => (hi.lifecycle k).log, ?_⟩
  intro n hops
  have hstart : WithinBudget n (System.init storeId w) := ⟨Nat.zero_le _, Nat.zero_le _⟩
  exact hi.executors_le.trans (hstart.run hops).1

end Model

end ResidualHarness.Quarantine
