import ResidualHarness.Python.WholeFloats
import ResidualHarness.Dsm.Store

/-!
# Terminal task states

Whether terminal states are absorbing. Admission reads the current value through the order keys
`(fencing_token, writer, event_id)`, while absorption is about the order of the journal. If every
event that first gives an entity a terminal state has a greater order key than the events journaled
for the entity before it, then that event stays the winner: no later transition is accepted and the
current value does not change (`run_absorbing`).
-/

set_option autoImplicit false

namespace ResidualHarness.Dsm

open Python Core

section Model

variable [FloatModel]

/-! ## Runs -/

/-- What can happen to a store: a submission, with or without a crash after the journal write; a
change of the lease table; a recovery from the journal file. -/
inductive Op where
  | submit (event : Fields) (event_wf : (Json.obj event).wf = true) (crash : Bool) (timeNs : Int)
  | leases (leases : LeaseManager)
  | recover (ownership : OwnershipRegistry) (leases : LeaseManager)

/-- The store after an operation. A recovery that fails starts no new store. -/
def Store.step (s : Store) : Op → Store
  | .submit event _ crash timeNs => (s.submit event crash timeNs).2
  | .leases leases => { s with leases := leases }
  | .recover ownership leases =>
      match Store.recover s.journal.disk ownership leases with
      | .ok s' => s'
      | .error _ => s

/-- The store after a sequence of operations. -/
def Store.run (s : Store) (ops : List Op) : Store := ops.foldl Store.step s

/-- The event is in the journal of the store. -/
def Store.Journaled (s : Store) (w : Json) : Prop := ∃ ws, s.events = .ok ws ∧ w ∈ ws

/-- The event is about the terminal state of an entity. -/
def AboutTerminal (entity w : Json) : Prop := isAbout terminalDomain entity w = .ok true

/-- The event has a terminal value. -/
def TerminalValued (w : Json) : Prop := ∃ v, w.item (lit "value") = .ok v ∧ v ∈ terminalStates

/-- Terminal states are absorbing: for every terminal event in the journal, its value is the current
one, and no event about its entity with another id is journaled or acknowledged as accepted. -/
def Store.Absorbing (s : Store) : Prop :=
  ∀ w entity value eventId, s.Journaled w → w.item (lit "entity") = .ok entity →
    w.item (lit "value") = .ok value → w.item (lit "event_id") = .ok eventId →
    AboutTerminal entity w → TerminalValued w →
    (∃ v, s.currentValue terminalDomain entity .null = .ok v ∧ v.Same value) ∧
    ∀ (event : Fields) (crash : Bool) (timeNs : Int), (Json.obj event).wf = true →
      AboutTerminal entity (.obj event) →
      (∀ i, event.get (lit "event_id") = .ok i → ¬ i.Same eventId) →
      (s.submit event crash timeNs).2 = s ∧
        ∀ ack, (s.submit event crash timeNs).1 = .ok ack → ack.disposition = .duplicate

/-- The order condition on a step: a new terminal event for an entity that has none in the journal
has a greater order key than every event of the entity. -/
def Store.Ascending (s : Store) : Op → Prop
  | .submit event _ _ _ =>
      ∀ entity eventId, event.get (lit "entity") = .ok entity →
        event.get (lit "event_id") = .ok eventId → s.find eventId = .ok none →
        AboutTerminal entity (.obj event) → TerminalValued (.obj event) →
        (∀ w, s.Journaled w → AboutTerminal entity w → ¬ TerminalValued w) →
        ∀ w, s.Journaled w → AboutTerminal entity w →
          ∃ k l, orderKey w = .ok k ∧ orderKey (.obj event) = .ok l ∧ k.less l = some true
  | _ => True

/-! ## The winner -/

theorem pick_snoc (best x : Event) (xs : List Event) :
    pick best (xs ++ [x]) = (pick best xs).bind fun m => pick m [x] := by
  induction xs generalizing best with
  | nil => rfl
  | cons y ys ih =>
      rw [List.cons_append, pick, pick]
      cases best.key.less y.key with
      | none => rfl
      | some b =>
          cases b with
          | true => exact ih y
          | false => exact ih best

theorem pick_mem {best m : Event} {xs : List Event} (h : pick best xs = some m) :
    m ∈ best :: xs := by
  induction xs generalizing best with
  | nil =>
      cases h
      exact List.mem_cons_self
  | cons y ys ih =>
      rw [pick] at h
      split at h
      · exact List.mem_cons_of_mem _ (ih h)
      · rcases List.mem_cons.1 (ih h) with rfl | hm
        · exact List.mem_cons_self
        · exact List.mem_cons_of_mem _ (List.mem_cons_of_mem _ hm)
      · cases h

/-- The events about the terminal state of an entity. -/
def about (xs : List Event) (entity : Json) : List Event :=
  xs.filter fun x => (x.field "domain").Same terminalDomain ∧ (x.field "entity").Same entity

theorem winner_eq (xs : List Event) (entity : Json) :
    winner xs terminalDomain entity =
      match about xs entity with
      | [] => some none
      | x :: rest => (pick x rest).map some := rfl

theorem mem_about {xs : List Event} {entity : Json} {x : Event} :
    x ∈ about xs entity ↔ x ∈ xs ∧ x.About entity := by
  rw [about, List.mem_filter, decide_eq_true_eq]
  rfl

theorem winner_mem {xs : List Event} {entity : Json} {m : Event}
    (h : winner xs terminalDomain entity = some (some m)) : m ∈ about xs entity := by
  rw [winner_eq] at h
  cases ha : about xs entity with
  | nil =>
      rw [ha] at h
      cases h
  | cons x rest =>
      rw [ha] at h
      simp only [Option.map_eq_some_iff, Option.some.injEq, exists_eq_right] at h
      exact pick_mem h

theorem about_snoc_of_not {xs : List Event} {entity : Json} {x : Event} (h : ¬ x.About entity) :
    about (xs ++ [x]) entity = about xs entity := by
  have hx : decide ((x.field "domain").Same terminalDomain ∧ (x.field "entity").Same entity) =
      false := decide_eq_false h
  rw [about, List.filter_append, List.filter_singleton, hx]
  exact List.append_nil _

theorem about_snoc_of {xs : List Event} {entity : Json} {x : Event} (h : x.About entity) :
    about (xs ++ [x]) entity = about xs entity ++ [x] := by
  have hx : decide ((x.field "domain").Same terminalDomain ∧ (x.field "entity").Same entity) =
      true := decide_eq_true h
  rw [about, List.filter_append, List.filter_singleton, hx]
  rfl

theorem about_congr {entity entity' : Json} (h : entity.Same entity') (xs : List Event) :
    about xs entity = about xs entity' := by
  have hiff : ∀ x : Event, (x.field "entity").Same entity ↔ (x.field "entity").Same entity' :=
    fun x => ⟨fun hx => hx.trans h, fun hx => hx.trans h.symm⟩
  simp only [about, hiff]

theorem winner_congr {entity entity' : Json} (h : entity.Same entity') (xs : List Event) :
    winner xs terminalDomain entity = winner xs terminalDomain entity' := by
  rw [winner_eq, winner_eq, about_congr h]

/-- An event with a greater key than the winner becomes the winner. -/
theorem winner_snoc {xs : List Event} {entity : Json} {x : Event} {w : Option Event}
    (hx : x.About entity) (hw : winner xs terminalDomain entity = some w)
    (hlt : ∀ m, w = some m → m.key.less x.key = some true) :
    winner (xs ++ [x]) terminalDomain entity = some (some x) := by
  rw [winner_eq] at hw ⊢
  rw [about_snoc_of hx]
  cases ha : about xs entity with
  | nil => rfl
  | cons y ys =>
      rw [ha] at hw
      obtain ⟨m, hm, rfl⟩ := Option.map_eq_some_iff.1 hw
      have hlast : pick m [x] = some x := by
        rw [pick, hlt m rfl]
        rfl
      simp only [List.cons_append, pick_snoc, hm, Option.bind_some, hlast, Option.map_some]

/-! ## What a submission can do -/

theorem terminal_not_allowed {current : Json} (h : current ∈ terminalStates) :
    lookupKey terminalTransitions current = .ok (some []) := by
  simp only [terminalStates, List.mem_cons, List.not_mem_nil, or_false] at h
  rcases h with rfl | rfl | rfl | rfl <;> rfl

theorem alike_terminalState {v w : Json} (h : v.Alike w) (hw : w ∈ terminalStates) : v = w := by
  simp only [terminalStates, List.mem_cons, List.not_mem_nil, or_false] at hw
  rcases hw with rfl | rfl | rfl | rfl <;> exact Json.alike_str h

/-- A terminal transition is legal only while the winner is not terminal. -/
theorem checkTerminal_ok {s : Store} {xs : List Event} (h : StoreOf s xs) {x : Event}
    (hc : s.checkTerminal (.obj x.fields) = .ok ()) :
    ∃ w, winner xs terminalDomain (x.field "entity") = some w ∧
      ∀ m, w = some m → m.field "value" ∉ terminalStates := by
  have hent : (Json.obj x.fields).item (lit "entity") = .ok (x.field "entity") :=
    Fields.get_of_get? (x.get_required (by decide))
  rw [Store.checkTerminal, hent] at hc
  simp only [bind, Except.bind] at hc
  rcases currentValue_view h terminalDomain (x.field "entity") .null with
    ⟨hw, -⟩ | ⟨m, v, hw, hv, ha⟩ | ⟨-, hv⟩
  · exact ⟨none, hw, nofun⟩
  · refine ⟨some m, hw, ?_⟩
    rintro m' he hterm
    cases he
    have hvm : v ∈ terminalStates := by
      rw [alike_terminalState ha hterm]
      exact hterm
    -- nothing is allowed after a terminal state
    rw [hv] at hc
    simp only [terminal_not_allowed hvm, Option.getD_some] at hc
    split at hc
    · cases hc
    · split at hc
      · cases hc
      · simp at hc
  · rw [hv] at hc
    cases hc

/-- An admitted event is complete and new, and a terminal transition is legal. -/
theorem admission_none {s : Store} {xs : List Event} (h : StoreOf s xs) {event : Fields}
    (hwf : (Json.obj event).wf = true) (timeNs : Int) (ha : s.admission event = .ok none) :
    ∃ x : Event, x.fields = event ∧ x.timeNs = timeNs ∧
      (∀ y ∈ xs, ¬ (y.field "event_id").Same (x.field "event_id")) ∧
      s.find (x.field "event_id") = .ok none ∧
      ((x.field "domain").Same terminalDomain → s.checkTerminal (.obj x.fields) = .ok ()) := by
  rw [Store.admission] at ha
  cases hm : missingField event with
  | some f =>
      rw [hm] at ha
      cases ha
  | none =>
      rw [hm] at ha
      let x : Event := ⟨event, timeNs, hwf, hm⟩
      have hget : ∀ name ∈ requiredFields, event.get (lit name) = .ok (x.field name) :=
        fun name hn => Fields.get_of_get? (x.get_required hn)
      simp only [bind, Except.bind, hget "event_id" (by decide), hget "domain" (by decide),
        hget "writer" (by decide)] at ha
      rcases find_view h (x.field "event_id") with ⟨r, y, hf, -, -⟩ | ⟨hf, hnew⟩
      · rw [hf] at ha
        cases ha
      · refine ⟨x, rfl, rfl, hnew, hf, ?_⟩
        intro hdom
        have hlease : ¬ (x.field "domain").Same (.str (lit "task.lease")) := by
          intro hl
          have hlit : lit "task.terminal" = lit "task.lease" := Json.str.inj (hdom.symm.trans hl)
          exact absurd hlit (by decide)
        rw [hf] at ha
        simp only at ha
        -- the ownership check comes before the check of the transition
        split at ha
        · cases ha
        · rw [if_neg hlease] at ha
          simp only [if_pos hdom] at ha
          cases hct : s.checkTerminal (.obj event) with
          | ok u => rfl
          | error x =>
              rw [hct] at ha
              cases ha

/-- A submission leaves the store as it is, or journals its event. -/
theorem submit_cases {s : Store} {xs : List Event} (h : StoreOf s xs) {event : Fields}
    (hwf : (Json.obj event).wf = true) (crash : Bool) (timeNs : Int) :
    ((s.submit event crash timeNs).2 = s ∧
        ∀ ack, (s.submit event crash timeNs).1 = .ok ack → ack.disposition = .duplicate) ∨
      ∃ x : Event, x.fields = event ∧ StoreOf (s.submit event crash timeNs).2 (xs ++ [x]) ∧
        (∀ y ∈ xs, ¬ (y.field "event_id").Same (x.field "event_id")) ∧
        s.find (x.field "event_id") = .ok none ∧
        ((x.field "domain").Same terminalDomain → s.checkTerminal (.obj x.fields) = .ok ()) := by
  rw [Store.submit]
  cases ha : s.admission event with
  | error e => exact Or.inl ⟨rfl, nofun⟩
  | ok found =>
      cases found with
      | some r =>
          refine Or.inl ⟨rfl, ?_⟩
          intro ack hack
          simp only [ackOf, bind, Except.bind] at hack
          split at hack
          · cases hack
          · split at hack
            · cases hack
            · cases hack
              rfl
      | none =>
          obtain ⟨x, rfl, rfl, hnew, hf, hlegal⟩ := admission_none h hwf timeNs ha
          simp only
          cases happ : s.journal.append (lit "transition") (.obj [(lit "event", .obj x.fields)])
              x.timeNs with
          | error e => exact Or.inl ⟨rfl, nofun⟩
          | ok p =>
              obtain ⟨journal, record⟩ := p
              refine Or.inr ⟨x, rfl, ?_, hnew, hf, hlegal⟩
              have hrep := append_represents (e := x.entry) h happ
              rw [← List.map_singleton, ← List.map_append] at hrep
              exact hrep

/-! ## The invariant of a run -/

/-- Every terminal event is the winner for its entity. -/
def Settled (xs : List Event) : Prop :=
  ∀ x ∈ xs, x.Terminal → winner xs terminalDomain (x.field "entity") = some (some x)

theorem Stands.about_iff {w : Json} {x : Event} (h : Stands w x) (entity : Json) :
    AboutTerminal entity w ↔ x.About entity := h.isAbout_iff terminalDomain entity

theorem Stands.terminalValued_iff {w : Json} {x : Event} (h : Stands w x) :
    TerminalValued w ↔ x.field "value" ∈ terminalStates := by
  obtain ⟨v, hv, ha⟩ := h.item "value" (by decide)
  rw [TerminalValued, hv]
  constructor
  · rintro ⟨v', he, hm⟩
    cases he
    rw [← alike_terminalState (Eq.symm ha) hm] at hm
    exact hm
  · intro hm
    refine ⟨v, rfl, ?_⟩
    rw [alike_terminalState ha hm]
    exact hm

theorem stands_self (x : Event) : Stands (.obj x.fields) x := rfl

theorem journaled_of_mem {s : Store} {xs : List Event} (h : StoreOf s xs) {x : Event}
    (hx : x ∈ xs) : ∃ w, s.Journaled w ∧ Stands w x := by
  obtain ⟨ws, hws, hst⟩ := events_view h
  obtain ⟨w, hw, hwx⟩ := forall₂_mem_right hst hx
  exact ⟨w, ⟨ws, hws, hw⟩, hwx⟩

theorem mem_of_journaled {s : Store} {xs : List Event} (h : StoreOf s xs) {w : Json}
    (hw : s.Journaled w) : ∃ x ∈ xs, Stands w x := by
  obtain ⟨ws, hws, hmem⟩ := hw
  obtain ⟨ws', hws', hst⟩ := events_view h
  rw [hws] at hws'
  cases hws'
  obtain ⟨x, hx, hwx⟩ := forall₂_mem_left hst hmem
  exact ⟨x, hx, hwx⟩

/-- A journaled event keeps the invariant if its order key is in order. -/
theorem settled_snoc {s : Store} {xs : List Event} (h : StoreOf s xs) (hset : Settled xs)
    {x : Event} {event_wf : (Json.obj x.fields).wf = true} {crash : Bool} {timeNs : Int}
    (hf : s.find (x.field "event_id") = .ok none)
    (hlegal : (x.field "domain").Same terminalDomain → s.checkTerminal (.obj x.fields) = .ok ())
    (hasc : s.Ascending (.submit x.fields event_wf crash timeNs)) : Settled (xs ++ [x]) := by
  -- no event is accepted for an entity that has a terminal event
  have hfree : ∀ y ∈ xs, y.Terminal → ¬ x.About (y.field "entity") := by
    intro y hy hterm hab
    obtain ⟨w, hw, hnot⟩ := checkTerminal_ok h (hlegal hab.1)
    rw [winner_congr hab.2, hset y hy hterm] at hw
    cases hw
    exact hnot y rfl hterm.2
  intro y hy hterm
  rcases List.mem_append.1 hy with hy | hy
  · rw [winner_eq, about_snoc_of_not (hfree y hy hterm), ← winner_eq]
    exact hset y hy hterm
  · rw [List.mem_singleton] at hy
    subst hy
    have hab : y.About (y.field "entity") := ⟨hterm.1, Json.Same.refl _⟩
    obtain ⟨w, hw, -⟩ := checkTerminal_ok h (hlegal hterm.1)
    apply winner_snoc hab hw
    intro m hm
    subst hm
    have hmem := mem_about.1 (winner_mem hw)
    obtain ⟨v, hv, hst⟩ := journaled_of_mem h hmem.1
    have hnone : ∀ w, s.Journaled w → AboutTerminal (y.field "entity") w → ¬ TerminalValued w := by
      intro w hw hwab hwt
      obtain ⟨z, hz, hzst⟩ := mem_of_journaled h hw
      have hzab := (hzst.about_iff _).1 hwab
      have hyab : y.About (z.field "entity") := ⟨hterm.1, hzab.2.symm⟩
      exact hfree z hz ⟨hzab.1, hzst.terminalValued_iff.1 hwt⟩ hyab
    obtain ⟨k, l, hk, hl, hlt⟩ := hasc (y.field "entity") (y.field "event_id")
      (Fields.get_of_get? (y.get_required (by decide)))
      (Fields.get_of_get? (y.get_required (by decide))) hf
      (((stands_self y).about_iff _).2 hab) ((stands_self y).terminalValued_iff.2 hterm.2) hnone v
      hv ((hst.about_iff _).2 hmem.2)
    obtain ⟨k', hk', hka⟩ := hst.orderKey
    obtain ⟨l', hl', hla⟩ := (stands_self y).orderKey
    rw [hk] at hk'
    rw [hl] at hl'
    cases hk'
    cases hl'
    rw [← Json.less_norm, ← hka, ← hla, Json.less_norm]
    exact hlt

/-- One operation journals at most one event, which a submission admitted. -/
theorem step_cases {s : Store} {xs : List Event} (h : StoreOf s xs) (op : Op) :
    StoreOf (s.step op) xs ∨
      ∃ (x : Event) (event_wf : (Json.obj x.fields).wf = true) (crash : Bool) (timeNs : Int),
        op = .submit x.fields event_wf crash timeNs ∧ StoreOf (s.step op) (xs ++ [x]) ∧
        s.find (x.field "event_id") = .ok none ∧
        ((x.field "domain").Same terminalDomain → s.checkTerminal (.obj x.fields) = .ok ()) := by
  cases op with
  | submit event hwf crash timeNs =>
      rcases submit_cases h hwf crash timeNs with ⟨hsame, -⟩ | ⟨x, rfl, hs, -, hf, hlegal⟩
      · left
        rw [Store.step, hsame]
        exact h
      · exact Or.inr ⟨x, hwf, crash, timeNs, rfl, hs, hf, hlegal⟩
  | leases m => exact Or.inl h
  | recover o m =>
      left
      rw [Store.step, Store.recover]
      cases ho : Journal.open s.journal.disk with
      | error e => exact h
      | ok j => exact (open_represents h ho).1

theorem step_storeOf {s : Store} {xs : List Event} (h : StoreOf s xs) (op : Op) :
    ∃ ys, StoreOf (s.step op) ys := by
  rcases step_cases h op with hs | ⟨x, -, -, -, -, hs, -⟩
  · exact ⟨xs, hs⟩
  · exact ⟨xs ++ [x], hs⟩

theorem step_settled {s : Store} {xs : List Event} (h : StoreOf s xs) (hset : Settled xs)
    (op : Op) (hasc : s.Ascending op) : ∃ ys, StoreOf (s.step op) ys ∧ Settled ys := by
  rcases step_cases h op with hs | ⟨x, hwf, crash, timeNs, rfl, hs, hf, hlegal⟩
  · exact ⟨xs, hs, hset⟩
  · exact ⟨xs ++ [x], hs, settled_snoc h hset hf hlegal hasc⟩

theorem run_settled {s : Store} {xs : List Event} (h : StoreOf s xs) (hset : Settled xs)
    (ops : List Op)
    (hasc : ∀ pre op post, ops = pre ++ op :: post → (s.run pre).Ascending op) :
    ∃ ys, StoreOf (s.run ops) ys ∧ Settled ys := by
  induction ops generalizing s xs with
  | nil => exact ⟨xs, h, hset⟩
  | cons op ops ih =>
      obtain ⟨ys, hs, hy⟩ := step_settled h hset op (hasc [] op ops rfl)
      apply ih hs hy
      intro pre op' post he
      exact hasc (op :: pre) op' post (by rw [he]; rfl)

/-- The invariant gives absorption. -/
theorem absorbing_of_settled {s : Store} {xs : List Event} (h : StoreOf s xs)
    (hset : Settled xs) : s.Absorbing := by
  intro w entity value eventId hw hent hval hid hab hterm
  obtain ⟨x, hx, hst⟩ := mem_of_journaled h hw
  obtain ⟨ent, he, hae⟩ := hst.item "entity" (by decide)
  obtain ⟨v, hv, hav⟩ := hst.item "value" (by decide)
  obtain ⟨i, hi, hai⟩ := hst.item "event_id" (by decide)
  rw [hent] at he
  rw [hval] at hv
  rw [hid] at hi
  cases he
  cases hv
  cases hi
  have hxt : x.Terminal := ⟨((hst.about_iff _).1 hab).1, hst.terminalValued_iff.1 hterm⟩
  have hwin : winner xs terminalDomain entity = some (some x) := by
    rw [winner_congr hae.same]
    exact hset x hx hxt
  refine ⟨?_, ?_⟩
  · rcases currentValue_view h terminalDomain entity .null with
      ⟨hw', -⟩ | ⟨m, v, hw', hcur, hav'⟩ | ⟨hw', -⟩
    · rw [hwin] at hw'
      cases hw'
    · rw [hwin] at hw'
      cases hw'
      exact ⟨v, hcur, hav'.same.trans hav.same.symm⟩
    · rw [hwin] at hw'
      cases hw'
  · intro event crash timeNs hwf hab' _
    rcases submit_cases h hwf crash timeNs with hsame | ⟨y, rfl, -, -, -, hlegal⟩
    · exact hsame
    · exfalso
      have hyab := ((stands_self y).about_iff entity).1 hab'
      obtain ⟨m, hm, hnot⟩ := checkTerminal_ok h (hlegal hyab.1)
      rw [winner_congr hyab.2, hwin] at hm
      cases hm
      exact hnot x rfl hxt.2

theorem init_storeOf (ownership : OwnershipRegistry) (leases : LeaseManager) :
    StoreOf (Store.init ownership leases) [] := empty_represents

/-- In every run whose terminal events come in ascending order, terminal states are absorbing in
every state reached. -/
theorem run_absorbing (ownership : OwnershipRegistry) (leases : LeaseManager) (ops : List Op)
    (hasc : ∀ pre op post, ops = pre ++ op :: post →
      ((Store.init ownership leases).run pre).Ascending op) :
    ∀ pre, pre <+: ops → ((Store.init ownership leases).run pre).Absorbing := by
  rintro pre ⟨post, rfl⟩
  have hempty : Settled [] := nofun
  obtain ⟨xs, hs, hset⟩ := run_settled (init_storeOf ownership leases) hempty pre (by
    intro pre' op post' he
    exact hasc pre' op (post' ++ post) (by rw [he, List.append_assoc]; rfl))
  exact absorbing_of_settled hs hset

end Model

/-! ## Concrete runs -/

section Concrete

attribute [local instance] wholeFloats

/-- An event of the orchestrator about the terminal state of task `t`. -/
def taskEvent (eventId value : String) : Fields :=
  [(lit "event_id", .str (lit eventId)), (lit "domain", terminalDomain),
    (lit "entity", .str (lit "t")), (lit "value", .str (lit value)),
    (lit "writer", .str (lit "orchestrator"))]

theorem taskEvent_wf (eventId value : String) : (Json.obj (taskEvent eventId value)).wf = true := by
  have hnd : ([lit "event_id", lit "domain", lit "entity", lit "value", lit "writer"]).Nodup := by
    decide
  rw [Json.wf, Bool.and_eq_true, decide_eq_true_eq]
  exact ⟨hnd, rfl⟩

/-- A new store with the default ownership. -/
def freshStore : Store := Store.init (OwnershipRegistry.init []) ⟨[], []⟩

/-- A task that runs and then succeeds. -/
def runThenSucceed (first second : String) : List Op :=
  [.submit (taskEvent first "running") (taskEvent_wf first "running") false 0,
    .submit (taskEvent second "succeeded") (taskEvent_wf second "succeeded") false 0]

theorem descending_events : (freshStore.run (runThenSucceed "z" "a")).events =
    .ok [.obj (taskEvent "z" "running"), .obj (taskEvent "a" "succeeded")] := by
  decide +kernel

theorem descending_current :
    (freshStore.run (runThenSucceed "z" "a")).currentValue terminalDomain (.str (lit "t")) .null =
      .ok (.str (lit "running")) := by
  decide +kernel

/-- A task runs under event id `z` and succeeds under id `a`: it is still running. -/
theorem terminal_not_absorbing :
    ¬ (freshStore.run (runThenSucceed "z" "a")).Absorbing := by
  intro habs
  have hj : (freshStore.run (runThenSucceed "z" "a")).Journaled
      (.obj (taskEvent "a" "succeeded")) := ⟨_, descending_events, by simp⟩
  have hab : AboutTerminal (.str (lit "t")) (.obj (taskEvent "a" "succeeded")) := by
    rw [AboutTerminal]
    decide
  have hterm : TerminalValued (.obj (taskEvent "a" "succeeded")) :=
    ⟨.str (lit "succeeded"), by decide, List.mem_cons_self⟩
  obtain ⟨⟨v, hv, hsame⟩, -⟩ := habs _ (.str (lit "t")) (.str (lit "succeeded")) (.str (lit "a")) hj
    (by decide) (by decide) (by decide) hab hterm
  rw [descending_current] at hv
  cases hv
  exact absurd hsame (by decide)

theorem ascending_events :
    (freshStore.run [.submit (taskEvent "a" "running") (taskEvent_wf _ _) false 0]).events =
      .ok [.obj (taskEvent "a" "running")] := by
  decide +kernel

/-- With the ids in ascending order the task stays succeeded. -/
theorem run_absorbing_ascending : (freshStore.run (runThenSucceed "a" "b")).Absorbing := by
  refine run_absorbing _ _ (runThenSucceed "a" "b") ?_ _ List.prefix_rfl
  intro pre op post he
  match pre, he with
  | [], he =>
      cases he
      -- the first event is not terminal
      rintro entity eventId - - - - ⟨v, hv, hm⟩
      have hrun : (Json.obj (taskEvent "a" "running")).item (lit "value") =
          .ok (.str (lit "running")) := by decide
      rw [hrun] at hv
      cases hv
      exact absurd hm (by decide)
  | [_], he =>
      cases he
      rintro entity eventId - - - - - - w ⟨ws, hws, hw⟩ -
      have hev := ascending_events.symm.trans hws
      cases hev
      rw [List.mem_singleton] at hw
      subst hw
      exact ⟨.arr [.int 0, .str (lit "orchestrator"), .str (lit "a")],
        .arr [.int 0, .str (lit "orchestrator"), .str (lit "b")], by decide,
        by decide, by decide⟩
  | _ :: _ :: _, he =>
      have hlen := congrArg List.length he
      simp [runThenSucceed] at hlen

end Concrete

end ResidualHarness.Dsm
