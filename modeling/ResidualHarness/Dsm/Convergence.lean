import ResidualHarness.Python.Order
import ResidualHarness.Dsm.Redelivery

/-!
# Convergence of the store

Events of the domains `receipt.publication` and `integration.intent` submitted in any order, any
number of times, with crashes after the journal write and with recoveries in between. The journal
holds each event once (`attempts_spec`). The current value is that of the greatest order key, which
does not depend on the order of the journal when any two keys are ordered (`winner_converges`). A
line separator in a string of an event, or keys that cannot be compared, break it.
-/

set_option autoImplicit false

namespace ResidualHarness.Dsm

open Python Core

section Model

variable [FloatModel]

/-! ## Runs -/

/-- A step of a run: a submission, or a recovery in a new process with the same ownership. -/
inductive Try where
  | submit (event : Fields) (crash : Bool) (timeNs : Int)
  | recover

/-- The store after a step. What a submission raises reaches its caller, who goes on with the store;
a recovery that raises leaves no store. -/
def Store.attempt (s : Store) : Try → Except PyExn Store
  | .submit event crash timeNs => .ok (s.submit event crash timeNs).2
  | .recover => Store.recover s.journal.disk s.ownership s.leases

/-- The store after a sequence of steps. -/
def Store.attempts (s : Store) (tries : List Try) : Except PyExn Store :=
  tries.foldlM Store.attempt s

/-- The steps submit these events, each of them at least once. -/
structure Covers (events : List Fields) (tries : List Try) : Prop where
  only : ∀ event crash timeNs, .submit event crash timeNs ∈ tries → event ∈ events
  all : ∀ event ∈ events, ∃ crash timeNs, .submit event crash timeNs ∈ tries
  time : ∀ event crash timeNs, .submit event crash timeNs ∈ tries → intPrintable timeNs = true

/-- The domains whose values are not bound to leases or terminal states. -/
def freeDomains : List Json := [.str (lit "receipt.publication"), .str (lit "integration.intent")]

/-- A field of an event. -/
def fieldOf (event : Fields) (name : String) : Json := (event.get? (lit name)).getD .null

/-- The event is complete, is of one of these domains and comes from its authoritative writer. -/
structure Proposal (ownership : OwnershipRegistry) (event : Fields) : Prop where
  complete : missingField event = none
  domain : fieldOf event "domain" ∈ freeDomains
  writer : ∃ owner,
    ownership.checkWriter (fieldOf event "domain") (fieldOf event "writer") = .ok owner

/-- Each event is journaled exactly once. -/
def Store.HasOnce (s : Store) (events : List Fields) : Prop :=
  ∃ values, s.events = .ok values ∧ ExactlyOnce values events

/-- The two stores have the same current values, up to the order of keys. -/
def Store.SameValues (s s' : Store) : Prop :=
  ∀ domain entity default, ∃ v v', s.currentValue domain entity default = .ok v ∧
    s'.currentValue domain entity default = .ok v' ∧ v.Alike v'

/-- Whatever the order of the submissions, each event is journaled exactly once and the current
values are the same. -/
def StoreConverges (ownership : OwnershipRegistry) (leases : LeaseManager)
    (events : List Fields) : Prop :=
  ∀ tries tries', Covers events tries → Covers events tries' →
    ∃ s s', (Store.init ownership leases).attempts tries = .ok s ∧
      (Store.init ownership leases).attempts tries' = .ok s' ∧
      s.HasOnce events ∧ s'.HasOnce events ∧ s.SameValues s'

/-- The order key of an event. -/
def keyOf (event : Fields) : Json :=
  .arr [tokenOrZero event, fieldOf event "writer", fieldOf event "event_id"]

/-- One of the two order keys is less than the other. -/
def KeyOrdered (event event' : Fields) : Prop :=
  (keyOf event).less (keyOf event') = some true ∨ (keyOf event').less (keyOf event) = some true

/-- The two events are about the same entity of a domain. -/
def SameEntity (event event' : Fields) : Prop :=
  (fieldOf event "domain").Same (fieldOf event' "domain") ∧
    (fieldOf event "entity").Same (fieldOf event' "entity")

/-- Every event can be journaled and read back, and the keys of events about one entity are
ordered. -/
structure Mergeable (events : List Fields) : Prop where
  digestible : ∀ e ∈ events, Digestible (.obj e)
  lineSafe : ∀ e ∈ events, (Json.obj e).allStr lineSafe = true
  room : ∀ n < events.length, intPrintable (n : Int) = true
  ordered : events.Pairwise fun e e' => SameEntity e e' → KeyOrdered e e'

/-! ## Submitting -/

theorem submit_ownership (s : Store) (event : Fields) (crash : Bool) (timeNs : Int) :
    (s.submit event crash timeNs).2.ownership = s.ownership := by
  rw [Store.submit]
  split
  · rfl
  · rfl
  · split <;> rfl

/-- Admission of a proposal: a duplicate if its id is known, and admitted if it is not. -/
theorem admission_proposal {s : Store} {xs : List Event} (h : StoreOf s xs) {event : Fields}
    (hp : Proposal s.ownership event) :
    ((∃ x ∈ xs, (x.field "event_id").Same (fieldOf event "event_id")) ∧
        ∃ r, s.admission event = .ok (some r)) ∨
      (∀ x ∈ xs, ¬ (x.field "event_id").Same (fieldOf event "event_id")) ∧
        s.admission event = .ok none := by
  have hget : ∀ name ∈ requiredFields, event.get (lit name) = .ok (fieldOf event name) := by
    intro name hn
    have hnone := hp.complete
    rw [missingField, List.find?_eq_none] at hnone
    have hsome : event.get? (lit name) ≠ none := by simpa using hnone name hn
    obtain ⟨v, hv⟩ := Option.ne_none_iff_exists'.1 hsome
    rw [fieldOf, hv]
    exact Fields.get_of_get? hv
  obtain ⟨owner, howner⟩ := hp.writer
  have hfree {t : Str} (hs : (fieldOf event "domain").Same (.str t)) :
      t = lit "receipt.publication" ∨ t = lit "integration.intent" := by
    have hd := hp.domain
    rw [Json.same_str hs] at hd
    simpa only [freeDomains, List.mem_cons, Json.str.injEq, List.not_mem_nil, or_false] using hd
  have hlease : ¬ (fieldOf event "domain").Same (.str (lit "task.lease")) :=
    fun hs => absurd (hfree hs) (by decide)
  have hterminal : ¬ (fieldOf event "domain").Same terminalDomain :=
    fun hs => absurd (hfree hs) (by decide)
  rw [Store.admission, hp.complete]
  simp only [bind, Except.bind, hget "event_id" (by decide), hget "domain" (by decide),
    hget "writer" (by decide)]
  rcases find_view h (fieldOf event "event_id") with ⟨r, x, hf, hx, hs⟩ | ⟨hf, hnew⟩
  · rw [hf]
    exact Or.inl ⟨⟨x, hx, hs⟩, r, rfl⟩
  · rw [hf]
    simp only [howner, if_neg hlease, if_neg hterminal]
    exact Or.inr ⟨hnew, rfl⟩

/-- The store has journaled these events of the set, each once. -/
structure Merged (ownership : OwnershipRegistry) (events : List Fields) (s : Store)
    (xs : List Event) : Prop where
  store : StoreOf s xs
  ownership : s.ownership = ownership
  sub : ∀ x ∈ xs, x.fields ∈ events
  distinct : xs.Pairwise fun x y => ¬ (x.field "event_id").Same (y.field "event_id")

theorem EventSet.unique {events : List Fields} (h : EventSet events) {e e' : Fields}
    (he : e ∈ events) (he' : e' ∈ events) (hs : (eventIdOf e).Same (eventIdOf e')) : e = e' := by
  have hnd : (events.map fun e => (eventIdOf e).plain).Nodup := by
    rw [List.Nodup, List.pairwise_map]
    exact h.distinct
  exact List.inj_on_of_nodup_map hnd he he' hs

theorem EventSet.nodup {events : List Fields} (h : EventSet events) : events.Nodup :=
  h.distinct.imp fun hne he => hne (by rw [he]; exact Json.Same.refl _)

theorem nodup_fields {xs : List Event}
    (h : xs.Pairwise fun x y => ¬ (x.field "event_id").Same (y.field "event_id")) :
    (xs.map Event.fields).Nodup := by
  rw [List.Nodup, List.pairwise_map]
  refine h.imp ?_
  intro x y hne he
  apply hne
  rw [Event.field, Event.field, he]
  exact Json.Same.refl _

section Set

variable {ownership : OwnershipRegistry} {events : List Fields}

/-- One submission: the event is journaled, unless it was before. -/
theorem submit_spec (hset : EventSet events) (hp : ∀ e ∈ events, Proposal ownership e)
    (hm : Mergeable events) {s : Store} {xs : List Event} (h : Merged ownership events s xs)
    {event : Fields} (he : event ∈ events) (crash : Bool) {timeNs : Int}
    (ht : intPrintable timeNs = true) :
    ∃ xs', Merged ownership events (s.submit event crash timeNs).2 xs' ∧ (∀ x ∈ xs, x ∈ xs') ∧
      event ∈ xs'.map Event.fields := by
  have hprop : Proposal s.ownership event := by
    rw [h.ownership]
    exact hp event he
  have howner := submit_ownership s event crash timeNs
  rw [h.ownership] at howner
  rcases admission_proposal h.store hprop with ⟨⟨x, hx, hs⟩, r, hadm⟩ | ⟨hnew, hadm⟩
  · have hsame : (s.submit event crash timeNs).2 = s := by
      rw [Store.submit, hadm]
    rw [hsame]
    refine ⟨xs, h, fun y hy => hy, ?_⟩
    rw [← hset.unique (h.sub x hx) he hs]
    exact List.mem_map_of_mem hx
  · let x : Event := ⟨event, timeNs, hset.wf event he, hprop.complete⟩
    have hsub : ∀ y ∈ xs ++ [x], y.fields ∈ events := by
      intro y hy
      rcases List.mem_append.1 hy with hy | hy
      · exact h.sub y hy
      · rw [List.mem_singleton.1 hy]
        exact he
    have hdist : (xs ++ [x]).Pairwise fun x y =>
        ¬ (x.field "event_id").Same (y.field "event_id") := by
      rw [List.pairwise_append]
      refine ⟨h.distinct, List.pairwise_singleton _ _, ?_⟩
      intro y hy z hz
      rw [List.mem_singleton.1 hz]
      exact hnew y hy
    -- the journal never has more records than there are events
    have hlen : xs.length < events.length := by
      have hle := (List.subperm_of_subset (nodup_fields hdist) (by
        intro e hmem
        obtain ⟨y, hy, rfl⟩ := List.mem_map.1 hmem
        exact hsub y hy)).length_le
      rw [List.length_map, List.length_append, List.length_singleton] at hle
      omega
    have hfit : Fits x.entry (xs.map Event.entry).length := by
      rw [List.length_map]
      exact ⟨hm.room _ hlen, encodable_lit _, ht, digestible_single.2 (hm.digestible event he)⟩
    rcases append_cases h.store x.entry with ⟨-, j, r, happ, hrep⟩ | ⟨hn, -⟩
    · have happ' : s.journal.append (lit "transition") (.obj [(lit "event", .obj event)]) timeNs =
          .ok (j, r) := happ
      have hstore : (s.submit event crash timeNs).2 = { s with journal := j } := by
        rw [Store.submit, hadm]
        simp only [happ']
      rw [hstore] at howner ⊢
      refine ⟨xs ++ [x], ⟨?_, howner, hsub, hdist⟩, fun y hy => List.mem_append_left _ hy, ?_⟩
      · rw [StoreOf, List.map_append]
        exact hrep
      · rw [List.map_append]
        exact List.mem_append_right _ (List.mem_singleton.2 rfl)
    · exact absurd hfit hn

theorem recover_spec (hm : Mergeable events) {s : Store} {xs : List Event}
    (h : Merged ownership events s xs) :
    ∃ s', s.attempt .recover = .ok s' ∧ Merged ownership events s' xs := by
  have hsafe : ∀ e ∈ xs.map Event.entry, e.lineSafe = true := by
    intro e he
    obtain ⟨x, hx, rfl⟩ := List.mem_map.1 he
    have hl := hm.lineSafe x.fields (h.sub x hx)
    have hkind : Python.lineSafe (lit "transition") = true := by decide
    have hkey : Python.lineSafe (lit "event") = true := by decide
    simp only [Entry.lineSafe, Event.entry, Json.allStr, Json.allStrFields, hkind, hkey,
      Bool.true_and, Bool.and_true]
    simp only [Json.allStr] at hl
    exact hl
  obtain ⟨j, hj⟩ := (open_ok_iff h.store).2 hsafe
  refine ⟨⟨j, s.ownership, s.leases⟩, ?_, (open_represents h.store hj).1, h.ownership, h.sub,
    h.distinct⟩
  rw [Store.attempt, Store.recover, hj]
  rfl

theorem attempts_spec (hset : EventSet events) (hp : ∀ e ∈ events, Proposal ownership e)
    (hm : Mergeable events) {tries : List Try} : ∀ {s : Store} {xs : List Event},
    Merged ownership events s xs →
    (∀ event crash timeNs, .submit event crash timeNs ∈ tries →
      event ∈ events ∧ intPrintable timeNs = true) →
    ∃ s' xs', s.attempts tries = .ok s' ∧ Merged ownership events s' xs' ∧
      (∀ x ∈ xs, x ∈ xs') ∧
      ∀ event crash timeNs, .submit event crash timeNs ∈ tries → event ∈ xs'.map Event.fields := by
  induction tries with
  | nil =>
      intro s xs h _
      exact ⟨s, xs, rfl, h, fun x hx => hx, nofun⟩
  | cons t tries ih =>
      intro s xs h hin
      have hrest : ∀ event crash timeNs, .submit event crash timeNs ∈ tries →
          event ∈ events ∧ intPrintable timeNs = true :=
        fun e c n hmem => hin e c n (List.mem_cons_of_mem _ hmem)
      rw [Store.attempts, List.foldlM_cons]
      cases t with
      | submit event crash timeNs =>
          obtain ⟨he, ht⟩ := hin event crash timeNs List.mem_cons_self
          obtain ⟨xs₁, h₁, hold₁, hmem₁⟩ := submit_spec hset hp hm h he crash ht
          obtain ⟨s₂, xs₂, hrun, h₂, hold₂, hmem₂⟩ := ih h₁ hrest
          refine ⟨s₂, xs₂, hrun, h₂, fun x hx => hold₂ x (hold₁ x hx), ?_⟩
          intro e c n hmem
          rcases List.mem_cons.1 hmem with heq | hmem
          · cases heq
            obtain ⟨x, hx, hfields⟩ := List.mem_map.1 hmem₁
            exact List.mem_map.2 ⟨x, hold₂ x hx, hfields⟩
          · exact hmem₂ e c n hmem
      | recover =>
          obtain ⟨s₁, hs₁, h₁⟩ := recover_spec hm h
          obtain ⟨s₂, xs₂, hrun, h₂, hold₂, hmem₂⟩ := ih h₁ hrest
          refine ⟨s₂, xs₂, ?_, h₂, hold₂, ?_⟩
          · rw [hs₁]
            exact hrun
          · intro e c n hmem
            rcases List.mem_cons.1 hmem with heq | hmem
            · cases heq
            · exact hmem₂ e c n hmem

/-- A run that covers the events has them all in its journal. -/
theorem covers_spec (hset : EventSet events) (hp : ∀ e ∈ events, Proposal ownership e)
    (hm : Mergeable events) (leases : LeaseManager) {tries : List Try}
    (hc : Covers events tries) :
    ∃ s xs, (Store.init ownership leases).attempts tries = .ok s ∧
      Merged ownership events s xs ∧ (xs.map Event.fields).Perm events := by
  have h0 : Merged ownership events (Store.init ownership leases) [] :=
    ⟨init_storeOf ownership leases, rfl, nofun, List.Pairwise.nil⟩
  obtain ⟨s, xs, hrun, h, -, hall⟩ := attempts_spec hset hp hm h0
    fun e c n hmem => ⟨hc.only e c n hmem, hc.time e c n hmem⟩
  refine ⟨s, xs, hrun, h, ?_⟩
  rw [List.perm_ext_iff_of_nodup (nodup_fields h.distinct) hset.nodup]
  intro e
  constructor
  · intro hmem
    obtain ⟨x, hx, rfl⟩ := List.mem_map.1 hmem
    exact h.sub x hx
  · intro he
    obtain ⟨c, n, hmem⟩ := hc.all e he
    exact hall e c n hmem

/-! ## The greatest key -/

omit ownership events in
theorem KeyOrdered.symm {e e' : Fields} (h : KeyOrdered e e') : KeyOrdered e' e := Or.symm h

/-- The first of the greatest events is the greatest one. -/
theorem pick_greatest {best : Event} {xs : List Event}
    (h : (best :: xs).Pairwise fun x y => KeyOrdered x.fields y.fields) :
    ∃ m, pick best xs = some m ∧ m ∈ best :: xs ∧
      ∀ x ∈ best :: xs, x = m ∨ x.key.less m.key = some true := by
  induction xs generalizing best with
  | nil => exact ⟨best, rfl, List.mem_cons_self, fun x hx => Or.inl (List.mem_singleton.1 hx)⟩
  | cons y ys ih =>
      obtain ⟨hbest, hys⟩ := List.pairwise_cons.1 h
      obtain ⟨hbesty, hbestys⟩ := List.forall_mem_cons.1 hbest
      -- the loser is below the winner of the rest, which is at least the one it lost to
      have hbelow : ∀ {u v m : Event}, u.key.less v.key = some true →
          (v = m ∨ v.key.less m.key = some true) → u = m ∨ u.key.less m.key = some true := by
        rintro u v m huv (rfl | hvm)
        · exact Or.inr huv
        · exact Or.inr (Json.less_trans huv hvm)
      rcases hbesty with hlt | hgt
      · have hlt' : best.key.less y.key = some true := hlt
        obtain ⟨m, hpick, hmem, hmax⟩ := ih hys
        refine ⟨m, ?_, List.mem_cons_of_mem _ hmem, ?_⟩
        · rw [pick, hlt']
          exact hpick
        · intro x hx
          rcases List.mem_cons.1 hx with rfl | hx
          · exact hbelow hlt' (hmax y List.mem_cons_self)
          · exact hmax x hx
      · have hgt' : y.key.less best.key = some true := hgt
        obtain ⟨m, hpick, hmem, hmax⟩ := ih
          (List.pairwise_cons.2 ⟨hbestys, (List.pairwise_cons.1 hys).2⟩)
        refine ⟨m, ?_, ?_, ?_⟩
        · rw [pick, Json.less_asymm hgt']
          exact hpick
        · rcases List.mem_cons.1 hmem with rfl | hmem
          · exact List.mem_cons_self
          · exact List.mem_cons_of_mem _ (List.mem_cons_of_mem _ hmem)
        · intro x hx
          rcases List.mem_cons.1 hx with rfl | hx
          · exact hmax x List.mem_cons_self
          · rcases List.mem_cons.1 hx with rfl | hx
            · exact hbelow hgt' (hmax best List.mem_cons_self)
            · exact hmax x (List.mem_cons_of_mem _ hx)

/-- Two lists of the same events have the same greatest one. -/
theorem greatest_unique {xs ys : List Event} {m n : Event}
    (hperm : (xs.map Event.fields).Perm (ys.map Event.fields)) (hm : m ∈ xs) (hn : n ∈ ys)
    (hmax : ∀ x ∈ xs, x = m ∨ x.key.less m.key = some true)
    (hmax' : ∀ y ∈ ys, y = n ∨ y.key.less n.key = some true) : m.fields = n.fields := by
  obtain ⟨y, hy, hym⟩ := List.mem_map.1 (hperm.mem_iff.1 (List.mem_map_of_mem hm))
  obtain ⟨x, hx, hxn⟩ := List.mem_map.1 (hperm.mem_iff.2 (List.mem_map_of_mem hn))
  rcases hmax' y hy with rfl | hlt
  · exact hym.symm
  · rcases hmax x hx with rfl | hlt'
    · exact hxn
    · have hykey : y.key = m.key := congrArg keyOf hym
      have hxkey : x.key = n.key := congrArg keyOf hxn
      rw [hykey] at hlt
      rw [hxkey, Json.less_asymm hlt] at hlt'
      cases hlt'

/-- The event is about the entity of the domain. -/
def aboutEntity (domain entity : Json) (event : Fields) : Bool :=
  decide ((fieldOf event "domain").Same domain ∧ (fieldOf event "entity").Same entity)

omit ownership in
/-- The winner does not depend on the order of the journal. -/
theorem winner_converges (hm : Mergeable events) {xs ys : List Event}
    (hx : (xs.map Event.fields).Perm events) (hy : (ys.map Event.fields).Perm events)
    (domain entity : Json) :
    (winner xs domain entity = some none ∧ winner ys domain entity = some none) ∨
      ∃ m n, winner xs domain entity = some (some m) ∧ winner ys domain entity = some (some n) ∧
        m.fields = n.fields := by
  have hordered : ∀ {zs : List Event}, (zs.map Event.fields).Perm events →
      (zs.filter fun z => (z.field "domain").Same domain ∧ (z.field "entity").Same entity).Pairwise
        fun x y => KeyOrdered x.fields y.fields := by
    intro zs hz
    have hsymm : ∀ {e e' : Fields}, (SameEntity e e' → KeyOrdered e e') →
        SameEntity e' e → KeyOrdered e' e :=
      fun h hs => (h ⟨hs.1.symm, hs.2.symm⟩).symm
    have hzs : zs.Pairwise fun x y => SameEntity x.fields y.fields →
        KeyOrdered x.fields y.fields :=
      List.pairwise_map.1 ((hz.pairwise_iff hsymm).2 hm.ordered)
    refine (hzs.filter _).imp_of_mem ?_
    intro x y hxm hym h
    have hxa := of_decide_eq_true (List.mem_filter.1 hxm).2
    have hya := of_decide_eq_true (List.mem_filter.1 hym).2
    exact h ⟨hxa.1.trans hya.1.symm, hxa.2.trans hya.2.symm⟩
  have hperm : ((xs.filter fun z => (z.field "domain").Same domain ∧
        (z.field "entity").Same entity).map Event.fields).Perm
      ((ys.filter fun z => (z.field "domain").Same domain ∧
        (z.field "entity").Same entity).map Event.fields) := by
    have hmap : ∀ zs : List Event, (zs.filter fun z => (z.field "domain").Same domain ∧
        (z.field "entity").Same entity).map Event.fields =
        (zs.map Event.fields).filter (aboutEntity domain entity) := by
      intro zs
      rw [List.filter_map]
      rfl
    rw [hmap, hmap]
    exact (hx.trans hy.symm).filter _
  have hxo := hordered hx
  have hyo := hordered hy
  rw [winner, winner]
  generalize xs.filter (fun z => (z.field "domain").Same domain ∧
    (z.field "entity").Same entity) = as at hperm hxo
  generalize ys.filter (fun z => (z.field "domain").Same domain ∧
    (z.field "entity").Same entity) = bs at hperm hyo
  have hlen := hperm.length_eq
  rw [List.length_map, List.length_map] at hlen
  cases as with
  | nil =>
      cases bs with
      | nil => exact Or.inl ⟨rfl, rfl⟩
      | cons b bs => cases hlen
  | cons a as =>
      cases bs with
      | nil => cases hlen
      | cons b bs =>
          obtain ⟨m, hpick, hmem, hmax⟩ := pick_greatest hxo
          obtain ⟨n, hpick', hmem', hmax'⟩ := pick_greatest hyo
          refine Or.inr ⟨m, n, ?_, ?_, greatest_unique hperm hmem hmem' hmax hmax'⟩
          · simp only [hpick, Option.map_some]
          · simp only [hpick', Option.map_some]

omit ownership in
/-- Stores that journaled the same events have the same current values. -/
theorem sameValues_of_perm (hm : Mergeable events) {s s' : Store} {xs ys : List Event}
    (hs : StoreOf s xs) (hs' : StoreOf s' ys) (hx : (xs.map Event.fields).Perm events)
    (hy : (ys.map Event.fields).Perm events) : s.SameValues s' := by
  intro domain entity default
  rcases winner_converges hm hx hy domain entity with ⟨hw, hw'⟩ | ⟨m, n, hw, hw', hmn⟩
  · rcases currentValue_view hs domain entity default with ⟨-, hv⟩ | ⟨x, v, h, -⟩ | ⟨h, -⟩
    · rcases currentValue_view hs' domain entity default with ⟨-, hv'⟩ | ⟨x, v, h, -⟩ | ⟨h, -⟩
      · exact ⟨default, default, hv, hv', rfl⟩
      · rw [hw'] at h
        cases h
      · rw [hw'] at h
        cases h
    · rw [hw] at h
      cases h
    · rw [hw] at h
      cases h
  · rcases currentValue_view hs domain entity default with ⟨h, -⟩ | ⟨x, v, h, hv, ha⟩ | ⟨h, -⟩
    · rw [hw] at h
      cases h
    · rcases currentValue_view hs' domain entity default with
        ⟨h', -⟩ | ⟨x', v', h', hv', ha'⟩ | ⟨h', -⟩
      · rw [hw'] at h'
        cases h'
      · rw [hw] at h
        rw [hw'] at h'
        cases h
        cases h'
        refine ⟨v, v', hv, hv', ?_⟩
        have hval : m.field "value" = n.field "value" := by
          rw [Event.field, Event.field, hmn]
        rw [← hval] at ha'
        exact Eq.trans ha (Eq.symm ha')
      · rw [hw'] at h'
        cases h'
    · rw [hw] at h
      cases h

/-- The journal of a store with the events, each once. -/
theorem hasOnce_of_perm {s : Store} {xs : List Event} (hs : StoreOf s xs)
    (hx : (xs.map Event.fields).Perm events) : s.HasOnce events := by
  obtain ⟨ws, hws, hst⟩ := events_view hs
  refine ⟨ws, hws, ?_⟩
  have hnorm : ws.map Json.norm = (xs.map Event.fields).map fun e => (Json.obj e).norm := by
    rw [List.map_map, ← List.forall₂_eq_eq_eq, List.forall₂_map_left_iff,
      List.forall₂_map_right_iff]
    exact hst
  rw [ExactlyOnce, hnorm]
  exact hx.map _

theorem store_converges (hset : EventSet events) (hp : ∀ e ∈ events, Proposal ownership e)
    (hm : Mergeable events) (leases : LeaseManager) :
    StoreConverges ownership leases events := by
  intro tries tries' hc hc'
  obtain ⟨s, xs, hrun, h, hx⟩ := covers_spec hset hp hm leases hc
  obtain ⟨s', ys, hrun', h', hy⟩ := covers_spec hset hp hm leases hc'
  exact ⟨s, s', hrun, hrun', hasOnce_of_perm h.store hx, hasOnce_of_perm h'.store hy,
    sameValues_of_perm hm h.store h'.store hx hy⟩

/-- Exactly-once delivery and convergence of the store: publishing, one pass over the faulty channel
and one over a clean channel converge exactly for events that can be sent under the schedule, and
every two runs of the store over events that can be merged converge. -/
theorem exactly_once_convergence (hset : EventSet events) :
    (∀ schedule, DeliveryConverges events schedule ↔ Sendable events schedule) ∧
      ∀ ownership leases, (∀ e ∈ events, Proposal ownership e) → Mergeable events →
        StoreConverges ownership leases events :=
  ⟨delivery_converges hset, fun _ leases hp hm => store_converges hset hp hm leases⟩

end Set

end Model

/-! ## Concrete events -/

section Concrete

attribute [local instance] wholeFloats

/-- A publication by the verifier about the entity `t`. -/
def publication (eventId value : Str) : Fields :=
  [(lit "event_id", .str eventId), (lit "domain", .str (lit "receipt.publication")),
    (lit "entity", .str (lit "t")), (lit "value", .str value), (lit "writer", .str (lit "verifier"))]

theorem publication_proposal {events : List Fields}
    (h : ∀ e ∈ events, missingField e = none ∧ fieldOf e "domain" ∈ freeDomains ∧
      (OwnershipRegistry.init []).checkWriter (fieldOf e "domain") (fieldOf e "writer") =
        .ok (.str (lit "verifier"))) :
    ∀ e ∈ events, Proposal (OwnershipRegistry.init []) e :=
  fun e he => ⟨(h e he).1, (h e he).2.1, _, (h e he).2.2⟩

/-- Two publications about one entity. -/
def publications : List Fields :=
  [publication (lit "a") (lit "first"), publication (lit "b") (lit "second")]

/-- The first message is swapped and doubled, and the second one is lost. -/
def mixedFaults : FaultSchedule :=
  ⟨[⟨0, .reorder, 0⟩, ⟨0, .duplicate, 0⟩, ⟨1, .loss, 0⟩]⟩

theorem publications_set : EventSet publications :=
  ⟨by decide, by decide, by decide⟩

theorem publications_converge : DeliveryConverges publications mixedFaults ∧
    StoreConverges (OwnershipRegistry.init []) ⟨[], []⟩ publications := by
  have h := exactly_once_convergence publications_set
  refine ⟨(h.1 mixedFaults).2 ⟨by decide, by decide, by decide, ?_⟩,
    h.2 _ _ (publication_proposal (by decide))
      ⟨by decide, by decide, by decide, ?_⟩⟩
  · unfold FaultSchedule.InRange
    decide
  · rw [publications, List.pairwise_pair]
    intro _
    left
    decide

/-- A publication with a line separator, U+2028, in its value. -/
def brokenPublication : List Fields := [publication (lit "a") [0x61, 0x2028, 0x62]]

/-- One submission and a recovery. -/
def submitRecover (events : List Fields) : List Try :=
  events.map (fun e => Try.submit e false 0) ++ [.recover]

theorem submitRecover_covers (events : List Fields) : Covers events (submitRecover events) := by
  have hmem : ∀ {e : Fields} {c : Bool} {n : Int}, .submit e c n ∈ submitRecover events →
      e ∈ events ∧ c = false ∧ n = 0 := by
    intro e c n h
    rcases List.mem_append.1 h with h | h
    · obtain ⟨e', he', heq⟩ := List.mem_map.1 h
      cases heq
      exact ⟨he', rfl, rfl⟩
    · cases List.mem_singleton.1 h
  refine ⟨fun e c n h => (hmem h).1, fun e he => ⟨false, 0, ?_⟩, fun e c n h => ?_⟩
  · exact List.mem_append_left _ (List.mem_map_of_mem he)
  · rw [(hmem h).2.2]
    exact intPrintable_zero

/-- The event with the line separator is journaled and cannot be recovered; a reorder fault before
the start of the list stops the channel. -/
theorem convergence_fails :
    (EventSet brokenPublication ∧
      (∀ e ∈ brokenPublication, Proposal (OwnershipRegistry.init []) e) ∧
      ¬ StoreConverges (OwnershipRegistry.init []) ⟨[], []⟩ brokenPublication) ∧
    EventSet publications ∧ ¬ DeliveryConverges publications ⟨[⟨-3, .reorder, 0⟩]⟩ := by
  refine ⟨⟨⟨by decide, by decide, by decide⟩,
    publication_proposal (by decide), ?_⟩, publications_set, ?_⟩
  · intro h
    have hcover := submitRecover_covers brokenPublication
    obtain ⟨s, -, hs, -⟩ := h _ _ hcover hcover
    have herr : ((Store.init (OwnershipRegistry.init []) ⟨[], []⟩).attempts
        (submitRecover brokenPublication)).isOk = false := by decide +kernel
    rw [hs] at herr
    cases herr
  · rw [delivery_converges publications_set]
    intro h
    have hin := h.inRange
    unfold FaultSchedule.InRange at hin
    revert hin
    decide

end Concrete

end ResidualHarness.Dsm
