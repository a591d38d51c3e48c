import ResidualHarness.Dsm.Faults
import ResidualHarness.Dsm.Delivery

/-!
# Delivery over a faulty channel

The loop of `run_fault_matrix` in `residual/dsm/evidence.py`: events are published, what is pending
is sent through a faulty channel, every accepted delivery is acknowledged, and what is still pending
is sent again on a clean channel. Acknowledgements and deliveries stay in step (`Delivered`), so
that the second round delivers exactly what the first one lost. When the inbox accepts every event
once and nothing stays pending is said in `delivery_converges`.
-/

set_option autoImplicit false

namespace ResidualHarness.Dsm

open Python Core

variable [FloatModel]

/-! ## Appending -/

omit [FloatModel] in
theorem encodable_genesis : encodable genesis = true := by decide

theorem chainHead_encodable (seq : Nat) {prev : Str} (hp : encodable prev = true)
    (es : List Entry) : encodable (chainHead journalFormat seq prev es) = true := by
  induction es generalizing seq prev with
  | nil => exact hp
  | cons e es ih => exact ih (seq + 1) (sha256_encodable _)

theorem digestible_body_iff (e : Entry) (seq : Nat) {prev : Str} (hp : encodable prev = true) :
    Digestible (.obj (e.body journalFormat seq prev)) ↔
      intPrintable seq = true ∧ encodable e.kind = true ∧ intPrintable e.timeNs = true ∧
        Digestible e.payload := by
  have hkeys := journalFormat.plain
  simp only [List.forall_mem_cons] at hkeys
  simp only [Entry.body, recordBody, digestible_obj, List.forall_mem_cons, digestible_int,
    digestible_str, hkeys, hp, true_and, List.not_mem_nil, false_imp_iff, implies_true, and_true]

/-- What can be appended to a journal of `n` records. -/
def Fits (e : Entry) (n : Nat) : Prop :=
  intPrintable n = true ∧ encodable e.kind = true ∧ intPrintable e.timeNs = true ∧
    Digestible e.payload

theorem append_cases {j : Journal} {es : List Entry} (h : Represents j es) (e : Entry) :
    (Fits e es.length ∧ ∃ j' r, j.append e.kind e.payload e.timeNs = .ok (j', r) ∧
        Represents j' (es ++ [e])) ∨
      ¬ Fits e es.length ∧ ∃ x, j.append e.kind e.payload e.timeNs = .error x := by
  have hiff := digestible_body_iff e es.length (chainHead_encodable 0 encodable_genesis es)
  have hbody : recordBody journalFormat j.records.length e.kind e.timeNs j.head e.payload =
      e.body journalFormat es.length (chainHead journalFormat 0 genesis es) := by
    rw [h.length, h.head]
    rfl
  by_cases hfit : Fits e es.length
  · have hdig := hiff.2 hfit
    have hrec := record_digestible hdig
    have henc : encodable ((Json.obj (e.record journalFormat es.length
        (chainHead journalFormat 0 genesis es))).render ++ [lf]) = true := by
      rw [encodable_append, encodable_render hrec.1, hrec.2]
      rfl
    have hcan : canonical (.obj (e.body journalFormat es.length
          (chainHead journalFormat 0 genesis es) ++ [(lit "hash", Json.str (digestText (.obj (e.body
            journalFormat es.length (chainHead journalFormat 0 genesis es)))))])) =
        .ok (Json.obj (e.record journalFormat es.length
          (chainHead journalFormat 0 genesis es))).render := canonical_of_dumpable hrec.1
    cases happ : j.append e.kind e.payload e.timeNs with
    | ok p => exact Or.inl ⟨hfit, p.1, p.2, rfl, append_represents h happ⟩
    | error x =>
        rw [Journal.append, hbody] at happ
        simp only [bind, Except.bind, pure, Except.pure, digest_of_digestible hdig, hcan,
          utf8_of_encodable henc] at happ
        cases happ
  · refine Or.inr ⟨hfit, ?_⟩
    rw [Journal.append, hbody]
    cases hd : digest (.obj (e.body journalFormat es.length
        (chainHead journalFormat 0 genesis es))) with
    | error x => exact ⟨x, rfl⟩
    | ok hash => exact absurd (hiff.1 (digest_eq_ok_iff.1 hd).1) hfit

/-! ## What is pending -/

/-- `(eid, event) < (eid', event')`. -/
def itemLess (a b : Json × Json) : Option Bool := Json.less (.arr [a.1, a.2]) (.arr [b.1, b.2])

/-- `sorted(items)`. Keys of one type can be compared and keys of different types cannot, so that a
sort compares two keys of different types if there are any. -/
def sortedItems (items : List (Json × Json)) : Except PyExn (List (Json × Json)) :=
  if items.Pairwise fun a b => (itemLess a b).isSome then
    .ok (items.insertionSort fun a b => itemLess b a ≠ some true)
  else .error .typeError

/-- `Outbox.pending()`. -/
def Outbox.pending (o : Outbox) : Except PyExn (List Json) := do
  let items ← sortedItems o.sent
  let unacked ← filterE (fun item => return !(← o.acks.isAcked item.1)) items
  return unacked.map Prod.snd

/-! ## One case of the fault matrix -/

/-- Publishing every event. -/
def publishAll (events : List Fields) : Except PyExn Outbox :=
  events.foldlM (fun o event => (o.publish event 0).map Prod.snd) Outbox.empty

/-- One delivery, with an acknowledgement if it was accepted. -/
def deliverAck (ends : Outbox × Inbox) (event : Json) : Except PyExn (Outbox × Inbox) :=
  match event with
  | .obj d => do
      let (disposition, inbox) ← ends.2.deliver d 0
      if disposition = .accepted then
        let (_, outbox) ← ends.1.ack (← Fields.get d (lit "event_id")) 0
        return (outbox, inbox)
      else return (ends.1, inbox)
  | _ => .error .typeError

/-- The body of the loop of `run_fault_matrix`: the two ends after both passes. -/
def runCase (events : List Fields) (schedule : FaultSchedule) : Except PyExn (Outbox × Inbox) := do
  let outbox ← publishAll events
  let delivered ← simulate (← outbox.pending) schedule
  let (outbox, inbox) ← delivered.foldlM deliverAck (outbox, Inbox.empty)
  let retransmitted ← simulate (← outbox.pending) ⟨[]⟩
  retransmitted.foldlM deliverAck (outbox, inbox)

/-- The events of the records that `accepted_ids` lists. -/
def Inbox.accepted (b : Inbox) : Except PyExn (List Json) := do
  let records ← filterE (fun r => do
    if (← r.get (lit "kind")).Same (.str (lit "deliver")) then
      return (← (← r.get (lit "payload")).item (lit "disposition")).Same (.str (lit "accepted"))
    else return false) (← b.journal.replay (-1))
  mapE eventOf records

/-- `event["event_id"]` of an event that has one. -/
def eventIdOf (event : Fields) : Json := (event.get? (lit "event_id")).getD .null

/-- Finitely many events with distinct ids. -/
structure EventSet (events : List Fields) : Prop where
  wf : ∀ e ∈ events, (Json.obj e).wf = true
  has_id : ∀ e ∈ events, (e.get? (lit "event_id")).isSome = true
  distinct : events.Pairwise fun e e' => ¬ (eventIdOf e).Same (eventIdOf e')

/-- The values are those of the events, each exactly once, up to the order of keys. -/
def ExactlyOnce (values : List Json) (events : List Fields) : Prop :=
  (values.map Json.norm).Perm (events.map fun e => (Json.obj e).norm)

/-- Both passes return, every event is accepted exactly once and nothing is pending. -/
def DeliveryConverges (events : List Fields) (schedule : FaultSchedule) : Prop :=
  ∃ outbox inbox values, runCase events schedule = .ok (outbox, inbox) ∧
    outbox.pending = .ok [] ∧ inbox.accepted = .ok values ∧ ExactlyOnce values events

/-! ## Publishing -/

/-- The outbox holds these messages, published at time 0, none of them acknowledged. -/
structure Published (o : Outbox) (xs : List Message) : Prop where
  outbox : OutboxOf o xs []
  sent : o.sent = xs.map fun x => (x.eventId, Json.obj x.fields)
  time : ∀ x ∈ xs, x.timeNs = 0

/-- An event that can be published after `n` others. -/
def Publishable (event : Fields) (n : Nat) : Prop :=
  (eventIdOf event).hashable = true ∧ Digestible (.obj event) ∧ intPrintable n = true

theorem digestible_single {key : String} {v : Json} :
    Digestible (.obj [(lit key, v)]) ↔ Digestible v := by
  simp only [digestible_obj, List.forall_mem_cons, encodable_lit, true_and, List.not_mem_nil,
    false_imp_iff, implies_true, and_true]

omit [FloatModel] in
theorem intPrintable_zero : intPrintable 0 = true := by decide

theorem containsKey_new {α : Type} {d : List (Json × α)} {key : Json} (hk : key.hashable = true)
    (hnew : ∀ kv ∈ d, ¬ kv.1.Same key) : containsKey d key = .ok false := by
  have hfind : d.find? (fun kv => kv.1.Same key) = none := by
    rw [List.find?_eq_none]
    intro kv hkv
    simpa using hnew kv hkv
  rw [containsKey, lookupKey, if_pos hk, hfind]
  rfl

theorem containsKey_old {α : Type} {d : List (Json × α)} {key : Json} (hk : key.hashable = true)
    {kv : Json × α} (hkv : kv ∈ d) (hsame : kv.1.Same key) : containsKey d key = .ok true := by
  have hfind : (d.find? fun kv => kv.1.Same key).isSome = true := by
    rw [List.find?_isSome]
    exact ⟨kv, hkv, decide_eq_true hsame⟩
  rw [containsKey, lookupKey, if_pos hk]
  simp only [bind, Except.bind, pure, Except.pure, Option.isSome_map, hfind]

theorem get?_eventIdOf {event : Fields} (h : (event.get? (lit "event_id")).isSome = true) :
    event.get? (lit "event_id") = some (eventIdOf event) := by
  obtain ⟨i, hi⟩ := Option.isSome_iff_exists.1 h
  rw [eventIdOf, hi]
  rfl

/-- A new event that can be published is published; any other raises. -/
theorem publish_new {o : Outbox} {xs : List Message} (h : Published o xs) {event : Fields}
    (hwf : (Json.obj event).wf = true) (hid : (event.get? (lit "event_id")).isSome = true)
    (hnew : ∀ x ∈ xs, ¬ x.eventId.Same (eventIdOf event)) :
    (Publishable event xs.length ∧ ∃ x o', x.fields = event ∧
        (o.publish event 0).map Prod.snd = .ok o' ∧ Published o' (xs ++ [x])) ∨
      ¬ Publishable event xs.length ∧ ∃ e, (o.publish event 0).map Prod.snd = .error e := by
  have hget := Fields.get_of_get? (get?_eventIdOf hid)
  rw [Outbox.publish, hget]
  simp only [bind, Except.bind, pure, Except.pure]
  by_cases hk : (eventIdOf event).hashable = true
  · have hnew' : ∀ kv ∈ o.sent, ¬ kv.1.Same (eventIdOf event) := by
      rw [h.sent]
      intro kv hkv
      obtain ⟨x, hx, rfl⟩ := List.mem_map.1 hkv
      exact hnew x hx
    obtain ⟨x, rfl, hxid, hxt⟩ := message_of hwf hget hk 0
    have hfits : Fits x.sendEntry xs.length ↔ Publishable x.fields xs.length := by
      rw [Fits, Publishable, show x.sendEntry.kind = lit "send" from rfl,
        show x.sendEntry.timeNs = 0 from hxt, intPrintable_zero, encodable_lit,
        show x.sendEntry.payload = .obj [(lit "event", .obj x.fields)] from rfl, digestible_single,
        hk]
      tauto
    rw [containsKey_new hk hnew', setKey_new hk hnew']
    simp only [Bool.false_eq_true, if_false]
    have hcases := append_cases h.outbox.represents x.sendEntry
    rw [List.length_map, hfits] at hcases
    rw [← hxt]
    rcases hcases with ⟨hp, j, r, happ, hrep⟩ | ⟨hp, e, happ⟩
    · refine Or.inl ⟨hp, x, { o with journal := j, sent := o.sent ++ [(x.eventId, .obj x.fields)] },
        rfl, ?_, ⟨?_, ?_, ?_, h.outbox.acks⟩, ?_, ?_⟩
      · rw [show o.journal.append (lit "send") (.obj [(lit "event", .obj x.fields)]) x.timeNs = _
          from happ, hxid]
        rfl
      · rw [List.map_append]
        exact hrep
      · exact List.rel_append h.outbox.sent (List.Forall₂.cons ⟨rfl, rfl⟩ List.Forall₂.nil)
      · rw [List.map_append]
        apply distinctKeys_snoc h.outbox.distinct x.hashable
        rw [hxid]
        intro k hmem
        obtain ⟨y, hy, rfl⟩ := List.mem_map.1 hmem
        exact hnew y hy
      · rw [List.map_append, h.sent]
        rfl
      · intro y hy
        rcases List.mem_append.1 hy with hy | hy
        · exact h.time y hy
        · rw [List.mem_singleton.1 hy]
          exact hxt
    · refine Or.inr ⟨hp, e, ?_⟩
      rw [show o.journal.append (lit "send") (.obj [(lit "event", .obj x.fields)]) x.timeNs = _
        from happ]
      rfl
  · refine Or.inr ⟨fun hp => hk hp.1, .typeError, ?_⟩
    rw [containsKey, lookupKey, if_neg hk]
    rfl

theorem published_empty : Published Outbox.empty [] :=
  ⟨⟨empty_represents, List.Forall₂.nil, ⟨nofun, List.Pairwise.nil⟩, empty_represents, rfl, nofun,
    List.Pairwise.nil⟩, rfl, nofun⟩

/-- Publishing in sequence: all events are held if each can be published in its turn. -/
theorem publish_run {events : List Fields} : ∀ {o : Outbox} {xs : List Message},
    Published o xs → EventSet events →
    (∀ e ∈ events, ∀ x ∈ xs, ¬ x.eventId.Same (eventIdOf e)) →
    ((∀ e ∈ events, (eventIdOf e).hashable = true ∧ Digestible (.obj e)) ∧
        (∀ n < events.length, intPrintable ((xs.length + n : Nat) : Int) = true) ∧
        ∃ o' ys, events.foldlM (fun o event => (o.publish event 0).map Prod.snd) o = .ok o' ∧
          Published o' (xs ++ ys) ∧ ys.map Message.fields = events) ∨
      ¬ ((∀ e ∈ events, (eventIdOf e).hashable = true ∧ Digestible (.obj e)) ∧
          ∀ n < events.length, intPrintable ((xs.length + n : Nat) : Int) = true) ∧
        ∃ x, events.foldlM (fun o event => (o.publish event 0).map Prod.snd) o = .error x := by
  induction events with
  | nil =>
      intro o xs h _ _
      refine Or.inl ⟨nofun, nofun, o, [], rfl, ?_, rfl⟩
      rw [List.append_nil]
      exact h
  | cons event events ih =>
      intro o xs h hes hnew
      obtain ⟨hwf, hwfs⟩ := List.forall_mem_cons.1 hes.wf
      obtain ⟨hid, hids⟩ := List.forall_mem_cons.1 hes.has_id
      obtain ⟨hdist, hdists⟩ := List.pairwise_cons.1 hes.distinct
      obtain ⟨hnew, hnews⟩ := List.forall_mem_cons.1 hnew
      rw [List.foldlM_cons]
      rcases publish_new h hwf hid hnew with ⟨hp, x, o', rfl, hpub, h'⟩ | ⟨hp, x, hpub⟩
      · rw [hpub]
        have hxid : x.eventId = eventIdOf x.fields := by
          rw [eventIdOf, x.id_eq]
          rfl
        have hnew' : ∀ e ∈ events, ∀ y ∈ xs ++ [x], ¬ y.eventId.Same (eventIdOf e) := by
          intro e he y hy
          rcases List.mem_append.1 hy with hy | hy
          · exact hnews e he y hy
          · rw [List.mem_singleton.1 hy, hxid]
            exact hdist e he
        -- the numbers of the later events start one further on
        have hroom : (∀ n < (x.fields :: events).length,
            intPrintable ((xs.length + n : Nat) : Int) = true) ↔
            ∀ n < events.length, intPrintable (((xs ++ [x]).length + n : Nat) : Int) = true := by
          rw [List.length_append, List.length_singleton, List.length_cons]
          constructor
          · intro hn n hlt
            have hn' := hn (n + 1) (by omega)
            rw [show xs.length + (n + 1) = xs.length + 1 + n by omega] at hn'
            exact hn'
          · intro hn n hlt
            cases n with
            | zero => exact hp.2.2
            | succ n =>
                rw [show xs.length + (n + 1) = xs.length + 1 + n by omega]
                exact hn n (by omega)
        rw [hroom, List.forall_mem_cons]
        rcases ih h' ⟨hwfs, hids, hdists⟩ hnew' with ⟨hd, hr, o'', ys, hrun, h'', hys⟩ | ⟨hn, e, hrun⟩
        · refine Or.inl ⟨⟨⟨hp.1, hp.2.1⟩, hd⟩, hr, o'', x :: ys, hrun, ?_, ?_⟩
          · rw [List.append_cons]
            exact h''
          · rw [List.map_cons, hys]
        · exact Or.inr ⟨fun hc => hn ⟨hc.1.2, hc.2⟩, e, hrun⟩
      · rw [hpub]
        refine Or.inr ⟨fun hc => hp ?_, x, rfl⟩
        have hhead := (List.forall_mem_cons.1 hc.1).1
        exact ⟨hhead.1, hhead.2, hc.2 0 (Nat.zero_lt_succ _)⟩

/-! ## Deliveries and acknowledgements in step -/

/-- The outbox holds `xs`; the inbox accepted `ys` of them, and just these are acknowledged. -/
structure Delivered (xs : List Message) (o : Outbox) (b : Inbox) (ys : List Message)
    (as : List Acked) : Prop where
  outbox : OutboxOf o xs as
  sent : o.sent = xs.map fun x => (x.eventId, Json.obj x.fields)
  inbox : InboxOf b ys
  acks : as.map Acked.eventId = ys.map Message.eventId
  sub : ∀ y ∈ ys, y ∈ xs

theorem Delivered.unique {xs : List Message} {o : Outbox} {b : Inbox} {ys : List Message}
    {as : List Acked} (h : Delivered xs o b ys as) {x y : Message} (hx : x ∈ xs) (hy : y ∈ xs)
    (hsame : y.eventId.Same x.eventId) : y = x := by
  have hnd : (xs.map fun x => x.eventId.plain).Nodup := by
    have hp := h.outbox.distinct.2
    rw [List.pairwise_map] at hp
    rw [List.Nodup, List.pairwise_map]
    exact hp
  exact List.inj_on_of_nodup_map hnd hy hx hsame

theorem Delivered.nodup {xs : List Message} {o : Outbox} {b : Inbox} {ys : List Message}
    {as : List Acked} (h : Delivered xs o b ys as) : ys.Nodup := by
  have hp := h.inbox.distinct.2
  rw [List.pairwise_map] at hp
  exact hp.imp fun hne he => hne (by rw [he]; exact Json.Same.refl _)

theorem digestible_eventId {x : Message} (h : Digestible (.obj x.fields)) :
    Digestible x.eventId := by
  rw [digestible_obj] at h
  exact (h _ (Fields.mem_of_get? x.id_eq)).2

/-- One delivery: the event is accepted and acknowledged, unless it was before. -/
theorem deliverAck_spec {xs : List Message} {o : Outbox} {b : Inbox} {ys : List Message}
    {as : List Acked} (h : Delivered xs o b ys as)
    (hroom : ∀ n < xs.length, intPrintable (n : Int) = true)
    (hdig : ∀ x ∈ xs, Digestible (.obj x.fields)) (htime : ∀ x ∈ xs, x.timeNs = 0) {x : Message}
    (hx : x ∈ xs) :
    ∃ o' b' ys' as', deliverAck (o, b) (.obj x.fields) = .ok (o', b') ∧
      Delivered xs o' b' ys' as' ∧ x ∈ ys' ∧ ∀ y ∈ ys, y ∈ ys' := by
  have hget : Fields.get x.fields (lit "event_id") = .ok x.eventId := Fields.get_of_get? x.id_eq
  rw [deliverAck, Inbox.deliver, hget]
  simp only [bind, Except.bind, pure, Except.pure]
  by_cases hold : ∃ y ∈ ys, y.eventId.Same x.eventId
  · obtain ⟨y, hy, hsame⟩ := hold
    have hmem : (y.eventId, Json.str (lit "accepted")) ∈ b.seen := by
      rw [h.inbox.seen]
      exact List.mem_map_of_mem hy
    rw [containsKey_old x.hashable hmem hsame]
    refine ⟨o, b, ys, as, rfl, h, ?_, fun z hz => hz⟩
    rw [← h.unique hx (h.sub y hy) hsame]
    exact hy
  · have hnew : ∀ y ∈ ys, ¬ y.eventId.Same x.eventId := fun y hy hs => hold ⟨y, hy, hs⟩
    have hseen : ∀ kv ∈ b.seen, ¬ kv.1.Same x.eventId := by
      rw [h.inbox.seen]
      intro kv hkv
      obtain ⟨y, hy, rfl⟩ := List.mem_map.1 hkv
      exact hnew y hy
    have hids : ∀ k ∈ ys.map Message.eventId, ¬ k.Same x.eventId := by
      intro k hk
      obtain ⟨y, hy, rfl⟩ := List.mem_map.1 hk
      exact hnew y hy
    have hacked : ∀ kv ∈ o.acks.acked, ¬ kv.1.Same x.eventId := by
      rw [h.outbox.acks.acked]
      intro kv hkv
      obtain ⟨a, ha, rfl⟩ := List.mem_map.1 hkv
      apply hids
      rw [← h.acks]
      exact List.mem_map_of_mem ha
    -- there is room for one more record in both journals
    have hsub : ∀ y ∈ ys ++ [x], y ∈ xs := by
      intro y hy
      rcases List.mem_append.1 hy with hy | hy
      · exact h.sub y hy
      · rw [List.mem_singleton.1 hy]
        exact hx
    have hnd : (ys ++ [x]).Nodup := by
      rw [List.nodup_append]
      refine ⟨h.nodup, List.nodup_singleton x, ?_⟩
      rintro y hy z hz rfl
      rw [List.mem_singleton.1 hz] at hy
      exact hnew x hy (Json.Same.refl _)
    have hlen : ys.length < xs.length := by
      have hle := (List.subperm_of_subset hnd hsub).length_le
      rw [List.length_append, List.length_singleton] at hle
      omega
    have haslen : as.length = ys.length := by
      have hl := congrArg List.length h.acks
      rw [List.length_map, List.length_map] at hl
      exact hl
    let a : Acked := ⟨x.eventId, 0, x.hashable⟩
    have hfit : Fits x.deliverEntry ys.length := by
      refine ⟨hroom _ hlen, encodable_lit _, ?_, ?_⟩
      · rw [show x.deliverEntry.timeNs = 0 from htime x hx]
        exact intPrintable_zero
      · rw [show x.deliverEntry.payload = deliverPayload x.fields from rfl, deliverPayload,
          digestible_obj]
        simp only [List.forall_mem_cons, encodable_lit, true_and, digestible_str, List.not_mem_nil,
          false_imp_iff, implies_true, and_true]
        exact hdig x hx
    have hfitAck : Fits a.entry as.length := by
      refine ⟨?_, encodable_lit _, intPrintable_zero, ?_⟩
      · rw [haslen]
        exact hroom _ hlen
      · exact digestible_single.2 (digestible_eventId (hdig x hx))
    have hcases := append_cases h.inbox.represents x.deliverEntry
    have hcasesAck := append_cases h.outbox.acks.represents a.entry
    rw [List.length_map] at hcases hcasesAck
    rcases hcases with ⟨-, j, r, happ, hrep⟩ | ⟨hn, -⟩
    · rcases hcasesAck with ⟨-, k, r', happAck, hrepAck⟩ | ⟨hn, -⟩
      · have happ' : b.journal.append (lit "deliver") (deliverPayload x.fields) 0 = .ok (j, r) := by
          rw [← htime x hx]
          exact happ
        have happAck' : o.acks.journal.append (lit "ack") (.obj [(lit "event_id", x.eventId)]) 0 =
            .ok (k, r') := happAck
        rw [containsKey_new x.hashable hseen, setKey_new x.hashable hseen]
        simp only [Bool.false_eq_true, if_false, happ', if_true, Outbox.ack, AckLog.ack,
          AckLog.isAcked, bind, Except.bind, pure, Except.pure, containsKey_new x.hashable hacked,
          setKey_new x.hashable hacked, happAck']
        refine ⟨_, _, ys ++ [x], as ++ [a], rfl, ⟨⟨h.outbox.represents, h.outbox.sent,
          h.outbox.distinct, ?_, ?_, ?_⟩, h.sent, ⟨?_, ?_, ?_⟩, ?_, hsub⟩,
          List.mem_append_right _ (List.mem_singleton.2 rfl),
          fun y hy => List.mem_append_left _ hy⟩
        · rw [List.map_append]
          exact hrepAck
        · rw [List.map_append, h.outbox.acks.acked]
          rfl
        · rw [List.map_append, h.acks]
          exact distinctKeys_snoc h.inbox.distinct x.hashable hids
        · rw [List.map_append]
          exact hrep
        · rw [List.map_append, h.inbox.seen]
          rfl
        · rw [List.map_append]
          exact distinctKeys_snoc h.inbox.distinct x.hashable hids
        · rw [List.map_append, List.map_append, h.acks]
          rfl
      · exact absurd hfitAck hn
    · exact absurd hfit hn

/-- Delivering a list of sent events, with repetitions or not: each of them is accepted. -/
theorem deliverAck_run {xs : List Message}
    (hroom : ∀ n < xs.length, intPrintable (n : Int) = true)
    (hdig : ∀ x ∈ xs, Digestible (.obj x.fields)) (htime : ∀ x ∈ xs, x.timeNs = 0)
    {ws : List Json} : ∀ {o : Outbox} {b : Inbox} {ys : List Message} {as : List Acked},
    Delivered xs o b ys as → (∀ w ∈ ws, ∃ x ∈ xs, w = .obj x.fields) →
    ∃ o' b' ys' as', ws.foldlM deliverAck (o, b) = .ok (o', b') ∧ Delivered xs o' b' ys' as' ∧
      (∀ x ∈ xs, .obj x.fields ∈ ws → x ∈ ys') ∧ ∀ y ∈ ys, y ∈ ys' := by
  induction ws with
  | nil =>
      intro o b ys as h _
      exact ⟨o, b, ys, as, rfl, h, nofun, fun y hy => hy⟩
  | cons w ws ih =>
      intro o b ys as h hws
      obtain ⟨⟨x, hx, rfl⟩, hrest⟩ := List.forall_mem_cons.1 hws
      obtain ⟨o₁, b₁, ys₁, as₁, hstep, h₁, hx₁, hys₁⟩ := deliverAck_spec h hroom hdig htime hx
      obtain ⟨o₂, b₂, ys₂, as₂, hrun, h₂, hws₂, hys₂⟩ := ih h₁ hrest
      refine ⟨o₂, b₂, ys₂, as₂, ?_, h₂, ?_, fun y hy => hys₂ y (hys₁ y hy)⟩
      · rw [List.foldlM_cons, hstep]
        exact hrun
      · intro z hz hmem
        rcases List.mem_cons.1 hmem with he | hmem
        · -- two messages with the same fields have the same id
          have hid : z.eventId = x.eventId := by
            have hfe := Json.obj.inj he
            have hzid := z.id_eq
            rw [hfe, x.id_eq] at hzid
            exact (Option.some.inj hzid).symm
          rw [h.unique hx hz (by rw [hid]; exact Json.Same.refl _)]
          exact hys₂ x hx₁
        · exact hws₂ z hz hmem

/-! ## The pending events -/

omit [FloatModel] in
theorem filterE_eq {α ε : Type} {p : α → Except ε Bool} {q : α → Bool} {l : List α}
    (h : ∀ a ∈ l, p a = .ok (q a)) : filterE p l = .ok (l.filter q) := by
  induction l with
  | nil => rfl
  | cons a l ih =>
      obtain ⟨ha, hl⟩ := List.forall_mem_cons.1 h
      rw [filterE, ha, ih hl, List.filter_cons]
      rfl

/-- The event is acknowledged. -/
def AckedIn (as : List Acked) (eventId : Json) : Prop := ∃ a ∈ as, a.eventId.Same eventId

instance (as : List Acked) (eventId : Json) : Decidable (AckedIn as eventId) :=
  List.decidableBEx _ _

theorem isAcked_view {a : AckLog} {as : List Acked} (h : AckLogOf a as) {eventId : Json}
    (hk : eventId.hashable = true) : a.isAcked eventId = .ok (decide (AckedIn as eventId)) := by
  rw [AckLog.isAcked]
  by_cases hin : AckedIn as eventId
  · obtain ⟨x, hx, hsame⟩ := hin
    have hmem : (x.eventId, ()) ∈ a.acked := by
      rw [h.acked]
      exact List.mem_map_of_mem hx
    rw [containsKey_old hk hmem hsame, decide_eq_true ⟨x, hx, hsame⟩]
  · rw [decide_eq_false hin]
    apply containsKey_new hk
    rw [h.acked]
    intro kv hkv hsame
    obtain ⟨x, hx, rfl⟩ := List.mem_map.1 hkv
    exact hin ⟨x, hx, hsame⟩

/-- Items with distinct keys compare by their keys. -/
theorem itemLess_eq {a b : Json × Json} (h : ¬ a.1.Same b.1) : itemLess a b = a.1.less b.1 := by
  rw [itemLess, Json.less, Json.lessElems, if_neg h]

/-- The ids can be sorted. -/
def Sortable (events : List Fields) : Prop :=
  events.Pairwise fun e e' => ((eventIdOf e).less (eventIdOf e')).isSome = true

instance (events : List Fields) : Decidable (Sortable events) :=
  inferInstanceAs (Decidable (events.Pairwise _))

theorem Message.eventIdOf (x : Message) : Dsm.eventIdOf x.fields = x.eventId := by
  rw [Dsm.eventIdOf, x.id_eq]
  rfl

theorem sortable_iff {xs : List Message} (h : DistinctKeys (xs.map Message.eventId)) :
    ((xs.map fun x => (x.eventId, Json.obj x.fields)).Pairwise fun a b =>
        (itemLess a b).isSome = true) ↔ Sortable (xs.map Message.fields) := by
  have hp := h.2
  rw [List.pairwise_map] at hp
  rw [Sortable, List.pairwise_map, List.pairwise_map]
  constructor
  · intro hc
    refine (hp.and hc).imp ?_
    rintro x y ⟨hne, hsome⟩
    rw [itemLess_eq hne] at hsome
    rw [x.eventIdOf, y.eventIdOf]
    exact hsome
  · intro hc
    refine (hp.and hc).imp ?_
    rintro x y ⟨hne, hsome⟩
    rw [x.eventIdOf, y.eventIdOf] at hsome
    rw [itemLess_eq hne]
    exact hsome

/-- The pending events are those that are not acknowledged, if their ids can be sorted. -/
theorem pending_cases {o : Outbox} {xs : List Message} {as : List Acked} (h : OutboxOf o xs as)
    (hsent : o.sent = xs.map fun x => (x.eventId, Json.obj x.fields)) :
    (Sortable (xs.map Message.fields) ∧ ∃ ws, o.pending = .ok ws ∧
        ws.Perm ((xs.filter fun x => ¬ AckedIn as x.eventId).map fun x => Json.obj x.fields)) ∨
      ¬ Sortable (xs.map Message.fields) ∧ o.pending = .error .typeError := by
  rw [Outbox.pending, sortedItems, hsent]
  by_cases hs : Sortable (xs.map Message.fields)
  · left
    rw [if_pos ((sortable_iff h.distinct).2 hs)]
    have hperm := List.perm_insertionSort (fun a b : Json × Json => itemLess b a ≠ some true)
      (xs.map fun x => (x.eventId, Json.obj x.fields))
    generalize (xs.map fun x => (x.eventId, Json.obj x.fields)).insertionSort
      (fun a b => itemLess b a ≠ some true) = items at hperm
    have hfilter := filterE_eq (l := items) (p := fun item => return !(← o.acks.isAcked item.1))
      (q := fun item => !decide (AckedIn as item.1)) (by
        intro item hitem
        obtain ⟨x, hx, rfl⟩ := List.mem_map.1 (hperm.mem_iff.1 hitem)
        simp only [isAcked_view h.acks x.hashable, bind, Except.bind, pure, Except.pure])
    refine ⟨hs, (items.filter fun item => !decide (AckedIn as item.1)).map Prod.snd, ?_, ?_⟩
    · simp only [bind, Except.bind] at hfilter ⊢
      rw [hfilter]
      rfl
    · refine ((hperm.filter _).map Prod.snd).trans ?_
      rw [List.filter_map, List.map_map]
      have hq : (fun item : Json × Json => !decide (AckedIn as item.1)) ∘
          (fun x : Message => (x.eventId, Json.obj x.fields)) =
          fun x => decide (¬ AckedIn as x.eventId) := by
        funext x
        simp
      rw [hq]
      exact List.Perm.refl _
  · right
    rw [if_neg fun hp => hs ((sortable_iff h.distinct).1 hp)]
    exact ⟨hs, rfl⟩

/-! ## The accepted events -/

theorem accepted_view {b : Inbox} {ys : List Message} (h : InboxOf b ys) :
    ∃ ws, b.accepted = .ok ws ∧
      ws.map Json.norm = ys.map fun y => (Json.obj y.fields).norm := by
  have hall := h.represents.forall₂
  rw [List.forall₂_map_right_iff] at hall
  obtain ⟨rs, hrs, hrall⟩ := filterE_forall₂ (q := fun _ => true) hall
    (p := fun r => do
      if (← r.get (lit "kind")).Same (.str (lit "deliver")) then
        return (← (← r.get (lit "payload")).item (lit "disposition")).Same (.str (lit "accepted"))
      else return false) (by
      intro r x hr
      have hk : r.get (lit "kind") = .ok (.str (lit "deliver")) := Records.kind hr
      obtain ⟨p, hp, ha⟩ := Records.payload hr
      simp only [hk, bind, Except.bind, pure, Except.pure, Json.Same.refl, if_true, hp,
        (deliverPayload_item ha).2, decide_true])
  rw [List.filter_true] at hrall
  obtain ⟨ws, hws, hst⟩ := mapE_forall₂ (f := eventOf)
    (S := fun w x => w.Alike (Json.obj x.fields)) hrall (by
      intro r x hr
      obtain ⟨w, hw, ha, -⟩ := eventOf_message hr (x := x) fun _ ha => (deliverPayload_item ha).1
      exact ⟨w, hw, ha⟩)
  refine ⟨ws, ?_, ?_⟩
  · rw [Inbox.accepted, h.represents.replay]
    simp only [bind, Except.bind] at hrs ⊢
    rw [hrs]
    exact hws
  · have hmap : List.Forall₂ (fun u v => u = v) (ws.map Json.norm)
        (ys.map fun y => (Json.obj y.fields).norm) := by
      rw [List.forall₂_map_left_iff, List.forall₂_map_right_iff]
      exact hst
    exact List.forall₂_eq_eq_eq ▸ hmap

/-! ## Convergence -/

theorem retransmit_spec {xs : List Message}
    (hroom : ∀ n < xs.length, intPrintable (n : Int) = true)
    (hdig : ∀ x ∈ xs, Digestible (.obj x.fields)) (htime : ∀ x ∈ xs, x.timeNs = 0)
    (hs : Sortable (xs.map Message.fields)) {o : Outbox} {b : Inbox} {ys : List Message}
    {as : List Acked} (h : Delivered xs o b ys as) :
    ∃ ws o' b' values, o.pending = .ok ws ∧ ws.foldlM deliverAck (o, b) = .ok (o', b') ∧
      o'.pending = .ok [] ∧ b'.accepted = .ok values ∧
      ExactlyOnce values (xs.map Message.fields) := by
  rcases pending_cases h.outbox h.sent with ⟨-, ws, hpend, hws⟩ | ⟨hn, -⟩
  · have hfrom : ∀ w ∈ ws, ∃ x ∈ xs, w = .obj x.fields := by
      intro w hw
      obtain ⟨x, hx, rfl⟩ := List.mem_map.1 (hws.mem_iff.1 hw)
      exact ⟨x, (List.mem_filter.1 hx).1, rfl⟩
    obtain ⟨o', b', ys', as', hrun, h', hnew, hold⟩ := deliverAck_run hroom hdig htime h hfrom
    -- what was not acknowledged was pending, so that it is delivered now
    have hall : ∀ x ∈ xs, x ∈ ys' := by
      intro x hx
      by_cases ha : AckedIn as x.eventId
      · obtain ⟨a, ha, hsame⟩ := ha
        have hmem : a.eventId ∈ ys.map Message.eventId := by
          rw [← h.acks]
          exact List.mem_map_of_mem ha
        obtain ⟨y, hy, hid⟩ := List.mem_map.1 hmem
        rw [← hid] at hsame
        rw [← h.unique hx (h.sub y hy) hsame]
        exact hold y hy
      · apply hnew x hx
        rw [hws.mem_iff, List.mem_map]
        exact ⟨x, List.mem_filter.2 ⟨hx, decide_eq_true ha⟩, rfl⟩
    have hxs : xs.Nodup := by
      have hp := h.outbox.distinct.2
      rw [List.pairwise_map] at hp
      exact hp.imp fun hne he => hne (by rw [he]; exact Json.Same.refl _)
    have hperm : ys'.Perm xs :=
      (List.perm_ext_iff_of_nodup h'.nodup hxs).2 fun x => ⟨h'.sub x, hall x⟩
    obtain ⟨values, hvalues, hnorm⟩ := accepted_view h'.inbox
    refine ⟨ws, o', b', values, hpend, hrun, ?_, hvalues, ?_⟩
    · rcases pending_cases h'.outbox h'.sent with ⟨-, vs, hvs, hp⟩ | ⟨hn, -⟩
      · have hnone : (xs.filter fun x => ¬ AckedIn as' x.eventId) = [] := by
          rw [List.filter_eq_nil_iff]
          intro x hx hna
          apply of_decide_eq_true hna
          have hmem : x.eventId ∈ as'.map Acked.eventId := by
            rw [h'.acks]
            exact List.mem_map_of_mem (hall x hx)
          obtain ⟨a, ha, hid⟩ := List.mem_map.1 hmem
          exact ⟨a, ha, by rw [hid]; exact Json.Same.refl _⟩
        rw [hnone, List.map_nil, List.perm_nil] at hp
        rw [hvs, hp]
      · exact absurd hs hn
    · rw [ExactlyOnce, hnorm, List.map_map]
      exact hperm.map _
  · exact absurd hs hn

/-- The events can be published, sorted by id and sent. -/
structure Sendable (events : List Fields) (schedule : FaultSchedule) : Prop where
  publishable : ∀ e ∈ events, (eventIdOf e).hashable = true ∧ Digestible (.obj e)
  room : ∀ n < events.length, intPrintable (n : Int) = true
  sortable : Sortable events
  inRange : schedule.InRange events.length

/-- The two passes converge exactly for events that can be published and sorted, and schedules whose
reorder faults do not lie before the start of the list. -/
theorem delivery_converges {events : List Fields} (hes : EventSet events)
    (schedule : FaultSchedule) : DeliveryConverges events schedule ↔ Sendable events schedule := by
  rw [DeliveryConverges, runCase, publishAll]
  have hrun := publish_run published_empty hes nofun
  simp only [List.length_nil, Nat.zero_add, List.nil_append] at hrun
  rcases hrun with ⟨hev, hroom, o, xs, hpub, h, rfl⟩ | ⟨hn, x, hpub⟩
  · rw [hpub]
    simp only [bind, Except.bind]
    have hroom' : ∀ n < xs.length, intPrintable (n : Int) = true := by
      rw [List.length_map] at hroom
      exact hroom
    have hdig : ∀ x ∈ xs, Digestible (.obj x.fields) :=
      fun x hx => (hev x.fields (List.mem_map_of_mem hx)).2
    have h0 : Delivered xs o Inbox.empty [] [] :=
      ⟨h.outbox, h.sent, ⟨empty_represents, rfl, nofun, List.Pairwise.nil⟩, rfl, nofun⟩
    rcases pending_cases h.outbox h.sent with ⟨hs, ws, hpend, hws⟩ | ⟨hns, hpend⟩
    · rw [hpend]
      simp only
      have hfree : (xs.filter fun x => ¬ AckedIn [] x.eventId) = xs := by
        rw [List.filter_eq_self]
        rintro x - 
        exact decide_eq_true fun ⟨a, ha, _⟩ => nomatch ha
      rw [hfree] at hws
      have hlen : ws.length = xs.length := by
        rw [hws.length_eq, List.length_map]
      rcases transmit_cases schedule ws with ⟨hin, out, hout, hmem⟩ | ⟨hin, hout⟩
      · rw [simulate, hout]
        have hfrom : ∀ w ∈ out, ∃ x ∈ xs, w = .obj x.fields := by
          intro w hw
          obtain ⟨x, hx, rfl⟩ := List.mem_map.1 (hws.mem_iff.1 (hmem w hw))
          exact ⟨x, hx, rfl⟩
        obtain ⟨o₁, b₁, ys₁, as₁, hrun₁, h₁, -, -⟩ := deliverAck_run hroom' hdig h.time h0 hfrom
        obtain ⟨ws₂, o₂, b₂, values, hpend₂, hrun₂, hnil, hacc, honce⟩ :=
          retransmit_spec hroom' hdig h.time hs h₁
        rw [hlen] at hin
        refine ⟨fun _ => ⟨hev, hroom, hs, by rw [List.length_map]; exact hin⟩, fun _ => ?_⟩
        refine ⟨o₂, b₂, values, ?_, hnil, hacc, honce⟩
        simp only [hrun₁, hpend₂, simulate, transmit_clean]
        exact hrun₂
      · rw [simulate, hout]
        refine ⟨?_, fun hc => ?_⟩
        · rintro ⟨o', b', values, hrun, -⟩
          cases hrun
        · rw [hlen] at hin
          have hin' := hc.inRange
          rw [List.length_map] at hin'
          exact absurd hin' hin
    · rw [hpend]
      refine ⟨?_, fun hc => absurd hc.sortable hns⟩
      rintro ⟨o', b', values, hrun, -⟩
      cases hrun
  · rw [hpub]
    refine ⟨?_, fun hc => absurd ⟨hc.publishable, hc.room⟩ hn⟩
    rintro ⟨o', b', values, hrun, -⟩
    cases hrun

end ResidualHarness.Dsm
