import ResidualHarness.Dsm.Terminal

/-!
# Durable delivery

`residual/dsm/delivery.py`: the acknowledgement log, the outbox and the inbox, each an in-memory
index over a journal. The abstract state of each is the list of what it journaled; reopening
rebuilds the index from the records. They come back to the state they had exactly when no journaled
string has U+0085, U+2028 or U+2029 (`reopen_same_iff`). The outbox and its acknowledgement log are
taken to have different files, as they have for every path whose suffix is not `.acks`.
-/

set_option autoImplicit false

namespace ResidualHarness.Dsm

open Python Core

section Model

variable [FloatModel]

/-! ## Sets and dictionaries of ids -/

/-- `key in d` for a dictionary or, with unit values, a set. -/
def containsKey {α : Type} (d : List (Json × α)) (key : Json) : Except PyExn Bool := do
  return (← lookupKey d key).isSome

/-- `d[key] = value`. -/
def setKey {α : Type} (d : List (Json × α)) (key : Json) (value : α) :
    Except PyExn (List (Json × α)) :=
  if key.hashable then
    if d.any fun kv => kv.1.Same key then
      .ok (d.map fun kv => if kv.1.Same key then (kv.1, value) else kv)
    else .ok (d ++ [(key, value)])
  else .error .typeError

/-- A dictionary comprehension. -/
def setKeys {α : Type} : List (Json × α) → List (Json × α) → Except PyExn (List (Json × α))
  | d, [] => .ok d
  | d, (key, value) :: items => do setKeys (← setKey d key value) items

/-- Keys that can be told apart. -/
def DistinctKeys (keys : List Json) : Prop :=
  (∀ k ∈ keys, k.hashable = true) ∧ keys.Pairwise fun k l => ¬ k.Same l

theorem setKey_new {α : Type} {d : List (Json × α)} {key : Json} (hk : key.hashable = true)
    (hnew : ∀ kv ∈ d, ¬ kv.1.Same key) (value : α) :
    setKey d key value = .ok (d ++ [(key, value)]) := by
  have hany : (d.any fun kv => kv.1.Same key) = false := by
    rw [List.any_eq_false]
    intro kv hkv
    simpa using hnew kv hkv
  rw [setKey, if_pos hk, if_neg (by rw [hany]; exact Bool.false_ne_true)]

theorem setKeys_distinct {α : Type} (items d : List (Json × α))
    (h : DistinctKeys ((d ++ items).map Prod.fst)) : setKeys d items = .ok (d ++ items) := by
  induction items generalizing d with
  | nil => rw [List.append_nil, setKeys]
  | cons kv items ih =>
      obtain ⟨k, v⟩ := kv
      have hsplit : d ++ (k, v) :: items = (d ++ [(k, v)]) ++ items := by simp
      have hk : k.hashable = true := h.1 k (by simp)
      have hnew : ∀ kw ∈ d, ¬ kw.1.Same k := by
        intro kw hkw
        have hp := h.2
        rw [List.map_append, List.pairwise_append] at hp
        exact hp.2.2 kw.1 (List.mem_map_of_mem hkw) k (by simp)
      rw [setKeys, setKey_new hk hnew]
      rw [hsplit] at h
      exact (ih _ h).trans (by rw [hsplit])

theorem containsKey_ok {α : Type} {d : List (Json × α)} {key : Json} {b : Bool}
    (h : containsKey d key = .ok b) :
    key.hashable = true ∧ (b = false → ∀ kv ∈ d, ¬ kv.1.Same key) := by
  rw [containsKey, lookupKey] at h
  split at h
  · rename_i hk
    refine ⟨hk, ?_⟩
    rintro rfl
    have hnone := Except.ok.inj h
    rw [Option.isSome_map] at hnone
    have hfind := Option.not_isSome_iff_eq_none.1 (by rw [hnone]; exact Bool.false_ne_true)
    rw [List.find?_eq_none] at hfind
    intro kv hkv
    simpa using hfind kv hkv
  · cases h

theorem distinctKeys_snoc {keys : List Json} {key : Json} (h : DistinctKeys keys)
    (hk : key.hashable = true) (hnew : ∀ k ∈ keys, ¬ k.Same key) :
    DistinctKeys (keys ++ [key]) := by
  refine ⟨?_, ?_⟩
  · intro k hmem
    rcases List.mem_append.1 hmem with hmem | hmem
    · exact h.1 k hmem
    · rw [List.mem_singleton.1 hmem]
      exact hk
  · rw [List.pairwise_append]
    refine ⟨h.2, List.pairwise_singleton _ _, ?_⟩
    intro k hmem l hl
    rw [List.mem_singleton.1 hl]
    exact hnew k hmem

theorem alike_hashable {v w : Json} (h : v.Alike w) (hw : w.hashable = true) : v = w := by
  cases w with
  | arr xs => cases hw
  | obj d => cases hw
  | _ =>
      cases v with
      | arr ys =>
          rw [Json.Alike, Json.norm_arr] at h
          cases h
      | obj d =>
          rw [Json.Alike, Json.norm_obj] at h
          cases h
      | _ => exact h

/-! ## Reopening a journal -/

/-- No string of the records has a character at which `splitlines` cuts. -/
def Journal.LineSafe (j : Journal) : Prop :=
  ∀ r ∈ j.records, (Json.obj r).allStr lineSafe = true

/-- The same records, up to the order of keys, with the same head, on the same file. -/
def Journal.SameAs (j j' : Journal) : Prop :=
  j'.records.map Fields.norm = j.records.map Fields.norm ∧ j'.head = j.head ∧ j'.disk = j.disk

/-- Opening the file of the journal again gives the same journal. -/
def Journal.Reopens (j : Journal) : Prop := ∃ j', Journal.open j.disk = .ok j' ∧ j.SameAs j'

/-- A sequence of successful `append` calls. -/
def Journal.appendAll : Journal → List Entry → Except PyExn Journal
  | j, [] => .ok j
  | j, e :: es => do
      let (j', _) ← j.append e.kind e.payload e.timeNs
      j'.appendAll es

theorem appendAll_represents {j j' : Journal} {es fs : List Entry} (h : Represents j es)
    (happ : j.appendAll fs = .ok j') : Represents j' (es ++ fs) := by
  induction fs generalizing j es with
  | nil =>
      cases happ
      rw [List.append_nil]
      exact h
  | cons e fs ih =>
      rw [Journal.appendAll] at happ
      cases ha : j.append e.kind e.payload e.timeNs with
      | error x =>
          rw [ha] at happ
          cases happ
      | ok p =>
          obtain ⟨k, r⟩ := p
          rw [ha] at happ
          have hrep := ih (append_represents h ha) happ
          rw [List.append_assoc] at hrep
          exact hrep

theorem Represents.reopens_iff {j : Journal} {es : List Entry} (h : Represents j es) :
    j.Reopens ↔ ∀ e ∈ es, e.lineSafe = true := by
  rw [← open_ok_iff h]
  constructor
  · rintro ⟨j', ho, -⟩
    exact ⟨j', ho⟩
  · rintro ⟨j', ho⟩
    exact ⟨j', ho, (open_represents h ho).2⟩

theorem Represents.lineSafe_iff {j : Journal} {es : List Entry} (h : Represents j es) :
    j.LineSafe ↔ ∀ e ∈ es, e.lineSafe = true := by
  have hnorm : ∀ rs : List Fields, (∀ r ∈ rs, (Json.obj r).allStr lineSafe = true) ↔
      ∀ d ∈ rs.map Fields.norm, (Json.obj d).allStr lineSafe = true := by
    intro rs
    rw [List.forall_mem_map]
    refine forall₂_congr fun r _ => ?_
    rw [← Fields.obj_norm, Json.allStr_norm]
  rw [← chain_lineSafe_iff lineSafe_genesis, Journal.LineSafe, hnorm, h.records, ← hnorm]

theorem Represents.reopens_iff_lineSafe {j : Journal} {es : List Entry} (h : Represents j es) :
    j.Reopens ↔ j.LineSafe := h.reopens_iff.trans h.lineSafe_iff.symm

/-! ## Acknowledgements -/

/-- `AckLog`. -/
structure AckLog where
  journal : Journal
  acked : List (Json × Unit)

/-- `AckLog(path)` on an existing file. -/
def AckLog.open (disk : Str) : Except PyExn AckLog := do
  let journal ← Journal.open disk
  let records ← journal.replay (-1)
  let ids ← mapE (fun r => do
    return ((← (← r.get (lit "payload")).item (lit "event_id")), ())) records
  return ⟨journal, ← setKeys [] ids⟩

/-- `AckLog(path)` on a new file. -/
def AckLog.empty : AckLog := ⟨Journal.empty, []⟩

/-- `AckLog.is_acked(event_id)`. -/
def AckLog.isAcked (a : AckLog) (eventId : Json) : Except PyExn Bool := containsKey a.acked eventId

/-- `AckLog.ack(event_id, time_ns)`: what it returns and the log left behind. -/
def AckLog.ack (a : AckLog) (eventId : Json) (timeNs : Int) : Except PyExn (Bool × AckLog) := do
  if ← a.isAcked eventId then return (false, a)
  let (journal, _) ← a.journal.append (lit "ack") (.obj [(lit "event_id", eventId)]) timeNs
  return (true, ⟨journal, ← setKey a.acked eventId ()⟩)

/-- One journaled acknowledgement. -/
structure Acked where
  eventId : Json
  timeNs : Int
  hashable : eventId.hashable = true

theorem single_wf {key : Str} {v : Json} (h : v.wf = true) : (Json.obj [(key, v)]).wf = true := by
  simp only [Json.wf, Json.wfFields, List.map_cons, List.map_nil, List.nodup_singleton,
    decide_true, Bool.true_and, Bool.and_true]
  exact h

theorem hashable_wf {v : Json} (h : v.hashable = true) : v.wf = true := by
  cases v with
  | arr xs => cases h
  | obj d => cases h
  | _ => rfl

/-- The journal entry of an acknowledgement. -/
def Acked.entry (x : Acked) : Entry :=
  ⟨lit "ack", .obj [(lit "event_id", x.eventId)], x.timeNs, single_wf (hashable_wf x.hashable)⟩

/-- The log holds these acknowledgements. -/
structure AckLogOf (a : AckLog) (xs : List Acked) : Prop where
  represents : Represents a.journal (xs.map Acked.entry)
  acked : a.acked = xs.map fun x => (x.eventId, ())
  distinct : DistinctKeys (xs.map Acked.eventId)

theorem item_single {key : Str} {p v : Json} (h : p.Alike (.obj [(key, v)])) :
    ∃ w, p.item key = .ok w ∧ w.Alike v := by
  obtain ⟨d, rfl, hn⟩ := Json.alike_obj h
  obtain ⟨w, hw, ha⟩ := Fields.get?_alike_some hn (List.nodup_singleton key)
    (Fields.get?_of_mem (List.nodup_singleton key) (List.mem_singleton.2 rfl))
  exact ⟨w, Fields.get_of_get? hw, ha⟩

theorem ackLog_open {a : AckLog} {xs : List Acked} (h : AckLogOf a xs) {journal : Journal}
    (ho : Journal.open a.journal.disk = .ok journal) :
    AckLog.open a.journal.disk = .ok ⟨journal, a.acked⟩ ∧ AckLogOf ⟨journal, a.acked⟩ xs := by
  have hrep := (open_represents h.represents ho).1
  have hall := hrep.forall₂
  rw [List.forall₂_map_right_iff] at hall
  obtain ⟨ids, hids, hst⟩ := mapE_forall₂ (S := fun p x => p = (x.eventId, ()))
    (f := fun r : Fields => do
      return ((← (← r.get (lit "payload")).item (lit "event_id")), ())) hall (by
      intro r x hr
      obtain ⟨p, hp, ha⟩ := Records.payload hr
      obtain ⟨w, hw, haw⟩ := item_single ha
      refine ⟨(w, ()), ?_, ?_⟩
      · simp only [hp, bind, Except.bind, hw, pure, Except.pure]
      · rw [alike_hashable haw x.hashable])
  have hids' : ids = a.acked := (eq_map_of_forall₂ hst).trans h.acked.symm
  subst hids'
  refine ⟨?_, hrep, h.acked, h.distinct⟩
  have hd : DistinctKeys (([] ++ a.acked).map Prod.fst) := by
    rw [List.nil_append, h.acked, List.map_map]
    exact h.distinct
  rw [AckLog.open, ho]
  simp only [bind, Except.bind]
  rw [hrep.replay]
  simp only [bind, Except.bind] at hids
  simp only [hids, setKeys_distinct _ _ hd]
  rfl

theorem ack_cases {a a' : AckLog} {xs : List Acked} (h : AckLogOf a xs) {eventId : Json}
    {timeNs : Int} {b : Bool} (hack : a.ack eventId timeNs = .ok (b, a')) :
    ∃ ys, AckLogOf a' ys := by
  rw [AckLog.ack, AckLog.isAcked] at hack
  simp only [bind, Except.bind, pure, Except.pure] at hack
  cases hc : containsKey a.acked eventId with
  | error x =>
      rw [hc] at hack
      cases hack
  | ok seen =>
      obtain ⟨hk, hnew⟩ := containsKey_ok hc
      rw [hc] at hack
      cases seen with
      | true =>
          cases hack
          exact ⟨xs, h⟩
      | false =>
          let x : Acked := ⟨eventId, timeNs, hk⟩
          simp only [Bool.false_eq_true, if_false] at hack
          cases ha : a.journal.append (lit "ack") (.obj [(lit "event_id", eventId)]) timeNs with
          | error e =>
              rw [ha] at hack
              cases hack
          | ok p =>
              obtain ⟨journal, r⟩ := p
              rw [ha] at hack
              simp only [setKey_new hk (hnew rfl)] at hack
              cases hack
              refine ⟨xs ++ [x], ?_, ?_, ?_⟩
              · have hrep := append_represents (e := x.entry) h.represents ha
                rw [List.map_append]
                exact hrep
              · rw [h.acked, List.map_append]
                rfl
              · rw [List.map_append]
                apply distinctKeys_snoc h.distinct hk
                intro k hmem
                obtain ⟨y, hy, rfl⟩ := List.mem_map.1 hmem
                apply hnew rfl (y.eventId, ())
                rw [h.acked]
                exact List.mem_map_of_mem hy

/-! ## Messages -/

/-- A journaled message: an event with a hashable id. -/
structure Message where
  fields : Fields
  eventId : Json
  timeNs : Int
  fields_wf : (Json.obj fields).wf = true
  id_eq : fields.get? (lit "event_id") = some eventId
  hashable : eventId.hashable = true

theorem Message.nodup (x : Message) : (x.fields.map Prod.fst).Nodup := by
  have hwf := x.fields_wf
  rw [Json.wf, Bool.and_eq_true, decide_eq_true_eq] at hwf
  exact hwf.1

theorem Message.item {w : Json} {x : Message} (h : w.Alike (.obj x.fields)) :
    w.item (lit "event_id") = .ok x.eventId := by
  obtain ⟨d, rfl, hn⟩ := Json.alike_obj h
  obtain ⟨v, hv, ha⟩ := Fields.get?_alike_some hn x.nodup x.id_eq
  rw [alike_hashable ha x.hashable] at hv
  exact Fields.get_of_get? hv

/-- `event["event_id"]` of an event that is a message. -/
theorem message_of {event : Fields} (hwf : (Json.obj event).wf = true) {eventId : Json}
    (hget : event.get (lit "event_id") = .ok eventId) (hk : eventId.hashable = true)
    (timeNs : Int) : ∃ x : Message, x.fields = event ∧ x.eventId = eventId ∧ x.timeNs = timeNs := by
  have hid : event.get? (lit "event_id") = some eventId := by
    rw [Fields.get, Json.item] at hget
    rw [Fields.get?]
    split at hget
    · rename_i v hv
      cases hget
      exact hv
    · cases hget
  exact ⟨⟨event, eventId, timeNs, hwf, hid, hk⟩, rfl, rfl, rfl⟩

/-! ## The outbox -/

/-- `Outbox`. -/
structure Outbox where
  journal : Journal
  acks : AckLog
  sent : List (Json × Json)

/-- The item of `_sent` that a record gives. -/
def sentItem (record : Fields) : Except PyExn (Json × Json) := do
  let event ← eventOf record
  return (← event.item (lit "event_id"), event)

/-- `Outbox(path)` on existing files. -/
def Outbox.open (disk acksDisk : Str) : Except PyExn Outbox := do
  let journal ← Journal.open disk
  let acks ← AckLog.open acksDisk
  let records ← filterE (fun r => return (← r.get (lit "kind")).Same (.str (lit "send")))
    (← journal.replay (-1))
  return ⟨journal, acks, ← setKeys [] (← mapE sentItem records)⟩

/-- `Outbox(path)` on new files. -/
def Outbox.empty : Outbox := ⟨Journal.empty, AckLog.empty, []⟩

/-- `Outbox.publish(event, time_ns)`. -/
def Outbox.publish (o : Outbox) (event : Fields) (timeNs : Int) :
    Except PyExn (Json × Outbox) := do
  let eid ← event.get (lit "event_id")
  if ← containsKey o.sent eid then return (eid, o)
  let (journal, _) ← o.journal.append (lit "send") (.obj [(lit "event", .obj event)]) timeNs
  return (eid, { o with journal := journal, sent := ← setKey o.sent eid (.obj event) })

/-- `Outbox.ack(event_id, time_ns)`. -/
def Outbox.ack (o : Outbox) (eventId : Json) (timeNs : Int) : Except PyExn (Bool × Outbox) := do
  let (fresh, acks) ← o.acks.ack eventId timeNs
  return (fresh, { o with acks := acks })

/-- The journal entry of a sent message. -/
def Message.sendEntry (x : Message) : Entry :=
  ⟨lit "send", .obj [(lit "event", .obj x.fields)], x.timeNs, single_wf x.fields_wf⟩

/-- The item of `_sent` stands for the message. -/
def SentAs (p : Json × Json) (x : Message) : Prop := p.1 = x.eventId ∧ p.2.Alike (.obj x.fields)

/-- The outbox sent these messages and has these acknowledgements. -/
structure OutboxOf (o : Outbox) (xs : List Message) (as : List Acked) : Prop where
  represents : Represents o.journal (xs.map Message.sendEntry)
  sent : List.Forall₂ SentAs o.sent xs
  distinct : DistinctKeys (xs.map Message.eventId)
  acks : AckLogOf o.acks as

/-- The same journals, acknowledgements and, up to the order of keys, the same messages. -/
def Outbox.SameAs (o o' : Outbox) : Prop :=
  o.journal.SameAs o'.journal ∧ o.acks.journal.SameAs o'.acks.journal ∧
    o'.acks.acked = o.acks.acked ∧
    o'.sent.map (fun p => (p.1, p.2.norm)) = o.sent.map fun p => (p.1, p.2.norm)

theorem sentAs_map {ps : List (Json × Json)} {xs : List Message} (h : List.Forall₂ SentAs ps xs) :
    ps.map (fun p => (p.1, p.2.norm)) = xs.map fun x => (x.eventId, (Json.obj x.fields).norm) := by
  induction h with
  | nil => rfl
  | cons hp _ ih => rw [List.map_cons, List.map_cons, ih, hp.1, hp.2]

theorem sentAs_keys {ps : List (Json × Json)} {xs : List Message} (h : List.Forall₂ SentAs ps xs) :
    ps.map Prod.fst = xs.map Message.eventId := by
  induction h with
  | nil => rfl
  | cons hp _ ih => rw [List.map_cons, List.map_cons, ih, hp.1]

/-- A record whose payload holds the event of a message. -/
theorem eventOf_message {r : Fields} {e : Entry} (h : Records r e) {x : Message}
    (hget : ∀ p : Json, p.Alike e.payload →
      ∃ w, p.item (lit "event") = .ok w ∧ w.Alike (.obj x.fields)) :
    ∃ w, eventOf r = .ok w ∧ w.Alike (.obj x.fields) ∧
      w.item (lit "event_id") = .ok x.eventId := by
  obtain ⟨p, hp, ha⟩ := h.payload
  obtain ⟨w, hw, haw⟩ := hget p ha
  refine ⟨w, ?_, haw, Message.item haw⟩
  rw [eventOf, hp]
  exact hw

theorem outbox_open {o : Outbox} {xs : List Message} {as : List Acked} (h : OutboxOf o xs as)
    {journal ackJournal : Journal} (ho : Journal.open o.journal.disk = .ok journal)
    (hoa : Journal.open o.acks.journal.disk = .ok ackJournal) :
    ∃ o', Outbox.open o.journal.disk o.acks.journal.disk = .ok o' ∧ OutboxOf o' xs as ∧
      o.SameAs o' := by
  obtain ⟨hrep, hsame⟩ := open_represents h.represents ho
  obtain ⟨-, hsamea⟩ := open_represents h.acks.represents hoa
  obtain ⟨hao, hacks⟩ := ackLog_open h.acks hoa
  have hall := hrep.forall₂
  rw [List.forall₂_map_right_iff] at hall
  obtain ⟨rs, hrs, hrall⟩ := filterE_forall₂ (q := fun _ => true) hall
    (p := fun r => return (← r.get (lit "kind")).Same (.str (lit "send"))) (by
      intro r x hr
      have hk : r.get (lit "kind") = .ok (.str (lit "send")) := Records.kind hr
      simp only [hk, bind, Except.bind, pure, Except.pure, Json.Same.refl, decide_true])
  rw [List.filter_true] at hrall
  obtain ⟨ps, hps, hst⟩ := mapE_forall₂ (S := SentAs) (f := sentItem) hrall (by
    intro r x hr
    obtain ⟨w, hw, haw, hid⟩ := eventOf_message hr (x := x) fun _ ha => item_single ha
    refine ⟨(x.eventId, w), ?_, rfl, haw⟩
    simp only [sentItem, hw, bind, Except.bind, hid, pure, Except.pure])
  have hd : DistinctKeys (([] ++ ps).map Prod.fst) := by
    rw [List.nil_append, sentAs_keys hst]
    exact h.distinct
  refine ⟨⟨journal, ⟨ackJournal, o.acks.acked⟩, ps⟩, ?_, ⟨hrep, hst, h.distinct, hacks⟩, hsame,
    hsamea, rfl, ?_⟩
  · rw [Outbox.open, ho]
    simp only [bind, Except.bind]
    rw [hao]
    simp only
    rw [hrep.replay]
    simp only [bind, Except.bind] at hrs
    simp only [hrs, hps, setKeys_distinct _ _ hd]
    rfl
  · rw [sentAs_map hst, sentAs_map h.sent]

theorem publish_cases {o o' : Outbox} {xs : List Message} {as : List Acked} (h : OutboxOf o xs as)
    {event : Fields} (hwf : (Json.obj event).wf = true) {timeNs : Int} {eid : Json}
    (hpub : o.publish event timeNs = .ok (eid, o')) : ∃ ys, OutboxOf o' ys as := by
  rw [Outbox.publish] at hpub
  simp only [bind, Except.bind, pure, Except.pure] at hpub
  cases hget : event.get (lit "event_id") with
  | error x =>
      rw [hget] at hpub
      cases hpub
  | ok i =>
      rw [hget] at hpub
      simp only at hpub
      cases hc : containsKey o.sent i with
      | error x =>
          rw [hc] at hpub
          cases hpub
      | ok seen =>
          obtain ⟨hk, hnew⟩ := containsKey_ok hc
          rw [hc] at hpub
          cases seen with
          | true =>
              cases hpub
              exact ⟨xs, h⟩
          | false =>
              obtain ⟨x, rfl, rfl, rfl⟩ := message_of hwf hget hk timeNs
              simp only [Bool.false_eq_true, if_false] at hpub
              cases ha : o.journal.append (lit "send") (.obj [(lit "event", .obj x.fields)])
                  x.timeNs with
              | error e =>
                  rw [ha] at hpub
                  cases hpub
              | ok p =>
                  obtain ⟨journal, r⟩ := p
                  rw [ha] at hpub
                  simp only [setKey_new hk (hnew rfl)] at hpub
                  cases hpub
                  refine ⟨xs ++ [x], ?_, ?_, ?_, h.acks⟩
                  · have hrep := append_represents (e := x.sendEntry) h.represents ha
                    rw [List.map_append]
                    exact hrep
                  · exact List.rel_append h.sent (List.Forall₂.cons ⟨rfl, rfl⟩ List.Forall₂.nil)
                  · rw [List.map_append]
                    apply distinctKeys_snoc h.distinct hk
                    rw [← sentAs_keys h.sent]
                    intro k hmem
                    obtain ⟨kv, hkv, rfl⟩ := List.mem_map.1 hmem
                    exact hnew rfl kv hkv

/-! ## The inbox -/

/-- `Inbox`. -/
structure Inbox where
  journal : Journal
  seen : List (Json × Json)

/-- The item of `_seen` that a record gives. -/
def seenItem (record : Fields) : Except PyExn (Json × Json) := do
  let eventId ← (← eventOf record).item (lit "event_id")
  return (eventId, ← (← record.get (lit "payload")).item (lit "disposition"))

/-- `Inbox(path)` on an existing file. -/
def Inbox.open (disk : Str) : Except PyExn Inbox := do
  let journal ← Journal.open disk
  let records ← filterE (fun r => return (← r.get (lit "kind")).Same (.str (lit "deliver")))
    (← journal.replay (-1))
  return ⟨journal, ← setKeys [] (← mapE seenItem records)⟩

/-- `Inbox(path)` on a new file. -/
def Inbox.empty : Inbox := ⟨Journal.empty, []⟩

/-- The payload of a delivery record. -/
def deliverPayload (event : Fields) : Json :=
  .obj [(lit "event", .obj event), (lit "disposition", .str (lit "accepted"))]

/-- `Inbox.deliver(event, time_ns)`: the disposition and the inbox left behind. -/
def Inbox.deliver (b : Inbox) (event : Fields) (timeNs : Int) :
    Except PyExn (Disposition × Inbox) := do
  let eid ← event.get (lit "event_id")
  if ← containsKey b.seen eid then return (.duplicate, b)
  let (journal, _) ← b.journal.append (lit "deliver") (deliverPayload event) timeNs
  return (.accepted, ⟨journal, ← setKey b.seen eid (.str (lit "accepted"))⟩)

omit [FloatModel] in
theorem deliverPayload_nodup : [lit "event", lit "disposition"].Nodup := by decide

theorem deliverPayload_wf {event : Fields} (h : (Json.obj event).wf = true) :
    (deliverPayload event).wf = true := by
  rw [deliverPayload, Json.wf, Bool.and_eq_true, decide_eq_true_eq]
  refine ⟨deliverPayload_nodup, ?_⟩
  simp only [Json.wfFields, h, Bool.true_and, Bool.and_true]
  rfl

/-- The journal entry of a delivered message. -/
def Message.deliverEntry (x : Message) : Entry :=
  ⟨lit "deliver", deliverPayload x.fields, x.timeNs, deliverPayload_wf x.fields_wf⟩

/-- The inbox has these messages. -/
structure InboxOf (b : Inbox) (xs : List Message) : Prop where
  represents : Represents b.journal (xs.map Message.deliverEntry)
  seen : b.seen = xs.map fun x => (x.eventId, .str (lit "accepted"))
  distinct : DistinctKeys (xs.map Message.eventId)

/-- The same journal and the same dispositions. -/
def Inbox.SameAs (b b' : Inbox) : Prop := b.journal.SameAs b'.journal ∧ b'.seen = b.seen

theorem deliverPayload_item {p : Json} {event : Fields} (h : p.Alike (deliverPayload event)) :
    (∃ w, p.item (lit "event") = .ok w ∧ w.Alike (.obj event)) ∧
      p.item (lit "disposition") = .ok (.str (lit "accepted")) := by
  obtain ⟨d, rfl, hn⟩ := Json.alike_obj (show p.Alike (.obj _) from h)
  refine ⟨?_, ?_⟩
  · obtain ⟨w, hw, ha⟩ := Fields.get?_alike_some hn deliverPayload_nodup
      (Fields.get?_of_mem deliverPayload_nodup List.mem_cons_self)
    exact ⟨w, Fields.get_of_get? hw, ha⟩
  · obtain ⟨w, hw, ha⟩ := Fields.get?_alike_some hn deliverPayload_nodup
      (Fields.get?_of_mem deliverPayload_nodup (List.mem_cons_of_mem _ List.mem_cons_self))
    rw [Json.alike_str ha] at hw
    exact Fields.get_of_get? hw

theorem inbox_open {b : Inbox} {xs : List Message} (h : InboxOf b xs) {journal : Journal}
    (ho : Journal.open b.journal.disk = .ok journal) :
    ∃ b', Inbox.open b.journal.disk = .ok b' ∧ InboxOf b' xs ∧ b.SameAs b' := by
  obtain ⟨hrep, hsame⟩ := open_represents h.represents ho
  have hall := hrep.forall₂
  rw [List.forall₂_map_right_iff] at hall
  obtain ⟨rs, hrs, hrall⟩ := filterE_forall₂ (q := fun _ => true) hall
    (p := fun r => return (← r.get (lit "kind")).Same (.str (lit "deliver"))) (by
      intro r x hr
      have hk : r.get (lit "kind") = .ok (.str (lit "deliver")) := Records.kind hr
      simp only [hk, bind, Except.bind, pure, Except.pure, Json.Same.refl, decide_true])
  rw [List.filter_true] at hrall
  obtain ⟨ps, hps, hst⟩ := mapE_forall₂ (f := seenItem)
    (S := fun q x => q = (x.eventId, Json.str (lit "accepted"))) hrall (by
    intro r x hr
    obtain ⟨p, hp, ha⟩ := Records.payload hr
    obtain ⟨w, hw, -, hid⟩ := eventOf_message hr (x := x) fun _ ha => (deliverPayload_item ha).1
    refine ⟨_, ?_, rfl⟩
    simp only [seenItem, hw, bind, Except.bind, hid, hp, (deliverPayload_item ha).2, pure,
      Except.pure])
  have hps' : ps = b.seen := (eq_map_of_forall₂ hst).trans h.seen.symm
  subst hps'
  have hd : DistinctKeys (([] ++ b.seen).map Prod.fst) := by
    rw [List.nil_append, h.seen, List.map_map]
    exact h.distinct
  refine ⟨⟨journal, b.seen⟩, ?_, ⟨hrep, h.seen, h.distinct⟩, hsame, rfl⟩
  rw [Inbox.open, ho]
  simp only [bind, Except.bind]
  rw [hrep.replay]
  simp only [bind, Except.bind] at hrs
  simp only [hrs, hps, setKeys_distinct _ _ hd]
  rfl

theorem deliver_cases {b b' : Inbox} {xs : List Message} (h : InboxOf b xs) {event : Fields}
    (hwf : (Json.obj event).wf = true) {timeNs : Int} {disposition : Disposition}
    (hdel : b.deliver event timeNs = .ok (disposition, b')) : ∃ ys, InboxOf b' ys := by
  rw [Inbox.deliver] at hdel
  simp only [bind, Except.bind, pure, Except.pure] at hdel
  cases hget : event.get (lit "event_id") with
  | error x =>
      rw [hget] at hdel
      cases hdel
  | ok i =>
      rw [hget] at hdel
      simp only at hdel
      cases hc : containsKey b.seen i with
      | error x =>
          rw [hc] at hdel
          cases hdel
      | ok seen =>
          obtain ⟨hk, hnew⟩ := containsKey_ok hc
          rw [hc] at hdel
          cases seen with
          | true =>
              cases hdel
              exact ⟨xs, h⟩
          | false =>
              obtain ⟨x, rfl, rfl, rfl⟩ := message_of hwf hget hk timeNs
              simp only [Bool.false_eq_true, if_false] at hdel
              cases ha : b.journal.append (lit "deliver") (deliverPayload x.fields) x.timeNs with
              | error e =>
                  rw [ha] at hdel
                  cases hdel
              | ok p =>
                  obtain ⟨journal, r⟩ := p
                  rw [ha] at hdel
                  simp only [setKey_new hk (hnew rfl)] at hdel
                  cases hdel
                  refine ⟨xs ++ [x], ?_, ?_, ?_⟩
                  · have hrep := append_represents (e := x.deliverEntry) h.represents ha
                    rw [List.map_append]
                    exact hrep
                  · rw [h.seen, List.map_append]
                    rfl
                  · rw [List.map_append]
                    apply distinctKeys_snoc h.distinct hk
                    intro k hmem
                    obtain ⟨y, hy, rfl⟩ := List.mem_map.1 hmem
                    apply hnew rfl (y.eventId, .str (lit "accepted"))
                    rw [h.seen]
                    exact List.mem_map_of_mem hy

/-! ## Runs -/

/-- What can happen to an acknowledgement log. -/
inductive AckOp where
  | ack (eventId : Json) (timeNs : Int)
  | reopen

/-- What can happen to an outbox. -/
inductive OutboxOp where
  | publish (event : Fields) (event_wf : (Json.obj event).wf = true) (timeNs : Int)
  | ack (eventId : Json) (timeNs : Int)
  | reopen

/-- What can happen to an inbox. -/
inductive InboxOp where
  | deliver (event : Fields) (event_wf : (Json.obj event).wf = true) (timeNs : Int)
  | reopen

/-- The result of a call, or the old state when it raised. -/
def orKeep {α : Type} (old : α) : Except PyExn α → α
  | .ok new => new
  | .error _ => old

/-- The log after a call; a call that raises leaves it as it is. -/
def AckLog.step (a : AckLog) : AckOp → AckLog
  | .ack eventId timeNs => orKeep a ((a.ack eventId timeNs).map Prod.snd)
  | .reopen => orKeep a (AckLog.open a.journal.disk)

/-- The outbox after a call. -/
def Outbox.step (o : Outbox) : OutboxOp → Outbox
  | .publish event _ timeNs => orKeep o ((o.publish event timeNs).map Prod.snd)
  | .ack eventId timeNs => orKeep o ((o.ack eventId timeNs).map Prod.snd)
  | .reopen => orKeep o (Outbox.open o.journal.disk o.acks.journal.disk)

/-- The inbox after a call. -/
def Inbox.step (b : Inbox) : InboxOp → Inbox
  | .deliver event _ timeNs => orKeep b ((b.deliver event timeNs).map Prod.snd)
  | .reopen => orKeep b (Inbox.open b.journal.disk)

/-- The same journal and the same ids. -/
def AckLog.SameAs (a a' : AckLog) : Prop := a.journal.SameAs a'.journal ∧ a'.acked = a.acked

theorem ackLog_open_ok {a a' : AckLog} (h : AckLog.open a.journal.disk = .ok a') :
    ∃ j, Journal.open a.journal.disk = .ok j := by
  rw [AckLog.open] at h
  cases ho : Journal.open a.journal.disk with
  | ok j => exact ⟨j, rfl⟩
  | error x =>
      rw [ho] at h
      cases h

theorem inbox_open_ok {b b' : Inbox} (h : Inbox.open b.journal.disk = .ok b') :
    ∃ j, Journal.open b.journal.disk = .ok j := by
  rw [Inbox.open] at h
  cases ho : Journal.open b.journal.disk with
  | ok j => exact ⟨j, rfl⟩
  | error x =>
      rw [ho] at h
      cases h

theorem outbox_open_ok {o o' : Outbox}
    (h : Outbox.open o.journal.disk o.acks.journal.disk = .ok o') :
    (∃ j, Journal.open o.journal.disk = .ok j) ∧
      ∃ j, Journal.open o.acks.journal.disk = .ok j := by
  rw [Outbox.open] at h
  simp only [bind, Except.bind] at h
  cases ho : Journal.open o.journal.disk with
  | error x =>
      rw [ho] at h
      cases h
  | ok j =>
      refine ⟨⟨j, rfl⟩, ?_⟩
      rw [ho] at h
      simp only at h
      cases ha : AckLog.open o.acks.journal.disk with
      | ok a => exact ackLog_open_ok ha
      | error x =>
          rw [ha] at h
          cases h

theorem ackLog_step {a : AckLog} {xs : List Acked} (h : AckLogOf a xs) (op : AckOp) :
    ∃ ys, AckLogOf (a.step op) ys := by
  cases op with
  | ack eventId timeNs =>
      rw [AckLog.step]
      cases hack : a.ack eventId timeNs with
      | error x => exact ⟨xs, h⟩
      | ok p => exact ack_cases h hack
  | reopen =>
      rw [AckLog.step]
      cases ho : AckLog.open a.journal.disk with
      | error x => exact ⟨xs, h⟩
      | ok a' =>
          obtain ⟨j, hj⟩ := ackLog_open_ok ho
          obtain ⟨hao, hacks⟩ := ackLog_open h hj
          rw [ho] at hao
          cases hao
          exact ⟨xs, hacks⟩

theorem outbox_step {o : Outbox} {xs : List Message} {as : List Acked} (h : OutboxOf o xs as)
    (op : OutboxOp) : ∃ ys bs, OutboxOf (o.step op) ys bs := by
  cases op with
  | publish event hwf timeNs =>
      rw [Outbox.step]
      cases hpub : o.publish event timeNs with
      | error x => exact ⟨xs, as, h⟩
      | ok p =>
          obtain ⟨ys, hys⟩ := publish_cases h hwf hpub
          exact ⟨ys, as, hys⟩
  | ack eventId timeNs =>
      rw [Outbox.step, Outbox.ack]
      cases hack : o.acks.ack eventId timeNs with
      | error x => exact ⟨xs, as, h⟩
      | ok p =>
          obtain ⟨bs, hbs⟩ := ack_cases h.acks hack
          exact ⟨xs, bs, h.represents, h.sent, h.distinct, hbs⟩
  | reopen =>
      rw [Outbox.step]
      cases ho : Outbox.open o.journal.disk o.acks.journal.disk with
      | error x => exact ⟨xs, as, h⟩
      | ok o' =>
          obtain ⟨⟨j, hj⟩, k, hk⟩ := outbox_open_ok ho
          obtain ⟨o'', ho'', hof, -⟩ := outbox_open h hj hk
          rw [ho] at ho''
          cases ho''
          exact ⟨xs, as, hof⟩

theorem inbox_step {b : Inbox} {xs : List Message} (h : InboxOf b xs) (op : InboxOp) :
    ∃ ys, InboxOf (b.step op) ys := by
  cases op with
  | deliver event hwf timeNs =>
      rw [Inbox.step]
      cases hdel : b.deliver event timeNs with
      | error x => exact ⟨xs, h⟩
      | ok p => exact deliver_cases h hwf hdel
  | reopen =>
      rw [Inbox.step]
      cases ho : Inbox.open b.journal.disk with
      | error x => exact ⟨xs, h⟩
      | ok b' =>
          obtain ⟨j, hj⟩ := inbox_open_ok ho
          obtain ⟨b'', hb'', hof, -⟩ := inbox_open h hj
          rw [ho] at hb''
          cases hb''
          exact ⟨xs, hof⟩

theorem ackLog_run (ops : List AckOp) :
    ∃ xs, AckLogOf (ops.foldl AckLog.step AckLog.empty) xs :=
  foldl_invariant (P := fun a => ∃ xs, AckLogOf a xs) (fun _ op ⟨_, h⟩ => ackLog_step h op) ops
    ⟨[], empty_represents, rfl, nofun, List.Pairwise.nil⟩

theorem outbox_run (ops : List OutboxOp) :
    ∃ xs as, OutboxOf (ops.foldl Outbox.step Outbox.empty) xs as :=
  foldl_invariant (P := fun o => ∃ xs as, OutboxOf o xs as)
    (fun _ op ⟨_, _, h⟩ => outbox_step h op) ops
    ⟨[], [], empty_represents, List.Forall₂.nil, ⟨nofun, List.Pairwise.nil⟩,
      empty_represents, rfl, nofun, List.Pairwise.nil⟩

theorem inbox_run (ops : List InboxOp) :
    ∃ xs, InboxOf (ops.foldl Inbox.step Inbox.empty) xs :=
  foldl_invariant (P := fun b => ∃ xs, InboxOf b xs) (fun _ op ⟨_, h⟩ => inbox_step h op) ops
    ⟨[], empty_represents, rfl, nofun, List.Pairwise.nil⟩

theorem store_run (ownership : OwnershipRegistry) (leases : LeaseManager) (ops : List Op) :
    ∃ xs, StoreOf ((Store.init ownership leases).run ops) xs := by
  refine foldl_invariant (P := fun s => ∃ xs, StoreOf s xs) ?_ ops
    ⟨[], init_storeOf ownership leases⟩
  rintro s op ⟨xs, h⟩
  exact step_storeOf h op

/-! ## Reopening -/

/-- Everything that is kept in journals comes back exactly when the journals can be read back. -/
theorem reopen_same_iff :
    (∀ (es : List Entry) (j : Journal), Journal.empty.appendAll es = .ok j →
      (j.Reopens ↔ ∀ e ∈ es, e.lineSafe = true)) ∧
    (∀ (ownership : OwnershipRegistry) (leases : LeaseManager) (ops : List Op),
      (∃ s', Store.recover ((Store.init ownership leases).run ops).journal.disk ownership leases =
          .ok s' ∧ ((Store.init ownership leases).run ops).journal.SameAs s'.journal) ↔
        ((Store.init ownership leases).run ops).journal.LineSafe) ∧
    (∀ ops : List OutboxOp,
      (∃ o', Outbox.open (ops.foldl Outbox.step Outbox.empty).journal.disk
          (ops.foldl Outbox.step Outbox.empty).acks.journal.disk = .ok o' ∧
          (ops.foldl Outbox.step Outbox.empty).SameAs o') ↔
        (ops.foldl Outbox.step Outbox.empty).journal.LineSafe ∧
          (ops.foldl Outbox.step Outbox.empty).acks.journal.LineSafe) ∧
    (∀ ops : List InboxOp,
      (∃ b', Inbox.open (ops.foldl Inbox.step Inbox.empty).journal.disk = .ok b' ∧
          (ops.foldl Inbox.step Inbox.empty).SameAs b') ↔
        (ops.foldl Inbox.step Inbox.empty).journal.LineSafe) ∧
    ∀ ops : List AckOp,
      (∃ a', AckLog.open (ops.foldl AckLog.step AckLog.empty).journal.disk = .ok a' ∧
          (ops.foldl AckLog.step AckLog.empty).SameAs a') ↔
        (ops.foldl AckLog.step AckLog.empty).journal.LineSafe := by
  refine ⟨?_, ?_, ?_, ?_, ?_⟩
  · intro es j happ
    have hrep := appendAll_represents empty_represents happ
    rw [List.nil_append] at hrep
    exact hrep.reopens_iff
  · intro ownership leases ops
    obtain ⟨xs, h⟩ := store_run ownership leases ops
    rw [← Represents.reopens_iff_lineSafe h]
    constructor
    · rintro ⟨s', hs, hsame⟩
      rw [Store.recover] at hs
      cases ho : Journal.open ((Store.init ownership leases).run ops).journal.disk with
      | error x =>
          rw [ho] at hs
          cases hs
      | ok j =>
          rw [ho] at hs
          cases hs
          exact ⟨j, ho, hsame⟩
    · rintro ⟨j, ho, hsame⟩
      refine ⟨⟨j, ownership, leases⟩, ?_, hsame⟩
      rw [Store.recover, ho]
      rfl
  · intro ops
    obtain ⟨xs, as, h⟩ := outbox_run ops
    rw [h.represents.lineSafe_iff, h.acks.represents.lineSafe_iff, ← open_ok_iff h.represents,
      ← open_ok_iff h.acks.represents]
    constructor
    · rintro ⟨o', ho, -⟩
      exact outbox_open_ok ho
    · rintro ⟨⟨j, hj⟩, k, hk⟩
      obtain ⟨o', ho, -, hsame⟩ := outbox_open h hj hk
      exact ⟨o', ho, hsame⟩
  · intro ops
    obtain ⟨xs, h⟩ := inbox_run ops
    rw [h.represents.lineSafe_iff, ← open_ok_iff h.represents]
    constructor
    · rintro ⟨b', ho, -⟩
      exact inbox_open_ok ho
    · rintro ⟨j, hj⟩
      obtain ⟨b', ho, -, hsame⟩ := inbox_open h hj
      exact ⟨b', ho, hsame⟩
  · intro ops
    obtain ⟨xs, h⟩ := ackLog_run ops
    rw [h.represents.lineSafe_iff, ← open_ok_iff h.represents]
    constructor
    · rintro ⟨a', ho, -⟩
      exact ackLog_open_ok ho
    · rintro ⟨j, hj⟩
      obtain ⟨hao, -⟩ := ackLog_open h hj
      exact ⟨_, hao, (open_represents h.represents hj).2, rfl⟩

end Model

/-! ## Concrete journals -/

section Concrete

attribute [local instance] wholeFloats

/-- A note with one line of text. -/
def note (text : Str) : Entry :=
  ⟨lit "note", .obj [(lit "text", .str text)], 0, rfl⟩

theorem journal_reopens_note : ∃ j, Journal.empty.appendAll [note (lit "a b")] = .ok j ∧
    j.Reopens := by
  cases happ : Journal.empty.appendAll [note (lit "a b")] with
  | error x =>
      have hok : (Journal.empty.appendAll [note (lit "a b")]).isOk = true := by decide +kernel
      rw [happ] at hok
      cases hok
  | ok j =>
      refine ⟨j, rfl, (reopen_same_iff.1 _ j happ).2 ?_⟩
      decide

/-- A note with a line separator, U+2028, in its text cannot be read back. -/
theorem journal_line_separator : ∃ j, Journal.empty.appendAll [note [0x61, 0x2028, 0x62]] = .ok j ∧
    ¬ j.Reopens := by
  cases happ : Journal.empty.appendAll [note [0x61, 0x2028, 0x62]] with
  | error x =>
      have hok : (Journal.empty.appendAll [note [0x61, 0x2028, 0x62]]).isOk = true := by
        decide +kernel
      rw [happ] at hok
      cases hok
  | ok j =>
      refine ⟨j, rfl, ?_⟩
      have hrep := appendAll_represents empty_represents happ
      rw [hrep.reopens_iff]
      decide

end Concrete

end ResidualHarness.Dsm
