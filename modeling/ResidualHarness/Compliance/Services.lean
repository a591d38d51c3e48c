import ResidualHarness.Compliance.Log

/-!
# The services over the compliance log

`residual/compliance/legal_hold.py`, `retention.py` and `erasure.py`: the manager of legal holds,
the enforcement of retention with its archive, and the erasure of a user. They share one log and
know nothing of each other but that retention is given the holds. No call loses an event or has one
twice (`step_filed`).
-/

set_option autoImplicit false

namespace ResidualHarness.Compliance

open Python Core

/-! ## HMAC-SHA256 -/

/-- `hashlib.sha256(data).digest()`. -/
def sha256Bytes (data : List Nat) : List Nat :=
  (Sha256.digestWords data).flatMap (Sha256.bytesOfNat 4)

/-- The key of an HMAC, filled up to one block. -/
def hmacBlock (key : List Nat) : List Nat :=
  let k := if 64 < key.length then sha256Bytes key else key
  k ++ List.replicate (64 - k.length) 0

/-- `hmac.new(key, message, hashlib.sha256).hexdigest()`. -/
def hmacSha256 (key message : List Nat) : Str :=
  let inner := sha256Bytes ((hmacBlock key).map (· ^^^ 0x36) ++ message)
  sha256 ((hmacBlock key).map (· ^^^ 0x5c) ++ inner)

variable [FloatModel] [Clocks]

/-! ## Legal holds -/

/-- `HoldScope`, with the checks of its constructor passed. -/
structure HoldScope where
  user : Option Str
  taskId : Option Str
  start : Option FloatModel.F
  stop : Option FloatModel.F
  constrained : ¬ (user = none ∧ taskId = none ∧ start = none ∧ stop = none)
  named : ∀ value ∈ [user, taskId], ∀ s ∈ value, isBlank s = false
  ordered : ∀ a ∈ start, ∀ b ∈ stop, Clocks.lt b a = false

/-- `matches(event)`. -/
def HoldScope.matchesEvent (scope : HoldScope) (event : ObservationEvent) : Bool :=
  scope.user.all (fun u => decide (event.actor = u)) &&
    scope.taskId.all (fun t => decide (event.taskId = t)) &&
    scope.start.all (fun a => !Clocks.lt event.timestamp a) &&
    scope.stop.all (fun b => !Clocks.lt b event.timestamp)

/-- `LegalHold`. -/
structure LegalHold where
  id : Nat
  scope : HoldScope
  reason : Str
  active : Bool
  activateReceipt : Str
  releaseReceipt : Str

/-! ## Retention -/

/-- `SECONDS_PER_YEAR`. -/
def secondsPerYear : Int := 365 * 86400

/-- `RetentionPolicy`, with the checks of its constructor passed. -/
structure RetentionPolicy where
  years : Dict Str Int
  known : ∀ category ∈ years.keys, category ∈ categories
  positive : ∀ item ∈ years, 1 ≤ item.2
  complete : ∀ category ∈ categories, category ∈ years.keys

/-- `max_age_seconds(category)`; every category of an event is in the policy. -/
def RetentionPolicy.maxAgeSeconds (policy : RetentionPolicy) (category : Str) : Int :=
  (policy.years.get? category).getD 0 * secondsPerYear

/-- `ArchiveRecord`. -/
structure ArchiveRecord where
  event : ObservationEvent
  archiveDigest : Str

/-- The digest that `ArchiveStore.archive(event)` takes. -/
def archiveDigest (event : ObservationEvent) : Except PyExn Str := do
  let text ← canonical event.body
  let data ← utf8 (lit "residual.compliance.archive.v1" ++ lf :: text ++ lf :: event.chainHash)
  return sha256 data

/-- What the loop of `enforce_retention` fills. The lists `archived` and `deleted` get the same
ids. -/
structure Sweep where
  records : List ArchiveRecord
  archived : List Nat
  held : List Nat

/-- The loop of `enforce_retention`. -/
def sweep (expired blocked : ObservationEvent → Bool) :
    List ObservationEvent → Sweep → Except PyExn Unit × Sweep
  | [], s => (.ok (), s)
  | e :: es, s =>
      if expired e = false then sweep expired blocked es s
      else if blocked e = true then sweep expired blocked es { s with held := s.held ++ [e.id] }
      else
        match archiveDigest e with
        | .error x => (.error x, s)
        | .ok d => sweep expired blocked es
            { s with records := s.records ++ [⟨e, d⟩], archived := s.archived ++ [e.id] }

/-- The age of the event reached its category's retention. -/
def expired (policy : RetentionPolicy) (now : FloatModel.F) (event : ObservationEvent) : Bool :=
  !Clocks.ltInt (Clocks.sub now event.timestamp) (policy.maxAgeSeconds event.category)

/-- `RetentionReport`. -/
structure RetentionReport where
  archived : List Nat
  deleted : List Nat
  held : List Nat
  receiptHash : Str

/-- `ErasureResult`. -/
structure ErasureResult where
  user : Str
  pseudonym : Str
  eventsPseudonymized : Nat
  receiptHash : Str
  saltDestroyed : Bool

/-! ## The services -/

/-- One log, its manager of holds, its archive, and the erased users of each erasure service. The
trace keeps the receipt hashes that were handed out. -/
structure World where
  log : ObservationLog
  records : List ArchiveRecord
  holds : List LegalHold
  holdCounter : Nat
  erased : Nat → List Str
  issued : List Str

/-- An empty log, no hold and an empty archive. -/
def World.empty : World := ⟨.empty, [], [], 1, fun _ => [], []⟩

/-- A bound of a scope as JSON. -/
def optionalFloat : Option FloatModel.F → Json
  | some f => .float f
  | none => .null

/-- An observation of one of the services. -/
def serviceEvent (kind category : String) (timestamp : FloatModel.F) (actor : Str)
    (payload : Fields) (tags : List Str) : Observation where
  kind := lit kind
  timestamp := timestamp
  actor := actor
  taskId := lit "system"
  category := lit category
  region := lit "local"
  payload := payload
  tags := tags

/-- What `activate` appends. -/
def activation (scope : HoldScope) (reason : Str) (timestamp : FloatModel.F) (actor : Str) :
    Observation :=
  serviceEvent "legal_hold" "sox" timestamp actor
    [(lit "action", .str (lit "activate")), (lit "reason", .str reason),
      (lit "scope", .obj [(lit "user", optionalString scope.user),
        (lit "task_id", optionalString scope.taskId), (lit "start", optionalFloat scope.start),
        (lit "end", optionalFloat scope.stop)])]
    [lit "SOX-CC7.2"]

/-- What `release` appends. -/
def releasing (hold : LegalHold) (timestamp : FloatModel.F) (actor : Str) : Observation :=
  serviceEvent "legal_hold" "sox" timestamp actor
    [(lit "action", .str (lit "release")), (lit "hold_id", .int hold.id),
      (lit "reason", .str hold.reason)]
    [lit "SOX-CC7.2"]

/-- `sorted(ids)`. -/
def sortedIds (ids : List Nat) : List Nat := ids.insertionSort (· ≤ ·)

/-- Numbers as JSON. -/
def numbers (ids : List Nat) : Json := .arr (ids.map fun n => .int n)

/-- What `enforce_retention` appends. -/
def retentionReceipt (s : Sweep) (now : FloatModel.F) (actor : Str) : Observation :=
  serviceEvent "retention" "operational" now actor
    [(lit "archived", numbers (sortedIds s.archived)), (lit "deleted", numbers (sortedIds s.archived)),
      (lit "held", numbers (sortedIds s.held))]
    [lit "SOX-CC7.2", lit "ISO27001-A.12.4"]

/-- What the erasure service appends. -/
def erasureReceipt (pseudonym : Str) (count : Nat) (timestamp : FloatModel.F) (actor : Str) :
    Observation :=
  serviceEvent "erasure" "sox" timestamp actor
    [(lit "action", .str (lit "pseudonymize")), (lit "pseudonym", .str pseudonym),
      (lit "events_pseudonymized", .int count), (lit "salt_destroyed", .bool true),
      (lit "article", .str (lit "GDPR-Art17"))]
    [lit "GDPR-Art17"]

/-- `blocked(event)`. -/
def World.blocked (w : World) (event : ObservationEvent) : Bool :=
  w.holds.any fun h => h.active && h.scope.matchesEvent event

/-- `activate(scope, reason, timestamp, actor)`. -/
def World.activate (w : World) (scope : HoldScope) (reason : Str) (timestamp : FloatModel.F)
    (actor : Str) : Except PyExn LegalHold × World :=
  if isBlank reason = true then (.error (contractError "legal hold requires a reason"), w)
  else
    match w.log.append (activation scope reason timestamp actor) with
    | (.error x, log) => (.error x, { w with log := log })
    | (.ok event, log) =>
        let hold : LegalHold := ⟨w.holdCounter, scope, reason, true, event.chainHash, []⟩
        (.ok hold,
          { w with
            log := log
            holds := w.holds ++ [hold]
            holdCounter := w.holdCounter + 1
            issued := w.issued ++ [event.chainHash] })

/-- `release(hold_id, timestamp, actor)`. The receipt of the activation was handed out before. -/
def World.release (w : World) (holdId : Nat) (timestamp : FloatModel.F) (actor : Str) :
    Except PyExn LegalHold × World :=
  match w.holds.find? fun h => decide (h.id = holdId) with
  | none => (.error (contractError "unknown hold id"), w)
  | some hold =>
      if hold.active = false then (.error (contractError "hold already released"), w)
      else
        match w.log.append (releasing hold timestamp actor) with
        | (.error x, log) => (.error x, { w with log := log })
        | (.ok event, log) =>
            let released : LegalHold :=
              ⟨hold.id, hold.scope, hold.reason, false, hold.activateReceipt, event.chainHash⟩
            (.ok released,
              { w with
                log := log
                holds := w.holds.set (w.holds.findIdx fun h => decide (h.id = holdId)) released
                issued := w.issued ++ [event.chainHash] })

/-- `enforce_retention(log, archive, policy, now, holds, actor)`, with the manager passed or not. -/
def World.enforceRetention (w : World) (policy : RetentionPolicy) (now : FloatModel.F)
    (passed : Bool) (actor : Str) : Except PyExn RetentionReport × World :=
  if Clocks.ltInt now 0 = true then
    (.error (contractError "retention clock must be nonnegative"), w)
  else
    match sweep (expired policy now) (fun e => passed && w.blocked e) w.log.events
        ⟨w.records, [], []⟩ with
    | (.error x, s) => (.error x, { w with records := s.records })
    | (.ok (), s) =>
        let moved := (s.records.map ArchiveRecord.event).filter fun e => decide (e.id ∈ s.archived)
        match ((w.log.remove s.archived).markArchived moved).append
            (retentionReceipt s now actor) with
        | (.error x, log) => (.error x, { w with log := log, records := s.records })
        | (.ok event, log) =>
            (.ok ⟨sortedIds s.archived, sortedIds s.archived, sortedIds s.held, event.chainHash⟩,
              { w with
                log := log
                records := s.records
                issued := w.issued ++ [event.chainHash] })

/-- The pseudonym of a user under a salt. -/
def pseudonymOf (salt : List Nat) (user : Str) : Except PyExn Str := do
  let data ← utf8 user
  return lit "erased-" ++ (hmacSha256 salt data).take 32

/-- `ErasureService.pseudonymize(user, timestamp, actor)`, with the salt that was drawn. -/
def World.pseudonymize (w : World) (service : Nat) (user : Str) (salt : List Nat)
    (timestamp : FloatModel.F) (actor : Str) : Except PyExn ErasureResult × World :=
  if isBlank user = true then (.error (contractError "erasure requires a user identity"), w)
  else if user ∈ w.erased service then (.error (contractError "user already erased"), w)
  else
    match pseudonymOf salt user with
    | .error x => (.error x, w)
    | .ok pseudonym =>
        let targets := (w.log.events.filter fun e => decide (e.actor = user)).map
          ObservationEvent.id
        match w.log.pseudonymize targets pseudonym with
        | .error x => (.error x, w)
        | .ok (count, log) =>
            match log.append (erasureReceipt pseudonym count timestamp actor) with
            | (.error x, log) => (.error x, { w with log := log })
            | (.ok receipt, log) =>
                (.ok ⟨user, pseudonym, count, receipt.chainHash, true⟩,
                  { w with
                    log := log
                    erased := Function.update w.erased service (user :: w.erased service)
                    issued := w.issued ++ [receipt.chainHash] })

/-- The calls. -/
inductive Call where
  | append (o : Observation)
  | activate (scope : HoldScope) (reason : Str) (timestamp : FloatModel.F) (actor : Str)
  | release (holdId : Nat) (timestamp : FloatModel.F) (actor : Str)
  | enforceRetention (policy : RetentionPolicy) (now : FloatModel.F) (passed : Bool) (actor : Str)
  | pseudonymize (service : Nat) (user : Str) (salt : List Nat) (timestamp : FloatModel.F)
      (actor : Str)

/-- The world after a call, also one that raises. -/
def World.step (w : World) : Call → World
  | .append o => { w with log := (w.log.append o).2 }
  | .activate scope reason timestamp actor => (w.activate scope reason timestamp actor).2
  | .release holdId timestamp actor => (w.release holdId timestamp actor).2
  | .enforceRetention policy now passed actor => (w.enforceRetention policy now passed actor).2
  | .pseudonymize service user salt timestamp actor =>
      (w.pseudonymize service user salt timestamp actor).2

/-- The world after a sequence of calls. -/
def World.run (w : World) (calls : List Call) : World := calls.foldl World.step w

/-! ## What a call does -/

/-- An event whose hash is that of its body after some hash. -/
def Archivable (e : ObservationEvent) : Prop := ∃ prev, chainOf prev e = .ok e.chainHash

/-- Retention moves the event to the archive. -/
def World.moves (w : World) (policy : RetentionPolicy) (now : FloatModel.F) (passed : Bool)
    (e : ObservationEvent) : Bool :=
  expired policy now e && !(passed && w.blocked e)

/-- The users that an erasure service takes. -/
def World.takes (w : World) (service : Nat) (user : Str) : Prop :=
  isBlank user = false ∧ user ∉ w.erased service

/-- The ids of the events of a user. -/
def World.targets (w : World) (user : Str) : List Nat :=
  (w.log.events.filter fun e => decide (e.actor = user)).map ObservationEvent.id

/-- The log and the archive when a call comes to its own event. -/
inductive Prepared (w : World) : Call → ObservationLog → List ArchiveRecord → Prop where
  | same (call : Call) : Prepared w call w.log w.records
  | swept {policy : RetentionPolicy} {now : FloatModel.F} {passed : Bool} {actor : Str}
      {records : List ArchiveRecord} (archived : List ObservationEvent)
      (clock : Clocks.ltInt now 0 = false)
      (moved : records.map ArchiveRecord.event =
        w.records.map ArchiveRecord.event ++ w.log.events.filter (w.moves policy now passed)) :
      Prepared w (.enforceRetention policy now passed actor)
        { w.log with
          events := w.log.events.filter fun e => !w.moves policy now passed e
          archived := archived } records
  | resealed {service count : Nat} {user pseudonym actor : Str} {salt : List Nat}
      {timestamp : FloatModel.F} {log : ObservationLog} (taken : w.takes service user)
      (name : pseudonymOf salt user = .ok pseudonym)
      (done : w.log.pseudonymize (w.targets user) pseudonym = .ok (count, log)) :
      Prepared w (.pseudonymize service user salt timestamp actor) log w.records

theorem linked_archivable {es : List ObservationEvent} :
    ∀ {prev : Str}, Linked prev es → ∀ e ∈ es, Archivable e := by
  induction es with
  | nil => exact fun _ e he => absurd he (List.not_mem_nil)
  | cons d es ih =>
      intro prev h e he
      rcases List.mem_cons.1 he with rfl | he
      · exact ⟨prev, h.2.1⟩
      · exact ih h.2.2 e he

omit [Clocks] in
theorem archiveDigest_of_archivable {e : ObservationEvent} (h : Archivable e) :
    ∃ d, archiveDigest e = .ok d := by
  obtain ⟨prev, h⟩ := h
  obtain ⟨text, ht, htext, hhash⟩ := chainOf_eq_ok h
  have henc : encodable (lit "residual.compliance.archive.v1" ++ lf :: text ++ lf :: e.chainHash) =
      true := by
    rw [encodable_iff] at htext hhash ⊢
    intro c hc
    simp only [List.mem_append, List.mem_cons] at hc
    rcases hc with (hc | rfl | hc) | rfl | hc
    · exact (encodable_iff _).1 (encodable_lit _) c hc
    · decide
    · exact htext c hc
    · decide
    · exact hhash c hc
  refine ⟨_, bind_eq_ok.2 ⟨text, ht, bind_eq_ok.2 ⟨_, utf8_of_encodable henc, rfl⟩⟩⟩

omit [Clocks] in
/-- The loop of `enforce_retention` archives what is expired and not blocked. -/
theorem sweep_eq (expired blocked : ObservationEvent → Bool) {es : List ObservationEvent}
    (h : ∀ e ∈ es, Archivable e) : ∀ s : Sweep, ∃ s' : Sweep,
      sweep expired blocked es s = (.ok (), s') ∧
        s'.records.map ArchiveRecord.event = s.records.map ArchiveRecord.event ++
          es.filter (fun e => expired e && !blocked e) ∧
        s'.archived = s.archived ++
          (es.filter fun e => expired e && !blocked e).map ObservationEvent.id := by
  induction es with
  | nil => exact fun s => ⟨s, rfl, by simp, by simp⟩
  | cons e es ih =>
      intro s
      have ih' := ih fun d hd => h d (List.mem_cons_of_mem _ hd)
      rw [sweep]
      cases hexp : expired e with
      | false => simpa [hexp] using ih' s
      | true =>
          cases hblk : blocked e with
          | true => simpa [hexp, hblk] using ih' { s with held := s.held ++ [e.id] }
          | false =>
              obtain ⟨d, hd⟩ := archiveDigest_of_archivable (h e List.mem_cons_self)
              obtain ⟨s', hs, hrec, harch⟩ := ih'
                { s with records := s.records ++ [⟨e, d⟩], archived := s.archived ++ [e.id] }
              refine ⟨s', ?_, ?_, ?_⟩
              · simpa [hd] using hs
              · simpa [hexp, hblk] using hrec
              · simpa [hexp, hblk] using harch

/-! ## Where the events are -/

/-- Every event can be archived, the ids in the log and in the archive are those that were appended,
and no id was appended twice. -/
structure Filed (log : ObservationLog) (records : List ArchiveRecord) : Prop where
  archivable : ∀ e ∈ log.events, Archivable e
  ids : (log.events.map ObservationEvent.id ++ records.map fun r => r.event.id).Perm log.appended
  nodup : log.appended.Nodup
  fresh : ∀ n ∈ log.appended, n < log.counter

omit [Clocks] in
theorem Filed.nodup_events {log : ObservationLog} {records : List ArchiveRecord}
    (h : Filed log records) : (log.events.map ObservationEvent.id).Nodup :=
  (List.nodup_append.1 (h.ids.nodup_iff.2 h.nodup)).1

omit [Clocks] in
theorem Filed.eq_of_id {log : ObservationLog} {records : List ArchiveRecord} (h : Filed log records)
    {d e : ObservationEvent} (hd : d ∈ log.events) (he : e ∈ log.events) (hid : d.id = e.id) :
    d = e :=
  List.inj_on_of_nodup_map h.nodup_events hd he hid

theorem filed_append {log log' : ObservationLog} {records : List ArchiveRecord} {o : Observation}
    {r : Except PyExn ObservationEvent} (h : log.append o = (r, log')) (hf : Filed log records) :
    Filed log' records := by
  cases r with
  | error x =>
      rw [append_error h]
      exact ⟨hf.archivable, hf.ids, hf.nodup, fun n hn => Nat.lt_succ_of_lt (hf.fresh n hn)⟩
  | ok event =>
      obtain ⟨⟨hash, hevent⟩, -, hchain, rfl⟩ := append_ok h
      have hid : event.id = log.counter := by rw [hevent]; rfl
      refine ⟨?_, ?_, ?_, ?_⟩
      · intro e he
        rcases List.mem_append.1 he with he | he
        · exact hf.archivable e he
        · rw [List.mem_singleton.1 he]
          exact ⟨_, hchain⟩
      · rw [List.map_append, List.map_singleton, hid, List.append_assoc]
        exact (List.Perm.append_left _ List.perm_append_comm).trans
          (by simpa using hf.ids.append_right [log.counter])
      · refine List.nodup_append.2 ⟨hf.nodup, List.nodup_singleton _, ?_⟩
        rintro n hn m hm rfl
        exact absurd (hf.fresh n hn) (by rw [List.mem_singleton.1 hm]; exact Nat.lt_irrefl _)
      · intro n hn
        rcases List.mem_append.1 hn with hn | hn
        · exact Nat.lt_succ_of_lt (hf.fresh n hn)
        · rw [List.mem_singleton.1 hn]
          exact Nat.lt_succ_self _

theorem filed_prepared {w : World} {call : Call} {log : ObservationLog}
    {records : List ArchiveRecord} (h : Prepared w call log records) (hf : Filed w.log w.records) :
    Filed log records := by
  cases h with
  | same => exact hf
  | @swept policy now passed actor records archived clock moved =>
      refine ⟨fun e he => hf.archivable e (List.mem_filter.1 he).1, ?_, hf.nodup, hf.fresh⟩
      have hrec : (records.map fun r => r.event.id) = (w.records.map fun r => r.event.id) ++
          (w.log.events.filter (w.moves policy now passed)).map ObservationEvent.id := by
        simpa [Function.comp_def] using congrArg (List.map ObservationEvent.id) moved
      rw [hrec]
      -- what is kept and what is moved make up the log
      have hsplit : ((w.log.events.filter fun e => !w.moves policy now passed e) ++
          w.log.events.filter (w.moves policy now passed)).Perm w.log.events :=
        List.perm_append_comm.trans (List.filter_append_perm _ _)
      refine List.Perm.trans ?_ hf.ids
      refine (List.Perm.append_left _ List.perm_append_comm).trans ?_
      rw [← List.append_assoc, ← List.map_append]
      exact (hsplit.map _).append_right _
  | resealed taken name done =>
      obtain ⟨fs, hfs, h⟩ := bind_eq_ok.1 done
      cases h
      refine ⟨linked_archivable (reseal_linked hfs), ?_, hf.nodup, hf.fresh⟩
      rw [reseal_ids hfs]
      exact hf.ids

/-- The event of a call itself: none, one that is refused, or one whose hash may be handed out. -/
inductive Closed (w w' : World) (log : ObservationLog) : Prop where
  | silent (hlog : w'.log = log) (hissued : w'.issued = w.issued)
  | refused (o : Observation) (x : PyExn) (hlog : log.append o = (.error x, w'.log))
      (hissued : w'.issued = w.issued)
  | appended (o : Observation) (event : ObservationEvent)
      (hlog : log.append o = (.ok event, w'.log))
      (hissued : ∀ r ∈ w'.issued, r ∈ w.issued ∨ r = event.chainHash)

theorem enforceRetention_step {w : World} (hf : Filed w.log w.records) (policy : RetentionPolicy)
    (now : FloatModel.F) (passed : Bool) (actor : Str) :
    ∃ log, Prepared w (.enforceRetention policy now passed actor) log
        (w.enforceRetention policy now passed actor).2.records ∧
      Closed w (w.enforceRetention policy now passed actor).2 log := by
  rw [World.enforceRetention]
  by_cases hclock : Clocks.ltInt now 0 = true
  · rw [if_pos hclock]
    exact ⟨w.log, .same _, .silent rfl rfl⟩
  rw [if_neg hclock]
  obtain ⟨s, hs, hrec, harch⟩ := sweep_eq (expired policy now)
    (fun e => passed && w.blocked e) hf.archivable ⟨w.records, [], []⟩
  rw [hs]
  simp only
  -- the ids that are removed are those of the events that were archived
  have hkept : (w.log.events.filter fun e => decide (e.id ∉ s.archived)) =
      w.log.events.filter fun e => !w.moves policy now passed e := by
    refine List.filter_congr fun e he => ?_
    rw [harch, List.nil_append, decide_not]
    congr 1
    rw [Bool.eq_iff_iff, decide_eq_true_eq, List.mem_map]
    constructor
    · rintro ⟨d, hd, hid⟩
      obtain ⟨hd, hmoves⟩ := List.mem_filter.1 hd
      rw [hf.eq_of_id hd he hid] at hmoves
      exact hmoves
    · exact fun hmoves => ⟨e, List.mem_filter.2 ⟨he, hmoves⟩, rfl⟩
  have hprep (archived : List ObservationEvent) : Prepared w (.enforceRetention policy now passed actor)
      { w.log with
        events := w.log.events.filter fun e => !w.moves policy now passed e
        archived := archived } s.records := .swept archived (by simpa using hclock) hrec
  rw [← hkept] at hprep
  split
  · rename_i x log heq
    exact ⟨_, hprep _, .refused _ x heq rfl⟩
  · rename_i event log heq
    refine ⟨_, hprep _, .appended _ event heq ?_⟩
    intro r hr
    simpa using hr

theorem pseudonymize_step (w : World) (service : Nat) (user : Str) (salt : List Nat)
    (timestamp : FloatModel.F) (actor : Str) :
    ∃ log, Prepared w (.pseudonymize service user salt timestamp actor) log
        (w.pseudonymize service user salt timestamp actor).2.records ∧
      Closed w (w.pseudonymize service user salt timestamp actor).2 log := by
  rw [World.pseudonymize]
  have hsame : ∃ log, Prepared w (.pseudonymize service user salt timestamp actor) log w.records ∧
      Closed w w log := ⟨w.log, .same _, .silent rfl rfl⟩
  split
  · exact hsame
  split
  · exact hsame
  rename_i hblank herased
  split
  · exact hsame
  rename_i pseudonym hname
  simp only
  split
  · exact hsame
  rename_i count log hlog
  have hprep : Prepared w (.pseudonymize service user salt timestamp actor) log w.records :=
    .resealed ⟨by simpa using hblank, herased⟩ hname hlog
  split
  · rename_i x log' heq
    exact ⟨log, hprep, .refused _ x heq rfl⟩
  · rename_i event log' heq
    refine ⟨log, hprep, .appended _ event heq ?_⟩
    intro r hr
    simpa using hr

/-- All that a call does to the log, the archive and the receipts. -/
theorem step_cases {w : World} (hf : Filed w.log w.records) (call : Call) :
    ∃ log, Prepared w call log (w.step call).records ∧ Closed w (w.step call) log := by
  cases call with
  | append o =>
      refine ⟨w.log, .same _, ?_⟩
      cases h : w.log.append o with
      | mk r log =>
          have hstep : w.step (.append o) = { w with log := log } := by rw [World.step, h]
          rw [hstep]
          cases r with
          | error x => exact .refused o x h rfl
          | ok event => exact .appended o event h fun r hr => .inl hr
  | activate scope reason timestamp actor =>
      rw [World.step, World.activate]
      split
      · exact ⟨w.log, .same _, .silent rfl rfl⟩
      split
      · rename_i x log heq
        exact ⟨w.log, .same _, .refused _ x heq rfl⟩
      · rename_i event log heq
        refine ⟨w.log, .same _, .appended _ event heq ?_⟩
        intro r hr
        simpa using hr
  | release holdId timestamp actor =>
      rw [World.step, World.release]
      split
      · exact ⟨w.log, .same _, .silent rfl rfl⟩
      split
      · exact ⟨w.log, .same _, .silent rfl rfl⟩
      split
      · rename_i x log heq
        exact ⟨w.log, .same _, .refused _ x heq rfl⟩
      · rename_i event log heq
        refine ⟨w.log, .same _, .appended _ event heq ?_⟩
        intro r hr
        simpa using hr
  | enforceRetention policy now passed actor =>
      exact enforceRetention_step hf policy now passed actor
  | pseudonymize service user salt timestamp actor =>
      exact pseudonymize_step w service user salt timestamp actor

theorem filed_empty : Filed World.empty.log World.empty.records :=
  ⟨nofun, .nil, .nil, nofun⟩

theorem step_filed {w : World} (hf : Filed w.log w.records) (call : Call) :
    Filed (w.step call).log (w.step call).records := by
  obtain ⟨log, hprep, hclosed⟩ := step_cases hf call
  have hf' := filed_prepared hprep hf
  cases hclosed with
  | silent hlog _ =>
      rw [hlog]
      exact hf'
  | refused o x hlog _ => exact filed_append hlog hf'
  | appended o event hlog _ => exact filed_append hlog hf'

end ResidualHarness.Compliance
