import ResidualHarness.Engine.Invariants
import ResidualHarness.Engine.Run

/-!
# The parts of a run

One lemma for each program of the harness: its writes are steps, and what holds where it returns. A
part that only moves clocks, counters and events leaves the state aside of it (`Aside`); the others
start and end at rest (`Rest`): no station receipt is ahead of its value, and every request has been
handed to its provider.
-/

set_option autoImplicit false

namespace ResidualHarness.Engine

open Python Core

variable [FloatModel] {ω : Type} {h : Setup ω} {s t u : State ω} {α : Type} {n : Str}
  {ids ready : List Str} {role : Role} {p : Provider ω} {size : Int} {packet : Json}

/-! ## Rules -/

variable (h) in
/-- The writes of the program are steps, and `post` holds where it returns. -/
abbrev Setup.Safe (m : Run ω α) (s : State ω) (post : α → State ω → Prop) : Prop :=
  Runs h.Step m s post fun _ _ => True

/-- Only clocks, counters, the cache, answers and events differ. -/
structure Aside (s t : State ω) : Prop extends Kept s t where
  failures : t.failures = s.failures

/-- No station receipt is ahead of its value, and every request has been handed over. -/
structure Rest (s : State ω) : Prop where
  stations : s.stationReceipts.keys ⊆ s.accepted.keys
  handed : s.handed = packets s.requests

theorem Aside.refl (s : State ω) : Aside s s := ⟨.refl s, rfl⟩

theorem aside_frame (he : (t.accepted, t.receipts, t.stationReceipts, t.requests, t.remoteBytes,
      t.expertCalls, t.handed, t.failures) = (s.accepted, s.receipts, s.stationReceipts, s.requests,
      s.remoteBytes, s.expertCalls, s.handed, s.failures)) : Aside s t := by
  simp only [Prod.mk.injEq] at he
  obtain ⟨h1, h2, h3, h4, h5, h6, h7, h8⟩ := he
  exact ⟨⟨h1, h2, h3, h4, h5, h6, h7⟩, h8⟩

theorem aside_world (s : State ω) (w : ω) : Aside s { s with world := w } := aside_frame rfl

theorem Aside.trans (h₁ : Aside s t) (h₂ : Aside t u) : Aside s u :=
  ⟨h₁.toKept.trans h₂.toKept, h₂.failures.trans h₁.failures⟩

theorem Setup.Open.kept (ho : h.Open s ids) (hk : Kept s t) : h.Open t ids := by
  rw [Setup.Open, hk.accepted]
  exact ho

theorem Rest.kept (hr : Rest s) (hk : Kept s t) : Rest t :=
  ⟨by rw [hk.stationReceipts, hk.accepted]; exact hr.stations,
    by rw [hk.handed, hk.requests]; exact hr.handed⟩

/-- More has been accepted, in a run from the one state to the other. -/
theorem accepted_mono (hr : Relation.ReflTransGen h.Step s t) : s.accepted.keys ⊆ t.accepted.keys :=
  (reach_relation Later.refl (fun _ _ _ => Later.trans) (fun _ _ => Setup.Step.later) hr).keys

theorem safe_read {f : State ω → Run ω α} {post : α → State ω → Prop} (hf : h.Safe (f s) s post) :
    h.Safe (Prog.read >>= f) s post :=
  runs_bind (runs_read hf)

/-- An expression that may raise, and then a part that uses its value. -/
theorem safe_eval {β : Type} {x : Except PyExn α} {f : α → Run ω β} {post : β → State ω → Prop}
    (hf : ∀ a, x = .ok a → h.Safe (f a) s post) : h.Safe (Prog.eval x >>= f) s post :=
  runs_bind (runs_eval hf fun _ _ => trivial)

theorem safe_write {f : State ω → State ω} {post : Unit → State ω → Prop} (ha : Aside s (f s))
    (hpost : post () (f s)) : h.Safe (Prog.write f) s post :=
  runs_write (.aside ha.toKept ha.failures) hpost

theorem Setup.Safe.imp {m : Run ω α} {post post' : α → State ω → Prop} (hm : h.Safe m s post)
    (hpost : ∀ a t, post a t → post' a t) : h.Safe m s post' :=
  hm.conseq (fun a t _ => hpost a t) fun _ _ _ _ => trivial

/-- A part that leaves the state aside, and then another one. -/
theorem safe_aside {β : Type} {m : Run ω α} {f : α → Run ω β} {post : β → State ω → Prop}
    (hm : h.Safe m s fun _ t => Aside s t) (hf : ∀ a t, Aside s t → h.Safe (f a) t post) :
    h.Safe (m >>= f) s post :=
  runs_bind_reach hm fun a t _ => hf a t

/-! ## Clocks, events and failures -/

theorem monotonic_safe : h.Safe h.monotonic s fun _ t => Aside s t := by
  apply safe_read
  apply runs_bind
  exact safe_write (aside_world s _) (runs_pure (aside_world s _))

theorem addEvent_safe (kind : String) (data : Fields) :
    h.Safe (h.addEvent kind data) s fun _ t => Aside s t := by
  apply safe_read
  apply runs_bind
  refine safe_write (aside_world s _) (safe_eval fun l _ => ?_)
  have hledger : Aside { s with world := (h.env.timeNs s.world).2 }
      { s with world := (h.env.timeNs s.world).2, ledger := l } := aside_frame rfl
  exact safe_write hledger ((aside_world s _).trans hledger)

theorem failure_safe {code message : Str} (ha : n ∉ s.accepted.keys) :
    h.Safe (h.failure n code message) s fun _ t => Kept s t := by
  apply runs_bind
  apply runs_write
  · refine .fail _ fun m hm => ?_
    rcases Dict.mem_keys_set.1 hm with rfl | hm
    · exact Or.inr ha
    · exact Or.inl hm
  · have hk : Kept s { s with failures := s.failures.set n ⟨code, message⟩ } :=
      ⟨rfl, rfl, rfl, rfl, rfl, rfl, rfl⟩
    exact (addEvent_safe _ _).imp fun _ _ ha => hk.trans ha.toKept

theorem failEach_safe {code message : Str} (hr : Rest s) (ho : h.Open s ids) :
    h.Safe (Prog.each ids fun n => h.failure n code message) s fun _ t => Rest t ∧ Kept s t := by
  apply runs_each (I := fun _ t => Rest t ∧ Kept s t) ⟨hr, .refl s⟩
  rintro pre n rest t rfl - ⟨ht, hk⟩
  refine (failure_safe ((ho.kept hk) n (by simp)).1).imp fun _ _ hk' => ⟨ht.kept hk', hk.trans hk'⟩

/-! ## Acceptance -/

theorem lookup_byId {o : Obligation} (hb : h.byId n = .ok o) : h.task.byId n = some o := by
  rw [Setup.byId] at hb
  split at hb
  · next ho =>
    cases hb
    exact ho
  · cases hb

theorem checkArguments_ok {value : Value} {parsed : Json} {check : Check ω}
    {context : Context} (hc : h.checkArguments s n value = .ok (parsed, check, context)) :
    ∃ o label, h.task.byId n = some o ∧ h.registry.checks.get? o.check = some (label, check) ∧
      context = ⟨o, h.task.artifacts, s.accepted⟩ := by
  obtain ⟨original, -, hc⟩ := bind_eq_ok.1 hc
  obtain ⟨o, ho, hc⟩ := bind_eq_ok.1 hc
  obtain ⟨⟨label, check'⟩, hcheck, hc⟩ := bind_eq_ok.1 hc
  obtain ⟨parsed', -, hc⟩ := bind_eq_ok.1 hc
  obtain ⟨context', hcontext, hc⟩ := bind_eq_ok.1 hc
  cases hc
  obtain ⟨o', ho', hcontext⟩ := bind_eq_ok.1 hcontext
  cases hcontext
  cases ho.symm.trans ho'
  exact ⟨o, label, lookup_byId ho, lookupKey_eq_ok.1 hcheck, rfl⟩

/-- A verdict that passes is that of the check of the obligation. -/
theorem judge_safe {value : Value} : h.Safe (h.judge n value) s fun r t =>
    Aside s t ∧ (r.1.status = .pass → h.Passed s.accepted n r.2) := by
  apply safe_read
  cases hargs : h.checkArguments s n value with
  | error e => exact runs_pure ⟨.refl s, nofun⟩
  | ok args =>
      obtain ⟨parsed, check, context⟩ := args
      obtain ⟨o, label, ho, hcheck, rfl⟩ := checkArguments_ok hargs
      apply runs_bind
      refine safe_write (aside_world s _) ?_
      cases hres : (check s.world parsed (Context.view ⟨o, h.task.artifacts, s.accepted⟩)).1 with
      | other => exact runs_pure ⟨aside_world s _, nofun⟩
      | raised => exact runs_pure ⟨aside_world s _, nofun⟩
      | verdict v =>
          exact runs_pure ⟨aside_world s _, fun hpass => ⟨o, label, check, _, v, ho, hcheck, hres, hpass⟩⟩

theorem keepCached_safe {value : Json} {modern : Option StationReceipt} {source : Source} :
    h.Safe (h.keepCached n value modern source) s fun _ t => Aside s t := by
  apply safe_read
  cases hc : s.cache with
  | none => exact runs_pure (.refl s)
  | some rows =>
      have hput : h.Safe (do
          let key ← Prog.eval (h.cacheKeyOf s n)
          let entry ← Prog.eval (cacheEntry value modern)
          let rows ← Prog.eval (rows.put key entry)
          Prog.write fun s => { s with cache := some rows }) s fun _ t => Aside s t := by
        refine safe_eval fun key _ => safe_eval fun entry _ =>
          safe_eval fun rows _ => ?_
        have ha : Aside s { s with cache := some rows } := aside_frame rfl
        exact safe_write ha ha
      cases source with
      | cache => exact runs_pure (.refl s)
      | deterministic => exact hput
      | role r => exact hput

theorem reportStation_safe {modern : Option StationReceipt} :
    h.Safe (h.reportStation n modern) s fun _ t => Aside s t := by
  cases modern with
  | none => exact runs_pure (.refl s)
  | some r => exact safe_eval fun wire _ => addEvent_safe _ _

/-- A station receipt that is kept is the first of its obligation, and one for the value. -/
theorem keepStation_safe {v : Json} {modern : Option StationReceipt} (hr : Rest s)
    (ha : n ∉ s.accepted.keys) (hready : h.Ready s.accepted n)
    (hm : h.stationReceipt s n v = .ok modern) :
    h.Safe (keepStation n modern) s fun _ t => t.accepted = s.accepted ∧
      (∀ m ∈ t.stationReceipts.keys, m = n ∨ m ∈ s.accepted.keys) ∧ Certified t n v ∧
      t.handed = packets t.requests := by
  have hout : n ∉ s.stationReceipts.keys := fun hn => ha (hr.stations hn)
  cases modern with
  | none =>
      refine runs_pure ⟨rfl, fun m hm => Or.inr (hr.stations hm), ?_, hr.handed⟩
      exact fun r hr' => absurd (Dict.mem_keys_of_get? hr') hout
  | some r =>
      refine runs_write (.station n v r ha hout hready hm) ⟨rfl, ?_, ?_, hr.handed⟩
      · exact fun m hmem => (Dict.mem_keys_set.1 hmem).imp id fun hmem => hr.stations hmem
      · intro q hq
        rw [Dict.get?_set, if_pos rfl] at hq
        cases hq
        exact (stationReceipt_eq_ok hm).2.1

/-- At most the obligation has been accepted, and none if the result is `false`. -/
structure Tried (n : Str) (s : State ω) (ok : Bool) (t : State ω) : Prop where
  rest : Rest t
  added : ∀ m ∈ t.accepted.keys, m ∈ s.accepted.keys ∨ m = n
  refused : ok = false → t.accepted = s.accepted

theorem Tried.of_kept {ok : Bool} (hr : Rest s) (hk : Kept s t) : Tried n s ok t :=
  ⟨hr.kept hk, fun m hm => Or.inl (by rwa [hk.accepted] at hm), fun _ => hk.accepted⟩

theorem Tried.kept {ok : Bool} (ht : Tried n s ok t) (hk : Kept t u) : Tried n s ok u :=
  ⟨ht.rest.kept hk, fun m hm => ht.added m (by rwa [hk.accepted] at hm),
    fun hok => hk.accepted.trans (ht.refused hok)⟩

/-- The same from a state in which the same had been accepted. -/
theorem Tried.of_same {ok : Bool} (ht : Tried n s ok t) (hs : s.accepted = u.accepted) :
    Tried n u true t :=
  ⟨ht.rest, by rw [← hs]; exact ht.added, nofun⟩

theorem record_safe {v : Json} {source : Source} (hr : Rest s) (ha : n ∉ s.accepted.keys)
    (hready : h.Ready s.accepted n) (hp : h.Passed s.accepted n v) :
    h.Safe (h.record n v source) s fun _ t => Tried n s true t := by
  apply safe_read
  refine safe_eval fun modern hmodern => ?_
  refine runs_bind_reach (keepStation_safe hr ha hready hmodern) fun _ u _ hu => ?_
  obtain ⟨hacc, hstations, hcert, hhanded⟩ := hu
  -- the value is entered after its station receipt; a receipt that fails here leaves that one behind
  apply safe_read
  refine safe_eval fun receipt hreceipt => runs_bind ?_
  rw [← hacc] at ha hready hp hstations
  refine runs_write (.accept n v receipt ha hready hp hcert hreceipt) ?_
  refine safe_aside keepCached_safe fun _ t ht => safe_aside (addEvent_safe _ _) fun _ t' ht' => ?_
  have hdone : Tried n s true { u with
      accepted := u.accepted.set n v
      receipts := u.receipts.set n receipt
      failures := u.failures.pop n } := by
    refine ⟨⟨fun m hm => Dict.mem_keys_set.2 (hstations m hm), hhanded⟩, fun m hm => ?_, nofun⟩
    rw [← hacc]
    exact (Dict.mem_keys_set.1 hm).symm
  exact reportStation_safe.imp fun _ _ ht'' => hdone.kept ((ht.trans ht').trans ht'').toKept

theorem accept_safe {value : Value} {source : Source} (hr : Rest s)
    (hready : h.Ready s.accepted n) :
    h.Safe (h.accept n value source) s fun ok t => Tried n s ok t := by
  apply safe_read
  by_cases ha : n ∈ s.accepted.keys
  · rw [if_pos ha]
    exact runs_raise trivial
  rw [if_neg ha]
  refine safe_aside monotonic_safe fun started t₁ h₁ => runs_bind_reach judge_safe fun r t₂ _ h₂ => ?_
  obtain ⟨verdict, parsed⟩ := r
  obtain ⟨h₂, hpass⟩ := h₂
  refine safe_aside monotonic_safe fun ended t₃ h₃ => runs_bind ?_
  have h₄ : Aside t₃ { t₃ with
      verificationMs := h.env.addMs t₃.verificationMs (h.env.elapsedMs started ended) } := aside_frame rfl
  refine safe_write h₄ (safe_aside (addEvent_safe _ _) fun _ t₅ h₅ => ?_)
  have hall := (((h₁.trans h₂).trans h₃).trans h₄).trans h₅
  rw [← hall.accepted] at ha hready
  split
  · refine runs_bind_reach (failure_safe ha) fun _ t₆ _ h₆ => ?_
    exact runs_pure (.of_kept hr (hall.toKept.trans h₆))
  · next hstatus =>
    have hp := hpass (not_not.1 hstatus)
    rw [h₁.accepted, ← hall.accepted] at hp
    refine runs_bind_reach (record_safe (hr.kept hall.toKept) ha hready hp) fun _ _ _ ht =>
      runs_pure ⟨ht.rest, ?_, nofun⟩
    rw [← hall.accepted]
    exact ht.added

/-! ## Requests for evidence -/

theorem requestEvidence_safe {r : EvidenceRequest} (hr : Rest s) :
    h.Safe (h.requestEvidence p r) s fun _ t => Rest t := by
  apply safe_read
  by_cases ha : r.obligationId ∈ s.accepted.keys
  · rw [if_pos ha]
    exact runs_pure hr
  rw [if_neg ha]
  refine safe_eval fun decision _ => ?_
  cases decision with
  | inl code =>
      refine runs_bind_reach (failure_safe ha) fun _ t _ ht => ?_
      exact (addEvent_safe _ _).imp fun _ _ ha' => hr.kept (ht.trans ha'.toKept)
  | inr ws =>
      apply runs_bind
      have hside : Aside s { s with
          windows := s.windows.set (p.name, r.obligationId, r.artifactId) ws } := aside_frame rfl
      refine safe_write hside (safe_eval fun sha _ => ?_)
      exact (addEvent_safe _ _).imp fun _ _ ha' => hr.kept (hside.trans ha').toKept

/-! ## Calls -/

/-- An answer does not change what was asked. -/
theorem update_safe {f : Call → Call} (hf : ∀ c, (f c).request = c.request) :
    h.Safe (Prog.write fun s => { s with calls := updateLast f s.calls }) s fun _ t => Aside s t := by
  have hrequests : (updateLast f s.calls).map Call.request = s.calls.map Call.request := by
    rcases List.eq_nil_or_concat s.calls with hc | ⟨cs, c, hc⟩
    · rw [hc]
      rfl
    · rw [hc, List.concat_eq_append, updateLast, List.dropLast_concat, List.getLast?_concat,
        List.map_append, List.map_append]
      simp [hf]
  have ha : Aside s { s with calls := updateLast f s.calls } :=
    ⟨⟨rfl, rfl, rfl, hrequests, rfl, rfl, rfl⟩, rfl⟩
  exact safe_write ha ha

theorem callFailed_safe {started : FloatModel.F} {code : Str}
    (hr : Rest s) (ho : h.Open s ids) :
    h.Safe (h.callFailed role ids started code) s fun _ t => Rest t := by
  refine safe_aside monotonic_safe fun ended t₁ h₁ => safe_aside (update_safe ?_) fun _ t₂ h₂ => ?_
  · exact fun _ => rfl
  refine safe_aside (addEvent_safe _ _) fun _ t₃ h₃ => ?_
  have hk := ((h₁.trans h₂).trans h₃).toKept
  exact (failEach_safe (hr.kept hk) (ho.kept hk)).imp fun _ _ ht => ht.1

theorem callCompleted_safe {r : Reply} :
    h.Safe (h.callCompleted p role r) s fun _ t => Aside s t := by
  refine safe_aside (update_safe ?_) fun _ t₁ h₁ => safe_eval fun cost _ => ?_
  · exact fun _ => rfl
  refine safe_aside (update_safe ?_) fun _ t₂ h₂ => safe_eval fun sha _ => ?_
  · exact fun _ => rfl
  refine safe_eval fun elapsed _ => safe_eval fun finish _ => ?_
  exact (addEvent_safe _ _).imp fun _ _ ha => (h₁.trans h₂).trans ha

/-- A reply updates obligations of the call only. -/
theorem parseReply_ok {text : Value} {data : ReplyData}
    (hp : parseReply text ids = .ok data) : ∀ u ∈ data.updates, u.1 ∈ ids := by
  rw [parseReply.eq_def] at hp
  split at hp
  · obtain ⟨_, -, hp⟩ := bind_eq_ok.1 hp
    obtain ⟨_, -, hp⟩ := bind_eq_ok.1 hp
    obtain ⟨v, -, hp⟩ := bind_eq_ok.1 hp
    split at hp
    · obtain ⟨_, -, hp⟩ := bind_eq_ok.1 hp
      obtain ⟨updates, -, hp⟩ := bind_eq_ok.1 hp
      obtain ⟨requests, -, hp⟩ := bind_eq_ok.1 hp
      split at hp
      · obtain ⟨_, hscope, hp⟩ := bind_eq_ok.1 hp
        obtain ⟨rs, -, hp⟩ := bind_eq_ok.1 hp
        obtain ⟨_, -, hp⟩ := bind_eq_ok.1 hp
        cases hp
        exact (require_eq_ok.1 hscope).1
      · cases hp
    · cases hp
  · cases hp

theorem readReply_ok {r : Reply} {data : ReplyData}
    (hp : readReply r ids = .ok data) : parseReply r.text ids = .ok data := by
  rw [readReply] at hp
  split at hp
  · split at hp
    · cases hp
    · split at hp
      · cases hp
      · exact hp
  · exact hp

theorem applyReply_safe {data : ReplyData}
    (hr : Rest s) (ho : h.Open s ids) (hu : ∀ u ∈ data.updates, u.1 ∈ ids) :
    h.Safe (h.applyReply p role ids data) s fun _ t => Rest t := by
  have hupdates : h.Safe (Prog.each data.updates fun u => do
      let _ ← h.accept u.1 (.json u.2) (.role role)) s fun _ t => Rest t := by
    apply runs_each (I := fun _ t => Rest t) hr
    intro pre u rest t hsplit hreach ht
    have hready := (ho u.1 (hu u (by rw [hsplit]; simp))).2.mono (accepted_mono hreach)
    exact runs_bind_reach (accept_safe ht hready) fun _ _ _ htried => runs_pure htried.rest
  by_cases hnone : data.updates = [] ∧ data.requests = []
  · rw [Setup.applyReply, if_pos hnone, hnone.1, hnone.2]
    refine runs_bind (runs_pure (runs_bind (runs_pure ?_)))
    exact runs_bind_reach (failEach_safe hr ho) fun _ _ _ ht => runs_pure ht.1
  · rw [Setup.applyReply, if_neg hnone]
    refine runs_bind_reach hupdates fun _ t _ ht => ?_
    have hrequests : h.Safe (Prog.each data.requests (h.requestEvidence p)) t fun _ t => Rest t :=
      runs_each (I := fun _ t => Rest t) ht fun _ _ _ _ _ _ ht => requestEvidence_safe ht
    exact runs_bind_reach hrequests fun _ _ _ ht => runs_pure ht

theorem handleReply_safe {r : Reply} (hr : Rest s)
    (ho : h.Open s ids) : h.Safe (h.handleReply p role ids r) s fun _ t => Rest t := by
  refine safe_aside callCompleted_safe fun _ t ht => ?_
  have hrest := hr.kept ht.toKept
  have ho' := ho.kept ht.toKept
  cases hread : readReply r ids with
  | ok data => exact applyReply_safe hrest ho' (parseReply_ok (readReply_ok hread))
  | error e =>
      show h.Safe (if isReplyError e then _ else _) t _
      split
      · exact runs_bind_reach (failEach_safe hrest ho') fun _ _ _ hf => runs_pure hf.1
      · exact runs_raise trivial

/-- After a reservation the new request is the only one that has not been handed over. -/
theorem reserve_safe
    (hm : ∀ sha, digest packet = .ok sha →
      h.MayReserve s (reservedCall p role ids size packet sha).request p) :
    h.Safe (h.reserve p role ids size packet) s fun _ t => t.accepted = s.accepted ∧
      t.stationReceipts = s.stationReceipts ∧ t.handed = packets s.requests ∧
      ∃ r, t.requests = s.requests ++ [r] ∧ r.placement = p.placement ∧ r.packet = packet := by
  refine safe_eval fun sha hsha => runs_bind ?_
  have hmay := hm sha hsha
  refine runs_write (.reserve (reservedCall p role ids size packet sha) p hmay) ?_
  refine (addEvent_safe _ _).imp fun _ t ha => ?_
  exact ⟨ha.accepted, ha.stationReceipts, ha.handed.trans hmay.handed, _,
    ha.requests.trans (requests_reserved _), rfl, rfl⟩

theorem generate_safe {rs : List Request} {r : Request}
    (hrs : s.requests = rs ++ [r]) (hh : s.handed = packets rs) (hp : r.placement = p.placement)
    (hpacket : r.packet = packet) (hst : s.stationReceipts.keys ⊆ s.accepted.keys) :
    h.Safe (h.generate p packet) s fun _ t => Rest t ∧ t.accepted = s.accepted := by
  apply safe_read
  apply runs_bind
  rw [← hp, ← hpacket]
  refine runs_write (.hand _ rs r hrs hh) (runs_pure ⟨⟨hst, ?_⟩, rfl⟩)
  show s.handed ++ [(r.placement, r.packet)] = packets s.requests
  rw [hh, hrs, packets, packets, List.map_append]
  rfl

theorem call_safe
    (hr : Rest s) (ho : h.Open s ids) (hm : ∀ sha, digest packet = .ok sha →
      h.MayReserve s (reservedCall p role ids size packet sha).request p) :
    h.Safe (h.call p role ids size packet) s fun _ t => Rest t := by
  refine runs_bind_reach (reserve_safe hm) fun _ t₁ _ ht₁ => ?_
  obtain ⟨hacc, hstations, hhanded, r, hrs, hplacement, hpacket⟩ := ht₁
  refine safe_aside monotonic_safe fun started t₂ ht₂ => ?_
  refine runs_bind_reach (generate_safe (ht₂.requests.trans hrs) (ht₂.handed.trans hhanded) hplacement
    hpacket ?_) fun answer t₃ _ ht₃ => ?_
  · rw [ht₂.stationReceipts, ht₂.accepted, hstations, hacc]
    exact hr.stations
  obtain ⟨hrest, hacc₃⟩ := ht₃
  -- nothing has been accepted since the obligations were chosen
  have ho₃ : h.Open t₃ ids := by
    rw [Setup.Open, hacc₃, ht₂.accepted, hacc]
    exact ho
  have hfailed : ∀ code, h.Safe (do
      h.callFailed role ids started code
      return true) t₃ fun _ t => Rest t := fun code =>
    runs_bind_reach (callFailed_safe hrest ho₃) fun _ _ _ ht => runs_pure ht
  cases answer with
  | reply r => exact handleReply_safe hrest ho₃
  | other => exact hfailed _
  | providerError text => exact hfailed _
  | raised => exact hfailed _

/-! ## Packets -/

theorem artifact_of_ok {a : Str} {x : Artifact} (hx : h.artifact a = .ok x) :
    h.task.artifact a = some x := by
  rw [Setup.artifact] at hx
  split at hx
  · next heq =>
    cases hx
    exact heq
  · cases hx

theorem cloud_of_allowed (hn : h.task.cloudAllowed n = true) :
    ∃ o, h.task.byId n = some o ∧ ∀ a ∈ o.evidence, (h.task.artifact a).any Artifact.cloud = true := by
  rw [Task.cloudAllowed] at hn
  cases hlen : h.task.obligations.length with
  | zero =>
      rw [hlen] at hn
      cases hn
  | succ k =>
      rw [hlen, Task.cloudAllowedFrom] at hn
      cases ho : h.task.byId n with
      | none =>
          rw [ho] at hn
          cases hn
      | some o =>
          simp only [ho, Bool.and_eq_true, List.all_eq_true] at hn
          exact ⟨o, rfl, hn.1.2⟩

/-- An excerpt of an artifact that may be sent. -/
theorem excerpt_cloud {a : Str} {x : Artifact} {start stop : Int} {e : Json}
    (ha : (h.task.artifact a).any Artifact.cloud = true) (hx : h.artifact a = .ok x)
    (he : x.excerpt start stop = .ok e) : ∃ a x start stop, h.task.artifact a = some x ∧
      x.cloud = true ∧ x.excerpt start stop = .ok e := by
  have hx' := artifact_of_ok hx
  rw [hx'] at ha
  exact ⟨a, x, start, stop, hx', ha, he⟩

/-- A packet for a remote provider may leave the host, whichever evidence it takes: the complete
evidence is that of obligations whose evidence may all be sent. -/
theorem packet_mayLeave {os : List Obligation}
    {plan : ContextPlan} (hp : h.packet s p os role = .ok (packet, plan))
    (hremote : p.placement = .remote)
    (hos : ∀ o ∈ os, h.task.byId o.id = some o ∧ h.task.cloudAllowed o.id = true) :
    h.MayLeave packet := by
  obtain ⟨manifest, hmanifest, hp⟩ := bind_eq_ok.1 hp
  obtain ⟨excerpts, hexcerpts, hp⟩ := bind_eq_ok.1 hp
  obtain ⟨fields, hfields, hp⟩ := bind_eq_ok.1 hp
  obtain ⟨deps, hdeps, hfields⟩ := bind_eq_ok.1 hfields
  obtain ⟨entries, hentries, hfields⟩ := bind_eq_ok.1 hfields
  have hf := Except.ok.inj hfields
  have hcloud : ∀ a ∈ h.packetArtifacts p.placement os role,
      (h.task.artifact a).any Artifact.cloud = true := by
    intro a ha
    have hmem := (List.mem_filter.1 (mem_sortedSet.1 ha)).2
    simpa [hremote] using hmem
  -- with any evidence that may be sent the packet may leave
  have hwith : ∀ evidence, (∀ e ∈ evidence, ∃ a x start stop, h.task.artifact a = some x ∧
      x.cloud = true ∧ x.excerpt start stop = .ok e) →
      h.MayLeave (packetWith fields evidence h.requestLimits) := by
    intro evidence he
    refine ⟨_, _, _, _, _, congrArg (packetWith · evidence h.requestLimits) hf.symm, ?_, ?_, ?_, ?_, he⟩
    · intro e hmem
      obtain ⟨o, ho, heo⟩ := of_mem_mapE hentries hmem
      exact ⟨o, (hos o ho).2, heo⟩
    · intro d hmem
      obtain ⟨k, hk, hd⟩ := of_mem_mapE hdeps hmem
      obtain ⟨value, -, hd⟩ := bind_eq_ok.1 hd
      obtain ⟨receipt, -, hd⟩ := bind_eq_ok.1 hd
      cases hd
      simpa [hremote] using (List.mem_filter.1 hk).2
    · intro f hmem
      split at hmem
      · cases hmem
      · obtain ⟨n, hn, hf⟩ := List.mem_filterMap.1 hmem
        obtain ⟨f', -, rfl⟩ := Option.map_eq_some_iff.1 hf
        obtain ⟨o, ho, rfl⟩ := List.mem_map.1 hn
        exact (hos o ho).2
    · intro m hmem
      obtain ⟨a, ha, hm⟩ := of_mem_mapE hmanifest hmem
      obtain ⟨x, hx, -⟩ := bind_eq_ok.1 hm
      have hx' := artifact_of_ok hx
      have hc := hcloud a ha
      rw [hx'] at hc
      exact ⟨a, x, hx', hc, hm⟩
  have hseed : h.MayLeave (packetWith fields excerpts.flatten h.requestLimits) := by
    refine hwith _ fun e hmem => ?_
    obtain ⟨es, hes, he⟩ := List.mem_flatten.1 hmem
    obtain ⟨a, ha, hes⟩ := of_mem_mapE hexcerpts hes
    obtain ⟨x, hxa, hes⟩ := bind_eq_ok.1 hes
    split at hes
    · obtain ⟨e', he', hes⟩ := bind_eq_ok.1 hes
      cases hes
      rw [List.mem_singleton.1 he]
      exact excerpt_cloud (hcloud a ha) hxa he'
    · obtain ⟨w, -, hw⟩ := of_mem_mapE hes he
      exact excerpt_cloud (hcloud a ha) hxa hw
  have hcomplete : ∀ evidence, h.completeEvidence os = .ok evidence →
      h.MayLeave (packetWith fields evidence h.requestLimits) := by
    intro evidence hevidence
    refine hwith _ fun e hmem => ?_
    obtain ⟨a, ha, hx⟩ := of_mem_mapE hevidence hmem
    obtain ⟨x, hx, he⟩ := bind_eq_ok.1 hx
    obtain ⟨o, ho, hao⟩ := List.mem_flatMap.1 (mem_sortedSet.1 ha)
    obtain ⟨o', ho', hall⟩ := cloud_of_allowed (hos o ho).2
    cases (hos o ho).1.symm.trans ho'
    exact excerpt_cloud (hall a hao) hx he
  dsimp only at hp
  generalize (if h.fullContext role = true then ContextPlan.fullContext else .seedAndPull) = plan' at hp
  split at hp
  · cases hp
    exact hseed
  · obtain ⟨seedSize, -, hp⟩ := bind_eq_ok.1 hp
    obtain ⟨rawSize, -, hp⟩ := bind_eq_ok.1 hp
    split at hp
    · cases hp
      exact hseed
    · obtain ⟨evidence, hevidence, hp⟩ := bind_eq_ok.1 hp
      obtain ⟨completeSize, -, hp⟩ := bind_eq_ok.1 hp
      split at hp
      · cases hp
        exact hcomplete evidence hevidence
      · cases hp
        exact hseed

/-! ## Rounds -/

theorem send_safe (hp : h.provider role = some p)
    (hr : Rest s) (ho : h.Open s ids)
    (hcloud : p.placement = .remote → ∀ n ∈ ids, h.task.cloudAllowed n = true) :
    h.Safe (h.send p role ids) s fun _ t => Rest t := by
  apply safe_read
  refine safe_eval fun os hos => safe_eval fun result hpacket => ?_
  obtain ⟨packet, plan⟩ := result
  refine safe_aside (addEvent_safe _ _) fun _ t ht => safe_eval fun size hsize => safe_read ?_
  have hrest := hr.kept ht.toKept
  have ho' := ho.kept ht.toKept
  split
  · refine runs_bind_reach (failEach_safe hrest ho') fun _ u _ hu => ?_
    exact safe_aside (addEvent_safe _ _) fun _ v hv => runs_pure (hu.1.kept hv.toKept)
  · next hallowed =>
    refine call_safe hrest ho' fun sha hsha => ?_
    refine ⟨⟨hp, rfl, rfl⟩, hsize, Bool.not_eq_true _ ▸ hallowed, hsha, ho', fun hremote => ?_,
      hrest.handed⟩
    refine packet_mayLeave hpacket hremote fun o hmem => ?_
    obtain ⟨n, hn, hb⟩ := of_mem_mapE hos hmem
    have hbyId := lookup_byId hb
    obtain ⟨-, rfl⟩ := Task.byId_mem hbyId
    exact ⟨hbyId, hcloud hremote _ hn⟩

variable (h) in
/-- All of the obligations are ready. -/
def Setup.AllReady (s : State ω) (ids : List Str) : Prop := ∀ n ∈ ids, h.Ready s.accepted n

theorem Setup.AllReady.reach (ho : h.AllReady s ids)
    (hr : Relation.ReflTransGen h.Step s t) : h.AllReady t ids :=
  fun n hn => (ho n hn).mono (accepted_mono hr)

theorem round_safe (hp : h.provider role = some p)
    (hr : Rest s) (ho : h.AllReady s ready) :
    h.Safe (h.round p role ready) s fun _ t => Rest t := by
  apply safe_read
  have hopen : h.Open s (ready.filter fun n => n ∉ s.accepted.keys) := fun n hn =>
    ⟨of_decide_eq_true (List.mem_filter.1 hn).2, ho n (List.mem_of_mem_filter hn)⟩
  have hrefuse : h.Safe (h.refusePrivate p (ready.filter fun n => n ∉ s.accepted.keys)) s
      fun _ t => Rest t ∧ Kept s t := by
    rw [Setup.refusePrivate]
    split
    · exact failEach_safe hr fun n hn => hopen n (List.mem_of_mem_filter hn)
    · exact runs_pure ⟨hr, .refl s⟩
  refine runs_bind_reach hrefuse fun _ t _ ht => ?_
  split
  · exact runs_pure ht.1
  · refine send_safe hp ht.1 (fun n hn => hopen.kept ht.2 n ?_) fun hremote n hn => ?_
    · rw [Setup.sendable] at hn
      split at hn
      · exact List.mem_of_mem_filter hn
      · exact hn
    · rw [Setup.sendable, if_pos hremote] at hn
      exact (List.mem_filter.1 hn).2

theorem work_safe (hp : h.provider role = some p)
    (hr : Rest s) (ho : h.AllReady s ready) (rounds : Nat) :
    h.Safe (h.work p role ready rounds) s fun _ t => Rest t := by
  induction rounds generalizing s with
  | zero => exact runs_pure hr
  | succ rounds ih =>
      -- what the round accepted only adds to what the others wait for
      refine runs_bind_reach (round_safe hp hr ho) fun more t hreach ht => ?_
      cases more with
      | true => exact ih ht (ho.reach hreach)
      | false => exact runs_pure ht

theorem dispatch_safe {rounds : Nat}
    (hp : h.provider role = some p) (hr : Rest s) (ho : h.AllReady s ready) :
    h.Safe (h.dispatch p role ready rounds) s fun _ t => Rest t := by
  rw [Setup.dispatch]
  split
  · apply runs_each (I := fun _ t => Rest t) hr
    rintro pre n rest t rfl hreach ht
    refine work_safe hp ht (fun m hm => ho.reach hreach m ?_) rounds
    rw [List.mem_singleton.1 hm]
    simp
  · split
    · exact work_safe hp hr ho rounds
    · refine runs_bind_reach (work_safe hp hr (fun n hn => ho n (List.mem_of_mem_filter hn)) rounds)
        fun _ t hreach ht => ?_
      exact work_safe hp ht (fun n hn => ho.reach hreach n (List.mem_of_mem_filter hn)) rounds

/-- A dispatch that the mode may leave out. -/
theorem dispatchTo_safe {c : Prop} [Decidable c] (role : Role) (hr : Rest s)
    (ho : h.AllReady s ready) :
    h.Safe (h.dispatchTo (if c then h.provider role else none) role ready) s fun _ t => Rest t := by
  split
  · cases hp : h.provider role with
    | none => exact runs_pure hr
    | some p => exact dispatch_safe hp hr ho
  · exact runs_pure hr

/-! ## The loop -/

theorem tryCache_safe (hr : Rest s) (hready : h.Ready s.accepted n) :
    h.Safe (h.tryCache n) s fun ok t => Tried n s ok t := by
  apply safe_read
  cases s.cache with
  | none => exact runs_pure (.of_kept hr (.refl s))
  | some rows =>
      refine safe_eval fun key _ => ?_
      cases rows.lookup key with
      | none => exact runs_pure (.of_kept hr (.refl s))
      | some entry =>
          refine safe_eval fun identity _ => safe_eval fun hit _ => ?_
          cases hit with
          | none => exact runs_pure (.of_kept hr (.refl s))
          | some value =>
              refine runs_bind_reach (accept_safe hr hready) fun ok t _ ht => ?_
              cases ok with
              | false => exact runs_pure ht
              | true =>
                  have hside : Aside t { t with cacheHits := t.cacheHits + 1 } := aside_frame rfl
                  exact runs_bind (safe_write hside (runs_pure (ht.kept hside.toKept)))

theorem callSolver_safe {n solver : Str} : h.Safe (h.callSolver n solver) s fun _ t => Aside s t := by
  apply safe_read
  split
  · exact runs_pure (.refl s)
  · exact runs_bind (safe_write (aside_world s _) (runs_pure (aside_world s _)))

theorem addSolverMs_safe {started : FloatModel.F} :
    h.Safe (h.addSolverMs started) s fun _ t => Aside s t := by
  refine safe_aside monotonic_safe fun ended t ht => ?_
  have hside : Aside t { t with
      solverMs := h.env.addMs t.solverMs (h.env.elapsedMs started ended) } := aside_frame rfl
  exact safe_write hside (ht.trans hside)

theorem trySolver_safe {n solver : Str} (hr : Rest s) (hready : h.Ready s.accepted n)
    (ha : n ∉ s.accepted.keys) : h.Safe (h.trySolver n solver) s fun _ t => Tried n s true t := by
  refine safe_aside monotonic_safe fun started t₁ h₁ => safe_aside callSolver_safe fun answer t₂ h₂ => ?_
  have hk := (h₁.trans h₂).toKept
  cases answer with
  | raised =>
      rw [← hk.accepted] at ha
      refine runs_bind_reach (failure_safe ha) fun _ t₃ _ h₃ => ?_
      exact addSolverMs_safe.imp fun _ _ h₄ => .of_kept hr ((hk.trans h₃).trans h₄.toKept)
  | value v wf =>
      refine safe_aside addSolverMs_safe fun _ t₃ h₃ => ?_
      have hk₃ := hk.trans h₃.toKept
      rw [← hk₃.accepted] at hready
      refine runs_bind_reach (accept_safe (hr.kept hk₃) hready) fun ok t _ ht => ?_
      have htried := ht.of_same hk₃.accepted
      cases ok with
      | false => exact runs_pure htried
      | true =>
          have hside : Aside t { t with deterministicAccepts := t.deterministicAccepts + 1 } := aside_frame rfl
          exact safe_write hside (htried.kept hside.toKept)

theorem attemptNode_safe (hr : Rest s) (hready : h.Ready s.accepted n)
    (ha : n ∉ s.accepted.keys) : h.Safe (h.attemptNode n) s fun _ t => Tried n s true t := by
  refine runs_bind_reach (tryCache_safe hr hready) fun hit t _ ht => ?_
  cases hit with
  | true => exact runs_pure ht
  | false =>
      have hsame := ht.refused rfl
      have hdone := ht.of_same rfl
      refine safe_eval fun o _ => ?_
      split
      · split
        · rw [← hsame] at ha hready
          exact (trySolver_safe ht.rest hready ha).imp fun _ u hu => hu.of_same hsame
        · exact runs_pure hdone
      · exact runs_pure hdone

theorem iteration_safe (hr : Rest s) (ho : h.Open s ready) (hnd : ready.Nodup) :
    h.Safe (h.iteration ready) s fun _ t => Rest t := by
  have hall : h.AllReady s ready := fun n hn => (ho n hn).2
  have hattempts : h.Safe (Prog.each ready h.attemptNode) s fun _ t => Rest t ∧
      ∀ m ∈ t.accepted.keys, m ∈ s.accepted.keys ∨ m ∈ ready := by
    apply runs_each (I := fun pre t => Rest t ∧ ∀ m ∈ t.accepted.keys, m ∈ s.accepted.keys ∨ m ∈ pre)
      ⟨hr, fun m hm => Or.inl hm⟩
    rintro pre n rest t rfl hreach ⟨hrest, hadded⟩
    -- the obligation is none of those before it
    have hn : n ∉ t.accepted.keys := by
      intro hmem
      rcases hadded n hmem with hmem | hmem
      · exact (ho n (by simp)).1 hmem
      · exact (List.nodup_append.1 hnd).2.2 n hmem n List.mem_cons_self rfl
    refine (attemptNode_safe hrest (hall.reach hreach n (by simp)) hn).imp fun _ u hu =>
      ⟨hu.rest, fun m hm => ?_⟩
    rcases hu.added m hm with hm | rfl
    · exact (hadded m hm).imp id (List.mem_append_left _)
    · exact Or.inr (by simp)
  -- the calls read what is accepted by then; readiness is all that they need
  refine runs_bind_reach hattempts fun _ t hreach ht => ?_
  refine runs_bind_reach (dispatchTo_safe .worker ht.1 (hall.reach hreach)) fun _ u hreach' hu => ?_
  exact dispatchTo_safe .expert hu ((hall.reach hreach).reach hreach')

theorem loop_safe (fuel : Nat) (attempted : List Str) (hr : Rest s) :
    h.Safe (h.loop fuel attempted) s fun _ t => Rest t := by
  induction fuel generalizing s attempted with
  | zero => exact runs_raise trivial
  | succ fuel ih =>
      apply safe_read
      split
      · exact runs_pure hr
      · -- the loop also leaves out what was attempted before, of which nothing is needed
        have hopen : h.Open s (h.ready s attempted) := by
          intro n hn
          obtain ⟨o, ho, rfl⟩ := List.mem_map.1 hn
          obtain ⟨hmem, hcond⟩ := List.mem_filter.1 ho
          obtain ⟨h1, -, h3⟩ := of_decide_eq_true hcond
          exact ⟨h1, o, Task.byId_of_mem hmem, h3⟩
        have hnd : (h.ready s attempted).Nodup :=
          h.task.checked.2.1.sublist (List.filter_sublist.map Obligation.id)
        exact runs_bind_reach (iteration_safe hr hopen hnd) fun _ t _ ht => ih _ ht

variable (h) in
/-- The obligations that have not been attempted. -/
def Setup.untried (attempted : List Str) : List Obligation :=
  h.task.obligations.filter fun o => o.id ∉ attempted

theorem length_untried_lt {attempted : List Str} (hne : h.ready s attempted ≠ []) :
    (h.untried (attempted ++ h.ready s attempted)).length < (h.untried attempted).length := by
  obtain ⟨n, hn⟩ := List.exists_mem_of_ne_nil _ hne
  obtain ⟨o, ho, rfl⟩ := List.mem_map.1 hn
  obtain ⟨hmem, hcond⟩ := List.mem_filter.1 ho
  have hsplit : h.untried (attempted ++ h.ready s attempted) =
      (h.untried attempted).filter fun o => o.id ∉ h.ready s attempted := by
    rw [Setup.untried, Setup.untried, List.filter_filter]
    exact List.filter_congr fun o _ => by simp [Bool.and_comm]
  rw [hsplit, List.length_filter_lt_length_iff_exists]
  exact ⟨o, List.mem_filter.2 ⟨hmem, decide_eq_true (of_decide_eq_true hcond).2.1⟩, by simpa using hn⟩

theorem planStructure_safe (ha : s.accepted = []) : h.Safe h.planStructure s fun _ t => Kept s t := by
  rw [Setup.planStructure.eq_def]
  split
  · exact runs_pure (.refl s)
  · next st hst =>
    apply runs_bind
    refine runs_write (.fail _ fun n _ => Or.inr (by simp [ha, Dict.keys])) ?_
    have hk : Kept s { s with failures := st.blocked.foldl (fun d kv => d.set kv.1 kv.2) s.failures } :=
      ⟨rfl, rfl, rfl, rfl, rfl, rfl, rfl⟩
    exact (addEvent_safe _ _).imp fun _ _ h' => hk.trans h'.toKept

theorem start_safe (ha : s.accepted = []) : h.Safe h.start s fun _ t => Kept s t := by
  rw [Setup.start]
  split
  · apply safe_read
    refine runs_bind (safe_write (aside_world s _) (safe_eval fun hashes _ => ?_))
    refine safe_aside (addEvent_safe _ _) fun _ t ht => ?_
    have hk := ((aside_world s _).trans ht).toKept
    exact (planStructure_safe (hk.accepted.trans ha)).imp fun _ _ h' => hk.trans h'
  · exact runs_raise trivial

theorem finish_safe {started structuralMs : FloatModel.F} :
    h.Safe (h.finish started structuralMs) s fun _ t => Aside s t := by
  refine safe_aside monotonic_safe fun ended t ht => ?_
  apply safe_read
  refine safe_eval fun result _ => safe_eval fun sha _ => ?_
  refine safe_aside (addEvent_safe _ _) fun _ u hu => ?_
  apply safe_read
  exact runs_pure (ht.trans hu)

theorem main_safe {started structuralMs : FloatModel.F} (hr : Rest s) (ha : s.accepted = []) :
    h.Safe (h.main started structuralMs) s fun _ t => Rest t := by
  refine runs_bind_reach (start_safe ha) fun _ t _ ht => ?_
  refine runs_bind_reach (loop_safe _ _ (hr.kept ht)) fun _ u _ hu => ?_
  exact finish_safe.imp fun _ _ h' => hu.kept h'.toKept

/-- The steps of a run of the harness, from the task before its compilation. -/
def Harness.Step (k : Harness ω) (task : Task) (s t : State ω) : Prop :=
  ∀ h, k.setup task = .ok h → h.Step s t

theorem now_steps (k : Harness ω) (task : Task) :
    Runs (k.Step task) k.env.now s (fun _ t => Aside s t) fun _ _ => True := by
  apply runs_bind
  apply runs_read
  apply runs_bind
  have ha := aside_world s (k.env.monotonic s.world).2
  exact runs_write (fun _ _ => .aside ha.toKept ha.failures) (runs_pure ha)

theorem setup_main_steps {k : Harness ω} {task : Task} (hs : k.setup task = .ok h)
    {started structuralMs : FloatModel.F} (hr : Rest s) (ha : s.accepted = []) :
    Runs (k.Step task) (h.main started structuralMs) s (fun _ t => Rest t) fun _ _ => True := by
  refine (main_safe hr ha).mono fun _ _ hst h' hs' => ?_
  cases hs.symm.trans hs'
  exact hst

/-- Every write of a run is a step, and a run that returns ends at rest. -/
theorem run_steps (k : Harness ω) (task : Task) (world : ω) (cache : Option CacheRows) :
    Runs (k.Step task) (k.run task) (State.initial k.env world cache) (fun _ t => Rest t)
      fun _ _ => True := by
  have hr : Rest (State.initial k.env world cache) := ⟨List.Subset.refl _, rfl⟩
  refine runs_bind_reach (now_steps k task) fun started t _ ht => ?_
  split
  · refine runs_bind_reach (now_steps k task) fun _ u _ hu => ?_
    refine runs_bind (runs_eval (fun h hs => ?_) fun _ _ => trivial)
    refine runs_bind_reach (now_steps k task) fun _ v _ hv => ?_
    have hall := ((ht.trans hu).trans hv).toKept
    exact setup_main_steps hs (hr.kept hall) hall.accepted
  · refine runs_bind (runs_eval (fun h hs => ?_) fun _ _ => trivial)
    exact setup_main_steps hs (hr.kept ht.toKept) ht.accepted

end ResidualHarness.Engine
