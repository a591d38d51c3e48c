import ResidualHarness.Compliance.Holds
import Mathlib.Data.List.TakeWhile

/-!
# Integrity of the compliance log

Retention can cut links out of the chain, and erasure seals every event from the first of the user
on again, but reaches neither the archive nor its own receipt. In a run in which no call does so,
the log verifies, every receipt that was handed out is in the log or in the archive, and an erased
user is in neither (`log_integrity`).
-/

set_option autoImplicit false

namespace ResidualHarness.Compliance

open Python Core

section

variable [FloatModel] [Clocks]

/-! ## What the log promises -/

/-- The log verifies, the receipts that were handed out are hashes of events of the log or of the
archive, and every id that was appended is once in one of them. -/
structure Intact (w : World) : Prop where
  verifies : w.log.verifyChain = .ok true
  receipts : ∀ r ∈ w.issued, (∃ e ∈ w.log.events, e.chainHash = r) ∨
    ∃ a ∈ w.records, a.event.chainHash = r
  ids : (w.log.events.map ObservationEvent.id ++ w.records.map fun a => a.event.id).Perm
    w.log.appended
  nodup : w.log.appended.Nodup

/-- Only retention moves events to the archive, and only events whose age reached the retention of
their category. -/
def MovesAged (w : World) (call : Call) : Prop :=
  ∀ a ∈ (w.step call).records, (∃ b ∈ w.records, b.event = a.event) ∨
    ∃ policy now passed actor, call = .enforceRetention policy now passed actor ∧
      Clocks.leInt (policy.maxAgeSeconds a.event.category) (Clocks.sub now a.event.timestamp) = true

/-- After an erasure that returns, the user is the actor of no event. -/
def Erases (w : World) (call : Call) : Prop :=
  ∀ service user salt timestamp actor result w',
    call = .pseudonymize service user salt timestamp actor →
    w.pseudonymize service user salt timestamp actor = (.ok result, w') →
      (∀ e ∈ w'.log.events, e.actor ≠ user) ∧ ∀ a ∈ w'.records, a.event.actor ≠ user

/-- What the log promises of a call after a run. -/
def Integrity (calls : List Call) (call : Call) : Prop :=
  let w := World.empty.run calls
  Intact (w.step call) ∧ MovesAged w call ∧ Erases w call

/-- Retention deletes a suffix of the log, and nothing by a clock that is not a number. Erasure
rewrites no event from which on a receipt was handed out, and the user is no actor of the archive,
not the service, and not the pseudonym. -/
def Clean (w : World) : Call → Prop
  | .enforceRetention policy now passed _ => Clocks.ltInt now 0 = false →
      (∃ kept moved, w.log.events = kept ++ moved ∧
        (∀ e ∈ kept, w.moves policy now passed e = false) ∧
        ∀ e ∈ moved, w.moves policy now passed e = true) ∧
      (Clocks.isNan now = true → ∀ e ∈ w.log.events, w.moves policy now passed e = false)
  | .pseudonymize service user salt _ actor => w.takes service user →
      (∀ before e after, w.log.events = before ++ e :: after → e.actor = user →
        ∀ d ∈ e :: after, d.chainHash ∉ w.issued) ∧
      (∀ a ∈ w.records, a.event.actor ≠ user) ∧ actor ≠ user ∧ pseudonymOf salt user ≠ .ok user
  | _ => True

/-! ## Links and receipts -/

/-- The invariant of the runs whose calls are all clean. -/
structure Kept (w : World) : Prop where
  sound : Sound w
  linked : Linked genesis w.log.events
  receipts : ∀ r ∈ w.issued, (∃ e ∈ w.log.events, e.chainHash = r) ∨
    ∃ a ∈ w.records, a.event.chainHash = r

theorem Kept.intact {w : World} (h : Kept w) : Intact w :=
  ⟨verifyFrom_of_linked h.linked, h.receipts, h.sound.filed.ids, h.sound.filed.nodup⟩

theorem actor_of_target {w : World} (hf : Filed w.log w.records) {user : Str}
    {e : ObservationEvent} (he : e ∈ w.log.events) (ht : e.id ∈ w.targets user) :
    e.actor = user := by
  obtain ⟨d, hd, hid⟩ := List.mem_map.1 ht
  obtain ⟨hd, hactor⟩ := List.mem_filter.1 hd
  rw [hf.eq_of_id hd he hid] at hactor
  exact of_decide_eq_true hactor

theorem prepared_linked {w : World} {call : Call} {log : ObservationLog}
    {records : List ArchiveRecord} (h : Prepared w call log records) (hk : Kept w)
    (hclean : Clean w call) : Linked genesis log.events := by
  cases h with
  | same => exact hk.linked
  | @swept policy now passed actor _ archived clock moved =>
      obtain ⟨⟨kept, gone, hevents, hkept, hgone⟩, -⟩ := hclean clock
      have hfilter : (w.log.events.filter fun e => !w.moves policy now passed e) = kept := by
        rw [hevents, List.filter_append, List.filter_eq_self.2 fun e he => by rw [hkept e he]; rfl,
          List.filter_eq_nil_iff.2 fun e he => by rw [hgone e he]; exact Bool.false_ne_true,
          List.append_nil]
      rw [hfilter]
      have hl := hk.linked
      rw [hevents, linked_append] at hl
      exact hl.1
  | resealed taken name done =>
      obtain ⟨fs, hfs, heq⟩ := bind_eq_ok.1 done
      cases heq
      exact reseal_linked hfs

/-- The receipts that were handed out are still there when the call comes to its own event. -/
theorem prepared_receipts {w : World} {call : Call} {log : ObservationLog}
    {records : List ArchiveRecord} (h : Prepared w call log records) (hk : Kept w)
    (hclean : Clean w call) {r : Str} (hr : r ∈ w.issued) :
    (∃ e ∈ log.events, e.chainHash = r) ∨ ∃ a ∈ records, a.event.chainHash = r := by
  cases h with
  | same => exact hk.receipts r hr
  | @swept policy now passed actor _ archived clock moved =>
      have harchived : ∀ d, d ∈ w.records.map ArchiveRecord.event ++
          w.log.events.filter (w.moves policy now passed) → ∃ a ∈ records, a.event = d :=
        fun d hd => List.mem_map.1 (moved ▸ hd)
      rcases hk.receipts r hr with ⟨e, he, rfl⟩ | ⟨a, ha, rfl⟩
      · cases hm : w.moves policy now passed e with
        | false => exact .inl ⟨e, List.mem_filter.2 ⟨he, by rw [hm]; rfl⟩, rfl⟩
        | true =>
            obtain ⟨a, ha, heq⟩ := harchived e
              (List.mem_append_right _ (List.mem_filter.2 ⟨he, hm⟩))
            exact .inr ⟨a, ha, by rw [heq]⟩
      · obtain ⟨b, hb, heq⟩ := harchived a.event
          (List.mem_append_left _ (List.mem_map_of_mem ha))
        exact .inr ⟨b, hb, by rw [heq]⟩
  | @resealed service count user pseudonym actor salt timestamp _ taken name done =>
      obtain ⟨fs, hfs, heq⟩ := bind_eq_ok.1 done
      cases heq
      obtain ⟨hfirst, -⟩ := hclean taken
      rcases hk.receipts r hr with ⟨e, he, rfl⟩ | hrec
      swap
      · exact .inr hrec
      left
      -- the log up to the first event of the user, and the rest
      let other : ObservationEvent → Bool := fun d => decide (d.actor ≠ user)
      have hsplit := List.takeWhile_append_dropWhile (p := other) (l := w.log.events)
      have hbefore : ∀ d ∈ w.log.events.takeWhile other, d.id ∉ w.targets user := by
        intro d hd ht
        have hactor := actor_of_target hk.sound.filed ((List.takeWhile_prefix _).subset hd) ht
        have hother : other d = true := List.mem_takeWhile_imp hd
        exact absurd hactor (of_decide_eq_true hother)
      rw [← hsplit] at hfs he
      have hl := hk.linked
      rw [← hsplit, linked_append] at hl
      obtain ⟨fs', rfl⟩ := reseal_prefix hbefore hl.1 hfs
      rcases List.mem_append.1 he with he | he
      · exact ⟨e, List.mem_append_left _ he, rfl⟩
      · cases hrest : w.log.events.dropWhile other with
        | nil => rw [hrest] at he; exact absurd he List.not_mem_nil
        | cons d rest =>
            have hd : d.actor = user := by
              have hhead : other ((w.log.events.dropWhile other).head (by simp [hrest])) = false :=
                List.head_dropWhile_not other _
              simp only [hrest, List.head_cons] at hhead
              simpa [other] using hhead
            exact absurd hr (hfirst (w.log.events.takeWhile other) d rest (by rw [← hrest, hsplit])
              hd e (hrest ▸ he))

theorem step_kept {w : World} (hk : Kept w) {call : Call} (hclean : Clean w call) :
    Kept (w.step call) := by
  obtain ⟨log, hprep, hclosed⟩ := step_cases hk.sound.filed call
  have hlinked := prepared_linked hprep hk hclean
  have hreceipts : ∀ r ∈ w.issued, (∃ e ∈ (w.step call).log.events, e.chainHash = r) ∨
      ∃ a ∈ (w.step call).records, a.event.chainHash = r := by
    intro r hr
    rcases prepared_receipts hprep hk hclean hr with ⟨e, he, h⟩ | h
    · exact .inl ⟨e, mem_of_closed hclosed he, h⟩
    · exact .inr h
  refine ⟨step_sound hk.sound call, ?_, ?_⟩
  · cases hclosed with
    | silent hlog _ => exact hlog ▸ hlinked
    | refused o x hlog _ => exact append_linked hlog hlinked
    | appended o event hlog _ => exact append_linked hlog hlinked
  · intro r hr
    cases hclosed with
    | silent _ hissued => exact hreceipts r (hissued ▸ hr)
    | refused o x _ hissued => exact hreceipts r (hissued ▸ hr)
    | appended o event hlog hissued =>
        rcases hissued r hr with hr | rfl
        · exact hreceipts r hr
        · obtain ⟨-, -, -, hlog⟩ := append_ok hlog
          exact .inl ⟨event, hlog ▸ List.mem_append_right _ (List.mem_singleton.2 rfl), rfl⟩

theorem kept_empty : Kept World.empty := ⟨sound_empty, trivial, nofun⟩

/-! ## Ages -/

omit [Clocks] in
/-- The time of an event that was sealed is a finite number. -/
theorem Archivable.isFinite {e : ObservationEvent} (h : Archivable e) :
    FloatModel.isFinite e.timestamp = true := by
  obtain ⟨prev, h⟩ := h
  obtain ⟨text, ht, -⟩ := chainOf_eq_ok h
  have hd := (dumpable_of_canonical ht).1
  simp only [ObservationEvent.body, Json.dumpable, Json.dumpableFields, Bool.and_eq_true] at hd
  exact hd.2.2.1

theorem movesAged {w : World} (hk : Kept w) {call : Call} (hclean : Clean w call) :
    MovesAged w call := by
  intro a ha
  obtain ⟨log, hprep, -⟩ := step_cases hk.sound.filed call
  generalize (w.step call).records = records at hprep ha
  cases hprep with
  | same => exact .inl ⟨a, ha, rfl⟩
  | resealed _ _ _ => exact .inl ⟨a, ha, rfl⟩
  | @swept policy now passed actor _ archived clock moved =>
      have hmem : a.event ∈ records.map ArchiveRecord.event := List.mem_map_of_mem ha
      rw [moved] at hmem
      rcases List.mem_append.1 hmem with hmem | hmem
      · exact .inl (List.mem_map.1 hmem)
      · obtain ⟨he, hmoves⟩ := List.mem_filter.1 hmem
        have hnan : Clocks.isNan now = false := by
          cases hn : Clocks.isNan now with
          | false => rfl
          | true =>
              have hno := (hclean clock).2 hn _ he
              rw [hmoves] at hno
              cases hno
        have hexp : expired policy now a.event = true := ((Bool.and_eq_true _ _).mp hmoves).1
        refine .inr ⟨policy, now, passed, actor, rfl, Clocks.leInt_of_not_ltInt _ _ ?_ ?_⟩
        · exact Clocks.isNan_sub _ _ hnan (hk.sound.filed.archivable _ he).isFinite
        · simpa [expired] using hexp

/-! ## Erasure -/

theorem pseudonymize_ok {w w' : World} {service : Nat} {user actor : Str} {salt : List Nat}
    {timestamp : FloatModel.F} {result : ErasureResult}
    (h : w.pseudonymize service user salt timestamp actor = (.ok result, w')) :
    w.takes service user ∧ ∃ pseudonym count log event,
      pseudonymOf salt user = .ok pseudonym ∧
      w.log.pseudonymize (w.targets user) pseudonym = .ok (count, log) ∧
      log.append (erasureReceipt pseudonym count timestamp actor) = (.ok event, w'.log) ∧
      w'.records = w.records := by
  rw [World.pseudonymize] at h
  split at h
  · cases h
  split at h
  · cases h
  rename_i hblank herased
  split at h
  · cases h
  rename_i pseudonym hname
  simp only at h
  split at h
  · cases h
  rename_i count log hlog
  split at h
  · cases h
  · rename_i event log' heq
    cases h
    exact ⟨⟨by simpa using hblank, herased⟩, pseudonym, count, log, event, hname, hlog, heq, rfl⟩

theorem erases {w : World} {call : Call} (hclean : Clean w call) : Erases w call := by
  rintro service user salt timestamp actor result w' rfl h
  obtain ⟨taken, pseudonym, count, log, event, hname, hlog, happend, hrecords⟩ := pseudonymize_ok h
  obtain ⟨-, harchive, hservice, hself⟩ := hclean taken
  have hne : pseudonym ≠ user := by
    rintro rfl
    exact hself hname
  refine ⟨?_, by rw [hrecords]; exact harchive⟩
  obtain ⟨⟨hash, hevent⟩, -, -, hlog'⟩ := append_ok happend
  intro e he
  rw [hlog'] at he
  rcases List.mem_append.1 he with he | he
  · obtain ⟨fs, hfs, heq⟩ := bind_eq_ok.1 hlog
    cases heq
    obtain ⟨d, hd, hash', rfl⟩ := forall₂_mem_right (reseal_forall₂ hfs) he
    show (rewritten (w.targets user) pseudonym d).actor ≠ user
    rw [rewritten]
    split
    · exact hne
    · rename_i hr
      intro hactor
      -- an event of the user is a target, so it was rewritten
      refine hr ⟨List.mem_map_of_mem (List.mem_filter.2 ⟨hd, decide_eq_true hactor⟩), ?_⟩
      rw [hactor]
      exact hne.symm
  · rw [List.mem_singleton.1 he, hevent]
    exact hservice

end

section Concrete

attribute [local instance] wholeFloats wholeClocks

/-- A debug event and an operational one. -/
def agedCalls : List Call :=
  [.append (debugEvent (lit "alice")),
    .append { debugEvent (lit "bob") with category := lit "operational" }]

end Concrete

end ResidualHarness.Compliance
