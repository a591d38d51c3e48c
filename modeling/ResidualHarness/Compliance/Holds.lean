import ResidualHarness.Compliance.Services

/-!
# Legal holds

A hold blocks the events that its scope matches, and erasure rewrites the field that a scope with a
user looks at. In a run that erases no user while an active hold names the user and matches an event
of theirs, every event that an active hold matched stays in the log until the hold is released
(`held_events_stay`).
-/

set_option autoImplicit false

namespace ResidualHarness.Compliance

open Python Core

section

variable [FloatModel] [Clocks]

/-! ## Runs -/

/-- Every call of a run meets a condition in the world it is made in. -/
def Calls (ok : World → Call → Prop) : World → List Call → Prop
  | _, [] => True
  | w, call :: calls => ok w call ∧ Calls ok (w.step call) calls

theorem calls_append {ok : World → Call → Prop} {xs ys : List Call} :
    ∀ {w : World}, Calls ok w (xs ++ ys) ↔ Calls ok w xs ∧ Calls ok (w.run xs) ys := by
  induction xs with
  | nil => exact fun {w} => ⟨fun h => ⟨trivial, h⟩, And.right⟩
  | cons call xs ih => simp [Calls, ih, and_assoc, World.run]

theorem run_invariant {P : World → Prop} {ok : World → Call → Prop}
    (hstep : ∀ w call, P w → ok w call → P (w.step call)) {calls : List Call} :
    ∀ {w : World}, P w → Calls ok w calls → P (w.run calls) := by
  induction calls with
  | nil => exact fun hw _ => hw
  | cons call calls ih => exact fun hw hc => ih (hstep _ call hw hc.1) hc.2

/-! ## Holds -/

/-- The holds have different numbers below the next one. -/
structure Numbered (w : World) : Prop where
  nodup : (w.holds.map LegalHold.id).Nodup
  below : ∀ h ∈ w.holds, h.id < w.holdCounter

/-- The invariant of every run. -/
structure Sound (w : World) : Prop where
  filed : Filed w.log w.records
  numbered : Numbered w

/-- All that a call does to the holds: nothing, a new one, or one that is no longer active. -/
inductive HoldStep (w w' : World) (call : Call) : Prop where
  | same (hholds : w'.holds = w.holds) (hcounter : w'.holdCounter = w.holdCounter)
  | added (hold : LegalHold) (hid : hold.id = w.holdCounter) (hholds : w'.holds = w.holds ++ [hold])
      (hcounter : w'.holdCounter = w.holdCounter + 1)
  | released (released : LegalHold) (i : Nat) (timestamp : FloatModel.F) (actor : Str)
      (hcall : call = .release released.id timestamp actor) (hinactive : released.active = false)
      (hplace : ∀ hi : i < w.holds.length, w.holds[i].id = released.id)
      (hholds : w'.holds = w.holds.set i released) (hcounter : w'.holdCounter = w.holdCounter)

theorem enforceRetention_holds (w : World) (policy : RetentionPolicy) (now : FloatModel.F)
    (passed : Bool) (actor : Str) :
    (w.enforceRetention policy now passed actor).2.holds = w.holds ∧
      (w.enforceRetention policy now passed actor).2.holdCounter = w.holdCounter := by
  rw [World.enforceRetention]
  split
  · exact ⟨rfl, rfl⟩
  split
  · exact ⟨rfl, rfl⟩
  simp only
  split <;> exact ⟨rfl, rfl⟩

theorem pseudonymize_holds (w : World) (service : Nat) (user : Str) (salt : List Nat)
    (timestamp : FloatModel.F) (actor : Str) :
    (w.pseudonymize service user salt timestamp actor).2.holds = w.holds ∧
      (w.pseudonymize service user salt timestamp actor).2.holdCounter = w.holdCounter := by
  rw [World.pseudonymize]
  split
  · exact ⟨rfl, rfl⟩
  split
  · exact ⟨rfl, rfl⟩
  split
  · exact ⟨rfl, rfl⟩
  simp only
  split
  · exact ⟨rfl, rfl⟩
  split <;> exact ⟨rfl, rfl⟩

theorem step_holds (w : World) (call : Call) : HoldStep w (w.step call) call := by
  cases call with
  | append o => exact .same rfl rfl
  | activate scope reason timestamp actor =>
      rw [World.step, World.activate]
      split
      · exact .same rfl rfl
      split
      · exact .same rfl rfl
      · exact .added _ rfl rfl rfl
  | release holdId timestamp actor =>
      rw [World.step, World.release]
      split
      · exact .same rfl rfl
      rename_i hold hfind
      split
      · exact .same rfl rfl
      split
      · exact .same rfl rfl
      · have hid : hold.id = holdId := by simpa using List.find?_some hfind
        refine .released _ _ timestamp actor (by rw [hid]) rfl ?_ rfl rfl
        intro hi
        rw [hid]
        simpa using List.findIdx_getElem (w := hi)
  | enforceRetention policy now passed actor =>
      obtain ⟨hholds, hcounter⟩ := enforceRetention_holds w policy now passed actor
      exact .same hholds hcounter
  | pseudonymize service user salt timestamp actor =>
      obtain ⟨hholds, hcounter⟩ := pseudonymize_holds w service user salt timestamp actor
      exact .same hholds hcounter

theorem map_id_set {holds : List LegalHold} {released : LegalHold} {i : Nat}
    (hplace : ∀ hi : i < holds.length, holds[i].id = released.id) :
    (holds.set i released).map LegalHold.id = holds.map LegalHold.id := by
  refine List.ext_getElem (by simp) fun j hj _ => ?_
  rw [List.getElem_map, List.getElem_map, List.getElem_set]
  split
  · rename_i hij
    subst hij
    exact (hplace (by simpa using hj)).symm
  · rfl

theorem step_numbered {w : World} (hn : Numbered w) (call : Call) : Numbered (w.step call) := by
  cases step_holds w call with
  | same hholds hcounter => exact ⟨hholds ▸ hn.nodup, by rw [hholds, hcounter]; exact hn.below⟩
  | added hold hid hholds hcounter =>
      constructor
      · rw [hholds, List.map_append, List.nodup_append]
        refine ⟨hn.nodup, by simp, ?_⟩
        intro n hnmem m hm
        obtain ⟨h, hh, rfl⟩ := List.mem_map.1 hnmem
        have hlt := hn.below h hh
        simp only [List.map_singleton, List.mem_singleton] at hm
        omega
      · rw [hholds, hcounter]
        intro h hh
        rcases List.mem_append.1 hh with hh | hh
        · exact Nat.lt_succ_of_lt (hn.below h hh)
        · rw [List.mem_singleton.1 hh, hid]
          exact Nat.lt_succ_self _
  | released released i timestamp actor hcall hinactive hplace hholds hcounter =>
      have hmap := map_id_set hplace
      constructor
      · rw [hholds, hmap]
        exact hn.nodup
      · rw [hholds, hcounter]
        intro h hh
        have hid : h.id ∈ w.holds.map LegalHold.id := hmap ▸ List.mem_map_of_mem hh
        obtain ⟨h₀, hh₀, heq⟩ := List.mem_map.1 hid
        exact heq ▸ hn.below h₀ hh₀

theorem step_sound {w : World} (hs : Sound w) (call : Call) : Sound (w.step call) :=
  ⟨step_filed hs.filed call, step_numbered hs.numbered call⟩

theorem sound_empty : Sound World.empty := ⟨filed_empty, ⟨.nil, nofun⟩⟩

theorem run_sound (calls : List Call) {w : World} (hs : Sound w) : Sound (w.run calls) := by
  induction calls generalizing w with
  | nil => exact hs
  | cons call calls ih => exact ih (step_sound hs call)

theorem Numbered.eq_of_id {w : World} (hn : Numbered w) {g h : LegalHold} (hg : g ∈ w.holds)
    (hh : h ∈ w.holds) (hid : g.id = h.id) : g = h :=
  List.inj_on_of_nodup_map hn.nodup hg hh hid

/-- The hold of a number has not been released. -/
def Unreleased (w : World) (id : Nat) : Prop := ∃ h ∈ w.holds, h.id = id ∧ h.active = true

/-- A hold that is active after a call was there before, or it is new. -/
theorem step_active {w : World} {call : Call} {h : LegalHold} (hh : h ∈ (w.step call).holds)
    (hactive : h.active = true) (hlt : h.id < w.holdCounter) : h ∈ w.holds := by
  cases step_holds w call with
  | same hholds _ => exact hholds ▸ hh
  | added hold hid hholds _ =>
      rw [hholds] at hh
      rcases List.mem_append.1 hh with hh | hh
      · exact hh
      · rw [List.mem_singleton.1 hh, hid] at hlt
        exact absurd hlt (Nat.lt_irrefl _)
  | released released i timestamp actor hcall hinactive hplace hholds _ =>
      rw [hholds] at hh
      rcases List.mem_or_eq_of_mem_set hh with hh | rfl
      · exact hh
      · rw [hinactive] at hactive
        cases hactive

theorem step_holdCounter (w : World) (call : Call) :
    w.holdCounter ≤ (w.step call).holdCounter := by
  cases step_holds w call with
  | same _ hcounter => exact hcounter.ge
  | added _ _ _ hcounter => exact hcounter ▸ Nat.le_succ _
  | released _ _ _ _ _ _ _ _ hcounter => exact hcounter.ge

theorem unreleased_of_run {id : Nat} {calls : List Call} :
    ∀ {w : World}, id < w.holdCounter → Unreleased (w.run calls) id → Unreleased w id := by
  induction calls with
  | nil => exact fun _ h => h
  | cons call calls ih =>
      intro w hlt h
      obtain ⟨g, hg, rfl, hactive⟩ := ih (hlt.trans_le (step_holdCounter w call)) h
      exact ⟨g, step_active hg hactive hlt, rfl, hactive⟩

/-! ## The events of a hold -/

/-- Retention is given the manager of the holds. -/
def Call.passesHolds : Call → Prop
  | .enforceRetention _ _ passed _ => passed = true
  | _ => True

/-- No active hold that names the user matches an event of theirs. -/
def Unheld (w : World) : Call → Prop
  | .pseudonymize service user _ _ _ => w.takes service user →
      ∀ h ∈ w.holds, h.active = true → h.scope.user = some user →
        ∀ e ∈ w.log.events, h.scope.matchesEvent e = false
  | _ => True

theorem matchesEvent_iff {scope : HoldScope} {e : ObservationEvent} :
    scope.matchesEvent e = true ↔ (∀ u ∈ scope.user, e.actor = u) ∧
      (∀ t ∈ scope.taskId, e.taskId = t) ∧
      (∀ a ∈ scope.start, Clocks.lt e.timestamp a = false) ∧
      ∀ b ∈ scope.stop, Clocks.lt b e.timestamp = false := by
  simp [HoldScope.matchesEvent, Option.all_eq_true, and_assoc]

/-- An event that is not renamed, or whose actor no scope looks at, matches after erasure what it
matched before. -/
theorem matchesEvent_rewritten {scope : HoldScope} {e : ObservationEvent} {ids : List Nat}
    {replacement hash : Str} (h : scope.matchesEvent e = true)
    (hfree : e.id ∈ ids → scope.user = none) :
    scope.matchesEvent { rewritten ids replacement e with chainHash := hash } = true := by
  rw [matchesEvent_iff] at h ⊢
  rw [rewritten]
  split
  · rename_i hr
    rw [hfree hr.1]
    exact ⟨fun _ hu => (by cases hu), h.2⟩
  · exact h

theorem mem_of_closed {w w' : World} {log : ObservationLog} (h : Closed w w' log)
    {e : ObservationEvent} (he : e ∈ log.events) : e ∈ w'.log.events := by
  cases h with
  | silent hlog _ => exact hlog ▸ he
  | refused o x hlog _ => exact append_error hlog ▸ he
  | appended o event hlog _ =>
      obtain ⟨-, -, -, hlog⟩ := append_ok hlog
      rw [hlog]
      exact List.mem_append_left _ he

/-- A call leaves the events of an active hold in the log, and they match it still. -/
theorem step_held {w : World} {call : Call} (hs : Sound w) (hpass : call.passesHolds)
    (hunheld : Unheld w call) {h : LegalHold} (hh : h ∈ w.holds) (hactive : h.active = true)
    {e : ObservationEvent} (he : e ∈ w.log.events) (hmatch : h.scope.matchesEvent e = true) :
    ∃ e' ∈ (w.step call).log.events, e'.id = e.id ∧ h.scope.matchesEvent e' = true := by
  obtain ⟨log, hprep, hclosed⟩ := step_cases hs.filed call
  suffices ∃ e' ∈ log.events, e'.id = e.id ∧ h.scope.matchesEvent e' = true by
    obtain ⟨e', he', hid, hm⟩ := this
    exact ⟨e', mem_of_closed hclosed he', hid, hm⟩
  generalize (w.step call).records = records at hprep
  cases hprep with
  | same => exact ⟨e, he, rfl, hmatch⟩
  | @swept policy now passed actor _ archived clock moved =>
      have hblocked : w.blocked e = true := List.any_eq_true.2 ⟨h, hh, by simp [hactive, hmatch]⟩
      have hkept : w.moves policy now passed e = false := by
        have hp : passed = true := hpass
        simp [World.moves, hblocked, hp]
      exact ⟨e, List.mem_filter.2 ⟨he, by rw [hkept]; rfl⟩, rfl, hmatch⟩
  | @resealed service count user pseudonym actor salt timestamp _ taken name done =>
      obtain ⟨fs, hfs, heq⟩ := bind_eq_ok.1 done
      cases heq
      obtain ⟨f, hf, hash, rfl⟩ := forall₂_mem_left (reseal_forall₂ hfs) he
      refine ⟨_, hf, by simp, matchesEvent_rewritten hmatch fun htarget => ?_⟩
      -- the event is one of the user, whom the scope may not name
      obtain ⟨d, hd, hid⟩ := List.mem_map.1 htarget
      obtain ⟨hd, hactor⟩ := List.mem_filter.1 hd
      rw [hs.filed.eq_of_id hd he hid, decide_eq_true_eq] at hactor
      cases huser : h.scope.user with
      | none => rfl
      | some u =>
          have hu : e.actor = u := (matchesEvent_iff.1 hmatch).1 u huser
          have hno := hunheld taken h hh hactive (by rw [huser, ← hu, hactor]) e he
          rw [hmatch] at hno
          cases hno

/-- The events of an active hold stay through every run after which it is still active. -/
theorem run_held {h : LegalHold} (hactive : h.active = true) {calls : List Call} :
    ∀ {w : World} {e : ObservationEvent}, Sound w → (∀ call ∈ calls, call.passesHolds) →
      Calls Unheld w calls → h ∈ w.holds → e ∈ w.log.events → h.scope.matchesEvent e = true →
      Unreleased (w.run calls) h.id → ∃ e' ∈ (w.run calls).log.events, e'.id = e.id := by
  induction calls with
  | nil => exact fun _ _ _ _ he _ _ => ⟨_, he, rfl⟩
  | cons call calls ih =>
      intro w e hs hpass hcalls hh he hmatch hfinal
      obtain ⟨e', he', hid, hmatch'⟩ :=
        step_held hs (hpass call List.mem_cons_self) hcalls.1 hh hactive he hmatch
      have hlt := hs.numbered.below h hh
      obtain ⟨g, hg, hgid, hgactive⟩ :=
        unreleased_of_run (hlt.trans_le (step_holdCounter w call)) hfinal
      -- the hold of that number is the same one
      have hgw := step_active hg hgactive (hgid ▸ hlt)
      rw [hs.numbered.eq_of_id hgw hh hgid] at hg
      obtain ⟨e'', he'', hid'⟩ := ih (step_sound hs call)
        (fun c hc => hpass c (List.mem_cons_of_mem _ hc)) hcalls.2 hg he' hmatch' hfinal
      exact ⟨e'', he'', hid'.trans hid⟩

/-- Releasing a hold leaves the events that another active hold matches in the log and blocked. -/
def ReleaseKeeps (w : World) : Prop :=
  ∀ holdId timestamp actor, ∀ h ∈ w.holds, h.active = true → h.id ≠ holdId →
    ∀ e ∈ w.log.events, h.scope.matchesEvent e = true →
      e ∈ (w.step (.release holdId timestamp actor)).log.events ∧
        (w.step (.release holdId timestamp actor)).blocked e = true

omit [FloatModel] [Clocks] in
theorem mem_set_of_ne {α : Type} {l : List α} {a b : α} {i : Nat} (ha : a ∈ l)
    (hi : ∀ h : i < l.length, l[i] ≠ a) : a ∈ l.set i b := by
  obtain ⟨j, hj, rfl⟩ := List.mem_iff_getElem.1 ha
  have hij : i ≠ j := by
    rintro rfl
    exact hi hj rfl
  exact List.mem_iff_getElem.2 ⟨j, by simpa using hj, by simp [hij]⟩

theorem releaseKeeps {w : World} (hs : Sound w) : ReleaseKeeps w := by
  intro holdId timestamp actor h hh hactive hne e he hmatch
  have hstay : h ∈ (w.step (.release holdId timestamp actor)).holds := by
    cases step_holds w (.release holdId timestamp actor) with
    | same hholds _ => exact hholds ▸ hh
    | added hold _ hholds _ => exact hholds ▸ List.mem_append_left _ hh
    | released released i _ _ hcall _ hplace hholds _ =>
        cases hcall
        refine hholds ▸ mem_set_of_ne hh fun hi heq => hne ?_
        rw [← heq, hplace hi]
  refine ⟨?_, List.any_eq_true.2 ⟨h, hstay, by simp [hactive, hmatch]⟩⟩
  obtain ⟨log, hprep, hclosed⟩ := step_cases hs.filed (.release holdId timestamp actor)
  generalize (w.step (.release holdId timestamp actor)).records = records at hprep
  cases hprep with
  | same => exact mem_of_closed hclosed he

/-- What a hold promises, between two moments of a run: an event that matched it while it was active
is in the log and not in the archive as long as it is not released, and releasing a hold frees no
event of another one. -/
def HoldsKept (before after : List Call) : Prop :=
  let w₁ := World.empty.run before
  let w₂ := w₁.run after
  (∀ h ∈ w₁.holds, h.active = true → ∀ e ∈ w₁.log.events, h.scope.matchesEvent e = true →
    Unreleased w₂ h.id →
      (∃ e' ∈ w₂.log.events, e'.id = e.id) ∧ ∀ r ∈ w₂.records, r.event.id ≠ e.id) ∧
    ReleaseKeeps w₂

theorem held_events_stay (before after : List Call)
    (hpass : ∀ call ∈ before ++ after, call.passesHolds)
    (hunheld : Calls Unheld World.empty (before ++ after)) : HoldsKept before after := by
  have hs₁ : Sound (World.empty.run before) := run_sound before sound_empty
  have hs₂ := run_sound after hs₁
  refine ⟨fun h hh hactive e he hmatch hun => ?_, releaseKeeps hs₂⟩
  obtain ⟨e', he', hid⟩ := run_held hactive hs₁
    (fun c hc => hpass c (List.mem_append_right _ hc)) (calls_append.1 hunheld).2 hh he hmatch hun
  refine ⟨⟨e', he', hid⟩, fun r hr heq => ?_⟩
  -- an id is not in the log and in the archive
  have hdisj := (List.nodup_append.1 (hs₂.filed.ids.nodup_iff.2 hs₂.filed.nodup)).2.2
  exact hdisj _ (List.mem_map_of_mem he') _ (List.mem_map_of_mem hr) (by rw [hid, heq])

end

section Concrete

attribute [local instance] wholeFloats wholeClocks

/-- The default retention: seven years, three years and one. -/
def defaultPolicy : RetentionPolicy where
  years := [(lit "sox", 7), (lit "operational", 3), (lit "debug", 1)]
  known := by decide
  positive := by decide
  complete := by decide

/-- Everything of one user. -/
def userScope (user : Str) (h : isBlank user = false) : HoldScope where
  user := some user
  taskId := none
  start := none
  stop := none
  constrained := nofun
  named := by simpa using h
  ordered := nofun

/-- An observation of the debug category. -/
def debugEvent (actor : Str) : Observation where
  kind := lit "observation"
  timestamp := some 0
  actor := actor
  taskId := lit "t1"
  category := lit "debug"
  region := lit "local"
  payload := []
  tags := []

/-- A user is put under a hold. -/
def heldBefore : List Call :=
  [.append (debugEvent (lit "alice")),
    .activate (userScope (lit "alice") (by decide)) (lit "litigation") (some 1) (lit "compliance")]

/-- The user is erased and two years pass. -/
def erasedAfter : List Call :=
  [.pseudonymize 0 (lit "alice") (List.replicate 32 7) (some 2) (lit "compliance"),
    .enforceRetention defaultPolicy (some 63072000) true (lit "compliance")]

/-- Erasing a user under a hold takes the event off the hold, and retention deletes it. -/
theorem erased_event_deleted : ¬ HoldsKept heldBefore erasedAfter := by
  rintro ⟨hkept, -⟩
  have hrun : (∃ h ∈ (World.empty.run heldBefore).holds, h.active = true ∧ h.id = 1 ∧
      ∃ e ∈ (World.empty.run heldBefore).log.events, e.id = 1 ∧ h.scope.matchesEvent e = true) ∧
      (∃ h ∈ ((World.empty.run heldBefore).run erasedAfter).holds, h.id = 1 ∧ h.active = true) ∧
      ∀ e ∈ ((World.empty.run heldBefore).run erasedAfter).log.events, e.id ≠ 1 := by
    decide +kernel
  obtain ⟨⟨h, hh, hactive, hid, e, he, heid, hmatch⟩, hun, hgone⟩ := hrun
  obtain ⟨⟨e', he', hid'⟩, -⟩ := hkept h hh hactive e he hmatch (hid ▸ hun)
  exact hgone e' he' (hid'.trans heid)

/-- Another user was erased before the hold. -/
theorem held_events_stay_other : HoldsKept
    [.append (debugEvent (lit "alice")),
      .pseudonymize 0 (lit "bob") (List.replicate 32 7) (some 1) (lit "compliance")]
    [.activate (userScope (lit "alice") (by decide)) (lit "litigation") (some 2) (lit "compliance"),
      .enforceRetention defaultPolicy (some 63072000) true (lit "compliance")] := by
  refine held_events_stay _ _ ?_ ⟨trivial, fun _ h hh => absurd hh List.not_mem_nil, trivial, trivial,
    trivial⟩
  intro call hcall
  simp only [List.cons_append, List.nil_append, List.mem_cons, List.not_mem_nil, or_false] at hcall
  rcases hcall with rfl | rfl | rfl | rfl <;> trivial

end Concrete

end ResidualHarness.Compliance
