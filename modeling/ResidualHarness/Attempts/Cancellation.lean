import ResidualHarness.Attempts.RuntimeSteps

/-!
# Cancellation and publication

A cancellation that has answered yes stands beside a revoked or a cancelled row (`Fenced`), and a
row that has been a candidate is one. So in every interleaving an attempt is cancelled or published,
and never both (`cancel_excludes_candidate`).
-/

set_option autoImplicit false

namespace ResidualHarness.Factory

open Python Core

variable [FloatModel] (c : CheckedContract)

/-! ## The invariant -/

/-- What the row is when a cancellation has come to a point. -/
def Fenced (row : Option Attempt) : Cancelling → Prop
  | .revoked => ∃ r, row = some r ∧ r.revoked = true
  | .returned true => ∃ r, row = some r ∧ (r.revoked = true ∨ r.state = .cancelled)
  | _ => True

/-- What holds of the world at every point. -/
structure Exclusive (w : World) : Prop where
  revoked : ∀ r, w.row c = some r → r.revoked = true → r.state ≠ .candidate
  fenced : ∀ k ∈ w.cancels, Fenced (w.row c) k
  history : .candidate ∈ w.history → ∃ r, w.row c = some r ∧ r.state = .candidate

omit [FloatModel] in
theorem RowStep.settled {row row' : Option Attempt} (h : RowStep row row') {r : Attempt}
    (hr : row = some r) (hact : r.state.active = false) : row' = some r := by
  cases h with
  | same => exact hr
  | claim _ _ => cases hr
  | move hm hr' =>
      cases hr
      rw [hact] at hr'
      cases hr'

omit [FloatModel] in
theorem RowStep.fenced {row row' : Option Attempt} (h : RowStep row row') {k : Cancelling}
    (hk : Fenced row k) : Fenced row' k := by
  -- a revoked row stays revoked, and a cancelled row stays cancelled
  have hrevoked : ∀ r, row = some r → r.revoked = true → ∃ s, row' = some s ∧ s.revoked = true := by
    intro r hr hrev
    cases h with
    | same => exact ⟨r, hr, hrev⟩
    | claim _ _ => cases hr
    | move hm _ =>
        cases hr
        exact ⟨_, rfl, hm.persists.revoked hrev⟩
  cases k with
  | revoked =>
      obtain ⟨r, hr, hrev⟩ := hk
      exact hrevoked r hr hrev
  | returned answer =>
      cases answer with
      | false => trivial
      | true =>
          obtain ⟨r, hr, hrev | hcan⟩ := hk
          · obtain ⟨s, hs, hs'⟩ := hrevoked r hr hrev
            exact ⟨s, hs, Or.inl hs'⟩
          · exact ⟨r, h.settled hr (by rw [hcan]; rfl), Or.inr hcan⟩
  | _ => trivial

theorem Exclusive.commit {w : World} (h : Exclusive c w) {db : Db}
    (hdb : RowStep (w.row c) (db.attempt c.attemptId)) : Exclusive c (w.commit c db) := by
  have hrow : (w.commit c db).row c = db.attempt c.attemptId := rfl
  constructor
  · rw [hrow]
    intro r hr hrev
    have hold := h.revoked
    generalize w.row c = old at hdb hold
    generalize db.attempt c.attemptId = new at hdb hr
    cases hdb with
    | same => exact hold r hr hrev
    | claim _ hfresh =>
        cases hr
        rw [hfresh] at hrev
        cases hrev
    | move hm _ =>
        cases hr
        exact hm.revoked_not_candidate hrev
  · intro k hk
    exact hdb.fenced (h.fenced k hk)
  · intro hmem
    rw [hrow]
    rcases List.mem_append.1 hmem with hmem | hmem
    · obtain ⟨r, hr, hcand⟩ := h.history hmem
      exact ⟨r, hdb.settled hr (by rw [hcand]; rfl), hcand⟩
    · cases hr : db.attempt c.attemptId with
      | none =>
          rw [hr] at hmem
          cases hmem
      | some r =>
          rw [hr] at hmem
          have he : AttemptState.candidate = r.state := List.mem_singleton.1 hmem
          exact ⟨r, rfl, he.symm⟩

/-- A step that concerns neither the journal nor the cancellations. -/
theorem Exclusive.of_eq {w w' : World} (h : Exclusive c w) (hdb : w'.db = w.db)
    (hcancels : w'.cancels = w.cancels) (hhistory : w'.history = w.history) : Exclusive c w' := by
  have hrow : w'.row c = w.row c := by rw [World.row, hdb]; rfl
  constructor
  · rw [hrow]
    exact h.revoked
  · rw [hrow, hcancels]
    exact h.fenced
  · rw [hrow, hhistory]
    exact h.history

theorem Exclusive.cancels {w : World} (h : Exclusive c w) {ks : List Cancelling}
    (hks : ∀ k ∈ ks, k ∈ w.cancels ∨ Fenced (w.row c) k) :
    Exclusive c { w with cancels := ks } := by
  refine ⟨h.revoked, ?_, h.history⟩
  intro k hk
  rcases hks k hk with hk | hk
  · exact h.fenced k hk
  · exact hk

/-! ## Every step -/

theorem reap_frame (w : World) :
    w.reap.2.db = w.db ∧ w.reap.2.cancels = w.cancels ∧ w.reap.2.history = w.history := by
  rw [World.reap]
  split <;> exact ⟨rfl, rfl, rfl⟩

theorem cancelledRow_fenced {w : World} (h : w.cancelledRow c = true) :
    ∃ r, w.row c = some r ∧ r.state = .cancelled := by
  rw [World.cancelledRow] at h
  cases hr : w.row c with
  | none =>
      rw [hr] at h
      cases h
  | some r =>
      rw [hr] at h
      exact ⟨r, rfl, (of_decide_eq_true h).1⟩

/-- The next step of a cancellation: the cancellations are as they were, the invariant holds, and the
row is what the new point needs. -/
theorem cancelNext_exclusive {w : World} (h : Exclusive c w) (stamp : Stamp)
    (commits readable : Bool) {k : Cancelling} (hk : k ∈ w.cancels) :
    Exclusive c (w.cancelNext c stamp commits readable k).2 ∧
      Fenced ((w.cancelNext c stamp commits readable k).2.row c)
        (w.cancelNext c stamp commits readable k).1 := by
  have hf := h.fenced k hk
  cases k with
  | found => exact ⟨h.of_eq c rfl rfl rfl, trivial⟩
  | reaping =>
      rw [World.cancelNext]
      obtain ⟨hdb, hcs, hh⟩ := reap_frame w
      split
      · exact ⟨h.of_eq c hdb hcs hh, trivial⟩
      · exact ⟨h, trivial⟩
  | timedOut => exact ⟨h.of_eq c rfl rfl rfl, trivial⟩
  | killed =>
      rw [World.cancelNext, World.cancelRevoke]
      cases hr : w.db.revoke stamp c.attemptId with
      | ok db =>
          dsimp only
          split
          · obtain ⟨hstep, hrev⟩ := revoke_rowStep hr
            exact ⟨h.commit c hstep, hrev⟩
          · exact ⟨h, trivial⟩
      | error e =>
          dsimp only
          split
          · exact ⟨h, trivial⟩
          · exact ⟨h, trivial⟩
  | revoked =>
      refine ⟨h, ?_⟩
      obtain ⟨r, hr, hrev⟩ := hf
      rw [World.cancelNext]
      cases isOwn w.reason with
      | false => trivial
      | true => exact ⟨r, hr, Or.inl hrev⟩
  | refused => exact ⟨h, trivial⟩
  | judged own =>
      rw [World.cancelNext]
      split
      · refine ⟨h, ?_⟩
        cases ha : (own && w.cancelledRow c) with
        | false => trivial
        | true =>
            obtain ⟨r, hr, hcan⟩ := cancelledRow_fenced c (Bool.and_eq_true _ _ ▸ ha).2
            exact ⟨r, hr, Or.inr hcan⟩
      · exact ⟨h, trivial⟩
  | returned answer => exact ⟨h, hf⟩
  | raised => exact ⟨h, trivial⟩

theorem envStep_exclusive {w : World} (h : Exclusive c w) (step : EnvStep) :
    Exclusive c (w.envStep c step) := by
  cases step with
  | exit => exact h.of_eq c rfl rfl rfl
  | watch cause =>
      rw [World.envStep]
      split
      · exact h.of_eq c rfl rfl rfl
      · exact h
  | watchStep =>
      rw [World.envStep]
      split
      · rename_i k _
        cases k with
        | reaping =>
            rw [World.watchNext]
            obtain ⟨hdb, hcs, hh⟩ := reap_frame w
            split
            · exact h.of_eq c hdb hcs hh
            · exact h.of_eq c rfl rfl rfl
        | _ => exact h.of_eq c rfl rfl rfl
      · exact h
  | cancel =>
      apply h.cancels
      intro k hk
      rcases List.mem_append.1 hk with hk | hk
      · exact Or.inl hk
      · right
        rw [List.mem_singleton.1 hk]
        split <;> trivial
  | cancelStep i stamp commits readable =>
      rw [World.envStep]
      cases hk : w.cancels[i]? with
      | none => exact h
      | some k =>
          obtain ⟨hnext, hfenced⟩ := cancelNext_exclusive c h stamp commits readable
            (List.mem_of_getElem? hk)
          apply hnext.cancels
          intro k' hk'
          rcases List.mem_or_eq_of_mem_set hk' with hk' | rfl
          · exact Or.inl hk'
          · exact Or.inr hfenced
  | recoverReap =>
      rw [World.envStep]
      obtain ⟨hdb, hcs, hh⟩ := reap_frame w
      split
      · exact h.of_eq c hdb hcs hh
      · exact h
  | recover stamp closes commits =>
      rw [World.envStep, World.recover]
      split
      · split
        · split
          · rename_i hfinish
            split
            · exact (h.commit c (finish_rowStep hfinish).1).of_eq c rfl rfl rfl
            · exact h.of_eq c rfl rfl rfl
          · exact h.of_eq c rfl rfl rfl
        · exact h
      · exact h

/-! ## Every program -/

theorem respected_exclusive : Respected c fun w w' => Exclusive c w → Exclusive c w' where
  refl := fun _ h => h
  trans := fun h h' hw => h' (h hw)
  env := fun _ step h => envStep_exclusive c h step
  tick := fun _ h => h.of_eq c rfl rfl rfl
  lost := fun _ h => h.of_eq c rfl rfl rfl
  request := fun _ _ h => h.of_eq c rfl rfl rfl
  reapTimedOut := fun _ h => h.of_eq c rfl rfl rfl
  reap := fun w h => h.of_eq c (reap_frame w).1 (reap_frame w).2.1 (reap_frame w).2.2
  commit := fun _ _ hstep h => h.commit c hstep
  aside := fun _ _ ha h => h.of_eq c ha.db ha.cancels ha.history

/-- The row moves by one step and the variables of the run are as they were. -/
theorem envStep_row (w : World) (step : EnvStep) :
    RowStep (w.row c) ((w.envStep c step).row c) ∧ (w.envStep c step).status = w.status := by
  have hreap : w.reap.2.row c = w.row c ∧ w.reap.2.status = w.status := by
    rw [World.reap]
    split <;> exact ⟨rfl, rfl⟩
  have hstay : ∀ w' : World, w'.row c = w.row c → w'.status = w.status →
      RowStep (w.row c) (w'.row c) ∧ w'.status = w.status := by
    intro w' hrow hstatus
    rw [hrow]
    exact ⟨.same _, hstatus⟩
  cases step with
  | exit => exact hstay _ rfl rfl
  | watch cause =>
      rw [World.envStep]
      split
      · exact hstay _ rfl rfl
      · exact hstay _ rfl rfl
  | watchStep =>
      rw [World.envStep]
      split
      · rename_i k _
        cases k with
        | reaping =>
            rw [World.watchNext]
            split
            · exact hstay _ hreap.1 hreap.2
            · exact hstay _ rfl rfl
        | _ => exact hstay _ rfl rfl
      · exact hstay _ rfl rfl
  | cancel => exact hstay _ rfl rfl
  | cancelStep i stamp commits readable =>
      rw [World.envStep]
      cases w.cancels[i]? with
      | none => exact hstay _ rfl rfl
      | some k =>
          cases k with
          | reaping =>
              dsimp only [World.cancelNext]
              split
              · exact hstay _ hreap.1 hreap.2
              · exact hstay _ rfl rfl
          | killed =>
              dsimp only [World.cancelNext, World.cancelRevoke]
              cases hr : w.db.revoke stamp c.attemptId with
              | ok db =>
                  dsimp only
                  split
                  · exact ⟨(revoke_rowStep hr).1, rfl⟩
                  · exact hstay _ rfl rfl
              | error e =>
                  dsimp only
                  split
                  · exact hstay _ rfl rfl
                  · exact hstay _ rfl rfl
          | judged own =>
              dsimp only [World.cancelNext]
              split
              · exact hstay _ rfl rfl
              · exact hstay _ rfl rfl
          | _ => exact hstay _ rfl rfl
  | recoverReap =>
      rw [World.envStep]
      split
      · exact hstay _ hreap.1 hreap.2
      · exact hstay _ rfl rfl
  | recover stamp closes commits =>
      rw [World.envStep, World.recover]
      split
      · split
        · split
          · rename_i hfinish
            split
            · exact ⟨(finish_rowStep hfinish).1, rfl⟩
            · exact hstay _ rfl rfl
          · exact hstay _ rfl rfl
        · exact hstay _ rfl rfl
      · exact hstay _ rfl rfl

/-- The way a run ends is as it was, and a row that is not active stays as it is. -/
def Settles (w w' : World) : Prop :=
  w'.status = w.status ∧ ∀ r, w.row c = some r → r.state.active = false → w'.row c = some r

theorem respected_settles : Respected c (Settles c) where
  refl := fun _ => ⟨rfl, fun _ hr _ => hr⟩
  trans := fun h h' => ⟨h'.1.trans h.1, fun r hr hact => h'.2 r (h.2 r hr hact) hact⟩
  env := fun w step => ⟨(envStep_row c w step).2, fun _ hr => (envStep_row c w step).1.settled hr⟩
  tick := fun _ => ⟨rfl, fun _ hr _ => hr⟩
  lost := fun _ => ⟨rfl, fun _ hr _ => hr⟩
  request := fun _ _ => ⟨rfl, fun _ hr _ => hr⟩
  reapTimedOut := fun _ => ⟨rfl, fun _ hr _ => hr⟩
  reap := by
    intro w
    rw [World.reap]
    split <;> exact ⟨rfl, fun _ hr _ => hr⟩
  commit := fun _ _ hstep => ⟨rfl, fun _ hr => hstep.settled hr⟩
  aside := by
    intro w w' ha
    refine ⟨ha.status, fun r hr _ => ?_⟩
    rw [World.row, ha.db]
    exact hr

theorem markable_settles : Markable (Settles c) := fun _ _ _ _ => ⟨rfl, fun _ hr _ => hr⟩

variable [FloatArith] (o : Outside)

/-! ## The end of a run -/

/-- The journal has the end that the run has. -/
def Agrees (w : World) : Prop :=
  ∃ r, w.row c = some r ∧ r.state = w.status ∧ r.state.active = false

omit [FloatArith] in
theorem journalFinish_yields (details : Fields) (g : Guard World) :
    Yields (journalFinish c o details) g (fun _ g' => Agrees c g'.world) fun _ _ => True := by
  apply yields_read_bind
  apply yields_bind ((transaction_yields c o _ g).conseq (fun _ _ h => h) fun _ _ _ => trivial)
  rintro - g' ⟨db, hfinish, rfl⟩
  obtain ⟨-, r, hr, hstate, hact⟩ := finish_rowStep hfinish
  refine ⟨fun _ _ => ⟨r, hr, ?_, hact⟩, nofun⟩
  rw [hstate]
  exact ((advance_respects c (respected_settles c) o g.world).1).symm

theorem execute_yields (g : Guard World) :
    Yields (execute c o) g (fun _ g' => Agrees c g'.world) fun _ _ => True := by
  apply yields_bind yields_any
  intro _ g₀ _
  apply yields_bind yields_any
  intro _ g₁ _
  apply yields_bind yields_any
  intro complete g₂ _
  apply yields_bind yields_any
  intro _ g₃ _
  apply yields_bind yields_any
  intro _ g₄ _
  apply yields_bind yields_any
  intro _ g₅ _
  apply yields_read_bind
  apply yields_bind (journalFinish_yields c o _ g₅)
  intro _ g₆ h
  exact ⟨fun _ _ => h, nofun⟩

omit [FloatArith] in
theorem handle_yields (r : Except Raised Unit) (g : Guard World)
    (hg : ∀ u, r = .ok u → Agrees c g.world) :
    Yields (handle c o r) g
      (fun _ g' => r = .error .aborted ∨ (g'.world.status = .candidate → Agrees c g'.world))
      fun _ _ => True := by
  cases r with
  | ok u => exact yields_pure (Or.inr fun _ => hg u rfl)
  | error e =>
      cases e with
      | violation field => exact ⟨fun _ _ => Or.inr nofun, nofun⟩
      | aborted => exact yields_pure (Or.inl rfl)
      | exception e =>
          apply yields_bind yields_any
          intro w g₁ _
          apply yields_read_bind
          apply yields_write_bind
          split
          · exact ⟨fun _ _ => Or.inr nofun, nofun⟩
          · apply yields_pure
            right
            intro hs
            dsimp only at hs
            split at hs <;> cases hs

omit [FloatArith] in
/-- The result has the status of the run, unless it is unknown. -/
theorem conclusion_yields (g : Guard World) :
    Yields (conclusion c o) g
      (fun result g' => ∀ s, result.status = some s → g'.world.status = s) fun _ _ => True := by
  apply yields_bind yields_any
  intro reaped g₁ _
  apply yields_bind yields_any
  intro _ g₂ _
  apply yields_bind yields_any
  intro w g₃ _
  dsimp only
  split
  · apply yields_bind yields_any
    intro _ g₄ _
    apply yields_bind yields_any
    intro hash g₅ _
    apply yields_read_bind
    exact yields_pure nofun
  · apply yields_bind yields_any
    intro _ g₄ _
    apply yields_bind yields_any
    intro hash g₅ _
    apply yields_read_bind
    apply yields_pure
    intro s hs
    exact Option.some.inj hs

/-- A result that is a candidate is in the journal. -/
theorem run_yields (sourceHash : Str) (approval : Json) (g : Guard World) :
    Yields (run c o sourceHash approval) g
      (fun result g' => result.status = some .candidate → Agrees c g'.world ∧
        g'.world.status = .candidate)
      fun _ _ => True := by
  apply yields_bind yields_any
  intro _ g₁ _
  apply yields_bind (p := fun r g₂ => ∀ u, r = .ok u → Agrees c g₂.world)
  · apply yields_attempt
    exact (execute_yields c o g₁).conseq (fun _ _ h _ _ => h) fun _ _ _ => nofun
  intro r g₂ hexec
  apply yields_bind (handle_yields c o r g₂ hexec)
  intro _ g₃ hhandle
  have hcarry := carries_conclusion c (respected_settles c) o (markable_settles c) g₃
  apply yields_bind (p := fun result g₄ => Settles c g₃.world g₄.world ∧
    ∀ s, result.status = some s → g₄.world.status = s)
  · have h := conclusion_yields c o g₃
    exact ⟨fun result hr => ⟨hcarry, h.1 result hr⟩, fun _ _ => trivial⟩
  rintro result g₄ ⟨hsettles, hstatus⟩
  split
  · exact yields_raise trivial
  · rename_i hnot
    apply yields_pure
    intro hcand
    have hs := hstatus _ hcand
    obtain ⟨row, hrow, hstate, hact⟩ := (hhandle.resolve_left hnot) (hsettles.1.symm.trans hs)
    refine ⟨⟨row, hsettles.2 row hrow hact, ?_, hact⟩, hs⟩
    rw [hstate]
    exact hsettles.1.symm

/-- Cancellation against publication, for every interleaving of a run with cancellations and with
the watchdog, and after it. If a cancellation answers yes, the run does not return a candidate and the
row never becomes one. If the run returns a candidate, the row is a candidate that is not revoked, and
every cancellation that answers says no. -/
theorem cancel_excludes_candidate (sourceHash : Str) (approval : Json) (ts : List Txn)
    (later : List EnvStep) :
    let out := run c o sourceHash approval (Guard.init c (World.init (Db.empty.run ts)))
    let w := out.state.world.envSteps c later
    (.returned true ∈ w.cancels →
      (∀ result, out.result = .ok result → result.status ≠ some .candidate) ∧
        .candidate ∉ w.history) ∧
    ∀ result, out.result = .ok result → result.status = some .candidate →
      (∃ r, w.row c = some r ∧ r.state = .candidate ∧ r.revoked = false) ∧
        ∀ answer, .returned answer ∈ w.cancels → answer = false := by
  intro out w
  have hinit : Exclusive c (World.init (Db.empty.run ts)) := by
    refine ⟨?_, nofun, nofun⟩
    intro r hr
    exact (inv_run ts).revoked r (attempt_eq_some hr).1
  have hout : Exclusive c out.state.world :=
    carries_run c (respected_exclusive c) o (fun _ _ _ _ h => h.of_eq c rfl rfl rfl)
      (fun _ _ _ _ h => h.of_eq c rfl rfl rfl) (fun _ _ h => h.of_eq c rfl rfl rfl) (fun _ h => h.of_eq c rfl rfl rfl) sourceHash approval _ hinit
  have hw : Exclusive c w := envSteps_respects c (respected_exclusive c) _ later hout
  -- a candidate that was returned is still in the journal after the later steps
  have hcandidate : ∀ result, out.result = .ok result → result.status = some .candidate →
      ∃ r, w.row c = some r ∧ r.state = .candidate := by
    intro result hresult hstatus
    obtain ⟨⟨r, hr, hstate, hact⟩, hcand⟩ :=
      (run_yields c o sourceHash approval _).1 result hresult hstatus
    refine ⟨r, ?_, hstate.trans hcand⟩
    have hlater : Settles c out.state.world w :=
      envSteps_respects c (respected_settles c) _ later
    exact hlater.2 r hr hact
  have hexclusive : ∀ r, w.row c = some r → r.state = .candidate → .returned true ∉ w.cancels := by
    intro r hr hcand hmem
    obtain ⟨s, hs, hfence⟩ := hw.fenced _ hmem
    cases hr.symm.trans hs
    rcases hfence with hrev | hcan
    · exact hw.revoked r hr hrev hcand
    · rw [hcan] at hcand
      cases hcand
  constructor
  · intro hmem
    constructor
    · intro result hresult hstatus
      obtain ⟨r, hr, hcand⟩ := hcandidate result hresult hstatus
      exact hexclusive r hr hcand hmem
    · intro hhist
      obtain ⟨r, hr, hcand⟩ := hw.history hhist
      exact hexclusive r hr hcand hmem
  · intro result hresult hstatus
    obtain ⟨r, hr, hcand⟩ := hcandidate result hresult hstatus
    constructor
    · refine ⟨r, hr, hcand, ?_⟩
      cases hrev : r.revoked with
      | false => rfl
      | true => exact absurd hcand (hw.revoked r hr hrev)
    · intro answer hmem
      cases answer with
      | false => rfl
      | true => exact absurd hmem (hexclusive r hr hcand)

end ResidualHarness.Factory
