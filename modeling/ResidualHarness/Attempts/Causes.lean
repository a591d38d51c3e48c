import ResidualHarness.Attempts.Supervision

/-!
# The recorded cause of an end

A reason is never replaced, and it is the one that the run reads when it decides how the attempt
ended. From there on the guard reads the clock again, so the cause that is journaled is the recorded
one as long as these readings are in time (`recorded_cause_kept`).
-/

set_option autoImplicit false

namespace ResidualHarness.Factory

open Python Core

/-! ## From the decision to the journal -/

section Journaled

variable [FloatModel] (c : CheckedContract) (o : Outside)

/-- The reason at the reap is the one that was read when the run decided. -/
def Consistent (d : Decision) (w : World) : Prop :=
  ∃ k, w.control = some k ∧ k.reaped = true ∧ ∀ r, k.reapedWith = some r → d.reason = some r

theorem Consistent.held {d : Decision} {w w' : World} (h : Consistent d w) (hw : Held w w') :
    Consistent d w' := by
  obtain ⟨k, hk, hreaped, hwith⟩ := h
  obtain ⟨k', hk', hlater⟩ := hw k hk
  obtain ⟨hreaped', hwith'⟩ := hlater.reaped hreaped
  refine ⟨k', hk', hreaped', ?_⟩
  rw [hwith']
  exact hwith

/-- The run has decided, and `j` is what it has journaled or would journal. -/
structure Ready (d : Decision) (j : AttemptState × Str) (w : World) : Prop where
  decided : w.decided = some d
  consistent : Consistent d w
  deferred : w.deferred = none
  pair : w.finished = true ∧ w.journaled = some j ∨ w.finished = false ∧ (w.status, w.why) = j

theorem Ready.onward {d : Decision} {j : AttemptState × Str} {w w' : World} (h : Ready d j w)
    (ha : Onward w w') : Ready d j w' := by
  obtain ⟨hd, hj⟩ := ha.deferred h.deferred
  refine ⟨ha.decided.trans h.decided, h.consistent.held ha.held, hd, ?_⟩
  rw [ha.finished, hj, ha.status, ha.why]
  exact h.pair

/-- What holds after the terminal transaction. -/
structure Recorded (d : Decision) (j : AttemptState × Str) (w : World) : Prop where
  decided : w.decided = some d
  consistent : Consistent d w
  deferred : w.deferred = none
  journaled : w.journaled = some j

theorem Recorded.onward {d : Decision} {j : AttemptState × Str} {w w' : World}
    (h : Recorded d j w) (ha : Onward w w') : Recorded d j w' := by
  obtain ⟨hd, hj⟩ := ha.deferred h.deferred
  exact ⟨ha.decided.trans h.decided, h.consistent.held ha.held, hd, hj.trans h.journaled⟩

/-- A program that only moves on, where it does not matter what is raised. -/
theorem moves_bind {α β : Type} {m : Guarded World α} {f : α → Guarded World β} {g : Guard World}
    {post : β → Guard World → Prop} (ha : Carries Onward m)
    (hf : ∀ a g', Onward g.world g'.world → Yields (f a) g' post fun _ _ => True) :
    Yields (m >>= f) g post fun _ _ => True :=
  carried_bind ha yields_any (fun _ _ _ => trivial) fun a g' h _ => hf a g' h

theorem ensureReaped_yields {d : Decision} {g : Guard World} (h : Consistent d g.world) :
    Yields (ensureReaped c o) g (fun reaped _ => reaped = true) fun _ _ => True := by
  have honward := respected_onward c
  apply yields_bind (p := fun w g' => w = g'.world ∧ Consistent d g'.world)
  · exact ⟨fun w hw => ⟨(Except.ok.inj hw).symm, h.held (carries_access c honward o g).held⟩, nofun⟩
  rintro w g₁ ⟨rfl, h₁⟩
  obtain ⟨k, hk, -⟩ := id h₁
  rw [hk]
  refine moves_bind (carries_reapOrKill c honward o k) fun _ g₂ h₂ => ?_
  apply yields_bind (p := fun w g' => w = g'.world ∧ Consistent d g'.world)
  · exact ⟨fun w hw => ⟨(Except.ok.inj hw).symm,
      (h₁.held h₂.held).held (carries_access c honward o g₂).held⟩, nofun⟩
  rintro w g₃ ⟨rfl, k₃, hk₃, hreaped, -⟩
  apply yields_pure
  rw [World.reaped, hk₃]
  exact hreaped

theorem journalFinish_records (details : Fields) {d : Decision} {g : Guard World}
    (hdecided : g.world.decided = some d) (hconsistent : Consistent d g.world)
    (hdeferred : g.world.deferred = none) :
    Yields (journalFinish c o details) g
      (fun _ g' => Recorded d (g.world.status, g.world.why) g'.world ∧
        g'.world.status = g.world.status)
      fun e g' => (∃ x, e = .exception x) ∧ Onward g.world g'.world := by
  have ha := advance_respects c (respected_onward c) o g.world
  apply yields_read_bind
  apply yields_bind
    (p := fun _ g' => ∃ db, g' = { g with world := (g.world.advance c o).commit c db })
  · refine (transaction_yields c o _ g).conseq ?_ ?_
    · rintro - g' ⟨db, -, rfl⟩
      exact ⟨db, rfl⟩
    · rintro e g' ⟨hx, rfl⟩
      exact ⟨hx, ha.trans ((respected_onward c).lost _)⟩
  · rintro - g' ⟨db, rfl⟩
    refine ⟨fun _ _ => ?_, nofun⟩
    refine ⟨⟨ha.decided.trans hdecided, hconsistent.held ha.held, (ha.deferred hdeferred).1, ?_⟩,
      ha.status⟩
    show some ((g.world.advance c o).status, (g.world.advance c o).why) = _
    rw [ha.status, ha.why]

theorem finalizeResources_records (reaped : Bool) (termination : Json) {d : Decision}
    {j : AttemptState × Str} {g : Guard World} (h : Ready d j g.world) :
    Yields (finalizeResources c o reaped termination) g (fun _ g' => Recorded d j g'.world)
      fun _ _ => True := by
  have honward := respected_onward c
  refine moves_bind (carries_system c honward o) fun _ g₁ h₁ => ?_
  replace h₁ := h.onward h₁
  apply yields_bind (p := fun _ g' => Recorded d j g'.world)
  · apply yields_read_bind
    rcases h₁.pair with ⟨hfin, hj⟩ | ⟨hfin, hj⟩
    · rw [if_pos hfin]
      exact yields_pure ⟨h₁.decided, h₁.consistent, h₁.deferred, hj⟩
    · rw [if_neg (by rw [hfin]; nofun)]
      refine (journalFinish_records c o _ h₁.decided h₁.consistent h₁.deferred).conseq ?_
        fun _ _ _ => trivial
      rintro - g' ⟨hr, -⟩
      rw [hj] at hr
      exact hr
  intro _ g₂ h₂
  refine moves_bind (carries_access c honward o) fun _ g₃ h₃ => ?_
  have hr := h₂.onward h₃
  exact ⟨fun _ _ => ⟨hr.decided, hr.consistent, hr.deferred, hr.journaled⟩, nofun⟩

/-- What a run that has decided would journal is journaled when it returns. -/
theorem conclusion_records {d : Decision} {j : AttemptState × Str} {g : Guard World}
    (h : Ready d j g.world) :
    Yields (conclusion c o) g (fun _ g' => Recorded d j g'.world) fun _ _ => True := by
  have honward := respected_onward c
  refine carried_bind (carries_ensureReaped c honward o) (ensureReaped_yields c o h.consistent)
    (fun _ _ _ => trivial) ?_
  rintro reaped g₁ h₁ rfl
  refine moves_bind (carries_joinWatch c honward o) fun _ g₂ h₂ => ?_
  refine moves_bind (carries_access c honward o) fun w g₃ h₃ => ?_
  dsimp only
  rw [Bool.not_true, Bool.and_false, if_neg nofun]
  apply yields_bind (finalizeResources_records c o _ _ (h.onward ((h₁.trans h₂).trans h₃)))
  intro _ g₄ h₄
  refine moves_bind (carries_hashOf c honward) fun hash g₅ h₅ => ?_
  apply yields_read_bind
  exact yields_pure (h₄.onward h₅)

/-! ## The run -/

/-- The variables of the run before its decision. -/
structure Fresh (w : World) : Prop where
  decided : w.decided = none
  deferred : w.deferred = none
  finished : w.finished = false
  journaled : w.journaled = none
  status : w.status = .failed

theorem Fresh.along {w w' : World} (h : Fresh w) (ha : Along w w') : Fresh w' := by
  obtain ⟨hd, hj⟩ := ha.deferred h.deferred
  exact ⟨ha.decided.trans h.decided, hd, ha.finished.trans h.finished, hj.trans h.journaled,
    ha.status.trans h.status⟩

variable [FloatArith]

/-- All readings after the decision are in time. -/
def Clocked (d : Decision) : Prop := ∀ n, d.time < n → InTime c d.started (o.clock n)

/-- The exception is the one that the decision asks for. -/
def Fits (d : Decision) (w : World) (e : Raised) : Prop :=
  Clocked c o d → (d.reason = none → NotLate e) ∧
    ∀ r, d.reason = some r → r.boundary ≠ lit "cancellation" → w.unwritten = 0 →
      e = .violation r.field

/-- The run has raised: before its decision, or with an exception that fits it. -/
structure Raises (e : Raised) (w : World) : Prop where
  deferred : w.deferred = none
  finished : w.finished = false
  fits : ∀ d, w.decided = some d → Consistent d w ∧ Fits c o d w e

theorem start_yields (h : Hooks World) {g : Guard World} :
    Yields (start h) g (fun _ g' => g'.state = .running ∧ g'.contract = g.contract)
      fun _ _ => True := by
  apply yields_read_bind
  split
  · exact yields_raise trivial
  · apply yields_bind (p := fun _ g' => g'.contract = g.contract)
    · refine ⟨fun a ha => ?_, fun _ _ => trivial⟩
      obtain ⟨w, he⟩ := (emit_ends h _ _).2.1 a ha
      rw [he]
    intro _ g₁ h₁
    apply yields_bind (p := fun _ g' => g'.contract = g.contract)
    · refine ⟨fun a ha => ?_, fun _ _ => trivial⟩
      obtain ⟨⟨w, he⟩, -⟩ := (readClock_ends h).2.1 a ha
      rw [he]
      exact h₁
    intro now g₂ h₂
    split
    · exact ⟨fun a ha => ((violate_ends h _ _ _).2.1 a ha).elim, fun _ _ => trivial⟩
    · apply yields_write_bind
      apply yields_bind (p := fun _ g' => g'.contract = g.contract)
      · refine ⟨fun a ha => ?_, fun _ _ => trivial⟩
        obtain ⟨w, he⟩ := (emit_ends h _ _).2.1 a ha
        rw [he]
        exact h₂
      intro _ g₃ h₃
      exact ⟨fun _ _ => ⟨rfl, h₃⟩, nofun⟩

theorem launch_yields {g : Guard World} (hg : g.contract = c) :
    Yields (launch c o) g
      (fun _ g' => g'.state = .running ∧ g'.contract = c ∧ ∃ k, g'.world.control = some k)
      fun _ _ => True := by
  apply yields_bind ((outer_system c o).contract hg)
  intro _ g₁ h₁
  apply yields_bind ((outer_hashOf c).contract h₁)
  intro hash g₂ h₂
  apply yields_bind ((outer_access c o).contract h₂)
  intro w g₃ h₃
  apply yields_bind ((outer_transaction c o _).contract h₃)
  intro _ g₄ h₄
  apply yields_bind (p := fun _ g' => g'.state = .running ∧ g'.contract = c)
  · refine (start_yields (hooks c o)).conseq ?_ fun _ _ h => h
    rintro - g' ⟨hst, hcon⟩
    exact ⟨hst, hcon.trans h₄⟩
  rintro - g₅ ⟨hst, hcon⟩
  apply yields_bind ((outer_system c o).stays g₅ hst)
  rintro - g₆ ⟨hst₆, -, hcon₆⟩
  apply yields_write_bind
  refine yields_bind ((outer_system c o).stays _ ?_) ?_
  · exact hst₆
  rintro - g₇ ⟨hst₇, -, hcon₇⟩
  exact ⟨fun _ _ => ⟨hst₇, hcon₇.trans (hcon₆.trans hcon), Control.init, rfl⟩, nofun⟩

theorem stays_register : Stays (register c o) := by
  apply stays_bind
  · apply stays_read_bind
    intro g
    split
    · exact stays_raise _
    · exact stays_pure _
  intro _
  apply stays_bind (stays_change _)
  intro _
  apply stays_bind (outer_access c o).stays
  intro _
  apply stays_bind (stays_change _)
  intro _
  apply stays_bind (outer_transaction c o _).stays
  intro _
  apply stays_bind (outer_access c o).stays
  intro _
  exact (outer_transaction c o _).stays

/-- The drain returns when the process has been reaped. -/
theorem drain_yields {g : Guard World} (hg : g.state = .running) :
    Yields (drain c o) g
      (fun _ g' => Alive g g' ∧ ∀ k, g'.world.control = some k → k.reaped = true)
      fun _ _ => True := by
  have hnever : ∀ g' : Guard World, Yields (drainTimeout c o) g' (fun _ _ => False)
      fun _ _ => True := by
    intro g'
    apply yields_bind yields_any
    intro w g₁ _
    apply yields_bind yields_any
    intro _ g₂ _
    apply yields_bind yields_any
    intro _ g₃ _
    exact (violate_yields c o _ _ _ g₃).conseq (fun _ _ h => h) fun _ _ _ => trivial
  apply yields_bind (p := fun reaped g' => Alive g g' ∧
    (reaped = true → ∀ k, g'.world.control = some k → k.reaped = true))
  · apply yields_bind (p := fun w g' => Alive g g' ∧ g'.world = w)
    · exact ⟨fun w hw => ⟨⟨hg, rfl, rfl⟩, Except.ok.inj hw⟩, nofun⟩
    rintro w g₁ ⟨ha, rfl⟩
    apply yields_write_bind
    apply yields_pure
    refine ⟨ha, ?_⟩
    intro hreap k hk
    have hk' : g₁.world.reap.2.control = some k := hk
    rw [World.reap] at hreap hk'
    cases hc : g₁.world.control with
    | none =>
        rw [hc] at hk'
        cases hc.symm.trans hk'
    | some k₁ =>
        rw [hc] at hreap hk'
        dsimp only at hreap hk'
        cases hk'
        rw [Control.reap] at hreap ⊢
        split
        · assumption
        · rename_i hno
          rw [if_neg hno] at hreap
          split
          · rfl
          · rename_i hne
            rw [if_neg hne] at hreap
            cases hreap
  rintro reaped g₁ ⟨ha, hreap⟩
  split
  · rename_i hr
    exact yields_pure ⟨ha, hreap hr⟩
  · exact (hnever g₁).conseq (fun _ _ h => h.elim) fun _ _ h => h

omit [FloatArith] in
theorem stays_stopWatch : Stays (stopWatch c o) := by
  apply stays_bind
  · apply stays_bind (outer_access c o).stays
    intro w
    split
    · exact stays_pure _
    · exact stays_bind (stays_change _) fun _ => stays_pure _
  intro stopped
  split
  · exact stays_pure _
  · exact stays_raise _

/-- The decision: what is returned or raised after it fits it. -/
theorem conclude_yields (complete : Bool) {g : Guard World} (hrun : g.state = .running)
    (hcon : g.contract = c) (hhash : ∃ hash, c.contractHash = .ok hash)
    (hk : ∃ k, g.world.control = some k ∧ k.reaped = true) (hg : Fresh g.world) :
    Yields (conclude c o complete) g
      (fun _ g' => ∃ d, g'.world.decided = some d ∧ Consistent d g'.world ∧
        g'.world.deferred = none ∧ g'.world.finished = false ∧ g'.world.status ≠ .violated ∧
        ∀ r, d.reason = some r → r.boundary = lit "cancellation")
      fun e g' => Raises c o e g'.world := by
  apply yields_bind (p := fun w g' => Alive g g' ∧ g'.world = w ∧ Fresh g'.world ∧
    ∃ k, g'.world.control = some k ∧ k.reaped = true)
  · refine ⟨fun w hw => ?_, nofun⟩
    have ha := carries_access c (respected_onward c) o g
    obtain ⟨k, hk, hreaped⟩ := hk
    obtain ⟨k', hk', hlater⟩ := ha.held k hk
    exact ⟨⟨hrun, rfl, rfl⟩, Except.ok.inj hw, hg.along ha.toAlong, k', hk', (hlater.reaped hreaped).1⟩
  rintro w g₁ ⟨⟨hrun₁, -, hcon₁⟩, rfl, hg₁, k, hk, hreaped⟩
  apply yields_write_bind
  -- the world after the decision has been noted
  generalize hd : (⟨g₁.world.time, complete, g₁.world.reason, g₁.started,
    g₁.world.leaseCurrent c⟩ : Decision) = d
  have hreason : d.reason = g₁.world.reason := by rw [← hd]
  have hconsistent : Consistent d { g₁.world with decided := some d } := by
    refine ⟨k, hk, hreaped, ?_⟩
    intro r hr
    rw [hreason, World.reason, hk]
    exact k.kept r hr
  have hreturns := judge_returns c o g₁.world.reason complete
    (g := { g₁ with world := { g₁.world with decided := some d } }) hg₁.status
  have hfirm := carries_judge c (respected_firm c) o settable_firm g₁.world.reason complete
    { g₁ with world := { g₁.world with decided := some d } }
  refine ⟨fun a ha => ?_, fun e he => ?_⟩
  · obtain ⟨hstatus, hcancel⟩ := hreturns.1 a ha
    refine ⟨d, hfirm.decided, hconsistent.held hfirm.held, (hfirm.deferred hg₁.deferred),
      hfirm.finished.trans hg₁.finished, hstatus, ?_⟩
    rw [hreason]
    exact hcancel
  · refine ⟨hfirm.deferred hg₁.deferred, hfirm.finished.trans hg₁.finished, ?_⟩
    intro d' hd'
    have hdd : d = d' := Option.some.inj (hfirm.decided.symm.trans hd')
    subst hdd
    refine ⟨hconsistent.held hfirm.held, ?_⟩
    intro hclock
    have hpunctual : Punctual c o { g₁ with world := { g₁.world with decided := some d } } := by
      refine ⟨hrun₁, hcon₁.trans hcon, ?_⟩
      intro n hn
      have hin := hclock n (by rw [← hd]; exact hn)
      rw [← hd] at hin
      exact hin
    obtain ⟨hnone, hsome⟩ := (judge_raises c o g₁.world.reason complete hpunctual).2 e he
    rw [hreason]
    refine ⟨hnone, ?_⟩
    intro r hr hne hunwritten
    exact hsome r hr hne hhash hunwritten

theorem Fresh.raises {w : World} (h : Fresh w) (e : Raised) : Raises c o e w := by
  refine ⟨h.deferred, h.finished, ?_⟩
  intro d hd
  cases h.decided.symm.trans hd

/-- A program before the decision, and then another one. -/
theorem fresh_bind {α β : Type} {m : Guarded World α} {f : α → Guarded World β}
    {Q : World → World → Prop} {p : α → Guard World → Prop} {post : β → Guard World → Prop}
    {g : Guard World} (hg : Fresh g.world) (hQ : ∀ {w w'}, Q w w' → Along w w') (hm : Carries Q m)
    (hp : Yields m g p fun _ _ => True)
    (hf : ∀ a g', Q g.world g'.world → Fresh g'.world → p a g' →
      Yields (f a) g' post fun e g' => Raises c o e g'.world) :
    Yields (m >>= f) g post fun e g' => Raises c o e g'.world :=
  carried_bind hm hp (fun e _ h => (hg.along (hQ h)).raises c o e)
    fun a g' h => hf a g' h (hg.along (hQ h))

/-- The body of the run: it has journaled an end that is no violation, or it has raised. -/
theorem execute_decides {g : Guard World} (hcon : g.contract = c)
    (hhash : ∃ hash, c.contractHash = .ok hash) (hg : Fresh g.world) :
    Yields (execute c o) g
      (fun _ g' => ∃ d j, Ready d j g'.world ∧ g'.world.finished = true ∧ j.1 ≠ .violated ∧
        ∀ r, d.reason = some r → r.boundary = lit "cancellation")
      fun e g' => Raises c o e g'.world := by
  have honward := respected_onward c
  refine fresh_bind c o hg id (carries_launch c (respected_along c) o ?_) (launch_yields c o hcon) ?_
  · exact fun _ => ⟨le_refl _, le_refl _, rfl, rfl, rfl, rfl, fun h => ⟨h, rfl⟩⟩
  rintro - g₁ - hg₁ ⟨hrun₁, hcon₁, k₁, hk₁⟩
  refine fresh_bind c o hg₁ Onward.toAlong (carries_register c honward o) (stays_register c o g₁ hrun₁) ?_
  rintro - g₂ ha₂ hg₂ ⟨hrun₂, -, hcon₂⟩
  refine fresh_bind c o hg₂ Onward.toAlong (carries_exchange c honward o _ _) (stays_exchange c o _ _ g₂ hrun₂) ?_
  rintro complete g₃ ha₃ hg₃ ⟨hrun₃, -, hcon₃⟩
  refine fresh_bind c o hg₃ Onward.toAlong (carries_drain c honward o) (drain_yields c o hrun₃) ?_
  rintro - g₄ ha₄ hg₄ ⟨⟨hrun₄, -, hcon₄⟩, hreaped⟩
  -- the process of the launch has been reaped
  obtain ⟨k₄, hk₄, -⟩ := ((ha₂.trans ha₃).trans ha₄).held k₁ hk₁
  refine fresh_bind c o hg₄ Onward.toAlong (carries_stopWatch c honward o) (stays_stopWatch c o g₄ hrun₄) ?_
  rintro - g₅ ha₅ hg₅ ⟨hrun₅, -, hcon₅⟩
  obtain ⟨k₅, hk₅, hlater₅⟩ := ha₅.held k₄ hk₄
  have hcontract : g₅.contract = c :=
    hcon₅.trans (hcon₄.trans (hcon₃.trans (hcon₂.trans hcon₁)))
  apply yields_bind (conclude_yields c o complete hrun₅ hcontract hhash
    ⟨k₅, hk₅, (hlater₅.reaped (hreaped k₄ hk₄)).1⟩ hg₅)
  rintro - g₆ ⟨d, hdecided, hconsistent, hdeferred, hfinished, hstatus, hcancel⟩
  apply yields_read_bind
  apply yields_bind (p := fun _ g' => Recorded d (g₆.world.status, g₆.world.why) g'.world)
  · refine (journalFinish_records c o _ hdecided hconsistent hdeferred).conseq
      (fun _ _ h => h.1) ?_
    rintro e g' ⟨⟨x, rfl⟩, ha⟩
    refine ⟨(ha.deferred hdeferred).1, ha.finished.trans hfinished, ?_⟩
    intro d' hd'
    cases (ha.decided.trans hdecided).symm.trans hd'
    refine ⟨hconsistent.held ha.held, fun _ => ⟨fun _ => nofun, ?_⟩⟩
    intro r hr hne
    exact absurd (hcancel r hr) hne
  intro _ g₇ h₇
  refine ⟨fun _ _ => ?_, nofun⟩
  exact ⟨d, _, ⟨h₇.decided, h₇.consistent, h₇.deferred, Or.inl ⟨rfl, h₇.journaled⟩⟩, rfl, hstatus,
    hcancel⟩

/-- The decision stays, and lost writes stay lost. -/
def Steady (w w' : World) : Prop := w'.decided = w.decided ∧ w.unwritten ≤ w'.unwritten

omit [FloatArith] in
theorem respected_steady : Respected c Steady :=
  (respected_along c).imp (fun h => ⟨h.decided, h.unwritten⟩)
    fun h h' => ⟨h'.1.trans h.1, le_trans h.2 h'.2⟩

/-- The pair is the one that the decision asks for. -/
def Honoured (d : Decision) (j : AttemptState × Str) (unwritten : Nat) : Prop :=
  Clocked c o d → (d.reason = none → j ≠ (.violated, wallClock)) ∧
    ∀ r, d.reason = some r → r.boundary ≠ lit "cancellation" → unwritten = 0 →
      j = (.violated, r.field)

theorem Honoured.mono {d : Decision} {j : AttemptState × Str} {m n : Nat}
    (h : Honoured c o d j m) (hmn : m ≤ n) : Honoured c o d j n := by
  intro hclock
  obtain ⟨hnone, hsome⟩ := h hclock
  exact ⟨hnone, fun r hr hne hn => hsome r hr hne (by omega)⟩

/-- An end that is no violation honours a decision that asks for none. -/
theorem honoured_of_ne {d : Decision} {j : AttemptState × Str} {n : Nat} (hj : j.1 ≠ .violated)
    (hd : Clocked c o d → ∀ r, d.reason = some r → r.boundary ≠ lit "cancellation" → n ≠ 0) :
    Honoured c o d j n := by
  intro hclock
  constructor
  · rintro - rfl
    exact hj rfl
  · intro r hr hne hn
    exact absurd hn (hd hclock r hr hne)

/-- The handlers: the run is ready to journal what its decision asks for. -/
theorem handle_decides (r : Except Raised Unit) {g : Guard World}
    (hok : ∀ u, r = .ok u → ∃ d j, Ready d j g.world ∧ g.world.finished = true ∧
      j.1 ≠ .violated ∧ ∀ r, d.reason = some r → r.boundary = lit "cancellation")
    (herr : ∀ e, r = .error e → Raises c o e g.world) :
    Yields (handle c o r) g
      (fun _ g' => r = .error .aborted ∨ ∀ d, g'.world.decided = some d →
        ∃ j, Ready d j g'.world ∧ Honoured c o d j g'.world.unwritten)
      fun _ _ => True := by
  cases r with
  | ok u =>
      apply yields_pure
      right
      intro d' hd'
      obtain ⟨d, j, hready, -, hj, hcancel⟩ := hok u rfl
      cases hready.decided.symm.trans hd'
      refine ⟨j, hready, honoured_of_ne c o hj ?_⟩
      intro _ r hr hne
      exact absurd (hcancel r hr) hne
  | error e =>
      have hraises := herr e rfl
      cases e with
      | aborted => exact yields_pure (Or.inl rfl)
      | violation field =>
          refine ⟨fun _ _ => Or.inr ?_, nofun⟩
          intro d hd
          obtain ⟨hconsistent, hfits⟩ := hraises.fits d hd
          refine ⟨(.violated, field), ⟨hd, hconsistent, hraises.deferred,
            Or.inr ⟨hraises.finished, rfl⟩⟩, ?_⟩
          intro hclock
          obtain ⟨hnone, hsome⟩ := hfits hclock
          constructor
          · intro hr he
            exact hnone hr (congrArg Raised.violation (Prod.mk.inj he).2)
          · intro r hr hne hunwritten
            rw [Raised.violation.inj (hsome r hr hne hunwritten)]
      | exception e =>
          refine moves_bind (carries_access c (respected_onward c) o) fun w g₁ ha => ?_
          -- an end that is no violation
          have hready : ∀ status why, status ≠ AttemptState.violated → ∀ d,
              g₁.world.decided = some d → ∃ j, Ready d j { g₁.world with
                status := status, why := why, captured := none } ∧
                Honoured c o d j g₁.world.unwritten := by
            intro status why hstatus d hd
            rw [ha.decided] at hd
            obtain ⟨hconsistent, hfits⟩ := hraises.fits d hd
            refine ⟨(status, why), ⟨ha.decided.trans hd, hconsistent.held ha.held,
              (ha.deferred hraises.deferred).1,
              Or.inr ⟨ha.finished.trans hraises.finished, rfl⟩⟩, honoured_of_ne c o hstatus ?_⟩
            intro hclock r hr hne hzero
            have hle := ha.unwritten
            have he := (hfits hclock).2 r hr hne (by omega)
            cases he
          apply yields_read_bind
          apply yields_write_bind
          split
          · exact ⟨fun _ _ => Or.inr (hready _ _ nofun), nofun⟩
          · apply yields_pure
            right
            apply hready
            split <;> nofun

/-- A run that returns and has decided has journaled what its decision asks for. -/
theorem run_decides (sourceHash : Str) (approval : Json) {g : Guard World} (hcon : g.contract = c)
    (hg : Fresh g.world) :
    Yields (run c o sourceHash approval) g
      (fun _ g' => ∀ d, g'.world.decided = some d →
        ∃ j, Recorded d j g'.world ∧ Honoured c o d j g'.world.unwritten)
      fun _ _ => True := by
  have hclaim : Yields (transaction c o fun stamp db =>
      db.claim stamp c.toWorkerContract sourceHash approval) g
      (fun _ g' => g'.contract = c ∧ (∃ hash, c.contractHash = .ok hash) ∧ Fresh g'.world)
      fun _ _ => True := by
    refine (transaction_yields c o _ g).conseq ?_ fun _ _ _ => trivial
    rintro - g' ⟨db, hdb, rfl⟩
    refine ⟨hcon, ?_, ?_⟩
    · cases claim_change hdb with
      | claim hh => exact ⟨_, hh⟩
      | update _ _ hnc => exact absurd rfl (hnc _ _ _)
    · have hcommit : Onward (g.world.advance c o) ((g.world.advance c o).commit c db) :=
        onward_frame rfl rfl
      exact (hg.along (advance_respects c (respected_along c) o g.world)).along hcommit.toAlong
  apply yields_bind hclaim
  rintro - g₁ ⟨hcon₁, hhash, hg₁⟩
  have hexec := execute_decides c o hcon₁ hhash hg₁
  apply yields_bind (p := fun r g' =>
    (∀ u, r = .ok u → ∃ d j, Ready d j g'.world ∧ g'.world.finished = true ∧ j.1 ≠ .violated ∧
      ∀ r, d.reason = some r → r.boundary = lit "cancellation") ∧
    ∀ e, r = .error e → Raises c o e g'.world)
  · apply yields_attempt
    exact hexec.conseq (fun _ _ h => ⟨fun _ _ => h, nofun⟩) fun e _ h =>
      ⟨nofun, fun _ he => Except.error.inj he ▸ h⟩
  rintro r g₂ ⟨hok, herr⟩
  apply yields_bind (handle_decides c o r hok herr)
  intro _ g₃ hhandle
  have hsteady := carries_conclusion c (respected_steady c) o
    (fun _ _ _ _ => ⟨rfl, le_refl _⟩) g₃
  apply yields_bind (p := fun _ g' => r = .error .aborted ∨ ∀ d, g'.world.decided = some d →
    ∃ j, Recorded d j g'.world ∧ Honoured c o d j g'.world.unwritten)
  · refine ⟨fun a ha => ?_, fun _ _ => trivial⟩
    rcases hhandle with habort | hready
    · exact Or.inl habort
    · right
      intro d hd
      obtain ⟨j, hj, hhonoured⟩ := hready d (hsteady.1.symm.trans hd)
      exact ⟨j, (conclusion_records c o hj).1 a ha, hhonoured.mono c o hsteady.2⟩
  intro result g₄ hend
  split
  · exact yields_raise trivial
  · rename_i hnot
    exact yields_pure (hend.resolve_left hnot)

/-- The cause of the end of a run is not retyped, when all writes of the run succeed: a reason that
stood when the worker was reaped, and is no cancellation, is the violation that is journaled; and the
clock is not blamed for a worker that was reaped in time after a complete exchange, with exit code 0,
no reason and a current lease. -/
def CauseKept (sourceHash : Str) (approval : Json) (ts : List Txn) : Prop :=
  let w := (run c o sourceHash approval (Guard.init c (World.init (Db.empty.run ts)))).state.world
  w.unwritten = 0 →
    (∀ k r, w.control = some k → k.reapedWith = some r → r.boundary ≠ lit "cancellation" →
      w.journaled = some (.violated, r.field)) ∧
    ∀ d, w.decided = some d → d.complete = true → d.reason = none → d.lease = true →
      o.returncode = 0 → InTime c d.started (o.clock d.time) →
      w.journaled ≠ some (.violated, wallClock)

/-- The cause is kept in every run that returns, that came to its decision (the exchange returned, the
worker was reaped, the watchdog stopped), and whose clock was in time from then on. -/
theorem recorded_cause_kept (sourceHash : Str) (approval : Json) (ts : List Txn)
    {result : RuntimeResult} {d : Decision}
    (hreturns : (run c o sourceHash approval
      (Guard.init c (World.init (Db.empty.run ts)))).result = .ok result)
    (hdecided : (run c o sourceHash approval
      (Guard.init c (World.init (Db.empty.run ts)))).state.world.decided = some d)
    (hclock : Clocked c o d) : CauseKept c o sourceHash approval ts := by
  intro hunwritten
  obtain ⟨j, hrecorded, hhonoured⟩ := (run_decides c o sourceHash approval
    (g := Guard.init c (World.init (Db.empty.run ts))) rfl ⟨rfl, rfl, rfl, rfl, rfl⟩).1 result
      hreturns d hdecided
  obtain ⟨hnone, hsome⟩ := hhonoured hclock
  constructor
  · intro k r hk hwith hne
    obtain ⟨k', hk', -, hreason⟩ := hrecorded.consistent
    cases hk.symm.trans hk'
    rw [hrecorded.journaled, hsome r (hreason r hwith) hne hunwritten]
  · intro d' hd' _ hreason _ _ _ hjournaled
    cases hdecided.symm.trans hd'
    exact hnone hreason (Option.some.inj (hrecorded.journaled.symm.trans hjournaled))

/-- Every run: if it returns, and it had decided, then the cause is kept unless a later reading of the
clock was late. -/
theorem run_keeps_cause (sourceHash : Str) (approval : Json) (ts : List Txn) :
    Yields (run c o sourceHash approval) (Guard.init c (World.init (Db.empty.run ts)))
      (fun _ g => ∀ d, g.world.decided = some d → Clocked c o d → CauseKept c o sourceHash approval ts)
      fun _ _ => True := by
  refine ⟨fun result hreturns d hdecided hclock => ?_, fun _ _ => trivial⟩
  exact recorded_cause_kept c o sourceHash approval ts hreturns hdecided hclock

end Journaled

end ResidualHarness.Factory
