import ResidualHarness.Attempts.Accounting
import ResidualHarness.Attempts.RuntimeSteps

/-!
# The guard of a run

What the later steps of a run and of the other threads keep (`Along`, `Onward`, `Firm`), which programs
leave the guard running where they return (`Stays`), and what its calls raise while the clock is in
time (`Punctual`).
-/

set_option autoImplicit false

namespace ResidualHarness.Factory

open Python Core

variable [FloatModel] (c : CheckedContract)

/-! ## What later steps keep -/

/-- The process, later: its reason is not replaced, and a reap is not undone. -/
structure Control.Later (k k' : Control) : Prop where
  reason : ∀ r, k.reason = some r → k'.reason = some r
  reaped : k.reaped = true → k'.reaped = true ∧ k'.reapedWith = k.reapedWith

theorem Control.Later.refl (k : Control) : k.Later k := ⟨fun _ h => h, fun h => ⟨h, rfl⟩⟩

theorem Control.Later.trans {k₁ k₂ k₃ : Control} (h : k₁.Later k₂) (h' : k₂.Later k₃) :
    k₁.Later k₃ := by
  refine ⟨fun r hr => h'.reason r (h.reason r hr), ?_⟩
  intro hr
  obtain ⟨hr₂, hw₂⟩ := h.reaped hr
  obtain ⟨hr₃, hw₃⟩ := h'.reaped hr₂
  exact ⟨hr₃, hw₃.trans hw₂⟩

theorem Control.later_record (k : Control) (r : Reason) : k.Later (k.record r) := by
  unfold Control.record
  split
  · exact .refl k
  · rename_i hk
    refine ⟨?_, fun h => ⟨h, rfl⟩⟩
    intro s hs
    cases hk.symm.trans hs

theorem Control.later_request (k : Control) (r : Reason) : k.Later (k.request r) := by
  unfold Control.request
  split
  · exact .refl k
  · exact k.later_record r

theorem Control.later_reap (k : Control) : k.Later k.reap.2 := by
  unfold Control.reap
  split
  · exact .refl k
  · rename_i hr
    split
    · exact ⟨fun _ h => h, fun h => absurd h hr⟩
    · exact .refl k

/-- What the run has decided and journaled stays, time goes on, and lost writes stay lost. A deferred
reap may still journal its end. -/
structure Along (w w' : World) : Prop where
  time : w.time ≤ w'.time
  unwritten : w.unwritten ≤ w'.unwritten
  status : w'.status = w.status
  why : w'.why = w.why
  finished : w'.finished = w.finished
  decided : w'.decided = w.decided
  deferred : w.deferred = none → w'.deferred = none ∧ w'.journaled = w.journaled

theorem Along.trans {w₁ w₂ w₃ : World} (h : Along w₁ w₂) (h' : Along w₂ w₃) : Along w₁ w₃ where
  time := le_trans h.time h'.time
  unwritten := le_trans h.unwritten h'.unwritten
  status := h'.status.trans h.status
  why := h'.why.trans h.why
  finished := h'.finished.trans h.finished
  decided := h'.decided.trans h.decided
  deferred := by
    intro hd
    obtain ⟨hd₂, hj₂⟩ := h.deferred hd
    obtain ⟨hd₃, hj₃⟩ := h'.deferred hd₂
    exact ⟨hd₃, hj₃.trans hj₂⟩

/-- The process is still there, later. -/
def Held (w w' : World) : Prop :=
  ∀ k, w.control = some k → ∃ k', w'.control = some k' ∧ k.Later k'

theorem Held.trans {w₁ w₂ w₃ : World} (h : Held w₁ w₂) (h' : Held w₂ w₃) : Held w₁ w₃ := by
  intro k hk
  obtain ⟨k₂, hk₂, hl₂⟩ := h k hk
  obtain ⟨k₃, hk₃, hl₃⟩ := h' k₂ hk₂
  exact ⟨k₃, hk₃, hl₂.trans hl₃⟩

/-- What every step after the launch keeps. -/
structure Onward (w w' : World) : Prop extends Along w w' where
  held : Held w w'

theorem Onward.refl (w : World) : Onward w w :=
  ⟨⟨le_refl _, le_refl _, rfl, rfl, rfl, rfl, fun h => ⟨h, rfl⟩⟩, fun k hk => ⟨k, hk, .refl k⟩⟩

theorem Onward.trans {w₁ w₂ w₃ : World} (h : Onward w₁ w₂) (h' : Onward w₂ w₃) : Onward w₁ w₃ :=
  ⟨h.toAlong.trans h'.toAlong, h.held.trans h'.held⟩

/-- A world that differs in the process, the threads and the journal only. -/
theorem onward_of {w w' : World} (h : (w'.time, w'.unwritten, w'.status, w'.why, w'.finished,
      w'.decided, w'.deferred, w'.journaled) =
    (w.time, w.unwritten, w.status, w.why, w.finished, w.decided, w.deferred, w.journaled))
    {f : Control → Control} (hf : ∀ k : Control, k.Later (f k)) (hc : w'.control = w.control.map f) :
    Onward w w' := by
  simp only [Prod.mk.injEq] at h
  obtain ⟨htime, hunwritten, hstatus, hwhy, hfinished, hdecided, hdeferred, hjournaled⟩ := h
  exact ⟨⟨htime.ge, hunwritten.ge, hstatus, hwhy, hfinished, hdecided,
    fun h => ⟨hdeferred.trans h, hjournaled⟩⟩, fun k hk => ⟨f k, by rw [hc, hk]; rfl, hf k⟩⟩

/-- A world that differs in the threads and the journal only. -/
theorem onward_frame {w w' : World} (h : (w'.time, w'.unwritten, w'.status, w'.why, w'.finished,
      w'.decided, w'.deferred, w'.journaled) =
    (w.time, w.unwritten, w.status, w.why, w.finished, w.decided, w.deferred, w.journaled))
    (hc : w'.control = w.control) : Onward w w' :=
  onward_of h .refl (hc.trans Option.map_id'.symm)

theorem onward_reap (w : World) : Onward w w.reap.2 := by
  rw [World.reap]
  cases hk : w.control with
  | none => exact .refl w
  | some k => exact onward_of rfl Control.later_reap (by rw [hk]; rfl)

theorem onward_envStep (w : World) (step : EnvStep) : Onward w (w.envStep c step) := by
  cases step with
  | exit =>
      exact onward_of (f := fun k => { k with exited := true }) rfl
        (fun _ => ⟨fun _ h => h, fun h => ⟨h, rfl⟩⟩) rfl
  | watch cause =>
      rw [World.envStep]
      split
      · exact onward_of rfl (fun k => k.later_request cause.reason) rfl
      · exact .refl w
  | watchStep =>
      rw [World.envStep]
      split
      · rename_i k _
        cases k with
        | reaping =>
            rw [World.watchNext]
            split
            · exact (onward_reap w).trans (onward_frame rfl rfl)
            · exact onward_frame rfl rfl
        | timedOut => exact onward_of rfl (fun k => k.later_record _) rfl
        | _ => exact onward_frame rfl rfl
      · exact .refl w
  | cancel => exact onward_frame rfl rfl
  | cancelStep i stamp commits readable =>
      rw [World.envStep]
      cases w.cancels[i]? with
      | none => exact .refl w
      | some k =>
          cases k with
          | found => exact onward_of rfl (fun k => k.later_request _) rfl
          | reaping =>
              dsimp only [World.cancelNext]
              split
              · exact (onward_reap w).trans (onward_frame rfl rfl)
              · exact onward_frame rfl rfl
          | timedOut => exact onward_of rfl (fun k => k.later_record _) rfl
          | killed =>
              dsimp only [World.cancelNext, World.cancelRevoke]
              split <;> split <;> exact onward_frame rfl rfl
          | judged own =>
              dsimp only [World.cancelNext]
              split <;> exact onward_frame rfl rfl
          | _ => exact onward_frame rfl rfl
  | recoverReap =>
      rw [World.envStep]
      split
      · exact onward_reap w
      · exact .refl w
  | recover stamp closes commits =>
      rw [World.envStep, World.recover]
      -- only a deferred reap does anything here
      cases hd : w.deferred with
      | none => exact .refl w
      | some d =>
          have hany : ∀ {w' : World}, (w'.time, w'.unwritten, w'.status, w'.why, w'.finished,
              w'.decided, w'.control) = (w.time, w.unwritten, w.status, w.why, w.finished,
              w.decided, w.control) → Onward w w' := by
            intro w' h
            simp only [Prod.mk.injEq] at h
            obtain ⟨h1, h2, h3, h4, h5, h6, h7⟩ := h
            refine ⟨⟨h1.ge, h2.ge, h3, h4, h5, h6, fun h => ?_⟩, fun k hk => ⟨k, h7.trans hk, .refl k⟩⟩
            cases hd.symm.trans h
          dsimp only
          split
          · split
            · split <;> exact hany rfl
            · exact hany rfl
          · exact .refl w

theorem respected_onward : Respected c Onward where
  refl := .refl
  trans := .trans
  env := onward_envStep c
  tick := fun w => { Onward.refl w with time := Nat.le_succ _ }
  lost := fun w => { Onward.refl w with unwritten := Nat.le_succ _ }
  request := fun _ r => onward_of rfl (fun k => k.later_request r) rfl
  reapTimedOut := fun _ => onward_of rfl (fun k => k.later_record _) rfl
  reap := onward_reap
  commit := fun _ _ _ => onward_frame rfl rfl
  aside := fun _ _ h => onward_frame (by rw [h.time, h.unwritten, h.status, h.why, h.finished,
    h.decided, h.deferred, h.journaled]) h.control

variable {c} in
/-- A coarser relation is respected, if it is one between the ends of a sequence. -/
theorem Respected.imp {P Q : World → World → Prop} (hP : Respected c P)
    (himp : ∀ {w w'}, P w w' → Q w w') (htrans : ∀ {w₁ w₂ w₃}, Q w₁ w₂ → Q w₂ w₃ → Q w₁ w₃) :
    Respected c Q where
  refl := fun w => himp (hP.refl w)
  trans := htrans
  env := fun w step => himp (hP.env w step)
  tick := fun w => himp (hP.tick w)
  lost := fun w => himp (hP.lost w)
  request := fun w r => himp (hP.request w r)
  reapTimedOut := fun w => himp (hP.reapTimedOut w)
  reap := fun w => himp (hP.reap w)
  commit := fun w db h => himp (hP.commit w db h)
  aside := fun w w' h => himp (hP.aside w w' h)

theorem respected_along : Respected c Along :=
  (respected_onward c).imp Onward.toAlong Along.trans

/-- The part of this that also holds where the run says how it ends. -/
structure Firm (w w' : World) : Prop where
  held : Held w w'
  decided : w'.decided = w.decided
  finished : w'.finished = w.finished
  deferred : w.deferred = none → w'.deferred = none

theorem respected_firm : Respected c Firm :=
  (respected_onward c).imp (fun h => ⟨h.held, h.decided, h.finished, fun hd => (h.deferred hd).1⟩)
    fun h h' => ⟨h.held.trans h'.held, h'.decided.trans h.decided, h'.finished.trans h.finished,
      fun hd => h'.deferred (h.deferred hd)⟩

theorem settable_firm : Settable Firm := fun _ _ _ _ =>
  ⟨fun k hk => ⟨k, hk, .refl k⟩, rfl, rfl, id⟩

/-- The rule for sequences, with a relation that the first program carries. -/
theorem carried_bind {α β : Type} {m : Guarded World α} {f : α → Guarded World β} {g : Guard World}
    {Q : World → World → Prop} {p : α → Guard World → Prop} {post : β → Guard World → Prop}
    {err : Raised → Guard World → Prop} (hQ : Carries Q m) (hm : Yields m g p fun _ _ => True)
    (herr : ∀ e g', Q g.world g'.world → err e g')
    (hf : ∀ a g', Q g.world g'.world → p a g' → Yields (f a) g' post err) :
    Yields (m >>= f) g post err :=
  yields_bind (p := fun a g' => Q g.world g'.world ∧ p a g')
    ⟨fun a hr => ⟨hQ g, hm.1 a hr⟩, fun e _ => herr e _ (hQ g)⟩ fun a g' h => hf a g' h.1 h.2

/-! ## A guard that goes on -/

/-- The guard still runs, since the same time and under the same contract. -/
def Alive (g g' : Guard World) : Prop :=
  g'.state = .running ∧ g'.started = g.started ∧ g'.contract = g.contract

/-- The guard of a running attempt still runs where the program returns. -/
def Stays {α : Type} (m : Guarded World α) : Prop :=
  ∀ g, g.state = .running → Yields m g (fun _ g' => Alive g g') fun _ _ => True

section Stays

variable {α β : Type}

theorem stays_pure (a : α) : Stays (pure a : Guarded World α) := fun _ h =>
  yields_pure ⟨h, rfl, rfl⟩

theorem stays_raise (e : Raised) : Stays (Prog.raise e : Guarded World α) := fun _ _ =>
  yields_raise trivial

theorem stays_bind {m : Guarded World α} {f : α → Guarded World β} (hm : Stays m)
    (hf : ∀ a, Stays (f a)) : Stays (m >>= f) := by
  intro g hg
  apply yields_bind (hm g hg)
  rintro a g₁ ⟨hst, hstarted, hcontract⟩
  refine (hf a g₁ hst).conseq ?_ fun _ _ h => h
  rintro b g₂ ⟨hst₂, hstarted₂, hcontract₂⟩
  exact ⟨hst₂, hstarted₂.trans hstarted, hcontract₂.trans hcontract⟩

theorem stays_read_bind {f : Guard World → Guarded World β} (hf : ∀ g, Stays (f g)) :
    Stays (Prog.read >>= f) := fun g hg => hf g g hg

theorem stays_change (f : World → World) : Stays (change f) := fun _ hg =>
  ⟨fun _ _ => ⟨hg, rfl, rfl⟩, nofun⟩

theorem stays_write {f : Guard World → Guard World}
    (hf : ∀ g, (f g).state = g.state ∧ (f g).started = g.started ∧ (f g).contract = g.contract) :
    Stays (Prog.write f) := by
  intro g hg
  obtain ⟨hst, hstarted, hcontract⟩ := hf g
  exact ⟨fun _ _ => ⟨hst.trans hg, hstarted, hcontract⟩, nofun⟩

/-- A violation never returns. -/
theorem stays_violate (h : Hooks World) (boundary field : Str) (action : Value) :
    Stays (violate h boundary field action) := fun _ _ =>
  ⟨fun a ha => ((violate_ends h boundary field action).2.1 a ha).elim, fun _ _ => trivial⟩

theorem stays_emit (h : Hooks World) (event : Str) (data : GuardEvent) :
    Stays (emit h event data) := by
  intro g hg
  refine ⟨?_, fun _ _ => trivial⟩
  intro a ha
  obtain ⟨w, he⟩ := (emit_ends h event data).2.1 a ha
  rw [he]
  exact ⟨hg, rfl, rfl⟩

/-- The guard itself is as it was where the program returns. -/
def Outer (m : Guarded World α) : Prop :=
  ∀ g, Yields m g (fun _ g' => ∃ w, g' = { g with world := w }) fun _ _ => True

theorem Outer.stays {m : Guarded World α} (h : Outer m) : Stays m := by
  intro g hg
  refine (h g).conseq ?_ fun _ _ _ => trivial
  rintro a g' ⟨w, rfl⟩
  exact ⟨hg, rfl, rfl⟩

theorem Outer.contract {c : CheckedContract} {m : Guarded World α} (h : Outer m) {g : Guard World}
    (hg : g.contract = c) : Yields m g (fun _ g' => g'.contract = c) fun _ _ => True := by
  refine (h g).conseq ?_ fun _ _ _ => trivial
  rintro a g' ⟨w, rfl⟩
  exact hg

variable (o : Outside)

theorem outer_access : Outer (access c o) := fun _ => ⟨fun _ _ => ⟨_, rfl⟩, fun _ _ => trivial⟩

theorem outer_system : Outer (system c o) := by
  intro g
  apply yields_bind (outer_access c o g)
  rintro w g' ⟨w', rfl⟩
  split
  · exact yields_pure ⟨w', rfl⟩
  · exact yields_raise trivial
  · exact yields_raise trivial

theorem outer_transaction (body : Stamp → Db → Except PyExn Db) :
    Outer (transaction c o body) := by
  intro g
  refine (transaction_yields c o body g).conseq ?_ fun _ _ _ => trivial
  rintro - g' ⟨db, -, rfl⟩
  exact ⟨_, rfl⟩

theorem outer_hashOf : Outer (hashOf c) := by
  intro g
  unfold hashOf
  split
  · exact yields_pure ⟨g.world, rfl⟩
  · exact yields_raise trivial

theorem stays_leaseRead (detail : String) : Stays (leaseRead c o detail) := by
  apply stays_bind (outer_access c o).stays
  intro w
  split
  · exact stays_raise _
  · exact stays_pure _
  · exact stays_pure _
  · exact stays_pure _

theorem stays_leaseReads (detail : String) (retries : Nat) :
    Stays (leaseReads c o detail retries) := by
  induction retries with
  | zero =>
      apply stays_bind (stays_leaseRead c o detail)
      intro r
      split
      · exact stays_pure _
      · exact stays_read_bind fun _ => stays_pure _
  | succ retries ih =>
      apply stays_bind (stays_leaseRead c o detail)
      intro r
      split
      · exact stays_pure _
      · exact ih

variable [FloatArith]

theorem stays_active (h : Hooks World) : Stays (active h) := by
  intro g hg
  refine ⟨?_, fun _ _ => trivial⟩
  intro a ha
  obtain ⟨-, -, w, he⟩ := (active_ends h).2.1 a ha
  rw [he]
  exact ⟨hg, rfl, rfl⟩

theorem stays_failWith (r : Reason) : Stays (failWith c o r) :=
  stays_bind (stays_active _) fun _ => stays_violate _ _ _ _

theorem stays_failOn (reason : Option Reason) : Stays (failOn c o reason) := by
  unfold failOn
  split
  · exact stays_failWith c o _
  · exact stays_pure _

theorem stays_refuse (condition : Prop) [Decidable condition] (r : Reason) :
    Stays (refuse c o condition r) := by
  unfold refuse
  split
  · exact stays_failWith c o _
  · exact stays_pure _

theorem stays_authorizeTool (h : Hooks World) (text : Value → Str) (tool : Value) :
    Stays (authorizeTool h text tool) := by
  apply stays_bind (stays_active h)
  intro _
  apply stays_read_bind
  intro g
  split
  · exact stays_violate _ _ _ _
  · refine stays_bind (stays_write fun _ => ?_) fun _ => ?_
    · exact ⟨rfl, rfl, rfl⟩
    apply stays_read_bind
    intro g'
    split
    · exact stays_violate _ _ _ _
    · exact stays_emit _ _ _

theorem stays_authorizePath (h : Hooks World) (text : Value → Str) (path write : Value) :
    Stays (authorizePath h text path write) := by
  apply stays_bind (stays_active h)
  intro _
  apply stays_read_bind
  intro g
  split
  · exact stays_violate _ _ _ _
  · split
    · refine stays_bind (stays_write fun _ => ?_) fun _ => ?_
      · exact ⟨rfl, rfl, rfl⟩
      apply stays_read_bind
      intro g'
      split
      · exact stays_violate _ _ _ _
      · exact stays_emit _ _ _
    · exact stays_emit _ _ _

theorem stays_checkLease (detail : String) : Stays (checkLease c o detail) := by
  apply stays_bind (outer_system c o).stays
  intro _
  apply stays_bind (outer_access c o).stays
  intro w
  apply stays_bind (stays_leaseReads c o detail _)
  intro denial
  exact stays_failOn c o denial

theorem stays_dispatch (operation : Str) (arguments : Fields) (file : Option Str) :
    Stays (dispatch c o operation arguments file) := by
  apply stays_bind (stays_authorizeTool _ _ _)
  intro _
  apply stays_bind (stays_refuse c o _ _)
  intro _
  apply stays_bind (stays_authorizePath _ _ _ _)
  intro _
  apply stays_bind
  · apply stays_bind (stays_active _)
    intro _
    apply stays_bind (outer_access c o).stays
    intro w
    apply stays_bind (stays_failOn c o _)
    intro _
    exact stays_checkLease c o _
  intro _
  exact stays_failOn c o _

theorem stays_greet (fields : Fields) (full : Bool) : Stays (greet c o fields full) := by
  apply stays_bind (stays_refuse c o _ _)
  intro _
  apply stays_bind (outer_hashOf c).stays
  intro hash
  apply stays_bind (outer_access c o).stays
  intro w
  apply stays_bind (outer_transaction c o _).stays
  intro _
  exact stays_refuse c o _ _

theorem stays_receive (s : Session) (value : Option Json) (full : Bool) (file : Option Str) :
    Stays (receive c o s value full file) := by
  unfold receive
  split
  · split
    · exact stays_bind (stays_greet c o _ _) fun _ => stays_pure _
    · split
      · exact stays_bind (stays_failWith c o _) fun _ => stays_pure _
      · apply stays_bind (stays_checkLease c o _)
        intro _
        apply stays_bind
        · unfold serve
          split
          · exact stays_refuse c o _ _
          · exact stays_dispatch c o _ _ _
        intro _
        exact stays_bind (stays_refuse c o _ _) fun _ => stays_pure _
  · exact stays_bind (stays_failWith c o _) fun _ => stays_pure _

theorem stays_arriveAll (s : Session) (arrivals : List Arrival) :
    Stays (arriveAll c o s arrivals) := by
  induction arrivals generalizing s with
  | nil => exact stays_pure _
  | cons a rest ih =>
      refine stays_bind ?_ fun t => ih t
      cases a with
      | failed result =>
          cases result with
          | returned => exact stays_pure _
          | raised e => exact stays_raise _
          | aborted => exact stays_raise _
      | tooLong field bytes => exact stays_bind (stays_failWith c o _) fun _ => stays_pure _
      | line value full file => exact stays_receive c o s value full file

theorem stays_exchange (s : Session) (rounds : List (List Arrival)) :
    Stays (exchange c o s rounds) := by
  induction rounds generalizing s with
  | nil => exact stays_bind (stays_refuse c o _ _) fun _ => stays_pure _
  | cons round rest ih =>
      apply stays_bind (outer_access c o).stays
      intro w
      split
      · exact stays_pure _
      · exact stays_bind (stays_arriveAll c o s round) fun t => ih t

end Stays

/-! ## Calls of the guard in time -/

section InTime

variable (o : Outside) {α : Type}

theorem advance_time (w : World) : w.time < (w.advance c o).time :=
  (envSteps_respects c (respected_along c) { w with time := w.time + 1 } _).time

/-- An exception that names no violated field. -/
def NoViolation (e : Raised) : Prop := ∀ f, e ≠ .violation f

theorem jsonFields_canonical {event : GuardEvent} {fields : Fields}
    (h : jsonFields event = .ok fields) (hd : ∀ kv ∈ fields, kv.2.dumpable = true) :
    ∃ texts, mapE (fun kv : Str × Value => kv.2.canonical) event = .ok texts := by
  induction event generalizing fields with
  | nil => exact ⟨[], rfl⟩
  | cons kv event ih =>
      rw [jsonFields, mapE] at h
      obtain ⟨field, hfield, h⟩ := bind_eq_ok.1 h
      obtain ⟨rest, hrest, h⟩ := bind_eq_ok.1 h
      cases h
      obtain ⟨texts, htexts⟩ := ih hrest fun kv' hkv' => hd kv' (List.mem_cons_of_mem _ hkv')
      obtain ⟨key, value⟩ := kv
      cases value with
      | object => cases hfield
      | json v =>
          cases hfield
          have hv := canonical_of_dumpable (hd _ List.mem_cons_self)
          refine ⟨v.render :: texts, ?_⟩
          rw [mapE, htexts]
          exact bind_eq_ok.2 ⟨v.render, hv, rfl⟩

theorem violationError_of_append {event : GuardEvent} {field : Str} {stamp : Stamp} {db db' : Db}
    (h : appendEvent event stamp db = .ok db') : violationError event field = .violation field := by
  obtain ⟨fields, hfields, h⟩ := bind_eq_ok.1 h
  rw [Db.append] at h
  obtain ⟨text, htext, -⟩ := bind_eq_ok.1 h
  have hdump := (dumpable_of_canonical htext).1
  rw [Json.dumpable, Json.dumpableFields_iff] at hdump
  obtain ⟨texts, htexts⟩ := jsonFields_canonical hfields hdump
  rw [violationError, htexts]

theorem violationError_field {event : GuardEvent} {field f : Str}
    (h : violationError event field = .violation f) : f = field := by
  rw [violationError] at h
  split at h
  · cases h
  · cases h
    rfl

theorem observeHook_yields (event : Str) (fields : GuardEvent) (g : Guard World) :
    Yields (observeHook (hooks c o) event fields) g
      (fun r g' => (r = .returned ∧ ∃ stamp db db', appendEvent fields stamp db = .ok db') ∨
        (∃ e, r = .raised e) ∧ 0 < g'.world.unwritten)
      fun _ _ => False := by
  apply yields_read_bind
  apply yields_write_bind
  apply yields_pure
  rcases transact_cases c o g.world (appendEvent fields) with ⟨db, hb, ht⟩ | ⟨e, ht⟩
  · left
    exact ⟨by simp only [hooks, ht], _, _, db, hb⟩
  · right
    refine ⟨⟨e, by simp only [hooks, ht]⟩, ?_⟩
    simp only [hooks, ht]
    exact Nat.succ_pos _

theorem terminateHook_yields (g : Guard World) :
    Yields (terminateHook (hooks c o)) g
      (fun r g' => r = .returned ∧ ∃ w, g' = { g with world := w }) fun _ _ => False :=
  ⟨fun _ hr => ⟨(Except.ok.inj hr).symm, _, rfl⟩, nofun⟩

theorem auditFailure_yields (e : PyExn) (g : Guard World) :
    Yields (auditFailure (hooks c o) e) g (fun _ _ => False) fun e _ => NoViolation e := by
  apply yields_write_bind
  apply yields_bind ((terminateHook_yields c o _).conseq (fun _ _ h => h) fun _ _ h => h.elim)
  rintro r g' ⟨rfl, -⟩
  exact yields_raise nofun

theorem emit_yields (event : Str) (data : GuardEvent) (g : Guard World) :
    Yields (emit (hooks c o) event data) g (fun _ _ => True) fun e _ => NoViolation e := by
  have haudit : ∀ e g', Yields (auditFailure (hooks c o) e) g' (fun _ _ => True)
      fun e _ => NoViolation e :=
    fun e g' => (auditFailure_yields c o e g').conseq (fun _ _ _ => trivial) fun _ _ h => h
  apply yields_read_bind
  split
  · exact haudit _ g
  · apply yields_bind ((observeHook_yields c o _ _ g).conseq (fun _ _ h => h) fun _ _ h => h.elim)
    rintro r g' (⟨rfl, -⟩ | ⟨⟨e, rfl⟩, -⟩)
    · exact yields_pure trivial
    · exact haudit e g'

/-- A violation names its field, unless its event cannot be written. -/
theorem violate_yields (boundary field : Str) (action : Value) (g : Guard World) :
    Yields (violate (hooks c o) boundary field action) g (fun _ _ => False) fun e g' =>
      (∀ f, e = .violation f → f = field) ∧
        ((∃ hash, g.contract.contractHash = .ok hash) → g'.world.unwritten = 0 →
          e = .violation field) := by
  apply yields_write_bind
  apply yields_read_bind
  split
  · rename_i e he
    apply yields_raise
    refine ⟨nofun, ?_⟩
    rintro ⟨hash, hh⟩
    rw [Guard.event] at he
    dsimp only at he
    rw [hh] at he
    cases he
  · apply yields_bind ((terminateHook_yields c o _).conseq (fun _ _ h => h) fun _ _ h => h.elim)
    rintro r g₁ ⟨rfl, w, rfl⟩
    dsimp only
    rw [if_neg nofun]
    apply yields_bind ((observeHook_yields c o _ _ _).conseq (fun _ _ h => h) fun _ _ h => h.elim)
    rintro r g₂ hr
    have hnot : r ≠ .aborted := by
      rcases hr with ⟨rfl, -⟩ | ⟨⟨e, rfl⟩, -⟩ <;> nofun
    rw [if_neg hnot]
    apply yields_raise
    refine ⟨fun f hf => violationError_field hf, ?_⟩
    intro _ hunwritten
    rcases hr with ⟨-, stamp, db, db', happend⟩ | ⟨-, hlost⟩
    · exact violationError_of_append happend
    · omega

theorem cancel_yields (g : Guard World) :
    Yields (cancel (hooks c o)) g (fun _ _ => True) fun e _ => NoViolation e := by
  apply yields_read_bind
  split
  · exact yields_pure trivial
  · apply yields_write_bind
    apply yields_bind ((terminateHook_yields c o _).conseq (fun _ _ h => h) fun _ _ h => h.elim)
    rintro r g₁ ⟨rfl, -⟩
    apply yields_bind (emit_yields c o _ _ g₁)
    intro _ g₂ _
    exact yields_pure trivial

theorem system_yields (g : Guard World) :
    Yields (system c o) g (fun _ _ => True) fun e _ => NoViolation e := by
  apply yields_bind (p := fun _ _ => True) ⟨fun _ _ => trivial, nofun⟩
  intro w g' _
  split
  · exact yields_pure trivial
  · exact yields_raise nofun
  · exact yields_raise nofun

/-- The fields for which a lease is denied. -/
def Denial (r : Reason) : Prop := r.field = lit "lease_generation" ∨ r.field = lit "lease_unreadable"

theorem leaseRead_yields (detail : String) (g : Guard World) :
    Yields (leaseRead c o detail) g (fun d _ => ∀ r, d = some (some r) → Denial r)
      fun e _ => NoViolation e := by
  apply yields_bind (p := fun _ _ => True) ⟨fun _ _ => trivial, nofun⟩
  intro w g' _
  split
  · exact yields_raise nofun
  · exact yields_pure nofun
  · apply yields_pure
    intro r hr
    cases hr
    exact Or.inl rfl
  · exact yields_pure nofun

theorem leaseReads_yields (detail : String) (retries : Nat) (g : Guard World) :
    Yields (leaseReads c o detail retries) g (fun d _ => ∀ r, d = some r → Denial r)
      fun e _ => NoViolation e := by
  induction retries generalizing g with
  | zero =>
      apply yields_bind (leaseRead_yields c o detail g)
      intro d g' hd
      split
      · exact yields_pure fun r hr => hd r (congrArg some hr)
      · apply yields_read_bind
        apply yields_pure
        intro r hr
        cases hr
        exact Or.inr rfl
  | succ retries ih =>
      apply yields_bind (leaseRead_yields c o detail g)
      intro d g' hd
      split
      · exact yields_pure fun r hr => hd r (congrArg some hr)
      · exact ih g'

variable [FloatArith]

/-- A reading of the clock that passes the check of the guard. -/
def InTime (started : Option FloatModel.F) (r : Reading) : Prop :=
  ∃ v now s, r = .value v ∧ numberOf v = some now ∧ started = some s ∧ floatLe s now = true ∧
    floatLe c.wallClockBudgetS (FloatArith.sub now s) = false

/-- A guard that runs, and all of whose later readings are in time. -/
structure Punctual (g : Guard World) : Prop where
  running : g.state = .running
  contract : g.contract = c
  clock : ∀ n, g.world.time < n → InTime c g.started (o.clock n)

theorem Punctual.alive {g g' : Guard World} (h : Punctual c o g) (ha : Alive g g')
    (hw : Along g.world g'.world) : Punctual c o g' := by
  obtain ⟨hst, hstarted, hcontract⟩ := ha
  refine ⟨hst, hcontract.trans h.contract, ?_⟩
  intro n hn
  rw [hstarted]
  exact h.clock n (lt_of_le_of_lt hw.time hn)

theorem active_yields {g : Guard World} (h : Punctual c o g) :
    Yields (active (hooks c o)) g (fun _ g' => g' = { g with world := g.world.advance c o })
      fun _ _ => False := by
  obtain ⟨v, now, s, hv, hnow, hs, hle, hdue⟩ := h.clock _ (advance_time c o g.world)
  apply yields_read_bind
  rw [if_neg (not_not.2 h.running)]
  apply yields_bind (p := fun r g' => r = some now ∧ g' = { g with world := g.world.advance c o })
  · apply yields_read_bind
    apply yields_write_bind
    simp only [hooks, hv]
    exact yields_pure ⟨hnow, rfl⟩
  · rintro r g' ⟨rfl, rfl⟩
    rw [hs]
    apply yields_read_bind
    dsimp only
    rw [if_neg (by rw [hle]; intro hc; cases hc), h.contract,
      if_neg (by rw [hdue]; intro hc; cases hc)]
    exact yields_pure rfl

/-- A failure in time names its own field. -/
theorem failWith_yields (r : Reason) {g : Guard World} (h : Punctual c o g) :
    Yields (failWith c o r) g (fun _ _ => False) fun e g' =>
      (∀ f, e = .violation f → f = r.field) ∧
        ((∃ hash, c.contractHash = .ok hash) → g'.world.unwritten = 0 →
          e = .violation r.field) := by
  apply yields_bind ((active_yields c o h).conseq (fun _ _ hg => hg) fun _ _ hf => hf.elim)
  rintro - g' rfl
  refine (violate_yields c o _ _ _ _).conseq (fun _ _ hf => hf) ?_
  rintro e g' ⟨hfield, hsure⟩
  refine ⟨hfield, ?_⟩
  rintro ⟨hash, hh⟩
  apply hsure
  exact ⟨hash, by rw [show g.contract = c from h.contract]; exact hh⟩

/-- The field of the clock. -/
def wallClock : Str := lit "wall_clock_budget_s"

/-- An exception that does not blame the clock. -/
def NotLate (e : Raised) : Prop := e ≠ .violation wallClock

omit [FloatModel] [FloatArith] in
theorem NoViolation.notLate {e : Raised} (h : NoViolation e) : NotLate e := h wallClock

/-- A program that leaves the guard running, and then another one. -/
theorem punctual_bind {β : Type} {m : Guarded World α} {f : α → Guarded World β}
    {p : α → Guard World → Prop} {post : β → Guard World → Prop} {g : Guard World}
    (hg : Punctual c o g) (hstays : Stays m) (hcarries : Carries Along m)
    (hm : Yields m g p fun e _ => NotLate e)
    (hf : ∀ a g', Punctual c o g' → p a g' → Yields (f a) g' post fun e _ => NotLate e) :
    Yields (m >>= f) g post fun e _ => NotLate e := by
  apply yields_bind (p := fun a g' => Punctual c o g' ∧ p a g')
  · refine ⟨fun a ha => ⟨?_, hm.1 a ha⟩, hm.2⟩
    exact hg.alive c o ((hstays g hg.running).1 a ha) (hcarries g)
  · rintro a g' ⟨hg', hmid⟩
    exact hf a g' hg' hmid

theorem checkLease_yields (detail : String) {g : Guard World} (h : Punctual c o g) :
    Yields (checkLease c o detail) g (fun _ g' => Punctual c o g') fun e _ => NotLate e := by
  have halong := respected_along c
  apply punctual_bind c o h (outer_system c o).stays (carries_system c halong o)
    ((system_yields c o g).conseq (fun _ _ h => h) fun _ _ he => he.notLate)
  intro _ g₁ h₁ _
  apply punctual_bind c o h₁ (outer_access c o).stays (carries_access c halong o)
    (p := fun _ _ => True) ⟨fun _ _ => trivial, nofun⟩
  intro w g₂ h₂ _
  apply punctual_bind c o h₂ (stays_leaseReads c o detail _) (carries_leaseReads c halong o _ _)
    ((leaseReads_yields c o detail _ g₂).conseq (fun _ _ h => h) fun _ _ he => he.notLate)
  intro denial g₃ h₃ hdenial
  cases denial with
  | none => exact yields_pure h₃
  | some r =>
      refine (failWith_yields c o r h₃).conseq (fun _ _ hf => hf.elim) ?_
      rintro e g' ⟨hfield, -⟩ he
      have hr : wallClock = r.field := hfield wallClock he
      rcases hdenial r rfl with hd | hd
      · rw [hd] at hr
        exact absurd hr (by decide)
      · rw [hd] at hr
        exact absurd hr (by decide)

theorem finish_yields {g : Guard World} (h : Punctual c o g) :
    Yields (finish (hooks c o)) g (fun _ _ => True) fun e _ => NotLate e := by
  apply yields_bind ((active_yields c o h).conseq (fun _ _ hg => hg) fun _ _ hf => hf.elim)
  rintro - g' rfl
  apply yields_read_bind
  split
  · refine (violate_yields c o _ _ _ _).conseq (fun _ _ hf => hf.elim) ?_
    rintro e g' ⟨hfield, -⟩ he
    exact absurd (hfield wallClock he) (by decide)
  · apply yields_bind ((emit_yields c o _ _ _).conseq (fun _ _ h => h) fun _ _ he => he.notLate)
    intro _ g'' _
    exact ⟨fun _ _ => trivial, nofun⟩

theorem judge_returns (reason : Option Reason) (complete : Bool) {g : Guard World}
    (hg : g.world.status = .failed) :
    Yields (judge c o reason complete) g
      (fun _ g' => g'.world.status ≠ .violated ∧
        ∀ r, reason = some r → r.boundary = lit "cancellation")
      fun _ _ => True := by
  have hfail : ∀ r (g : Guard World), Yields (failWith c o r) g (fun _ _ => False) fun _ _ => True := by
    intro r g
    apply yields_bind yields_any
    intro _ g' _
    exact (violate_yields c o _ _ _ g').conseq (fun _ _ h => h) fun _ _ _ => trivial
  unfold judge
  split
  · split
    · rename_i r hr
      apply yields_bind yields_any
      intro _ g₁ _
      refine ⟨fun _ _ => ⟨fun h => (by cases h), ?_⟩, fun _ h => by cases h⟩
      intro s hs
      cases hs
      exact hr
    · exact (hfail _ g).conseq (fun _ _ h => h.elim) fun _ _ _ => trivial
  · split
    · exact yields_raise trivial
    · split
      · exact (hfail _ g).conseq (fun _ _ h => h.elim) fun _ _ _ => trivial
      · split
        · apply yields_write_bind
          refine ⟨fun _ _ => ⟨?_, fun _ h => by cases h⟩, fun _ _ => trivial⟩
          rw [(carries_cancel c (respected_along c) o _).status]
          show g.world.status ≠ .violated
          rw [hg]
          intro h
          cases h
        · apply yields_bind yields_any
          intro _ g₁ _
          apply yields_bind yields_any
          intro _ g₂ _
          apply yields_write_bind
          apply yields_bind yields_any
          intro _ g₃ _
          exact ⟨fun _ _ => ⟨fun h => (by cases h), fun _ h => by cases h⟩, fun _ h => by cases h⟩

theorem judge_raises (reason : Option Reason) (complete : Bool) {g : Guard World}
    (h : Punctual c o g) :
    Yields (judge c o reason complete) g (fun _ _ => True) fun e g' =>
      (reason = none → NotLate e) ∧ ∀ r, reason = some r → r.boundary ≠ lit "cancellation" →
        (∃ hash, c.contractHash = .ok hash) → g'.world.unwritten = 0 → e = .violation r.field := by
  have halong := respected_along c
  cases reason with
  | some r =>
      dsimp only [judge]
      split
      · rename_i hcancel
        refine ⟨fun _ _ => trivial, ?_⟩
        intro e _
        refine ⟨nofun, ?_⟩
        intro s hs hne
        cases hs
        exact absurd hcancel hne
      · refine (failWith_yields c o r h).conseq (fun _ _ hf => hf.elim) ?_
        rintro e g' ⟨-, hsure⟩
        refine ⟨nofun, ?_⟩
        intro s hs _ hhash hunwritten
        cases hs
        exact hsure hhash hunwritten
  | none =>
      suffices hlate : Yields (judge c o none complete) g (fun _ _ => True) fun e _ => NotLate e from
        hlate.conseq (fun _ _ h => h) fun _ _ he => ⟨fun _ => he, nofun⟩
      dsimp only [judge]
      split
      · exact yields_raise nofun
      · split
        · refine (failWith_yields c o _ h).conseq (fun _ _ hf => hf.elim) ?_
          rintro e g' ⟨hfield, -⟩ he
          have hf : wallClock = lit "os_syscall_allowlist" := hfield wallClock he
          exact absurd hf (by decide)
        · split
          · apply yields_write_bind
            exact (cancel_yields c o _).conseq (fun _ _ h => h) fun _ _ he => he.notLate
          · apply yields_bind (checkLease_yields c o _ h)
            intro _ g₁ h₁
            apply punctual_bind c o h₁ (outer_system c o).stays (carries_system c halong o)
              ((system_yields c o g₁).conseq (fun _ _ h => h) fun _ _ he => he.notLate)
            intro _ g₂ h₂ _
            apply yields_write_bind
            refine yields_bind (finish_yields c o ?_) fun _ g₃ _ => ?_
            · exact ⟨h₂.running, h₂.contract, h₂.clock⟩
            · exact ⟨fun _ _ => trivial, nofun⟩

end InTime

end ResidualHarness.Factory
