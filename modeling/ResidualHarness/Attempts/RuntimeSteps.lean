import ResidualHarness.Attempts.Runtime

/-!
# The steps of the factory runtime

What a transaction does to the row of one attempt is said once (`RowStep`). A relation between worlds
that every primitive step respects holds across every program of the runtime (`Respected`,
`Carries`), so an invariant is checked on the primitive steps only.
-/

set_option autoImplicit false

namespace ResidualHarness.Factory

open Python Core

variable [FloatModel]

/-! ## The row of the attempt -/

/-- What one transaction on the attempt does to its row. -/
inductive RowStep : Option Attempt → Option Attempt → Prop
  | same (row : Option Attempt) : RowStep row row
  | claim {r : Attempt} : r.state = .reserved → r.revoked = false → RowStep none (some r)
  | move {r s : Attempt} : RowMove r s → r.state.active = true → RowStep (some r) (some s)

omit [FloatModel] in
theorem attempt_update {db : Db} {attemptId : Str} {f : Attempt → Attempt}
    (hf : ∀ r, (f r).attemptId = r.attemptId) :
    (db.update attemptId f).attempt attemptId = (db.attempt attemptId).map f := by
  rw [Db.attempt, Db.attempt, Db.update]
  induction db.attempts with
  | nil => rfl
  | cons r rows ih =>
      rw [List.map_cons]
      by_cases hid : r.attemptId = attemptId
      · rw [if_pos hid, List.find?_cons_of_pos (by rw [decide_eq_true_iff, hf, hid]),
          List.find?_cons_of_pos (by rw [decide_eq_true_iff, hid])]
        rfl
      · rw [if_neg hid, List.find?_cons_of_neg (by rw [decide_eq_true_iff]; exact hid),
          List.find?_cons_of_neg (by rw [decide_eq_true_iff]; exact hid)]
        exact ih

omit [FloatModel] in
theorem attempt_congr {db db' : Db} (h : db'.attempts = db.attempts) (attemptId : Str) :
    db'.attempt attemptId = db.attempt attemptId := by
  rw [Db.attempt, h]
  rfl

theorem append_row {db db' : Db} {stamp : Stamp} {payload : Fields}
    (h : db.append stamp payload = .ok db') (attemptId : Str) :
    RowStep (db.attempt attemptId) (db'.attempt attemptId) := by
  rw [attempt_congr (append_ok h).1]
  exact .same _

theorem updated_row {db db' : Db} {attemptId : Str} {f : Attempt → Attempt} {stamp : Stamp}
    {payload : Fields} (h : (db.update attemptId f).append stamp payload = .ok db')
    (hf : ∀ r, (f r).attemptId = r.attemptId) {r : Attempt} (hr : db.attempt attemptId = some r) :
    db'.attempt attemptId = some (f r) := by
  rw [attempt_congr (append_ok h).1, attempt_update hf, hr]
  rfl

theorem appendEvent_row {db db' : Db} {stamp : Stamp} {event : GuardEvent}
    (h : appendEvent event stamp db = .ok db') (attemptId : Str) :
    RowStep (db.attempt attemptId) (db'.attempt attemptId) := by
  obtain ⟨fields, -, h⟩ := bind_eq_ok.1 h
  exact append_row h attemptId

theorem claim_rowStep {db db' : Db} {stamp : Stamp} {c : WorkerContract} {sourceHash : Str}
    {approval : Json} (h : db.claim stamp c sourceHash approval = .ok db') :
    RowStep (db.attempt c.attemptId) (db'.attempt c.attemptId) := by
  cases claim_change h with
  | @claim _ _ _ hash json _ hid _ _ ha _ =>
      have hnone : db.attempt c.attemptId = none := by
        rw [Db.attempt, List.find?_eq_none]
        intro r hr
        rw [decide_eq_true_iff]
        exact hid r hr
      have hsome : db'.attempt c.attemptId = some (claimedRow c hash json) := by
        rw [Db.attempt, ha, List.find?_append]
        rw [Db.attempt] at hnone
        rw [hnone, Option.none_or, List.find?_cons_of_pos]
        exact decide_eq_true rfl
      rw [hnone, hsome]
      exact .claim rfl rfl
  | update _ _ hnc => exact absurd rfl (hnc c sourceHash approval)

theorem started_rowStep {db db' : Db} {stamp : Stamp} {c : WorkerContract} {pid : Int}
    (h : db.started stamp c pid = .ok db') :
    RowStep (db.attempt c.attemptId) (db'.attempt c.attemptId) := by
  rw [Db.started] at h
  obtain ⟨_, -, h⟩ := bind_eq_ok.1 h
  cases hr : db.attempt c.attemptId with
  | none =>
      rw [hr] at h
      cases h
  | some r =>
      rw [hr] at h
      dsimp only at h
      split at h
      · rename_i hres
        obtain ⟨hash, -, h⟩ := bind_eq_ok.1 h
        rw [updated_row h (fun _ => rfl) hr]
        refine .move (.start pid hres.1 hres.2) ?_
        rw [hres.1]
        rfl
      · cases h

theorem revoke_rowStep {db db' : Db} {stamp : Stamp} {attemptId : Str}
    (h : db.revoke stamp attemptId = .ok db') :
    RowStep (db.attempt attemptId) (db'.attempt attemptId) ∧
      ∃ r, db'.attempt attemptId = some r ∧ r.revoked = true := by
  rw [Db.revoke] at h
  cases hr : db.attempt attemptId with
  | none =>
      rw [hr] at h
      cases h
  | some r =>
      rw [hr] at h
      dsimp only at h
      split at h
      · rename_i hact
        rw [updated_row h (fun _ => rfl) hr]
        exact ⟨.move (.revoke hact) hact, _, rfl, rfl⟩
      · cases h

omit [FloatModel] in
theorem name_injective {s t : AttemptState} (h : s.name = t.name) : s = t := by
  revert h
  cases s <;> cases t <;> decide

/-- The terminal transaction: the row was active and has the state that was given. -/
theorem finish_rowStep {db db' : Db} {stamp : Stamp} {c : WorkerContract} {status : AttemptState}
    {details : Fields} (h : db.finish stamp c status.name details = .ok db') :
    RowStep (db.attempt c.attemptId) (db'.attempt c.attemptId) ∧
      ∃ r, db'.attempt c.attemptId = some r ∧ r.state = status ∧ r.state.active = false := by
  rw [Db.finish] at h
  cases hf : finishStates.find? fun s => s.name = status.name with
  | none =>
      rw [hf] at h
      cases h
  | some final =>
      rw [hf] at h
      have hmem := List.mem_of_find?_eq_some hf
      have hfinal : final = status := by
        have hname := List.find?_some hf
        exact name_injective (of_decide_eq_true hname)
      subst hfinal
      simp only [bind, Except.bind] at h
      cases hr : db.attempt c.attemptId with
      | none =>
          rw [hr] at h
          cases h
      | some r =>
          rw [hr] at h
          dsimp only at h
          split at h
          · rename_i hact
            split at h
            · cases h
            · rename_i hcand
              split at h
              · cases h
              · rw [updated_row h (fun _ => rfl) hr]
                refine ⟨.move (.finish final hact hmem ?_) hact, _, rfl, rfl,
                  finishStates_not_active hmem⟩
                intro he
                cases hrev : r.revoked with
                | false => rfl
                | true => exact absurd ⟨he, hrev⟩ hcand
          · cases h

/-! ## Relations that every program respects -/

/-- The worlds agree on the journal, the process and the cancellations, on how the run would end, and
on what is kept for the statements. -/
structure Aside (w w' : World) : Prop where
  db : w'.db = w.db
  time : w'.time = w.time
  control : w'.control = w.control
  cancels : w'.cancels = w.cancels
  deferred : w'.deferred = w.deferred
  status : w'.status = w.status
  why : w'.why = w.why
  finished : w'.finished = w.finished
  history : w'.history = w.history
  journaled : w'.journaled = w.journaled
  unwritten : w'.unwritten = w.unwritten
  decided : w'.decided = w.decided

section Programs

variable (c : CheckedContract)

/-- A relation between worlds that every primitive step respects. -/
structure Respected (Q : World → World → Prop) : Prop where
  refl : ∀ w, Q w w
  trans : ∀ {w₁ w₂ w₃}, Q w₁ w₂ → Q w₂ w₃ → Q w₁ w₃
  env : ∀ w step, Q w (w.envStep c step)
  tick : ∀ w, Q w { w with time := w.time + 1 }
  lost : ∀ w, Q w { w with unwritten := w.unwritten + 1 }
  request : ∀ w r, Q w (w.controlled fun k => k.request r)
  reapTimedOut : ∀ w, Q w (w.controlled Control.reapTimedOut)
  reap : ∀ w, Q w w.reap.2
  commit : ∀ w db, RowStep (w.row c) (db.attempt c.attemptId) → Q w (w.commit c db)
  aside : ∀ w w', Aside w w' → Q w w'

/-- The relation holds between the worlds before and after the program. -/
def Carries (Q : World → World → Prop) {α : Type} (m : Guarded World α) : Prop :=
  ∀ g, Q g.world (m g).state.world

variable {Q : World → World → Prop} (hQ : Respected c Q) {α β : Type}
include hQ

theorem carries_pure (a : α) : Carries Q (pure a : Guarded World α) := fun g => hQ.refl g.world

theorem carries_raise (e : Raised) : Carries Q (Prog.raise e : Guarded World α) :=
  fun g => hQ.refl g.world

theorem carries_read : Carries Q (Prog.read : Guarded World (Guard World)) :=
  fun g => hQ.refl g.world

theorem carries_bind {m : Guarded World α} {f : α → Guarded World β} (hm : Carries Q m)
    (hf : ∀ a, Carries Q (f a)) : Carries Q (m >>= f) := by
  intro g
  show Q g.world (Prog.andThen m f g).state.world
  rw [Prog.andThen]
  cases hr : (m g).result with
  | ok a => exact hQ.trans (hm g) (hf a (m g).state)
  | error e => exact hm g

omit hQ in
theorem carries_attempt {m : Guarded World α} (hm : Carries Q m) : Carries Q (Prog.attempt m) := hm

theorem carries_read_bind {f : Guard World → Guarded World β} (hf : ∀ a, Carries Q (f a)) :
    Carries Q (Prog.read >>= f) :=
  carries_bind c hQ (carries_read c hQ) hf

/-- A write of the guard's own variables. -/
theorem carries_own {f : Guard World → Guard World} (hf : ∀ g, (f g).world = g.world) :
    Carries Q (Prog.write f : Guarded World Unit) := by
  intro g
  show Q g.world (f g).world
  rw [hf]
  exact hQ.refl _

theorem carries_own_bind {f : Guard World → Guard World} {k : Unit → Guarded World β}
    (hk : ∀ u, Carries Q (k u)) (hf : ∀ g, (f g).world = g.world) :
    Carries Q (Prog.write f >>= k) :=
  carries_bind c hQ (carries_own c hQ hf) hk

omit hQ in
theorem carries_change {f : World → World} (hf : ∀ w, Q w (f w)) : Carries Q (change f) :=
  fun g => hf g.world

theorem carries_aside_bind {f : World → World} {k : Unit → Guarded World β}
    (hk : ∀ u, Carries Q (k u)) (hf : ∀ w, Aside w (f w)) : Carries Q (change f >>= k) :=
  carries_bind c hQ (carries_change fun w => hQ.aside w (f w) (hf w)) hk

theorem carries_change_bind {f : World → World} {k : Unit → Guarded World β}
    (hk : ∀ u, Carries Q (k u)) (hf : ∀ w, Q w (f w)) : Carries Q (change f >>= k) :=
  carries_bind c hQ (carries_change hf) hk

theorem carries_aside {f : World → World} (hf : ∀ w, Aside w (f w)) : Carries Q (change f) :=
  carries_change fun w => hQ.aside w (f w) (hf w)

theorem envSteps_respects (w : World) (steps : List EnvStep) : Q w (w.envSteps c steps) := by
  induction steps generalizing w with
  | nil => exact hQ.refl w
  | cons s steps ih => exact hQ.trans (hQ.env w s) (ih (w.envStep c s))

variable (o : Outside)

theorem advance_respects (w : World) : Q w (w.advance c o) :=
  hQ.trans (hQ.tick w) (envSteps_respects c hQ _ _)

theorem transact_respects (w : World) {body : Stamp → Db → Except PyExn Db}
    (hbody : ∀ stamp db db', body stamp db = .ok db' →
      RowStep (db.attempt c.attemptId) (db'.attempt c.attemptId)) :
    Q w (w.transact c o body).2 := by
  rw [World.transact]
  refine hQ.trans (advance_respects c hQ o w) ?_
  cases hb : body (o.stamp (w.advance c o).time) (w.advance c o).db with
  | error e => exact hQ.lost _
  | ok db =>
      dsimp only
      split
      · exact hQ.commit _ db (hbody _ _ _ hb)
      · exact hQ.lost _

theorem kill_respects (w : World) (r : Reason) : Q w (w.kill c o r) := by
  refine hQ.trans (advance_respects c hQ o w) ?_
  refine hQ.trans (hQ.request _ r) ?_
  refine hQ.trans (advance_respects c hQ o _) ?_
  rw [World.kill]
  generalize ((w.advance c o).controlled fun k => k.request r).advance c o = v
  rw [World.killReap]
  split
  · exact hQ.reap _
  · exact hQ.trans (advance_respects c hQ o _) (hQ.reapTimedOut _)

/-! ### Accesses -/

theorem carries_access : Carries Q (access c o) := by
  apply carries_bind c hQ (carries_change (advance_respects c hQ o))
  intro _
  apply carries_read_bind c hQ
  intro g
  exact carries_pure c hQ _

theorem carries_system : Carries Q (system c o) := by
  apply carries_bind c hQ (carries_access c hQ o)
  intro w
  split
  · exact carries_pure c hQ _
  · exact carries_raise c hQ _
  · exact carries_raise c hQ _

theorem carries_transaction {body : Stamp → Db → Except PyExn Db}
    (hbody : ∀ stamp db db', body stamp db = .ok db' →
      RowStep (db.attempt c.attemptId) (db'.attempt c.attemptId)) :
    Carries Q (transaction c o body) := by
  intro g
  have h := transact_respects c hQ o g.world hbody
  rw [transaction, Prog.read_bind]
  generalize g.world.transact c o body = r at h
  obtain ⟨result, w⟩ := r
  cases result <;> exact h

theorem carries_hashOf : Carries Q (hashOf c) := by
  unfold hashOf
  split
  · exact carries_pure c hQ _
  · exact carries_raise c hQ _

theorem carries_observe (event : String) (fields : Fields) :
    Carries Q (observe c o event fields) :=
  carries_transaction c hQ o fun _ _ _ hb => append_row hb _

theorem carries_observeHook (event : Str) (fields : GuardEvent) :
    Carries Q (observeHook (hooks c o) event fields) := by
  intro g
  have h : Q g.world (g.world.transact c o (appendEvent fields)).2 :=
    transact_respects c hQ o g.world fun _ _ _ hb => appendEvent_row hb _
  have hstate : (observeHook (hooks c o) event fields g).state.world =
      ((hooks c o).observe g.world fields).2 := rfl
  rw [hstate, hooks]
  dsimp only
  generalize g.world.transact c o (appendEvent fields) = r at h
  obtain ⟨result, w⟩ := r
  cases result <;> exact h

theorem carries_terminateHook : Carries Q (terminateHook (hooks c o)) := by
  intro g
  show Q g.world (if g.world.control.isSome then g.world.kill c o guardStop else g.world)
  split
  · exact kill_respects c hQ o _ _
  · exact hQ.refl _

/-! ### Calls of the guard -/

variable [FloatArith]

theorem carries_readClock : Carries Q (readClock (hooks c o)) := by
  intro g
  have h := advance_respects c hQ o g.world
  rw [readClock, Prog.read_bind, hooks]
  dsimp only
  cases o.clock (g.world.advance c o).time <;> exact h

omit [FloatArith] in
theorem carries_auditFailure (e : PyExn) : Carries Q (auditFailure (hooks c o) e) := by
  refine carries_own_bind c hQ (fun _ => ?_) fun _ => rfl
  apply carries_bind c hQ (carries_terminateHook c hQ o)
  intro r
  split
  · exact carries_raise c hQ _
  · exact carries_raise c hQ _

omit [FloatArith] in
theorem carries_emit (event : Str) (data : GuardEvent) :
    Carries Q (emit (hooks c o) event data) := by
  apply carries_read_bind c hQ
  intro g
  split
  · exact carries_auditFailure c hQ o _
  · apply carries_bind c hQ (carries_observeHook c hQ o _ _)
    intro r
    cases r with
    | returned => exact carries_pure c hQ _
    | raised e => exact carries_auditFailure c hQ o e
    | aborted => exact carries_raise c hQ _

omit [FloatArith] in
theorem carries_violate (boundary field : Str) (action : Value) :
    Carries Q (violate (hooks c o) boundary field action) := by
  refine carries_own_bind c hQ (fun _ => ?_) fun _ => rfl
  apply carries_read_bind c hQ
  intro g
  split
  · exact carries_raise c hQ _
  · apply carries_bind c hQ (carries_terminateHook c hQ o)
    intro r
    split
    · exact carries_raise c hQ _
    · apply carries_bind c hQ (carries_observeHook c hQ o _ _)
      intro r'
      split
      · exact carries_raise c hQ _
      · exact carries_raise c hQ _

theorem carries_active : Carries Q (active (hooks c o)) := by
  apply carries_read_bind c hQ
  intro g
  split
  · exact carries_raise c hQ _
  · apply carries_bind c hQ (carries_readClock c hQ o)
    intro now
    split
    · exact carries_violate c hQ o _ _ _
    · exact carries_raise c hQ _
    · apply carries_read_bind c hQ
      intro g'
      split
      · exact carries_violate c hQ o _ _ _
      · split
        · exact carries_violate c hQ o _ _ _
        · exact carries_pure c hQ _

theorem carries_start : Carries Q (start (hooks c o)) := by
  apply carries_read_bind c hQ
  intro g
  split
  · exact carries_raise c hQ _
  · apply carries_bind c hQ (carries_emit c hQ o _ _)
    intro _
    apply carries_bind c hQ (carries_readClock c hQ o)
    intro now
    split
    · exact carries_violate c hQ o _ _ _
    · refine carries_own_bind c hQ (fun _ => ?_) fun _ => rfl
      apply carries_bind c hQ (carries_emit c hQ o _ _)
      intro _
      exact carries_own c hQ fun _ => rfl

theorem carries_authorizeTool (text : Value → Str) (tool : Value) :
    Carries Q (authorizeTool (hooks c o) text tool) := by
  apply carries_bind c hQ (carries_active c hQ o)
  intro _
  apply carries_read_bind c hQ
  intro g
  split
  · exact carries_violate c hQ o _ _ _
  · refine carries_own_bind c hQ (fun _ => ?_) fun _ => rfl
    apply carries_read_bind c hQ
    intro g'
    split
    · exact carries_violate c hQ o _ _ _
    · exact carries_emit c hQ o _ _

theorem carries_authorizePath (text : Value → Str) (path write : Value) :
    Carries Q (authorizePath (hooks c o) text path write) := by
  apply carries_bind c hQ (carries_active c hQ o)
  intro _
  apply carries_read_bind c hQ
  intro g
  split
  · exact carries_violate c hQ o _ _ _
  · split
    · refine carries_own_bind c hQ (fun _ => ?_) fun _ => rfl
      apply carries_read_bind c hQ
      intro g'
      split
      · exact carries_violate c hQ o _ _ _
      · exact carries_emit c hQ o _ _
    · exact carries_emit c hQ o _ _

theorem carries_finish : Carries Q (finish (hooks c o)) := by
  apply carries_bind c hQ (carries_active c hQ o)
  intro _
  apply carries_read_bind c hQ
  intro g
  split
  · exact carries_violate c hQ o _ _ _
  · apply carries_bind c hQ (carries_emit c hQ o _ _)
    intro _
    exact carries_own c hQ fun _ => rfl

theorem carries_failWith (r : Reason) : Carries Q (failWith c o r) := by
  apply carries_bind c hQ (carries_active c hQ o)
  intro _
  exact carries_violate c hQ o _ _ _

theorem carries_failOn (reason : Option Reason) : Carries Q (failOn c o reason) := by
  unfold failOn
  split
  · exact carries_failWith c hQ o _
  · exact carries_pure c hQ _

theorem carries_refuse (condition : Prop) [Decidable condition] (r : Reason) :
    Carries Q (refuse c o condition r) := by
  unfold refuse
  split
  · exact carries_failWith c hQ o _
  · exact carries_pure c hQ _

omit [FloatArith] in
theorem carries_cancel : Carries Q (cancel (hooks c o)) := by
  apply carries_read_bind c hQ
  intro g
  split
  · exact carries_pure c hQ _
  · refine carries_own_bind c hQ (fun _ => ?_) fun _ => rfl
    apply carries_bind c hQ (carries_terminateHook c hQ o)
    intro r
    apply carries_bind c hQ (carries_emit c hQ o _ _)
    intro _
    cases r with
    | returned => exact carries_pure c hQ _
    | raised e => exact carries_raise c hQ _
    | aborted => exact carries_raise c hQ _

/-! ### The parts of a run -/

omit [FloatArith] in
theorem carries_leaseRead (detail : String) : Carries Q (leaseRead c o detail) := by
  apply carries_bind c hQ (carries_access c hQ o)
  intro w
  split
  · exact carries_raise c hQ _
  · exact carries_pure c hQ _
  · exact carries_pure c hQ _
  · exact carries_pure c hQ _

omit [FloatArith] in
theorem carries_leaseReads (detail : String) (retries : Nat) :
    Carries Q (leaseReads c o detail retries) := by
  induction retries with
  | zero =>
      apply carries_bind c hQ (carries_leaseRead c hQ o detail)
      intro r
      split
      · exact carries_pure c hQ _
      · apply carries_read_bind c hQ
        intro g
        exact carries_pure c hQ _
  | succ retries ih =>
      apply carries_bind c hQ (carries_leaseRead c hQ o detail)
      intro r
      split
      · exact carries_pure c hQ _
      · exact ih

theorem carries_checkLease (detail : String) : Carries Q (checkLease c o detail) := by
  apply carries_bind c hQ (carries_system c hQ o)
  intro _
  apply carries_bind c hQ (carries_access c hQ o)
  intro w
  apply carries_bind c hQ (carries_leaseReads c hQ o detail _)
  intro denial
  exact carries_failOn c hQ o denial

theorem carries_beforeIo : Carries Q (beforeIo c o) := by
  apply carries_bind c hQ (carries_active c hQ o)
  intro _
  apply carries_bind c hQ (carries_access c hQ o)
  intro w
  apply carries_bind c hQ (carries_failOn c hQ o _)
  intro _
  exact carries_checkLease c hQ o _

theorem carries_dispatch (operation : Str) (arguments : Fields) (file : Option Str) :
    Carries Q (dispatch c o operation arguments file) := by
  apply carries_bind c hQ (carries_authorizeTool c hQ o _ _)
  intro _
  apply carries_bind c hQ (carries_refuse c hQ o _ _)
  intro _
  apply carries_bind c hQ (carries_authorizePath c hQ o _ _ _)
  intro _
  apply carries_bind c hQ (carries_beforeIo c hQ o)
  intro _
  exact carries_failOn c hQ o _

theorem carries_greet (fields : Fields) (full : Bool) : Carries Q (greet c o fields full) := by
  apply carries_bind c hQ (carries_refuse c hQ o _ _)
  intro _
  apply carries_bind c hQ (carries_hashOf c hQ)
  intro hash
  apply carries_bind c hQ (carries_access c hQ o)
  intro w
  apply carries_bind c hQ (carries_observe c hQ o _ _)
  intro _
  exact carries_refuse c hQ o _ _

theorem carries_serve (operation : Str) (arguments : Fields) (file : Option Str) :
    Carries Q (serve c o operation arguments file) := by
  unfold serve
  split
  · exact carries_refuse c hQ o _ _
  · exact carries_dispatch c hQ o _ _ _

theorem carries_receive (s : Session) (value : Option Json) (full : Bool) (file : Option Str) :
    Carries Q (receive c o s value full file) := by
  unfold receive
  split
  · split
    · exact carries_bind c hQ (carries_greet c hQ o _ _) fun _ => carries_pure c hQ _
    · split
      · exact carries_bind c hQ (carries_failWith c hQ o _) fun _ => carries_pure c hQ _
      · apply carries_bind c hQ (carries_checkLease c hQ o _)
        intro _
        apply carries_bind c hQ (carries_serve c hQ o _ _ _)
        intro _
        exact carries_bind c hQ (carries_refuse c hQ o _ _) fun _ => carries_pure c hQ _
  · exact carries_bind c hQ (carries_failWith c hQ o _) fun _ => carries_pure c hQ _

theorem carries_arriveAll (s : Session) (arrivals : List Arrival) :
    Carries Q (arriveAll c o s arrivals) := by
  induction arrivals generalizing s with
  | nil => exact carries_pure c hQ _
  | cons a rest ih =>
      refine carries_bind c hQ ?_ fun t => ih t
      cases a with
      | failed result =>
          cases result with
          | returned => exact carries_pure c hQ _
          | raised e => exact carries_raise c hQ _
          | aborted => exact carries_raise c hQ _
      | tooLong field bytes =>
          apply carries_bind c hQ (carries_failWith c hQ o _)
          intro _
          exact carries_pure c hQ _
      | line value full file => exact carries_receive c hQ o s value full file

theorem carries_exchange (s : Session) (rounds : List (List Arrival)) :
    Carries Q (exchange c o s rounds) := by
  induction rounds generalizing s with
  | nil => exact carries_bind c hQ (carries_refuse c hQ o _ _) fun _ => carries_pure c hQ _
  | cons round rest ih =>
      apply carries_bind c hQ (carries_access c hQ o)
      intro w
      split
      · exact carries_pure c hQ _
      · exact carries_bind c hQ (carries_arriveAll c hQ o s round) fun t => ih t

/-- A launch, where the run may give itself a process to control. -/
theorem carries_launch
    (hcontrol : ∀ w : World, Q w { w with control := some Control.init }) :
    Carries Q (launch c o) := by
  apply carries_bind c hQ (carries_system c hQ o)
  intro _
  apply carries_bind c hQ (carries_hashOf c hQ)
  intro hash
  apply carries_bind c hQ (carries_access c hQ o)
  intro w
  apply carries_bind c hQ (carries_observe c hQ o _ _)
  intro _
  apply carries_bind c hQ (carries_start c hQ o)
  intro _
  apply carries_bind c hQ (carries_system c hQ o)
  intro _
  refine carries_aside_bind c hQ (fun _ => ?_) fun w => ⟨rfl, rfl, rfl, rfl, rfl, rfl, rfl, rfl, rfl, rfl, rfl, rfl⟩
  apply carries_bind c hQ (carries_system c hQ o)
  intro _
  exact carries_change hcontrol

theorem carries_register : Carries Q (register c o) := by
  apply carries_bind c hQ
  · apply carries_read_bind c hQ
    intro g
    split
    · exact carries_raise c hQ _
    · exact carries_pure c hQ _
  intro _
  refine carries_aside_bind c hQ (fun _ => ?_) fun w => ⟨rfl, rfl, rfl, rfl, rfl, rfl, rfl, rfl, rfl, rfl, rfl, rfl⟩
  apply carries_bind c hQ (carries_access c hQ o)
  intro _
  refine carries_aside_bind c hQ (fun _ => ?_) fun w => ⟨rfl, rfl, rfl, rfl, rfl, rfl, rfl, rfl, rfl, rfl, rfl, rfl⟩
  apply carries_bind c hQ (carries_transaction c hQ o fun _ _ _ hb => started_rowStep hb)
  intro _
  apply carries_bind c hQ (carries_access c hQ o)
  intro w
  exact carries_observe c hQ o _ _

omit [FloatArith] in
theorem carries_reapControl : Carries Q (reapControl c o) := by
  apply carries_bind c hQ (carries_access c hQ o)
  intro w
  apply carries_bind c hQ (carries_change hQ.reap)
  intro _
  exact carries_pure c hQ _

omit [FloatArith] in
theorem carries_joinWatch : Carries Q (joinWatch c o) := by
  apply carries_bind c hQ (carries_access c hQ o)
  intro w
  split
  · exact carries_pure c hQ _
  · refine carries_aside_bind c hQ (fun _ => ?_) fun w => ⟨rfl, rfl, rfl, rfl, rfl, rfl, rfl, rfl, rfl, rfl, rfl, rfl⟩
    exact carries_pure c hQ _

theorem carries_drain : Carries Q (drain c o) := by
  apply carries_bind c hQ (carries_reapControl c hQ o)
  intro reaped
  split
  · exact carries_pure c hQ _
  · apply carries_bind c hQ (carries_access c hQ o)
    intro w
    refine carries_bind c hQ ?_ fun _ => carries_failWith c hQ o _
    unfold drainReason
    split
    · split
      · exact carries_bind c hQ (carries_cancel c hQ o) fun _ => carries_raise c hQ _
      · exact carries_failWith c hQ o _
    · exact carries_pure c hQ _

omit [FloatArith] in
theorem carries_stopWatch : Carries Q (stopWatch c o) := by
  apply carries_bind c hQ (carries_joinWatch c hQ o)
  intro stopped
  split
  · exact carries_pure c hQ _
  · exact carries_raise c hQ _

/-- The variables that say how the run ends. -/
def Settable (Q : World → World → Prop) : Prop :=
  ∀ (w : World) status why captured,
    Q w { w with status := status, why := why, captured := captured }

/-- The marks of what the run has journaled. -/
def Markable (Q : World → World → Prop) : Prop :=
  ∀ (w : World) deferred finished journaled,
    Q w { w with deferred := deferred, finished := finished, journaled := journaled }

/-- The note of the decision. -/
def Notable (Q : World → World → Prop) : Prop :=
  ∀ (w : World) decided, Q w { w with decided := decided }

theorem carries_judge (hset : Settable Q) (reason : Option Reason) (complete : Bool) :
    Carries Q (judge c o reason complete) := by
  unfold judge
  split
  · split
    · apply carries_bind c hQ (carries_cancel c hQ o)
      intro _
      exact carries_change fun w => hset w _ _ w.captured
    · exact carries_failWith c hQ o _
  · split
    · exact carries_raise c hQ _
    · split
      · exact carries_failWith c hQ o _
      · split
        · refine carries_change_bind c hQ (fun _ => ?_) fun w => hset w w.status _ w.captured
          exact carries_cancel c hQ o
        · apply carries_bind c hQ (carries_checkLease c hQ o _)
          intro _
          apply carries_bind c hQ (carries_system c hQ o)
          intro _
          refine carries_change_bind c hQ (fun _ => ?_) fun w => hset w w.status w.why _
          apply carries_bind c hQ (carries_finish c hQ o)
          intro _
          exact carries_change fun w => hset w _ _ w.captured

theorem carries_conclude (hset : Settable Q) (hnote : Notable Q) (complete : Bool) :
    Carries Q (conclude c o complete) := by
  apply carries_bind c hQ (carries_access c hQ o)
  intro w
  refine carries_bind c hQ (fun g => hnote g.world _) fun _ => ?_
  exact carries_judge c hQ o hset _ _

omit [FloatArith] in
theorem carries_journalFinish (hmark : Markable Q) (details : Fields) :
    Carries Q (journalFinish c o details) := by
  apply carries_read_bind c hQ
  intro g
  apply carries_bind c hQ (carries_transaction c hQ o fun _ _ _ hb => (finish_rowStep hb).1)
  intro _
  exact carries_change fun w => hmark w w.deferred w.finished _

omit [FloatArith] in
theorem carries_handle (hset : Settable Q) (r : Except Raised Unit) :
    Carries Q (handle c o r) := by
  cases r with
  | ok u => exact carries_pure c hQ _
  | error e =>
      cases e with
      | violation field => exact carries_change fun w => hset w _ _ _
      | aborted => exact carries_pure c hQ _
      | exception e =>
          apply carries_bind c hQ (carries_access c hQ o)
          intro w
          apply carries_read_bind c hQ
          intro g
          refine carries_change_bind c hQ (fun _ => ?_) fun w => hset w _ _ _
          split
          · exact carries_change fun w => hset w _ _ w.captured
          · exact carries_pure c hQ _

omit [FloatArith] in
theorem carries_reapOrKill (k : Control) : Carries Q (reapOrKill c o k) := by
  unfold reapOrKill
  split
  · exact carries_pure c hQ _
  · split
    · exact carries_bind c hQ (carries_reapControl c hQ o) fun _ => carries_pure c hQ _
    · exact carries_change fun w => kill_respects c hQ o w _

omit [FloatArith] in
theorem carries_ensureReaped : Carries Q (ensureReaped c o) := by
  apply carries_bind c hQ (carries_access c hQ o)
  intro w
  split
  · apply carries_bind c hQ (carries_reapOrKill c hQ o _)
    · intro _
      exact carries_bind c hQ (carries_access c hQ o) fun _ => carries_pure c hQ _
  · exact carries_pure c hQ _

omit [FloatArith] in
theorem carries_deferReap (hmark : Markable Q) : Carries Q (deferReap c o) := by
  apply carries_bind c hQ (carries_hashOf c hQ)
  intro hash
  refine carries_aside_bind c hQ (fun _ => ?_) fun w => ⟨rfl, rfl, rfl, rfl, rfl, rfl, rfl, rfl, rfl, rfl, rfl, rfl⟩
  apply carries_bind c hQ (carries_attempt (carries_observe c hQ o _ _))
  intro _
  apply carries_read_bind c hQ
  intro g
  exact carries_change fun w => hmark w _ w.finished w.journaled

omit [FloatArith] in
theorem carries_finalizeResources (hmark : Markable Q) (reaped : Bool) (termination : Json) :
    Carries Q (finalizeResources c o reaped termination) := by
  apply carries_bind c hQ (carries_system c hQ o)
  intro _
  apply carries_bind c hQ
  · apply carries_read_bind c hQ
    intro g
    split
    · exact carries_pure c hQ _
    · exact carries_journalFinish c hQ o hmark _
  intro _
  apply carries_bind c hQ (carries_access c hQ o)
  intro _
  exact carries_aside c hQ fun w => ⟨rfl, rfl, rfl, rfl, rfl, rfl, rfl, rfl, rfl, rfl, rfl, rfl⟩

omit [FloatArith] in
theorem carries_conclusion (hmark : Markable Q) : Carries Q (conclusion c o) := by
  apply carries_bind c hQ (carries_ensureReaped c hQ o)
  intro reaped
  apply carries_bind c hQ (carries_joinWatch c hQ o)
  intro _
  apply carries_bind c hQ (carries_access c hQ o)
  intro w
  dsimp only
  split
  · apply carries_bind c hQ (carries_deferReap c hQ o hmark)
    intro _
    apply carries_bind c hQ (carries_hashOf c hQ)
    intro hash
    exact carries_read_bind c hQ fun _ => carries_pure c hQ _
  · apply carries_bind c hQ (carries_finalizeResources c hQ o hmark _ _)
    intro _
    apply carries_bind c hQ (carries_hashOf c hQ)
    intro hash
    exact carries_read_bind c hQ fun _ => carries_pure c hQ _

theorem carries_execute (hset : Settable Q) (hmark : Markable Q) (hnote : Notable Q)
    (hcontrol : ∀ w : World, Q w { w with control := some Control.init }) :
    Carries Q (execute c o) := by
  apply carries_bind c hQ (carries_launch c hQ o hcontrol)
  intro _
  apply carries_bind c hQ (carries_register c hQ o)
  intro _
  apply carries_bind c hQ (carries_exchange c hQ o _ _)
  intro complete
  apply carries_bind c hQ (carries_drain c hQ o)
  intro _
  apply carries_bind c hQ (carries_stopWatch c hQ o)
  intro _
  apply carries_bind c hQ (carries_conclude c hQ o hset hnote complete)
  intro _
  apply carries_read_bind c hQ
  intro g
  apply carries_bind c hQ (carries_journalFinish c hQ o hmark _)
  intro _
  exact carries_change fun w => hmark w w.deferred _ w.journaled

theorem carries_run (hset : Settable Q) (hmark : Markable Q) (hnote : Notable Q)
    (hcontrol : ∀ w : World, Q w { w with control := some Control.init }) (sourceHash : Str)
    (approval : Json) : Carries Q (run c o sourceHash approval) := by
  apply carries_bind c hQ (carries_transaction c hQ o fun _ _ _ hb => claim_rowStep hb)
  intro _
  apply carries_bind c hQ (carries_attempt (carries_execute c hQ o hset hmark hnote hcontrol))
  intro r
  apply carries_bind c hQ (carries_handle c hQ o hset r)
  intro _
  apply carries_bind c hQ (carries_conclusion c hQ o hmark)
  intro result
  split
  · exact carries_raise c hQ _
  · exact carries_pure c hQ _

end Programs

/-! ## Transactions -/

section Transactions

variable (c : CheckedContract) (o : Outside)

/-- A transaction of the run commits, or is lost. -/
theorem transact_cases (w : World) (body : Stamp → Db → Except PyExn Db) :
    (∃ db, body (o.stamp (w.advance c o).time) (w.advance c o).db = .ok db ∧
      w.transact c o body = (.ok (), (w.advance c o).commit c db)) ∨
    ∃ e, w.transact c o body = (.error e, { w.advance c o with
      unwritten := (w.advance c o).unwritten + 1 }) := by
  rw [World.transact]
  dsimp only
  cases hb : body (o.stamp (w.advance c o).time) (w.advance c o).db with
  | error e => exact Or.inr ⟨e, rfl⟩
  | ok db =>
      dsimp only
      by_cases hc : o.commits (w.advance c o).time = true
      · left
        rw [if_pos hc]
        exact ⟨db, rfl, rfl⟩
      · right
        rw [if_neg hc]
        exact ⟨storeError, rfl⟩

theorem transaction_yields (body : Stamp → Db → Except PyExn Db) (g : Guard World) :
    Yields (transaction c o body) g
      (fun _ g' => ∃ db,
        body (o.stamp (g.world.advance c o).time) (g.world.advance c o).db = .ok db ∧
          g' = { g with world := (g.world.advance c o).commit c db })
      fun e g' => (∃ x, e = .exception x) ∧ g' = { g with world := { g.world.advance c o with
        unwritten := (g.world.advance c o).unwritten + 1 } } := by
  apply yields_read_bind
  apply yields_write_bind
  rcases transact_cases c o g.world body with ⟨db, hb, ht⟩ | ⟨e, ht⟩
  · rw [ht]
    exact yields_pure ⟨db, hb, rfl⟩
  · rw [ht]
    exact yields_raise ⟨⟨e, rfl⟩, rfl⟩

end Transactions

end ResidualHarness.Factory
