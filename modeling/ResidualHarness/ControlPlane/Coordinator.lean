import ResidualHarness.ControlPlane.Saga
import ResidualHarness.Python.WholeFloats

/-!
# Laws of the coordinator

The forward part of a run (`forwardLaw_iff`), when a compensated receipt stands for a clean rollback
(`cleanRollback_iff`), and the order of the compensations (`orderedRollback_iff`).
-/

set_option autoImplicit false

namespace ResidualHarness.ControlPlane

open Python Core

section Laws

variable [FloatModel] {ω : Type} (c : TransactionCoordinator ω) (tx : SideEffectTransaction)

/-! ## Whole runs -/

/-- What the part of a run after the loop does. -/
inductive RolledBack : Saga ω → Saga ω → Prop
  | nothing {f : Saga ω} : c.compensate = none ∨ .failed ∉ statesOf f.effects → RolledBack f f
  | compensated {f t : Saga ω} (compensate : ω → AtomicEffect → Option Bool × ω) :
      c.compensate = some compensate → .failed ∈ statesOf f.effects →
      Compensated compensate (candidates f.effects).reverse f t → RolledBack f t

/-- A run returns; it is the loop and then the compensations. -/
theorem run_spec (world : ω) (hk : Keyed tx.effects) :
    ∃ f t, forward c tx.effects.length (tx.start world) = .ok f ∧ Forward (tx.start world) f ∧
      Looped tx.effects f ∧ Keyed f.effects ∧ RolledBack c f t ∧
      run c tx world = .ok (tx.receipt t, t) := by
  obtain ⟨f, hf, hfor⟩ : ∃ f, forward c tx.effects.length (tx.start world) = .ok f ∧
      Forward (tx.start world) f := forward_total c hk (preparedCount_le _)
  obtain ⟨hl, hkf⟩ := hfor.looped hk (looped_start tx.effects world [])
  have hback : ∃ t, rollback c f = .ok t ∧ RolledBack c f t := by
    cases hc : c.compensate with
    | none => exact ⟨f, by rw [rollback, hc], .nothing (Or.inl hc)⟩
    | some compensate =>
        by_cases hfail : .failed ∈ statesOf f.effects
        · have hnd : ((candidates f.effects).reverse.map AtomicEffect.effectId).Nodup := by
            rw [List.map_reverse, List.nodup_reverse]
            exact nodup_candidates hkf
          obtain ⟨t, ht, hct⟩ := compensateAll_spec compensate _ hnd fun e he =>
            ⟨((mem_candidates hkf).1 (List.mem_reverse.1 he)).1,
              ((mem_candidates hkf).1 (List.mem_reverse.1 he)).2.1⟩
          refine ⟨t, ?_, .compensated compensate hc hfail hct⟩
          rw [rollback, hc]
          simp only [if_pos hfail]
          exact ht
        · refine ⟨f, ?_, .nothing (Or.inr hfail)⟩
          rw [rollback, hc]
          simp only [if_neg hfail]
  obtain ⟨t, ht, hct⟩ := hback
  refine ⟨f, t, hf, hfor, hl, hkf, hct, ?_⟩
  rw [run, hf]
  simp only [bind, Except.bind, ht]
  rfl

variable {c tx} {f t : Saga ω}

/-- The second part of a run neither dispatches nor applies. -/
theorem RolledBack.trace (h : RolledBack c f t) :
    ∃ more, t.trace = f.trace ++ more ∧ dispatches more = [] ∧ applications more = [] := by
  cases h with
  | nothing _ => exact ⟨[], (List.append_nil _).symm, rfl, rfl⟩
  | compensated compensate _ _ hct => exact hct.trace

theorem RolledBack.applications (h : RolledBack c f t) :
    applications t.trace = applications f.trace := by
  obtain ⟨more, hmore, -, happ⟩ := h.trace
  rw [hmore, ControlPlane.applications, List.filterMap_append, ← ControlPlane.applications,
    ← ControlPlane.applications, happ, List.append_nil]

theorem RolledBack.keyed (h : RolledBack c f t) (hk : Keyed f.effects) : Keyed t.effects := by
  cases h with
  | nothing _ => exact hk
  | compensated compensate _ _ hct => exact hct.shape.keyed hk

/-! ## The forward part -/

variable (c tx) in
/-- The run returns; every effect is dispatched at most once, with its dependencies applied, and
none after the first that failed; the transaction is complete when every effect was applied. -/
def ForwardLaw (world : ω) : Prop :=
  ∃ receipt t, run c tx world = .ok (receipt, t) ∧ (dispatches t.trace).Nodup ∧
    (∀ k effects, .dispatch k effects ∈ t.trace → ∀ e, tx.effects.get? k = some e →
      ∀ d ∈ e.dependsOn, stateOf effects d = some .applied) ∧
    (∀ pre k post, t.trace = pre ++ .became k .failed :: post → dispatches post = []) ∧
    (receipt.finalState = .complete ↔ ∀ k ∈ tx.effects.keys, .became k .applied ∈ t.trace)

omit [FloatModel] in
theorem aggregate_complete_iff (states : List IntentState) :
    aggregate states = .complete ↔ states ≠ [] ∧ ∀ x ∈ states, x = .applied := by
  rw [aggregate]
  constructor
  · intro h
    by_contra hno
    rw [if_neg hno] at h
    repeat' split at h
    all_goals cases h
  · intro h
    rw [if_pos h]

theorem dispatches_after_failed {s : Saga ω} (hfor : Forward s f) (hs : s.trace = [])
    (hback : RolledBack c f t) {pre post : List Action} {k : Str}
    (htr : t.trace = pre ++ .became k .failed :: post) : dispatches post = [] := by
  obtain ⟨more, hmore, hd, -⟩ := hback.trace
  have hlast := hfor.failed_last (by rw [hs]; nofun)
  rw [hmore] at htr
  rcases List.append_eq_append_iff.1 htr with ⟨a, hpre, hrest⟩ | ⟨b, hf, hrest⟩
  · -- the failure is one of a compensation
    have hsplit : dispatches more = dispatches a ++ dispatches (.became k .failed :: post) := by
      rw [hrest, dispatches, List.filterMap_append]
      rfl
    rw [hd] at hsplit
    exact (List.append_eq_nil_iff.1 hsplit.symm).2
  · cases b with
    | nil =>
        rw [List.nil_append] at hrest
        rw [← hrest] at hd
        exact hd
    | cons a b =>
        rw [List.cons_append] at hrest
        obtain ⟨rfl, rfl⟩ := List.cons.inj hrest
        have hb : b = [] := hlast pre k b hf
        rw [hb, List.nil_append]
        exact hd

/-- The final state is complete exactly when there is an effect and every effect was applied. -/
theorem complete_iff
    (hp : ∀ k ∈ tx.effects.keys, stateOf tx.effects k = some .prepared) (hl : Looped tx.effects f)
    (hkf : Keyed f.effects) (hback : RolledBack c f t) :
    (tx.receipt t).finalState = .complete ↔
      tx.effects ≠ [] ∧ ∀ k ∈ tx.effects.keys, .became k .applied ∈ t.trace := by
  have happ : ∀ k ∈ tx.effects.keys,
      (.became k .applied ∈ t.trace ↔ stateOf f.effects k = some .applied) := by
    intro k hkm
    rw [← mem_applications, hback.applications, hl.applied, hp k hkm]
    simp
  have hkeys : f.effects.keys = tx.effects.keys := hl.shape.keys
  have hall : (∀ k ∈ tx.effects.keys, .became k .applied ∈ t.trace) ↔
      ∀ x ∈ statesOf f.effects, x = .applied := by
    constructor
    · intro h x hx
      obtain ⟨k, hkx⟩ := (mem_statesOf hkf).1 hx
      obtain ⟨e, he, -⟩ := stateOf_eq_some.1 hkx
      have hkm : k ∈ tx.effects.keys := hkeys ▸ Dict.mem_keys_of_get? he
      have := (happ k hkm).1 (h k hkm)
      rw [hkx] at this
      exact Option.some.inj this
    · intro h k hkm
      rw [happ k hkm]
      obtain ⟨e, he⟩ := Dict.mem_keys_iff.1 (hkeys ▸ hkm : k ∈ f.effects.keys)
      have hst : stateOf f.effects k = some e.state := stateOf_eq_some.2 ⟨e, he, rfl⟩
      rw [hst, h e.state ((mem_statesOf hkf).2 ⟨k, hst⟩)]
  have hempty : f.effects ≠ [] ↔ tx.effects ≠ [] := by
    have hlen := congrArg List.length hkeys
    rw [Dict.keys, Dict.keys, List.length_map, List.length_map] at hlen
    rw [← List.length_pos_iff, ← List.length_pos_iff, hlen]
  show aggregate (statesOf t.effects) = .complete ↔ _
  rw [aggregate_complete_iff, hall]
  cases hback with
  | nothing _ => rw [statesOf_ne_nil, hempty]
  | compensated compensate _ hfail hct =>
      -- the effect that failed is not compensated, and it was not applied
      obtain ⟨k, hkf'⟩ := (mem_statesOf hkf).1 hfail
      have hkc : k ∉ (candidates f.effects).reverse.map AtomicEffect.effectId := by
        intro hm
        obtain ⟨e, he, rfl⟩ := List.mem_map.1 hm
        obtain ⟨hget, hst, -⟩ := (mem_candidates hkf).1 (List.mem_reverse.1 he)
        rw [stateOf_eq_some.2 ⟨e, hget, hst⟩] at hkf'
        cases hkf'
      have hkt : stateOf t.effects k = some .failed := by
        rw [hct.others k hkc]
        exact hkf'
      constructor
      · rintro ⟨-, h⟩
        cases h _ ((mem_statesOf (hct.shape.keyed hkf)).2 ⟨k, hkt⟩)
      · rintro ⟨-, h⟩
        cases h _ hfail

/-- On a transaction of prepared effects the forward law holds exactly when there is an effect. -/
theorem forwardLaw_iff (c : TransactionCoordinator ω) (tx : SideEffectTransaction) (world : ω)
    (hk : Keyed tx.effects)
    (hp : ∀ k ∈ tx.effects.keys, stateOf tx.effects k = some .prepared) :
    ForwardLaw c tx world ↔ tx.effects ≠ [] := by
  obtain ⟨f, t, hf, hfor, hl, hkf, hback, hrun⟩ := run_spec c tx world hk
  have hcomplete := complete_iff hp hl hkf hback
  constructor
  · rintro ⟨receipt, t', hrun', -, -, -, hiff⟩
    rw [hrun] at hrun'
    cases hrun'
    rw [hcomplete] at hiff
    intro hempty
    have hvac : ∀ k ∈ tx.effects.keys, .became k .applied ∈ t.trace := by
      rw [hempty]
      nofun
    exact (hiff.2 hvac).1 hempty
  · intro hne
    refine ⟨_, t, hrun, ?_, ?_, ?_, ?_⟩
    · obtain ⟨more, hmore, hd, -⟩ := hback.trace
      rw [hmore, dispatches, List.filterMap_append, ← dispatches, ← dispatches, hd, List.append_nil]
      exact hl.once
    · intro k effects hmem
      obtain ⟨more, hmore, hd, -⟩ := hback.trace
      rw [hmore] at hmem
      rcases List.mem_append.1 hmem with hmem | hmem
      · exact hl.dispatched k effects hmem
      · have hin : k ∈ dispatches more := List.mem_filterMap.2 ⟨_, hmem, rfl⟩
        rw [hd] at hin
        cases hin
    · intro pre k post htr
      exact dispatches_after_failed hfor rfl hback htr
    · rw [hcomplete]
      exact and_iff_right hne

/-! ## Clean rollbacks -/

variable (tx) in
/-- The effect was applied when the run started, or became applied during it. -/
def EverApplied (t : Saga ω) (k : Str) : Prop :=
  stateOf tx.effects k = some .applied ∨ .became k .applied ∈ t.trace

variable (c tx) in
/-- If the receipt says compensated, every effect that was ever applied is compensated. -/
def CleanRollback (world : ω) : Prop :=
  ∀ receipt t, run c tx world = .ok (receipt, t) → receipt.finalState = .compensated →
    ∀ k, EverApplied tx t k → stateOf t.effects k = some .compensated

/-- The states that a compensated transaction may show. -/
def Undone (x : IntentState) : Prop := x = .compensated ∨ x = .failed ∨ x = .prepared

variable (c) in
/-- The compensations that follow the loop: every applied effect has one, none of the other effects
shows that the transaction is not compensated, `compensate` fails for an effect and not for all. -/
structure HidesFailure (f : Saga ω) (compensate : ω → AtomicEffect → Option Bool × ω) : Prop where
  given : c.compensate = some compensate
  failed : .failed ∈ statesOf f.effects
  compensable : ∀ k e, f.effects.get? k = some e → e.state = .applied → e.compensable = true
  others : ∀ x ∈ statesOf f.effects, x = .applied ∨ Undone x
  refused : ∃ e, (e, false) ∈ answers compensate (candidates f.effects).reverse f.world
  undone : (∃ e, (e, true) ∈ answers compensate (candidates f.effects).reverse f.world) ∨
    .compensated ∈ statesOf f.effects

omit [FloatModel] in
theorem aggregate_compensated_iff (states : List IntentState) :
    aggregate states = .compensated ↔ .compensated ∈ states ∧ ∀ x ∈ states, Undone x := by
  rw [aggregate]
  constructor
  · intro h
    split at h
    · cases h
    split at h
    · cases h
    split at h
    · cases h
    split at h
    · assumption
    repeat' split at h
    all_goals cases h
  · intro h
    have hno : ∀ x, ¬ Undone x → x ∉ states := fun x hx hm => hx (h.2 x hm)
    have hunfolded : .compensated ∈ states ∧
        ∀ x ∈ states, x = .compensated ∨ x = .failed ∨ x = .prepared := h
    rw [if_neg, if_neg, if_neg, if_pos hunfolded]
    · exact hno _ (by simp [Undone])
    · rintro (hm | hm)
      · exact hno _ (by simp [Undone]) hm
      · exact hno _ (by simp [Undone]) hm
    · rintro ⟨-, hall⟩
      cases hall _ h.1

theorem everApplied_iff (hl : Looped tx.effects f) (hback : RolledBack c f t) (k : Str) :
    EverApplied tx t k ↔ stateOf f.effects k = some .applied := by
  rw [EverApplied, ← mem_applications, hback.applications, hl.applied]

omit [FloatModel] in
/-- An applied effect is a candidate, or the compensations leave it applied. -/
theorem applied_candidate
    {compensate : ω → AtomicEffect → Option Bool × ω}
    (hct : Compensated compensate (candidates f.effects).reverse f t) {k : Str}
    (hk : stateOf f.effects k = some .applied) (hn : stateOf t.effects k ≠ some .applied) :
    ∃ e ∈ (candidates f.effects).reverse, e.effectId = k := by
  by_contra hno
  have hout : k ∉ (candidates f.effects).reverse.map AtomicEffect.effectId := by
    intro hm
    obtain ⟨e, he, rfl⟩ := List.mem_map.1 hm
    exact hno ⟨e, he, rfl⟩
  rw [hct.others k hout] at hn
  exact hn hk

omit [FloatModel] in
theorem candidate_applied (hkf : Keyed f.effects) {e : AtomicEffect}
    (he : e ∈ (candidates f.effects).reverse) : stateOf f.effects e.effectId = some .applied := by
  obtain ⟨hget, hst, -⟩ := (mem_candidates hkf).1 (List.mem_reverse.1 he)
  exact stateOf_eq_some.2 ⟨e, hget, hst⟩

/-- A failed compensation behind a compensated receipt. -/
theorem HidesFailure.compensated {compensate : ω → AtomicEffect → Option Bool × ω}
    (hh : HidesFailure c f compensate) (hkf : Keyed f.effects)
    (hct : Compensated compensate (candidates f.effects).reverse f t) :
    aggregate (statesOf t.effects) = .compensated := by
  have hkt := hct.shape.keyed hkf
  have hcandidate : ∀ k e, f.effects.get? k = some e → e.state = .applied →
      ∃ ok, stateOf t.effects k = some (compensatedState ok) := by
    intro k e he ha
    have hid := hkf.ids k e he
    have hmem : e ∈ (candidates f.effects).reverse := by
      rw [List.mem_reverse, mem_candidates hkf, hid]
      exact ⟨he, ha, hh.compensable k e he ha⟩
    obtain ⟨ok, hok⟩ := exists_answer compensate f.world hmem
    exact ⟨ok, hid ▸ hct.answered _ hok⟩
  rw [aggregate_compensated_iff]
  constructor
  · rw [mem_statesOf hkt]
    rcases hh.undone with ⟨e, he⟩ | hcomp
    · exact ⟨e.effectId, hct.answered _ he⟩
    · obtain ⟨k, hk⟩ := (mem_statesOf hkf).1 hcomp
      refine ⟨k, ?_⟩
      rw [hct.others k, hk]
      intro hm
      obtain ⟨e, he, rfl⟩ := List.mem_map.1 hm
      rw [candidate_applied hkf he] at hk
      cases hk
  · intro x hx
    obtain ⟨k, hk⟩ := (mem_statesOf hkt).1 hx
    obtain ⟨e, he, -⟩ := stateOf_eq_some.1 hk
    obtain ⟨e₀, he₀, -⟩ := hct.shape.ids k e he
    by_cases ha : e₀.state = .applied
    · obtain ⟨ok, hok⟩ := hcandidate k e₀ he₀ ha
      rw [hk] at hok
      cases ok
      · exact Or.inr (Or.inl (Option.some.inj hok))
      · exact Or.inl (Option.some.inj hok)
    · have hsame : stateOf t.effects k = stateOf f.effects k := by
        apply hct.others
        intro hm
        obtain ⟨e₁, he₁, rfl⟩ := List.mem_map.1 hm
        obtain ⟨hget, hst, -⟩ := (mem_candidates hkf).1 (List.mem_reverse.1 he₁)
        rw [he₀] at hget
        cases hget
        exact ha hst
      have hx₀ : stateOf f.effects k = some x := hsame ▸ hk
      rcases hh.others x ((mem_statesOf hkf).2 ⟨k, hx₀⟩) with rfl | hx
      · exact absurd (Option.some.inj ((stateOf_eq_some.2 ⟨e₀, he₀, rfl⟩).symm.trans hx₀)) ha
      · exact hx

/-- A receipt says compensated only after a clean rollback, unless the compensations hide a
failure. -/
theorem cleanRollback_iff (c : TransactionCoordinator ω) (tx : SideEffectTransaction) (world : ω)
    (hk : Keyed tx.effects) :
    ∃ f, forward c tx.effects.length (tx.start world) = .ok f ∧
      (CleanRollback c tx world ↔ ¬ ∃ compensate, HidesFailure c f compensate) := by
  obtain ⟨f, t, hf, hfor, hl, hkf, hback, hrun⟩ := run_spec c tx world hk
  refine ⟨f, hf, ?_⟩
  constructor
  · rintro hclean ⟨compensate, hh⟩
    obtain ⟨e, he⟩ := hh.refused
    cases hback with
    | nothing hno =>
        rcases hno with hno | hno
        · rw [hh.given] at hno
          cases hno
        · exact hno hh.failed
    | compensated compensate' hc hfail hct =>
        rw [hh.given] at hc
        cases hc
        have happlied : EverApplied tx t e.effectId := by
          rw [everApplied_iff hl (.compensated compensate hh.given hfail hct)]
          exact candidate_applied hkf (mem_answers he)
        have hstate := hclean _ t hrun (hh.compensated hkf hct) e.effectId happlied
        rw [hct.answered _ he] at hstate
        cases hstate
  · intro hno receipt t' hrun' hfinal k hever
    rw [hrun] at hrun'
    cases hrun'
    have hkt := hback.keyed hkf
    obtain ⟨hcomp, hundone⟩ := (aggregate_compensated_iff _).1 hfinal
    rw [everApplied_iff hl hback] at hever
    have hgone : ∀ j, stateOf f.effects j = some .applied → stateOf t.effects j ≠ some .applied := by
      intro j _ hj
      have := hundone _ ((mem_statesOf hkt).2 ⟨j, hj⟩)
      simp [Undone] at this
    cases hback with
    | nothing _ => exact absurd hever (hgone k hever)
    | compensated compensate hc hfail hct =>
        obtain ⟨e, he, rfl⟩ := applied_candidate hct hever (hgone _ hever)
        obtain ⟨ok, hok⟩ := exists_answer compensate f.world he
        cases ok with
        | true => exact hct.answered _ hok
        | false =>
            -- the compensation of this effect failed, and the receipt hides it
            refine absurd ⟨compensate, hc, hfail, ?_, ?_, ⟨e, hok⟩, ?_⟩ hno
            · intro j e' he' ha'
              obtain ⟨e₁, he₁, hid⟩ := applied_candidate hct
                (stateOf_eq_some.2 ⟨e', he', ha'⟩) (hgone j (stateOf_eq_some.2 ⟨e', he', ha'⟩))
              obtain ⟨hget, -, hcomp₁⟩ := (mem_candidates hkf).1 (List.mem_reverse.1 he₁)
              rw [hid, he'] at hget
              cases hget
              exact hcomp₁
            · intro x hx
              obtain ⟨j, hj⟩ := (mem_statesOf hkf).1 hx
              by_cases hxa : x = .applied
              · exact Or.inl hxa
              · right
                apply hundone
                rw [mem_statesOf hkt]
                refine ⟨j, ?_⟩
                rw [hct.others j, hj]
                intro hm
                obtain ⟨e₁, he₁, rfl⟩ := List.mem_map.1 hm
                rw [candidate_applied hkf he₁] at hj
                exact hxa (Option.some.inj hj).symm
            · obtain ⟨j, hj⟩ := (mem_statesOf hkt).1 hcomp
              by_cases hm : j ∈ (candidates f.effects).reverse.map AtomicEffect.effectId
              · obtain ⟨e₁, he₁, rfl⟩ := List.mem_map.1 hm
                obtain ⟨ok₁, hok₁⟩ := exists_answer compensate f.world he₁
                have hst := hct.answered _ hok₁
                rw [hj] at hst
                cases ok₁ with
                | true => exact Or.inl ⟨e₁, hok₁⟩
                | false => cases hst
              · rw [hct.others j hm] at hj
                exact Or.inr ((mem_statesOf hkf).2 ⟨j, hj⟩)

/-! ## The order of the compensations -/

/-- `a` stands before `b` in the list. -/
def Before (l : List Str) (a b : Str) : Prop := [a, b].Sublist l

omit [FloatModel] in
theorem before_reverse {l : List Str} {a b : Str} : Before l.reverse b a ↔ Before l a b := by
  rw [Before, Before, ← List.reverse_sublist, List.reverse_reverse]
  rfl

omit [FloatModel] in
theorem before_filter {l : List Str} {p : Str → Bool} {a b : Str} (ha : p a = true)
    (hb : p b = true) : Before (l.filter p) a b ↔ Before l a b := by
  constructor
  · intro h
    exact h.trans List.filter_sublist
  · intro h
    have := h.filter p
    rwa [List.filter_cons_of_pos ha, List.filter_cons_of_pos hb, List.filter_nil] at this

omit [FloatModel] in
/-- Effects that are chosen from a dictionary stand in its order. -/
theorem map_filter_values {effects : Effects} (hk : Keyed effects) (p : AtomicEffect → Bool) :
    ((effects.map Prod.snd).filter p).map AtomicEffect.effectId =
      effects.keys.filter fun k => (effects.get? k).any p := by
  have hp : ∀ e ∈ effects.map Prod.snd, p e = (effects.get? e.effectId).any p := by
    intro e he
    rw [(mem_values hk).1 he, Option.any_some]
  rw [List.filter_congr hp, ← map_effectId hk]
  generalize effects.map Prod.snd = values
  rw [List.filter_map]
  rfl

/-- The effect of a key is compensated after a failure. -/
def isCandidate (effects : Effects) (k : Str) : Bool :=
  (effects.get? k).any fun e => decide (e.state = .applied) && e.compensable

omit [FloatModel] in
theorem isCandidate_of_mem {effects : Effects} (hk : Keyed effects) {e : AtomicEffect}
    (he : e ∈ candidates effects) : isCandidate effects e.effectId = true := by
  obtain ⟨hget, hst, hcomp⟩ := (mem_candidates hk).1 he
  simp [isCandidate, hget, hst, hcomp]

variable (tx) in
/-- `b` depends on `a`, directly or through other effects. -/
def Depends (b a : Str) : Prop :=
  Relation.TransGen (fun x y => ∃ e, tx.effects.get? x = some e ∧ y ∈ e.dependsOn) b a

variable (c tx) in
/-- Of two effects that the run compensated the one that depends on the other comes first. -/
def OrderedRollback (world : ω) : Prop :=
  ∀ receipt t, run c tx world = .ok (receipt, t) → ∀ a ∈ compensations t.trace,
    ∀ b ∈ compensations t.trace, stateOf t.effects a = some .compensated →
    stateOf t.effects b = some .compensated → Depends tx b a → Before (compensations t.trace) b a

variable (c tx) in
/-- Of two applied effects for which `compensate` succeeds the one that depends on the other was
inserted later. -/
def InsertedInOrder (f : Saga ω) : Prop :=
  ∀ compensate, c.compensate = some compensate → .failed ∈ statesOf f.effects →
    ∀ a b, (a, true) ∈ answers compensate (candidates f.effects).reverse f.world →
    (b, true) ∈ answers compensate (candidates f.effects).reverse f.world →
    Depends tx b.effectId a.effectId → Before tx.effects.keys a.effectId b.effectId

/-- The compensations of a run are the candidates, in the reverse order of the dictionary. -/
theorem RolledBack.compensations {effects : Effects} (hl : Looped effects f) (hkf : Keyed f.effects)
    (hback : RolledBack c f t) (hfail : .failed ∈ statesOf f.effects) (hc : c.compensate ≠ none) :
    compensations t.trace = (effects.keys.filter (isCandidate f.effects)).reverse := by
  cases hback with
  | nothing hno =>
      rcases hno with hno | hno
      · exact absurd hno hc
      · exact absurd hfail hno
  | compensated compensate _ _ hct =>
      rw [hct.order, hl.uncompensated, List.nil_append, List.map_reverse, candidates,
        map_filter_values hkf, hl.shape.keys]
      rfl

/-- The order of two compensations is the reverse of the order in which they were inserted. -/
theorem before_compensations {effects : Effects} (hl : Looped effects f) (hkf : Keyed f.effects)
    (hback : RolledBack c f t) (hfail : .failed ∈ statesOf f.effects) (hc : c.compensate ≠ none)
    {a b : AtomicEffect} (ha : a ∈ candidates f.effects) (hb : b ∈ candidates f.effects) :
    Before (compensations t.trace) b.effectId a.effectId ↔
      Before effects.keys a.effectId b.effectId := by
  rw [hback.compensations hl hkf hfail hc, before_reverse,
    before_filter (isCandidate_of_mem hkf ha) (isCandidate_of_mem hkf hb)]

omit [FloatModel] in
/-- A compensated effect is one for which `compensate` succeeded. -/
theorem Compensated.answer {compensate : ω → AtomicEffect → Option Bool × ω}
    {es : List AtomicEffect} (hct : Compensated compensate es f t) {k : Str}
    (hk : k ∈ es.map AtomicEffect.effectId) (hst : stateOf t.effects k = some .compensated) :
    ∃ e, (e, true) ∈ answers compensate es f.world ∧ e.effectId = k := by
  obtain ⟨e, he, rfl⟩ := List.mem_map.1 hk
  obtain ⟨ok, hok⟩ := exists_answer compensate f.world he
  have hans := hct.answered _ hok
  rw [hst] at hans
  cases ok with
  | true => exact ⟨e, hok, rfl⟩
  | false => cases hans

/-- Compensations are in the order of the dependencies exactly when the effects that they undo were
inserted in that order. -/
theorem orderedRollback_insertion (world : ω) (hl : Looped tx.effects f) (hkf : Keyed f.effects)
    (hback : RolledBack c f t) (hrun : run c tx world = .ok (tx.receipt t, t)) :
    OrderedRollback c tx world ↔ InsertedInOrder c tx f := by
  constructor
  · intro hord compensate hc hfail a b ha hb hdep
    have hsome : c.compensate ≠ none := by
      rw [hc]
      nofun
    have hac := List.mem_reverse.1 (mem_answers ha)
    have hbc := List.mem_reverse.1 (mem_answers hb)
    rw [← before_compensations hl hkf hback hfail hsome hac hbc]
    cases hback with
    | nothing hno =>
        rcases hno with hno | hno
        · exact absurd hno hsome
        · exact absurd hfail hno
    | compensated compensate' hc' _ hct =>
        rw [hc] at hc'
        cases hc'
        have hin : ∀ e ∈ candidates f.effects, e.effectId ∈ compensations t.trace := by
          intro e he
          rw [hct.order]
          exact List.mem_append_right _ (List.mem_map_of_mem (List.mem_reverse.2 he))
        exact hord _ t hrun _ (hin a hac) _ (hin b hbc) (hct.answered _ ha) (hct.answered _ hb) hdep
  · intro hins receipt t' hrun' a ha b hb hsa hsb hdep
    rw [hrun] at hrun'
    cases hrun'
    cases hback with
    | nothing _ =>
        rw [hl.uncompensated] at ha
        cases ha
    | compensated compensate hc hfail hct =>
        rw [hct.order, hl.uncompensated, List.nil_append] at ha hb
        obtain ⟨ea, hea, rfl⟩ := hct.answer ha hsa
        obtain ⟨eb, heb, rfl⟩ := hct.answer hb hsb
        have hsome : c.compensate ≠ none := by
          rw [hc]
          nofun
        rw [before_compensations hl hkf (.compensated compensate hc hfail hct) hfail hsome
          (List.mem_reverse.1 (mem_answers hea)) (List.mem_reverse.1 (mem_answers heb))]
        exact hins compensate hc hfail ea eb hea heb hdep

/-! ### Dictionaries in topological order -/

/-- Every effect was inserted after its dependencies. -/
def Topological (effects : Effects) : Prop :=
  ∀ k e, effects.get? k = some e → ∀ d ∈ e.dependsOn, Before effects.keys d k

/-- The effects were applied in the order of the dictionary, and the rest is still to do. -/
def AppliedInOrder (effects : Effects) (s : Saga ω) : Prop :=
  ∃ rest, effects.keys = applications s.trace ++ rest ∧
    ∀ k ∈ rest, stateOf s.effects k = some .prepared

omit [FloatModel] in
theorem not_before_head {r : List Str} {k d : Str} (hk : k ∉ r) : ¬ Before (k :: r) d k := by
  intro h
  rcases List.sublist_cons_iff.1 h with h | ⟨l, hl, h⟩
  · exact hk (h.subset (by simp))
  · cases hl
    exact hk (h.subset (by simp))

omit [FloatModel] in
theorem mem_of_before {l r : List Str} {k d : Str} (hnd : (l ++ k :: r).Nodup)
    (h : Before (l ++ k :: r) d k) : d ∈ l := by
  have hk : k ∉ r := (List.nodup_cons.1 (List.nodup_append.1 hnd).2.1).1
  obtain ⟨l₁, l₂, heq, h₁, h₂⟩ := List.sublist_append_iff.1 h
  cases l₁ with
  | nil =>
      rw [List.nil_append] at heq
      rw [← heq] at h₂
      exact absurd h₂ (not_before_head hk)
  | cons x l₁ =>
      obtain ⟨rfl, -⟩ := List.cons.inj heq
      exact h₁.subset List.mem_cons_self

omit [FloatModel] in
/-- No ready effect stands before the first. -/
theorem first_ready {effects : Effects} (hk : Keyed effects) {e x : AtomicEffect}
    {others : List AtomicEffect} (hr : ready effects = e :: others) (hx : x ∈ ready effects)
    (h : Before effects.keys x.effectId e.effectId) : False := by
  have hany : ∀ y ∈ ready effects, (effects.get? y.effectId).any
      (fun e => decide (e.state = .prepared) && depsApplied effects e) = true := by
    intro y hy
    rw [((mem_ready hk).1 hy).1, Option.any_some]
    exact (List.mem_filter.1 hy).2
  have he : e ∈ ready effects := by
    rw [hr]
    exact List.mem_cons_self
  have hfilter : Before ((ready effects).map AtomicEffect.effectId) x.effectId e.effectId := by
    rw [ready, map_filter_values hk]
    exact (before_filter (p := fun k => (effects.get? k).any fun e =>
      decide (e.state = .prepared) && depsApplied effects e) (hany x hx) (hany e he)).2 h
  have hnd : ((ready effects).map AtomicEffect.effectId).Nodup := by
    rw [ready, map_filter_values hk]
    exact hk.nodup.filter _
  rw [hr] at hnd hfilter
  exact not_before_head (List.nodup_cons.1 hnd).1 hfilter

omit [FloatModel] in
/-- The first ready effect is the first that is still to do. -/
theorem AppliedInOrder.next {effects : Effects} {s : Saga ω} {e : AtomicEffect}
    {others : List AtomicEffect} (h : AppliedInOrder effects s) (hk : Keyed s.effects)
    (hl : Looped effects s) (htop : Topological effects) (hr : ready s.effects = e :: others) :
    ∃ rest, effects.keys = applications s.trace ++ e.effectId :: rest ∧
      ∀ k ∈ rest, stateOf s.effects k = some .prepared := by
  obtain ⟨rest, hkeys, hrest⟩ := h
  have hready : e ∈ ready s.effects := by
    rw [hr]
    exact List.mem_cons_self
  obtain ⟨hget, hp, -⟩ := (mem_ready hk).1 hready
  have hprep : stateOf s.effects e.effectId = some .prepared := stateOf_eq_some.2 ⟨e, hget, hp⟩
  have hmem : e.effectId ∈ rest := by
    have hin : e.effectId ∈ effects.keys := hl.shape.keys ▸ Dict.mem_keys_of_get? hget
    rw [hkeys] at hin
    rcases List.mem_append.1 hin with hin | hin
    · have := (hl.applied e.effectId).2 (Or.inr hin)
      rw [hprep] at this
      cases this
    · exact hin
  cases rest with
  | nil => cases hmem
  | cons k rest =>
      -- the dependencies of `k` stand before it, so that they have been applied
      have hst : stateOf s.effects k = some .prepared := hrest k List.mem_cons_self
      obtain ⟨x, hx, hxp⟩ := stateOf_eq_some.1 hst
      have hxid : x.effectId = k := hk.ids k x hx
      have hnd : (applications s.trace ++ k :: rest).Nodup := by
        rw [← hkeys, ← hl.shape.keys]
        exact hk.nodup
      have hxr : x ∈ ready s.effects := by
        rw [mem_ready hk, hxid]
        refine ⟨hx, hxp, ?_⟩
        intro d hd
        obtain ⟨x₀, hx₀, -, hdep, -⟩ := hl.shape.ids k x hx
        have hbefore := htop k x₀ hx₀ d (hdep ▸ hd)
        rw [hkeys] at hbefore
        exact (hl.applied d).2 (Or.inr (mem_of_before hnd hbefore))
      have hsame : e.effectId = k := by
        by_contra hne
        have hin : e.effectId ∈ rest := (List.mem_cons.1 hmem).resolve_left hne
        have hbefore : Before s.effects.keys k e.effectId := by
          rw [hl.shape.keys, hkeys]
          exact ((List.singleton_sublist.2 hin).cons_cons k).trans (List.sublist_append_right _ _)
        exact first_ready hk hr hxr (hxid.symm ▸ hbefore)
      rw [hsame]
      exact ⟨rest, hkeys, fun j hj => hrest j (List.mem_cons_of_mem _ hj)⟩

omit [FloatModel] in
/-- In a dictionary in topological order the effects are applied in its order. -/
theorem Forward.appliedInOrder {effects : Effects} {s : Saga ω} (h : Forward s f)
    (hk : Keyed s.effects) (hl : Looped effects s) (htop : Topological effects)
    (hs : AppliedInOrder effects s) :
    ∃ rest, effects.keys = applications f.trace ++ rest ∧
      ∀ k ∈ rest, stateOf f.effects k ≠ some .applied := by
  induction h with
  | @stop s _ =>
      obtain ⟨rest, hkeys, hrest⟩ := hs
      refine ⟨rest, hkeys, ?_⟩
      intro k hkr
      rw [hrest k hkr]
      nofun
  | @fail s t e others hr hat =>
      obtain ⟨rest, hkeys, hrest⟩ := hs.next hk hl htop hr
      refine ⟨e.effectId :: rest, ?_, ?_⟩
      · rw [hat.applications]
        simpa using hkeys
      · intro k hkr
        rw [hat.effects.stateOf]
        split
        · nofun
        · rename_i hne
          rw [hrest k ((List.mem_cons.1 hkr).resolve_left hne)]
          nofun
  | @next s t u e others hr hat hfor ih =>
      have he : e ∈ ready s.effects := by
        rw [hr]
        exact List.mem_cons_self
      obtain ⟨rest, hkeys, hrest⟩ := hs.next hk hl htop hr
      apply ih (hat.keyed hk he) (hat.looped hk he hl)
      refine ⟨rest, ?_, ?_⟩
      · rw [hat.applications, hkeys]
        simp
      · intro k hkr
        have hnd : (applications s.trace ++ e.effectId :: rest).Nodup := by
          rw [← hkeys, ← hl.shape.keys]
          exact hk.nodup
        have hne : k ≠ e.effectId := by
          rintro rfl
          exact (List.nodup_cons.1 (List.nodup_append.1 hnd).2.1).1 hkr
        rw [hat.effects.stateOf, if_neg hne]
        exact hrest k hkr

/-- The effect of a key has a compensation. -/
def compensableAt (effects : Effects) (k : Str) : Bool :=
  (effects.get? k).any AtomicEffect.compensable

omit [FloatModel] in
/-- The candidates are the compensable effects among those that were applied. -/
theorem filter_isCandidate {effects : Effects} (hl : Looped effects f) {rest : List Str}
    (hkeys : effects.keys = applications f.trace ++ rest)
    (hrest : ∀ k ∈ rest, stateOf f.effects k ≠ some .applied) :
    effects.keys.filter (isCandidate f.effects) =
      (applications f.trace).filter (compensableAt effects) := by
  have hnone : rest.filter (isCandidate f.effects) = [] := by
    rw [List.filter_eq_nil_iff]
    intro k hk hcand
    obtain ⟨e, he, hp⟩ := (Option.any_eq_true _ _).1 hcand
    rw [Bool.and_eq_true, decide_eq_true_iff] at hp
    exact hrest k hk (stateOf_eq_some.2 ⟨e, he, hp.1⟩)
  rw [hkeys, List.filter_append, hnone, List.append_nil]
  apply List.filter_congr
  intro k hk
  obtain ⟨e, he, hst⟩ := stateOf_eq_some.1 ((hl.applied k).2 (Or.inr hk))
  obtain ⟨e₀, he₀, -, -, hcomp⟩ := hl.shape.ids k e he
  rw [isCandidate, compensableAt, he, he₀, Option.any_some, Option.any_some, hst]
  simp [AtomicEffect.compensable, hcomp]

/-- Compensations come in the reverse order of the dictionary: a dependent is compensated before
its dependency exactly when it was inserted after it. In a dictionary in topological order the
compensations come in the reverse order of the applications. -/
theorem orderedRollback_iff (c : TransactionCoordinator ω) (tx : SideEffectTransaction) (world : ω)
    (hk : Keyed tx.effects) :
    ∃ f t, forward c tx.effects.length (tx.start world) = .ok f ∧
      run c tx world = .ok (tx.receipt t, t) ∧
      (OrderedRollback c tx world ↔ InsertedInOrder c tx f) ∧
      (Topological tx.effects → (∀ k ∈ tx.effects.keys, stateOf tx.effects k = some .prepared) →
        compensations t.trace = [] ∨ compensations t.trace =
          ((applications t.trace).filter (compensableAt tx.effects)).reverse) := by
  obtain ⟨f, t, hf, hfor, hl, hkf, hback, hrun⟩ := run_spec c tx world hk
  refine ⟨f, t, hf, hrun, orderedRollback_insertion world hl hkf hback hrun, ?_⟩
  intro htop hp
  have hstart : Looped tx.effects (tx.start world) := looped_start tx.effects world []
  obtain ⟨rest, hkeys, hrest⟩ := hfor.appliedInOrder hk hstart htop ⟨tx.effects.keys, rfl, hp⟩
  by_cases hdo : .failed ∈ statesOf f.effects ∧ c.compensate ≠ none
  · right
    rw [hback.compensations hl hkf hdo.1 hdo.2, hback.applications,
      filter_isCandidate hl hkeys hrest]
  · left
    cases hback with
    | nothing _ => exact hl.uncompensated
    | compensated compensate hc hfail _ =>
        refine absurd ⟨hfail, ?_⟩ hdo
        rw [hc]
        nofun

end Laws

/-! ## Concrete transactions -/

section Concrete

attribute [local instance] wholeFloats

/-- A compensable effect that has not been attempted. -/
def preparedEffect (k : Str) (dependsOn : List Str) : AtomicEffect where
  effectId := k
  intentId := k
  dependsOn := dependsOn
  state := .prepared
  reversibility := lit "compensatable"
  resultRef := none
  compensationIntentId := some (lit "undo")

/-- The effects `a` and `b` and an effect `c` that is refused; `compensate` succeeds for the effects
listed. -/
def coordinator (undone : List Str) : TransactionCoordinator Unit where
  format := fun _ => lit "None"
  dispatch := fun _ e => (.value (.json (.bool (decide (e.effectId ≠ lit "c")))), ())
  reconcile := fun _ _ => (.raised, ())
  compensate := some fun _ e => (some (decide (e.effectId ∈ undone)), ())

/-- The transaction without effects. -/
def emptyTransaction : SideEffectTransaction where
  transactionId := lit "t"
  effects := []
  policyHash := lit "unspecified"
  nodup := List.nodup_nil
  policy := by decide
  known := nofun
  acyclic := ⟨[], rfl⟩

/-- Three effects of which the second depends on the first. -/
def chain : SideEffectTransaction where
  transactionId := lit "t"
  effects := [(lit "a", preparedEffect (lit "a") []), (lit "b", preparedEffect (lit "b") [lit "a"]),
    (lit "c", preparedEffect (lit "c") [])]
  policyHash := lit "unspecified"
  nodup := by decide
  policy := by decide
  known := by decide
  acyclic := ⟨[lit "c", lit "b", lit "a"], by decide⟩

/-- The same effects, with the dependent inserted first. -/
def reversedChain : SideEffectTransaction where
  transactionId := lit "t"
  effects := [(lit "b", preparedEffect (lit "b") [lit "a"]), (lit "a", preparedEffect (lit "a") []),
    (lit "c", preparedEffect (lit "c") [])]
  policyHash := lit "unspecified"
  nodup := by decide
  policy := by decide
  known := by decide
  acyclic := ⟨[lit "c", lit "b", lit "a"], by decide⟩

theorem keyed_of_mem {effects : Effects} (hnd : effects.keys.Nodup)
    (h : ∀ e ∈ effects, e.2.effectId = e.1) : Keyed effects :=
  ⟨hnd, fun k e he => h (k, e) (Dict.mem_of_get? he)⟩

theorem keyed_chain : Keyed chain.effects := keyed_of_mem chain.nodup (by decide)

/-- What a run returns, as a test. -/
def returns (c : TransactionCoordinator Unit) (tx : SideEffectTransaction)
    (p : TransactionReceipt → Saga Unit → Bool) : Bool :=
  match run c tx () with
  | .ok (receipt, t) => p receipt t
  | .error _ => false

theorem exists_of_returns {c : TransactionCoordinator Unit} {tx : SideEffectTransaction}
    {p : TransactionReceipt → Saga Unit → Bool} (h : returns c tx p = true) :
    ∃ receipt t, run c tx () = .ok (receipt, t) ∧ p receipt t = true := by
  rw [returns] at h
  split at h
  · exact ⟨_, _, ‹_›, h⟩
  · cases h

/-- Without effects the transaction is not complete, although there is nothing left to apply. -/
theorem not_forwardLaw_empty : ¬ ForwardLaw (coordinator []) emptyTransaction () := by
  rintro ⟨receipt, t, hrun, -, -, -, hiff⟩
  have hfinal : run (coordinator []) emptyTransaction () =
      .ok (emptyTransaction.receipt ⟨(), [], [], []⟩, ⟨(), [], [], []⟩) := rfl
  rw [hfinal] at hrun
  cases hrun
  cases hiff.2 nofun

/-- The forward law on three effects of which the last fails. -/
theorem forwardLaw_chain : ForwardLaw (coordinator []) chain () :=
  (forwardLaw_iff _ _ _ keyed_chain (by decide)).2 (by decide)

/-- The compensation of `a` fails after that of `b`, and the receipt says compensated. -/
theorem not_cleanRollback_chain : ¬ CleanRollback (coordinator [lit "b"]) chain () := by
  intro hclean
  have hreturns : returns (coordinator [lit "b"]) chain (fun receipt t =>
      decide (receipt.finalState = .compensated) && (decide (.became (lit "a") .applied ∈ t.trace) &&
        decide (stateOf t.effects (lit "a") = some .failed))) = true := by decide
  obtain ⟨receipt, t, hrun, hp⟩ := exists_of_returns hreturns
  simp only [Bool.and_eq_true, decide_eq_true_eq] at hp
  obtain ⟨hfinal, hmem, hstate⟩ := hp
  have := hclean receipt t hrun hfinal (lit "a") (Or.inr hmem)
  rw [hstate] at this
  cases this

/-- The condition for a clean rollback, on the same transaction. -/
theorem cleanRollback_chain : Keyed chain.effects ∧
    ∃ f, forward (coordinator [lit "a", lit "b"]) chain.effects.length (chain.start ()) = .ok f ∧
      (CleanRollback (coordinator [lit "a", lit "b"]) chain () ↔
        ¬ ∃ compensate, HidesFailure (coordinator [lit "a", lit "b"]) f compensate) :=
  ⟨keyed_chain, cleanRollback_iff _ _ _ keyed_chain⟩

/-- The dependent was inserted first, and its dependency is compensated before it. -/
theorem not_orderedRollback_reversed :
    ¬ OrderedRollback (coordinator [lit "a", lit "b"]) reversedChain () := by
  intro hord
  have hreturns : returns (coordinator [lit "a", lit "b"]) reversedChain (fun _ t =>
      decide (compensations t.trace = [lit "a", lit "b"]) &&
        (decide (stateOf t.effects (lit "a") = some .compensated) &&
          decide (stateOf t.effects (lit "b") = some .compensated))) = true := by decide
  obtain ⟨receipt, t, hrun, hp⟩ := exists_of_returns hreturns
  simp only [Bool.and_eq_true, decide_eq_true_eq] at hp
  obtain ⟨hcomp, ha, hb⟩ := hp
  have hdep : Depends reversedChain (lit "b") (lit "a") :=
    .single ⟨preparedEffect (lit "b") [lit "a"], by decide, List.mem_singleton.2 rfl⟩
  have hbefore := hord receipt t hrun (lit "a") (by rw [hcomp]; simp) (lit "b")
    (by rw [hcomp]; simp) ha hb hdep
  rw [hcomp] at hbefore
  exact not_before_head (r := [lit "b"]) (k := lit "a") (d := lit "b") (by decide) hbefore

/-- In a dictionary in topological order the compensations undo the applications backwards. -/
theorem orderedRollback_chain : ∃ t : Saga Unit,
    run (coordinator [lit "a", lit "b"]) chain () = .ok (chain.receipt t, t) ∧
      (compensations t.trace = [] ∨ compensations t.trace =
        ((applications t.trace).filter (compensableAt chain.effects)).reverse) := by
  obtain ⟨f, t, -, hrun, -, htop⟩ :=
    orderedRollback_iff (coordinator [lit "a", lit "b"]) chain () keyed_chain
  refine ⟨t, hrun, htop ?_ (by decide)⟩
  intro k e he d hd
  have hmem := Dict.mem_of_get? he
  simp only [chain, List.mem_cons, List.not_mem_nil, or_false, Prod.mk.injEq] at hmem
  rcases hmem with ⟨-, rfl⟩ | ⟨rfl, rfl⟩ | ⟨-, rfl⟩
  · cases hd
  · rw [List.mem_singleton.1 hd]
    exact List.Sublist.cons_cons _ (List.Sublist.cons_cons _ (List.nil_sublist _))
  · cases hd

end Concrete

end ResidualHarness.ControlPlane
