import ResidualHarness.ControlPlane.Transactions

/-!
# Runs of the coordinator

What a run of `TransactionCoordinator` does, from one spec for an attempt and one for a
compensation: a run always returns (`run_spec`), its forward part dispatches every effect at most
once, and its second part compensates the candidates in the reverse order of the dictionary.
-/

set_option autoImplicit false

namespace ResidualHarness.ControlPlane

open Python Core

/-! ## Effects -/

/-- Every effect stands under its own id. -/
structure Keyed (effects : Effects) : Prop where
  nodup : effects.keys.Nodup
  ids : ∀ k e, effects.get? k = some e → e.effectId = k

/-- The effect in another state. -/
def AtomicEffect.at (e : AtomicEffect) (state : IntentState) : AtomicEffect :=
  { e with state := state, resultRef := none }

/-- The effects have the same ids, dependencies and compensations, in the same order. -/
structure SameShape (before after : Effects) : Prop where
  keys : after.keys = before.keys
  ids : ∀ k e, after.get? k = some e → ∃ e₀, before.get? k = some e₀ ∧ e.effectId = e₀.effectId ∧
    e.dependsOn = e₀.dependsOn ∧ e.compensationIntentId = e₀.compensationIntentId

theorem SameShape.refl (effects : Effects) : SameShape effects effects :=
  ⟨rfl, fun _ e he => ⟨e, he, rfl, rfl, rfl⟩⟩

theorem SameShape.trans {a b c : Effects} (h₁ : SameShape a b) (h₂ : SameShape b c) :
    SameShape a c := by
  refine ⟨h₂.keys.trans h₁.keys, ?_⟩
  intro k e he
  obtain ⟨e₁, he₁, hi, hd, hc⟩ := h₂.ids k e he
  obtain ⟨e₀, he₀, hi', hd', hc'⟩ := h₁.ids k e₁ he₁
  exact ⟨e₀, he₀, hi.trans hi', hd.trans hd', hc.trans hc'⟩

theorem SameShape.keyed {a b : Effects} (hs : SameShape a b) (ha : Keyed a) : Keyed b := by
  refine ⟨by rw [hs.keys]; exact ha.nodup, ?_⟩
  intro k e he
  obtain ⟨e₀, he₀, hi, -⟩ := hs.ids k e he
  rw [hi]
  exact ha.ids k e₀ he₀

/-- The effects after the effect `e` has got another state. -/
def Effects.Changed (before after : Effects) (e : AtomicEffect) (state : IntentState) : Prop :=
  after.keys = before.keys ∧
    ∀ k, after.get? k = if k = e.effectId then some (e.at state) else before.get? k

theorem Effects.Changed.sameShape {before after : Effects} {e : AtomicEffect} {state : IntentState}
    (h : before.Changed after e state) (he : before.get? e.effectId = some e) :
    SameShape before after := by
  refine ⟨h.1, ?_⟩
  intro k x hx
  rw [h.2] at hx
  split at hx
  · rename_i hk
    cases hx
    exact ⟨e, by rw [hk]; exact he, rfl, rfl, rfl⟩
  · exact ⟨x, hx, rfl, rfl, rfl⟩

theorem Effects.Changed.stateOf {before after : Effects} {e : AtomicEffect} {state : IntentState}
    (h : before.Changed after e state) (k : Str) :
    stateOf after k = if k = e.effectId then some state else ControlPlane.stateOf before k := by
  rw [ControlPlane.stateOf, h.2]
  split
  · rfl
  · rfl

theorem stateOf_eq_some {effects : Effects} {k : Str} {x : IntentState} :
    stateOf effects k = some x ↔ ∃ e, effects.get? k = some e ∧ e.state = x := by
  rw [stateOf, Option.map_eq_some_iff]

theorem mem_statesOf {effects : Effects} (hk : Keyed effects) {x : IntentState} :
    x ∈ statesOf effects ↔ ∃ k, stateOf effects k = some x := by
  rw [statesOf, List.mem_map]
  constructor
  · rintro ⟨⟨k, e⟩, he, rfl⟩
    exact ⟨k, stateOf_eq_some.2 ⟨e, Dict.get?_of_mem hk.nodup he, rfl⟩⟩
  · rintro ⟨k, hx⟩
    obtain ⟨e, he, rfl⟩ := stateOf_eq_some.1 hx
    exact ⟨(k, e), Dict.mem_of_get? he, rfl⟩

theorem statesOf_ne_nil {effects : Effects} : statesOf effects ≠ [] ↔ effects ≠ [] := by
  rw [statesOf, ne_eq, List.map_eq_nil_iff]

theorem mem_values {effects : Effects} (hk : Keyed effects) {e : AtomicEffect} :
    e ∈ effects.map Prod.snd ↔ effects.get? e.effectId = some e := by
  rw [List.mem_map]
  constructor
  · rintro ⟨⟨k, e'⟩, he, rfl⟩
    have hget := Dict.get?_of_mem hk.nodup he
    rw [hk.ids k e' hget]
    exact hget
  · intro he
    exact ⟨(e.effectId, e), Dict.mem_of_get? he, rfl⟩

theorem mem_ready {effects : Effects} (hk : Keyed effects) {e : AtomicEffect} :
    e ∈ ready effects ↔ effects.get? e.effectId = some e ∧ e.state = .prepared ∧
      ∀ d ∈ e.dependsOn, stateOf effects d = some .applied := by
  rw [ready, List.mem_filter, mem_values hk]
  simp [depsApplied]

theorem mem_candidates {effects : Effects} (hk : Keyed effects) {e : AtomicEffect} :
    e ∈ candidates effects ↔ effects.get? e.effectId = some e ∧ e.state = .applied ∧
      e.compensable = true := by
  rw [candidates, List.mem_filter, mem_values hk]
  simp

theorem map_effectId {effects : Effects} (hk : Keyed effects) :
    (effects.map Prod.snd).map AtomicEffect.effectId = effects.keys := by
  rw [List.map_map, Dict.keys]
  apply List.map_congr_left
  rintro ⟨k, e⟩ he
  exact hk.ids k e (Dict.get?_of_mem hk.nodup he)

theorem nodup_candidates {effects : Effects} (hk : Keyed effects) :
    ((candidates effects).map AtomicEffect.effectId).Nodup := by
  have hsub := (List.filter_sublist (l := effects.map Prod.snd)
    (p := fun e => decide (e.state = .applied) && e.compensable)).map AtomicEffect.effectId
  rw [map_effectId hk] at hsub
  exact hk.nodup.sublist hsub

/-! ## Transitions -/

section Transitions

variable {ω : Type} {s : Saga ω} {e : AtomicEffect}

theorem keys_set_of_get? {effects : Effects} {k : Str} {x y : AtomicEffect}
    (hx : effects.get? k = some x) : (effects.set k y).keys = effects.keys := by
  rw [Dict.keys_set, if_pos (Dict.mem_keys_of_get? hx)]

/-- The effect gets the state, and everything else is as it was. -/
theorem move_spec {x : AtomicEffect} {state : IntentState} (name : Str)
    (hx : s.effects.get? e.effectId = some x) (ha : state ∈ allowed x.state) :
    ∃ t, move s e state name = .ok t ∧ t.world = s.world ∧
      t.effects = s.effects.set e.effectId (x.at state) ∧
      t.trace = s.trace ++ [Action.became e.effectId state] := by
  have htr : transition s e.effectId state = .ok { s with
      effects := s.effects.set e.effectId (x.at state)
      trace := s.trace ++ [.became e.effectId state] } := by
    simp only [transition, hx, if_pos ha]
    rfl
  exact ⟨event { s with
      effects := s.effects.set e.effectId (x.at state)
      trace := s.trace ++ [.became e.effectId state] } name e,
    by rw [move, htr]; rfl, rfl, rfl, rfl⟩

@[simp]
theorem answered_effects (action : Action) (w : ω) (raised : Bool) (name : Str) :
    (answered s e action w raised name).effects = s.effects := by
  cases raised <;> rfl

@[simp]
theorem answered_trace (action : Action) (w : ω) (raised : Bool) (name : Str) :
    (answered s e action w raised name).trace = s.trace ++ [action] := by
  cases raised <;> rfl

@[simp]
theorem answered_world (action : Action) (w : ω) (raised : Bool) (name : Str) :
    (answered s e action w raised name).world = w := by
  cases raised <;> rfl

/-- The first move of an effect. -/
theorem move_first (state : IntentState) (name : Str)
    (he : s.effects.get? e.effectId = some e) (ha : state ∈ allowed e.state) :
    ∃ t, move s e state name = .ok t ∧ t.world = s.world ∧
      s.effects.Changed t.effects e state ∧
        t.trace = s.trace ++ [Action.became e.effectId state] := by
  obtain ⟨t, ht, hw, heff, htr⟩ := move_spec name he ha
  refine ⟨t, ht, hw, ⟨?_, ?_⟩, htr⟩
  · rw [heff, keys_set_of_get? he]
  · intro k
    rw [heff, Dict.get?_set]

theorem Effects.Changed.move {before : Effects} {x : IntentState}
    (h : before.Changed s.effects e x) (state : IntentState) (name : Str)
    (ha : state ∈ allowed x) :
    ∃ t, ControlPlane.move s e state name = .ok t ∧ t.world = s.world ∧
      before.Changed t.effects e state ∧ t.trace = s.trace ++ [Action.became e.effectId state] := by
  have hget : s.effects.get? e.effectId = some (e.at x) := by
    rw [h.2, if_pos rfl]
  obtain ⟨t, ht, hw, heff, htr⟩ := move_spec name hget ha
  refine ⟨t, ht, hw, ⟨?_, ?_⟩, htr⟩
  · rw [heff, keys_set_of_get? hget, h.1]
  · intro k
    rw [heff, Dict.get?_set]
    split
    · rfl
    · rename_i hk
      rw [h.2, if_neg hk]

end Transitions

/-! ## One attempt -/

section Attempt

variable {ω : Type} {s t : Saga ω} {e : AtomicEffect}

/-- The state in which an attempt leaves its effect. -/
def outcomeState (goesOn : Bool) : IntentState := if goesOn then .applied else .failed

/-- What an attempt adds to the trace between the dispatch and its last transition. -/
def Reconciles (k : Str) (mid : List Action) : Prop :=
  ∀ a ∈ mid, a = .became k .ambiguous ∨ a = .became k .reconciling ∨ a = .reconcile k

/-- What an attempt does. -/
structure Attempted (s t : Saga ω) (e : AtomicEffect) (goesOn : Bool) : Prop where
  effects : s.effects.Changed t.effects e (outcomeState goesOn)
  trace : ∃ snap mid, t.trace = s.trace ++ (Action.became e.effectId .attempted ::
    .dispatch e.effectId snap :: mid) ++ [Action.became e.effectId (outcomeState goesOn)] ∧
    s.effects.Changed snap e .attempted ∧ Reconciles e.effectId mid

theorem reconcileEffect_spec [FloatModel] (c : TransactionCoordinator ω) {before : Effects}
    (h : before.Changed s.effects e .attempted) :
    ∃ t goesOn mid, reconcileEffect c s e = .ok (t, goesOn) ∧
      before.Changed t.effects e (outcomeState goesOn) ∧
      t.trace = s.trace ++ mid ++ [Action.became e.effectId (outcomeState goesOn)] ∧
      Reconciles e.effectId mid := by
  obtain ⟨s₁, hs₁, -, hc₁, ht₁⟩ := h.move .ambiguous (lit "ambiguous") (by decide)
  obtain ⟨s₂, hs₂, -, hc₂, ht₂⟩ := hc₁.move .reconciling (lit "reconciling") (by decide)
  rw [reconcileEffect, hs₁]
  simp only [bind, Except.bind, hs₂]
  generalize c.reconcile s₂.world e = r
  generalize hs₃ : answered s₂ e (.reconcile e.effectId) r.2 r.1.isRaised
    (lit "reconciliation_error") = s₃
  have hc₃ : before.Changed s₃.effects e .reconciling := by
    rw [← hs₃, answered_effects]
    exact hc₂
  have htr : s₃.trace = s.trace ++ [Action.became e.effectId .ambiguous,
      .became e.effectId .reconciling, .reconcile e.effectId] := by
    rw [← hs₃, answered_trace, ht₂, ht₁]
    simp
  have hmid : Reconciles e.effectId [.became e.effectId .ambiguous,
      .became e.effectId .reconciling, .reconcile e.effectId] := by
    intro a ha
    simpa using ha
  split
  · obtain ⟨t, ht, -, hc, htt⟩ := hc₃.move .applied (resolvedName c r.1) (by decide)
    exact ⟨t, true, _, by rw [ht]; rfl, hc, by rw [htt, htr]; rfl, hmid⟩
  · obtain ⟨t, ht, -, hc, htt⟩ := hc₃.move .failed (resolvedName c r.1) (by decide)
    exact ⟨t, false, _, by rw [ht]; rfl, hc, by rw [htt, htr]; rfl, hmid⟩

theorem attempt_spec [FloatModel] (c : TransactionCoordinator ω)
    (he : s.effects.get? e.effectId = some e)
    (hp : e.state = .prepared) :
    ∃ t goesOn, attempt c s e = .ok (t, goesOn) ∧ Attempted s t e goesOn := by
  obtain ⟨s₁, hs₁, -, hc₁, ht₁⟩ := move_first .attempted (lit "attempted") he
    (by rw [hp]; decide)
  rw [attempt, hs₁]
  simp only [bind, Except.bind]
  generalize c.dispatch s₁.world e = r
  generalize hs₂ : answered s₁ e (.dispatch e.effectId s₁.effects) r.2 r.1.isRaised
    (lit "dispatch_error") = s₂
  have hc₂ : s.effects.Changed s₂.effects e .attempted := by
    rw [← hs₂, answered_effects]
    exact hc₁
  have htr : s₂.trace = s.trace ++ [Action.became e.effectId .attempted,
      .dispatch e.effectId s₁.effects] := by
    rw [← hs₂, answered_trace, ht₁]
    simp
  split
  · obtain ⟨t, ht, -, hc, htt⟩ := hc₂.move .applied (lit "applied") (by decide)
    refine ⟨t, true, by rw [ht]; rfl, hc, s₁.effects, [], ?_, hc₁, nofun⟩
    rw [htt, htr]
    rfl
  · split
    · obtain ⟨t, ht, -, hc, htt⟩ := hc₂.move .failed (lit "failed") (by decide)
      refine ⟨t, false, by rw [ht]; rfl, hc, s₁.effects, [], ?_, hc₁, nofun⟩
      rw [htt, htr]
      rfl
    · obtain ⟨t, goesOn, mid, ht, hc, htt, hmid⟩ := reconcileEffect_spec c hc₂
      refine ⟨t, goesOn, ht, hc, s₁.effects, mid, ?_, hc₁, hmid⟩
      rw [htt, htr]
      simp

end Attempt

/-! ## The forward part -/

section Forward

variable {ω : Type}

/-- The loop of a run: attempts of the first ready effect, to the first that fails. -/
inductive Forward : Saga ω → Saga ω → Prop
  | stop {s : Saga ω} : ready s.effects = [] → Forward s s
  | fail {s t : Saga ω} {e : AtomicEffect} {rest : List AtomicEffect} :
      ready s.effects = e :: rest → Attempted s t e false → Forward s t
  | next {s t u : Saga ω} {e : AtomicEffect} {rest : List AtomicEffect} :
      ready s.effects = e :: rest → Attempted s t e true → Forward t u → Forward s u

theorem Attempted.keyed {s t : Saga ω} {e : AtomicEffect} {b : Bool} (h : Attempted s t e b)
    (hk : Keyed s.effects) (he : e ∈ ready s.effects) : Keyed t.effects :=
  (h.effects.sameShape ((mem_ready hk).1 he).1).keyed hk

/-- The number of prepared effects. -/
def preparedCount (effects : Effects) : Nat :=
  effects.keys.countP fun k => decide (stateOf effects k = some .prepared)

theorem preparedCount_lt {before after : Effects} {e : AtomicEffect} {state : IntentState}
    (h : before.Changed after e state) (he : before.get? e.effectId = some e)
    (hp : e.state = .prepared) (hs : state ≠ .prepared) :
    preparedCount after < preparedCount before := by
  have hmem : e.effectId ∈ before.keys := Dict.mem_keys_of_get? he
  have hbefore : stateOf before e.effectId = some .prepared := stateOf_eq_some.2 ⟨e, he, hp⟩
  rw [preparedCount, preparedCount, h.1, List.countP_eq_length_filter,
    List.countP_eq_length_filter]
  have hsub : (before.keys.filter fun k => decide (stateOf after k = some .prepared)) =
      (before.keys.filter fun k => decide (stateOf before k = some .prepared)).filter
        fun k => decide (k ≠ e.effectId) := by
    rw [List.filter_filter]
    apply List.filter_congr
    intro k _
    rw [h.stateOf]
    by_cases hk : k = e.effectId
    · simp [hk, hs]
    · simp [hk]
  rw [hsub]
  apply List.length_filter_lt_length_iff_exists.2
  exact ⟨e.effectId, List.mem_filter.2 ⟨hmem, by simpa using hbefore⟩, by simp⟩

theorem preparedCount_le (effects : Effects) : preparedCount effects ≤ effects.length :=
  List.countP_le_length.trans (by rw [Dict.keys, List.length_map])

/-- The loop returns. -/
theorem forward_total [FloatModel] (c : TransactionCoordinator ω) {fuel : Nat} {s : Saga ω}
    (hk : Keyed s.effects) (hfuel : preparedCount s.effects ≤ fuel) :
    ∃ t, forward c fuel s = .ok t ∧ Forward s t := by
  induction fuel generalizing s with
  | zero =>
      cases hr : ready s.effects with
      | nil => exact ⟨s, by rw [forward, hr], .stop hr⟩
      | cons e rest =>
          have he : e ∈ ready s.effects := by rw [hr]; exact List.mem_cons_self
          obtain ⟨hget, hp, -⟩ := (mem_ready hk).1 he
          have hpos : 0 < preparedCount s.effects := List.countP_pos_iff.2
            ⟨e.effectId, Dict.mem_keys_of_get? hget,
              by simpa using stateOf_eq_some.2 ⟨e, hget, hp⟩⟩
          omega
  | succ fuel ih =>
      cases hr : ready s.effects with
      | nil => exact ⟨s, by rw [forward, hr], .stop hr⟩
      | cons e rest =>
          have he : e ∈ ready s.effects := by rw [hr]; exact List.mem_cons_self
          obtain ⟨hget, hp, -⟩ := (mem_ready hk).1 he
          obtain ⟨t, goesOn, ht, hat⟩ := attempt_spec c hget hp
          have hlt := preparedCount_lt hat.effects hget hp (by cases goesOn <;> decide)
          cases goesOn with
          | true =>
              obtain ⟨u, hu, hfu⟩ := ih (hat.keyed hk he) (by omega)
              refine ⟨u, ?_, .next hr hat hfu⟩
              rw [forward, hr]
              simp only [ht, bind, Except.bind, if_true]
              exact hu
          | false =>
              refine ⟨t, ?_, .fail hr hat⟩
              rw [forward, hr]
              simp only [ht, bind, Except.bind]
              rfl

/-- What every attempt preserves holds at the end of the loop. -/
theorem Forward.invariant {I : Saga ω → Prop} {s t : Saga ω} (h : Forward s t) (hk : Keyed s.effects)
    (hI : ∀ s t e b, Keyed s.effects → e ∈ ready s.effects → Attempted s t e b → I s → I t)
    (hs : I s) : I t ∧ Keyed t.effects := by
  induction h with
  | stop _ => exact ⟨hs, hk⟩
  | @fail s t e rest hr hat =>
      have he : e ∈ ready s.effects := by rw [hr]; exact List.mem_cons_self
      exact ⟨hI _ _ _ _ hk he hat hs, hat.keyed hk he⟩
  | @next s t u e rest hr hat _ ih =>
      have he : e ∈ ready s.effects := by rw [hr]; exact List.mem_cons_self
      exact ih (hat.keyed hk he) (hI _ _ _ _ hk he hat hs)

/-- The effect of a dispatch. -/
def Action.dispatched : Action → Option Str
  | .dispatch k _ => some k
  | _ => none

/-- The effects that were dispatched, in order. -/
def dispatches (trace : List Action) : List Str := trace.filterMap Action.dispatched

/-- The effect of a compensation. -/
def Action.compensated : Action → Option Str
  | .compensate k => some k
  | _ => none

/-- The effects whose compensation was attempted, in order. -/
def compensations (trace : List Action) : List Str := trace.filterMap Action.compensated

/-- The effect that was applied. -/
def Action.applied : Action → Option Str
  | .became k .applied => some k
  | _ => none

/-- The effects that were applied, in order. -/
def applications (trace : List Action) : List Str := trace.filterMap Action.applied

/-- What an attempt adds to a part of the trace that shows no intermediate transitions. -/
theorem Attempted.filterMap {s t : Saga ω} {e : AtomicEffect} {b : Bool} (h : Attempted s t e b)
    {β : Type} (f : Action → Option β) (hattempted : f (.became e.effectId .attempted) = none)
    (hambiguous : f (.became e.effectId .ambiguous) = none)
    (hreconciling : f (.became e.effectId .reconciling) = none)
    (hreconcile : f (.reconcile e.effectId) = none) :
    ∃ snap, t.trace.filterMap f = s.trace.filterMap f ++ (f (.dispatch e.effectId snap)).toList ++
      (f (.became e.effectId (outcomeState b))).toList := by
  obtain ⟨snap, mid, htr, -, hmid⟩ := h.trace
  have hnil : mid.filterMap f = [] := by
    rw [List.filterMap_eq_nil_iff]
    intro a ha
    rcases hmid a ha with rfl | rfl | rfl
    · exact hambiguous
    · exact hreconciling
    · exact hreconcile
  have hone : ∀ a, [a].filterMap f = (f a).toList := by
    intro a
    cases hfa : f a <;> simp [hfa]
  have hsplit : Action.became e.effectId .attempted :: .dispatch e.effectId snap :: mid =
      [Action.became e.effectId .attempted] ++ ([Action.dispatch e.effectId snap] ++ mid) := rfl
  refine ⟨snap, ?_⟩
  rw [htr, hsplit, List.filterMap_append, List.filterMap_append, List.filterMap_append,
    List.filterMap_append, hone, hone, hone, hnil, hattempted, List.append_nil]
  rfl

theorem Attempted.dispatches {s t : Saga ω} {e : AtomicEffect} {b : Bool} (h : Attempted s t e b) :
    dispatches t.trace = dispatches s.trace ++ [e.effectId] := by
  obtain ⟨snap, htr⟩ := h.filterMap Action.dispatched rfl rfl rfl rfl
  rw [ControlPlane.dispatches, htr]
  simp [Action.dispatched, ControlPlane.dispatches]

theorem Attempted.compensations {s t : Saga ω} {e : AtomicEffect} {b : Bool}
    (h : Attempted s t e b) : compensations t.trace = compensations s.trace := by
  obtain ⟨snap, htr⟩ := h.filterMap Action.compensated rfl rfl rfl rfl
  rw [ControlPlane.compensations, htr]
  simp [Action.compensated, ControlPlane.compensations]

theorem Attempted.applications {s t : Saga ω} {e : AtomicEffect} {b : Bool}
    (h : Attempted s t e b) :
    applications t.trace = applications s.trace ++ if b then [e.effectId] else [] := by
  obtain ⟨snap, htr⟩ := h.filterMap Action.applied rfl rfl rfl rfl
  rw [ControlPlane.applications, htr]
  cases b <;> simp [Action.applied, ControlPlane.applications, outcomeState]

theorem mem_applications {trace : List Action} {k : Str} :
    k ∈ applications trace ↔ .became k .applied ∈ trace := by
  rw [applications, List.mem_filterMap]
  constructor
  · rintro ⟨a, ha, hk⟩
    cases a with
    | became j state => cases state <;> simp_all [Action.applied]
    | _ => cases hk
  · intro h
    exact ⟨_, h, rfl⟩

/-- What holds of a state of the loop. -/
structure Looped (effects : Effects) (s : Saga ω) : Prop where
  shape : SameShape effects s.effects
  applied : ∀ k, stateOf s.effects k = some .applied ↔
    stateOf effects k = some .applied ∨ k ∈ applications s.trace
  uncompensated : compensations s.trace = []
  once : (dispatches s.trace).Nodup
  settled : ∀ k ∈ dispatches s.trace, stateOf s.effects k ≠ some .prepared
  dispatched : ∀ k snap, .dispatch k snap ∈ s.trace → ∀ e, effects.get? k = some e →
    ∀ d ∈ e.dependsOn, stateOf snap d = some .applied

theorem Attempted.looped {effects : Effects} {s t : Saga ω} {e : AtomicEffect} {b : Bool}
    (h : Attempted s t e b) (hk : Keyed s.effects) (he : e ∈ ready s.effects)
    (hl : Looped effects s) : Looped effects t := by
  obtain ⟨hget, hp, hdeps⟩ := (mem_ready hk).1 he
  have hprep : stateOf s.effects e.effectId = some .prepared := stateOf_eq_some.2 ⟨e, hget, hp⟩
  have hstate := h.effects.stateOf
  refine ⟨hl.shape.trans (h.effects.sameShape hget), ?_, ?_, ?_, ?_, ?_⟩
  · intro k
    rw [hstate, h.applications, List.mem_append]
    by_cases hke : k = e.effectId
    · subst hke
      have hnot : ¬ (stateOf effects e.effectId = some .applied ∨
          e.effectId ∈ ControlPlane.applications s.trace) := by
        rw [← hl.applied, hprep]
        simp
      rw [if_pos rfl]
      cases b <;> simp_all [outcomeState]
    · rw [if_neg hke, hl.applied]
      cases b <;> simp [hke]
  · rw [h.compensations]
    exact hl.uncompensated
  · rw [h.dispatches]
    refine List.nodup_append.2 ⟨hl.once, List.nodup_singleton _, ?_⟩
    rintro a ha k hk' rfl
    rw [List.mem_singleton.1 hk'] at ha
    exact hl.settled _ ha hprep
  · intro k hkd
    rw [hstate]
    split
    · cases b <;> simp [outcomeState]
    · rename_i hke
      rw [h.dispatches] at hkd
      rcases List.mem_append.1 hkd with hkd | hkd
      · exact hl.settled k hkd
      · exact absurd (List.mem_singleton.1 hkd) hke
  · intro k snap hmem e₀ he₀ d hd
    obtain ⟨snap', mid, htr, hsnap, hmid⟩ := h.trace
    rw [htr] at hmem
    simp only [List.mem_append, List.mem_cons, List.not_mem_nil, or_false] at hmem
    rcases hmem with (hmem | hmem | hmem | hmem) | hmem
    · exact hl.dispatched k snap hmem e₀ he₀ d hd
    · cases hmem
    · cases hmem
      obtain ⟨e₁, he₁, -, hdep, -⟩ := hl.shape.ids _ e hget
      rw [he₀] at he₁
      cases he₁
      rw [hsnap.stateOf]
      have hda := hdeps d (hdep ▸ hd)
      split
      · rename_i hde
        rw [hde, hprep] at hda
        cases hda
      · exact hda
    · rcases hmid _ hmem with hm | hm | hm <;> cases hm
    · cases hmem

theorem looped_start (effects : Effects) (world : ω) (evidence : List Str) :
    Looped effects ⟨world, effects, evidence, []⟩ :=
  ⟨SameShape.refl _, fun _ => by simp [applications], rfl, List.nodup_nil, nofun, nofun⟩

theorem Forward.looped {effects : Effects} {s t : Saga ω} (h : Forward s t) (hk : Keyed s.effects)
    (hl : Looped effects s) : Looped effects t ∧ Keyed t.effects :=
  h.invariant hk (fun _ _ _ _ hk he hat hl => hat.looped hk he hl) hl

/-- A transition to `FAILED` is the last thing that the loop does. -/
theorem Forward.failed_last {s t : Saga ω} (h : Forward s t)
    (hs : ∀ k, .became k .failed ∉ s.trace) :
    ∀ pre k post, t.trace = pre ++ Action.became k .failed :: post → post = [] := by
  induction h with
  | @stop s _ =>
      intro pre k post htr
      exact absurd (htr ▸ List.mem_append_right _ List.mem_cons_self) (hs k)
  | @fail s t e rest hr hat =>
      intro pre k post htr
      obtain ⟨snap, mid, htt, -, hmid⟩ := hat.trace
      rcases List.eq_nil_or_concat post with hpost | ⟨post', a, rfl⟩
      · exact hpost
      · rw [htt, List.concat_eq_append, ← List.cons_append, ← List.append_assoc] at htr
        obtain ⟨hinit, -⟩ := List.append_inj' htr rfl
        have hmem : Action.became k .failed ∈ s.trace ++ (Action.became e.effectId .attempted ::
            .dispatch e.effectId snap :: mid) := by
          rw [hinit]
          exact List.mem_append_right _ List.mem_cons_self
        simp only [List.mem_append, List.mem_cons] at hmem
        rcases hmem with hmem | hmem | hmem | hmem
        · exact absurd hmem (hs k)
        · cases hmem
        · cases hmem
        · rcases hmid _ hmem with hm | hm | hm <;> cases hm
  | @next s t u e rest hr hat _ ih =>
      apply ih
      intro k hmem
      obtain ⟨snap, mid, htt, -, hmid⟩ := hat.trace
      rw [htt] at hmem
      simp only [List.mem_append, List.mem_cons, List.not_mem_nil, or_false] at hmem
      rcases hmem with (hmem | hmem | hmem | hmem) | hmem
      · exact hs k hmem
      · cases hmem
      · cases hmem
      · rcases hmid _ hmem with hm | hm | hm <;> cases hm
      · cases hmem

end Forward

/-! ## The compensations -/

section Rollback

variable {ω : Type} {s t : Saga ω} {e : AtomicEffect}

/-- The answers of `compensate` to a list of effects, one after the other. -/
def answers (compensate : ω → AtomicEffect → Option Bool × ω) :
    List AtomicEffect → ω → List (AtomicEffect × Bool)
  | [], _ => []
  | e :: es, w =>
      (e, decide ((compensate w e).1 = some true)) :: answers compensate es (compensate w e).2

/-- The state in which a compensation leaves its effect. -/
def compensatedState (ok : Bool) : IntentState := if ok then .compensated else .failed

/-- What a compensation adds to the trace. -/
def compensationTrace (k : Str) (ok : Bool) : List Action :=
  [.became k .compensating, .compensate k, .became k (compensatedState ok)]

theorem compensateEffect_spec (compensate : ω → AtomicEffect → Option Bool × ω)
    (he : s.effects.get? e.effectId = some e) (ha : e.state = .applied) :
    ∃ t, compensateEffect compensate s e = .ok t ∧ t.world = (compensate s.world e).2 ∧
      s.effects.Changed t.effects e
        (compensatedState (decide ((compensate s.world e).1 = some true))) ∧
      t.trace = s.trace ++
        compensationTrace e.effectId (decide ((compensate s.world e).1 = some true)) := by
  obtain ⟨s₁, hs₁, hw₁, hc₁, ht₁⟩ := move_first .compensating (lit "compensating") he
    (by rw [ha]; decide)
  rw [compensateEffect, hs₁]
  simp only [bind, Except.bind, hw₁]
  generalize compensate s.world e = r
  generalize hs₂ : answered s₁ e (.compensate e.effectId) r.2 r.1.isNone
    (lit "compensation_error") = s₂
  have hc₂ : s.effects.Changed s₂.effects e .compensating := by
    rw [← hs₂, answered_effects]
    exact hc₁
  have hw₂ : s₂.world = r.2 := by rw [← hs₂, answered_world]
  have htr : s₂.trace = s.trace ++
      [Action.became e.effectId .compensating, .compensate e.effectId] := by
    rw [← hs₂, answered_trace, ht₁]
    simp
  split
  · rename_i hok
    obtain ⟨t, ht, hw, hc, htt⟩ := hc₂.move .compensated (lit "compensated") (by decide)
    refine ⟨t, ht, hw.trans hw₂, ?_, ?_⟩
    · simpa [hok, compensatedState] using hc
    · rw [htt, htr]
      simp [hok, compensatedState, compensationTrace]
  · rename_i hok
    obtain ⟨t, ht, hw, hc, htt⟩ := hc₂.move .failed (lit "compensation_failed") (by decide)
    refine ⟨t, ht, hw.trans hw₂, ?_, ?_⟩
    · simpa [hok, compensatedState] using hc
    · rw [htt, htr]
      simp [hok, compensatedState, compensationTrace]

/-- What the compensations of a list of effects do. -/
structure Compensated (compensate : ω → AtomicEffect → Option Bool × ω) (es : List AtomicEffect)
    (s t : Saga ω) : Prop where
  shape : SameShape s.effects t.effects
  answered : ∀ r ∈ answers compensate es s.world,
    stateOf t.effects r.1.effectId = some (compensatedState r.2)
  others : ∀ k, k ∉ es.map AtomicEffect.effectId → stateOf t.effects k = stateOf s.effects k
  order : compensations t.trace = compensations s.trace ++ es.map AtomicEffect.effectId
  trace : ∃ more, t.trace = s.trace ++ more ∧ dispatches more = [] ∧ applications more = []

theorem compensateAll_spec (compensate : ω → AtomicEffect → Option Bool × ω)
    (es : List AtomicEffect) {s : Saga ω} (hnd : (es.map AtomicEffect.effectId).Nodup)
    (hes : ∀ e ∈ es, s.effects.get? e.effectId = some e ∧ e.state = .applied) :
    ∃ t, compensateAll compensate es s = .ok t ∧ Compensated compensate es s t := by
  induction es generalizing s with
  | nil =>
      refine ⟨s, rfl, SameShape.refl _, nofun, fun _ _ => rfl, ?_, [], ?_, rfl, rfl⟩
      · rw [List.map_nil, List.append_nil]
      · rw [List.append_nil]
  | cons e es ih =>
      obtain ⟨he, ha⟩ := hes e List.mem_cons_self
      obtain ⟨hne, hnd⟩ := List.nodup_cons.1 hnd
      obtain ⟨s₁, hs₁, hw₁, hc₁, ht₁⟩ := compensateEffect_spec compensate he ha
      have hes₁ : ∀ x ∈ es, s₁.effects.get? x.effectId = some x ∧ x.state = .applied := by
        intro x hx
        have hxe : x.effectId ≠ e.effectId := fun h => hne (h ▸ List.mem_map_of_mem hx)
        rw [hc₁.2, if_neg hxe]
        exact hes x (List.mem_cons_of_mem _ hx)
      obtain ⟨t, ht, hct⟩ := ih hnd hes₁
      refine ⟨t, ?_, (hc₁.sameShape he).trans hct.shape, ?_, ?_, ?_, ?_⟩
      · rw [compensateAll, hs₁]
        exact ht
      · intro r hr
        rcases List.mem_cons.1 hr with rfl | hr
        · rw [hct.others _ hne, hc₁.stateOf, if_pos rfl]
        · rw [← hw₁] at hr
          exact hct.answered r hr
      · intro k hk
        rw [List.map_cons, List.mem_cons, not_or] at hk
        rw [hct.others k hk.2, hc₁.stateOf, if_neg hk.1]
      · rw [hct.order, ht₁, compensations, List.filterMap_append, List.append_assoc]
        rfl
      · obtain ⟨more, hmore, hd, happ⟩ := hct.trace
        generalize decide ((compensate s.world e).1 = some true) = ok at ht₁
        refine ⟨compensationTrace e.effectId ok ++ more, ?_, ?_, ?_⟩
        · rw [hmore, ht₁, List.append_assoc]
        · rw [dispatches, List.filterMap_append, ← dispatches, ← dispatches, hd]
          cases ok <;> rfl
        · rw [applications, List.filterMap_append, ← applications, ← applications, happ]
          cases ok <;> rfl

theorem mem_answers {compensate : ω → AtomicEffect → Option Bool × ω} {es : List AtomicEffect}
    {w : ω} {r : AtomicEffect × Bool} (hr : r ∈ answers compensate es w) : r.1 ∈ es := by
  induction es generalizing w with
  | nil => cases hr
  | cons e es ih =>
      rcases List.mem_cons.1 hr with rfl | hr
      · exact List.mem_cons_self
      · exact List.mem_cons_of_mem _ (ih hr)

theorem exists_answer (compensate : ω → AtomicEffect → Option Bool × ω) {es : List AtomicEffect}
    (w : ω) {e : AtomicEffect} (he : e ∈ es) : ∃ ok, (e, ok) ∈ answers compensate es w := by
  induction es generalizing w with
  | nil => cases he
  | cons x es ih =>
      rcases List.mem_cons.1 he with rfl | he
      · exact ⟨_, List.mem_cons_self⟩
      · obtain ⟨ok, hok⟩ := ih (compensate w x).2 he
        exact ⟨ok, List.mem_cons_of_mem _ hok⟩

end Rollback

end ResidualHarness.ControlPlane
