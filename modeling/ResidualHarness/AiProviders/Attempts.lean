import ResidualHarness.AiProviders.Router

/-!
# Receipts of attempts

`Receipted` says that attempts are dispatched in order, each after one that failed with a retryable error
and delivered nothing, that all chunks come from one attempt, and that each attempt has its receipt.
Attempts that failed are prepended to a trace one by one (`Receipted.retry`), so it is enough to look at
the last attempt (`receipted_last`).
-/

set_option autoImplicit false

namespace ResidualHarness.AiProviders

open Python Core

variable [FloatModel]

/-! ## Traces -/

/-- The attempts that were dispatched, with their candidates. -/
def dispatches (trace : List Event) : List (Str × Nat) :=
  trace.filterMap fun
    | .dispatched i candidate _ => some (candidate, i)
    | _ => none

/-- The attempts that have a receipt. -/
def receipted (trace : List Event) : List Nat :=
  trace.filterMap fun
    | .receipt r => some r.begun.attempt
    | _ => none

/-- The error of the receipt lets the router go on. -/
def Receipt.Retryable (r : Receipt) : Prop :=
  r.status = .failed ∧ ∃ e, r.error = some e ∧ e.retryable = true

/-- The attempts of a call, numbered from `first`; the call is over or still suspended. -/
structure Receipted (first : Nat) (candidates : List Str) (isOver : Prop) (trace : List Event) :
    Prop where
  /-- Dispatched in order, each at most once. -/
  ordered : dispatches trace <+: candidates.zipIdx first
  /-- An attempt follows immediately on the receipt of one that failed and delivered nothing. -/
  further : ∀ before i candidate routed after,
    trace = before ++ Event.dispatched i candidate routed :: after → before = [] ∨
      ∃ earlier j prior q r, i = j + 1 ∧
        before = earlier ++ [Event.dispatched j prior q, .receipt r] ∧ r.begun.attempt = j ∧ r.Retryable
  /-- All chunks come from one attempt. -/
  single : ∀ i j c d, .delivered i c ∈ trace → .delivered j d ∈ trace → i = j
  /-- No attempt has two receipts, and none has one before it is dispatched. -/
  receipts : receipted trace <+: (dispatches trace).map Prod.snd
  /-- When the call is over every attempt has its receipt. -/
  settled : isOver → receipted trace = (dispatches trace).map Prod.snd
  /-- What was handed over was dispatched. -/
  handed : ∀ i, .ended i ∈ trace → i ∈ (dispatches trace).map Prod.snd
  /-- Completed are those whose result was handed over in full. -/
  status : ∀ r, .receipt r ∈ trace → (r.status = .completed ↔ .ended r.begun.attempt ∈ trace)

@[simp]
theorem dispatches_append (s t : List Event) :
    dispatches (s ++ t) = dispatches s ++ dispatches t := List.filterMap_append

@[simp]
theorem receipted_append (s t : List Event) : receipted (s ++ t) = receipted s ++ receipted t :=
  List.filterMap_append

@[simp]
theorem dispatches_delivered (i : Nat) (chunks : List StreamChunk) :
    dispatches (chunks.map (.delivered i)) = [] := by
  simp [dispatches, List.filterMap_map]

@[simp]
theorem receipted_delivered (i : Nat) (chunks : List StreamChunk) :
    receipted (chunks.map (.delivered i)) = [] := by
  simp [receipted, List.filterMap_map]

theorem receipted_nil (first : Nat) (candidates : List Str) (isOver : Prop) :
    Receipted first candidates isOver [] where
  ordered := List.nil_prefix
  further := fun before _ _ _ _ h => absurd h (by simp)
  single := fun _ _ _ _ h => absurd h List.not_mem_nil
  receipts := List.prefix_rfl
  settled := fun _ => rfl
  handed := fun _ h => absurd h List.not_mem_nil
  status := fun _ h => absurd h List.not_mem_nil

variable {first : Nat} {candidate : Str} {candidates : List Str} {isOver : Prop} {routed : ChatRequest}

theorem Receipted.retry {trace : List Event} (h : Receipted (first + 1) candidates isOver trace)
    {call : Call} {begun : Meta} (hbegun : begun.attempt = first) {error : ProviderError}
    (hretry : error.retryable = true) :
    Receipted first (candidate :: candidates) isOver
      (.dispatched first candidate routed :: Router.endFailed call begun error :: trace) where
  ordered := by
    rw [List.zipIdx_cons]
    exact (List.prefix_cons_inj _).2 h.ordered
  further := by
    intro before i c q after heq
    rcases before with _ | ⟨x, _ | ⟨y, before⟩⟩
    · exact .inl rfl
    · exact absurd (List.cons.inj (List.cons.inj heq).2).1 nofun
    · obtain ⟨hx, htail⟩ := List.cons.inj heq
      obtain ⟨hy, heq⟩ := List.cons.inj htail
      rw [← hx, ← hy]
      refine .inr ?_
      rcases h.further before i c q after heq with rfl | ⟨earlier, j, prior, q', r, rfl, rfl, hr⟩
      · -- the first attempt of the others has the next number
        have hfirst := h.ordered
        rw [heq] at hfirst
        cases candidates with
        | nil => cases hfirst.subset List.mem_cons_self
        | cons d ds =>
            obtain ⟨heq', -⟩ := (List.cons_prefix_cons.1 hfirst)
            obtain ⟨-, rfl⟩ := Prod.mk.inj heq'
            exact ⟨[], first, candidate, routed, _, rfl, rfl, hbegun, rfl, error, rfl, hretry⟩
      · exact ⟨_ :: _ :: earlier, j, prior, q', r, rfl, rfl, hr⟩
  single := by
    intro i j c d hi hj
    simp only [Router.endFailed, List.mem_cons, reduceCtorEq, false_or] at hi hj
    exact h.single i j c d hi hj
  receipts := by
    refine List.cons_prefix_cons.2 ⟨hbegun, h.receipts⟩
  settled := fun hover => congrArg₂ List.cons hbegun (h.settled hover)
  handed := by
    intro i hi
    simp only [Router.endFailed, List.mem_cons, reduceCtorEq, false_or] at hi
    exact List.mem_cons_of_mem _ (h.handed i hi)
  status := by
    have hended : ∀ i, Event.ended i ∈ (.dispatched first candidate routed ::
        Router.endFailed call begun error :: trace) ↔ .ended i ∈ trace := by
      intro i
      simp [Router.endFailed]
    intro r hr
    rw [hended]
    rw [List.mem_cons, List.mem_cons] at hr
    rcases hr with hr | hr | hr
    · cases hr
    · cases hr
      refine ⟨nofun, fun hend => ?_⟩
      -- what was handed over has a later number
      obtain ⟨⟨c, i⟩, hmem, hi⟩ := List.mem_map.1 (h.handed _ hend)
      have := List.le_snd_of_mem_zipIdx (h.ordered.subset hmem)
      simp only at hi this
      omega
    · exact h.status r hr

/-- How the last attempt ends. -/
inductive Last (call : Call) (begun : Meta) : Prop → List Event → Prop where
  | suspended {isOver : Prop} : ¬ isOver → Last call begun isOver []
  | failed {isOver : Prop} (error : ProviderError) :
      Last call begun isOver [Router.endFailed call begun error]
  | completed {isOver : Prop} (response : ChatResponse) :
      Last call begun isOver [Router.endCompleted call begun response, .ended begun.attempt]

theorem receipted_last {call : Call} {begun : Meta} (hbegun : begun.attempt = first)
    (chunks : List StreamChunk) {tail : List Event} (h : Last call begun isOver tail) :
    Receipted first (candidate :: candidates) isOver
      (.dispatched first candidate routed :: (chunks.map (.delivered first) ++ tail)) := by
  have hdispatches : dispatches (.dispatched first candidate routed ::
      (chunks.map (.delivered first) ++ tail)) = [(candidate, first)] := by
    show (candidate, first) :: dispatches (chunks.map (.delivered first) ++ tail) = _
    rw [dispatches_append, dispatches_delivered]
    cases h <;> rfl
  have hreceipted : receipted (.dispatched first candidate routed ::
      (chunks.map (.delivered first) ++ tail)) = receipted tail := by
    show receipted (chunks.map (.delivered first) ++ tail) = _
    rw [receipted_append, receipted_delivered, List.nil_append]
  refine ⟨?_, ?_, ?_, ?_, ?_, ?_, ?_⟩
  · rw [hdispatches, List.zipIdx_cons]
    exact List.cons_prefix_cons.2 ⟨rfl, List.nil_prefix⟩
  · intro before i c q after heq
    cases before with
    | nil => exact .inl rfl
    | cons x before =>
        have hmem : Event.dispatched i c q ∈ chunks.map (.delivered first) ++ tail := by
          rw [(List.cons.inj heq).2]
          exact List.mem_append_right _ List.mem_cons_self
        cases h <;> simp [Router.endFailed, Router.endCompleted] at hmem
  · intro i j c d hi hj
    have hdelivered : ∀ k e, Event.delivered k e ∈ .dispatched first candidate routed ::
        (chunks.map (.delivered first) ++ tail) → first = k := by
      intro k e hk
      cases h <;> simp [Router.endFailed, Router.endCompleted] at hk <;> exact hk.2
    rw [← hdelivered i c hi, ← hdelivered j d hj]
  · rw [hdispatches, hreceipted]
    cases h with
    | suspended _ => exact List.nil_prefix
    | failed error => exact List.cons_prefix_cons.2 ⟨hbegun, List.nil_prefix⟩
    | completed response => exact List.cons_prefix_cons.2 ⟨hbegun, List.nil_prefix⟩
  · intro hover
    rw [hdispatches, hreceipted]
    cases h with
    | suspended hnot => exact absurd hover hnot
    | failed error => exact congrArg (fun i => [i]) hbegun
    | completed response => exact congrArg (fun i => [i]) hbegun
  · intro i hi
    rw [hdispatches]
    cases h <;> simp [Router.endFailed, Router.endCompleted] at hi
    simp [hi, hbegun]
  · intro r hr
    cases h <;> simp [Router.endFailed, Router.endCompleted] at hr ⊢
    · simp [hr]
    · simp [hr]

end ResidualHarness.AiProviders
