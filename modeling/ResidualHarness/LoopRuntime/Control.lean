import ResidualHarness.LoopRuntime.Model
import ResidualHarness.Python.WholeFloats
import Mathlib.Data.List.DropRight

/-!
# Completion and control of a mission

`evaluate` keeps the last result of every verification id, so that a goal can be complete although
an earlier result of a required id failed or was bound to another tree (`completion_bound_iff`).

The events of a run are lawful: each of them fits the events before it (`Fits`). The limits of a run
are read off that law (`run_controlled`).
-/

set_option autoImplicit false

namespace ResidualHarness.LoopRuntime

open Python Core

section Completion

variable [FloatModel] [Quantities]

/-! ## Completion -/

/-- The result is a PASS for exactly the accepted tree and the accepted evidence. -/
def Bound (result : FactoryResultSet) (item : VerificationResultRef) : Prop :=
  item.status = .pass ∧ item.acceptedTreeHash = result.acceptedTreeHash ∧
    item.evidenceRoot = result.acceptedEvidenceRoot

instance (result : FactoryResultSet) (item : VerificationResultRef) : Decidable (Bound result item) :=
  inferInstanceAs (Decidable (_ ∧ _ ∧ _))

/-- The results that carry an id, in their order. -/
def resultsFor (result : FactoryResultSet) (id : Str) : List VerificationResultRef :=
  result.verificationResults.filter fun item => item.verificationId = id

/-- Both hashes are there, and every required id has results, all of them bound. -/
def CompletelyBound (contract : GoalContract) (result : FactoryResultSet) : Prop :=
  falsy result.acceptedTreeHash = false ∧ falsy result.acceptedEvidenceRoot = false ∧
    ∀ id ∈ contract.requiredVerificationIds,
      resultsFor result id ≠ [] ∧ ∀ item ∈ resultsFor result id, Bound result item

/-- Both hashes are there, and the last result of every required id is bound. -/
def LastBound (contract : GoalContract) (result : FactoryResultSet) : Prop :=
  falsy result.acceptedTreeHash = false ∧ falsy result.acceptedEvidenceRoot = false ∧
    ∀ id ∈ contract.requiredVerificationIds,
      ∃ item, (resultsFor result id).getLast? = some item ∧ Bound result item

/-- The last results would do, but an earlier result of a required id is not bound. -/
def Overruled (contract : GoalContract) (result : FactoryResultSet) : Prop :=
  LastBound contract result ∧
    ∃ id ∈ contract.requiredVerificationIds, ∃ item ∈ resultsFor result id, ¬ Bound result item

theorem get?_byId (result : FactoryResultSet) (id : Str) :
    (byId result).get? id = (resultsFor result id).getLast? := by
  rw [byId, Dict.get?_ofPairs, List.filter_map, List.getLast?_map, Option.map_map]
  exact congrFun Option.map_id _

theorem finding_eq_passed_iff (result : FactoryResultSet) (found : Option VerificationResultRef) :
    finding result found = .passed ↔ ∃ item, found = some item ∧ Bound result item := by
  cases found with
  | none => simp [finding]
  | some item =>
      rw [finding]
      split
      · rename_i hother
        constructor
        · nofun
        · rintro ⟨item', h, -, htree, hroot⟩
          cases h
          rcases hother with hother | hother
          · exact absurd htree hother
          · exact absurd hroot hother
      · rename_i hsame
        rw [not_or, not_not, not_not] at hsame
        cases hs : item.status <;> simp [Bound, hs, hsame]

/-- `evaluate` looks at the last result of every required id. -/
theorem evaluate_complete_iff (contract : GoalContract) (result : FactoryResultSet) :
    (evaluate contract result).complete = true ↔ LastBound contract result := by
  rw [evaluate, LastBound]
  split
  · rename_i hempty
    rw [Bool.or_eq_true] at hempty
    constructor
    · intro h
      cases h
    · rintro ⟨htree, hroot, -⟩
      rw [htree, hroot] at hempty
      simp at hempty
  · rename_i hthere
    rw [Bool.or_eq_true, not_or, Bool.not_eq_true, Bool.not_eq_true] at hthere
    simp only [Bool.and_eq_true, List.isEmpty_iff, List.filter_eq_nil_iff, decide_eq_true_eq]
    constructor
    · rintro ⟨⟨hmissing, hfailed⟩, hunknown⟩
      refine ⟨hthere.1, hthere.2, ?_⟩
      intro id hid
      rw [← finding_eq_passed_iff, ← get?_byId]
      cases hf : finding result ((byId result).get? id) with
      | missing => exact absurd hf (hmissing id hid)
      | failed => exact absurd hf (hfailed id hid)
      | unknown => exact absurd hf (hunknown id hid)
      | passed => rfl
    · rintro ⟨-, -, hall⟩
      have hpassed : ∀ id ∈ contract.requiredVerificationIds,
          finding result ((byId result).get? id) = .passed := by
        intro id hid
        rw [get?_byId, finding_eq_passed_iff]
        exact hall id hid
      refine ⟨⟨?_, ?_⟩, ?_⟩
      all_goals
        intro id hid
        rw [hpassed id hid]
        intro h
        cases h

/-- If the last results are bound, then all of them are, unless one is overruled. -/
theorem completelyBound_iff {contract : GoalContract} {result : FactoryResultSet}
    (h : LastBound contract result) :
    CompletelyBound contract result ↔ ¬ Overruled contract result := by
  constructor
  · rintro ⟨-, -, hall⟩ ⟨-, id, hid, item, hitem, hno⟩
    exact hno ((hall id hid).2 item hitem)
  · intro hno
    refine ⟨h.1, h.2.1, ?_⟩
    intro id hid
    constructor
    · obtain ⟨item, hlast, -⟩ := h.2.2 id hid
      intro hnil
      rw [hnil] at hlast
      cases hlast
    · intro item hitem
      by_contra hunbound
      exact hno ⟨h, id, hid, item, hitem, hunbound⟩

theorem complete_imp_completelyBound_iff (contract : GoalContract) (result : FactoryResultSet) :
    ((evaluate contract result).complete = true → CompletelyBound contract result) ↔
      ¬ Overruled contract result := by
  rw [evaluate_complete_iff]
  constructor
  · intro h hover
    exact (completelyBound_iff hover.1).1 (h hover.1) hover
  · intro hno hlast
    exact (completelyBound_iff hlast).2 hno

end Completion

section Control

variable [FloatModel] [Quantities]

/-! ## Events -/

def Event.isCall : Event → Bool
  | .called _ _ => true
  | _ => false

/-- The result set of a call that returned. -/
def Event.result? : Event → Option FactoryResultSet
  | .called _ (.ok r) => some r
  | _ => none

/-- The calls of the factory. -/
def calls (log : List Event) : Nat := log.countP Event.isCall

/-- The result sets of the factory, in their order. -/
def results (log : List Event) : List FactoryResultSet := log.filterMap Event.result?

/-- The checks of an event see a reason to abort the mission. -/
def Observed (contract : GoalContract) : Event → Prop
  | .opened _ state abort =>
      abort = true ∨ Quantities.reaches state.elapsedS contract.maxWallTimeS = true ∨
        costReached contract state.spentCost = true ∨ (shouldAbort contract state).isSome = true
  | .closed _ state _ =>
      costReached contract state.spentCost = true ∨ (shouldAbort contract state).isSome = true
  | _ => False

/-! ## The streak -/

/-- No less residual mass than before, and no more accepted obligations. -/
def idle (previous current : FactoryResultSet) : Bool :=
  decide ((residualMass previous : Int) - residualMass current ≤ 0) &&
    decide (accepted current ≤ accepted previous)

/-- The same with the obligations themselves: none is accepted now that was not accepted before. -/
def idleEach (previous current : FactoryResultSet) : Bool :=
  decide ((residualMass previous : Int) - residualMass current ≤ 0) &&
    !(current.obligationStates.any fun kv =>
      kv.2 == .accepted && previous.obligationStates.get? kv.1 != some .accepted)

/-- Which iterations after the first are idle. -/
def idles (p : FactoryResultSet → FactoryResultSet → Bool) : List FactoryResultSet → List Bool
  | [] => []
  | [_] => []
  | r :: s :: rest => p r s :: idles p (s :: rest)

/-- The length of the longest suffix of idle iterations after the first. -/
def idleSuffix (p : FactoryResultSet → FactoryResultSet → Bool) (rs : List FactoryResultSet) : Nat :=
  ((idles p rs).rtakeWhile id).length

theorem idles_append (p : FactoryResultSet → FactoryResultSet → Bool) (rs : List FactoryResultSet)
    (r s : FactoryResultSet) : idles p (rs ++ [r, s]) = idles p (rs ++ [r]) ++ [p r s] := by
  induction rs with
  | nil => rfl
  | cons a rs ih =>
      cases rs with
      | nil => rfl
      | cons b rs =>
          rw [List.cons_append, List.cons_append, idles, ← List.cons_append, ih]
          rfl

theorem idleSuffix_snoc (p : FactoryResultSet → FactoryResultSet → Bool)
    (rs : List FactoryResultSet) (s : FactoryResultSet) :
    idleSuffix p (rs ++ [s]) =
      if (rs.getLast?.any fun r => p r s) = true then idleSuffix p rs + 1 else 0 := by
  rcases List.eq_nil_or_concat rs with rfl | ⟨rs, r, rfl⟩
  · rfl
  · rw [List.concat_eq_append, idleSuffix, List.append_assoc, List.singleton_append, idles_append,
      List.getLast?_concat, List.rtakeWhile_concat]
    cases hp : p r s with
    | false => simp [hp]
    | true => simp [hp, idleSuffix]

/-! ## What a controlled run is -/

/-- The iteration has `no_progress_limit` idle iterations behind it and no exit before that one. -/
def Stagnates (p : FactoryResultSet → FactoryResultSet → Bool) (contract : GoalContract)
    (before : List Event) (state : LoopMissionState) (result : FactoryResultSet) : Prop :=
  contract.noProgressLimit ≤ idleSuffix p (results before) ∧
    (evaluate contract result).complete = false ∧ costReached contract state.spentCost = false ∧
    shouldAbort contract state = none ∧ result.residualObligations ≠ []

/-- Iteration `n` of the events stagnates. -/
def StagnatesAt (p : FactoryResultSet → FactoryResultSet → Bool) (contract : GoalContract)
    (log : List Event) (n : Nat) : Prop :=
  ∃ before state result after, log = before ++ Event.closed n state result :: after ∧
    Stagnates p contract before state result

/-- `run` returns at iteration `n` because of the limit on idle iterations. -/
def ReturnsStagnated (r : Except PyExn MissionResult) (n : Nat) : Prop :=
  ∃ m, r = .ok m ∧ m.status = .stagnated ∧ m.reason = lit "no_progress_limit_reached" ∧
    m.state.iteration = n

/-- A run is controlled, with iterations idle as `p` says. -/
structure Controlled (p : FactoryResultSet → FactoryResultSet → Bool) (contract : GoalContract)
    (run : List Event × Except PyExn MissionResult) : Prop where
  calls_le : calls run.1 ≤ contract.maxIterations
  no_call_after : ∀ before e after, run.1 = before ++ e :: after → Observed contract e →
    calls after = 0
  affordable : ∀ before n r after, run.1 = before ++ Event.called n r :: after →
    ∃ before' state abort, before = before' ++ [Event.opened n state abort] ∧
      costReached contract state.spentCost = false ∧
      Quantities.reaches state.elapsedS contract.maxWallTimeS = false
  streak : ∀ before n state result after, run.1 = before ++ Event.closed n state result :: after →
    state.noProgressStreak = idleSuffix p (results before)
  streak_kept : ∀ before n state abort after, run.1 = before ++ Event.opened n state abort :: after →
    state.noProgressStreak = idleSuffix p (results before)
  stagnated : ∀ n, ReturnsStagnated run.2 n ↔
    StagnatesAt p contract run.1 n ∧ ∀ m < n, ¬ StagnatesAt p contract run.1 m
  spaced : ∀ before i intent mid j intent' after,
    run.1 = before ++ Event.emitted i intent :: (mid ++ Event.emitted j intent' :: after) →
    intent.capabilityFloor = .higher → intent'.capabilityFloor = .higher →
    i + max 1 contract.escalationCooldownPeriod ≤ j

/-! ## Lawful events -/

/-- No call may follow the event. -/
def Final (contract : GoalContract) (before : List Event) : Event → Prop
  | .closed n state result =>
      Observed contract (.closed n state result) ∨ Stagnates idle contract before state result
  | e => Observed contract e

/-- What an event has to do with the events before it. -/
def Fits (contract : GoalContract) (before : List Event) : Event → Prop
  | .opened _ state _ => state.noProgressStreak = idleSuffix idle (results before)
  | .called n _ =>
      n = calls before + 1 ∧ n ≤ contract.maxIterations ∧
        (∃ before' state abort, before = before' ++ [Event.opened n state abort]) ∧
        ∀ pre e post, before = pre ++ e :: post → ¬ Final contract pre e
  | .closed n state _ =>
      n = calls before ∧ state.noProgressStreak = idleSuffix idle (results before)
  | .emitted j intent' =>
      intent'.capabilityFloor = .higher → ∀ i intent, .emitted i intent ∈ before →
        intent.capabilityFloor = .higher → i + max 1 contract.escalationCooldownPeriod ≤ j

/-- Each event fits the events before it. -/
def Lawful (contract : GoalContract) (log : List Event) : Prop :=
  ∀ before e after, log = before ++ e :: after → Fits contract before e

theorem lawful_nil (contract : GoalContract) : Lawful contract [] := by
  intro before e after h
  exact absurd h (by simp)

omit [FloatModel] [Quantities] in
theorem snoc_eq_append_cons {α : Type} {l : List α} {x e : α} {before after : List α}
    (h : l ++ [x] = before ++ e :: after) :
    (after = [] ∧ before = l ∧ e = x) ∨ ∃ after', l = before ++ e :: after' := by
  rcases List.eq_nil_or_concat after with rfl | ⟨after, y, rfl⟩
  · obtain ⟨rfl, hx⟩ := List.append_inj' h rfl
    exact .inl ⟨rfl, rfl, (List.singleton_inj.1 hx).symm⟩
  · rw [List.concat_eq_append, ← List.cons_append, ← List.append_assoc] at h
    exact .inr ⟨after, (List.append_inj' h rfl).1⟩

theorem Lawful.snoc {contract : GoalContract} {log : List Event} {e : Event}
    (h : Lawful contract log) (he : Fits contract log e) : Lawful contract (log ++ [e]) := by
  intro before x after hx
  rcases snoc_eq_append_cons hx with ⟨-, rfl, rfl⟩ | ⟨after', hx⟩
  · exact he
  · exact h before x after' hx

theorem calls_append (l m : List Event) : calls (l ++ m) = calls l + calls m := List.countP_append

theorem Lawful.calls_le {contract : GoalContract} {log : List Event} (h : Lawful contract log) :
    calls log ≤ contract.maxIterations := by
  -- the last call carries the number of calls
  induction log using List.reverseRecOn with
  | nil => exact Nat.zero_le _
  | append_singleton log e ih =>
      have hlog : Lawful contract log := fun before x after hx =>
        h before x (after ++ [e]) (by rw [hx, List.append_assoc, List.cons_append])
      rw [calls_append]
      cases e with
      | called n r =>
          obtain ⟨hn, hle, -⟩ := h log _ [] rfl
          exact hn ▸ hle
      | opened n state abort => exact ih hlog
      | closed n state result => exact ih hlog
      | emitted n intent => exact ih hlog

theorem Lawful.calls_after_final {contract : GoalContract} {before after : List Event} {e : Event}
    (h : Lawful contract (before ++ e :: after)) (hf : Final contract before e) : calls after = 0 := by
  rw [calls, List.countP_eq_zero]
  intro x hx hcall
  obtain ⟨pre, post, rfl⟩ := List.append_of_mem hx
  cases x with
  | called n r =>
      have hfits := h (before ++ e :: pre) (.called n r) post (by simp)
      exact hfits.2.2.2 before e pre rfl hf
  | opened n state abort => cases hcall
  | closed n state result => cases hcall
  | emitted n intent => cases hcall

theorem final_of_observed {contract : GoalContract} {before : List Event} {e : Event}
    (h : Observed contract e) : Final contract before e := by
  cases e with
  | closed n state result => exact .inl h
  | opened n state abort => exact h
  | called n r => exact h
  | emitted n intent => exact h

/-- A lawful log with the right outcome is a controlled run. -/
theorem Lawful.controlled {contract : GoalContract} {log : List Event}
    {r : Except PyExn MissionResult} (h : Lawful contract log)
    (hr : ∀ n, ReturnsStagnated r n ↔ StagnatesAt idle contract log n) :
    Controlled idle contract (log, r) where
  calls_le := h.calls_le
  no_call_after before e after hlog hobs := by
    subst hlog
    exact h.calls_after_final (final_of_observed hobs)
  affordable before n r after hlog := by
    obtain ⟨-, -, ⟨before', state, abort, rfl⟩, hlive⟩ := h before _ after hlog
    refine ⟨before', state, abort, rfl, ?_, ?_⟩
    all_goals
      rw [← Bool.not_eq_true]
      intro hreached
    · exact hlive before' _ [] rfl (.inr (.inr (.inl hreached)))
    · exact hlive before' _ [] rfl (.inr (.inl hreached))
  streak before n state result after hlog := (h before _ after hlog).2
  streak_kept before n state abort after hlog := h before _ after hlog
  stagnated n := by
    refine ⟨fun hn => ⟨(hr n).1 hn, ?_⟩, fun hn => (hr n).2 hn.1⟩
    -- the run returns at one iteration only
    intro m hm hstag
    obtain ⟨x, hx, -, -, hxn⟩ := hn
    obtain ⟨y, hy, -, -, hym⟩ := (hr m).2 hstag
    have hxy : x = y := Except.ok.inj (hx.symm.trans hy)
    subst hxy
    omega
  spaced before i intent mid j intent' after hlog hhigh hhigh' := by
    refine h (before ++ .emitted i intent :: mid) (.emitted j intent') after ?_ hhigh' i intent ?_ hhigh
    · rw [List.append_assoc, List.cons_append]
      exact hlog
    · simp

/-! ## One iteration -/

/-- No event of the log ends the calls. -/
def Live (contract : GoalContract) (log : List Event) : Prop :=
  ∀ before e after, log = before ++ e :: after → ¬ Final contract before e

/-- No iteration of the log stagnates. -/
def Lively (contract : GoalContract) (log : List Event) : Prop :=
  ∀ n, ¬ StagnatesAt idle contract log n

theorem Live.snoc {contract : GoalContract} {log : List Event} {e : Event} (h : Live contract log)
    (he : ¬ Final contract log e) : Live contract (log ++ [e]) := by
  intro before x after hx
  rcases snoc_eq_append_cons hx with ⟨-, rfl, rfl⟩ | ⟨after', hx⟩
  · exact he
  · exact h before x after' hx

theorem Live.lively {contract : GoalContract} {log : List Event} (h : Live contract log) :
    Lively contract log := by
  rintro n ⟨before, state, result, after, hlog, hstag⟩
  exact h before _ after hlog (.inr hstag)

theorem Lively.snoc {contract : GoalContract} {log : List Event} {e : Event}
    (h : Lively contract log)
    (he : ∀ n state result, e = .closed n state result → ¬ Stagnates idle contract log state result) :
    Lively contract (log ++ [e]) := by
  rintro n ⟨before, state, result, after, hlog, hstag⟩
  rcases snoc_eq_append_cons hlog with ⟨-, rfl, he'⟩ | ⟨after', hlog⟩
  · exact he n state result he'.symm hstag
  · exact h n ⟨before, state, result, after', hlog, hstag⟩

/-- The local variables of a run that goes on after `i` iterations. -/
structure Inv (contract : GoalContract) (i : Nat) (m : Mission) : Prop where
  lawful : Lawful contract m.log
  live : Live contract m.log
  calls : calls m.log = i
  streak : m.state.noProgressStreak = idleSuffix idle (results m.log)
  previous : m.previous = (results m.log).getLast?
  cooldown : ∀ k intent, .emitted k intent ∈ m.log → intent.capabilityFloor = .higher →
    k ≤ i ∧ contract.escalationCooldownPeriod + k ≤ m.state.escalationCooldown + i

/-- What an iteration leaves after `i` others. -/
def Turned (contract : GoalContract) (i : Nat) : Mission × Turn → Prop
  | (m, .next) => Inv contract (i + 1) m
  | (m, .ended r) =>
      Lawful contract m.log ∧ ∀ n, ReturnsStagnated r n ↔ StagnatesAt idle contract m.log n

theorem Lively.turned {contract : GoalContract} {i : Nat} {m : Mission}
    {r : Except PyExn MissionResult} (hlaw : Lawful contract m.log) (h : Lively contract m.log)
    (hr : ∀ n, ¬ ReturnsStagnated r n) : Turned contract i (m, .ended r) :=
  ⟨hlaw, fun n => ⟨fun hn => absurd hn (hr n), fun hn => absurd hn (h n)⟩⟩

omit [FloatModel] in
theorem not_returnsStagnated_error (e : PyExn) (n : Nat) : ¬ ReturnsStagnated (.error e) n := by
  rintro ⟨m, hm, -⟩
  cases hm

theorem not_returnsStagnated_abort (c : LoopController) (i : Nat) (m : Mission) (reason : Str)
    (n : Nat) : ¬ ReturnsStagnated (c.abort i m reason) n := by
  rintro ⟨x, hx, hstatus, -⟩
  obtain ⟨u, -, hx⟩ := bind_eq_ok.1 hx
  cases hx
  cases hstatus

theorem returnsStagnated_finish_iff {m : Mission} {status : MissionStatus} {reason : String} {n : Nat} :
    ReturnsStagnated (m.finish status reason) n ↔
      status = .stagnated ∧ lit reason = lit "no_progress_limit_reached" ∧ m.state.iteration = n := by
  constructor
  · rintro ⟨x, hx, hstatus, hreason, hn⟩
    cases hx
    exact ⟨hstatus, hreason, hn⟩
  · rintro ⟨hstatus, hreason, hn⟩
    exact ⟨_, rfl, hstatus, hreason, hn⟩

theorem opening_eq_none {contract : GoalContract} {state : LoopMissionState} {abort : Bool}
    (h : opening contract state abort = none) (n : Nat) :
    ¬ Observed contract (.opened n state abort) := by
  unfold opening at h
  split at h
  · cases h
  · rename_i habort
    split at h
    · cases h
    · rename_i htime
      split at h
      · cases h
      · rename_i hcost
        rintro (h1 | h1 | h1 | h1)
        · exact habort h1
        · exact htime h1
        · exact hcost h1
        · rw [h] at h1
          cases h1

/-- What the state after a result has of the state before it. -/
theorem absorb_spec {contract : GoalContract} {n : Nat} {elapsed : Time} {m m' : Mission}
    {result : FactoryResultSet} {progress : ProgressVector}
    (h : absorb contract n elapsed m result = .ok (m', progress)) :
    m'.log = m.log ++ [Event.closed n m'.state result] ∧ m'.previous = m.previous ∧
      m'.state.iteration = n ∧ m'.state.escalationCooldown = m.state.escalationCooldown - 1 ∧
      m'.state.noProgressStreak =
        if (m.previous.any fun p => idle p result) = true then m.state.noProgressStreak + 1 else 0 := by
  obtain ⟨fingerprint, -, h⟩ := bind_eq_ok.1 h
  obtain ⟨spent, -, h⟩ := bind_eq_ok.1 h
  cases h
  refine ⟨rfl, rfl, rfl, rfl, ?_⟩
  cases hp : m.previous with
  | none => simp
  | some p =>
      simp only [measureProgress, idle, Option.isSome_some, Option.map_some, Option.getD_some,
        Option.any_some, true_and, Bool.and_eq_true, decide_eq_true_eq, Nat.sub_eq_zero_iff_le]

/-- The exits after a result that has been absorbed. -/
theorem closing_next {c : LoopController} {contract : GoalContract} {n : Nat} {m : Mission}
    {result : FactoryResultSet} (h : c.closing contract n m result = .next) :
    ¬ Observed contract (.closed n m.state result) ∧
      m.state.noProgressStreak < contract.noProgressLimit := by
  unfold LoopController.closing at h
  split at h
  · cases h
  · split at h
    · cases h
    · rename_i hcost
      split at h
      · cases h
      · rename_i hreason
        split at h
        · cases h
        · split at h
          · cases h
          · rename_i hlimit
            refine ⟨?_, Nat.lt_of_not_le hlimit⟩
            rintro (h1 | h1)
            · exact hcost h1
            · rw [hreason] at h1
              cases h1

theorem closing_ended {c : LoopController} {contract : GoalContract} {n : Nat} {m : Mission}
    {result : FactoryResultSet} {r : Except PyExn MissionResult} {before : List Event}
    (hstreak : m.state.noProgressStreak = idleSuffix idle (results before))
    (h : c.closing contract n m result = .ended r) :
    Stagnates idle contract before m.state result ∧
        r = m.finish .stagnated "no_progress_limit_reached" ∨
      ¬ Stagnates idle contract before m.state result ∧ ∀ k, ¬ ReturnsStagnated r k := by
  unfold LoopController.closing at h
  split at h
  · rename_i hcomplete
    cases h
    refine .inr ⟨fun hs => ?_, fun k hk => ?_⟩
    · rw [hs.2.1] at hcomplete
      cases hcomplete
    · exact absurd (returnsStagnated_finish_iff.1 hk).1 nofun
  · rename_i hcomplete
    split at h
    · rename_i hcost
      cases h
      refine .inr ⟨fun hs => ?_, not_returnsStagnated_abort c n m _⟩
      rw [hs.2.2.1] at hcost
      cases hcost
    · rename_i hcost
      split at h
      · rename_i reason hreason
        cases h
        refine .inr ⟨fun hs => ?_, not_returnsStagnated_abort c n m _⟩
        rw [hs.2.2.2.1] at hreason
        cases hreason
      · rename_i hreason
        split at h
        · rename_i hresidual
          cases h
          refine .inr ⟨fun hs => hs.2.2.2.2 hresidual, fun k hk => ?_⟩
          exact absurd (returnsStagnated_finish_iff.1 hk).2.1 (by decide)
        · rename_i hresidual
          split at h
          · rename_i hlimit
            cases h
            rw [hstreak] at hlimit
            rw [Bool.not_eq_true] at hcomplete hcost
            exact .inl ⟨⟨hlimit, hcomplete, hcost, hreason, hresidual⟩, rfl⟩
          · cases h

omit [FloatModel] [Quantities] in
theorem nextIntent_higher {progress : ProgressVector} {cooldown : Nat} {keys : Dict Str Str} :
    ((nextIntent progress cooldown keys).2 = true ↔
      (nextIntent progress cooldown keys).1.capabilityFloor = .higher) ∧
    ((nextIntent progress cooldown keys).2 = true → cooldown = 0) := by
  unfold nextIntent
  split
  · split
    · rename_i hzero
      simp [hzero]
    · simp
  · split
    · split
      · rename_i hzero
        simp [hzero]
      · simp
    · simp

/-- An intent with a higher floor needs a cooldown that has run out, and starts the next one. -/
theorem advance_spec {c : LoopController} {contract : GoalContract} {n : Nat} {m m' : Mission}
    {result : FactoryResultSet} {progress : ProgressVector}
    (h : c.advance contract n m result progress = .ok m') :
    ∃ intent, m'.log = m.log ++ [Event.emitted n intent] ∧ m'.previous = some result ∧
      m'.state.noProgressStreak = m.state.noProgressStreak ∧
      (intent.capabilityFloor = .higher ∧ m.state.escalationCooldown = 0 ∧
          m'.state.escalationCooldown = contract.escalationCooldownPeriod ∨
        intent.capabilityFloor ≠ .higher ∧
          m'.state.escalationCooldown = m.state.escalationCooldown) := by
  obtain ⟨keys, -, h⟩ := bind_eq_ok.1 h
  cases hp : m.previous.isNone with
  | true =>
      simp only [hp, if_true, Bool.false_eq_true, if_false] at h
      cases h
      exact ⟨_, rfl, rfl, rfl, .inr ⟨nofun, rfl⟩⟩
  | false =>
      simp only [hp, Bool.false_eq_true, if_false] at h
      obtain ⟨hhigh, hzero⟩ := @nextIntent_higher progress m.state.escalationCooldown keys
      cases hx : nextIntent progress m.state.escalationCooldown keys with
      | mk intent escalated =>
          rw [hx] at h hhigh hzero
          cases escalated with
          | true =>
              cases h
              exact ⟨intent, rfl, rfl, rfl, .inl ⟨hhigh.1 rfl, hzero rfl, rfl⟩⟩
          | false =>
              cases h
              exact ⟨intent, rfl, rfl, rfl, .inr ⟨fun hf => (nomatch hhigh.2 hf), rfl⟩⟩

theorem results_append (l m : List Event) : results (l ++ m) = results l ++ results m :=
  List.filterMap_append

/-- The intent for the next iteration keeps the distance from the escalations before it. -/
theorem advance_inv {c : LoopController} {contract : GoalContract} {i : Nat} {m m' : Mission}
    {result : FactoryResultSet} {progress : ProgressVector} (hlaw : Lawful contract m.log)
    (hlive : Live contract m.log) (hcalls : calls m.log = i + 1)
    (hstreak : m.state.noProgressStreak = idleSuffix idle (results m.log))
    (hlast : (results m.log).getLast? = some result)
    (hcd : ∀ k intent, .emitted k intent ∈ m.log → intent.capabilityFloor = .higher →
      k ≤ i ∧ contract.escalationCooldownPeriod + k ≤ m.state.escalationCooldown + 1 + i)
    (h : c.advance contract (i + 1) m result progress = .ok m') : Inv contract (i + 1) m' := by
  obtain ⟨intent, hlog, hprev, hstreak', hcool⟩ := advance_spec h
  have hresults : results m'.log = results m.log := by
    rw [hlog, results_append]
    exact List.append_nil _
  refine ⟨?_, ?_, ?_, ?_, ?_, ?_⟩
  · rw [hlog]
    refine hlaw.snoc ?_
    intro hhigh k x hx hx'
    obtain ⟨hk, hle⟩ := hcd k x hx hx'
    rcases hcool with ⟨-, hzero, -⟩ | ⟨hno, -⟩
    · omega
    · exact absurd hhigh hno
  · rw [hlog]
    exact hlive.snoc id
  · rw [hlog, calls_append, hcalls]
    rfl
  · rw [hstreak', hstreak, hresults]
  · rw [hprev, hresults, hlast]
  · intro k x hx hhigh
    rw [hlog, List.mem_append, List.mem_singleton] at hx
    rcases hx with hx | hx
    · obtain ⟨hk, hle⟩ := hcd k x hx hhigh
      omega
    · cases hx
      rcases hcool with ⟨-, -, hperiod⟩ | ⟨hno, -⟩
      · rw [hperiod]
        exact ⟨Nat.le_refl _, Nat.le_refl _⟩
      · exact absurd hhigh hno

theorem work_turned {c : LoopController} {contract : GoalContract} {i : Nat} {m : Mission}
    (h : Inv contract i m) (hi : i < contract.maxIterations) {state : LoopMissionState} {abort : Bool}
    (hopen : ¬ Observed contract (.opened (i + 1) state abort))
    (hstreak : state.noProgressStreak = m.state.noProgressStreak)
    (hcool : state.escalationCooldown = m.state.escalationCooldown) :
    Turned contract i (c.work contract (i + 1)
      { m with state := state, log := m.log ++ [Event.opened (i + 1) state abort] }) := by
  have hlaw₁ : Lawful contract (m.log ++ [Event.opened (i + 1) state abort]) :=
    h.lawful.snoc (hstreak.trans h.streak)
  have hlive₁ : Live contract (m.log ++ [Event.opened (i + 1) state abort]) := h.live.snoc hopen
  have hcalls₁ : calls (m.log ++ [Event.opened (i + 1) state abort]) = i := by
    rw [calls_append, h.calls]
    rfl
  -- the call fits what is before it, whatever comes of it
  have hlaw₂ : ∀ r, Lawful contract
      (m.log ++ [Event.opened (i + 1) state abort] ++ [Event.called (i + 1) r]) :=
    fun r => hlaw₁.snoc ⟨by rw [hcalls₁], hi, ⟨m.log, state, abort, rfl⟩, hlive₁⟩
  have hlive₂ : ∀ r, Live contract
      (m.log ++ [Event.opened (i + 1) state abort] ++ [Event.called (i + 1) r]) :=
    fun r => hlive₁.snoc id
  unfold LoopController.work
  cases hcall : c.factoryRun (i + 1) m.current m.intent with
  | error e =>
      dsimp only
      exact (hlive₂ _).lively.turned (hlaw₂ _) (not_returnsStagnated_error e)
  | ok result =>
      dsimp only
      split
      · rename_i e habsorb
        exact (hlive₂ _).lively.turned (hlaw₂ _) (not_returnsStagnated_error e)
      · rename_i m₃ progress habsorb
        obtain ⟨hlog₃, hprev₃, hiter₃, hcool₃, hstreak₃⟩ := absorb_spec habsorb
        have hresults : results (m.log ++ [Event.opened (i + 1) state abort] ++
            [Event.called (i + 1) (.ok result)]) = results m.log ++ [result] := by
          rw [results_append, results_append]
          simp [results, Event.result?]
        have hstreak' : m₃.state.noProgressStreak = idleSuffix idle (results
            (m.log ++ [Event.opened (i + 1) state abort] ++ [Event.called (i + 1) (.ok result)])) := by
          rw [hresults, idleSuffix_snoc, hstreak₃, ← h.previous, ← h.streak, hstreak]
        have hcalls₂ : calls (m.log ++ [Event.opened (i + 1) state abort] ++
            [Event.called (i + 1) (.ok result)]) = i + 1 := by
          rw [calls_append, hcalls₁]
          rfl
        have hlaw₃ : Lawful contract m₃.log := by
          rw [hlog₃]
          exact (hlaw₂ _).snoc ⟨hcalls₂.symm, hstreak'⟩
        split
        · rename_i r hclose
          rcases closing_ended hstreak' hclose with ⟨hstag, rfl⟩ | ⟨hno, hr⟩
          · refine ⟨hlaw₃, fun n => ?_⟩
            rw [returnsStagnated_finish_iff, hiter₃, hlog₃]
            constructor
            · rintro ⟨-, -, rfl⟩
              exact ⟨_, _, _, [], rfl, hstag⟩
            · rintro ⟨before, s, res, after, hlog, hs⟩
              rcases snoc_eq_append_cons hlog with ⟨-, -, he⟩ | ⟨after', hlog⟩
              · cases he
                exact ⟨rfl, rfl, rfl⟩
              · exact absurd ⟨before, s, res, after', hlog, hs⟩ ((hlive₂ _).lively n)
          · refine Lively.turned hlaw₃ ?_ hr
            rw [hlog₃]
            refine (hlive₂ _).lively.snoc ?_
            intro n s res he
            cases he
            exact hno
        · rename_i hclose
          obtain ⟨hunobserved, hbelow⟩ := closing_next hclose
          have hlive₃ : Live contract m₃.log := by
            rw [hlog₃]
            refine (hlive₂ _).snoc ?_
            rintro (hobs | hstag)
            · exact hunobserved hobs
            · rw [hstreak'] at hbelow
              exact absurd hstag.1 (Nat.not_le.2 hbelow)
          split
          · rename_i e hadvance
            exact hlive₃.lively.turned hlaw₃ (not_returnsStagnated_error e)
          · rename_i m₄ hadvance
            have hresults₃ : results m₃.log = results m.log ++ [result] := by
              rw [hlog₃, results_append, hresults]
              exact List.append_nil _
            refine advance_inv hlaw₃ hlive₃ ?_ ?_ ?_ ?_ hadvance
            · rw [hlog₃, calls_append, hcalls₂]
              rfl
            · rw [hresults₃, hstreak', hresults]
            · rw [hresults₃, List.getLast?_concat]
            · intro k x hx hhigh
              rw [hlog₃] at hx
              obtain ⟨hk, hcd⟩ := h.cooldown k x (by simpa using hx) hhigh
              rw [hcool₃]
              dsimp only
              omega

theorem iterate_turned {c : LoopController} {contract : GoalContract} {i : Nat} {m : Mission}
    (h : Inv contract i m) (hi : i < contract.maxIterations) :
    Turned contract i (c.iterate contract (i + 1) m) := by
  unfold LoopController.iterate
  split
  · rename_i e _
    exact h.live.lively.turned h.lawful (not_returnsStagnated_error e)
  · rename_i abort _
    dsimp only
    split
    · refine Lively.turned (h.lawful.snoc h.streak) (h.live.lively.snoc ?_) ?_
      · intro n state result heq
        cases heq
      exact not_returnsStagnated_abort c _ _ _
    · rename_i hopen
      exact work_turned h hi (opening_eq_none hopen _) rfl rfl

/-! ## Runs -/

theorem loop_controlled {c : LoopController} {contract : GoalContract} {left : Nat} {m : Mission}
    (hleft : left ≤ contract.maxIterations) (h : Inv contract (contract.maxIterations - left) m) :
    Controlled idle contract
      ((c.loop contract left m).1.log, (c.loop contract left m).2) := by
  induction left generalizing m with
  | zero =>
      refine h.lawful.controlled fun n => ⟨fun hn => ?_, fun hn => absurd hn (h.live.lively n)⟩
      exact absurd (returnsStagnated_finish_iff.1 hn).1 nofun
  | succ left ih =>
      have hnum : contract.maxIterations - left = contract.maxIterations - (left + 1) + 1 := by omega
      have hturn := iterate_turned (c := c) h (by omega)
      rw [← hnum] at hturn
      rw [LoopController.loop]
      split
      · rename_i m' hit
        rw [hit, Turned, ← hnum] at hturn
        exact ih (by omega) hturn
      · rename_i m' r hit
        rw [hit] at hturn
        exact hturn.1.controlled hturn.2

theorem initial_inv (contract : GoalContract) (obligations : List Obligation) (keys : Dict Str Str) :
    Inv contract 0 (LoopController.initial contract obligations keys) where
  lawful := lawful_nil contract
  live := by
    intro before e after h
    exact absurd h (by simp [LoopController.initial])
  calls := rfl
  streak := rfl
  previous := rfl
  cooldown := nofun

/-- Every run is controlled. -/
theorem run_controlled (c : LoopController) (contract : GoalContract) (obligations : List Obligation) :
    Controlled idle contract (c.run contract obligations) := by
  unfold LoopController.run
  split
  · rename_i e _
    refine (lawful_nil contract).controlled fun n => ⟨fun hn => ?_, fun hn => ?_⟩
    · exact absurd hn (not_returnsStagnated_error e n)
    · obtain ⟨before, state, result, after, hlog, -⟩ := hn
      exact absurd hlog (by simp)
  · rename_i keys _
    have hinv : Inv contract (contract.maxIterations - contract.maxIterations)
        (LoopController.initial contract obligations keys) := by
      rw [Nat.sub_self]
      exact initial_inv contract obligations keys
    exact loop_controlled (Nat.le_refl _) hinv

/-! ## Complete missions -/

theorem abort_status {c : LoopController} {i : Nat} {m : Mission} {reason : Str} {r : MissionResult}
    (h : c.abort i m reason = .ok r) : r.status = .aborted := by
  obtain ⟨u, -, h⟩ := bind_eq_ok.1 h
  cases h
  rfl

theorem closing_complete {c : LoopController} {contract : GoalContract} {n : Nat} {m : Mission}
    {result : FactoryResultSet} {r : MissionResult}
    (h : c.closing contract n m result = .ended (.ok r)) (hr : r.status = .complete) :
    (evaluate contract result).complete = true := by
  have hturn : ∀ {x : Except PyExn MissionResult}, Turn.ended x = .ended (.ok r) → x = .ok r :=
    fun hx => Turn.ended.inj hx
  unfold LoopController.closing at h
  split at h
  · assumption
  · split at h
    · exact absurd (hr.symm.trans (abort_status (hturn h))) nofun
    · split at h
      · exact absurd (hr.symm.trans (abort_status (hturn h))) nofun
      · split at h
        · cases h
          cases hr
        · split at h
          · cases h
            cases hr
          · cases h

/-- An iteration that ends the run as complete has a result set that `evaluate` finds complete. -/
theorem iterate_complete {c : LoopController} {contract : GoalContract} {n : Nat} {m m' : Mission}
    {r : MissionResult} (h : c.iterate contract n m = (m', .ended (.ok r)))
    (hr : r.status = .complete) :
    ∃ result, (results m'.log).getLast? = some result ∧
      (evaluate contract result).complete = true := by
  unfold LoopController.iterate at h
  split at h
  · cases h
  · dsimp only at h
    split at h
    · obtain ⟨rfl, hturn⟩ := Prod.mk.inj h
      exact absurd (hr.symm.trans (abort_status (Turn.ended.inj hturn))) nofun
    · unfold LoopController.work at h
      dsimp only at h
      split at h
      · cases h
      · rename_i result hcall
        split at h
        · cases h
        · rename_i m₃ progress habsorb
          obtain ⟨hlog₃, -⟩ := absorb_spec habsorb
          split at h
          · rename_i x hclose
            obtain ⟨rfl, hturn⟩ := Prod.mk.inj h
            rw [hturn] at hclose
            refine ⟨result, ?_, closing_complete hclose hr⟩
            rw [hlog₃, results_append, results_append, hcall]
            have hlast : results [.called n (.ok result)] = [result] := rfl
            rw [hlast, List.append_assoc]
            exact List.getLast?_concat
          · split at h
            · cases h
            · cases h

theorem loop_complete {c : LoopController} {contract : GoalContract} {left : Nat} {m : Mission}
    {r : MissionResult} (h : (c.loop contract left m).2 = .ok r) (hr : r.status = .complete) :
    ∃ result, (results (c.loop contract left m).1.log).getLast? = some result ∧
      (evaluate contract result).complete = true := by
  induction left generalizing m with
  | zero =>
      cases h
      cases hr
  | succ left ih =>
      rw [LoopController.loop] at h ⊢
      split at h
      · exact ih h
      · rename_i m' x hit
        dsimp only at h
        rw [h] at hit
        exact iterate_complete hit hr

/-- `evaluate` reports a goal as complete only for completely bound results, unless a result of a
required id is overruled by a later one; and `run` returns COMPLETE only for results that `evaluate` so
reports. -/
theorem completion_bound_iff (c : LoopController) (contract : GoalContract)
    (obligations : List Obligation) :
    (∀ result, ((evaluate contract result).complete = true → CompletelyBound contract result) ↔
      ¬ Overruled contract result) ∧
    ∀ r, (c.run contract obligations).2 = .ok r → r.status = .complete →
      ∃ result, (results (c.run contract obligations).1).getLast? = some result ∧
        (evaluate contract result).complete = true ∧
        (CompletelyBound contract result ↔ ¬ Overruled contract result) := by
  refine ⟨complete_imp_completelyBound_iff contract, ?_⟩
  intro r h hr
  unfold LoopController.run at h ⊢
  split at h
  · cases h
  · obtain ⟨result, hlast, hcomplete⟩ := loop_complete h hr
    exact ⟨result, hlast, hcomplete, completelyBound_iff ((evaluate_complete_iff _ _).1 hcomplete)⟩

end Control

section Concrete

attribute [local instance] wholeFloats

/-- Whole amounts and whole seconds. -/
@[reducible]
def wholeQuantities : Quantities where
  Decimal := Nat
  zero := 0
  add x y := .ok (x + y)
  le x y := decide (x ≤ y)
  Time := Nat
  origin := 0
  sub x y := x - y
  reaches t n := decide (n ≤ t)

attribute [local instance] wholeQuantities

/-- A goal with one required verification. -/
def sampleGoal : GoalContract where
  goalId := lit "g"
  requiredVerificationIds := [lit "v"]
  maxIterations := 3
  maxWallTimeS := 60
  maxCost := none
  noProgressLimit := 2
  escalationCooldownPeriod := 2
  abortConditions := []
  ids_ne_nil := by simp
  ids_nodup := by simp
  iterations_pos := by decide
  wallTime_pos := by decide
  limit_pos := by decide
  cost_nonneg := nofun

/-- A result of the required verification for the accepted state. -/
def sampleResult (status : VerificationStatus) : VerificationResultRef :=
  ⟨lit "v", status, some (lit "tree"), some (lit "root"), none⟩

/-- A result set without residual work. -/
def sampleSet (items : List VerificationResultRef) : FactoryResultSet where
  factoryRunId := lit "r"
  acceptedTreeHash := some (lit "tree")
  acceptedEvidenceRoot := some (lit "root")
  rejectedEvidenceRoot := none
  verificationResults := items
  residualObligations := []
  obligationStates := []
  receiptRefs := []
  cost := (0 : Nat)
  residual_nodup := List.nodup_nil
  states_nodup := List.nodup_nil
  cost_nonneg := rfl

/-- A controller whose factory answers with the result sets of a function. -/
def sampleController (f : Nat → FactoryResultSet) : LoopController where
  factoryRun n _ _ := .ok (f n)
  deduplicationMaterial _ _ := .ok ⟨[], lit "w"⟩
  cancelInflight _ := .ok ()
  startTime := (0 : Nat)
  monotonic n := ((n : Nat), (n : Nat))
  abortRequested _ := .ok false

/-- The run of a factory that only has one answer returns COMPLETE. -/
def completes (set : FactoryResultSet) : Bool :=
  match ((sampleController fun _ => set).run sampleGoal []).2 with
  | .ok r => decide (r.status = .complete)
  | .error _ => false

theorem exists_of_completes (set : FactoryResultSet) (h : completes set = true) :
    ∃ r, ((sampleController fun _ => set).run sampleGoal []).2 = .ok r ∧ r.status = .complete := by
  unfold completes at h
  split at h
  · rename_i r hr
    exact ⟨r, hr, of_decide_eq_true h⟩
  · cases h

theorem completion_bound_iff_pass :
    ∃ result, (results ((sampleController fun _ => sampleSet [sampleResult .pass]).run
      sampleGoal []).1).getLast? = some result ∧
      (CompletelyBound sampleGoal result ↔ ¬ Overruled sampleGoal result) := by
  obtain ⟨r, hrun, hr⟩ := exists_of_completes (sampleSet [sampleResult .pass])
    (by decide)
  obtain ⟨result, hlast, -, hiff⟩ := (completion_bound_iff _ sampleGoal []).2 r hrun hr
  exact ⟨result, hlast, hiff⟩

/-- A FAIL that is followed by a PASS for the same id completes the goal and the mission. -/
theorem complete_with_failed_result :
    (evaluate sampleGoal (sampleSet [sampleResult .fail, sampleResult .pass])).complete = true ∧
      ¬ CompletelyBound sampleGoal (sampleSet [sampleResult .fail, sampleResult .pass]) ∧
      ∃ r, ((sampleController fun _ => sampleSet [sampleResult .fail, sampleResult .pass]).run
        sampleGoal []).2 = .ok r ∧ r.status = .complete := by
  refine ⟨by decide, ?_, exists_of_completes _ (by decide)⟩
  rintro ⟨-, -, hall⟩
  have hbound := (hall (lit "v") (by simp [sampleGoal])).2 (sampleResult .fail) (by
    simp [resultsFor, sampleSet, sampleResult])
  exact absurd hbound.1 nofun

/-- A result set with a failed verification, one residual obligation and states of obligations. -/
def sampleStates (states : Dict Str ObligationState) (h : states.keys.Nodup) : FactoryResultSet where
  factoryRunId := lit "r"
  acceptedTreeHash := some (lit "tree")
  acceptedEvidenceRoot := some (lit "root")
  rejectedEvidenceRoot := none
  verificationResults := [sampleResult .fail]
  residualObligations := [⟨lit "c", lit "fix it", lit "test", [], [], [], none, true⟩]
  obligationStates := states
  receiptRefs := []
  cost := (0 : Nat)
  residual_nodup := List.nodup_singleton _
  states_nodup := h
  cost_nonneg := rfl

/-- First `a` is accepted, then `b` is accepted and `a` is rejected. -/
def sampleSwap : LoopController :=
  sampleController fun n =>
    if n = 1 then sampleStates [(lit "a", .accepted)] (by decide)
    else sampleStates [(lit "a", .rejected), (lit "b", .accepted)] (by decide)

/-- The number of accepted obligations is compared, not the obligations: an iteration in which one is
newly accepted and another one is lost adds to the streak. -/
theorem not_controlled_by_each :
    ¬ ∀ (c : LoopController) (contract : GoalContract) (obligations : List Obligation),
      Controlled idleEach contract (c.run contract obligations) := by
  intro hall
  have heach := hall sampleSwap sampleGoal []
  have hclosed : ((sampleSwap.run sampleGoal []).1[6]?.any fun e : Event =>
      match e with
      | .closed _ state _ => decide (state.noProgressStreak = 1)
      | _ => false) = true := by decide +kernel
  have hnone : idleSuffix idleEach (results ((sampleSwap.run sampleGoal []).1.take 6)) = 0 := by
    decide +kernel
  cases hget : (sampleSwap.run sampleGoal []).1[6]? with
  | none =>
      rw [hget] at hclosed
      cases hclosed
  | some e =>
      rw [hget] at hclosed
      obtain ⟨hlt, he⟩ := List.getElem?_eq_some_iff.1 hget
      have hsplit := List.take_append_drop 6 (sampleSwap.run sampleGoal []).1
      rw [List.drop_eq_getElem_cons hlt, he] at hsplit
      cases e with
      | closed n state result =>
          have hstreak := heach.streak _ n state result _ hsplit.symm
          rw [hnone] at hstreak
          have hone : state.noProgressStreak = 1 := of_decide_eq_true hclosed
          omega
      | opened n state abort => cases hclosed
      | called n r => cases hclosed
      | emitted n intent => cases hclosed

end Concrete

end ResidualHarness.LoopRuntime
