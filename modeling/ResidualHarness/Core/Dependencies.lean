import ResidualHarness.Core.Task
import ResidualHarness.Graph.Rounds
import ResidualHarness.Python.WholeFloats

/-!
# Dependencies of a task

`Task.__post_init__` and `Task.cloud_allowed` of `residual/core.py`. The loop of the constructor is
a resolution in rounds, so that it ends and accepts exactly the acyclic dependencies
(`postInit_iff`). On a task that was accepted the recursion of `cloud_allowed` needs at most one
frame for each obligation.
-/

set_option autoImplicit false

namespace ResidualHarness.Core

open Python

section Acceptance

variable [FloatModel]

/-! ## The constructor -/

/-- No obligation depends on itself, directly or through others. -/
def TaskData.Acyclic (t : TaskData) : Prop :=
  Graph.NoCycle Obligation.id Obligation.dependsOn t.obligations

/-- Every dependency is an obligation of the task. -/
def TaskData.KnownDependencies (t : TaskData) : Prop :=
  Graph.Known Obligation.id Obligation.dependsOn t.obligations

/-- What the constructor asks of a task besides its dependencies. -/
structure TaskData.Admissible (t : TaskData) : Prop where
  id : isIdentifier t.id = true
  goal : isBlank t.goal = false ∧ t.obligations ≠ []
  artifacts : (t.artifacts.map Artifact.id).Nodup
  structural : ∀ s ∈ t.structure_.toList, s ∈ t.artifacts.map Artifact.id
  evidence : ∀ o ∈ t.obligations, o.evidence ⊆ t.artifacts.map Artifact.id

/-- The loop of the constructor is the resolution in rounds. -/
theorem resolves_eq (obligations : List Obligation) (fuel : Nat) (resolved : List Str) :
    resolves obligations fuel resolved =
      (Graph.resolveRounds Obligation.id Obligation.dependsOn obligations fuel resolved).getD
        false := by
  induction fuel generalizing resolved with
  | zero => rfl
  | succ fuel ih =>
      rw [resolves, Graph.resolveRounds]
      by_cases hlt : resolved.length < obligations.length
      · rw [if_pos hlt, if_pos hlt]
        by_cases hstuck : Graph.readyKeys Obligation.id Obligation.dependsOn obligations resolved ⊆
            resolved
        · rw [if_pos hstuck]
          exact if_pos hstuck
        · rw [if_neg hstuck, ← ih]
          exact if_neg hstuck
      · rw [if_neg hlt, if_neg hlt]
        rfl

variable {t : TaskData}

/-- With distinct ids and known dependencies, the loop accepts exactly the acyclic ones. -/
theorem resolves_iff (hnd : (t.obligations.map Obligation.id).Nodup) (hknown : t.KnownDependencies)
    {fuel : Nat} (hfuel : t.obligations.length < fuel) :
    resolves t.obligations fuel [] = true ↔ t.Acyclic := by
  obtain ⟨b, hb, hiff⟩ := Graph.exists_resolveRounds hnd hknown hfuel
  rw [resolves_eq, hb]
  exact hiff

theorem postInit_eq (hnd : (t.obligations.map Obligation.id).Nodup) (hknown : t.KnownDependencies)
    (h : t.Admissible) : t.postInit =
      require (resolves t.obligations (t.obligations.length + 1) [] = true)
        (contractError "obligation dependency cycle") := by
  have hdeps : ∀ o ∈ t.obligations, o.evidence ⊆ t.artifacts.map Artifact.id ∧
      o.dependsOn ⊆ t.obligations.map Obligation.id :=
    fun o ho => ⟨h.evidence o ho, hknown o ho⟩
  rw [TaskData.postInit, identifier, (require_eq_ok (u := ())).2 h.id,
    (require_eq_ok (u := ())).2 h.goal, (require_eq_ok (u := ())).2 hnd,
    (require_eq_ok (u := ())).2 h.artifacts, (require_eq_ok (u := ())).2 h.structural,
    (require_eq_ok (u := ())).2 hdeps]
  rfl

theorem admissible_of_postInit (h : t.postInit = .ok ()) : t.Admissible := by
  simp only [TaskData.postInit, identifier] at h
  obtain ⟨_, h1, h⟩ := bind_eq_ok.1 h
  obtain ⟨_, h2, h⟩ := bind_eq_ok.1 h
  obtain ⟨_, -, h⟩ := bind_eq_ok.1 h
  obtain ⟨_, h4, h⟩ := bind_eq_ok.1 h
  obtain ⟨_, h5, h⟩ := bind_eq_ok.1 h
  obtain ⟨_, h6, -⟩ := bind_eq_ok.1 h
  exact ⟨require_eq_ok.1 h1, require_eq_ok.1 h2, require_eq_ok.1 h4, require_eq_ok.1 h5,
    fun o ho => (require_eq_ok.1 h6 o ho).1⟩

/-- A task whose obligations have distinct ids and known dependencies is accepted exactly when it is
admissible and its dependencies are acyclic. -/
theorem postInit_iff (hnd : (t.obligations.map Obligation.id).Nodup)
    (hknown : t.KnownDependencies) : t.postInit = .ok () ↔ t.Admissible ∧ t.Acyclic := by
  constructor
  · intro h
    have hadm := admissible_of_postInit h
    rw [postInit_eq hnd hknown hadm] at h
    exact ⟨hadm, (resolves_iff hnd hknown (Nat.lt_succ_self _)).1 (require_eq_ok.1 h)⟩
  · rintro ⟨hadm, hcycle⟩
    rw [postInit_eq hnd hknown hadm]
    exact require_eq_ok.2 ((resolves_iff hnd hknown (Nat.lt_succ_self _)).2 hcycle)

/-! ## The recursion -/

namespace Task

/-- `cloud_allowed(node_id)` on a stack of so many frames. It fails without an exception of its own
when the stack is too small. -/
def cloudAllowedOn (t : Task) : Nat → Str → Except (Option PyExn) Bool
  | 0, _ => .error none
  | frames + 1, node =>
      match t.byId node with
      | none => .error (some .keyError)
      | some o => do
          if o.cloud then
            let evidence ← o.evidence.allM fun a =>
              match t.artifact a with
              | none => .error (some PyExn.keyError)
              | some x => .ok x.cloud
            if evidence then o.dependsOn.allM (t.cloudAllowedOn frames) else return false
          else return false

/-- The obligation may leave the machine, with everything it names as evidence. -/
def CloudOnly (t : Task) (o : Obligation) : Prop :=
  o.cloud = true ∧ ∀ a ∈ o.evidence, ∀ x ∈ t.artifacts, x.id = a → x.cloud = true

/-- `m` is reached from `node` through `depends_on`, in any number of steps. -/
def Reaches (t : Task) (node m : Str) : Prop :=
  Relation.ReflTransGen (Graph.ParentOf Obligation.id Obligation.dependsOn t.obligations) m node

/-- Every obligation that is reached is for the cloud only. -/
def CloudBelow (t : Task) (node : Str) : Prop :=
  ∀ o ∈ t.obligations, t.Reaches node o.id → t.CloudOnly o

variable {t : Task}

omit [FloatModel] in
theorem allM_eq_ok {ε α : Type} {f : α → Except ε Bool} {g : α → Bool} {xs : List α}
    (h : ∀ x ∈ xs, f x = .ok (g x)) : xs.allM f = .ok (xs.all g) := by
  induction xs with
  | nil => rfl
  | cons x xs ih =>
      rw [List.allM, h x List.mem_cons_self, List.all_cons]
      cases hx : g x with
      | false => rfl
      | true => exact ih fun y hy => h y (List.mem_cons_of_mem x hy)

theorem known (t : Task) : t.KnownDependencies := by
  obtain ⟨-, -, -, -, h, -⟩ := t.checked
  exact fun o ho => (h o ho).2

theorem acyclic (t : Task) : t.Acyclic := by
  obtain ⟨-, hnd, -⟩ := t.checked
  exact ((postInit_iff hnd t.known).1 t.valid).2

/-- The artifact with an id is the only one, so that it speaks for all of them. -/
theorem artifact_any_cloud {a : Str} (ha : a ∈ t.artifacts.map Artifact.id) :
    (t.artifact a).any Artifact.cloud = true ↔ ∀ x ∈ t.artifacts, x.id = a → x.cloud = true := by
  obtain ⟨-, -, hnd, -⟩ := t.checked
  obtain ⟨x, hx⟩ := exists_artifact ha
  obtain ⟨hmem, hid⟩ := artifact_mem hx
  rw [hx]
  constructor
  · intro hcloud y hy hya
    rw [List.inj_on_of_nodup_map hnd hy hmem (hya.trans hid.symm)]
    exact hcloud
  · exact fun h => h x hmem hid

theorem evidence_all_cloud {o : Obligation} (ho : o ∈ t.obligations) :
    (o.evidence.all fun a => (t.artifact a).any Artifact.cloud) = true ↔
      ∀ a ∈ o.evidence, ∀ x ∈ t.artifacts, x.id = a → x.cloud = true := by
  obtain ⟨-, -, -, -, hknown, -⟩ := t.checked
  rw [List.all_eq_true]
  exact forall₂_congr fun a ha => artifact_any_cloud ((hknown o ho).1 ha)

/-- What is reached from an obligation is itself and what is reached from its dependencies. -/
theorem cloudBelow_iff {o : Obligation} (ho : o ∈ t.obligations) :
    t.CloudBelow o.id ↔ t.CloudOnly o ∧ ∀ d ∈ o.dependsOn, t.CloudBelow d := by
  constructor
  · intro h
    refine ⟨h o ho Relation.ReflTransGen.refl, fun d hd o' ho' hreach => h o' ho' ?_⟩
    exact Relation.ReflTransGen.tail hreach ⟨o, ho, rfl, hd⟩
  · rintro ⟨hself, hdeps⟩ o' ho' hreach
    obtain ⟨-, hnd, -⟩ := t.checked
    rcases Relation.ReflTransGen.cases_tail hreach with heq | ⟨d, hreach, x, hx, hxo, hd⟩
    · rw [← List.inj_on_of_nodup_map hnd ho ho' heq]
      exact hself
    · rw [List.inj_on_of_nodup_map hnd hx ho hxo] at hd
      exact hdeps d hd o' ho' hreach

/-- The answer at a depth, and what it means. -/
def Answers (t : Task) (frames : Nat) (node : Str) : Prop :=
  t.cloudAllowedOn frames node = .ok (t.cloudAllowedFrom frames node) ∧
    (t.cloudAllowedFrom frames node = true ↔ t.CloudBelow node)

/-- With an answer for each dependency, one more frame answers for the obligation. -/
theorem answers_step (frames : Nat) (o : Obligation) (ho : o ∈ t.obligations)
    (ih : ∀ d ∈ o.dependsOn, t.Answers frames d) : t.Answers (frames + 1) o.id := by
  obtain ⟨-, -, -, -, hknown, -⟩ := t.checked
  constructor
  · have hevidence : ∀ a ∈ o.evidence, (match t.artifact a with
        | none => Except.error (some PyExn.keyError)
        | some x => .ok x.cloud) = .ok ((t.artifact a).any Artifact.cloud) := by
      intro a ha
      obtain ⟨x, hx⟩ := exists_artifact ((hknown o ho).1 ha)
      rw [hx]
      rfl
    rw [cloudAllowedOn, cloudAllowedFrom, byId_of_mem ho]
    dsimp only
    rw [allM_eq_ok hevidence, allM_eq_ok fun d hd => (ih d hd).1]
    cases o.cloud with
    | false => rfl
    | true =>
        cases o.evidence.all fun a => (t.artifact a).any Artifact.cloud with
        | false => rfl
        | true => rfl
  · rw [cloudAllowedFrom, byId_of_mem ho, cloudBelow_iff ho, CloudOnly]
    dsimp only
    rw [Bool.and_eq_true, Bool.and_eq_true, evidence_all_cloud ho, List.all_eq_true]
    exact and_congr_right fun _ => forall₂_congr fun d hd => (ih d hd).2

/-- One frame for each obligation is enough, and the answer is that of everything reached. -/
theorem cloudAllowedOn_eq {node : Str} (h : node ∈ t.ids) {frames : Nat}
    (hframes : t.obligations.length ≤ frames) :
    t.cloudAllowedOn frames node = .ok (t.cloudAllowed node) ∧
      (t.cloudAllowed node = true ↔ t.CloudBelow node) := by
  have hdeep := Graph.depth_induction (P := t.Answers) t.acyclic t.known answers_step hframes node h
  have hfirst := Graph.depth_induction (P := t.Answers) t.acyclic t.known answers_step le_rfl node h
  have hsame : t.cloudAllowedFrom frames node = t.cloudAllowed node := by
    rw [Bool.eq_iff_iff]
    exact hdeep.2.trans hfirst.2.symm
  exact ⟨hdeep.1.trans (congrArg Except.ok hsame), hfirst.2⟩

end Task

/-! ## Acceptance -/

/-- A task of obligations with distinct ids and known dependencies is accepted exactly when its
dependencies are acyclic: the loop ends after at most one round more than there are obligations, and
a task that only has a cycle is refused for it. On every accepted task `cloud_allowed` ends, and it is
true exactly when everything that is reached is for the cloud only. -/
theorem dependency_acceptance :
    (∀ t : TaskData, (t.obligations.map Obligation.id).Nodup → t.KnownDependencies →
      (∀ fuel, t.obligations.length < fuel → ∃ b,
        Graph.resolveRounds Obligation.id Obligation.dependsOn t.obligations fuel [] = some b ∧
        resolves t.obligations fuel [] = b ∧ (b = true ↔ t.Acyclic)) ∧
      (t.postInit = .ok () ↔ t.Admissible ∧ t.Acyclic) ∧
      (t.Admissible → ¬ t.Acyclic →
        t.postInit = .error (contractError "obligation dependency cycle"))) ∧
    ∀ t : Task, ∀ node ∈ t.ids, ∀ frames, t.obligations.length ≤ frames →
      t.cloudAllowedOn frames node = .ok (t.cloudAllowed node) ∧
      (t.cloudAllowed node = true ↔ t.CloudBelow node) := by
  refine ⟨fun t hnd hknown => ⟨fun fuel hfuel => ?_, postInit_iff hnd hknown, fun hadm hcycle => ?_⟩,
    fun t node h frames hframes => Task.cloudAllowedOn_eq h hframes⟩
  · obtain ⟨b, hb, hiff⟩ := Graph.exists_resolveRounds hnd hknown hfuel
    refine ⟨b, hb, ?_, hiff⟩
    rw [resolves_eq, hb]
    rfl
  · rw [postInit_eq hnd hknown hadm]
    exact if_neg fun h => hcycle ((resolves_iff hnd hknown (Nat.lt_succ_self _)).1 h)

end Acceptance

section Concrete

attribute [local instance] wholeFloats

/-- An obligation without evidence. -/
def sampleStep (id : String) (dependsOn : List Str) : Obligation :=
  ⟨lit id, lit "do", lit "check", [], dependsOn, [], none, true⟩

/-- One obligation after another. -/
def sampleSteps : Task where
  id := lit "t"
  goal := lit "g"
  artifacts := []
  obligations := [sampleStep "b" [lit "a"], sampleStep "a" []]
  structure_ := none
  artifactIds := nofun
  obligationsValid := by decide
  valid := by decide

theorem dependency_acceptance_sample :
    sampleSteps.Acyclic ∧ sampleSteps.cloudAllowedOn 2 (lit "b") = .ok true ∧
      sampleSteps.CloudBelow (lit "b") := by
  obtain ⟨hconstructor, hrecursion⟩ := dependency_acceptance
  have hanswer := hrecursion sampleSteps (lit "b") (by decide) 2 le_rfl
  have hcloud : sampleSteps.cloudAllowed (lit "b") = true := by decide
  refine ⟨?_, hcloud ▸ hanswer.1, hanswer.2.1 hcloud⟩
  exact ((hconstructor sampleSteps.toTaskData (by decide) sampleSteps.known).2.1.1
    sampleSteps.valid).2

end Concrete

end ResidualHarness.Core
