import ResidualHarness.Cic.Interaction
import ResidualHarness.Python.WholeFloats

/-!
# The decomposition of a model

`components` and `_restricted`. A component is closed under the interaction graph, so each
constraint is in one restriction, and a model is satisfied when all its restrictions are
(`decomposition_exact`).
-/

set_option autoImplicit false

namespace ResidualHarness.Cic

open Python Core

/-! ## Lists by groups -/

/-- The elements of a list by the group of their key, when every key is in one group. -/
theorem flatMap_filter_perm {α : Type} (key : α → Str) {groups : List (List Str)} :
    ∀ {l : List α}, groups.flatten.Nodup → (∀ a ∈ l, key a ∈ groups.flatten) →
      (groups.flatMap fun g => l.filter fun a => key a ∈ g).Perm l := by
  induction groups with
  | nil =>
      intro l _ hk
      cases l with
      | nil => exact .nil
      | cons a l => cases hk a List.mem_cons_self
  | cons g groups ih =>
      intro l hnd hk
      rw [List.flatten_cons, List.nodup_append] at hnd
      have hrest : ∀ h ∈ groups, (l.filter fun a => key a ∈ h) =
          (l.filter fun a => key a ∉ g).filter fun a => key a ∈ h := by
        intro h hh
        rw [List.filter_filter]
        refine List.filter_congr fun a _ => ?_
        by_cases ha : key a ∈ h
        · have hg : key a ∉ g := fun hg =>
            hnd.2.2 _ hg _ (List.mem_flatten.2 ⟨h, hh, ha⟩) rfl
          simp [ha, hg]
        · simp [ha]
      have hflat : (groups.flatMap fun h => l.filter fun a => key a ∈ h) =
          groups.flatMap fun h => (l.filter fun a => key a ∉ g).filter fun a => key a ∈ h := by
        rw [List.flatMap_def, List.flatMap_def, List.map_congr_left hrest]
      have hkeys : ∀ a ∈ l.filter fun a => key a ∉ g, key a ∈ groups.flatten := by
        intro a ha
        obtain ⟨hal, hag⟩ := List.mem_filter.1 ha
        rcases List.mem_append.1 (List.flatten_cons ▸ hk a hal) with h | h
        · exact absurd h (of_decide_eq_true hag)
        · exact h
      rw [List.flatMap_cons, hflat]
      refine ((ih hnd.2.1 hkeys).append_left _).trans ?_
      have hsplit := List.filter_append_perm (fun a => decide (key a ∈ g)) l
      simpa only [decide_not] using hsplit

/-! ## Groups -/

/-- The groups partition the variables, and no edge leaves one. -/
structure Grouped (m : Model) (groups : List (List Str)) : Prop where
  partition : groups.flatten.Perm m.domains.keys
  nonempty : ∀ g ∈ groups, g ≠ []
  closed : ∀ g ∈ groups, Graph.Closed (interactionGraph m).adj g

theorem grouped_components {m : Model} (hm : m.Valid) :
    ∃ groups, components (interactionGraph m) = .ok groups ∧ Grouped m groups := by
  obtain ⟨groups, hgroups, hperm, hclosed⟩ :=
    Graph.components_spec (undirected_interactionGraph hm)
  refine ⟨groups, ?_, keys_interactionGraph m ▸ hperm, fun g hg => (hclosed g hg).1,
    fun g hg => (hclosed g hg).2⟩
  rw [components, hgroups]

variable {m : Model} {groups : List (List Str)}

theorem Grouped.nodup (hm : m.Valid) (hg : Grouped m groups) : groups.flatten.Nodup :=
  hg.partition.nodup_iff.2 hm.names

theorem Grouped.exists_group (hg : Grouped m groups) {k : Str} (hk : k ∈ m.domains.keys) :
    ∃ g ∈ groups, k ∈ g := List.mem_flatten.1 (hg.partition.mem_iff.2 hk)

/-- A variable is in one group. -/
theorem Grouped.eq_of_mem (hm : m.Valid) (hg : Grouped m groups) {g h : List Str}
    (hgm : g ∈ groups) (hhm : h ∈ groups) {k : Str} (hkg : k ∈ g) (hkh : k ∈ h) : g = h := by
  have hpw := (List.nodup_flatten.1 (hg.nodup hm)).2
  have hsymm : Std.Symm (List.Disjoint : List Str → List Str → Prop) := ⟨fun _ _ hd => hd.symm⟩
  by_contra hne
  exact hpw.forall hgm hhm hne hkg hkh

/-- A constraint with a variable in a group has its whole scope in it. -/
theorem Grouped.scope_subset (hm : m.Valid) (hg : Grouped m groups) {g : List Str}
    (hmem : g ∈ groups) {s : List Str} (hs : s ∈ m.scopes) {k : Str} (hks : k ∈ s) (hkg : k ∈ g) :
    s ⊆ g := by
  intro x hx
  by_cases h : k = x
  · exact h ▸ hkg
  · exact hg.closed g hmem k hkg ((mem_adj_interactionGraph hm).2 ⟨h, s, hs, hks, hx⟩)

theorem Grouped.head_mem (hm : m.Valid) {r : SumRule} (hr : r ∈ m.sums) : r.keys.headD [] ∈ r.keys := by
  obtain ⟨hne, -⟩ := checkSum_ok (hm.sums r hr)
  cases hk : r.keys with
  | nil => exact absurd hk hne
  | cons k ks => exact List.mem_cons_self

/-! ## Restrictions -/

theorem keys_restricted (m : Model) (g : List Str) :
    (m.restricted g).domains.keys = m.domains.keys.filter fun k => k ∈ g := by
  rw [Model.restricted, Dict.keys, Dict.keys, List.filter_map]
  rfl

theorem scoped_restricted (hm : m.Valid) (hg : Grouped m groups) {g : List Str}
    (hmem : g ∈ groups) : (m.restricted g).Scoped := by
  have hinside : ∀ s ∈ m.scopes, ∀ k ∈ s, k ∈ g → s ⊆ (m.restricted g).domains.keys := by
    intro s hs k hks hkg x hx
    rw [keys_restricted]
    exact List.mem_filter.2 ⟨(Cic.scope_subset hm hs).1 hx,
      decide_eq_true (hg.scope_subset hm hmem hs hks hkg hx)⟩
  constructor
  · rw [keys_restricted]
    exact hm.names.filter _
  · intro s hs
    rw [Model.scopes, List.mem_append, List.mem_map, List.mem_map] at hs
    rcases hs with ⟨r, hr, rfl⟩ | ⟨r, hr, rfl⟩
    · rcases List.mem_append.1 hr with hr | hr
      · obtain ⟨hr, hin⟩ := List.mem_filter.1 hr
        exact hinside _ (mem_scopes_pair (.inl hr)) r.1 List.mem_cons_self (of_decide_eq_true hin)
      · obtain ⟨hr, hin⟩ := List.mem_filter.1 hr
        exact hinside _ (mem_scopes_pair (.inr hr)) r.1 List.mem_cons_self (of_decide_eq_true hin)
    · obtain ⟨hr, hin⟩ := List.mem_filter.1 hr
      exact hinside _ (mem_scopes_sum hr) _ (Grouped.head_mem hm hr) (of_decide_eq_true hin)

theorem solves_iff_restricted (hm : m.Valid) (hg : Grouped m groups) (f : Str → Int) :
    m.Solves f ↔ ∀ g ∈ groups, (m.restricted g).Solves f := by
  have hfind : ∀ s ∈ m.scopes, ∀ k ∈ s, ∃ g ∈ groups, k ∈ g := fun s hs k hk =>
    hg.exists_group ((Cic.scope_subset hm hs).1 hk)
  constructor
  · intro hsol g _
    exact ⟨fun d hd => hsol.domains d (List.mem_of_mem_filter hd),
      fun r hr => hsol.different r (List.mem_of_mem_filter hr),
      fun r hr => hsol.lessThan r (List.mem_of_mem_filter hr),
      fun r hr => hsol.sums r (List.mem_of_mem_filter hr)⟩
  · intro hall
    refine ⟨fun d hd => ?_, fun r hr => ?_, fun r hr => ?_, fun r hr => ?_⟩
    · obtain ⟨g, hmem, hk⟩ := hg.exists_group (List.mem_map.2 ⟨d, hd, rfl⟩)
      exact (hall g hmem).domains d (List.mem_filter.2 ⟨hd, decide_eq_true hk⟩)
    · obtain ⟨g, hmem, hk⟩ := hfind _ (mem_scopes_pair (.inl hr)) r.1 List.mem_cons_self
      exact (hall g hmem).different r (List.mem_filter.2 ⟨hr, decide_eq_true hk⟩)
    · obtain ⟨g, hmem, hk⟩ := hfind _ (mem_scopes_pair (.inr hr)) r.1 List.mem_cons_self
      exact (hall g hmem).lessThan r (List.mem_filter.2 ⟨hr, decide_eq_true hk⟩)
    · obtain ⟨g, hmem, hk⟩ := hfind _ (mem_scopes_sum hr) _ (Grouped.head_mem hm hr)
      exact (hall g hmem).sums r (List.mem_filter.2 ⟨hr, decide_eq_true hk⟩)

theorem Model.Solves.congr {m : Model} (hm : m.Scoped) {f f' : Str → Int}
    (h : ∀ k ∈ m.domains.keys, f k = f' k) (hf : m.Solves f) : m.Solves f' := by
  have hpair : ∀ r, r ∈ m.different ∨ r ∈ m.lessThan → f r.1 = f' r.1 ∧ f r.2 = f' r.2 := by
    intro r hr
    have hs := List.cons_subset.1 (hm.scopes _ (mem_scopes_pair hr))
    exact ⟨h _ hs.1, h _ (hs.2 List.mem_cons_self)⟩
  refine ⟨fun d hd => ?_, fun r hr => ?_, fun r hr => ?_, fun r hr => ?_⟩
  · rw [← h d.1 (List.mem_map.2 ⟨d, hd, rfl⟩)]
    exact hf.domains d hd
  · obtain ⟨h1, h2⟩ := hpair r (.inl hr)
    rw [← h1, ← h2]
    exact hf.different r hr
  · obtain ⟨h1, h2⟩ := hpair r (.inr hr)
    rw [← h1, ← h2]
    exact hf.lessThan r hr
  · rw [← hf.sums r hr]
    exact congrArg List.sum (List.map_congr_left fun k hk =>
      (h k (hm.scopes _ (mem_scopes_sum hr) hk)).symm)

/-- An assignment satisfies the model. -/
def Satisfiable (m : Model) : Prop :=
  ∃ values : Dict Str Int, values.keys.Nodup ∧ consistent m values true = true

theorem satisfiable_iff {m : Model} (hm : m.Scoped) : Satisfiable m ↔ ∃ f, m.Solves f := by
  constructor
  · rintro ⟨values, hnd, h⟩
    exact ⟨_, ((consistent_complete hm hnd).1 h).2⟩
  · rintro ⟨f, hf⟩
    let values : Dict Str Int := m.domains.map fun d => (d.1, f d.1)
    have hkeys : values.keys = m.domains.keys := by
      rw [Dict.keys, List.map_map]
      rfl
    have hnd : values.keys.Nodup := hkeys ▸ hm.names
    have hval : ∀ k ∈ m.domains.keys, f k = valueOf values k := by
      intro k hk
      obtain ⟨d, hd, rfl⟩ := List.mem_map.1 hk
      rw [valueOf, Dict.get?_of_mem hnd (List.mem_map.2 ⟨d, hd, rfl⟩)]
      rfl
    refine ⟨values, hnd, (consistent_complete hm hnd).2 ⟨⟨hnd, ?_, ?_⟩, hf.congr hm hval⟩⟩
    · rw [hkeys]
      exact List.Subset.refl _
    · rw [hkeys]
      exact List.Subset.refl _

/-- The part of an assignment on a group. -/
def restrictValues (values : Dict Str Int) (g : List Str) : Dict Str Int :=
  values.filter fun kv => kv.1 ∈ g

theorem keys_restrictValues (values : Dict Str Int) (g : List Str) :
    (restrictValues values g).keys = values.keys.filter fun k => k ∈ g := by
  rw [restrictValues, Dict.keys, Dict.keys, List.filter_map]
  rfl

theorem valueOf_restrictValues {values : Dict Str Int} (hnd : values.keys.Nodup) {g : List Str}
    {k : Str} (hk : k ∈ values.keys) (hkg : k ∈ g) :
    valueOf (restrictValues values g) k = valueOf values k := by
  obtain ⟨v, hv⟩ := Dict.mem_keys_iff.1 hk
  have hmem : (k, v) ∈ restrictValues values g :=
    List.mem_filter.2 ⟨Dict.mem_of_get? hv, decide_eq_true hkg⟩
  have hnd' : (restrictValues values g).keys.Nodup := by
    rw [keys_restrictValues]
    exact hnd.filter _
  rw [valueOf, valueOf, hv, Dict.get?_of_mem hnd' hmem]

theorem consistent_iff_restricted (hm : m.Valid) (hg : Grouped m groups) {values : Dict Str Int}
    (hc : Complete m values) : consistent m values true = true ↔
      ∀ g ∈ groups, consistent (m.restricted g) (restrictValues values g) true = true := by
  have hpart : ∀ g ∈ groups, Complete (m.restricted g) (restrictValues values g) ∧
      ((m.restricted g).Solves (valueOf (restrictValues values g)) ↔
        (m.restricted g).Solves (valueOf values)) := by
    intro g hmem
    have hscoped := scoped_restricted hm hg hmem
    have hval : ∀ k ∈ (m.restricted g).domains.keys,
        valueOf (restrictValues values g) k = valueOf values k := by
      intro k hk
      rw [keys_restricted, List.mem_filter, decide_eq_true_eq] at hk
      exact valueOf_restrictValues hc.nodup (hc.all hk.1) hk.2
    refine ⟨⟨?_, ?_, ?_⟩, fun h => h.congr hscoped hval,
      fun h => h.congr hscoped fun k hk => (hval k hk).symm⟩
    · rw [keys_restrictValues]
      exact hc.nodup.filter _
    · rw [keys_restrictValues, keys_restricted]
      exact fun k hk => List.mem_filter.2 ⟨hc.inside (List.mem_filter.1 hk).1, (List.mem_filter.1 hk).2⟩
    · rw [keys_restrictValues, keys_restricted]
      exact fun k hk => List.mem_filter.2 ⟨hc.all (List.mem_filter.1 hk).1, (List.mem_filter.1 hk).2⟩
  rw [consistent_complete hm.scoped hc.nodup, solves_iff_restricted hm hg]
  constructor
  · rintro ⟨-, hsol⟩ g hmem
    obtain ⟨hcomplete, hiff⟩ := hpart g hmem
    exact (consistent_complete (scoped_restricted hm hg hmem) hcomplete.nodup).2
      ⟨hcomplete, hiff.2 (hsol g hmem)⟩
  · intro hall
    refine ⟨hc, fun g hmem => ?_⟩
    obtain ⟨hcomplete, hiff⟩ := hpart g hmem
    exact hiff.1 ((consistent_complete (scoped_restricted hm hg hmem) hcomplete.nodup).1
      (hall g hmem)).2

/-- The solutions of the restrictions join to one of the model. -/
theorem satisfiable_iff_restricted (hm : m.Valid) (hg : Grouped m groups) :
    Satisfiable m ↔ ∀ g ∈ groups, Satisfiable (m.restricted g) := by
  rw [satisfiable_iff hm.scoped]
  constructor
  · rintro ⟨f, hf⟩ g hmem
    exact (satisfiable_iff (scoped_restricted hm hg hmem)).2
      ⟨f, (solves_iff_restricted hm hg f).1 hf g hmem⟩
  · intro hall
    have hchoice : ∀ g, ∃ f : Str → Int, g ∈ groups → (m.restricted g).Solves f := by
      intro g
      by_cases hmem : g ∈ groups
      · obtain ⟨f, hf⟩ := (satisfiable_iff (scoped_restricted hm hg hmem)).1 (hall g hmem)
        exact ⟨f, fun _ => hf⟩
      · exact ⟨fun _ => 0, fun h => absurd h hmem⟩
    choose f hf using hchoice
    -- every variable takes the value that the solution of its group gives it
    let joined (k : Str) : Int := f ((groups.find? fun g => decide (k ∈ g)).getD []) k
    refine ⟨joined, (solves_iff_restricted hm hg joined).2 fun g hmem => ?_⟩
    refine (hf g hmem).congr (scoped_restricted hm hg hmem) fun k hk => ?_
    rw [keys_restricted, List.mem_filter, decide_eq_true_eq] at hk
    cases hfind : groups.find? fun g => decide (k ∈ g) with
    | none => exact absurd (decide_eq_true hk.2) (List.find?_eq_none.1 hfind g hmem)
    | some h =>
        have hkh : k ∈ h := by
          have hp := List.find?_some hfind
          exact of_decide_eq_true hp
        have heq := hg.eq_of_mem hm hmem (List.mem_of_find?_eq_some hfind) hk.2 hkh
        simp only [joined, hfind, Option.getD_some, heq]

/-! ## Exactness -/

/-- What the components of a model promise. -/
structure Decomposition (m : Model) (groups : List (List Str)) : Prop where
  partition : groups.flatten.Perm m.domains.keys
  nonempty : ∀ g ∈ groups, g ≠ []
  scopes : ∀ s ∈ m.scopes, ∃! g, g ∈ groups ∧ s ⊆ g
  domains : (groups.flatMap fun g => (m.restricted g).domains).Perm m.domains
  different : (groups.flatMap fun g => (m.restricted g).different).Perm m.different
  lessThan : (groups.flatMap fun g => (m.restricted g).lessThan).Perm m.lessThan
  sums : (groups.flatMap fun g => (m.restricted g).sums).Perm m.sums
  satisfies : ∀ values, Complete m values → (consistent m values true = true ↔
    ∀ g ∈ groups, consistent (m.restricted g) (restrictValues values g) true = true)
  unsat : ¬ Satisfiable m ↔ ∃ g ∈ groups, ¬ Satisfiable (m.restricted g)

theorem Grouped.decomposition (hm : m.Valid) (hg : Grouped m groups) : Decomposition m groups where
  partition := hg.partition
  nonempty := hg.nonempty
  scopes := by
    intro s hs
    obtain ⟨hsub, hne⟩ := Cic.scope_subset hm hs
    obtain ⟨k, hk⟩ := List.exists_mem_of_ne_nil s hne
    obtain ⟨g, hmem, hkg⟩ := hg.exists_group (hsub hk)
    refine ⟨g, ⟨hmem, hg.scope_subset hm hmem hs hk hkg⟩, ?_⟩
    rintro h ⟨hh, hsh⟩
    exact hg.eq_of_mem hm hh hmem (hsh hk) hkg
  domains := flatMap_filter_perm Prod.fst (hg.nodup hm) fun d hd =>
    hg.partition.mem_iff.2 (List.mem_map.2 ⟨d, hd, rfl⟩)
  different := flatMap_filter_perm Prod.fst (hg.nodup hm) fun r hr =>
    hg.partition.mem_iff.2 (checkPair_ok.1 (hm.different r hr)).1
  lessThan := flatMap_filter_perm Prod.fst (hg.nodup hm) fun r hr =>
    hg.partition.mem_iff.2 (checkPair_ok.1 (hm.lessThan r hr)).1
  sums := flatMap_filter_perm (fun r : SumRule => r.keys.headD []) (hg.nodup hm) fun _ hr =>
    hg.partition.mem_iff.2 ((checkSum_ok (hm.sums _ hr)).2.1 (Grouped.head_mem hm hr))
  satisfies _ hc := consistent_iff_restricted hm hg hc
  unsat := by
    rw [satisfiable_iff_restricted hm hg]
    push Not
    rfl

section

variable [FloatModel]

/-- The components of a model that was validated decompose it exactly. -/
theorem decomposition_exact (model : {v : Json // v.wf = true}) (m : Model)
    (hm : validateModel model.1 = .ok m) :
    ∃ groups, components (interactionGraph m) = .ok groups ∧ Decomposition m groups := by
  have hv := valid_of_validateModel model.2 hm
  obtain ⟨groups, hgroups, hg⟩ := grouped_components hv
  exact ⟨groups, hgroups, hg.decomposition hv⟩

end

section Concrete

attribute [local instance] wholeFloats

/-- Two variables that differ, and one on its own. -/
def apartJson : Json :=
  .obj [(lit "domains", .obj [(lit "a", .arr [.int 0, .int 1]), (lit "b", .arr [.int 0, .int 1]),
      (lit "c", .arr [.int 0])]),
    (lit "different", .arr [.arr [.str (lit "a"), .str (lit "b")]])]

/-- The model that it is read as. -/
def apart : Model where
  domains := [(lit "a", [0, 1]), (lit "b", [0, 1]), (lit "c", [0])]
  different := [(lit "a", lit "b")]
  lessThan := []
  sums := []

theorem apart_validated : validateModel apartJson = .ok apart := by decide

theorem decomposition_exact_apart :
    ∃ groups, components (interactionGraph apart) = .ok groups ∧ Decomposition apart groups :=
  decomposition_exact ⟨apartJson, by decide⟩ apart apart_validated

end Concrete

end ResidualHarness.Cic
