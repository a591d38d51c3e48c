import ResidualHarness.Graph.Layers

/-!
# Splitting a node

A node of a graph is replaced by parts, each with its dependencies and its dependents. The parts fold
back onto the node and the node onto any of them, and both maps keep edges. So the new graph has no
cycle if the old one had none (`Split.acyclic`), and what the other nodes reach does not change
(`Split.ancestor_iff`).
-/

set_option autoImplicit false

namespace ResidualHarness.Graph

variable {V : Type} [DecidableEq V]

/-! ## Lists of nodes -/

/-- The list with the parts in place of the node. -/
def splitIn (t : V) (parts xs : List V) : List V := xs.flatMap fun d => if d = t then parts else [d]

theorem mem_splitIn {t : V} {parts xs : List V} {v : V} :
    v ∈ splitIn t parts xs ↔ v ∈ parts ∧ t ∈ xs ∨ v ∈ xs ∧ v ≠ t := by
  rw [splitIn, List.mem_flatMap]
  constructor
  · rintro ⟨d, hd, hv⟩
    split at hv
    · rename_i heq
      exact .inl ⟨hv, heq ▸ hd⟩
    · rename_i hne
      rw [List.mem_singleton.1 hv]
      exact .inr ⟨hd, hne⟩
  · rintro (⟨hv, ht⟩ | ⟨hv, hne⟩)
    · exact ⟨t, ht, by rwa [if_pos rfl]⟩
    · exact ⟨v, hv, by rw [if_neg hne]; exact List.mem_singleton_self v⟩

theorem nodup_splitIn {t : V} {parts xs : List V} (hxs : xs.Nodup) (hparts : parts.Nodup)
    (hfresh : ∀ w ∈ parts, w ∉ xs) : (splitIn t parts xs).Nodup := by
  rw [splitIn, List.nodup_flatMap]
  constructor
  · intro d _
    split
    · exact hparts
    · exact List.nodup_singleton d
  · refine hxs.pairwise_of_forall_ne fun a ha b hb hne => ?_
    intro v hva hvb
    beta_reduce at hva hvb
    split at hva <;> split at hvb
    · rename_i hat hbt
      exact hne (hat.trans hbt.symm)
    · rw [List.mem_singleton.1 hvb] at hva
      exact hfresh b hva hb
    · rw [List.mem_singleton.1 hva] at hvb
      exact hfresh a hvb ha
    · exact hne ((List.mem_singleton.1 hva).symm.trans (List.mem_singleton.1 hvb))

theorem fresh_of_nodup {t : V} {parts xs : List V} (h : (splitIn t parts xs).Nodup) (ht : t ∈ xs)
    {w : V} (hw : w ∈ parts) (hne : w ≠ t) : w ∉ xs := by
  intro hmem
  rw [splitIn, List.nodup_flatMap] at h
  have hself : w ∈ (if t = t then parts else [t]) := by rwa [if_pos rfl]
  have hother : w ∈ (if w = t then parts else [w]) := by
    rw [if_neg hne]
    exact List.mem_singleton_self w
  obtain ⟨i, hi, hit⟩ := List.getElem_of_mem ht
  obtain ⟨j, hj, hjw⟩ := List.getElem_of_mem hmem
  have hdisjoint := List.pairwise_iff_getElem.1 h.2
  rcases Nat.lt_trichotomy i j with hlt | rfl | hlt
  · refine hdisjoint i j hi hj hlt (a := w) ?_ ?_
    · rwa [hit]
    · rwa [hjw]
  · exact hne (hjw.symm.trans hit)
  · refine hdisjoint j i hj hi hlt (a := w) ?_ ?_
    · rwa [hjw]
    · rwa [hit]

/-! ## Graphs -/

variable (deps : V → List V) (nodes : List V) (deps' : V → List V)
  (nodes' : List V) (t : V) (parts : List V)

/-- In `nodes'` the node `t` of `nodes` is split into `parts`. -/
structure Split : Prop where
  acyclic : Acyclic deps nodes
  within : Within deps nodes
  mem : t ∈ nodes
  nonempty : parts ≠ []
  fresh : ∀ w ∈ parts, w ∉ nodes
  node : ∀ v, v ∈ nodes' ↔ v ∈ parts ∨ v ∈ nodes ∧ v ≠ t
  part : ∀ w ∈ parts, ∀ d, d ∈ deps' w ↔ d ∈ deps t
  other : ∀ v ∈ nodes, v ≠ t →
    ∀ d, d ∈ deps' v ↔ d ∈ parts ∧ t ∈ deps v ∨ d ∈ deps v ∧ d ≠ t

namespace Split

variable {deps nodes deps' nodes' t parts} (h : Split deps nodes deps' nodes' t parts)

/-- The parts folded onto the node. -/
def fold (t : V) (parts : List V) (v : V) : V := if v ∈ parts then t else v

/-- The node sent to a part. -/
def unfold (t w v : V) : V := if v = t then w else v

theorem fold_of_mem {w : V} (hw : w ∈ parts) : fold t parts w = t := if_pos hw

include h

theorem fold_of_node {v : V} (hv : v ∈ nodes) : fold t parts v = v :=
  if_neg fun hw => h.fresh v hw hv

omit [DecidableEq V] in
theorem notMem_self : t ∉ deps t := fun ht => h.acyclic t (.single ⟨t, h.mem, rfl, ht⟩)

theorem fold_hom {v : V} (hv : v ∈ nodes') : fold t parts v ∈ nodes ∧
    ∀ d ∈ deps' v, fold t parts d ∈ deps (fold t parts v) := by
  rcases (h.node v).1 hv with hw | ⟨hn, hne⟩
  · rw [fold_of_mem hw]
    refine ⟨h.mem, fun d hd => ?_⟩
    have hd' := (h.part v hw d).1 hd
    rwa [h.fold_of_node (h.within t h.mem d hd')]
  · rw [h.fold_of_node hn]
    refine ⟨hn, fun d hd => ?_⟩
    rcases (h.other v hn hne d).1 hd with ⟨hdw, ht⟩ | ⟨hd', -⟩
    · rwa [fold_of_mem hdw]
    · rwa [h.fold_of_node (h.within v hn d hd')]

theorem unfold_hom {w : V} (hw : w ∈ parts) {v : V} (hv : v ∈ nodes) :
    unfold t w v ∈ nodes' ∧ ∀ d ∈ deps v, unfold t w d ∈ deps' (unfold t w v) := by
  by_cases hvt : v = t
  · subst hvt
    rw [unfold, if_pos rfl]
    refine ⟨(h.node w).2 (.inl hw), fun d hd => ?_⟩
    have hne : d ≠ v := fun heq => h.notMem_self (heq ▸ hd)
    rw [unfold, if_neg hne]
    exact (h.part w hw d).2 hd
  · rw [unfold, if_neg hvt]
    refine ⟨(h.node v).2 (.inr ⟨hv, hvt⟩), fun d hd => ?_⟩
    rw [unfold]
    split
    · rename_i heq
      exact (h.other v hv hvt w).2 (.inl ⟨hw, heq ▸ hd⟩)
    · rename_i hne
      exact (h.other v hv hvt d).2 (.inr ⟨hd, hne⟩)

theorem acyclic_split : Acyclic deps' nodes' :=
  Acyclic.of_hom h.acyclic (fold t parts) fun _ hv => h.fold_hom hv

/-- The other nodes reach each other as before. -/
theorem ancestor_iff {u v : V} (hu : u ∈ nodes) (hut : u ≠ t) (hv : v ∈ nodes) (hvt : v ≠ t) :
    Ancestor id deps' nodes' u v ↔ Ancestor id deps nodes u v := by
  constructor
  · intro hpath
    have hfold : Ancestor id deps nodes (fold t parts u) (fold t parts v) :=
      Relation.TransGen.lift (p := ParentOf id deps nodes) (fold t parts) (by
        rintro a b ⟨x, hx, rfl, ha⟩
        exact ⟨_, (h.fold_hom hx).1, rfl, (h.fold_hom hx).2 a ha⟩) _ _ hpath
    rwa [h.fold_of_node hu, h.fold_of_node hv] at hfold
  · intro hpath
    obtain ⟨w, hw⟩ := List.exists_mem_of_ne_nil parts h.nonempty
    have hunfold : Ancestor id deps' nodes' (unfold t w u) (unfold t w v) :=
      Relation.TransGen.lift (p := ParentOf id deps' nodes') (unfold t w) (by
        rintro a b ⟨x, hx, rfl, ha⟩
        exact ⟨_, (h.unfold_hom hw hx).1, rfl, (h.unfold_hom hw hx).2 a ha⟩) _ _ hpath
    rwa [unfold, unfold, if_neg hut, if_neg hvt] at hunfold

end Split

end ResidualHarness.Graph
