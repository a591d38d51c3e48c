import ResidualHarness.Cic.Interaction
import ResidualHarness.Graph.Treewidth
import ResidualHarness.Python.Numbers
import ResidualHarness.Python.WholeFloats

/-!
# Elimination certificates

What `elimination_certificate`, `min_fill` and `verify_certificate` of `residual/cic.py` promise about
the graph. `mem_adj_eliminate` says what one elimination does to the neighbours; over an order the
steps are an elimination of the graph (`elimination`), so their bags decompose it and the width of a
certificate bounds the treewidth.
-/

set_option autoImplicit false

namespace ResidualHarness.Cic

open Python Core

namespace NodeGraph

/-! ## Simple graphs -/

/-- An undirected graph without self edges. -/
structure Simple (g : NodeGraph) : Prop extends Graph.Undirected g.adj g.keys where
  loopless : ∀ x, x ∉ g.adj x

theorem mem_keys_of_mem_adj {g : NodeGraph} {x y : Str} (h : y ∈ g.adj x) : x ∈ g.keys := by
  by_contra hx
  rw [adj_of_notMem hx] at h
  cases h

namespace Simple

variable {g : NodeGraph}

theorem mem_keys (hg : g.Simple) {x y : Str} (h : y ∈ g.adj x) : y ∈ g.keys :=
  hg.inside x (mem_keys_of_mem_adj h) h

theorem adj_symm (hg : g.Simple) {x y : Str} (h : y ∈ g.adj x) : x ∈ g.adj y :=
  hg.symm x (mem_keys_of_mem_adj h) y h

end Simple

/-! ## One elimination -/

section Step

variable {g : NodeGraph} {v : Str}

theorem mem_fill {e : Str × Str} :
    e ∈ g.fill v ↔ e ∈ pairs (sortedSet (g.adj v)) ∧ e.2 ∉ g.adj e.1 := by
  rw [fill, List.mem_filter, decide_eq_true_eq]

theorem ne_of_mem_fill {e : Str × Str} (h : e ∈ g.fill v) : e.1 ≠ e.2 :=
  ne_of_mem_pairs (nodup_sortedSet _) (mem_fill.1 h).1

theorem keys_eliminate (g : NodeGraph) (v : Str) :
    (g.eliminate v).1.keys = ((g.addEdges (g.fill v)).pop v).keys := by
  rw [eliminate, Dict.keys, List.map_map]
  rfl

@[simp]
theorem mem_keys_eliminate {x : Str} : x ∈ (g.eliminate v).1.keys ↔ x ≠ v ∧ x ∈ g.keys := by
  rw [keys_eliminate, Dict.mem_keys_pop, keys_addEdges]

theorem adj_eliminate {x : Str} (hx : x ≠ v) :
    (g.eliminate v).1.adj x = if x ∈ sortedSet (g.adj v)
      then ((g.addEdges (g.fill v)).adj x).erase v else (g.addEdges (g.fill v)).adj x := by
  have h := get?_map ((g.addEdges (g.fill v)).pop v)
    (fun k ns => if k ∈ sortedSet (g.adj v) then ns.erase v else ns) x
  rw [adj, eliminate]
  refine (congrArg (fun o : Option (List Str) => o.getD []) h).trans ?_
  have hadj : (g.addEdges (g.fill v)).adj x =
      (Dict.get? (g.addEdges (g.fill v)) x).getD [] := rfl
  rw [Dict.get?_pop, if_neg hx, hadj]
  cases Dict.get? (g.addEdges (g.fill v)) x with
  | none => split <;> rfl
  | some ns => split <;> rfl

/-- An elimination joins the neighbours of the node and takes the node out. -/
theorem mem_adj_eliminate (hg : g.Simple) {x y : Str} (hx : x ≠ v) :
    y ∈ (g.eliminate v).1.adj x ↔
      y ≠ v ∧ (y ∈ g.adj x ∨ x ≠ y ∧ x ∈ g.adj v ∧ y ∈ g.adj v) := by
  by_cases hkey : x ∈ g.keys
  · have hfilled : y ∈ (g.addEdges (g.fill v)).adj x ↔
        y ∈ g.adj x ∨ x ≠ y ∧ x ∈ g.adj v ∧ y ∈ g.adj v := by
      rw [mem_adj_addEdges (fun e he => ne_of_mem_fill he) hkey]
      constructor
      · rintro (h | h | h)
        · exact .inl h
        · have hmem := mem_pairs (mem_fill.1 h).1
          exact .inr ⟨ne_of_mem_fill h, mem_sortedSet.1 hmem.1, mem_sortedSet.1 hmem.2⟩
        · have hmem := mem_pairs (mem_fill.1 h).1
          exact .inr ⟨(ne_of_mem_fill h).symm, mem_sortedSet.1 hmem.2, mem_sortedSet.1 hmem.1⟩
      · rintro (h | ⟨hne, hxv, hyv⟩)
        · exact .inl h
        · by_cases hxy : y ∈ g.adj x
          · exact .inl hxy
          · have hyx : x ∉ g.adj y := fun h => hxy (hg.adj_symm h)
            refine .inr ?_
            rcases pairs_of_mem (mem_sortedSet.2 hxv) (mem_sortedSet.2 hyv) hne with h | h
            · exact .inl (mem_fill.2 ⟨h, hxy⟩)
            · exact .inr (mem_fill.2 ⟨h, hyx⟩)
    rw [adj_eliminate hx, ← hfilled]
    by_cases hxv : x ∈ g.adj v
    · rw [if_pos (mem_sortedSet.2 hxv)]
      have hnd : ((g.addEdges (g.fill v)).adj x).Nodup := nodup_adj_addEdges (hg.nodup_adj x hkey)
      exact hnd.mem_erase_iff
    · rw [if_neg fun h => hxv (mem_sortedSet.1 h)]
      refine ⟨fun h => ⟨?_, h⟩, fun h => h.2⟩
      rintro rfl
      rcases hfilled.1 h with h | ⟨-, h, -⟩
      · exact hxv (hg.adj_symm h)
      · exact hxv h
  · constructor
    · intro h
      exact absurd (mem_keys_eliminate.1 (mem_keys_of_mem_adj h)).2 hkey
    · rintro ⟨-, h | ⟨-, h, -⟩⟩
      · exact absurd (mem_keys_of_mem_adj h) hkey
      · exact absurd (hg.mem_keys h) hkey

theorem Simple.eliminate (hg : g.Simple) : (g.eliminate v).1.Simple where
  nodup := by
    rw [keys_eliminate]
    exact Dict.nodup_pop (by rw [keys_addEdges]; exact hg.nodup) v
  inside x hx y hy := by
    obtain ⟨hxv, -⟩ := mem_keys_eliminate.1 hx
    obtain ⟨hyv, h⟩ := (mem_adj_eliminate hg hxv).1 hy
    refine mem_keys_eliminate.2 ⟨hyv, ?_⟩
    rcases h with h | ⟨-, -, h⟩
    · exact hg.mem_keys h
    · exact hg.mem_keys h
  nodup_adj x hx := by
    obtain ⟨hxv, hkey⟩ := mem_keys_eliminate.1 hx
    have hnd : ((g.addEdges (g.fill v)).adj x).Nodup := nodup_adj_addEdges (hg.nodup_adj x hkey)
    rw [adj_eliminate hxv]
    split
    · exact hnd.erase v
    · exact hnd
  symm x hx y hy := by
    obtain ⟨hxv, -⟩ := mem_keys_eliminate.1 hx
    obtain ⟨hyv, h⟩ := (mem_adj_eliminate hg hxv).1 hy
    refine (mem_adj_eliminate hg hyv).2 ⟨hxv, ?_⟩
    rcases h with h | ⟨hne, hx, hy⟩
    · exact .inl (hg.adj_symm h)
    · exact .inr ⟨hne.symm, hy, hx⟩
  loopless x hx := by
    have hxv : x ≠ v := (mem_keys_eliminate.1 (mem_keys_of_mem_adj hx)).1
    rcases ((mem_adj_eliminate hg hxv).1 hx).2 with h | ⟨hne, -⟩
    · exact hg.loopless x h
    · exact hne rfl

end Step

/-! ## Elimination orders -/

/-- The graph that is left after these nodes. -/
def after (g : NodeGraph) (vs : List Str) : NodeGraph := vs.foldl (fun g v => (g.eliminate v).1) g

section Order

variable {g : NodeGraph} {ordering : List Str}

theorem after_take_succ {i : Nat} (hi : i < ordering.length) :
    g.after (ordering.take (i + 1)) = ((g.after (ordering.take i)).eliminate ordering[i]).1 := by
  rw [after, List.take_succ_eq_append_getElem hi, List.foldl_append]
  rfl

theorem Simple.after (hg : g.Simple) (vs : List Str) : (g.after vs).Simple := by
  induction vs generalizing g with
  | nil => exact hg
  | cons v vs ih => exact ih hg.eliminate

theorem mem_keys_after {vs : List Str} {x : Str} :
    x ∈ (g.after vs).keys ↔ x ∈ g.keys ∧ x ∉ vs := by
  induction vs generalizing g with
  | nil => exact ⟨fun h => ⟨h, List.not_mem_nil⟩, And.left⟩
  | cons v vs ih =>
      rw [NodeGraph.after, List.foldl_cons]
      refine (ih (g := (g.eliminate v).1)).trans ?_
      rw [mem_keys_eliminate, List.mem_cons, not_or]
      tauto

/-- An edge stays as long as its ends do. -/
theorem edge_stays (hg : g.Simple) {x y : Str} {i j : Nat} (hij : i ≤ j)
    (h : y ∈ (g.after (ordering.take i)).adj x)
    (hstay : ∀ (k : Nat) (hk : k < ordering.length), k < j → ordering[k] ≠ x ∧ ordering[k] ≠ y) :
    y ∈ (g.after (ordering.take j)).adj x := by
  induction j, hij using Nat.le_induction with
  | base => exact h
  | succ j hij ih =>
      have hprev := ih fun k hk hkj => hstay k hk (Nat.lt_succ_of_lt hkj)
      by_cases hj : j < ordering.length
      · obtain ⟨hx, hy⟩ := hstay j hj (Nat.lt_succ_self j)
        rw [after_take_succ hj]
        exact (mem_adj_eliminate (hg.after _) hx.symm).2 ⟨hy.symm, .inl hprev⟩
      · rw [List.take_of_length_le (by omega)] at hprev ⊢
        exact hprev

/-- The neighbours of an eliminated node come later in an order of all nodes. -/
theorem exists_later (hg : g.Simple) (hall : g.keys ⊆ ordering) {i : Nat}
    (hi : i < ordering.length) {x : Str}
    (h : x ∈ (g.after (ordering.take i)).adj ordering[i]) :
    ∃ (j : Nat) (hj : j < ordering.length), i < j ∧ ordering[j] = x := by
  obtain ⟨hx, htake⟩ := mem_keys_after.1 ((hg.after _).mem_keys h)
  obtain ⟨j, hj, rfl⟩ := List.mem_iff_getElem.1 (hall hx)
  refine ⟨j, hj, ?_, rfl⟩
  rcases lt_trichotomy j i with hlt | rfl | hgt
  · exact absurd (List.mem_take_iff_getElem.2 ⟨j, by omega, rfl⟩) htake
  · exact absurd h ((hg.after _).loopless _)
  · exact hgt

/-- Two neighbours of an eliminated node are joined when the first of them is eliminated. -/
theorem filled (hg : g.Simple) (hnd : ordering.Nodup) {i j k : Nat} (hi : i < ordering.length)
    (hj : j < ordering.length) (hk : k < ordering.length) (hij : i < j) (hjk : j < k)
    (hx : ordering[j] ∈ (g.after (ordering.take i)).adj ordering[i])
    (hy : ordering[k] ∈ (g.after (ordering.take i)).adj ordering[i]) :
    ordering[k] ∈ (g.after (ordering.take j)).adj ordering[j] := by
  have hne : ∀ (a b : Nat) (ha : a < ordering.length) (hb : b < ordering.length), a < b →
      ordering[a] ≠ ordering[b] := fun a b ha hb hab heq =>
    hab.ne (hnd.getElem_inj_iff.1 heq)
  have hjoined : ordering[k] ∈ (g.after (ordering.take (i + 1))).adj ordering[j] := by
    rw [after_take_succ hi]
    exact (mem_adj_eliminate (hg.after _) (hne i j hi hj hij).symm).2
      ⟨(hne i k hi hk (hij.trans hjk)).symm, .inr ⟨hne j k hj hk hjk, hx, hy⟩⟩
  exact edge_stays hg hij hjoined fun m hm hmj =>
    ⟨hne m j hm hj hmj, hne m k hm hk (hmj.trans hjk)⟩

end Order

end NodeGraph

/-! ## Certificates -/

theorem length_eliminationSteps (g : NodeGraph) (ordering : List Str) :
    (eliminationSteps g ordering).length = ordering.length := by
  induction ordering generalizing g with
  | nil => rfl
  | cons v ordering ih => rw [eliminationSteps, List.length_cons, List.length_cons, ih]

theorem getElem_eliminationSteps {g : NodeGraph} {ordering : List Str} {i : Nat}
    (hi : i < (eliminationSteps g ordering).length) (ho : i < ordering.length) :
    (eliminationSteps g ordering)[i] =
      ((g.after (ordering.take i)).eliminate ordering[i]).2 := by
  induction ordering generalizing g i with
  | nil => cases ho
  | cons v ordering ih =>
      cases i with
      | zero => rfl
      | succ i => exact ih _ _

section Steps

variable {g : NodeGraph} {ordering : List Str}

theorem node_getElem {i : Nat} (hi : i < (eliminationSteps g ordering).length)
    (ho : i < ordering.length) : (eliminationSteps g ordering)[i].node = ordering[i] := by
  rw [getElem_eliminationSteps hi ho]
  rfl

theorem mem_neighbors_getElem {i : Nat} (hi : i < (eliminationSteps g ordering).length)
    (ho : i < ordering.length) {x : Str} : x ∈ (eliminationSteps g ordering)[i].neighbors ↔
      x ∈ (g.after (ordering.take i)).adj ordering[i] := by
  rw [getElem_eliminationSteps hi ho]
  exact mem_sortedSet

theorem nodup_neighbors {s : EliminationStep} (hs : s ∈ eliminationSteps g ordering) :
    s.neighbors.Nodup := by
  obtain ⟨i, hi, rfl⟩ := List.mem_iff_getElem.1 hs
  rw [getElem_eliminationSteps hi (by rwa [length_eliminationSteps] at hi)]
  exact nodup_sortedSet _

/-- The steps of an order of all nodes, as an elimination. -/
def elimination (hg : g.Simple) (ho : ordering.Perm g.keys) :
    Graph.Elimination Str (eliminationSteps g ordering).length where
  node i := (eliminationSteps g ordering)[i].node
  later i := (eliminationSteps g ordering)[i].neighbors.toFinset
  injective := by
    rintro ⟨i, hi⟩ ⟨j, hj⟩ h
    have hi' : i < ordering.length := length_eliminationSteps g ordering ▸ hi
    have hj' : j < ordering.length := length_eliminationSteps g ordering ▸ hj
    rw [Fin.mk.injEq]
    change (eliminationSteps g ordering)[i].node = (eliminationSteps g ordering)[j].node at h
    rw [node_getElem hi hi', node_getElem hj hj'] at h
    exact (ho.nodup_iff.2 hg.nodup).getElem_inj_iff.1 h
  after := by
    rintro ⟨i, hi⟩ x hx
    have hi' : i < ordering.length := length_eliminationSteps g ordering ▸ hi
    rw [List.mem_toFinset] at hx
    obtain ⟨j, hj, hij, rfl⟩ := NodeGraph.exists_later hg ho.symm.subset hi'
      ((mem_neighbors_getElem hi hi').1 hx)
    have hj' : j < (eliminationSteps g ordering).length := by rwa [length_eliminationSteps]
    exact ⟨⟨j, hj'⟩, hij, node_getElem hj' hj⟩
  filled := by
    rintro ⟨i, hi⟩ ⟨j, hj⟩ ⟨k, hk⟩ hjk hx hy
    have hi' : i < ordering.length := length_eliminationSteps g ordering ▸ hi
    have hj' : j < ordering.length := length_eliminationSteps g ordering ▸ hj
    have hk' : k < ordering.length := length_eliminationSteps g ordering ▸ hk
    rw [List.mem_toFinset] at hx hy ⊢
    rw [Fin.getElem_fin, Fin.getElem_fin, node_getElem hj hj', mem_neighbors_getElem hi hi'] at hx
    rw [Fin.getElem_fin, Fin.getElem_fin, node_getElem hk hk', mem_neighbors_getElem hi hi'] at hy
    rw [Fin.getElem_fin, Fin.getElem_fin, node_getElem hk hk', mem_neighbors_getElem hj hj']
    obtain ⟨l, hl, hil, heq⟩ := NodeGraph.exists_later hg ho.symm.subset hi' hx
    obtain rfl : l = j := (ho.nodup_iff.2 hg.nodup).getElem_inj_iff.1 heq
    exact NodeGraph.filled hg (ho.nodup_iff.2 hg.nodup) hi' hj' hk' hil hjk hx hy

/-- An edge is in the bag of the end that is eliminated first. -/
theorem edge_in_bag (hg : g.Simple) (ho : ordering.Perm g.keys) {i j : Nat}
    (hi : i < ordering.length) (hj : j < ordering.length) (hij : i < j)
    (h : ordering[j] ∈ g.adj ordering[i]) : ∃ k, ordering[i] ∈ (elimination hg ho).bag k ∧
      ordering[j] ∈ (elimination hg ho).bag k := by
  have hnd := ho.nodup_iff.2 hg.nodup
  have hi' : i < (eliminationSteps g ordering).length := by rwa [length_eliminationSteps]
  have hstays : ordering[j] ∈ (g.after (ordering.take i)).adj ordering[i] :=
    NodeGraph.edge_stays hg (Nat.zero_le i) h
    fun k hk hki => ⟨fun heq => hki.ne (hnd.getElem_inj_iff.1 heq),
      fun heq => (hki.trans hij).ne (hnd.getElem_inj_iff.1 heq)⟩
  refine ⟨⟨i, hi'⟩, ?_, Finset.mem_insert_of_mem ?_⟩
  · rw [← node_getElem hi' hi]
    exact Graph.Elimination.mem_bag_self (E := elimination hg ho) ⟨i, hi'⟩
  · exact List.mem_toFinset.2 ((mem_neighbors_getElem hi' hi).2 hstays)

/-- The steps of an order of all nodes eliminate the graph. -/
theorem eliminates (hg : g.Simple) (ho : ordering.Perm g.keys) :
    (elimination hg ho).Eliminates g.adj g.keys where
  covers x := by
    rw [← ho.mem_iff, List.mem_iff_getElem]
    constructor
    · rintro ⟨i, hi, rfl⟩
      have hi' : i < (eliminationSteps g ordering).length := by rwa [length_eliminationSteps]
      exact ⟨⟨i, hi'⟩, node_getElem hi' hi⟩
    · rintro ⟨⟨i, hi⟩, rfl⟩
      have hi' : i < ordering.length := length_eliminationSteps g ordering ▸ hi
      exact ⟨i, hi', (node_getElem hi hi').symm⟩
  edges x hx y hy := by
    obtain ⟨i, hi, rfl⟩ := List.mem_iff_getElem.1 (ho.symm.subset hx)
    obtain ⟨j, hj, rfl⟩ := List.mem_iff_getElem.1 (ho.symm.subset (hg.mem_keys hy))
    rcases lt_trichotomy i j with hij | rfl | hji
    · exact edge_in_bag hg ho hi hj hij hy
    · exact absurd hy (hg.loopless _)
    · obtain ⟨k, h⟩ := edge_in_bag hg ho hj hi hji (hg.adj_symm hy)
      exact ⟨k, h.symm⟩

end Steps

/-! ## Accepted orders -/

/-- A `dict` of `set`s. -/
structure SetGraph where
  graph : NodeGraph
  keys_nodup : graph.keys.Nodup
  adj_nodup : ∀ kv ∈ graph, kv.2.Nodup

/-- What `_graph_copy` accepts is an undirected graph without self edges. -/
theorem SetGraph.simple {g : SetGraph} (h : g.graph.check = .ok ()) : g.graph.Simple := by
  obtain ⟨-, -, hrest⟩ := bind_eq_ok.1 h
  have hall := require_eq_ok.1 hrest
  have hget : ∀ {x y}, y ∈ g.graph.adj x → ∃ kv ∈ g.graph, kv.1 = x ∧ kv.2 = g.graph.adj x := by
    intro x y hy
    obtain ⟨ns, hns⟩ := Dict.mem_keys_iff.1 (NodeGraph.mem_keys_of_mem_adj hy)
    refine ⟨(x, ns), Dict.mem_of_get? hns, rfl, ?_⟩
    rw [NodeGraph.adj, hns]
    rfl
  have hloop : ∀ x, x ∉ g.graph.adj x := by
    intro x hx
    obtain ⟨kv, hkv, rfl, hadj⟩ := hget hx
    exact (hall kv hkv).1 (hadj ▸ hx)
  exact {
    nodup := g.keys_nodup
    inside := fun x _ y hy => by
      obtain ⟨kv, hkv, rfl, hadj⟩ := hget hy
      exact (hall kv hkv).2.1 (hadj ▸ hy)
    nodup_adj := fun x hx => by
      obtain ⟨ns, hns⟩ := Dict.mem_keys_iff.1 hx
      rw [NodeGraph.adj, hns]
      exact g.adj_nodup _ (Dict.mem_of_get? hns)
    symm := fun x _ y hy => by
      obtain ⟨kv, hkv, rfl, hadj⟩ := hget hy
      exact (hall kv hkv).2.2 y (hadj ▸ hy)
    loopless := hloop }

section Accepted

variable {g : NodeGraph} {ordering : List Str} {c : Certificate}

/-- The certificate of an order that is accepted. -/
theorem eliminationCertificate_eq_ok (h : eliminationCertificate g ordering = .ok c) :
    g.check = .ok () ∧ (ordering.length = g.length ∧ ordering ⊆ g.keys ∧ g.keys ⊆ ordering) ∧
      c = ⟨ordering, ((eliminationSteps g ordering).map fun s => s.neighbors.length).foldl max 0,
        eliminationSteps g ordering⟩ := by
  obtain ⟨_, hcheck, h⟩ := bind_eq_ok.1 h
  obtain ⟨_, hperm, h⟩ := bind_eq_ok.1 h
  exact ⟨hcheck, require_eq_ok.1 hperm, (Except.ok.inj h).symm⟩

theorem perm_of_accepted (hnd : g.keys.Nodup)
    (h : ordering.length = g.length ∧ ordering ⊆ g.keys ∧ g.keys ⊆ ordering) :
    ordering.Perm g.keys := by
  have hlen : ordering.length ≤ g.keys.length := by rw [h.1, Dict.keys, List.length_map]
  exact ((hnd.subperm h.2.2).perm_of_length_le hlen).symm

theorem accepted_of_perm (hcheck : g.check = .ok ()) (h : ordering.Perm g.keys) :
    ∃ c, eliminationCertificate g ordering = .ok c ∧ c.ordering = ordering := by
  have hlen : ordering.length = g.length := by rw [h.length_eq, Dict.keys, List.length_map]
  exact ⟨_, bind_eq_ok.2 ⟨(), hcheck, bind_eq_ok.2
    ⟨(), require_of ⟨hlen, h.subset, h.symm.subset⟩, rfl⟩⟩, rfl⟩

end Accepted

/-- `{node} ∪ neighbors` of a step. -/
def EliminationStep.bag (s : EliminationStep) : Finset Str := insert s.node s.neighbors.toFinset

/-- Every bag attached to the bag of its earliest-eliminated later neighbour. -/
def Certificate.attachment (c : Certificate) : SimpleGraph (Fin c.steps.length) :=
  SimpleGraph.fromRel fun i j =>
    IsLeast {k | i < k ∧ c.steps[k].node ∈ c.steps[i].neighbors} j

/-- The bags of the steps decompose the graph. -/
def Certificate.Decomposes (c : Certificate) (g : NodeGraph) : Prop :=
  Graph.Decomposition g.adj g.keys c.attachment fun i => c.steps[i].bag

theorem decomposes_of_perm {g : NodeGraph} (hg : g.Simple) {c : Certificate}
    (ho : c.ordering.Perm g.keys) (hsteps : c.steps = eliminationSteps g c.ordering) :
    c.Decomposes g := by
  obtain ⟨ordering, width, steps⟩ := c
  obtain rfl : steps = eliminationSteps g ordering := hsteps
  have hattach : Certificate.attachment ⟨ordering, width, eliminationSteps g ordering⟩ =
      (elimination hg ho).attachment := by
    refine congrArg SimpleGraph.fromRel (funext fun i => funext fun j => ?_)
    simp only [Graph.Elimination.Attached, elimination, List.mem_toFinset]
  rw [Certificate.Decomposes, hattach]
  exact Graph.Elimination.decomposition (eliminates hg ho)

/-! ## Widths -/

theorem le_foldl_max {ns : List Nat} {b n : Nat} (h : n = b ∨ n ∈ ns) : n ≤ ns.foldl max b := by
  induction ns generalizing b n with
  | nil =>
      rcases h with rfl | h
      · exact le_rfl
      · cases h
  | cons a ns ih =>
      have hacc : max b a ≤ ns.foldl max (max b a) := ih (.inl rfl)
      rw [List.foldl_cons]
      rcases h with rfl | h
      · exact (le_max_left n a).trans hacc
      · rcases List.mem_cons.1 h with rfl | h
        · exact (le_max_right b n).trans hacc
        · exact ih (.inr h)

theorem foldl_max_mem (ns : List Nat) (b : Nat) : ns.foldl max b = b ∨ ns.foldl max b ∈ ns := by
  induction ns generalizing b with
  | nil => exact .inl rfl
  | cons a ns ih =>
      rw [List.foldl_cons]
      rcases ih (max b a) with h | h
      · rw [h]
        rcases max_choice b a with hmax | hmax
        · exact .inl hmax
        · rw [hmax]
          exact .inr List.mem_cons_self
      · exact .inr (List.mem_cons_of_mem _ h)

section Width

variable {g : NodeGraph} {ordering : List Str}

theorem card_bag (hg : g.Simple) (ho : ordering.Perm g.keys) {s : EliminationStep}
    (hs : s ∈ eliminationSteps g ordering) : s.bag.card = s.neighbors.length + 1 := by
  have hcard : s.neighbors.toFinset.card = s.neighbors.length :=
    List.toFinset_card_of_nodup (nodup_neighbors hs)
  obtain ⟨i, hi, rfl⟩ := List.mem_iff_getElem.1 hs
  exact (Graph.Elimination.card_bag (E := elimination hg ho) ⟨i, hi⟩).trans
    (congrArg (· + 1) hcard)

/-- The largest bag of a certificate has one node more than its width. -/
structure Certificate.Width (c : Certificate) : Prop where
  le : ∀ s ∈ c.steps, s.bag.card ≤ c.widthUpperBound + 1
  attained : ∃ s ∈ c.steps, s.bag.card = c.widthUpperBound + 1

theorem width_le {s : EliminationStep} {c : Certificate} (hs : s ∈ c.steps)
    (hw : c.widthUpperBound = (c.steps.map fun s => s.neighbors.length).foldl max 0) :
    s.neighbors.length ≤ c.widthUpperBound := by
  rw [hw]
  exact le_foldl_max (.inr (List.mem_map_of_mem hs))

/-- Some step has as many neighbours as the width says, unless there is no step. -/
theorem width_attained {c : Certificate} (hne : c.steps ≠ [])
    (hw : c.widthUpperBound = (c.steps.map fun s => s.neighbors.length).foldl max 0) :
    ∃ s ∈ c.steps, s.neighbors.length = c.widthUpperBound := by
  rcases foldl_max_mem (c.steps.map fun s => s.neighbors.length) 0 with h | h
  · obtain ⟨s, hs⟩ := List.exists_mem_of_ne_nil _ hne
    have hle := width_le hs hw
    exact ⟨s, hs, by omega⟩
  · obtain ⟨s, hs, heq⟩ := List.mem_map.1 h
    exact ⟨s, hs, heq.trans hw.symm⟩

end Width

/-- The bags of an accepted order decompose the graph, and its width bounds the treewidth. -/
theorem accepted_spec {g : SetGraph} {ordering : List Str} {c : Certificate}
    (h : eliminationCertificate g.graph ordering = .ok c) :
    c.Decomposes g.graph ∧ (g.graph ≠ [] → c.Width) ∧
      (g.graph = [] → c.steps = [] ∧ c.widthUpperBound = 0) ∧ c.widthUpperBound ≤ 32 ∧
      Graph.treewidth g.graph.adj g.graph.keys ≤ c.widthUpperBound := by
  obtain ⟨hcheck, haccepted, rfl⟩ := eliminationCertificate_eq_ok h
  have hg := SetGraph.simple hcheck
  have ho := perm_of_accepted hg.nodup haccepted
  have hlength : g.graph.length ≤ 32 := require_eq_ok.1 (bind_eq_ok.1 hcheck).choose_spec.1
  have hbound : ∀ s ∈ eliminationSteps g.graph ordering, s.neighbors.length ≤
      ((eliminationSteps g.graph ordering).map fun s => s.neighbors.length).foldl max 0 :=
    fun s hs => le_foldl_max (.inr (List.mem_map_of_mem hs))
  refine ⟨decomposes_of_perm hg ho rfl, fun hne => ⟨fun s hs => ?_, ?_⟩, fun hnil => ?_, ?_, ?_⟩
  · rw [card_bag hg ho hs]
    exact Nat.add_le_add_right (hbound s hs) 1
  · have hsteps : eliminationSteps g.graph ordering ≠ [] := by
      rw [← List.length_pos_iff, length_eliminationSteps, haccepted.1]
      exact List.length_pos_iff.2 hne
    obtain ⟨s, hs, heq⟩ := width_attained (c := ⟨ordering,
      ((eliminationSteps g.graph ordering).map fun s => s.neighbors.length).foldl max 0,
      eliminationSteps g.graph ordering⟩) hsteps rfl
    exact ⟨s, hs, (card_bag hg ho hs).trans (congrArg (· + 1) heq)⟩
  · have hordering : ordering = [] := by
      rw [← List.length_eq_zero_iff, haccepted.1, hnil]
      rfl
    rw [hordering]
    exact ⟨rfl, rfl⟩
  · -- the neighbours of a node are distinct nodes of the graph
    rcases foldl_max_mem ((eliminationSteps g.graph ordering).map fun s => s.neighbors.length) 0 with
      h0 | h0
    · exact h0.le.trans (Nat.zero_le _)
    · obtain ⟨s, hs, heq⟩ := List.mem_map.1 h0
      have hsub : s.neighbors ⊆ g.graph.keys := by
        intro x hx
        obtain ⟨i, hi, rfl⟩ := List.mem_iff_getElem.1 hs
        have hi' : i < ordering.length := length_eliminationSteps g.graph ordering ▸ hi
        obtain ⟨j, hj, -, rfl⟩ := NodeGraph.exists_later hg ho.symm.subset hi'
          ((mem_neighbors_getElem hi hi').1 hx)
        exact ho.subset (List.getElem_mem hj)
      have hle := ((nodup_neighbors hs).subperm hsub).length_le
      rw [Dict.keys, List.length_map] at hle
      exact heq ▸ hle.trans hlength
  · refine Graph.Elimination.treewidth_le (eliminates hg ho) fun i => ?_
    exact (List.toFinset_card_le _).trans (hbound _ (List.getElem_mem i.2))

/-! ## Greedy orders -/

/-- Every node of the order has the least score of those that are left, and none is left at the
end. -/
def Greedy : NodeGraph → List Str → Prop
  | g, [] => g.keys = []
  | g, v :: vs =>
      v ∈ g.keys ∧ (∀ k ∈ g.keys, g.score v ≤ g.score k) ∧ Greedy (g.eliminate v).1 vs

namespace NodeGraph

variable {g : NodeGraph}

theorem least_eq (ns : List Str) (n : Str) :
    g.least n ns = minBy (fun a b => decide (g.score a < g.score b)) n ns := by
  simp only [least, minBy, decide_eq_true_eq]

theorem least_spec (ns : List Str) (n : Str) :
    g.least n ns ∈ n :: ns ∧ ∀ k ∈ n :: ns, g.score (g.least n ns) ≤ g.score k := by
  rw [least_eq]
  exact minBy_spec _ _ ns n fun _ _ _ _ => decide_eq_true_iff

theorem Simple.keys_perm (hg : g.Simple) {v : Str} (hv : v ∈ g.keys) :
    (v :: (g.eliminate v).1.keys).Perm g.keys := by
  have hnd : (v :: (g.eliminate v).1.keys).Nodup :=
    List.nodup_cons.2 ⟨fun h => (mem_keys_eliminate.1 h).1 rfl, hg.eliminate.nodup⟩
  refine (List.perm_ext_iff_of_nodup hnd hg.nodup).2 fun x => ?_
  rw [List.mem_cons, mem_keys_eliminate]
  constructor
  · rintro (rfl | ⟨-, hx⟩)
    · exact hv
    · exact hx
  · intro hx
    exact (eq_or_ne x v).imp_right fun hne => ⟨hne, hx⟩

end NodeGraph

/-- `min_fill` takes every node once, each with the least score when it is taken. -/
theorem minFillOrder_spec {n : Nat} {g : NodeGraph} (hg : g.Simple) (hn : g.keys.length = n) :
    (minFillOrder n g).Perm g.keys ∧ Greedy g (minFillOrder n g) := by
  induction n generalizing g with
  | zero =>
      have hnil := List.length_eq_zero_iff.1 hn
      rw [minFillOrder, hnil]
      exact ⟨.nil, hnil⟩
  | succ n ih =>
      cases hkeys : g.keys with
      | nil =>
          rw [hkeys] at hn
          cases hn
      | cons k ks =>
          have hstep : minFillOrder (n + 1) g =
              g.least k ks :: minFillOrder n (g.eliminate (g.least k ks)).1 := by
            rw [minFillOrder, hkeys]
          obtain ⟨hmem, hle⟩ := NodeGraph.least_spec (g := g) ks k
          rw [← hkeys] at hmem hle ⊢
          rw [hstep]
          have hperm := hg.keys_perm hmem
          have hlen : (g.eliminate (g.least k ks)).1.keys.length = n := by
            have := hperm.length_eq
            rw [hn, List.length_cons] at this
            omega
          obtain ⟨ihperm, ihgreedy⟩ := ih hg.eliminate hlen
          exact ⟨(ihperm.cons _).trans hperm, hmem, hle, ihgreedy⟩

/-! ## Verification -/

section Verification

variable [FloatModel]

/-- An order has to be a list of strings. -/
def asOrdering : Json → Except PyExn (List Str)
  | .arr xs =>
      match xs.mapM asStr with
      | some ordering => .ok ordering
      | none => .error (contractError "elimination order must be an exact permutation")
  | _ => .error (contractError "elimination order must be an exact permutation")

/-- `certificate["ordering"]`. -/
def readOrdering (certificate : Json) : Except PyExn (List Str) := do
  asOrdering (← certificate.item (lit "ordering"))

/-- The comparison of `verify_certificate`. -/
def certificateMatches (g : NodeGraph) (certificate : Json) : Except PyExn Bool := do
  let text ← canonical certificate
  let ordering ← readOrdering certificate
  let expected ← eliminationCertificate g ordering
  return decide (text = (← canonical expected.asDict))

/-- `verify_certificate(graph, certificate)`: every exception of the comparison is caught. -/
def verifyCertificate (g : NodeGraph) (certificate : Json) : Bool :=
  match certificateMatches g certificate with
  | .ok same => same
  | .error _ => false

theorem mapM_asStr (xs : List Str) : (xs.map Json.str).mapM asStr = some xs := by
  induction xs with
  | nil => rfl
  | cons x xs ih => rw [List.map_cons, List.mapM_cons, ih]; rfl

theorem readOrdering_asDict (c : Certificate) : readOrdering c.asDict = .ok c.ordering := by
  refine bind_eq_ok.2 ⟨.arr (c.ordering.map Json.str), rfl, ?_⟩
  rw [asOrdering, mapM_asStr]

theorem verifyCertificate_iff {g : NodeGraph} {v : Json} : verifyCertificate g v = true ↔
    ∃ ordering c, readOrdering v = .ok ordering ∧ eliminationCertificate g ordering = .ok c ∧
      v.dumpable = true ∧ c.asDict.dumpable = true ∧ v.render = c.asDict.render := by
  constructor
  · intro h
    rw [verifyCertificate] at h
    cases hm : certificateMatches g v with
    | error e =>
        rw [hm] at h
        cases h
    | ok same =>
        rw [hm] at h
        obtain ⟨text, htext, hm⟩ := bind_eq_ok.1 hm
        obtain ⟨ordering, hordering, hm⟩ := bind_eq_ok.1 hm
        obtain ⟨c, hc, hm⟩ := bind_eq_ok.1 hm
        obtain ⟨expected, hexpected, hm⟩ := bind_eq_ok.1 hm
        obtain ⟨hdv, rfl⟩ := dumpable_of_canonical htext
        obtain ⟨hdc, rfl⟩ := dumpable_of_canonical hexpected
        refine ⟨ordering, c, hordering, hc, hdv, hdc, ?_⟩
        have hsame := (Except.ok.inj hm).trans h
        exact of_decide_eq_true hsame
  · rintro ⟨ordering, c, hordering, hc, hdv, hdc, heq⟩
    have hm : certificateMatches g v = .ok true :=
      bind_eq_ok.2 ⟨_, canonical_of_dumpable hdv, bind_eq_ok.2 ⟨_, hordering, bind_eq_ok.2
        ⟨_, hc, bind_eq_ok.2 ⟨_, canonical_of_dumpable hdc,
          congrArg Except.ok (decide_eq_true heq)⟩⟩⟩⟩
    rw [verifyCertificate, hm]

theorem asDict_wf (c : Certificate) : c.asDict.wf = true := by
  have hsteps : ∀ s ∈ c.steps, (Json.obj [(lit "node", .str s.node),
      (lit "neighbors", strings s.neighbors),
      (lit "fill_edges", .arr (s.fillEdges.map fun e => strings [e.1, e.2]))]).wf = true := by
    intro s _
    rw [Json.wf, Bool.and_eq_true, decide_eq_true_eq, Json.wfFields_iff]
    refine ⟨by simp only [List.map_cons, List.map_nil]; decide, ?_⟩
    simp only [List.forall_mem_cons, List.not_mem_nil, false_imp_iff, implies_true, and_true]
    refine ⟨rfl, strings_wf _, ?_⟩
    rw [Json.wf, Json.wfElems_iff]
    intro v hv
    obtain ⟨e, -, rfl⟩ := List.mem_map.1 hv
    exact strings_wf _
  rw [Certificate.asDict, Json.wf, Bool.and_eq_true, decide_eq_true_eq, Json.wfFields_iff]
  refine ⟨by simp only [List.map_cons, List.map_nil]; decide, ?_⟩
  simp only [List.forall_mem_cons, List.not_mem_nil, false_imp_iff, implies_true, and_true]
  refine ⟨strings_wf _, rfl, ?_⟩
  rw [Json.wf, Json.wfElems_iff]
  intro v hv
  obtain ⟨s, hs, rfl⟩ := List.mem_map.1 hv
  exact hsteps s hs

theorem strings_dumpable (xs : List Str) : (strings xs).dumpable = true := by
  rw [strings, Json.dumpable, Json.dumpableElems_iff]
  intro v hv
  obtain ⟨x, -, rfl⟩ := List.mem_map.1 hv
  rfl

theorem asDict_dumpable {c : Certificate} (h : intPrintable c.widthUpperBound = true) :
    c.asDict.dumpable = true := by
  rw [Certificate.asDict, Json.dumpable, Json.dumpableFields_iff]
  simp only [List.forall_mem_cons, List.not_mem_nil, false_imp_iff, implies_true, and_true]
  refine ⟨strings_dumpable _, h, ?_⟩
  rw [Json.dumpable, Json.dumpableElems_iff]
  intro v hv
  obtain ⟨s, -, rfl⟩ := List.mem_map.1 hv
  rw [Json.dumpable, Json.dumpableFields_iff]
  simp only [List.forall_mem_cons, List.not_mem_nil, false_imp_iff, implies_true, and_true]
  refine ⟨rfl, strings_dumpable _, ?_⟩
  rw [Json.dumpable, Json.dumpableElems_iff]
  intro w hw
  obtain ⟨e, -, rfl⟩ := List.mem_map.1 hw
  exact strings_dumpable _

/-- What has the canonical text of a certificate has its width. -/
theorem width_of_render_eq {v : Json} {c : Certificate} (hwf : v.wf = true)
    (hdv : v.dumpable = true) (hdc : c.asDict.dumpable = true) (h : v.render = c.asDict.render) :
    v.item (lit "width_upper_bound") = .ok (.int c.widthUpperBound) := by
  have hnorm := norm_eq_of_render_eq hwf (asDict_wf c) hdv hdc h
  have hcwf := asDict_wf c
  rw [Certificate.asDict, Json.wf, Bool.and_eq_true, decide_eq_true_eq] at hcwf
  obtain ⟨d, rfl, hd⟩ := Json.alike_obj hnorm
  obtain ⟨w, hw, halike⟩ := Fields.get?_alike_some hd hcwf.1
    (show Fields.get? _ (lit "width_upper_bound") = some (.int c.widthUpperBound) from rfl)
  rw [Json.alike_int halike] at hw
  exact Fields.get_of_get? hw

/-! ## Widths and treewidth -/

omit [FloatModel] in
theorem width_printable {n : Nat} (h : n ≤ 32) : intPrintable n = true :=
  intPrintable_of_le h (by decide)

/-- Elimination certificates bound the treewidth: the bags of every accepted order decompose the
graph, and unless it is empty the largest has one node more than the width; `min_fill` takes every
node once, each with the least score of those left, and its certificate verifies; and the width of
whatever verifies is at least the treewidth. -/
theorem certificates_bound_treewidth (g : SetGraph) (hg : g.graph.check = .ok ()) :
    (∀ ordering c, eliminationCertificate g.graph ordering = .ok c →
      c.Decomposes g.graph ∧ (g.graph ≠ [] → c.Width) ∧
        (g.graph = [] → c.steps = [] ∧ c.widthUpperBound = 0)) ∧
    (∃ c, minFill g.graph = .ok c ∧ c.ordering.Perm g.graph.keys ∧ Greedy g.graph c.ordering ∧
      verifyCertificate g.graph c.asDict = true) ∧
    ∀ v : {v : Json // v.wf = true}, verifyCertificate g.graph v.1 = true →
      ∃ w : Nat, v.1.item (lit "width_upper_bound") = .ok (.int w) ∧
        Graph.treewidth g.graph.adj g.graph.keys ≤ w := by
  refine ⟨fun ordering c h => ?_, ?_, fun v hv => ?_⟩
  · obtain ⟨hdec, hwidth, hempty, -⟩ := accepted_spec h
    exact ⟨hdec, hwidth, hempty⟩
  · have hlen : g.graph.keys.length = g.graph.length := List.length_map _
    obtain ⟨hperm, hgreedy⟩ := minFillOrder_spec (SetGraph.simple hg) hlen
    obtain ⟨c, hc, hordering⟩ := accepted_of_perm hg hperm
    have hdump := asDict_dumpable (width_printable (accepted_spec hc).2.2.2.1)
    refine ⟨c, bind_eq_ok.2 ⟨(), hg, hc⟩, hordering ▸ hperm, hordering ▸ hgreedy, ?_⟩
    exact verifyCertificate_iff.2 ⟨c.ordering, c, readOrdering_asDict c, hordering ▸ hc, hdump, hdump,
      rfl⟩
  · obtain ⟨ordering, c, -, hc, hdv, hdc, heq⟩ := verifyCertificate_iff.1 hv
    exact ⟨c.widthUpperBound, width_of_render_eq v.2 hdv hdc heq, (accepted_spec hc).2.2.2.2⟩

end Verification

section Concrete

attribute [local instance] wholeFloats

/-- The path on three nodes. -/
def pathGraph : SetGraph where
  graph := [(lit "a", [lit "b"]), (lit "b", [lit "a", lit "c"]), (lit "c", [lit "b"])]
  keys_nodup := by decide
  adj_nodup := by decide

/-- `min_fill` accepts the path, and what it returns verifies. -/
theorem certificates_bound_treewidth_path :
    pathGraph.graph.check = .ok () ∧ ∃ c, minFill pathGraph.graph = .ok c ∧
      c.ordering.Perm pathGraph.graph.keys ∧ Greedy pathGraph.graph c.ordering ∧
      verifyCertificate pathGraph.graph c.asDict = true :=
  have hcheck : pathGraph.graph.check = .ok () := by decide
  ⟨hcheck, (certificates_bound_treewidth pathGraph hcheck).2.1⟩

/-- The empty graph is accepted with width 0, but there is no bag. -/
theorem empty_graph_without_bag :
    ¬ ∀ (g : SetGraph) (ordering : List Str) (c : Certificate),
      eliminationCertificate g.graph ordering = .ok c → c.Decomposes g.graph ∧ c.Width := by
  intro h
  obtain ⟨-, -, s, hs, -⟩ := h ⟨[], List.nodup_nil, fun _ h => nomatch h⟩ [] ⟨[], 0, []⟩ rfl
  cases hs

end Concrete

end ResidualHarness.Cic
