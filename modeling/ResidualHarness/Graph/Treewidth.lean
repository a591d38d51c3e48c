import ResidualHarness.Graph.Components
import Mathlib.Combinatorics.SimpleGraph.Acyclic
import Mathlib.Data.Fintype.Order

/-!
# Tree decompositions and elimination orders

A graph is given by the neighbours of its nodes. `Decomposition` is a forest of bags that holds
every node and every edge, with the bags of a node connected; `treewidth` is the least width of one
whose forest is a tree. An `Elimination` has the nodes in an order, each with the later nodes it was
joined to, and any two of these are joined later on. Attaching every bag to that of its first later
neighbour gives a decomposition (`Elimination.decomposition`).
-/

set_option autoImplicit false

namespace ResidualHarness.Graph

/-! ## Trees of parents -/

section Parents

variable {ι : Type} [LinearOrder ι] [OrderTop ι]

/-- Everything below the top joined to its parent. -/
def parentGraph (p : ι → ι) : SimpleGraph ι := SimpleGraph.fromRel fun i j => i ≠ ⊤ ∧ p i = j

variable {p : ι → ι}

theorem parentGraph_adj (hp : ∀ i, i ≠ ⊤ → i < p i) {i : ι} (hi : i ≠ ⊤) :
    (parentGraph p).Adj i (p i) :=
  (SimpleGraph.fromRel_adj _ _ _).2 ⟨(hp i hi).ne, .inl ⟨hi, rfl⟩⟩

theorem parentGraph_connected [Finite ι] (hp : ∀ i, i ≠ ⊤ → i < p i) : (parentGraph p).Connected := by
  have htop : ∀ i, (parentGraph p).Reachable i ⊤ := by
    intro i
    induction i using WellFoundedGT.induction with
    | ind i ih =>
        by_cases hi : i = ⊤
        · rw [hi]
        · exact (parentGraph_adj hp hi).reachable.trans (ih (p i) (hp i hi))
  have : Nonempty ι := ⟨⊤⟩
  exact ⟨fun i j => (htop i).trans (htop j).symm⟩

/-- Parents that are greater make a tree: it has no more edges than nodes below the top. -/
theorem parentGraph_isTree [Finite ι] (hp : ∀ i, i ≠ ⊤ → i < p i) : (parentGraph p).IsTree := by
  have hconn := parentGraph_connected hp
  have hsub : (parentGraph p).edgeSet ⊆ (fun i => s(i, p i)) '' {i | i ≠ ⊤} := by
    intro e
    induction e using Sym2.ind with
    | h i j =>
        intro he
        have hadj : (parentGraph p).Adj i j := he
        obtain ⟨-, ⟨hi, rfl⟩ | ⟨hj, rfl⟩⟩ := (SimpleGraph.fromRel_adj _ _ _).1 hadj
        · exact ⟨i, hi, rfl⟩
        · exact ⟨j, hj, Sym2.eq_swap⟩
  have hcard : (parentGraph p).edgeSet.ncard + 1 ≤ Nat.card ι := by
    have himage := (Set.ncard_le_ncard hsub (Set.toFinite _)).trans
      (Set.ncard_image_le (Set.toFinite _))
    have hcompl := Set.ncard_add_ncard_compl ({⊤} : Set ι) (Set.toFinite _) (Set.toFinite _)
    rw [Set.ncard_singleton] at hcompl
    have heq : ({⊤} : Set ι)ᶜ = {i | i ≠ ⊤} := rfl
    rw [heq] at hcompl
    omega
  rw [SimpleGraph.isTree_iff_connected_and_card]
  refine ⟨hconn, le_antisymm ?_ hconn.card_vert_le_card_edgeSet_add_one⟩
  rwa [Nat.card_coe_set_eq]

end Parents

/-! ## Decompositions -/

section Decompositions

variable {V ι : Type}

/-- A forest of bags for the graph: every node and every edge is in a bag, and the bags of a node are
connected. -/
structure Decomposition (adj : V → List V) (nodes : List V) (forest : SimpleGraph ι)
    (bag : ι → Finset V) : Prop where
  acyclic : forest.IsAcyclic
  inside : ∀ i, ∀ x ∈ bag i, x ∈ nodes
  covers : ∀ x ∈ nodes, ∃ i, x ∈ bag i
  edges : ∀ x ∈ nodes, ∀ y ∈ adj x, ∃ i, x ∈ bag i ∧ y ∈ bag i
  connected : ∀ x, (forest.induce {i | x ∈ bag i}).Preconnected

theorem Decomposition.mono {adj : V → List V} {nodes : List V} {forest tree : SimpleGraph ι}
    {bag : ι → Finset V} (h : Decomposition adj nodes forest bag) (hle : forest ≤ tree)
    (htree : tree.IsAcyclic) : Decomposition adj nodes tree bag where
  acyclic := htree
  inside := h.inside
  covers := h.covers
  edges := h.edges
  connected x := (h.connected x).mono (SimpleGraph.comap_monotone _ hle)

/-- There is a decomposition by a tree with bags of at most `k + 1` nodes. -/
def HasWidth (adj : V → List V) (nodes : List V) (k : Nat) : Prop :=
  ∃ (n : Nat) (tree : SimpleGraph (Fin n)) (bag : Fin n → Finset V), tree.Connected ∧
    Decomposition adj nodes tree bag ∧ ∀ i, (bag i).card ≤ k + 1

/-- The treewidth of a graph. -/
noncomputable def treewidth (adj : V → List V) (nodes : List V) : Nat :=
  sInf {k | HasWidth adj nodes k}

theorem treewidth_le {adj : V → List V} {nodes : List V} {k : Nat} (h : HasWidth adj nodes k) :
    treewidth adj nodes ≤ k :=
  Nat.sInf_le h

end Decompositions

/-! ## Eliminations -/

/-- Nodes in an order, each with the later nodes it was joined to; any two of these are joined when
the first of them comes. -/
structure Elimination (V : Type) [DecidableEq V] (n : Nat) where
  node : Fin n → V
  later : Fin n → Finset V
  injective : Function.Injective node
  after : ∀ i, ∀ x ∈ later i, ∃ j, i < j ∧ node j = x
  filled : ∀ i j k, j < k → node j ∈ later i → node k ∈ later i → node k ∈ later j

namespace Elimination

variable {V : Type} [DecidableEq V] {n : Nat} (E : Elimination V n)

/-- The bag of a node. -/
def bag (i : Fin n) : Finset V := insert (E.node i) (E.later i)

/-- The first of the later neighbours. -/
def Attached (i j : Fin n) : Prop := IsLeast {k | i < k ∧ E.node k ∈ E.later i} j

/-- Every bag joined to the bag of its first later neighbour. -/
def attachment : SimpleGraph (Fin n) := SimpleGraph.fromRel E.Attached

variable {E}

theorem notMem_later (i : Fin n) : E.node i ∉ E.later i := by
  intro hi
  obtain ⟨j, hj, heq⟩ := E.after i _ hi
  exact hj.ne' (E.injective heq)

theorem card_bag (i : Fin n) : (E.bag i).card = (E.later i).card + 1 :=
  Finset.card_insert_of_notMem (notMem_later i)

theorem mem_bag_self (i : Fin n) : E.node i ∈ E.bag i := Finset.mem_insert_self _ _

theorem exists_attached {i : Fin n} (h : (E.later i).Nonempty) : ∃ j, E.Attached i j := by
  obtain ⟨x, hx⟩ := h
  obtain ⟨k, hk, rfl⟩ := E.after i x hx
  obtain ⟨j, hj, hmin⟩ := wellFounded_lt.has_min {k | i < k ∧ E.node k ∈ E.later i} ⟨k, hk, hx⟩
  exact ⟨j, hj, fun b hb => not_lt.1 (hmin b hb)⟩

/-- What a node was joined to is in the bag that its own is attached to. -/
theorem mem_bag_of_attached {i j : Fin n} (h : E.Attached i j) {x : V} (hx : x ∈ E.later i) :
    x ∈ E.bag j := by
  obtain ⟨k, hik, rfl⟩ := E.after i x hx
  rcases (h.2 ⟨hik, hx⟩).eq_or_lt with heq | hjk
  · exact heq ▸ mem_bag_self j
  · exact Finset.mem_insert_of_mem (E.filled i j k hjk h.1.2 hx)

/-- From every bag of a node its attachments lead, within its bags, to the bag made for it. -/
theorem reachable_node {t : Fin n} (i : Fin n) (hi : E.node t ∈ E.bag i) :
    (E.attachment.induce {j | E.node t ∈ E.bag j}).Reachable ⟨i, hi⟩ ⟨t, mem_bag_self t⟩ := by
  induction i using WellFoundedGT.induction with
  | ind i ih =>
      rcases Finset.mem_insert.1 hi with heq | hlater
      · obtain rfl := E.injective heq
        rfl
      · obtain ⟨j, hj⟩ := exists_attached ⟨_, hlater⟩
        have hmem := mem_bag_of_attached hj hlater
        have hadj : E.attachment.Adj i j := (SimpleGraph.fromRel_adj _ _ _).2 ⟨hj.1.1.ne, .inl hj⟩
        have hstep : (E.attachment.induce {j | E.node t ∈ E.bag j}).Adj ⟨i, hi⟩ ⟨j, hmem⟩ := hadj
        exact hstep.reachable.trans (ih j hj.1.1 hmem)

theorem exists_node_of_mem_bag {i : Fin n} {x : V} (h : x ∈ E.bag i) : ∃ t, E.node t = x := by
  rcases Finset.mem_insert.1 h with rfl | h
  · exact ⟨i, rfl⟩
  · obtain ⟨j, -, hj⟩ := E.after i x h
    exact ⟨j, hj⟩

theorem connected (x : V) : (E.attachment.induce {i | x ∈ E.bag i}).Preconnected := by
  rintro ⟨i, hi⟩ ⟨j, hj⟩
  obtain ⟨t, rfl⟩ := exists_node_of_mem_bag (show x ∈ E.bag i from hi)
  exact (reachable_node i hi).trans (reachable_node j hj).symm

/-- The elimination is one of the graph: it has its nodes, and an edge when its first end comes. -/
structure Eliminates (E : Elimination V n) (adj : V → List V) (nodes : List V) : Prop where
  covers : ∀ x, x ∈ nodes ↔ ∃ i, E.node i = x
  edges : ∀ x ∈ nodes, ∀ y ∈ adj x, ∃ i, x ∈ E.bag i ∧ y ∈ E.bag i

/-- The parent of a bag in a tree: a bag that is attached to none goes to the last. -/
noncomputable def parent (E : Elimination V (n + 1)) (i : Fin (n + 1)) : Fin (n + 1) :=
  open Classical in if h : ∃ j, E.Attached i j then h.choose else ⊤

theorem parent_eq {E : Elimination V (n + 1)} {i j : Fin (n + 1)} (h : E.Attached i j) :
    E.parent i = j := by
  have hex : ∃ j, E.Attached i j := ⟨j, h⟩
  rw [parent, dif_pos hex]
  exact hex.choose_spec.unique h

theorem lt_parent {E : Elimination V (n + 1)} {i : Fin (n + 1)} (hi : i ≠ ⊤) : i < E.parent i := by
  by_cases hex : ∃ j, E.Attached i j
  · obtain ⟨j, hj⟩ := hex
    rw [parent_eq hj]
    exact hj.1.1
  · rw [parent, dif_neg hex]
    exact lt_top_iff_ne_top.2 hi

theorem attachment_le (E : Elimination V (n + 1)) : E.attachment ≤ parentGraph E.parent := by
  have hjoin : ∀ i j, E.Attached i j → i ≠ ⊤ ∧ E.parent i = j := fun i j h =>
    ⟨(h.1.1.trans_le le_top).ne, parent_eq h⟩
  intro i j hadj
  obtain ⟨hne, h⟩ := (SimpleGraph.fromRel_adj _ _ _).1 hadj
  exact (SimpleGraph.fromRel_adj _ _ _).2 ⟨hne, h.imp (hjoin i j) (hjoin j i)⟩

theorem attachment_acyclic (E : Elimination V n) : E.attachment.IsAcyclic := by
  cases n with
  | zero => exact SimpleGraph.IsAcyclic.of_subsingleton
  | succ n => exact (parentGraph_isTree fun i hi => lt_parent hi).isAcyclic.anti (attachment_le E)

variable {adj : V → List V} {nodes : List V}

/-- The bags of an elimination decompose the graph. -/
theorem decomposition (h : E.Eliminates adj nodes) :
    Decomposition adj nodes E.attachment E.bag where
  acyclic := attachment_acyclic E
  inside _ x hx := (h.covers x).2 (exists_node_of_mem_bag hx)
  covers x hx := by
    obtain ⟨i, rfl⟩ := (h.covers x).1 hx
    exact ⟨i, mem_bag_self i⟩
  edges := h.edges
  connected := connected

/-- The width of an elimination bounds the treewidth. -/
theorem treewidth_le {E : Elimination V n} (h : E.Eliminates adj nodes) {k : Nat}
    (hk : ∀ i, (E.later i).card ≤ k) : treewidth adj nodes ≤ k := by
  refine Graph.treewidth_le ?_
  cases n with
  | zero =>
      have hempty : ∀ x, x ∉ nodes := by
        intro x hx
        obtain ⟨i, -⟩ := (h.covers x).1 hx
        exact i.elim0
      refine ⟨1, ⊥, fun _ => ∅, SimpleGraph.IsTree.of_subsingleton.connected, ?_, fun _ => by simp⟩
      exact {
        acyclic := SimpleGraph.IsAcyclic.of_subsingleton
        inside := fun _ x hx => by simp at hx
        covers := fun x hx => absurd hx (hempty x)
        edges := fun x hx => absurd hx (hempty x)
        connected := fun x i => absurd i.2 (Finset.notMem_empty x) }
  | succ n =>
      have htree := parentGraph_isTree (p := E.parent) fun i hi => lt_parent hi
      refine ⟨n + 1, parentGraph E.parent, E.bag, htree.connected, ?_, fun i => ?_⟩
      · exact (decomposition h).mono (attachment_le E) htree.isAcyclic
      · rw [card_bag]
        exact Nat.add_le_add_right (hk i) 1

end Elimination

end ResidualHarness.Graph
