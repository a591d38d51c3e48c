import Mathlib.Data.List.Sort
import Mathlib.Data.List.Perm.Subperm
import Mathlib.Data.List.Dedup

/-!
# Connected components

Components of a finite undirected graph by depth-first search from the least node that is left.
`explore` pops a stack of nodes; `components` splits all nodes. Both have fuel: `exists_explore` and
`components_spec` say that the bounds used are enough.
-/

set_option autoImplicit false

namespace ResidualHarness.Graph

section Explore

variable {V : Type} [DecidableEq V] (adj : V → List V)

/-- The nodes found from a stack of pending nodes. -/
def explore : Nat → List V → List V → Option (List V)
  | _, [], found => some found
  | 0, _ :: _, _ => none
  | fuel + 1, node :: pending, found =>
      if node ∈ found then explore fuel pending found
      else
        explore fuel (((adj node).filter fun x => x ∉ node :: found) ++ pending) (node :: found)

/-- The neighbours of what has been found have been found or are pending. -/
def Frontier (pending found : List V) : Prop := ∀ x ∈ found, ∀ y ∈ adj x, y ∈ found ∨ y ∈ pending

variable {adj}

theorem Frontier.push {node : V} {pending found : List V} (h : Frontier adj (node :: pending) found) :
    Frontier adj (((adj node).filter fun x => x ∉ node :: found) ++ pending) (node :: found) := by
  intro x hx y hy
  by_cases hfound : y ∈ node :: found
  · exact Or.inl hfound
  · rcases List.mem_cons.1 hx with rfl | hx
    · refine Or.inr (List.mem_append_left _ ?_)
      simpa [hy] using hfound
    · rcases h x hx y hy with hy | hy
      · exact absurd (List.mem_cons_of_mem _ hy) hfound
      · rcases List.mem_cons.1 hy with rfl | hy
        · exact absurd List.mem_cons_self hfound
        · exact Or.inr (List.mem_append_right _ hy)

theorem explore_closed {fuel : Nat} {pending found r : List V}
    (h : explore adj fuel pending found = some r) (hf : Frontier adj pending found) :
    ∀ x ∈ r, adj x ⊆ r := by
  induction fuel generalizing pending found with
  | zero =>
      cases pending with
      | nil =>
          cases h
          intro x hx y hy
          simpa using hf x hx y hy
      | cons node pending => cases h
  | succ fuel ih =>
      cases pending with
      | nil =>
          cases h
          intro x hx y hy
          simpa using hf x hx y hy
      | cons node pending =>
          rw [explore] at h
          split at h
          · rename_i hnode
            apply ih h
            intro x hx y hy
            rcases hf x hx y hy with hy | hy
            · exact Or.inl hy
            · rcases List.mem_cons.1 hy with rfl | hy
              · exact Or.inl hnode
              · exact Or.inr hy
          · exact ih h hf.push

theorem explore_subset {fuel : Nat} {pending found r : List V}
    (h : explore adj fuel pending found = some r) : found ⊆ r ∧ pending ⊆ r := by
  induction fuel generalizing pending found with
  | zero =>
      cases pending with
      | nil =>
          cases h
          exact ⟨List.Subset.refl _, List.nil_subset _⟩
      | cons node pending => cases h
  | succ fuel ih =>
      cases pending with
      | nil =>
          cases h
          exact ⟨List.Subset.refl _, List.nil_subset _⟩
      | cons node pending =>
          rw [explore] at h
          split at h
          · rename_i hnode
            obtain ⟨hfound, hpending⟩ := ih h
            exact ⟨hfound, List.cons_subset.2 ⟨hfound hnode, hpending⟩⟩
          · obtain ⟨hfound, hpending⟩ := ih h
            obtain ⟨hnode, hfound⟩ := List.cons_subset.1 hfound
            exact ⟨hfound, List.cons_subset.2 ⟨hnode, (List.append_subset.1 hpending).2⟩⟩

/-- A search stays inside every set of nodes that is closed under neighbours. -/
theorem explore_inside {S : V → Prop} (hS : ∀ x, S x → ∀ y ∈ adj x, S y) {fuel : Nat}
    {pending found r : List V} (h : explore adj fuel pending found = some r)
    (hp : ∀ x ∈ pending, S x) (hf : ∀ x ∈ found, S x) : ∀ x ∈ r, S x := by
  induction fuel generalizing pending found with
  | zero =>
      cases pending with
      | nil =>
          cases h
          exact hf
      | cons node pending => cases h
  | succ fuel ih =>
      cases pending with
      | nil =>
          cases h
          exact hf
      | cons node pending =>
          rw [explore] at h
          split at h
          · exact ih h (fun x hx => hp x (List.mem_cons_of_mem _ hx)) hf
          · have hnode := hp node List.mem_cons_self
            apply ih h
            · intro x hx
              rcases List.mem_append.1 hx with hx | hx
              · exact hS node hnode x (List.mem_of_mem_filter hx)
              · exact hp x (List.mem_cons_of_mem _ hx)
            · intro x hx
              rcases List.mem_cons.1 hx with rfl | hx
              · exact hnode
              · exact hf x hx

theorem explore_nodup {fuel : Nat} {pending found r : List V}
    (h : explore adj fuel pending found = some r) (hf : found.Nodup) : r.Nodup := by
  induction fuel generalizing pending found with
  | zero =>
      cases pending with
      | nil =>
          cases h
          exact hf
      | cons node pending => cases h
  | succ fuel ih =>
      cases pending with
      | nil =>
          cases h
          exact hf
      | cons node pending =>
          rw [explore] at h
          split at h
          · exact ih h hf
          · rename_i hnode
            exact ih h (List.nodup_cons.2 ⟨hnode, hf⟩)

/-- The nodes that have not been found. -/
def unfound (nodes found : List V) : List V := nodes.filter fun x => x ∉ found

theorem unfound_cons_lt {nodes found : List V} {node : V} (hn : node ∈ nodes) (hf : node ∉ found) :
    (unfound nodes (node :: found)).length < (unfound nodes found).length := by
  have hsplit : unfound nodes (node :: found) = (unfound nodes found).filter fun x => x ≠ node := by
    rw [unfound, unfound, List.filter_filter]
    apply List.filter_congr
    intro x _
    simp
  rw [hsplit]
  apply List.length_filter_lt_length_iff_exists.2
  exact ⟨node, List.mem_filter.2 ⟨hn, by simpa using hf⟩, by simp⟩

/-- A search from the neighbours of a node finds what can be reached from it in one step or more. -/
theorem mem_explore_iff {fuel : Nat} {x : V} {r : List V}
    (h : explore adj fuel (adj x) [] = some r) {v : V} :
    v ∈ r ↔ Relation.TransGen (fun a b => b ∈ adj a) x v := by
  constructor
  · refine explore_inside (S := fun v => Relation.TransGen (fun a b => b ∈ adj a) x v)
      (fun a ha b hb => ha.tail hb) h (fun a ha => .single ha) (fun a ha => by cases ha) v
  · intro hpath
    have hclosed := explore_closed h (fun a ha => by cases ha)
    induction hpath with
    | single hv => exact (explore_subset h).2 hv
    | tail _ hv ih => exact hclosed _ ih hv

/-- Every node enters the stack with at most all other nodes, once. -/
theorem exists_explore {nodes : List V} (hadj : ∀ x ∈ nodes, adj x ⊆ nodes ∧ (adj x).Nodup)
    {fuel : Nat} {pending found : List V} (hp : pending ⊆ nodes)
    (hfuel : pending.length + (unfound nodes found).length * nodes.length ≤ fuel) :
    ∃ r, explore adj fuel pending found = some r := by
  induction fuel generalizing pending found with
  | zero =>
      cases pending with
      | nil => exact ⟨found, rfl⟩
      | cons node pending => simp at hfuel
  | succ fuel ih =>
      cases pending with
      | nil => exact ⟨found, rfl⟩
      | cons node pending =>
          obtain ⟨hnode, hp⟩ := List.cons_subset.1 hp
          rw [List.length_cons] at hfuel
          rw [explore]
          split
          · exact ih hp (by omega)
          · rename_i hf
            obtain ⟨hsub, hnodup⟩ := hadj node hnode
            have hlen : ((adj node).filter fun x => x ∉ node :: found).length ≤ nodes.length :=
              le_trans (List.length_filter_le _ _) (hnodup.subperm hsub).length_le
            have hlt := unfound_cons_lt hnode hf
            have hmul : ((unfound nodes (node :: found)).length + 1) * nodes.length ≤
                (unfound nodes found).length * nodes.length := Nat.mul_le_mul_right _ hlt
            rw [Nat.add_mul, Nat.one_mul] at hmul
            apply ih
            · intro x hx
              rcases List.mem_append.1 hx with hx | hx
              · exact hsub (List.mem_of_mem_filter hx)
              · exact hp hx
            · rw [List.length_append]
              omega

end Explore

section Components

variable {V : Type} [LinearOrder V] (adj : V → List V) (nodes : List V)

/-- The nodes of the component of a node, in order. -/
def component (x : V) : Option (List V) :=
  (explore adj (1 + nodes.length * nodes.length) [x] []).map fun found =>
    found.insertionSort (· ≤ ·)

/-- The components of the nodes that are left. -/
def componentsFrom : Nat → List V → Option (List (List V))
  | _, [] => some []
  | 0, _ :: _ => none
  | fuel + 1, x :: xs => do
      let found ← component adj nodes (xs.foldl min x)
      let rest ← componentsFrom fuel ((x :: xs).filter fun y => y ∉ found)
      return found :: rest

/-- The components of a graph. -/
def components : Option (List (List V)) := componentsFrom adj nodes nodes.length nodes

variable {adj nodes}

theorem foldl_min_mem (x : V) (xs : List V) : xs.foldl min x ∈ x :: xs := by
  induction xs generalizing x with
  | nil => exact List.mem_singleton.2 rfl
  | cons y ys ih =>
      rw [List.foldl_cons]
      rcases List.mem_cons.1 (ih (min x y)) with h | h
      · rw [h]
        rcases le_total x y with h | h
        · rw [min_eq_left h]
          exact List.mem_cons_self
        · rw [min_eq_right h]
          exact List.mem_cons_of_mem _ List.mem_cons_self
      · exact List.mem_cons_of_mem _ (List.mem_cons_of_mem _ h)

/-- A graph on the nodes: neighbours are nodes, listed once, and neighbourhood is symmetric. -/
structure Undirected (adj : V → List V) (nodes : List V) : Prop where
  nodup : nodes.Nodup
  inside : ∀ x ∈ nodes, adj x ⊆ nodes
  nodup_adj : ∀ x ∈ nodes, (adj x).Nodup
  symm : ∀ x ∈ nodes, ∀ y ∈ adj x, x ∈ adj y

/-- A list of nodes that is a union of components. -/
def Closed (adj : V → List V) (g : List V) : Prop := ∀ x ∈ g, adj x ⊆ g

/-- The component of a node exists; it holds the node, is closed, and stays inside every closed
list. -/
theorem component_spec (hg : Undirected adj nodes) {x : V} (hx : x ∈ nodes) :
    ∃ g, component adj nodes x = some g ∧ x ∈ g ∧ g.Nodup ∧ Closed adj g ∧
      ∀ S : List V, Closed adj S → x ∈ S → g ⊆ S := by
  have hfuel : [x].length + (unfound nodes []).length * nodes.length ≤
      1 + nodes.length * nodes.length := by
    simp [unfound]
  obtain ⟨r, hr⟩ := exists_explore (fun y hy => ⟨hg.inside y hy, hg.nodup_adj y hy⟩)
    (List.cons_subset.2 ⟨hx, List.nil_subset _⟩) hfuel
  have hmem : ∀ y, y ∈ r.insertionSort (· ≤ ·) ↔ y ∈ r := fun y => List.mem_insertionSort _
  refine ⟨r.insertionSort (· ≤ ·), by rw [component, hr]; rfl, ?_, ?_, ?_, ?_⟩
  · exact (hmem x).2 ((explore_subset hr).2 List.mem_cons_self)
  · exact (List.perm_insertionSort _ r).nodup_iff.2 (explore_nodup hr List.nodup_nil)
  · intro y hy z hz
    exact (hmem z).2 (explore_closed hr (by intro a ha; cases ha) y ((hmem y).1 hy) hz)
  · intro S hS hxS y hy
    apply explore_inside (S := fun z => z ∈ S) (fun a ha => hS a ha) hr _ _ y ((hmem y).1 hy)
    · intro z hz
      rw [List.mem_singleton.1 hz]
      exact hxS
    · intro z hz
      cases hz

/-- Outside a closed list of nodes the graph is closed, too. -/
theorem closed_compl (hg : Undirected adj nodes) {left g : List V} (hleft : left ⊆ nodes)
    (hc : Closed adj left) (hgc : Closed adj g) : Closed adj (left.filter fun y => y ∉ g) := by
  intro x hx y hy
  obtain ⟨hxl, hxg⟩ := List.mem_filter.1 hx
  refine List.mem_filter.2 ⟨hc x hxl hy, ?_⟩
  have hyg : y ∉ g := fun hyg => (by simpa using hxg : x ∉ g)
    (hgc y hyg (hg.symm x (hleft hxl) y hy))
  simpa using hyg

theorem componentsFrom_spec (hg : Undirected adj nodes) {fuel : Nat} {left : List V}
    (hleft : left ⊆ nodes) (hnd : left.Nodup) (hc : Closed adj left) (hfuel : left.length ≤ fuel) :
    ∃ gs, componentsFrom adj nodes fuel left = some gs ∧ gs.flatten.Perm left ∧
      ∀ g ∈ gs, g ≠ [] ∧ Closed adj g := by
  induction fuel generalizing left with
  | zero =>
      cases left with
      | nil => exact ⟨[], by rw [componentsFrom], List.Perm.nil, nofun⟩
      | cons x xs => simp at hfuel
  | succ fuel ih =>
      cases left with
      | nil => exact ⟨[], by rw [componentsFrom], List.Perm.nil, nofun⟩
      | cons x xs =>
          have hmin := foldl_min_mem x xs
          obtain ⟨g, hcomp, hin, hgnd, hgc, hleast⟩ := component_spec hg (hleft hmin)
          have hsub : g ⊆ x :: xs := hleast _ hc hmin
          have hlt : ((x :: xs).filter fun y => y ∉ g).length < (x :: xs).length :=
            List.length_filter_lt_length_iff_exists.2 ⟨_, hmin, by simpa using hin⟩
          obtain ⟨gs, hrest, hperm, hgs⟩ := ih
            (List.Subset.trans (List.filter_subset_self _) hleft) (hnd.filter _)
            (closed_compl hg hleft hc hgc) (by omega)
          refine ⟨g :: gs, ?_, ?_, ?_⟩
          · rw [componentsFrom, hcomp]
            simp only [Option.bind_eq_bind, Option.bind_some, hrest]
            rfl
          · rw [List.flatten_cons]
            have hgperm : g.Perm ((x :: xs).filter fun y => y ∈ g) := by
              rw [List.perm_ext_iff_of_nodup hgnd (hnd.filter _)]
              intro y
              simp only [List.mem_filter, decide_eq_true_eq]
              exact ⟨fun hy => ⟨hsub hy, hy⟩, fun hy => hy.2⟩
            refine (hgperm.append hperm).trans ?_
            have := List.filter_append_perm (fun y => decide (y ∈ g)) (x :: xs)
            simpa [decide_not] using this
          · intro g' hg'
            rcases List.mem_cons.1 hg' with rfl | hg'
            · exact ⟨List.ne_nil_of_mem hin, hgc⟩
            · exact hgs g' hg'

/-- The components of a graph partition its nodes, and each is closed under neighbours. -/
theorem components_spec (hg : Undirected adj nodes) :
    ∃ gs, components adj nodes = some gs ∧ gs.flatten.Perm nodes ∧
      ∀ g ∈ gs, g ≠ [] ∧ Closed adj g :=
  componentsFrom_spec hg (List.Subset.refl _) hg.nodup hg.inside le_rfl

end Components

end ResidualHarness.Graph
