import Mathlib.Algebra.Ring.Nat
import Mathlib.Data.List.Basic
import Mathlib.Logic.Relation

/-!
# Search for a goal

A depth-first search with a stack and a set of nodes already seen, which stops at the first goal and
fails at a node that is not known. `next` gives the successors of the known nodes. The search has
fuel; `exists_search` says that one step for each successor of each known node is enough, and
`search_known` that it finds a goal exactly when one can be reached.
-/

set_option autoImplicit false

namespace ResidualHarness.Graph

section Search

variable {V : Type} [DecidableEq V] (goal : V → Bool) (next : V → Option (List V))

/-- How a search ends. -/
inductive Outcome where
  | found
  | exhausted
  | missing
deriving DecidableEq

/-- The search from a stack of pending nodes, the one on top first. The successors of a node are
pushed in their order, so the last of them is looked at first. -/
def search : Nat → List V → List V → Option Outcome
  | _, [], _ => some .exhausted
  | 0, _ :: _, _ => none
  | fuel + 1, node :: stack, seen =>
      if node ∈ seen then search fuel stack seen
      else if goal node then some .found
      else
        match next node with
        | none => some .missing
        | some nodes => search fuel (nodes.reverse ++ stack) (node :: seen)

/-- The number of successors of a node. -/
def degree (node : V) : Nat := ((next node).getD []).length

/-- The successors that the nodes not seen yet can still push. -/
def pendingWork (nodes seen : List V) : Nat :=
  ((nodes.filter fun x => x ∉ seen).map (degree next)).sum

/-- The fuel that a search among known nodes needs from one node. -/
def searchFuel (nodes : List V) : Nat := 1 + (nodes.map (degree next)).sum

/-- An edge of the graph. -/
def Edge (x y : V) : Prop := ∃ nodes, next x = some nodes ∧ y ∈ nodes

/-- A goal that can be reached from a node. -/
def Reaches (x : V) : Prop := ∃ y, Relation.ReflTransGen (Edge next) x y ∧ goal y = true

variable {goal next}

theorem pendingWork_cons_le (nodes seen : List V) (node : V) :
    pendingWork next nodes (node :: seen) ≤ pendingWork next nodes seen := by
  induction nodes with
  | nil => exact Nat.le_refl _
  | cons x nodes ih =>
      simp only [pendingWork] at ih ⊢
      by_cases hx : x = node <;> by_cases hs : x ∈ seen <;> (simp_all; try omega)

/-- A node that is seen for the first time pays for its successors. -/
theorem pendingWork_visit {nodes seen : List V} {node : V} (hn : node ∈ nodes) (hs : node ∉ seen) :
    pendingWork next nodes (node :: seen) + degree next node ≤ pendingWork next nodes seen := by
  induction nodes with
  | nil => cases hn
  | cons x nodes ih =>
      by_cases hx : x = node
      · subst hx
        have hle : pendingWork next nodes (x :: seen) ≤ pendingWork next nodes seen :=
          pendingWork_cons_le nodes seen x
        simp only [pendingWork] at hle ⊢
        simp only [List.filter_cons, List.mem_cons, true_or, not_true_eq_false, decide_false,
          Bool.false_eq_true, if_false, hs, not_false_eq_true, decide_true, if_true, List.map_cons,
          List.sum_cons] at hle ⊢
        omega
      · have hn : node ∈ nodes := (List.mem_cons.1 hn).resolve_left (Ne.symm hx)
        have hle := ih hn
        simp only [pendingWork] at hle ⊢
        by_cases hxs : x ∈ seen
        · simpa [List.filter_cons, hx, hxs] using hle
        · simp only [List.filter_cons, List.mem_cons, hx, hxs, or_self, not_false_eq_true,
            decide_true, if_true, List.map_cons, List.sum_cons] at hle ⊢
          omega

/-- The search ends when there is fuel for the stack and for what can still be pushed. -/
theorem exists_search_from {nodes : List V} (hknown : ∀ x, next x ≠ none → x ∈ nodes) {fuel : Nat}
    {stack seen : List V} (hfuel : stack.length + pendingWork next nodes seen ≤ fuel) :
    ∃ r, search goal next fuel stack seen = some r := by
  induction fuel generalizing stack seen with
  | zero =>
      cases stack with
      | nil => exact ⟨_, rfl⟩
      | cons node stack => simp at hfuel
  | succ fuel ih =>
      cases stack with
      | nil => exact ⟨_, rfl⟩
      | cons node stack =>
          rw [List.length_cons] at hfuel
          rw [search]
          split
          · exact ih (by omega)
          · rename_i hseen
            split
            · exact ⟨_, rfl⟩
            · split
              · exact ⟨_, rfl⟩
              · rename_i ys hnext
                -- the successors enter the stack and leave the work that is pending
                have hnode := hknown node (by rw [hnext]; simp)
                have hwork : pendingWork next nodes (node :: seen) + degree next node ≤
                    pendingWork next nodes seen := pendingWork_visit hnode hseen
                have hdeg : degree next node = ys.length := by rw [degree, hnext]; rfl
                apply ih
                rw [List.length_append, List.length_reverse]
                omega

theorem exists_search {nodes : List V} (hknown : ∀ x, next x ≠ none → x ∈ nodes) (x : V) :
    ∃ r, search goal next (searchFuel next nodes) [x] [] = some r := by
  apply exists_search_from hknown
  simp [pendingWork, searchFuel]

theorem reaches_of_found {fuel : Nat} {stack seen : List V}
    (h : search goal next fuel stack seen = some .found) : ∃ x ∈ stack, Reaches goal next x := by
  induction fuel generalizing stack seen with
  | zero =>
      cases stack with
      | nil => cases h
      | cons node stack => cases h
  | succ fuel ih =>
      cases stack with
      | nil => cases h
      | cons node stack =>
          rw [search] at h
          split at h
          · obtain ⟨x, hx, hr⟩ := ih h
            exact ⟨x, List.mem_cons_of_mem _ hx, hr⟩
          · split at h
            · rename_i hgoal
              exact ⟨node, List.mem_cons_self, node, Relation.ReflTransGen.refl, hgoal⟩
            · split at h
              · cases h
              · rename_i ys hnext
                obtain ⟨x, hx, y, hxy, hgoal⟩ := ih h
                rcases List.mem_append.1 hx with hx | hx
                · have hedge : Edge next node x := ⟨ys, hnext, List.mem_reverse.1 hx⟩
                  exact ⟨node, List.mem_cons_self, y, Relation.ReflTransGen.head hedge hxy, hgoal⟩
                · exact ⟨x, List.mem_cons_of_mem _ hx, y, hxy, hgoal⟩

/-- What has been seen is no goal, and its successors have been seen or are on the stack. -/
def Explored (goal : V → Bool) (next : V → Option (List V)) (stack seen : List V) : Prop :=
  ∀ x ∈ seen, goal x = false ∧ ∃ ys, next x = some ys ∧ ∀ y ∈ ys, y ∈ seen ∨ y ∈ stack

omit [DecidableEq V] in
theorem Explored.pop {node : V} {stack seen : List V} (h : Explored goal next (node :: stack) seen)
    (hnode : node ∈ seen) : Explored goal next stack seen := by
  intro x hx
  obtain ⟨hgoal, ys, hnext, hys⟩ := h x hx
  refine ⟨hgoal, ys, hnext, fun y hy => ?_⟩
  rcases hys y hy with hy | hy
  · exact Or.inl hy
  · rcases List.mem_cons.1 hy with rfl | hy
    · exact Or.inl hnode
    · exact Or.inr hy

omit [DecidableEq V] in
theorem Explored.visit {node : V} {stack seen ys : List V}
    (h : Explored goal next (node :: stack) seen) (hgoal : goal node = false)
    (hnext : next node = some ys) :
    Explored goal next (ys.reverse ++ stack) (node :: seen) := by
  intro x hx
  rcases List.mem_cons.1 hx with rfl | hx
  · exact ⟨hgoal, ys, hnext, fun y hy => Or.inr (List.mem_append_left _ (List.mem_reverse.2 hy))⟩
  · obtain ⟨hgoal, zs, hnext, hzs⟩ := h x hx
    refine ⟨hgoal, zs, hnext, fun y hy => ?_⟩
    rcases hzs y hy with hy | hy
    · exact Or.inl (List.mem_cons_of_mem _ hy)
    · rcases List.mem_cons.1 hy with rfl | hy
      · exact Or.inl List.mem_cons_self
      · exact Or.inr (List.mem_append_right _ hy)

/-- A search that ends without a goal leaves a set of nodes that is closed under successors, has no
goal and holds the stack. -/
theorem closed_of_exhausted {fuel : Nat} {stack seen : List V}
    (h : search goal next fuel stack seen = some .exhausted) (hinv : Explored goal next stack seen) :
    ∃ all : List V, stack ⊆ all ∧ seen ⊆ all ∧ Explored goal next [] all := by
  induction fuel generalizing stack seen with
  | zero =>
      cases stack with
      | nil => exact ⟨seen, List.nil_subset _, List.Subset.refl _, hinv⟩
      | cons node stack => cases h
  | succ fuel ih =>
      cases stack with
      | nil => exact ⟨seen, List.nil_subset _, List.Subset.refl _, hinv⟩
      | cons node stack =>
          rw [search] at h
          split at h
          · rename_i hseen
            obtain ⟨all, hstack, hsub, hall⟩ := ih h (hinv.pop hseen)
            exact ⟨all, List.cons_subset.2 ⟨hsub hseen, hstack⟩, hsub, hall⟩
          · split at h
            · cases h
            · rename_i hgoal
              split at h
              · cases h
              · rename_i ys hnext
                obtain ⟨all, hstack, hsub, hall⟩ := ih h (hinv.visit (by simpa using hgoal) hnext)
                obtain ⟨hnode, hsub⟩ := List.cons_subset.1 hsub
                exact ⟨all, List.cons_subset.2 ⟨hnode, (List.append_subset.1 hstack).2⟩, hsub, hall⟩

omit [DecidableEq V] in
/-- From a closed set without a goal no goal can be reached. -/
theorem Explored.not_reaches {all : List V} (h : Explored goal next [] all) {x : V} (hx : x ∈ all) :
    ¬ Reaches goal next x := by
  rintro ⟨y, hxy, hgoal⟩
  have hy : y ∈ all := by
    clear hgoal
    induction hxy with
    | refl => exact hx
    | tail _ hedge ih =>
        obtain ⟨ys, hnext, hmem⟩ := hedge
        obtain ⟨-, zs, hzs, hclosed⟩ := h _ ih
        rw [hnext] at hzs
        cases hzs
        exact (hclosed _ hmem).resolve_right nofun
  rw [(h y hy).1] at hgoal
  cases hgoal

/-- Nothing is missing when the stack is known and known nodes have known successors. -/
theorem search_ne_missing {fuel : Nat} {stack seen : List V}
    (hknown : ∀ x ys, next x = some ys → ∀ y ∈ ys, next y ≠ none)
    (hstack : ∀ x ∈ stack, next x ≠ none) :
    search goal next fuel stack seen ≠ some .missing := by
  induction fuel generalizing stack seen with
  | zero =>
      cases stack with
      | nil => nofun
      | cons node stack => nofun
  | succ fuel ih =>
      cases stack with
      | nil => nofun
      | cons node stack =>
          have hrest : ∀ x ∈ stack, next x ≠ none :=
            fun x hx => hstack x (List.mem_cons_of_mem _ hx)
          rw [search]
          split
          · exact ih hrest
          · split
            · nofun
            · split
              · rename_i hnext
                exact absurd hnext (hstack node List.mem_cons_self)
              · rename_i ys hnext
                apply ih
                intro x hx
                rcases List.mem_append.1 hx with hx | hx
                · exact hknown node ys hnext x (List.mem_reverse.1 hx)
                · exact hrest x hx

/-- A search from a known node ends, and it finds a goal exactly when one can be reached. -/
theorem search_known {nodes : List V} (hnodes : ∀ x, next x ≠ none → x ∈ nodes)
    (hknown : ∀ x ys, next x = some ys → ∀ y ∈ ys, next y ≠ none) {x : V} (hx : next x ≠ none) :
    search goal next (searchFuel next nodes) [x] [] = some .found ∧ Reaches goal next x ∨
      search goal next (searchFuel next nodes) [x] [] = some .exhausted ∧ ¬ Reaches goal next x := by
  have hstack : ∀ y ∈ [x], next y ≠ none := by
    intro y hy
    rw [List.mem_singleton.1 hy]
    exact hx
  obtain ⟨r, hr⟩ : ∃ r, search goal next (searchFuel next nodes) [x] [] = some r :=
    exists_search hnodes x
  cases r with
  | found =>
      obtain ⟨y, hy, hreach⟩ := reaches_of_found hr
      rw [List.mem_singleton.1 hy] at hreach
      exact Or.inl ⟨hr, hreach⟩
  | exhausted =>
      obtain ⟨all, hsub, -, hall⟩ := closed_of_exhausted hr nofun
      exact Or.inr ⟨hr, hall.not_reaches (hsub List.mem_cons_self)⟩
  | missing => exact absurd hr (search_ne_missing hknown hstack)

end Search

end ResidualHarness.Graph
