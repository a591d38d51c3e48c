import Mathlib.Logic.Relation
import Mathlib.Data.List.Nodup

/-!
# Topological orders

Lists of nodes that name their parents by key, with every parent before its children. An ancestor
stands before its descendant (`ancestor_before`), every node with a property is at or below a
maximal one (`exists_maximal`), and the last of them is maximal (`getLast_maximal`).
-/

set_option autoImplicit false

namespace ResidualHarness.Graph

variable {α κ : Type} (key : α → κ) (parents : α → List κ)

/-- Every parent is among the keys seen before the node. -/
def ParentsFirst : List κ → List α → Prop
  | _, [] => True
  | seen, x :: xs => (∀ p ∈ parents x, p ∈ seen) ∧ ParentsFirst (seen ++ [key x]) xs

/-- Distinct nodes, parents before children. -/
structure Topological (xs : List α) : Prop where
  nodup : (xs.map key).Nodup
  parentsFirst : ParentsFirst key parents [] xs

/-- `p` is a parent of the node with key `k`. -/
def ParentOf (xs : List α) (p k : κ) : Prop := ∃ x ∈ xs, key x = k ∧ p ∈ parents x

/-- The transitive closure of `ParentOf`. -/
def Ancestor (xs : List α) : κ → κ → Prop := Relation.TransGen (ParentOf key parents xs)

/-- A node with the property that is not an ancestor of a node with the property. -/
structure MaximalIn (xs : List α) (P : α → Prop) (m : α) : Prop where
  mem : m ∈ xs
  has : P m
  top : ∀ o ∈ xs, P o → ¬ Ancestor key parents xs (key m) (key o)

variable {key parents}

theorem ParentsFirst.split {seen : List κ} {pre : List α} {x : α} {post : List α}
    (h : ParentsFirst key parents seen (pre ++ x :: post)) :
    ∀ p ∈ parents x, p ∈ seen ++ pre.map key := by
  induction pre generalizing seen with
  | nil =>
      intro p hp
      rw [List.map_nil, List.append_nil]
      exact h.1 p hp
  | cons y pre ih =>
      intro p hp
      have := ih h.2 p hp
      simpa using this

theorem parentsFirst_iff {seen : List κ} {xs : List α} : ParentsFirst key parents seen xs ↔
    ∀ pre x post, xs = pre ++ x :: post → ∀ p ∈ parents x, p ∈ seen ++ pre.map key := by
  constructor
  · rintro h pre x post rfl
    exact h.split
  · induction xs generalizing seen with
    | nil => exact fun _ => trivial
    | cons x xs ih =>
        intro h
        refine ⟨fun p hp => by simpa using h [] x xs rfl p hp, ih ?_⟩
        rintro pre y post rfl p hp
        have := h (x :: pre) y post rfl p hp
        simpa using this

variable {xs : List α}

theorem Topological.eq_of_key (h : Topological key parents xs) {x y : α} (hx : x ∈ xs)
    (hy : y ∈ xs) (hk : key x = key y) : x = y :=
  List.inj_on_of_nodup_map h.nodup hx hy hk

theorem Topological.parent_before (h : Topological key parents xs) {pre : List α} {x : α}
    {post : List α} (hxs : xs = pre ++ x :: post) {p : κ}
    (hp : ParentOf key parents xs p (key x)) : p ∈ pre.map key := by
  obtain ⟨y, hy, hk, hp⟩ := hp
  have hx : x ∈ xs := by simp [hxs]
  rw [h.eq_of_key hy hx hk] at hp
  have hfirst := h.parentsFirst
  rw [hxs] at hfirst
  simpa using hfirst.split p hp

theorem Topological.left {ys zs : List α} (h : Topological key parents (ys ++ zs)) :
    Topological key parents ys := by
  refine ⟨?_, parentsFirst_iff.2 ?_⟩
  · have := h.nodup
    rw [List.map_append] at this
    exact this.of_append_left
  · rintro pre x post rfl
    exact parentsFirst_iff.1 h.parentsFirst pre x (post ++ zs) (by simp)

/-- The last nodes of an order are an order, when their parents are among them. -/
theorem Topological.right {ys zs : List α} (h : Topological key parents (ys ++ zs))
    (hclosed : ∀ z ∈ zs, ∀ p ∈ parents z, p ∈ zs.map key) : Topological key parents zs := by
  have hnodup := h.nodup
  rw [List.map_append] at hnodup
  refine ⟨hnodup.of_append_right, parentsFirst_iff.2 ?_⟩
  rintro pre x post rfl p hp
  have hbefore := parentsFirst_iff.1 h.parentsFirst (ys ++ pre) x post (by simp) p hp
  rw [List.nil_append, List.map_append] at hbefore
  rw [List.nil_append]
  refine (List.mem_append.1 hbefore).resolve_left fun hy => ?_
  exact List.disjoint_of_nodup_append hnodup hy (hclosed x (by simp) p hp)

theorem Topological.ancestor_before (h : Topological key parents xs) {a k : κ}
    (ha : Ancestor key parents xs a k) : ∀ {pre : List α} {x : α} {post : List α},
    xs = pre ++ x :: post → key x = k → a ∈ pre.map key := by
  induction ha with
  | single hp =>
      rintro pre x post hxs rfl
      exact h.parent_before hxs hp
  | tail _ hp ih =>
      rintro pre x post hxs rfl
      -- the parent of `x` stands in `pre`, and the ancestor before that parent
      obtain ⟨y, hy, hyk⟩ := List.mem_map.1 (h.parent_before hxs hp)
      obtain ⟨pre', post', rfl⟩ := List.append_of_mem hy
      have hxs' : xs = pre' ++ y :: (post' ++ x :: post) := by
        rw [hxs]
        simp
      have := ih hxs' hyk
      rw [List.map_append]
      exact List.mem_append_left _ this

/-- The last node with the property is maximal. -/
theorem Topological.getLast_maximal (h : Topological key parents xs) {P : α → Prop}
    [DecidablePred P] {pre : List α} {m : α} (hm : xs.filter P = pre ++ [m]) :
    MaximalIn key parents xs P m := by
  have hmem : m ∈ xs.filter P := by simp [hm]
  have hmx : m ∈ xs := (List.mem_filter.1 hmem).1
  refine ⟨hmx, by simpa using (List.mem_filter.1 hmem).2, ?_⟩
  intro o ho hPo hanc
  obtain ⟨a, b, hxs⟩ := List.append_of_mem ho
  obtain ⟨m', hm', hk⟩ := List.mem_map.1 (h.ancestor_before hanc hxs rfl)
  have hm'x : m' ∈ xs := by
    rw [hxs]
    exact List.mem_append_left _ hm'
  rw [h.eq_of_key hm'x hmx hk] at hm'
  -- `m` stands before `o`, and `o` has the property, so `m` is not the last one
  have hsplit : xs.filter P = a.filter P ++ o :: b.filter P := by
    rw [hxs, List.filter_append, List.filter_cons_of_pos (by simpa using hPo)]
  have hnd : (xs.filter P).Nodup := h.nodup.of_map.filter _
  have hlast : (xs.filter P).getLast? = some m := by simp [hm]
  have hmem' : m ∈ o :: b.filter P := by
    rw [hsplit, List.getLast?_append_of_ne_nil _ (by simp)] at hlast
    exact List.mem_of_getLast? hlast
  have hma : m ∈ a.filter P := List.mem_filter.2 ⟨hm', (List.mem_filter.1 hmem).2⟩
  rw [hsplit] at hnd
  exact (List.nodup_append.1 hnd).2.2 m hma m hmem' rfl

/-- Every node with the property is at or below a maximal one. -/
theorem Topological.exists_maximal (h : Topological key parents xs) (P : α → Prop) {r : α}
    (hr : r ∈ xs) (hP : P r) :
    ∃ m, MaximalIn key parents xs P m ∧ (r = m ∨ Ancestor key parents xs (key r) (key m)) := by
  classical
  -- the last of the nodes with the property at or above `r`
  let Q : α → Prop := fun o => P o ∧ (r = o ∨ Ancestor key parents xs (key r) (key o))
  have hmem : r ∈ xs.filter Q := List.mem_filter.2 ⟨hr, decide_eq_true ⟨hP, Or.inl rfl⟩⟩
  have hne : xs.filter Q ≠ [] := List.ne_nil_of_mem hmem
  have hmax := h.getLast_maximal (List.dropLast_append_getLast hne).symm
  refine ⟨_, ⟨hmax.mem, hmax.has.1, ?_⟩, hmax.has.2⟩
  intro o ho hPo hanc
  apply hmax.top o ho _ hanc
  refine ⟨hPo, Or.inr ?_⟩
  rcases hmax.has.2 with heq | hrm
  · rw [heq]
    exact hanc
  · exact hrm.trans hanc

end ResidualHarness.Graph
