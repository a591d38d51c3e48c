import ResidualHarness.Graph.Rounds

/-!
# Orders in layers

Nodes are ordered in rounds: each round appends, in their order, the nodes whose dependencies have all
been ordered. The rounds end with every node or with none that is ready. The result is a topological
order of the nodes (`layers_topological`, `layers_perm_append`), it does not depend on how the nodes
are listed (`layers_congr`), and there is one exactly when the graph is acyclic
(`exists_layers_iff`).
-/

set_option autoImplicit false

namespace ResidualHarness.Graph

variable {V : Type} [LinearOrder V] (deps : V → List V)

local instance lawfulBEq_node : LawfulBEq V := inferInstance

/-- The nodes whose dependencies have been ordered, sorted. -/
def readyNodes (unresolved ordered : List V) : List V :=
  (unresolved.filter fun v => ∀ d ∈ deps v, d ∈ ordered).insertionSort (· ≤ ·)

/-- The rounds. There is no order when nodes are left and none is ready. -/
def layers : Nat → List V → List V → Option (List V)
  | _, [], ordered => some ordered
  | 0, _ :: _, _ => none
  | fuel + 1, v :: vs, ordered =>
      let ready := readyNodes deps (v :: vs) ordered
      if ready = [] then none
      else layers fuel ((v :: vs).filter fun x => x ∉ ready) (ordered ++ ready)

variable {deps}

theorem mem_readyNodes {unresolved ordered : List V} {v : V} :
    v ∈ readyNodes deps unresolved ordered ↔ v ∈ unresolved ∧ ∀ d ∈ deps v, d ∈ ordered := by
  rw [readyNodes, List.mem_insertionSort, List.mem_filter, decide_eq_true_eq]

theorem readyNodes_congr {us vs : List V} (h : us.Perm vs) (ordered : List V) :
    readyNodes deps us ordered = readyNodes deps vs ordered := by
  have hperm := ((List.perm_insertionSort (· ≤ ·) _).trans (h.filter _)).trans
    (List.perm_insertionSort (· ≤ ·) (vs.filter fun v => ∀ d ∈ deps v, d ∈ ordered)).symm
  exact hperm.eq_of_pairwise (fun a b _ _ => le_antisymm) (List.pairwise_insertionSort _ _)
    (List.pairwise_insertionSort _ _)

theorem layers_congr {us vs : List V} (h : us.Perm vs) (fuel : Nat) (ordered : List V) :
    layers deps fuel us ordered = layers deps fuel vs ordered := by
  induction fuel generalizing us vs ordered with
  | zero =>
      cases us with
      | nil => rw [List.nil_perm.1 h]
      | cons u us =>
          cases vs with
          | nil => cases List.perm_nil.1 h
          | cons v vs => rfl
  | succ fuel ih =>
      cases us with
      | nil => rw [List.nil_perm.1 h]
      | cons u us =>
          cases vs with
          | nil => cases List.perm_nil.1 h
          | cons v vs =>
              rw [layers, layers, readyNodes_congr h]
              split
              · rfl
              · exact ih (h.filter _) _

theorem length_filter_ready {us ordered : List V} (h : readyNodes deps us ordered ≠ []) :
    (us.filter fun x => x ∉ readyNodes deps us ordered).length < us.length := by
  obtain ⟨v, hv⟩ := List.exists_mem_of_ne_nil _ h
  exact List.length_filter_lt_length_iff_exists.2 ⟨v, (mem_readyNodes.1 hv).1, by simpa using hv⟩

/-- The result lists every node, after those that were ordered before. -/
theorem layers_perm_append {fuel : Nat} {us ordered r : List V} (hnd : us.Nodup)
    (h : layers deps fuel us ordered = some r) : r.Perm (ordered ++ us) := by
  induction fuel generalizing us ordered with
  | zero =>
      cases us with
      | nil =>
          cases h
          rw [List.append_nil]
      | cons u us => cases h
  | succ fuel ih =>
      cases us with
      | nil =>
          cases h
          rw [List.append_nil]
      | cons u us =>
          rw [layers] at h
          split at h
          · cases h
          · have hready : (readyNodes deps (u :: us) ordered).Perm
                ((u :: us).filter fun x => x ∈ readyNodes deps (u :: us) ordered) := by
              rw [List.perm_ext_iff_of_nodup _ (hnd.filter _)]
              · intro x
                rw [List.mem_filter, decide_eq_true_eq]
                exact ⟨fun hx => ⟨(mem_readyNodes.1 hx).1, hx⟩, fun hx => hx.2⟩
              · exact (List.perm_insertionSort _ _).nodup_iff.2 (hnd.filter _)
            refine (ih (hnd.filter _) h).trans ?_
            rw [List.append_assoc]
            refine List.Perm.append_left _ ((hready.append_right _).trans ?_)
            have hsplit := List.filter_append_perm
              (fun x => decide (x ∈ readyNodes deps (u :: us) ordered)) (u :: us)
            simpa [decide_not] using hsplit

omit [LinearOrder V] in
theorem parentsFirst_append {seen xs ys : List V} (h : ParentsFirst id deps seen xs)
    (hys : ∀ y ∈ ys, ∀ d ∈ deps y, d ∈ seen ++ xs) : ParentsFirst id deps seen (xs ++ ys) := by
  induction xs generalizing seen with
  | nil =>
      rw [List.append_nil] at hys
      rw [List.nil_append]
      clear h
      induction ys generalizing seen with
      | nil => trivial
      | cons y ys ih =>
          refine ⟨hys y List.mem_cons_self, ih fun z hz d hd => ?_⟩
          exact List.mem_append_left _ (hys z (List.mem_cons_of_mem _ hz) d hd)
  | cons x xs ih =>
      refine ⟨h.1, ih h.2 fun y hy d hd => ?_⟩
      have hmem := hys y hy d hd
      simpa using hmem

theorem layers_parentsFirst {fuel : Nat} {us ordered r : List V} (hord : ParentsFirst id deps [] ordered)
    (h : layers deps fuel us ordered = some r) : ParentsFirst id deps [] r := by
  induction fuel generalizing us ordered with
  | zero =>
      cases us with
      | nil =>
          cases h
          exact hord
      | cons u us => cases h
  | succ fuel ih =>
      cases us with
      | nil =>
          cases h
          exact hord
      | cons u us =>
          rw [layers] at h
          split at h
          · cases h
          · refine ih (parentsFirst_append hord fun y hy d hd => ?_) h
            rw [List.nil_append]
            exact (mem_readyNodes.1 hy).2 d hd

theorem layers_topological {fuel : Nat} {us r : List V} (hnd : us.Nodup)
    (h : layers deps fuel us [] = some r) : Topological id deps r where
  nodup := by
    rw [List.map_id]
    exact (layers_perm_append hnd h).nodup_iff.2 hnd
  parentsFirst := layers_parentsFirst (show ParentsFirst id deps [] [] from trivial) h

/-! ## Acyclic graphs -/

omit [LinearOrder V]

variable (deps) in
/-- No node is its own ancestor. -/
def Acyclic (nodes : List V) : Prop := ∀ v, ¬ Ancestor id deps nodes v v

variable (deps) in
/-- Every dependency of a node is a node. -/
def Within (nodes : List V) : Prop := ∀ v ∈ nodes, ∀ d ∈ deps v, d ∈ nodes

theorem Topological.acyclic {nodes : List V} (h : Topological id deps nodes) :
    Acyclic deps nodes := by
  intro v hv
  obtain ⟨-, -, x, hx, rfl, -⟩ := Relation.TransGen.tail'_iff.1 hv
  obtain ⟨pre, post, rfl⟩ := List.append_of_mem hx
  have hbefore := h.ancestor_before hv rfl rfl
  have hnodup := h.nodup
  rw [List.map_id] at hnodup hbefore
  exact List.disjoint_of_nodup_append hnodup hbefore List.mem_cons_self

/-- Whether there is a cycle depends on the set of nodes only. -/
theorem Acyclic.congr {nodes nodes' : List V} (h : Acyclic deps nodes)
    (hsub : nodes' ⊆ nodes) : Acyclic deps nodes' := by
  intro v hv
  refine h v (Relation.TransGen.mono ?_ _ _ hv)
  rintro a b ⟨x, hx, hb, ha⟩
  exact ⟨x, hsub hx, hb, ha⟩

theorem Acyclic.of_hom {W : Type} {deps' : W → List W} {nodes : List V} {nodes' : List W}
    (h : Acyclic deps nodes) (g : W → V)
    (hg : ∀ x ∈ nodes', g x ∈ nodes ∧ ∀ d ∈ deps' x, g d ∈ deps (g x)) : Acyclic deps' nodes' := by
  intro v hv
  refine h (g v) (Relation.TransGen.lift g ?_ _ _ hv)
  rintro a b ⟨x, hx, rfl, ha⟩
  exact ⟨g x, (hg x hx).1, rfl, (hg x hx).2 a ha⟩

/-- Among some nodes of an acyclic graph, one has no dependency among them. -/
theorem Acyclic.exists_source {nodes us : List V} (h : Acyclic deps nodes) (hus : us ⊆ nodes)
    (hne : us ≠ []) : ∃ v ∈ us, ∀ d ∈ deps v, d ∉ us := by
  have hcycle : NoCycle id deps nodes := h
  obtain ⟨v, hv, hsource⟩ := hcycle.exists_source hne
  exact ⟨v, hv, fun d hd hdus => hsource d hdus ⟨v, hus hv, rfl, hd⟩⟩

variable [LinearOrder V]

theorem layers_of_acyclic {nodes : List V} (h : Acyclic deps nodes) (hwithin : Within deps nodes)
    {fuel : Nat} {us ordered : List V} (hfuel : us.length ≤ fuel) (hus : us ⊆ nodes)
    (hall : ∀ x ∈ nodes, x ∈ us ∨ x ∈ ordered) : ∃ r, layers deps fuel us ordered = some r := by
  induction fuel generalizing us ordered with
  | zero =>
      rw [List.eq_nil_of_length_eq_zero (Nat.le_zero.1 hfuel)]
      exact ⟨_, rfl⟩
  | succ fuel ih =>
      cases us with
      | nil => exact ⟨_, rfl⟩
      | cons u us =>
          have hready : readyNodes deps (u :: us) ordered ≠ [] := by
            obtain ⟨v, hv, hsource⟩ := h.exists_source hus (List.cons_ne_nil u us)
            refine List.ne_nil_of_mem (mem_readyNodes.2 ⟨hv, fun d hd => ?_⟩)
            exact (hall d (hwithin v (hus hv) d hd)).resolve_left (hsource d hd)
          have hlt := length_filter_ready hready
          rw [layers, if_neg hready]
          refine ih (by omega) (fun x hx => hus (List.mem_of_mem_filter hx)) fun x hx => ?_
          by_cases hr : x ∈ readyNodes deps (u :: us) ordered
          · exact Or.inr (List.mem_append_right _ hr)
          · rcases hall x hx with hmem | hmem
            · exact Or.inl (List.mem_filter.2 ⟨hmem, decide_eq_true hr⟩)
            · exact Or.inr (List.mem_append_left _ hmem)

/-- The rounds end with every node exactly when there is no cycle. -/
theorem exists_layers_iff {nodes : List V} (hnd : nodes.Nodup) (hwithin : Within deps nodes) :
    (∃ r, layers deps nodes.length nodes [] = some r) ↔ Acyclic deps nodes := by
  constructor
  · rintro ⟨r, hr⟩
    have hperm := layers_perm_append hnd hr
    rw [List.nil_append] at hperm
    exact (layers_topological hnd hr).acyclic.congr hperm.symm.subset
  · intro h
    exact layers_of_acyclic h hwithin le_rfl (List.Subset.refl _) fun x hx => Or.inl hx

end ResidualHarness.Graph
