import ResidualHarness.Cic.Model

/-!
# Valid models and their interaction graph

What `validate_model` guarantees (`Model.Valid`), and the graph that `interaction_graph` builds of a
valid model: two variables are neighbours exactly when a constraint has both in its scope
(`mem_adj_interactionGraph`).
-/

set_option autoImplicit false

namespace ResidualHarness.Cic

open Python Core

/-! ## Valid models -/

/-- What `validate_model` guarantees. -/
structure Model.Valid (m : Model) : Prop where
  names : m.domains.keys.Nodup
  count : 1 ≤ m.domains.length ∧ m.domains.length ≤ 32
  domains : ∀ d ∈ m.domains, checkDomain d.1 d.2 = .ok ()
  different : ∀ r ∈ m.different, checkPair m.domains.keys r = .ok ()
  lessThan : ∀ r ∈ m.lessThan, checkPair m.domains.keys r = .ok ()
  sums : ∀ r ∈ m.sums, checkSum m.domains.keys r = .ok ()
  rules : m.different.length + m.lessThan.length + m.sums.length ≤ 128

theorem checkPair_ok {domains : List Str} {r : Str × Str} :
    checkPair domains r = .ok () ↔ r.1 ∈ domains ∧ r.2 ∈ domains := require_eq_ok

theorem checkSum_ok {domains : List Str} {r : SumRule} (h : checkSum domains r = .ok ()) :
    r.keys ≠ [] ∧ r.keys ⊆ domains ∧ r.keys.Nodup := by
  obtain ⟨_, -, h⟩ := bind_eq_ok.1 h
  obtain ⟨⟨hlen, -⟩, hsub, hnd⟩ := require_eq_ok.1 h
  exact ⟨List.ne_nil_of_length_pos hlen, hsub, hnd⟩

theorem mapE_unit_of {α : Type} {f : α → Except PyExn Unit} {l : List α}
    (h : ∀ a ∈ l, f a = .ok ()) : ∃ us, mapE f l = .ok us :=
  exists_mapE fun a ha => ⟨(), h a ha⟩

theorem Model.Valid.validate {m : Model} (h : m.Valid) : m.validate = .ok () := by
  obtain ⟨ds, hds⟩ := mapE_unit_of (f := fun d : Str × List Int => checkDomain d.1 d.2) h.domains
  obtain ⟨ps, hps⟩ := mapE_unit_of h.different
  obtain ⟨ls, hls⟩ := mapE_unit_of h.lessThan
  obtain ⟨ss, hss⟩ := mapE_unit_of h.sums
  have hrules := h.rules
  have hcount (n : Nat) (hn : n ≤ 128) : checkCount n = .ok () := require_of hn
  rw [Model.validate, require_of h.count, hds, hcount _ (by omega), hps, hcount _ (by omega), hls,
    hcount _ (by omega), hss]
  rfl

section Reading

variable [FloatModel]

theorem readDomain_ok {d : Str × Json} {e : Str × List Int} (h : readDomain d = .ok e) :
    e.1 = d.1 ∧ checkDomain e.1 e.2 = .ok () := by
  obtain ⟨_, -, h⟩ := bind_eq_ok.1 h
  split at h
  · split at h
    · obtain ⟨_, hc, h⟩ := bind_eq_ok.1 h
      cases h
      exact ⟨rfl, hc⟩
    · cases h
  · cases h

theorem readPair_ok {domains : List Str} {v : Json} {r : Str × Str}
    (h : readPair domains v = .ok r) : checkPair domains r = .ok () := by
  unfold readPair at h
  split at h
  · obtain ⟨_, hc, h⟩ := bind_eq_ok.1 h
    cases h
    exact hc
  · cases h

theorem readSum_ok {domains : List Str} {v : Json} {r : SumRule}
    (h : readSum domains v = .ok r) : checkSum domains r = .ok () := by
  unfold readSum at h
  split at h
  · obtain ⟨_, -, h⟩ := bind_eq_ok.1 h
    obtain ⟨_, -, h⟩ := bind_eq_ok.1 h
    split at h
    · cases h
    · obtain ⟨_, -, h⟩ := bind_eq_ok.1 h
      obtain ⟨_, -, h⟩ := bind_eq_ok.1 h
      split at h
      · split at h
        · obtain ⟨_, hc, h⟩ := bind_eq_ok.1 h
          cases h
          exact hc
        · cases h
      · cases h
  · cases h

theorem readRules_ok {α : Type} {model : Fields} {kind : String} {count : Nat}
    {read : Json → Except PyExn α} {rs : List α} (h : readRules model kind count read = .ok rs) :
    count + rs.length ≤ 128 ∧ ∀ r ∈ rs, ∃ v, read v = .ok r := by
  unfold readRules at h
  split at h
  · rename_i rules _
    obtain ⟨_, hc, h⟩ := bind_eq_ok.1 h
    have hlen : rs.length = rules.length := (mapE_eq_ok h).length_eq.symm
    exact ⟨hlen ▸ require_eq_ok.1 hc, fun r hr => (of_mem_mapE h hr).imp fun _ hv => hv.2⟩
  · cases h

theorem valid_of_validateModel {v : Json} (hwf : v.wf = true) {m : Model}
    (h : validateModel v = .ok m) : m.Valid := by
  unfold validateModel at h
  split at h
  · rename_i fields
    obtain ⟨_, -, h⟩ := bind_eq_ok.1 h
    split at h
    · rename_i ds hds
      obtain ⟨_, hcount, h⟩ := bind_eq_ok.1 h
      obtain ⟨domains, hdomains, h⟩ := bind_eq_ok.1 h
      obtain ⟨different, hdifferent, h⟩ := bind_eq_ok.1 h
      obtain ⟨lessThan, hlessThan, h⟩ := bind_eq_ok.1 h
      obtain ⟨sums, hsums, h⟩ := bind_eq_ok.1 h
      cases h
      -- the names of the domains are the keys of a dictionary
      have hkeys : domains.map Prod.fst = ds.map Prod.fst :=
        map_of_mapE hdomains fun d _ e he => (readDomain_ok he).1
      have hnd : (ds.map Prod.fst).Nodup := by
        rw [Json.wf, Bool.and_eq_true, Json.wfFields_iff] at hwf
        have hd := hwf.2 _ (Fields.mem_of_get? hds)
        rw [Json.wf, Bool.and_eq_true, decide_eq_true_eq] at hd
        exact hd.1
      have hlen : domains.length = ds.length := (mapE_eq_ok hdomains).length_eq.symm
      rw [← hkeys] at hnd hdifferent hlessThan hsums
      obtain ⟨-, hdiff⟩ := readRules_ok hdifferent
      obtain ⟨-, hless⟩ := readRules_ok hlessThan
      obtain ⟨hrules, hsum⟩ := readRules_ok hsums
      refine ⟨hnd, hlen ▸ require_eq_ok.1 hcount, fun d hd => ?_, fun r hr => ?_,
        fun r hr => ?_, fun r hr => ?_, hrules⟩
      · obtain ⟨_, -, he⟩ := of_mem_mapE hdomains hd
        exact (readDomain_ok he).2
      · obtain ⟨_, he⟩ := hdiff r hr
        exact readPair_ok he
      · obtain ⟨_, he⟩ := hless r hr
        exact readPair_ok he
      · obtain ⟨_, he⟩ := hsum r hr
        exact readSum_ok he
    · cases h
  · cases h

end Reading

/-! ## Pairs -/

theorem mem_pairs {α : Type} {l : List α} {e : α × α} (h : e ∈ pairs l) : e.1 ∈ l ∧ e.2 ∈ l := by
  induction l with
  | nil => cases h
  | cons x xs ih =>
      rw [pairs, List.mem_append, List.mem_map] at h
      rcases h with ⟨y, hy, rfl⟩ | h
      · exact ⟨List.mem_cons_self, List.mem_cons_of_mem _ hy⟩
      · exact ⟨List.mem_cons_of_mem _ (ih h).1, List.mem_cons_of_mem _ (ih h).2⟩

theorem ne_of_mem_pairs {α : Type} {l : List α} (hl : l.Nodup) {e : α × α} (h : e ∈ pairs l) :
    e.1 ≠ e.2 := by
  induction l with
  | nil => cases h
  | cons x xs ih =>
      rw [List.nodup_cons] at hl
      rw [pairs, List.mem_append, List.mem_map] at h
      rcases h with ⟨y, hy, rfl⟩ | h
      · intro he
        exact hl.1 (show x ∈ xs from (show x = y from he) ▸ hy)
      · exact ih hl.2 h

/-- Two elements of a list are paired in one of the two orders. -/
theorem pairs_of_mem {α : Type} {l : List α} {x y : α} (hx : x ∈ l) (hy : y ∈ l) (h : x ≠ y) :
    (x, y) ∈ pairs l ∨ (y, x) ∈ pairs l := by
  induction l with
  | nil => cases hx
  | cons z zs ih =>
      have hfirst : ∀ a ∈ zs, (z, a) ∈ pairs (z :: zs) := fun a ha =>
        List.mem_append_left _ (List.mem_map.2 ⟨a, ha, rfl⟩)
      rcases List.mem_cons.1 hx with hxz | hxs
      · rcases List.mem_cons.1 hy with hyz | hys
        · exact absurd (hxz.trans hyz.symm) h
        · exact .inl (hxz ▸ hfirst y hys)
      · rcases List.mem_cons.1 hy with hyz | hys
        · exact .inr (hyz ▸ hfirst x hxs)
        · exact (ih hxs hys).imp (List.mem_append_right _) (List.mem_append_right _)

/-! ## Edges -/

namespace NodeGraph

@[simp]
theorem keys_addEdge (g : NodeGraph) (e : Str × Str) : (g.addEdge e).keys = g.keys := by
  rw [addEdge, Dict.keys, List.map_map]
  rfl

theorem get?_map (g : NodeGraph) (f : Str → List Str → List Str) (x : Str) :
    Dict.get? (g.map fun kv => (kv.1, f kv.1 kv.2)) x = (g.get? x).map (f x) := by
  induction g with
  | nil => rfl
  | cons kv g ih =>
      rw [List.map_cons, Dict.get?, Dict.get?, ih]
      by_cases hx : kv.1 = x
      · rw [if_pos hx, if_pos hx, hx]
        rfl
      · rw [if_neg hx, if_neg hx]

theorem adj_addEdge (g : NodeGraph) (e : Str × Str) {x : Str} (hx : x ∈ g.keys) :
    (g.addEdge e).adj x =
      if x = e.1 then (g.adj x).insert e.2 else if x = e.2 then (g.adj x).insert e.1 else g.adj x := by
  obtain ⟨ns, hns⟩ := Dict.mem_keys_iff.1 hx
  have h := get?_map g (fun k ns => if k = e.1 then ns.insert e.2
    else if k = e.2 then ns.insert e.1 else ns) x
  rw [hns] at h
  rw [adj, adj, addEdge, h, hns]
  rfl

theorem adj_of_notMem {g : NodeGraph} {x : Str} (hx : x ∉ g.keys) : g.adj x = [] := by
  rw [adj, Dict.get?_eq_none_iff.2 hx]
  rfl

theorem mem_adj_addEdge {g : NodeGraph} {e : Str × Str} (he : e.1 ≠ e.2) {x y : Str}
    (hx : x ∈ g.keys) : y ∈ (g.addEdge e).adj x ↔ y ∈ g.adj x ∨ e = (x, y) ∨ e = (y, x) := by
  obtain ⟨a, b⟩ := e
  rw [adj_addEdge g _ hx]
  simp only at he ⊢
  by_cases ha : x = a
  · subst ha
    rw [if_pos rfl, List.mem_insert_iff]
    constructor
    · rintro (rfl | h)
      · exact .inr (.inl rfl)
      · exact .inl h
    · rintro (h | h | h)
      · exact .inr h
      · exact .inl (Prod.mk.inj h).2.symm
      · exact absurd (Prod.mk.inj h).2.symm he
  · rw [if_neg ha]
    by_cases hb : x = b
    · subst hb
      rw [if_pos rfl, List.mem_insert_iff]
      constructor
      · rintro (rfl | h)
        · exact .inr (.inr rfl)
        · exact .inl h
      · rintro (h | h | h)
        · exact .inr h
        · exact absurd (Prod.mk.inj h).1.symm ha
        · exact .inl (Prod.mk.inj h).1.symm
    · rw [if_neg hb]
      constructor
      · exact .inl
      · rintro (h | h | h)
        · exact h
        · exact absurd (Prod.mk.inj h).1.symm ha
        · exact absurd (Prod.mk.inj h).2.symm hb

theorem nodup_adj_addEdge {g : NodeGraph} {e : Str × Str} {x : Str} (h : (g.adj x).Nodup) :
    ((g.addEdge e).adj x).Nodup := by
  by_cases hx : x ∈ g.keys
  · rw [adj_addEdge g e hx]
    split
    · exact h.insert
    · split
      · exact h.insert
      · exact h
  · rw [adj_of_notMem (by rwa [keys_addEdge])]
    exact List.nodup_nil

/-- The graph with these edges. -/
def addEdges (g : NodeGraph) (es : List (Str × Str)) : NodeGraph := es.foldl addEdge g

theorem keys_addEdges (g : NodeGraph) (es : List (Str × Str)) : (g.addEdges es).keys = g.keys := by
  induction es generalizing g with
  | nil => rfl
  | cons e es ih =>
      rw [addEdges, List.foldl_cons]
      exact (ih _).trans (keys_addEdge g e)

theorem mem_adj_addEdges {es : List (Str × Str)} (he : ∀ e ∈ es, e.1 ≠ e.2) {x y : Str} :
    ∀ {g : NodeGraph}, x ∈ g.keys →
      (y ∈ (g.addEdges es).adj x ↔ y ∈ g.adj x ∨ (x, y) ∈ es ∨ (y, x) ∈ es) := by
  induction es with
  | nil => simp [addEdges]
  | cons e es ih =>
      intro g hx
      have ih' := ih (fun d hd => he d (List.mem_cons_of_mem _ hd))
        (show x ∈ (g.addEdge e).keys by rwa [keys_addEdge])
      rw [addEdges, List.foldl_cons]
      rw [addEdges] at ih'
      rw [ih', mem_adj_addEdge (he e List.mem_cons_self) hx, List.mem_cons, List.mem_cons,
        eq_comm (a := e), eq_comm (a := e)]
      tauto

theorem nodup_adj_addEdges {es : List (Str × Str)} {x : Str} :
    ∀ {g : NodeGraph}, (g.adj x).Nodup → ((g.addEdges es).adj x).Nodup := by
  induction es with
  | nil => exact id
  | cons e es ih => exact fun h => ih (nodup_adj_addEdge h)

end NodeGraph

/-! ## The interaction graph -/

theorem scope_subset {m : Model} (hm : m.Valid) {s : List Str} (hs : s ∈ m.scopes) :
    s ⊆ m.domains.keys ∧ s ≠ [] := by
  rw [Model.scopes, List.mem_append, List.mem_map, List.mem_map] at hs
  rcases hs with ⟨r, hr, rfl⟩ | ⟨r, hr, rfl⟩
  · have hpair : r.1 ∈ m.domains.keys ∧ r.2 ∈ m.domains.keys := by
      rcases List.mem_append.1 hr with hr | hr
      · exact checkPair_ok.1 (hm.different r hr)
      · exact checkPair_ok.1 (hm.lessThan r hr)
    exact ⟨List.cons_subset.2 ⟨hpair.1, List.cons_subset.2 ⟨hpair.2, List.nil_subset _⟩⟩,
      List.cons_ne_nil _ _⟩
  · obtain ⟨hne, hsub, -⟩ := checkSum_ok (hm.sums r hr)
    exact ⟨hsub, hne⟩

theorem keys_interactionGraph (m : Model) : (interactionGraph m).keys = m.domains.keys := by
  have hbase : Dict.keys (m.domains.map fun d => (d.1, ([] : List Str))) = m.domains.keys := by
    rw [Dict.keys, List.map_map]
    rfl
  exact (NodeGraph.keys_addEdges _ _).trans hbase

theorem adj_base (m : Model) (x : Str) :
    NodeGraph.adj (m.domains.map fun d => (d.1, ([] : List Str))) x = [] := by
  rw [NodeGraph.adj]
  generalize m.domains = ds
  induction ds with
  | nil => rfl
  | cons d ds ih =>
      rw [List.map_cons, Dict.get?]
      by_cases hd : d.1 = x
      · rw [if_pos hd]
        rfl
      · rwa [if_neg hd]

theorem nodup_sortedSet (xs : List Str) : (sortedSet xs).Nodup :=
  (List.perm_insertionSort _ _).nodup_iff.2 (List.nodup_dedup xs)

/-- Two variables are neighbours when a constraint has both in its scope. -/
theorem mem_adj_interactionGraph {m : Model} (hm : m.Valid) {x y : Str} :
    y ∈ (interactionGraph m).adj x ↔ x ≠ y ∧ ∃ s ∈ m.scopes, x ∈ s ∧ y ∈ s := by
  have hne : ∀ e ∈ m.scopes.flatMap fun scope => pairs (sortedSet scope), e.1 ≠ e.2 := by
    intro e he
    obtain ⟨s, -, he⟩ := List.mem_flatMap.1 he
    exact ne_of_mem_pairs (nodup_sortedSet s) he
  have hpair : ∀ a b, (a, b) ∈ (m.scopes.flatMap fun scope => pairs (sortedSet scope)) →
      ∃ s ∈ m.scopes, a ∈ s ∧ b ∈ s := by
    intro a b hab
    obtain ⟨s, hs, hab⟩ := List.mem_flatMap.1 hab
    exact ⟨s, hs, mem_sortedSet.1 (mem_pairs hab).1, mem_sortedSet.1 (mem_pairs hab).2⟩
  by_cases hx : x ∈ m.domains.keys
  · have hadj := NodeGraph.mem_adj_addEdges (y := y) hne
      (show x ∈ Dict.keys (m.domains.map fun d => (d.1, ([] : List Str))) by
        rw [Dict.keys, List.map_map]; exact hx)
    rw [adj_base] at hadj
    refine hadj.trans ?_
    constructor
    · rintro (h | h | h)
      · cases h
      · exact ⟨hne _ h, hpair _ _ h⟩
      · obtain ⟨s, hs, hys, hxs⟩ := hpair _ _ h
        exact ⟨(hne _ h).symm, s, hs, hxs, hys⟩
    · rintro ⟨hxy, s, hs, hxs, hys⟩
      refine .inr ?_
      rcases pairs_of_mem (mem_sortedSet.2 hxs) (mem_sortedSet.2 hys) hxy with h | h
      · exact .inl (List.mem_flatMap.2 ⟨s, hs, h⟩)
      · exact .inr (List.mem_flatMap.2 ⟨s, hs, h⟩)
  · constructor
    · intro h
      rw [NodeGraph.adj_of_notMem (by rwa [keys_interactionGraph])] at h
      cases h
    · rintro ⟨-, s, hs, hxs, -⟩
      exact absurd ((scope_subset hm hs).1 hxs) hx

theorem undirected_interactionGraph {m : Model} (hm : m.Valid) :
    Graph.Undirected (interactionGraph m).adj (interactionGraph m).keys where
  nodup := by
    rw [keys_interactionGraph]
    exact hm.names
  inside := by
    intro x _ y hy
    obtain ⟨-, s, hs, -, hys⟩ := (mem_adj_interactionGraph hm).1 hy
    rw [keys_interactionGraph]
    exact (scope_subset hm hs).1 hys
  nodup_adj x _ := NodeGraph.nodup_adj_addEdges (by rw [adj_base]; exact List.nodup_nil)
  symm := by
    intro x _ y hy
    obtain ⟨hne, s, hs, hxs, hys⟩ := (mem_adj_interactionGraph hm).1 hy
    exact (mem_adj_interactionGraph hm).2 ⟨hne.symm, s, hs, hys, hxs⟩

/-- The graph of a valid model is what the elimination orders are for. -/
theorem check_interactionGraph {m : Model} (hm : m.Valid) : (interactionGraph m).check = .ok () := by
  have hg := undirected_interactionGraph hm
  have hlen : (interactionGraph m).length ≤ 32 := by
    have h := congrArg List.length (keys_interactionGraph m)
    rw [Dict.keys, Dict.keys, List.length_map, List.length_map] at h
    exact h ▸ hm.count.2
  refine bind_eq_ok.2 ⟨(), require_of hlen, require_of ?_⟩
  rintro ⟨x, ns⟩ hx
  have hkey : x ∈ (interactionGraph m).keys := List.mem_map.2 ⟨_, hx, rfl⟩
  have hadj : (interactionGraph m).adj x = ns := by
    rw [NodeGraph.adj, Dict.get?_of_mem hg.nodup hx]
    rfl
  refine ⟨?_, hadj ▸ hg.inside x hkey, fun n hn => hg.symm x hkey n (hadj.symm ▸ hn)⟩
  intro hself
  rw [← hadj] at hself
  exact ((mem_adj_interactionGraph hm).1 hself).1 rfl

/-! ## Solutions -/

/-- The values solve the model. -/
structure Model.Solves (m : Model) (f : Str → Int) : Prop where
  domains : ∀ d ∈ m.domains, f d.1 ∈ d.2
  different : ∀ r ∈ m.different, f r.1 ≠ f r.2
  lessThan : ∀ r ∈ m.lessThan, f r.1 < f r.2
  sums : ∀ r ∈ m.sums, (r.keys.map f).sum = r.equals

/-- The model has names and scopes of its own. -/
structure Model.Scoped (m : Model) : Prop where
  names : m.domains.keys.Nodup
  scopes : ∀ s ∈ m.scopes, s ⊆ m.domains.keys

theorem Model.Valid.scoped {m : Model} (hm : m.Valid) : m.Scoped :=
  ⟨hm.names, fun _ hs => (scope_subset hm hs).1⟩

/-- The value of a variable in an assignment. -/
def valueOf (values : Dict Str Int) (k : Str) : Int := (values.get? k).getD 0

theorem mem_scopes_pair {m : Model} {r : Str × Str} (hr : r ∈ m.different ∨ r ∈ m.lessThan) :
    [r.1, r.2] ∈ m.scopes :=
  List.mem_append_left _ (List.mem_map.2 ⟨r, List.mem_append.2 hr, rfl⟩)

theorem mem_scopes_sum {m : Model} {r : SumRule} (hr : r ∈ m.sums) : r.keys ∈ m.scopes :=
  List.mem_append_right _ (List.mem_map.2 ⟨r, hr, rfl⟩)

/-- A complete assignment. -/
structure Complete (m : Model) (values : Dict Str Int) : Prop where
  nodup : values.keys.Nodup
  inside : values.keys ⊆ m.domains.keys
  all : m.domains.keys ⊆ values.keys

theorem get?_of_complete {m : Model} {values : Dict Str Int} (h : m.domains.keys ⊆ values.keys)
    {k : Str} (hk : k ∈ m.domains.keys) : values.get? k = some (valueOf values k) := by
  obtain ⟨v, hv⟩ := Dict.mem_keys_iff.1 (h hk)
  rw [valueOf, hv]
  rfl

theorem pairHolds_of_complete {m : Model} {values : Dict Str Int} (h : m.domains.keys ⊆ values.keys)
    (rel : Int → Int → Bool) {r : Str × Str} (h1 : r.1 ∈ m.domains.keys)
    (h2 : r.2 ∈ m.domains.keys) :
    pairHolds rel values r = rel (valueOf values r.1) (valueOf values r.2) := by
  unfold pairHolds
  rw [get?_of_complete h h1, get?_of_complete h h2]

theorem sumBounds_of_complete {m : Model} {values : Dict Str Int}
    (h : m.domains.keys ⊆ values.keys) {keys : List Str} (hk : keys ⊆ m.domains.keys) :
    sumBounds m values keys = ((keys.map (valueOf values)).sum, (keys.map (valueOf values)).sum) := by
  have hmap (d : Str → Int) : keys.map (fun k => (values.get? k).getD (d k)) =
      keys.map (valueOf values) := by
    refine List.map_congr_left fun k hmem => ?_
    rw [get?_of_complete h (hk hmem)]
    rfl
  rw [sumBounds, hmap, hmap]

theorem domain_of_mem {m : Model} (hnd : m.domains.keys.Nodup) {d : Str × List Int}
    (hd : d ∈ m.domains) : m.domain d.1 = d.2 := by
  rw [Model.domain, Dict.get?_of_mem hnd hd]
  rfl

theorem consistent_complete {m : Model} (hm : m.Scoped) {values : Dict Str Int}
    (hnd : values.keys.Nodup) :
    consistent m values true = true ↔ Complete m values ∧ m.Solves (valueOf values) := by
  simp only [consistent, Bool.and_eq_true, List.all_eq_true, decide_eq_true_eq, Bool.not_true,
    Bool.false_or]
  constructor
  · rintro ⟨⟨⟨⟨⟨hin, hall⟩, hdom⟩, hdiff⟩, hless⟩, hsum⟩
    refine ⟨⟨hnd, hin, hall⟩, fun d hd => ?_, fun r hr => ?_, fun r hr => ?_, fun r hr => ?_⟩
    · have hkey : d.1 ∈ m.domains.keys := List.mem_map.2 ⟨d, hd, rfl⟩
      have hv := hdom _ (Dict.mem_of_get? (get?_of_complete hall hkey))
      rwa [domain_of_mem hm.names hd] at hv
    · have hs := List.cons_subset.1 (hm.scopes _ (mem_scopes_pair (.inl hr)))
      have h := hdiff r hr
      rw [pairHolds_of_complete hall _ hs.1 (hs.2 List.mem_cons_self)] at h
      exact of_decide_eq_true h
    · have hs := List.cons_subset.1 (hm.scopes _ (mem_scopes_pair (.inr hr)))
      have h := hless r hr
      rw [pairHolds_of_complete hall _ hs.1 (hs.2 List.mem_cons_self)] at h
      exact of_decide_eq_true h
    · have h := hsum r hr
      rw [sumBounds_of_complete hall (hm.scopes _ (mem_scopes_sum hr))] at h
      exact le_antisymm h.1 h.2
  · rintro ⟨⟨-, hin, hall⟩, hsol⟩
    refine ⟨⟨⟨⟨⟨hin, hall⟩, fun kv hkv => ?_⟩, fun r hr => ?_⟩, fun r hr => ?_⟩, fun r hr => ?_⟩
    · obtain ⟨d, hd, hdk⟩ := List.mem_map.1 (hin (List.mem_map.2 ⟨kv, hkv, rfl⟩))
      have hv : valueOf values kv.1 = kv.2 := by
        rw [valueOf, Dict.get?_of_mem hnd hkv]
        rfl
      rw [← hdk, domain_of_mem hm.names hd, ← hv, ← hdk]
      exact hsol.domains d hd
    · have hs := List.cons_subset.1 (hm.scopes _ (mem_scopes_pair (.inl hr)))
      rw [pairHolds_of_complete hall _ hs.1 (hs.2 List.mem_cons_self)]
      exact decide_eq_true (hsol.different r hr)
    · have hs := List.cons_subset.1 (hm.scopes _ (mem_scopes_pair (.inr hr)))
      rw [pairHolds_of_complete hall _ hs.1 (hs.2 List.mem_cons_self)]
      exact decide_eq_true (hsol.lessThan r hr)
    · rw [sumBounds_of_complete hall (hm.scopes _ (mem_scopes_sum hr))]
      exact ⟨le_of_eq (hsol.sums r hr), le_of_eq (hsol.sums r hr).symm⟩

end ResidualHarness.Cic
