import ResidualHarness.Cic.Decomposition
import Mathlib.Algebra.Order.BigOperators.Group.List

/-!
# The bounded search

`feasibility` of `residual/cic.py`. The branches of its search share one dictionary
(`searchShared`); what an abandoned branch left in it is gone when the next branch starts, so the
search computes what the search on values of its own computes (`searchShared_spec`). A search with a
budget is one without that is cut off (`search_eq`), and what that one prunes has no solution
(`visit_none`).
-/

set_option autoImplicit false

namespace ResidualHarness.Cic

open Python Core

/-! ## The shared dictionary -/

/-- What a search has found, and the dictionary as it leaves it. -/
structure SharedSearch where
  answer : Option (Dict Str Int)
  values : Dict Str Int
  nodes : Nat
  exhausted : Bool

/-- The loop over the values of one variable, on the shared dictionary. -/
def searchSharedValues (m : Model) (maxNodes : Nat) (key : Str)
    (next : Dict Str Int → Nat → SharedSearch) : Dict Str Int → List Int → Nat → SharedSearch
  | values, [], nodes => ⟨none, values.pop key, nodes, false⟩
  | values, v :: vs, nodes =>
      if maxNodes ≤ nodes then ⟨none, values, nodes, true⟩
      else if consistent m (values.set key v) false then
        let r := next (values.set key v) (nodes + 1)
        if r.answer.isSome ∨ r.exhausted = true then r
        else searchSharedValues m maxNodes key next r.values vs r.nodes
      else searchSharedValues m maxNodes key next (values.set key v) vs (nodes + 1)

/-- `search(values, depth)`, with the variables from this depth on. -/
def searchShared (m : Model) (maxNodes : Nat) : List Str → Dict Str Int → Nat → SharedSearch
  | [], values, nodes => ⟨some values, values, nodes, false⟩
  | key :: order, values, nodes =>
      searchSharedValues m maxNodes key (searchShared m maxNodes order) values (m.domain key) nodes

/-- `feasibility(model, ordering, max_nodes)`, with the dictionary that its search shares. -/
def feasibilityShared (m : Model) (ordering : List Str) (maxNodes : Int) :
    Except PyExn SearchResult := do
  m.validate
  let _ ← eliminationCertificate (interactionGraph m) ordering
  require (0 ≤ maxNodes ∧ maxNodes ≤ 1000000) (contractError "invalid feasibility budget")
  let r := searchShared m maxNodes.toNat ordering.reverse [] 0
  return ⟨if r.answer.isSome then .sat else if r.exhausted then .unknown else .unsat, r.answer,
    r.nodes⟩

theorem set_set (values : Dict Str Int) (key : Str) (v w : Int) :
    (values.set key v).set key w = values.set key w := by
  induction values with
  | nil => simp [Dict.set]
  | cons kv values ih =>
      rw [Dict.set, Dict.set]
      by_cases hk : kv.1 = key
      · rw [if_pos hk, if_pos hk, Dict.set, if_pos rfl]
      · rw [if_neg hk, if_neg hk, Dict.set, if_neg hk, ih]

theorem pop_set {values : Dict Str Int} {key : Str} (h : key ∉ values.keys) (v : Int) :
    (values.set key v).pop key = values := by
  induction values with
  | nil => simp [Dict.set, Dict.pop]
  | cons kv values ih =>
      have hne : kv.1 ≠ key := fun he => h (List.mem_cons.2 (.inl he.symm))
      have hrest : key ∉ Dict.keys values := fun hmem => h (List.mem_cons_of_mem _ hmem)
      rw [Dict.set, if_neg hne, Dict.pop, if_neg hne, ih hrest]

/-- The shared search finds what the search on values of its own finds, and if it finds nothing and
has nodes left, it leaves the dictionary as it was. -/
structure SharedAs (r : SharedSearch) (s : Search) (values : Dict Str Int) : Prop where
  answer : r.answer = s.answer
  nodes : r.nodes = s.nodes
  exhausted : r.exhausted = s.exhausted
  values : s.answer = none → s.exhausted = false → r.values = values

theorem searchSharedValues_spec {m : Model} {maxNodes : Nat} {key : Str}
    {next : Dict Str Int → Nat → SharedSearch} {next' : Dict Str Int → Nat → Search}
    {base : Dict Str Int} (hkey : key ∉ base.keys)
    (hnext : ∀ v nodes, SharedAs (next (base.set key v) nodes) (next' (base.set key v) nodes)
      (base.set key v)) {vs : List Int} :
    ∀ {values : Dict Str Int} {nodes : Nat}, (values = base ∨ ∃ v, values = base.set key v) →
      SharedAs (searchSharedValues m maxNodes key next values vs nodes)
        (searchValues m maxNodes key next' base vs nodes) base := by
  induction vs with
  | nil =>
      rintro values nodes hvalues
      refine ⟨rfl, rfl, rfl, fun _ _ => ?_⟩
      rcases hvalues with rfl | ⟨v, rfl⟩
      · exact Dict.pop_of_notMem hkey
      · exact pop_set hkey v
  | cons v vs ih =>
      intro values nodes hvalues
      have hset : values.set key v = base.set key v := by
        rcases hvalues with rfl | ⟨w, rfl⟩
        · rfl
        · exact set_set base key w v
      rw [searchSharedValues, searchValues, hset]
      by_cases hbudget : maxNodes ≤ nodes
      · rw [if_pos hbudget, if_pos hbudget]
        exact ⟨rfl, rfl, rfl, fun _ h => absurd h (by simp)⟩
      rw [if_neg hbudget, if_neg hbudget]
      by_cases hcons : consistent m (base.set key v) false = true
      · have h := hnext v (nodes + 1)
        rw [if_pos hcons, if_pos hcons]
        simp only [h.answer, h.exhausted, h.nodes]
        by_cases hstop : (next' (base.set key v) (nodes + 1)).answer.isSome ∨
            (next' (base.set key v) (nodes + 1)).exhausted = true
        · rw [if_pos hstop, if_pos hstop]
          refine ⟨h.answer, h.nodes, h.exhausted, fun hnone hex => ?_⟩
          rcases hstop with hs | hs
          · rw [hnone] at hs
            cases hs
          · rw [hex] at hs
            cases hs
        · rw [if_neg hstop, if_neg hstop]
          -- the branch was abandoned, and its entries are gone
          rw [not_or, Bool.not_eq_true, Option.isSome_eq_false_iff, Option.isNone_iff_eq_none,
            Bool.not_eq_true] at hstop
          rw [h.values hstop.1 hstop.2]
          exact ih (.inr ⟨v, rfl⟩)
      · rw [if_neg hcons, if_neg hcons]
        exact ih (.inr ⟨v, rfl⟩)

theorem searchShared_spec {m : Model} {maxNodes : Nat} {order : List Str} (hnd : order.Nodup) :
    ∀ {values : Dict Str Int} {nodes : Nat}, (∀ k ∈ order, k ∉ values.keys) →
      SharedAs (searchShared m maxNodes order values nodes) (search m maxNodes order values nodes)
        values := by
  induction order with
  | nil => exact fun _ => ⟨rfl, rfl, rfl, fun h => absurd h (by simp [search])⟩
  | cons key order ih =>
      intro values nodes hfree
      rw [List.nodup_cons] at hnd
      refine searchSharedValues_spec (hfree key List.mem_cons_self) (fun v n => ?_) (.inl rfl)
      refine ih hnd.2 fun k hk hmem => ?_
      rcases Dict.mem_keys_set.1 hmem with h | h
      · exact hnd.1 (h ▸ hk)
      · exact hfree k (List.mem_cons_of_mem _ hk) h

/-! ## The search without a budget -/

/-- The loop over the values of one variable, with the number of nodes it visits. -/
def visitValues (m : Model) (key : Str) (next : Dict Str Int → Option (Dict Str Int) × Nat)
    (values : Dict Str Int) : List Int → Option (Dict Str Int) × Nat
  | [] => (none, 0)
  | v :: vs =>
      let rest := visitValues m key next values vs
      if consistent m (values.set key v) false then
        let r := next (values.set key v)
        if r.1.isSome then (r.1, 1 + r.2) else (rest.1, 1 + r.2 + rest.2)
      else (rest.1, 1 + rest.2)

/-- The search without a budget. -/
def visit (m : Model) : List Str → Dict Str Int → Option (Dict Str Int) × Nat
  | [], values => (some values, 0)
  | key :: order, values => visitValues m key (visit m order) values (m.domain key)

/-- A search, cut off when the budget is spent. -/
def cutOff (maxNodes nodes : Nat) (r : Option (Dict Str Int) × Nat) : Search :=
  if nodes + r.2 ≤ maxNodes then ⟨r.1, nodes + r.2, false⟩ else ⟨none, maxNodes, true⟩

theorem searchValues_eq {m : Model} {maxNodes : Nat} {key : Str}
    {next : Dict Str Int → Nat → Search} {next' : Dict Str Int → Option (Dict Str Int) × Nat}
    {values : Dict Str Int} (hnext : ∀ v nodes, nodes ≤ maxNodes →
      next (values.set key v) nodes = cutOff maxNodes nodes (next' (values.set key v)))
    {vs : List Int} : ∀ {nodes : Nat}, nodes ≤ maxNodes →
      searchValues m maxNodes key next values vs nodes =
        cutOff maxNodes nodes (visitValues m key next' values vs) := by
  induction vs with
  | nil =>
      intro nodes hn
      rw [searchValues, visitValues, cutOff, if_pos (by simpa using hn)]
      rfl
  | cons v vs ih =>
      intro nodes hn
      rw [searchValues, visitValues]
      by_cases hbudget : maxNodes ≤ nodes
      · -- the first node that the budget does not allow
        have hlt : ∀ n, ¬ nodes + (1 + n) ≤ maxNodes := by
          intro n
          omega
        have heq : nodes = maxNodes := le_antisymm hn hbudget
        rw [if_pos hbudget]
        simp only [cutOff]
        split
        · split
          · rw [if_neg (hlt _), heq]
          · rw [Nat.add_assoc 1, if_neg (hlt _), heq]
        · rw [if_neg (hlt _), heq]
      · rw [if_neg hbudget]
        have hn' : nodes + 1 ≤ maxNodes := by omega
        by_cases hcons : consistent m (values.set key v) false = true
        · rw [if_pos hcons, if_pos hcons, hnext v _ hn']
          obtain ⟨answer, count⟩ := next' (values.set key v)
          simp only [cutOff]
          by_cases hfits : nodes + 1 + count ≤ maxNodes
          · rw [if_pos hfits]
            cases answer with
            | some a =>
                simp only [Option.isSome_some, true_or, if_true]
                rw [if_pos (by omega), Nat.add_assoc]
            | none =>
                simp only [Option.isSome_none, Bool.false_eq_true, or_self, if_false]
                rw [ih hfits, cutOff]
                have harith : nodes + 1 + count + (visitValues m key next' values vs).2 =
                    nodes + (1 + count + (visitValues m key next' values vs).2) := by omega
                rw [harith]
          · rw [if_neg hfits]
            simp only [Option.isSome_none, Bool.false_eq_true, false_or, if_true]
            cases answer with
            | some a =>
                simp only [Option.isSome_some, if_true]
                rw [if_neg (by omega)]
            | none =>
                simp only [Option.isSome_none, Bool.false_eq_true, if_false]
                rw [if_neg (by omega)]
        · rw [if_neg hcons, if_neg hcons, ih hn', cutOff, cutOff]
          have harith : nodes + 1 + (visitValues m key next' values vs).2 =
              nodes + (1 + (visitValues m key next' values vs).2) := by omega
          rw [harith]

/-- A search with a budget is a search without one that is cut off. -/
theorem search_eq (m : Model) (maxNodes : Nat) {order : List Str} :
    ∀ {values : Dict Str Int} {nodes : Nat}, nodes ≤ maxNodes →
      search m maxNodes order values nodes = cutOff maxNodes nodes (visit m order values) := by
  induction order with
  | nil =>
      intro values nodes hn
      rw [search, visit, cutOff, if_pos (by simpa using hn)]
      rfl
  | cons key order ih => exact fun hn => searchValues_eq (fun _ _ h => ih h) hn

/-! ## Pruning -/

/-- The assigned values are those of a solution. -/
def Agrees (values : Dict Str Int) (f : Str → Int) : Prop := ∀ k v, values.get? k = some v → v = f k

theorem domain_mem {m : Model} (hm : m.Valid) {f : Str → Int} (hf : m.Solves f) {k : Str}
    (hk : k ∈ m.domains.keys) : f k ∈ m.domain k := by
  obtain ⟨d, hd, rfl⟩ := List.mem_map.1 hk
  rw [domain_of_mem hm.names hd]
  exact hf.domains d hd

theorem min_le_of_mem {xs : List Int} {x : Int} (h : x ∈ xs) : xs.min?.getD 0 ≤ x := by
  cases hmin : xs.min? with
  | none => exact absurd h (by rw [List.min?_eq_none_iff.1 hmin]; exact List.not_mem_nil)
  | some a => exact (List.min?_eq_some_iff.1 hmin).2 x h

theorem le_max_of_mem {xs : List Int} {x : Int} (h : x ∈ xs) : x ≤ xs.max?.getD 0 := by
  cases hmax : xs.max? with
  | none => exact absurd h (by rw [List.max?_eq_none_iff.1 hmax]; exact List.not_mem_nil)
  | some a => exact (List.max?_eq_some_iff.1 hmax).2 x h

theorem consistent_of_solves {m : Model} (hm : m.Valid) {f : Str → Int} (hf : m.Solves f)
    {values : Dict Str Int} (hnd : values.keys.Nodup) (hin : values.keys ⊆ m.domains.keys)
    (hag : Agrees values f) : consistent m values false = true := by
  have hpair : ∀ (rel : Int → Int → Bool) (r : Str × Str), rel (f r.1) (f r.2) = true →
      pairHolds rel values r = true := by
    intro rel r hrel
    unfold pairHolds
    split
    · rename_i a b ha hb
      rwa [hag _ _ ha, hag _ _ hb]
    · rfl
  simp only [consistent, Bool.and_eq_true, List.all_eq_true, decide_eq_true_eq, Bool.not_false,
    Bool.true_or, and_true]
  refine ⟨⟨⟨⟨hin, fun kv hkv => ?_⟩, fun r hr => ?_⟩, fun r hr => ?_⟩, fun r hr => ?_⟩
  · rw [hag kv.1 kv.2 (Dict.get?_of_mem hnd hkv)]
    exact domain_mem hm hf (hin (List.mem_map.2 ⟨kv, hkv, rfl⟩))
  · exact hpair _ r (decide_eq_true (hf.different r hr))
  · exact hpair _ r (decide_eq_true (hf.lessThan r hr))
  · -- the bounds of the sum hold between them the values of the solution
    have hkeys : r.keys ⊆ m.domains.keys := (checkSum_ok (hm.sums r hr)).2.1
    rw [← hf.sums r hr]
    refine ⟨List.sum_le_sum fun k hk => ?_, List.sum_le_sum fun k hk => ?_⟩
    · cases hv : values.get? k with
      | some v => exact le_of_eq (hag k v hv)
      | none => exact min_le_of_mem (domain_mem hm hf (hkeys hk))
    · cases hv : values.get? k with
      | some v => exact le_of_eq (hag k v hv).symm
      | none => exact le_max_of_mem (domain_mem hm hf (hkeys hk))

/-! ## Exactness of the search -/

theorem visitValues_some {m : Model} {key : Str}
    {next : Dict Str Int → Option (Dict Str Int) × Nat} {values a : Dict Str Int} {vs : List Int}
    (h : (visitValues m key next values vs).1 = some a) :
    ∃ v, consistent m (values.set key v) false = true ∧ (next (values.set key v)).1 = some a := by
  induction vs with
  | nil => cases h
  | cons v vs ih =>
      rw [visitValues] at h
      by_cases hcons : consistent m (values.set key v) false = true
      · rw [if_pos hcons] at h
        by_cases hs : (next (values.set key v)).1.isSome = true
        · rw [if_pos hs] at h
          exact ⟨v, hcons, h⟩
        · rw [if_neg hs] at h
          exact ih h
      · rw [if_neg hcons] at h
        exact ih h

theorem visitValues_none {m : Model} {key : Str}
    {next : Dict Str Int → Option (Dict Str Int) × Nat} {values : Dict Str Int} {vs : List Int}
    (h : (visitValues m key next values vs).1 = none) :
    ∀ v ∈ vs, consistent m (values.set key v) false = true → (next (values.set key v)).1 = none := by
  induction vs with
  | nil => nofun
  | cons v vs ih =>
      rw [visitValues] at h
      by_cases hs : consistent m (values.set key v) false = true ∧
          (next (values.set key v)).1.isSome = true
      · rw [if_pos hs.1, if_pos hs.2] at h
        rw [h] at hs
        cases hs.2
      · have hrest : (visitValues m key next values vs).1 = none := by
          by_cases hcons : consistent m (values.set key v) false = true
          · rwa [if_pos hcons, if_neg fun h => hs ⟨hcons, h⟩] at h
          · rwa [if_neg hcons] at h
        intro w hw hcons
        rcases List.mem_cons.1 hw with rfl | hw
        · exact Option.not_isSome_iff_eq_none.1 fun h => hs ⟨hcons, h⟩
        · exact ih hrest w hw hcons

/-- What the search finds is consistent and assigns the variables of the order. -/
theorem visit_some {m : Model} {order : List Str} (hnd : order.Nodup) :
    ∀ {values a : Dict Str Int}, (∀ k ∈ order, k ∉ values.keys) →
      (order = [] → consistent m values false = true) → (visit m order values).1 = some a →
        consistent m a false = true ∧ a.keys = values.keys ++ order := by
  induction order with
  | nil =>
      intro values a _ hlast h
      cases h
      exact ⟨hlast rfl, by simp⟩
  | cons key order ih =>
      intro values a hfree _ h
      obtain ⟨v, hcons, h⟩ := visitValues_some h
      rw [List.nodup_cons] at hnd
      have hkeys : (values.set key v).keys = values.keys ++ [key] := by
        rw [Dict.keys_set, if_neg (hfree key List.mem_cons_self)]
      obtain ⟨ha, hk⟩ := ih hnd.2 (fun k hk hmem => by
        rw [hkeys, List.mem_append, List.mem_singleton] at hmem
        rcases hmem with hmem | rfl
        · exact hfree k (List.mem_cons_of_mem _ hk) hmem
        · exact hnd.1 hk) (fun _ => hcons) h
      rw [hkeys, List.append_assoc] at hk
      exact ⟨ha, hk⟩

theorem visit_none {m : Model} (hm : m.Valid) {f : Str → Int} (hf : m.Solves f) {order : List Str} :
    ∀ {values : Dict Str Int}, order ⊆ m.domains.keys → values.keys.Nodup →
      values.keys ⊆ m.domains.keys → Agrees values f → (visit m order values).1 ≠ none := by
  induction order with
  | nil => exact fun _ _ _ _ h => nomatch h
  | cons key order ih =>
      intro values hin hnd hsub hag h
      rw [List.cons_subset] at hin
      have hag' : Agrees (values.set key (f key)) f := by
        intro k v hv
        rw [Dict.get?_set] at hv
        by_cases hk : k = key
        · rw [if_pos hk] at hv
          rw [← Option.some.inj hv, hk]
        · rw [if_neg hk] at hv
          exact hag k v hv
      have hsub' : (values.set key (f key)).keys ⊆ m.domains.keys := by
        intro k hk
        rcases Dict.mem_keys_set.1 hk with rfl | hk
        · exact hin.1
        · exact hsub hk
      have hnd' := Dict.nodup_set hnd key (f key)
      -- the branch of the solution's value is not pruned and finds something
      exact ih hin.2 hnd' hsub' hag' (visitValues_none h (f key) (domain_mem hm hf hin.1)
        (consistent_of_solves hm hf hnd' hsub' hag'))

/-! ## Feasibility -/

theorem certificate_interactionGraph {m : Model} (hm : m.Valid) {ordering : List Str}
    (ho : ordering.Perm m.domains.keys) :
    ∃ c, eliminationCertificate (interactionGraph m) ordering = .ok c := by
  have hkeys := keys_interactionGraph m
  have hlen : ordering.length = (interactionGraph m).length := by
    rw [ho.length_eq, ← hkeys, Dict.keys, List.length_map]
  refine ⟨_, bind_eq_ok.2 ⟨(), check_interactionGraph hm, bind_eq_ok.2 ⟨(), require_of ?_, rfl⟩⟩⟩
  rw [hkeys]
  exact ⟨hlen, ho.subset, ho.symm.subset⟩

/-- What a search with a budget promises, when the search without one visits this many nodes. -/
structure Exact (m : Model) (visited budget : Nat) (r : SearchResult) : Prop where
  found : r.status = .sat ↔ r.assignment.isSome = true
  sound : ∀ a, r.assignment = some a → consistent m a true = true
  unsat : r.status = .unsat → ¬ Satisfiable m
  unknown : r.status = .unknown ↔ budget < visited
  nodes : r.nodes = min budget visited
  decided : visited ≤ budget → (r.status = .sat ↔ Satisfiable m)

theorem consistent_true {m : Model} {values : Dict Str Int} (h : consistent m values false = true)
    (hall : m.domains.keys ⊆ values.keys) : consistent m values true = true := by
  simp only [consistent, Bool.and_eq_true, decide_eq_true_eq, Bool.not_false, Bool.true_or,
    Bool.not_true, Bool.false_or, and_true] at h ⊢
  obtain ⟨⟨⟨⟨h1, h2⟩, h3⟩, h4⟩, h5⟩ := h
  exact ⟨⟨⟨⟨⟨h1, hall⟩, h2⟩, h3⟩, h4⟩, h5⟩

/-- The search without a budget is exact. -/
theorem visit_exact {m : Model} (hm : m.Valid) {ordering : List Str}
    (ho : ordering.Perm m.domains.keys) :
    (∀ a, (visit m ordering.reverse []).1 = some a → consistent m a true = true) ∧
      ((visit m ordering.reverse []).1.isSome = true ↔ Satisfiable m) := by
  have hnd : ordering.reverse.Nodup := List.nodup_reverse.2 (ho.nodup_iff.2 hm.names)
  have hne : ordering.reverse ≠ [] := by
    intro h
    have hlen := ho.length_eq
    rw [List.reverse_eq_nil_iff.1 h, Dict.keys, List.length_map] at hlen
    have := hm.count.1
    simp at hlen
    omega
  have hsound : ∀ a, (visit m ordering.reverse []).1 = some a → consistent m a true = true ∧
      a.keys.Nodup := by
    intro a ha
    obtain ⟨hcons, hkeys⟩ := visit_some hnd (fun _ _ => List.not_mem_nil) (absurd · hne) ha
    have hrev : a.keys = ordering.reverse := by simpa [Dict.keys] using hkeys
    refine ⟨consistent_true hcons ?_, hrev ▸ hnd⟩
    rw [hrev]
    exact fun k hk => List.mem_reverse.2 (ho.symm.subset hk)
  refine ⟨fun a ha => (hsound a ha).1, ?_⟩
  constructor
  · intro hs
    obtain ⟨a, ha⟩ := Option.isSome_iff_exists.1 hs
    exact ⟨a, (hsound a ha).2, (hsound a ha).1⟩
  · intro hsat
    obtain ⟨f, hf⟩ := (satisfiable_iff hm.scoped).1 hsat
    rw [Option.isSome_iff_ne_none]
    exact visit_none hm hf (fun k hk => ho.subset (List.mem_reverse.1 hk)) List.nodup_nil
      (List.nil_subset _) (fun _ _ h => by cases h)

theorem exact_cutOff {m : Model} (hm : m.Valid) {ordering : List Str}
    (ho : ordering.Perm m.domains.keys) (budget : Nat) :
    let r := cutOff budget 0 (visit m ordering.reverse [])
    Exact m (visit m ordering.reverse []).2 budget
      ⟨if r.answer.isSome then .sat else if r.exhausted then .unknown else .unsat, r.answer,
        r.nodes⟩ := by
  obtain ⟨hsound, hiff⟩ := visit_exact hm ho
  generalize visit m ordering.reverse [] = full at hsound hiff
  obtain ⟨answer, visited⟩ := full
  simp only at hsound hiff
  simp only [cutOff, Nat.zero_add]
  by_cases hfits : visited ≤ budget
  · rw [if_pos hfits]
    have hnot : ¬ budget < visited := by omega
    have hmin : visited = min budget visited := by omega
    cases answer with
    | some a =>
        refine ⟨by simp, hsound, by simp, by simpa using hfits, hmin, fun _ => ?_⟩
        simpa using hiff
    | none =>
        have hunsat : ¬ Satisfiable m := by simpa using hiff
        exact ⟨by simp, nofun, fun _ => hunsat, by simpa using hfits, hmin,
          fun _ => by simpa using hunsat⟩
  · rw [if_neg hfits]
    have hmin : budget = min budget visited := by omega
    exact ⟨by simp, nofun, by simp, by simpa using hfits, hmin, fun h => absurd h hfits⟩

theorem feasibilityShared_eq {m : Model} (hm : m.Valid) {ordering : List Str}
    (ho : ordering.Perm m.domains.keys) (budget : Int) :
    feasibilityShared m ordering budget = feasibility m ordering budget := by
  obtain ⟨c, hc⟩ := certificate_interactionGraph hm ho
  have hs : SharedAs _ (search m budget.toNat ordering.reverse [] 0) [] :=
    searchShared_spec (List.nodup_reverse.2 (ho.nodup_iff.2 hm.names))
      (fun _ _ => List.not_mem_nil)
  rw [feasibilityShared, feasibility, hc, hm.validate]
  simp only [hs.answer, hs.exhausted, hs.nodes]

section

variable [FloatModel]

/-- The bounded search is exact for every model that was validated, every order of its variables and
every budget. -/
theorem feasibility_exact (model : {v : Json // v.wf = true}) (m : Model)
    (hm : validateModel model.1 = .ok m) (ordering : List Str)
    (ho : ordering.Perm m.domains.keys) (budget : Int) :
    if 0 ≤ budget ∧ budget ≤ 1000000 then
      ∃ r, feasibilityShared m ordering budget = .ok r ∧
        Exact m (visit m ordering.reverse []).2 budget.toNat r
    else feasibilityShared m ordering budget =
      .error (contractError "invalid feasibility budget") := by
  have hv := valid_of_validateModel model.2 hm
  obtain ⟨c, hc⟩ := certificate_interactionGraph hv ho
  have hrun := feasibilityShared_eq hv ho budget
  rw [feasibility, hv.validate, hc] at hrun
  by_cases hb : 0 ≤ budget ∧ budget ≤ 1000000
  · rw [if_pos hb]
    refine ⟨_, hrun.trans (bind_eq_ok.2 ⟨(), rfl, bind_eq_ok.2 ⟨c, rfl,
      bind_eq_ok.2 ⟨(), require_of hb, rfl⟩⟩⟩), ?_⟩
    rw [search_eq m _ (Nat.zero_le _)]
    exact exact_cutOff hv ho budget.toNat
  · rw [if_neg hb, hrun]
    simp only [require, if_neg hb]
    rfl

end

section Concrete

attribute [local instance] wholeFloats

theorem feasibility_exact_apart :
    ∃ r, feasibilityShared apart [lit "c", lit "b", lit "a"] 3 = .ok r ∧
      Exact apart (visit apart [lit "c", lit "b", lit "a"].reverse []).2 3 r :=
  feasibility_exact ⟨apartJson, by decide⟩ apart apart_validated [lit "c", lit "b", lit "a"]
    (by decide) 3

end Concrete

end ResidualHarness.Cic
