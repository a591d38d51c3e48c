import ResidualHarness.Graph.Topological
import Mathlib.Data.Set.Finite.List

/-!
# Resolution in rounds

Keys are resolved in rounds: each adds the keys whose parents have all been resolved, until every key is
resolved or a round adds nothing. Every round that goes on adds a key, so that one round more than
there are keys is enough, and the rounds end with every key exactly when no key is its own ancestor
(`exists_resolveRounds`). What a recursion over the parents may assume of them holds of every key at
depth `xs.length` (`depth_induction`).
-/

set_option autoImplicit false

namespace ResidualHarness.Graph

variable {α κ : Type} (key : α → κ) (parents : α → List κ)

/-- No key is its own ancestor. -/
def NoCycle (xs : List α) : Prop := ∀ k, ¬ Ancestor key parents xs k k

/-- Every parent is a key. -/
def Known (xs : List α) : Prop := ∀ x ∈ xs, parents x ⊆ xs.map key

/-- What has been resolved: distinct keys without an infinite chain of ancestors. -/
structure Resolved (xs : List α) (resolved : List κ) : Prop where
  nodup : resolved.Nodup
  subset : resolved ⊆ xs.map key
  grounded : ∀ k ∈ resolved, Acc (ParentOf key parents xs) k

variable {key parents} {xs : List α} {resolved : List κ}

/-- A key without an infinite chain of ancestors is not its own ancestor. -/
theorem not_ancestor_self {k : κ} (h : Acc (ParentOf key parents xs) k) :
    ¬ Ancestor key parents xs k k := by
  have hacc := h.transGen
  induction hacc with
  | intro k _ ih => exact fun hk => ih k hk h hk

/-- Among some keys of a graph without cycles, one has no parent among them. -/
theorem NoCycle.exists_source (h : NoCycle key parents xs) {us : List κ} (hne : us ≠ []) :
    ∃ v ∈ us, ∀ p ∈ us, ¬ ParentOf key parents xs p v := by
  let below : {k // k ∈ us} → {k // k ∈ us} → Prop := fun a b => Ancestor key parents xs a.1 b.1
  have : Finite {k // k ∈ us} := List.finite_toSet us
  have : IsTrans _ below := ⟨fun _ _ _ hab hbc => hab.trans hbc⟩
  have : Std.Irrefl below := ⟨fun a ha => h a.1 ha⟩
  obtain ⟨k, hk⟩ := List.exists_mem_of_ne_nil us hne
  obtain ⟨v, -, hmin⟩ := (Finite.wellFounded_of_trans_of_irrefl below).has_min Set.univ
    ⟨⟨k, hk⟩, trivial⟩
  exact ⟨v.1, v.2, fun p hp hpv => hmin ⟨p, hp⟩ trivial (Relation.TransGen.single hpv)⟩

theorem Resolved.nil : Resolved key parents xs [] := ⟨List.nodup_nil, by simp, by simp⟩

/-- Once every key is resolved, there is no cycle. -/
theorem Resolved.noCycle (h : Resolved key parents xs resolved)
    (hge : xs.length ≤ resolved.length) : NoCycle key parents xs := by
  have hall := (List.subperm_of_subset h.nodup h.subset).perm_of_length_le (by simpa using hge)
  intro k hk
  obtain ⟨-, -, x, hx, rfl, -⟩ := Relation.TransGen.tail'_iff.1 hk
  exact not_ancestor_self (h.grounded _ (hall.symm.subset (List.mem_map_of_mem hx))) hk

/-- A property with a bound on the depth, which a key has one level above its parents, holds of every
key at a depth of at least the number of keys: the keys on the way down are distinct. -/
theorem depth_induction (hcycle : NoCycle key parents xs) (hknown : Known key parents xs)
    {P : Nat → κ → Prop}
    (step : ∀ n, ∀ x ∈ xs, (∀ p ∈ parents x, P n p) → P (n + 1) (key x)) {n : Nat}
    (hn : xs.length ≤ n) : ∀ k ∈ xs.map key, P n k := by
  -- `path` holds the keys above `k`, all of them descendants of `k`
  have along : ∀ n k, ∀ path : List κ, k ∈ xs.map key → path.Nodup → path ⊆ xs.map key →
      (∀ q ∈ path, Ancestor key parents xs k q) → xs.length ≤ n + path.length → P n k := by
    intro n
    induction n with
    | zero =>
        intro k path hk hnodup hsub hbelow hlen
        have hfresh : k ∉ path := fun hmem => hcycle k (hbelow k hmem)
        have hle := (List.subperm_of_subset (List.nodup_cons.2 ⟨hfresh, hnodup⟩)
          (List.cons_subset.2 ⟨hk, hsub⟩)).length_le
        rw [List.length_cons, List.length_map] at hle
        omega
    | succ n ih =>
        intro k path hk hnodup hsub hbelow hlen
        have hfresh : k ∉ path := fun hmem => hcycle k (hbelow k hmem)
        obtain ⟨x, hx, rfl⟩ := List.mem_map.1 hk
        refine step n x hx fun p hp => ?_
        have hparent : ParentOf key parents xs p (key x) := ⟨x, hx, rfl, hp⟩
        refine ih p (key x :: path) (hknown x hx hp) (List.nodup_cons.2 ⟨hfresh, hnodup⟩)
          (List.cons_subset.2 ⟨hk, hsub⟩) ?_ (by rw [List.length_cons]; omega)
        rintro q (_ | ⟨_, hq⟩)
        · exact Relation.TransGen.single hparent
        · exact Relation.TransGen.head hparent (hbelow q hq)
  intro k hk
  exact along n k [] hk List.nodup_nil (by simp) (by simp) (by simpa using hn)

/-! ## The rounds -/

variable [DecidableEq κ] [BEq κ] [LawfulBEq κ]

variable (key parents) in
/-- The keys whose parents have all been resolved. -/
def readyKeys (xs : List α) (resolved : List κ) : List κ :=
  (xs.filter fun x => parents x ⊆ resolved).map key

variable (key parents) in
/-- The rounds, with a bound on their number: `none` when the bound is too small. -/
def resolveRounds (xs : List α) : Nat → List κ → Option Bool
  | 0, _ => none
  | n + 1, resolved =>
      if resolved.length < xs.length then
        if readyKeys key parents xs resolved ⊆ resolved then some false
        else resolveRounds xs n (resolved ∪ readyKeys key parents xs resolved)
      else some true

omit [BEq κ] [LawfulBEq κ] in
theorem mem_readyKeys {k : κ} :
    k ∈ readyKeys key parents xs resolved ↔ ∃ x ∈ xs, parents x ⊆ resolved ∧ key x = k := by
  simp [readyKeys, and_assoc]

/-- A round resolves keys that have no infinite chain of ancestors, since each key is that of one
node. -/
theorem Resolved.round (h : Resolved key parents xs resolved) (hnd : (xs.map key).Nodup) :
    Resolved key parents xs (resolved ∪ readyKeys key parents xs resolved) where
  nodup := List.Nodup.union _ (hnd.sublist (List.filter_sublist.map key))
  subset := by
    intro k hk
    rcases List.mem_union_iff.1 hk with hk | hk
    · exact h.subset hk
    · obtain ⟨x, hx, -, rfl⟩ := mem_readyKeys.1 hk
      exact List.mem_map_of_mem hx
  grounded := by
    intro k hk
    rcases List.mem_union_iff.1 hk with hk | hk
    · exact h.grounded k hk
    · obtain ⟨x, hx, hparents, rfl⟩ := mem_readyKeys.1 hk
      refine Acc.intro _ ?_
      rintro p ⟨y, hy, hkey, hp⟩
      rw [List.inj_on_of_nodup_map hnd hy hx hkey] at hp
      exact h.grounded p (hparents hp)

/-- A round that goes on resolves at least one key more. -/
theorem Resolved.length_lt (h : Resolved key parents xs resolved)
    (hgrow : ¬ readyKeys key parents xs resolved ⊆ resolved) :
    resolved.length < (resolved ∪ readyKeys key parents xs resolved).length := by
  have hsub : resolved ⊆ resolved ∪ readyKeys key parents xs resolved :=
    fun k hk => List.mem_union_iff.2 (Or.inl hk)
  have hperm := List.subperm_of_subset h.nodup hsub
  refine Nat.lt_of_le_of_ne hperm.length_le fun heq => hgrow fun k hk => ?_
  exact (hperm.perm_of_length_le heq.ge).symm.subset (List.mem_union_iff.2 (Or.inr hk))

/-- Without a cycle a round goes on while keys are left. -/
theorem exists_ready (hcycle : NoCycle key parents xs) (hknown : Known key parents xs)
    (hlt : resolved.length < xs.length) (hnd : (xs.map key).Nodup) :
    ¬ readyKeys key parents xs resolved ⊆ resolved := by
  intro hstuck
  have hleft : (xs.map key).filter (fun k => k ∉ resolved) ≠ [] := by
    intro hnil
    have hall : xs.map key ⊆ resolved := by
      intro k hk
      by_contra hout
      have hmem : k ∈ (xs.map key).filter (fun k => k ∉ resolved) :=
        List.mem_filter.2 ⟨hk, decide_eq_true hout⟩
      rw [hnil] at hmem
      exact List.not_mem_nil hmem
    have hle := (List.subperm_of_subset hnd hall).length_le
    rw [List.length_map] at hle
    omega
  obtain ⟨v, hv, hsource⟩ := hcycle.exists_source hleft
  obtain ⟨hmem, hout⟩ := List.mem_filter.1 hv
  obtain ⟨x, hx, rfl⟩ := List.mem_map.1 hmem
  refine of_decide_eq_true hout (hstuck (mem_readyKeys.2 ⟨x, hx, fun p hp => ?_, rfl⟩))
  by_contra hp'
  exact hsource p (List.mem_filter.2 ⟨hknown x hx hp, decide_eq_true hp'⟩) ⟨x, hx, rfl, hp⟩

/-- The rounds end, and they end with every key exactly when there is no cycle. -/
theorem Resolved.exists_resolveRounds (h : Resolved key parents xs resolved)
    (hnd : (xs.map key).Nodup) (hknown : Known key parents xs) {fuel : Nat}
    (hfuel : xs.length < fuel + resolved.length) :
    ∃ b, resolveRounds key parents xs fuel resolved = some b ∧ (b = true ↔ NoCycle key parents xs) := by
  induction fuel generalizing resolved with
  | zero =>
      have hle := (List.subperm_of_subset h.nodup h.subset).length_le
      rw [List.length_map] at hle
      omega
  | succ fuel ih =>
      rw [resolveRounds]
      by_cases hlt : resolved.length < xs.length
      · rw [if_pos hlt]
        by_cases hstuck : readyKeys key parents xs resolved ⊆ resolved
        · refine ⟨false, if_pos hstuck, ?_⟩
          exact ⟨nofun, fun hcycle => absurd hstuck (exists_ready hcycle hknown hlt hnd)⟩
        · rw [if_neg hstuck]
          have hmore := h.length_lt hstuck
          exact ih (h.round hnd) (by omega)
      · exact ⟨true, if_neg hlt, iff_of_true rfl (h.noCycle (not_lt.1 hlt))⟩

/-- The rounds that start with nothing resolved. -/
theorem exists_resolveRounds (hnd : (xs.map key).Nodup) (hknown : Known key parents xs) {fuel : Nat}
    (hfuel : xs.length < fuel) :
    ∃ b, resolveRounds key parents xs fuel [] = some b ∧ (b = true ↔ NoCycle key parents xs) :=
  Resolved.nil.exists_resolveRounds hnd hknown (by simpa using hfuel)

end ResidualHarness.Graph
