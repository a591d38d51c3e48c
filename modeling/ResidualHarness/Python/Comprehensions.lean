import Mathlib.Algebra.BigOperators.Group.List.Basic
import Mathlib.Data.List.Sort
import ResidualHarness.Python.Loops

/-!
# Comprehensions that do not raise

Where every element expression returns, a comprehension is the map or the filter of its values. Sums
over the classes of a key add up to the sum over the list (`sum_classes`). What `sorted` returns for
distinct keys does not depend on the order of the list (`sorted_congr`).
-/

set_option autoImplicit false

namespace ResidualHarness.Python

variable {ε α β γ : Type}

theorem mapE_eq_map {f : α → Except ε β} {k : α → β} {l : List α} (h : ∀ a ∈ l, f a = .ok (k a)) :
    mapE f l = .ok (l.map k) := by
  induction l with
  | nil => rfl
  | cons a l ih =>
      rw [mapE, h a List.mem_cons_self, ih fun x hx => h x (List.mem_cons_of_mem _ hx)]
      rfl

theorem mapE_map {f : β → Except ε γ} {g : α → β} {k : α → γ} {l : List α}
    (h : ∀ a ∈ l, f (g a) = .ok (k a)) : mapE f (l.map g) = .ok (l.map k) := by
  induction l with
  | nil => rfl
  | cons a l ih =>
      rw [List.map_cons, mapE, h a List.mem_cons_self, ih fun x hx => h x (List.mem_cons_of_mem _ hx)]
      rfl

theorem filterE_map {p : β → Except ε Bool} {g : α → β} {q : α → Bool} {l : List α}
    (h : ∀ a ∈ l, p (g a) = .ok (q a)) : filterE p (l.map g) = .ok ((l.filter q).map g) := by
  induction l with
  | nil => rfl
  | cons a l ih =>
      rw [List.map_cons, filterE, h a List.mem_cons_self,
        ih fun x hx => h x (List.mem_cons_of_mem _ hx), List.filter_cons]
      cases q a <;> rfl

/-- An element expression that raises makes the comprehension raise. -/
theorem mapE_error {f : α → Except ε β} {l : List α} {a : α} {e : ε} (ha : a ∈ l)
    (h : f a = .error e) : ∃ e', mapE f l = .error e' := by
  cases hl : mapE f l with
  | error e' => exact ⟨e', rfl⟩
  | ok l' =>
      obtain ⟨b, -, hb⟩ := mem_zip_of_mapE hl ha
      rw [h] at hb
      cases hb

theorem bind_eq_error {x : Except ε α} {f : α → Except ε β} {e : ε} :
    (x >>= f) = .error e ↔ x = .error e ∨ ∃ a, x = .ok a ∧ f a = .error e := by
  cases x with
  | error y => exact ⟨fun h => .inl (congrArg Except.error (Except.error.inj h)), fun h => by
      rcases h with h | ⟨_, h, _⟩
      · exact congrArg Except.error (Except.error.inj h)
      · cases h⟩
  | ok a => exact ⟨fun h => .inr ⟨a, rfl, h⟩, fun h => by
      rcases h with h | ⟨_, h, hf⟩
      · cases h
      · cases h
        exact hf⟩

theorem require_eq_error {p : Prop} [Decidable p] {x e : ε} (h : require p x = .error e) : e = x := by
  rw [require] at h
  split at h
  · cases h
  · exact (Except.error.inj h).symm

/-- The exception of a comprehension is one of an element expression. -/
theorem error_of_mapE {f : α → Except ε β} {l : List α} {e : ε} (h : mapE f l = .error e) :
    ∃ a ∈ l, f a = .error e := by
  induction l with
  | nil => cases h
  | cons a l ih =>
      rw [mapE] at h
      cases ha : f a with
      | error e' =>
          rw [ha] at h
          cases h
          exact ⟨a, List.mem_cons_self, ha⟩
      | ok b =>
          cases hl : mapE f l with
          | error e' =>
              rw [ha, hl] at h
              cases h
              obtain ⟨x, hx, hfx⟩ := ih hl
              exact ⟨x, List.mem_cons_of_mem _ hx, hfx⟩
          | ok bs =>
              rw [ha, hl] at h
              cases h

section Sorted

variable {κ : Type} [LinearOrder κ] (key : α → κ)

theorem pairwise_sorted (xs : List α) :
    (xs.insertionSort fun a b => key a ≤ key b).Pairwise fun a b => key a ≤ key b := by
  have : Std.Total fun a b : α => key a ≤ key b := ⟨fun a b => le_total (key a) (key b)⟩
  have : IsTrans α fun a b => key a ≤ key b := ⟨fun _ _ _ h₁ h₂ => le_trans h₁ h₂⟩
  exact List.pairwise_insertionSort _ xs

theorem sorted_congr {xs ys : List α} (h : xs.Perm ys) (hnd : (ys.map key).Nodup) :
    (xs.insertionSort fun a b => key a ≤ key b) = ys.insertionSort fun a b => key a ≤ key b := by
  have hperm := ((List.perm_insertionSort (fun a b => key a ≤ key b) xs).trans h).trans
    (List.perm_insertionSort (fun a b => key a ≤ key b) ys).symm
  refine hperm.eq_of_pairwise ?_ (pairwise_sorted key xs) (pairwise_sorted key ys)
  intro a b ha hb hab hba
  exact List.inj_on_of_nodup_map hnd (h.mem_iff.1 ((List.mem_insertionSort _).1 ha))
    ((List.mem_insertionSort _).1 hb) (le_antisymm hab hba)

end Sorted

section Sums

variable {κ M : Type} [DecidableEq κ] [AddCommMonoid M] {ks : List κ}

theorem sum_ite_mem (hks : ks.Nodup) {x : κ} (hx : x ∈ ks) (v : M) :
    (ks.map fun k => if x = k then v else 0).sum = v := by
  induction ks with
  | nil => cases hx
  | cons k ks ih =>
      obtain ⟨hk, hks⟩ := List.nodup_cons.1 hks
      rw [List.map_cons, List.sum_cons]
      by_cases hxk : x = k
      · have hzero : (ks.map fun k => if x = k then v else 0).sum = 0 := by
          refine List.sum_eq_zero fun w hw => ?_
          obtain ⟨k', hk', rfl⟩ := List.mem_map.1 hw
          exact if_neg fun he => hk (by rw [← hxk, he]; exact hk')
        rw [if_pos hxk, hzero, add_zero]
      · rw [if_neg hxk, zero_add, ih hks ((List.mem_cons.1 hx).resolve_left hxk)]

theorem sum_classes (hks : ks.Nodup) (key : α → κ) (f : α → M) {l : List α} (hl : ∀ a ∈ l, key a ∈ ks) :
    (ks.map fun k => ((l.filter fun a => decide (key a = k)).map f).sum).sum = (l.map f).sum := by
  induction l with
  | nil => simp
  | cons a l ih =>
      have hone := sum_ite_mem hks (hl a List.mem_cons_self) (f a)
      have hsplit : ∀ k, (((a :: l).filter fun x => decide (key x = k)).map f).sum =
          (if key a = k then f a else 0) + ((l.filter fun x => decide (key x = k)).map f).sum := by
        intro k
        by_cases hk : key a = k <;> simp [hk]
      simp only [hsplit, List.sum_map_add, hone, List.map_cons, List.sum_cons,
        ih fun x hx => hl x (List.mem_cons_of_mem _ hx)]

end Sums

end ResidualHarness.Python
