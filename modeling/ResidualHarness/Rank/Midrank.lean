import Mathlib.Algebra.BigOperators.Ring.List
import Mathlib.Data.List.TakeWhile
import Mathlib.Tactic.Linarith
import Mathlib.Tactic.LinearCombination
import Mathlib.Tactic.Ring

/-!
# Mid-ranks and pair counts

The number of pairs of two samples in which the first value is greater, with ties counted one half,
and the mid-rank of a value in a list. The mid-ranks of a sample in the union of two samples sum up
to its pair count and a term that depends on its size only (`sum_midrank`). The tie term is largest
when all values are equal (`tieTerm_le`).
-/

set_option autoImplicit false

namespace ResidualHarness.Rank

variable {α : Type} [LinearOrder α]

/-! ## Pairs -/

/-- A pair of values: one if the first is greater, one half if they are equal. -/
def weight (a b : α) : ℚ := if b < a then 1 else if a = b then 1 / 2 else 0

/-- The pairs of two samples, by their weights. -/
def pairCount (xs ys : List α) : ℚ := (xs.map fun a => (ys.map (weight a)).sum).sum

/-- The mid-rank of a value in a list. -/
def midrank (all : List α) (a : α) : ℚ := (all.map (weight a)).sum + 1 / 2

theorem weight_add_weight (a b : α) : weight a b + weight b a = 1 := by
  unfold weight
  rcases lt_trichotomy a b with h | rfl | h
  · rw [if_neg h.asymm, if_neg h.ne, if_pos h, zero_add]
  · rw [if_neg (lt_irrefl a), if_pos rfl]
    norm_num
  · rw [if_pos h, if_neg h.asymm, if_neg h.ne, add_zero]

theorem weight_map {β : Type} [LinearOrder β] {f : α → β} (hf : StrictMono f) (a b : α) :
    weight (f a) (f b) = weight a b := by
  unfold weight
  rw [if_congr hf.lt_iff_lt rfl (if_congr hf.injective.eq_iff rfl rfl)]

theorem pairCount_cons_left (x : α) (xs ys : List α) :
    pairCount (x :: xs) ys = (ys.map (weight x)).sum + pairCount xs ys := by
  rw [pairCount, List.map_cons, List.sum_cons, pairCount]

theorem pairCount_cons_right (xs : List α) (y : α) (ys : List α) :
    pairCount xs (y :: ys) = (xs.map fun a => weight a y).sum + pairCount xs ys := by
  simp only [pairCount, List.map_cons, List.sum_cons, List.sum_map_add]

theorem pairCount_append_right (xs ys zs : List α) :
    pairCount xs (ys ++ zs) = pairCount xs ys + pairCount xs zs := by
  simp only [pairCount, List.map_append, List.sum_append, List.sum_map_add]

theorem sum_weight_add (x : α) (ys : List α) :
    (ys.map (weight x)).sum + (ys.map fun b => weight b x).sum = ys.length := by
  rw [← List.sum_map_add]
  induction ys with
  | nil => rfl
  | cons y ys ih =>
      rw [List.map_cons, List.sum_cons, ih, weight_add_weight, List.length_cons, Nat.cast_succ,
        add_comm]

theorem pairCount_add_swap (xs ys : List α) :
    pairCount xs ys + pairCount ys xs = xs.length * ys.length := by
  induction xs with
  | nil =>
      rw [List.length_nil, Nat.cast_zero, zero_mul]
      induction ys with
      | nil => exact add_zero _
      | cons y ys ih =>
          rw [pairCount_cons_left, pairCount_cons_right, List.map_nil, List.map_nil, List.sum_nil,
            zero_add, zero_add]
          exact ih
  | cons x xs ih =>
      have hx := sum_weight_add x ys
      rw [pairCount_cons_left, pairCount_cons_right, List.length_cons, Nat.cast_succ]
      linear_combination ih + hx

theorem pairCount_perm {xs xs' ys ys' : List α} (hx : xs.Perm xs') (hy : ys.Perm ys') :
    pairCount xs ys = pairCount xs' ys' := by
  have hrow : ∀ a, (ys.map (weight a)).sum = (ys'.map (weight a)).sum := fun a =>
    (hy.map _).sum_eq
  simp only [pairCount, hrow]
  exact (hx.map _).sum_eq

theorem pairCount_map {β : Type} [LinearOrder β] {f : α → β} (hf : StrictMono f) (xs ys : List α) :
    pairCount (xs.map f) (ys.map f) = pairCount xs ys := by
  simp only [pairCount, List.map_map, Function.comp_def, weight_map hf]

theorem midrank_perm {all all' : List α} (h : all.Perm all') (a : α) :
    midrank all a = midrank all' a := by
  rw [midrank, midrank, (h.map _).sum_eq]

/-- The mid-ranks of a sample in two samples. -/
theorem sum_midrank (xs ys : List α) : (xs.map (midrank (xs ++ ys))).sum =
    pairCount xs ys + (xs.length : ℚ) * (xs.length + 1) / 2 := by
  have hself := pairCount_add_swap xs xs
  have hhalf : (xs.map fun _ => (1 / 2 : ℚ)).sum = xs.length / 2 := by
    rw [List.map_const', List.sum_replicate, nsmul_eq_mul]
    ring
  have hsum : (xs.map (midrank (xs ++ ys))).sum = pairCount xs (xs ++ ys) + xs.length / 2 := by
    rw [← hhalf, pairCount, ← List.sum_map_add]
    rfl
  rw [hsum, pairCount_append_right]
  linear_combination hself / 2

/-! ## Runs -/

/-- The values before, a run of equal values, and the values after. -/
theorem midrank_run {pre run post : List α} {v : α} (hpre : ∀ a ∈ pre, a < v)
    (hrun : ∀ a ∈ run, a = v) (hpost : ∀ a ∈ post, v < a) :
    midrank (pre ++ (run ++ post)) v = pre.length + (run.length : ℚ) / 2 + 1 / 2 := by
  have hconst : ∀ (l : List α) (c : ℚ), (∀ a ∈ l, weight v a = c) →
      (l.map (weight v)).sum = l.length * c := by
    intro l c h
    rw [List.map_congr_left h, List.map_const', List.sum_replicate, nsmul_eq_mul]
  have h₁ := hconst pre 1 fun a ha => if_pos (hpre a ha)
  have h₂ := hconst run (1 / 2) fun a ha => by
    rw [hrun a ha, weight, if_neg (lt_irrefl v), if_pos rfl]
  have h₃ := hconst post 0 fun a ha => by
    rw [weight, if_neg (hpost a ha).asymm, if_neg (hpost a ha).ne]
  rw [midrank, List.map_append, List.map_append, List.sum_append, List.sum_append, h₁, h₂, h₃]
  ring

/-- The lengths of the runs of equal values. -/
def runSizes : List α → List Nat
  | [] => []
  | x :: xs => ((xs.takeWhile fun y => y = x).length + 1) :: runSizes (xs.dropWhile fun y => y = x)
termination_by xs => xs.length
decreasing_by
  exact Nat.lt_succ_of_le (List.dropWhile_sublist _).length_le

theorem runSizes_pos (xs : List α) : ∀ t ∈ runSizes xs, 0 < t := by
  induction xs using runSizes.induct with
  | case1 => rw [runSizes]; exact nofun
  | case2 x xs ih =>
      rw [runSizes]
      intro t ht
      rcases List.mem_cons.1 ht with rfl | ht
      · exact Nat.succ_pos _
      · exact ih t ht

theorem sum_runSizes (xs : List α) : (runSizes xs).sum = xs.length := by
  induction xs using runSizes.induct with
  | case1 => rw [runSizes]; rfl
  | case2 x xs ih =>
      have hsplit := congrArg List.length
        (List.takeWhile_append_dropWhile (p := fun y => y = x) (l := xs))
      rw [List.length_append] at hsplit
      rw [runSizes, List.sum_cons, ih, List.length_cons]
      omega

theorem length_runSizes_le_one {xs : List α} :
    (runSizes xs).length ≤ 1 ↔ ∀ a ∈ xs, ∀ b ∈ xs, a = b := by
  cases xs with
  | nil =>
      rw [runSizes]
      exact ⟨fun _ => nofun, fun _ => Nat.zero_le _⟩
  | cons x xs =>
      have hnil : (runSizes (x :: xs)).length ≤ 1 ↔ xs.dropWhile (fun y => y = x) = [] := by
        rw [runSizes, List.length_cons]
        cases xs.dropWhile fun y => decide (y = x) with
        | nil => rw [runSizes]; simp
        | cons y ys => rw [runSizes]; simp
      rw [hnil, List.dropWhile_eq_nil_iff]
      constructor
      · intro h a ha b hb
        have heq : ∀ c ∈ x :: xs, c = x := by
          intro c hc
          rcases List.mem_cons.1 hc with rfl | hc
          · rfl
          · exact of_decide_eq_true (h c hc)
        rw [heq a ha, heq b hb]
      · intro h a ha
        exact decide_eq_true (h a (List.mem_cons_of_mem _ ha) x List.mem_cons_self)

/-! ## The tie term -/

/-- `sum(t ** 3 - t for t in ts)`. -/
def tieTerm (ts : List Nat) : ℚ := (ts.map fun t : Nat => (t : ℚ) ^ 3 - t).sum

theorem tieTerm_cons (t : Nat) (ts : List Nat) :
    tieTerm (t :: ts) = ((t : ℚ) ^ 3 - t) + tieTerm ts := by
  rw [tieTerm, List.map_cons, List.sum_cons, tieTerm]

/-- Runs of length one do not count. -/
theorem tieTerm_filter {ts : List Nat} (h : ∀ t ∈ ts, 0 < t) :
    tieTerm (ts.filter fun t => 1 < t) = tieTerm ts := by
  induction ts with
  | nil => rfl
  | cons t ts ih =>
      have hts := ih fun u hu => h u (List.mem_cons_of_mem _ hu)
      rw [List.filter_cons]
      split
      · rw [tieTerm_cons, tieTerm_cons, hts]
      · rename_i hle
        have hone : t = 1 := by
          have hpos := h t List.mem_cons_self
          simp only [decide_eq_true_eq] at hle
          omega
        rw [tieTerm_cons, hts, hone]
        norm_num

theorem cube_add_lt {a b : ℚ} (ha : 0 < a) (hb : 0 < b) :
    (a ^ 3 - a) + (b ^ 3 - b) < (a + b) ^ 3 - (a + b) := by
  have hpos : 0 < 3 * (a * b) * (a + b) := by positivity
  linear_combination hpos

theorem tieTerm_le {ts : List Nat} (h : ∀ t ∈ ts, 0 < t) :
    tieTerm ts ≤ (ts.sum : ℚ) ^ 3 - ts.sum ∧
      (tieTerm ts = (ts.sum : ℚ) ^ 3 - ts.sum ↔ ts.length ≤ 1) := by
  induction ts with
  | nil => simp [tieTerm]
  | cons t ts ih =>
      obtain ⟨hle, -⟩ := ih fun u hu => h u (List.mem_cons_of_mem _ hu)
      rw [tieTerm_cons, List.sum_cons, Nat.cast_add]
      cases ts with
      | nil => simp [tieTerm]
      | cons u us =>
          have ht : (0 : ℚ) < t := Nat.cast_pos.2 (h t List.mem_cons_self)
          have hs : (0 : ℚ) < ((u :: us).sum : Nat) := by
            refine Nat.cast_pos.2 ?_
            rw [List.sum_cons]
            exact Nat.add_pos_left (h u (by simp)) _
          have hlt := cube_add_lt ht hs
          refine ⟨by linarith, ⟨fun heq => absurd heq (by linarith), fun hlen => ?_⟩⟩
          rw [List.length_cons, List.length_cons] at hlen
          omega

end ResidualHarness.Rank
