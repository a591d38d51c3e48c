import ResidualHarness.Python.Dict
import ResidualHarness.Python.Text
import ResidualHarness.Rank.Midrank
import Mathlib.Data.Prod.Lex

/-!
# Rank statistic and multiplicity correction

`mann_whitney_u` and `holm_bonferroni` of `residual/eval/stats.py` over the rationals. The loop over
the sorted observations gives every value its mid-rank (`rankLoop_eq`), so that the statistic counts
pairs; the running maximum of the adjusted p-values stops where the step-down procedure stops.
-/

set_option autoImplicit false

namespace ResidualHarness.Eval

open Python Rank

/-! ## The rank test -/

/-- `math.sqrt` and the normal distribution function. -/
structure RealFunctions where
  sqrt : ℚ → ℚ
  normalCdf : ℚ → ℚ
  sqrt_pos : ∀ a, 0 < a → 0 < sqrt a

/-- `math.sqrt(a)`. -/
def RealFunctions.root (f : RealFunctions) (a : ℚ) : Except PyExn ℚ :=
  if a < 0 then .error (.valueError "math domain error") else .ok (f.sqrt a)

/-- `a / b`. -/
def quotient (a b : ℚ) : Except PyExn ℚ :=
  if b = 0 then .error (.runtimeError "ZeroDivisionError" "float division by zero") else .ok (a / b)

/-- The observations of both samples, each with its group, sorted by value. -/
def combined (x y : List ℚ) : List (ℚ × Nat) :=
  (x.map (fun v => (v, 0)) ++ y.map fun v => (v, 1)).insertionSort fun p q => p.1 ≤ q.1

/-- `combined[k][0]`. -/
def valueAt (items : List (ℚ × Nat)) (k : Nat) : Option ℚ := items[k]?.map Prod.fst

/-- The inner loop: the last position after `j` that is tied with position `i`. -/
def lastTied (items : List (ℚ × Nat)) (i j : Nat) : Nat :=
  if j + 1 < items.length ∧ valueAt items (j + 1) = valueAt items i then lastTied items i (j + 1)
  else j
termination_by items.length - j

theorem le_lastTied (items : List (ℚ × Nat)) (i j : Nat) : j ≤ lastTied items i j := by
  induction j using lastTied.induct items i with
  | case1 j hcond ih =>
      rw [lastTied, if_pos hcond]
      omega
  | case2 j hcond => rw [lastTied, if_neg hcond]

/-- The outer loop from position `i`, with the ranks before it and the sizes of the ties. -/
def rankLoop (items : List (ℚ × Nat)) (i : Nat) (ranks : List ℚ) (tieCounts : List Nat) :
    List ℚ × List Nat :=
  if i < items.length then
    let j := lastTied items i i
    rankLoop items (j + 1) (ranks ++ List.replicate (j + 1 - i) (((i + j : Nat) : ℚ) / 2 + 1))
      (if i < j then tieCounts ++ [j - i + 1] else tieCounts)
  else (ranks, tieCounts)
termination_by items.length - i
decreasing_by
  have hle := le_lastTied items i i
  omega

/-- `rank_sum_x`. -/
def rankSum (ranks : List ℚ) (items : List (ℚ × Nat)) : ℚ :=
  (((ranks.zip items).filter fun t => t.2.2 = 0).map Prod.fst).sum

/-- `var_u`. -/
def varU (n1 n2 : Nat) (tieCounts : List Nat) : Except PyExn ℚ := do
  let n : ℚ := n1 + n2
  let factor ← if 1 < n1 + n2 then do
      let ties ← quotient (tieTerm tieCounts) (n * (n - 1))
      pure ((n + 1) - ties)
    else pure 0
  return (n1 * n2 / 12) * factor

/-- `mann_whitney_u(x, y)`. -/
def mannWhitneyU (f : RealFunctions) (x y : List ℚ) : Except PyExn (ℚ × ℚ) := do
  let n1 := x.length
  let n2 := y.length
  if n1 < 1 ∨ n2 < 1 then
    throw (.valueError "mann_whitney_u requires non-empty samples")
  else
    let items := combined x y
    let ranked := rankLoop items 0 [] []
    let u1 := rankSum ranked.1 items - (n1 : ℚ) * (n1 + 1) / 2
    let u2 := (n1 : ℚ) * n2 - u1
    let u := min u1 u2
    let meanU := (n1 : ℚ) * n2 / 2
    let var ← varU n1 n2 ranked.2
    if var ≤ 0 then return (u, 1)
    else
      let root ← f.root var
      let z ← quotient (u - meanU + 1 / 2) root
      return (u, max 0 (min 1 (2 * f.normalCdf z)))

/-! ## The loop over the ranks -/

theorem lastTied_run (pre : List (ℚ × Nat)) {run post : List (ℚ × Nat)} {x : ℚ × Nat}
    (hrun : ∀ p ∈ run, p.1 = x.1) (hpost : ∀ p ∈ post.head?, p.1 ≠ x.1) {m : Nat}
    (hm : m ≤ run.length) :
    lastTied (pre ++ x :: (run ++ post)) pre.length (pre.length + m) = pre.length + run.length := by
  have hstart : valueAt (pre ++ x :: (run ++ post)) pre.length = some x.1 := by
    rw [valueAt, List.getElem?_append_right le_rfl, Nat.sub_self]
    rfl
  have hnext : ∀ k, valueAt (pre ++ x :: (run ++ post)) (pre.length + k + 1) =
      ((run ++ post)[k]?).map Prod.fst := by
    intro k
    rw [valueAt, List.getElem?_append_right (by omega)]
    have hk : pre.length + k + 1 - pre.length = k + 1 := by omega
    rw [hk, List.getElem?_cons_succ]
  obtain ⟨d, hd⟩ := Nat.exists_eq_add_of_le hm
  induction d generalizing m with
  | zero =>
      have hlen : m = run.length := by omega
      rw [lastTied, if_neg, hlen]
      rintro ⟨-, heq⟩
      rw [hstart, hnext, hlen, List.getElem?_append_right le_rfl, Nat.sub_self] at heq
      obtain ⟨p, hp, hx⟩ := Option.map_eq_some_iff.1 heq
      rw [← List.head?_eq_getElem?] at hp
      exact hpost p hp hx
  | succ d ih =>
      have hlt : m < run.length := by omega
      rw [lastTied, if_pos]
      · exact ih (m := m + 1) (by omega) (by omega)
      · refine ⟨by simp; omega, ?_⟩
        rw [hstart, hnext, List.getElem?_append_left hlt, List.getElem?_eq_getElem hlt]
        exact congrArg some (hrun _ (List.getElem_mem hlt))

/-- A sorted list whose first value is not the least one of all starts above it. -/
theorem greater_of_head {l : List (ℚ × Nat)} {v : ℚ} (hsorted : l.Pairwise fun p q => p.1 ≤ q.1)
    (hle : ∀ p ∈ l, v ≤ p.1) (hhead : ∀ p ∈ l.head?, p.1 ≠ v) : ∀ p ∈ l, v < p.1 := by
  cases l with
  | nil => exact fun p hp => absurd hp List.not_mem_nil
  | cons y l =>
      have hy : v < y.1 := lt_of_le_of_ne (hle y List.mem_cons_self) (hhead y rfl).symm
      intro p hp
      rcases List.mem_cons.1 hp with rfl | hp
      · exact hy
      · exact hy.trans_le ((List.pairwise_cons.1 hsorted).1 p hp)

/-- The loop gives every observation its mid-rank, and the sizes of the runs of more than one. -/
theorem rankLoop_eq (n : Nat) (pre rest : List (ℚ × Nat)) (ranks : List ℚ) (tieCounts : List Nat)
    (hn : rest.length = n) (hsorted : rest.Pairwise fun p q => p.1 ≤ q.1)
    (hlt : ∀ p ∈ pre, ∀ q ∈ rest, p.1 < q.1) :
    rankLoop (pre ++ rest) pre.length ranks tieCounts =
      (ranks ++ rest.map fun p => midrank ((pre ++ rest).map Prod.fst) p.1,
        tieCounts ++ (runSizes (rest.map Prod.fst)).filter fun t => 1 < t) := by
  induction n using Nat.strong_induction_on generalizing pre rest ranks tieCounts with
  | _ n ih =>
  cases rest with
  | nil =>
      rw [rankLoop, if_neg (by simp), List.map_nil, List.map_nil, runSizes]
      simp
  | cons x tl =>
      obtain ⟨run, hrunDef⟩ : ∃ run, run = tl.takeWhile fun p => p.1 = x.1 := ⟨_, rfl⟩
      obtain ⟨post, hpostDef⟩ : ∃ post, post = tl.dropWhile fun p => p.1 = x.1 := ⟨_, rfl⟩
      have htl : tl = run ++ post := by
        rw [hrunDef, hpostDef, List.takeWhile_append_dropWhile]
      have hrun : ∀ p ∈ run, p.1 = x.1 := by
        intro p hp
        rw [hrunDef] at hp
        simpa using List.mem_takeWhile_imp hp
      have hhead : ∀ p ∈ post.head?, p.1 ≠ x.1 := by
        intro p hp
        have hnot := List.head?_dropWhile_not (fun p : ℚ × Nat => decide (p.1 = x.1)) tl
        rw [← hpostDef, Option.mem_def.1 hp] at hnot
        exact of_decide_eq_false hnot
      obtain ⟨hxtl, htlsorted⟩ := List.pairwise_cons.1 hsorted
      rw [htl] at hxtl htlsorted
      have hpostsorted := (List.pairwise_append.1 htlsorted).2.1
      have hpost : ∀ p ∈ post, x.1 < p.1 := greater_of_head hpostsorted
        (fun p hp => hxtl p (List.mem_append_right _ hp)) hhead
      -- the loop takes the first value and the values that are tied with it
      have hlast := lastTied_run pre hrun hhead (Nat.zero_le _)
      rw [Nat.add_zero] at hlast
      subst htl
      have hrest : pre ++ x :: (run ++ post) = (pre ++ x :: run) ++ post := by
        rw [List.append_assoc, List.cons_append]
      have hlen : pre.length + run.length + 1 = (pre ++ x :: run).length := by
        rw [List.length_append, List.length_cons, Nat.add_assoc]
      have hcount : pre.length + run.length + 1 - pre.length = (x :: run).length := by
        rw [List.length_cons]
        omega
      rw [rankLoop, if_pos (by simp)]
      dsimp only
      have hless : post.length < n := by
        rw [List.length_cons, List.length_append] at hn
        omega
      rw [hlast, hcount, hrest, hlen, ih post.length hless _ _ _ _ rfl hpostsorted ?_]
      · have hmid : ∀ p ∈ x :: run, midrank ((pre ++ x :: run ++ post).map Prod.fst) p.1 =
            ((pre.length + (pre.length + run.length) : Nat) : ℚ) / 2 + 1 := by
          intro p hp
          have hpx : p.1 = x.1 := by
            rcases List.mem_cons.1 hp with rfl | hp
            · rfl
            · exact hrun p hp
          rw [hpx, List.append_assoc, List.map_append, List.map_append, midrank_run]
          · simp only [List.length_map, List.length_cons]
            push_cast
            ring
          · intro a ha
            obtain ⟨q, hq, rfl⟩ := List.mem_map.1 ha
            exact hlt q hq x List.mem_cons_self
          · intro a ha
            obtain ⟨q, hq, rfl⟩ := List.mem_map.1 ha
            rcases List.mem_cons.1 hq with rfl | hq
            · rfl
            · exact hrun q hq
          · intro a ha
            obtain ⟨q, hq, rfl⟩ := List.mem_map.1 ha
            exact hpost q hq
        have hvalues : (x :: run ++ post).map
            (fun p => midrank ((pre ++ x :: run ++ post).map Prod.fst) p.1) =
            List.replicate (x :: run).length
              (((pre.length + (pre.length + run.length) : Nat) : ℚ) / 2 + 1) ++
              post.map fun p => midrank ((pre ++ x :: run ++ post).map Prod.fst) p.1 := by
          rw [List.map_append, List.map_congr_left hmid, List.map_const']
        rw [← List.cons_append, hvalues, List.append_assoc]
        refine Prod.ext rfl ?_
        have hsizes : runSizes ((x :: run ++ post).map Prod.fst) =
            (x :: run).length :: runSizes (post.map Prod.fst) := by
          rw [List.cons_append, List.map_cons, runSizes, List.takeWhile_map, List.dropWhile_map,
            List.length_map]
          change (((run ++ post).takeWhile fun p => decide (p.1 = x.1)).length + 1) ::
            runSizes (((run ++ post).dropWhile fun p => decide (p.1 = x.1)).map Prod.fst) = _
          rw [← hrunDef, ← hpostDef, List.length_cons]
        rw [hsizes, List.filter_cons]
        by_cases hone : 1 < (x :: run).length
        · have hij : pre.length < pre.length + run.length := by
            rw [List.length_cons] at hone
            omega
          rw [if_pos hij, if_pos (decide_eq_true hone), List.length_cons, Nat.add_sub_cancel_left,
            List.append_assoc tieCounts]
          rfl
        · have hij : ¬ pre.length < pre.length + run.length := by
            rw [List.length_cons] at hone
            omega
          rw [if_neg hij, if_neg (by simpa using hone)]
      · intro p hp q hq
        rcases List.mem_append.1 hp with hp | hp
        · exact hlt p hp q (List.mem_cons_of_mem _ (List.mem_append_right _ hq))
        · rcases List.mem_cons.1 hp with rfl | hp
          · exact hpost q hq
          · rw [hrun p hp]
            exact hpost q hq

theorem combined_perm (x y : List ℚ) :
    (combined x y).Perm (x.map (fun v => (v, 0)) ++ y.map fun v => (v, 1)) :=
  List.perm_insertionSort _ _

theorem combined_sorted (x y : List ℚ) : (combined x y).Pairwise fun p q => p.1 ≤ q.1 := by
  have : Std.Total fun p q : ℚ × Nat => p.1 ≤ q.1 := ⟨fun p q => le_total p.1 q.1⟩
  have : IsTrans (ℚ × Nat) fun p q => p.1 ≤ q.1 := ⟨fun _ _ _ => le_trans⟩
  exact List.pairwise_insertionSort _ _

theorem combined_values (x y : List ℚ) : ((combined x y).map Prod.fst).Perm (x ++ y) := by
  refine ((combined_perm x y).map Prod.fst).trans (.of_eq ?_)
  simp only [List.map_append, List.map_map, Function.comp_def, List.map_id']

theorem length_combined (x y : List ℚ) : (combined x y).length = x.length + y.length := by
  rw [(combined_perm x y).length_eq, List.length_append, List.length_map, List.length_map]

theorem rankLoop_combined (x y : List ℚ) : rankLoop (combined x y) 0 [] [] =
    ((combined x y).map fun p => midrank (x ++ y) p.1,
      (runSizes ((combined x y).map Prod.fst)).filter fun t => 1 < t) := by
  have h := rankLoop_eq _ [] (combined x y) [] [] rfl (combined_sorted x y)
    fun p hp => absurd hp List.not_mem_nil
  rw [List.nil_append, List.nil_append, List.nil_append, List.length_nil] at h
  rw [h]
  exact Prod.ext (List.map_congr_left fun p _ => midrank_perm (combined_values x y) p.1) rfl

/-- The rank sum of the first sample, without its least value, counts the pairs. -/
theorem rankSum_combined (x y : List ℚ) :
    rankSum ((combined x y).map fun p => midrank (x ++ y) p.1) (combined x y) =
      pairCount x y + (x.length : ℚ) * (x.length + 1) / 2 := by
  have hzip : ∀ l : List (ℚ × Nat), rankSum (l.map fun p => midrank (x ++ y) p.1) l =
      ((l.filter fun p => p.2 = 0).map fun p => midrank (x ++ y) p.1).sum := by
    intro l
    rw [rankSum]
    congr 1
    induction l with
    | nil => rfl
    | cons p l ih =>
        rw [List.map_cons, List.zip_cons_cons, List.filter_cons, List.filter_cons]
        split
        · rw [List.map_cons, List.map_cons, ih]
        · exact ih
  have hfilter : ((x.map (fun v => (v, 0)) ++ y.map fun v => (v, 1)).filter
      fun p : ℚ × Nat => p.2 = 0) = x.map fun v => (v, 0) := by
    rw [List.filter_append, List.filter_eq_self.2, List.filter_eq_nil_iff.2, List.append_nil]
    · intro p hp
      obtain ⟨v, -, rfl⟩ := List.mem_map.1 hp
      exact nofun
    · intro p hp
      obtain ⟨v, -, rfl⟩ := List.mem_map.1 hp
      rfl
  have hperm := (((combined_perm x y).filter fun p => p.2 = 0).map
    fun p => midrank (x ++ y) p.1).sum_eq
  rw [hzip, hperm, hfilter, List.map_map, ← sum_midrank]
  rfl

theorem quotient_ok {a b : ℚ} (h : b ≠ 0) : quotient a b = .ok (a / b) := if_neg h

/-- The variance is defined; it is not positive when all observations are equal. -/
theorem varU_spec {x y : List ℚ} (hx : x ≠ []) (hy : y ≠ []) :
    ∃ v, varU x.length y.length (rankLoop (combined x y) 0 [] []).2 = .ok v ∧
      (v ≤ 0 ↔ ∀ a ∈ x ++ y, ∀ b ∈ x ++ y, a = b) := by
  have h₁ := List.length_pos_iff.2 hx
  have h₂ := List.length_pos_iff.2 hy
  obtain ⟨n₁, hn₁⟩ : ∃ n, n = x.length := ⟨_, rfl⟩
  obtain ⟨n₂, hn₂⟩ : ∃ n, n = y.length := ⟨_, rfl⟩
  obtain ⟨runs, hruns⟩ : ∃ runs, runs = runSizes ((combined x y).map Prod.fst) := ⟨_, rfl⟩
  have hsum : runs.sum = n₁ + n₂ := by
    rw [hruns, sum_runSizes, List.length_map, length_combined, hn₁, hn₂]
  obtain ⟨hle, heq⟩ := tieTerm_le (hruns ▸ runSizes_pos _ : ∀ t ∈ runs, 0 < t)
  have hties : tieTerm (rankLoop (combined x y) 0 [] []).2 = tieTerm runs := by
    rw [rankLoop_combined, hruns]
    exact tieTerm_filter (runSizes_pos _)
  have hsame : runs.length ≤ 1 ↔ ∀ a ∈ x ++ y, ∀ b ∈ x ++ y, a = b := by
    rw [hruns, length_runSizes_le_one]
    simp only [(combined_values x y).mem_iff]
  rw [← hn₁] at h₁
  rw [← hn₂] at h₂
  have hone : 1 < n₁ + n₂ := by omega
  have hq₁ : (1 : ℚ) ≤ n₁ := Nat.one_le_cast.2 h₁
  have hq₂ : (1 : ℚ) ≤ n₂ := Nat.one_le_cast.2 h₂
  have hpos : (0 : ℚ) < ((n₁ : ℚ) + n₂) * ((n₁ : ℚ) + n₂ - 1) := mul_pos (by linarith) (by linarith)
  refine ⟨(n₁ * n₂ / 12) * ((n₁ + n₂ + 1) - tieTerm runs / ((n₁ + n₂) * (n₁ + n₂ - 1))), ?_, ?_⟩
  · rw [varU, if_pos (by rw [← hn₁, ← hn₂]; exact hone), hties, ← hn₁, ← hn₂, quotient_ok hpos.ne']
    rfl
  · have hscale : (0 : ℚ) < n₁ * n₂ / 12 :=
      div_pos (mul_pos (by linarith) (by linarith)) (by norm_num)
    rw [← hsame, ← heq, hsum, Nat.cast_add, ← not_lt, mul_pos_iff_of_pos_left hscale, not_lt,
      sub_nonpos, le_div_iff₀ hpos]
    rw [hsum, Nat.cast_add] at hle
    constructor
    · intro h
      linarith
    · intro h
      linarith

theorem mannWhitneyU_eq (f : RealFunctions) {x y : List ℚ} (hx : x ≠ []) (hy : y ≠ []) :
    ∃ p, mannWhitneyU f x y =
      .ok (min (pairCount x y) ((x.length : ℚ) * y.length - pairCount x y), p) := by
  have h₁ := List.length_pos_iff.2 hx
  have h₂ := List.length_pos_iff.2 hy
  have hdefined : ¬ (x.length < 1 ∨ y.length < 1) := by omega
  obtain ⟨v, hv, -⟩ := varU_spec hx hy
  have hcount : rankSum (rankLoop (combined x y) 0 [] []).1 (combined x y) -
      (x.length : ℚ) * (x.length + 1) / 2 = pairCount x y := by
    rw [rankLoop_combined, rankSum_combined, add_sub_cancel_right]
  rw [mannWhitneyU, if_neg hdefined]
  dsimp only
  rw [hcount, hv]
  by_cases hpos : v ≤ 0
  · exact ⟨1, if_pos hpos⟩
  · have hroot : f.root v = .ok (f.sqrt v) := if_neg (by linarith)
    have hne : f.sqrt v ≠ 0 := (f.sqrt_pos v (not_le.1 hpos)).ne'
    obtain ⟨u, hu⟩ : ∃ u, u = min (pairCount x y) ((x.length : ℚ) * y.length - pairCount x y) :=
      ⟨_, rfl⟩
    rw [← hu]
    obtain ⟨z, hz⟩ : ∃ z, z = (u - (x.length : ℚ) * y.length / 2 + 1 / 2) / f.sqrt v := ⟨_, rfl⟩
    refine ⟨max 0 (min 1 (2 * f.normalCdf z)), (if_neg hpos).trans ?_⟩
    rw [hroot]
    dsimp only [bind, Except.bind]
    rw [quotient_ok hne, hz]
    rfl

/-! ## The step-down correction -/

/-- A p-value and its label, in the order of tuples. -/
abbrev Entry : Type := ℚ ×ₗ Str

/-- `sorted((float(p), label) for label, p in p_values.items())`. -/
def orderedEntries (pValues : Dict Str ℚ) : List Entry :=
  (pValues.map fun kv => toLex (kv.2, kv.1)).insertionSort (· ≤ ·)

/-- `min(1.0, (m - i) * p)`. -/
def scaled (m i : Nat) (p : ℚ) : ℚ := min 1 (((m : ℚ) - i) * p)

/-- The loop from position `i`, with the maximum and the adjusted values so far. -/
def adjust (m : Nat) : Nat → ℚ → Dict Str ℚ → List Entry → Dict Str ℚ
  | _, _, adjusted, [] => adjusted
  | i, running, adjusted, e :: rest =>
      let running := max running (scaled m i (ofLex e).1)
      adjust m (i + 1) running (adjusted.set (ofLex e).2 running) rest

/-- `holm_bonferroni(p_values)`. -/
def holmBonferroni (pValues : Dict Str ℚ) : Except PyExn (Dict Str ℚ) :=
  if ∀ kv ∈ pValues, 0 ≤ kv.2 ∧ kv.2 ≤ 1 then
    let ordered := orderedEntries pValues
    .ok (adjust ordered.length 0 0 [] ordered)
  else .error (.valueError "invalid p-value")

/-- The labels that the step-down procedure at level `α` rejects, from position `i` on: it goes
through the ordered p-values and stops at the first one that is too large. -/
def stepDown (α : ℚ) (m : Nat) : Nat → List Entry → List Str
  | _, [] => []
  | i, e :: rest =>
      if ((m : ℚ) - i) * (ofLex e).1 ≤ α then (ofLex e).2 :: stepDown α m (i + 1) rest else []

/-- The number of entries before one. -/
def rank (entries : List Entry) (e : Entry) : Nat := entries.countP fun e' => e' < e

section Ordered

variable {entries : List Entry}

theorem rank_append {pre post : List Entry} {e : Entry}
    (h : (pre ++ e :: post).Pairwise (· < ·)) : rank (pre ++ e :: post) e = pre.length := by
  obtain ⟨-, hpost, hpre⟩ := List.pairwise_append.1 h
  rw [rank, List.countP_append, List.countP_eq_length.2, List.countP_eq_zero.2, Nat.add_zero]
  · intro e' he'
    rcases List.mem_cons.1 he' with rfl | he'
    · simp
    · simp [((List.pairwise_cons.1 hpost).1 e' he').le]
  · intro e' he'
    exact decide_eq_true (hpre e' he' e List.mem_cons_self)

theorem le_iff_mem {pre post : List Entry} {e e' : Entry}
    (h : (pre ++ e :: post).Pairwise (· < ·)) (he' : e' ∈ pre ++ e :: post) :
    e' ≤ e ↔ e' ∈ pre ++ [e] := by
  obtain ⟨-, hpost, hpre⟩ := List.pairwise_append.1 h
  constructor
  · intro hle
    rcases List.mem_append.1 he' with he' | he'
    · exact List.mem_append_left _ he'
    · rcases List.mem_cons.1 he' with rfl | he'
      · exact List.mem_append_right _ List.mem_cons_self
      · exact absurd ((List.pairwise_cons.1 hpost).1 e' he') hle.not_gt
  · intro hmem
    rcases List.mem_append.1 hmem with hmem | hmem
    · exact (hpre e' hmem e List.mem_cons_self).le
    · exact (List.mem_singleton.1 hmem).le

/-- The value at an entry before the maximum is taken. -/
def level (entries : List Entry) (e : Entry) : ℚ :=
  scaled entries.length (rank entries e) (ofLex e).1

/-- The greatest value of some entries, or zero. -/
def Peak (entries seen : List Entry) (a : ℚ) : Prop :=
  (∀ e ∈ seen, level entries e ≤ a) ∧ (a = 0 ∨ ∃ e ∈ seen, level entries e = a)

theorem Peak.step {seen : List Entry} {a : ℚ} (h : Peak entries seen a) (e : Entry) :
    Peak entries (seen ++ [e]) (max a (level entries e)) := by
  obtain ⟨hle, hattained⟩ := h
  constructor
  · intro e' he'
    rcases List.mem_append.1 he' with he' | he'
    · exact (hle e' he').trans (le_max_left _ _)
    · rw [List.mem_singleton.1 he']
      exact le_max_right _ _
  · rcases le_total (level entries e) a with hea | hae
    · rw [max_eq_left hea]
      exact hattained.imp id fun ⟨e', he', heq⟩ => ⟨e', List.mem_append_left _ he', heq⟩
    · rw [max_eq_right hae]
      exact Or.inr ⟨e, List.mem_append_right _ List.mem_cons_self, rfl⟩

theorem Peak.congr {seen seen' : List Entry} {a : ℚ} (h : Peak entries seen a)
    (hseen : ∀ e, e ∈ seen ↔ e ∈ seen') : Peak entries seen' a :=
  ⟨fun e he => h.1 e ((hseen e).2 he),
    h.2.imp id fun ⟨e, he, heq⟩ => ⟨e, (hseen e).1 he, heq⟩⟩

theorem adjust_get_of_mem {m i : Nat} {running : ℚ} {adjusted : Dict Str ℚ} {rest : List Entry}
    {label : Str} (h : ∀ e ∈ rest, (ofLex e).2 ≠ label) :
    (adjust m i running adjusted rest).get? label = adjusted.get? label := by
  induction rest generalizing i running adjusted with
  | nil => rfl
  | cons e rest ih =>
      rw [adjust, ih fun e' he' => h e' (List.mem_cons_of_mem _ he'), Dict.get?_set,
        if_neg (h e List.mem_cons_self).symm]

/-- Every entry gets the maximum over the entries up to it. -/
theorem adjust_spec (pre rest : List Entry) (running : ℚ) (adjusted : Dict Str ℚ)
    (hsorted : (pre ++ rest).Pairwise (· < ·))
    (hlabels : ((pre ++ rest).map fun e => (ofLex e).2).Nodup)
    (hpeak : Peak (pre ++ rest) pre running) :
    ∀ e ∈ rest, ∃ a,
      (adjust (pre ++ rest).length pre.length running adjusted rest).get? (ofLex e).2 = some a ∧
      Peak (pre ++ rest) ((pre ++ rest).filter fun e' => e' ≤ e) a := by
  induction rest generalizing pre running adjusted with
  | nil => exact fun e he => absurd he List.not_mem_nil
  | cons x rest ih =>
      have hlevel : scaled (pre ++ x :: rest).length pre.length (ofLex x).1 =
          level (pre ++ x :: rest) x := by
        rw [level, rank_append hsorted]
      have hsplit : pre ++ x :: rest = (pre ++ [x]) ++ rest := by
        rw [List.append_assoc, List.singleton_append]
      have hnext := hpeak.step x
      have hlen : (pre ++ [x]).length = pre.length + 1 := by
        rw [List.length_append, List.length_singleton]
      intro e he
      rw [adjust, hlevel]
      rcases List.mem_cons.1 he with rfl | he
      · refine ⟨_, ?_, hnext.congr fun e' => ?_⟩
        · rw [adjust_get_of_mem, Dict.get?_set, if_pos rfl]
          intro e' he' heq
          rw [List.map_append, List.map_cons] at hlabels
          exact (List.nodup_cons.1 (List.nodup_append.1 hlabels).2.1).1
            (List.mem_map.2 ⟨e', he', heq⟩)
        · rw [List.mem_filter, decide_eq_true_eq]
          constructor
          · intro hmem
            have hall : e' ∈ pre ++ e :: rest := by
              rw [hsplit]
              exact List.mem_append_left _ hmem
            exact ⟨hall, (le_iff_mem hsorted hall).2 hmem⟩
          · rintro ⟨hall, hle⟩
            exact (le_iff_mem hsorted hall).1 hle
      · have h := ih (pre ++ [x]) (max running (level (pre ++ x :: rest) x))
          (adjusted.set (ofLex x).2 (max running (level (pre ++ x :: rest) x)))
          (hsplit ▸ hsorted) (hsplit ▸ hlabels) (hsplit ▸ hnext) e he
        rw [hlen, ← hsplit] at h
        exact h

/-- The procedure rejects an entry when no entry up to it is too large. -/
theorem mem_stepDown {α : ℚ} (pre rest : List Entry) (hsorted : (pre ++ rest).Pairwise (· < ·))
    (hlabels : ((pre ++ rest).map fun e => (ofLex e).2).Nodup) {e : Entry} (he : e ∈ rest) :
    (ofLex e).2 ∈ stepDown α (pre ++ rest).length pre.length rest ↔
      ∀ e' ∈ rest, e' ≤ e →
        (((pre ++ rest).length : ℚ) - rank (pre ++ rest) e') * (ofLex e').1 ≤ α := by
  induction rest generalizing pre with
  | nil => exact absurd he List.not_mem_nil
  | cons x rest ih =>
      have hsplit : pre ++ x :: rest = (pre ++ [x]) ++ rest := by
        rw [List.append_assoc, List.singleton_append]
      have hlen : (pre ++ [x]).length = pre.length + 1 := by
        rw [List.length_append, List.length_singleton]
      have hx := (List.pairwise_cons.1 (List.pairwise_append.1 hsorted).2.1).1
      have hxe : x ≤ e := by
        rcases List.mem_cons.1 he with rfl | he
        · exact le_rfl
        · exact (hx e he).le
      rw [stepDown]
      by_cases hlarge : (((pre ++ x :: rest).length : ℚ) - pre.length) * (ofLex x).1 ≤ α
      · rw [if_pos hlarge, List.mem_cons, List.forall_mem_cons, rank_append hsorted]
        rcases List.mem_cons.1 he with rfl | he
        · refine ⟨fun _ => ⟨fun _ => hlarge, fun e' he' hle => absurd (hx e' he') hle.not_gt⟩,
            fun _ => Or.inl rfl⟩
        · have hne : (ofLex e).2 ≠ (ofLex x).2 := by
            intro heq
            rw [List.map_append, List.map_cons] at hlabels
            exact (List.nodup_cons.1 (List.nodup_append.1 hlabels).2.1).1
              (List.mem_map.2 ⟨e, he, heq⟩)
          have h := ih (pre ++ [x]) (hsplit ▸ hsorted) (hsplit ▸ hlabels) he
          rw [hlen, ← hsplit] at h
          rw [or_iff_right hne, h]
          exact ⟨fun hall => ⟨fun _ => hlarge, hall⟩, fun hall => hall.2⟩
      · rw [if_neg hlarge]
        refine ⟨fun hmem => absurd hmem List.not_mem_nil, fun hall => absurd ?_ hlarge⟩
        have h := hall x List.mem_cons_self hxe
        rwa [rank_append hsorted] at h

theorem mem_stepDown_labels {α : ℚ} {m i : Nat} {rest : List Entry} {label : Str}
    (h : label ∈ stepDown α m i rest) : ∃ e ∈ rest, (ofLex e).2 = label := by
  induction rest generalizing i with
  | nil => exact absurd h List.not_mem_nil
  | cons x rest ih =>
      rw [stepDown] at h
      split at h
      · rcases List.mem_cons.1 h with rfl | h
        · exact ⟨x, List.mem_cons_self, rfl⟩
        · obtain ⟨e, he, hlabel⟩ := ih h
          exact ⟨e, List.mem_cons_of_mem _ he, hlabel⟩
      · exact absurd h List.not_mem_nil

theorem mem_keys_adjust {m i : Nat} {running : ℚ} {adjusted : Dict Str ℚ} {rest : List Entry}
    {label : Str} : label ∈ (adjust m i running adjusted rest).keys ↔
      label ∈ adjusted.keys ∨ ∃ e ∈ rest, (ofLex e).2 = label := by
  induction rest generalizing i running adjusted with
  | nil => simp [adjust]
  | cons x rest ih =>
      rw [adjust, ih, Dict.mem_keys_set]
      constructor
      · rintro ((rfl | hadjusted) | ⟨e, he, hlabel⟩)
        · exact Or.inr ⟨x, List.mem_cons_self, rfl⟩
        · exact Or.inl hadjusted
        · exact Or.inr ⟨e, List.mem_cons_of_mem _ he, hlabel⟩
      · rintro (hadjusted | ⟨e, he, rfl⟩)
        · exact Or.inl (Or.inr hadjusted)
        · rcases List.mem_cons.1 he with rfl | he
          · exact Or.inl (Or.inl rfl)
          · exact Or.inr ⟨e, he, rfl⟩

end Ordered

theorem mem_orderedEntries {pValues : Dict Str ℚ} {e : Entry} :
    e ∈ orderedEntries pValues ↔ ((ofLex e).2, (ofLex e).1) ∈ pValues := by
  rw [orderedEntries, (List.perm_insertionSort _ _).mem_iff, List.mem_map]
  constructor
  · rintro ⟨kv, hkv, rfl⟩
    exact hkv
  · intro h
    exact ⟨_, h, rfl⟩

theorem orderedEntries_labels {pValues : Dict Str ℚ} (h : pValues.keys.Nodup) :
    ((orderedEntries pValues).map fun e => (ofLex e).2).Nodup := by
  refine (((List.perm_insertionSort _ _).map _).nodup_iff).2 ?_
  rw [List.map_map]
  exact h

theorem orderedEntries_sorted {pValues : Dict Str ℚ} (h : pValues.keys.Nodup) :
    (orderedEntries pValues).Pairwise (· < ·) := by
  have hle : (orderedEntries pValues).Pairwise (· ≤ ·) := List.pairwise_insertionSort _ _
  have hne : (orderedEntries pValues).Pairwise (· ≠ ·) := (orderedEntries_labels h).of_map _
  exact hle.imp₂ (fun _ _ hle hne => lt_of_le_of_ne hle hne) hne

/-- What the correction promises of the adjusted values. -/
structure HolmAdjusted (pValues adjusted : Dict Str ℚ) : Prop where
  labels : ∀ label, label ∈ adjusted.keys ↔ label ∈ pValues.keys
  greatest : ∀ label p a, (label, p) ∈ pValues → adjusted.get? label = some a →
    IsGreatest {l | ∃ k q, (k, q) ∈ pValues ∧ toLex (q, k) ≤ toLex (p, label) ∧
      l = min 1 (((pValues.length : ℚ) - rank (orderedEntries pValues) (toLex (q, k))) * q)} a
  raw : ∀ label p a, (label, p) ∈ pValues → adjusted.get? label = some a → p ≤ a
  equal : ∀ label label' p, (label, p) ∈ pValues → (label', p) ∈ pValues →
    adjusted.get? label = adjusted.get? label'
  rejected : ∀ α < 1, ∀ label, (∃ a, adjusted.get? label = some a ∧ a ≤ α) ↔
    label ∈ stepDown α pValues.length 0 (orderedEntries pValues)

/-- An entry has fewer entries before it than there are. -/
theorem rank_lt {entries : List Entry} {e : Entry} (he : e ∈ entries) :
    rank entries e < entries.length := by
  refine lt_of_le_of_ne List.countP_le_length fun heq => ?_
  exact absurd (of_decide_eq_true (List.countP_eq_length.1 heq e he)) (lt_irrefl e)

theorem rank_le {entries : List Entry} {e e' : Entry} (h : e ≤ e') :
    rank entries e ≤ rank entries e' := by
  refine List.countP_mono_left fun x _ hx => ?_
  exact decide_eq_true ((of_decide_eq_true hx).trans_le h)

theorem le_level {entries : List Entry} {e : Entry} (he : e ∈ entries)
    (hrange : 0 ≤ (ofLex e).1 ∧ (ofLex e).1 ≤ 1) : (ofLex e).1 ≤ level entries e := by
  have hone : (1 : ℚ) ≤ (entries.length : ℚ) - rank entries e := by
    have hlt : ((rank entries e + 1 : Nat) : ℚ) ≤ entries.length := Nat.cast_le.2 (rank_lt he)
    push_cast at hlt
    linarith
  refine le_min hrange.2 ?_
  calc (ofLex e).1 = 1 * (ofLex e).1 := (one_mul _).symm
    _ ≤ _ := mul_le_mul_of_nonneg_right hone hrange.1

/-- Of two entries with one p-value the later one has the smaller value. -/
theorem level_antitone {entries : List Entry} {e e' : Entry} (h : e ≤ e')
    (hp : (ofLex e).1 = (ofLex e').1) (hrange : 0 ≤ (ofLex e).1) :
    level entries e' ≤ level entries e := by
  have hrank : (rank entries e : ℚ) ≤ rank entries e' := Nat.cast_le.2 (rank_le h)
  rw [level, level, scaled, scaled, ← hp]
  exact min_le_min_left _ (mul_le_mul_of_nonneg_right (by linarith) hrange)

theorem holmBonferroni_adjusted {pValues : Dict Str ℚ} (hnd : pValues.keys.Nodup)
    (hrange : ∀ kv ∈ pValues, 0 ≤ kv.2 ∧ kv.2 ≤ 1) :
    ∃ adjusted, holmBonferroni pValues = .ok adjusted ∧ HolmAdjusted pValues adjusted := by
  obtain ⟨entries, hentries⟩ : ∃ entries, entries = orderedEntries pValues := ⟨_, rfl⟩
  have hsorted : entries.Pairwise (· < ·) := hentries ▸ orderedEntries_sorted hnd
  have hlabels : (entries.map fun e => (ofLex e).2).Nodup := hentries ▸ orderedEntries_labels hnd
  have hmem : ∀ {k q}, (k, q) ∈ pValues ↔ toLex (q, k) ∈ entries := by
    intro k q
    rw [hentries, mem_orderedEntries]
    rfl
  have hlen : entries.length = pValues.length := by
    rw [hentries, orderedEntries, (List.perm_insertionSort _ _).length_eq, List.length_map]
  have hunit : ∀ e ∈ entries, 0 ≤ (ofLex e).1 ∧ (ofLex e).1 ≤ 1 := by
    intro e he
    rw [hentries, mem_orderedEntries] at he
    exact hrange _ he
  have hlevel : ∀ e ∈ entries, 0 ≤ level entries e := fun e he =>
    (hunit e he).1.trans (le_level he (hunit e he))
  obtain ⟨adjusted, hadjusted⟩ : ∃ adjusted, adjusted = adjust entries.length 0 0 [] entries :=
    ⟨_, rfl⟩
  have hspec : ∀ e ∈ entries, ∃ a, adjusted.get? (ofLex e).2 = some a ∧
      Peak entries (entries.filter fun e' => e' ≤ e) a := by
    rw [hadjusted]
    exact adjust_spec [] entries 0 [] hsorted hlabels
      ⟨fun e he => absurd he List.not_mem_nil, Or.inl rfl⟩
  have hpeak : ∀ {label p a}, (label, p) ∈ pValues → adjusted.get? label = some a →
      Peak entries (entries.filter fun e' => e' ≤ toLex (p, label)) a := by
    intro label p a hlp ha
    obtain ⟨a', ha', hpeak⟩ := hspec _ (hmem.1 hlp)
    cases ha.symm.trans ha'
    exact hpeak
  have hkeys : ∀ label, label ∈ adjusted.keys ↔ label ∈ pValues.keys := by
    intro label
    rw [hadjusted, mem_keys_adjust, or_iff_right (show label ∉ Dict.keys [] from List.not_mem_nil)]
    constructor
    · rintro ⟨e, he, rfl⟩
      rw [hentries, mem_orderedEntries] at he
      exact List.mem_map.2 ⟨_, he, rfl⟩
    · intro hlabel
      obtain ⟨kv, hkv, rfl⟩ := List.mem_map.1 hlabel
      exact ⟨_, hmem.1 hkv, rfl⟩
  have hdefined : ∀ {label p}, (label, p) ∈ pValues → ∃ a, adjusted.get? label = some a := by
    intro label p hlp
    obtain ⟨a, ha, -⟩ := hspec _ (hmem.1 hlp)
    exact ⟨a, ha⟩
  refine ⟨adjusted, ?_, hkeys, ?_, ?_, ?_, ?_⟩
  · rw [holmBonferroni, if_pos hrange, hadjusted, hentries]
  · intro label p a hlp ha
    obtain ⟨hle, hattained⟩ := hpeak hlp ha
    rw [← hentries, ← hlen]
    constructor
    · rcases hattained with rfl | ⟨e, he, rfl⟩
      · -- the maximum is the initial zero: so is the value of the entry itself
        have hself := hle (toLex (p, label)) (List.mem_filter.2 ⟨hmem.1 hlp, by simp⟩)
        exact ⟨label, p, hlp, le_rfl, le_antisymm (hlevel _ (hmem.1 hlp)) hself⟩
      · obtain ⟨he, hle'⟩ := List.mem_filter.1 he
        exact ⟨(ofLex e).2, (ofLex e).1, hmem.2 he, of_decide_eq_true hle', rfl⟩
    · rintro l ⟨k, q, hkq, hle', rfl⟩
      exact hle _ (List.mem_filter.2 ⟨hmem.1 hkq, decide_eq_true hle'⟩)
  · intro label p a hlp ha
    have hself := (hpeak hlp ha).1 (toLex (p, label)) (List.mem_filter.2 ⟨hmem.1 hlp, by simp⟩)
    exact (le_level (hmem.1 hlp) (hunit _ (hmem.1 hlp))).trans hself
  · -- the values between two entries with one p-value do not raise the maximum
    have hmono : ∀ {label label' p a a'}, (label, p) ∈ pValues → (label', p) ∈ pValues →
        adjusted.get? label = some a → adjusted.get? label' = some a' → a' ≤ a := by
      intro label label' p a a' hlp hlp' ha ha'
      obtain ⟨hle, -⟩ := hpeak hlp ha
      have hp0 := (hunit _ (hmem.1 hlp)).1
      have hself := hle (toLex (p, label)) (List.mem_filter.2 ⟨hmem.1 hlp, by simp⟩)
      rcases (hpeak hlp' ha').2 with rfl | ⟨e, he, rfl⟩
      · exact (hlevel _ (hmem.1 hlp)).trans hself
      · obtain ⟨he, hle'⟩ := List.mem_filter.1 he
        rcases le_total e (toLex (p, label)) with hel | hle''
        · exact hle e (List.mem_filter.2 ⟨he, decide_eq_true hel⟩)
        · have hpe : (ofLex e).1 = p := by
            have h₁ := Prod.Lex.monotone_fst _ _ (of_decide_eq_true hle')
            have h₂ := Prod.Lex.monotone_fst _ _ hle''
            exact le_antisymm h₁ h₂
          exact (level_antitone hle'' hpe.symm hp0).trans hself
    intro label label' p hlp hlp'
    obtain ⟨a, ha⟩ := hdefined hlp
    obtain ⟨a', ha'⟩ := hdefined hlp'
    rw [ha, ha', le_antisymm (hmono hlp' hlp ha' ha) (hmono hlp hlp' ha ha')]
  · intro α hα label
    rw [← hentries, ← hlen]
    have hreject : ∀ e ∈ entries, ∀ a, adjusted.get? (ofLex e).2 = some a →
        (a ≤ α ↔ (ofLex e).2 ∈ stepDown α entries.length 0 entries) := by
      intro e he a ha
      obtain ⟨hle, hattained⟩ := hpeak (hmem.2 he) ha
      have hcap : ∀ e', level entries e' ≤ α ↔
          ((entries.length : ℚ) - rank entries e') * (ofLex e').1 ≤ α := by
        intro e'
        rw [level, scaled, min_le_iff, or_iff_right (not_le.2 hα)]
      have hmemStep := mem_stepDown (α := α) [] entries hsorted hlabels he
      rw [List.nil_append, List.length_nil] at hmemStep
      rw [hmemStep]
      constructor
      · intro haα e' he' hle'
        exact (hcap e').1 ((hle e' (List.mem_filter.2 ⟨he', decide_eq_true hle'⟩)).trans haα)
      · intro hall
        have hself := (hcap e).2 (hall e he le_rfl)
        rcases hattained with rfl | ⟨e', he', rfl⟩
        · exact (hlevel e he).trans hself
        · obtain ⟨he', hle'⟩ := List.mem_filter.1 he'
          exact (hcap e').2 (hall e' he' (of_decide_eq_true hle'))
    constructor
    · rintro ⟨a, ha, haα⟩
      obtain ⟨kv, hkv, rfl⟩ := List.mem_map.1 ((hkeys label).1 (Dict.mem_keys_of_get? ha))
      exact (hreject _ (hmem.1 hkv) a ha).1 haα
    · intro hlabel
      obtain ⟨e, he, rfl⟩ := mem_stepDown_labels hlabel
      obtain ⟨a, ha⟩ := hdefined (hmem.2 he)
      exact ⟨a, ha, (hreject e he a ha).2 hlabel⟩

/-! ## Both statistics -/

/-- The statistic without its p-value. -/
def statistic (f : RealFunctions) (x y : List ℚ) : Except PyExn ℚ :=
  (mannWhitneyU f x y).map Prod.fst

theorem statistic_eq (f : RealFunctions) {x y : List ℚ} (hx : x ≠ []) (hy : y ≠ []) :
    statistic f x y = .ok (min (pairCount x y) ((x.length : ℚ) * y.length - pairCount x y)) := by
  obtain ⟨p, hp⟩ := mannWhitneyU_eq f hx hy
  rw [statistic, hp]
  rfl

theorem statistic_nil (f : RealFunctions) {x y : List ℚ} (h : x = [] ∨ y = []) :
    statistic f x y = .error (.valueError "mann_whitney_u requires non-empty samples") := by
  have hshort : x.length < 1 ∨ y.length < 1 := by
    rcases h with rfl | rfl
    · exact Or.inl Nat.zero_lt_one
    · exact Or.inr Nat.zero_lt_one
  rw [statistic, mannWhitneyU, if_pos hshort]
  rfl

/-- Two samples with the same pair counts, up to the direction, have the same statistic. -/
theorem statistic_congr (f : RealFunctions) {x y x' y' : List ℚ}
    (hnil : x = [] ∨ y = [] ↔ x' = [] ∨ y' = [])
    (hlen : (x.length : ℚ) * y.length = (x'.length : ℚ) * y'.length)
    (hcount : pairCount x y = pairCount x' y' ∨
      pairCount x y = (x'.length : ℚ) * y'.length - pairCount x' y') :
    statistic f x y = statistic f x' y' := by
  by_cases h : x = [] ∨ y = []
  · rw [statistic_nil f h, statistic_nil f (hnil.1 h)]
  · have h' := fun h' => h (hnil.2 h')
    rw [statistic_eq f (fun hx => h (Or.inl hx)) fun hy => h (Or.inr hy),
      statistic_eq f (fun hx => h' (Or.inl hx)) fun hy => h' (Or.inr hy), hlen]
    rcases hcount with heq | heq
    · rw [heq]
    · rw [heq, sub_sub_cancel, min_comm]

/-- The statistic counts pairs, so that it depends on neither the order of the samples, nor the
order in a sample, nor the scale; its variance is defined. The adjusted p-values reject what the step-down
procedure rejects. -/
theorem rank_and_step_down (f : RealFunctions) :
    (∀ x y : List ℚ, x ≠ [] → y ≠ [] →
      (∃ p, mannWhitneyU f x y =
        .ok (min (pairCount x y) ((x.length : ℚ) * y.length - pairCount x y), p)) ∧
      ∃ v, varU x.length y.length (rankLoop (combined x y) 0 [] []).2 = .ok v ∧
        (v ≤ 0 ↔ ∀ a ∈ x ++ y, ∀ b ∈ x ++ y, a = b)) ∧
    (∀ x y, statistic f x y = statistic f y x) ∧
    (∀ x x' y y' : List ℚ, x.Perm x' → y.Perm y' → statistic f x y = statistic f x' y') ∧
    (∀ (g : ℚ → ℚ) (x y : List ℚ), StrictMono g →
      statistic f (x.map g) (y.map g) = statistic f x y) ∧
    ∀ pValues : Dict Str ℚ, pValues.keys.Nodup → (∀ kv ∈ pValues, 0 ≤ kv.2 ∧ kv.2 ≤ 1) →
      ∃ adjusted, holmBonferroni pValues = .ok adjusted ∧ HolmAdjusted pValues adjusted := by
  refine ⟨fun x y hx hy => ⟨mannWhitneyU_eq f hx hy, varU_spec hx hy⟩, ?_, ?_, ?_,
    fun pValues hnd hrange => holmBonferroni_adjusted hnd hrange⟩
  · intro x y
    refine statistic_congr f or_comm (mul_comm _ _) (Or.inr ?_)
    rw [← pairCount_add_swap y x, add_sub_cancel_left]
  · intro x x' y y' hx hy
    refine statistic_congr f ?_ (by rw [hx.length_eq, hy.length_eq]) (Or.inl (pairCount_perm hx hy))
    rw [← List.length_eq_zero_iff, ← List.length_eq_zero_iff, hx.length_eq, hy.length_eq,
      List.length_eq_zero_iff, List.length_eq_zero_iff]
  · intro g x y hg
    refine statistic_congr f ?_ (by rw [List.length_map, List.length_map])
      (Or.inl (pairCount_map hg x y))
    rw [List.map_eq_nil_iff, List.map_eq_nil_iff]

/-- A square root that is right at four, and a distribution function that is constant. -/
def sampleFunctions : RealFunctions where
  sqrt := fun a => if a = 4 then 2 else a
  normalCdf := fun _ => 1057 / 10000
  sqrt_pos := by
    intro a ha
    split
    · exact two_pos
    · exact ha

/-- One observation below six others, and two equal p-values. -/
theorem rank_and_step_down_sample :
    (∃ p, mannWhitneyU sampleFunctions [1] [2, 3, 4, 5, 6, 7] =
      .ok (min (pairCount [1] [2, 3, 4, 5, 6, 7])
        ((List.length [(1 : ℚ)] : ℚ) * (List.length [(2 : ℚ), 3, 4, 5, 6, 7] : ℚ) -
          pairCount [1] [2, 3, 4, 5, 6, 7]), p)) ∧
    ∃ adjusted, holmBonferroni [(lit "b", 1 / 50), (lit "a", 1 / 50)] = .ok adjusted ∧
      HolmAdjusted [(lit "b", 1 / 50), (lit "a", 1 / 50)] adjusted := by
  obtain ⟨htest, -, -, -, hholm⟩ := rank_and_step_down sampleFunctions
  refine ⟨(htest [1] [2, 3, 4, 5, 6, 7] (List.cons_ne_nil _ _) (List.cons_ne_nil _ _)).1,
    hholm _ (by decide +kernel) ?_⟩
  intro kv hkv
  have hvalue : kv.2 = 1 / 50 := by
    rcases List.mem_cons.1 hkv with rfl | hkv
    · rfl
    · rw [List.mem_singleton.1 hkv]
  rw [hvalue]
  norm_num

end ResidualHarness.Eval
