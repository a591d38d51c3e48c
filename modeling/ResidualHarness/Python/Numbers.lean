import Mathlib.Data.Int.Log
import Mathlib.Data.Rat.Floor

/-!
# Comparing numbers

Python's numbers as comparisons see them, the quotient of two integers as a double, and the minimum
of a list by a comparison. A comparison that is the order of a linear key has a least element
(`minBy_spec`), and for distinct keys it does not depend on the order of the list (`minBy_perm`).
-/

set_option autoImplicit false

namespace ResidualHarness.Python

/-! ## Numbers -/

/-- An `int` or a `float`. A NaN is less than nothing and greater than nothing; tuples compare it by
identity, so the objects are told apart. -/
inductive Number where
  | nan (object : Nat)
  | value (v : WithBot (WithTop ℚ))
deriving DecidableEq

namespace Number

/-- An exact value. -/
def exact (q : ℚ) : Number := .value ((q : WithTop ℚ) : WithBot (WithTop ℚ))

/-- `a < b`. -/
def lt : Number → Number → Bool
  | .value a, .value b => decide (a < b)
  | _, _ => false

/-- `a <= b`. -/
def le : Number → Number → Bool
  | .value a, .value b => decide (a ≤ b)
  | _, _ => false

/-- Not a NaN. -/
def Ordered : Number → Prop
  | .value _ => True
  | .nan _ => False

/-- The value of a number that is not a NaN. -/
def toValue : Number → WithBot (WithTop ℚ)
  | .value v => v
  | .nan _ => ⊥

theorem lt_iff {a b : Number} (ha : a.Ordered) (hb : b.Ordered) :
    a.lt b = true ↔ a.toValue < b.toValue := by
  cases a with
  | nan => exact ha.elim
  | value v =>
      cases b with
      | nan => exact hb.elim
      | value w => exact decide_eq_true_iff

theorem toValue_inj {a b : Number} (ha : a.Ordered) (hb : b.Ordered) :
    a.toValue = b.toValue ↔ a = b := by
  cases a with
  | nan => exact ha.elim
  | value v =>
      cases b with
      | nan => exact hb.elim
      | value w => exact ⟨fun h => congrArg Number.value h, fun h => Number.value.inj h⟩

theorem le_eq_false_iff {a b : Number} (ha : a.Ordered) (hb : b.Ordered) :
    a.le b = false ↔ b.lt a = true := by
  cases a with
  | nan => exact ha.elim
  | value v =>
      cases b with
      | nan => exact hb.elim
      | value w => rw [le, lt, decide_eq_false_iff_not, decide_eq_true_eq, not_le]

end Number

/-- The nearest integer, of two the even one. -/
def roundHalfEven (q : ℚ) : ℤ :=
  if q - ⌊q⌋ < 1 / 2 ∨ q - ⌊q⌋ = 1 / 2 ∧ ⌊q⌋ % 2 = 0 then ⌊q⌋ else ⌊q⌋ + 1

/-- `a / b` of two integers with a quotient of at most one: the nearest double. -/
def trueDiv (a b : Nat) : ℚ :=
  let q : ℚ := a / b
  let e : ℤ := max (Int.log 2 q - 52) (-1074)
  roundHalfEven (q / 2 ^ e) * 2 ^ e

/-! ## Minima -/

section Minima

variable {α κ : Type} [LinearOrder κ]

/-- `min` of a nonempty iterable: the first element that no later one is less than. -/
def minBy (less : α → α → Bool) (x : α) (xs : List α) : α :=
  xs.foldl (fun best y => if less y best = true then y else best) x

variable (less : α → α → Bool) (key : α → κ)

/-- When the comparison is the order of keys, the minimum has the least key. -/
theorem minBy_spec (xs : List α) (x : α)
    (h : ∀ a ∈ x :: xs, ∀ b ∈ x :: xs, less a b = true ↔ key a < key b) :
    minBy less x xs ∈ x :: xs ∧ ∀ b ∈ x :: xs, key (minBy less x xs) ≤ key b := by
  induction xs generalizing x with
  | nil => exact ⟨List.mem_cons_self, fun b hb => by rw [List.mem_singleton.1 hb]; exact le_rfl⟩
  | cons y xs ih =>
      have hx : x ∈ x :: y :: xs := List.mem_cons_self
      have hy : y ∈ x :: y :: xs := List.mem_cons_of_mem _ List.mem_cons_self
      have hkeep : ∀ z ∈ [x, y], ∀ a ∈ z :: xs, a ∈ x :: y :: xs := by
        intro z hz a ha
        rcases List.mem_cons.1 ha with rfl | ha
        · rcases List.mem_cons.1 hz with rfl | hz
          · exact hx
          · rw [List.mem_singleton.1 hz]
            exact hy
        · exact List.mem_cons_of_mem _ (List.mem_cons_of_mem _ ha)
      have hstep : ∀ z ∈ [x, y], key z ≤ key x → key z ≤ key y →
          minBy less z xs ∈ x :: y :: xs ∧ ∀ b ∈ x :: y :: xs, key (minBy less z xs) ≤ key b := by
        intro z hz hzx hzy
        obtain ⟨hmem, hle⟩ := ih z fun a ha b hb => h a (hkeep z hz a ha) b (hkeep z hz b hb)
        refine ⟨hkeep z hz _ hmem, fun b hb => ?_⟩
        have hself := hle z List.mem_cons_self
        rcases List.mem_cons.1 hb with rfl | hb
        · exact hself.trans hzx
        · rcases List.mem_cons.1 hb with rfl | hb
          · exact hself.trans hzy
          · exact hle b (List.mem_cons_of_mem _ hb)
      rw [minBy, List.foldl_cons]
      by_cases hlt : less y x = true
      · rw [if_pos hlt]
        exact hstep y (List.mem_cons_of_mem _ List.mem_cons_self) ((h y hy x hx).1 hlt).le le_rfl
      · rw [if_neg hlt]
        exact hstep x List.mem_cons_self le_rfl (not_lt.1 fun hk => hlt ((h y hy x hx).2 hk))

/-- The minimum by distinct keys does not depend on the order of the elements. -/
theorem minBy_perm {x y : α} {xs ys : List α} (hperm : (x :: xs).Perm (y :: ys))
    (h : ∀ a ∈ x :: xs, ∀ b ∈ x :: xs, less a b = true ↔ key a < key b)
    (hinj : ∀ a ∈ x :: xs, ∀ b ∈ x :: xs, key a = key b → a = b) :
    minBy less x xs = minBy less y ys := by
  obtain ⟨hmem, hle⟩ := minBy_spec less key xs x h
  obtain ⟨hmem', hle'⟩ := minBy_spec less key ys y
    fun a ha b hb => h a (hperm.mem_iff.2 ha) b (hperm.mem_iff.2 hb)
  refine hinj _ hmem _ (hperm.mem_iff.2 hmem') (le_antisymm ?_ ?_)
  · exact hle _ (hperm.mem_iff.2 hmem')
  · exact hle' _ (hperm.mem_iff.1 hmem)

end Minima

end ResidualHarness.Python
