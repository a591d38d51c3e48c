import ResidualHarness.Python.JsonRoundTrip

/-!
# A concrete float model

The floats with a nonnegative integral value, and infinity: enough to run the models on concrete
inputs. `repr` is Python's for values below 10^16, and `float` of any other literal than `n.0` is
infinite here.
-/

set_option autoImplicit false

namespace ResidualHarness.Python

/-- `float(text)` for the texts `n.0`. -/
def wholeOfLiteral (text : Str) : Option Nat :=
  if text.dropWhile isDigit = [0x2E, 0x30] then some (natOfDigits (text.takeWhile isDigit)) else none

theorem wholeOfLiteral_repr (n : Nat) : wholeOfLiteral (natRepr n ++ [0x2E, 0x30]) = some n := by
  have hdot : ∀ c r, ([0x2E, 0x30] : Str) = c :: r → isDigit c = false := by
    intro c r h
    cases h
    rfl
  obtain ⟨htake, hdrop⟩ := takeWhile_stop (natRepr_isDigit n) hdot
  rw [wholeOfLiteral, htake, hdrop, if_pos rfl, natOfDigits_natRepr]

/-- Whole floats and infinity. -/
@[reducible]
def wholeFloats : FloatModel where
  F := Option Nat
  decEq := inferInstance
  isFinite := Option.isSome
  value := fun f => (f.getD 0 : Nat)
  repr := fun f => natRepr (f.getD 0) ++ [0x2E, 0x30]
  ofLiteral := wholeOfLiteral
  sum := fun fs => fs.foldl (fun a b => a.bind fun x => b.map (x + ·)) (some 0)
  repr_floatText := by
    intro f _
    refine ⟨[], natRepr (f.getD 0), [0x2E, 0x30], [], by simp, Or.inl rfl, natRepr_whole _, ?_,
      Or.inl rfl, ?_⟩
    · refine Or.inr ⟨[0x30], by simp, rfl, ?_⟩
      intro d hd
      rw [List.mem_singleton.1 hd]
      rfl
    · simp
  ofLiteral_repr := by
    intro f hf
    obtain ⟨n, rfl⟩ := Option.isSome_iff_exists.1 hf
    exact wholeOfLiteral_repr n

end ResidualHarness.Python
