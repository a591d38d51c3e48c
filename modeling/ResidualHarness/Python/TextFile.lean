import ResidualHarness.Python.Text

/-!
# Text files

The lines that iterating over a text file gives: the text with universal newlines, cut after every
line feed. Lines written without line breaks of their own are read back one by one (`textLines_unlines`).
-/

set_option autoImplicit false

namespace ResidualHarness.Python

/-- A text cut after every line feed, with the characters of the line being read in `cur`. -/
def cutLines : Str → Str → List Str
  | cur, [] => if cur = [] then [] else [cur]
  | cur, c :: rest => if c = lf then (cur ++ [lf]) :: cutLines [] rest else cutLines (cur ++ [c]) rest

/-- `list(file)` for a file with this text. -/
def textLines (text : Str) : List Str := cutLines [] (universalNewlines text)

theorem cutLines_line {l : Str} (hl : lf ∉ l) (rest : Str) :
    ∀ cur, cutLines cur (l ++ lf :: rest) = (cur ++ l ++ [lf]) :: cutLines [] rest := by
  induction l with
  | nil => simp [cutLines]
  | cons c l ih =>
      intro cur
      have hc : c ≠ lf := fun h => hl (by simp [h])
      rw [List.cons_append, cutLines, if_neg hc, ih fun h => hl (List.mem_cons_of_mem _ h)]
      simp

theorem textLines_unlines {ls : List Str} (hlf : ∀ l ∈ ls, lf ∉ l) (hcr : ∀ l ∈ ls, cr ∉ l) :
    textLines (unlines ls) = ls.map (· ++ [lf]) := by
  have hno : cr ∉ unlines ls := by
    intro h
    obtain ⟨l, hl, hmem⟩ := List.mem_flatMap.1 h
    rcases List.mem_append.1 hmem with hmem | hmem
    · exact hcr l hl hmem
    · exact absurd (List.mem_singleton.1 hmem) (by decide)
  rw [textLines, universalNewlines_eq_self _ hno]
  clear hno
  induction ls with
  | nil => rfl
  | cons l ls ih =>
      have hcut := cutLines_line (hlf l List.mem_cons_self) (unlines ls) []
      have hunl : unlines (l :: ls) = l ++ lf :: unlines ls := by simp [unlines]
      rw [hunl, hcut, ih (fun m hm => hlf m (List.mem_cons_of_mem _ hm))
        fun m hm => hcr m (List.mem_cons_of_mem _ hm)]
      rfl

end ResidualHarness.Python
