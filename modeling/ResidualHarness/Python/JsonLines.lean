import ResidualHarness.Python.JsonChars
import ResidualHarness.Python.JsonPrefix
import ResidualHarness.Python.Compare

/-!
# Files of one JSON object per line

A file to which the canonical text of one object is appended per line, read back by
`read_text().splitlines()`. The texts are written with `ensure_ascii=False`, and `splitlines` cuts
at U+0085, U+2028 and U+2029 as well as at line feeds. Without these characters the lines read are
the texts written (`splitLines_jsonLines`); otherwise the first object that has one is cut
(`splitLines_jsonLines_cut`).
-/

set_option autoImplicit false

namespace ResidualHarness.Python

theorem splitLinesFrom_break (cur a rest : Str) {c : CodePoint}
    (ha : ∀ d ∈ a, isLineBreak d = false) (hc : isLineBreak c = true) (hcr : c ≠ cr) :
    splitLinesFrom false cur (a ++ c :: rest) = (cur ++ a) :: splitLinesFrom false [] rest := by
  induction a generalizing cur with
  | nil =>
      rw [List.nil_append, splitLinesFrom_cons _ _ _ _ hcr, if_pos hc]
      rfl
  | cons d a ih =>
      have hd : isLineBreak d = false := ha d List.mem_cons_self
      have hdcr : d ≠ cr := by
        rintro rfl
        rw [isLineBreak_cr] at hd
        cases hd
      rw [List.cons_append, splitLinesFrom_cons _ _ _ _ hdcr, if_neg (by rw [hd]; decide),
        ih (cur ++ [d]) fun e he => ha e (List.mem_cons_of_mem _ he), List.append_assoc]
      rfl

/-- The first character of a list with a property splits the list. -/
theorem exists_first {p : CodePoint → Bool} {s : Str} (h : ¬ ∀ c ∈ s, p c = false) :
    ∃ a c b, s = a ++ c :: b ∧ (∀ d ∈ a, p d = false) ∧ p c = true := by
  induction s with
  | nil => exact absurd (by simp) h
  | cons d s ih =>
      cases hd : p d with
      | true => exact ⟨[], d, s, rfl, by simp, hd⟩
      | false =>
          have hs : ¬ ∀ c ∈ s, p c = false := by
            intro hall
            apply h
            intro c hc
            rcases List.mem_cons.1 hc with rfl | hc
            · exact hd
            · exact hall c hc
          obtain ⟨a, c, b, rfl, ha, hc⟩ := ih hs
          refine ⟨d :: a, c, b, rfl, ?_, hc⟩
          intro e he
          rcases List.mem_cons.1 he with rfl | he
          · exact hd
          · exact ha e he

theorem unlines_append (ls ms : List Str) : unlines (ls ++ ms) = unlines ls ++ unlines ms :=
  List.flatMap_append

theorem unlines_cons (l : Str) (ls : List Str) : unlines (l :: ls) = l ++ lf :: unlines ls := by
  rw [unlines, List.flatMap_cons, List.append_assoc]
  rfl

variable [FloatModel]

/-- The text of a file with one object per line. -/
def jsonLines (rs : List Fields) : Str := unlines (rs.map fun r => (Json.obj r).render)

/-- Objects that can be written: distinct keys, printable numbers. -/
def Writable (r : Fields) : Prop := (Json.obj r).wf = true ∧ (Json.obj r).dumpable = true

theorem jsonLines_snoc (rs : List Fields) (r : Fields) :
    jsonLines (rs ++ [r]) = jsonLines rs ++ ((Json.obj r).render ++ [lf]) := by
  rw [jsonLines, List.map_append, unlines_append, List.map_singleton, unlines_cons]
  rfl

theorem render_noLineBreak {r : Fields} (hr : Writable r)
    (hs : (Json.obj r).allStr lineSafe = true) :
    ∀ c ∈ (Json.obj r).render, isLineBreak c = false :=
  (noLineBreak_render hr.2).2 hs

/-- Text-mode reading leaves the file as it is: control characters are escaped. -/
theorem universalNewlines_jsonLines {rs : List Fields} (h : ∀ r ∈ rs, Writable r) :
    universalNewlines (jsonLines rs) = jsonLines rs := by
  apply universalNewlines_eq_self
  intro hm
  obtain ⟨l, hl, hml⟩ := List.mem_flatMap.1 hm
  obtain ⟨r, hr, rfl⟩ := List.mem_map.1 hl
  rcases List.mem_append.1 hml with hml | hml
  · exact cr_notMem_render (h r hr).2 hml
  · exact absurd (List.mem_singleton.1 hml) (by decide)

theorem splitLines_jsonLines {rs : List Fields} (h : ∀ r ∈ rs, Writable r)
    (hs : ∀ r ∈ rs, (Json.obj r).allStr lineSafe = true) :
    splitLines false (jsonLines rs) = rs.map fun r => (Json.obj r).render := by
  apply splitLines_unlines
  intro l hl
  obtain ⟨r, hr, rfl⟩ := List.mem_map.1 hl
  exact render_noLineBreak (h r hr) (hs r hr)

theorem render_obj_not_blank {r : Fields} {a b : Str} (h : (Json.obj r).render = a ++ b)
    (ha : a ≠ []) : isBlank a = false := by
  cases a with
  | nil => exact absurd rfl ha
  | cons c a =>
      rw [Json.render_obj, List.cons_append, List.cons_append] at h
      rw [← (List.cons.inj h).1]
      rfl

/-- An object with an unsafe string is cut at its first break, and the piece is unreadable. -/
theorem render_cut {r : Fields} (hr : Writable r) (hs : ¬ (Json.obj r).allStr lineSafe = true)
    (rest : Str) : ∃ a tail, splitLines false ((Json.obj r).render ++ lf :: rest) = a :: tail ∧
      isBlank a = false ∧ loads a = none := by
  have hbrk : ¬ ∀ c ∈ (Json.obj r).render, isLineBreak c = false :=
    fun hall => hs ((noLineBreak_render hr.2).1 hall)
  obtain ⟨a, c, b, hab, ha, hc⟩ := exists_first hbrk
  have hcr : c ≠ cr := by
    rintro rfl
    exact cr_notMem_render hr.2 (by rw [hab]; simp)
  refine ⟨a, splitLines false (b ++ lf :: rest), ?_, ?_, ?_⟩
  · rw [hab, List.append_assoc, List.cons_append, splitLines,
      splitLinesFrom_break [] a _ ha hc hcr]
    rfl
  · apply render_obj_not_blank hab
    -- the text of an object starts with a brace, which is not a line break
    rintro rfl
    rw [Json.render_obj, List.nil_append, List.cons_append] at hab
    rw [← (List.cons.inj hab).1] at hc
    cases hc
  · exact loads_proper_prefix hr.1 hr.2 hab (by simp)

theorem splitLines_jsonLines_cut {rs : List Fields} (h : ∀ r ∈ rs, Writable r)
    (hs : ¬ ∀ r ∈ rs, (Json.obj r).allStr lineSafe = true) :
    ∃ pre r post a tail, rs = pre ++ r :: post ∧
      (∀ x ∈ pre, (Json.obj x).allStr lineSafe = true) ∧
      splitLines false (jsonLines rs) =
        (pre.map fun x : Fields => (Json.obj x).render) ++ a :: tail ∧
      isBlank a = false ∧ loads a = none := by
  induction rs with
  | nil => exact absurd nofun hs
  | cons r rs ih =>
      have htext : jsonLines (r :: rs) = (Json.obj r).render ++ lf :: jsonLines rs := by
        rw [jsonLines, List.map_cons, unlines_cons]
        rfl
      by_cases hr : (Json.obj r).allStr lineSafe = true
      · have htl : ¬ ∀ x ∈ rs, (Json.obj x).allStr lineSafe = true := by
          intro hall
          apply hs
          intro x hx
          rcases List.mem_cons.1 hx with rfl | hx
          · exact hr
          · exact hall x hx
        obtain ⟨pre, x, post, a, tail, rfl, hpre, hsplit, hb, hl⟩ :=
          ih (fun x hx => h x (List.mem_cons_of_mem _ hx)) htl
        refine ⟨r :: pre, x, post, a, tail, rfl, ?_, ?_, hb, hl⟩
        · intro y hy
          rcases List.mem_cons.1 hy with rfl | hy
          · exact hr
          · exact hpre y hy
        · rw [htext, splitLines, splitLinesFrom_noBreak [] _ _
            (render_noLineBreak (h r List.mem_cons_self) hr), List.nil_append, List.map_cons,
            List.cons_append]
          exact congrArg (_ :: ·) hsplit
      · obtain ⟨a, tail, hsplit, hb, hl⟩ := render_cut (h r List.mem_cons_self) hr (jsonLines rs)
        refine ⟨[], r, rs, a, tail, rfl, nofun, ?_, hb, hl⟩
        rw [htext, hsplit]
        rfl

end ResidualHarness.Python
