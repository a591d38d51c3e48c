import ResidualHarness.Python.JsonRoundTrip

/-!
# Characters of canonical JSON

The writer escapes the control characters, so a property of printable ASCII holds throughout a
canonical text exactly when it holds of the characters its strings leave unescaped (`all_render`).
Two instances matter to a line-oriented file: line boundaries of `str.splitlines`
(`noLineBreak_render`) and UTF-8 (`encodable_render`).
-/

set_option autoImplicit false

namespace ResidualHarness.Python

/-- Printable ASCII: the characters the writer itself produces. -/
def isPlain (c : CodePoint) : Bool := decide (0x20 ≤ c.val ∧ c.val < 0x7F)

/-- The characters of a string that stand unescaped in its literal all satisfy `q`. -/
def rawAll (q : CodePoint → Bool) (s : Str) : Bool := s.all fun c => decide (c.val < 0x20) || q c

/-- Strings without the line boundaries that the writer leaves unescaped. -/
def lineSafe (s : Str) : Bool := s.all fun c => !(c = 0x85 || c = 0x2028 || c = 0x2029)

theorem rawAll_congr {q r : CodePoint → Bool} (h : ∀ c, ¬ c.val < 0x20 → q c = r c) (s : Str) :
    rawAll q s = s.all fun c => decide (c.val < 0x20) || r c := by
  unfold rawAll
  congr 1
  funext c
  by_cases hc : c.val < 0x20
  · simp [hc]
  · simp [hc, h c hc]

theorem isLineBreak_of_ge {c : CodePoint} (hc : ¬ c.val < 0x20) :
    isLineBreak c = (c = 0x85 || c = 0x2028 || c = 0x2029 : Bool) := by
  rw [Bool.eq_iff_iff]
  simp only [isLineBreak, List.contains_eq_mem, List.mem_cons, List.not_mem_nil, or_false,
    decide_eq_true_eq, Bool.or_eq_true, Fin.ext_iff]
  simp
  omega

section Characters

variable {q : CodePoint → Bool} (hq : ∀ c, isPlain c = true → q c = true)

include hq

theorem all_escapeChar (c : CodePoint) :
    (escapeChar c).all q = (decide (c.val < 0x20) || q c) := by
  have hesc : ∀ e : CodePoint, isPlain e = true → [backslash, e].all q = true := by
    intro e he
    simp [hq e he, hq backslash (by decide)]
  have hctl : ∀ d : CodePoint, d.val < 0x20 → (decide (d.val < 0x20) || q d) = true := by
    intro d hd
    simp [hd]
  unfold escapeChar
  by_cases h1 : c = 0x22
  · subst h1
    rw [if_pos rfl, hesc _ (by decide), hq 0x22 (by decide)]
    rfl
  rw [if_neg h1]
  by_cases h2 : c = 0x5C
  · subst h2
    rw [if_pos rfl, hesc _ (by decide), hq 0x5C (by decide)]
    rfl
  rw [if_neg h2]
  by_cases h3 : c = 0x0A
  · subst h3
    rw [if_pos rfl, hesc _ (by decide), hctl _ (by decide)]
  rw [if_neg h3]
  by_cases h4 : c = 0x0D
  · subst h4
    rw [if_pos rfl, hesc _ (by decide), hctl _ (by decide)]
  rw [if_neg h4]
  by_cases h5 : c = 0x09
  · subst h5
    rw [if_pos rfl, hesc _ (by decide), hctl _ (by decide)]
  rw [if_neg h5]
  by_cases h6 : c = 0x0C
  · subst h6
    rw [if_pos rfl, hesc _ (by decide), hctl _ (by decide)]
  rw [if_neg h6]
  by_cases h7 : c = 0x08
  · subst h7
    rw [if_pos rfl, hesc _ (by decide), hctl _ (by decide)]
  rw [if_neg h7]
  by_cases h8 : c.val < 0x20
  · have hhex : ∀ k < 16, isPlain (hexChar k) = true := by decide
    have hhi := hq _ (hhex (c.val / 16) (by omega))
    have hlo := hq _ (hhex (c.val % 16) (by omega))
    rw [if_pos h8, hctl c h8]
    simp [hq backslash (by decide), hq 0x75 (by decide), hq 0x30 (by decide), hhi, hlo]
  · rw [if_neg h8]
    simp [h8]

theorem all_quote (s : Str) : (quote s).all q = rawAll q s := by
  have hd := hq dquote (by decide)
  have hflat : (s.flatMap escapeChar).all q = rawAll q s := by
    induction s with
    | nil => rfl
    | cons c s ih =>
        rw [List.flatMap_cons, List.all_append, all_escapeChar hq, ih]
        rfl
  simp [quote, hd, hflat]

theorem all_join (ts : List Str) : (join [0x2C] ts).all q = ts.all fun t => t.all q := by
  have hc := hq 0x2C (by decide)
  induction ts with
  | nil => rfl
  | cons t ts ih =>
      cases ts with
      | nil => simp [join]
      | cons u us =>
          rw [join, List.all_append, List.all_append, ih]
          simp [hc]

theorem all_digits {s : Str} (h : ∀ c ∈ s, isDigit c = true) : s.all q = true := by
  rw [List.all_eq_true]
  intro c hc
  have hd : 0x30 ≤ c.val ∧ c.val ≤ 0x39 := of_decide_eq_true (h c hc)
  exact hq c (decide_eq_true ⟨by omega, by omega⟩)

theorem all_floatText {s : Str} (h : FloatText s) : s.all q = true := by
  obtain ⟨sign, whole, frac, ex, rfl, hs, hw, hf, he, -⟩ := h
  simp only [List.all_append, Bool.and_eq_true]
  refine ⟨⟨⟨?_, ?_⟩, ?_⟩, ?_⟩
  · rcases hs with rfl | rfl
    · rfl
    · simp [hq 0x2D (by decide)]
  · refine all_digits hq ?_
    rcases hw with rfl | ⟨c, ds, rfl, hc, -, hds⟩
    · intro c hc
      rw [List.mem_singleton.1 hc]
      decide
    · intro d hd
      rcases List.mem_cons.1 hd with rfl | hd
      · exact hc
      · exact hds d hd
  · rcases hf with rfl | ⟨ds, -, rfl, hds⟩
    · rfl
    · rw [List.all_cons, hq 0x2E (by decide), all_digits hq hds]
      rfl
  · rcases he with rfl | ⟨e, sg, ds, -, rfl, hee, hsg, hds⟩
    · rfl
    · rw [List.all_cons, List.all_append, all_digits hq hds, Bool.and_true, Bool.and_eq_true]
      refine ⟨?_, ?_⟩
      · rcases hee with rfl | rfl
        · exact hq _ (by decide)
        · exact hq _ (by decide)
      · rcases hsg with rfl | rfl | rfl
        · rfl
        · simp [hq 0x2B (by decide)]
        · simp [hq 0x2D (by decide)]

theorem all_intRepr (i : Int) : (intRepr i).all q = true := by
  unfold intRepr
  split
  · rw [List.all_cons, hq 0x2D (by decide), all_digits hq (natRepr_isDigit _)]
    rfl
  · exact all_digits hq (natRepr_isDigit _)

variable [FloatModel]

/-- A property of printable ASCII holds throughout a canonical text exactly when it holds of the
unescaped characters of its strings. -/
theorem all_render {v : Json} (hd : v.dumpable = true) :
    v.render.all q = v.allStr (rawAll q) := by
  induction v using Json.induction with
  | hnull =>
      rw [Json.render, lit_null]
      simp [Json.allStr, hq 0x6E (by decide), hq 0x75 (by decide), hq 0x6C (by decide)]
  | hbool b =>
      cases b with
      | true =>
          rw [Json.render, lit_true]
          simp [Json.allStr, hq 0x74 (by decide), hq 0x72 (by decide), hq 0x75 (by decide),
            hq 0x65 (by decide)]
      | false =>
          rw [Json.render, lit_false]
          simp [Json.allStr, hq 0x66 (by decide), hq 0x61 (by decide), hq 0x6C (by decide),
            hq 0x73 (by decide), hq 0x65 (by decide)]
  | hint i => exact all_intRepr hq i
  | hfloat f => exact all_floatText hq (FloatModel.repr_floatText f hd)
  | hstr s => exact all_quote hq s
  | harr xs ih =>
      rw [Json.dumpable, Json.dumpableElems_iff] at hd
      rw [Json.render_arr, List.all_append, List.all_cons, all_join hq, Bool.eq_iff_iff, Json.allStr,
        Json.allStrElems_iff]
      simp only [hq 0x5B (by decide), hq 0x5D (by decide), List.all_cons, List.all_nil,
        Bool.true_and, Bool.and_true, List.all_eq_true, List.forall_mem_map]
      refine forall₂_congr fun x hx => ?_
      rw [← ih x hx (hd x hx), List.all_eq_true]
  | hobj kvs ih =>
      rw [Json.dumpable, Json.dumpableFields_iff] at hd
      rw [Json.render_obj, List.all_append, List.all_cons, all_join hq, Bool.eq_iff_iff, Json.allStr,
        Json.allStrFields_iff]
      simp only [hq 0x7B (by decide), hq 0x7D (by decide), List.all_cons, List.all_nil,
        Bool.true_and, Bool.and_true]
      rw [List.all_eq_true]
      simp only [List.forall_mem_map, mem_sortFields]
      refine forall₂_congr fun kv hkv => ?_
      rw [List.all_append, all_quote hq, List.all_cons, hq 0x3A (by decide), Bool.true_and,
        Bool.and_eq_true, ih kv hkv (hd kv hkv)]

end Characters

variable [FloatModel]

/-- The text of a value has a line boundary exactly when one of its strings has one of U+0085,
U+2028 and U+2029. -/
theorem noLineBreak_render {v : Json} (hd : v.dumpable = true) :
    (∀ c ∈ v.render, isLineBreak c = false) ↔ v.allStr lineSafe = true := by
  have hq : ∀ c, isPlain c = true → (!isLineBreak c) = true := by
    intro c hc
    have hp : 0x20 ≤ c.val ∧ c.val < 0x7F := of_decide_eq_true hc
    rw [isLineBreak_of_ge (by omega)]
    simp [Fin.ext_iff]
    omega
  have hraw : rawAll (fun c => !isLineBreak c) = lineSafe := by
    funext s
    rw [rawAll_congr (r := fun c => !(c = 0x85 || c = 0x2028 || c = 0x2029))
      fun c hc => by rw [isLineBreak_of_ge hc]]
    unfold lineSafe
    congr 1
    funext c
    by_cases hc : c.val < 0x20
    · have h1 : c ≠ 0x85 := by rintro rfl; exact absurd hc (by decide)
      have h2 : c ≠ 0x2028 := by rintro rfl; exact absurd hc (by decide)
      have h3 : c ≠ 0x2029 := by rintro rfl; exact absurd hc (by decide)
      simp [hc, h1, h2, h3]
    · simp [hc]
  rw [← hraw, ← all_render hq hd, List.all_eq_true]
  simp

theorem cr_notMem_render {v : Json} (hd : v.dumpable = true) : cr ∉ v.render := by
  have hq : ∀ c, isPlain c = true → (decide (c ≠ cr)) = true := by
    intro c hc
    refine decide_eq_true ?_
    rintro rfl
    exact absurd hc (by decide)
  have hall := all_render hq hd
  have htrue : v.allStr (rawAll fun c => decide (c ≠ cr)) = true := by
    have : rawAll (fun c => decide (c ≠ cr)) = fun _ => true := by
      funext s
      rw [rawAll, List.all_eq_true]
      intro c _
      by_cases hc : c = cr
      · subst hc
        rfl
      · simp [hc]
    rw [this]
    exact Json.allStr_true v
  rw [htrue, List.all_eq_true] at hall
  intro hmem
  exact absurd (hall cr hmem) (by simp)

/-- A canonical text can be encoded exactly when the strings of the value can. -/
theorem encodable_render {v : Json} (hd : v.dumpable = true) :
    encodable v.render = v.allStr encodable := by
  have hq : ∀ c, isPlain c = true → (!isSurrogate c) = true := by
    intro c hc
    have hp : 0x20 ≤ c.val ∧ c.val < 0x7F := of_decide_eq_true hc
    simp [isSurrogate]
    omega
  have hraw : rawAll (fun c => !isSurrogate c) = encodable := by
    funext s
    unfold rawAll encodable
    congr 1
    funext c
    by_cases hc : c.val < 0x20
    · simp [hc, isSurrogate]
      omega
    · simp [hc]
  have h := all_render hq hd
  rw [hraw] at h
  exact h

end ResidualHarness.Python
