import ResidualHarness.Python.JsonParse

/-!
# Reading back JSON

`json.dumps` writes in a style: with or without blanks between tokens, with or without sorted keys,
and with escapes of its own for the characters of strings. Reading a text of any style gives the
value back, with its object fields in key order if the style sorts them (`loads_renderIn`). For the
canonical style this is `loads_render`.
-/

set_option autoImplicit false

namespace ResidualHarness.Python

/-! ## Strings -/

/-- The unit that the writer's text of a character scans to. -/
def escUnit (c : CodePoint) : StrUnit :=
  if c.val < 0x20 ∧ c ≠ 0x0A ∧ c ≠ 0x0D ∧ c ≠ 0x09 ∧ c ≠ 0x0C ∧ c ≠ 0x08 then .code c.val
  else .char c

theorem scanString_quote (rest : Str) : scanString (dquote :: rest) = some ([], rest) := by
  rw [scanString.eq_def]
  exact if_pos rfl

theorem scanString_short {e c : CodePoint} (he : e ≠ 0x75) (hc : simpleEscape e = some c)
    (rest : Str) :
    scanString (backslash :: e :: rest) = (scanString rest).map (pushUnit (.char c)) := by
  rw [scanString.eq_def]
  have hq : backslash ≠ dquote := by decide
  simp only [if_neg hq, if_true, if_neg he, hc]

theorem scanString_code {h1 h2 h3 h4 : CodePoint} {n : Nat} (hn : hex4 h1 h2 h3 h4 = some n)
    (rest : Str) :
    scanString (backslash :: 0x75 :: h1 :: h2 :: h3 :: h4 :: rest) =
      (scanString rest).map (pushUnit (.code n)) := by
  rw [scanString.eq_def]
  have hq : backslash ≠ dquote := by decide
  simp only [if_neg hq, if_true, hn]

theorem scanString_plain {c : CodePoint} (hq : c ≠ dquote) (hb : c ≠ backslash)
    (hc : ¬ c.val < 0x20) (rest : Str) :
    scanString (c :: rest) = (scanString rest).map (pushUnit (.char c)) := by
  rw [scanString.eq_def]
  simp only [if_neg hq, if_neg hb, if_neg hc]

theorem scanString_escapeChar (c : CodePoint) (rest : Str) :
    scanString (escapeChar c ++ rest) = (scanString rest).map (pushUnit (escUnit c)) := by
  unfold escapeChar
  by_cases h1 : c = 0x22
  · subst h1
    exact scanString_short (by decide) (by decide) rest
  rw [if_neg h1]
  by_cases h2 : c = 0x5C
  · subst h2
    exact scanString_short (by decide) (by decide) rest
  rw [if_neg h2]
  by_cases h3 : c = 0x0A
  · subst h3
    exact scanString_short (by decide) (by decide) rest
  rw [if_neg h3]
  by_cases h4 : c = 0x0D
  · subst h4
    exact scanString_short (by decide) (by decide) rest
  rw [if_neg h4]
  by_cases h5 : c = 0x09
  · subst h5
    exact scanString_short (by decide) (by decide) rest
  rw [if_neg h5]
  by_cases h6 : c = 0x0C
  · subst h6
    exact scanString_short (by decide) (by decide) rest
  rw [if_neg h6]
  by_cases h7 : c = 0x08
  · subst h7
    exact scanString_short (by decide) (by decide) rest
  rw [if_neg h7]
  by_cases h8 : c.val < 0x20
  · -- the remaining control characters are written as `\u00XX`
    rw [if_pos h8, escUnit, if_pos ⟨h8, h3, h4, h5, h6, h7⟩]
    have hhi := hexVal_hexChar (d := c.val / 16) (by omega)
    have hlo := hexVal_hexChar (d := c.val % 16) (by omega)
    have hzero : hexVal (0x30 : CodePoint) = some 0 := by decide
    have hcode : hex4 0x30 0x30 (hexChar (c.val / 16)) (hexChar (c.val % 16)) = some c.val := by
      simp only [hex4, hzero, hhi, hlo]
      congr 1
      omega
    exact scanString_code hcode rest
  · rw [if_neg h8, escUnit, if_neg fun h => h8 h.1]
    exact scanString_plain h1 h2 h8 rest

theorem scanString_flatMap (s rest : Str) :
    scanString (s.flatMap escapeChar ++ dquote :: rest) = some (s.map escUnit, rest) := by
  induction s with
  | nil => exact scanString_quote rest
  | cons c s ih =>
      rw [List.flatMap_cons, List.append_assoc, scanString_escapeChar, ih]
      rfl

theorem joinUnits_escUnit (s : Str) : joinUnits (s.map escUnit) = s := by
  induction s with
  | nil => rfl
  | cons c s ih =>
      by_cases hc : c.val < 0x20 ∧ c ≠ 0x0A ∧ c ≠ 0x0D ∧ c ≠ 0x09 ∧ c ≠ 0x0C ∧ c ≠ 0x08
      · have hcode : codePoint c.val = c := Fin.ext (Nat.mod_eq_of_lt c.isLt)
        rw [List.map_cons, escUnit, if_pos hc]
        cases s with
        | nil => simp [joinUnits, hcode]
        | cons d s =>
            rw [List.map_cons] at ih ⊢
            by_cases hd : d.val < 0x20 ∧ d ≠ 0x0A ∧ d ≠ 0x0D ∧ d ≠ 0x09 ∧ d ≠ 0x0C ∧ d ≠ 0x08
            · rw [escUnit, if_pos hd] at ih ⊢
              rw [joinUnits, if_neg (by omega), hcode, ih]
            · rw [escUnit, if_neg hd] at ih ⊢
              rw [joinUnits, hcode, ih]
              simp
      · rw [List.map_cons, escUnit, if_neg hc, joinUnits, ih]

theorem parseString_quote (s rest : Str) :
    parseString (s.flatMap escapeChar ++ dquote :: rest) = some (s, rest) := by
  rw [parseString, scanString_flatMap, Option.map_some, joinUnits_escUnit]

/-! ## Numbers -/

/-- Characters that would continue a number. -/
def isNumChar (c : CodePoint) : Bool := isDigit c || c = 0x2E || c = 0x65 || c = 0x45

/-- A text that does not continue a number. -/
def Stops (rest : Str) : Prop := ∀ c r, rest = c :: r → isNumChar c = false

theorem stops_nil : Stops [] := by
  intro c r h
  cases h

theorem stops_cons {c : CodePoint} (r : Str) (hc : isNumChar c = false) : Stops (c :: r) := by
  intro d r' h
  cases h
  exact hc

theorem takeWhile_stop {p : CodePoint → Bool} {ds rest : Str} (hds : ∀ d ∈ ds, p d = true)
    (hrest : ∀ c r, rest = c :: r → p c = false) :
    (ds ++ rest).takeWhile p = ds ∧ (ds ++ rest).dropWhile p = rest := by
  induction ds with
  | nil =>
      cases rest with
      | nil => exact ⟨rfl, rfl⟩
      | cons c r =>
          have hc := hrest c r rfl
          simp [hc]
  | cons d ds ih =>
      have hd := hds d List.mem_cons_self
      obtain ⟨h1, h2⟩ := ih fun x hx => hds x (List.mem_cons_of_mem _ hx)
      simp [hd, h1, h2]

theorem Stops.digit {rest : Str} (h : Stops rest) : ∀ c r, rest = c :: r → isDigit c = false := by
  intro c r hr
  have := h c r hr
  simp only [isNumChar, Bool.or_eq_false_iff] at this
  exact this.1.1.1

theorem scanFrac_stop {rest : Str} (h : Stops rest) : scanFrac rest = ([], rest) := by
  cases rest with
  | nil => rfl
  | cons c r =>
      have hc := h c r rfl
      simp only [isNumChar, Bool.or_eq_false_iff, decide_eq_false_iff_not] at hc
      rw [scanFrac, if_neg fun hh => hc.1.1.2 hh.1]

theorem scanExp_stop {rest : Str} (h : Stops rest) : scanExp rest = ([], rest) := by
  cases rest with
  | nil => rfl
  | cons c r =>
      have hc := h c r rfl
      simp only [isNumChar, Bool.or_eq_false_iff, decide_eq_false_iff_not] at hc
      rw [scanExp]
      refine if_neg fun hh => ?_
      rcases hh.1 with he | he
      · exact hc.1.2 he
      · exact hc.2 he

/-- The grammar of the part before a fraction: a zero, or digits without a leading zero. -/
def WholeText (whole : Str) : Prop :=
  whole = [0x30] ∨ ∃ c ds, whole = c :: ds ∧ isDigit c = true ∧ c ≠ 0x30 ∧
    ∀ d ∈ ds, isDigit d = true

theorem scanWhole_append {whole rest : Str} (hw : WholeText whole)
    (hrest : ∀ c r, rest = c :: r → isDigit c = false) :
    scanWhole (whole ++ rest) = some (whole, rest) := by
  rcases hw with rfl | ⟨c, ds, rfl, hc, hz, hds⟩
  · rfl
  · obtain ⟨h1, h2⟩ := takeWhile_stop hds hrest
    rw [List.cons_append, scanWhole, if_neg hz, if_pos hc, h1, h2]

theorem scanMinus_append {sign whole rest : Str} (hs : sign = [] ∨ sign = [0x2D])
    (hw : WholeText whole) : scanMinus (sign ++ (whole ++ rest)) = (sign, whole ++ rest) := by
  rcases hs with rfl | rfl
  · -- a digit is not a minus sign
    rcases hw with rfl | ⟨c, ds, rfl, hc, -, -⟩
    · rfl
    · have hne : c ≠ 0x2D := by
        rintro rfl
        exact absurd hc (by decide)
      rw [List.nil_append, List.cons_append, scanMinus, if_neg hne]
  · rfl

theorem natRepr_whole (n : Nat) : WholeText (natRepr n) := by
  by_cases h : n = 0
  · left
    rw [h]
    rfl
  · obtain ⟨c, rest, he, hc, hz⟩ := natRepr_head h
    right
    refine ⟨c, rest, he, hc, hz, fun d hd => natRepr_isDigit n d ?_⟩
    rw [he]
    exact List.mem_cons_of_mem _ hd

theorem scanFrac_append {frac rest : Str}
    (hf : frac = [] ∨ ∃ ds, ds ≠ [] ∧ frac = 0x2E :: ds ∧ ∀ d ∈ ds, isDigit d = true)
    (hdig : ∀ c r, rest = c :: r → isDigit c = false)
    (hdot : ∀ c r, rest = c :: r → c ≠ 0x2E) :
    scanFrac (frac ++ rest) = (frac, rest) := by
  rcases hf with rfl | ⟨ds, hne, rfl, hds⟩
  · cases rest with
    | nil => rfl
    | cons c r => rw [List.nil_append, scanFrac, if_neg fun h => hdot c r rfl h.1]
  · obtain ⟨h1, h2⟩ := takeWhile_stop hds hdig
    rw [List.cons_append, scanFrac, h1, h2, if_pos ⟨rfl, hne⟩]

theorem scanExp_append {ex rest : Str}
    (he : ex = [] ∨ ∃ e sg ds, ds ≠ [] ∧ ex = e :: (sg ++ ds) ∧ (e = 0x65 ∨ e = 0x45) ∧
      (sg = [] ∨ sg = [0x2B] ∨ sg = [0x2D]) ∧ ∀ d ∈ ds, isDigit d = true)
    (hr : Stops rest) : scanExp (ex ++ rest) = (ex, rest) := by
  rcases he with rfl | ⟨e, sg, ds, hne, rfl, hee, hsg, hds⟩
  · exact scanExp_stop hr
  · have hsign : scanExpSign (sg ++ (ds ++ rest)) = (sg, ds ++ rest) := by
      rcases hsg with rfl | rfl | rfl
      · cases ds with
        | nil => exact absurd rfl hne
        | cons d ds =>
            have hd := hds d List.mem_cons_self
            have h1 : d ≠ 0x2B := by
              rintro rfl
              exact absurd hd (by decide)
            have h2 : d ≠ 0x2D := by
              rintro rfl
              exact absurd hd (by decide)
            rw [List.nil_append, List.cons_append, scanExpSign, if_neg (by simp [h1, h2])]
      · rfl
      · rfl
    obtain ⟨h1, h2⟩ := takeWhile_stop hds hr.digit
    rw [List.cons_append, List.append_assoc, scanExp]
    simp only [hsign, h1, h2]
    rw [if_pos ⟨hee, hne⟩]

/-! ## First characters -/

/-- First characters of canonical texts. -/
def StartsValue (c : CodePoint) : Prop :=
  isJsonSpace c = false ∧ c ≠ 0x5D ∧ c ≠ 0x7D ∧ c ≠ 0xFEFF

/-- Numbers start with a minus sign or a digit. -/
def StartsNumber (c : CodePoint) : Prop := c = 0x2D ∨ isDigit c = true

theorem StartsNumber.ne {c : CodePoint} (h : StartsNumber c) :
    StartsValue c ∧ c ≠ dquote ∧ c ≠ 0x5B ∧ c ≠ 0x7B ∧ c ≠ 0x6E ∧ c ≠ 0x74 ∧ c ≠ 0x66 := by
  have key : ∀ n : Nat, (n = 0x2D ∨ (0x30 ≤ n ∧ n ≤ 0x39)) → c.val = n →
      StartsValue c ∧ c ≠ dquote ∧ c ≠ 0x5B ∧ c ≠ 0x7B ∧ c ≠ 0x6E ∧ c ≠ 0x74 ∧ c ≠ 0x66 := by
    intro n hn hc
    have hne : ∀ m : CodePoint, m.val ≠ n → c ≠ m := by
      intro m hm he
      exact hm (he ▸ hc)
    refine ⟨⟨?_, ?_, ?_, ?_⟩, ?_, ?_, ?_, ?_, ?_, ?_⟩
    · simp only [isJsonSpace, Bool.or_eq_false_iff, decide_eq_false_iff_not]
      refine ⟨⟨⟨?_, ?_⟩, ?_⟩, ?_⟩ <;> exact hne _ (by simp; omega)
    all_goals exact hne _ (by simp [dquote]; omega)
  rcases h with rfl | h
  · exact key 0x2D (Or.inl rfl) rfl
  · exact key c.val (Or.inr (of_decide_eq_true h)) rfl

theorem whole_starts {whole : Str} (h : WholeText whole) :
    ∃ c t, whole = c :: t ∧ StartsNumber c := by
  rcases h with rfl | ⟨c, ds, rfl, hc, -, -⟩
  · exact ⟨_, _, rfl, Or.inr (by decide)⟩
  · exact ⟨c, ds, rfl, Or.inr hc⟩

theorem intRepr_starts (i : Int) : ∃ c t, intRepr i = c :: t ∧ StartsNumber c := by
  unfold intRepr
  split
  · exact ⟨_, _, rfl, Or.inl rfl⟩
  · exact whole_starts (natRepr_whole _)

theorem floatText_starts {s : Str} (h : FloatText s) : ∃ c t, s = c :: t ∧ StartsNumber c := by
  obtain ⟨sign, whole, frac, ex, rfl, hs, hw, -, -, -⟩ := h
  rcases hs with rfl | rfl
  · obtain ⟨c, t, rfl, hc⟩ := whole_starts hw
    exact ⟨c, _, rfl, hc⟩
  · exact ⟨_, _, rfl, Or.inl rfl⟩

theorem lit_null : lit "null" = [0x6E, 0x75, 0x6C, 0x6C] := by decide

theorem lit_true : lit "true" = [0x74, 0x72, 0x75, 0x65] := by decide

theorem lit_false : lit "false" = [0x66, 0x61, 0x6C, 0x73, 0x65] := by decide

theorem skipSpace_cons {c : CodePoint} (hc : isJsonSpace c = false) (t : Str) :
    skipSpace (c :: t) = c :: t := by
  simp [skipSpace, hc]

theorem afterKeyword_none {k s : Str} {a c : CodePoint} {k' t : Str} (hk : k = a :: k')
    (hs : s = c :: t) (hne : c ≠ a) : afterKeyword k s = none := by
  subst hk hs
  refine if_neg fun h => hne ?_
  obtain ⟨u, hu⟩ := h
  exact (List.cons.inj hu).1.symm

theorem afterKeyword_append (k rest : Str) : afterKeyword k (k ++ rest) = some rest := by
  rw [afterKeyword, if_pos (List.prefix_append k rest), List.drop_left]

theorem join_starts (sep : Str) {x : Str} {c : CodePoint} {t : Str} (hx : x = c :: t) (xs : List Str) :
    ∃ t', join sep (x :: xs) = c :: t' := by
  subst hx
  cases xs with
  | nil => exact ⟨t, rfl⟩
  | cons y ys => exact ⟨t ++ sep ++ join sep (y :: ys), rfl⟩

/-! ## Styles -/

/-- A style of `json.dumps`: the blanks after a comma and after a colon, whether keys are sorted, and
how the characters of strings are written. The strings of `readable` read back. -/
structure JsonStyle where
  afterComma : Str
  afterColon : Str
  sort : Bool
  escape : CodePoint → Str
  readable : Str → Bool
  afterComma_space : ∀ c ∈ afterComma, isJsonSpace c = true
  afterColon_space : ∀ c ∈ afterColon, isJsonSpace c = true
  reads : ∀ s rest, readable s = true →
    parseString (s.flatMap escape ++ dquote :: rest) = some (s, rest)

namespace JsonStyle

/-- The items of an object in the order they are written in. -/
def arrange (st : JsonStyle) {α : Type} (kvs : List (Str × α)) : List (Str × α) :=
  if st.sort = true then sortFields kvs else kvs

/-- The text of a string. -/
def quote (st : JsonStyle) (s : Str) : Str := dquote :: s.flatMap st.escape ++ [dquote]

/-- The text of one object member, for the text of its value. -/
def member (st : JsonStyle) (k t : Str) : Str := st.quote k ++ 0x3A :: (st.afterColon ++ t)

/-- What is written between two items. -/
def comma (st : JsonStyle) : Str := 0x2C :: st.afterComma

theorem mem_arrange {st : JsonStyle} {α : Type} {kvs : List (Str × α)} {kv : Str × α} :
    kv ∈ st.arrange kvs ↔ kv ∈ kvs := by
  rw [arrange]
  split
  · exact mem_sortFields
  · exact Iff.rfl

theorem arrange_map (st : JsonStyle) {α β : Type} (f : α → β) (kvs : List (Str × α)) :
    st.arrange (kvs.map fun kv => (kv.1, f kv.2)) =
      (st.arrange kvs).map fun kv => (kv.1, f kv.2) := by
  rw [arrange, arrange]
  split
  · exact sortFields_map f kvs
  · rfl

theorem nodup_keys_arrange (st : JsonStyle) {α : Type} (kvs : List (Str × α)) :
    ((st.arrange kvs).map Prod.fst).Nodup ↔ (kvs.map Prod.fst).Nodup := by
  rw [arrange]
  split
  · exact nodup_keys_sortFields kvs
  · exact Iff.rfl

end JsonStyle

theorem skipSpace_blanks {ws t : Str} (h : ∀ c ∈ ws, isJsonSpace c = true) :
    skipSpace (ws ++ t) = skipSpace t := by
  induction ws with
  | nil => rfl
  | cons c ws ih =>
      rw [List.cons_append, skipSpace, List.dropWhile_cons, if_pos (h c List.mem_cons_self)]
      exact ih fun d hd => h d (List.mem_cons_of_mem _ hd)

section Reader

variable [FloatModel]

theorem parseNumber_int {i : Int} (hi : intPrintable i = true) {rest : Str} (hr : Stops rest) :
    parseNumber (intRepr i ++ rest) = some (.int i, rest) := by
  have hlen : (natRepr i.natAbs).length ≤ intMaxStrDigits := of_decide_eq_true hi
  have key : ∀ sign : Str, (sign = [] ∨ sign = [0x2D]) →
      parseNumber (sign ++ (natRepr i.natAbs ++ rest)) =
        some (.int (intOfLiteral sign (natRepr i.natAbs)), rest) := by
    intro sign hs
    unfold parseNumber
    simp only [scanMinus_append hs (natRepr_whole _), scanWhole_append (natRepr_whole _) hr.digit,
      scanFrac_stop hr, scanExp_stop hr, and_self, if_true, if_pos hlen]
  unfold intRepr
  split
  · rename_i hneg
    have := key [0x2D] (Or.inr rfl)
    rw [intOfLiteral, if_neg (by simp), natOfDigits_natRepr] at this
    rw [List.cons_append]
    refine this.trans ?_
    congr 3
    omega
  · rename_i hneg
    have := key [] (Or.inl rfl)
    rw [intOfLiteral, if_pos rfl, natOfDigits_natRepr] at this
    refine this.trans ?_
    congr 3
    omega

theorem parseNumber_float {s rest : Str} (h : FloatText s) (hr : Stops rest) :
    parseNumber (s ++ rest) = some (.float (FloatModel.ofLiteral s), rest) := by
  obtain ⟨sign, whole, frac, ex, rfl, hs, hw, hf, he, hfe⟩ := h
  have hexp := scanExp_append he hr
  -- what follows the fraction is the exponent or the end of the number
  have hend : ∀ c r, ex ++ rest = c :: r → isDigit c = false ∧ c ≠ 0x2E := by
    intro c r hc
    rcases he with rfl | ⟨e, sg, ds, -, rfl, hee, -, -⟩
    · have hn := hr c r hc
      simp only [isNumChar, Bool.or_eq_false_iff, decide_eq_false_iff_not] at hn
      exact ⟨hn.1.1.1, hn.1.1.2⟩
    · cases hc
      rcases hee with rfl | rfl <;> exact ⟨by decide, by decide⟩
  have hfrac := scanFrac_append hf (fun c r hc => (hend c r hc).1) fun c r hc => (hend c r hc).2
  have hwhole : ∀ c r, frac ++ (ex ++ rest) = c :: r → isDigit c = false := by
    intro c r hc
    rcases hf with rfl | ⟨ds, -, rfl, -⟩
    · exact (hend c r hc).1
    · cases hc
      decide
  have happ : sign ++ whole ++ frac ++ ex ++ rest = sign ++ (whole ++ (frac ++ (ex ++ rest))) := by
    simp
  rw [happ]
  unfold parseNumber
  simp only [scanMinus_append hs hw, scanWhole_append hw hwhole, hfrac, hexp, if_neg hfe]

/-! ## Texts in a style -/

namespace Json

mutual
/-- The text of a value in a style, with every number printed. -/
def renderIn (st : JsonStyle) : Json → Str
  | .null => lit "null"
  | .bool true => lit "true"
  | .bool false => lit "false"
  | .int i => intRepr i
  | .float f => FloatModel.repr f
  | .str s => st.quote s
  | .arr xs => 0x5B :: join st.comma (renderElemsIn st xs) ++ [0x5D]
  | .obj kvs =>
      0x7B :: join st.comma ((st.arrange (renderFieldsIn st kvs)).map fun kt =>
        st.member kt.1 kt.2) ++ [0x7D]
/-- Texts of the elements of an array. -/
def renderElemsIn (st : JsonStyle) : List Json → List Str
  | [] => []
  | x :: xs => renderIn st x :: renderElemsIn st xs
/-- Keys and value texts of an object, in insertion order. -/
def renderFieldsIn (st : JsonStyle) : List (Str × Json) → List (Str × Str)
  | [] => []
  | (k, v) :: kvs => (k, renderIn st v) :: renderFieldsIn st kvs
end

/-- The value as it reads back from a text of the style. -/
def normIn (st : JsonStyle) (v : Json) : Json := if st.sort = true then v.norm else v

theorem renderElemsIn_eq (st : JsonStyle) (xs : List Json) :
    renderElemsIn st xs = xs.map (renderIn st) := by
  induction xs with
  | nil => rfl
  | cons x xs ih => simp [renderElemsIn, ih]

theorem renderFieldsIn_eq (st : JsonStyle) (kvs : List (Str × Json)) :
    renderFieldsIn st kvs = kvs.map fun kv => (kv.1, renderIn st kv.2) := by
  induction kvs with
  | nil => rfl
  | cons kv kvs ih => simp [renderFieldsIn, ih]

theorem renderIn_arr (st : JsonStyle) (xs : List Json) :
    renderIn st (.arr xs) = 0x5B :: join st.comma (xs.map (renderIn st)) ++ [0x5D] := by
  rw [renderIn, renderElemsIn_eq]

theorem renderIn_obj (st : JsonStyle) (kvs : List (Str × Json)) :
    renderIn st (.obj kvs) = 0x7B :: join st.comma
      ((st.arrange kvs).map fun kv => st.member kv.1 (renderIn st kv.2)) ++ [0x7D] := by
  rw [renderIn, renderFieldsIn_eq, JsonStyle.arrange_map, List.map_map]
  rfl

theorem normIn_arr (st : JsonStyle) (xs : List Json) :
    normIn st (.arr xs) = .arr (xs.map (normIn st)) := by
  cases h : st.sort with
  | true =>
      have hf : normIn st = norm := funext fun v => by rw [normIn, h, if_pos rfl]
      rw [hf, norm_arr]
  | false =>
      have hf : normIn st = id := funext fun v => by
        rw [normIn, h]
        rfl
      rw [hf, List.map_id]
      rfl

theorem normIn_obj (st : JsonStyle) (kvs : List (Str × Json)) :
    normIn st (.obj kvs) = .obj ((st.arrange kvs).map fun kv => (kv.1, normIn st kv.2)) := by
  cases h : st.sort with
  | true => simp only [normIn, JsonStyle.arrange, h, if_true, norm_obj]
  | false => simp [normIn, JsonStyle.arrange, h]

end Json

/-! ## Values -/

theorem renderIn_starts (st : JsonStyle) {v : Json} (hd : v.dumpable = true) :
    ∃ c t, v.renderIn st = c :: t ∧ StartsValue c := by
  cases v with
  | null => exact ⟨_, _, lit_null, by decide, by decide, by decide, by decide⟩
  | bool b =>
      cases b with
      | true => exact ⟨_, _, lit_true, by decide, by decide, by decide, by decide⟩
      | false => exact ⟨_, _, lit_false, by decide, by decide, by decide, by decide⟩
  | int i =>
      obtain ⟨c, t, h, hc⟩ := intRepr_starts i
      exact ⟨c, t, h, hc.ne.1⟩
  | float f =>
      obtain ⟨c, t, h, hc⟩ := floatText_starts (FloatModel.repr_floatText f hd)
      exact ⟨c, t, h, hc.ne.1⟩
  | str s => exact ⟨_, _, rfl, by decide, by decide, by decide, by decide⟩
  | arr xs => exact ⟨_, _, rfl, by decide, by decide, by decide, by decide⟩
  | obj kvs => exact ⟨_, _, rfl, by decide, by decide, by decide, by decide⟩

theorem parseValue_number {s : Str} {c : CodePoint} {t : Str} (hs : s = c :: t)
    (hc : StartsNumber c) (n : Nat) (rest : Str) :
    parseValue (n + 1) (s ++ rest) = parseNumber (s ++ rest) := by
  obtain ⟨-, h1, h2, h3, h4, h5, h6⟩ := hc.ne
  subst hs
  rw [List.cons_append, parseValue, if_neg h1, if_neg h2, if_neg h3, parseAtom,
    afterKeyword_none lit_null rfl h4, afterKeyword_none lit_true rfl h5,
    afterKeyword_none lit_false rfl h6]

theorem parseValue_atom {k : Str} {a : CodePoint} {k' : Str} (hk : k = a :: k') (h1 : a ≠ dquote)
    (h2 : a ≠ 0x5B) (h3 : a ≠ 0x7B) (n : Nat) (rest : Str) :
    parseValue (n + 1) (k ++ rest) = parseAtom (k ++ rest) := by
  subst hk
  rw [List.cons_append, parseValue, if_neg h1, if_neg h2, if_neg h3]

/-- What a text of the style needs of a value: distinct keys, printable numbers and strings that the
style's escapes read back. -/
structure Json.Readable (st : JsonStyle) (v : Json) : Prop where
  wf : v.wf = true
  dumpable : v.dumpable = true
  strings : v.allStr st.readable = true

/-- What it means for a value to be read back from its text. -/
def ReadsBack (st : JsonStyle) (v : Json) : Prop :=
  v.Readable st → ∀ (n : Nat) (rest : Str), 2 * (v.renderIn st).length ≤ n →
    Stops rest → parseValue n (v.renderIn st ++ rest) = some (v.normIn st, rest)

theorem normIn_atom (st : JsonStyle) {v : Json} (h : v.norm = v) : v.normIn st = v := by
  rw [Json.normIn]
  split
  · exact h
  · rfl

theorem readsBack_null (st : JsonStyle) : ReadsBack st .null := by
  intro _ n rest hn _
  have hlen : (Json.renderIn st .null).length = 4 := by
    rw [Json.renderIn, lit_null]
    rfl
  obtain ⟨m, rfl⟩ := Nat.exists_eq_succ_of_ne_zero (show n ≠ 0 by omega)
  rw [normIn_atom st rfl, Json.renderIn,
    parseValue_atom lit_null (by decide) (by decide) (by decide), parseAtom, afterKeyword_append]

theorem readsBack_bool (st : JsonStyle) (b : Bool) : ReadsBack st (.bool b) := by
  intro _ n rest hn _
  rw [normIn_atom st rfl]
  cases b with
  | true =>
      have hlen : (Json.renderIn st (.bool true)).length = 4 := by
        rw [Json.renderIn, lit_true]
        rfl
      obtain ⟨m, rfl⟩ := Nat.exists_eq_succ_of_ne_zero (show n ≠ 0 by omega)
      have hnull : afterKeyword (lit "null") (lit "true" ++ rest) = none :=
        afterKeyword_none lit_null (by rw [lit_true, List.cons_append]) (by decide)
      rw [Json.renderIn, parseValue_atom lit_true (by decide) (by decide) (by decide), parseAtom,
        hnull, afterKeyword_append]
  | false =>
      have hlen : (Json.renderIn st (.bool false)).length = 5 := by
        rw [Json.renderIn, lit_false]
        rfl
      obtain ⟨m, rfl⟩ := Nat.exists_eq_succ_of_ne_zero (show n ≠ 0 by omega)
      have hnull : afterKeyword (lit "null") (lit "false" ++ rest) = none :=
        afterKeyword_none lit_null (by rw [lit_false, List.cons_append]) (by decide)
      have htrue : afterKeyword (lit "true") (lit "false" ++ rest) = none :=
        afterKeyword_none lit_true (by rw [lit_false, List.cons_append]) (by decide)
      rw [Json.renderIn, parseValue_atom lit_false (by decide) (by decide) (by decide), parseAtom,
        hnull, htrue, afterKeyword_append]

theorem readsBack_number {st : JsonStyle} {v : Json} {s : Str} (hs : v.renderIn st = s)
    (hnorm : v.norm = v) (hstart : v.dumpable = true → ∃ c t, s = c :: t ∧ StartsNumber c)
    (hparse : v.dumpable = true → ∀ rest, Stops rest → parseNumber (s ++ rest) = some (v, rest)) :
    ReadsBack st v := by
  intro hv n rest hn hr
  obtain ⟨c, t, hct, hc⟩ := hstart hv.dumpable
  have hpos : s.length ≠ 0 := by rw [hct]; simp
  obtain ⟨m, rfl⟩ := Nat.exists_eq_succ_of_ne_zero (show n ≠ 0 by rw [hs] at hn; omega)
  rw [hs, normIn_atom st hnorm, parseValue_number hct hc, hparse hv.dumpable rest hr]

theorem readsBack_str (st : JsonStyle) (s : Str) : ReadsBack st (.str s) := by
  intro hv n rest hn _
  have hpos : 0 < (Json.renderIn st (.str s)).length := by simp [Json.renderIn, JsonStyle.quote]
  obtain ⟨m, rfl⟩ := Nat.exists_eq_succ_of_ne_zero (show n ≠ 0 by omega)
  have hq : Json.renderIn st (.str s) ++ rest =
      dquote :: (s.flatMap st.escape ++ dquote :: rest) := by
    simp [Json.renderIn, JsonStyle.quote]
  rw [hq, parseValue, if_pos rfl, st.reads s rest hv.strings, normIn_atom st rfl]
  rfl

omit [FloatModel] in
/-- What stands after a separator is read from its first character on. -/
theorem skip_join (st : JsonStyle) {ws x : Str} {c : CodePoint} {t : Str}
    (hws : ∀ d ∈ ws, isJsonSpace d = true) (hx : x = c :: t) (hc : isJsonSpace c = false)
    (xs : List Str) (rest : Str) :
    skipSpace (ws ++ (join st.comma (x :: xs) ++ rest)) = join st.comma (x :: xs) ++ rest := by
  obtain ⟨t', ht'⟩ := join_starts st.comma hx xs
  rw [skipSpace_blanks hws, ht', List.cons_append, skipSpace_cons hc]

theorem parseElems_join (st : JsonStyle) : ∀ (xs : List Json), xs ≠ [] →
    (∀ x ∈ xs, ReadsBack st x) → (∀ x ∈ xs, x.Readable st) → ∀ (n : Nat) (rest : Str),
    2 * (join st.comma (xs.map (Json.renderIn st))).length + 1 ≤ n →
    parseElems n (join st.comma (xs.map (Json.renderIn st)) ++ 0x5D :: rest) =
      some (xs.map (Json.normIn st), rest)
  | [], hne, _, _, _, _, _ => absurd rfl hne
  | [x], _, hrb, hv, n, rest, hn => by
      obtain ⟨m, rfl⟩ := Nat.exists_eq_succ_of_ne_zero (show n ≠ 0 by omega)
      have hx := hrb x List.mem_cons_self (hv x List.mem_cons_self)
        m (0x5D :: rest) (by simp [join] at hn; omega) (stops_cons _ (by decide))
      simp only [List.map_cons, List.map_nil, join]
      rw [parseElems, hx]
      simp only [skipSpace_cons (c := 0x5D) (by decide), if_true]
  | x :: y :: xs, _, hrb, hv, n, rest, hn => by
      obtain ⟨m, rfl⟩ := Nat.exists_eq_succ_of_ne_zero (show n ≠ 0 by omega)
      have hlen : (join st.comma ((x :: y :: xs).map (Json.renderIn st))).length =
          (x.renderIn st).length + (1 + st.afterComma.length) +
            (join st.comma ((y :: xs).map (Json.renderIn st))).length := by
        simp [join, JsonStyle.comma]
        omega
      have htail := parseElems_join st (y :: xs) (by simp)
        (fun z hz => hrb z (List.mem_cons_of_mem _ hz))
        (fun z hz => hv z (List.mem_cons_of_mem _ hz)) m rest (by omega)
      have hhead := hrb x List.mem_cons_self (hv x List.mem_cons_self) m
        (0x2C :: (st.afterComma ++
          (join st.comma ((y :: xs).map (Json.renderIn st)) ++ 0x5D :: rest))) (by omega)
        (stops_cons _ (by decide))
      obtain ⟨c, t, hct, hc⟩ := renderIn_starts st (hv y (by simp)).dumpable
      have hskip := skip_join st st.afterComma_space hct hc.1 (xs.map (Json.renderIn st))
        (0x5D :: rest)
      have happ : join st.comma ((x :: y :: xs).map (Json.renderIn st)) ++ 0x5D :: rest =
          x.renderIn st ++ 0x2C :: (st.afterComma ++
            (join st.comma ((y :: xs).map (Json.renderIn st)) ++ 0x5D :: rest)) := by
        simp [join, JsonStyle.comma]
      rw [← List.map_cons] at hskip
      rw [happ, parseElems, hhead]
      simp only [skipSpace_cons (c := 0x2C) (by decide), hskip, htail]
      rfl

/-- The text of a member of an object. -/
def memberIn (st : JsonStyle) (kv : Str × Json) : Str := st.member kv.1 (kv.2.renderIn st)

theorem memberIn_starts (st : JsonStyle) (kv : Str × Json) : ∃ t, memberIn st kv = dquote :: t :=
  ⟨_, rfl⟩

/-- A member text followed by `rest`, with the key's quotation marks exposed. -/
theorem memberIn_append (st : JsonStyle) (kv : Str × Json) (rest : Str) :
    memberIn st kv ++ rest = dquote :: (kv.1.flatMap st.escape ++ dquote ::
      (0x3A :: (st.afterColon ++ (kv.2.renderIn st ++ rest)))) := by
  simp [memberIn, JsonStyle.member, JsonStyle.quote]

theorem parseFields_join (st : JsonStyle) : ∀ (kvs : List (Str × Json)), kvs ≠ [] →
    (∀ kv ∈ kvs, ReadsBack st kv.2) → (∀ kv ∈ kvs, st.readable kv.1 = true ∧ kv.2.Readable st) →
    ∀ (n : Nat) (rest : Str), 2 * (join st.comma (kvs.map (memberIn st))).length + 1 ≤ n →
    parseFields n (join st.comma (kvs.map (memberIn st)) ++ 0x7D :: rest) =
      some (kvs.map fun kv => (kv.1, kv.2.normIn st), rest)
  | [], hne, _, _, _, _, _ => absurd rfl hne
  | [kv], _, hrb, hv, n, rest, hn => by
      obtain ⟨m, rfl⟩ := Nat.exists_eq_succ_of_ne_zero (show n ≠ 0 by omega)
      obtain ⟨hkey, hval⟩ := hv kv List.mem_cons_self
      have hread := hrb kv List.mem_cons_self hval m (0x7D :: rest)
        (by simp [join, memberIn, JsonStyle.member] at hn; omega) (stops_cons _ (by decide))
      have hskip : skipSpace (st.afterColon ++ (kv.2.renderIn st ++ 0x7D :: rest)) =
          kv.2.renderIn st ++ 0x7D :: rest := by
        obtain ⟨c, t, hct, hc⟩ := renderIn_starts st hval.dumpable
        rw [skipSpace_blanks st.afterColon_space, hct, List.cons_append, skipSpace_cons hc.1]
      simp only [List.map_cons, List.map_nil, join]
      rw [memberIn_append, parseFields, if_pos rfl, st.reads _ _ hkey]
      simp only [skipSpace_cons (c := 0x3A) (by decide), if_true, hskip, hread,
        skipSpace_cons (c := 0x7D) (by decide)]
  | kv :: kv' :: kvs, _, hrb, hv, n, rest, hn => by
      obtain ⟨m, rfl⟩ := Nat.exists_eq_succ_of_ne_zero (show n ≠ 0 by omega)
      obtain ⟨hkey, hval⟩ := hv kv List.mem_cons_self
      have hlen : (join st.comma ((kv :: kv' :: kvs).map (memberIn st))).length =
          (memberIn st kv).length + (1 + st.afterComma.length) +
            (join st.comma ((kv' :: kvs).map (memberIn st))).length := by
        simp [join, JsonStyle.comma]
        omega
      have hmem : (kv.2.renderIn st).length ≤ (memberIn st kv).length := by
        simp [memberIn, JsonStyle.member]
        omega
      have htail := parseFields_join st (kv' :: kvs) (by simp)
        (fun z hz => hrb z (List.mem_cons_of_mem _ hz))
        (fun z hz => hv z (List.mem_cons_of_mem _ hz)) m rest (by omega)
      have hread := hrb kv List.mem_cons_self hval m
        (0x2C :: (st.afterComma ++
          (join st.comma ((kv' :: kvs).map (memberIn st)) ++ 0x7D :: rest))) (by omega)
        (stops_cons _ (by decide))
      have hskipv : ∀ r, skipSpace (st.afterColon ++ (kv.2.renderIn st ++ r)) =
          kv.2.renderIn st ++ r := by
        intro r
        obtain ⟨c, t, hct, hc⟩ := renderIn_starts st hval.dumpable
        rw [skipSpace_blanks st.afterColon_space, hct, List.cons_append, skipSpace_cons hc.1]
      obtain ⟨t, ht⟩ := memberIn_starts st kv'
      have hskip := skip_join st st.afterComma_space ht (by decide)
        (kvs.map (memberIn st)) (0x7D :: rest)
      have happ : join st.comma ((kv :: kv' :: kvs).map (memberIn st)) ++ 0x7D :: rest =
          memberIn st kv ++ 0x2C :: (st.afterComma ++
            (join st.comma ((kv' :: kvs).map (memberIn st)) ++ 0x7D :: rest)) := by
        simp [join, JsonStyle.comma]
      rw [← List.map_cons] at hskip
      rw [happ, memberIn_append, parseFields, if_pos rfl, st.reads _ _ hkey]
      simp only [skipSpace_cons (c := 0x3A) (by decide), if_true, hskipv, hread,
        skipSpace_cons (c := 0x2C) (by decide), hskip, htail]
      rfl

theorem readable_arr {st : JsonStyle} {xs : List Json} (h : Json.Readable st (.arr xs)) :
    ∀ x ∈ xs, x.Readable st := by
  obtain ⟨hwf, hd, hs⟩ := h
  rw [Json.wf, Json.wfElems_iff] at hwf
  rw [Json.dumpable, Json.dumpableElems_iff] at hd
  rw [Json.allStr, Json.allStrElems_iff] at hs
  exact fun x hx => ⟨hwf x hx, hd x hx, hs x hx⟩

theorem readable_obj {st : JsonStyle} {kvs : List (Str × Json)}
    (h : Json.Readable st (.obj kvs)) :
    (kvs.map Prod.fst).Nodup ∧ ∀ kv ∈ kvs, st.readable kv.1 = true ∧ kv.2.Readable st := by
  obtain ⟨hwf, hd, hs⟩ := h
  rw [Json.wf, Bool.and_eq_true, Json.wfFields_iff, decide_eq_true_eq] at hwf
  rw [Json.dumpable, Json.dumpableFields_iff] at hd
  rw [Json.allStr, Json.allStrFields_iff] at hs
  exact ⟨hwf.1, fun kv hkv => ⟨(hs kv hkv).1, hwf.2 kv hkv, hd kv hkv, (hs kv hkv).2⟩⟩

theorem readsBack_arr (st : JsonStyle) (xs : List Json) (ih : ∀ x ∈ xs, ReadsBack st x) :
    ReadsBack st (.arr xs) := by
  intro hv n rest hn _
  have hvs := readable_arr hv
  rw [Json.renderIn_arr] at hn ⊢
  simp only [List.cons_append, List.append_assoc, List.length_cons, List.length_append,
    List.length_nil] at hn ⊢
  obtain ⟨m, rfl⟩ := Nat.exists_eq_succ_of_ne_zero (show n ≠ 0 by omega)
  rw [parseValue, if_neg (by decide), if_pos rfl, Json.normIn_arr]
  cases xs with
  | nil => simp [join, skipSpace_cons (c := 0x5D) (by decide)]
  | cons x xs =>
      obtain ⟨c, t, hct, hc⟩ := renderIn_starts st (hvs x List.mem_cons_self).dumpable
      obtain ⟨t', ht'⟩ := join_starts st.comma hct (xs.map (Json.renderIn st))
      have helems := parseElems_join st (x :: xs) (by simp) ih hvs m rest (by omega)
      rw [List.map_cons, ht', List.cons_append] at helems
      simp only [List.nil_append]
      rw [List.map_cons, ht', List.cons_append, skipSpace_cons hc.1]
      simp only [if_neg hc.2.1, helems]
      rfl

theorem readsBack_obj (st : JsonStyle) (kvs : List (Str × Json))
    (ih : ∀ kv ∈ kvs, ReadsBack st kv.2) : ReadsBack st (.obj kvs) := by
  intro hv n rest hn _
  obtain ⟨hkeys, hvs⟩ := readable_obj hv
  have hrender : Json.renderIn st (.obj kvs) =
      0x7B :: join st.comma ((st.arrange kvs).map (memberIn st)) ++ [0x7D] :=
    Json.renderIn_obj st kvs
  rw [hrender] at hn ⊢
  simp only [List.cons_append, List.append_assoc, List.length_cons, List.length_append,
    List.length_nil] at hn ⊢
  obtain ⟨m, rfl⟩ := Nat.exists_eq_succ_of_ne_zero (show n ≠ 0 by omega)
  rw [parseValue, if_neg (by decide), if_neg (by decide), if_pos rfl, Json.normIn_obj]
  have hnodup := (st.nodup_keys_arrange kvs).2 hkeys
  have hmem : ∀ kv ∈ st.arrange kvs, kv ∈ kvs := fun kv h => JsonStyle.mem_arrange.1 h
  -- from here on only the arranged list matters
  generalize st.arrange kvs = l at hn hnodup hmem
  cases l with
  | nil => simp [join, skipSpace_cons (c := 0x7D) (by decide)]
  | cons kv l =>
      obtain ⟨t, ht⟩ := memberIn_starts st kv
      obtain ⟨t', ht'⟩ := join_starts st.comma ht (l.map (memberIn st))
      have hfields := parseFields_join st (kv :: l) (by simp) (fun z hz => ih z (hmem z hz))
        (fun z hz => hvs z (hmem z hz)) m rest (by omega)
      rw [List.map_cons, ht', List.cons_append] at hfields
      have hne : dquote ≠ 0x7D := by decide
      have hkeys' : ((kv :: l).map fun kv => (kv.1, kv.2.normIn st)).map Prod.fst =
          (kv :: l).map Prod.fst := by
        rw [List.map_map]
        rfl
      simp only [List.nil_append]
      rw [List.map_cons, ht', List.cons_append, skipSpace_cons (c := dquote) (by decide)]
      simp only [if_neg hne, hfields, hkeys', if_pos hnodup]

theorem readsBack (st : JsonStyle) (v : Json) : ReadsBack st v := by
  induction v using Json.induction with
  | hnull => exact readsBack_null st
  | hbool b => exact readsBack_bool st b
  | hint i =>
      exact readsBack_number rfl rfl (fun _ => intRepr_starts i)
        fun hd rest hr => parseNumber_int hd hr
  | hfloat f =>
      refine readsBack_number rfl rfl
        (fun hd => floatText_starts (FloatModel.repr_floatText f hd)) fun hd rest hr => ?_
      have := parseNumber_float (FloatModel.repr_floatText f hd) hr
      rwa [FloatModel.ofLiteral_repr f hd] at this
  | hstr s => exact readsBack_str st s
  | harr xs ih => exact readsBack_arr st xs ih
  | hobj kvs ih => exact readsBack_obj st kvs ih

/-- Reading the text of a value in a style, with blanks after it, gives the value. -/
theorem loads_renderIn_append {st : JsonStyle} {v : Json} (hv : v.Readable st) {ws : Str}
    (hws : ∀ c ∈ ws, isJsonSpace c = true) (hstop : Stops ws) :
    loads (v.renderIn st ++ ws) = some (v.normIn st) := by
  obtain ⟨c, t, hct, hc⟩ := renderIn_starts st hv.dumpable
  have hread := readsBack st v hv (2 * (v.renderIn st ++ ws).length + 2) ws
    (by rw [List.length_append]; omega) hstop
  have hhead : (v.renderIn st ++ ws).head? ≠ some 0xFEFF := by
    rw [hct]
    simpa using hc.2.2.2
  have hskip : skipSpace (v.renderIn st ++ ws) = v.renderIn st ++ ws := by
    rw [hct]
    exact skipSpace_cons hc.1 _
  have hend : skipSpace ws = [] := by
    have h := skipSpace_blanks (t := []) hws
    rwa [List.append_nil] at h
  rw [loads, if_neg hhead, hskip, hread]
  simp only [hend, if_true]

theorem loads_renderIn {st : JsonStyle} {v : Json} (hv : v.Readable st) :
    loads (v.renderIn st) = some (v.normIn st) := by
  have h : loads (v.renderIn st ++ []) = some (v.normIn st) :=
    loads_renderIn_append hv nofun stops_nil
  rwa [List.append_nil] at h

/-- Values whose texts in a style are equal read back as the same value. -/
theorem renderIn_injective {st : JsonStyle} {v w : Json} (hv : v.Readable st) (hw : w.Readable st)
    (h : v.renderIn st = w.renderIn st) : v.normIn st = w.normIn st :=
  Option.some.inj ((loads_renderIn hv).symm.trans (h ▸ loads_renderIn hw))

/-! ## The canonical style -/

/-- Sorted keys, no blanks, and only the escapes that JSON requires. -/
def canonicalStyle : JsonStyle where
  afterComma := []
  afterColon := []
  sort := true
  escape := escapeChar
  readable := fun _ => true
  afterComma_space := nofun
  afterColon_space := nofun
  reads := fun s rest _ => parseString_quote s rest

theorem render_eq_renderIn (v : Json) : v.render = v.renderIn canonicalStyle := by
  induction v using Json.induction with
  | hnull => rfl
  | hbool b => cases b <;> rfl
  | hint i => rfl
  | hfloat f => rfl
  | hstr s => rfl
  | harr xs ih =>
      rw [Json.render_arr, Json.renderIn_arr, List.map_congr_left ih]
      rfl
  | hobj kvs ih =>
      have hmap : ((sortFields kvs).map fun kv => quote kv.1 ++ 0x3A :: kv.2.render) =
          (sortFields kvs).map fun kv => canonicalStyle.member kv.1 (kv.2.renderIn canonicalStyle) :=
        List.map_congr_left fun kv hkv => by rw [ih kv (mem_sortFields.1 hkv)]; rfl
      rw [Json.render_obj, Json.renderIn_obj, hmap]
      rfl

theorem Json.allStr_true (v : Json) : v.allStr (fun _ => true) = true := by
  induction v using Json.induction with
  | hnull => rfl
  | hbool b => rfl
  | hint i => rfl
  | hfloat f => rfl
  | hstr s => rfl
  | harr xs ih =>
      rw [Json.allStr, Json.allStrElems_iff]
      exact ih
  | hobj kvs ih =>
      rw [Json.allStr, Json.allStrFields_iff]
      exact fun kv hkv => ⟨rfl, ih kv hkv⟩

theorem readable_canonical {v : Json} (hwf : v.wf = true) (hd : v.dumpable = true) :
    v.Readable canonicalStyle :=
  ⟨hwf, hd, Json.allStr_true v⟩

/-- Reading the canonical text of a value gives the value with sorted object fields. -/
theorem loads_render {v : Json} (hwf : v.wf = true) (hd : v.dumpable = true) :
    loads v.render = some v.norm := by
  rw [render_eq_renderIn]
  exact loads_renderIn (readable_canonical hwf hd)

end Reader

end ResidualHarness.Python
