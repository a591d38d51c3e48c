import ResidualHarness.Python.JsonChars

/-!
# Other styles of JSON

`json.dumps` with its default separators, with and without `ensure_ascii`. Text of both reads back;
with `ensure_ascii` a character beyond the Basic Multilingual Plane is written as the escapes of two
surrogates, so a string that holds surrogates of its own may read back as another one, and only
strings without surrogates are readable in that style (`asciiStyle`).
-/

set_option autoImplicit false

namespace ResidualHarness.Python

/-! ## Characters -/

section Characters

variable {q : CodePoint → Bool} (hq : ∀ c, isPlain c = true → q c = true)

include hq

omit hq in
theorem all_joinIn {sep : Str} (hsep : sep.all q = true) (ts : List Str)
    (h : ∀ t ∈ ts, t.all q = true) : (join sep ts).all q = true := by
  induction ts with
  | nil => rfl
  | cons t ts ih =>
      cases ts with
      | nil => simpa [join] using h t List.mem_cons_self
      | cons u us =>
          rw [join, List.all_append, List.all_append, h t List.mem_cons_self, hsep,
            ih fun v hv => h v (List.mem_cons_of_mem _ hv)]
          rfl

variable {st : JsonStyle} (hcomma : st.afterComma.all q = true) (hcolon : st.afterColon.all q = true)
  (hesc : ∀ c, (st.escape c).all q = true)

include hcomma hcolon hesc

/-- A property of printable ASCII, of the blanks and of the escapes of a style holds throughout its
texts. -/
theorem all_renderIn [FloatModel] {v : Json} (hd : v.dumpable = true) :
    (v.renderIn st).all q = true := by
  have hquote : ∀ s : Str, (st.quote s).all q = true := by
    intro s
    have hflat : (s.flatMap st.escape).all q = true := by
      rw [List.all_flatMap, List.all_eq_true]
      exact fun c _ => hesc c
    simp [JsonStyle.quote, hq dquote (by decide), hflat]
  have hsep : st.comma.all q = true := by
    rw [JsonStyle.comma, List.all_cons, hq 0x2C (by decide), hcomma]
    rfl
  induction v using Json.induction with
  | hnull =>
      rw [Json.renderIn, lit_null]
      simp [hq 0x6E (by decide), hq 0x75 (by decide), hq 0x6C (by decide)]
  | hbool b =>
      cases b with
      | true =>
          rw [Json.renderIn, lit_true]
          simp [hq 0x74 (by decide), hq 0x72 (by decide), hq 0x75 (by decide), hq 0x65 (by decide)]
      | false =>
          rw [Json.renderIn, lit_false]
          simp [hq 0x66 (by decide), hq 0x61 (by decide), hq 0x6C (by decide), hq 0x73 (by decide),
            hq 0x65 (by decide)]
  | hint i => exact all_intRepr hq i
  | hfloat f => exact all_floatText hq (FloatModel.repr_floatText f hd)
  | hstr s => exact hquote s
  | harr xs ih =>
      rw [Json.dumpable, Json.dumpableElems_iff] at hd
      have hjoin := all_joinIn hsep (xs.map (Json.renderIn st)) fun t ht => by
        obtain ⟨x, hx, rfl⟩ := List.mem_map.1 ht
        exact ih x hx (hd x hx)
      rw [Json.renderIn_arr]
      simp [hjoin, hq 0x5B (by decide), hq 0x5D (by decide)]
  | hobj kvs ih =>
      rw [Json.dumpable, Json.dumpableFields_iff] at hd
      have hjoin := all_joinIn hsep
        ((st.arrange kvs).map fun kv => st.member kv.1 (kv.2.renderIn st)) fun t ht => by
          obtain ⟨kv, hkv, rfl⟩ := List.mem_map.1 ht
          have hmem := JsonStyle.mem_arrange.1 hkv
          simp [JsonStyle.member, hquote, hcolon, hq 0x3A (by decide), ih kv hmem (hd kv hmem)]
      rw [Json.renderIn_obj]
      simp [hjoin, hq 0x7B (by decide), hq 0x7D (by decide)]

end Characters

/-! ## The style of files -/

theorem blank_space : ∀ c ∈ ([0x20] : Str), isJsonSpace c = true := by
  intro c hc
  rw [List.mem_singleton.1 hc]
  rfl

/-- `json.dumps(value, ensure_ascii=False)`. -/
def fileStyle : JsonStyle where
  afterComma := [0x20]
  afterColon := [0x20]
  sort := false
  escape := escapeChar
  readable := fun _ => true
  afterComma_space := blank_space
  afterColon_space := blank_space
  reads := fun s rest _ => parseString_quote s rest

section Files

variable [FloatModel]

theorem readable_file {v : Json} (hwf : v.wf = true) (hd : v.dumpable = true) :
    v.Readable fileStyle :=
  ⟨hwf, hd, Json.allStr_true v⟩

theorem noBreak_file {v : Json} (hd : v.dumpable = true) :
    lf ∉ v.renderIn fileStyle ∧ cr ∉ v.renderIn fileStyle := by
  have hq : ∀ c : CodePoint, isPlain c = true → (decide (c ≠ lf) && decide (c ≠ cr)) = true := by
    intro c hc
    have hp : 0x20 ≤ c.val ∧ c.val < 0x7F := of_decide_eq_true hc
    have h1 : c ≠ lf := by
      rintro rfl
      exact absurd hp.1 (by decide)
    have h2 : c ≠ cr := by
      rintro rfl
      exact absurd hp.1 (by decide)
    simp [h1, h2]
  have hesc : ∀ c, (fileStyle.escape c).all (fun c => decide (c ≠ lf) && decide (c ≠ cr)) = true := by
    intro c
    show (escapeChar c).all _ = true
    rw [all_escapeChar hq]
    by_cases hc : c.val < 0x20
    · simp [hc]
    · have h1 : c ≠ lf := by
        rintro rfl
        exact hc (by decide)
      have h2 : c ≠ cr := by
        rintro rfl
        exact hc (by decide)
      simp [h1, h2]
  have hall : (v.renderIn fileStyle).all _ = true :=
    all_renderIn hq (by decide) (by decide) hesc hd
  rw [List.all_eq_true] at hall
  constructor
  · intro hmem
    simpa using hall lf hmem
  · intro hmem
    simpa using hall cr hmem

end Files

/-! ## The ASCII style -/

/-- A hexadecimal escape of a 16-bit code. -/
def hexEscape (n : Nat) : Str :=
  [backslash, 0x75, hexChar (n / 4096 % 16), hexChar (n / 256 % 16), hexChar (n / 16 % 16),
    hexChar (n % 16)]

/-- The text of a character with `ensure_ascii`. -/
def escapeAscii (c : CodePoint) : Str :=
  if c.val < 0x7F then escapeChar c
  else if c.val < 0x10000 then hexEscape c.val
  else hexEscape (0xD800 + (c.val - 0x10000) / 0x400) ++
    hexEscape (0xDC00 + (c.val - 0x10000) % 0x400)

/-- The units that the text of a character scans to. -/
def asciiUnits (c : CodePoint) : List StrUnit :=
  if c.val < 0x7F then [escUnit c]
  else if c.val < 0x10000 then [.code c.val]
  else [.code (0xD800 + (c.val - 0x10000) / 0x400), .code (0xDC00 + (c.val - 0x10000) % 0x400)]

theorem scanString_hexEscape {n : Nat} (hn : n < 0x10000) (rest : Str) :
    scanString (hexEscape n ++ rest) = (scanString rest).map (pushUnit (.code n)) := by
  have h1 := hexVal_hexChar (d := n / 4096 % 16) (by omega)
  have h2 := hexVal_hexChar (d := n / 256 % 16) (by omega)
  have h3 := hexVal_hexChar (d := n / 16 % 16) (by omega)
  have h4 := hexVal_hexChar (d := n % 16) (by omega)
  refine scanString_code ?_ rest
  simp only [hex4, h1, h2, h3, h4]
  congr 1
  omega

theorem scanString_escapeAscii (c : CodePoint) (rest : Str) :
    scanString (escapeAscii c ++ rest) =
      (scanString rest).map fun r => (asciiUnits c ++ r.1, r.2) := by
  have hlt := c.isLt
  rw [escapeAscii, asciiUnits]
  by_cases h1 : c.val < 0x7F
  · rw [if_pos h1, if_pos h1, scanString_escapeChar]
    rfl
  · rw [if_neg h1, if_neg h1]
    by_cases h2 : c.val < 0x10000
    · rw [if_pos h2, if_pos h2, scanString_hexEscape h2]
      rfl
    · rw [if_neg h2, if_neg h2, List.append_assoc, scanString_hexEscape (by omega),
        scanString_hexEscape (by omega), Option.map_map]
      rfl

theorem scanString_ascii (s rest : Str) :
    scanString (s.flatMap escapeAscii ++ dquote :: rest) = some (s.flatMap asciiUnits, rest) := by
  induction s with
  | nil => exact scanString_quote rest
  | cons c s ih =>
      rw [List.flatMap_cons, List.append_assoc, scanString_escapeAscii, ih]
      rfl

/-- A code that is not a high surrogate stands for its character. -/
theorem joinUnits_code {n : Nat} (hn : ¬ (0xD800 ≤ n ∧ n < 0xDC00)) (us : List StrUnit) :
    joinUnits (.code n :: us) = codePoint n :: joinUnits us := by
  cases us with
  | nil => rfl
  | cons u us =>
      cases u with
      | char c => rfl
      | code m => rw [joinUnits, if_neg fun h => hn h.1]

theorem codePoint_val (c : CodePoint) : codePoint c.val = c := Fin.ext (Nat.mod_eq_of_lt c.isLt)

theorem joinUnits_ascii {s : Str} (hs : encodable s = true) : joinUnits (s.flatMap asciiUnits) = s := by
  induction s with
  | nil => rfl
  | cons c s ih =>
      rw [encodable_iff] at hs
      have hc : ¬ (0xD800 ≤ c.val ∧ c.val < 0xE000) := by
        have := hs c List.mem_cons_self
        simpa [isSurrogate] using this
      have ih' := ih (encodable_iff s |>.2 fun d hd => hs d (List.mem_cons_of_mem _ hd))
      have hlt := c.isLt
      rw [List.flatMap_cons, asciiUnits]
      by_cases h1 : c.val < 0x7F
      · rw [if_pos h1, List.singleton_append, escUnit]
        split
        · rw [joinUnits_code (by omega), codePoint_val, ih']
        · rw [joinUnits, ih']
      · rw [if_neg h1]
        by_cases h2 : c.val < 0x10000
        · rw [if_pos h2, List.singleton_append, joinUnits_code (by omega), codePoint_val, ih']
        · rw [if_neg h2]
          -- two surrogates join to the character
          have hpair : 0x10000 + (0xD800 + (c.val - 0x10000) / 0x400 - 0xD800) * 0x400 +
              (0xDC00 + (c.val - 0x10000) % 0x400 - 0xDC00) = c.val := by omega
          show joinUnits (.code _ :: .code _ :: s.flatMap asciiUnits) = _
          rw [joinUnits, if_pos ⟨⟨by omega, by omega⟩, by omega, by omega⟩, hpair, codePoint_val, ih']

/-- `json.dumps(value, sort_keys=True)`. -/
def asciiStyle : JsonStyle where
  afterComma := [0x20]
  afterColon := [0x20]
  sort := true
  escape := escapeAscii
  readable := encodable
  afterComma_space := blank_space
  afterColon_space := blank_space
  reads := by
    intro s rest hs
    rw [parseString, scanString_ascii, Option.map_some, joinUnits_ascii hs]

theorem hexEscape_plain (n : Nat) : (hexEscape n).all isPlain = true := by
  have hhex : ∀ k < 16, isPlain (hexChar k) = true := by decide
  have h (m : Nat) := hhex (m % 16) (by omega)
  simp [hexEscape, h, show isPlain backslash = true from rfl, show isPlain 0x75 = true from rfl]

theorem escapeAscii_plain (c : CodePoint) : (escapeAscii c).all isPlain = true := by
  unfold escapeAscii
  by_cases h1 : c.val < 0x7F
  · rw [if_pos h1, all_escapeChar fun c hc => hc]
    by_cases hctl : c.val < 0x20
    · simp [hctl]
    · simp only [hctl, decide_false, Bool.false_or]
      exact decide_eq_true ⟨by omega, h1⟩
  · rw [if_neg h1]
    by_cases h2 : c.val < 0x10000
    · rw [if_pos h2]
      exact hexEscape_plain _
    · rw [if_neg h2, List.all_append, hexEscape_plain, hexEscape_plain]
      rfl

theorem ascii_plain [FloatModel] {v : Json} (hd : v.dumpable = true) :
    (v.renderIn asciiStyle).all isPlain = true :=
  all_renderIn (fun _ hc => hc) (by decide) (by decide) escapeAscii_plain hd

theorem encodable_ascii [FloatModel] {v : Json} (hd : v.dumpable = true) :
    encodable (v.renderIn asciiStyle) = true := by
  have hplain := ascii_plain hd
  rw [List.all_eq_true] at hplain
  rw [encodable_iff]
  intro c hc
  have hp : 0x20 ≤ c.val ∧ c.val < 0x7F := of_decide_eq_true (hplain c hc)
  simp only [isSurrogate, decide_eq_false_iff_not]
  omega

end ResidualHarness.Python
