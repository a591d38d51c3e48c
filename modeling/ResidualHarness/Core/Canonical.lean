import ResidualHarness.Python.Sha256
import ResidualHarness.Python.JsonLines

/-!
# Canonical JSON and digests

`canonical`, `digest` and `strict_json` of `residual/core.py`. A digest exists exactly for the
values whose numbers can be written and whose strings can be encoded (`digest_eq_ok_iff`), and it
does not depend on the order of an object's fields (`digestText_norm`).
-/

set_option autoImplicit false

namespace ResidualHarness.Core

open Python

variable [FloatModel]

/-- `ContractError`, a `ValueError`. -/
def contractError (msg : String) : PyExn := .userError "ContractError" msg

/-- `canonical(value)`. -/
def canonical (value : Json) : Except PyExn Str := dumps value

/-- A list of strings as JSON. -/
def strings (xs : List Str) : Json := .arr (xs.map Json.str)

/-- `sorted(set(xs))`. -/
def sortedSet (xs : List Str) : List Str := xs.dedup.insertionSort (· ≤ ·)

omit [FloatModel] in
theorem mem_sortedSet {xs : List Str} {x : Str} : x ∈ sortedSet xs ↔ x ∈ xs := by
  rw [sortedSet, List.mem_insertionSort, List.mem_dedup]

/-- A string or `None`. -/
def optionalString : Option Str → Json
  | some s => .str s
  | none => .null

/-- `digest(value)`. -/
def digest (value : Json) : Except PyExn Str := do
  let text ← canonical value
  let data ← utf8 text
  return sha256 data

/-- `strict_json(text)`: malformed JSON, a repeated key or a non-finite constant is a
`ValueError`. -/
def strictJson (text : Str) : Except PyExn Json :=
  match loads text with
  | some v => .ok v
  | none => .error (contractError "invalid JSON")

/-- A string of 64 lowercase hexadecimal digits. -/
def isHash (value : Str) : Bool := decide (value.length = 64) && value.all isHexDigit

/-- Values with a canonical text that can be encoded. -/
def Digestible (v : Json) : Prop := v.dumpable = true ∧ v.allStr encodable = true

instance (v : Json) : Decidable (Digestible v) :=
  inferInstanceAs (Decidable (v.dumpable = true ∧ v.allStr encodable = true))

/-- The digest of a value that has one. -/
def digestText (v : Json) : Str := sha256 (v.render.flatMap utf8Char)

theorem canonical_of_dumpable {v : Json} (h : v.dumpable = true) : canonical v = .ok v.render := by
  rw [canonical, dumps, if_pos h]

theorem dumpable_of_canonical {v : Json} {t : Str} (h : canonical v = .ok t) :
    v.dumpable = true ∧ t = v.render := by
  rw [canonical, dumps] at h
  split at h
  · rename_i hd
    cases h
    exact ⟨hd, rfl⟩
  · cases h

theorem digest_of_digestible {v : Json} (h : Digestible v) : digest v = .ok (digestText v) := by
  obtain ⟨hd, he⟩ := h
  have henc : encodable v.render = true := by
    rw [encodable_render hd]
    exact he
  rw [digest, canonical_of_dumpable hd]
  show (do let data ← utf8 v.render; return sha256 data) = _
  rw [utf8_of_encodable henc]
  rfl

theorem digest_eq_ok_iff {v : Json} {d : Str} :
    digest v = .ok d ↔ Digestible v ∧ d = digestText v := by
  constructor
  · intro h
    have hdig : Digestible v := by
      rw [digest] at h
      cases hc : canonical v with
      | error e =>
          rw [hc] at h
          cases h
      | ok t =>
          rw [hc] at h
          obtain ⟨hd, rfl⟩ := dumpable_of_canonical hc
          cases hu : utf8 v.render with
          | error e =>
              change (do let data ← utf8 v.render; return sha256 data) = _ at h
              rw [hu] at h
              cases h
          | ok b =>
              refine ⟨hd, ?_⟩
              rw [← encodable_render hd]
              exact encodable_of_utf8 hu
    rw [digest_of_digestible hdig] at h
    cases h
    exact ⟨hdig, rfl⟩
  · rintro ⟨hdig, rfl⟩
    exact digest_of_digestible hdig

theorem digestible_norm {v : Json} : Digestible v.norm ↔ Digestible v := by
  rw [Digestible, Digestible, Json.dumpable_norm, Json.allStr_norm]

theorem digestText_norm (v : Json) : digestText v.norm = digestText v := by
  rw [digestText, digestText, Json.render_norm]

theorem strictJson_render {v : Json} (hwf : v.wf = true) (hd : v.dumpable = true) :
    strictJson v.render = .ok v.norm := by
  rw [strictJson, loads_render hwf hd]

theorem strictJson_of_loads_none {t : Str} (h : loads t = none) :
    strictJson t = .error (contractError "invalid JSON") := by
  rw [strictJson, h]

/-! ## ASCII text -/

/-- ASCII text. -/
def isAscii (s : Str) : Bool := s.all fun c => decide (c.val < 0x80)

omit [FloatModel] in
theorem isAscii_append {s t : Str} : isAscii (s ++ t) = (isAscii s && isAscii t) := by
  simp [isAscii]

omit [FloatModel] in
theorem isAscii_of_all {p : CodePoint → Bool} (hp : ∀ c, p c = true → c.val < 0x80) {s : Str}
    (h : s.all p = true) : isAscii s = true := by
  rw [isAscii, List.all_eq_true]
  intro c hc
  simpa using hp c (List.all_eq_true.1 h c hc)

omit [FloatModel] in
/-- ASCII text can be written on a line. -/
theorem lineSafe_of_isAscii {s : Str} (h : isAscii s = true) : lineSafe s = true := by
  rw [lineSafe, List.all_eq_true]
  intro c hc
  have hv : c.val < 0x80 := by simpa using List.all_eq_true.1 h c hc
  have h1 : c ≠ 0x85 := by
    rintro rfl
    exact absurd hv (by decide)
  have h2 : c ≠ 0x2028 := by
    rintro rfl
    exact absurd hv (by decide)
  have h3 : c ≠ 0x2029 := by
    rintro rfl
    exact absurd hv (by decide)
  simp [h1, h2, h3]

omit [FloatModel] in
theorem encodable_of_isAscii {s : Str} (h : isAscii s = true) : encodable s = true := by
  rw [encodable_iff]
  intro c hc
  have hv : c.val < 0x80 := by simpa using List.all_eq_true.1 h c hc
  simp only [isSurrogate, decide_eq_false_iff_not]
  omega

omit [FloatModel] in
theorem encodable_lit (s : String) : encodable (lit s) = true := by
  rw [encodable_iff]
  intro c hc
  obtain ⟨b, -, rfl⟩ := List.mem_map.1 hc
  have hb : b.toNat < 256 := b.toNat_lt
  simp only [isSurrogate, decide_eq_false_iff_not]
  omega

omit [FloatModel] in
theorem isHexDigit_lt {c : CodePoint} (h : isHexDigit c = true) : c.val < 0x80 := by
  simp only [isHexDigit, decide_eq_true_eq] at h
  omega

omit [FloatModel] in
theorem sha256_isHash (data : List Nat) : isHash (sha256 data) = true := by
  rw [isHash, Bool.and_eq_true, decide_eq_true_eq, List.all_eq_true]
  exact ⟨sha256_length data, sha256_isHex data⟩

omit [FloatModel] in
theorem isAscii_of_isHash {s : Str} (h : isHash s = true) : isAscii s = true := by
  rw [isHash, Bool.and_eq_true] at h
  exact isAscii_of_all (fun _ hc => isHexDigit_lt hc) h.2

omit [FloatModel] in
theorem encodable_of_isHash {s : Str} (h : isHash s = true) : encodable s = true :=
  encodable_of_isAscii (isAscii_of_isHash h)

omit [FloatModel] in
theorem sha256_lineSafe (data : List Nat) : lineSafe (sha256 data) = true :=
  lineSafe_of_isAscii (isAscii_of_isHash (sha256_isHash data))

omit [FloatModel] in
theorem sha256_encodable (data : List Nat) : encodable (sha256 data) = true :=
  encodable_of_isAscii (isAscii_of_isHash (sha256_isHash data))

theorem digest_isHash {v : Json} {d : Str} (h : digest v = .ok d) : isHash d = true := by
  obtain ⟨-, rfl⟩ := digest_eq_ok_iff.1 h
  exact sha256_isHash _

/-! ## Digests of compound values -/

@[simp]
theorem digestible_str {s : Str} : Digestible (.str s) ↔ encodable s = true := by
  simp [Digestible, Json.dumpable, Json.allStr]

@[simp]
theorem digestible_int {i : Int} : Digestible (.int i) ↔ intPrintable i = true := by
  simp [Digestible, Json.dumpable, Json.allStr]

@[simp]
theorem digestible_float {f : FloatModel.F} :
    Digestible (.float f) ↔ FloatModel.isFinite f = true := by
  simp [Digestible, Json.dumpable, Json.allStr]

@[simp]
theorem digestible_bool {b : Bool} : Digestible (.bool b) := by
  simp [Digestible, Json.dumpable, Json.allStr]

@[simp]
theorem digestible_null : Digestible .null := by
  simp [Digestible, Json.dumpable, Json.allStr]

theorem digestible_arr {xs : List Json} : Digestible (.arr xs) ↔ ∀ x ∈ xs, Digestible x := by
  simp only [Digestible, Json.dumpable, Json.allStr, Json.dumpableElems_iff, Json.allStrElems_iff]
  exact ⟨fun h x hx => ⟨h.1 x hx, h.2 x hx⟩, fun h => ⟨fun x hx => (h x hx).1,
    fun x hx => (h x hx).2⟩⟩

theorem digestible_obj {d : List (Str × Json)} :
    Digestible (.obj d) ↔ ∀ kv ∈ d, encodable kv.1 = true ∧ Digestible kv.2 := by
  simp only [Digestible, Json.dumpable, Json.allStr, Json.dumpableFields_iff,
    Json.allStrFields_iff]
  constructor
  · intro h kv hkv
    exact ⟨(h.2 kv hkv).1, h.1 kv hkv, (h.2 kv hkv).2⟩
  · intro h
    exact ⟨fun kv hkv => (h kv hkv).2.1, fun kv hkv => ⟨(h kv hkv).1, (h kv hkv).2.2⟩⟩

theorem digestible_strings {xs : List Str} :
    Digestible (strings xs) ↔ ∀ x ∈ xs, encodable x = true := by
  simp [strings, digestible_arr]

theorem digestible_optionalString {x : Option Str} :
    Digestible (optionalString x) ↔ ∀ s ∈ x, encodable s = true := by
  cases x <;> simp [optionalString]

omit [FloatModel] in
theorem intPrintable_of_le {m n : Nat} (h : m ≤ n) (hn : intPrintable n = true) :
    intPrintable m = true := by
  simp only [intPrintable, decide_eq_true_eq, Int.natAbs_natCast] at hn ⊢
  refine le_trans ?_ hn
  rw [natRepr, natRepr]
  by_cases hm : m = 0
  · rw [if_pos hm]
    split
    · exact le_refl _
    · next hn0 =>
        rw [List.length_map, List.length_reverse, List.length_singleton]
        exact List.length_pos_of_ne_nil fun h0 => hn0 (Nat.digits_eq_nil_iff_eq_zero.1 h0)
  · have hn0 : n ≠ 0 := by omega
    rw [if_neg hm, if_neg hn0, List.length_map, List.length_map, List.length_reverse,
      List.length_reverse]
    exact Nat.le_length_digits_le 10 m n h

theorem strings_wf (xs : List Str) : (strings xs).wf = true := by
  rw [strings, Json.wf, Json.wfElems_iff]
  intro x hx
  obtain ⟨s, -, rfl⟩ := List.mem_map.1 hx
  rfl

theorem strings_norm (xs : List Str) : (strings xs).norm = strings xs := by
  rw [strings, Json.norm_arr, List.map_map]
  rfl

theorem norm_eq_of_render_eq {v w : Json} (hv : v.wf = true) (hw : w.wf = true)
    (hdv : v.dumpable = true) (hdw : w.dumpable = true) (h : v.render = w.render) :
    v.norm = w.norm := by
  have h1 := loads_render hv hdv
  rw [h, loads_render hw hdw] at h1
  exact (Option.some.inj h1).symm

end ResidualHarness.Core
