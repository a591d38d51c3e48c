import ResidualHarness.Python.Text

/-!
# JSON values and their canonical text

`json.dumps(value, sort_keys=True, separators=(",", ":"), ensure_ascii=False, allow_nan=False)`.
Objects are association lists in insertion order; the writer sorts their keys by code point, so two
objects with the same items have the same text. With `ensure_ascii=False` only the characters below
U+0020, the quotation mark and the backslash are escaped.

Floats enter through `FloatModel`: a type with Python's `repr` and the conversion of a JSON number
literal, of which only the documented round trip `float(repr(x)) == x` is used.
-/

set_option autoImplicit false

namespace ResidualHarness.Python

/-! ## Strings -/

/-- Quotation mark. -/
def dquote : CodePoint := 0x22
/-- Backslash. -/
def backslash : CodePoint := 0x5C

/-- The text of one string character. -/
def escapeChar (c : CodePoint) : Str :=
  if c = 0x22 then [backslash, 0x22]
  else if c = 0x5C then [backslash, 0x5C]
  else if c = 0x0A then [backslash, 0x6E]
  else if c = 0x0D then [backslash, 0x72]
  else if c = 0x09 then [backslash, 0x74]
  else if c = 0x0C then [backslash, 0x66]
  else if c = 0x08 then [backslash, 0x62]
  else if c.val < 0x20 then
    [backslash, 0x75, 0x30, 0x30, hexChar (c.val / 16), hexChar (c.val % 16)]
  else [c]

/-- A string literal. -/
def quote (s : Str) : Str := dquote :: s.flatMap escapeChar ++ [dquote]

/-! ## Numbers -/

/-- The interpreter's limit on the digits of an integer converted to or from text. -/
def intMaxStrDigits : Nat := 4300

/-- `int.__repr__`. -/
def intRepr (i : Int) : Str := if i < 0 then 0x2D :: natRepr i.natAbs else natRepr i.natAbs

/-- Integers within the digit limit. -/
def intPrintable (i : Int) : Bool := decide ((natRepr i.natAbs).length ≤ intMaxStrDigits)

/-! ## Joining and sorting -/

/-- `sep.join(items)`. -/
def join (sep : Str) : List Str → Str
  | [] => []
  | [x] => x
  | x :: y :: rest => x ++ sep ++ join sep (y :: rest)

/-- Items of an object in the order of their keys. -/
def sortFields {α : Type} (kvs : List (Str × α)) : List (Str × α) :=
  kvs.insertionSort fun a b => a.1 ≤ b.1

theorem mem_sortFields {α : Type} {kvs : List (Str × α)} {kv : Str × α} :
    kv ∈ sortFields kvs ↔ kv ∈ kvs :=
  List.mem_insertionSort _

theorem sortFields_map {α β : Type} (f : α → β) (kvs : List (Str × α)) :
    sortFields (kvs.map fun kv => (kv.1, f kv.2)) =
      (sortFields kvs).map fun kv => (kv.1, f kv.2) := by
  unfold sortFields
  exact (List.map_insertionSort _ _ (fun kv : Str × α => (kv.1, f kv.2)) kvs
    (fun _ _ _ _ => Iff.rfl)).symm

theorem sortFields_idem {α : Type} (kvs : List (Str × α)) :
    sortFields (sortFields kvs) = sortFields kvs := by
  have : Std.Total fun a b : Str × α => a.1 ≤ b.1 := ⟨fun a b => le_total a.1 b.1⟩
  have : IsTrans (Str × α) fun a b => a.1 ≤ b.1 := ⟨fun _ _ _ h₁ h₂ => le_trans h₁ h₂⟩
  exact (List.pairwise_insertionSort _ kvs).insertionSort_eq

theorem nodup_keys_sortFields {α : Type} (kvs : List (Str × α)) :
    ((sortFields kvs).map Prod.fst).Nodup ↔ (kvs.map Prod.fst).Nodup :=
  ((List.perm_insertionSort _ kvs).map _).nodup_iff

/-! ## Values -/

/-- The JSON number grammar, restricted to literals with a fraction or an exponent. -/
def FloatText (s : Str) : Prop :=
  ∃ sign whole frac ex : Str, s = sign ++ whole ++ frac ++ ex ∧
    (sign = [] ∨ sign = [0x2D]) ∧
    (whole = [0x30] ∨ ∃ c ds, whole = c :: ds ∧ isDigit c = true ∧ c ≠ 0x30 ∧
      ∀ d ∈ ds, isDigit d = true) ∧
    (frac = [] ∨ ∃ ds, ds ≠ [] ∧ frac = 0x2E :: ds ∧ ∀ d ∈ ds, isDigit d = true) ∧
    (ex = [] ∨ ∃ e sg ds, ds ≠ [] ∧ ex = e :: (sg ++ ds) ∧ (e = 0x65 ∨ e = 0x45) ∧
      (sg = [] ∨ sg = [0x2B] ∨ sg = [0x2D]) ∧ ∀ d ∈ ds, isDigit d = true) ∧
    ¬ (frac = [] ∧ ex = [])

/-- Python floats as the JSON codec sees them. `ofLiteral` is `float(text)`, which is infinite for
a literal too large; `value` is the exact value of a finite float; `sum` is the built-in sum of a
nonempty list. -/
class FloatModel where
  F : Type
  decEq : DecidableEq F
  isFinite : F → Bool
  value : F → ℚ
  repr : F → Str
  ofLiteral : Str → F
  sum : List F → F
  repr_floatText : ∀ f, isFinite f = true → FloatText (repr f)
  ofLiteral_repr : ∀ f, isFinite f = true → ofLiteral (repr f) = f

variable [FloatModel]

instance : DecidableEq FloatModel.F := FloatModel.decEq

/-- A JSON value as a Python object: an object is a dict with string keys in insertion order. -/
inductive Json where
  | null
  | bool (b : Bool)
  | int (i : Int)
  | float (f : FloatModel.F)
  | str (s : Str)
  | arr (xs : List Json)
  | obj (kvs : List (Str × Json))

namespace Json

/-- Induction over JSON values with the hypothesis for every element and every field value. -/
theorem induction {P : Json → Prop} (hnull : P .null) (hbool : ∀ b, P (.bool b))
    (hint : ∀ i, P (.int i)) (hfloat : ∀ f, P (.float f)) (hstr : ∀ s, P (.str s))
    (harr : ∀ xs : List Json, (∀ x ∈ xs, P x) → P (.arr xs))
    (hobj : ∀ kvs : List (Str × Json), (∀ kv ∈ kvs, P kv.2) → P (.obj kvs)) : ∀ v, P v := by
  intro v
  refine @Json.rec _ P (fun xs => ∀ x ∈ xs, P x) (fun kvs => ∀ kv ∈ kvs, P kv.2)
    (fun kv => P kv.2) hnull hbool hint hfloat hstr harr hobj ?_ ?_ ?_ ?_ ?_ v
  · intro x hx
    cases hx
  · intro x xs hx hxs y hy
    rcases List.mem_cons.1 hy with rfl | hy
    · exact hx
    · exact hxs y hy
  · intro kv hkv
    cases hkv
  · intro kv kvs hkv hkvs y hy
    rcases List.mem_cons.1 hy with rfl | hy
    · exact hkv
    · exact hkvs y hy
  · intro k v hv
    exact hv

mutual
/-- The canonical text of a value, with every number printed. -/
def render : Json → Str
  | .null => lit "null"
  | .bool true => lit "true"
  | .bool false => lit "false"
  | .int i => intRepr i
  | .float f => FloatModel.repr f
  | .str s => quote s
  | .arr xs => 0x5B :: join [0x2C] (renderElems xs) ++ [0x5D]
  | .obj kvs =>
      0x7B :: join [0x2C] ((sortFields (renderFields kvs)).map fun kt => quote kt.1 ++ 0x3A :: kt.2)
        ++ [0x7D]
/-- Texts of the elements of an array. -/
def renderElems : List Json → List Str
  | [] => []
  | x :: xs => render x :: renderElems xs
/-- Keys and value texts of an object, in insertion order. -/
def renderFields : List (Str × Json) → List (Str × Str)
  | [] => []
  | (k, v) :: kvs => (k, render v) :: renderFields kvs
end

mutual
/-- All floats are finite and all integers printable. -/
def dumpable : Json → Bool
  | .int i => intPrintable i
  | .float f => FloatModel.isFinite f
  | .arr xs => dumpableElems xs
  | .obj kvs => dumpableFields kvs
  | _ => true
/-- `dumpable` for every element. -/
def dumpableElems : List Json → Bool
  | [] => true
  | x :: xs => dumpable x && dumpableElems xs
/-- `dumpable` for every field value. -/
def dumpableFields : List (Str × Json) → Bool
  | [] => true
  | (_, v) :: kvs => dumpable v && dumpableFields kvs
end

mutual
/-- Objects have distinct keys, at every depth. -/
def wf : Json → Bool
  | .arr xs => wfElems xs
  | .obj kvs => decide ((kvs.map Prod.fst).Nodup) && wfFields kvs
  | _ => true
/-- `wf` for every element. -/
def wfElems : List Json → Bool
  | [] => true
  | x :: xs => wf x && wfElems xs
/-- `wf` for every field value. -/
def wfFields : List (Str × Json) → Bool
  | [] => true
  | (_, v) :: kvs => wf v && wfFields kvs
end

mutual
/-- The value with the fields of every object in key order. Python's `==` on these values is
equality of the sorted forms. -/
def norm : Json → Json
  | .arr xs => .arr (normElems xs)
  | .obj kvs => .obj (sortFields (normFields kvs))
  | v => v
/-- `norm` of every element. -/
def normElems : List Json → List Json
  | [] => []
  | x :: xs => norm x :: normElems xs
/-- `norm` of every field value. -/
def normFields : List (Str × Json) → List (Str × Json)
  | [] => []
  | (k, v) :: kvs => (k, norm v) :: normFields kvs
end

mutual
/-- Every string in the value, keys included, satisfies `p`. -/
def allStr (p : Str → Bool) : Json → Bool
  | .str s => p s
  | .arr xs => allStrElems p xs
  | .obj kvs => allStrFields p kvs
  | _ => true
/-- `allStr` for every element. -/
def allStrElems (p : Str → Bool) : List Json → Bool
  | [] => true
  | x :: xs => allStr p x && allStrElems p xs
/-- `allStr` for every key and field value. -/
def allStrFields (p : Str → Bool) : List (Str × Json) → Bool
  | [] => true
  | (k, v) :: kvs => p k && allStr p v && allStrFields p kvs
end

/-! ### The list forms -/

theorem renderElems_eq (xs : List Json) : renderElems xs = xs.map render := by
  induction xs with
  | nil => rfl
  | cons x xs ih => rw [renderElems, ih, List.map_cons]

theorem renderFields_eq (kvs : List (Str × Json)) :
    renderFields kvs = kvs.map fun kv => (kv.1, render kv.2) := by
  induction kvs with
  | nil => rfl
  | cons kv kvs ih => rw [renderFields, ih, List.map_cons]

theorem normElems_eq (xs : List Json) : normElems xs = xs.map norm := by
  induction xs with
  | nil => rfl
  | cons x xs ih => rw [normElems, ih, List.map_cons]

theorem normFields_eq (kvs : List (Str × Json)) :
    normFields kvs = kvs.map fun kv => (kv.1, norm kv.2) := by
  induction kvs with
  | nil => rfl
  | cons kv kvs ih => rw [normFields, ih, List.map_cons]

theorem dumpableElems_iff (xs : List Json) :
    dumpableElems xs = true ↔ ∀ x ∈ xs, dumpable x = true := by
  induction xs with
  | nil => simp [dumpableElems]
  | cons x xs ih => simp [dumpableElems, ih]

theorem dumpableFields_iff (kvs : List (Str × Json)) :
    dumpableFields kvs = true ↔ ∀ kv ∈ kvs, dumpable kv.2 = true := by
  induction kvs with
  | nil => simp [dumpableFields]
  | cons kv kvs ih => simp [dumpableFields, ih]

theorem wf_empty : wf (.obj []) = true := rfl

theorem wf_val (v : {v : Json // wf v = true}) : wf v.1 = true := v.2

theorem wfElems_iff (xs : List Json) : wfElems xs = true ↔ ∀ x ∈ xs, wf x = true := by
  induction xs with
  | nil => simp [wfElems]
  | cons x xs ih => simp [wfElems, ih]

theorem wfFields_iff (kvs : List (Str × Json)) :
    wfFields kvs = true ↔ ∀ kv ∈ kvs, wf kv.2 = true := by
  induction kvs with
  | nil => simp [wfFields]
  | cons kv kvs ih => simp [wfFields, ih]

theorem allStrElems_iff (p : Str → Bool) (xs : List Json) :
    allStrElems p xs = true ↔ ∀ x ∈ xs, allStr p x = true := by
  induction xs with
  | nil => simp [allStrElems]
  | cons x xs ih => simp [allStrElems, ih]

theorem allStrFields_iff (p : Str → Bool) (kvs : List (Str × Json)) :
    allStrFields p kvs = true ↔ ∀ kv ∈ kvs, p kv.1 = true ∧ allStr p kv.2 = true := by
  induction kvs with
  | nil => simp [allStrFields]
  | cons kv kvs ih => simp [allStrFields, ih]

theorem render_obj (kvs : List (Str × Json)) :
    render (.obj kvs) = 0x7B :: join [0x2C]
      ((sortFields kvs).map fun kv => quote kv.1 ++ 0x3A :: render kv.2) ++ [0x7D] := by
  rw [render, renderFields_eq, sortFields_map, List.map_map]
  rfl

theorem render_arr (xs : List Json) :
    render (.arr xs) = 0x5B :: join [0x2C] (xs.map render) ++ [0x5D] := by
  rw [render, renderElems_eq]

theorem norm_obj (kvs : List (Str × Json)) :
    norm (.obj kvs) = .obj ((sortFields kvs).map fun kv => (kv.1, norm kv.2)) := by
  rw [norm, normFields_eq, sortFields_map]

theorem norm_arr (xs : List Json) : norm (.arr xs) = .arr (xs.map norm) := by
  rw [norm, normElems_eq]

theorem render_norm (v : Json) : render (norm v) = render v := by
  induction v using Json.induction with
  | hnull => rfl
  | hbool b => rfl
  | hint i => rfl
  | hfloat f => rfl
  | hstr s => rfl
  | harr xs ih =>
      rw [norm_arr, render_arr, render_arr, List.map_map]
      have hmap : xs.map (render ∘ norm) = xs.map render := List.map_congr_left ih
      rw [hmap]
  | hobj kvs ih =>
      rw [norm_obj, render_obj, render_obj, sortFields_map, sortFields_idem, List.map_map]
      have hmap : (sortFields kvs).map
            ((fun kv : Str × Json => quote kv.1 ++ 0x3A :: render kv.2) ∘
              fun kv => (kv.1, norm kv.2)) =
          (sortFields kvs).map fun kv => quote kv.1 ++ 0x3A :: render kv.2 := by
        apply List.map_congr_left
        intro kv hkv
        simp only [Function.comp, ih kv (mem_sortFields.1 hkv)]
      rw [hmap]

theorem norm_norm (v : Json) : norm (norm v) = norm v := by
  induction v using Json.induction with
  | hnull => rfl
  | hbool b => rfl
  | hint i => rfl
  | hfloat f => rfl
  | hstr s => rfl
  | harr xs ih =>
      rw [norm_arr, norm_arr, List.map_map]
      exact congrArg Json.arr (List.map_congr_left ih)
  | hobj kvs ih =>
      rw [norm_obj, norm_obj, sortFields_map, sortFields_idem, List.map_map]
      refine congrArg Json.obj (List.map_congr_left ?_)
      intro kv hkv
      simp only [Function.comp, ih kv (mem_sortFields.1 hkv)]

theorem wf_norm {v : Json} (h : wf v = true) : wf (norm v) = true := by
  induction v using Json.induction with
  | hnull => rfl
  | hbool b => rfl
  | hint i => rfl
  | hfloat f => rfl
  | hstr s => rfl
  | harr xs ih =>
      rw [norm_arr, wf, wfElems_iff]
      rw [wf, wfElems_iff] at h
      intro x hx
      obtain ⟨y, hy, rfl⟩ := List.mem_map.1 hx
      exact ih y hy (h y hy)
  | hobj kvs ih =>
      rw [norm_obj, wf, Bool.and_eq_true, wfFields_iff, decide_eq_true_eq]
      rw [wf, Bool.and_eq_true, wfFields_iff, decide_eq_true_eq] at h
      refine ⟨?_, ?_⟩
      · rw [List.map_map]
        exact (nodup_keys_sortFields kvs).2 h.1
      · intro kv hkv
        obtain ⟨y, hy, rfl⟩ := List.mem_map.1 hkv
        exact ih y (mem_sortFields.1 hy) (h.2 y (mem_sortFields.1 hy))

theorem dumpable_norm (v : Json) : dumpable (norm v) = dumpable v := by
  induction v using Json.induction with
  | hnull => rfl
  | hbool b => rfl
  | hint i => rfl
  | hfloat f => rfl
  | hstr s => rfl
  | harr xs ih =>
      rw [norm_arr, Bool.eq_iff_iff, dumpable, dumpable, dumpableElems_iff, dumpableElems_iff]
      simp only [List.forall_mem_map]
      exact forall₂_congr fun x hx => by rw [ih x hx]
  | hobj kvs ih =>
      rw [norm_obj, Bool.eq_iff_iff, dumpable, dumpable, dumpableFields_iff, dumpableFields_iff]
      simp only [List.forall_mem_map, mem_sortFields]
      exact forall₂_congr fun kv hkv => by rw [ih kv hkv]

theorem allStr_norm (p : Str → Bool) (v : Json) : allStr p (norm v) = allStr p v := by
  induction v using Json.induction with
  | hnull => rfl
  | hbool b => rfl
  | hint i => rfl
  | hfloat f => rfl
  | hstr s => rfl
  | harr xs ih =>
      rw [norm_arr, Bool.eq_iff_iff, allStr, allStr, allStrElems_iff, allStrElems_iff]
      simp only [List.forall_mem_map]
      exact forall₂_congr fun x hx => by rw [ih x hx]
  | hobj kvs ih =>
      rw [norm_obj, Bool.eq_iff_iff, allStr, allStr, allStrFields_iff, allStrFields_iff]
      simp only [List.forall_mem_map, mem_sortFields]
      exact forall₂_congr fun kv hkv => by rw [ih kv hkv]

end Json

/-- `json.dumps` with the canonical options. -/
def dumps (v : Json) : Except PyExn Str :=
  if v.dumpable then .ok v.render
  else .error (.valueError "Out of range float values are not JSON compliant")

end ResidualHarness.Python
