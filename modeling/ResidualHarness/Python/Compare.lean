import ResidualHarness.Python.Dict
import ResidualHarness.Python.Json

/-!
# Python comparison of JSON values

`==`, `<`, `in`, `or` and hashing on the Python objects that JSON texts stand for. Equality
ignores the order of a dictionary's items and the numeric type, so `True == 1 == 1.0`; it is stated
as equality of plain forms, which makes it an equivalence. Ordering is defined on numbers, strings
and lists, and raises `TypeError` otherwise. Non-finite floats are outside this file: no value that
was written as canonical JSON has one.
-/

set_option autoImplicit false

namespace ResidualHarness.Python

variable [FloatModel]

namespace Json

/-! ## Structural equality -/

mutual
/-- Structural equality. -/
def beq : Json → Json → Bool
  | .null, .null => true
  | .bool a, .bool b => a == b
  | .int a, .int b => a == b
  | .float a, .float b => a == b
  | .str a, .str b => a == b
  | .arr xs, .arr ys => beqElems xs ys
  | .obj kvs, .obj kws => beqFields kvs kws
  | _, _ => false
/-- Structural equality of arrays. -/
def beqElems : List Json → List Json → Bool
  | [], [] => true
  | x :: xs, y :: ys => beq x y && beqElems xs ys
  | _, _ => false
/-- Structural equality of objects. -/
def beqFields : List (Str × Json) → List (Str × Json) → Bool
  | [], [] => true
  | (k, v) :: kvs, (l, w) :: kws => k == l && beq v w && beqFields kvs kws
  | _, _ => false
end

theorem beqElems_iff {xs : List Json} (h : ∀ x ∈ xs, ∀ y, beq x y = true ↔ x = y) (ys : List Json) :
    beqElems xs ys = true ↔ xs = ys := by
  induction xs generalizing ys with
  | nil => cases ys <;> simp [beqElems]
  | cons x xs ih =>
      cases ys with
      | nil => simp [beqElems]
      | cons y ys =>
          rw [beqElems, Bool.and_eq_true, h x List.mem_cons_self,
            ih (fun z hz => h z (List.mem_cons_of_mem _ hz)), List.cons.injEq]

theorem beqFields_iff {kvs : List (Str × Json)}
    (h : ∀ kv ∈ kvs, ∀ y, beq kv.2 y = true ↔ kv.2 = y) (kws : List (Str × Json)) :
    beqFields kvs kws = true ↔ kvs = kws := by
  induction kvs generalizing kws with
  | nil => cases kws <;> simp [beqFields]
  | cons kv kvs ih =>
      cases kws with
      | nil => simp [beqFields]
      | cons kw kws =>
          rw [beqFields, Bool.and_eq_true, Bool.and_eq_true, h kv List.mem_cons_self,
            ih (fun z hz => h z (List.mem_cons_of_mem _ hz)), List.cons.injEq, beq_iff_eq,
            Prod.ext_iff]

theorem beq_iff (v w : Json) : beq v w = true ↔ v = w := by
  induction v using Json.induction generalizing w with
  | hnull => cases w <;> simp [beq]
  | hbool b => cases w <;> simp [beq]
  | hint i => cases w <;> simp [beq]
  | hfloat f => cases w <;> simp [beq]
  | hstr s => cases w <;> simp [beq]
  | harr xs ih =>
      cases w with
      | arr ys => rw [beq, beqElems_iff ih, Json.arr.injEq]
      | _ => simp [beq]
  | hobj kvs ih =>
      cases w with
      | obj kws => rw [beq, beqFields_iff ih, Json.obj.injEq]
      | _ => simp [beq]

instance : DecidableEq Json := fun v w => decidable_of_iff _ (beq_iff v w)

/-! ## Equality of Python objects -/

/-- The integer a finite float is equal to. -/
def integral (f : FloatModel.F) : Option Int :=
  if (FloatModel.value f).den = 1 then some (FloatModel.value f).num else none

mutual
/-- The plain form of a value: sorted fields, and an integer for every number equal to one. -/
def plain : Json → Json
  | .bool b => .int (if b then 1 else 0)
  | .float f =>
      match integral f with
      | some i => .int i
      | none => .float f
  | .arr xs => .arr (plainElems xs)
  | .obj kvs => .obj (sortFields (plainFields kvs))
  | v => v
/-- `plain` of every element. -/
def plainElems : List Json → List Json
  | [] => []
  | x :: xs => plain x :: plainElems xs
/-- `plain` of every field value. -/
def plainFields : List (Str × Json) → List (Str × Json)
  | [] => []
  | (k, v) :: kvs => (k, plain v) :: plainFields kvs
end

/-- Python `a == b`. -/
def Same (v w : Json) : Prop := v.plain = w.plain

instance (v w : Json) : Decidable (Same v w) := inferInstanceAs (Decidable (v.plain = w.plain))

theorem Same.refl (v : Json) : Same v v := rfl

theorem Same.symm {v w : Json} (h : Same v w) : Same w v := Eq.symm h

theorem Same.trans {u v w : Json} (h : Same u v) (h' : Same v w) : Same u w := Eq.trans h h'

theorem plainElems_eq (xs : List Json) : plainElems xs = xs.map plain := by
  induction xs with
  | nil => rfl
  | cons x xs ih => rw [plainElems, ih, List.map_cons]

theorem plainFields_eq (kvs : List (Str × Json)) :
    plainFields kvs = kvs.map fun kv => (kv.1, plain kv.2) := by
  induction kvs with
  | nil => rfl
  | cons kv kvs ih => rw [plainFields, ih, List.map_cons]

theorem plain_norm (v : Json) : plain (norm v) = plain v := by
  induction v using Json.induction with
  | hnull => rfl
  | hbool b => rfl
  | hint i => rfl
  | hfloat f => rfl
  | hstr s => rfl
  | harr xs ih =>
      rw [norm_arr, plain, plain, plainElems_eq, plainElems_eq, List.map_map]
      exact congrArg Json.arr (List.map_congr_left ih)
  | hobj kvs ih =>
      rw [norm_obj, plain, plain, plainFields_eq, plainFields_eq, sortFields_map, sortFields_map,
        sortFields_map, sortFields_idem, List.map_map]
      refine congrArg Json.obj (List.map_congr_left ?_)
      intro kv hkv
      simp only [Function.comp, ih kv (mem_sortFields.1 hkv)]

/-- Reading a value back from its canonical text gives an equal object. -/
theorem same_norm (v : Json) : Same v.norm v := plain_norm v

theorem same_str {s : Str} {v : Json} (h : Same v (.str s)) : v = .str s := by
  cases v with
  | str t => exact h
  | float f =>
      rw [Same, plain] at h
      split at h <;> cases h
  | _ => cases h

/-- Objects that can be dictionary keys and set members. -/
def hashable : Json → Bool
  | .arr _ => false
  | .obj _ => false
  | _ => true

/-- Truth value of an object. -/
def truthy : Json → Bool
  | .null => false
  | .bool b => b
  | .int i => decide (i ≠ 0)
  | .float f => decide (FloatModel.value f ≠ 0)
  | .str s => decide (s ≠ [])
  | .arr xs => !xs.isEmpty
  | .obj kvs => !kvs.isEmpty

/-! ## Order -/

/-- The value of a number. -/
def number : Json → Option ℚ
  | .bool b => some (if b then 1 else 0)
  | .int i => some i
  | .float f => some (FloatModel.value f)
  | _ => none

mutual
/-- Python `a < b`; `none` is a `TypeError`. -/
def less : Json → Json → Option Bool
  | .str s, .str t => some (decide (s < t))
  | .arr xs, .arr ys => lessElems xs ys
  | v, w =>
      match number v, number w with
      | some p, some q => some (decide (p < q))
      | _, _ => none
/-- Lists and tuples compare at their first unequal element. -/
def lessElems : List Json → List Json → Option Bool
  | [], [] => some false
  | [], _ :: _ => some true
  | _ :: _, [] => some false
  | x :: xs, y :: ys => if Same x y then lessElems xs ys else less x y
end

theorem lessElems_norm {xs : List Json} (h : ∀ x ∈ xs, ∀ w, less x.norm w.norm = less x w)
    (ys : List Json) : lessElems (xs.map norm) (ys.map norm) = lessElems xs ys := by
  induction xs generalizing ys with
  | nil => cases ys <;> rfl
  | cons x xs ih =>
      cases ys with
      | nil => rfl
      | cons y ys =>
          have hsame : Same x.norm y.norm ↔ Same x y := by
            unfold Same
            rw [plain_norm, plain_norm]
          rw [List.map_cons, List.map_cons, lessElems, lessElems, if_congr hsame rfl rfl,
            h x List.mem_cons_self, ih fun z hz => h z (List.mem_cons_of_mem _ hz)]

/-- The order does not depend on the order of a dictionary's items. -/
theorem less_norm (v w : Json) : less v.norm w.norm = less v w := by
  induction v using Json.induction generalizing w with
  | harr xs ih =>
      cases w with
      | arr ys =>
          rw [norm_arr, norm_arr, less, less]
          exact lessElems_norm ih ys
      | _ => rfl
  | _ => cases w <;> rfl

end Json

/-! ## Dictionaries -/

/-- A `dict` with string keys, in insertion order. -/
abbrev Fields := List (Str × Json)

/-- `v[key]` for a string key. -/
def Json.item (v : Json) (key : Str) : Except PyExn Json :=
  match v with
  | .obj d =>
      match d.lookup key with
      | some w => .ok w
      | none => .error .keyError
  | _ => .error .typeError

namespace Fields

/-- `d.get(key)`. -/
def get? (d : Fields) (key : Str) : Option Json := d.lookup key

/-- `d[key]`. -/
def get (d : Fields) (key : Str) : Except PyExn Json := (Json.obj d).item key

/-- The dictionary with its fields in key order, at every depth. -/
def norm (d : Fields) : Fields := (sortFields d).map fun kv => (kv.1, kv.2.norm)

theorem get_of_get? {d : Fields} {key : Str} {v : Json} (h : d.get? key = some v) :
    d.get key = .ok v := by
  rw [get?] at h
  rw [get, Json.item, h]

theorem obj_norm (d : Fields) : (Json.obj d).norm = .obj d.norm := Json.norm_obj d

theorem get?_of_mem {d : Fields} {key : Str} {v : Json} (hnd : (d.map Prod.fst).Nodup)
    (hm : (key, v) ∈ d) : d.get? key = some v := by
  rw [get?]
  induction d with
  | nil => cases hm
  | cons kw d ih =>
      obtain ⟨k, w⟩ := kw
      rw [List.map_cons, List.nodup_cons] at hnd
      rcases List.mem_cons.1 hm with he | htail
      · cases he
        rw [List.lookup_cons_self]
      · have hne : key ≠ k := by
          rintro rfl
          exact hnd.1 (List.mem_map.2 ⟨(key, v), htail, rfl⟩)
        rw [List.lookup_cons, beq_false_of_ne hne]
        exact ih hnd.2 htail

theorem get?_filter_ne (d : Fields) {key drop : Str} (h : key ≠ drop) :
    get? (d.filter fun kv => kv.1 ≠ drop) key = d.get? key := by
  induction d with
  | nil => rfl
  | cons kv d ih =>
      obtain ⟨k, v⟩ := kv
      rw [List.filter_cons]
      by_cases hk : k = drop
      · have hne : (key == k) = false := by
          rw [beq_eq_false_iff_ne, hk]
          exact h
        rw [if_neg (by simp [hk]), ih, get?, get?, List.lookup_cons, hne]
      · rw [if_pos (by simp [hk])]
        rw [get?, get?] at ih
        rw [get?, get?, List.lookup_cons, List.lookup_cons, ih]

theorem mem_of_get? {d : Fields} {key : Str} {v : Json} (h : d.get? key = some v) :
    (key, v) ∈ d := by
  rw [get?] at h
  induction d with
  | nil => cases h
  | cons kw d ih =>
      obtain ⟨k, w⟩ := kw
      rw [List.lookup_cons] at h
      split at h
      · rename_i hk
        cases h
        rw [eq_of_beq hk]
        exact List.mem_cons_self
      · exact List.mem_cons_of_mem _ (ih h)

theorem nodup_norm {d : Fields} (hnd : (d.map Prod.fst).Nodup) : (d.norm.map Prod.fst).Nodup := by
  rw [norm, List.map_map]
  exact (nodup_keys_sortFields d).2 hnd

/-- Reading a key of a dictionary that was written and read back. -/
theorem get?_norm {d : Fields} (hnd : (d.map Prod.fst).Nodup) (key : Str) :
    d.norm.get? key = (d.get? key).map Json.norm := by
  cases h : d.get? key with
  | some v =>
      apply get?_of_mem (nodup_norm hnd)
      exact List.mem_map.2 ⟨(key, v), mem_sortFields.2 (mem_of_get? h), rfl⟩
  | none =>
      cases h' : d.norm.get? key with
      | none => rfl
      | some w =>
          obtain ⟨kv, hkv, he⟩ := List.mem_map.1 (mem_of_get? h')
          cases he
          rw [get?_of_mem hnd (mem_sortFields.1 hkv)] at h
          cases h

end Fields

omit [FloatModel] in
/-- Fields with distinct keys have one sorted form. -/
theorem sortFields_perm {α : Type} {kvs kws : List (Str × α)} (h : kvs.Perm kws)
    (hnd : (kvs.map Prod.fst).Nodup) : sortFields kvs = sortFields kws := by
  have : Std.Total fun a b : Str × α => a.1 ≤ b.1 := ⟨fun a b => le_total a.1 b.1⟩
  have : IsTrans (Str × α) fun a b => a.1 ≤ b.1 := ⟨fun _ _ _ h₁ h₂ => le_trans h₁ h₂⟩
  have hperm : (sortFields kvs).Perm (sortFields kws) :=
    ((List.perm_insertionSort _ kvs).trans h).trans (List.perm_insertionSort _ kws).symm
  refine hperm.eq_of_pairwise ?_ (List.pairwise_insertionSort _ kvs)
    (List.pairwise_insertionSort _ kws)
  intro a b ha hb hab hba
  -- two fields with the same key are the same field
  exact List.inj_on_of_nodup_map hnd (mem_sortFields.1 ha)
    (h.mem_iff.2 (mem_sortFields.1 hb)) (le_antisymm hab hba)

theorem Json.norm_obj_perm {d e : Fields} (h : d.Perm e) (hnd : (d.map Prod.fst).Nodup) :
    (Json.obj d).norm = (Json.obj e).norm := by
  rw [Json.norm_obj, Json.norm_obj, sortFields_perm h hnd]

/-- Dictionaries with the same values for all keys are equal up to the order of their keys. -/
theorem Fields.norm_ext {d e : Fields} (hd : (d.map Prod.fst).Nodup) (he : (e.map Prod.fst).Nodup)
    (h : ∀ key, (d.get? key).map Json.norm = (e.get? key).map Json.norm) : d.norm = e.norm := by
  have hdn := Fields.nodup_norm hd
  have hen := Fields.nodup_norm he
  have hmem : ∀ kv, kv ∈ d.norm ↔ kv ∈ e.norm := by
    rintro ⟨key, v⟩
    have hget : d.norm.get? key = e.norm.get? key := by
      rw [Fields.get?_norm hd, Fields.get?_norm he, h]
    constructor
    · intro hkv
      exact Fields.mem_of_get? (hget ▸ Fields.get?_of_mem hdn hkv)
    · intro hkv
      exact Fields.mem_of_get? (hget ▸ Fields.get?_of_mem hen hkv)
  have hperm := (List.perm_ext_iff_of_nodup hdn.of_map hen.of_map).2 hmem
  have hsort : ∀ f : Fields, sortFields f.norm = f.norm := by
    intro f
    rw [Fields.norm, sortFields_map, sortFields_idem]
  rw [← hsort d, ← hsort e, sortFields_perm hperm hdn]

theorem Fields.get?_eq (d : Fields) (key : Str) : d.get? key = Dict.get? d key := by
  induction d with
  | nil => rfl
  | cons kv d ih =>
      obtain ⟨k, v⟩ := kv
      rw [Dict.get?, ← ih, Fields.get?, Fields.get?, List.lookup_cons]
      by_cases hk : k = key
      · rw [if_pos hk, beq_iff_eq.2 hk.symm]
      · rw [if_neg hk, beq_false_of_ne (Ne.symm hk)]

/-! ## Equality up to the order of keys -/

/-- The values differ at most in the order of their dictionaries' keys. -/
def Json.Alike (v w : Json) : Prop := v.norm = w.norm

theorem Json.Alike.same {v w : Json} (h : v.Alike w) : v.Same w := by
  have hp := congrArg plain (id h : v.norm = w.norm)
  rwa [plain_norm, plain_norm] at hp

theorem Json.alike_str {v : Json} {s : Str} (h : v.Alike (.str s)) : v = .str s := same_str h.same

theorem Json.alike_int {v : Json} {i : Int} (h : v.Alike (.int i)) : v = .int i := by
  cases v with
  | arr xs =>
      rw [Alike, norm_arr] at h
      cases h
  | obj d =>
      rw [Alike, norm_obj] at h
      cases h
  | _ => exact h

/-- A dictionary alike to one with distinct keys, as an object. -/
theorem Json.alike_obj {v : Json} {e : Fields} (h : v.Alike (.obj e)) :
    ∃ d : Fields, v = .obj d ∧ d.norm = e.norm := by
  cases v with
  | obj d =>
      refine ⟨d, rfl, ?_⟩
      have hn := id h
      rw [Alike, Fields.obj_norm, Fields.obj_norm] at hn
      exact Json.obj.inj hn
  | arr xs =>
      rw [Alike, norm_arr, norm_obj] at h
      cases h
  | _ =>
      rw [Alike, norm_obj] at h
      cases h

theorem Fields.nodup_of_norm {d e : Fields} (h : d.norm = e.norm)
    (hnd : (e.map Prod.fst).Nodup) : (d.map Prod.fst).Nodup := by
  rw [← nodup_keys_sortFields]
  have hd := Fields.nodup_norm hnd
  rw [← h, Fields.norm, List.map_map] at hd
  exact hd

theorem Fields.get?_alike {d e : Fields} (h : d.norm = e.norm) (hnd : (e.map Prod.fst).Nodup)
    (key : Str) : (d.get? key).map Json.norm = (e.get? key).map Json.norm := by
  rw [← Fields.get?_norm (Fields.nodup_of_norm h hnd), ← Fields.get?_norm hnd, h]

theorem Fields.get?_alike_some {d e : Fields} (h : d.norm = e.norm)
    (hnd : (e.map Prod.fst).Nodup) {key : Str} {w : Json} (hw : e.get? key = some w) :
    ∃ v, d.get? key = some v ∧ v.Alike w := by
  have hg := Fields.get?_alike h hnd key
  rw [hw, Option.map_some, Option.map_eq_some_iff] at hg
  obtain ⟨v, hv, hn⟩ := hg
  exact ⟨v, hv, hn⟩

end ResidualHarness.Python
