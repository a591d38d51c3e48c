import ResidualHarness.Python.Compare

/-!
# The order of Python objects

What `<` gives on JSON values: it respects `==` (`Json.less_same`) and, where it is defined, it is
asymmetric and transitive (`Json.less_asymm`, `Json.less_trans`).
-/

set_option autoImplicit false

namespace ResidualHarness.Python.Json

variable [FloatModel]

/-! ## Equality -/

theorem plain_plain (v : Json) : plain (plain v) = plain v := by
  induction v using Json.induction with
  | hnull => rfl
  | hbool b => rfl
  | hint i => rfl
  | hfloat f =>
      cases hf : integral f with
      | some i => simp only [plain, hf]
      | none => simp only [plain, hf]
  | hstr s => rfl
  | harr xs ih =>
      rw [plain, plain, plainElems_eq, plainElems_eq, List.map_map]
      exact congrArg Json.arr (List.map_congr_left ih)
  | hobj kvs ih =>
      rw [plain, plain, plainFields_eq, plainFields_eq, sortFields_map, sortFields_map,
        sortFields_map, sortFields_idem, List.map_map]
      refine congrArg Json.obj (List.map_congr_left ?_)
      intro kv hkv
      simp only [Function.comp, ih kv (mem_sortFields.1 hkv)]

theorem number_plain (v : Json) : number (plain v) = number v := by
  cases v with
  | bool b => cases b <;> rfl
  | float f =>
      rw [plain, integral]
      by_cases hd : (FloatModel.value f).den = 1
      · rw [if_pos hd]
        simp only [number]
        rw [Rat.coe_int_num_of_den_eq_one hd]
      · rw [if_neg hd]
  | _ => rfl

theorem lessElems_plain {xs : List Json} (h : ∀ x ∈ xs, ∀ w, less x.plain w.plain = less x w)
    (ys : List Json) : lessElems (xs.map plain) (ys.map plain) = lessElems xs ys := by
  induction xs generalizing ys with
  | nil => cases ys <;> rfl
  | cons x xs ih =>
      cases ys with
      | nil => rfl
      | cons y ys =>
          have hsame : Same x.plain y.plain ↔ Same x y := by
            unfold Same
            rw [plain_plain, plain_plain]
          rw [List.map_cons, List.map_cons, lessElems, lessElems, if_congr hsame rfl rfl,
            h x List.mem_cons_self, ih fun z hz => h z (List.mem_cons_of_mem _ hz)]

/-- Strings and lists compare in ways of their own. -/
def isSequence : Json → Bool
  | .str _ => true
  | .arr _ => true
  | _ => false

theorem less_number {v : Json} (h : v.isSequence = false) (w : Json) :
    less v w = (number v).bind fun p => (number w).map fun q => decide (p < q) := by
  cases v with
  | str s => cases h
  | arr xs => cases h
  | _ => cases w <;> simp [less, number]

theorem isSequence_plain (v : Json) : v.plain.isSequence = v.isSequence := by
  cases v with
  | float f =>
      rw [plain]
      split <;> rfl
  | _ => rfl

theorem less_plain_number {v : Json} (h : v.isSequence = false) (w : Json) :
    less v.plain w.plain = less v w := by
  rw [less_number (by rw [isSequence_plain, h]), less_number h, number_plain, number_plain]

theorem less_plain (v w : Json) : less v.plain w.plain = less v w := by
  induction v using Json.induction generalizing w with
  | hnull => exact less_plain_number rfl w
  | hbool b => exact less_plain_number rfl w
  | hint i => exact less_plain_number rfl w
  | hobj kvs _ => exact less_plain_number rfl w
  | hfloat f => exact less_plain_number rfl w
  | hstr s =>
      cases w with
      | float f =>
          cases hf : integral f with
          | some i => simp [plain, hf, less, number]
          | none => simp [plain, hf, less, number]
      | _ => simp [plain, less, number]
  | harr xs ih =>
      cases w with
      | arr ys =>
          simp only [plain, plainElems_eq, less]
          exact lessElems_plain ih ys
      | float f =>
          cases hf : integral f with
          | some i => simp [plain, hf, less, number]
          | none => simp [plain, hf, less, number]
      | _ => simp [plain, less, number]

theorem less_same {v v' w w' : Json} (hv : Same v v') (hw : Same w w') : less v w = less v' w' := by
  rw [← less_plain v w, hv, hw, less_plain]

/-! ## Order -/

theorem lessElems_asymm {xs : List Json}
    (h : ∀ x ∈ xs, ∀ w, less x w = some true → less w x = some false) (ys : List Json)
    (hlt : lessElems xs ys = some true) : lessElems ys xs = some false := by
  induction xs generalizing ys with
  | nil =>
      cases ys with
      | nil => cases hlt
      | cons y ys => rfl
  | cons x xs ih =>
      cases ys with
      | nil => cases hlt
      | cons y ys =>
          rw [lessElems] at hlt ⊢
          by_cases hs : Same x y
          · rw [if_pos hs] at hlt
            rw [if_pos hs.symm]
            exact ih (fun z hz => h z (List.mem_cons_of_mem _ hz)) ys hlt
          · rw [if_neg hs] at hlt
            rw [if_neg fun hs' => hs hs'.symm]
            exact h x List.mem_cons_self y hlt

theorem less_asymm {v w : Json} (h : less v w = some true) : less w v = some false := by
  induction v using Json.induction generalizing w with
  | harr xs ih =>
      cases w with
      | arr ys =>
          rw [less] at h ⊢
          exact lessElems_asymm (fun x hx w hw => ih x hx hw) ys h
      | _ => simp [less, number] at h
  | _ =>
      cases w <;> simp only [less, number, Option.some.injEq, decide_eq_true_eq, reduceCtorEq,
        decide_eq_false_iff_not] at h ⊢ <;> exact not_lt_of_gt h

theorem lessElems_trans {xs : List Json}
    (h : ∀ x ∈ xs, ∀ v w, less x v = some true → less v w = some true → less x w = some true)
    (ys zs : List Json) (hxy : lessElems xs ys = some true) (hyz : lessElems ys zs = some true) :
    lessElems xs zs = some true := by
  induction xs generalizing ys zs with
  | nil =>
      cases ys with
      | nil => cases hxy
      | cons y ys =>
          cases zs with
          | nil => cases hyz
          | cons z zs => rfl
  | cons x xs ih =>
      cases ys with
      | nil => cases hxy
      | cons y ys =>
          cases zs with
          | nil => cases hyz
          | cons z zs =>
              rw [lessElems] at hxy hyz ⊢
              -- the first difference of `x` and `z` is at the first of the two differences
              by_cases hs : Same x y
              · rw [if_pos hs] at hxy
                by_cases hs' : Same y z
                · rw [if_pos hs'] at hyz
                  rw [if_pos (hs.trans hs')]
                  exact ih (fun u hu => h u (List.mem_cons_of_mem _ hu)) ys zs hxy hyz
                · rw [if_neg hs'] at hyz
                  rw [if_neg fun hxz => hs' (hs.symm.trans hxz), less_same hs (Same.refl z)]
                  exact hyz
              · rw [if_neg hs] at hxy
                by_cases hs' : Same y z
                · rw [if_neg fun hxz => hs (hxz.trans hs'.symm),
                    less_same (Same.refl x) hs'.symm]
                  exact hxy
                · rw [if_neg hs'] at hyz
                  have hxz : ¬ Same x z := by
                    intro he
                    have hback := less_asymm hxy
                    rw [less_same (Same.refl y) he, hyz] at hback
                    cases hback
                  rw [if_neg hxz]
                  exact h x List.mem_cons_self y z hxy hyz

theorem less_trans {u v w : Json} (huv : less u v = some true) (hvw : less v w = some true) :
    less u w = some true := by
  induction u using Json.induction generalizing v w with
  | harr xs ih =>
      cases v with
      | arr ys =>
          cases w with
          | arr zs =>
              rw [less] at huv hvw ⊢
              exact lessElems_trans (fun x hx v w => ih x hx) ys zs huv hvw
          | _ => simp [less, number] at hvw
      | _ => simp [less, number] at huv
  | _ =>
      cases v <;> simp only [less, number, Option.some.injEq, decide_eq_true_eq, reduceCtorEq] at huv <;>
        cases w <;> simp only [less, number, Option.some.injEq, decide_eq_true_eq, reduceCtorEq]
          at hvw ⊢ <;> exact lt_trans huv hvw

end ResidualHarness.Python.Json
