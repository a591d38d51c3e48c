import ResidualHarness.Python.JsonRoundTrip

/-!
# Truncated JSON objects

An object is self-delimiting: once its closing brace is read, further text does not change what was
read. So no proper prefix of the canonical text of an object is itself a JSON text
(`loads_proper_prefix`).
-/

set_option autoImplicit false

namespace ResidualHarness.Python

/-! ## Scanners on a longer text -/

theorem skipSpace_append {s : Str} (h : skipSpace s ≠ []) (t : Str) :
    skipSpace (s ++ t) = skipSpace s ++ t := by
  unfold skipSpace at h ⊢
  induction s with
  | nil => exact absurd rfl h
  | cons d s ih =>
      rw [List.cons_append]
      by_cases hd : isJsonSpace d = true
      · rw [List.dropWhile_cons_of_pos hd] at h
        rw [List.dropWhile_cons_of_pos hd, List.dropWhile_cons_of_pos hd]
        exact ih h
      · rw [List.dropWhile_cons_of_neg hd, List.dropWhile_cons_of_neg hd]
        rfl

theorem skipSpace_append_cons {s r : Str} {c : CodePoint} (h : skipSpace s = c :: r) (t : Str) :
    skipSpace (s ++ t) = c :: (r ++ t) := by
  rw [skipSpace_append (by rw [h]; simp), h, List.cons_append]

/-- The rest of the text is put after the rest of the first part. -/
theorem map_extend {α β : Type} {x y : Option (α × Str)} {f : α → β} {u : β} {r t : Str}
    (hxy : ∀ a r, x = some (a, r) → y = some (a, r ++ t))
    (h : x.map (fun p => (f p.1, p.2)) = some (u, r)) :
    y.map (fun p => (f p.1, p.2)) = some (u, r ++ t) := by
  obtain ⟨⟨a, r'⟩, hx, he⟩ := Option.map_eq_some_iff.1 h
  cases he
  rw [hxy a r' hx]
  rfl

theorem scanString_append : ∀ (s : Str) (u : List StrUnit) (r : Str), scanString s = some (u, r) →
    ∀ t, scanString (s ++ t) = some (u, r ++ t)
  | [], u, r, h, t => by
      rw [scanString.eq_def] at h
      cases h
  | c :: rest, u, r, h, t => by
      rw [scanString.eq_def] at h
      rw [List.cons_append, scanString.eq_def]
      by_cases h1 : c = dquote
      · simp only [if_pos h1, Option.some.injEq, Prod.mk.injEq] at h ⊢
        exact ⟨h.1, by rw [← h.2]⟩
      · simp only [if_neg h1] at h ⊢
        by_cases h2 : c = backslash
        · simp only [if_pos h2] at h ⊢
          cases rest with
          | nil => cases h
          | cons e rest =>
              simp only [List.cons_append] at h ⊢
              by_cases h3 : e = 0x75
              · simp only [if_pos h3] at h ⊢
                rcases rest with _ | ⟨a, _ | ⟨b, _ | ⟨c', _ | ⟨d, rest⟩⟩⟩⟩
                · cases h
                · cases h
                · cases h
                · cases h
                · simp only [List.cons_append] at h ⊢
                  cases hx : hex4 a b c' d with
                  | none =>
                      rw [hx] at h
                      cases h
                  | some n =>
                      rw [hx] at h
                      exact map_extend (fun u' r' hu => scanString_append rest u' r' hu t) h
              · simp only [if_neg h3] at h ⊢
                cases hx : simpleEscape e with
                | none =>
                    rw [hx] at h
                    cases h
                | some d =>
                    rw [hx] at h
                    exact map_extend (fun u' r' hu => scanString_append rest u' r' hu t) h
        · simp only [if_neg h2] at h ⊢
          by_cases h3 : c.val < 0x20
          · rw [if_pos h3] at h
            cases h
          · simp only [if_neg h3] at h ⊢
            exact map_extend (fun u' r' hu => scanString_append rest u' r' hu t) h

theorem parseString_append {s k r : Str} (h : parseString s = some (k, r)) (t : Str) :
    parseString (s ++ t) = some (k, r ++ t) := by
  rw [parseString] at h ⊢
  exact map_extend (fun u r' hu => scanString_append s u r' hu t) h

/-- What is left of a text after a number starts with a character that ends it. -/
def Ends (r : Str) : Prop := ∃ c r', r = c :: r' ∧ isNumChar c = false

theorem Ends.append {r : Str} (h : Ends r) (t : Str) : Ends (r ++ t) := by
  obtain ⟨c, r', rfl, hc⟩ := h
  exact ⟨c, r' ++ t, rfl, hc⟩

theorem takeWhile_digits_append {s r : Str} (h : s.dropWhile isDigit = r) (hr : r ≠ []) (t : Str) :
    (s ++ t).takeWhile isDigit = s.takeWhile isDigit ∧ (s ++ t).dropWhile isDigit = r ++ t := by
  subst h
  induction s with
  | nil => exact absurd rfl hr
  | cons c s ih =>
      rw [List.cons_append]
      by_cases hc : isDigit c = true
      · rw [List.dropWhile_cons_of_pos hc] at hr
        obtain ⟨h1, h2⟩ := ih hr
        rw [List.takeWhile_cons_of_pos hc, List.takeWhile_cons_of_pos hc, h1,
          List.dropWhile_cons_of_pos hc, List.dropWhile_cons_of_pos hc, h2]
        exact ⟨rfl, rfl⟩
      · rw [List.takeWhile_cons_of_neg hc, List.takeWhile_cons_of_neg hc,
          List.dropWhile_cons_of_neg hc, List.dropWhile_cons_of_neg hc]
        exact ⟨rfl, rfl⟩

theorem scanExpSign_append {s : Str} (hs : s ≠ []) (t : Str) :
    scanExpSign (s ++ t) = ((scanExpSign s).1, (scanExpSign s).2 ++ t) := by
  cases s with
  | nil => exact absurd rfl hs
  | cons c s =>
      rw [List.cons_append, scanExpSign, scanExpSign]
      split <;> rfl

/-- An exponent that ended before the end of the text is not extended. -/
theorem scanExp_extend {s ex r : Str} (h : scanExp s = (ex, r)) (hr : Ends r) (t : Str) :
    scanExp (s ++ t) = (ex, r ++ t) := by
  obtain ⟨c0, r0, hr0, hc0⟩ := hr
  cases s with
  | nil =>
      rw [scanExp] at h
      cases h
      cases hr0
  | cons c s =>
      rw [scanExp] at h
      rw [List.cons_append, scanExp]
      by_cases hc : c = 0x65 ∨ c = 0x45
      · -- an exponent letter that does not start an exponent would continue the number
        have hdig : (scanExpSign s).2.takeWhile isDigit ≠ [] := by
          intro he
          rw [if_neg (fun hh => hh.2 he)] at h
          cases h
          cases hr0
          rcases hc with rfl | rfl
          · exact absurd hc0 (by decide)
          · exact absurd hc0 (by decide)
        have hs : s ≠ [] := by
          rintro rfl
          exact hdig rfl
        rw [if_pos ⟨hc, hdig⟩] at h
        cases h
        obtain ⟨h1, h2⟩ := takeWhile_digits_append (t := t) hr0 (by simp)
        simp only [scanExpSign_append hs, h1, h2, hr0]
        rw [if_pos ⟨hc, hdig⟩]
      · rw [if_neg (fun hh => hc hh.1)] at h
        cases h
        rw [if_neg (fun hh => hc hh.1)]
        rfl

theorem scanFrac_extend {s frac r : Str} (h : scanFrac s = (frac, r)) (hr : r ≠ [])
    (hdot : ∀ c r', r = c :: r' → c ≠ 0x2E) (t : Str) : scanFrac (s ++ t) = (frac, r ++ t) := by
  cases s with
  | nil =>
      rw [scanFrac] at h
      cases h
      exact absurd rfl hr
  | cons c s =>
      rw [scanFrac] at h
      rw [List.cons_append, scanFrac]
      by_cases hc : c = 0x2E
      · have hdig : s.takeWhile isDigit ≠ [] := by
          intro he
          rw [if_neg (fun hh => hh.2 he)] at h
          cases h
          exact hdot c s rfl hc
        rw [if_pos ⟨hc, hdig⟩] at h
        cases h
        obtain ⟨h1, h2⟩ := takeWhile_digits_append (t := t) rfl hr
        rw [h1, h2, if_pos ⟨hc, hdig⟩]
      · rw [if_neg (fun hh => hc hh.1)] at h
        cases h
        rw [if_neg (fun hh => hc hh.1)]
        rfl

theorem scanWhole_extend {s whole r : Str} (h : scanWhole s = some (whole, r)) (hr : r ≠ [])
    (t : Str) : scanWhole (s ++ t) = some (whole, r ++ t) := by
  cases s with
  | nil => cases h
  | cons c s =>
      rw [scanWhole] at h
      rw [List.cons_append, scanWhole]
      by_cases h1 : c = 0x30
      · rw [if_pos h1] at h ⊢
        cases h
        rfl
      · rw [if_neg h1] at h ⊢
        by_cases h2 : isDigit c = true
        · rw [if_pos h2] at h ⊢
          cases h
          obtain ⟨h3, h4⟩ := takeWhile_digits_append (t := t) rfl hr
          rw [h3, h4]
        · rw [if_neg h2] at h
          cases h

theorem scanMinus_extend {s : Str} (hs : s ≠ []) (t : Str) :
    scanMinus (s ++ t) = ((scanMinus s).1, (scanMinus s).2 ++ t) := by
  cases s with
  | nil => exact absurd rfl hs
  | cons c s =>
      rw [List.cons_append, scanMinus, scanMinus]
      split <;> rfl

theorem scanExp_rest {s ex r : Str} (h : scanExp s = (ex, r)) (hr : r ≠ []) : s ≠ [] := by
  rintro rfl
  rw [scanExp] at h
  cases h
  exact hr rfl

section Reader

variable [FloatModel]

theorem parseNumber_extend {s r : Str} {v : Json} (h : parseNumber s = some (v, r)) (hr : Ends r)
    (t : Str) : parseNumber (s ++ t) = some (v, r ++ t) := by
  have hs : s ≠ [] := by
    rintro rfl
    cases h
  unfold parseNumber at h ⊢
  simp only [scanMinus_extend hs] at h ⊢
  cases hw : scanWhole (scanMinus s).2 with
  | none =>
      rw [hw] at h
      cases h
  | some p =>
      obtain ⟨whole, r1⟩ := p
      rw [hw] at h
      simp only at h
      -- the fraction and the exponent leave the same rest in both branches
      have hrest : (scanExp (scanFrac r1).2).2 = r := by
        split at h
        · split at h
          · cases h
            rfl
          · cases h
        · cases h
          rfl
      have hexp : scanExp (scanFrac r1).2 = ((scanExp (scanFrac r1).2).1, r) := by
        rw [← hrest]
      obtain ⟨c0, r0, hr0, hc0⟩ := id hr
      have hfne : (scanFrac r1).2 ≠ [] := scanExp_rest hexp (by rw [hr0]; simp)
      have hfdot : ∀ c r', (scanFrac r1).2 = c :: r' → c ≠ 0x2E := by
        intro c r' hc he
        subst he
        have hno : ¬ (((0x2E : CodePoint) = 0x65 ∨ (0x2E : CodePoint) = 0x45) ∧
            (scanExpSign r').2.takeWhile isDigit ≠ []) := fun hh => absurd hh.1 (by decide)
        rw [hc, scanExp, if_neg hno] at hrest
        rw [← hrest] at hr0
        cases hr0
        exact absurd hc0 (by decide)
      have hwne : r1 ≠ [] := by
        rintro rfl
        exact hfne rfl
      have e1 := scanWhole_extend hw hwne t
      have e2 : scanFrac (r1 ++ t) = ((scanFrac r1).1, (scanFrac r1).2 ++ t) :=
        scanFrac_extend rfl hfne hfdot t
      have e3 := scanExp_extend hexp hr t
      rw [hrest] at h
      rw [e1]
      simp only
      rw [e2]
      simp only
      rw [e3]
      split at h
      · rename_i hcond
        rw [if_pos hcond]
        split at h
        · rename_i hlen
          rw [if_pos hlen]
          cases h
          rfl
        · cases h
      · rename_i hcond
        rw [if_neg hcond]
        cases h
        rfl

/-- A value whose text ends with itself, or is followed by a character that ends it. -/
def Delimited (v : Json) (r : Str) : Prop := Ends r ∨ (∀ i, v ≠ .int i) ∧ ∀ f, v ≠ .float f

theorem parseNumber_isNumber {s r : Str} {v : Json} (h : parseNumber s = some (v, r)) :
    (∃ i, v = .int i) ∨ ∃ f, v = .float f := by
  unfold parseNumber at h
  simp only at h
  split at h
  · cases h
  · split at h
    · split at h
      · cases h
        exact Or.inl ⟨_, rfl⟩
      · cases h
    · cases h
      exact Or.inr ⟨_, rfl⟩

theorem parseNumber_starts {s r : Str} {v : Json} (h : parseNumber s = some (v, r)) :
    ∃ c t, s = c :: t ∧ StartsNumber c := by
  cases s with
  | nil => cases h
  | cons c t =>
      refine ⟨c, t, rfl, ?_⟩
      by_cases hc : c = 0x2D
      · exact Or.inl hc
      · right
        unfold parseNumber at h
        simp only [scanMinus, if_neg hc, scanWhole] at h
        by_cases h0 : c = 0x30
        · rw [h0]
          decide
        · by_contra hd
          simp only [if_neg h0, if_neg hd] at h
          cases h

omit [FloatModel] in
theorem afterKeyword_eq_some {k s r : Str} (h : afterKeyword k s = some r) : s = k ++ r := by
  unfold afterKeyword at h
  split at h
  · rename_i hp
    obtain ⟨u, rfl⟩ := hp
    rw [List.drop_left] at h
    cases h
    rfl
  · cases h

theorem parseAtom_null (r : Str) : parseAtom (lit "null" ++ r) = some (.null, r) := by
  rw [parseAtom, afterKeyword_append]

theorem parseAtom_true (r : Str) : parseAtom (lit "true" ++ r) = some (.bool true, r) := by
  rw [parseAtom, afterKeyword_none lit_null (by rw [lit_true, List.cons_append]) (by decide),
    afterKeyword_append]

theorem parseAtom_false (r : Str) : parseAtom (lit "false" ++ r) = some (.bool false, r) := by
  rw [parseAtom, afterKeyword_none lit_null (by rw [lit_false, List.cons_append]) (by decide),
    afterKeyword_none lit_true (by rw [lit_false, List.cons_append]) (by decide),
    afterKeyword_append]

theorem parseAtom_number {s : Str} {c : CodePoint} {t : Str} (hs : s = c :: t)
    (hc : StartsNumber c) : parseAtom s = parseNumber s := by
  obtain ⟨-, -, -, -, h4, h5, h6⟩ := hc.ne
  rw [parseAtom, afterKeyword_none lit_null hs h4, afterKeyword_none lit_true hs h5,
    afterKeyword_none lit_false hs h6]

theorem parseAtom_extend {s r : Str} {v : Json} (h : parseAtom s = some (v, r))
    (hd : Delimited v r) (t : Str) : parseAtom (s ++ t) = some (v, r ++ t) := by
  unfold parseAtom at h
  cases h1 : afterKeyword (lit "null") s with
  | some r1 =>
      rw [h1] at h
      cases h
      rw [afterKeyword_eq_some h1, List.append_assoc, parseAtom_null]
  | none =>
      rw [h1] at h
      simp only at h
      cases h2 : afterKeyword (lit "true") s with
      | some r1 =>
          rw [h2] at h
          cases h
          rw [afterKeyword_eq_some h2, List.append_assoc, parseAtom_true]
      | none =>
          rw [h2] at h
          simp only at h
          cases h3 : afterKeyword (lit "false") s with
          | some r1 =>
              rw [h3] at h
              cases h
              rw [afterKeyword_eq_some h3, List.append_assoc, parseAtom_false]
          | none =>
              rw [h3] at h
              simp only at h
              obtain ⟨c, u, rfl, hc⟩ := parseNumber_starts h
              rw [parseAtom_number (List.cons_append ..) hc]
              rcases hd with hd | ⟨hi, hf⟩
              · exact parseNumber_extend h hd t
              · rcases parseNumber_isNumber h with ⟨i, rfl⟩ | ⟨f, rfl⟩
                · exact absurd rfl (hi i)
                · exact absurd rfl (hf f)

/-! ## Values on a longer text -/

/-- A value followed by a separator or a closing character is delimited. -/
theorem delimited_of_skipSpace {v : Json} {r r' : Str} {c : CodePoint} (h : skipSpace r = c :: r')
    (hc : isNumChar c = false) : Delimited v r := by
  cases r with
  | nil => cases h
  | cons d r =>
      refine Or.inl ⟨d, r, rfl, ?_⟩
      by_cases hd : isJsonSpace d = true
      · simp only [isJsonSpace, Bool.or_eq_true, decide_eq_true_eq] at hd
        rcases hd with ((rfl | rfl) | rfl) | rfl <;> decide
      · have he : skipSpace (d :: r) = d :: r := by
          unfold skipSpace
          exact List.dropWhile_cons_of_neg hd
        rw [he] at h
        cases h
        exact hc

/-! ## What a successful read consists of -/

/-- The ways in which a value is read, with the reads of its parts. -/
inductive ValueRead (n : Nat) : Str → Json → Str → Prop
  | str {rest k r} : parseString rest = some (k, r) → ValueRead n (dquote :: rest) (.str k) r
  | emptyArr {rest r} : skipSpace rest = 0x5D :: r → ValueRead n (0x5B :: rest) (.arr []) r
  | arr {rest d rest' xs r} : skipSpace rest = d :: rest' → d ≠ 0x5D →
      parseElems n (d :: rest') = some (xs, r) → ValueRead n (0x5B :: rest) (.arr xs) r
  | emptyObj {rest r} : skipSpace rest = 0x7D :: r → ValueRead n (0x7B :: rest) (.obj []) r
  | obj {rest d rest' kvs r} : skipSpace rest = d :: rest' → d ≠ 0x7D →
      parseFields n (d :: rest') = some (kvs, r) → (kvs.map Prod.fst).Nodup →
      ValueRead n (0x7B :: rest) (.obj kvs) r
  | atom {c rest v r} : c ≠ dquote → c ≠ 0x5B → c ≠ 0x7B →
      parseAtom (c :: rest) = some (v, r) → ValueRead n (c :: rest) v r

theorem parseValue_succ {n : Nat} {s r : Str} {v : Json} :
    parseValue (n + 1) s = some (v, r) ↔ ValueRead n s v r := by
  constructor
  · intro h
    cases s with
    | nil =>
        rw [parseValue] at h
        cases h
    | cons c rest =>
        rw [parseValue] at h
        by_cases h1 : c = dquote
        · subst h1
          rw [if_pos rfl, Option.map_eq_some_iff] at h
          obtain ⟨⟨k, r'⟩, hk, he⟩ := h
          cases he
          exact .str hk
        rw [if_neg h1] at h
        by_cases h2 : c = 0x5B
        · subst h2
          rw [if_pos rfl] at h
          split at h
          · cases h
          · rename_i d rest' hs
            by_cases h3 : d = 0x5D
            · subst h3
              rw [if_pos rfl] at h
              cases h
              exact .emptyArr hs
            · rw [if_neg h3, Option.map_eq_some_iff] at h
              obtain ⟨⟨xs, r'⟩, hx, he⟩ := h
              cases he
              exact .arr hs h3 hx
        rw [if_neg h2] at h
        by_cases h3 : c = 0x7B
        · subst h3
          rw [if_pos rfl] at h
          split at h
          · cases h
          · rename_i d rest' hs
            by_cases h4 : d = 0x7D
            · subst h4
              rw [if_pos rfl] at h
              cases h
              exact .emptyObj hs
            · rw [if_neg h4] at h
              split at h
              · cases h
              · rename_i kvs r' hx
                by_cases h5 : (kvs.map Prod.fst).Nodup
                · rw [if_pos h5] at h
                  cases h
                  exact .obj hs h4 hx h5
                · rw [if_neg h5] at h
                  cases h
        · rw [if_neg h3] at h
          exact .atom h1 h2 h3 h
  · intro h
    cases h with
    | str hk => rw [parseValue, if_pos rfl, hk, Option.map_some]
    | emptyArr hs =>
        rw [parseValue, if_neg (by decide), if_pos rfl, hs]
        exact if_pos rfl
    | arr hs hd hx =>
        rw [parseValue, if_neg (by decide), if_pos rfl, hs]
        simp only [if_neg hd, hx, Option.map_some]
    | emptyObj hs =>
        rw [parseValue, if_neg (by decide), if_neg (by decide), if_pos rfl, hs]
        exact if_pos rfl
    | obj hs hd hx hn =>
        rw [parseValue, if_neg (by decide), if_neg (by decide), if_pos rfl, hs]
        simp only [if_neg hd, hx, if_pos hn]
    | atom h1 h2 h3 h => rw [parseValue, if_neg h1, if_neg h2, if_neg h3, h]

/-- The ways in which the elements of an array are read. -/
inductive ElemsRead (n : Nat) : Str → List Json → Str → Prop
  | last {s v r1 r} : parseValue n s = some (v, r1) → skipSpace r1 = 0x5D :: r →
      ElemsRead n s [v] r
  | more {s v r1 r2 xs r} : parseValue n s = some (v, r1) → skipSpace r1 = 0x2C :: r2 →
      parseElems n (skipSpace r2) = some (xs, r) → ElemsRead n s (v :: xs) r

theorem parseElems_succ {n : Nat} {s r : Str} {xs : List Json} :
    parseElems (n + 1) s = some (xs, r) ↔ ElemsRead n s xs r := by
  constructor
  · intro h
    rw [parseElems] at h
    split at h
    · cases h
    · rename_i v r1 hv
      split at h
      · cases h
      · rename_i c r2 hs
        by_cases h1 : c = 0x5D
        · subst h1
          rw [if_pos rfl] at h
          cases h
          exact .last hv hs
        rw [if_neg h1] at h
        by_cases h2 : c = 0x2C
        · subst h2
          rw [if_pos rfl, Option.map_eq_some_iff] at h
          obtain ⟨⟨ys, r'⟩, hy, he⟩ := h
          cases he
          exact .more hv hs hy
        · rw [if_neg h2] at h
          cases h
  · intro h
    cases h with
    | last hv hs =>
        rw [parseElems, hv]
        simp only [hs, if_true]
    | more hv hs hx =>
        have hne : (0x2C : CodePoint) ≠ 0x5D := by decide
        rw [parseElems, hv]
        simp only [hs, if_neg hne, if_true, hx, Option.map_some]

/-- The ways in which the members of an object are read. -/
inductive FieldsRead (n : Nat) : Str → List (Str × Json) → Str → Prop
  | last {s k r1 r2 v r3 r} : parseString s = some (k, r1) → skipSpace r1 = 0x3A :: r2 →
      parseValue n (skipSpace r2) = some (v, r3) → skipSpace r3 = 0x7D :: r →
      FieldsRead n (dquote :: s) [(k, v)] r
  | more {s k r1 r2 v r3 r4 kvs r} : parseString s = some (k, r1) → skipSpace r1 = 0x3A :: r2 →
      parseValue n (skipSpace r2) = some (v, r3) → skipSpace r3 = 0x2C :: r4 →
      parseFields n (skipSpace r4) = some (kvs, r) → FieldsRead n (dquote :: s) ((k, v) :: kvs) r

theorem parseFields_succ {n : Nat} {s r : Str} {kvs : List (Str × Json)} :
    parseFields (n + 1) s = some (kvs, r) ↔ FieldsRead n s kvs r := by
  constructor
  · intro h
    cases s with
    | nil =>
        rw [parseFields] at h
        cases h
    | cons q s =>
        rw [parseFields] at h
        by_cases hq : q = dquote
        · subst hq
          rw [if_pos rfl] at h
          split at h
          · cases h
          · rename_i k r1 hk
            split at h
            · cases h
            · rename_i colon r2 hs
              by_cases hcol : colon = 0x3A
              · subst hcol
                rw [if_pos rfl] at h
                split at h
                · cases h
                · rename_i v r3 hv
                  split at h
                  · cases h
                  · rename_i c r4 hs'
                    by_cases h1 : c = 0x7D
                    · subst h1
                      rw [if_pos rfl] at h
                      cases h
                      exact .last hk hs hv hs'
                    rw [if_neg h1] at h
                    by_cases h2 : c = 0x2C
                    · subst h2
                      rw [if_pos rfl, Option.map_eq_some_iff] at h
                      obtain ⟨⟨ys, r'⟩, hy, he⟩ := h
                      cases he
                      exact .more hk hs hv hs' hy
                    · rw [if_neg h2] at h
                      cases h
              · rw [if_neg hcol] at h
                cases h
        · rw [if_neg hq] at h
          cases h
  · intro h
    cases h with
    | last hk hs hv hs' =>
        rw [parseFields, if_pos rfl, hk]
        simp only [hs, if_true, hv, hs']
    | more hk hs hv hs' hx =>
        have hne : (0x2C : CodePoint) ≠ 0x7D := by decide
        rw [parseFields, if_pos rfl, hk]
        simp only [hs, if_true, hv, hs', if_neg hne, hx, Option.map_some]

theorem parseValue_zero (s : Str) : parseValue 0 s = none := by rw [parseValue]

theorem parseElems_zero (s : Str) : parseElems 0 s = none := by rw [parseElems]

theorem parseFields_zero (s : Str) : parseFields 0 s = none := by rw [parseFields]

theorem parseValue_nil (n : Nat) : parseValue n [] = none := by
  cases n with
  | zero => exact parseValue_zero []
  | succ n => rw [parseValue]

theorem parseElems_nil (n : Nat) : parseElems n [] = none := by
  cases n with
  | zero => exact parseElems_zero []
  | succ n => rw [parseElems, parseValue_nil]

theorem parseFields_nil (n : Nat) : parseFields n [] = none := by
  cases n with
  | zero => exact parseFields_zero []
  | succ n => rw [parseFields]

/-! ## Values on a longer text -/

/-- A reader that stopped before the end of its text reads the same from a longer one. The
induction is on fuel, over values, elements and members together. -/
theorem parse_extend (n : Nat) :
    (∀ (s r : Str) (v : Json), parseValue n s = some (v, r) → Delimited v r →
      ∀ t, parseValue n (s ++ t) = some (v, r ++ t)) ∧
    (∀ (s r : Str) (xs : List Json), parseElems n s = some (xs, r) →
      ∀ t, parseElems n (s ++ t) = some (xs, r ++ t)) ∧
    ∀ (s r : Str) (kvs : List (Str × Json)), parseFields n s = some (kvs, r) →
      ∀ t, parseFields n (s ++ t) = some (kvs, r ++ t) := by
  induction n with
  | zero =>
      refine ⟨fun s r v h => ?_, fun s r xs h => ?_, fun s r kvs h => ?_⟩
      · rw [parseValue_zero] at h
        cases h
      · rw [parseElems_zero] at h
        cases h
      · rw [parseFields_zero] at h
        cases h
  | succ n ih =>
      obtain ⟨ihv, ihe, ihf⟩ := ih
      have hskip : ∀ {α : Type} {f : Str → Option α} {s : Str} {a : α}, f [] = none →
          f (skipSpace s) = some a → ∀ t, skipSpace (s ++ t) = skipSpace s ++ t := by
        intro α f s a hnil hf t
        refine skipSpace_append (fun he => ?_) t
        rw [he, hnil] at hf
        cases hf
      refine ⟨fun s r v h hd t => ?_, fun s r xs h t => ?_, fun s r kvs h t => ?_⟩
      · rw [parseValue_succ] at h ⊢
        cases h with
        | str hk => exact .str (parseString_append hk t)
        | emptyArr hs => exact .emptyArr (skipSpace_append_cons hs t)
        | arr hs hne hx => exact .arr (skipSpace_append_cons hs t) hne (ihe _ _ _ hx t)
        | emptyObj hs => exact .emptyObj (skipSpace_append_cons hs t)
        | obj hs hne hx hn => exact .obj (skipSpace_append_cons hs t) hne (ihf _ _ _ hx t) hn
        | atom h1 h2 h3 h => exact .atom h1 h2 h3 (parseAtom_extend h hd t)
      · rw [parseElems_succ] at h ⊢
        cases h with
        | last hv hs =>
            exact .last (ihv _ _ _ hv (delimited_of_skipSpace hs (by decide)) t)
              (skipSpace_append_cons hs t)
        | more hv hs hx =>
            refine .more (ihv _ _ _ hv (delimited_of_skipSpace hs (by decide)) t)
              (skipSpace_append_cons hs t) ?_
            rw [hskip (parseElems_nil n) hx t]
            exact ihe _ _ _ hx t
      · rw [parseFields_succ] at h ⊢
        cases h with
        | last hk hs hv hs' =>
            refine .last (parseString_append hk t) (skipSpace_append_cons hs t) ?_
              (skipSpace_append_cons hs' t)
            rw [hskip (parseValue_nil n) hv t]
            exact ihv _ _ _ hv (delimited_of_skipSpace hs' (by decide)) t
        | more hk hs hv hs' hx =>
            refine .more (parseString_append hk t) (skipSpace_append_cons hs t) ?_
              (skipSpace_append_cons hs' t) ?_
            · rw [hskip (parseValue_nil n) hv t]
              exact ihv _ _ _ hv (delimited_of_skipSpace hs' (by decide)) t
            · rw [hskip (parseFields_nil n) hx t]
              exact ihf _ _ _ hx t

theorem parse_mono (n : Nat) :
    (∀ (s r : Str) (v : Json), parseValue n s = some (v, r) → parseValue (n + 1) s = some (v, r)) ∧
    (∀ (s r : Str) (xs : List Json), parseElems n s = some (xs, r) →
      parseElems (n + 1) s = some (xs, r)) ∧
    ∀ (s r : Str) (kvs : List (Str × Json)), parseFields n s = some (kvs, r) →
      parseFields (n + 1) s = some (kvs, r) := by
  induction n with
  | zero =>
      refine ⟨fun s r v h => ?_, fun s r xs h => ?_, fun s r kvs h => ?_⟩
      · rw [parseValue_zero] at h
        cases h
      · rw [parseElems_zero] at h
        cases h
      · rw [parseFields_zero] at h
        cases h
  | succ n ih =>
      obtain ⟨ihv, ihe, ihf⟩ := ih
      refine ⟨fun s r v h => ?_, fun s r xs h => ?_, fun s r kvs h => ?_⟩
      · rw [parseValue_succ] at h ⊢
        cases h with
        | str hk => exact .str hk
        | emptyArr hs => exact .emptyArr hs
        | arr hs hne hx => exact .arr hs hne (ihe _ _ _ hx)
        | emptyObj hs => exact .emptyObj hs
        | obj hs hne hx hn => exact .obj hs hne (ihf _ _ _ hx) hn
        | atom h1 h2 h3 h => exact .atom h1 h2 h3 h
      · rw [parseElems_succ] at h ⊢
        cases h with
        | last hv hs => exact .last (ihv _ _ _ hv) hs
        | more hv hs hx => exact .more (ihv _ _ _ hv) hs (ihe _ _ _ hx)
      · rw [parseFields_succ] at h ⊢
        cases h with
        | last hk hs hv hs' => exact .last hk hs (ihv _ _ _ hv) hs'
        | more hk hs hv hs' hx => exact .more hk hs (ihv _ _ _ hv) hs' (ihf _ _ _ hx)

theorem parseValue_mono {n m : Nat} (hnm : n ≤ m) {s r : Str} {v : Json}
    (h : parseValue n s = some (v, r)) : parseValue m s = some (v, r) := by
  induction hnm with
  | refl => exact h
  | step _ ih => exact (parse_mono _).1 s r v ih

theorem loads_eq_some {text : Str} {v : Json} (h : loads text = some v) :
    ∃ r, parseValue (2 * text.length + 2) (skipSpace text) = some (v, r) ∧ skipSpace r = [] := by
  unfold loads at h
  split at h
  · cases h
  · split at h
    · cases h
    · rename_i v' r hv
      split at h
      · rename_i hr
        cases h
        exact ⟨r, hv, hr⟩
      · cases h

/-- No proper prefix of the text of an object is a JSON text. -/
theorem loads_proper_prefix {kvs : List (Str × Json)} (hwf : (Json.obj kvs).wf = true)
    (hd : (Json.obj kvs).dumpable = true) {a b : Str} (hab : (Json.obj kvs).render = a ++ b)
    (hb : b ≠ []) : loads a = none := by
  cases hl : loads a with
  | none => rfl
  | some w =>
      exfalso
      obtain ⟨r, hv, -⟩ := loads_eq_some hl
      cases a with
      | nil =>
          rw [show skipSpace [] = [] from rfl, parseValue_nil] at hv
          cases hv
      | cons c a =>
          rw [Json.render_obj, List.cons_append, List.cons_append] at hab
          obtain ⟨hc, hab'⟩ := List.cons.inj hab
          subst hc
          rw [skipSpace_cons (by decide)] at hv
          -- an opening brace is read as an object, which is self-delimiting
          have hdel : Delimited w r := by
            rw [parseValue_succ] at hv
            cases hv with
            | emptyObj hs => exact Or.inr ⟨fun _ => nofun, fun _ => nofun⟩
            | obj hs hne hx hn => exact Or.inr ⟨fun _ => nofun, fun _ => nofun⟩
            | atom h1 h2 h3 h => exact absurd rfl h3
          have hext := (parse_extend _).1 _ _ _ hv hdel b
          rw [List.cons_append, ← hab', ← List.cons_append, ← Json.render_obj] at hext
          have hfull := readsBack canonicalStyle (.obj kvs) (readable_canonical hwf hd)
            (max (2 * (Json.obj kvs).render.length) (2 * (0x7B :: a).length + 2)) []
            (render_eq_renderIn (.obj kvs) ▸ le_max_left _ _) stops_nil
          rw [List.append_nil, ← render_eq_renderIn] at hfull
          have hext' := parseValue_mono
            (le_max_right (2 * (Json.obj kvs).render.length) (2 * (0x7B :: a).length + 2)) hext
          rw [hfull] at hext'
          have hnil : r ++ b = [] := by
            simp only [Option.some.injEq, Prod.mk.injEq] at hext'
            exact hext'.2.symm
          exact hb (List.append_eq_nil_iff.1 hnil).2

end Reader

end ResidualHarness.Python
