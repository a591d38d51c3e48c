import ResidualHarness.Python.Text

/-!
# Decoding bytes

`bytes.decode("utf-8")` in strict mode, and the lines of a decoded text. Decoding loses nothing:
the text encodes to the bytes it was read from (`utf8_of_utf8Decode`), and the lines of
`splitlines(keepends=True)` concatenate to the text (`flatten_splitLines`).
-/

set_option autoImplicit false

namespace ResidualHarness.Python

/-- A Python `bytes` value. -/
abbrev Bytes := List Nat

/-- The number of bytes a leading byte announces. -/
def utf8Len (b : Nat) : Nat := if b < 0x80 then 1 else if b < 0xE0 then 2 else if b < 0xF0 then 3 else 4

/-- The character at the head of the bytes, if they start with the encoding of one. Overlong forms,
surrogates and values above the last code point are rejected. -/
def utf8Head (bytes : Bytes) : Option (CodePoint × Bytes) :=
  let n := utf8Len (bytes.headD 0)
  let v := utf8Val (bytes.take n)
  if h : v < 0x110000 then
    let c : CodePoint := ⟨v, h⟩
    if isSurrogate c = false ∧ utf8Char c = bytes.take n then some (c, bytes.drop n) else none
  else none

/-- Decoding of at most `n` characters. -/
def utf8DecodeFrom : Nat → Bytes → Option Str
  | _, [] => some []
  | 0, _ :: _ => none
  | n + 1, b :: bytes =>
      match utf8Head (b :: bytes) with
      | none => none
      | some (c, rest) => (utf8DecodeFrom n rest).map (c :: ·)

/-- `bytes.decode("utf-8")`; `none` stands for `UnicodeDecodeError`. -/
def utf8Decode (bytes : Bytes) : Option Str := utf8DecodeFrom bytes.length bytes

theorem utf8Head_eq_some {bytes rest : Bytes} {c : CodePoint}
    (h : utf8Head bytes = some (c, rest)) : isSurrogate c = false ∧ utf8Char c ++ rest = bytes := by
  simp only [utf8Head] at h
  split at h
  · split at h
    · rename_i hc
      simp only [Option.some.injEq, Prod.mk.injEq] at h
      obtain ⟨rfl, rfl⟩ := h
      refine ⟨hc.1, ?_⟩
      rw [hc.2, List.take_append_drop]
    · cases h
  · cases h

theorem utf8DecodeFrom_eq_some (n : Nat) {bytes : Bytes} {s : Str}
    (h : utf8DecodeFrom n bytes = some s) :
    encodable s = true ∧ s.flatMap utf8Char = bytes := by
  induction n generalizing bytes s with
  | zero =>
      cases bytes with
      | nil =>
          cases h
          exact ⟨rfl, rfl⟩
      | cons b bytes => cases h
  | succ n ih =>
      cases bytes with
      | nil =>
          cases h
          exact ⟨rfl, rfl⟩
      | cons b bytes =>
          rw [utf8DecodeFrom] at h
          cases hh : utf8Head (b :: bytes) with
          | none =>
              rw [hh] at h
              cases h
          | some p =>
              obtain ⟨c, rest⟩ := p
              rw [hh] at h
              obtain ⟨t, ht, rfl⟩ := Option.map_eq_some_iff.1 h
              obtain ⟨hc, hb⟩ := utf8Head_eq_some hh
              obtain ⟨he, hr⟩ := ih ht
              constructor
              · simp only [encodable, List.all_cons, hc, Bool.not_false, Bool.true_and]
                exact he
              · rw [List.flatMap_cons, hr, hb]

/-- A decoded text encodes to the bytes it was read from. -/
theorem utf8_of_utf8Decode {bytes : Bytes} {s : Str} (h : utf8Decode bytes = some s) :
    utf8 s = .ok bytes := by
  obtain ⟨he, hb⟩ := utf8DecodeFrom_eq_some _ h
  rw [utf8_of_encodable he, hb]

theorem utf8Decode_injective {a b : Bytes} {s : Str} (ha : utf8Decode a = some s)
    (hb : utf8Decode b = some s) : a = b := by
  have h := utf8_of_utf8Decode ha
  rw [utf8_of_utf8Decode hb] at h
  exact (Except.ok.inj h).symm

theorem utf8Head_utf8Char {c : CodePoint} (hc : isSurrogate c = false) (rest : Bytes) :
    utf8Head (utf8Char c ++ rest) = some (c, rest) := by
  obtain ⟨b, t, hb, ht⟩ := utf8Char_eq_cons c
  have hlen : utf8Len ((utf8Char c ++ rest).headD 0) = (utf8Char c).length := by
    rw [hb, List.cons_append, List.headD_cons, List.length_cons, ht, utf8Len]
    split
    · rfl
    · split
      · rfl
      · split <;> rfl
  have htake : (utf8Char c ++ rest).take (utf8Char c).length = utf8Char c := by simp
  have hval : utf8Val (utf8Char c) < 0x110000 := by
    rw [utf8Val_utf8Char]
    exact c.isLt
  have hce : (⟨utf8Val (utf8Char c), hval⟩ : CodePoint) = c := Fin.ext (utf8Val_utf8Char c)
  simp only [utf8Head, hlen, htake]
  rw [dif_pos hval, hce, if_pos ⟨hc, rfl⟩]
  simp

theorem utf8Decode_of_utf8 {s : Str} {bytes : Bytes} (h : utf8 s = .ok bytes) :
    utf8Decode bytes = some s := by
  have henc := encodable_of_utf8 h
  rw [utf8_of_encodable henc] at h
  have hgen : ∀ (t : Str) (n : Nat), encodable t = true → (t.flatMap utf8Char).length ≤ n →
      utf8DecodeFrom n (t.flatMap utf8Char) = some t := by
    intro t
    induction t with
    | nil =>
        intro n _ _
        cases n <;> rfl
    | cons c t ih =>
        intro n ht hn
        obtain ⟨b, u, hb, -⟩ := utf8Char_eq_cons c
        simp only [encodable, List.all_cons, Bool.and_eq_true, Bool.not_eq_true'] at ht
        cases n with
        | zero => simp [hb] at hn
        | succ n =>
            have hhead := utf8Head_utf8Char ht.1 (t.flatMap utf8Char)
            have hn' : (t.flatMap utf8Char).length ≤ n := by
              rw [List.flatMap_cons, hb, List.length_append, List.length_cons] at hn
              omega
            rw [List.flatMap_cons]
            rw [hb, List.cons_append] at hhead ⊢
            rw [utf8DecodeFrom, hhead]
            simp only [ih n ht.2 hn', Option.map_some]
  rw [← Except.ok.inj h]
  exact hgen s _ henc (le_refl _)

/-- The lines of `splitlines(keepends=True)` are the whole text. -/
theorem flatten_splitLinesFrom (cur s : Str) : (splitLinesFrom true cur s).flatten = cur ++ s := by
  fun_induction splitLinesFrom true cur s with
  | case1 => rfl
  | case2 cur h => simp
  | case3 cur c h => simp
  | case4 cur c h => simp
  | case5 cur c d rest h ih => simp [ih]
  | case6 cur c d rest h hb ih => simp [ih]
  | case7 cur c d rest h hb ih => simp [ih]

theorem flatten_splitLines (s : Str) : (splitLines true s).flatten = s :=
  flatten_splitLinesFrom [] s

end ResidualHarness.Python
