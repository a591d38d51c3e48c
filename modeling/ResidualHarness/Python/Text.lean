import Mathlib.Data.Nat.Digits.Lemmas

/-!
# Python text

Python strings are sequences of code points, and a code point may be a lone surrogate. This file
fixes that representation and the string operations a line-oriented text format depends on: UTF-8
encoding, which fails on surrogates, `str.splitlines`, `str.strip`, and decimal digits.

The fact later files use is that `splitlines` inverts writing one break-free line per newline
(`splitLines_unlines`).
-/

set_option autoImplicit false

namespace ResidualHarness.Python

/-- A Unicode code point, surrogates included. -/
abbrev CodePoint := Fin 0x110000

/-- A Python `str`. -/
abbrev Str := List CodePoint

/-! Short names for what instance search finds about characters and strings. -/

instance (priority := 2000) neZero_codePoint : NeZero 0x110000 := ⟨by decide⟩

instance (priority := 2000) lawfulBEq_codePoint : LawfulBEq CodePoint := inferInstance

instance (priority := 2000) lawfulBEq_str : LawfulBEq Str := inferInstance

instance (priority := 2000) lawfulBEq_strPair : LawfulBEq (Str × Str) := inferInstance

/-- The string of an ASCII literal: one code point per byte. -/
def lit (s : String) : Str :=
  s.toByteArray.data.toList.map fun b => ⟨b.toNat % 0x110000, Nat.mod_lt _ (by decide)⟩

/-- Exceptions of the built-in classes, and application exceptions derived from `RuntimeError` or
from `ValueError`. -/
inductive PyExn where
  | valueError (msg : String)
  | unicodeEncodeError
  | typeError
  | keyError
  | attributeError
  | overflowError
  | runtimeError (cls msg : String)
  | userError (cls msg : String)
deriving DecidableEq, Repr

/-- Instances of `ValueError`: `UnicodeEncodeError` and the application errors are subclasses. -/
def PyExn.isValueError : PyExn → Bool
  | .valueError _ => true
  | .unicodeEncodeError => true
  | .userError _ _ => true
  | _ => false

/-! ## UTF-8 -/

/-- Surrogate code points have no UTF-8 encoding. -/
def isSurrogate (c : CodePoint) : Bool := decide (0xD800 ≤ c.val ∧ c.val < 0xE000)

/-- Strings that `str.encode("utf-8")` accepts. -/
def encodable (s : Str) : Bool := s.all fun c => !isSurrogate c

/-- UTF-8 bytes of one code point. -/
def utf8Char (c : CodePoint) : List Nat :=
  let n := c.val
  if n < 0x80 then [n]
  else if n < 0x800 then [0xC0 + n / 0x40, 0x80 + n % 0x40]
  else if n < 0x10000 then [0xE0 + n / 0x1000, 0x80 + n / 0x40 % 0x40, 0x80 + n % 0x40]
  else [0xF0 + n / 0x40000, 0x80 + n / 0x1000 % 0x40, 0x80 + n / 0x40 % 0x40, 0x80 + n % 0x40]

/-- `str.encode("utf-8")`. -/
def utf8 (s : Str) : Except PyExn (List Nat) :=
  if encodable s then .ok (s.flatMap utf8Char) else .error .unicodeEncodeError

theorem encodable_append (s t : Str) : encodable (s ++ t) = (encodable s && encodable t) := by
  simp [encodable]

theorem encodable_iff (s : Str) : encodable s = true ↔ ∀ c ∈ s, isSurrogate c = false := by
  simp [encodable]

theorem utf8_of_encodable {s : Str} (h : encodable s = true) :
    utf8 s = .ok (s.flatMap utf8Char) := by
  simp [utf8, h]

theorem encodable_of_utf8 {s : Str} {b : List Nat} (h : utf8 s = .ok b) : encodable s = true := by
  unfold utf8 at h
  split at h
  · assumption
  · cases h

/-- The bytes of a character start with the byte that tells their number. -/
theorem utf8Char_eq_cons (c : CodePoint) : ∃ b t, utf8Char c = b :: t ∧
    t.length = if b < 0x80 then 0 else if b < 0xE0 then 1 else if b < 0xF0 then 2 else 3 := by
  have hlt := c.isLt
  simp only [utf8Char]
  split
  · rename_i h
    exact ⟨_, _, rfl, by rw [if_pos h]; rfl⟩
  · split
    · refine ⟨_, _, rfl, ?_⟩
      rw [if_neg (by omega), if_pos (by omega)]
      rfl
    · split
      · refine ⟨_, _, rfl, ?_⟩
        rw [if_neg (by omega), if_neg (by omega), if_pos (by omega)]
        rfl
      · refine ⟨_, _, rfl, ?_⟩
        rw [if_neg (by omega), if_neg (by omega), if_neg (by omega)]
        rfl

/-- The bits of a leading byte. -/
def leadBits (b : Nat) : Nat :=
  if b < 0x80 then b else if b < 0xE0 then b - 0xC0 else if b < 0xF0 then b - 0xE0 else b - 0xF0

/-- The code point of its UTF-8 bytes. -/
def utf8Val (bytes : List Nat) : Nat :=
  bytes.tail.foldl (fun n b => n * 0x40 + (b - 0x80)) (leadBits (bytes.headD 0))

theorem utf8Val_utf8Char (c : CodePoint) : utf8Val (utf8Char c) = c.val := by
  have hlt := c.isLt
  simp only [utf8Char]
  split
  · rename_i h
    simp only [utf8Val, List.tail_cons, List.foldl_nil, List.headD_cons]
    exact if_pos h
  · split
    · simp only [utf8Val, List.tail_cons, List.foldl_cons, List.foldl_nil, List.headD_cons]
      rw [leadBits, if_neg (by omega), if_pos (by omega)]
      omega
    · split
      · simp only [utf8Val, List.tail_cons, List.foldl_cons, List.foldl_nil, List.headD_cons]
        rw [leadBits, if_neg (by omega), if_neg (by omega), if_pos (by omega)]
        omega
      · simp only [utf8Val, List.tail_cons, List.foldl_cons, List.foldl_nil, List.headD_cons]
        rw [leadBits, if_neg (by omega), if_neg (by omega), if_neg (by omega)]
        omega

theorem utf8Char_injective {c d : CodePoint} (h : utf8Char c = utf8Char d) : c = d := by
  apply Fin.ext
  rw [← utf8Val_utf8Char c, ← utf8Val_utf8Char d, h]

theorem utf8Text_injective {s t : Str} (h : s.flatMap utf8Char = t.flatMap utf8Char) : s = t := by
  induction s generalizing t with
  | nil =>
      cases t with
      | nil => rfl
      | cons d t =>
          obtain ⟨b, u, hb, -⟩ := utf8Char_eq_cons d
          rw [List.flatMap_nil, List.flatMap_cons, hb] at h
          cases h
  | cons c s ih =>
      cases t with
      | nil =>
          obtain ⟨b, u, hb, -⟩ := utf8Char_eq_cons c
          rw [List.flatMap_nil, List.flatMap_cons, hb] at h
          cases h
      | cons d t =>
          obtain ⟨b, u, hb, hu⟩ := utf8Char_eq_cons c
          obtain ⟨b', u', hb', hu'⟩ := utf8Char_eq_cons d
          rw [List.flatMap_cons, List.flatMap_cons] at h
          have hhead : b = b' := by
            rw [hb, hb'] at h
            exact (List.cons.inj h).1
          have hlen : (utf8Char c).length = (utf8Char d).length := by
            rw [hb, hb', List.length_cons, List.length_cons, hu, hu', hhead]
          obtain ⟨hcd, hst⟩ := List.append_inj h hlen
          rw [utf8Char_injective hcd, ih hst]

/-! ## Lines -/

/-- The line boundaries of `str.splitlines`. -/
def isLineBreak (c : CodePoint) : Bool :=
  [0x0A, 0x0B, 0x0C, 0x0D, 0x1C, 0x1D, 0x1E, 0x85, 0x2028, 0x2029].contains c.val

/-- Line feed. -/
def lf : CodePoint := 0x0A

/-- Carriage return. -/
def cr : CodePoint := 0x0D

/-- `str.splitlines`, with the characters of the line being read in `cur`. A carriage return and a
following line feed are one boundary. -/
def splitLinesFrom (keepends : Bool) : Str → Str → List Str
  | cur, [] => if cur = [] then [] else [cur]
  | cur, [c] =>
      if isLineBreak c then [cur ++ if keepends then [c] else []] else [cur ++ [c]]
  | cur, c :: d :: rest =>
      if c = cr ∧ d = lf then
        (cur ++ if keepends then [c, d] else []) :: splitLinesFrom keepends [] rest
      else if isLineBreak c then
        (cur ++ if keepends then [c] else []) :: splitLinesFrom keepends [] (d :: rest)
      else splitLinesFrom keepends (cur ++ [c]) (d :: rest)

/-- `str.splitlines(keepends)`. -/
def splitLines (keepends : Bool) (s : Str) : List Str := splitLinesFrom keepends [] s

/-- Universal-newline translation of a text-mode read: `\r\n` and `\r` become `\n`. -/
def universalNewlines : Str → Str
  | [] => []
  | [c] => if c = cr then [lf] else [c]
  | c :: d :: rest =>
      if c = cr then
        if d = lf then lf :: universalNewlines rest else lf :: universalNewlines (d :: rest)
      else c :: universalNewlines (d :: rest)

/-- One line of text per list element, each followed by a line feed. -/
def unlines (ls : List Str) : Str := ls.flatMap fun l => l ++ [lf]

theorem isLineBreak_lf : isLineBreak lf = true := by decide

theorem isLineBreak_cr : isLineBreak cr = true := by decide

/-- One character of a text without carriage returns is read on its own. -/
theorem splitLinesFrom_cons (k : Bool) (cur : Str) (c : CodePoint) (rest : Str) (hc : c ≠ cr) :
    splitLinesFrom k cur (c :: rest) =
      if isLineBreak c then
        (cur ++ if k then [c] else []) :: splitLinesFrom k [] rest
      else splitLinesFrom k (cur ++ [c]) rest := by
  cases rest with
  | nil =>
      rw [splitLinesFrom]
      by_cases h : isLineBreak c = true <;> simp [h, splitLinesFrom]
  | cons d rest =>
      rw [splitLinesFrom]
      simp [hc]

theorem splitLinesFrom_noBreak (cur l rest : Str) (hl : ∀ c ∈ l, isLineBreak c = false) :
    splitLinesFrom false cur (l ++ lf :: rest) =
      (cur ++ l) :: splitLinesFrom false [] rest := by
  induction l generalizing cur with
  | nil =>
      rw [List.nil_append, splitLinesFrom_cons _ _ _ _ (by decide)]
      simp [isLineBreak_lf]
  | cons c l ih =>
      have hc : isLineBreak c = false := hl c List.mem_cons_self
      have hcr : c ≠ cr := by
        rintro rfl
        rw [isLineBreak_cr] at hc
        cases hc
      rw [List.cons_append, splitLinesFrom_cons _ _ _ _ hcr, hc]
      simp only [Bool.false_eq_true, if_false]
      rw [ih (cur ++ [c]) fun d hd => hl d (List.mem_cons_of_mem _ hd)]
      simp

/-- Splitting what was written one break-free line at a time gives the lines back. -/
theorem splitLines_unlines (ls : List Str) (h : ∀ l ∈ ls, ∀ c ∈ l, isLineBreak c = false) :
    splitLines false (unlines ls) = ls := by
  unfold splitLines unlines
  induction ls with
  | nil => rfl
  | cons l ls ih =>
      rw [List.flatMap_cons, List.append_assoc, List.singleton_append,
        splitLinesFrom_noBreak [] l _ (h l List.mem_cons_self), List.nil_append,
        ih fun m hm => h m (List.mem_cons_of_mem _ hm)]

theorem universalNewlines_cons (c : CodePoint) (t : Str) (hc : c ≠ cr) :
    universalNewlines (c :: t) = c :: universalNewlines t := by
  cases t with
  | nil => simp [universalNewlines, hc]
  | cons d t => rw [universalNewlines, if_neg hc]

theorem universalNewlines_eq_self (t : Str) (h : cr ∉ t) : universalNewlines t = t := by
  induction t with
  | nil => rfl
  | cons c t ih =>
      have hc : c ≠ cr := fun e => h (by simp [e])
      rw [universalNewlines_cons c t hc, ih fun e => h (List.mem_cons_of_mem _ e)]

/-! ## White space -/

/-- `str.isspace` for one character. -/
def isSpace (c : CodePoint) : Bool :=
  let n := c.val
  decide ((9 ≤ n ∧ n ≤ 13) ∨ (28 ≤ n ∧ n ≤ 32) ∨ n = 0x85 ∨ n = 0xA0 ∨ n = 0x1680 ∨
    (0x2000 ≤ n ∧ n ≤ 0x200A) ∨ n = 0x2028 ∨ n = 0x2029 ∨ n = 0x202F ∨ n = 0x205F ∨ n = 0x3000)

/-- `not s.strip()`: the string is empty or all white space. -/
def isBlank (s : Str) : Bool := s.all isSpace

/-! ## Digits -/

/-- ASCII decimal digits. -/
def isDigit (c : CodePoint) : Bool := decide (0x30 ≤ c.val ∧ c.val ≤ 0x39)

/-- The character of a decimal digit value. -/
def digitChar (d : Nat) : CodePoint := ⟨(0x30 + d) % 0x110000, Nat.mod_lt _ (by decide)⟩

/-- The value of a decimal digit character. -/
def digitVal (c : CodePoint) : Nat := c.val - 0x30

/-- `str(n)` for a nonnegative integer. -/
def natRepr (n : Nat) : Str := if n = 0 then [digitChar 0] else (Nat.digits 10 n).reverse.map digitChar

/-- `int(s)` for a string of ASCII digits. -/
def natOfDigits (s : Str) : Nat := Nat.ofDigits 10 (s.reverse.map digitVal)

theorem digitVal_digitChar {d : Nat} (h : d < 10) : digitVal (digitChar d) = d := by
  simp only [digitVal, digitChar]
  omega

theorem isDigit_digitChar {d : Nat} (h : d < 10) : isDigit (digitChar d) = true := by
  have hmod : (0x30 + d) % 0x110000 = 0x30 + d := Nat.mod_eq_of_lt (by omega)
  simp only [isDigit, digitChar, hmod]
  exact decide_eq_true ⟨by omega, by omega⟩

theorem natRepr_isDigit (n : Nat) : ∀ c ∈ natRepr n, isDigit c = true := by
  intro c hc
  unfold natRepr at hc
  split at hc
  · rw [List.mem_singleton.1 hc]
    decide
  · obtain ⟨d, hd, rfl⟩ := List.mem_map.1 hc
    exact isDigit_digitChar (Nat.digits_lt_base (by decide) (List.mem_reverse.1 hd))

theorem natOfDigits_natRepr (n : Nat) : natOfDigits (natRepr n) = n := by
  unfold natRepr
  split
  · rename_i h
    rw [h]
    decide
  · have hmap : (Nat.digits 10 n).map (digitVal ∘ digitChar) = Nat.digits 10 n := by
      conv_rhs => rw [← List.map_id (Nat.digits 10 n)]
      exact List.map_congr_left fun d hd =>
        digitVal_digitChar (Nat.digits_lt_base (by decide) hd)
    rw [natOfDigits, ← List.map_reverse, List.reverse_reverse, List.map_map, hmap,
      Nat.ofDigits_digits]

/-- No leading zero: the first digit of a positive number is nonzero. -/
theorem natRepr_head {n : Nat} (h : n ≠ 0) :
    ∃ c rest, natRepr n = c :: rest ∧ isDigit c = true ∧ c ≠ digitChar 0 := by
  have hne : Nat.digits 10 n ≠ [] := Nat.digits_ne_nil_iff_ne_zero.2 h
  have hlast : (Nat.digits 10 n).getLast hne ≠ 0 := Nat.getLast_digit_ne_zero 10 h
  have hlt : (Nat.digits 10 n).getLast hne < 10 :=
    Nat.digits_lt_base (by decide) (List.getLast_mem hne)
  refine ⟨digitChar ((Nat.digits 10 n).getLast hne),
    ((Nat.digits 10 n).dropLast.reverse).map digitChar, ?_, isDigit_digitChar hlt, ?_⟩
  · conv_lhs => rw [natRepr, if_neg h, ← List.dropLast_append_getLast hne]
    simp
  · intro he
    have := congrArg digitVal he
    rw [digitVal_digitChar hlt, digitVal_digitChar (by decide)] at this
    exact hlast this

/-! ## Hexadecimal -/

/-- Lowercase hexadecimal digits. -/
def isHexDigit (c : CodePoint) : Bool :=
  decide ((0x30 ≤ c.val ∧ c.val ≤ 0x39) ∨ (0x61 ≤ c.val ∧ c.val ≤ 0x66))

/-- The character of a hexadecimal digit value. -/
def hexChar (d : Nat) : CodePoint :=
  ⟨(if d % 16 < 10 then 0x30 + d % 16 else 0x57 + d % 16) % 0x110000, Nat.mod_lt _ (by decide)⟩

/-- The value of a hexadecimal digit of either case. -/
def hexVal (c : CodePoint) : Option Nat :=
  if 0x30 ≤ c.val ∧ c.val ≤ 0x39 then some (c.val - 0x30)
  else if 0x61 ≤ c.val ∧ c.val ≤ 0x66 then some (c.val - 0x57)
  else if 0x41 ≤ c.val ∧ c.val ≤ 0x46 then some (c.val - 0x37)
  else none

theorem isHexDigit_hexChar (d : Nat) : isHexDigit (hexChar d) = true := by
  have hlt : d % 16 < 16 := Nat.mod_lt _ (by decide)
  have hall : ∀ k < 16, isHexDigit (hexChar k) = true := by decide
  have hmod : hexChar d = hexChar (d % 16) := by simp [hexChar]
  rw [hmod]
  exact hall _ hlt

theorem hexVal_hexChar {d : Nat} (h : d < 16) : hexVal (hexChar d) = some d := by
  have hall : ∀ k < 16, hexVal (hexChar k) = some k := by decide
  exact hall d h

end ResidualHarness.Python
