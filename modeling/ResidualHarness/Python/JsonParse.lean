import ResidualHarness.Python.Json

/-!
# Reading JSON

`json.loads` with an object hook that rejects a repeated key and a constant hook that rejects
`NaN`, `Infinity` and `-Infinity`. Every failure is a `ValueError`, so the reader returns an
`Option`. The scanners follow the C implementation: a string may contain any character from
U+0020 on, a `\u` escape of a high surrogate joins with a directly following `\u` escape of a low
one, and an unpaired surrogate escape is kept.

Values and the members of arrays and objects recurse on a fuel argument; each call consumes a
character of the text, so twice the length of the text is enough for every text.
-/

set_option autoImplicit false

namespace ResidualHarness.Python

/-! ## Scanners -/

/-- White space between tokens. -/
def isJsonSpace (c : CodePoint) : Bool := c = 0x20 || c = 0x09 || c = 0x0A || c = 0x0D

/-- The text from the first character that is not white space. -/
def skipSpace (s : Str) : Str := s.dropWhile isJsonSpace

/-- One unit of a string literal: a character standing for itself or named by a short escape, or
the sixteen-bit code of a `\u` escape. -/
inductive StrUnit where
  | char (c : CodePoint)
  | code (n : Nat)

/-- The short escapes. -/
def simpleEscape (e : CodePoint) : Option CodePoint :=
  if e = 0x22 then some 0x22
  else if e = 0x5C then some 0x5C
  else if e = 0x2F then some 0x2F
  else if e = 0x62 then some 0x08
  else if e = 0x66 then some 0x0C
  else if e = 0x6E then some 0x0A
  else if e = 0x72 then some 0x0D
  else if e = 0x74 then some 0x09
  else none

/-- The value of four hexadecimal digits. -/
def hex4 (a b c d : CodePoint) : Option Nat :=
  match hexVal a, hexVal b, hexVal c, hexVal d with
  | some a, some b, some c, some d => some (((a * 16 + b) * 16 + c) * 16 + d)
  | _, _, _, _ => none

/-- Prepend a unit to a scanned literal. -/
def pushUnit (u : StrUnit) (r : List StrUnit × Str) : List StrUnit × Str := (u :: r.1, r.2)

/-- The units of a string literal after its opening quote, and the text after its closing one. -/
def scanString : Str → Option (List StrUnit × Str)
  | [] => none
  | c :: rest =>
      if c = dquote then some ([], rest)
      else if c = backslash then
        match rest with
        | [] => none
        | e :: rest =>
            if e = 0x75 then
              match rest with
              | h1 :: h2 :: h3 :: h4 :: rest =>
                  match hex4 h1 h2 h3 h4 with
                  | some n => (scanString rest).map (pushUnit (.code n))
                  | none => none
              | _ => none
            else
              match simpleEscape e with
              | some c => (scanString rest).map (pushUnit (.char c))
              | none => none
      -- a control character inside a literal is an error
      else if c.val < 0x20 then none
      else (scanString rest).map (pushUnit (.char c))

/-- The code point with a given number. -/
def codePoint (n : Nat) : CodePoint := ⟨n % 0x110000, Nat.mod_lt _ (by decide)⟩

/-- The string of a list of units: a high surrogate code joins with a low one after it. -/
def joinUnits : List StrUnit → Str
  | [] => []
  | .char c :: us => c :: joinUnits us
  | .code hi :: .code lo :: us =>
      if (0xD800 ≤ hi ∧ hi < 0xDC00) ∧ (0xDC00 ≤ lo ∧ lo < 0xE000) then
        codePoint (0x10000 + (hi - 0xD800) * 0x400 + (lo - 0xDC00)) :: joinUnits us
      else codePoint hi :: joinUnits (.code lo :: us)
  | .code n :: us => codePoint n :: joinUnits us

/-- A string literal after its opening quote. -/
def parseString (s : Str) : Option (Str × Str) :=
  (scanString s).map fun r => (joinUnits r.1, r.2)

/-- The sign and the digits before a fraction or exponent. -/
def scanWhole : Str → Option (Str × Str)
  | [] => none
  | c :: rest =>
      if c = 0x30 then some ([c], rest)
      else if isDigit c then some (c :: rest.takeWhile isDigit, rest.dropWhile isDigit)
      else none

/-- An optional fraction. -/
def scanFrac : Str → Str × Str
  | [] => ([], [])
  | c :: rest =>
      if c = 0x2E ∧ rest.takeWhile isDigit ≠ [] then
        (c :: rest.takeWhile isDigit, rest.dropWhile isDigit)
      else ([], c :: rest)

/-- An optional sign of an exponent. -/
def scanExpSign : Str → Str × Str
  | [] => ([], [])
  | c :: rest => if c = 0x2B ∨ c = 0x2D then ([c], rest) else ([], c :: rest)

/-- An optional exponent. -/
def scanExp : Str → Str × Str
  | [] => ([], [])
  | c :: rest =>
      let sg := scanExpSign rest
      if (c = 0x65 ∨ c = 0x45) ∧ sg.2.takeWhile isDigit ≠ [] then
        (c :: (sg.1 ++ sg.2.takeWhile isDigit), sg.2.dropWhile isDigit)
      else ([], c :: rest)

/-- An optional minus sign. -/
def scanMinus : Str → Str × Str
  | [] => ([], [])
  | c :: rest => if c = 0x2D then ([c], rest) else ([], c :: rest)

/-- The value of an integer literal. -/
def intOfLiteral (sign whole : Str) : Int :=
  if sign = [] then natOfDigits whole else - natOfDigits whole

section Reader

variable [FloatModel]

/-- A number: an integer within the digit limit, or a float when it has a fraction or exponent. -/
def parseNumber (s : Str) : Option (Json × Str) :=
  let sign := scanMinus s
  match scanWhole sign.2 with
  | none => none
  | some (whole, rest) =>
      let frac := scanFrac rest
      let ex := scanExp frac.2
      if frac.1 = [] ∧ ex.1 = [] then
        if whole.length ≤ intMaxStrDigits then some (.int (intOfLiteral sign.1 whole), ex.2) else none
      else some (.float (FloatModel.ofLiteral (sign.1 ++ whole ++ frac.1 ++ ex.1)), ex.2)

/-- The text after a keyword. -/
def afterKeyword (k s : Str) : Option Str := if k <+: s then some (s.drop k.length) else none

/-- A value that is neither an array, an object nor a string. -/
def parseAtom (s : Str) : Option (Json × Str) :=
  match afterKeyword (lit "null") s with
  | some r => some (.null, r)
  | none =>
      match afterKeyword (lit "true") s with
      | some r => some (.bool true, r)
      | none =>
          match afterKeyword (lit "false") s with
          | some r => some (.bool false, r)
          | none => parseNumber s

mutual
/-- One value, starting at its first character. -/
def parseValue : Nat → Str → Option (Json × Str)
  | 0, _ => none
  | _ + 1, [] => none
  | n + 1, c :: rest =>
      if c = dquote then (parseString rest).map fun r => (.str r.1, r.2)
      else if c = 0x5B then
        match skipSpace rest with
        | [] => none
        | d :: rest' =>
            if d = 0x5D then some (.arr [], rest')
            else (parseElems n (d :: rest')).map fun r => (.arr r.1, r.2)
      else if c = 0x7B then
        match skipSpace rest with
        | [] => none
        | d :: rest' =>
            if d = 0x7D then some (.obj [], rest')
            else
              match parseFields n (d :: rest') with
              | none => none
              -- the pairs hook runs once the object is complete
              | some (kvs, r) => if (kvs.map Prod.fst).Nodup then some (.obj kvs, r) else none
      else parseAtom (c :: rest)
/-- The elements of a nonempty array up to its closing bracket. -/
def parseElems : Nat → Str → Option (List Json × Str)
  | 0, _ => none
  | n + 1, s =>
      match parseValue n s with
      | none => none
      | some (v, rest) =>
          match skipSpace rest with
          | [] => none
          | c :: rest =>
              if c = 0x5D then some ([v], rest)
              else if c = 0x2C then (parseElems n (skipSpace rest)).map fun r => (v :: r.1, r.2)
              else none
/-- The members of a nonempty object up to its closing brace. -/
def parseFields : Nat → Str → Option (List (Str × Json) × Str)
  | 0, _ => none
  | _ + 1, [] => none
  | n + 1, q :: s =>
      if q = dquote then
        match parseString s with
        | none => none
        | some (k, rest) =>
            match skipSpace rest with
            | [] => none
            | colon :: rest =>
                if colon = 0x3A then
                  match parseValue n (skipSpace rest) with
                  | none => none
                  | some (v, rest) =>
                      match skipSpace rest with
                      | [] => none
                      | c :: rest =>
                          if c = 0x7D then some ([(k, v)], rest)
                          else if c = 0x2C then
                            (parseFields n (skipSpace rest)).map fun r => ((k, v) :: r.1, r.2)
                          else none
                else none
      else none
end

/-- `json.loads`: a byte order mark is refused, and nothing may follow the value. -/
def loads (text : Str) : Option Json :=
  if text.head? = some 0xFEFF then none
  else
    match parseValue (2 * text.length + 2) (skipSpace text) with
    | none => none
    | some (v, rest) => if skipSpace rest = [] then some v else none

end Reader

end ResidualHarness.Python
