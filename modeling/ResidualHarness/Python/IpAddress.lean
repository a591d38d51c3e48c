import ResidualHarness.Python.Text

/-!
# Texts of IP addresses

`ipaddress.ip_address(text)`: the dotted form of version 4, and the colon form of version 6 with one
`::`, an embedded dotted address at the end and a scope id after `%`.
-/

set_option autoImplicit false

namespace ResidualHarness.Python

/-- An address: its version and its number. -/
structure IpAddress where
  isV6 : Bool
  number : Nat
deriving DecidableEq

/-- `IPv4Address._parse_octet`. -/
def parseOctet (s : Str) : Option Nat :=
  if s ≠ [] ∧ s.all isDigit = true ∧ s.length ≤ 3 ∧ (s = [0x30] ∨ s.head? ≠ some 0x30) ∧
      natOfDigits s ≤ 255 then
    some (natOfDigits s)
  else none

/-- `IPv4Address._ip_int_from_string`. -/
def parseV4 (s : Str) : Option Nat := do
  match s.splitOn 0x2E with
  | [a, b, c, d] =>
      return (((← parseOctet a) * 256 + (← parseOctet b)) * 256 + (← parseOctet c)) * 256 +
        (← parseOctet d)
  | _ => none

/-- `IPv6Address._parse_hextet`. -/
def parseHextet (s : Str) : Option Nat := do
  if s.length = 0 ∨ 4 < s.length then none
  let digits ← s.mapM hexVal
  return digits.foldl (fun n d => n * 16 + d) 0

/-- Hextets, the first one on top. -/
def parseHextets (parts : List Str) : Option Nat := do
  let values ← parts.mapM parseHextet
  return values.foldl (fun n d => n * 65536 + d) 0

/-- The parts between the colons, with a dotted address at the end as two hextets. -/
def hextetParts (parts : List Str) : Option (List Str) :=
  match parts.getLast? with
  | none => none
  | some last =>
      if 0x2E ∈ last then do
        let v4 ← parseV4 last
        let hex (n : Nat) : Str := [hexChar (n / 4096), hexChar (n / 256 % 16), hexChar (n / 16 % 16),
          hexChar (n % 16)]
        return parts.dropLast ++ [hex (v4 / 65536), hex (v4 % 65536)]
      else some parts

/-- The empty parts other than the first and the last. -/
def skips (parts : List Str) : List Nat :=
  (List.range parts.length).filter fun i =>
    decide (0 < i ∧ i + 1 < parts.length ∧ parts[i]? = some [])

/-- `IPv6Address._ip_int_from_string`. -/
def parseV6 (s : Str) : Option Nat := do
  let split := s.splitOn 0x3A
  if split.length < 3 then none
  let parts ← hextetParts split
  if 9 < parts.length then none
  match skips parts with
  | [] =>
      if parts.length ≠ 8 then none
      parseHextets parts
  | [skip] =>
      -- an empty first or last part has to stand next to the `::`
      let hi := parts.take skip
      let lo := parts.drop (skip + 1)
      let hi := if hi = [[]] then [] else hi
      let lo := if lo = [[]] then [] else lo
      if 8 < hi.length + lo.length + 1 then none
      return (← parseHextets hi) * 65536 ^ (8 - hi.length) + (← parseHextets lo)
  | _ => none

/-- `ip_address(text)`. The number does not show the scope id of a version 6 address. -/
def ipAddress (s : Str) : Option IpAddress :=
  if 0x2F ∈ s then none
  else
    match parseV4 s with
    | some n => some ⟨false, n⟩
    | none =>
        match s.splitOn 0x25 with
        | [text] => (parseV6 text).map (⟨true, ·⟩)
        | [text, scope] => if scope = [] then none else (parseV6 text).map (⟨true, ·⟩)
        | _ => none

example : ipAddress (lit "10.0.0.1") = some ⟨false, 0x0A000001⟩ ∧
    ipAddress (lit "fe80::1%eth0") = some ⟨true, 0xfe80 * 2 ^ 112 + 1⟩ ∧
    ipAddress (lit "::ffff:1.2.3.4") = some ⟨true, 0xffff01020304⟩ ∧
    ipAddress (lit "1.2.3.04") = none ∧ ipAddress (lit "1::2::3") = none := by
  decide

/-- A network of addresses of one version: its address and the length of its mask. -/
structure IpNetwork where
  isV6 : Bool
  number : Nat
  maskLength : Nat

/-- `address in network`. -/
def IpNetwork.contains (net : IpNetwork) (a : IpAddress) : Bool :=
  let bits := (if net.isV6 then 128 else 32) - net.maskLength
  decide (a.isV6 = net.isV6) && decide (a.number / 2 ^ bits = net.number / 2 ^ bits)

end ResidualHarness.Python
