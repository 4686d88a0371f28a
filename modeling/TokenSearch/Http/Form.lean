import TokenSearch.Text.Utf8

/-!
# Form fields

The query of an address holds fields in the form `application/x-www-form-urlencoded`: pairs of
a name and a value with `&` between the pairs and `=` behind the name. In both, `+` stands for a
space and `%` with two hexadecimal digits for a byte; a `%` without them stands for itself.
Bytes that are not UTF-8 give the replacement character. Empty pairs count for nothing, and a
pair without `=` has an empty value.
-/

namespace TokenSearch.Http.Form

/-- The value of a hexadecimal digit. -/
def hexDigit? (b : UInt8) : Option UInt8 :=
  if 0x30 ≤ b ∧ b ≤ 0x39 then some (b - 0x30)
  else if 0x41 ≤ b ∧ b ≤ 0x46 then some (b - 0x37)
  else if 0x61 ≤ b ∧ b ≤ 0x66 then some (b - 0x57)
  else none

/-- The bytes that an escaped text stands for. -/
def unescape : List UInt8 → List UInt8
  | 0x25 :: high :: low :: rest =>
    match hexDigit? high, hexDigit? low with
    | some h, some l => (h * 16 + l) :: unescape rest
    | _, _ => 0x25 :: unescape (high :: low :: rest)
  | 0x2B :: rest => 0x20 :: unescape rest
  | b :: rest => b :: unescape rest
  | [] => []

/-- The text that a part of a pair stands for. -/
def decodePart (bytes : List UInt8) : String :=
  String.ofList (Text.Utf8.decodeLossy (unescape bytes))

/-- The name and the value of a pair. -/
def decodePair (bytes : List UInt8) : String × String :=
  let name := bytes.takeWhile (· ≠ 0x3D)
  (decodePart name, decodePart (bytes.drop (name.length + 1)))

/-- The fields of a query, in order. -/
def fields (query : String) : List (String × String) :=
  (((Text.Utf8.encode query.toList).splitOn 0x26).filter (!·.isEmpty)).map decodePair

/-- The value of the one field of a name. A missing or a repeated field has none. -/
def field? (name query : String) : Option String :=
  match (fields query).filter (·.1 = name) with
  | [(_, value)] => some value
  | _ => none

end TokenSearch.Http.Form
