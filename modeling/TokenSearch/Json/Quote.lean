/-!
# Strings in JSON

A string is written between quotes. The quote, the backslash and the control characters are
escaped, the common ones by a letter and the others by four hexadecimal digits; all other
characters stand for themselves.
-/

namespace TokenSearch.Json

/-- A character as it stands in a written string. -/
def escape (c : Char) : List Char :=
  match c with
  | '"' => ['\\', '"']
  | '\\' => ['\\', '\\']
  | '\x08' => ['\\', 'b']
  | '\x0c' => ['\\', 'f']
  | '\n' => ['\\', 'n']
  | '\r' => ['\\', 'r']
  | '\t' => ['\\', 't']
  | c =>
    if c < ' ' then
      ['\\', 'u', '0', '0', Nat.digitChar (c.toNat / 16), Nat.digitChar (c.toNat % 16)]
    else [c]

/-- The written form of a string. -/
def quote (s : String) : String :=
  "\"" ++ String.ofList (s.toList.flatMap escape) ++ "\""

end TokenSearch.Json
