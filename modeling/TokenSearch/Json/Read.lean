import TokenSearch.Json.Lexeme

/-!
# Reading JSON

A value is read in one pass over the lexemes with a stack of the containers that are still
open, so nesting has no limit.
-/

namespace TokenSearch.Json

open Text (Scanned)

/-- A container that is still open, with what it holds so far, last first. -/
inductive Frame
  | array (items : List Json)
  /-- An object whose next member has the name `name`. -/
  | object (members : List (Scanned × Json)) (name : Scanned)
  deriving Repr

/-- What a reading waits for. -/
inductive Phase
  | value
  /-- A value is complete, and what stands behind it decides what becomes of it. -/
  | complete (value : Json)
  deriving Repr

/-- Read lexemes up to the end of the outermost value, and return it with those behind it. -/
def readFrom : List Frame → Phase → List Lexeme → Option (Json × List Lexeme)
  | [], .complete v, rest => some (v, rest)
  | .array items :: frames, .complete v, .comma :: rest =>
    readFrom (.array (v :: items) :: frames) .value rest
  | .array items :: frames, .complete v, .closeArray :: rest =>
    readFrom frames (.complete (.array (v :: items).reverse)) rest
  | .object members name :: frames, .complete v, .comma :: .string next :: .colon :: rest =>
    readFrom (.object ((name, v) :: members) next :: frames) .value rest
  | .object members name :: frames, .complete v, .closeObject :: rest =>
    readFrom frames (.complete (.object ((name, v) :: members).reverse)) rest
  | frames, .value, .atom v :: rest => readFrom frames (.complete v) rest
  | frames, .value, .string s :: rest => readFrom frames (.complete (.string s)) rest
  | frames, .value, .openArray :: .closeArray :: rest =>
    readFrom frames (.complete (.array [])) rest
  | frames, .value, .openArray :: rest => readFrom (.array [] :: frames) .value rest
  | frames, .value, .openObject :: .closeObject :: rest =>
    readFrom frames (.complete (.object [])) rest
  | frames, .value, .openObject :: .string name :: .colon :: rest =>
    readFrom (.object [] name :: frames) .value rest
  | _, _, _ => none

/-- The value at the front of a text, whatever stands behind it. -/
def leading? (cs : Scanned) : Option Json := (readFrom [] .value (lexemes cs)).map Prod.fst

/-- The value that a whole text stands for. -/
def ofScanned? (cs : Scanned) : Option Json :=
  match readFrom [] .value (lexemes cs) with
  | some (v, []) => some v
  | _ => none

/-- The value that a text stands for. -/
def ofText? (s : String) : Option Json := ofScanned? (s.toList.map some)

end TokenSearch.Json
