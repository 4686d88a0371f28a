import TokenSearch.Json.Numeral
import TokenSearch.Text.Utf8

/-!
# JSON values

A value keeps what its text says: the members of an object in order and with repeats, a number
as its digits, and a string as scanned characters, of which those that are no Unicode scalar
values are unknown. What a value is read as decides which of these are faults.
-/

namespace TokenSearch

/-- A JSON value. -/
inductive Json
  | null
  | bool (value : Bool)
  | number (value : Json.Numeral)
  | string (value : Text.Scanned)
  | array (items : List Json)
  | object (members : List (Text.Scanned × Json))
  deriving Repr

namespace Json

/-- The text of a scanned string, if all its characters are known. -/
def known? (s : Text.Scanned) : Option String := (s.mapM id).map String.ofList

/-- The text of a string value. -/
def string? : Json → Option String
  | .string s => known? s
  | _ => none

/-- The value of an integer literal. -/
def integer? : Json → Option Int
  | .number n => n.integer?
  | _ => none

/-- The items of an array. -/
def array? : Json → Option (List Json)
  | .array items => some items
  | _ => none

/-- The members of an object, if all names are known. -/
def members? (members : List (Text.Scanned × Json)) : Option (List (String × Json)) :=
  members.mapM fun (name, value) => (known? name).map (·, value)

/-- The value of the one member of a name. A missing or a repeated member has none. -/
def member? (name : String) (members : List (String × Json)) : Option Json :=
  match members.filter (·.1 = name) with
  | [(_, value)] => some value
  | _ => none

mutual

/-- Whether all strings are known, all numbers are finite doubles, and at most `depth`
containers are nested. -/
def isPlain (depth : Nat) : Json → Bool
  | .null => true
  | .bool _ => true
  | .number n => n.isFinite
  | .string s => s.all Option.isSome
  | .array items => 0 < depth && arePlain (depth - 1) items
  | .object members => 0 < depth && membersPlain (depth - 1) members

/-- Whether all values of a list are plain. -/
def arePlain (depth : Nat) : List Json → Bool
  | [] => true
  | v :: vs => isPlain depth v && arePlain depth vs

/-- Whether the names and values of all members are plain. -/
def membersPlain (depth : Nat) : List (Text.Scanned × Json) → Bool
  | [] => true
  | (name, v) :: rest => name.all Option.isSome && isPlain depth v && membersPlain depth rest

end

end Json

end TokenSearch
