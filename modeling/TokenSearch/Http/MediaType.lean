/-!
# Media types

A media type is written `type/subtype`, with parameters behind semicolons. JSON is announced by
the type `application` and the subtype `json`, or by a subtype with the suffix `+json`. Case
does not matter, and a text that breaks the grammar announces nothing.
-/

namespace TokenSearch.Http.MediaType

/-- The characters that names and unquoted values are made of. -/
def isNameChar (c : Char) : Bool := c.isAlphanum || "!#$%&'*+-.^_`|~".toList.contains c

/-- The characters that may stand in a quoted value. -/
def isQuotable (c : Char) : Bool := ' ' ≤ c && c ≤ '~'

/-- What a list of parameters has come to. -/
inductive Part
  /-- Before a name, or at the end. -/
  | start
  | name
  /-- Behind the equals sign. -/
  | valueStart
  | value
  /-- Behind the opening quote. -/
  | quotedStart
  | quoted
  | afterQuoted
  deriving DecidableEq, Repr

/-- What a list of parameters comes to with one more character. -/
def Part.next? : Part → Char → Option Part
  | .start, c => if c = ' ' then some .start else if isNameChar c then some .name else none
  | .name, c => if c = '=' then some .valueStart else if isNameChar c then some .name else none
  | .valueStart, c =>
    if c = '"' then some .quotedStart else if isNameChar c then some .value else none
  | .value, c => if c = ';' then some .start else if isNameChar c then some .value else none
  | .quotedStart, c => if isQuotable c then some .quoted else none
  | .quoted, c =>
    if c = '"' then some .afterQuoted else if isQuotable c then some .quoted else none
  | .afterQuoted, c =>
    if c = ';' then some .start else if c = ' ' then some .afterQuoted else none

/-- Whether a list of parameters may end here. -/
def Part.mayEnd : Part → Bool
  | .name => false
  | .quotedStart => false
  | .quoted => false
  | _ => true

/-- Whether a text behind a subtype is empty or a list of parameters. -/
def areParameters : List Char → Bool
  | [] => true
  | ';' :: rest => ((rest.foldlM Part.next? .start).map Part.mayEnd).getD false
  | _ => false

/-- Whether a subtype announces JSON: it is `json`, or one of the parts around its last plus
sign is. A plus sign in front is part of the name. -/
def isJsonSubtype (subtype : List Char) : Bool :=
  let suffix := (subtype.reverse.takeWhile (· ≠ '+')).reverse
  let main := subtype.take (subtype.length - suffix.length - 1)
  if main.isEmpty then subtype = "json".toList
  else main = "json".toList || suffix = "json".toList

/-- Whether a media type announces JSON. -/
def isJson (mediaType : String) : Bool :=
  let cs := mediaType.toList.map Char.toLower
  let type := cs.takeWhile isNameChar
  type = "application".toList &&
    match cs.drop type.length with
    | '/' :: rest =>
      let subtype := rest.takeWhile isNameChar
      isJsonSubtype subtype && areParameters (rest.drop subtype.length)
    | _ => false

end TokenSearch.Http.MediaType
