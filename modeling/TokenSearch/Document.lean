import TokenSearch.DocId
import TokenSearch.Json.Quote
import TokenSearch.Json.Read
import TokenSearch.Token

/-!
# Documents and their records

A document is an id with its tokens as they were given, order and repeats included. Its record
is a single line of compact JSON such as `{"id":1,"tokens":["cat","dog"]}`. A record is read
from an object, in which other members are ignored but the two known ones must stand exactly
once, or from an array of just the two values.
-/

namespace TokenSearch

/-- A numbered list of tokens. -/
structure Document where
  id : DocId
  tokens : List Token
  deriving DecidableEq, Repr

namespace Document

/-- The record of a document. -/
def record (document : Document) : String :=
  "\x7b\"id\":" ++ document.id.text ++ ",\"tokens\":[" ++
    ",".intercalate (document.tokens.map Json.quote) ++ "]\x7d"

/-- The document of an id and a list of tokens. -/
def ofValues? (id tokens : Json) : Option Document := do
  let id ← id.integer?.bind DocId.ofInt?
  let tokens ← tokens.array?.bind (·.mapM Json.string?)
  pure ⟨id, tokens⟩

/-- The document that a JSON value stands for. -/
def ofJson? : Json → Option Document
  | .object members => do
    let members ← Json.members? members
    ofValues? (← Json.member? "id" members) (← Json.member? "tokens" members)
  | .array [id, tokens] => ofValues? id tokens
  | _ => none

/-- The document whose record a text is. -/
def ofRecord? (s : String) : Option Document := (Json.ofText? s).bind ofJson?

end Document

end TokenSearch
