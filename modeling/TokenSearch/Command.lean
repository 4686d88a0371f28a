import TokenSearch.Document
import TokenSearch.Text.Blank

/-!
# Commands

A command line names what to do: `index` an id and at least one token, or `query` an
expression. Keywords are followed by a space, line ends are dropped, and words are separated by
blanks. An id is checked before the tokens, and the first word that is no token is reported
before a lack of tokens.
-/

namespace TokenSearch

/-- The reason why a document cannot be indexed. -/
inductive DocumentFault
  | missingId
  | invalidId (raw : String)
  | notAlphanumeric (raw : String)
  | missingTokens
  deriving DecidableEq, Repr

/-- The wording of a fault. -/
def DocumentFault.message : DocumentFault → String
  | .missingId => "a document id is required"
  | .invalidId raw => raw ++ " is not an integer"
  | .notAlphanumeric raw => "token " ++ raw ++ " is not alphanumeric"
  | .missingTokens => "at least one token is required"

/-- The id that a word stands for. -/
def checkId (raw : String) : Except DocumentFault DocId :=
  match DocId.ofText? raw with
  | some id => .ok id
  | none => .error (.invalidId raw)

/-- The words themselves, if there is at least one and each is a token. -/
def checkTokens (raw : List String) : Except DocumentFault (List Token) :=
  match raw.find? (!isToken ·) with
  | some word => .error (.notAlphanumeric word)
  | none => if raw.isEmpty then .error .missingTokens else .ok raw

/-- What a command line asks for. -/
inductive Command
  | index (document : Document)
  /-- The expression is read when the query is answered. -/
  | query (expression : String)
  deriving DecidableEq, Repr

/-- The reason why a line is no command. -/
inductive CommandFault
  | unknown
  | document (fault : DocumentFault)
  deriving DecidableEq, Repr

namespace Command

/-- A line without the carriage returns and line feeds at its end. -/
def dropLineEnd (line : List Char) : List Char :=
  (line.reverse.dropWhile fun c => c = '\r' || c = '\n').reverse

/-- The document that the words behind `index` describe. -/
def documentOf : List String → Except DocumentFault Document
  | [] => .error .missingId
  | id :: words => do
    let id ← checkId id
    let tokens ← checkTokens words
    pure ⟨id, tokens⟩

/-- Read a command line. -/
def parse (line : String) : Except CommandFault Command :=
  let line := dropLineEnd line.toList
  match "index ".toList.isPrefixOf? line with
  | some arguments =>
    match documentOf ((Text.words arguments).map String.ofList) with
    | .ok document => .ok (.index document)
    | .error fault => .error (.document fault)
  | none =>
    match "query ".toList.isPrefixOf? line with
    | some expression => .ok (.query (String.ofList expression))
    | none => .error .unknown

end Command

end TokenSearch
