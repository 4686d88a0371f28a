import TokenSearch.Command
import TokenSearch.Reply
import TokenSearch.Search
import TokenSearch.Store

/-!
# The engine

An engine has one index and one store. A document is checked before anything changes, then
indexed, then given to the store; when the store fails, the caller gets its fault while queries
already see the document.
-/

namespace TokenSearch

/-- The reason why a request to the engine fails. -/
inductive EngineFault
  | invalidCommand
  | document (fault : DocumentFault)
  | parse (fault : ParseFault)
  | store (error : StoreError)
  | crash
  deriving DecidableEq, Repr

namespace EngineFault

/-- A short name for the kind of a fault. -/
def kind : EngineFault → String
  | .invalidCommand => "invalid_command"
  | .document _ => "validation"
  | .parse _ => "parse"
  | .store _ => "persistence"
  | .crash => "internal"

/-- The wording of a fault. -/
def message : EngineFault → String
  | .invalidCommand => "invalid command"
  | .document fault => fault.message
  | .parse fault => fault.message
  | .store error => error.message
  | .crash => "document store crashed"

/-- The fault that a fault of the store becomes. -/
def ofStoreFault : StoreFault → EngineFault
  | .error error => .store error
  | .crash => .crash

end EngineFault

/-- An index and the store that its documents are given to. -/
structure Engine (σ : Type) where
  index : Index := .empty
  store : σ

namespace Reply

/-- The reply when a document has been given to the store. -/
def ofIndexing (id : DocId) : Except StoreFault Unit → Reply
  | .ok () => .indexed id
  | .error fault => .indexFailed (EngineFault.ofStoreFault fault).message

/-- The reply to a query. -/
def ofSearch : Except ParseFault IdSet → Reply
  | .ok ids => .results ids
  | .error fault => .queryFailed fault.message

/-- The reply to a line that is no command. -/
def ofCommandFault : CommandFault → Reply
  | .unknown => .invalidCommand
  | .document fault => .indexFailed fault.message

end Reply

namespace Engine

variable {σ : Type} [DocumentStore σ]

/-- Index a checked document and give it to the store. -/
def record (document : Document) (engine : Engine σ) : Except StoreFault Unit × Engine σ :=
  let (outcome, store) := DocumentStore.persist document engine.store
  (outcome, ⟨engine.index.addDocument document.id document.tokens, store⟩)

/-- Check the tokens of a document, index it and give it to the store. -/
def indexDocument (id : DocId) (tokens : List String) (engine : Engine σ) :
    Except EngineFault DocId × Engine σ :=
  match checkTokens tokens with
  | .error fault => (.error (.document fault), engine)
  | .ok tokens =>
    match engine.record ⟨id, tokens⟩ with
    | (.ok (), engine) => (.ok id, engine)
    | (.error fault, engine) => (.error (.ofStoreFault fault), engine)

/-- The ids of the documents that match the text of an expression. -/
def query (expression : String) (engine : Engine σ) : Except EngineFault IdSet :=
  match engine.index.search expression with
  | .ok ids => .ok ids
  | .error fault => .error (.parse fault)

/-- Carry out one command line. -/
def execute (line : String) (engine : Engine σ) : Reply × Engine σ :=
  match Command.parse line with
  | .ok (.index document) =>
    let (outcome, engine) := engine.record document
    (.ofIndexing document.id outcome, engine)
  | .ok (.query expression) => (.ofSearch (engine.index.search expression), engine)
  | .error fault => (.ofCommandFault fault, engine)

end Engine

end TokenSearch
