import TokenSearch.Engine
import TokenSearch.Http.Form
import TokenSearch.Http.MediaType

/-!
# The HTTP service

Three resources share one engine: `/health` answers that the service runs, `/query` answers an
expression, and `/index` takes a document. A request that cannot be decoded changes nothing. A
document that is decoded is indexed even if the store fails or breaks down, and requests after
that are served as before.
-/

namespace TokenSearch

namespace Http

/-- A request. -/
structure Request where
  method : String
  /-- The address: a path, with the query behind a question mark if there is one. -/
  uri : String
  contentType : Option String := none
  body : List UInt8 := []
  deriving DecidableEq, Repr

/-- What a request is answered. -/
inductive Answer
  | healthy
  | indexed (id : DocId)
  | found (query : String) (ids : IdSet)
  | failed (fault : EngineFault)
  /-- The request could not be decoded as one of a certain kind. -/
  | undecodable (kind : String)
  | notFound
  | methodNotAllowed

/-- A status and the text of a body. -/
structure Response where
  status : Nat
  body : String
  deriving DecidableEq, Repr

namespace Answer

/-- The status of an answer. -/
def status : Answer → Nat
  | .healthy => 200
  | .indexed _ => 200
  | .found _ _ => 200
  | .failed (.store _) => 500
  | .failed .crash => 500
  | .failed _ => 400
  | .undecodable _ => 400
  | .notFound => 404
  | .methodNotAllowed => 405

/-- The body of an answer. What the engine has to say about a fault is passed on, and of a
breakdown or an undecodable request only the kind is told. -/
def body : Answer → String
  | .healthy => "ok"
  | .indexed id => "\x7b\"id\":" ++ id.text ++ "\x7d"
  | .found query ids =>
    "\x7b\"query\":" ++ Json.quote query ++
      ",\"ids\":[" ++ ",".intercalate (ids.toList.map DocId.text) ++
      "],\"total_hits\":" ++ Text.Decimal.natural ids.size ++ "\x7d"
  | .failed .crash => "\x7b\"error\":\"internal\"\x7d"
  | .failed fault =>
    "\x7b\"error\":" ++ Json.quote fault.kind ++
      ",\"message\":" ++ Json.quote fault.message ++ "\x7d"
  | .undecodable kind => "\x7b\"error\":" ++ Json.quote kind ++ "\x7d"
  | .notFound => ""
  | .methodNotAllowed => ""

end Answer

/-- The resources of the service. -/
inductive Resource
  | health
  | query
  | index
  deriving DecidableEq, Repr

/-- The resource at a path. -/
def Resource.ofPath? : String → Option Resource
  | "/health" => some .health
  | "/query" => some .query
  | "/index" => some .index
  | _ => none

/-- What stands behind the scheme of an address that has one. -/
def afterScheme? : List Char → Option (List Char)
  | ':' :: '/' :: '/' :: rest => some rest
  | c :: rest => if c = '/' ∨ c = '?' ∨ c = '#' then none else afterScheme? rest
  | [] => none

/-- The path and the query of an address, without a scheme, a host or a fragment. -/
def targetOf (uri : String) : List Char :=
  let whole := uri.toList.takeWhile (· ≠ '#')
  match afterScheme? whole with
  | some rest => rest.dropWhile fun c => c ≠ '/' && c ≠ '?'
  | none => whole

/-- The path of an address. -/
def pathOf (uri : String) : String := String.ofList ((targetOf uri).takeWhile (· ≠ '?'))

/-- The query of an address, behind the first question mark. -/
def queryOf (uri : String) : String :=
  String.ofList (((targetOf uri).dropWhile (· ≠ '?')).drop 1)

/-- The number of bytes that a body may have. -/
def bodyLimit : Nat := 2097152

/-- The document in the body of a request. Text behind the JSON value of the body is not looked
at. -/
def Request.document? (request : Request) : Option Document :=
  if request.contentType.any MediaType.isJson && request.body.length ≤ bodyLimit then
    (Json.leading? (Text.Utf8.read request.body)).bind Document.ofJson?
  else none

variable {σ : Type} [DocumentStore σ]

/-- Answer a request for a document to be indexed. -/
def answerIndex (request : Request) (engine : Engine σ) : Answer × Engine σ :=
  match request.document? with
  | none => (.undecodable "validation", engine)
  | some document =>
    match engine.indexDocument document.id document.tokens with
    | (.ok id, engine) => (.indexed id, engine)
    | (.error fault, engine) => (.failed fault, engine)

/-- Answer a request for the documents that match an expression. -/
def answerQuery (request : Request) (engine : Engine σ) : Answer :=
  match Form.field? "q" (queryOf request.uri) with
  | none => .undecodable "parse"
  | some query =>
    match engine.query query with
    | .ok ids => .found query ids
    | .error fault => .failed fault

/-- Answer a request. -/
def answer (request : Request) (engine : Engine σ) : Answer × Engine σ :=
  let reads := request.method = "GET" ∨ request.method = "HEAD"
  match Resource.ofPath? (pathOf request.uri) with
  | none => (.notFound, engine)
  | some .health => (if reads then .healthy else .methodNotAllowed, engine)
  | some .query => (if reads then answerQuery request engine else .methodNotAllowed, engine)
  | some .index =>
    if request.method = "POST" then answerIndex request engine else (.methodNotAllowed, engine)

/-- Respond to a request. The response to `HEAD` has no body. -/
def respond (request : Request) (engine : Engine σ) : Response × Engine σ :=
  let (answer, engine) := answer request engine
  (⟨answer.status, if request.method = "HEAD" then "" else answer.body⟩, engine)

end Http

end TokenSearch
