import TokenSearch.Http
import TokenSearch.Proofs.EngineRun
import TokenSearch.Proofs.Json.Grammar

/-!
# Posted documents

A request posts a document when it is a `POST` of JSON to the resource for documents and its body,
within the limit, begins with the JSON text of the document. This is the document that the service
finds in the body, and the call that the request makes is to index it.
-/

namespace TokenSearch

/-- Characters are a JSON text of a document. In strings that are not looked at there may be
unknown characters. -/
def Document.IsText (text : Text.Scanned) (document : Document) : Prop :=
  ∃ value, Json.IsText text value ∧ ofJson? value = some document

namespace Http

namespace Request

/-- A request posts a body as JSON. -/
structure PostsJson (request : Request) : Prop where
  method : request.method = "POST"
  path : pathOf request.uri = "/index"
  contentType : request.contentType.any MediaType.isJson = true

/-- The JSON text of a document stands at the front of the body. -/
def BeginsWith (request : Request) (document : Document) : Prop :=
  ∃ text rest, Text.Utf8.read request.body = text ++ rest ∧ document.IsText text

/-- A request posts a document. -/
structure Posts (request : Request) (document : Document) : Prop where
  json : request.PostsJson
  fits : request.body.length ≤ bodyLimit
  begins : request.BeginsWith document

/-- The document that a request posts, if its body can be decoded. -/
def posted? (request : Request) : Option Document :=
  if request.method = "POST" ∧ pathOf request.uri = "/index" then request.document? else none

/-- The document that is found is the one at the front of the body. -/
theorem document?_eq_some_iff {request : Request} {document : Document} :
    request.document? = some document ↔
      request.contentType.any MediaType.isJson = true ∧ request.body.length ≤ bodyLimit ∧
        request.BeginsWith document := by
  have hvalue {value : Json} (hdocument : Document.ofJson? value = some document)
      (n : Json.Numeral) : value ≠ .number n := by
    rintro rfl
    cases hdocument
  have hleading : (Json.leading? (Text.Utf8.read request.body)).bind Document.ofJson? =
      some document ↔ request.BeginsWith document := by
    rw [Option.bind_eq_some_iff]
    constructor
    · rintro ⟨value, hleading, hdocument⟩
      obtain ⟨text, rest, hbody, htext⟩ :=
        (Json.leading?_eq_some_iff (hvalue hdocument)).mp hleading
      exact ⟨text, rest, hbody, value, htext, hdocument⟩
    · rintro ⟨text, rest, hbody, value, htext, hdocument⟩
      exact ⟨value,
        (Json.leading?_eq_some_iff (hvalue hdocument)).mpr ⟨text, rest, hbody, htext⟩, hdocument⟩
  rw [document?, ← hleading]
  by_cases hjson : request.contentType.any MediaType.isJson = true <;>
    by_cases hfits : request.body.length ≤ bodyLimit <;> simp [hjson, hfits]

/-- The document of a request is the one that it posts. -/
theorem posted?_eq_some_iff {request : Request} {document : Document} :
    request.posted? = some document ↔ request.Posts document := by
  rw [posted?]
  constructor
  · intro h
    split at h
    · rename_i hpost
      obtain ⟨hjson, hfits, hbegins⟩ := document?_eq_some_iff.mp h
      exact ⟨⟨hpost.1, hpost.2, hjson⟩, hfits, hbegins⟩
    · cases h
  · rintro ⟨⟨hmethod, hpath, hjson⟩, hfits, hbegins⟩
    rw [if_pos ⟨hmethod, hpath⟩]
    exact document?_eq_some_iff.mpr ⟨hjson, hfits, hbegins⟩

theorem posted?_eq_none_iff {request : Request} :
    request.posted? = none ↔ ∀ document, ¬request.Posts document := by
  simp only [Option.eq_none_iff_forall_ne_some, ne_eq, posted?_eq_some_iff]

/-- The call of the engine that a request makes. -/
def call? (request : Request) : Option Operation :=
  request.posted?.map fun document => .index document.id document.tokens

end Request

/-- The calls of the engine that requests make, in order. -/
def calls (requests : List Request) : List Operation := requests.filterMap Request.call?

/-- Requests make calls: one for each document that is posted, in order. -/
inductive Make : List Request → List Operation → Prop
  | none : Make [] []
  | posted {request : Request} {document : Document} {requests : List Request}
    {operations : List Operation} (h : request.Posts document) (hrest : Make requests operations) :
    Make (request :: requests) (.index document.id document.tokens :: operations)
  | other {request : Request} {requests : List Request} {operations : List Operation}
    (h : ∀ document, ¬request.Posts document) (hrest : Make requests operations) :
    Make (request :: requests) operations

theorem calls_cons_of_posts {request : Request} {document : Document} (h : request.Posts document)
    (requests : List Request) :
    calls (request :: requests) = .index document.id document.tokens :: calls requests := by
  have hcall : request.call? = some (.index document.id document.tokens) := by
    rw [Request.call?, Request.posted?_eq_some_iff.mpr h, Option.map_some]
  rw [calls, List.filterMap_cons_some hcall, calls]

theorem calls_cons_of_not_posts {request : Request} (h : ∀ document, ¬request.Posts document)
    (requests : List Request) : calls (request :: requests) = calls requests := by
  have hcall : request.call? = none := by
    rw [Request.call?, Request.posted?_eq_none_iff.mpr h, Option.map_none]
  rw [calls, List.filterMap_cons_none hcall, calls]

/-- The calls that requests make are these and no others. -/
theorem make_iff {requests : List Request} {operations : List Operation} :
    Make requests operations ↔ operations = calls requests := by
  constructor
  · intro h
    induction h with
    | none => rfl
    | posted h hrest ih => rw [calls_cons_of_posts h, ih]
    | other h hrest ih => rw [calls_cons_of_not_posts h, ih]
  · rintro rfl
    induction requests with
    | nil => exact .none
    | cons request requests ih =>
      cases hposted : request.posted? with
      | none =>
        have hother := Request.posted?_eq_none_iff.mp hposted
        rw [calls_cons_of_not_posts hother]
        exact .other hother ih
      | some document =>
        have hposts := Request.posted?_eq_some_iff.mp hposted
        rw [calls_cons_of_posts hposts]
        exact .posted hposts ih

end Http

end TokenSearch
