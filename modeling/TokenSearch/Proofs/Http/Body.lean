import TokenSearch.Http
import TokenSearch.Proofs.Records

/-!
# What a response says

A client reads the body of a response as JSON and looks at its members. The members found are the
ones that the answer was made of: the id of an indexed document, the query with the ids that match
it, or the kind of a fault and its wording.
-/

namespace TokenSearch.Http

namespace Response

/-- The member of a name in a body that is a JSON object. -/
def member? (name : String) (response : Response) : Option Json :=
  match Json.ofText? response.body with
  | some (.object members) => (Json.members? members).bind (Json.member? name)
  | _ => none

/-- A member that is a string. -/
def text? (name : String) (response : Response) : Option String :=
  (response.member? name).bind Json.string?

/-- The id that a body names. -/
def id? (response : Response) : Option DocId := (response.member? "id").bind DocId.ofJson?

/-- The ids that a body lists, in order. -/
def ids? (response : Response) : Option (List DocId) :=
  ((response.member? "ids").bind Json.array?).bind (·.mapM DocId.ofJson?)

/-- The number of matches that a body gives. -/
def totalHits? (response : Response) : Option Int :=
  (response.member? "total_hits").bind Json.integer?

/-- The members of a body are those that it was written with. -/
theorem member?_object {members : List Json.Member}
    (h : ∀ member ∈ members, Json.Compact member.text member.value) (status : Nat) (name : String) :
    (Response.mk status (Json.Member.object members)).member? name =
      Json.member? name (members.map fun member => (member.name, member.value)) := by
  rw [member?, (Json.Compact.object h).ofText?, Json.Member.toJson]
  simp only [Json.members?_map, Option.bind_some]

end Response

namespace Answer

/-- The response that carries an answer. -/
def response (answer : Answer) : Response := ⟨answer.status, answer.body⟩

/-- The members of the body of an answer. -/
def members : Answer → List Json.Member
  | .indexed id => [⟨"id", id.text, id.toJson⟩]
  | .found query ids =>
    [Json.Member.ofString "query" query,
      ⟨"ids", "[" ++ ",".intercalate (ids.toList.map DocId.text) ++ "]",
        .array (ids.toList.map DocId.toJson)⟩,
      ⟨"total_hits", Text.Decimal.natural ids.size, .number (.ofInt ids.size)⟩]
  | .failed fault =>
    Json.Member.ofString "error" fault.kind ::
      if fault = .crash then [] else [Json.Member.ofString "message" fault.message]
  | .undecodable kind => [Json.Member.ofString "error" kind]
  | _ => []

/-- The body of a failure that is no breakdown has its kind and its wording. -/
theorem body_failed {fault : EngineFault} (h : fault ≠ .crash) :
    (failed fault).body = "\x7b\"error\":" ++ Json.quote fault.kind ++ ",\"message\":" ++
      Json.quote fault.message ++ "\x7d" := by
  cases fault with
  | crash => exact absurd rfl h
  | _ => rfl

/-- The body of an answer that has something to say is made of its members. -/
theorem body_eq_object {answer : Answer} (h : answer.members ≠ []) :
    answer.body = Json.Member.object answer.members := by
  cases answer with
  | failed fault =>
    by_cases hcrash : fault = .crash
    · subst hcrash
      decide
    · rw [← String.toList_inj, body_failed hcrash]
      simp [members, hcrash, Json.Member.object, Json.Member.pair, Json.Member.ofString, Json.quote,
        Json.escape]
  | healthy | notFound | methodNotAllowed => exact absurd rfl h
  | _ =>
    rw [← String.toList_inj]
    simp [body, members, Json.Member.object, Json.Member.pair, Json.Member.ofString, Json.quote,
      Json.escape]

theorem compact_members (answer : Answer) :
    ∀ member ∈ answer.members, Json.Compact member.text member.value := by
  have hstring := Json.compact_ofString
  cases answer with
  | indexed id => simpa [members] using id.compact_text
  | found query ids =>
    have hids := Json.Compact.list DocId.compact_text ids.toList
    have hsize : Json.Compact (Text.Decimal.natural ids.size) (.number (.ofInt ids.size)) :=
      .integer ids.size
    simpa [members] using ⟨hstring "query" query, hids, hsize⟩
  | failed fault =>
    rw [members]
    split <;> simp [hstring]
  | undecodable kind => simp [members, hstring]
  | healthy | notFound | methodNotAllowed => exact nofun

/-- A client finds the members of an answer. -/
theorem member?_response (answer : Answer) (h : answer.members ≠ []) (name : String) :
    answer.response.member? name =
      Json.member? name (answer.members.map fun member => (member.name, member.value)) := by
  rw [response, body_eq_object h, Response.member?_object answer.compact_members]

theorem id?_response_indexed (id : DocId) : (indexed id).response.id? = some id := by
  rw [Response.id?, member?_response (.indexed id) (List.cons_ne_nil _ _)]
  simp [members, Json.member?]

theorem query_response_found (query : String) (ids : IdSet) :
    (found query ids).response.text? "query" = some query := by
  rw [Response.text?, member?_response (.found query ids) (List.cons_ne_nil _ _)]
  simp [members, Json.Member.ofString, Json.member?, Json.string?]

theorem ids?_response_found (query : String) (ids : IdSet) :
    (found query ids).response.ids? = some ids.toList := by
  have hids := mapM_map_some DocId.ofJson?_toJson ids.toList
  rw [Response.ids?, member?_response (.found query ids) (List.cons_ne_nil _ _)]
  simp [members, Json.Member.ofString, Json.member?, Json.array?, hids]

theorem totalHits?_response_found (query : String) (ids : IdSet) :
    (found query ids).response.totalHits? = some (ids.size : Int) := by
  rw [Response.totalHits?, member?_response (.found query ids) (List.cons_ne_nil _ _)]
  simp [members, Json.Member.ofString, Json.member?, Json.integer?, Json.Numeral.integer?_ofInt]

/-- A failure tells its kind. -/
theorem error_response_failed (fault : EngineFault) :
    (failed fault).response.text? "error" = some fault.kind := by
  rw [Response.text?, member?_response (.failed fault) (List.cons_ne_nil _ _), members]
  split <;> simp [Json.Member.ofString, Json.member?, Json.string?]

/-- A failure that is no breakdown is put into words. -/
theorem message_response_failed {fault : EngineFault} (h : fault ≠ .crash) :
    (failed fault).response.text? "message" = some fault.message := by
  rw [Response.text?, member?_response (.failed fault) (List.cons_ne_nil _ _), members, if_neg h]
  simp [Json.Member.ofString, Json.member?, Json.string?]

/-- A request that cannot be decoded is told its kind. -/
theorem error_response_undecodable (kind : String) :
    (undecodable kind).response.text? "error" = some kind := by
  rw [Response.text?, member?_response (.undecodable kind) (List.cons_ne_nil _ _), members]
  simp [Json.Member.ofString, Json.member?, Json.string?]

end Answer

end TokenSearch.Http
