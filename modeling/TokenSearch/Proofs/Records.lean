import TokenSearch.Document
import TokenSearch.Proofs.Json.Compact
import TokenSearch.Text.Utf8.RoundTrip

/-!
# Records are read back

The record of a document is compact JSON, so that it is read as the document again: as a text, and
from the bytes that the text is sent as.
-/

namespace TokenSearch

namespace DocId

/-- The JSON value of an id. -/
def toJson (id : DocId) : Json := .number (.ofInt id.toInt)

theorem compact_text (id : DocId) : Json.Compact id.text id.toJson := .integer id.toInt

/-- The id of a JSON value. -/
def ofJson? (value : Json) : Option DocId := value.integer?.bind ofInt?

@[simp] theorem ofJson?_toJson (id : DocId) : ofJson? id.toJson = some id := by
  rw [ofJson?, toJson, Json.integer?, Json.Numeral.integer?_ofInt]
  exact ofInt?_eq_some_iff.2 rfl

end DocId

namespace Document

/-- The members of a record. -/
def members (document : Document) : List Json.Member :=
  [⟨"id", document.id.text, document.id.toJson⟩,
    ⟨"tokens", "[" ++ ",".intercalate (document.tokens.map Json.quote) ++ "]",
      .array (document.tokens.map fun token => .string (token.toList.map some))⟩]

/-- A record is the compact form of its members. -/
theorem compact_record (document : Document) :
    Json.Compact document.record (Json.Member.toJson document.members) := by
  have htext : document.record = Json.Member.object document.members := by
    rw [← String.toList_inj]
    simp [Json.Member.object, Json.Member.pair, Json.quote, Json.escape, record, members]
  rw [htext]
  refine .object ?_
  simpa [members] using
    ⟨document.id.compact_text, Json.Compact.list Json.Compact.string document.tokens⟩

/-- The members of a record are read as the document. -/
theorem ofJson?_members (document : Document) :
    ofJson? (Json.Member.toJson document.members) = some document := by
  have hid : document.id.toJson.integer?.bind DocId.ofInt? = some document.id :=
    DocId.ofJson?_toJson document.id
  have htoken (token : Token) : Json.string? (.string (token.toList.map some)) = some token :=
    Json.known?_map_some token
  have htokens := mapM_map_some htoken document.tokens
  simp only [ofJson?, Json.Member.toJson, Json.members?_map]
  simp [members, Json.member?, ofValues?, hid, Json.array?, htokens]

/-- A record is read as the document that it was written for. -/
theorem ofRecord?_record (document : Document) : ofRecord? document.record = some document := by
  rw [ofRecord?, document.compact_record.ofText?, Option.bind_some, ofJson?_members]

/-- The bytes of a record are read as the document that it was written for. -/
theorem leading?_encode_record (document : Document) :
    (Json.leading? (Text.Utf8.read (Text.Utf8.encode document.record.toList))).bind ofJson? =
      some document := by
  rw [Text.Utf8.read_encode, document.compact_record.leading?, Option.bind_some, ofJson?_members]

end Document

end TokenSearch
