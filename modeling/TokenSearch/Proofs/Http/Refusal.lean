import TokenSearch.Proofs.Http.Service

/-!
# Refused bodies

A body that is posted as JSON is refused as invalid, and changes nothing, just when it is too long
or does not begin with the JSON text of a document whose tokens are accepted. What stands behind
this text is not looked at. So a body that is malformed only behind the text of a document is not
refused: the document is indexed.
-/

namespace TokenSearch

namespace Http

namespace Request

/-- The body as a whole is UTF-8, and the JSON text of a document. -/
def IsWellFormed (request : Request) : Prop :=
  none ∉ Text.Utf8.read request.body ∧
    ∃ document : Document, document.IsText (Text.Utf8.read request.body)

/-- Anything but spaces behind the JSON text of a document makes the body malformed. -/
theorem not_isWellFormed {request : Request} {text rest : Text.Scanned} {document : Document}
    (hbody : Text.Utf8.read request.body = text ++ rest) (htext : document.IsText text)
    (hrest : ¬Json.AreSpaces rest) : ¬request.IsWellFormed := by
  rintro ⟨-, other, whole, hwhole, -⟩
  obtain ⟨value, hvalue, hdocument⟩ := htext
  rw [hbody] at hwhole
  refine hvalue.not_append ?_ hrest whole hwhole
  rintro n rfl
  cases hdocument

end Request

variable {σ : Type} [DocumentStore σ]

/-- A request is refused as invalid, and nothing changes: neither the index nor the store. -/
structure Refused (request : Request) (engine : Engine σ) : Prop where
  status : (respond request engine).1.status = 400
  kind : (respond request engine).1.text? "error" = some "validation"
  unchanged : (respond request engine).2 = engine

/-- What becomes of a body that is posted as JSON. -/
structure Treated (request : Request) (engine : Engine σ) : Prop where
  /-- It is refused just when it is too long or begins with no document whose tokens are
  accepted. -/
  refused : Refused request engine ↔ bodyLimit < request.body.length ∨
    ∀ document, request.BeginsWith document → ∃ fault, checkTokens document.tokens = .error fault
  /-- A document at the front is indexed, whatever stands behind it. -/
  indexed (document : Document) (h : request.BeginsWith document)
    (hfits : request.body.length ≤ bodyLimit) :
    respond request engine =
      ((Answer.ofIndexing (engine.indexDocument document.id document.tokens).1).response,
        (engine.indexDocument document.id document.tokens).2)
  /-- What stands behind it makes the body malformed all the same, unless it is spaces. -/
  malformed (text rest : Text.Scanned) (document : Document)
    (hbody : Text.Utf8.read request.body = text ++ rest) (htext : document.IsText text)
    (hrest : ¬Json.AreSpaces rest) : ¬request.IsWellFormed

/-- A body without a document is refused. -/
theorem refused_of_not_posted {request : Request} (h : request.PostsJson)
    (hposted : request.posted? = none) (engine : Engine σ) : Refused request engine := by
  have hbody : request.document? = none := by
    rwa [Request.posted?, if_pos ⟨h.method, h.path⟩] at hposted
  have hrespond :
      respond request engine = ((Answer.undecodable "validation").response, engine) := by
    simp [respond, answer, ofPath?_eq_index_iff.mpr h.path, h.method, answerIndex, hbody,
      Answer.response]
  refine ⟨?_, ?_, ?_⟩
  · rw [hrespond]
    rfl
  · rw [hrespond, Answer.error_response_undecodable]
  · rw [hrespond]

/-- A document is refused just when its tokens are. -/
theorem refused_iff_of_posted {request : Request} {document : Document}
    (h : request.posted? = some document) (engine : Engine σ) :
    Refused request engine ↔ ∃ fault, checkTokens document.tokens = .error fault := by
  have hhandled := handled_respond h engine
  constructor
  · rintro ⟨hstatus, hkind, -⟩
    exact hhandled.refused.mp ⟨hstatus, hkind⟩
  · intro hfault
    obtain ⟨hstatus, hkind⟩ := hhandled.refused.mpr hfault
    exact ⟨hstatus, hkind, hhandled.unchanged hfault⟩

/-- Every body that is posted as JSON is refused or has the document at its front indexed, for
every engine, over any store. -/
theorem treated_of_postsJson {request : Request} (h : request.PostsJson) (engine : Engine σ) :
    Treated request engine := by
  refine ⟨?_, ?_, fun _ _ _ => Request.not_isWellFormed⟩
  · cases hposted : request.posted? with
    | none =>
      refine iff_of_true (refused_of_not_posted h hposted engine) ?_
      by_cases hfits : request.body.length ≤ bodyLimit
      · refine .inr fun document hdocument => ?_
        cases hposted.symm.trans (Request.posted?_eq_some_iff.mpr ⟨h, hfits, hdocument⟩)
      · exact .inl (Nat.lt_of_not_le hfits)
    | some document =>
      obtain ⟨-, hfits, hdocument⟩ := Request.posted?_eq_some_iff.mp hposted
      rw [refused_iff_of_posted hposted]
      constructor
      · intro hfault
        refine .inr fun other hother => ?_
        obtain rfl : document = other := Option.some.inj
          (hposted.symm.trans (Request.posted?_eq_some_iff.mpr ⟨h, hfits, hother⟩))
        exact hfault
      · rintro (hlong | hall)
        · omega
        · exact hall document hdocument
  · intro document hdocument hfits
    exact respond_of_posted (Request.posted?_eq_some_iff.mpr ⟨h, hfits, hdocument⟩) engine

/-- An array of the values of a document, with a letter behind it, for a store that fails. -/
theorem treated_of_postsJson_failing :
    let request : Request :=
      ⟨"POST", "/index", some "application/json", Text.Utf8.encode "[1,[\"cat\"]]x".toList⟩
    let store := Engine.ScriptedStore.mk [.error (.error (.encode 1 "bad record"))]
    let engine := Engine.mk .empty store
    request.PostsJson ∧ Treated request engine := by
  intro request store engine
  have hposts : request.PostsJson := ⟨rfl, by decide, by decide +kernel⟩
  exact ⟨hposts, treated_of_postsJson hposts engine⟩

/-- The text of a document with a word behind it is malformed, and yet the document is indexed. -/
theorem not_refused_of_word_behind :
    let request : Request := ⟨"POST", "/index", some "application/json",
      Text.Utf8.encode "\x7b\"id\":1,\"tokens\":[\"cat\"]\x7d dog".toList⟩
    let engine := Engine.mk .empty (MemoryStore.mk #[])
    request.PostsJson ∧ ¬request.IsWellFormed ∧ ¬Refused request engine ∧
      (respond request engine).1.status = 200 ∧
      (respond request engine).2.index.contains "cat" 1 = true := by
  intro request engine
  let document : Document := ⟨1, ["cat"]⟩
  have hposts : request.PostsJson := ⟨rfl, by decide, by decide +kernel⟩
  have htext : document.IsText (document.record.toList.map some) :=
    ⟨_, document.compact_record.isText, document.ofJson?_members⟩
  have hbody : Text.Utf8.read request.body =
      document.record.toList.map some ++ " dog".toList.map some := by
    rw [Text.Utf8.read_encode, ← List.map_append]
    decide
  have hrest : ¬Json.AreSpaces (" dog".toList.map some) := by
    unfold Json.AreSpaces
    decide
  have hposted : request.posted? = some document :=
    Request.posted?_eq_some_iff.mpr ⟨hposts, by decide, _, _, hbody, htext⟩
  have hrespond := respond_of_posted hposted engine
  have hstatus : (respond request engine).1.status = 200 := by
    rw [hrespond]
    decide +kernel
  refine ⟨hposts, Request.not_isWellFormed hbody htext hrest, ?_, hstatus, ?_⟩
  · intro hrefused
    cases hstatus.symm.trans hrefused.status
  · rw [hrespond]
    decide +kernel

end Http

end TokenSearch
