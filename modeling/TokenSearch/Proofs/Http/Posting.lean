import TokenSearch.Proofs.IndexLine
import TokenSearch.Proofs.Replay

/-!
# Three ways to index

A document can be handed to an engine by a call, by a command line and by a posted request. The line
is read back as the id and the words that it was made from, and the request as the document in its
body, so that all three come to the same call: the engine is left alike, its store receives the same
documents, and the reply and the response tell the result of the call.
-/

namespace TokenSearch

/-- The reply that tells the result of an indexing call. -/
def Reply.ofCall : Except EngineFault DocId → Reply
  | .ok id => .indexed id
  | .error fault => .indexFailed fault.message

/-- The request that posts the record of a document. -/
def Http.Request.posting (document : Document) : Request :=
  ⟨"POST", "/index", some "application/json", Text.Utf8.encode document.record.toList⟩

/-- A record is sent when its size is within the limit. -/
theorem Http.Request.sends_posting {document : Document}
    (h : (posting document).body.length ≤ bodyLimit) : (posting document).Sends document := by
  have hpath : pathOf "/index" = "/index" := by decide
  have hjson : MediaType.isJson "application/json" = true := by decide +kernel
  exact ⟨rfl, hpath, hjson, rfl, h⟩

namespace Engine

variable {σ : Type} [DocumentStore σ]

/-- A line with an id and words does what the call with these does. -/
theorem execute_indexLine {words : List String} (h : ∀ word ∈ words, Text.IsWord word)
    (id : DocId) (engine : Engine σ) :
    engine.execute (Command.indexLine id words) =
      (.ofCall (engine.indexDocument id words).1, (engine.indexDocument id words).2) := by
  simp only [execute, Command.parse_indexLine h, indexDocument]
  cases checkTokens words with
  | error fault => rfl
  | ok tokens =>
    rcases hrecord : engine.record ⟨id, tokens⟩ with ⟨fault | done, after⟩
    all_goals
      simp only [hrecord]
      rfl

/-- A successful call returns the id that it was given. -/
theorem eq_of_indexDocument_ok {engine : Engine σ} {id found : DocId} {words : List String}
    (h : (engine.indexDocument id words).1 = .ok found) : found = id := by
  rw [indexDocument] at h
  split at h
  · cases h
  · split at h
    · exact (Except.ok.inj h).symm
    · cases h

/-- What decides the result of an indexing call. -/
structure Decided (engine : Engine σ) (id : DocId) (words : List String) : Prop where
  /-- The first word that is no token is at fault, and nothing changes. -/
  notToken (before after : List String) (word : String) (hsplit : words = before ++ word :: after)
    (hbefore : ∀ earlier ∈ before, isToken earlier = true) (hword : isToken word = false) :
    engine.indexDocument id words = (.error (.document (.notAlphanumeric word)), engine)
  /-- Without words their lack is, and nothing changes. -/
  missing (hwords : words = []) :
    engine.indexDocument id words = (.error (.document .missingTokens), engine)
  /-- Tokens are indexed, and the store decides at its one call. -/
  stored (hwords : words ≠ []) (htokens : ∀ word ∈ words, isToken word = true) :
    (engine.indexDocument id words).1 =
        (match (DocumentStore.persist ⟨id, words⟩ engine.store).1 with
        | .ok () => .ok id
        | .error fault => .error (.ofStoreFault fault)) ∧
      (engine.indexDocument id words).2 = (engine.record ⟨id, words⟩).2

theorem decided (engine : Engine σ) (id : DocId) (words : List String) :
    engine.Decided id words where
  notToken before after word hsplit hbefore hword := by
    rw [indexDocument, hsplit, checkTokens_of_first hbefore hword]
  missing hwords := by
    rw [indexDocument, hwords]
    rfl
  stored hwords htokens := by
    have hchecked : checkTokens (Document.mk id words).tokens = .ok (Document.mk id words).tokens :=
      checkTokens_eq_ok_iff.2 ⟨rfl, hwords, htokens⟩
    have hcall := Http.indexDocument_of_checked hchecked engine
    exact ⟨congrArg Prod.fst hcall, congrArg Prod.snd hcall⟩

/-- A line and a request that give an id and words do what the call with these does, and tell its
result. -/
structure IndexedAlike (engine : Engine σ) (id : DocId) (words : List String)
    (request : Http.Request) : Prop where
  executed : (engine.execute (Command.indexLine id words)).2 = (engine.indexDocument id words).2
  responded : (Http.respond request engine).2 = (engine.indexDocument id words).2
  /-- The store receives the same calls. -/
  calls : (engine.logged.execute (Command.indexLine id words)).2.store.calls =
      (engine.logged.indexDocument id words).2.store.calls ∧
    (Http.respond request engine.logged).2.store.calls =
      (engine.logged.indexDocument id words).2.store.calls
  /-- Where the call succeeds, the line names the id as indexed, and so does the request. -/
  indexed (found : DocId) (h : (engine.indexDocument id words).1 = .ok found) :
    found = id ∧ (engine.execute (Command.indexLine id words)).1 = .indexed id ∧
      (Http.respond request engine).1.status = 200 ∧
      (Http.respond request engine).1.id? = some id
  /-- Where the call has a fault, the line reports it in the same words, and so does the request,
  which does not tell the words of a breakdown. -/
  fault (fault : EngineFault) (h : (engine.indexDocument id words).1 = .error fault) :
    (engine.execute (Command.indexLine id words)).1 = .indexFailed fault.message ∧
      (Http.respond request engine).1.status ≠ 200 ∧
      (Http.respond request engine).1.text? "error" = some fault.kind ∧
      (fault ≠ .crash → (Http.respond request engine).1.text? "message" = some fault.message)

/-- Whatever request posts the document, the three ways to index it agree. -/
theorem indexedAlike_of_posted {id : DocId} {words : List String}
    (hwords : ∀ word ∈ words, Text.IsWord word) {request : Http.Request}
    (h : request.posted? = some ⟨id, words⟩) (engine : Engine σ) :
    engine.IndexedAlike id words request := by
  refine ⟨?_, ?_, ⟨?_, ?_⟩, ?_, ?_⟩
  · rw [execute_indexLine hwords]
  · rw [Http.respond_of_posted h]
  · rw [execute_indexLine hwords]
  · rw [Http.respond_of_posted h]
  · intro found hfound
    obtain rfl := eq_of_indexDocument_ok hfound
    rw [execute_indexLine hwords, Http.respond_of_posted h, hfound]
    exact ⟨rfl, rfl, rfl, Http.Answer.id?_response_indexed _⟩
  · intro fault hfault
    rw [execute_indexLine hwords, Http.respond_of_posted h, hfault]
    refine ⟨rfl, ?_, Http.Answer.error_response_failed fault, Http.Answer.message_response_failed⟩
    cases fault <;> simp [Http.Answer.ofIndexing, Http.Answer.response, Http.Answer.status]

/-- For every engine, over any store, every id and any words, whether or not they are tokens, the
three ways to index agree. A request with the record can be made unless the record is too long. -/
theorem indexed_alike (engine : Engine σ) (id : DocId) {words : List String}
    (hwords : ∀ word ∈ words, Text.IsWord word) :
    engine.Decided id words ∧
      ((Http.Request.posting ⟨id, words⟩).body.length ≤ Http.bodyLimit →
        (Http.Request.posting ⟨id, words⟩).Sends ⟨id, words⟩) ∧
      ∀ request : Http.Request, request.Sends ⟨id, words⟩ →
        engine.IndexedAlike id words request := by
  refine ⟨decided engine id words, Http.Request.sends_posting, ?_⟩
  intro request hsends
  exact indexedAlike_of_posted hwords hsends.posted? engine

/-- The least id, with tokens for a store that fails and with a word that is no token. -/
theorem indexed_alike_least :
    let engine := Engine.mk .empty (ScriptedStore.mk [.error (.error (.encode 3 "bad record"))])
    let tokens : Document := ⟨-2147483648, ["été", "2"]⟩
    let others : Document := ⟨-2147483648, ["été", "2-3", "?"]⟩
    (engine.indexDocument tokens.id tokens.tokens).1 =
        .error (.store (.encode 3 "bad record")) ∧
      engine.IndexedAlike tokens.id tokens.tokens (.posting tokens) ∧
      (engine.indexDocument others.id others.tokens).1 =
        .error (.document (.notAlphanumeric "2-3")) ∧
      engine.IndexedAlike others.id others.tokens (.posting others) := by
  intro engine tokens others
  have htokens : ∀ word ∈ tokens.tokens, Text.IsWord word := by decide +kernel
  have hothers : ∀ word ∈ others.tokens, Text.IsWord word := by decide +kernel
  obtain ⟨-, hposting, halike⟩ := indexed_alike engine tokens.id htokens
  obtain ⟨-, hposting', halike'⟩ := indexed_alike engine others.id hothers
  exact ⟨by decide +kernel, halike _ (hposting (by decide +kernel)), by decide +kernel,
    halike' _ (hposting' (by decide +kernel))⟩

end Engine

end TokenSearch
