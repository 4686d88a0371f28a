import TokenSearch.Proofs.Http.Service
import TokenSearch.Proofs.StoreLedger

/-!
# Replaying the records of a store

The documents that a store has kept are enough to build an index again. The order does not matter,
nor how often a document is replayed, for an index depends on its pairs alone. What is missing from
the new index are the pairs that only documents have which the store failed to keep. The records
can be replayed directly or by posting their texts to a new service, which reads each of them as
the document that it is the record of.
-/

namespace TokenSearch

/-- A document makes an index have a pair of a token and an id. -/
def Document.HasPair (document : Document) (token : Token) (d : DocId) : Prop :=
  document.id = d ∧ token ∈ document.tokens

namespace Index

/-- An index of documents has just the pairs of the documents. -/
theorem contains_addDocuments_empty {documents : List Document} {token : Token} {d : DocId} :
    (empty.addDocuments documents).contains token d = true ↔
      ∃ document ∈ documents, document.HasPair token d := by
  rw [contains_addDocuments, contains_empty, Bool.or_false, List.any_eq_true]
  simp [Document.HasPair]

/-- Indexes with the same pairs have the same postings. -/
theorem postings_eq_of_contains {index other : Index} {token : Token}
    (h : ∀ d, index.contains token d = true ↔ other.contains token d = true) :
    index.postings token = other.postings token := by
  refine Std.ExtTreeSet.ext_mem fun d => ?_
  rw [← contains_iff, ← contains_iff, h]

/-- Indexes with the same postings answer every query alike. -/
theorem search_eq_of_postings {index other : Index}
    (h : ∀ token, index.postings token = other.postings token) (query : String) :
    index.search query = other.search query := by
  have hevaluate (form : NormalForm) : index.evaluate form = other.evaluate form := by
    refine Std.ExtTreeSet.ext_mem fun d => ?_
    simp only [mem_evaluate, h]
  simp only [search, hevaluate]

end Index

/-- The documents of the calls that have succeeded. -/
def kept (calls : List StoreCall) : List Document :=
  (calls.filter fun call => call.result.isOk).map StoreCall.document

/-- A document is kept when some call for it has succeeded. -/
theorem mem_kept_iff {calls : List StoreCall} {document : Document} :
    document ∈ kept calls ↔ ∃ call ∈ calls, call.result = .ok () ∧ call.document = document := by
  have hok (call : StoreCall) : call.result.isOk = true ↔ call.result = .ok () := by
    cases call.result <;> simp [Except.isOk, Except.toBool]
  simp [kept, hok, and_assoc]

/-- An index has the pairs of another one as far as the calls of a store have succeeded. -/
structure Recovers (calls : List StoreCall) (index recovered : Index) : Prop where
  /-- No other pairs are found. -/
  sound (token : Token) (d : DocId) (h : recovered.contains token d = true) :
    index.contains token d = true
  /-- The pairs missed are those that occur in documents of failed calls only. -/
  missed (token : Token) (d : DocId) :
    index.contains token d = true ∧ recovered.contains token d = false ↔
      (∃ call ∈ calls, call.document.HasPair token d) ∧
        ∀ call ∈ calls, call.document.HasPair token d → call.result ≠ .ok ()
  /-- When no call has failed, the postings are the same. -/
  postings (h : ∀ call ∈ calls, call.result = .ok ()) (token : Token) :
    recovered.postings token = index.postings token
  /-- Then every query is answered alike. -/
  search (h : ∀ call ∈ calls, call.result = .ok ()) (query : String) :
    recovered.search query = index.search query

/-- The kept documents recover the index of all documents, in whatever order and however often each
of them is taken. -/
theorem recovers_addDocuments {calls : List StoreCall} {replay : List Document}
    (hall : kept calls ⊆ replay) (honly : replay ⊆ kept calls) :
    Recovers calls (Index.empty.addDocuments (calls.map StoreCall.document))
      (Index.empty.addDocuments replay) := by
  have hindex (token : Token) (d : DocId) :
      (Index.empty.addDocuments (calls.map StoreCall.document)).contains token d = true ↔
        ∃ call ∈ calls, call.document.HasPair token d := by
    simp [Index.contains_addDocuments_empty]
  have hrecovered (token : Token) (d : DocId) :
      (Index.empty.addDocuments replay).contains token d = true ↔
        ∃ call ∈ calls, call.result = .ok () ∧ call.document.HasPair token d := by
    rw [Index.contains_addDocuments_empty]
    constructor
    · rintro ⟨document, hdocument, hpair⟩
      obtain ⟨call, hcall, hok, rfl⟩ := mem_kept_iff.1 (honly hdocument)
      exact ⟨call, hcall, hok, hpair⟩
    · rintro ⟨call, hcall, hok, hpair⟩
      exact ⟨call.document, hall (mem_kept_iff.2 ⟨call, hcall, hok, rfl⟩), hpair⟩
  have hpostings (h : ∀ call ∈ calls, call.result = .ok ()) (token : Token) :
      (Index.empty.addDocuments replay).postings token =
        (Index.empty.addDocuments (calls.map StoreCall.document)).postings token := by
    refine Index.postings_eq_of_contains fun d => ?_
    rw [hrecovered, hindex]
    constructor
    · rintro ⟨call, hcall, -, hpair⟩
      exact ⟨call, hcall, hpair⟩
    · rintro ⟨call, hcall, hpair⟩
      exact ⟨call, hcall, h call hcall, hpair⟩
  refine ⟨fun token d h => ?_, fun token d => ?_, hpostings, fun h query => ?_⟩
  · obtain ⟨call, hcall, -, hpair⟩ := (hrecovered token d).1 h
    exact (hindex token d).2 ⟨call, hcall, hpair⟩
  · rw [hindex, ← Bool.not_eq_true, hrecovered]
    refine and_congr_right fun _ => ?_
    constructor
    · intro hnone call hcall hpair hok
      exact hnone ⟨call, hcall, hok, hpair⟩
    · rintro hfailed ⟨call, hcall, hok, hpair⟩
      exact hfailed call hcall hpair hok
  · exact Index.search_eq_of_postings (hpostings h) query

/-- A requested document has tokens that are accepted. -/
theorem Operation.Requests.checkTokens {operation : Operation} {document : Document}
    (h : operation.Requests document) :
    TokenSearch.checkTokens document.tokens = .ok document.tokens :=
  checkTokens_eq_ok_iff.2 ⟨rfl, h.tokens⟩

namespace Http

/-- A request posts the text of a record. -/
structure Request.Sends (request : Request) (document : Document) : Prop where
  method : request.method = "POST"
  path : pathOf request.uri = "/index"
  contentType : request.contentType.any MediaType.isJson = true
  body : request.body = Text.Utf8.encode document.record.toList
  fits : request.body.length ≤ bodyLimit

/-- What is posted as a record is the document that it is the record of. -/
theorem Request.Sends.posted? {request : Request} {document : Document}
    (h : request.Sends document) : request.posted? = some document := by
  have hfits := h.fits
  rw [h.body] at hfits
  rw [Request.posted?, if_pos ⟨h.method, h.path⟩, Request.document?, h.contentType, h.body]
  simp only [hfits, decide_true, Bool.and_self, if_true]
  exact document.leading?_encode_record

/-- A service in memory answers the records of accepted documents with their ids, and indexes the
documents. -/
theorem serve_of_sends {replay : List Document} {requests : List Request}
    (hsends : List.Forall₂ (fun document request => request.Sends document) replay requests)
    (hchecked : ∀ document ∈ replay, checkTokens document.tokens = .ok document.tokens)
    (engine : Engine MemoryStore) :
    (serve engine requests).1 = replay.map (fun document => (Answer.indexed document.id).response) ∧
      (serve engine requests).2.index = engine.index.addDocuments replay := by
  induction hsends generalizing engine with
  | nil => exact ⟨rfl, rfl⟩
  | @cons document request replay requests hsends _ ih =>
    obtain ⟨hdocument, hreplay⟩ := List.forall_mem_cons.1 hchecked
    have hrespond : respond request engine =
        ((Answer.indexed document.id).response, (engine.record document).2) := by
      rw [respond_of_posted hsends.posted?, indexDocument_of_checked hdocument]
      rfl
    obtain ⟨hresponses, hindex⟩ := ih hreplay (engine.record document).2
    rw [serve_cons, hrespond, hresponses, hindex]
    exact ⟨rfl, rfl⟩

end Http

namespace Engine

variable {σ : Type} [DocumentStore σ]

/-- A run from the start over a store that writes down its calls. -/
def runLogged (store : σ) (operations : List Operation) : List Outcome × Engine (Ledger σ) :=
  (Engine.mk .empty (Ledger.mk store [])).run operations

/-- The calls written down are those of the operations, and their documents make the index. -/
theorem recounts_runLogged (store : σ) (operations : List Operation) :
    Recounts operations (runLogged store operations).1 (runLogged store operations).2.store.calls ∧
      (runLogged store operations).2.index = Index.empty.addDocuments
        ((runLogged store operations).2.store.calls.map StoreCall.document) := by
  obtain ⟨calls, hcalls, hrecounts⟩ :=
    recounts_run operations (Engine.mk .empty (Ledger.mk store []))
  rw [List.nil_append, ← runLogged] at hcalls
  rw [hcalls, hrecounts.documents]
  exact ⟨hrecounts, index_run operations (Engine.mk .empty (Ledger.mk store []))⟩

/-- In every run from the start, whichever calls of the store fail, the calls are those of the
requests of the run, and the documents kept recover the index of the engine, in whatever order they
are replayed and each of them once or more. So they do when their records are posted to a new
service in memory: what was kept had been accepted, and the service accepts it too. -/
theorem run_recovers (store : σ) (operations : List Operation) (replay : List Document)
    (hall : kept (runLogged store operations).2.store.calls ⊆ replay)
    (honly : replay ⊆ kept (runLogged store operations).2.store.calls) :
    Recounts operations (runLogged store operations).1 (runLogged store operations).2.store.calls ∧
      Recovers (runLogged store operations).2.store.calls (runLogged store operations).2.index
        (Index.empty.addDocuments replay) ∧
      ∀ requests : List Http.Request,
        List.Forall₂ (fun document request => request.Sends document) replay requests →
          let (responses, service) := Http.serve (Engine.mk .empty (MemoryStore.mk #[])) requests
          (∀ response ∈ responses, response.status = 200) ∧
            Recovers (runLogged store operations).2.store.calls
              (runLogged store operations).2.index service.index := by
  obtain ⟨hrecounts, hindex⟩ := recounts_runLogged store operations
  have hrecovers := recovers_addDocuments hall honly
  rw [← hindex] at hrecovers
  refine ⟨hrecounts, hrecovers, fun requests hsends => ?_⟩
  have hchecked : ∀ document ∈ replay, checkTokens document.tokens = .ok document.tokens := by
    intro document hdocument
    obtain ⟨call, hcall, -, rfl⟩ := mem_kept_iff.1 (honly hdocument)
    have haccepted : call.document ∈ accepted operations := by
      rw [← hrecounts.documents]
      exact List.mem_map_of_mem hcall
    obtain ⟨operation, -, hrequest⟩ := List.mem_filterMap.1 haccepted
    exact (Operation.requests_iff.2 hrequest).checkTokens
  obtain ⟨hresponses, hservice⟩ :=
    Http.serve_of_sends hsends hchecked (Engine.mk .empty (MemoryStore.mk #[]))
  refine ⟨fun response hresponse => ?_, by rwa [hservice]⟩
  rw [hresponses] at hresponse
  obtain ⟨document, -, rfl⟩ := List.mem_map.1 hresponse
  rfl

/-- Two of three documents are kept, and their records are posted the other way round, one of them
twice. -/
theorem run_recovers_reversed :
    let store := ScriptedStore.mk [.ok (), .error .crash, .ok ()]
    let operations := [.execute "index 1 cat dog", .index 2 ["cat"], .query "cat",
      .execute "index 3 fox cat fox"]
    let replay : List Document := [⟨3, ["fox", "cat", "fox"]⟩, ⟨1, ["cat", "dog"]⟩,
      ⟨3, ["fox", "cat", "fox"]⟩]
    let requests := replay.map fun document =>
      Http.Request.mk "POST" "/index" (some "application/json; charset=utf-8")
        (Text.Utf8.encode document.record.toList)
    let calls := (runLogged store operations).2.store.calls
    kept calls ⊆ replay ∧ replay ⊆ kept calls ∧
      List.Forall₂ (fun document request => Http.Request.Sends request document) replay requests ∧
      Recovers calls (runLogged store operations).2.index
        (Http.serve (Engine.mk .empty (MemoryStore.mk #[])) requests).2.index := by
  intro store operations replay requests calls
  have hall : kept calls ⊆ replay := by decide +kernel
  have honly : replay ⊆ kept calls := by decide +kernel
  have hsends : List.Forall₂ (fun document request => Http.Request.Sends request document) replay
      requests := by
    refine .cons ?_ (.cons ?_ (.cons ?_ .nil)) <;>
      exact ⟨rfl, by decide, by decide +kernel, rfl, by decide +kernel⟩
  exact ⟨hall, honly, hsends,
    ((run_recovers store operations replay hall honly).2.2 requests hsends).2⟩

end Engine

end TokenSearch
