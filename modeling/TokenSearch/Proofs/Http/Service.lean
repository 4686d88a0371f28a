import TokenSearch.Proofs.Commands
import TokenSearch.Proofs.Http.Lookup
import TokenSearch.Proofs.Http.Posts

/-!
# The service as a run of its engine

The requests that one service answers come to a run of the engine: each document that is posted is
one indexing call, in the order of the requests, and no other request makes a call. The response to
a document tells what became of its call. When the store fails or breaks down, the document is
indexed all the same, and every later request is answered as by any engine with this index.
-/

namespace TokenSearch

namespace Http

/-- The answer to a posted document. -/
def Answer.ofIndexing : Except EngineFault DocId → Answer
  | .ok id => .indexed id
  | .error fault => .failed fault

variable {σ : Type} [DocumentStore σ]

/-- Respond to requests one after another. -/
def serve (engine : Engine σ) : List Request → List Response × Engine σ
  | [] => ([], engine)
  | request :: requests =>
    let (response, engine) := respond request engine
    let (responses, engine) := serve engine requests
    (response :: responses, engine)

/-- A response carries the answer to the request. -/
theorem respond_eq (request : Request) (engine : Engine σ) :
    respond request engine =
      (⟨(answer request engine).1.status,
        if request.method = "HEAD" then "" else (answer request engine).1.body⟩,
        (answer request engine).2) := by
  rw [respond]

/-- The first request is responded to, and the others by the engine that it has left. -/
theorem serve_cons (request : Request) (requests : List Request) (engine : Engine σ) :
    serve engine (request :: requests) =
      ((respond request engine).1 :: (serve (respond request engine).2 requests).1,
        (serve (respond request engine).2 requests).2) := by
  rw [serve]

/-- The resource for documents has one path. -/
theorem ofPath?_eq_index_iff {path : String} :
    Resource.ofPath? path = some .index ↔ path = "/index" := by
  unfold Resource.ofPath?
  split <;> simp_all

/-- A posted document is handed to the engine, and the response tells what became of it. -/
theorem respond_of_posted {request : Request} {document : Document}
    (h : request.posted? = some document) (engine : Engine σ) :
    respond request engine =
      ((Answer.ofIndexing (engine.indexDocument document.id document.tokens).1).response,
        (engine.indexDocument document.id document.tokens).2) := by
  rw [Request.posted?] at h
  split at h
  · rename_i hpost
    have hanswer : answerIndex request engine =
        (Answer.ofIndexing (engine.indexDocument document.id document.tokens).1,
          (engine.indexDocument document.id document.tokens).2) := by
      rcases hcall : engine.indexDocument document.id document.tokens with ⟨fault | id, after⟩
      · simp only [answerIndex, h, hcall, Answer.ofIndexing]
      · simp only [answerIndex, h, hcall, Answer.ofIndexing]
    simp [respond, answer, ofPath?_eq_index_iff.2 hpost.2, hpost.1, hanswer, Answer.response]
  · cases h

/-- A request that posts no document leaves the engine as it is, and its answer depends on the index
alone. -/
theorem answer_of_not_posted {τ : Type} [DocumentStore τ] {request : Request}
    (h : request.posted? = none) (engine : Engine σ) (store : τ) :
    (answer request engine).2 = engine ∧
      (answer request (Engine.mk engine.index store)).1 = (answer request engine).1 := by
  cases hresource : Resource.ofPath? (pathOf request.uri) with
  | none => simp [answer, hresource]
  | some resource =>
    cases resource with
    | health => simp [answer, hresource]
    | query => simp [answer, hresource, answerQuery, Engine.query]
    | index =>
      by_cases hmethod : request.method = "POST"
      · have hbody : request.document? = none := by
          rwa [Request.posted?, if_pos ⟨hmethod, ofPath?_eq_index_iff.1 hresource⟩] at h
        simp [answer, hresource, hmethod, answerIndex, hbody]
      · simp [answer, hresource, hmethod]

/-- A request makes the call that it makes, and no other. -/
theorem engine_respond (request : Request) (engine : Engine σ) :
    (respond request engine).2 = (engine.run request.call?.toList).2 := by
  cases hposted : request.posted? with
  | none =>
    rw [respond_eq, (answer_of_not_posted hposted engine engine.store).1, Request.call?, hposted]
    rfl
  | some document =>
    rw [respond_of_posted hposted, Request.call?, hposted]
    simp only [Option.map_some, Option.toList_some, Engine.run, Engine.perform]

/-- Requests come to the run of their calls. -/
theorem engine_serve (requests : List Request) (engine : Engine σ) :
    (serve engine requests).2 = (engine.run (calls requests)).2 := by
  induction requests generalizing engine with
  | nil => rfl
  | cons request requests ih =>
    have hcalls : calls (request :: requests) = request.call?.toList ++ calls requests := by
      rw [calls, List.filterMap_cons, calls]
      cases request.call? <;> rfl
    rw [serve_cons, ih, engine_respond, hcalls, Engine.run_append]

/-- There is one response to each request. -/
theorem length_serve (requests : List Request) (engine : Engine σ) :
    (serve engine requests).1.length = requests.length := by
  induction requests generalizing engine with
  | nil => rfl
  | cons request requests ih =>
    rw [serve_cons, List.length_cons, ih, List.length_cons]

/-- Further requests find the engine that the requests before have left. -/
theorem serve_append (before after : List Request) (engine : Engine σ) :
    serve engine (before ++ after) =
      ((serve engine before).1 ++ (serve (serve engine before).2 after).1,
        (serve (serve engine before).2 after).2) := by
  induction before generalizing engine with
  | nil => rfl
  | cons request before ih =>
    rw [List.cons_append, serve_cons, ih, serve_cons, List.cons_append]

/-- The response to a request is the one that the engine reached by then gives. -/
theorem getElem?_serve (before : List Request) (request : Request) (after : List Request)
    (engine : Engine σ) :
    (serve engine (before ++ request :: after)).1[before.length]? =
      some (respond request (serve engine before).2).1 := by
  have hlength := length_serve before engine
  rw [serve_append, List.getElem?_append_right (by omega), hlength, Nat.sub_self, serve_cons,
    List.getElem?_cons_zero]

/-- The pairs after a run of requests are those before it and those of the posted documents. -/
theorem contains_serve (requests : List Request) (engine : Engine σ) (token : Token) (d : DocId) :
    (serve engine requests).2.index.contains token d =
      (indexedIn (calls requests) d token || engine.index.contains token d) := by
  rw [engine_serve, Engine.index_run, Index.contains_addDocuments]
  rfl

/-- A request that looks up a readable expression is answered with the ids for which the expression
holds, where a token is true of an id when a document posted by then has both. -/
theorem ids?_respond_serve {request : Request} {expression : String} {e : Expr}
    (hrequest : request.LooksUp expression) (hparse : Expr.parse expression = .ok e)
    (engine : Engine σ) (before : List Request) :
    (respond request (serve engine before).2).1.status = 200 ∧
      ∃ listed, (respond request (serve engine before).2).1.ids? = some listed ∧
        ∀ d, d ∈ listed ↔ e.holds (fun token =>
          indexedIn (calls before) d token || engine.index.contains token d) = true := by
  obtain ⟨ids, hsearch, hids⟩ := Index.search_of_parse hparse (serve engine before).2.index
  rw [respond_of_looksUp hrequest, Engine.query_eq_ok_iff.2 hsearch]
  refine ⟨rfl, ids.toList, Answer.ids?_response_found _ _, fun d => ?_⟩
  simp only [Std.ExtTreeSet.mem_toList, hids, contains_serve]

/-- What becomes of a document that is posted to an engine, and how the service responds. -/
structure Handled (engine : Engine σ) (document : Document) (response : Response)
    (next : Engine σ) : Prop where
  /-- The response is a success with the id of the document just when the call is one. -/
  created : response.status = 200 ∧ response.id? = some document.id ↔
    (engine.indexDocument document.id document.tokens).1 = .ok document.id
  /-- It is a validation fault just when the tokens are refused. -/
  refused : response.status = 400 ∧ response.text? "error" = some "validation" ↔
    ∃ fault, checkTokens document.tokens = .error fault
  /-- A refused document changes nothing. -/
  unchanged (h : ∃ fault, checkTokens document.tokens = .error fault) : next = engine
  /-- It is a persistence fault just when the store has an error. -/
  failed : response.status = 500 ∧ response.text? "error" = some "persistence" ↔
    checkTokens document.tokens = .ok document.tokens ∧
      ∃ error, (DocumentStore.persist document engine.store).1 = .error (.error error)
  /-- It is an internal fault just when the store breaks down. -/
  crashed : response.status = 500 ∧ response.text? "error" = some "internal" ↔
    checkTokens document.tokens = .ok document.tokens ∧
      (DocumentStore.persist document engine.store).1 = .error .crash
  /-- After a failure of the store every later request sees all the tokens of the document. -/
  visible (h : response.status = 500) (later : List Request) (lookup : Request)
    (expression : String) (e : Expr) (hlookup : lookup.LooksUp expression)
    (hparse : Expr.parse expression = .ok e) :
    ∃ listed, (respond lookup (serve next later).2).1.ids? = some listed ∧
      (document.id ∈ listed ↔ e.holds (fun token =>
        document.tokens.contains token || engine.index.contains token document.id ||
          indexedIn (calls later) document.id token) = true)

/-- A document whose tokens are accepted is recorded, and the result of the store decides the
call. -/
theorem indexDocument_of_checked {document : Document}
    (h : checkTokens document.tokens = .ok document.tokens) (engine : Engine σ) :
    engine.indexDocument document.id document.tokens =
      (match (DocumentStore.persist document engine.store).1 with
        | .ok () => .ok document.id
        | .error fault => .error (.ofStoreFault fault), (engine.record document).2) := by
  simp only [Engine.indexDocument, h, Engine.record]
  rcases DocumentStore.persist document engine.store with ⟨fault | done, store⟩ <;> rfl

/-- A recorded document is seen by every later request. -/
theorem ids?_respond_record (document : Document) (engine : Engine σ) (later : List Request)
    {lookup : Request} {expression : String} {e : Expr} (hlookup : lookup.LooksUp expression)
    (hparse : Expr.parse expression = .ok e) :
    ∃ listed, (respond lookup (serve (engine.record document).2 later).2).1.ids? = some listed ∧
      (document.id ∈ listed ↔ e.holds (fun token =>
        document.tokens.contains token || engine.index.contains token document.id ||
          indexedIn (calls later) document.id token) = true) := by
  obtain ⟨-, listed, hlisted, hids⟩ :=
    ids?_respond_serve hlookup hparse (engine.record document).2 later
  refine ⟨listed, hlisted, ?_⟩
  have hcontains (token : Token) :
      (engine.record document).2.index.contains token document.id =
        (document.tokens.contains token || engine.index.contains token document.id) := by
    rw [Engine.record, Index.contains_addDocument, beq_self_eq_true, Bool.true_and]
  simp only [hids, hcontains, Bool.or_comm (indexedIn _ _ _)]

/-- Every posted document is handled: its call is refused before the store is used, or the store
decides it in one of three ways. -/
theorem handled_respond {request : Request} {document : Document}
    (h : request.posted? = some document) (engine : Engine σ) :
    Handled engine document (respond request engine).1 (respond request engine).2 := by
  rw [respond_of_posted h]
  cases hchecked : checkTokens document.tokens with
  | error fault =>
    have hcall : engine.indexDocument document.id document.tokens =
        (.error (.document fault), engine) := by
      simp only [Engine.indexDocument, hchecked]
    have hstatus : (Answer.failed (.document fault)).response.status = 400 := rfl
    have hkind := Answer.error_response_failed (.document fault)
    simp only [hcall, Answer.ofIndexing]
    constructor <;> simp [hcall, hstatus, hkind, hchecked, EngineFault.kind]
  | ok checked =>
    obtain ⟨rfl, -, -⟩ := checkTokens_eq_ok_iff.1 hchecked
    have hcall := indexDocument_of_checked hchecked engine
    have hvisible := ids?_respond_record document engine
    cases hpersist : (DocumentStore.persist document engine.store).1 with
    | ok done =>
      have hstatus : (Answer.indexed document.id).response.status = 200 := rfl
      have hid := Answer.id?_response_indexed document.id
      simp only [hpersist] at hcall
      simp only [hcall, Answer.ofIndexing]
      constructor <;> simp [hcall, hstatus, hid, hchecked, hpersist]
    | error fault =>
      simp only [hpersist] at hcall
      cases fault with
      | error error =>
        have hstatus : (Answer.failed (.store error)).response.status = 500 := rfl
        have hkind := Answer.error_response_failed (.store error)
        simp only [hcall, Answer.ofIndexing, EngineFault.ofStoreFault]
        refine ⟨?_, ?_, ?_, ?_, ?_, fun _ _ _ _ _ => hvisible _⟩ <;>
          simp [hcall, hstatus, hkind, hchecked, hpersist, EngineFault.kind]
      | crash =>
        have hstatus : (Answer.failed .crash).response.status = 500 := rfl
        have hkind := Answer.error_response_failed .crash
        simp only [hcall, Answer.ofIndexing, EngineFault.ofStoreFault]
        refine ⟨?_, ?_, ?_, ?_, ?_, fun _ _ _ _ _ => hvisible _⟩ <;>
          simp [hcall, hstatus, hkind, hchecked, hpersist, EngineFault.kind]

/-- What one request in a run of requests does, after the requests before it. -/
structure Served (engine : Engine σ) (before : List Request) (request : Request)
    (response : Response) : Prop where
  /-- A posted document is handled. -/
  posted (document : Document) (h : request.Posts document) :
    Handled (serve engine before).2 document response (serve engine (before ++ [request])).2
  /-- Any other request leaves the index and the store as they are. -/
  other (h : ∀ document, ¬request.Posts document) :
    (serve engine (before ++ [request])).2 = (serve engine before).2
  /-- Its response does not depend on what has become of the store. -/
  steady (h : ∀ document, ¬request.Posts document) {τ : Type} [DocumentStore τ] (store : τ) :
    response = (respond request (Engine.mk (serve engine before).2.index store)).1
  /-- An expression is looked up among all documents that were posted before. -/
  lookup (expression : String) (e : Expr) (h : request.LooksUp expression)
    (hparse : Expr.parse expression = .ok e) :
    response.status = 200 ∧ ∃ listed, response.ids? = some listed ∧
      ∀ d, d ∈ listed ↔ e.holds (fun token =>
        indexedIn (calls before) d token || engine.index.contains token d) = true

/-- The response of any engine is what a run of requests is served. -/
theorem served_respond (engine : Engine σ) (before : List Request) (request : Request) :
    Served engine before request (respond request (serve engine before).2).1 := by
  have hnext : (serve engine (before ++ [request])).2 =
      (respond request (serve engine before).2).2 := by
    rw [serve_append, serve_cons, serve]
  constructor
  · intro document h
    rw [hnext]
    exact handled_respond (Request.posted?_eq_some_iff.mpr h) _
  · intro h
    have hposted := Request.posted?_eq_none_iff.mpr h
    rw [hnext, respond_eq, (answer_of_not_posted hposted _ (serve engine before).2.store).1]
  · intro h τ _ store
    have hposted := Request.posted?_eq_none_iff.mpr h
    rw [respond_eq, respond_eq, (answer_of_not_posted hposted (serve engine before).2 store).2]
  · intro expression e h hparse
    exact ids?_respond_serve h hparse engine before

/-- Any requests to one engine, over any store, come to the run of the calls that they make, one for
each document that is posted, and each of them is served, whatever became of those before it. -/
theorem run_of_requests (engine : Engine σ) (requests : List Request) :
    (∀ operations, Make requests operations ↔ operations = calls requests) ∧
      (serve engine requests).2 = (engine.run (calls requests)).2 ∧
      (serve engine requests).1.length = requests.length ∧
      ∀ before request after, requests = before ++ request :: after →
        ∃ response, (serve engine requests).1[before.length]? = some response ∧
          Served engine before request response := by
  refine ⟨fun _ => make_iff, engine_serve requests engine, length_serve requests engine, ?_⟩
  rintro before request after rfl
  exact ⟨_, getElem?_serve before request after engine, served_respond engine before request⟩

/-- A document that is kept, a body that cannot be decoded, a document for which the store fails,
and a query after them. -/
theorem run_of_requests_failing_store :
    let post (body : String) : Request :=
      ⟨"POST", "/index", some "application/json", Text.Utf8.encode body.toList⟩
    let kept := post "\x7b\"id\":1,\"tokens\":[\"cat\"]\x7d"
    let undecodable := post "\x7b\"id\":2,\"tokens\":[\"cat\"]"
    let lost := post "\x7b\"id\":3,\"tokens\":[\"cat\"]\x7d"
    let lookup : Request := ⟨"GET", "/query?q=cat", none, []⟩
    let requests := [kept, undecodable, lost, lookup]
    let store := Engine.ScriptedStore.mk [.ok (), .error (.error (.encode 3 "bad record"))]
    let engine := Engine.mk .empty store
    let after (served : List Request) := (serve engine served).2
    kept.Posts ⟨1, ["cat"]⟩ ∧ (∀ document, ¬undecodable.Posts document) ∧
      lost.Posts ⟨3, ["cat"]⟩ ∧ Make requests [.index 1 ["cat"], .index 3 ["cat"]] ∧
      (serve engine requests).1.map Response.status = [200, 400, 500, 200] ∧
      (∃ response, (serve engine requests).1[0]? = some response ∧
        Handled engine ⟨1, ["cat"]⟩ response (after [kept])) ∧
      after [kept, undecodable] = after [kept] ∧
      (∃ response, (serve engine requests).1[2]? = some response ∧
        Handled (after [kept, undecodable]) ⟨3, ["cat"]⟩ response
          (after [kept, undecodable, lost])) ∧
      (serve engine requests).1[3]?.bind Response.ids? = some [1, 3] := by
  intro post kept undecodable lost lookup requests store engine after
  have hkept : kept.Posts ⟨1, ["cat"]⟩ := Request.posted?_eq_some_iff.mp (by decide +kernel)
  have hundecodable : ∀ document, ¬undecodable.Posts document :=
    Request.posted?_eq_none_iff.mp (by decide +kernel)
  have hlost : lost.Posts ⟨3, ["cat"]⟩ := Request.posted?_eq_some_iff.mp (by decide +kernel)
  obtain ⟨hmake, -, -, hserved⟩ := run_of_requests engine requests
  obtain ⟨first, hfirst, hservedFirst⟩ := hserved [] kept [undecodable, lost, lookup] rfl
  obtain ⟨second, -, hservedSecond⟩ := hserved [kept] undecodable [lost, lookup] rfl
  obtain ⟨third, hthird, hservedThird⟩ := hserved [kept, undecodable] lost [lookup] rfl
  refine ⟨hkept, hundecodable, hlost, (hmake _).mpr (by decide +kernel), by decide +kernel,
    ⟨first, hfirst, hservedFirst.posted _ hkept⟩, hservedSecond.other hundecodable,
    ⟨third, hthird, hservedThird.posted _ hlost⟩, by decide +kernel⟩

end Http

end TokenSearch
