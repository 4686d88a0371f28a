import TokenSearch.Proofs.Http.Body
import TokenSearch.Proofs.Http.Form
import TokenSearch.Proofs.TrailingBlanks

/-!
# Three ways to ask

An expression can be asked for directly, in a command line, and in the address of a request. All
three search the same index for the same expression: a line end behind the expression is dropped
but would make no difference, and the percent-encoding of an address is undone. So they find the
same ids or report the same fault, and none of them changes the engine.
-/

namespace TokenSearch

namespace Http

/-- The answer to a request for the ids of a query. -/
def Answer.ofQuery (query : String) : Except EngineFault IdSet → Answer
  | .ok ids => .found query ids
  | .error fault => .failed fault

variable {σ : Type} [DocumentStore σ]

/-- A request that looks up an expression is answered by a query. -/
theorem respond_of_looksUp {request : Request} {expression : String}
    (h : request.LooksUp expression) (engine : Engine σ) :
    respond request engine =
      ((Answer.ofQuery expression (engine.query expression)).response, engine) := by
  have hresource : Resource.ofPath? (pathOf request.uri) = some .query := by rw [h.path]; rfl
  have hanswer : answerQuery request engine =
      Answer.ofQuery expression (engine.query expression) := by
    simp only [answerQuery, h.field]
    cases engine.query expression <;> rfl
  simp [respond, answer, hresource, h.method, hanswer, Answer.response]

end Http

namespace Engine

/-- A query succeeds or fails as the search does. -/
theorem query_eq_ok_iff {σ : Type} {expression : String} {engine : Engine σ} {ids : IdSet} :
    engine.query expression = .ok ids ↔ engine.index.search expression = .ok ids := by
  rw [query]
  cases engine.index.search expression <;> simp

theorem query_eq_error_iff {σ : Type} {expression : String} {engine : Engine σ}
    {fault : EngineFault} :
    engine.query expression = .error fault ↔
      ∃ cause, engine.index.search expression = .error cause ∧ .parse cause = fault := by
  rw [query]
  cases engine.index.search expression <;> simp

variable {σ : Type} [DocumentStore σ]

/-- A command line with a query is answered by searching for the expression. -/
theorem execute_query (expression : String) (engine : Engine σ) :
    engine.execute ("query " ++ expression) =
      (.ofSearch (engine.index.search expression), engine) := by
  have hsearch : engine.index.search (String.ofList (Command.dropLineEnd expression.toList)) =
      engine.index.search expression := by
    rw [Index.search, Command.parse_dropLineEnd, ← Index.search]
  simp only [execute, Command.parse_query, hsearch]

/-- A line and a request that ask for the expression of a query say what the query says, and
leave the engine as it is. -/
structure AskedAlike (engine : Engine σ) (expression : String) (request : Http.Request) : Prop where
  executed : (engine.execute ("query " ++ expression)).2 = engine
  responded : (Http.respond request engine).2 = engine
  /-- Where a query finds ids, the line lists them, and so does the request. -/
  found (ids : IdSet) (h : engine.query expression = .ok ids) :
    (engine.execute ("query " ++ expression)).1 = .results ids ∧
      (Http.respond request engine).1.status = 200 ∧
      (Http.respond request engine).1.text? "query" = some expression ∧
      ∃ listed, (Http.respond request engine).1.ids? = some listed ∧ listed.Pairwise (· < ·) ∧
        (∀ d, d ∈ listed ↔ d ∈ ids) ∧ listed.length = ids.size ∧
        (Http.respond request engine).1.totalHits? = some (ids.size : Int)
  /-- Where a query has a fault, the line reports it in the same words, and so does the request. -/
  fault (fault : EngineFault) (h : engine.query expression = .error fault) :
    (engine.execute ("query " ++ expression)).1 = .queryFailed fault.message ∧
      (Http.respond request engine).1.status = 400 ∧
      (Http.respond request engine).1.text? "error" = some "parse" ∧
      (Http.respond request engine).1.text? "message" = some fault.message

/-- For every engine and every text, whether or not it is an expression and whatever line end is
behind it, the three ways to ask agree. A request for the text can be made, and it may be encoded
in any way. -/
theorem asked_alike (engine : Engine σ) (expression : String) :
    (∃ request : Http.Request, request.Asks expression) ∧
      ∀ request : Http.Request, request.Asks expression → engine.AskedAlike expression request := by
  refine ⟨Http.Request.exists_asks expression, fun request h => ⟨?_, ?_, ?_, ?_⟩⟩
  · rw [execute_query]
  · rw [Http.respond_of_looksUp h.looksUp]
  · intro ids hids
    rw [execute_query, Http.respond_of_looksUp h.looksUp, hids, query_eq_ok_iff.1 hids]
    refine ⟨rfl, rfl, Http.Answer.query_response_found _ _, ids.toList,
      Http.Answer.ids?_response_found _ _, pairwise_toList ids, fun d => Std.ExtTreeSet.mem_toList,
      Std.ExtTreeSet.length_toList, Http.Answer.totalHits?_response_found _ _⟩
  · intro fault hfault
    obtain ⟨cause, hsearch, rfl⟩ := query_eq_error_iff.1 hfault
    rw [execute_query, Http.respond_of_looksUp h.looksUp, hfault, hsearch]
    exact ⟨rfl, rfl, Http.Answer.error_response_failed _, Http.Answer.message_response_failed nofun⟩

/-- A query with a line end that lacks an operand: the position is the same for all three. -/
theorem asked_alike_line_end :
    let engine := Engine.mk (Index.empty.addDocument 1 ["a"]) (MemoryStore.mk #[])
    let request : Http.Request := ⟨"GET", "/query?q=a+%26%0D%0a", none, []⟩
    engine.query "a &\r\n" = .error (.parse (.missingOperand .and 2)) ∧
      request.Asks "a &\r\n" ∧ engine.AskedAlike "a &\r\n" request := by
  intro engine request
  have hasks : request.Asks "a &\r\n" := by
    refine ⟨rfl, "a+%26%0D%0a".toList, rfl, ?_⟩
    exact .plain (by decide) (by decide)
      (.space (.byte rfl rfl (.byte rfl rfl (.byte rfl rfl .nil))))
  exact ⟨by decide +kernel, hasks, (asked_alike engine "a &\r\n").2 request hasks⟩

end Engine

end TokenSearch
