import Mathlib.Control.Monad.Basic
import TokenSearch.Engine
import TokenSearch.Proofs.Search

/-!
# Runs of an engine

A run carries out any sequence of command lines, indexing requests and queries on one engine,
over any store. Each step either leaves the engine as it is or records one document, whatever
the store makes of it. So the index of a reached state holds the pairs of the accepted
documents of the run, and these decide the answer to every query.
-/

namespace TokenSearch

/-- What can be asked of an engine. -/
inductive Operation
  | execute (line : String)
  | index (id : DocId) (tokens : List String)
  | query (expression : String)
  deriving DecidableEq, Repr

/-- What an engine answers. -/
inductive Outcome
  | replied (reply : Reply)
  | indexed (result : Except EngineFault DocId)
  | found (result : Except EngineFault IdSet)

namespace Operation

/-- The document that an operation asks to index, if its command and its tokens are accepted. -/
def document? : Operation → Option Document
  | .execute line =>
    match Command.parse line with
    | .ok (.index document) => some document
    | _ => none
  | .index id tokens =>
    match checkTokens tokens with
    | .ok tokens => some ⟨id, tokens⟩
    | .error _ => none
  | .query _ => none

end Operation

/-- The documents that a run indexes, in order. -/
def accepted (operations : List Operation) : List Document :=
  operations.filterMap Operation.document?

/-- Whether some document that a run indexes has an id and contains a token. -/
def indexedIn (operations : List Operation) (id : DocId) (token : Token) : Bool :=
  (accepted operations).any fun document => document.id == id && document.tokens.contains token

/-- Index documents one after another. -/
def Index.addDocuments (index : Index) (documents : List Document) : Index :=
  documents.foldl (fun index document => index.addDocument document.id document.tokens) index

@[simp] theorem Index.contains_empty (token : Token) (d : DocId) :
    empty.contains token d = false := by
  rw [← Bool.not_eq_true, contains_iff, postings_empty]
  exact Std.ExtTreeSet.not_mem_empty

/-- Indexing a document adds the pairs of its id with its tokens and no others. -/
theorem Index.contains_addDocument (index : Index) (document : Document) (token : Token)
    (d : DocId) :
    (index.addDocument document.id document.tokens).contains token d =
      ((document.id == d && document.tokens.contains token) || index.contains token d) := by
  rw [Bool.eq_iff_iff, contains_iff, mem_postings_addDocument, Bool.or_eq_true, contains_iff,
    Bool.and_eq_true, beq_iff_eq, List.contains_iff_mem, and_comm, eq_comm]

/-- Indexing documents adds their pairs and no others. -/
theorem Index.contains_addDocuments (index : Index) (documents : List Document) (token : Token)
    (d : DocId) :
    (index.addDocuments documents).contains token d =
      (documents.any (fun document => document.id == d && document.tokens.contains token) ||
        index.contains token d) := by
  induction documents generalizing index with
  | nil => rfl
  | cons document documents ih =>
    have hrest := ih (index.addDocument document.id document.tokens)
    rw [contains_addDocument] at hrest
    rw [addDocuments, List.foldl_cons, ← addDocuments, hrest, List.any_cons, Bool.or_left_comm,
      Bool.or_assoc]

namespace Engine

variable {σ : Type} [DocumentStore σ]

/-- Carry out one operation. -/
def perform (operation : Operation) (engine : Engine σ) : Outcome × Engine σ :=
  match operation with
  | .execute line =>
    let (reply, engine) := engine.execute line
    (.replied reply, engine)
  | .index id tokens =>
    let (result, engine) := engine.indexDocument id tokens
    (.indexed result, engine)
  | .query expression => (.found (engine.query expression), engine)

/-- Carry out operations one after another. -/
def run (engine : Engine σ) : List Operation → List Outcome × Engine σ
  | [] => ([], engine)
  | operation :: operations =>
    let (outcome, engine) := engine.perform operation
    let (outcomes, engine) := run engine operations
    (outcome :: outcomes, engine)

/-- A run of further operations goes on where the run before ended. -/
theorem run_append (operations more : List Operation) (engine : Engine σ) :
    (engine.run (operations ++ more)).2 = ((engine.run operations).2.run more).2 := by
  induction operations generalizing engine with
  | nil => rfl
  | cons operation operations ih => exact ih (engine.perform operation).2

/-- An operation records the document that it asks to index, or leaves the engine as it is. -/
theorem perform_engine (operation : Operation) (engine : Engine σ) :
    (engine.perform operation).2 =
      match operation.document? with
      | some document => (engine.record document).2
      | none => engine := by
  cases operation with
  | execute line =>
    simp only [perform, execute, Operation.document?]
    cases Command.parse line with
    | error fault => rfl
    | ok command => cases command <;> rfl
  | index id tokens =>
    simp only [perform, indexDocument, Operation.document?]
    cases checkTokens tokens with
    | error fault => rfl
    | ok tokens =>
      rcases h : engine.record ⟨id, tokens⟩ with ⟨fault | done, after⟩
      all_goals simp only [h]
  | query expression => rfl

/-- The index after a run holds what the accepted documents add to it. -/
theorem index_run (operations : List Operation) (engine : Engine σ) :
    (engine.run operations).2.index = engine.index.addDocuments (accepted operations) := by
  induction operations generalizing engine with
  | nil => rfl
  | cons operation operations ih =>
    change ((engine.perform operation).2.run operations).2.index = _
    rw [ih, perform_engine, accepted, accepted, List.filterMap_cons]
    cases operation.document? <;> rfl

/-- From the start on, an id and a token are a pair when an accepted document has both. -/
theorem contains_run (store : σ) (operations : List Operation) (token : Token) (d : DocId) :
    ((Engine.mk .empty store).run operations).2.index.contains token d =
      indexedIn operations d token := by
  rw [index_run, Index.contains_addDocuments, Index.contains_empty, Bool.or_false]
  rfl

/-- After any run from the start, over any store, a query that can be read is answered with
exactly the ids for which its expression holds, where a token is true of an id when an accepted
indexing request of the run gave them both, persisted or not. -/
theorem query_run (store : σ) (operations : List Operation) {expression : String} {e : Expr}
    (h : Expr.parse expression = .ok e) :
    ∃ ids, ((Engine.mk .empty store).run operations).2.query expression = .ok ids ∧
      ∀ d, d ∈ ids ↔ e.holds (indexedIn operations d) = true := by
  obtain ⟨ids, hsearch, hids⟩ :=
    Index.search_of_parse h ((Engine.mk .empty store).run operations).2.index
  refine ⟨ids, by rw [query, hsearch], ?_⟩
  simpa only [contains_run] using hids

/-- A store whose next calls come out as listed; later calls succeed. -/
structure ScriptedStore where
  outcomes : List (Except StoreFault Unit)

instance : DocumentStore ScriptedStore where
  persist _ store := (store.outcomes.headD (.ok ()), ⟨store.outcomes.tail⟩)

/-- A query after a run in which the store crashes, succeeds and refuses by turns. -/
theorem query_run_scripted :
    let store := ScriptedStore.mk [.error .crash, .ok (), .error (.error (.encode 3 "bad record"))]
    let operations := [.execute "index 1 cat dog", .query "dog", .index 2 ["cat", "fox"],
      .index 3 ["cat", "f-x"], .execute "index 3 cat fox", .execute "index four cat dog"]
    let e := Expr.node .and [.literal "cat", .node .or [.literal "dog", .literal "fox"]]
    Expr.parse "cat & (dog | fox)" = .ok e ∧
      ∃ ids, ((Engine.mk .empty store).run operations).2.query "cat & (dog | fox)" = .ok ids ∧
        ∀ d, d ∈ ids ↔ e.holds (indexedIn operations d) = true :=
  ⟨by decide +kernel, query_run _ _ (by decide +kernel)⟩

end Engine

end TokenSearch
