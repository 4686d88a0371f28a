import TokenSearch.Proofs.EngineStep
import TokenSearch.Proofs.Expression

/-!
# Answers only grow

An index never loses a pair, and an expression has no negation. So the answer to a query never
loses a match, in whatever order its normal form is evaluated, and indexing a document again adds
to what is found by its id. Documents with other ids have no say in whether an id matches.
-/

namespace TokenSearch

/-- What holds goes on to hold when more tokens become true. -/
theorem Expr.holds_mono {truth more : Token → Bool}
    (h : ∀ token, truth token = true → more token = true) {e : Expr}
    (he : e.holds truth = true) : e.holds more = true := by
  induction e using operandInduction with
  | literal token => exact h token he
  | node op operands ih =>
    cases op with
    | and =>
      rw [holds_and, List.all_eq_true] at he ⊢
      intro operand hmem
      exact ih operand hmem (he operand hmem)
    | or =>
      rw [holds_or, List.any_eq_true] at he ⊢
      obtain ⟨operand, hmem, hholds⟩ := he
      exact ⟨operand, hmem, ih operand hmem hholds⟩

/-- A set of ids has become another one by documents: no id is lost, and only the ids of the
documents are new. -/
structure IdSet.Grown (before after : IdSet) (documents : List Document) : Prop where
  kept (d : DocId) (h : d ∈ before) : d ∈ after
  /-- Whether any other id is in the set does not change. -/
  others (d : DocId) (h : ∀ document ∈ documents, document.id ≠ d) : d ∈ after ↔ d ∈ before

namespace Index

/-- Indexing documents keeps every pair. -/
theorem contains_addDocuments_of_contains {index : Index} {token : Token} {d : DocId}
    (h : index.contains token d = true) (documents : List Document) :
    (index.addDocuments documents).contains token d = true := by
  rw [contains_addDocuments, h, Bool.or_true]

/-- Indexing documents makes no pair with the id of any other document. -/
theorem contains_addDocuments_of_ne {documents : List Document} {d : DocId}
    (h : ∀ document ∈ documents, document.id ≠ d) (index : Index) (token : Token) :
    (index.addDocuments documents).contains token d = index.contains token d := by
  have hnone : (documents.any fun document =>
      document.id == d && document.tokens.contains token) = false := by
    rw [List.any_eq_false]
    intro document hmem hpair
    rw [Bool.and_eq_true, beq_iff_eq] at hpair
    exact h document hmem hpair.1
  rw [contains_addDocuments, hnone, Bool.false_or]

/-- Documents make the answer to a query that can be read grow. -/
theorem grown_addDocuments {index : Index} {query : String} {e : Expr} {before : IdSet}
    (h : Expr.parse query = .ok e) (hbefore : index.search query = .ok before)
    (documents : List Document) :
    ∃ after, (index.addDocuments documents).search query = .ok after ∧
      before.Grown after documents := by
  obtain ⟨after, hafter, hmem⟩ := search_of_parse h (index.addDocuments documents)
  refine ⟨after, hafter, ?_, ?_⟩
  · intro d hd
    rw [mem_of_search h hbefore] at hd
    rw [hmem]
    refine Expr.holds_mono ?_ hd
    intro token htoken
    exact contains_addDocuments_of_contains htoken documents
  · intro d hd
    rw [hmem, mem_of_search h hbefore, funext (contains_addDocuments_of_ne hd index)]

end Index

namespace Engine

variable {σ : Type} [DocumentStore σ]

/-- A run makes the answer to a query grow by the accepted documents. -/
theorem grown_run {engine : Engine σ} {expression : String} {e : Expr} {before : IdSet}
    (h : Expr.parse expression = .ok e) (hbefore : engine.index.search expression = .ok before)
    (operations : List Operation) :
    ∃ after, (engine.run operations).2.query expression = .ok after ∧
      before.Grown after (accepted operations) := by
  obtain ⟨after, hafter, hgrown⟩ := Index.grown_addDocuments h hbefore (accepted operations)
  rw [← index_run] at hafter
  exact ⟨after, by rw [query, hafter], hgrown⟩

/-- A request to index a document makes the answer to a query grow by this document, whatever the
store makes of it. -/
theorem grown_perform {engine : Engine σ} {expression : String} {e : Expr} {before : IdSet}
    (h : Expr.parse expression = .ok e) (hbefore : engine.index.search expression = .ok before)
    {operation : Operation} {document : Document} (hrequest : operation.Requests document) :
    ∃ after, (engine.perform operation).2.query expression = .ok after ∧
      before.Grown after [document] := by
  have haccepted : accepted [operation] = [document] := by
    rw [accepted, List.filterMap_cons, Operation.requests_iff.1 hrequest]
    rfl
  have hgrown := grown_run h hbefore [operation]
  rwa [haccepted] at hgrown

/-- In any run, over any store, the answer to a query that can be read only grows: by the document
of each request that is accepted, persisted or not, and from any point of the run to any later one
by the documents accepted in between. -/
theorem query_grows (engine : Engine σ) (operations : List Operation) {expression : String}
    {e : Expr} (h : Expr.parse expression = .ok e) :
    ∃ ids, (engine.run operations).2.query expression = .ok ids ∧
      (∀ operation document, operation.Requests document →
        ∃ next, ((engine.run operations).2.perform operation).2.query expression = .ok next ∧
          ids.Grown next [document]) ∧
      ∀ more, ∃ later, (engine.run (operations ++ more)).2.query expression = .ok later ∧
        ids.Grown later (accepted more) := by
  obtain ⟨ids, hids, -⟩ := Index.search_of_parse h (engine.run operations).2.index
  refine ⟨ids, by rw [query, hids], ?_, ?_⟩
  · intro operation document hrequest
    exact grown_perform h hids hrequest
  · intro more
    rw [run_append]
    exact grown_run h hids more

/-- A document is indexed again with another token while the store crashes. -/
theorem query_grows_again :
    let engine := Engine.mk .empty (ScriptedStore.mk [.ok (), .error .crash])
    let operations := [Operation.index 1 ["cat"]]
    let again := Operation.execute "index 1 dog"
    Expr.parse "cat & dog" = .ok (.node .and [.literal "cat", .literal "dog"]) ∧
      again.Requests ⟨1, ["dog"]⟩ ∧
      ∃ ids next, (engine.run operations).2.query "cat & dog" = .ok ids ∧
        ((engine.run operations).2.perform again).2.query "cat & dog" = .ok next ∧
        ids.Grown next [⟨1, ["dog"]⟩] := by
  intro engine operations again
  have hparse : Expr.parse "cat & dog" = .ok (.node .and [.literal "cat", .literal "dog"]) := by
    decide +kernel
  have hrequest : again.Requests ⟨1, ["dog"]⟩ := Operation.requests_iff.2 (by decide +kernel)
  obtain ⟨ids, hids, hstep, -⟩ := query_grows engine operations hparse
  obtain ⟨next, hnext, hgrown⟩ := hstep again ⟨1, ["dog"]⟩ hrequest
  exact ⟨hparse, hrequest, ids, next, hids, hnext, hgrown⟩

end Engine

end TokenSearch
