import Mathlib.Data.List.TakeWhile
import TokenSearch.Proofs.Composition
import TokenSearch.Proofs.EngineStep

/-!
# Tokens of documents and tokens of queries

What a document may consist of is what a query can ask for. A text is a token just when it is its
own leading token, and just when it is read as the literal of itself; a query has no other
literals. Only tokens get into the index of an engine, so each entry can be asked for by its own
text, and a document is found by its tokens as soon as it is requested.
-/

namespace TokenSearch

/-- A token is a text that its leading token makes up whole. -/
theorem leadingToken?_eq_self_iff {s : String} : leadingToken? s = some s ↔ isToken s = true := by
  rw [leadingToken?_eq_some_iff]
  constructor
  · exact And.left
  · intro h
    exact ⟨h, List.takeWhile_eq_self_iff.mpr (isToken_iff.mp h).2⟩

/-- Where a text goes on with a token, the scan goes on with the literal of that token. -/
theorem Lexeme.scanFrom_leadingToken? {s : String} {token : Token}
    (h : leadingToken? s = some token) (position : Nat) :
    scanFrom position s.toList =
      (scanFrom (position + byteLength token.toList) (s.toList.dropWhile isTokenChar)).map
        (⟨.literal token, position⟩ :: ·) := by
  obtain ⟨htoken, hrun⟩ := leadingToken?_eq_some_iff.mp h
  obtain ⟨hne, hinside⟩ := isToken_iff.mp htoken
  have hmaximal : ∀ c ∈ (s.toList.dropWhile isTokenChar).head?, isTokenChar c = false := by
    intro c hc
    have hnot := List.head?_dropWhile_not isTokenChar s.toList
    rwa [hc] at hnot
  have hliteral := scanFrom_literal hne hinside hmaximal position
  rwa [← hrun, List.takeWhile_append_dropWhile, hrun, String.ofList_toList] at hliteral

namespace Expr

open TokenSearch.Lexeme (Spells separates_symbol)

/-- A text is read as the literal of itself when it is a token, and not otherwise. -/
theorem parse_eq_literal_iff {s : String} : parse s = .ok (.literal s) ↔ isToken s = true := by
  constructor
  · intro h
    exact isToken_of_parse h s (List.mem_singleton_self s)
  · intro h
    exact parse_of_spells (.literal h) (Grammar.operand_literal _ s).disjunction

/-- Tokens with `&` between them are read as the conjunction of their literals. -/
theorem parse_intercalate {tokens : List Token} (nonempty : tokens ≠ [])
    (h : ∀ token ∈ tokens, isToken token = true) :
    parse ("&".intercalate tokens) = .ok (combine .and (tokens.map .literal)) := by
  have hspells : Spells ("&".intercalate (tokens.map id)).toList
      ([Symbol.connective .and].intercalate (tokens.map fun token => [.literal token])) :=
    Spells.intercalate (separates_symbol .and) fun token hmem => .literal (h token hmem)
  have hconjunction : Grammar.Conjunction nestingLimit
      ([Symbol.connective .and].intercalate (tokens.map fun token => [.literal token]))
      (combine .and (tokens.map .literal)) := by
    refine Grammar.Chained.intercalate (Grammar.faithful_operand _) nonempty ?_
    intro token _
    exact Grammar.Chained.single (Grammar.operand_literal _ token) (.literal token) .and
  rw [List.map_id] at hspells
  exact parse_of_spells hspells hconjunction.disjunction

/-- Validation and the query language take the same texts for tokens. -/
structure AgreesOnTokens (s : String) : Prop where
  leading : isToken s = true ↔ leadingToken? s = some s
  literal : isToken s = true ↔ parse s = .ok (.literal s)
  /-- Where a leading token is found, the scan of a query reads it as a literal. -/
  scanned (token : Token) (h : leadingToken? s = some token) (position : Nat) :
    Lexeme.scanFrom position s.toList =
      (Lexeme.scanFrom (position + byteLength token.toList) (s.toList.dropWhile isTokenChar)).map
        (⟨.literal token, position⟩ :: ·)
  /-- A query that can be read has tokens for literals. -/
  leaves (e : Expr) (h : parse s = .ok e) : ∀ token ∈ e.leaves, isToken token = true

theorem agreesOnTokens (s : String) : AgreesOnTokens s where
  leading := leadingToken?_eq_self_iff.symm
  literal := parse_eq_literal_iff.symm
  scanned _ h position := Lexeme.scanFrom_leadingToken? h position
  leaves _ h := isToken_of_parse h

end Expr

namespace Index

variable {index : Index}

/-- A token is answered with its posting set. -/
theorem search_token {token : Token} (h : isToken token = true) :
    index.search token = .ok (index.postings token) := by
  refine search_eq_of_holds (Expr.parse_eq_literal_iff.mpr h) ?_
  intro d
  rw [Expr.holds_literal, contains_iff]

/-- Tokens with `&` between them are answered with the documents that contain them all. -/
theorem search_intercalate (index : Index) {tokens : List Token} (nonempty : tokens ≠ [])
    (h : ∀ token ∈ tokens, isToken token = true) :
    ∃ ids, index.search ("&".intercalate tokens) = .ok ids ∧
      ∀ d, d ∈ ids ↔ ∀ token ∈ tokens, index.contains token d = true := by
  obtain ⟨ids, hids, hmem⟩ := search_of_parse (Expr.parse_intercalate nonempty h) index
  refine ⟨ids, hids, ?_⟩
  intro d
  simp [hmem, Expr.holds_combine]

/-- Every entry is that of a token. -/
def Tokenized (index : Index) : Prop := ∀ token ∈ index.entries, isToken token = true

theorem tokenized_empty : empty.Tokenized := by
  intro token h
  exact absurd h Std.ExtTreeMap.not_mem_empty

/-- Recording a document of tokens leaves only tokens in the index. -/
theorem Tokenized.addDocument (h : index.Tokenized) {document : Document}
    (htokens : ∀ token ∈ document.tokens, isToken token = true) :
    (index.addDocument document.id document.tokens).Tokenized := by
  intro token hmem
  rcases mem_entries_addDocument.mp hmem with hmem | hmem
  · exact htokens token hmem
  · exact h token hmem

end Index

namespace Engine

variable {σ : Type} [DocumentStore σ]

/-- No operation brings anything but tokens into the index. -/
theorem tokenized_perform {engine : Engine σ} (h : engine.index.Tokenized)
    (operation : Operation) : (engine.perform operation).2.index.Tokenized := by
  rw [perform_engine]
  split
  · rename_i document hdocument
    exact h.addDocument (Operation.requests_iff.2 hdocument).tokens.2
  · exact h

theorem tokenized_run {engine : Engine σ} (h : engine.index.Tokenized)
    (operations : List Operation) : (engine.run operations).2.index.Tokenized := by
  induction operations generalizing engine with
  | nil => exact h
  | cons operation operations ih => exact ih (tokenized_perform h operation)

/-- Right after the request of a document a query for all its tokens finds its id. -/
theorem query_of_requests (engine : Engine σ) {operation : Operation} {document : Document}
    (h : operation.Requests document) :
    ∃ ids, (engine.perform operation).2.query ("&".intercalate document.tokens) = .ok ids ∧
      document.id ∈ ids := by
  obtain ⟨nonempty, htokens⟩ := h.tokens
  obtain ⟨ids, hids, hmem⟩ :=
    (engine.perform operation).2.index.search_intercalate nonempty htokens
  refine ⟨ids, by rw [query, hids], ?_⟩
  rw [hmem, perform_engine, Operation.requests_iff.1 h]
  intro token ht
  rw [Index.contains_iff]
  exact Index.mem_postings_addDocument.mpr (.inl ⟨ht, rfl⟩)

/-- The query language expresses the tokens of an engine. -/
structure Expressible (engine : Engine σ) : Prop where
  /-- Each indexed token can be asked for by its own text. -/
  indexed (token : Token) (h : token ∈ engine.index.entries) :
    isToken token = true ∧ Expr.parse token = .ok (.literal token) ∧
      engine.query token = .ok (engine.index.postings token)
  /-- Right after an accepted request, persisted or not, the document is found by its tokens. -/
  requested (operation : Operation) (document : Document) (h : operation.Requests document) :
    ∃ ids, (engine.perform operation).2.query ("&".intercalate document.tokens) = .ok ids ∧
      document.id ∈ ids

/-- Validation and the query language agree on every text, and in every state that a run over any
store reaches the query language expresses the tokens of the engine. -/
theorem tokens_expressible (store : σ) (operations : List Operation) :
    (∀ s, Expr.AgreesOnTokens s) ∧
      Expressible ((Engine.mk .empty store).run operations).2 := by
  have htokenized : (Engine.mk .empty store).index.Tokenized := Index.tokenized_empty
  refine ⟨Expr.agreesOnTokens, ?_, ?_⟩
  · intro token hmem
    have htoken := tokenized_run htokenized operations token hmem
    refine ⟨htoken, Expr.parse_eq_literal_iff.mpr htoken, ?_⟩
    rw [query, Index.search_token htoken]
  · intro operation document hrequest
    exact query_of_requests _ hrequest

/-- Words with accents and digits of other scripts are found although the store crashes. -/
theorem tokens_expressible_crash :
    let engine := ((Engine.mk .empty (ScriptedStore.mk [.ok (), .error .crash])).run
      [.index 1 ["cat"]]).2
    let document : Document := ⟨7, ["été", "٣"]⟩
    (Operation.index 7 ["été", "٣"]).Requests document ∧
      "&".intercalate document.tokens = "été&٣" ∧
      ∃ ids, (engine.perform (.index 7 ["été", "٣"])).2.query ("&".intercalate document.tokens) =
        .ok ids ∧ document.id ∈ ids := by
  intro engine document
  have hrequest : (Operation.index 7 ["été", "٣"]).Requests document :=
    Operation.requests_iff.2 (by decide +kernel)
  exact ⟨hrequest, by decide +kernel, (tokens_expressible _ _).2.requested _ _ hrequest⟩

end Engine

end TokenSearch
