import TokenSearch.Proofs.NormalForm
import TokenSearch.Proofs.Parsing
import TokenSearch.Search

/-!
# Searching finds the documents for which a query holds

A document makes a token true when the index has the pair of the two. The answer to a query
that can be read consists of the documents that make its expression true. What is read has no
node without operands, so no group of its normal form is empty, and the rule that an empty
group matches nothing is never met.
-/

namespace TokenSearch.Index

/-- A populated expression is answered with the documents that make it true. -/
theorem mem_evaluate_ofExpr {index : Index} {e : Expr} (h : e.Populated) {d : DocId} :
    d ∈ index.evaluate (.ofExpr e) ↔ e.holds (index.contains · d) = true := by
  have hne : ∀ group ∈ NormalForm.dropRepeats ∅ (NormalForm.expand e), group ≠ [] := by
    intro group hg
    exact NormalForm.ne_nil_of_mem_expand h group
      ((NormalForm.dropRepeats_sublist ∅ _).subset hg)
  rw [mem_evaluate, ← NormalForm.holds_expand, ← NormalForm.holds_dropRepeats,
    NormalForm.holds_iff]
  simp only [contains_iff, NormalForm.ofExpr]
  constructor
  · rintro ⟨group, hg, -, htokens⟩
    exact ⟨group, hg, htokens⟩
  · rintro ⟨group, hg, htokens⟩
    exact ⟨group, hg, hne group hg, htokens⟩

/-- A query that can be read is answered with the documents that make its expression true. -/
theorem search_of_parse {query : String} {e : Expr} (h : Expr.parse query = .ok e)
    (index : Index) :
    ∃ ids, index.search query = .ok ids ∧
      ∀ d, d ∈ ids ↔ e.holds (index.contains · d) = true := by
  refine ⟨index.evaluate (.ofExpr e), ?_, ?_⟩
  · rw [search, h]
    rfl
  · intro d
    exact mem_evaluate_ofExpr (Expr.canonical_of_parse h).populated

/-- The ids found for a query that can be read are those that make its expression true. -/
theorem mem_of_search {index : Index} {query : String} {e : Expr} {ids : IdSet}
    (h : Expr.parse query = .ok e) (hids : index.search query = .ok ids) (d : DocId) :
    d ∈ ids ↔ e.holds (index.contains · d) = true := by
  obtain ⟨found, hfound, hmem⟩ := search_of_parse h index
  obtain rfl : found = ids := Except.ok.inj (hfound.symm.trans hids)
  exact hmem d

end TokenSearch.Index
