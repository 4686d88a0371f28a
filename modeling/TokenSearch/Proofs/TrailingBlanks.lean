import TokenSearch.Command
import TokenSearch.Proofs.LeftmostFault
import TokenSearch.Search

/-!
# Blanks at the end of a query

Blanks behind an expression make no difference: the text is cut into the same lexemes, at the same
positions, and the end of the text is no part of any fault. A command line drops the line end of
its query, which therefore comes to the same as the query itself.
-/

namespace TokenSearch

/-- Blanks behind a text add no lexemes. -/
theorem Lexeme.Cut.append_blanks {position : Nat} {cs : List Char} {lexemes : List Lexeme}
    (h : Cut position cs lexemes) {blanks : List Char}
    (hblanks : ∀ c ∈ blanks, Text.isBlank c = true) : Cut position (cs ++ blanks) lexemes := by
  induction h with
  | @done position =>
    rw [List.nil_append]
    induction blanks generalizing position with
    | nil => exact .done
    | cons c blanks ih =>
      obtain ⟨hc, hblanks⟩ := List.forall_mem_cons.1 hblanks
      exact .blank hc (ih hblanks)
  | blank hc rest ih => exact .blank hc ih
  | sign hc rest ih => exact .sign hc ih
  | @literal position run cs lexemes nonempty inside maximal rest ih =>
    have hmaximal : ∀ c ∈ (cs ++ blanks).head?, isTokenChar c = false := by
      cases cs with
      | nil =>
        intro c hc
        exact isTokenChar_of_isBlank (hblanks c (List.mem_of_mem_head? hc))
      | cons d cs => exact maximal
    rw [List.append_assoc]
    exact .literal nonempty inside hmaximal ih

/-- Blanks behind an expression change neither what it is read as nor its fault. -/
theorem Expr.parse_append_blanks (s : String) {blanks : List Char}
    (hblanks : ∀ c ∈ blanks, Text.isBlank c = true) :
    parse (s ++ String.ofList blanks) = parse s := by
  have htext : (s ++ String.ofList blanks).toList = s.toList ++ blanks := by simp
  by_cases hs : ∀ c ∈ s.toList, Lexeme.InAlphabet c
  · obtain ⟨lexemes, hcut⟩ := Lexeme.exists_cut hs 0
    have hlonger : Lexeme.Cut 0 (s ++ String.ofList blanks).toList lexemes := by
      rw [htext]
      exact hcut.append_blanks hblanks
    cases hparse : parse s with
    | ok e => exact (parse_eq_ok_iff_of_cut hlonger e).2 ((parse_eq_ok_iff_of_cut hcut e).1 hparse)
    | error fault =>
      exact (parse_eq_error_iff_of_cut hlonger fault).2
        ((parse_eq_error_iff_of_cut hcut fault).1 hparse)
  · obtain ⟨before, c, after, hsplit, hbefore, hc⟩ := Lexeme.exists_first_foreign hs
    have hfirst := (parse_eq_error_iff_leftmost s).1 before c after hsplit hbefore hc
    have hlonger : (s ++ String.ofList blanks).toList = before ++ c :: (after ++ blanks) := by
      rw [htext, hsplit, List.append_assoc, List.cons_append]
    rw [hfirst, (parse_eq_error_iff_leftmost _).1 before c _ hlonger hbefore hc]

namespace Command

/-- A text is what is left of it without its line end, and then the line end. -/
theorem exists_lineEnd (cs : List Char) :
    ∃ lineEnd, cs = dropLineEnd cs ++ lineEnd ∧ ∀ c ∈ lineEnd, c = '\r' ∨ c = '\n' := by
  refine ⟨(cs.reverse.takeWhile fun c => c = '\r' || c = '\n').reverse, ?_, ?_⟩
  · rw [dropLineEnd, ← List.reverse_append, List.takeWhile_append_dropWhile, List.reverse_reverse]
  · intro c hc
    simpa using List.all_eq_true.1 List.all_takeWhile c (List.mem_reverse.1 hc)

theorem isBlank_of_lineEnd {c : Char} (h : c = '\r' ∨ c = '\n') : Text.isBlank c = true := by
  rcases h with rfl | rfl <;> rfl

/-- Only the line end at the end of all is dropped. -/
theorem dropLineEnd_append {keyword : List Char} (h : dropLineEnd keyword = keyword)
    (cs : List Char) : dropLineEnd (keyword ++ cs) = keyword ++ dropLineEnd cs := by
  rw [dropLineEnd, List.reverse_append, List.dropWhile_append]
  split
  · rename_i hempty
    rw [← dropLineEnd, h, dropLineEnd, List.isEmpty_iff.1 hempty]
    exact (List.append_nil keyword).symm
  · rw [List.reverse_append, List.reverse_reverse, ← dropLineEnd]

/-- A line with the keyword for it is a query for what stands behind, up to the line end. -/
theorem parse_query (expression : String) :
    parse ("query " ++ expression) =
      .ok (.query (String.ofList (dropLineEnd expression.toList))) := by
  have hline : dropLineEnd ("query " ++ expression).toList =
      "query ".toList ++ dropLineEnd expression.toList := by
    rw [String.toList_append, dropLineEnd_append rfl]
  have hindex : "index ".toList.isPrefixOf?
      ("query ".toList ++ dropLineEnd expression.toList) = none := rfl
  have hquery : "query ".toList.isPrefixOf?
      ("query ".toList ++ dropLineEnd expression.toList) =
        some (dropLineEnd expression.toList) := rfl
  simp only [parse, hline, hindex, hquery]

/-- A query without its line end is read as the query. -/
theorem parse_dropLineEnd (expression : String) :
    Expr.parse (String.ofList (dropLineEnd expression.toList)) = Expr.parse expression := by
  obtain ⟨lineEnd, hsplit, hends⟩ := exists_lineEnd expression.toList
  have hblanks : ∀ c ∈ lineEnd, Text.isBlank c = true := fun c hc => isBlank_of_lineEnd (hends c hc)
  have hwhole : expression =
      String.ofList (dropLineEnd expression.toList) ++ String.ofList lineEnd := by
    rw [← String.ofList_append, ← hsplit, String.ofList_toList]
  calc Expr.parse (String.ofList (dropLineEnd expression.toList))
      = Expr.parse (String.ofList (dropLineEnd expression.toList) ++ String.ofList lineEnd) :=
        (Expr.parse_append_blanks _ hblanks).symm
    _ = Expr.parse expression := by rw [← hwhole]

end Command

end TokenSearch
