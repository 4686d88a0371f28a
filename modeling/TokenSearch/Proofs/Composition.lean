import TokenSearch.Proofs.Distribution
import TokenSearch.Proofs.Parentheses
import TokenSearch.Proofs.Search

/-!
# Queries put together

Queries compose as texts: what two texts are read as is combined when they are joined by the symbol
of a connective, in parentheses where the connective binds tighter. The answer is then the union or
the intersection of the two answers. Parentheses make no other difference, unless the text inside
is nested as deep as the limit: then the whole is too deep.
-/

namespace TokenSearch

namespace Grammar

/-- Two disjunctions with `|` between them denote the combination of what they denote. -/
theorem Disjunction.or {depth : Nat} {symbols further : List Symbol} {e f : Expr}
    (h : Disjunction depth symbols e) (hfurther : Disjunction depth further f) :
    Disjunction depth (symbols ++ .connective .or :: further) (Expr.combine .or [e, f]) := by
  have hcanonical := (faithful_disjunction depth).canonical hfurther
  refine Chained.more ((faithful_operand depth).chained .and) ?_ h ?_
  · exact List.forall_mem_singleton.mpr hcanonical
  · rwa [Expr.combine_singleton hcanonical]

/-- Operands are disjunctions. -/
theorem Operand.disjunction {depth : Nat} {symbols : List Symbol} {e : Expr}
    (h : Operand depth symbols e) : Disjunction depth symbols e := by
  have hconjunction : Conjunction depth symbols e :=
    Chained.single h ((faithful_operand depth).canonical h) .and
  exact hconjunction.disjunction

/-- Two operands with `&` between them denote the combination of what they denote. -/
theorem Operand.and {depth : Nat} {symbols further : List Symbol} {e f : Expr}
    (h : Operand depth symbols e) (hfurther : Operand depth further f) :
    Disjunction depth (symbols ++ .connective .and :: further) (Expr.combine .and [e, f]) := by
  have hconjunction : Conjunction depth (symbols ++ .connective .and :: further)
      (Expr.combine .and [e, f]) := ⟨[e, f], .more h (.single hfurther), rfl⟩
  exact hconjunction.disjunction

end Grammar

namespace Expr

open TokenSearch.Lexeme (Spells separates_symbol)
open TokenSearch.FaultScan (GoesOver)

/-- A text is read as what its symbols denote. -/
theorem parse_of_spells {s : String} {symbols : List Symbol} {e : Expr}
    (hspells : Spells s.toList symbols) (h : Grammar.Disjunction nestingLimit symbols e) :
    parse s = .ok e := by
  obtain ⟨lexemes, rfl, hcut⟩ := hspells.exists_cut
  exact (parse_eq_ok_iff_of_cut hcut e).mpr h

/-- A text is too deep when the scan finds its symbols so. -/
theorem parse_of_not_fits {s : String} {symbols : List Symbol} {fits : Prop}
    (hspells : Spells s.toList symbols) (h : GoesOver [] symbols fits) (hfits : ¬ fits) :
    parse s = .error .tooDeep := by
  obtain ⟨lexemes, hsymbols, hcut⟩ := hspells.exists_cut
  rw [parse_eq_error_iff_of_cut hcut, ← List.append_nil lexemes]
  exact h.tooDeep hfits hsymbols []

/-- Texts with the symbol of a connective between them spell their symbols with the connective
between them. -/
theorem spells_connected {s t : String} {symbols further : List Symbol}
    (h : Spells s.toList symbols) (op : Connective) (hfurther : Spells t.toList further) :
    Spells (s ++ String.singleton op.symbol ++ t).toList
      (symbols ++ .connective op :: further) := by
  rw [String.toList_append, String.toList_append]
  exact separates_symbol op h hfurther

/-- A text in parentheses is an operand, nested deeper by one than the text. -/
theorem exists_operand_of_parse {s : String} {e : Expr} (h : parse s = .ok e) :
    ∃ symbols, Spells ("(" ++ s ++ ")").toList symbols ∧
      Grammar.nesting symbols = nesting s + 1 ∧
      Grammar.Measured (Grammar.Operand · symbols e) symbols := by
  obtain ⟨symbols, hspells, hnesting, hmeasured⟩ := exists_measured_of_parse h
  refine ⟨.openGroup :: symbols ++ [.closeGroup], ?_, ?_, hmeasured.group⟩
  · rw [String.toList_append, String.toList_append]
    exact hspells.group
  · rw [hmeasured.balanced.nesting_group, hnesting]

/-- What is read is nested no deeper than the limit. -/
theorem nesting_le_of_parse {s : String} {e : Expr} (h : parse s = .ok e) :
    nesting s ≤ nestingLimit := by
  obtain ⟨symbols, hspells, hnesting, hmeasured⟩ := exists_measured_of_parse h
  by_contra hdeep
  rw [← hnesting] at hdeep
  rw [parse_of_not_fits hspells hmeasured.goesOver_nil hdeep] at h
  cases h

/-- Parentheses around a text that is read make it deeper by one. -/
theorem nesting_group {s : String} {e : Expr} (h : parse s = .ok e) :
    nesting ("(" ++ s ++ ")") = nesting s + 1 := by
  obtain ⟨symbols, hspells, hnesting, -⟩ := exists_operand_of_parse h
  rw [nesting, hspells.peak_eq, hnesting]

section Two

variable {x y : String} {e f : Expr}

/-- Two texts with `|` between them are read as a disjunction. -/
theorem parse_or (hx : parse x = .ok e) (hy : parse y = .ok f) :
    parse (x ++ "|" ++ y) = .ok (combine .or [e, f]) := by
  obtain ⟨lexemes, hcut, hphrase⟩ := parse_eq_ok_iff.mp hx
  obtain ⟨further, hfurther, hphrase'⟩ := parse_eq_ok_iff.mp hy
  exact parse_of_spells (spells_connected hcut.spells .or hfurther.spells) (hphrase.or hphrase')

/-- A text in parentheses is read as the text, unless it is nested as deep as the limit. -/
theorem parse_group (hx : parse x = .ok e) :
    parse ("(" ++ x ++ ")") = if nesting x < nestingLimit then .ok e else .error .tooDeep := by
  obtain ⟨symbols, hspells, hnesting, hmeasured⟩ := exists_operand_of_parse hx
  split
  · rename_i hlt
    exact parse_of_spells hspells (hmeasured.fits (hnesting.trans_le hlt)).disjunction
  · rename_i hdeep
    refine parse_of_not_fits hspells hmeasured.goesOver_nil ?_
    rwa [hnesting]

/-- Two texts in parentheses with `&` between them are read as a conjunction, unless one of them is
nested as deep as the limit. -/
theorem parse_and (hx : parse x = .ok e) (hy : parse y = .ok f) :
    parse ("(" ++ x ++ ")&(" ++ y ++ ")") =
      if nesting x < nestingLimit ∧ nesting y < nestingLimit then .ok (combine .and [e, f])
      else .error .tooDeep := by
  obtain ⟨symbols, hspells, hnesting, hmeasured⟩ := exists_operand_of_parse hx
  obtain ⟨further, hfurther, hnesting', hmeasured'⟩ := exists_operand_of_parse hy
  have hsplit : "(" ++ x ++ ")&(" ++ y ++ ")" =
      "(" ++ x ++ ")" ++ String.singleton Connective.and.symbol ++ ("(" ++ y ++ ")") := by
    rw [← String.toList_inj]
    simp [Connective.symbol]
  have hconnected := spells_connected hspells .and hfurther
  rw [← hsplit] at hconnected
  split
  · rename_i hlt
    have hoperand := hmeasured.fits (hnesting.trans_le hlt.1)
    have hoperand' := hmeasured'.fits (hnesting'.trans_le hlt.2)
    exact parse_of_spells hconnected (hoperand.and hoperand')
  · rename_i hdeep
    have hscan := hmeasured.goesOver_nil.more .and hmeasured'.goesOver_nil
    refine parse_of_not_fits hconnected hscan ?_
    rwa [hnesting, hnesting']

end Two

/-- A text in some pairs of parentheses. -/
def enclosed (s : String) : Nat → String
  | 0 => s
  | n + 1 => "(" ++ enclosed s n ++ ")"

/-- A text that is read can be put into parentheses over and over, up to the limit. -/
theorem parse_enclosed {s : String} {e : Expr} (h : parse s = .ok e) {n : Nat}
    (hn : nesting s + n ≤ nestingLimit) :
    parse (enclosed s n) = .ok e ∧ nesting (enclosed s n) = nesting s + n := by
  induction n with
  | zero => exact ⟨h, rfl⟩
  | succ n ih =>
    obtain ⟨hparse, hnesting⟩ := ih (Nat.le_of_succ_le hn)
    have hlt : nesting (enclosed s n) < nestingLimit := by omega
    rw [enclosed, parse_group hparse, if_pos hlt, nesting_group hparse, hnesting]
    exact ⟨rfl, rfl⟩

end Expr

namespace Index

variable {index : Index}

/-- A query is answered with any set of just the documents that make its expression true. -/
theorem search_eq_of_holds {query : String} {e : Expr} {ids : IdSet}
    (h : Expr.parse query = .ok e)
    (hids : ∀ d, d ∈ ids ↔ e.holds (index.contains · d) = true) : index.search query = .ok ids := by
  obtain ⟨found, hsearch, hfound⟩ := search_of_parse h index
  rw [hsearch]
  congr 1
  ext d
  rw [hfound, hids]

theorem search_eq_error {query : String} {fault : ParseFault}
    (h : Expr.parse query = .error fault) (index : Index) : index.search query = .error fault := by
  rw [search, h]
  rfl

/-- How the answers to two queries go together. -/
structure Composes (index : Index) (x y : String) (xs ys : IdSet) : Prop where
  /-- `|` between the queries makes the union of their answers. -/
  union : index.search (x ++ "|" ++ y) = .ok (xs ∪ ys)
  /-- `&` between the queries in parentheses makes the intersection. -/
  inter (hx : nesting x ≤ 127) (hy : nesting y ≤ 127) :
    index.search ("(" ++ x ++ ")&(" ++ y ++ ")") = .ok (xs ∩ ys)
  /-- In parentheses a query is read as without them. -/
  group (hx : nesting x ≤ 127) : Expr.parse ("(" ++ x ++ ")") = Expr.parse x
  /-- No query is nested deeper than 128, and with this nesting it is too deep in parentheses. -/
  limit : nesting x ≤ 128 ∧ nesting y ≤ 128
  groupTooDeep (hx : nesting x = 128) : Expr.parse ("(" ++ x ++ ")") = .error .tooDeep
  interTooDeep (h : nesting x = 128 ∨ nesting y = 128) :
    Expr.parse ("(" ++ x ++ ")&(" ++ y ++ ")") = .error .tooDeep ∧
      index.search ("(" ++ x ++ ")&(" ++ y ++ ")") = .error .tooDeep

/-- On every index, queries that can be read compose as their answers do. -/
theorem composes_of_parse (index : Index) {x y : String} {e f : Expr}
    (hx : Expr.parse x = .ok e) (hy : Expr.parse y = .ok f) :
    ∃ xs ys, index.search x = .ok xs ∧ index.search y = .ok ys ∧ Composes index x y xs ys := by
  obtain ⟨xs, hxs, hmemx⟩ := search_of_parse hx index
  obtain ⟨ys, hys, hmemy⟩ := search_of_parse hy index
  have hgroup := Expr.parse_group hx
  have hand := Expr.parse_and hx hy
  have hlt {s : String} (h : nesting s ≤ 127) : nesting s < nestingLimit := Nat.lt_succ_of_le h
  refine ⟨xs, ys, hxs, hys, ?_, ?_, ?_, ?_, ?_, ?_⟩
  · refine search_eq_of_holds (Expr.parse_or hx hy) ?_
    intro d
    simp [Expr.holds_combine, hmemx, hmemy]
  · intro hlx hly
    rw [if_pos ⟨hlt hlx, hlt hly⟩] at hand
    refine search_eq_of_holds hand ?_
    intro d
    simp [Expr.holds_combine, hmemx, hmemy]
  · intro hlx
    rw [hgroup, if_pos (hlt hlx), hx]
  · exact ⟨Expr.nesting_le_of_parse hx, Expr.nesting_le_of_parse hy⟩
  · intro hdeep
    rw [hgroup, hdeep]
    rfl
  · intro hdeep
    have hnot : ¬ (nesting x < nestingLimit ∧ nesting y < nestingLimit) := by
      rintro ⟨hlx, hly⟩
      rcases hdeep with hdeep | hdeep
      · exact absurd hdeep (Nat.ne_of_lt hlx)
      · exact absurd hdeep (Nat.ne_of_lt hly)
    rw [if_neg hnot] at hand
    exact ⟨hand, search_eq_error hand index⟩

/-- One query in 127 pairs of parentheses and another in 128. -/
theorem composes_of_parse_enclosed :
    let x := Expr.enclosed "cat | dog" 127
    let y := Expr.enclosed "fox" 128
    let index := (Index.empty.addDocument 1 ["cat", "fox"]).addDocument 2 ["dog"]
    (Expr.parse x = .ok (.node .or [.literal "cat", .literal "dog"]) ∧ nesting x = 127) ∧
      (Expr.parse y = .ok (.literal "fox") ∧ nesting y = 128) ∧
      ∃ xs ys, index.search x = .ok xs ∧ index.search y = .ok ys ∧ Composes index x y xs ys := by
  intro x y index
  have hcat : Expr.parse "cat | dog" = .ok (.node .or [.literal "cat", .literal "dog"]) := by
    decide +kernel
  have hfox : Expr.parse "fox" = .ok (.literal "fox") := by decide +kernel
  have hx := Expr.parse_enclosed hcat (n := 127) (by decide)
  have hy := Expr.parse_enclosed hfox (n := 128) (by decide)
  exact ⟨hx, hy, composes_of_parse index hx.1 hy.1⟩

end Index

end TokenSearch
