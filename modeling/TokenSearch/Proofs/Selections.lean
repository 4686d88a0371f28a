import TokenSearch.Proofs.Distribution

/-!
# Selections

A selection of an expression takes one literal, or one operand of a disjunction, or something of
every operand of a conjunction. The normal form lists all selections in their order, each without
its repeats, and of those with the same tokens only the first. It makes no difference that the
normal form drops the repeats inside groups at every product on the way: merging takes no notice
of repeats, so dropping them once at the end comes to the same.
-/

namespace TokenSearch

namespace Expr

mutual

/-- The selections of an expression. A disjunction selects what one of its operands does, and a
conjunction puts a selection of each operand in a row, the first operand most significant. -/
def selections : Expr → List (List Token)
  | .literal token => [[token]]
  | .node .or operands => selectionsOfAny operands
  | .node .and operands => selectionsOfAll operands

/-- The selections of one expression of a list. -/
def selectionsOfAny : List Expr → List (List Token)
  | [] => []
  | e :: es => selections e ++ selectionsOfAny es

/-- The selections of all expressions of a list, put in a row. -/
def selectionsOfAll : List Expr → List (List Token)
  | [] => [[]]
  | e :: es => (selections e).flatMap fun first => (selectionsOfAll es).map (first ++ ·)

end

theorem selectionsOfAny_eq_flatMap (es : List Expr) :
    selectionsOfAny es = es.flatMap selections := by
  induction es with
  | nil => rfl
  | cons e es ih => rw [selectionsOfAny, ih, List.flatMap_cons]

end Expr

namespace NormalForm

open TokenSearch.Expr (selections selectionsOfAll)

/-- The product of groups without repeats is made of the selections in a row. -/
theorem distribute_map_distinct (firsts seconds : List (List Token)) :
    distribute (firsts.map distinct) (seconds.map distinct) =
      (firsts.flatMap fun first => seconds.map (first ++ ·)).map distinct := by
  simp only [distribute, List.flatMap_map, List.map_flatMap, List.map_map, Function.comp_def,
    distinct_append]

private theorem expandAll_eq_map_distinct {es : List Expr}
    (h : ∀ e ∈ es, expand e = (selections e).map distinct) :
    expandAll [[]] es = (selectionsOfAll es).map distinct := by
  induction es with
  | nil => rfl
  | cons e es ih =>
    obtain ⟨he, hes⟩ := List.forall_mem_cons.mp h
    have hunit : distribute [[]] (expand e) = expand e := expand_node_singleton .and e
    rw [expandAll, expandAll_eq_distribute, hunit, he, ih hes, distribute_map_distinct,
      selectionsOfAll]

/-- The groups of an expression are its selections without their repeats, in the same order. -/
theorem expand_eq_map_distinct (e : Expr) : expand e = (selections e).map distinct := by
  induction e using Expr.operandInduction with
  | literal token => rfl
  | node op operands ih =>
    cases op with
    | and => exact expandAll_eq_map_distinct ih
    | or =>
      rw [expand, selections, expandAny_eq_flatMap, Expr.selectionsOfAny_eq_flatMap,
        List.map_flatMap]
      exact List.flatMap_congr ih

/-- Whether two lists have the same tokens. -/
def sameTokens (first second : List Token) : Bool :=
  first.all second.contains && second.all first.contains

theorem sameTokens_iff {first second : List Token} :
    sameTokens first second = true ↔ ∀ token, token ∈ first ↔ token ∈ second := by
  simp only [sameTokens, Bool.and_eq_true, List.all_eq_true, List.contains_iff_mem, iff_def,
    forall_and]

/-- Of the groups with unseen keys, the first one with its tokens is kept. -/
theorem dropRepeats_eq_eraseDupsBy (seen : Std.ExtTreeSet (List Token)) (groups : List Group) :
    dropRepeats seen groups = (groups.filter (groupKey · ∉ seen)).eraseDupsBy sameTokens := by
  induction groups generalizing seen with
  | nil => rfl
  | cons group groups ih =>
    rw [dropRepeats]
    split
    · rename_i hseen
      rw [ih, List.filter_cons_of_neg (by simpa using hseen)]
    · rename_i hnew
      have hrest : groups.filter (groupKey · ∉ seen.insert (groupKey group)) =
          (groups.filter (groupKey · ∉ seen)).filter (sameTokens · group = false) := by
        rw [List.filter_filter]
        refine List.filter_congr ?_
        intro other _
        have hsame : sameTokens other group = true ↔ groupKey group = groupKey other := by
          rw [sameTokens_iff, groupKey_eq_iff]
          exact forall_congr' fun _ => iff_comm
        rw [Bool.eq_iff_iff, Bool.and_eq_true]
        simp only [decide_eq_true_eq, Std.ExtTreeSet.mem_insert,
          Std.LawfulEqOrd.compare_eq_iff_eq, not_or, ← hsame, Bool.not_eq_true]
      rw [ih, hrest, List.filter_cons_of_pos (by simpa using hnew), List.eraseDupsBy_cons]

/-- The groups of a normal form are all selections of the expression in their order, each with its
distinct tokens in the order of their first occurrence, and of selections with the same tokens
only the first. -/
theorem groups_ofExpr (e : Expr) :
    (ofExpr e).groups = (e.selections.map List.eraseDups).eraseDupsBy sameTokens := by
  have hall : (expand e).filter (groupKey · ∉ (∅ : Std.ExtTreeSet (List Token))) = expand e :=
    List.filter_eq_self.mpr (by simp)
  rw [ofExpr, dropRepeats_eq_eraseDupsBy, hall, expand_eq_map_distinct,
    funext distinct_eq_eraseDups]

/-- The third of four selections has the tokens of the second in another order. -/
example :
    let e := Expr.node .and [.node .or [.literal "a", .literal "b"],
      .node .or [.literal "a", .literal "b"]]
    e.selections = [["a", "a"], ["a", "b"], ["b", "a"], ["b", "b"]] ∧
      (ofExpr e).groups = [["a"], ["a", "b"], ["b"]] := by
  decide +kernel

end NormalForm

end TokenSearch
