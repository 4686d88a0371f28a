import TokenSearch.Proofs.Selections

/-!
# The groups of a normal form

No group of a normal form repeats a token and no two have the same tokens, whatever the expression
looks like. When none of its nodes is empty, some selection has any given literal, so the groups,
of which there are some and none of which is empty, have just the literals of the expression: of
groups with the same tokens one is kept. Without a disjunction there is only one selection, which
has the literals in their order.
-/

namespace TokenSearch

namespace Expr

/-- No node is a disjunction. -/
inductive OrFree : Expr → Prop
  | literal (token : Token) : OrFree (.literal token)
  | node {operands : List Expr} (orFree : ∀ e ∈ operands, OrFree e) :
      OrFree (.node .and operands)

/-- When all expressions of a list have selections, so has the list, and what a selection of one
of them has is in one of the list. -/
theorem exists_selectionsOfAll_superset {es : List Expr} (h : ∀ e ∈ es, e.selections ≠ []) :
    selectionsOfAll es ≠ [] ∧
      ∀ e ∈ es, ∀ selection ∈ e.selections, ∃ whole ∈ selectionsOfAll es, selection ⊆ whole := by
  induction es with
  | nil => exact ⟨List.cons_ne_nil _ _, nofun⟩
  | cons e es ih =>
    obtain ⟨he, hes⟩ := List.forall_mem_cons.mp h
    obtain ⟨hrest, hsuperset⟩ := ih hes
    obtain ⟨first, hfirst⟩ := List.exists_mem_of_ne_nil _ he
    obtain ⟨last, hlast⟩ := List.exists_mem_of_ne_nil _ hrest
    have hmem : ∀ first ∈ e.selections, ∀ rest ∈ selectionsOfAll es,
        first ++ rest ∈ selectionsOfAll (e :: es) := fun first hf rest hr =>
      List.mem_flatMap.mpr ⟨first, hf, List.mem_map_of_mem hr⟩
    refine ⟨List.ne_nil_of_mem (hmem first hfirst last hlast), ?_⟩
    rw [List.forall_mem_cons]
    constructor
    · intro selection hs
      exact ⟨selection ++ last, hmem selection hs last hlast, List.subset_append_left _ _⟩
    · intro e he selection hs
      obtain ⟨rest, hr, hsub⟩ := hsuperset e he selection hs
      exact ⟨first ++ rest, hmem first hfirst rest hr, List.subset_append_of_subset_right _ hsub⟩

/-- An expression without empty nodes has selections, and some selection has any given leaf. -/
theorem Populated.exists_selection {e : Expr} (h : e.Populated) :
    e.selections ≠ [] ∧ ∀ token ∈ e.leaves, ∃ selection ∈ e.selections, token ∈ selection := by
  induction h with
  | literal token => simp [selections]
  | @node op operands nonempty _ ih =>
    simp only [leaves_node, List.mem_flatMap, forall_exists_index, and_imp]
    cases op with
    | and =>
      obtain ⟨hne, hsuperset⟩ := exists_selectionsOfAll_superset fun e he => (ih e he).1
      refine ⟨hne, fun token e he ht => ?_⟩
      obtain ⟨selection, hs, ht⟩ := (ih e he).2 token ht
      obtain ⟨whole, hwhole, hsub⟩ := hsuperset e he selection hs
      exact ⟨whole, hwhole, hsub ht⟩
    | or =>
      rw [selections, selectionsOfAny_eq_flatMap]
      constructor
      · obtain ⟨e, he⟩ := List.exists_mem_of_ne_nil operands nonempty
        obtain ⟨selection, hs⟩ := List.exists_mem_of_ne_nil _ (ih e he).1
        exact List.ne_nil_of_mem (List.mem_flatMap.mpr ⟨e, he, hs⟩)
      · intro token e he ht
        obtain ⟨selection, hs, ht⟩ := (ih e he).2 token ht
        exact ⟨selection, List.mem_flatMap.mpr ⟨e, he, hs⟩, ht⟩

private theorem selectionsOfAll_eq_singleton {es : List Expr}
    (h : ∀ e ∈ es, e.selections = [e.leaves]) : selectionsOfAll es = [es.flatMap leaves] := by
  induction es with
  | nil => rfl
  | cons e es ih =>
    obtain ⟨he, hes⟩ := List.forall_mem_cons.mp h
    rw [selectionsOfAll, he, ih hes]
    rfl

/-- Without a disjunction, all leaves are selected at once. -/
theorem OrFree.selections_eq {e : Expr} (h : e.OrFree) : e.selections = [e.leaves] := by
  induction h with
  | literal token => rfl
  | node _ ih => rw [selections, selectionsOfAll_eq_singleton ih, leaves_node]

end Expr

namespace NormalForm

/-- Dropping repeats loses no token. -/
theorem exists_mem_dropRepeats_iff {groups : List Group} {token : Token} :
    (∃ group ∈ dropRepeats ∅ groups, token ∈ group) ↔ ∃ group ∈ groups, token ∈ group := by
  constructor
  · rintro ⟨group, hg, ht⟩
    exact ⟨group, (dropRepeats_sublist ∅ groups).subset hg, ht⟩
  · rintro ⟨group, hg, ht⟩
    obtain ⟨kept, hkept, hkey⟩ := exists_mem_dropRepeats hg Std.ExtTreeSet.not_mem_empty
    exact ⟨kept, hkept, (groupKey_eq_iff.mp hkey token).mpr ht⟩

/-- The groups of an expression without empty nodes have its literals and no other tokens. -/
theorem exists_mem_expand_iff {e : Expr} (h : e.Populated) {token : Token} :
    (∃ group ∈ expand e, token ∈ group) ↔ token ∈ e.literals := by
  rw [Expr.literals, mem_distinct]
  constructor
  · rintro ⟨group, hg, ht⟩
    exact mem_leaves_of_mem_expand hg ht
  · intro ht
    obtain ⟨selection, hs, ht⟩ := h.exists_selection.2 token ht
    rw [expand_eq_map_distinct]
    exact ⟨distinct selection, List.mem_map_of_mem hs, mem_distinct.mpr ht⟩

/-- An expression without a disjunction has one group, its literals. -/
theorem expand_of_orFree {e : Expr} (h : e.OrFree) : expand e = [e.literals] := by
  rw [expand_eq_map_distinct, h.selections_eq]
  rfl

/-- No group of a normal form repeats a token, and no two groups have the same tokens. If no node
of the expression is empty, there is a group, no group is empty, and the groups have the literals
of the expression and no other tokens. If no node is a disjunction, there is just one group, the
literals in their order. -/
theorem normal_ofExpr (e : Expr) :
    (∀ group ∈ (ofExpr e).groups, group.Nodup) ∧
      (ofExpr e).groups.Pairwise
        (fun first second => ¬∀ token, token ∈ first ↔ token ∈ second) ∧
      (e.Populated → (ofExpr e).groups ≠ [] ∧ (∀ group ∈ (ofExpr e).groups, group ≠ []) ∧
        ∀ token, (∃ group ∈ (ofExpr e).groups, token ∈ group) ↔ token ∈ e.literals) ∧
      (e.OrFree → (ofExpr e).groups = [e.literals]) := by
  have hsub : (ofExpr e).groups ⊆ expand e := (dropRepeats_sublist ∅ (expand e)).subset
  refine ⟨?_, ?_, ?_, ?_⟩
  · intro group hg
    exact nodup_of_mem_expand e group (hsub hg)
  · refine (pairwise_dropRepeats ∅ (expand e)).1.imp ?_
    intro first second hkeys hsame
    exact hkeys (groupKey_eq_iff.mpr hsame)
  · intro h
    refine ⟨dropRepeats_ne_nil (expand_ne_nil h), ?_, ?_⟩
    · intro group hg
      exact ne_nil_of_mem_expand h group (hsub hg)
    · intro token
      exact exists_mem_dropRepeats_iff.trans (exists_mem_expand_iff h)
  · intro h
    rw [ofExpr, expand_of_orFree h]
    exact dropRepeats_eq_self (List.pairwise_singleton _ _) fun _ _ => Std.ExtTreeSet.not_mem_empty

/-- Three of six groups are dropped, and a conjunction has a repeat below another one. -/
theorem normal_ofExpr_repeats :
    let e := Expr.node .and [.node .or [.literal "a", .literal "b"],
      .node .or [.literal "b", .literal "a", .node .and [.literal "b", .literal "a", .literal "b"]]]
    let conjunction := Expr.node .and [.literal "b", .node .and [.literal "a", .literal "b"]]
    (e.Populated ∧ conjunction.OrFree) ∧ (ofExpr e).groups = [["a", "b"], ["a"], ["b"]] ∧
      ((ofExpr e).groups ≠ [] ∧ (∀ group ∈ (ofExpr e).groups, group ≠ []) ∧
        ∀ token, (∃ group ∈ (ofExpr e).groups, token ∈ group) ↔ token ∈ e.literals) ∧
      (ofExpr conjunction).groups = [conjunction.literals] := by
  intro e conjunction
  have h : e.Populated := by simp [e]
  have hconjunction : conjunction.OrFree := by
    refine .node ?_
    simp [Expr.OrFree.literal, Expr.OrFree.node]
  exact ⟨⟨h, hconjunction⟩, by decide +kernel, (normal_ofExpr e).2.2.1 h,
    (normal_ofExpr conjunction).2.2.2 hconjunction⟩

end NormalForm

end TokenSearch
