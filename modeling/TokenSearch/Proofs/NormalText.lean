import TokenSearch.Proofs.Distribution
import TokenSearch.Proofs.Reparsing

/-!
# Normal forms are fixed points through text

The text of a normal form is that of an expression, a disjunction of conjunctions of its tokens.
It has no parentheses, so it is read back, and distributing over it finds the groups as they
stand. As the groups of a normal form are without repeats, normalizing what was read gives the
form again.
-/

namespace TokenSearch.NormalForm

/-- The conjunction of the tokens of a group. -/
def groupExpr (group : Group) : Expr := .node .and (group.map .literal)

/-- The disjunction of the groups of a form. -/
def toExpr (form : NormalForm) : Expr := .node .or (form.groups.map groupExpr)

theorem text_groupExpr (group : Group) : (groupExpr group).text = " & ".intercalate group := by
  have htokens : (group.map Expr.literal).map (Expr.operandText .and) = group := by
    rw [List.map_map]
    exact List.map_id group
  rw [groupExpr, Expr.text_node, htokens]
  rfl

/-- A form and its expression have one text. -/
theorem text_toExpr (form : NormalForm) : form.toExpr.text = form.text := by
  have hgroups : (form.groups.map groupExpr).map (Expr.operandText .or) =
      form.groups.map fun group => " & ".intercalate group := by
    rw [List.map_map]
    refine List.map_congr_left ?_
    intro group _
    rw [Function.comp_apply, Expr.operandText, if_neg (Expr.not_parenthesized_or _), text_groupExpr]
  rw [toExpr, Expr.text_node, hgroups]
  rfl

/-- The leaves of a form's expression are the tokens of its groups. -/
theorem mem_leaves_toExpr {form : NormalForm} {token : Token} :
    token ∈ form.toExpr.leaves ↔ ∃ group ∈ form.groups, token ∈ group := by
  simp [toExpr, groupExpr, List.mem_flatMap]

/-- A form with groups, each of them with tokens, has an expression without empty nodes. -/
theorem populated_toExpr {form : NormalForm} (hform : form.groups ≠ [])
    (hgroups : ∀ group ∈ form.groups, group ≠ []) : form.toExpr.Populated := by
  refine .node (by simpa using hform) ?_
  refine List.forall_mem_map.mpr ?_
  intro group hg
  refine .node (by simpa using hgroups group hg) ?_
  exact List.forall_mem_map.mpr fun token _ => .literal token

/-- No disjunction stands below a conjunction in the expression of a form. -/
theorem groupsOn_toExpr (form : NormalForm) :
    ∀ path ∈ form.toExpr.paths, Expr.groupsOn path = 0 := by
  rw [toExpr, Expr.forall_mem_paths_node, List.forall_mem_map]
  intro group _
  rw [groupExpr, Expr.forall_mem_paths_node, List.forall_mem_map]
  intro token _ path hpath
  rw [List.mem_singleton.mp hpath]
  rfl

/-- The groups of a conjunction of tokens are merged with these tokens. -/
theorem expandAll_literals (left : Group) (tokens : List Token) :
    expandAll [left] (tokens.map .literal) = [mergeDistinct left tokens] := by
  induction tokens generalizing left with
  | nil => rfl
  | cons token tokens ih => exact ih (appendNew left token)

/-- Distributing over the expression of a form finds its groups, if they are without repeats. -/
theorem expand_toExpr {form : NormalForm} (h : ∀ group ∈ form.groups, group.Nodup) :
    expand form.toExpr = form.groups := by
  have hgroup : ∀ group ∈ form.groups, expand (groupExpr group) = [group] := by
    intro group hg
    rw [groupExpr, expand, expandAll_literals]
    exact congrArg (fun tokens => [tokens]) (distinct_eq_self (h group hg))
  rw [toExpr, expand, expandAny_eq_flatMap, List.flatMap_map, List.flatMap_congr hgroup,
    List.flatMap_singleton']

/-- The groups of an expression's normal form are groups of the expression. -/
theorem mem_expand_of_mem_ofExpr {e : Expr} {group : Group} (hg : group ∈ (ofExpr e).groups) :
    group ∈ expand e :=
  (dropRepeats_sublist ∅ (expand e)).subset hg

/-- The expression of a normal form has this normal form. -/
theorem ofExpr_toExpr_ofExpr (e : Expr) : ofExpr (ofExpr e).toExpr = ofExpr e := by
  have hnodup : ∀ group ∈ (ofExpr e).groups, group.Nodup := fun group hg =>
    nodup_of_mem_expand e group (mem_expand_of_mem_ofExpr hg)
  rw [ofExpr, expand_toExpr hnodup, ofExpr, dropRepeats_dropRepeats]

/-- The text of the normal form of an expression without empty nodes over tokens is read, and
what is read has the same normal form: the same groups with the same tokens in the same order. -/
theorem ofExpr_of_parse_text {e : Expr} (h : e.Populated)
    (htokens : ∀ token ∈ e.leaves, isToken token = true) :
    ∃ read, Expr.parse (ofExpr e).text = .ok read ∧ ofExpr read = ofExpr e := by
  have hpopulated : (ofExpr e).toExpr.Populated := by
    refine populated_toExpr (dropRepeats_ne_nil (expand_ne_nil h)) ?_
    intro group hg
    exact ne_nil_of_mem_expand h group (mem_expand_of_mem_ofExpr hg)
  have hleaves : ∀ token ∈ (ofExpr e).toExpr.leaves, isToken token = true := by
    intro token ht
    obtain ⟨group, hg, ht⟩ := mem_leaves_toExpr.mp ht
    exact htokens token (mem_leaves_of_mem_expand (mem_expand_of_mem_ofExpr hg) ht)
  have hfits : ∀ path ∈ (ofExpr e).toExpr.paths, Expr.groupsOn path ≤ nestingLimit := by
    intro path hpath
    rw [groupsOn_toExpr (ofExpr e) path hpath]
    exact Nat.zero_le _
  have hread := Expr.parse_text_of_groupsOn_le hpopulated hleaves hfits
  rw [text_toExpr] at hread
  exact ⟨_, hread, by rw [ofExpr_rebuild, ofExpr_toExpr_ofExpr]⟩

/-- A form with repeats within groups and between them, from nodes of one operand and of their
own kind. -/
theorem ofExpr_of_parse_text_repeats :
    let e := Expr.node .and [.node .or [.literal "a", .node .and [.literal "b", .literal "a"]],
      .node .or [.node .or [.literal "b"], .literal "a"]]
    (e.Populated ∧ ∀ token ∈ e.leaves, isToken token = true) ∧ (ofExpr e).text = "a & b | a" ∧
      ∃ read, Expr.parse (ofExpr e).text = .ok read ∧ ofExpr read = ofExpr e := by
  intro e
  have h : e.Populated := by simp [e]
  have htokens : ∀ token ∈ e.leaves, isToken token = true := by decide +kernel
  exact ⟨⟨h, htokens⟩, by decide +kernel, ofExpr_of_parse_text h htokens⟩

end TokenSearch.NormalForm
