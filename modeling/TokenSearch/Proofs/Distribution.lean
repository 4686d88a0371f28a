import Mathlib.Data.List.Basic
import TokenSearch.Proofs.NormalForm
import TokenSearch.Proofs.Rebuild

/-!
# The algebra of distribution

Products of groups are associative and have the product of nothing as their unit. So the groups
of a conjunction do not depend on how its operands are spliced: a combination has the same groups
in the same order as the plain node over its parts, and rebuilding an expression keeps its
groups. Dropping repeats a second time changes nothing.
-/

namespace TokenSearch.NormalForm

/-- Products of groups are associative. -/
theorem distribute_assoc (lefts middles rights : List Group) :
    distribute (distribute lefts middles) rights =
      distribute lefts (distribute middles rights) := by
  simp only [distribute, List.flatMap_assoc, List.flatMap_map, List.map_flatMap, List.map_map,
    Function.comp_def, ← mergeDistinct_assoc]

/-- A product with the one empty group on the right is the left factor. -/
theorem distribute_one_right (lefts : List Group) : distribute lefts [[]] = lefts := by
  have hright : ∀ left : Group, [([] : Group)].map (mergeDistinct left) = [left] := fun _ => rfl
  rw [distribute, funext hright, List.flatMap_singleton']

/-- A product with the one empty group on the left is the right factor without the repeats in
its groups. -/
theorem distribute_one_left (rights : List Group) :
    distribute [[]] rights = rights.map distinct := by
  rw [distribute, List.flatMap_singleton]
  rfl

/-- Groups are all without repeats when the groups that they are merged from on the left are. -/
theorem nodup_of_mem_expandAll {lefts : List Group} (h : ∀ left ∈ lefts, left.Nodup)
    (es : List Expr) : ∀ group ∈ expandAll lefts es, group.Nodup := by
  induction es generalizing lefts with
  | nil => exact h
  | cons e es ih =>
    refine ih ?_
    intro merged hm
    obtain ⟨left, hl, right, -, rfl⟩ := mem_distribute.mp hm
    exact nodup_mergeDistinct (h left hl) right

/-- No group of an expression repeats a token. -/
theorem nodup_of_mem_expand (e : Expr) : ∀ group ∈ expand e, group.Nodup := by
  induction e using Expr.operandInduction with
  | literal token => simp [expand]
  | node op operands ih =>
    cases op with
    | and => exact nodup_of_mem_expandAll (by simp) operands
    | or =>
      rw [expand, expandAny_eq_flatMap]
      exact List.forall_mem_flatMap.mpr ih

/-- The groups of further operands are a factor of their own. -/
theorem expandAll_eq_distribute (lefts : List Group) (es : List Expr) :
    expandAll lefts es = distribute lefts (expandAll [[]] es) := by
  induction es generalizing lefts with
  | nil => exact (distribute_one_right lefts).symm
  | cons e es ih =>
    have hunit := distribute_assoc lefts [[]] (expand e)
    rw [distribute_one_right] at hunit
    rw [expandAll, ih, expandAll, ih (distribute [[]] (expand e)), ← distribute_assoc, ← hunit]

theorem expandAll_append (lefts : List Group) (es fs : List Expr) :
    expandAll lefts (es ++ fs) = expandAll (expandAll lefts es) fs := by
  rw [expandAll_eq_foldl, List.foldl_append, ← expandAll_eq_foldl, ← expandAll_eq_foldl]

/-- A node over one operand has the groups of this operand. -/
theorem expand_node_singleton (op : Connective) (e : Expr) : expand (.node op [e]) = expand e := by
  cases op with
  | or => rw [expand, expandAny_eq_flatMap, List.flatMap_singleton]
  | and =>
    have hself : (expand e).map distinct = (expand e).map id :=
      List.map_congr_left fun group hg => distinct_eq_self (nodup_of_mem_expand e group hg)
    rw [expand, expandAll, expandAll, distribute_one_left, hself, List.map_id]

/-- What an expression contributes to a node has the groups of the expression. -/
theorem expand_operandsFor (op : Connective) (e : Expr) :
    expand (.node op (Expr.operandsFor op e)) = expand e := by
  rcases Expr.operandsFor_cases op e with ⟨operands, rfl, hoperands⟩ | hself
  · rw [hoperands]
  · rw [hself, expand_node_singleton]

/-- Splicing operands of a node's own kind keeps its groups. -/
theorem expand_splice (op : Connective) (es : List Expr) :
    expand (.node op (es.flatMap (Expr.operandsFor op))) = expand (.node op es) := by
  cases op with
  | or =>
    simp only [expand, expandAny_eq_flatMap, List.flatMap_assoc]
    refine List.flatMap_congr ?_
    intro e he
    have hcontributed := expand_operandsFor .or e
    rwa [expand, expandAny_eq_flatMap] at hcontributed
  | and =>
    have hall : ∀ lefts, expandAll lefts (es.flatMap (Expr.operandsFor .and)) =
        expandAll lefts es := by
      induction es with
      | nil => exact fun _ => rfl
      | cons e es ih =>
        intro lefts
        have hcontributed := expand_operandsFor .and e
        rw [expand] at hcontributed
        rw [List.flatMap_cons, expandAll_append, ih, expandAll, expandAll_eq_distribute lefts,
          hcontributed]
    rw [expand, expand, hall]

/-- A combination has the groups of the plain node, in the same order. -/
theorem expand_combine (op : Connective) (es : List Expr) :
    expand (Expr.combine op es) = expand (.node op es) := by
  rw [← expand_splice]
  rcases Expr.combine_cases op es with hone | ⟨hnode, -⟩
  · rw [hone, expand_node_singleton]
  · rw [hnode]

/-- The groups of a node are determined by those of its operands. -/
theorem expand_node_congr (op : Connective) {f : Expr → Expr} {operands : List Expr}
    (h : ∀ e ∈ operands, expand (f e) = expand e) :
    expand (.node op (operands.map f)) = expand (.node op operands) := by
  cases op with
  | or =>
    simp only [expand, expandAny_eq_flatMap, List.flatMap_map]
    exact List.flatMap_congr h
  | and =>
    simp only [expand, expandAll_eq_foldl, List.foldl_map]
    refine List.foldl_ext _ _ _ ?_
    intro lefts e he
    rw [h e he]

/-- Rebuilding an expression keeps its groups, in the same order. -/
theorem expand_rebuild (e : Expr) : expand e.rebuild = expand e := by
  induction e using Expr.operandInduction with
  | literal token => rfl
  | node op operands ih => rw [Expr.rebuild_node, expand_combine, expand_node_congr op ih]

/-- Rebuilding an expression keeps its normal form. -/
theorem ofExpr_rebuild (e : Expr) : ofExpr e.rebuild = ofExpr e := by
  rw [ofExpr, ofExpr, expand_rebuild]

private theorem mem_of_mem_expandAll {lefts : List Group} {es : List Expr} {group : Group}
    (hg : group ∈ expandAll lefts es) {token : Token} (ht : token ∈ group) :
    (∃ left ∈ lefts, token ∈ left) ∨ ∃ e ∈ es, ∃ right ∈ expand e, token ∈ right := by
  induction es generalizing lefts with
  | nil => exact Or.inl ⟨group, hg, ht⟩
  | cons e es ih =>
    rcases ih hg with ⟨merged, hm, ht⟩ | ⟨other, ho, hright⟩
    · obtain ⟨left, hl, right, hr, rfl⟩ := mem_distribute.mp hm
      rcases mem_mergeDistinct.mp ht with ht | ht
      · exact Or.inl ⟨left, hl, ht⟩
      · exact Or.inr ⟨e, List.mem_cons_self, right, hr, ht⟩
    · exact Or.inr ⟨other, List.mem_cons_of_mem e ho, hright⟩

/-- The tokens of the groups are leaves of the expression. -/
theorem mem_leaves_of_mem_expand {e : Expr} {group : Group} (hg : group ∈ expand e)
    {token : Token} (ht : token ∈ group) : token ∈ e.leaves := by
  induction e using Expr.operandInduction generalizing group with
  | literal name =>
    obtain rfl := List.mem_singleton.mp hg
    exact ht
  | node op operands ih =>
    rw [Expr.leaves_node, List.mem_flatMap]
    cases op with
    | or =>
      rw [expand, expandAny_eq_flatMap] at hg
      obtain ⟨e, he, hg⟩ := List.mem_flatMap.mp hg
      exact ⟨e, he, ih e he hg ht⟩
    | and =>
      rcases mem_of_mem_expandAll hg ht with ⟨left, hl, ht⟩ | ⟨e, he, right, hr, ht⟩
      · rw [List.mem_singleton.mp hl] at ht
        cases ht
      · exact ⟨e, he, ih e he hr ht⟩

/-- A product of some groups with some others is not without groups. -/
theorem distribute_ne_nil {lefts rights : List Group} (hl : lefts ≠ []) (hr : rights ≠ []) :
    distribute lefts rights ≠ [] := by
  obtain ⟨left, hl⟩ := List.exists_mem_of_ne_nil lefts hl
  obtain ⟨right, hr⟩ := List.exists_mem_of_ne_nil rights hr
  exact List.ne_nil_of_mem (mem_distribute.mpr ⟨left, hl, right, hr, rfl⟩)

private theorem expandAll_ne_nil {lefts : List Group} (hl : lefts ≠ []) {es : List Expr}
    (h : ∀ e ∈ es, expand e ≠ []) : expandAll lefts es ≠ [] := by
  induction es generalizing lefts with
  | nil => exact hl
  | cons e es ih =>
    obtain ⟨he, hes⟩ := List.forall_mem_cons.mp h
    exact ih (distribute_ne_nil hl he) hes

/-- When no node is without operands, there is a group. -/
theorem expand_ne_nil {e : Expr} (h : e.Populated) : expand e ≠ [] := by
  induction h with
  | literal token => exact List.cons_ne_nil _ _
  | @node op operands nonempty _ ih =>
    cases op with
    | and => exact expandAll_ne_nil (List.cons_ne_nil _ _) ih
    | or =>
      obtain ⟨e, he⟩ := List.exists_mem_of_ne_nil operands nonempty
      obtain ⟨group, hg⟩ := List.exists_mem_of_ne_nil _ (ih e he)
      rw [expand, expandAny_eq_flatMap]
      exact List.ne_nil_of_mem (List.mem_flatMap.mpr ⟨e, he, hg⟩)

/-- Dropping repeats leaves some group if there was one. -/
theorem dropRepeats_ne_nil {groups : List Group} (h : groups ≠ []) : dropRepeats ∅ groups ≠ [] := by
  obtain ⟨group, hg⟩ := List.exists_mem_of_ne_nil groups h
  obtain ⟨kept, hkept, -⟩ := exists_mem_dropRepeats hg Std.ExtTreeSet.not_mem_empty
  exact List.ne_nil_of_mem hkept

/-- The groups that are kept have keys that differ from each other and from the seen ones. -/
theorem pairwise_dropRepeats (seen : Std.ExtTreeSet (List Token)) (groups : List Group) :
    (dropRepeats seen groups).Pairwise (groupKey · ≠ groupKey ·) ∧
      ∀ group ∈ dropRepeats seen groups, groupKey group ∉ seen := by
  induction groups generalizing seen with
  | nil => exact ⟨List.Pairwise.nil, nofun⟩
  | cons group groups ih =>
    rw [dropRepeats]
    split
    · exact ih seen
    · rename_i hnew
      obtain ⟨hpairwise, hunseen⟩ := ih (seen.insert (groupKey group))
      simp only [Std.ExtTreeSet.mem_insert, Std.LawfulEqOrd.compare_eq_iff_eq, not_or] at hunseen
      exact ⟨List.pairwise_cons.mpr ⟨fun other ho => (hunseen other ho).1, hpairwise⟩,
        List.forall_mem_cons.mpr ⟨hnew, fun other ho => (hunseen other ho).2⟩⟩

/-- Groups with different keys, none of which was seen, are all kept. -/
theorem dropRepeats_eq_self {seen : Std.ExtTreeSet (List Token)} {groups : List Group}
    (h : groups.Pairwise (groupKey · ≠ groupKey ·)) (hs : ∀ group ∈ groups, groupKey group ∉ seen) :
    dropRepeats seen groups = groups := by
  induction groups generalizing seen with
  | nil => rfl
  | cons group groups ih =>
    obtain ⟨hfirst, hothers⟩ := List.pairwise_cons.mp h
    obtain ⟨hnew, hunseen⟩ := List.forall_mem_cons.mp hs
    have hinsert : ∀ other ∈ groups, groupKey other ∉ seen.insert (groupKey group) := by
      intro other ho
      rw [Std.ExtTreeSet.mem_insert, Std.LawfulEqOrd.compare_eq_iff_eq, not_or]
      exact ⟨hfirst other ho, hunseen other ho⟩
    rw [dropRepeats, if_neg hnew, ih hothers hinsert]

/-- Dropping repeats again changes nothing. -/
theorem dropRepeats_dropRepeats (groups : List Group) :
    dropRepeats ∅ (dropRepeats ∅ groups) = dropRepeats ∅ groups :=
  dropRepeats_eq_self (pairwise_dropRepeats ∅ groups).1 (pairwise_dropRepeats ∅ groups).2

end TokenSearch.NormalForm

namespace TokenSearch.Expr

/-- A combination holds when the plain node does. -/
theorem holds_combine (truth : Token → Bool) (op : Connective) (es : List Expr) :
    (combine op es).holds truth = (node op es).holds truth := by
  rw [← NormalForm.holds_expand, NormalForm.expand_combine, NormalForm.holds_expand]

end TokenSearch.Expr
