import TokenSearch.Proofs.Expression

/-!
# Rebuilding expressions

An expression is rebuilt by combining anew, from the bottom upwards, what stands below each of
its nodes. On canonical expressions it does not matter for a combination how its operands were
combined before, so the rebuilt expression only depends on the operands that are left when all
nodes of one kind are spliced. A canonical expression is its own rebuilding.
-/

namespace TokenSearch.Expr

mutual

/-- The expression with every node combined anew, from the bottom upwards. -/
def rebuild : Expr → Expr
  | .literal token => .literal token
  | .node op operands => combine op (rebuildAll operands)

/-- Rebuild every expression of a list. -/
def rebuildAll : List Expr → List Expr
  | [] => []
  | e :: es => rebuild e :: rebuildAll es

end

theorem rebuildAll_eq_map (es : List Expr) : rebuildAll es = es.map rebuild := by
  induction es with
  | nil => rfl
  | cons e es ih => rw [rebuildAll, ih, List.map_cons]

@[simp] theorem rebuild_literal (token : Token) : (literal token).rebuild = .literal token := rfl

@[simp] theorem rebuild_node (op : Connective) (operands : List Expr) :
    (node op operands).rebuild = combine op (operands.map rebuild) := by
  rw [rebuild, rebuildAll_eq_map]

/-- What is no node of a kind contributes itself to a node of that kind. -/
theorem operandsFor_eq_self {op : Connective} {e : Expr} (h : ∀ inner, e ≠ .node op inner) :
    operandsFor op e = [e] := by
  cases e with
  | literal token => rfl
  | node kind operands =>
    refine if_neg ?_
    rintro rfl
    exact h operands rfl

/-- To a node of its own kind a node contributes its operands; all else contributes itself. -/
theorem operandsFor_cases (op : Connective) (e : Expr) :
    (∃ operands, e = .node op operands ∧ operandsFor op e = operands) ∨ operandsFor op e = [e] := by
  by_cases hkind : ∃ operands, e = .node op operands
  · obtain ⟨operands, rfl⟩ := hkind
    exact Or.inl ⟨operands, rfl, if_pos rfl⟩
  · exact Or.inr (operandsFor_eq_self fun inner hinner => hkind ⟨inner, hinner⟩)

/-- A combination is determined by the operands that its parts contribute. -/
theorem combine_congr {op : Connective} {es fs : List Expr}
    (h : es.flatMap (operandsFor op) = fs.flatMap (operandsFor op)) :
    combine op es = combine op fs := by
  rw [combine, combine, h]

/-- A combination of canonical expressions contributes just what its parts contribute. -/
theorem operandsFor_combine {op : Connective} {es : List Expr} (h : ∀ e ∈ es, e.Canonical) :
    operandsFor op (combine op es) = es.flatMap (operandsFor op) := by
  rcases combine_cases op es with hone | ⟨hnode, -⟩
  · have hmem : combine op es ∈ es.flatMap (operandsFor op) := by
      rw [hone]
      exact List.mem_singleton_self _
    obtain ⟨e, he, hcombined⟩ := List.mem_flatMap.mp hmem
    rw [hone]
    refine operandsFor_eq_self ?_
    intro inner hinner
    rw [hinner] at hcombined
    exact ((h e he).operandsFor op).2.1 inner hcombined
  · rw [hnode, operandsFor, if_pos rfl]

/-- Operands may be combined in two steps: what stands behind the first one may be put together
in any way that denotes the same. -/
theorem combine_append {op : Connective} {es fs gs : List Expr} (hes : ∀ e ∈ es, e.Canonical)
    (hfs : ∀ e ∈ fs, e.Canonical) (hgs : ∀ e ∈ gs, e.Canonical)
    (h : combine op fs = combine op gs) :
    combine op (es ++ fs) = combine op (combine op es :: gs) := by
  apply combine_congr
  rw [List.flatMap_append, List.flatMap_cons, operandsFor_combine hes, ← operandsFor_combine hfs,
    h, operandsFor_combine hgs]

/-- Operands of other kinds than their node contribute themselves. -/
theorem flatMap_operandsFor_eq_self {op : Connective} {operands : List Expr}
    (flat : ∀ inner, .node op inner ∉ operands) :
    operands.flatMap (operandsFor op) = operands := by
  have hself : operands.map (operandsFor op) = operands.map fun e => [e] := by
    refine List.map_congr_left ?_
    intro e he
    refine operandsFor_eq_self ?_
    rintro inner rfl
    exact flat inner he
  rw [List.flatMap_def, hself, ← List.flatMap_def, List.flatMap_singleton']

/-- At least two operands of other kinds are combined to a node over just these operands. -/
theorem combine_eq_node {op : Connective} {operands : List Expr} (two : 2 ≤ operands.length)
    (flat : ∀ inner, .node op inner ∉ operands) : combine op operands = .node op operands := by
  rcases combine_cases op operands with hone | ⟨hnode, -⟩
  · rw [flatMap_operandsFor_eq_self flat] at hone
    rw [hone] at two
    simp at two
  · rw [hnode, flatMap_operandsFor_eq_self flat]

/-- A single canonical operand stands for itself. -/
theorem combine_singleton {e : Expr} (h : e.Canonical) (op : Connective) : combine op [e] = e := by
  rcases operandsFor_cases op e with ⟨operands, rfl, hoperands⟩ | hself
  · cases h with
    | node two flat _ =>
      have hsplice : combine op [.node op operands] = combine op operands := by
        apply combine_congr
        rw [List.flatMap_singleton, hoperands, flatMap_operandsFor_eq_self flat]
      rw [hsplice, combine_eq_node two flat]
  · rw [combine, List.flatMap_singleton, hself]

/-- Rebuilding an expression without empty nodes makes it canonical. -/
theorem Populated.canonical_rebuild {e : Expr} (h : e.Populated) : e.rebuild.Canonical := by
  induction h with
  | literal token => exact .literal token
  | @node op operands nonempty _ ih =>
    rw [rebuild_node]
    refine canonical_combine (by simpa using nonempty) ?_
    exact List.forall_mem_map.mpr ih

/-- A canonical expression is its own rebuilding. -/
theorem Canonical.rebuild_eq {e : Expr} (h : e.Canonical) : e.rebuild = e := by
  induction h with
  | literal token => rfl
  | @node op operands two flat _ ih =>
    rw [rebuild_node, List.map_congr_left ih, List.map_id', combine_eq_node two flat]

end TokenSearch.Expr
