import TokenSearch.Expr

/-!
# The shape of expressions

An expression is populated when none of its nodes is without operands, and canonical when every
node has at least two operands and none of its own kind. Combining canonical expressions makes
a canonical one, and no literal is lost, added or moved on the way.
-/

namespace TokenSearch.Expr

/-- What holds of literals, and of a node when it holds of all its operands, holds always. -/
@[elab_as_elim]
theorem operandInduction {motive : Expr → Prop} (literal : ∀ token, motive (.literal token))
    (node : ∀ op operands, (∀ e ∈ operands, motive e) → motive (.node op operands)) (e : Expr) :
    motive e :=
  @Expr.rec motive (fun es => ∀ e ∈ es, motive e) literal node nofun
    (fun _ _ he hes => List.forall_mem_cons.mpr ⟨he, hes⟩) e

/-- Every node has an operand. -/
inductive Populated : Expr → Prop
  | literal (token : Token) : Populated (.literal token)
  | node {op : Connective} {operands : List Expr} (nonempty : operands ≠ [])
      (populated : ∀ e ∈ operands, Populated e) : Populated (.node op operands)

@[simp] theorem populated_literal (token : Token) : (literal token).Populated := .literal token

@[simp] theorem populated_node_iff {op : Connective} {operands : List Expr} :
    (node op operands).Populated ↔ operands ≠ [] ∧ ∀ e ∈ operands, e.Populated := by
  constructor
  · rintro (_ | ⟨nonempty, populated⟩)
    exact ⟨nonempty, populated⟩
  · rintro ⟨nonempty, populated⟩
    exact .node nonempty populated

/-- Every node has at least two operands and none of its own kind. -/
inductive Canonical : Expr → Prop
  | literal (token : Token) : Canonical (.literal token)
  | node {op : Connective} {operands : List Expr} (two : 2 ≤ operands.length)
      (flat : ∀ inner, .node op inner ∉ operands) (canonical : ∀ e ∈ operands, Canonical e) :
      Canonical (.node op operands)

/-- A canonical expression has no node without operands. -/
theorem Canonical.populated {e : Expr} (h : e.Canonical) : e.Populated := by
  induction h with
  | literal token => exact .literal token
  | node two _ _ ih =>
    refine .node ?_ ih
    rintro rfl
    simp at two

@[simp] theorem holds_literal (truth : Token → Bool) (token : Token) :
    (literal token).holds truth = truth token := rfl

/-- A conjunction holds when all its operands do. -/
@[simp] theorem holds_and (truth : Token → Bool) (operands : List Expr) :
    (node .and operands).holds truth = operands.all (holds truth) := by
  rw [holds, allHold_eq_all]

/-- A disjunction holds when some operand does. -/
@[simp] theorem holds_or (truth : Token → Bool) (operands : List Expr) :
    (node .or operands).holds truth = operands.any (holds truth) := by
  rw [holds, anyHolds_eq_any]

@[simp] theorem leaves_literal (token : Token) : (literal token).leaves = [token] := rfl

@[simp] theorem leaves_node (op : Connective) (operands : List Expr) :
    (node op operands).leaves = operands.flatMap leaves := by
  rw [leaves, leavesOf_eq_flatMap]

/-- The only operand stands for the node, or there is a node over the spliced operands. -/
theorem combine_cases (op : Connective) (es : List Expr) :
    es.flatMap (operandsFor op) = [combine op es] ∨
      combine op es = .node op (es.flatMap (operandsFor op)) ∧
        (es.flatMap (operandsFor op)).length ≠ 1 := by
  unfold combine
  split
  · rename_i e he
    exact Or.inl he
  · rename_i operands hne
    refine Or.inr ⟨rfl, ?_⟩
    intro hlen
    obtain ⟨e, he⟩ := List.length_eq_one_iff.mp hlen
    exact hne e he

/-- An expression contributes its own literals to any node. -/
theorem flatMap_leaves_operandsFor (op : Connective) (e : Expr) :
    (operandsFor op e).flatMap leaves = e.leaves := by
  cases e with
  | literal token => rfl
  | node kind operands =>
    rw [operandsFor]
    split
    · rw [leaves_node]
    · rw [List.flatMap_singleton]

/-- Combining keeps the literals and their order. -/
theorem leaves_combine (op : Connective) (es : List Expr) :
    (combine op es).leaves = es.flatMap leaves := by
  have hsplice : (es.flatMap (operandsFor op)).flatMap leaves = es.flatMap leaves := by
    rw [List.flatMap_assoc]
    exact congrArg (es.flatMap ·) (funext (flatMap_leaves_operandsFor op))
  rcases combine_cases op es with hone | ⟨hnode, -⟩
  · rw [hone, List.flatMap_singleton] at hsplice
    exact hsplice
  · rw [hnode, leaves_node, hsplice]

/-- What a canonical expression contributes to a node is canonical and not of the node's kind. -/
theorem Canonical.operandsFor {e : Expr} (h : e.Canonical) (op : Connective) :
    e.operandsFor op ≠ [] ∧ (∀ inner, .node op inner ∉ e.operandsFor op) ∧
      ∀ operand ∈ e.operandsFor op, operand.Canonical := by
  cases h with
  | literal token => simp [Expr.operandsFor, Canonical.literal]
  | @node kind operands two flat canonical =>
    by_cases hk : kind = op
    · subst hk
      have hne : operands ≠ [] := by
        rintro rfl
        simp at two
      rw [Expr.operandsFor, if_pos rfl]
      exact ⟨hne, flat, canonical⟩
    · rw [Expr.operandsFor, if_neg hk]
      refine ⟨List.cons_ne_nil _ _, ?_, ?_⟩
      · intro inner hi
        have hkinds := (Expr.node.inj (List.mem_singleton.mp hi)).1
        exact hk hkinds.symm
      · intro operand ho
        rw [List.mem_singleton.mp ho]
        exact .node two flat canonical

/-- Combining canonical expressions makes a canonical one. -/
theorem canonical_combine {op : Connective} {es : List Expr} (hne : es ≠ [])
    (h : ∀ e ∈ es, e.Canonical) : (combine op es).Canonical := by
  have hcanonical : ∀ operand ∈ es.flatMap (operandsFor op), operand.Canonical := by
    intro operand ho
    obtain ⟨e, he, ho⟩ := List.mem_flatMap.mp ho
    exact ((h e he).operandsFor op).2.2 operand ho
  rcases combine_cases op es with hone | ⟨hnode, hlen⟩
  · have hmem : combine op es ∈ es.flatMap (operandsFor op) := by
      rw [hone]
      exact List.mem_singleton_self _
    exact hcanonical _ hmem
  · have htwo : 2 ≤ (es.flatMap (operandsFor op)).length := by
      obtain ⟨e, he⟩ := List.exists_mem_of_ne_nil es hne
      obtain ⟨operand, ho⟩ := List.exists_mem_of_ne_nil _ ((h e he).operandsFor op).1
      have hpos := List.length_pos_of_mem (List.mem_flatMap.mpr ⟨e, he, ho⟩)
      omega
    have hflat : ∀ inner, .node op inner ∉ es.flatMap (operandsFor op) := by
      intro inner hi
      obtain ⟨e, he, hi⟩ := List.mem_flatMap.mp hi
      exact ((h e he).operandsFor op).2.1 inner hi
    rw [hnode]
    exact .node htwo hflat hcanonical

end TokenSearch.Expr
