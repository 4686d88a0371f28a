import TokenSearch.Proofs.Distribution

/-!
# Connected expressions

A connective is put over at least one expression by splicing the operands of those that are nodes of
the same kind; what is left alone stands for itself. Whatever the given expressions look like, the
result can stand for the plain node over them: it has the same value, the same literals in the same
order, and the same groups in the same order. And when the given expressions are canonical, it is
canonical too, which the plain node need not be.
-/

namespace TokenSearch.Expr

/-- What an expression has in common with the plain node over some operands that it stands for. -/
structure StandsFor (e : Expr) (op : Connective) (operands : List Expr) : Prop where
  holds (truth : Token → Bool) : e.holds truth = (node op operands).holds truth
  literals : e.literals = (node op operands).literals
  groups : (NormalForm.ofExpr e).groups = (NormalForm.ofExpr (node op operands)).groups
  canonical (h : ∀ operand ∈ operands, operand.Canonical) : e.Canonical

/-- A combination of at least one expression stands for the plain node. -/
theorem standsFor_combine (op : Connective) {es : List Expr} (nonempty : es ≠ []) :
    (combine op es).StandsFor op es where
  holds truth := holds_combine truth op es
  literals := by rw [literals, literals, leaves_combine, leaves_node]
  groups := by rw [NormalForm.ofExpr, NormalForm.ofExpr, NormalForm.expand_combine]
  canonical h := canonical_combine nonempty h

/-- Of at least one expression a connection is made, and it stands for the plain node. -/
theorem connect_standsFor (op : Connective) {es : List Expr} (nonempty : es ≠ []) :
    ∃ e, connect op es = .ok e ∧ e.StandsFor op es := by
  have hconnect : connect op es = .ok (combine op es) := by
    rw [connect, if_neg (by simpa using nonempty)]
  exact ⟨combine op es, hconnect, standsFor_combine op nonempty⟩

/-- An empty conjunction leaves nothing, and a conjunction of one literal leaves the literal; what
is spliced from the last operand shares a literal with it. -/
theorem connect_standsFor_degenerate :
    let empty := Expr.node .and []
    let single := Expr.node .and [.literal "a"]
    let same := Expr.node .and [.node .or [.literal "b", .literal "a"], .literal "a"]
    let spliced := Expr.node .and
      [.literal "a", .node .or [.literal "b", .literal "a"], .literal "a"]
    [empty, single, same] ≠ [] ∧ connect .and [empty, single, same] = .ok spliced ∧
      connect .and [empty, single] = .ok (.literal "a") ∧
      ∃ e, connect .and [empty, single, same] = .ok e ∧
        e.StandsFor .and [empty, single, same] := by
  intro empty single same spliced
  have h : [empty, single, same] ≠ [] := List.cons_ne_nil _ _
  exact ⟨h, by decide, by decide, connect_standsFor .and h⟩

end TokenSearch.Expr
