import TokenSearch.Token.Distinct

/-!
# Boolean expressions

An expression is a literal token or a connective over a list of operands. The constructors
`combine` and `connect` keep expressions flat: a node has no operand of its own kind and at
least two operands, as long as its operands are made that way too.
-/

namespace TokenSearch

/-- The two ways to combine operands: all of them, or any of them. -/
inductive Connective
  | and
  | or
  deriving DecidableEq, Repr

/-- The character that stands between two operands of a connective. -/
def Connective.symbol : Connective → Char
  | .and => '&'
  | .or => '|'

/-- A boolean expression over tokens. -/
inductive Expr
  | literal (token : Token)
  | node (op : Connective) (operands : List Expr)
  deriving Repr

/-- The reason why a node cannot be made. -/
inductive NodeFault
  | noOperand
  deriving DecidableEq, Repr

/-- The wording of a fault. -/
def NodeFault.message : NodeFault → String
  | .noOperand => "boolean node needs at least one child"

namespace Expr

mutual

/-- Equality of expressions is decided from the root downwards. -/
def decideEq : (a b : Expr) → Decidable (a = b)
  | .literal s, .literal t =>
    if h : s = t then .isTrue (h ▸ rfl) else .isFalse fun e => h (Expr.literal.inj e)
  | .literal _, .node _ _ => .isFalse nofun
  | .node _ _, .literal _ => .isFalse nofun
  | .node op as, .node kind bs =>
    if h : op = kind then
      match decideEqList as bs with
      | .isTrue e => .isTrue (h ▸ e ▸ rfl)
      | .isFalse ne => .isFalse fun e => ne (Expr.node.inj e).2
    else .isFalse fun e => h (Expr.node.inj e).1

/-- Equality of lists of expressions is decided from left to right. -/
def decideEqList : (as bs : List Expr) → Decidable (as = bs)
  | [], [] => .isTrue rfl
  | [], _ :: _ => .isFalse nofun
  | _ :: _, [] => .isFalse nofun
  | a :: as, b :: bs =>
    match decideEq a b, decideEqList as bs with
    | .isTrue h, .isTrue t => .isTrue (h ▸ t ▸ rfl)
    | .isFalse h, _ => .isFalse fun e => h (List.cons.inj e).1
    | _, .isFalse t => .isFalse fun e => t (List.cons.inj e).2

end

instance : DecidableEq Expr := decideEq

/-- The operands that an expression contributes to a node of a given kind: its own operands if
it is a node of that kind, else itself. -/
def operandsFor (op : Connective) : Expr → List Expr
  | .literal token => [.literal token]
  | .node kind operands => if kind = op then operands else [.node kind operands]

/-- One node over the operands of all given expressions; a single operand stands for itself. -/
def combine (op : Connective) (es : List Expr) : Expr :=
  match es.flatMap (operandsFor op) with
  | [e] => e
  | operands => .node op operands

/-- Combine at least one expression. -/
def connect (op : Connective) (es : List Expr) : Except NodeFault Expr :=
  if es.isEmpty then .error .noOperand else .ok (combine op es)

mutual

/-- The value of an expression when each literal has the value that `truth` gives it. -/
def holds (truth : Token → Bool) : Expr → Bool
  | .literal token => truth token
  | .node .and operands => allHold truth operands
  | .node .or operands => anyHolds truth operands

/-- Whether all expressions of a list hold. -/
def allHold (truth : Token → Bool) : List Expr → Bool
  | [] => true
  | e :: es => holds truth e && allHold truth es

/-- Whether some expression of a list holds. -/
def anyHolds (truth : Token → Bool) : List Expr → Bool
  | [] => false
  | e :: es => holds truth e || anyHolds truth es

end

theorem allHold_eq_all (truth : Token → Bool) (es : List Expr) :
    allHold truth es = es.all (holds truth) := by
  induction es with
  | nil => rfl
  | cons e es ih => simp [allHold, ih]

theorem anyHolds_eq_any (truth : Token → Bool) (es : List Expr) :
    anyHolds truth es = es.any (holds truth) := by
  induction es with
  | nil => rfl
  | cons e es ih => simp [anyHolds, ih]

mutual

/-- The literals of an expression from left to right, repeats kept. -/
def leaves : Expr → List Token
  | .literal token => [token]
  | .node _ operands => leavesOf operands

/-- The literals of a list of expressions from left to right. -/
def leavesOf : List Expr → List Token
  | [] => []
  | e :: es => leaves e ++ leavesOf es

end

theorem leavesOf_eq_flatMap (es : List Expr) : leavesOf es = es.flatMap leaves := by
  induction es with
  | nil => rfl
  | cons e es ih => simp [leavesOf, ih]

/-- The distinct literals of an expression in the order of their first occurrence. -/
def literals (e : Expr) : List Token := distinct e.leaves

/-- Whether an expression is a node of the connective `or`. -/
def isDisjunction : Expr → Bool
  | .node .or _ => true
  | _ => false

mutual

/-- The text of an expression. Conjunction binds tighter, so that only a disjunction under a
conjunction is put in parentheses. -/
def text : Expr → String
  | .literal token => token
  | .node op operands =>
    (" ".push op.symbol ++ " ").intercalate (operandTexts op operands)

/-- The texts of expressions as operands of a node. -/
def operandTexts (op : Connective) : List Expr → List String
  | [] => []
  | e :: es =>
    (if op = .and ∧ e.isDisjunction then "(" ++ text e ++ ")" else text e) :: operandTexts op es

end

end Expr

end TokenSearch
