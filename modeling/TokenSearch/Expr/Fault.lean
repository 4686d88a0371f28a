import TokenSearch.Expr.Symbol
import TokenSearch.Text.Decimal

/-!
# Faults of expressions

Each reason why a text is no expression, with the byte offset it is reported at.
-/

namespace TokenSearch

/-- The number of parentheses that may be open at the same time. -/
def nestingLimit : Nat := 128

/-- The reason why a text is no expression. -/
inductive ParseFault
  /-- There is nothing but blanks. -/
  | empty
  /-- A parenthesis has no partner. -/
  | unbalancedParenthesis (position : Nat)
  /-- A connective lacks its left or right operand. -/
  | missingOperand (op : Connective) (position : Nat)
  /-- A closing parenthesis follows an opening one at once. -/
  | emptyGroup (position : Nat)
  /-- A character is neither a blank, a token character nor a symbol of the language. -/
  | invalidCharacter (found : Char) (position : Nat)
  /-- Another operand begins where a connective has to stand. -/
  | unexpectedSymbol (found : Symbol) (position : Nat)
  /-- Too many parentheses are open at the same time. -/
  | tooDeep
  deriving DecidableEq, Repr

/-- The wording of a fault. -/
def ParseFault.message : ParseFault → String
  | .empty => "empty expression"
  | .unbalancedParenthesis position =>
    "unbalanced parenthesis at position " ++ Text.Decimal.natural position
  | .missingOperand op position =>
    "operator '".push op.symbol ++ "' at position " ++ Text.Decimal.natural position ++
      " is missing an operand"
  | .emptyGroup position => "empty parentheses at position " ++ Text.Decimal.natural position
  | .invalidCharacter found position =>
    "invalid character '".push found ++ "' at position " ++ Text.Decimal.natural position
  | .unexpectedSymbol found position =>
    "unexpected " ++ found.describe ++ " at position " ++ Text.Decimal.natural position ++
      ", expected an operator"
  | .tooDeep => "expression nested deeper than " ++ Text.Decimal.natural nestingLimit ++ " levels"

end TokenSearch
