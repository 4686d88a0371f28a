import TokenSearch.Expr

/-!
# Symbols of the expression language

The text of an expression consists of literals, connectives and parentheses; a stop symbol
marks its end.
-/

namespace TokenSearch

/-- What a part of an expression's text is. -/
inductive Symbol
  | literal (token : Token)
  | connective (op : Connective)
  | openGroup
  | closeGroup
  | stop
  deriving DecidableEq, Repr

/-- How a message names a symbol. -/
def Symbol.describe : Symbol → String
  | .literal token => "literal '" ++ token ++ "'"
  | .connective op => ("'".push op.symbol).push '\''
  | .openGroup => "'('"
  | .closeGroup => "')'"
  | .stop => "end of input"

/-- A symbol and the byte offset at which it stands in the text. -/
structure Lexeme where
  symbol : Symbol
  position : Nat
  deriving DecidableEq, Repr

end TokenSearch
