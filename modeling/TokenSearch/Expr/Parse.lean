import TokenSearch.Expr.Lexeme

/-!
# Reading expressions

The grammar is

    disjunction := conjunction ('|' conjunction)*
    conjunction := operand ('&' operand)*
    operand     := literal | '(' disjunction ')'

with a limit on the number of parentheses that are open at the same time. A reader takes the
lexemes that are left, reads one phrase, and returns the lexemes behind it, of which there are
fewer. The first lexeme that cannot continue decides the fault; what stands right before a
missing operand decides how the fault is reported.
-/

namespace TokenSearch

namespace Expr

/-- What stands right before the operand that is to be read. -/
inductive Place
  | start
  | afterConnective (op : Connective) (position : Nat)
  | afterOpen (position : Nat)
  deriving DecidableEq, Repr

/-- The fault when an operand is expected and another symbol stands there. -/
def missingOperand : Place → Symbol → Nat → ParseFault
  | .afterConnective op position, _, _ => .missingOperand op position
  | .afterOpen position, .closeGroup, _ => .emptyGroup position
  | .afterOpen position, .stop, _ => .unbalancedParenthesis position
  | _, .connective op, position => .missingOperand op position
  | _, .closeGroup, position => .unbalancedParenthesis position
  | _, _, _ => .empty

/-- An expression read from the front of some lexemes, and the fewer lexemes behind it. -/
abbrev Read (lexemes : List Lexeme) :=
  Expr × { rest : List Lexeme // rest.length < lexemes.length }

/-- Reads one phrase from the front of the lexemes that are left. -/
abbrev Reader := Place → (lexemes : List Lexeme) → Except ParseFault (Read lexemes)

/-- Read a literal, or a group whose inside `inner` reads. Without `inner` no further
parenthesis may be opened. -/
def readOperand (inner : Option Reader) : Reader
  | _, ⟨.literal token, _⟩ :: rest => .ok (.literal token, ⟨rest, Nat.lt_succ_self _⟩)
  | _, ⟨.openGroup, position⟩ :: tail =>
    match inner with
    | none => .error .tooDeep
    | some read =>
      match read (.afterOpen position) tail with
      | .error fault => .error fault
      | .ok (e, ⟨⟨.closeGroup, _⟩ :: rest, h⟩) =>
        .ok (e, ⟨rest, by simp only [List.length_cons] at h ⊢; omega⟩)
      | .ok (_, ⟨⟨.stop, _⟩ :: _, _⟩) => .error (.unbalancedParenthesis position)
      | .ok (_, ⟨⟨found, offset⟩ :: _, _⟩) => .error (.unexpectedSymbol found offset)
      | .ok (_, ⟨[], _⟩) => .error (.unbalancedParenthesis position)
  | place, ⟨found, position⟩ :: _ => .error (missingOperand place found position)
  | place, [] => .error (missingOperand place .stop 0)

/-- Read further operands of a connective as long as its symbol stands next. -/
def readFurther (op : Connective) (read : Reader) (lexemes : List Lexeme) :
    Except ParseFault (List Expr × { rest : List Lexeme // rest.length ≤ lexemes.length }) :=
  match lexemes with
  | [] => .ok ([], ⟨[], Nat.le_refl _⟩)
  | ⟨symbol, position⟩ :: tail =>
    if symbol = .connective op then
      match read (.afterConnective op position) tail with
      | .error fault => .error fault
      | .ok (e, ⟨rest, h⟩) =>
        match readFurther op read rest with
        | .error fault => .error fault
        | .ok (es, ⟨rest', h'⟩) =>
          .ok (e :: es, ⟨rest', by simp only [List.length_cons]; omega⟩)
    else .ok ([], ⟨⟨symbol, position⟩ :: tail, Nat.le_refl _⟩)
termination_by lexemes.length
decreasing_by simp only [List.length_cons]; omega

/-- Read one or more operands with the symbol of a connective between them. -/
def readChain (op : Connective) (read : Reader) : Reader := fun place lexemes =>
  match read place lexemes with
  | .error fault => .error fault
  | .ok (e, ⟨rest, h⟩) =>
    match readFurther op read rest with
    | .error fault => .error fault
    | .ok (es, ⟨rest', h'⟩) => .ok (combine op (e :: es), ⟨rest', by omega⟩)

/-- Read an operand in which at most `depth` more parentheses may be open at the same time. -/
def operand : Nat → Reader
  | 0 => readOperand none
  | depth + 1 => readOperand (some (readChain .or (readChain .and (operand depth))))

/-- Read operands with `&` between them. -/
def conjunction (depth : Nat) : Reader := readChain .and (operand depth)

/-- Read conjunctions with `|` between them. -/
def disjunction (depth : Nat) : Reader := readChain .or (conjunction depth)

/-- Read all lexemes of a text as one disjunction. -/
def ofLexemes (lexemes : List Lexeme) : Except ParseFault Expr :=
  match disjunction nestingLimit .start lexemes with
  | .error fault => .error fault
  | .ok (e, ⟨⟨.stop, _⟩ :: _, _⟩) => .ok e
  | .ok (_, ⟨⟨.closeGroup, position⟩ :: _, _⟩) => .error (.unbalancedParenthesis position)
  | .ok (_, ⟨⟨found, position⟩ :: _, _⟩) => .error (.unexpectedSymbol found position)
  | .ok (e, ⟨[], _⟩) => .ok e

/-- Read the text of an expression. -/
def parse (s : String) : Except ParseFault Expr := (Lexeme.scan s).bind ofLexemes

end Expr

end TokenSearch
