import TokenSearch.Expr.Fault
import TokenSearch.Text.Blank

/-!
# Lexemes

The text of an expression is cut into lexemes before its structure is read. Blanks separate
lexemes and are dropped, a literal is a maximal run of token characters, and a stop lexeme at
the length of the text closes the list. The first character outside the language is a fault,
whatever stands before it.
-/

namespace TokenSearch

/-- The length of a text in bytes of UTF-8. -/
def byteLength : List Char → Nat
  | [] => 0
  | c :: cs => c.utf8Size + byteLength cs

namespace Lexeme

/-- The symbol that a single character of the language stands for. -/
def symbolOf? : Char → Option Symbol
  | '&' => some (.connective .and)
  | '|' => some (.connective .or)
  | '(' => some .openGroup
  | ')' => some .closeGroup
  | _ => none

/-- The lexemes of a text that begins at a byte offset. -/
def scanFrom (position : Nat) (cs : List Char) : Except ParseFault (List Lexeme) :=
  match cs with
  | [] => .ok [⟨.stop, position⟩]
  | c :: rest =>
    if Text.isBlank c then scanFrom (position + c.utf8Size) rest
    else match symbolOf? c with
      | some symbol => (scanFrom (position + c.utf8Size) rest).map (⟨symbol, position⟩ :: ·)
      | none =>
        if isTokenChar c then
          let run := c :: rest.takeWhile isTokenChar
          (scanFrom (position + byteLength run) (rest.dropWhile isTokenChar)).map
            (⟨.literal (String.ofList run), position⟩ :: ·)
        else .error (.invalidCharacter c position)
termination_by cs.length
decreasing_by
  · simp
  · simp
  · exact Nat.lt_succ_of_le (List.dropWhile_suffix _).length_le

/-- The lexemes of a text. -/
def scan (s : String) : Except ParseFault (List Lexeme) := scanFrom 0 s.toList

end Lexeme

end TokenSearch
