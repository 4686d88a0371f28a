import TokenSearch.Text.Letter
import TokenSearch.Text.DecimalDigit

/-!
# Tokens

A token is a non-empty run of letters and decimal digits. It is the unit that documents are
made of and that queries ask for; case and accents distinguish tokens.
-/

namespace TokenSearch

/-- The text of a token. -/
abbrev Token := String

/-- The characters that tokens are made of. -/
def isTokenChar (c : Char) : Bool := Text.isLetter c || Text.isDecimalDigit c

/-- A text is a token when it is not empty and all its characters are token characters. -/
def isToken (s : String) : Bool := !s.toList.isEmpty && s.toList.all isTokenChar

/-- A token has characters, and all of them are token characters. -/
theorem isToken_iff {s : String} :
    isToken s = true ↔ s.toList ≠ [] ∧ ∀ c ∈ s.toList, isTokenChar c = true := by
  rw [isToken, Bool.and_eq_true, Bool.not_eq_true', List.isEmpty_eq_false_iff, List.all_eq_true]

/-- The longest token at the start of a text, if the text starts with one. -/
def leadingToken? (s : String) : Option Token :=
  match s.toList.takeWhile isTokenChar with
  | [] => none
  | cs => some (String.ofList cs)

/-- The leading token is the token that all token characters at the start of the text make up. -/
theorem leadingToken?_eq_some_iff {s : String} {token : Token} :
    leadingToken? s = some token ↔
      isToken token = true ∧ s.toList.takeWhile isTokenChar = token.toList := by
  have hinside : ∀ c ∈ s.toList.takeWhile isTokenChar, isTokenChar c = true :=
    List.all_eq_true.mp List.all_takeWhile
  rw [isToken_iff, leadingToken?]
  split
  · rename_i hnone
    rw [hnone]
    constructor
    · nofun
    · rintro ⟨⟨hne, -⟩, hnil⟩
      exact absurd hnil.symm hne
  · rename_i hsome
    rw [Option.some.injEq, ← String.toList_inj, String.toList_ofList]
    constructor
    · intro htoken
      rw [← htoken]
      exact ⟨⟨hsome, hinside⟩, rfl⟩
    · exact And.right

end TokenSearch
