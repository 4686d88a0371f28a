import TokenSearch.Proofs.Lexing
import TokenSearch.Proofs.Nesting

/-!
# The symbols of a printed expression

The text of an expression spells a list of symbols: its literals and connectives, with a pair of
parentheses around each disjunction under a conjunction. Blanks around the connectives keep
literals apart, so the text is cut into lexemes of just these symbols.
-/

namespace TokenSearch

namespace Lexeme

/-- Characters spell symbols when they are cut into lexemes of these symbols wherever they
stand, provided that no token character follows. -/
def Spells (cs : List Char) (symbols : List Symbol) : Prop :=
  ∀ ⦃position : Nat⦄ ⦃rest : List Char⦄ ⦃lexemes : List Lexeme⦄,
    (∀ c ∈ rest.head?, isTokenChar c = false) → Cut (position + byteLength cs) rest lexemes →
      ∃ spelled, spelled.map Lexeme.symbol = symbols ∧ Cut position (cs ++ rest) (spelled ++ lexemes)

/-- Spelled characters that are a whole text have a cut into the symbols. -/
theorem Spells.exists_cut {cs : List Char} {symbols : List Symbol} (h : Spells cs symbols) :
    ∃ lexemes, lexemes.map Lexeme.symbol = symbols ∧ Cut 0 cs lexemes := by
  have hend : ∀ c ∈ ([] : List Char).head?, isTokenChar c = false := nofun
  obtain ⟨spelled, hspelled, hcut⟩ := h hend (Cut.done)
  rw [List.append_nil, List.append_nil] at hcut
  exact ⟨spelled, hspelled, hcut⟩

theorem Spells.nil : Spells [] [] := fun _ _ _ _ hcut => ⟨[], rfl, hcut⟩

/-- A token spells a literal. -/
theorem Spells.literal {token : Token} (h : isToken token = true) :
    Spells token.toList [.literal token] := by
  rw [isToken_iff] at h
  intro position rest lexemes hrest hcut
  have hliteral := Cut.literal h.1 h.2 hrest hcut
  rw [String.ofList_toList] at hliteral
  exact ⟨[⟨.literal token, position⟩], rfl, hliteral⟩

/-- A blank in front changes nothing. -/
theorem Spells.blank {c : Char} (hc : Text.isBlank c = true) {cs : List Char}
    {symbols : List Symbol} (h : Spells cs symbols) : Spells (c :: cs) symbols := by
  intro position rest lexemes hrest hcut
  rw [byteLength, ← Nat.add_assoc] at hcut
  obtain ⟨spelled, hspelled, hspells⟩ := h hrest hcut
  exact ⟨spelled, hspelled, .blank hc hspells⟩

/-- A sign in front is one symbol more. -/
theorem Spells.sign {c : Char} {symbol : Symbol} (hc : symbolOf? c = some symbol) {cs : List Char}
    {symbols : List Symbol} (h : Spells cs symbols) : Spells (c :: cs) (symbol :: symbols) := by
  intro position rest lexemes hrest hcut
  rw [byteLength, ← Nat.add_assoc] at hcut
  obtain ⟨spelled, rfl, hspells⟩ := h hrest hcut
  exact ⟨⟨symbol, position⟩ :: spelled, rfl, .sign hc hspells⟩

/-- What follows may spell further symbols, unless it would prolong a literal. -/
theorem Spells.append {cs ds : List Char} {symbols further : List Symbol} (h : Spells cs symbols)
    (hfurther : Spells ds further) (hds : ∀ c ∈ ds.head?, isTokenChar c = false) :
    Spells (cs ++ ds) (symbols ++ further) := by
  intro position rest lexemes hrest hcut
  rw [byteLength_append, ← Nat.add_assoc] at hcut
  obtain ⟨behind, rfl, hbehind⟩ := hfurther hrest hcut
  have hnext : ∀ c ∈ (ds ++ rest).head?, isTokenChar c = false := by
    cases ds with
    | nil => exact hrest
    | cons d ds => exact hds
  obtain ⟨spelled, rfl, hspells⟩ := h hnext hbehind
  refine ⟨spelled ++ behind, List.map_append, ?_⟩
  rw [List.append_assoc, List.append_assoc]
  exact hspells

/-- A group is spelled with a parenthesis on either side. -/
theorem Spells.group {cs : List Char} {symbols : List Symbol} (h : Spells cs symbols) :
    Spells ('(' :: cs ++ [')']) (.openGroup :: symbols ++ [.closeGroup]) := by
  have hsymbol : symbolOf? ')' = some .closeGroup := rfl
  refine (h.append (Spells.nil.sign hsymbol) ?_).sign rfl
  rintro c ⟨⟩
  exact (isBlank_isTokenChar_of_symbolOf? hsymbol).2

/-- A separator spells a connective between any two parts. -/
def Separates (separator : String) (op : Connective) : Prop :=
  ∀ ⦃cs ds : List Char⦄ ⦃symbols further : List Symbol⦄, Spells cs symbols → Spells ds further →
    Spells (cs ++ separator.toList ++ ds) (symbols ++ .connective op :: further)

/-- The symbol of a connective separates. -/
theorem separates_symbol (op : Connective) : Separates (String.singleton op.symbol) op := by
  intro cs ds symbols further h hfurther
  have hsymbol : symbolOf? op.symbol = some (.connective op) := by cases op <;> rfl
  rw [String.toList_singleton, List.append_assoc, List.singleton_append]
  refine h.append (hfurther.sign hsymbol) ?_
  rintro c ⟨⟩
  exact (isBlank_isTokenChar_of_symbolOf? hsymbol).2

/-- The symbol of a connective with blanks around it separates. -/
theorem separates_spaced (op : Connective) : Separates (" ".push op.symbol ++ " ") op := by
  intro cs ds symbols further h hfurther
  have hblank : Text.isBlank ' ' = true := by decide
  have hbehind : Spells (cs ++ [' ']) (symbols ++ []) := by
    refine h.append (Spells.nil.blank hblank) ?_
    rintro c ⟨⟩
    exact isTokenChar_of_isBlank hblank
  have hspaced := separates_symbol op hbehind (hfurther.blank hblank)
  simpa using hspaced

/-- Operands with a separator between them spell their symbols with the connective between them. -/
theorem Spells.intercalate {α : Type} {separator : String} {op : Connective}
    (hseparator : Separates separator op) {texts : α → String} {symbols : α → List Symbol}
    {operands : List α}
    (h : ∀ operand ∈ operands, Spells (texts operand).toList (symbols operand)) :
    Spells (separator.intercalate (operands.map texts)).toList
      ([Symbol.connective op].intercalate (operands.map symbols)) := by
  induction operands with
  | nil => exact .nil
  | cons operand operands ih =>
    obtain ⟨hoperand, hoperands⟩ := List.forall_mem_cons.mp h
    cases operands with
    | nil => simpa using hoperand
    | cons second operands =>
      have hmore := hseparator hoperand (ih hoperands)
      simpa [String.toList_append] using hmore

/-- What is cut into lexemes spells their symbols. -/
theorem Cut.spells {position : Nat} {cs : List Char} {lexemes : List Lexeme}
    (h : Cut position cs lexemes) : Spells cs (lexemes.map Lexeme.symbol) := by
  induction h with
  | done => exact .nil
  | blank hc _ ih => exact ih.blank hc
  | sign hc _ ih => exact ih.sign hc
  | @literal position run cs lexemes nonempty inside maximal rest ih =>
    have hrun : isToken (String.ofList run) = true := by
      rw [isToken_iff, String.toList_ofList]
      exact ⟨nonempty, inside⟩
    have hliteral := Spells.literal hrun
    rw [String.toList_ofList] at hliteral
    exact hliteral.append ih maximal

end Lexeme

namespace Expr

open TokenSearch.Lexeme (Spells)

mutual

/-- The symbols that the text of an expression consists of. -/
def symbols : Expr → List Symbol
  | .literal token => [.literal token]
  | .node op operands => [Symbol.connective op].intercalate (symbolsOf op operands)

/-- The symbols of expressions as operands of a node. -/
def symbolsOf (op : Connective) : List Expr → List (List Symbol)
  | [] => []
  | e :: es =>
    (if Parenthesized op e then .openGroup :: symbols e ++ [.closeGroup] else symbols e) ::
      symbolsOf op es

end

/-- The symbols of an operand of a node. -/
def operandSymbols (op : Connective) (e : Expr) : List Symbol :=
  if Parenthesized op e then .openGroup :: e.symbols ++ [.closeGroup] else e.symbols

/-- The text of an operand of a node. -/
def operandText (op : Connective) (e : Expr) : String :=
  if Parenthesized op e then "(" ++ e.text ++ ")" else e.text

theorem symbols_node (op : Connective) (operands : List Expr) :
    (node op operands).symbols =
      [Symbol.connective op].intercalate (operands.map (operandSymbols op)) := by
  have hmap : symbolsOf op operands = operands.map (operandSymbols op) := by
    induction operands with
    | nil => rfl
    | cons e es ih => rw [symbolsOf, ih, List.map_cons, operandSymbols]
  rw [symbols, hmap]

theorem text_node (op : Connective) (operands : List Expr) :
    (node op operands).text =
      (" ".push op.symbol ++ " ").intercalate (operands.map (operandText op)) := by
  have hmap : operandTexts op operands = operands.map (operandText op) := by
    induction operands with
    | nil => rfl
    | cons e es ih =>
      rw [operandTexts, ih, List.map_cons, operandText]
      rfl
  rw [text, hmap]

/-- The text of an expression over tokens spells its symbols. -/
theorem spells_text {e : Expr} (h : ∀ token ∈ e.leaves, isToken token = true) :
    Spells e.text.toList e.symbols := by
  induction e using Expr.operandInduction with
  | literal token => exact .literal (h token (List.mem_singleton_self token))
  | node op operands ih =>
    rw [leaves_node, List.forall_mem_flatMap] at h
    rw [text_node, symbols_node]
    refine Spells.intercalate (Lexeme.separates_spaced op) ?_
    intro e he
    have hoperand := ih e he (h e he)
    rw [operandText, operandSymbols]
    split
    · simpa [String.toList_append] using hoperand.group
    · exact hoperand

end Expr

end TokenSearch
