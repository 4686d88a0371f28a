import TokenSearch.Expr.Symbol
import TokenSearch.Proofs.Expression

/-!
# The grammar of expressions

    disjunction := conjunction ('|' conjunction)*
    conjunction := operand ('&' operand)*
    operand     := literal | '(' disjunction ')'

A language relates the symbols of a phrase to the expression that the phrase denotes. Both
levels of connectives are chains of the phrases below them, and each level denotes the
combination of what its parts denote. The languages are counted by the number of parentheses
that may be open at the same time.
-/

namespace TokenSearch.Grammar

/-- The symbols of the phrases of a kind, with the expressions that they denote. -/
abbrev Language := List Symbol → Expr → Prop

/-- One or more phrases with the symbol of a connective between them, and what each denotes. -/
inductive Chain (op : Connective) (Phrase : Language) : List Symbol → List Expr → Prop
  | single {symbols : List Symbol} {e : Expr} (phrase : Phrase symbols e) :
      Chain op Phrase symbols [e]
  | more {symbols rest : List Symbol} {e : Expr} {es : List Expr} (phrase : Phrase symbols e)
      (further : Chain op Phrase rest es) :
      Chain op Phrase (symbols ++ .connective op :: rest) (e :: es)

/-- A chain of phrases denotes their combination. -/
def Chained (op : Connective) (Phrase : Language) : Language := fun symbols e =>
  ∃ es, Chain op Phrase symbols es ∧ Expr.combine op es = e

/-- A literal, or a group in parentheses. -/
inductive LiteralOr (Group : Language) : Language
  | literal (token : Token) : LiteralOr Group [.literal token] (.literal token)
  | group {symbols : List Symbol} {e : Expr} (inside : Group symbols e) :
      LiteralOr Group (.openGroup :: symbols ++ [.closeGroup]) e

/-- An operand in which at most `depth` parentheses are open at the same time. -/
def Operand : Nat → Language
  | 0 => LiteralOr fun _ _ => False
  | depth + 1 => LiteralOr (Chained .or (Chained .and (Operand depth)))

/-- Operands with `&` between them. -/
def Conjunction (depth : Nat) : Language := Chained .and (Operand depth)

/-- Conjunctions with `|` between them. -/
def Disjunction (depth : Nat) : Language := Chained .or (Conjunction depth)

/-- The literals among some symbols, repeats kept. -/
def literals (symbols : List Symbol) : List Token :=
  symbols.filterMap fun
    | .literal token => some token
    | _ => none

/-- The literals of two phrases follow each other. -/
theorem literals_append (symbols rest : List Symbol) :
    literals (symbols ++ rest) = literals symbols ++ literals rest :=
  List.filterMap_append

/-- The literals are those that some symbol is. -/
theorem mem_literals {symbols : List Symbol} {token : Token} :
    token ∈ literals symbols ↔ .literal token ∈ symbols := by
  rw [literals, List.mem_filterMap]
  constructor
  · rintro ⟨symbol, hs, htoken⟩
    split at htoken <;> cases htoken
    exact hs
  · intro h
    exact ⟨_, h, rfl⟩

/-- What holds of every phrase of a language. -/
structure Faithful (Phrase : Language) : Prop where
  /-- Only canonical expressions are denoted. -/
  canonical : ∀ {symbols e}, Phrase symbols e → e.Canonical
  /-- The leaves are the literals of the phrase, in order. -/
  leaves : ∀ {symbols e}, Phrase symbols e → e.leaves = literals symbols
  /-- The end of the text lies behind the phrase. -/
  stop : ∀ {symbols e}, Phrase symbols e → Symbol.stop ∉ symbols

/-- A chain of faithful phrases denotes canonical expressions over its literals. -/
theorem Chain.faithful {op : Connective} {Phrase : Language} (h : Faithful Phrase)
    {symbols : List Symbol} {es : List Expr} (hc : Chain op Phrase symbols es) :
    es ≠ [] ∧ (∀ e ∈ es, e.Canonical) ∧ es.flatMap Expr.leaves = literals symbols ∧
      Symbol.stop ∉ symbols := by
  induction hc with
  | single phrase =>
    refine ⟨List.cons_ne_nil _ _, ?_, ?_, h.stop phrase⟩
    · simpa using h.canonical phrase
    · simpa using h.leaves phrase
  | @more symbols rest e es phrase _ ih =>
    obtain ⟨-, hcanonical, hleaves, hstop⟩ := ih
    have hfirst := h.leaves phrase
    have hbegin := h.stop phrase
    refine ⟨List.cons_ne_nil _ _, ?_, ?_, ?_⟩
    · exact List.forall_mem_cons.mpr ⟨h.canonical phrase, hcanonical⟩
    · rw [List.flatMap_cons, hfirst, hleaves, literals_append]
      rfl
    · simp [hbegin, hstop]

/-- Combining the phrases of a chain keeps faithfulness. -/
theorem Faithful.chained {Phrase : Language} (h : Faithful Phrase) (op : Connective) :
    Faithful (Chained op Phrase) where
  canonical := by
    rintro symbols e ⟨es, hc, rfl⟩
    obtain ⟨hne, hcanonical, -, -⟩ := hc.faithful h
    exact Expr.canonical_combine hne hcanonical
  leaves := by
    rintro symbols e ⟨es, hc, rfl⟩
    obtain ⟨-, -, hleaves, -⟩ := hc.faithful h
    rw [Expr.leaves_combine, hleaves]
  stop := by
    rintro symbols e ⟨es, hc, -⟩
    obtain ⟨-, -, -, hstop⟩ := hc.faithful h
    exact hstop

/-- Parentheses keep faithfulness. -/
theorem Faithful.literalOr {Group : Language} (h : Faithful Group) :
    Faithful (LiteralOr Group) where
  canonical := by
    rintro symbols e (token | inside)
    · exact .literal token
    · exact h.canonical inside
  leaves := by
    rintro symbols e (token | @⟨symbols, _, inside⟩)
    · rfl
    · have hinside := h.leaves inside
      change e.leaves = literals (symbols ++ [.closeGroup])
      rw [hinside, literals_append]
      exact (List.append_nil _).symm
  stop := by
    rintro symbols e (token | ⟨inside⟩)
    · simp
    · simp [h.stop inside]

/-- Operands are faithful to their symbols at every depth. -/
theorem faithful_operand (depth : Nat) : Faithful (Operand depth) := by
  induction depth with
  | zero => exact Faithful.literalOr ⟨nofun, nofun, nofun⟩
  | succ depth ih => exact ((ih.chained .and).chained .or).literalOr

/-- The whole grammar is faithful to its symbols at every depth. -/
theorem faithful_disjunction (depth : Nat) : Faithful (Disjunction depth) :=
  ((faithful_operand depth).chained .and).chained .or

end TokenSearch.Grammar
