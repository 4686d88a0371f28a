import Mathlib.Data.List.Forall2
import TokenSearch.Proofs.TrailingBlanks

/-!
# Blanks between lexemes

Blanks separate lexemes and have no other meaning. Two texts that are cut into the same symbols,
with whatever blanks between them, are read as the same expression or have the same fault, and
where the fault has a position, it is that of the same lexeme in either text. The scan for the
leftmost fault is run over both texts side by side: it does not compare positions, so whatever
relates the positions of the lexemes relates those that the scan keeps and those that it reports.
The end of a text is never reported, so blanks behind it do not show at all.
-/

namespace TokenSearch

/-- Two faults are alike when nothing but their positions differs, and the positions are related. -/
inductive ParseFault.Alike (R : Nat → Nat → Prop) : ParseFault → ParseFault → Prop
  | empty : Alike R .empty .empty
  | unbalancedParenthesis {p q : Nat} (h : R p q) :
      Alike R (.unbalancedParenthesis p) (.unbalancedParenthesis q)
  | missingOperand (op : Connective) {p q : Nat} (h : R p q) :
      Alike R (.missingOperand op p) (.missingOperand op q)
  | emptyGroup {p q : Nat} (h : R p q) : Alike R (.emptyGroup p) (.emptyGroup q)
  | invalidCharacter (found : Char) {p q : Nat} (h : R p q) :
      Alike R (.invalidCharacter found p) (.invalidCharacter found q)
  | unexpectedSymbol (found : Symbol) {p q : Nat} (h : R p q) :
      Alike R (.unexpectedSymbol found p) (.unexpectedSymbol found q)
  | tooDeep : Alike R .tooDeep .tooDeep

/-- Two results are alike when both are values that are related, or both are faults that are
alike. -/
inductive ResultsAlike (R : Nat → Nat → Prop) {α : Type} (Related : α → α → Prop) :
    Except ParseFault α → Except ParseFault α → Prop
  | ok {a b : α} (h : Related a b) : ResultsAlike R Related (.ok a) (.ok b)
  | error {fault other : ParseFault} (h : fault.Alike R other) :
      ResultsAlike R Related (.error fault) (.error other)

/-- Two lexemes are alike when they have the same symbol at related positions. -/
structure Lexeme.Alike (R : Nat → Nat → Prop) (lexeme other : Lexeme) : Prop where
  symbol : lexeme.symbol = other.symbol
  position : R lexeme.position other.position

/-- Lists of lexemes have the same symbols when they agree place by place. -/
theorem Lexeme.map_symbol_eq_iff {first second : List Lexeme} :
    first.map symbol = second.map symbol ↔
      List.Forall₂ (fun lexeme other => lexeme.symbol = other.symbol) first second := by
  rw [← List.forall₂_eq_eq_eq, List.forall₂_map_left_iff, List.forall₂_map_right_iff]

namespace FaultScan

open TokenSearch.Expr (Place)

variable {R : Nat → Nat → Prop}

/-- An operand stands behind the same, at related positions. -/
inductive PlaceAlike (R : Nat → Nat → Prop) : Place → Place → Prop
  | start : PlaceAlike R .start .start
  | afterConnective (op : Connective) {p q : Nat} (h : R p q) :
      PlaceAlike R (.afterConnective op p) (.afterConnective op q)
  | afterOpen {p q : Nat} (h : R p q) : PlaceAlike R (.afterOpen p) (.afterOpen q)

/-- The same has to stand next. -/
inductive Expects.Alike (R : Nat → Nat → Prop) : Expects → Expects → Prop
  | operand {place other : Place} (h : PlaceAlike R place other) :
      Alike R (.operand place) (.operand other)
  | connective : Alike R .connective .connective

/-- Two states are alike when parentheses are open at related positions and the same has to stand
next. -/
structure State.Alike (R : Nat → Nat → Prop) (state other : State) : Prop where
  opened : List.Forall₂ R state.opened other.opened
  expects : state.expects.Alike R other.expects

/-- Like lexemes lead from like states to like states, or cannot stand there and are like faults. -/
theorem resultsAlike_step {state other : State} {lexeme second : Lexeme}
    (hstate : state.Alike R other) (hlexeme : lexeme.Alike R second) :
    ResultsAlike R (State.Alike R) (step state lexeme) (step other second) := by
  obtain ⟨opened, expects⟩ := state
  obtain ⟨openedOther, expectsOther⟩ := other
  obtain ⟨symbol, p⟩ := lexeme
  obtain ⟨_, q⟩ := second
  obtain ⟨hopened, hexpects⟩ := hstate
  obtain ⟨rfl, hposition⟩ := hlexeme
  simp only at hopened hexpects hposition
  cases hexpects with
  | operand hplace =>
    cases symbol with
    | literal token => exact .ok ⟨hopened, .connective⟩
    | openGroup =>
      simp only [step, ← hopened.length_eq]
      split
      · exact .ok ⟨.cons hposition hopened, .operand (.afterOpen hposition)⟩
      · exact .error .tooDeep
    | connective op =>
      cases hplace with
      | start => exact .error (.missingOperand op hposition)
      | afterConnective earlier h => exact .error (.missingOperand earlier h)
      | afterOpen h => exact .error (.missingOperand op hposition)
    | closeGroup =>
      cases hplace with
      | start => exact .error (.unbalancedParenthesis hposition)
      | afterConnective earlier h => exact .error (.missingOperand earlier h)
      | afterOpen h => exact .error (.emptyGroup h)
    | stop =>
      cases hplace with
      | start => exact .error (.unbalancedParenthesis hposition)
      | afterConnective earlier h => exact .error (.missingOperand earlier h)
      | afterOpen h => exact .error (.unbalancedParenthesis hposition)
  | connective =>
    cases symbol with
    | literal token => exact .error (.unexpectedSymbol _ hposition)
    | openGroup => exact .error (.unexpectedSymbol _ hposition)
    | connective op => exact .ok ⟨hopened, .operand (.afterConnective op hposition)⟩
    | closeGroup =>
      cases hopened with
      | nil => exact .error (.unbalancedParenthesis hposition)
      | cons _ houter => exact .ok ⟨houter, .connective⟩
    | stop => exact .error (.unexpectedSymbol _ hposition)

/-- Like states have like faults at the end, if any. -/
theorem alike_atEnd {state other : State} (h : state.Alike R other) :
    Option.Rel (ParseFault.Alike R) (atEnd state) (atEnd other) := by
  obtain ⟨opened, expects⟩ := state
  obtain ⟨openedOther, expectsOther⟩ := other
  obtain ⟨hopened, hexpects⟩ := h
  simp only at hopened hexpects
  cases hexpects with
  | operand hplace =>
    cases hplace with
    | start => exact .some .empty
    | afterConnective op h => exact .some (.missingOperand op h)
    | afterOpen h => exact .some (.unbalancedParenthesis h)
  | connective =>
    cases hopened with
    | nil => exact .none
    | cons hposition _ => exact .some (.unbalancedParenthesis hposition)

/-- Scans over like lexemes find like faults, if any. A stop is told by its symbol, so both stop at
the same lexeme. -/
theorem alike_faultFrom {state other : State} (hstate : state.Alike R other)
    {lexemes seconds : List Lexeme} (h : List.Forall₂ (Lexeme.Alike R) lexemes seconds) :
    Option.Rel (ParseFault.Alike R) (faultFrom state lexemes) (faultFrom other seconds) := by
  induction h generalizing state other with
  | nil => exact alike_atEnd hstate
  | @cons lexeme second lexemes seconds hlexeme _ ih =>
    rw [faultFrom, faultFrom, ← hlexeme.symbol]
    split
    · exact alike_atEnd hstate
    · have hstep := resultsAlike_step hstate hlexeme
      generalize step state lexeme = result, step other second = otherResult at hstep ⊢
      cases hstep with
      | ok hnext => exact ih hnext
      | error hfault => exact .some hfault

end FaultScan

namespace Expr

open TokenSearch.FaultScan (faultFrom start)

/-- Texts that are cut into like lexemes are read alike. -/
theorem resultsAlike_parse_of_cut {s t : String} {first second : List Lexeme}
    (hs : Lexeme.Cut 0 s.toList first) (ht : Lexeme.Cut 0 t.toList second) {R : Nat → Nat → Prop}
    (h : List.Forall₂ (Lexeme.Alike R) first second) :
    ResultsAlike R Eq (parse s) (parse t) := by
  cases hparse : parse s with
  | ok e =>
    have hsymbols : first.map Lexeme.symbol = second.map Lexeme.symbol :=
      Lexeme.map_symbol_eq_iff.mpr (h.imp fun _ _ => Lexeme.Alike.symbol)
    have hphrase := (parse_eq_ok_iff_of_cut hs e).mp hparse
    rw [hsymbols] at hphrase
    rw [(parse_eq_ok_iff_of_cut ht e).mpr hphrase]
    exact .ok rfl
  | error fault =>
    have hscan : Option.Rel (ParseFault.Alike R) (faultFrom start first) (faultFrom start second) :=
      FaultScan.alike_faultFrom ⟨.nil, .operand .start⟩ h
    rw [(parse_eq_error_iff_of_cut hs fault).mp hparse] at hscan
    generalize hfound : faultFrom start second = found at hscan
    cases hscan with
    | some hfault =>
      rw [(parse_eq_error_iff_of_cut ht _).mpr hfound]
      exact .error hfault

end Expr

/-- Two positions are those of the same lexeme in two lists, and this lexeme is not the stop. -/
def SameLexeme (first second : List Lexeme) (p q : Nat) : Prop :=
  ∃ symbol, symbol ≠ .stop ∧ (⟨symbol, p⟩, ⟨symbol, q⟩) ∈ first.zip second

/-- Lexemes of the same symbols are alike in their places, whatever stops close the two lists. -/
theorem forall₂_alike_of_map_symbol_eq {body other : List Lexeme}
    (h : body.map Lexeme.symbol = other.map Lexeme.symbol)
    (hbody : ∀ lexeme ∈ body, lexeme.symbol ≠ .stop) (last lastOther : Lexeme) :
    List.Forall₂ (Lexeme.Alike (SameLexeme (body ++ [last]) (other ++ [lastOther])))
      body other := by
  rw [Lexeme.map_symbol_eq_iff, List.forall₂_iff_zip] at h
  obtain ⟨hlength, hsymbols⟩ := h
  rw [List.forall₂_iff_zip]
  refine ⟨hlength, ?_⟩
  rintro ⟨symbol, p⟩ ⟨otherSymbol, q⟩ hmem
  obtain rfl : symbol = otherSymbol := hsymbols hmem
  have hzip : (⟨symbol, p⟩, ⟨symbol, q⟩) ∈ (body ++ [last]).zip (other ++ [lastOther]) := by
    rw [List.zip_append hlength]
    exact List.mem_append_left _ hmem
  exact ⟨rfl, symbol, hbody _ (List.of_mem_zip hmem).1, hzip⟩

namespace Expr

/-- Blanks between lexemes make no difference. If two texts over the alphabet are cut into the same
symbols, they are read as the same expression, or they have faults of the same kind with the same
character or symbol, at the positions of the same lexeme, which is not the end. Blanks behind any
text make no difference to its expression or its fault, positions included. -/
theorem parse_spaced (s : String) :
    (∀ t first second, Lexeme.scan s = .ok first → Lexeme.scan t = .ok second →
      first.map Lexeme.symbol = second.map Lexeme.symbol →
        ResultsAlike (SameLexeme first second) Eq (parse s) (parse t)) ∧
    ∀ blanks : List Char, (∀ c ∈ blanks, Text.isBlank c = true) →
      parse (s ++ String.ofList blanks) = parse s := by
  constructor
  · intro t first second hs ht hsymbols
    obtain ⟨body, hcut, rfl⟩ := Lexeme.scanFrom_eq_ok_iff.mp hs
    obtain ⟨other, hcutOther, rfl⟩ := Lexeme.scanFrom_eq_ok_iff.mp ht
    have hstop : ∀ lexeme ∈ body, lexeme.symbol ≠ .stop := by
      intro lexeme hl
      exact (hcut.symbols lexeme hl).1
    rw [List.map_append, List.map_append] at hsymbols
    have hbodies : body.map Lexeme.symbol = other.map Lexeme.symbol :=
      List.append_inj_left' hsymbols rfl
    exact resultsAlike_parse_of_cut hcut hcutOther
      (forall₂_alike_of_map_symbol_eq hbodies hstop _ _)
  · intro blanks hblanks
    exact parse_append_blanks s hblanks

/-- The parenthesis that is not closed is the third lexeme, at byte 4 of one text and at byte 6 of
the other. -/
theorem parse_spaced_unbalanced :
    let s := "a & (b"
    let t := "\u2003a&\n( b  "
    let first : List Lexeme := [⟨.literal "a", 0⟩, ⟨.connective .and, 2⟩, ⟨.openGroup, 4⟩,
      ⟨.literal "b", 5⟩, ⟨.stop, 6⟩]
    let second : List Lexeme := [⟨.literal "a", 3⟩, ⟨.connective .and, 4⟩, ⟨.openGroup, 6⟩,
      ⟨.literal "b", 8⟩, ⟨.stop, 11⟩]
    (Lexeme.scan s = .ok first ∧ Lexeme.scan t = .ok second ∧
      first.map Lexeme.symbol = second.map Lexeme.symbol ∧
      ∀ c ∈ ['\u2003', '\n'], Text.isBlank c = true) ∧
      parse s = .error (.unbalancedParenthesis 4) ∧
      parse t = .error (.unbalancedParenthesis 6) ∧
      ResultsAlike (SameLexeme first second) Eq (parse s) (parse t) ∧
      parse (s ++ String.ofList ['\u2003', '\n']) = parse s := by
  intro s t first second
  have hs : Lexeme.scan s = .ok first := by decide +kernel
  have ht : Lexeme.scan t = .ok second := by decide +kernel
  have hblanks : ∀ c ∈ ['\u2003', '\n'], Text.isBlank c = true := List.all_eq_true.mp rfl
  exact ⟨⟨hs, ht, rfl, hblanks⟩, by decide +kernel, by decide +kernel,
    (parse_spaced s).1 t first second hs ht rfl, (parse_spaced s).2 _ hblanks⟩

end Expr

end TokenSearch
