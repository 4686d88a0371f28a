import TokenSearch.Proofs.IndexLine

/-!
# The wording of replies

A message quotes what was given: a word of the command line, or a character or a literal of the
query. Blanks separate words, and the characters that no expression may have and those of literals
are no blanks either, so nothing that is quoted has a line feed. All else in a message is fixed or
a number. So a reply has a line feed only if the error of a store brings it in.
-/

namespace TokenSearch

theorem Text.IsWord.feed_not_mem {s : String} (h : IsWord s) : '\n' ∉ s.toList := fun hfeed =>
  absurd (h.2 '\n' hfeed) (by decide)

theorem Text.Decimal.feed_not_mem_signed (n : Int) : '\n' ∉ (signed n).toList :=
  (isWord_signed n).feed_not_mem

theorem Text.Decimal.feed_not_mem_natural (n : Nat) : '\n' ∉ (natural n).toList := by
  have hsigned : signed n = natural n := if_neg (by omega)
  rw [← hsigned]
  exact feed_not_mem_signed n

theorem DocId.feed_not_mem_text (id : DocId) : '\n' ∉ id.text.toList :=
  Text.Decimal.feed_not_mem_signed id.toInt

/-- The word that a fault quotes. -/
def DocumentFault.quoted? : DocumentFault → Option String
  | .invalidId raw => some raw
  | .notAlphanumeric raw => some raw
  | _ => none

/-- A message has a line feed only if the quoted word does. -/
theorem DocumentFault.feed_not_mem_message {fault : DocumentFault}
    (h : ∀ word ∈ fault.quoted?, '\n' ∉ word.toList) : '\n' ∉ fault.message.toList := by
  cases fault with
  | missingId => decide
  | invalidId raw => simpa [message] using h raw rfl
  | notAlphanumeric raw => simpa [message] using h raw rfl
  | missingTokens => decide

/-- The token check quotes one of the words. -/
theorem mem_of_checkTokens_error {raw : List String} {fault : DocumentFault}
    (h : checkTokens raw = .error fault) : ∀ word ∈ fault.quoted?, word ∈ raw := by
  unfold checkTokens at h
  split at h
  · rename_i word hword
    cases h
    rintro _ ⟨⟩
    exact List.mem_of_find?_eq_some hword
  · split at h <;> cases h
    exact nofun

namespace Command

/-- The check of a document quotes one of its words. -/
theorem mem_of_documentOf_error {words : List String} {fault : DocumentFault}
    (h : documentOf words = .error fault) : ∀ word ∈ fault.quoted?, word ∈ words := by
  cases words with
  | nil =>
    cases h
    exact nofun
  | cons id words =>
    simp only [documentOf, checkId] at h
    cases hid : DocId.ofText? id with
    | none =>
      rw [hid] at h
      cases h
      rintro _ ⟨⟩
      exact List.mem_cons_self
    | some number =>
      cases hchecked : checkTokens words with
      | ok tokens =>
        rw [hid, hchecked] at h
        cases h
      | error found =>
        rw [hid, hchecked] at h
        cases h
        intro word hword
        exact List.mem_cons_of_mem id (mem_of_checkTokens_error hchecked word hword)

/-- What a faulty command line is told is on one line. -/
theorem feed_not_mem_of_parse_error {line : String} {fault : DocumentFault}
    (h : parse line = .error (.document fault)) : '\n' ∉ fault.message.toList := by
  simp only [parse] at h
  split at h
  · rename_i arguments _
    cases hdocument : documentOf ((Text.words arguments).map String.ofList) with
    | ok document =>
      rw [hdocument] at h
      cases h
    | error found =>
      rw [hdocument] at h
      cases h
      refine DocumentFault.feed_not_mem_message fun word hword => ?_
      obtain ⟨w, hw, rfl⟩ := List.mem_map.1 (mem_of_documentOf_error hdocument word hword)
      exact (Text.isWord_of_mem_words hw).feed_not_mem
  · split at h <;> cases h

end Command

/-- The characters of the text that the name of a symbol quotes. -/
def Symbol.quoted : Symbol → List Char
  | .literal token => token.toList
  | _ => []

/-- The characters of the text that a fault quotes. -/
def ParseFault.quoted : ParseFault → List Char
  | .invalidCharacter found _ => [found]
  | .unexpectedSymbol found _ => found.quoted
  | _ => []

/-- A message has a line feed only if the quoted characters do. -/
theorem ParseFault.feed_not_mem_message {fault : ParseFault} (h : '\n' ∉ fault.quoted) :
    '\n' ∉ fault.message.toList := by
  have hnumber := Text.Decimal.feed_not_mem_natural
  unfold message
  cases fault with
  | empty => decide
  | unbalancedParenthesis position => simp [hnumber]
  | missingOperand op position => cases op <;> simp [Connective.symbol, hnumber]
  | emptyGroup position => simp [hnumber]
  | invalidCharacter found position =>
    have hfound : '\n' ≠ found := by simpa [quoted] using h
    simp [hnumber, hfound]
  | unexpectedSymbol found position =>
    have hfound : '\n' ∉ found.describe.toList := by
      cases found with
      | literal token => simpa [Symbol.describe, quoted, Symbol.quoted] using h
      | connective op => cases op <;> decide
      | _ => decide
    simp [hnumber, hfound]
  | tooDeep => simp [hnumber]

namespace FaultScan

/-- The fault of a lexeme quotes this lexeme. -/
theorem quoted_subset_of_step {state : State} {lexeme : Lexeme} {fault : ParseFault}
    (h : step state lexeme = .error fault) : fault.quoted ⊆ lexeme.symbol.quoted := by
  revert h
  fun_cases step state lexeme <;> rintro ⟨⟩ <;> simp [ParseFault.quoted]

/-- The fault at the end quotes nothing. -/
theorem quoted_of_atEnd {state : State} {fault : ParseFault} (h : atEnd state = some fault) :
    fault.quoted = [] := by
  revert h
  fun_cases atEnd state <;> rintro ⟨⟩ <;> rfl

/-- The leftmost fault quotes one of the lexemes. -/
theorem exists_mem_quoted_of_faultFrom {state : State} {lexemes : List Lexeme} {fault : ParseFault}
    (h : faultFrom state lexemes = some fault) {c : Char} (hc : c ∈ fault.quoted) :
    ∃ lexeme ∈ lexemes, c ∈ lexeme.symbol.quoted := by
  induction lexemes generalizing state with
  | nil =>
    rw [quoted_of_atEnd h] at hc
    cases hc
  | cons lexeme lexemes ih =>
    rw [faultFrom] at h
    split at h
    · rw [quoted_of_atEnd h] at hc
      cases hc
    · cases hstep : step state lexeme with
      | error found =>
        rw [hstep] at h
        cases h
        exact ⟨lexeme, List.mem_cons_self, quoted_subset_of_step hstep hc⟩
      | ok next =>
        rw [hstep] at h
        obtain ⟨other, ho, hquoted⟩ := ih h
        exact ⟨other, List.mem_cons_of_mem lexeme ho, hquoted⟩

end FaultScan

/-- What the fault of a query quotes are no blanks. -/
theorem Expr.isBlank_of_mem_quoted {s : String} {fault : ParseFault} (h : parse s = .error fault) :
    ∀ c ∈ fault.quoted, Text.isBlank c = false := by
  intro c hc
  by_cases hs : ∀ c ∈ s.toList, Lexeme.InAlphabet c
  · obtain ⟨lexemes, hcut⟩ := Lexeme.exists_cut hs 0
    obtain ⟨lexeme, hl, hquoted⟩ :=
      FaultScan.exists_mem_quoted_of_faultFrom ((parse_eq_error_iff_of_cut hcut fault).1 h) hc
    cases hsymbol : lexeme.symbol with
    | literal token =>
      rw [hsymbol] at hquoted
      have htoken := (hcut.symbols lexeme hl).2 token hsymbol
      exact (Lexeme.isBlank_symbolOf?_of_isTokenChar ((isToken_iff.1 htoken).2 c hquoted)).1
    | _ =>
      rw [hsymbol] at hquoted
      cases hquoted
  · obtain ⟨before, first, after, hsplit, hbefore, hfirst⟩ := Lexeme.exists_first_foreign hs
    rw [(parse_eq_error_iff_leftmost s).1 before first after hsplit hbefore hfirst] at h
    cases h
    obtain rfl := List.mem_singleton.1 hc
    simpa using (not_or.1 hfirst).1

/-- What a faulty query is told is on one line. -/
theorem Expr.feed_not_mem_of_parse_error {s : String} {fault : ParseFault}
    (h : parse s = .error fault) : '\n' ∉ fault.message.toList :=
  ParseFault.feed_not_mem_message fun hfeed =>
    absurd (isBlank_of_mem_quoted h '\n' hfeed) (by decide)

end TokenSearch
