import TokenSearch.Proofs.Parsing

/-!
# The leftmost fault

A scan in one pass goes over the lexemes from left to right. It keeps the offsets of the
parentheses that are open and knows whether an operand or a connective has to stand next. The
first lexeme that cannot stand there, or the end, decides the fault. The readers, which recurse
through the groups of a text, report exactly this fault.
-/

namespace TokenSearch.FaultScan

open TokenSearch.Expr (Place Reader Reads ReadsFurther NotAt)

/-- What has to stand next. -/
inductive Expects
  /-- An operand, behind the start, a connective or an opening parenthesis. -/
  | operand (place : Place)
  /-- A connective, unless a group or the text ends. -/
  | connective
  deriving DecidableEq, Repr

/-- What the scan knows between two lexemes. -/
structure State where
  /-- The offsets of the parentheses that are open, the innermost first. -/
  opened : List Nat
  expects : Expects
  deriving DecidableEq, Repr

/-- The state before the first lexeme. -/
def start : State := ⟨[], .operand .start⟩

/-- Go over one lexeme, or find that it cannot stand here. -/
def step (state : State) (lexeme : Lexeme) : Except ParseFault State :=
  match state.expects, lexeme.symbol with
  | .operand _, .literal _ => .ok ⟨state.opened, .connective⟩
  | .operand _, .openGroup =>
    if state.opened.length < nestingLimit then
      .ok ⟨lexeme.position :: state.opened, .operand (.afterOpen lexeme.position)⟩
    else .error .tooDeep
  | .operand (.afterConnective op position), _ => .error (.missingOperand op position)
  | .operand (.afterOpen position), .closeGroup => .error (.emptyGroup position)
  | .operand _, .connective op => .error (.missingOperand op lexeme.position)
  | .operand _, _ => .error (.unbalancedParenthesis lexeme.position)
  | .connective, .connective op =>
    .ok ⟨state.opened, .operand (.afterConnective op lexeme.position)⟩
  | .connective, .closeGroup =>
    match state.opened with
    | [] => .error (.unbalancedParenthesis lexeme.position)
    | _ :: outer => .ok ⟨outer, .connective⟩
  | .connective, found => .error (.unexpectedSymbol found lexeme.position)

/-- The fault when the text ends here, if it may not. -/
def atEnd (state : State) : Option ParseFault :=
  match state.expects, state.opened with
  | .operand .start, _ => some .empty
  | .operand (.afterConnective op position), _ => some (.missingOperand op position)
  | .operand (.afterOpen position), _ => some (.unbalancedParenthesis position)
  | .connective, position :: _ => some (.unbalancedParenthesis position)
  | .connective, [] => none

/-- The leftmost fault of the lexemes that are left, up to the end. -/
def faultFrom (state : State) : List Lexeme → Option ParseFault
  | [] => atEnd state
  | lexeme :: rest =>
    if lexeme.symbol = .stop then atEnd state
    else match step state lexeme with
      | .error fault => some fault
      | .ok next => faultFrom next rest

/-- The scan goes over what a reader takes, and finds the fault that a reader reports. -/
structure Follows (read : Reader) (opened : List Nat) : Prop where
  /-- A fault of the reader is the leftmost one from here. -/
  fault : ∀ {place lexemes fault}, read place lexemes = .error fault →
    faultFrom ⟨opened, .operand place⟩ lexemes = some fault
  /-- Behind what was taken, an operand has been gone over and the same groups are open. -/
  taken : ∀ {place lexemes e rest}, Reads read place lexemes e rest →
    faultFrom ⟨opened, .operand place⟩ lexemes = faultFrom ⟨opened, .connective⟩ rest

/-- A connective that may stand here calls for an operand. -/
theorem faultFrom_connective (opened : List Nat) (op : Connective) (position : Nat)
    (rest : List Lexeme) :
    faultFrom ⟨opened, .connective⟩ (⟨.connective op, position⟩ :: rest) =
      faultFrom ⟨opened, .operand (.afterConnective op position)⟩ rest := rfl

/-- Further operands of a connective are gone over one by one. -/
theorem Follows.readsFurther {read : Reader} {opened : List Nat} (h : Follows read opened)
    {op : Connective} {lexemes rest : List Lexeme} {es : List Expr}
    (hreads : ReadsFurther op read lexemes es rest) :
    faultFrom ⟨opened, .connective⟩ lexemes = faultFrom ⟨opened, .connective⟩ rest := by
  induction hreads with
  | stop _ => rfl
  | more first _ ih => rw [faultFrom_connective, h.taken first, ih]

/-- A fault among further operands is the leftmost one. -/
theorem Follows.readFurther {read : Reader} {opened : List Nat} (h : Follows read opened)
    {op : Connective} {lexemes : List Lexeme} {fault : ParseFault}
    (hread : Expr.readFurther op read lexemes = .error fault) :
    faultFrom ⟨opened, .connective⟩ lexemes = some fault := by
  fun_induction Expr.readFurther op read lexemes with
  | case1 => cases hread
  | case2 position tail found hfirst =>
    cases hread
    rw [faultFrom_connective, h.fault hfirst]
  | case3 position tail e middle hlt hfirst found hfurther ih =>
    cases hread
    rw [faultFrom_connective, h.taken ⟨hlt, hfirst⟩, ih hfurther]
  | case4 => cases hread
  | case5 => cases hread

/-- Chains are followed when what they consist of is. -/
theorem Follows.readChain {read : Reader} {opened : List Nat} (h : Follows read opened)
    (op : Connective) : Follows (Expr.readChain op read) opened where
  fault := by
    intro place lexemes fault hread
    unfold Expr.readChain at hread
    split at hread
    · rename_i found hfirst
      cases hread
      exact h.fault hfirst
    · rename_i e middle hlt hfirst
      split at hread
      · rename_i found hfurther
        cases hread
        rw [h.taken ⟨hlt, hfirst⟩, h.readFurther hfurther]
      · cases hread
  taken := by
    intro place lexemes e rest hreads
    obtain ⟨first, middle, es, hfirst, hfurther, -⟩ := Expr.reads_readChain_iff.mp hreads
    rw [h.taken hfirst, h.readsFurther hfurther]

/-- A parenthesis is opened as long as fewer than the limit are open. -/
theorem faultFrom_openGroup {opened : List Nat} (h : opened.length < nestingLimit) (place : Place)
    (position : Nat) (rest : List Lexeme) :
    faultFrom ⟨opened, .operand place⟩ (⟨.openGroup, position⟩ :: rest) =
      faultFrom ⟨position :: opened, .operand (.afterOpen position)⟩ rest := by
  simp [faultFrom, step, h]

/-- One more parenthesis is too deep. -/
theorem faultFrom_tooDeep {opened : List Nat} (h : ¬ opened.length < nestingLimit) (place : Place)
    (position : Nat) (rest : List Lexeme) :
    faultFrom ⟨opened, .operand place⟩ (⟨.openGroup, position⟩ :: rest) = some .tooDeep := by
  simp [faultFrom, step, h]

/-- The fault of a missing operand depends on what stands before it and in its place. -/
theorem faultFrom_missingOperand {opened : List Nat} {place : Place} {found : Symbol}
    (hliteral : ∀ token, found ≠ .literal token) (hopen : found ≠ .openGroup) (position : Nat)
    (rest : List Lexeme) :
    faultFrom ⟨opened, .operand place⟩ (⟨found, position⟩ :: rest) =
      some (Expr.missingOperand place found position) := by
  cases found with
  | literal token => exact absurd rfl (hliteral token)
  | openGroup => exact absurd rfl hopen
  | connective op => cases place <;> rfl
  | closeGroup => cases place <;> rfl
  | stop => cases place <;> rfl

/-- Behind an operand nothing may stand but a connective, the end of a group or the end. -/
theorem faultFrom_unexpected {opened : List Nat} {found : Symbol} {position : Nat}
    {rest : List Lexeme} (hconnective : ∀ op, NotAt op (⟨found, position⟩ :: rest))
    (hclose : found ≠ .closeGroup) (hstop : found ≠ .stop) :
    faultFrom ⟨opened, .connective⟩ (⟨found, position⟩ :: rest) =
      some (.unexpectedSymbol found position) := by
  cases found with
  | connective op => exact absurd rfl (hconnective op _ rfl)
  | closeGroup => exact absurd rfl hclose
  | stop => exact absurd rfl hstop
  | literal token => rfl
  | openGroup => rfl

/-- Operands are followed when the insides of groups are, with one more parenthesis open, and
when there is no reader for the insides once the limit is reached. -/
theorem Follows.readOperand {inner : Option Reader} {opened : List Nat}
    (hnone : inner = none → ¬ opened.length < nestingLimit)
    (hsome : ∀ read ∈ inner, opened.length < nestingLimit ∧
      (∀ position, Follows read (position :: opened)) ∧
      ∀ {place lexemes e rest}, Reads read place lexemes e rest → ∀ op, NotAt op rest) :
    Follows (Expr.readOperand inner) opened where
  fault := by
    intro place lexemes fault hread
    unfold Expr.readOperand at hread
    split at hread
    · cases hread
    · rename_i position tail
      cases inner with
      | none =>
        cases hread
        exact faultFrom_tooDeep (hnone rfl) place position tail
      | some read =>
        obtain ⟨hlt, hfollows, hends⟩ := hsome read rfl
        rw [faultFrom_openGroup hlt]
        simp only at hread
        split at hread
        · rename_i hinside
          cases hread
          exact (hfollows position).fault hinside
        · cases hread
        · rename_i hinside
          cases hread
          rw [(hfollows position).taken ⟨_, hinside⟩]
          rfl
        · rename_i found offset rest hlt hclose hstop hinside
          cases hread
          rw [(hfollows position).taken ⟨_, hinside⟩]
          exact faultFrom_unexpected (hends ⟨_, hinside⟩) hclose hstop
        · rename_i hinside
          cases hread
          rw [(hfollows position).taken ⟨_, hinside⟩]
          rfl
    · rename_i found position tail hliteral hopen
      cases hread
      exact faultFrom_missingOperand hliteral hopen position tail
    · cases hread
      cases place <;> rfl
  taken := by
    intro place lexemes e rest hreads
    rcases Expr.reads_readOperand_iff.mp hreads with ⟨token, position, rfl, rfl⟩ |
      ⟨read, position, tail, close, hread, rfl, hinside⟩
    · rfl
    · obtain ⟨hlt, hfollows, -⟩ := hsome read hread
      rw [faultFrom_openGroup hlt, (hfollows position).taken hinside]
      rfl

/-- The reader of operands is followed when it may open as many parentheses as the limit leaves. -/
theorem follows_operand (depth : Nat) {opened : List Nat}
    (h : opened.length + depth = nestingLimit) : Follows (Expr.operand depth) opened := by
  induction depth generalizing opened with
  | zero => exact Follows.readOperand (fun _ => by omega) nofun
  | succ depth ih =>
    refine Follows.readOperand nofun ?_
    rintro read ⟨⟩
    have hinside : ∀ position, Follows (Expr.disjunction depth) (position :: opened) := by
      intro position
      have hlength : (position :: opened).length + depth = nestingLimit := by
        simp only [List.length_cons]
        omega
      exact ((ih hlength).readChain .and).readChain .or
    exact ⟨by omega, hinside, Expr.notAt_of_reads_disjunction⟩

/-- The reader of a whole text is followed. -/
theorem follows_disjunction : Follows (Expr.disjunction nestingLimit) [] :=
  ((follows_operand nestingLimit (Nat.zero_add _)).readChain .and).readChain .or

/-- A fault of the lexemes of a text is the one that the scan finds. -/
theorem faultFrom_of_ofLexemes_error {lexemes : List Lexeme} {fault : ParseFault}
    (h : Expr.ofLexemes lexemes = .error fault) : faultFrom start lexemes = some fault := by
  unfold Expr.ofLexemes at h
  split at h
  · rename_i found hread
    cases h
    exact follows_disjunction.fault hread
  · cases h
  · rename_i hread
    cases h
    rw [start, follows_disjunction.taken ⟨_, hread⟩]
    rfl
  · rename_i found position rest hlt hstop hclose hread
    cases h
    rw [start, follows_disjunction.taken ⟨_, hread⟩]
    exact faultFrom_unexpected (Expr.notAt_of_reads_disjunction ⟨_, hread⟩) hclose hstop
  · cases h

/-- The scan finds no fault in lexemes that are read. -/
theorem faultFrom_of_ofLexemes_ok {lexemes : List Lexeme} {e : Expr}
    (h : Expr.ofLexemes lexemes = .ok e) : faultFrom start lexemes = none := by
  obtain ⟨rest, hreads, hrest⟩ := Expr.ofLexemes_eq_ok_iff.mp h
  rw [start, follows_disjunction.taken hreads]
  cases rest with
  | nil => rfl
  | cons lexeme rest => simp [faultFrom, hrest lexeme rfl, atEnd]

/-- Reading the lexemes of a text fails with just the fault that the scan finds. -/
theorem ofLexemes_eq_error_iff {lexemes : List Lexeme} {fault : ParseFault} :
    Expr.ofLexemes lexemes = .error fault ↔ faultFrom start lexemes = some fault := by
  constructor
  · exact faultFrom_of_ofLexemes_error
  · intro hscan
    cases h : Expr.ofLexemes lexemes with
    | error found =>
      rw [faultFrom_of_ofLexemes_error h] at hscan
      rw [Option.some.inj hscan]
    | ok e =>
      rw [faultFrom_of_ofLexemes_ok h] at hscan
      cases hscan

/-- The stop that closes the lexemes of a text is its end. -/
theorem faultFrom_append_stop (state : State) (lexemes : List Lexeme) (position : Nat) :
    faultFrom state (lexemes ++ [⟨.stop, position⟩]) = faultFrom state lexemes := by
  induction lexemes generalizing state with
  | nil => simp [faultFrom]
  | cons lexeme lexemes ih =>
    rw [List.cons_append, faultFrom, faultFrom]
    split
    · rfl
    · cases step state lexeme with
      | error fault => rfl
      | ok next => exact ih next

/-- No lexeme has the fault of an empty text. -/
theorem step_ne_empty (state : State) (lexeme : Lexeme) :
    step state lexeme ≠ .error .empty := by
  fun_cases step state lexeme <;> nofun

/-- No lexeme leads back to the start. -/
theorem expects_of_step {state next : State} {lexeme : Lexeme}
    (h : step state lexeme = .ok next) : next.expects ≠ .operand .start := by
  revert h
  fun_cases step state lexeme <;> rintro ⟨⟩ <;> nofun

/-- Only at the start is the end that of an empty text. -/
theorem atEnd_ne_empty {state : State} (h : state.expects ≠ .operand .start) :
    atEnd state ≠ some .empty := by
  fun_cases atEnd state with
  | case1 hexpects => exact absurd hexpects h
  | _ => nofun

/-- Only a text without lexemes is empty. -/
theorem faultFrom_ne_empty {state : State} (h : state.expects ≠ .operand .start)
    (lexemes : List Lexeme) : faultFrom state lexemes ≠ some .empty := by
  induction lexemes generalizing state with
  | nil => exact atEnd_ne_empty h
  | cons lexeme lexemes ih =>
    rw [faultFrom]
    by_cases hstop : lexeme.symbol = .stop
    · rw [if_pos hstop]
      exact atEnd_ne_empty h
    · rw [if_neg hstop]
      cases hstep : step state lexeme with
      | error fault =>
        rintro ⟨⟩
        exact step_ne_empty state lexeme hstep
      | ok next => exact ih (expects_of_step hstep)

end TokenSearch.FaultScan

namespace TokenSearch.Expr

open TokenSearch.FaultScan (faultFrom start)

/-- A text that has a cut fails with just the fault that the scan finds in its lexemes. -/
theorem parse_eq_error_iff_of_cut {s : String} {lexemes : List Lexeme}
    (h : Lexeme.Cut 0 s.toList lexemes) (fault : ParseFault) :
    parse s = .error fault ↔ faultFrom start lexemes = some fault := by
  rw [← FaultScan.faultFrom_append_stop, ← FaultScan.ofLexemes_eq_error_iff, parse, Lexeme.scan,
    h.scanFrom_eq]
  rfl

/-- A text that has a cut is empty exactly when it is blank. -/
theorem parse_eq_empty_iff {s : String} {lexemes : List Lexeme}
    (h : Lexeme.Cut 0 s.toList lexemes) :
    parse s = .error .empty ↔ ∀ c ∈ s.toList, Text.isBlank c = true := by
  rw [← h.eq_nil_iff, parse_eq_error_iff_of_cut h]
  constructor
  · intro hscan
    cases lexemes with
    | nil => rfl
    | cons lexeme lexemes =>
      have hstop := (h.symbols lexeme List.mem_cons_self).1
      rw [faultFrom, if_neg hstop] at hscan
      cases hstep : FaultScan.step start lexeme with
      | error fault =>
        rw [hstep] at hscan
        cases hscan
        exact absurd hstep (FaultScan.step_ne_empty start lexeme)
      | ok next =>
        rw [hstep] at hscan
        have hnext := FaultScan.expects_of_step hstep
        exact absurd hscan (FaultScan.faultFrom_ne_empty hnext lexemes)
  · rintro rfl
    rfl

/-- The fault of a text that cannot be read is the leftmost one. A character outside the
language comes before all other faults, and the first such character is reported. Otherwise a
text of blanks is empty, and only such a text is. Otherwise the scan over the lexemes decides. -/
theorem parse_eq_error_iff_leftmost (s : String) :
    (∀ before c after, s.toList = before ++ c :: after →
      (∀ b ∈ before, Lexeme.InAlphabet b) → ¬ Lexeme.InAlphabet c →
        parse s = .error (.invalidCharacter c (byteLength before))) ∧
    ((∀ c ∈ s.toList, Lexeme.InAlphabet c) →
      (parse s = .error .empty ↔ ∀ c ∈ s.toList, Text.isBlank c = true) ∧
      ∃ lexemes, Lexeme.Cut 0 s.toList lexemes ∧
        ∀ fault, parse s = .error fault ↔ faultFrom start lexemes = some fault) := by
  constructor
  · intro before c after hs hbefore hc
    obtain ⟨_, hcut⟩ := Lexeme.exists_cut hbefore 0
    rw [parse, Lexeme.scan, hs, hcut.scanFrom_foreign hc, Nat.zero_add]
    rfl
  · intro hs
    obtain ⟨lexemes, hcut⟩ := Lexeme.exists_cut hs 0
    exact ⟨parse_eq_empty_iff hcut, lexemes, hcut, parse_eq_error_iff_of_cut hcut⟩

end TokenSearch.Expr
