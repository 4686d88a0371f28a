import Mathlib.Logic.Function.Iterate
import TokenSearch.Proofs.Parsing

/-!
# Descent with a cursor

The readers of expressions hand on the lexemes that are left and the number of parentheses that
may still be opened. The same descent can be followed step by step with a cursor into the
lexemes, a count of the parentheses that are open, and a stack of the readers that wait for a part
of their phrase. The first fault ends the descent and leaves the stack as it is. At every step the
cursor is on a lexeme and no more parentheses are open than the limit allows; the count exceeds
the one at the beginning by the groups on the stack. Every descent ends, with what the readers
read or with the fault that they report.
-/

namespace TokenSearch.Descent

open TokenSearch.Expr (Place Reader Reads ReadsFurther NotAt combine missingOperand readFurther
  readChain readOperand reads_readChain_iff reads_readOperand_iff)

/-- The phrases that there are readers for: operands with a connective between them, which are a
disjunction or a conjunction, and a single operand. -/
inductive Phrase
  | chain (op : Connective)
  | operand
  deriving DecidableEq, Repr

/-- What stands on either side of a connective. -/
def Phrase.within : Connective → Phrase
  | .or => .chain .and
  | .and => .operand

/-- The reader of a phrase in which at most `depth` more parentheses may be opened. -/
def Phrase.reader : Phrase → Nat → Reader
  | .chain .or => Expr.disjunction
  | .chain .and => Expr.conjunction
  | .operand => Expr.operand

/-- A reader that waits for a part of its phrase. -/
inductive Frame
  /-- The parts before the one that is read now are complete. -/
  | chain (op : Connective) (before : List Expr)
  /-- The inside of the group is read that was opened at an offset. -/
  | group (position : Nat)
  deriving Repr

/-- What happens next. -/
inductive Control
  | call (phrase : Phrase) (place : Place)
  /-- A phrase is complete, and the reader that waits for it goes on. -/
  | done (e : Expr)
  | failed (fault : ParseFault)
  /-- The cursor was on no lexeme when one was looked at. -/
  | outOfBounds

structure State where
  control : Control
  /-- The readers that wait, the innermost first. -/
  frames : List Frame
  cursor : Nat
  /-- The number of parentheses that are open. -/
  depth : Nat

/-- The state in which a reader is called. -/
def start (phrase : Phrase) (place : Place) (cursor depth : Nat) : State :=
  ⟨.call phrase place, [], cursor, depth⟩

/-- Look at the lexeme under the cursor. -/
def State.peek (s : State) (lexemes : List Lexeme) (next : Lexeme → State) : State :=
  match lexemes[s.cursor]? with
  | some lexeme => next lexeme
  | none => { s with control := .outOfBounds }

/-- Where the cursor is moved from a lexeme. It is not moved from the end. -/
def behind (lexeme : Lexeme) (cursor : Nat) : Nat :=
  if lexeme.symbol = .stop then cursor else cursor + 1

/-- Begin to read a phrase. -/
def enter (lexemes : List Lexeme) (s : State) : Phrase → Place → State
  | .chain op, place =>
    { s with control := .call (.within op) place, frames := .chain op [] :: s.frames }
  | .operand, place => s.peek lexemes fun lexeme =>
    match lexeme.symbol with
    | .literal token =>
      { s with control := .done (.literal token), cursor := behind lexeme s.cursor }
    | .openGroup =>
      if nestingLimit ≤ s.depth then
        { s with control := .failed .tooDeep, cursor := behind lexeme s.cursor }
      else
        ⟨.call (.chain .or) (.afterOpen lexeme.position), .group lexeme.position :: s.frames,
          behind lexeme s.cursor, s.depth + 1⟩
    | found => { s with control := .failed (missingOperand place found lexeme.position) }

/-- Hand a complete phrase to the reader that waits for it. -/
def resume (lexemes : List Lexeme) (s : State) (e : Expr) : State :=
  match s.frames with
  | [] => s
  | .chain op before :: frames => s.peek lexemes fun lexeme =>
    if lexeme.symbol = .connective op then
      ⟨.call (.within op) (.afterConnective op lexeme.position),
        .chain op (before ++ [e]) :: frames, behind lexeme s.cursor, s.depth⟩
    else ⟨.done (combine op (before ++ [e])), frames, s.cursor, s.depth⟩
  | .group position :: frames => s.peek lexemes fun lexeme =>
    match lexeme.symbol with
    | .closeGroup => ⟨.done e, frames, behind lexeme s.cursor, s.depth - 1⟩
    | .stop => ⟨.failed (.unbalancedParenthesis position), frames, s.cursor, s.depth - 1⟩
    | found =>
      ⟨.failed (.unexpectedSymbol found lexeme.position), frames, s.cursor, s.depth - 1⟩

/-- One step. A fault, and a phrase that no reader waits for, end the descent. -/
def step (lexemes : List Lexeme) (s : State) : State :=
  match s.control with
  | .call phrase place => enter lexemes s phrase place
  | .done e => resume lexemes s e
  | .failed _ => s
  | .outOfBounds => s

/-- The number of groups whose inside is being read. -/
def openGroups : List Frame → Nat
  | [] => 0
  | .chain _ _ :: frames => openGroups frames
  | .group _ :: frames => openGroups frames + 1

section Bounds

variable {lexemes : List Lexeme}

/-- The last lexeme is the end. -/
def Closed (lexemes : List Lexeme) : Prop := ∃ body position, lexemes = body ++ [⟨.stop, position⟩]

/-- Behind a lexeme that is not the end there is another one. -/
theorem Closed.lt_length (hclosed : Closed lexemes) {cursor : Nat} {lexeme : Lexeme}
    (h : lexemes[cursor]? = some lexeme) (hstop : lexeme.symbol ≠ .stop) :
    cursor + 1 < lexemes.length := by
  obtain ⟨body, position, rfl⟩ := hclosed
  have hlt := (List.getElem?_eq_some_iff.mp h).1
  rw [List.length_append, List.length_singleton] at hlt ⊢
  by_contra hlast
  obtain rfl : cursor = body.length := by omega
  rw [List.getElem?_concat_length] at h
  cases h
  exact hstop rfl

theorem Closed.behind_lt_length (hclosed : Closed lexemes) {cursor : Nat} {lexeme : Lexeme}
    (h : lexemes[cursor]? = some lexeme) : behind lexeme cursor < lexemes.length := by
  unfold behind
  split
  · exact (List.getElem?_eq_some_iff.mp h).1
  · exact hclosed.lt_length h ‹_›

/-- What holds at every step of a descent that began with `entry` open parentheses. -/
structure Safe (lexemes : List Lexeme) (entry : Nat) (s : State) : Prop where
  /-- The cursor is on a lexeme. -/
  cursor : s.cursor < lexemes.length
  control : s.control ≠ .outOfBounds
  depth : s.depth ≤ nestingLimit
  opened : s.depth = entry + openGroups s.frames

/-- Where the cursor is on a lexeme, looking at it leads on. -/
theorem Safe.peek {entry : Nat} {s : State} (h : Safe lexemes entry s) {next : Lexeme → State}
    (hnext : ∀ lexeme, lexemes[s.cursor]? = some lexeme → Safe lexemes entry (next lexeme)) :
    Safe lexemes entry (s.peek lexemes next) := by
  have hlexeme := List.getElem?_eq_getElem h.cursor
  rw [State.peek, hlexeme]
  exact hnext _ hlexeme

theorem Safe.enter (hclosed : Closed lexemes) {entry : Nat} {s : State}
    (h : Safe lexemes entry s) (phrase : Phrase) (place : Place) :
    Safe lexemes entry (enter lexemes s phrase place) := by
  cases phrase with
  | chain op => exact ⟨h.cursor, nofun, h.depth, h.opened⟩
  | operand =>
    refine h.peek fun lexeme hlexeme => ?_
    have hbehind := hclosed.behind_lt_length hlexeme
    split
    · exact ⟨hbehind, nofun, h.depth, h.opened⟩
    · split
      · exact ⟨hbehind, nofun, h.depth, h.opened⟩
      · rename_i hlimit
        exact ⟨hbehind, nofun, Nat.lt_of_not_le hlimit, congrArg (· + 1) h.opened⟩
    · exact ⟨h.cursor, nofun, h.depth, h.opened⟩

/-- A parser goes on within its bounds. A group on the stack has been counted, so that the count can
be taken back. -/
theorem Safe.resume (hclosed : Closed lexemes) {entry : Nat} {s : State}
    (h : Safe lexemes entry s) (e : Expr) : Safe lexemes entry (resume lexemes s e) := by
  unfold Descent.resume
  split
  · exact h
  · rename_i op before frames hframes
    have hopened : s.depth = entry + openGroups frames := by rw [h.opened, hframes, openGroups]
    refine h.peek fun lexeme hlexeme => ?_
    split
    · exact ⟨hclosed.behind_lt_length hlexeme, nofun, h.depth, hopened⟩
    · exact ⟨h.cursor, nofun, h.depth, hopened⟩
  · rename_i position frames hframes
    have hcounted : s.depth = entry + (openGroups frames + 1) := by
      rw [h.opened, hframes, openGroups]
    have hopened : s.depth - 1 = entry + openGroups frames := by omega
    have hdepth : s.depth - 1 ≤ nestingLimit := Nat.le_trans (Nat.sub_le _ _) h.depth
    refine h.peek fun lexeme hlexeme => ?_
    split
    · exact ⟨hclosed.behind_lt_length hlexeme, nofun, hdepth, hopened⟩
    · exact ⟨h.cursor, nofun, hdepth, hopened⟩
    · exact ⟨h.cursor, nofun, hdepth, hopened⟩

/-- One step is safe. -/
theorem Safe.step (hclosed : Closed lexemes) {entry : Nat} {s : State}
    (h : Safe lexemes entry s) : Safe lexemes entry (step lexemes s) := by
  unfold Descent.step
  split
  · exact h.enter hclosed _ _
  · exact h.resume hclosed _
  · exact h
  · exact h

/-- Every step is safe. -/
theorem Safe.iterate (hclosed : Closed lexemes) {entry : Nat} {s : State}
    (h : Safe lexemes entry s) (n : Nat) : Safe lexemes entry ((Descent.step lexemes)^[n] s) := by
  induction n with
  | zero => exact h
  | succ n ih =>
    rw [Function.iterate_succ_apply']
    exact ih.step hclosed

end Bounds

section Agreement

variable {lexemes tail : List Lexeme} {frames : List Frame} {before : List Expr} {e : Expr}
  {op : Connective} {place : Place} {cursor depth position : Nat}

/-- The lexemes from the cursor on begin with the one under it. -/
theorem getElem?_of_drop {lexeme : Lexeme} (h : lexemes.drop cursor = lexeme :: tail) :
    lexemes[cursor]? = some lexeme ∧ lexemes.drop (cursor + 1) = tail := by
  constructor
  · rw [← List.head?_drop, h, List.head?_cons]
  · rw [← List.tail_drop, h, List.tail_cons]

theorem peek_of_drop {s : State} {lexeme : Lexeme} (h : lexemes.drop s.cursor = lexeme :: tail)
    (next : Lexeme → State) : s.peek lexemes next = next lexeme := by
  rw [State.peek, (getElem?_of_drop h).1]

theorem step_literal {token : Token}
    (h : lexemes.drop cursor = ⟨.literal token, position⟩ :: tail) :
    step lexemes ⟨.call .operand place, frames, cursor, depth⟩ =
      ⟨.done (.literal token), frames, cursor + 1, depth⟩ := by
  simp only [step, enter]
  rw [peek_of_drop h]
  rfl

theorem step_openGroup (h : lexemes.drop cursor = ⟨.openGroup, position⟩ :: tail)
    (hdepth : depth < nestingLimit) :
    step lexemes ⟨.call .operand place, frames, cursor, depth⟩ =
      ⟨.call (.chain .or) (.afterOpen position), .group position :: frames, cursor + 1,
        depth + 1⟩ := by
  simp only [step, enter]
  rw [peek_of_drop h, if_neg (Nat.not_le_of_lt hdepth)]
  rfl

theorem step_tooDeep (h : lexemes.drop cursor = ⟨.openGroup, position⟩ :: tail)
    (hdepth : nestingLimit ≤ depth) :
    (step lexemes ⟨.call .operand place, frames, cursor, depth⟩).control = .failed .tooDeep := by
  simp only [step, enter]
  rw [peek_of_drop h, if_pos hdepth]

theorem step_missingOperand {found : Symbol} (h : lexemes.drop cursor = ⟨found, position⟩ :: tail)
    (hliteral : ∀ token, found ≠ .literal token) (hopen : found ≠ .openGroup) :
    (step lexemes ⟨.call .operand place, frames, cursor, depth⟩).control =
      .failed (missingOperand place found position) := by
  simp only [step, enter]
  rw [peek_of_drop h]
  cases found with
  | literal token => exact absurd rfl (hliteral token)
  | openGroup => exact absurd rfl hopen
  | connective | closeGroup | stop => rfl

theorem step_connective (h : lexemes.drop cursor = ⟨.connective op, position⟩ :: tail) :
    step lexemes ⟨.done e, .chain op before :: frames, cursor, depth⟩ =
      ⟨.call (.within op) (.afterConnective op position), .chain op (before ++ [e]) :: frames,
        cursor + 1, depth⟩ := by
  simp only [step, resume]
  rw [peek_of_drop h, if_pos rfl]
  rfl

theorem step_notAt {lexeme : Lexeme} (h : lexemes.drop cursor = lexeme :: tail)
    (hne : lexeme.symbol ≠ .connective op) :
    step lexemes ⟨.done e, .chain op before :: frames, cursor, depth⟩ =
      ⟨.done (combine op (before ++ [e])), frames, cursor, depth⟩ := by
  simp only [step, resume]
  rw [peek_of_drop h, if_neg hne]

theorem step_closeGroup {close : Nat} (h : lexemes.drop cursor = ⟨.closeGroup, close⟩ :: tail) :
    step lexemes ⟨.done e, .group position :: frames, cursor, depth + 1⟩ =
      ⟨.done e, frames, cursor + 1, depth⟩ := by
  simp only [step, resume]
  rw [peek_of_drop h]
  rfl

/-- The fault when a group is not closed behind its inside. -/
def unclosed (position : Nat) (lexeme : Lexeme) : ParseFault :=
  if lexeme.symbol = .stop then .unbalancedParenthesis position
  else .unexpectedSymbol lexeme.symbol lexeme.position

theorem step_unclosed {lexeme : Lexeme} (h : lexemes.drop cursor = lexeme :: tail)
    (hclose : lexeme.symbol ≠ .closeGroup) :
    (step lexemes ⟨.done e, .group position :: frames, cursor, depth⟩).control =
      .failed (unclosed position lexeme) := by
  obtain ⟨found, offset⟩ := lexeme
  simp only [step, resume]
  rw [peek_of_drop h]
  cases found with
  | closeGroup => exact absurd rfl hclose
  | literal | connective | openGroup | stop => rfl

/-- Some number of steps leads from one state to another. -/
def Reaches (lexemes : List Lexeme) (s t : State) : Prop := ∃ n, (step lexemes)^[n] s = t

theorem Reaches.refl (s : State) : Reaches lexemes s s := ⟨0, rfl⟩

theorem Reaches.trans {s t u : State} (h : Reaches lexemes s t) (hu : Reaches lexemes t u) :
    Reaches lexemes s u := by
  obtain ⟨n, rfl⟩ := h
  obtain ⟨m, rfl⟩ := hu
  exact ⟨m + n, Function.iterate_add_apply _ m n s⟩

/-- What a state after one step reaches is reached. -/
theorem Reaches.step {s t : State} (h : Reaches lexemes (Descent.step lexemes s) t) :
    Reaches lexemes s t := by
  obtain ⟨n, rfl⟩ := h
  exact ⟨n + 1, Function.iterate_succ_apply _ n s⟩

/-- A state leads to a phrase that is complete in front of some lexemes, with the same readers
waiting and as many parentheses open as given. -/
def Completes (lexemes : List Lexeme) (s : State) (e : Expr) (frames : List Frame) (depth : Nat)
    (rest : List Lexeme) : Prop :=
  ∃ last, last < lexemes.length ∧ lexemes.drop last = rest ∧
    Reaches lexemes s ⟨.done e, frames, last, depth⟩

/-- A state leads to a fault. -/
def Fails (lexemes : List Lexeme) (s : State) (fault : ParseFault) : Prop :=
  ∃ t, t.control = .failed fault ∧ Reaches lexemes s t

theorem Completes.of_reaches {s t : State} {rest : List Lexeme} (hs : Reaches lexemes s t)
    (h : Completes lexemes t e frames depth rest) : Completes lexemes s e frames depth rest := by
  obtain ⟨last, hlast, hrest, hreaches⟩ := h
  exact ⟨last, hlast, hrest, hs.trans hreaches⟩

theorem Fails.of_reaches {s t : State} {fault : ParseFault} (hs : Reaches lexemes s t)
    (h : Fails lexemes t fault) : Fails lexemes s fault := by
  obtain ⟨last, hfault, hreaches⟩ := h
  exact ⟨last, hfault, hs.trans hreaches⟩

/-- From a call of a phrase, the steps do what a reader does with the lexemes from the cursor on. -/
structure Performs (lexemes : List Lexeme) (phrase : Phrase) (depth : Nat) (read : Reader) :
    Prop where
  complete : ∀ {place cursor e rest} (frames : List Frame), cursor < lexemes.length →
    Reads read place (lexemes.drop cursor) e rest →
      Completes lexemes ⟨.call phrase place, frames, cursor, depth⟩ e frames depth rest
  fail : ∀ {place cursor fault} (frames : List Frame), cursor < lexemes.length →
    read place (lexemes.drop cursor) = .error fault →
      Fails lexemes ⟨.call phrase place, frames, cursor, depth⟩ fault

/-- Behind the symbol of a connective one more operand is read. -/
theorem Performs.complete_connective (hclosed : Closed lexemes) {read : Reader}
    (h : Performs lexemes (.within op) depth read)
    (hbehind : lexemes.drop cursor = ⟨.connective op, position⟩ :: tail) {first : Expr}
    {middle : List Lexeme} (hfirst : Reads read (.afterConnective op position) tail first middle)
    (before : List Expr) (e : Expr) :
    Completes lexemes ⟨.done e, .chain op before :: frames, cursor, depth⟩ first
      (.chain op (before ++ [e]) :: frames) depth middle := by
  obtain ⟨hlexeme, rfl⟩ := getElem?_of_drop hbehind
  have hnext : cursor + 1 < lexemes.length := hclosed.lt_length hlexeme nofun
  have hcomplete := h.complete (.chain op (before ++ [e]) :: frames) hnext hfirst
  refine hcomplete.of_reaches (Reaches.step ?_)
  rw [step_connective hbehind]
  exact .refl _

theorem Performs.fail_connective (hclosed : Closed lexemes) {read : Reader}
    (h : Performs lexemes (.within op) depth read)
    (hbehind : lexemes.drop cursor = ⟨.connective op, position⟩ :: tail) {fault : ParseFault}
    (hread : read (.afterConnective op position) tail = .error fault) :
    Fails lexemes ⟨.done e, .chain op before :: frames, cursor, depth⟩ fault := by
  obtain ⟨hlexeme, rfl⟩ := getElem?_of_drop hbehind
  have hnext : cursor + 1 < lexemes.length := hclosed.lt_length hlexeme nofun
  have hfail := h.fail (.chain op (before ++ [e]) :: frames) hnext hread
  refine hfail.of_reaches (Reaches.step ?_)
  rw [step_connective hbehind]
  exact .refl _

/-- Further operands of a connective are read one by one. -/
theorem Performs.readsFurther (hclosed : Closed lexemes) {read : Reader}
    (h : Performs lexemes (.within op) depth read) {behind rest : List Lexeme} {es : List Expr}
    (hreads : ReadsFurther op read behind es rest) (hcursor : cursor < lexemes.length)
    (hbehind : lexemes.drop cursor = behind) :
    Completes lexemes ⟨.done e, .chain op before :: frames, cursor, depth⟩
      (combine op (before ++ e :: es)) frames depth rest := by
  induction hreads generalizing cursor before e with
  | @stop behind hstop =>
    have hhead := List.drop_eq_getElem_cons hcursor
    have hne : lexemes[cursor].symbol ≠ .connective op := by
      apply hstop
      rw [← hbehind, hhead]
      rfl
    refine ⟨cursor, hcursor, hbehind, Reaches.step ?_⟩
    rw [step_notAt hhead hne]
    exact .refl _
  | more hfirst _ ih =>
    obtain ⟨second, hsecond, hmiddle, hreaches⟩ :=
      h.complete_connective hclosed hbehind hfirst before e
    have hfurther := (ih hsecond hmiddle).of_reaches hreaches
    rwa [List.append_assoc, List.singleton_append] at hfurther

/-- A fault among further operands is found. -/
theorem Performs.readFurther (hclosed : Closed lexemes) {read : Reader}
    (h : Performs lexemes (.within op) depth read) {behind : List Lexeme} {fault : ParseFault}
    (hread : Expr.readFurther op read behind = .error fault)
    (hbehind : lexemes.drop cursor = behind) :
    Fails lexemes ⟨.done e, .chain op before :: frames, cursor, depth⟩ fault := by
  fun_induction Expr.readFurther op read behind generalizing cursor before e with
  | case1 => cases hread
  | case2 position tail found hfirst =>
    cases hread
    exact h.fail_connective hclosed hbehind hfirst
  | case3 position tail first middle hlt hfirst found hfurther ih =>
    cases hread
    obtain ⟨second, -, hmiddle, hreaches⟩ :=
      h.complete_connective hclosed hbehind ⟨hlt, hfirst⟩ before e
    exact (ih hfurther hmiddle).of_reaches hreaches
  | case4 => cases hread
  | case5 => cases hread

/-- The steps of a chain do what its reader does, when those of its operands do. -/
theorem Performs.readChain (hclosed : Closed lexemes) {read : Reader}
    (h : Performs lexemes (.within op) depth read) :
    Performs lexemes (.chain op) depth (Expr.readChain op read) where
  complete := by
    intro place cursor e rest frames hcursor hreads
    obtain ⟨first, middle, es, hfirst, hfurther, rfl⟩ := reads_readChain_iff.mp hreads
    obtain ⟨second, hsecond, hmiddle, hreaches⟩ :=
      h.complete (.chain op [] :: frames) hcursor hfirst
    exact (h.readsFurther hclosed hfurther hsecond hmiddle).of_reaches (Reaches.step hreaches)
  fail := by
    intro place cursor fault frames hcursor hread
    unfold Expr.readChain at hread
    split at hread
    · rename_i found hfirst
      cases hread
      exact (h.fail (.chain op [] :: frames) hcursor hfirst).of_reaches (Reaches.step (.refl _))
    · rename_i first middle hlt hfirst
      split at hread
      · rename_i found hfurther
        cases hread
        obtain ⟨second, hsecond, hmiddle, hreaches⟩ :=
          h.complete (.chain op [] :: frames) hcursor ⟨hlt, hfirst⟩
        exact (h.readFurther hclosed hfurther hmiddle).of_reaches (Reaches.step hreaches)
      · cases hread

/-- A group fails with the fault of its inside, or because it is not closed behind its inside. -/
theorem error_of_readOperand_group {read : Reader} {fault : ParseFault}
    (h : Expr.readOperand (some read) place (⟨.openGroup, position⟩ :: tail) = .error fault) :
    read (.afterOpen position) tail = .error fault ∨
      ∃ e rest, Reads read (.afterOpen position) tail e rest ∧
        ∀ lexeme ∈ rest.head?, lexeme.symbol ≠ .closeGroup ∧ unclosed position lexeme = fault := by
  simp only [Expr.readOperand] at h
  split at h
  · rename_i found hread
    cases h
    exact Or.inl hread
  · cases h
  · rename_i e offset rest hlt hread
    cases h
    refine Or.inr ⟨e, ⟨.stop, offset⟩ :: rest, ⟨hlt, hread⟩, ?_⟩
    rintro lexeme ⟨⟩
    refine ⟨?_, rfl⟩
    intro hclose
    cases hclose
  · rename_i e found offset rest hlt hclose hstop hread
    cases h
    refine Or.inr ⟨e, ⟨found, offset⟩ :: rest, ⟨hlt, hread⟩, ?_⟩
    rintro lexeme ⟨⟩
    exact ⟨hclose, by rw [unclosed, if_neg hstop]⟩
  · rename_i e hlt hread
    cases h
    exact Or.inr ⟨e, [], ⟨hlt, hread⟩, by simp⟩

/-- The steps of an operand do what its reader does, when those of the inside of a group do. -/
theorem performs_readOperand (hclosed : Closed lexemes) {inner : Option Reader}
    (hnone : inner = none → nestingLimit ≤ depth)
    (hsome : ∀ read ∈ inner,
      depth < nestingLimit ∧ Performs lexemes (.chain .or) (depth + 1) read) :
    Performs lexemes .operand depth (Expr.readOperand inner) where
  complete := by
    intro place cursor e rest frames hcursor hreads
    rcases reads_readOperand_iff.mp hreads with ⟨token, position, hliteral, rfl⟩ |
      ⟨read, position, tail, close, hread, hopen, hinside⟩
    · obtain ⟨hlexeme, hrest⟩ := getElem?_of_drop hliteral
      have hnext : cursor + 1 < lexemes.length := hclosed.lt_length hlexeme nofun
      refine ⟨cursor + 1, hnext, hrest, Reaches.step ?_⟩
      rw [step_literal hliteral]
      exact .refl _
    · obtain ⟨hdepth, h⟩ := hsome read hread
      obtain ⟨hlexeme, rfl⟩ := getElem?_of_drop hopen
      have hnext : cursor + 1 < lexemes.length := hclosed.lt_length hlexeme nofun
      obtain ⟨last, -, hclose, hreaches⟩ := h.complete (.group position :: frames) hnext hinside
      obtain ⟨hlexeme, hrest⟩ := getElem?_of_drop hclose
      have hlast : last + 1 < lexemes.length := hclosed.lt_length hlexeme nofun
      refine ⟨last + 1, hlast, hrest, Reaches.step ?_⟩
      rw [step_openGroup hopen hdepth]
      refine hreaches.trans (Reaches.step ?_)
      rw [step_closeGroup hclose]
      exact .refl _
  fail := by
    intro place cursor fault frames hcursor hread
    have hhead := List.drop_eq_getElem_cons hcursor
    generalize lexemes[cursor] = lexeme at hhead
    obtain ⟨symbol, position⟩ := lexeme
    rw [hhead] at hread
    cases symbol with
    | literal token => cases hread
    | connective | closeGroup | stop =>
      cases hread
      exact ⟨_, step_missingOperand hhead nofun nofun, Reaches.step (.refl _)⟩
    | openGroup =>
      cases inner with
      | none =>
        cases hread
        exact ⟨_, step_tooDeep hhead (hnone rfl), Reaches.step (.refl _)⟩
      | some read =>
        obtain ⟨hdepth, h⟩ := hsome read rfl
        have hlexeme := (getElem?_of_drop hhead).1
        have hnext : cursor + 1 < lexemes.length := hclosed.lt_length hlexeme nofun
        have hopened : Reaches lexemes ⟨.call .operand place, frames, cursor, depth⟩
            ⟨.call (.chain .or) (.afterOpen position), .group position :: frames, cursor + 1,
              depth + 1⟩ := by
          refine Reaches.step ?_
          rw [step_openGroup hhead hdepth]
          exact .refl _
        rcases error_of_readOperand_group hread with hinside | ⟨e, rest, hinside, hrest⟩
        · exact (h.fail (.group position :: frames) hnext hinside).of_reaches hopened
        · obtain ⟨last, hlast, rfl, hreaches⟩ :=
            h.complete (.group position :: frames) hnext hinside
          have hbehind := List.drop_eq_getElem_cons hlast
          obtain ⟨hclose, rfl⟩ := hrest lexemes[last] (by rw [hbehind]; rfl)
          exact ⟨_, step_unclosed hbehind hclose,
            hopened.trans (hreaches.trans (Reaches.step (.refl _)))⟩

/-- The steps of an operand do what the reader of operands does with the parentheses that are left
to be opened. -/
theorem performs_operand (hclosed : Closed lexemes) {further : Nat}
    (hfurther : depth + further = nestingLimit) :
    Performs lexemes .operand depth (Expr.operand further) := by
  induction further generalizing depth with
  | zero => exact performs_readOperand hclosed (fun _ => Nat.le_of_eq hfurther.symm) nofun
  | succ further ih =>
    refine performs_readOperand hclosed nofun ?_
    rintro read ⟨⟩
    have hoperand : Performs lexemes (.within .and) (depth + 1) _ := @ih (depth + 1) (by omega)
    have hconjunction : Performs lexemes (.within .or) (depth + 1) _ := hoperand.readChain hclosed
    exact ⟨by omega, hconjunction.readChain hclosed⟩

/-- The steps of a phrase do what its reader does. -/
theorem performs_reader (hclosed : Closed lexemes) (hdepth : depth ≤ nestingLimit)
    (phrase : Phrase) :
    Performs lexemes phrase depth (phrase.reader (nestingLimit - depth)) := by
  have hoperand : Performs lexemes (.within .and) depth (Expr.operand (nestingLimit - depth)) :=
    performs_operand hclosed (by omega)
  have hconjunction : Performs lexemes (.within .or) depth
      (Expr.conjunction (nestingLimit - depth)) := hoperand.readChain hclosed
  match phrase with
  | .operand => exact hoperand
  | .chain .and => exact hconjunction
  | .chain .or => exact hconjunction.readChain hclosed

end Agreement

/-- The symbols that may stand behind a phrase. -/
def Phrase.MayPrecede : Phrase → Symbol → Prop
  | .chain .or, symbol => ∀ op, symbol ≠ .connective op
  | .chain .and, symbol => symbol ≠ .connective .and
  | .operand, _ => True

/-- A reader leaves only what may stand behind its phrase. -/
theorem Phrase.mayPrecede_of_reads {phrase : Phrase} {depth : Nat} {place : Place}
    {lexemes rest : List Lexeme} {e : Expr} (h : Reads (phrase.reader depth) place lexemes e rest) :
    ∀ lexeme ∈ rest.head?, phrase.MayPrecede lexeme.symbol := by
  intro lexeme hlexeme
  match phrase with
  | .operand => trivial
  | .chain .and =>
    obtain ⟨_, _, _, _, hfurther, _⟩ := reads_readChain_iff.mp h
    exact hfurther.notAt lexeme hlexeme
  | .chain .or =>
    intro op
    exact Expr.notAt_of_reads_disjunction h op lexeme hlexeme

/-- What becomes of the call of a reader. -/
structure Descends (lexemes : List Lexeme) (phrase : Phrase) (place : Place)
    (cursor depth : Nat) : Prop where
  /-- At every step the cursor is on a lexeme, no more parentheses are open than the limit allows,
  and those that were not open before are the ones of the groups on the stack. -/
  safe (n : Nat) : Safe lexemes depth ((step lexemes)^[n] (start phrase place cursor depth))
  /-- The descent ends. With success it has moved the cursor on to a lexeme that may stand behind
  the phrase, all parentheses are open that were open before and no others, and the phrase is the
  one that the reader takes. Otherwise the fault is the one that the reader reports. -/
  ends : (∃ n e last,
      (step lexemes)^[n] (start phrase place cursor depth) = ⟨.done e, [], last, depth⟩ ∧
        cursor < last ∧
        (∃ lexeme, lexemes[last]? = some lexeme ∧ phrase.MayPrecede lexeme.symbol) ∧
        Reads (phrase.reader (nestingLimit - depth)) place (lexemes.drop cursor) e
          (lexemes.drop last)) ∨
    ∃ n fault,
      ((step lexemes)^[n] (start phrase place cursor depth)).control = .failed fault ∧
        phrase.reader (nestingLimit - depth) place (lexemes.drop cursor) = .error fault

/-- Any reader may be called in front of or at the end of any lexemes, with any number of
parentheses open that the limit allows: the descent is safe, and it ends. -/
theorem descends {body : List Lexeme} {cursor depth : Nat} (hcursor : cursor ≤ body.length)
    (hdepth : depth ≤ 128) (position : Nat) (phrase : Phrase) (place : Place) :
    Descends (body ++ [⟨.stop, position⟩]) phrase place cursor depth := by
  generalize hlexemes : body ++ [⟨.stop, position⟩] = lexemes
  have hclosed : Closed lexemes := ⟨body, position, hlexemes.symm⟩
  have hlt : cursor < lexemes.length := by
    rw [← hlexemes, List.length_append, List.length_singleton]
    omega
  have hperforms := performs_reader hclosed hdepth phrase
  have hsafe : Safe lexemes depth (start phrase place cursor depth) :=
    ⟨hlt, nofun, hdepth, rfl⟩
  refine ⟨hsafe.iterate hclosed, ?_⟩
  rcases hread : phrase.reader (nestingLimit - depth) place (lexemes.drop cursor) with
    fault | ⟨e, rest, hshorter⟩
  · obtain ⟨s, hfault, n, rfl⟩ := hperforms.fail [] hlt hread
    exact Or.inr ⟨n, fault, hfault, rfl⟩
  · obtain ⟨last, hlast, rfl, n, hn⟩ := hperforms.complete [] hlt ⟨hshorter, hread⟩
    have hmoved : cursor < last := by
      rw [List.length_drop, List.length_drop] at hshorter
      omega
    have hbehind := Phrase.mayPrecede_of_reads ⟨hshorter, hread⟩ lexemes[last]
      (by rw [List.drop_eq_getElem_cons hlast]; rfl)
    exact Or.inl ⟨n, e, last, hn, hmoved, ⟨_, List.getElem?_eq_getElem hlast, hbehind⟩, hshorter,
      hread⟩

/-- One parenthesis may still be opened behind `a&`, and one more is too deep. -/
theorem descends_last_parenthesis :
    let body : List Lexeme := [⟨.literal "a", 0⟩, ⟨.connective .and, 1⟩, ⟨.openGroup, 2⟩,
      ⟨.openGroup, 3⟩, ⟨.literal "b", 4⟩, ⟨.closeGroup, 5⟩, ⟨.closeGroup, 6⟩]
    2 ≤ body.length ∧ 127 ≤ 128 ∧
      Descends (body ++ [⟨.stop, 7⟩]) .operand (.afterConnective .and 1) 2 127 := by
  intro body
  exact ⟨by decide, by decide, descends (by decide) (by decide) 7 .operand _⟩

end TokenSearch.Descent
