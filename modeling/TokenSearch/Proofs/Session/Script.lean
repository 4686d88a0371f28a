import TokenSearch.Session

/-!
# The script of a session

What a session does is fixed by the texts of its lines: the questions that it asks and the
commands that it carries out, in turn. In a batch session every text that is not blank is a
command. In an interactive one commands and answers take turns, until an answer does not ask to
go on. What stands before a command in the script is the script of the texts before it, and once
a session has stopped, further texts add nothing.
-/

namespace TokenSearch.Session

/-- What a session does in turn: ask a question, or carry out a command and give the reply. -/
inductive Step
  | ask (question : String)
  | command (line : String)
  deriving DecidableEq, Repr

/-- The command that a step carries out. -/
def Step.command? : Step → Option String
  | .ask _ => none
  | .command line => some line

/-- The commands of a script, in order. -/
def commands (steps : List Step) : List String := steps.filterMap Step.command?

@[simp] theorem commands_nil : commands [] = [] := rfl

@[simp] theorem commands_ask (question : String) (steps : List Step) :
    commands (.ask question :: steps) = commands steps := rfl

@[simp] theorem commands_command (line : String) (steps : List Step) :
    commands (.command line :: steps) = line :: commands steps := rfl

@[simp] theorem commands_append (steps further : List Step) :
    commands (steps ++ further) = commands steps ++ commands further :=
  List.filterMap_append

/-- A command of an interactive session, with the answer to the question whether to go on, if the
input has one. -/
structure Turn where
  command : List Char
  answer : Option (List Char)
  deriving DecidableEq, Repr

/-- The texts of an interactive session, commands and answers in turn. -/
def turns : List (List Char) → List Turn
  | [] => []
  | [command] => [⟨command, none⟩]
  | command :: answer :: texts => ⟨command, some answer⟩ :: turns texts

namespace Turn

/-- Whether the answer of a turn asks to go on. -/
def goesOn (turn : Turn) : Bool := turn.answer.any affirms

/-- Whether the answer of a turn ends the session. -/
def refuses (turn : Turn) : Bool := turn.answer.any (!affirms ·)

/-- The steps of a turn. -/
def steps (turn : Turn) : List Step :=
  [.ask prompt, .command (String.ofList turn.command), .ask continuePrompt]

end Turn

/-- The turns that are taken: up to the first one whose answer does not ask to go on. -/
def taken : List Turn → List Turn
  | [] => []
  | turn :: turns => turn :: if turn.goesOn then taken turns else []

/-- The steps of a session over texts, up to the end of the input. -/
def script : Mode → List (List Char) → List Step
  | .batch, texts =>
    (texts.filter (!isBlankLine ·)).map fun text => .command (String.ofList text)
  | .interactive, texts =>
    (taken (turns texts)).flatMap Turn.steps ++
      if (turns texts).all Turn.goesOn then [.ask prompt] else []

/-- Whether a session over texts asks for more at their end. -/
def readsOn : Mode → List (List Char) → Bool
  | .batch, _ => true
  | .interactive, texts => (turns texts).all (!·.refuses)

section Script

variable {command answer : List Char}

theorem script_batch_blank (h : isBlankLine command = true) (texts : List (List Char)) :
    script .batch (command :: texts) = script .batch texts := by
  simp [script, h]

theorem script_batch_command (h : isBlankLine command = false) (texts : List (List Char)) :
    script .batch (command :: texts) =
      .command (String.ofList command) :: script .batch texts := by
  simp [script, h]

theorem script_interactive_nil : script .interactive [] = [.ask prompt] := rfl

theorem script_interactive_singleton (command : List Char) :
    script .interactive [command] = Turn.steps ⟨command, none⟩ := rfl

/-- After an answer that asks to go on, the session begins anew. -/
theorem script_interactive_affirmed (h : affirms answer = true) (texts : List (List Char)) :
    script .interactive (command :: answer :: texts) =
      Turn.steps ⟨command, some answer⟩ ++ script .interactive texts := by
  have hgoes : Turn.goesOn ⟨command, some answer⟩ = true := h
  simp [script, turns, taken, hgoes, List.append_assoc]

/-- No other answer leaves anything to do. -/
theorem script_interactive_refused (h : affirms answer = false) (texts : List (List Char)) :
    script .interactive (command :: answer :: texts) = Turn.steps ⟨command, some answer⟩ := by
  have hgoes : Turn.goesOn ⟨command, some answer⟩ = false := h
  simp [script, turns, taken, hgoes]

theorem readsOn_interactive_cons (command answer : List Char) (texts : List (List Char)) :
    readsOn .interactive (command :: answer :: texts) =
      (affirms answer && readsOn .interactive texts) := by
  simp [readsOn, turns, Turn.refuses]

end Script

/-- A command behind a turn belongs to what follows the turn, unless it is the command of the turn
itself, which only the first question precedes. -/
theorem steps_append_eq_append {turn : Turn} {steps before after : List Step} {line : String}
    (h : turn.steps ++ steps = before ++ .command line :: after) :
    (before = [.ask prompt] ∧ String.ofList turn.command = line) ∨
      ∃ rest, before = turn.steps ++ rest ∧ steps = rest ++ .command line :: after := by
  match before with
  | [] => cases h
  | [step] =>
    cases h
    exact .inl ⟨rfl, rfl⟩
  | [step, next] => cases h
  | step :: next :: last :: rest =>
    cases h
    exact .inr ⟨rest, rfl, rfl⟩

/-- A turn has one command. -/
theorem steps_eq_append {turn : Turn} {before after : List Step} {line : String}
    (h : turn.steps = before ++ .command line :: after) :
    before = [.ask prompt] ∧ String.ofList turn.command = line := by
  rw [← List.append_nil turn.steps] at h
  rcases steps_append_eq_append h with hfirst | ⟨rest, -, hrest⟩
  · exact hfirst
  · simp at hrest

theorem exists_texts_of_script_batch {texts : List (List Char)} {before after : List Step}
    {line : String} (h : script .batch texts = before ++ .command line :: after) :
    ∃ earlier text later, texts = earlier ++ text :: later ∧ String.ofList text = line ∧
      script .batch earlier = before := by
  induction texts generalizing before with
  | nil => exact absurd h (by simp [script])
  | cons text texts ih =>
    cases hblank : isBlankLine text with
    | true =>
      rw [script_batch_blank hblank] at h
      obtain ⟨earlier, found, later, rfl, hline, hbefore⟩ := ih h
      exact ⟨text :: earlier, found, later, rfl, hline, by rw [script_batch_blank hblank, hbefore]⟩
    | false =>
      rw [script_batch_command hblank] at h
      cases before with
      | nil =>
        obtain ⟨hline, -⟩ := List.cons.inj h
        exact ⟨[], text, texts, rfl, Step.command.inj hline, rfl⟩
      | cons step before =>
        obtain ⟨rfl, hrest⟩ := List.cons.inj h
        obtain ⟨earlier, found, later, rfl, hline, hbefore⟩ := ih hrest
        exact ⟨text :: earlier, found, later, rfl, hline,
          by rw [script_batch_command hblank, hbefore]⟩

/-- A command of an interactive script is that of its first turn or, past the whole turn, one of
those behind it. -/
theorem exists_texts_of_script_interactive {line : String} {after : List Step} :
    ∀ {texts : List (List Char)} {before : List Step},
      script .interactive texts = before ++ .command line :: after →
        ∃ earlier text later, texts = earlier ++ text :: later ∧ String.ofList text = line ∧
          script .interactive earlier = before
  | [], before, h => by
    cases before with
    | nil => cases h
    | cons step before => simp [script_interactive_nil] at h
  | [command], before, h => by
    rw [script_interactive_singleton] at h
    obtain ⟨rfl, hline⟩ := steps_eq_append h
    exact ⟨[], command, [], rfl, hline, rfl⟩
  | command :: answer :: texts, before, h => by
    cases haffirms : affirms answer with
    | true =>
      rw [script_interactive_affirmed haffirms] at h
      rcases steps_append_eq_append h with ⟨rfl, hline⟩ | ⟨rest, rfl, hrest⟩
      · exact ⟨[], command, answer :: texts, rfl, hline, rfl⟩
      · obtain ⟨earlier, text, later, rfl, hline, hbefore⟩ :=
          exists_texts_of_script_interactive hrest
        exact ⟨command :: answer :: earlier, text, later, rfl, hline,
          by rw [script_interactive_affirmed haffirms, hbefore]⟩
    | false =>
      rw [script_interactive_refused haffirms] at h
      obtain ⟨rfl, hline⟩ := steps_eq_append h
      exact ⟨[], command, answer :: texts, rfl, hline, rfl⟩

/-- Each command of a script is one of the texts, and what precedes it is the script of the texts
before. -/
theorem exists_texts_of_script {mode : Mode} {texts : List (List Char)} {before after : List Step}
    {line : String} (h : script mode texts = before ++ .command line :: after) :
    ∃ earlier text later, texts = earlier ++ text :: later ∧ String.ofList text = line ∧
      script mode earlier = before := by
  cases mode with
  | batch => exact exists_texts_of_script_batch h
  | interactive => exact exists_texts_of_script_interactive h

/-- Once an answer has stopped an interactive session, further texts add nothing. -/
theorem script_interactive_append (further : List (List Char)) :
    ∀ {texts : List (List Char)}, readsOn .interactive texts = false →
      script .interactive (texts ++ further) = script .interactive texts ∧
        readsOn .interactive (texts ++ further) = false
  | command :: answer :: texts, h => by
    rw [readsOn_interactive_cons] at h
    simp only [List.cons_append, readsOn_interactive_cons]
    cases haffirms : affirms answer with
    | true =>
      rw [haffirms, Bool.true_and] at h
      obtain ⟨hscript, hreads⟩ := script_interactive_append further h
      rw [script_interactive_affirmed haffirms, script_interactive_affirmed haffirms, hscript]
      exact ⟨rfl, hreads⟩
    | false =>
      rw [script_interactive_refused haffirms, script_interactive_refused haffirms]
      exact ⟨rfl, rfl⟩

/-- Once a session has stopped, further texts add nothing. -/
theorem script_append_of_stopped {mode : Mode} {texts : List (List Char)}
    (h : readsOn mode texts = false) (further : List (List Char)) :
    script mode (texts ++ further) = script mode texts ∧
      readsOn mode (texts ++ further) = false := by
  cases mode with
  | batch => cases h
  | interactive => exact script_interactive_append further h

end TokenSearch.Session
