import TokenSearch.Proofs.CommandRun
import TokenSearch.Proofs.Session.Lines
import TokenSearch.Proofs.Session.Play

/-!
# The transcript of a session

With an output that never fails, a session on a text carries out its commands as a plain run of
command lines does, and writes their replies with its questions around them. A batch session has
the lines that are not blank as its commands, an interactive one the first line of each turn
that is taken.
-/

namespace TokenSearch.Session

open Text.Utf8

/-- The bytes of a line of output. -/
def lineBytes (text : String) : List UInt8 := encode (text.push '\n').toList

/-- What an interactive session writes around a reply. -/
def turnBytes (reply : Reply) : List UInt8 :=
  lineBytes prompt ++ lineBytes reply.text ++ lineBytes continuePrompt

variable {σ : Type} [DocumentStore σ]

/-- All that a script writes. -/
def transcript (engine : Engine σ) : List Step → List UInt8
  | [] => []
  | .ask question :: steps => lineBytes question ++ transcript engine steps
  | .command line :: steps =>
    lineBytes (engine.execute line).1.text ++ transcript (engine.execute line).2 steps

/-- Without a limit, a script ends as told, writes its transcript and carries out its commands. -/
theorem play_none (outcome : Except Fault Nat) (engine : Engine σ) (steps : List Step) :
    play outcome none engine steps =
      ⟨outcome, transcript engine steps, (engine.executeAll (commands steps)).2⟩ := by
  induction steps generalizing engine with
  | nil => rfl
  | cons step steps ih =>
    cases step with
    | ask question => simp only [play, writeLine, ih, transcript, lineBytes, commands_ask]
    | command line =>
      simp only [play, writeLine, ih, transcript, lineBytes, commands_command, Engine.executeAll]

/-- A session without a limit. -/
theorem run_none (mode : Mode) (engine : Engine σ) (input : List UInt8) :
    run mode none engine input =
      ⟨ending 0 mode (lines input), transcript engine (scriptOf mode input),
        (engine.executeAll (commands (scriptOf mode input))).2⟩ := by
  rw [run_eq_play, play_none]

theorem transcript_append (engine : Engine σ) (steps further : List Step) :
    transcript engine (steps ++ further) =
      transcript engine steps ++ transcript (engine.executeAll (commands steps)).2 further := by
  induction steps generalizing engine with
  | nil => rfl
  | cons step steps ih =>
    cases step with
    | ask question => simp only [List.cons_append, transcript, ih, commands_ask, List.append_assoc]
    | command line =>
      simp only [List.cons_append, transcript, ih, commands_command, Engine.executeAll,
        List.append_assoc]

/-- Commands alone leave their replies. -/
theorem transcript_map_command (lines : List String) (engine : Engine σ) :
    transcript engine (lines.map .command) =
      (engine.executeAll lines).1.flatMap fun reply => lineBytes reply.text := by
  induction lines generalizing engine with
  | nil => rfl
  | cons line lines ih =>
    simp only [List.map_cons, transcript, ih, Engine.executeAll, List.flatMap_cons]

theorem commands_map_command (lines : List String) : commands (lines.map .command) = lines := by
  induction lines with
  | nil => rfl
  | cons line lines ih => rw [List.map_cons, commands_command, ih]

theorem commands_flatMap_steps (turns : List Turn) :
    commands (turns.flatMap Turn.steps) = turns.map fun turn => String.ofList turn.command := by
  induction turns with
  | nil => rfl
  | cons turn turns ih =>
    rw [List.flatMap_cons, commands_append, ih]
    rfl

/-- Turns leave the replies with the questions around them. -/
theorem transcript_flatMap_steps (turns : List Turn) (engine : Engine σ) :
    transcript engine (turns.flatMap Turn.steps) =
      (engine.executeAll (turns.map fun turn => String.ofList turn.command)).1.flatMap
        turnBytes := by
  induction turns generalizing engine with
  | nil => rfl
  | cons turn turns ih =>
    simp only [List.flatMap_cons, Turn.steps, List.cons_append, List.nil_append, transcript, ih,
      List.map_cons, Engine.executeAll, turnBytes, List.append_assoc]

/-- The commands of a batch session are the texts that are not blank. -/
theorem commands_script_batch (texts : List (List Char)) :
    commands (script .batch texts) = (texts.filter (!isBlankLine ·)).map String.ofList := by
  have hscript : script .batch texts =
      ((texts.filter (!isBlankLine ·)).map String.ofList).map .command := by
    rw [script, List.map_map]
    rfl
  rw [hscript, commands_map_command]

theorem transcript_script_batch (engine : Engine σ) (texts : List (List Char)) :
    transcript engine (script .batch texts) =
      (engine.executeAll ((texts.filter (!isBlankLine ·)).map String.ofList)).1.flatMap
        fun reply => lineBytes reply.text := by
  rw [← transcript_map_command, script, List.map_map]
  rfl

/-- The commands of an interactive session are those of the turns that are taken. -/
theorem commands_script_interactive (texts : List (List Char)) :
    commands (script .interactive texts) =
      (taken (turns texts)).map fun turn => String.ofList turn.command := by
  have hlast : commands (if (turns texts).all Turn.goesOn then [.ask prompt] else []) = [] := by
    split <;> rfl
  rw [script, commands_append, commands_flatMap_steps, hlast, List.append_nil]

theorem transcript_script_interactive (engine : Engine σ) (texts : List (List Char)) :
    transcript engine (script .interactive texts) =
      (engine.executeAll ((taken (turns texts)).map fun turn =>
        String.ofList turn.command)).1.flatMap turnBytes ++
      if (turns texts).all Turn.goesOn then lineBytes prompt else [] := by
  have hlast (engine : Engine σ) :
      transcript engine (if (turns texts).all Turn.goesOn then [.ask prompt] else []) =
        if (turns texts).all Turn.goesOn then lineBytes prompt else [] := by
    split
    · exact List.append_nil _
    · rfl
  rw [script, transcript_append, transcript_flatMap_steps, hlast]

/-- The lines of a text are all read as they are. -/
theorem texts_map_encode (lines : List (List Char)) : texts (lines.map encode) = lines := by
  induction lines with
  | nil => rfl
  | cons line lines ih => rw [List.map_cons, texts_cons_some (decode?_encode line), ih]

theorem isCut_map_encode (lines : List (List Char)) : isCut (lines.map encode) = false := by
  simp [isCut, decode?_encode]

/-- A session on a text comes to its end. -/
theorem run_none_encode (mode : Mode) (engine : Engine σ) (text : List Char) :
    run mode none engine (encode text) =
      let steps := script mode (textLines text)
      ⟨.ok (commands steps).length, transcript engine steps,
        (engine.executeAll (commands steps)).2⟩ := by
  have htexts : texts (lines (encode text)) = textLines text := by
    rw [lines_encode, texts_map_encode]
  have hcut : isCut (lines (encode text)) = false := by rw [lines_encode, isCut_map_encode]
  rw [run_none, ending_ok (by rw [hcut, Bool.and_false]), scriptOf, htexts, Nat.zero_add]

/-- A session on a text with an output that never fails is a run of command lines. In a batch
session these are the lines of the text that are not blank, and the output has their replies. In
an interactive one they are the first lines of the turns that are taken; around each reply stand
the two questions, and once more the first if the input ends where a command is read. The number
of the commands is returned, and they alone change the engine. -/
theorem run_encode (engine : Engine σ) (text : List Char) :
    (run .batch none engine (encode text) =
      let commands := ((textLines text).filter (!isBlankLine ·)).map String.ofList
      let (replies, after) := engine.executeAll commands
      ⟨.ok commands.length, replies.flatMap fun reply => lineBytes reply.text, after⟩) ∧
    run .interactive none engine (encode text) =
      let turns := turns (textLines text)
      let commands := (taken turns).map fun turn => String.ofList turn.command
      let (replies, after) := engine.executeAll commands
      let last := if turns.all Turn.goesOn then lineBytes prompt else []
      ⟨.ok commands.length, replies.flatMap turnBytes ++ last, after⟩ := by
  constructor
  · simp only [run_none_encode, commands_script_batch, transcript_script_batch]
  · simp only [run_none_encode, commands_script_interactive, transcript_script_interactive]

end TokenSearch.Session
