import TokenSearch.Engine
import TokenSearch.Text.Utf8

/-!
# Sessions

A session reads lines of bytes and carries out commands on an engine. A batch session takes
every line that is not blank as a command. An interactive session asks for a command, answers
it, and asks whether to go on. Each line is checked only when it is read, so a line that is not
UTF-8 ends the session after all that stands before it. An output of limited room takes what
fits and then ends the session; the command whose reply does not fit has taken effect.
-/

namespace TokenSearch

namespace Session

/-- How a session is held. -/
inductive Mode
  /-- Ask for a command, answer it, and ask whether to go on. -/
  | interactive
  /-- One command on each line, without questions. -/
  | batch
  deriving DecidableEq, Repr

/-- The reason why a session breaks off. -/
inductive Fault
  | notUtf8
  | outputFull
  deriving DecidableEq, Repr

/-- The wording of a fault. -/
def Fault.message : Fault → String
  | .notUtf8 => "stream did not contain valid UTF-8"
  | .outputFull => "failed to write whole buffer"

/-- The question for a command. -/
def prompt : String := "Enter command:"

/-- The question whether to go on. -/
def continuePrompt : String := "Continue? [Y/N]"

/-- Whether a line holds nothing but blanks. -/
def isBlankLine (line : List Char) : Bool := line.all Text.isBlank

/-- Whether an answer asks to go on. -/
def affirms (answer : List Char) : Bool := Text.trim answer = ['y'] || Text.trim answer = ['Y']

/-- What becomes of a session. -/
structure Result (σ : Type) where
  /-- The number of commands carried out. -/
  outcome : Except Fault Nat
  /-- The bytes written. -/
  output : List UInt8
  engine : Engine σ

/-- Cut bytes into lines, each with the line feed that ends it. -/
def lines : List UInt8 → List (List UInt8)
  | [] => []
  | b :: bs =>
    if b = 10 then [b] :: lines bs
    else match lines bs with
      | [] => [[b]]
      | line :: rest => (b :: line) :: rest

variable {σ : Type}

/-- Write a line and go on with the room that is left. When the line does not fit, what fits of
it is the last output of the session. Without a room there is no limit. -/
def writeLine (room : Option Nat) (text : String) (engine : Engine σ)
    (next : Option Nat → Result σ) : Result σ :=
  let bytes := Text.Utf8.encode (text.push '\n').toList
  match room with
  | none =>
    let rest := next none
    { rest with output := bytes ++ rest.output }
  | some n =>
    if bytes.length ≤ n then
      let rest := next (some (n - bytes.length))
      { rest with output := bytes ++ rest.output }
    else ⟨.error .outputFull, bytes.take n, engine⟩

variable [DocumentStore σ]

/-- Hold a batch session over lines, after a number of commands. -/
def batch (executed : Nat) (room : Option Nat) (engine : Engine σ) : List (List UInt8) → Result σ
  | [] => ⟨.ok executed, [], engine⟩
  | line :: rest =>
    match Text.Utf8.decode? line with
    | none => ⟨.error .notUtf8, [], engine⟩
    | some command =>
      if isBlankLine command then batch executed room engine rest
      else
        let (reply, engine) := engine.execute (String.ofList command)
        writeLine room reply.text engine fun room => batch (executed + 1) room engine rest

/-- Hold an interactive session over lines, after a number of commands. -/
def interactive (executed : Nat) (room : Option Nat) (engine : Engine σ) :
    List (List UInt8) → Result σ
  | [] => writeLine room prompt engine fun _ => ⟨.ok executed, [], engine⟩
  | line :: rest =>
    writeLine room prompt engine fun room =>
      match Text.Utf8.decode? line with
      | none => ⟨.error .notUtf8, [], engine⟩
      | some command =>
        let (reply, engine) := engine.execute (String.ofList command)
        writeLine room reply.text engine fun room =>
          writeLine room continuePrompt engine fun room =>
            match rest with
            | [] => ⟨.ok (executed + 1), [], engine⟩
            | answer :: rest =>
              match Text.Utf8.decode? answer with
              | none => ⟨.error .notUtf8, [], engine⟩
              | some answer =>
                if affirms answer then interactive (executed + 1) room engine rest
                else ⟨.ok (executed + 1), [], engine⟩

/-- Hold a session over bytes, with an output that has room for a number of bytes or no limit. -/
def run (mode : Mode) (room : Option Nat) (engine : Engine σ) (input : List UInt8) : Result σ :=
  match mode with
  | .interactive => interactive 0 room engine (lines input)
  | .batch => batch 0 room engine (lines input)

end Session

end TokenSearch
