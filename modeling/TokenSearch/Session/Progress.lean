import TokenSearch.Session

/-!
# Sessions in progress

A session in progress takes one line after another. It says each time what is to be written before
the next line, so its lines can be read and its texts written as they come. Its documents may be
kept by others, who relay to it how that has ended; the commands are carried out by an engine all
the same.
-/

namespace TokenSearch

/-- A store whose documents are kept elsewhere. It passes on how the next call has ended there. -/
structure Relay where
  outcome : Except StoreFault Unit := .ok ()

instance : DocumentStore Relay where
  persist _ relay := (relay.outcome, relay)

namespace Session

/-- What a session waits for. -/
inductive Stage
  | command
  | answer
  /-- The session has ended. It may have broken off. -/
  | ended (fault : Option Fault)
  deriving DecidableEq, Repr

/-- A session between two lines. -/
structure Progress (σ : Type) where
  engine : Engine σ
  /-- The number of commands carried out. -/
  executed : Nat := 0
  stage : Stage := .command

/-- What is written before a command is read. -/
def questions : Mode → List String
  | .interactive => [prompt]
  | .batch => []

namespace Progress

section Feed

variable {σ : Type}

/-- How a session ends when no line follows. -/
def outcome (session : Progress σ) : Except Fault Nat :=
  match session.stage with
  | .ended (some fault) => .error fault
  | _ => .ok session.executed

/-- Whether a session takes no more lines. -/
def hasEnded (session : Progress σ) : Bool :=
  match session.stage with
  | .ended _ => true
  | _ => false

/-- A session with an exchanged store. -/
def withStore {τ : Type} (session : Progress σ) (store : τ) : Progress τ :=
  ⟨⟨session.engine.index, store⟩, session.executed, session.stage⟩

/-- The document that a line has kept. -/
def document? (session : Progress σ) (line : List UInt8) : Option Document :=
  match session.stage, Text.Utf8.decode? line with
  | .command, some command =>
    match Command.parse (String.ofList command) with
    | .ok (.index document) => some document
    | _ => none
  | _, _ => none

variable [DocumentStore σ]

/-- Take a line: what is to be written, and the session after it. -/
def feed (mode : Mode) (session : Progress σ) (line : List UInt8) : List String × Progress σ :=
  match session.stage, Text.Utf8.decode? line with
  | .ended _, _ => ([], session)
  | _, none => ([], { session with stage := .ended (some .notUtf8) })
  | .command, some command =>
    if mode = .batch ∧ isBlankLine command then ([], session)
    else
      let (reply, engine) := session.engine.execute (String.ofList command)
      match mode with
      | .interactive => ([reply.text, continuePrompt], ⟨engine, session.executed + 1, .answer⟩)
      | .batch => ([reply.text], ⟨engine, session.executed + 1, .command⟩)
  | .answer, some answer =>
    if affirms answer then (questions mode, { session with stage := .command })
    else ([], { session with stage := .ended none })

/-- Take lines one after another. -/
def feedAll (mode : Mode) (session : Progress σ) : List (List UInt8) → List String × Progress σ
  | [] => ([], session)
  | line :: rest =>
    let (texts, session) := session.feed mode line
    let (further, session) := feedAll mode session rest
    (texts ++ further, session)

end Feed

section Relay

variable {m : Type → Type} [Monad m]

/-- Take a line whose document is kept elsewhere. -/
def relay (keep : Document → m (Except StoreFault Unit)) (mode : Mode) (session : Progress Relay)
    (line : List UInt8) : m (List String × Progress Relay) := do
  let outcome ← match session.document? line with
    | some document => keep document
    | none => pure (.ok ())
  return (session.withStore (Relay.mk outcome)).feed mode line

/-- Take lines one after another, while their documents are kept elsewhere. -/
def relayAll (keep : Document → m (Except StoreFault Unit)) (mode : Mode)
    (session : Progress Relay) : List (List UInt8) → m (List String × Progress Relay)
  | [] => pure ([], session)
  | line :: rest => do
    let (texts, session) ← session.relay keep mode line
    let (further, session) ← relayAll keep mode session rest
    return (texts ++ further, session)

end Relay

end Progress

end Session

end TokenSearch
