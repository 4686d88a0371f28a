import TokenSearch.Launch
import TokenSearch.Session.Progress

/-!
# The program

Holds a session on the standard streams. What is read, written and kept goes through the streams
and the file system here. The session itself is a session in progress of the library, whose engine
carries out the commands, and the steps of a directory store are taken with real files.
-/

namespace TokenSearch.Program

/-- What a file operation of the operating system failed with. -/
def faultOf : IO.Error → FileFault
  | .alreadyExists .. => .alreadyExists
  | .inappropriateType _ 20 _ => .notDirectory
  | .noFileOrDirectory .. => .notFound
  | .invalidArgument _ 36 _ => .nameTooLong
  | error => .other (toString error)

/-- Try a file operation. -/
def attempt (operation : IO Unit) : IO (Except FileFault Unit) :=
  try
    operation
    return .ok ()
  catch error => return .error (faultOf error)

/-- Make a directory and the directories around it. When that fails, making the last one alone
tells what is wrong. -/
def makeDirectories (path : String) : IO (Except FileFault Unit) := do
  if path.isEmpty then return .ok ()
  match Disk.checkPath path with
  | .error fault => return .error fault
  | .ok () =>
    match ← attempt (IO.FS.createDirAll path) with
    | .ok () => return .ok ()
    | .error _ => attempt (IO.FS.createDir path)

/-- Open the store of a configuration. -/
def openStore : StoreConfig → IO (Except StoreError Unit)
  | .filesystem directory => DirectoryStore.prepare makeDirectories directory
  | .memory => return .ok ()

/-- Keep a document as a configuration says. -/
def keep (config : StoreConfig) (document : Document) : IO (Except StoreFault Unit) :=
  match config with
  | .filesystem directory => do
    let name := RecordName.random (← IO.getRandomBytes 16).toList
    DirectoryStore.deposit (fun path text => attempt (IO.FS.writeFile path text)) directory name
      document
  | .memory => return .ok ()

/-- Read the bytes of a line, with the line feed that ends it. -/
partial def readLine (input : IO.FS.Stream) (read : List UInt8) : IO (List UInt8) := do
  match (← input.read 1).toList with
  | [] => pure read.reverse
  | b :: _ => if b = 10 then pure (b :: read).reverse else readLine input (b :: read)

/-- Write lines at once. -/
def writeLines (texts : List String) : IO Unit := do
  let output ← IO.getStdout
  texts.forM output.putStrLn
  output.flush

/-- Hold a session in progress until it has ended or the input has. -/
partial def hold (config : StoreConfig) (mode : Session.Mode) (session : Session.Progress Relay) :
    IO (Except Session.Fault Nat) := do
  if session.hasEnded then return session.outcome
  let line ← readLine (← IO.getStdin) []
  if line.isEmpty then return session.outcome
  let (texts, session) ← session.relay (keep config) mode line
  writeLines texts
  hold config mode session

/-- Hold a session as the arguments and the environment say. -/
def launch (arguments : List String) : IO Launch.Ending := do
  let environment ← IO.getEnv Launch.directoryVariable
  match CommandLine.sessionSettings arguments environment with
  | .error fault => return .ofUsageFault fault
  | .ok settings =>
    match ← openStore settings.store with
    | .error error => return .ofStoreError error
    | .ok () =>
      writeLines (Session.questions settings.mode)
      let outcome ← hold settings.store settings.mode { engine := { store := {} } }
      return .ofSession outcome

/-- Report how the launch has ended. -/
def run (arguments : List String) : IO UInt32 := do
  let ending ← launch arguments
  match ending.report with
  | some report => IO.eprint report
  | none => pure ()
  return ending.exitCode.toUInt32

end TokenSearch.Program

/-- The program takes its arguments from the command line. -/
def main (arguments : List String) : IO UInt32 := TokenSearch.Program.run arguments
