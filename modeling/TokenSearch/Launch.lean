import TokenSearch.CommandLine
import TokenSearch.Http.Host

/-!
# Launches

A launch reads its arguments, opens the store, and then holds a session or checks the address
to listen at. Arguments that are not taken end it with code 2 before anything is opened; a
failure ends it with code 1 and a report of what went wrong and what lies behind that.
-/

namespace TokenSearch.Launch

/-- How a launch ends. -/
structure Ending where
  exitCode : Nat := 0
  /-- The report of a failure. -/
  report : Option String := none
  deriving DecidableEq, Repr

namespace Ending

/-- A launch that fails, with what lies behind that. -/
def failure (message : String) (cause : Option String) : Ending where
  exitCode := 1
  report := some ("Error: " ++ message ++ "\n" ++
    match cause with
    | some cause => "\nCaused by:\n    " ++ cause ++ "\n"
    | none => "")

/-- The ending when arguments are not taken. A request for help is no failure. -/
def ofUsageFault : CommandLine.UsageFault → Ending
  | .help => {}
  | _ => { exitCode := 2 }

/-- The ending when the store cannot be opened. -/
def ofStoreError (error : StoreError) : Ending := failure error.message (some error.cause)

/-- The ending after a session. -/
def ofSession : Except Session.Fault Nat → Ending
  | .ok _ => {}
  | .error fault => failure fault.message none

end Ending

/-- What is left when a launch has ended. -/
structure Outcome extends Ending where
  /-- The bytes on the standard output. -/
  output : List UInt8 := []
  disk : Disk

/-- The variable of the environment that may name the directory for records. -/
def directoryVariable : String := "TOKENDEX_DOCUMENTS_DIR"

/-- Hold a session as the arguments say. -/
def session (arguments : List String) (environment : Option String) (input : List UInt8)
    (disk : Disk) : Outcome :=
  match CommandLine.sessionSettings arguments environment with
  | .error fault => { Ending.ofUsageFault fault with disk }
  | .ok settings =>
    match settings.store.openOn disk with
    | (.error error, disk) => { Ending.ofStoreError error with disk }
    | (.ok store, _) =>
      let result := Session.run settings.mode none { store } input
      { Ending.ofSession result.outcome with
        output := result.output, disk := result.engine.store.disk }

/-- Prepare the service as the arguments say, up to the point where it would begin to listen. -/
def service (arguments : List String) (environment : Option String) (disk : Disk) : Outcome :=
  match CommandLine.serviceSettings arguments environment with
  | .error fault => { Ending.ofUsageFault fault with disk }
  | .ok settings =>
    match settings.store.openOn disk with
    | (.error error, disk) => { Ending.ofStoreError error with disk }
    | (.ok _, disk) =>
      if Http.Host.isNumeric settings.host then { disk }
      else { Ending.failure "invalid socket address syntax" none with disk }

end TokenSearch.Launch
