import TokenSearch.Session
import TokenSearch.Store.Config

/-!
# Command lines

Options begin with two dashes. A flag stands for itself; other options take a value, either
behind an equals sign or as the next argument, which may then begin with no dash. Each option
may be given once, and there are no other arguments. Arguments are taken from left to right, and
the first one that cannot be taken, or that asks for help, decides. Where no directory is given,
the environment may name one.
-/

namespace TokenSearch.CommandLine

/-- What the value of an option has to be. -/
inductive ValueForm
  | text
  | port
  deriving DecidableEq, Repr

/-- The port that a text stands for. -/
def port? (text : String) : Option Nat := do
  let n ← Text.Decimal.signed? text.toList
  if 0 ≤ n ∧ n ≤ 65535 then some n.toNat else none

/-- Whether a text has a form. -/
def ValueForm.admits (form : ValueForm) (text : String) : Bool :=
  match form with
  | .text => true
  | .port => (port? text).isSome

/-- The options that a program knows. -/
structure Options where
  flags : List String
  /-- The options that take a value, with what it has to be. -/
  settings : List (String × ValueForm)
  deriving DecidableEq, Repr

/-- The options that have been given. -/
structure Given where
  flags : List String := []
  settings : List (String × String) := []
  deriving DecidableEq, Repr

/-- The reason why arguments are not taken. -/
inductive UsageFault
  | help
  | unknownArgument (argument : String)
  | repeatedOption (name : String)
  | missingValue (name : String)
  | unexpectedValue (name : String)
  | invalidValue (name value : String)
  deriving DecidableEq, Repr

/-- Whether the next argument can be the value of an option. -/
def isValue (argument : String) : Bool :=
  argument = "-" || argument.toList.head? ≠ some '-'

namespace Given

/-- Take a flag. -/
def addFlag (given : Given) (name : String) : Except UsageFault Given :=
  if given.flags.contains name then .error (.repeatedOption name)
  else .ok { given with flags := name :: given.flags }

/-- Take an option with its value. -/
def addSetting (given : Given) (name : String) (form : ValueForm) (value : String) :
    Except UsageFault Given :=
  if given.settings.any (·.1 = name) then .error (.repeatedOption name)
  else if form.admits value then .ok { given with settings := (name, value) :: given.settings }
  else .error (.invalidValue name value)

/-- The value of an option. -/
def setting? (given : Given) (name : String) : Option String := given.settings.lookup name

end Given

/-- The name of an option, and the value behind its equals sign. -/
def splitOption (argument : String) : Option (String × Option String) :=
  match argument.toList with
  | '-' :: '-' :: cs =>
    let name := cs.takeWhile (· ≠ '=')
    let value := if cs.contains '=' then some (String.ofList (cs.drop (name.length + 1))) else none
    some (String.ofList name, value)
  | _ => none

/-- Read arguments behind those that gave the options `given`. -/
def readFrom (options : Options) (given : Given) : List String → Except UsageFault Given
  | [] => .ok given
  | "--" :: [] => .ok given
  | "--" :: argument :: _ => .error (.unknownArgument argument)
  | argument :: rest =>
    match splitOption argument with
    | none =>
      .error (if "-h".toList.isPrefixOf argument.toList then .help else .unknownArgument argument)
    | some (name, attached) =>
      if options.flags.contains name then
        match attached with
        | some _ => .error (.unexpectedValue name)
        | none =>
          match given.addFlag name with
          | .ok given => readFrom options given rest
          | .error fault => .error fault
      else match options.settings.lookup name with
        | some form =>
          match attached, rest with
          | some value, rest =>
            match given.addSetting name form value with
            | .ok given => readFrom options given rest
            | .error fault => .error fault
          | none, value :: rest =>
            if isValue value then
              match given.addSetting name form value with
              | .ok given => readFrom options given rest
              | .error fault => .error fault
            else .error (.missingValue name)
          | none, [] => .error (.missingValue name)
        | none =>
          .error
            (if name ≠ "help" then .unknownArgument argument
            else if attached.isSome then .unexpectedValue name
            else .help)

/-- Where documents are to be kept: as the arguments say, else as the environment says, else in
the default directory. -/
def storeConfig (given : Given) (environment : Option String) : StoreConfig :=
  .ofArguments
    ((given.setting? "documents-dir").getD (environment.getD StoreConfig.defaultDirectory))
    (!given.flags.contains "no-persist")

/-- What a session is started with. -/
structure SessionSettings where
  store : StoreConfig
  mode : Session.Mode
  deriving DecidableEq, Repr

/-- Read the arguments of a session. -/
def sessionSettings (arguments : List String) (environment : Option String) :
    Except UsageFault SessionSettings := do
  let given ← readFrom ⟨["no-persist", "batch"], [("documents-dir", .text)]⟩ {} arguments
  pure ⟨storeConfig given environment,
    if given.flags.contains "batch" then .batch else .interactive⟩

/-- What the service is started with. -/
structure ServiceSettings where
  store : StoreConfig
  host : String
  port : Nat
  deriving DecidableEq, Repr

/-- Read the arguments of the service. -/
def serviceSettings (arguments : List String) (environment : Option String) :
    Except UsageFault ServiceSettings := do
  let given ← readFrom
    ⟨["no-persist"], [("documents-dir", .text), ("host", .text), ("port", .port)]⟩ {} arguments
  pure ⟨storeConfig given environment, (given.setting? "host").getD "0.0.0.0",
    ((given.setting? "port").bind port?).getD 8080⟩

end TokenSearch.CommandLine
