import BuildHook.Build

/-!
# The command line

A command with options for its settings. An option wins over the environment variable of its
setting, and the last of several options wins. Flags of the program itself come before the command.
-/

namespace BuildHook.CommandLine

def isOption (arg : String) : Bool :=
  arg.toList.head? = some '-' && 1 < arg.length

def isLong (arg : String) : Bool :=
  arg.toList.take 2 = ['-', '-']

/-- Whether an argument is a hyphen with letters of given flags. -/
def isFlags (letters : List Char) (arg : String) : Bool :=
  !isLong arg && (arg.toList.drop 1).all letters.contains

/-- Whether an argument asks the program for help or for its version. -/
def asksProgram (arg : String) : Bool :=
  arg = "--help" || arg = "--version" || isFlags ['h', 'V'] arg

def asksCommand (arg : String) : Bool :=
  arg = "--help" || isFlags ['h'] arg

/-- Reads the flags in front of the command: whether one of them asks for a text, and what follows
them. There is nothing to read if one is not known. -/
def readFlags : List String → Option (Bool × List String)
  | [] => some (false, [])
  | arg :: rest =>
    if arg = "--" then some (false, rest)
    else if !isOption arg then some (false, arg :: rest)
    else if asksProgram arg then (readFlags rest).map fun (_, after) => (true, after)
    else none

/-- The options of a command: whether help is asked for, the settings that are given in order, and
the arguments that are no options. -/
structure Options where
  help : Bool
  given : List (Setting × String)
  extra : List String

def settingOf? (kind : BuildKind) (name : String) : Option Setting :=
  (Setting.ofKind kind).find? fun setting => setting.option = name

/-- Reads the options of a command. An option takes its value from behind an equals sign or else
from the next argument, whatever that is. -/
def readOptions (kind : BuildKind) : List String → Option Options
  | [] => some ⟨false, [], []⟩
  | arg :: rest =>
    if arg = "--" then some ⟨false, [], rest⟩
    else if !isOption arg then
      (readOptions kind rest).map fun o => { o with extra := arg :: o.extra }
    else
      let (name, value?) := Text.cut '=' arg.toList
      match settingOf? kind (String.ofList name), value?, rest with
      | some setting, some value, rest =>
        (readOptions kind rest).map fun o =>
          { o with given := (setting, String.ofList value) :: o.given }
      | some setting, none, value :: rest =>
        (readOptions kind rest).map fun o => { o with given := (setting, value) :: o.given }
      | some _, none, [] => none
      | none, _, rest =>
        if asksCommand arg then (readOptions kind rest).map fun o => { o with help := true }
        else none

def kindOf? (command : String) : Option BuildKind :=
  if command = "build-package" then some .package
  else if command = "build-variant" then some .variant
  else none

/-- What a command line asks for: to stop with an exit code, or to build. -/
inductive Invocation where
  | stop (code : Nat)
  | build (kind : BuildKind) (values : Values)

/-- The exit code of a command line that cannot be understood. -/
def usageCode : Nat := 2

/-- The values of settings, from options and then from the environment, where an empty variable
counts as missing. -/
def valuesOf (given : List (Setting × String)) (environment : String → Option String) : Values :=
  fun setting =>
    match given.reverse.find? fun entry => entry.1 = setting with
    | some (_, value) => some value
    | none =>
      match environment setting.envName with
      | none | some "" => none
      | some value => some value

def ofOptions (kind : BuildKind) (args : List String) (environment : String → Option String) :
    Invocation :=
  match readOptions kind args with
  | none => .stop usageCode
  | some options =>
    if options.help then .stop 0
    else if !options.extra.isEmpty then .stop usageCode
    else .build kind (valuesOf options.given environment)

/-- Reads arguments that no command begins: behind two hyphens there may still be flags. -/
def ofFlags (args : List String) : Invocation :=
  match readFlags args with
  | some (true, _) => .stop 0
  | _ => .stop usageCode

def read (args : List String) (environment : String → Option String) : Invocation :=
  match readFlags args with
  | none => .stop usageCode
  | some (true, _) => .stop 0
  | some (false, []) => .stop usageCode
  | some (false, command :: rest) =>
    match kindOf? command with
    | some kind => ofOptions kind rest environment
    | none => ofFlags (command :: rest)

/-- Builds from the values of settings. All environment variables of the build are signalled before
anything can fail. -/
def build (kind : BuildKind) (values : Values) : Run Unit := do
  Run.watchSettings kind
  let request ← Run.orFail id (Request.ofValues kind values)
  request.build

/-- How a command line ends: its exit code, and the fault of the build if it failed. -/
structure Ending where
  code : Nat
  fault : Option Fault

def Ending.errors (ending : Ending) : String :=
  match ending.fault with
  | none => ""
  | some fault =>
    if fault.isReported then
      String.ofList (Text.dropControls ("error: " ++ fault.message).toList) ++ "\n"
    else ""

def run (args : List String) (environment : String → Option String) : StateM Session Ending :=
  match read args environment with
  | .stop code => pure ⟨code, none⟩
  | .build kind values => do
    match ← (build kind values).run with
    | .ok () => pure ⟨0, none⟩
    | .error fault => pure ⟨1, some fault⟩

end BuildHook.CommandLine
