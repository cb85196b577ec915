import BuildHook.Path
import BuildHook.Text.Ansi

/-!
# Signals

A build tells the build around it on which files and environment variables it depends, one line for
each. Warnings go the same way. The recorded signal holds its path or name as it is; the line shows
it without terminal controls.
-/

namespace BuildHook

inductive Signal where
  | file (path : Path)
  | env (name : String)
  deriving DecidableEq, Repr

inductive Notice where
  | signal (signal : Signal)
  | warning (message : String)
  deriving DecidableEq, Repr

namespace Notice

def fileMark : String := "cargo:rerun-if-changed="

def envMark : String := "cargo:rerun-if-env-changed="

def warningMark : String := "cargo:warning="

def line : Notice → String
  | .signal (.file path) => fileMark ++ path.text
  | .signal (.env name) => envMark ++ name
  | .warning message => warningMark ++ message

def written (n : Notice) : String :=
  String.ofList (Text.dropControls n.line.toList) ++ "\n"

def signal? : Notice → Option Signal
  | .signal s => some s
  | .warning _ => none

def after? (mark line : String) : Option String :=
  if mark.toList.isPrefixOf line.toList then
    some (String.ofList (line.toList.drop mark.length))
  else none

def ofLine? (line : String) : Option Notice :=
  match after? fileMark line with
  | some text => some (.signal (.file (Path.ofString text)))
  | none =>
    match after? envMark line with
    | some name => some (.signal (.env name))
    | none => (after? warningMark line).map .warning

end Notice

def Signal.path? : Signal → Option Path
  | .file path => some path
  | .env _ => none

/-- The name of an environment variable that a signal is about. -/
def Signal.envName? : Signal → Option String
  | .file _ => none
  | .env name => some name

end BuildHook
