import BuildHook.Files.Walk
import BuildHook.Text.Quoted

/-!
# Refused file operations

Why the operating system refuses an operation, and the text in which it says so.
-/

namespace BuildHook.Files

def Obstacle.number : Obstacle → Nat
  | .absent => 2
  | .busy => 16
  | .occupied => 17
  | .notFolder => 20
  | .folder => 21
  | .tooLong => 36
  | .endless => 40

def Obstacle.text : Obstacle → String
  | .absent => "No such file or directory"
  | .busy => "Device or resource busy"
  | .occupied => "File exists"
  | .notFolder => "Not a directory"
  | .folder => "Is a directory"
  | .tooLong => "File name too long"
  | .endless => "Too many levels of symbolic links"

inductive Fault where
  /-- An obstacle on the way to a path, or to one of two. -/
  | refused (obstacle : Obstacle) (path : String) (second : Option String)
  /-- A path holds a zero character. -/
  | zero
  /-- A link leads back to itself. -/
  | cycle (path : String)
  deriving DecidableEq, Repr

def Fault.message : Fault → String
  | .refused obstacle path second =>
    "[Errno " ++ toString obstacle.number ++ "] " ++ obstacle.text ++ ": " ++ Text.quoted path ++
      match second with
      | some other => " -> " ++ Text.quoted other
      | none => ""
  | .zero => "embedded null byte"
  | .cycle path => "Symlink loop from " ++ Text.quoted path

/-- Whether the operating system has refused the operation, and not the check of the path before. -/
def Fault.isRefusal : Fault → Bool
  | .refused _ _ _ => true
  | _ => false

def refusal (p : Path) (obstacle : Obstacle) : Fault :=
  .refused obstacle p.text none

/-- The fault of an operation on a path that is barred, which may be told together with another. -/
def barrier (p : Path) (second : Option Path) : Fault :=
  if p.hasZero || second.any Path.hasZero then .zero
  else .refused .tooLong p.text (second.map Path.text)

end BuildHook.Files
