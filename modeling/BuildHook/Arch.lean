import BuildHook.Text.Blank

/-!
# Architectures

The machine architectures that packages and images are built for.
-/

namespace BuildHook

inductive Arch where
  | x86_64
  | aarch64
  deriving DecidableEq, Repr

namespace Arch

def name : Arch → String
  | .x86_64 => "x86_64"
  | .aarch64 => "aarch64"

/-- The architecture that a token names, in any case and with white space around it. Two
architectures have a second name. All names are ASCII text, so only ASCII capitals count as such. -/
def parse (token : String) : Option Arch :=
  match Text.lower (Text.strip token) with
  | "x86_64" | "amd64" => some .x86_64
  | "aarch64" | "arm64" => some .aarch64
  | _ => none

/-- All architectures, sorted by name. -/
def all : List Arch :=
  [.aarch64, .x86_64]

/-- The architectures of a list in the order of `all`, each once. -/
def distinct (arches : List Arch) : List Arch :=
  all.filter arches.contains

end Arch

end BuildHook
