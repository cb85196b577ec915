/-!
# Sensitivity to the variant

A package may depend on which variant it is built for: on the whole identity of the variant or on
one component of it. Each has an environment variable.
-/

namespace BuildHook

inductive Component where
  | platform
  | runtime
  | family
  | flavor
  deriving DecidableEq, Repr

namespace Component

def all : List Component :=
  [.platform, .runtime, .family, .flavor]

def name : Component → String
  | .platform => "platform"
  | .runtime => "runtime"
  | .family => "family"
  | .flavor => "flavor"

def ofName? (name : String) : Option Component :=
  all.find? fun component => component.name = name

def capitals : Component → String
  | .platform => "PLATFORM"
  | .runtime => "RUNTIME"
  | .family => "FAMILY"
  | .flavor => "FLAVOR"

end Component

/-- What a package depends on of the variant that it is built for. -/
inductive Sensitivity where
  /-- The whole identity, or nothing. -/
  | whole (enabled : Bool)
  /-- One component of the identity. -/
  | component (part : Component)
  deriving DecidableEq, Repr

namespace Sensitivity

/-- The environment variable with the identity of the variant. -/
def variantVariable : String := "BUILDSYS_VARIANT"

def envNames : Option Sensitivity → List String
  | none | some (.whole false) => []
  | some (.whole true) => [variantVariable]
  | some (.component part) => [variantVariable ++ "_" ++ part.capitals]

end Sensitivity

end BuildHook
