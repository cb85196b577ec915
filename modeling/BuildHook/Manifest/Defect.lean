import BuildHook.Sensitivity
import BuildHook.Toml.Display
import BuildHook.Toml.Refusal

/-!
# Defects of a manifest

Why the settings in a manifest cannot be taken, and the text in which a message says so.
-/

namespace BuildHook.Manifest

inductive Defect where
  /-- What stands on the way to a section, or is the section, is no table. -/
  | section (place : Toml.Key)
  /-- A setting is no array of strings. -/
  | strings (name : String)
  /-- A value names no kind of sensitivity. -/
  | sensitivity (value : Toml.Value)
  /-- A value that has to be gone through has no parts. -/
  | scalar (value : Toml.Value)
  /-- An external file is no table. -/
  | fileEntry
  /-- An external file lacks a setting. -/
  | fileLacks (name : String)
  /-- A setting of an external file is no string. -/
  | fileText (name : String) (value : Toml.Value)
  /-- A kind of modules is not known. -/
  | moduleKind (value : Toml.Value)
  /-- A token names no architecture. -/
  | arch (token : String)
  /-- A value cannot be the end of a path. -/
  | path (value : Toml.Value)
  /-- The image features are no table. -/
  | features
  /-- A feature is not switched by `true` or `false`. -/
  | feature (name : String)
  deriving Repr

/-- A message that ends by showing a value. One that cannot be shown leaves nothing but the reason
for that. -/
def Defect.showing (text : String) (value : Toml.Value) : String :=
  if value.isOverlong then Toml.DigitFault.write.message else text ++ value.shown

def Defect.message : Defect → String
  | .section place => "'" ++ String.intercalate "." place ++ "' must be a table"
  | .strings name => "'" ++ name ++ "' must be a list of strings"
  | .sensitivity value =>
    showing ("'variant-sensitive' must be a boolean or one of " ++
      Toml.commaSeparated (Component.all.map Component.name) ++ ", got ") value
  | .scalar value => "'" ++ value.kindName ++ "' object is not iterable"
  | .fileEntry => "'external-files' entries must be tables"
  | .fileLacks name => "external file is missing " ++ Text.quoted name
  | .fileText name value => showing ("external file '" ++ name ++ "' must be a string, got ") value
  | .moduleKind value => showing "unknown bundle module in " value
  | .arch token => "Unknown architecture: '" ++ token ++ "'"
  | .path value =>
    "unsupported operand type(s) for /: 'PosixPath' and '" ++ value.kindName ++ "'"
  | .features => "'image-features' must be a table"
  | .feature name => "image feature '" ++ name ++ "' must be a boolean"

end BuildHook.Manifest
