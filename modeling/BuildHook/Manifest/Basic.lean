import BuildHook.Arch
import BuildHook.ExternalFile
import BuildHook.Features
import BuildHook.Manifest.Defect

/-!
# Manifests

The build settings that a manifest declares. They stand in two sections of the document, one for
packages and one for variants; everything else in it is left alone.
-/

namespace BuildHook

/-- The build settings of a manifest; a setting that is not declared is `none`. -/
structure Manifest where
  path : Path
  packageName : Option Toml.Value
  sensitivity : Option Sensitivity
  packageFeatures : Option (List String)
  sourceGroups : Option (List String)
  externalFiles : Option (List ExternalFile)
  includedPackages : Option (List String)
  imageFormat : Option Toml.Value
  kernelParameters : Option (List String)
  arches : Option (List Arch)
  imageFeatures : Option ImageFeatures
  defaultsDir : Option Path
  deriving Repr

namespace Manifest

open Toml (Table Value Key)

def fileName : String := "Cargo.toml"

def empty (path : Path) : Manifest where
  path := path
  packageName := none
  sensitivity := none
  packageFeatures := none
  sourceGroups := none
  externalFiles := none
  includedPackages := none
  imageFormat := none
  kernelParameters := none
  arches := none
  imageFeatures := none
  defaultsDir := none

def packagePlace : Key := ["package", "metadata", "build-package"]

def variantPlace : Key := ["package", "metadata", "build-variant"]

/-- The table at a place; a missing one is empty. -/
def sectionAt (place : Key) (document : Table) : Except Defect Table :=
  place.foldlM (fun (current : Table) key =>
    match current.get? key with
    | none => .ok []
    | some (.table entries) => .ok entries
    | some _ => .error (.section place)) document

def stringItems? (items : List Value) : Option (List String) :=
  items.mapM fun item =>
    match item with
    | .string text => some text
    | _ => none

def strings (section_ : Table) (name : String) : Except Defect (Option (List String)) :=
  match section_.get? name with
  | none => .ok none
  | some (.array items) =>
    match stringItems? items with
    | some texts => .ok (some texts)
    | none => .error (.strings name)
  | some _ => .error (.strings name)

/-- The parts of a value that can be gone through: the items of an array, the characters of a text
and the keys of a table. -/
def parts (value : Value) : Except Defect (List Value) :=
  match value with
  | .array items => .ok items
  | .string text => .ok (text.toList.map fun c => .string (String.singleton c))
  | .table entries => .ok (entries.map fun entry => .string entry.1)
  | value => .error (.scalar value)

def sensitivityOf : Option Value → Except Defect (Option Sensitivity)
  | none => .ok none
  | some (.boolean enabled) => .ok (some (.whole enabled))
  | some (.string text) =>
    match Component.ofName? text with
    | some part => .ok (some (.component part))
    | none => .error (.sensitivity (.string text))
  | some value => .error (.sensitivity value)

def moduleKind? : Value → Option ModuleKind
  | .string text => ModuleKind.ofName? text
  | _ => none

def modulesOf : Option Value → Except Defect (Option (List ModuleKind))
  | none => .ok none
  | some value => do
    match (← parts value).mapM moduleKind? with
    | some kinds => return some kinds
    | none => throw (.moduleKind value)

def filePath (entries : Table) (name : String) : Except Defect (Option Path) :=
  match entries.get? name with
  | none => .ok none
  | some (.string text) => .ok (some (Path.ofString text))
  | some value => .error (.fileText name value)

def required (entries : Table) (name : String) : Except Defect Value :=
  match entries.get? name with
  | some value => .ok value
  | none => .error (.fileLacks name)

def fileText (name : String) : Value → Except Defect String
  | .string text => .ok text
  | value => .error (.fileText name value)

def externalFile : Value → Except Defect ExternalFile
  | .table entries => do
    let url ← required entries "url"
    let sha512 ← required entries "sha512"
    let url ← fileText "url" url
    let sha512 ← fileText "sha512" sha512
    let modules ← modulesOf (Table.get? entries "bundle-modules")
    let path ← filePath entries "path"
    let bundleRoot ← filePath entries "bundle-root-path"
    let bundleOutput ← filePath entries "bundle-output-path"
    let direct := ((Table.get? entries "force-upstream").map Value.isTruthy).getD false
    return ⟨url, sha512, path, direct, modules, bundleRoot, bundleOutput⟩
  | _ => .error .fileEntry

def externalFilesOf : Option Value → Except Defect (Option (List ExternalFile))
  | none => .ok none
  | some value => do
    return some (← (← parts value).mapM externalFile)

def archOf (token : String) : Except Defect Arch :=
  match Arch.parse token with
  | some arch => .ok arch
  | none => .error (.arch token)

def archesOf : Option (List String) → Except Defect (Option (List Arch))
  | none => .ok none
  | some tokens => do
    return some (Arch.distinct (← tokens.mapM archOf))

/-- The folder of default settings, seen from the folder of the manifest. -/
def defaultsDirOf (folder : Path) : Option Value → Except Defect (Option Path)
  | none => .ok none
  | some (.string text) => .ok (some (folder.child text))
  | some value => .error (.path value)

def featureOf : String × Value → Except Defect (String × Option Bool)
  | (name, .boolean enabled) => .ok (name, some enabled)
  | (name, _) => .error (.feature name)

def imageFeaturesOf : Option Value → Except Defect (Option ImageFeatures)
  | none => .ok none
  | some (.table entries) => do
    return some (← entries.mapM featureOf)
  | some _ => .error .features

/-- The settings that a document declares as the manifest at a path. -/
def ofDocument (path : Path) (document : Table) : Except Defect Manifest := do
  let package ← sectionAt packagePlace document
  let variant ← sectionAt variantPlace document
  -- of several defects the first one in this order is told
  let externalFiles ← externalFilesOf (package.get? "external-files")
  let packageFeatures ← strings package "package-features"
  let arches ← archesOf (← strings variant "supported-arches")
  let defaultsDir ← defaultsDirOf path.parent (variant.get? "defaults-dir")
  let sensitivity ← sensitivityOf (package.get? "variant-sensitive")
  let sourceGroups ← strings package "source-groups"
  let includedPackages ← strings variant "included-packages"
  let kernelParameters ← strings variant "kernel-parameters"
  let imageFeatures ← imageFeaturesOf (variant.get? "image-features")
  return {
    path := path
    packageName := package.get? "package-name"
    sensitivity := sensitivity
    packageFeatures := packageFeatures.map Text.sortedSet
    sourceGroups := sourceGroups
    externalFiles := externalFiles
    includedPackages := includedPackages
    imageFormat := variant.get? "image-format"
    kernelParameters := kernelParameters
    arches := arches
    imageFeatures := imageFeatures
    defaultsDir := defaultsDir }

/-- Whether a variant can be built for an architecture: it declares that one or none at all. -/
def supports (m : Manifest) (arch : Arch) : Bool :=
  match m.arches with
  | none => true
  | some arches => arches.contains arch

/-- The name of the package, unless none or an empty one is declared. -/
def nameOr (m : Manifest) (default : String) : String :=
  match m.packageName with
  | some value => if value.isTruthy then value.text else default
  | none => default

/-- The format of the image; `raw` if none or an empty one is declared. -/
def format (m : Manifest) : Value :=
  match m.imageFormat with
  | some value => if value.isTruthy then value else .string "raw"
  | none => .string "raw"

end Manifest

end BuildHook
