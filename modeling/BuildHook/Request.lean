import BuildHook.Arch
import BuildHook.Fault
import BuildHook.Path

/-!
# Build requests

What is to be built, made from the values of the settings. A setting counts as missing if it is
empty.
-/

namespace BuildHook

structure Project where
  arch : Arch
  root : Path
  manifestDir : Path
  sdkImage : String
  versionBuild : String
  versionFull : String
  timestamp : Option String
  deriving DecidableEq, Repr

structure PackageRequest where
  project : Project
  name : String
  variant : String
  sourcesDir : Path
  packagesDir : Path
  lookasideCache : String
  directFallback : Bool
  deriving DecidableEq, Repr

structure VariantRequest where
  project : Project
  variant : String
  name : String
  prettyName : String
  versionImage : String
  outputDir : Path
  deriving DecidableEq, Repr

inductive Request where
  | package (request : PackageRequest)
  | variant (request : VariantRequest)
  deriving DecidableEq, Repr

def Values.require (values : Values) (setting : Setting) : Except Fault String :=
  match values setting with
  | none | some "" => .error (.missing setting)
  | some value => .ok value

def Values.requirePath (values : Values) (setting : Setting) : Except Fault Path :=
  (values.require setting).map Path.ofString

def Values.optional (values : Values) (setting : Setting) : Option String :=
  match values setting with
  | none | some "" => none
  | some value => some value

def archOfToken (token : String) : Except Fault Arch :=
  match Arch.parse token with
  | some arch => .ok arch
  | none => .error (.unknownArch token)

/-- What every build needs to know, from the values of the settings. -/
def Project.ofValues (values : Values) : Except Fault Project := do
  let arch ← archOfToken (← values.require .arch)
  let root ← values.requirePath .rootDir
  let manifestDir ← values.requirePath .manifestDir
  let sdkImage ← values.require .sdkImage
  let versionBuild ← values.require .versionBuild
  let versionFull ← values.require .versionFull
  return ⟨arch, root, manifestDir, sdkImage, versionBuild, versionFull, values.optional .timestamp⟩

def PackageRequest.ofValues (values : Values) : Except Fault PackageRequest := do
  let project ← Project.ofValues values
  let name ← values.require .packageName
  let variant ← values.require .variant
  let sourcesDir ← values.requirePath .sourcesDir
  let packagesDir ← values.requirePath .packagesDir
  let lookasideCache ← values.require .lookasideCache
  return ⟨project, name, variant, sourcesDir, packagesDir, lookasideCache,
    values .directFallback = some "true"⟩

def VariantRequest.ofValues (values : Values) : Except Fault VariantRequest := do
  let project ← Project.ofValues values
  let variant ← values.require .variant
  let name ← values.require .name
  let prettyName ← values.require .prettyName
  let versionImage ← values.require .versionImage
  let outputDir ← values.requirePath .outputDir
  return ⟨project, variant, name, prettyName, versionImage, outputDir⟩

/-- What is to be built, from the values of the settings. -/
def Request.ofValues (kind : BuildKind) (values : Values) : Except Fault Request :=
  match kind with
  | .package => (PackageRequest.ofValues values).map .package
  | .variant => (VariantRequest.ofValues values).map .variant

end BuildHook
