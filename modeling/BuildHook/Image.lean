import BuildHook.Manifest.Basic
import BuildHook.Request
import BuildHook.Session

/-!
# Building images

Packages and variant images are built by a container build in the root of the project, which tells
it what to build in named arguments and where to put the result.
-/

namespace BuildHook

structure Image where
  root : Path
  /-- The stage of the recipe to build. -/
  target : String
  tag : String
  arguments : List (String × Toml.Value)
  output : Path
  deriving Repr

namespace Image

def recipeName : String := "Dockerfile"

def textArguments (arguments : List (String × String)) : List (String × Toml.Value) :=
  arguments.map fun (name, text) => (name, .string text)

/-- The argument with the time of the build, if one is set. -/
def timestampArgument (project : Project) : List (String × Toml.Value) :=
  textArguments (project.timestamp.map fun timestamp => ("BUILD_TIMESTAMP", timestamp)).toList

def ofPackage (request : PackageRequest) (features : ImageFeatures) (package : String) :
    Image where
  root := request.project.root
  target := "package"
  tag := "vfbuild-pkg-" ++ package ++ "-" ++ request.project.arch.name
  arguments :=
    textArguments
      [ ("PACKAGE", package),
        ("ARCH", request.project.arch.name),
        ("VARIANT", request.variant),
        ("VERSION_BUILD", request.project.versionBuild),
        ("VERSION_FULL", request.project.versionFull),
        ("SDK", request.project.sdkImage),
        ("IMAGE_FEATURES", features.argument) ] ++ timestampArgument request.project
  output := request.packagesDir

def ofVariant (request : VariantRequest) (manifest : Manifest) (packages : List String) :
    Image where
  root := request.project.root
  target := "variant"
  tag := "vfbuild-variant-" ++ request.variant ++ "-" ++ request.project.arch.name
  arguments :=
    textArguments
      [ ("ARCH", request.project.arch.name),
        ("VARIANT", request.variant),
        ("PACKAGES", String.intercalate " " packages),
        ("IMAGE_NAME", request.name),
        ("PRETTY_NAME", request.prettyName) ] ++
      [("IMAGE_FORMAT", manifest.format)] ++
      textArguments
        [ ("KERNEL_PARAMETERS", String.intercalate " " (manifest.kernelParameters.getD [])),
          ("VERSION_IMAGE", request.versionImage),
          ("VERSION_BUILD", request.project.versionBuild),
          ("SDK", request.project.sdkImage),
          ("IMAGE_FEATURES", (manifest.imageFeatures.getD []).argument) ] ++
      timestampArgument request.project
  output := request.outputDir

/-- The build itself if the root of the project holds a recipe. -/
def checked (image : Image) : Run Image := do
  let s ← get
  let recipe := image.root.child recipeName
  if Files.isFile s.tree s.current recipe then return image
  else throw (Run.notFound s recipe (.image (.noRecipe image.root)))

/-- The build of a package, if there is a recipe. -/
def forPackage (request : PackageRequest) (features : ImageFeatures) (package : String) :
    Run Image :=
  (ofPackage request features package).checked

/-- The build of a variant, if it has packages and there is a recipe. -/
def forVariant (request : VariantRequest) (manifest : Manifest) : Run Image :=
  match manifest.includedPackages with
  | none => throw (.image (.noPackages manifest.path))
  | some packages => (ofVariant request manifest packages).checked

def argv (image : Image) : List String :=
  ["docker", "build", ".", "--network", "none", "--target", image.target, "--tag", image.tag,
    "--output", "type=local,dest=" ++ image.output.text] ++
    image.arguments.flatMap fun (name, value) => ["--build-arg", name ++ "=" ++ value.text]

def build (image : Image) : Run Unit := do
  Run.makeFolders (fun fault => .attempt (.noOutput image.output fault)) image.output
  Run.requireTexts (image.arguments.map fun argument => argument.2)
  discard (Run.command (fun cause => .attempt (.command cause)) image.argv (some image.root.text))

end Image

end BuildHook
