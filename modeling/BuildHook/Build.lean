import BuildHook.Bundle
import BuildHook.Defaults
import BuildHook.Image
import BuildHook.Lookaside
import BuildHook.Manifest.File
import BuildHook.SourceGroup
import BuildHook.Spec

/-!
# Builds

The steps of a build in order. Everything that a build reads is signalled before it is read.
-/

namespace BuildHook

namespace Run

/-- Signals all environment variables that a kind of build reads. -/
def watchSettings (kind : BuildKind) : Run Unit :=
  (Setting.ofKind kind).forM fun setting => watchEnv setting.envName

def watchManifest (path : Path) : Run Manifest := do
  watchFile path
  Manifest.read path

/-- Fails unless the variant of a manifest can be built for an architecture. -/
def requireArch (manifest : Manifest) (arch : Arch) : Run Unit :=
  match manifest.arches with
  | none => pure ()
  | some supported =>
    if supported.contains arch then pure () else throw (.unsupportedArch arch supported)

/-- Signals the environment variables of the features that a package tracks. -/
def watchFeatures (tracked : Option (List String)) : Run Unit :=
  (ImageFeatures.envNames tracked).forM watchEnv

end Run

namespace PackageRequest

/-- Where and how the external files of a package are fetched. -/
def lookaside (request : PackageRequest) : Lookaside where
  version := request.project.versionFull
  base := request.lookasideCache
  fallback := request.directFallback
  folder := request.project.manifestDir

def manifestPath (request : PackageRequest) : Path :=
  request.project.manifestDir.child Manifest.fileName

/-- The manifest of the variant that the package is built for. -/
def variantManifestPath (request : PackageRequest) : Path :=
  ((request.project.root.child "variants").child request.variant).child Manifest.fileName

/-- Bundles the modules of an external file, once for each time they are declared. -/
def bundle (request : PackageRequest) (f : ExternalFile) : Run Unit :=
  (f.modules.getD []).forM fun
    | .go => Bundle.run request.project.root request.project.manifestDir f request.project.sdkImage

/-- Fetches the external files of a package and then bundles their modules. -/
def fetchFiles (request : PackageRequest) (files : List ExternalFile) : Run Unit := do
  request.lookaside.fetch files
  files.forM request.bundle

/-- Signals the files of the source groups that a package is built from. -/
def watchSources (request : PackageRequest) (groups : List String) : Run Unit := do
  let s ← get
  let files ← Run.orFail (fun group => Run.notFound s group (.sourceGroup group))
    (SourceGroup.crawl s.tree s.current SourceGroup.defaultPatterns
      (groups.map request.sourcesDir.child))
  Run.watchNewFiles files

/-- Builds a package, given its manifest and that of the variant. -/
def buildWith (request : PackageRequest) (manifest variant : Manifest) : Run Unit := do
  Run.requireArch variant request.project.arch
  Run.watchFeatures manifest.packageFeatures
  Run.watchNewEnvs (Sensitivity.envNames manifest.sensitivity)
  if let some files := manifest.externalFiles then
    request.fetchFiles files
  if let some groups := manifest.sourceGroups then
    request.watchSources groups
  Run.requireTexts manifest.packageName.toList
  let package := manifest.nameOr request.name
  let specPath := request.project.manifestDir.child (package ++ ".spec")
  Run.watchNewFiles [specPath]
  let spec ← Spec.read specPath
  Run.watchNewFiles (spec.sources ++ spec.patches)
  let features := ImageFeatures.negotiate variant.imageFeatures manifest.packageFeatures
  let image ← Image.forPackage request (features.getD []) package
  image.build

def build (request : PackageRequest) : Run Unit := do
  let manifest ← Run.watchManifest request.manifestPath
  let variant ← Run.watchManifest request.variantManifestPath
  request.buildWith manifest variant

end PackageRequest

namespace VariantRequest

def manifestPath (request : VariantRequest) : Path :=
  request.project.manifestDir.child Manifest.fileName

def skipped : String := "No included packages in manifest. Skipping variant build."

/-- Builds a variant, given its manifest: its default settings always, and its image if it has
packages. -/
def buildWith (request : VariantRequest) (manifest : Manifest) : Run Unit := do
  Run.requireArch manifest request.project.arch
  discard (Defaults.generate manifest.defaultsDir request.project.root)
  match manifest.includedPackages with
  | none => Run.warn skipped
  | some _ =>
    let image ← Image.forVariant request manifest
    image.build

def build (request : VariantRequest) : Run Unit := do
  let manifest ← Run.watchManifest request.manifestPath
  request.buildWith manifest

end VariantRequest

def Request.build : Request → Run Unit
  | .package request => request.build
  | .variant request => request.build

end BuildHook
