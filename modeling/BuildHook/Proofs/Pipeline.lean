import BuildHook.Proofs.Reading

/-!
# Builds as pipelines

A build prepares an image and then builds it. Lists that a manifest does not declare count as empty
ones, so the preparation is one sequence of stages.
-/

namespace BuildHook

open Run (exec)

namespace PackageRequest

variable (request : PackageRequest)

/-- The external files of a package. -/
def files (manifest : Manifest) : List ExternalFile :=
  manifest.externalFiles.getD []

/-- The spec file of a package. -/
def specPath (manifest : Manifest) : Path :=
  request.project.manifestDir.child (manifest.nameOr request.name ++ ".spec")

/-- Reads both manifests and checks the architecture. -/
def enter : Run (Manifest × Manifest) := do
  let manifest ← Run.watchManifest request.manifestPath
  let variant ← Run.watchManifest request.variantManifestPath
  Run.requireArch variant request.project.arch
  return (manifest, variant)

/-- Signals what a package is sensitive to and fetches its external files. -/
def collect (manifest : Manifest) : Run Unit := do
  Run.watchFeatures manifest.packageFeatures
  Run.watchNewEnvs (Sensitivity.envNames manifest.sensitivity)
  request.lookaside.fetch (files manifest)

/-- Reads the spec file and signals it and the files that it refers to. -/
def watchSpec (specPath : Path) : Run Unit := do
  Run.watchNewFiles [specPath]
  let spec ← Spec.read specPath
  Run.watchNewFiles (spec.sources ++ spec.patches)

/-- The image of a package. -/
def image (manifest variant : Manifest) : Image :=
  Image.ofPackage request
    ((ImageFeatures.negotiate variant.imageFeatures manifest.packageFeatures).getD [])
    (manifest.nameOr request.name)

/-- Signals the sources of a package and sets up its image. -/
def survey (manifest variant : Manifest) : Run Image := do
  request.watchSources (manifest.sourceGroups.getD [])
  Run.requireTexts manifest.packageName.toList
  watchSpec (request.specPath manifest)
  (request.image manifest variant).checked

/-- The stages of a package's build before the first command. -/
def gather : Run (Manifest × Manifest) := do
  let manifests ← request.enter
  request.collect manifests.1
  return manifests

/-- The stages between the external files and the image. -/
def assemble (manifests : Manifest × Manifest) : Run Image := do
  (files manifests.1).forM request.bundle
  request.survey manifests.1 manifests.2

/-- The stages of a package's build before its image is built. -/
def prepare : Run Image :=
  request.gather >>= request.assemble

theorem watchSources_nil : request.watchSources [] = pure ⟨⟩ := by
  funext s
  rfl

/-- The build from the manifests on: the architecture is checked, and the other stages follow. -/
theorem buildWith_eq (manifest variant : Manifest) :
    request.buildWith manifest variant = (do
      Run.requireArch variant request.project.arch
      request.collect manifest
      request.assemble (manifest, variant) >>= Image.build) := by
  simp only [buildWith, collect, assemble, survey, watchSpec, specPath, files, bind_assoc]
  cases manifest.externalFiles <;> cases manifest.sourceGroups <;>
    simp only [Option.getD_none, Option.getD_some, fetchFiles, watchSources_nil, pure_bind,
      bind_assoc] <;> rfl

theorem build_eq : request.build = request.prepare >>= Image.build := by
  simp only [build, prepare, gather, enter, bind_assoc, pure_bind, buildWith_eq]

variable {request} {s s' : Session}

theorem enter_eq_ok {manifests : Manifest × Manifest} :
    exec request.enter s = (.ok manifests, s') ↔
      s.manifest request.manifestPath = .ok manifests.1 ∧
      s.manifest request.variantManifestPath = .ok manifests.2 ∧
      manifests.2.supports request.project.arch = true ∧
      s' = (s.opening request.manifestPath).opening request.variantManifestPath := by
  simp only [enter, Run.exec_bind_eq_ok, Run.exec_watchManifest, Run.exec_requireArch,
    Run.exec_pure, Prod.mk.injEq, Except.ok.injEq]
  constructor
  · rintro ⟨manifest, _, ⟨hmanifest, rfl⟩, variant, _, ⟨hvariant, rfl⟩, _, _, ⟨harch, rfl⟩,
      rfl, rfl⟩
    split at harch
    · next hsupports => exact ⟨hmanifest, hvariant, hsupports, rfl⟩
    · cases harch
  · rintro ⟨hmanifest, hvariant, harch, rfl⟩
    exact ⟨_, _, ⟨hmanifest, rfl⟩, _, _, ⟨hvariant, rfl⟩, _, _, ⟨by rw [if_pos harch], rfl⟩,
      rfl, rfl⟩

theorem entered_of_gather (h : exec request.gather s = (.ok manifests, s')) :
    ∃ entered, exec request.enter s = (.ok manifests, entered) := by
  obtain ⟨others, entered, henter, h⟩ := Run.exec_bind_eq_ok.mp h
  obtain ⟨_, _, _, h⟩ := Run.exec_bind_eq_ok.mp h
  rw [Run.exec_pure, Prod.mk.injEq, Except.ok.injEq] at h
  exact ⟨entered, h.1 ▸ henter⟩

end PackageRequest

namespace VariantRequest

variable (request : VariantRequest)

/-- Reads the manifest and checks the architecture. -/
def enter : Run Manifest := do
  let manifest ← Run.watchManifest request.manifestPath
  Run.requireArch manifest request.project.arch
  return manifest

/-- The image of a variant, if it has packages. -/
def survey (manifest : Manifest) : Run (Option Image) :=
  match manifest.includedPackages with
  | none => return none
  | some packages => some <$> (Image.ofVariant request manifest packages).checked

/-- The stages of a variant's build before its image is built. -/
def prepare : Run (Option Image) := do
  let manifest ← request.enter
  discard (Defaults.generate manifest.defaultsDir request.project.root)
  request.survey manifest

/-- Builds an image if there is one, and warns otherwise. -/
def finish : Option Image → Run Unit
  | none => Run.warn skipped
  | some image => image.build

theorem build_eq : request.build = request.prepare >>= finish := by
  simp only [build, prepare, enter, bind_assoc, pure_bind]
  congr
  funext manifest
  simp only [buildWith, survey]
  cases hpackages : manifest.includedPackages with
  | none => simp only [pure_bind, finish]
  | some packages => simp only [Image.forVariant, hpackages, bind_map_left, finish]

variable {request} {s s' : Session}

theorem enter_eq_ok {manifest : Manifest} :
    exec request.enter s = (.ok manifest, s') ↔
      s.manifest request.manifestPath = .ok manifest ∧
      manifest.supports request.project.arch = true ∧
      s' = s.opening request.manifestPath := by
  simp only [enter, Run.exec_bind_eq_ok, Run.exec_watchManifest, Run.exec_requireArch,
    Run.exec_pure, Prod.mk.injEq, Except.ok.injEq]
  constructor
  · rintro ⟨manifest, _, ⟨hmanifest, rfl⟩, _, _, ⟨harch, rfl⟩, rfl, rfl⟩
    split at harch
    · next hsupports => exact ⟨hmanifest, hsupports, rfl⟩
    · cases harch
  · rintro ⟨hmanifest, harch, rfl⟩
    exact ⟨_, _, ⟨hmanifest, rfl⟩, _, _, ⟨by rw [if_pos harch], rfl⟩, rfl, rfl⟩

end VariantRequest

end BuildHook
