import BuildHook.Proofs.Containment
import BuildHook.Proofs.StageOrder
import BuildHook.Proofs.WatchedReads

/-!
# What a build leaves unreported

The exposure of a build: the paths, texts and addresses that it takes over from its settings and
manifests. A build that fails reports its fault, unless that is an escape of the exposure. On the
command line a fault that is reported is written as one message; an escape is not.
-/

namespace BuildHook

open Run (exec)
open Exposure

variable {s t : Session} {e : Exposure}

namespace PackageRequest

/-- An external file that the manifest of a package declares. -/
def Declares (request : PackageRequest) (s : Session) (f : ExternalFile) : Prop :=
  ∃ manifest, s.manifest request.manifestPath = .ok manifest ∧ f ∈ files manifest

/-- The spec file that the manifest of a package names. -/
def IsSpec (request : PackageRequest) (s : Session) (p : Path) : Prop :=
  ∃ manifest, s.manifest request.manifestPath = .ok manifest ∧ p = request.specPath manifest

/-- The temporary file of an external file that the manifest of a package declares. -/
def IsTemporary (request : PackageRequest) (s : Session) (p : Path) : Prop :=
  ∃ f name, request.Declares s f ∧ f.localName = .ok name ∧
    p = f.temporary request.project.manifestDir name

/-- The place of an external file that the manifest of a package declares. -/
def IsTarget (request : PackageRequest) (s : Session) (p : Path) : Prop :=
  ∃ f name, request.Declares s f ∧ f.localName = .ok name ∧
    p = f.target request.project.manifestDir name

/-- A source group that the manifest of a package declares. -/
def IsGroup (request : PackageRequest) (s : Session) (p : Path) : Prop :=
  ∃ manifest, s.manifest request.manifestPath = .ok manifest ∧
    ∃ group ∈ manifest.sourceGroups.getD [], p = request.sourcesDir.child group

/-- A command that the manifests of a package ask for: one that bundles modules, whatever its paths
resolve to, or the one that builds the image. -/
def IsCommand (request : PackageRequest) (s : Session) (argv : List String)
    (folder : Option String) : Prop :=
  ∃ manifest, s.manifest request.manifestPath = .ok manifest ∧
    (folder = none ∧ (∃ t current, .ok argv ∈ request.bundling (files manifest) t current) ∨
      folder = some request.project.root.text ∧
        ∃ variant, s.manifest request.variantManifestPath = .ok variant ∧
          argv = (request.image manifest variant).argv)

/-- What the build of a package takes over. -/
def exposure (request : PackageRequest) (s : Session) : Exposure where
  path p :=
    p ∈ [request.manifestPath, request.variantManifestPath, request.packagesDir] ∨
      request.IsSpec s p ∨ request.IsTarget s p ∨ request.IsTemporary s p
  text p := p ∈ [request.manifestPath, request.variantManifestPath]
  spec := request.IsSpec s
  address text := ∃ f, request.Declares s f ∧ f.path = none ∧ f.url = text
  resolved p := p ∈ [request.project.root, request.project.manifestDir]
  temporary := request.IsTemporary s
  sought p := p = request.project.root.child Image.recipeName ∨ request.IsTarget s p ∨
    request.IsGroup s p
  shown value := ∃ manifest, s.manifest request.manifestPath = .ok manifest ∧
    manifest.packageName = some value
  command := request.IsCommand s
  outcome := s.Awaits

variable {request : PackageRequest} {manifest variant : Manifest}

theorem contains_enter : (request.exposure s).Contains request.enter t := by
  refine contains_bind (contains_watchManifest (.inl (by simp)) (by simp [exposure]))
    fun _ _ _ => ?_
  refine contains_bind (contains_watchManifest (.inl (by simp)) (by simp [exposure]))
    fun _ _ _ => ?_
  exact contains_bind contains_requireArch fun _ _ _ => contains_pure _

theorem contains_collect (hmanifest : s.manifest request.manifestPath = .ok manifest) :
    (request.exposure s).Contains (request.collect manifest) t := by
  refine contains_bind (contains_of_ok (Run.exec_watchFeatures _ t))
    fun _ next _ => ?_
  refine contains_bind (contains_of_ok (Run.exec_watchNewEnvs _ next))
    fun _ _ _ => ?_
  refine contains_forM fun f hf _ => ?_
  have hdeclares : request.Declares s f := ⟨manifest, hmanifest, hf⟩
  refine contains_fetchOne (fun hnone => ⟨f, hdeclares, hnone, rfl⟩) (fun name hname => ?_)
    (fun name hname => .inr (.inr (.inr ⟨f, name, hdeclares, hname, rfl⟩)))
    fun name hname => ⟨f, name, hdeclares, hname, rfl⟩
  have htarget : request.IsTarget s (f.target request.project.manifestDir name) :=
    ⟨f, name, hdeclares, hname, rfl⟩
  exact ⟨.inr (.inr (.inl htarget)), .inr (.inl htarget)⟩

-- What bundling one file leaves to come is what came before it.
theorem spent_bundle {f : ExternalFile} : s.Spent (exec (request.bundle f) s).2 :=
  Licence.Steps.spent (l := Licence.noRequests) (Licence.allows_bundle fun _ _ _ _ => rfl)

theorem contains_bundle {f : ExternalFile}
    (hmanifest : s.manifest request.manifestPath = .ok manifest) (hf : f ∈ files manifest)
    (hspent : s.Spent t) : (request.exposure s).Contains (request.bundle f) t := by
  refine contains_forM_while (I := s.Spent) (fun kind hkind t hspent => ?_) hspent
  cases kind
  refine ⟨contains_runBundle (by simp [exposure]) (by simp [exposure])
    (fun hnone => ⟨f, ⟨manifest, hmanifest, hf⟩, hnone, rfl⟩) (fun argv hargv => ?_) hspent, ?_⟩
  · exact ⟨manifest, hmanifest, .inl ⟨rfl, t.tree, t.current,
      hargv ▸ request.mem_bundling hf hkind t.tree t.current⟩⟩
  · intro _ next hnext
    have hsteps : Licence.noRequests.Allows (Bundle.run request.project.root
        request.project.manifestDir f request.project.sdkImage) t :=
      Licence.allows_runBundle fun _ _ _ _ => rfl
    exact hspent.trans (hsteps.of_exec hnext).spent

theorem contains_assemble (hmanifest : s.manifest request.manifestPath = .ok manifest)
    (hspent : s.Spent t) :
    (request.exposure s).Contains (request.assemble (manifest, variant)) t := by
  refine contains_bind (contains_forM_while (I := s.Spent) (fun f hf t hspent =>
    ⟨contains_bundle hmanifest hf hspent, fun _ next hnext => ?_⟩) hspent) fun _ _ _ => ?_
  · have hbundled : t.Spent (Run.exec (request.bundle f) t).2 := spent_bundle
    rw [hnext] at hbundled
    exact hspent.trans hbundled
  have hspec : request.IsSpec s (request.specPath manifest) := ⟨manifest, hmanifest, rfl⟩
  refine contains_bind (contains_watchSources fun group hgroup =>
    .inr (.inr ⟨manifest, hmanifest, group, hgroup, rfl⟩)) fun _ _ _ => ?_
  refine contains_bind (contains_requireTexts fun value hvalue _ =>
    ⟨manifest, hmanifest, Option.mem_toList.mp hvalue⟩) fun _ _ _ => ?_
  exact contains_bind (contains_watchSpec (.inr (.inl hspec)) hspec)
    fun _ _ _ => contains_checked (.inl rfl)

-- All arguments of a package's image are texts.
theorem not_isOverlong_image :
    ∀ argument ∈ (request.image manifest variant).arguments, argument.2.isOverlong = false := by
  intro argument hargument
  rcases List.mem_append.mp hargument with htext | htext
  all_goals
    obtain ⟨_, -, rfl⟩ := List.mem_map.mp htext
    rfl

/-- The build of a package reports every fault but the escapes of its exposure. -/
theorem contains_build (request : PackageRequest) (s : Session) :
    (request.exposure s).Contains request.build s := by
  have hgather : (request.exposure s).Contains request.gather s := by
    refine contains_bind contains_enter fun manifests _ henter => ?_
    exact contains_bind (contains_collect (enter_eq_ok.mp henter).1) fun _ _ _ => contains_pure _
  have hgathered : Licence.noCommands.Allows request.gather s :=
    Licence.noCommands_gather request
  have hprepare : (request.exposure s).Contains request.prepare s := by
    refine contains_bind hgather fun manifests _ hmanifests => ?_
    obtain ⟨_, henter⟩ := entered_of_gather hmanifests
    exact contains_assemble (enter_eq_ok.mp henter).1 (hgathered.of_exec hmanifests).spent
  rw [build_eq]
  refine contains_bind hprepare fun image prepared himage => ?_
  have hprepared : Licence.noImages.Allows request.prepare s :=
    Licence.noImages_preparePackage request
  have hspent := (hprepared.of_exec himage).spent
  obtain ⟨manifests, _, hmanifests, hassemble⟩ := Run.exec_bind_eq_ok.mp himage
  obtain ⟨_, _, -, hsurvey⟩ := Run.exec_bind_eq_ok.mp hassemble
  obtain ⟨_, henter⟩ := entered_of_gather hmanifests
  obtain ⟨hmanifest, hvariant, -⟩ := enter_eq_ok.mp henter
  rw [image_of_survey hsurvey]
  refine contains_image (.inl (by simp [PackageRequest.image, Image.ofPackage]))
    (fun argument hargument hlong => ?_)
    ⟨manifests.1, hmanifest, .inr ⟨rfl, manifests.2, hvariant, rfl⟩⟩ hspent
  rw [not_isOverlong_image argument hargument] at hlong
  cases hlong

end PackageRequest

namespace VariantRequest

/-- The folder of default settings that the manifest of a variant names. -/
def IsFolder (request : VariantRequest) (s : Session) (p : Path) : Prop :=
  ∃ manifest, s.manifest request.manifestPath = .ok manifest ∧ manifest.defaultsDir = some p

/-- A fragment in the folder of default settings. -/
def IsFragment (request : VariantRequest) (s : Session) (p : Path) : Prop :=
  ∃ folder fragments, request.IsFolder s folder ∧ s.fragments folder = .ok fragments ∧ p ∈ fragments

/-- The file that the default settings are written to, or a temporary file in its folder. -/
def IsOutput (request : VariantRequest) (s : Session) (p : Path) : Prop :=
  let output := Defaults.outputOf request.project.root
  p = output ∨ ∃ n, p = (Files.normal s.current output.parent).child (Defaults.temporaryName n)

/-- The command that the manifest of a variant asks for. -/
def IsCommand (request : VariantRequest) (s : Session) (argv : List String)
    (folder : Option String) : Prop :=
  ∃ manifest packages, s.manifest request.manifestPath = .ok manifest ∧
    manifest.includedPackages = some packages ∧ folder = some request.project.root.text ∧
      argv = (Image.ofVariant request manifest packages).argv

/-- What the build of a variant takes over. -/
def exposure (request : VariantRequest) (s : Session) : Exposure where
  path p :=
    p ∈ [request.manifestPath, request.outputDir] ∨
      request.IsFolder s p ∨ request.IsFragment s p ∨ request.IsOutput s p
  text p := p = request.manifestPath ∨ request.IsFragment s p
  spec _ := False
  address _ := False
  resolved _ := False
  temporary _ := False
  sought p := p = request.project.root.child Image.recipeName
  shown value := ∃ manifest, s.manifest request.manifestPath = .ok manifest ∧
    value = manifest.format
  command := request.IsCommand s
  outcome := s.Awaits

variable {request : VariantRequest} {manifest : Manifest}

theorem contains_enter : (request.exposure s).Contains request.enter t := by
  refine contains_bind (contains_watchManifest (.inl (by simp)) (.inl rfl)) fun _ _ _ => ?_
  exact contains_bind contains_requireArch fun _ _ _ => contains_pure _

theorem contains_defaults (hmanifest : s.manifest request.manifestPath = .ok manifest) :
    (request.exposure s).Contains (Defaults.generate manifest.defaultsDir request.project.root)
      (s.opening request.manifestPath) := by
  have hfolder : ∀ folder, manifest.defaultsDir = some folder → request.IsFolder s folder :=
    fun folder h => ⟨manifest, hmanifest, h⟩
  refine contains_generate (fun folder h => .inr (.inl (hfolder folder h)))
    (fun folder fragments h hfragments fragment hmem => ?_) (.inr (.inr (.inr (.inl rfl))))
    fun n => .inr (.inr (.inr (.inr ⟨n, rfl⟩)))
  have hfragment : request.IsFragment s fragment :=
    ⟨folder, fragments, hfolder folder h, hfragments, hmem⟩
  exact ⟨.inr (.inr (.inl hfragment)), .inr hfragment⟩

theorem contains_survey : (request.exposure s).Contains (request.survey manifest) t := by
  unfold survey
  cases manifest.includedPackages with
  | none => exact contains_pure _
  | some packages => exact contains_map _ (contains_checked rfl)

-- The only argument of a variant's image that may be no text is the format.
theorem shown_image {packages : List String}
    (hmanifest : s.manifest request.manifestPath = .ok manifest) :
    ∀ argument ∈ (Image.ofVariant request manifest packages).arguments,
      argument.2.isOverlong = true → (request.exposure s).shown argument.2 := by
  intro argument hargument hlong
  have htext : ∀ texts, argument ∈ Image.textArguments texts →
      (request.exposure s).shown argument.2 := by
    intro texts htexts
    obtain ⟨_, -, rfl⟩ := List.mem_map.mp htexts
    cases hlong
  rcases List.mem_append.mp hargument with hargument | htexts
  · rcases List.mem_append.mp hargument with hargument | htexts
    · rcases List.mem_append.mp hargument with htexts | hformat
      · exact htext _ htexts
      · exact ⟨manifest, hmanifest, congrArg Prod.snd (List.mem_singleton.mp hformat)⟩
    · exact htext _ htexts
  · exact htext _ htexts

/-- The build of a variant reports every fault but the escapes of its exposure. -/
theorem contains_build (request : VariantRequest) (s : Session) :
    (request.exposure s).Contains request.build s := by
  have hprepare : (request.exposure s).Contains request.prepare s := by
    refine contains_bind contains_enter fun manifest _ henter => ?_
    obtain ⟨hmanifest, -, rfl⟩ := enter_eq_ok.mp henter
    exact contains_bind (contains_discard (contains_defaults hmanifest)) fun _ _ _ =>
      contains_survey
  rw [build_eq]
  refine contains_bind hprepare fun image next himage => ?_
  have hprepared : Licence.noCommands.Allows request.prepare s :=
    Licence.noCommands_prepareVariant request
  have hspent := (hprepared.of_exec himage).spent
  obtain ⟨manifest, hmanifest, rfl⟩ := image_of_prepare himage
  cases hpackages : manifest.includedPackages with
  | none => exact contains_of_ok (Run.exec_warn _ next)
  | some packages =>
    exact contains_image (.inl (by simp [Image.ofVariant])) (shown_image hmanifest)
      ⟨manifest, packages, hmanifest, hpackages, rfl, rfl⟩ hspent

end VariantRequest

/-! ## Requests -/

/-- A result that is no fault but one that is reported. -/
def Reports {α : Type} (x : Except Fault α) : Prop :=
  ∀ fault, x = .error fault → fault.isReported = true

namespace Reports

variable {α β : Type} {x : Except Fault α}

theorem pure (a : α) : Reports (Pure.pure a : Except Fault α) :=
  nofun

theorem bind {f : α → Except Fault β} (hx : Reports x) (hf : ∀ a, Reports (f a)) :
    Reports (x >>= f) := by
  intro fault h
  rcases Run.result_bind_eq_error.mp h with hfault | ⟨a, -, hfault⟩
  · exact hx fault hfault
  · exact hf a fault hfault

theorem map {f : α → β} (hx : Reports x) : Reports (x.map f) := by
  intro fault h
  cases x with
  | ok a => cases h
  | error cause => exact Except.error.inj h ▸ hx cause rfl

theorem require (values : Values) (setting : Setting) : Reports (values.require setting) := by
  intro fault h
  unfold Values.require at h
  split at h
  · exact Except.error.inj h ▸ rfl
  · exact Except.error.inj h ▸ rfl
  · cases h

theorem requirePath (values : Values) (setting : Setting) :
    Reports (values.requirePath setting) :=
  (require values setting).map

theorem archOfToken (token : String) : Reports (archOfToken token) := by
  intro fault h
  unfold BuildHook.archOfToken at h
  split at h
  · cases h
  · exact Except.error.inj h ▸ rfl

theorem project (values : Values) : Reports (Project.ofValues values) := by
  refine (require _ _).bind fun _ => (archOfToken _).bind fun _ => ?_
  refine (requirePath _ _).bind fun _ => (requirePath _ _).bind fun _ => ?_
  refine (require _ _).bind fun _ => (require _ _).bind fun _ => ?_
  exact (require _ _).bind fun _ => pure _

theorem request (kind : BuildKind) (values : Values) : Reports (Request.ofValues kind values) := by
  cases kind with
  | package =>
    refine ((project _).bind fun _ => ?_).map
    refine (require _ _).bind fun _ => (require _ _).bind fun _ => ?_
    refine (requirePath _ _).bind fun _ => (requirePath _ _).bind fun _ => ?_
    exact (require _ _).bind fun _ => pure _
  | variant =>
    refine ((project _).bind fun _ => ?_).map
    refine (require _ _).bind fun _ => (require _ _).bind fun _ => ?_
    refine (require _ _).bind fun _ => (require _ _).bind fun _ => ?_
    exact (requirePath _ _).bind fun _ => pure _

end Reports

namespace Request

/-- What a build takes over. -/
def exposure (request : Request) (s : Session) : Exposure :=
  match request with
  | .package request => request.exposure s
  | .variant request => request.exposure s

theorem contains_build (request : Request) (s : Session) :
    (request.exposure s).Contains request.build s := by
  cases request with
  | package request => exact request.contains_build s
  | variant request => exact request.contains_build s

end Request

namespace CommandLine

variable {kind : BuildKind} {values : Values} {fault : Fault}

theorem errors_of_reported {code : Nat} (h : fault.isReported = true) :
    (⟨code, some fault⟩ : Ending).errors =
      String.ofList (Text.dropControls ("error: " ++ fault.message).toList) ++ "\n" := by
  rw [Ending.errors]
  dsimp only
  rw [if_pos h]

theorem errors_of_escape {code : Nat} (h : e.Escape s fault) :
    (⟨code, some fault⟩ : Ending).errors = "" := by
  rw [Ending.errors]
  dsimp only
  rw [h.not_reported]
  rfl

/-- How a build ends on the command line: it succeeds, it fails with one message, or it fails
without one for an escape of its exposure. -/
def Ended (kind : BuildKind) (values : Values) (s : Session) (ending : Ending) (s' : Session) :
    Prop :=
  ending.code = 0 ∧ ending.fault = none ∧ ending.errors = "" ∨
    ∃ fault, ending = ⟨1, some fault⟩ ∧
      (fault.isReported = true ∧
          ending.errors =
            String.ofList (Text.dropControls ("error: " ++ fault.message).toList) ++ "\n" ∨
        fault.isReported = false ∧ ending.errors = "" ∧
          ∃ request, Request.ofValues kind values = .ok request ∧
            (request.exposure (begun s kind)).Escape s' fault)

theorem ended_build (s : Session) :
    Ended kind values s (endingOf (exec (build kind values) s).1)
      (exec (build kind values) s).2 := by
  rw [exec_build]
  cases hrequest : Request.ofValues kind values with
  | error fault =>
    have hreported := Reports.request kind values fault hrequest
    exact .inr ⟨fault, rfl, .inl ⟨hreported, errors_of_reported hreported⟩⟩
  | ok request =>
    dsimp only
    rcases hrun : exec request.build (begun s kind) with ⟨result, last⟩
    cases result with
    | ok _ => exact .inl ⟨rfl, rfl, rfl⟩
    | error fault =>
      refine .inr ⟨fault, rfl, ?_⟩
      rcases request.contains_build (begun s kind) fault last hrun with hreported | hescape
      · exact .inl ⟨hreported, errors_of_reported hreported⟩
      · exact .inr ⟨hescape.not_reported, errors_of_escape hescape, request, hrequest, hescape⟩

end CommandLine

namespace CommandLine

-- The manifest is a single octet that no text holds.
def octetTree : Tree where
  entries := [(["r"], .folder), (["r", "m"], .folder), (["r", "m", "Cargo.toml"], .file [0xFF])]
  distinct := by simp

end CommandLine

end BuildHook
