import BuildHook.Proofs.Pipeline
import BuildHook.Proofs.SignalLog

/-!
# Environment variables are signalled once

The settings of a kind of build, the features that a package tracks and its sensitivity each give
names of environment variables. No feature has the variable of a setting, and a variable of the
sensitivity is signalled only where it is new. So no name is signalled twice, however far the build
comes.
-/

namespace BuildHook

open Run (exec)

variable {s s' : Session}

/-! ## Names of variables -/

/-- What the variable of every feature begins with. -/
def ImageFeatures.envStem : List Char :=
  "BUILDSYS_VARIANT_IMAGE_FEATURE_".toList

theorem ImageFeatures.toList_envName (feature : String) :
    (envName feature).toList = envStem ++ feature.toList :=
  String.toList_append

theorem ImageFeatures.envName_injective : Function.Injective envName := by
  intro first second h
  have hlist := congrArg String.toList h
  rw [toList_envName, toList_envName, List.append_right_inj] at hlist
  exact String.toList_inj.mp hlist

/-- The variables of the settings are all different. -/
theorem Setting.nodup_envNames (kind : BuildKind) :
    ((Setting.ofKind kind).map Setting.envName).Nodup := by
  cases kind <;> decide

theorem Setting.not_envStem (setting : Setting) :
    ¬ ImageFeatures.envStem <+: setting.envName.toList := by
  cases setting <;> decide

/-- No feature, whatever its name, has the variable of a setting. -/
theorem Setting.envName_ne (setting : Setting) (feature : String) :
    setting.envName ≠ ImageFeatures.envName feature := by
  intro h
  apply setting.not_envStem
  rw [h, ImageFeatures.toList_envName]
  exact List.prefix_append _ _

theorem Sensitivity.nodup_envNames (sensitivity : Option Sensitivity) :
    (envNames sensitivity).Nodup := by
  rcases sensitivity with _ | (enabled | part)
  · exact List.nodup_nil
  · cases enabled
    · exact List.nodup_nil
    · exact List.nodup_singleton _
  · exact List.nodup_singleton _

/-! ## Stages without variables -/

/-- Stages under this licence signal no environment variables. -/
def Licence.noEnvs : Licence :=
  .ofEvents fun _ e => ∀ name, e ≠ .notice (.signal (.env name))

theorem Licence.Steps.watchedEnvs_eq (h : Licence.noEnvs.Steps s s') :
    s'.watchedEnvs = s.watchedEnvs := by
  have hquiet : ∀ (journal : List Event) (e : Event), Licence.noEnvs.event journal e →
      e.signal?.bind Signal.envName? = none := by
    intro _ e he
    rcases e with ((⟨path⟩ | ⟨name⟩) | ⟨message⟩) | _ | _ | _
    · rfl
    · exact absurd rfl (he name)
    all_goals rfl
  have hjournal := h.filterMap_journal hquiet
  rwa [← List.filterMap_filterMap, ← List.filterMap_filterMap] at hjournal

theorem Licence.noEnvs_of_signal? {e : Event} {journal : List Event}
    (h : e.signal?.bind Signal.envName? = none) : noEnvs.event journal e := by
  rintro name rfl
  cases h

theorem Licence.noEnvs_watchManifest {path : Path} :
    noEnvs.Allows (Run.watchManifest path) s :=
  allows_watchManifest (noEnvs_of_signal? rfl) (noEnvs_of_signal? rfl)

namespace PackageRequest

variable {request : PackageRequest}

theorem noEnvs_enter : Licence.noEnvs.Allows request.enter s := by
  refine Licence.allows_bind Licence.noEnvs_watchManifest fun manifest next _ => ?_
  refine Licence.allows_bind Licence.noEnvs_watchManifest fun variant _ _ => ?_
  exact Licence.allows_bind Licence.allows_requireArch fun _ _ _ => Licence.allows_pure _

theorem noEnvs_fetch (files : List ExternalFile) :
    Licence.noEnvs.Allows (request.lookaside.fetch files) s :=
  Licence.allows_fetch (fun _ _ _ _ _ => Licence.noEnvs_of_signal? rfl)
    (fun _ _ _ => Licence.noEnvs_of_signal? rfl) (fun _ _ => Licence.noEnvs_of_signal? rfl)
    fun _ _ => trivial

theorem noEnvs_assemble (manifests : Manifest × Manifest) :
    Licence.noEnvs.Allows (request.assemble manifests >>= Image.build) s :=
  Licence.allows_bind (Licence.allows_assemble (fun _ _ _ _ => Licence.noEnvs_of_signal? rfl)
    (fun _ _ _ => Licence.noEnvs_of_signal? rfl) fun _ _ => Licence.noEnvs_of_signal? rfl)
    fun _ _ _ => Licence.allows_image trivial (Licence.noEnvs_of_signal? rfl)

/-- A build either ends before it signals variables, or signals those of the features, in the order
of their names, and then those of the sensitivity that are new. -/
theorem envs_of_build (request : PackageRequest) (s : Session) :
    (exec request.build s).2.watchedEnvs = s.watchedEnvs ∨
      ∃ manifest, s.manifest request.manifestPath = .ok manifest ∧
        let known := s.watchedEnvs ++ ImageFeatures.envNames manifest.packageFeatures
        (exec request.build s).2.watchedEnvs =
          known ++ (Sensitivity.envNames manifest.sensitivity).filter (· ∉ known) := by
  rw [build_eq, prepare, gather, bind_assoc, bind_assoc]
  have hquiet : Licence.noEnvs.Allows request.enter s := noEnvs_enter
  rcases henter : exec request.enter s with ⟨result, entered⟩
  have hentered := (hquiet.of_exec henter).watchedEnvs_eq
  cases result with
  | error fault =>
    left
    rw [Run.exec_bind_of_error henter]
    exact hentered
  | ok manifests =>
    obtain ⟨hmanifest, -⟩ := enter_eq_ok.mp henter
    refine .inr ⟨manifests.1, hmanifest, ?_⟩
    simp only [Run.exec_bind_of_ok henter, collect, bind_assoc,
      Run.exec_bind_of_ok (Run.exec_watchFeatures _ _),
      Run.exec_bind_of_ok (Run.exec_watchNewEnvs _ _)]
    -- all that follows the two lists of variables signals files only
    have hrest : ∀ next : Session, Licence.noEnvs.Allows (do
        request.lookaside.fetch (files manifests.1)
        let manifests ← pure manifests
        request.assemble manifests >>= Image.build) next := fun next =>
      Licence.allows_bind (noEnvs_fetch _) fun _ _ _ => noEnvs_assemble _
    rw [(hrest _).watchedEnvs_eq]
    simp only [Session.watchedEnvs_signalling, hentered, List.contains_eq_mem, decide_not]

end PackageRequest

theorem VariantRequest.envs_of_build (request : VariantRequest) (s : Session) :
    (exec request.build s).2.watchedEnvs = s.watchedEnvs := by
  have hquiet : Licence.noEnvs.Allows request.build s := by
    rw [build_eq, prepare, enter]
    refine Licence.allows_bind (Licence.allows_bind (Licence.allows_bind
      Licence.noEnvs_watchManifest fun manifest _ _ =>
        Licence.allows_bind Licence.allows_requireArch fun _ _ _ => Licence.allows_pure _)
      fun manifest _ _ => ?_) fun image _ _ => ?_
    · refine Licence.allows_bind (Licence.allows_discard (Licence.allows_generate
        (fun _ _ => Licence.noEnvs_of_signal? rfl) (fun _ _ _ => Licence.noEnvs_of_signal? rfl)
        fun _ _ => trivial)) fun _ _ _ => ?_
      exact Licence.allows_surveyVariant
    · cases image with
      | none => exact Licence.allows_warn (Licence.noEnvs_of_signal? rfl)
      | some image => exact Licence.allows_image trivial (Licence.noEnvs_of_signal? rfl)
  exact Licence.Steps.watchedEnvs_eq hquiet

/-! ## Whole builds -/

namespace Request

def kind : Request → BuildKind
  | .package _ => .package
  | .variant _ => .variant

/-- A build, before which the settings of its kind may be signalled. -/
def buildAfter (request : Request) (settings : Bool) : Run Unit := do
  if settings then
    Run.watchSettings request.kind
  request.build

/-- Variables that are signalled before a build stay different from those that it signals, if they
are no features'. -/
theorem nodup_envs_of_build (request : Request) (hnodup : s.watchedEnvs.Nodup)
    (hother : ∀ feature, ImageFeatures.envName feature ∉ s.watchedEnvs) :
    (exec request.build s).2.watchedEnvs.Nodup := by
  cases request with
  | variant request =>
    change (exec request.build s).2.watchedEnvs.Nodup
    rw [request.envs_of_build s]
    exact hnodup
  | package request =>
    change (exec request.build s).2.watchedEnvs.Nodup
    rcases request.envs_of_build s with hsame | ⟨manifest, -, henvs⟩
    · rw [hsame]
      exact hnodup
    · have hfeatures : (ImageFeatures.envNames manifest.packageFeatures).Nodup :=
        List.Nodup.map ImageFeatures.envName_injective
          ((Text.pairwise_sortedSet _).imp ne_of_lt)
      have hknown : (s.watchedEnvs ++ ImageFeatures.envNames manifest.packageFeatures).Nodup := by
        rw [List.nodup_append]
        refine ⟨hnodup, hfeatures, ?_⟩
        rintro _ hmem _ hfeature rfl
        obtain ⟨feature, -, rfl⟩ := List.mem_map.mp hfeature
        exact hother feature hmem
      rw [henvs, List.nodup_append]
      refine ⟨hknown, (Sensitivity.nodup_envNames _).filter _, ?_⟩
      rintro _ hmem _ hnew rfl
      have hunseen := (List.mem_filter.mp hnew).2
      simp only [decide_eq_true_eq] at hunseen
      exact hunseen hmem

/-- On a sink without variables, no variable is signalled twice: whether or not the settings are
signalled before the build, and however far the build comes. -/
theorem envs_nodup (request : Request) (settings : Bool) (h : s.watchedEnvs = []) :
    (exec (request.buildAfter settings) s).2.watchedEnvs.Nodup := by
  cases settings with
  | false =>
    exact request.nodup_envs_of_build (h ▸ List.nodup_nil) fun _ => h ▸ List.not_mem_nil
  | true =>
    have hsettings : (s.signalling ((Setting.ofKind request.kind).map
        fun setting => .env setting.envName)).watchedEnvs =
          (Setting.ofKind request.kind).map Setting.envName := by
      have hboth := s.watchedEnvs_signalling ((Setting.ofKind request.kind).map Setting.envName)
      rw [h, List.map_map] at hboth
      exact hboth
    change (exec (Run.watchSettings request.kind >>= fun _ => request.build) s).2.watchedEnvs.Nodup
    rw [Run.exec_bind_of_ok (Run.exec_watchSettings _ s)]
    apply request.nodup_envs_of_build
    · rw [hsettings]
      exact Setting.nodup_envNames _
    · intro feature hmem
      rw [hsettings] at hmem
      obtain ⟨setting, -, heq⟩ := List.mem_map.mp hmem
      exact setting.envName_ne feature heq

-- The package tracks a feature that it names twice, and depends on the whole variant, whose
-- variable is that of a setting.
def repeatingTree : Tree :=
  PackageRequest.sampleTree.put ["r", "p", "Cargo.toml"] (.file (Utf8.ofString
    ("[package.metadata.build-package]\n" ++
      "package-features = ['a', 'a']\nvariant-sensitive = true")))

theorem envs_nodup_sample :
    let s := Session.fresh repeatingTree ["r"]
    let run := exec ((Request.package PackageRequest.sample).buildAfter true) s
    s.watchedEnvs = [] ∧ run.2.watchedEnvs.Nodup ∧
      run.2.watchedEnvs.drop 11 = ["BUILDSYS_LOOKASIDE_CACHE",
        "BUILDSYS_UPSTREAM_SOURCE_FALLBACK", "BUILDSYS_VARIANT_IMAGE_FEATURE_a"] := by
  intro s run
  have hnone : s.watchedEnvs = [] := by decide
  exact ⟨hnone, envs_nodup (.package PackageRequest.sample) true hnone, by decide +kernel⟩

end Request

end BuildHook
