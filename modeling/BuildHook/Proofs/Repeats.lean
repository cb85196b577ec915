import BuildHook.Proofs.Invalidation
import BuildHook.Proofs.SignalLog

/-!
# Files that are signalled twice

A build signals its manifests, its external files and its fragments without a look at what is
signalled already. All other files are signalled only where they are new. So a path is repeated
exactly if it is among the former more than once.
-/

namespace BuildHook

open Run (exec)

variable {s s' : Session} {α β : Type}

/-! ## Paths of a plan -/

/-- A run that signals the files of a plan in order: all of them if it succeeds, and those up to
some point if it fails. -/
def Run.Sends (m : Run α) (plan : List Path) (s : Session) : Prop :=
  ∃ sent, (exec m s).2.watchedFiles = s.watchedFiles ++ sent ∧ sent <+: plan ∧
    ∀ a, (exec m s).1 = .ok a → sent = plan

/-- Stages under this licence signal no files. -/
def Licence.noFiles : Licence :=
  .ofEvents fun _ e => ∀ path, e.signal? ≠ some (.file path)

theorem Licence.Steps.watchedFiles_eq (h : Licence.noFiles.Steps s s') :
    s'.watchedFiles = s.watchedFiles := by
  have hquiet : ∀ (journal : List Event) (e : Event), Licence.noFiles.event journal e →
      e.signal?.bind Signal.path? = none := by
    intro _ e he
    cases hsignal : e.signal? with
    | none => rfl
    | some signal =>
      cases signal with
      | file path => exact absurd hsignal (he path)
      | env name => rfl
  have hjournal := h.filterMap_journal hquiet
  rwa [← List.filterMap_filterMap, ← List.filterMap_filterMap] at hjournal

theorem Licence.noFiles_env (journal : List Event) (name : String) :
    Licence.noFiles.event journal (.notice (.signal (.env name))) := by
  intro path h
  cases h

namespace Run

theorem sends_of_noFiles {m : Run α} (h : Licence.noFiles.Allows m s) : Sends m [] s :=
  ⟨[], by rw [Licence.Steps.watchedFiles_eq h, List.append_nil], List.prefix_rfl, fun _ _ => rfl⟩

theorem sends_watchFile (path : Path) : Sends (watchFile path) [path] s := by
  refine ⟨[path], ?_, List.prefix_rfl, fun _ _ => rfl⟩
  rw [exec_watchFile]
  exact s.watchedFiles_signalling [path]

theorem sends_bind {m : Run α} {f : α → Run β} {first rest : List Path} (hm : Sends m first s)
    (hf : ∀ a next, exec m s = (.ok a, next) → Sends (f a) rest next) :
    Sends (m >>= f) (first ++ rest) s := by
  obtain ⟨sent, hsent, hprefix, hall⟩ := hm
  unfold Sends
  rw [exec_bind]
  generalize hrun : exec m s = run at *
  obtain ⟨result, next⟩ := run
  cases result with
  | error fault => exact ⟨sent, hsent, hprefix.trans (List.prefix_append _ _), nofun⟩
  | ok a =>
    obtain ⟨more, hmore, hprefix', hall'⟩ := hf a next rfl
    have hfirst : sent = first := hall a rfl
    dsimp only at hsent ⊢
    refine ⟨first ++ more, ?_, (List.prefix_append_right_inj _).mpr hprefix', fun b hb => ?_⟩
    · rw [hmore, hsent, hfirst, List.append_assoc]
    · rw [hall' b hb]

theorem sends_bind_left {m : Run α} {f : α → Run β} {plan : List Path} (hm : Sends m plan s)
    (hf : ∀ a next, exec m s = (.ok a, next) → Licence.noFiles.Allows (f a) next) :
    Sends (m >>= f) plan s := by
  have hboth := sends_bind hm fun a next h => sends_of_noFiles (hf a next h)
  rwa [List.append_nil] at hboth

theorem sends_bind_right {m : Run α} {f : α → Run β} {plan : List Path}
    (hm : Licence.noFiles.Allows m s)
    (hf : ∀ a next, exec m s = (.ok a, next) → Sends (f a) plan next) :
    Sends (m >>= f) plan s :=
  sends_bind (sends_of_noFiles hm) hf

theorem sends_map {m : Run α} {plan : List Path} (g : α → β) (hm : Sends m plan s) :
    Sends (g <$> m) plan s :=
  sends_bind_left hm fun _ _ _ => Licence.allows_pure _

theorem sequential_sends : Sequential fun m plan => ∀ s, Sends m plan s where
  pure _ _ := sends_of_noFiles (Licence.allows_pure _)
  bind hm hf s := sends_bind (hm s) fun a next _ => hf a next

theorem sends_watchManifest (path : Path) : Sends (watchManifest path) [path] s := by
  refine sends_bind_left (sends_watchFile path) fun _ next _ => ?_
  exact Licence.allows_of_exec (Manifest.exec_read path next) (.note nofun)

end Run

open Run (Sends sends_bind sends_bind_left sends_bind_right sends_of_noFiles)

namespace Lookaside

variable {a : Lookaside} {f : ExternalFile}

/-- Where an external file is stored, unless no name can be found for it. -/
def target? (a : Lookaside) (f : ExternalFile) : Option Path :=
  match f.localName with
  | .ok name => if name = "" then none else some (f.target a.folder name)
  | .error _ => none

theorem sends_fetchOne : Sends (a.fetchOne f) (a.target? f).toList s := by
  unfold fetchOne target?
  cases hlocal : f.localName with
  | error fault =>
    refine sends_of_noFiles (Licence.allows_bind (Licence.allows_orFail _ _) fun _ _ h => ?_)
    cases h
  | ok name =>
    dsimp only
    refine sends_bind_right (Licence.allows_orFail _ _) fun other _ h => ?_
    obtain rfl : name = other := Except.ok.inj (Run.exec_orFail_eq_ok.mp h).1
    by_cases hname : name = ""
    · simp only [hname, ↓reduceIte]
      refine sends_of_noFiles (Licence.allows_bind (Licence.allows_throw _) fun _ _ h => ?_)
      cases h
    · simp only [hname, ↓reduceIte]
      refine sends_bind_left (Run.sends_watchFile _) fun _ _ _ => ?_
      refine Licence.allows_bind (Licence.allows_isPresent nofun) fun present _ _ => ?_
      split
      · exact Licence.allows_pure _
      · exact Licence.allows_store (fun _ _ => nofun) fun _ _ => trivial

theorem sends_fetch (files : List ExternalFile) :
    Sends (a.fetch files) (files.filterMap a.target?) s := by
  rw [List.filterMap_eq_flatMap_toList]
  exact Run.sequential_sends.forM (fun f => (a.target? f).toList) (fun _ _ _ => sends_fetchOne) s

end Lookaside

theorem Defaults.sends_readFragment (fragment : Path) :
    Sends (Defaults.readFragment fragment) [fragment] s := by
  refine ⟨[fragment], ?_, List.prefix_rfl, fun _ _ => rfl⟩
  rw [Defaults.exec_readFragment, Session.watchedFiles, Session.signals_opening,
    List.filterMap_append]
  rfl

theorem Defaults.sends_readFragments (fragments : List Path) :
    Sends (fragments.mapM Defaults.readFragment) fragments s := by
  have hsends : Sends (fragments.mapM Defaults.readFragment)
      (fragments.flatMap fun fragment => [fragment]) s :=
    Run.sequential_sends.mapM (fun fragment => [fragment])
      (fun fragment _ _ => Defaults.sends_readFragment fragment) s
  rwa [List.flatMap_singleton'] at hsends

/-! ## New paths -/

namespace Licence

/-- Stages under this licence signal a file only if it is new. -/
def newFiles : Licence :=
  .ofEvents fun journal e =>
    ∀ path, e = .notice (.signal (.file path)) → .notice (.signal (.file path)) ∉ journal

/-- The files that are signalled under the licence are new, and different from each other. -/
theorem Steps.files_new (h : newFiles.Steps s s') :
    ∃ fresh, s'.watchedFiles = s.watchedFiles ++ fresh ∧ fresh.Nodup ∧
      ∀ path ∈ fresh, path ∉ s.watchedFiles := by
  induction h with
  | refl => exact ⟨[], by simp, List.nodup_nil, nofun⟩
  | @tail middle last _ step ih =>
    obtain ⟨fresh, hfiles, hnodup, hnew⟩ := ih
    cases step with
    | change _ => exact ⟨fresh, hfiles, hnodup, hnew⟩
    | spend => exact ⟨fresh, hfiles, hnodup, hnew⟩
    | @note e h =>
      by_cases hfile : ∃ path, e = .notice (.signal (.file path))
      · obtain ⟨path, rfl⟩ := hfile
        have hunseen : path ∉ s.watchedFiles ++ fresh := by
          rw [← hfiles]
          exact fun hmem => h path rfl (middle.mem_watchedFiles.mp hmem)
        rw [List.mem_append, not_or] at hunseen
        refine ⟨fresh ++ [path], ?_, ?_, fun other hother => ?_⟩
        · rw [← List.append_assoc, ← hfiles]
          exact middle.watchedFiles_signalling [path]
        · exact (List.perm_append_singleton path fresh).nodup_iff.mpr
            (List.nodup_cons.mpr ⟨hunseen.2, hnodup⟩)
        · rcases List.mem_append.mp hother with hmem | hmem
          · exact hnew other hmem
          · obtain rfl := List.mem_singleton.mp hmem
            exact hunseen.1
      · have hquiet : noFiles.Steps middle (middle.noting e) := by
          refine .note fun path hsignal => hfile ⟨path, ?_⟩
          rcases e with (⟨signal⟩ | ⟨message⟩) | _ | _ | _
          · exact congrArg (Event.notice ∘ Notice.signal) (Option.some.inj hsignal)
          all_goals cases hsignal
        exact ⟨fresh, by rw [hquiet.watchedFiles_eq, hfiles], hnodup, hnew⟩

theorem newFiles_watch (next : Session) {path : Path} (h : path ∉ next.watchedFiles) :
    newFiles.event next.journal (.notice (.signal (.file path))) := by
  rintro other hother
  obtain rfl : path = other := by simpa using hother
  exact fun hmem => h (next.mem_watchedFiles.mpr hmem)

theorem newFiles_assemble (request : PackageRequest) (manifests : Manifest × Manifest) :
    newFiles.Allows (request.assemble manifests >>= Image.build) s :=
  allows_bind (allows_assemble (fun _ _ _ _ => nofun) (fun _ next h => newFiles_watch next h)
    fun _ _ => nofun) fun _ _ _ => allows_image trivial nofun

end Licence

/-! ## Whole builds -/

namespace PackageRequest

variable {request : PackageRequest}

/-- The files that a build signals without a look at what is signalled already: both manifests and
the external files. -/
def unchecked (request : PackageRequest) (s : Session) : List Path :=
  request.manifestPath ::
    match s.manifest request.manifestPath with
    | .error _ => []
    | .ok manifest =>
      request.variantManifestPath :: (files manifest).filterMap request.lookaside.target?

theorem sends_gather : Sends request.gather (request.unchecked s) s := by
  rw [unchecked, ← List.singleton_append, gather, enter, bind_assoc]
  refine sends_bind (Run.sends_watchManifest _) fun manifest next hmanifest => ?_
  rw [Run.exec_watchManifest] at hmanifest
  obtain ⟨hmanifest, -⟩ := Prod.mk.inj hmanifest
  simp only [hmanifest, bind_assoc, pure_bind]
  rw [← List.singleton_append]
  refine sends_bind (Run.sends_watchManifest _) fun variant _ _ => ?_
  refine sends_bind_right Licence.allows_requireArch fun _ _ _ => ?_
  refine sends_bind_left ?_ fun _ _ _ => Licence.allows_pure _
  refine sends_bind_right (Licence.allows_watchEnvs fun name _ journal =>
    Licence.noFiles_env journal name) fun _ _ _ => ?_
  refine sends_bind_right (Licence.allows_watchNewEnvs fun name _ journal =>
    Licence.noFiles_env journal name) fun _ _ _ => ?_
  exact request.lookaside.sends_fetch _

end PackageRequest

namespace VariantRequest

variable {request : VariantRequest}

/-- The fragments that a build reads: those of the listing, if there is one. -/
def listed (request : VariantRequest) (s : Session) : List Path :=
  match request.listing s with
  | .ok (some fragments) => fragments
  | _ => []

/-- The files that a build signals without a look at what is signalled already: the manifest and the
fragments. -/
def unchecked (request : VariantRequest) (s : Session) : List Path :=
  request.manifestPath :: request.listed s

theorem noFiles_finish (image : Option Image) : Licence.noFiles.Allows (finish image) s := by
  cases image with
  | none => exact Licence.allows_warn nofun
  | some image => exact Licence.allows_image trivial nofun

theorem sends_generate {manifest : Manifest}
    (hmanifest : s.manifest request.manifestPath = .ok manifest) :
    Sends (Defaults.generate manifest.defaultsDir request.project.root) (request.listed s)
      (s.opening request.manifestPath) := by
  unfold listed
  cases hfolder : manifest.defaultsDir with
  | none =>
    have hlisting : request.listing s = .ok none := by
      rw [listing, hmanifest]
      simp only [hfolder]
    rw [hlisting]
    exact sends_of_noFiles (Licence.allows_pure _)
  | some folder =>
    rw [listing_eq hmanifest hfolder]
    refine Run.sends_map _ ?_
    have hexec := Defaults.exec_fragments folder (s.opening request.manifestPath)
    change _ = (s.fragments folder, _) at hexec
    cases hfragments : s.fragments folder with
    | error fault =>
      rw [hfragments] at hexec
      refine sends_of_noFiles (Licence.allows_of_exec (Run.exec_bind_of_error hexec _) ?_)
      exact .refl
    | ok fragments =>
      rw [hfragments] at hexec
      dsimp only [Except.map]
      refine sends_bind_right (Licence.allows_of_exec hexec .refl) fun others next hnext => ?_
      rw [hexec] at hnext
      obtain ⟨hothers, -⟩ := Prod.mk.inj hnext
      obtain rfl := Except.ok.inj hothers
      refine sends_bind_left (Defaults.sends_readFragments _) fun tables _ _ => ?_
      refine Licence.allows_bind (Licence.allows_orFail _ _) fun text _ _ => ?_
      exact Licence.allows_bind (Licence.allows_replaceFile fun _ _ => trivial) fun _ _ _ =>
        Licence.allows_pure _

theorem sends_build : Sends request.build (request.unchecked s) s := by
  rw [unchecked, build_eq, prepare, enter, ← List.singleton_append, bind_assoc, bind_assoc]
  refine sends_bind (Run.sends_watchManifest _) fun manifest next hmanifest => ?_
  rw [Run.exec_watchManifest] at hmanifest
  obtain ⟨hread, rfl⟩ := Prod.mk.inj hmanifest
  simp only [bind_assoc, pure_bind]
  refine sends_bind_right Licence.allows_requireArch fun _ next hnext => ?_
  rw [Run.exec_requireArch] at hnext
  obtain ⟨-, rfl⟩ := Prod.mk.inj hnext
  refine sends_bind_left (Run.sends_map _ (sends_generate hread)) fun _ _ _ => ?_
  exact Licence.allows_bind Licence.allows_surveyVariant fun image _ _ => noFiles_finish image

end VariantRequest

namespace Request

/-- The files that a build signals without a look at what is signalled already. -/
def unchecked (request : Request) (s : Session) : List Path :=
  match request with
  | .package request => request.unchecked s
  | .variant request => request.unchecked s

/-- The files that a build signals: those that are not checked, up to where it fails, and then new
ones. -/
theorem files_of_build (request : Request) (s : Session) :
    ∃ sent fresh, (exec request.build s).2.watchedFiles = s.watchedFiles ++ sent ++ fresh ∧
      sent <+: request.unchecked s ∧
      ((exec request.build s).1 = .ok ⟨⟩ → sent = request.unchecked s) ∧
      fresh.Nodup ∧ ∀ path ∈ fresh, path ∉ s.watchedFiles ++ sent := by
  cases request with
  | variant request =>
    obtain ⟨sent, hsent, hprefix, hall⟩ := request.sends_build (s := s)
    refine ⟨sent, [], ?_, hprefix, hall ⟨⟩, List.nodup_nil, by simp⟩
    rw [List.append_nil]
    exact hsent
  | package request =>
    change ∃ sent fresh, (exec request.build s).2.watchedFiles = _ ∧ _
    obtain ⟨sent, hsent, hprefix, hall⟩ := request.sends_gather (s := s)
    rw [Request.build, PackageRequest.build_eq, PackageRequest.prepare, bind_assoc, Run.exec_bind]
    generalize exec request.gather s = gathered at *
    obtain ⟨result, next⟩ := gathered
    dsimp only at hsent
    cases result with
    | error fault =>
      refine ⟨sent, [], ?_, hprefix, fun h => (by cases h), List.nodup_nil, by simp⟩
      rw [List.append_nil]
      exact hsent
    | ok manifests =>
      obtain ⟨fresh, hfresh, hnodup, hnew⟩ := (Licence.newFiles_assemble request manifests).files_new
      rw [hsent] at hfresh hnew
      exact ⟨sent, fresh, hfresh, hprefix, fun _ => hall manifests rfl, hnodup, hnew⟩

/-- A build on a sink without files signals a path twice exactly if it is twice among those that are
not checked, as far as the build comes. -/
theorem files_repeat_iff (request : Request) (h : s.watchedFiles = []) :
    ∃ sent fresh, (exec request.build s).2.watchedFiles = sent ++ fresh ∧
      sent <+: request.unchecked s ∧
      ((exec request.build s).1 = .ok ⟨⟩ → sent = request.unchecked s) ∧
      ((exec request.build s).2.watchedFiles.Nodup ↔ sent.Nodup) := by
  obtain ⟨sent, fresh, hfiles, hprefix, hall, hnodup, hnew⟩ := request.files_of_build s
  rw [h, List.nil_append] at hfiles hnew
  refine ⟨sent, fresh, hfiles, hprefix, hall, ?_⟩
  rw [hfiles, List.nodup_append]
  constructor
  · exact fun hboth => hboth.1
  · intro hsent
    exact ⟨hsent, hnodup, fun path hpath other hother heq => hnew other hother (heq ▸ hpath)⟩

theorem files_repeat_iff_sample :
    let request := Request.package PackageRequest.sample
    let s := PackageRequest.sampleSession
    s.watchedFiles = [] ∧ ∃ sent fresh,
      (exec request.build s).2.watchedFiles = sent ++ fresh ∧ sent <+: request.unchecked s ∧
        ((exec request.build s).1 = .ok ⟨⟩ → sent = request.unchecked s) ∧
        ((exec request.build s).2.watchedFiles.Nodup ↔ sent.Nodup) := by
  have hfresh : PackageRequest.sampleSession.watchedFiles = [] := by decide
  exact ⟨hfresh, files_repeat_iff (.package PackageRequest.sample) hfresh⟩

/-- A build that succeeds and signals a path twice. -/
def Repeats (request : Request) (s : Session) : Prop :=
  (exec request.build s).1.toOption = some ⟨⟩ ∧ ¬(exec request.build s).2.watchedFiles.Nodup

instance (request : Request) (s : Session) : Decidable (request.Repeats s) :=
  inferInstanceAs (Decidable (_ ∧ _))

-- A variant whose folder of fragments is that of its manifest.
def ownFolder : Tree :=
  VariantRequest.sampleTree "package.metadata.build-variant.defaults-dir = '.'"

-- A package that is declared in the folder of its variant.
def withinVariant : PackageRequest :=
  { PackageRequest.sample with
    project := { PackageRequest.sample.project with manifestDir := .ofString "/r/variants/v" } }

def variantTree : Tree where
  entries := [(["r"], .folder), (["r", "Dockerfile"], .file []), (["r", "variants"], .folder),
    (["r", "variants", "v"], .folder), (["r", "variants", "v", "Cargo.toml"], .file []),
    (["r", "variants", "v", "p.spec"], .file [])]
  distinct := by decide

/-- Two builds that repeat a path: a variant that finds its manifest among its fragments, and a package
whose manifest is that of its variant. -/
theorem build_repeats :
    (Request.variant VariantRequest.sample).Repeats (VariantRequest.sampleSession ownFolder) ∧
      (Request.package withinVariant).Repeats (.fresh variantTree ["r"]) := by
  decide +kernel

end Request

end BuildHook
