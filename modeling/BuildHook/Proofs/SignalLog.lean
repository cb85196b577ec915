import BuildHook.Proofs.Commands
import BuildHook.Proofs.Sorting
import BuildHook.Proofs.Stages

/-!
# The signals of a package's build

Most signals of a build are sent whether or not they were sent before: those of the manifests, of the
tracked features and of the external files. The files that the package is built from are signalled
only where they are new.
-/

namespace BuildHook

open Run (exec)

variable {s s' : Session}

/-- Stages under this licence leave the signals as they are. -/
def Licence.noSignals : Licence :=
  .ofEvents fun _ e => e.signal? = none

theorem Licence.noSignals_bundles (request : PackageRequest) (files : List ExternalFile) :
    Licence.noSignals.Allows (files.forM request.bundle) s :=
  allows_forM fun _ _ _ => allows_bundle fun _ _ _ _ => rfl

theorem Licence.Steps.signals_eq (h : Licence.noSignals.Steps s s') : s'.signals = s.signals :=
  h.signals fun _ _ h => h

namespace Session

theorem watchedEnvs_signalling (s : Session) (names : List String) :
    (s.signalling (names.map .env)).watchedEnvs = s.watchedEnvs ++ names := by
  have hmap : (names.map Signal.env).filterMap Signal.envName? = names := by
    rw [List.filterMap_map]
    exact List.filterMap_some
  rw [watchedEnvs, signals_signalling, List.filterMap_append, hmap]
  rfl

theorem watchedEnvs_opening (s : Session) (path : Path) :
    (s.opening path).watchedEnvs = s.watchedEnvs := by
  rw [watchedEnvs, signals_opening, List.filterMap_append]
  exact List.append_nil _

-- What is new depends on the signals alone.
theorem unwatched_congr (h : s'.signals = s.signals) (paths : List Path) :
    s'.unwatched paths = s.unwatched paths := by
  rw [unwatched, unwatched, watchedFiles, watchedFiles, h]

theorem sources_congr (htree : s'.tree = s.tree) (hcurrent : s'.current = s.current)
    (groups : List Path) : s'.sources groups = s.sources groups := by
  simp only [sources, Run.notFound_congr htree hcurrent, htree, hcurrent]

theorem spec_congr (htree : s'.tree = s.tree) (hcurrent : s'.current = s.current) (path : Path) :
    s'.spec path = s.spec path := by
  rw [spec, spec, content, content, htree, hcurrent]

end Session

namespace Lookaside

variable {a : Lookaside} {f : ExternalFile}

/-- Where an external file is stored. -/
def Targets (a : Lookaside) (f : ExternalFile) (target : Path) : Prop :=
  ∃ name, f.localName = .ok name ∧ target = f.target a.folder name

theorem signals_fetchOne (h : exec (a.fetchOne f) s = (.ok ⟨⟩, s')) :
    ∃ target, a.Targets f target ∧ s'.signals = s.signals ++ [.file target] := by
  obtain ⟨name, next, hlocal, h⟩ := Run.exec_bind_eq_ok.mp h
  obtain ⟨hname, rfl⟩ := Run.exec_orFail_eq_ok.mp hlocal
  dsimp only at h
  split at h
  · obtain ⟨_, _, hthrow, -⟩ := Run.exec_bind_eq_ok.mp h
    cases hthrow
  · refine ⟨_, ⟨name, hname, rfl⟩, ?_⟩
    rw [Run.exec_bind_of_ok (Run.exec_watchFile _ s)] at h
    -- after the signal comes the download, which signals nothing
    have hquiet : Licence.noSignals.Allows
        (do unless ← isPresent f (f.target a.folder name) do
          a.store f name (f.target a.folder name))
        (s.noting (.notice (.signal (.file (f.target a.folder name))))) := by
      refine Licence.allows_bind (Licence.allows_isPresent rfl) fun present next _ => ?_
      split
      · exact Licence.allows_pure _
      · exact Licence.allows_store (fun _ _ => rfl) fun _ _ => trivial
    rw [(hquiet.of_exec h).signals_eq, Session.signals_noting]
    rfl

theorem signals_fetch {files : List ExternalFile} (h : exec (a.fetch files) s = (.ok ⟨⟩, s')) :
    ∃ targets, List.Forall₂ a.Targets files targets ∧
      s'.signals = s.signals ++ targets.map .file := by
  induction files generalizing s with
  | nil =>
    obtain rfl : s = s' := (Prod.ext_iff.mp h).2
    exact ⟨[], .nil, (List.append_nil _).symm⟩
  | cons f files ih =>
    rw [fetch, Run.exec_forM_cons] at h
    obtain ⟨_, next, hone, hrest⟩ := Run.exec_bind_eq_ok.mp h
    obtain ⟨target, htarget, hfirst⟩ := signals_fetchOne hone
    obtain ⟨targets, htargets, hothers⟩ := ih hrest
    refine ⟨target :: targets, .cons htarget htargets, ?_⟩
    rw [hothers, hfirst, List.append_assoc, List.map_cons, List.singleton_append]

end Lookaside

namespace PackageRequest

variable {request : PackageRequest} {manifests : Manifest × Manifest}

theorem exec_watchSources (request : PackageRequest) (groups : List String) (s : Session) :
    exec (request.watchSources groups) s =
      match s.sources (groups.map request.sourcesDir.child) with
      | .ok files => (.ok ⟨⟩, s.signalling ((s.unwatched files).map .file))
      | .error fault => (.error fault, s) := by
  rw [watchSources, Run.exec_bind_of_ok (Run.exec_get s), Run.exec_bind, Run.exec_orFail]
  unfold Session.sources
  cases SourceGroup.crawl s.tree s.current SourceGroup.defaultPatterns
      (groups.map request.sourcesDir.child) with
  | error fault => rfl
  | ok files => exact Run.exec_watchNewFiles files s

/-- The signals that come before the files of the package: those of the manifests, and of what it
is sensitive to. -/
theorem signals_gather (h : exec request.gather s = (.ok manifests, s')) :
    ∃ (features : List String) (targets : List Path),
      features.Pairwise (· < ·) ∧
      (∀ name, name ∈ features ↔ name ∈ manifests.1.packageFeatures.getD []) ∧
      List.Forall₂ request.lookaside.Targets (files manifests.1) targets ∧
      s'.signals = s.signals ++
        [.file request.manifestPath, .file request.variantManifestPath] ++
        features.map (fun name => .env (ImageFeatures.envName name)) ++
        ((Sensitivity.envNames manifests.1.sensitivity).filter fun name =>
          name ∉ s.watchedEnvs ++ features.map ImageFeatures.envName).map .env ++
        targets.map .file := by
  obtain ⟨others, entered, henter, h⟩ := Run.exec_bind_eq_ok.mp h
  obtain ⟨_, collected, hcollect, h⟩ := Run.exec_bind_eq_ok.mp h
  rw [Run.exec_pure, Prod.mk.injEq, Except.ok.injEq] at h
  obtain ⟨rfl, rfl⟩ := h
  obtain ⟨-, -, -, rfl⟩ := enter_eq_ok.mp henter
  rw [collect, Run.exec_bind_of_ok (Run.exec_watchFeatures _ _),
    Run.exec_bind_of_ok (Run.exec_watchNewEnvs _ _)] at hcollect
  obtain ⟨targets, htargets, hsignals⟩ := Lookaside.signals_fetch hcollect
  refine ⟨Text.sortedSet (others.1.packageFeatures.getD []), targets,
    Text.pairwise_sortedSet _, fun name => Text.mem_sortedSet, htargets, ?_⟩
  rw [hsignals, Session.watchedEnvs_signalling]
  simp only [Session.signals_signalling, Session.signals_opening, Session.watchedEnvs_opening,
    ImageFeatures.envNames, List.map_map, Function.comp_def, List.append_assoc, List.cons_append,
    List.nil_append, List.contains_eq_mem, decide_not]

/-- The files of a package in the order in which they are first noticed. -/
theorem signals_survey {manifest variant : Manifest} {image : Image}
    (h : exec (request.survey manifest variant) s = (.ok image, s')) :
    ∃ (crawled : List Path) (spec : Spec),
      s.sources ((manifest.sourceGroups.getD []).map request.sourcesDir.child) = .ok crawled ∧
      s.spec (request.specPath manifest) = .ok spec ∧
      s'.signals = s.signals ++
        (s.unwatched
          (crawled ++ request.specPath manifest :: (spec.sources ++ spec.patches))).map .file := by
  obtain ⟨_, crawling, hcrawl, h⟩ := Run.exec_bind_eq_ok.mp h
  obtain ⟨_, _, htexts, h⟩ := Run.exec_bind_eq_ok.mp h
  obtain ⟨-, rfl⟩ := Run.exec_requireTexts_eq_ok.mp htexts
  obtain ⟨_, watched, hwatch, h⟩ := Run.exec_bind_eq_ok.mp h
  rw [exec_watchSources] at hcrawl
  cases hsources : s.sources ((manifest.sourceGroups.getD []).map request.sourcesDir.child) with
  | error fault =>
    rw [hsources] at hcrawl
    cases hcrawl
  | ok crawled =>
    rw [hsources, Prod.mk.injEq] at hcrawl
    obtain ⟨-, rfl⟩ := hcrawl
    rw [watchSpec, Run.exec_bind_of_ok (Run.exec_watchNewFiles _ _)] at hwatch
    obtain ⟨spec, read, hread, hwatch⟩ := Run.exec_bind_eq_ok.mp hwatch
    rw [Spec.exec_read, Prod.mk.injEq] at hread
    obtain ⟨hspec, rfl⟩ := hread
    rw [Run.exec_watchNewFiles, Prod.mk.injEq] at hwatch
    obtain ⟨-, rfl⟩ := hwatch
    rw [Image.exec_checked, Prod.mk.injEq] at h
    obtain ⟨-, rfl⟩ := h
    refine ⟨crawled, spec, rfl, hspec, ?_⟩
    -- the three lists that are signalled one after the other count as one
    have hjoin : ∀ t : Session, t.unwatched
        (request.specPath manifest :: (spec.sources ++ spec.patches)) =
        t.unwatched [request.specPath manifest] ++
          (t.signalling ((t.unwatched [request.specPath manifest]).map .file)).unwatched
            (spec.sources ++ spec.patches) :=
      fun t => t.unwatched_append [request.specPath manifest] _
    have hnoting : ∀ t : Session,
        (t.noting (.read (request.specPath manifest))).signals = t.signals := by
      intro t
      rw [Session.signals_noting]
      exact List.append_nil _
    rw [Session.signals_signalling, Session.unwatched_congr (hnoting _), hnoting,
      Session.signals_signalling, Session.signals_signalling, s.unwatched_append crawled, hjoin,
      List.map_append, List.map_append, List.append_assoc, List.append_assoc]

/-- The signals that a package's build has added to those before it. -/
def Logged (request : PackageRequest) (s s' : Session) : Prop :=
  ∃ (manifest : Manifest) (features : List String) (targets crawled : List Path) (spec : Spec),
    let fetched := (exec request.gather s).2
    s.manifest request.manifestPath = .ok manifest ∧
    features.Pairwise (· < ·) ∧
    (∀ name, name ∈ features ↔ name ∈ manifest.packageFeatures.getD []) ∧
    List.Forall₂ request.lookaside.Targets (files manifest) targets ∧
    fetched.sources ((manifest.sourceGroups.getD []).map request.sourcesDir.child) = .ok crawled ∧
    fetched.spec (request.specPath manifest) = .ok spec ∧
    fetched.signals = s.signals ++
      [.file request.manifestPath, .file request.variantManifestPath] ++
      features.map (fun name => .env (ImageFeatures.envName name)) ++
      ((Sensitivity.envNames manifest.sensitivity).filter fun name =>
        name ∉ s.watchedEnvs ++ features.map ImageFeatures.envName).map .env ++
      targets.map .file ∧
    s'.signals = fetched.signals ++
      (fetched.unwatched
        (crawled ++ request.specPath manifest :: (spec.sources ++ spec.patches))).map .file

theorem signals_of_package (h : exec request.build s = (.ok ⟨⟩, s')) : request.Logged s s' := by
  rw [build_eq] at h
  obtain ⟨image, prepared, hprepare, hbuild⟩ := Run.exec_bind_eq_ok.mp h
  obtain ⟨manifests, fetched, hgather, hassemble⟩ := Run.exec_bind_eq_ok.mp hprepare
  obtain ⟨_, bundled, hbundle, hsurvey⟩ := Run.exec_bind_eq_ok.mp hassemble
  obtain ⟨_, henter⟩ := entered_of_gather hgather
  obtain ⟨features, targets, hascending, hfeatures, htargets, hsignals⟩ := signals_gather hgather
  obtain ⟨crawled, spec, hcrawled, hspec, hnew⟩ := signals_survey hsurvey
  have hstarts := request.starts_bundles (files manifests.1) fetched
  rw [hbundle] at hstarts
  obtain ⟨argvs, -, htree, hcurrent, -⟩ := hstarts
  have hbundled : bundled.signals = fetched.signals :=
    ((Licence.noSignals_bundles request _).of_exec hbundle).signals_eq
  have hlast : s'.signals = prepared.signals :=
    ((Licence.allows_image trivial rfl).of_exec hbuild).signals_eq
  rw [Session.sources_congr htree hcurrent] at hcrawled
  rw [Session.spec_congr htree hcurrent] at hspec
  rw [Session.unwatched_congr hbundled, hbundled, ← hlast] at hnew
  unfold Logged
  rw [hgather]
  exact ⟨manifests.1, features, targets, crawled, spec, (enter_eq_ok.mp henter).1, hascending,
    hfeatures, htargets, hcrawled, hspec, hsignals, hnew⟩

-- A package that tracks features, depends on its variant and has a source that its spec repeats.
def sampleTree : Tree where
  entries := [(["r"], .folder), (["r", "Dockerfile"], .file []), (["r", "p"], .folder),
    (["r", "p", "Cargo.toml"], .file (Utf8.ofString ("[package.metadata.build-package]\n" ++
      "package-features = ['b', 'a', 'b']\nvariant-sensitive = 'family'\nsource-groups = ['g']"))),
    (["r", "p", "p.spec"], .file (Utf8.ofString "Source0: e\nPatch1: f\nSource1: f\n")),
    (["r", "variants"], .folder), (["r", "variants", "v"], .folder),
    (["r", "variants", "v", "Cargo.toml"], .file []), (["r", "s"], .folder),
    (["r", "s", "g"], .folder), (["r", "s", "g", "h"], .file [])]
  distinct := by decide

def sampleSession : Session where
  tree := sampleTree
  current := ["r"]
  replies := []
  outcomes := []
  lastOutcome := .exited 0 [] []
  journal := [.notice (.signal (.env "BUILDSYS_VARIANT_FAMILY"))]

def sample : PackageRequest where
  project := ⟨.x86_64, .ofString "/r", .ofString "p", "sdk", "1", "1", none⟩
  name := "p"
  variant := "v"
  sourcesDir := .ofString "s"
  packagesDir := .ofString "out"
  lookasideCache := "https://cache"
  directFallback := false

theorem signals_of_sample :
    (exec sample.build sampleSession).1.toOption = some ⟨⟩ ∧
      sample.Logged sampleSession (exec sample.build sampleSession).2 := by
  have hok : (exec sample.build sampleSession).1.toOption = some ⟨⟩ := by decide +kernel
  generalize hrun : exec sample.build sampleSession = run at hok
  obtain ⟨result, s'⟩ := run
  cases result with
  | ok _ => exact ⟨hok, signals_of_package hrun⟩
  | error fault => cases hok

end PackageRequest

end BuildHook
