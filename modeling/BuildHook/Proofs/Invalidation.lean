import BuildHook.Proofs.Defaults
import BuildHook.Proofs.Pipeline
import BuildHook.Proofs.Stages

/-!
# What the default settings depend on

Two builds of a variant on two trees. Where the trees agree on all files that the first build
signals, and the folder of default settings lists the same fragments, both builds write the same
settings. The listing itself is not signalled, so that a new fragment goes unnoticed.
-/

namespace BuildHook

open Run (exec)

variable {s s' t : Session}

namespace Session

-- The files signalled between two sessions.
def watchedSince (s' s : Session) : List Path :=
  ((s'.since s).filterMap Event.signal?).filterMap Signal.path?

theorem mem_watchedSince {path : Path} {added : List Event}
    (h : s.journal ++ added <+: s'.journal) (hmem : .notice (.signal (.file path)) ∈ added) :
    path ∈ s'.watchedSince s := by
  obtain ⟨later, hlater⟩ := h
  have hsince : s'.since s = added ++ later :=
    since_of_journal (hlater.symm.trans (List.append_assoc _ _ _))
  have hevent := List.mem_append_left later hmem
  unfold watchedSince
  rw [hsince, List.mem_filterMap]
  exact ⟨.file path, List.mem_filterMap.mpr ⟨_, hevent, rfl⟩, rfl⟩

-- Two sessions in which a path leads to the same content, or in both to none.
def SameContent (s t : Session) (path : Path) : Prop :=
  (Files.read t.tree t.current path).toOption = (Files.read s.tree s.current path).toOption

instance (s t : Session) (path : Path) : Decidable (SameContent s t path) :=
  inferInstanceAs (Decidable (_ = _))

theorem read_of_sameContent {path : Path} {bytes : List UInt8} (h : SameContent s t path)
    (hread : Files.read s.tree s.current path = .ok bytes) :
    Files.read t.tree t.current path = .ok bytes := by
  unfold SameContent at h
  rw [hread] at h
  cases hother : Files.read t.tree t.current path with
  | error fault =>
    rw [hother] at h
    cases h
  | ok other =>
    rw [hother] at h
    rw [Option.some.inj h]

theorem content_eq_ok {fault : Files.Fault → Fault} {path : Path} {bytes : List UInt8}
    (h : s.content fault path = .ok bytes) : Files.read s.tree s.current path = .ok bytes :=
  Run.mapError_eq_ok.mp h

theorem manifest_of_sameContent {path : Path} {manifest : Manifest} (h : SameContent s t path)
    (hmanifest : s.manifest path = .ok manifest) : t.manifest path = .ok manifest := by
  cases hcontent : s.content (fun fault => .manifest path (.unreadable fault)) path with
  | error fault =>
    rw [Session.manifest, hcontent] at hmanifest
    cases hmanifest
  | ok bytes =>
    have hread := content_eq_ok hcontent
    rw [← hmanifest]
    exact manifest_congr ((read_of_sameContent h hread).trans hread.symm)

theorem settings_of_sameContent {fragment : Path} {table : Toml.Table}
    (h : SameContent s t fragment) (hsettings : s.settings fragment = .ok table) :
    t.settings fragment = .ok table := by
  cases hcontent : s.content (fun fault => .defaults (.unreadable fragment fault)) fragment with
  | error fault =>
    rw [Session.settings, hcontent] at hsettings
    cases hsettings
  | ok bytes =>
    have hread := content_eq_ok hcontent
    rw [← hsettings]
    exact settings_congr ((read_of_sameContent h hread).trans hread.symm)

theorem mapM_settings_of_sameContent {fragments : List Path} {tables : List Toml.Table}
    (h : ∀ fragment ∈ fragments, SameContent s t fragment)
    (htables : fragments.mapM s.settings = .ok tables) :
    fragments.mapM t.settings = .ok tables := by
  rw [Run.mapM_eq_ok] at htables ⊢
  have hall := (List.forall₂_and_left _ _).mpr ⟨h, htables⟩
  exact hall.imp fun _ _ hfragment => settings_of_sameContent hfragment.1 hfragment.2

end Session

/-! ## Stages that only add folders -/

namespace Licence

def growing : Licence :=
  ⟨fun _ _ => True, Tree.Grows⟩

theorem Steps.grows (h : growing.Steps s s') : s.tree.Grows s'.tree := by
  induction h with
  | refl => exact Tree.Grows.refl _
  | tail _ step ih =>
    cases step with
    | note _ => exact ih
    | change hgrows => exact ih.trans hgrows
    | spend => exact ih

def anything : Licence :=
  .ofEvents fun _ _ => True

theorem Steps.anything (h : growing.Steps s s') : Licence.anything.Steps s s' :=
  h.mono (fun _ _ _ => trivial) fun _ _ _ => trivial

theorem growing_finish (image : Option Image) :
    growing.Allows (VariantRequest.finish image) s := by
  cases image with
  | none => exact allows_warn trivial
  | some image => exact allows_image (Files.grows_makeFolders _ _ _) trivial

theorem growing_survey (request : VariantRequest) (manifest : Manifest) :
    growing.Allows (request.survey manifest >>= VariantRequest.finish) s :=
  allows_bind allows_surveyVariant fun image _ _ => growing_finish image

end Licence

namespace VariantRequest

variable {request : VariantRequest} {manifest : Manifest}

/-- The file that the default settings are written to. -/
def output (request : VariantRequest) : Path :=
  Defaults.outputOf request.project.root

-- A build whose manifest can be used, from there on.
theorem exec_build_of_enter (hmanifest : s.manifest request.manifestPath = .ok manifest)
    (harch : manifest.supports request.project.arch = true) :
    exec request.build s =
      exec (do
        discard (Defaults.generate manifest.defaultsDir request.project.root)
        request.survey manifest >>= finish) (s.opening request.manifestPath) := by
  have henter := enter_eq_ok.mpr ⟨hmanifest, harch, rfl⟩
  rw [build_eq, prepare, bind_assoc, Run.exec_bind_of_ok henter, bind_assoc]

theorem manifestPath_watched (hmanifest : s.manifest request.manifestPath = .ok manifest)
    (harch : manifest.supports request.project.arch = true) :
    request.manifestPath ∈ (exec request.build s).2.watchedSince s := by
  have hrest : Licence.anything.Allows (do
      discard (Defaults.generate manifest.defaultsDir request.project.root)
      request.survey manifest >>= finish) (s.opening request.manifestPath) := by
    refine Licence.allows_bind (Licence.allows_discard (Licence.allows_generate
      (fun _ _ => trivial) (fun _ _ _ => trivial) fun _ _ => trivial)) fun _ next _ => ?_
    exact (Licence.growing_survey request manifest).anything
  rw [exec_build_of_enter hmanifest harch]
  have hprefix := hrest.journal_extends
  rw [Session.opening_journal] at hprefix
  exact Session.mem_watchedSince hprefix (by simp)

theorem grows_build (hmanifest : s.manifest request.manifestPath = .ok manifest)
    (harch : manifest.supports request.project.arch = true) (hnone : manifest.defaultsDir = none) :
    s.tree.Grows (exec request.build s).2.tree := by
  have hrest := Licence.growing_survey request manifest (s := s.opening request.manifestPath)
  rw [exec_build_of_enter hmanifest harch, hnone]
  exact hrest.grows

variable {folder : Path} {fragments : List Path} {tables : List Toml.Table}

/-- A build whose fragments can be used and merged writes their settings, unless the output cannot
be written; then it fails and leaves all that stood in the tree. It has signalled all that it has
read. -/
theorem build_writes (hmanifest : s.manifest request.manifestPath = .ok manifest)
    (harch : manifest.supports request.project.arch = true)
    (hfolder : manifest.defaultsDir = some folder)
    (hfragments : s.fragments folder = .ok fragments)
    (htables : fragments.mapM s.settings = .ok tables)
    (hshort : (Toml.Value.table (Toml.mergeAll tables)).isOverlong = false) :
    ((∃ place, Defaults.Placed s.current request.output (Defaults.contentOf tables) s.tree
          (exec request.build s).2.tree place) ∨
        (∃ cause, (exec request.build s).1 = .error (Defaults.unwritten request.output cause)) ∧
          s.tree.Grows (exec request.build s).2.tree) ∧
      ∀ fragment ∈ fragments, fragment ∈ (exec request.build s).2.watchedSince s := by
  obtain ⟨next, htree, hcurrent, hjournal, haggregate⟩ :=
    Defaults.exec_aggregate (s := s.opening request.manifestPath) request.project.root
      hfragments htables
  rw [Toml.serialise_eq_ok.mpr ⟨hshort, rfl⟩] at haggregate
  have hlast := Defaults.lastName_outputOf request.project.root
  obtain ⟨written, hsession, hresult⟩ :=
    Defaults.exec_replaceFile hlast (Defaults.contentOf tables) next
  rw [htree, hcurrent] at hresult
  -- whatever follows, the signals up to here stay
  have hwatched : ∀ last : Session, next.journal <+: last.journal →
      ∀ fragment ∈ fragments, fragment ∈ last.watchedSince s := by
    intro last hprefix fragment hfragment
    rw [hjournal, Session.opening_journal, List.append_assoc] at hprefix
    exact Session.mem_watchedSince hprefix (by simp [Defaults.openings, hfragment])
  have hgenerate : exec (discard (Defaults.generate (some folder) request.project.root))
      (s.opening request.manifestPath) =
        ((exec (Defaults.replaceFile (Defaults.outputOf request.project.root)
          (Defaults.contentOf tables)) next).1.map fun _ => ⟨⟩, next.withTree written) := by
    rw [Run.exec_discard, Defaults.generate, Run.exec_map, haggregate]
    dsimp only
    rw [Run.exec_bind]
    rcases hrun : exec (Defaults.replaceFile (Defaults.outputOf request.project.root)
      (Defaults.contentOf tables)) next with ⟨result, last⟩
    rw [hrun] at hsession
    obtain rfl : last = next.withTree written := hsession
    cases result <;> rfl
  rw [exec_build_of_enter hmanifest harch, hfolder]
  rcases hresult with ⟨hok, hbarred, place, hplaced⟩ | ⟨⟨cause, hfault, -⟩, halong⟩
  · rw [hok] at hgenerate
    rw [Run.exec_bind_of_ok hgenerate]
    have hrest := Licence.growing_survey request manifest (s := next.withTree written)
    exact ⟨.inl ⟨place, hplaced.toPlaced.grows hlast hbarred hrest.grows⟩,
      hwatched _ hrest.journal_extends⟩
  · rw [hfault] at hgenerate
    rw [Run.exec_bind_of_error hgenerate]
    exact ⟨.inr ⟨⟨cause, rfl⟩, halong.grows⟩, hwatched _ List.prefix_rfl⟩

theorem build_eq_ok (h : exec request.build s = (.ok ⟨⟩, s')) :
    ∃ manifest, s.manifest request.manifestPath = .ok manifest ∧
      manifest.supports request.project.arch = true ∧
      ∀ folder, manifest.defaultsDir = some folder →
        ∃ fragments tables, s.fragments folder = .ok fragments ∧
          fragments.mapM s.settings = .ok tables ∧
          (Toml.Value.table (Toml.mergeAll tables)).isOverlong = false := by
  rw [build_eq] at h
  obtain ⟨_, _, hprepare, -⟩ := Run.exec_bind_eq_ok.mp h
  obtain ⟨manifest, _, henter, hprepare⟩ := Run.exec_bind_eq_ok.mp hprepare
  obtain ⟨_, _, hgenerate, -⟩ := Run.exec_bind_eq_ok.mp hprepare
  obtain ⟨hmanifest, harch, rfl⟩ := enter_eq_ok.mp henter
  refine ⟨manifest, hmanifest, harch, fun folder hfolder => ?_⟩
  rw [hfolder, Run.exec_discard, Defaults.generate, Run.exec_map, Prod.mk.injEq] at hgenerate
  rcases haggregate : exec (Defaults.aggregate folder request.project.root)
    (s.opening request.manifestPath) with ⟨result, last⟩
  rw [haggregate] at hgenerate
  cases result with
  | ok output =>
    obtain ⟨fragments, tables, hfragments, htables, hshort, -⟩ :=
      Defaults.aggregate_eq_ok (s := s.opening request.manifestPath) haggregate
    exact ⟨fragments, tables, hfragments, htables, hshort⟩
  | error fault => cases hgenerate.1

/-! ## Two builds -/

/-- The fragments that the manifest of a variant leads to, if it names a folder of them. -/
def listing (request : VariantRequest) (s : Session) : Except Fault (Option (List Path)) :=
  match s.manifest request.manifestPath with
  | .error fault => .error fault
  | .ok manifest =>
    match manifest.defaultsDir with
    | none => .ok none
    | some folder => (s.fragments folder).map some

theorem listing_eq (hmanifest : s.manifest request.manifestPath = .ok manifest)
    (hfolder : manifest.defaultsDir = some folder) :
    request.listing s = (s.fragments folder).map some := by
  rw [listing, hmanifest]
  dsimp only
  rw [hfolder]

theorem fragments_of_listing (h : (request.listing t).toOption = (request.listing s).toOption)
    (hmanifest : s.manifest request.manifestPath = .ok manifest)
    (hother : t.manifest request.manifestPath = .ok manifest)
    (hfolder : manifest.defaultsDir = some folder) (hfragments : s.fragments folder = .ok fragments) :
    t.fragments folder = .ok fragments := by
  rw [listing_eq hmanifest hfolder, listing_eq hother hfolder, hfragments] at h
  cases hresult : t.fragments folder with
  | error fault =>
    rw [hresult] at h
    cases h
  | ok others =>
    rw [hresult] at h
    rw [Option.some.inj (Option.some.inj h)]

/-- What the builds `s` to `s'` and `t` to `t'` leave of the default settings: without a folder for
them, both add nothing but folders; with one, both write the same content, unless the second build
fails to write and leaves all that stood in its tree. -/
def SameDefaults (request : VariantRequest) (s s' t t' : Session) : Prop :=
  ∃ manifest, s.manifest request.manifestPath = .ok manifest ∧
    match manifest.defaultsDir with
    | none => s.tree.Grows s'.tree ∧ t.tree.Grows t'.tree
    | some _ => ∃ content,
      (∃ folder, Defaults.Placed s.current request.output content s.tree s'.tree folder) ∧
      ((∃ folder, Defaults.Placed t.current request.output content t.tree t'.tree folder) ∨
        (∃ cause, (exec request.build t).1 = .error (Defaults.unwritten request.output cause)) ∧
          t.tree.Grows t'.tree)

/-- Two builds on trees that agree on what the first one signals, and list the same fragments. -/
theorem defaults_stable (hbuild : exec request.build s = (.ok ⟨⟩, s'))
    (hwatched : ∀ path ∈ s'.watchedSince s, Session.SameContent s t path)
    (hlisting : (request.listing t).toOption = (request.listing s).toOption) :
    request.SameDefaults s s' t (exec request.build t).2 := by
  obtain ⟨manifest, hmanifest, harch, hsettings⟩ := build_eq_ok hbuild
  have hsession : (exec request.build s).2 = s' := (Prod.ext_iff.mp hbuild).2
  have hother : t.manifest request.manifestPath = .ok manifest := by
    refine Session.manifest_of_sameContent (hwatched _ ?_) hmanifest
    exact hsession ▸ manifestPath_watched hmanifest harch
  refine ⟨manifest, hmanifest, ?_⟩
  cases hfolder : manifest.defaultsDir with
  | none =>
    have hgrows := grows_build hmanifest harch hfolder
    rw [hsession] at hgrows
    exact ⟨hgrows, grows_build hother harch hfolder⟩
  | some folder =>
    obtain ⟨fragments, tables, hfragments, htables, hshort⟩ := hsettings folder hfolder
    obtain ⟨hwrites, hread⟩ := build_writes hmanifest harch hfolder hfragments htables hshort
    rw [hsession] at hwrites hread
    -- the second build finds the same fragments with the same settings in them
    have hlisted := fragments_of_listing hlisting hmanifest hother hfolder hfragments
    have hsame := Session.mapM_settings_of_sameContent
      (fun fragment hfragment => hwatched fragment (hread fragment hfragment)) htables
    obtain ⟨hwrites', -⟩ := build_writes hother harch hfolder hlisted hsame hshort
    refine ⟨Defaults.contentOf tables, ?_, hwrites'⟩
    rcases hwrites with hplaced | ⟨⟨cause, hfault⟩, -⟩
    · exact hplaced
    · rw [hbuild] at hfault
      cases hfault

-- A variant with one fragment, and what else may stand in its tree.
def sampleTree (manifest : String) : Tree where
  entries := [(["r"], .folder), (["r", "m"], .folder),
    (["r", "m", "Cargo.toml"], .file (Utf8.ofString manifest)), (["r", "m", "d"], .folder),
    (["r", "m", "d", "a.toml"], .file (Utf8.ofString "a = 1")), (["r", "build"], .folder),
    (["r", "build", "tools"], .folder)]
  distinct := by simp

def sampleSession (tree : Tree) : Session where
  tree := tree
  current := ["r"]
  replies := []
  outcomes := []
  lastOutcome := .exited 0 [] []
  journal := []

def sample : VariantRequest where
  project := ⟨.x86_64, .ofString "/r", .ofString "m", "sdk", "1", "1", none⟩
  variant := "v"
  name := "n"
  prettyName := "N"
  versionImage := "1"
  outputDir := .ofString "out"

def withFolder : Tree :=
  sampleTree "package.metadata.build-variant.defaults-dir = 'd'"

def withoutFolder : Tree :=
  sampleTree ""

-- An output of earlier builds is replaced in the second tree.
theorem defaults_stable_sample :
    let s := sampleSession withFolder
    let t := sampleSession
      (withFolder.put ["r", "build", "tools", "defaults.toml"] (.file (Utf8.ofString "old")))
    (exec sample.build s).1.toOption = some ⟨⟩ ∧
      (∀ path ∈ (exec sample.build s).2.watchedSince s, Session.SameContent s t path) ∧
      (sample.listing t).toOption = (sample.listing s).toOption ∧
      sample.SameDefaults s (exec sample.build s).2 t (exec sample.build t).2 := by
  intro s t
  have hok : (exec sample.build s).1.toOption = some ⟨⟩ := by decide +kernel
  have hwatched : ∀ path ∈ (exec sample.build s).2.watchedSince s,
      Session.SameContent s t path := by decide +kernel
  have hlisting : (sample.listing t).toOption = (sample.listing s).toOption := by decide +kernel
  refine ⟨hok, hwatched, hlisting, ?_⟩
  generalize hrun : exec sample.build s = run at hok hwatched
  obtain ⟨result, s'⟩ := run
  cases result with
  | ok _ => exact defaults_stable hrun hwatched hlisting
  | error fault => cases hok

/-- A build that succeeds, and a build on a tree that agrees with the first one on all that the first
build signals; yet they leave different outputs. -/
def Missed (request : VariantRequest) (s t : Session) : Prop :=
  (exec request.build s).1.toOption = some ⟨⟩ ∧
    (∀ path ∈ (exec request.build s).2.watchedSince s, Session.SameContent s t path) ∧
    ¬ Session.SameContent (exec request.build s).2 (exec request.build t).2 request.output

instance (request : VariantRequest) (s t : Session) : Decidable (request.Missed s t) :=
  inferInstanceAs (Decidable (_ ∧ _ ∧ _))

-- The folder of the output is reached through a link of the output's own name.
def linkedFolder : Tree :=
  (((withFolder.put ["r", "build", "tools"] (.link "../x/defaults.toml/..")).put ["r", "x"]
    .folder).put ["r", "x", "d"] .folder).put ["r", "x", "defaults.toml"] (.link "d")

/-- Four ways to differ. Without a folder of default settings the output of earlier builds stays. A
fragment that is new to the folder is read, but no signal of the first build stands for it. A folder
may stand in the place of the output. And the new output may cut off the way to itself. -/
theorem defaults_missed :
    sample.Missed (sampleSession withoutFolder) (sampleSession
        (withoutFolder.put ["r", "build", "tools", "defaults.toml"] (.file []))) ∧
      sample.Missed (sampleSession withFolder) (sampleSession
        (withFolder.put ["r", "m", "d", "b.toml"] (.file (Utf8.ofString "b = 2")))) ∧
      sample.Missed (sampleSession withFolder) (sampleSession
        (withFolder.put ["r", "build", "tools", "defaults.toml"] .folder)) ∧
      sample.Missed (sampleSession linkedFolder) (sampleSession withFolder) := by
  decide +kernel

end VariantRequest

end BuildHook
