import BuildHook.Proofs.Defaults
import BuildHook.Proofs.Listing
import Mathlib.Data.List.Forall2

/-!
# Aggregating the default settings

What the aggregation of a folder of fragments leaves behind. If it succeeds, the output holds the
merged settings of all fragments, and each of them is signalled. If it fails, nothing that stood in
the tree has changed, and the signals reach up to the fragment that failed.
-/

namespace BuildHook.Defaults

open Run (exec)

variable {s s' : Session} {folder root : Path} {fragments : List Path} {tables : List Toml.Table}

/-! ## Settings and signals -/

-- The tables are the settings of the fragments of these names.
def Holds (s : Session) (folder : Path) (names : List String) (tables : List Toml.Table) : Prop :=
  List.Forall₂ (fun name table => s.settings (folder.child name) = .ok table) names tables

theorem holds_of_mapM {names : List String}
    (h : (names.map folder.child).mapM s.settings = .ok tables) : Holds s folder names tables :=
  List.forall₂_map_left_iff.mp (Run.mapM_eq_ok.mp h)

-- What is signalled for the fragments of these names.
def watches (folder : Path) (names : List String) : List Signal :=
  names.map fun name => .file (folder.child name)

theorem filterMap_openings (folder : Path) (names : List String) :
    (openings (names.map folder.child)).filterMap Event.signal? = watches folder names := by
  induction names with
  | nil => rfl
  | cons name rest ih =>
    change .file (folder.child name) ::
      (openings (rest.map folder.child)).filterMap Event.signal? = _
    rw [ih]
    rfl

theorem signals_of_openings {names : List String}
    (h : s'.journal = s.journal ++ openings (names.map folder.child)) :
    s'.signals = s.signals ++ watches folder names := by
  rw [Session.signals, h, List.filterMap_append, filterMap_openings]
  rfl

-- A text that can be read but does not follow the rules of TOML.
def IsMalformed (s : Session) (fragment : Path) : Prop :=
  ∃ bytes text, Files.read s.tree s.current fragment = .ok bytes ∧ Utf8.decode bytes = .ok text ∧
    Toml.parse (Text.foldReturns text) = .error .malformed

theorem isMalformed_of_settings {fragment other : Path}
    (h : s.settings fragment = .error (.defaults (.malformed other))) :
    other = fragment ∧ IsMalformed s fragment := by
  rcases Run.result_bind_eq_error.mp h with hcontent | ⟨bytes, hcontent, hrest⟩
  · obtain ⟨cause, -, hfault⟩ := Run.mapError_eq_error.mp hcontent
    unfold Run.reporting at hfault
    split at hfault <;> cases hfault
  rcases Run.result_bind_eq_error.mp hrest with hdecode | ⟨text, hdecode, hparse⟩
  · obtain ⟨cause, -, hfault⟩ := Run.mapError_eq_error.mp hdecode
    cases hfault
  obtain ⟨refusal, hrefusal, hfault⟩ := Run.mapError_eq_error.mp hparse
  cases refusal with
  | digits cause => cases hfault
  | malformed =>
    obtain rfl := DefaultsFault.malformed.inj (Fault.defaults.inj hfault)
    exact ⟨rfl, bytes, text, Run.mapError_eq_ok.mp hcontent, Run.mapError_eq_ok.mp hdecode,
      hrefusal⟩

/-! ## Success -/

/-- What an aggregation leaves behind: the settings of all fragments, merged in the order of their
names, can be written as a document and are in the output, and one signal for each of them is
added. -/
structure Aggregated (s s' : Session) (folder root : Path) (names : List String)
    (tables : List Toml.Table) (place : Location) : Prop where
  lists : Lists s folder names
  holds : Holds s folder names tables
  signals : s'.signals = s.signals ++ watches folder names
  serialised : Toml.serialise (Toml.mergeAll tables) = .ok (Toml.print (Toml.mergeAll tables))
  replaced : Replaced s.current (outputOf root) (contentOf tables) s.tree s'.tree place

theorem aggregated_of_exec {output : Path}
    (h : exec (aggregate folder root) s = (.ok output, s')) :
    output = outputOf root ∧
      ∃ names tables place, Aggregated s s' folder root names tables place := by
  obtain ⟨fragments, tables, hfragments, htables, hshort, next, htree, hcurrent, hjournal, rfl,
    hrun⟩ := aggregate_eq_ok h
  obtain ⟨names, rfl, hlists⟩ := fragments_eq_ok hfragments
  obtain ⟨t', hsession, hresult⟩ :=
    exec_replaceFile (lastName_outputOf root) (contentOf tables) next
  rw [htree, hcurrent] at hresult
  rw [hrun] at hsession hresult
  obtain rfl : s' = next.withTree t' := hsession
  rcases hresult with ⟨-, -, place, hreplaced⟩ | ⟨⟨cause, hfault, -⟩, -⟩
  · exact ⟨rfl, names, tables, place, hlists, holds_of_mapM htables, signals_of_openings hjournal,
      Toml.serialise_eq_ok.mpr ⟨hshort, rfl⟩, hreplaced⟩
  · cases hfault

/-- An aggregation that succeeds returns the path of the output. Without a folder there is none, and
nothing is signalled or changed. -/
theorem generate_eq_ok {folder? : Option Path} {result : Option Path}
    (h : exec (generate folder? root) s = (.ok result, s')) :
    match folder? with
    | none => result = none ∧ s' = s
    | some folder => result = some (outputOf root) ∧
        ∃ names tables place, Aggregated s s' folder root names tables place := by
  cases folder? with
  | none =>
    obtain ⟨hresult, rfl⟩ := Prod.mk.inj h
    exact ⟨(Except.ok.inj hresult).symm, rfl⟩
  | some folder =>
    rw [generate, Run.exec_map] at h
    rcases hrun : exec (aggregate folder root) s with ⟨output, last⟩
    rw [hrun] at h
    obtain ⟨hresult, rfl⟩ := Prod.mk.inj h
    cases output with
    | error fault => cases hresult
    | ok output =>
      obtain ⟨rfl, haggregated⟩ := aggregated_of_exec hrun
      exact ⟨(Except.ok.inj hresult).symm, haggregated⟩

-- A folder with two fragments, of which one is a link, and an output that is a link as well.
def sampleTree : Tree where
  entries := [(["r"], .folder), (["r", "d"], .folder),
    (["r", "d", "b.toml"], .file (Utf8.ofString "b = 2")),
    (["r", "d", "a.toml"], .link "../x/a.toml"), (["r", "x"], .folder),
    (["r", "x", "a.toml"], .file (Utf8.ofString "a = 1")), (["r", "build"], .folder),
    (["r", "build", "tools"], .folder), (["r", "build", "tools", "defaults.toml"], .link "old")]
  distinct := by simp

def sampleFolder : Path :=
  .ofString "d"

theorem generate_eq_ok_sample :
    let s := Session.fresh sampleTree ["r"]
    ∃ result s', exec (generate (some sampleFolder) Path.here) s = (.ok result, s') ∧
      result = some (outputOf Path.here) ∧
      ∃ names tables place, Aggregated s s' sampleFolder Path.here names tables place := by
  intro s
  have hok : (exec (generate (some sampleFolder) Path.here) s).1.toOption.isSome = true := by
    decide +kernel
  generalize hrun : exec (generate (some sampleFolder) Path.here) s = run at hok
  obtain ⟨result, s'⟩ := run
  cases result with
  | ok result => exact ⟨result, s', rfl, generate_eq_ok hrun⟩
  | error fault => cases hok

-- The folder of the output is reached through a link of the output's own name.
def detourTree : Tree :=
  ((sampleTree.put ["r", "build", "tools"] (.link "../x/defaults.toml/..")).put ["r", "x", "d"]
    .folder).put ["r", "x", "defaults.toml"] (.link "d")

/-- The output may cut off the way to itself: then its path leads to no file. -/
theorem generate_cuts_off :
    let s := Session.fresh detourTree ["r"]
    let run := exec (generate (some sampleFolder) Path.here) s
    run.1.toOption = some (some (outputOf Path.here)) ∧
      Files.isFile run.2.tree s.current (outputOf Path.here) = false := by
  decide +kernel

/-! ## Failure -/

-- All fragments of a folder can be used.
def Usable (s : Session) (folder : Path) : Prop :=
  ∃ names tables, Lists s folder names ∧ Holds s folder names tables

/-- A fragment is the first of a folder that is no TOML, and the last that is signalled. -/
def StopsAt (s s' : Session) (folder fragment : Path) : Prop :=
  ∃ earlier name later tables, Lists s folder (earlier ++ name :: later) ∧
    Holds s folder earlier tables ∧ fragment = folder.child name ∧ IsMalformed s fragment ∧
    s'.signals = s.signals ++ watches folder (earlier ++ [name])

/-- What an aggregation that fails leaves behind, wherever it fails. All that stood in the tree
stands there still, the output among it. Folders may be new, on the way to that of the output, and
only once all fragments are read. -/
structure Failed (s s' : Session) (folder root : Path) (fault : Fault) : Prop where
  ends : Ends s folder root fault s'
  along : Files.GrowsAlong s.current (outputOf root).parent s.tree s'.tree
  kept : ∀ location node, Files.holder s.tree s.current (outputOf root) = .ok location →
    s.tree.get? (location ++ [outputName]) = some node →
      Files.holder s'.tree s.current (outputOf root) = .ok location ∧
        s'.tree.get? (location ++ [outputName]) = some node
  leads : ∀ location node,
    Files.find s.tree s.current (outputOf root) = .ok (.node location node) →
      Files.find s'.tree s.current (outputOf root) = .ok (.node location node)
  late : s'.tree = s.tree ∨ Usable s folder
  malformed : ∀ fragment, fault = .defaults (.malformed fragment) → StopsAt s s' folder fragment

variable {fault : Fault}

theorem Ends.along (h : Ends s folder root fault s') :
    Files.GrowsAlong s.current (outputOf root).parent s.tree s'.tree := by
  cases h with
  | listing _ => exact .refl _
  | fragment _ _ _ htree _ => exact htree ▸ .refl _
  | document _ _ _ htree _ => exact htree ▸ .refl _
  | output _ _ _ halong _ => exact halong

theorem Ends.late (h : Ends s folder root fault s') : s'.tree = s.tree ∨ Usable s folder := by
  cases h with
  | listing _ => exact .inl rfl
  | fragment _ _ _ htree _ => exact .inl htree
  | document _ _ _ htree _ => exact .inl htree
  | output hlist htables _ _ _ =>
    obtain ⟨names, rfl, hlists⟩ := fragments_eq_ok hlist
    exact .inr ⟨names, _, hlists, holds_of_mapM htables⟩

-- Neither the listing nor the output says that a fragment is no TOML.
theorem Ends.malformed {fragment : Path}
    (h : Ends s folder root (.defaults (.malformed fragment)) s') :
    StopsAt s s' folder fragment := by
  generalize hcause : Fault.defaults (.malformed fragment) = cause at h
  cases h with
  | listing hlist => exact absurd hcause.symm (fragments_ne_malformed hlist fragment)
  | document => cases hcause
  | output =>
    unfold unwritten Run.reporting at hcause
    split at hcause <;> cases hcause
  | fragment hlist hearlier hfragment _ hjournal =>
    subst hcause
    obtain ⟨names, hnames, hlists⟩ := fragments_eq_ok hlist
    obtain ⟨before, rest, rfl, rfl, hrest⟩ := List.map_eq_append_iff.mp hnames.symm
    obtain ⟨name, after, rfl, rfl, rfl⟩ := List.map_eq_cons_iff.mp hrest
    obtain ⟨rfl, hmalformed⟩ := isMalformed_of_settings hfragment
    refine ⟨before, name, after, _, hlists, holds_of_mapM hearlier, rfl, hmalformed, ?_⟩
    exact signals_of_openings (by rw [hjournal, List.map_append]; rfl)

-- What stands in a tree stays when only folders are added to it.
theorem failed_of_ends (h : Ends s folder root fault s') : Failed s s' folder root fault where
  ends := h
  along := h.along
  kept location node hholder hnode := by
    have hparent := Files.find_keeps h.along.grows.keeps (Files.holder_eq_ok.mp hholder)
    exact ⟨Files.holder_eq_ok.mpr hparent, h.along.grows.keeps _ _ hnode⟩
  leads _ _ := Files.find_keeps h.along.grows.keeps
  late := h.late
  malformed _ hmalformed := (hmalformed ▸ h).malformed

/-- Only an aggregation with a folder fails. -/
theorem generate_eq_error {folder? : Option Path}
    (h : exec (generate folder? root) s = (.error fault, s')) :
    ∃ folder, folder? = some folder ∧ Failed s s' folder root fault := by
  cases folder? with
  | none => cases (Prod.mk.inj h).1
  | some folder =>
    rw [generate, Run.exec_map] at h
    rcases hrun : exec (aggregate folder root) s with ⟨output, last⟩
    rw [hrun] at h
    obtain ⟨hfault, rfl⟩ := Prod.mk.inj h
    cases output with
    | ok output => cases hfault
    | error cause =>
      obtain rfl := Except.error.inj hfault
      exact ⟨folder, rfl, failed_of_ends (ends_of_exec hrun)⟩

-- The second fragment is no TOML.
def malformedTree : Tree :=
  sampleTree.put ["r", "d", "b.toml"] (.file (Utf8.ofString "b ="))

theorem generate_eq_error_sample :
    let s := Session.fresh malformedTree ["r"]
    ∃ fault s', exec (generate (some sampleFolder) Path.here) s = (.error fault, s') ∧
      fault.message = "d/b.toml is not valid TOML: malformed document" ∧
      ∃ folder, some sampleFolder = some folder ∧ Failed s s' folder Path.here fault := by
  intro s
  have hmessage : (exec (generate (some sampleFolder) Path.here) s).1.mapError Fault.message =
      .error "d/b.toml is not valid TOML: malformed document" := by
    decide +kernel
  generalize hrun : exec (generate (some sampleFolder) Path.here) s = run at hmessage
  obtain ⟨result, s'⟩ := run
  cases result with
  | ok result => cases hmessage
  | error fault => exact ⟨fault, s', rfl, Except.error.inj hmessage, generate_eq_error hrun⟩

/-- A folder may be new in the place of the output, if the way to its folder leads through that
place. -/
theorem generate_in_place :
    let s := Session.fresh ((sampleTree.erase ["r", "build", "tools", "defaults.toml"]).erase
      ["r", "build", "tools"]) ["r"]
    let root := Path.ofString "build/tools/defaults.toml/../../.."
    let run := exec (generate (some sampleFolder) root) s
    run.1.toOption = none ∧
      Files.find s.tree s.current (outputOf root) = .error .absent ∧
      Files.find run.2.tree s.current (outputOf root) =
        .ok (.node ["r", "build", "tools", "defaults.toml"] .folder) := by
  decide +kernel

end BuildHook.Defaults
