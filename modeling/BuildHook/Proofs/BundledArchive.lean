import BuildHook.Proofs.Commands
import BuildHook.Proofs.ImageOutput
import BuildHook.Proofs.Listing
import BuildHook.Proofs.RealPaths
import BuildHook.Proofs.Requests
import BuildHook.Proofs.ShellWords

/-!
# Which archive is unpacked

The script that bundles modules unpacks the file of a name in the folder of the package, by its
resolved path. This is where the file was stored if no path is declared for it or the path is a name
only; in a folder of its own the script does not find it.
-/

namespace BuildHook

open Run (exec)

/-! ## The commands of the script -/

namespace ExternalFile

/-- The commands that unpack the archive of a name, collect its modules and pack them. -/
def bundleCommands (f : ExternalFile) (archive : String) : List Shell.Command :=
  [ ⟨["set", "-euo", "pipefail"], none⟩,
    ⟨["tar", "-xf", archive], none⟩,
    ⟨["pushd", f.rootText archive], some "/dev/null"⟩,
    ⟨["go", "mod", "vendor"], none⟩,
    ⟨["popd"], some "/dev/null"⟩,
    ⟨["tar", "-czf", f.outputText archive, f.rootText archive ++ "/vendor"], none⟩,
    ⟨["rm", "-rf", f.rootText archive], none⟩ ]

theorem bundleLines_eq (f : ExternalFile) (archive : String) :
    f.bundleLines archive = (f.bundleCommands archive).map Shell.Command.line := by
  have hplain : ["set", "-euo", "pipefail", "tar", "-xf", "pushd", "/dev/null", "go", "mod",
      "vendor", "popd", "-czf", "rm", "-rf"].all
        (fun word => decide (Shell.quote word = word)) = true := by
    decide +kernel
  simp only [List.all_cons, List.all_nil, Bool.and_true, Bool.and_eq_true,
    decide_eq_true_eq] at hplain
  simp only [bundleLines, bundleCommands, List.map_cons, List.map_nil, Shell.Command.line, hplain,
    String.intercalate_cons_cons, String.intercalate_singleton]
  simp [← String.toList_inj]

/-- The script is read back as its commands, whatever characters are in the name and the paths. -/
theorem commands?_bundleLines (f : ExternalFile) (archive : String) :
    Shell.commands? (String.intercalate "\n" (f.bundleLines archive)) =
      some (f.bundleCommands archive) := by
  rw [bundleLines_eq, Shell.commands?_script]
  simp [bundleCommands]

/-- The script of a file is read back as seven commands, in which the name of the archive and the
two paths are words of their own, whatever characters are in them. -/
theorem commands?_bundleScript (f : ExternalFile) :
    f.bundleScript.map Shell.commands? = f.localName.map fun archive =>
      let root := (f.bundleRoot.map Path.text).getD (dropArchiveEnding archive)
      let output := (f.bundleOutput.map Path.text).getD ("bundled-" ++ archive)
      some
        [ ⟨["set", "-euo", "pipefail"], none⟩,
          ⟨["tar", "-xf", archive], none⟩,
          ⟨["pushd", root], some "/dev/null"⟩,
          ⟨["go", "mod", "vendor"], none⟩,
          ⟨["popd"], some "/dev/null"⟩,
          ⟨["tar", "-czf", output, root ++ "/vendor"], none⟩,
          ⟨["rm", "-rf", root], none⟩ ] := by
  have hroot : ∀ archive, f.rootText archive =
      (f.bundleRoot.map Path.text).getD (dropArchiveEnding archive) := by
    intro archive
    unfold rootText
    cases f.bundleRoot <;> rfl
  have houtput : ∀ archive, f.outputText archive =
      (f.bundleOutput.map Path.text).getD ("bundled-" ++ archive) := by
    intro archive
    unfold outputText
    cases f.bundleOutput <;> rfl
  unfold bundleScript
  cases f.localName with
  | error fault => rfl
  | ok archive =>
    simp only [Except.map, commands?_bundleLines, bundleCommands, hroot, houtput]

-- A name that would be four commands without quotes, and a root that would be a pattern.
example :
    let f : ExternalFile :=
      ⟨"", "", some (.ofString "it's\n$(rm -rf ~); a.tar"), false, none, some (.ofString "* *"), none⟩
    (f.bundleScript.map fun script => (Shell.commands? script).map List.length) = .ok (some 7) := by
  decide +kernel

end ExternalFile

/-! ## Where the last step of a path is looked up -/

namespace Files

variable {t : Tree} {current folder : Location} {bound : Nat} {p : Path} {name : String}

/-- The path leads to a folder, and from there by one more step. -/
def EndsIn (t : Tree) (current : Location) (p : Path) (folder : Location) (name : String) : Prop :=
  find t current p.parent = .ok (.node folder .folder) ∧ p.steps.getLast? = some name

theorem EndsIn.unique {other : Location} {last : String} (h : EndsIn t current p folder name)
    (h' : EndsIn t current p other last) : folder = other ∧ name = last :=
  ⟨(Place.node.inj (Except.ok.inj (h.1.symm.trans h'.1))).1,
    Option.some.inj (h.2.symm.trans h'.2)⟩

theorem endsIn_name (t : Tree) (folder : Location) (h : IsStep name) :
    EndsIn t folder (.ofString name) folder name := by
  rw [EndsIn, Path.ofString_of_isStep h]
  exact ⟨rfl, rfl⟩

-- Whether links leave paths short enough to be followed, which can be tested.
def isRoomy (t : Tree) (bound : Nat) : Bool :=
  t.entries.all fun (place, node) =>
    match node with
    | .link target => (linkSteps target).count ".." ≤ bound &&
        (pathOf place).text.utf8ByteSize + 3 * (bound * (linkLimit + 1)) < pathLimit
    | _ => true

theorem roomy_of_isRoomy (h : isRoomy t bound = true) : Roomy t bound := by
  have hlink : ∀ location target, t.get? location = some (.link target) →
      (linkSteps target).count ".." ≤ bound ∧
        (pathOf location).text.utf8ByteSize + 3 * (bound * (linkLimit + 1)) < pathLimit := by
    intro location target hget
    rw [Tree.get?] at hget
    split at hget
    · cases hget
    · have hentry := List.all_eq_true.mp h _ (Tree.mem_of_lookup hget)
      simpa using hentry
  exact ⟨fun location target hget => (hlink location target hget).1,
    fun location target hget => (hlink location target hget).2⟩

end Files

theorem Path.parent_join (p : Path) {q : Path} (h : q.steps ≠ []) :
    (p.join q).parent = p.join q.parent := by
  unfold join
  cases hanchor : q.anchor with
  | relative =>
    have hparent : q.parent.anchor = .relative := hanchor
    simp only [hparent]
    exact Path.ext rfl (List.dropLast_append_of_ne_nil h)
  | absolute =>
    have hparent : q.parent.anchor = .absolute := hanchor
    simp only [hparent]
  | doubled =>
    have hparent : q.parent.anchor = .doubled := hanchor
    simp only [hparent]

theorem Path.join_here (p : Path) : p.join .here = p :=
  Path.ext rfl (List.append_nil p.steps)

/-- A file is stored in the folder that its declared path lies in, or else in that of the
package. -/
theorem ExternalFile.parent_target {f : ExternalFile} {name : String} (h : f.localName = .ok name)
    (hne : name ≠ "") (folder : Path) :
    (f.target folder name).parent = folder.join ((f.path.map Path.parent).getD .here) := by
  have hstep := isStep_localName h hne
  unfold localName at h
  unfold target
  cases hpath : f.path with
  | none => exact (folder.child_of_isStep hstep).1.trans folder.join_here.symm
  | some path =>
    rw [hpath] at h
    obtain rfl := Except.ok.inj h
    refine folder.parent_join fun hnil => hne ?_
    simp [Path.name, hnil]

/-! ## The archive that is unpacked -/

namespace Bundle

variable {root package : Path} {f : ExternalFile} {image : String} {s : Session}
  {argv : List String} {here : Location} {bound : Nat}

/-- The folder that the container of a command works in. -/
def workFolder? (argv : List String) : Option Path :=
  ((Image.options (argv.drop 3)).lookup "-w").map Path.ofString

/-- The archive that the script of a command unpacks first. -/
def archive? (argv : List String) : Option Path := do
  let script ← argv.getLast?
  let commands ← Shell.commands? script
  commands.findSome? fun command =>
    match command.words with
    | ["tar", "-xf", archive] => some (.ofString archive)
    | _ => none

theorem workFolder_argv (root package : Path) (image script : String) :
    workFolder? (Bundle.argv root package image script) = some package := by
  have hoption : (Image.options ((Bundle.argv root package image script).drop 3)).lookup "-w" =
      some package.text := rfl
  rw [workFolder?, hoption, Option.map_some, package.ofString_text]

theorem archive_argv (root package : Path) (image name : String) (f : ExternalFile) :
    archive? (Bundle.argv root package image (String.intercalate "\n" (f.bundleLines name))) =
      some (.ofString name) := by
  have hscript : (Bundle.argv root package image
      (String.intercalate "\n" (f.bundleLines name))).getLast? =
        some (String.intercalate "\n" (f.bundleLines name)) := rfl
  rw [archive?, hscript, Option.bind_eq_bind, Option.bind_some, f.commands?_bundleLines]
  rfl

/-- The container of a command works in the folder of the package, and unpacks the file of a name
there. The file that was fetched is the same one just if it was stored in this folder, as it is if
its declared path is a name only. -/
structure Unpacks (s : Session) (package : Path) (f : ExternalFile) (argv : List String)
    (here : Location) (name : String) (archive : Path) : Prop where
  named : f.localName = .ok name
  works : ∃ work, workFolder? argv = some work ∧
    Files.find s.tree s.current work = .ok (.node here .folder)
  unpacked : archive? argv = some archive
  /-- Seen from there, the archive is the file of the name. -/
  ends : Files.EndsIn s.tree here archive here name
  /-- Where the file was stored, the archive is just if that folder is the same. -/
  stored : ∀ folder last, Files.EndsIn s.tree s.current (f.target package name) folder last →
    (Files.EndsIn s.tree here archive folder last ↔ folder = here)
  beside : (∀ path ∈ f.path, path.parent = .here) →
    Files.EndsIn s.tree s.current (f.target package name) here name

theorem command_of_event {folder : Option String}
    (h : .command argv folder ∈ (exec (run root package f image) s).2.since s) :
    command root package f image s.tree s.current = .ok argv := by
  rw [exec_run] at h
  cases hcommand : command root package f image s.tree s.current with
  | error fault =>
    rw [hcommand, Session.since_self] at h
    cases h
  | ok words =>
    rw [hcommand] at h
    rw [(Run.started_of_mem h).1]

/-- Whatever path is declared for a file that has a name, its modules are bundled from the file of
that name in the folder of the package. -/
theorem unpacks_archive {folder : Option String}
    (h : .command argv folder ∈ (exec (run root package f image) s).2.since s)
    (hne : f.localName ≠ .ok "") (hcurrent : Files.IsReal s.tree s.current)
    (hroom : Files.Roomy s.tree bound) (hups : Files.ups package ≤ bound)
    (hhere : Files.find s.tree s.current package = .ok (.node here .folder)) :
    ∃ name archive, Unpacks s package f argv here name archive := by
  obtain ⟨_, work, name, -, hwork, -, hname, rfl⟩ := command_eq_ok (command_of_event h)
  have hname_ne : name ≠ "" := fun heq => hne (heq ▸ hname)
  have hstep := ExternalFile.isStep_localName hname hname_ne
  have hzero : package.hasZero = false := by
    by_contra hzero
    rw [Files.resolve, if_pos (by simpa using hzero)] at hwork
    cases hwork
  obtain ⟨hreal, hfind⟩ := Files.resolve_of_find hroom hups hcurrent hzero hhere
  obtain rfl := Except.ok.inj (hwork.symm.trans hreal)
  have harchive := Files.endsIn_name s.tree here hstep
  have hlast := ExternalFile.getLast?_target hname hname_ne package
  refine ⟨name, .ofString name, hname, ⟨_, workFolder_argv _ _ _ _, hfind⟩,
    archive_argv _ _ _ _ _, harchive, fun folder last hstored => ?_, fun hbare => ⟨?_, hlast⟩⟩
  · obtain rfl := Option.some.inj (hlast.symm.trans hstored.2)
    exact ⟨fun hends => (harchive.unique hends).1.symm, fun heq => heq ▸ harchive⟩
  · have hparent : (f.target package name).parent = package := by
      rw [ExternalFile.parent_target hname hname_ne]
      cases hpath : f.path with
      | none => exact package.join_here
      | some path =>
        rw [Option.map_some, hbare path hpath]
        exact package.join_here
    rw [hparent, hhere]

-- The package is named by a link to its folder.
def linkedSample : Tree where
  entries := [(["r"], .folder), (["r", "q"], .folder), (["r", "q", "a.tar"], .file []),
    (["r", "p"], .link "./q")]
  distinct := by decide

def archiveSample (path : Option Path) : ExternalFile :=
  ⟨"https://h/a.tar", "", path, false, some [.go], none, none⟩

theorem unpacks_archive_sample :
    let s := Session.fresh linkedSample ["r"]
    let f := archiveSample none
    let script := String.intercalate "\n" (f.bundleLines "a.tar")
    let argv := Bundle.argv (.ofString "/r") (.ofString "/r/q") "sdk" script
    .command argv none ∈ (exec (run .here (.ofString "p") f "sdk") s).2.since s ∧
      f.localName ≠ .ok "" ∧ Files.IsReal s.tree s.current ∧ Files.Roomy s.tree 1 ∧
      Files.ups (.ofString "p") ≤ 1 ∧
      Files.find s.tree s.current (.ofString "p") = .ok (.node ["r", "q"] .folder) ∧
      ∃ name archive, Unpacks s (.ofString "p") f argv ["r", "q"] name archive := by
  intro s f script argv
  have hmem : .command argv none ∈ (exec (run .here (.ofString "p") f "sdk") s).2.since s := by
    decide +kernel
  have hname : f.localName ≠ .ok "" := by decide +kernel
  have hreal : Files.IsReal s.tree s.current :=
    have hstep : IsStep "r" := by decide
    (Files.isReal_nil _).child hstep (by decide) (by decide)
  have hroom : Files.Roomy s.tree 1 := Files.roomy_of_isRoomy (by decide +kernel)
  have hups : Files.ups (.ofString "p") ≤ 1 := by decide +kernel
  have hhere : Files.find s.tree s.current (.ofString "p") = .ok (.node ["r", "q"] .folder) := by
    decide +kernel
  exact ⟨hmem, hname, hreal, hroom, hups, hhere,
    unpacks_archive hmem hname hreal hroom hups hhere⟩

-- A package with an archive in a folder of its own.
def nestedSample : Tree where
  entries := [(["r"], .folder), (["r", "dist"], .folder), (["r", "dist", "a.tar"], .file [])]
  distinct := by decide

/-- An archive with a longer path is stored in one folder and looked for in another, where nothing
stands. -/
theorem archive_apart :
    let s := Session.fresh nestedSample ["r"]
    let f := archiveSample (some (.ofString "dist/a.tar"))
    let script := String.intercalate "\n" (f.bundleLines "a.tar")
    let argv := Bundle.argv (.ofString "/r") (.ofString "/r") "sdk" script
    .command argv none ∈ (exec (run .here .here f "sdk") s).2.since s ∧
      f.localName = .ok "a.tar" ∧
      Files.find s.tree s.current (f.target .here "a.tar") =
        .ok (.node ["r", "dist", "a.tar"] (.file [])) ∧
      workFolder? argv = some (.ofString "/r") ∧ archive? argv = some (.ofString "a.tar") ∧
      Files.find s.tree s.current (.ofString "/r") = .ok (.node ["r"] .folder) ∧
      Files.find s.tree ["r"] (.ofString "a.tar") = .ok (.vacant ["r"] "a.tar") := by
  decide +kernel

end Bundle

end BuildHook
