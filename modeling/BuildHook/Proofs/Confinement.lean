import BuildHook.Proofs.BundledArchive
import BuildHook.Proofs.Fetching

/-!
# Changes inside the folder of a package

What fetching external files changes, and what the script that bundles modules packs and removes.
All of it is named by paths into the folder of the package, as long as no declared path leads out of
it. Nothing checks whether one does.
-/

namespace BuildHook

open Run (exec)

/-! ## Changes under given paths -/

namespace Files

/-- Paths up to which folders may be made, and paths under which files may be changed. -/
structure Bounds where
  folders : Path → Prop
  files : Path → Prop

/-- One change of a tree, under paths within bounds. -/
inductive Edit (b : Bounds) (current : Location) (t : Tree) : Tree → Prop
  | folders {p : Path} (h : b.folders p) : Edit b current t (makeFolders t current p).1
  | write {p : Path} {content : List UInt8} {t' : Tree} (h : b.files p)
    (hwrite : write t current p content = .ok t') : Edit b current t t'
  | rename {p q : Path} {t' : Tree} (h : b.files p) (hgoal : b.files q)
    (hrename : rename t current p q = .ok t') : Edit b current t t'
  | remove {p : Path} {t' : Tree} (h : b.files p) (hremove : remove t current p = .ok t') :
    Edit b current t t'

abbrev Edits (b : Bounds) (current : Location) : Tree → Tree → Prop :=
  Relation.ReflTransGen (Edit b current)

variable {b : Bounds} {t t' : Tree} {current : Location} {p q draft target : Path}

/-! ## Trees without links -/

/-- Places that none of the paths for files names are as before, besides new folders on the ways to
the paths for folders. -/
def Spares (b : Bounds) (current : Location) (t t' : Tree) : Prop :=
  ∀ location, (∀ p, b.files p → byName current p ≠ location) →
    t'.get? location = t.get? location ∨
      t.get? location = none ∧ t'.get? location = some .folder ∧
        ∃ p q, b.folders p ∧ p.isWithin q = true ∧ byName current q = location

theorem Spares.refl (t : Tree) : Spares b current t t :=
  fun _ _ => .inl rfl

theorem Spares.trans {t'' : Tree} (h : Spares b current t t') (h' : Spares b current t' t'') :
    Spares b current t t'' :=
  fun location hfree => Tree.filled_trans (P := fun node => node = some .folder ∧ ∃ p q,
    b.folders p ∧ p.isWithin q = true ∧ byName current q = location) (by simp)
    (h location hfree) (h' location hfree)

theorem spares_put (hne : byName current p ≠ []) (h : b.files p) (node : Node) :
    Spares b current t (t.put (byName current p) node) := by
  intro location hfree
  rw [Tree.get?_put t hne, if_neg (hfree p h)]
  exact .inl rfl

theorem spares_erase (hne : byName current p ≠ []) (h : b.files p) :
    Spares b current t (t.erase (byName current p)) := by
  intro location hfree
  rw [Tree.get?_erase t hne, if_neg (hfree p h)]
  exact .inl rfl

/-- A change that leaves the tree without links. -/
theorem Edit.spares (h : Edit b current t t') (hlinks : t.LinkFree) :
    t'.LinkFree ∧ Spares b current t t' := by
  cases h with
  | @folders p hp =>
    have hfree := hlinks.grows (grows_makeFolders t current p)
    refine ⟨hfree, fun location _ => ?_⟩
    rcases growsAlong_makeFolders t current p location with hsame | ⟨hnone, hfolder, q, hway, hfind⟩
    · exact .inl hsame
    · exact .inr ⟨hnone, hfolder, p, q, hp, hway, (find_linkFree hfree hfind).symm⟩
  | write hp hwrite =>
    obtain ⟨hne, rfl⟩ := write_linkFree hlinks hwrite
    exact ⟨hlinks.put hne nofun, spares_put hne hp _⟩
  | @rename p q _ hp hq hrename =>
    obtain ⟨hne, hne', node, hnode, rfl⟩ := rename_linkFree hlinks hrename
    have hfree := hlinks.erase hne
    exact ⟨hfree.put hne' fun target heq => hlinks _ target (heq ▸ hnode),
      (spares_erase hne hp).trans (spares_put hne' hq node)⟩
  | remove hp hremove =>
    obtain ⟨hne, rfl⟩ := remove_linkFree hlinks hremove
    exact ⟨hlinks.erase hne, spares_erase hne hp⟩

theorem Edits.spares (h : Edits b current t t') (hlinks : t.LinkFree) :
    t'.LinkFree ∧ Spares b current t t' := by
  induction h with
  | refl => exact ⟨hlinks, .refl t⟩
  | tail _ hedit ih =>
    obtain ⟨hfree, hspares⟩ := ih
    obtain ⟨hlast, hspares'⟩ := hedit.spares hfree
    exact ⟨hlast, hspares.trans hspares'⟩

end Files

/-! ## Fetching -/

namespace Licence

variable {b : Files.Bounds} {current : Location} {draft target : Path}

/-- The licence for any number of changes within bounds. -/
def editing (b : Files.Bounds) (current : Location) : Licence :=
  ⟨fun _ _ => True, Files.Edits b current⟩

theorem stores_editing (hfolders : b.folders draft.parent) (hdraft : b.files draft)
    (htarget : ∀ name, Files.lastName target = some name → b.files target) :
    (editing b current).Stores current draft target where
  folders _ := .single (.folders hfolders)
  write _ _ _ hwrite := .single (.write hdraft hwrite)
  rename _ _ hrename :=
    have hlast := (Files.lastName_of_rename hrename).2
    .single (.rename hdraft (hlast.elim htarget) hrename)
  remove t t' hremove := by
    unfold Files.removeIfThere at hremove
    split at hremove
    · obtain rfl := Except.ok.inj hremove
      exact .refl
    · exact .single (.remove hdraft hremove)

end Licence

namespace ExternalFile

variable {f : ExternalFile} {name : String} {current : Location} {folder : Path}

/-- The folder in which the file is stored is that of the package or in it, by its name. -/
def StoresInside (f : ExternalFile) (current : Location) (folder : Path) : Prop :=
  ∀ path ∈ f.path, path.name ≠ "" → Files.Holds current folder (folder.join path.parent)

theorem StoresInside.holds (h : f.StoresInside current folder) (hname : f.localName = .ok name)
    (hne : name ≠ "") : Files.Holds current folder (f.target folder name).parent := by
  rw [parent_target hname hne]
  unfold localName at hname
  cases hpath : f.path with
  | none =>
    rw [Option.map_none, Option.getD_none, folder.join_here]
    exact List.prefix_rfl
  | some path =>
    rw [hpath] at hname
    obtain rfl := Except.ok.inj hname
    exact h path hpath hne

end ExternalFile

namespace Lookaside

variable {s : Session}

/-- Where a fetch may make folders and change files: up to the folders of the targets, and inside the
folder of the package. -/
def bounds (a : Lookaside) (files : List ExternalFile) (current : Location) : Files.Bounds where
  folders p := ∃ f ∈ files, ∃ name, f.localName = .ok name ∧ p = (f.target a.folder name).parent
  files := Files.Inside current a.folder

theorem edits_fetch (a : Lookaside) {files : List ExternalFile}
    (h : ∀ f ∈ files, f.StoresInside s.current a.folder) :
    Files.Edits (a.bounds files s.current) s.current s.tree (exec (a.fetch files) s).2.tree := by
  have hstores : ∀ f ∈ files, ∀ name, f.localName = .ok name → name ≠ "" →
      (Licence.editing (a.bounds files s.current) s.current).Stores s.current
        (f.temporary a.folder name) (f.target a.folder name) := by
    intro f hf name hname hne
    have hholds := (h f hf).holds hname hne
    have hparent := ExternalFile.parent_temporary hname hne a.folder
    refine Licence.stores_editing ⟨f, hf, name, hname, hparent⟩ ?_ fun last hlast =>
      Files.inside_of_parent hholds hlast
    have hdotted := isStep_dotted (ExternalFile.isStep_localName hname hne)
    exact Files.inside_of_parent (hparent ▸ hholds) (Files.lastName_child _ hdotted.1 hdotted.2)
  have hallows : (Licence.editing (a.bounds files s.current) s.current).Allows (a.fetch files) s :=
    Licence.Stores.fetch hstores (fun _ _ _ _ _ => trivial) (fun _ _ _ => trivial)
      fun _ _ => trivial
  have htree := Licence.Steps.tree hallows
  rwa [Licence.editing, Relation.reflTransGen_eq_self] at htree

end Lookaside

/-! ## The script -/

namespace Shell

/-- The commands of a script with the folders in which they run; `pushd` leads to a folder and `popd`
back. -/
def located : (here : Path) → (back : List Path) → List Command → List (Path × Command)
  | _, _, [] => []
  | here, back, command :: rest =>
    (here, command) ::
      match command.words, back with
      | ["pushd", folder], back => located (here.child folder) (here :: back) rest
      | ["popd"], last :: back => located last back rest
      | _, back => located here back rest

/-- The archive that a command packs. -/
def packed : Path × Command → List Path
  | (here, command) =>
    match command.words with
    | "tar" :: "-czf" :: archive :: _ => [here.child archive]
    | _ => []

/-- What a command removes. -/
def removed : Path × Command → List Path
  | (here, command) =>
    match command.words with
    | "rm" :: "-rf" :: goals => goals.map here.child
    | _ => []

end Shell

namespace ExternalFile

variable {f : ExternalFile} {archive : String} {current : Location} {folder : Path}

theorem packed_bundleCommands (f : ExternalFile) (archive : String) (folder : Path) :
    (Shell.located folder [] (f.bundleCommands archive)).flatMap Shell.packed =
      [folder.child (f.outputText archive)] :=
  rfl

theorem removed_bundleCommands (f : ExternalFile) (archive : String) (folder : Path) :
    (Shell.located folder [] (f.bundleCommands archive)).flatMap Shell.removed =
      [folder.child (f.rootText archive)] :=
  rfl

/-- An output that is declared is inside the folder. -/
def PacksInside (f : ExternalFile) (current : Location) (folder : Path) : Prop :=
  ∀ output ∈ f.bundleOutput, Files.Inside current folder (folder.join output)

/-- A root that is declared is inside the folder, and one that is taken from the archive is a name. -/
def ClearsInside (f : ExternalFile) (current : Location) (folder : Path) : Prop :=
  match f.bundleRoot with
  | some root => Files.Inside current folder (folder.join root)
  | none => ∀ archive, f.localName = .ok archive →
      dropArchiveEnding archive ∉ ["", ".", ".."]

theorem slash_notMem_localName (h : f.localName = .ok archive) : '/' ∉ archive.toList := by
  by_cases hempty : archive = ""
  · simp [hempty]
  · exact (isStep_localName h hempty).2.2

theorem prefix_of_dropArchiveEnding (name : String) :
    (dropArchiveEnding name).toList <+: name.toList := by
  rw [dropArchiveEnding]
  split
  · rw [String.toList_ofList]
    exact List.take_prefix _ _
  · exact List.prefix_rfl

theorem inside_outputText (h : f.localName = .ok archive) (hpacks : f.PacksInside current folder) :
    Files.Inside current folder (folder.child (f.outputText archive)) := by
  unfold outputText
  cases houtput : f.bundleOutput with
  | some output =>
    dsimp only
    rw [Path.child, output.ofString_text]
    exact hpacks output houtput
  | none =>
    have hne : ∀ other : String, other.length < 8 → "bundled-" ++ archive ≠ other := by
      rintro _ hshort rfl
      rw [String.length_append] at hshort
      exact absurd hshort (Nat.not_lt.mpr (Nat.le_add_right 8 _))
    have hslash : '/' ∉ ("bundled-" ++ archive).toList := by
      rw [String.toList_append, List.mem_append, not_or]
      exact ⟨by decide, slash_notMem_localName h⟩
    exact Files.inside_child ⟨hne "" (by decide), hne "." (by decide), hslash⟩
      (hne ".." (by decide))

theorem inside_rootText (h : f.localName = .ok archive) (hclears : f.ClearsInside current folder) :
    Files.Inside current folder (folder.child (f.rootText archive)) := by
  unfold ClearsInside at hclears
  unfold rootText
  cases hroot : f.bundleRoot with
  | some root =>
    rw [hroot] at hclears
    dsimp only
    rw [Path.child, root.ofString_text]
    exact hclears
  | none =>
    rw [hroot] at hclears
    have hname := hclears archive h
    simp only [List.mem_cons, List.not_mem_nil, or_false, not_or] at hname
    obtain ⟨hempty, hstay, hup⟩ := hname
    have hslash : '/' ∉ (dropArchiveEnding archive).toList := fun hmem =>
      slash_notMem_localName h ((prefix_of_dropArchiveEnding archive).subset hmem)
    exact Files.inside_child ⟨hempty, hstay, hslash⟩ hup

end ExternalFile

/-! ## All changes for a package -/

namespace Lookaside

variable {s s' : Session}

/-- What a fetch changes: files inside the folder of the package, by their names. In a tree without
links nothing else is different afterwards, besides new folders on the ways to the targets. -/
structure Confined (a : Lookaside) (files : List ExternalFile) (s s' : Session) : Prop where
  edits : Files.Edits (a.bounds files s.current) s.current s.tree s'.tree
  outside : s.tree.LinkFree → ∀ location,
    ¬ Files.Within (Files.byName s.current a.folder) location →
      s'.tree.get? location = s.tree.get? location ∨
        s.tree.get? location = none ∧ s'.tree.get? location = some .folder ∧
          ∃ f ∈ files, ∃ name way, f.localName = .ok name ∧
            (f.target a.folder name).parent.isWithin way = true ∧
            Files.byName s.current way = location

theorem confined_of_edits {a : Lookaside} {files : List ExternalFile}
    (h : Files.Edits (a.bounds files s.current) s.current s.tree s'.tree) :
    a.Confined files s s' := by
  refine ⟨h, fun hlinks location hout => ?_⟩
  have hspared := (h.spares hlinks).2 location fun p hp heq => hout (heq ▸ hp)
  refine hspared.imp_right fun ⟨hnone, hfolder, p, way, hbound, hway, hplace⟩ => ?_
  obtain ⟨f, hf, name, hname, rfl⟩ := hbound
  exact ⟨hnone, hfolder, f, hf, name, way, hname, hway, hplace⟩

/-- What a fetch changes is inside the folder of the package unless the folder of a declared path is
outside. What the script of a file packs there and what it removes is one path each. They are inside
the folder too if the declared ones are; a root that is not declared has to be a name. -/
theorem changes_inside (a : Lookaside) (files : List ExternalFile) (s : Session) :
    ((∀ f ∈ files, f.StoresInside s.current a.folder) →
        a.Confined files s (exec (a.fetch files) s).2) ∧
      ∀ f ∈ files, ∀ script, f.bundleScript = .ok script →
        ∃ commands output root, Shell.commands? script = some commands ∧
          (Shell.located a.folder [] commands).flatMap Shell.packed = [output] ∧
          (Shell.located a.folder [] commands).flatMap Shell.removed = [root] ∧
          (f.PacksInside s.current a.folder → Files.Inside s.current a.folder output) ∧
          (f.ClearsInside s.current a.folder → Files.Inside s.current a.folder root) := by
  refine ⟨fun h => confined_of_edits (a.edits_fetch h), fun f _ script hscript => ?_⟩
  cases hname : f.localName with
  | error fault =>
    rw [ExternalFile.bundleScript, hname] at hscript
    cases hscript
  | ok archive =>
    rw [ExternalFile.bundleScript, hname] at hscript
    obtain rfl := Except.ok.inj hscript
    exact ⟨_, _, _, f.commands?_bundleLines archive, f.packed_bundleCommands archive a.folder,
      f.removed_bundleCommands archive a.folder, ExternalFile.inside_outputText hname,
      ExternalFile.inside_rootText hname⟩

theorem changes_inside_sample :
    let f := emptyFile "d/y"
    let s := replying f emptyFolder
    f.StoresInside s.current sample.folder ∧
      sample.Confined [f] s (exec (sample.fetch [f]) s).2 ∧
      ∃ script commands output root, f.bundleScript = .ok script ∧
        Shell.commands? script = some commands ∧
        (Shell.located sample.folder [] commands).flatMap Shell.packed = [output] ∧
        (Shell.located sample.folder [] commands).flatMap Shell.removed = [root] ∧
        Files.Inside s.current sample.folder output ∧ Files.Inside s.current sample.folder root := by
  intro f s
  have hstores : f.StoresInside s.current sample.folder := by
    rintro path hpath -
    obtain rfl : Path.ofString "d/y" = path := Option.some.inj hpath
    decide +kernel
  have hroot : f.ClearsInside s.current sample.folder := by
    intro archive hname
    obtain rfl : "y" = archive := Except.ok.inj hname
    decide +kernel
  obtain ⟨hfetch, hscripts⟩ := changes_inside sample [f] s
  obtain ⟨commands, output, root, hcommands, hpacked, hremoved, houtput, hcleared⟩ :=
    hscripts f (List.mem_singleton.mpr rfl) _ rfl
  refine ⟨hstores, hfetch ?_, _, commands, output, root, rfl, hcommands, hpacked, hremoved,
    houtput nofun, hcleared hroot⟩
  intro g hg
  obtain rfl := List.mem_singleton.mp hg
  exact hstores

-- Files with an output and a root elsewhere, and one with a name that is nothing but an ending.
def straying : List ExternalFile :=
  [ { emptyFile "y" with bundleOutput := some (.ofString "../y") },
    { emptyFile "y" with bundleRoot := some (.ofString "/") },
    emptyFile ".tar.gz" ]

/-- A file is stored beside the folder of the package, and scripts pack or remove something that is
not inside the folder. -/
theorem changes_outside :
    let f := emptyFile "../x"
    let s := replying f emptyFolder
    (Files.byName s.current sample.folder = ["r", "p"] ∧ emptyFolder.get? ["r", "x"] = none ∧
        (exec (sample.fetch [f]) s).2.tree.get? ["r", "x"] = some (.file [])) ∧
      ∀ g ∈ straying, (g.bundleScript.toOption.bind Shell.commands?).any fun commands =>
        ((Shell.located sample.folder [] commands).flatMap fun command =>
            Shell.packed command ++ Shell.removed command).any fun path =>
          !decide (Files.Inside s.current sample.folder path) := by
  decide +kernel

end Lookaside

end BuildHook
