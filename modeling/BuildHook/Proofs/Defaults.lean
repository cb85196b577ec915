import BuildHook.Proofs.Reading
import BuildHook.Proofs.Refusals
import BuildHook.Proofs.Walk
import Mathlib.Data.List.Nodup
import Mathlib.Data.List.Perm.Subperm

/-!
# Writing the default settings

The merged settings take the place of what stood there in one step, through a temporary file of a
name that nothing has. If that fails, the tree is left as it was but for new folders.
-/

namespace BuildHook

theorem Tree.lookup_eq_none {location : Location} {entries : List (Location × Node)}
    (h : location ∉ entries.map Prod.fst) : lookup location entries = none := by
  induction entries with
  | nil => rfl
  | cons entry rest ih =>
    rw [List.map_cons, List.mem_cons, not_or] at h
    rw [lookup, if_neg (Ne.symm h.1)]
    exact ih h.2

namespace Defaults

open Run (exec)

/-! ## Names that are free -/

theorem temporaryName_toList (n : Nat) :
    (temporaryName n).toList = "defaults.toml.".toList ++ Nat.toDigits 10 n ++ ".tmp".toList := by
  have hdigits : (toString n).toList = Nat.toDigits 10 n := by
    rw [Nat.toString_eq_ofList_toDigits, String.toList_ofList]
  unfold temporaryName outputName
  rw [String.toList_append, String.toList_append, String.toList_append, hdigits]
  rfl

theorem temporaryName_injective : Function.Injective temporaryName := by
  intro m n h
  have hlist := congrArg String.toList h
  rw [temporaryName_toList, temporaryName_toList] at hlist
  have hdigits := List.append_cancel_left (List.append_cancel_right hlist)
  rw [← Nat.ofDigitChars_ten_toDigits (n := m), hdigits, Nat.ofDigitChars_ten_toDigits]

theorem isStep_temporaryName (n : Nat) : IsStep (temporaryName n) := by
  have hlist := temporaryName_toList n
  refine ⟨fun h => ?_, fun h => ?_, ?_⟩
  · rw [h] at hlist
    simp at hlist
  · rw [h] at hlist
    simp at hlist
  · rw [hlist]
    intro hmem
    have hdigit : '/' ∈ Nat.toDigits 10 n := by simpa using hmem
    have := Nat.isDigit_of_mem_toDigits (by decide) (by decide) hdigit
    simp at this

theorem temporaryName_ne_up (n : Nat) : temporaryName n ≠ ".." := by
  intro h
  have hlist := temporaryName_toList n
  rw [h] at hlist
  simp at hlist

-- Of more names than there are nodes, one is free.
theorem exists_temporaryName (taken : List String) :
    ∃ n ∈ List.range (taken.length + 1), temporaryName n ∉ taken := by
  by_contra hall
  have hsub : (List.range (taken.length + 1)).map temporaryName ⊆ taken := by
    intro name hname
    obtain ⟨n, hn, rfl⟩ := List.mem_map.mp hname
    by_contra hnot
    exact hall ⟨n, hn, hnot⟩
  have hnodup : ((List.range (taken.length + 1)).map temporaryName).Nodup :=
    List.Nodup.map temporaryName_injective List.nodup_range
  have hle := (hnodup.subperm hsub).length_le
  rw [List.length_map, List.length_range] at hle
  omega

-- Where a name is not the last one of any node, nothing has it.
theorem get?_of_last {t : Tree} {name : String}
    (h : name ∉ t.entries.filterMap fun entry => entry.1.getLast?) (location : Location) :
    t.get? (location ++ [name]) = none := by
  rw [Tree.get?, if_neg (by simp)]
  apply Tree.lookup_eq_none
  intro hmem
  obtain ⟨entry, hentry, hlocation⟩ := List.mem_map.mp hmem
  apply h
  rw [List.mem_filterMap]
  exact ⟨entry, hentry, by rw [hlocation]; simp⟩

theorem freeName_spec (t : Tree) :
    ∃ n, freeName t = temporaryName n ∧ ∀ location, t.get? (location ++ [freeName t]) = none := by
  obtain ⟨n, hn, hfree⟩ := exists_temporaryName (t.entries.filterMap fun entry => entry.1.getLast?)
  cases hfind : ((List.range ((t.entries.filterMap fun entry => entry.1.getLast?).length + 1)).map
      temporaryName).find? fun name =>
        !(t.entries.filterMap fun entry => entry.1.getLast?).contains name with
  | none =>
    have hnone := List.find?_eq_none.mp hfind _ (List.mem_map_of_mem hn)
    simp [hfree] at hnone
  | some name =>
    obtain ⟨m, -, rfl⟩ := List.mem_map.mp (List.mem_of_find?_eq_some hfind)
    have hnew : temporaryName m ∉ t.entries.filterMap fun entry => entry.1.getLast? := by
      simpa using List.find?_some hfind
    have hname : freeName t = temporaryName m := by
      unfold freeName
      dsimp only
      rw [hfind]
      rfl
    rw [hname]
    exact ⟨m, rfl, get?_of_last hnew⟩

/-! ## The output -/

-- Why the output is not written: the system refuses, or its path cannot be that of a file.
def unwritten (output : Path) (cause : Files.Fault) : Fault :=
  Run.reporting (fun fault => .defaults (.unwritable output fault)) cause

-- What a fault of writing is about: the output or a temporary file in its folder.
def IsAtOutput (current : Location) (output : Path) (cause : Files.Fault) : Prop :=
  cause.IsAt output ∨
    ∃ n, cause.IsAt ((Files.normal current output.parent).child (temporaryName n))

/-- The output has a new content, in the folder that its path leads to once the missing folders are
made. All that stood elsewhere stands there still, beside new folders. Reading the output gives the
content, unless the output itself was a link on the way to its folder. -/
structure Placed (current : Location) (output : Path) (content : List UInt8) (t t' : Tree)
    (folder : Location) : Prop where
  found : Files.find (Files.makeFolders t current output.parent).1 current output.parent =
    .ok (.node folder .folder)
  placed : t'.get? (folder ++ [outputName]) = some (.file content)
  kept : ∀ location, location ≠ folder ++ [outputName] →
    t'.get? location = t.get? location ∨
      t.get? location = none ∧ t'.get? location = some .folder
  readable : Files.find t' current output.parent = .ok (.node folder .folder) →
    Files.read t' current output = .ok content

/-- The way to the folder of the output goes through a link in the output's own place. -/
def CutsOff (current : Location) (output : Path) (t : Tree) (folder : Location) : Prop :=
  (∃ target, t.get? (folder ++ [outputName]) = some (.link target)) ∧
    Files.find ((Files.makeFolders t current output.parent).1.erase (folder ++ [outputName]))
      current output.parent ≠ .ok (.node folder .folder)

/-- The output is placed, and the new folders all lie on the way to it. Its path leads to the new
file, unless the file takes the place of a link on this way: then the path leads to no file. -/
structure Replaced (current : Location) (output : Path) (content : List UInt8) (t t' : Tree)
    (folder : Location) : Prop extends Placed current output content t t' folder where
  along : ∀ location, location ≠ folder ++ [outputName] →
    t'.get? location = t.get? location ∨
      t.get? location = none ∧ t'.get? location = some .folder ∧
        ∃ q, output.parent.isWithin q = true ∧
          Files.find (Files.makeFolders t current output.parent).1 current q =
            .ok (.node location .folder)
  leads : ¬ CutsOff current output t folder →
    Files.find t' current output = .ok (.node (folder ++ [outputName]) (.file content))
  lost : CutsOff current output t folder → Files.isFile t' current output = false

theorem Placed.grows {current folder : Location} {output : Path} {content : List UInt8}
    {t t' t'' : Tree} (hlast : Files.lastName output = some outputName)
    (hbarred : Files.isBarred output = false) (h : Placed current output content t t' folder)
    (hgrows : t'.Grows t'') : Placed current output content t t'' folder := by
  have hplaced := hgrows.keeps _ _ h.placed
  refine ⟨h.found, hplaced, fun location hne => ?_, fun hfind => ?_⟩
  · rcases hgrows location with hsame | ⟨hnone, hfolder⟩
    · rw [hsame]
      exact h.kept location hne
    · rcases h.kept location hne with hold | ⟨hold, hnew⟩
      · exact .inr ⟨hold.symm.trans hnone, hfolder⟩
      · rw [hnew] at hnone
        cases hnone
  · exact Files.read_of_get? hbarred hfind hlast hplaced

section

variable {current folder : Location} {output : Path} {content : List UInt8} {t' made : Tree}

-- The file is none of the ways of the tree in which it is placed. So the same ways lead to folders
-- in it as without anything in the file's place.
theorem find_of_placed
    (hnodes : ∀ location, t'.get? location =
      if folder ++ [outputName] = location then some (.file content) else made.get? location)
    (p : Path) (location : Location) :
    Files.find t' current p = .ok (.node location .folder) ↔
      Files.find (made.erase (folder ++ [outputName])) current p =
        .ok (.node location .folder) := by
  constructor
  · refine Files.find_keepsWays fun location node hkind hnode => ?_
    rw [hnodes] at hnode
    rw [Tree.get?_erase _ (by simp)]
    split at hnode
    · exact absurd (Option.some.inj hnode).symm (hkind content)
    · next hother => rw [if_neg hother, hnode]
  · refine Files.find_keeps fun location node hnode => ?_
    rw [Tree.get?_erase _ (by simp)] at hnode
    split at hnode
    · cases hnode
    · next hother => rw [hnodes, if_neg hother, hnode]

-- What is no link can be taken away without moving what paths to folders lead to.
theorem find_erase {p : Path} {location : Location}
    (hway : ∀ node, made.get? (folder ++ [outputName]) = some node → ¬ Files.IsWay node)
    (hfind : Files.find made current p = .ok (.node location .folder)) :
    Files.find (made.erase (folder ++ [outputName])) current p = .ok (.node location .folder) := by
  refine Files.find_keepsWays (fun location node hkind hnode => ?_) hfind
  rw [Tree.get?_erase _ (by simp)]
  split
  · next heq => exact absurd hkind (hway node (heq ▸ hnode))
  · exact hnode

-- Where only the output differs from the tree in which its folders are made, it is replaced.
theorem replaced_of_made {t : Tree} (hmade : (Files.makeFolders t current output.parent).1 = made)
    (hlast : Files.lastName output = some outputName) (hbarred : Files.isBarred output = false)
    (hfolder : Files.find made current output.parent = .ok (.node folder .folder))
    (hgoal : made.get? (folder ++ [outputName]) ≠ some .folder)
    (hnodes : ∀ location, t'.get? location =
      if folder ++ [outputName] = location then some (.file content) else made.get? location) :
    Replaced current output content t t' folder := by
  subst hmade
  have hplaced : t'.get? (folder ++ [outputName]) = some (.file content) := by
    rw [hnodes, if_pos rfl]
  have halong := Files.growsAlong_makeFolders t current output.parent
  refine ⟨⟨hfolder, hplaced, fun location hlocation => ?_,
    fun hthere => Files.read_of_get? hbarred hthere hlast hplaced⟩, fun location hlocation => ?_,
    fun hcut => Files.find_of_get? ?_ hlast hplaced nofun, fun hcut => ?_⟩
  · rw [hnodes, if_neg (Ne.symm hlocation)]
    exact halong.grows location
  · rw [hnodes, if_neg (Ne.symm hlocation)]
    exact halong location
  · rw [find_of_placed hnodes]
    by_contra hway
    refine hway (find_erase (fun node hnode hkind => ?_) hfolder)
    cases node with
    | file content => exact hkind content rfl
    | folder => exact hgoal hnode
    | link target =>
      rcases halong.grows (folder ++ [outputName]) with hsame | ⟨-, hnew⟩
      · exact hcut ⟨⟨target, hsame ▸ hnode⟩, hway⟩
      · exact hgoal hnew
  · rw [Bool.eq_false_iff]
    intro hfile
    obtain ⟨_, _, hplace⟩ := Files.find_of_isFile hfile
    obtain ⟨location, hparent⟩ := Files.find_parent hlast hplace
    rw [find_of_placed hnodes] at hparent
    -- with nothing in its place the way leads nowhere else than before
    have hsame := Files.find_keeps (Tree.erase_keeps (by simp)) hparent
    obtain rfl : folder = location := by
      rw [hfolder] at hsame
      exact (Files.Place.node.inj (Except.ok.inj hsame)).1
    exact hcut.2 hparent

end

-- Putting a file where nothing stood and taking it away again changes nothing.
theorem get?_erase_put {t : Tree} {place : Location} (hne : place ≠ [])
    (hnone : t.get? place = none) (node : Node) (location : Location) :
    ((t.put place node).erase place).get? location = t.get? location := by
  rw [Tree.get?_erase _ hne, Tree.get?_put _ hne]
  by_cases h : place = location
  · rw [if_pos h, ← h, hnone]
  · rw [if_neg h, if_neg h]

/-- Gives a temporary file the place of the output, or removes it. -/
def takePlace (temporary output : Path) : Run Unit :=
  tryCatch
    (Run.change (unwritten output) fun t current => Files.rename t current temporary output)
    fun fault => do
      Run.change Fault.files fun t current => Files.removeIfThere t current temporary
      throw fault

theorem replaceFile_eq (output : Path) (content : List UInt8) :
    replaceFile output content = (do
      Run.makeFolders (fun fault => .defaults (.unwritable output fault)) output.parent
      let s ← get
      let temporary := (Files.normal s.current output.parent).child (freeName s.tree)
      Run.change (unwritten output) fun t current => Files.write t current temporary content
      takePlace temporary output) :=
  rfl

section

variable {output temporary : Path} {name : String} {folder place : Location} {made : Tree}
  {s : Session} {content : List UInt8}

-- The temporary file is the only node that the tree has more than before, in a place of its own.
-- A folder in the place of the output is not replaced.
theorem exec_takePlace (hlast : Files.lastName output = some outputName)
    (hfolder : Files.find made s.current output.parent = .ok (.node folder .folder))
    (hbarred : Files.isBarred temporary = false) (hname : Files.lastName temporary = some name)
    (hplace : Files.find made s.current temporary.parent = .ok (.node place .folder))
    (hfresh : made.get? (place ++ [name]) = none)
    (htree : s.tree = made.put (place ++ [name]) (.file content)) :
    ∃ t', (exec (takePlace temporary output) s).2 = s.withTree t' ∧
      ((exec (takePlace temporary output) s).1 = .ok ⟨⟩ ∧ Files.isBarred output = false ∧
          made.get? (folder ++ [outputName]) ≠ some .folder ∧
          (∀ location, t'.get? location =
            if folder ++ [outputName] = location then some (.file content)
            else made.get? location) ∨
        (∃ cause, (exec (takePlace temporary output) s).1 = .error (unwritten output cause) ∧
            (cause.IsAt temporary ∨ cause.IsAt output)) ∧
          ∀ location, t'.get? location = made.get? location) := by
  have hne : place ++ [name] ≠ [] := by simp
  have hkeeps : made.Keeps s.tree := by
    rw [htree]
    exact Tree.keeps_put hne hfresh
  have hnode : s.tree.get? (place ++ [name]) = some (.file content) := by
    rw [htree, Tree.get?_put _ hne, if_pos rfl]
  have hback : ∀ location, (s.tree.erase (place ++ [name])).get? location = made.get? location := by
    intro location
    rw [htree]
    exact get?_erase_put hne hfresh _ location
  have hthere := Files.find_keeps hkeeps hplace
  unfold takePlace
  rw [Run.exec_tryCatch, Run.exec_change]
  cases hrename : Files.rename s.tree s.current temporary output with
  | ok renamed =>
    obtain ⟨hopen, other, hother, hgoal, rfl⟩ :=
      Files.rename_eq_ok hthere hname hnode hlast hrename
    -- the temporary file has not moved the folder of the output
    obtain rfl : folder = other := by
      have hsame := (Files.find_keeps hkeeps hfolder).symm.trans hother
      exact (Files.Place.node.inj (Except.ok.inj hsame)).1
    refine ⟨_, rfl, .inl ⟨rfl, hopen, fun hnode => hgoal (hkeeps _ _ hnode), fun location => ?_⟩⟩
    rw [Tree.get?_put _ (by simp), hback]
  | error fault =>
    dsimp only
    rw [Run.exec_bind, Run.exec_change, Files.removeIfThere_file hbarred hthere hname hnode]
    exact ⟨_, rfl, .inr ⟨⟨fault, rfl, Files.isAt_rename hrename⟩, hback⟩⟩

end

/-- Replacing the output gives its place the new content, or else changes nothing but for new
folders on the way to it. -/
theorem exec_replaceFile {output : Path} (hlast : Files.lastName output = some outputName)
    (content : List UInt8) (s : Session) :
    ∃ t', (exec (replaceFile output content) s).2 = s.withTree t' ∧
      ((exec (replaceFile output content) s).1 = .ok ⟨⟩ ∧ Files.isBarred output = false ∧
          (∃ folder, Replaced s.current output content s.tree t' folder) ∨
        (∃ cause, (exec (replaceFile output content) s).1 = .error (unwritten output cause) ∧
            IsAtOutput s.current output cause) ∧
          Files.GrowsAlong s.current output.parent s.tree t') := by
  have halong := Files.growsAlong_makeFolders s.tree s.current output.parent
  have hfind := Files.find_makeFolders s.tree s.current output.parent
  rw [replaceFile_eq, Run.exec_bind, Run.exec_makeFolders]
  rcases hmade : Files.makeFolders s.tree s.current output.parent with ⟨made, result⟩
  rw [hmade] at halong hfind
  cases result with
  | error fault =>
    have hat : fault.IsAt output.parent := Files.isAt_makeFolders (congrArg Prod.snd hmade)
    exact ⟨made, rfl, .inr ⟨⟨fault, rfl, .inl hat.of_parent⟩, halong⟩⟩
  | ok _ =>
    obtain ⟨folder, hfolder⟩ := hfind rfl
    obtain ⟨n, hname, hfresh⟩ := freeName_spec made
    dsimp only [Except.mapError]
    rw [Run.exec_bind_of_ok (Run.exec_get _), Run.exec_bind, Run.exec_change]
    dsimp only [Session.withTree_tree, Session.withTree_current]
    have hlastName : Files.lastName ((Files.normal s.current output.parent).child
        (freeName made)) = some (freeName made) := by
      apply Files.lastName_child
      · rw [hname]
        exact isStep_temporaryName n
      · rw [hname]
        exact temporaryName_ne_up n
    cases hwrite : Files.write made s.current ((Files.normal s.current output.parent).child
        (freeName made)) content with
    | error fault =>
      have hat := Files.isAt_write hwrite
      rw [hname] at hat
      exact ⟨made, rfl, .inr ⟨⟨fault, rfl, .inr ⟨n, hat⟩⟩, halong⟩⟩
    | ok written =>
      obtain ⟨hbarred, place, hplace, rfl⟩ := Files.write_fresh hlastName hfresh hwrite
      obtain ⟨t', hsession, hresult⟩ := exec_takePlace
        (s := (s.withTree made).withTree (made.put (place ++ [freeName made]) (.file content)))
        hlast hfolder hbarred hlastName hplace (hfresh place) rfl
      refine ⟨t', hsession, ?_⟩
      rcases hresult with ⟨hok, hopen, hgoal, hnodes⟩ | ⟨⟨cause, hfault, hat⟩, hsame⟩
      · have hmade' := congrArg Prod.fst hmade
        exact .inl ⟨hok, hopen, folder,
          replaced_of_made hmade' hlast hopen hfolder hgoal hnodes⟩
      · rw [hname] at hat
        exact .inr ⟨⟨cause, hfault, hat.symm.imp_right fun hat => ⟨n, hat⟩⟩,
          halong.trans fun location => .inl (hsame location)⟩

/-! ## The merged settings -/

-- What is written for some fragments.
def contentOf (tables : List Toml.Table) : List UInt8 :=
  Utf8.encode (Toml.print (Toml.mergeAll tables))

theorem lastName_outputOf (root : Path) : Files.lastName (outputOf root) = some outputName := by
  have hsteps : (outputOf root).steps = root.steps ++ ["build", "tools", "defaults.toml"] := rfl
  unfold Files.lastName
  rw [hsteps, List.getLast?_append]
  rfl

-- What reading fragments adds to the journal.
def openings (fragments : List Path) : List Event :=
  fragments.flatMap fun fragment => [.notice (.signal (.file fragment)), .read fragment]

-- Each fragment is signalled and read, up to the first that cannot be used.
theorem exec_readFragments (fragments : List Path) (s : Session) :
    ∃ s', exec (fragments.mapM readFragment) s = (fragments.mapM s.settings, s') ∧
      s'.tree = s.tree ∧ s'.current = s.current ∧
      (∀ tables, fragments.mapM s.settings = .ok tables →
        s'.journal = s.journal ++ openings fragments) ∧
      ∀ fault, fragments.mapM s.settings = .error fault →
        ∃ earlier fragment later tables, fragments = earlier ++ fragment :: later ∧
          earlier.mapM s.settings = .ok tables ∧ s.settings fragment = .error fault ∧
          s'.journal = s.journal ++ openings (earlier ++ [fragment]) := by
  induction fragments generalizing s with
  | nil =>
    rw [List.mapM_nil, List.mapM_nil]
    exact ⟨s, rfl, rfl, rfl, fun _ _ => by simp [openings], fun _ h => by cases h⟩
  | cons fragment rest ih =>
    rw [List.mapM_cons, List.mapM_cons, Run.exec_bind, exec_readFragment]
    cases hsettings : s.settings fragment with
    | error fault =>
      refine ⟨s.opening fragment, rfl, rfl, rfl, fun _ h => (by cases h), fun other hother => ?_⟩
      obtain rfl : fault = other := Except.error.inj hother
      exact ⟨[], fragment, rest, [], rfl, rfl, hsettings, s.opening_journal⟩
    | ok table =>
      obtain ⟨s', hexec, htree, hcurrent, hjournal, hfailed⟩ := ih (s.opening fragment)
      -- reading one fragment does not change what the others hold
      have hsame : (s.opening fragment).settings = s.settings := rfl
      have hopening : ∀ others, (s.opening fragment).journal ++ openings others =
          s.journal ++ openings (fragment :: others) := by
        intro others
        simp [Session.opening, openings]
      rw [hsame] at hexec hjournal hfailed
      dsimp only
      rw [Run.exec_bind, hexec]
      cases htables : rest.mapM s.settings with
      | error fault =>
        refine ⟨s', rfl, htree, hcurrent, fun _ h => (by cases h), fun other hother => ?_⟩
        obtain rfl : fault = other := Except.error.inj hother
        obtain ⟨earlier, failed, later, tables, rfl, hearlier, hfailed, hjournal⟩ :=
          hfailed fault htables
        refine ⟨fragment :: earlier, failed, later, table :: tables, rfl, ?_, hfailed, ?_⟩
        · rw [List.mapM_cons, hsettings, hearlier]
          rfl
        · rw [hjournal, hopening]
          rfl
      | ok tables =>
        refine ⟨s', rfl, htree, hcurrent, fun _ _ => ?_, fun _ h => by cases h⟩
        rw [hjournal tables htables, hopening]

variable {folder root : Path} {fragments : List Path} {tables : List Toml.Table} {s s' : Session}

-- Once the fragments are read, what is left is to write their settings.
theorem exec_aggregate (root : Path) (hfragments : s.fragments folder = .ok fragments)
    (htables : fragments.mapM s.settings = .ok tables) :
    ∃ next : Session, next.tree = s.tree ∧ next.current = s.current ∧
      next.journal = s.journal ++ openings fragments ∧
      exec (aggregate folder root) s =
        match Toml.serialise (Toml.mergeAll tables) with
        | .ok _ =>
          exec (replaceFile (outputOf root) (contentOf tables) >>= fun _ => pure (outputOf root))
            next
        | .error fault => (.error (.defaults (.unserialisable fault)), next) := by
  obtain ⟨next, hexec, htree, hcurrent, hjournal, -⟩ := exec_readFragments fragments s
  refine ⟨next, htree, hcurrent, hjournal tables htables, ?_⟩
  have hlist := exec_fragments folder s
  rw [hfragments] at hlist
  rw [htables] at hexec
  rw [aggregate, Run.exec_bind_of_ok hlist, Run.exec_bind_of_ok hexec, Run.exec_bind,
    Run.exec_orFail, Toml.serialise]
  cases (Toml.Value.table (Toml.mergeAll tables)).isOverlong <;> rfl

theorem aggregate_eq_ok {output : Path} (h : exec (aggregate folder root) s = (.ok output, s')) :
    ∃ fragments tables, s.fragments folder = .ok fragments ∧
      fragments.mapM s.settings = .ok tables ∧
      (Toml.Value.table (Toml.mergeAll tables)).isOverlong = false ∧ ∃ next : Session,
        next.tree = s.tree ∧ next.current = s.current ∧
        next.journal = s.journal ++ openings fragments ∧ output = outputOf root ∧
        exec (replaceFile (outputOf root) (contentOf tables)) next = (.ok ⟨⟩, s') := by
  obtain ⟨fragments, listed, hlist, hread⟩ := Run.exec_bind_eq_ok.mp h
  rw [exec_fragments, Prod.mk.injEq] at hlist
  obtain ⟨hfragments, rfl⟩ := hlist
  obtain ⟨tables, _, hread, -⟩ := Run.exec_bind_eq_ok.mp hread
  obtain ⟨_, hexec, -⟩ := exec_readFragments fragments s
  rw [hexec, Prod.mk.injEq] at hread
  obtain ⟨htables, -⟩ := hread
  obtain ⟨next, htree, hcurrent, hjournal, haggregate⟩ := exec_aggregate root hfragments htables
  rw [haggregate] at h
  cases htext : Toml.serialise (Toml.mergeAll tables) with
  | error fault =>
    rw [htext] at h
    cases (Prod.mk.inj h).1
  | ok text =>
    rw [htext] at h
    obtain ⟨hshort, -⟩ := Toml.serialise_eq_ok.mp htext
    obtain ⟨_, _, hwrite, hpure⟩ := Run.exec_bind_eq_ok.mp h
    obtain ⟨houtput, rfl⟩ := Prod.mk.inj hpure
    exact ⟨fragments, tables, hfragments, htables, hshort, next, htree, hcurrent, hjournal,
      (Except.ok.inj houtput).symm, hwrite⟩

/-- Where an aggregation fails: the folder cannot be listed, a fragment is the first that cannot be
used, the merged settings cannot be written as a document, or the document cannot be stored. Only
the last changes the tree. -/
inductive Ends (s : Session) (folder root : Path) : Fault → Session → Prop
  | listing {fault : Fault} (hlist : s.fragments folder = .error fault) : Ends s folder root fault s
  | fragment {fault : Fault} {s' : Session} {fragment : Path} {earlier later : List Path}
    {tables : List Toml.Table} (hlist : s.fragments folder = .ok (earlier ++ fragment :: later))
    (hearlier : earlier.mapM s.settings = .ok tables)
    (hfragment : s.settings fragment = .error fault)
    (htree : s'.tree = s.tree)
    (hjournal : s'.journal = s.journal ++ openings (earlier ++ [fragment])) :
    Ends s folder root fault s'
  | document {cause : Toml.DigitFault} {s' : Session} {fragments : List Path}
    {tables : List Toml.Table} (hlist : s.fragments folder = .ok fragments)
    (htables : fragments.mapM s.settings = .ok tables)
    (hdocument : Toml.serialise (Toml.mergeAll tables) = .error cause)
    (htree : s'.tree = s.tree) (hjournal : s'.journal = s.journal ++ openings fragments) :
    Ends s folder root (.defaults (.unserialisable cause)) s'
  | output {cause : Files.Fault} {s' : Session} {fragments : List Path} {tables : List Toml.Table}
    (hlist : s.fragments folder = .ok fragments)
    (htables : fragments.mapM s.settings = .ok tables)
    (hat : IsAtOutput s.current (outputOf root) cause)
    (halong : Files.GrowsAlong s.current (outputOf root).parent s.tree s'.tree)
    (hjournal : s'.journal = s.journal ++ openings fragments) :
    Ends s folder root (unwritten (outputOf root) cause) s'

theorem ends_of_exec {fault : Fault} (h : exec (aggregate folder root) s = (.error fault, s')) :
    Ends s folder root fault s' := by
  cases hfragments : s.fragments folder with
  | error cause =>
    have hlist := exec_fragments folder s
    rw [hfragments] at hlist
    rw [aggregate, Run.exec_bind_of_error hlist, Prod.mk.injEq] at h
    obtain ⟨hfault, rfl⟩ := h
    exact Except.error.inj hfault ▸ .listing hfragments
  | ok fragments =>
    cases htables : fragments.mapM s.settings with
    | error cause =>
      obtain ⟨next, hexec, htree, -, -, hfailed⟩ := exec_readFragments fragments s
      have hlist := exec_fragments folder s
      rw [hfragments] at hlist
      rw [htables] at hexec
      rw [aggregate, Run.exec_bind_of_ok hlist, Run.exec_bind_of_error hexec, Prod.mk.injEq] at h
      obtain ⟨hcause, rfl⟩ := h
      obtain ⟨earlier, fragment, later, tables, rfl, hearlier, hfragment, hjournal⟩ :=
        hfailed cause htables
      rw [Except.error.inj hcause] at hfragment
      exact .fragment hfragments hearlier hfragment htree hjournal
    | ok tables =>
      obtain ⟨next, htree, hcurrent, hjournal, haggregate⟩ := exec_aggregate root hfragments htables
      rw [haggregate] at h
      cases hdocument : Toml.serialise (Toml.mergeAll tables) with
      | error cause =>
        rw [hdocument] at h
        obtain ⟨hfault, rfl⟩ := Prod.mk.inj h
        exact Except.error.inj hfault ▸ .document hfragments htables hdocument htree hjournal
      | ok text =>
        obtain ⟨t', hsession, hresult⟩ :=
          exec_replaceFile (lastName_outputOf root) (contentOf tables) next
        rw [hdocument] at h
        dsimp only at h
        rw [Run.exec_bind] at h
        rw [htree, hcurrent] at hresult
        rcases hrun : exec (replaceFile (outputOf root) (contentOf tables)) next with ⟨result, last⟩
        rw [hrun] at h hsession hresult
        obtain rfl : last = next.withTree t' := hsession
        rcases hresult with ⟨rfl, -, -⟩ | ⟨⟨cause, rfl, hat⟩, halong⟩
        · cases (Prod.ext_iff.mp h).1
        · obtain ⟨hfault, rfl⟩ := Prod.mk.inj h
          exact Except.error.inj hfault ▸ .output hfragments htables hat halong hjournal

end BuildHook.Defaults
