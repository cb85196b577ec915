import BuildHook.Proofs.Listing
import BuildHook.Proofs.Walk
import BuildHook.SourceGroup
import Mathlib.Data.List.Forall2

/-!
# Files of source groups

The files of a group are told by the names that lead to them from the folder of the group. Which
names these are is a matter of the tree and not of the order in which it lists them, and there is
one order of them.
-/

namespace BuildHook.SourceGroup

variable {t t' : Tree} {current location : Location} {patterns : List String} {group folder : Path}
  {name : String} {names others : List String} {node : Node}

/-! ## Which entries count -/

/-- The path that names lead to from a folder. -/
def descend (folder : Path) (names : List String) : Path :=
  names.foldl Path.child folder

/-- Whether what stands at a path is neither a folder nor a link to one. -/
def IsLeaf (t : Tree) (current : Location) (path : Path) : Node → Prop
  | .file _ => True
  | .folder => False
  | .link _ => Files.isFolder t current path = false

/-- Whether names lead from a folder down to a file of the group: through folders, with no name that
is ignored, to what is neither a folder nor a link to one. -/
structure IsSource (t : Tree) (current : Location) (patterns : List String) (location : Location)
    (folder : Path) (names : List String) : Prop where
  kept : ∀ name ∈ names, isIgnored patterns name = false
  way : ∀ above, above <+: names → above ≠ [] → above ≠ names →
    t.get? (location ++ above) = some .folder
  leaf : names ≠ [] ∧ ∃ node, t.get? (location ++ names) = some node ∧
    IsLeaf t current (descend folder names) node

theorem isFolderEntry_eq_false :
    isFolderEntry t current folder (name, node) = false ↔
      IsLeaf t current (folder.child name) node := by
  cases node <;> simp [isFolderEntry, IsLeaf]

theorem isSource_single :
    IsSource t current patterns location folder [name] ↔ isIgnored patterns name = false ∧
      ∃ node, t.get? (location ++ [name]) = some node ∧
        IsLeaf t current (folder.child name) node := by
  constructor
  · intro h
    exact ⟨h.kept name List.mem_cons_self, h.leaf.2⟩
  · rintro ⟨hname, hleaf⟩
    refine ⟨by simpa using hname, fun above habove hne hproper => ?_, by simp, hleaf⟩
    rcases List.prefix_cons_iff.mp habove with rfl | ⟨rest, rfl, hrest⟩
    · exact absurd rfl hne
    · exact absurd (by rw [List.prefix_nil.mp hrest]) hproper

theorem isSource_cons (hne : names ≠ []) :
    IsSource t current patterns location folder (name :: names) ↔
      isIgnored patterns name = false ∧ t.get? (location ++ [name]) = some .folder ∧
        IsSource t current patterns (location ++ [name]) (folder.child name) names := by
  have hplace : ∀ rest, location ++ name :: rest = location ++ [name] ++ rest := by simp
  constructor
  · intro h
    refine ⟨h.kept name List.mem_cons_self, ?_, ?_, ?_, hne, ?_⟩
    · exact h.way [name] (by simp) (by simp) (by simpa using hne)
    · exact fun other hother => h.kept other (List.mem_cons_of_mem _ hother)
    · intro above habove _ hproper
      rw [← hplace]
      exact h.way (name :: above) (by simpa using habove) (by simp) (by simpa using hproper)
    · rw [← hplace]
      exact h.leaf.2
  · rintro ⟨hname, hfolder, h⟩
    refine ⟨List.forall_mem_cons.mpr ⟨hname, h.kept⟩, fun above habove hfirst hproper => ?_,
      by simp, ?_⟩
    · rcases List.prefix_cons_iff.mp habove with rfl | ⟨rest, rfl, hrest⟩
      · exact absurd rfl hfirst
      · rw [hplace]
        by_cases hnil : rest = []
        · rw [hnil, List.append_nil]
          exact hfolder
        · exact h.way rest hrest hnil (by simpa using hproper)
    · rw [hplace]
      exact h.leaf.2

/-! ## Their order -/

/-- Which of two files of a group comes first: one right in a folder before all that lies further
down, and otherwise by the names in the folder where their ways part. -/
inductive Precedes : List String → List String → Prop
  | files {name other : String} (h : name < other) : Precedes [name] [other]
  | above {name folder : String} {names : List String} (hne : names ≠ []) :
    Precedes [name] (folder :: names)
  | folders {folder other : String} {names names' : List String} (hne : names ≠ [])
    (hne' : names' ≠ []) (h : folder < other) : Precedes (folder :: names) (other :: names')
  | inside {folder : String} {names names' : List String} (h : Precedes names names') :
    Precedes (folder :: names) (folder :: names')

theorem Precedes.asymm (h : Precedes names others) : ¬ Precedes others names := by
  induction h with
  | files h =>
    intro h'
    cases h' with
    | files h' => exact lt_asymm h h'
    | above hne => exact hne rfl
    | folders hne => exact hne rfl
    | inside h' => exact lt_irrefl _ h
  | above hne =>
    intro h'
    cases h' with
    | files => exact hne rfl
    | above => exact hne rfl
    | folders _ hne' => exact hne' rfl
    | inside h' => cases h'
  | folders hne hne' h =>
    intro h'
    cases h' with
    | files => exact hne rfl
    | above => exact hne' rfl
    | folders _ _ h' => exact lt_asymm h h'
    | inside => exact lt_irrefl _ h
  | inside h ih =>
    intro h'
    cases h' with
    | files h' => exact lt_irrefl _ h'
    | above => cases h
    | folders _ _ h' => exact lt_irrefl _ h'
    | inside h' => exact ih h'

theorem Precedes.irrefl (h : Precedes names names) : False :=
  h.asymm h

/-- There is one order of the same names. -/
theorem eq_of_precedes {tracks tracks' : List (List String)} (h : tracks.Pairwise Precedes)
    (h' : tracks'.Pairwise Precedes) (hmem : ∀ names, names ∈ tracks ↔ names ∈ tracks') :
    tracks = tracks' := by
  have hnodup : ∀ {tracks : List (List String)}, tracks.Pairwise Precedes → tracks.Nodup :=
    fun h => h.imp fun hlt heq => (heq ▸ hlt).irrefl
  have hperm : tracks.Perm tracks' := (List.perm_ext_iff_of_nodup (hnodup h) (hnodup h')).mpr hmem
  exact hperm.eq_of_pairwise (fun _ _ _ _ hlt hgt => absurd hgt hlt.asymm) h h'

/-! ## Walking down -/

theorem length_le_depthOf (hne : names ≠ []) (h : t.get? names = some node) :
    names.length ≤ depthOf t := by
  have hmax : ∀ (lengths : List Nat) (start : Nat),
      start ≤ lengths.foldl max start ∧ ∀ n ∈ lengths, n ≤ lengths.foldl max start := by
    intro lengths
    induction lengths with
    | nil => simp
    | cons n lengths ih =>
      intro start
      obtain ⟨hstart, hall⟩ := ih (max start n)
      rw [List.foldl_cons]
      exact ⟨le_trans (le_max_left _ _) hstart,
        List.forall_mem_cons.mpr ⟨le_trans (le_max_right _ _) hstart, hall⟩⟩
  rw [Tree.get?, if_neg hne] at h
  exact (hmax _ 0).2 _ (List.mem_map.mpr ⟨_, Tree.mem_of_lookup h, rfl⟩)

/-- The names of the entries of a folder that are not ignored and of a kind, in ascending order. -/
def namesOf (t : Tree) (patterns : List String) (location : Location)
    (kind : String × Node → Bool) : List String :=
  Text.sorted ((((t.children location).filter fun entry => !isIgnored patterns entry.1).filter
    kind).map Prod.fst)

theorem mem_namesOf {kind : String × Node → Bool} :
    name ∈ namesOf t patterns location kind ↔ isIgnored patterns name = false ∧
      ∃ node, t.get? (location ++ [name]) = some node ∧ kind (name, node) = true := by
  rw [namesOf, (Text.sorted_perm _).mem_iff, List.mem_map]
  constructor
  · rintro ⟨⟨other, node⟩, hentry, rfl⟩
    rw [List.mem_filter, List.mem_filter, Tree.mem_children] at hentry
    exact ⟨by simpa using hentry.1.2, node, hentry.1.1, hentry.2⟩
  · rintro ⟨hname, node, hnode, hkind⟩
    refine ⟨(name, node), ?_, rfl⟩
    rw [List.mem_filter, List.mem_filter, Tree.mem_children]
    exact ⟨⟨hnode, by simpa using hname⟩, hkind⟩

theorem pairwise_namesOf (kind : String × Node → Bool) :
    (namesOf t patterns location kind).Pairwise (· < ·) := by
  apply Text.pairwise_sorted_of_nodup
  exact (t.nodup_children location).sublist ((List.filter_sublist.trans List.filter_sublist).map _)

/-- The names of the files right in a folder. -/
def fileNames (t : Tree) (current : Location) (patterns : List String) (location : Location)
    (folder : Path) : List String :=
  namesOf t patterns location fun entry => !isFolderEntry t current folder entry

/-- The names of the folders in a folder. -/
def folderNames (t : Tree) (patterns : List String) (location : Location) : List String :=
  namesOf t patterns location fun entry => decide (entry.2 = .folder)

theorem mem_fileNames :
    name ∈ fileNames t current patterns location folder ↔
      IsSource t current patterns location folder [name] := by
  rw [fileNames, mem_namesOf, isSource_single]
  simp only [Bool.not_eq_true', isFolderEntry_eq_false]

theorem mem_folderNames :
    name ∈ folderNames t patterns location ↔
      isIgnored patterns name = false ∧ t.get? (location ++ [name]) = some .folder := by
  rw [folderNames, mem_namesOf]
  simp

theorem filesBelow_succ (depth : Nat) :
    filesBelow t current patterns (depth + 1) location folder =
      (fileNames t current patterns location folder).map folder.child ++
        (folderNames t patterns location).flatMap fun name =>
          filesBelow t current patterns depth (location ++ [name]) (folder.child name) :=
  rfl

/-- The names that lead to the files at most `depth` levels down. -/
def tracksBelow (t : Tree) (current : Location) (patterns : List String) :
    (depth : Nat) → (location : Location) → (folder : Path) → List (List String)
  | 0, _, _ => []
  | depth + 1, location, folder =>
    (fileNames t current patterns location folder).map ([·]) ++
      (folderNames t patterns location).flatMap fun name =>
        (tracksBelow t current patterns depth (location ++ [name]) (folder.child name)).map (name :: ·)

theorem filesBelow_eq (depth : Nat) (location : Location) (folder : Path) :
    filesBelow t current patterns depth location folder =
      (tracksBelow t current patterns depth location folder).map (descend folder) := by
  induction depth generalizing location folder with
  | zero => rfl
  | succ depth ih =>
    rw [filesBelow_succ, tracksBelow, List.map_append, List.map_map, List.map_flatMap]
    congr 1
    refine List.flatMap_congr fun name _ => ?_
    rw [ih, List.map_map]
    rfl

variable {depth : Nat}

theorem mem_tracksBelow :
    names ∈ tracksBelow t current patterns depth location folder ↔
      IsSource t current patterns location folder names ∧ names.length ≤ depth := by
  induction depth generalizing location folder names with
  | zero =>
    rw [tracksBelow]
    refine iff_of_false List.not_mem_nil ?_
    rintro ⟨h, hlength⟩
    exact h.leaf.1 (List.length_eq_zero_iff.mp (Nat.le_zero.mp hlength))
  | succ depth ih =>
    rw [tracksBelow, List.mem_append, List.mem_map, List.mem_flatMap]
    constructor
    · rintro (⟨name, hname, rfl⟩ | ⟨name, hname, hnames⟩)
      · exact ⟨mem_fileNames.mp hname, by simp⟩
      · obtain ⟨rest, hrest, rfl⟩ := List.mem_map.mp hnames
        obtain ⟨hkept, hfolder⟩ := mem_folderNames.mp hname
        obtain ⟨hsource, hlength⟩ := ih.mp hrest
        exact ⟨(isSource_cons hsource.leaf.1).mpr ⟨hkept, hfolder, hsource⟩, by simpa using hlength⟩
    · rintro ⟨hsource, hlength⟩
      match names, hsource, hlength with
      | [], hsource, _ => exact absurd rfl hsource.leaf.1
      | [name], hsource, _ => exact .inl ⟨name, mem_fileNames.mpr hsource, rfl⟩
      | name :: next :: rest, hsource, hlength =>
        obtain ⟨hkept, hfolder, hsource⟩ := (isSource_cons (by simp)).mp hsource
        refine .inr ⟨name, mem_folderNames.mpr ⟨hkept, hfolder⟩, List.mem_map.mpr ⟨_, ?_, rfl⟩⟩
        exact ih.mpr ⟨hsource, by simpa using hlength⟩

theorem ne_nil_of_mem (h : names ∈ tracksBelow t current patterns depth location folder) :
    names ≠ [] :=
  (mem_tracksBelow.mp h).1.leaf.1

theorem pairwise_tracksBelow :
    (tracksBelow t current patterns depth location folder).Pairwise Precedes := by
  induction depth generalizing location folder with
  | zero => exact .nil
  | succ depth ih =>
    rw [tracksBelow, List.pairwise_append, List.pairwise_map, List.pairwise_flatMap]
    refine ⟨(pairwise_namesOf _).imp .files, ⟨fun name _ => ?_, ?_⟩, ?_⟩
    · exact List.pairwise_map.mpr (ih.imp .inside)
    · refine (pairwise_namesOf _).imp fun hlt names hnames others hothers => ?_
      obtain ⟨rest, hrest, rfl⟩ := List.mem_map.mp hnames
      obtain ⟨rest', hrest', rfl⟩ := List.mem_map.mp hothers
      exact .folders (ne_nil_of_mem hrest) (ne_nil_of_mem hrest') hlt
    · intro names hnames others hothers
      obtain ⟨name, -, rfl⟩ := List.mem_map.mp hnames
      obtain ⟨other, -, hothers⟩ := List.mem_flatMap.mp hothers
      obtain ⟨rest, hrest, rfl⟩ := List.mem_map.mp hothers
      exact .above (ne_nil_of_mem hrest)

/-! ## Groups -/

/-- Whether all names in a tree are names that files can have. -/
def IsNamed (t : Tree) : Prop :=
  ∀ location node, t.get? location = some node → ∀ name ∈ location, IsStep name

theorem steps_descend (h : ∀ name ∈ names, IsStep name) (folder : Path) :
    (descend folder names).steps = folder.steps ++ names := by
  induction names generalizing folder with
  | nil => exact (List.append_nil _).symm
  | cons name names ih =>
    obtain ⟨hname, hnames⟩ := List.forall_mem_cons.mp h
    change (descend (folder.child name) names).steps = _
    rw [ih hnames, (folder.child_of_isStep hname).2, List.append_assoc, List.singleton_append]

/-- What is found in a group: its files in order, as paths seen from the group, and each once. -/
structure Finds (t : Tree) (current : Location) (patterns : List String) (group : Path)
    (found : List Path) : Prop where
  complete : ∃ (location : Location) (tracks : List (List String)),
    Files.find t current group = .ok (.node location .folder) ∧
    found = tracks.map (descend group) ∧
    (∀ names, names ∈ tracks ↔ IsSource t current patterns location group names) ∧
    tracks.Pairwise Precedes
  once : IsNamed t → found.Nodup

theorem nodup_map_descend {tracks : List (List String)} (hnamed : IsNamed t)
    (hmem : ∀ names ∈ tracks, IsSource t current patterns location group names)
    (h : tracks.Pairwise Precedes) : (tracks.map (descend group)).Nodup := by
  have hsteps : ∀ names ∈ tracks, ∀ name ∈ names, IsStep name := by
    intro names hnames name hname
    obtain ⟨-, node, hnode, -⟩ := (hmem names hnames).leaf
    exact hnamed _ node hnode name (List.mem_append_right _ hname)
  refine List.pairwise_map.mpr (h.imp_of_mem fun hnames hothers hlt heq => ?_)
  have hsame := congrArg Path.steps heq
  rw [steps_descend (hsteps _ hnames), steps_descend (hsteps _ hothers)] at hsame
  rw [List.append_cancel_left hsame] at hlt
  exact hlt.irrefl

theorem isFolder_eq_true : Files.isFolder t current group = true ↔ Files.isBarred group = false ∧
    ∃ location, Files.find t current group = .ok (.node location .folder) := by
  rw [Files.isFolder, Bool.and_eq_true, Bool.not_eq_true']
  refine and_congr_right fun _ => ?_
  split
  · next location hfind => exact iff_of_true rfl ⟨location, hfind⟩
  · next hother =>
    refine iff_of_false Bool.false_ne_true ?_
    rintro ⟨location, hfind⟩
    exact hother location hfind

/-- No way down is longer than the longest location of the tree, so all are found. -/
theorem mem_tracksBelow_depthOf :
    names ∈ tracksBelow t current patterns (depthOf t + 1) location group ↔
      IsSource t current patterns location group names := by
  rw [mem_tracksBelow, and_iff_left_iff_imp]
  intro hsource
  obtain ⟨hne, node, hnode, -⟩ := hsource.leaf
  have hlength := length_le_depthOf (by simp [hne]) hnode
  rw [List.length_append] at hlength
  omega

theorem files_of_isFolder (patterns : List String) (h : Files.isFolder t current group = true) :
    ∃ found, files t current patterns group = .ok found ∧
      Finds t current patterns group found := by
  obtain ⟨hbarred, location, hfind⟩ := isFolder_eq_true.mp h
  let tracks := tracksBelow t current patterns (depthOf t + 1) location group
  have hsource : ∀ names, names ∈ tracks ↔ IsSource t current patterns location group names :=
    fun _ => mem_tracksBelow_depthOf
  refine ⟨tracks.map (descend group), ?_,
    ⟨location, tracks, hfind, rfl, hsource, pairwise_tracksBelow⟩, fun hnamed => ?_⟩
  · rw [files, hbarred, hfind, ← filesBelow_eq]
    rfl
  · exact nodup_map_descend hnamed (fun names hnames => (hsource names).mp hnames)
      pairwise_tracksBelow

theorem files_of_not_isFolder (h : Files.isFolder t current group = false) :
    files t current patterns group = .error group := by
  rw [files]
  split
  · rfl
  · next hbarred =>
    split
    · next location hfind =>
      have hfolder := isFolder_eq_true.mpr ⟨Bool.eq_false_iff.mpr hbarred, location, hfind⟩
      rw [h] at hfolder
      cases hfolder
    · rfl

/-! ## The order in which folders list their entries -/

theorem isFolder_congr (h : ∀ location, t'.get? location = t.get? location) (path : Path) :
    Files.isFolder t' current path = Files.isFolder t current path := by
  have hkeeps : t.Keeps t' := fun location node hnode => (h location).trans hnode
  have hkept : t'.Keeps t := fun location node hnode => (h location).symm.trans hnode
  rw [Bool.eq_iff_iff, isFolder_eq_true, isFolder_eq_true]
  refine and_congr_right fun _ => exists_congr fun location => ?_
  exact ⟨Files.find_keeps hkept, Files.find_keeps hkeeps⟩

theorem isSource_congr (h : ∀ location, t'.get? location = t.get? location) :
    IsSource t' current patterns location group names ↔
      IsSource t current patterns location group names := by
  have hleaf : ∀ path node, IsLeaf t' current path node ↔ IsLeaf t current path node := by
    intro path node
    cases node <;> simp [IsLeaf, isFolder_congr h]
  constructor
  · intro hsource
    exact ⟨hsource.kept, by simpa only [h] using hsource.way,
      by simpa only [h, hleaf] using hsource.leaf⟩
  · intro hsource
    exact ⟨hsource.kept, by simpa only [h] using hsource.way,
      by simpa only [h, hleaf] using hsource.leaf⟩

/-- What is found in a group depends on what stands where, not on the order in which it is listed. -/
theorem files_congr (h : ∀ location, t'.get? location = t.get? location) (group : Path) :
    files t' current patterns group = files t current patterns group := by
  cases hfolder : Files.isFolder t current group with
  | false =>
    rw [files_of_not_isFolder hfolder, files_of_not_isFolder ((isFolder_congr h group).trans hfolder)]
  | true =>
    obtain ⟨found, hfound, ⟨location, tracks, hfind, rfl, hmem, hordered⟩, -⟩ :=
      files_of_isFolder patterns hfolder
    obtain ⟨found', hfound', ⟨location', tracks', hfind', rfl, hmem', hordered'⟩, -⟩ :=
      files_of_isFolder patterns ((isFolder_congr h group).trans hfolder)
    have hkept : t'.Keeps t := fun location node hnode => (h location).symm.trans hnode
    have hsame := (Files.find_keeps hkept hfind').symm.trans hfind
    obtain ⟨rfl, -⟩ := Files.Place.node.inj (Except.ok.inj hsame)
    have htracks : tracks' = tracks :=
      eq_of_precedes hordered' hordered fun names => by rw [hmem, hmem', isSource_congr h]
    rw [hfound, hfound', htracks]

/-! ## Crawling -/

theorem exists_found (patterns : List String) {groups : List Path}
    (h : ∀ group ∈ groups, Files.isFolder t current group = true) :
    ∃ found, List.Forall₂ (Finds t current patterns) groups found ∧
      groups.mapM (files t current patterns) = .ok found := by
  have hall : ∃ found, List.Forall₂ (fun group found =>
      files t current patterns group = .ok found ∧ Finds t current patterns group found)
      groups found := by
    induction groups with
    | nil => exact ⟨[], .nil⟩
    | cons group groups ih =>
      obtain ⟨hgroup, hgroups⟩ := List.forall_mem_cons.mp h
      obtain ⟨found, hfound⟩ := files_of_isFolder patterns hgroup
      obtain ⟨more, hmore⟩ := ih hgroups
      exact ⟨found :: more, .cons hfound hmore⟩
  obtain ⟨found, hall⟩ := hall
  exact ⟨found, hall.imp fun _ _ h => h.2, Run.mapM_eq_ok.mpr (hall.imp fun _ _ h => h.1)⟩

-- A link that leads nowhere is found, one that leads back to a folder is not.
example :
    let t : Tree := {
      entries := [(["r"], .folder), (["r", "up"], .link ".."), (["r", "b"], .file []),
        (["r", "d"], .folder), (["r", "d", "a"], .file []), (["r", "c"], .link "x"),
        (["r", "d", ".h"], .file [])]
      distinct := by decide }
    (crawl t [] defaultPatterns [Path.ofString "r"]).toOption =
      some [Path.ofString "r/b", Path.ofString "r/c", Path.ofString "r/d/a"] := by
  decide +kernel

end BuildHook.SourceGroup
