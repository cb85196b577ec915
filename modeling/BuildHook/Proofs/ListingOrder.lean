import BuildHook.Proofs.Listing
import BuildHook.Proofs.Walk

/-!
# Listings in any order

What is listed in a folder does not depend on the order of its entries. The listing fails for a
fragment that is a link without an end: one that leads nowhere, leads into a cycle, or leads through
more links than are followed.
-/

namespace BuildHook

namespace Files

variable {t : Tree} {making : Bool} {links more : Nat} {current folder : Location}
  {steps : List String} {p : Path} {place : Place}

/-! ## Where links lead -/

/-- What a path leads to if so many links are followed. -/
def follow (t : Tree) (current : Location) (p : Path) (links : Nat) : Except Obstacle Place :=
  walk t false links (start current p) p.steps

/-- A path leads to a place if as many links are followed as stand on the way. -/
def Reaches (t : Tree) (current : Location) (p : Path) (place : Place) : Prop :=
  ∃ links, follow t current p links = .ok place

/-- The way of a path comes to an end where a name is missing, or where a step stands on no folder. -/
def LeadsNowhere (t : Tree) (current : Location) (p : Path) : Prop :=
  (∃ folder name, Reaches t current p (.vacant folder name)) ∨
    ∃ links obstacle, obstacle ≠ .endless ∧ follow t current p links = .error obstacle

/-- Following the links on the way of a path never comes to an end. -/
def IsCyclic (t : Tree) (current : Location) (p : Path) : Prop :=
  ∀ links, follow t current p links = .error .endless

/-- A path leads to something, but through more links than are followed. -/
def IsFar (t : Tree) (current : Location) (p : Path) : Prop :=
  (∃ location node, Reaches t current p (.node location node)) ∧
    follow t current p linkLimit = .error .endless

-- A walk that has come to its end follows no further links.
theorem walk_mono (h : walk t making links folder steps ≠ .error .endless) (hle : links ≤ more) :
    walk t making more folder steps = walk t making links folder steps := by
  induction links generalizing more folder steps with
  | zero =>
    rw [walk] at h ⊢
    cases hleg : leg t making folder steps with
    | arrived place => exact walk_of_arrived hleg
    | blocked obstacle => cases more <;> rw [walk, hleg]
    | link next target rest =>
      rw [hleg] at h
      exact absurd rfl h
  | succ links ih =>
    obtain ⟨more, rfl⟩ := Nat.exists_eq_add_of_lt (Nat.lt_of_succ_le hle)
    rw [walk] at h ⊢
    rw [walk]
    cases hleg : leg t making folder steps with
    | arrived place => rfl
    | blocked obstacle => rfl
    | link next target rest =>
      rw [hleg] at h
      exact ih h (Nat.le_add_right links more)

-- So all walks that have come to their end, whatever their links, end in the same way.
theorem follow_unique (h : follow t current p links ≠ .error .endless)
    (h' : follow t current p more ≠ .error .endless) :
    follow t current p links = follow t current p more := by
  rcases Nat.le_total links more with hle | hle
  · exact (walk_mono h hle).symm
  · exact walk_mono h' hle

theorem ends_of_ok (h : follow t current p links = .ok place) :
    follow t current p links ≠ .error .endless := by
  rw [h]
  exact nofun

theorem Reaches.follow_eq (h : Reaches t current p place)
    (hends : follow t current p links ≠ .error .endless) : follow t current p links = .ok place := by
  obtain ⟨enough, henough⟩ := h
  rw [← henough]
  exact follow_unique hends (ends_of_ok henough)

variable {location : Location} {node : Node}

theorem Reaches.not_leadsNowhere (h : Reaches t current p (.node location node)) :
    ¬ LeadsNowhere t current p := by
  rintro (⟨folder, name, links, hvacant⟩ | ⟨links, obstacle, hne, hblocked⟩)
  · cases hvacant.symm.trans (h.follow_eq (ends_of_ok hvacant))
  · have hends : follow t current p links ≠ .error .endless := by
      rw [hblocked]
      exact fun heq => hne (Except.error.inj heq)
    cases hblocked.symm.trans (h.follow_eq hends)

theorem Reaches.not_isCyclic (h : Reaches t current p place) : ¬ IsCyclic t current p := by
  intro hcyclic
  obtain ⟨links, hreached⟩ := h
  cases hreached.symm.trans (hcyclic links)

-- Whatever comes to an end otherwise than at a node leads nowhere.
theorem exists_node_of_ends (hnowhere : ¬ LeadsNowhere t current p)
    (hends : follow t current p links ≠ .error .endless) :
    ∃ location node, follow t current p links = .ok (.node location node) := by
  cases hfollow : follow t current p links with
  | error obstacle =>
    have hne : obstacle ≠ .endless := by
      rintro rfl
      exact hends hfollow
    exact absurd (.inr ⟨links, obstacle, hne, hfollow⟩) hnowhere
  | ok place =>
    cases place with
    | node location node => exact ⟨location, node, rfl⟩
    | vacant folder name => exact absurd (.inl ⟨folder, name, links, hfollow⟩) hnowhere

/-- A path leads to something, unless its links lead nowhere, into a cycle or too far. -/
theorem find_node_iff : (∃ location node, find t current p = .ok (.node location node)) ↔
    ¬ (LeadsNowhere t current p ∨ IsCyclic t current p ∨ IsFar t current p) := by
  have hfind : find t current p = follow t current p linkLimit := rfl
  rw [hfind]
  constructor
  · rintro ⟨location, node, hnode⟩
    have hreached : Reaches t current p (.node location node) := ⟨linkLimit, hnode⟩
    rintro (hnowhere | hcyclic | ⟨-, hfar⟩)
    · exact hreached.not_leadsNowhere hnowhere
    · exact hreached.not_isCyclic hcyclic
    · cases hnode.symm.trans hfar
  · intro hends
    rw [not_or, not_or] at hends
    obtain ⟨hnowhere, hcyclic, hfar⟩ := hends
    by_cases hlimit : follow t current p linkLimit = .error .endless
    · obtain ⟨links, hlinks⟩ := not_forall.mp hcyclic
      obtain ⟨location, node, hreached⟩ := exists_node_of_ends hnowhere hlinks
      exact absurd ⟨⟨location, node, links, hreached⟩, hlimit⟩ hfar
    · exact exists_node_of_ends hnowhere hlimit

/-- Whether an entry of a folder is a file, however many links lead to it. -/
def IsFileBehind (t : Tree) (current : Location) (p : Path) : Node → Prop
  | .file _ => True
  | .folder => False
  | .link _ => ∃ location content, Reaches t current p (.node location (.file content))

end Files

theorem Tree.keeps_of_perm {t t' : Tree} (h : t.entries.Perm t'.entries) : t.Keeps t' := by
  intro location node hnode
  rw [get?] at hnode ⊢
  split
  · next hroot => rwa [if_pos hroot] at hnode
  · next hroot =>
    rw [if_neg hroot] at hnode
    exact lookup_of_mem t'.distinct (h.mem_iff.mp (mem_of_lookup hnode))

/-! ## Results that succeed -/

theorem exists_map_eq_ok {ε α β : Type} {x : Except ε α} {f : α → β} :
    (∃ b, x.map f = .ok b) ↔ ∃ a, x = .ok a := by
  cases x with
  | error e => exact iff_of_false nofun nofun
  | ok a => exact iff_of_true ⟨f a, rfl⟩ ⟨a, rfl⟩

theorem exists_mapError_eq_ok {ε ε' α : Type} {x : Except ε α} {fault : ε → ε'} :
    (∃ a, x.mapError fault = .ok a) ↔ ∃ a, x = .ok a := by
  cases x with
  | error e => exact iff_of_false nofun nofun
  | ok a => exact iff_of_true ⟨a, rfl⟩ ⟨a, rfl⟩

theorem exists_eq_error {ε α : Type} {x : Except ε α} :
    (∃ e, x = .error e) ↔ ¬ ∃ a, x = .ok a := by
  cases x with
  | error e => exact iff_of_true ⟨e, rfl⟩ nofun
  | ok a => exact iff_of_false nofun (not_not_intro ⟨a, rfl⟩)

/-! ## Checks of all items -/

theorem checked_of_filterAuxM {ε α : Type} {check : α → Except ε Bool} {xs before ys : List α}
    (h : xs.filterAuxM check before = .ok ys) : ∀ x ∈ xs, ∃ keep, check x = .ok keep := by
  induction xs generalizing before with
  | nil => exact List.forall_mem_nil _
  | cons x rest ih =>
    rw [List.filterAuxM] at h
    obtain ⟨keep, hcheck, h⟩ := Run.result_bind_eq_ok.mp h
    exact List.forall_mem_cons.mpr ⟨⟨keep, hcheck⟩, ih h⟩

/-- Items are selected by a check if it succeeds for each of them. -/
theorem exists_filterM_eq_ok {ε α : Type} {check : α → Except ε Bool} {xs : List α} :
    (∃ ys, xs.filterM check = .ok ys) ↔ ∀ x ∈ xs, ∃ keep, check x = .ok keep := by
  constructor
  · rintro ⟨ys, h⟩
    obtain ⟨found, haux, -⟩ := Run.result_bind_eq_ok.mp h
    exact checked_of_filterAuxM haux
  · intro hall
    cases h : xs.filterM check with
    | ok ys => exact ⟨ys, rfl⟩
    | error e =>
      obtain ⟨x, hx, hcheck⟩ := filterM_eq_error h
      obtain ⟨keep, hkeep⟩ := hall x hx
      cases hcheck.symm.trans hkeep

namespace Defaults

open Files (Reaches LeadsNowhere IsCyclic IsFar IsFileBehind)
open Run (exec)

variable {s s' : Session} {t : Tree} {current : Location} {folder : Path} {name : String}
  {node : Node} {entries : List (String × Node)} {found : List Path}

/-- An entry can be judged if it is no link or one that leads to something. -/
theorem exists_isFragment_eq_ok : (∃ keep, isFragment t current folder (name, node) = .ok keep) ↔
    ∀ target, node = .link target →
      ∃ location found, Files.find t current (folder.child name) = .ok (.node location found) := by
  cases node with
  | file content => exact iff_of_true ⟨true, rfl⟩ nofun
  | folder => exact iff_of_true ⟨false, rfl⟩ nofun
  | link target =>
    rw [isFragment]
    cases Files.find t current (folder.child name) with
    | error obstacle => cases obstacle <;> simp
    | ok place =>
      cases place with
      | vacant location last => simp
      | node location node => cases node <;> simp

theorem exists_fragmentNames_eq_ok :
    (∃ names, fragmentNames t current folder entries = .ok names) ↔
      ∀ name target, (name, Node.link target) ∈ entries → isFragmentName name = true →
        ∃ location found, Files.find t current (folder.child name) = .ok (.node location found) := by
  unfold fragmentNames
  rw [exists_map_eq_ok, exists_filterM_eq_ok]
  constructor
  · intro h name target hentry hname
    have hlisted : (name, Node.link target) ∈ entries.filter fun entry => isFragmentName entry.1 :=
      List.mem_filter.mpr ⟨hentry, hname⟩
    exact exists_isFragment_eq_ok.mp (h _ hlisted) target rfl
  · rintro h ⟨name, node⟩ hlisted
    obtain ⟨hentry, hname⟩ := List.mem_filter.mp hlisted
    refine exists_isFragment_eq_ok.mpr ?_
    rintro target rfl
    exact h name target hentry hname

theorem fragments_of_list (hlist : Files.list s.tree s.current folder = .ok entries) :
    s.fragments folder =
      ((fragmentNames s.tree s.current folder entries).mapError Fault.defaults).map
        fun names => (Text.sorted names).map folder.child := by
  rw [Session.fragments, hlist]
  change (fragmentNames _ _ _ _).mapError Fault.defaults >>= _ = _
  cases fragmentNames s.tree s.current folder entries <;> rfl

/-- Fragments are listed unless one of them is a link that leads to nothing. -/
theorem exists_fragments_eq_ok (hlist : Files.list s.tree s.current folder = .ok entries) :
    (∃ found, s.fragments folder = .ok found) ↔
      ∀ name target, (name, Node.link target) ∈ entries → isFragmentName name = true →
        ∃ location found,
          Files.find s.tree s.current (folder.child name) = .ok (.node location found) := by
  rw [fragments_of_list hlist, exists_map_eq_ok, exists_mapError_eq_ok, exists_fragmentNames_eq_ok]

/-- The names of those entries that are files of the right ending, links followed, each once and in
ascending order. -/
structure ListsFiles (s : Session) (folder : Path) (entries : List (String × Node))
    (names : List String) : Prop where
  ascending : names.Pairwise (· < ·)
  complete : ∀ name, name ∈ names ↔ isFragmentName name = true ∧ ∃ node, (name, node) ∈ entries ∧
    IsFileBehind s.tree s.current (folder.child name) node

theorem listsFiles_of_fragments (hlist : Files.list s.tree s.current folder = .ok entries)
    (h : s.fragments folder = .ok found) :
    ∃ names, found = names.map folder.child ∧ ListsFiles s folder entries names := by
  obtain ⟨names, rfl, hascending, location, hfind, hmem⟩ := fragments_eq_ok h
  obtain ⟨place, hplace, rfl⟩ := list_eq_ok hlist
  obtain ⟨rfl, -⟩ := Files.Place.node.inj (Except.ok.inj (hfind.symm.trans hplace))
  refine ⟨names, rfl, hascending, fun name => ?_⟩
  rw [hmem]
  refine and_congr_right fun hname => exists_congr fun node => ?_
  rw [← Tree.mem_children]
  refine and_congr_right fun hentry => ?_
  cases node with
  | file content => exact Iff.rfl
  | folder => exact Iff.rfl
  | link target =>
    -- a link among the fragments leads to something, so no more links are needed
    obtain ⟨location, node, hend⟩ := (exists_fragments_eq_ok hlist).mp ⟨_, h⟩ name target hentry hname
    have hends : Files.follow s.tree s.current (folder.child name) Files.linkLimit ≠
        .error .endless := Files.ends_of_ok hend
    constructor
    · rintro ⟨goal, content, hgoal⟩
      exact ⟨goal, content, Files.linkLimit, hgoal⟩
    · rintro ⟨goal, content, hgoal⟩
      exact ⟨goal, content, hgoal.follow_eq hends⟩

-- Two listings of one folder in trees that differ in their order only.
theorem list_of_perm (horder : s.tree.entries.Perm s'.tree.entries) (hcurrent : s'.current = s.current)
    (hlist : Files.list s.tree s.current folder = .ok entries) :
    ∃ entries', Files.list s'.tree s'.current folder = .ok entries' ∧ entries.Perm entries' := by
  obtain ⟨location, hfind, rfl⟩ := list_eq_ok hlist
  have hbarred : Files.isBarred folder = false := by
    unfold Files.list at hlist
    split at hlist
    · cases hlist
    · next hbarred => simpa using hbarred
  refine ⟨s'.tree.children location, ?_, horder.filterMap _⟩
  rw [Files.list, hbarred, hcurrent, Files.find_keeps (Tree.keeps_of_perm horder) hfind]
  rfl

-- What a link leads to does not depend on the order either.
theorem isFileBehind_of_perm {p : Path} (horder : s.tree.entries.Perm s'.tree.entries)
    (hcurrent : s'.current = s.current) :
    IsFileBehind s'.tree s'.current p node ↔ IsFileBehind s.tree s.current p node := by
  cases node with
  | file content => exact Iff.rfl
  | folder => exact Iff.rfl
  | link target =>
    rw [hcurrent]
    refine exists_congr fun location => exists_congr fun content => exists_congr fun links => ?_
    exact ⟨Files.walk_keeps (Tree.keeps_of_perm horder.symm),
      Files.walk_keeps (Tree.keeps_of_perm horder)⟩

theorem fragments_of_perm (hlist : Files.list s.tree s.current folder = .ok entries)
    (horder : s.tree.entries.Perm s'.tree.entries) (hcurrent : s'.current = s.current)
    (h : s.fragments folder = .ok found) : s'.fragments folder = .ok found := by
  obtain ⟨entries', hlist', hperm⟩ := list_of_perm horder hcurrent hlist
  have hexists : ∃ found', s'.fragments folder = .ok found' := by
    refine (exists_fragments_eq_ok hlist').mpr fun name target hentry hname => ?_
    obtain ⟨location, node, hfind⟩ :=
      (exists_fragments_eq_ok hlist).mp ⟨found, h⟩ name target (hperm.mem_iff.mpr hentry) hname
    rw [hcurrent]
    exact ⟨location, node, Files.find_keeps (Tree.keeps_of_perm horder) hfind⟩
  obtain ⟨found', h'⟩ := hexists
  obtain ⟨names, rfl, hascending, hmem⟩ := listsFiles_of_fragments hlist h
  obtain ⟨names', rfl, hascending', hmem'⟩ := listsFiles_of_fragments hlist' h'
  have hsame : ∀ name, name ∈ names' ↔ name ∈ names := by
    intro name
    rw [hmem, hmem']
    refine and_congr_right fun _ => exists_congr fun node => ?_
    rw [hperm.mem_iff, isFileBehind_of_perm horder hcurrent]
  rw [h', hascending'.sortedLT.eq_of_mem_iff hascending.sortedLT hsame]

-- A folder with a file, a folder, a link to each of them, and a file that is no fragment.
def linkedTree : Tree where
  entries := [(["d"], .folder), (["d", "b.toml"], .file []), (["d", "c.toml"], .folder),
    (["d", "x.toml"], .link "c.toml"), (["d", "notes"], .file []),
    (["d", "a.toml"], .link "notes")]
  distinct := by decide

def linkedTreeReversed : Tree where
  entries := linkedTree.entries.reverse
  distinct := by decide

-- A folder with a link to itself, and a link that goes so often through it before it reaches a file.
def winding (turns : Nat) : String :=
  String.join (List.replicate turns "s/") ++ "f"

def windingTree : Tree where
  entries := [(["d"], .folder), (["d", "s"], .link "."), (["d", "f"], .file []),
    (["d", "a.toml"], .link (winding 40))]
  distinct := by decide

end Defaults

end BuildHook
