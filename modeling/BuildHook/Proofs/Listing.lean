import BuildHook.Proofs.Reading
import BuildHook.Proofs.Sorting
import Mathlib.Data.List.Nodup

/-!
# Listing fragments

A folder lists what stands right below it. Of these entries the fragments are the files of the
right ending, links followed, in ascending order.
-/

namespace BuildHook

/-! ## Entries of a folder -/

namespace Tree

theorem mem_of_lookup {location : Location} {node : Node} {entries : List (Location × Node)}
    (h : lookup location entries = some node) : (location, node) ∈ entries := by
  induction entries with
  | nil => cases h
  | cons entry rest ih =>
    obtain ⟨place, first⟩ := entry
    rw [lookup] at h
    split at h
    · next heq =>
      rw [heq, Option.some.inj h]
      exact List.mem_cons_self
    · exact List.mem_cons_of_mem _ (ih h)

theorem lookup_of_mem {location : Location} {node : Node} {entries : List (Location × Node)}
    (hdistinct : (entries.map Prod.fst).Nodup) (h : (location, node) ∈ entries) :
    lookup location entries = some node := by
  induction entries with
  | nil => cases h
  | cons entry rest ih =>
    obtain ⟨place, first⟩ := entry
    obtain ⟨hnew, hrest⟩ := List.nodup_cons.mp hdistinct
    rw [lookup]
    rcases List.mem_cons.mp h with heq | hmem
    · obtain ⟨rfl, rfl⟩ := Prod.mk.inj heq
      rw [if_pos rfl]
    · have hne : place ≠ location := by
        rintro rfl
        exact hnew (List.mem_map.mpr ⟨_, hmem, rfl⟩)
      rw [if_neg hne]
      exact ih hrest hmem

variable {t : Tree} {folder : Location} {name : String} {node : Node}

-- What an entry of the tree is in the listing of a folder.
theorem entry_of_children {place : Location} {found : String × Node}
    (h : (match place.getLast? with
      | some name => if place.dropLast = folder then some (name, node) else none
      | none => none) = some found) : place = folder ++ [found.1] ∧ node = found.2 := by
  split at h
  · next last hlast =>
    split at h
    · next hfolder =>
      obtain rfl := Option.some.inj h
      refine ⟨?_, rfl⟩
      rw [← hfolder]
      exact (List.dropLast_append_getLast? last hlast).symm
    · cases h
  · cases h

theorem mem_children :
    (name, node) ∈ t.children folder ↔ t.get? (folder ++ [name]) = some node := by
  have hne : folder ++ [name] ≠ [] := by simp
  rw [get?, if_neg hne, children, List.mem_filterMap]
  constructor
  · rintro ⟨⟨place, other⟩, hmem, hentry⟩
    obtain ⟨rfl, rfl⟩ := entry_of_children hentry
    exact lookup_of_mem t.distinct hmem
  · intro h
    exact ⟨_, mem_of_lookup h, by simp⟩

/-- The entries of a folder have different names. -/
theorem nodup_children (t : Tree) (folder : Location) :
    ((t.children folder).map Prod.fst).Nodup := by
  have hdistinct : t.entries.Pairwise fun x y => x.1 ≠ y.1 := List.pairwise_map.mp t.distinct
  refine List.pairwise_map.mpr (List.pairwise_filterMap.mpr (hdistinct.imp ?_))
  rintro ⟨place, node⟩ ⟨place', node'⟩ hne found hfound found' hfound' heq
  obtain ⟨rfl, -⟩ := entry_of_children hfound
  obtain ⟨rfl, -⟩ := entry_of_children hfound'
  exact hne (by rw [heq])

end Tree

/-! ## Fragments -/

-- Of the items of a list, those are kept for which the check says so.
theorem filterAuxM_eq_ok {ε α : Type} {check : α → Except ε Bool} {xs before ys : List α}
    (h : xs.filterAuxM check before = .ok ys) :
    ∃ kept : List α, ys = kept.reverse ++ before ∧ kept.Sublist xs ∧
      ∀ x, x ∈ kept ↔ x ∈ xs ∧ check x = .ok true := by
  induction xs generalizing before with
  | nil => exact ⟨[], (Except.ok.inj h).symm, List.Sublist.refl _, by simp⟩
  | cons x rest ih =>
    rw [List.filterAuxM] at h
    obtain ⟨keep, hcheck, h⟩ := Run.result_bind_eq_ok.mp h
    obtain ⟨kept, hys, hsub, hmem⟩ := ih h
    cases keep with
    | true =>
      refine ⟨x :: kept, by simp [hys], hsub.cons_cons x, fun other => ?_⟩
      rw [List.mem_cons, hmem, List.mem_cons]
      constructor
      · rintro (rfl | ⟨hrest, hother⟩)
        · exact ⟨.inl rfl, hcheck⟩
        · exact ⟨.inr hrest, hother⟩
      · rintro ⟨rfl | hrest, hother⟩
        · exact .inl rfl
        · exact .inr ⟨hrest, hother⟩
    | false =>
      refine ⟨kept, hys, hsub.cons x, fun other => ?_⟩
      rw [hmem, List.mem_cons]
      constructor
      · rintro ⟨hrest, hother⟩
        exact ⟨.inr hrest, hother⟩
      · rintro ⟨rfl | hrest, hother⟩
        · rw [hcheck] at hother
          cases hother
        · exact ⟨hrest, hother⟩

theorem filterM_eq_ok {ε α : Type} {check : α → Except ε Bool} {xs ys : List α}
    (h : xs.filterM check = .ok ys) :
    ys.Sublist xs ∧ ∀ x, x ∈ ys ↔ x ∈ xs ∧ check x = .ok true := by
  obtain ⟨found, haux, h⟩ := Run.result_bind_eq_ok.mp h
  obtain ⟨kept, rfl, hsub, hmem⟩ := filterAuxM_eq_ok haux
  obtain rfl : kept = ys := by simpa using Except.ok.inj h
  exact ⟨hsub, hmem⟩

-- A check that fails does so for one of the items.
theorem filterAuxM_eq_error {ε α : Type} {check : α → Except ε Bool} {xs before : List α} {e : ε}
    (h : xs.filterAuxM check before = .error e) : ∃ x ∈ xs, check x = .error e := by
  induction xs generalizing before with
  | nil => cases h
  | cons x rest ih =>
    rw [List.filterAuxM] at h
    rcases Run.result_bind_eq_error.mp h with hcheck | ⟨keep, -, hrest⟩
    · exact ⟨x, List.mem_cons_self, hcheck⟩
    · obtain ⟨other, hmem, hother⟩ := ih hrest
      exact ⟨other, List.mem_cons_of_mem _ hmem, hother⟩

theorem filterM_eq_error {ε α : Type} {check : α → Except ε Bool} {xs : List α} {e : ε}
    (h : xs.filterM check = .error e) : ∃ x ∈ xs, check x = .error e := by
  rcases Run.result_bind_eq_error.mp h with haux | ⟨_, -, hpure⟩
  · exact filterAuxM_eq_error haux
  · cases hpure

/-- Whether an entry of a folder is a file, links followed. -/
def Files.IsFileEntry (t : Tree) (current : Location) (path : Path) : Node → Prop
  | .file _ => True
  | .folder => False
  | .link _ => ∃ location content, find t current path = .ok (.node location (.file content))

namespace Defaults

variable {s : Session} {folder : Path} {names : List String} {fragments : List Path}

theorem isFragment_eq_true {t : Tree} {current : Location} {name : String} {node : Node} :
    isFragment t current folder (name, node) = .ok true ↔
      Files.IsFileEntry t current (folder.child name) node := by
  cases node with
  | file content => simp [isFragment, Files.IsFileEntry]
  | folder => simp [isFragment, Files.IsFileEntry]
  | link target =>
    rw [isFragment, Files.IsFileEntry]
    cases Files.find t current (folder.child name) with
    | error obstacle => cases obstacle <;> simp
    | ok place =>
      cases place with
      | vacant location last => simp
      | node location node => cases node <;> simp

/-- The names of the fragments of a folder, in ascending order: of what stands in the folder that a
path leads to, the files of the right ending, links followed. -/
structure Lists (s : Session) (folder : Path) (names : List String) : Prop where
  ascending : names.Pairwise (· < ·)
  complete : ∃ location, Files.find s.tree s.current folder = .ok (.node location .folder) ∧
    ∀ name, name ∈ names ↔ isFragmentName name = true ∧
      ∃ node, s.tree.get? (location ++ [name]) = some node ∧
        Files.IsFileEntry s.tree s.current (folder.child name) node

theorem list_eq_ok {t : Tree} {current : Location} {entries : List (String × Node)}
    (h : Files.list t current folder = .ok entries) :
    ∃ location, Files.find t current folder = .ok (.node location .folder) ∧
      entries = t.children location := by
  unfold Files.list at h
  split at h
  · cases h
  · split at h
    · next location hfind => exact ⟨location, hfind, (Except.ok.inj h).symm⟩
    all_goals cases h

theorem fragmentNames_eq_ok {t : Tree} {current location : Location}
    (h : fragmentNames t current folder (t.children location) = .ok names) :
    names.Nodup ∧ ∀ name, name ∈ names ↔ isFragmentName name = true ∧
      ∃ node, t.get? (location ++ [name]) = some node ∧
        Files.IsFileEntry t current (folder.child name) node := by
  unfold fragmentNames at h
  cases hfound : ((t.children location).filter fun entry => isFragmentName entry.1).filterM
      (isFragment t current folder) with
  | error fault =>
    rw [hfound] at h
    cases h
  | ok found =>
    rw [hfound] at h
    obtain rfl := Except.ok.inj h
    obtain ⟨hsub, hmem⟩ := filterM_eq_ok hfound
    refine ⟨?_, fun name => ?_⟩
    · exact (t.nodup_children location).sublist ((hsub.trans List.filter_sublist).map _)
    · rw [List.mem_map]
      constructor
      · rintro ⟨⟨other, node⟩, hentry, rfl⟩
        obtain ⟨hlisted, hfile⟩ := (hmem _).mp hentry
        obtain ⟨hchild, hname⟩ := List.mem_filter.mp hlisted
        exact ⟨hname, node, Tree.mem_children.mp hchild, isFragment_eq_true.mp hfile⟩
      · rintro ⟨hname, node, hnode, hfile⟩
        have hlisted : (name, node) ∈ (t.children location).filter
            fun entry => isFragmentName entry.1 :=
          List.mem_filter.mpr ⟨Tree.mem_children.mpr hnode, hname⟩
        exact ⟨(name, node), (hmem _).mpr ⟨hlisted, isFragment_eq_true.mpr hfile⟩, rfl⟩

-- What a fragment holds does not matter to the listing.
theorem fragments_ne_malformed {fault : Fault} (h : s.fragments folder = .error fault)
    (fragment : Path) : fault ≠ .defaults (.malformed fragment) := by
  rintro rfl
  rcases Run.result_bind_eq_error.mp h with hlist | ⟨entries, -, hrest⟩
  · obtain ⟨cause, -, hfault⟩ := Run.mapError_eq_error.mp hlist
    unfold Run.reporting at hfault
    split at hfault <;> cases hfault
  rcases Run.result_bind_eq_error.mp hrest with hnames | ⟨names, -, hsorted⟩
  · obtain ⟨cause, hnames, hfault⟩ := Run.mapError_eq_error.mp hnames
    obtain rfl := Fault.defaults.inj hfault
    unfold fragmentNames at hnames
    cases hfound : (entries.filter fun entry => isFragmentName entry.1).filterM
        (isFragment s.tree s.current folder) with
    | ok found =>
      rw [hfound] at hnames
      cases hnames
    | error other =>
      rw [hfound] at hnames
      obtain rfl := Except.error.inj hnames
      obtain ⟨⟨name, node⟩, -, hentry⟩ := filterM_eq_error hfound
      unfold isFragment at hentry
      split at hentry
      · cases hentry
      · cases hentry
      · split at hentry <;> cases hentry
  · cases hsorted

theorem fragments_eq_ok (h : s.fragments folder = .ok fragments) :
    ∃ names, fragments = names.map folder.child ∧ Lists s folder names := by
  obtain ⟨entries, hentries, hrest⟩ := Run.result_bind_eq_ok.mp h
  obtain ⟨names, hnames, hsorted⟩ := Run.result_bind_eq_ok.mp hrest
  obtain ⟨location, hfind, rfl⟩ := list_eq_ok (Run.mapError_eq_ok.mp hentries)
  obtain ⟨hnodup, hmem⟩ := fragmentNames_eq_ok (Run.mapError_eq_ok.mp hnames)
  refine ⟨Text.sorted names, (Except.ok.inj hsorted).symm, ?_, location, hfind, fun name => ?_⟩
  · exact Text.pairwise_sorted_of_nodup hnodup
  · rw [(Text.sorted_perm names).mem_iff]
    exact hmem name

end Defaults

end BuildHook
