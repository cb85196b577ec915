import BuildHook.Proofs.Places
import BuildHook.Proofs.Refusals

/-!
# File operations that are tried again

Folders that are there are not made again, a file that is written twice holds what was written last,
and what is removed in the end leaves the rest as it was.
-/

namespace BuildHook

namespace Tree

variable {t t' t'' : Tree} {place : Location}

theorem without_without (place : Location) (entries : List (Location × Node)) :
    without place (without place entries) = without place entries := by
  simp [without]

theorem put_put (t : Tree) (place : Location) (first second : Node) :
    (t.put place first).put place second = t.put place second := by
  have hentries : without place ((place, first) :: without place t.entries) =
      without place t.entries := by
    rw [without, List.filter_cons_of_neg (by simp)]
    exact without_without place t.entries
  simp only [put, hentries]

-- What walks pass stays where it is, unless a file takes its place.
def Covers (t t' : Tree) : Prop :=
  ∀ location node, Files.IsWay node → t.get? location = some node →
    t'.get? location = some node ∨ ∃ content, t'.get? location = some (.file content)

end Tree

namespace Files

variable {t t' : Tree} {links : Nat} {folder location place : Location} {steps : List String}
  {current : Location} {p q : Path} {levels : Nat} {fault : Fault} {content : List UInt8}

/-! ## Folders -/

theorem holder_of_find {found : Place} (hne : p.steps ≠ []) (h : find t current p = .ok found) :
    ∃ location, holder t current p = .ok location := by
  have hstep : p.steps.getLast hne ≠ "" := (p.isStep _ (List.getLast_mem hne)).1
  rw [find, ← List.dropLast_append_getLast hne] at h
  obtain ⟨location, hwalk⟩ := walk_parent hstep h
  exact ⟨location, holder_eq_ok.mpr hwalk⟩

-- What leads to a folder is there, so that it cannot be made.
theorem makeFolder_of_folder (hbarred : isBarred p = false)
    (h : find t current p = .ok (.node location .folder)) :
    makeFolder t current p = .error (refusal p .occupied) := by
  unfold makeFolder
  rw [hbarred]
  by_cases hne : p.steps = []
  · have hholder : holder t current p = .ok (start current p) := by
      rw [holder, hne]
      rfl
    have hlast : lastName p = none := by
      rw [lastName, hne]
      rfl
    simp [hholder, hlast]
  · obtain ⟨folder, hholder⟩ := holder_of_find hne h
    simp only [hholder, Bool.false_eq_true, ↓reduceIte]
    cases hlast : lastName p with
    | none => rfl
    | some name =>
      cases hnode : t.get? (folder ++ [name]) with
      | some node => simp [hnode]
      | none =>
        -- then nothing would stand under the path
        obtain ⟨hname, hne⟩ := isName_of_lastName hlast
        rw [find, steps_of_lastName hlast] at h
        cases walk_vacant hname hne (holder_eq_ok.mp hholder) hnode h

theorem unlessFolder_of_folder (hbarred : isBarred p = false)
    (h : find t current p = .ok (.node location .folder)) (obstacle : Obstacle) :
    unlessFolder t current p (refusal p obstacle) = .ok ⟨⟩ := by
  rw [unlessFolder, isFolder, hbarred, h]
  rfl

theorem makeLevels_of_folder (hbarred : isBarred p = false)
    (h : find t current p = .ok (.node location .folder)) (levels : Nat) :
    makeLevels t current levels p = (t, .ok ⟨⟩) := by
  cases levels <;>
    simp only [makeLevels, makeFolder_of_folder hbarred h, refusal] <;>
    rw [← refusal, unlessFolder_of_folder hbarred h]

-- The three ways in which the levels of a path are made.
theorem makeLevels_of_ok (h : makeFolder t current p = .ok t') (levels : Nat) :
    makeLevels t current levels p = (t', .ok ⟨⟩) := by
  cases levels <;> simp only [makeLevels, h]

theorem makeLevels_of_refused (h : makeFolder t current p = .error fault)
    (hother : ∀ path second, fault ≠ .refused .absent path second) (levels : Nat) :
    makeLevels t current levels p = (t, unlessFolder t current p fault) := by
  cases levels <;> unfold makeLevels <;> split <;> simp_all only [Except.error.injEq, reduceCtorEq]
  all_goals exact absurd ‹_ = fault›.symm (hother _ _)

theorem makeLevels_of_absent {path : String} {second : Option String}
    (h : makeFolder t current p = .error (.refused .absent path second)) (levels : Nat) :
    makeLevels t current (levels + 1) p =
      match makeLevels t current levels p.parent with
      | (above, .error fault) => (above, .error fault)
      | (above, .ok _) => makeLevels above current 0 p := by
  rw [makeLevels, h]
  dsimp only
  rcases makeLevels t current levels p.parent with ⟨above, fault | _⟩ <;> rfl

theorem makeFolder_of_barred (h : isBarred p = true) :
    makeFolder t current p = .error (barrier p none) := by
  rw [makeFolder, if_pos h]

-- A path that is barred is no path to something missing.
theorem barrier_ne_absent (p : Path) (path : String) (second : Option String) :
    barrier p none ≠ .refused .absent path second := by
  unfold barrier
  split <;> nofun

theorem isBarred_of_unlessFolder (h : unlessFolder t current p fault = .ok ⟨⟩) :
    isBarred p = false := by
  unfold unlessFolder at h
  split at h
  · next hfolder =>
    rw [Bool.and_eq_true, isFolder, Bool.and_eq_true, Bool.not_eq_true'] at hfolder
    exact hfolder.2.1
  · cases h

theorem isBarred_parent (h : isBarred p = false) : isBarred p.parent = false := by
  rw [← Bool.not_eq_true] at h ⊢
  exact mt isBarred_of_parent h

-- The folder above a folder is there as well, and so is the folder above one that can be made.
theorem find_above (h : find t current p = .ok (.node location .folder)) :
    ∃ above, find t current p.parent = .ok (.node above .folder) := by
  by_cases hne : p.steps = []
  · have hself : p.parent = p := Path.ext rfl (by simp [Path.parent, hne])
    exact ⟨location, by rw [hself]; exact h⟩
  · obtain ⟨above, hholder⟩ := holder_of_find hne h
    exact ⟨above, holder_eq_ok.mp hholder⟩

theorem find_above_of_makeFolder (h : makeFolder t current p = .ok t') :
    ∃ above, find t current p.parent = .ok (.node above .folder) := by
  unfold makeFolder at h
  split at h
  · cases h
  split at h
  · cases h
  next above hholder => exact ⟨above, holder_eq_ok.mp hholder⟩

-- No folder of a path, at most some levels up, can be made.
def IsStuck (t : Tree) (current : Location) (levels : Nat) (p : Path) : Prop :=
  ∃ fault, makeLevels t current levels p = (t, .error fault)

theorem IsStuck.no_folder (h : IsStuck t current levels p) (hbarred : isBarred p = false)
    (location : Location) : find t current p ≠ .ok (.node location .folder) := by
  obtain ⟨fault, hstuck⟩ := h
  intro hfind
  cases hstuck.symm.trans (makeLevels_of_folder hbarred hfind levels)

theorem IsStuck.below (h : IsStuck t current levels p.parent) :
    IsStuck t current (levels + 1) p := by
  have hnone (hbarred : isBarred p = false) (above : Location) :
      find t current p.parent ≠ .ok (.node above .folder) :=
    h.no_folder (isBarred_parent hbarred) above
  cases hmake : makeFolder t current p with
  | ok made =>
    obtain ⟨above, habove⟩ := find_above_of_makeFolder hmake
    have hbarred : isBarred p = false := by
      by_contra hbarred
      cases hmake.symm.trans (makeFolder_of_barred (Bool.not_eq_false _ ▸ hbarred))
    exact absurd habove (hnone hbarred above)
  | error fault =>
    by_cases habsent : ∃ path second, fault = .refused .absent path second
    · obtain ⟨path, second, rfl⟩ := habsent
      obtain ⟨cause, hstuck⟩ := h
      exact ⟨cause, by rw [makeLevels_of_absent hmake, hstuck]⟩
    · have hother : ∀ path second, fault ≠ .refused .absent path second :=
        fun path second hfault => habsent ⟨path, second, hfault⟩
      rw [IsStuck, makeLevels_of_refused hmake hother]
      cases hunless : unlessFolder t current p fault with
      | error cause => exact ⟨cause, rfl⟩
      | ok _ =>
        obtain ⟨location, hfind⟩ := unlessFolder_eq_ok hunless
        obtain ⟨above, habove⟩ := find_above hfind
        exact absurd habove (hnone (isBarred_of_unlessFolder hunless) above)

-- What cannot be made at once cannot be made again.
theorem IsStuck.of_zero (h : makeLevels t current 0 p = (t', .error fault)) :
    t' = t ∧ IsStuck t current 0 p := by
  have htree : t' = t := by
    unfold makeLevels at h
    split at h
    · cases h
    · exact (Prod.mk.inj h).1.symm
    · exact (Prod.mk.inj h).1.symm
  exact ⟨htree, fault, htree ▸ h⟩

-- Where the folder above is there, it does not matter how many levels are tried.
theorem IsStuck.of_above (h : IsStuck t current 0 p)
    (habove : find t current p.parent = .ok (.node location .folder)) (levels : Nat) :
    IsStuck t current levels p := by
  obtain ⟨fault, hstuck⟩ := h
  cases levels with
  | zero => exact ⟨fault, hstuck⟩
  | succ levels =>
    cases hmake : makeFolder t current p with
    | ok made => cases hstuck.symm.trans (makeLevels_of_ok hmake 0)
    | error cause =>
      by_cases habsent : ∃ path second, cause = .refused .absent path second
      · obtain ⟨path, second, rfl⟩ := habsent
        have hbarred : isBarred p = false := by
          by_contra hbarred
          have hmade := hmake.symm.trans (makeFolder_of_barred (Bool.not_eq_false _ ▸ hbarred))
          exact barrier_ne_absent p _ _ (Except.error.inj hmade).symm
        refine ⟨fault, ?_⟩
        rw [makeLevels_of_absent hmake, makeLevels_of_folder (isBarred_parent hbarred) habove]
        exact hstuck
      · have hother : ∀ path second, cause ≠ .refused .absent path second :=
          fun path second hcause => habsent ⟨path, second, hcause⟩
        refine ⟨fault, ?_⟩
        rw [makeLevels_of_refused hmake hother, ← makeLevels_of_refused hmake hother 0, hstuck]

/-- What could not be made cannot be made the next time either. -/
theorem isStuck_of_makeLevels (h : makeLevels t current levels p = (t', .error fault)) :
    IsStuck t' current levels p := by
  induction levels generalizing p t' fault with
  | zero =>
    obtain ⟨rfl, hstuck⟩ := IsStuck.of_zero h
    exact hstuck
  | succ levels ih =>
    cases hmake : makeFolder t current p with
    | ok made =>
      rw [makeLevels_of_ok hmake] at h
      cases h
    | error cause =>
      by_cases habsent : ∃ path second, cause = .refused .absent path second
      · obtain ⟨path, second, rfl⟩ := habsent
        rw [makeLevels_of_absent hmake] at h
        rcases habove : makeLevels t current levels p.parent with ⟨above, other | _⟩
        · rw [habove] at h
          obtain ⟨rfl, -⟩ := Prod.mk.inj h
          exact (ih habove).below
        · -- the folder above is there by now, but not the one below
          rw [habove] at h
          obtain ⟨rfl, hstuck⟩ := IsStuck.of_zero h
          have hfind := (makeLevels_spec t current levels p.parent).2
          rw [habove] at hfind
          obtain ⟨location, hfind⟩ := hfind rfl
          exact hstuck.of_above hfind _
      · have hother : ∀ path second, cause ≠ .refused .absent path second :=
          fun path second hcause => habsent ⟨path, second, hcause⟩
        have hsame := makeLevels_of_refused hmake hother (levels + 1)
        obtain ⟨rfl, -⟩ := Prod.mk.inj (hsame.symm.trans h)
        exact ⟨fault, h⟩

theorem makeFolders_of_folder (h : find t current p = .ok (.node location .folder)) :
    (makeFolders t current p).1 = t := by
  cases hbarred : isBarred p with
  | true =>
    rw [makeFolders, makeLevels_of_refused (makeFolder_of_barred hbarred) (barrier_ne_absent p)]
  | false => rw [makeFolders, makeLevels_of_folder hbarred h]

/-- Folders that have been made are not made again, nor any that could not be made. -/
theorem makeFolders_again (t : Tree) (current : Location) (p : Path) :
    (makeFolders (makeFolders t current p).1 current p).1 = (makeFolders t current p).1 := by
  rcases hmake : makeFolders t current p with ⟨made, fault | _⟩
  · obtain ⟨other, hstuck⟩ := isStuck_of_makeLevels hmake
    change (makeLevels made current p.steps.length p).1 = made
    rw [hstuck]
  · have hfind := find_makeFolders t current p
    rw [hmake] at hfind
    obtain ⟨location, hfind⟩ := hfind rfl
    exact makeFolders_of_folder hfind

/-! ## Files in the way -/

-- A leg that passes folders up to a folder or a link does so still, or runs into a file.
theorem leg_covers (h : t.Covers t') (hstands : (leg t false folder steps).StandsOn IsWay) :
    leg t' false folder steps = leg t false folder steps ∨
      (∃ place content, leg t' false folder steps = .arrived (.node place (.file content))) ∨
      leg t' false folder steps = .blocked .notFolder := by
  induction steps generalizing folder with
  | nil => exact .inl rfl
  | cons step rest ih =>
    by_cases hstay : isStay step = true
    · simp only [leg, if_pos hstay] at hstands ⊢
      exact ih hstands
    by_cases hup : step = ".."
    · simp only [leg, if_neg hstay, if_pos hup] at hstands ⊢
      exact ih hstands
    have hname : IsName step := ⟨by simpa using hstay, hup⟩
    rw [leg_name hname] at hstands
    simp only [leg_name hname, Bool.false_and, Bool.false_eq_true, ↓reduceIte] at hstands ⊢
    cases hnode : t.get? (folder ++ [step]) with
    | none =>
      rw [hnode] at hstands
      dsimp only at hstands
      split at hstands <;> exact hstands.elim
    | some node =>
      have hway : IsWay node := by
        rintro content rfl
        rw [hnode] at hstands
        dsimp only at hstands
        split at hstands
        · exact hstands content rfl
        · exact hstands
      rcases h _ _ hway hnode with hsame | ⟨content, hfile⟩
      · rw [hsame]
        cases node with
        | folder =>
          rw [hnode] at hstands
          exact ih hstands
        | file content => exact absurd rfl (hway content)
        | link target => exact .inl rfl
      · -- the file ends the leg, or is in its way
        rw [hfile]
        dsimp only
        split
        · exact .inr (.inl ⟨_, content, rfl⟩)
        · exact .inr (.inr rfl)

/-- A path to a folder leads there still, or to a file, or runs into one; never is a step of it
missing. -/
theorem find_covers (h : t.Covers t') (hfind : find t current p = .ok (.node location .folder)) :
    find t' current p = .ok (.node location .folder) ∨
      (∃ place content, find t' current p = .ok (.node place (.file content))) ∨
      find t' current p = .error .notFolder := by
  refine walk_rec (motive := fun links folder steps =>
    walk t' false links folder steps = .ok (.node location .folder) ∨
      (∃ place content, walk t' false links folder steps = .ok (.node place (.file content))) ∨
      walk t' false links folder steps = .error .notFolder) ?_ ?_ hfind
  · intro links folder steps hleg
    have hway : (leg t false folder steps).StandsOn IsWay := by
      rw [hleg]
      exact fun _ => nofun
    rcases leg_covers h hway with hsame | ⟨place, content, hfile⟩ | hblocked
    · exact .inl (walk_of_arrived (hsame.trans hleg))
    · exact .inr (.inl ⟨place, content, walk_of_arrived hfile⟩)
    · exact .inr (.inr (walk_of_blocked hblocked))
  · intro links folder steps next target rest hleg ih
    have hway : (leg t false folder steps).StandsOn IsWay := by
      rw [hleg]
      trivial
    rcases leg_covers h hway with hsame | ⟨place, content, hfile⟩ | hblocked
    · rw [walk_of_link (hsame.trans hleg)]
      exact ih
    · exact .inr (.inl ⟨place, content, walk_of_arrived hfile⟩)
    · exact .inr (.inr (walk_of_blocked hblocked))

/-! ## Removing -/

-- What a path names is gone, if it is a file, and all else is as it was.
inductive Cleared (current : Location) (p : Path) (t t' : Tree) : Prop
  | empty (hnone : ∀ place, Slot t current p place → t.get? place = none) (hsame : t' = t)
  | removed {place : Location} (hslot : Slot t current p place) (hloose : t.IsLoose place)
    (hrest : ∀ location, t'.get? location = if place = location then none else t.get? location)

theorem removeIfThere_eq_ok (h : removeIfThere t current p = .ok t') :
    isBarred p = false ∧
      ((holder t current p = .error .absent ∧ t' = t) ∨
        ∃ folder name, holder t current p = .ok folder ∧ lastName p = some name ∧
          (t.get? (folder ++ [name]) = none ∧ t' = t ∨
            ∃ node, t.get? (folder ++ [name]) = some node ∧ node ≠ .folder ∧
              t' = t.erase (folder ++ [name]))) := by
  unfold removeIfThere remove at h
  cases hbarred : isBarred p with
  | true =>
    simp only [hbarred, ↓reduceIte] at h
    split at h
    · next hfault => exact absurd (Except.error.inj hfault) (barrier_ne_absent p _ _)
    · cases h
  | false =>
    refine ⟨rfl, ?_⟩
    simp only [hbarred, Bool.false_eq_true, ↓reduceIte, refusal] at h
    cases hholder : holder t current p with
    | error obstacle =>
      simp only [hholder] at h
      cases obstacle <;> cases h
      exact .inl ⟨rfl, rfl⟩
    | ok folder =>
      simp only [hholder] at h
      cases hlast : lastName p with
      | none => simp [hlast] at h
      | some name =>
        simp only [hlast] at h
        refine .inr ⟨folder, name, rfl, rfl, ?_⟩
        cases hnode : t.get? (folder ++ [name]) with
        | none =>
          simp only [hnode] at h
          split at h
          · exact .inl ⟨rfl, (Except.ok.inj h).symm⟩
          · cases h
        | some node =>
          cases node with
          | folder => simp [hnode] at h
          | file content =>
            simp only [hnode] at h
            exact .inr ⟨_, rfl, nofun, (Except.ok.inj h).symm⟩
          | link target =>
            simp only [hnode] at h
            exact .inr ⟨_, rfl, nofun, (Except.ok.inj h).symm⟩

theorem cleared_of_removeIfThere
    (hlink : ∀ place, Slot t current p place → ∀ target, t.get? place ≠ some (.link target))
    (h : removeIfThere t current p = .ok t') : Cleared current p t t' := by
  obtain ⟨-, ⟨hholder, rfl⟩ | ⟨folder, name, hholder, hlast, hrest⟩⟩ := removeIfThere_eq_ok h
  · refine .empty (fun place hslot => ?_) rfl
    obtain ⟨folder, name, hparent, -, -⟩ := hslot
    cases hholder.symm.trans (holder_eq_ok.mpr hparent)
  · have hslot : Slot t current p (folder ++ [name]) :=
      ⟨folder, name, holder_eq_ok.mp hholder, hlast, rfl⟩
    rcases hrest with ⟨hnone, rfl⟩ | ⟨node, hnode, hfolder, rfl⟩
    · exact .empty (fun place hother => hother.unique hslot ▸ hnone) rfl
    · have hloose : t.IsLoose (folder ++ [name]) :=
        ⟨fun h => hfolder (Option.some.inj (hnode.symm.trans h)), hlink _ hslot⟩
      exact .removed hslot hloose fun location => Tree.get?_erase t hslot.ne_nil location

namespace Cleared

theorem keeps (h : Cleared current p t t') : t'.Keeps t := by
  rcases h with ⟨-, rfl⟩ | ⟨hslot, -, hrest⟩
  · exact fun _ _ => id
  · intro location node hnode
    rw [hrest] at hnode
    split at hnode
    · cases hnode
    · exact hnode

/-- Nothing is in the slot of the path any more. -/
theorem slot_none (h : Cleared current p t t') (hslot : Slot t' current p place) :
    t'.get? place = none := by
  obtain ⟨folder, name, hparent, hlast, rfl⟩ := hslot
  have hbefore : Slot t current p (folder ++ [name]) :=
    ⟨folder, name, find_keeps h.keeps hparent, hlast, rfl⟩
  rcases h with ⟨hnone, rfl⟩ | ⟨hplace, -, hrest⟩
  · exact hnone _ hbefore
  · rw [hrest, if_pos (hplace.unique hbefore)]

theorem get? (h : Cleared current p t t') (location : Location) :
    t'.get? location = t.get? location ∨ Slot t current p location := by
  rcases h with ⟨-, rfl⟩ | ⟨hslot, -, hrest⟩
  · exact .inl rfl
  · rw [hrest]
    split
    · next heq => exact .inr (heq ▸ hslot)
    · exact .inl rfl

end Cleared

end Files

end BuildHook
