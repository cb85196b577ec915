import BuildHook.Proofs.Walk

/-!
# Walks through links

A walk that comes to a folder is told as a relation, in which each link leads to a place of its own
before the walk goes on from there. The relation counts the links that are followed, so that a link
can not lead through itself.
-/

namespace BuildHook.Text

theorem notMem_of_mem_pieces {separator : Char} {cs piece : List Char}
    (h : piece ∈ pieces separator cs) : separator ∉ piece := by
  induction cs generalizing piece with
  | nil =>
    obtain rfl := List.mem_singleton.mp h
    exact List.not_mem_nil
  | cons c rest ih =>
    rw [pieces] at h
    split at h
    · rcases List.mem_cons.mp h with rfl | h
      · exact List.not_mem_nil
      · exact ih h
    · next hc =>
      split at h
      · obtain rfl := List.mem_singleton.mp h
        simpa using Ne.symm hc
      · next first more hpieces =>
        rcases List.mem_cons.mp h with rfl | h
        · rw [List.mem_cons, not_or]
          exact ⟨Ne.symm hc, ih (hpieces ▸ List.mem_cons_self)⟩
        · exact ih (hpieces ▸ List.mem_cons_of_mem _ h)

end BuildHook.Text

namespace BuildHook.Files

/-- A walk from a folder to another one, along which a number of links are followed. -/
inductive Leads (t : Tree) : (links : Nat) → (folder : Location) → (steps : List String) →
    (goal : Location) → Prop
  | nil {folder : Location} : Leads t 0 folder [] folder
  | stay {n : Nat} {folder goal : Location} {step : String} {rest : List String}
    (hstay : isStay step = true) (hrest : Leads t n folder rest goal) :
    Leads t n folder (step :: rest) goal
  | up {n : Nat} {folder goal : Location} {rest : List String}
    (hrest : Leads t n folder.dropLast rest goal) : Leads t n folder (".." :: rest) goal
  | down {n : Nat} {folder goal : Location} {step : String} {rest : List String}
    (hname : IsName step) (hfolder : t.get? (folder ++ [step]) = some .folder)
    (hrest : Leads t n (folder ++ [step]) rest goal) : Leads t n folder (step :: rest) goal
  | link {m n : Nat} {folder middle goal : Location} {step target : String} {rest : List String}
    (hname : IsName step) (hlink : t.get? (folder ++ [step]) = some (.link target))
    (htarget : Leads t m (linkBase folder target) (linkSteps target) middle)
    (hrest : Leads t n middle rest goal) : Leads t (m + n + 1) folder (step :: rest) goal

variable {t : Tree} {m n links : Nat} {current folder middle goal location : Location}
  {steps rest names : List String} {step target : String} {p q : Path}

theorem notMem_linkSteps (h : step ∈ linkSteps target) : '/' ∉ step.toList := by
  obtain ⟨piece, hpiece, rfl⟩ := List.mem_map.mp h
  rw [String.toList_ofList]
  exact Text.notMem_of_mem_pieces hpiece

theorem isStep_of_isName (h : IsName step) (hslash : '/' ∉ step.toList) : IsStep step := by
  obtain ⟨hstay, -⟩ := h
  simp only [isStay, Bool.or_eq_false_iff, decide_eq_false_iff_not] at hstay
  exact ⟨hstay.2, hstay.1, hslash⟩

theorem not_isName_of_stay (h : isStay step = true) : ¬IsName step := by
  rintro ⟨hstay, -⟩
  rw [h] at hstay
  cases hstay

namespace Leads

theorem split (h : Leads t n folder (steps ++ rest) goal) :
    ∃ m k middle, Leads t m folder steps middle ∧ Leads t k middle rest goal ∧ n = m + k := by
  induction steps generalizing folder n with
  | nil => exact ⟨0, n, folder, .nil, h, by omega⟩
  | cons step steps ih =>
    rw [List.cons_append] at h
    cases h with
    | stay hstay hrest =>
      obtain ⟨m, k, middle, hfirst, hsecond, hsum⟩ := ih hrest
      exact ⟨m, k, middle, .stay hstay hfirst, hsecond, hsum⟩
    | up hrest =>
      obtain ⟨m, k, middle, hfirst, hsecond, hsum⟩ := ih hrest
      exact ⟨m, k, middle, .up hfirst, hsecond, hsum⟩
    | down hname hfolder hrest =>
      obtain ⟨m, k, middle, hfirst, hsecond, hsum⟩ := ih hrest
      exact ⟨m, k, middle, .down hname hfolder hfirst, hsecond, hsum⟩
    | link hname hlink htarget hrest =>
      obtain ⟨m, k, middle, hfirst, hsecond, hsum⟩ := ih hrest
      exact ⟨_, k, middle, .link hname hlink htarget hfirst, hsecond, by omega⟩

/-- A walk has one end and one number of links. -/
theorem unique (h : Leads t m folder steps middle) (h' : Leads t n folder steps goal) :
    m = n ∧ middle = goal := by
  induction h generalizing n goal with
  | nil => cases h'; exact ⟨rfl, rfl⟩
  | stay hstay _ ih =>
    cases h' with
    | stay _ hrest => exact ih hrest
    | up hrest => cases hstay
    | down hname => exact absurd hname (not_isName_of_stay hstay)
    | link hname => exact absurd hname (not_isName_of_stay hstay)
  | up _ ih =>
    cases h' with
    | stay hstay => cases hstay
    | up hrest => exact ih hrest
    | down hname => exact absurd rfl hname.2
    | link hname => exact absurd rfl hname.2
  | down hname hfolder _ ih =>
    cases h' with
    | stay hstay => exact absurd hname (not_isName_of_stay hstay)
    | up => exact absurd rfl hname.2
    | down _ _ hrest => exact ih hrest
    | link _ hlink => cases hfolder.symm.trans hlink
  | link hname hlink _ _ ihtarget ihrest =>
    cases h' with
    | stay hstay => exact absurd hname (not_isName_of_stay hstay)
    | up => exact absurd rfl hname.2
    | down _ hfolder => cases hlink.symm.trans hfolder
    | link _ hother htarget hrest =>
      cases hlink.symm.trans hother
      obtain ⟨rfl, rfl⟩ := ihtarget htarget
      obtain ⟨rfl, rfl⟩ := ihrest hrest
      exact ⟨rfl, rfl⟩

theorem entries_ne_nil (h : Leads t n folder steps goal) : n = 0 ∨ t.entries ≠ [] := by
  induction h with
  | nil => exact .inl rfl
  | stay _ _ ih => exact ih
  | up _ ih => exact ih
  | down _ _ _ ih => exact ih
  | link _ hlink =>
    right
    intro hnil
    rw [Tree.get?, if_neg (by simp), hnil] at hlink
    cases hlink

end Leads

/-- A leg that arrives at a folder follows no link. One that ends at a link goes on where the link
leads. -/
theorem leads_of_leg :
    (leg t false folder steps = .arrived (.node goal .folder) → Leads t 0 folder steps goal) ∧
      ∀ {next target rest n}, leg t false folder steps = .link next target rest →
        Leads t n (linkBase next target) (linkSteps target ++ rest) goal →
          Leads t (n + 1) folder steps goal := by
  induction steps generalizing folder with
  | nil =>
    refine ⟨fun h => ?_, fun h => ?_⟩
    · obtain ⟨rfl, -⟩ := Place.node.inj (Leg.arrived.inj h)
      exact .nil
    · cases h
  | cons step rest ih =>
    by_cases hstay : isStay step = true
    · rw [leg, if_pos hstay]
      exact ⟨fun h => .stay hstay (ih.1 h), fun h hrest => .stay hstay (ih.2 h hrest)⟩
    by_cases hup : step = ".."
    · subst hup
      rw [leg, if_neg hstay, if_pos rfl]
      exact ⟨fun h => .up (ih.1 h), fun h hrest => .up (ih.2 h hrest)⟩
    have hname : IsName step := ⟨by simpa using hstay, hup⟩
    rw [leg_name hname]
    simp only [Bool.false_and, Bool.false_eq_true, ↓reduceIte]
    cases hnode : t.get? (folder ++ [step]) with
    | none =>
      by_cases hend : rest = [] <;> by_cases hshort : unfound step = .absent <;>
        simp [hend, hshort]
    | some node =>
      cases node with
      | folder =>
        exact ⟨fun h => .down hname hnode (ih.1 h),
          fun h hrest => .down hname hnode (ih.2 h hrest)⟩
      | file content => by_cases hend : rest = [] <;> simp [hend]
      | link own =>
        refine ⟨fun h => ?_, fun h hrest => ?_⟩
        · cases h
        · obtain ⟨rfl, rfl, rfl⟩ := Leg.link.inj h
          obtain ⟨m, k, middle, htarget, hlater, rfl⟩ := hrest.split
          exact .link hname hnode htarget hlater

/-- A path that leads to a folder does so through as many links as are followed. -/
theorem leads_of_find (h : find t current p = .ok (.node goal .folder)) :
    ∃ n ≤ linkLimit, Leads t n (start current p) p.steps goal := by
  refine walk_rec (motive := fun links folder steps => ∃ n ≤ links, Leads t n folder steps goal)
    ?_ ?_ h
  · intro links folder steps hleg
    exact ⟨0, Nat.zero_le _, leads_of_leg.1 hleg⟩
  · rintro links folder steps next target rest hleg ⟨n, hn, hrest⟩
    exact ⟨n + 1, by omega, leads_of_leg.2 hleg hrest⟩

/-! ## Folders by their own paths -/

/-- The location is a folder, as is each above it, and paths can name all of them. -/
structure IsReal (t : Tree) (location : Location) : Prop where
  names : ∀ name ∈ location, IsStep name ∧ name ≠ ".."
  folders : ∀ place, place <+: location → t.get? place = some .folder

theorem isReal_nil (t : Tree) : IsReal t [] where
  names := nofun
  folders place h := by rw [List.prefix_nil.mp h]; rfl

theorem IsReal.dropLast (h : IsReal t location) : IsReal t location.dropLast where
  names name hmem := h.names name (List.dropLast_subset _ hmem)
  folders place hplace := h.folders place (hplace.trans location.dropLast_prefix)

theorem IsReal.child (h : IsReal t location) (hstep : IsStep step) (hup : step ≠ "..")
    (hfolder : t.get? (location ++ [step]) = some .folder) : IsReal t (location ++ [step]) where
  names name hmem := by
    rcases List.mem_append.mp hmem with hmem | hmem
    · exact h.names name hmem
    · obtain rfl := List.mem_singleton.mp hmem
      exact ⟨hstep, hup⟩
  folders place hplace := by
    rcases List.prefix_concat_iff.mp hplace with rfl | hplace
    · exact hfolder
    · exact h.folders place hplace

theorem Leads.isReal (h : Leads t n folder steps goal) (hslash : ∀ step ∈ steps, '/' ∉ step.toList)
    (hfolder : IsReal t folder) : IsReal t goal := by
  induction h with
  | nil => exact hfolder
  | stay _ _ ih => exact ih (List.forall_mem_cons.mp hslash).2 hfolder
  | up _ ih => exact ih (List.forall_mem_cons.mp hslash).2 hfolder.dropLast
  | down hname hnode _ ih =>
    obtain ⟨hown, hslash⟩ := List.forall_mem_cons.mp hslash
    exact ih hslash (hfolder.child (isStep_of_isName hname hown) hname.2 hnode)
  | @link _ _ folder middle goal step target rest _ _ _ _ ihtarget ihrest =>
    refine ihrest (List.forall_mem_cons.mp hslash).2 (ihtarget (fun _ => notMem_linkSteps) ?_)
    rw [linkBase]
    split
    · exact isReal_nil t
    · exact hfolder

theorem leg_of_isReal (h : IsReal t (folder ++ names)) :
    leg t false folder names = .arrived (.node (folder ++ names) .folder) := by
  induction names generalizing folder with
  | nil => rw [List.append_nil, leg]
  | cons name rest ih =>
    obtain ⟨hstep, hup⟩ := h.names name (by simp)
    have hnode : t.get? (folder ++ [name]) = some .folder := h.folders _ (by simp)
    rw [leg_name (isName_of_isStep hstep hup), hnode]
    simp only [Bool.false_and, Bool.false_eq_true, ↓reduceIte]
    have hsplit : folder ++ name :: rest = folder ++ [name] ++ rest := by simp
    rw [hsplit] at h ⊢
    exact ih h

/-- The path of such a folder leads to it. -/
theorem IsReal.find_pathOf (h : IsReal t location) (current : Location) :
    find t current (pathOf location) = .ok (.node location .folder) := by
  have hsteps : (pathOf location).steps = location :=
    List.filter_eq_self.mpr fun name hmem => decide_eq_true (h.names name hmem).1
  rw [find, hsteps]
  exact walk_of_arrived (leg_of_isReal h)

end BuildHook.Files
