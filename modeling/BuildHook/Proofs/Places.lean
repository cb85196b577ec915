import BuildHook.Proofs.Walk

/-!
# Places of files

Where a path would put a file, and what stays true of other paths when files are put, replaced and
taken away there. As long as no folder and no link is in these places, paths lead where they led.
-/

namespace BuildHook

namespace Tree

-- The second tree has the same links, and at least the folders of the first. Files do not count.
def SameWays (t t' : Tree) : Prop :=
  (∀ location, t.get? location = some .folder → t'.get? location = some .folder) ∧
    ∀ location target, t'.get? location = some (.link target) ↔
      t.get? location = some (.link target)

-- Neither a folder nor a link is in the place.
structure IsLoose (t : Tree) (place : Location) : Prop where
  folder : t.get? place ≠ some .folder
  link : ∀ target, t.get? place ≠ some (.link target)

-- The second tree has the nodes of the first and some folders more, some places left out of account.
def GrowsOff (places : List Location) (t t' : Tree) : Prop :=
  ∀ location, location ∉ places → t'.get? location = t.get? location ∨
    t.get? location = none ∧ t'.get? location = some .folder

variable {t t' t'' : Tree} {places : List Location} {place : Location} {node : Node}

theorem IsLoose.of_file {content : List UInt8} (h : t.get? place = some (.file content)) :
    t.IsLoose place := by
  constructor <;> simp [h]

theorem IsLoose.of_none (h : t.get? place = none) : t.IsLoose place := by
  constructor <;> simp [h]

theorem IsLoose.of_grows (hgrows : t.Grows t') (h : t'.IsLoose place) : t.IsLoose place where
  folder hnode := h.folder (hgrows.keeps place _ hnode)
  link target hnode := h.link target (hgrows.keeps place _ hnode)

namespace SameWays

theorem refl (t : Tree) : t.SameWays t :=
  ⟨fun _ => id, fun _ _ => Iff.rfl⟩

theorem trans (h : t.SameWays t') (h' : t'.SameWays t'') : t.SameWays t'' :=
  ⟨fun location hfolder => h'.1 location (h.1 location hfolder),
    fun location target => (h'.2 location target).trans (h.2 location target)⟩

theorem keeps (h : t.SameWays t') : t.KeepsOf Files.IsWay t' := by
  intro location node hway hnode
  cases node with
  | folder => exact h.1 location hnode
  | file content => exact absurd rfl (hway content)
  | link target => exact (h.2 location target).mpr hnode

end SameWays

namespace GrowsOff

theorem of_grows (h : t.Grows t') : t.GrowsOff places t' :=
  fun location _ => h location

theorem trans (h : t.GrowsOff places t') (h' : t'.GrowsOff places t'') : t.GrowsOff places t'' :=
  fun location hlocation => filled_trans (P := fun node => node = some .folder) (by simp)
    (h location hlocation) (h' location hlocation)

theorem put (hmem : place ∈ places) (hne : place ≠ []) (node : Node) :
    t.GrowsOff places (t.put place node) := by
  intro location hlocation
  have hother : place ≠ location := fun heq => hlocation (heq ▸ hmem)
  rw [get?_put t hne, if_neg hother]
  exact .inl rfl

-- Changes in places without folders and links leave the ways as they are.
theorem sameWays (h : t.GrowsOff places t') (hbefore : ∀ place ∈ places, t.IsLoose place)
    (hafter : ∀ place ∈ places, t'.IsLoose place) : t.SameWays t' := by
  constructor
  · intro location hfolder
    by_cases hmem : location ∈ places
    · exact absurd hfolder (hbefore location hmem).folder
    · rcases h location hmem with hsame | ⟨hnone, -⟩
      · rw [hsame, hfolder]
      · rw [hnone] at hfolder
        cases hfolder
  · intro location target
    by_cases hmem : location ∈ places
    · have hnew := (hafter location hmem).link target
      have hold := (hbefore location hmem).link target
      exact ⟨fun hlink => absurd hlink hnew, fun hlink => absurd hlink hold⟩
    · rcases h location hmem with hsame | ⟨hnone, hfolder⟩
      · rw [hsame]
      · simp [hnone, hfolder]

end GrowsOff

theorem Grows.sameWays (h : t.Grows t') : t.SameWays t' := by
  have hoff : t.GrowsOff [] t' := .of_grows h
  exact hoff.sameWays nofun nofun

end Tree

namespace Files

variable {t t' : Tree} {making : Bool} {links : Nat} {folder location place other : Location}
  {steps : List String} {current : Location} {p : Path} {content written : List UInt8}

/-! ## Files with another content -/

-- A leg that ends at a file ends there in all trees with the same ways and some file in the place.
theorem leg_file (hleg : leg t making folder steps = .arrived (.node place (.file content))) :
    t.get? place = some (.file content) ∧ ∀ t' written, t.KeepsOf IsWay t' →
      t'.get? place = some (.file written) →
        leg t' making folder steps = .arrived (.node place (.file written)) := by
  induction steps generalizing folder with
  | nil => cases hleg
  | cons step rest ih =>
    by_cases hstay : isStay step = true
    · simp only [leg, if_pos hstay] at hleg ⊢
      exact ih hleg
    by_cases hup : step = ".."
    · simp only [leg, if_neg hstay, if_pos hup] at hleg ⊢
      exact ih hleg
    have hname : IsName step := ⟨by simpa using hstay, hup⟩
    rw [leg_name hname] at hleg
    simp only [leg_name hname]
    split at hleg
    · cases hleg
    · next hslash =>
      simp only [if_neg hslash]
      cases hnode : t.get? (folder ++ [step]) with
      | none =>
        rw [hnode] at hleg
        dsimp only at hleg
        split at hleg <;> cases hleg
      | some node =>
        rw [hnode] at hleg
        cases node with
        | folder =>
          obtain ⟨hfile, hsame⟩ := ih hleg
          refine ⟨hfile, fun t' written hways hwritten => ?_⟩
          have hfolder : IsWay .folder := fun content h => by cases h
          rw [hways _ .folder hfolder hnode]
          exact hsame t' written hways hwritten
        | link target => cases hleg
        | file found =>
          dsimp only at hleg
          split at hleg
          · next hlast =>
            obtain ⟨rfl, hfound⟩ := Place.node.inj (Leg.arrived.inj hleg)
            refine ⟨by rw [hnode, hfound], fun t' written _ hwritten => ?_⟩
            rw [hwritten]
            simp only [hlast, ↓reduceIte]
          · cases hleg

-- Where a walk leads to a file, the tree has that file.
theorem get?_of_walk
    (hwalk : walk t making links folder steps = .ok (.node place (.file content))) :
    t.get? place = some (.file content) := by
  refine walk_rec (motive := fun _ _ _ => t.get? place = some (.file content)) ?_ ?_ hwalk
  · intro _ _ _ hleg
    exact (leg_file hleg).1
  · intro _ _ _ _ _ _ _ ih
    exact ih

-- A path that leads to a file leads there as long as the ways stay and there is some file.
theorem find_refill (h : t.KeepsOf IsWay t') (hplace : t'.get? place = some (.file written))
    (hfind : find t current p = .ok (.node place (.file content))) :
    find t' current p = .ok (.node place (.file written)) := by
  refine walk_rec (motive := fun links folder steps =>
    walk t' false links folder steps = .ok (.node place (.file written))) ?_ ?_ hfind
  · intro links folder steps hleg
    exact walk_of_arrived ((leg_file hleg).2 t' written h hplace)
  · intro links folder steps next target rest hleg ih
    have hsame := leg_keeps h (fun _ => id) (by rw [hleg]; trivial)
    rw [walk_of_link (hsame.trans hleg)]
    exact ih

theorem read_eq_ok :
    read t current p = .ok content ↔
      isBarred p = false ∧ ∃ place, find t current p = .ok (.node place (.file content)) := by
  unfold read
  cases isBarred p with
  | true => simp
  | false =>
    cases find t current p with
    | error obstacle => simp
    | ok found =>
      cases found with
      | vacant folder name => simp
      | node found node => cases node <;> simp

/-! ## Slots -/

/-- The place that the last step of a path names, in the folder that the other steps lead to. -/
def Slot (t : Tree) (current : Location) (p : Path) (place : Location) : Prop :=
  ∃ folder name, find t current p.parent = .ok (.node folder .folder) ∧ lastName p = some name ∧
    place = folder ++ [name]

theorem Slot.ne_nil (h : Slot t current p place) : place ≠ [] := by
  obtain ⟨folder, name, -, -, rfl⟩ := h
  simp

theorem Slot.keeps (h : Slot t current p place) (hways : t.SameWays t') :
    Slot t' current p place := by
  obtain ⟨folder, name, hparent, hlast, rfl⟩ := h
  exact ⟨folder, name, find_keepsWays hways.keeps hparent, hlast, rfl⟩

theorem Slot.unique (h : Slot t current p place) (h' : Slot t current p other) : place = other := by
  obtain ⟨folder, name, hparent, hlast, rfl⟩ := h
  obtain ⟨folder', name', hparent', hlast', rfl⟩ := h'
  obtain ⟨rfl, -⟩ := Place.node.inj (Except.ok.inj (hparent.symm.trans hparent'))
  rw [Option.some.inj (hlast.symm.trans hlast')]

-- A file in the slot of a path is what the path leads to.
theorem Slot.find (h : Slot t current p place) (hnode : t.get? place = some (.file content)) :
    Files.find t current p = .ok (.node place (.file content)) := by
  obtain ⟨folder, name, hparent, hlast, rfl⟩ := h
  exact find_of_get? hparent hlast hnode nofun

-- Without a link in the slot of a path, a file that the path leads to is in the slot.
theorem Slot.place_of_find (h : Slot t current p place)
    (hlink : ∀ target, t.get? place ≠ some (.link target))
    (hfind : Files.find t current p = .ok (.node other (.file content))) : other = place := by
  obtain ⟨folder, name, hparent, hlast, rfl⟩ := h
  cases hnode : t.get? (folder ++ [name]) with
  | none =>
    obtain ⟨hname, hne⟩ := isName_of_lastName hlast
    rw [Files.find, steps_of_lastName hlast] at hfind
    cases walk_vacant hname hne hparent hnode hfind
  | some node =>
    have hnot : ∀ target, node ≠ .link target := fun target heq => hlink target (heq ▸ hnode)
    have hthere := find_of_get? hparent hlast hnode hnot
    exact (Place.node.inj (Except.ok.inj (hthere.symm.trans hfind))).1.symm

/-- No link is in the slot of a path, in no tree with the same ways. -/
def Unlinked (t : Tree) (current : Location) (p : Path) : Prop :=
  ∀ t', t.SameWays t' → ∀ place, Slot t' current p place →
    ∀ target, t'.get? place ≠ some (.link target)

theorem Unlinked.keeps (h : Unlinked t current p) (hways : t.SameWays t') : Unlinked t' current p :=
  fun t'' hlater => h t'' (hways.trans hlater)

/-! ## Operations on slots -/

-- A file is written into the slot of its path, unless a link or a folder is there.
theorem write_slot (hslot : Slot t current p place)
    (hlink : ∀ target, t.get? place ≠ some (.link target))
    (h : write t current p written = .ok t') :
    t.IsLoose place ∧ t' = t.put place (.file written) := by
  obtain ⟨folder, name, hparent, hlast, rfl⟩ := hslot
  obtain ⟨hname, hne⟩ := isName_of_lastName hlast
  unfold write at h
  split at h
  · cases h
  have hmake : ∀ found, leg t true folder [name] = .arrived found →
      findToMake t current p = .ok found := by
    intro found hleg
    rw [findToMake, steps_of_lastName hlast]
    exact walk_append hne hparent hleg
  cases hnode : t.get? (folder ++ [name]) with
  | none =>
    refine ⟨Tree.IsLoose.of_none hnode, ?_⟩
    cases hfound : findToMake t current p with
    | error obstacle =>
      rw [hfound] at h
      cases h
    | ok found =>
      rw [findToMake, steps_of_lastName hlast] at hfound
      obtain rfl := walk_vacant hname hne hparent hnode hfound
      rw [findToMake, steps_of_lastName hlast, hfound] at h
      exact (Except.ok.inj h).symm
  | some node =>
    cases node with
    | link target => exact absurd hnode (hlink target)
    | folder =>
      rw [hmake (.node (folder ++ [name]) .folder) (by rw [leg_name hname, hnode]; rfl)] at h
      cases h
    | file old =>
      rw [hmake (.node (folder ++ [name]) (.file old)) (by rw [leg_name hname, hnode]; rfl)] at h
      exact ⟨Tree.IsLoose.of_file hnode, (Except.ok.inj h).symm⟩

-- Only what has a name can be renamed, and only to a name.
theorem lastName_of_rename {target : Path} (h : rename t current p target = .ok t') :
    (∃ name, lastName p = some name) ∧ ∃ name, lastName target = some name := by
  unfold rename at h
  dsimp only at h
  split at h
  · cases h
  split at h
  · cases h
  split at h
  · cases h
  split at h
  · next name goal hname hgoal => exact ⟨⟨name, hname⟩, goal, hgoal⟩
  · cases h

theorem rename_slot {target : Path} (hslot : Slot t current p place)
    (hfile : t.get? place = some (.file content)) (h : rename t current p target = .ok t') :
    isBarred target = false ∧ ∃ goal, Slot t current target goal ∧ t.get? goal ≠ some .folder ∧
      t' = (t.erase place).put goal (.file content) := by
  obtain ⟨-, goal, hgoal⟩ := lastName_of_rename h
  obtain ⟨folder, name, hparent, hlast, rfl⟩ := hslot
  obtain ⟨hbarred, found, hfound, hvacant, rfl⟩ := rename_eq_ok hparent hlast hfile hgoal h
  exact ⟨hbarred, _, ⟨found, goal, hfound, hgoal, rfl⟩, hvacant, rfl⟩

-- Nothing is removed from an empty slot.
theorem removeIfThere_slot (hslot : Slot t current p place) (hnone : t.get? place = none)
    (h : removeIfThere t current p = .ok t') : t' = t := by
  obtain ⟨folder, name, hparent, hlast, rfl⟩ := hslot
  unfold removeIfThere remove at h
  cases hbarred : isBarred p with
  | true =>
    simp only [hbarred, ↓reduceIte] at h
    split at h
    · exact (Except.ok.inj h).symm
    · cases h
  | false =>
    simp only [hbarred, Bool.false_eq_true, ↓reduceIte, holder_eq_ok.mpr hparent, hlast, hnone] at h
    split at h
    · exact (Except.ok.inj h).symm
    · cases h

end Files

end BuildHook
