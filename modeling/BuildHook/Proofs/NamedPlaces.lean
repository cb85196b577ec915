import BuildHook.Proofs.Places

/-!
# The places that paths name

A path names a place by its steps alone, each `..` taking the last one back. In a tree without links
this is where the path leads, if it leads anywhere.
-/

namespace BuildHook

def Tree.LinkFree (t : Tree) : Prop :=
  ∀ location target, t.get? location ≠ some (.link target)

theorem Tree.LinkFree.grows {t t' : Tree} (h : t.LinkFree) (hgrows : t.Grows t') : t'.LinkFree := by
  intro location target hlink
  rcases hgrows location with hsame | ⟨-, hfolder⟩
  · exact h location target (hsame ▸ hlink)
  · rw [hfolder] at hlink
    cases hlink

theorem Tree.LinkFree.put {t : Tree} {place : Location} {node : Node} (h : t.LinkFree)
    (hne : place ≠ []) (hnode : ∀ target, node ≠ .link target) : (t.put place node).LinkFree := by
  intro location target hlink
  rw [get?_put t hne] at hlink
  split at hlink
  · exact hnode target (Option.some.inj hlink)
  · exact h location target hlink

theorem Tree.LinkFree.erase {t : Tree} {place : Location} (h : t.LinkFree) (hne : place ≠ []) :
    (t.erase place).LinkFree :=
  fun location target hlink => h location target (erase_keeps hne location _ hlink)

namespace Files

variable {t t' : Tree} {making : Bool} {links : Nat} {current folder : Location} {place : Place}
  {steps rest names : List String} {step name : String} {p q : Path}

/-! ## Steps taken by name -/

theorem lexical_append (location : Location) (steps rest : List String) :
    lexical location (steps ++ rest) = lexical (lexical location steps) rest :=
  List.foldl_append

theorem lexical_up (location : Location) : lexical location [".."] = location.dropLast :=
  rfl

theorem lexical_stay (h : isStay step = true) (location : Location) (rest : List String) :
    lexical location (step :: rest) = lexical location rest := by
  have hup : step ≠ ".." := by
    rintro rfl
    cases h
  simp [lexical, h, hup]

theorem lexical_name (h : IsName step) (location : Location) :
    lexical location [step] = location ++ [step] := by
  simp [lexical, h.1, h.2]

theorem lexical_names (h : ∀ name ∈ names, IsName name) (location : Location) :
    lexical location names = location ++ names := by
  induction names generalizing location with
  | nil => exact (List.append_nil location).symm
  | cons name rest ih =>
    obtain ⟨hname, hrest⟩ := List.forall_mem_cons.mp h
    rw [← List.singleton_append, lexical_append, lexical_name hname, ih hrest, List.append_assoc]

theorem anchor_child (p : Path) (h : IsStep step) : (p.child step).anchor = p.anchor :=
  have hparent : (p.child step).parent.anchor = p.anchor :=
    congrArg Path.anchor (p.child_of_isStep h).1
  hparent

theorem start_eq (h : p.anchor = q.anchor) : start current p = start current q := by
  rw [start, start, h]

/-- The place that a path names. -/
def byName (current : Location) (p : Path) : Location :=
  lexical (start current p) p.steps

/-- A name at the end of a path is the last one of the place. -/
theorem byName_of_lastName (h : lastName p = some name) (current : Location) :
    byName current p = byName current p.parent ++ [name] := by
  rw [byName, steps_of_lastName h, lexical_append, lexical_name (isName_of_lastName h).1]
  rfl

/-! ## Walks without links -/

def Place.location : Place → Location
  | .node location _ => location
  | .vacant folder name => folder ++ [name]

-- A leg that meets no link, and where it ends if it arrives.
def Leg.EndsAt (location : Location) : Leg → Prop
  | .arrived place => place.location = location
  | .blocked _ => True
  | .link _ _ _ => False

theorem leg_linkFree (h : t.LinkFree) (making : Bool) (folder : Location) (steps : List String) :
    (leg t making folder steps).EndsAt (lexical folder steps) := by
  induction steps generalizing folder with
  | nil => rfl
  | cons step rest ih =>
    by_cases hstay : isStay step = true
    · simp only [leg, if_pos hstay]
      rw [lexical_stay hstay]
      exact ih folder
    by_cases hup : step = ".."
    · simp only [leg, if_neg hstay, if_pos hup]
      rw [hup, ← List.singleton_append, lexical_append, lexical_up]
      exact ih folder.dropLast
    have hname : IsName step := ⟨by simpa using hstay, hup⟩
    have hlexical : lexical folder (step :: rest) = lexical (folder ++ [step]) rest := by
      rw [← List.singleton_append, lexical_append, lexical_name hname]
    rw [leg_name hname, hlexical]
    split
    · trivial
    · cases hnode : t.get? (folder ++ [step]) with
      | none =>
        dsimp only
        split
        · next hlast =>
          rw [of_decide_eq_true (Bool.and_eq_true_iff.mp hlast).1]
          rfl
        · trivial
      | some node =>
        cases node with
        | folder => exact ih (folder ++ [step])
        | link target => exact absurd hnode (h _ target)
        | file content =>
          dsimp only
          split
          · next hlast =>
            rw [hlast]
            rfl
          · trivial

theorem walk_linkFree (h : t.LinkFree) (hwalk : walk t making links folder steps = .ok place) :
    place.location = lexical folder steps := by
  refine walk_rec (motive := fun _ folder steps => place.location = lexical folder steps) ?_ ?_ hwalk
  · intro _ folder steps hleg
    have hends := leg_linkFree h making folder steps
    rwa [hleg] at hends
  · intro _ folder steps _ _ _ hleg _
    have hends := leg_linkFree h making folder steps
    rw [hleg] at hends
    exact hends.elim

theorem find_linkFree (h : t.LinkFree) (hfind : find t current p = .ok place) :
    place.location = byName current p :=
  walk_linkFree h hfind

/-- The last name of a path, in the folder where it is looked up, is the place that the path
names. -/
theorem holder_linkFree (h : t.LinkFree) (hholder : holder t current p = .ok folder)
    (hlast : lastName p = some name) : folder ++ [name] = byName current p := by
  have hparent : folder = byName current p.parent := find_linkFree h (holder_eq_ok.mp hholder)
  rw [byName_of_lastName hlast, hparent]

/-! ## Operations without links -/

theorem write_linkFree {content : List UInt8} (h : t.LinkFree)
    (hwrite : write t current p content = .ok t') :
    byName current p ≠ [] ∧ t' = t.put (byName current p) (.file content) := by
  unfold write at hwrite
  split at hwrite
  · cases hwrite
  · split at hwrite
    · next location old hfound =>
      have hplace : location = byName current p := walk_linkFree h hfound
      have hold := get?_of_walk hfound
      refine ⟨?_, hplace ▸ (Except.ok.inj hwrite).symm⟩
      rintro hroot
      rw [hplace, hroot] at hold
      cases hold
    · cases hwrite
    · next folder name hfound =>
      have hplace : folder ++ [name] = byName current p := walk_linkFree h hfound
      exact ⟨by simp [← hplace], hplace ▸ (Except.ok.inj hwrite).symm⟩
    · cases hwrite

theorem rename_linkFree (h : t.LinkFree) (hrename : rename t current p q = .ok t') :
    byName current p ≠ [] ∧ byName current q ≠ [] ∧ ∃ node, t.get? (byName current p) = some node ∧
      t' = (t.erase (byName current p)).put (byName current q) node := by
  obtain ⟨⟨name, hlast⟩, goal, hgoal⟩ := lastName_of_rename hrename
  unfold rename at hrename
  dsimp only at hrename
  split at hrename
  · cases hrename
  split at hrename
  · cases hrename
  next sourceFolder hsource =>
    split at hrename
    · cases hrename
    next targetFolder htarget =>
      have horigin := holder_linkFree h hsource hlast
      have hplace := holder_linkFree h htarget hgoal
      rw [hlast, hgoal] at hrename
      dsimp only at hrename
      rw [horigin, hplace] at hrename
      refine ⟨by simp [← horigin], by simp [← hplace], ?_⟩
      split at hrename
      · cases hrename
      · next node hnode =>
        split at hrename
        · split at hrename
          · exact ⟨node, hnode, (Except.ok.inj hrename).symm⟩
          · cases hrename
        · cases hrename
        · exact ⟨node, hnode, (Except.ok.inj hrename).symm⟩

theorem remove_linkFree (h : t.LinkFree) (hremove : remove t current p = .ok t') :
    byName current p ≠ [] ∧ t' = t.erase (byName current p) := by
  unfold remove at hremove
  split at hremove
  · cases hremove
  split at hremove
  · cases hremove
  next folder hfolder =>
    split at hremove
    · cases hremove
    next name hlast =>
      have hplace := holder_linkFree h hfolder hlast
      rw [hplace] at hremove
      refine ⟨by simp [← hplace], ?_⟩
      split at hremove
      · cases hremove
      · cases hremove
      · exact (Except.ok.inj hremove).symm

/-! ## Places in a folder -/

/-- The place is in the folder and not the folder itself. -/
def Within (folder place : Location) : Prop :=
  folder <+: place ∧ place ≠ folder

/-- The path names the folder or a place in it. -/
def Holds (current : Location) (folder p : Path) : Prop :=
  byName current folder <+: byName current p

/-- The path names a place in the folder. -/
def Inside (current : Location) (folder p : Path) : Prop :=
  Within (byName current folder) (byName current p)

instance (current : Location) (folder p : Path) : Decidable (Holds current folder p) :=
  inferInstanceAs (Decidable (_ <+: _))

instance (current : Location) (folder p : Path) : Decidable (Inside current folder p) :=
  inferInstanceAs (Decidable (_ ∧ _))

theorem holds_refl (current : Location) (p : Path) : Holds current p p :=
  List.prefix_rfl

/-- A name in a folder that holds the rest of the path is inside. -/
theorem inside_of_parent {folder : Path} (h : Holds current folder p.parent)
    (hlast : lastName p = some name) : Inside current folder p := by
  rw [Holds] at h
  rw [Inside, byName_of_lastName hlast]
  refine ⟨h.trans (List.prefix_append _ _), fun heq => ?_⟩
  have hle := h.length_le
  rw [← heq, List.length_append, List.length_singleton] at hle
  omega

theorem inside_child {folder : Path} (hstep : IsStep name) (hup : name ≠ "..") :
    Inside current folder (folder.child name) := by
  refine inside_of_parent ?_ (lastName_child folder hstep hup)
  rw [(folder.child_of_isStep hstep).1]
  exact holds_refl current folder

end Files

end BuildHook
