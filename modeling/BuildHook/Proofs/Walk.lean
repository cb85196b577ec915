import BuildHook.Files.Operation
import Mathlib.Data.List.Basic

/-!
# Where paths lead in trees that grow

A path that leads to a node leads there still when other nodes are added. This is why folders can be
made, and a file be written beside another, without moving what paths lead to.
-/

namespace BuildHook

namespace Tree

-- Nothing that stands in the first tree is missing or different in the second.
def Keeps (t t' : Tree) : Prop :=
  ∀ location node, t.get? location = some node → t'.get? location = some node

-- The same for nodes of some kind only.
def KeepsOf (kind : Node → Prop) (t t' : Tree) : Prop :=
  ∀ location node, kind node → t.get? location = some node → t'.get? location = some node

-- The second tree has the nodes of the first and some folders more.
def Grows (t t' : Tree) : Prop :=
  ∀ location, t'.get? location = t.get? location ∨
    t.get? location = none ∧ t'.get? location = some .folder

variable {t t' t'' : Tree} {location : Location} {node : Node}

-- A place that is as before in two steps, or empty before and filled in one of them, is so in both.
theorem filled_trans {before middle after : Option Node} {P : Option Node → Prop} (hnone : ¬ P none)
    (h : middle = before ∨ before = none ∧ P middle)
    (h' : after = middle ∨ middle = none ∧ P after) : after = before ∨ before = none ∧ P after := by
  rcases h with rfl | ⟨hbefore, hmiddle⟩
  · exact h'
  · rcases h' with rfl | ⟨hempty, -⟩
    · exact .inr ⟨hbefore, hmiddle⟩
    · exact absurd (hempty ▸ hmiddle) hnone

theorem Grows.refl (t : Tree) : t.Grows t :=
  fun _ => .inl rfl

theorem Grows.trans (h : t.Grows t') (h' : t'.Grows t'') : t.Grows t'' :=
  fun location =>
    filled_trans (P := fun node => node = some .folder) (by simp) (h location) (h' location)

theorem Grows.keeps (h : t.Grows t') : t.Keeps t' := by
  intro location node hnode
  rcases h location with hsame | ⟨hnone, -⟩
  · rw [hsame, hnode]
  · rw [hnone] at hnode
    cases hnode

theorem keeps_put (hne : location ≠ []) (hnone : t.get? location = none) :
    t.Keeps (t.put location node) := by
  intro other found hfound
  rw [get?_put t hne]
  split
  · next heq =>
    rw [← heq, hnone] at hfound
    cases hfound
  · exact hfound

theorem erase_keeps (hne : location ≠ []) : (t.erase location).Keeps t := by
  intro other found hfound
  rw [get?_erase t hne] at hfound
  split at hfound
  · cases hfound
  · exact hfound

theorem grows_put (hne : location ≠ []) (hnone : t.get? location = none) :
    t.Grows (t.put location .folder) := by
  intro other
  rw [get?_put t hne]
  split
  · next heq => exact .inr ⟨heq ▸ hnone, rfl⟩
  · exact .inl rfl

end Tree

namespace Files

variable {t t' : Tree} {making : Bool} {links : Nat} {folder : Location} {steps : List String}
  {current : Location} {p : Path}

/-! ## Walks -/

-- A step that is looked up in a folder.
def IsName (step : String) : Prop :=
  isStay step = false ∧ step ≠ ".."

theorem isName_of_isStep {step : String} (h : IsStep step) (hup : step ≠ "..") : IsName step :=
  ⟨by simp [isStay, h.1, h.2.1], hup⟩

theorem leg_name {step : String} (h : IsName step) (folder : Location) (rest : List String) :
    leg t making folder (step :: rest) =
      if making && !rest.isEmpty && rest.all (· = "") then .blocked .folder
      else
        match t.get? (folder ++ [step]) with
        | none =>
          if rest = [] && unfound step = .absent then .arrived (.vacant folder step)
          else .blocked (unfound step)
        | some .folder => leg t making (folder ++ [step]) rest
        | some (.file content) =>
          if rest = [] then .arrived (.node (folder ++ [step]) (.file content))
          else .blocked .notFolder
        | some (.link target) => .link folder target rest := by
  cases hnode : t.get? (folder ++ [step]) with
  | none => simp only [leg, h.1, h.2, hnode, Bool.false_eq_true, ↓reduceIte]
  | some node =>
    cases node <;> simp only [leg, h.1, h.2, hnode, Bool.false_eq_true, ↓reduceIte]

-- What walks pass: folders and links. A file only ends them.
def IsWay (node : Node) : Prop :=
  ∀ content, node ≠ .file content

-- The ends of a leg that rest on what stands in the tree, and not on what is missing; a node at the
-- end has to be of some kind.
def Leg.StandsOn (kind : Node → Prop) : Leg → Prop
  | .arrived (.node _ node) => kind node
  | .link _ _ _ => True
  | _ => False

theorem leg_keeps {kind : Node → Prop} (h : t.KeepsOf kind t')
    (hways : ∀ node, IsWay node → kind node)
    (hstands : (leg t making folder steps).StandsOn kind) :
    leg t' making folder steps = leg t making folder steps := by
  induction steps generalizing folder with
  | nil => rfl
  | cons step rest ih =>
    by_cases hstay : isStay step = true
    · rw [leg, if_pos hstay] at hstands
      rw [leg, leg, if_pos hstay, if_pos hstay]
      exact ih hstands
    by_cases hup : step = ".."
    · rw [leg, if_neg hstay, if_pos hup] at hstands
      rw [leg, leg, if_neg hstay, if_neg hstay, if_pos hup, if_pos hup]
      exact ih hstands
    have hname : IsName step := ⟨by simpa using hstay, hup⟩
    rw [leg_name hname] at hstands
    rw [leg_name hname, leg_name hname]
    split
    · rfl
    · next hslash =>
      rw [if_neg hslash] at hstands
      cases hnode : t.get? (folder ++ [step]) with
      | none =>
        -- a missing name ends the leg, so that nothing could stand there
        rw [hnode] at hstands
        dsimp only at hstands
        split at hstands <;> exact hstands.elim
      | some node =>
        rw [hnode] at hstands
        cases node with
        | folder =>
          rw [h _ _ (hways .folder fun _ => nofun) hnode]
          exact ih hstands
        | link target => rw [h _ _ (hways (.link target) fun _ => nofun) hnode]
        | file content =>
          dsimp only at hstands
          split at hstands
          · rw [h _ _ hstands hnode]
          · exact hstands.elim

theorem walk_of_arrived {place : Place} (h : leg t making folder steps = .arrived place) :
    walk t making links folder steps = .ok place := by
  cases links <;> rw [walk, h]

theorem walk_of_blocked {obstacle : Obstacle}
    (h : leg t making folder steps = .blocked obstacle) :
    walk t making links folder steps = .error obstacle := by
  cases links <;> rw [walk, h]

theorem walk_of_link {next : Location} {target : String} {rest : List String}
    (h : leg t making folder steps = .link next target rest) :
    walk t making (links + 1) folder steps =
      walk t making links (linkBase next target) (linkSteps target ++ rest) := by
  rw [walk, h]

/-- Induction over the legs of a walk that leads to a place. -/
theorem walk_rec {motive : Nat → Location → List String → Prop} {place : Place}
    (arrived : ∀ links folder steps, leg t making folder steps = .arrived place →
      motive links folder steps)
    (link : ∀ links folder steps next target rest,
      leg t making folder steps = .link next target rest →
      motive links (linkBase next target) (linkSteps target ++ rest) →
      motive (links + 1) folder steps)
    (h : walk t making links folder steps = .ok place) : motive links folder steps := by
  induction links generalizing folder steps with
  | zero =>
    rw [walk] at h
    cases hleg : leg t making folder steps with
    | arrived found =>
      rw [hleg] at h
      exact arrived _ _ _ (Except.ok.inj h ▸ hleg)
    | blocked obstacle => rw [hleg] at h; cases h
    | link next target rest => rw [hleg] at h; cases h
  | succ links ih =>
    rw [walk] at h
    cases hleg : leg t making folder steps with
    | arrived found =>
      rw [hleg] at h
      exact arrived _ _ _ (Except.ok.inj h ▸ hleg)
    | blocked obstacle => rw [hleg] at h; cases h
    | link next target rest =>
      rw [hleg] at h
      exact link _ _ _ _ _ _ hleg (ih h)

theorem walk_keepsOf {kind : Node → Prop} (h : t.KeepsOf kind t')
    (hways : ∀ node, IsWay node → kind node) {location : Location} {node : Node} (hkind : kind node)
    (hwalk : walk t making links folder steps = .ok (.node location node)) :
    walk t' making links folder steps = .ok (.node location node) := by
  refine walk_rec (motive := fun links folder steps =>
    walk t' making links folder steps = .ok (.node location node)) ?_ ?_ hwalk
  · intro links folder steps hleg
    have hsame := leg_keeps h hways (by rw [hleg]; exact hkind)
    exact walk_of_arrived (hsame.trans hleg)
  · intro links folder steps next target rest hleg ih
    have hsame := leg_keeps h hways (by rw [hleg]; trivial)
    rw [walk_of_link (hsame.trans hleg)]
    exact ih

theorem walk_keeps (h : t.Keeps t') {location : Location} {node : Node}
    (hwalk : walk t making links folder steps = .ok (.node location node)) :
    walk t' making links folder steps = .ok (.node location node) := by
  have hall : t.KeepsOf (fun _ => True) t' := fun location node _ => h location node
  exact walk_keepsOf hall (fun _ _ => trivial) trivial hwalk

-- Where two trees do not contradict each other, a leg that goes the same kind of way in both of them
-- passes nodes that both have.
theorem leg_meet {both : Tree}
    (hmeet : ∀ location node node', t.get? location = some node →
      t'.get? location = some node' → node = node' ∧ both.get? location = some node)
    (hfirst : (leg t making folder steps).StandsOn IsWay)
    (hsecond : (leg t' making folder steps).StandsOn IsWay) :
    leg t' making folder steps = leg t making folder steps ∧
      leg both making folder steps = leg t making folder steps := by
  induction steps generalizing folder with
  | nil => exact ⟨rfl, rfl⟩
  | cons step rest ih =>
    by_cases hstay : isStay step = true
    · rw [leg, if_pos hstay] at hfirst hsecond
      rw [leg, leg, leg, if_pos hstay, if_pos hstay, if_pos hstay]
      exact ih hfirst hsecond
    by_cases hup : step = ".."
    · rw [leg, if_neg hstay, if_pos hup] at hfirst hsecond
      rw [leg, leg, leg]
      simp only [if_neg hstay, if_pos hup]
      exact ih hfirst hsecond
    have hname : IsName step := ⟨by simpa using hstay, hup⟩
    rw [leg_name hname] at hfirst hsecond
    rw [leg_name hname, leg_name hname, leg_name hname]
    split
    · exact ⟨rfl, rfl⟩
    · next hslash =>
      rw [if_neg hslash] at hfirst hsecond
      cases hnode : t.get? (folder ++ [step]) with
      | none =>
        rw [hnode] at hfirst
        dsimp only at hfirst
        split at hfirst <;> exact hfirst.elim
      | some node =>
        cases hother : t'.get? (folder ++ [step]) with
        | none =>
          rw [hother] at hsecond
          dsimp only at hsecond
          split at hsecond <;> exact hsecond.elim
        | some other =>
          obtain ⟨rfl, hboth⟩ := hmeet _ _ _ hnode hother
          rw [hnode] at hfirst
          rw [hother] at hsecond
          rw [hboth]
          cases node with
          | folder => exact ih hfirst hsecond
          | link target => exact ⟨rfl, rfl⟩
          | file content => exact ⟨rfl, rfl⟩

theorem standsOn_of_walk {location : Location}
    (hwalk : walk t making links folder steps = .ok (.node location .folder)) :
    (leg t making folder steps).StandsOn IsWay := by
  refine walk_rec (motive := fun _ folder steps => (leg t making folder steps).StandsOn IsWay)
    ?_ ?_ hwalk
  · intro links folder steps hleg
    rw [hleg]
    exact fun _ => nofun
  · intro links folder steps next target rest hleg _
    rw [hleg]
    trivial

-- So does a walk to a folder.
theorem walk_meet {both : Tree} {location other : Location}
    (hmeet : ∀ location node node', t.get? location = some node →
      t'.get? location = some node' → node = node' ∧ both.get? location = some node)
    (hfirst : walk t making links folder steps = .ok (.node location .folder))
    (hsecond : walk t' making links folder steps = .ok (.node other .folder)) :
    walk both making links folder steps = .ok (.node location .folder) := by
  refine walk_rec (motive := fun links folder steps =>
    walk t' making links folder steps = .ok (.node other .folder) →
      walk both making links folder steps = .ok (.node location .folder)) ?_ ?_ hfirst hsecond
  · intro links folder steps hleg hother
    have hway : (leg t making folder steps).StandsOn IsWay := by
      rw [hleg]
      exact fun _ => nofun
    exact walk_of_arrived ((leg_meet hmeet hway (standsOn_of_walk hother)).2.trans hleg)
  · intro links folder steps next target rest hleg ih hother
    have hway : (leg t making folder steps).StandsOn IsWay := by
      rw [hleg]
      trivial
    obtain ⟨hsame, hboth⟩ := leg_meet hmeet hway (standsOn_of_walk hother)
    rw [walk_of_link (hboth.trans hleg)]
    rw [walk_of_link (hsame.trans hleg)] at hother
    exact ih hother

/-- A leg with one more name goes as far as without it, and takes the name from there. -/
theorem leg_append {name : String} (hne : name ≠ "") :
    leg t making folder (steps ++ [name]) =
      match leg t false folder steps with
      | .arrived (.node location .folder) => leg t making location [name]
      | .arrived (.node _ _) => .blocked .notFolder
      | .arrived (.vacant _ _) => .blocked .absent
      | .blocked obstacle => .blocked obstacle
      | .link folder target rest => .link folder target (rest ++ [name]) := by
  induction steps generalizing folder with
  | nil => rfl
  | cons step rest ih =>
    rw [List.cons_append]
    by_cases hstay : isStay step = true
    · rw [leg, leg, if_pos hstay, if_pos hstay]
      exact ih
    by_cases hup : step = ".."
    · rw [leg, leg, if_neg hstay, if_neg hstay, if_pos hup, if_pos hup]
      exact ih
    have hstep : IsName step := ⟨by simpa using hstay, hup⟩
    -- no slash can stand behind the step, since the name does
    have hslash : (making && !(rest ++ [name]).isEmpty && (rest ++ [name]).all (· = "")) = false := by
      simp [hne]
    have hrest : rest ++ [name] ≠ [] := by simp
    rw [leg_name hstep, leg_name hstep, hslash, Bool.false_and, Bool.false_and]
    simp only [Bool.false_eq_true, ↓reduceIte, hrest]
    cases t.get? (folder ++ [step]) with
    | none => by_cases hend : rest = [] <;> by_cases hshort : unfound step = .absent <;>
        simp [hend, hshort]
    | some node =>
      cases node with
      | folder => exact ih
      | file content => by_cases hend : rest = [] <;> simp [hend]
      | link target => rfl

-- A walk with one more name, where the name needs no links from the folder that it is looked up in.
theorem walk_append_of {name : String} {location : Location} {result : Except Obstacle Place}
    (hne : name ≠ "") (hwalk : walk t false links folder steps = .ok (.node location .folder))
    (hlast : ∀ links, walk t making links location [name] = result) :
    walk t making links folder (steps ++ [name]) = result := by
  refine walk_rec (motive := fun links folder steps =>
    walk t making links folder (steps ++ [name]) = result) ?_ ?_ hwalk
  · intro links folder steps hleg
    have hsame : leg t making folder (steps ++ [name]) = leg t making location [name] := by
      rw [leg_append hne, hleg]
    rw [← hlast links]
    cases links <;> rw [walk, walk, hsame]
  · intro links folder steps next target rest hleg ih
    have happend : leg t making folder (steps ++ [name]) = .link next target (rest ++ [name]) := by
      rw [leg_append hne, hleg]
    rw [walk_of_link happend, ← List.append_assoc]
    exact ih

theorem walk_append {name : String} {location : Location} {place : Place} (hne : name ≠ "")
    (hwalk : walk t false links folder steps = .ok (.node location .folder))
    (hlast : leg t making location [name] = .arrived place) :
    walk t making links folder (steps ++ [name]) = .ok place :=
  walk_append_of hne hwalk fun _ => walk_of_arrived hlast

-- The name is looked up in the folder that the walk without it leads to.
theorem walk_parent {name : String} {place : Place} (hne : name ≠ "")
    (hwalk : walk t making links folder (steps ++ [name]) = .ok place) :
    ∃ location, walk t false links folder steps = .ok (.node location .folder) := by
  refine walk_rec (motive := fun links folder long => ∀ steps, long = steps ++ [name] →
    ∃ location, walk t false links folder steps = .ok (.node location .folder)) ?_ ?_ hwalk steps rfl
  · rintro links folder _ hleg steps rfl
    rw [leg_append hne] at hleg
    split at hleg
    · next location hshort => exact ⟨location, walk_of_arrived hshort⟩
    all_goals cases hleg
  · rintro links folder _ next target long hleg ih steps rfl
    rw [leg_append hne] at hleg
    split at hleg
    · next location hshort => exact ⟨location, walk_of_arrived hshort⟩
    · cases hleg
    · cases hleg
    · cases hleg
    · next shortTarget rest hshort =>
      obtain ⟨rfl, rfl, rfl⟩ := Leg.link.inj hleg
      rw [walk_of_link hshort]
      exact ih _ (List.append_assoc _ _ _).symm

-- Where nothing of the name stands in that folder, the walk ends there, if it leads anywhere: a
-- name that is too long leads nowhere.
theorem walk_vacant {name : String} {location : Location} {place : Place} (hname : IsName name)
    (hne : name ≠ "") (hparent : walk t false links folder steps = .ok (.node location .folder))
    (hnone : t.get? (location ++ [name]) = none)
    (hwalk : walk t making links folder (steps ++ [name]) = .ok place) :
    place = .vacant location name := by
  have hlast : leg t making location [name] =
      if unfound name = .absent then .arrived (.vacant location name)
      else .blocked (unfound name) := by
    rw [leg_name hname, hnone]
    simp
  split at hlast
  · have hplace := (walk_append hne hparent hlast).symm.trans hwalk
    exact (Except.ok.inj hplace).symm
  · have hnowhere := walk_append_of hne hparent fun _ => walk_of_blocked hlast
    rw [hnowhere] at hwalk
    cases hwalk

theorem walk_fresh {name : String} {place : Place} (hname : IsName name) (hne : name ≠ "")
    (hfresh : ∀ location, t.get? (location ++ [name]) = none)
    (hwalk : walk t making links folder (steps ++ [name]) = .ok place) :
    ∃ location, place = .vacant location name ∧
      walk t false links folder steps = .ok (.node location .folder) := by
  obtain ⟨location, hparent⟩ := walk_parent hne hwalk
  exact ⟨location, walk_vacant hname hne hparent (hfresh location) hwalk, hparent⟩

/-! ## Paths -/

theorem find_keeps (h : t.Keeps t') {location : Location} {node : Node}
    (hfind : find t current p = .ok (.node location node)) :
    find t' current p = .ok (.node location node) :=
  walk_keeps h hfind

-- Files need not stay for a path to lead to a folder.
theorem find_keepsWays (h : t.KeepsOf IsWay t') {location : Location}
    (hfind : find t current p = .ok (.node location .folder)) :
    find t' current p = .ok (.node location .folder) :=
  walk_keepsOf h (fun _ => id) (fun _ => nofun) hfind

-- A path that leads to folders in two trees which do not contradict each other needs only what both
-- have.
theorem find_meet {both : Tree} {location other : Location}
    (hmeet : ∀ location node node', t.get? location = some node →
      t'.get? location = some node' → node = node' ∧ both.get? location = some node)
    (hfirst : find t current p = .ok (.node location .folder))
    (hsecond : find t' current p = .ok (.node other .folder)) :
    find both current p = .ok (.node location .folder) :=
  walk_meet hmeet hfirst hsecond

-- The last step of a path is looked up in the folder that the other steps lead to.
theorem holder_eq_ok {location : Location} :
    holder t current p = .ok location ↔
      find t current p.parent = .ok (.node location .folder) := by
  change holder t current p = .ok location ↔
    walk t false linkLimit (start current p) p.steps.dropLast = .ok (.node location .folder)
  unfold holder
  cases walk t false linkLimit (start current p) p.steps.dropLast with
  | error obstacle => simp
  | ok place =>
    cases place with
    | node found node => cases node <;> simp
    | vacant found name => simp

theorem steps_of_lastName {name : String} (h : lastName p = some name) :
    p.steps = p.steps.dropLast ++ [name] := by
  unfold lastName at h
  cases hlast : p.steps.getLast? with
  | none =>
    rw [hlast] at h
    cases h
  | some last =>
    rw [hlast] at h
    dsimp only at h
    split at h
    · cases h
    · obtain rfl := Option.some.inj h
      exact (List.dropLast_append_getLast? last hlast).symm

theorem isName_of_lastName {name : String} (h : lastName p = some name) :
    IsName name ∧ name ≠ "" := by
  have hmem : name ∈ p.steps := by
    rw [steps_of_lastName h]
    simp
  obtain ⟨hempty, hstay, -⟩ := p.isStep name hmem
  have hup : name ≠ ".." := by
    unfold lastName at h
    split at h
    · split at h
      · cases h
      · next hne =>
        rw [← Option.some.inj h]
        exact hne
    · cases h
  exact ⟨⟨by simp [isStay, hempty, hstay], hup⟩, hempty⟩

variable {location : Location} {name : String}

theorem find_of_get? {node : Node} (hparent : find t current p.parent = .ok (.node location .folder))
    (hlast : lastName p = some name) (hnode : t.get? (location ++ [name]) = some node)
    (hlink : ∀ target, node ≠ .link target) :
    find t current p = .ok (.node (location ++ [name]) node) := by
  obtain ⟨hname, hne⟩ := isName_of_lastName hlast
  have hleg : leg t false location [name] = .arrived (.node (location ++ [name]) node) := by
    rw [leg_name hname, hnode]
    cases node with
    | folder => rfl
    | file content => rfl
    | link target => exact absurd rfl (hlink target)
  have hwalk := walk_append hne hparent hleg
  rw [find, steps_of_lastName hlast]
  exact hwalk

theorem find_of_isFile (h : isFile t current p = true) :
    ∃ location content, find t current p = .ok (.node location (.file content)) := by
  rw [isFile, Bool.and_eq_true] at h
  obtain ⟨-, hfind⟩ := h
  split at hfind
  · next location content hplace => exact ⟨location, content, hplace⟩
  · cases hfind

theorem read_of_isFile (h : isFile t current p = true) :
    ∃ content, read t current p = .ok content := by
  obtain ⟨location, content, hfind⟩ := find_of_isFile h
  rw [isFile, Bool.and_eq_true, Bool.not_eq_true'] at h
  exact ⟨content, by rw [read, h.1, hfind]; rfl⟩

theorem find_parent {place : Place} (hlast : lastName p = some name)
    (hfind : find t current p = .ok place) :
    ∃ location, find t current p.parent = .ok (.node location .folder) := by
  rw [find, steps_of_lastName hlast] at hfind
  exact walk_parent (isName_of_lastName hlast).2 hfind

theorem read_of_get? {content : List UInt8} (hbarred : isBarred p = false)
    (hparent : find t current p.parent = .ok (.node location .folder))
    (hlast : lastName p = some name)
    (hnode : t.get? (location ++ [name]) = some (.file content)) :
    read t current p = .ok content := by
  rw [read, hbarred, find_of_get? hparent hlast hnode nofun]
  rfl

/-! ## Changes to trees -/

-- The second tree has the nodes of the first and some folders more, each where the path or one
-- above it leads.
def GrowsAlong (current : Location) (p : Path) (t t' : Tree) : Prop :=
  ∀ location, t'.get? location = t.get? location ∨
    t.get? location = none ∧ t'.get? location = some .folder ∧
      ∃ q, p.isWithin q = true ∧ find t' current q = .ok (.node location .folder)

theorem GrowsAlong.refl (t : Tree) : GrowsAlong current p t t :=
  fun _ => .inl rfl

theorem GrowsAlong.grows (h : GrowsAlong current p t t') : t.Grows t' := by
  intro location
  rcases h location with hsame | ⟨hnone, hfolder, -⟩
  · exact .inl hsame
  · exact .inr ⟨hnone, hfolder⟩

theorem GrowsAlong.trans {t'' : Tree} (h : GrowsAlong current p t t')
    (h' : GrowsAlong current p t' t'') : GrowsAlong current p t t'' := by
  intro location
  refine Tree.filled_trans (P := fun node => node = some .folder ∧ ∃ q, p.isWithin q = true ∧
    find t'' current q = .ok (.node location .folder)) (by simp) ?_ (h' location)
  -- what led to a new folder leads there still
  refine (h location).imp_right fun ⟨hnone, hfolder, q, hwithin, hfind⟩ => ?_
  exact ⟨hnone, hfolder, q, hwithin, find_keeps h'.grows.keeps hfind⟩

theorem isWithin_self (p : Path) : p.isWithin p = true := by
  simp [Path.isWithin]

theorem GrowsAlong.of_parent (h : GrowsAlong current p.parent t t') :
    GrowsAlong current p t t' := by
  intro location
  rcases h location with hsame | ⟨hnone, hfolder, q, hwithin, hfind⟩
  · exact .inl hsame
  · refine .inr ⟨hnone, hfolder, q, ?_, hfind⟩
    simp only [Path.isWithin, Path.parent, Bool.and_eq_true, decide_eq_true_eq,
      List.isPrefixOf_iff_prefix] at hwithin ⊢
    exact ⟨of_decide_eq_true hwithin.1, hwithin.2.trans (List.dropLast_prefix _)⟩

theorem makeFolder_eq_ok (h : makeFolder t current p = .ok t') :
    GrowsAlong current p t t' ∧ ∃ location, find t' current p = .ok (.node location .folder) := by
  unfold makeFolder at h
  split at h
  · cases h
  split at h
  · cases h
  next folder hfolder =>
    have hparent := holder_eq_ok.mp hfolder
    split at h
    · cases h
    next name hlast =>
      split at h
      · cases h
      next hvacant =>
        split at h
        swap
        · cases h
        obtain rfl := Except.ok.inj h
        have hne : folder ++ [name] ≠ [] := by simp
        have hnone : t.get? (folder ++ [name]) = none := by simpa using hvacant
        have hfind : find (t.put (folder ++ [name]) .folder) current p =
            .ok (.node (folder ++ [name]) .folder) := by
          refine find_of_get? (find_keeps (Tree.keeps_put hne hnone) hparent) hlast ?_ nofun
          rw [Tree.get?_put t hne, if_pos rfl]
        refine ⟨fun location => ?_, _, hfind⟩
        rcases Tree.grows_put hne hnone location with hsame | ⟨hnew, hmade⟩
        · exact .inl hsame
        · -- the only new place is the one that the path leads to
          obtain rfl : folder ++ [name] = location := by
            by_contra hother
            rw [Tree.get?_put t hne, if_neg hother, hnew] at hmade
            cases hmade
          exact .inr ⟨hnew, hmade, p, isWithin_self p, hfind⟩

theorem unlessFolder_eq_ok {fault : Fault} (h : unlessFolder t current p fault = .ok ⟨⟩) :
    ∃ location, find t current p = .ok (.node location .folder) := by
  unfold unlessFolder at h
  split at h
  · next hfolder =>
    rw [Bool.and_eq_true, isFolder, Bool.and_eq_true] at hfolder
    obtain ⟨-, -, hfind⟩ := hfolder
    split at hfind
    · next location hplace => exact ⟨location, hplace⟩
    · cases hfind
  · cases h

/-- Making folders only adds folders on the way of the path, and then the path leads to one unless
it is refused. -/
theorem makeLevels_spec (t : Tree) (current : Location) (levels : Nat) (p : Path) :
    GrowsAlong current p t (makeLevels t current levels p).1 ∧
      ((makeLevels t current levels p).2 = .ok ⟨⟩ →
        ∃ location, find (makeLevels t current levels p).1 current p =
          .ok (.node location .folder)) := by
  induction levels generalizing p with
  | zero =>
    unfold makeLevels
    split
    · next next hmade =>
      obtain ⟨hgrows, hfind⟩ := makeFolder_eq_ok hmade
      exact ⟨hgrows, fun _ => hfind⟩
    · exact ⟨GrowsAlong.refl t, nofun⟩
    · exact ⟨GrowsAlong.refl t, unlessFolder_eq_ok⟩
  | succ levels ih =>
    unfold makeLevels
    split
    · next next hmade =>
      obtain ⟨hgrows, hfind⟩ := makeFolder_eq_ok hmade
      exact ⟨hgrows, fun _ => hfind⟩
    · -- first the folders above, then the folder itself once more
      have habove := (ih p.parent).1.of_parent
      split
      · next above fault hrest =>
        rw [hrest] at habove
        exact ⟨habove, nofun⟩
      · next above hrest =>
        rw [hrest] at habove
        split
        · next next hmade =>
          obtain ⟨hgrows, hfind⟩ := makeFolder_eq_ok hmade
          exact ⟨habove.trans hgrows, fun _ => hfind⟩
        · exact ⟨habove, nofun⟩
        · exact ⟨habove, unlessFolder_eq_ok⟩
    · exact ⟨GrowsAlong.refl t, unlessFolder_eq_ok⟩

theorem growsAlong_makeFolders (t : Tree) (current : Location) (p : Path) :
    GrowsAlong current p t (makeFolders t current p).1 :=
  (makeLevels_spec t current _ p).1

theorem grows_makeFolders (t : Tree) (current : Location) (p : Path) :
    t.Grows (makeFolders t current p).1 :=
  (growsAlong_makeFolders t current p).grows

theorem find_makeFolders (t : Tree) (current : Location) (p : Path)
    (h : (makeFolders t current p).2 = .ok ⟨⟩) :
    ∃ location, find (makeFolders t current p).1 current p = .ok (.node location .folder) :=
  (makeLevels_spec t current _ p).2 h

-- A file of a name that stands nowhere is written into the folder that its path names.
theorem write_fresh {content : List UInt8} (hlast : lastName p = some name)
    (hfresh : ∀ location, t.get? (location ++ [name]) = none)
    (h : write t current p content = .ok t') :
    isBarred p = false ∧ ∃ location, find t current p.parent = .ok (.node location .folder) ∧
      t' = t.put (location ++ [name]) (.file content) := by
  obtain ⟨hname, hne⟩ := isName_of_lastName hlast
  unfold write at h
  split at h
  · cases h
  next hbarred =>
    refine ⟨by simpa using hbarred, ?_⟩
    cases hplace : findToMake t current p with
    | error obstacle =>
      rw [hplace] at h
      cases h
    | ok place =>
      rw [findToMake, steps_of_lastName hlast] at hplace
      obtain ⟨location, rfl, hparent⟩ := walk_fresh hname hne hfresh hplace
      rw [findToMake, steps_of_lastName hlast, hplace] at h
      exact ⟨location, hparent, (Except.ok.inj h).symm⟩

-- What stands under the first path is moved to where the second one leads, unless that is a folder.
theorem rename_eq_ok {target : Path} {goal : String} {node : Node}
    (hparent : find t current p.parent = .ok (.node location .folder))
    (hlast : lastName p = some name) (hnode : t.get? (location ++ [name]) = some node)
    (hgoal : lastName target = some goal) (h : rename t current p target = .ok t') :
    isBarred target = false ∧
      ∃ folder, find t current target.parent = .ok (.node folder .folder) ∧
        t.get? (folder ++ [goal]) ≠ some .folder ∧
        t' = (t.erase (location ++ [name])).put (folder ++ [goal]) node := by
  unfold rename at h
  rw [holder_eq_ok.mpr hparent, hlast, hgoal] at h
  dsimp only at h
  split at h
  · cases h
  next hbarred =>
    simp only [Bool.or_eq_true, not_or, Bool.not_eq_true] at hbarred
    refine ⟨hbarred.2, ?_⟩
    cases hholder : holder t current target with
    | error obstacle =>
      rw [hholder] at h
      cases h
    | ok folder =>
      rw [hholder, hnode] at h
      dsimp only at h
      refine ⟨folder, holder_eq_ok.mp hholder, ?_⟩
      split at h
      · next hvacant =>
        split at h
        · exact ⟨by simp [hvacant], (Except.ok.inj h).symm⟩
        · cases h
      · cases h
      · next other hother hthere => exact ⟨by simpa [hthere] using hother, (Except.ok.inj h).symm⟩

theorem removeIfThere_file {content : List UInt8} (hbarred : isBarred p = false)
    (hparent : find t current p.parent = .ok (.node location .folder))
    (hlast : lastName p = some name)
    (hnode : t.get? (location ++ [name]) = some (.file content)) :
    removeIfThere t current p = .ok (t.erase (location ++ [name])) := by
  have hremove : remove t current p = .ok (t.erase (location ++ [name])) := by
    unfold remove
    simp only [hbarred, Bool.false_eq_true, ↓reduceIte, holder_eq_ok.mpr hparent, hlast, hnode]
  rw [removeIfThere, hremove]

end Files

namespace Path

-- A name is written as it is.
theorem ofString_of_isStep {name : String} (h : IsStep name) :
    ofString name = ⟨.relative, [name], by simpa using h⟩ := by
  have htext : (⟨.relative, [name], by simpa using h⟩ : Path).text = name := by
    simp [text, chars, Anchor.chars, List.intercalate]
  rw [← ofString_text ⟨.relative, [name], by simpa using h⟩, htext]

-- A name behind a path is one more step.
theorem child_of_isStep (p : Path) {name : String} (h : IsStep name) :
    (p.child name).parent = p ∧ (p.child name).steps = p.steps ++ [name] := by
  have hsteps : (p.child name).steps = p.steps ++ [name] := by
    rw [child, ofString_of_isStep h, join]
  refine ⟨Path.ext ?_ ?_, hsteps⟩
  · change (p.child name).anchor = p.anchor
    rw [child, ofString_of_isStep h, join]
  · change (p.child name).steps.dropLast = p.steps
    rw [hsteps, List.dropLast_concat]

end Path

theorem Files.lastName_child (p : Path) {name : String} (h : IsStep name) (hup : name ≠ "..") :
    lastName (p.child name) = some name := by
  unfold lastName
  rw [(p.child_of_isStep h).2, List.getLast?_append]
  simp [hup]

end BuildHook
