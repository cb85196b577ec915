import BuildHook.Proofs.LinkWalks
import BuildHook.Proofs.NamedPlaces
import BuildHook.Proofs.Refusals

/-!
# Paths with all links resolved

Resolving the links of a path that leads to a folder gives the folder's own path. Links that were
met before need not be resolved again, since a walk through a link has one end; and a link that is
being resolved is not met, since it would lead through itself.
-/

namespace BuildHook.Files

variable {t : Tree} {m n links : Nat} {current folder middle goal location : Location}
  {steps rest names : List String} {step target : String} {p q : Path}

/-! ## Paths without links -/

/-- The number of `..` steps in a path. -/
def ups (p : Path) : Nat :=
  p.steps.count ".."

/-- The path leads to the location whatever stands on the way, with its `..` steps in front. -/
structure Straight (current : Location) (p : Path) (location : Location) : Prop where
  single : p.anchor ≠ .doubled
  leads : lexical (start current p) p.steps = location
  front : ∃ names, p.steps = List.replicate (ups p) ".." ++ names ∧ ".." ∉ names
  rooted : p.anchor = .absolute → ups p = 0

theorem straight_root : Straight current (pathOf []) [] where
  single := nofun
  leads := rfl
  front := ⟨[], rfl, List.not_mem_nil⟩
  rooted _ := rfl

theorem straight_here : Straight current .here current where
  single := nofun
  leads := rfl
  front := ⟨[], rfl, List.not_mem_nil⟩
  rooted := nofun

theorem ups_child (p : Path) (h : IsStep step) :
    ups (p.child step) = ups p + if step = ".." then 1 else 0 := by
  rw [ups, (p.child_of_isStep h).2, List.count_append, List.count_singleton, ups]
  simp

theorem ups_child_name (h : IsStep step) (hup : step ≠ "..") : ups (p.child step) = ups p := by
  rw [ups_child p h, if_neg hup, Nat.add_zero]

theorem ups_above_le (p : Path) : ups (above p) ≤ ups p + 1 := by
  unfold above
  split
  · exact (ups_child p (by decide)).le
  · exact ((List.dropLast_sublist _).count_le _).trans (Nat.le_succ _)

namespace Straight

theorem child (h : Straight current p location) (hstep : IsStep step) (hup : step ≠ "..") :
    Straight current (p.child step) (location ++ [step]) := by
  have hsteps := (p.child_of_isStep hstep).2
  have hanchor := anchor_child p hstep
  have hups : ups (p.child step) = ups p := by rw [ups_child p hstep, if_neg hup, Nat.add_zero]
  obtain ⟨names, hfront, hnames⟩ := h.front
  refine ⟨hanchor ▸ h.single, ?_, ⟨names ++ [step], ?_, ?_⟩,
    fun habs => hups.trans (h.rooted (hanchor ▸ habs))⟩
  · rw [start_eq hanchor, hsteps, lexical_append, h.leads,
      lexical_name (isName_of_isStep hstep hup)]
  · rw [hups, hsteps, hfront, List.append_assoc]
  · simp [hnames, Ne.symm hup]

-- The last step of such a path is `..` only if all are.
theorem steps_eq_ups (h : Straight current p location) (hlast : p.name = "" ∨ p.name = "..") :
    p.steps = List.replicate (ups p) ".." := by
  obtain ⟨names, hfront, hnames⟩ := h.front
  obtain rfl | ⟨init, last, rfl⟩ := names.eq_nil_or_concat'
  · rw [hfront, List.append_nil]
  · have hname : p.name = last := by rw [Path.name, hfront]; simp
    have hmem : last ∈ p.steps := by rw [hfront]; simp
    rw [hname] at hlast
    rcases hlast with rfl | rfl
    · exact absurd rfl (p.isStep "" hmem).1
    · exact absurd (by simp) hnames

theorem parent (h : Straight current p location) {init : List String}
    (hsteps : p.steps = init ++ [step]) (hup : step ≠ "..") :
    Straight current p.parent location.dropLast := by
  have hparent : p.parent.steps = init := by simp [Path.parent, hsteps]
  have hstep : IsStep step := p.isStep step (by simp [hsteps])
  have hups : ups p.parent = ups p := by simp [ups, hparent, hsteps, hup]
  obtain ⟨names, hfront, hnames⟩ := h.front
  refine ⟨h.single, ?_, ?_, fun habs => hups.trans (h.rooted habs)⟩
  · have hleads := h.leads
    rw [hsteps, lexical_append, lexical_name (isName_of_isStep hstep hup)] at hleads
    rw [hparent, ← hleads, List.dropLast_concat]
    rfl
  · rw [hups, hparent]
    rw [hsteps] at hfront
    obtain rfl | ⟨front, last, rfl⟩ := names.eq_nil_or_concat'
    · have hmem : step ∈ List.replicate (ups p) ".." := by
        rw [← List.append_nil (List.replicate _ _), ← hfront]
        simp
      exact absurd (List.eq_of_mem_replicate hmem) hup
    · rw [← List.append_assoc] at hfront
      exact ⟨front, (List.append_inj' hfront rfl).1, fun hmem => hnames (by simp [hmem])⟩

theorem above (h : Straight current p location) : Straight current (above p) location.dropLast := by
  unfold Files.above
  split
  · next hcond =>
    rw [Bool.and_eq_true, decide_eq_true_eq, Bool.or_eq_true, decide_eq_true_eq,
      decide_eq_true_eq] at hcond
    obtain ⟨hanchor, hlast⟩ := hcond
    have hup : IsStep ".." := by decide
    have hsteps := (p.child_of_isStep hup).2
    have hchild := anchor_child p hup
    refine ⟨hchild ▸ h.single, ?_, ⟨[], ?_, List.not_mem_nil⟩, fun habs => ?_⟩
    · rw [start_eq hchild, hsteps, lexical_append, h.leads, lexical_up]
    · rw [ups_child p hup, if_pos rfl, hsteps, h.steps_eq_ups hlast, List.append_nil,
        List.replicate_succ']
    · rw [hchild, hanchor] at habs
      cases habs
  · next hcond =>
    -- no `..` step is taken back, since a path with such a last step has no anchor
    have hrooted : p.name = "" ∨ p.name = ".." → p.anchor = .absolute := by
      intro hlast
      cases hanchor : p.anchor with
      | relative => simp [hanchor, hlast] at hcond
      | absolute => rfl
      | doubled => exact absurd hanchor h.single
    obtain hnil | ⟨init, last, hsteps⟩ := p.steps.eq_nil_or_concat'
    · have habs := hrooted (.inl (by simp [Path.name, hnil]))
      have hsame : p.parent = p := Path.ext rfl (by simp [Path.parent, hnil])
      obtain rfl : location = [] := by
        rw [← h.leads, hnil, start, habs]
        rfl
      rwa [hsame]
    · have hname : p.name = last := by simp [Path.name, hsteps]
      refine h.parent hsteps fun hup => ?_
      have hnone := h.rooted (hrooted (.inr (hname.trans hup)))
      simp [ups, hsteps, hup] at hnone

end Straight

/-! ## How long a path is -/

theorem width_ups (n : Nat) : width (List.replicate n "..") = 3 * n := by
  induction n with
  | zero => rfl
  | succ n ih =>
    have hup : "..".utf8ByteSize = 2 := rfl
    rw [List.replicate_succ, width, ih, hup, Nat.mul_succ, Nat.add_comm]

theorem steps_pathOf (h : ∀ name ∈ names, IsStep name) (location : Location) :
    (pathOf (location ++ names)).steps = (pathOf location).steps ++ names := by
  change (location ++ names).filter _ = location.filter _ ++ names
  rw [List.filter_append, List.filter_eq_self.mpr fun name hmem => decide_eq_true (h name hmem)]

/-- Such a path is not longer than the path of its place, but for its `..` steps. -/
theorem Straight.size_le (h : Straight current p location) (hne : p.steps ≠ [])
    (hlocation : (pathOf location).steps ≠ []) :
    p.text.utf8ByteSize ≤ (pathOf location).text.utf8ByteSize + 3 * ups p := by
  obtain ⟨names, hfront, hnames⟩ := h.front
  have hstep : ∀ name ∈ names, IsStep name :=
    fun name hmem => p.isStep name (by simp [hfront, hmem])
  have hsuffix : (pathOf location).steps =
      (pathOf (lexical (start current p) (List.replicate (ups p) ".."))).steps ++ names := by
    rw [← steps_pathOf hstep, ← lexical_names, ← lexical_append, ← hfront, h.leads]
    intro name hmem
    exact isName_of_isStep (hstep name hmem) fun hup => hnames (hup ▸ hmem)
  have hwidth : width p.steps ≤ width (pathOf location).steps + 3 * ups p := by
    rw [hfront, hsuffix, width_append, width_append, width_ups]
    omega
  have hanchor : String.utf8Len p.anchor.chars ≤ 1 := by
    cases hanchor : p.anchor with
    | relative => decide
    | absolute => decide
    | doubled => exact absurd hanchor h.single
  have hroot : String.utf8Len (pathOf location).anchor.chars = 1 := rfl
  have hsize := size_text p hne
  have hgoal := size_text (pathOf location) hlocation
  omega

/-! ## Links and where they lead -/

/-- Under this path, which has no links but the last step, stands a link. The path that it holds
leads to a folder through a number of further links. -/
inductive LinkTo (t : Tree) (current : Location) : (link : Path) → (target : String) → (n : Nat) →
    (goal : Location) → Prop
  | intro {reached : Path} {folder goal : Location} {step target : String} {n : Nat}
    (hreached : Straight current reached folder) (hstep : IsStep step) (hup : step ≠ "..")
    (hlink : t.get? (folder ++ [step]) = some (.link target))
    (htarget : Leads t n (linkBase folder target) (linkSteps target) goal) :
    LinkTo t current (reached.child step) target n goal

theorem child_inj {s s' : String} (hs : IsStep s) (hs' : IsStep s') (h : p.child s = q.child s') :
    p = q ∧ s = s' := by
  have hparent : p = q := by
    rw [← (p.child_of_isStep hs).1, h, (q.child_of_isStep hs').1]
  subst hparent
  have hsteps : (p.child s).steps = (p.child s').steps := congrArg Path.steps h
  rw [(p.child_of_isStep hs).2, (p.child_of_isStep hs').2] at hsteps
  exact ⟨rfl, List.singleton_inj.mp (List.append_cancel_left hsteps)⟩

theorem LinkTo.unique {link : Path} {target' : String} (h : LinkTo t current link target m middle)
    (h' : LinkTo t current link target' n goal) : m = n ∧ middle = goal := by
  generalize hlink : link = link' at h'
  cases h with
  | intro hreached hstep _ hnode htarget =>
    cases h' with
    | intro hreached' hstep' _ hnode' htarget' =>
      obtain ⟨rfl, rfl⟩ := child_inj hstep hstep' hlink
      obtain rfl := hreached.leads.symm.trans hreached'.leads
      cases hnode.symm.trans hnode'
      exact htarget.unique htarget'

/-- A bound on the `..` steps in links, such that no link has too long a path. -/
structure Roomy (t : Tree) (bound : Nat) : Prop where
  ups_le : ∀ location target, t.get? location = some (.link target) →
    (linkSteps target).count ".." ≤ bound
  size_lt : ∀ location target, t.get? location = some (.link target) →
    (pathOf location).text.utf8ByteSize + 3 * (bound * (linkLimit + 1)) < pathLimit

theorem linkAt?_link (hroom : Roomy t bound) (hreached : Straight current p folder)
    (hstep : IsStep step) (hup : step ≠ "..") (hups : ups p ≤ bound * (linkLimit + 1))
    (hlink : t.get? (folder ++ [step]) = some (.link target)) :
    linkAt? t current (p.child step) = some target := by
  have hchild := hreached.child hstep hup
  have hne : (p.child step).steps ≠ [] := by simp [(p.child_of_isStep hstep).2]
  have hlocation : (pathOf (folder ++ [step])).steps ≠ [] := by
    rw [steps_pathOf (by simpa using hstep)]
    simp
  have hsize := hchild.size_le hne hlocation
  have hroomy := hroom.size_lt _ _ hlink
  rw [ups_child p hstep, if_neg hup] at hsize
  rw [linkAt?, if_neg (by omega), hchild.leads, hlink]

theorem linkAt?_folder (hreached : Straight current p folder) (hstep : IsStep step)
    (hup : step ≠ "..") (hfolder : t.get? (folder ++ [step]) = some .folder) :
    linkAt? t current (p.child step) = none := by
  rw [linkAt?, (hreached.child hstep hup).leads, hfolder]
  exact ite_self _

/-! ## Resolving links -/

/-- Each link that was resolved has the path of the folder to which it leads; the path has at most
`bound` further `..` steps for each link that was followed. -/
def Met.Sound (t : Tree) (current : Location) (bound : Nat) (met : Met) : Prop :=
  ∀ link goal, met.lookup link = some (some goal) → ∃ target n place,
    LinkTo t current link target n place ∧ Straight current goal place ∧
      ups goal ≤ ups link + bound * (n + 1)

/-- The links that are being resolved lead through no fewer than `n` others. -/
def Met.Waits (t : Tree) (current : Location) (n : Nat) (met : Met) : Prop :=
  ∀ link target m place, met.lookup link = some none → LinkTo t current link target m place → n ≤ m

/-- The resolution has come to a folder, under a path with at most `most` `..` steps. -/
structure Resolution.Comes (t : Tree) (current : Location) (bound : Nat) (met : Met)
    (goal : Location) (most : Nat) (r : Resolution) : Prop where
  complete : r.isComplete = true
  straight : Straight current r.path goal
  ups_le : ups r.path ≤ most
  sound : r.met.Sound t current bound
  waiting : ∀ link, r.met.lookup link = some none → met.lookup link = some none

/-- What is found of a link that is met: the path that it has been resolved to, or what resolving it
comes to. -/
def meet (follow : Met → (link : Path) → (target : String) → Resolution) (met : Met) (link : Path)
    (target : String) : Resolution :=
  match met.lookup link with
  | some (some goal) => ⟨goal, true, met⟩
  | some none => ⟨link, false, met⟩
  | none => follow met link target

variable {bound most : Nat} {met : Met} {follow : Met → Path → String → Resolution} {link : Path}

-- A link that is resolved is replaced by its path.
theorem realLeg_link (hname : IsName step) (hlink : linkAt? t current (p.child step) = some target)
    (hcomplete : (meet follow met (p.child step) target).isComplete = true) :
    realLeg t current follow met p (step :: rest) =
      realLeg t current follow (meet follow met (p.child step) target).met
        (meet follow met (p.child step) target).path rest := by
  have hmeet : realLeg t current follow met p (step :: rest) =
      if (meet follow met (p.child step) target).isComplete = true then
        realLeg t current follow (meet follow met (p.child step) target).met
          (meet follow met (p.child step) target).path rest
      else
        ⟨(meet follow met (p.child step) target).path.join
          (Path.ofString (String.intercalate "/" rest)), false,
          (meet follow met (p.child step) target).met⟩ := by
    rw [realLeg, if_neg (by simp [hname.1]), if_neg hname.2]
    dsimp only
    rw [hlink]
    rfl
  rw [hmeet, if_pos hcomplete]

namespace Met

theorem sound_nil : Met.Sound t current bound [] := by
  intro link goal hlookup
  cases hlookup

theorem waits_nil : Met.Waits t current n [] := by
  intro link target m place hlookup
  cases hlookup

/-- A link that is going to be resolved leads to no path yet. -/
theorem Sound.cons (h : met.Sound t current bound) (link : Path) :
    Met.Sound t current bound ((link, none) :: met) := by
  intro other goal hlookup
  rw [List.lookup_cons] at hlookup
  split at hlookup
  · cases hlookup
  · exact h other goal hlookup

theorem Waits.cons (h : met.Waits t current (n + 1)) (hlink : LinkTo t current link target n goal) :
    Met.Waits t current n ((link, none) :: met) := by
  intro other target' m place hlookup hother
  rw [List.lookup_cons] at hlookup
  split at hlookup
  · next hsame =>
    obtain rfl := eq_of_beq hsame
    exact (hlink.unique hother).1.le
  · exact (Nat.le_succ n).trans (h other target' m place hlookup hother)

theorem Waits.mono (h : met.Waits t current n) (hle : m ≤ n) : met.Waits t current m :=
  fun link target k place hlookup hlink => hle.trans (h link target k place hlookup hlink)

theorem Waits.of_subset {met' : Met} (h : met.Waits t current n)
    (hsubset : ∀ link, met'.lookup link = some none → met.lookup link = some none) :
    met'.Waits t current n :=
  fun link target k place hlookup => h link target k place (hsubset link hlookup)

end Met

theorem Resolution.Comes.mono {r : Resolution} {more : Nat}
    (h : r.Comes t current bound met goal most) (hle : most ≤ more) :
    r.Comes t current bound met goal more :=
  { h with ups_le := h.ups_le.trans hle }

/-- `follow` resolves every link that leads through fewer than `links` others. -/
def Follows (t : Tree) (current : Location) (bound links : Nat)
    (follow : Met → Path → String → Resolution) : Prop :=
  ∀ (met : Met) link target n place, n < links → LinkTo t current link target n place →
    met.Sound t current bound → met.Waits t current (n + 1) →
    ups link + bound * (n + 1) ≤ bound * (linkLimit + 1) →
    (follow met link target).Comes t current bound met place (ups link + bound * (n + 1))

theorem comes_meet (hfollow : Follows t current bound links follow) (hn : n < links)
    (hlink : LinkTo t current link target n goal) (hsound : met.Sound t current bound)
    (hwaits : met.Waits t current (n + 1))
    (hups : ups link + bound * (n + 1) ≤ bound * (linkLimit + 1)) :
    (meet follow met link target).Comes t current bound met goal (ups link + bound * (n + 1)) := by
  cases hlookup : met.lookup link with
  | none =>
    rw [meet, hlookup]
    exact hfollow met link target n goal hn hlink hsound hwaits hups
  | some pending =>
    cases pending with
    | none =>
      -- the link would lead through itself
      have hself := hwaits link target n goal hlookup hlink
      omega
    | some path =>
      obtain ⟨target', k, place, hother, hstraight, hle⟩ := hsound _ _ hlookup
      obtain ⟨rfl, rfl⟩ := hlink.unique hother
      rw [meet, hlookup]
      exact ⟨rfl, hstraight, hle, hsound, fun _ h => h⟩

/-- The steps behind a path without links are resolved if each link on them is. -/
theorem comes_realLeg (hroom : Roomy t bound) (hfollow : Follows t current bound links follow)
    (h : Leads t n folder steps goal) (hn : n ≤ links) (hslash : ∀ step ∈ steps, '/' ∉ step.toList)
    (hreached : Straight current p folder) (hsound : met.Sound t current bound)
    (hwaits : met.Waits t current n)
    (hups : ups p + steps.count ".." + bound * n ≤ bound * (linkLimit + 1)) :
    (realLeg t current follow met p steps).Comes t current bound met goal
      (ups p + steps.count ".." + bound * n) := by
  induction h generalizing p met with
  | nil => exact ⟨rfl, hreached, Nat.le_add_right _ _, hsound, fun _ h => h⟩
  | @stay n folder goal step rest hstay _ ih =>
    have hup : step ≠ ".." := by
      rintro rfl
      cases hstay
    rw [List.count_cons_of_ne hup] at hups ⊢
    rw [realLeg, if_pos hstay]
    exact ih hn (List.forall_mem_cons.mp hslash).2 hreached hsound hwaits hups
  | @up n folder goal rest _ ih =>
    rw [List.count_cons_self] at hups ⊢
    have habove := ups_above_le p
    rw [realLeg, if_neg (by decide), if_pos rfl]
    exact (ih hn (List.forall_mem_cons.mp hslash).2 hreached.above hsound hwaits
      (by omega)).mono (by omega)
  | @down n folder goal step rest hname hfolder _ ih =>
    obtain ⟨hown, hslash⟩ := List.forall_mem_cons.mp hslash
    have hstep := isStep_of_isName hname hown
    rw [List.count_cons_of_ne hname.2, ← ups_child_name hstep hname.2] at hups ⊢
    rw [realLeg, if_neg (by simp [hname.1]), if_neg hname.2]
    dsimp only
    rw [linkAt?_folder hreached hstep hname.2 hfolder]
    exact ih hn hslash (hreached.child hstep hname.2) hsound hwaits hups
  | @link m n folder middle goal step target rest hname hlink htarget _ _ ih =>
    obtain ⟨hown, hslash⟩ := List.forall_mem_cons.mp hslash
    have hstep := isStep_of_isName hname hown
    have hchild := ups_child_name (p := p) hstep hname.2
    have hsplit : bound * (m + n + 1) = bound * (m + 1) + bound * n := by
      rw [← Nat.mul_add, Nat.add_right_comm]
    rw [List.count_cons_of_ne hname.2, hsplit] at hups ⊢
    have hfound := comes_meet hfollow (by omega)
      (.intro hreached hstep hname.2 hlink htarget) hsound (hwaits.mono (by omega)) (by omega)
    have hle := hfound.ups_le
    rw [realLeg_link hname (linkAt?_link hroom hreached hstep hname.2 (by omega) hlink)
      hfound.complete]
    have hrest := ih (by omega) hslash hfound.straight hfound.sound
      ((hwaits.mono (by omega)).of_subset hfound.waiting) (by omega)
    exact { hrest.mono (by omega) with
      waiting := fun link hlookup => hfound.waiting link (hrest.waiting link hlookup) }

/-- A resolved link is known from then on. -/
theorem Resolution.Comes.known {r : Resolution} (hlink : LinkTo t current link target n goal)
    (h : r.Comes t current bound ((link, none) :: met) goal (ups link + bound * (n + 1))) :
    Resolution.Comes t current bound met goal (ups link + bound * (n + 1))
      { r with met := (link, some r.path) :: r.met } where
  complete := h.complete
  straight := h.straight
  ups_le := h.ups_le
  sound := by
    intro other path hlookup
    rw [List.lookup_cons] at hlookup
    split at hlookup
    · next hsame =>
      obtain rfl := eq_of_beq hsame
      obtain rfl := Option.some.inj (Option.some.inj hlookup)
      exact ⟨target, n, goal, hlink, h.straight, h.ups_le⟩
    · exact h.sound other path hlookup
  waiting := by
    intro other hlookup
    rw [List.lookup_cons] at hlookup
    split at hlookup
    · cases hlookup
    · next hother =>
      have hwaiting := h.waiting other hlookup
      rwa [List.lookup_cons, hother] at hwaiting

theorem straight_linkBase (hreached : Straight current p folder) (hstep : IsStep step)
    (target : String) :
    Straight current (if isAnchored target then pathOf [] else (p.child step).parent)
        (linkBase folder target) ∧
      ups (if isAnchored target then pathOf [] else (p.child step).parent) ≤ ups p := by
  rw [linkBase, (p.child_of_isStep hstep).1]
  split
  · exact ⟨straight_root, Nat.zero_le _⟩
  · exact ⟨hreached, le_rfl⟩

/-- Links inside links are resolved as deep as there are links on the walk. -/
theorem comes_realWalk (hroom : Roomy t bound) (depth : Nat)
    (h : Leads t n folder steps goal) (hn : n ≤ depth) (hslash : ∀ step ∈ steps, '/' ∉ step.toList)
    (hreached : Straight current p folder) (hsound : met.Sound t current bound)
    (hwaits : met.Waits t current n)
    (hups : ups p + steps.count ".." + bound * n ≤ bound * (linkLimit + 1)) :
    (realWalk t current depth met p steps).Comes t current bound met goal
      (ups p + steps.count ".." + bound * n) := by
  induction depth generalizing met p folder steps goal n with
  | zero =>
    refine comes_realLeg hroom (fun _ _ _ m _ hm => ?_) h hn hslash hreached hsound hwaits hups
    omega
  | succ depth ih =>
    refine comes_realLeg hroom ?_ h hn hslash hreached hsound hwaits hups
    intro met link target m place hm hlink hsound hwaits hups
    have hknown := hwaits.cons hlink
    cases hlink with
    | intro hreached hstep hup hnode htarget =>
      obtain ⟨hbase, hbase_le⟩ := straight_linkBase hreached hstep target
      have hcount := hroom.ups_le _ _ hnode
      have hsplit : bound * (m + 1) = bound * m + bound := Nat.mul_succ bound m
      rw [ups_child_name hstep hup, hsplit] at hups
      have hfound := ih htarget (by omega) (fun _ => notMem_linkSteps) hbase
        (hsound.cons _) hknown (by omega)
      dsimp only
      rw [if_pos hfound.complete]
      refine Resolution.Comes.known (.intro hreached hstep hup hnode htarget) (hfound.mono ?_)
      rw [ups_child_name hstep hup, hsplit]
      omega

/-! ## The path of a folder -/

/-- The path of a folder with all links resolved is the folder's own path. -/
theorem realPath_of_find (hroom : Roomy t bound) (hups : ups p ≤ bound)
    (h : find t current p = .ok (.node goal .folder)) : realPath t current p = pathOf goal := by
  obtain ⟨n, hn, hleads⟩ := leads_of_find h
  have hdepth : n ≤ pathLimit * t.entries.length := by
    rcases hleads.entries_ne_nil with rfl | hne
    · exact Nat.zero_le _
    · have hlength := List.length_pos_iff.mpr hne
      have hlimit : linkLimit ≤ pathLimit := by decide
      exact (hn.trans hlimit).trans (Nat.le_mul_of_pos_right _ hlength)
  have hbase :
      Straight current (if p.anchor = .relative then .here else pathOf []) (start current p) ∧
      ups (if p.anchor = .relative then .here else pathOf []) = 0 := by
    rw [start]
    cases p.anchor with
    | relative => exact ⟨straight_here, rfl⟩
    | absolute => exact ⟨straight_root, rfl⟩
    | doubled => exact ⟨straight_root, rfl⟩
  have hcount : bound * n ≤ bound * linkLimit := Nat.mul_le_mul_left bound hn
  have hcomes := comes_realWalk hroom (pathLimit * t.entries.length) hleads hdepth
    (fun step hmem => (p.isStep step hmem).2.2) hbase.1 Met.sound_nil Met.waits_nil (by
      rw [hbase.2, Nat.mul_succ]
      rw [ups] at hups
      omega)
  rw [realPath, normal, hcomes.straight.leads, if_neg hcomes.straight.single]
  rfl

theorem resolve_of_find (hroom : Roomy t bound) (hups : ups p ≤ bound) (hcurrent : IsReal t current)
    (hzero : p.hasZero = false) (h : find t current p = .ok (.node goal .folder)) :
    resolve t current p = .ok (pathOf goal) ∧
      find t current (pathOf goal) = .ok (.node goal .folder) := by
  obtain ⟨n, -, hleads⟩ := leads_of_find h
  have hstart : IsReal t (start current p) := by
    rw [start]
    split
    · exact hcurrent
    · exact isReal_nil t
  have hgoal := hleads.isReal (fun step hmem => (p.isStep step hmem).2.2) hstart
  have hfind := hgoal.find_pathOf current
  refine ⟨?_, hfind⟩
  simp only [resolve, hzero, Bool.false_eq_true, ↓reduceIte, realPath_of_find hroom hups h, hfind,
    ite_self]

end BuildHook.Files
