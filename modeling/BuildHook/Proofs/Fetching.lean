import BuildHook.Proofs.Requests
import BuildHook.Proofs.Retries

/-!
# Fetching is all or nothing

A file that is fetched is stored whole or not at all. While it is fetched the tree goes through few
states: folders are made, then a draft is written beside the target, perhaps twice, and at last it
is renamed or removed.
-/

namespace BuildHook

open Run (exec)

namespace Files

variable {t t' middle : Tree} {current place : Location} {goal target : Path}
  {content : List UInt8}

/-- The tree in which the folders above a path have been made, as far as they could be. -/
def made (t : Tree) (current : Location) (goal : Path) : Tree :=
  (makeFolders t current goal.parent).1

/-- No link stands under a path once the folders above it have been made. -/
def Free (t : Tree) (current : Location) (goal : Path) : Prop :=
  ∀ place, Slot (made t current goal) current goal place →
    ∀ target, (made t current goal).get? place ≠ some (.link target)

/-- The trees on the way to a file under a path: as it was, with the folders, and with a draft. -/
inductive Begun (current : Location) (goal : Path) (t : Tree) : Tree → Prop
  | untouched : Begun current goal t t
  | folders : Begun current goal t (made t current goal)
  | drafted {place : Location} (content : List UInt8)
    (hslot : Slot (made t current goal) current goal place)
    (hloose : (made t current goal).IsLoose place) :
    Begun current goal t ((made t current goal).put place (.file content))

/-- With a draft in the place that a path names, of a certain content. -/
def IsDraft (current : Location) (goal : Path) (t : Tree) (content : List UInt8) (t' : Tree) :
    Prop :=
  ∃ place, Slot (made t current goal) current goal place ∧ (made t current goal).IsLoose place ∧
    t' = (made t current goal).put place (.file content)

theorem IsDraft.begun (h : IsDraft current goal t content t') : Begun current goal t t' := by
  obtain ⟨place, hslot, hloose, rfl⟩ := h
  exact .drafted content hslot hloose

theorem sameWays_put_file (hne : place ≠ []) (hloose : t.IsLoose place) (content : List UInt8) :
    t.SameWays (t.put place (.file content)) := by
  have hgrows : t.GrowsOff [place] (t.put place (.file content)) :=
    .put (List.mem_singleton.mpr rfl) hne _
  have hwritten : (t.put place (.file content)).get? place = some (.file content) := by
    rw [Tree.get?_put _ hne, if_pos rfl]
  exact hgrows.sameWays (by simpa using hloose) (by simpa using Tree.IsLoose.of_file hwritten)

/-- Making the folders once more leaves them, and a draft, as they are. -/
theorem Begun.makeFolders (h : Begun current goal t t') :
    (Files.makeFolders t' current goal.parent).1 = made t current goal ∨
      ∃ content, IsDraft current goal t content (Files.makeFolders t' current goal.parent).1 := by
  cases h with
  | untouched => exact .inl rfl
  | folders => exact .inl (makeFolders_again t current goal.parent)
  | @drafted place content hslot hloose =>
    have ⟨folder, _, hparent, _⟩ := hslot
    have hways := sameWays_put_file hslot.ne_nil hloose content
    rw [makeFolders_of_folder (find_keepsWays hways.keeps hparent)]
    exact .inr ⟨content, place, hslot, hloose, rfl⟩

/-- What is written after that is a draft of the new content alone. -/
theorem isDraft_of_write (hfree : Free t current goal) (hlast : ∃ last, lastName goal = some last)
    (hmade : middle = made t current goal ∨ ∃ old, IsDraft current goal t old middle)
    (hfolder : ∃ location, find middle current goal.parent = .ok (.node location .folder))
    (h : write middle current goal content = .ok t') : IsDraft current goal t content t' := by
  rcases hmade with rfl | ⟨old, place, hslot, hloose, rfl⟩
  · obtain ⟨folder, hparent⟩ := hfolder
    obtain ⟨last, hlast⟩ := hlast
    have hslot : Slot (made t current goal) current goal (folder ++ [last]) :=
      ⟨folder, last, hparent, hlast, rfl⟩
    obtain ⟨hloose, rfl⟩ := write_slot hslot (hfree _ hslot) h
    exact ⟨_, hslot, hloose, rfl⟩
  · have hthere := hslot.keeps (sameWays_put_file hslot.ne_nil hloose old)
    have hold : ((made t current goal).put place (.file old)).get? place = some (.file old) := by
      rw [Tree.get?_put _ hslot.ne_nil, if_pos rfl]
    obtain ⟨-, rfl⟩ := write_slot hthere (by simp [hold]) h
    exact ⟨place, hslot, hloose, Tree.put_put _ _ _ _⟩

-- What is removed in the end is the draft, or what stood in its place before.
theorem Begun.clear (hfree : Free t current goal) (h : Begun current goal t middle)
    (hremove : removeIfThere middle current goal = .ok t') :
    Cleared current goal t t' ∨ Cleared current goal (made t current goal) t' := by
  have hgrows := grows_makeFolders t current goal.parent
  cases h with
  | untouched =>
    refine .inl (cleared_of_removeIfThere (fun place hslot target hlink => ?_) hremove)
    exact hfree place (hslot.keeps hgrows.sameWays) target (hgrows.keeps _ _ hlink)
  | folders => exact .inr (cleared_of_removeIfThere hfree hremove)
  | @drafted place content hslot hloose =>
    have hthere := hslot.keeps (sameWays_put_file hslot.ne_nil hloose content)
    have hnode : ∀ location, ((made t current goal).put place (.file content)).get? location =
        if place = location then some (.file content) else (made t current goal).get? location :=
      Tree.get?_put _ hslot.ne_nil _
    have hcleared := cleared_of_removeIfThere (fun other hother target => by
      obtain rfl := hother.unique hthere
      simp [hnode]) hremove
    rcases hcleared with ⟨hnone, -⟩ | ⟨hother, -, hrest⟩
    · have hfile := hnone place hthere
      simp [hnode] at hfile
    · obtain rfl := hother.unique hthere
      refine .inr (.removed hslot hloose fun location => ?_)
      rw [hrest, hnode]
      split <;> rfl

/-! ## What is left -/

/-- A file that could not be fetched: some folders may have been made on the way to the target, but
nothing else is different, except that nothing is left in the slot of the temporary path. -/
structure Undone (current : Location) (temporary target : Path) (t middle t' : Tree) : Prop where
  folders : GrowsAlong current target.parent t middle
  others : ∀ location, t'.get? location = middle.get? location ∨
    Slot middle current temporary location
  gone : ∀ place, Slot t' current temporary place → t'.get? place = none
  /-- What stood at the target stands there. -/
  kept : ∀ place, Slot t current target place → t'.get? place = t.get? place
  /-- What is at the target stood in its place before, or is a folder that has been made there. -/
  before : ∀ place, Slot t' current target place → t'.get? place = t.get? place ∨
    t.get? place = none ∧ t'.get? place = some .folder

/-- A file that has been fetched: the target leads to its content, and nothing is left in the slot
of the temporary path. Besides, some folders may have been made on the way to the target. -/
structure Delivered (current : Location) (temporary target : Path) (t middle t' : Tree)
    (content : List UInt8) : Prop where
  folders : GrowsAlong current target.parent t middle
  others : ∀ location, t'.get? location = middle.get? location ∨
    Slot middle current temporary location ∨ Slot middle current target location
  gone : ∀ place, Slot t' current temporary place → t'.get? place = none
  target : Files.read t' current target = .ok content

-- Different names are different places.
theorem Slot.ne {p q : Path} {other : Location} (hlast : lastName p ≠ lastName q)
    (h : Slot t current p place) (h' : Slot t current q other) : place ≠ other := by
  obtain ⟨folder, name, hfind, hname, rfl⟩ := h
  obtain ⟨folder', name', hfind', hname', rfl⟩ := h'
  intro heq
  obtain ⟨-, hsame⟩ := List.append_inj' heq rfl
  obtain rfl : name = name' := by simpa using hsame
  exact hlast (hname.trans hname'.symm)

/-- Whatever a fetch has begun is undone when the temporary path is cleared. -/
theorem Begun.undone {temporary : Path} (hparent : target.parent = temporary.parent)
    (hlast : lastName target ≠ lastName temporary) (hfree : Free t current temporary)
    (h : Begun current temporary t middle)
    (hremove : removeIfThere middle current temporary = .ok t') :
    ∃ middle, Undone current temporary target t middle t' := by
  -- the tree in which only the temporary path was cleared
  obtain ⟨base, hfolders, hstill, hcleared⟩ : ∃ base, GrowsAlong current target.parent t base ∧
      ((∃ location, find t current target.parent = .ok (.node location .folder)) → base = t) ∧
      Cleared current temporary base t' := by
    rcases h.clear hfree hremove with hcleared | hcleared
    · exact ⟨t, .refl t, fun _ => rfl, hcleared⟩
    · refine ⟨made t current temporary, ?_, fun ⟨location, hfind⟩ => ?_, hcleared⟩
      · rw [hparent]
        exact growsAlong_makeFolders t current temporary.parent
      · rw [hparent] at hfind
        exact makeFolders_of_folder hfind
  have hplace : ∀ place, Slot base current target place → t'.get? place = base.get? place := by
    intro place hslot
    exact (hcleared.get? place).resolve_right fun hother => hslot.ne hlast hother rfl
  refine ⟨base, hfolders, hcleared.get?, fun _ => hcleared.slot_none, fun place hslot => ?_,
    fun place hslot => ?_⟩
  · have ⟨folder, _, hfind, _⟩ := hslot
    obtain rfl := hstill ⟨folder, hfind⟩
    exact hplace place hslot
  · obtain ⟨folder, name, hfind, hname, rfl⟩ := hslot
    rw [hplace _ ⟨folder, name, find_keeps hcleared.keeps hfind, hname, rfl⟩]
    exact hfolders.grows _

theorem holder_of_file {content : List UInt8}
    (h : find t current goal.parent = .ok (.node place (.file content))) :
    holder t current goal = .error .notFolder := by
  have hwalk : walk t false linkLimit (start current goal) goal.steps.dropLast =
      .ok (.node place (.file content)) := h
  rw [holder, hwalk]

theorem holder_of_error {obstacle : Obstacle} (h : find t current goal.parent = .error obstacle) :
    holder t current goal = .error obstacle := by
  have hwalk : walk t false linkLimit (start current goal) goal.steps.dropLast =
      .error obstacle := h
  rw [holder, hwalk]

-- A path that names a place in a folder which it does not lead to any more cannot be cleared.
theorem find_of_covers (hcovers : t.Covers t') {folder : Location}
    (hfolder : find t current goal.parent = .ok (.node folder .folder))
    (hremove : removeIfThere t' current goal = .ok middle) :
    find t' current goal.parent = .ok (.node folder .folder) := by
  have habsent : ∀ obstacle, holder t' current goal = .error obstacle → obstacle = .absent := by
    intro obstacle herror
    obtain ⟨-, ⟨habsent, -⟩ | ⟨_, _, hok, -⟩⟩ := removeIfThere_eq_ok hremove
    · exact Except.error.inj (herror.symm.trans habsent)
    · cases herror.symm.trans hok
  rcases find_covers hcovers hfolder with hsame | ⟨other, old, hfile⟩ | hblocked
  · exact hsame
  · cases habsent _ (holder_of_file hfile)
  · cases habsent _ (holder_of_error hblocked)

-- A draft that has been renamed is in the slot of the target, and nothing is in its own.
theorem IsDraft.renamed {temporary : Path} {renamed : Tree}
    (hlast : lastName target ≠ lastName temporary)
    (h : IsDraft current temporary t content middle)
    (hrename : rename middle current temporary target = .ok renamed) :
    isBarred target = false ∧ ∃ draft place,
      Slot (made t current temporary) current temporary draft ∧
      Slot middle current temporary draft ∧ Slot middle current target place ∧ place ≠ draft ∧
      middle.Covers renamed ∧ ∀ location, renamed.get? location =
        if place = location then some (.file content)
        else if draft = location then none else (made t current temporary).get? location := by
  obtain ⟨draft, hdraft, hloose, rfl⟩ := h
  have hthere := hdraft.keeps (sameWays_put_file hdraft.ne_nil hloose content)
  have hnode : ∀ location, ((made t current temporary).put draft (.file content)).get? location =
      if draft = location then some (.file content) else (made t current temporary).get? location :=
    Tree.get?_put _ hdraft.ne_nil _
  obtain ⟨hbarred, place, hslot, -, hmoved⟩ :=
    rename_slot hthere ((hnode draft).trans (if_pos rfl)) hrename
  have hrenamed : ∀ location, renamed.get? location =
      if place = location then some (.file content)
        else if draft = location then none else (made t current temporary).get? location := by
    intro location
    rw [hmoved, Tree.get?_put _ hslot.ne_nil, Tree.get?_erase _ hdraft.ne_nil, hnode]
    split
    · rfl
    · split <;> rfl
  refine ⟨hbarred, draft, place, hdraft, hthere, hslot, hslot.ne hlast hthere, ?_, hrenamed⟩
  intro location node hway hold
  rw [hnode] at hold
  rw [hrenamed]
  split
  · exact .inr ⟨content, rfl⟩
  · split at hold
    · exact absurd (Option.some.inj hold).symm (hway content)
    · next hother => exact .inl (by rw [if_neg hother, hold])

/-- A draft that is renamed is delivered, if the temporary path is clear in the end. -/
theorem IsDraft.delivered {temporary : Path} {renamed : Tree}
    (hparent : target.parent = temporary.parent) (hlast : lastName target ≠ lastName temporary)
    (h : IsDraft current temporary t content middle)
    (hrename : rename middle current temporary target = .ok renamed)
    (hremove : removeIfThere renamed current temporary = .ok t') :
    Delivered current temporary target t (made t current temporary) t' content := by
  obtain ⟨hbarred, draft, place, hdraft, hthere, hslot, hne, hcovers, hrenamed⟩ :=
    h.renamed hlast hrename
  -- the target may have replaced a link on its own way, but then the removal would have failed
  obtain ⟨folder, name, hfolder, hname, rfl⟩ := hthere
  have hstill := find_of_covers hcovers hfolder hremove
  have hgone : renamed.get? (folder ++ [name]) = none := by
    rw [hrenamed, if_neg hne, if_pos rfl]
  have hslotDraft : Slot renamed current temporary (folder ++ [name]) :=
    ⟨folder, name, hstill, hname, rfl⟩
  obtain rfl := removeIfThere_slot hslotDraft hgone hremove
  obtain ⟨folder', goal, hfolder', hgoal, rfl⟩ := hslot
  obtain ⟨rfl, -⟩ := Place.node.inj (Except.ok.inj ((hparent ▸ hfolder').symm.trans hfolder))
  have ⟨base, _, hbase, _, heq⟩ := hdraft
  obtain ⟨rfl, -⟩ := List.append_inj' heq rfl
  refine ⟨hparent ▸ growsAlong_makeFolders t current temporary.parent, fun location => ?_,
    fun place hslot => ?_, ?_⟩
  · rw [hrenamed]
    split
    · next heq => exact .inr (.inr ⟨_, goal, hparent ▸ hbase, hgoal, heq.symm⟩)
    · split
      · next heq => exact .inr (.inl (heq ▸ hdraft))
      · exact .inl rfl
  · rw [hslot.unique hslotDraft, hgone]
  · have hthere : Slot t' current target (_ ++ [goal]) :=
      ⟨_, goal, hparent ▸ hstill, hgoal, rfl⟩
    exact read_eq_ok.mpr ⟨hbarred, _, hthere.find (by rw [hrenamed, if_pos rfl])⟩

end Files

namespace Lookaside

variable {a : Lookaside} {f : ExternalFile} {s s' : Session} {t : Tree} {goal target : Path}
  {name url sha512 : String} {result : Except Fault Unit}

open Files (Begun IsDraft Free)

/-! ## Downloads -/

theorem reply_download (url sha512 : String) (goal : Path) (s : Session) (other : String) :
    (exec (a.download url goal sha512) s).2.reply other = s.reply other := by
  rw [exec_download]
  split
  · rfl
  · rfl
  · split
    · rfl
    · split <;> rfl

/-- A download goes on from where an earlier one has ended. If it succeeds, the draft is the whole
content of the reply, with the right digest. -/
theorem begun_download (a : Lookaside) (url sha512 : String)
    (hlast : ∃ last, Files.lastName goal = some last)
    (hfree : Free t s.current goal) (h : Begun s.current goal t s.tree) :
    Begun s.current goal t (exec (a.download url goal sha512) s).2.tree ∧
      ((exec (a.download url goal sha512) s).1 = .ok ⟨⟩ → ∃ pieces,
        s.reply url = .content pieces none ∧ hasDigest pieces.flatten sha512 = true ∧
        IsDraft s.current goal t pieces.flatten (exec (a.download url goal sha512) s).2.tree) := by
  have hmade := h.makeFolders
  have hparent := Files.find_makeFolders s.tree s.current goal.parent
  rw [exec_download]
  cases s.reply url with
  | unreachable reason => exact ⟨h, nofun⟩
  | refused reason => exact ⟨h, nofun⟩
  | content pieces broken =>
    dsimp only
    generalize Files.makeFolders s.tree s.current goal.parent = made at hmade hparent ⊢
    have hbegun : Begun s.current goal t made.1 := by
      rcases hmade with hmade | ⟨old, hdraft⟩
      · rw [hmade]
        exact .folders
      · exact hdraft.begun
    obtain ⟨made, cause | _⟩ := made
    · exact ⟨hbegun, nofun⟩
    · dsimp only
      cases hwrite : Files.write made s.current goal pieces.flatten with
      | error cause => exact ⟨hbegun, nofun⟩
      | ok written =>
        have hdraft := Files.isDraft_of_write hfree hlast hmade (hparent rfl) hwrite
        refine ⟨hdraft.begun, fun hok => ⟨pieces, ?_⟩⟩
        cases broken with
        | some reason => cases hok
        | none =>
          dsimp only at hok
          split at hok
          · next hdigest => exact ⟨rfl, hdigest, hdraft⟩
          · cases hok

/-- The last request was for an address, and what was replied is what has been written. -/
def Obtained (a : Lookaside) (goal : Path) (sha512 : String) (s : Session) (t : Tree)
    (s' : Session) : Prop :=
  ∃ asked url pieces, s'.requests = s.requests ++ asked ++ [(url, a.agent)] ∧
    s.reply url = .content pieces none ∧ hasDigest pieces.flatten sha512 = true ∧
    IsDraft s.current goal t pieces.flatten s'.tree

theorem begun_obtain (a : Lookaside) (f : ExternalFile) (name : String)
    (hlast : ∃ last, Files.lastName goal = some last)
    (hfree : Free s.tree s.current goal) :
    Begun s.current goal s.tree (exec (a.obtain f name goal) s).2.tree ∧
      ((exec (a.obtain f name goal) s).1 = .ok ⟨⟩ →
        a.Obtained goal f.sha512 s s.tree (exec (a.obtain f name goal) s).2) := by
  -- of one download, whether it is the first one or not
  have hone : ∀ (url : String) (start : Session), start.current = s.current →
      (∀ other, start.reply other = s.reply other) →
      Begun s.current goal s.tree start.tree → (∃ asked, start.requests = s.requests ++ asked) →
      Begun s.current goal s.tree (exec (a.download url goal f.sha512) start).2.tree ∧
        ((exec (a.download url goal f.sha512) start).1 = .ok ⟨⟩ →
          a.Obtained goal f.sha512 s s.tree (exec (a.download url goal f.sha512) start).2) := by
    rintro url start hcurrent hreply hbegun ⟨asked, hasked⟩
    rw [← hcurrent] at hbegun hfree ⊢
    obtain ⟨htree, hok⟩ := begun_download a url f.sha512 hlast hfree hbegun
    refine ⟨htree, fun h => ?_⟩
    obtain ⟨pieces, hpieces, hdigest, hdraft⟩ := hok h
    refine ⟨asked, url, pieces, ?_, (hreply url).symm.trans hpieces, hdigest, hcurrent ▸ hdraft⟩
    rw [requests_download, hasked]
  rw [exec_obtain]
  split
  · exact hone _ s rfl (fun _ => rfl) .untouched ⟨[], (List.append_nil _).symm⟩
  · have hfirst := hone (f.cacheUrl a.base name) s rfl (fun _ => rfl) .untouched
      ⟨[], (List.append_nil _).symm⟩
    have hcurrent := current_download a (f.cacheUrl a.base name) f.sha512 goal s
    have hreply := reply_download (a := a) (f.cacheUrl a.base name) f.sha512 goal s
    have hrequests := requests_download a (f.cacheUrl a.base name) f.sha512 goal s
    split
    · next cause next hrun =>
      rw [hrun] at hfirst hcurrent hreply hrequests
      split
      · exact hone _ next hcurrent hreply hfirst.1 ⟨_, hrequests⟩
      · exact ⟨hfirst.1, nofun⟩
    · exact hfirst

/-! ## One file -/

/-- How the store of a file ends: with the file delivered, as the last reply has it, or with a
failed fetch and all undone. If something else fails, such as the removal of what is left beside the
target, neither is promised. -/
inductive Ends (a : Lookaside) (sha512 : String) (temporary target : Path) (s s' : Session) :
    Except Fault Unit → Prop
  | delivered {asked : List (String × String)} {url : String} {pieces : List (List UInt8)}
    {middle : Tree} (hrequests : s'.requests = s.requests ++ asked ++ [(url, a.agent)])
    (hreply : s.reply url = .content pieces none)
    (hdigest : hasDigest pieces.flatten sha512 = true)
    (hdelivered : Files.Delivered s.current temporary target s.tree middle s'.tree
      pieces.flatten) : Ends a sha512 temporary target s s' (.ok ⟨⟩)
  | undone {cause : FetchFault} {middle : Tree}
    (hundone : Files.Undone s.current temporary target s.tree middle s'.tree) :
    Ends a sha512 temporary target s s' (.error (.fetch cause))
  | escaped {fault : Fault} (h : ∀ cause, fault ≠ .fetch cause) :
    Ends a sha512 temporary target s s' (.error fault)

theorem Ends.of_undone {temporary : Path} {middle : Tree}
    (h : Files.Undone s.current temporary target s.tree middle s'.tree) (fault : Fault) :
    a.Ends sha512 temporary target s s' (.error fault) := by
  by_cases hfetch : ∃ cause, fault = .fetch cause
  · obtain ⟨cause, rfl⟩ := hfetch
    exact .undone h
  · exact .escaped fun cause heq => hfetch ⟨cause, heq⟩

theorem Ends.of_files {temporary : Path} (cause : Files.Fault) :
    a.Ends sha512 temporary target s s' (.error (.files cause)) :=
  .escaped fun _ heq => by cases heq

theorem ends_store (hlast : ∃ last, Files.lastName goal = some last)
    (hne : Files.lastName target ≠ Files.lastName goal) (hparent : target.parent = goal.parent)
    (hgoal : goal = target.withName ("." ++ name)) (hfree : Free s.tree s.current goal) :
    a.Ends f.sha512 goal target s (exec (a.store f name target) s).2
      (exec (a.store f name target) s).1 := by
  obtain ⟨hbegun, hobtained⟩ := begun_obtain a f name hlast hfree
  have hcurrent : (exec (a.obtain f name goal) s).2.current = s.current :=
    (Licence.allows_obtain (l := .anything) (fun _ _ => trivial) fun _ _ => trivial).current
  rw [store, ← hgoal, exec_removing, Run.exec_bind]
  generalize exec (a.obtain f name goal) s = run at hbegun hobtained hcurrent ⊢
  obtain ⟨fault | _, next⟩ := run
  · -- nothing has been renamed
    dsimp only at hbegun hcurrent ⊢
    rw [hcurrent]
    split
    · next t hremove =>
      obtain ⟨middle, hundone⟩ := hbegun.undone hparent hne hfree hremove
      exact .of_undone hundone fault
    · exact .of_files _
  · obtain ⟨asked, url, pieces, hrequests, hreply, hdigest, hdraft⟩ := hobtained rfl
    dsimp only at hbegun hcurrent hrequests hdraft ⊢
    rw [Run.exec_change, hcurrent]
    cases hrename : Files.rename next.tree s.current goal target with
    | error cause =>
      dsimp only
      rw [hcurrent]
      split
      · next t hremove =>
        obtain ⟨middle, hundone⟩ := hbegun.undone hparent hne hfree hremove
        exact .of_undone hundone _
      · exact .of_files _
    | ok renamed =>
      dsimp only
      rw [Session.withTree_tree, Session.withTree_current, hcurrent]
      split
      · next t hremove =>
        exact .delivered hrequests hreply hdigest (hdraft.delivered hparent hne hrename hremove)
      · exact .of_files _

/-- What fetching one file comes to. Nothing is done if it is in its place already, or if it has no
name, or if the system does not say what stands under its path; and else it is stored. -/
inductive Settled (a : Lookaside) (f : ExternalFile) (s s' : Session) : Except Fault Unit → Prop
  | present {target : Path} (htarget : a.target? f = some target)
    (hholds : s.holds target f.sha512 = true) (htree : s'.tree = s.tree)
    (hrequests : s'.requests = s.requests) : Settled a f s s' (.ok ⟨⟩)
  | nameless {fault : Fault} (htarget : a.target? f = none) (htree : s'.tree = s.tree)
    (hrequests : s'.requests = s.requests) : Settled a f s s' (.error fault)
  | unseen {target : Path} {cause : Files.Fault} (htarget : a.target? f = some target)
    (hlook : Files.look s.tree s.current target = .error cause) (htree : s'.tree = s.tree)
    (hrequests : s'.requests = s.requests) : Settled a f s s' (.error (.files cause))
  | stored {name : String} {result : Except Fault Unit} (hlocal : f.localName = .ok name)
    (hname : name ≠ "")
    (hends : a.Ends f.sha512 (f.temporary a.folder name) (f.target a.folder name) s s' result) :
    Settled a f s s' result

theorem Ends.of_looking {temporary : Path} (goal : Path)
    (h : a.Ends sha512 temporary target (s.looking goal) s' result) :
    a.Ends sha512 temporary target s s' result := by
  cases h with
  | delivered hrequests hreply hdigest hdelivered =>
    simp only [Session.requests_looking, Session.looking_reply, Session.looking_tree,
      Session.looking_current] at hrequests hreply hdelivered
    exact .delivered hrequests hreply hdigest hdelivered
  | undone hundone =>
    simp only [Session.looking_tree, Session.looking_current] at hundone
    exact .undone hundone
  | escaped h => exact .escaped h

/-- Fetching one file is all or nothing, unless a link stands under its temporary path. -/
theorem fetch_settles
    (hfree : ∀ name, f.localName = .ok name →
      Free s.tree s.current (f.temporary a.folder name)) :
    a.Settled f s (exec (a.fetch [f]) s).2 (exec (a.fetch [f]) s).1 := by
  have hsingle : exec (a.fetch [f]) s = exec (a.fetchOne f) s := by
    rw [exec_fetch_cons]
    rcases exec (a.fetchOne f) s with ⟨_ | _, next⟩ <;> rfl
  rw [hsingle]
  cases htarget : a.target? f with
  | none =>
    obtain ⟨-, fault, hfail⟩ := exec_fetchOne_nameless htarget s
    rw [hfail]
    exact .nameless htarget rfl rfl
  | some target =>
    obtain ⟨name, hlocal, hne, rfl⟩ := target?_eq_some.mp htarget
    have hdotted := isStep_dotted (ExternalFile.isStep_localName hlocal hne)
    have htemporary : Files.lastName (f.temporary a.folder name) = some ("." ++ name) :=
      Files.lastName_child _ hdotted.1 hdotted.2
    have hother : Files.lastName (f.target a.folder name) ≠
        Files.lastName (f.temporary a.folder name) := by
      rw [htemporary, Files.lastName, ExternalFile.getLast?_target hlocal hne]
      dsimp only
      split
      · intro heq
        cases heq
      · intro heq
        have hlength := congrArg String.length (Option.some.inj heq)
        simp at hlength
    rw [exec_fetchOne hlocal hne]
    split
    · next hlook => exact .unseen htarget hlook (by simp) (by simp)
    · split
      · next hholds => exact .present htarget hholds (by simp) (by simp)
      · refine .stored hlocal hne (Ends.of_looking (f.target a.folder name) ?_)
        refine ends_store ⟨_, htemporary⟩ hother
          (ExternalFile.parent_temporary hlocal hne _).symm rfl ?_
        rw [Session.looking_tree, Session.looking_current]
        exact hfree name hlocal

/-- A session in which the address of a file replies with an empty content. -/
def replying (f : ExternalFile) (tree : Tree) : Session :=
  { Session.fresh tree ["r"] with replies := [(f.url, .content [] none)] }

theorem fetch_settles_sample :
    let f := emptyFile "y"
    let s := replying f sampleTree
    (∀ name, f.localName = .ok name → Free s.tree s.current (f.temporary sample.folder name)) ∧
      sample.Settled f s (exec (sample.fetch [f]) s).2 (exec (sample.fetch [f]) s).1 := by
  intro f s
  have hfree : ∀ name, f.localName = .ok name →
      Free s.tree s.current (f.temporary sample.folder name) := by
    intro name hname place hslot
    obtain rfl : "y" = name := Except.ok.inj hname
    have hthere : Files.Slot (Files.made s.tree s.current (f.temporary sample.folder "y")) s.current
        (f.temporary sample.folder "y") ["r", "p", ".y"] :=
      ⟨["r", "p"], ".y", by decide +kernel, by decide +kernel, rfl⟩
    obtain rfl := hslot.unique hthere
    have hnone : (Files.made s.tree s.current (f.temporary sample.folder "y")).get?
        ["r", "p", ".y"] = none := by
      decide +kernel
    simp [hnone]
  exact ⟨hfree, fetch_settles hfree⟩

def failsToFetch : Except Fault Unit → Bool
  | .error (.fetch _) => true
  | _ => false

def emptyFolder : Tree where
  entries := [(["r"], .folder), (["r", "p"], .folder)]
  distinct := by decide

-- A link that the temporary path meets once a folder on its way has been made.
def linkBeside : Tree where
  entries := [(["r"], .folder), (["r", "p"], .folder), (["r", "p", "v"], .file [1]),
    (["r", "p", ".x"], .link "v")]
  distinct := by decide

/-- Two fetches to paths that lead through a missing folder. The first one fails, and the folder
that has been made stands where nothing stood. The second one succeeds, and another file is
overwritten. In both cases nothing stands under the temporary path before. -/
theorem fetch_goes_astray :
    let f := emptyFile "x/../x"
    let g := emptyFile "n/../x"
    let failed := exec (sample.fetch [f]) (replying f emptyFolder)
    let astray := exec (sample.fetch [g]) (replying g linkBeside)
    ((Files.find emptyFolder ["r"] (f.temporary sample.folder "x")).toOption = none ∧
        failsToFetch failed.1 = true ∧ emptyFolder.get? ["r", "p", "x"] = none ∧
        failed.2.tree.get? ["r", "p", "x"] = some .folder) ∧
      (Files.find linkBeside ["r"] (g.temporary sample.folder "x")).toOption = none ∧
        astray.1.toOption = some ⟨⟩ ∧ linkBeside.get? ["r", "p", "v"] = some (.file [1]) ∧
        astray.2.tree.get? ["r", "p", "v"] = some (.file []) := by
  decide +kernel

end Lookaside

end BuildHook
