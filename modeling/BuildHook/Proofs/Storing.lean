import BuildHook.Proofs.Containment
import BuildHook.Proofs.Invalidation
import BuildHook.Proofs.Places

/-!
# How an external file is stored

A download writes a draft into the slot of the temporary path, and what has been checked is moved
from there to the target. Besides these two places only folders are made. The places must not hold
links, and the target must not lead to the draft.
-/

namespace BuildHook

open Run (exec)

variable {s s' : Session} {t t' middle : Tree} {current draft place : Location} {p : Path}
  {content : List UInt8}

namespace Lookaside

/-! ## Drafts -/

/-- The second tree is the first one with a content in the slot of a path, where neither a folder
nor a link was; besides, it has folders more. -/
structure Drafted (current : Location) (p : Path) (t t' : Tree) (place : Location)
    (content : List UInt8) : Prop where
  slot : Files.Slot t' current p place
  loose : t.IsLoose place
  grows : t.GrowsOff [place] t'
  written : t'.get? place = some (.file content)

theorem Drafted.sameWays (h : Drafted current p t t' place content) : t.SameWays t' := by
  refine h.grows.sameWays (fun other hother => ?_) fun other hother => ?_
  · obtain rfl := List.mem_singleton.mp hother
    exact h.loose
  · obtain rfl := List.mem_singleton.mp hother
    exact Tree.IsLoose.of_file h.written

theorem Drafted.of_grows (h : Drafted current p middle t' place content) (hgrows : t.Grows middle) :
    Drafted current p t t' place content where
  slot := h.slot
  loose := Tree.IsLoose.of_grows hgrows h.loose
  grows := (Tree.GrowsOff.of_grows hgrows).trans h.grows
  written := h.written

-- The second draft is in the place of the first one.
theorem Drafted.trans {other : Location} {first : List UInt8}
    (h : Drafted current p t middle other first)
    (h' : Drafted current p middle t' place content) : Drafted current p t t' place content := by
  have hslot : Files.Slot t' current p other := h.slot.keeps h'.sameWays
  obtain rfl := hslot.unique h'.slot
  exact ⟨h'.slot, h.loose, h.grows.trans h'.grows, h'.written⟩

theorem drafted_of_write {folder : Location} {name : String}
    (hparent : Files.find t current p.parent = .ok (.node folder .folder))
    (hlast : Files.lastName p = some name) (hlink : Files.Unlinked t current p)
    (h : Files.write t current p content = .ok t') :
    Drafted current p t t' (folder ++ [name]) content := by
  have hslot : Files.Slot t current p (folder ++ [name]) := ⟨folder, name, hparent, hlast, rfl⟩
  obtain ⟨hloose, rfl⟩ :=
    Files.write_slot hslot (hlink t (Tree.SameWays.refl t) _ hslot) h
  have hgrows : t.GrowsOff [folder ++ [name]] (t.put (folder ++ [name]) (.file content)) :=
    .put (List.mem_singleton.mpr rfl) hslot.ne_nil _
  have hwritten : (t.put (folder ++ [name]) (.file content)).get? (folder ++ [name]) =
      some (.file content) := by
    rw [Tree.get?_put _ hslot.ne_nil, if_pos rfl]
  have hways : t.SameWays (t.put (folder ++ [name]) (.file content)) :=
    hgrows.sameWays (by simpa using hloose) (by simpa using Tree.IsLoose.of_file hwritten)
  exact ⟨hslot.keeps hways, hloose, hgrows, hwritten⟩

/-- What a download makes of a tree: folders if it fails early, and else a draft, whose digest is
right if it succeeds. -/
def Attempted (current : Location) (goal : Path) (sha512 : String) (t t' : Tree)
    (result : Except Fault Unit) : Prop :=
  (t.Grows t' ∧ result ≠ .ok ⟨⟩) ∨
    ∃ place content, Drafted current goal t t' place content ∧
      (result = .ok ⟨⟩ → hasDigest content sha512 = true)

variable {a : Lookaside} {f : ExternalFile} {goal target : Path} {name url sha512 : String}

theorem current_download (a : Lookaside) (url sha512 : String) (goal : Path) (s : Session) :
    (exec (a.download url goal sha512) s).2.current = s.current :=
  (Licence.allows_download (l := .anything) trivial fun _ _ => trivial).current

theorem attempted_download (a : Lookaside) (url sha512 : String)
    (hlast : ∃ last, Files.lastName goal = some last)
    (hlink : Files.Unlinked s.tree s.current goal) :
    Attempted s.current goal sha512 s.tree (exec (a.download url goal sha512) s).2.tree
      (exec (a.download url goal sha512) s).1 := by
  unfold download
  rw [Run.exec_bind_of_ok (Run.exec_note _ s), Run.exec_bind_of_ok (Run.exec_get _)]
  cases (s.noting (.request url a.agent)).reply url with
  | unreachable reason => exact .inl ⟨Tree.Grows.refl _, nofun⟩
  | refused reason => exact .inl ⟨Tree.Grows.refl _, nofun⟩
  | content pieces broken =>
    have hgrows := Files.grows_makeFolders s.tree s.current goal.parent
    have hparent := Files.find_makeFolders s.tree s.current goal.parent
    dsimp only
    rw [Run.exec_bind, Run.exec_makeFolders, Session.noting_tree, Session.noting_current]
    generalize Files.makeFolders s.tree s.current goal.parent = made at *
    obtain ⟨made, result⟩ := made
    cases result with
    | error cause => exact .inl ⟨hgrows, nofun⟩
    | ok _ =>
      obtain ⟨folder, hfolder⟩ := hparent rfl
      obtain ⟨last, hlast⟩ := hlast
      dsimp only [Except.mapError]
      rw [Run.exec_bind, Run.exec_change, Session.withTree_tree, Session.withTree_current,
        Session.noting_current]
      cases hwrite : Files.write made s.current goal pieces.flatten with
      | error cause => exact .inl ⟨hgrows, nofun⟩
      | ok written =>
        have hdrafted := (drafted_of_write hfolder hlast (hlink.keeps hgrows.sameWays)
          hwrite).of_grows hgrows
        dsimp only
        cases broken with
        | some reason => exact .inr ⟨_, _, hdrafted, nofun⟩
        | none =>
          dsimp only
          split
          · next hdigest => exact .inr ⟨_, _, hdrafted, fun _ => hdigest⟩
          · exact .inr ⟨_, _, hdrafted, nofun⟩

/-- A file that has been obtained is in the slot of the path, with the right digest. -/
theorem obtain_eq_ok (hlast : ∃ last, Files.lastName goal = some last)
    (hlink : Files.Unlinked s.tree s.current goal)
    (h : exec (a.obtain f name goal) s = (.ok ⟨⟩, s')) :
    ∃ place content, Drafted s.current goal s.tree s'.tree place content ∧
      hasDigest content f.sha512 = true := by
  -- of a download that succeeds
  have hsucceeds : ∀ {url : String} {start : Session}, start.current = s.current →
      Files.Unlinked start.tree start.current goal →
      exec (a.download url goal f.sha512) start = (.ok ⟨⟩, s') →
      ∃ place content, Drafted s.current goal start.tree s'.tree place content ∧
        hasDigest content f.sha512 = true := by
    intro url start hcurrent hstart hrun
    have hattempted := attempted_download a url f.sha512 hlast hstart
    rw [hrun, hcurrent] at hattempted
    rcases hattempted with ⟨-, hfailed⟩ | ⟨place, content, hdrafted, hdigest⟩
    · exact absurd rfl hfailed
    · exact ⟨place, content, hdrafted, hdigest rfl⟩
  unfold obtain at h
  split at h
  · exact hsucceeds rfl hlink h
  · rw [Run.exec_tryCatch] at h
    have hfirst := attempted_download a (f.cacheUrl a.base name) f.sha512 hlast hlink
    have hcurrent := current_download a (f.cacheUrl a.base name) f.sha512 goal s
    cases hrun : exec (a.download (f.cacheUrl a.base name) goal f.sha512) s with
    | mk result next =>
      rw [hrun] at h hfirst hcurrent
      cases result with
      | ok _ => exact hsucceeds rfl hlink (hrun.trans h)
      | error fault =>
        cases fault with
        | fetch cause =>
          dsimp only at h hfirst hcurrent
          split at h
          · -- the second download starts from what the first one left
            rcases hfirst with ⟨hgrows, -⟩ | ⟨other, first, hdrafted, -⟩
            · obtain ⟨place, content, hlater, hdigest⟩ := hsucceeds hcurrent
                (hcurrent ▸ hlink.keeps hgrows.sameWays) h
              exact ⟨place, content, hlater.of_grows hgrows, hdigest⟩
            · obtain ⟨place, content, hlater, hdigest⟩ := hsucceeds hcurrent
                (hcurrent ▸ hlink.keeps hdrafted.sameWays) h
              exact ⟨place, content, hdrafted.trans hlater, hdigest⟩
          · cases h
        | _ => cases h

/-! ## Stored files -/

/-- A draft that has been moved from the slot of one path to that of another one. -/
structure Stored (current : Location) (temporary target : Path) (t middle t' : Tree)
    (draft place : Location) (content : List UInt8) : Prop where
  drafted : Drafted current temporary t middle draft content
  slot : Files.Slot middle current target place
  loose : middle.IsLoose place
  apart : draft ≠ place
  moved : t' = (middle.erase draft).put place (.file content)

namespace Stored

variable {temporary : Path}

theorem get? (h : Stored current temporary target t middle t' draft place content)
    (location : Location) :
    t'.get? location = if place = location then some (.file content)
      else if draft = location then none else middle.get? location := by
  rw [h.moved, Tree.get?_put _ h.slot.ne_nil, Tree.get?_erase _ h.drafted.slot.ne_nil]

theorem placed (h : Stored current temporary target t middle t' draft place content) :
    t'.get? place = some (.file content) := by
  rw [h.get?, if_pos rfl]

theorem gone (h : Stored current temporary target t middle t' draft place content) :
    t'.get? draft = none := by
  rw [h.get?, if_neg (Ne.symm h.apart), if_pos rfl]

theorem grows (h : Stored current temporary target t middle t' draft place content) :
    middle.GrowsOff [draft, place] t' := by
  intro location hlocation
  rw [List.mem_cons, List.mem_singleton, not_or] at hlocation
  rw [h.get?, if_neg (Ne.symm hlocation.2), if_neg (Ne.symm hlocation.1)]
  exact .inl rfl

theorem sameWays_middle (h : Stored current temporary target t middle t' draft place content) :
    middle.SameWays t' := by
  refine h.grows.sameWays (fun other hother => ?_) fun other hother => ?_
  · rcases List.mem_cons.mp hother with rfl | hother
    · exact Tree.IsLoose.of_file h.drafted.written
    · exact List.mem_singleton.mp hother ▸ h.loose
  · rcases List.mem_cons.mp hother with rfl | hother
    · exact Tree.IsLoose.of_none h.gone
    · exact List.mem_singleton.mp hother ▸ Tree.IsLoose.of_file h.placed

theorem sameWays (h : Stored current temporary target t middle t' draft place content) :
    t.SameWays t' :=
  h.drafted.sameWays.trans h.sameWays_middle

theorem find (h : Stored current temporary target t middle t' draft place content) :
    Files.find t' current target = .ok (.node place (.file content)) :=
  (h.slot.keeps h.sameWays_middle).find h.placed

end Stored

/-- The target must not lead to a draft in the slot of the temporary path. -/
def Apart (t : Tree) (current : Location) (temporary target : Path) : Prop :=
  ∀ t', t.SameWays t' → ∀ place, Files.Slot t' current temporary place →
    ∀ content, Files.find t' current target ≠ .ok (.node place (.file content))

theorem stored_of_rename {temporary : Path} {draftContent : List UInt8}
    (hdrafted : Drafted current temporary t middle draft draftContent)
    (hlink : Files.Unlinked t current target) (hapart : Apart t current temporary target)
    (h : Files.rename middle current temporary target = .ok t') :
    Files.isBarred target = false ∧
      ∃ place, Stored current temporary target t middle t' draft place draftContent := by
  obtain ⟨hbarred, place, hslot, hfolder, rfl⟩ := Files.rename_slot hdrafted.slot hdrafted.written h
  have hways := hdrafted.sameWays
  have hloose : middle.IsLoose place := ⟨hfolder, hlink middle hways place hslot⟩
  refine ⟨hbarred, place, hdrafted, hslot, hloose, ?_, rfl⟩
  -- otherwise the draft would be what the target leads to
  rintro rfl
  exact hapart middle hways draft hdrafted.slot _ (hslot.find hdrafted.written)

/-- A file that has been stored is in the slot of its target, and nothing of it is left beside. -/
theorem store_eq_ok (hdraft : Files.Unlinked s.tree s.current (target.withName ("." ++ name)))
    (hlink : Files.Unlinked s.tree s.current target)
    (hapart : Apart s.tree s.current (target.withName ("." ++ name)) target)
    (h : exec (a.store f name target) s = (.ok ⟨⟩, s')) :
    Files.isBarred target = false ∧ ∃ middle draft place content,
      Stored s.current (target.withName ("." ++ name)) target s.tree middle s'.tree draft place
        content ∧ hasDigest content f.sha512 = true := by
  obtain ⟨result, moved, hattempt, h⟩ := Run.exec_bind_eq_ok.mp h
  obtain ⟨_, cleared, hremove, hend⟩ := Run.exec_bind_eq_ok.mp h
  obtain ⟨rfl, rfl⟩ := Run.exec_orFail_eq_ok.mp hend
  rw [Exposure.exec_attempt, Prod.mk.injEq, Except.ok.injEq] at hattempt
  obtain ⟨hresult, hmoved⟩ := hattempt
  -- the file is obtained, then renamed, and the temporary path is empty
  obtain ⟨_, obtained, hobtain, hrename⟩ :=
    Run.exec_bind_eq_ok.mp (Prod.ext hresult hmoved : exec _ s = (.ok ⟨⟩, moved))
  have hcurrent : obtained.current = s.current :=
    ((Licence.allows_obtain (l := .anything) (fun _ _ => trivial) fun _ _ => trivial).of_exec
      hobtain).current
  rw [Run.exec_change] at hrename hremove
  rw [hcurrent] at hrename
  cases hrenamed : Files.rename obtained.tree s.current (target.withName ("." ++ name)) target with
  | error cause =>
    rw [hrenamed] at hrename
    cases hrename
  | ok renamed =>
    rw [hrenamed] at hrename
    obtain rfl := (Prod.mk.inj hrename).2
    obtain ⟨draft, content, hdrafted, hdigest⟩ :=
      obtain_eq_ok (Files.lastName_of_rename hrenamed).1 hdraft hobtain
    obtain ⟨hbarred, place, hstored⟩ := stored_of_rename hdrafted hlink hapart hrenamed
    rw [Session.withTree_tree, Session.withTree_current, hcurrent] at hremove
    cases hremoved : Files.removeIfThere renamed s.current (target.withName ("." ++ name)) with
    | error cause =>
      rw [hremoved] at hremove
      cases hremove
    | ok last =>
      rw [hremoved] at hremove
      obtain rfl := (Prod.mk.inj hremove).2
      have hslot := hdrafted.slot.keeps hstored.sameWays_middle
      obtain rfl := Files.removeIfThere_slot hslot hstored.gone hremoved
      exact ⟨hbarred, obtained.tree, draft, place, content, hstored, hdigest⟩

/-! ## One file -/

theorem isPresent_eq_ok {present : Bool} (h : exec (isPresent f target) s = (.ok present, s')) :
    s'.tree = s.tree ∧ s'.current = s.current ∧
      (present = true → ∃ content, Files.read s.tree s.current target = .ok content ∧
        hasDigest content f.sha512 = true) := by
  rw [isPresent, Run.exec_bind_of_ok (Run.exec_get s)] at h
  split at h
  · obtain ⟨content, next, hread, hpresent⟩ := Run.exec_bind_eq_ok.mp h
    rw [Run.exec_readFile, Prod.mk.injEq, Run.mapError_eq_ok] at hread
    obtain ⟨hread, rfl⟩ := hread
    obtain ⟨hresult, rfl⟩ := Prod.mk.inj hpresent
    exact ⟨rfl, rfl, fun htrue => ⟨content, hread, (Except.ok.inj hresult).trans htrue⟩⟩
  · obtain ⟨_, next, hlook, hpresent⟩ := Run.exec_bind_eq_ok.mp h
    obtain ⟨-, rfl⟩ := Run.exec_orFail_eq_ok.mp hlook
    obtain ⟨hresult, rfl⟩ := Prod.mk.inj hpresent
    exact ⟨rfl, rfl, fun htrue => absurd (htrue ▸ Except.ok.inj hresult) nofun⟩

/-- A file that is in its place is signalled and read, and that is all. -/
theorem exec_fetchOne_present (hname : f.localName = .ok name) (hne : name ≠ "")
    (hread : Files.read s.tree s.current (f.target a.folder name) = .ok content)
    (hdigest : hasDigest content f.sha512 = true) :
    exec (a.fetchOne f) s = (.ok ⟨⟩, s.opening (f.target a.folder name)) := by
  obtain ⟨hbarred, place, hfind⟩ := Files.read_eq_ok.mp hread
  have hfile : Files.isFile s.tree s.current (f.target a.folder name) = true := by
    rw [Files.isFile, hbarred, hfind]
    rfl
  have hlocal : exec (Run.orFail Fault.url f.localName) s = (.ok name, s) := by
    rw [Run.exec_orFail, hname]
    rfl
  have hpresent : exec (isPresent f (f.target a.folder name))
      (s.noting (.notice (.signal (.file (f.target a.folder name))))) =
        (.ok true, s.opening (f.target a.folder name)) := by
    rw [isPresent, Run.exec_bind_of_ok (Run.exec_get _), Session.noting_tree,
      Session.noting_current, if_pos hfile]
    have hopened : exec (Run.readFile Fault.files (f.target a.folder name))
        (s.noting (.notice (.signal (.file (f.target a.folder name))))) =
          (.ok content, s.opening (f.target a.folder name)) := by
      rw [Run.exec_readFile, Session.noting_tree, Session.noting_current, hread]
      rfl
    rw [Run.exec_bind_of_ok hopened, hdigest]
    rfl
  rw [fetchOne, Run.exec_bind_of_ok hlocal]
  dsimp only
  rw [if_neg hne, Run.exec_bind_of_ok (Run.exec_watchFile _ s), Run.exec_bind_of_ok hpresent]
  rfl

/-- A file is fetched if it is in its place already, or if it can be stored there. -/
theorem fetchOne_eq_ok (h : exec (a.fetchOne f) s = (.ok ⟨⟩, s')) :
    ∃ name, f.localName = .ok name ∧ name ≠ "" ∧
      ((∃ content, Files.read s.tree s.current (f.target a.folder name) = .ok content ∧
          hasDigest content f.sha512 = true) ∨
        ∃ start, start.tree = s.tree ∧ start.current = s.current ∧
          exec (a.store f name (f.target a.folder name)) start = (.ok ⟨⟩, s')) := by
  obtain ⟨name, next, hlocal, h⟩ := Run.exec_bind_eq_ok.mp h
  obtain ⟨hname, rfl⟩ := Run.exec_orFail_eq_ok.mp hlocal
  dsimp only at h
  split at h
  · obtain ⟨_, _, hthrow, -⟩ := Run.exec_bind_eq_ok.mp h
    cases hthrow
  · next hne =>
    refine ⟨name, hname, hne, ?_⟩
    rw [Run.exec_bind_of_ok (Run.exec_watchFile _ s)] at h
    obtain ⟨present, start, hpresent, h⟩ := Run.exec_bind_eq_ok.mp h
    obtain ⟨htree, hcurrent, hcontent⟩ := isPresent_eq_ok hpresent
    cases present with
    | true => exact .inl (hcontent rfl)
    | false => exact .inr ⟨start, htree, hcurrent, h⟩

end Lookaside

end BuildHook
