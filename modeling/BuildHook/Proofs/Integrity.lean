import BuildHook.Proofs.SignalLog
import BuildHook.Proofs.Storing

/-!
# What fetched files are

After external files have been fetched, each of them is in its place with the digest that it has to
have, and fetching them again only looks at them. Files that are stored one after the other must stay
out of each other's way: one file's place is no other's draft, and no link moves either of them.
-/

namespace BuildHook

open Run (exec)

/-- The digest that an external file has to have. -/
def ExternalFile.digest (f : ExternalFile) : String :=
  Text.lower (Text.strip f.sha512)

namespace Lookaside

variable {a : Lookaside} {s s' : Session} {t t' middle : Tree} {current draft place : Location}
  {f g : ExternalFile} {files : List ExternalFile} {name : String} {content : List UInt8}

theorem hasDigest_congr (h : f.digest = g.digest) (content : List UInt8) :
    hasDigest content f.sha512 = hasDigest content g.sha512 := by
  unfold ExternalFile.digest at h
  rw [hasDigest, hasDigest, h]

/-- An external file is in its place and has the right digest. -/
def Verified (a : Lookaside) (s : Session) (f : ExternalFile) : Prop :=
  ∃ name content, f.localName = .ok name ∧ name ≠ "" ∧
    Files.read s.tree s.current (f.target a.folder name) = .ok content ∧
    hasDigest content f.sha512 = true

/-- The target of an external file leads to a file in a place. -/
def LeadsTo (a : Lookaside) (t : Tree) (current : Location) (f : ExternalFile) (place : Location) :
    Prop :=
  ∃ target content, a.Targets f target ∧
    Files.find t current target = .ok (.node place (.file content))

/-- An external file of a name can be stored without harm to some files, whatever files and folders
are added to the tree: no link is in the slot of its target or of its temporary path, no target leads
to the latter, and only those of files with the same digest lead to the former. -/
structure Clear (a : Lookaside) (t : Tree) (current : Location) (files : List ExternalFile)
    (g : ExternalFile) (name : String) : Prop where
  temporary : Files.Unlinked t current (g.temporary a.folder name)
  target : Files.Unlinked t current (g.target a.folder name)
  others : ∀ t', t.SameWays t' → ∀ f ∈ files, ∀ place, a.LeadsTo t' current f place →
    ¬Files.Slot t' current (g.temporary a.folder name) place ∧
      (Files.Slot t' current (g.target a.folder name) place → f.digest = g.digest)

theorem Clear.keeps (h : a.Clear t current files g name) (hways : t.SameWays t') :
    a.Clear t' current files g name where
  temporary := h.temporary.keeps hways
  target := h.target.keeps hways
  others := fun t'' hlater => h.others t'' (hways.trans hlater)

theorem Clear.apart (h : a.Clear t current files g name) (hg : g ∈ files)
    (hname : g.localName = .ok name) :
    Apart t current (g.temporary a.folder name) (g.target a.folder name) :=
  fun t' hways place hslot content hfind =>
    (h.others t' hways g hg place ⟨_, content, ⟨name, hname, rfl⟩, hfind⟩).1 hslot

/-! ## One file -/

theorem Verified.congr (h : a.Verified s f) (htree : s'.tree = s.tree)
    (hcurrent : s'.current = s.current) : a.Verified s' f := by
  obtain ⟨name, content, hname, hne, hread, hdigest⟩ := h
  exact ⟨name, content, hname, hne, by rw [htree, hcurrent]; exact hread, hdigest⟩

theorem Verified.exec_fetchOne (h : a.Verified s f) :
    ∃ target, a.Targets f target ∧ exec (a.fetchOne f) s = (.ok ⟨⟩, s.opening target) := by
  obtain ⟨name, content, hname, hne, hread, hdigest⟩ := h
  exact ⟨_, ⟨name, hname, rfl⟩, exec_fetchOne_present hname hne hread hdigest⟩

/-- Storing one file leaves the others verified. -/
theorem Verified.of_stored
    (hstored : Stored s.current (g.temporary a.folder name) (g.target a.folder name) s.tree middle
      s'.tree draft place content)
    (hcurrent : s'.current = s.current) (hclear : a.Clear s.tree s.current files g name)
    (hdigest : hasDigest content g.sha512 = true) (hf : f ∈ files) (h : a.Verified s f) :
    a.Verified s' f := by
  obtain ⟨own, old, hown, hne, hread, hold⟩ := h
  obtain ⟨hzero, found, hfind⟩ := Files.read_eq_ok.mp hread
  have htarget : a.Targets f (f.target a.folder own) := ⟨own, hown, rfl⟩
  by_cases hplace : found = place
  · -- the file has been replaced by one with the same digest
    subst hplace
    have hnow := Files.find_refill hstored.sameWays.keeps hstored.placed hfind
    have hslot := hstored.slot.keeps hstored.sameWays_middle
    have hsame := (hclear.others s'.tree hstored.sameWays f hf found
      ⟨_, content, htarget, hnow⟩).2 hslot
    refine ⟨own, content, hown, hne, Files.read_eq_ok.mpr ⟨hzero, found, ?_⟩, ?_⟩
    · rw [hcurrent]
      exact hnow
    · rw [hasDigest_congr hsame]
      exact hdigest
  · have hdraft : found ≠ draft := by
      rintro rfl
      have hways := hstored.drafted.sameWays
      have hthere := Files.find_refill hways.keeps hstored.drafted.written hfind
      exact (hclear.others middle hways f hf found ⟨_, content, htarget, hthere⟩).1
        hstored.drafted.slot
    have hnode := Files.get?_of_walk hfind
    have hmiddle : middle.get? found = some (.file old) := by
      rcases hstored.drafted.grows found (by simpa using hdraft) with hsame | ⟨hnone, -⟩
      · rw [hsame, hnode]
      · rw [hnone] at hnode
        cases hnode
    have hlast : s'.tree.get? found = some (.file old) := by
      rw [hstored.get?, if_neg (Ne.symm hplace), if_neg (Ne.symm hdraft), hmiddle]
    refine ⟨own, old, hown, hne, Files.read_eq_ok.mpr ⟨hzero, found, ?_⟩, hold⟩
    rw [hcurrent]
    exact Files.find_refill hstored.sameWays.keeps hlast hfind

/-- What fetching one file preserves: the ways of the tree and the files that are verified. The file
itself is verified afterwards. -/
theorem fetchOne_keeps (hg : g ∈ files)
    (hclear : a.Verified s g ∨ ∀ name, g.localName = .ok name →
      a.Clear s.tree s.current files g name)
    (h : exec (a.fetchOne g) s = (.ok ⟨⟩, s')) :
    s.tree.SameWays s'.tree ∧ s'.current = s.current ∧ a.Verified s' g ∧
      ∀ f ∈ files, a.Verified s f → a.Verified s' f := by
  by_cases hverified : a.Verified s g
  · obtain ⟨target, -, hpresent⟩ := hverified.exec_fetchOne
    obtain rfl := (Prod.mk.inj (hpresent.symm.trans h)).2
    exact ⟨Tree.SameWays.refl _, rfl, hverified.congr rfl rfl, fun f _ hf => hf.congr rfl rfl⟩
  · have hclear := hclear.resolve_left hverified
    obtain ⟨name, hname, hne, ⟨content, hread, hdigest⟩ | ⟨start, htree, hcurrent, hstore⟩⟩ :=
      fetchOne_eq_ok h
    · exact absurd ⟨name, content, hname, hne, hread, hdigest⟩ hverified
    have hfree := hclear name hname
    have hlast : s'.current = s.current := by
      rw [← hcurrent]
      exact ((Licence.allows_store (l := .anything) (fun _ _ => trivial) fun _ _ =>
        trivial).of_exec hstore).current
    rw [← htree, ← hcurrent] at hfree
    obtain ⟨hzero, middle, draft, place, content, hstored, hdigest⟩ :=
      store_eq_ok hfree.temporary hfree.target (hfree.apart hg hname) hstore
    rw [htree, hcurrent] at hstored hfree
    refine ⟨hstored.sameWays, hlast, ⟨name, content, hname, hne, ?_, hdigest⟩, fun f hf hf' => ?_⟩
    · rw [hlast]
      exact Files.read_eq_ok.mpr ⟨hzero, place, hstored.find⟩
    · exact hf'.of_stored hstored hlast hfree hdigest hf

/-! ## Files directly in the folder -/

/-- A file that is stored under a name directly in the folder. -/
def Plain (a : Lookaside) (f : ExternalFile) (name : String) : Prop :=
  f.localName = .ok name ∧ IsStep name ∧ name ≠ ".." ∧
    f.target a.folder name = a.folder.child name

theorem slot_child (hfolder : Files.find t current a.folder = .ok (.node place .folder))
    (hstep : IsStep name) (hup : name ≠ "..") :
    Files.Slot t current (a.folder.child name) (place ++ [name]) := by
  refine ⟨place, name, ?_, Files.lastName_child a.folder hstep hup, rfl⟩
  rw [(a.folder.child_of_isStep hstep).1]
  exact hfolder

theorem isStep_dotted (hstep : IsStep name) : IsStep ("." ++ name) ∧ "." ++ name ≠ ".." := by
  obtain ⟨hempty, hstay, hslash⟩ := hstep
  have hdotted : ("." ++ name).toList = '.' :: name.toList := by
    rw [String.toList_append]
    rfl
  refine ⟨⟨fun h => ?_, fun h => hempty ?_, ?_⟩, fun h => hstay ?_⟩
  · rw [h] at hdotted
    cases hdotted
  · rw [h] at hdotted
    exact String.toList_eq_nil_iff.mp (List.cons.inj hdotted).2.symm
  · rw [hdotted]
    exact List.not_mem_cons_of_ne_of_not_mem (by decide) hslash
  · rw [h] at hdotted
    exact String.toList_inj.mp (List.cons.inj hdotted).2.symm

/-- Files directly in the folder are clear of each other if none of their names is another one's with
a dot in front, equal names have equal digests, and no links have these names. -/
theorem clear_of_plain {names : ExternalFile → String}
    (hfolder : Files.find t current a.folder = .ok (.node place .folder))
    (hplain : ∀ f ∈ files, a.Plain f (names f))
    (hlinks : ∀ f ∈ files, ∀ name ∈ [names f, "." ++ names f],
      ∀ target, t.get? (place ++ [name]) ≠ some (.link target))
    (hg : g ∈ files)
    (hothers : ∀ f ∈ files, names f ≠ "." ++ names g ∧ (names f = names g → f.digest = g.digest)) :
    a.Clear t current files g (names g) := by
  -- the slots are the names' own in every tree with the same ways
  have hslots : ∀ f ∈ files, ∀ t', t.SameWays t' →
      Files.Slot t' current (f.target a.folder (names f)) (place ++ [names f]) ∧
        Files.Slot t' current (f.temporary a.folder (names f)) (place ++ ["." ++ names f]) := by
    intro f hf t' hways
    obtain ⟨-, hstep, hup, htarget⟩ := hplain f hf
    obtain ⟨hdotted, hdottedUp⟩ := isStep_dotted hstep
    have hthere := Files.find_keepsWays hways.keeps hfolder
    rw [ExternalFile.temporary, Path.withName, htarget, (a.folder.child_of_isStep hstep).1]
    exact ⟨slot_child hthere hstep hup, slot_child hthere hdotted hdottedUp⟩
  have hunlinked : ∀ f ∈ files, ∀ name ∈ [names f, "." ++ names f], ∀ t', t.SameWays t' →
      ∀ target, t'.get? (place ++ [name]) ≠ some (.link target) :=
    fun f hf name hname t' hways target hlink =>
      hlinks f hf name hname target ((hways.2 _ target).mp hlink)
  refine ⟨fun t' hways other hslot => ?_, fun t' hways other hslot => ?_,
    fun t' hways f hf other hleads => ?_⟩
  · obtain rfl := hslot.unique (hslots g hg t' hways).2
    exact hunlinked g hg _ (by simp) t' hways
  · obtain rfl := hslot.unique (hslots g hg t' hways).1
    exact hunlinked g hg _ (by simp) t' hways
  · obtain ⟨target, content, ⟨own, hown, rfl⟩, hfind⟩ := hleads
    obtain rfl : names f = own := Except.ok.inj ((hplain f hf).1.symm.trans hown)
    obtain rfl := (hslots f hf t' hways).1.place_of_find
      (hunlinked f hf _ (by simp) t' hways) hfind
    refine ⟨fun hslot => (hothers f hf).1 ?_, fun hslot => (hothers f hf).2 ?_⟩
    · simpa using hslot.unique (hslots g hg t' hways).2
    · simpa using hslot.unique (hslots g hg t' hways).1

/-! ## Lists of files -/

/-- What fetching a part of the files preserves, by induction over the part. -/
theorem fetch_keeps {part : List ExternalFile} (hpart : part ⊆ files)
    (hclear : ∀ g ∈ part, a.Verified s g ∨ ∀ name, g.localName = .ok name →
      a.Clear s.tree s.current files g name)
    (h : exec (a.fetch part) s = (.ok ⟨⟩, s')) :
    s'.current = s.current ∧ (∀ g ∈ part, a.Verified s' g) ∧
      ∀ f ∈ files, a.Verified s f → a.Verified s' f := by
  induction part generalizing s with
  | nil =>
    obtain rfl : s = s' := (Prod.mk.inj h).2
    exact ⟨rfl, nofun, fun _ _ hf => hf⟩
  | cons g rest ih =>
    obtain ⟨hg, hrest⟩ := List.cons_subset.mp hpart
    rw [fetch, Run.exec_forM_cons] at h
    obtain ⟨_, next, hone, hlater⟩ := Run.exec_bind_eq_ok.mp h
    obtain ⟨hways, hcurrent, hverified, hkept⟩ :=
      fetchOne_keeps hg (hclear g List.mem_cons_self) hone
    -- what is clear stays clear, since the ways stay
    have hnext : ∀ g ∈ rest, a.Verified next g ∨ ∀ name, g.localName = .ok name →
        a.Clear next.tree next.current files g name := by
      intro other hother
      rcases hclear other (List.mem_cons_of_mem _ hother) with hdone | hfree
      · exact .inl (hkept other (hrest hother) hdone)
      · rw [hcurrent]
        exact .inr fun name hname => (hfree name hname).keeps hways
    obtain ⟨hlast, hall, hothers⟩ := ih hrest hnext hlater
    refine ⟨hlast.trans hcurrent, fun other hother => ?_, fun f hf hf' => ?_⟩
    · rcases List.mem_cons.mp hother with rfl | hother
      · exact hothers other hg hverified
      · exact hall other hother
    · exact hothers f hf (hkept f hf hf')

/-- Files that are in their places are signalled and read, and that is all. -/
theorem exec_fetch_verified (h : ∀ f ∈ files, a.Verified s f) :
    ∃ targets, List.Forall₂ a.Targets files targets ∧
      exec (a.fetch files) s =
        (.ok ⟨⟩, { s with journal := s.journal ++ Defaults.openings targets }) := by
  induction files generalizing s with
  | nil => exact ⟨[], .nil, by simp [fetch, Defaults.openings]⟩
  | cons f files ih =>
    obtain ⟨target, htarget, hone⟩ := (h f List.mem_cons_self).exec_fetchOne
    obtain ⟨targets, htargets, hrest⟩ := ih (s := s.opening target) fun other hother =>
      (h other (List.mem_cons_of_mem _ hother)).congr rfl rfl
    refine ⟨target :: targets, .cons htarget htargets, ?_⟩
    rw [fetch, Run.exec_forM_cons, Run.exec_bind_of_ok hone]
    refine hrest.trans ?_
    simp [Session.opening, Session.noting, Defaults.openings]

/-- Files that are fetched are in their places with the right digests, unless they stand in each
other's way. Fetching them again, in any world, requests nothing and leaves the tree as it is: the
files are only signalled and read. -/
theorem fetch_verifies
    (hclear : ∀ g ∈ files, a.Verified s g ∨ ∀ name, g.localName = .ok name →
      a.Clear s.tree s.current files g name)
    (h : exec (a.fetch files) s = (.ok ⟨⟩, s')) :
    (∀ f ∈ files, a.Verified s' f) ∧
      ∀ again : Session, again.tree = s'.tree → again.current = s'.current →
        ∃ targets, List.Forall₂ a.Targets files targets ∧
          exec (a.fetch files) again =
            (.ok ⟨⟩, { again with journal := again.journal ++ Defaults.openings targets }) := by
  obtain ⟨-, hverified, -⟩ := fetch_keeps (List.Subset.refl files) hclear h
  refine ⟨hverified, fun again htree hcurrent => exec_fetch_verified fun f hf => ?_⟩
  exact (hverified f hf).congr htree hcurrent

-- Two empty files, of which one is in its place and the other one is downloaded.
def emptyDigest : String :=
  "cf83e1357eefb8bdf1542850d66d8007d620e4050b5715dc83f4a921d36ce9ce" ++
    "47d0d13c5d85f2b0ff8318d2877eec2f63b931bd47417a81a538327af927da3e"

def emptyFile (path : String) : ExternalFile :=
  ⟨"https://h/" ++ path, emptyDigest, some (.ofString path), true, none, none, none⟩

def sample : Lookaside :=
  ⟨"1", "https://cache", false, .ofString "p"⟩

def sampleTree : Tree where
  entries := [(["r"], .folder), (["r", "p"], .folder), (["r", "p", "x"], .file [])]
  distinct := by decide

def sampleSession (tree : Tree) : Session :=
  { Session.fresh tree ["r"] with replies := [("https://h/y", .content [] none)] }

theorem fetch_verifies_sample :
    let files := [emptyFile "x", emptyFile "y"]
    let s := sampleSession sampleTree
    (∀ g ∈ files, ∀ name, g.localName = .ok name →
        sample.Clear s.tree s.current files g name) ∧
      (exec (sample.fetch files) s).1.toOption = some ⟨⟩ ∧
      ∀ f ∈ files, sample.Verified (exec (sample.fetch files) s).2 f := by
  intro files s
  let names : ExternalFile → String := fun f => f.localName.toOption.getD ""
  have hfolder : Files.find s.tree s.current sample.folder = .ok (.node ["r", "p"] .folder) := by
    decide +kernel
  have hplain : ∀ f ∈ files, sample.Plain f (names f) := by
    unfold Plain
    decide +kernel
  have hlinks : ∀ f ∈ files, ∀ name ∈ [names f, "." ++ names f],
      ∀ target, s.tree.get? (["r", "p"] ++ [name]) ≠ some (.link target) := by
    have hnodes : ∀ f ∈ files, ∀ name ∈ [names f, "." ++ names f],
        s.tree.get? (["r", "p"] ++ [name]) ∈ [none, some (.file [])] := by
      decide +kernel
    intro f hf name hname target hlink
    have hnode := hnodes f hf name hname
    rw [hlink] at hnode
    simp at hnode
  have hothers : ∀ g ∈ files, ∀ f ∈ files, names f ≠ "." ++ names g ∧
      (names f = names g → f.digest = g.digest) := by
    have hnames : ∀ g ∈ files, ∀ f ∈ files, names f ≠ "." ++ names g := by decide +kernel
    have hdigest : ∀ f ∈ files, f.digest = (emptyFile "x").digest := by
      simp [files, emptyFile, ExternalFile.digest]
    intro g hg f hf
    exact ⟨hnames g hg f hf, fun _ => (hdigest f hf).trans (hdigest g hg).symm⟩
  have hclear : ∀ g ∈ files, ∀ name, g.localName = .ok name →
      sample.Clear s.tree s.current files g name := by
    intro g hg name hname
    obtain rfl : names g = name := by simp [names, hname, Except.toOption]
    exact clear_of_plain hfolder hplain hlinks hg (hothers g hg)
  have hok : (exec (sample.fetch files) s).1.toOption = some ⟨⟩ := by decide +kernel
  refine ⟨hclear, hok, ?_⟩
  generalize hrun : exec (sample.fetch files) s = run at hok
  obtain ⟨result, s'⟩ := run
  cases result with
  | ok _ => exact (fetch_verifies (fun g hg => .inr (hclear g hg)) hrun).1
  | error fault => cases hok

-- The folder of the first file is reached through a link in the place of the second one.
def linkedTree : Tree where
  entries := [(["r"], .folder), (["r", "p"], .folder), (["r", "p", "d"], .folder),
    (["r", "p", "d", "x"], .file []), (["r", "p", "y"], .link "d")]
  distinct := by decide

/-- Storing a file may cut off the way to one that has been checked before, though their targets are
different paths. -/
theorem fetch_loses_file :
    let lost := (emptyFile "y/x").target sample.folder "x"
    let run := exec (sample.fetch [emptyFile "y/x", emptyFile "y"]) (sampleSession linkedTree)
    lost ≠ (emptyFile "y").target sample.folder "y" ∧ run.1.toOption = some ⟨⟩ ∧
      Files.isFile run.2.tree run.2.current lost = false := by
  decide +kernel

end Lookaside

end BuildHook
