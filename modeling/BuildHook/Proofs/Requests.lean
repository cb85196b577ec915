import BuildHook.Proofs.Integrity
import BuildHook.Proofs.Repeats

/-!
# What is requested

Fetching external files asks the cache or the files' own addresses, one file after the other, until
one of them fails. What is asked for a file depends on the state in which it is reached: on the file
that stands in its place, on the replies, and on whether what they bring can be stored.
-/

namespace BuildHook

open Run (exec)

variable {s s' : Session}

namespace Session

/-- The requests of a session: addresses and agents. -/
def requests (s : Session) : List (String × String) :=
  s.journal.filterMap Event.request?

/-- Whether a path leads to a file with the digest that is expected of it. -/
def holds (s : Session) (target : Path) (sha512 : String) : Bool :=
  match Files.read s.tree s.current target with
  | .ok content => hasDigest content sha512
  | .error _ => false

/-- Whether the system says what stands under a path, even if it is nothing. -/
def sees (s : Session) (target : Path) : Bool :=
  (Files.look s.tree s.current target).isOk

/-- Whether an address replies with a content of the expected digest, whole, that can be written
under a path. -/
def delivers (s : Session) (url : String) (goal : Path) (sha512 : String) : Bool :=
  match s.reply url with
  | .content pieces none =>
    match Files.makeFolders s.tree s.current goal.parent with
    | (made, .ok _) =>
      match Files.write made s.current goal pieces.flatten with
      | .ok _ => hasDigest pieces.flatten sha512
      | .error _ => false
    | (_, .error _) => false
  | _ => false

theorem look_of_sees {target : Path} (h : s.sees target = true) :
    Files.look s.tree s.current target = .ok () := by
  unfold sees at h
  cases hlook : Files.look s.tree s.current target with
  | ok _ => rfl
  | error cause => rw [hlook] at h; cases h

theorem exists_look_of_not_sees {target : Path} (h : s.sees target = false) :
    ∃ cause, Files.look s.tree s.current target = .error cause := by
  unfold sees at h
  cases hlook : Files.look s.tree s.current target with
  | ok _ => rw [hlook] at h; cases h
  | error cause => exact ⟨cause, rfl⟩

/-- The session in which a path has been signalled, and the file read that it leads to, if any. -/
def looking (s : Session) (target : Path) : Session :=
  if Files.isFile s.tree s.current target then s.opening target
  else s.noting (.notice (.signal (.file target)))

theorem requests_noting (s : Session) (e : Event) :
    (s.noting e).requests = s.requests ++ e.request?.toList := by
  simp only [requests, noting_journal, List.filterMap_append, List.filterMap_cons,
    List.filterMap_nil]
  cases e.request? <;> rfl

@[simp] theorem requests_withTree (s : Session) (t : Tree) :
    (s.withTree t).requests = s.requests := rfl

@[simp] theorem looking_tree (s : Session) (target : Path) : (s.looking target).tree = s.tree := by
  unfold looking
  split <;> rfl

@[simp] theorem looking_current (s : Session) (target : Path) :
    (s.looking target).current = s.current := by
  unfold looking
  split <;> rfl

@[simp] theorem looking_reply (s : Session) (target : Path) (url : String) :
    (s.looking target).reply url = s.reply url := by
  unfold looking
  split <;> rfl

@[simp] theorem looking_delivers (s : Session) (target : Path) (url sha512 : String) (goal : Path) :
    (s.looking target).delivers url goal sha512 = s.delivers url goal sha512 := by
  unfold looking
  split <;> rfl

@[simp] theorem requests_looking (s : Session) (target : Path) :
    (s.looking target).requests = s.requests := by
  unfold looking
  split
  · rw [opening, requests_noting, requests_noting]
    simp [Event.request?]
  · rw [requests_noting]
    exact List.append_nil _

end Session

namespace ExternalFile

variable {f : ExternalFile} {folder : Path} {name : String}

theorem isStep_localName (h : f.localName = .ok name) (hne : name ≠ "") : IsStep name := by
  -- a name is the last step of some path
  have hname : ∃ p : Path, p.name = name := by
    unfold localName at h
    split at h
    · next path _ => exact ⟨path, Except.ok.inj h⟩
    · cases hparse : Url.parse f.url with
      | error cause =>
        rw [hparse] at h
        cases h
      | ok url =>
        rw [hparse] at h
        exact ⟨.ofString url.path, Except.ok.inj h⟩
  obtain ⟨p, rfl⟩ := hname
  unfold Path.name at hne ⊢
  cases hlast : p.steps.getLast? with
  | none =>
    rw [hlast] at hne
    exact absurd rfl hne
  | some step => exact p.isStep step (List.mem_of_getLast? hlast)

/-- The name of a file is the last step of where it is stored. -/
theorem getLast?_target (h : f.localName = .ok name) (hne : name ≠ "") (folder : Path) :
    (f.target folder name).steps.getLast? = some name := by
  have hstep := isStep_localName h hne
  unfold localName at h
  unfold target
  split at h
  · next path hpath =>
    obtain rfl := Except.ok.inj h
    unfold Path.name at hne ⊢
    cases hlast : path.steps.getLast? with
    | none =>
      rw [hlast] at hne
      exact absurd rfl hne
    | some step =>
      unfold Path.join
      split
      · simp only [List.getLast?_append, hlast]
        rfl
      · exact hlast
  · rw [(folder.child_of_isStep hstep).2, List.getLast?_concat]

theorem steps_temporary (h : f.localName = .ok name) (hne : name ≠ "") (folder : Path) :
    (f.temporary folder name).steps =
      (f.target folder name).steps.dropLast ++ ["." ++ name] := by
  have hdotted := (Lookaside.isStep_dotted (isStep_localName h hne)).1
  exact ((f.target folder name).parent.child_of_isStep hdotted).2

theorem parent_temporary (h : f.localName = .ok name) (hne : name ≠ "") (folder : Path) :
    (f.temporary folder name).parent = (f.target folder name).parent := by
  have hdotted := (Lookaside.isStep_dotted (isStep_localName h hne)).1
  exact ((f.target folder name).parent.child_of_isStep hdotted).1

-- A name without a zero character has none with a dot in front.
theorem hasZero_temporary (h : f.localName = .ok name) (hne : name ≠ "")
    (hzero : (f.target folder name).hasZero = false) :
    (f.temporary folder name).hasZero = false := by
  have hlast := List.mem_of_getLast? (getLast?_target h hne folder)
  rw [Path.hasZero, List.any_eq_false] at hzero
  rw [Path.hasZero, steps_temporary h hne, List.any_eq_false]
  intro step hstep
  rcases List.mem_append.mp hstep with hbefore | hdotted
  · exact hzero step ((List.dropLast_sublist _).subset hbefore)
  · obtain rfl := List.mem_singleton.mp hdotted
    have hname := hzero name hlast
    rw [Bool.not_eq_true, List.contains_eq_mem, decide_eq_false_iff_not] at hname ⊢
    rw [String.toList_append, List.mem_append, not_or]
    exact ⟨by decide, hname⟩

end ExternalFile

namespace Lookaside

variable {a : Lookaside} {f : ExternalFile} {files : List ExternalFile} {url sha512 name : String}
  {goal target : Path} {fault : Fault}

/-! ## Downloads -/

/-- What a download makes of a session: the address is asked, the folders are made, and what came
of the content is written. -/
theorem exec_download (a : Lookaside) (url sha512 : String) (goal : Path) (s : Session) :
    let disk := Run.reporting fun fault => downloadFault url (.disk fault)
    let asked := s.noting (.request url a.agent)
    exec (a.download url goal sha512) s =
      match s.reply url with
      | .unreachable reason | .refused reason =>
        (.error (downloadFault url (.network reason)), asked)
      | .content pieces broken =>
        match Files.makeFolders s.tree s.current goal.parent with
        | (made, .error cause) => (.error (disk cause), asked.withTree made)
        | (made, .ok _) =>
          match Files.write made s.current goal pieces.flatten with
          | .error cause => (.error (disk cause), asked.withTree made)
          | .ok written =>
            (match broken with
              | some reason => .error (downloadFault url (.network reason))
              | none =>
                if hasDigest pieces.flatten sha512 then .ok ⟨⟩
                else .error (downloadFault url .mismatch),
              asked.withTree written) := by
  dsimp only
  rw [download, Run.exec_bind_of_ok (Run.exec_note _ s), Run.exec_bind_of_ok (Run.exec_get _)]
  change exec (match s.reply url with
    | .unreachable reason | .refused reason => throw _
    | .content pieces broken => _) _ = _
  cases s.reply url with
  | unreachable reason => rfl
  | refused reason => rfl
  | content pieces broken =>
    dsimp only
    rw [Run.exec_bind, Run.exec_makeFolders, Session.noting_tree, Session.noting_current]
    generalize Files.makeFolders s.tree s.current goal.parent = made
    obtain ⟨made, result⟩ := made
    cases result with
    | error cause => rfl
    | ok _ =>
      dsimp only [Except.mapError]
      rw [Run.exec_bind, Run.exec_change, Session.withTree_tree, Session.withTree_current,
        Session.noting_current]
      cases Files.write made s.current goal pieces.flatten with
      | error cause => rfl
      | ok written =>
        cases broken with
        | some reason => rfl
        | none => by_cases hdigest : hasDigest pieces.flatten sha512 <;> simp [hdigest] <;> rfl

theorem exec_download_ok (a : Lookaside) (url sha512 : String) (goal : Path) (s : Session) :
    (exec (a.download url goal sha512) s).1 = .ok ⟨⟩ ↔ s.delivers url goal sha512 = true := by
  rw [exec_download, Session.delivers]
  cases s.reply url with
  | unreachable reason => simp
  | refused reason => simp
  | content pieces broken =>
    rcases Files.makeFolders s.tree s.current goal.parent with ⟨made, cause | _⟩
    · cases broken <;> simp
    · cases hwrite : Files.write made s.current goal pieces.flatten with
      | error cause => cases broken <;> simp [hwrite]
      | ok written =>
        cases broken with
        | some reason => simp [hwrite]
        | none => by_cases hdigest : hasDigest pieces.flatten sha512 <;> simp [hwrite, hdigest]

theorem requests_download (a : Lookaside) (url sha512 : String) (goal : Path) (s : Session) :
    (exec (a.download url goal sha512) s).2.requests = s.requests ++ [(url, a.agent)] := by
  have hasked : (s.noting (.request url a.agent)).requests = s.requests ++ [(url, a.agent)] :=
    s.requests_noting _
  rw [exec_download, ← hasked]
  split
  · rfl
  · rfl
  · split
    · rfl
    · split <;> rfl

-- Without a zero character in the path, all that can go wrong with a download is reported as such.
theorem fault_download (hzero : goal.hasZero = false)
    (h : (exec (a.download url goal sha512) s).1 = .error fault) :
    ∃ cause, fault = .fetch cause := by
  have hdisk : ∀ cause : Files.Fault, cause.IsAt goal →
      ∃ other,
        Run.reporting (fun fault => downloadFault url (.disk fault)) cause = .fetch other := by
    rintro cause (hrefusal | ⟨-, htrue⟩)
    · exact ⟨_, if_pos hrefusal⟩
    · rw [hzero] at htrue
      cases htrue
  rw [exec_download] at h
  split at h
  · exact ⟨_, (Except.error.inj h).symm⟩
  · exact ⟨_, (Except.error.inj h).symm⟩
  · split at h
    · next made cause hmake =>
      obtain rfl := Except.error.inj h
      exact hdisk cause (Files.isAt_makeFolders (congrArg Prod.snd hmake)).of_parent
    · split at h
      · next cause hwrite =>
        obtain rfl := Except.error.inj h
        exact hdisk cause (Files.isAt_write hwrite)
      · dsimp only at h
        split at h
        · exact ⟨_, (Except.error.inj h).symm⟩
        · split at h
          · cases h
          · exact ⟨_, (Except.error.inj h).symm⟩

/-- A file is obtained from its own address if nothing else is wanted, or if the cache has failed
and the own address may be tried. -/
theorem exec_obtain (a : Lookaside) (f : ExternalFile) (name : String) (goal : Path) (s : Session) :
    exec (a.obtain f name goal) s =
      if f.direct then exec (a.download f.url goal f.sha512) s
      else
        match exec (a.download (f.cacheUrl a.base name) goal f.sha512) s with
        | (.error (.fetch cause), next) =>
          if a.fallback then exec (a.download f.url goal f.sha512) next
          else (.error (.fetch cause), next)
        | result => result := by
  unfold obtain
  split
  · rfl
  · rw [Run.exec_tryCatch]
    rcases exec (a.download (f.cacheUrl a.base name) goal f.sha512) s with ⟨fault | _, next⟩
    · cases fault <;> try rfl
      dsimp only
      split <;> rfl
    · rfl

theorem exec_removing (temporary : Path) (run : Run Unit) (s : Session) :
    exec (removing temporary run) s =
      match Files.removeIfThere (exec run s).2.tree (exec run s).2.current temporary with
      | .ok t => ((exec run s).1, (exec run s).2.withTree t)
      | .error cause => (.error (.files cause), (exec run s).2) := by
  rw [removing, Run.exec_bind_of_ok (Exposure.exec_attempt run s), Run.exec_bind, Run.exec_change]
  cases Files.removeIfThere (exec run s).2.tree (exec run s).2.current temporary with
  | error cause => rfl
  | ok t =>
    dsimp only
    cases (exec run s).1 <;> rfl

theorem look_of_isFile (h : Files.isFile s.tree s.current target = true) :
    Files.look s.tree s.current target = .ok () := by
  unfold Files.isFile at h
  unfold Files.look
  obtain ⟨hbarred, hfile⟩ := Bool.and_eq_true_iff.mp h
  rw [Bool.not_eq_true'] at hbarred
  rw [hbarred]
  split at hfile
  · next hfind =>
    rw [hfind]
    exact ite_self _
  · cases hfile

-- Only a file is read, and what is no file can still be looked at in vain.
theorem exec_isPresent (f : ExternalFile) (target : Path) (s : Session) :
    exec (isPresent f target) (s.noting (.notice (.signal (.file target)))) =
      (((Files.look s.tree s.current target).mapError Fault.files).map
        fun _ => s.holds target f.sha512, s.looking target) := by
  rw [isPresent, Run.exec_bind_of_ok (Run.exec_get _), Session.noting_tree, Session.noting_current]
  unfold Session.holds Session.looking
  by_cases hfile : Files.isFile s.tree s.current target = true
  · obtain ⟨content, hread⟩ := Files.read_of_isFile hfile
    rw [if_pos hfile, if_pos hfile, hread, look_of_isFile hfile, Run.exec_bind, Run.exec_readFile,
      Session.noting_tree, Session.noting_current, hread]
    rfl
  · rw [if_neg hfile, if_neg hfile, Run.exec_bind, Run.exec_orFail]
    have hread : ∀ content, Files.read s.tree s.current target ≠ .ok content := by
      intro content hread
      obtain ⟨hbarred, place, hfind⟩ := Files.read_eq_ok.mp hread
      rw [Files.isFile, hbarred, hfind] at hfile
      exact hfile rfl
    generalize Files.read s.tree s.current target = found at hread
    cases found with
    | ok content => exact absurd rfl (hread content)
    | error _ => cases Files.look s.tree s.current target <;> rfl

/-- A file with a name is signalled and looked at, and stored unless it is in its place. -/
theorem exec_fetchOne (hname : f.localName = .ok name) (hne : name ≠ "") (s : Session) :
    exec (a.fetchOne f) s =
      match Files.look s.tree s.current (f.target a.folder name) with
      | .error cause => (.error (.files cause), s.looking (f.target a.folder name))
      | .ok _ =>
        if s.holds (f.target a.folder name) f.sha512 then
          (.ok ⟨⟩, s.looking (f.target a.folder name))
        else
          exec (a.store f name (f.target a.folder name))
            (s.looking (f.target a.folder name)) := by
  have hlocal : exec (Run.orFail Fault.url f.localName) s = (.ok name, s) := by
    rw [Run.exec_orFail, hname]
    rfl
  rw [fetchOne, Run.exec_bind_of_ok hlocal]
  dsimp only
  rw [if_neg hne, Run.exec_bind_of_ok (Run.exec_watchFile _ s), Run.exec_bind, exec_isPresent]
  cases Files.look s.tree s.current (f.target a.folder name) with
  | error cause => rfl
  | ok _ => cases s.holds (f.target a.folder name) f.sha512 <;> simp <;> rfl

/-! ## Addresses -/

/-- The addresses that are asked for a file: none if it is in its place or its path is refused, its
own address alone if nothing else is wanted, and else the one in the cache, followed by its own if
the first attempt has failed and the second is allowed. -/
def asked (a : Lookaside) (s : Session) (f : ExternalFile) : List String :=
  match f.localName with
  | .error _ => []
  | .ok name =>
    let cached := f.cacheUrl a.base name
    let target := f.target a.folder name
    if name = "" || !s.sees target || s.holds target f.sha512 then []
    else if f.direct then [f.url]
    else if !a.fallback || s.delivers cached (f.temporary a.folder name) f.sha512 then [cached]
    else [cached, f.url]

theorem requests_obtain (hzero : goal.hasZero = false) :
    (exec (a.obtain f name goal) s).2.requests = s.requests ++
      (if f.direct then [f.url]
        else if !a.fallback || s.delivers (f.cacheUrl a.base name) goal f.sha512 then
          [f.cacheUrl a.base name]
        else [f.cacheUrl a.base name, f.url]).map fun url => (url, a.agent) := by
  rw [exec_obtain]
  by_cases hdirect : f.direct = true
  · rw [if_pos hdirect, if_pos hdirect, requests_download, List.map_singleton]
  rw [if_neg hdirect, if_neg hdirect]
  have hfirst := requests_download a (f.cacheUrl a.base name) f.sha512 goal s
  have hok := exec_download_ok a (f.cacheUrl a.base name) f.sha512 goal s
  have hfault : ∀ fault,
      (exec (a.download (f.cacheUrl a.base name) goal f.sha512) s).1 = .error fault →
        ∃ cause, fault = .fetch cause :=
    fun _ => fault_download hzero
  generalize exec (a.download (f.cacheUrl a.base name) goal f.sha512) s = run at hfirst hok hfault ⊢
  obtain ⟨fault | _, next⟩ := run
  · -- the attempt has failed, with a fault that lets the next one be tried
    obtain ⟨cause, rfl⟩ := hfault fault rfl
    have hfailed : s.delivers (f.cacheUrl a.base name) goal f.sha512 = false := by
      rw [← Bool.not_eq_true]
      exact fun hdelivers => nomatch hok.mpr hdelivers
    rw [hfailed, Bool.or_false]
    dsimp only at hfirst ⊢
    cases a.fallback with
    | false =>
      simp only [Bool.false_eq_true, ↓reduceIte, Bool.not_false]
      exact hfirst
    | true =>
      simp only [↓reduceIte, Bool.not_true, Bool.false_eq_true]
      rw [requests_download, hfirst, List.append_assoc]
      rfl
  · have hdelivers : s.delivers (f.cacheUrl a.base name) goal f.sha512 = true := hok.mp rfl
    rw [hdelivers, Bool.or_true, if_pos rfl]
    exact hfirst

theorem requests_store :
    (exec (a.store f name target) s).2.requests =
      (exec (a.obtain f name (target.withName ("." ++ name))) s).2.requests := by
  have hrenamed : ∀ (m : Run Unit) (change : Run Unit)
      (_ : ∀ t, (exec change t).2.requests = t.requests),
      (exec (m >>= fun _ => change) s).2.requests = (exec m s).2.requests := by
    intro m change hchange
    rw [Run.exec_bind]
    rcases exec m s with ⟨_ | _, next⟩
    · rfl
    · exact hchange next
  rw [store, exec_removing]
  refine Eq.trans ?_ (hrenamed _ (Run.change (Run.reporting fun fault =>
    .fetch (.unstored target fault)) fun t current =>
      Files.rename t current (target.withName ("." ++ name)) target) fun t => ?_)
  · split <;> rfl
  · rw [Run.exec_change]
    split <;> rfl

theorem target?_eq_some :
    a.target? f = some target ↔
      ∃ name, f.localName = .ok name ∧ name ≠ "" ∧ f.target a.folder name = target := by
  unfold target?
  cases f.localName with
  | error cause => simp
  | ok name => by_cases hne : name = "" <;> simp [hne]

/-- Without a name nothing is asked, signalled or changed. -/
theorem exec_fetchOne_nameless (h : a.target? f = none) (s : Session) :
    a.asked s f = [] ∧ ∃ fault, exec (a.fetchOne f) s = (.error fault, s) := by
  unfold target? at h
  unfold asked
  cases hlocal : f.localName with
  | error cause =>
    have hfail : exec (Run.orFail Fault.url f.localName) s = (.error (.url cause), s) := by
      rw [Run.exec_orFail, hlocal]
      rfl
    exact ⟨rfl, _, Run.exec_bind_of_error hfail _⟩
  | ok name =>
    rw [hlocal] at h
    obtain rfl : name = "" := by simpa using h
    have hok : exec (Run.orFail Fault.url f.localName) s = (.ok "", s) := by
      rw [Run.exec_orFail, hlocal]
      rfl
    exact ⟨rfl, .fetch (.nameless f.url), Run.exec_bind_of_ok hok _⟩

/-- What is requested for one file, if a file can have its path. -/
theorem requests_fetchOne (hzero : ∀ target ∈ a.target? f, target.hasZero = false) :
    (exec (a.fetchOne f) s).2.requests =
      s.requests ++ (a.asked s f).map fun url => (url, a.agent) := by
  cases htarget : a.target? f with
  | none =>
    obtain ⟨hasked, fault, hfail⟩ := exec_fetchOne_nameless htarget s
    rw [hasked, hfail]
    exact (List.append_nil _).symm
  | some target =>
    obtain ⟨name, hlocal, hne, rfl⟩ := target?_eq_some.mp htarget
    have hgoal := ExternalFile.hasZero_temporary hlocal hne (hzero _ htarget)
    rw [exec_fetchOne hlocal hne, asked, hlocal]
    dsimp only
    cases hsees : s.sees (f.target a.folder name) with
    | false =>
      obtain ⟨cause, hlook⟩ := Session.exists_look_of_not_sees hsees
      simp [hlook]
    | true =>
      rw [Session.look_of_sees hsees]
      cases hholds : s.holds (f.target a.folder name) f.sha512 with
      | true => simp
      | false =>
        simp only [Bool.false_eq_true, ↓reduceIte, hne, decide_false, Bool.not_true,
          Bool.or_false]
        rw [requests_store, ← ExternalFile.temporary, requests_obtain hgoal,
          Session.requests_looking, Session.looking_delivers]

/-- What is signalled for one file: its target, if there is one. -/
theorem signals_visit (f : ExternalFile) (s : Session) :
    (exec (a.fetchOne f) s).2.signals = s.signals ++ (a.target? f).toList.map .file := by
  cases htarget : a.target? f with
  | none =>
    obtain ⟨-, fault, hfail⟩ := exec_fetchOne_nameless htarget s
    rw [hfail]
    exact (List.append_nil _).symm
  | some target =>
    obtain ⟨name, hlocal, hne, rfl⟩ := target?_eq_some.mp htarget
    have hlooking : (s.looking (f.target a.folder name)).signals =
        s.signals ++ [.file (f.target a.folder name)] := by
      unfold Session.looking
      split
      · exact s.signals_opening
      · exact s.signals_noting _
    have hquiet : Licence.noSignals.Allows (a.store f name (f.target a.folder name))
        (s.looking (f.target a.folder name)) :=
      Licence.allows_store (fun _ _ => rfl) fun _ _ => trivial
    rw [exec_fetchOne hlocal hne]
    split
    · exact hlooking
    · split
      · exact hlooking
      · rw [hquiet.signals_eq, hlooking]
        rfl

/-- Where neither the file nor the cache lets the own address be tried, only the one in the cache is
asked. -/
theorem asked_cached {url : String} (hfallback : a.fallback = false) (hdirect : f.direct = false)
    (h : url ∈ a.asked s f) : ∃ name, f.localName = .ok name ∧ url = f.cacheUrl a.base name := by
  unfold asked at h
  cases hlocal : f.localName with
  | error cause =>
    rw [hlocal] at h
    cases h
  | ok name =>
    rw [hlocal, hfallback, hdirect] at h
    simp only [Bool.false_eq_true, ↓reduceIte, Bool.not_false, Bool.true_or] at h
    split at h
    · cases h
    · exact ⟨name, rfl, List.mem_singleton.mp h⟩

/-! ## Lists of files -/

/-- The files that are reached, each with the session in which it is: all up to the first one that
fails. -/
def visits (a : Lookaside) : List ExternalFile → Session → List (ExternalFile × Session)
  | [], _ => []
  | f :: files, s =>
    (f, s) ::
      match exec (a.fetchOne f) s with
      | (.ok _, next) => a.visits files next
      | (.error _, _) => []

/-- How files are fetched: what is requested and signalled, and where it ends. -/
structure Course (a : Lookaside) (files : List ExternalFile) (s s' : Session)
    (result : Except Fault Unit) : Prop where
  /-- The files that are reached are the first ones. -/
  reached : (a.visits files s).map Prod.fst <+: files
  requests : s'.requests = s.requests ++
    ((a.visits files s).flatMap fun v => a.asked v.2 v.1).map fun url => (url, a.agent)
  signals : s'.signals = s.signals ++
    ((a.visits files s).filterMap fun v => a.target? v.1).map .file
  all : result = .ok ⟨⟩ → (a.visits files s).map Prod.fst = files
  /-- It is the last file reached that fails. -/
  last : ∀ fault, result = .error fault → ∃ f t, (a.visits files s).getLast? = some (f, t) ∧
    exec (a.fetchOne f) t = (.error fault, s')
  /-- Where only the cache is wanted, nothing else is asked. -/
  cached : a.fallback = false → (∀ f ∈ files, f.direct = false) →
    ∀ request ∈ s'.requests.drop s.requests.length, ∃ f ∈ files, ∃ name,
      f.localName = .ok name ∧ request = (f.cacheUrl a.base name, a.agent)

theorem exec_fetch_cons (f : ExternalFile) (files : List ExternalFile) (s : Session) :
    exec (a.fetch (f :: files)) s =
      match exec (a.fetchOne f) s with
      | (.ok _, next) => exec (a.fetch files) next
      | (.error fault, next) => (.error fault, next) := by
  rw [fetch, Run.exec_forM_cons, Run.exec_bind]
  rcases exec (a.fetchOne f) s with ⟨_ | _, next⟩ <;> rfl

/-- What is requested by all the files that are reached, by induction over the files. -/
theorem requests_fetch (files : List ExternalFile) (s : Session)
    (hzero : ∀ f ∈ files, ∀ target ∈ a.target? f, target.hasZero = false) :
    (exec (a.fetch files) s).2.requests = s.requests ++
      ((a.visits files s).flatMap fun v => a.asked v.2 v.1).map fun url => (url, a.agent) := by
  induction files generalizing s with
  | nil => exact (List.append_nil _).symm
  | cons f files ih =>
    have hone := requests_fetchOne (s := s) (hzero f List.mem_cons_self)
    rw [exec_fetch_cons, visits]
    generalize exec (a.fetchOne f) s = run at hone ⊢
    obtain ⟨fault | _, next⟩ := run
    · simpa using hone
    · dsimp only at hone ⊢
      rw [ih next fun other hother => hzero other (List.mem_cons_of_mem f hother), hone,
        List.flatMap_cons, List.map_append, List.append_assoc]

theorem signals_visits (files : List ExternalFile) (s : Session) :
    (exec (a.fetch files) s).2.signals = s.signals ++
      ((a.visits files s).filterMap fun v => a.target? v.1).map .file := by
  induction files generalizing s with
  | nil => exact (List.append_nil _).symm
  | cons f files ih =>
    have hone := a.signals_visit f s
    rw [exec_fetch_cons, visits]
    generalize exec (a.fetchOne f) s = run at hone ⊢
    obtain ⟨fault | _, next⟩ := run
    · cases htarget : a.target? f <;> simpa [htarget] using hone
    · dsimp only at hone ⊢
      rw [ih, hone]
      cases htarget : a.target? f <;> simp [htarget]

/-- The files that are reached: the first ones, all of them if nothing fails, and otherwise those up
to the one that fails. -/
theorem visits_end (files : List ExternalFile) (s : Session) :
    (a.visits files s).map Prod.fst <+: files ∧
      match exec (a.fetch files) s with
      | (.ok _, _) => (a.visits files s).map Prod.fst = files
      | (.error fault, s') => ∃ f t, (a.visits files s).getLast? = some (f, t) ∧
          exec (a.fetchOne f) t = (.error fault, s') := by
  induction files generalizing s with
  | nil => exact ⟨List.prefix_rfl, rfl⟩
  | cons f files ih =>
    rw [exec_fetch_cons, visits, List.map_cons, List.prefix_cons_inj]
    cases hone : exec (a.fetchOne f) s with
    | mk result next =>
      cases result with
      | error fault => exact ⟨List.nil_prefix, f, s, rfl, hone⟩
      | ok _ =>
        obtain ⟨hvisited, hend⟩ := ih next
        refine ⟨hvisited, ?_⟩
        dsimp only
        generalize exec (a.fetch files) next = run at hend ⊢
        obtain ⟨fault | _, last⟩ := run
        · obtain ⟨g, t, hlast, hfails⟩ := hend
          exact ⟨g, t, by rw [List.getLast?_cons, hlast]; rfl, hfails⟩
        · exact congrArg (f :: ·) hend

/-- What is requested when files are fetched: for each file up to the first one that fails, in
order, what is asked for it in the session in which it is reached. No file can have a path with a
zero character: there the own address is not tried. -/
theorem course_of_fetch (files : List ExternalFile) (s : Session)
    (hzero : ∀ f ∈ files, ∀ target ∈ a.target? f, target.hasZero = false) :
    a.Course files s (exec (a.fetch files) s).2 (exec (a.fetch files) s).1 := by
  have hrequests := requests_fetch files s hzero
  obtain ⟨hreached, hend⟩ := a.visits_end files s
  refine ⟨hreached, hrequests, signals_visits files s, fun hok => ?_, fun fault herror => ?_,
    fun hfallback hdirect request hrequest => ?_⟩
  · rcases hrun : exec (a.fetch files) s with ⟨fault | _, s'⟩ <;> rw [hrun] at hok hend
    · cases hok
    · exact hend
  · rcases hrun : exec (a.fetch files) s with ⟨cause | _, s'⟩ <;> rw [hrun] at herror hend
    · obtain rfl := Except.error.inj herror
      exact hend
    · cases herror
  · rw [hrequests, List.drop_left] at hrequest
    obtain ⟨url, hurl, rfl⟩ := List.mem_map.mp hrequest
    obtain ⟨⟨f, t⟩, hvisit, hasked⟩ := List.mem_flatMap.mp hurl
    have hmem : f ∈ files := hreached.subset (List.mem_map_of_mem hvisit)
    obtain ⟨name, hlocal, rfl⟩ := asked_cached hfallback (hdirect f hmem) hasked
    exact ⟨f, hmem, name, hlocal, rfl⟩

-- A file that only its own address gives, one that nobody has, and one that is never reached.
def missedFiles : List ExternalFile :=
  [{ emptyFile "y" with direct := false }, emptyFile "z", emptyFile "x"]

def fallingBack : Lookaside :=
  { sample with fallback := true }

theorem course_of_fetch_sample :
    let s := sampleSession sampleTree
    (∀ f ∈ missedFiles, ∀ target ∈ fallingBack.target? f, target.hasZero = false) ∧
      fallingBack.Course missedFiles s (exec (fallingBack.fetch missedFiles) s).2
        (exec (fallingBack.fetch missedFiles) s).1 := by
  have hzero : ∀ f ∈ missedFiles, ∀ target ∈ fallingBack.target? f, target.hasZero = false := by
    decide
  exact ⟨hzero, course_of_fetch missedFiles (sampleSession sampleTree) hzero⟩

example : (exec (fallingBack.fetch missedFiles) (sampleSession sampleTree)).2.requests =
    [("https://cache/y/" ++ emptyDigest ++ "/y", "vfbuild/1"), ("https://h/y", "vfbuild/1"),
      ("https://h/z", "vfbuild/1")] := by
  decide +kernel

-- A file whose path has a zero character.
def unwritable : ExternalFile :=
  { emptyFile "a\x00b" with direct := false }

def unwritableSession : Session :=
  { Session.fresh sampleTree ["r"] with
    replies := [("https://cache/a\x00b/" ++ emptyDigest ++ "/a\x00b", .content [] none)] }

/-- An attempt that fails since no file can have the path is not reported as a failed download, and
the own address is not tried. -/
theorem fetch_gives_up :
    let after := (exec (fallingBack.fetch [unwritable]) unwritableSession).2
    fallingBack.asked unwritableSession unwritable =
        ["https://cache/a\x00b/" ++ emptyDigest ++ "/a\x00b", "https://h/a\x00b"] ∧
      after.requests = [("https://cache/a\x00b/" ++ emptyDigest ++ "/a\x00b", "vfbuild/1")] := by
  decide +kernel

end Lookaside

end BuildHook
