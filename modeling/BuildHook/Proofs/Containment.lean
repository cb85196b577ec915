import BuildHook.Proofs.Commands
import BuildHook.Proofs.Defaults
import BuildHook.Proofs.Pipeline
import BuildHook.Proofs.Signalling

/-!
# Faults that escape

A step of a build reports most of its faults as its own. An exposure names what a build takes over
unchecked, and with it the only faults that are not reported: an escape. As with licences, this is
shown step by step, and holds of whole runs from there.
-/

namespace BuildHook

open Run (exec)

/-- The file beside the target into which an external file is fetched. -/
def ExternalFile.temporary (f : ExternalFile) (folder : Path) (name : String) : Path :=
  (f.target folder name).withName ("." ++ name)

/-- What a build takes over from its settings, from the files that it reads and from the commands
that it starts. -/
structure Exposure where
  /-- Paths of file operations. -/
  path : Path → Prop
  /-- Texts that are decoded and parsed without a full report. -/
  text : Path → Prop
  /-- Spec files. -/
  spec : Path → Prop
  /-- Addresses of files. -/
  address : String → Prop
  /-- Paths whose links are resolved. -/
  resolved : Path → Prop
  /-- Files that are removed at the end, whatever has happened. -/
  temporary : Path → Prop
  /-- Paths at which something may be missing. -/
  sought : Path → Prop
  /-- Values of manifests that are written out. -/
  shown : Toml.Value → Prop
  /-- Commands: their words and their folders. -/
  command : List String → Option String → Prop
  /-- Outcomes of commands. -/
  outcome : Outcome → Prop

namespace Exposure

/-- The faults that end a build in a session without a report, each for its own reason. -/
inductive Escape (e : Exposure) (s : Session) : Fault → Prop
  /-- No operation can be asked for a path with a zero character. -/
  | zero {path : Path} (hpath : e.path path) (hzero : path.hasZero = true) :
    Escape e s (.files .zero)
  /-- What was read last is not UTF-8. -/
  | undecodable {path : Path} {bytes : List UInt8} {cause : Utf8.Malformed} (hpath : e.text path)
    (hlast : s.journal.getLast? = some (.read path))
    (hread : Files.read s.tree s.current path = .ok bytes)
    (hdecode : Utf8.decode bytes = .error cause) : Escape e s (.undecodable cause)
  /-- In what was read last stands an integer of too many digits. -/
  | unreadable {path : Path} {bytes : List UInt8} {text : List Char} {cause : Toml.DigitFault}
    (hpath : e.text path) (hlast : s.journal.getLast? = some (.read path))
    (hread : Files.read s.tree s.current path = .ok bytes) (hdecode : Utf8.decode bytes = .ok text)
    (hparse : Toml.parse text = .error (.digits cause) ∨
      Toml.parse (Text.foldReturns text) = .error (.digits cause)) : Escape e s (.digits cause)
  /-- A value that has to be written out holds an integer of too many digits. -/
  | unwritable {value : Toml.Value} (hvalue : e.shown value) (hlong : value.isOverlong = true) :
    Escape e s (.digits .write)
  /-- The address of a file cannot be taken apart. -/
  | address {text : String} {cause : UrlFault} (haddress : e.address text)
    (hparse : Url.parse text = .error cause) : Escape e s (.url cause)
  /-- The value of a tag in the spec file, which was read last, cannot be taken apart. -/
  | tag {path : Path} {bytes : List UInt8} {text line : List Char} {tag : Spec.Tag}
    {cause : UrlFault} (hpath : e.spec path)
    (hlast : s.journal.getLast? = some (.read path))
    (hread : Files.read s.tree s.current path = .ok bytes) (hdecode : Utf8.decode bytes = .ok text)
    (hline : line ∈ Text.lines (Text.foldReturns text)) (htag : Spec.tag? line = some tag)
    (hparse : Url.parse tag.value = .error cause) : Escape e s (.url cause)
  /-- The links of a path cannot be resolved. -/
  | unresolved {path : Path} {cause : Files.Fault} (hpath : e.resolved path)
    (hresolve : Files.resolve s.tree s.current path = .error cause) : Escape e s (.files cause)
  /-- What stands in the place of a temporary file cannot be removed. -/
  | unremoved {path : Path} {cause : Files.Fault} (hpath : e.temporary path)
    (hremove : Files.removeIfThere s.tree s.current path = .error cause) :
    Escape e s (.files cause)
  /-- The system refuses to look at a path. -/
  | unseen {path : Path} {cause : Files.Fault} (hpath : e.sought path)
    (hlook : Files.look s.tree s.current path = .error cause) : Escape e s (.files cause)
  /-- No command can be started that has a word with a zero character. -/
  | word {argv : List String} {folder : Option String} (hcommand : e.command argv folder)
    (hzero : (argv ++ folder.toList).any Run.hasZero = true) : Escape e s .word
  /-- The command that was started last has written what is not UTF-8. -/
  | garbled {argv : List String} {folder : Option String} {outcome : Outcome}
    {cause : Utf8.Malformed} (hcommand : e.command argv folder)
    (hlast : s.journal.getLast? = some (.command argv folder)) (houtcome : e.outcome outcome)
    (hgarbled : outcome.Garbled cause) : Escape e s (.undecodable cause)

variable {e : Exposure} {s s' : Session} {fault : Fault} {α β ε : Type} {p : Path}

theorem Escape.not_reported (h : e.Escape s fault) : fault.isReported = false := by
  cases h <;> rfl

-- The part of an exposure that has nothing to do with the state of the files.
def onlyPaths (e : Exposure) : Exposure where
  path := e.path
  text _ := False
  spec _ := False
  address _ := False
  resolved _ := False
  temporary _ := False
  sought _ := False
  shown _ := False
  command _ _ := False
  outcome _ := False

theorem Escape.move (h : e.onlyPaths.Escape s fault) (s' : Session) : e.Escape s' fault := by
  cases h with
  | zero hpath hzero => exact .zero hpath hzero
  | undecodable hpath => exact hpath.elim
  | unreadable hpath => exact hpath.elim
  | unwritable hvalue => exact hvalue.elim
  | address haddress => exact haddress.elim
  | tag hpath => exact hpath.elim
  | unresolved hpath => exact hpath.elim
  | unremoved hpath => exact hpath.elim
  | unseen hpath => exact hpath.elim
  | word hcommand => exact hcommand.elim
  | garbled hcommand => exact hcommand.elim

theorem escape_of_isAt {report : Files.Fault → Fault} {cause : Files.Fault}
    (hreport : ∀ cause, (report cause).isReported = true) (hat : cause.IsAt p) (hpath : e.path p) :
    (Run.reporting report cause).isReported = true ∨ e.Escape s (Run.reporting report cause) := by
  rcases hat with hrefusal | ⟨rfl, hzero⟩
  · rw [Run.reporting, if_pos hrefusal]
    exact .inl (hreport cause)
  · exact .inr (.zero hpath hzero)

theorem escape_of_notFound (hreport : fault.isReported = true) (hpath : e.sought p) :
    (Run.notFound s p fault).isReported = true ∨ e.Escape s (Run.notFound s p fault) := by
  unfold Run.notFound
  split
  · exact .inl hreport
  · next cause hlook => exact .inr (.unseen hpath hlook)

/-! ## Runs -/

/-- A run that fails with faults that are reported, or else with an escape of the exposure. -/
def Contains (e : Exposure) (m : Run α) (s : Session) : Prop :=
  ∀ fault s', exec m s = (.error fault, s') → fault.isReported = true ∨ e.Escape s' fault

theorem contains_of_exec {m : Run α} {r : Except Fault α} (he : exec m s = (r, s'))
    (h : ∀ fault, r = .error fault → fault.isReported = true ∨ e.Escape s' fault) :
    e.Contains m s := by
  intro fault last hfault
  rw [he, Prod.mk.injEq] at hfault
  exact hfault.2 ▸ h fault hfault.1

theorem contains_of_ok {m : Run α} {a : α} (he : exec m s = (.ok a, s')) : e.Contains m s :=
  contains_of_exec he nofun

theorem contains_throw (h : fault.isReported = true) : e.Contains (throw fault : Run α) s :=
  contains_of_exec (Run.exec_throw fault s) fun _ hfault => .inl (Except.error.inj hfault ▸ h)

theorem contains_pure (a : α) : e.Contains (pure a) s :=
  contains_of_ok (Run.exec_pure a s)

theorem contains_get : e.Contains get s :=
  contains_of_ok (Run.exec_get s)

theorem contains_orFail {f : ε → Fault} {x : Except ε α}
    (h : ∀ cause, x = .error cause → (f cause).isReported = true ∨ e.Escape s (f cause)) :
    e.Contains (Run.orFail f x) s := by
  refine contains_of_exec (Run.exec_orFail f x s) fun fault hfault => ?_
  obtain ⟨cause, hcause, rfl⟩ := Run.mapError_eq_error.mp hfault
  exact h cause hcause

theorem contains_bind {m : Run α} {f : α → Run β} (hm : e.Contains m s)
    (hf : ∀ a next, exec m s = (.ok a, next) → e.Contains (f a) next) :
    e.Contains (m >>= f) s := by
  intro fault last hfault
  rcases he : exec m s with ⟨result, next⟩
  cases result with
  | ok a =>
    rw [Run.exec_bind_of_ok he] at hfault
    exact hf a next he fault last hfault
  | error cause =>
    rw [Run.exec_bind_of_error he, Prod.mk.injEq] at hfault
    obtain ⟨hcause, rfl⟩ := hfault
    exact Except.error.inj hcause ▸ hm cause next he

theorem contains_map {m : Run α} (g : α → β) (hm : e.Contains m s) : e.Contains (g <$> m) s := by
  rw [map_eq_pure_bind]
  exact contains_bind hm fun _ _ _ => contains_pure _

theorem contains_discard {m : Run α} (hm : e.Contains m s) : e.Contains (discard m) s :=
  contains_map _ hm

theorem contains_tryCatch {m : Run α} {handle : Fault → Run α}
    (hhandle : ∀ fault next, exec m s = (.error fault, next) → e.Contains (handle fault) next) :
    e.Contains (tryCatch m handle) s := by
  intro fault last hfault
  rw [Run.exec_tryCatch] at hfault
  rcases he : exec m s with ⟨result, next⟩
  rw [he] at hfault
  cases result with
  | ok a => cases (Prod.mk.inj hfault).1
  | error cause => exact hhandle cause next he fault last hfault

/-- Runs that are contained wherever some property of sessions holds, and keep it. -/
theorem sequential_while (I : Session → Prop) :
    Run.Sequential fun m (_ : List Unit) => ∀ s, I s →
      e.Contains m s ∧ ∀ a next, exec m s = (.ok a, next) → I next where
  pure a s hs := ⟨contains_pure a, fun _ _ h => (Prod.mk.inj h).2 ▸ hs⟩
  bind hm hf s hs := by
    refine ⟨contains_bind (hm s hs).1 fun a next h => (hf a next ((hm s hs).2 a next h)).1, ?_⟩
    intro b last h
    obtain ⟨a, next, hfirst, hrest⟩ := Run.exec_bind_eq_ok.mp h
    exact (hf a next ((hm s hs).2 a next hfirst)).2 b last hrest

theorem contains_forM_while {I : Session → Prop} {xs : List α} {f : α → Run Unit}
    (hf : ∀ x ∈ xs, ∀ s, I s → e.Contains (f x) s ∧ ∀ a next, exec (f x) s = (.ok a, next) → I next)
    (hs : I s) : e.Contains (xs.forM f) s :=
  ((sequential_while I).forM (fun _ => []) hf s hs).1

theorem contains_forM {xs : List α} {f : α → Run Unit}
    (hf : ∀ x ∈ xs, ∀ s, e.Contains (f x) s) : e.Contains (xs.forM f) s :=
  contains_forM_while (I := fun _ => True)
    (fun x hx s _ => ⟨hf x hx s, fun _ _ _ => trivial⟩) trivial

theorem contains_mapM {xs : List α} {f : α → Run β} (hf : ∀ x ∈ xs, ∀ s, e.Contains (f x) s) :
    e.Contains (xs.mapM f) s :=
  ((sequential_while fun _ => True).mapM (fun _ => [])
    (fun x hx s _ => ⟨hf x hx s, fun _ _ _ => trivial⟩) s trivial).1

theorem contains_change {f : Files.Fault → Fault}
    {operation : Tree → Location → Except Files.Fault Tree}
    (h : ∀ cause, operation s.tree s.current = .error cause →
      (f cause).isReported = true ∨ e.Escape s (f cause)) :
    e.Contains (Run.change f operation) s := by
  have hexec := Run.exec_change f operation s
  cases hoperation : operation s.tree s.current with
  | ok t =>
    rw [hoperation] at hexec
    exact contains_of_ok hexec
  | error cause =>
    rw [hoperation] at hexec
    exact contains_of_exec hexec fun _ hfault => Except.error.inj hfault ▸ h cause hoperation

-- The path that is exposed may be one below the folder.
theorem contains_makeFolders {f : Files.Fault → Fault} {path : Path}
    (hreport : ∀ cause, (f cause).isReported = true)
    (hat : ∀ cause : Files.Fault, cause.IsAt path → cause.IsAt p) (hpath : e.path p) :
    e.Contains (Run.makeFolders f path) s := by
  refine contains_of_exec (Run.exec_makeFolders f path s) fun fault hfault => ?_
  obtain ⟨cause, hcause, rfl⟩ := Run.mapError_eq_error.mp hfault
  exact escape_of_isAt hreport (hat cause (Files.isAt_makeFolders hcause)) hpath

theorem contains_requireTexts {values : List Toml.Value}
    (hvalues : ∀ value ∈ values, value.isOverlong = true → e.shown value) :
    e.Contains (Run.requireTexts values) s := by
  refine contains_of_exec (Run.exec_requireTexts values s) fun fault hfault => ?_
  split at hfault
  · next hlong =>
    obtain ⟨value, hvalue, hlong⟩ := List.any_eq_true.mp hlong
    exact Except.error.inj hfault ▸ .inr (.unwritable (hvalues value hvalue hlong) hlong)
  · cases hfault

theorem contains_command {f : CommandFault → Fault} {argv : List String} {folder : Option String}
    (hreport : ∀ cause, (f cause).isReported = true) (hcommand : e.command argv folder)
    (houtcome : ∀ outcome, s.Awaits outcome → e.outcome outcome) :
    e.Contains (Run.command f argv folder) s := by
  have hexec := Run.exec_command f argv folder s
  split at hexec
  · next hzero =>
    exact contains_of_exec hexec fun fault hfault =>
      Except.error.inj hfault ▸ .inr (.word hcommand hzero)
  · refine contains_of_exec hexec fun fault hfault => ?_
    rcases Run.verdict_error hfault with ⟨cause, rfl⟩ | ⟨malformed, hgarbled, rfl⟩
    · exact .inl (hreport cause)
    · exact .inr (.garbled hcommand List.getLast?_concat (houtcome _ s.awaits_nextOutcome) hgarbled)

/-! ## Reading -/

theorem ofRefusal_eq {malformed : Fault} {x : Except Toml.Refusal α}
    (h : x.mapError (Fault.ofRefusal malformed) = .error fault) :
    fault = malformed ∨ ∃ cause, x = .error (.digits cause) ∧ fault = .digits cause := by
  obtain ⟨refusal, rfl, rfl⟩ := Run.mapError_eq_error.mp h
  cases refusal with
  | malformed => exact .inl rfl
  | digits cause => exact .inr ⟨cause, rfl, rfl⟩

-- A text that is signalled, read, decoded and parsed. What follows reports its own faults.
theorem escape_of_text {report : Files.Fault → Fault} {rest : List Char → Except Fault α}
    (hreport : ∀ cause, (report cause).isReported = true) (hpath : e.path p) (htext : e.text p)
    (hrest : ∀ text fault, rest text = .error fault → fault.isReported = true ∨
      ∃ cause, fault = .digits cause ∧ (Toml.parse text = .error (.digits cause) ∨
        Toml.parse (Text.foldReturns text) = .error (.digits cause)))
    (h : (do
      let bytes ← s.content report p
      let text ← (Utf8.decode bytes).mapError Fault.undecodable
      rest text) = .error fault) :
    fault.isReported = true ∨ e.Escape (s.opening p) fault := by
  rcases Run.result_bind_eq_error.mp h with hcontent | ⟨bytes, hcontent, hdecoding⟩
  · obtain ⟨cause, hread, rfl⟩ := Run.mapError_eq_error.mp hcontent
    exact escape_of_isAt hreport (Files.isAt_read hread) hpath
  have hlast : (s.opening p).journal.getLast? = some (.read p) := by
    simp [Session.opening_journal]
  have hread := Run.mapError_eq_ok.mp hcontent
  rcases Run.result_bind_eq_error.mp hdecoding with hdecode | ⟨text, hdecode, htail⟩
  · obtain ⟨cause, hcause, rfl⟩ := Run.mapError_eq_error.mp hdecode
    exact .inr (.undecodable htext hlast hread hcause)
  · refine (hrest text fault htail).imp_right ?_
    rintro ⟨cause, rfl, hparse⟩
    exact .unreadable htext hlast hread (Run.mapError_eq_ok.mp hdecode) hparse

theorem contains_watchManifest (hpath : e.path p) (htext : e.text p) :
    e.Contains (Run.watchManifest p) s := by
  refine contains_of_exec (Run.exec_watchManifest p s) fun fault =>
    escape_of_text (fun _ => rfl) hpath htext fun text cause hrest => ?_
  rcases Run.result_bind_eq_error.mp hrest with hparse | ⟨document, -, hdefect⟩
  · rcases ofRefusal_eq hparse with rfl | ⟨digits, hdigits, rfl⟩
    · exact .inl rfl
    · exact .inr ⟨digits, rfl, .inl hdigits⟩
  · obtain ⟨defect, -, rfl⟩ := Run.mapError_eq_error.mp hdefect
    exact .inl rfl

theorem contains_readFragment (hpath : e.path p) (htext : e.text p) :
    e.Contains (Defaults.readFragment p) s := by
  refine contains_of_exec (Defaults.exec_readFragment p s) fun fault =>
    escape_of_text (fun _ => rfl) hpath htext fun text cause hrest => ?_
  rcases ofRefusal_eq hrest with rfl | ⟨digits, hdigits, rfl⟩
  · exact .inl rfl
  · exact .inr ⟨digits, rfl, .inr hdigits⟩

-- Only a tag whose value cannot be taken apart makes a spec file fail without a report.
theorem tag_of_addLine {path : Path} {lines : List (List Char × Nat)} {spec : Spec}
    (h : lines.foldlM (Spec.addLine path) spec = .error fault) :
    fault.isReported = true ∨ ∃ line ∈ lines, ∃ tag cause, Spec.tag? line.1 = some tag ∧
      Url.parse tag.value = .error cause ∧ fault = .url cause := by
  induction lines generalizing spec with
  | nil => cases h
  | cons line rest ih =>
    rw [List.foldlM_cons] at h
    rcases Run.result_bind_eq_error.mp h with hline | ⟨next, -, hrest⟩
    · unfold Spec.addLine at hline
      split at hline
      · cases hline
      next tag htag =>
      split at hline
      · next cause hname =>
        refine .inr ⟨line, List.mem_cons_self, tag, cause, htag, ?_, (Except.error.inj hline).symm⟩
        rcases Run.result_bind_eq_error.mp hname with hparse | ⟨_, -, hpure⟩
        · exact hparse
        · cases hpure
      · refine .inl ?_
        split at hline
        · exact Except.error.inj hline ▸ rfl
        · cases hline
    · exact (ih hrest).imp_right fun ⟨other, hother, hrest⟩ =>
        ⟨other, List.mem_cons_of_mem _ hother, hrest⟩

theorem contains_watchSpec (hpath : e.path p) (hspec : e.spec p) :
    e.Contains (PackageRequest.watchSpec p) s := by
  refine contains_bind (contains_of_ok (Run.exec_watchNewFiles _ s)) fun _ next _ => ?_
  refine contains_bind (contains_of_exec (Spec.exec_read p next) fun fault hfault => ?_)
    fun spec last _ => contains_of_ok (Run.exec_watchNewFiles _ last)
  rcases Run.result_bind_eq_error.mp hfault with hcontent | ⟨bytes, hcontent, hdecoding⟩
  · obtain ⟨cause, hread, rfl⟩ := Run.mapError_eq_error.mp hcontent
    exact escape_of_isAt (fun _ => rfl) (Files.isAt_read hread) hpath
  rcases Run.result_bind_eq_error.mp hdecoding with hdecode | ⟨text, hdecode, htags⟩
  · obtain ⟨cause, -, rfl⟩ := Run.mapError_eq_error.mp hdecode
    exact .inl rfl
  obtain ⟨other, hfold, rfl⟩ := Run.mapError_eq_error.mp htags
  refine (tag_of_addLine hfold).imp_right ?_
  rintro ⟨⟨line, number⟩, hline, tag, cause, htag, hparse, rfl⟩
  have hlast : (next.noting (.read p)).journal.getLast? = some (.read p) := by simp
  exact .tag hspec hlast (Run.mapError_eq_ok.mp hcontent) (Run.mapError_eq_ok.mp hdecode)
    (List.fst_mem_of_mem_zipIdx hline) htag hparse

/-! ## Files from elsewhere -/

section Fetching

variable {a : Lookaside} {f : ExternalFile} {name : String}

theorem contains_download {url sha512 : String} (hgoal : e.path p) :
    e.Contains (a.download url p sha512) s := by
  refine contains_bind (contains_of_ok (Run.exec_note _ s)) fun _ next _ => ?_
  refine contains_bind contains_get fun now _ _ => ?_
  cases now.reply url with
  | unreachable reason => exact contains_throw rfl
  | refused reason => exact contains_throw rfl
  | content pieces broken =>
    refine contains_bind (contains_makeFolders (fun _ => rfl) (fun _ => .of_parent) hgoal)
      fun _ _ _ => ?_
    refine contains_bind (contains_change fun cause hwrite =>
      escape_of_isAt (fun _ => rfl) (Files.isAt_write hwrite) hgoal) fun _ _ _ => ?_
    cases broken with
    | some reason => exact contains_throw rfl
    | none =>
      dsimp only
      split
      · exact contains_pure _
      · exact contains_throw rfl

theorem contains_obtain (hgoal : e.path p) : e.Contains (a.obtain f name p) s := by
  rw [Lookaside.obtain]
  split
  · exact contains_download hgoal
  · refine contains_tryCatch fun fault next hfault => ?_
    have hdownload := contains_download hgoal fault next hfault
    split
    · split
      · exact contains_download hgoal
      · exact contains_throw rfl
    · exact contains_of_exec (Run.exec_throw _ next) fun _ h => Except.error.inj h ▸ hdownload

theorem exec_attempt (run : Run Unit) (s : Session) :
    exec (tryCatch (Except.ok <$> run) fun fault => pure (Except.error fault)) s =
      (.ok (exec run s).1, (exec run s).2) := by
  rw [Run.exec_tryCatch, Run.exec_map]
  rcases exec run s with ⟨result, next⟩
  cases result <;> rfl

-- What the run does before the file is removed must not depend on the state of the files.
theorem contains_removing {run : Run Unit} (hrun : e.onlyPaths.Contains run s)
    (htemporary : e.temporary p) : e.Contains (Lookaside.removing p run) s := by
  rcases he : exec run s with ⟨result, next⟩
  have hattempt := exec_attempt run s
  rw [he] at hattempt
  refine contains_bind (contains_of_ok hattempt) fun found _ hfound => ?_
  rw [hattempt, Prod.mk.injEq, Except.ok.injEq] at hfound
  obtain ⟨rfl, rfl⟩ := hfound
  refine contains_bind (contains_change fun cause hremove => .inr (.unremoved htemporary hremove))
    fun _ last _ => contains_orFail fun fault hfault => ?_
  obtain rfl : result = .error fault := hfault
  exact (hrun fault next he).imp_right fun h => h.move last

theorem contains_store {target : Path} (htarget : e.path target)
    (hpath : e.path (target.withName ("." ++ name)))
    (htemporary : e.temporary (target.withName ("." ++ name))) :
    e.Contains (a.store f name target) s := by
  refine contains_removing (contains_bind (contains_obtain hpath) fun _ next _ => ?_) htemporary
  refine contains_change fun cause hrename => ?_
  rcases Files.isAt_rename hrename with hsource | hgoal
  · exact escape_of_isAt (fun _ => rfl) hsource hpath
  · exact escape_of_isAt (fun _ => rfl) hgoal htarget

-- A file that is there can be read.
theorem contains_isPresent (hpath : e.sought p) : e.Contains (Lookaside.isPresent f p) s := by
  refine contains_bind contains_get fun now next hnow => ?_
  obtain ⟨rfl, rfl⟩ : s = now ∧ s = next := by simpa using hnow
  split
  · next hfile =>
    obtain ⟨content, hread⟩ := Files.read_of_isFile hfile
    have hexec := Run.exec_readFile Fault.files p s
    rw [hread] at hexec
    exact contains_bind (contains_of_ok hexec) fun _ _ _ => contains_pure _
  · exact contains_bind (contains_orFail fun cause hlook => .inr (.unseen hpath hlook)) fun _ _ _ =>
      contains_pure _

theorem localName_eq_error {cause : UrlFault} (h : f.localName = .error cause) :
    f.path = none ∧ Url.parse f.url = .error cause := by
  unfold ExternalFile.localName at h
  split at h
  · cases h
  · next hnone =>
    refine ⟨hnone, ?_⟩
    cases hparse : Url.parse f.url with
    | ok url =>
      rw [hparse] at h
      cases h
    | error other =>
      rw [hparse] at h
      rw [Except.error.inj h]

theorem contains_fetchOne (haddress : f.path = none → e.address f.url)
    (htarget : ∀ name, f.localName = .ok name →
      e.path (f.target a.folder name) ∧ e.sought (f.target a.folder name))
    (hpath : ∀ name, f.localName = .ok name → e.path (f.temporary a.folder name))
    (htemporary : ∀ name, f.localName = .ok name → e.temporary (f.temporary a.folder name)) :
    e.Contains (a.fetchOne f) s := by
  refine contains_bind (contains_orFail fun cause hcause => ?_) fun name next hlocal => ?_
  · obtain ⟨hnone, hparse⟩ := localName_eq_error hcause
    exact .inr (.address (haddress hnone) hparse)
  obtain ⟨hname, rfl⟩ := Run.exec_orFail_eq_ok.mp hlocal
  dsimp only
  split
  · exact contains_bind (contains_throw rfl) fun _ _ h => by simp at h
  · refine contains_bind (contains_of_ok (Run.exec_watchFile _ _)) fun _ _ _ => ?_
    refine contains_bind (contains_isPresent (htarget name hname).2) fun present _ _ => ?_
    split
    · exact contains_pure _
    · exact contains_store (htarget name hname).1 (hpath name hname) (htemporary name hname)

theorem contains_runBundle {root package : Path} {image : String} (hroot : e.resolved root)
    (hpackage : e.resolved package) (haddress : f.path = none → e.address f.url)
    (hcommand : ∀ argv, Bundle.command root package f image s.tree s.current = .ok argv →
      e.command argv none)
    (houtcome : ∀ outcome, s.Awaits outcome → e.outcome outcome) :
    e.Contains (Bundle.run root package f image) s := by
  have hexec : Run.exec (Bundle.run root package f image) s = _ := Bundle.exec_run s
  cases hbundle : Bundle.command root package f image s.tree s.current with
  | ok argv =>
    rw [hbundle] at hexec
    have hstart : e.Contains
        (discard (Run.command (fun cause => .bundle (.command cause)) argv none)) s :=
      contains_discard (contains_command (fun _ => rfl) (hcommand argv hbundle) houtcome)
    exact fun fault last hfault => hstart fault last (hexec.symm.trans hfault)
  | error cause =>
    rw [hbundle] at hexec
    refine contains_of_exec hexec fun fault hfault => Except.error.inj hfault ▸ ?_
    rcases Run.result_bind_eq_error.mp hbundle with hfails | ⟨realRoot, -, hbundle⟩
    · obtain ⟨refused, hresolve, rfl⟩ := Run.mapError_eq_error.mp hfails
      exact .inr (.unresolved hroot hresolve)
    rcases Run.result_bind_eq_error.mp hbundle with hfails | ⟨realPackage, -, hbundle⟩
    · obtain ⟨refused, hresolve, rfl⟩ := Run.mapError_eq_error.mp hfails
      exact .inr (.unresolved hpackage hresolve)
    split at hbundle
    · rcases Run.result_bind_eq_error.mp hbundle with hfails | ⟨script, -, hpure⟩
      · obtain ⟨other, hscript, rfl⟩ := Run.mapError_eq_error.mp hfails
        rcases Run.result_bind_eq_error.mp hscript with hlocal | ⟨archive, -, hpure⟩
        · obtain ⟨hnone, hparse⟩ := localName_eq_error hlocal
          exact .inr (.address (haddress hnone) hparse)
        · cases hpure
      · cases hpure
    · exact .inl (Except.error.inj hbundle ▸ rfl)

end Fetching

/-! ## Default settings -/

theorem contains_fragments {folder : Path} (hfolder : e.path folder) :
    e.Contains (Defaults.fragments folder) s := by
  refine contains_of_exec (Defaults.exec_fragments folder s) fun fault hfault => ?_
  rcases Run.result_bind_eq_error.mp hfault with hlist | ⟨entries, -, hrest⟩
  · obtain ⟨cause, hcause, rfl⟩ := Run.mapError_eq_error.mp hlist
    exact escape_of_isAt (fun _ => rfl) (Files.isAt_list hcause) hfolder
  rcases Run.result_bind_eq_error.mp hrest with hnames | ⟨names, -, hsorted⟩
  · obtain ⟨cause, -, rfl⟩ := Run.mapError_eq_error.mp hnames
    exact .inl rfl
  · cases hsorted

theorem contains_replaceFile {root : Path} {content : List UInt8}
    (houtput : e.path (Defaults.outputOf root))
    (htemporary : ∀ n, e.path ((Files.normal s.current (Defaults.outputOf root).parent).child
      (Defaults.temporaryName n))) :
    e.Contains (Defaults.replaceFile (Defaults.outputOf root) content) s := by
  intro fault last hfault
  obtain ⟨t', -, hresult⟩ :=
    Defaults.exec_replaceFile (Defaults.lastName_outputOf root) content s
  rw [hfault] at hresult
  rcases hresult with ⟨hok, -⟩ | ⟨⟨cause, hcause, hat⟩, -⟩
  · cases hok
  obtain rfl := Except.error.inj hcause
  rcases hat with hat | ⟨n, hat⟩
  · exact escape_of_isAt (fun _ => rfl) hat houtput
  · exact escape_of_isAt (fun _ => rfl) hat (htemporary n)

theorem contains_generate {folder? : Option Path} {root : Path}
    (hfolder : ∀ folder, folder? = some folder → e.path folder)
    (hfragment : ∀ folder fragments, folder? = some folder → s.fragments folder = .ok fragments →
      ∀ fragment ∈ fragments, e.path fragment ∧ e.text fragment)
    (houtput : e.path (Defaults.outputOf root))
    (htemporary : ∀ n, e.path ((Files.normal s.current (Defaults.outputOf root).parent).child
      (Defaults.temporaryName n))) :
    e.Contains (Defaults.generate folder? root) s := by
  cases folder? with
  | none => exact contains_pure _
  | some folder =>
    refine contains_map _ (contains_bind (contains_fragments (hfolder folder rfl))
      fun fragments next hlist => ?_)
    rw [Defaults.exec_fragments, Prod.mk.injEq] at hlist
    obtain ⟨hlist, rfl⟩ := hlist
    refine contains_bind (contains_mapM fun fragment hmem _ => ?_) fun tables last hread => ?_
    · obtain ⟨hpath, htext⟩ := hfragment folder fragments rfl hlist fragment hmem
      exact contains_readFragment hpath htext
    · obtain ⟨_, hexec, -, hcurrent, -⟩ := Defaults.exec_readFragments fragments s
      rw [hread, Prod.mk.injEq] at hexec
      obtain ⟨-, rfl⟩ := hexec
      refine contains_bind (contains_orFail fun _ _ => .inl rfl) fun text next htext => ?_
      obtain ⟨-, rfl⟩ := Run.exec_orFail_eq_ok.mp htext
      exact contains_bind (contains_replaceFile houtput (hcurrent ▸ htemporary)) fun _ _ _ =>
        contains_pure _

/-! ## Stages without input of their own -/

theorem contains_requireArch {manifest : Manifest} {arch : Arch} :
    e.Contains (Run.requireArch manifest arch) s := by
  refine contains_of_exec (Run.exec_requireArch manifest arch s) fun fault hfault => ?_
  split at hfault
  · cases hfault
  · exact .inl (Except.error.inj hfault ▸ rfl)

theorem contains_checked {image : Image} (hsought : e.sought (image.root.child Image.recipeName)) :
    e.Contains image.checked s := by
  refine contains_of_exec (Image.exec_checked image s) fun fault hfault => ?_
  split at hfault
  · cases hfault
  · exact Except.error.inj hfault ▸ escape_of_notFound rfl hsought

theorem contains_image {image : Image} (houtput : e.path image.output)
    (hshown : ∀ argument ∈ image.arguments, argument.2.isOverlong = true → e.shown argument.2)
    (hcommand : e.command image.argv (some image.root.text))
    (houtcome : ∀ outcome, s.Awaits outcome → e.outcome outcome) : e.Contains image.build s := by
  refine contains_bind (contains_makeFolders (fun _ => rfl) (fun _ h => h) houtput)
    fun _ next hnext => ?_
  obtain rfl : s.withTree _ = next :=
    (Prod.ext_iff.mp ((Run.exec_makeFolders _ image.output s).symm.trans hnext)).2
  refine contains_bind (contains_requireTexts ?_) fun _ last hlast => ?_
  · rintro value hvalue hlong
    obtain ⟨argument, hargument, rfl⟩ := List.mem_map.mp hvalue
    exact hshown argument hargument hlong
  obtain ⟨-, rfl⟩ := Run.exec_requireTexts_eq_ok.mp hlast
  exact contains_discard (contains_command (fun _ => rfl) hcommand houtcome)

theorem mem_of_crawl {t : Tree} {current : Location} {patterns : List String} {groups : List Path}
    {group : Path} (h : SourceGroup.crawl t current patterns groups = .error group) :
    group ∈ groups := by
  rw [SourceGroup.crawl] at h
  cases hfiles : groups.mapM (SourceGroup.files t current patterns) with
  | ok found =>
    rw [hfiles] at h
    cases h
  | error other =>
    rw [hfiles] at h
    obtain rfl : other = group := Except.error.inj h
    obtain ⟨found, hfound, hfault⟩ := Run.exists_of_mapM_eq_error hfiles
    rw [SourceGroup.files] at hfault
    split at hfault
    · exact Except.error.inj hfault ▸ hfound
    · split at hfault
      · cases hfault
      · exact Except.error.inj hfault ▸ hfound

theorem contains_watchSources {request : PackageRequest} {groups : List String}
    (hsought : ∀ group ∈ groups, e.sought (request.sourcesDir.child group)) :
    e.Contains (request.watchSources groups) s := by
  refine contains_bind contains_get fun now next hnow => ?_
  obtain ⟨rfl, rfl⟩ : s = now ∧ s = next := by simpa using hnow
  refine contains_bind (contains_orFail fun path hcrawl => ?_) fun files next _ =>
    contains_of_ok (Run.exec_watchNewFiles _ next)
  obtain ⟨group, hgroup, rfl⟩ := List.mem_map.mp (mem_of_crawl hcrawl)
  exact escape_of_notFound rfl (hsought group hgroup)

end Exposure

end BuildHook
