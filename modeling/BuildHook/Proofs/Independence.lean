import BuildHook.Proofs.Aggregation
import BuildHook.Proofs.Invalidation
import BuildHook.Proofs.Places
import BuildHook.Proofs.SignalLog

/-!
# What the default settings do not depend on

The settings of a variant are aggregated before its image is looked at. So two builds whose manifests
differ in their images only, and whose commands may end differently, send the same signals and leave
the same settings. What a build does for its image adds folders to the tree and nothing else.
-/

namespace BuildHook

open Run (exec)

variable {s t : Session} {α β : Type}

theorem Tree.Grows.get?_iff {t t' : Tree} {location : Location} {node : Node} (h : t.Grows t')
    (hnode : node ≠ .folder) : t'.get? location = some node ↔ t.get? location = some node := by
  rcases h location with hsame | ⟨hnone, hfolder⟩
  · rw [hsame]
  · rw [hnone, hfolder]
    simp [hnode.symm]

/-! ## Runs that take no notice of commands -/

/-- Sessions that agree on all but the network and the outcomes of commands. -/
structure Session.SameGround (s t : Session) : Prop where
  tree : t.tree = s.tree
  current : t.current = s.current
  journal : t.journal = s.journal

namespace Session.SameGround

theorem noting (h : s.SameGround t) (e : Event) : (s.noting e).SameGround (t.noting e) := by
  refine ⟨h.tree, h.current, ?_⟩
  rw [noting_journal, noting_journal, h.journal]

theorem opening (h : s.SameGround t) (path : Path) : (s.opening path).SameGround (t.opening path) :=
  (h.noting _).noting _

theorem withTree (h : s.SameGround t) (tree : Tree) :
    (s.withTree tree).SameGround (t.withTree tree) :=
  ⟨rfl, h.current, h.journal⟩

theorem signals (h : s.SameGround t) : t.signals = s.signals := by
  rw [Session.signals, Session.signals, h.journal]

theorem read (h : s.SameGround t) (path : Path) :
    Files.read t.tree t.current path = Files.read s.tree s.current path := by
  rw [h.tree, h.current]

end Session.SameGround

/-- A run that has the same result and does the same wherever the network and the commands differ.
-/
def Run.Unaffected (m : Run α) : Prop :=
  ∀ s t : Session, s.SameGround t →
    (exec m t).1 = (exec m s).1 ∧ (exec m s).2.SameGround (exec m t).2

namespace Run

theorem unaffected_pure (a : α) : Unaffected (pure a : Run α) :=
  fun _ _ h => ⟨rfl, h⟩

theorem unaffected_throw (fault : Fault) : Unaffected (throw fault : Run α) :=
  fun _ _ h => ⟨rfl, h⟩

theorem unaffected_orFail {ε : Type} (fault : ε → Fault) (x : Except ε α) :
    Unaffected (orFail fault x) := by
  intro s t h
  rw [exec_orFail, exec_orFail]
  exact ⟨rfl, h⟩

theorem unaffected_bind {m : Run α} {f : α → Run β} (hm : Unaffected m)
    (hf : ∀ a, Unaffected (f a)) : Unaffected (m >>= f) := by
  intro s t h
  obtain ⟨hresult, hground⟩ := hm s t h
  rw [exec_bind, exec_bind]
  rcases hfirst : exec m s with ⟨result, next⟩
  rcases hsecond : exec m t with ⟨result', next'⟩
  rw [hfirst, hsecond] at hresult hground
  obtain rfl : result' = result := hresult
  cases result' with
  | ok a => exact hf a next next' hground
  | error fault => exact ⟨rfl, hground⟩

theorem sequential_unaffected : Sequential fun m (_ : List Unit) => Unaffected m where
  pure := unaffected_pure
  bind := unaffected_bind

/-- What is done with a session may depend on its tree, its folder and its journal. -/
theorem unaffected_get {f : Session → Run α} (hsame : ∀ s t : Session, s.SameGround t → f t = f s)
    (hf : ∀ s, Unaffected (f s)) : Unaffected (get >>= f) := by
  intro s t h
  rw [exec_bind_of_ok (exec_get s), exec_bind_of_ok (exec_get t), hsame s t h]
  exact hf s s t h

theorem unaffected_map {m : Run α} (g : α → β) (hm : Unaffected m) : Unaffected (g <$> m) := by
  rw [map_eq_pure_bind]
  exact unaffected_bind hm fun a => unaffected_pure (g a)

theorem unaffected_discard {m : Run α} (hm : Unaffected m) : Unaffected (discard m) :=
  unaffected_map _ hm

theorem unaffected_tryCatch {m : Run α} {handle : Fault → Run α} (hm : Unaffected m)
    (hhandle : ∀ fault, Unaffected (handle fault)) : Unaffected (tryCatch m handle) := by
  intro s t h
  obtain ⟨hresult, hground⟩ := hm s t h
  rw [exec_tryCatch, exec_tryCatch]
  rcases hfirst : exec m s with ⟨result, next⟩
  rcases hsecond : exec m t with ⟨result', next'⟩
  rw [hfirst, hsecond] at hresult hground
  obtain rfl : result' = result := hresult
  cases result' with
  | ok a => exact ⟨rfl, hground⟩
  | error fault => exact hhandle fault next next' hground

theorem unaffected_mapM {f : α → Run β} (hf : ∀ x, Unaffected (f x)) (xs : List α) :
    Unaffected (xs.mapM f) :=
  sequential_unaffected.mapM (fun _ => []) fun x _ => hf x

theorem unaffected_change (fault : Files.Fault → Fault)
    (operation : Tree → Location → Except Files.Fault Tree) :
    Unaffected (change fault operation) := by
  intro s t h
  rw [exec_change, exec_change, h.tree, h.current]
  cases operation s.tree s.current with
  | ok tree => exact ⟨rfl, h.withTree tree⟩
  | error cause => exact ⟨rfl, h⟩

theorem unaffected_makeFolders (fault : Files.Fault → Fault) (path : Path) :
    Unaffected (makeFolders fault path) := by
  intro s t h
  rw [exec_makeFolders, exec_makeFolders, h.tree, h.current]
  exact ⟨rfl, h.withTree _⟩

theorem unaffected_requireArch (manifest : Manifest) (arch : Arch) :
    Unaffected (requireArch manifest arch) := by
  intro s t h
  rw [exec_requireArch, exec_requireArch]
  exact ⟨rfl, h⟩

end Run

open Run (Unaffected unaffected_bind unaffected_map unaffected_discard)

/-! ## The aggregation -/

theorem Files.toOption_read {t : Tree} {current : Location} {p : Path}
    (h : Files.isFile t current p = false) : (Files.read t current p).toOption = none := by
  cases hread : Files.read t current p with
  | error fault => rfl
  | ok content =>
    obtain ⟨hbarred, place, hfind⟩ := Files.read_eq_ok.mp hread
    rw [Files.isFile, hbarred, hfind] at h
    cases h

namespace Defaults

theorem unaffected_fragments (folder : Path) : Unaffected (fragments folder) := by
  intro s t h
  rw [exec_fragments, exec_fragments]
  refine ⟨?_, h⟩
  rw [Session.fragments, Session.fragments, h.tree, h.current]

theorem unaffected_readFragment (fragment : Path) : Unaffected (readFragment fragment) := by
  intro s t h
  rw [exec_readFragment, exec_readFragment]
  exact ⟨Session.settings_congr (h.read fragment), h.opening fragment⟩

theorem unaffected_replaceFile (output : Path) (content : List UInt8) :
    Unaffected (replaceFile output content) := by
  rw [replaceFile_eq]
  refine unaffected_bind (Run.unaffected_makeFolders _ _) fun _ => Run.unaffected_get ?_ fun s => ?_
  · intro s t h
    rw [h.tree, h.current]
  · refine unaffected_bind (Run.unaffected_change _ _) fun _ => ?_
    refine Run.unaffected_tryCatch (Run.unaffected_change _ _) fun fault => ?_
    exact unaffected_bind (Run.unaffected_change _ _) fun _ => Run.unaffected_throw fault

theorem unaffected_generate (folder : Option Path) (root : Path) :
    Unaffected (generate folder root) := by
  cases folder with
  | none => exact Run.unaffected_pure _
  | some folder =>
    refine unaffected_map _ (unaffected_bind (unaffected_fragments folder) fun found => ?_)
    refine unaffected_bind (Run.unaffected_mapM unaffected_readFragment found) fun tables => ?_
    refine unaffected_bind (Run.unaffected_orFail _ _) fun text => ?_
    exact unaffected_bind (unaffected_replaceFile _ _) fun _ => Run.unaffected_pure _

/-- An output that has cut off the way to itself stays cut off, whatever folders are made later. -/
theorem Replaced.lost_of_grows {current folder : Location} {output : Path} {content : List UInt8}
    {t t' t'' : Tree} (hlast : Files.lastName output = some outputName)
    (h : Replaced current output content t t' folder) (hcut : CutsOff current output t folder)
    (hgrows : t'.Grows t'') : Files.isFile t'' current output = false := by
  rw [Bool.eq_false_iff]
  intro hfile
  obtain ⟨_, _, hplace⟩ := Files.find_of_isFile hfile
  obtain ⟨location, hparent⟩ := Files.find_parent hlast hplace
  have hne : folder ++ [outputName] ≠ [] := by simp
  have halong := Files.growsAlong_makeFolders t current output.parent
  -- the way to the folder does not pass the file that is the output now
  have haround : Files.find (t''.erase (folder ++ [outputName])) current output.parent =
      .ok (.node location .folder) := by
    refine Files.find_keepsWays (fun other node hkind hnode => ?_) hparent
    rw [Tree.get?_erase _ hne]
    split
    · next heq =>
      rw [← heq, hgrows.keeps _ _ h.placed] at hnode
      exact absurd (Option.some.inj hnode).symm (hkind content)
    · exact hnode
  refine hcut.2 (Files.find_meet (fun other node node' hnode hnode' => ?_) h.found haround)
  rw [Tree.get?_erase _ hne] at hnode' ⊢
  split at hnode'
  · cases hnode'
  next hother =>
  rw [if_neg hother]
  refine ⟨?_, hnode⟩
  -- folders that are new in either tree contradict nothing in the other
  rcases halong.grows other with hsame | ⟨hunknown, hmade⟩
  · have hkept : t.get? other = some node := hsame.symm.trans hnode
    rcases h.kept other (Ne.symm hother) with hold | ⟨hnone, -⟩
    · have hnode'' := hgrows.keeps other node (hold.trans hkept)
      exact Option.some.inj (hnode''.symm.trans hnode')
    · rw [hkept] at hnone
      cases hnone
  · have hfolder : node = .folder := Option.some.inj (hnode.symm.trans hmade)
    rcases hgrows other with hsame | ⟨-, hnew⟩
    · rcases h.kept other (Ne.symm hother) with hold | ⟨-, hnew⟩
      · rw [hsame, hold, hunknown] at hnode'
        cases hnode'
      · rw [hsame, hnew] at hnode'
        exact hfolder.trans (Option.some.inj hnode')
    · exact hfolder.trans (Option.some.inj (hnew.symm.trans hnode'))

end Defaults

namespace Event

/-- The text of a warning. -/
def warning? : Event → Option String
  | .notice (.warning message) => some message
  | _ => none

end Event

namespace Manifest

/-- Manifests that differ at most in what they say about the image. -/
def DiffersInImage (m w : Manifest) : Prop :=
  w = { m with
    includedPackages := w.includedPackages
    imageFormat := w.imageFormat
    kernelParameters := w.kernelParameters
    imageFeatures := w.imageFeatures }

end Manifest

namespace VariantRequest

variable (request : VariantRequest)

/-- The build of a variant with the manifest that a provider delivers. -/
def buildFrom (provide : Path → Run Manifest) : Run Unit := do
  Run.watchFile request.manifestPath
  let manifest ← provide request.manifestPath
  request.buildWith manifest

/-- The build itself reads the manifest from its file. -/
theorem build_eq_buildFrom : request.build = request.buildFrom Manifest.read := by
  simp only [build, buildFrom, Run.watchManifest, bind_assoc]

/-- A provider delivers the manifest of a build that starts in a session, and leaves another one. -/
def Delivers (provide : Path → Run Manifest) (s : Session) (manifest : Manifest)
    (chosen : Session) : Prop :=
  exec (provide request.manifestPath)
    (s.noting (.notice (.signal (.file request.manifestPath)))) = (.ok manifest, chosen)

/-- The stages up to the aggregation of the default settings. -/
def settle (manifest : Manifest) : Run Unit := do
  Run.requireArch manifest request.project.arch
  discard (Defaults.generate manifest.defaultsDir request.project.root)

theorem buildWith_eq (manifest : Manifest) :
    request.buildWith manifest = request.settle manifest >>= fun _ =>
      request.survey manifest >>= finish := by
  simp only [buildWith, settle, survey, bind_assoc]
  cases hpackages : manifest.includedPackages with
  | none => simp only [pure_bind, finish]
  | some packages => simp only [Image.forVariant, hpackages, bind_map_left, finish]

variable {request} {provide provide' : Path → Run Manifest} {m w : Manifest}
  {chosen chosen' : Session}

theorem exec_buildFrom (h : request.Delivers provide s m chosen) :
    exec (request.buildFrom provide) s =
      exec (request.settle m >>= fun _ => request.survey m >>= finish) chosen := by
  rw [buildFrom, Run.exec_bind_of_ok (Run.exec_watchFile _ s), Run.exec_bind_of_ok h,
    buildWith_eq]

theorem settle_congr (h : m.DiffersInImage w) : request.settle w = request.settle m := by
  rw [h]
  rfl

theorem unaffected_settle (request : VariantRequest) (m : Manifest) :
    Unaffected (request.settle m) :=
  unaffected_bind (Run.unaffected_requireArch _ _) fun _ =>
    unaffected_discard (Defaults.unaffected_generate _ _)

/-- The sessions before and after a part of a build that signals nothing and only adds folders. -/
structure OnlyFolders (s s' : Session) : Prop where
  grows : s.tree.Grows s'.tree
  current : s'.current = s.current
  signals : s'.signals = s.signals

theorem OnlyFolders.refl (s : Session) : OnlyFolders s s :=
  ⟨Tree.Grows.refl _, rfl, rfl⟩

theorem onlyFolders_survey (m : Manifest) (s : Session) :
    OnlyFolders s (exec (request.survey m >>= finish) s).2 := by
  have hquiet : Licence.noSignals.Allows (request.survey m >>= finish) s := by
    refine Licence.allows_bind Licence.allows_surveyVariant fun image _ _ => ?_
    cases image with
    | none => exact Licence.allows_warn rfl
    | some image => exact Licence.allows_image trivial rfl
  have hgrowing := Licence.growing_survey request m (s := s)
  exact ⟨hgrowing.grows, Licence.Steps.current hgrowing, hquiet.signals_eq⟩

-- What is done for the image comes after the settings are settled, if they are.
theorem onlyFolders_build (h : request.Delivers provide s m chosen) :
    OnlyFolders (exec (request.settle m) chosen).2 (exec (request.buildFrom provide) s).2 := by
  rw [exec_buildFrom h, Run.exec_bind]
  rcases exec (request.settle m) chosen with ⟨result, settled⟩
  cases result with
  | error fault => exact .refl settled
  | ok _ => exact onlyFolders_survey m settled

theorem exec_buildFrom_of_error {settled : Session} {fault : Fault}
    (h : request.Delivers provide s m chosen)
    (hsettle : exec (request.settle m) chosen = (.error fault, settled)) :
    exec (request.buildFrom provide) s = (.error fault, settled) := by
  rw [exec_buildFrom h, Run.exec_bind_of_error hsettle]

theorem current_settle (request : VariantRequest) (m : Manifest) (s : Session) :
    (exec (request.settle m) s).2.current = s.current := by
  have hall : Licence.anything.Allows (request.settle m) s :=
    Licence.allows_bind Licence.allows_requireArch fun _ _ _ =>
      Licence.allows_discard (Licence.allows_generate (fun _ _ => trivial) (fun _ _ _ => trivial)
        fun _ _ => trivial)
  exact Licence.Steps.current hall

-- An aggregation that succeeds has replaced the output.
theorem replaced_of_settle {settled : Session} {folder : Path}
    (h : exec (request.settle m) chosen = (.ok ⟨⟩, settled))
    (hfolder : m.defaultsDir = some folder) :
    ∃ content place, Defaults.Replaced chosen.current request.output content chosen.tree
      settled.tree place := by
  obtain ⟨_, _, harch, hgenerate⟩ := Run.exec_bind_eq_ok.mp h
  rw [Run.exec_requireArch, Prod.mk.injEq] at harch
  obtain ⟨-, rfl⟩ := harch
  rw [hfolder, Run.exec_discard, Defaults.generate, Run.exec_map] at hgenerate
  rcases hrun : exec (Defaults.aggregate folder request.project.root) chosen with ⟨result, last⟩
  rw [hrun, Prod.mk.injEq] at hgenerate
  obtain ⟨hok, rfl⟩ := hgenerate
  cases result with
  | error fault => cases hok
  | ok path =>
    obtain ⟨-, names, tables, place, haggregated⟩ := Defaults.aggregated_of_exec hrun
    exact ⟨_, place, haggregated.replaced⟩

/-- The settings that an aggregation has left can be read as long as the tree only grows, or cannot be
read at all. -/
theorem sameContent_of_grows {settled : Session} {folder : Path}
    (h : exec (request.settle m) chosen = (.ok ⟨⟩, settled)) (hfolder : m.defaultsDir = some folder)
    (hcurrent : t.current = settled.current) (hgrows : settled.tree.Grows t.tree) :
    Session.SameContent settled t request.output := by
  have hstart := request.current_settle m chosen
  rw [h] at hstart
  obtain ⟨content, place, hreplaced⟩ := replaced_of_settle h hfolder
  rw [Session.SameContent, hcurrent, show settled.current = chosen.current from hstart]
  by_cases hcut : Defaults.CutsOff chosen.current request.output chosen.tree place
  · have hlater : Files.isFile t.tree chosen.current request.output = false :=
      hreplaced.lost_of_grows (Defaults.lastName_outputOf _) hcut hgrows
    rw [Files.toOption_read hlater, Files.toOption_read (hreplaced.lost hcut)]
  · have hfind := hreplaced.leads hcut
    rw [Files.read, Files.read, hfind, Files.find_keeps hgrows.keeps hfind]

-- Whatever follows the aggregation leaves the content of the output as it is.
theorem sameContent_of_settle {folder : Path} (h : request.Delivers provide s m chosen)
    (hfolder : m.defaultsDir = some folder) :
    Session.SameContent (exec (request.settle m) chosen).2 (exec (request.buildFrom provide) s).2
      request.output := by
  have hend := onlyFolders_build h
  rcases hsettle : exec (request.settle m) chosen with ⟨result, settled⟩
  rw [hsettle] at hend
  cases result with
  | error fault =>
    rw [exec_buildFrom_of_error h hsettle]
    rfl
  | ok _ => exact sameContent_of_grows hsettle hfolder hend.current hend.grows

-- A build without packages ends with a warning.
theorem exec_buildFrom_of_none {settled : Session} (h : request.Delivers provide s m chosen)
    (hsettle : exec (request.settle m) chosen = (.ok ⟨⟩, settled))
    (hnone : m.includedPackages = none) :
    exec (request.buildFrom provide) s = (.ok ⟨⟩, settled.noting (.notice (.warning skipped))) := by
  rw [exec_buildFrom h, Run.exec_bind_of_ok hsettle, survey, hnone]
  rfl

/-- Stages under this licence start no commands and give no warnings. -/
def quiet : Licence :=
  .ofEvents fun _ e => e.warning? = none ∧ e.command? = none

theorem quiet_settle (request : VariantRequest) (m : Manifest) :
    quiet.Allows (request.settle m) s :=
  Licence.allows_bind Licence.allows_requireArch fun _ _ _ =>
    Licence.allows_discard (Licence.allows_generate (fun _ _ => ⟨rfl, rfl⟩)
      (fun _ _ _ => ⟨rfl, rfl⟩) fun _ _ => trivial)

theorem since_settle (request : VariantRequest) (m : Manifest) (s : Session) :
    ((exec (request.settle m) s).2.since s).filterMap Event.warning? = [] ∧
      ((exec (request.settle m) s).2.since s).filterMap Event.command? = [] := by
  have hsteps := request.quiet_settle m (s := s)
  have hall := Licence.Steps.forall_since (fun _ _ h => h) hsteps
  exact ⟨List.filterMap_eq_nil_iff.mpr fun e he => (hall e he).1,
    List.filterMap_eq_nil_iff.mpr fun e he => (hall e he).2⟩

/-- Two builds of a variant with manifests that differ in the image only, on one tree. They send the
same signals, and a fault that comes up to the aggregation of the settings is that of both. In the end
all files and links of the two trees are the same, and so are the settings, however the builds go on.
Without packages there is nothing to go on with: a warning is all that follows. -/
theorem settings_independent (hm : request.Delivers provide s m chosen)
    (hw : request.Delivers provide' t w chosen') (hground : chosen.SameGround chosen')
    (himage : m.DiffersInImage w) :
    let first := exec (request.buildFrom provide) s
    let second := exec (request.buildFrom provide') t
    let settled := exec (request.settle m) chosen
    second.2.signals = first.2.signals ∧
      (∀ fault, settled.1 = .error fault → first.1 = .error fault ∧ second.1 = .error fault) ∧
      (∀ location node, node ≠ .folder →
        (second.2.tree.get? location = some node ↔ first.2.tree.get? location = some node)) ∧
      (m.defaultsDir ≠ none → Session.SameContent first.2 second.2 request.output) ∧
      (settled.1 = .ok ⟨⟩ → m.includedPackages = none →
        first.1 = .ok ⟨⟩ ∧ (first.2.since chosen).filterMap Event.warning? = [skipped] ∧
          (first.2.since chosen).filterMap Event.command? = []) := by
  intro first second settled
  obtain ⟨hresult, hsame⟩ := request.unaffected_settle m chosen chosen' hground
  have hfirst := onlyFolders_build hm
  have hsecond := onlyFolders_build hw
  have hother : request.settle w = request.settle m := settle_congr himage
  rw [hother] at hsecond
  refine ⟨?_, fun fault hfault => ?_, fun location node hnode => ?_, fun hdefaults => ?_,
    fun hok hnone => ?_⟩
  · exact hsecond.signals.trans (hsame.signals.trans hfirst.signals.symm)
  · rw [show first.1 = _ from congrArg Prod.fst (exec_buildFrom_of_error hm (Prod.ext hfault rfl))]
    refine ⟨rfl, congrArg Prod.fst (exec_buildFrom_of_error hw (Prod.ext ?_ rfl))⟩
    rw [hother]
    exact hresult.trans hfault
  · rw [hsecond.grows.get?_iff hnode, hfirst.grows.get?_iff hnode, hsame.tree]
  · obtain ⟨folder, hfolder⟩ := Option.ne_none_iff_exists'.mp hdefaults
    have hkept := sameContent_of_settle hm hfolder
    have hkept' := sameContent_of_settle hw ((congrArg Manifest.defaultsDir himage).trans hfolder)
    rw [hother] at hkept'
    have hread := congrArg Except.toOption (hsame.read request.output)
    exact (hkept'.trans hread).trans hkept.symm
  · have hend : first = _ := exec_buildFrom_of_none hm (Prod.ext hok rfl) hnone
    have hquiet := request.quiet_settle m (s := chosen)
    obtain ⟨hwarnings, hcommands⟩ := request.since_settle m chosen
    have hlast : first.2.since chosen =
        settled.2.since chosen ++ [.notice (.warning skipped)] := by
      rw [hend]
      apply Session.since_of_journal
      rw [Session.noting_journal, ← List.append_assoc,
        Session.journal_append_since (Licence.Steps.journal_extends hquiet)]
    rw [hlast, List.filterMap_append, List.filterMap_append, hwarnings, hcommands, hend]
    exact ⟨rfl, rfl, rfl⟩

-- The second manifest names packages, and the build that uses them cannot start its command.
def imaged : Manifest :=
  { Manifest.empty sample.manifestPath with
    defaultsDir := some (.ofString "m/d")
    includedPackages := some ["p"]
    kernelParameters := some ["quiet"] }

def imageless : Manifest :=
  { imaged with includedPackages := none, kernelParameters := none }

def failingSession : Session :=
  { sampleSession (withFolder.put ["r", "Dockerfile"] (.file [])) with
    lastOutcome := .notStarted "no docker" }

theorem settings_independent_sample :
    let s := { failingSession with lastOutcome := .exited 0 [] [] }
    let chosen := s.noting (.notice (.signal (.file sample.manifestPath)))
    let chosen' := failingSession.noting (.notice (.signal (.file sample.manifestPath)))
    let first := exec (sample.buildFrom fun _ => pure imageless) s
    let second := exec (sample.buildFrom fun _ => pure imaged) failingSession
    sample.Delivers (fun _ => pure imageless) s imageless chosen ∧
      sample.Delivers (fun _ => pure imaged) failingSession imaged chosen' ∧
      chosen.SameGround chosen' ∧ imageless.DiffersInImage imaged ∧
      first.1.toOption = some ⟨⟩ ∧ second.1.toOption = none ∧
      second.2.signals = first.2.signals ∧
      Session.SameContent first.2 second.2 sample.output ∧
      (first.2.since chosen).filterMap Event.warning? = [skipped] := by
  intro s chosen chosen' first second
  have hm : sample.Delivers (fun _ => pure imageless) s imageless chosen := rfl
  have hw : sample.Delivers (fun _ => pure imaged) failingSession imaged chosen' := rfl
  have hground : chosen.SameGround chosen' := ⟨rfl, rfl, rfl⟩
  have himage : imageless.DiffersInImage imaged := rfl
  have hsettle : (exec (sample.settle imageless) chosen).1.toOption = some ⟨⟩ := by decide +kernel
  obtain ⟨hsignals, -, -, hcontent, hwarning⟩ := settings_independent hm hw hground himage
  refine ⟨hm, hw, hground, himage, by decide +kernel, by decide +kernel, hsignals, hcontent nofun,
    (hwarning ?_ rfl).2.1⟩
  cases hresult : (exec (sample.settle imageless) chosen).1 with
  | ok _ => rfl
  | error fault =>
    rw [hresult] at hsettle
    cases hsettle

end VariantRequest

end BuildHook
