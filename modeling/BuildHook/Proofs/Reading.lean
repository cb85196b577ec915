import BuildHook.Build
import BuildHook.Proofs.Run

/-!
# What runs read

Manifests, spec files and fragments as functions of the session. Reading one of them is a single
event and changes nothing; its result depends on the content that the path leads to.
-/

namespace BuildHook

namespace Session

/-- The content that a path leads to. -/
def content (s : Session) (fault : Files.Fault → Fault) (path : Path) : Except Fault (List UInt8) :=
  (Files.read s.tree s.current path).mapError (Run.reporting fault)

/-- The manifest at a path. -/
def manifest (s : Session) (path : Path) : Except Fault Manifest := do
  let bytes ← s.content (fun fault => .manifest path (.unreadable fault)) path
  let text ← (Utf8.decode bytes).mapError Fault.undecodable
  let document ← (Toml.parse text).mapError (Fault.ofRefusal (.manifest path .malformed))
  (Manifest.ofDocument path document).mapError fun defect => .manifest path (.defect defect)

/-- The spec file at a path. -/
def spec (s : Session) (path : Path) : Except Fault Spec := do
  let bytes ← s.content (fun fault => .spec path (.unreadable fault)) path
  let text ← (Utf8.decode bytes).mapError fun fault => .spec path (.undecodable fault)
  (Spec.ofText path text).mapError id

/-- The settings in a fragment. -/
def settings (s : Session) (fragment : Path) : Except Fault Toml.Table := do
  let bytes ← s.content (fun fault => .defaults (.unreadable fragment fault)) fragment
  let text ← (Utf8.decode bytes).mapError Fault.undecodable
  (Toml.parse (Text.foldReturns text)).mapError (Fault.ofRefusal (.defaults (.malformed fragment)))

/-- The fragments in a folder, sorted by name. -/
def fragments (s : Session) (folder : Path) : Except Fault (List Path) := do
  let entries ← (Files.list s.tree s.current folder).mapError
    (Run.reporting fun fault => .defaults (.unlistable folder fault))
  let names ← (Defaults.fragmentNames s.tree s.current folder entries).mapError Fault.defaults
  return (Text.sorted names).map folder.child

/-- The files of source groups. -/
def sources (s : Session) (groups : List Path) : Except Fault (List Path) :=
  (SourceGroup.crawl s.tree s.current SourceGroup.defaultPatterns groups).mapError fun group =>
    Run.notFound s group (.sourceGroup group)

/-- The session after an input file has been signalled and then read. -/
def opening (s : Session) (path : Path) : Session :=
  (s.noting (.notice (.signal (.file path)))).noting (.read path)

end Session

variable {s t : Session} {path : Path}

@[simp] theorem Session.opening_tree : (s.opening path).tree = s.tree := rfl

@[simp] theorem Session.opening_current : (s.opening path).current = s.current := rfl

theorem Session.opening_journal :
    (s.opening path).journal =
      s.journal ++ [.notice (.signal (.file path)), .read path] :=
  List.append_assoc _ _ _

@[simp] theorem Session.signals_opening : (s.opening path).signals = s.signals ++ [.file path] := by
  rw [opening, signals_noting, signals_noting]
  exact List.append_nil _

theorem Session.content_congr {fault : Files.Fault → Fault}
    (h : Files.read s.tree s.current path = Files.read t.tree t.current path) :
    s.content fault path = t.content fault path := by
  rw [content, content, h]

theorem Session.manifest_congr
    (h : Files.read s.tree s.current path = Files.read t.tree t.current path) :
    s.manifest path = t.manifest path := by
  rw [manifest, manifest, content_congr h]

theorem Session.settings_congr
    (h : Files.read s.tree s.current path = Files.read t.tree t.current path) :
    s.settings path = t.settings path := by
  rw [settings, settings, content_congr h]

theorem Manifest.exec_read (path : Path) (s : Session) :
    Run.exec (Manifest.read path) s = (s.manifest path, s.noting (.read path)) := by
  refine Run.exec_bind_of_pure (Run.exec_readFile _ path s) fun bytes => ?_
  refine Run.exec_bind_of_pure (Run.exec_orFail _ _ _) fun text => ?_
  refine Run.exec_bind_of_pure (Run.exec_orFail _ _ _) fun document => ?_
  exact Run.exec_orFail _ _ _

theorem Spec.exec_read (path : Path) (s : Session) :
    Run.exec (Spec.read path) s = (s.spec path, s.noting (.read path)) := by
  refine Run.exec_bind_of_pure (Run.exec_readFile _ path s) fun bytes => ?_
  refine Run.exec_bind_of_pure (Run.exec_orFail _ _ _) fun text => ?_
  exact Run.exec_orFail _ _ _

theorem Defaults.exec_fragments (folder : Path) (s : Session) :
    Run.exec (Defaults.fragments folder) s = (s.fragments folder, s) := by
  rw [Defaults.fragments, Run.exec_bind_of_ok (Run.exec_get s)]
  refine Run.exec_bind_of_pure (Run.exec_orFail _ _ _) fun entries => ?_
  refine Run.exec_bind_of_pure (Run.exec_orFail _ _ _) fun names => ?_
  rfl

/-- A manifest that is signalled and then read. -/
theorem Run.exec_watchManifest (path : Path) (s : Session) :
    Run.exec (Run.watchManifest path) s = (s.manifest path, s.opening path) := by
  rw [Run.watchManifest, Run.exec_bind_of_ok (Run.exec_watchFile path s), Manifest.exec_read]
  rfl

/-- A fragment that is signalled and then read. -/
theorem Defaults.exec_readFragment (fragment : Path) (s : Session) :
    Run.exec (Defaults.readFragment fragment) s =
      (s.settings fragment, s.opening fragment) := by
  rw [Defaults.readFragment, Run.exec_bind_of_ok (Run.exec_watchFile fragment s)]
  refine Run.exec_bind_of_pure (Run.exec_readFile _ fragment _) fun bytes => ?_
  refine Run.exec_bind_of_pure (Run.exec_orFail _ _ _) fun text => ?_
  exact Run.exec_orFail _ _ _

theorem Run.exec_requireArch (manifest : Manifest) (arch : Arch) (s : Session) :
    Run.exec (Run.requireArch manifest arch) s =
      (if manifest.supports arch then .ok ⟨⟩
        else .error (.unsupportedArch arch (manifest.arches.getD [])), s) := by
  rw [Run.requireArch, Manifest.supports]
  cases manifest.arches with
  | none => rfl
  | some supported =>
    by_cases hmem : supported.contains arch = true
    · simp only [hmem, ↓reduceIte]
      rfl
    · simp only [hmem]
      rfl

theorem Image.exec_checked (image : Image) (s : Session) :
    Run.exec image.checked s =
      (if Files.isFile s.tree s.current (image.root.child Image.recipeName) then .ok image
        else .error (Run.notFound s (image.root.child Image.recipeName)
          (.image (.noRecipe image.root))), s) := by
  rw [Image.checked, Run.exec_bind_of_ok (Run.exec_get s)]
  dsimp only
  split <;> rfl

end BuildHook
