import BuildHook.Session
import BuildHook.Toml.Document
import BuildHook.Toml.Printer

/-!
# Default settings

A variant keeps its default settings in fragments, the TOML files of one folder. They are merged in
the order of their names, and the result is written as one document.
-/

namespace BuildHook.Defaults

def fragmentEnding : String := ".toml"

def isFragmentName (name : String) : Bool :=
  fragmentEnding.toList.isSuffixOf name.toList

/-- The path of an entry as the listing of its folder gives it. -/
def entryText (folder : Path) (name : String) : String :=
  let text := folder.text
  if text.toList.getLast? = some '/' then text ++ name else text ++ "/" ++ name

/-- Whether an entry of a folder is a fragment: a file, links followed. A link that leads nowhere is
a fault. -/
def isFragment (t : Tree) (current : Location) (folder : Path) :
    String × Node → Except DefaultsFault Bool
  | (_, .file _) => .ok true
  | (_, .folder) => .ok false
  | (name, .link _) =>
    match Files.find t current (folder.child name) with
    | .ok (.node _ (.file _)) => .ok true
    | .ok (.node _ _) => .ok false
    | .ok (.vacant _ _) | .error .absent => .error (.brokenLink folder name)
    | .error obstacle =>
      .error (.unlistable folder (.refused obstacle (entryText folder name) none))

/-- The names of the fragments among the entries of a folder, in the order of the entries. -/
def fragmentNames (t : Tree) (current : Location) (folder : Path)
    (entries : List (String × Node)) : Except DefaultsFault (List String) :=
  ((entries.filter fun entry => isFragmentName entry.1).filterM (isFragment t current folder)).map
    fun found => found.map Prod.fst

/-- The fragments in a folder, sorted by name. -/
def fragments (folder : Path) : Run (List Path) := do
  let s ← get
  let entries ← Run.orFail
    (Run.reporting fun fault => .defaults (.unlistable folder fault))
    (Files.list s.tree s.current folder)
  let names ← Run.orFail Fault.defaults (fragmentNames s.tree s.current folder entries)
  return (Text.sorted names).map folder.child

def readFragment (fragment : Path) : Run Toml.Table := do
  Run.watchFile fragment
  let bytes ← Run.readFile (fun fault => .defaults (.unreadable fragment fault)) fragment
  let text ← Run.orFail Fault.undecodable (Utf8.decode bytes)
  Run.orFail (Fault.ofRefusal (.defaults (.malformed fragment)))
    (Toml.parse (Text.foldReturns text))

/-- The name of the file that the merged settings are written to. -/
def outputName : String := "defaults.toml"

/-- The file that the merged settings are written to, seen from the root of the project. -/
def outputOf (root : Path) : Path :=
  root.child ("build/tools/" ++ outputName)

/-- The name of the `n`th temporary file. -/
def temporaryName (n : Nat) : String :=
  outputName ++ "." ++ toString n ++ ".tmp"

/-- A name for a temporary file that nothing in the tree has. -/
def freeName (t : Tree) : String :=
  let taken := t.entries.filterMap fun entry => entry.1.getLast?
  ((List.range (taken.length + 1)).map temporaryName).find? (fun name => !taken.contains name)
    |>.getD (temporaryName taken.length)

/-- Puts a text in the place of a file in one step: it is written to a temporary file beside it,
which then takes the file's name. -/
def replaceFile (output : Path) (content : List UInt8) : Run Unit := do
  let fault := Run.reporting fun fault => .defaults (.unwritable output fault)
  Run.makeFolders (fun fault => .defaults (.unwritable output fault)) output.parent
  let s ← get
  -- the temporary file's folder is found by name alone, `..` steps included
  let folder := Files.normal s.current output.parent
  let temporary := folder.child (freeName s.tree)
  Run.change fault fun t current => Files.write t current temporary content
  try
    Run.change fault fun t current => Files.rename t current temporary output
  catch e =>
    Run.change Fault.files fun t current => Files.removeIfThere t current temporary
    throw e

def aggregate (folder root : Path) : Run Path := do
  let tables ← (← fragments folder).mapM readFragment
  let content ← Run.orFail (fun fault => .defaults (.unserialisable fault))
    (Toml.serialise (Toml.mergeAll tables))
  let output := outputOf root
  replaceFile output (Utf8.encode content)
  return output

def generate (folder : Option Path) (root : Path) : Run (Option Path) :=
  match folder with
  | none => return none
  | some folder => some <$> aggregate folder root

end BuildHook.Defaults
