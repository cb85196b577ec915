import BuildHook.ExternalFile
import BuildHook.Session

/-!
# Fetching external files

An external file is taken from a cache beside the project or from its own address. It is stored in
place of what stood there only after its digest has been checked.
-/

namespace BuildHook

/-- Whether a content has the digest that is expected of it, in any case and with white space around
it. -/
def hasDigest (content : List UInt8) (expected : String) : Bool :=
  Sha512.ofContent content = Text.lower (Text.strip expected)

structure Lookaside where
  /-- The version of the project, which the agent's name tells. -/
  version : String
  /-- The address of the cache. -/
  base : String
  /-- Whether a file that the cache does not give is fetched from its own address. -/
  fallback : Bool
  /-- The folder of the package. -/
  folder : Path
  deriving Repr

namespace Lookaside

def agent (l : Lookaside) : String :=
  "vfbuild/" ++ l.version

def downloadFault (url : String) (cause : DownloadFault) : Fault :=
  .fetch (.download url cause)

def download (l : Lookaside) (url : String) (goal : Path) (sha512 : String) : Run Unit := do
  Run.note (.request url l.agent)
  match (← get).reply url with
  | .unreachable reason | .refused reason => throw (downloadFault url (.network reason))
  | .content pieces broken =>
    let disk := fun fault => downloadFault url (.disk fault)
    Run.makeFolders disk goal.parent
    let content := pieces.flatten
    -- a content that breaks off is written as far as it came
    Run.change (Run.reporting disk) fun t current => Files.write t current goal content
    match broken with
    | some reason => throw (downloadFault url (.network reason))
    | none =>
      unless hasDigest content sha512 do
        throw (downloadFault url .mismatch)

def obtain (l : Lookaside) (f : ExternalFile) (name : String) (goal : Path) : Run Unit :=
  if f.direct then l.download f.url goal f.sha512
  else
    tryCatch (l.download (f.cacheUrl l.base name) goal f.sha512) fun fault =>
      match fault with
      | .fetch cause =>
        if l.fallback then l.download f.url goal f.sha512 else throw (.fetch cause)
      | fault => throw fault

/-- Runs a computation and then removes a file, whether the computation failed or not. -/
def removing (temporary : Path) (run : Run Unit) : Run Unit := do
  let result ← tryCatch (Except.ok <$> run) fun fault => pure (Except.error fault)
  Run.change Fault.files fun t current => Files.removeIfThere t current temporary
  Run.orFail id result

/-- Fetches the file of a name to its target through a temporary file beside it. -/
def store (l : Lookaside) (f : ExternalFile) (name : String) (target : Path) : Run Unit :=
  let temporary := target.withName ("." ++ name)
  removing temporary do
    l.obtain f name temporary
    Run.change (Run.reporting fun fault => .fetch (.unstored target fault)) fun t current =>
      Files.rename t current temporary target

def isPresent (f : ExternalFile) (target : Path) : Run Bool := do
  let s ← get
  if Files.isFile s.tree s.current target then
    let content ← Run.readFile Fault.files target
    return hasDigest content f.sha512
  else
    Run.orFail Fault.files (Files.look s.tree s.current target)
    return false

def fetchOne (l : Lookaside) (f : ExternalFile) : Run Unit := do
  let name ← Run.orFail Fault.url f.localName
  if name = "" then
    throw (.fetch (.nameless f.url))
  let target := f.target l.folder name
  Run.watchFile target
  unless ← isPresent f target do
    l.store f name target

def fetch (l : Lookaside) (files : List ExternalFile) : Run Unit :=
  files.forM l.fetchOne

end Lookaside

end BuildHook
