import BuildHook.Shell.Word
import BuildHook.Url

/-!
# External files

A file that a package needs from elsewhere, with the digest that it has to have. It is stored under
the last step of its declared path, or else under the last segment of its address.
-/

namespace BuildHook

/-- A kind of modules that an external archive can be bundled with. -/
inductive ModuleKind where
  | go
  deriving DecidableEq, Repr

def ModuleKind.ofName? (name : String) : Option ModuleKind :=
  if name = "go" then some .go else none

def ModuleKind.name : ModuleKind → String
  | .go => "go"

structure ExternalFile where
  url : String
  sha512 : String
  path : Option Path
  /-- Whether the file is always taken from its own address. -/
  direct : Bool
  modules : Option (List ModuleKind)
  bundleRoot : Option Path
  bundleOutput : Option Path
  deriving DecidableEq, Repr

namespace ExternalFile

/-- The name under which the file is stored; empty if there is none. -/
def localName (f : ExternalFile) : Except UrlFault String :=
  match f.path with
  | some path => .ok path.name
  | none => (Url.parse f.url).map Url.fileName

/-- Where the file is stored, given its name. -/
def target (f : ExternalFile) (folder : Path) (name : String) : Path :=
  match f.path with
  | some path => folder.join path
  | none => folder.child name

def archiveEndings : List String :=
  [".tar.gz", ".tgz", ".tar.xz", ".tar"]

def dropArchiveEnding (name : String) : String :=
  let cs := name.toList
  match archiveEndings.find? fun ending => ending.toList.isSuffixOf cs with
  | some ending => String.ofList (cs.take (cs.length - ending.length))
  | none => name

def rootText (f : ExternalFile) (archive : String) : String :=
  match f.bundleRoot with
  | some path => path.text
  | none => dropArchiveEnding archive

/-- The archive that the modules of an archive are packed into. -/
def outputText (f : ExternalFile) (archive : String) : String :=
  match f.bundleOutput with
  | some path => path.text
  | none => "bundled-" ++ archive

/-- The commands that unpack the archive of a name, collect its modules and pack them, one a line.
-/
def bundleLines (f : ExternalFile) (archive : String) : List String :=
  let root := f.rootText archive
  [ "set -euo pipefail",
    "tar -xf " ++ Shell.quote archive,
    "pushd " ++ Shell.quote root ++ " >/dev/null",
    "go mod vendor",
    "popd >/dev/null",
    "tar -czf " ++ Shell.quote (f.outputText archive) ++ " " ++ Shell.quote (root ++ "/vendor"),
    "rm -rf " ++ Shell.quote root ]

def bundleScript (f : ExternalFile) : Except UrlFault String :=
  f.localName.map fun archive => String.intercalate "\n" (f.bundleLines archive)

def trimSlashes (base : String) : String :=
  String.ofList (base.toList.reverse.dropWhile (· = '/')).reverse

/-- The address in a cache with a given base, under which a file of a name is kept. -/
def cacheUrl (f : ExternalFile) (base name : String) : String :=
  trimSlashes base ++ "/" ++ name ++ "/" ++ f.sha512 ++ "/" ++ name

end ExternalFile

end BuildHook
