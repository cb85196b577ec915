import BuildHook.Files.Walk
import BuildHook.Text.Glob
import BuildHook.Text.Order

/-!
# Source groups

A source group is a folder with sources of the project. Every file below it counts, unless its name
or that of a folder on the way to it matches one of the patterns of ignored names. Linked folders
are left alone.
-/

namespace BuildHook.SourceGroup

/-- The patterns of names that are ignored unless others are given. -/
def defaultPatterns : List String :=
  [".*", "target", "__pycache__"]

def isIgnored (patterns : List String) (name : String) : Bool :=
  patterns.any fun pattern => Glob.accepts pattern name

/-- Whether an entry of a folder counts as a folder: it is one or a link to one. -/
def isFolderEntry (t : Tree) (current : Location) (folder : Path) : String × Node → Bool
  | (_, .folder) => true
  | (_, .file _) => false
  | (name, .link _) => Files.isFolder t current (folder.child name)

/-- The files below a folder at most `depth` levels down: first its own in the order of their names,
then those of each of its folders, in the order of theirs. -/
def filesBelow (t : Tree) (current : Location) (patterns : List String) :
    (depth : Nat) → (location : Location) → (folder : Path) → List Path
  | 0, _, _ => []
  | depth + 1, location, folder =>
    let kept := (t.children location).filter fun entry => !isIgnored patterns entry.1
    let files := (kept.filter fun entry => !isFolderEntry t current folder entry).map Prod.fst
    let folders := (kept.filter fun entry => decide (entry.2 = .folder)).map Prod.fst
    (Text.sorted files).map folder.child ++
      (Text.sorted folders).flatMap fun name =>
        filesBelow t current patterns depth (location ++ [name]) (folder.child name)

def depthOf (t : Tree) : Nat :=
  (t.entries.map fun entry => entry.1.length).foldl max 0

/-- The files of one group, or the group itself if it is no folder. -/
def files (t : Tree) (current : Location) (patterns : List String) (group : Path) :
    Except Path (List Path) :=
  if Files.isBarred group then .error group
  else
    match Files.find t current group with
    | .ok (.node location .folder) =>
      .ok (filesBelow t current patterns (depthOf t + 1) location group)
    | _ => .error group

/-- The files of groups one after the other, or the first group that is no folder. -/
def crawl (t : Tree) (current : Location) (patterns : List String) (groups : List Path) :
    Except Path (List Path) :=
  (groups.mapM (files t current patterns)).map List.flatten

end BuildHook.SourceGroup
