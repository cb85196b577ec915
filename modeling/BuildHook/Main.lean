import BuildHook.CommandLine

/-!
# The program

Runs a command line on the files whose paths come on standard input, one a line. Files that the
build writes are written to disk. The program has no network and starts no commands itself.
-/

namespace BuildHook.Program

/-- The location of a path, seen from the current folder. -/
def locationOf (current : Location) (text : String) : Location :=
  let p := Path.ofString text
  Files.lexical (Files.start current p) p.steps

def addFolder (t : Tree) (location : Location) : Tree :=
  (List.range location.length).foldl (fun t n => t.put (location.take (n + 1)) .folder) t

def addFile (t : Tree) (location : Location) (content : List UInt8) : Tree :=
  (addFolder t location.dropLast).put location (.file content)

partial def readLines (input : IO.FS.Stream) : IO (List String) := do
  let line ← input.getLine
  if line.isEmpty then return []
  else return Text.strip line :: (← readLines input)

/-- The session at the start: the given files and the folder that the program runs in. -/
def startSession (current : Location) (paths : List String) : IO Session := do
  let mut tree := addFolder .empty current
  for path in paths do
    unless path.isEmpty do
      let content ← IO.FS.readBinFile path
      tree := addFile tree (locationOf current path) content.toList
  return {
    tree := tree
    current := current
    replies := []
    outcomes := []
    lastOutcome := .notStarted "commands are not started here"
    journal := [] }

def applyChanges (changes : List (String × Option Node)) : IO Unit := do
  for (path, node) in changes do
    match node with
    | some .folder => IO.FS.createDirAll path
    | some (.file content) => IO.FS.writeBinFile path ⟨content.toArray⟩
    | some (.link _) => pure ()
    | none => IO.FS.removeFile path

/-- The values of the environment variables that hold settings. -/
def readEnvironment : IO (List (String × String)) := do
  let mut found := []
  for setting in Setting.ofKind .package ++ Setting.ofKind .variant do
    if let some value := ← IO.getEnv setting.envName then
      found := (setting.envName, value) :: found
  return found

def run (args : List String) : IO UInt32 := do
  let current := locationOf [] (toString (← IO.currentDir))
  let environment ← readEnvironment
  let session ← startSession current (← readLines (← IO.getStdin))
  let (ending, after) := (CommandLine.run args fun name => environment.lookup name).run session
  for notice in after.journal.filterMap Event.notice? do
    IO.print notice.written
  applyChanges (Tree.changes session.tree after.tree current)
  match ending.fault with
  | some fault => unless fault.isReported do IO.eprintln fault.message
  | none => pure ()
  IO.eprint ending.errors
  return UInt32.ofNat ending.code

end BuildHook.Program

def main (args : List String) : IO UInt32 :=
  BuildHook.Program.run args
