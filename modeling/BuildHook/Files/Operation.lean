import BuildHook.Files.Fault

/-!
# File operations

Reading, writing, renaming and removing files, and making folders. Each operation takes a tree and
the current folder, and gives the changed tree or says why it is refused.
-/

namespace BuildHook.Files

def read (t : Tree) (current : Location) (p : Path) : Except Fault (List UInt8) :=
  if isBarred p then .error (barrier p none)
  else
    match find t current p with
    | .ok (.node _ (.file content)) => .ok content
    | .ok (.node _ _) => .error (refusal p .folder)
    | .ok (.vacant _ _) => .error (refusal p .absent)
    | .error obstacle => .error (refusal p obstacle)

/-- Gives a file its content. A file that is missing is made where the path leads to. -/
def write (t : Tree) (current : Location) (p : Path) (content : List UInt8) : Except Fault Tree :=
  if isBarred p then .error (barrier p none)
  else
    match findToMake t current p with
    | .ok (.node location (.file _)) => .ok (t.put location (.file content))
    | .ok (.node _ _) => .error (refusal p .folder)
    | .ok (.vacant folder name) => .ok (t.put (folder ++ [name]) (.file content))
    | .error obstacle => .error (refusal p obstacle)

def makeFolder (t : Tree) (current : Location) (p : Path) : Except Fault Tree :=
  if isBarred p then .error (barrier p none)
  else
    match holder t current p with
    | .error obstacle => .error (refusal p obstacle)
    | .ok folder =>
      match lastName p with
      | none => .error (refusal p .occupied)
      | some name =>
        if (t.get? (folder ++ [name])).isSome then .error (refusal p .occupied)
        else if unfound name = .absent then .ok (t.put (folder ++ [name]) .folder)
        else .error (refusal p (unfound name))

/-- What a refusal to make a folder means where the folder may be there already. -/
def unlessFolder (t : Tree) (current : Location) (p : Path) (fault : Fault) : Except Fault Unit :=
  if fault.isRefusal && isFolder t current p then .ok () else .error fault

/-- Makes a folder and at most `levels` above it, as far as they are missing. What has been made
stays there when a later step is refused. -/
def makeLevels (t : Tree) (current : Location) : (levels : Nat) → Path →
    Tree × Except Fault Unit
  | 0, p =>
    match makeFolder t current p with
    | .ok t => (t, .ok ())
    | .error (.refused .absent path second) => (t, .error (.refused .absent path second))
    | .error fault => (t, unlessFolder t current p fault)
  | levels + 1, p =>
    match makeFolder t current p with
    | .ok t => (t, .ok ())
    | .error (.refused .absent _ _) =>
      match makeLevels t current levels p.parent with
      | (t, .error fault) => (t, .error fault)
      | (t, .ok ()) =>
        match makeFolder t current p with
        | .ok t => (t, .ok ())
        | .error (.refused .absent path second) => (t, .error (.refused .absent path second))
        | .error fault => (t, unlessFolder t current p fault)
    | .error fault => (t, unlessFolder t current p fault)

def makeFolders (t : Tree) (current : Location) (p : Path) : Tree × Except Fault Unit :=
  makeLevels t current p.steps.length p

/-- Gives a file or link the place that another path names, whatever but a folder stands there. -/
def rename (t : Tree) (current : Location) (source target : Path) : Except Fault Tree :=
  let refuse := fun obstacle => Fault.refused obstacle source.text (some target.text)
  if isBarred source || isBarred target then .error (barrier source (some target))
  else
    match holder t current source with
    | .error obstacle => .error (refuse obstacle)
    | .ok sourceFolder =>
      match holder t current target with
      | .error obstacle => .error (refuse obstacle)
      | .ok targetFolder =>
        match lastName source, lastName target with
        | some sourceName, some targetName =>
          let origin := sourceFolder ++ [sourceName]
          let goal := targetFolder ++ [targetName]
          match t.get? origin with
          | none => .error (refuse (unfound sourceName))
          | some node =>
            match t.get? goal with
            | none =>
              if unfound targetName = .absent then .ok ((t.erase origin).put goal node)
              else .error (refuse (unfound targetName))
            | some .folder => .error (refuse .folder)
            | some _ => .ok ((t.erase origin).put goal node)
        | _, _ => .error (refuse .busy)

def remove (t : Tree) (current : Location) (p : Path) : Except Fault Tree :=
  if isBarred p then .error (barrier p none)
  else
    match holder t current p with
    | .error obstacle => .error (refusal p obstacle)
    | .ok folder =>
      match lastName p with
      | none => .error (refusal p .folder)
      | some name =>
        match t.get? (folder ++ [name]) with
        | none => .error (refusal p (unfound name))
        | some .folder => .error (refusal p .folder)
        | some _ => .ok (t.erase (folder ++ [name]))

def removeIfThere (t : Tree) (current : Location) (p : Path) : Except Fault Tree :=
  match remove t current p with
  | .error (.refused .absent _ _) => .ok t
  | result => result

/-- The entries of a folder in the order in which it lists them. -/
def list (t : Tree) (current : Location) (p : Path) : Except Fault (List (String × Node)) :=
  if isBarred p then .error (barrier p none)
  else
    match find t current p with
    | .ok (.node location .folder) => .ok (t.children location)
    | .ok (.node _ _) => .error (refusal p .notFolder)
    | .ok (.vacant _ _) => .error (refusal p .absent)
    | .error obstacle => .error (refusal p obstacle)

/-- The path of a file with all links resolved. A path that runs into a cycle of links has none. -/
def resolve (t : Tree) (current : Location) (p : Path) : Except Fault Path :=
  if p.hasZero then .error .zero
  else
    let real := realPath t current p
    if isBarred real then .ok real
    else
      match find t current real with
      | .error .endless => .error (.cycle real.text)
      | _ => .ok real

/-- Looks whether anything stands at a path, which is refused only for what is too long. -/
def look (t : Tree) (current : Location) (p : Path) : Except Fault Unit :=
  if p.hasZero then .ok ()
  else if isBarred p then .error (refusal p .tooLong)
  else
    match find t current p with
    | .error .tooLong => .error (refusal p .tooLong)
    | _ => .ok ()

end BuildHook.Files
