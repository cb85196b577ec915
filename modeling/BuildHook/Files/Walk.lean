import BuildHook.Files.Tree
import BuildHook.Path

/-!
# From paths to locations

A path is walked step by step from where it starts. A link on the way is replaced by the path that
it holds, at most `linkLimit` times in one walk.
-/

namespace BuildHook.Files

inductive Obstacle where
  /-- A step is missing. -/
  | absent
  /-- The last step is not a name that could be replaced. -/
  | busy
  /-- Something stands there already. -/
  | occupied
  /-- A step that others follow is no folder. -/
  | notFolder
  /-- A folder stands where a file is needed. -/
  | folder
  /-- A path, or a name that is looked up, is too long. -/
  | tooLong
  /-- The walk meets more links than are followed. -/
  | endless
  deriving DecidableEq, Repr

inductive Place where
  /-- Something stands there. -/
  | node (location : Location) (node : Node)
  /-- Nothing of that name stands in a folder that exists. -/
  | vacant (folder : Location) (name : String)
  deriving DecidableEq, Repr

def linkLimit : Nat := 40

/-- The greatest length in octets of a name in a folder. -/
def nameLimit : Nat := 255

/-- The obstacle of a name that a folder does not have. -/
def unfound (name : String) : Obstacle :=
  if nameLimit < name.utf8ByteSize then .tooLong else .absent

/-- The length in octets from which on nothing is found under a path. -/
def pathLimit : Nat := 4096

/-- Whether a path stands for nothing in any operation: it is too long, or holds a zero character.
-/
def isBarred (p : Path) : Bool :=
  p.hasZero || pathLimit ≤ p.text.utf8ByteSize

/-- The steps that a link leads through. Empty ones stay where they are, but one at the end asks for
a folder. -/
def linkSteps (target : String) : List String :=
  (Text.pieces '/' target.toList).map String.ofList

def isStay (step : String) : Bool :=
  step = "." || step = ""

def isAnchored (target : String) : Bool :=
  target.toList.head? = some '/'

/-- How the first part of a walk ends, up to a link that has to be followed. -/
inductive Leg where
  | arrived (place : Place)
  | blocked (obstacle : Obstacle)
  /-- In this folder a link with this target stands in the way, and these steps come after it. -/
  | link (folder : Location) (target : String) (rest : List String)
  deriving DecidableEq, Repr

/-- Walks from a folder up to the first link. `making` says that a file may be made at the end: then
a slash behind the last name is refused, whatever stands there. -/
def leg (t : Tree) (making : Bool) (folder : Location) : (steps : List String) → Leg
  | [] => .arrived (.node folder .folder)
  | step :: rest =>
    if isStay step then leg t making folder rest
    else if step = ".." then leg t making folder.dropLast rest
    else if making && !rest.isEmpty && rest.all (· = "") then .blocked .folder
    else
      let location := folder ++ [step]
      match t.get? location with
      | none =>
        if rest = [] && unfound step = .absent then .arrived (.vacant folder step)
        else .blocked (unfound step)
      | some .folder => leg t making location rest
      | some (.file content) =>
        if rest = [] then .arrived (.node location (.file content)) else .blocked .notFolder
      | some (.link target) => .link folder target rest

def linkBase (folder : Location) (target : String) : Location :=
  if isAnchored target then [] else folder

/-- Walks from a folder and follows at most `links` links on the way. -/
def walk (t : Tree) (making : Bool) : (links : Nat) → (folder : Location) → (steps : List String) →
    Except Obstacle Place
  | 0, folder, steps =>
    match leg t making folder steps with
    | .arrived place => .ok place
    | .blocked obstacle => .error obstacle
    | .link _ _ _ => .error .endless
  | links + 1, folder, steps =>
    match leg t making folder steps with
    | .arrived place => .ok place
    | .blocked obstacle => .error obstacle
    | .link folder target rest =>
      walk t making links (linkBase folder target) (linkSteps target ++ rest)

/-- The folder where a path starts, seen from the current one. -/
def start (current : Location) (p : Path) : Location :=
  match p.anchor with
  | .relative => current
  | _ => []

/-- Where a path leads, all links followed. -/
def find (t : Tree) (current : Location) (p : Path) : Except Obstacle Place :=
  walk t false linkLimit (start current p) p.steps

/-- Where a path leads at which a file may be made, all links followed. -/
def findToMake (t : Tree) (current : Location) (p : Path) : Except Obstacle Place :=
  walk t true linkLimit (start current p) p.steps

def isFile (t : Tree) (current : Location) (p : Path) : Bool :=
  !isBarred p &&
    match find t current p with
    | .ok (.node _ (.file _)) => true
    | _ => false

def isFolder (t : Tree) (current : Location) (p : Path) : Bool :=
  !isBarred p &&
    match find t current p with
    | .ok (.node _ .folder) => true
    | _ => false

/-- The folder in which the last step of a path is looked up. -/
def holder (t : Tree) (current : Location) (p : Path) : Except Obstacle Location :=
  match walk t false linkLimit (start current p) p.steps.dropLast with
  | .ok (.node location .folder) => .ok location
  | .ok (.node _ _) => .error .notFolder
  | .ok (.vacant _ _) => .error .absent
  | .error obstacle => .error obstacle

/-- The last step of a path if it is a name; `..` and the end of a path without steps are none. -/
def lastName (p : Path) : Option String :=
  match p.steps.getLast? with
  | some name => if name = ".." then none else some name
  | none => none

/-- A location with further steps, each `..` taking the last one back whatever stands there. -/
def lexical (location : Location) (steps : List String) : Location :=
  steps.foldl (fun place step =>
    if step = ".." then place.dropLast
    else if isStay step then place
    else place ++ [step]) location

def pathOf (location : Location) : Path :=
  ⟨.absolute, location.filter fun s => decide (IsStep s), by simp⟩

/-- The path that names the same place without `..` steps, each taken back by name, from the root of
the file system. -/
def normal (current : Location) (p : Path) : Path :=
  { pathOf (lexical (start current p) p.steps) with
    anchor := if p.anchor = .doubled then .doubled else .absolute }

/-- The path one step up. From a path that starts with nothing but `..` steps it takes one more. -/
def above (p : Path) : Path :=
  if p.anchor = .relative && (p.name = "" || p.name = "..") then p.child ".." else p.parent

/-- The target of the link at the end of a path whose other steps are no links. -/
def linkAt? (t : Tree) (current : Location) (p : Path) : Option String :=
  if pathLimit ≤ p.text.utf8ByteSize then none
  else
    match t.get? (lexical (start current p) p.steps) with
    | some (.link target) => some target
    | _ => none

/-- The links that were met, each with the path that it leads to; a link whose path is still being
resolved has none yet. -/
abbrev Met := List (Path × Option Path)

/-- How resolving links ends. It stops early at a link that leads back to itself. -/
structure Resolution where
  path : Path
  isComplete : Bool
  met : Met

/-- Resolves the links on the steps behind a path without links. `follow` resolves a link that is
met for the first time. -/
def realLeg (t : Tree) (current : Location)
    (follow : Met → (link : Path) → (target : String) → Resolution) :
    Met → (reached : Path) → (steps : List String) → Resolution
  | met, reached, [] => ⟨reached, true, met⟩
  | met, reached, step :: rest =>
    if isStay step then realLeg t current follow met reached rest
    else if step = ".." then realLeg t current follow met (above reached) rest
    else
      let next := reached.child step
      match linkAt? t current next with
      | none => realLeg t current follow met next rest
      | some target =>
        let found : Resolution :=
          match met.lookup next with
          | some (some goal) => ⟨goal, true, met⟩
          | some none => ⟨next, false, met⟩
          | none => follow met next target
        if found.isComplete then realLeg t current follow found.met found.path rest
        else
          -- the rest is a path of its own, which after a second slash starts from the root
          ⟨found.path.join (Path.ofString (String.intercalate "/" rest)), false, found.met⟩

/-- Resolves the links on steps, inside links that lie in each other at most `depth` deep. -/
def realWalk (t : Tree) (current : Location) : (depth : Nat) →
    Met → (reached : Path) → (steps : List String) → Resolution
  | 0 => realLeg t current fun met link _ => ⟨link, true, met⟩
  | depth + 1 => realLeg t current fun met link target =>
    let base := if isAnchored target then pathOf [] else link.parent
    let found := realWalk t current depth ((link, none) :: met) base (linkSteps target)
    if found.isComplete then { found with met := (link, some found.path) :: found.met }
    else found

/-- The path with all links resolved. A link can be met under as many paths as there are numbers of
`..` steps in front of it, which are fewer than the octets of a path. -/
def realPath (t : Tree) (current : Location) (p : Path) : Path :=
  let base := if p.anchor = .relative then Path.here else pathOf []
  normal current (realWalk t current (pathLimit * t.entries.length) [] base p.steps).path

end BuildHook.Files
