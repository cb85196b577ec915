import BuildHook.Digest
import BuildHook.Fault
import BuildHook.Files.Operation
import BuildHook.Signal

/-!
# Sessions

A session holds all that a build acts on: the file tree, the replies of the network, the outcomes of
commands, and a journal of what the build did. A run is a computation on a session that may fail;
what it did before a fault stays done.
-/

namespace BuildHook

inductive Reply where
  /-- No connection comes about. -/
  | unreachable (reason : String)
  /-- The reply is an error. -/
  | refused (reason : String)
  /-- The content comes in pieces; `broken` says why it breaks off after the last one. -/
  | content (pieces : List (List UInt8)) (broken : Option String)
  deriving DecidableEq, Repr

inductive Outcome where
  /-- The command ends with a code and has written these octets. -/
  | exited (code : Int) (output errors : List UInt8)
  | notStarted (reason : String)
  deriving DecidableEq, Repr

inductive Event where
  /-- The build says something to the build around it. -/
  | notice (notice : Notice)
  /-- The content of an input file is about to be read. -/
  | read (path : Path)
  /-- A reply is requested, by an agent of a given name. -/
  | request (url agent : String)
  /-- A command is started, in a given folder or in the current one. -/
  | command (argv : List String) (folder : Option String)
  deriving DecidableEq, Repr

namespace Event

def notice? : Event → Option Notice
  | .notice n => some n
  | _ => none

def signal? : Event → Option Signal
  | .notice n => n.signal?
  | _ => none

/-- The request of an event: the address and the agent. -/
def request? : Event → Option (String × String)
  | .request url agent => some (url, agent)
  | _ => none

/-- The command of an event: its words and its folder. -/
def command? : Event → Option (List String × Option String)
  | .command argv folder => some (argv, folder)
  | _ => none

end Event

/-- All that a build acts on. Addresses without a reply lead nowhere. The outcomes belong to the
commands in the order in which they are started; `lastOutcome` is that of all further ones. -/
structure Session where
  tree : Tree
  current : Location
  replies : List (String × Reply)
  outcomes : List Outcome
  lastOutcome : Outcome
  journal : List Event

namespace Session

def signals (s : Session) : List Signal :=
  s.journal.filterMap Event.signal?

def watchedFiles (s : Session) : List Path :=
  s.signals.filterMap Signal.path?

def watchedEnvs (s : Session) : List String :=
  s.signals.filterMap Signal.envName?

def reply (s : Session) (url : String) : Reply :=
  match s.replies.find? fun entry => entry.1 = url with
  | some (_, reply) => reply
  | none => .unreachable "no route"

/-- The outcome of the next command. -/
def nextOutcome (s : Session) : Outcome :=
  s.outcomes.headD s.lastOutcome

end Session

abbrev Run := ExceptT Fault (StateM Session)

namespace Run

def note (event : Event) : Run Unit :=
  modify fun s => { s with journal := s.journal ++ [event] }

def watchFile (path : Path) : Run Unit :=
  note (.notice (.signal (.file path)))

def watchEnv (name : String) : Run Unit :=
  note (.notice (.signal (.env name)))

def warn (message : String) : Run Unit :=
  note (.notice (.warning message))

/-- Signals the files that are not signalled yet, each once. -/
def watchNewFiles (paths : List Path) : Run Unit :=
  paths.forM fun path => do
    unless (← get).watchedFiles.contains path do
      watchFile path

/-- Signals the environment variables that are not signalled yet, judged before the first of them.
-/
def watchNewEnvs (names : List String) : Run Unit := do
  let watched := (← get).watchedEnvs
  names.forM fun name => do
    unless watched.contains name do
      watchEnv name

/-- The fault of a step that does not find what it needs at a path: its own, unless the system
refuses to look there. -/
def notFound (s : Session) (path : Path) (fault : Fault) : Fault :=
  match Files.look s.tree s.current path with
  | .ok () => fault
  | .error cause => .files cause

/-- Fails with a fault made of the cause of a refused operation. -/
def orFail {ε α : Type} (fault : ε → Fault) : Except ε α → Run α
  | .ok a => pure a
  | .error e => throw (fault e)

def change (fault : Files.Fault → Fault)
    (operation : Tree → Location → Except Files.Fault Tree) : Run Unit := do
  let s ← get
  let tree ← orFail fault (operation s.tree s.current)
  set { s with tree := tree }

/-- A fault that a step of the build reports if the operating system refuses an operation; a path
that is refused before stays a fault of the file system. -/
def reporting (report : Files.Fault → Fault) (fault : Files.Fault) : Fault :=
  if fault.isRefusal then report fault else .files fault

def readFile (fault : Files.Fault → Fault) (path : Path) : Run (List UInt8) := do
  note (.read path)
  let s ← get
  orFail (reporting fault) (Files.read s.tree s.current path)

def makeFolders (fault : Files.Fault → Fault) (path : Path) : Run Unit := do
  let s ← get
  let (tree, result) := Files.makeFolders s.tree s.current path
  set { s with tree := tree }
  orFail (reporting fault) result

/-- Fails for values that are to be written if one of them has too many digits. -/
def requireTexts (values : List Toml.Value) : Run Unit :=
  if values.any Toml.Value.isOverlong then throw (.digits .write) else pure ()

def hasZero (word : String) : Bool :=
  word.toList.contains (Char.ofNat 0)

/-- What becomes of a command that is started: its output without the white space around it. All
that it has written is decoded before its code is looked at. -/
def verdict (fault : CommandFault → Fault) (argv : List String) : Outcome → Except Fault String
  | .notStarted reason => .error (fault (.notStarted (argv.headD "") reason))
  | .exited code output errors => do
    let text ← (Utf8.decode output).mapError Fault.undecodable
    let _ ← (Utf8.decode errors).mapError Fault.undecodable
    if code = 0 then .ok (String.ofList (Text.trim (Text.foldReturns text)))
    else .error (fault (.failed argv code))

/-- Runs a command and gives its output. A command is not started if a word of it or its folder
holds a zero character, which would end it. -/
def command (fault : CommandFault → Fault) (argv : List String) (folder : Option String) :
    Run String := do
  if (argv ++ folder.toList).any hasZero then
    throw .word
  note (.command argv folder)
  let s ← get
  set { s with outcomes := s.outcomes.tail }
  orFail id (verdict fault argv s.nextOutcome)

end Run

end BuildHook
