import BuildHook.Session
import BuildHook.Text.Digit

/-!
# Spec files

A spec file names the sources and patches of a package in tags, one on a line. Each stands next to
the spec file under the last step of the path that the tag gives.
-/

namespace BuildHook

structure Spec where
  sources : List Path
  patches : List Path
  deriving DecidableEq, Repr

namespace Spec

/-- Whether a character stands for a letter of a tag's name, in either case. The long s is a further
form of the letter s. -/
def isLetter (letter c : Char) : Bool :=
  c.toLower = letter || (letter = 's' && c = 'ſ')

/-- What follows a word, given in small letters, at the front of a line. -/
def afterWord? : (word line : List Char) → Option (List Char)
  | [], line => some line
  | _ :: _, [] => none
  | letter :: word, c :: line => if isLetter letter c then afterWord? word line else none

def sourceWord : List Char := ['s', 'o', 'u', 'r', 'c', 'e']

def patchWord : List Char := ['p', 'a', 't', 'c', 'h']

def afterTagWord? (line : List Char) : Option (List Char) :=
  (afterWord? sourceWord line).or (afterWord? patchWord line)

/-- The value behind the word of a tag: a number may follow the word, then a colon, and then the
value with white space around it. -/
def valueAfter? (rest : List Char) : Option (List Char) :=
  match (rest.dropWhile Text.isDecimalDigit).dropWhile Text.isBlank with
  | ':' :: value =>
    let value := Text.trim value
    if value.isEmpty then none else some value
  | _ => none

/-- A tag: whether it is for sources, and its value. Only the plain spelling of the word counts as
the one for sources. -/
structure Tag where
  isSource : Bool
  value : String
  deriving DecidableEq, Repr

def tag? (line : List Char) : Option Tag := do
  let rest ← afterTagWord? line
  let value ← valueAfter? rest
  let word := line.take (line.length - rest.length)
  return ⟨decide (word.map Char.toLower = sourceWord), String.ofList value⟩

def fileName (value : String) : Except UrlFault String := do
  let url ← Url.parse value
  return if url.scheme ≠ "" && url.location ≠ "" then url.fileName else (Path.ofString value).name

def add (spec : Spec) (isSource : Bool) (path : Path) : Spec :=
  if isSource then { spec with sources := spec.sources ++ [path] }
  else { spec with patches := spec.patches ++ [path] }

/-- Takes the tag of a line, if there is one. -/
def addLine (path : Path) (spec : Spec) (line : List Char × Nat) : Except Fault Spec :=
  match tag? line.1 with
  | none => .ok spec
  | some tag =>
    match fileName tag.value with
    | .error fault => .error (.url fault)
    | .ok name =>
      if name = "" then .error (.spec path (.nameless line.2 (String.ofList line.1)))
      else .ok (spec.add tag.isSource (path.parent.child name))

/-- The files that the text of the spec file at a path refers to. -/
def ofText (path : Path) (text : List Char) : Except Fault Spec :=
  ((Text.lines (Text.foldReturns text)).zipIdx 1).foldlM (addLine path) ⟨[], []⟩

def read (path : Path) : Run Spec := do
  let bytes ← Run.readFile (fun fault => .spec path (.unreadable fault)) path
  let text ← Run.orFail (fun fault => .spec path (.undecodable fault)) (Utf8.decode bytes)
  Run.orFail id (ofText path text)

end Spec

end BuildHook
