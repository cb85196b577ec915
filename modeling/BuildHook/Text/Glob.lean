/-!
# File name patterns

A pattern is matched against a whole name, case by case. `*` stands for any text, `?` for any one
character, and a bracket for one character of a set. A set is written as single characters and
ranges `a-z`, with `!` in front for its complement; a range whose ends are in the wrong order holds
nothing, and a bracket that is never closed stands for itself.
-/

namespace BuildHook.Glob

inductive Part where
  /-- Any text, also none. -/
  | anyText
  /-- Any one character. -/
  | anyChar
  /-- This character. -/
  | char (c : Char)
  /-- One character inside the ranges, or outside all of them if `inside` is false. -/
  | oneOf (inside : Bool) (ranges : List (Char × Char))
  deriving DecidableEq, Repr

/-- What stands between brackets, after ranges without members have been taken out: a character,
or the hyphen of a range. -/
inductive SetToken where
  | char (c : Char)
  | hyphen
  deriving DecidableEq, Repr

/-- Cuts a set at the hyphens that can belong to a range. A hyphen can not if it is the first
character, or if fewer than two characters lie between it and the hyphen cut at before. `spare` is
the number of characters that have to come before the next cut. -/
def chunks : (spare : Nat) → List Char → List (List Char)
  | _, [] => [[]]
  | 0, '-' :: rest => [] :: chunks 2 rest
  | spare, c :: rest =>
    match chunks (spare - 1) rest with
    | [] => [[c]]
    | chunk :: more => (c :: chunk) :: more

/-- A hyphen at the very end belongs to no range: it joins the last chunk. -/
def keepLastHyphen : List (List Char) → List (List Char)
  | [chunk, []] => [chunk ++ ['-']]
  | chunk :: more => chunk :: keepLastHyphen more
  | [] => []

/-- Takes out the ranges whose first end is above the second, from the last one to the first: both
ends go and their chunks become one. -/
def dropEmptyRanges : List (List Char) → List (List Char)
  | [] => []
  | chunk :: more =>
    match dropEmptyRanges more with
    | [] => [chunk]
    | next :: rest =>
      match chunk.getLast?, next.head? with
      | some low, some high =>
        if high < low then (chunk.dropLast ++ next.tail) :: rest else chunk :: next :: rest
      | _, _ => chunk :: next :: rest

def joinChunks : List (List Char) → List SetToken
  | [] => []
  | [chunk] => chunk.map .char
  | chunk :: more => chunk.map .char ++ .hyphen :: joinChunks more

/-- The ranges that a set names; a single character is a range of its own. -/
def ranges : List SetToken → List (Char × Char)
  | [] => []
  | .char low :: .hyphen :: .char high :: rest => (low, high) :: ranges rest
  | .char c :: rest => (c, c) :: ranges rest
  | .hyphen :: rest => ('-', '-') :: ranges rest

def setOf (body : List Char) : Part :=
  let tokens :=
    -- the mark of a complement is no end of a range
    if '-' ∈ body then
      let spare := if body.head? = some '!' then 2 else 1
      joinChunks (dropEmptyRanges (keepLastHyphen (chunks spare body)))
    else body.map .char
  match tokens with
  | .char '!' :: rest => .oneOf false (ranges rest)
  | _ => .oneOf true (ranges tokens)

/-- The text between an opening bracket and its closing one. A closing bracket right after the
opening one, or after the `!` there, belongs to the set. -/
def bracket? (cs : List Char) : Option (List Char) :=
  let close : List Char → List Char → Option (List Char) := fun taken rest =>
    if ']' ∈ rest then some (taken ++ rest.takeWhile (· ≠ ']')) else none
  match cs with
  | '!' :: ']' :: rest => close ['!', ']'] rest
  | '!' :: rest => close ['!'] rest
  | ']' :: rest => close [']'] rest
  | _ => close [] cs

/-- The parts of a pattern behind its first `skipped` characters. -/
def partsFrom : (skipped : Nat) → List Char → List Part
  | _, [] => []
  | skipped + 1, _ :: rest => partsFrom skipped rest
  | 0, '*' :: rest => .anyText :: partsFrom 0 rest
  | 0, '?' :: rest => .anyChar :: partsFrom 0 rest
  | 0, '[' :: rest =>
    match bracket? rest with
    | none => .char '[' :: partsFrom 0 rest
    | some body => setOf body :: partsFrom (body.length + 1) rest
  | 0, c :: rest => .char c :: partsFrom 0 rest

def parse (pattern : List Char) : List Part :=
  partsFrom 0 pattern

/-- Whether a part other than `anyText` stands for a character. -/
def Part.accepts : Part → Char → Bool
  | .anyText, _ | .anyChar, _ => true
  | .char d, c => c = d
  | .oneOf inside ranges, c => (ranges.any fun range => range.1 ≤ c && c ≤ range.2) == inside

/-- The row of a part in front of others. A row tells for each end of a name, the whole name first,
whether parts stand for it: `row` does so for the parts behind. -/
def Part.row (part : Part) : (name : List Char) → (row : List Bool) → List Bool
  | c :: name, here :: row =>
    let rest := part.row name row
    let first :=
      match part with
      | .anyText => here || rest.headD false
      | _ => part.accepts c && row.headD false
    first :: rest
  | [], here :: _ => [part = .anyText && here]
  | _, [] => []

/-- The row of no parts, which stand for the empty end alone. -/
def emptyRow : (name : List Char) → List Bool
  | [] => [true]
  | _ :: name => false :: emptyRow name

def matchesParts (parts : List Part) (name : List Char) : Bool :=
  (parts.foldr (fun part row => part.row name row) (emptyRow name)).headD false

def accepts (pattern name : String) : Bool :=
  matchesParts (parse pattern.toList) name.toList

end BuildHook.Glob
