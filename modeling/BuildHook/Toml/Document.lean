import BuildHook.Toml.Reader

/-!
# TOML documents

A document is a list of statements, one on a line: the header of a table, the header of a further
table of an array, or a key with its value. Its table is what the statements make of the empty one.
-/

namespace BuildHook.Toml

inductive Statement where
  /-- The following keys belong to the table at this place. -/
  | header (place : Key)
  /-- The following keys belong to a new last table of the array at this place. -/
  | element (place : Key)
  /-- A key of the current table has this value. -/
  | assignment (place : Key) (value : Value)
  deriving Repr, BEq

def readStatement (cs : List Char) : Except Refusal (Statement × List Char) :=
  match cs with
  | '[' :: '[' :: rest =>
    match readKey cs.length (skipSpacing rest) with
    | some (place, ']' :: ']' :: rest) => .ok (.element place, rest)
    | _ => .error .malformed
  | '[' :: rest =>
    match readKey cs.length (skipSpacing rest) with
    | some (place, ']' :: rest) => .ok (.header place, rest)
    | _ => .error .malformed
  | cs =>
    match readKey cs.length cs with
    | some (place, '=' :: rest) =>
      (readValue (2 * cs.length + 2) (skipSpacing rest)).map
        fun (value, after) => (.assignment place value, after)
    | _ => .error .malformed

/-- Reads the end of a line, which a comment may precede. -/
def readLineEnd (cs : List Char) : Option (List Char) :=
  match skipComment (skipSpacing cs) with
  | some [] => some []
  | some ('\n' :: rest) => some rest
  | _ => none

/-- Reads a line, which holds at most one statement. -/
def readLine (cs : List Char) : Except Refusal (List Statement × List Char) :=
  let cs := skipSpacing cs
  match cs.head? with
  | none => .ok ([], [])
  | some c =>
    if c = '\n' || c = '#' then expect ((readLineEnd cs).map fun rest => ([], rest))
    else
      match readStatement cs with
      | .error refusal => .error refusal
      | .ok (statement, rest) =>
        expect ((readLineEnd rest).map fun rest => ([statement], rest))

/-- A document in the making: its table, the place of the last header, the tables that may not be
opened by a header or a dotted key any more, and those that may not from the next header on. -/
structure Assembly extends Draft where
  place : Key
  fixed : List Key
  pending : List Key

namespace Assembly

def empty : Assembly :=
  ⟨Draft.empty, [], [], []⟩

/-- The proper beginnings of a key, without the empty one. -/
def beginnings (key : Key) : List Key :=
  (List.range (key.length - 1)).map fun n => key.take (n + 1)

def open? (a : Assembly) (place : Key) : Option Assembly :=
  let fixed := a.pending ++ a.fixed
  if fixed.contains place || a.isClosed place then none
  else
    (Table.modify some place a.content).map fun content =>
      ⟨⟨content, a.closed⟩, place, place :: fixed, []⟩

def appendTable (key : String) (t : Table) : Option Table :=
  match t.get? key with
  | none => some (t.put key (.array [.table []]))
  | some (.array items) => some (t.put key (.array (items ++ [.table []])))
  | some _ => none

/-- Opens a further table of the array at a place. What was said about the table before it does not
hold for the new one. -/
def append? (a : Assembly) (place : Key) : Option Assembly :=
  if a.isClosed place then none
  else
    match place.getLast? with
    | none => none
    | some last =>
      let outside := fun key => !place.isPrefixOf key
      (Table.modify (appendTable last) place.dropLast a.content).map fun content =>
        ⟨⟨content, a.closed.filter outside⟩, place,
          place :: (a.pending ++ a.fixed).filter outside, []⟩

/-- Gives a key of the current table its value. The tables that a dotted key leads through may not
be fixed already. -/
def assign? (a : Assembly) (key : Key) (value : Value) : Option Assembly :=
  let through := (beginnings key).map (a.place ++ ·)
  -- dotted keys may share tables with each other, but with no header
  if through.any a.fixed.contains then none
  else
    (a.toDraft.assign (a.place ++ key) value).map fun draft =>
      ⟨draft, a.place, a.fixed, through ++ a.pending⟩

def step (a : Assembly) : Statement → Option Assembly
  | .header place => a.open? place
  | .element place => a.append? place
  | .assignment key value => a.assign? key value

end Assembly

/-- What a document in the making becomes with the lines of a text, of which there are at most
`bound`. The lines are taken one by one, so that the first refusal is that of the whole text. -/
def readLines (bound : Nat) (a : Assembly) (cs : List Char) : Except Refusal Assembly :=
  match bound with
  | 0 => .error .malformed
  | bound + 1 =>
    match readLine cs with
    | .error refusal => .error refusal
    | .ok (found, rest) =>
      match found.foldlM Assembly.step a with
      | none => .error .malformed
      | some a => if rest.isEmpty then .ok a else readLines bound a rest

/-- A text in which each carriage return right before a line feed is gone. -/
def dropReturns : List Char → List Char
  | [] => []
  | '\r' :: '\n' :: rest => '\n' :: dropReturns rest
  | c :: rest => c :: dropReturns rest

def parse (text : List Char) : Except Refusal Table :=
  let cs := dropReturns text
  (readLines (cs.length + 1) .empty cs).map fun a => a.content

end BuildHook.Toml
