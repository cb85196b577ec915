import BuildHook.Decimal.Shortest
import BuildHook.Toml.Reader

/-!
# Writing documents

A table is written as its plain values followed by its sub-tables, each of which starts a block of
its own. An array of tables is written in line where each of its tables fits on a line, and as
repeated headers otherwise.
-/

namespace BuildHook.Toml

/-- The greatest length of a table within an array that is written on one line. -/
def lineWidth : Nat := 100

def indentation (level : Nat) : List Char :=
  List.replicate (4 * level) ' '

/-- A part of a key, between quotes unless it holds plain characters only. -/
def writeKeyPart (key : String) : List Char :=
  let cs := key.toList
  if !cs.isEmpty && cs.all isBareKeyChar then cs else writeString cs

def writeInteger (number : Int) : List Char :=
  (if number < 0 then ['-'] else []) ++ Nat.toDigits 10 number.natAbs

mutual

/-- A value on the right of a key. Items of an array stand on lines of their own. -/
def writeValue (level : Nat) : Value → List Char
  | .string text => writeString text.toList
  | .integer number => writeInteger number
  | .float number => number.chars
  | .boolean true => ['t', 'r', 'u', 'e']
  | .boolean false => ['f', 'a', 'l', 's', 'e']
  | .date day => day.chars
  | .time clock => clock.chars
  | .dateTime moment => moment.chars
  | .array [] => ['[', ']']
  | .array (item :: items) =>
    '[' :: '\n' :: writeItems (level + 1) (item :: items) ++ indentation level ++ [']']
  | .table [] => ['{', '}']
  | .table (entry :: entries) => '{' :: ' ' :: writeEntries (entry :: entries) ++ [' ', '}']

/-- The items of an array, each on its line and with a comma after it. -/
def writeItems (level : Nat) : List Value → List Char
  | [] => []
  | item :: items =>
    indentation level ++ writeValue level item ++ ',' :: '\n' :: writeItems level items

/-- The keys and values of a table on one line. Arrays in it start their indentation anew. -/
def writeEntries : List (String × Value) → List Char
  | [] => []
  | [(key, value)] => writeKeyPart key ++ ' ' :: '=' :: ' ' :: writeValue 0 value
  | (key, value) :: entries =>
    writeKeyPart key ++ ' ' :: '=' :: ' ' :: writeValue 0 value ++ ',' :: ' ' ::
      writeEntries entries

end

def fitsOnLine (entries : Table) : Bool :=
  let line := indentation 1 ++ writeValue 0 (.table entries) ++ [',']
  line.length ≤ lineWidth && !line.contains '\n'

/-- Whether a value is an array of tables that is written with repeated headers. -/
def isSpread : Value → Bool
  | .array items =>
    !items.isEmpty && items.all Value.isTable &&
      !items.all fun item =>
        match item with
        | .table entries => fitsOnLine entries
        | _ => true
  | _ => false

def isPlain (value : Value) : Bool :=
  !value.isTable && !isSpread value

inductive Heading where
  /-- The whole document. -/
  | document
  /-- A table with its place. -/
  | table (place : List Char)
  /-- A table of an array, with the place of the array. -/
  | element (place : List Char)

/-- The written place of a key inside the table of a heading. -/
def Heading.below (heading : Heading) (key : String) : List Char :=
  match heading with
  | .document => writeKeyPart key
  | .table place | .element place => place ++ '.' :: writeKeyPart key

/-- The header line. The header of a table that holds nothing but sub-tables is left out. -/
def Heading.line (heading : Heading) (entries : Table) : List Char :=
  match heading with
  | .document => []
  | .table place =>
    if entries.isEmpty || entries.any fun entry => isPlain entry.2 then
      '[' :: place ++ [']', '\n']
    else []
  | .element place => '[' :: '[' :: place ++ [']', ']', '\n']

def plainLines (entries : Table) : List Char :=
  (entries.filter fun entry => isPlain entry.2).flatMap fun (key, value) =>
    writeKeyPart key ++ ' ' :: '=' :: ' ' :: writeValue 0 value ++ ['\n']

/-- Blocks one after the other with an empty line between what has been written and the next. -/
def joinBlocks (start : List Char) : List (List Char) → List Char
  | [] => start
  | block :: blocks =>
    joinBlocks (start ++ (if start.isEmpty then [] else ['\n']) ++ block) blocks

/-- The block of a table: its header and its plain values, and then the blocks of its sub-tables. -/
def writeBlock (heading : Heading) (entries : Table) (blocks : List (List Char)) : List Char :=
  joinBlocks (heading.line entries ++ plainLines entries) blocks

mutual

def writeBlocks (heading : Heading) : List (String × Value) → List (List Char)
  | [] => []
  | (key, .table entries) :: rest =>
    let inner := Heading.table (heading.below key)
    writeBlock inner entries (writeBlocks inner entries) :: writeBlocks heading rest
  | (key, .array items) :: rest =>
    (if isSpread (.array items) then writeElements (heading.below key) items else []) ++
      writeBlocks heading rest
  | _ :: rest => writeBlocks heading rest

def writeElements (place : List Char) : List Value → List (List Char)
  | [] => []
  | .table entries :: items =>
    let inner := Heading.element place
    writeBlock inner entries (writeBlocks inner entries) :: writeElements place items
  | _ :: items => writeElements place items

end

def print (table : Table) : List Char :=
  writeBlock .document table (writeBlocks .document table)

/-- The written document, unless an integer in it has too many digits to be written. -/
def serialise (table : Table) : Except DigitFault (List Char) :=
  if (Value.table table).isOverlong then .error .write else .ok (print table)

theorem serialise_eq_ok {table : Table} {text : List Char} :
    serialise table = .ok text ↔ (Value.table table).isOverlong = false ∧ print table = text := by
  rw [serialise]
  cases (Value.table table).isOverlong <;> simp

end BuildHook.Toml
