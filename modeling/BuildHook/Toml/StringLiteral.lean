import BuildHook.Text.Hex

/-!
# TOML strings

Reading of the four kinds of strings, each from the character after its opening quotes, and writing
of basic strings. A basic string is read by a small machine that looks at one character at a time.
-/

namespace BuildHook.Toml

def isControl (c : Char) : Bool :=
  (c.toNat < 32 && c ≠ '\t') || c.toNat = 127

def isSpacing (c : Char) : Bool :=
  c = ' ' || c = '\t'

def isLayout (c : Char) : Bool :=
  isSpacing c || c = '\n'

def escapedChar? (letter : Char) : Option Char :=
  match letter with
  | 'b' => some '\x08'
  | 't' => some '\t'
  | 'n' => some '\n'
  | 'f' => some '\x0c'
  | 'r' => some '\r'
  | '"' => some '"'
  | '\\' => some '\\'
  | _ => none

def charOf? (n : Nat) : Option Char :=
  if h : n.isValidChar then some (Char.ofNatAux n h) else none

inductive Mode where
  /-- Plain text; `folding` drops white space up to the next visible character. -/
  | text (folding : Bool)
  /-- A backslash stands before. -/
  | escape
  /-- A backslash and white space stand before: the line has to end here. -/
  | lineEnd
  /-- So many digits of a character number are missing; the digits so far have this value. -/
  | number (missing value : Nat)
  deriving DecidableEq, Repr

/-- The text of a basic string up to its closing quotes, and what follows them. A string over
several lines ends at three quotes in a row. -/
def readBasic (multiline : Bool) : Mode → List Char → Option (List Char × List Char)
  | _, [] => none
  | .text folding, c :: rest =>
    if folding && isLayout c then readBasic multiline (.text true) rest
    else if c = '"' && (!multiline || rest.take 2 = ['"', '"']) then
      some ([], if multiline then rest.drop 2 else rest)
    else if c = '\\' then readBasic multiline .escape rest
    else if isControl c && !(multiline && c = '\n') then none
    else (readBasic multiline (.text false) rest).map fun (text, after) => (c :: text, after)
  | .escape, c :: rest =>
    -- a line that ends in a backslash goes on at the next visible character
    if multiline && isLayout c then
      readBasic multiline (if c = '\n' then .text true else .lineEnd) rest
    else if c = 'u' then readBasic multiline (.number 4 0) rest
    else if c = 'U' then readBasic multiline (.number 8 0) rest
    else
      match escapedChar? c with
      | some d =>
        (readBasic multiline (.text false) rest).map fun (text, after) => (d :: text, after)
      | none => none
  | .lineEnd, c :: rest =>
    if c = '\n' then readBasic multiline (.text true) rest
    else if isSpacing c then readBasic multiline .lineEnd rest
    else none
  | .number missing value, c :: rest =>
    match Text.hexValue? c with
    | none => none
    | some digit =>
      let value := 16 * value + digit
      if 1 < missing then readBasic multiline (.number (missing - 1) value) rest
      else
        match charOf? value with
        | some d =>
          (readBasic multiline (.text false) rest).map fun (text, after) => (d :: text, after)
        | none => none

/-- The text of a literal string up to its closing quotes, and what follows them. -/
def readLiteral (multiline : Bool) : List Char → Option (List Char × List Char)
  | [] => none
  | c :: rest =>
    if c = '\'' && (!multiline || rest.take 2 = ['\'', '\'']) then
      some ([], if multiline then rest.drop 2 else rest)
    else if isControl c && !(multiline && c = '\n') then none
    else (readLiteral multiline rest).map fun (text, after) => (c :: text, after)

/-- A line end right after the opening quotes does not belong to the text. -/
def dropLineEnd : List Char → List Char
  | [] => []
  | c :: rest => if c = '\n' then rest else c :: rest

/-- Up to two more quotes behind the three closing ones belong to the text. -/
def takeQuotes (mark : Char) (text after : List Char) : List Char × List Char :=
  let more := (after.take 2).takeWhile (· = mark)
  (text ++ more, after.drop more.length)

/-- Reads a string on one line, as keys may be, from its opening quote on. -/
def readLineString : List Char → Option (List Char × List Char)
  | [] => none
  | c :: rest =>
    if c = '"' then readBasic false (.text false) rest
    else if c = '\'' then readLiteral false rest
    else none

def readString (cs : List Char) : Option (List Char × List Char) :=
  if cs.take 3 = ['"', '"', '"'] then
    (readBasic true (.text false) (dropLineEnd (cs.drop 3))).map
      fun (text, after) => takeQuotes '"' text after
  else if cs.take 3 = ['\'', '\'', '\''] then
    (readLiteral true (dropLineEnd (cs.drop 3))).map
      fun (text, after) => takeQuotes '\'' text after
  else readLineString cs

/-- The letter that stands for a character after a backslash in written strings. -/
def shortEscape? (c : Char) : Option Char :=
  match c with
  | '\x08' => some 'b'
  | '\n' => some 'n'
  | '\x0c' => some 'f'
  | '\r' => some 'r'
  | '"' => some '"'
  | '\\' => some '\\'
  | _ => none

/-- One character of a written string; a tab stands for itself. -/
def escapeChar (c : Char) : List Char :=
  match shortEscape? c with
  | some letter => ['\\', letter]
  | none => if isControl c then '\\' :: 'u' :: Text.fixedHex 4 c.toNat else [c]

def writeString (cs : List Char) : List Char :=
  '"' :: cs.flatMap escapeChar ++ ['"']

end BuildHook.Toml
