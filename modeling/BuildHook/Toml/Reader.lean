import BuildHook.Toml.Draft
import BuildHook.Toml.Number
import BuildHook.Toml.StringLiteral

/-!
# Reading values

Keys, values and the white space around them. Each reader gives what it has read and the rest of the
text. Readers of values fail with the first refusal in the order of the text; the others give
nothing where no such thing stands. Arrays and tables nest, so their readers count down from a bound
on the depth, which the length of the text gives.
-/

namespace BuildHook.Toml

def skipSpacing (cs : List Char) : List Char :=
  cs.dropWhile isSpacing

/-- Skips a comment up to the end of its line. It may hold no control character. -/
def skipComment : List Char → Option (List Char)
  | [] => some []
  | c :: rest =>
    if c = '#' then
      if (rest.takeWhile (· ≠ '\n')).any isControl then none
      else some (rest.dropWhile (· ≠ '\n'))
    else some (c :: rest)

/-- Skips white space, line ends and comments, starting inside a comment or outside. -/
def skipFillerFrom : (inComment : Bool) → List Char → Option (List Char)
  | _, [] => some []
  | true, c :: rest =>
    if c = '\n' then skipFillerFrom false rest
    else if isControl c then none
    else skipFillerFrom true rest
  | false, c :: rest =>
    if isLayout c then skipFillerFrom false rest
    else if c = '#' then skipFillerFrom true rest
    else some (c :: rest)

/-- Skips white space, line ends and comments. -/
def skipFiller (cs : List Char) : Option (List Char) :=
  skipFillerFrom false cs

def isBareKeyChar (c : Char) : Bool :=
  c.isAlphanum || c = '-' || c = '_'

def readKeyPart (cs : List Char) : Option (String × List Char) :=
  let bare := cs.takeWhile isBareKeyChar
  if bare.isEmpty then
    (readLineString cs).map fun (text, after) => (String.ofList text, after)
  else some (String.ofList bare, cs.dropWhile isBareKeyChar)

/-- Reads a key of at most `bound` parts with points between them, and the white space after it. -/
def readKey (bound : Nat) (cs : List Char) : Option (Key × List Char) :=
  match bound with
  | 0 => none
  | bound + 1 =>
    match readKeyPart cs with
    | none => none
    | some (part, rest) =>
      match skipSpacing rest with
      | '.' :: rest =>
        (readKey bound (skipSpacing rest)).map fun (parts, after) => (part :: parts, after)
      | rest => some ([part], rest)

/-- Reads `true` or `false`. -/
def readBoolean (cs : List Char) : Option (Value × List Char) :=
  if cs.take 4 = ['t', 'r', 'u', 'e'] then some (.boolean true, cs.drop 4)
  else if cs.take 5 = ['f', 'a', 'l', 's', 'e'] then some (.boolean false, cs.drop 5)
  else none

/-- Reads a date, with a time if one follows, or a time alone. A date that the calendar does not
have is no value. -/
def readMoment (cs : List Char) : Option (Option (Value × List Char)) :=
  match readYearMonthDay cs with
  | some ((year, month, day), rest) =>
    some ((Date.of? year month day).map fun date =>
      match readClock rest with
      | some ((time, offset), rest) => (.dateTime ⟨date, time, offset⟩, rest)
      | none => (.date date, rest))
  | none => (Time.read cs).map fun (time, rest) => some (.time time, rest)

def readScalar (cs : List Char) : Except Refusal (Value × List Char) :=
  match cs with
  | [] => .error .malformed
  | c :: _ =>
    if c = '"' || c = '\'' then
      expect ((readString cs).map fun (text, after) => (.string (String.ofList text), after))
    else
      match readBoolean cs with
      | some found => .ok found
      | none =>
        match readMoment cs with
        | some found => expect found
        | none => readNumber cs

mutual

def readValue : (depth : Nat) → List Char → Except Refusal (Value × List Char)
  | 0, _ => .error .malformed
  | depth + 1, cs =>
    match cs with
    | '[' :: rest => (readItems depth rest).map fun (items, after) => (.array items, after)
    | '{' :: rest =>
      match skipSpacing rest with
      | '}' :: rest => .ok (.table [], rest)
      | rest => (readEntries depth .empty rest).map fun (table, after) => (.table table, after)
    | cs => readScalar cs

/-- Reads the items of an array up to its closing bracket. A comma may follow the last one. -/
def readItems : (depth : Nat) → List Char → Except Refusal (List Value × List Char)
  | 0, _ => .error .malformed
  | depth + 1, cs =>
    match skipFiller cs with
    | none => .error .malformed
    | some (']' :: rest) => .ok ([], rest)
    | some cs =>
      match readValue depth cs with
      | .error refusal => .error refusal
      | .ok (value, rest) =>
        match skipFiller rest with
        | some (']' :: rest) => .ok ([value], rest)
        | some (',' :: rest) =>
          (readItems depth rest).map fun (values, after) => (value :: values, after)
        | _ => .error .malformed

/-- Reads the keys and values of a table on one line up to its closing brace, into what has been
read of it before. -/
def readEntries : (depth : Nat) → Draft → List Char → Except Refusal (Table × List Char)
  | 0, _, _ => .error .malformed
  | depth + 1, draft, cs =>
    match readKey cs.length cs with
    | some (key, '=' :: rest) =>
      match readValue depth (skipSpacing rest) with
      | .error refusal => .error refusal
      | .ok (value, rest) =>
        match draft.assign key value with
        | none => .error .malformed
        | some draft =>
          match skipSpacing rest with
          | '}' :: rest => .ok (draft.content, rest)
          | ',' :: rest => readEntries depth draft (skipSpacing rest)
          | _ => .error .malformed
    | _ => .error .malformed

end

end BuildHook.Toml
