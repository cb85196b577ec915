import BuildHook.Decimal.Binary64
import BuildHook.Text.Hex
import BuildHook.Toml.Refusal

/-!
# TOML numbers

Integers in four bases, decimal numbers with a fraction or an exponent, infinity and what is no
number. A single underscore may stand between two digits.
-/

namespace BuildHook.Toml

/-- The digits at the front of a text, which an underscore may part, and what follows them. -/
def moreDigits (isDigit : Char → Bool) : List Char → List Char × List Char
  | [] => ([], [])
  | '_' :: c :: rest =>
    if isDigit c then
      let (digits, after) := moreDigits isDigit rest
      (c :: digits, after)
    else ([], '_' :: c :: rest)
  | c :: rest =>
    if isDigit c then
      let (digits, after) := moreDigits isDigit rest
      (c :: digits, after)
    else ([], c :: rest)

/-- At least one digit, and what follows. -/
def someDigits (isDigit : Char → Bool) : List Char → Option (List Char × List Char)
  | [] => none
  | c :: rest =>
    if isDigit c then
      let (digits, after) := moreDigits isDigit rest
      some (c :: digits, after)
    else none

def base? (letter : Char) : Option Nat :=
  match letter with
  | 'x' => some 16
  | 'o' => some 8
  | 'b' => some 2
  | _ => none

def isDigitOf (base : Nat) (c : Char) : Bool :=
  match Text.hexValue? c with
  | some value => value < base
  | none => false

def valueIn (base : Nat) (digits : List Char) : Nat :=
  digits.foldl (fun n c => base * n + (Text.hexValue? c).getD 0) 0

def readBased : List Char → Option (Nat × List Char)
  | '0' :: letter :: rest => do
    let base ← base? letter
    let (digits, rest) ← someDigits (isDigitOf base) rest
    return (valueIn base digits, rest)
  | _ => none

/-- The sign in front of a number, and what follows it. -/
def cutSign : List Char → Bool × List Char
  | '-' :: rest => (true, rest)
  | '+' :: rest => (false, rest)
  | cs => (false, cs)

/-- Reads the digits before the point: a zero stands alone. -/
def readWhole : List Char → Option (List Char × List Char)
  | '0' :: rest => some (['0'], rest)
  | cs => someDigits isDigit cs

/-- The digits after a point, if a point and a digit stand there. -/
def readPlaces? : List Char → Option (List Char × List Char)
  | '.' :: rest => someDigits isDigit rest
  | _ => none

/-- The exponent, if one stands there. -/
def readExponent? : List Char → Option (Int × List Char)
  | [] => none
  | c :: rest => do
    guard (c = 'e' || c = 'E')
    let (negative, rest) := cutSign rest
    let (digits, rest) ← someDigits isDigit rest
    let size : Int := decimalValue digits
    return (if negative then -size else size, rest)

/-- Reads a decimal number: an integer unless a fraction or an exponent stands in it. -/
def readDecimal (cs : List Char) : Option (Value × List Char) := do
  let (negative, cs) := cutSign cs
  let (whole, cs) ← readWhole cs
  let places? := readPlaces? cs
  let (places, cs) := places?.getD ([], cs)
  let exponent? := readExponent? cs
  let (exponent, cs) := exponent?.getD (0, cs)
  if places?.isNone && exponent?.isNone then
    let size : Int := decimalValue whole
    return (.integer (if negative then -size else size), cs)
  else
    return (.float (Binary64.ofDecimal negative (decimalValue (whole ++ places))
      (exponent - places.length)), cs)

def readSpecial (cs : List Char) : Option (Value × List Char) :=
  let (negative, cs) := cutSign cs
  if cs.take 3 = ['i', 'n', 'f'] then some (.float (.infinity negative), cs.drop 3)
  else if cs.take 3 = ['n', 'a', 'n'] then some (.float .nan, cs.drop 3)
  else none

/-- Reads a number. Only decimal digits are limited. -/
def readNumber (cs : List Char) : Except Refusal (Value × List Char) :=
  match readBased cs with
  | some (number, rest) => .ok (.integer number, rest)
  | none =>
    match (readDecimal cs).or (readSpecial cs) with
    | none => .error .malformed
    | some (.integer number, rest) => (readInteger number).map fun value => (value, rest)
    | some found => .ok found

end BuildHook.Toml
