/-!
# Dates and times

Calendar dates, clock times with microseconds, and both together with an optional offset from
universal time. Every value is valid: the fields of a date name a day of the calendar, those of a
time a moment of the day, and an offset is shorter than a day.
-/

namespace BuildHook.Toml

/-- Whether a year has a 29th of February. -/
def isLeapYear (year : Nat) : Bool :=
  year % 4 = 0 && (year % 100 ≠ 0 || year % 400 = 0)

def daysIn (year month : Nat) : Nat :=
  match month with
  | 2 => if isLeapYear year then 29 else 28
  | 4 | 6 | 9 | 11 => 30
  | _ => 31

/-- A day of the calendar in the years 1 to 9999. -/
structure Date where
  year : Nat
  month : Nat
  day : Nat
  isValid : 1 ≤ year ∧ year ≤ 9999 ∧ 1 ≤ month ∧ month ≤ 12 ∧ 1 ≤ day ∧ day ≤ daysIn year month
  deriving DecidableEq, Repr

structure Time where
  hour : Nat
  minute : Nat
  second : Nat
  microsecond : Nat
  isValid : hour < 24 ∧ minute < 60 ∧ second < 60 ∧ microsecond < 1000000
  deriving DecidableEq, Repr

/-- How far a clock is ahead of universal time, in minutes. -/
structure Offset where
  minutes : Int
  isValid : -1440 < minutes ∧ minutes < 1440
  deriving DecidableEq, Repr

/-- A date with a time, and the offset of the clock that shows them if it is known. -/
structure DateTime where
  date : Date
  time : Time
  offset : Option Offset
  deriving DecidableEq, Repr

/-- The last `width` decimal digits of a number. -/
def fixedDecimal : (width n : Nat) → List Char
  | 0, _ => []
  | width + 1, n => fixedDecimal width (n / 10) ++ [Nat.digitChar (n % 10)]

/-- Year, month and day with hyphens between them. -/
def Date.chars (d : Date) : List Char :=
  fixedDecimal 4 d.year ++ '-' :: fixedDecimal 2 d.month ++ '-' :: fixedDecimal 2 d.day

/-- Hour, minute and second with colons between them, and six places after the point if the time is
no whole second. -/
def Time.chars (t : Time) : List Char :=
  fixedDecimal 2 t.hour ++ ':' :: fixedDecimal 2 t.minute ++ ':' :: fixedDecimal 2 t.second ++
    if t.microsecond = 0 then [] else '.' :: fixedDecimal 6 t.microsecond

/-- Sign, hours and minutes. -/
def Offset.chars (o : Offset) : List Char :=
  (if o.minutes < 0 then '-' else '+') ::
    fixedDecimal 2 (o.minutes.natAbs / 60) ++ ':' :: fixedDecimal 2 (o.minutes.natAbs % 60)

/-- Date and time with a space between them, and the offset if it is known. -/
def DateTime.chars (m : DateTime) : List Char :=
  m.date.chars ++ ' ' :: m.time.chars ++ (m.offset.map Offset.chars).getD []

def isDigit (c : Char) : Bool :=
  '0' ≤ c && c ≤ '9'

def decimalValue (digits : List Char) : Nat :=
  digits.foldl (fun n c => 10 * n + (c.toNat - 48)) 0

/-- Reads exactly `width` decimal digits. -/
def readDigits (width : Nat) (cs : List Char) : Option (Nat × List Char) :=
  let digits := cs.take width
  if digits.length = width && digits.all isDigit then some (decimalValue digits, cs.drop width)
  else none

def readChar (c : Char) : List Char → Option (List Char)
  | [] => none
  | d :: rest => if d = c then some rest else none

/-- Year, month and day that stand in front of a text, whether or not there is such a day. A month
and a day are numbers that some date has. -/
def readYearMonthDay (cs : List Char) : Option ((Nat × Nat × Nat) × List Char) := do
  let (year, cs) ← readDigits 4 cs
  let (month, cs) ← readDigits 2 (← readChar '-' cs)
  let (day, cs) ← readDigits 2 (← readChar '-' cs)
  guard (1 ≤ month && month ≤ 12 && 1 ≤ day && day ≤ 31)
  return ((year, month, day), cs)

def Date.of? (year month day : Nat) : Option Date :=
  if h : 1 ≤ year ∧ year ≤ 9999 ∧ 1 ≤ month ∧ month ≤ 12 ∧ 1 ≤ day ∧ day ≤ daysIn year month then
    some ⟨year, month, day, h⟩
  else none

/-- Places after the point as microseconds: the first six of them, filled up with zeros. -/
def microsecondsOf (places : List Char) : Nat :=
  decimalValue ((places ++ List.replicate 6 '0').take 6)

/-- Reads the places after the point of a time; without a digit after it the point does not belong
to the time. -/
def readFraction : List Char → Nat × List Char
  | '.' :: rest =>
    let places := rest.takeWhile isDigit
    if places.isEmpty then (0, '.' :: rest) else (microsecondsOf places, rest.dropWhile isDigit)
  | cs => (0, cs)

def Time.read (cs : List Char) : Option (Time × List Char) := do
  let (hour, cs) ← readDigits 2 cs
  let (minute, cs) ← readDigits 2 (← readChar ':' cs)
  let (second, cs) ← readDigits 2 (← readChar ':' cs)
  let (microsecond, cs) := readFraction cs
  if h : hour < 24 ∧ minute < 60 ∧ second < 60 ∧ microsecond < 1000000 then
    return (⟨hour, minute, second, microsecond, h⟩, cs)
  else none

/-- Hours and minutes that stand behind the sign of an offset. -/
def readHourMinute (cs : List Char) : Option ((Nat × Nat) × List Char) := do
  let (hour, cs) ← readDigits 2 cs
  let (minute, cs) ← readDigits 2 (← readChar ':' cs)
  guard (hour < 24 && minute < 60)
  return ((hour, minute), cs)

def Offset.of? (minutes : Int) : Option Offset :=
  if h : -1440 < minutes ∧ minutes < 1440 then some ⟨minutes, h⟩ else none

/-- Reads an offset, if one stands there. -/
def Offset.read? : List Char → Option Offset × List Char
  | [] => (none, [])
  | c :: rest =>
    if c = 'Z' || c = 'z' then (Offset.of? 0, rest)
    else if c = '+' || c = '-' then
      match readHourMinute rest with
      | some ((hour, minute), after) =>
        let size : Int := hour * 60 + minute
        (Offset.of? (if c = '-' then -size else size), after)
      | none => (none, c :: rest)
    else (none, c :: rest)

/-- Reads a time and the offset behind it, after the character that parts them from a date. -/
def readClock : List Char → Option ((Time × Option Offset) × List Char)
  | [] => none
  | c :: rest => do
    guard (c = 'T' || c = 't' || c = ' ')
    let (time, rest) ← Time.read rest
    let (offset, rest) := Offset.read? rest
    return ((time, offset), rest)

end BuildHook.Toml
