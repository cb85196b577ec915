import BuildHook.Decimal.Shortest
import BuildHook.Text.Quoted
import BuildHook.Toml.Merge

/-!
# Values in messages

How a message shows a value, the plain text that a value stands for where a text is wanted, and what
a kind of value is called.
-/

namespace BuildHook.Toml

def commaSeparated (items : List String) : String :=
  String.intercalate ", " items

def shownCall (name : String) (fields : List String) : String :=
  name ++ "(" ++ commaSeparated fields ++ ")"

/-- The numbers of a time of day; seconds are left out together with what follows them if all of it
is zero. -/
def Time.shownFields (t : Time) : List String :=
  let fields := [t.hour, t.minute] ++
    if t.microsecond ≠ 0 then [t.second, t.microsecond]
    else if t.second ≠ 0 then [t.second]
    else []
  fields.map toString

def Offset.shown (o : Offset) : String :=
  if o.minutes = 0 then "datetime.timezone.utc"
  else
    let seconds := o.minutes * 60
    let delta :=
      if seconds < 0 then ["days=-1", "seconds=" ++ toString (86400 + seconds)]
      else ["seconds=" ++ toString seconds]
    shownCall "datetime.timezone" [shownCall "datetime.timedelta" delta]

def Date.shown (d : Date) : String :=
  shownCall "datetime.date" ([d.year, d.month, d.day].map toString)

def Time.shown (t : Time) : String :=
  shownCall "datetime.time" t.shownFields

def DateTime.shown (m : DateTime) : String :=
  shownCall "datetime.datetime" (([m.date.year, m.date.month, m.date.day].map toString) ++
    m.time.shownFields ++ (m.offset.map fun o => "tzinfo=" ++ o.shown).toList)

mutual

def Value.shown : Value → String
  | .string text => Text.quoted text
  | .integer number => toString number
  | .float number => String.ofList number.chars
  | .boolean true => "True"
  | .boolean false => "False"
  | .date day => day.shown
  | .time clock => clock.shown
  | .dateTime moment => moment.shown
  | .array items => "[" ++ commaSeparated (shownItems items) ++ "]"
  | .table entries => "\x7b" ++ commaSeparated (shownEntries entries) ++ "\x7d"

def shownItems : List Value → List String
  | [] => []
  | item :: items => item.shown :: shownItems items

def shownEntries : List (String × Value) → List String
  | [] => []
  | (key, value) :: entries => (Text.quoted key ++ ": " ++ value.shown) :: shownEntries entries

end

/-- The text that a value stands for: a string stands for itself, and dates and times for their
written form. -/
def Value.text : Value → String
  | .string text => text
  | .date day => String.ofList day.chars
  | .time clock => String.ofList clock.chars
  | .dateTime moment => String.ofList moment.chars
  | value => value.shown

/-- What the kind of a value is called where a message names it in full. -/
def Value.kindName : Value → String
  | .string _ => "str"
  | .integer _ => "int"
  | .float _ => "float"
  | .boolean _ => "bool"
  | .date _ => "datetime.date"
  | .time _ => "datetime.time"
  | .dateTime _ => "datetime.datetime"
  | .array _ => "list"
  | .table _ => "dict"

def Value.shortKindName : Value → String
  | .date _ => "date"
  | .time _ => "time"
  | .dateTime _ => "datetime"
  | value => value.kindName

def Unmergeable.message (u : Unmergeable) : String :=
  "can only merge tables, got " ++ u.below.shortKindName ++ " and " ++ u.above.shortKindName

end BuildHook.Toml
