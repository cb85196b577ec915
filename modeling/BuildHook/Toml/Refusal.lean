import BuildHook.Toml.Value

/-!
# Refused texts and values

Why a text is no document, and which values have no text. Integers have no bounds, but an integer of
more than `digitLimit` decimal digits is neither read from them nor written in them. It can still be
read from its hexadecimal, octal or binary digits.
-/

namespace BuildHook.Toml

/-- The greatest number of decimal digits in which an integer is read or written. -/
def digitLimit : Nat := 4300

/-- Why an integer and its decimal digits are not turned into each other. -/
inductive DigitFault where
  /-- These are too many digits to read. -/
  | read (count : Nat)
  /-- Too many digits would have to be written. -/
  | write
  deriving DecidableEq, Repr

def DigitFault.message (fault : DigitFault) : String :=
  let count :=
    match fault with
    | .read count => ": value has " ++ toString count ++ " digits"
    | .write => ""
  "Exceeds the limit (" ++ toString digitLimit ++ " digits) for integer string conversion" ++
    count ++ "; use sys.set_int_max_str_digits() to increase the limit"

/-- Why a text is no document. -/
inductive Refusal where
  /-- It does not follow the rules of TOML. -/
  | malformed
  | digits (fault : DigitFault)
  deriving DecidableEq, Repr

/-- What has been found. Where nothing has, the text is malformed. -/
def expect {α : Type} : Option α → Except Refusal α
  | some found => .ok found
  | none => .error .malformed

@[simp] theorem expect_eq_ok {α : Type} {found : Option α} {a : α} :
    expect found = .ok a ↔ found = some a := by
  cases found <;> simp [expect]

/-- The integer of some decimal digits, unless they are too many. -/
def readInteger (number : Int) : Except Refusal Value :=
  if digitLimit < digitCount number.natAbs then .error (.digits (.read (digitCount number.natAbs)))
  else .ok (.integer number)

mutual

/-- Whether a value holds an integer that has too many digits to be written. -/
def Value.isOverlong : Value → Bool
  | .integer number => digitLimit < digitCount number.natAbs
  | .array items => holdsOverlong items
  | .table entries => holdsOverlongEntry entries
  | _ => false

def holdsOverlong : List Value → Bool
  | [] => false
  | item :: items => item.isOverlong || holdsOverlong items

def holdsOverlongEntry : List (String × Value) → Bool
  | [] => false
  | (_, value) :: entries => value.isOverlong || holdsOverlongEntry entries

end

theorem isOverlong_array (items : List Value) :
    (Value.array items).isOverlong = items.any Value.isOverlong := by
  rw [Value.isOverlong]
  induction items with
  | nil => rfl
  | cons item items ih => rw [holdsOverlong, List.any_cons, ih]

theorem isOverlong_table (entries : List (String × Value)) :
    (Value.table entries).isOverlong = entries.any fun entry => entry.2.isOverlong := by
  rw [Value.isOverlong]
  induction entries with
  | nil => rfl
  | cons entry entries ih => rw [holdsOverlongEntry, List.any_cons, ih]

end BuildHook.Toml
