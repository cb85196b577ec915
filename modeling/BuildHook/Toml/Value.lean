import BuildHook.Decimal.Binary64
import BuildHook.Toml.Moment

/-!
# TOML values

A table keeps its keys in the order in which they were first given. `Table.get?` is what a table
means, and `Table.get?_put` says what writing a key does to it.
-/

namespace BuildHook.Toml

/-- A value of a TOML document. Integers have no bounds. -/
inductive Value where
  | string (text : String)
  | integer (number : Int)
  | float (number : Binary64)
  | boolean (flag : Bool)
  | date (day : Date)
  | time (clock : Time)
  | dateTime (moment : DateTime)
  | array (items : List Value)
  | table (entries : List (String × Value))
  deriving Repr, BEq, Inhabited

/-- The keys of a table with their values, in order. -/
abbrev Table := List (String × Value)

/-- A place in nested tables: the keys that lead there. -/
abbrev Key := List String

namespace Table

def get? : Table → String → Option Value
  | [], _ => none
  | (name, value) :: rest, key => if name = key then some value else get? rest key

/-- The table in which `key` has the given value. A key that is there keeps its place, a new one
comes last. -/
def put : Table → String → Value → Table
  | [], key, value => [(key, value)]
  | (name, old) :: rest, key, value =>
    if name = key then (name, value) :: rest else (name, old) :: put rest key value

def keys (t : Table) : List String :=
  t.map Prod.fst

theorem get?_put (t : Table) (key : String) (value : Value) (other : String) :
    (t.put key value).get? other = if key = other then some value else t.get? other := by
  induction t with
  | nil => simp [put, get?]
  | cons entry rest ih =>
    obtain ⟨name, old⟩ := entry
    by_cases h : name = key
    · subst h
      by_cases h' : name = other <;> simp [put, get?, h']
    · by_cases h' : name = other
      · subst h'
        simp [put, get?, h, Ne.symm h]
      · simp [put, get?, h, h', ih]

theorem get?_eq_none_iff {t : Table} {key : String} : t.get? key = none ↔ key ∉ t.keys := by
  induction t with
  | nil => simp [get?, keys]
  | cons entry rest ih =>
    obtain ⟨name, old⟩ := entry
    by_cases h : name = key
    · simp [get?, keys, h]
    · have ih : get? rest key = none ↔ key ∉ rest.map Prod.fst := ih
      simp [get?, keys, h, Ne.symm h, ih]

theorem keys_put (t : Table) (key : String) (value : Value) :
    (t.put key value).keys = if key ∈ t.keys then t.keys else t.keys ++ [key] := by
  induction t with
  | nil => simp [put, keys]
  | cons entry rest ih =>
    obtain ⟨name, old⟩ := entry
    have ih : (put rest key value).map Prod.fst =
      if key ∈ rest.map Prod.fst then rest.map Prod.fst else rest.map Prod.fst ++ [key] := ih
    by_cases h : name = key
    · simp [put, keys, h]
    · by_cases h' : key ∈ rest.map Prod.fst <;> simp_all [put, keys, Ne.symm h]

end Table

def Value.at? (value : Value) : Key → Option Value
  | [] => some value
  | key :: rest =>
    match value with
    | .table entries => (Table.get? entries key).bind fun inner => inner.at? rest
    | _ => none

def Value.isTable : Value → Bool
  | .table _ => true
  | _ => false

/-- Whether a value counts as given where an empty one may be left out: no empty text, table or
array, no zero and no `false`. -/
def Value.isTruthy : Value → Bool
  | .string text => text ≠ ""
  | .integer number => number ≠ 0
  | .float number => !number.isZero
  | .boolean flag => flag
  | .date _ | .time _ | .dateTime _ => true
  | .array items => !items.isEmpty
  | .table entries => !entries.isEmpty

end BuildHook.Toml
