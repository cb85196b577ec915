import BuildHook.Toml.Value

/-!
# Tables in the making

Keys of several parts open tables inside each other. A table or array that was written in one piece
is closed: no later key may lead into it.
-/

namespace BuildHook.Toml

/-- Changes the table at a place inside another, making the tables on the way that are missing. An
array on the way stands for its last table. -/
def Table.modify (change : Table → Option Table) : Key → Table → Option Table
  | [], t => change t
  | key :: rest, t =>
    match t.get? key with
    | none => (modify change rest []).map fun inner => t.put key (.table inner)
    | some (.table entries) =>
      (modify change rest entries).map fun inner => t.put key (.table inner)
    | some (.array items) =>
      match items.getLast? with
      | some (.table entries) =>
        (modify change rest entries).map fun inner =>
          t.put key (.array (items.dropLast ++ [.table inner]))
      | _ => none
    | some _ => none

def Table.addNew (key : String) (value : Value) (t : Table) : Option Table :=
  if (t.get? key).isSome then none else some (t.put key value)

/-- A table in the making, and the places in it that are closed. -/
structure Draft where
  content : Table
  closed : List Key

namespace Draft

def empty : Draft :=
  ⟨[], []⟩

def isClosed (d : Draft) (place : Key) : Bool :=
  d.closed.any fun outer => outer.isPrefixOf place

/-- Gives the key at a place its value. A table or array given so is closed. -/
def assign (d : Draft) (place : Key) (value : Value) : Option Draft :=
  match place.getLast? with
  | none => none
  | some last =>
    if d.isClosed place.dropLast then none
    else
      (Table.modify (Table.addNew last value) place.dropLast d.content).map fun content =>
        match value with
        | .table _ | .array _ => ⟨content, place :: d.closed⟩
        | _ => ⟨content, d.closed⟩

end Draft

end BuildHook.Toml
