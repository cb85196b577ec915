import BuildHook.Toml.Value

/-!
# Merging

One table laid over another: tables merge key by key, and any other value, arrays included,
replaces what lies below it.
-/

namespace BuildHook.Toml

mutual

/-- What remains of the value below when another is laid over it. -/
def Value.overlay : (below above : Value) → Value
  | .table below, .table above => .table (merge below above)
  | _, above => above

/-- The table `below` with the table given second laid over it. Keys that are only in the second
come last, in its order. -/
def merge (below : Table) : (above : Table) → Table
  | [] => below
  | (key, value) :: rest =>
    let laid :=
      match below.get? key with
      | some old => old.overlay value
      | none => value
    merge (below.put key laid) rest

end

/-- The tables of a list laid over each other, the last one on top. -/
def mergeAll (tables : List Table) : Table :=
  tables.foldl merge []

/-- Two values that cannot be merged because they are not both tables. -/
structure Unmergeable where
  below : Value
  above : Value
  deriving Repr

def Value.merge : (below above : Value) → Except Unmergeable Value
  | .table below, .table above => .ok (.table (Toml.merge below above))
  | below, above => .error ⟨below, above⟩

end BuildHook.Toml
