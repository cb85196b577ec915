import BuildHook.Text.Order

/-!
# File trees

A tree says what stands at each location. `Tree.get?` is what a tree means; `Tree.get?_put` and
`Tree.get?_erase` say that a change at one location leaves all others as they were.
-/

namespace BuildHook

/-- The names that lead from the root of the file system to a place in it. -/
abbrev Location := List String

inductive Node where
  | folder
  | file (content : List UInt8)
  | link (target : String)
  deriving DecidableEq, Repr

/-- The nodes of a file system, in the order in which folders list them. Each location has one node
at most. The root is always a folder and not listed. -/
structure Tree where
  entries : List (Location × Node)
  distinct : (entries.map Prod.fst).Nodup

namespace Tree

def empty : Tree :=
  ⟨[], List.nodup_nil⟩

def lookup (location : Location) : List (Location × Node) → Option Node
  | [] => none
  | (place, node) :: rest => if place = location then some node else lookup location rest

def get? (t : Tree) (location : Location) : Option Node :=
  if location = [] then some .folder else lookup location t.entries

def without (location : Location) (entries : List (Location × Node)) : List (Location × Node) :=
  entries.filter fun entry => decide (entry.1 ≠ location)

theorem nodup_without {entries : List (Location × Node)} (location : Location)
    (h : (entries.map Prod.fst).Nodup) : ((without location entries).map Prod.fst).Nodup :=
  h.sublist (List.filter_sublist.map _)

theorem not_mem_without (location : Location) (entries : List (Location × Node)) :
    location ∉ (without location entries).map Prod.fst := by
  simp [without]

theorem lookup_without (location other : Location) (entries : List (Location × Node)) :
    lookup other (without location entries) =
      if location = other then none else lookup other entries := by
  induction entries with
  | nil => simp [without, lookup]
  | cons entry rest ih =>
    obtain ⟨place, node⟩ := entry
    unfold without at ih ⊢
    by_cases h : place = location
    · subst h
      by_cases h' : place = other <;> simp_all [lookup]
    · by_cases h' : location = other
      · subst h'
        simp_all [lookup]
      · by_cases h'' : place = other <;> simp_all [lookup]

/-- The tree with a node at a location, whatever stood there. -/
def put (t : Tree) (location : Location) (node : Node) : Tree where
  entries := (location, node) :: without location t.entries
  distinct := by
    rw [List.map_cons, List.nodup_cons]
    exact ⟨not_mem_without location t.entries, nodup_without location t.distinct⟩

def erase (t : Tree) (location : Location) : Tree where
  entries := without location t.entries
  distinct := nodup_without location t.distinct

theorem get?_put (t : Tree) {location : Location} (h : location ≠ []) (node : Node)
    (other : Location) :
    (t.put location node).get? other = if location = other then some node else t.get? other := by
  by_cases h' : location = other
  · subst h'
    simp [get?, put, lookup, h]
  · simp [get?, put, lookup, h', lookup_without]

theorem get?_erase (t : Tree) {location : Location} (h : location ≠ []) (other : Location) :
    (t.erase location).get? other = if location = other then none else t.get? other := by
  by_cases h' : location = other
  · subst h'
    simp [get?, erase, lookup_without, h]
  · simp [get?, erase, lookup_without, h']

/-- The entries of a folder: their names and nodes. -/
def children (t : Tree) (folder : Location) : List (String × Node) :=
  t.entries.filterMap fun (place, node) =>
    match place.getLast? with
    | some name => if place.dropLast = folder then some (name, node) else none
    | none => none

/-- The written form of a location as seen from a folder above it. -/
def relativeText (folder location : Location) : String :=
  String.intercalate "/" (location.drop folder.length)

/-- Where two trees differ below a folder: each such place with the node that the second tree has
there, sorted by the written form of the place. -/
def changes (before after : Tree) (folder : Location) : List (String × Option Node) :=
  let below := fun place => folder.isPrefixOf place && decide (place ≠ folder)
  let gone := (before.entries.map Prod.fst).filter fun place => (after.get? place).isNone
  let places := (gone ++ after.entries.map Prod.fst).filter fun place =>
    below place && decide (before.get? place ≠ after.get? place)
  Text.sortBy (fun x y => decide (x.1 ≤ y.1))
    (places.map fun place => (relativeText folder place, after.get? place))

end Tree

end BuildHook
