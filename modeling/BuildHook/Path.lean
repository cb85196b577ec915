import BuildHook.Text.Blank

/-!
# Paths

A path is kept in its shortest spelling that names the same steps: repeated slashes and `.` steps
are gone, `..` steps stay. `Path.ofString_text` says that the written form of a path reads back as
that path.
-/

namespace BuildHook

/-- Where a path starts. A path written with exactly two slashes in front keeps both. -/
inductive Anchor where
  | relative
  | absolute
  | doubled
  deriving DecidableEq, Repr

def Anchor.chars : Anchor → List Char
  | .relative => []
  | .absolute => ['/']
  | .doubled => ['/', '/']

def Anchor.ofChars : List Char → Anchor
  | '/' :: '/' :: '/' :: _ => .absolute
  | '/' :: '/' :: _ => .doubled
  | '/' :: _ => .absolute
  | _ => .relative

/-- A step of a path: a name without a slash, and not the step that stays where it is. -/
def IsStep (s : String) : Prop :=
  s ≠ "" ∧ s ≠ "." ∧ '/' ∉ s.toList

instance (s : String) : Decidable (IsStep s) :=
  inferInstanceAs (Decidable (_ ∧ _ ∧ _))

/-- A path: where it starts, and the steps from there. -/
@[ext]
structure Path where
  anchor : Anchor
  steps : List String
  isStep : ∀ s ∈ steps, IsStep s
  deriving DecidableEq, Repr

namespace Path

def ofChars (cs : List Char) : Path where
  anchor := Anchor.ofChars cs
  steps := ((Text.pieces '/' cs).map String.ofList).filter fun s => decide (IsStep s)
  isStep := by simp

def ofString (s : String) : Path :=
  ofChars s.toList

def here : Path :=
  ⟨.relative, [], by simp⟩

/-- The written form: the steps between slashes, or `.` where there is nothing to write. -/
def chars (p : Path) : List Char :=
  match p.anchor, p.steps with
  | .relative, [] => ['.']
  | anchor, steps => anchor.chars ++ List.intercalate ['/'] (steps.map String.toList)

/-- The written form: the steps between slashes, or `.` where there is nothing to write. -/
def text (p : Path) : String :=
  String.ofList p.chars

theorem slash_notMem (p : Path) : ∀ text ∈ p.steps.map String.toList, '/' ∉ text := by
  intro text h
  obtain ⟨s, hs, rfl⟩ := List.mem_map.1 h
  exact (p.isStep s hs).2.2

/-- The steps with slashes between them do not begin with one. -/
theorem body_ne_slash (p : Path) (rest : List Char) :
    List.intercalate ['/'] (p.steps.map String.toList) ≠ '/' :: rest := by
  obtain ⟨anchor, steps, hs⟩ := p
  cases steps with
  | nil => simp [List.intercalate]
  | cons s more =>
    obtain ⟨hne, _, hslash⟩ := hs s (by simp)
    have hne : s.toList ≠ [] := by simpa using hne
    obtain ⟨c, cs, hcs⟩ := List.exists_cons_of_ne_nil hne
    rw [hcs] at hslash
    intro h
    apply hslash
    cases more with
    | nil => simp_all
    | cons next more => simp_all [List.intercalate_cons_cons]

theorem anchor_ofChars (anchor : Anchor) {body : List Char} (h : ∀ rest, body ≠ '/' :: rest) :
    Anchor.ofChars (anchor.chars ++ body) = anchor := by
  cases body with
  | nil => cases anchor <;> rfl
  | cons c rest =>
    have h : c ≠ '/' := fun hc => h rest (by rw [hc])
    cases anchor <;> simp [Anchor.chars, Anchor.ofChars, h]

theorem isStep_filter_pieces (p : Path) :
    ((Text.pieces '/' (List.intercalate ['/'] (p.steps.map String.toList))).map
      String.ofList).filter (fun s => decide (IsStep s)) = p.steps := by
  by_cases h : p.steps = []
  · rw [h]
    decide
  · rw [Text.pieces_intercalate (by simpa using h) p.slash_notMem, List.map_map,
      show String.ofList ∘ String.toList = id from funext fun s => String.ofList_toList,
      List.map_id, List.filter_eq_self]
    exact fun s hs => by simpa using p.isStep s hs

theorem ofString_text (p : Path) : ofString p.text = p := by
  have key :
      ofChars (p.anchor.chars ++ List.intercalate ['/'] (p.steps.map String.toList)) = p := by
    apply Path.ext (anchor_ofChars p.anchor p.body_ne_slash)
    have h := p.isStep_filter_pieces
    have empty : ¬ IsStep "" := by decide
    cases ha : p.anchor <;> simp_all [ofChars, Anchor.chars, Text.pieces]
  have written : p.text.toList = p.chars := String.toList_ofList
  rw [ofString, written, chars]
  split
  · next ha hs => exact Path.ext ha.symm hs.symm
  · exact key

/-- The path `q` as seen from `p`: an anchored path stands for itself wherever it is seen from. -/
def join (p q : Path) : Path :=
  match q.anchor with
  | .relative =>
    ⟨p.anchor, p.steps ++ q.steps, by
      intro s h
      rcases List.mem_append.1 h with h | h
      · exact p.isStep s h
      · exact q.isStep s h⟩
  | _ => q

/-- `join` with a path given as a string. -/
def child (p : Path) (s : String) : Path :=
  p.join (ofString s)

/-- The last step, or nothing for a path without steps. -/
def name (p : Path) : String :=
  p.steps.getLast?.getD ""

def parent (p : Path) : Path :=
  ⟨p.anchor, p.steps.dropLast, fun s h => p.isStep s ((List.dropLast_sublist _).subset h)⟩

def withName (p : Path) (name : String) : Path :=
  p.parent.child name

/-- Whether the steps of `p` begin with those of `root`. -/
def isWithin (p root : Path) : Bool :=
  p.anchor = root.anchor && root.steps.isPrefixOf p.steps

/-- A path that no file can have, since a zero character would end it. -/
def hasZero (p : Path) : Bool :=
  p.steps.any fun s => s.toList.contains (Char.ofNat 0)

end Path

end BuildHook
