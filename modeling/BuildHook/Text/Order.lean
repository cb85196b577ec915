/-!
# Sorted texts

Texts are sorted by the numbers of their characters.
-/

namespace BuildHook.Text

/-- A list with a new item before the first one that may not stand before it. -/
def insertBy {α : Type} (before : α → α → Bool) (x : α) : List α → List α
  | [] => [x]
  | y :: ys => if before x y then x :: y :: ys else y :: insertBy before x ys

/-- A list sorted by an order that `before` decides; items of equal rank keep their order. -/
def sortBy {α : Type} (before : α → α → Bool) (xs : List α) : List α :=
  xs.foldr (insertBy before) []

def sorted (texts : List String) : List String :=
  sortBy (fun x y => decide (x ≤ y)) texts

/-- Texts in ascending order, each once. -/
def sortedSet (texts : List String) : List String :=
  sorted texts.eraseDups

end BuildHook.Text
