import BuildHook.Text.Order
import Mathlib.Data.List.Sort
import Mathlib.Data.String.Basic

/-!
# Sorted texts

Sorting keeps the texts of a list, and sorted sets are strictly ascending.
-/

namespace BuildHook.Text

variable {α : Type} (r : α → α → Prop) [DecidableRel r]

theorem insertBy_eq_orderedInsert (x : α) (ys : List α) :
    insertBy (fun x y => decide (r x y)) x ys = ys.orderedInsert r x := by
  induction ys with
  | nil => rfl
  | cons y ys ih =>
    rw [insertBy, List.orderedInsert_cons, ih]
    by_cases h : r x y <;> simp [h]

theorem sortBy_eq_insertionSort (xs : List α) :
    sortBy (fun x y => decide (r x y)) xs = xs.insertionSort r := by
  unfold sortBy List.insertionSort
  congr 1
  funext x ys
  exact insertBy_eq_orderedInsert r x ys

-- The first occurrences of a list repeat nothing: what follows the first item no longer holds it.
theorem nodup_eraseDups [DecidableEq α] (xs : List α) : xs.eraseDups.Nodup := by
  match xs with
  | [] => exact List.nodup_nil
  | x :: xs =>
    rw [List.eraseDups_cons, List.nodup_cons, List.mem_eraseDups]
    exact ⟨by simp, nodup_eraseDups _⟩
termination_by xs.length
decreasing_by
  have hle := List.length_filter_le (fun y => !y == x) xs
  rw [List.length_cons]
  omega

variable {texts : List String} {text : String}

theorem sorted_perm (texts : List String) : (sorted texts).Perm texts := by
  unfold sorted
  rw [sortBy_eq_insertionSort]
  exact List.perm_insertionSort _ _

theorem pairwise_sorted (texts : List String) : (sorted texts).Pairwise (· ≤ ·) := by
  unfold sorted
  rw [sortBy_eq_insertionSort]
  exact List.pairwise_insertionSort _ _

theorem mem_sortedSet : text ∈ sortedSet texts ↔ text ∈ texts := by
  unfold sortedSet
  rw [(sorted_perm _).mem_iff, List.mem_eraseDups]

-- What is ascending without repetitions is strictly ascending.
theorem pairwise_sorted_of_nodup (h : texts.Nodup) : (sorted texts).Pairwise (· < ·) := by
  have hboth := (pairwise_sorted texts).and ((sorted_perm texts).nodup_iff.mpr h)
  exact hboth.imp fun h => lt_of_le_of_ne h.1 h.2

theorem pairwise_sortedSet (texts : List String) : (sortedSet texts).Pairwise (· < ·) :=
  pairwise_sorted_of_nodup (nodup_eraseDups _)

end BuildHook.Text
