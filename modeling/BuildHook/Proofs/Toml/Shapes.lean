import BuildHook.Toml.Value
import Mathlib.Tactic.Common

/-!
# Shapes of values

A shape says what a value has to look like. It is decided by one function over shapes, apart from
any reader of settings.
-/

namespace BuildHook.Toml

inductive Shape where
  | anything
  | flag
  /-- A text that is known. -/
  | word (known : String → Bool)
  /-- An array of such values. -/
  | items (inner : Shape)
  /-- A value that can be gone through, with such parts: the items of an array, the characters of a
  text or the keys of a table. -/
  | parts (inner : Shape)
  /-- A table of such values. -/
  | entries (inner : Shape)
  /-- A table that has a setting of this name. -/
  | required (name : String)
  /-- A table whose setting of this name looks so, if it has one. -/
  | setting (name : String) (inner : Shape)
  | either (first second : Shape)
  | both (first second : Shape)

namespace Shape

def admits : Shape → Value → Bool
  | anything, _ => true
  | flag, .boolean _ => true
  | word known, .string text => known text
  | items inner, .array values => values.all inner.admits
  | parts inner, .array values => values.all inner.admits
  | parts inner, .string text => text.toList.all fun c => inner.admits (.string (.singleton c))
  | parts inner, .table t => t.all fun entry => inner.admits (.string entry.1)
  | entries inner, .table t => t.all fun entry => inner.admits entry.2
  | required name, .table t => (Table.get? t name).isSome
  | setting name inner, .table t =>
    match Table.get? t name with
    | none => true
    | some value => inner.admits value
  | either first second, value => first.admits value || second.admits value
  | both first second, value => first.admits value && second.admits value
  | _, _ => false

def text : Shape :=
  word fun _ => true

/-- A table with all of these settings. -/
def record (settings : List Shape) : Shape :=
  settings.foldr both (entries anything)

/-- The shape of a document in which such a table stands at a place, if any does. -/
def within (place : Key) (inner : Shape) : Shape :=
  place.foldr setting inner

variable {first second inner : Shape} {name : String} {t : Table} {value : Value}

theorem admits_both : (both first second).admits value =
    (first.admits value && second.admits value) := by
  cases value <;> rfl

theorem admits_setting_none (h : t.get? name = none) :
    (setting name inner).admits (.table t) = true := by
  simp only [admits, h]

theorem admits_setting_some (h : t.get? name = some value) :
    (setting name inner).admits (.table t) = inner.admits value := by
  simp only [admits, h]

theorem admits_setting_anything : (setting name anything).admits (.table t) = true := by
  cases hget : t.get? name with
  | none => exact admits_setting_none hget
  | some value => exact admits_setting_some hget

theorem admits_record (settings : List Shape) (t : Table) :
    (record settings).admits (.table t) = settings.all fun shape => shape.admits (.table t) := by
  induction settings with
  | nil => simp [record, admits]
  | cons shape rest ih =>
    rw [List.all_cons, ← ih]
    exact admits_both

theorem isTable_of_admits_record {settings : List Shape}
    (h : (record settings).admits value = true) : value.isTable = true := by
  induction settings with
  | nil => cases value <;> first | rfl | cases h
  | cons shape rest ih =>
    have hboth : (shape.admits value && (record rest).admits value) = true := admits_both ▸ h
    exact ih (Bool.and_eq_true_iff.mp hboth).2

theorem admits_record_both {settings ones others : List Shape}
    (h : ∀ t, (settings.all fun shape => shape.admits (.table t)) =
      ((ones.all fun shape => shape.admits (.table t)) &&
        others.all fun shape => shape.admits (.table t))) (value : Value) :
    (record settings).admits value = ((record ones).admits value && (record others).admits value) := by
  by_cases htable : value.isTable = true
  · cases value with
    | table t => rw [admits_record, admits_record, admits_record, h]
    | _ => cases htable
  · have hrefused : ∀ shapes, (record shapes).admits value = false := fun shapes =>
      Bool.eq_false_iff.mpr fun hrecord => htable (isTable_of_admits_record hrecord)
    rw [hrefused, hrefused, hrefused, Bool.false_and]

theorem admits_items_both (h : ∀ value, inner.admits value =
    (first.admits value && second.admits value)) (value : Value) :
    (items inner).admits value = ((parts first).admits value && (items second).admits value) := by
  cases value with
  | array values =>
    rw [admits, admits, admits, funext h]
    induction values with
    | nil => rfl
    | cons value values ih =>
      rw [List.all_cons, List.all_cons, List.all_cons, ih]
      ac_rfl
  | _ => exact (Bool.and_false _).symm

/-- Two shapes of one setting are two settings. -/
theorem admits_setting_both (h : ∀ value, inner.admits value =
    (first.admits value && second.admits value)) (value : Value) :
    (setting name inner).admits value =
      ((setting name first).admits value && (setting name second).admits value) := by
  cases value with
  | table t =>
    cases hget : Table.get? t name with
    | none => rw [admits_setting_none hget, admits_setting_none hget, admits_setting_none hget]; rfl
    | some found =>
      rw [admits_setting_some hget, admits_setting_some hget, admits_setting_some hget, h]
  | _ => rfl

theorem admits_within_both (place : Key) (h : ∀ value, inner.admits value =
    (first.admits value && second.admits value)) (value : Value) :
    (within place inner).admits value =
      ((within place first).admits value && (within place second).admits value) := by
  induction place generalizing value with
  | nil => exact h value
  | cons name place ih => exact admits_setting_both ih value

end Shape

end BuildHook.Toml
