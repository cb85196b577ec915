import BuildHook.Toml.Merge
import Mathlib.Data.List.Induction

/-!
# What merged tables hold

What the tables of a list laid over each other hold at a place depends on the last table that has
something to say about the place: a value there, or a value on the way to it that is no table.
-/

namespace BuildHook.Toml

mutual

/-- Whether each table that keys lead to has each of its keys once. -/
def Value.isDistinct : Value → Bool
  | .table entries => decide (Table.keys entries).Nodup && areDistinct entries
  | _ => true

def areDistinct : List (String × Value) → Bool
  | [] => true
  | (_, value) :: rest => value.isDistinct && areDistinct rest

end

/-- Whether a value that is no table stands on the way to a place, before the place itself. -/
def Value.Cuts (value : Value) (place : Key) : Prop :=
  ∃ before inner, before <+: place ∧ before ≠ place ∧ value.at? before = some inner ∧
    inner.isTable = false

/-- Whether a table of a list has something to tell and none after it spoils that. -/
def Settled (tables : List Table) (tells spoils : Table → Prop) : Prop :=
  ∃ earlier table later, tables = earlier ++ table :: later ∧ tells table ∧
    ∀ other ∈ later, ¬ spoils other

variable {below above : Table} {value old : Value} {key : String} {place : Key}

/-! ## One key -/

theorem isDistinct_of_get? {entries : Table} (h : areDistinct entries = true)
    (hget : entries.get? key = some value) : value.isDistinct = true := by
  induction entries with
  | nil => cases hget
  | cons entry rest ih =>
    obtain ⟨name, first⟩ := entry
    rw [areDistinct, Bool.and_eq_true] at h
    rw [Table.get?] at hget
    split at hget
    · exact Option.some.inj hget ▸ h.1
    · exact ih h.2 hget

-- What stands at a key when a value is laid over what may stand there.
def laidOver (old : Option Value) (value : Value) : Value :=
  match old with
  | some old => old.overlay value
  | none => value

theorem merge_cons (below : Table) (key : String) (value : Value) (rest : Table) :
    merge below ((key, value) :: rest) =
      merge (below.put key (laidOver (below.get? key) value)) rest := by
  rw [merge]
  rfl

/-- Each key has the value of the upper table laid over that of the lower one. -/
theorem get?_merge (below : Table) {above : Table} (h : above.keys.Nodup) (key : String) :
    (merge below above).get? key =
      match above.get? key with
      | some value => some (laidOver (below.get? key) value)
      | none => below.get? key := by
  induction above generalizing below with
  | nil => rw [merge]; rfl
  | cons entry rest ih =>
    obtain ⟨name, value⟩ := entry
    obtain ⟨hnew, hrest⟩ := List.nodup_cons.mp h
    have hnone : Table.get? rest name = none := Table.get?_eq_none_iff.mpr hnew
    rw [merge_cons, ih _ hrest, Table.get?_put, Table.get?]
    by_cases hkey : name = key
    · subst hkey
      rw [hnone, if_pos rfl, if_pos rfl]
    · rw [if_neg hkey, if_neg hkey]

/-! ## A place -/

theorem exists_table (h : value.isTable = true) : ∃ entries, value = .table entries := by
  cases value with
  | table entries => exact ⟨entries, rfl⟩
  | _ => cases h

theorem at?_of_not_table (h : value.isTable = false) (key : String) (place : Key) :
    value.at? (key :: place) = none := by
  cases value with
  | table entries => cases h
  | _ => rfl

theorem at?_table_cons (entries : Table) (key : String) (place : Key) :
    (Value.table entries).at? (key :: place) =
      (entries.get? key).bind fun inner => inner.at? place := by
  rw [Value.at?]

theorem cuts_cons_of_not_table (h : value.isTable = false) (key : String) (place : Key) :
    value.Cuts (key :: place) :=
  ⟨[], value, List.nil_prefix, (List.cons_ne_nil key place).symm, rfl, h⟩

theorem cuts_table_cons {entries : Table} :
    (Value.table entries).Cuts (key :: place) ↔
      ∃ inner, entries.get? key = some inner ∧ inner.Cuts place := by
  constructor
  · rintro ⟨before, found, hprefix, hne, hat, hplain⟩
    cases before with
    | nil =>
      obtain rfl : .table entries = found := Option.some.inj hat
      cases hplain
    | cons first before =>
      obtain ⟨rfl, hrest⟩ := List.cons_prefix_cons.mp hprefix
      rw [at?_table_cons, Option.bind_eq_some_iff] at hat
      obtain ⟨inner, hinner, hat⟩ := hat
      exact ⟨inner, hinner, before, found, hrest, fun h => hne (h ▸ rfl), hat, hplain⟩
  · rintro ⟨inner, hinner, before, found, hprefix, hne, hat, hplain⟩
    refine ⟨key :: before, found, List.cons_prefix_cons.mpr ⟨rfl, hprefix⟩,
      fun h => hne (List.cons.inj h).2, ?_, hplain⟩
    rw [at?_table_cons, hinner]
    exact hat

theorem overlay_of_not_table_left (h : old.isTable = false) (value : Value) :
    old.overlay value = value := by
  cases old with
  | table entries => cases h
  | _ => rw [Value.overlay]; intros; contradiction

theorem overlay_of_not_table_right (old : Value) (h : value.isTable = false) :
    old.overlay value = value := by
  cases value with
  | table entries => cases h
  | _ => rw [Value.overlay]; intros; contradiction

theorem laidOver_of_not_table (old : Option Value) (h : value.isTable = false) :
    laidOver old value = value := by
  cases old with
  | none => rfl
  | some old => exact overlay_of_not_table_right old h

open Classical in
/-- What stands at a place when one value is laid over another: the upper value decides where it
has something there or on the way, and otherwise the lower one remains. -/
theorem at?_overlay (old : Value) {value : Value} (h : value.isDistinct = true) (place : Key) :
    (old.overlay value).at? place =
      match value.at? place with
      | some inner => some (laidOver (old.at? place) inner)
      | none => if value.Cuts place then none else old.at? place := by
  induction place generalizing old value with
  | nil => rfl
  | cons key place ih =>
    cases hvalue : value.isTable with
    | false =>
      rw [overlay_of_not_table_right old hvalue, at?_of_not_table hvalue,
        if_pos (cuts_cons_of_not_table hvalue key place)]
    | true =>
      obtain ⟨above, rfl⟩ := exists_table hvalue
      cases hold : old.isTable with
      | false =>
        -- nothing stands behind the lower value, and all of the upper one remains
        rw [overlay_of_not_table_left hold, at?_of_not_table hold]
        cases (Value.table above).at? (key :: place) <;> simp [laidOver]
      | true =>
        obtain ⟨below, rfl⟩ := exists_table hold
        rw [Value.isDistinct, Bool.and_eq_true, decide_eq_true_eq] at h
        rw [Value.overlay, at?_table_cons, at?_table_cons, at?_table_cons, get?_merge below h.1,
          cuts_table_cons]
        cases hinner : Table.get? above key with
        | none => simp
        | some inner =>
          have hcuts : (∃ found, some inner = some found ∧ found.Cuts place) ↔
              inner.Cuts place := by
            simp
          rw [hcuts]
          cases Table.get? below key with
          | none => cases hat : inner.at? place <;> simp [laidOver, hat]
          | some lower => exact ih lower (isDistinct_of_get? h.2 hinner)

-- Laid over anything, a table stays a table and a plain value stays what it is.
theorem isTable_laidOver (old : Option Value) (value : Value) :
    (laidOver old value).isTable = value.isTable := by
  cases hvalue : value.isTable with
  | false => rw [laidOver_of_not_table old hvalue, hvalue]
  | true =>
    obtain ⟨above, rfl⟩ := exists_table hvalue
    cases old with
    | none => rfl
    | some old =>
      cases hold : old.isTable with
      | false => rw [laidOver, overlay_of_not_table_left hold]; rfl
      | true =>
        obtain ⟨below, rfl⟩ := exists_table hold
        rw [laidOver, Value.overlay]; rfl

/-! ## Lists of tables -/

theorem settled_nil {tells spoils : Table → Prop} : ¬ Settled [] tells spoils := by
  rintro ⟨earlier, table, later, h, -⟩
  simp at h

/-- The last table tells, or it does not spoil what is settled before it. -/
theorem settled_concat {tables : List Table} {table : Table} {tells spoils : Table → Prop} :
    Settled (tables ++ [table]) tells spoils ↔
      tells table ∨ Settled tables tells spoils ∧ ¬ spoils table := by
  constructor
  · rintro ⟨earlier, first, later, hsplit, htells, hlater⟩
    rcases List.eq_nil_or_concat later with rfl | ⟨later, last, rfl⟩
    · obtain ⟨rfl, hlast⟩ := List.append_inj' hsplit rfl
      obtain rfl : table = first := by simpa using hlast
      exact .inl htells
    · rw [List.concat_eq_append, ← List.cons_append, ← List.append_assoc] at hsplit
      obtain ⟨rfl, hlast⟩ := List.append_inj' hsplit rfl
      obtain rfl : table = last := by simpa using hlast
      rw [List.concat_eq_append] at hlater
      exact .inr ⟨⟨earlier, first, later, rfl, htells, fun other h => hlater other (by simp [h])⟩,
        hlater table (by simp)⟩
  · rintro (htells | ⟨⟨earlier, first, later, rfl, htells, hlater⟩, hspoils⟩)
    · exact ⟨tables, table, [], rfl, htells, nofun⟩
    · refine ⟨earlier, first, later ++ [table], by simp, htells, fun other h => ?_⟩
      rcases List.mem_append.mp h with h | h
      · exact hlater other h
      · rw [List.mem_singleton.mp h]
        exact hspoils

theorem mergeAll_concat (tables : List Table) (table : Table) :
    mergeAll (tables ++ [table]) = merge (mergeAll tables) table := by
  rw [mergeAll, List.foldl_append]
  rfl

-- Tables can always be merged.
theorem foldlM_merge (tables : List Table) (start : Table) :
    tables.foldlM (fun below above => below.merge (.table above)) (Value.table start) =
      .ok (.table (tables.foldl merge start)) := by
  induction tables generalizing start with
  | nil => rfl
  | cons table rest ih => exact ih (merge start table)

open Classical in
theorem at?_merge (below : Table) {above : Table} (h : (Value.table above).isDistinct = true)
    (place : Key) :
    (Value.table (merge below above)).at? place =
      match (Value.table above).at? place with
      | some inner => some (laidOver ((Value.table below).at? place) inner)
      | none => if (Value.table above).Cuts place then none else (Value.table below).at? place := by
  rw [← at?_overlay (.table below) h place, Value.overlay]

theorem ne_of_isTable {other : Value} (h : value.isTable = true) (hother : other.isTable = false) :
    value ≠ other := by
  rintro rfl
  rw [h] at hother
  cases hother

-- A plain value of the result comes from the upper table, or the upper one has nothing to say.
theorem at?_merge_eq_plain (h : (Value.table above).isDistinct = true)
    (hvalue : value.isTable = false) :
    (Value.table (merge below above)).at? place = some value ↔
      (Value.table above).at? place = some value ∨ (Value.table below).at? place = some value ∧
        ¬ ((∃ other, (Value.table above).at? place = some other) ∨
          (Value.table above).Cuts place) := by
  rw [at?_merge below h]
  cases (Value.table above).at? place with
  | none => by_cases hcuts : (Value.table above).Cuts place <;> simp [hcuts]
  | some inner =>
    cases hinner : inner.isTable with
    | false => simp [laidOver_of_not_table _ hinner]
    | true =>
      have hlaid : (laidOver ((Value.table below).at? place) inner).isTable = true := by
        rw [isTable_laidOver, hinner]
      simp [ne_of_isTable hlaid hvalue, ne_of_isTable hinner hvalue]

-- A table of the result comes from the upper table, or the upper one does not replace it.
theorem at?_merge_eq_table (h : (Value.table above).isDistinct = true) :
    (∃ entries, (Value.table (merge below above)).at? place = some (.table entries)) ↔
      (∃ entries, (Value.table above).at? place = some (.table entries)) ∨
        (∃ entries, (Value.table below).at? place = some (.table entries)) ∧
          ¬ ((∃ other, (Value.table above).at? place = some other ∧ other.isTable = false) ∨
            (Value.table above).Cuts place) := by
  rw [at?_merge below h]
  cases (Value.table above).at? place with
  | none => by_cases hcuts : (Value.table above).Cuts place <;> simp [hcuts]
  | some inner =>
    cases hinner : inner.isTable with
    | false =>
      have hne : ∀ entries, inner ≠ .table entries :=
        fun entries => (ne_of_isTable rfl hinner).symm
      simp [laidOver_of_not_table _ hinner, hne, hinner]
    | true =>
      obtain ⟨merged, hmerged⟩ := exists_table
        ((isTable_laidOver ((Value.table below).at? place) inner).trans hinner)
      obtain ⟨entries, rfl⟩ := exists_table hinner
      simp [hmerged]

variable {tables : List Table}

theorem at?_mergeAll_eq_plain (h : ∀ table ∈ tables, (Value.table table).isDistinct = true)
    (hplace : place ≠ []) (hvalue : value.isTable = false) :
    (Value.table (mergeAll tables)).at? place = some value ↔
      Settled tables (fun table => (Value.table table).at? place = some value)
        fun table => (∃ other, (Value.table table).at? place = some other) ∨
          (Value.table table).Cuts place := by
  induction tables using List.reverseRecOn with
  | nil =>
    obtain ⟨key, rest, rfl⟩ := List.exists_cons_of_ne_nil hplace
    exact ⟨nofun, fun hsettled => absurd hsettled settled_nil⟩
  | append_singleton tables table ih =>
    have hrest := ih fun other hother => h other (List.mem_append_left _ hother)
    rw [mergeAll_concat, at?_merge_eq_plain (h table (by simp)) hvalue, hrest, settled_concat]

theorem at?_mergeAll_eq_table (h : ∀ table ∈ tables, (Value.table table).isDistinct = true)
    (hplace : place ≠ []) :
    (∃ entries, (Value.table (mergeAll tables)).at? place = some (.table entries)) ↔
      Settled tables (fun table => ∃ entries, (Value.table table).at? place = some (.table entries))
        fun table => (∃ other, (Value.table table).at? place = some other ∧
          other.isTable = false) ∨ (Value.table table).Cuts place := by
  induction tables using List.reverseRecOn with
  | nil =>
    obtain ⟨key, rest, rfl⟩ := List.exists_cons_of_ne_nil hplace
    refine ⟨?_, fun hsettled => absurd hsettled settled_nil⟩
    rintro ⟨_, hentries⟩
    cases hentries
  | append_singleton tables table ih =>
    have hrest := ih fun other hother => h other (List.mem_append_left _ hother)
    rw [mergeAll_concat, at?_merge_eq_table (h table (by simp)), hrest, settled_concat]

/-- Tables that have each key once can be laid over each other, and the result holds a plain value
at a place where one of them does and no later one holds anything there or a plain value on the way.
It holds a table where one of them does and no later one holds a plain value there or on the way. -/
theorem mergeAll_meaning (h : ∀ table ∈ tables, (Value.table table).isDistinct = true)
    (hplace : place ≠ []) :
    tables.foldlM (fun below above => below.merge (.table above)) (Value.table []) =
        .ok (.table (mergeAll tables)) ∧
      (∀ value : Value, value.isTable = false →
        ((Value.table (mergeAll tables)).at? place = some value ↔
          Settled tables (fun table => (Value.table table).at? place = some value)
            fun table => (∃ other, (Value.table table).at? place = some other) ∨
              (Value.table table).Cuts place)) ∧
      ((∃ entries, (Value.table (mergeAll tables)).at? place = some (.table entries)) ↔
        Settled tables
          (fun table => ∃ entries, (Value.table table).at? place = some (.table entries))
          fun table => (∃ other, (Value.table table).at? place = some other ∧
            other.isTable = false) ∨ (Value.table table).Cuts place) :=
  ⟨foldlM_merge tables [], fun _ hvalue => at?_mergeAll_eq_plain h hplace hvalue,
    at?_mergeAll_eq_table h hplace⟩

-- A table, then a number in its place, and then a table again.
def layers : List Table :=
  [[("a", .table [("b", .integer 1), ("c", .array [.integer 1])])], [("a", .integer 5)],
    [("a", .table [("c", .integer 2)])]]

theorem mergeAll_meaning_layers :
    (∀ table ∈ layers, (Value.table table).isDistinct = true) ∧
      (Value.table (mergeAll layers)).at? ["a", "c"] = some (.integer 2) ∧
      ¬ Settled layers (fun table => (Value.table table).at? ["a", "b"] = some (.integer 1))
        fun table => (∃ other, (Value.table table).at? ["a", "b"] = some other) ∨
          (Value.table table).Cuts ["a", "b"] := by
  have hdistinct : ∀ table ∈ layers, (Value.table table).isDistinct = true := by decide
  have hlast : layers = layers.take 2 ++ [("a", .table [("c", .integer 2)])] :: [] := rfl
  refine ⟨hdistinct, ?_, fun hsettled => ?_⟩
  · obtain ⟨-, hplain, -⟩ := mergeAll_meaning hdistinct (List.cons_ne_nil "a" ["c"])
    exact (hplain (.integer 2) rfl).mpr ⟨_, _, _, hlast, rfl, nofun⟩
  · -- the number has hidden what the first table holds, for good
    obtain ⟨-, hplain, -⟩ := mergeAll_meaning hdistinct (List.cons_ne_nil "a" ["b"])
    cases (hplain (.integer 1) rfl).mpr hsettled

end BuildHook.Toml
