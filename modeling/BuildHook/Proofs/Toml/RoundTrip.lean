import BuildHook.Proofs.Toml.Assembly

/-!
# Documents read back

A document that was written reads back as its table. Only the order of keys differs: plain values
come before sub-tables at every level.
-/

namespace BuildHook.Toml

variable {t entries rest : Table} {value : Value} {key : String} {items : List Value}

/-- Whether two values say the same: tables have the same keys with values that say the same, arrays
the same items in their order, and all others are equal. The order of keys does not count. -/
inductive Value.Alike : Value → Value → Prop
  | scalar {value : Value} (h : value.isScalar = true) : Alike value value
  | array {items others : List Value} (h : List.Forall₂ Alike items others) :
    Alike (.array items) (.array others)
  | table {entries others : Table}
    (h : ∀ key, Option.Rel Alike (Table.get? entries key) (Table.get? others key)) :
    Alike (.table entries) (.table others)

theorem Value.Alike.refl (value : Value) : value.Alike value := by
  induction value using Value.induction_on_members with
  | scalar value h => exact .scalar h
  | array items ih => exact .array (List.forall₂_same.mpr ih)
  | table entries ih =>
    refine .table fun key => ?_
    cases h : Table.get? entries key with
    | none => exact .none
    | some inner => exact .some (ih _ (mem_of_get? h))

theorem isTable_of_isScalar (h : value.isScalar = true) : value.isTable = false := by
  cases value with
  | table entries => cases h
  | _ => rfl

/-- Values that say the same do so at every place. -/
theorem Value.Alike.at? {other : Value} (h : value.Alike other) (place : Key) :
    Option.Rel Alike (value.at? place) (other.at? place) := by
  induction place generalizing value other with
  | nil => exact .some h
  | cons key place ih =>
    cases h with
    | scalar hscalar =>
      rw [at?_of_not_table (isTable_of_isScalar hscalar)]
      exact .none
    | array _ => exact .none
    | @table entries others hentries =>
      have hinner := hentries key
      rw [at?_table_cons, at?_table_cons]
      generalize entries.get? key = mine, others.get? key = theirs at hinner
      cases hinner with
      | some hinner => exact ih hinner
      | none => exact .none

theorem Value.Alike.eq_scalar_iff {other inner : Value} (h : value.Alike other)
    (hscalar : inner.isScalar = true) : value = inner ↔ other = inner := by
  cases h with
  | scalar _ => rfl
  | array _ => constructor <;> rintro rfl <;> cases hscalar
  | table _ => constructor <;> rintro rfl <;> cases hscalar

theorem Value.Alike.at?_eq_scalar {other inner : Value} {place : Key} (h : value.Alike other)
    (hscalar : inner.isScalar = true) :
    value.at? place = some inner ↔ other.at? place = some inner := by
  have hrel := h.at? place
  generalize value.at? place = mine, other.at? place = theirs at hrel
  cases hrel with
  | some halike => rw [Option.some_inj, Option.some_inj, halike.eq_scalar_iff hscalar]
  | none => rfl

/-- A value in the order in which it is written. -/
def Value.arranged : Value → Value
  | .table entries => .table (Toml.arranged entries)
  | .array items => if isSpread (.array items) then .array (arrangedItems items) else .array items
  | value => value

theorem Value.arranged_of_isPlain (h : isPlain value = true) : value.arranged = value := by
  cases value with
  | table entries => cases h
  | array items =>
    rw [isPlain_array] at h
    rw [Value.arranged, if_neg (by simpa using h)]
  | _ => rfl

theorem get?_append (t rest : Table) (key : String) :
    Table.get? (t ++ rest) key = (t.get? key).or (rest.get? key) := by
  induction t with
  | nil => rfl
  | cons entry t ih =>
    obtain ⟨name, value⟩ := entry
    rw [List.cons_append, Table.get?, Table.get?, ih]
    split <;> rfl

theorem get?_filter (h : t.keys.Nodup) (kind : Value → Bool) (key : String) :
    Table.get? (t.filter fun entry => kind entry.2) key = (t.get? key).filter kind := by
  induction t with
  | nil => rfl
  | cons entry t ih =>
    obtain ⟨name, value⟩ := entry
    obtain ⟨hname, hkeys⟩ := List.nodup_cons.mp h
    have hrest := ih hkeys
    by_cases hkey : name = key
    · subst hkey
      have hnone : Table.get? t name = none := Table.get?_eq_none_iff.mpr hname
      rw [hnone] at hrest
      cases hkind : kind value <;> simp [Table.get?, Option.filter, hkind, hrest]
    · cases hkind : kind value <;> simp [Table.get?, hkind, hkey, hrest]

/-- Below its plain values a table holds each other value at its key. -/
theorem arrangedBelow_eq (entries : Table) :
    arrangedBelow entries = (entries.filter fun entry => !isPlain entry.2).map
      fun entry => (entry.1, entry.2.arranged) := by
  induction entries with
  | nil => rw [arrangedBelow]; rfl
  | cons entry rest ih =>
    obtain ⟨key, value⟩ := entry
    cases value with
    | table inner => rw [arrangedBelow, ih]; rfl
    | array items =>
      rw [arrangedBelow, ih]
      by_cases h : isSpread (.array items) = true
      · have hplain : isPlain (.array items) = false := by rw [isPlain_array, h]; rfl
        have hitems : (Value.array items).arranged = .array (arrangedItems items) := if_pos h
        rw [if_pos h, List.filter_cons_of_pos (by simp [hplain]), List.map_cons, hitems]
        rfl
      · have hplain : isPlain (.array items) = true := by simp [isPlain_array, h]
        rw [if_neg h, List.filter_cons_of_neg (by simp [hplain])]
        rfl
    | _ =>
      rw [arrangedBelow, ih]
      · rfl
      all_goals rintro _ _ ⟨⟩

theorem get?_map_arranged (entries : Table) (key : String) :
    Table.get? (entries.map fun entry => (entry.1, entry.2.arranged)) key =
      (entries.get? key).map Value.arranged := by
  induction entries with
  | nil => rfl
  | cons entry rest ih =>
    obtain ⟨name, value⟩ := entry
    rw [List.map_cons, Table.get?, Table.get?, ih]
    split <;> rfl

/-- Keys have the values that they had, each arranged. -/
theorem get?_arranged (h : t.keys.Nodup) (key : String) :
    (arranged t).get? key = (t.get? key).map Value.arranged := by
  rw [arranged, get?_append, arrangedBelow_eq, get?_map_arranged, plainEntries, get?_filter h,
    get?_filter h fun value => !isPlain value]
  cases t.get? key with
  | none => rfl
  | some value =>
    cases hplain : isPlain value with
    | true => simp [hplain, Value.arranged_of_isPlain hplain]
    | false => simp [hplain]

theorem arrangedItems_eq (h : ∀ item ∈ items, item.isTable = true) :
    arrangedItems items = items.map Value.arranged := by
  induction items with
  | nil => rw [arrangedItems]; rfl
  | cons item items ih =>
    obtain ⟨hitem, hitems⟩ := List.forall_mem_cons.mp h
    obtain ⟨entries, rfl⟩ := exists_table hitem
    rw [arrangedItems, ih hitems]
    rfl

theorem alike_arranged (h : value.WellFormed) : value.arranged.Alike value := by
  induction value using Value.induction_on_members with
  | scalar value hscalar =>
    have hsame : value.arranged = value := by
      cases value with
      | array items => cases hscalar
      | table entries => cases hscalar
      | _ => rfl
    exact hsame.symm ▸ .refl value
  | array items ih =>
    rw [Value.arranged]
    split
    · next hspread =>
      rw [isSpread, Bool.and_eq_true, Bool.and_eq_true, List.all_eq_true] at hspread
      rw [arrangedItems_eq hspread.1.2]
      refine .array (List.forall₂_map_left_iff.mpr (List.forall₂_same.mpr fun item hitem => ?_))
      exact ih item hitem (wellFormed_array.mp h item hitem)
    · exact .refl _
  | table entries ih =>
    obtain ⟨hkeys, hentries⟩ := wellFormed_table.mp h
    refine .table fun key => ?_
    rw [get?_arranged hkeys]
    cases hget : Table.get? entries key with
    | none => exact .none
    | some inner => exact .some (ih _ (mem_of_get? hget) (hentries _ (mem_of_get? hget)))

/-- A written document reads back, and says the same as its table. -/
theorem exists_parse_print (h : (Value.table t).Writable) :
    ∃ table, parse (print t) = .ok table ∧ (Value.table table).Alike (.table t) := by
  obtain ⟨last, hassembled, hcontent⟩ := foldlM_statementsOf h.wellFormed
  refine ⟨arranged t, ?_, alike_arranged h.wellFormed⟩
  rw [parse_print h, hassembled, ← hcontent]
  rfl

end BuildHook.Toml
