import BuildHook.Toml.Draft

/-!
# Ways to tables

What happens at a place in a document happens to the table that stands there. A way to a place says
what the document is for each table that may stand at its end, so that a change at the place is a
change of that table.
-/

namespace BuildHook.Toml

variable {t content : Table} {key : String} {value : Value} {place : Key} {fill : Table → Table}

namespace Table

theorem put_of_notMem (h : key ∉ t.keys) (value : Value) :
    t.put key value = t ++ [(key, value)] := by
  induction t with
  | nil => rfl
  | cons entry rest ih =>
    obtain ⟨name, old⟩ := entry
    have hname : name ≠ key := fun heq => h (by simp [Table.keys, heq])
    have hrest : key ∉ Table.keys rest := fun hmem => h (List.mem_cons_of_mem _ hmem)
    rw [Table.put, if_neg hname, ih hrest]
    rfl

theorem get?_concat (h : key ∉ t.keys) (value : Value) :
    Table.get? (t ++ [(key, value)]) key = some value := by
  rw [← put_of_notMem h, get?_put, if_pos rfl]

theorem put_concat (h : key ∉ t.keys) (old value : Value) :
    Table.put (t ++ [(key, old)]) key value = t ++ [(key, value)] := by
  induction t with
  | nil => simp [put]
  | cons entry rest ih =>
    obtain ⟨name, first⟩ := entry
    have hname : name ≠ key := fun heq => h (by simp [Table.keys, heq])
    have hrest : key ∉ Table.keys rest := fun hmem => h (List.mem_cons_of_mem _ hmem)
    rw [List.cons_append, put, if_neg hname, ih hrest]
    rfl

theorem addNew_of_notMem (h : key ∉ t.keys) (value : Value) :
    Table.addNew key value t = some (t ++ [(key, value)]) := by
  rw [Table.addNew, Table.get?_eq_none_iff.mpr h, put_of_notMem h]
  rfl

/-- Whether `t` is the table at a place of a document, and `fill` gives the document with another
table there. A table that is missing counts as empty. -/
def Leads (content : Table) (place : Key) (fill : Table → Table) (t : Table) : Prop :=
  ∀ change rest, Table.modify change (place ++ rest) content =
    (Table.modify change rest t).map fill

/-- Whether each table leads to itself at the end of a way. -/
def IsWay (place : Key) (fill : Table → Table) : Prop :=
  ∀ t, Leads (fill t) place fill t

theorem isWay_id : IsWay [] id := by
  intro t change rest
  rw [Option.map_id]
  rfl

theorem Leads.modify (h : Leads content place fill t) (change : Table → Option Table) :
    Table.modify change place content = (change t).map fill := by
  have hchange := h change []
  rwa [List.append_nil] at hchange

/-- A missing table is made by the first change in it. -/
theorem Leads.absent (h : Leads content place fill t) (hkey : key ∉ t.keys) :
    Leads content (place ++ [key]) (fun inner => fill (t ++ [(key, .table inner)])) [] := by
  intro change rest
  rw [List.append_assoc, List.singleton_append, h, Table.modify, get?_eq_none_iff.mpr hkey]
  simp only [Option.map_map]
  congr 1
  funext inner
  rw [Function.comp_apply, put_of_notMem hkey]

theorem IsWay.table (h : IsWay place fill) (hkey : key ∉ t.keys) :
    IsWay (place ++ [key]) fun inner => fill (t ++ [(key, .table inner)]) := by
  intro inner change rest
  rw [List.append_assoc, List.singleton_append, h, Table.modify, get?_concat hkey]
  simp only [Option.map_map]
  congr 1
  funext next
  rw [Function.comp_apply, put_concat hkey]

/-- The way to the last table of an array. -/
theorem IsWay.element (h : IsWay place fill) (hkey : key ∉ t.keys) (items : List Value) :
    IsWay (place ++ [key]) fun inner => fill (t ++ [(key, .array (items ++ [.table inner]))]) := by
  intro inner change rest
  rw [List.append_assoc, List.singleton_append, h, Table.modify, get?_concat hkey]
  simp only [List.getLast?_concat, List.dropLast_concat, Option.map_map]
  congr 1
  funext next
  rw [Function.comp_apply, put_concat hkey]

end Table

namespace Draft

variable {d : Draft}

/-- Gives keys of the table at a place their values one after the other. -/
def assignAll (d : Draft) (place : Key) (entries : Table) : Option Draft :=
  entries.foldlM (fun d entry => d.assign (place ++ [entry.1]) entry.2) d

theorem assignAll_cons (d : Draft) (place : Key) (key : String) (value : Value) (rest : Table) :
    d.assignAll place ((key, value) :: rest) =
      (d.assign (place ++ [key]) value).bind fun d => d.assignAll place rest := by
  rw [assignAll, List.foldlM_cons]
  rfl

/-- A key that is new in an open table takes its value there. -/
theorem assign_new (hway : Table.IsWay place fill) (hcontent : d.content = fill t)
    (hkey : key ∉ t.keys) (hopen : ∀ closed ∈ d.closed, ¬ closed <+: place) (value : Value) :
    ∃ next : Draft, d.assign (place ++ [key]) value = some next ∧
      next.content = fill (t ++ [(key, value)]) ∧
      ∀ closed ∈ next.closed, closed ∈ d.closed ∨ closed = place ++ [key] := by
  have hnotClosed : d.isClosed place = false := by
    rw [isClosed, List.any_eq_false]
    exact fun closed hclosed hprefix =>
      hopen closed hclosed (List.isPrefixOf_iff_prefix.mp hprefix)
  have hmodify := (hway t).modify (Table.addNew key value)
  rw [Table.addNew_of_notMem hkey, ← hcontent] at hmodify
  simp only [assign, List.getLast?_concat, List.dropLast_concat, hnotClosed,
    Bool.false_eq_true, ↓reduceIte, hmodify, Option.map_some]
  cases value <;> exact ⟨_, rfl, rfl, by simp +contextual [or_comm]⟩

/-- Keys that are new in an open table take their values there in their order. What is closed by
them is closed below the table. -/
theorem assignAll_new (hway : Table.IsWay place fill) (entries : Table)
    (hcontent : d.content = fill t) (hkeys : (t.keys ++ Table.keys entries).Nodup)
    (hopen : ∀ closed ∈ d.closed, ¬ closed <+: place) :
    ∃ d', d.assignAll place entries = some d' ∧
      d'.content = fill (t ++ entries) ∧ ∀ closed ∈ d'.closed,
        closed ∈ d.closed ∨ ∃ entry ∈ entries, closed = place ++ [entry.1] := by
  induction entries generalizing d t with
  | nil => exact ⟨d, rfl, by rw [hcontent, List.append_nil], fun _ => .inl⟩
  | cons entry entries ih =>
    obtain ⟨key, value⟩ := entry
    have hkey : key ∉ t.keys := fun hmem =>
      (List.nodup_append.mp hkeys).2.2 key hmem key (by simp [Table.keys]) rfl
    obtain ⟨next, hassign, hnext, hmarks⟩ := assign_new hway hcontent hkey hopen value
    have hstay : ∀ closed ∈ next.closed, ¬ closed <+: place := by
      intro closed hclosed hprefix
      rcases hmarks closed hclosed with hold | rfl
      · exact hopen closed hold hprefix
      · have hlength := hprefix.length_le
        rw [List.length_append] at hlength
        exact absurd hlength (Nat.not_succ_le_self _)
    have hkeys' : (Table.keys (t ++ [(key, value)]) ++ Table.keys entries).Nodup := by
      simpa [Table.keys] using hkeys
    obtain ⟨last, hfold, hlast, hclosed⟩ := ih hnext hkeys' hstay
    refine ⟨last, ?_, by rw [hlast, List.append_assoc]; rfl, fun closed hmem => ?_⟩
    · rw [assignAll_cons, hassign]
      exact hfold
    · rcases hclosed closed hmem with hold | ⟨other, hother, rfl⟩
      · rcases hmarks closed hold with hold | rfl
        · exact .inl hold
        · exact .inr ⟨_, List.mem_cons_self, rfl⟩
      · exact .inr ⟨other, List.mem_cons_of_mem _ hother, rfl⟩

/-- Entries with distinct keys make their table. -/
theorem assignAll_empty {entries : Table} (h : (Table.keys entries).Nodup) :
    ∃ d, empty.assignAll [] entries = some d ∧ d.content = entries := by
  obtain ⟨d, hassign, hcontent, -⟩ :=
    assignAll_new (d := empty) (t := []) Table.isWay_id entries rfl h (List.forall_mem_nil _)
  exact ⟨d, hassign, hcontent⟩

end Draft

end BuildHook.Toml
