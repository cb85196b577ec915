import BuildHook.Proofs.Toml.Statements

/-!
# Statements assembled

The statements of a table make the table again, with its plain values first and its sub-tables
behind them. While the statements of a sub-table are taken, all that is marked as closed or fixed is
marked below it, so that the tables after it are still free.
-/

namespace BuildHook.Toml

/-! ## The table that is made -/

/-- The plain values of a table. -/
def plainEntries (entries : Table) : Table :=
  entries.filter fun entry => isPlain entry.2

mutual

/-- The sub-tables of a table and its spread arrays, each arranged. -/
def arrangedBelow : List (String × Value) → Table
  | [] => []
  | (key, .table entries) :: rest =>
    (key, .table (plainEntries entries ++ arrangedBelow entries)) :: arrangedBelow rest
  | (key, .array items) :: rest =>
    (if isSpread (.array items) then [(key, .array (arrangedItems items))] else []) ++
      arrangedBelow rest
  | _ :: rest => arrangedBelow rest

def arrangedItems : List Value → List Value
  | [] => []
  | .table entries :: items =>
    .table (plainEntries entries ++ arrangedBelow entries) :: arrangedItems items
  | _ :: items => arrangedItems items

end

/-- A table in the order in which it is written. -/
def arranged (table : Table) : Table :=
  plainEntries table ++ arrangedBelow table

variable {a a' after : Assembly} {place : Key} {key : String} {fill : Table → Table}
  {t entries others : Table} {value : Value}

theorem isPlain_table (entries : Table) : isPlain (.table entries) = false := rfl

theorem isPlain_array (items : List Value) : isPlain (.array items) = !isSpread (.array items) :=
  rfl

theorem arrangedBelow_ne_nil {entry : String × Value} (h : isPlain entry.2 = false) :
    arrangedBelow (entry :: others) ≠ [] := by
  obtain ⟨key, value⟩ := entry
  cases value with
  | table entries =>
    rw [arrangedBelow]
    exact List.cons_ne_nil _ _
  | array items =>
    rw [isPlain_array, Bool.not_eq_false'] at h
    rw [arrangedBelow, if_pos h]
    exact List.cons_ne_nil _ _
  | _ => cases h

/-! ## Marks -/

namespace Assembly

/-- What a run of statements adds to the marks of an assembly lies at a place or below it. -/
structure MarksBelow (a a' : Assembly) (place : Key) : Prop where
  closed : ∀ mark ∈ a'.closed, mark ∈ a.closed ∨ ∃ key, place ++ [key] <+: mark
  fixed : ∀ mark ∈ a'.fixed, mark ∈ a.fixed ∨ place <+: mark

theorem MarksBelow.refl (a : Assembly) (place : Key) : a.MarksBelow a place :=
  ⟨fun _ => .inl, fun _ => .inl⟩

theorem MarksBelow.trans (h : a.MarksBelow after place) (hafter : after.MarksBelow a' place) :
    a.MarksBelow a' place where
  closed mark hmark := (hafter.closed mark hmark).elim (h.closed mark) .inr
  fixed mark hmark := (hafter.fixed mark hmark).elim (h.fixed mark) .inr

theorem MarksBelow.outer (h : a.MarksBelow a' (place ++ [key])) : a.MarksBelow a' place where
  closed mark hmark := by
    rcases h.closed mark hmark with hold | ⟨inner, hbelow⟩
    · exact .inl hold
    · exact .inr ⟨key, (List.prefix_append _ _).trans hbelow⟩
  fixed mark hmark := (h.fixed mark hmark).imp_right (List.prefix_append _ _).trans

/-- Whether nothing at a place is marked, and the place is in nothing that is closed. -/
structure Free (a : Assembly) (place : Key) : Prop where
  outside : ∀ mark ∈ a.closed, ¬ mark <+: place
  closed : ∀ mark ∈ a.closed, ¬ place <+: mark
  fixed : ∀ mark ∈ a.fixed, ¬ place <+: mark

-- Two places that are apart stay so when one of them goes further down.
theorem apart_concat {mark : Key} (houtside : ¬ mark <+: place) (hinside : ¬ place <+: mark)
    (key : String) : ¬ mark <+: place ++ [key] ∧ ¬ place ++ [key] <+: mark := by
  refine ⟨fun hprefix => ?_, fun hprefix => hinside ((List.prefix_append _ _).trans hprefix)⟩
  rcases List.prefix_concat_iff.mp hprefix with heq | hprefix
  · exact hinside (heq ▸ List.prefix_append place [key])
  · exact houtside hprefix

theorem Free.below (h : a.Free place) (key : String) : a.Free (place ++ [key]) where
  outside mark hmark := (apart_concat (h.outside mark hmark) (h.closed mark hmark) key).1
  closed mark hmark := (apart_concat (h.outside mark hmark) (h.closed mark hmark) key).2
  fixed mark hmark hprefix := h.fixed mark hmark ((List.prefix_append _ _).trans hprefix)

theorem sibling_unique {mark : Key} {name : String} (h : place ++ [key] <+: mark)
    (hname : place ++ [name] <+: mark) : key = name := by
  have hlength : (place ++ [key]).length ≤ (place ++ [name]).length := by simp
  have heq := (List.prefix_of_prefix_length_le h hname hlength).eq_of_length (by simp)
  exact (List.cons.inj (List.append_cancel_left heq)).1

/-- Marks in one sub-table leave the others free. -/
theorem Free.of_marksBelow {name : String} (h : a.Free (place ++ [name])) (hne : key ≠ name)
    (hmarks : a.MarksBelow a' (place ++ [key])) : a'.Free (place ++ [name]) where
  outside mark hmark hprefix := by
    rcases hmarks.closed mark hmark with hold | ⟨inner, hbelow⟩
    · exact h.outside mark hold hprefix
    · exact hne (sibling_unique ((List.prefix_append _ _).trans (hbelow.trans hprefix))
        (List.prefix_refl _))
  closed mark hmark hprefix := by
    rcases hmarks.closed mark hmark with hold | ⟨inner, hbelow⟩
    · exact h.closed mark hold hprefix
    · exact hne (sibling_unique ((List.prefix_append _ _).trans hbelow) hprefix)
  fixed mark hmark hprefix := by
    rcases hmarks.fixed mark hmark with hold | hbelow
    · exact h.fixed mark hold hprefix
    · exact hne (sibling_unique hbelow hprefix)

theorem isClosed_eq_false (h : ∀ mark ∈ a.closed, ¬ mark <+: place) : a.isClosed place = false := by
  rw [Draft.isClosed, List.any_eq_false]
  exact fun mark hmark hprefix => h mark hmark (List.isPrefixOf_iff_prefix.mp hprefix)

/-! ## Single steps -/

/-- The assembly at the begin of a table: a header or an element has just led to it. -/
structure Begins (a : Assembly) (place : Key) (fill : Table → Table) : Prop where
  way : Table.IsWay place fill
  content : a.content = fill []
  current : a.place = place
  pending : a.pending = []
  outside : ∀ mark ∈ a.closed, ¬ mark <+: place
  closed : ∀ mark ∈ a.closed, ¬ place <+: mark
  fixed : ∀ mark ∈ a.fixed, place <+: mark → mark = place

theorem begins_empty : Assembly.empty.Begins [] id where
  way := Table.isWay_id
  content := rfl
  current := rfl
  pending := rfl
  outside _ hmark := absurd hmark List.not_mem_nil
  closed _ hmark := absurd hmark List.not_mem_nil
  fixed _ hmark := absurd hmark List.not_mem_nil

/-- The assembly while the sub-tables of a table are still to come: none of them is there yet. -/
structure Awaits (a : Assembly) (place : Key) (fill : Table → Table) (t entries : Table) :
    Prop where
  way : Table.IsWay place fill
  leads : Table.Leads a.content place fill t
  pending : a.pending = []
  fresh : ∀ entry ∈ entries, isPlain entry.2 = false →
    entry.1 ∉ t.keys ∧ a.Free (place ++ [entry.1])

theorem Awaits.rest {entry : String × Value} (h : a.Awaits place fill t (entry :: others)) :
    a.Awaits place fill t others where
  way := h.way
  leads := h.leads
  pending := h.pending
  fresh other hmem := h.fresh other (List.mem_cons_of_mem _ hmem)

/-- Once a sub-table is there, the others are still to come. -/
theorem Awaits.next {entry : String × Value} (h : a.Awaits place fill t (entry :: others))
    (hkeys : (Table.keys (entry :: others)).Nodup)
    (hcontent : a'.content = fill (t ++ [(entry.1, value)])) (hpending : a'.pending = [])
    (hmarks : a.MarksBelow a' (place ++ [entry.1])) :
    a'.Awaits place fill (t ++ [(entry.1, value)]) others where
  way := h.way
  leads := hcontent ▸ h.way _
  pending := hpending
  fresh other hother hplain := by
    obtain ⟨hnew, hfree⟩ := h.fresh other (List.mem_cons_of_mem _ hother) hplain
    have hne : entry.1 ≠ other.1 := fun heq =>
      (List.nodup_cons.mp hkeys).1 (heq ▸ List.mem_map_of_mem hother)
    refine ⟨fun hmem => ?_, hfree.of_marksBelow hne hmarks⟩
    rw [Table.keys, List.map_append, List.mem_append] at hmem
    rcases hmem with hmem | hmem
    · exact hnew hmem
    · exact hne (List.mem_singleton.mp hmem).symm

/-- A header opens a new table. -/
theorem open?_of_awaits {entry : String × Value} (h : a.Awaits place fill t (entry :: others))
    (hplain : isPlain entry.2 = false) :
    ∃ next, a.open? (place ++ [entry.1]) = some next ∧
      next.Begins (place ++ [entry.1]) (fun inner => fill (t ++ [(entry.1, .table inner)])) ∧
      a.MarksBelow next (place ++ [entry.1]) := by
  obtain ⟨hkey, hfree⟩ := h.fresh entry List.mem_cons_self hplain
  have hfixed : a.fixed.contains (place ++ [entry.1]) = false := by
    rw [List.contains_eq_mem, decide_eq_false_iff_not]
    exact fun hmem => hfree.fixed _ hmem (List.prefix_refl _)
  have hmodify := (h.leads.absent hkey).modify some
  refine ⟨⟨⟨fill (t ++ [(entry.1, .table [])]), a.closed⟩, place ++ [entry.1],
    (place ++ [entry.1]) :: a.fixed, []⟩, ?_, ?_, ?_⟩
  · rw [open?, h.pending, List.nil_append, hfixed, isClosed_eq_false hfree.outside, hmodify]
    rfl
  · exact {
      way := h.way.table hkey
      content := rfl
      current := rfl
      pending := rfl
      outside := hfree.outside
      closed := hfree.closed
      fixed := fun mark hmark hprefix => by
        rcases List.mem_cons.mp hmark with rfl | hold
        · rfl
        · exact absurd hprefix (hfree.fixed mark hold) }
  · refine ⟨fun _ => .inl, fun mark hmark => ?_⟩
    rcases List.mem_cons.mp hmark with rfl | hold
    · exact .inr (List.prefix_refl _)
    · exact .inl hold

/-- An element opens a further table of an array, and lifts all marks below the array. -/
theorem append?_of_ready (hway : Table.IsWay place fill) (hkey : key ∉ t.keys)
    {done : List Value} (hready : Table.modify (appendTable key) place a.content =
      some (fill (t ++ [(key, .array (done ++ [.table []]))])))
    (hpending : a.pending = []) (houtside : ∀ mark ∈ a.closed, ¬ mark <+: place ++ [key]) :
    ∃ next, a.append? (place ++ [key]) = some next ∧
      next.Begins (place ++ [key])
        (fun inner => fill (t ++ [(key, .array (done ++ [.table inner]))])) ∧
      a.MarksBelow next (place ++ [key]) := by
  have hlifted {marks : List Key} {mark : Key}
      (h : mark ∈ marks.filter fun mark => !(place ++ [key]).isPrefixOf mark) :
      ¬ place ++ [key] <+: mark := fun hprefix => by
    have hfilter := List.of_mem_filter h
    rw [List.isPrefixOf_iff_prefix.mpr hprefix] at hfilter
    cases hfilter
  refine ⟨⟨⟨fill (t ++ [(key, .array (done ++ [.table []]))]),
    a.closed.filter fun mark => !(place ++ [key]).isPrefixOf mark⟩, place ++ [key],
    (place ++ [key]) :: a.fixed.filter fun mark => !(place ++ [key]).isPrefixOf mark, []⟩,
    ?_, ?_, ?_⟩
  · simp only [append?, isClosed_eq_false houtside, List.getLast?_concat, List.dropLast_concat,
      hready, hpending]
    rfl
  · exact {
      way := hway.element hkey done
      content := rfl
      current := rfl
      pending := rfl
      outside := fun mark hmark => houtside mark (List.mem_of_mem_filter hmark)
      closed := fun mark hmark => hlifted hmark
      fixed := fun mark hmark hprefix =>
        (List.mem_cons.mp hmark).resolve_right fun hold => hlifted hold hprefix }
  · refine ⟨fun mark hmark => .inl (List.mem_of_mem_filter hmark), fun mark hmark => ?_⟩
    rcases List.mem_cons.mp hmark with rfl | hold
    · exact .inr (List.prefix_refl _)
    · exact .inl (List.mem_of_mem_filter hold)

/-- Assignments of keys with one part change the draft alone. -/
theorem foldlM_assignment (entries : Table) (a : Assembly) :
    (entries.map fun entry => Statement.assignment [entry.1] entry.2).foldlM step a =
      (a.toDraft.assignAll a.place entries).map
        fun draft => ⟨draft, a.place, a.fixed, a.pending⟩ := by
  induction entries generalizing a with
  | nil => rfl
  | cons entry entries ih =>
    have hstep : a.step (.assignment [entry.1] entry.2) =
        (a.toDraft.assign (a.place ++ [entry.1]) entry.2).map
          fun draft => ⟨draft, a.place, a.fixed, a.pending⟩ := rfl
    rw [List.map_cons, List.foldlM_cons, Draft.assignAll_cons, hstep]
    cases a.toDraft.assign (a.place ++ [entry.1]) entry.2 with
    | none => rfl
    | some draft => exact ih _

theorem key_ne_of_plain (hkeys : (Table.keys entries).Nodup) {entry other : String × Value}
    (hentry : entry ∈ entries) (hsub : isPlain entry.2 = false)
    (hother : other ∈ plainEntries entries) : other.1 ≠ entry.1 := by
  intro heq
  obtain ⟨hmem, hplain⟩ := List.mem_filter.mp hother
  have hsame := List.inj_on_of_nodup_map hkeys hmem hentry heq
  rw [hsame, hsub] at hplain
  cases hplain

/-- The plain values of a table leave the places of its sub-tables free. -/
theorem Begins.free (h : a.Begins place fill) (hkeys : (Table.keys entries).Nodup)
    (hfixed : after.fixed = a.fixed) (hclosed : ∀ mark ∈ after.closed,
      mark ∈ a.closed ∨ ∃ entry ∈ plainEntries entries, mark = place ++ [entry.1])
    {entry : String × Value} (hentry : entry ∈ entries) (hsub : isPlain entry.2 = false) :
    after.Free (place ++ [entry.1]) := by
  have hapart {mark : Key} (hmark : mark ∈ after.closed) :
      ¬ mark <+: place ++ [entry.1] ∧ ¬ place ++ [entry.1] <+: mark := by
    rcases hclosed mark hmark with hold | ⟨other, hother, rfl⟩
    · exact apart_concat (h.outside mark hold) (h.closed mark hold) entry.1
    · have hne := key_ne_of_plain hkeys hentry hsub hother
      exact ⟨fun hprefix => hne (sibling_unique hprefix (List.prefix_refl _)),
        fun hprefix => hne (sibling_unique (List.prefix_refl _) hprefix)⟩
  refine ⟨fun _ hmark => (hapart hmark).1, fun _ hmark => (hapart hmark).2,
    fun mark hmark hprefix => ?_⟩
  rw [hfixed] at hmark
  obtain rfl := h.fixed mark hmark ((List.prefix_append _ _).trans hprefix)
  have hlength := hprefix.length_le
  simp at hlength

/-- The plain values of a table are given to it one after the other. -/
theorem foldlM_assignments (h : a.Begins place fill) (hkeys : (Table.keys entries).Nodup) :
    ∃ next, (assignments entries).foldlM step a = some next ∧
      next.Awaits place fill (plainEntries entries) entries ∧
      next.content = fill (plainEntries entries) ∧ a.MarksBelow next place := by
  have hplain : (Table.keys ([] : Table) ++ Table.keys (plainEntries entries)).Nodup :=
    hkeys.sublist (List.Sublist.map _ List.filter_sublist)
  obtain ⟨draft, hfold, hcontent, hclosed⟩ :=
    Draft.assignAll_new (d := a.toDraft) h.way (plainEntries entries) h.content hplain h.outside
  rw [List.nil_append] at hcontent
  refine ⟨⟨draft, a.place, a.fixed, a.pending⟩, ?_, ⟨h.way, hcontent ▸ h.way _, h.pending, ?_⟩,
    hcontent, ⟨fun mark hmark => ?_, fun _ => .inl⟩⟩
  · rw [assignments, foldlM_assignment, h.current]
    exact congrArg (Option.map _) hfold
  · intro entry hentry hsub
    refine ⟨fun hmem => ?_, @Begins.free a ⟨draft, a.place, a.fixed, a.pending⟩ place fill entries h
      hkeys rfl hclosed entry hentry hsub⟩
    obtain ⟨other, hother, heq⟩ := List.mem_map.mp hmem
    exact key_ne_of_plain hkeys hentry hsub hother heq
  · rcases hclosed mark hmark with hold | ⟨entry, -, rfl⟩
    · exact .inl hold
    · exact .inr ⟨entry.1, List.prefix_refl _⟩

/-! ## Runs -/

theorem foldlM_append_eq {xs ys : List Statement} (h : xs.foldlM step a = some after)
    (hafter : ys.foldlM step after = some a') : (xs ++ ys).foldlM step a = some a' := by
  rw [List.foldlM_append, h]
  exact hafter

/-- Whether the statements of the sub-tables of a table make them in it, wherever it stands. -/
def MakesBelow (entries : Table) : Prop :=
  ∀ {a : Assembly} {place : Key} {fill : Table → Table} {t : Table},
    a.Awaits place fill t entries →
      ∃ next, (statementsBelow place entries).foldlM step a = some next ∧ next.pending = [] ∧
        a.MarksBelow next place ∧
          (next.content = fill (t ++ arrangedBelow entries) ∨
            arrangedBelow entries = [] ∧ next.content = a.content)

/-- The statements behind the header of a table make all that it holds. -/
theorem MakesBelow.body (hmakes : MakesBelow entries) (hkeys : (Table.keys entries).Nodup)
    (h : a.Begins place fill) :
    ∃ next, (assignments entries ++ statementsBelow place entries).foldlM step a = some next ∧
      next.pending = [] ∧ a.MarksBelow next place ∧ next.content = fill (arranged entries) := by
  obtain ⟨middle, hfold, hawaits, hmiddle, hmarks⟩ := foldlM_assignments h hkeys
  obtain ⟨last, hrun, hpending, hmore, hcontent⟩ := hmakes hawaits
  refine ⟨last, foldlM_append_eq hfold hrun, hpending, hmarks.trans hmore, ?_⟩
  rcases hcontent with hcontent | ⟨hnone, hcontent⟩
  · exact hcontent
  · rw [hcontent, hmiddle, arranged, hnone, List.append_nil]

/-- The statements of a sub-table make it, with a header or without. -/
theorem MakesBelow.table (hmakes : MakesBelow entries) (hkeys : (Table.keys entries).Nodup)
    (h : a.Awaits place fill t ((key, .table entries) :: others)) :
    ∃ next, (headers (place ++ [key]) entries ++ assignments entries ++
        statementsBelow (place ++ [key]) entries).foldlM step a = some next ∧
      next.pending = [] ∧ a.MarksBelow next (place ++ [key]) ∧
      next.content = fill (t ++ [(key, .table (arranged entries))]) := by
  by_cases hheader : (entries.isEmpty || entries.any fun entry => isPlain entry.2) = true
  · obtain ⟨first, hopen, hbegins, hmarks⟩ := open?_of_awaits h (isPlain_table entries)
    obtain ⟨last, hrun, hpending, hmore, hcontent⟩ := hmakes.body hkeys hbegins
    have hfirst : (headers (place ++ [key]) entries).foldlM step a = some first := by
      rw [headers, if_pos hheader, List.foldlM_cons]
      exact congrArg (· >>= _) hopen
    rw [List.append_assoc]
    exact ⟨last, foldlM_append_eq hfirst hrun, hpending, hmarks.trans hmore, hcontent⟩
  · -- without a header the table is made by the first of its sub-tables
    obtain ⟨hkey, hfree⟩ := h.fresh _ List.mem_cons_self (isPlain_table entries)
    rw [Bool.not_eq_true, Bool.or_eq_false_iff, List.any_eq_false] at hheader
    obtain ⟨hne, hall⟩ := hheader
    have hplain : plainEntries entries = [] := List.filter_eq_nil_iff.mpr hall
    have hnone : headers (place ++ [key]) entries ++ assignments entries = [] := by
      rw [headers, hne, Bool.false_or, if_neg (by simpa using hall), List.nil_append, assignments]
      exact congrArg (List.map _) hplain
    have hawaits : a.Awaits (place ++ [key])
        (fun inner => fill (t ++ [(key, .table inner)])) [] entries :=
      { way := h.way.table hkey
        leads := h.leads.absent hkey
        pending := h.pending
        fresh := fun entry _ _ => ⟨List.not_mem_nil, hfree.below entry.1⟩ }
    obtain ⟨last, hrun, hpending, hmarks, hcontent⟩ := hmakes hawaits
    refine ⟨last, by rw [hnone]; exact hrun, hpending, hmarks, ?_⟩
    have hsome : arrangedBelow entries ≠ [] := by
      cases entries with
      | nil => cases hne
      | cons entry entries =>
        exact arrangedBelow_ne_nil (Bool.eq_false_iff.mpr (hall entry List.mem_cons_self))
    rw [arranged, hplain]
    exact hcontent.resolve_right fun hempty => hsome hempty.1

/-- The statements of a spread array make its tables one after the other. -/
theorem makes_elements {items : List Value} (htables : ∀ item ∈ items, item.isTable = true)
    (hmakes : ∀ entries, .table entries ∈ items →
      MakesBelow entries ∧ (Table.keys entries).Nodup)
    (hway : Table.IsWay place fill) (hkey : key ∉ t.keys) {done : List Value}
    (hready : Table.modify (appendTable key) place a.content =
      some (fill (t ++ [(key, .array (done ++ [.table []]))])))
    (hpending : a.pending = []) (houtside : ∀ mark ∈ a.closed, ¬ mark <+: place ++ [key]) :
    ∃ next, (elementStatements (place ++ [key]) items).foldlM step a = some next ∧
      next.pending = [] ∧ a.MarksBelow next (place ++ [key]) ∧
      (items = [] ∧ next = a ∨
        next.content = fill (t ++ [(key, .array (done ++ arrangedItems items))])) := by
  induction items generalizing a done with
  | nil =>
    rw [elementStatements]
    exact ⟨a, rfl, hpending, .refl a _, .inl ⟨rfl, rfl⟩⟩
  | cons item items ih =>
    obtain ⟨entries, rfl⟩ := exists_table (htables item List.mem_cons_self)
    obtain ⟨hbelow, hkeys⟩ := hmakes entries List.mem_cons_self
    obtain ⟨first, happend, hbegins, hmarks⟩ :=
      append?_of_ready hway hkey hready hpending houtside
    obtain ⟨middle, hbody, hmiddle, hmore, hcontent⟩ := hbelow.body hkeys hbegins
    -- the next element finds the array with the table that has been made
    have hnext : Table.modify (appendTable key) place middle.content =
        some (fill (t ++
          [(key, .array (done ++ [.table (arranged entries)] ++ [.table []]))])) := by
      rw [hcontent, (hway _).modify, appendTable, Table.get?_concat hkey]
      simp only [Table.put_concat hkey, Option.map_some]
    have hstay : ∀ mark ∈ middle.closed, ¬ mark <+: place ++ [key] := fun mark hmark hprefix => by
      rcases (hmarks.trans hmore).closed mark hmark with hold | ⟨inner, hinner⟩
      · exact houtside mark hold hprefix
      · have hlength := (hinner.trans hprefix).length_le
        simp at hlength
    obtain ⟨last, hrun, hlast, hrest, hresult⟩ :=
      ih (fun other hother => htables other (List.mem_cons_of_mem _ hother))
        (fun inner hinner => hmakes inner (List.mem_cons_of_mem _ hinner)) hnext hmiddle hstay
    refine ⟨last, ?_, hlast, (hmarks.trans hmore).trans hrest, .inr ?_⟩
    · rw [elementStatements]
      refine foldlM_append_eq ?_ hrun
      rw [List.cons_append, List.foldlM_cons]
      exact (congrArg (· >>= _) happend).trans hbody
    · rw [arrangedItems]
      rcases hresult with ⟨rfl, rfl⟩ | hresult
      · rw [hcontent, arrangedItems]
        rfl
      · rw [hresult, List.append_assoc]
        rfl

/-- The statements of a spread array make it. -/
theorem makes_array {items : List Value} (hspread : isSpread (.array items) = true)
    (hmakes : ∀ entries, .table entries ∈ items →
      MakesBelow entries ∧ (Table.keys entries).Nodup)
    (h : a.Awaits place fill t ((key, .array items) :: others)) :
    ∃ next, (elementStatements (place ++ [key]) items).foldlM step a = some next ∧
      next.pending = [] ∧ a.MarksBelow next (place ++ [key]) ∧
      next.content = fill (t ++ [(key, .array (arrangedItems items))]) := by
  have hplain : isPlain (.array items) = false := by rw [isPlain_array, hspread]; rfl
  obtain ⟨hkey, hfree⟩ := h.fresh _ List.mem_cons_self hplain
  have hready : Table.modify (appendTable key) place a.content =
      some (fill (t ++ [(key, .array ([] ++ [.table []]))])) := by
    rw [h.leads.modify, appendTable, Table.get?_eq_none_iff.mpr hkey]
    exact congrArg (fun t => some (fill t)) (Table.put_of_notMem hkey _)
  rw [isSpread, Bool.and_eq_true, Bool.and_eq_true, Bool.not_eq_true', List.all_eq_true] at hspread
  obtain ⟨⟨hne, htables⟩, -⟩ := hspread
  obtain ⟨next, hrun, hpending, hmarks, hcontent⟩ :=
    makes_elements htables hmakes h.way hkey hready h.pending hfree.outside
  refine ⟨next, hrun, hpending, hmarks, hcontent.resolve_left ?_⟩
  rintro ⟨rfl, -⟩
  cases hne

end Assembly

open Assembly (MakesBelow)

/-- Whether the statements of the tables in a value make them: of a table itself, and of the tables
of an array. -/
def Value.Makes : Value → Prop
  | .table entries => MakesBelow entries
  | .array items => ∀ entries, .table entries ∈ items → MakesBelow entries
  | _ => True

/-- A sub-table or a spread array is made first, then those behind it. -/
theorem Assembly.MakesBelow.cons {entry : String × Value} {front : List Statement}
    (hmakes : MakesBelow others) (hkeys : (Table.keys (entry :: others)).Nodup)
    (h : a.Awaits place fill t (entry :: others))
    (hfront : front.foldlM Assembly.step a = some after) (hpending : after.pending = [])
    (hmarks : a.MarksBelow after (place ++ [entry.1]))
    (hcontent : after.content = fill (t ++ [(entry.1, value)])) :
    ∃ next, (front ++ statementsBelow place others).foldlM Assembly.step a = some next ∧
      next.pending = [] ∧ a.MarksBelow next place ∧
      next.content = fill (t ++ (entry.1, value) :: arrangedBelow others) := by
  obtain ⟨last, hrun, hlast, hmore, hresult⟩ := hmakes (h.next hkeys hcontent hpending hmarks)
  refine ⟨last, Assembly.foldlM_append_eq hfront hrun, hlast, hmarks.outer.trans hmore, ?_⟩
  rcases hresult with hresult | ⟨hnone, hresult⟩
  · rw [hresult, List.append_assoc]
    rfl
  · rw [hresult, hcontent, hnone]

theorem makesBelow_of_members (hkeys : (Table.keys entries).Nodup)
    (hwell : ∀ entry ∈ entries, entry.2.WellFormed) (hmakes : ∀ entry ∈ entries, entry.2.Makes) :
    MakesBelow entries := by
  induction entries with
  | nil =>
    intro a place fill t h
    rw [statementsBelow, arrangedBelow]
    exact ⟨a, rfl, h.pending, .refl a place, .inr ⟨rfl, rfl⟩⟩
  | cons entry rest ih =>
    intro a place fill t h
    obtain ⟨key, value⟩ := entry
    obtain ⟨hvalue, hwell⟩ := List.forall_mem_cons.mp hwell
    obtain ⟨hmakesValue, hmakes⟩ := List.forall_mem_cons.mp hmakes
    have hrest : MakesBelow rest := ih (List.nodup_cons.mp hkeys).2 hwell hmakes
    cases value with
    | table inner =>
      obtain ⟨middle, hfront, hpending, hmarks, hcontent⟩ :=
        MakesBelow.table hmakesValue (wellFormed_table.mp hvalue).1 h
      obtain ⟨last, hrun, hlast, hmore, hresult⟩ :=
        hrest.cons hkeys h hfront hpending hmarks hcontent
      rw [statementsBelow, arrangedBelow]
      exact ⟨last, hrun, hlast, hmore, .inl hresult⟩
    | array items =>
      rw [statementsBelow, arrangedBelow]
      by_cases hspread : isSpread (.array items) = true
      · have hitems := wellFormed_array.mp hvalue
        obtain ⟨middle, hfront, hpending, hmarks, hcontent⟩ :=
          Assembly.makes_array hspread (fun inner hinner => ⟨hmakesValue inner hinner,
            (wellFormed_table.mp (hitems _ hinner)).1⟩) h
        obtain ⟨last, hrun, hlast, hmore, hresult⟩ :=
          hrest.cons hkeys h hfront hpending hmarks hcontent
        rw [if_pos hspread, if_pos hspread]
        exact ⟨last, hrun, hlast, hmore, .inl hresult⟩
      · rw [if_neg hspread, if_neg hspread]
        exact hrest h.rest
    | _ =>
      rw [statementsBelow, arrangedBelow]
      · exact hrest h.rest
      all_goals rintro _ _ ⟨⟩

theorem makes_of_wellFormed (h : value.WellFormed) : value.Makes := by
  induction value using Value.induction_on_members with
  | scalar value hscalar =>
    cases value with
    | array items => cases hscalar
    | table entries => cases hscalar
    | _ => trivial
  | array items ih =>
    intro entries hentries
    exact ih _ hentries (wellFormed_array.mp h _ hentries)
  | table entries ih =>
    obtain ⟨hkeys, hwell⟩ := wellFormed_table.mp h
    exact makesBelow_of_members hkeys hwell fun entry hentry =>
      ih entry hentry (hwell entry hentry)

/-- The statements of a table make it, in the order in which they were written. -/
theorem foldlM_statementsOf (h : (Value.table t).WellFormed) :
    ∃ a, (statementsOf t).foldlM Assembly.step .empty = some a ∧ a.content = arranged t := by
  have hmakes : MakesBelow t := makes_of_wellFormed h
  obtain ⟨last, hrun, -, -, hcontent⟩ :=
    hmakes.body (wellFormed_table.mp h).1 Assembly.begins_empty
  exact ⟨last, hrun, hcontent⟩

end BuildHook.Toml
