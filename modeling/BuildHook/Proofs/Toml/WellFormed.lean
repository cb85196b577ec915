import BuildHook.Proofs.Decimal.ReadBack
import BuildHook.Proofs.Merging
import BuildHook.Toml.Document

/-!
# Values that can be written

A value is well formed if its tables have each key once and its numbers are in range, at every
level. All values that are read are well formed, and so is all that is merged from them.
-/

namespace BuildHook.Toml

/-- Whether a value is no array and no table. -/
def Value.isScalar : Value → Bool
  | .array _ | .table _ => false
  | _ => true

/-- Induction on a value: what holds of scalars, and of arrays and tables if it holds of all that
they hold, holds of every value. -/
theorem Value.induction_on_members {motive : Value → Prop}
    (scalar : ∀ value : Value, value.isScalar = true → motive value)
    (array : ∀ items, (∀ item ∈ items, motive item) → motive (.array items))
    (table : ∀ entries : List (String × Value), (∀ entry ∈ entries, motive entry.2) →
      motive (.table entries))
    (value : Value) : motive value := by
  match value with
  | .array items =>
    exact array items fun item _ => induction_on_members scalar array table item
  | .table entries =>
    exact table entries fun entry _ => induction_on_members scalar array table entry.2
  | .string _ | .integer _ | .float _ | .boolean _ | .date _ | .time _ | .dateTime _ =>
    exact scalar _ rfl
termination_by sizeOf value
decreasing_by
  · have hitem := List.sizeOf_lt_of_mem ‹item ∈ items›
    simp only [Value.array.sizeOf_spec]
    omega
  · have hentry := List.sizeOf_lt_of_mem ‹entry ∈ entries›
    have hvalue : sizeOf entry.2 < sizeOf entry := by
      cases entry
      simp only [Prod.mk.sizeOf_spec]
      omega
    simp only [Value.table.sizeOf_spec]
    omega

/-- Whether all tables in a value have each key once, and all numbers in it are in range. -/
inductive Value.WellFormed : Value → Prop
  | string (text : String) : (Value.string text).WellFormed
  | integer (number : Int) : (Value.integer number).WellFormed
  | float {number : Binary64} (h : number.IsCanonical) : (Value.float number).WellFormed
  | boolean (flag : Bool) : (Value.boolean flag).WellFormed
  | date (day : Date) : (Value.date day).WellFormed
  | time (clock : Time) : (Value.time clock).WellFormed
  | dateTime (moment : DateTime) : (Value.dateTime moment).WellFormed
  | array {items : List Value} (h : ∀ item ∈ items, item.WellFormed) :
    (Value.array items).WellFormed
  | table {entries : List (String × Value)} (hkeys : (Table.keys entries).Nodup)
    (h : ∀ entry ∈ entries, entry.2.WellFormed) : (Value.table entries).WellFormed

variable {t t' : Table} {value : Value} {key : String} {place : Key} {cs rest : List Char}

theorem wellFormed_array {items : List Value} :
    (Value.array items).WellFormed ↔ ∀ item ∈ items, item.WellFormed :=
  ⟨fun h => by cases h; assumption, .array⟩

theorem wellFormed_table :
    (Value.table t).WellFormed ↔ t.keys.Nodup ∧ ∀ entry ∈ t, entry.2.WellFormed :=
  ⟨fun h => by cases h; constructor <;> assumption, fun h => .table h.1 h.2⟩

theorem wellFormed_empty : (Value.table []).WellFormed :=
  .table List.nodup_nil (List.forall_mem_nil _)

/-! ## Changing tables -/

theorem mem_of_get? (h : t.get? key = some value) : (key, value) ∈ t := by
  induction t with
  | nil => cases h
  | cons entry rest ih =>
    obtain ⟨name, first⟩ := entry
    rw [Table.get?] at h
    split at h
    · next hname =>
      obtain rfl := Option.some.inj h
      rw [hname]
      exact List.mem_cons_self
    · exact List.mem_cons_of_mem _ (ih h)

theorem mem_put {entry : String × Value} (h : entry ∈ t.put key value) :
    entry ∈ t ∨ entry.2 = value := by
  induction t with
  | nil =>
    rw [Table.put, List.mem_singleton] at h
    exact .inr (h ▸ rfl)
  | cons first rest ih =>
    obtain ⟨name, old⟩ := first
    rw [Table.put] at h
    split at h
    · rcases List.mem_cons.mp h with rfl | h
      · exact .inr rfl
      · exact .inl (List.mem_cons_of_mem _ h)
    · rcases List.mem_cons.mp h with rfl | h
      · exact .inl List.mem_cons_self
      · exact (ih h).imp_left (List.mem_cons_of_mem _)

theorem Value.WellFormed.get? (h : (Value.table t).WellFormed) (hget : t.get? key = some value) :
    value.WellFormed :=
  (wellFormed_table.mp h).2 _ (mem_of_get? hget)

theorem Value.WellFormed.put (h : (Value.table t).WellFormed) (hvalue : value.WellFormed)
    (key : String) : (Value.table (t.put key value)).WellFormed := by
  obtain ⟨hkeys, hentries⟩ := wellFormed_table.mp h
  refine .table ?_ fun entry hentry => ?_
  · rw [Table.keys_put]
    split
    · exact hkeys
    · next hnew => exact List.nodup_append.mpr ⟨hkeys, List.nodup_singleton key,
        fun a ha b hb heq => hnew (List.mem_singleton.mp hb ▸ heq ▸ ha)⟩
  · rcases mem_put hentry with hold | hnew
    · exact hentries entry hold
    · exact hnew ▸ hvalue

/-- A change that keeps tables well formed does so at every place. -/
theorem Value.WellFormed.modify {change : Table → Option Table}
    (hchange : ∀ {t t'}, (Value.table t).WellFormed → change t = some t' →
      (Value.table t').WellFormed)
    (h : (Value.table t).WellFormed) (hmodify : Table.modify change place t = some t') :
    (Value.table t').WellFormed := by
  induction place generalizing t t' with
  | nil => exact hchange h hmodify
  | cons key place ih =>
    rw [Table.modify] at hmodify
    split at hmodify
    · obtain ⟨inner, hinner, rfl⟩ := Option.map_eq_some_iff.mp hmodify
      exact h.put (ih wellFormed_empty hinner) key
    · next entries hget =>
      obtain ⟨inner, hinner, rfl⟩ := Option.map_eq_some_iff.mp hmodify
      exact h.put (ih (h.get? hget) hinner) key
    · next items hget =>
      have hitems := wellFormed_array.mp (h.get? hget)
      split at hmodify
      · next entries hlast =>
        obtain ⟨inner, hinner, rfl⟩ := Option.map_eq_some_iff.mp hmodify
        have hentries := hitems _ (List.mem_of_getLast? hlast)
        refine h.put (.array fun item hitem => ?_) key
        rcases List.mem_append.mp hitem with hold | hnew
        · exact hitems item (List.mem_of_mem_dropLast hold)
        · rw [List.mem_singleton.mp hnew]
          exact ih hentries hinner
      · cases hmodify
    · cases hmodify

theorem Value.WellFormed.addNew (h : (Value.table t).WellFormed) (hvalue : value.WellFormed)
    (hadd : Table.addNew key value t = some t') : (Value.table t').WellFormed := by
  rw [Table.addNew] at hadd
  split at hadd
  · cases hadd
  · exact Option.some.inj hadd ▸ h.put hvalue key

theorem Value.WellFormed.appendTable (h : (Value.table t).WellFormed)
    (happend : Assembly.appendTable key t = some t') : (Value.table t').WellFormed := by
  rw [Assembly.appendTable] at happend
  split at happend
  · cases happend
    exact h.put (.array (List.forall_mem_singleton.mpr wellFormed_empty)) key
  · next items hget =>
    cases happend
    have hitems := wellFormed_array.mp (h.get? hget)
    have hlast := List.forall_mem_singleton.mpr wellFormed_empty
    exact h.put (.array (List.forall_mem_append.mpr ⟨hitems, hlast⟩)) key
  · cases happend

theorem Value.WellFormed.assign {d d' : Draft} (h : (Value.table d.content).WellFormed)
    (hvalue : value.WellFormed) (hassign : d.assign place value = some d') :
    (Value.table d'.content).WellFormed := by
  rw [Draft.assign] at hassign
  split at hassign
  · cases hassign
  · split at hassign
    · cases hassign
    · obtain ⟨content, hcontent, rfl⟩ := Option.map_eq_some_iff.mp hassign
      have hresult := h.modify (fun ht => ht.addNew hvalue) hcontent
      cases value <;> exact hresult

/-! ## Reading -/

theorem wellFormed_readDecimal (h : readDecimal cs = some (value, rest)) : value.WellFormed := by
  simp only [readDecimal, Option.bind_eq_bind, Option.bind_eq_some_iff] at h
  obtain ⟨_, -, h⟩ := h
  split at h
  · cases h
    exact .integer _
  · cases h
    exact .float (Binary64.isCanonical_ofDecimal _ _ _)

theorem wellFormed_readSpecial (h : readSpecial cs = some (value, rest)) : value.WellFormed := by
  rw [readSpecial] at h
  split at h
  split at h
  · cases h
    exact .float trivial
  · split at h
    · cases h
      exact .float trivial
    · cases h

theorem wellFormed_readMoment (h : readMoment cs = some (some (value, rest))) :
    value.WellFormed := by
  rw [readMoment] at h
  split at h
  · obtain ⟨date, -, hdate⟩ := Option.map_eq_some_iff.mp (Option.some.inj h)
    split at hdate
    · cases hdate
      exact .dateTime _
    · cases hdate
      exact .date _
  · obtain ⟨time, -, htime⟩ := Option.map_eq_some_iff.mp h
    cases htime
    exact .time _

theorem map_eq_ok {ε α β : Type} {x : Except ε α} {f : α → β} {b : β} :
    x.map f = .ok b ↔ ∃ a, x = .ok a ∧ f a = b := by
  cases x <;> simp [Except.map]

theorem wellFormed_readNumber (h : readNumber cs = .ok (value, rest)) : value.WellFormed := by
  rw [readNumber] at h
  split at h
  · cases h
    exact .integer _
  · split at h
    · cases h
    · obtain ⟨found, hinteger, heq⟩ := map_eq_ok.mp h
      cases heq
      rw [readInteger] at hinteger
      split at hinteger
      · cases hinteger
      · cases hinteger
        exact .integer _
    · next hfound =>
      cases h
      rcases Option.or_eq_some_iff.mp hfound with hdecimal | ⟨-, hspecial⟩
      · exact wellFormed_readDecimal hdecimal
      · exact wellFormed_readSpecial hspecial

theorem wellFormed_readScalar (h : readScalar cs = .ok (value, rest)) : value.WellFormed := by
  rw [readScalar.eq_def] at h
  split at h
  · cases h
  split at h
  · obtain ⟨_, -, htext⟩ := Option.map_eq_some_iff.mp (expect_eq_ok.mp h)
    cases htext
    exact .string _
  split at h
  · next found hboolean =>
    rw [readBoolean] at hboolean
    cases h
    split at hboolean
    · cases hboolean
      exact .boolean true
    · split at hboolean
      · cases hboolean
        exact .boolean false
      · cases hboolean
  · split at h
    · next hmoment => exact wellFormed_readMoment (expect_eq_ok.mp h ▸ hmoment)
    · exact wellFormed_readNumber h

/-- Whether all values that are read at a depth are well formed. -/
structure ReadsWellFormed (depth : Nat) : Prop where
  value : ∀ {cs value rest}, readValue depth cs = .ok (value, rest) → value.WellFormed
  items : ∀ {cs items rest}, readItems depth cs = .ok (items, rest) →
    ∀ item ∈ items, item.WellFormed
  entries : ∀ {draft cs entries rest}, (Value.table draft.content).WellFormed →
    readEntries depth draft cs = .ok (entries, rest) → (Value.table entries).WellFormed

variable {depth : Nat}

theorem ReadsWellFormed.readValue_succ (h : ReadsWellFormed depth)
    (hread : readValue (depth + 1) cs = .ok (value, rest)) : value.WellFormed := by
  rw [readValue.eq_def] at hread
  dsimp only at hread
  split at hread
  · obtain ⟨_, hitems, heq⟩ := map_eq_ok.mp hread
    cases heq
    exact .array (h.items hitems)
  · split at hread
    · cases hread
      exact wellFormed_empty
    · obtain ⟨_, hentries, heq⟩ := map_eq_ok.mp hread
      cases heq
      exact h.entries wellFormed_empty hentries
  · exact wellFormed_readScalar hread

theorem ReadsWellFormed.readItems_succ (h : ReadsWellFormed depth) {items : List Value}
    (hread : readItems (depth + 1) cs = .ok (items, rest)) :
    ∀ item ∈ items, item.WellFormed := by
  rw [readItems] at hread
  split at hread
  · cases hread
  · cases hread
    exact List.forall_mem_nil _
  · split at hread
    · cases hread
    · next hvalue =>
      split at hread
      · cases hread
        exact List.forall_mem_singleton.mpr (h.value hvalue)
      · obtain ⟨_, hitems, heq⟩ := map_eq_ok.mp hread
        cases heq
        exact List.forall_mem_cons.mpr ⟨h.value hvalue, h.items hitems⟩
      · cases hread

theorem ReadsWellFormed.readEntries_succ (h : ReadsWellFormed depth) {draft : Draft}
    {entries : Table} (hdraft : (Value.table draft.content).WellFormed)
    (hread : readEntries (depth + 1) draft cs = .ok (entries, rest)) :
    (Value.table entries).WellFormed := by
  rw [readEntries] at hread
  split at hread
  · split at hread
    · cases hread
    · next hvalue =>
      split at hread
      · cases hread
      · next hassign =>
        have hnext := hdraft.assign (h.value hvalue) hassign
        split at hread
        · cases hread
          exact hnext
        · exact h.entries hnext hread
        · cases hread
  · cases hread

theorem readsWellFormed (depth : Nat) : ReadsWellFormed depth := by
  induction depth with
  | zero =>
    constructor
    · rintro _ _ _ ⟨⟩
    · rintro _ _ _ ⟨⟩
    · rintro _ _ _ _ _ ⟨⟩
  | succ depth ih => exact ⟨ih.readValue_succ, ih.readItems_succ, ih.readEntries_succ⟩

/-- Whether the value that a statement gives, if it gives one, is well formed. -/
def Statement.WellFormed : Statement → Prop
  | .assignment _ value => value.WellFormed
  | .header _ | .element _ => True

theorem wellFormed_readStatement {statement : Statement}
    (h : readStatement cs = .ok (statement, rest)) : statement.WellFormed := by
  rw [readStatement.eq_def] at h
  split at h
  · split at h
    · cases h
      trivial
    · cases h
  · split at h
    · cases h
      trivial
    · cases h
  · split at h
    · obtain ⟨_, hvalue, heq⟩ := map_eq_ok.mp h
      cases heq
      exact (readsWellFormed _).value hvalue
    · cases h

theorem wellFormed_readLine {statements : List Statement}
    (h : readLine cs = .ok (statements, rest)) :
    ∀ statement ∈ statements, statement.WellFormed := by
  rw [readLine] at h
  split at h
  · cases h
    exact List.forall_mem_nil _
  · split at h
    · obtain ⟨_, -, heq⟩ := Option.map_eq_some_iff.mp (expect_eq_ok.mp h)
      cases heq
      exact List.forall_mem_nil _
    · split at h
      · cases h
      · next hstatement =>
        obtain ⟨_, -, heq⟩ := Option.map_eq_some_iff.mp (expect_eq_ok.mp h)
        cases heq
        exact List.forall_mem_singleton.mpr (wellFormed_readStatement hstatement)

theorem wellFormed_step {a a' : Assembly} {statement : Statement}
    (hstatement : statement.WellFormed) (h : (Value.table a.content).WellFormed)
    (hstep : a.step statement = some a') : (Value.table a'.content).WellFormed := by
  cases statement with
  | header place =>
    rw [Assembly.step, Assembly.open?] at hstep
    split at hstep
    · cases hstep
    · obtain ⟨content, hcontent, rfl⟩ := Option.map_eq_some_iff.mp hstep
      exact h.modify (fun ht heq => Option.some.inj heq ▸ ht) hcontent
  | element place =>
    rw [Assembly.step, Assembly.append?] at hstep
    split at hstep
    · cases hstep
    · split at hstep
      · cases hstep
      · next last hlast =>
        obtain ⟨content, hcontent, rfl⟩ := Option.map_eq_some_iff.mp hstep
        exact h.modify (fun ht happend => ht.appendTable happend) hcontent
  | assignment place value =>
    rw [Assembly.step, Assembly.assign?] at hstep
    split at hstep
    · cases hstep
    · obtain ⟨draft, hdraft, rfl⟩ := Option.map_eq_some_iff.mp hstep
      exact h.assign hstatement hdraft

theorem wellFormed_foldlM_step {a a' : Assembly} {statements : List Statement}
    (hstatements : ∀ statement ∈ statements, statement.WellFormed)
    (h : (Value.table a.content).WellFormed)
    (hfold : statements.foldlM Assembly.step a = some a') :
    (Value.table a'.content).WellFormed := by
  induction statements generalizing a with
  | nil => exact Option.some.inj hfold ▸ h
  | cons statement statements ih =>
    obtain ⟨hstatement, hstatements⟩ := List.forall_mem_cons.mp hstatements
    rw [List.foldlM_cons] at hfold
    obtain ⟨next, hnext, hfold⟩ := Option.bind_eq_some_iff.mp hfold
    exact ih hstatements (wellFormed_step hstatement h hnext) hfold

theorem wellFormed_readLines {bound : Nat} {a a' : Assembly}
    (h : (Value.table a.content).WellFormed) (hread : readLines bound a cs = .ok a') :
    (Value.table a'.content).WellFormed := by
  induction bound generalizing a cs with
  | zero => cases hread
  | succ bound ih =>
    rw [readLines] at hread
    split at hread
    · cases hread
    · next hline =>
      split at hread
      · cases hread
      · next hfold =>
        have hnext := wellFormed_foldlM_step (wellFormed_readLine hline) h hfold
        split at hread
        · exact Except.ok.inj hread ▸ hnext
        · exact ih hnext hread

/-- The table of a document is well formed. -/
theorem wellFormed_parse {text : List Char} (h : parse text = .ok t) :
    (Value.table t).WellFormed := by
  obtain ⟨a, hread, rfl⟩ := map_eq_ok.mp h
  exact wellFormed_readLines wellFormed_empty hread

/-! ## Distinct keys -/

theorem areDistinct_eq_all (entries : List (String × Value)) :
    areDistinct entries = entries.all fun entry => entry.2.isDistinct := by
  induction entries with
  | nil => rfl
  | cons entry entries ih => rw [areDistinct, List.all_cons, ih]

/-- A value that is well formed has each key once in all of its tables, so in those as well that
merging looks at. -/
theorem Value.WellFormed.isDistinct (h : value.WellFormed) : value.isDistinct = true := by
  induction value using Value.induction_on_members with
  | scalar value hscalar => cases value <;> first | rfl | cases hscalar
  | array items ih => rfl
  | table entries ih =>
    obtain ⟨hkeys, hentries⟩ := wellFormed_table.mp h
    rw [Value.isDistinct, decide_eq_true hkeys, Bool.true_and, areDistinct_eq_all,
      List.all_eq_true]
    exact fun entry hentry => ih entry hentry (hentries entry hentry)

/-- Tables that were read from texts can be merged by the laws for distinct keys. -/
theorem isDistinct_parse {text : List Char} (h : parse text = .ok t) :
    (Value.table t).isDistinct = true :=
  (wellFormed_parse h).isDistinct

/-! ## Merging -/

theorem wellFormed_merge_of_overlay {below above : Table}
    (hbelow : (Value.table below).WellFormed) (habove : ∀ entry ∈ above, entry.2.WellFormed)
    (hoverlay : ∀ entry ∈ above, ∀ old : Value, old.WellFormed →
      (old.overlay entry.2).WellFormed) :
    (Value.table (merge below above)).WellFormed := by
  induction above generalizing below with
  | nil =>
    rw [merge]
    exact hbelow
  | cons entry above ih =>
    obtain ⟨hvalue, hvalues⟩ := List.forall_mem_cons.mp habove
    obtain ⟨hlaid, hrest⟩ := List.forall_mem_cons.mp hoverlay
    rw [merge]
    refine ih (hbelow.put ?_ entry.1) hvalues hrest
    split
    · next old hold => exact hlaid old (hbelow.get? hold)
    · exact hvalue

theorem wellFormed_overlay {below above : Value} (hbelow : below.WellFormed)
    (habove : above.WellFormed) : (below.overlay above).WellFormed := by
  induction above using Value.induction_on_members generalizing below with
  | scalar value hscalar =>
    rw [overlay_of_not_table_right below (by cases value <;> first | rfl | cases hscalar)]
    exact habove
  | array items ih =>
    rw [overlay_of_not_table_right below rfl]
    exact habove
  | table entries ih =>
    cases hold : below.isTable with
    | false =>
      rw [overlay_of_not_table_left hold]
      exact habove
    | true =>
      obtain ⟨lower, rfl⟩ := exists_table hold
      have hentries := (wellFormed_table.mp habove).2
      rw [Value.overlay]
      exact wellFormed_merge_of_overlay hbelow hentries fun entry hentry old hold =>
        ih entry hentry hold (hentries entry hentry)

/-- What is merged from well-formed tables is well formed. -/
theorem wellFormed_mergeAll {tables : List Table}
    (h : ∀ table ∈ tables, (Value.table table).WellFormed) :
    (Value.table (mergeAll tables)).WellFormed := by
  rw [mergeAll]
  refine List.foldlRecOn (motive := fun t => (Value.table t).WellFormed) tables merge
    wellFormed_empty fun below hbelow above habove => ?_
  have hentries := (wellFormed_table.mp (h above habove)).2
  exact wellFormed_merge_of_overlay hbelow hentries fun entry hentry old hold =>
    wellFormed_overlay hold (hentries entry hentry)

end BuildHook.Toml
