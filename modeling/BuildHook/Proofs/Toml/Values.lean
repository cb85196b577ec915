import BuildHook.Proofs.Toml.Drafts
import BuildHook.Proofs.Toml.Floats
import BuildHook.Proofs.Toml.WellFormed

/-!
# Values read back

A value that was written on the right of a key, or inside an array or a table on one line, reads
back as itself with its keys in their order. Scalars are told apart by how they begin. Arrays and
tables nest, and the length of what is written bounds the depth that reading them takes.
-/

namespace BuildHook.Toml

variable {c : Char} {cs rest : List Char} {value : Value} {level depth : Nat}

/-! ## Values that are written -/

/-- Whether a value is well formed and no integer in it has too many digits. -/
structure Value.Writable (value : Value) : Prop where
  wellFormed : value.WellFormed
  short : value.isOverlong = false

theorem writable_array {items : List Value} :
    (Value.array items).Writable ↔ ∀ item ∈ items, item.Writable := by
  constructor
  · rintro ⟨hwell, hshort⟩ item hitem
    rw [isOverlong_array, List.any_eq_false] at hshort
    exact ⟨wellFormed_array.mp hwell item hitem, Bool.eq_false_iff.mpr (hshort item hitem)⟩
  · refine fun h => ⟨.array fun item hitem => (h item hitem).wellFormed, ?_⟩
    rw [isOverlong_array, List.any_eq_false]
    exact fun item hitem => Bool.eq_false_iff.mp (h item hitem).short

theorem writable_table {entries : Table} :
    (Value.table entries).Writable ↔
      entries.keys.Nodup ∧ ∀ entry ∈ entries, entry.2.Writable := by
  constructor
  · rintro ⟨hwell, hshort⟩
    obtain ⟨hkeys, hentries⟩ := wellFormed_table.mp hwell
    rw [isOverlong_table, List.any_eq_false] at hshort
    exact ⟨hkeys, fun entry hentry =>
      ⟨hentries entry hentry, Bool.eq_false_iff.mpr (hshort entry hentry)⟩⟩
  · rintro ⟨hkeys, hentries⟩
    refine ⟨.table hkeys fun entry hentry => (hentries entry hentry).wellFormed, ?_⟩
    rw [isOverlong_table, List.any_eq_false]
    exact fun entry hentry => Bool.eq_false_iff.mp (hentries entry hentry).short

/-! ## Scalars -/

/-- The characters that a scalar begins with. -/
def startsScalar (c : Char) : Bool :=
  beginsWord c || isDigit c || c = '-' || c = '+' || c = 'i' || c = 'n'

theorem readNumber_eq_error (hdigit : isDigit c = false) (hminus : c ≠ '-') (hplus : c ≠ '+')
    (hi : c ≠ 'i') (hn : c ≠ 'n') (cs : List Char) :
    readNumber (c :: cs) = .error .malformed := by
  have hzero : c ≠ '0' := by
    rintro rfl
    cases hdigit
  have hbased : readBased (c :: cs) = none :=
    readBased.eq_2 _ fun _ _ heq => hzero (List.cons.inj heq).1
  have hsign : cutSign (c :: cs) = (false, c :: cs) :=
    cutSign.eq_3 _ (fun _ heq => hminus (List.cons.inj heq).1)
      fun _ heq => hplus (List.cons.inj heq).1
  have hwhole : readWhole (c :: cs) = none := by
    rw [readWhole.eq_2 _ fun _ heq => hzero (List.cons.inj heq).1, someDigits, hdigit]
    rfl
  simp [readNumber, hbased, readDecimal, readSpecial, hsign, hwhole, hi, hn]

theorem head_of_readScalar {found : Value × List Char} (h : readScalar cs = .ok found) :
    ∃ c more, cs = c :: more ∧ startsScalar c = true := by
  cases cs with
  | nil => cases h
  | cons c more =>
    refine ⟨c, more, rfl, ?_⟩
    cases hstarts : startsScalar c with
    | true => rfl
    | false =>
      simp only [startsScalar, Bool.or_eq_false_iff, decide_eq_false_iff_not] at hstarts
      obtain ⟨⟨⟨⟨⟨hword, hdigit⟩, hminus⟩, hplus⟩, hi⟩, hn⟩ := hstarts
      rw [readScalar_of_number hword (not_beginsMoment_cons hdigit _),
        readNumber_eq_error hdigit hminus hplus hi hn] at h
      cases h

theorem readScalar_of_moment {found : Option (Value × List Char)} (hc : isDigit c = true)
    (h : readMoment (c :: cs) = some found) : readScalar (c :: cs) = expect found := by
  have hne {d : Char} (hd : isDigit d = false) : c ≠ d := ne_of_kind hc hd
  have hboolean : readBoolean (c :: cs) = none := by
    simp [readBoolean, hne (d := 't') (by decide), hne (d := 'f') (by decide)]
  simp [readScalar, hne (d := '"') (by decide), hne (d := '\'') (by decide), hboolean, h]

theorem head_fixedDecimal (width n : Nat) (more : List Char) :
    ∃ c cs, fixedDecimal (width + 1) n ++ more = c :: cs ∧ isDigit c = true := by
  have hdigits := all_isDigit_fixedDecimal (width + 1) n
  cases hfixed : fixedDecimal (width + 1) n with
  | nil => simp [fixedDecimal] at hfixed
  | cons c cs =>
    rw [hfixed] at hdigits
    exact ⟨c, _, rfl, (Bool.and_eq_true_iff.mp hdigits).1⟩

/-- A written scalar is read back. -/
theorem readScalar_writeValue (h : value.Writable) (hscalar : value.isScalar = true)
    (level : Nat) (hrest : EndsValue rest) :
    readScalar (writeValue level value ++ rest) = .ok (value, rest) := by
  have hmoment {text : List Char} {found : Option (Value × List Char)}
      (htext : ∃ width n more, text = fixedDecimal (width + 1) n ++ more)
      (hread : readMoment text = some found) : readScalar text = expect found := by
    obtain ⟨width, n, more, htext⟩ := htext
    obtain ⟨c, cs, hcs, hc⟩ := head_fixedDecimal width n more
    rw [htext, hcs] at hread ⊢
    exact readScalar_of_moment hc hread
  cases value with
  | string text =>
    have hnext : rest.head? ≠ some '"' := by cases hrest <;> simp
    have hread := readString_writeString text.toList hnext
    have hquote : writeString text.toList ++ rest =
        '"' :: (text.toList.flatMap escapeChar ++ '"' :: rest) := by
      simp [writeString]
    rw [writeValue, hquote, readScalar, ← hquote, hread]
    simp
  | integer number =>
    have hdigits : readInteger number = .ok (.integer number) := if_neg (of_decide_eq_false h.short)
    have hread := readScalar_writeInteger number hrest
    rwa [hdigits] at hread
  | float x =>
    cases h.wellFormed with
    | float h => exact readScalar_chars h hrest
  | boolean flag => cases flag <;> rfl
  | date day =>
    refine hmoment ?_ (readMoment_date day hrest)
    simp only [Date.chars, List.append_assoc]
    exact ⟨3, day.year, _, rfl⟩
  | time clock =>
    refine hmoment ?_ (readMoment_time clock hrest)
    simp only [Time.chars, List.append_assoc]
    exact ⟨1, clock.hour, _, rfl⟩
  | dateTime moment =>
    refine hmoment ?_ (readMoment_dateTime moment hrest)
    simp only [DateTime.chars, Date.chars, List.append_assoc]
    exact ⟨3, moment.date.year, _, rfl⟩
  | array items => cases hscalar
  | table entries => cases hscalar

/-! ## What stands around values -/

theorem skipFiller_layout {front : List Char} (hfront : front.all isLayout = true)
    (cs : List Char) : skipFiller (front ++ cs) = skipFiller cs := by
  induction front with
  | nil => rfl
  | cons c front ih =>
    obtain ⟨hc, hfront⟩ := Bool.and_eq_true_iff.mp hfront
    rw [← ih hfront, List.cons_append, skipFiller, skipFillerFrom, if_pos hc]
    rfl

theorem skipFiller_of_stops (h : Stops (fun c => isLayout c || c = '#') cs) :
    skipFiller cs = some cs := by
  cases cs with
  | nil => rfl
  | cons c cs =>
    obtain ⟨hlayout, hmark⟩ := Bool.or_eq_false_iff.mp (stops_cons.mp h)
    rw [skipFiller, skipFillerFrom, hlayout, if_neg (by decide),
      if_neg (of_decide_eq_false hmark)]

theorem all_isLayout_indentation (level : Nat) : (indentation level).all isLayout = true := by
  rw [List.all_eq_true]
  intro c hc
  rw [List.eq_of_mem_replicate hc]
  rfl

/-- The characters that no written value begins with. -/
def precedesValue (c : Char) : Bool :=
  isLayout c || c = '#' || c = ']' || c = '}'

theorem precedesValue_of_startsScalar (h : startsScalar c = true) :
    precedesValue c = false ∧ c ≠ '[' ∧ c ≠ '{' := by
  have hne {d : Char} (hd : startsScalar d = false) : c ≠ d := ne_of_kind h hd
  refine ⟨?_, hne (by decide), hne (by decide)⟩
  simp only [precedesValue, isLayout, isSpacing, Bool.or_eq_false_iff, decide_eq_false_iff_not]
  exact ⟨⟨⟨⟨⟨hne (by decide), hne (by decide)⟩, hne (by decide)⟩, hne (by decide)⟩,
    hne (by decide)⟩, hne (by decide)⟩

/-- How a written value begins. -/
theorem head_writeValue (h : value.Writable) (level : Nat) (hrest : EndsValue rest) :
    ∃ c more, writeValue level value ++ rest = c :: more ∧ precedesValue c = false ∧
      (value.isScalar = true → c ≠ '[' ∧ c ≠ '{') := by
  cases hscalar : value.isScalar with
  | true =>
    obtain ⟨c, more, hcs, hstarts⟩ :=
      head_of_readScalar (readScalar_writeValue h hscalar level hrest)
    obtain ⟨hprecedes, hopen⟩ := precedesValue_of_startsScalar hstarts
    exact ⟨c, more, hcs, hprecedes, fun _ => hopen⟩
  | false =>
    cases value with
    | array items => cases items <;> exact ⟨'[', _, by rw [writeValue]; rfl, rfl, nofun⟩
    | table entries => cases entries <;> exact ⟨'{', _, by rw [writeValue]; rfl, rfl, nofun⟩
    | _ => cases hscalar

theorem stops_writeValue (h : value.Writable) (level : Nat) (hrest : EndsValue rest) :
    Stops precedesValue (writeValue level value ++ rest) := by
  obtain ⟨c, more, hcs, hc, -⟩ := head_writeValue h level hrest
  rw [hcs]
  exact stops_cons.mpr hc

theorem length_writeValue_pos (h : value.Writable) (level : Nat) :
    0 < (writeValue level value).length := by
  obtain ⟨c, more, hcs, hc, -⟩ := head_writeValue h level (EndsValue.newline [])
  cases hvalue : writeValue level value with
  | nil =>
    rw [hvalue] at hcs
    obtain rfl : '\n' = c := (List.cons.inj hcs).1
    cases hc
  | cons first after => exact Nat.succ_pos _

theorem Stops.mono {kind other : Char → Bool} (h : Stops kind cs)
    (himp : ∀ c, other c = true → kind c = true) : Stops other cs := by
  intro c hc
  cases hother : other c with
  | false => rfl
  | true =>
    have hkind := h c hc
    rw [himp c hother] at hkind
    cases hkind

/-- Behind the equals sign a written value begins at once. -/
theorem skipSpacing_writeValue (h : value.Writable) (level : Nat) (hrest : EndsValue rest) :
    skipSpacing (' ' :: (writeValue level value ++ rest)) = writeValue level value ++ rest := by
  refine skipSpacing_of_stops ((stops_writeValue h level hrest).mono fun c hc => ?_)
  simp only [precedesValue, isLayout, hc, Bool.true_or]

theorem readValue_scalar (h : value.Writable) (hscalar : value.isScalar = true) (level : Nat)
    (hrest : EndsValue rest) (depth : Nat) :
    readValue (depth + 1) (writeValue level value ++ rest) = .ok (value, rest) := by
  obtain ⟨c, more, hcs, -, hopen⟩ := head_writeValue h level hrest
  obtain ⟨hbracket, hbrace⟩ := hopen hscalar
  have hread := readScalar_writeValue h hscalar level hrest
  rw [hcs] at hread ⊢
  rw [readValue.eq_4 _ _ (fun _ heq => hbracket (List.cons.inj heq).1)
    (fun _ heq => hbrace (List.cons.inj heq).1), hread]

theorem readKey_assignment (key : String) (rest : List Char) :
    readKey (writeKeyPart key ++ ' ' :: '=' :: rest).length
      (writeKeyPart key ++ ' ' :: '=' :: rest) = some ([key], '=' :: rest) := by
  have hbound : [key].length ≤ (writeKeyPart key ++ ' ' :: '=' :: rest).length := by
    simp only [List.length_append, List.length_cons, List.length_nil]
    omega
  have hpoint : (skipSpacing (' ' :: '=' :: rest)).head? ≠ some '.' := by
    change some '=' ≠ some '.'
    decide
  exact readKey_writeKey (List.cons_ne_nil _ _) hbound (stops_cons.mpr (by decide)) hpoint

/-! ## Values -/

/-- Whether a value reads back wherever it is written, at any depth that its length bounds. -/
def Value.ReadsBack (value : Value) : Prop :=
  ∀ level depth rest, EndsValue rest → 2 * (writeValue level value).length ≤ depth →
    readValue depth (writeValue level value ++ rest) = .ok (value, rest)

theorem readItems_writeItems {items : List Value} (hwell : ∀ item ∈ items, item.Writable)
    (hback : ∀ item ∈ items, item.ReadsBack) (level last depth : Nat) {front : List Char}
    (hfront : front.all isLayout = true) (rest : List Char)
    (hdepth : 2 * (writeItems level items).length + 1 ≤ depth) :
    readItems depth (front ++ (writeItems level items ++ (indentation last ++ ']' :: rest))) =
      .ok (items, rest) := by
  induction items generalizing front depth with
  | nil =>
    obtain ⟨depth, rfl⟩ : ∃ n, depth = n + 1 := ⟨depth - 1, by omega⟩
    have hskip : skipFiller (front ++ (indentation last ++ ']' :: rest)) = some (']' :: rest) := by
      rw [skipFiller_layout hfront, skipFiller_layout (all_isLayout_indentation last)]
      exact skipFiller_of_stops (stops_cons.mpr (by decide))
    rw [writeItems, List.nil_append, readItems, hskip]
    rfl
  | cons item items ih =>
    obtain ⟨hitem, hitems⟩ := List.forall_mem_cons.mp hwell
    obtain ⟨hread, hreads⟩ := List.forall_mem_cons.mp hback
    simp only [writeItems, List.length_append, List.length_cons] at hdepth
    obtain ⟨depth, rfl⟩ : ∃ n, depth = n + 1 := ⟨depth - 1, by omega⟩
    set after := writeItems level items ++ (indentation last ++ ']' :: rest) with hafter
    obtain ⟨c, more, hcs, hc, -⟩ := head_writeValue hitem level (EndsValue.comma ('\n' :: after))
    have htext : front ++ (writeItems level (item :: items) ++ (indentation last ++ ']' :: rest)) =
        front ++ (indentation level ++ (writeValue level item ++ ',' :: '\n' :: after)) := by
      simp [writeItems, hafter]
    have hskip : skipFiller (front ++
        (indentation level ++ (writeValue level item ++ ',' :: '\n' :: after))) =
        some (writeValue level item ++ ',' :: '\n' :: after) := by
      rw [skipFiller_layout hfront, skipFiller_layout (all_isLayout_indentation level)]
      refine skipFiller_of_stops ((stops_writeValue hitem level (.comma _)).mono fun c hc => ?_)
      simp only [precedesValue, Bool.or_eq_true] at hc ⊢
      exact .inl (.inl hc)
    have hvalue : readValue depth (writeValue level item ++ ',' :: '\n' :: after) =
        .ok (item, ',' :: '\n' :: after) :=
      hread level depth _ (.comma _) (by omega)
    have hcomma : skipFiller (',' :: '\n' :: after) = some (',' :: '\n' :: after) :=
      skipFiller_of_stops (stops_cons.mpr (by decide))
    have hnext : readItems depth ('\n' :: after) = .ok (items, rest) :=
      @ih hitems hreads depth ['\n'] rfl (by omega)
    have hbracket : c ≠ ']' := by
      rintro rfl
      cases hc
    rw [htext, readItems, hskip]
    rw [hcs] at hvalue ⊢
    simp [hbracket, hvalue, hcomma, hnext, Except.map]

theorem writeEntries_cons_append (entry : String × Value) (entries : Table) (rest : List Char) :
    ∃ more, writeEntries (entry :: entries) ++ rest = writeKeyPart entry.1 ++ ' ' :: more := by
  cases entries with
  | nil => exact ⟨_, by simp only [writeEntries, List.append_assoc, List.cons_append]; rfl⟩
  | cons next entries =>
    exact ⟨_, by simp only [writeEntries, List.append_assoc, List.cons_append]; rfl⟩

/-- Written entries begin with no white space and with no closing brace. -/
theorem skipSpacing_writeEntries {entries : Table} (hne : entries ≠ []) (rest : List Char) :
    ∃ c more, skipSpacing (' ' :: (writeEntries entries ++ rest)) = c :: more ∧ c ≠ '}' ∧
      writeEntries entries ++ rest = c :: more := by
  obtain ⟨entry, entries, rfl⟩ := List.exists_cons_of_ne_nil hne
  obtain ⟨more, htext⟩ := writeEntries_cons_append entry entries rest
  obtain ⟨first, after, hkey, hfirst⟩ := head_writeKeyPart entry.1
  refine ⟨first, after ++ ' ' :: more, ?_, ?_, by rw [htext, hkey, List.cons_append]⟩
  · have hskip := skipSpacing_writeKeyPart entry.1 (' ' :: more)
    rw [hkey] at hskip
    rw [htext, hkey]
    exact hskip
  · exact ne_of_kind hfirst (by decide)

/-- Entries are assigned one after the other as they are read. -/
theorem readEntries_writeEntries {entries : Table} (hne : entries ≠ [])
    (hwell : ∀ entry ∈ entries, entry.2.Writable) (hback : ∀ entry ∈ entries, entry.2.ReadsBack)
    (draft : Draft) (depth : Nat) (rest : List Char)
    (hdepth : 2 * (writeEntries entries).length + 1 ≤ depth) :
    readEntries depth draft (writeEntries entries ++ ' ' :: '}' :: rest) =
      (expect (draft.assignAll [] entries)).map fun draft => (draft.content, rest) := by
  induction entries generalizing draft depth with
  | nil => exact absurd rfl hne
  | cons entry entries ih =>
    obtain ⟨key, value⟩ := entry
    obtain ⟨hvalue, hvalues⟩ := List.forall_mem_cons.mp hwell
    obtain ⟨hread, hreads⟩ := List.forall_mem_cons.mp hback
    obtain ⟨depth, rfl⟩ : ∃ n, depth = n + 1 := ⟨depth - 1, by omega⟩
    dsimp only at hvalue hread
    rw [Draft.assignAll_cons, List.nil_append]
    cases entries with
    | nil =>
      simp only [writeEntries, List.length_append, List.length_cons] at hdepth
      have hend : EndsValue (' ' :: '}' :: rest) := .brace rest
      have hback : readValue depth (writeValue 0 value ++ ' ' :: '}' :: rest) = _ :=
        hread 0 depth _ hend (by omega)
      have htext : writeEntries [(key, value)] ++ ' ' :: '}' :: rest =
          writeKeyPart key ++ ' ' :: '=' :: ' ' :: (writeValue 0 value ++ ' ' :: '}' :: rest) := by
        simp [writeEntries]
      rw [htext, readEntries, readKey_assignment]
      simp only [skipSpacing_writeValue hvalue 0 hend, hback]
      cases draft.assign [key] value <;> rfl
    | cons next entries =>
      simp only [writeEntries, List.length_append, List.length_cons] at hdepth
      obtain ⟨c, more, hspace, -, htail⟩ := skipSpacing_writeEntries
        (List.cons_ne_nil next entries) (' ' :: '}' :: rest)
      have hnext (draft : Draft) :
          readEntries depth draft (writeEntries (next :: entries) ++ ' ' :: '}' :: rest) = _ :=
        ih (List.cons_ne_nil _ _) hvalues hreads draft depth (by omega)
      rw [htail] at hspace hnext
      have hend : EndsValue (',' :: ' ' :: c :: more) := .comma _
      have hback : readValue depth (writeValue 0 value ++ ',' :: ' ' :: c :: more) = _ :=
        hread 0 depth _ hend (by omega)
      have hcomma : skipSpacing (',' :: ' ' :: c :: more) = ',' :: ' ' :: c :: more :=
        skipSpacing_of_stops (stops_cons.mpr rfl)
      have htext : writeEntries ((key, value) :: next :: entries) ++ ' ' :: '}' :: rest =
          writeKeyPart key ++ ' ' :: '=' :: ' ' ::
            (writeValue 0 value ++ ',' :: ' ' :: c :: more) := by
        simp [writeEntries, ← htail]
      rw [htext, readEntries, readKey_assignment]
      simp only [skipSpacing_writeValue hvalue 0 hend, hback]
      cases draft.assign [key] value with
      | none => rfl
      | some draft =>
        simp only [hcomma, hspace, hnext]
        rfl

theorem readsBack_scalar (h : value.Writable) (hscalar : value.isScalar = true) :
    value.ReadsBack := by
  intro level depth rest hrest hdepth
  have hlength := length_writeValue_pos h level
  obtain ⟨depth, rfl⟩ : ∃ n, depth = n + 1 := ⟨depth - 1, by omega⟩
  exact readValue_scalar h hscalar level hrest depth

theorem readsBack_array {items : List Value} (hwell : ∀ item ∈ items, item.Writable)
    (hback : ∀ item ∈ items, item.ReadsBack) : (Value.array items).ReadsBack := by
  intro level depth rest hrest hdepth
  cases items with
  | nil =>
    have hlength : 2 * 2 ≤ depth := hdepth
    obtain ⟨depth, rfl⟩ : ∃ n, depth = n + 2 := ⟨depth - 2, by omega⟩
    rfl
  | cons item items =>
    simp only [writeValue, List.length_append, List.length_cons] at hdepth
    obtain ⟨depth, rfl⟩ : ∃ n, depth = n + 1 := ⟨depth - 1, by omega⟩
    have hread : readItems depth ('\n' :: (writeItems (level + 1) (item :: items) ++
        (indentation level ++ ']' :: rest))) = _ :=
      @readItems_writeItems _ hwell hback (level + 1) level depth ['\n'] rfl rest (by omega)
    have htext : writeValue level (.array (item :: items)) ++ rest =
        '[' :: '\n' :: (writeItems (level + 1) (item :: items) ++
          (indentation level ++ ']' :: rest)) := by
      simp [writeValue]
    rw [htext, readValue, hread]
    rfl

theorem readsBack_table {entries : Table} (hkeys : entries.keys.Nodup)
    (hwell : ∀ entry ∈ entries, entry.2.Writable)
    (hback : ∀ entry ∈ entries, entry.2.ReadsBack) : (Value.table entries).ReadsBack := by
  intro level depth rest hrest hdepth
  cases entries with
  | nil =>
    have hlength : 2 * 2 ≤ depth := hdepth
    obtain ⟨depth, rfl⟩ : ∃ n, depth = n + 2 := ⟨depth - 2, by omega⟩
    rfl
  | cons entry entries =>
    simp only [writeValue, List.length_append, List.length_cons] at hdepth
    obtain ⟨depth, rfl⟩ : ∃ n, depth = n + 1 := ⟨depth - 1, by omega⟩
    have hne := List.cons_ne_nil entry entries
    have hread := readEntries_writeEntries hne hwell hback .empty depth rest (by omega)
    obtain ⟨last, hassign, hlast⟩ := Draft.assignAll_empty hkeys
    obtain ⟨c, more, hspace, hc, hmore⟩ := skipSpacing_writeEntries hne (' ' :: '}' :: rest)
    have htext : writeValue level (.table (entry :: entries)) ++ rest =
        '{' :: ' ' :: (writeEntries (entry :: entries) ++ ' ' :: '}' :: rest) := by
      simp [writeValue]
    rw [htext, readValue, hspace]
    rw [hmore, hassign] at hread
    split
    · next after heq => exact absurd (List.cons.inj heq).1 hc
    · rw [hread, ← hlast]
      rfl

/-- A value that can be written reads back. -/
theorem Value.Writable.readsBack (h : value.Writable) : value.ReadsBack := by
  induction value using Value.induction_on_members with
  | scalar value hscalar => exact readsBack_scalar h hscalar
  | array items ih =>
    have hitems := writable_array.mp h
    exact readsBack_array hitems fun item hitem => ih item hitem (hitems item hitem)
  | table entries ih =>
    obtain ⟨hkeys, hentries⟩ := writable_table.mp h
    exact readsBack_table hkeys hentries fun entry hentry =>
      ih entry hentry (hentries entry hentry)

end BuildHook.Toml
