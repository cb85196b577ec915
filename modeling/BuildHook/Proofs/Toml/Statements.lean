import BuildHook.Proofs.Toml.LineEnds

/-!
# Statements of written documents

A written document reads as the statements that it was written from: a header for each table that
has one, an element for each table of a spread array, and an assignment for each plain value. Blocks
are read one after the other, and the empty lines between them hold no statement.
-/

namespace BuildHook.Toml

variable {cs text : List Char} {statement : Statement} {statements more : List Statement}
  {place : Key} {heading : Heading} {blocks : List (List Char)}

/-! ## The statements of a table -/

/-- The assignments of the plain values of a table. -/
def assignments (entries : Table) : List Statement :=
  (entries.filter fun entry => isPlain entry.2).map fun entry => .assignment [entry.1] entry.2

/-- The header of a table, unless it holds nothing but sub-tables. -/
def headers (place : Key) (entries : Table) : List Statement :=
  if entries.isEmpty || entries.any fun entry => isPlain entry.2 then [.header place] else []

mutual

/-- The statements for the sub-tables of the table at a place. -/
def statementsBelow (place : Key) : List (String × Value) → List Statement
  | [] => []
  | (key, .table entries) :: rest =>
    headers (place ++ [key]) entries ++ assignments entries ++
      statementsBelow (place ++ [key]) entries ++ statementsBelow place rest
  | (key, .array items) :: rest =>
    (if isSpread (.array items) then elementStatements (place ++ [key]) items else []) ++
      statementsBelow place rest
  | _ :: rest => statementsBelow place rest

/-- The statements for the tables of a spread array at a place. -/
def elementStatements (place : Key) : List Value → List Statement
  | [] => []
  | .table entries :: items =>
    .element place :: assignments entries ++ statementsBelow place entries ++
      elementStatements place items
  | _ :: items => elementStatements place items

end

/-- The statements that a table is written from. -/
def statementsOf (table : Table) : List Statement :=
  assignments table ++ statementsBelow [] table

/-! ## Lines -/

/-- Whether a text of whole lines, which no carriage return ends, reads as some statements, whatever
follows it. -/
def ReadsAs (text : List Char) (statements : List Statement) : Prop :=
  '\r' ∉ text ∧ ∃ lines ≤ text.length, ∀ bound a rest,
    readLines (bound + 1 + lines) a (text ++ rest) =
      (expect (statements.foldlM Assembly.step a)).bind fun a => readLines (bound + 1) a rest

theorem readLines_nil (bound : Nat) (a : Assembly) : readLines (bound + 1) a [] = .ok a := by
  simp [readLines, readLine, skipSpacing]

theorem ReadsAs.nil : ReadsAs [] [] :=
  ⟨List.not_mem_nil, 0, Nat.le_refl 0, fun _ _ _ => rfl⟩

theorem ReadsAs.append (h : ReadsAs cs statements) (hmore : ReadsAs text more) :
    ReadsAs (cs ++ text) (statements ++ more) := by
  obtain ⟨hreturn, lines, hlines, hread⟩ := h
  obtain ⟨hreturns, others, hothers, hreads⟩ := hmore
  refine ⟨by simp [hreturn, hreturns], others + lines, by rw [List.length_append]; omega,
    fun bound a rest => ?_⟩
  rw [List.append_assoc, show bound + 1 + (others + lines) = bound + others + 1 + lines by omega,
    hread, List.foldlM_append]
  cases statements.foldlM Assembly.step a with
  | none => rfl
  | some a =>
    change readLines (bound + others + 1) a (text ++ rest) = _
    rw [show bound + others + 1 = bound + 1 + others by omega, hreads]
    rfl

/-- A text that reads as statements is read so to its end. -/
theorem ReadsAs.readLines (h : ReadsAs text statements) (a : Assembly) :
    readLines (text.length + 1) a text = expect (statements.foldlM Assembly.step a) := by
  obtain ⟨-, lines, hlines, hread⟩ := h
  have hall := hread (text.length - lines) a []
  rw [List.append_nil, show text.length - lines + 1 + lines = text.length + 1 by omega] at hall
  rw [hall]
  cases statements.foldlM Assembly.step a with
  | none => rfl
  | some a => exact readLines_nil (text.length - lines) a

/-- A line that is read as some statements whatever follows it. -/
theorem readsAs_line (hne : text ≠ []) (hreturn : '\r' ∉ text)
    (h : ∀ rest, readLine (text ++ rest) = .ok (statements, rest)) :
    ReadsAs text statements := by
  refine ⟨hreturn, 1, List.length_pos_iff.mpr hne, fun bound a rest => ?_⟩
  rw [Toml.readLines, h rest]
  dsimp only
  cases statements.foldlM Assembly.step a with
  | none => rfl
  | some a =>
    cases rest with
    | nil => exact (readLines_nil bound a).symm
    | cons c rest => rfl

theorem readsAs_blank : ReadsAs ['\n'] [] :=
  readsAs_line (List.cons_ne_nil _ _) (by decide) fun _ => rfl

/-- A line that begins with a statement and ends right behind it. -/
theorem readsAs_statement {c : Char} (hreturn : '\r' ∉ c :: cs) (hlayout : isLayout c = false)
    (hmark : c ≠ '#')
    (h : ∀ rest, readStatement (c :: cs ++ '\n' :: rest) = .ok (statement, '\n' :: rest)) :
    ReadsAs (c :: cs ++ ['\n']) [statement] := by
  obtain ⟨hspacing, hbreak⟩ := Bool.or_eq_false_iff.mp hlayout
  refine readsAs_line (List.cons_ne_nil _ _) (by simpa using hreturn) fun rest => ?_
  have hskip : skipSpacing (c :: cs ++ '\n' :: rest) = c :: cs ++ '\n' :: rest :=
    skipSpacing_of_stops (stops_cons.mpr hspacing)
  have hlast (hend : isSpacing '\n' = false) : skipSpacing ('\n' :: rest) = '\n' :: rest :=
    skipSpacing_of_stops (stops_cons.mpr hend)
  rw [List.append_assoc, List.singleton_append, readLine, hskip]
  simp only [List.cons_append, List.head?_cons]
  rw [hbreak, decide_eq_false hmark, ← List.cons_append, h]
  simp [readLineEnd, hlast rfl, skipComment]

/-- What stands between brackets or before an equals sign is read as a key. -/
theorem readKey_before {c : Char} {bound : Nat} (hplace : place ≠ [])
    (hbound : (writeKey place).length ≤ bound) (hbare : isBareKeyChar c = false)
    (hspacing : isSpacing c = false) (hpoint : c ≠ '.') (rest : List Char) :
    readKey bound (skipSpacing (writeKey place ++ c :: rest)) = some (place, c :: rest) := by
  have hstay : skipSpacing (c :: rest) = c :: rest :=
    skipSpacing_of_stops (stops_cons.mpr hspacing)
  have hskip : skipSpacing (writeKey place ++ c :: rest) = writeKey place ++ c :: rest := by
    obtain ⟨first, more, hkey, hfirst⟩ := head_writeKey hplace
    rw [hkey, List.cons_append]
    exact skipSpacing_of_stops (stops_cons.mpr
      (Bool.or_eq_false_iff.mp (isLayout_of_beginsKey hfirst)).1)
  have hread := readKey_writeKey hplace ((length_le_writeKey place).trans hbound)
    (stops_cons.mpr hbare) (by rw [hstay]; simpa using hpoint)
  rw [hskip, hread, hstay]

theorem readsAs_header (hplace : place ≠ []) :
    ReadsAs ('[' :: writeKey place ++ [']', '\n']) [.header place] := by
  have htext : '[' :: writeKey place ++ [']', '\n'] =
      '[' :: (writeKey place ++ [']']) ++ ['\n'] := by
    simp
  rw [htext]
  refine readsAs_statement (by simp [notMem_writeKey]) (by decide) (by decide) fun rest => ?_
  have hline : '[' :: (writeKey place ++ [']']) ++ '\n' :: rest =
      '[' :: (writeKey place ++ ']' :: '\n' :: rest) := by
    simp
  have hbracket (more : List Char) : writeKey place ++ ']' :: '\n' :: rest ≠ '[' :: more := by
    obtain ⟨first, after, hkey, hfirst⟩ := head_writeKey hplace
    rw [hkey]
    exact fun heq => ne_of_kind hfirst (by decide) (List.cons.inj heq).1
  rw [hline, readStatement.eq_2 _ hbracket, readKey_before hplace (by simp; omega) (by decide)
    (by decide) (by decide)]
  rfl

theorem readsAs_element (hplace : place ≠ []) :
    ReadsAs ('[' :: '[' :: writeKey place ++ [']', ']', '\n']) [.element place] := by
  have htext : '[' :: '[' :: writeKey place ++ [']', ']', '\n'] =
      '[' :: ('[' :: writeKey place ++ [']', ']']) ++ ['\n'] := by
    simp
  rw [htext]
  refine readsAs_statement (by simp [notMem_writeKey]) (by decide) (by decide) fun rest => ?_
  have hline : '[' :: ('[' :: writeKey place ++ [']', ']']) ++ '\n' :: rest =
      '[' :: '[' :: (writeKey place ++ ']' :: ']' :: '\n' :: rest) := by
    simp
  rw [hline, readStatement, readKey_before hplace (by simp; omega) (by decide) (by decide)
    (by decide)]
  rfl

/-- Behind a key and an equals sign a value is read. -/
theorem readStatement_assignment (key : String) (cs : List Char) :
    readStatement (writeKeyPart key ++ ' ' :: '=' :: cs) =
      (readValue (2 * (writeKeyPart key ++ ' ' :: '=' :: cs).length + 2) (skipSpacing cs)).map
        fun (value, after) => (.assignment [key] value, after) := by
  have hplain (after : List Char) : writeKeyPart key ++ ' ' :: '=' :: cs ≠ '[' :: after := by
    obtain ⟨first, more, hkey, hfirst⟩ := head_writeKeyPart key
    rw [hkey]
    exact fun heq => ne_of_kind hfirst (by decide) (List.cons.inj heq).1
  rw [readStatement.eq_3 _ (fun _ => hplain _) hplain, readKey_assignment]
  rfl

theorem readsAs_assignment (key : String) {value : Value} (h : value.Writable) :
    ReadsAs (writeKeyPart key ++ ' ' :: '=' :: ' ' :: writeValue 0 value ++ ['\n'])
      [.assignment [key] value] := by
  obtain ⟨first, more, hkey, hfirst⟩ := head_writeKeyPart key
  have htext : writeKeyPart key ++ ' ' :: '=' :: ' ' :: writeValue 0 value ++ ['\n'] =
      first :: (more ++ ' ' :: '=' :: ' ' :: writeValue 0 value) ++ ['\n'] := by
    simp [hkey]
  have hreturn : '\r' ∉ first :: (more ++ ' ' :: '=' :: ' ' :: writeValue 0 value) := by
    have hpart := notMem_writeKeyPart key
    rw [hkey] at hpart
    rw [← List.cons_append]
    simpa [notMem_writeValue h.wellFormed] using hpart
  rw [htext]
  refine readsAs_statement hreturn (isLayout_of_beginsKey hfirst)
    (ne_of_kind hfirst (by decide)) fun rest => ?_
  have hend : EndsValue ('\n' :: rest) := .newline rest
  have hline : first :: (more ++ ' ' :: '=' :: ' ' :: writeValue 0 value) ++ '\n' :: rest =
      writeKeyPart key ++ ' ' :: '=' :: ' ' :: (writeValue 0 value ++ '\n' :: rest) := by
    simp [hkey]
  have hread : readValue (2 * (writeKeyPart key ++ ' ' :: '=' :: ' ' ::
      (writeValue 0 value ++ '\n' :: rest)).length + 2) (writeValue 0 value ++ '\n' :: rest) =
      .ok (value, '\n' :: rest) :=
    h.readsBack 0 _ _ hend (by simp; omega)
  rw [hline, readStatement_assignment, skipSpacing_writeValue h 0 hend, hread]
  rfl

/-! ## Blocks -/

/-- Whether blocks read as statements, one block after the other. -/
inductive BlocksReadAs : List (List Char) → List Statement → Prop
  | nil : BlocksReadAs [] []
  | cons {block : List Char} {rest : List (List Char)} {found others : List Statement}
    (h : ReadsAs block found) (hrest : BlocksReadAs rest others) :
    BlocksReadAs (block :: rest) (found ++ others)

theorem BlocksReadAs.append {others : List (List Char)} (h : BlocksReadAs blocks statements)
    (hothers : BlocksReadAs others more) :
    BlocksReadAs (blocks ++ others) (statements ++ more) := by
  induction h with
  | nil => exact hothers
  | cons h _ ih =>
    rw [List.append_assoc]
    exact .cons h ih

theorem ReadsAs.joinBlocks (h : ReadsAs text statements) (hblocks : BlocksReadAs blocks more) :
    ReadsAs (Toml.joinBlocks text blocks) (statements ++ more) := by
  induction hblocks generalizing text statements with
  | nil =>
    rw [List.append_nil]
    exact h
  | cons hblock _ ih =>
    have hbreak : ReadsAs (if text.isEmpty then [] else ['\n']) [] := by
      split
      · exact .nil
      · exact readsAs_blank
    rw [Toml.joinBlocks, ← List.append_assoc]
    have hstart := (h.append hbreak).append hblock
    rw [List.append_nil] at hstart
    exact ih hstart

/-- The place of the table that a heading heads. -/
inductive Heading.At : Heading → Key → Prop
  | document : At .document []
  | table {key : Key} (h : key ≠ []) : At (.table (writeKey key)) key
  | element {key : Key} (h : key ≠ []) : At (.element (writeKey key)) key

theorem Heading.At.below (h : heading.At place) (key : String) :
    heading.below key = writeKey (place ++ [key]) := by
  cases h with
  | document => rfl
  | table h => exact (writeKey_concat h key).symm
  | element h => exact (writeKey_concat h key).symm

theorem readsAs_plainLines {entries : Table} (h : ∀ entry ∈ entries, entry.2.Writable) :
    ReadsAs (plainLines entries) (assignments entries) := by
  have hplain : ∀ entry ∈ entries.filter fun entry => isPlain entry.2, entry.2.Writable :=
    fun entry hentry => h entry (List.mem_of_mem_filter hentry)
  rw [plainLines, assignments]
  generalize entries.filter (fun entry => isPlain entry.2) = plain at hplain
  induction plain with
  | nil => exact .nil
  | cons entry plain ih =>
    obtain ⟨hvalue, hvalues⟩ := List.forall_mem_cons.mp hplain
    exact (readsAs_assignment entry.1 hvalue).append (ih hvalues)

theorem readsAs_line_table (hplace : place ≠ []) (entries : Table) :
    ReadsAs ((Heading.table (writeKey place)).line entries) (headers place entries) := by
  rw [Heading.line, headers]
  split
  · exact readsAs_header hplace
  · exact .nil

mutual

theorem blocksReadAs_writeBlocks {heading : Heading} {place : Key} (hat : heading.At place) :
    (entries : List (String × Value)) → (∀ entry ∈ entries, entry.2.Writable) →
      BlocksReadAs (writeBlocks heading entries) (statementsBelow place entries)
  | [], _ => by
    rw [writeBlocks, statementsBelow]
    exact .nil
  | (key, .table entries) :: rest, h => by
    obtain ⟨hvalue, hrest⟩ := List.forall_mem_cons.mp h
    have hentries := (writable_table.mp hvalue).2
    have hplace : place ++ [key] ≠ [] := by simp
    rw [writeBlocks, statementsBelow, hat.below]
    refine .cons ?_ (blocksReadAs_writeBlocks hat rest hrest)
    have hstart := (readsAs_line_table hplace entries).append (readsAs_plainLines hentries)
    exact hstart.joinBlocks (blocksReadAs_writeBlocks (.table hplace) entries hentries)
  | (key, .array items) :: rest, h => by
    obtain ⟨hvalue, hrest⟩ := List.forall_mem_cons.mp h
    have hplace : place ++ [key] ≠ [] := by simp
    rw [writeBlocks, statementsBelow, hat.below]
    refine .append ?_ (blocksReadAs_writeBlocks hat rest hrest)
    split
    · exact blocksReadAs_writeElements hplace items (writable_array.mp hvalue)
    · exact .nil
  | (_, .string _) :: rest, h | (_, .integer _) :: rest, h | (_, .float _) :: rest, h
  | (_, .boolean _) :: rest, h | (_, .date _) :: rest, h | (_, .time _) :: rest, h
  | (_, .dateTime _) :: rest, h => by
    rw [writeBlocks, statementsBelow]
    · exact blocksReadAs_writeBlocks hat rest (List.forall_mem_cons.mp h).2
    all_goals rintro _ _ ⟨⟩

theorem blocksReadAs_writeElements {place : Key} (hplace : place ≠ []) :
    (items : List Value) → (∀ item ∈ items, item.Writable) →
      BlocksReadAs (writeElements (writeKey place) items) (elementStatements place items)
  | [], _ => by
    rw [writeElements, elementStatements]
    exact .nil
  | .table entries :: items, h => by
    obtain ⟨hvalue, hitems⟩ := List.forall_mem_cons.mp h
    have hentries := (writable_table.mp hvalue).2
    rw [writeElements, elementStatements]
    refine .cons ?_ (blocksReadAs_writeElements hplace items hitems)
    have hstart := (readsAs_element hplace).append (readsAs_plainLines hentries)
    exact hstart.joinBlocks (blocksReadAs_writeBlocks (.element hplace) entries hentries)
  | .string _ :: items, h | .integer _ :: items, h | .float _ :: items, h | .boolean _ :: items, h
  | .date _ :: items, h | .time _ :: items, h | .dateTime _ :: items, h | .array _ :: items, h => by
    rw [writeElements, elementStatements]
    · exact blocksReadAs_writeElements hplace items (List.forall_mem_cons.mp h).2
    all_goals rintro _ ⟨⟩

end

theorem readsAs_print {table : Table} (h : (Value.table table).Writable) :
    ReadsAs (print table) (statementsOf table) := by
  have hentries := (writable_table.mp h).2
  exact (readsAs_plainLines hentries).joinBlocks (blocksReadAs_writeBlocks .document table hentries)

/-- Reading a written document is assembling the statements of its table. -/
theorem parse_print {table : Table} (h : (Value.table table).Writable) :
    parse (print table) =
      (expect ((statementsOf table).foldlM Assembly.step .empty)).map fun a => a.content := by
  have hread := readsAs_print h
  rw [parse, dropReturns_of_notMem hread.1, hread.readLines]

/-! ## Integers that are refused -/

/-- An integer with too many digits is refused wherever a value is read. -/
theorem readValue_overlong {number : Int} {rest : List Char} (hrest : EndsValue rest)
    (h : digitLimit < digitCount number.natAbs) (depth : Nat) :
    readValue (depth + 1) (skipSpacing (' ' :: (writeInteger number ++ rest))) =
      .error (.digits (.read (digitCount number.natAbs))) := by
  have hinteger : readInteger number = .error (.digits (.read (digitCount number.natAbs))) :=
    if_pos h
  have hread := readScalar_writeInteger number hrest
  rw [hinteger] at hread
  -- it begins with a sign or a digit, and so neither an array nor a table
  obtain ⟨c, cs, hcs, hc⟩ : ∃ c cs, writeInteger number = c :: cs ∧ startsScalar c = true := by
    rw [writeInteger]
    split
    · exact ⟨'-', _, rfl, rfl⟩
    · obtain ⟨c, cs, hdigits⟩ := List.exists_cons_of_ne_nil
        (Nat.toDigits_ne_nil : Nat.toDigits 10 number.natAbs ≠ [])
      have hall := all_isDigit_toDigits number.natAbs
      rw [hdigits, List.all_cons, Bool.and_eq_true] at hall
      exact ⟨c, cs, hdigits, by simp [startsScalar, hall.1]⟩
  obtain ⟨hprecedes, hbracket, hbrace⟩ := precedesValue_of_startsScalar hc
  have hskip :
      skipSpacing (' ' :: (writeInteger number ++ rest)) = writeInteger number ++ rest := by
    simp only [precedesValue, isLayout, Bool.or_eq_false_iff] at hprecedes
    rw [hcs, List.cons_append]
    change skipSpacing (c :: (cs ++ rest)) = _
    exact skipSpacing_of_stops (stops_cons.mpr hprecedes.1.1.1.1)
  rw [hskip]
  rw [hcs] at hread ⊢
  rw [List.cons_append, readValue.eq_4 _ _ (fun _ heq => hbracket (List.cons.inj heq).1)
    (fun _ heq => hbrace (List.cons.inj heq).1)]
  exact hread

theorem dropReturns_append {line : List Char} (h : '\r' ∉ line) (rest : List Char) :
    dropReturns (line ++ '\n' :: rest) = line ++ '\n' :: dropReturns rest := by
  induction line with
  | nil => rfl
  | cons c line ih =>
    obtain ⟨hc, hline⟩ := not_or.mp (mt List.mem_cons.mpr h)
    rw [List.cons_append, dropReturns.eq_3 c _ (fun _ heq _ => hc heq.symm), ih hline]
    rfl

/-- A document in which the first line has an integer with too many digits is refused for it,
whatever follows. -/
theorem parse_overlong (key : String) {number : Int} (h : digitLimit < digitCount number.natAbs)
    (rest : List Char) :
    parse (writeKeyPart key ++ ' ' :: '=' :: ' ' :: writeInteger number ++ '\n' :: rest) =
      .error (.digits (.read (digitCount number.natAbs))) := by
  obtain ⟨first, more, hkey, hfirst⟩ := head_writeKeyPart key
  obtain ⟨hspacing, hbreak⟩ := Bool.or_eq_false_iff.mp (isLayout_of_beginsKey hfirst)
  have hmark : first ≠ '#' := ne_of_kind hfirst (by decide)
  have hreturn : '\r' ∉ writeKeyPart key ++ ' ' :: '=' :: ' ' :: writeInteger number := by
    have hvalue := notMem_writeValue (.integer number) 0
    rw [writeValue] at hvalue
    simp [notMem_writeKeyPart, hvalue]
  rw [parse, dropReturns_append hreturn]
  generalize dropReturns rest = rest
  have hread := readStatement_assignment key (' ' :: (writeInteger number ++ '\n' :: rest))
  rw [readValue_overlong (.newline rest) h] at hread
  have hskip : skipSpacing (writeKeyPart key ++ ' ' :: '=' :: ' ' :: (writeInteger number ++
      '\n' :: rest)) =
      writeKeyPart key ++ ' ' :: '=' :: ' ' :: (writeInteger number ++ '\n' :: rest) := by
    rw [hkey]
    exact skipSpacing_of_stops (stops_cons.mpr hspacing)
  have hline : readLine (writeKeyPart key ++ ' ' :: '=' :: ' ' :: (writeInteger number ++
      '\n' :: rest)) = .error (.digits (.read (digitCount number.natAbs))) := by
    rw [readLine, hskip, hread, hkey]
    simp [hbreak, hmark]
    rfl
  rw [List.append_assoc, List.cons_append, List.cons_append, List.cons_append, readLines, hline]
  rfl

end BuildHook.Toml
