import BuildHook.Proofs.Toml.Values

/-!
# Line ends of written documents

A written document holds no carriage return: those in its strings and keys are escaped. So reading
it as a text file changes nothing about it.
-/

namespace BuildHook.Toml

variable {cs : List Char} {value : Value}

theorem dropReturns_of_notMem (h : '\r' ∉ cs) : dropReturns cs = cs := by
  induction cs with
  | nil => rfl
  | cons c rest ih =>
    obtain ⟨hc, hrest⟩ := not_or.mp (mt List.mem_cons.mpr h)
    rw [dropReturns.eq_3 c rest (fun _ heq _ => hc heq.symm), ih hrest]

/-! ## Words and numbers -/

theorem notMem_digits (h : cs.all isDigit = true) : '\r' ∉ cs :=
  fun hmem => ne_of_kind (List.all_eq_true.mp h '\r' hmem) (by decide) rfl

theorem notMem_fixedHex (width n : Nat) : '\r' ∉ Text.fixedHex width n := by
  have hdigit : ∀ m < 16, '\r' ≠ Text.hexDigit m := by decide
  induction width generalizing n with
  | zero => exact List.not_mem_nil
  | succ width ih => simp [Text.fixedHex, ih, hdigit (n % 16) (Nat.mod_lt n (by decide))]

theorem notMem_escapeChar (c : Char) : '\r' ∉ escapeChar c := by
  unfold escapeChar
  split
  · next letter hletter =>
    have hne : '\r' ≠ letter := by
      rintro rfl
      unfold shortEscape? at hletter
      split at hletter <;> cases hletter
    simp [hne]
  · next hnone =>
    split
    · simp [notMem_fixedHex]
    · next hcontrol =>
      have hne : '\r' ≠ c := by
        rintro rfl
        exact hcontrol rfl
      simpa using hne

theorem notMem_writeString (cs : List Char) : '\r' ∉ writeString cs := by
  simp [writeString, notMem_escapeChar]

theorem notMem_writeKeyPart (key : String) : '\r' ∉ writeKeyPart key := by
  unfold writeKeyPart
  dsimp only
  split
  · next hbare =>
    intro hmem
    cases List.all_eq_true.mp (Bool.and_eq_true_iff.mp hbare).2 '\r' hmem
  · exact notMem_writeString _

theorem notMem_writeKey (place : Key) : '\r' ∉ writeKey place := by
  induction place with
  | nil => exact List.not_mem_nil
  | cons part parts ih =>
    cases parts with
    | nil => exact notMem_writeKeyPart part
    | cons next parts => simp [writeKey, notMem_writeKeyPart, ih]

theorem notMem_numeral {number : Numeral} (h : number.IsProper) : '\r' ∉ number.chars := by
  have hfraction : '\r' ∉ number.fraction := by
    rw [Numeral.fraction]
    split <;> simp [notMem_digits h.places_digits]
  have hpower : '\r' ∉ number.power := by
    rw [Numeral.power]
    split
    · simp
    · next negative digits hexponent =>
      have hdigits := notMem_digits (h.exponent_digits negative digits hexponent).2
      cases negative <;> simp [hdigits]
  simp [Numeral.chars, notMem_digits h.whole_digits, hfraction, hpower]

theorem notMem_float {x : Binary64} (h : x.IsCanonical) : '\r' ∉ x.chars := by
  cases x with
  | nan => decide
  | infinity negative => cases negative <;> decide
  | finite negative significand exponent =>
    obtain ⟨number, hproper, hchars, -, -⟩ := exists_numeral h
    rw [hchars]
    cases negative <;> simp [Numeral.signChars, notMem_numeral hproper]

theorem notMem_fixedDecimal (width n : Nat) : '\r' ∉ fixedDecimal width n :=
  notMem_digits (all_isDigit_fixedDecimal width n)

theorem notMem_date (day : Date) : '\r' ∉ day.chars := by
  simp [Date.chars, notMem_fixedDecimal]

theorem notMem_time (clock : Time) : '\r' ∉ clock.chars := by
  rw [Time.chars]
  split <;> simp [notMem_fixedDecimal]

theorem notMem_dateTime (moment : DateTime) : '\r' ∉ moment.chars := by
  have hoffset : '\r' ∉ (moment.offset.map Offset.chars).getD [] := by
    cases moment.offset with
    | none => simp
    | some offset =>
      simp only [Option.map_some, Option.getD_some, Offset.chars]
      split <;> simp [notMem_fixedDecimal]
  simp [DateTime.chars, notMem_date, notMem_time, hoffset]

/-! ## Values -/

theorem notMem_indentation (level : Nat) : '\r' ∉ indentation level := by
  intro hmem
  cases List.eq_of_mem_replicate hmem

theorem notMem_writeItems {items : List Value} (h : ∀ item ∈ items, ∀ level,
    '\r' ∉ writeValue level item) (level : Nat) : '\r' ∉ writeItems level items := by
  induction items with
  | nil => simp [writeItems]
  | cons item items ih =>
    obtain ⟨hitem, hitems⟩ := List.forall_mem_cons.mp h
    simp [writeItems, notMem_indentation, hitem level, ih hitems]

theorem notMem_writeEntries {entries : Table} (h : ∀ entry ∈ entries, ∀ level,
    '\r' ∉ writeValue level entry.2) : '\r' ∉ writeEntries entries := by
  induction entries with
  | nil => simp [writeEntries]
  | cons entry entries ih =>
    obtain ⟨hentry, hentries⟩ := List.forall_mem_cons.mp h
    cases entries <;> simp_all [writeEntries, notMem_writeKeyPart]

theorem notMem_writeValue (h : value.WellFormed) (level : Nat) : '\r' ∉ writeValue level value := by
  induction value using Value.induction_on_members generalizing level with
  | scalar value hscalar =>
    cases h with
    | string text => exact notMem_writeString _
    | integer number =>
      rw [writeValue, writeInteger]
      split <;> simp [notMem_digits (all_isDigit_toDigits _)]
    | float h => exact notMem_float h
    | boolean flag => cases flag <;> simp [writeValue]
    | date day => exact notMem_date day
    | time clock => exact notMem_time clock
    | dateTime moment => exact notMem_dateTime moment
    | array h => cases hscalar
    | table hkeys h => cases hscalar
  | array items ih =>
    have hitems := notMem_writeItems fun item hitem =>
      ih item hitem (wellFormed_array.mp h item hitem)
    cases items with
    | nil => simp [writeValue]
    | cons item items => simp [writeValue, hitems, notMem_indentation]
  | table entries ih =>
    have hentries := notMem_writeEntries fun entry hentry =>
      ih entry hentry ((wellFormed_table.mp h).2 entry hentry)
    cases entries with
    | nil => simp [writeValue]
    | cons entry entries => simp [writeValue, hentries]

end BuildHook.Toml
