import BuildHook.Proofs.Toml.Words
import Mathlib.Data.Option.Basic

/-!
# Dates and times read back

Written dates and times have fixed numbers of digits, so each part is read by its width. What stands
behind a value in a written document cannot be taken for a part of it: a date is followed by a time
only if it was written with one.
-/

namespace BuildHook.Toml

variable {c : Char} {cs rest : List Char} {kind : Char → Bool} {n width : Nat}

/-- What stands behind a written value: the end of a line, a comma, or the end of a table on one
line. -/
inductive EndsValue : List Char → Prop
  | newline (rest : List Char) : EndsValue ('\n' :: rest)
  | comma (rest : List Char) : EndsValue (',' :: rest)
  | brace (rest : List Char) : EndsValue (' ' :: '}' :: rest)

theorem EndsValue.stops (h : EndsValue rest)
    (hkind : kind '\n' = false ∧ kind ',' = false ∧ kind ' ' = false) : Stops kind rest := by
  cases h with
  | newline rest => exact stops_cons.mpr hkind.1
  | comma rest => exact stops_cons.mpr hkind.2.1
  | brace rest => exact stops_cons.mpr hkind.2.2

/-! ## Digits -/

theorem decimalValue_append (front back : List Char) :
    decimalValue (front ++ back) = 10 ^ back.length * decimalValue front + decimalValue back := by
  change Nat.ofDigitChars 10 (front ++ back) 0 = _
  rw [Nat.ofDigitChars_append, Nat.ofDigitChars_eq_ofDigitChars_zero]
  rfl

theorem decimalValue_digitChar (h : n < 10) : decimalValue [Nat.digitChar n] = n := by
  change Nat.ofDigitChars 10 [Nat.digitChar n] 0 = n
  rw [Nat.ofDigitChars_cons_digitChar_of_lt_ten h, Nat.ofDigitChars_nil, Nat.mul_zero,
    Nat.zero_add]

theorem isDigit_eq (c : Char) : isDigit c = c.isDigit := by
  simp only [isDigit, Char.isDigit, Char.le_def, ge_iff_le]

theorem isDigit_digitChar (h : n < 10) : isDigit (Nat.digitChar n) = true := by
  rw [isDigit_eq, Nat.isDigit_digitChar]
  exact decide_eq_true h

theorem length_fixedDecimal (width n : Nat) : (fixedDecimal width n).length = width := by
  induction width generalizing n with
  | zero => rfl
  | succ width ih => rw [fixedDecimal, List.length_append, ih, List.length_singleton]

theorem all_isDigit_fixedDecimal (width n : Nat) : (fixedDecimal width n).all isDigit = true := by
  induction width generalizing n with
  | zero => rfl
  | succ width ih =>
    rw [fixedDecimal, List.all_append, ih, List.all_cons, List.all_nil,
      isDigit_digitChar (Nat.mod_lt n (by decide))]
    rfl

theorem decimalValue_fixedDecimal (h : n < 10 ^ width) :
    decimalValue (fixedDecimal width n) = n := by
  induction width generalizing n with
  | zero =>
    rw [Nat.pow_zero, Nat.lt_one_iff] at h
    rw [h]
    rfl
  | succ width ih =>
    have hfront : n / 10 < 10 ^ width := by
      rw [Nat.pow_succ] at h
      omega
    rw [fixedDecimal, decimalValue_append, ih hfront,
      decimalValue_digitChar (Nat.mod_lt n (by decide)), List.length_singleton]
    omega

theorem readDigits_append {digits : List Char} (hall : digits.all isDigit = true)
    (hlength : digits.length = width) (rest : List Char) :
    readDigits width (digits ++ rest) = some (decimalValue digits, rest) := by
  subst hlength
  simp only [readDigits, List.take_left, List.drop_left, decide_true, hall, Bool.and_self,
    ↓reduceIte]

theorem readDigits_fixedDecimal (h : n < 10 ^ width) (rest : List Char) :
    readDigits width (fixedDecimal width n ++ rest) = some (n, rest) := by
  rw [readDigits_append (all_isDigit_fixedDecimal width n) (length_fixedDecimal width n),
    decimalValue_fixedDecimal h]

theorem readChar_cons (c : Char) (rest : List Char) : readChar c (c :: rest) = some rest := by
  rw [readChar, if_pos rfl]

/-! ## Parts of a moment -/

theorem daysIn_le (year month : Nat) : daysIn year month ≤ 31 := by
  unfold daysIn
  split
  · split <;> decide
  all_goals decide

theorem readYearMonthDay_chars (d : Date) (rest : List Char) :
    readYearMonthDay (d.chars ++ rest) = some ((d.year, d.month, d.day), rest) := by
  obtain ⟨hyear, hyear', hmonth, hmonth', hday, hday'⟩ := d.isValid
  have hlast := Nat.le_trans hday' (daysIn_le d.year d.month)
  have hguard : (decide (1 ≤ d.month) && decide (d.month ≤ 12) && decide (1 ≤ d.day) &&
      decide (d.day ≤ 31)) = true := by
    simp [hmonth, hmonth', hday, hlast]
  simp only [Date.chars, List.append_assoc, List.cons_append, readYearMonthDay,
    readDigits_fixedDecimal (show d.year < 10 ^ 4 by omega), readChar_cons,
    readDigits_fixedDecimal (show d.month < 10 ^ 2 by omega),
    readDigits_fixedDecimal (show d.day < 10 ^ 2 by omega), hguard, Option.bind_eq_bind,
    Option.bind_some, guard, ↓reduceIte]
  rfl

theorem Date.of?_fields (d : Date) : Date.of? d.year d.month d.day = some d := by
  rw [Date.of?, dif_pos d.isValid]

theorem microsecondsOf_fixedDecimal (h : n < 10 ^ 6) : microsecondsOf (fixedDecimal 6 n) = n := by
  have htake : (fixedDecimal 6 n ++ List.replicate 6 '0').take 6 = fixedDecimal 6 n := by
    rw [List.take_append_of_le_length (Nat.le_of_eq (length_fixedDecimal 6 n).symm),
      List.take_of_length_le (Nat.le_of_eq (length_fixedDecimal 6 n))]
  rw [microsecondsOf, htake, decimalValue_fixedDecimal h]

theorem readFraction_of_stops (h : rest.head? ≠ some '.') : readFraction rest = (0, rest) := by
  unfold readFraction
  split
  · exact absurd rfl h
  · rfl

theorem readFraction_fixedDecimal (h : n < 10 ^ 6) (hrest : Stops isDigit rest) :
    readFraction ('.' :: (fixedDecimal 6 n ++ rest)) = (n, rest) := by
  have hall := all_isDigit_fixedDecimal 6 n
  have hne : (fixedDecimal 6 n).isEmpty = false := by
    rw [List.isEmpty_eq_false_iff_exists_mem]
    exact ⟨_, List.mem_append_right _ (List.mem_singleton_self _)⟩
  simp only [readFraction, takeWhile_of_stops hall hrest, dropWhile_of_stops hall hrest, hne,
    microsecondsOf_fixedDecimal h, Bool.false_eq_true, ↓reduceIte]

/-- A written time is read back before what is no further digit and no point. -/
theorem read_time_chars (t : Time) (hrest : Stops isDigit rest) (hpoint : rest.head? ≠ some '.') :
    Time.read (t.chars ++ rest) = some (t, rest) := by
  obtain ⟨hhour, hminute, hsecond, hmicro⟩ := t.isValid
  have hfraction : readFraction
      ((if t.microsecond = 0 then [] else '.' :: fixedDecimal 6 t.microsecond) ++ rest) =
        (t.microsecond, rest) := by
    split
    · next hzero => rw [List.nil_append, readFraction_of_stops hpoint, hzero]
    · exact readFraction_fixedDecimal hmicro hrest
  simp only [Time.chars, List.append_assoc, List.cons_append, Time.read,
    readDigits_fixedDecimal (show t.hour < 10 ^ 2 by omega), readChar_cons,
    readDigits_fixedDecimal (show t.minute < 10 ^ 2 by omega),
    readDigits_fixedDecimal (show t.second < 10 ^ 2 by omega), hfraction, Option.bind_eq_bind,
    Option.bind_some]
  rw [dif_pos t.isValid]
  rfl

theorem readHourMinute_fixedDecimal {hour minute : Nat} (hhour : hour < 24) (hminute : minute < 60)
    (rest : List Char) :
    readHourMinute (fixedDecimal 2 hour ++ ':' :: fixedDecimal 2 minute ++ rest) =
      some ((hour, minute), rest) := by
  have hguard : (decide (hour < 24) && decide (minute < 60)) = true := by simp [hhour, hminute]
  simp only [readHourMinute, List.append_assoc, List.cons_append,
    readDigits_fixedDecimal (show hour < 10 ^ 2 by omega), readChar_cons,
    readDigits_fixedDecimal (show minute < 10 ^ 2 by omega), hguard, Option.bind_eq_bind,
    Option.bind_some, guard, ↓reduceIte]
  rfl

theorem read?_signed {sign : Char} (hsign : sign = '+' ∨ sign = '-') {hour minute : Nat}
    {after : List Char} (h : readHourMinute cs = some ((hour, minute), after)) :
    Offset.read? (sign :: cs) =
      (Offset.of? (if sign = '-' then -((hour * 60 + minute : Nat) : Int)
        else (hour * 60 + minute : Nat)), after) := by
  have hutc : (decide (sign = 'Z') || decide (sign = 'z')) = false := by
    rcases hsign with rfl | rfl <;> decide
  have hoffset : (decide (sign = '+') || decide (sign = '-')) = true := by simpa using hsign
  simp only [Offset.read?, hutc, hoffset, h, Bool.false_eq_true, ↓reduceIte]
  push_cast
  rfl

theorem read?_offset_chars (o : Offset) (rest : List Char) :
    Offset.read? (o.chars ++ rest) = (some o, rest) := by
  obtain ⟨hlow, hhigh⟩ := o.isValid
  have hparts := readHourMinute_fixedDecimal (show o.minutes.natAbs / 60 < 24 by omega)
    (show o.minutes.natAbs % 60 < 60 by omega) rest
  have hof {m : Int} (h : m = o.minutes) : Offset.of? m = some o := by
    rw [h, Offset.of?, dif_pos o.isValid]
  by_cases hneg : o.minutes < 0
  · rw [Offset.chars, if_pos hneg, List.cons_append, List.cons_append,
      read?_signed (.inr rfl) hparts, if_pos rfl, hof (by omega)]
  · rw [Offset.chars, if_neg hneg, List.cons_append, List.cons_append,
      read?_signed (.inl rfl) hparts, if_neg (by decide), hof (by omega)]

theorem read?_endsValue (h : EndsValue rest) : Offset.read? rest = (none, rest) := by
  cases h <;> simp [Offset.read?]

/-- The offset behind a time, if it has one, is read back. -/
theorem read?_optional (o : Option Offset) (hrest : EndsValue rest) :
    Offset.read? ((o.map Offset.chars).getD [] ++ rest) = (o, rest) := by
  cases o with
  | none => exact read?_endsValue hrest
  | some o => exact read?_offset_chars o rest

theorem head_optional (o : Option Offset) (hrest : EndsValue rest) :
    Stops isDigit ((o.map Offset.chars).getD [] ++ rest) ∧
      ((o.map Offset.chars).getD [] ++ rest).head? ≠ some '.' := by
  cases o with
  | none => cases hrest <;> simp [Stops, isDigit]
  | some o =>
    rw [Option.map_some, Option.getD_some, Offset.chars, List.cons_append, List.cons_append]
    split <;> simp [Stops, isDigit]

/-! ## Moments -/

theorem readClock_endsValue (h : EndsValue rest) : readClock rest = none := by
  cases h with
  | newline rest => rfl
  | comma rest => rfl
  | brace rest =>
    have hnone : readDigits 2 ('}' :: rest) = none := by simp [readDigits, isDigit]
    simp [readClock, Time.read, hnone]

theorem readMoment_date (d : Date) (hrest : EndsValue rest) :
    readMoment (d.chars ++ rest) = some (some (.date d, rest)) := by
  simp only [readMoment, readYearMonthDay_chars, Date.of?_fields, readClock_endsValue hrest,
    Option.map_some]

theorem readMoment_dateTime (m : DateTime) (hrest : EndsValue rest) :
    readMoment (m.chars ++ rest) = some (some (.dateTime m, rest)) := by
  obtain ⟨hdigits, hpoint⟩ := head_optional m.offset hrest
  have hclock : readClock (' ' :: (m.time.chars ++ ((m.offset.map Offset.chars).getD [] ++ rest))) =
      some ((m.time, m.offset), rest) := by
    have hoffset := read?_optional m.offset hrest
    simp only [readClock, read_time_chars m.time hdigits hpoint]
    change some ((m.time, (Offset.read? _).1), (Offset.read? _).2) = _
    rw [hoffset]
  simp only [DateTime.chars, List.append_assoc, List.cons_append, readMoment,
    readYearMonthDay_chars, Date.of?_fields, hclock, Option.map_some]

/-- A time does not begin with the four digits of a year. -/
theorem readYearMonthDay_time (t : Time) (rest : List Char) :
    readYearMonthDay (t.chars ++ rest) = none := by
  have hnone : readDigits 4 (t.chars ++ rest) = none := by
    have hhour (n : Nat) : fixedDecimal 2 n =
        [Nat.digitChar (n / 10 % 10), Nat.digitChar (n % 10)] := rfl
    simp [readDigits, Time.chars, hhour, isDigit]
  rw [readYearMonthDay, hnone]
  rfl

theorem readMoment_time (t : Time) (hrest : EndsValue rest) :
    readMoment (t.chars ++ rest) = some (some (.time t, rest)) := by
  have hread := read_time_chars t (hrest.stops (by decide)) (by cases hrest <;> simp)
  simp only [readMoment, readYearMonthDay_time, hread, Option.map_some]

/-- Whether digits that a hyphen or a colon follows stand in front of a text, as in a date or a
time. -/
def BeginsMoment (cs : List Char) : Prop :=
  ∃ digits mark rest, cs = digits ++ mark :: rest ∧ digits ≠ [] ∧ digits.all isDigit = true ∧
    (mark = '-' ∨ mark = ':')

theorem eq_append_of_readDigits {value : Nat} (h : readDigits width cs = some (value, rest)) :
    ∃ digits, cs = digits ++ rest ∧ digits.length = width ∧ digits.all isDigit = true := by
  unfold readDigits at h
  dsimp only at h
  split at h
  · next hdigits =>
    obtain ⟨hlength, hall⟩ := Bool.and_eq_true_iff.mp hdigits
    obtain ⟨-, rfl⟩ := Prod.mk.inj (Option.some.inj h)
    exact ⟨_, (List.take_append_drop width cs).symm, of_decide_eq_true hlength, hall⟩
  · cases h

theorem eq_cons_of_readChar (h : readChar c cs = some rest) : cs = c :: rest := by
  cases cs with
  | nil => cases h
  | cons d cs =>
    rw [readChar] at h
    split at h
    · next hd => rw [hd, Option.some.inj h]
    · exact absurd h (by simp)

theorem readChar_of_not_beginsMoment (h : ¬ BeginsMoment cs) {mark : Char}
    (hmark : mark = '-' ∨ mark = ':') {value : Nat} (hwidth : 0 < width)
    (hread : readDigits width cs = some (value, rest)) : readChar mark rest = none := by
  obtain ⟨digits, hcs, hlength, hall⟩ := eq_append_of_readDigits hread
  cases hchar : readChar mark rest with
  | none => rfl
  | some after =>
    refine absurd ⟨digits, mark, after, ?_, ?_, hall, hmark⟩ h
    · rw [hcs, eq_cons_of_readChar hchar]
    · rintro rfl
      rw [← hlength] at hwidth
      exact absurd hwidth (Nat.lt_irrefl 0)

/-- Where no digits with a hyphen or a colon behind them stand, no moment is read. -/
theorem readMoment_eq_none (h : ¬ BeginsMoment cs) : readMoment cs = none := by
  have hdate : readYearMonthDay cs = none := by
    cases hread : readDigits 4 cs with
    | none => simp [readYearMonthDay, hread]
    | some found =>
      have hmark := readChar_of_not_beginsMoment h (.inl rfl) (by decide) hread
      simp [readYearMonthDay, hread, hmark]
  have htime : Time.read cs = none := by
    cases hread : readDigits 2 cs with
    | none => simp [Time.read, hread]
    | some found =>
      have hmark := readChar_of_not_beginsMoment h (.inr rfl) (by decide) hread
      simp [Time.read, hread, hmark]
  simp only [readMoment, hdate, htime, Option.map_none]

end BuildHook.Toml
