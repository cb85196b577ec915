import BuildHook.Proofs.Decimal.ReadBack
import BuildHook.Proofs.Toml.Moments

/-!
# Numbers read back

A decimal number is taken apart into its digits before the point, those behind it and its exponent.
All layouts of a written number are such numerals, and the numeral of a number in range has the
value of its shortest digits.
-/

namespace BuildHook.Toml

variable {c : Char} {cs ds rest tail : List Char} {n : Nat}

/-! ## Runs of digits -/

/-- The characters that go on with a run of digits. -/
def continuesDigits (c : Char) : Bool :=
  isDigit c || c = '_'

theorem moreDigits_of_stops (hds : ds.all isDigit = true) (htail : Stops continuesDigits tail) :
    moreDigits isDigit (ds ++ tail) = (ds, tail) := by
  induction ds with
  | nil =>
    cases tail with
    | nil => rfl
    | cons c tail =>
      obtain ⟨hdigit, hmark⟩ := Bool.or_eq_false_iff.mp (stops_cons.mp htail)
      have hmark : c ≠ '_' := of_decide_eq_false hmark
      rw [List.nil_append, moreDigits.eq_3 _ _ _ (fun _ _ h _ => hmark h), hdigit]
      rfl
  | cons d ds ih =>
    obtain ⟨hd, hall⟩ := Bool.and_eq_true_iff.mp hds
    have hmark : d ≠ '_' := ne_of_kind hd (by decide)
    rw [List.cons_append, moreDigits.eq_3 _ _ _ (fun _ _ h _ => hmark h), hd, ih hall]
    rfl

theorem someDigits_of_stops (hne : ds ≠ []) (hds : ds.all isDigit = true)
    (htail : Stops continuesDigits tail) : someDigits isDigit (ds ++ tail) = some (ds, tail) := by
  cases ds with
  | nil => exact absurd rfl hne
  | cons d ds =>
    obtain ⟨hd, hall⟩ := Bool.and_eq_true_iff.mp hds
    rw [List.cons_append, someDigits, hd, moreDigits_of_stops hall htail]
    rfl

/-! ## Numerals -/

/-- The parts of a decimal number: digits before the point, digits behind it if there are any, and
the sign and the digits of the exponent if there is one. -/
structure Numeral where
  whole : List Char
  places : List Char
  exponent : Option (Bool × List Char)

namespace Numeral

variable {number : Numeral}

def signChars (negative : Bool) : List Char :=
  if negative then ['-'] else []

def fraction (number : Numeral) : List Char :=
  if number.places = [] then [] else '.' :: number.places

def power (number : Numeral) : List Char :=
  match number.exponent with
  | none => []
  | some (negative, digits) => 'e' :: (if negative then '-' else '+') :: digits

def chars (number : Numeral) : List Char :=
  number.whole ++ (number.fraction ++ number.power)

def exponentValue (number : Numeral) : Int :=
  match number.exponent with
  | none => 0
  | some (negative, digits) =>
    if negative then -(decimalValue digits : Int) else decimalValue digits

/-- The number that a numeral stands for. -/
def value (number : Numeral) (negative : Bool) : Binary64 :=
  .ofDecimal negative (decimalValue (number.whole ++ number.places))
    (number.exponentValue - number.places.length)

/-- Whether all parts are digits, with no zero in front of other digits before the point. -/
structure IsProper (number : Numeral) : Prop where
  whole_ne : number.whole ≠ []
  whole_digits : number.whole.all isDigit = true
  whole_zero : number.whole.head? = some '0' → number.whole = ['0']
  places_digits : number.places.all isDigit = true
  exponent_digits : ∀ negative digits, number.exponent = some (negative, digits) →
    digits ≠ [] ∧ digits.all isDigit = true

theorem IsProper.head (h : number.IsProper) :
    ∃ c rest, number.whole = c :: rest ∧ isDigit c = true := by
  cases hwhole : number.whole with
  | nil => exact absurd hwhole h.whole_ne
  | cons c rest =>
    have hall := h.whole_digits
    rw [hwhole] at hall
    exact ⟨c, rest, rfl, (Bool.and_eq_true_iff.mp hall).1⟩

/-- What follows the digits before the point. -/
theorem stops_fraction (number : Numeral) (hrest : EndsValue rest) {kind : Char → Bool}
    (hkind : kind '.' = false ∧ kind 'e' = false ∧ kind '\n' = false ∧ kind ',' = false ∧
      kind ' ' = false) : Stops kind (number.fraction ++ (number.power ++ rest)) := by
  obtain ⟨hpoint, he, hend⟩ := hkind
  unfold fraction
  split
  · unfold power
    split
    · exact hrest.stops hend
    · exact stops_cons.mpr he
  · exact stops_cons.mpr hpoint

theorem stops_power (number : Numeral) (hrest : EndsValue rest) {kind : Char → Bool}
    (hkind : kind 'e' = false ∧ kind '\n' = false ∧ kind ',' = false ∧ kind ' ' = false) :
    Stops kind (number.power ++ rest) := by
  unfold power
  split
  · exact hrest.stops hkind.2
  · exact stops_cons.mpr hkind.1

theorem cutSign_signChars (h : number.IsProper) (negative : Bool) (rest : List Char) :
    cutSign (signChars negative ++ (number.chars ++ rest)) = (negative, number.chars ++ rest) := by
  obtain ⟨c, more, hwhole, hc⟩ := h.head
  cases negative with
  | true => rfl
  | false =>
    have hminus : c ≠ '-' := ne_of_kind hc (by decide)
    have hplus : c ≠ '+' := ne_of_kind hc (by decide)
    simp [signChars, chars, hwhole, cutSign, hminus, hplus]

theorem readWhole_append (h : number.IsProper) (htail : Stops continuesDigits tail) :
    readWhole (number.whole ++ tail) = some (number.whole, tail) := by
  obtain ⟨c, more, hwhole, hc⟩ := h.head
  by_cases hzero : c = '0'
  · have hone := h.whole_zero (by rw [hwhole, hzero]; rfl)
    rw [hone]
    rfl
  · have hdigits := someDigits_of_stops h.whole_ne h.whole_digits htail
    rw [hwhole] at hdigits ⊢
    rw [List.cons_append] at hdigits ⊢
    rw [readWhole.eq_2 _ (fun _ heq => hzero (List.cons.inj heq).1), hdigits]

theorem readPlaces?_fraction (h : number.IsProper) (hrest : EndsValue rest) :
    readPlaces? (number.fraction ++ (number.power ++ rest)) =
      if number.places = [] then none else some (number.places, number.power ++ rest) := by
  unfold fraction
  split
  · have hstop : Stops (· = '.') (number.power ++ rest) := number.stops_power hrest (by decide)
    rw [List.nil_append]
    cases htail : number.power ++ rest with
    | nil => rfl
    | cons c tail =>
      rw [htail, stops_cons, decide_eq_false_iff_not] at hstop
      rw [readPlaces?.eq_2 _ (fun _ heq => hstop (List.cons.inj heq).1)]
  · next hne =>
    rw [List.cons_append, readPlaces?, someDigits_of_stops hne h.places_digits
      (number.stops_power hrest (by decide))]

theorem readExponent?_power (h : number.IsProper) (hrest : EndsValue rest) :
    readExponent? (number.power ++ rest) =
      if number.exponent = none then none else some (number.exponentValue, rest) := by
  unfold power exponentValue
  split
  · next hnone =>
    have hstop : Stops (fun c => c = 'e' || c = 'E') rest := hrest.stops (by decide)
    rw [if_pos hnone, List.nil_append]
    cases rest with
    | nil => rfl
    | cons c rest => simp [readExponent?, stops_cons.mp hstop]
  · next negative digits hsome =>
    obtain ⟨hne, hall⟩ := h.exponent_digits negative digits hsome
    have hstop : Stops continuesDigits rest := hrest.stops (by decide)
    have hdigits := someDigits_of_stops hne hall hstop
    have hpresent : number.exponent ≠ none := by simp [hsome]
    cases negative <;> simp [readExponent?, cutSign, hdigits, hpresent]

/-- A numeral is read as an integer if it has neither a fraction nor an exponent, and as the number
nearest to its value otherwise. -/
theorem readDecimal_chars (h : number.IsProper) (hrest : EndsValue rest) (negative : Bool) :
    readDecimal (signChars negative ++ (number.chars ++ rest)) =
      if number.places = [] ∧ number.exponent = none then
        some (.integer (if negative then -(decimalValue number.whole : Int)
          else decimalValue number.whole), rest)
      else some (.float (number.value negative), rest) := by
  have hstop : Stops continuesDigits (number.fraction ++ (number.power ++ rest)) :=
    number.stops_fraction hrest (by decide)
  have hwhole := readWhole_append h hstop
  have hplaces := readPlaces?_fraction h hrest
  have hexponent := readExponent?_power h hrest
  have hsplit : number.chars ++ rest =
      number.whole ++ (number.fraction ++ (number.power ++ rest)) := by
    simp [chars]
  rw [readDecimal, cutSign_signChars h, hsplit]
  simp only [hwhole, hplaces, Option.bind_eq_bind, Option.bind_some]
  by_cases hnone : number.places = []
  · have htail : number.fraction ++ (number.power ++ rest) = number.power ++ rest := by
      rw [fraction, if_pos hnone, List.nil_append]
    simp only [hnone, htail, hexponent, ↓reduceIte, true_and, Option.getD_none]
    cases hexp : number.exponent with
    | none =>
      have hlast : number.power ++ rest = rest := by rw [power, hexp, List.nil_append]
      simp [hlast]
    | some exponent => simp [value, hnone]
  · simp only [hnone, ↓reduceIte, false_and, Option.getD_some, hexponent]
    cases hexp : number.exponent with
    | none =>
      have hlast : number.power ++ rest = rest := by rw [power, hexp, List.nil_append]
      simp [value, exponentValue, hexp, hlast]
    | some exponent => simp [value]

/-- A numeral is no number in another base, and no part of a moment. -/
theorem readBased_chars (h : number.IsProper) (hrest : EndsValue rest) (negative : Bool) :
    readBased (signChars negative ++ (number.chars ++ rest)) = none := by
  cases negative with
  | true => rfl
  | false =>
    obtain ⟨c, more, hwhole, hc⟩ := h.head
    by_cases hzero : c = '0'
    · have hone := h.whole_zero (by rw [hwhole, hzero]; rfl)
      have hstop : Stops (fun d => (base? d).isSome) (number.fraction ++ (number.power ++ rest)) :=
        number.stops_fraction hrest (by decide)
      have hsplit : signChars false ++ (number.chars ++ rest) =
          '0' :: (number.fraction ++ (number.power ++ rest)) := by
        simp [signChars, chars, hone]
      rw [hsplit]
      cases htail : number.fraction ++ (number.power ++ rest) with
      | nil => rfl
      | cons d tail =>
        rw [htail, stops_cons, Option.isSome_eq_false_iff, Option.isNone_iff_eq_none] at hstop
        rw [readBased, hstop]
        rfl
    · rw [signChars, chars, hwhole]
      exact readBased.eq_2 _ (fun _ _ heq => hzero (List.cons.inj heq).1)

end Numeral

theorem not_beginsMoment_cons (hc : isDigit c = false) (cs : List Char) :
    ¬ BeginsMoment (c :: cs) := by
  rintro ⟨digits, mark, rest, heq, hne, hall, -⟩
  cases digits with
  | nil => exact hne rfl
  | cons d digits =>
    obtain rfl := (List.cons.inj heq).1
    rw [List.all_cons, hc] at hall
    cases hall

theorem not_beginsMoment_append (hds : ds.all isDigit = true) (htail : Stops isDigit tail)
    (hmark : Stops (fun c => c = '-' || c = ':') tail) : ¬ BeginsMoment (ds ++ tail) := by
  rintro ⟨digits, mark, rest, heq, -, hall, hmarks⟩
  have hstop : Stops isDigit (mark :: rest) := by
    rw [stops_cons]
    rcases hmarks with rfl | rfl <;> decide
  have htail := dropWhile_of_stops hds htail
  rw [heq, dropWhile_of_stops hall hstop] at htail
  rw [← htail, stops_cons] at hmark
  rcases hmarks with rfl | rfl <;> cases hmark

theorem Numeral.not_beginsMoment {number : Numeral} (h : number.IsProper)
    (hrest : EndsValue rest) (negative : Bool) :
    ¬ BeginsMoment (signChars negative ++ (number.chars ++ rest)) := by
  cases negative with
  | true => exact not_beginsMoment_cons (by decide) _
  | false =>
    have hsplit : signChars false ++ (number.chars ++ rest) =
        number.whole ++ (number.fraction ++ (number.power ++ rest)) := by
      simp [signChars, chars]
    rw [hsplit]
    exact not_beginsMoment_append h.whole_digits (number.stops_fraction hrest (by decide))
      (number.stops_fraction hrest (by decide))

/-! ## Scalars -/

/-- The characters that begin strings and truth values. -/
def beginsWord (c : Char) : Bool :=
  c = '"' || c = '\'' || c = 't' || c = 'f'

theorem readScalar_of_number (hc : beginsWord c = false) (hmoment : ¬ BeginsMoment (c :: cs)) :
    readScalar (c :: cs) = readNumber (c :: cs) := by
  simp only [beginsWord, Bool.or_eq_false_iff, decide_eq_false_iff_not] at hc
  obtain ⟨⟨⟨hquote, hliteral⟩, ht⟩, hf⟩ := hc
  have hboolean : readBoolean (c :: cs) = none := by simp [readBoolean, ht, hf]
  simp [readScalar, hquote, hliteral, hboolean, readMoment_eq_none hmoment]

theorem readScalar_numeral {number : Numeral} (h : number.IsProper) (hrest : EndsValue rest)
    (negative : Bool) :
    readScalar (Numeral.signChars negative ++ (number.chars ++ rest)) =
      if number.places = [] ∧ number.exponent = none then
        (readInteger (if negative then -(decimalValue number.whole : Int)
          else decimalValue number.whole)).map fun value => (value, rest)
      else .ok (.float (number.value negative), rest) := by
  have hmoment := Numeral.not_beginsMoment h hrest negative
  have hbased := Numeral.readBased_chars h hrest negative
  have hdecimal := Numeral.readDecimal_chars h hrest negative
  have hhead : ∃ c cs, Numeral.signChars negative ++ (number.chars ++ rest) = c :: cs ∧
      beginsWord c = false := by
    cases negative with
    | true => exact ⟨_, _, rfl, by decide⟩
    | false =>
      obtain ⟨c, more, hwhole, hc⟩ := h.head
      have hne {d : Char} (hd : isDigit d = false) : decide (c = d) = false :=
        decide_eq_false (ne_of_kind hc hd)
      refine ⟨c, _, by rw [Numeral.chars, hwhole]; rfl, ?_⟩
      simp only [beginsWord, hne (d := '"') (by decide), hne (d := '\'') (by decide),
        hne (d := 't') (by decide), hne (d := 'f') (by decide), Bool.or_self]
  obtain ⟨c, cs, hcs, hc⟩ := hhead
  rw [hcs] at hmoment hbased hdecimal ⊢
  rw [readScalar_of_number hc hmoment, readNumber, hbased]
  dsimp only
  by_cases hwhole : number.places = [] ∧ number.exponent = none
  · rw [hdecimal, if_pos hwhole, if_pos hwhole]
    rfl
  · rw [hdecimal, if_neg hwhole, if_neg hwhole]
    rfl

/-! ## Integers -/

theorem toDigits_head (h : (Nat.toDigits 10 n).head? = some '0') : n = 0 := by
  induction n using Nat.strongRecOn with
  | ind n ih =>
    rw [Nat.toDigits_eq_if (by decide)] at h
    split at h
    · simpa [Nat.digitChar_eq_zero] using h
    · next hlarge =>
      rw [List.head?_append_of_ne_nil _ Nat.toDigits_ne_nil] at h
      have hzero := ih (n / 10) (by omega) h
      omega

theorem all_isDigit_toDigits (n : Nat) : (Nat.toDigits 10 n).all isDigit = true := by
  rw [List.all_eq_true]
  intro c hc
  rw [isDigit_eq]
  exact Nat.isDigit_of_mem_toDigits (by decide) (by decide) hc

theorem decimalValue_toDigits (n : Nat) : decimalValue (Nat.toDigits 10 n) = n :=
  Nat.ofDigitChars_ten_toDigits

theorem isProper_integer (n : Nat) : Numeral.IsProper ⟨Nat.toDigits 10 n, [], none⟩ where
  whole_ne := Nat.toDigits_ne_nil
  whole_digits := all_isDigit_toDigits n
  whole_zero h := by
    dsimp only at h ⊢
    rw [toDigits_head h, Nat.toDigits_zero]
  places_digits := rfl
  exponent_digits := nofun

/-- A written integer is read back, or refused for its digits. -/
theorem readScalar_writeInteger (number : Int) (hrest : EndsValue rest) :
    readScalar (writeInteger number ++ rest) =
      (readInteger number).map fun value => (value, rest) := by
  have hread := readScalar_numeral (isProper_integer number.natAbs) hrest (decide (number < 0))
  have hchars : writeInteger number ++ rest = Numeral.signChars (decide (number < 0)) ++
      (Numeral.chars ⟨Nat.toDigits 10 number.natAbs, [], none⟩ ++ rest) := by
    simp [writeInteger, Numeral.signChars, Numeral.chars, Numeral.fraction, Numeral.power]
  have hsigned : (if decide (number < 0) then -(number.natAbs : Int) else number.natAbs) =
      number := by
    by_cases hneg : number < 0
    · rw [decide_eq_true hneg, if_pos rfl]
      omega
    · rw [decide_eq_false hneg, if_neg (by decide)]
      omega
  rw [hchars, hread, if_pos ⟨rfl, rfl⟩, decimalValue_toDigits, hsigned]

end BuildHook.Toml
