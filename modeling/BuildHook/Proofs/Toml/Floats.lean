import BuildHook.Proofs.Toml.Numbers

/-!
# Floating point numbers read back

The digits of a written number are those of its shortest decimal without the zeros at the end. Each
layout puts them into a numeral of the same value, so a number in range is read back as itself.
-/

namespace BuildHook.Toml

variable {cs ds rest : List Char} {n : Nat} {point : Int}

/-! ## Digits without zeros at the end -/

theorem decimalValue_zeros (count : Nat) (ds : List Char) :
    decimalValue (List.replicate count '0' ++ ds) = decimalValue ds := by
  have hzero : decimalValue (List.replicate count '0') = 0 :=
    Nat.ofDigitChars_replicate_zero.trans (Nat.mul_zero _)
  rw [decimalValue_append, hzero, Nat.mul_zero, Nat.zero_add]

theorem decimalValue_append_zeros (ds : List Char) (count : Nat) :
    decimalValue (ds ++ List.replicate count '0') = decimalValue ds * 10 ^ count := by
  have hzero := decimalValue_zeros count []
  rw [List.append_nil] at hzero
  rw [decimalValue_append, List.length_replicate, hzero, Nat.mul_comm]
  rfl

theorem exists_zeros (cs : List Char) :
    ∃ count, cs = (cs.reverse.dropWhile (· = '0')).reverse ++ List.replicate count '0' := by
  refine ⟨(cs.reverse.takeWhile (· = '0')).length, ?_⟩
  have hzeros : cs.reverse.takeWhile (· = '0') =
      List.replicate (cs.reverse.takeWhile (· = '0')).length '0' :=
    List.eq_replicate_of_mem fun c hc =>
      of_decide_eq_true (List.all_eq_true.mp List.all_takeWhile c hc)
  have hsplit := congrArg List.reverse (@List.takeWhile_append_dropWhile _ (· = '0') cs.reverse)
  rw [List.reverse_append, List.reverse_reverse] at hsplit
  conv_lhs => rw [← hsplit]
  rw [hzeros, List.reverse_replicate, List.length_replicate]

/-- Digits of which the first is no zero. -/
structure IsSignificant (ds : List Char) : Prop where
  ne : ds ≠ []
  digits : ds.all isDigit = true
  head : ds.head? ≠ some '0'

/-- The digits of a number and its point give the value of the number. -/
theorem digitsAndPoint_spec (hn : 0 < n) (exponent : Int) :
    let ds := (Binary64.digitsAndPoint n exponent).1
    let point := (Binary64.digitsAndPoint n exponent).2
    IsSignificant ds ∧ ∀ negative, Binary64.ofDecimal negative (decimalValue ds)
      (point - ds.length) = Binary64.ofDecimal negative n exponent := by
  unfold Binary64.digitsAndPoint
  dsimp only
  obtain ⟨count, hcount⟩ := exists_zeros (Nat.toDigits 10 n)
  generalize ((Nat.toDigits 10 n).reverse.dropWhile (· = '0')).reverse = ds at hcount
  have hvalue := decimalValue_toDigits n
  have hdigits := all_isDigit_toDigits n
  have hhead : (Nat.toDigits 10 n).head? ≠ some '0' := fun h => by
    rw [toDigits_head h] at hn
    exact absurd hn (Nat.lt_irrefl 0)
  rw [hcount] at hvalue hdigits hhead ⊢
  rw [decimalValue_append_zeros] at hvalue
  have hne : ds ≠ [] := by
    rintro rfl
    rw [← hvalue] at hn
    exact absurd hn (by simp [decimalValue])
  refine ⟨⟨hne, ?_, ?_⟩, fun negative => ?_⟩
  · rw [List.all_append] at hdigits
    exact (Bool.and_eq_true_iff.mp hdigits).1
  · rwa [List.head?_append_of_ne_nil _ hne] at hhead
  · rw [← hvalue, Binary64.ofDecimal_mul_pow, List.length_append, List.length_replicate]
    congr 1
    push_cast
    omega

/-! ## Layouts -/

theorem IsSignificant.isProper (h : IsSignificant ds) {whole places : List Char}
    (hwhole : whole ≠ []) (hdigits : whole.all isDigit = true) (hhead : whole.head? = ds.head?)
    (hplaces : places.all isDigit = true) {exponent : Option (Bool × List Char)}
    (hexponent : ∀ negative digits, exponent = some (negative, digits) →
      digits ≠ [] ∧ digits.all isDigit = true) :
    Numeral.IsProper ⟨whole, places, exponent⟩ where
  whole_ne := hwhole
  whole_digits := hdigits
  whole_zero hzero := absurd (hhead.symm.trans hzero) h.head
  places_digits := hplaces
  exponent_digits := hexponent

theorem all_replicate_zero (count : Nat) : (List.replicate count '0').all isDigit = true := by
  rw [List.all_eq_true]
  intro c hc
  rw [List.eq_of_mem_replicate hc]
  rfl

/-- The digits and the point as a numeral that is no integer. -/
def IsLaidOut (ds : List Char) (point : Int) (number : Numeral) : Prop :=
  number.IsProper ∧ Binary64.layout ds point = number.chars ∧
    ¬(number.places = [] ∧ number.exponent = none) ∧
    ∀ negative, number.value negative =
      Binary64.ofDecimal negative (decimalValue ds) (point - ds.length)

/-- All digits behind the point. -/
theorem isLaidOut_below (h : IsSignificant ds) (hlow : -4 < point) (hhigh : point ≤ 0) :
    IsLaidOut ds point ⟨['0'], List.replicate (-point).toNat '0' ++ ds, none⟩ := by
  refine ⟨⟨by simp, rfl, fun _ => rfl, ?_, nofun⟩, ?_, ?_, fun negative => ?_⟩
  · rw [List.all_append, all_replicate_zero, h.digits]
    rfl
  · have hrange : (decide (-4 < point) && decide (point ≤ 16)) = true := by simp; omega
    simp [Binary64.layout, hrange, hhigh, Numeral.chars, Numeral.fraction, Numeral.power, h.ne]
  · simp [h.ne]
  · have hzero : decimalValue (['0'] ++ (List.replicate (-point).toNat '0' ++ ds)) =
        decimalValue ds :=
      (decimalValue_zeros 1 _).trans (decimalValue_zeros _ ds)
    simp only [Numeral.value, Numeral.exponentValue, hzero, List.length_append,
      List.length_replicate]
    congr 1
    push_cast
    omega

/-- All digits before the point. -/
theorem isLaidOut_above (h : IsSignificant ds) (hlow : 0 < point) (hhigh : point ≤ 16)
    (hcount : (ds.length : Int) ≤ point) :
    IsLaidOut ds point ⟨ds ++ List.replicate (point - ds.length).toNat '0', ['0'], none⟩ := by
  refine ⟨h.isProper (by simp [h.ne]) ?_ (List.head?_append_of_ne_nil _ h.ne) rfl nofun, ?_, ?_,
    fun negative => ?_⟩
  · rw [List.all_append, all_replicate_zero, h.digits]
    rfl
  · have hrange : (decide (-4 < point) && decide (point ≤ 16)) = true := by simp; omega
    simp [Binary64.layout, hrange, hcount, Numeral.chars, Numeral.fraction, Numeral.power,
      Int.not_le.mpr hlow]
  · simp
  · have hzeros : decimalValue (ds ++ List.replicate (point - ds.length).toNat '0' ++ ['0']) =
        decimalValue ds * 10 ^ ((point - ds.length).toNat + 1) := by
      rw [List.append_assoc, ← List.replicate_succ', decimalValue_append_zeros]
    simp only [Numeral.value, Numeral.exponentValue, hzeros, Binary64.ofDecimal_mul_pow,
      List.length_singleton]
    congr 1
    push_cast
    omega

/-- The point between two digits. -/
theorem isLaidOut_inside (h : IsSignificant ds) (hlow : 0 < point) (hhigh : point ≤ 16)
    (hcount : point < ds.length) :
    IsLaidOut ds point ⟨ds.take point.toNat, ds.drop point.toNat, none⟩ := by
  have hdigits := h.digits
  rw [← List.take_append_drop point.toNat ds, List.all_append] at hdigits
  obtain ⟨hfront, hback⟩ := Bool.and_eq_true_iff.mp hdigits
  have hne : ds.drop point.toNat ≠ [] := by
    rw [Ne, List.drop_eq_nil_iff]
    omega
  refine ⟨h.isProper ?_ hfront ?_ hback nofun, ?_, fun hboth => hne hboth.1, fun negative => ?_⟩
  · rw [Ne, List.take_eq_nil_iff]
    rintro (hzero | hnil)
    · omega
    · exact h.ne hnil
  · rw [List.head?_take, if_neg (by omega)]
  · have hrange : (decide (-4 < point) && decide (point ≤ 16)) = true := by simp; omega
    simp [Binary64.layout, hrange, Int.not_le.mpr hlow, Int.not_le.mpr hcount, Numeral.chars,
      Numeral.fraction, Numeral.power, hne]
  · simp only [Numeral.value, Numeral.exponentValue, List.take_append_drop, List.length_drop]
    congr 1
    omega

/-- The digits of an exponent, at least two of them. -/
def exponentDigits (e : Int) : List Char :=
  let size := Nat.toDigits 10 e.natAbs
  List.replicate (2 - size.length) '0' ++ size

theorem exponentDigits_spec (e : Int) :
    exponentDigits e ≠ [] ∧ (exponentDigits e).all isDigit = true ∧
      decimalValue (exponentDigits e) = e.natAbs := by
  refine ⟨by simp [exponentDigits], ?_, ?_⟩
  · rw [exponentDigits, List.all_append, all_replicate_zero, all_isDigit_toDigits]
    rfl
  · rw [exponentDigits, decimalValue_zeros, decimalValue_toDigits]

/-- One digit before the point, and an exponent. -/
theorem isLaidOut_power (h : IsSignificant ds) (hrange : ¬(-4 < point ∧ point ≤ 16)) :
    IsLaidOut ds point
      ⟨ds.take 1, ds.drop 1, some (decide (point - 1 < 0), exponentDigits (point - 1))⟩ := by
  obtain ⟨hne, hall, hvalue⟩ := exponentDigits_spec (point - 1)
  have hdigits := h.digits
  rw [← List.take_append_drop 1 ds, List.all_append] at hdigits
  obtain ⟨hfront, hback⟩ := Bool.and_eq_true_iff.mp hdigits
  have hlength : 0 < ds.length := List.length_pos_iff.mpr h.ne
  refine ⟨h.isProper ?_ hfront ?_ hback ?_, ?_, by simp, fun negative => ?_⟩
  · simp [h.ne]
  · rw [List.head?_take, if_neg (by decide)]
  · rintro negative digits heq
    obtain ⟨-, rfl⟩ := Prod.mk.inj (Option.some.inj heq)
    exact ⟨hne, hall⟩
  · have hout : (decide (-4 < point) && decide (point ≤ 16)) = false := by
      rw [Bool.and_eq_false_iff, decide_eq_false_iff_not, decide_eq_false_iff_not]
      omega
    have hone : ds.tail = [] ↔ ds.length = 1 := by
      rw [← List.length_eq_zero_iff, List.length_tail]
      omega
    simp [Binary64.layout, hout, Numeral.chars, Numeral.fraction, Numeral.power, hone,
      exponentDigits]
  · have hexponent : Numeral.exponentValue
        ⟨ds.take 1, ds.drop 1, some (decide (point - 1 < 0), exponentDigits (point - 1))⟩ =
          point - 1 := by
      simp only [Numeral.exponentValue, hvalue, decide_eq_true_eq]
      split <;> omega
    simp only [Numeral.value, hexponent, List.take_append_drop, List.length_drop]
    congr 1
    omega

theorem exists_isLaidOut (h : IsSignificant ds) (point : Int) :
    ∃ number, IsLaidOut ds point number := by
  by_cases hrange : -4 < point ∧ point ≤ 16
  · by_cases hlow : point ≤ 0
    · exact ⟨_, isLaidOut_below h hrange.1 hlow⟩
    · by_cases hcount : (ds.length : Int) ≤ point
      · exact ⟨_, isLaidOut_above h (by omega) hrange.2 hcount⟩
      · exact ⟨_, isLaidOut_inside h (by omega) hrange.2 (by omega)⟩
  · exact ⟨_, isLaidOut_power h hrange⟩

/-! ## Numbers -/

/-- What begins a written number that is no numeral. -/
theorem readScalar_special {word : List Char} {x : Binary64} (hne : word ≠ [])
    (hhead : Stops (fun c => isDigit c || beginsWord c) (word ++ rest))
    (hread : readNumber (word ++ rest) = .ok (.float x, rest)) :
    readScalar (word ++ rest) = .ok (.float x, rest) := by
  obtain ⟨c, cs, rfl⟩ := List.exists_cons_of_ne_nil hne
  obtain ⟨hdigit, hword⟩ := Bool.or_eq_false_iff.mp (stops_cons.mp hhead)
  rw [List.cons_append] at hread ⊢
  rw [readScalar_of_number hword (not_beginsMoment_cons hdigit _), hread]

/-- A finite number in range is written as a numeral that is no integer. -/
theorem exists_numeral {negative : Bool} {significand : Nat} {exponent : Int}
    (h : (Binary64.finite negative significand exponent).IsCanonical) :
    ∃ number : Numeral, number.IsProper ∧
      Binary64.chars (.finite negative significand exponent) =
        Numeral.signChars negative ++ number.chars ∧
      ¬(number.places = [] ∧ number.exponent = none) ∧
      number.value negative = .finite negative significand exponent := by
  have hunsigned : Binary64.IsCanonical (.finite false significand exponent) := h
  rcases Nat.eq_zero_or_pos significand with rfl | hpos
  · obtain ⟨-, -, -, hleast⟩ := h
    obtain rfl := hleast.resolve_left (by decide)
    refine ⟨⟨['0'], ['0'], none⟩, ⟨by simp, rfl, fun _ => rfl, rfl, nofun⟩, rfl, by simp, ?_⟩
    simp [Numeral.value, decimalValue, Binary64.ofDecimal, Binary64.zero]
  · have hread := Binary64.ofDecimal_shortest hunsigned hpos
    obtain ⟨hsignificant, hvalue⟩ := digitsAndPoint_spec
      (Binary64.shortest_pos hunsigned hpos) (Binary64.shortest significand exponent).2
    obtain ⟨number, hproper, hchars, hfloat, hnumber⟩ := exists_isLaidOut hsignificant
      (Binary64.digitsAndPoint (Binary64.shortest significand exponent).1
        (Binary64.shortest significand exponent).2).2
    refine ⟨number, hproper, ?_, hfloat, ?_⟩
    · simp only [Binary64.chars, Nat.pos_iff_ne_zero.mp hpos, ↓reduceIte, hchars]
      rfl
    · rw [hnumber, hvalue, Binary64.ofDecimal_signed, hread]
      rfl

/-- A number in range is read back as itself. -/
theorem readScalar_chars {x : Binary64} (h : x.IsCanonical) (hrest : EndsValue rest) :
    readScalar (x.chars ++ rest) = .ok (.float x, rest) := by
  cases x with
  | nan => exact readScalar_special (by simp [Binary64.chars]) (stops_cons.mpr (by decide)) rfl
  | infinity negative =>
    cases negative
    · exact readScalar_special (by simp [Binary64.chars]) (stops_cons.mpr (by decide)) rfl
    · exact readScalar_special (by simp [Binary64.chars]) (stops_cons.mpr (by decide)) rfl
  | finite negative significand exponent =>
    obtain ⟨number, hproper, hchars, hfloat, hvalue⟩ := exists_numeral h
    rw [hchars, List.append_assoc, readScalar_numeral hproper hrest, if_neg hfloat, hvalue]

end BuildHook.Toml
