import BuildHook.Decimal.Shortest
import BuildHook.Proofs.Decimal.Rounding
import Mathlib.Tactic.NormNum

/-!
# Decimal numbers read back

The number nearest to a decimal depends on its value alone, so zeros may be moved between its digits
and its exponent. The shortest digits of a number in range read back as that number: most are chosen
by that very test, and where none passes it all digits are written.
-/

namespace BuildHook

/-! ## Counting digits -/

section DigitCount

variable {n k : Nat}

theorem digitCount_le_iff (hk : 0 < k) : digitCount n ≤ k ↔ n < 10 ^ k :=
  Nat.length_toDigits_le_iff (by decide) hk

theorem toDigits_mul_pow (hn : 0 < n) (k : Nat) :
    Nat.toDigits 10 (n * 10 ^ k) = Nat.toDigits 10 n ++ List.replicate k '0' := by
  induction k with
  | zero => simp
  | succ k ih =>
    have hpos : 0 < n * 10 ^ k := Nat.mul_pos hn (Nat.pow_pos (by decide))
    have hstep := Nat.toDigits_append_toDigits (by decide : 1 < 10) hpos (by decide : 0 < 10)
    rw [Nat.toDigits_zero, ih, List.append_assoc, ← List.replicate_succ'] at hstep
    rw [hstep, Nat.pow_succ, Nat.add_zero, Nat.mul_comm (10 ^ k), Nat.mul_left_comm]

theorem digitCount_mul_pow (hn : 0 < n) (k : Nat) : digitCount (n * 10 ^ k) = digitCount n + k := by
  rw [digitCount, toDigits_mul_pow hn, List.length_append, List.length_replicate]
  rfl

end DigitCount

namespace Binary64

variable {digits : Nat} {exponent : Int}

/-! ## Decimals of one value -/

/-- A decimal as a quotient. -/
def decimalRatio (digits : Nat) (exponent : Int) : Nat × Nat :=
  if 0 ≤ exponent then (digits * tenTo exponent.toNat, 1) else (digits, tenTo (-exponent).toNat)

theorem decimalRatio_pos (digits : Nat) (exponent : Int) :
    0 < (decimalRatio digits exponent).2 := by
  unfold decimalRatio
  split
  · exact one_pos
  · exact Nat.pow_pos (by decide)

theorem tenTo_cast (n : Nat) : (tenTo n : ℚ) = 10 ^ n := by
  change ((10 ^ n : Nat) : ℚ) = 10 ^ n
  push_cast
  rfl

theorem decimalRatio_cast (digits : Nat) (exponent : Int) :
    ((decimalRatio digits exponent).1 : ℚ) =
      digits * 10 ^ exponent * (decimalRatio digits exponent).2 := by
  have hten : (10 : ℚ) ≠ 0 := by norm_num
  unfold decimalRatio
  split
  · next h =>
    have hpower : (10 : ℚ) ^ exponent = 10 ^ exponent.toNat := by
      rw [← zpow_natCast, Int.toNat_of_nonneg h]
    rw [hpower]
    push_cast [tenTo_cast]
    ring
  · next h =>
    have hpower : (10 : ℚ) ^ exponent * 10 ^ (-exponent).toNat = 1 := by
      rw [← zpow_natCast, Int.toNat_of_nonneg (by omega), ← zpow_add₀ hten, add_neg_cancel,
        zpow_zero]
    rw [tenTo_cast, mul_assoc, hpower, mul_one]

theorem ofDecimal_eq (negative : Bool) (digits : Nat) (exponent : Int) :
    ofDecimal negative digits exponent =
      if digits = 0 ∨ (digitCount digits : Int) + exponent < -330 then zero negative
      else if 310 < (digitCount digits : Int) + exponent then .infinity negative
      else ofRatio negative (decimalRatio digits exponent).1 (decimalRatio digits exponent).2 := by
  simp only [ofDecimal, decimalRatio, Bool.or_eq_true, decide_eq_true_eq]
  by_cases h : 0 ≤ exponent <;> simp only [h, ↓reduceIte]

/-- Zeros at the end of the digits count as much as a greater exponent. -/
theorem ofDecimal_mul_pow (negative : Bool) (digits k : Nat) (exponent : Int) :
    ofDecimal negative (digits * 10 ^ k) exponent = ofDecimal negative digits (exponent + k) := by
  rcases Nat.eq_zero_or_pos digits with rfl | hpos
  · simp [ofDecimal]
  have hzero : digits * 10 ^ k = 0 ↔ digits = 0 := by simp
  have hsize : ((digits * 10 ^ k |> digitCount : Nat) : Int) + exponent =
      digitCount digits + (exponent + k) := by
    rw [digitCount_mul_pow hpos]
    push_cast
    ring
  have hratio : ofRatio negative (decimalRatio (digits * 10 ^ k) exponent).1
      (decimalRatio (digits * 10 ^ k) exponent).2 =
        ofRatio negative (decimalRatio digits (exponent + k)).1
          (decimalRatio digits (exponent + k)).2 := by
    apply ofRatio_congr (decimalRatio_pos _ _) (decimalRatio_pos _ _)
    have hcast := decimalRatio_cast (digits * 10 ^ k) exponent
    have hcast' := decimalRatio_cast digits (exponent + k)
    have hten : (10 : ℚ) ≠ 0 := by norm_num
    rw [zpow_add₀ hten, zpow_natCast] at hcast'
    have heq : ((decimalRatio (digits * 10 ^ k) exponent).1 : ℚ) *
        (decimalRatio digits (exponent + k)).2 =
          (decimalRatio digits (exponent + k)).1 * (decimalRatio (digits * 10 ^ k) exponent).2 := by
      rw [hcast, hcast']
      push_cast
      ring
    exact_mod_cast heq
  simp only [ofDecimal_eq, hzero, hsize, hratio]

theorem isCanonical_ofDecimal (negative : Bool) (digits : Nat) (exponent : Int) :
    (ofDecimal negative digits exponent).IsCanonical := by
  rw [ofDecimal_eq]
  split
  · exact isCanonical_zero negative
  · split
    · trivial
    · exact isCanonical_ofRatio (decimalRatio_pos _ _) negative _

/-! ## Signs -/

/-- The number with the given sign and the size of another. -/
def signed (negative : Bool) : Binary64 → Binary64
  | .nan => .nan
  | .infinity _ => .infinity negative
  | .finite _ significand exponent => .finite negative significand exponent

theorem ofRatio_signed (negative : Bool) (num den : Nat) :
    ofRatio negative num den = signed negative (ofRatio false num den) := by
  simp only [ofRatio_eq, apply_ite (signed negative)]
  rfl

theorem ofDecimal_signed (negative : Bool) (digits : Nat) (exponent : Int) :
    ofDecimal negative digits exponent = signed negative (ofDecimal false digits exponent) := by
  simp only [ofDecimal_eq, apply_ite (signed negative), ← ofRatio_signed]
  rfl

/-! ## The shortest digits -/

variable {significand : Nat}

theorem digitCount_mul_two_pow {k : Nat} (hlt : significand < 2 ^ 53) (hk : k ≤ 971) :
    digitCount (significand * 2 ^ k) ≤ 310 := by
  refine (digitCount_le_iff (by decide)).mpr ?_
  calc significand * 2 ^ k < 2 ^ 53 * 2 ^ k := Nat.mul_lt_mul_of_pos_right hlt (Nat.two_pow_pos k)
    _ ≤ 2 ^ 53 * 2 ^ 971 := Nat.mul_le_mul_left _ (Nat.pow_le_pow_right (by decide) hk)
    _ < 10 ^ 310 := by decide +kernel

theorem five_pow_mul_two_pow (k : Nat) : 5 ^ k * 2 ^ k = 10 ^ k := by
  rw [← Nat.mul_pow]

theorem digitCount_mul_five_pow {k : Nat} (hlt : significand < 2 ^ 53) :
    digitCount (significand * 5 ^ k) ≤ 310 + k := by
  refine (digitCount_le_iff (by omega)).mpr ?_
  rw [Nat.pow_add, ← five_pow_mul_two_pow k]
  calc significand * 5 ^ k ≤ significand * (5 ^ k * 2 ^ k) :=
        Nat.mul_le_mul_left _ (Nat.le_mul_of_pos_right _ (Nat.two_pow_pos k))
    _ < 10 ^ 310 * (5 ^ k * 2 ^ k) :=
        Nat.mul_lt_mul_of_pos_right (hlt.trans (by decide +kernel)) (by positivity)

theorem le_digitCount_mul_five_pow {k : Nat} (hpos : 0 < significand) (hk : k ≤ 1074) :
    k ≤ digitCount (significand * 5 ^ k) + 330 := by
  by_contra hsmall
  have hcount : 0 < digitCount (significand * 5 ^ k) := Nat.length_toDigits_pos
  have hbound : significand * 5 ^ k < 10 ^ (k - 331) := (digitCount_le_iff (by omega)).mp (by omega)
  have hcontra : 10 ^ k < 10 ^ k := by
    calc 10 ^ k = 1 * 5 ^ k * 2 ^ k := by rw [Nat.one_mul, five_pow_mul_two_pow]
      _ ≤ significand * 5 ^ k * 2 ^ k := by gcongr; exact hpos
      _ < 10 ^ (k - 331) * 2 ^ k := Nat.mul_lt_mul_of_pos_right hbound (Nat.two_pow_pos k)
      _ ≤ 10 ^ (k - 331) * 2 ^ 1074 :=
        Nat.mul_le_mul_left _ (Nat.pow_le_pow_right (by decide) hk)
      _ ≤ 10 ^ (k - 331) * 10 ^ 331 := Nat.mul_le_mul_left _ (by decide +kernel)
      _ = 10 ^ k := by rw [← Nat.pow_add]; congr 1; omega
  exact absurd hcontra (Nat.lt_irrefl _)

/-- All digits of a number in range read back as that number. -/
theorem ofDecimal_exactDecimal (h : IsCanonical (.finite false significand exponent))
    (hpos : 0 < significand) :
    ofDecimal false (exactDecimal significand exponent).1 (exactDecimal significand exponent).2 =
      .finite false significand exponent := by
  have hround := ofRatio_ratio false h
  obtain ⟨hlt, hleast, hgreatest, -⟩ := h
  simp only [leastExponent, greatestExponent] at hleast hgreatest
  unfold exactDecimal ratio at *
  split
  · next hexp =>
    simp only [hexp, ↓reduceIte] at hround ⊢
    change ofDecimal false (significand * 2 ^ exponent.toNat) 0 = _
    have hne : significand * 2 ^ exponent.toNat ≠ 0 := by positivity
    have hhigh := @digitCount_mul_two_pow _ exponent.toNat hlt (by omega)
    rw [ofDecimal_eq, if_neg (by omega), if_neg (by omega), decimalRatio, if_pos le_rfl, ← hround]
    congr 1
    exact Nat.mul_one _
  · next hexp =>
    simp only [hexp, ↓reduceIte] at hround ⊢
    obtain ⟨k, rfl⟩ : ∃ k : Nat, exponent = -k := ⟨(-exponent).toNat, by omega⟩
    have hk : (- -(k : Int)).toNat = k := by omega
    rw [hk] at hround ⊢
    change ofDecimal false (significand * 5 ^ k) (-k) = _
    have hne : significand * 5 ^ k ≠ 0 := by positivity
    have hlow := @le_digitCount_mul_five_pow _ k hpos (by omega)
    have hhigh := @digitCount_mul_five_pow _ k hlt
    rw [ofDecimal_eq, if_neg (by omega), if_neg (by omega), ← hround]
    apply ofRatio_congr (decimalRatio_pos _ _) (Nat.two_pow_pos k)
    rw [decimalRatio, if_neg hexp, hk]
    change significand * 5 ^ k * 2 ^ k = significand * 10 ^ k
    rw [Nat.mul_assoc, five_pow_mul_two_pow]

theorem ofDecimal_onGrid {x : Binary64} {num den m : Nat} {e : Int}
    (h : onGrid x num den e = some m) : ofDecimal false m e = x := by
  unfold onGrid at h
  generalize decimalScale num den e = parts at h
  obtain ⟨n, d⟩ := parts
  dsimp only at h
  split at h
  · next hlow hhigh =>
    obtain rfl := Option.some.inj h
    rcases roundHalfEven_cases n d with hround | hround
    · rw [hround]
      exact of_decide_eq_true hlow
    · rw [hround]
      exact of_decide_eq_true hhigh
  · next hlow _ =>
    obtain rfl := Option.some.inj h
    exact of_decide_eq_true hlow
  · next hhigh =>
    obtain rfl := Option.some.inj h
    exact of_decide_eq_true hhigh
  · cases h

/-- The shortest digits of a number in range read back as that number. -/
theorem ofDecimal_shortest (h : IsCanonical (.finite false significand exponent))
    (hpos : 0 < significand) :
    ofDecimal false (shortest significand exponent).1 (shortest significand exponent).2 =
      .finite false significand exponent := by
  unfold shortest
  generalize ratio significand exponent = parts
  obtain ⟨num, den⟩ := parts
  dsimp only
  generalize hfound : List.findSome? _ _ = found
  cases found with
  | none => exact ofDecimal_exactDecimal h hpos
  | some pair =>
    obtain ⟨n, -, hgrid⟩ := List.exists_of_findSome?_eq_some hfound
    obtain ⟨m, hm, rfl⟩ := Option.map_eq_some_iff.mp hgrid
    exact ofDecimal_onGrid hm

theorem shortest_pos (h : IsCanonical (.finite false significand exponent))
    (hpos : 0 < significand) : 0 < (shortest significand exponent).1 := by
  by_contra hzero
  have hread := ofDecimal_shortest h hpos
  rw [Nat.eq_zero_of_not_pos hzero, ofDecimal_eq, if_pos (.inl rfl)] at hread
  have hsignificand := (Binary64.finite.inj hread).2.1
  omega

end Binary64

end BuildHook
