import BuildHook.Decimal.Binary64
import Mathlib.Algebra.Order.Field.Power
import Mathlib.Algebra.Order.Field.Rat
import Mathlib.Tactic.Linarith
import Mathlib.Tactic.Positivity
import Mathlib.Tactic.Ring

/-!
# Rounding to binary numbers

What a quotient is rounded to depends on its value alone, and a number that is in range is what its
own value is rounded to. Both are shown through the exponent that the rounding chooses, the only one
whose power of two and twice that power enclose the quotient.
-/

namespace BuildHook

/-! ## The nearest whole number -/

section RoundHalfEven

variable {num den k : Nat}

theorem roundHalfEven_cases (num den : Nat) :
    roundHalfEven num den = num / den ∨ roundHalfEven num den = num / den + 1 := by
  unfold roundHalfEven
  dsimp only
  split
  · exact .inl rfl
  · split
    · exact .inr rfl
    · rcases Nat.mod_two_eq_zero_or_one (num / den) with h | h <;> rw [h]
      · exact .inl rfl
      · exact .inr rfl

theorem roundHalfEven_mul {c : Nat} (hc : 0 < c) (num den : Nat) :
    roundHalfEven (c * num) (c * den) = roundHalfEven num den := by
  have hlow : 2 * (c * (num % den)) < c * den ↔ 2 * (num % den) < den := by
    rw [Nat.mul_left_comm, Nat.mul_lt_mul_left hc]
  have hhigh : c * den < 2 * (c * (num % den)) ↔ den < 2 * (num % den) := by
    rw [Nat.mul_left_comm, Nat.mul_lt_mul_left hc]
  simp only [roundHalfEven, Nat.mul_div_mul_left _ _ hc, Nat.mul_mod_mul_left, hlow, hhigh]

theorem roundHalfEven_mul_self (hden : 0 < den) (k : Nat) : roundHalfEven (k * den) den = k := by
  simp [roundHalfEven, Nat.mul_div_cancel k hden, hden]

theorem le_roundHalfEven (hden : 0 < den) (h : k * den ≤ num) : k ≤ roundHalfEven num den := by
  have hdiv : k ≤ num / den := (Nat.le_div_iff_mul_le hden).mpr h
  rcases roundHalfEven_cases num den with hround | hround <;> omega

theorem roundHalfEven_le (hden : 0 < den) (h : num ≤ k * den) : roundHalfEven num den ≤ k := by
  rcases h.lt_or_eq with h | rfl
  · have hdiv : num / den < k := (Nat.div_lt_iff_lt_mul hden).mpr h
    rcases roundHalfEven_cases num den with hround | hround <;> omega
  · exact (roundHalfEven_mul_self hden k).le

end RoundHalfEven

namespace Binary64

variable {num den : Nat} {e : Int}

/-! ## The exponent -/

theorem twoTo_cast (n : Nat) : (twoTo n : ℚ) = 2 ^ n := by
  change ((2 ^ n : Nat) : ℚ) = 2 ^ n
  push_cast
  rfl

/-- The two parts of a scaled quotient are those of the quotient itself, the lower one taken
`2 ^ e` times, up to a common factor. -/
theorem scale_eq (num den : Nat) (e : Int) :
    ∃ c : ℚ, 0 < c ∧ ((scale num den e).1 : ℚ) = num * c ∧
      ((scale num den e).2 : ℚ) = 2 ^ e * den * c := by
  unfold scale
  split
  · next h =>
    have hpower : (2 : ℚ) ^ e = 2 ^ e.toNat := by
      rw [← zpow_natCast, Int.toNat_of_nonneg h]
    refine ⟨1, one_pos, by simp, ?_⟩
    rw [hpower]
    push_cast [twoTo_cast]
    ring
  · next h =>
    have hpower : (2 : ℚ) ^ e * 2 ^ (-e).toNat = 1 := by
      rw [← zpow_natCast, Int.toNat_of_nonneg (by omega), ← zpow_add₀ two_ne_zero, add_neg_cancel,
        zpow_zero]
    refine ⟨2 ^ (-e).toNat, by positivity, by push_cast [twoTo_cast]; ring, ?_⟩
    rw [mul_right_comm, hpower, one_mul]

theorem scale_pos (hden : 0 < den) (num : Nat) (e : Int) : 0 < (scale num den e).2 := by
  obtain ⟨c, hc, -, hlower⟩ := scale_eq num den e
  have hpos : (0 : ℚ) < (scale num den e).2 := by
    rw [hlower]
    positivity
  exact_mod_cast hpos

theorem mul_scale_le_iff (k num den : Nat) (e : Int) :
    k * (scale num den e).2 ≤ (scale num den e).1 ↔ (k : ℚ) * 2 ^ e * den ≤ num := by
  obtain ⟨c, hc, hupper, hlower⟩ := scale_eq num den e
  have hmul : (k : ℚ) * (2 ^ e * den * c) = k * 2 ^ e * den * c := by ring
  rw [← @Nat.cast_le ℚ, Nat.cast_mul, hupper, hlower, hmul, mul_le_mul_iff_left₀ hc]

theorem scale_le_mul_iff (k num den : Nat) (e : Int) :
    (scale num den e).1 ≤ k * (scale num den e).2 ↔ (num : ℚ) ≤ k * 2 ^ e * den := by
  obtain ⟨c, hc, hupper, hlower⟩ := scale_eq num den e
  have hmul : (k : ℚ) * (2 ^ e * den * c) = k * 2 ^ e * den * c := by ring
  rw [← @Nat.cast_le ℚ, Nat.cast_mul, hupper, hlower, hmul, mul_le_mul_iff_left₀ hc]

theorem zpow_two_le {a b : Int} (h : a ≤ b) : (2 : ℚ) ^ a ≤ 2 ^ b :=
  zpow_le_zpow_right₀ one_le_two h

theorem log2_cast {n : Nat} (h : 0 < n) :
    (2 : ℚ) ^ (n.log2 : Int) ≤ n ∧ (n : ℚ) < 2 ^ ((n.log2 : Int) + 1) := by
  have hlow : 2 ^ n.log2 ≤ n := Nat.log2_self_le (Nat.pos_iff_ne_zero.mp h)
  have hhigh : n < 2 ^ (n.log2 + 1) := Nat.lt_log2_self
  rw [show ((n.log2 : Int) + 1) = ((n.log2 + 1 : Nat) : Int) from rfl, zpow_natCast, zpow_natCast]
  exact ⟨by exact_mod_cast hlow, by exact_mod_cast hhigh⟩

/-- The power of two of a quotient's exponent is at most the quotient, and the next one is above. -/
theorem floorLog2_spec (hnum : 0 < num) (hden : 0 < den) :
    (2 : ℚ) ^ floorLog2 num den * den ≤ num ∧ (num : ℚ) < 2 ^ (floorLog2 num den + 1) * den := by
  obtain ⟨hnumLow, hnumHigh⟩ := log2_cast hnum
  obtain ⟨hdenLow, hdenHigh⟩ := log2_cast hden
  have hiff := mul_scale_le_iff 1 num den (num.log2 - den.log2)
  rw [one_mul, Nat.cast_one, one_mul] at hiff
  unfold floorLog2
  dsimp only
  split
  · next h =>
    refine ⟨hiff.mp h, hnumHigh.trans_le ?_⟩
    calc (2 : ℚ) ^ ((num.log2 : Int) + 1)
        = 2 ^ ((num.log2 : Int) - den.log2 + 1) * 2 ^ (den.log2 : Int) := by
          rw [← zpow_add₀ two_ne_zero]
          congr 1
          omega
      _ ≤ 2 ^ ((num.log2 : Int) - den.log2 + 1) * den := by gcongr
  · next h =>
    constructor
    · calc (2 : ℚ) ^ ((num.log2 : Int) - den.log2 - 1) * den
          ≤ 2 ^ ((num.log2 : Int) - den.log2 - 1) * 2 ^ ((den.log2 : Int) + 1) := by gcongr
        _ = 2 ^ (num.log2 : Int) := by
          rw [← zpow_add₀ two_ne_zero]
          congr 1
          omega
        _ ≤ num := hnumLow
    · rw [sub_add_cancel]
      exact lt_of_not_ge fun hle => h (hiff.mpr hle)

/-- No other exponent has this property. -/
theorem floorLog2_eq (hnum : 0 < num) (hden : 0 < den) (hlow : (2 : ℚ) ^ e * den ≤ num)
    (hhigh : (num : ℚ) < 2 ^ (e + 1) * den) : floorLog2 num den = e := by
  obtain ⟨hspecLow, hspecHigh⟩ := floorLog2_spec hnum hden
  have hpos : (0 : ℚ) < den := by exact_mod_cast hden
  by_contra hne
  rcases lt_or_gt_of_ne hne with hlt | hgt
  · have hpower : (2 : ℚ) ^ (floorLog2 num den + 1) * den ≤ 2 ^ e * den :=
      mul_le_mul_of_nonneg_right (zpow_two_le hlt) hpos.le
    linarith
  · have hpower : (2 : ℚ) ^ (e + 1) * den ≤ 2 ^ floorLog2 num den * den :=
      mul_le_mul_of_nonneg_right (zpow_two_le hgt) hpos.le
    linarith

theorem floorLog2_mul {c : Nat} (hc : 0 < c) (hnum : 0 < num) (hden : 0 < den) :
    floorLog2 (c * num) (c * den) = floorLog2 num den := by
  obtain ⟨hlow, hhigh⟩ := floorLog2_spec hnum hden
  have hpos : (0 : ℚ) < c := by exact_mod_cast hc
  apply floorLog2_eq (Nat.mul_pos hc hnum) (Nat.mul_pos hc hden)
  · push_cast
    rw [mul_left_comm]
    exact mul_le_mul_of_nonneg_left hlow hpos.le
  · push_cast
    rw [mul_left_comm]
    exact mul_lt_mul_of_pos_left hhigh hpos

/-! ## Numbers in range -/

/-- Whether a number is in range. A finite one has a full significand, unless its exponent is the
least. -/
def IsCanonical : Binary64 → Prop
  | .finite _ significand exponent =>
    significand < 2 ^ 53 ∧ leastExponent ≤ exponent ∧ exponent ≤ greatestExponent ∧
      (2 ^ 52 ≤ significand ∨ exponent = leastExponent)
  | _ => True

theorem isCanonical_zero (negative : Bool) : (zero negative).IsCanonical := by
  simp [zero, IsCanonical, leastExponent, greatestExponent]

/-- The exponent that a quotient is rounded at. -/
def gridExponent (num den : Nat) : Int :=
  max leastExponent (floorLog2 num den - 52)

/-- The significand that a quotient is rounded to, before one that is too long is halved. -/
def gridRound (num den : Nat) : Nat :=
  let parts := scale num den (gridExponent num den)
  roundHalfEven parts.1 parts.2

theorem ofRatio_eq (negative : Bool) (num den : Nat) :
    ofRatio negative num den =
      if num = 0 then zero negative
      else if gridRound num den = 2 ^ 53 then
        if greatestExponent < gridExponent num den + 1 then .infinity negative
        else .finite negative (2 ^ 52) (gridExponent num den + 1)
      else if greatestExponent < gridExponent num den then .infinity negative
      else .finite negative (gridRound num den) (gridExponent num den) := by
  by_cases hnum : num = 0
  · simp only [ofRatio, hnum, ↓reduceIte]
  · by_cases hround : gridRound num den = 2 ^ 53
    · simp only [ofRatio, hnum, ↓reduceIte, hround]
      simp only [gridRound, gridExponent] at hround ⊢
      rw [hround]
      rfl
    · simp only [ofRatio, hnum, ↓reduceIte, hround]
      have hne : roundHalfEven (scale num den (max leastExponent (floorLog2 num den - 52))).1
          (scale num den (max leastExponent (floorLog2 num den - 52))).2 ≠ twoTo 53 := hround
      simp only [hne, ↓reduceIte]
      rfl

/-- The significand is full unless the exponent is the least, and it is never too long by more than
one bit. -/
theorem gridRound_bounds (hnum : 0 < num) (hden : 0 < den) :
    gridRound num den ≤ 2 ^ 53 ∧
      (2 ^ 52 ≤ gridRound num den ∨ gridExponent num den = leastExponent) := by
  obtain ⟨hlow, hhigh⟩ := floorLog2_spec hnum hden
  have hpos := scale_pos hden num (gridExponent num den)
  have hgrid : floorLog2 num den - 52 ≤ gridExponent num den := le_max_right _ _
  constructor
  · refine roundHalfEven_le hpos ((scale_le_mul_iff _ _ _ _).mpr (hhigh.le.trans ?_))
    calc (2 : ℚ) ^ (floorLog2 num den + 1) * den
        ≤ 2 ^ ((53 : Nat) + gridExponent num den) * den :=
          mul_le_mul_of_nonneg_right (zpow_two_le (by omega)) (Nat.cast_nonneg den)
      _ = (2 ^ 53 : Nat) * 2 ^ gridExponent num den * den := by
          rw [zpow_add₀ two_ne_zero, zpow_natCast, Nat.cast_pow, Nat.cast_ofNat]
  · rcases max_choice leastExponent (floorLog2 num den - 52) with hmax | hmax
    · exact .inr hmax
    · refine .inl (le_roundHalfEven hpos ((mul_scale_le_iff _ _ _ _).mpr (le_trans ?_ hlow)))
      have hexp : gridExponent num den = floorLog2 num den - 52 := hmax
      rw [hexp, Nat.cast_pow, Nat.cast_ofNat, ← zpow_natCast, ← zpow_add₀ two_ne_zero]
      apply le_of_eq
      congr 2
      omega

/-- Rounding gives numbers in range. -/
theorem isCanonical_ofRatio (hden : 0 < den) (negative : Bool) (num : Nat) :
    (ofRatio negative num den).IsCanonical := by
  rw [ofRatio_eq]
  by_cases hnum : num = 0
  · rw [if_pos hnum]
    exact isCanonical_zero negative
  rw [if_neg hnum]
  have hleast : leastExponent ≤ gridExponent num den := le_max_left _ _
  obtain ⟨hle, hfull⟩ := gridRound_bounds (Nat.pos_of_ne_zero hnum) hden
  split
  · split
    · trivial
    · exact ⟨by decide, by omega, by omega, .inl le_rfl⟩
  · next hround =>
    split
    · trivial
    · exact ⟨lt_of_le_of_ne hle hround, hleast, by omega, hfull⟩

/-- Rounding a quotient that has been expanded gives the same number. -/
theorem ofRatio_mul {c : Nat} (hc : 0 < c) (hden : 0 < den) (negative : Bool) (num : Nat) :
    ofRatio negative (c * num) (c * den) = ofRatio negative num den := by
  by_cases hnum : num = 0
  · simp only [ofRatio, hnum, Nat.mul_zero, ↓reduceIte]
  have hscale (e : Int) : scale (c * num) (c * den) e =
      (c * (scale num den e).1, c * (scale num den e).2) := by
    unfold scale
    split <;> simp only [Nat.mul_assoc]
  have hexp : gridExponent (c * num) (c * den) = gridExponent num den := by
    rw [gridExponent, gridExponent, floorLog2_mul hc (Nat.pos_of_ne_zero hnum) hden]
  have hround : gridRound (c * num) (c * den) = gridRound num den := by
    simp only [gridRound, hexp, hscale, roundHalfEven_mul hc]
  have hmul : ¬ c * num = 0 := Nat.mul_ne_zero (Nat.pos_iff_ne_zero.mp hc) hnum
  rw [ofRatio_eq, ofRatio_eq, if_neg hmul, if_neg hnum, hexp, hround]

/-- What a quotient is rounded to depends on its value alone. -/
theorem ofRatio_congr {num' den' : Nat} (hden : 0 < den) (hden' : 0 < den')
    (h : num * den' = num' * den) (negative : Bool) :
    ofRatio negative num den = ofRatio negative num' den' := by
  rw [← ofRatio_mul hden' hden, ← ofRatio_mul hden hden', Nat.mul_comm den', h,
    Nat.mul_comm num', Nat.mul_comm den']

theorem ratio_cast (significand : Nat) (exponent : Int) :
    ((ratio significand exponent).1 : ℚ) =
      significand * 2 ^ exponent * (ratio significand exponent).2 := by
  unfold ratio
  split
  · next h =>
    have hpower : (2 : ℚ) ^ exponent = 2 ^ exponent.toNat := by
      rw [← zpow_natCast, Int.toNat_of_nonneg h]
    rw [hpower]
    push_cast [twoTo_cast]
    ring
  · next h =>
    have hpower : (2 : ℚ) ^ exponent * 2 ^ (-exponent).toNat = 1 := by
      rw [← zpow_natCast, Int.toNat_of_nonneg (by omega), ← zpow_add₀ two_ne_zero, add_neg_cancel,
        zpow_zero]
    rw [twoTo_cast, mul_assoc, hpower, mul_one]

theorem ratio_pos (significand : Nat) (exponent : Int) : 0 < (ratio significand exponent).2 := by
  unfold ratio
  split
  · exact one_pos
  · exact Nat.pow_pos two_pos

variable {significand : Nat} {exponent : Int}

theorem floorLog2_of_cast (hnum : 0 < num) (hden : 0 < den) (hpos : 0 < significand)
    (hcast : (num : ℚ) = significand * 2 ^ exponent * den) :
    floorLog2 num den = significand.log2 + exponent := by
  obtain ⟨hlow, hhigh⟩ := log2_cast hpos
  have hdenCast : (0 : ℚ) < den := by exact_mod_cast hden
  apply floorLog2_eq hnum hden
  · rw [hcast, zpow_add₀ two_ne_zero]
    gcongr
  · rw [hcast, show (significand.log2 : Int) + exponent + 1 =
      (significand.log2 + 1) + exponent by ring, zpow_add₀ two_ne_zero]
    gcongr

theorem gridExponent_of_cast (hnum : 0 < num) (hden : 0 < den) (hpos : 0 < significand)
    (hcast : (num : ℚ) = significand * 2 ^ exponent * den) (hlt : significand < 2 ^ 53)
    (hleast : leastExponent ≤ exponent)
    (hfull : 2 ^ 52 ≤ significand ∨ exponent = leastExponent) :
    gridExponent num den = exponent := by
  have hlog : significand.log2 < 53 := (Nat.log2_lt (Nat.pos_iff_ne_zero.mp hpos)).mpr hlt
  rw [gridExponent, floorLog2_of_cast hnum hden hpos hcast]
  rcases hfull with hfull | rfl
  · have hlog' : 52 ≤ significand.log2 := (Nat.le_log2 (Nat.pos_iff_ne_zero.mp hpos)).mpr hfull
    omega
  · omega

theorem scale_of_cast (hcast : (num : ℚ) = significand * 2 ^ exponent * den) :
    (scale num den exponent).1 = significand * (scale num den exponent).2 := by
  obtain ⟨c, hc, hupper, hlower⟩ := scale_eq num den exponent
  have hparts : ((scale num den exponent).1 : ℚ) =
      significand * (scale num den exponent).2 := by
    rw [hupper, hlower, hcast]
    ring
  exact_mod_cast hparts

/-- A number in range is what its value is rounded to. -/
theorem ofRatio_ratio (negative : Bool)
    (h : IsCanonical (.finite negative significand exponent)) :
    ofRatio negative (ratio significand exponent).1 (ratio significand exponent).2 =
      .finite negative significand exponent := by
  obtain ⟨hlt, hleast, hgreatest, hfull⟩ := h
  have hcast := ratio_cast significand exponent
  have hden := ratio_pos significand exponent
  generalize ratio significand exponent = parts at hcast hden
  obtain ⟨num, den⟩ := parts
  dsimp only at hcast hden ⊢
  rcases Nat.eq_zero_or_pos significand with rfl | hpos
  · have hzero : num = 0 := by
      rw [Nat.cast_zero, zero_mul, zero_mul] at hcast
      exact_mod_cast hcast
    obtain rfl : exponent = leastExponent := hfull.resolve_left (by decide)
    rw [ofRatio_eq, if_pos hzero]
    rfl
  have hnum : 0 < num := by
    have hdenCast : (0 : ℚ) < den := by exact_mod_cast hden
    have hcastPos : (0 : ℚ) < num := by
      rw [hcast]
      positivity
    exact_mod_cast hcastPos
  have hexp : gridExponent num den = exponent :=
    gridExponent_of_cast hnum hden hpos hcast hlt hleast hfull
  have hround : gridRound num den = significand := by
    rw [gridRound, hexp, scale_of_cast hcast]
    exact roundHalfEven_mul_self (scale_pos hden num exponent) significand
  rw [ofRatio_eq, if_neg (Nat.pos_iff_ne_zero.mp hnum), hround, hexp, if_neg (Nat.ne_of_lt hlt),
    if_neg (by omega)]

end Binary64

end BuildHook
