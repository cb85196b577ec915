import BuildHook.Proofs.Digest.Standard

/-!
# Constants of SHA-512

The round constants and the first chaining value are what the standard says they are: the first bits
of the cube roots of the first eighty primes, and of the square roots of the first eight.
-/

namespace BuildHook.Sha512

open Standard (rootFraction)

/-! ## The first primes -/

def firstPrimes : List Nat :=
  [2, 3, 5, 7, 11, 13, 17, 19, 23, 29, 31, 37, 41, 43, 47, 53, 59, 61, 67, 71, 73, 79, 83, 89, 97,
    101, 103, 107, 109, 113, 127, 131, 137, 139, 149, 151, 157, 163, 167, 173, 179, 181, 191, 193,
    197, 199, 211, 223, 227, 229, 233, 239, 241, 251, 257, 263, 269, 271, 277, 281, 283, 293, 307,
    311, 313, 317, 331, 337, 347, 349, 353, 359, 367, 373, 379, 383, 389, 397, 401, 409]

theorem prime_of_no_factor {n : Nat} (hlt : n < 21 * 21) (htwo : 2 ≤ n)
    (h : ∀ m < 21, 2 ≤ m → m < n → ¬ m ∣ n) : n.Prime := by
  refine Nat.prime_def_le_sqrt.mpr ⟨htwo, fun m hm hle => ?_⟩
  have hsquare : m * m ≤ n := Nat.le_sqrt.mp hle
  have hdouble : 2 * m ≤ m * m := Nat.mul_le_mul_right m hm
  exact h m (Nat.mul_self_lt_mul_self_iff.mp (hsquare.trans_lt hlt)) hm (by omega)

theorem firstPrimes_prime {t : Nat} (h : t < 80) : (firstPrimes.getD t 0).Prime := by
  have hfactors : ∀ t < 80, firstPrimes.getD t 0 < 21 * 21 ∧ 2 ≤ firstPrimes.getD t 0 ∧
      ∀ m < 21, 2 ≤ m → m < firstPrimes.getD t 0 → ¬ m ∣ firstPrimes.getD t 0 := by
    decide +kernel
  obtain ⟨hlt, htwo, hnone⟩ := hfactors t h
  exact prime_of_no_factor hlt htwo hnone

/-- No prime is left out: each number between two of the table has a factor. -/
theorem count_firstPrimes {t : Nat} (h : t < 80) :
    Nat.count Nat.Prime (firstPrimes.getD t 0) = t := by
  have hfactor : ∀ t < 79, ∀ k < firstPrimes.getD (t + 1) 0 - firstPrimes.getD t 0 - 1,
      ∃ m < 21, m ∣ firstPrimes.getD t 0 + (k + 1) ∧ 2 ≤ m ∧
        m < firstPrimes.getD t 0 + (k + 1) := by
    decide +kernel
  have hascends : ∀ t < 79, firstPrimes.getD t 0 < firstPrimes.getD (t + 1) 0 := by
    decide +kernel
  induction t with
  | zero => decide +kernel
  | succ t ih =>
    have hnone : Nat.count (fun k => Nat.Prime (firstPrimes.getD t 0 + (k + 1)))
        (firstPrimes.getD (t + 1) 0 - firstPrimes.getD t 0 - 1) = 0 := by
      refine Nat.count_iff_forall_not.mpr fun k hk => ?_
      obtain ⟨m, -, hdvd, htwo, hlt⟩ := hfactor t (by omega) k hk
      exact Nat.not_prime_of_dvd_of_lt hdvd htwo hlt
    have hlt := hascends t (by omega)
    have hsplit : firstPrimes.getD (t + 1) 0 = firstPrimes.getD t 0 +
        (firstPrimes.getD (t + 1) 0 - firstPrimes.getD t 0 - 1 + 1) := by
      omega
    rw [hsplit, Nat.count_add, ih (by omega), Nat.count_succ', hnone, Nat.zero_add, Nat.add_zero,
      if_pos (firstPrimes_prime (by omega))]

theorem nth_prime_eq {t : Nat} (h : t < 80) : Nat.nth Nat.Prime t = firstPrimes.getD t 0 := by
  have hnth := Nat.nth_count (firstPrimes_prime h)
  rwa [count_firstPrimes h] at hnth

/-! ## Their roots -/

def Words.list (s : Words) : List UInt64 :=
  [s.a, s.b, s.c, s.d, s.e, s.f, s.g, s.h]

/-- A word is the first 64 bits of the fraction of a root if it is between two powers. -/
theorem rootFraction_eq {degree n whole : Nat} {w : UInt64} (hdegree : degree ≠ 0)
    (hlow : (whole * 2 ^ 64 + w.toNat) ^ degree ≤ n * (2 ^ 64) ^ degree)
    (hhigh : n * (2 ^ 64) ^ degree < (whole * 2 ^ 64 + w.toNat + 1) ^ degree) :
    rootFraction degree n = w.toBitVec := by
  have hpos : (0 : ℝ) ≤ (n : ℝ) ^ (1 / degree : ℝ) * 2 ^ 64 := by positivity
  have hpower : ((n : ℝ) ^ (1 / degree : ℝ) * 2 ^ 64) ^ degree = n * (2 ^ 64) ^ degree := by
    rw [mul_pow, one_div, Real.rpow_inv_natCast_pow n.cast_nonneg hdegree]
  have hfloor : ⌊(n : ℝ) ^ (1 / degree : ℝ) * 2 ^ 64⌋₊ = whole * 2 ^ 64 + w.toNat := by
    rw [Nat.floor_eq_iff hpos]
    constructor
    · refine le_of_pow_le_pow_left₀ hdegree hpos ?_
      rw [hpower]
      exact_mod_cast hlow
    · refine lt_of_pow_lt_pow_left₀ degree (by positivity) ?_
      rw [hpower]
      exact_mod_cast hhigh
  rw [rootFraction, hfloor]
  apply BitVec.eq_of_toNat_eq
  rw [BitVec.toNat_ofNat, Nat.mul_add_mod_self_right, UInt64.toNat_toBitVec]
  exact Nat.mod_eq_of_lt w.toNat_lt

theorem constants_eq {t : Nat} (h : t < 80) :
    (constants.getD t 0).toBitVec = Standard.constant t := by
  have hbounds : ∀ t < 80, ∃ whole < 8,
      (whole * 2 ^ 64 + (constants.getD t 0).toNat) ^ 3 ≤ firstPrimes.getD t 0 * (2 ^ 64) ^ 3 ∧
        firstPrimes.getD t 0 * (2 ^ 64) ^ 3 <
          (whole * 2 ^ 64 + (constants.getD t 0).toNat + 1) ^ 3 := by
    decide +kernel
  obtain ⟨whole, -, hlow, hhigh⟩ := hbounds t h
  rw [Standard.constant, nth_prime_eq h, rootFraction_eq three_ne_zero hlow hhigh]

/-- The chaining value as the standard has it. -/
def Words.variables (s : Words) : Standard.Variables :=
  ⟨s.a.toBitVec, s.b.toBitVec, s.c.toBitVec, s.d.toBitVec, s.e.toBitVec, s.f.toBitVec,
    s.g.toBitVec, s.h.toBitVec⟩

theorem variables_initial : initial.variables = Standard.initial := by
  have hbounds : ∀ i < 8, ∃ whole < 8,
      (whole * 2 ^ 64 + (initial.list.getD i 0).toNat) ^ 2 ≤ firstPrimes.getD i 0 * (2 ^ 64) ^ 2 ∧
        firstPrimes.getD i 0 * (2 ^ 64) ^ 2 <
          (whole * 2 ^ 64 + (initial.list.getD i 0).toNat + 1) ^ 2 := by
    decide +kernel
  have hroot : ∀ i < 8,
      rootFraction 2 (Nat.nth Nat.Prime i) = (initial.list.getD i 0).toBitVec := by
    intro i hi
    obtain ⟨whole, -, hlow, hhigh⟩ := hbounds i hi
    rw [nth_prime_eq (by omega), rootFraction_eq two_ne_zero hlow hhigh]
  simp only [Standard.initial, hroot, Nat.reduceLT]
  rfl

end BuildHook.Sha512
