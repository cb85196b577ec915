import BuildHook.Text.Utf8

/-!
# Encoded texts

The encoding of a text decodes to that text. The four lengths of a sequence are taken one by one;
for each, the octets lie in the ranges that the decoder asks for, and their low bits are those of
the character.
-/

namespace BuildHook.Utf8

variable {a b : UInt8} {n : Nat}

theorem isTail_iff : isTail b = true ↔ 0x80 ≤ b.toNat ∧ b.toNat ≤ 0xBF := by
  simp only [isTail, Bool.and_eq_true, decide_eq_true_eq, UInt8.le_iff_toNat_le]
  rfl

theorem isSecond_of_bounds (htail : isTail b = true) (hE0 : a.toNat = 0xE0 → 0xA0 ≤ b.toNat)
    (hED : a.toNat = 0xED → b.toNat ≤ 0x9F) (hF0 : a.toNat = 0xF0 → 0x90 ≤ b.toNat)
    (hF4 : a.toNat = 0xF4 → b.toNat ≤ 0x8F) : isSecond a b = true := by
  obtain ⟨hlow, hhigh⟩ := isTail_iff.mp htail
  unfold isSecond
  simp only [← UInt8.toNat_inj, UInt8.le_iff_toNat_le]
  split
  · next h => simpa using ⟨hE0 h, hhigh⟩
  · split
    · next h => simpa using ⟨hlow, hED h⟩
    · split
      · next h => simpa using ⟨hF0 h, hhigh⟩
      · split
        · next h => simpa using ⟨hlow, hF4 h⟩
        · exact htail

theorem isTail_ofNat (n : Nat) : isTail (UInt8.ofNat (0x80 + n % 64)) = true := by
  rw [isTail_iff, UInt8.toNat_ofNat']
  omega

theorem toNat_bounds (c : Char) : c.toNat < 0xD800 ∨ 0xDFFF < c.toNat ∧ c.toNat < 0x110000 :=
  c.valid

variable {c d : UInt8} {rest : List UInt8} {position : Nat}

theorem decodeFrom_one (ha : a.toNat < 0x80) :
    decodeFrom position (a :: rest) =
      (decodeFrom (position + 1) rest).map (Char.ofNat a.toNat :: ·) := by
  have hone : a < 0x80 := UInt8.lt_iff_toNat_lt.mpr ha
  rw [decodeFrom.eq_def]
  simp only [hone, ↓reduceIte]

theorem not_single (hlow : 0xC2 ≤ a.toNat) (hhigh : a.toNat ≤ 0xF4) :
    ¬ a < 0x80 ∧ (decide (a < 0xC2) || decide (0xF4 < a)) = false := by
  simp only [UInt8.lt_iff_toNat_lt, Bool.or_eq_false_iff, decide_eq_false_iff_not]
  exact ⟨Nat.not_lt.mpr (Nat.le_trans (by decide) hlow), Nat.not_lt.mpr hlow, Nat.not_lt.mpr hhigh⟩

theorem decodeFrom_two (hlow : 0xC2 ≤ a.toNat) (hhigh : a.toNat < 0xE0) (hb : isSecond a b = true) :
    decodeFrom position (a :: b :: rest) =
      (decodeFrom (position + 2) rest).map (assemble 0xC0 a [b] :: ·) := by
  obtain ⟨hone, hlead⟩ := not_single hlow (by omega)
  have htwo : a < 0xE0 := UInt8.lt_iff_toNat_lt.mpr hhigh
  rw [decodeFrom.eq_def]
  simp only [hone, hlead, hb, htwo, Bool.not_true, Bool.false_eq_true, ↓reduceIte]

theorem decodeFrom_three (hlow : 0xE0 ≤ a.toNat) (hhigh : a.toNat < 0xF0)
    (hb : isSecond a b = true) (hc : isTail c = true) :
    decodeFrom position (a :: b :: c :: rest) =
      (decodeFrom (position + 3) rest).map (assemble 0xE0 a [b, c] :: ·) := by
  obtain ⟨hone, hlead⟩ := not_single (a := a) (by omega) (by omega)
  have htwo : ¬ a < 0xE0 := fun h => Nat.not_lt.mpr hlow (UInt8.lt_iff_toNat_lt.mp h)
  have hthree : a < 0xF0 := UInt8.lt_iff_toNat_lt.mpr hhigh
  rw [decodeFrom.eq_def]
  simp only [hone, hlead, hb, hc, htwo, hthree, Bool.not_true, Bool.false_eq_true, ↓reduceIte]

theorem decodeFrom_four (hlow : 0xF0 ≤ a.toNat) (hhigh : a.toNat ≤ 0xF4)
    (hb : isSecond a b = true) (hc : isTail c = true) (hd : isTail d = true) :
    decodeFrom position (a :: b :: c :: d :: rest) =
      (decodeFrom (position + 4) rest).map (assemble 0xF0 a [b, c, d] :: ·) := by
  obtain ⟨hone, hlead⟩ := not_single (a := a) (by omega) hhigh
  have htwo : ¬ a < 0xE0 := fun h =>
    absurd (UInt8.lt_iff_toNat_lt.mp h) (Nat.not_lt.mpr (Nat.le_trans (by decide) hlow))
  have hthree : ¬ a < 0xF0 := fun h => Nat.not_lt.mpr hlow (UInt8.lt_iff_toNat_lt.mp h)
  rw [decodeFrom.eq_def]
  simp only [hone, hlead, hb, hc, hd, htwo, hthree, Bool.not_true, Bool.false_eq_true, ↓reduceIte]

/-! ## Characters -/

theorem toNat_tail (m : Nat) : (UInt8.ofNat (0x80 + m % 64)).toNat = 0x80 + m % 64 := by
  rw [UInt8.toNat_ofNat']
  omega

/-- The two octets of a character up to `0x7FF`. -/
theorem decodeFrom_octets_two (hlow : 0x80 ≤ n) (hhigh : n < 0x800) :
    decodeFrom position (UInt8.ofNat (0xC0 + n / 64) :: UInt8.ofNat (0x80 + n % 64) :: rest) =
      (decodeFrom (position + 2) rest).map (Char.ofNat n :: ·) := by
  have hlead : (UInt8.ofNat (0xC0 + n / 64)).toNat = 0xC0 + n / 64 := by
    rw [UInt8.toNat_ofNat']
    omega
  have hsecond : isSecond (UInt8.ofNat (0xC0 + n / 64)) (UInt8.ofNat (0x80 + n % 64)) = true :=
    isSecond_of_bounds (isTail_ofNat n) (by omega) (by omega) (by omega) (by omega)
  have hvalue : assemble 0xC0 (UInt8.ofNat (0xC0 + n / 64)) [UInt8.ofNat (0x80 + n % 64)] =
      Char.ofNat n := by
    simp only [assemble, List.foldl_cons, List.foldl_nil, hlead, toNat_tail]
    exact congrArg Char.ofNat (by omega)
  rw [decodeFrom_two (by omega) (by omega) hsecond, hvalue]

/-- The three octets of a character up to `0xFFFF`; those of surrogates stand for none. -/
theorem decodeFrom_octets_three (hlow : 0x800 ≤ n) (hhigh : n < 0x10000)
    (hvalid : n < 0xD800 ∨ 0xDFFF < n) :
    decodeFrom position (UInt8.ofNat (0xE0 + n / 4096) :: UInt8.ofNat (0x80 + n / 64 % 64) ::
        UInt8.ofNat (0x80 + n % 64) :: rest) =
      (decodeFrom (position + 3) rest).map (Char.ofNat n :: ·) := by
  have hlead : (UInt8.ofNat (0xE0 + n / 4096)).toNat = 0xE0 + n / 4096 := by
    rw [UInt8.toNat_ofNat']
    omega
  have hsecond : isSecond (UInt8.ofNat (0xE0 + n / 4096))
      (UInt8.ofNat (0x80 + n / 64 % 64)) = true := by
    have htail := toNat_tail (n / 64)
    exact isSecond_of_bounds (isTail_ofNat _) (by omega) (by omega) (by omega) (by omega)
  have hvalue : assemble 0xE0 (UInt8.ofNat (0xE0 + n / 4096))
      [UInt8.ofNat (0x80 + n / 64 % 64), UInt8.ofNat (0x80 + n % 64)] = Char.ofNat n := by
    simp only [assemble, List.foldl_cons, List.foldl_nil, hlead, toNat_tail]
    exact congrArg Char.ofNat (by omega)
  rw [decodeFrom_three (by omega) (by omega) hsecond (isTail_ofNat n), hvalue]

/-- The four octets of any other character. -/
theorem decodeFrom_octets_four (hlow : 0x10000 ≤ n) (hhigh : n ≤ 0x10FFFF) :
    decodeFrom position (UInt8.ofNat (0xF0 + n / 262144) :: UInt8.ofNat (0x80 + n / 4096 % 64) ::
        UInt8.ofNat (0x80 + n / 64 % 64) :: UInt8.ofNat (0x80 + n % 64) :: rest) =
      (decodeFrom (position + 4) rest).map (Char.ofNat n :: ·) := by
  have hlead : (UInt8.ofNat (0xF0 + n / 262144)).toNat = 0xF0 + n / 262144 := by
    rw [UInt8.toNat_ofNat']
    omega
  have hsecond : isSecond (UInt8.ofNat (0xF0 + n / 262144))
      (UInt8.ofNat (0x80 + n / 4096 % 64)) = true := by
    have htail := toNat_tail (n / 4096)
    exact isSecond_of_bounds (isTail_ofNat _) (by omega) (by omega) (by omega) (by omega)
  have hvalue : assemble 0xF0 (UInt8.ofNat (0xF0 + n / 262144))
      [UInt8.ofNat (0x80 + n / 4096 % 64), UInt8.ofNat (0x80 + n / 64 % 64),
        UInt8.ofNat (0x80 + n % 64)] = Char.ofNat n := by
    simp only [assemble, List.foldl_cons, List.foldl_nil, hlead, toNat_tail]
    exact congrArg Char.ofNat (by omega)
  rw [decodeFrom_four (by omega) (by omega) hsecond (isTail_ofNat _) (isTail_ofNat n), hvalue]

/-- An encoded character decodes to itself, whatever stands around it. -/
theorem decodeFrom_encodeChar (c : Char) (rest : List UInt8) (position : Nat) :
    ∃ next, decodeFrom position (encodeChar c ++ rest) = (decodeFrom next rest).map (c :: ·) := by
  have hchar : Char.ofNat c.toNat = c := Char.ofNat_toNat c
  have hbounds := toNat_bounds c
  unfold encodeChar
  generalize c.toNat = n at hchar hbounds
  dsimp only
  subst hchar
  split
  · next h1 =>
    have hlead : (UInt8.ofNat n).toNat = n := by
      rw [UInt8.toNat_ofNat']
      omega
    exact ⟨position + 1, by rw [List.singleton_append, decodeFrom_one (by omega), hlead]⟩
  · split
    · exact ⟨position + 2, decodeFrom_octets_two (by omega) (by omega)⟩
    · split
      · exact ⟨position + 3, decodeFrom_octets_three (by omega) (by omega) (by omega)⟩
      · exact ⟨position + 4, decodeFrom_octets_four (by omega) (by omega)⟩

theorem decode_encode (cs : List Char) : decode (encode cs) = .ok cs := by
  have hfrom (position : Nat) : decodeFrom position (encode cs) = .ok cs := by
    induction cs generalizing position with
    | nil => rfl
    | cons c cs ih =>
      obtain ⟨next, hnext⟩ := decodeFrom_encodeChar c (encode cs) position
      change decodeFrom position (encodeChar c ++ encode cs) = _
      rw [hnext, ih next]
      rfl
  exact hfrom 0

end BuildHook.Utf8
