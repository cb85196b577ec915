import BuildHook.Text.Blank

/-!
# Decimal digits

The decimal digits of Unicode 14 come in rows of ten, from zero to nine.
-/

namespace BuildHook.Text

/-- The code point of the zero of each row of decimal digits. -/
def digitZeros : List Nat :=
  [0x30, 0x660, 0x6f0, 0x7c0, 0x966, 0x9e6, 0xa66, 0xae6, 0xb66, 0xbe6, 0xc66, 0xce6, 0xd66,
    0xde6, 0xe50, 0xed0, 0xf20, 0x1040, 0x1090, 0x17e0, 0x1810, 0x1946, 0x19d0, 0x1a80, 0x1a90,
    0x1b50, 0x1bb0, 0x1c40, 0x1c50, 0xa620, 0xa8d0, 0xa900, 0xa9d0, 0xa9f0, 0xaa50, 0xabf0,
    0xff10, 0x104a0, 0x10d30, 0x11066, 0x110f0, 0x11136, 0x111d0, 0x112f0, 0x11450, 0x114d0,
    0x11650, 0x116c0, 0x11730, 0x118e0, 0x11950, 0x11c50, 0x11d50, 0x11da0, 0x16a60, 0x16ac0,
    0x16b50, 0x1d7ce, 0x1d7d8, 0x1d7e2, 0x1d7ec, 0x1d7f6, 0x1e140, 0x1e2f0, 0x1e950, 0x1fbf0]

def isDecimalDigit (c : Char) : Bool :=
  digitZeros.any fun start => start ≤ c.toNat && c.toNat < start + 10

theorem isDecimalDigit_of_isBlank {c : Char} (h : isBlank c = true) : isDecimalDigit c = false := by
  have hrows : ∀ start ∈ digitZeros, 32 < start ∧ (start + 10 ≤ 0x85 ∨ 0xa0 < start) ∧
      (start + 10 ≤ 0x1680 ∨ 0x1680 < start) ∧ (start + 10 ≤ 0x2000 ∨ 0x3000 < start) := by
    decide
  rw [isDecimalDigit, List.any_eq_false]
  intro start hstart hrow
  have hbounds := hrows start hstart
  simp only [Bool.and_eq_true, decide_eq_true_eq] at hrow
  simp only [isBlank, Bool.or_eq_true, Bool.and_eq_true, decide_eq_true_eq, beq_iff_eq] at h
  omega

end BuildHook.Text
