/-!
# Binary floating point numbers

Numbers of the IEEE 754 format with 64 bits, kept as exact integers: a finite number is
`significand * 2 ^ exponent`. Every number is made by `ofRatio`, which rounds to the nearest one, a
tie going to the even significand.
-/

namespace BuildHook

/-- A number with 53 bits of precision. All forms that are not a number count as one. -/
inductive Binary64 where
  | nan
  | infinity (negative : Bool)
  | finite (negative : Bool) (significand : Nat) (exponent : Int)
  deriving DecidableEq, Repr

/-- The whole number nearest to a quotient; of two equally near ones the even one. -/
def roundHalfEven (num den : Nat) : Nat :=
  let q := num / den
  let r := num % den
  if 2 * r < den then q
  else if den < 2 * r then q + 1
  else q + q % 2

def twoTo (n : Nat) : Nat :=
  Nat.pow 2 n

def tenTo (n : Nat) : Nat :=
  Nat.pow 10 n

def digitCount (n : Nat) : Nat :=
  (Nat.toDigits 10 n).length

namespace Binary64

def leastExponent : Int := -1074

def greatestExponent : Int := 971

def zero (negative : Bool) : Binary64 :=
  .finite negative 0 leastExponent

/-- `num / den` divided by `2 ^ e`, as a pair of whole numbers. -/
def scale (num den : Nat) (e : Int) : Nat × Nat :=
  if 0 ≤ e then (num, den * twoTo e.toNat) else (num * twoTo (-e).toNat, den)

/-- The greatest `e` with `2 ^ e ≤ num / den`. -/
def floorLog2 (num den : Nat) : Int :=
  let d := (num.log2 : Int) - den.log2
  let (n, m) := scale num den d
  if m ≤ n then d else d - 1

/-- The number nearest to `num / den`, or infinity from half a step above the greatest one on. -/
def ofRatio (negative : Bool) (num den : Nat) : Binary64 :=
  if num = 0 then zero negative
  else
    let e := max leastExponent (floorLog2 num den - 52)
    let (n, d) := scale num den e
    let m := roundHalfEven n d
    -- rounding up may need one bit more
    let (m, e) := if m = twoTo 53 then (twoTo 52, e + 1) else (m, e)
    if greatestExponent < e then .infinity negative else .finite negative m e

/-- The number nearest to `digits * 10 ^ exponent`. Beyond the first two bounds the result does not
depend on the digits any more. -/
def ofDecimal (negative : Bool) (digits : Nat) (exponent : Int) : Binary64 :=
  let size := (digitCount digits : Int) + exponent
  if digits = 0 || size < -330 then zero negative
  else if 310 < size then .infinity negative
  else if 0 ≤ exponent then ofRatio negative (digits * tenTo exponent.toNat) 1
  else ofRatio negative digits (tenTo (-exponent).toNat)

def ratio (significand : Nat) (exponent : Int) : Nat × Nat :=
  if 0 ≤ exponent then (significand * twoTo exponent.toNat, 1)
  else (significand, twoTo (-exponent).toNat)

def isZero : Binary64 → Bool
  | .finite _ significand _ => significand = 0
  | _ => false

end Binary64

end BuildHook
