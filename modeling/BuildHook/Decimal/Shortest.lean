import BuildHook.Decimal.Binary64

/-!
# Shortest decimal text

A finite number is written with the fewest digits that read back as it, and of the texts with so
many digits as the one nearest to it.
-/

namespace BuildHook.Binary64

/-- The greatest `e` with `10 ^ e ≤ num / den`. -/
def floorLog10 (num den : Nat) : Int :=
  let d := (digitCount num : Int) - digitCount den
  let reached :=
    if 0 ≤ d then den * tenTo d.toNat ≤ num else den ≤ num * tenTo (-d).toNat
  if reached then d else d - 1

/-- `num / den` divided by `10 ^ e`, as a pair of whole numbers. -/
def decimalScale (num den : Nat) (e : Int) : Nat × Nat :=
  if 0 ≤ e then (num, den * tenTo e.toNat) else (num * tenTo (-e).toNat, den)

/-- The multiple of `10 ^ e` nearest to `num / den` among its two neighbours on that grid that read
back as `x`; a tie goes to the even multiple. -/
def onGrid (x : Binary64) (num den : Nat) (e : Int) : Option Nat :=
  let (n, d) := decimalScale num den e
  let low := n / d
  let readsBack := fun m => ofDecimal false m e = x
  match decide (readsBack low), decide (readsBack (low + 1)) with
  | true, true => some (roundHalfEven n d)
  | true, false => some low
  | false, true => some (low + 1)
  | false, false => none

def exactDecimal (significand : Nat) (exponent : Int) : Nat × Int :=
  if 0 ≤ exponent then (significand * twoTo exponent.toNat, 0)
  else (significand * Nat.pow 5 (-exponent).toNat, exponent)

/-- The shortest digits that read back as the positive number `significand * 2 ^ exponent`, and the
power of ten that they count. -/
def shortest (significand : Nat) (exponent : Int) : Nat × Int :=
  let x := finite false significand exponent
  let (num, den) := ratio significand exponent
  let top := floorLog10 num den
  let found := (List.range 17).findSome? fun (n : Nat) =>
    let e := top - n
    (onGrid x num den e).map (·, e)
  found.getD (exactDecimal significand exponent)

/-- The digits of a number without its trailing zeros, and how many places before the point they
begin. -/
def digitsAndPoint (digits : Nat) (exponent : Int) : List Char × Int :=
  let all := Nat.toDigits 10 digits
  ((all.reverse.dropWhile (· = '0')).reverse, (all.length : Int) + exponent)

/-- How a number is laid out: positional from `1e-4` on and below `1e16`, always with a digit on
both sides of the point, and with an exponent of at least two digits and its sign elsewhere. -/
def layout (digits : List Char) (point : Int) : List Char :=
  let count : Int := digits.length
  if -4 < point && point ≤ 16 then
    if point ≤ 0 then
      ['0', '.'] ++ List.replicate (-point).toNat '0' ++ digits
    else if count ≤ point then
      digits ++ List.replicate (point - count).toNat '0' ++ ['.', '0']
    else
      digits.take point.toNat ++ '.' :: digits.drop point.toNat
  else
    let e := point - 1
    let size := Nat.toDigits 10 e.natAbs
    let fraction := if digits.length = 1 then [] else '.' :: digits.drop 1
    digits.take 1 ++ fraction ++ ['e', if e < 0 then '-' else '+'] ++
      List.replicate (2 - size.length) '0' ++ size

def chars : Binary64 → List Char
  | .nan => ['n', 'a', 'n']
  | .infinity negative => (if negative then ['-'] else []) ++ ['i', 'n', 'f']
  | .finite negative significand exponent =>
    let sign := if negative then ['-'] else []
    if significand = 0 then sign ++ ['0', '.', '0']
    else
      let (digits, e) := shortest significand exponent
      let (digits, point) := digitsAndPoint digits e
      sign ++ layout digits point

end BuildHook.Binary64
