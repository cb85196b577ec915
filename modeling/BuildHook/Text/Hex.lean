/-!
# Hexadecimal text

Numbers and octets in small hexadecimal digits, and the value of a digit of either case.
-/

namespace BuildHook.Text

def hexDigit (n : Nat) : Char :=
  if n < 10 then Char.ofNat (48 + n) else Char.ofNat (87 + n)

/-- The last `width` hexadecimal digits of a number. -/
def fixedHex : (width n : Nat) → List Char
  | 0, _ => []
  | width + 1, n => fixedHex width (n / 16) ++ [hexDigit (n % 16)]

def hexOctets (bytes : List UInt8) : List Char :=
  bytes.flatMap fun b => fixedHex 2 b.toNat

def hexValue? (c : Char) : Option Nat :=
  let n := c.toNat
  if 48 ≤ n && n ≤ 57 then some (n - 48)
  else if 97 ≤ n && n ≤ 102 then some (n - 87)
  else if 65 ≤ n && n ≤ 70 then some (n - 55)
  else none

end BuildHook.Text
