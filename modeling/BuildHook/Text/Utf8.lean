/-!
# UTF-8

Encoding of characters and strict decoding of octets. A refusal names the first octet of the
sequence that cannot be decoded, how many octets of it were well formed, and why it stops there.
-/

namespace BuildHook.Utf8

inductive Reason where
  /-- The octet starts no sequence. -/
  | start
  /-- An octet follows that does not continue the sequence. -/
  | continuation
  /-- The text ends inside the sequence. -/
  | truncated
  deriving DecidableEq, Repr

/-- A sequence that is not UTF-8: its first octet, where it stands, and how many octets of it are
well formed. -/
structure Malformed where
  octet : UInt8
  position : Nat
  length : Nat
  reason : Reason
  deriving DecidableEq, Repr

def encodeChar (c : Char) : List UInt8 :=
  let n := c.toNat
  if n < 0x80 then [UInt8.ofNat n]
  else if n < 0x800 then [UInt8.ofNat (0xC0 + n / 64), UInt8.ofNat (0x80 + n % 64)]
  else if n < 0x10000 then
    [UInt8.ofNat (0xE0 + n / 4096), UInt8.ofNat (0x80 + n / 64 % 64), UInt8.ofNat (0x80 + n % 64)]
  else
    [UInt8.ofNat (0xF0 + n / 262144), UInt8.ofNat (0x80 + n / 4096 % 64),
      UInt8.ofNat (0x80 + n / 64 % 64), UInt8.ofNat (0x80 + n % 64)]

def encode (cs : List Char) : List UInt8 :=
  cs.flatMap encodeChar

def ofString (s : String) : List UInt8 :=
  encode s.toList

def isTail (b : UInt8) : Bool :=
  0x80 ≤ b && b ≤ 0xBF

/-- The second octet of a sequence: after some first octets the range is narrower, which rules out
overlong forms, surrogates and numbers above the last character. -/
def isSecond (first second : UInt8) : Bool :=
  if first = 0xE0 then 0xA0 ≤ second && second ≤ 0xBF
  else if first = 0xED then 0x80 ≤ second && second ≤ 0x9F
  else if first = 0xF0 then 0x90 ≤ second && second ≤ 0xBF
  else if first = 0xF4 then 0x80 ≤ second && second ≤ 0x8F
  else isTail second

/-- The character of a lead octet, which counts from `base`, and the tails after it. -/
def assemble (base : Nat) (lead : UInt8) (tails : List UInt8) : Char :=
  Char.ofNat (tails.foldl (fun n b => 64 * n + (b.toNat - 0x80)) (lead.toNat - base))

/-- Decodes octets that start at `position` of the whole text. -/
def decodeFrom (position : Nat) : List UInt8 → Except Malformed (List Char)
  | [] => .ok []
  | a :: rest =>
    if a < 0x80 then (decodeFrom (position + 1) rest).map (Char.ofNat a.toNat :: ·)
    else if a < 0xC2 || 0xF4 < a then .error ⟨a, position, 1, .start⟩
    else
      match rest with
      | [] => .error ⟨a, position, 1, .truncated⟩
      | b :: rest =>
        if !isSecond a b then .error ⟨a, position, 1, .continuation⟩
        else if a < 0xE0 then
          (decodeFrom (position + 2) rest).map (assemble 0xC0 a [b] :: ·)
        else
          match rest with
          | [] => .error ⟨a, position, 2, .truncated⟩
          | c :: rest =>
            if !isTail c then .error ⟨a, position, 2, .continuation⟩
            else if a < 0xF0 then
              (decodeFrom (position + 3) rest).map (assemble 0xE0 a [b, c] :: ·)
            else
              match rest with
              | [] => .error ⟨a, position, 3, .truncated⟩
              | d :: rest =>
                if !isTail d then .error ⟨a, position, 3, .continuation⟩
                else (decodeFrom (position + 4) rest).map (assemble 0xF0 a [b, c, d] :: ·)

def decode (bytes : List UInt8) : Except Malformed (List Char) :=
  decodeFrom 0 bytes

end BuildHook.Utf8
