import BuildHook.Digest
import Mathlib.Analysis.SpecialFunctions.Pow.Real
import Mathlib.Data.Nat.Prime.Nth

/-!
# SHA-512 on strings of bits

The hash function as FIPS 180-4 tells it. A message is a string of bits, which is padded to whole
blocks of 1024, and each block is worked into eight words of 64 bits. The constants are the first
bits of roots of the first primes.
-/

namespace BuildHook.Sha512

namespace Standard

/-! ## Numbers and strings of bits -/

/-- A number in binary with a given count of digits, the highest first. -/
def binary : (count n : Nat) → List Bool
  | 0, _ => []
  | count + 1, n => binary count (n / 2) ++ [n % 2 == 1]

/-- The number that binary digits spell, the highest first. -/
def number (bits : List Bool) : Nat :=
  bits.foldl (fun n bit => 2 * n + bit.toNat) 0

/-- The consecutive pieces of a given size. -/
def parts {α : Type} (size : Nat) (xs : List α) : List (List α) :=
  (List.range (xs.length / size)).map fun i => (xs.drop (size * i)).take size

@[simp] theorem length_binary (count n : Nat) : (binary count n).length = count := by
  induction count generalizing n with
  | zero => rfl
  | succ count ih => simp [binary, ih]

theorem binary_add (a b n : Nat) : binary (a + b) n = binary a (n / 2 ^ b) ++ binary b n := by
  induction b generalizing n with
  | zero => simp [binary]
  | succ b ih =>
    rw [← Nat.add_assoc, binary, ih, binary, Nat.div_div_eq_div_mul, ← Nat.pow_succ',
      List.append_assoc]

theorem binary_mod (count n : Nat) : binary count (n % 2 ^ count) = binary count n := by
  induction count generalizing n with
  | zero => rfl
  | succ count ih =>
    have hhalf : n % 2 ^ (count + 1) / 2 = n / 2 % 2 ^ count := by
      rw [Nat.pow_succ', Nat.mod_mul_right_div_self]
    have hlast : n % 2 ^ (count + 1) % 2 = n % 2 :=
      Nat.mod_mod_of_dvd n (Dvd.intro_left (2 ^ count) rfl)
    rw [binary, binary, hhalf, hlast, ih]

theorem number_append (xs ys : List Bool) :
    number (xs ++ ys) = number xs * 2 ^ ys.length + number ys := by
  induction ys using List.reverseRecOn with
  | nil => simp [number]
  | append_singleton ys bit ih =>
    have hlast : ∀ bits : List Bool, number (bits ++ [bit]) = 2 * number bits + bit.toNat := by
      simp [number]
    rw [← List.append_assoc, hlast, hlast, ih, List.length_append, List.length_singleton,
      Nat.pow_succ]
    ring

theorem number_binary (count n : Nat) : number (binary count n) = n % 2 ^ count := by
  induction count generalizing n with
  | zero => simp [binary, number, Nat.mod_one]
  | succ count ih =>
    have hbit : number [n % 2 == 1] = n % 2 := by
      rcases Nat.mod_two_eq_zero_or_one n with h | h <;> simp [number, h]
    rw [binary, number_append, ih, hbit, List.length_singleton, Nat.pow_one, Nat.pow_succ',
      Nat.mod_mul]
    omega

theorem number_lt (bits : List Bool) : number bits < 2 ^ bits.length := by
  induction bits using List.reverseRecOn with
  | nil => simp [number]
  | append_singleton bits bit ih =>
    have hbit : number [bit] < 2 := by cases bit <;> decide
    rw [number_append, List.length_append, List.length_singleton, Nat.pow_succ]
    omega

section Parts

variable {α : Type} {size : Nat} {xs : List α}

theorem parts_eq_cons (hsize : 0 < size) (h : size ≤ xs.length) :
    parts size xs = xs.take size :: parts size (xs.drop size) := by
  have hcount : xs.length / size = (xs.length - size) / size + 1 := by
    rw [← Nat.add_div_right _ hsize, Nat.sub_add_cancel h]
  simp only [parts, hcount, List.range_succ_eq_map, List.map_cons, List.map_map, Nat.mul_zero,
    List.drop_zero, List.length_drop, List.drop_drop]
  congr 1
  exact List.map_congr_left fun i _ => by simp [Nat.mul_succ, Nat.add_comm]

theorem parts_append {part : List α} (hsize : 0 < size) (hpart : part.length = size) :
    parts size (part ++ xs) = part :: parts size xs := by
  rw [parts_eq_cons hsize (by simp [hpart]), List.take_left' hpart, List.drop_left' hpart]

theorem length_of_mem_parts {part : List α} (h : part ∈ parts size xs) : part.length = size := by
  obtain ⟨i, hi, rfl⟩ := List.mem_map.mp h
  have hle : size * (i + 1) ≤ xs.length :=
    (Nat.mul_le_mul_left size (List.mem_range.mp hi)).trans (Nat.mul_div_le _ _)
  rw [Nat.mul_succ] at hle
  rw [List.length_take, List.length_drop]
  omega

end Parts

/-! ## Constants -/

/-- The first 64 bits of the fraction of a root. -/
noncomputable def rootFraction (degree n : Nat) : BitVec 64 :=
  BitVec.ofNat 64 ⌊(n : ℝ) ^ (1 / degree : ℝ) * 2 ^ 64⌋₊

/-- The constant of a round: from the cube roots of the first eighty primes. -/
noncomputable def constant (t : Nat) : BitVec 64 :=
  rootFraction 3 (Nat.nth Nat.Prime t)

/-! ## Functions on words -/

def choose (x y z : BitVec 64) : BitVec 64 :=
  (x &&& y) ^^^ (~~~x &&& z)

def majority (x y z : BitVec 64) : BitVec 64 :=
  (x &&& y) ^^^ (x &&& z) ^^^ (y &&& z)

def upperSigma0 (x : BitVec 64) : BitVec 64 :=
  x.rotateRight 28 ^^^ x.rotateRight 34 ^^^ x.rotateRight 39

def upperSigma1 (x : BitVec 64) : BitVec 64 :=
  x.rotateRight 14 ^^^ x.rotateRight 18 ^^^ x.rotateRight 41

def lowerSigma0 (x : BitVec 64) : BitVec 64 :=
  x.rotateRight 1 ^^^ x.rotateRight 8 ^^^ (x >>> 7)

def lowerSigma1 (x : BitVec 64) : BitVec 64 :=
  x.rotateRight 19 ^^^ x.rotateRight 61 ^^^ (x >>> 6)

/-! ## Padding -/

/-- How many zero bits go between the one bit behind a message and the length: the fewest that fill
all but 128 bits of the last block. -/
noncomputable def zeros (length : Nat) : Nat :=
  sInf { k | (length + 1 + k) % 1024 = 896 }

/-- A message with the padding: the one bit, the zero bits, and the length in 128 bits. -/
noncomputable def padded (message : List Bool) : List Bool :=
  message ++ [true] ++ List.replicate (zeros message.length) false ++ binary 128 message.length

/-! ## Hash computation -/

/-- The word of a block's message schedule. -/
def scheduled (block : List Bool) (t : Nat) : BitVec 64 :=
  if t < 16 then BitVec.ofNat 64 (number ((block.drop (64 * t)).take 64))
  else lowerSigma1 (scheduled block (t - 2)) + scheduled block (t - 7) +
    lowerSigma0 (scheduled block (t - 15)) + scheduled block (t - 16)

/-- The working variables, and the hash value between two blocks. -/
@[ext] structure Variables where
  a : BitVec 64
  b : BitVec 64
  c : BitVec 64
  d : BitVec 64
  e : BitVec 64
  f : BitVec 64
  g : BitVec 64
  h : BitVec 64

/-- The first hash value: from the square roots of the first eight primes. -/
noncomputable def initial : Variables :=
  let root := fun i => rootFraction 2 (Nat.nth Nat.Prime i)
  ⟨root 0, root 1, root 2, root 3, root 4, root 5, root 6, root 7⟩

noncomputable def round (block : List Bool) (v : Variables) (t : Nat) : Variables :=
  let t1 := v.h + upperSigma1 v.e + choose v.e v.f v.g + constant t + scheduled block t
  let t2 := upperSigma0 v.a + majority v.a v.b v.c
  ⟨t1 + t2, v.a, v.b, v.c, v.d + t1, v.e, v.f, v.g⟩

noncomputable def compress (v : Variables) (block : List Bool) : Variables :=
  let w := (List.range 80).foldl (round block) v
  ⟨w.a + v.a, w.b + v.b, w.c + v.c, w.d + v.d, w.e + v.e, w.f + v.f, w.g + v.g, w.h + v.h⟩

def Variables.bits (v : Variables) : List Bool :=
  [v.a, v.b, v.c, v.d, v.e, v.f, v.g, v.h].flatMap fun w => binary 64 w.toNat

/-- The message digest: 512 bits. -/
noncomputable def hash (message : List Bool) : List Bool :=
  ((parts 1024 (padded message)).foldl compress initial).bits

/-- Bits in hexadecimal, four of them a digit. -/
def hexadecimal (bits : List Bool) : String :=
  String.ofList ((parts 4 bits).map fun digit => "0123456789abcdef".toList.getD (number digit) '0')

theorem length_hexadecimal (bits : List Bool) : (hexadecimal bits).length = bits.length / 4 := by
  simp [hexadecimal, parts]

theorem length_hash (message : List Bool) : (hash message).length = 512 := by
  simp [hash, Variables.bits]

end Standard

end BuildHook.Sha512
