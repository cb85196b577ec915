import BuildHook.Text.Hex

/-!
# SHA-512

The digest of FIPS 180-4 in two forms: `digest` pads a whole message and folds the compression over
its blocks, and `Hasher` takes a message in pieces of any size. `digestPieces` is what reading a
file piece by piece computes.
-/

namespace BuildHook

/-- The first piece of a list and the further ones: the first piece takes `room` elements at most,
each further one `size`, and one at least. -/
def cutFrom {α : Type} (size : Nat) : (room : Nat) → List α → List α × List (List α)
  | _, [] => ([], [])
  | 0, x :: xs =>
    let (piece, more) := cutFrom size (size - 1) xs
    ([], (x :: piece) :: more)
  | room + 1, x :: xs =>
    let (piece, more) := cutFrom size room xs
    (x :: piece, more)

/-- Cuts a list into pieces of `size` elements; the last piece may be shorter, and none is empty. -/
def cutEvery {α : Type} (size : Nat) (xs : List α) : List (List α) :=
  (cutFrom size 0 xs).2

namespace Sha512

/-- The chaining value: eight words. -/
structure Words where
  a : UInt64
  b : UInt64
  c : UInt64
  d : UInt64
  e : UInt64
  f : UInt64
  g : UInt64
  h : UInt64
  deriving DecidableEq, Repr

/-- The first chaining value: the fractions of the square roots of the first eight primes. -/
def initial : Words :=
  ⟨0x6a09e667f3bcc908, 0xbb67ae8584caa73b, 0x3c6ef372fe94f82b,
    0xa54ff53a5f1d36f1, 0x510e527fade682d1, 0x9b05688c2b3e6c1f,
    0x1f83d9abfb41bd6b, 0x5be0cd19137e2179⟩

/-- The round constants: the fractions of the cube roots of the first eighty primes. -/
def constants : Array UInt64 := #[
    0x428a2f98d728ae22, 0x7137449123ef65cd, 0xb5c0fbcfec4d3b2f, 0xe9b5dba58189dbbc,
    0x3956c25bf348b538, 0x59f111f1b605d019, 0x923f82a4af194f9b, 0xab1c5ed5da6d8118,
    0xd807aa98a3030242, 0x12835b0145706fbe, 0x243185be4ee4b28c, 0x550c7dc3d5ffb4e2,
    0x72be5d74f27b896f, 0x80deb1fe3b1696b1, 0x9bdc06a725c71235, 0xc19bf174cf692694,
    0xe49b69c19ef14ad2, 0xefbe4786384f25e3, 0x0fc19dc68b8cd5b5, 0x240ca1cc77ac9c65,
    0x2de92c6f592b0275, 0x4a7484aa6ea6e483, 0x5cb0a9dcbd41fbd4, 0x76f988da831153b5,
    0x983e5152ee66dfab, 0xa831c66d2db43210, 0xb00327c898fb213f, 0xbf597fc7beef0ee4,
    0xc6e00bf33da88fc2, 0xd5a79147930aa725, 0x06ca6351e003826f, 0x142929670a0e6e70,
    0x27b70a8546d22ffc, 0x2e1b21385c26c926, 0x4d2c6dfc5ac42aed, 0x53380d139d95b3df,
    0x650a73548baf63de, 0x766a0abb3c77b2a8, 0x81c2c92e47edaee6, 0x92722c851482353b,
    0xa2bfe8a14cf10364, 0xa81a664bbc423001, 0xc24b8b70d0f89791, 0xc76c51a30654be30,
    0xd192e819d6ef5218, 0xd69906245565a910, 0xf40e35855771202a, 0x106aa07032bbd1b8,
    0x19a4c116b8d2d0c8, 0x1e376c085141ab53, 0x2748774cdf8eeb99, 0x34b0bcb5e19b48a8,
    0x391c0cb3c5c95a63, 0x4ed8aa4ae3418acb, 0x5b9cca4f7763e373, 0x682e6ff3d6b2b8a3,
    0x748f82ee5defb2fc, 0x78a5636f43172f60, 0x84c87814a1f0ab72, 0x8cc702081a6439ec,
    0x90befffa23631e28, 0xa4506cebde82bde9, 0xbef9a3f7b2c67915, 0xc67178f2e372532b,
    0xca273eceea26619c, 0xd186b8c721c0c207, 0xeada7dd6cde0eb1e, 0xf57d4f7fee6ed178,
    0x06f067aa72176fba, 0x0a637dc5a2c898a6, 0x113f9804bef90dae, 0x1b710b35131c471b,
    0x28db77f523047d84, 0x32caab7b40c72493, 0x3c9ebe0a15c9bebc, 0x431d67c49c100d4c,
    0x4cc5d4becb3e42b6, 0x597f299cfc657e2a, 0x5fcb6fab3ad6faec, 0x6c44198c4a475817
  ]

def rotate (x : UInt64) (n : UInt64) : UInt64 :=
  (x >>> n) ||| (x <<< (64 - n))

/-- The word that eight octets spell, the highest first. -/
def word (bytes : List UInt8) : UInt64 :=
  bytes.foldl (fun acc b => (acc <<< 8) ||| b.toUInt64) 0

/-- The octets of a number, the highest first. -/
def octets : (count n : Nat) → List UInt8
  | 0, _ => []
  | count + 1, n => octets count (n / 256) ++ [UInt8.ofNat (n % 256)]

def nextWord (ws : Array UInt64) : UInt64 :=
  let back := fun (n : Nat) => ws.getD (ws.size - n) 0
  let near := back 2
  let far := back 15
  (rotate near 19 ^^^ rotate near 61 ^^^ (near >>> 6)) + back 7 +
    (rotate far 1 ^^^ rotate far 8 ^^^ (far >>> 7)) + back 16

/-- The eighty words that a block of 128 octets is stretched to. -/
def schedule (block : List UInt8) : Array UInt64 :=
  let first := ((cutEvery 8 block).map word).toArray
  (List.range 64).foldl (fun ws _ => ws.push (nextWord ws)) first

/-- One round, with the constant and the schedule word already added. -/
def round (s : Words) (k : UInt64) : Words :=
  let t1 := s.h + (rotate s.e 14 ^^^ rotate s.e 18 ^^^ rotate s.e 41) +
    ((s.e &&& s.f) ^^^ (~~~ s.e &&& s.g)) + k
  let t2 := (rotate s.a 28 ^^^ rotate s.a 34 ^^^ rotate s.a 39) +
    ((s.a &&& s.b) ^^^ (s.a &&& s.c) ^^^ (s.b &&& s.c))
  ⟨t1 + t2, s.a, s.b, s.c, s.d + t1, s.e, s.f, s.g⟩

def compress (s : Words) (block : List UInt8) : Words :=
  let ws := schedule block
  let r := (List.range 80).foldl (fun r i => round r (constants.getD i 0 + ws.getD i 0)) s
  ⟨s.a + r.a, s.b + r.b, s.c + r.c, s.d + r.d, s.e + r.e, s.f + r.f, s.g + r.g, s.h + r.h⟩

def Words.octets (s : Words) : List UInt8 :=
  [s.a, s.b, s.c, s.d, s.e, s.f, s.g, s.h].flatMap fun w => Sha512.octets 8 w.toNat

/-- What is put after a message of a given length: a one bit, zeros up to a whole number of blocks,
and the length in bits. -/
def padding (length : Nat) : List UInt8 :=
  0x80 :: List.replicate ((239 - length % 128) % 128) 0 ++ octets 16 (length * 8)

/-- The digest of a message, as 64 octets. -/
def digest (message : List UInt8) : List UInt8 :=
  ((cutEvery 128 (message ++ padding message.length)).foldl compress initial).octets

/-- A digest in the making: the chaining value after all whole blocks, the octets that fill no block
yet, and the length of the message so far. -/
structure Hasher where
  state : Words
  pending : List UInt8
  length : Nat
  deriving DecidableEq, Repr

/-- Compresses all whole blocks in front of a list of octets, and gives what remains. -/
def absorb (s : Words) (bytes : List UInt8) : Words × List UInt8 :=
  (cutEvery 128 bytes).foldl (fun (state, pending) block =>
    if block.length = 128 then (compress state block, pending) else (state, block)) (s, [])

def Hasher.empty : Hasher :=
  ⟨initial, [], 0⟩

def Hasher.update (h : Hasher) (piece : List UInt8) : Hasher :=
  let (state, pending) := absorb h.state (h.pending ++ piece)
  ⟨state, pending, h.length + piece.length⟩

def Hasher.finish (h : Hasher) : List UInt8 :=
  (absorb h.state (h.pending ++ padding h.length)).1.octets

/-- The digest of a message that comes in pieces, in hexadecimal. -/
def digestPieces (pieces : List (List UInt8)) : String :=
  String.ofList (Text.hexOctets (pieces.foldl Hasher.update Hasher.empty).finish)

def pieceSize : Nat := 1048576

/-- The digest of a file's content, read piece by piece. -/
def ofContent (content : List UInt8) : String :=
  digestPieces (cutEvery pieceSize content)

end Sha512

end BuildHook
