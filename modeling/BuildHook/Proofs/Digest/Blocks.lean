import BuildHook.Proofs.Digest.Constants

/-!
# Digests of whole messages

A message of octets has the digest that the standard gives to its bits. Octets, words and blocks are
strings of bits, and padding, schedule and rounds are followed one after the other.
-/

namespace BuildHook

/-! ## Pieces of a list -/

section Pieces

variable {α : Type} {size : Nat} {xs : List α}

/-- Induction over a list that is taken piece by piece. -/
@[elab_as_elim] theorem drop_induction (hsize : 0 < size) {motive : List α → Prop}
    (nil : motive []) (piece : ∀ xs, xs ≠ [] → motive (xs.drop size) → motive xs) (xs : List α) :
    motive xs := by
  induction hlength : xs.length using Nat.strong_induction_on generalizing xs with
  | _ length ih =>
    by_cases hne : xs = []
    · exact hne ▸ nil
    · have hpos := List.length_pos_of_ne_nil hne
      exact piece xs hne (ih (xs.drop size).length (by rw [List.length_drop]; omega) _ rfl)

theorem cutFrom_eq (size room : Nat) (xs : List α) :
    cutFrom size room xs = (xs.take room, cutEvery size (xs.drop room)) := by
  induction xs generalizing room with
  | nil => cases room <;> rfl
  | cons x xs ih =>
    cases room with
    | zero => rfl
    | succ room =>
      rw [cutFrom, ih]
      rfl

@[simp] theorem cutEvery_nil (size : Nat) : cutEvery size ([] : List α) = [] := rfl

/-- The first piece is what is taken first, and the others come from what is left. -/
theorem cutEvery_eq_cons (hsize : 0 < size) (hne : xs ≠ []) :
    cutEvery size xs = xs.take size :: cutEvery size (xs.drop size) := by
  obtain ⟨x, xs, rfl⟩ := List.exists_cons_of_ne_nil hne
  obtain ⟨room, rfl⟩ := Nat.exists_eq_add_one_of_ne_zero hsize.ne'
  rw [cutEvery, cutFrom, Nat.add_sub_cancel, cutFrom_eq]
  rfl

end Pieces

namespace Sha512

open Standard (binary number parts length_binary binary_add binary_mod number_append number_binary
  parts_eq_cons length_of_mem_parts)

/-- Pieces of one size are all of the list if its length is a multiple of the size. -/
theorem cutEvery_eq_parts {α : Type} {size : Nat} {xs : List α} (hsize : 0 < size)
    (h : size ∣ xs.length) :
    cutEvery size xs = parts size xs := by
  induction xs using drop_induction hsize with
  | nil => simp [parts]
  | piece xs hne ih =>
    have hle : size ≤ xs.length := Nat.le_of_dvd (List.length_pos_of_ne_nil hne) h
    have hrest : size ∣ (xs.drop size).length :=
      List.length_drop ▸ Nat.dvd_sub h (Nat.dvd_refl size)
    rw [cutEvery_eq_cons hsize hne, parts_eq_cons hsize hle, ih hrest]

/-! ## Octets as bits -/

/-- Octets as a string of bits, the highest bit of each octet first. -/
def bitsOf (bytes : List UInt8) : List Bool :=
  bytes.flatMap fun b => binary 8 b.toNat

@[simp] theorem bitsOf_nil : bitsOf [] = [] := rfl

@[simp] theorem bitsOf_cons (b : UInt8) (bytes : List UInt8) :
    bitsOf (b :: bytes) = binary 8 b.toNat ++ bitsOf bytes := rfl

@[simp] theorem bitsOf_append (xs ys : List UInt8) : bitsOf (xs ++ ys) = bitsOf xs ++ bitsOf ys :=
  List.flatMap_append

@[simp] theorem length_bitsOf (bytes : List UInt8) : (bitsOf bytes).length = 8 * bytes.length := by
  induction bytes with
  | nil => rfl
  | cons b bytes ih =>
    rw [bitsOf_cons, List.length_append, length_binary, ih, List.length_cons]
    ring

theorem drop_bitsOf (k : Nat) (bytes : List UInt8) :
    (bitsOf bytes).drop (8 * k) = bitsOf (bytes.drop k) := by
  induction k generalizing bytes with
  | zero => rfl
  | succ k ih =>
    cases bytes with
    | nil => simp
    | cons b bytes =>
      rw [bitsOf_cons, List.drop_succ_cons, ← ih, Nat.mul_succ, Nat.add_comm, ← List.drop_drop,
        List.drop_left' (length_binary 8 _)]

theorem take_bitsOf (k : Nat) (bytes : List UInt8) :
    (bitsOf bytes).take (8 * k) = bitsOf (bytes.take k) := by
  induction k generalizing bytes with
  | zero => rfl
  | succ k ih =>
    cases bytes with
    | nil => simp
    | cons b bytes =>
      have hcount : 8 * (k + 1) = (binary 8 b.toNat).length + 8 * k := by
        rw [length_binary]
        omega
      rw [bitsOf_cons, hcount, List.take_length_add_append, ih, List.take_succ_cons, bitsOf_cons]

theorem parts_bitsOf (size : Nat) (bytes : List UInt8) :
    parts (8 * size) (bitsOf bytes) = (parts size bytes).map bitsOf := by
  rw [parts, parts, length_bitsOf, Nat.mul_div_mul_left _ _ (by decide), List.map_map]
  refine List.map_congr_left fun i _ => ?_
  rw [Nat.mul_assoc, drop_bitsOf, take_bitsOf, Function.comp]

@[simp] theorem length_octets (count n : Nat) : (octets count n).length = count := by
  induction count generalizing n with
  | zero => rfl
  | succ count ih => rw [octets, List.length_append, ih, List.length_singleton]

theorem bitsOf_octets (count n : Nat) : bitsOf (octets count n) = binary (8 * count) n := by
  induction count generalizing n with
  | zero => rfl
  | succ count ih =>
    have hoctet : (UInt8.ofNat (n % 256)).toNat = n % 2 ^ 8 := by
      rw [UInt8.toNat_ofNat']
      exact Nat.mod_mod n 256
    rw [octets, bitsOf_append, ih, bitsOf_cons, hoctet, binary_mod, bitsOf_nil, List.append_nil,
      Nat.mul_succ, binary_add]
    rfl

theorem toBitVec_word (bytes : List UInt8) :
    (word bytes).toBitVec = BitVec.ofNat 64 (number (bitsOf bytes)) := by
  induction bytes using List.reverseRecOn with
  | nil => rfl
  | append_singleton bytes b ih =>
    have hlast : word (bytes ++ [b]) = (word bytes <<< 8) ||| b.toUInt64 := by
      simp [word]
    have hlow : b.toNat < 2 ^ 8 := b.toNat_lt
    have hnumber : number (bitsOf (bytes ++ [b])) = number (bitsOf bytes) <<< 8 ||| b.toNat := by
      rw [bitsOf_append, number_append, bitsOf_cons, bitsOf_nil, List.append_nil, length_binary,
        number_binary, Nat.mod_eq_of_lt hlow, ← Nat.shiftLeft_add_eq_or_of_lt hlow,
        Nat.shiftLeft_eq]
    have hshift : (word bytes <<< 8).toBitVec = (word bytes).toBitVec <<< (8 : Nat) := rfl
    have hoctet (i : Nat) : b.toBitVec.getLsbD i = b.toNat.testBit i :=
      (BitVec.testBit_toNat b.toBitVec).symm
    rw [hlast, hnumber, UInt64.toBitVec_or, hshift, ih, UInt8.toBitVec_toUInt64]
    refine BitVec.eq_of_getLsbD_eq fun i hi => ?_
    simp only [BitVec.getLsbD_or, BitVec.getLsbD_shiftLeft, BitVec.getLsbD_ofNat,
      BitVec.getLsbD_setWidth, Nat.testBit_or, Nat.testBit_shiftLeft, hoctet, hi, decide_true,
      Bool.true_and]
    have hback : i - 8 < 64 := by omega
    by_cases hlast : i < 8 <;> simp [hlast, hback, Nat.not_lt.mp]

/-! ## The message schedule -/

theorem toBitVec_rotate (x : UInt64) {n : UInt64} (hpos : 0 < n.toNat) (hlt : n.toNat < 64) :
    (rotate x n).toBitVec = x.toBitVec.rotateRight n.toNat := by
  have hright : (x >>> n).toBitVec = x.toBitVec >>> n.toNat := by
    rw [UInt64.toBitVec_shiftRight, BitVec.ushiftRight_eq', BitVec.toNat_umod]
    congr 1
    exact Nat.mod_eq_of_lt hlt
  have hleft : (x <<< (64 - n)).toBitVec = x.toBitVec <<< (64 - n.toNat) := by
    have hcount : (64 - n).toNat = 64 - n.toNat := UInt64.toNat_sub_of_le _ _ (by
      rw [UInt64.le_iff_toNat_le]
      exact hlt.le)
    rw [UInt64.toBitVec_shiftLeft, BitVec.shiftLeft_eq', BitVec.toNat_umod]
    congr 1
    change (64 - n).toNat % 64 = _
    rw [hcount]
    exact Nat.mod_eq_of_lt (by omega)
  rw [rotate, UInt64.toBitVec_or, hright, hleft, BitVec.rotateRight_def, Nat.mod_eq_of_lt hlt]

theorem toBitVec_nextWord (ws : Array UInt64) :
    let back := fun n => (ws.getD (ws.size - n) 0).toBitVec
    (nextWord ws).toBitVec = Standard.lowerSigma1 (back 2) + back 7 +
      Standard.lowerSigma0 (back 15) + back 16 := by
  simp (disch := decide) only [nextWord, Standard.lowerSigma0, Standard.lowerSigma1,
    UInt64.toBitVec_add, UInt64.toBitVec_xor, toBitVec_rotate]
  rfl

/-- An array holds the first words of the schedule of a block. -/
def Schedules (block : List UInt8) (count : Nat) (ws : Array UInt64) : Prop :=
  ws.size = count ∧
    ∀ t < count, (ws.getD t 0).toBitVec = Standard.scheduled (bitsOf block) t

variable {block : List UInt8} {count : Nat} {ws : Array UInt64}

theorem schedules_first (hblock : block.length = 128) :
    Schedules block 16 ((cutEvery 8 block).map word).toArray := by
  have hparts : cutEvery 8 block = parts 8 block :=
    cutEvery_eq_parts (by decide) (hblock ▸ by decide)
  have hwords : ((cutEvery 8 block).map word).toArray.size = 16 := by
    rw [hparts, parts, hblock]
    simp
  refine ⟨hwords, fun t ht => ?_⟩
  have hword : ((cutEvery 8 block).map word).toArray.getD t 0 =
      word ((block.drop (8 * t)).take 8) := by
    have ht' : t < block.length / 8 := by omega
    simp [hparts, parts, ht']
  rw [hword, toBitVec_word, Standard.scheduled, if_pos ht, ← take_bitsOf 8, ← drop_bitsOf,
    ← Nat.mul_assoc]

theorem Schedules.push (h : Schedules block count ws) (hcount : 16 ≤ count) :
    Schedules block (count + 1) (ws.push (nextWord ws)) := by
  obtain ⟨hsize, hwords⟩ := h
  refine ⟨by rw [Array.size_push, hsize], fun t ht => ?_⟩
  by_cases hlast : t = count
  · have hnew : (ws.push (nextWord ws)).getD t 0 = nextWord ws := by
      simp [hlast, ← hsize]
    subst hlast
    rw [hnew, toBitVec_nextWord, hsize, Standard.scheduled, if_neg (by omega)]
    dsimp only
    rw [hwords _ (by omega), hwords _ (by omega), hwords _ (by omega), hwords _ (by omega)]
  · have hold : (ws.push (nextWord ws)).getD t 0 = ws.getD t 0 := by
      simp [Array.getElem?_push, hsize, hlast]
    rw [hold, hwords t (by omega)]

theorem schedules_schedule (hblock : block.length = 128) :
    Schedules block 80 (schedule block) := by
  have hfold : ∀ n, Schedules block (16 + n)
      ((List.range n).foldl (fun ws _ => ws.push (nextWord ws))
        ((cutEvery 8 block).map word).toArray) := by
    intro n
    induction n with
    | zero => exact schedules_first hblock
    | succ n ih =>
      rw [List.range_succ, List.foldl_append]
      exact ih.push (by omega)
  exact hfold 64

/-! ## Rounds -/

theorem variables_round (s : Words) {t : Nat} {c w : UInt64} {bits : List Bool}
    (hc : c.toBitVec = Standard.constant t) (hw : w.toBitVec = Standard.scheduled bits t) :
    (round s (c + w)).variables = Standard.round bits s.variables t := by
  simp (disch := decide) only [round, Standard.round, Words.variables, Standard.upperSigma0,
    Standard.upperSigma1, Standard.choose, Standard.majority, UInt64.toBitVec_add,
    UInt64.toBitVec_xor, UInt64.toBitVec_and, UInt64.toBitVec_not, toBitVec_rotate, hc, hw,
    BitVec.add_assoc]
  rfl

theorem variables_compress (s : Words) (hblock : block.length = 128) :
    (compress s block).variables = Standard.compress s.variables (bitsOf block) := by
  obtain ⟨-, hwords⟩ := schedules_schedule hblock
  have hrounds : ((List.range 80).foldl
        (fun r i => round r (constants.getD i 0 + (schedule block).getD i 0)) s).variables =
      (List.range 80).foldl (Standard.round (bitsOf block)) s.variables := by
    refine List.foldl_rel (r := fun (r : Words) (v : Standard.Variables) => r.variables = v) rfl
      fun t ht r v hr => ?_
    have ht := List.mem_range.mp ht
    rw [variables_round r (constants_eq ht) (hwords t ht), hr]
  rw [compress, Standard.compress, ← hrounds]
  simp only [Words.variables, UInt64.toBitVec_add, BitVec.add_comm]

/-! ## Padding and digest -/

theorem zeros_eq {length k : Nat} (h : (length + 1 + k) % 1024 = 896) (hk : k < 1024) :
    Standard.zeros length = k := by
  have hleast : IsLeast { k | (length + 1 + k) % 1024 = 896 } k := by
    refine ⟨h, fun j hj => ?_⟩
    have hj : (length + 1 + j) % 1024 = 896 := hj
    omega
  exact hleast.csInf_eq

theorem bitsOf_replicate (n : Nat) :
    bitsOf (List.replicate n 0) = List.replicate (8 * n) false := by
  induction n with
  | zero => rfl
  | succ n ih =>
    rw [List.replicate_succ, bitsOf_cons, ih, Nat.mul_succ, Nat.add_comm, List.replicate_add]
    rfl

theorem bitsOf_padded (message : List UInt8) :
    bitsOf (message ++ padding message.length) = Standard.padded (bitsOf message) := by
  have hzeros : Standard.zeros (8 * message.length) =
      7 + 8 * ((239 - message.length % 128) % 128) :=
    zeros_eq (by omega) (by omega)
  -- the first octet is the one bit and seven of the zeros
  have hfirst : binary 8 (0x80 : UInt8).toNat = [true] ++ List.replicate 7 false := rfl
  rw [padding, bitsOf_append, bitsOf_append, bitsOf_cons, bitsOf_octets, bitsOf_replicate, hfirst,
    Standard.padded, length_bitsOf, hzeros, List.replicate_add, Nat.mul_comm message.length]
  simp only [List.append_assoc, Nat.reduceMul]

theorem length_padded (message : List UInt8) :
    128 ∣ (message ++ padding message.length).length := by
  simp only [padding, List.length_append, List.length_cons, List.length_replicate, length_octets]
  omega

theorem bitsOf_digest (message : List UInt8) :
    bitsOf (digest message) = Standard.hash (bitsOf message) := by
  have hblocks := cutEvery_eq_parts (by decide) (length_padded message)
  have hfold : ((parts 128 (message ++ padding message.length)).foldl compress initial).variables =
      ((parts 128 (message ++ padding message.length)).map bitsOf).foldl Standard.compress
        Standard.initial := by
    rw [List.foldl_map]
    refine List.foldl_rel (r := fun (s : Words) (v : Standard.Variables) => s.variables = v)
      variables_initial fun block hblock s v hs => ?_
    rw [variables_compress s (length_of_mem_parts hblock), hs]
  have hbits (s : Words) : bitsOf s.octets = s.variables.bits := by
    simp [Words.octets, Standard.Variables.bits, Words.variables, bitsOf_octets]
  rw [digest, hblocks, hbits, hfold, Standard.hash, ← bitsOf_padded, ← parts_bitsOf]

end Sha512

end BuildHook
