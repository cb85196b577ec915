import BuildHook.Toml.Printer
import Mathlib.Algebra.Group.Nat.Defs

/-!
# Strings and keys read back

A written string reads back as its text, whatever follows it, and so does a written key with its
points. The reader of strings sees one character at a time, so a string is read escape by escape.
-/

namespace BuildHook

namespace Text

theorem hexValue?_hexDigit {n : Nat} (h : n < 16) : hexValue? (hexDigit n) = some n := by
  have hall : ∀ m < 16, hexValue? (hexDigit m) = some m := by decide
  exact hall n h

end Text

namespace Toml

variable {c : Char} {cs rest : List Char} {key : String} {kind : Char → Bool}

/-! ## Where a reader stops -/

theorem ne_of_kind (h : kind c = true) {d : Char} (hd : kind d = false) : c ≠ d := by
  rintro rfl
  rw [h] at hd
  cases hd

/-- Whether a text does not begin with a character of a kind. -/
def Stops (kind : Char → Bool) (cs : List Char) : Prop :=
  ∀ c ∈ cs.head?, kind c = false

theorem stops_cons : Stops kind (c :: cs) ↔ kind c = false := by
  simp [Stops]

theorem takeWhile_of_stops (hall : cs.all kind = true) (hstops : Stops kind rest) :
    (cs ++ rest).takeWhile kind = cs := by
  rw [List.takeWhile_append_of_pos (List.all_eq_true.mp hall)]
  cases rest with
  | nil => exact List.append_nil cs
  | cons c rest => simp [stops_cons.mp hstops]

theorem dropWhile_of_stops (hall : cs.all kind = true) (hstops : Stops kind rest) :
    (cs ++ rest).dropWhile kind = rest := by
  rw [List.dropWhile_append_of_pos (List.all_eq_true.mp hall)]
  cases rest with
  | nil => rfl
  | cons c rest => simp [stops_cons.mp hstops]

theorem skipSpacing_of_stops (h : Stops isSpacing cs) : skipSpacing cs = cs :=
  @dropWhile_of_stops [] cs isSpacing rfl h

/-! ## Strings -/

theorem charOf?_toNat (c : Char) : charOf? c.toNat = some c := by
  have hvalid : c.toNat.isValidChar := c.valid
  rw [charOf?, dif_pos hvalid]
  rfl

/-- Digits of a character number add to its value, as long as more of them are missing. -/
theorem readBasic_fixedHex (width n missing value : Nat) (rest : List Char) :
    readBasic false (.number (width + (missing + 1)) value) (Text.fixedHex width n ++ rest) =
      readBasic false (.number (missing + 1) (16 ^ width * value + n % 16 ^ width)) rest := by
  induction width generalizing n missing rest with
  | zero =>
    rw [Nat.zero_add, Text.fixedHex, List.nil_append]
    simp [Nat.mod_one]
  | succ width ih =>
    have hdigit : Text.hexValue? (Text.hexDigit (n % 16)) = some (n % 16) :=
      Text.hexValue?_hexDigit (Nat.mod_lt _ (by decide))
    have hvalue : 16 * (16 ^ width * value + n / 16 % 16 ^ width) + n % 16 =
        16 ^ (width + 1) * value + n % 16 ^ (width + 1) := by
      rw [Nat.pow_succ, Nat.mul_comm (16 ^ width) 16, Nat.mod_mul, Nat.mul_add, Nat.mul_assoc]
      omega
    rw [Text.fixedHex, List.append_assoc, List.singleton_append,
      show width + 1 + (missing + 1) = width + (missing + 1 + 1) by omega, ih, readBasic, hdigit]
    dsimp only
    rw [if_pos (by omega), hvalue]
    rfl

/-- A character number of four digits stands for its character. -/
theorem readBasic_number (h : c.toNat < 16 ^ 4) (rest : List Char) :
    readBasic false (.number 4 0) (Text.fixedHex 4 c.toNat ++ rest) =
      (readBasic false (.text false) rest).map fun (text, after) => (c :: text, after) := by
  have hdigit : Text.hexValue? (Text.hexDigit (c.toNat % 16)) = some (c.toNat % 16) :=
    Text.hexValue?_hexDigit (Nat.mod_lt _ (by decide))
  have hvalue : 16 * (16 ^ 3 * 0 + c.toNat / 16 % 16 ^ 3) + c.toNat % 16 = c.toNat := by omega
  rw [Text.fixedHex, List.append_assoc, List.singleton_append,
    readBasic_fixedHex 3 (c.toNat / 16) 0 0, readBasic, hdigit]
  dsimp only
  rw [hvalue, charOf?_toNat]
  rfl

theorem shortEscape?_spec {letter : Char} (h : shortEscape? c = some letter) :
    letter ≠ 'u' ∧ letter ≠ 'U' ∧ escapedChar? letter = some c := by
  unfold shortEscape? at h
  split at h
  case h_7 => cases h
  all_goals
    obtain rfl := Option.some.inj h
    decide

theorem shortEscape?_none (h : shortEscape? c = none) : c ≠ '"' ∧ c ≠ '\\' := by
  constructor <;> rintro rfl <;> cases h

/-- An escaped character is read as itself. -/
theorem readBasic_escapeChar (c : Char) (rest : List Char) :
    readBasic false (.text false) (escapeChar c ++ rest) =
      (readBasic false (.text false) rest).map fun (text, after) => (c :: text, after) := by
  unfold escapeChar
  split
  · next letter hletter =>
    obtain ⟨hu, hU, hescaped⟩ := shortEscape?_spec hletter
    simp [readBasic, hu, hU, hescaped]
  · next hnone =>
    obtain ⟨hquote, hslash⟩ := shortEscape?_none hnone
    split
    · next hcontrol =>
      have hsmall : c.toNat < 16 ^ 4 := by
        simp only [isControl, Bool.or_eq_true, Bool.and_eq_true, decide_eq_true_eq] at hcontrol
        omega
      rw [List.cons_append, List.cons_append]
      simp [readBasic, readBasic_number hsmall]
    · next hplain =>
      simp [readBasic, hquote, hslash, hplain]

/-- An escaped text is read as itself up to the quote behind it. -/
theorem readBasic_escaped (cs rest : List Char) :
    readBasic false (.text false) (cs.flatMap escapeChar ++ '"' :: rest) = some (cs, rest) := by
  induction cs with
  | nil => simp [readBasic]
  | cons c cs ih =>
    rw [List.flatMap_cons, List.append_assoc, readBasic_escapeChar, ih]
    rfl

theorem readLineString_writeString (cs rest : List Char) :
    readLineString (writeString cs ++ rest) = some (cs, rest) := by
  have hquote : writeString cs ++ rest = '"' :: (cs.flatMap escapeChar ++ '"' :: rest) := by
    simp [writeString]
  rw [hquote, readLineString, if_pos rfl, readBasic_escaped]

theorem head_escapeChar (c : Char) : ∃ first more, escapeChar c = first :: more ∧ first ≠ '"' := by
  unfold escapeChar
  split
  · exact ⟨_, _, rfl, by decide⟩
  · next hnone =>
    split
    · exact ⟨_, _, rfl, by decide⟩
    · exact ⟨_, _, rfl, (shortEscape?_none hnone).1⟩

/-- A written string does not begin like one over several lines, unless a quote follows it. -/
theorem readString_writeString (cs : List Char) {rest : List Char} (hrest : rest.head? ≠ some '"') :
    readString (writeString cs ++ rest) = some (cs, rest) := by
  have htake : (writeString cs ++ rest).take 3 ≠ ['"', '"', '"'] ∧
      (writeString cs ++ rest).take 3 ≠ ['\'', '\'', '\''] := by
    cases cs with
    | nil =>
      cases rest with
      | nil => decide
      | cons d rest =>
        have hd : d ≠ '"' := by simpa using hrest
        simp [writeString, hd]
    | cons c cs =>
      obtain ⟨first, more, hescape, hfirst⟩ := head_escapeChar c
      simp [writeString, hescape, hfirst]
  rw [readString, if_neg htake.1, if_neg htake.2, readLineString_writeString]

/-! ## Keys -/

theorem readKeyPart_writeKeyPart (key : String) (hrest : Stops isBareKeyChar rest) :
    readKeyPart (writeKeyPart key ++ rest) = some (key, rest) := by
  unfold writeKeyPart
  dsimp only
  split
  · next hbare =>
    obtain ⟨hne, hall⟩ := Bool.and_eq_true_iff.mp hbare
    rw [Bool.not_eq_true'] at hne
    simp only [readKeyPart, takeWhile_of_stops hall hrest, dropWhile_of_stops hall hrest, hne,
      Bool.false_eq_true, ↓reduceIte, String.ofList_toList]
  · have hquote : (writeString key.toList ++ rest).takeWhile isBareKeyChar = [] := by
      rw [writeString, List.cons_append, List.cons_append,
        List.takeWhile_cons_of_neg (by decide)]
    simp only [readKeyPart, hquote, List.isEmpty_nil, ↓reduceIte, readLineString_writeString,
      Option.map_some, String.ofList_toList]

/-- The characters that a written key begins with. -/
def beginsKey (c : Char) : Bool :=
  isBareKeyChar c || c = '"'

theorem isLayout_of_beginsKey (h : beginsKey c = true) : isLayout c = false := by
  rw [isLayout, isSpacing, Bool.or_eq_false_iff, Bool.or_eq_false_iff]
  simp only [decide_eq_false_iff_not]
  exact ⟨⟨ne_of_kind h (by decide), ne_of_kind h (by decide)⟩,
    ne_of_kind h (by decide)⟩

theorem head_writeKeyPart (key : String) :
    ∃ first more, writeKeyPart key = first :: more ∧ beginsKey first = true := by
  unfold writeKeyPart
  dsimp only
  split
  · next hbare =>
    rw [Bool.and_eq_true, Bool.not_eq_true'] at hbare
    obtain ⟨hne, hall⟩ := hbare
    cases hkey : key.toList with
    | nil => simp [hkey] at hne
    | cons first more =>
      rw [hkey] at hall
      have hfirst := List.all_eq_true.mp hall first List.mem_cons_self
      exact ⟨first, more, rfl, by rw [beginsKey, hfirst, Bool.true_or]⟩
  · exact ⟨_, _, rfl, rfl⟩

/-- Written keys begin with no white space. -/
theorem skipSpacing_writeKeyPart (key : String) (rest : List Char) :
    skipSpacing (writeKeyPart key ++ rest) = writeKeyPart key ++ rest := by
  obtain ⟨first, more, hkey, hfirst⟩ := head_writeKeyPart key
  rw [hkey, List.cons_append]
  exact skipSpacing_of_stops (stops_cons.mpr
    (Bool.or_eq_false_iff.mp (isLayout_of_beginsKey hfirst)).1)

/-- A key with points between its parts. -/
def writeKey : Key → List Char
  | [] => []
  | [part] => writeKeyPart part
  | part :: next :: parts => writeKeyPart part ++ '.' :: writeKey (next :: parts)

theorem writeKey_concat {place : Key} (h : place ≠ []) (key : String) :
    writeKey (place ++ [key]) = writeKey place ++ '.' :: writeKeyPart key := by
  induction place with
  | nil => exact absurd rfl h
  | cons part parts ih =>
    cases parts with
    | nil => rfl
    | cons next parts =>
      change writeKeyPart part ++ '.' :: writeKey ((next :: parts) ++ [key]) = _
      rw [ih (List.cons_ne_nil _ _), writeKey, List.append_assoc]
      rfl

theorem length_le_writeKey (place : Key) : place.length ≤ (writeKey place).length := by
  induction place with
  | nil => exact Nat.le_refl 0
  | cons part parts ih =>
    obtain ⟨first, more, hpart, -⟩ := head_writeKeyPart part
    cases parts with
    | nil => simp [writeKey, hpart]
    | cons next parts =>
      rw [writeKey, hpart]
      simp only [List.length_cons, List.length_append] at ih ⊢
      omega

theorem writeKey_cons_append (key : String) (parts : Key) (rest : List Char) :
    ∃ more, writeKey (key :: parts) ++ rest = writeKeyPart key ++ more := by
  cases parts with
  | nil => exact ⟨rest, rfl⟩
  | cons next parts => exact ⟨_, by rw [writeKey, List.append_assoc]⟩

theorem head_writeKey {place : Key} (h : place ≠ []) :
    ∃ first more, writeKey place = first :: more ∧ beginsKey first = true := by
  obtain ⟨part, parts, rfl⟩ := List.exists_cons_of_ne_nil h
  obtain ⟨rest, hrest⟩ := writeKey_cons_append part parts []
  obtain ⟨first, more, hpart, hfirst⟩ := head_writeKeyPart part
  rw [List.append_nil] at hrest
  exact ⟨first, more ++ rest, by rw [hrest, hpart, List.cons_append], hfirst⟩

/-- A written key is read up to what cannot belong to it, and the white space behind it is
skipped. -/
theorem readKey_writeKey {bound : Nat} {place : Key} (hplace : place ≠ [])
    (hbound : place.length ≤ bound) (hrest : Stops isBareKeyChar rest)
    (hpoint : (skipSpacing rest).head? ≠ some '.') :
    readKey bound (writeKey place ++ rest) = some (place, skipSpacing rest) := by
  induction place generalizing bound with
  | nil => exact absurd rfl hplace
  | cons part parts ih =>
    rw [List.length_cons] at hbound
    obtain ⟨bound, rfl⟩ : ∃ n, bound = n + 1 := ⟨bound - 1, by omega⟩
    cases parts with
    | nil =>
      rw [writeKey, readKey, readKeyPart_writeKeyPart part hrest]
      dsimp only
      split
      · next after hafter => simp [hafter] at hpoint
      · rfl
    | cons next parts =>
      obtain ⟨more, hmore⟩ := writeKey_cons_append next parts rest
      have hinner : readKey bound (writeKey (next :: parts) ++ rest) = _ :=
        ih (List.cons_ne_nil _ _) (by omega)
      rw [hmore] at hinner
      have hskip : skipSpacing ('.' :: (writeKeyPart next ++ more)) =
          '.' :: (writeKeyPart next ++ more) :=
        skipSpacing_of_stops (stops_cons.mpr rfl)
      rw [writeKey, List.append_assoc, List.cons_append, hmore, readKey,
        readKeyPart_writeKeyPart part (stops_cons.mpr rfl)]
      simp only [hskip, skipSpacing_writeKeyPart, hinner, Option.map_some]

end Toml

end BuildHook
