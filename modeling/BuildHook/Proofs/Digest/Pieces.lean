import BuildHook.Lookaside
import BuildHook.Proofs.Digest.Blocks
import BuildHook.Proofs.SpecTags

/-!
# Digests of messages in pieces

A digest in the making depends on the octets that it has been given, and not on how they were cut.
So a content that is read piece by piece until a read is empty has the digest of the whole content,
whatever the size of the pieces. That is the digest of the standard, in hexadecimal.
-/

namespace BuildHook.Sha512

open Standard (binary number parts length_binary binary_add number_binary number_lt parts_append
  length_of_mem_parts length_hexadecimal length_hash)

variable {s : Words} {bytes message : List UInt8}

/-! ## Whole blocks and the rest -/

theorem absorb_of_lt (s : Words) (h : bytes.length < 128) : absorb s bytes = (s, bytes) := by
  by_cases hne : bytes = []
  · subst hne
    rfl
  · have hpiece : cutEvery 128 bytes = [bytes] := by
      rw [cutEvery_eq_cons (by decide) hne, List.take_of_length_le h.le,
        List.drop_of_length_le h.le, cutEvery_nil]
    rw [absorb, hpiece, List.foldl_cons, List.foldl_nil]
    exact if_neg h.ne

theorem absorb_of_le (s : Words) (h : 128 ≤ bytes.length) :
    absorb s bytes = absorb (compress s (bytes.take 128)) (bytes.drop 128) := by
  have hne : bytes ≠ [] := List.ne_nil_of_length_pos (by omega)
  have hblock : (bytes.take 128).length = 128 := by
    rw [List.length_take, Nat.min_eq_left h]
  rw [absorb, absorb, cutEvery_eq_cons (by decide) hne, List.foldl_cons]
  exact congrArg (List.foldl _ · _) (if_pos hblock)

/-- What follows is taken up behind the octets that fill no block. -/
theorem absorb_append (s : Words) (xs ys : List UInt8) :
    absorb s (xs ++ ys) = absorb (absorb s xs).1 ((absorb s xs).2 ++ ys) := by
  induction xs using drop_induction (by decide : 0 < 128) generalizing s with
  | nil => rfl
  | piece xs hne ih =>
    rcases Nat.lt_or_ge xs.length 128 with hlt | hge
    · rw [absorb_of_lt s hlt]
    · rw [absorb_of_le s hge, absorb_of_le s (by rw [List.length_append]; omega),
        List.take_append_of_le_length hge, List.drop_append_of_le_length hge, ih]

theorem absorb_of_dvd (s : Words) (h : 128 ∣ bytes.length) :
    (absorb s bytes).1 = (cutEvery 128 bytes).foldl compress s := by
  induction bytes using drop_induction (by decide : 0 < 128) generalizing s with
  | nil => rfl
  | piece bytes hne ih =>
    have hle : 128 ≤ bytes.length := Nat.le_of_dvd (List.length_pos_of_ne_nil hne) h
    have hrest : 128 ∣ (bytes.drop 128).length :=
      List.length_drop ▸ Nat.dvd_sub h (Nat.dvd_refl 128)
    rw [absorb_of_le s hle, cutEvery_eq_cons (by decide) hne, List.foldl_cons, ih _ hrest]

/-! ## A digest in the making -/

namespace Hasher

/-- The digest in the making of a message. -/
def of (message : List UInt8) : Hasher :=
  ⟨(absorb initial message).1, (absorb initial message).2, message.length⟩

theorem update_of (message piece : List UInt8) :
    (of message).update piece = of (message ++ piece) := by
  simp only [of, update, ← absorb_append, List.length_append]

theorem finish_of (message : List UInt8) : (of message).finish = digest message := by
  rw [finish, of, ← absorb_append, absorb_of_dvd _ (length_padded message), digest]

theorem foldl_update (pieces : List (List UInt8)) (message : List UInt8) :
    pieces.foldl update (of message) = of (message ++ pieces.flatten) := by
  induction pieces generalizing message with
  | nil => simp
  | cons piece pieces ih =>
    rw [List.foldl_cons, update_of, ih, List.flatten_cons, List.append_assoc]

end Hasher

theorem digestPieces_eq (pieces : List (List UInt8)) :
    digestPieces pieces = String.ofList (Text.hexOctets (digest pieces.flatten)) := by
  have hmade := Hasher.foldl_update pieces []
  rw [List.nil_append] at hmade
  rw [digestPieces, ← Hasher.finish_of, ← hmade]
  rfl

theorem flatten_cutEvery {α : Type} {size : Nat} (hsize : 0 < size) (xs : List α) :
    (cutEvery size xs).flatten = xs := by
  induction xs using drop_induction hsize with
  | nil => rfl
  | piece xs hne ih =>
    rw [cutEvery_eq_cons hsize hne, List.flatten_cons, ih, List.take_append_drop]

/-! ## Reading -/

/-- A content that is read to digest it: the digest in the making, and what has not been read. -/
structure Reading where
  hasher : Hasher
  rest : List UInt8

namespace Reading

/-- One turn of reading: a piece of the given size is read, shorter at the end of the content, and
taken up. There is no turn if what is read is empty. -/
def turn? (size : Nat) (r : Reading) : Option Reading :=
  let piece := r.rest.take size
  if piece = [] then none else some ⟨r.hasher.update piece, r.rest.drop size⟩

/-- Turns are taken until there is none. -/
inductive Ends (size : Nat) : Reading → Reading → Prop
  | done {r : Reading} (h : r.turn? size = none) : Ends size r r
  | turn {r next last : Reading} (h : r.turn? size = some next) (hlast : Ends size next last) :
    Ends size r last

/-- A reading of a content, somewhere between its start and its end. -/
def Within (content : List UInt8) (r : Reading) : Prop :=
  ∃ before, before ++ r.rest = content ∧ r.hasher = .of before

variable {size : Nat} {content : List UInt8} {r next last : Reading}

theorem turn?_of_ne_nil (hsize : 0 < size) (hne : r.rest ≠ []) :
    r.turn? size = some ⟨r.hasher.update (r.rest.take size), r.rest.drop size⟩ :=
  if_neg (by simp [hne, hsize.ne'])

/-- What a turn preserves. -/
theorem Within.turn (hr : r.Within content) (h : r.turn? size = some next) :
    next.Within content := by
  obtain ⟨before, rfl, hhasher⟩ := hr
  obtain ⟨-, hnext⟩ := Option.ite_none_left_eq_some.mp h
  obtain rfl := Option.some.inj hnext
  refine ⟨before ++ r.rest.take size, ?_, ?_⟩
  · rw [List.append_assoc, List.take_append_drop]
  · rw [hhasher, Hasher.update_of]

theorem Within.ends (hr : r.Within content) (h : Ends size r last) : last.Within content := by
  induction h with
  | done h => exact hr
  | turn h hlast ih => exact ih (hr.turn h)

/-- Reading ends when nothing is left, and not before. -/
theorem Ends.rest_eq_nil (hsize : 0 < size) (h : Ends size r last) : last.rest = [] := by
  induction h with
  | @done r h =>
    by_contra hne
    rw [turn?_of_ne_nil hsize hne] at h
    cases h
  | turn h hlast ih => exact ih

theorem exists_ends (hsize : 0 < size) (hasher : Hasher) (content : List UInt8) :
    ∃ last, Ends size ⟨hasher, content⟩ last := by
  induction content using drop_induction hsize generalizing hasher with
  | nil => exact ⟨_, .done (if_pos List.take_nil)⟩
  | piece content hne ih =>
    obtain ⟨last, hlast⟩ := ih (hasher.update (content.take size))
    exact ⟨last, .turn (turn?_of_ne_nil hsize hne) hlast⟩

theorem Ends.hasher_eq (hsize : 0 < size) (h : Ends size ⟨.empty, content⟩ last) :
    last.hasher = .of content := by
  obtain ⟨before, hcontent, hhasher⟩ := Within.ends ⟨[], rfl, rfl⟩ h
  rw [h.rest_eq_nil hsize, List.append_nil] at hcontent
  rw [hhasher, hcontent]
  rfl

end Reading

/-! ## Hexadecimal text -/

def hexDigits : List Char :=
  "0123456789abcdef".toList

theorem getD_hexDigits {n : Nat} (h : n < 16) :
    hexDigits.getD n '0' = Text.hexDigit n ∧ hexDigits.getD n '0' ∈ hexDigits := by
  have hall : ∀ n < 16, hexDigits.getD n '0' = Text.hexDigit n ∧
      hexDigits.getD n '0' ∈ hexDigits := by
    decide +kernel
  exact hall n h

/-- Each octet is two digits: its bits four by four. -/
theorem hexOctets_eq (bytes : List UInt8) :
    String.ofList (Text.hexOctets bytes) = Standard.hexadecimal (bitsOf bytes) := by
  have hdigit (n : Nat) : hexDigits.getD (number (binary 4 n)) '0' = Text.hexDigit (n % 16) := by
    rw [number_binary]
    exact (getD_hexDigits (Nat.mod_lt n (by decide))).1
  refine congrArg String.ofList ?_
  change _ = (parts 4 (bitsOf bytes)).map fun digit => hexDigits.getD (number digit) '0'
  induction bytes with
  | nil => rfl
  | cons b bytes ih =>
    rw [bitsOf_cons, binary_add 4 4, List.append_assoc,
      parts_append (by decide) (length_binary 4 _), parts_append (by decide) (length_binary 4 _),
      List.map_cons, List.map_cons, ← ih, hdigit, hdigit]
    rfl

theorem mem_hexDigits {bits : List Bool} {c : Char}
    (h : c ∈ (Standard.hexadecimal bits).toList) : c ∈ hexDigits := by
  rw [Standard.hexadecimal, String.toList_ofList] at h
  obtain ⟨digit, hdigit, rfl⟩ := List.mem_map.mp h
  have hlt := number_lt digit
  rw [length_of_mem_parts hdigit] at hlt
  exact (getD_hexDigits hlt).2

/-! ## What a content is compared with -/

/-- The digest of a content as the standard has it, in hexadecimal. -/
noncomputable def standardText (content : List UInt8) : String :=
  Standard.hexadecimal (Standard.hash (bitsOf content))

@[simp] theorem length_standardText (content : List UInt8) :
    (standardText content).length = 128 := by
  rw [standardText, length_hexadecimal, length_hash]

theorem hexOctets_digest (content : List UInt8) :
    String.ofList (Text.hexOctets (digest content)) = standardText content := by
  rw [hexOctets_eq, bitsOf_digest, standardText]

theorem digestPieces_cutEvery {size : Nat} (hsize : 0 < size) (content : List UInt8) :
    digestPieces (cutEvery size content) = standardText content := by
  rw [digestPieces_eq, flatten_cutEvery hsize, hexOctets_digest]

theorem ofContent_eq (content : List UInt8) : ofContent content = standardText content :=
  digestPieces_cutEvery (by decide) content

/-- A digest is compared to the same text in any case, and with white space around it. -/
theorem lower_strip_spelled (content : List UInt8) (spell : Char → Char) {before after : List Char}
    (hspell : (hexDigits.all fun c => (spell c).toLower == c && !Text.isBlank (spell c)) = true)
    (hbefore : before.all Text.isBlank = true) (hafter : after.all Text.isBlank = true) :
    Text.lower (Text.strip (String.ofList
      (before ++ ((standardText content).toList.map spell ++ after)))) = standardText content := by
  have hspell : ∀ c ∈ hexDigits, (spell c).toLower = c ∧ Text.isBlank (spell c) = false := by
    simpa using hspell
  have hsolid : ∀ c ∈ (standardText content).toList.map spell, Text.isBlank c = false := by
    intro c hc
    obtain ⟨digit, hdigit, rfl⟩ := List.mem_map.mp hc
    exact (hspell digit (mem_hexDigits hdigit)).2
  have htrimmed : Text.IsTrimmed ((standardText content).toList.map spell) :=
    ⟨fun c hc => hsolid c (List.mem_of_mem_head? hc),
      fun c hc => hsolid c (List.mem_reverse.mp (List.mem_of_mem_head? hc))⟩
  have hne : (standardText content).toList.map spell ≠ [] := by
    refine List.ne_nil_of_length_pos ?_
    rw [List.length_map, String.length_toList, length_standardText]
    decide
  have hlower : ((standardText content).toList.map spell).map Char.toLower =
      (standardText content).toList := by
    rw [List.map_map]
    exact (List.map_congr_left fun c hc => (hspell c (mem_hexDigits hc)).1).trans (List.map_id _)
  rw [Text.strip, String.toList_ofList, Text.trim_append hbefore hafter htrimmed hne, Text.lower,
    String.toList_ofList, hlower, String.ofList_toList]

theorem lower_strip_standardText (content : List UInt8) :
    Text.lower (Text.strip (standardText content)) = standardText content := by
  have hsame := lower_strip_spelled content id (by decide +kernel) List.all_nil List.all_nil
  rwa [List.map_id, List.append_nil, List.nil_append, String.ofList_toList] at hsame

/-- Reading a content in pieces of any size ends, with the digest that the standard gives to the
whole content: 128 small hexadecimal digits. The pieces in a row have the same digest. A content
matches just the texts that are this one once
white space around them is dropped and capitals are made small. -/
theorem reading_digests (content : List UInt8) {size : Nat} (hsize : 1 ≤ size) :
    (∃ last, Reading.Ends size ⟨.empty, content⟩ last) ∧
      (∀ last, Reading.Ends size ⟨.empty, content⟩ last →
        String.ofList (Text.hexOctets last.hasher.finish) = standardText content) ∧
      digestPieces (cutEvery size content) = standardText content ∧
      ofContent content = standardText content ∧
      (standardText content).length = 128 ∧
      (∀ c ∈ (standardText content).toList, c ∈ hexDigits) ∧
      (∀ expected, hasDigest content expected = true ↔
        Text.lower (Text.strip expected) = standardText content) ∧
      hasDigest content "" = false := by
  have hmatches (expected : String) : hasDigest content expected = true ↔
      Text.lower (Text.strip expected) = standardText content := by
    rw [hasDigest, decide_eq_true_iff, ofContent_eq, eq_comm]
  refine ⟨Reading.exists_ends hsize _ _, fun last hlast => ?_,
    digestPieces_cutEvery hsize content, ofContent_eq content, length_standardText content,
    fun c => mem_hexDigits, hmatches, ?_⟩
  · rw [hlast.hasher_eq hsize, Hasher.finish_of, hexOctets_digest]
  · -- an empty text stays empty
    rw [← Bool.not_eq_true, hmatches]
    intro hempty
    have hlength := length_standardText content
    rw [← hempty] at hlength
    exact absurd hlength (by decide)

-- The three octets that spell `abc`, in pieces of two.
theorem reading_digests_sample :
    let content : List UInt8 := [0x61, 0x62, 0x63]
    let text := "ddaf35a193617abacc417349ae20413112e6fa4e89a97ea20a9eeee64b55d39a" ++
      "2192992a274fc1a836ba3c23a3feebbd454d4423643ce80e2a9ac94fa54ca49f"
    1 ≤ 2 ∧ (∃ last, Reading.Ends 2 ⟨.empty, content⟩ last ∧
      String.ofList (Text.hexOctets last.hasher.finish) = text) ∧
      hasDigest content text = true := by
  intro content text
  have hsize : 1 ≤ 2 := by decide
  have htext : ofContent content = text := by decide +kernel
  obtain ⟨⟨last, hlast⟩, hdigest, -, hstandard, -, -, hmatches, -⟩ := reading_digests content hsize
  refine ⟨hsize, ⟨last, hlast, ?_⟩, (hmatches text).mpr ?_⟩
  · rw [hdigest last hlast, ← hstandard, htext]
  · rw [← htext, hstandard, lower_strip_standardText]

end BuildHook.Sha512
