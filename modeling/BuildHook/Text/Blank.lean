/-!
# White space and line breaks

The white space of a text is the Unicode set with bidirectional class WS, B or S or category Zs,
and the line breaks are the ten characters that end a line besides the carriage return.
-/

namespace BuildHook.Text

/-- White space: what `trim` removes and what a tag may hold around its colon. -/
def isBlank (c : Char) : Bool :=
  let n := c.toNat
  (9 ≤ n && n ≤ 13) || (28 ≤ n && n ≤ 32) || n == 0x85 || n == 0xa0 || n == 0x1680 ||
    (0x2000 ≤ n && n ≤ 0x200a) || n == 0x2028 || n == 0x2029 || n == 0x202f || n == 0x205f ||
    n == 0x3000

def trimEnd (cs : List Char) : List Char :=
  (cs.reverse.dropWhile isBlank).reverse

def trim (cs : List Char) : List Char :=
  trimEnd (cs.dropWhile isBlank)

/-- `trim` on strings. -/
def strip (s : String) : String :=
  String.ofList (trim s.toList)

/-- A text with its ASCII capitals made small; every other character stands for itself. -/
def lower (s : String) : String :=
  String.ofList (s.toList.map Char.toLower)

/-- A text in which each carriage return, with the line feed that may follow it, is one line
feed. -/
def foldReturns : List Char → List Char
  | [] => []
  | '\r' :: '\n' :: rest => '\n' :: foldReturns rest
  | c :: rest => (if c = '\r' then '\n' else c) :: foldReturns rest

theorem foldReturns_of_notMem {cs : List Char} (h : '\r' ∉ cs) : foldReturns cs = cs := by
  induction cs with
  | nil => rfl
  | cons c rest ih =>
    obtain ⟨hc, hrest⟩ := not_or.mp (mt List.mem_cons.mpr h)
    rw [foldReturns.eq_3 c rest (fun _ heq _ => hc heq.symm), if_neg (Ne.symm hc), ih hrest]

/-- The characters at which `lines` cuts. -/
def isLineBreak (c : Char) : Bool :=
  let n := c.toNat
  (10 ≤ n && n ≤ 13) || (28 ≤ n && n ≤ 30) || n == 0x85 || n == 0x2028 || n == 0x2029

theorem isBlank_of_isLineBreak {c : Char} (h : isLineBreak c = true) : isBlank c = true := by
  simp only [isLineBreak, Bool.or_eq_true, Bool.and_eq_true, decide_eq_true_eq, beq_iff_eq] at h
  simp only [isBlank, Bool.or_eq_true, Bool.and_eq_true, decide_eq_true_eq, beq_iff_eq]
  omega

/-- The lines of a text without their ends; a break at the very end opens no further line. -/
def lines : List Char → List (List Char)
  | [] => []
  | c :: rest =>
    if isLineBreak c then [] :: lines rest
    else
      match lines rest with
      | [] => [[c]]
      | line :: more => (c :: line) :: more

/-- The pieces between the occurrences of a separator; there is one more piece than there are
separators. -/
def pieces (separator : Char) : List Char → List (List Char)
  | [] => [[]]
  | c :: rest =>
    if c = separator then [] :: pieces separator rest
    else
      match pieces separator rest with
      | [] => [[c]]
      | piece :: more => (c :: piece) :: more

theorem pieces_eq_singleton {separator : Char} {cs : List Char} (h : separator ∉ cs) :
    pieces separator cs = [cs] := by
  induction cs with
  | nil => rfl
  | cons c rest ih =>
    rw [List.mem_cons, not_or] at h
    simp [pieces, ih h.2, Ne.symm h.1]

theorem pieces_append_cons {separator : Char} {piece : List Char} (h : separator ∉ piece)
    (rest : List Char) :
    pieces separator (piece ++ separator :: rest) = piece :: pieces separator rest := by
  induction piece with
  | nil => simp [pieces]
  | cons c piece ih =>
    rw [List.mem_cons, not_or] at h
    simp [pieces, ih h.2, Ne.symm h.1]

theorem pieces_intercalate {separator : Char} {texts : List (List Char)} (hne : texts ≠ [])
    (h : ∀ text ∈ texts, separator ∉ text) :
    pieces separator (List.intercalate [separator] texts) = texts := by
  induction texts with
  | nil => exact absurd rfl hne
  | cons text rest ih =>
    cases rest with
    | nil => simp [pieces_eq_singleton (h text (by simp))]
    | cons next more =>
      rw [List.intercalate_cons_cons, List.append_assoc, List.singleton_append,
        pieces_append_cons (h text (by simp)),
        ih (by simp) fun t ht => h t (List.mem_cons_of_mem _ ht)]

/-- The text before the first occurrence of a character, and the text after it if there is
one. -/
def cut (separator : Char) : List Char → List Char × Option (List Char)
  | [] => ([], none)
  | c :: rest =>
    if c = separator then ([], some rest)
    else
      let (before, after) := cut separator rest
      (c :: before, after)

end BuildHook.Text
