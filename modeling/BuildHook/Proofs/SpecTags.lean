import BuildHook.Proofs.Reading
import BuildHook.Proofs.Toml.Words
import Mathlib.Data.List.Forall2
import Mathlib.Data.Set.List

/-!
# Tags of spec files

A line of a spec file has a tag if it is written in one way: a word in any case, a number, a colon
and a value, with white space around the colon and behind the value. The reader of lines finds just
these tags, and what the text of a spec file gives is a matter of them alone.
-/

namespace BuildHook

open Toml (Stops dropWhile_of_stops stops_cons takeWhile_of_stops)

namespace Text

variable {kind : Char → Bool} {cs before value after : List Char}

theorem stops_dropWhile (kind : Char → Bool) (cs : List Char) : Stops kind (cs.dropWhile kind) := by
  intro c hc
  have hhead := List.head?_dropWhile_not kind cs
  rw [Option.mem_def] at hc
  rwa [hc] at hhead

theorem stops_append (hne : cs ≠ []) (h : Stops kind cs) (rest : List Char) :
    Stops kind (cs ++ rest) := by
  rw [Stops, List.head?_append_of_ne_nil _ hne]
  exact h

/-- Whether a text neither begins nor ends with white space. -/
def IsTrimmed (cs : List Char) : Prop :=
  Stops isBlank cs ∧ Stops isBlank cs.reverse

theorem trim_append (hbefore : before.all isBlank = true) (hafter : after.all isBlank = true)
    (hvalue : IsTrimmed value) (hne : value ≠ []) : trim (before ++ (value ++ after)) = value := by
  have hreverse : after.reverse.all isBlank = true := by rwa [List.all_reverse]
  rw [trim, dropWhile_of_stops hbefore (stops_append hne hvalue.1 after), trimEnd,
    List.reverse_append, dropWhile_of_stops hreverse hvalue.2, List.reverse_reverse]

/-- What is cut off a text is white space, and nothing more can be cut off. -/
theorem exists_trim (cs : List Char) : ∃ before after, cs = before ++ (trim cs ++ after) ∧
    before.all isBlank = true ∧ after.all isBlank = true ∧ IsTrimmed (trim cs) := by
  have hfront := @List.takeWhile_append_dropWhile _ isBlank cs
  generalize htail : cs.dropWhile isBlank = tail at hfront
  have hback : trimEnd tail ++ (tail.reverse.takeWhile isBlank).reverse = tail := by
    rw [trimEnd, ← List.reverse_append, List.takeWhile_append_dropWhile, List.reverse_reverse]
  have htrim : trim cs = trimEnd tail := by rw [trim, htail]
  refine ⟨cs.takeWhile isBlank, (tail.reverse.takeWhile isBlank).reverse, ?_, List.all_takeWhile,
    ?_, ?_, ?_⟩
  · rw [htrim, hback, hfront]
  · rw [List.all_reverse]
    exact List.all_takeWhile
  · rw [htrim]
    intro c hc
    have hstops : Stops isBlank tail := htail ▸ stops_dropWhile isBlank cs
    have hne : trimEnd tail ≠ [] := by
      intro hnil
      rw [hnil] at hc
      cases hc
    apply hstops c
    rw [← hback, List.head?_append_of_ne_nil _ hne]
    exact hc
  · rw [htrim, trimEnd, List.reverse_reverse]
    exact stops_dropWhile isBlank _

-- What is read up to a character of another kind is the same however it is read.
theorem append_inj_of_stops {xs ys rest rest' : List Char} (hxs : xs.all kind = true)
    (hys : ys.all kind = true) (hrest : Stops kind rest) (hrest' : Stops kind rest')
    (h : xs ++ rest = ys ++ rest') : xs = ys ∧ rest = rest' := by
  constructor
  · rw [← takeWhile_of_stops hxs hrest, h, takeWhile_of_stops hys hrest']
  · rw [← dropWhile_of_stops hxs hrest, h, dropWhile_of_stops hys hrest']

theorem toLower_eq_iff {letter c : Char} (h : letter.isLower) :
    c.toLower = letter ↔ c = letter ∨ c = letter.toUpper := by
  have hletter : letter.val ≥ 'a'.val ∧ letter.val ≤ 'z'.val := by
    delta Char.isLower at h
    rwa [Bool.and_eq_true, decide_eq_true_eq, decide_eq_true_eq] at h
  have hupper : letter.toUpper.val = letter.val - 32 := by
    delta Char.toUpper
    rw [dif_pos hletter]
    grind
  rw [Char.ext_iff, Char.ext_iff, Char.ext_iff, hupper]
  delta Char.toLower
  split <;> grind

end Text

namespace Spec

/-! ## The grammar of tags -/

/-- What a tag is for. -/
inductive TagWord where
  | source
  | patch
  deriving DecidableEq, Repr

def TagWord.letters : TagWord → List Char
  | .source => sourceWord
  | .patch => patchWord

/-- A letter is spelled small or as a capital, and the letter s also long. -/
def IsSpelling (letter c : Char) : Prop :=
  c = letter ∨ c = letter.toUpper ∨ (letter = 's' ∧ c = 'ſ')

/-- A line with a tag, by its parts. -/
@[ext]
structure TagLine where
  word : TagWord
  spelled : List Char
  number : List Char
  gap : List Char
  before : List Char
  value : List Char
  after : List Char
  spells : List.Forall₂ IsSpelling word.letters spelled
  isNumber : number.all Text.isDecimalDigit = true
  isGap : gap.all Text.isBlank = true
  isBefore : before.all Text.isBlank = true
  isAfter : after.all Text.isBlank = true
  isTrimmed : Text.IsTrimmed value
  isGiven : value ≠ []

namespace TagLine

/-- The line without what stands in front of its colon. -/
def tail (tag : TagLine) : List Char :=
  tag.before ++ (tag.value ++ tag.after)

def chars (tag : TagLine) : List Char :=
  tag.spelled ++ (tag.number ++ (tag.gap ++ ':' :: tag.tail))

/-- Whether the word begins with the long s. -/
def isLong (tag : TagLine) : Bool :=
  tag.spelled.head? = some 'ſ'

/-- The tag that the line has. Only a word without a long s counts as the one for sources. -/
def tag (line : TagLine) : Tag :=
  ⟨decide (line.word = .source) && !line.isLong, String.ofList line.value⟩

end TagLine

variable {line rest value : List Char} {tag : Tag} {word : List Char}

/-! ## Words -/

theorem isLetter_iff {letter c : Char} (h : letter.isLower) :
    isLetter letter c = true ↔ IsSpelling letter c := by
  rw [isLetter, IsSpelling, ← or_assoc, ← Text.toLower_eq_iff h]
  simp

-- In small letters a word without s is the same however it is spelled.
theorem map_toLower_of_spells {spelled : List Char} (hlower : word.all Char.isLower = true)
    (hs : 's' ∉ word) (h : List.Forall₂ IsSpelling word spelled) :
    spelled.map Char.toLower = word := by
  induction h with
  | nil => rfl
  | @cons letter c word spelled hc _ ih =>
    rw [List.all_cons, Bool.and_eq_true] at hlower
    obtain ⟨hletter, hlower⟩ := hlower
    rw [List.mem_cons, not_or] at hs
    rw [List.map_cons, ih hlower hs.2]
    congr 1
    rcases hc with hc | hc | ⟨hlong, -⟩
    · exact (Text.toLower_eq_iff hletter).mpr (.inl hc)
    · exact (Text.toLower_eq_iff hletter).mpr (.inr hc)
    · exact absurd hlong.symm hs.1

theorem all_isLower (word : TagWord) : word.letters.all Char.isLower = true := by
  cases word <;> decide

theorem afterWord?_eq_some (h : word.all Char.isLower = true) :
    afterWord? word line = some rest ↔
      ∃ spelled, line = spelled ++ rest ∧ List.Forall₂ IsSpelling word spelled := by
  induction word generalizing line with
  | nil => simp [afterWord?, List.forall₂_nil_left_iff]
  | cons letter word ih =>
    rw [List.all_cons, Bool.and_eq_true] at h
    obtain ⟨hletter, hword⟩ := h
    cases line with
    | nil => simp [afterWord?, List.forall₂_cons_left_iff]
    | cons c line =>
      rw [afterWord?]
      constructor
      · intro hread
        split at hread
        · next hc =>
          obtain ⟨spelled, rfl, hspelled⟩ := (ih hword).mp hread
          exact ⟨c :: spelled, rfl, .cons ((isLetter_iff hletter).mp hc) hspelled⟩
        · cases hread
      · rintro ⟨spelled, hline, hspelled⟩
        obtain ⟨d, spelled, hd, htail, rfl⟩ := List.forall₂_cons_left_iff.mp hspelled
        obtain ⟨rfl, rfl⟩ := List.cons.inj hline
        rw [if_pos ((isLetter_iff hletter).mpr hd)]
        exact (ih hword).mpr ⟨spelled, rfl, htail⟩

/-- The letter that a word begins with. -/
def TagWord.initial : TagWord → Char
  | .source => 's'
  | .patch => 'p'

theorem head?_of_spells {word : TagWord} {spelled : List Char}
    (h : List.Forall₂ IsSpelling word.letters spelled) (rest : List Char) :
    ∃ c, (spelled ++ rest).head? = some c ∧ IsSpelling word.initial c := by
  cases word <;> obtain ⟨c, more, hc, -, rfl⟩ := List.forall₂_cons_left_iff.mp h <;> exact ⟨c, rfl, hc⟩

-- The two words differ in their first letter, however it is spelled.
theorem word_unique {first second : TagWord} {spelled spelled' rest' : List Char}
    (h : List.Forall₂ IsSpelling first.letters spelled)
    (h' : List.Forall₂ IsSpelling second.letters spelled')
    (heq : spelled ++ rest = spelled' ++ rest') : first = second := by
  have hapart : ∀ c, IsSpelling 's' c → ¬ IsSpelling 'p' c := by
    rintro c (rfl | rfl | ⟨-, rfl⟩) <;> unfold IsSpelling <;> decide
  obtain ⟨c, hhead, hc⟩ := head?_of_spells h rest
  obtain ⟨c', hhead', hc'⟩ := head?_of_spells h' rest'
  rw [heq, hhead'] at hhead
  obtain rfl := Option.some.inj hhead
  cases first <;> cases second
  · rfl
  · exact absurd hc' (hapart _ hc)
  · exact absurd hc (hapart _ hc')
  · rfl

theorem afterTagWord?_eq_some :
    afterTagWord? line = some rest ↔ ∃ (word : TagWord) (spelled : List Char),
      line = spelled ++ rest ∧ List.Forall₂ IsSpelling word.letters spelled := by
  have hread : ∀ (word : TagWord) (rest : List Char), afterWord? word.letters line = some rest ↔
      ∃ spelled, line = spelled ++ rest ∧ List.Forall₂ IsSpelling word.letters spelled :=
    fun word rest => afterWord?_eq_some (all_isLower word)
  rw [afterTagWord?, Option.or_eq_some_iff]
  constructor
  · rintro (hsource | ⟨-, hpatch⟩)
    · exact ⟨.source, (hread .source rest).mp hsource⟩
    · exact ⟨.patch, (hread .patch rest).mp hpatch⟩
  · rintro ⟨word, spelled, rfl, hspelled⟩
    cases word with
    | source => exact .inl ((hread .source rest).mpr ⟨spelled, rfl, hspelled⟩)
    | patch =>
      refine .inr ⟨?_, (hread .patch rest).mpr ⟨spelled, rfl, hspelled⟩⟩
      rw [Option.eq_none_iff_forall_ne_some]
      intro rest' hsource
      obtain ⟨spelled', heq, hspelled'⟩ := (hread .source rest').mp hsource
      cases word_unique hspelled hspelled' heq

/-! ## Lines -/

-- Behind a number and white space the reader stops at the colon.
theorem stops_colon (gap tail : List Char) (hgap : gap.all Text.isBlank = true) :
    Stops Text.isDecimalDigit (gap ++ ':' :: tail) := by
  cases gap with
  | nil => exact stops_cons.mpr (by decide)
  | cons c gap =>
    rw [List.all_cons, Bool.and_eq_true] at hgap
    exact stops_cons.mpr (Text.isDecimalDigit_of_isBlank hgap.1)

theorem valueAfter?_eq_some :
    valueAfter? rest = some value ↔ ∃ number gap tail, rest = number ++ (gap ++ ':' :: tail) ∧
      number.all Text.isDecimalDigit = true ∧ gap.all Text.isBlank = true ∧
      value = Text.trim tail ∧ value ≠ [] := by
  constructor
  · intro h
    have hnumber := @List.takeWhile_append_dropWhile _ Text.isDecimalDigit rest
    have hgap := @List.takeWhile_append_dropWhile _ Text.isBlank (rest.dropWhile Text.isDecimalDigit)
    unfold valueAfter? at h
    split at h
    · next tail htail =>
      dsimp only at h
      split at h
      · cases h
      · next hne =>
        rw [htail] at hgap
        refine ⟨rest.takeWhile Text.isDecimalDigit,
          (rest.dropWhile Text.isDecimalDigit).takeWhile Text.isBlank, tail, ?_,
          List.all_takeWhile, List.all_takeWhile, (Option.some.inj h).symm, ?_⟩
        · rw [hgap, hnumber]
        · rintro rfl
          exact hne (by rw [Option.some.inj h]; rfl)
    · cases h
  · rintro ⟨number, gap, tail, rfl, hnumber, hgap, rfl, hne⟩
    have hcolon : Stops Text.isBlank (':' :: tail) := stops_cons.mpr (by decide)
    rw [valueAfter?, dropWhile_of_stops hnumber (stops_colon gap tail hgap),
      dropWhile_of_stops hgap hcolon]
    exact if_neg (by simpa using hne)

namespace TagLine

theorem trim_tail (l : TagLine) : Text.trim l.tail = l.value :=
  Text.trim_append l.isBefore l.isAfter l.isTrimmed l.isGiven

/-- A line has the parts of a tag in one way only. -/
theorem chars_injective : Function.Injective chars := by
  intro l l' h
  have hword := word_unique l.spells l'.spells h
  have hlength : l.spelled.length = l'.spelled.length := by
    rw [← l.spells.length_eq, hword, l'.spells.length_eq]
  obtain ⟨hspelled, hrest⟩ := List.append_inj h hlength
  obtain ⟨hnumber, hrest⟩ := Text.append_inj_of_stops l.isNumber l'.isNumber
    (stops_colon _ _ l.isGap) (stops_colon _ _ l'.isGap) hrest
  have hcolon : ∀ tail, Stops Text.isBlank (':' :: tail) := fun _ => stops_cons.mpr (by decide)
  obtain ⟨hgap, htail⟩ :=
    Text.append_inj_of_stops l.isGap l'.isGap (hcolon _) (hcolon _) hrest
  have htail : l.tail = l'.tail := (List.cons.inj htail).2
  have hvalue : l.value = l'.value := by rw [← l.trim_tail, htail, l'.trim_tail]
  obtain ⟨hbefore, hafter⟩ := Text.append_inj_of_stops l.isBefore l'.isBefore
    (Text.stops_append l.isGiven l.isTrimmed.1 _) (Text.stops_append l'.isGiven l'.isTrimmed.1 _)
    htail
  rw [hvalue] at hafter
  exact TagLine.ext hword hspelled hnumber hgap hbefore hvalue (List.append_cancel_left hafter)

/-- In small letters a word is the plain one for sources unless it is for patches or begins with the
long s, which is small already. -/
theorem map_toLower (l : TagLine) :
    decide (l.spelled.map Char.toLower = sourceWord) = (decide (l.word = .source) && !l.isLong) := by
  have hspells := l.spells
  rw [isLong]
  generalize l.spelled = spelled at hspells ⊢
  generalize l.word = word at hspells ⊢
  cases word with
  | source =>
    obtain ⟨c, more, hc, hmore, rfl⟩ := List.forall₂_cons_left_iff.mp hspells
    have hrest : more.map Char.toLower = ['o', 'u', 'r', 'c', 'e'] :=
      map_toLower_of_spells (by decide) (by decide) hmore
    rw [List.map_cons, hrest, List.head?_cons]
    rcases hc with rfl | rfl | ⟨-, rfl⟩ <;> decide
  | patch =>
    have hpatch : spelled.map Char.toLower = patchWord :=
      map_toLower_of_spells (by decide) (by decide) hspells
    rw [hpatch]
    rfl

end TagLine

/-- The reader of lines finds just the tags of the grammar. -/
theorem tag?_eq_some : tag? line = some tag ↔ ∃ l : TagLine, l.chars = line ∧ l.tag = tag := by
  have hread : tag? line = some tag ↔ ∃ rest value, afterTagWord? line = some rest ∧
      valueAfter? rest = some value ∧
      ⟨decide ((line.take (line.length - rest.length)).map Char.toLower = sourceWord),
        String.ofList value⟩ = tag := by
    simp only [tag?, Option.bind_eq_bind, Option.bind_eq_some_iff, Option.pure_def,
      Option.some.injEq]
    constructor
    · rintro ⟨rest, hrest, value, hvalue, rfl⟩
      exact ⟨rest, value, hrest, hvalue, rfl⟩
    · rintro ⟨rest, value, hrest, hvalue, rfl⟩
      exact ⟨rest, hrest, value, hvalue, rfl⟩
  have htake : ∀ spelled rest : List Char,
      (spelled ++ rest).take ((spelled ++ rest).length - rest.length) = spelled := by
    intro spelled rest
    rw [List.length_append, Nat.add_sub_cancel, List.take_left]
  rw [hread]
  constructor
  · rintro ⟨rest, value, hrest, hvalue, rfl⟩
    obtain ⟨word, spelled, rfl, hspelled⟩ := afterTagWord?_eq_some.mp hrest
    obtain ⟨number, gap, tail, rfl, hnumber, hgap, rfl, hne⟩ := valueAfter?_eq_some.mp hvalue
    obtain ⟨before, after, htail, hbefore, hafter, htrimmed⟩ := Text.exists_trim tail
    let l : TagLine := ⟨word, spelled, number, gap, before, Text.trim tail, after, hspelled,
      hnumber, hgap, hbefore, hafter, htrimmed, hne⟩
    have hchars : l.chars = spelled ++ (number ++ (gap ++ ':' :: tail)) := by
      rw [TagLine.chars, show l.tail = tail from htail.symm]
    refine ⟨l, hchars, ?_⟩
    rw [htake, l.map_toLower]
    rfl
  · rintro ⟨l, rfl, rfl⟩
    refine ⟨l.number ++ (l.gap ++ ':' :: l.tail), l.value,
      afterTagWord?_eq_some.mpr ⟨l.word, l.spelled, rfl, l.spells⟩,
      valueAfter?_eq_some.mpr ⟨l.number, l.gap, l.tail, rfl, l.isNumber, l.isGap,
        l.trim_tail.symm, l.isGiven⟩, ?_⟩
    rw [TagLine.chars, htake, l.map_toLower]
    rfl

/-! ## Texts -/

/-- The name to which a value is reduced: the last step of the path of an address with a scheme and a
network location, and of the value itself otherwise. What is no address at all has no name. -/
def nameOf (value : String) : String :=
  match Url.parse value with
  | .error _ => ""
  | .ok url => (Path.ofString (if url.scheme ≠ "" ∧ url.location ≠ "" then url.path else value)).name

theorem fileName_of_parse {value : String} (h : (Url.parse value).isOk = true) :
    fileName value = .ok (nameOf value) := by
  unfold fileName nameOf
  cases hparse : Url.parse value with
  | error fault => rw [hparse] at h; cases h
  | ok url =>
    change Except.ok _ = Except.ok _
    by_cases hweb : url.scheme ≠ "" ∧ url.location ≠ "" <;> simp [hweb, Url.fileName]

/-- The name that a tag gives. -/
def TagLine.name (l : TagLine) : String :=
  nameOf (String.ofList l.value)

/-- The lines with tags among numbered ones, in their order. -/
structure Tagged (lines : List (List Char × Nat)) (tags : List (Nat × TagLine)) : Prop where
  ascending : tags.Pairwise fun x y => x.1 < y.1
  complete : ∀ number l, (number, l) ∈ tags ↔ (l.chars, number) ∈ lines

variable {path : Path} {spec spec' : Spec} {tags : List (Nat × TagLine)}
  {lines : List (List Char × Nat)}

/-- A line with a tag as one of a text. -/
def numbered (entry : Nat × TagLine) : List Char × Nat :=
  (entry.2.chars, entry.1)

/-- The file that a tag names next to a spec file. -/
def fileOf (path : Path) (entry : Nat × TagLine) : Path :=
  path.parent.child entry.2.name

theorem exists_tagged (hlines : lines.Pairwise fun x y => x.2 < y.2) :
    ∃ tags, Tagged lines tags ∧
      tags.map numbered = lines.filter fun line => (tag? line.1).isSome := by
  have hrange : (lines.filter fun line => (tag? line.1).isSome) ∈ Set.range (List.map numbered) := by
    rw [Set.range_list_map]
    intro line hline
    obtain ⟨tag, htag⟩ := Option.isSome_iff_exists.mp (List.mem_filter.mp hline).2
    obtain ⟨l, hl, -⟩ := tag?_eq_some.mp htag
    exact ⟨(line.2, l), Prod.ext hl rfl⟩
  obtain ⟨tags, htags⟩ := hrange
  refine ⟨tags, ⟨?_, fun number l => ?_⟩, htags⟩
  · have hascending := hlines.sublist (List.filter_sublist (p := fun line => (tag? line.1).isSome))
    rw [← htags, List.pairwise_map] at hascending
    exact hascending
  · have hmem : (l.chars, number) ∈ tags.map numbered ↔ (l.chars, number) ∈ lines := by
      rw [htags, List.mem_filter]
      simp [tag?_eq_some.mpr ⟨l, rfl, rfl⟩]
    rw [← hmem, List.mem_map]
    constructor
    · intro h
      exact ⟨_, h, rfl⟩
    · rintro ⟨⟨number', l'⟩, h, heq⟩
      obtain ⟨hchars, rfl⟩ := Prod.mk.inj heq
      rwa [← TagLine.chars_injective hchars]

-- Lines without a tag leave what was read before them as it is.
theorem foldlM_addLine (htags : tags.map numbered = lines.filter fun line => (tag? line.1).isSome) :
    lines.foldlM (addLine path) spec = (tags.map numbered).foldlM (addLine path) spec := by
  rw [htags, List.foldlM_filter]
  congr 1
  funext spec line
  split
  · rfl
  · next hnone =>
    rw [addLine, Option.not_isSome_iff_eq_none.mp hnone]
    rfl

theorem addLine_numbered {entry : Nat × TagLine}
    (h : (Url.parse (String.ofList entry.2.value)).isOk = true) :
    addLine path spec (numbered entry) =
      if entry.2.name = "" then
        .error (.spec path (.nameless entry.1 (String.ofList entry.2.chars)))
      else .ok (spec.add (entry.2.tag.isSource) (fileOf path entry)) := by
  have htag : tag? (numbered entry).1 = some entry.2.tag := tag?_eq_some.mpr ⟨_, rfl, rfl⟩
  have hname : fileName entry.2.tag.value = .ok entry.2.name := fileName_of_parse h
  simp only [addLine, htag, hname]
  rfl

-- A line with a tag that is taken has a name.
theorem named_of_addLine {entry : Nat × TagLine} (h : addLine path spec (numbered entry) = .ok spec') :
    (Url.parse (String.ofList entry.2.value)).isOk = true ∧ entry.2.name ≠ "" := by
  have hurl : (Url.parse (String.ofList entry.2.value)).isOk = true := by
    have htag : tag? (numbered entry).1 = some entry.2.tag := tag?_eq_some.mpr ⟨_, rfl, rfl⟩
    cases hparse : Url.parse (String.ofList entry.2.value) with
    | ok url => rfl
    | error fault =>
      have hname : fileName entry.2.tag.value = .error fault := by
        rw [fileName, show Url.parse entry.2.tag.value = .error fault from hparse]
        rfl
      simp only [addLine, htag, hname] at h
      cases h
  refine ⟨hurl, fun hname => ?_⟩
  rw [addLine_numbered hurl, if_pos hname] at h
  cases h

theorem named_of_foldlM (h : (tags.map numbered).foldlM (addLine path) spec = .ok spec') :
    ∀ entry ∈ tags, (Url.parse (String.ofList entry.2.value)).isOk = true ∧ entry.2.name ≠ "" := by
  induction tags generalizing spec with
  | nil => exact List.forall_mem_nil _
  | cons entry tags ih =>
    rw [List.map_cons, List.foldlM_cons] at h
    obtain ⟨next, hnext, h⟩ := Run.result_bind_eq_ok.mp h
    exact List.forall_mem_cons.mpr ⟨named_of_addLine hnext, ih h⟩

/-- Tags that have names give their files in order, each on one side. -/
theorem foldlM_numbered
    (hurls : ∀ entry ∈ tags, (Url.parse (String.ofList entry.2.value)).isOk = true)
    (hnames : ∀ entry ∈ tags, entry.2.name ≠ "") :
    (tags.map numbered).foldlM (addLine path) spec =
      .ok ⟨spec.sources ++ (tags.filter fun entry => entry.2.tag.isSource).map (fileOf path),
        spec.patches ++ (tags.filter fun entry => !entry.2.tag.isSource).map (fileOf path)⟩ := by
  induction tags generalizing spec with
  | nil => simp [pure, Except.pure]
  | cons entry tags ih =>
    obtain ⟨hurl, hurls⟩ := List.forall_mem_cons.mp hurls
    obtain ⟨hname, hnames⟩ := List.forall_mem_cons.mp hnames
    rw [List.map_cons, List.foldlM_cons, addLine_numbered hurl, if_neg hname]
    refine (ih hurls hnames).trans ?_
    cases hside : entry.2.tag.isSource <;> simp [add, hside]

theorem exec_read_ofText {s : Session} {bytes : List UInt8} {text : List Char}
    (hread : Files.read s.tree s.current path = .ok bytes) (htext : Utf8.decode bytes = .ok text) :
    (Run.exec (read path) s).1 = ofText path text := by
  have hcontent : s.content (fun fault => .spec path (.unreadable fault)) path = .ok bytes := by
    rw [Session.content, hread]
    rfl
  rw [exec_read, Session.spec, hcontent]
  simp only [bind, Except.bind, htext, Except.mapError]
  cases ofText path text <;> rfl

theorem ascending_zipIdx {α : Type} (xs : List α) (n : Nat) :
    (xs.zipIdx n).Pairwise fun x y => x.2 < y.2 := by
  have h : ((xs.zipIdx n).map Prod.snd).Pairwise (· < ·) := by
    rw [List.zipIdx_map_snd]
    exact List.pairwise_lt_range'
  exact List.pairwise_map.mp h

variable {s : Session} {bytes : List UInt8} {text : List Char}

/-- The lines of a spec file that count are those with a tag of the grammar, each for its value. If
all their values come to a name, each gives the file of its name next to the spec file, on one side
and in the order of the lines. Otherwise the first line whose value does not is told by number. -/
theorem tags_recognised (hread : Files.read s.tree s.current path = .ok bytes)
    (htext : Utf8.decode bytes = .ok text)
    (hurls : ∀ l : TagLine, l.chars ∈ Text.lines (Text.foldReturns text) →
      (Url.parse (String.ofList l.value)).isOk = true) :
    let lines := (Text.lines (Text.foldReturns text)).zipIdx 1
    let result := (Run.exec (read path) s).1
    (∀ line value, (∃ isSource, tag? line = some ⟨isSource, value⟩) ↔
      ∃ l : TagLine, l.chars = line ∧ String.ofList l.value = value) ∧
    ∃ tags, Tagged lines tags ∧
      ((∀ entry ∈ tags, entry.2.name ≠ "") → ∃ side : Nat × TagLine → Bool,
        result = .ok ⟨(tags.filter side).map (fileOf path),
          (tags.filter fun entry => !side entry).map (fileOf path)⟩) ∧
      ∀ before entry after, tags = before ++ entry :: after →
        (∀ other ∈ before, other.2.name ≠ "") → entry.2.name = "" →
        result = .error (.spec path (.nameless entry.1 (String.ofList entry.2.chars))) := by
  intro lines result
  obtain ⟨tags, htagged, htags⟩ := exists_tagged (ascending_zipIdx _ 1 : lines.Pairwise _)
  have hresult : result = (tags.map numbered).foldlM (addLine path) ⟨[], []⟩ := by
    rw [show result = _ from exec_read_ofText hread htext, ofText, foldlM_addLine htags]
  have hurls : ∀ entry ∈ tags, (Url.parse (String.ofList entry.2.value)).isOk = true := by
    intro entry hentry
    exact hurls entry.2 (List.fst_mem_of_mem_zipIdx ((htagged.complete _ _).mp hentry))
  refine ⟨fun line value => ?_, tags, htagged, fun hnames => ?_, ?_⟩
  · constructor
    · rintro ⟨isSource, htag⟩
      obtain ⟨l, hl, htag⟩ := tag?_eq_some.mp htag
      exact ⟨l, hl, congrArg Tag.value htag⟩
    · rintro ⟨l, hl, rfl⟩
      exact ⟨l.tag.isSource, tag?_eq_some.mpr ⟨l, hl, rfl⟩⟩
  · exact ⟨fun entry => entry.2.tag.isSource, hresult.trans (foldlM_numbered hurls hnames)⟩
  · rintro before entry after rfl hnames hname
    obtain ⟨hbefore, hrest⟩ := List.forall_mem_append.mp hurls
    rw [hresult, List.map_append, List.foldlM_append, foldlM_numbered hbefore hnames, List.map_cons]
    change List.foldlM _ _ _ = _
    rw [List.foldlM_cons, addLine_numbered (hrest entry List.mem_cons_self), if_pos hname]
    rfl

-- It is enough to look at the tags that are found.
theorem urls_of_all {lines : List (List Char)}
    (h : (lines.all fun line => (tag? line).all fun tag => (Url.parse tag.value).isOk) = true) :
    ∀ l : TagLine, l.chars ∈ lines → (Url.parse (String.ofList l.value)).isOk = true := by
  intro l hl
  have hline := List.all_eq_true.mp h l.chars hl
  rwa [tag?_eq_some.mpr ⟨l, rfl, rfl⟩] at hline

-- A folder with a spec file of this text.
def holding (text : String) : Tree where
  entries := [(["r"], .folder), (["r", "p.spec"], .file (Utf8.ofString text))]
  distinct := by simp

def mixedTags : String :=
  "Source0: https://h/d/a.tgz?x#y\r\nName: p\n Source1: b\u2028pATCH\u0663\t:\u00a0c \nſource:d"

theorem tags_recognised_sample :
    let path := Path.ofString "p.spec"
    let s := Session.fresh (holding mixedTags) ["r"]
    let lines := Text.lines (Text.foldReturns mixedTags.toList)
    let result := (Run.exec (read path) s).1
    Files.read s.tree s.current path = .ok (Utf8.ofString mixedTags) ∧
    Utf8.decode (Utf8.ofString mixedTags) = .ok mixedTags.toList ∧
    (∀ l : TagLine, l.chars ∈ lines → (Url.parse (String.ofList l.value)).isOk = true) ∧
    (∃ tags, Tagged (lines.zipIdx 1) tags ∧
      ((∀ entry ∈ tags, entry.2.name ≠ "") → ∃ side : Nat × TagLine → Bool,
        result = .ok ⟨(tags.filter side).map (fileOf path),
          (tags.filter fun entry => !side entry).map (fileOf path)⟩)) ∧
    result.toOption = some ⟨[Path.ofString "a.tgz"], [Path.ofString "c", Path.ofString "d"]⟩ := by
  intro path s lines result
  have hread : Files.read s.tree s.current path = .ok (Utf8.ofString mixedTags) := by
    decide +kernel
  have htext : Utf8.decode (Utf8.ofString mixedTags) = .ok mixedTags.toList := by decide +kernel
  have hurls : ∀ l : TagLine, l.chars ∈ lines → (Url.parse (String.ofList l.value)).isOk = true :=
    urls_of_all (by decide +kernel)
  obtain ⟨-, tags, htagged, hnamed, -⟩ := tags_recognised hread htext hurls
  exact ⟨hread, htext, hurls, ⟨tags, htagged, hnamed⟩, by decide +kernel⟩

/-- In a spec file that is taken, the tags with the word for sources give the sources and those with
the word for patches the patches, except that a word which begins with the long s, though it is read
as the word for sources, counts as one for patches. -/
theorem tags_sorted (hread : Files.read s.tree s.current path = .ok bytes)
    (htext : Utf8.decode bytes = .ok text) (hspec : (Run.exec (read path) s).1 = .ok spec) :
    ∃ tags, Tagged ((Text.lines (Text.foldReturns text)).zipIdx 1) tags ∧
      spec.sources = (tags.filter fun entry =>
        decide (entry.2.word = .source) && !entry.2.isLong).map (fileOf path) ∧
      spec.patches = (tags.filter fun entry =>
        decide (entry.2.word = .patch) || entry.2.isLong).map (fileOf path) ∧
      ((∀ entry ∈ tags, entry.2.isLong = false) →
        spec.sources = (tags.filter fun entry => decide (entry.2.word = .source)).map (fileOf path) ∧
        spec.patches =
          (tags.filter fun entry => decide (entry.2.word = .patch)).map (fileOf path)) := by
  obtain ⟨tags, htagged, htags⟩ :=
    exists_tagged (ascending_zipIdx (Text.lines (Text.foldReturns text)) 1)
  rw [exec_read_ofText hread htext, ofText, foldlM_addLine htags] at hspec
  have hnamed := named_of_foldlM hspec
  rw [foldlM_numbered (fun entry hentry => (hnamed entry hentry).1)
    fun entry hentry => (hnamed entry hentry).2] at hspec
  have hsources : spec.sources = (tags.filter fun entry => entry.2.tag.isSource).map (fileOf path) :=
    (congrArg sources (Except.ok.inj hspec)).symm.trans (List.nil_append _)
  have hpatches : spec.patches =
      (tags.filter fun entry => decide (entry.2.word = .patch) || entry.2.isLong).map
        (fileOf path) := by
    have hside : ∀ l : TagLine, (!l.tag.isSource) = (decide (l.word = .patch) || l.isLong) := by
      intro l
      rw [TagLine.tag, Bool.not_and, Bool.not_not]
      cases l.word <;> rfl
    refine (congrArg patches (Except.ok.inj hspec)).symm.trans ?_
    simp only [List.nil_append, hside]
  refine ⟨tags, htagged, hsources, hpatches, fun hplain => ?_⟩
  rw [hsources, hpatches]
  constructor <;> congr 1 <;> refine List.filter_congr fun entry hentry => ?_
  · rw [TagLine.tag, hplain entry hentry, Bool.not_false, Bool.and_true]
  · rw [hplain entry hentry, Bool.or_false]

theorem tags_sorted_sample :
    let path := Path.ofString "p.spec"
    let s := Session.fresh (holding mixedTags) ["r"]
    let spec : Spec := ⟨[Path.ofString "a.tgz"], [Path.ofString "c", Path.ofString "d"]⟩
    Files.read s.tree s.current path = .ok (Utf8.ofString mixedTags) ∧
    Utf8.decode (Utf8.ofString mixedTags) = .ok mixedTags.toList ∧
    (Run.exec (read path) s).1 = .ok spec ∧
    ∃ tags, Tagged ((Text.lines (Text.foldReturns mixedTags.toList)).zipIdx 1) tags ∧
      spec.sources = (tags.filter fun entry =>
        decide (entry.2.word = .source) && !entry.2.isLong).map (fileOf path) ∧
      spec.patches = (tags.filter fun entry =>
        decide (entry.2.word = .patch) || entry.2.isLong).map (fileOf path) := by
  intro path s spec
  have hread : Files.read s.tree s.current path = .ok (Utf8.ofString mixedTags) := by
    decide +kernel
  have htext : Utf8.decode (Utf8.ofString mixedTags) = .ok mixedTags.toList := by decide +kernel
  have hspec : (Run.exec (read path) s).1 = .ok spec := by
    have hsome : (Run.exec (read path) s).1.toOption = some spec := by decide +kernel
    cases hrun : (Run.exec (read path) s).1 with
    | ok found =>
      rw [hrun] at hsome
      exact congrArg Except.ok (Option.some.inj hsome)
    | error fault =>
      rw [hrun] at hsome
      cases hsome
  obtain ⟨tags, htagged, hsources, hpatches, -⟩ := tags_sorted hread htext hspec
  exact ⟨hread, htext, hspec, tags, htagged, hsources, hpatches⟩

/-- A line that is read by the word for sources and names a patch. -/
def longLine : TagLine where
  word := .source
  spelled := ['ſ', 'o', 'u', 'r', 'c', 'e']
  number := ['0']
  gap := []
  before := [' ']
  value := ['a']
  after := []
  spells := by
    refine .cons (.inr (.inr ⟨rfl, rfl⟩)) ?_
    exact .cons (.inl rfl) (.cons (.inl rfl) (.cons (.inl rfl) (.cons (.inl rfl)
      (.cons (.inl rfl) .nil))))
  isNumber := by decide
  isGap := rfl
  isBefore := by decide
  isAfter := rfl
  isTrimmed := ⟨stops_cons.mpr (by decide), stops_cons.mpr (by decide)⟩
  isGiven := by decide

/-- A tag that is read by the word for sources gives a patch and no source. -/
theorem long_word_sorted :
    let path := Path.ofString "p.spec"
    let s := Session.fresh (holding (String.ofList longLine.chars)) ["r"]
    longLine.word = .source ∧
      (Run.exec (read path) s).1.toOption = some ⟨[], [fileOf path (1, longLine)]⟩ := by
  decide +kernel

end Spec

end BuildHook
