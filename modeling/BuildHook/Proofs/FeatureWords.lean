import BuildHook.Proofs.Negotiation
import Mathlib.Data.Set.Basic

/-!
# Features read back from their words

The argument of a build tells switched features by words with commas between them. Over names
without commas it tells all features apart just if no name is empty and no name is another one with
`no-` in front.
-/

namespace BuildHook.ImageFeatures

variable {features others : ImageFeatures} {names : Set String}

/-! ## Words -/

/-- The word of a feature that is switched on or off. -/
def word (name : String) (enabled : Bool) : String :=
  if enabled then name else "no-" ++ name

/-- The words in the order of the names. -/
def words (features : ImageFeatures) : List String :=
  (Text.sortBy (fun x y => decide (x.1 ≤ y.1)) features).filterMap word?

theorem mem_words {text : String} :
    text ∈ features.words ↔
      ∃ name enabled, (name, some enabled) ∈ features ∧ word name enabled = text := by
  have hsorted : ∀ feature,
      feature ∈ Text.sortBy (fun x y => decide (x.1 ≤ y.1)) features ↔ feature ∈ features := by
    intro feature
    rw [Text.sortBy_eq_insertionSort fun x y : String × Option Bool => x.1 ≤ y.1]
    exact (List.perm_insertionSort _ _).mem_iff
  rw [words, List.mem_filterMap]
  constructor
  · rintro ⟨⟨name, _ | enabled⟩, hmem, hword⟩
    · cases hword
    · refine ⟨name, enabled, (hsorted _).mp hmem, ?_⟩
      cases enabled <;> exact Option.some.inj hword
  · rintro ⟨name, enabled, hmem, rfl⟩
    refine ⟨(name, some enabled), (hsorted _).mpr hmem, ?_⟩
    cases enabled <;> rfl

/-- Words without commas, none of them empty, are read back from the argument. -/
theorem words_eq_of_argument (hcomma : ∀ text ∈ features.words, ',' ∉ text.toList)
    (hempty : "" ∉ features.words) :
    features.words = if features.argument = "" then []
      else (Text.pieces ',' features.argument.toList).map String.ofList := by
  have hargument : features.argument.toList =
      List.intercalate [','] (features.words.map String.toList) :=
    String.toList_intercalate
  by_cases hnone : features.words = []
  · have hnothing : features.argument = "" := by
      rw [← String.toList_inj, hargument, hnone]
      rfl
    rw [if_pos hnothing, hnone]
  · have hpieces : Text.pieces ',' features.argument.toList = features.words.map String.toList := by
      rw [hargument]
      refine Text.pieces_intercalate (by simpa using hnone) fun text htext => ?_
      obtain ⟨word, hword, rfl⟩ := List.mem_map.mp htext
      exact hcomma word hword
    have hsomething : features.argument ≠ "" := by
      intro hnothing
      -- the empty text has one piece, the empty one
      rw [hnothing] at hpieces
      have hmem : [] ∈ features.words.map String.toList := hpieces ▸ List.mem_singleton.mpr rfl
      obtain ⟨word, hword, hnil⟩ := List.mem_map.mp hmem
      exact hempty (String.toList_eq_nil_iff.mp hnil ▸ hword)
    rw [if_neg hsomething, hpieces, List.map_map]
    simp

/-! ## Features over given names -/

/-- Features that are all switched, each once, with names among the given ones. -/
structure SwitchedOver (names : Set String) (features : ImageFeatures) : Prop where
  isMap : features.IsMap
  switched : ∀ feature ∈ features, feature.2.isSome = true
  among : ∀ feature ∈ features, feature.1 ∈ names

/-- Names of which no word can be taken for that of another feature, or for no word at all. -/
structure Distinguishable (names : Set String) : Prop where
  nonempty : "" ∉ names
  unprefixed : ∀ name ∈ names, "no-" ++ name ∉ names

theorem SwitchedOver.words_plain (h : SwitchedOver names features)
    (hnames : Distinguishable names) (hcomma : ∀ name ∈ names, ',' ∉ name.toList) :
    (∀ text ∈ features.words, ',' ∉ text.toList) ∧ "" ∉ features.words := by
  constructor
  · intro text htext
    obtain ⟨name, enabled, hmem, rfl⟩ := mem_words.mp htext
    have hname := hcomma name (h.among _ hmem)
    cases enabled with
    | true => exact hname
    | false => simpa [word] using hname
  · intro htext
    obtain ⟨name, enabled, hmem, hword⟩ := mem_words.mp htext
    cases enabled with
    | true => exact hnames.nonempty (hword ▸ h.among _ hmem)
    | false => simpa [word] using congrArg String.length hword

/-- A word of one name is no word of another one, and says which way the feature is switched. -/
theorem Distinguishable.word_inj (h : Distinguishable names) {name other : String}
    {enabled switched : Bool} (hname : name ∈ names) (hother : other ∈ names)
    (hword : word name enabled = word other switched) : name = other ∧ enabled = switched := by
  cases enabled <;> cases switched
  · exact ⟨by simpa [word] using hword, rfl⟩
  · have hclash : "no-" ++ name = other := hword
    exact absurd (hclash ▸ hother) (h.unprefixed name hname)
  · have hclash : name = "no-" ++ other := hword
    exact absurd (hclash ▸ hname) (h.unprefixed other hother)
  · exact ⟨hword, rfl⟩

theorem SwitchedOver.subset_of_words (h : SwitchedOver names features)
    (hothers : SwitchedOver names others) (hnames : Distinguishable names)
    (hwords : features.words = others.words) : features ⊆ others := by
  rintro ⟨name, switch⟩ hmem
  obtain ⟨enabled, rfl⟩ := Option.isSome_iff_exists.mp (h.switched _ hmem)
  have hword : word name enabled ∈ others.words :=
    hwords ▸ mem_words.mpr ⟨name, enabled, hmem, rfl⟩
  obtain ⟨other, switched, hother, heq⟩ := mem_words.mp hword
  obtain ⟨rfl, rfl⟩ := hnames.word_inj (hothers.among _ hother) (h.among _ hmem) heq
  exact hother

/-- Over names without commas, the argument determines the features just if the names are
distinguishable. -/
theorem argument_determines (hcomma : ∀ name ∈ names, ',' ∉ name.toList) :
    (∀ features others : ImageFeatures, SwitchedOver names features → SwitchedOver names others →
        features.argument = others.argument → features.Perm others) ↔ Distinguishable names := by
  constructor
  · intro hdetermines
    have hsingle : ∀ name ∈ names, ∀ enabled, SwitchedOver names [(name, some enabled)] := by
      intro name hname enabled
      exact ⟨List.nodup_singleton name, by simp, by simpa using hname⟩
    refine ⟨fun hempty => ?_, fun name hname hclash => ?_⟩
    · -- the word of an empty name is what is written without words
      have hnothing : SwitchedOver names [] := ⟨List.nodup_nil, nofun, nofun⟩
      have hperm := hdetermines _ _ (hsingle "" hempty true) hnothing rfl
      simpa using hperm.length_eq
    · have hperm := hdetermines _ _ (hsingle _ hclash true) (hsingle name hname false) rfl
      simp at hperm
  · intro hnames features others h hothers hargument
    have hplain := h.words_plain hnames hcomma
    have hplain' := hothers.words_plain hnames hcomma
    have hwords : features.words = others.words := by
      rw [words_eq_of_argument hplain.1 hplain.2, words_eq_of_argument hplain'.1 hplain'.2,
        hargument]
    apply (List.perm_ext_iff_of_nodup h.isMap.nodup hothers.isMap.nodup).mpr
    intro feature
    exact ⟨fun hmem => h.subset_of_words hothers hnames hwords hmem,
      fun hmem => hothers.subset_of_words h hnames hwords.symm hmem⟩

theorem argument_determines_sample :
    let names : Set String := {"nob", "no-b", "a"}
    (∀ name ∈ names, ',' ∉ name.toList) ∧ Distinguishable names ∧
      ∀ features others : ImageFeatures, SwitchedOver names features → SwitchedOver names others →
        features.argument = others.argument → features.Perm others := by
  intro names
  have hcomma : ∀ name ∈ names, ',' ∉ name.toList := by
    rintro name (rfl | rfl | rfl) <;> decide
  have hnames : Distinguishable names := by
    refine ⟨by simp [names], ?_⟩
    rintro name (rfl | rfl | rfl) <;> simp [names]
  exact ⟨hcomma, hnames, (argument_determines hcomma).mpr hnames⟩

/-- Each of these pairs of different features has one argument: a name begins with `no-`, a name
holds a comma, a name is empty. -/
theorem argument_repeats :
    let pairs : List (ImageFeatures × ImageFeatures) :=
      [ ([("no-a", some true)], [("a", some false)]),
        ([("a,b", some true)], [("a", some true), ("b", some true)]),
        ([("", some true)], []) ]
    ∀ pair ∈ pairs, pair.1.IsMap ∧ pair.2.IsMap ∧
      (∀ feature ∈ pair.1 ++ pair.2, feature.2.isSome = true) ∧
      pair.1.argument = pair.2.argument ∧ ¬ pair.1.Perm pair.2 := by
  decide +kernel

end BuildHook.ImageFeatures
