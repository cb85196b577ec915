import BuildHook.Proofs.Encoding
import BuildHook.Proofs.ManifestContent
import BuildHook.Proofs.Negotiation
import BuildHook.Proofs.Toml.RoundTrip

/-!
# What surrounds the sections of a manifest

Only its two sections make a manifest. Documents that say the same in them give the same manifest,
or are both refused, whatever else they hold and in whatever order they hold it.
-/

namespace BuildHook

namespace Toml

variable {value other : Value} {t t' : Table} {key : String} {items others : List Value}

/-- Two values that say the same and repeat no keys. -/
structure Value.Matches (value other : Value) : Prop where
  alike : value.Alike other
  wellFormed : value.WellFormed
  wellFormed_other : other.WellFormed

theorem Value.WellFormed.at? {place : Key} (h : value.WellFormed)
    (hat : value.at? place = some other) : other.WellFormed := by
  induction place generalizing value with
  | nil =>
    obtain rfl := Option.some.inj hat
    exact h
  | cons key place ih =>
    cases value with
    | table entries =>
      obtain ⟨inner, hget, hinner⟩ := Option.bind_eq_some_iff.mp hat
      exact ih (h.get? hget) hinner
    | _ => cases hat

/-- The entries of a table without repeated keys are what its keys lead to. -/
theorem mem_iff_get? (h : t.keys.Nodup) : (key, value) ∈ t ↔ t.get? key = some value := by
  refine ⟨fun hmem => ?_, mem_of_get?⟩
  induction t with
  | nil => cases hmem
  | cons entry rest ih =>
    obtain ⟨name, first⟩ := entry
    obtain ⟨hnew, hrest⟩ := List.nodup_cons.mp h
    rw [Table.get?]
    rcases List.mem_cons.mp hmem with heq | hmem
    · obtain ⟨rfl, rfl⟩ := Prod.mk.inj heq
      exact if_pos rfl
    · have hother : name ≠ key := by
        rintro rfl
        exact hnew (List.mem_map.mpr ⟨_, hmem, rfl⟩)
      rw [if_neg hother]
      exact ih hrest hmem

theorem Value.Alike.isTruthy_eq (h : value.Alike other) : value.isTruthy = other.isTruthy := by
  cases h with
  | scalar => rfl
  | array h => cases h <;> rfl
  | @table t t' h =>
    cases t with
    | nil =>
      cases t' with
      | nil => rfl
      | cons entry rest =>
        have hget := h entry.1
        rw [Table.get?, Table.get?, if_pos rfl] at hget
        cases hget
    | cons entry rest =>
      cases t' with
      | nil =>
        have hget := h entry.1
        rw [Table.get?, Table.get?, if_pos rfl] at hget
        cases hget
      | cons => rfl

theorem Value.Matches.forall₂_items (h : (Value.array items).Matches (.array others)) :
    List.Forall₂ Value.Matches items others := by
  obtain ⟨halike, hitems, hothers⟩ := h
  rw [wellFormed_array] at hitems hothers
  cases halike with
  | scalar h => cases h
  | array h =>
    induction h with
    | nil => exact .nil
    | cons hitem _ ih =>
      obtain ⟨hfirst, hrest⟩ := List.forall_mem_cons.mp hitems
      obtain ⟨hfirst', hrest'⟩ := List.forall_mem_cons.mp hothers
      exact .cons ⟨hitem, hfirst, hfirst'⟩ (ih hrest hrest')

theorem Value.Matches.get?_alike (h : (Value.table t).Matches (.table t')) (key : String) :
    Option.Rel Value.Alike (t.get? key) (t'.get? key) := by
  cases h.alike with
  | scalar hscalar => cases hscalar
  | table h => exact h key

theorem Value.Matches.get? (h : (Value.table t).Matches (.table t')) (key : String) :
    Option.Rel Value.Matches (t.get? key) (t'.get? key) := by
  have hkey := h.get?_alike key
  have hvalue : ∀ value, t.get? key = some value → value.WellFormed := fun _ => h.wellFormed.get?
  have hother : ∀ other, t'.get? key = some other → other.WellFormed :=
    fun _ => h.wellFormed_other.get?
  generalize t.get? key = found at hkey hvalue ⊢
  generalize t'.get? key = found' at hkey hother ⊢
  cases hkey with
  | none => exact .none
  | some halike => exact .some ⟨halike, hvalue _ rfl, hother _ rfl⟩

/-- What does not see the order of keys finds the same under each key. -/
theorem Value.Matches.map_get? {α : Type} (h : (Value.table t).Matches (.table t'))
    {see : Value → α} (hsee : ∀ value other : Value, value.Alike other → see value = see other)
    (key : String) : (t.get? key).map see = (t'.get? key).map see := by
  have hkey := h.get?_alike key
  generalize t.get? key = found at hkey ⊢
  generalize t'.get? key = found' at hkey ⊢
  cases hkey with
  | none => rfl
  | some halike => exact congrArg some (hsee _ _ halike)

theorem Value.Matches.nodup (h : (Value.table t).Matches (.table t')) :
    t.keys.Nodup ∧ t'.keys.Nodup :=
  ⟨(wellFormed_table.mp h.wellFormed).1, (wellFormed_table.mp h.wellFormed_other).1⟩

theorem Value.Matches.keys_perm (h : (Value.table t).Matches (.table t')) :
    t.keys.Perm t'.keys := by
  apply (List.perm_ext_iff_of_nodup h.nodup.1 h.nodup.2).mpr
  intro key
  rw [← not_iff_not, ← Table.get?_eq_none_iff, ← Table.get?_eq_none_iff]
  have hkey : (t.get? key).map (fun _ => ()) = (t'.get? key).map fun _ => () :=
    h.map_get? (fun _ _ _ => rfl) key
  rw [← Option.map_eq_none_iff, hkey, Option.map_eq_none_iff]

/-- Tables that match have the same entries as far as a test of values can tell. -/
theorem Value.Matches.all_eq (h : (Value.table t).Matches (.table t')) {test : Value → Bool}
    (htest : ∀ value other : Value, value.Alike other → test value = test other) :
    (t.all fun entry => test entry.2) = t'.all fun entry => test entry.2 := by
  have hkeys : ∀ {t : Table}, t.keys.Nodup →
      (t.all fun entry => test entry.2) = t.keys.all fun key => (t.get? key).all test := by
    intro t hnodup
    rw [Table.keys, List.all_map, Bool.eq_iff_iff, List.all_eq_true, List.all_eq_true]
    refine forall₂_congr fun entry hentry => ?_
    have hget : t.get? entry.1 = some entry.2 := (mem_iff_get? hnodup).mp hentry
    rw [Function.comp_apply, hget, Option.all_some]
  calc (t.all fun entry => test entry.2)
      = t.keys.all fun key => (t.get? key).all test := hkeys h.nodup.1
    _ = t'.keys.all fun key => (t.get? key).all test := h.keys_perm.all_eq
    _ = t'.keys.all fun key => (t'.get? key).all test := by
        congr 1
        funext key
        have hkey := congrArg (Option.all id) (h.map_get? htest key)
        rwa [Option.all_map, Option.all_map] at hkey
    _ = t'.all fun entry => test entry.2 := (hkeys h.nodup.2).symm

theorem alike_swapped {first second : String} (hne : first ≠ second) (value other : Value) :
    (Value.table [(first, value), (second, other)]).Alike
      (.table [(second, other), (first, value)]) := by
  refine .table fun key => ?_
  have hget : Table.get? [(first, value), (second, other)] key =
      Table.get? [(second, other), (first, value)] key := by
    simp only [Table.get?]
    split <;> split <;> simp_all
  rw [hget]
  cases Table.get? [(second, other), (first, value)] key with
  | none => exact .none
  | some value => exact .some (.refl value)

theorem alike_single {name : String} (h : value.Alike other) :
    (Value.table [(name, value)]).Alike (.table [(name, other)]) := by
  refine .table fun key => ?_
  by_cases hkey : name = key
  · simp only [Table.get?, if_pos hkey]
    exact .some h
  · simp only [Table.get?, if_neg hkey]
    exact .none

end Toml

/-! ## Results that agree -/

/-- Whether two results are both faults, or are both values and related. -/
inductive Agree {ε α β : Type} (r : α → β → Prop) : Except ε α → Except ε β → Prop
  | ok {a : α} {b : β} (h : r a b) : Agree r (.ok a) (.ok b)
  | error (e e' : ε) : Agree r (.error e) (.error e')

namespace Agree

variable {ε α β γ δ : Type} {r : α → β → Prop} {q : γ → δ → Prop} {x : Except ε α}
  {y : Except ε β} {f : α → Except ε γ} {g : β → Except ε δ}

theorem refl (x : Except ε α) : Agree (· = ·) x x := by
  cases x with
  | ok a => exact .ok rfl
  | error e => exact .error e e

theorem bind (h : Agree r x y) (hrest : ∀ a b, r a b → Agree q (f a) (g b)) :
    Agree q (x >>= f) (y >>= g) := by
  cases h with
  | ok h => exact hrest _ _ h
  | error e e' => exact .error e e'

theorem mapM {xs : List α} {ys : List β} (h : List.Forall₂ (fun a b => Agree q (f a) (g b)) xs ys) :
    Agree (List.Forall₂ q) (xs.mapM f) (ys.mapM g) := by
  induction h with
  | nil => exact .ok .nil
  | cons hfirst _ ih =>
    rw [List.mapM_cons, List.mapM_cons]
    refine hfirst.bind fun a b hab => ih.bind fun rest rest' hrest => ?_
    exact .ok (.cons hab hrest)

end Agree

namespace ImageFeatures

/-- Two maps with the same features. -/
def SameMap (features others : ImageFeatures) : Prop :=
  features.IsMap ∧ features.Perm others

end ImageFeatures

namespace Manifest

open Toml (Key Table Value)

variable {value other : Value} {given given' : Option Value} {t t' document document' : Table}
  {path folder : Path} {items others : List Value}

/-! ## Settings that match -/

/-- A reader that refuses arrays and tables does not see the order of keys. -/
theorem agree_of_refused {α : Type} (read : Value → Except Defect α)
    (harray : ∀ items, (read (.array items)).isOk = false)
    (htable : ∀ t, (read (.table t)).isOk = false) (h : value.Alike other) :
    Agree (· = ·) (read value) (read other) := by
  have hrefused : ∀ {value other}, (read value).isOk = false → (read other).isOk = false →
      Agree (· = ·) (read value) (read other) := by
    intro value other hvalue hother
    cases hread : read value with
    | ok a => rw [hread] at hvalue; cases hvalue
    | error e =>
      cases hread' : read other with
      | ok a => rw [hread'] at hother; cases hother
      | error e' => exact .error e e'
  cases h with
  | scalar => exact .refl _
  | array => exact hrefused (harray _) (harray _)
  | table => exact hrefused (htable _) (htable _)

/-- So does a reader of a setting that refuses them. -/
theorem setting_agree {α : Type} (read : Option Value → Except Defect α)
    (harray : ∀ items, (read (some (.array items))).isOk = false)
    (htable : ∀ t, (read (some (.table t))).isOk = false)
    (h : Option.Rel Value.Matches given given') : Agree (· = ·) (read given) (read given') := by
  cases h with
  | none => exact .refl _
  | some h => exact agree_of_refused (fun value => read (some value)) harray htable h.alike

theorem fileText_agree (name : String) (h : value.Matches other) :
    Agree (· = ·) (fileText name value) (fileText name other) :=
  agree_of_refused (fileText name) (fun _ => rfl) (fun _ => rfl) h.alike

theorem filePath_agree (h : (Value.table t).Matches (.table t')) (name : String) :
    Agree (· = ·) (filePath t name) (filePath t' name) := by
  have hget := h.get? name
  rw [filePath, filePath]
  generalize t.get? name = found at hget ⊢
  generalize t'.get? name = found' at hget ⊢
  cases hget with
  | none => exact .refl _
  | some hvalue =>
    cases hvalue.alike with
    | scalar => exact .refl _
    | array => exact .error _ _
    | table => exact .error _ _

theorem required_agree (h : (Value.table t).Matches (.table t')) (name : String) :
    Agree Value.Matches (required t name) (required t' name) := by
  have hget := h.get? name
  rw [required, required]
  generalize t.get? name = found at hget ⊢
  generalize t'.get? name = found' at hget ⊢
  cases hget with
  | none => exact .error _ _
  | some hvalue => exact .ok hvalue

/-- Items that are read one by one, whatever the order of their keys. -/
theorem mapM_eq_of_matches {α : Type} {read : Value → Option α}
    (hread : ∀ value other : Value, value.Alike other → read value = read other)
    (h : List.Forall₂ Value.Matches items others) : items.mapM read = others.mapM read := by
  induction h with
  | nil => rfl
  | cons hitem _ ih => rw [List.mapM_cons, List.mapM_cons, hread _ _ hitem.alike, ih]

theorem strings_congr (h : (Value.table t).Matches (.table t')) (name : String) :
    strings t name = strings t' name := by
  have hget := h.get? name
  rw [strings, strings]
  generalize t.get? name = found at hget ⊢
  generalize t'.get? name = found' at hget ⊢
  cases hget with
  | none => rfl
  | some hvalue =>
    cases hvalue.alike with
    | scalar => rfl
    | @array items others =>
      have hitems : stringItems? items = stringItems? others := by
        refine mapM_eq_of_matches (fun _ _ halike => ?_) hvalue.forall₂_items
        cases halike <;> rfl
      simp only [hitems]
    | table => rfl

/-! ## External files that match -/

theorem moduleKinds_of_perm {names names' : List String} (h : names.Perm names') :
    (names.map Value.string).mapM moduleKind? = (names'.map Value.string).mapM moduleKind? := by
  have hnone : ∀ {names : List String}, (¬ ∀ name ∈ names, name = "go") →
      (names.map Value.string).mapM moduleKind? = none := by
    intro names hnames
    rw [← Option.not_isSome_iff_eq_none, isSome_mapM, List.all_map]
    simpa [moduleKind?, ModuleKind.ofName?] using hnames
  by_cases hall : ∀ name ∈ names, name = "go"
  · have hall' : ∀ name ∈ names', name = "go" := fun name hname => hall name (h.mem_iff.mpr hname)
    rw [List.eq_replicate_of_mem hall, List.eq_replicate_of_mem hall', h.length_eq]
  · have hall' : ¬ ∀ name ∈ names', name = "go" :=
      fun hnames => hall fun name hname => hnames name (h.mem_iff.mp hname)
    rw [hnone hall, hnone hall']

theorem modules_agree_of_parts (hparts : parts value = .ok items) (hparts' : parts other = .ok others)
    (h : items.mapM moduleKind? = others.mapM moduleKind?) :
    Agree (· = ·) (modulesOf (some value)) (modulesOf (some other)) := by
  simp only [modulesOf, hparts, hparts', h, bind, Except.bind]
  cases others.mapM moduleKind? with
  | none => exact .error _ _
  | some kinds => exact .ok rfl

theorem modules_agree (h : Option.Rel Value.Matches given given') :
    Agree (· = ·) (modulesOf given) (modulesOf given') := by
  cases h with
  | none => exact .refl _
  | some h =>
    cases h.alike with
    | scalar => exact .refl _
    | array =>
      refine modules_agree_of_parts rfl rfl (mapM_eq_of_matches (fun _ _ halike => ?_) h.forall₂_items)
      cases halike <;> rfl
    | @table t t' =>
      refine modules_agree_of_parts rfl rfl ?_
      have hkinds := moduleKinds_of_perm h.keys_perm
      rwa [Table.keys, Table.keys, List.map_map, List.map_map] at hkinds

theorem externalFile_agree (h : value.Matches other) :
    Agree (· = ·) (externalFile value) (externalFile other) := by
  cases h.alike with
  | scalar => exact .refl _
  | array => exact .error _ _
  | table =>
    refine (required_agree h "url").bind fun url url' hurl => ?_
    refine (required_agree h "sha512").bind fun sha512 sha512' hsha512 => ?_
    refine (fileText_agree "url" hurl).bind fun url _ heq => heq ▸ ?_
    refine (fileText_agree "sha512" hsha512).bind fun sha512 _ heq => heq ▸ ?_
    refine (modules_agree (h.get? "bundle-modules")).bind fun modules _ heq => heq ▸ ?_
    refine (filePath_agree h "path").bind fun path _ heq => heq ▸ ?_
    refine (filePath_agree h "bundle-root-path").bind fun root _ heq => heq ▸ ?_
    refine (filePath_agree h "bundle-output-path").bind fun output _ heq => heq ▸ ?_
    rw [h.map_get? (fun _ _ => Value.Alike.isTruthy_eq)]
    exact .refl _

theorem externalFiles_agree (h : Option.Rel Value.Matches given given') :
    Agree (· = ·) (externalFilesOf given) (externalFilesOf given') := by
  cases h with
  | none => exact .refl _
  | some h =>
    cases h.alike with
    | scalar => exact .refl _
    | @array items others =>
      have hfiles : Agree (· = ·) (items.mapM externalFile) (others.mapM externalFile) := by
        rw [← List.forall₂_eq_eq_eq]
        exact .mapM (h.forall₂_items.imp fun _ _ => externalFile_agree)
      exact hfiles.bind fun files _ heq => heq ▸ .ok rfl
    | @table t t' =>
      -- a key is no file, so only an empty table is gone through
      have hkeys := h.keys_perm
      cases t with
      | nil =>
        obtain rfl := List.map_eq_nil_iff.mp hkeys.nil_eq.symm
        exact .refl _
      | cons entry rest =>
        cases t' with
        | nil => exact absurd hkeys.eq_nil (List.cons_ne_nil _ _)
        | cons entry' rest' => exact .error _ _

/-! ## Image features that match -/

theorem featureOf_eq_ok {entry : String × Value} {feature : String × Option Bool} :
    featureOf entry = .ok feature ↔
      ∃ enabled, entry = (feature.1, .boolean enabled) ∧ feature.2 = some enabled := by
  obtain ⟨name, value⟩ := entry
  cases value with
  | boolean flag =>
    constructor
    · intro h
      obtain rfl := Except.ok.inj h
      exact ⟨flag, rfl, rfl⟩
    · rintro ⟨enabled, hentry, hswitch⟩
      obtain ⟨rfl, hflag⟩ := Prod.mk.inj hentry
      rw [featureOf, Value.boolean.inj hflag, ← hswitch]
  | _ => exact ⟨nofun, nofun⟩

theorem mem_features {features : ImageFeatures} (h : t.mapM featureOf = .ok features)
    (feature : String × Option Bool) : feature ∈ features ↔
      ∃ enabled, (feature.1, Value.boolean enabled) ∈ t ∧ feature.2 = some enabled := by
  have hmem : feature ∈ features ↔ .ok feature ∈ t.map featureOf := by
    rw [Run.map_eq_of_mapM h]
    simp
  rw [hmem, List.mem_map]
  simp only [featureOf_eq_ok]
  constructor
  · rintro ⟨_, hentry, enabled, rfl, hswitch⟩
    exact ⟨enabled, hentry, hswitch⟩
  · rintro ⟨enabled, hentry, hswitch⟩
    exact ⟨_, hentry, enabled, rfl, hswitch⟩

theorem keys_features {features : ImageFeatures} (h : t.mapM featureOf = .ok features) :
    features.map Prod.fst = t.keys := by
  obtain ⟨switches, htable, rfl⟩ := isFeatures_of_mapM h
  obtain rfl := Value.table.inj htable
  rw [Table.keys, List.map_map, List.map_map]
  rfl

theorem sameMap_of_matches {features others : ImageFeatures}
    (h : (Value.table t).Matches (.table t')) (hfeatures : t.mapM featureOf = .ok features)
    (hothers : t'.mapM featureOf = .ok others) : features.SameMap others := by
  have hmap : features.IsMap := by
    rw [ImageFeatures.IsMap, keys_features hfeatures]
    exact h.nodup.1
  have hmap' : others.IsMap := by
    rw [ImageFeatures.IsMap, keys_features hothers]
    exact h.nodup.2
  refine ⟨hmap, (List.perm_ext_iff_of_nodup hmap.nodup hmap'.nodup).mpr fun feature => ?_⟩
  rw [mem_features hfeatures, mem_features hothers]
  refine exists_congr fun enabled => and_congr_left fun _ => ?_
  rw [Toml.mem_iff_get? h.nodup.1, Toml.mem_iff_get? h.nodup.2]
  have hget := h.get? feature.1
  generalize t.get? feature.1 = found at hget ⊢
  generalize t'.get? feature.1 = found' at hget ⊢
  cases hget with
  | none => rfl
  | some hvalue => cases hvalue.alike <;> simp

theorem imageFeatures_agree (h : Option.Rel Value.Matches given given') :
    Agree (Option.Rel ImageFeatures.SameMap) (imageFeaturesOf given) (imageFeaturesOf given') := by
  cases h with
  | none => exact .ok .none
  | @some value other h =>
    cases h.alike with
    | scalar hscalar =>
      cases value with
      | array => cases hscalar
      | table => cases hscalar
      | _ => exact .error _ _
    | array => exact .error _ _
    | @table t t' =>
      have hok : (t.mapM featureOf).isOk = (t'.mapM featureOf).isOk := by
        rw [isOk_mapM, isOk_mapM, funext isOk_featureOf]
        exact h.all_eq fun _ _ halike => by cases halike <;> rfl
      rw [imageFeaturesOf, imageFeaturesOf]
      cases hfeatures : t.mapM featureOf with
      | ok features =>
        cases hothers : t'.mapM featureOf with
        | ok others => exact .ok (.some (sameMap_of_matches h hfeatures hothers))
        | error e => rw [hfeatures, hothers] at hok; cases hok
      | error e =>
        cases hothers : t'.mapM featureOf with
        | ok others => rw [hfeatures, hothers] at hok; cases hok
        | error e' => exact .error _ _

/-! ## Documents that match -/

/-- Whether nothing but tables stands around the sections. -/
def IsFramed (document : Table) : Prop :=
  ∀ place ∈ [["package"], ["package", "metadata"]],
    ((Value.table document).at? place).all Value.isTable = true

instance (document : Table) : Decidable (IsFramed document) :=
  inferInstanceAs (Decidable (∀ place ∈ [["package"], ["package", "metadata"]], _ = true))

/-- Where only tables stand on the way, a section is what stands at its place. -/
theorem sectionAt_of_tables {place : Key} {name : String}
    (h : ∀ above, above <+: place → ((Value.table document).at? above).all Value.isTable = true) :
    sectionAt (place ++ [name]) document =
      match (Value.table document).at? (place ++ [name]) with
      | none => .ok []
      | some (.table t) => .ok t
      | some _ => .error (.section (place ++ [name])) := by
  rw [sectionAt]
  generalize Defect.section (place ++ [name]) = defect
  induction place generalizing document with
  | nil =>
    rw [List.nil_append, List.foldlM_cons, Value.at?]
    cases document.get? name with
    | none => rfl
    | some value => cases value <;> rfl
  | cons key place ih =>
    rw [List.cons_append, List.foldlM_cons, Value.at?]
    cases hget : document.get? key with
    | none =>
      rw [Option.bind_none]
      refine (ih fun above _ => ?_).trans (by rw [at?_empty])
      cases above <;> rfl
    | some value =>
      have hvalue := h [key] (by simp)
      rw [Value.at?, hget] at hvalue
      cases value with
      | table entries =>
        refine ih fun above habove => ?_
        have hbelow := h (key :: above) (by simpa using habove)
        rwa [Value.at?, hget] at hbelow
      | _ => cases hvalue

theorem tables_of_isFramed (h : IsFramed document) :
    ∀ above, above <+: ["package", "metadata"] →
      ((Value.table document).at? above).all Value.isTable = true := by
  intro above habove
  rcases List.prefix_cons_iff.mp habove with rfl | ⟨rest, rfl, hrest⟩
  · rfl
  · rcases List.prefix_cons_iff.mp hrest with rfl | ⟨last, rfl, hlast⟩
    · exact h _ (by simp)
    · rw [List.prefix_nil.mp hlast]
      exact h _ (by simp)

/-- Whether documents say the same at a place. -/
def AlikeAt (place : Key) (document document' : Table) : Prop :=
  Option.Rel Value.Alike ((Value.table document).at? place) ((Value.table document').at? place)

theorem section_agree (hwell : (Value.table document).WellFormed)
    (hwell' : (Value.table document').WellFormed) (h : IsFramed document) (h' : IsFramed document')
    {name : String} (halike : AlikeAt (["package", "metadata"] ++ [name]) document document') :
    Agree (fun t t' => (Value.table t).Matches (.table t'))
      (sectionAt (["package", "metadata"] ++ [name]) document)
      (sectionAt (["package", "metadata"] ++ [name]) document') := by
  rw [sectionAt_of_tables (tables_of_isFramed h), sectionAt_of_tables (tables_of_isFramed h')]
  rw [AlikeAt] at halike
  generalize ["package", "metadata"] ++ [name] = place at halike ⊢
  have ht : ∀ value, (Value.table document).at? place = some value → value.WellFormed :=
    fun _ => hwell.at?
  have ht' : ∀ value, (Value.table document').at? place = some value → value.WellFormed :=
    fun _ => hwell'.at?
  generalize (Value.table document).at? place = found at halike ht ⊢
  generalize (Value.table document').at? place = found' at halike ht' ⊢
  cases halike with
  | none => exact .ok ⟨.refl _, Toml.wellFormed_empty, Toml.wellFormed_empty⟩
  | @some value _ hvalue =>
    cases hvalue with
    | scalar hscalar =>
      cases value with
      | array => cases hscalar
      | table => cases hscalar
      | _ => exact .error _ _
    | array => exact .error _ _
    | table hget => exact .ok ⟨.table hget, ht _ rfl, ht' _ rfl⟩

/-- Two manifests with the same settings. -/
structure Same (m m' : Manifest) : Prop where
  path : m.path = m'.path
  packageName : Option.Rel Value.Alike m.packageName m'.packageName
  sensitivity : m.sensitivity = m'.sensitivity
  packageFeatures : m.packageFeatures = m'.packageFeatures
  sourceGroups : m.sourceGroups = m'.sourceGroups
  externalFiles : m.externalFiles = m'.externalFiles
  includedPackages : m.includedPackages = m'.includedPackages
  imageFormat : Option.Rel Value.Alike m.imageFormat m'.imageFormat
  kernelParameters : m.kernelParameters = m'.kernelParameters
  arches : m.arches = m'.arches
  imageFeatures : Option.Rel ImageFeatures.SameMap m.imageFeatures m'.imageFeatures
  defaultsDir : m.defaultsDir = m'.defaultsDir

theorem ofDocument_agree (hwell : (Value.table document).WellFormed)
    (hwell' : (Value.table document').WellFormed) (h : IsFramed document) (h' : IsFramed document')
    (hpackage : AlikeAt packagePlace document document')
    (hvariant : AlikeAt variantPlace document document') :
    Agree Same (ofDocument path document) (ofDocument path document') := by
  refine (section_agree hwell hwell' h h' hpackage).bind fun p p' hp => ?_
  refine (section_agree hwell hwell' h h' hvariant).bind fun v v' hv => ?_
  refine (externalFiles_agree (hp.get? "external-files")).bind fun files _ heq => heq ▸ ?_
  rw [strings_congr hp, strings_congr hp, strings_congr hv, strings_congr hv, strings_congr hv]
  refine (Agree.refl _).bind fun features _ heq => heq ▸ ?_
  refine (Agree.refl _).bind fun tokens _ heq => heq ▸ ?_
  refine (Agree.refl _).bind fun arches _ heq => heq ▸ ?_
  refine (setting_agree _ (fun _ => rfl) (fun _ => rfl) (hv.get? "defaults-dir")).bind
    fun dir _ heq => heq ▸ ?_
  refine (setting_agree _ (fun _ => rfl) (fun _ => rfl) (hp.get? "variant-sensitive")).bind
    fun sensitivity _ heq => heq ▸ ?_
  refine (Agree.refl _).bind fun groups _ heq => heq ▸ ?_
  refine (Agree.refl _).bind fun included _ heq => heq ▸ ?_
  refine (Agree.refl _).bind fun parameters _ heq => heq ▸ ?_
  refine (imageFeatures_agree (hv.get? "image-features")).bind fun switches switches' hsame => ?_
  exact .ok {
    path := rfl
    packageName := hp.get?_alike _
    sensitivity := rfl
    packageFeatures := rfl
    sourceGroups := rfl
    externalFiles := rfl
    includedPackages := rfl
    imageFormat := hv.get?_alike _
    kernelParameters := rfl
    arches := rfl
    imageFeatures := hsame
    defaultsDir := rfl }

/-! ## Manifest files -/

/-- Whether a path leads to a file that holds a document. -/
def HasDocument (s : Session) (path : Path) (document : Table) : Prop :=
  ∃ bytes text, Files.read s.tree s.current path = .ok bytes ∧ Utf8.decode bytes = .ok text ∧
    Toml.parse text = .ok document

/-- A manifest file whose document is laid out as documented is taken, and the manifest says what
the document says. Two manifest files whose documents say the same in both sections give the same
manifest or are both refused, whatever else stands in them. -/
theorem sections_read {s s' : Session} (h : HasDocument s path document)
    (h' : HasDocument s' path document') :
    let result := (Run.exec (read path) s).1
    let result' := (Run.exec (read path) s').1
    (documented.admits (.table document) = true → ∃ m, result = .ok m ∧ Declares path document m) ∧
      (IsFramed document → IsFramed document' → AlikeAt packagePlace document document' →
        AlikeAt variantPlace document document' →
        (∃ m m', result = .ok m ∧ result' = .ok m' ∧ m.Same m') ∨
        ∃ defect defect', result = .error (.manifest path (.defect defect)) ∧
          result' = .error (.manifest path (.defect defect'))) := by
  intro result result'
  obtain ⟨bytes, text, hread, htext, hparse⟩ := h
  obtain ⟨bytes', text', hread', htext', hparse'⟩ := h'
  have hresult : result = (ofDocument path document).mapError fun defect =>
      .manifest path (.defect defect) := read_of_parse hread htext hparse
  have hresult' : result' = (ofDocument path document').mapError fun defect =>
      .manifest path (.defect defect) := read_of_parse hread' htext' hparse'
  rw [hresult, hresult']
  constructor
  · intro hlayout
    have hok : (ofDocument path document).isOk = true := by
      rw [documented_eq, Bool.and_eq_true] at hlayout
      rw [isOk_ofDocument]
      exact hlayout.1
    cases hdocument : ofDocument path document with
    | ok m => exact ⟨m, rfl, declares_of_ok hlayout hdocument⟩
    | error defect => rw [hdocument] at hok; cases hok
  · intro hframed hframed' hpackage hvariant
    have hagree : Agree Same (ofDocument path document) (ofDocument path document') :=
      ofDocument_agree (Toml.wellFormed_parse hparse) (Toml.wellFormed_parse hparse') hframed
        hframed' hpackage hvariant
    generalize ofDocument path document = made at hagree ⊢
    generalize ofDocument path document' = made' at hagree ⊢
    cases hagree with
    | ok hsame => exact .inl ⟨_, _, rfl, rfl, hsame⟩
    | error defect defect' => exact .inr ⟨defect, defect', rfl, rfl⟩

-- Two documents with the same sections. In the second one something stands beside them, and their
-- keys stand the other way round.
def plainDocument : Table :=
  [("package", .table [("metadata", .table [
    ("build-package", .table [("package-name", .string "p"), ("source-groups", .array [])]),
    ("build-variant", .table [
      ("image-features", .table [("a", .boolean true), ("b", .boolean false)])])])])]

def turnedDocument : Table :=
  [("x", .integer 1), ("package", .table [("name", .string "y"), ("metadata", .table [
    ("build-variant", .table [
      ("image-features", .table [("b", .boolean false), ("a", .boolean true)])]),
    ("build-package", .table [("source-groups", .array []), ("package-name", .string "p")])])])]

def printed (document : Table) : Session :=
  .fresh (holding (String.ofList (Toml.print document))) ["r"]

theorem read_holding (text : String) :
    Files.read (holding text) ["r"] (Path.ofString fileName) = .ok (Utf8.ofString text) := by
  rfl

theorem hasDocument_printed (h : (Value.table document).Writable)
    (harranged : Toml.arranged document = document) :
    HasDocument (printed document) (Path.ofString fileName) document := by
  obtain ⟨last, hassembled, hcontent⟩ := Toml.foldlM_statementsOf h.wellFormed
  refine ⟨_, Toml.print document, read_holding _, ?_, ?_⟩
  · rw [Utf8.ofString, String.toList_ofList]
    exact Utf8.decode_encode _
  · rw [Toml.parse_print h, hassembled, ← harranged, ← hcontent]
    rfl

theorem hasDocument_samples : ∀ document ∈ [plainDocument, turnedDocument],
    HasDocument (printed document) (Path.ofString fileName) document := by
  have hwell : ∀ document ∈ [plainDocument, turnedDocument],
      (Value.table document).WellFormed := by
    rw [List.forall_mem_cons, List.forall_mem_singleton]
    constructor <;>
      simp [plainDocument, turnedDocument, Toml.wellFormed_table, Toml.wellFormed_array, Table.keys,
        Value.WellFormed.string, Value.WellFormed.boolean, Value.WellFormed.integer]
  have hshort : ∀ document ∈ [plainDocument, turnedDocument],
      (Value.table document).isOverlong = false := by
    decide
  have harranged : ∀ document ∈ [plainDocument, turnedDocument],
      Toml.arranged document = document := by
    simp [plainDocument, turnedDocument, Toml.arranged, Toml.arrangedBelow, Toml.plainEntries,
      Toml.isPlain, Toml.isSpread, Value.isTable]
  exact fun document hmem =>
    hasDocument_printed ⟨hwell document hmem, hshort document hmem⟩ (harranged document hmem)

theorem sections_read_sample :
    let path := Path.ofString fileName
    let result := (Run.exec (read path) (printed plainDocument)).1
    let result' := (Run.exec (read path) (printed turnedDocument)).1
    HasDocument (printed plainDocument) path plainDocument ∧
      HasDocument (printed turnedDocument) path turnedDocument ∧
      documented.admits (.table plainDocument) = true ∧
      IsFramed plainDocument ∧ IsFramed turnedDocument ∧
      AlikeAt packagePlace plainDocument turnedDocument ∧
      AlikeAt variantPlace plainDocument turnedDocument ∧
      (∃ m, result = .ok m ∧ Declares path plainDocument m) ∧
      ((∃ m m', result = .ok m ∧ result' = .ok m' ∧ m.Same m') ∨
        ∃ defect defect', result = .error (.manifest path (.defect defect)) ∧
          result' = .error (.manifest path (.defect defect'))) := by
  intro path result result'
  have hlayout : documented.admits (.table plainDocument) = true := by decide
  have hframed : IsFramed plainDocument := by decide
  have hframed' : IsFramed turnedDocument := by decide
  have hpackage : AlikeAt packagePlace plainDocument turnedDocument :=
    .some (Toml.alike_swapped (by decide) _ _)
  have hvariant : AlikeAt variantPlace plainDocument turnedDocument :=
    .some (Toml.alike_single (Toml.alike_swapped (by decide) _ _))
  have hplain := hasDocument_samples plainDocument (by simp)
  have hturned := hasDocument_samples turnedDocument (by simp)
  obtain ⟨hdeclared, hsame⟩ := sections_read hplain hturned
  exact ⟨hplain, hturned, hlayout, hframed, hframed', hpackage, hvariant,
    hdeclared hlayout, hsame hframed hframed' hpackage hvariant⟩

def plainSection : String :=
  packageHead ++ "package-name = \"p\"\nsource-groups = []\n"

-- A value that stands beside a section.
def besideSection (value : String) : String :=
  "a = " ++ value ++ "\n" ++ plainSection

theorem read_text (text : String) :
    let path := Path.ofString fileName
    (Run.exec (read path) (.fresh (holding text) ["r"])).1 =
      match Toml.parse text.toList with
      | .error refusal => .error (.ofRefusal (.manifest path .malformed) refusal)
      | .ok document =>
        (ofDocument path document).mapError fun defect => .manifest path (.defect defect) :=
  read_of_text (read_holding text) (Utf8.decode_encode _)

theorem read_besideSection {number : Int} (h : Toml.digitLimit < digitCount number.natAbs) :
    let text := besideSection (String.ofList (Toml.writeInteger number))
    (Run.exec (read (Path.ofString fileName)) (.fresh (holding text) ["r"])).1 =
      .error (.digits (.read (digitCount number.natAbs))) := by
  intro text
  have hkey : Toml.writeKeyPart "a" = ['a'] := by decide +kernel
  have htext : text.toList =
      Toml.writeKeyPart "a" ++ ' ' :: '=' :: ' ' :: Toml.writeInteger number ++
        '\n' :: plainSection.toList := by
    rw [hkey]
    simp [text, besideSection]
  rw [read_text, htext, Toml.parse_overlong "a" h]
  rfl

/-- A section of the documented layout is not taken if beside it stands an integer of too many
digits, or a leap second. -/
theorem sections_unread :
    let path := Path.ofString fileName
    let result := fun text => (Run.exec (read path) (.fresh (holding text) ["r"])).1
    let leap := besideSection "1990-12-31T23:59:60Z"
    ((Toml.parse (besideSection "1").toList).toOption.any fun document =>
        documented.admits (.table document)) = true ∧
      (result (besideSection "1")).isOk = true ∧
      result (besideSection (String.ofList (Toml.writeInteger (10 ^ 4300 : Nat)))) =
        .error (.digits (.read 4301)) ∧
      result leap = .error (.manifest path .malformed) := by
  intro path result leap
  refine ⟨by decide +kernel, by decide +kernel, ?_, ?_⟩
  · have hcount : digitCount (Int.natAbs (10 ^ 4300 : Nat)) = 4301 := by
      have hone := digitCount_mul_pow Nat.one_pos 4300
      rwa [Nat.one_mul] at hone
    rw [← hcount]
    refine read_besideSection ?_
    rw [hcount]
    decide
  · have hparse : (Toml.parse leap.toList).map (fun _ => ()) = .error .malformed := by
      decide +kernel
    have hread := read_text leap
    generalize Toml.parse leap.toList = parsed at hparse hread
    cases parsed with
    | ok document => cases hparse
    | error refusal =>
      cases hparse
      exact hread

end Manifest

end BuildHook
