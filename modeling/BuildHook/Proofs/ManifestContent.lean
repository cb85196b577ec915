import BuildHook.Proofs.ManifestLayout
import BuildHook.Proofs.Sorting

/-!
# The content of manifests

A manifest next to its document. A setting of the manifest is there just if the document gives it,
even if what is given is empty, and it holds what the document says.
-/

namespace BuildHook

/-- The tokens that name an architecture. -/
def Arch.tokens : Arch → List String
  | .x86_64 => ["x86_64", "amd64"]
  | .aarch64 => ["aarch64", "arm64"]

theorem Arch.parse_eq_some {token : String} {arch : Arch} :
    Arch.parse token = some arch ↔ Text.lower (Text.strip token) ∈ arch.tokens := by
  rw [Arch.parse]
  generalize Text.lower (Text.strip token) = name
  split <;> cases arch <;> simp_all [Arch.tokens]

theorem Arch.mem_distinct {arch : Arch} {arches : List Arch} :
    arch ∈ Arch.distinct arches ↔ arch ∈ arches := by
  have hall : arch ∈ Arch.all := by cases arch <;> decide
  rw [Arch.distinct, List.mem_filter, List.contains_iff_mem, and_iff_right hall]

namespace Manifest

open Toml (Key Shape Table Value)

variable {value : Value} {given : Option Value} {t document : Table} {name : String}
  {path folder : Path} {m : Manifest} {inner : Shape}

/-! ## What values say -/

/-- A text that is kept as a value. -/
def IsText (value kept : Value) : Prop :=
  ∃ text, value = .string text ∧ kept = .string text

def IsTexts (value : Value) (texts : List String) : Prop :=
  value = .array (texts.map .string)

/-- The texts of an array as a set: in ascending order, each once. -/
def IsTextSet (value : Value) (names : List String) : Prop :=
  ∃ texts, IsTexts value texts ∧ names.Pairwise (· < ·) ∧ ∀ name, name ∈ names ↔ name ∈ texts

def IsSensitivity (value : Value) : Sensitivity → Prop
  | .whole enabled => value = .boolean enabled
  | .component part => value = .string part.name

/-- The architectures that the tokens of an array name, as a set. -/
def IsArchSet (value : Value) (arches : List Arch) : Prop :=
  ∃ tokens, IsTexts value tokens ∧
    (∀ token ∈ tokens, ∃ arch : Arch, Text.lower (Text.strip token) ∈ arch.tokens) ∧
    arches.Sublist Arch.all ∧
    ∀ arch, arch ∈ arches ↔ ∃ token ∈ tokens, Text.lower (Text.strip token) ∈ arch.tokens

def IsPath (value : Value) (path : Path) : Prop :=
  ∃ text, value = .string text ∧ path = Path.ofString text

def IsPathFrom (folder : Path) (value : Value) (path : Path) : Prop :=
  ∃ text, value = .string text ∧ path = folder.join (Path.ofString text)

/-- Switched features in the order in which they stand. -/
def IsFeatures (value : Value) (features : ImageFeatures) : Prop :=
  ∃ switches : List (String × Bool),
    value = .table (switches.map fun switch => (switch.1, .boolean switch.2)) ∧
    features = switches.map fun switch => (switch.1, some switch.2)

def IsModules (value : Value) (kinds : List ModuleKind) : Prop :=
  IsTexts value (kinds.map ModuleKind.name)

/-- What a table says of an external file. Unless it says so, the file is not always taken from its
own address. -/
structure IsFile (t : Table) (f : ExternalFile) : Prop where
  url : t.get? "url" = some (.string f.url)
  sha512 : t.get? "sha512" = some (.string f.sha512)
  path : Option.Rel IsPath (t.get? "path") f.path
  direct : (t.get? "force-upstream").getD (.boolean false) = .boolean f.direct
  modules : Option.Rel IsModules (t.get? "bundle-modules") f.modules
  bundleRoot : Option.Rel IsPath (t.get? "bundle-root-path") f.bundleRoot
  bundleOutput : Option.Rel IsPath (t.get? "bundle-output-path") f.bundleOutput

/-- External files in the order in which they stand. -/
def IsFiles (value : Value) (files : List ExternalFile) : Prop :=
  ∃ items, value = .array items ∧
    List.Forall₂ (fun item f => ∃ t, item = .table t ∧ IsFile t f) items files

/-- The value of a setting that stands at a place. -/
def setting (document : Table) (place : Key) (name : String) : Option Value :=
  (Value.table document).at? (place ++ [name])

/-- Whether a manifest says what a document at a path says, in every setting. -/
structure Declares (path : Path) (document : Table) (m : Manifest) : Prop where
  same_path : m.path = path
  packageName : Option.Rel IsText (setting document packagePlace "package-name") m.packageName
  sensitivity : Option.Rel IsSensitivity (setting document packagePlace "variant-sensitive")
    m.sensitivity
  packageFeatures : Option.Rel IsTextSet (setting document packagePlace "package-features")
    m.packageFeatures
  sourceGroups : Option.Rel IsTexts (setting document packagePlace "source-groups") m.sourceGroups
  externalFiles : Option.Rel IsFiles (setting document packagePlace "external-files")
    m.externalFiles
  includedPackages : Option.Rel IsTexts (setting document variantPlace "included-packages")
    m.includedPackages
  imageFormat : Option.Rel IsText (setting document variantPlace "image-format") m.imageFormat
  kernelParameters : Option.Rel IsTexts (setting document variantPlace "kernel-parameters")
    m.kernelParameters
  arches : Option.Rel IsArchSet (setting document variantPlace "supported-arches") m.arches
  imageFeatures : Option.Rel IsFeatures (setting document variantPlace "image-features")
    m.imageFeatures
  defaultsDir : Option.Rel (IsPathFrom path.parent) (setting document variantPlace "defaults-dir")
    m.defaultsDir

/-! ## Settings of one kind -/

theorem isText_of_admits (h : (Shape.setting name .text).admits (.table t) = true) :
    Option.Rel IsText (t.get? name) (t.get? name) := by
  cases hget : t.get? name with
  | none => exact .none
  | some value =>
    rw [Shape.admits_setting_some hget] at h
    cases value with
    | string text => exact .some ⟨text, rfl, rfl⟩
    | _ => cases h

/-- Items that are read one by one, each of them from a text. -/
theorem isTexts_of_mapM {α : Type} {read : Value → Option α} (text : α → String)
    (hread : ∀ item a, read item = some a → item = .string (text a)) {items : List Value}
    {found : List α} (h : items.mapM read = some found) :
    IsTexts (.array items) (found.map text) := by
  induction items generalizing found with
  | nil =>
    obtain rfl := Option.some.inj h
    rfl
  | cons item items ih =>
    rw [List.mapM_cons] at h
    obtain ⟨first, hfirst, h⟩ := Option.bind_eq_some_iff.mp h
    obtain ⟨rest, hrest, h⟩ := Option.bind_eq_some_iff.mp h
    obtain rfl := Option.some.inj h
    have hitems := Value.array.inj (ih hrest)
    rw [IsTexts, hitems, hread item first hfirst, List.map_cons, List.map_cons]

theorem isTexts_of_stringItems {items : List Value} {texts : List String}
    (h : stringItems? items = some texts) : IsTexts (.array items) texts := by
  rw [← List.map_id texts]
  refine isTexts_of_mapM id (fun item text htext => ?_) h
  cases item with
  | string other => exact congrArg Value.string (Option.some.inj htext)
  | _ => cases htext

theorem isTexts_of_strings {texts : Option (List String)} (h : strings t name = .ok texts) :
    Option.Rel IsTexts (t.get? name) texts := by
  rw [strings] at h
  split at h
  · next hget =>
    obtain rfl := Except.ok.inj h
    rw [hget]
    exact .none
  · next items hget =>
    rw [hget]
    split at h
    · next found hitems =>
      obtain rfl := Except.ok.inj h
      exact .some (isTexts_of_stringItems hitems)
    · cases h
  · cases h

theorem isTextSet_of_strings {texts : Option (List String)} (h : strings t name = .ok texts) :
    Option.Rel IsTextSet (t.get? name) (texts.map Text.sortedSet) := by
  have htexts := isTexts_of_strings h
  generalize t.get? name = given at htexts ⊢
  cases htexts with
  | none => exact .none
  | some htexts =>
    exact .some ⟨_, htexts, Text.pairwise_sortedSet _, fun _ => Text.mem_sortedSet⟩

theorem isSensitivity_of_ok {sensitivity : Option Sensitivity}
    (h : sensitivityOf given = .ok sensitivity) : Option.Rel IsSensitivity given sensitivity := by
  rw [sensitivityOf.eq_def] at h
  split at h
  · obtain rfl := Except.ok.inj h
    exact .none
  · obtain rfl := Except.ok.inj h
    exact .some rfl
  · next text =>
    split at h
    · next part hpart =>
      obtain rfl := Except.ok.inj h
      have hname : part.name = text := by
        simpa [Component.ofName?] using List.find?_some hpart
      exact .some (congrArg Value.string hname.symm)
    · cases h
  · cases h

theorem archOf_eq_ok {token : String} {arch : Arch} :
    archOf token = .ok arch ↔ Text.lower (Text.strip token) ∈ arch.tokens := by
  rw [← Arch.parse_eq_some, archOf]
  cases Arch.parse token <;> simp

theorem isArchSet_of_ok {tokens : Option (List String)} {arches : Option (List Arch)}
    (htokens : strings t name = .ok tokens) (h : archesOf tokens = .ok arches) :
    Option.Rel IsArchSet (t.get? name) arches := by
  have htexts := isTexts_of_strings htokens
  generalize t.get? name = given at htexts ⊢
  cases htexts with
  | none =>
    obtain rfl := Except.ok.inj h
    exact .none
  | @some _ tokens htexts =>
    obtain ⟨found, hfound, h⟩ := Run.result_bind_eq_ok.mp h
    obtain rfl := Except.ok.inj h
    have hall := Run.map_eq_of_mapM hfound
    refine .some ⟨tokens, htexts, fun token htoken => ?_, List.filter_sublist, fun arch => ?_⟩
    · have hmem : archOf token ∈ found.map .ok := hall ▸ List.mem_map_of_mem htoken
      obtain ⟨arch, -, harch⟩ := List.mem_map.mp hmem
      exact ⟨arch, archOf_eq_ok.mp harch.symm⟩
    · have hmem : (.ok arch : Except Defect Arch) ∈ tokens.map archOf ↔ arch ∈ found := by
        simp [hall]
      simp only [Arch.mem_distinct, ← hmem, List.mem_map, archOf_eq_ok]

theorem isPathFrom_of_ok {dir : Option Path} (h : defaultsDirOf folder given = .ok dir) :
    Option.Rel (IsPathFrom folder) given dir := by
  rw [defaultsDirOf.eq_def] at h
  split at h
  · obtain rfl := Except.ok.inj h
    exact .none
  · next text =>
    obtain rfl := Except.ok.inj h
    exact .some ⟨text, rfl, rfl⟩
  · cases h

theorem isFeatures_of_mapM {entries : Table} {features : ImageFeatures}
    (h : entries.mapM featureOf = .ok features) : IsFeatures (.table entries) features := by
  have hall := Run.mapM_eq_ok.mp h
  clear h
  induction hall with
  | nil => exact ⟨[], rfl, rfl⟩
  | @cons entry feature entries features hentry _ ih =>
    obtain ⟨switches, hentries, rfl⟩ := ih
    obtain rfl := Value.table.inj hentries
    obtain ⟨name, value⟩ := entry
    cases value with
    | boolean enabled =>
      obtain rfl := Except.ok.inj hentry
      exact ⟨(name, enabled) :: switches, rfl, rfl⟩
    | _ => cases hentry

theorem isFeatures_of_ok {features : Option ImageFeatures}
    (h : imageFeaturesOf given = .ok features) : Option.Rel IsFeatures given features := by
  rw [imageFeaturesOf.eq_def] at h
  split at h
  · obtain rfl := Except.ok.inj h
    exact .none
  · obtain ⟨found, hfound, h⟩ := Run.result_bind_eq_ok.mp h
    obtain rfl := Except.ok.inj h
    exact .some (isFeatures_of_mapM hfound)
  · cases h

/-! ## External files -/

theorem exists_items_of_admits (h : (Shape.items inner).admits value = true) :
    ∃ items, value = .array items ∧ ∀ item ∈ items, inner.admits item = true := by
  cases value with
  | array items => exact ⟨items, rfl, List.all_eq_true.mp h⟩
  | _ => cases h

theorem isModules_of_mapM {items : List Value} {kinds : List ModuleKind}
    (h : items.mapM moduleKind? = some kinds) : IsModules (.array items) kinds := by
  refine isTexts_of_mapM ModuleKind.name (fun item kind hkind => ?_) h
  cases item with
  | string text =>
    rw [moduleKind?, ModuleKind.ofName?] at hkind
    split at hkind
    · next hgo =>
      obtain rfl := Option.some.inj hkind
      exact congrArg Value.string hgo
    · cases hkind
  | _ => cases hkind

theorem isModules_of_ok {kinds : Option (List ModuleKind)}
    (hlist : (Shape.setting name (.items inner)).admits (.table t) = true)
    (h : modulesOf (t.get? name) = .ok kinds) : Option.Rel IsModules (t.get? name) kinds := by
  cases hget : t.get? name with
  | none =>
    rw [hget] at h
    obtain rfl := Except.ok.inj h
    exact .none
  | some value =>
    rw [Shape.admits_setting_some hget] at hlist
    obtain ⟨items, rfl, -⟩ := exists_items_of_admits hlist
    rw [hget, modulesOf] at h
    obtain ⟨found, hfound, h⟩ := Run.result_bind_eq_ok.mp h
    obtain rfl := Except.ok.inj hfound
    split at h
    · next found hkinds =>
      obtain rfl := Except.ok.inj h
      exact .some (isModules_of_mapM hkinds)
    · cases h

theorem isPath_of_filePath {found : Option Path} (h : filePath t name = .ok found) :
    Option.Rel IsPath (t.get? name) found := by
  rw [filePath] at h
  split at h
  · next hget =>
    obtain rfl := Except.ok.inj h
    rw [hget]
    exact .none
  · next text hget =>
    obtain rfl := Except.ok.inj h
    rw [hget]
    exact .some ⟨text, rfl, rfl⟩
  · cases h

theorem get?_of_required {text : String} (hvalue : required t name = .ok value)
    (htext : fileText name value = .ok text) : t.get? name = some (.string text) := by
  rw [required] at hvalue
  split at hvalue
  · next found hget =>
    obtain rfl := Except.ok.inj hvalue
    rw [hget]
    cases found with
    | string other => rw [Except.ok.inj htext]
    | _ => cases htext
  · cases hvalue

theorem getD_of_flag (h : (Shape.setting name .flag).admits (.table t) = true) :
    (t.get? name).getD (.boolean false) =
      .boolean (((t.get? name).map Value.isTruthy).getD false) := by
  cases hget : t.get? name with
  | none => rfl
  | some value =>
    rw [Shape.admits_setting_some hget] at h
    cases value with
    | boolean flag => rfl
    | _ => cases h

theorem isFile_of_ok {f : ExternalFile} (hlayout : (fileLayout id .items).admits value = true)
    (h : externalFile value = .ok f) : ∃ t, value = .table t ∧ IsFile t f := by
  cases value with
  | table t =>
    rw [fileLayout, Shape.admits_record, List.all_eq_true] at hlayout
    rw [externalFile] at h
    obtain ⟨url, hurl, h⟩ := Run.result_bind_eq_ok.mp h
    obtain ⟨sha512, hsha512, h⟩ := Run.result_bind_eq_ok.mp h
    obtain ⟨urlText, hurlText, h⟩ := Run.result_bind_eq_ok.mp h
    obtain ⟨sha512Text, hsha512Text, h⟩ := Run.result_bind_eq_ok.mp h
    obtain ⟨modules, hmodules, h⟩ := Run.result_bind_eq_ok.mp h
    obtain ⟨path, hpath, h⟩ := Run.result_bind_eq_ok.mp h
    obtain ⟨root, hroot, h⟩ := Run.result_bind_eq_ok.mp h
    obtain ⟨output, houtput, h⟩ := Run.result_bind_eq_ok.mp h
    obtain rfl := Except.ok.inj h
    exact ⟨t, rfl, {
      url := get?_of_required hurl hurlText
      sha512 := get?_of_required hsha512 hsha512Text
      path := isPath_of_filePath hpath
      direct := getD_of_flag (hlayout _ (by simp))
      modules := isModules_of_ok (hlayout (.setting "bundle-modules" (.items (.word (· = "go")))) (by simp)) hmodules
      bundleRoot := isPath_of_filePath hroot
      bundleOutput := isPath_of_filePath houtput }⟩
  | _ => cases h

theorem isFiles_of_ok {files : Option (List ExternalFile)}
    (hlayout : (Shape.setting name (.items (fileLayout id .items))).admits (.table t) = true)
    (h : externalFilesOf (t.get? name) = .ok files) : Option.Rel IsFiles (t.get? name) files := by
  cases hget : t.get? name with
  | none =>
    rw [hget] at h
    obtain rfl := Except.ok.inj h
    exact .none
  | some value =>
    rw [Shape.admits_setting_some hget] at hlayout
    obtain ⟨items, rfl, hitems⟩ := exists_items_of_admits hlayout
    rw [hget, externalFilesOf] at h
    obtain ⟨found, hfound, h⟩ := Run.result_bind_eq_ok.mp h
    obtain rfl := Except.ok.inj hfound
    obtain ⟨read, hread, h⟩ := Run.result_bind_eq_ok.mp h
    obtain rfl := Except.ok.inj h
    refine .some ⟨items, rfl, ?_⟩
    have hall := (List.forall₂_and_left _ _).mpr ⟨hitems, Run.mapM_eq_ok.mp hread⟩
    exact hall.imp fun _ _ hfile => isFile_of_ok hfile.1 hfile.2

/-! ## Documents -/

theorem at?_empty (place : Key) : (Value.table []).at? (place ++ [name]) = none := by
  cases place <;> rfl

/-- The settings of a section are those that stand at its place. -/
theorem get?_sectionAt {place : Key} (h : sectionAt place document = .ok t) (name : String) :
    t.get? name = setting document place name := by
  rw [sectionAt] at h
  -- the fault tells the whole place, however far down the way it occurs
  generalize Defect.section place = defect at h
  rw [setting]
  induction place generalizing document with
  | nil =>
    obtain rfl := Except.ok.inj h
    exact (Option.bind_fun_some _).symm
  | cons key place ih =>
    rw [List.foldlM_cons] at h
    rw [List.cons_append, Value.at?]
    cases hget : document.get? key with
    | none =>
      rw [hget] at h
      exact (ih h).trans (at?_empty place)
    | some value =>
      rw [hget] at h
      cases value with
      | table entries => exact ih h
      | _ => cases h

theorem admits_of_section {place : Key} {settings : List Shape}
    (hnil : (Shape.record settings).admits (.table []) = true)
    (hlayout : (Shape.within place (.record settings)).admits (.table document) = true)
    (h : sectionAt place document = .ok t) : ∀ shape ∈ settings, shape.admits (.table t) = true := by
  rw [← any_sectionAt hnil, h] at hlayout
  rw [← List.all_eq_true, ← Shape.admits_record]
  exact hlayout

/-- A document that is laid out as documented is read for what it says. -/
theorem declares_of_ok (hlayout : documented.admits (.table document) = true)
    (h : ofDocument path document = .ok m) : Declares path document m := by
  rw [documented, layout, Shape.admits_both, Bool.and_eq_true] at hlayout
  obtain ⟨hpackageLayout, hvariantLayout⟩ := hlayout
  rw [ofDocument] at h
  obtain ⟨package, hpackage, h⟩ := Run.result_bind_eq_ok.mp h
  obtain ⟨variant, hvariant, h⟩ := Run.result_bind_eq_ok.mp h
  obtain ⟨files, hfiles, h⟩ := Run.result_bind_eq_ok.mp h
  obtain ⟨features, hfeatures, h⟩ := Run.result_bind_eq_ok.mp h
  obtain ⟨tokens, htokens, h⟩ := Run.result_bind_eq_ok.mp h
  obtain ⟨arches, harches, h⟩ := Run.result_bind_eq_ok.mp h
  obtain ⟨dir, hdir, h⟩ := Run.result_bind_eq_ok.mp h
  obtain ⟨sensitivity, hsensitivity, h⟩ := Run.result_bind_eq_ok.mp h
  obtain ⟨groups, hgroups, h⟩ := Run.result_bind_eq_ok.mp h
  obtain ⟨included, hincluded, h⟩ := Run.result_bind_eq_ok.mp h
  obtain ⟨parameters, hparameters, h⟩ := Run.result_bind_eq_ok.mp h
  obtain ⟨switches, hswitches, h⟩ := Run.result_bind_eq_ok.mp h
  obtain rfl := Except.ok.inj h
  have hinPackage := admits_of_section rfl hpackageLayout hpackage
  have hinVariant := admits_of_section rfl hvariantLayout hvariant
  have hp := get?_sectionAt hpackage
  have hv := get?_sectionAt hvariant
  exact {
    same_path := rfl
    packageName := hp _ ▸ isText_of_admits (hinPackage _ (by simp))
    sensitivity := hp _ ▸ isSensitivity_of_ok hsensitivity
    packageFeatures := hp _ ▸ isTextSet_of_strings hfeatures
    sourceGroups := hp _ ▸ isTexts_of_strings hgroups
    externalFiles := hp _ ▸ isFiles_of_ok (hinPackage _ (by simp)) hfiles
    includedPackages := hv _ ▸ isTexts_of_strings hincluded
    imageFormat := hv _ ▸ isText_of_admits (hinVariant _ (by simp))
    kernelParameters := hv _ ▸ isTexts_of_strings hparameters
    arches := hv _ ▸ isArchSet_of_ok htokens harches
    imageFeatures := hv _ ▸ isFeatures_of_ok hswitches
    defaultsDir := hv _ ▸ isPathFrom_of_ok hdir }

end Manifest

end BuildHook
