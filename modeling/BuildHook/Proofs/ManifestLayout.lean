import BuildHook.Proofs.Reading
import BuildHook.Proofs.Toml.Shapes

/-!
# The layout of manifests

Which documents are taken as manifests, next to the layout that the documentation gives. They differ
in five settings, whose values are not looked at, or only gone through.
-/

namespace BuildHook.Manifest

open Toml (Key Shape Table Value)

variable {α β ε : Type} {document : Table}

/-! ## Layouts -/

/-- The table of an external file, given what is made of the shape of a flag and which values hold
the kinds of modules. -/
def fileLayout (typed list : Shape → Shape) : Shape :=
  .record [
    .required "url", .setting "url" .text,
    .required "sha512", .setting "sha512" .text,
    .setting "path" .text,
    .setting "force-upstream" (typed .flag),
    .setting "bundle-modules" (list (.word (· = "go"))),
    .setting "bundle-root-path" .text,
    .setting "bundle-output-path" .text ]

def sensitivityShape : Shape :=
  .either .flag (.word ["platform", "runtime", "family", "flavor"].contains)

/-- A token of an architecture, in any case and with white space around it. -/
def archShape : Shape :=
  .word fun token =>
    ["x86_64", "aarch64", "amd64", "arm64"].contains (Text.lower (Text.strip token))

def packageLayout (typed list : Shape → Shape) : Shape :=
  .record [
    .setting "package-name" (typed .text),
    .setting "variant-sensitive" sensitivityShape,
    .setting "package-features" (.items .text),
    .setting "source-groups" (.items .text),
    .setting "external-files" (list (fileLayout typed list)) ]

def variantLayout (typed : Shape → Shape) : Shape :=
  .record [
    .setting "included-packages" (.items .text),
    .setting "image-format" (typed .text),
    .setting "kernel-parameters" (.items .text),
    .setting "supported-arches" (.items archShape),
    .setting "image-features" (.entries .flag),
    .setting "defaults-dir" .text ]

def layout (typed list : Shape → Shape) : Shape :=
  .both (.within packagePlace (packageLayout typed list))
    (.within variantPlace (variantLayout typed))

/-- The layout in the documentation. -/
def documented : Shape :=
  layout id .items

/-- The layout of the documents that are taken. -/
def accepted : Shape :=
  layout (fun _ => .anything) .parts

/-- What the documentation says of the settings that are not checked. -/
def unchecked : Shape :=
  .both
    (.within packagePlace (.record [
      .setting "package-name" .text,
      .setting "external-files" (.items (.record [
        .setting "force-upstream" .flag,
        .setting "bundle-modules" (.items .anything) ])) ]))
    (.within variantPlace (.record [.setting "image-format" .text]))

/-! ## Results -/

theorem isOk_bind (x : Except ε α) (f : α → Except ε β) :
    (x >>= f).isOk = x.toOption.any fun a => (f a).isOk := by
  cases x <;> rfl

theorem isOk_map (x : Except ε α) (f : α → β) : (x >>= fun a => pure (f a)).isOk = x.isOk := by
  cases x <;> rfl

/-- A result that the rest does not depend on. -/
theorem isOk_bind_of_forall {x : Except ε α} {f : α → Except ε β} {rest : Bool}
    (h : ∀ a, (f a).isOk = rest) : (x >>= f).isOk = (x.isOk && rest) := by
  cases x with
  | error e => rfl
  | ok a => exact (h a).trans (Bool.true_and rest).symm

theorem isOk_mapM (f : α → Except ε β) (xs : List α) :
    (xs.mapM f).isOk = xs.all fun x => (f x).isOk := by
  induction xs with
  | nil => rfl
  | cons x xs ih =>
    rw [List.mapM_cons, List.all_cons, ← ih]
    exact isOk_bind_of_forall fun b => isOk_map _ _

theorem isSome_mapM (f : α → Option β) (xs : List α) :
    (xs.mapM f).isSome = xs.all fun x => (f x).isSome := by
  induction xs with
  | nil => rfl
  | cons x xs ih =>
    rw [List.mapM_cons, List.all_cons, ← ih]
    cases f x with
    | none => rfl
    | some y => cases xs.mapM f <;> rfl

/-- Two results of which neither depends on the other. -/
theorem any_and (x : Option α) (y : Option β) (p : α → Bool) (q : β → Bool) :
    (x.any fun a => y.any fun b => p a && q b) = (x.any p && y.any q) := by
  cases x <;> cases y <;> simp

/-! ## Settings of one kind -/

/-- A setting that may be missing. -/
theorem isOk_setting {read : Option Value → Except ε α} {inner : Shape}
    (hnone : (read none).isOk = true)
    (hsome : ∀ value, (read (some value)).isOk = inner.admits value) (t : Table) (name : String) :
    (read (t.get? name)).isOk = (Shape.setting name inner).admits (.table t) := by
  cases hget : t.get? name with
  | none => exact hnone.trans (Shape.admits_setting_none hget).symm
  | some value => exact (hsome value).trans (Shape.admits_setting_some hget).symm

theorem any_stringItems (known : String → Bool) (items : List Value) :
    ((stringItems? items).any fun texts => texts.all known) =
      items.all (Shape.word known).admits := by
  induction items with
  | nil => rfl
  | cons item items ih =>
    rw [List.all_cons, ← ih, stringItems?, List.mapM_cons, ← stringItems?]
    cases item with
    | string text => cases stringItems? items <;> simp [Shape.admits]
    | _ => rfl

theorem any_strings (known : String → Bool) (t : Table) (name : String) :
    ((strings t name).toOption.any fun texts => (texts.getD []).all known) =
      (Shape.setting name (.items (.word known))).admits (.table t) := by
  rw [strings]
  cases hget : t.get? name with
  | none => exact (Shape.admits_setting_none hget).symm
  | some value =>
    rw [Shape.admits_setting_some hget]
    cases value with
    | array items =>
      rw [Shape.admits, ← any_stringItems]
      dsimp only
      cases stringItems? items <;> rfl
    | _ => rfl

theorem isOk_strings (t : Table) (name : String) :
    (strings t name).isOk = (Shape.setting name (.items .text)).admits (.table t) := by
  rw [Shape.text, ← any_strings]
  cases strings t name with
  | error defect => rfl
  | ok texts => exact (List.all_eq_true.mpr fun _ _ => rfl).symm

theorem isSome_archParse (token : String) :
    (Arch.parse token).isSome = archShape.admits (.string token) := by
  rw [Arch.parse, archShape, Shape.admits]
  generalize Text.lower (Text.strip token) = name
  split <;> simp_all

theorem isOk_arches (t : Table) (name : String) :
    (strings t name >>= archesOf).isOk =
      (Shape.setting name (.items archShape)).admits (.table t) := by
  have htoken : ∀ token, (archOf token).isOk = archShape.admits (.string token) := by
    intro token
    rw [← isSome_archParse, archOf]
    cases Arch.parse token <;> rfl
  rw [isOk_bind, archShape, ← any_strings]
  congr 1
  funext texts
  cases texts with
  | none => rfl
  | some tokens =>
    rw [archesOf, isOk_map, isOk_mapM, funext htoken]
    rfl

theorem isSome_componentOfName? (text : String) :
    (Component.ofName? text).isSome = (Component.all.map Component.name).contains text := by
  rw [Component.ofName?, List.isSome_find?, List.contains_eq_any_beq, List.any_map]
  congr 1
  funext part
  exact (Bool.beq_eq_decide_eq _ _).symm.trans Bool.beq_comm

theorem isOk_sensitivityOf (t : Table) (name : String) :
    (sensitivityOf (t.get? name)).isOk =
      (Shape.setting name sensitivityShape).admits (.table t) := by
  refine isOk_setting rfl (fun value => ?_) t name
  cases value with
  | string text =>
    calc (sensitivityOf (some (.string text))).isOk
        = (Component.ofName? text).isSome := by
          rw [sensitivityOf]
          cases Component.ofName? text <;> rfl
      _ = sensitivityShape.admits (.string text) := isSome_componentOfName? text
  | _ => rfl

theorem isOk_defaultsDirOf (folder : Path) (t : Table) (name : String) :
    (defaultsDirOf folder (t.get? name)).isOk = (Shape.setting name .text).admits (.table t) := by
  refine isOk_setting rfl (fun value => ?_) t name
  cases value <;> rfl

theorem isOk_featureOf (entry : String × Value) :
    (featureOf entry).isOk = Shape.flag.admits entry.2 := by
  obtain ⟨name, value⟩ := entry
  cases value <;> rfl

theorem isOk_imageFeaturesOf (t : Table) (name : String) :
    (imageFeaturesOf (t.get? name)).isOk =
      (Shape.setting name (.entries .flag)).admits (.table t) := by
  refine isOk_setting rfl (fun value => ?_) t name
  cases value with
  | table entries =>
    rw [imageFeaturesOf, isOk_map, isOk_mapM, funext isOk_featureOf]
    rfl
  | _ => rfl

/-! ## External files -/

theorem any_parts (value : Value) (inner : Shape) :
    ((parts value).toOption.any fun items => items.all inner.admits) =
      (Shape.parts inner).admits value := by
  cases value with
  | array items => rfl
  | string text => exact List.all_map
  | table entries => exact List.all_map
  | _ => rfl

theorem isOk_modulesOf (t : Table) (name : String) :
    (modulesOf (t.get? name)).isOk =
      (Shape.setting name (.parts (.word (· = "go")))).admits (.table t) := by
  have hkind : ∀ value, (moduleKind? value).isSome = (Shape.word (· = "go")).admits value := by
    intro value
    cases value with
    | string text =>
      by_cases h : text = "go" <;> simp [moduleKind?, ModuleKind.ofName?, Shape.admits, h]
    | _ => rfl
  refine isOk_setting rfl (fun value => ?_) t name
  rw [← any_parts, modulesOf, isOk_bind, ← funext hkind]
  congr 1
  funext items
  rw [← isSome_mapM]
  cases items.mapM moduleKind? <;> rfl

theorem isOk_filePath (t : Table) (name : String) :
    (filePath t name).isOk = (Shape.setting name .text).admits (.table t) := by
  rw [filePath]
  cases hget : t.get? name with
  | none => exact (Shape.admits_setting_none hget).symm
  | some value =>
    rw [Shape.admits_setting_some hget]
    cases value <;> rfl

theorem isOk_fileText (name : String) (value : Value) :
    (fileText name value).isOk = Shape.text.admits value := by
  cases value <;> rfl

theorem any_required (t : Table) (name : String) :
    (required t name).toOption.any Shape.text.admits =
      ((Shape.required name).admits (.table t) && (Shape.setting name .text).admits (.table t)) := by
  rw [required, Shape.admits]
  cases hget : t.get? name with
  | none => rfl
  | some value => simp [Shape.admits_setting_some hget, Except.toOption]

theorem isOk_externalFile (value : Value) :
    (externalFile value).isOk = (fileLayout (fun _ => .anything) .parts).admits value := by
  cases value with
  | table t =>
    let rest := (modulesOf (Table.get? t "bundle-modules")).isOk && ((filePath t "path").isOk &&
      ((filePath t "bundle-root-path").isOk && ((filePath t "bundle-output-path").isOk && true)))
    calc (externalFile (.table t)).isOk
        = (required t "url").toOption.any fun url => (required t "sha512").toOption.any fun sha512 =>
            Shape.text.admits url && (Shape.text.admits sha512 && rest) := by
          rw [externalFile, isOk_bind]
          congr 1
          funext url
          rw [isOk_bind]
          congr 1
          funext sha512
          rw [← isOk_fileText "url", ← isOk_fileText "sha512"]
          refine isOk_bind_of_forall fun _ => isOk_bind_of_forall fun _ => ?_
          refine isOk_bind_of_forall fun _ => isOk_bind_of_forall fun _ => ?_
          exact isOk_bind_of_forall fun _ => isOk_bind_of_forall fun _ => rfl
      _ = ((required t "url").toOption.any Shape.text.admits &&
            (required t "sha512").toOption.any Shape.text.admits && rest) := by
          cases (required t "url").toOption <;> cases (required t "sha512").toOption <;>
            simp [Bool.and_assoc]
      _ = (fileLayout (fun _ => .anything) .parts).admits (.table t) := by
          rw [any_required, any_required, fileLayout, Shape.admits_record]
          simp only [rest, isOk_modulesOf, isOk_filePath, List.all_cons, List.all_nil,
            Shape.admits_setting_anything, Bool.and_true, Bool.true_and]
          ac_rfl
  | _ => rfl

theorem isOk_externalFilesOf (t : Table) (name : String) :
    (externalFilesOf (t.get? name)).isOk =
      (Shape.setting name (.parts (fileLayout (fun _ => .anything) .parts))).admits (.table t) := by
  refine isOk_setting rfl (fun value => ?_) t name
  rw [← any_parts, externalFilesOf, isOk_bind, ← funext isOk_externalFile]
  congr 1
  funext items
  rw [isOk_map, isOk_mapM]

/-! ## Documents -/

theorem admits_within_empty {inner : Shape} (hnil : inner.admits (.table []) = true) (place : Key) :
    (Shape.within place inner).admits (.table []) = true := by
  cases place with
  | nil => exact hnil
  | cons name place => rfl

theorem admits_within_of_not_isTable {settings : List Shape} {value : Value} (place : Key)
    (hvalue : ¬ value.isTable = true) :
    (Shape.within place (.record settings)).admits value = false := by
  cases place with
  | nil => exact Bool.eq_false_iff.mpr fun h => hvalue (Shape.isTable_of_admits_record h)
  | cons name place =>
    cases value with
    | table entries => exact absurd rfl hvalue
    | _ => rfl

/-- A missing section counts as an empty one. -/
theorem any_sectionAt {settings : List Shape}
    (hnil : (Shape.record settings).admits (.table []) = true) (place : Key) (document : Table) :
    ((sectionAt place document).toOption.any fun t => (Shape.record settings).admits (.table t)) =
      (Shape.within place (.record settings)).admits (.table document) := by
  rw [sectionAt]
  -- the fault tells the whole place, however far down the way it occurs
  generalize Defect.section place = defect
  induction place generalizing document with
  | nil => rfl
  | cons name place ih =>
    rw [List.foldlM_cons]
    cases hget : document.get? name with
    | none =>
      exact (ih []).trans ((admits_within_empty hnil place).trans
        (Shape.admits_setting_none hget).symm)
    | some value =>
      refine Eq.trans ?_ (Shape.admits_setting_some hget).symm
      by_cases htable : value.isTable = true
      · cases value with
        | table entries => exact ih entries
        | _ => cases htable
      · refine Eq.trans ?_ (admits_within_of_not_isTable place htable).symm
        cases value with
        | table entries => exact absurd rfl htable
        | _ => rfl

theorem isOk_ofDocument (path : Path) (document : Table) :
    (ofDocument path document).isOk = accepted.admits (.table document) := by
  let package (t : Table) := (packageLayout (fun _ => .anything) .parts).admits (.table t)
  let variant (t : Table) := (variantLayout (fun _ => .anything)).admits (.table t)
  have hreaders : ∀ p v : Table, ((externalFilesOf (p.get? "external-files")).isOk &&
      ((strings p "package-features").isOk &&
      ((strings v "supported-arches" >>= archesOf).isOk &&
      ((defaultsDirOf path.parent (v.get? "defaults-dir")).isOk &&
      ((sensitivityOf (p.get? "variant-sensitive")).isOk &&
      ((strings p "source-groups").isOk &&
      ((strings v "included-packages").isOk &&
      ((strings v "kernel-parameters").isOk &&
      ((imageFeaturesOf (v.get? "image-features")).isOk && true))))))))) =
        (package p && variant v) := by
    intro p v
    simp only [package, variant, packageLayout, variantLayout, Shape.admits_record, isOk_strings,
      isOk_arches, isOk_defaultsDirOf, isOk_sensitivityOf, isOk_imageFeaturesOf,
      isOk_externalFilesOf, List.all_cons, List.all_nil, Shape.admits_setting_anything,
      Bool.and_true, Bool.true_and]
    ac_rfl
  calc (ofDocument path document).isOk
      = (sectionAt packagePlace document).toOption.any fun p =>
          (sectionAt variantPlace document).toOption.any fun v => package p && variant v := by
        rw [ofDocument, isOk_bind]
        congr 1
        funext p
        rw [isOk_bind]
        congr 1
        funext v
        rw [← hreaders]
        refine isOk_bind_of_forall fun _ => isOk_bind_of_forall fun _ => ?_
        rw [← bind_assoc]
        refine isOk_bind_of_forall fun _ => isOk_bind_of_forall fun _ => ?_
        refine isOk_bind_of_forall fun _ => isOk_bind_of_forall fun _ => ?_
        refine isOk_bind_of_forall fun _ => isOk_bind_of_forall fun _ => ?_
        exact isOk_bind_of_forall fun _ => rfl
    _ = ((sectionAt packagePlace document).toOption.any package &&
          (sectionAt variantPlace document).toOption.any variant) := any_and _ _ _ _
    _ = accepted.admits (.table document) :=
        (congrArg₂ and (any_sectionAt rfl _ _) (any_sectionAt rfl _ _)).trans Shape.admits_both.symm

theorem admits_fileLayout (value : Value) :
    (fileLayout id .items).admits value =
      ((fileLayout (fun _ => .anything) .parts).admits value &&
        (Shape.record [
          .setting "force-upstream" .flag,
          .setting "bundle-modules" (.items .anything) ]).admits value) := by
  refine Shape.admits_record_both (fun t => ?_) value
  have hmodules : (Shape.setting "bundle-modules" (.items (.word (· = "go")))).admits (.table t) =
      ((Shape.setting "bundle-modules" (.parts (.word (· = "go")))).admits (.table t) &&
        (Shape.setting "bundle-modules" (.items .anything)).admits (.table t)) :=
    Shape.admits_setting_both (Shape.admits_items_both fun _ => (Bool.and_true _).symm) _
  simp only [List.all_cons, List.all_nil, Shape.admits_setting_anything, hmodules, id,
    Bool.and_true, Bool.true_and]
  ac_rfl

theorem documented_eq (value : Value) :
    documented.admits value = (accepted.admits value && unchecked.admits value) := by
  have hpackage : ∀ value, (packageLayout id .items).admits value =
      ((packageLayout (fun _ => .anything) .parts).admits value && (Shape.record [
        .setting "package-name" .text,
        .setting "external-files" (.items (.record [
          .setting "force-upstream" .flag,
          .setting "bundle-modules" (.items .anything) ])) ]).admits value) := by
    refine Shape.admits_record_both fun t => ?_
    simp only [List.all_cons, List.all_nil, Shape.admits_setting_anything, id, Bool.and_true,
      Bool.true_and, Shape.admits_setting_both (Shape.admits_items_both admits_fileLayout)]
    ac_rfl
  have hvariant : ∀ value, (variantLayout id).admits value =
      ((variantLayout fun _ => .anything).admits value &&
        (Shape.record [.setting "image-format" .text]).admits value) := by
    refine Shape.admits_record_both fun t => ?_
    simp only [List.all_cons, List.all_nil, Shape.admits_setting_anything, id, Bool.and_true,
      Bool.true_and]
    ac_rfl
  rw [documented, accepted, unchecked, layout, layout, Shape.admits_both, Shape.admits_both,
    Shape.admits_both, Shape.admits_within_both _ hpackage, Shape.admits_within_both _ hvariant]
  ac_rfl

/-! ## Manifest files -/

/-- A file with a text is read as the document of the text, or refused as the text is. -/
theorem read_of_text {path : Path} {s : Session} {bytes : List UInt8} {text : List Char}
    (hread : Files.read s.tree s.current path = .ok bytes) (htext : Utf8.decode bytes = .ok text) :
    (Run.exec (read path) s).1 =
      match Toml.parse text with
      | .error refusal => .error (.ofRefusal (.manifest path .malformed) refusal)
      | .ok document =>
        (ofDocument path document).mapError fun defect => .manifest path (.defect defect) := by
  have hcontent : s.content (fun fault => .manifest path (.unreadable fault)) path = .ok bytes := by
    rw [Session.content, hread]
    rfl
  rw [exec_read, Session.manifest, hcontent]
  simp only [bind, Except.bind, htext, Except.mapError]
  cases Toml.parse text <;> rfl

theorem read_of_parse {path : Path} {s : Session} {bytes : List UInt8} {text : List Char}
    (hread : Files.read s.tree s.current path = .ok bytes) (htext : Utf8.decode bytes = .ok text)
    (hparse : Toml.parse text = .ok document) :
    (Run.exec (read path) s).1 =
      (ofDocument path document).mapError fun defect => .manifest path (.defect defect) := by
  rw [read_of_text hread htext, hparse]

/-- A file with a document is taken as a manifest just if the document is laid out like an accepted
one, and else it is refused for a defect. Documents of the documented layout are those of them in
which the settings that are not checked are as the documentation says. -/
theorem settings_checked {path : Path} {s : Session} {bytes : List UInt8} {text : List Char}
    (hread : Files.read s.tree s.current path = .ok bytes) (htext : Utf8.decode bytes = .ok text)
    (hparse : Toml.parse text = .ok document) :
    let result := (Run.exec (read path) s).1
    (result.isOk = true ↔ accepted.admits (.table document) = true) ∧
      (∀ fault, result = .error fault → ∃ defect, fault = .manifest path (.defect defect)) ∧
      (documented.admits (.table document) = true ↔
        result.isOk = true ∧ unchecked.admits (.table document) = true) := by
  intro result
  have hresult : result = (ofDocument path document).mapError fun defect =>
      .manifest path (.defect defect) := read_of_parse hread htext hparse
  have hok : result.isOk = accepted.admits (.table document) := by
    rw [hresult, ← isOk_ofDocument path]
    cases ofDocument path document <;> rfl
  refine ⟨by rw [hok], fun fault hfault => ?_, ?_⟩
  · rw [hresult] at hfault
    cases hdocument : ofDocument path document with
    | ok m => rw [hdocument] at hfault; cases hfault
    | error defect =>
      rw [hdocument] at hfault
      exact ⟨defect, (Except.error.inj hfault).symm⟩
  · rw [documented_eq, hok, Bool.and_eq_true]

-- A folder with a manifest of this text.
def holding (text : String) : Tree where
  entries := [(["r"], .folder), (["r", fileName], .file (Utf8.ofString text))]
  distinct := by simp

def packageHead : String :=
  "[package.metadata.build-package]\n"

def fileHead : String :=
  "[[package.metadata.build-package.external-files]]\nurl = \"https://h/x\"\nsha512 = \"00\"\n"

def numberedName : String :=
  packageHead ++ "package-name = 1\nvariant-sensitive = \"flavor\"\n"

theorem settings_checked_sample :
    let path := Path.ofString fileName
    let s := Session.fresh (holding numberedName) ["r"]
    ∃ bytes text document, Files.read s.tree s.current path = .ok bytes ∧
      Utf8.decode bytes = .ok text ∧ Toml.parse text = .ok document ∧
      let result := (Run.exec (read path) s).1
      (result.isOk = true ↔ accepted.admits (.table document) = true) ∧
        (∀ fault, result = .error fault → ∃ defect, fault = .manifest path (.defect defect)) ∧
        (documented.admits (.table document) = true ↔
          result.isOk = true ∧ unchecked.admits (.table document) = true) := by
  intro path s
  have hread : Files.read s.tree s.current path = .ok (Utf8.ofString numberedName) := by
    decide +kernel
  have htext : Utf8.decode (Utf8.ofString numberedName) = .ok numberedName.toList := by
    decide +kernel
  have hok : (Toml.parse numberedName.toList).isOk = true := by decide +kernel
  cases hparse : Toml.parse numberedName.toList with
  | error refusal => rw [hparse] at hok; cases hok
  | ok document =>
    exact ⟨_, _, document, hread, htext, hparse, settings_checked hread htext hparse⟩

/-- Each of these manifests is taken, and each has a setting of a type that is not documented. -/
theorem settings_unchecked :
    let texts := [
      packageHead ++ "package-name = 1\n",
      "[package.metadata.build-variant]\nimage-format = 1\n",
      packageHead ++ "external-files = \"\"\n",
      fileHead ++ "force-upstream = \"no\"\n",
      fileHead ++ "bundle-modules = \x7b go = 1 \x7d\n" ]
    ∀ text ∈ texts,
      (Run.exec (read (Path.ofString fileName)) (.fresh (holding text) ["r"])).1.isOk = true ∧
        (Toml.parse text.toList).toOption.any fun document =>
          !documented.admits (.table document) := by
  decide +kernel

end BuildHook.Manifest
