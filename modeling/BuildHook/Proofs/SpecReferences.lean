import BuildHook.Proofs.LinkWalks
import BuildHook.Proofs.NamedPlaces
import BuildHook.Proofs.SpecTags
import Mathlib.Data.String.Basic

/-!
# References of spec files

What a spec file refers to stands next to it: the name of a tag is one step from the folder of the
spec file. A name is never empty and never the step that stays, but it can be the step that goes up.
Then the reference is to the folder above.
-/

namespace BuildHook

open Files (byName)

variable {path : Path} {name : String}

/-! ## The last step of a written path -/

theorem getLast?_filter_eq_some {α : Type} {kind : α → Bool} {xs : List α} {x : α} :
    (xs.filter kind).getLast? = some x ↔ kind x = true ∧
      ∃ before after, xs = before ++ x :: after ∧ ∀ y ∈ after, kind y = false := by
  rw [List.getLast?_filter, List.find?_eq_some_iff_append]
  refine and_congr_right fun _ => ?_
  constructor
  · rintro ⟨before, after, hxs, hbefore⟩
    refine ⟨after.reverse, before.reverse, ?_, fun y hy => ?_⟩
    · rw [← List.reverse_reverse xs, hxs]
      simp
    · simpa using hbefore y (List.mem_reverse.mp hy)
  · rintro ⟨before, after, rfl, hafter⟩
    refine ⟨after.reverse, before.reverse, by simp, fun y hy => ?_⟩
    simpa using hafter y (List.mem_reverse.mp hy)

/-- Whether a written path has this last step: behind it stand only slashes, and dots between them. -/
def Path.EndsWith (written name : String) : Prop :=
  IsStep name ∧ ∃ before after, Text.pieces '/' written.toList = before ++ name.toList :: after ∧
    ∀ piece ∈ after, piece = [] ∨ piece = ['.']

-- Of the pieces between slashes only the empty one and the dot are no steps.
theorem isStep_eq_false_iff {piece : List Char} (h : '/' ∉ piece) :
    decide (IsStep (String.ofList piece)) = false ↔ piece = [] ∨ piece = ['.'] := by
  have hslash : '/' ∉ (String.ofList piece).toList := by rwa [String.toList_ofList]
  simp only [decide_eq_false_iff_not, IsStep, hslash, not_false_eq_true, and_true, not_and_or,
    ne_eq, not_not, String.ofList_eq]
  rfl

theorem Path.name_ofString {written : String} (h : name ≠ "") :
    (Path.ofString written).name = name ↔ Path.EndsWith written name := by
  have hlast : (Path.ofString written).name = name ↔
      (Path.ofString written).steps.getLast? = some name := by
    rw [Path.name]
    cases (Path.ofString written).steps.getLast? with
    | none => simpa using h.symm
    | some step => simp
  have hsteps : (Path.ofString written).steps = ((Text.pieces '/' written.toList).filter fun piece =>
      decide (IsStep (String.ofList piece))).map String.ofList := List.filter_map
  rw [hlast, hsteps, List.getLast?_map, Option.map_eq_some_iff]
  simp only [String.ofList_eq, exists_eq_right]
  rw [getLast?_filter_eq_some, String.ofList_toList, decide_eq_true_eq, EndsWith]
  refine and_congr_right fun _ => exists_congr fun before => exists_congr fun after => ?_
  refine and_congr_right fun hpieces => forall₂_congr fun piece hpiece => ?_
  have hmem : piece ∈ Text.pieces '/' written.toList := by
    rw [hpieces]
    exact List.mem_append_right before (List.mem_cons_of_mem _ hpiece)
  exact isStep_eq_false_iff (Text.notMem_of_mem_pieces hmem)

theorem Path.isStep_name (p : Path) (h : p.name ≠ "") : IsStep p.name := by
  unfold name at h ⊢
  cases hlast : p.steps.getLast? with
  | none =>
    rw [hlast] at h
    exact absurd rfl h
  | some step => exact p.isStep step (List.mem_of_getLast? hlast)

theorem Path.name_child (p : Path) (h : IsStep name) : (p.child name).name = name := by
  rw [Path.name, (p.child_of_isStep h).2, List.getLast?_concat]
  rfl

theorem Files.byName_up (current : Location) (p : Path) :
    byName current (p.child "..") = (byName current p).dropLast := by
  have hup : IsStep ".." := by decide
  rw [byName, (p.child_of_isStep hup).2, Files.lexical_append, Files.lexical_up,
    Files.start_eq (Files.anchor_child p hup)]
  rfl

namespace Spec

/-! ## References and tags -/

theorem isStep_nameOf {value : String} (h : nameOf value ≠ "") : IsStep (nameOf value) := by
  unfold nameOf at h ⊢
  split
  · next hparse =>
    rw [hparse] at h
    exact absurd rfl h
  · next url hparse =>
    rw [hparse] at h
    exact Path.isStep_name _ h

/-- How a reference is seen from the folder of its spec file. By its name it is a child of the folder,
and it is one as a place too, unless that name is the step that goes up. -/
structure IsBeside (folder reference : Path) : Prop where
  parent : reference.parent = folder
  isStep : IsStep reference.name
  inside : reference.name ≠ ".." →
    ∀ current, byName current reference = byName current folder ++ [reference.name]
  above : reference.name = ".." →
    ∀ current, byName current reference = (byName current folder).dropLast

theorem isBeside_child (folder : Path) (h : IsStep name) : IsBeside folder (folder.child name) where
  parent := (folder.child_of_isStep h).1
  isStep := by rwa [folder.name_child h]
  inside hname current := by
    rw [folder.name_child h] at hname ⊢
    have hlast := Files.lastName_child folder h hname
    rw [Files.byName_of_lastName hlast, (folder.child_of_isStep h).1]
  above hname current := by
    rw [folder.name_child h] at hname
    rw [hname, Files.byName_up]

variable {s : Session} {bytes : List UInt8} {text : List Char} {spec : Spec}

/-- Whether a line of a text has this tag. -/
def HasTag (text : List Char) (l : TagLine) : Prop :=
  l.chars ∈ Text.lines (Text.foldReturns text)

/-- Whether a tag of a text gives this path: the one of an address with a scheme and a network
location, and the value as a whole otherwise. -/
def HasPath (text : List Char) (written : String) : Prop :=
  ∃ l url, HasTag text l ∧ Url.parse (String.ofList l.value) = .ok url ∧
    written = if url.scheme ≠ "" ∧ url.location ≠ "" then url.path else String.ofList l.value

-- Of a spec file that is taken every tag has a name, and what is referred to are the children of its
-- folder with these names.
theorem references_of_ofText (h : ofText path text = .ok spec) :
    (∀ l, HasTag text l → (Url.parse (String.ofList l.value)).isOk = true ∧ l.name ≠ "") ∧
      ∀ reference, reference ∈ spec.sources ++ spec.patches ↔
        ∃ l, HasTag text l ∧ path.parent.child l.name = reference := by
  obtain ⟨tags, htagged, htags⟩ :=
    exists_tagged (ascending_zipIdx (Text.lines (Text.foldReturns text)) 1)
  rw [ofText, foldlM_addLine htags] at h
  have hnamed := named_of_foldlM h
  rw [foldlM_numbered (fun entry hentry => (hnamed entry hentry).1)
    fun entry hentry => (hnamed entry hentry).2] at h
  obtain rfl := Except.ok.inj h
  have htag : ∀ l, HasTag text l ↔ ∃ number, (number, l) ∈ tags := by
    intro l
    constructor
    · intro hl
      rw [HasTag, ← List.zipIdx_map_fst 1 (Text.lines (Text.foldReturns text))] at hl
      obtain ⟨⟨line, number⟩, hline, rfl⟩ := List.mem_map.mp hl
      exact ⟨number, (htagged.complete number l).mpr hline⟩
    · rintro ⟨number, hentry⟩
      exact List.fst_mem_of_mem_zipIdx ((htagged.complete number l).mp hentry)
  constructor
  · intro l hl
    obtain ⟨number, hentry⟩ := (htag l).mp hl
    exact hnamed (number, l) hentry
  · intro reference
    rw [List.nil_append, List.nil_append, ← List.map_append, List.mem_map]
    -- the two sides together have all tags
    have hsides := List.filter_append_perm (fun entry : Nat × TagLine => entry.2.tag.isSource) tags
    simp only [hsides.mem_iff, htag]
    constructor
    · rintro ⟨⟨number, l⟩, hentry, rfl⟩
      exact ⟨l, ⟨number, hentry⟩, rfl⟩
    · rintro ⟨l, ⟨number, hentry⟩, rfl⟩
      exact ⟨(number, l), hentry, rfl⟩

-- If all tags are for addresses or paths, their names are the last steps of what they give.
theorem exists_name_iff
    (h : ∀ l, HasTag text l → (Url.parse (String.ofList l.value)).isOk = true) (hne : name ≠ "") :
    (∃ l, HasTag text l ∧ l.name = name) ↔
      ∃ written, HasPath text written ∧ Path.EndsWith written name := by
  have hname : ∀ (l : TagLine) (url : Url), Url.parse (String.ofList l.value) = .ok url →
      l.name = (Path.ofString
        (if url.scheme ≠ "" ∧ url.location ≠ "" then url.path else String.ofList l.value)).name := by
    intro l url hurl
    rw [TagLine.name, nameOf, hurl]
  constructor
  · rintro ⟨l, hl, rfl⟩
    cases hurl : Url.parse (String.ofList l.value) with
    | error fault =>
      have hok := h l hl
      rw [hurl] at hok
      cases hok
    | ok url => exact ⟨_, ⟨l, url, hl, hurl, rfl⟩, (Path.name_ofString hne).mp (hname l url hurl).symm⟩
  · rintro ⟨written, ⟨l, url, hl, hurl, rfl⟩, hends⟩
    exact ⟨l, hl, (hname l url hurl).trans ((Path.name_ofString hne).mpr hends)⟩

/-- What a spec file refers to is named by one step from its folder, the last one of the path that a
tag gives. It stands in the folder, unless that step goes up: then it is the folder above. -/
theorem references_beside (hread : Files.read s.tree s.current path = .ok bytes)
    (htext : Utf8.decode bytes = .ok text) (hspec : (Run.exec (read path) s).1 = .ok spec) :
    (∀ reference ∈ spec.sources ++ spec.patches, IsBeside path.parent reference) ∧
      ∀ name, (∃ reference ∈ spec.sources ++ spec.patches, reference.name = name) ↔
        ∃ written, HasPath text written ∧ Path.EndsWith written name := by
  rw [exec_read_ofText hread htext] at hspec
  obtain ⟨hnamed, hmem⟩ := references_of_ofText hspec
  have hstep : ∀ l, HasTag text l → IsStep l.name := fun l hl => isStep_nameOf (hnamed l hl).2
  constructor
  · intro reference hreference
    obtain ⟨l, hl, rfl⟩ := (hmem reference).mp hreference
    exact isBeside_child path.parent (hstep l hl)
  · intro name
    have hurls := fun l hl => (hnamed l hl).1
    constructor
    · rintro ⟨reference, hreference, rfl⟩
      obtain ⟨l, hl, rfl⟩ := (hmem reference).mp hreference
      rw [Path.name_child _ (hstep l hl)]
      exact (exists_name_iff hurls (hnamed l hl).2).mp ⟨l, hl, rfl⟩
    · rintro ⟨written, hwritten, hends⟩
      obtain ⟨l, hl, rfl⟩ := (exists_name_iff hurls hends.1.1).mpr ⟨written, hwritten, hends⟩
      exact ⟨_, (hmem _).mpr ⟨l, hl, rfl⟩, Path.name_child _ (hstep l hl)⟩

theorem references_beside_sample :
    let path := Path.ofString "p.spec"
    let s := Session.fresh (holding mixedTags) ["r"]
    let spec : Spec := ⟨[Path.ofString "a.tgz"], [Path.ofString "c", Path.ofString "d"]⟩
    Files.read s.tree s.current path = .ok (Utf8.ofString mixedTags) ∧
      Utf8.decode (Utf8.ofString mixedTags) = .ok mixedTags.toList ∧
      (Run.exec (read path) s).1 = .ok spec ∧
      (∀ reference ∈ spec.sources ++ spec.patches, IsBeside path.parent reference) ∧
      ∀ written, HasPath mixedTags.toList written → ¬ Path.EndsWith written ".." := by
  intro path s spec
  have hread : Files.read s.tree s.current path = .ok (Utf8.ofString mixedTags) := by
    decide +kernel
  have htext : Utf8.decode (Utf8.ofString mixedTags) = .ok mixedTags.toList := by decide +kernel
  have hspec : (Run.exec (read path) s).1 = .ok spec := by
    have hsome : (Run.exec (read path) s).1.toOption = some spec := by decide +kernel
    cases hrun : (Run.exec (read path) s).1 with
    | ok found =>
      rw [hrun] at hsome
      exact congrArg Except.ok (Option.some.inj hsome)
    | error fault =>
      rw [hrun] at hsome
      cases hsome
  obtain ⟨hbeside, hnames⟩ := references_beside hread htext hspec
  refine ⟨hread, htext, hspec, hbeside, fun written hwritten hends => ?_⟩
  have hup : ∀ reference ∈ spec.sources ++ spec.patches, reference.name ≠ ".." := by decide
  obtain ⟨reference, hreference, hname⟩ := (hnames "..").mpr ⟨written, hwritten, hends⟩
  exact hup reference hreference hname

/-- A spec file is taken that refers to the folder above its own. -/
theorem folder_above_referred :
    let path := Path.ofString "p.spec"
    let s := Session.fresh (holding "Source0: ..") ["r"]
    ∃ reference, (Run.exec (read path) s).1.toOption = some ⟨[reference], []⟩ ∧
      reference.name = ".." ∧ byName s.current path.parent = ["r"] ∧
      byName s.current reference = [] := by
  intro path s
  exact ⟨Path.ofString "..", by decide +kernel⟩

end Spec

end BuildHook
