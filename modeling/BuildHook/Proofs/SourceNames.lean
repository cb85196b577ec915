import BuildHook.Proofs.Integrity
import BuildHook.Proofs.Repeats

/-!
# Names of sources

A spec file names a source by its address, and an external file is stored under the last segment of
its address. Both come to the same path, so a spec file that names an external file adds no second
signal to that of the file.
-/

namespace BuildHook

open Run (exec)

namespace Text

theorem isLineBreak_of_isDecimalDigit {c : Char} (h : isDecimalDigit c) :
    isLineBreak c = false := by
  apply Bool.eq_false_iff.mpr
  intro hbreak
  rw [isDecimalDigit_of_isBlank (isBlank_of_isLineBreak hbreak)] at h
  cases h

theorem lines_of_unbroken {line : List Char} (hne : line ≠ []) (h : line.any isLineBreak = false) :
    lines line = [line] := by
  induction line with
  | nil => exact absurd rfl hne
  | cons c rest ih =>
    obtain ⟨hc, hrest⟩ := Bool.or_eq_false_iff.mp h
    cases rest with
    | nil => simp [lines, hc]
    | cons d rest => rw [lines, if_neg (by simp [hc]), ih (by simp) hrest]

theorem foldReturns_of_unbroken {cs : List Char} (h : cs.any isLineBreak = false) :
    foldReturns cs = cs := by
  rw [List.any_eq_false] at h
  exact foldReturns_of_notMem fun hmem => h '\r' hmem rfl

end Text

/-- An address with its parts that a line of a spec file can name: it has a scheme and a network
location, and neither a line break nor white space around it. -/
structure Url.OnLine (address : String) (url : Url) : Prop where
  parsed : Url.parse address = .ok url
  scheme : url.scheme ≠ ""
  location : url.location ≠ ""
  unbroken : address.toList.any Text.isLineBreak = false
  trimmed : Text.trim address.toList = address.toList

namespace Spec

variable {path : Path} {spec spec' : Spec} {line : List Char} {number : List Char}
  {address : String} {url : Url}

/-- The line of a spec file that names a source by its address. -/
def sourceLine (number : List Char) (address : String) : List Char :=
  ['S', 'o', 'u', 'r', 'c', 'e'] ++ number ++ ':' :: ' ' :: address.toList

theorem valueAfter?_number (hnumber : number.all Text.isDecimalDigit) (value : List Char) :
    valueAfter? (number ++ ':' :: value) =
      if (Text.trim value).isEmpty then none else some (Text.trim value) := by
  have hdigits : (number ++ ':' :: value).dropWhile Text.isDecimalDigit = ':' :: value := by
    rw [List.dropWhile_append_of_pos (List.all_eq_true.mp hnumber)]
    exact List.dropWhile_cons_of_neg (by decide)
  rw [valueAfter?, hdigits, List.dropWhile_cons_of_neg (by decide)]
  rfl

theorem tag?_sourceLine (hnumber : number.all Text.isDecimalDigit)
    (htrimmed : Text.trim address.toList = address.toList) (hne : address ≠ "") :
    tag? (sourceLine number address) = some ⟨true, address⟩ := by
  have hword : afterTagWord? (sourceLine number address) =
      some (number ++ ':' :: ' ' :: address.toList) := rfl
  have htrim : Text.trim (' ' :: address.toList) = address.toList := by
    rw [← htrimmed, Text.trim, List.dropWhile_cons_of_pos (by decide), ← Text.trim, htrimmed,
      htrimmed]
  have hvalue : valueAfter? (number ++ ':' :: ' ' :: address.toList) = some address.toList := by
    rw [valueAfter?_number hnumber, htrim, if_neg (by simpa using hne)]
  have htake : (sourceLine number address).take ((sourceLine number address).length -
      (number ++ ':' :: ' ' :: address.toList).length) = ['S', 'o', 'u', 'r', 'c', 'e'] := by
    rw [sourceLine, List.append_assoc, List.length_append, Nat.add_sub_cancel]
    rfl
  simp only [tag?, hword, hvalue, htake, Option.bind_eq_bind, Option.bind_some, Option.pure_def,
    String.ofList_toList]
  rfl

theorem sourceLine_unbroken (hnumber : number.all Text.isDecimalDigit)
    (h : address.toList.any Text.isLineBreak = false) :
    (sourceLine number address).any Text.isLineBreak = false := by
  have hdigits : number.any Text.isLineBreak = false :=
    List.any_eq_false.mpr fun c hc => Bool.eq_false_iff.mp
      (Text.isLineBreak_of_isDecimalDigit (List.all_eq_true.mp hnumber c hc))
  have hcolon : (':' :: ' ' :: address.toList).any Text.isLineBreak = false := by
    rw [List.any_cons, List.any_cons, h]
    decide
  rw [sourceLine, List.any_append, List.any_append, hdigits, hcolon]
  decide

theorem fileName_of_onLine (h : url.OnLine address) : fileName address = .ok url.fileName := by
  simp only [fileName, h.parsed]
  change Except.ok _ = _
  rw [if_pos (by simp [h.scheme, h.location])]

theorem addLine_sourceLine (hnumber : number.all Text.isDecimalDigit)
    (h : url.OnLine address) (n : Nat) :
    addLine path spec (sourceLine number address, n) =
      if url.fileName = "" then
        .error (.spec path (.nameless n (String.ofList (sourceLine number address))))
      else .ok (spec.add true (path.parent.child url.fileName)) := by
  have hne : address ≠ "" := by
    rintro rfl
    have hparsed : url = ⟨"", "", ""⟩ := Except.ok.inj (h.parsed.symm.trans (by decide +kernel))
    exact h.scheme (by rw [hparsed])
  simp only [addLine, tag?_sourceLine hnumber h.trimmed hne, fileName_of_onLine h]

theorem sources_prefix_of_addLine {line : List Char × Nat}
    (h : addLine path spec line = .ok spec') : spec.sources <+: spec'.sources := by
  unfold addLine at h
  split at h
  · cases h
    exact List.prefix_rfl
  · split at h
    · cases h
    · split at h
      · cases h
      · cases h
        unfold add
        split
        · exact List.prefix_append _ _
        · exact List.prefix_rfl

theorem sources_prefix_of_addLines {lines : List (List Char × Nat)}
    (h : lines.foldlM (addLine path) spec = .ok spec') : spec.sources <+: spec'.sources := by
  induction lines generalizing spec with
  | nil =>
    cases h
    exact List.prefix_rfl
  | cons line lines ih =>
    rw [List.foldlM_cons] at h
    obtain ⟨next, hnext, h⟩ := Run.result_bind_eq_ok.mp h
    exact (sources_prefix_of_addLine hnext).trans (ih h)

/-- A text with a line that names a source has the source among its sources. -/
theorem mem_sources_of_sourceLine (hnumber : number.all Text.isDecimalDigit)
    (h : url.OnLine address) {text : List Char}
    (hline : sourceLine number address ∈ Text.lines (Text.foldReturns text))
    (hspec : ofText path text = .ok spec) : path.parent.child url.fileName ∈ spec.sources := by
  obtain ⟨n, hindex⟩ := List.mem_iff_getElem?.mp hline
  have hmem : (sourceLine number address, n + 1) ∈
      (Text.lines (Text.foldReturns text)).zipIdx 1 := by
    rw [List.mem_zipIdx_iff_le_and_getElem?_sub]
    exact ⟨by omega, by simpa using hindex⟩
  obtain ⟨before, after, hsplit⟩ := List.append_of_mem hmem
  rw [ofText, hsplit, List.foldlM_append] at hspec
  obtain ⟨middle, -, hrest⟩ := Run.result_bind_eq_ok.mp hspec
  rw [List.foldlM_cons] at hrest
  obtain ⟨next, hnext, hrest⟩ := Run.result_bind_eq_ok.mp hrest
  rw [addLine_sourceLine hnumber h] at hnext
  split at hnext
  · cases hnext
  · cases hnext
    refine (sources_prefix_of_addLines hrest).subset ?_
    exact List.mem_append_right _ (List.mem_singleton_self _)

/-- What a text of one line that names a source gives. -/
theorem ofText_sourceLine (hnumber : number.all Text.isDecimalDigit)
    (h : url.OnLine address) :
    ofText path (sourceLine number address) =
      if url.fileName = "" then
        .error (.spec path (.nameless 1 (String.ofList (sourceLine number address))))
      else .ok ⟨[path.parent.child url.fileName], []⟩ := by
  have hunbroken := sourceLine_unbroken hnumber h.unbroken
  rw [ofText, Text.foldReturns_of_unbroken hunbroken,
    Text.lines_of_unbroken (by simp [sourceLine]) hunbroken]
  change (addLine path ⟨[], []⟩ (sourceLine number address, 1) >>= fun spec => pure spec) = _
  rw [bind_pure, addLine_sourceLine hnumber h]
  rfl

end Spec

namespace PackageRequest

variable {request : PackageRequest} {f : ExternalFile} {url : Url} {number : List Char}
  {manifests : Manifest × Manifest} {s fetched : Session}

theorem parent_specPath {package : String} (h : '/' ∉ package.toList) (folder : Path) :
    (folder.child (package ++ ".spec")).parent = folder := by
  have hstep : IsStep (package ++ ".spec") := by
    have hlength : (package ++ ".spec").length = package.length + 5 :=
      String.length_append _ _
    refine ⟨fun hempty => ?_, fun hdot => ?_, ?_⟩
    · rw [hempty] at hlength
      change 0 = _ at hlength
      omega
    · rw [hdot] at hlength
      change 1 = _ at hlength
      omega
    · rw [String.toList_append, List.mem_append, not_or]
      exact ⟨h, by decide⟩
  exact (folder.child_of_isStep hstep).1

/-- Behind the manifests and the external files, a build signals only files that are new. -/
theorem files_of_gather (h : exec request.gather s = (.ok manifests, fetched)) :
    ∃ fresh, (exec request.build s).2.watchedFiles =
        s.watchedFiles ++ request.unchecked s ++ fresh ∧
      ∀ path ∈ fresh, path ∉ s.watchedFiles ++ request.unchecked s := by
  obtain ⟨sent, hsent, -, hall⟩ := request.sends_gather (s := s)
  rw [h] at hsent hall
  obtain rfl := hall manifests rfl
  obtain ⟨fresh, hfresh, -, hnew⟩ := (Licence.newFiles_assemble request manifests).files_new
  rw [build_eq, prepare, bind_assoc, Run.exec_bind_of_ok h]
  rw [hsent] at hfresh hnew
  exact ⟨fresh, hfresh, hnew⟩

theorem mem_unchecked_of_gather (h : exec request.gather s = (.ok manifests, fetched))
    (hf : f ∈ files manifests.1) {target : Path}
    (htarget : request.lookaside.target? f = some target) : target ∈ request.unchecked s := by
  obtain ⟨entered, henter⟩ := entered_of_gather h
  rw [unchecked, (enter_eq_ok.mp henter).1]
  refine List.mem_cons_of_mem _ (List.mem_cons_of_mem _ ?_)
  exact List.mem_filterMap.mpr ⟨f, hf, htarget⟩

/-- An address names one file for a spec file and for an external file. If it gives no name, both
refuse it. Otherwise the spec file next to the manifest names the path that the external file is
stored at, alone on a line or among others, and a build in which that file is fetched signals this
path with the files that it fetches and not again behind them. -/
theorem source_is_target (hurl : url.OnLine f.url) (hpath : f.path = none)
    (hnumber : number.all Text.isDecimalDigit) {package : String}
    (hpackage : '/' ∉ package.toList) :
    let line := Spec.sourceLine number f.url
    let specPath := request.project.manifestDir.child (package ++ ".spec")
    let target := f.target request.project.manifestDir url.fileName
    f.localName = .ok url.fileName ∧ Spec.fileName f.url = .ok url.fileName ∧
    (url.fileName = "" → request.lookaside.target? f = none ∧
      Spec.ofText specPath line = .error (.spec specPath (.nameless 1 (String.ofList line)))) ∧
    (url.fileName ≠ "" → request.lookaside.target? f = some target ∧
      Spec.ofText specPath line = .ok ⟨[target], []⟩) ∧
    (∀ text spec, line ∈ Text.lines (Text.foldReturns text) →
      Spec.ofText specPath text = .ok spec → target ∈ spec.sources) ∧
    ∀ s manifests fetched, exec request.gather s = (.ok manifests, fetched) →
      f ∈ files manifests.1 → url.fileName ≠ "" →
      ∃ fresh, (exec request.build s).2.watchedFiles =
          s.watchedFiles ++ request.unchecked s ++ fresh ∧
        target ∈ request.unchecked s ∧ target ∉ fresh := by
  intro line specPath target
  have hlocal : f.localName = .ok url.fileName := by
    rw [ExternalFile.localName, hpath]
    simp only [hurl.parsed]
    rfl
  have htarget : target = specPath.parent.child url.fileName := by
    rw [parent_specPath hpackage]
    simp only [target, ExternalFile.target, hpath]
  have hgoal : request.lookaside.target? f = if url.fileName = "" then none else some target := by
    rw [Lookaside.target?, hlocal]
    rfl
  have hline : Spec.ofText specPath line = _ := Spec.ofText_sourceLine hnumber hurl
  refine ⟨hlocal, Spec.fileName_of_onLine hurl, fun hname => ?_, fun hname => ?_,
    fun text spec hmem hspec => ?_, fun s manifests fetched hgather hf hname => ?_⟩
  · rw [if_pos hname] at hgoal hline
    exact ⟨hgoal, hline⟩
  · rw [if_neg hname, ← htarget] at hline
    rw [if_neg hname] at hgoal
    exact ⟨hgoal, hline⟩
  · rw [htarget]
    exact Spec.mem_sources_of_sourceLine hnumber hurl hmem hspec
  · rw [if_neg hname] at hgoal
    have hsent := mem_unchecked_of_gather hgather hf hgoal
    obtain ⟨fresh, hfiles, hnew⟩ := files_of_gather hgather
    refine ⟨fresh, hfiles, hsent, fun hmem => hnew target hmem ?_⟩
    exact List.mem_append_right _ hsent

-- A package with an empty external file of each host, all stored under one name, and a spec file
-- that names the first one.
def hostedFile (host : String) : ExternalFile :=
  ⟨"https://" ++ host ++ "/d/x;1?y#z", Lookaside.emptyDigest, none, false, none, none, none⟩

def hostedTree (hosts : List String) : Tree :=
  let entry := fun host =>
    "[[package.metadata.build-package.external-files]]\nurl = '".toList ++
      (hostedFile host).url.toList ++ "'\nsha512 = '".toList ++
        Lookaside.emptyDigest.toList ++ "'\n".toList
  let named := Spec.sourceLine ['0'] (hostedFile "h").url
  ((sampleTree.put ["r", "p", "Cargo.toml"] (.file (Utf8.encode (hosts.flatMap entry)))).put
    ["r", "p", "p.spec"] (.file (Utf8.encode named))).put ["r", "p", "x"] (.file [])

theorem source_is_target_sample :
    let f := hostedFile "h"
    let s := Session.fresh (hostedTree ["h"]) ["r"]
    let target := f.target sample.project.manifestDir "x"
    (Url.mk "https" "h" "/d/x").OnLine f.url ∧ f.path = none ∧
      ['0'].all Text.isDecimalDigit ∧ '/' ∉ sample.name.toList ∧
      (∃ manifests fetched, exec sample.gather s = (.ok manifests, fetched) ∧
        f ∈ files manifests.1) ∧
      ∃ fresh, (exec sample.build s).2.watchedFiles = sample.unchecked s ++ fresh ∧
        target ∈ sample.unchecked s ∧ target ∉ fresh := by
  intro f s target
  have hurl : (Url.mk "https" "h" "/d/x").OnLine f.url :=
    ⟨by decide +kernel, by decide, by decide, by decide +kernel, by decide +kernel⟩
  have hdigits : ['0'].all Text.isDecimalDigit := by decide
  have hpackage : '/' ∉ sample.name.toList := by decide
  have hname : Url.fileName ⟨"https", "h", "/d/x"⟩ = "x" := by decide +kernel
  have hfiles : (exec sample.gather s).1.toOption.any (fun manifests =>
      decide (f ∈ files manifests.1)) = true := by
    decide +kernel
  generalize hrun : exec sample.gather s = run at hfiles
  obtain ⟨result, fetched⟩ := run
  cases result with
  | error fault => cases hfiles
  | ok manifests =>
    have hf : f ∈ files manifests.1 := by simpa [Except.toOption] using hfiles
    obtain ⟨-, -, -, -, -, hbuild⟩ := source_is_target hurl rfl hdigits hpackage
    obtain ⟨fresh, hwatched, hsent, hnew⟩ :=
      hbuild s manifests fetched hrun hf (by rw [hname]; decide)
    rw [hname] at hsent hnew
    exact ⟨hurl, rfl, hdigits, hpackage, ⟨manifests, fetched, rfl, hf⟩, fresh, hwatched,
      hsent, hnew⟩

/-- How often a run that succeeds has signalled a path. -/
def signalCount (path : Path) : Except Fault Unit × Session → Option Nat
  | (.ok _, last) => some (last.watchedFiles.count path)
  | (.error _, _) => none

/-- A build that succeeds and signals the target of an external file twice, since another external
file has the same target. -/
theorem target_repeats :
    signalCount ((hostedFile "h").target sample.project.manifestDir "x")
      (exec sample.build (.fresh (hostedTree ["h", "g"]) ["r"])) = some 2 := by
  decide +kernel

end PackageRequest

end BuildHook
