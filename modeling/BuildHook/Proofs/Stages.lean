import BuildHook.Proofs.Licence
import BuildHook.Proofs.Pipeline
import BuildHook.Proofs.Signalling

/-!
# Stages under a licence

What a licence has to permit so that it allows a stage of a build: the events of the stage, each
after the journals that it can follow, and the changes that the stage makes to the tree.
-/

namespace BuildHook

open Run (exec)

variable {l : Licence} {s : Session}

namespace Licence

theorem allows_watchNewFiles {paths : List Path}
    (hwatch : ∀ path ∈ paths, ∀ next : Session, path ∉ next.watchedFiles →
      l.event next.journal (.notice (.signal (.file path)))) :
    l.Allows (Run.watchNewFiles paths) s := by
  refine allows_forM fun path hpath next => allows_bind allows_get fun now later hget => ?_
  obtain ⟨rfl, rfl⟩ : next = now ∧ next = later := by simpa using hget
  by_cases hnew : path ∈ next.watchedFiles
  · simp only [List.contains_eq_mem, hnew, decide_true, ↓reduceIte]
    exact allows_pure _
  · simp only [List.contains_eq_mem, hnew, decide_false, Bool.false_eq_true, ↓reduceIte]
    exact allows_watchFile (hwatch path hpath next hnew)

theorem allows_watchEnvs {α : Type} {name : α → String} {xs : List α}
    (hwatch : ∀ x ∈ xs, ∀ journal, l.event journal (.notice (.signal (.env (name x))))) :
    l.Allows (xs.forM fun x => Run.watchEnv (name x)) s :=
  allows_forM fun x hx next => allows_watchEnv (hwatch x hx next.journal)

theorem allows_watchNewEnvs {names : List String}
    (hwatch : ∀ name ∈ names, ∀ journal, l.event journal (.notice (.signal (.env name)))) :
    l.Allows (Run.watchNewEnvs names) s := by
  refine allows_bind allows_get fun now next _ => allows_forM fun name hname later => ?_
  split
  · exact allows_pure _
  · exact allows_watchEnv (hwatch name hname later.journal)

theorem allows_requireArch {manifest : Manifest} {arch : Arch} :
    l.Allows (Run.requireArch manifest arch) s :=
  allows_of_exec (Run.exec_requireArch manifest arch s) .refl

theorem allows_watchManifest {path : Path}
    (hwatch : l.event s.journal (.notice (.signal (.file path))))
    (hread : l.event (s.journal ++ [.notice (.signal (.file path))]) (.read path)) :
    l.Allows (Run.watchManifest path) s :=
  allows_of_exec (Run.exec_watchManifest path s) ((Steps.note hwatch).tail (.note hread))

theorem allows_readSpec {path : Path} (hread : l.event s.journal (.read path)) :
    l.Allows (Spec.read path) s :=
  allows_of_exec (Spec.exec_read path s) (.note hread)

theorem allows_checked {image : Image} : l.Allows image.checked s :=
  allows_of_exec (Image.exec_checked image s) .refl

theorem allows_image {image : Image}
    (hchange : l.change s.tree (Files.makeFolders s.tree s.current image.output).1)
    (hcommand : l.event s.journal (.command image.argv (some image.root.text))) :
    l.Allows image.build s := by
  refine allows_bind (allows_makeFolders hchange) fun _ next he => ?_
  obtain rfl : s.withTree _ = next :=
    (Prod.ext_iff.mp ((Run.exec_makeFolders _ image.output s).symm.trans he)).2
  refine allows_bind (allows_requireTexts _) fun _ last he => ?_
  obtain rfl : s.withTree _ = last :=
    (Prod.ext_iff.mp ((Run.exec_requireTexts _ _).symm.trans he)).2
  exact allows_discard (allows_command hcommand)

/-! ## Fetching -/

section Fetching

variable {a : Lookaside} {f : ExternalFile}

/-- Whether a licence lets a file be stored by way of a draft, seen from a current folder: folders are
made up to the draft, which is written, moved to the target and taken away. -/
structure Stores (l : Licence) (current : Location) (draft target : Path) : Prop where
  folders : ∀ t, l.change t (Files.makeFolders t current draft.parent).1
  write : ∀ t t' content, Files.write t current draft content = .ok t' → l.change t t'
  rename : ∀ t t', Files.rename t current draft target = .ok t' → l.change t t'
  remove : ∀ t t', Files.removeIfThere t current draft = .ok t' → l.change t t'

theorem stores_of_forall (hchange : ∀ t t', l.change t t') (current : Location)
    (draft target : Path) : l.Stores current draft target where
  folders t := hchange t _
  write t t' _ _ := hchange t t'
  rename t t' _ := hchange t t'
  remove t t' _ := hchange t t'

namespace Stores

variable {draft target : Path} {name url sha512 : String}

theorem download (h : l.Stores s.current draft target)
    (hrequest : l.event s.journal (.request url a.agent)) :
    l.Allows (a.download url draft sha512) s := by
  have hnote : l.Allows (Run.note (.request url a.agent)) s := allows_note hrequest
  refine allows_bind hnote fun _ next hnext => allows_bind allows_get fun now later hget => ?_
  obtain ⟨rfl, rfl⟩ : next = now ∧ next = later := by simpa using hget
  cases next.reply url with
  | unreachable reason => exact allows_throw _
  | refused reason => exact allows_throw _
  | content pieces broken =>
    rw [← hnote.current_of_exec hnext] at h
    have hfolders : l.Allows (Run.makeFolders (fun fault =>
        Lookaside.downloadFault url (.disk fault)) draft.parent) next :=
      allows_makeFolders (h.folders _)
    refine allows_bind hfolders fun _ made hmade => ?_
    rw [← hfolders.current_of_exec hmade] at h
    refine allows_bind (allows_change fun t => h.write _ t _) fun _ _ _ => ?_
    cases broken with
    | some reason => exact allows_throw _
    | none =>
      dsimp only
      split
      · exact allows_pure _
      · exact allows_throw _

theorem obtain (h : l.Stores s.current draft target)
    (hrequest : ∀ journal url, l.event journal (.request url a.agent)) :
    l.Allows (a.obtain f name draft) s := by
  rw [Lookaside.obtain]
  split
  · exact h.download (hrequest _ _)
  · have hfirst : l.Allows (a.download (f.cacheUrl a.base name) draft f.sha512) s :=
      h.download (hrequest _ _)
    refine allows_tryCatch hfirst fun fault next hnext => ?_
    rw [← hfirst.current_of_exec hnext] at h
    split
    · split
      · exact h.download (hrequest _ _)
      · exact allows_throw _
    · exact allows_throw _

theorem removing (h : l.Stores s.current draft target) {run : Run Unit} (hrun : l.Allows run s) :
    l.Allows (Lookaside.removing draft run) s := by
  have hcaught : l.Allows (tryCatch (Except.ok <$> run) fun fault => pure (Except.error fault)) s :=
    allows_tryCatch (allows_map _ hrun) fun _ _ _ => allows_pure _
  refine allows_bind hcaught fun _ next hnext => ?_
  rw [← hcaught.current_of_exec hnext] at h
  exact allows_bind (allows_change fun t => h.remove _ t) fun _ _ _ => allows_orFail _ _

theorem store (h : l.Stores s.current (target.withName ("." ++ name)) target)
    (hrequest : ∀ journal url, l.event journal (.request url a.agent)) :
    l.Allows (a.store f name target) s := by
  have hobtain : l.Allows (a.obtain f name (target.withName ("." ++ name))) s := h.obtain hrequest
  refine h.removing (allows_bind hobtain fun _ next hnext => ?_)
  rw [← hobtain.current_of_exec hnext] at h
  exact allows_change fun t => h.rename _ t

end Stores

theorem allows_download {url sha512 : String} {goal : Path}
    (hrequest : l.event s.journal (.request url a.agent)) (hchange : ∀ t t', l.change t t') :
    l.Allows (a.download url goal sha512) s :=
  (stores_of_forall hchange s.current goal goal).download hrequest

theorem allows_obtain {name : String} {goal : Path}
    (hrequest : ∀ journal url, l.event journal (.request url a.agent))
    (hchange : ∀ t t', l.change t t') : l.Allows (a.obtain f name goal) s :=
  (stores_of_forall hchange s.current goal goal).obtain hrequest

theorem allows_store {name : String} {target : Path}
    (hrequest : ∀ journal url, l.event journal (.request url a.agent))
    (hchange : ∀ t t', l.change t t') : l.Allows (a.store f name target) s :=
  (stores_of_forall hchange s.current _ target).store hrequest

theorem allows_isPresent {target : Path} (hread : l.event s.journal (.read target)) :
    l.Allows (Lookaside.isPresent f target) s := by
  refine allows_bind allows_get fun now next hget => ?_
  obtain ⟨rfl, rfl⟩ : s = now ∧ s = next := by simpa using hget
  split
  · exact allows_bind (allows_readFile hread) fun _ _ _ => allows_pure _
  · exact allows_bind (allows_orFail _ _) fun _ _ _ => allows_pure _

/-- One file is fetched: nothing is changed for a file without a name, and else it is stored. -/
theorem Stores.fetchOne
    (h : ∀ name, f.localName = .ok name → name ≠ "" →
      l.Stores s.current ((f.target a.folder name).withName ("." ++ name)) (f.target a.folder name))
    (hwatch : ∀ name, f.localName = .ok name →
      l.event s.journal (.notice (.signal (.file (f.target a.folder name)))))
    (hread : ∀ journal path, .notice (.signal (.file path)) ∈ journal →
      l.event journal (.read path))
    (hrequest : ∀ journal url, l.event journal (.request url a.agent)) :
    l.Allows (a.fetchOne f) s := by
  refine allows_bind (allows_orFail _ _) fun name next hlocal => ?_
  obtain ⟨hname, rfl⟩ := Run.exec_orFail_eq_ok.mp hlocal
  dsimp only
  split
  · exact allows_bind (allows_throw _) fun _ _ h => by simp at h
  · next hne =>
    have hstores := h name hname hne
    refine allows_bind (allows_watchFile (hwatch name hname)) fun _ next hnext => ?_
    obtain rfl : s.noting (.notice (.signal (.file (f.target a.folder name)))) = next :=
      (Prod.ext_iff.mp hnext).2
    have hpresent : l.Allows (Lookaside.isPresent f (f.target a.folder name))
        (s.noting (.notice (.signal (.file (f.target a.folder name))))) :=
      allows_isPresent (hread _ _ (by simp))
    refine allows_bind hpresent fun present next hnext => ?_
    split
    · exact allows_pure _
    · rw [← Session.noting_current, ← hpresent.current_of_exec hnext] at hstores
      exact hstores.store hrequest

theorem Stores.fetch {files : List ExternalFile}
    (h : ∀ f ∈ files, ∀ name, f.localName = .ok name → name ≠ "" →
      l.Stores s.current ((f.target a.folder name).withName ("." ++ name)) (f.target a.folder name))
    (hwatch : ∀ f ∈ files, ∀ name, f.localName = .ok name →
      ∀ journal, l.event journal (.notice (.signal (.file (f.target a.folder name)))))
    (hread : ∀ journal path, .notice (.signal (.file path)) ∈ journal →
      l.event journal (.read path))
    (hrequest : ∀ journal url, l.event journal (.request url a.agent)) :
    l.Allows (a.fetch files) s :=
  allows_forM_here fun f hf next hnext =>
    Stores.fetchOne (fun name hname hne => hnext ▸ h f hf name hname hne)
      (fun name hname => hwatch f hf name hname next.journal) hread hrequest

theorem allows_fetch {files : List ExternalFile}
    (hwatch : ∀ f ∈ files, ∀ name, f.localName = .ok name →
      ∀ journal, l.event journal (.notice (.signal (.file (f.target a.folder name)))))
    (hread : ∀ journal path, .notice (.signal (.file path)) ∈ journal →
      l.event journal (.read path))
    (hrequest : ∀ journal url, l.event journal (.request url a.agent))
    (hchange : ∀ t t', l.change t t') : l.Allows (a.fetch files) s :=
  Stores.fetch (fun _ _ _ _ _ => stores_of_forall hchange _ _ _) hwatch hread hrequest

end Fetching

/-! ## Bundling and crawling -/

theorem allows_runBundle {root package : Path} {f : ExternalFile} {image : String}
    (hcommand : ∀ root package script journal,
      l.event journal (.command (Bundle.argv root package image script) none)) :
    l.Allows (Bundle.run root package f image) s := by
  refine allows_bind allows_get fun now _ _ => ?_
  refine allows_bind (allows_orFail _ _) fun root _ _ => ?_
  refine allows_bind (allows_orFail _ _) fun package _ _ => ?_
  dsimp only
  split
  · refine allows_bind (allows_orFail _ _) fun script _ _ => ?_
    exact allows_discard (allows_command (hcommand root package script _))
  · exact allows_bind (allows_throw _) fun _ _ h => by simp at h

theorem allows_bundle {request : PackageRequest} {f : ExternalFile}
    (hcommand : ∀ root package script journal,
      l.event journal
        (.command (Bundle.argv root package request.project.sdkImage script) none)) :
    l.Allows (request.bundle f) s :=
  allows_forM fun kind _ _ => by
    cases kind
    exact allows_runBundle hcommand

theorem allows_watchSources {request : PackageRequest} {groups : List String}
    (hwatch : ∀ path, ∀ next : Session, path ∉ next.watchedFiles →
      l.event next.journal (.notice (.signal (.file path)))) :
    l.Allows (request.watchSources groups) s := by
  refine allows_bind allows_get fun now _ _ => ?_
  refine allows_bind (allows_orFail _ _) fun files _ _ => ?_
  exact allows_watchNewFiles fun path _ next => hwatch path next

/-! ## Default settings -/

theorem allows_readFragment {fragment : Path}
    (hwatch : l.event s.journal (.notice (.signal (.file fragment))))
    (hread : l.event (s.journal ++ [.notice (.signal (.file fragment))]) (.read fragment)) :
    l.Allows (Defaults.readFragment fragment) s :=
  allows_of_exec (Defaults.exec_readFragment fragment s) ((Steps.note hwatch).tail (.note hread))

theorem allows_replaceFile {output : Path} {content : List UInt8}
    (hchange : ∀ t t', l.change t t') : l.Allows (Defaults.replaceFile output content) s := by
  refine allows_bind (allows_makeFolders (hchange _ _)) fun _ _ _ => ?_
  refine allows_bind allows_get fun now _ _ => ?_
  refine allows_bind (allows_change fun t _ => hchange _ t) fun _ _ _ => ?_
  refine allows_tryCatch (allows_change fun t _ => hchange _ t) fun _ _ _ => ?_
  exact allows_bind (allows_change fun t _ => hchange _ t) fun _ _ _ => allows_throw _

theorem allows_generate {folder : Option Path} {root : Path}
    (hwatch : ∀ journal path, l.event journal (.notice (.signal (.file path))))
    (hread : ∀ journal path, .notice (.signal (.file path)) ∈ journal →
      l.event journal (.read path))
    (hchange : ∀ t t', l.change t t') : l.Allows (Defaults.generate folder root) s := by
  cases folder with
  | none => exact allows_pure _
  | some folder =>
    refine allows_map _ (allows_bind (allows_of_exec (Defaults.exec_fragments folder s) .refl)
      fun fragments next _ => ?_)
    refine allows_bind (allows_mapM fun fragment _ later => ?_) fun tables _ _ => ?_
    · exact allows_readFragment (hwatch _ _) (hread _ _ (by simp))
    · refine allows_bind (allows_orFail _ _) fun _ _ _ => ?_
      exact allows_bind (allows_replaceFile hchange) fun _ _ _ => allows_pure _

/-! ## Pipelines -/

section Pipelines

variable {request : PackageRequest} {manifest variant : Manifest}

theorem allows_surveyPackage
    (hwatch : ∀ path, ∀ next : Session, path ∉ next.watchedFiles →
      l.event next.journal (.notice (.signal (.file path))))
    (hread : ∀ journal path, l.event journal (.read path)) :
    l.Allows (request.survey manifest variant) s := by
  refine allows_bind (allows_watchSources hwatch) fun _ _ _ => ?_
  refine allows_bind (allows_requireTexts _) fun _ _ _ => ?_
  refine allows_bind ?_ fun _ _ _ => allows_checked
  refine allows_bind (allows_watchNewFiles fun path _ => hwatch path) fun _ next _ => ?_
  refine allows_bind (allows_readSpec (hread next.journal _)) fun _ _ _ => ?_
  exact allows_watchNewFiles fun path _ => hwatch path

theorem allows_assemble {manifests : Manifest × Manifest}
    (hcommand : ∀ root package script journal, l.event journal
      (.command (Bundle.argv root package request.project.sdkImage script) none))
    (hwatch : ∀ path, ∀ next : Session, path ∉ next.watchedFiles →
      l.event next.journal (.notice (.signal (.file path))))
    (hread : ∀ journal path, l.event journal (.read path)) :
    l.Allows (request.assemble manifests) s :=
  allows_bind (allows_forM fun _ _ _ => allows_bundle hcommand) fun _ _ _ =>
    allows_surveyPackage hwatch hread

theorem allows_surveyVariant {request : VariantRequest} :
    l.Allows (request.survey manifest) s := by
  unfold VariantRequest.survey
  cases manifest.includedPackages with
  | none => exact allows_pure _
  | some packages => exact allows_map _ allows_checked

end Pipelines

end Licence

end BuildHook
