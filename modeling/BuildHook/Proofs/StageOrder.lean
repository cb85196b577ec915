import BuildHook.Proofs.Commands
import BuildHook.Proofs.Stages

/-!
# The order of the stages

Requests come before commands, and commands in the order in which the manifest declares them. The
command that builds the image is the last event of a build. A build that its manifests do not admit
has no effect at all.
-/

namespace BuildHook

open Run (exec)

variable {α : Type}

namespace Event

-- The two kinds of commands are told apart by their first words.
def buildsImage : Event → Bool
  | .command argv _ => argv.take 2 = ["docker", "build"]
  | _ => false

def bundles? : Event → Option (List String)
  | .command argv _ => if argv.take 2 = ["docker", "run"] then some argv else none
  | _ => none

theorem buildsImage_of_command? {e : Event} (h : e.command? = none) : e.buildsImage = false := by
  cases e with
  | command argv folder => cases h
  | _ => rfl

end Event

namespace Session

-- The commands between two sessions, each with its folder.
def commandsSince (s' s : Session) : List (List String × Option String) :=
  (s'.since s).filterMap Event.command?

-- The commands between two sessions that bundle modules.
def bundlesSince (s' s : Session) : List (List String) :=
  (s'.since s).filterMap Event.bundles?

end Session

/-- A run that fails without a request, a command or a change of the tree. -/
def Refused (m : Run Unit) (s : Session) : Prop :=
  (∃ fault, (exec m s).1 = .error fault) ∧ (exec m s).2.tree = s.tree ∧
    ∀ e ∈ (exec m s).2.since s, e.request? = none ∧ e.command? = none

/-- A fault with which the building of an image can end once its command has been started: that of
the attempt, or what the command has written is no text. -/
def Outcome.FailsBuild (outcome : Outcome) (fault : Fault) : Prop :=
  (∃ cause, fault = .attempt cause) ∨
    ∃ malformed, outcome.Garbled malformed ∧ fault = .undecodable malformed

/-- A run that builds an image only when its preparation has succeeded, and does nothing after
that. Once it has started to build, it fails by the outcome of that command only. -/
def BuildsLast (prepare : Run α) (m : Run Unit) (s : Session) : Prop :=
  ∀ before e later, (exec m s).2.since s = before ++ e :: later → e.buildsImage = true →
    later = [] ∧
    ∃ a prepared, exec prepare s = (.ok a, prepared) ∧ prepared.since s = before ∧
      ∀ fault, (exec m s).1 = .error fault → prepared.nextOutcome.FailsBuild fault

/-- What holds of the stages of a package's build. -/
structure PackageRequest.Staged (request : PackageRequest) (s : Session) : Prop where
  refused :
    (∀ manifest variant, s.manifest request.manifestPath = .ok manifest →
      s.manifest request.variantManifestPath = .ok variant →
      variant.supports request.project.arch = false) →
    Refused request.build s
  requestsFirst :
    (∀ e ∈ (exec request.gather s).2.since s, e.command? = none) ∧
    ∀ e ∈ (exec request.build s).2.since (exec request.gather s).2, e.request? = none
  bundlesInOrder : ∀ manifest, s.manifest request.manifestPath = .ok manifest →
    ((exec request.build s).2.bundlesSince s).map .ok <+:
      request.bundling (files manifest) (exec request.gather s).2.tree s.current
  buildsLast : BuildsLast request.prepare request.build s
  complete : (exec request.build s).1 = .ok ⟨⟩ →
    ∃ (manifest variant : Manifest) (argvs : List (List String)),
      s.manifest request.manifestPath = .ok manifest ∧
      s.manifest request.variantManifestPath = .ok variant ∧
      argvs.map .ok =
        request.bundling (files manifest) (exec request.gather s).2.tree s.current ∧
      (exec request.build s).2.commandsSince s =
        let image := request.image manifest variant
        argvs.map (fun argv => (argv, none)) ++ [(image.argv, some image.root.text)]

/-- What holds of the stages of a variant's build. -/
structure VariantRequest.Staged (request : VariantRequest) (s : Session) : Prop where
  refused :
    (∀ manifest, s.manifest request.manifestPath = .ok manifest →
      manifest.supports request.project.arch = false) →
    Refused request.build s
  buildsLast : BuildsLast request.prepare request.build s
  complete : (exec request.build s).1 = .ok ⟨⟩ →
    ∃ manifest, s.manifest request.manifestPath = .ok manifest ∧
      (exec request.build s).2.commandsSince s =
        match manifest.includedPackages with
        | none => []
        | some packages =>
          let image := Image.ofVariant request manifest packages
          [(image.argv, some image.root.text)]

variable {s s' t : Session}

namespace Licence

/-! ## Which stage may do what -/

def silent : Licence :=
  ⟨fun _ e => e.request? = none ∧ e.command? = none, fun t t' => t' = t⟩

def noCommands : Licence :=
  .ofEvents fun _ e => e.command? = none

def noRequests : Licence :=
  .ofEvents fun _ e => e.request? = none

def noImages : Licence :=
  .ofEvents fun _ e => e.buildsImage = false

theorem Steps.noCommands (h : silent.Steps s s') : noCommands.Steps s s' :=
  h.mono (fun _ _ h => h.2) fun _ _ _ => trivial

theorem Steps.noImages (h : Licence.noCommands.Steps s s') : noImages.Steps s s' :=
  h.mono (fun _ _ h => Event.buildsImage_of_command? h) fun _ _ _ => trivial

theorem silent_watchManifest (path : Path) : silent.Allows (Run.watchManifest path) s :=
  allows_watchManifest ⟨rfl, rfl⟩ ⟨rfl, rfl⟩

theorem silent_enterPackage (request : PackageRequest) : silent.Allows request.enter s := by
  refine allows_bind (silent_watchManifest _) fun manifest _ _ => ?_
  refine allows_bind (silent_watchManifest _) fun variant _ _ => ?_
  exact allows_bind allows_requireArch fun _ _ _ => allows_pure _

theorem silent_enterVariant (request : VariantRequest) : silent.Allows request.enter s := by
  refine allows_bind (silent_watchManifest _) fun manifest _ _ => ?_
  exact allows_bind allows_requireArch fun _ _ _ => allows_pure _

theorem silent_survey (request : PackageRequest) (manifest variant : Manifest) :
    silent.Allows (request.survey manifest variant) s :=
  allows_surveyPackage (fun _ _ _ => ⟨rfl, rfl⟩) fun _ _ => ⟨rfl, rfl⟩

theorem noCommands_gather (request : PackageRequest) : noCommands.Allows request.gather s := by
  refine allows_bind (silent_enterPackage request).noCommands fun manifests _ _ => ?_
  refine allows_bind ?_ fun _ _ _ => allows_pure _
  refine allows_bind (allows_watchEnvs fun _ _ _ => rfl) fun _ _ _ => ?_
  refine allows_bind (allows_watchNewEnvs fun _ _ _ => rfl) fun _ _ _ => ?_
  exact allows_fetch (fun _ _ _ _ _ => rfl) (fun _ _ _ => rfl) (fun _ _ => rfl) fun _ _ => trivial

theorem noRequests_assemble (request : PackageRequest) (manifests : Manifest × Manifest) :
    noRequests.Allows (request.assemble manifests) s :=
  allows_assemble (fun _ _ _ _ => rfl) (fun _ _ _ => rfl) fun _ _ => rfl

theorem noImages_preparePackage (request : PackageRequest) :
    noImages.Allows request.prepare s := by
  refine allows_bind (noCommands_gather request).noImages fun manifests _ _ => ?_
  exact allows_assemble (fun _ _ _ _ => rfl) (fun _ _ _ => rfl) fun _ _ => rfl

theorem noCommands_prepareVariant (request : VariantRequest) :
    noCommands.Allows request.prepare s := by
  refine allows_bind (silent_enterVariant request).noCommands fun manifest _ _ => ?_
  exact allows_bind (allows_discard (allows_generate (fun _ _ => rfl) (fun _ _ _ => rfl)
    fun _ _ => trivial)) fun _ _ _ => allows_surveyVariant

end Licence

namespace Session

theorem commandsSince_trans (hst : s.journal <+: s'.journal) (htu : s'.journal <+: t.journal) :
    t.commandsSince s = s'.commandsSince s ++ t.commandsSince s' := by
  rw [commandsSince, since_trans hst htu, List.filterMap_append]
  rfl

theorem commandsSince_of_steps (h : Licence.noCommands.Steps s s') : s'.commandsSince s = [] := by
  unfold commandsSince
  rw [List.filterMap_eq_nil_iff]
  exact h.forall_since fun _ _ he => he

theorem commandsSince_of_journal {added : List Event} (h : s'.journal = s.journal ++ added) :
    s'.commandsSince s = added.filterMap Event.command? := by
  rw [commandsSince, since_of_journal h]

theorem bundlesSince_eq (s' s : Session) :
    s'.bundlesSince s =
      ((s'.commandsSince s).map (·.1)).filter fun argv => argv.take 2 = ["docker", "run"] := by
  unfold bundlesSince commandsSince
  rw [List.map_filterMap, ← List.filterMap_eq_filter, List.filterMap_filterMap]
  congr 1
  funext e
  cases e with
  | command argv folder =>
    by_cases h : argv.take 2 = ["docker", "run"] <;> simp [Event.bundles?, Event.command?, Option.guard, h]
  | _ => rfl

end Session

/-! ## Stages that end the build -/

theorem Image.journal_build (image : Image) (s : Session) :
    (exec image.build s).2.journal = s.journal ∧ (∃ fault, (exec image.build s).1 = .error fault) ∨
    (exec image.build s).2.journal = s.journal ++ [.command image.argv (some image.root.text)] ∧
      ∀ fault, (exec image.build s).1 = .error fault → s.nextOutcome.FailsBuild fault := by
  rw [Image.exec_build]
  obtain ⟨t, result⟩ := Files.makeFolders s.tree s.current image.output
  cases result with
  | error fault => exact .inl ⟨rfl, _, rfl⟩
  | ok _ =>
    dsimp only
    split
    · exact .inl ⟨rfl, _, rfl⟩
    rw [Run.exec_discard, Run.exec_command]
    split
    · exact .inl ⟨rfl, _, rfl⟩
    refine .inr ⟨rfl, fun fault hfault => ?_⟩
    dsimp only at hfault
    cases hverdict : Run.verdict (fun cause => .attempt (.command cause)) image.argv
        (s.withTree t).nextOutcome with
    | ok _ =>
      rw [hverdict] at hfault
      cases hfault
    | error cause =>
      rw [hverdict] at hfault
      obtain rfl := Except.error.inj hfault
      exact (Run.verdict_error hverdict).imp_left fun ⟨_, h⟩ => ⟨_, h⟩

theorem Image.builds_last (image : Image) (s : Session) :
    ∃ last : List Event, (exec image.build s).2.journal = s.journal ++ last ∧
      ∀ e ∈ last, e.buildsImage = true → last = [e] ∧
        ∀ fault, (exec image.build s).1 = .error fault → s.nextOutcome.FailsBuild fault := by
  rcases image.journal_build s with ⟨hjournal, -⟩ | ⟨hjournal, hfault⟩
  · exact ⟨[], by rw [hjournal, List.append_nil], nofun⟩
  · refine ⟨_, hjournal, fun e he _ => ⟨?_, hfault⟩⟩
    rw [List.mem_singleton.mp he]

theorem Image.commands_build (image : Image) (s : Session) :
    s.journal <+: (exec image.build s).2.journal ∧
    (∀ command ∈ (exec image.build s).2.commandsSince s,
      command.1.take 2 = ["docker", "build"]) ∧
    ((exec image.build s).1 = .ok ⟨⟩ →
      (exec image.build s).2.commandsSince s = [(image.argv, some image.root.text)]) := by
  rcases image.journal_build s with ⟨hjournal, fault, hfault⟩ | ⟨hjournal, -⟩
  · -- no folder for the result, or no command that could be started
    rw [← List.append_nil s.journal] at hjournal
    rw [Session.commandsSince_of_journal hjournal, hfault]
    refine ⟨⟨[], hjournal.symm⟩, fun command hmem => ?_, fun hok => ?_⟩
    · cases hmem
    · cases hok
  · rw [Session.commandsSince_of_journal hjournal]
    refine ⟨⟨_, hjournal.symm⟩, fun command hmem => ?_, fun _ => rfl⟩
    rw [List.mem_singleton.mp hmem]
    rfl

theorem buildsLast_bind {prepare : Run α} {finish : α → Run Unit}
    (hprepare : Licence.noImages.Allows prepare s)
    (hfinish : ∀ a next, exec prepare s = (.ok a, next) →
      ∃ last : List Event, (exec (finish a) next).2.journal = next.journal ++ last ∧
        ∀ e ∈ last, e.buildsImage = true → last = [e] ∧
          ∀ fault, (exec (finish a) next).1 = .error fault → next.nextOutcome.FailsBuild fault) :
    BuildsLast prepare (prepare >>= finish) s := by
  rcases he : exec prepare s with ⟨result, prepared⟩
  have hsteps := hprepare.of_exec he
  have hquiet := hsteps.forall_since fun _ _ h => h
  intro before e later hsplit hbuilds
  cases result with
  | error fault =>
    -- the preparation has failed, and it builds no image
    rw [Run.exec_bind_of_error he] at hsplit
    have hnot := hquiet e (by rw [hsplit]; simp)
    rw [hbuilds] at hnot
    cases hnot
  | ok a =>
    rw [Run.exec_bind_of_ok he] at hsplit ⊢
    obtain ⟨last, hlast, honly⟩ := hfinish a prepared he
    rw [Session.since_trans hsteps.journal_extends ⟨last, hlast.symm⟩,
      Session.since_of_journal hlast] at hsplit
    -- the image is built in what follows the preparation
    have hmem : e ∈ last := by
      have : e ∈ prepared.since s ++ last := by rw [hsplit]; simp
      rcases List.mem_append.mp this with hold | hnew
      · have hnot := hquiet e hold
        rw [hbuilds] at hnot
        cases hnot
      · exact hnew
    obtain ⟨rfl, hfault⟩ := honly e hmem hbuilds
    have hlater : later = [] := by
      rcases List.eq_nil_or_concat later with rfl | ⟨rest, y, rfl⟩
      · rfl
      · -- otherwise the event would stand before itself, among those of the preparation
        rw [List.concat_eq_append, ← List.cons_append, ← List.append_assoc] at hsplit
        have hold := (List.append_inj' hsplit rfl).1
        have hnot := hquiet e (by rw [hold]; simp)
        rw [hbuilds] at hnot
        cases hnot
    subst hlater
    exact ⟨rfl, a, prepared, he, (List.append_inj' hsplit rfl).1, hfault⟩

theorem refused_bind {enter : Run α} {rest : α → Run Unit} (hsilent : Licence.silent.Allows enter s)
    (henter : ∀ a next, exec enter s ≠ (.ok a, next)) : Refused (enter >>= rest) s := by
  rcases he : exec enter s with ⟨result, next⟩
  have hsteps := hsilent.of_exec he
  cases result with
  | ok a => exact absurd he (henter a next)
  | error fault =>
    unfold Refused
    rw [Run.exec_bind_of_error he]
    exact ⟨⟨fault, rfl⟩, hsteps.tree_eq fun _ _ h => h, hsteps.forall_since fun _ _ h => h⟩

/-! ## Packages -/

namespace PackageRequest

variable {request : PackageRequest} {manifests : Manifest × Manifest}

theorem image_of_survey {manifest variant : Manifest} {image : Image}
    (h : exec (request.survey manifest variant) s = (.ok image, s')) :
    image = request.image manifest variant := by
  obtain ⟨_, _, _, h⟩ := Run.exec_bind_eq_ok.mp h
  obtain ⟨_, _, _, h⟩ := Run.exec_bind_eq_ok.mp h
  obtain ⟨_, _, _, h⟩ := Run.exec_bind_eq_ok.mp h
  rw [Image.exec_checked, Prod.mk.injEq] at h
  split at h
  · exact (Except.ok.inj h.1).symm
  · cases h.1

theorem commands_assemble (request : PackageRequest) (manifests : Manifest × Manifest)
    (s : Session) :
    ∃ argvs : List (List String),
      (exec (request.assemble manifests) s).2.commandsSince s =
        argvs.map (fun argv => (argv, none)) ∧
      argvs.map .ok <+: request.bundling (files manifests.1) s.tree s.current ∧
      ∀ image, (exec (request.assemble manifests) s).1 = .ok image →
        image = request.image manifests.1 manifests.2 ∧
        argvs.map .ok = request.bundling (files manifests.1) s.tree s.current := by
  obtain ⟨argvs, hjournal, -, -, hprefix, hall⟩ := request.starts_bundles (files manifests.1) s
  rcases he : exec ((files manifests.1).forM request.bundle) s with ⟨result, bundled⟩
  rw [he] at hjournal hall
  have hcommands : bundled.commandsSince s = argvs.map fun argv => (argv, none) := by
    rw [Session.commandsSince_of_journal hjournal, List.filterMap_map, ← List.filterMap_eq_map]
    rfl
  refine ⟨argvs, ?_, hprefix, ?_⟩
  · unfold assemble
    cases result with
    | error fault => rwa [Run.exec_bind_of_error he]
    | ok _ =>
      have hsurvey : Licence.silent.Allows (request.survey manifests.1 manifests.2) bundled :=
        Licence.silent_survey request _ _
      rw [Run.exec_bind_of_ok he,
        Session.commandsSince_trans ⟨_, hjournal.symm⟩ hsurvey.journal_extends,
        Session.commandsSince_of_steps hsurvey.noCommands, List.append_nil, hcommands]
  · intro image himage
    rw [assemble, Run.exec_bind, he] at himage
    cases result with
    | error fault => cases himage
    | ok _ => exact ⟨image_of_survey (Prod.ext himage rfl), hall rfl⟩

-- The commands of a build whose external files are there. The last one, if any, builds the image.
theorem commands_build {fetched : Session}
    (hgather : exec request.gather s = (.ok manifests, fetched)) :
    ∃ (argvs : List (List String)) (last : List (List String × Option String)),
      (exec request.build s).2.commandsSince s = argvs.map (fun argv => (argv, none)) ++ last ∧
      argvs.map .ok <+: request.bundling (files manifests.1) fetched.tree fetched.current ∧
      (∀ command ∈ last, command.1.take 2 = ["docker", "build"]) ∧
      ((exec request.build s).1 = .ok ⟨⟩ →
        argvs.map .ok = request.bundling (files manifests.1) fetched.tree fetched.current ∧
        let image := request.image manifests.1 manifests.2
        last = [(image.argv, some image.root.text)]) := by
  have hsteps := (Licence.noCommands_gather request).of_exec hgather
  obtain ⟨argvs, hcommands, hprefix, hall⟩ := request.commands_assemble manifests fetched
  have hrun : exec request.build s = exec (request.assemble manifests >>= Image.build) fetched := by
    rw [request.build_eq, prepare, bind_assoc, Run.exec_bind_of_ok hgather]
  have hassemble := Licence.noRequests_assemble request manifests (s := fetched)
  have hsince : ∀ next : Session, fetched.journal <+: next.journal →
      next.commandsSince s = next.commandsSince fetched := by
    intro next hnext
    rw [Session.commandsSince_trans hsteps.journal_extends hnext,
      Session.commandsSince_of_steps hsteps, List.nil_append]
  rw [hrun]
  rcases he : exec (request.assemble manifests) fetched with ⟨result, prepared⟩
  rw [he] at hcommands hall
  have hprepared := (hassemble.of_exec he).journal_extends
  cases result with
  | error fault =>
    rw [Run.exec_bind_of_error he]
    exact ⟨argvs, [], by rw [hsince _ hprepared, hcommands, List.append_nil], hprefix, by simp,
      fun hok => by cases hok⟩
  | ok image =>
    obtain ⟨rfl, hfull⟩ := hall image rfl
    rw [Run.exec_bind_of_ok he]
    obtain ⟨hlater, hkind, hlast⟩ :=
      (request.image manifests.1 manifests.2).commands_build prepared
    refine ⟨argvs, _, ?_, hprefix, hkind, fun hok => ⟨hfull, hlast hok⟩⟩
    rw [hsince _ (hprepared.trans hlater), Session.commandsSince_trans hprepared hlater, hcommands]

theorem bundlesSince_build {fetched : Session}
    (hgather : exec request.gather s = (.ok manifests, fetched)) :
    ((exec request.build s).2.bundlesSince s).map .ok <+:
      request.bundling (files manifests.1) fetched.tree fetched.current := by
  obtain ⟨argvs, last, hcommands, hprefix, hlast, -⟩ := commands_build hgather
  have hkeep : argvs.filter (fun argv => argv.take 2 = ["docker", "run"]) = argvs := by
    rw [List.filter_eq_self]
    intro argv hargv
    have hmem := hprefix.subset (List.mem_map_of_mem hargv)
    exact decide_eq_true (request.take_bundling hmem)
  have hdrop : (last.map (·.1)).filter (fun argv => argv.take 2 = ["docker", "run"]) = [] := by
    rw [List.filter_eq_nil_iff]
    intro argv hargv
    obtain ⟨command, hmem, rfl⟩ := List.mem_map.mp hargv
    rw [hlast command hmem]
    decide
  have hmap : (argvs.map fun argv => (argv, (none : Option String))).map (·.1) = argvs := by
    rw [List.map_map]
    exact List.map_id argvs
  rw [Session.bundlesSince_eq, hcommands, List.map_append, List.filter_append, hmap, hkeep, hdrop,
    List.append_nil]
  exact hprefix

theorem staged (request : PackageRequest) (s : Session) : request.Staged s where
  refused hnot := by
    rw [build_eq, prepare, gather, bind_assoc, bind_assoc]
    refine refused_bind (Licence.silent_enterPackage request) fun manifests next henter => ?_
    obtain ⟨hmanifest, hvariant, harch, -⟩ := enter_eq_ok.mp henter
    rw [hnot _ _ hmanifest hvariant] at harch
    cases harch
  requestsFirst := by
    have hgather : Licence.noCommands.Allows request.gather s :=
      Licence.noCommands_gather request
    refine ⟨hgather.forall_since fun _ _ h => h, ?_⟩
    rcases he : exec request.gather s with ⟨result, fetched⟩
    rw [build_eq, prepare, bind_assoc]
    cases result with
    | error fault =>
      rw [Run.exec_bind_of_error he, Session.since_self]
      intro e hnone
      cases hnone
    | ok manifests =>
      rw [Run.exec_bind_of_ok he]
      have hrest : Licence.noRequests.Allows (request.assemble manifests >>= Image.build) fetched :=
        Licence.allows_bind (Licence.noRequests_assemble request manifests) fun _ _ _ =>
          Licence.allows_image trivial rfl
      exact hrest.forall_since fun _ _ h => h
  bundlesInOrder manifest hmanifest := by
    have hsteps : Licence.noCommands.Allows request.gather s :=
      Licence.noCommands_gather request
    rcases he : exec request.gather s with ⟨result, fetched⟩
    cases result with
    | error fault =>
      have hcommands := Session.commandsSince_of_steps (hsteps.of_exec he)
      rw [build_eq, prepare, bind_assoc, Run.exec_bind_of_error he, Session.bundlesSince_eq,
        hcommands]
      exact List.nil_prefix
    | ok manifests =>
      obtain ⟨_, henter⟩ := entered_of_gather he
      obtain rfl : manifest = manifests.1 :=
        Except.ok.inj (hmanifest.symm.trans (enter_eq_ok.mp henter).1)
      rw [← (hsteps.of_exec he).current]
      exact bundlesSince_build he
  buildsLast := by
    rw [build_eq]
    refine buildsLast_bind (Licence.noImages_preparePackage request) fun image next _ => ?_
    exact image.builds_last next
  complete hok := by
    rcases he : exec request.gather s with ⟨result, fetched⟩
    cases result with
    | error fault =>
      rw [build_eq, prepare, bind_assoc, Run.exec_bind_of_error he] at hok
      cases hok
    | ok manifests =>
      obtain ⟨_, henter⟩ := entered_of_gather he
      obtain ⟨hmanifest, hvariant, -, -⟩ := enter_eq_ok.mp henter
      obtain ⟨argvs, last, hcommands, -, -, hall⟩ := commands_build he
      obtain ⟨hfull, rfl⟩ := hall hok
      have hsteps := (Licence.noCommands_gather request).of_exec he
      rw [← hsteps.current]
      exact ⟨manifests.1, manifests.2, argvs, hmanifest, hvariant, hfull, hcommands⟩

end PackageRequest

/-! ## Variants -/

namespace VariantRequest

variable {request : VariantRequest}

theorem image_of_survey {manifest : Manifest} {image : Option Image}
    (h : exec (request.survey manifest) s = (.ok image, s')) :
    image = manifest.includedPackages.map (Image.ofVariant request manifest) := by
  unfold survey at h
  cases hpackages : manifest.includedPackages with
  | none =>
    rw [hpackages] at h
    exact (Except.ok.inj (Prod.ext_iff.mp h).1).symm
  | some packages =>
    rw [hpackages] at h
    dsimp only at h
    rw [Run.exec_map, Image.exec_checked, Prod.mk.injEq] at h
    split at h
    · exact (Except.ok.inj h.1).symm
    · cases h.1

theorem image_of_prepare {image : Option Image} (h : exec request.prepare s = (.ok image, s')) :
    ∃ manifest, s.manifest request.manifestPath = .ok manifest ∧
      image = manifest.includedPackages.map (Image.ofVariant request manifest) := by
  obtain ⟨manifest, _, henter, h⟩ := Run.exec_bind_eq_ok.mp h
  obtain ⟨_, _, _, h⟩ := Run.exec_bind_eq_ok.mp h
  exact ⟨manifest, (enter_eq_ok.mp henter).1, image_of_survey h⟩

theorem commands_finish {image : Option Image} (h : (exec (finish image) s).1 = .ok ⟨⟩) :
    s.journal <+: (exec (finish image) s).2.journal ∧
      (exec (finish image) s).2.commandsSince s =
        (image.map fun image => (image.argv, some image.root.text)).toList := by
  cases image with
  | none =>
    have hjournal : (exec (finish none) s).2.journal =
        s.journal ++ [.notice (.warning skipped)] := rfl
    rw [Session.commandsSince_of_journal hjournal]
    exact ⟨⟨_, hjournal.symm⟩, rfl⟩
  | some image =>
    obtain ⟨hlater, -, hlast⟩ := image.commands_build s
    exact ⟨hlater, hlast h⟩

theorem staged (request : VariantRequest) (s : Session) : request.Staged s where
  refused hnot := by
    rw [build_eq, prepare, bind_assoc]
    refine refused_bind (Licence.silent_enterVariant request) fun manifest next henter => ?_
    obtain ⟨hmanifest, harch, -⟩ := enter_eq_ok.mp henter
    rw [hnot _ hmanifest] at harch
    cases harch
  buildsLast := by
    rw [build_eq]
    refine buildsLast_bind (Licence.noCommands_prepareVariant request).noImages
      fun image next _ => ?_
    cases image with
    | none => exact ⟨[.notice (.warning skipped)], rfl, by simp [Event.buildsImage]⟩
    | some image => exact image.builds_last next
  complete hok := by
    have hsteps : Licence.noCommands.Allows request.prepare s :=
      Licence.noCommands_prepareVariant request
    rcases he : exec request.prepare s with ⟨result, prepared⟩
    cases result with
    | error fault =>
      rw [build_eq, Run.exec_bind_of_error he] at hok
      cases hok
    | ok image =>
      rw [build_eq, Run.exec_bind_of_ok he] at hok ⊢
      obtain ⟨manifest, hmanifest, rfl⟩ := image_of_prepare he
      obtain ⟨hlater, hcommands⟩ := commands_finish hok
      have hprepared := hsteps.of_exec he
      refine ⟨manifest, hmanifest, ?_⟩
      rw [Session.commandsSince_trans hprepared.journal_extends hlater,
        Session.commandsSince_of_steps hprepared, List.nil_append, hcommands]
      cases manifest.includedPackages <;> rfl

end VariantRequest

/-- Whatever is requested, and wherever the build ends, the stages keep their order. -/
theorem stages_in_order (request : Request) (s : Session) :
    match request with
    | .package request => request.Staged s
    | .variant request => request.Staged s := by
  cases request with
  | package request => exact request.staged s
  | variant request => exact request.staged s

namespace VariantRequest

-- A variant without packages, whose container build writes an octet that no text holds.
def octetRequest : VariantRequest where
  project := ⟨.x86_64, .ofString ".", .ofString "m", "sdk", "1", "1", none⟩
  variant := "m"
  name := "n"
  prettyName := "N"
  versionImage := "1"
  outputDir := .ofString "out"

def octetSession : Session :=
  let manifest := "[package.metadata.build-variant]\nincluded-packages = []\n"
  let tree : Tree :=
    { entries := [(["r"], .folder), (["r", "Dockerfile"], .file []), (["r", "m"], .folder),
        (["r", "m", "Cargo.toml"], .file (Utf8.ofString manifest)), (["r", "out"], .folder)]
      distinct := by simp }
  { Session.fresh tree ["r"] with outcomes := [.exited 0 [0xFF] []] }

/-- A build that has started to build its image can fail for another reason than a failed attempt:
here the command ends well, and what it has written is no text. -/
theorem output_undecoded :
    let run := exec octetRequest.build octetSession
    (∃ e ∈ run.2.since octetSession, e.buildsImage = true) ∧
      ∃ fault, run.1 = .error fault ∧ (∀ cause, fault ≠ .attempt cause) ∧
        fault.message =
          "'utf-8' codec can't decode byte 0xff in position 0: invalid start byte" := by
  intro run
  have hrun : (run.2.since octetSession).any Event.buildsImage = true ∧
      run.1.mapError (fun fault => (fault.isReported, fault.message)) =
        .error (false,
          "'utf-8' codec can't decode byte 0xff in position 0: invalid start byte") := by
    decide +kernel
  obtain ⟨hbuilds, hfault⟩ := hrun
  refine ⟨List.any_eq_true.mp hbuilds, ?_⟩
  generalize run.1 = result at hfault
  cases result with
  | ok _ => cases hfault
  | error fault =>
    obtain ⟨hreported, hmessage⟩ := Prod.mk.inj (Except.error.inj hfault)
    refine ⟨fault, rfl, ?_, hmessage⟩
    rintro cause rfl
    cases hreported

end VariantRequest

end BuildHook
