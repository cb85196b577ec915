import BuildHook.Proofs.NamedPlaces
import BuildHook.Proofs.SignalLog
import BuildHook.Proofs.StageOrder

/-!
# Where images are put

The folder for the result of an image build is made as seen from the current folder, and named in
the command as seen from the root of the project. These are one and the same folder if the path is
anchored or the root is the current folder, and in a tree without links only then.
-/

namespace BuildHook

open Run (exec)

variable {s s' : Session} {argv : List String} {folder : String}

namespace Image

/-- The options of a command, each with its value, behind the words that say what it does. -/
def options : List String → List (String × String)
  | name :: value :: rest => (name, value) :: options rest
  | _ => []

/-- The folder that a command which builds an image is to put the result into. -/
def destination? (argv : List String) : Option Path := do
  let value ← (options (argv.drop 3)).lookup "--output"
  let written ← "type=local,dest=".toList.isPrefixOf? value.toList
  return Path.ofChars written

theorem destination_argv (image : Image) : destination? image.argv = some image.output := by
  have hvalue : ("type=local,dest=" ++ image.output.text).toList =
      "type=local,dest=".toList ++ image.output.text.toList :=
    String.toList_append
  have hprefix : "type=local,dest=".toList.isPrefixOf?
      ("type=local,dest=".toList ++ image.output.text.toList) = some image.output.text.toList := rfl
  have hoption : (options (image.argv.drop 3)).lookup "--output" =
      some ("type=local,dest=" ++ image.output.text) := rfl
  rw [destination?, hoption, Option.bind_eq_bind, Option.bind_some, hvalue, hprefix]
  exact congrArg some image.output.ofString_text

end Image

/-! ## Which command is started where -/

namespace Licence

/-- Stages under this licence start commands in the current folder only. -/
def atHome : Licence :=
  .ofEvents fun _ e => ∀ argv folder, e ≠ .command argv (some folder)

theorem atHome_preparePackage (request : PackageRequest) : atHome.Allows request.prepare s := by
  have hgather : atHome.Allows request.gather s := by
    refine Steps.mono (Licence.noCommands_gather request) (fun _ e he argv folder heq => ?_)
      fun _ _ _ => trivial
    rw [heq] at he
    cases he
  exact allows_bind hgather fun manifests _ _ =>
    allows_assemble (fun _ _ _ _ => nofun) (fun _ _ _ _ => nofun) fun _ _ _ => nofun

end Licence

/-- What a build that starts a command elsewhere has come to: its preparation has succeeded, and the
command belongs to the last stage. -/
theorem command_bind {α : Type} {prepare : Run α} {finish : α → Run Unit}
    (hprepare : Licence.atHome.Allows prepare s)
    (hfinish : ∀ a next, next.journal <+: (exec (finish a) next).2.journal)
    (h : .command argv (some folder) ∈ (exec (prepare >>= finish) s).2.since s) :
    ∃ a next, exec prepare s = (.ok a, next) ∧
      exec (prepare >>= finish) s = exec (finish a) next ∧
      .command argv (some folder) ∈ (exec (finish a) next).2.since next := by
  rcases he : exec prepare s with ⟨fault | a, next⟩
  · rw [Run.exec_bind_of_error he] at h
    exact absurd rfl ((hprepare.of_exec he).forall_since (fun _ _ h => h) _ h argv folder)
  · have hsteps := hprepare.of_exec he
    have hrun := Run.exec_bind_of_ok he finish
    rw [hrun, Session.since_trans hsteps.journal_extends (hfinish a next)] at h
    refine ⟨a, next, rfl, hrun, (List.mem_append.mp h).resolve_left fun hbefore => ?_⟩
    exact hsteps.forall_since (fun _ _ h => h) _ hbefore argv folder rfl

/-- A command is started as it was given, or not at all. -/
theorem Run.started_of_mem {fault : CommandFault → Fault} {words : List String}
    {place folder : Option String}
    (h : .command argv folder ∈ (exec (discard (command fault words place)) s).2.since s) :
    argv = words ∧ folder = place ∧
      (exec (discard (command fault words place)) s).2 = started words place s := by
  rw [exec_discard, exec_command] at h ⊢
  by_cases hzero : (words ++ place.toList).any hasZero = true
  · rw [if_pos hzero, Session.since_self] at h
    cases h
  · rw [if_neg hzero] at h ⊢
    have hone : (started words place s).since s = [.command words place] :=
      Session.since_of_journal rfl
    dsimp only at h
    rw [hone, List.mem_singleton, Event.command.injEq] at h
    exact ⟨h.1, h.2, rfl⟩

/-- A command that builds an image is started in the root of the project, and the folder for the
result that it names is there, as seen from the current folder. -/
structure Builds (root output : Path) (s s' : Session) (argv : List String) (folder : String) : Prop
    where
  started : Path.ofString folder = root
  named : Image.destination? argv = some output
  made : ∃ made, Files.find s'.tree s.current output = .ok (.node made .folder)

/-- The command that builds an image is started once the folder for the result is there. -/
theorem Image.builds {image : Image}
    (h : .command argv (some folder) ∈ (exec image.build s).2.since s) :
    Builds image.root image.output s (exec image.build s).2 argv folder := by
  have hfolder := Files.find_makeFolders s.tree s.current image.output
  rw [Image.exec_build] at h ⊢
  generalize Files.makeFolders s.tree s.current image.output = made at hfolder h ⊢
  have hnone : (s.withTree made.1).since s = [] :=
    Session.since_of_journal (List.append_nil _).symm
  obtain ⟨made, fault | _⟩ := made
  · dsimp only at h hnone
    rw [hnone] at h
    cases h
  dsimp only at h hnone ⊢
  by_cases hlong : (image.arguments.any fun argument => argument.2.isOverlong) = true
  · rw [if_pos hlong, hnone] at h
    cases h
  rw [if_neg hlong] at h ⊢
  obtain ⟨rfl, hplace, hstarted⟩ := Run.started_of_mem (s := s.withTree made) h
  rw [Option.some.inj hplace, hstarted]
  exact ⟨image.root.ofString_text, image.destination_argv, hfolder rfl⟩

theorem PackageRequest.builds (request : PackageRequest)
    (h : .command argv (some folder) ∈ (exec request.build s).2.since s) :
    Builds request.project.root request.packagesDir s (exec request.build s).2 argv folder := by
  rw [request.build_eq] at h ⊢
  have hatHome := Licence.atHome_preparePackage (s := s) request
  obtain ⟨image, next, hprepare, hrun, hmem⟩ :=
    command_bind hatHome (fun image next => (image.commands_build next).1) h
  obtain ⟨manifests, fetched, -, hassemble⟩ := Run.exec_bind_eq_ok.mp hprepare
  obtain ⟨_, bundled, -, hsurvey⟩ := Run.exec_bind_eq_ok.mp hassemble
  obtain rfl := PackageRequest.image_of_survey hsurvey
  obtain ⟨hroot, houtput, hmade⟩ := Image.builds hmem
  rw [(hatHome.of_exec hprepare).current, ← hrun] at hmade
  exact ⟨hroot, houtput, hmade⟩

theorem VariantRequest.builds (request : VariantRequest)
    (h : .command argv (some folder) ∈ (exec request.build s).2.since s) :
    Builds request.project.root request.outputDir s (exec request.build s).2 argv folder := by
  rw [request.build_eq] at h ⊢
  have hatHome : Licence.atHome.Allows request.prepare s := by
    refine Licence.Steps.mono (Licence.noCommands_prepareVariant request)
      (fun _ e he argv folder heq => ?_) fun _ _ _ => trivial
    rw [heq] at he
    cases he
  have hextends : ∀ (image : Option Image) (next : Session),
      next.journal <+: (exec (VariantRequest.finish image) next).2.journal := by
    rintro (_ | image) next
    · exact ⟨_, rfl⟩
    · exact (image.commands_build next).1
  obtain ⟨image, next, hprepare, hrun, hmem⟩ := command_bind hatHome hextends h
  obtain ⟨manifest, -, rfl⟩ := VariantRequest.image_of_prepare hprepare
  cases hpackages : manifest.includedPackages with
  | none =>
    -- without packages there is a warning only
    rw [hpackages] at hmem
    have hwarning : (exec (VariantRequest.finish none) next).2.since next =
        [.notice (.warning VariantRequest.skipped)] :=
      Session.since_of_journal rfl
    rw [Option.map_none, hwarning] at hmem
    cases List.mem_singleton.mp hmem
  | some packages =>
    rw [hpackages] at hrun hmem
    obtain ⟨hroot, houtput, hmade⟩ := Image.builds hmem
    rw [(hatHome.of_exec hprepare).current] at hmade
    rw [hrun]
    exact ⟨hroot, houtput, hmade⟩

namespace Request

def project : Request → Project
  | .package request => request.project
  | .variant request => request.project

/-- The folder for the result. -/
def output : Request → Path
  | .package request => request.packagesDir
  | .variant request => request.outputDir

/-- A command that is started elsewhere than in the current folder builds the image. -/
theorem builds (request : Request)
    (h : .command argv (some folder) ∈ (exec request.build s).2.since s) :
    Builds request.project.root request.output s (exec request.build s).2 argv folder := by
  cases request with
  | package request => exact request.builds h
  | variant request => exact request.builds h

end Request

/-! ## Paths seen from two folders -/

namespace Files

variable {t : Tree} {current place : Location} {p : Path}

-- Where an anchored path leads does not depend on the current folder.
theorem find_anchored (h : p.anchor ≠ .relative) (t : Tree) (current other : Location) :
    find t current p = find t other p := by
  have hstart : ∀ folder, Files.start folder p = [] := by
    intro folder
    unfold Files.start
    split
    · next hanchor => exact absurd hanchor h
    · rfl
  rw [find, find, hstart, hstart]

/-- In a tree without links a path without `..` steps leads to the folder of its own names. -/
theorem find_of_names (hlinks : t.LinkFree) (hup : ".." ∉ p.steps)
    (h : find t current p = .ok (.node place .folder)) :
    place = Files.start current p ++ p.steps := by
  have hsteps : ∀ step ∈ p.steps, IsName step := fun step hmem =>
    isName_of_isStep (p.isStep step hmem) fun heq => hup (heq ▸ hmem)
  exact (find_linkFree hlinks h).trans (lexical_names hsteps _)

end Files

/-! ## The folder for the result -/

namespace Request

/-- Where a command that builds an image puts the result: into the folder that has been made for it,
if the path is anchored or the root of the project is the current folder. In a tree without links it
goes elsewhere in all other cases, if the path has no `..` steps. -/
structure Lands (request : Request) (s s' : Session) (argv : List String) (folder : String) : Prop
    where
  /-- The command is started in the root of the project. -/
  root : Path.ofString folder = request.project.root
  made : ∃ output made, Image.destination? argv = some output ∧
    Files.find s'.tree s.current output = .ok (.node made .folder) ∧
    ∀ work, Files.find s'.tree s.current (.ofString folder) = .ok (.node work .folder) →
      (output.anchor ≠ .relative ∨ work = s.current →
        Files.find s'.tree work output = .ok (.node made .folder)) ∧
      ((∀ location target, s'.tree.get? location ≠ some (.link target)) → ".." ∉ output.steps →
        (Files.find s'.tree work output = .ok (.node made .folder) ↔
          output.anchor ≠ .relative ∨ work = s.current))

/-- Whatever is requested, the command that builds the image finds the folder for its result unless
the root of the project and the current folder differ and the path is relative. -/
theorem output_lands (request : Request)
    (h : .command argv (some folder) ∈ (exec request.build s).2.since s) :
    request.Lands s (exec request.build s).2 argv folder := by
  obtain ⟨hroot, houtput, made, hmade⟩ := request.builds h
  refine ⟨hroot, request.output, made, houtput, hmade, fun work _ => ?_⟩
  have hagrees : request.output.anchor ≠ .relative ∨ work = s.current →
      Files.find (exec request.build s).2.tree work request.output = .ok (.node made .folder) := by
    rintro (hanchor | rfl)
    · rw [Files.find_anchored hanchor _ work s.current, hmade]
    · exact hmade
  refine ⟨hagrees, fun hlinks hup => ⟨fun hwork => ?_, hagrees⟩⟩
  by_contra hnot
  rw [not_or, not_not] at hnot
  obtain ⟨hanchor, hother⟩ := hnot
  have hstart : ∀ folder, Files.start folder request.output = folder := by
    intro folder
    rw [Files.start, hanchor]
  have hhere := Files.find_of_names hlinks hup hmade
  have hthere := Files.find_of_names hlinks hup hwork
  rw [hstart] at hhere hthere
  exact hother (List.append_cancel_right (hthere.symm.trans hhere))

theorem output_lands_sample :
    let request := Request.package PackageRequest.sample
    let s := PackageRequest.sampleSession
    let argv := (Image.ofPackage PackageRequest.sample [] "p").argv
    .command argv (some "/r") ∈ (exec request.build s).2.since s ∧
      request.Lands s (exec request.build s).2 argv "/r" := by
  intro request s argv
  have hmem : .command argv (some "/r") ∈ (exec request.build s).2.since s := by decide +kernel
  exact ⟨hmem, output_lands request hmem⟩

-- The same package, of which everything but the folder for the result is told from the root of the
-- file system.
def anchoredSample : PackageRequest :=
  { PackageRequest.sample with
    project := { PackageRequest.sample.project with manifestDir := .ofString "/r/p" }
    sourcesDir := .ofString "/r/s" }

/-- A build that is run elsewhere than in the root of the project makes one folder and puts the
result into another, which is not even there. -/
theorem output_apart :
    let s := { PackageRequest.sampleSession with current := [] }
    let s' := (exec (Request.package anchoredSample).build s).2
    .command (Image.ofPackage anchoredSample [] "p").argv (some "/r") ∈ s'.since s ∧
      (Files.find s'.tree s.current anchoredSample.packagesDir).toOption =
        some (.node ["out"] .folder) ∧
      (Files.find s'.tree s.current anchoredSample.project.root).toOption =
        some (.node ["r"] .folder) ∧
      (Files.find s'.tree ["r"] anchoredSample.packagesDir).toOption =
        some (.vacant ["r"] "out") := by
  decide +kernel

end Request

end BuildHook
