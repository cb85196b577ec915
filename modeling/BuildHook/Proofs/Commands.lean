import BuildHook.Proofs.Licence
import BuildHook.Proofs.Pipeline

/-!
# The commands of a build

Which commands the bundling of a package starts, and what building an image does.
-/

namespace BuildHook

open Run (exec)

/-- A run that starts commands of a plan in order and does nothing else: all of them if it succeeds,
and those up to some point if it fails. -/
def Run.Starts (m : Run Unit) (plan : Tree → Location → List (Except Fault (List String))) :
    Prop :=
  ∀ s, ∃ argvs : List (List String),
    (exec m s).2.journal = s.journal ++ argvs.map (fun argv => .command argv none) ∧
    (exec m s).2.tree = s.tree ∧ (exec m s).2.current = s.current ∧
    argvs.map .ok <+: plan s.tree s.current ∧
    ((exec m s).1 = .ok ⟨⟩ → argvs.map .ok = plan s.tree s.current)

theorem Run.starts_forM {α : Type} {f : α → Run Unit}
    {plan : α → Tree → Location → List (Except Fault (List String))}
    (h : ∀ x, Starts (f x) (plan x)) (xs : List α) :
    Starts (xs.forM f) fun t current => xs.flatMap fun x => plan x t current := by
  induction xs with
  | nil => exact fun s => ⟨[], by simp⟩
  | cons x xs ih =>
    intro s
    rw [exec_forM_cons, exec_bind]
    obtain ⟨first, hjournal, htree, hcurrent, hprefix, hall⟩ := h x s
    generalize exec (f x) s = done at *
    obtain ⟨result, next⟩ := done
    cases result with
    | error fault =>
      refine ⟨first, hjournal, htree, hcurrent, ?_, nofun⟩
      beta_reduce
      rw [List.flatMap_cons]
      exact hprefix.trans (List.prefix_append _ _)
    | ok _ =>
      obtain ⟨rest, hjournal', htree', hcurrent', hprefix', hall'⟩ := ih next
      dsimp only at hjournal htree hcurrent hall
      rw [htree, hcurrent] at hprefix' hall'
      refine ⟨first ++ rest, ?_, htree'.trans htree, hcurrent'.trans hcurrent, ?_, fun hok => ?_⟩
      · dsimp only
        rw [hjournal', hjournal, List.map_append, List.append_assoc]
      · beta_reduce
        rw [List.flatMap_cons, List.map_append, hall rfl]
        exact (List.prefix_append_right_inj _).mpr hprefix'
      · beta_reduce
        rw [List.flatMap_cons, List.map_append, hall rfl, hall' hok]

theorem Run.starts_command (fault : CommandFault → Fault) (argv : List String) :
    Starts (discard (command fault argv none)) fun _ _ => [.ok argv] := by
  intro s
  rw [exec_discard, exec_command]
  split
  · exact ⟨[], by simp, rfl, rfl, List.nil_prefix, nofun⟩
  · exact ⟨[argv], rfl, rfl, rfl, List.prefix_rfl, fun _ => rfl⟩

namespace Bundle

/-- The command that bundles the modules of an external file. -/
def command (root package : Path) (f : ExternalFile) (image : String) (t : Tree)
    (current : Location) : Except Fault (List String) := do
  let root ← (Files.resolve t current root).mapError Fault.files
  let package ← (Files.resolve t current package).mapError Fault.files
  if package.isWithin root then
    let script ← f.bundleScript.mapError Fault.url
    return argv root package image script
  else throw (.bundle (.outside package root))

variable {root package : Path} {f : ExternalFile} {image : String}

theorem exec_run (s : Session) :
    exec (run root package f image) s =
      match command root package f image s.tree s.current with
      | .ok argv => exec (discard (Run.command (fun cause => .bundle (.command cause)) argv none)) s
      | .error fault => (.error fault, s) := by
  rw [run, Run.exec_bind_of_ok (Run.exec_get s), command, Run.exec_bind, Run.exec_orFail]
  cases Files.resolve s.tree s.current root with
  | error fault => rfl
  | ok root =>
    dsimp only [Except.mapError]
    rw [Run.exec_bind, Run.exec_orFail]
    cases Files.resolve s.tree s.current package with
    | error fault => rfl
    | ok package =>
      dsimp only [Except.mapError, bind, Except.bind]
      by_cases hwithin : package.isWithin root = true
      · simp only [hwithin, ↓reduceIte]
        change exec (Run.orFail Fault.url f.bundleScript >>= _) s = _
        rw [Run.exec_bind, Run.exec_orFail]
        cases f.bundleScript with
        | error fault => rfl
        | ok script => rfl
      · simp only [hwithin]
        rfl

theorem starts_run :
    Run.Starts (run root package f image) fun t current =>
      [command root package f image t current] := by
  intro s
  beta_reduce
  rw [exec_run]
  cases command root package f image s.tree s.current with
  | error fault => exact ⟨[], by simp, rfl, rfl, List.nil_prefix, nofun⟩
  | ok argv => exact Run.starts_command _ argv s

/-- A command that bundles modules works on resolved paths, and on a file that has a name. -/
theorem command_eq_ok {t : Tree} {current : Location} {words : List String}
    (h : command root package f image t current = .ok words) :
    ∃ realRoot realPackage name, Files.resolve t current root = .ok realRoot ∧
      Files.resolve t current package = .ok realPackage ∧ realPackage.isWithin realRoot = true ∧
      f.localName = .ok name ∧ words = argv realRoot realPackage image
        (String.intercalate "\n" (f.bundleLines name)) := by
  rw [command] at h
  cases hroot : Files.resolve t current root with
  | error fault => rw [hroot] at h; cases h
  | ok realRoot =>
    cases hpackage : Files.resolve t current package with
    | error fault => rw [hroot, hpackage] at h; cases h
    | ok realPackage =>
      rw [hroot, hpackage] at h
      dsimp only [Except.mapError, bind, Except.bind] at h
      split at h
      · next hwithin =>
        rw [ExternalFile.bundleScript] at h
        cases hname : f.localName with
        | error fault => rw [hname] at h; cases h
        | ok name =>
          rw [hname] at h
          exact ⟨realRoot, realPackage, name, rfl, rfl, hwithin, rfl, (Except.ok.inj h).symm⟩
      · cases h

/-- What bundles modules is run in a container. -/
theorem take_command {t : Tree} {current : Location} {argv : List String}
    (h : command root package f image t current = .ok argv) :
    argv.take 2 = ["docker", "run"] := by
  obtain ⟨_, _, _, _, _, _, _, rfl⟩ := command_eq_ok h
  rfl

end Bundle

namespace PackageRequest

variable (request : PackageRequest)

/-- The commands that bundle the modules of external files in order, one for each time that a kind
of modules is declared. -/
def bundling (files : List ExternalFile) (t : Tree) (current : Location) :
    List (Except Fault (List String)) :=
  files.flatMap fun f => (f.modules.getD []).flatMap fun
    | .go => [Bundle.command request.project.root request.project.manifestDir f
        request.project.sdkImage t current]

theorem mem_bundling {files : List ExternalFile} {f : ExternalFile} (hf : f ∈ files)
    (hkind : .go ∈ f.modules.getD []) (t : Tree) (current : Location) :
    Bundle.command request.project.root request.project.manifestDir f request.project.sdkImage t
      current ∈ request.bundling files t current :=
  List.mem_flatMap.mpr ⟨f, hf, List.mem_flatMap.mpr ⟨.go, hkind, List.mem_singleton_self _⟩⟩

theorem starts_bundles (files : List ExternalFile) :
    Run.Starts (files.forM request.bundle) (request.bundling files) := by
  refine Run.starts_forM (fun f => ?_) files
  have hkind : ∀ kind : ModuleKind,
      Run.Starts
        (match kind with
          | .go =>
            Bundle.run request.project.root request.project.manifestDir f request.project.sdkImage)
        fun t current => match kind with
          | .go => [Bundle.command request.project.root request.project.manifestDir f
            request.project.sdkImage t current] := by
    intro kind
    cases kind
    exact Bundle.starts_run
  exact Run.starts_forM hkind (f.modules.getD [])

theorem take_bundling {files : List ExternalFile} {t : Tree} {current : Location}
    {argv : List String} (h : .ok argv ∈ request.bundling files t current) :
    argv.take 2 = ["docker", "run"] := by
  rw [bundling, List.mem_flatMap] at h
  obtain ⟨f, -, h⟩ := h
  obtain ⟨kind, -, h⟩ := List.mem_flatMap.mp h
  cases kind
  exact Bundle.take_command (List.mem_singleton.mp h).symm

end PackageRequest

/-- Building an image starts one command, the last event, unless the folder for the result cannot be
made or an argument has no text. -/
theorem Image.exec_build (image : Image) (s : Session) :
    exec image.build s =
      match Files.makeFolders s.tree s.current image.output with
      | (t, .error fault) =>
        (.error (Run.reporting (fun fault => .attempt (.noOutput image.output fault)) fault),
          s.withTree t)
      | (t, .ok _) =>
        if image.arguments.any (fun argument => argument.2.isOverlong) then
          (.error (.digits .write), s.withTree t)
        else
          exec (discard (Run.command (fun cause => .attempt (.command cause)) image.argv
            (some image.root.text))) (s.withTree t) := by
  rw [build, Run.exec_bind, Run.exec_makeFolders]
  obtain ⟨t, result⟩ := Files.makeFolders s.tree s.current image.output
  cases result with
  | error fault => rfl
  | ok _ =>
    dsimp only [Except.mapError]
    rw [Run.exec_requireTexts_bind, List.any_map]
    rfl

end BuildHook
