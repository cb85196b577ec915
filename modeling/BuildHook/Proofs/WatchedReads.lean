import BuildHook.CommandLine
import BuildHook.Proofs.Pipeline
import BuildHook.Proofs.Stages

/-!
# Nothing is read before it is signalled

A build signals every input file before it reads it, wherever the build ends. A build that is
started from the command line signals all environment variables of its kind before anything else.
-/

namespace BuildHook

open Run (exec)

/-- Of the events between two sessions, each content that is read belongs to a file that has been
signalled before. -/
def ReadsWatched (s s' : Session) : Prop :=
  ∃ added, s'.journal = s.journal ++ added ∧
    ∀ before path later, added = before ++ .read path :: later →
      .file path ∈ (s.journal ++ before).filterMap Event.signal?

/-- The licence to read only files that are signalled. -/
def Licence.watchedReads : Licence :=
  .ofEvents fun journal e => ∀ path, e = .read path → .notice (.signal (.file path)) ∈ journal

namespace Licence

theorem Steps.readsWatched {s s' : Session} (h : watchedReads.Steps s s') : ReadsWatched s s' := by
  obtain ⟨added, hjournal, hadded⟩ := h.journal
  refine ⟨added, hjournal, fun before path later hsplit => ?_⟩
  have hmem := hadded before (.read path) later hsplit path rfl
  exact List.mem_filterMap.mpr ⟨_, hmem, rfl⟩

/-- Every event but a read is free. -/
theorem watchedReads_event {journal : List Event} {e : Event} (h : ∀ path, e ≠ .read path) :
    watchedReads.event journal e :=
  fun path heq => absurd heq (h path)

theorem watchedReads_read {journal : List Event} {path : Path}
    (h : .notice (.signal (.file path)) ∈ journal) : watchedReads.event journal (.read path) := by
  intro other heq
  obtain rfl : path = other := Event.read.inj heq
  exact h

variable {s : Session}

theorem watchedReads_watchManifest (path : Path) :
    watchedReads.Allows (Run.watchManifest path) s :=
  allows_watchManifest (watchedReads_event (by simp)) (watchedReads_read (by simp))

/-- A spec file that was signalled at any time before is not signalled again, but counts. -/
theorem watchedReads_watchSpec (path : Path) :
    watchedReads.Allows (PackageRequest.watchSpec path) s := by
  refine allows_bind (allows_watchNewFiles fun _ _ _ _ => watchedReads_event (by simp))
    fun _ next hwatch => ?_
  have hnext : path ∈ next.watchedFiles := by
    obtain rfl : s.signalling ((s.unwatched [path]).map .file) = next := by
      rw [Run.exec_watchNewFiles] at hwatch
      exact (Prod.ext_iff.mp hwatch).2
    rw [Session.watchedFiles_signalling, List.mem_append]
    by_cases hold : path ∈ s.watchedFiles
    · exact .inl hold
    · exact .inr ((s.mem_unwatched).mpr ⟨by simp, hold⟩)
  refine allows_bind (allows_readSpec (watchedReads_read ?_)) fun spec _ _ => ?_
  · simpa using next.mem_watchedFiles.mp hnext
  · exact allows_watchNewFiles fun _ _ _ _ => watchedReads_event (by simp)

theorem watchedReads_collect (request : PackageRequest) (manifest : Manifest) :
    watchedReads.Allows (request.collect manifest) s := by
  refine allows_bind (allows_watchEnvs fun _ _ _ => watchedReads_event (by simp)) fun _ _ _ => ?_
  refine allows_bind (allows_watchNewEnvs fun _ _ _ => watchedReads_event (by simp))
    fun _ _ _ => ?_
  exact allows_fetch (fun _ _ _ _ _ => watchedReads_event (by simp))
    (fun _ _ => watchedReads_read) (fun _ _ => watchedReads_event (by simp)) fun _ _ => trivial

theorem watchedReads_package (request : PackageRequest) :
    watchedReads.Allows request.build s := by
  rw [request.build_eq]
  refine allows_bind ?_ fun image _ _ => allows_image trivial (watchedReads_event (by simp))
  refine allows_bind (allows_bind ?_ fun manifests _ _ =>
    allows_bind (watchedReads_collect request _) fun _ _ _ => allows_pure _) fun manifests _ _ => ?_
  · exact allows_bind (watchedReads_watchManifest _) fun manifest _ _ =>
      allows_bind (watchedReads_watchManifest _) fun variant _ _ =>
        allows_bind allows_requireArch fun _ _ _ => allows_pure _
  refine allows_bind (allows_forM fun f _ _ => allows_bundle fun _ _ _ _ =>
    watchedReads_event (by simp)) fun _ _ _ => ?_
  refine allows_bind (allows_watchSources fun _ _ _ => watchedReads_event (by simp))
    fun _ _ _ => ?_
  refine allows_bind (allows_requireTexts _) fun _ _ _ => ?_
  exact allows_bind (watchedReads_watchSpec _) fun _ _ _ => allows_checked

theorem watchedReads_variant (request : VariantRequest) :
    watchedReads.Allows request.build s := by
  rw [request.build_eq]
  refine allows_bind ?_ fun image _ _ => ?_
  · refine allows_bind (allows_bind (watchedReads_watchManifest _) fun manifest _ _ =>
      allows_bind allows_requireArch fun _ _ _ => allows_pure _) fun manifest _ _ => ?_
    exact allows_bind (allows_discard (allows_generate (fun _ _ => watchedReads_event (by simp))
      (fun _ _ => watchedReads_read) fun _ _ => trivial)) fun _ _ _ => allows_surveyVariant
  · cases image with
    | none => exact allows_warn (watchedReads_event (by simp))
    | some image => exact allows_image trivial (watchedReads_event (by simp))

theorem watchedReads_request (request : Request) : watchedReads.Allows request.build s := by
  cases request with
  | package request => exact watchedReads_package request
  | variant request => exact watchedReads_variant request

end Licence

namespace CommandLine

/-- How a command line ends when its build has a given result. -/
def endingOf : Except Fault Unit → Ending
  | .ok _ => ⟨0, none⟩
  | .error fault => ⟨1, some fault⟩

variable {kind : BuildKind} {values : Values} (s : Session)

/-- The session in which all environment variables of a kind of build are signalled. -/
def begun (kind : BuildKind) : Session :=
  s.signalling ((Setting.ofKind kind).map fun x => .env x.envName)

theorem exec_build :
    exec (build kind values) s =
      match Request.ofValues kind values with
      | .error fault => (.error fault, begun s kind)
      | .ok request => exec request.build (begun s kind) := by
  rw [build, Run.exec_bind_of_ok (Run.exec_watchSettings kind s)]
  cases hrequest : Request.ofValues kind values with
  | error fault => rfl
  | ok request => exact Run.exec_bind_of_ok (Run.exec_orFail _ _ _) _

theorem run_of_build {args : List String} {environment : String → Option String}
    (h : read args environment = .build kind values) :
    (run args environment).run s =
      (endingOf (exec (build kind values) s).1, (exec (build kind values) s).2) := by
  have hexec : (build kind values).run.run s = exec (build kind values) s := rfl
  rw [run, h]
  dsimp only
  rw [StateT.run_bind, hexec]
  obtain ⟨result, next⟩ := exec (build kind values) s
  cases result <;> rfl

theorem readsWatched_build : ReadsWatched s (exec (build kind values) s).2 := by
  have hsettings : Licence.watchedReads.Allows (Run.watchSettings kind) s :=
    Licence.allows_watchEnvs fun _ _ _ => Licence.watchedReads_event (by simp)
  refine Licence.Steps.readsWatched (Licence.allows_bind hsettings fun _ _ _ => ?_)
  exact Licence.allows_bind (Licence.allows_orFail _ _) fun request _ _ =>
    Licence.watchedReads_request request

end CommandLine

/-- Whatever is requested, and wherever the build ends, no input file is read before it is
signalled. On the command line the environment variables come before the request itself, also if
there is none. -/
theorem watched_before_read (s : Session) :
    (∀ request : Request, ReadsWatched s (exec request.build s).2) ∧
    ∀ args environment,
      match CommandLine.read args environment with
      | .stop code => (CommandLine.run args environment).run s = (⟨code, none⟩, s)
      | .build kind values =>
        ReadsWatched s ((CommandLine.run args environment).run s).2 ∧
        (CommandLine.run args environment).run s =
          let watching := s.signalling ((Setting.ofKind kind).map fun x => .env x.envName)
          match Request.ofValues kind values with
          | .error fault => (⟨1, some fault⟩, watching)
          | .ok request =>
            (CommandLine.endingOf (exec request.build watching).1, (exec request.build watching).2)
      := by
  refine ⟨fun request => Licence.Steps.readsWatched (Licence.watchedReads_request request),
    fun args environment => ?_⟩
  cases hread : CommandLine.read args environment with
  | stop code => simp only [CommandLine.run, hread]; rfl
  | build kind values =>
    dsimp only
    rw [CommandLine.run_of_build s hread]
    refine ⟨CommandLine.readsWatched_build s, ?_⟩
    rw [CommandLine.exec_build]
    cases Request.ofValues kind values <;> rfl

end BuildHook
