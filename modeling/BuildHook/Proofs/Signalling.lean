import BuildHook.Proofs.Reading

/-!
# What runs signal

Signalling lists of paths and names, in one equation each. Paths that are signalled only once are
those of the list that were not signalled before, each at its first occurrence.
-/

namespace BuildHook

namespace Session

variable (s : Session)

/-- The session after some signals. -/
def signalling (signals : List Signal) : Session :=
  { s with journal := s.journal ++ signals.map fun signal => .notice (.signal signal) }

/-- The paths of a list that are not signalled yet, each at its first occurrence. -/
def unwatched (paths : List Path) : List Path :=
  (paths.filter fun path => !s.watchedFiles.contains path).eraseDups

@[simp] theorem signalling_nil : s.signalling [] = s := by
  simp [signalling]

theorem signalling_cons (x : Signal) (xs : List Signal) :
    s.signalling (x :: xs) = (s.noting (.notice (.signal x))).signalling xs := by
  simp [signalling, noting]

theorem signalling_append (xs ys : List Signal) :
    s.signalling (xs ++ ys) = (s.signalling xs).signalling ys := by
  simp [signalling]

@[simp] theorem signalling_tree (xs : List Signal) : (s.signalling xs).tree = s.tree := rfl

@[simp] theorem signalling_current (xs : List Signal) : (s.signalling xs).current = s.current := rfl

theorem signalling_journal (xs : List Signal) :
    (s.signalling xs).journal = s.journal ++ xs.map fun x => .notice (.signal x) := rfl

@[simp] theorem signals_signalling (xs : List Signal) :
    (s.signalling xs).signals = s.signals ++ xs := by
  have hmap : (xs.map fun x => Event.notice (.signal x)).filterMap Event.signal? = xs := by
    rw [List.filterMap_map]
    exact List.filterMap_some
  rw [signals, signalling_journal, List.filterMap_append, hmap]
  rfl

theorem watchedFiles_signalling (paths : List Path) :
    (s.signalling (paths.map .file)).watchedFiles = s.watchedFiles ++ paths := by
  have hmap : (paths.map Signal.file).filterMap Signal.path? = paths := by
    rw [List.filterMap_map]
    exact List.filterMap_some
  rw [watchedFiles, signals_signalling, List.filterMap_append, hmap]
  rfl

theorem mem_watchedFiles {path : Path} :
    path ∈ s.watchedFiles ↔ .notice (.signal (.file path)) ∈ s.journal := by
  rw [watchedFiles, signals, List.filterMap_filterMap, List.mem_filterMap]
  constructor
  · rintro ⟨e, he, hpath⟩
    -- of all events only the signal of a file has a path
    rcases e with (⟨⟨other⟩ | ⟨name⟩⟩ | ⟨message⟩) | _ | _ | _
    · obtain rfl : other = path := Option.some.inj hpath
      exact he
    all_goals cases hpath
  · intro h
    exact ⟨_, h, rfl⟩

theorem mem_unwatched {path : Path} {paths : List Path} :
    path ∈ s.unwatched paths ↔ path ∈ paths ∧ path ∉ s.watchedFiles := by
  simp [unwatched]

theorem unwatched_cons_of_mem {path : Path} (h : path ∈ s.watchedFiles) (paths : List Path) :
    s.unwatched (path :: paths) = s.unwatched paths := by
  simp [unwatched, h]

theorem unwatched_cons_of_not_mem {path : Path} (h : path ∉ s.watchedFiles)
    (paths : List Path) :
    s.unwatched (path :: paths) = path :: (s.signalling [.file path]).unwatched paths := by
  have hwatched := s.watchedFiles_signalling [path]
  rw [List.map_singleton] at hwatched
  rw [unwatched, unwatched, hwatched, List.filter_cons_of_pos (by simpa using h),
    List.eraseDups_cons, List.filter_filter]
  congr 3
  funext other
  by_cases heq : other = path <;> simp [heq]

/-- Two lists signalled one after the other are signalled as one list. -/
theorem unwatched_append (xs ys : List Path) :
    s.unwatched (xs ++ ys) =
      s.unwatched xs ++ (s.signalling ((s.unwatched xs).map .file)).unwatched ys := by
  induction xs generalizing s with
  | nil => simp [unwatched]
  | cons x xs ih =>
    by_cases hx : x ∈ s.watchedFiles
    · rw [List.cons_append, unwatched_cons_of_mem s hx, unwatched_cons_of_mem s hx, ih]
    · rw [List.cons_append, unwatched_cons_of_not_mem s hx, unwatched_cons_of_not_mem s hx, ih,
        List.map_cons, ← List.singleton_append (l := List.map _ _), signalling_append,
        List.cons_append]

end Session

namespace Run

theorem exec_watchEnvs {α : Type} (name : α → String) (xs : List α) (s : Session) :
    exec (xs.forM fun x => watchEnv (name x)) s =
      (.ok ⟨⟩, s.signalling (xs.map fun x => .env (name x))) := by
  induction xs generalizing s with
  | nil => simp
  | cons x xs ih =>
    rw [exec_forM_cons, exec_bind_of_ok (exec_watchEnv (name x) s), ih, List.map_cons,
      Session.signalling_cons]

theorem exec_watchSettings (kind : BuildKind) (s : Session) :
    exec (watchSettings kind) s =
      (.ok ⟨⟩, s.signalling ((Setting.ofKind kind).map fun x => .env x.envName)) :=
  exec_watchEnvs Setting.envName _ s

theorem exec_watchFeatures (tracked : Option (List String)) (s : Session) :
    exec (watchFeatures tracked) s =
      (.ok ⟨⟩, s.signalling ((ImageFeatures.envNames tracked).map .env)) :=
  exec_watchEnvs id _ s

theorem exec_watchNewEnvs (names : List String) (s : Session) :
    exec (watchNewEnvs names) s = (.ok ⟨⟩,
      s.signalling ((names.filter fun name => !s.watchedEnvs.contains name).map .env)) := by
  rw [watchNewEnvs, exec_bind_of_ok (exec_get s)]
  -- the names that count as signalled stay those of the beginning
  generalize s.watchedEnvs = watched
  dsimp only
  induction names generalizing s with
  | nil => simp
  | cons name names ih =>
    rw [exec_forM_cons]
    by_cases hname : watched.contains name = true
    · simp only [hname, ↓reduceIte]
      rw [exec_bind_of_ok (exec_pure _ s), ih, List.filter_cons_of_neg (by simpa using hname)]
    · simp only [hname, Bool.false_eq_true, ↓reduceIte]
      rw [exec_bind_of_ok (exec_watchEnv name s), ih,
        List.filter_cons_of_pos (by simpa using hname), List.map_cons, Session.signalling_cons]

theorem exec_watchNewFiles (paths : List Path) (s : Session) :
    exec (watchNewFiles paths) s = (.ok ⟨⟩, s.signalling ((s.unwatched paths).map .file)) := by
  induction paths generalizing s with
  | nil => simp [watchNewFiles, Session.unwatched]
  | cons path paths ih =>
    rw [watchNewFiles, exec_forM_cons]
    by_cases hpath : path ∈ s.watchedFiles
    · have hskip : exec (do
          unless (← get).watchedFiles.contains path do watchFile path) s = (.ok ⟨⟩, s) := by
        rw [exec_bind_of_ok (exec_get s)]
        simp [hpath]
      rw [exec_bind_of_ok hskip, s.unwatched_cons_of_mem hpath]
      exact ih s
    · have hwatch : exec (do
          unless (← get).watchedFiles.contains path do watchFile path) s =
            (.ok ⟨⟩, s.noting (.notice (.signal (.file path)))) := by
        rw [exec_bind_of_ok (exec_get s)]
        simp [hpath]
      rw [exec_bind_of_ok hwatch, s.unwatched_cons_of_not_mem hpath, List.map_cons,
        Session.signalling_cons]
      exact ih _

end Run

end BuildHook
