import BuildHook.Session
import Mathlib.Data.List.Forall2
import Mathlib.Tactic.Common

/-!
# What runs do

`Run.exec` gives the result of a run together with the session after it. Each step that runs are
made of has one equation for it here; later proofs use the equations and open no step again.
-/

namespace BuildHook

/-- The session with one more event. -/
def Session.noting (s : Session) (event : Event) : Session :=
  { s with journal := s.journal ++ [event] }

/-- The session with another tree. -/
def Session.withTree (s : Session) (tree : Tree) : Session :=
  { s with tree := tree }

/-- A session on a tree in which nothing has happened yet. No address replies, and every command
succeeds. -/
def Session.fresh (tree : Tree) (current : Location) : Session where
  tree := tree
  current := current
  replies := []
  outcomes := []
  lastOutcome := .exited 0 [] []
  journal := []

/-- The events that a session has and an earlier one has not. -/
def Session.since (s' s : Session) : List Event :=
  s'.journal.drop s.journal.length

/-- An outcome that a later command of a session may have. -/
def Session.Awaits (s : Session) (outcome : Outcome) : Prop :=
  outcome ∈ s.outcomes ∨ outcome = s.lastOutcome

/-- Commands of the second session have no outcomes that those of the first one could not have. -/
def Session.Spent (s s' : Session) : Prop :=
  ∀ outcome, s'.Awaits outcome → s.Awaits outcome

namespace Session

theorem Spent.trans {s t u : Session} (hst : s.Spent t) (htu : t.Spent u) : s.Spent u :=
  fun outcome h => hst outcome (htu outcome h)

theorem awaits_nextOutcome (s : Session) : s.Awaits s.nextOutcome := by
  unfold Awaits nextOutcome
  cases s.outcomes with
  | nil => exact .inr rfl
  | cons outcome rest => exact .inl List.mem_cons_self

theorem since_of_journal {s s' : Session} {added : List Event}
    (h : s'.journal = s.journal ++ added) : s'.since s = added := by
  rw [since, h, List.drop_left]

theorem journal_append_since {s s' : Session} (h : s.journal <+: s'.journal) :
    s.journal ++ s'.since s = s'.journal := by
  obtain ⟨added, hadded⟩ := h
  rw [since_of_journal hadded.symm, hadded]

@[simp] theorem since_self (s : Session) : s.since s = [] :=
  List.drop_length

theorem since_trans {s t u : Session} (hst : s.journal <+: t.journal)
    (htu : t.journal <+: u.journal) : u.since s = t.since s ++ u.since t := by
  apply since_of_journal
  rw [← List.append_assoc, journal_append_since hst, journal_append_since htu]

@[simp] theorem noting_tree (s : Session) (e : Event) : (s.noting e).tree = s.tree := rfl

@[simp] theorem noting_current (s : Session) (e : Event) : (s.noting e).current = s.current := rfl

@[simp] theorem noting_journal (s : Session) (e : Event) :
    (s.noting e).journal = s.journal ++ [e] := rfl

@[simp] theorem withTree_tree (s : Session) (t : Tree) : (s.withTree t).tree = t := rfl

@[simp] theorem withTree_current (s : Session) (t : Tree) :
    (s.withTree t).current = s.current := rfl

@[simp] theorem withTree_journal (s : Session) (t : Tree) :
    (s.withTree t).journal = s.journal := rfl

/-- The signals of a session with one more event. -/
theorem signals_noting (s : Session) (e : Event) :
    (s.noting e).signals = s.signals ++ e.signal?.toList := by
  simp only [signals, noting_journal, List.filterMap_append, List.filterMap_cons,
    List.filterMap_nil]
  cases e.signal? <;> rfl

end Session

/-- What a command writes is no text: its output or, where that is one, what it writes to standard
error. -/
inductive Outcome.Garbled : Outcome → Utf8.Malformed → Prop
  | output {code : Int} {output errors : List UInt8} {malformed : Utf8.Malformed}
    (houtput : Utf8.decode output = .error malformed) :
    Garbled (.exited code output errors) malformed
  | errors {code : Int} {output errors : List UInt8} {text : List Char} {malformed : Utf8.Malformed}
    (houtput : Utf8.decode output = .ok text) (herrors : Utf8.decode errors = .error malformed) :
    Garbled (.exited code output errors) malformed

namespace Run

variable {α β ε : Type} {s s' : Session}

/-- The result of a run and the session after it. -/
def exec (m : Run α) (s : Session) : Except Fault α × Session :=
  (ExceptT.run m).run s

@[simp] theorem exec_pure (a : α) (s : Session) : exec (pure a) s = (.ok a, s) := rfl

@[simp] theorem exec_throw (fault : Fault) (s : Session) :
    exec (throw fault : Run α) s = (.error fault, s) := rfl

@[simp] theorem exec_get (s : Session) : exec get s = (.ok s, s) := rfl

@[simp] theorem exec_set (next s : Session) : exec (set next) s = (.ok ⟨⟩, next) := rfl

theorem exec_bind (m : Run α) (f : α → Run β) (s : Session) :
    exec (m >>= f) s = match exec m s with
      | (.ok a, s') => exec (f a) s'
      | (.error fault, s') => (.error fault, s') := by
  change (ExceptT.bindCont f (exec m s).1 : StateM Session _) (exec m s).2 = _
  obtain ⟨result, next⟩ := exec m s
  cases result <;> rfl

theorem exec_bind_of_ok {m : Run α} {a : α} (h : exec m s = (.ok a, s')) (f : α → Run β) :
    exec (m >>= f) s = exec (f a) s' := by
  rw [exec_bind, h]

theorem exec_bind_of_error {m : Run α} {fault : Fault} (h : exec m s = (.error fault, s'))
    (f : α → Run β) : exec (m >>= f) s = (.error fault, s') := by
  rw [exec_bind, h]

/-- A sequence succeeds when both parts do, the second one where the first has ended. -/
theorem exec_bind_eq_ok {m : Run α} {f : α → Run β} {b : β} :
    exec (m >>= f) s = (.ok b, s') ↔
      ∃ a next, exec m s = (.ok a, next) ∧ exec (f a) next = (.ok b, s') := by
  rw [exec_bind]
  obtain ⟨result, next⟩ := exec m s
  cases result <;> simp

/-- What follows in a sequence without effects of its own is a matter of the result alone. -/
theorem exec_bind_of_pure {m : Run α} {f : α → Run β} {x : Except Fault α}
    {g : α → Except Fault β} (hm : exec m s = (x, s')) (hf : ∀ a, exec (f a) s' = (g a, s')) :
    exec (m >>= f) s = (x >>= g, s') := by
  rw [exec_bind, hm]
  cases x with
  | ok a => exact hf a
  | error fault => rfl

theorem exec_map (g : α → β) (m : Run α) (s : Session) :
    exec (g <$> m) s = ((exec m s).1.map g, (exec m s).2) := by
  rw [map_eq_pure_bind, exec_bind]
  obtain ⟨result, next⟩ := exec m s
  cases result <;> rfl

theorem exec_discard (m : Run α) (s : Session) :
    exec (discard m) s = ((exec m s).1.map fun _ => ⟨⟩, (exec m s).2) :=
  exec_map _ m s

@[simp] theorem exec_forM_nil (f : α → Run Unit) (s : Session) :
    exec ([].forM f) s = (.ok ⟨⟩, s) := rfl

theorem exec_forM_cons (x : α) (xs : List α) (f : α → Run Unit) (s : Session) :
    exec ((x :: xs).forM f) s = exec (f x >>= fun _ => xs.forM f) s := rfl

theorem exec_tryCatch (m : Run α) (handle : Fault → Run α) (s : Session) :
    exec (tryCatch m handle) s = match exec m s with
      | (.ok a, s') => (.ok a, s')
      | (.error fault, s') => exec (handle fault) s' := by
  unfold exec
  rw [ExceptT.run_tryCatch, StateT.run_bind]
  obtain ⟨result, next⟩ := (ExceptT.run m).run s
  cases result <;> rfl

@[simp] theorem exec_orFail (fault : ε → Fault) (x : Except ε α) (s : Session) :
    exec (orFail fault x) s = (x.mapError fault, s) := by
  cases x <;> rfl

theorem mapError_eq_ok {fault : ε → Fault} {x : Except ε α} {a : α} :
    x.mapError fault = .ok a ↔ x = .ok a := by
  cases x <;> simp [Except.mapError]

theorem mapError_eq_error {fault : ε → Fault} {x : Except ε α} {f : Fault} :
    x.mapError fault = .error f ↔ ∃ e, x = .error e ∧ fault e = f := by
  cases x <;> simp [Except.mapError]

theorem result_bind_eq_ok {x : Except ε α} {f : α → Except ε β} {b : β} :
    (x >>= f) = .ok b ↔ ∃ a, x = .ok a ∧ f a = .ok b := by
  cases x with
  | error e => exact ⟨nofun, fun ⟨_, h, _⟩ => nomatch h⟩
  | ok a => exact ⟨fun h => ⟨a, rfl, h⟩, fun ⟨_, ha, h⟩ => Except.ok.inj ha ▸ h⟩

theorem result_bind_eq_error {x : Except ε α} {f : α → Except ε β} {e : ε} :
    (x >>= f) = .error e ↔ x = .error e ∨ ∃ a, x = .ok a ∧ f a = .error e := by
  cases x with
  | error cause =>
    have hbind : (.error cause >>= f) = .error cause := rfl
    simp [hbind]
  | ok a =>
    have hbind : (.ok a >>= f) = f a := rfl
    simp [hbind]

/-- Results in a row succeed when each of them does. -/
theorem mapM_eq_ok {f : α → Except ε β} {xs : List α} {ys : List β} :
    xs.mapM f = .ok ys ↔ List.Forall₂ (fun x y => f x = .ok y) xs ys := by
  induction xs generalizing ys with
  | nil =>
    rw [List.forall₂_nil_left_iff]
    exact ⟨fun h => (Except.ok.inj h).symm, fun h => h ▸ rfl⟩
  | cons x xs ih =>
    rw [List.mapM_cons, result_bind_eq_ok, List.forall₂_cons_left_iff]
    refine exists_congr fun y => ?_
    simp only [result_bind_eq_ok, ih]
    constructor
    · rintro ⟨hy, others, hothers, hpure⟩
      exact ⟨others, hy, hothers, (Except.ok.inj hpure).symm⟩
    · rintro ⟨others, hy, hothers, rfl⟩
      exact ⟨hy, others, hothers, rfl⟩

theorem exists_of_mapM_eq_error {f : α → Except ε β} {xs : List α} {e : ε}
    (h : xs.mapM f = .error e) : ∃ x ∈ xs, f x = .error e := by
  induction xs with
  | nil => cases h
  | cons x xs ih =>
    rw [List.mapM_cons] at h
    rcases result_bind_eq_error.mp h with hfirst | ⟨y, -, h⟩
    · exact ⟨x, List.mem_cons_self, hfirst⟩
    rcases result_bind_eq_error.mp h with hrest | ⟨ys, -, hpure⟩
    · obtain ⟨other, hother, herror⟩ := ih hrest
      exact ⟨other, List.mem_cons_of_mem x hother, herror⟩
    · cases hpure

theorem map_eq_of_mapM {f : α → Except ε β} {xs : List α} {ys : List β} (h : xs.mapM f = .ok ys) :
    xs.map f = ys.map .ok := by
  rw [← List.forall₂_eq_eq_eq, List.forall₂_map_left_iff, List.forall₂_map_right_iff]
  exact mapM_eq_ok.mp h

theorem exec_orFail_eq_ok {fault : ε → Fault} {x : Except ε α} {a : α} :
    exec (orFail fault x) s = (.ok a, s') ↔ x = .ok a ∧ s = s' := by
  rw [exec_orFail, Prod.mk.injEq, mapError_eq_ok]

@[simp] theorem exec_note (e : Event) (s : Session) : exec (note e) s = (.ok ⟨⟩, s.noting e) := rfl

@[simp] theorem exec_watchFile (path : Path) (s : Session) :
    exec (watchFile path) s = (.ok ⟨⟩, s.noting (.notice (.signal (.file path)))) := rfl

@[simp] theorem exec_watchEnv (name : String) (s : Session) :
    exec (watchEnv name) s = (.ok ⟨⟩, s.noting (.notice (.signal (.env name)))) := rfl

@[simp] theorem exec_warn (message : String) (s : Session) :
    exec (warn message) s = (.ok ⟨⟩, s.noting (.notice (.warning message))) := rfl

theorem exec_change (fault : Files.Fault → Fault)
    (operation : Tree → Location → Except Files.Fault Tree) (s : Session) :
    exec (change fault operation) s = match operation s.tree s.current with
      | .ok tree => (.ok ⟨⟩, s.withTree tree)
      | .error cause => (.error (fault cause), s) := by
  rw [change, exec_bind_of_ok (exec_get s), exec_bind, exec_orFail]
  cases operation s.tree s.current <;> rfl

theorem exec_readFile (fault : Files.Fault → Fault) (path : Path) (s : Session) :
    exec (readFile fault path) s =
      ((Files.read s.tree s.current path).mapError (reporting fault), s.noting (.read path)) := by
  rw [readFile, exec_bind_of_ok (exec_note _ _), exec_bind_of_ok (exec_get _), exec_orFail]
  rfl

theorem exec_makeFolders (fault : Files.Fault → Fault) (path : Path) (s : Session) :
    exec (makeFolders fault path) s =
      ((Files.makeFolders s.tree s.current path).2.mapError (reporting fault),
        s.withTree (Files.makeFolders s.tree s.current path).1) := by
  rw [makeFolders, exec_bind_of_ok (exec_get _), exec_bind_of_ok (exec_set _ _), exec_orFail]
  rfl

/-- The session in which a command has been started. -/
def started (argv : List String) (folder : Option String) (s : Session) : Session :=
  { s.noting (.command argv folder) with outcomes := s.outcomes.tail }

theorem exec_command (fault : CommandFault → Fault) (argv : List String)
    (folder : Option String) (s : Session) :
    exec (command fault argv folder) s =
      if (argv ++ folder.toList).any hasZero then (.error .word, s)
      else (verdict fault argv s.nextOutcome, started argv folder s) := by
  rw [command]
  split
  · rfl
  · change exec (orFail id (verdict fault argv s.nextOutcome))
      (started argv folder s) = _
    rw [exec_orFail]
    cases verdict fault argv s.nextOutcome <;> rfl

/-- The faults of a command that is started come from what reports them, or it has written what is
no text. -/
theorem verdict_error {fault : CommandFault → Fault} {argv : List String} {outcome : Outcome}
    {cause : Fault} (h : verdict fault argv outcome = .error cause) :
    (∃ c, cause = fault c) ∨
      ∃ malformed, outcome.Garbled malformed ∧ cause = .undecodable malformed := by
  cases outcome with
  | notStarted reason => exact .inl ⟨_, (Except.error.inj h).symm⟩
  | exited code output errors =>
    obtain houtput | ⟨text, houtput, h⟩ := result_bind_eq_error.mp h
    · obtain ⟨malformed, hdecode, rfl⟩ := mapError_eq_error.mp houtput
      exact .inr ⟨malformed, .output hdecode, rfl⟩
    obtain herrors | ⟨-, -, h⟩ := result_bind_eq_error.mp h
    · obtain ⟨malformed, hdecode, rfl⟩ := mapError_eq_error.mp herrors
      exact .inr ⟨malformed, .errors (mapError_eq_ok.mp houtput) hdecode, rfl⟩
    split at h
    · cases h
    · exact .inl ⟨_, (Except.error.inj h).symm⟩

theorem exec_requireTexts_bind (values : List Toml.Value) (f : PUnit → Run α) (s : Session) :
    exec (requireTexts values >>= f) s =
      if values.any Toml.Value.isOverlong then (.error (.digits .write), s) else exec (f ⟨⟩) s := by
  rw [requireTexts]
  split <;> rfl

theorem exec_requireTexts (values : List Toml.Value) (s : Session) :
    exec (requireTexts values) s =
      (if values.any Toml.Value.isOverlong then .error (.digits .write) else .ok ⟨⟩, s) := by
  rw [requireTexts]
  split <;> rfl

theorem exec_requireTexts_eq_ok {values : List Toml.Value} {u : Unit} :
    exec (requireTexts values) s = (.ok u, s') ↔
      values.any Toml.Value.isOverlong = false ∧ s = s' := by
  rw [exec_requireTexts, Prod.mk.injEq]
  cases values.any Toml.Value.isOverlong <;> simp

theorem notFound_congr (htree : s'.tree = s.tree) (hcurrent : s'.current = s.current) (path : Path)
    (fault : Fault) : notFound s' path fault = notFound s path fault := by
  rw [notFound, notFound, htree, hcurrent]

/-! ## Loops -/

/-- A judgement on runs and what they are planned to do that holds of a sequence if it holds of its
parts, whose plans then stand in a row. Judgements without plans leave them empty. -/
structure Sequential {γ : Type} (P : {α : Type} → Run α → List γ → Prop) : Prop where
  pure {α : Type} (a : α) : P (pure a : Run α) []
  bind {α β : Type} {m : Run α} {f : α → Run β} {first rest : List γ} (hm : P m first)
    (hf : ∀ a, P (f a) rest) : P (m >>= f) (first ++ rest)

namespace Sequential

variable {γ : Type} {P : {α : Type} → Run α → List γ → Prop} {xs : List α}

theorem forM {f : α → Run Unit} (h : Sequential P) (plan : α → List γ)
    (hf : ∀ x ∈ xs, P (f x) (plan x)) : P (xs.forM f) (xs.flatMap plan) := by
  induction xs with
  | nil => exact h.pure PUnit.unit
  | cons x xs ih =>
    rw [List.flatMap_cons]
    exact h.bind (hf x List.mem_cons_self) fun _ => ih fun y hy => hf y (List.mem_cons_of_mem x hy)

theorem mapM {f : α → Run β} (h : Sequential P) (plan : α → List γ)
    (hf : ∀ x ∈ xs, P (f x) (plan x)) : P (xs.mapM f) (xs.flatMap plan) := by
  induction xs with
  | nil => exact h.pure []
  | cons x xs ih =>
    rw [List.flatMap_cons, List.mapM_cons]
    refine h.bind (hf x List.mem_cons_self) fun y => ?_
    have hrest := ih fun z hz => hf z (List.mem_cons_of_mem x hz)
    rw [← List.append_nil (xs.flatMap plan)]
    exact h.bind hrest fun ys => h.pure (y :: ys)

end Sequential

end Run

end BuildHook
