import BuildHook.Proofs.Run
import Mathlib.Logic.Relation

/-!
# What runs may do

A licence says which events a run may note, given the journal so far, and how it may change the
tree. It is checked step by step; what it says about whole runs follows by one induction over the
steps.
-/

namespace BuildHook

/-- The events that a run may note after a journal, and the changes it may make to a tree. -/
structure Licence where
  event : List Event → Event → Prop
  change : Tree → Tree → Prop

namespace Licence

/-- The licence that limits events only. -/
def ofEvents (event : List Event → Event → Prop) : Licence :=
  ⟨event, fun _ _ => True⟩

/-- One step under a licence. The next outcome of a command may be used up at any time. -/
inductive Step (l : Licence) (s : Session) : Session → Prop
  | note {e : Event} (h : l.event s.journal e) : Step l s (s.noting e)
  | change {t : Tree} (h : l.change s.tree t) : Step l s (s.withTree t)
  | spend : Step l s { s with outcomes := s.outcomes.tail }

/-- Any number of steps under a licence. -/
abbrev Steps (l : Licence) : Session → Session → Prop :=
  Relation.ReflTransGen l.Step

variable {l k : Licence} {s s' : Session} {α β ε γ : Type}

theorem Steps.note {e : Event} (h : l.event s.journal e) : l.Steps s (s.noting e) :=
  .single (.note h)

theorem Steps.change {t : Tree} (h : l.change s.tree t) : l.Steps s (s.withTree t) :=
  .single (.change h)

theorem Steps.mono (h : l.Steps s s') (hevent : ∀ journal e, l.event journal e → k.event journal e)
    (hchange : ∀ t t', l.change t t' → k.change t t') : k.Steps s s' := by
  induction h with
  | refl => exact .refl
  | tail _ step ih =>
    refine ih.tail ?_
    cases step with
    | note h => exact .note (hevent _ _ h)
    | change h => exact .change (hchange _ _ h)
    | spend => exact .spend

theorem Steps.current (h : l.Steps s s') : s'.current = s.current := by
  induction h with
  | refl => rfl
  | tail _ step ih => rw [← ih]; cases step <;> rfl

theorem Steps.spent (h : l.Steps s s') : s.Spent s' := by
  induction h with
  | refl => exact fun _ h => h
  | tail _ step ih =>
    refine ih.trans fun outcome hawaits => ?_
    cases step with
    | note _ => exact hawaits
    | change _ => exact hawaits
    | spend => exact hawaits.imp_left List.mem_of_mem_tail

theorem Steps.tree (h : l.Steps s s') : Relation.ReflTransGen l.change s.tree s'.tree := by
  induction h with
  | refl => exact .refl
  | tail _ step ih =>
    cases step with
    | note _ => exact ih
    | change h => exact ih.tail h
    | spend => exact ih

/-- Steps only add to the journal, and each event that they add may follow what stands before it. -/
theorem Steps.journal (h : l.Steps s s') :
    ∃ added, s'.journal = s.journal ++ added ∧
      ∀ before e later, added = before ++ e :: later → l.event (s.journal ++ before) e := by
  induction h with
  | refl => exact ⟨[], by simp, by simp⟩
  | @tail middle last _ step ih =>
    obtain ⟨added, hjournal, hadded⟩ := ih
    cases step with
    | change _ => exact ⟨added, hjournal, hadded⟩
    | spend => exact ⟨added, hjournal, hadded⟩
    | @note e h =>
      refine ⟨added ++ [e], by simp [hjournal], fun before x later hsplit => ?_⟩
      -- the event is either the new last one or stood there before
      rcases List.eq_nil_or_concat later with rfl | ⟨later, y, rfl⟩
      · obtain ⟨rfl, hx⟩ := List.append_inj' hsplit rfl
        obtain rfl : e = x := by simpa using hx
        rwa [hjournal] at h
      · refine hadded before x later ?_
        rw [List.concat_eq_append, ← List.cons_append, ← List.append_assoc] at hsplit
        exact (List.append_inj' hsplit rfl).1

theorem Steps.journal_extends (h : l.Steps s s') : s.journal <+: s'.journal := by
  obtain ⟨added, hadded, _⟩ := h.journal
  exact ⟨added, hadded.symm⟩

theorem Steps.forall_since {P : Event → Prop} (hP : ∀ journal e, l.event journal e → P e)
    (h : l.Steps s s') : ∀ e ∈ s'.since s, P e := by
  obtain ⟨added, hjournal, hadded⟩ := h.journal
  rw [Session.since_of_journal hjournal]
  intro e he
  obtain ⟨before, later, hsplit⟩ := List.append_of_mem he
  exact hP _ e (hadded before e later hsplit)

theorem Steps.tree_eq (hkeep : ∀ t t', l.change t t' → t' = t) (h : l.Steps s s') :
    s'.tree = s.tree := by
  induction h with
  | refl => rfl
  | tail _ step ih =>
    rw [← ih]
    cases step with
    | note _ => rfl
    | change h => exact hkeep _ _ h
    | spend => rfl

/-- What a licence never lets be noted is the same before and after. -/
theorem Steps.filterMap_journal {g : Event → Option γ}
    (hquiet : ∀ journal e, l.event journal e → g e = none) (h : l.Steps s s') :
    s'.journal.filterMap g = s.journal.filterMap g := by
  induction h with
  | refl => rfl
  | tail _ step ih =>
    rw [← ih]
    cases step with
    | note h => simp [hquiet _ _ h]
    | change _ => rfl
    | spend => rfl

theorem Steps.signals (hquiet : ∀ journal e, l.event journal e → e.signal? = none)
    (h : l.Steps s s') : s'.signals = s.signals :=
  h.filterMap_journal hquiet

/-- A run that takes only steps under the licence. -/
def Allows (l : Licence) (m : Run α) (s : Session) : Prop :=
  l.Steps s (Run.exec m s).2

theorem Allows.of_exec {m : Run α} {r : Except Fault α} (h : l.Allows m s)
    (he : Run.exec m s = (r, s')) : l.Steps s s' := by
  rw [Allows, he] at h
  exact h

theorem allows_of_exec {m : Run α} {r : Except Fault α} (he : Run.exec m s = (r, s'))
    (h : l.Steps s s') : l.Allows m s := by
  rw [Allows, he]
  exact h

theorem Allows.current_of_exec {m : Run α} {r : Except Fault α} (h : l.Allows m s)
    (he : Run.exec m s = (r, s')) : s'.current = s.current :=
  (h.of_exec he).current

theorem allows_pure (a : α) : l.Allows (pure a) s :=
  .refl

theorem allows_throw (fault : Fault) : l.Allows (throw fault : Run α) s :=
  .refl

theorem allows_get : l.Allows get s :=
  .refl

theorem allows_orFail (fault : ε → Fault) (x : Except ε α) : l.Allows (Run.orFail fault x) s :=
  allows_of_exec (Run.exec_orFail fault x s) .refl

theorem allows_bind {m : Run α} {f : α → Run β} (hm : l.Allows m s)
    (hf : ∀ a next, Run.exec m s = (.ok a, next) → l.Allows (f a) next) :
    l.Allows (m >>= f) s := by
  rcases he : Run.exec m s with ⟨result, next⟩
  cases result with
  | ok a =>
    rw [Allows, Run.exec_bind_of_ok he]
    exact (hm.of_exec he).trans (hf a next he)
  | error fault => exact allows_of_exec (Run.exec_bind_of_error he f) (hm.of_exec he)

theorem allows_map {m : Run α} (g : α → β) (hm : l.Allows m s) : l.Allows (g <$> m) s :=
  allows_of_exec (Run.exec_map g m s) hm

theorem allows_discard {m : Run α} (hm : l.Allows m s) : l.Allows (discard m) s :=
  allows_of_exec (Run.exec_discard m s) hm

theorem allows_tryCatch {m : Run α} {handle : Fault → Run α} (hm : l.Allows m s)
    (hhandle : ∀ fault next, Run.exec m s = (.error fault, next) →
      l.Allows (handle fault) next) : l.Allows (tryCatch m handle) s := by
  rcases he : Run.exec m s with ⟨result, next⟩
  have hcatch := Run.exec_tryCatch m handle s
  rw [he] at hcatch
  cases result with
  | ok a => exact allows_of_exec hcatch (hm.of_exec he)
  | error fault =>
    rw [Allows, hcatch]
    exact (hm.of_exec he).trans (hhandle fault next he)

/-- Runs that are allowed wherever the current folder is a given one. -/
theorem sequential_here (current : Location) :
    Run.Sequential fun m (_ : List Unit) => ∀ s, s.current = current → l.Allows m s where
  pure a _ _ := allows_pure a
  bind hm hf s hs := allows_bind (hm s hs) fun a next he =>
    hf a next (((hm s hs).current_of_exec he).trans hs)

/-- A loop whose rounds are allowed wherever the current folder is this one. -/
theorem allows_forM_here {xs : List α} {f : α → Run Unit}
    (hf : ∀ x ∈ xs, ∀ next : Session, next.current = s.current → l.Allows (f x) next) :
    l.Allows (xs.forM f) s :=
  (sequential_here s.current).forM (fun _ => []) hf s rfl

theorem allows_forM {xs : List α} {f : α → Run Unit}
    (hf : ∀ x ∈ xs, ∀ s, l.Allows (f x) s) : l.Allows (xs.forM f) s :=
  allows_forM_here fun x hx next _ => hf x hx next

theorem allows_mapM {xs : List α} {f : α → Run β} (hf : ∀ x ∈ xs, ∀ s, l.Allows (f x) s) :
    l.Allows (xs.mapM f) s :=
  (sequential_here s.current).mapM (fun _ => []) (fun x hx next _ => hf x hx next) s rfl

theorem allows_note {e : Event} (h : l.event s.journal e) : l.Allows (Run.note e) s :=
  .note h

theorem allows_watchFile {path : Path}
    (h : l.event s.journal (.notice (.signal (.file path)))) : l.Allows (Run.watchFile path) s :=
  .note h

theorem allows_watchEnv {name : String}
    (h : l.event s.journal (.notice (.signal (.env name)))) : l.Allows (Run.watchEnv name) s :=
  .note h

theorem allows_warn {message : String}
    (h : l.event s.journal (.notice (.warning message))) : l.Allows (Run.warn message) s :=
  .note h

theorem allows_readFile {fault : Files.Fault → Fault} {path : Path}
    (h : l.event s.journal (.read path)) : l.Allows (Run.readFile fault path) s :=
  allows_of_exec (Run.exec_readFile fault path s) (.note h)

theorem allows_change {fault : Files.Fault → Fault}
    {operation : Tree → Location → Except Files.Fault Tree}
    (h : ∀ t, operation s.tree s.current = .ok t → l.change s.tree t) :
    l.Allows (Run.change fault operation) s := by
  rw [Allows, Run.exec_change]
  cases hop : operation s.tree s.current with
  | ok t => exact .change (h t hop)
  | error cause => exact .refl

theorem allows_makeFolders {fault : Files.Fault → Fault} {path : Path}
    (h : l.change s.tree (Files.makeFolders s.tree s.current path).1) :
    l.Allows (Run.makeFolders fault path) s :=
  allows_of_exec (Run.exec_makeFolders fault path s) (.change h)

theorem allows_requireTexts (values : List Toml.Value) :
    l.Allows (Run.requireTexts values) s :=
  allows_of_exec (Run.exec_requireTexts values s) .refl

theorem allows_command {fault : CommandFault → Fault} {argv : List String}
    {folder : Option String} (h : l.event s.journal (.command argv folder)) :
    l.Allows (Run.command fault argv folder) s := by
  rw [Allows, Run.exec_command]
  split
  · exact .refl
  · exact (Steps.note h).tail .spend

end Licence

end BuildHook
