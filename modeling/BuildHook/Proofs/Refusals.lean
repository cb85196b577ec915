import BuildHook.Files.Operation
import Mathlib.Data.String.Basic
import Mathlib.Tactic.Common

/-!
# Why file operations fail

Either the operating system refuses an operation, or a path cannot be handed to it: it holds a zero
character. Resolving links and nothing else can fail in a third way.
-/

namespace BuildHook.Files

/-- A fault of an operation on a path: a refusal, or a zero character in the path. -/
def Fault.IsAt (p : Path) (fault : Fault) : Prop :=
  fault.isRefusal = true ∨ fault = .zero ∧ p.hasZero = true

variable {t : Tree} {current : Location} {p : Path} {fault : Fault} {steps : List String}

theorem hasZero_of_parent (h : p.parent.hasZero = true) : p.hasZero = true := by
  unfold Path.hasZero at h ⊢
  obtain ⟨step, hstep, hzero⟩ := List.any_eq_true.mp h
  exact List.any_eq_true.mpr ⟨step, (List.dropLast_sublist _).subset hstep, hzero⟩

theorem Fault.IsAt.of_parent (h : fault.IsAt p.parent) : fault.IsAt p :=
  h.imp_right fun ⟨hfault, hzero⟩ => ⟨hfault, hasZero_of_parent hzero⟩

/-! ## How long a path is -/

/-- The length in octets of steps that each have a slash in front. -/
def width : List String → Nat
  | [] => 0
  | step :: rest => step.utf8ByteSize + 1 + width rest

theorem width_append (steps rest : List String) :
    width (steps ++ rest) = width steps + width rest := by
  induction steps with
  | nil => exact (Nat.zero_add _).symm
  | cons step more ih =>
    rw [List.cons_append, width, width, ih]
    exact (Nat.add_assoc _ _ _).symm

theorem utf8Len_intercalate (h : steps ≠ []) :
    String.utf8Len (List.intercalate ['/'] (steps.map String.toList)) + 1 = width steps := by
  induction steps with
  | nil => exact absurd rfl h
  | cons step rest ih =>
    have hstep : String.utf8Len step.toList = step.utf8ByteSize := by
      rw [← String.utf8ByteSize_ofList, String.ofList_toList]
    have hslash : String.utf8Len ['/'] = 1 := rfl
    cases rest with
    | nil => simp [width, hstep]
    | cons next more =>
      have hrest := ih (List.cons_ne_nil _ _)
      rw [List.map_cons] at hrest
      rw [List.map_cons, List.map_cons, List.intercalate_cons_cons, String.utf8Len_append,
        String.utf8Len_append, width, ← hrest, hstep, hslash]
      omega

theorem size_text (p : Path) (h : p.steps ≠ []) :
    p.text.utf8ByteSize + 1 = String.utf8Len p.anchor.chars + width p.steps := by
  have hchars : p.chars = p.anchor.chars ++ List.intercalate ['/'] (p.steps.map String.toList) := by
    unfold Path.chars
    split
    · next hsteps => exact absurd hsteps h
    · rfl
  rw [Path.text, String.utf8ByteSize_ofList, hchars, String.utf8Len_append, Nat.add_assoc,
    utf8Len_intercalate h]

theorem size_text_of_nil (p : Path) (h : p.steps = []) :
    p.text.utf8ByteSize ≤ String.utf8Len p.anchor.chars + 1 := by
  obtain ⟨anchor, steps, hsteps⟩ := p
  obtain rfl : steps = [] := h
  rw [Path.text, String.utf8ByteSize_ofList]
  cases anchor <;> simp [Path.chars, Anchor.chars, List.intercalate, Char.utf8Size]

/-- A path is not shorter than the one above it. -/
theorem utf8ByteSize_parent_le (p : Path) : p.parent.text.utf8ByteSize ≤ p.text.utf8ByteSize := by
  have hparent : p.parent.steps = p.steps.dropLast := rfl
  rcases List.eq_nil_or_concat' p.steps with hnone | ⟨above, last, hsteps⟩
  · have hself : p.parent = p := Path.ext rfl (by rw [hparent, hnone]; rfl)
    rw [hself]
  rw [hsteps, List.dropLast_concat] at hparent
  have hanchor : p.parent.anchor = p.anchor := rfl
  have hsize := size_text p (by simp [hsteps])
  rw [hsteps, width_append, width, width] at hsize
  by_cases hroot : above = []
  · -- the path above is its anchor, or a point, and the last step is not empty
    have hlast : last.utf8ByteSize ≠ 0 := by
      simpa using (p.isStep last (by simp [hsteps])).1
    have habove := size_text_of_nil p.parent (hparent.trans hroot)
    rw [hanchor] at habove
    omega
  · have habove := size_text p.parent (by rwa [hparent])
    rw [hparent, hanchor] at habove
    omega

theorem isBarred_of_parent (h : isBarred p.parent = true) : isBarred p = true := by
  rw [isBarred, Bool.or_eq_true, decide_eq_true_eq] at h ⊢
  exact h.imp hasZero_of_parent fun hlong => hlong.trans (utf8ByteSize_parent_le p)

/-- A path that is barred is at fault itself. -/
theorem isAt_barrier (p : Path) : (barrier p none).IsAt p := by
  unfold barrier
  split
  · next hzero => exact .inr ⟨rfl, by simpa using hzero⟩
  · exact .inl rfl

theorem isAt_read (h : read t current p = .error fault) : fault.IsAt p := by
  unfold read at h
  split at h
  · exact Except.error.inj h ▸ isAt_barrier p
  · split at h <;> cases h <;> exact .inl rfl

theorem isAt_list (h : list t current p = .error fault) : fault.IsAt p := by
  unfold list at h
  split at h
  · exact Except.error.inj h ▸ isAt_barrier p
  · split at h <;> cases h <;> exact .inl rfl

theorem isAt_write {content : List UInt8} (h : write t current p content = .error fault) :
    fault.IsAt p := by
  unfold write at h
  split at h
  · exact Except.error.inj h ▸ isAt_barrier p
  · split at h <;> cases h <;> exact .inl rfl

theorem isAt_makeFolder (h : makeFolder t current p = .error fault) : fault.IsAt p := by
  unfold makeFolder at h
  split at h
  · exact Except.error.inj h ▸ isAt_barrier p
  · refine .inl ?_
    repeat' split at h
    all_goals cases h
    all_goals rfl

theorem unlessFolder_eq_error {cause : Fault} (h : unlessFolder t current p cause = .error fault) :
    fault = cause := by
  unfold unlessFolder at h
  split at h <;> cases h
  rfl

theorem isAt_makeLevels {levels : Nat} (h : (makeLevels t current levels p).2 = .error fault) :
    fault.IsAt p := by
  induction levels generalizing p with
  | zero =>
    unfold makeLevels at h
    split at h
    · cases h
    · cases h
      exact .inl rfl
    · next hmake => exact unlessFolder_eq_error h ▸ isAt_makeFolder hmake
  | succ levels ih =>
    unfold makeLevels at h
    split at h
    · cases h
    · -- first the folders above, then the folder itself once more
      split at h
      · next above cause hrest =>
        cases h
        exact (ih (by rw [hrest])).of_parent
      · split at h
        · cases h
        · cases h
          exact .inl rfl
        · next hmake => exact unlessFolder_eq_error h ▸ isAt_makeFolder hmake
    · next hmake => exact unlessFolder_eq_error h ▸ isAt_makeFolder hmake

theorem isAt_makeFolders (h : (makeFolders t current p).2 = .error fault) : fault.IsAt p :=
  isAt_makeLevels h

theorem isAt_rename {target : Path} (h : rename t current p target = .error fault) :
    fault.IsAt p ∨ fault.IsAt target := by
  unfold rename at h
  dsimp only at h
  split at h
  · obtain rfl := Except.error.inj h
    unfold barrier
    split
    · next hzero =>
      rw [Bool.or_eq_true, Option.any_some] at hzero
      exact hzero.imp (fun hsource => .inr ⟨rfl, hsource⟩) fun htarget => .inr ⟨rfl, htarget⟩
    · exact .inl (.inl rfl)
  · refine .inl (.inl ?_)
    repeat' split at h
    all_goals cases h
    all_goals rfl

end BuildHook.Files
