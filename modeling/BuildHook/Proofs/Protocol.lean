import BuildHook.Proofs.Signalling
import Mathlib.Data.List.Flatten

/-!
# The protocol of signals

What a build says is read back from its lines, each by its mark. A notice reads back as it was if its
text has neither a line feed nor a terminal control, and no other stream reads back as its notices:
a line feed opens lines of its own, and a control is lost.
-/

namespace BuildHook

open Run (exec)

/-! ## Lines and terminal controls -/

namespace Text

/-- Whether a control sequence stands somewhere in a text. -/
def holdsControl : List Char → Bool
  | [] => false
  | c :: rest => decide (c = '\x1b') && (controlLength? rest).isSome || holdsControl rest

theorem dropControlsFrom_sublist (skipped : Nat) (cs : List Char) :
    (dropControlsFrom skipped cs).Sublist cs := by
  induction cs generalizing skipped with
  | nil => cases skipped <;> exact List.Sublist.refl _
  | cons c rest ih =>
    cases skipped with
    | succ skipped => exact (ih skipped).cons c
    | zero =>
      rw [dropControlsFrom]
      split
      · split
        · exact (ih _).cons c
        · exact (ih 0).cons_cons c
      · exact (ih 0).cons_cons c

theorem dropControls_append {before : List Char} (h : '\x1b' ∉ before) (cs : List Char) :
    dropControls (before ++ cs) = before ++ dropControls cs := by
  induction before with
  | nil => rfl
  | cons c before ih =>
    rw [List.mem_cons, not_or] at h
    have hrest : dropControlsFrom 0 (before ++ cs) = before ++ dropControls cs := ih h.2
    rw [List.cons_append, dropControls, dropControlsFrom, if_neg (Ne.symm h.1), hrest,
      List.cons_append]

/-- Of a text that holds controls an escape character is lost. -/
theorem count_dropControls_lt {cs : List Char} (h : holdsControl cs = true) :
    (dropControls cs).count '\x1b' < cs.count '\x1b' := by
  induction cs with
  | nil => cases h
  | cons c rest ih =>
    rw [dropControls, dropControlsFrom]
    by_cases hescape : c = '\x1b'
    · rw [if_pos hescape]
      subst hescape
      cases hlength : controlLength? rest with
      | some length =>
        have hle := (dropControlsFrom_sublist length rest).count_le '\x1b'
        rw [List.count_cons_self]
        exact Nat.lt_succ_of_le hle
      | none =>
        have hrest : holdsControl rest = true := by simpa [holdsControl, hlength] using h
        rw [List.count_cons_self, List.count_cons_self]
        exact Nat.succ_lt_succ (ih hrest)
    · have hrest : holdsControl rest = true := by simpa [holdsControl, hescape] using h
      rw [if_neg hescape, List.count_cons_of_ne hescape, List.count_cons_of_ne hescape]
      exact ih hrest

theorem dropControls_of_holdsControl {cs : List Char} (h : holdsControl cs = false) :
    dropControls cs = cs := by
  induction cs with
  | nil => rfl
  | cons c rest ih =>
    obtain ⟨hcontrol, hrest⟩ := Bool.or_eq_false_iff.mp h
    have hkept : dropControlsFrom 0 rest = rest := ih hrest
    rw [dropControls, dropControlsFrom]
    by_cases hescape : c = '\x1b'
    · rw [if_pos hescape]
      cases hlength : controlLength? rest with
      | some length => simp [hescape, hlength] at hcontrol
      | none => exact congrArg (c :: ·) hkept
    · rw [if_neg hescape, hkept]

theorem pieces_ne_nil (separator : Char) (cs : List Char) : pieces separator cs ≠ [] := by
  cases cs with
  | nil => simp [pieces]
  | cons c rest =>
    rw [pieces]
    split
    · simp
    · split <;> simp

theorem pieces_cons {separator c : Char} (h : c ≠ separator) (rest : List Char) :
    ∃ piece more, pieces separator rest = piece :: more ∧
      pieces separator (c :: rest) = (c :: piece) :: more := by
  obtain ⟨piece, more, hpieces⟩ := List.exists_cons_of_ne_nil (pieces_ne_nil separator rest)
  exact ⟨piece, more, hpieces, by rw [pieces, if_neg h, hpieces]⟩

theorem pieces_append {separator : Char} {before : List Char} (h : separator ∉ before)
    {cs piece : List Char} {more : List (List Char)} (hpieces : pieces separator cs = piece :: more) :
    pieces separator (before ++ cs) = (before ++ piece) :: more := by
  induction before with
  | nil => exact hpieces
  | cons c before ih =>
    rw [List.mem_cons, not_or] at h
    rw [List.cons_append, pieces, if_neg (Ne.symm h.1), ih h.2, List.cons_append]

theorem pieces_append_separator (separator : Char) (cs rest : List Char) :
    pieces separator (cs ++ separator :: rest) = pieces separator cs ++ pieces separator rest := by
  induction cs with
  | nil => simp [pieces]
  | cons c cs ih =>
    by_cases h : c = separator
    · rw [List.cons_append, pieces, if_pos h, pieces, if_pos h, ih, List.cons_append]
    · obtain ⟨piece, more, hpieces, hcons⟩ := pieces_cons h cs
      rw [hpieces, List.cons_append] at ih
      rw [List.cons_append, pieces, if_neg h, ih, hcons, List.cons_append]

theorem pieces_eq_singleton_iff {separator : Char} {cs piece : List Char} :
    pieces separator cs = [piece] ↔ separator ∉ cs ∧ piece = cs := by
  constructor
  · intro h
    have hnone : separator ∉ cs := by
      intro hmem
      obtain ⟨before, after, rfl⟩ := List.append_of_mem hmem
      rw [pieces_append_separator] at h
      have hbefore := List.length_pos_iff.mpr (pieces_ne_nil separator before)
      have hafter := List.length_pos_iff.mpr (pieces_ne_nil separator after)
      have hlength := congrArg List.length h
      rw [List.length_append, List.length_singleton] at hlength
      omega
    rw [pieces_eq_singleton hnone] at h
    exact ⟨hnone, (List.singleton_inj.mp h).symm⟩
  · rintro ⟨hnone, rfl⟩
    exact pieces_eq_singleton hnone

theorem count_pieces {separator c : Char} (h : c ≠ separator) (cs : List Char) :
    (pieces separator cs).flatten.count c = cs.count c := by
  induction cs with
  | nil => rfl
  | cons first rest ih =>
    by_cases hfirst : first = separator
    · have hne : first ≠ c := fun heq => h (heq ▸ hfirst)
      rw [pieces, if_pos hfirst, List.flatten_cons, List.nil_append, ih,
        List.count_cons_of_ne hne]
    · obtain ⟨piece, more, hpieces, hcons⟩ := pieces_cons hfirst rest
      rw [hpieces, List.flatten_cons] at ih
      rw [hcons, List.flatten_cons, List.cons_append, List.count_cons, List.count_cons, ih]

theorem count_intercalate {separator c : Char} (h : c ≠ separator) (texts : List (List Char)) :
    (List.intercalate [separator] texts).count c = texts.flatten.count c := by
  induction texts with
  | nil => rfl
  | cons text rest ih =>
    cases rest with
    | nil => simp
    | cons next more =>
      have hseparator : [separator].count c = 0 := by simp [Ne.symm h]
      rw [List.intercalate_cons_cons, List.count_append, List.count_append, ih, hseparator,
        Nat.add_zero]
      exact List.count_append.symm

end Text

/-- A path has a character no more often than the text that it is read from. -/
theorem Path.count_ofString_le {c : Char} (hslash : c ≠ '/') (hdot : c ≠ '.') (text : String) :
    (Path.ofString text).text.toList.count c ≤ text.toList.count c := by
  have hanchor : ∀ anchor : Anchor, anchor.chars.count c = 0 := by
    intro anchor
    cases anchor <;> simp [Anchor.chars, Ne.symm hslash]
  have hsteps : (List.intercalate ['/'] ((Path.ofString text).steps.map String.toList)).count c ≤
      text.toList.count c := by
    let pieces := Text.pieces '/' text.toList
    have hkept : ((Path.ofString text).steps.map String.toList).Sublist pieces := by
      have hfiltered := (List.filter_sublist (p := fun s => decide (IsStep s))
        (l := pieces.map String.ofList)).map String.toList
      rwa [List.map_map, show String.toList ∘ String.ofList = id from
        funext fun _ => String.toList_ofList, List.map_id] at hfiltered
    calc (List.intercalate ['/'] ((Path.ofString text).steps.map String.toList)).count c
        = ((Path.ofString text).steps.map String.toList).flatten.count c :=
          Text.count_intercalate hslash _
      _ ≤ pieces.flatten.count c := hkept.flatten.count_le c
      _ = text.toList.count c := Text.count_pieces hslash _
  rw [Path.text, String.toList_ofList, Path.chars]
  split
  · simp [Ne.symm hdot]
  · rw [List.count_append, hanchor, Nat.zero_add]
    exact hsteps

/-! ## One notice -/

namespace Notice

/-- The mark that a line begins with. -/
def mark : Notice → String
  | .signal (.file _) => fileMark
  | .signal (.env _) => envMark
  | .warning _ => warningMark

/-- The text behind the mark. -/
def body : Notice → String
  | .signal (.file path) => path.text
  | .signal (.env name) => name
  | .warning message => message

/-- The notice of the same kind that a text makes. -/
def withBody : Notice → String → Notice
  | .signal (.file _), text => .signal (.file (.ofString text))
  | .signal (.env _), text => .signal (.env text)
  | .warning _, text => .warning text

/-- The text of the notice has neither a line feed nor a terminal control. -/
def IsPlain (n : Notice) : Prop :=
  '\n' ∉ n.body.toList ∧ Text.holdsControl n.body.toList = false

/-- The text behind the mark as it is shown. -/
def shown (n : Notice) : List Char :=
  Text.dropControls n.body.toList

variable (n : Notice)

theorem line_eq : n.line = n.mark ++ n.body := by
  rcases n with (⟨_⟩ | ⟨_⟩) | _ <;> rfl

theorem withBody_body : n.withBody n.body = n := by
  rcases n with (⟨path⟩ | ⟨_⟩) | _
  · rw [body, withBody, Path.ofString_text]
  · rfl
  · rfl

theorem mark_plain : '\n' ∉ n.mark.toList ∧ '\x1b' ∉ n.mark.toList := by
  rcases n with (⟨_⟩ | ⟨_⟩) | _
  · show '\n' ∉ fileMark.toList ∧ '\x1b' ∉ fileMark.toList
    decide
  · show '\n' ∉ envMark.toList ∧ '\x1b' ∉ envMark.toList
    decide
  · show '\n' ∉ warningMark.toList ∧ '\x1b' ∉ warningMark.toList
    decide

theorem written_toList : n.written.toList = n.mark.toList ++ n.shown ++ ['\n'] := by
  rw [written, line_eq, String.toList_append, String.toList_append, String.toList_ofList,
    Text.dropControls_append n.mark_plain.2]
  rfl

theorem count_withBody_le (text : String) :
    (n.withBody text).body.toList.count '\x1b' ≤ text.toList.count '\x1b' := by
  rcases n with (⟨_⟩ | ⟨_⟩) | _
  · exact Path.count_ofString_le (by decide) (by decide) text
  · exact Nat.le_refl _
  · exact Nat.le_refl _

theorem after?_append (mark text : String) : after? mark (mark ++ text) = some text := by
  have hprefix : mark.toList <+: mark.toList ++ text.toList := List.prefix_append _ _
  rw [after?, String.toList_append, if_pos (List.isPrefixOf_iff_prefix.mpr hprefix),
    ← String.length_toList, List.drop_left, String.ofList_toList]

-- Of two marks neither begins with the other, so a line has one of them at most.
theorem after?_eq_none {mark other : String} (h : ¬mark.toList <+: other.toList)
    (h' : ¬other.toList <+: mark.toList) (text : String) : after? mark (other ++ text) = none := by
  rw [after?, String.toList_append, if_neg]
  intro hprefix
  have hmark := List.isPrefixOf_iff_prefix.mp hprefix
  rcases List.prefix_or_prefix_of_prefix hmark (List.prefix_append _ _) with hle | hle
  · exact h hle
  · exact h' hle

theorem ofLine?_mark_append (text : String) : ofLine? (n.mark ++ text) = some (n.withBody text) := by
  rcases n with (⟨_⟩ | ⟨_⟩) | _
  · simp only [ofLine?, mark, after?_append]
    rfl
  · have hfile : after? fileMark (envMark ++ text) = none :=
      after?_eq_none (by decide) (by decide) text
    simp only [ofLine?, mark, hfile, after?_append]
    rfl
  · have hfile : after? fileMark (warningMark ++ text) = none :=
      after?_eq_none (by decide) (by decide) text
    have henv : after? envMark (warningMark ++ text) = none :=
      after?_eq_none (by decide) (by decide) text
    simp only [ofLine?, mark, hfile, henv, after?_append]
    rfl

/-- What is shown of a notice makes that notice only if it is shown unchanged. -/
theorem withBody_shown_iff :
    n.withBody (String.ofList n.shown) = n ↔ Text.holdsControl n.body.toList = false := by
  constructor
  · intro h
    by_contra hcontrol
    have hlost : n.shown.count '\x1b' < n.body.toList.count '\x1b' :=
      Text.count_dropControls_lt (Bool.not_eq_false _ ▸ hcontrol)
    have hkept := n.count_withBody_le (String.ofList n.shown)
    rw [h, String.toList_ofList] at hkept
    omega
  · intro h
    rw [shown, Text.dropControls_of_holdsControl h, String.ofList_toList, withBody_body]

end Notice

/-! ## Streams -/

/-- The text that some notices are written as, one after the other. -/
def stream (notices : List Notice) : String :=
  String.join (notices.map Notice.written)

/-- The lines of a text; what stands behind the last line feed is no line. -/
def streamLines (text : String) : List String :=
  (Text.pieces '\n' text.toList).dropLast.map String.ofList

/-- What the lines of a text say; `none` stands for a line without a mark. -/
def readBack (text : String) : List (Option Notice) :=
  (streamLines text).map Notice.ofLine?

/-- The lines that a notice makes: one, and one more for each line feed in its text. -/
def Notice.lines (n : Notice) : List String :=
  (Text.pieces '\n' (n.mark.toList ++ n.shown)).map String.ofList

/-- The lines of a stream are those of its notices in their order. -/
theorem streamLines_stream (notices : List Notice) :
    streamLines (stream notices) = notices.flatMap Notice.lines := by
  have hpieces : Text.pieces '\n' (stream notices).toList =
      notices.flatMap (fun n => Text.pieces '\n' (n.mark.toList ++ n.shown)) ++ [[]] := by
    induction notices with
    | nil => rfl
    | cons n rest ih =>
      have hstream : (stream (n :: rest)).toList =
          n.mark.toList ++ n.shown ++ '\n' :: (stream rest).toList := by
        rw [stream, List.map_cons, String.join_cons, String.toList_append, n.written_toList,
          List.append_assoc]
        rfl
      rw [hstream, Text.pieces_append_separator, ih, List.flatMap_cons, List.append_assoc]
  rw [streamLines, hpieces, List.dropLast_concat, List.map_flatMap]
  rfl

namespace Notice

variable {n : Notice}

/-- The first line of a notice has the notice's mark, whatever its text is. -/
theorem lines_eq_cons (n : Notice) : ∃ text more, n.lines = (n.mark ++ text) :: more := by
  obtain ⟨piece, more, hpieces⟩ := List.exists_cons_of_ne_nil (Text.pieces_ne_nil '\n' n.shown)
  refine ⟨String.ofList piece, more.map String.ofList, ?_⟩
  rw [lines, Text.pieces_append n.mark_plain.1 hpieces, List.map_cons, String.ofList_append,
    String.ofList_toList]

theorem lines_eq_singleton_iff {line : String} :
    n.lines = [line] ↔ '\n' ∉ n.shown ∧ line = n.mark ++ String.ofList n.shown := by
  have hline : String.ofList (n.mark.toList ++ n.shown) = n.mark ++ String.ofList n.shown := by
    rw [String.ofList_append, String.ofList_toList]
  rw [lines, List.map_eq_singleton_iff]
  constructor
  · rintro ⟨piece, hpieces, rfl⟩
    obtain ⟨hnone, rfl⟩ := Text.pieces_eq_singleton_iff.mp hpieces
    exact ⟨fun hmem => hnone (List.mem_append_right _ hmem), hline⟩
  · rintro ⟨hnone, rfl⟩
    refine ⟨_, Text.pieces_eq_singleton fun hmem => ?_, hline⟩
    rcases List.mem_append.mp hmem with hmark | hshown
    · exact n.mark_plain.1 hmark
    · exact hnone hshown

/-- The lines of a notice read back as that notice alone exactly if it is plain. -/
theorem readLines_eq_iff : n.lines.map ofLine? = [some n] ↔ n.IsPlain := by
  constructor
  · intro h
    obtain ⟨line, hlines, hread⟩ := List.map_eq_singleton_iff.mp h
    obtain ⟨hfeed, rfl⟩ := lines_eq_singleton_iff.mp hlines
    rw [ofLine?_mark_append] at hread
    have hcontrol := n.withBody_shown_iff.mp (Option.some.inj hread)
    rw [shown, Text.dropControls_of_holdsControl hcontrol] at hfeed
    exact ⟨hfeed, hcontrol⟩
  · rintro ⟨hfeed, hcontrol⟩
    have hshown : n.shown = n.body.toList := Text.dropControls_of_holdsControl hcontrol
    have hlines := lines_eq_singleton_iff.mpr ⟨hshown ▸ hfeed, rfl⟩
    rw [hlines, List.map_singleton, ofLine?_mark_append, n.withBody_shown_iff.mpr hcontrol]

end Notice

section Blocks

variable {α β : Type} {block : α → List β} {xs : List α}

theorem length_le_flatMap (h : ∀ x ∈ xs, block x ≠ []) : xs.length ≤ (xs.flatMap block).length := by
  induction xs with
  | nil => exact Nat.zero_le _
  | cons x xs ih =>
    have hfirst := List.length_pos_iff.mpr (h x List.mem_cons_self)
    have hmore := ih fun y hy => h y (List.mem_cons_of_mem _ hy)
    rw [List.flatMap_cons, List.length_append, List.length_cons]
    omega

-- Blocks that are not empty and together no longer than their number are single elements.
theorem flatMap_eq_map_iff {g : α → β} (h : ∀ x ∈ xs, block x ≠ []) :
    xs.flatMap block = xs.map g ↔ ∀ x ∈ xs, block x = [g x] := by
  induction xs with
  | nil => simp
  | cons x xs ih =>
    have hrest : ∀ y ∈ xs, block y ≠ [] := fun y hy => h y (List.mem_cons_of_mem _ hy)
    obtain ⟨b, more, hblock⟩ := List.exists_cons_of_ne_nil (h x List.mem_cons_self)
    rw [List.forall_mem_cons, List.flatMap_cons, List.map_cons, hblock, List.cons_append,
      List.cons.injEq, List.cons.injEq, ← ih hrest]
    constructor
    · rintro ⟨rfl, heq⟩
      have hnone : more = [] := by
        have htotal := congrArg List.length heq
        have hle := length_le_flatMap hrest
        rw [List.length_append, List.length_map] at htotal
        apply List.eq_nil_of_length_eq_zero
        omega
      subst hnone
      exact ⟨⟨rfl, rfl⟩, heq⟩
    · rintro ⟨⟨rfl, rfl⟩, heq⟩
      exact ⟨rfl, heq⟩

end Blocks

theorem readBack_stream (notices : List Notice) :
    readBack (stream notices) = notices.flatMap fun n => n.lines.map Notice.ofLine? := by
  rw [readBack, streamLines_stream, List.map_flatMap]

theorem readBack_stream_eq_iff {notices : List Notice} :
    readBack (stream notices) = notices.map some ↔ ∀ n ∈ notices, n.IsPlain := by
  rw [readBack_stream, flatMap_eq_map_iff]
  · simp only [Notice.readLines_eq_iff]
  · intro n _
    obtain ⟨text, more, hlines⟩ := n.lines_eq_cons
    simp [hlines]

/-! ## Calls -/

/-- What can be asked of the sink of signals. -/
inductive SinkCall where
  | watchFile (path : Path)
  | watchFiles (paths : List Path)
  | watchEnv (name : String)
  | warn (message : String)

namespace SinkCall

def run : SinkCall → Run Unit
  | .watchFile path => Run.watchFile path
  | .watchFiles paths => paths.forM Run.watchFile
  | .watchEnv name => Run.watchEnv name
  | .warn message => Run.warn message

/-- The notices that a call asks for. -/
def notices : SinkCall → List Notice
  | .watchFile path => [.signal (.file path)]
  | .watchFiles paths => paths.map fun path => .signal (.file path)
  | .watchEnv name => [.signal (.env name)]
  | .warn message => [.warning message]

end SinkCall

/-- The session after some notices. -/
def Session.saying (s : Session) (notices : List Notice) : Session :=
  { s with journal := s.journal ++ notices.map .notice }

theorem Session.saying_append (s : Session) (xs ys : List Notice) :
    s.saying (xs ++ ys) = (s.saying xs).saying ys := by
  simp [Session.saying]

namespace SinkCall

theorem exec_run (call : SinkCall) (s : Session) :
    exec call.run s = (.ok ⟨⟩, s.saying call.notices) := by
  cases call with
  | watchFile path => exact Run.exec_watchFile path s
  | watchEnv name => exact Run.exec_watchEnv name s
  | warn message => exact Run.exec_warn message s
  | watchFiles paths =>
    induction paths generalizing s with
    | nil => simp [run, notices, Session.saying]
    | cons path paths ih =>
      have hrest := ih (s.noting (.notice (.signal (.file path))))
      rw [run] at hrest ⊢
      rw [Run.exec_forM_cons, Run.exec_bind_of_ok (Run.exec_watchFile path s), hrest]
      simp [Session.saying, Session.noting, notices]

theorem exec_runs (calls : List SinkCall) (s : Session) :
    exec (calls.forM run) s = (.ok ⟨⟩, s.saying (calls.flatMap notices)) := by
  induction calls generalizing s with
  | nil => simp [Session.saying]
  | cons call calls ih =>
    rw [Run.exec_forM_cons, Run.exec_bind_of_ok (call.exec_run s), ih, List.flatMap_cons,
      Session.saying_append]

/-- The text that calls write has the lines of their notices, each with what its text adds; it reads
back as these notices exactly if all of them are plain. -/
theorem readBack_runs (calls : List SinkCall) (s : Session) :
    ∃ s', exec (calls.forM run) s = (.ok ⟨⟩, s') ∧
      let said := (s'.since s).filterMap Event.notice?
      said = calls.flatMap notices ∧
        s'.signals = s.signals ++ said.filterMap Notice.signal? ∧
        streamLines (stream said) = said.flatMap Notice.lines ∧
        (readBack (stream said) = said.map some ↔ ∀ n ∈ said, n.IsPlain) := by
  refine ⟨_, exec_runs calls s, ?_⟩
  have hsaid : ((s.saying (calls.flatMap notices)).since s).filterMap Event.notice? =
      calls.flatMap notices := by
    rw [Session.since_of_journal rfl, List.filterMap_map]
    exact List.filterMap_some
  have hsignals : (s.saying (calls.flatMap notices)).signals =
      s.signals ++ (calls.flatMap notices).filterMap Notice.signal? := by
    rw [Session.signals, Session.saying, List.filterMap_append, List.filterMap_map]
    rfl
  dsimp only
  rw [hsaid]
  exact ⟨rfl, hsignals, streamLines_stream _, readBack_stream_eq_iff⟩

/-- A line feed in a name makes a warning of its own, and a control in a path makes another path. -/
theorem readBack_differs :
    let calls := [.watchEnv "a\ncargo:warning=b", .watchFile (.ofString "a\x1b[mb")]
    let said := (exec (calls.forM run) (.fresh ⟨[], by decide⟩ [])).2.journal.filterMap Event.notice?
    readBack (stream said) = [some (.signal (.env "a")), some (.warning "b"),
        some (.signal (.file (.ofString "ab")))] ∧
      readBack (stream said) ≠ said.map some := by
  decide +kernel

end SinkCall

end BuildHook
