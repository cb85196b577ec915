import BuildHook.Shell.Script
import Mathlib.Data.List.Basic

/-!
# Words in scripts

A word that is quoted is read back as that one word, and the commands of a script are those of its
lines as long as no quotes are open at the end of a line. So a script is read back as the commands
that it is written from.
-/

namespace BuildHook.Shell

variable {c : Char} {cs rest : List Char} {word : Option (List Char)}

/-! ## Quoted words -/

-- A word with more characters behind it. It does not begin without any.
def extendBy (word : Option (List Char)) (cs : List Char) : Option (List Char) :=
  cs.foldl extend word

theorem extendBy_some (text cs : List Char) : extendBy (some text) cs = some (text ++ cs) := by
  induction cs generalizing text with
  | nil => rw [List.append_nil]; rfl
  | cons c cs ih =>
    change extendBy (some (text ++ [c])) cs = _
    rw [ih, List.append_assoc, List.singleton_append]

theorem extendBy_none (hne : cs ≠ []) : extendBy none cs = some cs := by
  cases cs with
  | nil => exact absurd rfl hne
  | cons c cs => exact extendBy_some [c] cs

-- A plain character ends no word and opens no quotes.
theorem isPlain_iff_apart (h : isPlain c = true) :
    c ≠ '\'' ∧ c ≠ '"' ∧ c ≠ ' ' ∧ c ≠ '\t' ∧ c ≠ '\n' ∧ c ≠ '>' ∧ isSpecial c = false := by
  have hnot : ∀ d, isPlain d = false → c ≠ d := fun d hd heq => by
    rw [heq, hd] at h
    cases h
  refine ⟨hnot _ (by decide), hnot _ (by decide), hnot _ (by decide), hnot _ (by decide),
    hnot _ (by decide), hnot _ (by decide), ?_⟩
  by_contra hspecial
  rw [Bool.not_eq_false, isSpecial, isExpanding, Bool.or_eq_true, List.contains_iff_mem,
    List.contains_iff_mem] at hspecial
  have hall : ("$`\\".toList ++ "|&;<()*?[]#~!\x7b\x7d".toList).all (!isPlain ·) = true := by
    decide +kernel
  have hplain := List.all_eq_true.mp hall c (List.mem_append.mpr hspecial)
  rw [h] at hplain
  cases hplain

theorem tokensFrom_plain (h : cs.all isPlain = true) :
    tokensFrom .bare word (cs ++ rest) = tokensFrom .bare (extendBy word cs) rest := by
  induction cs generalizing word with
  | nil => rfl
  | cons c cs ih =>
    rw [List.all_cons, Bool.and_eq_true] at h
    obtain ⟨hsingle, hdouble, hspace, htab, hline, hmore, hspecial⟩ := isPlain_iff_apart h.1
    rw [List.cons_append, tokensFrom]
    simp only [hsingle, hdouble, hspace, htab, hline, hmore, hspecial, decide_false, Bool.or_self,
      Bool.false_eq_true, ↓reduceIte]
    exact ih h.2

theorem tokensFrom_single (text cs rest : List Char) :
    tokensFrom .single (some text) (cs.flatMap quoteChar ++ '\'' :: rest) =
      tokensFrom .bare (some (text ++ cs)) rest := by
  induction cs generalizing text with
  | nil => rw [List.append_nil]; rfl
  | cons c cs ih =>
    have hrest : text ++ c :: cs = (text ++ [c]) ++ cs := by simp
    rw [List.flatMap_cons, hrest, ← ih]
    by_cases hquote : c = '\''
    · -- the quotes are closed, the character stands between double ones, and they open again
      subst hquote
      rfl
    · rw [quoteChar, if_neg hquote, List.append_assoc, List.singleton_append, tokensFrom,
        if_neg hquote]
      rfl

/-- A quoted word is read as one word, to which what follows may add. -/
theorem tokensFrom_quoteChars (cs rest : List Char) :
    tokensFrom .bare none (quoteChars cs ++ rest) = tokensFrom .bare (some cs) rest := by
  unfold quoteChars
  split
  · next hempty =>
    obtain rfl := List.isEmpty_iff.mp hempty
    rfl
  · next hne =>
    split
    · next hplain =>
      rw [tokensFrom_plain hplain, extendBy_none (by simpa using hne)]
    · rw [List.append_assoc, List.cons_append, List.singleton_append]
      exact tokensFrom_single [] cs rest

/-! ## Lines -/

theorem endWord_append (word : Option (List Char)) (tokens more : List Token) :
    endWord word tokens ++ more = endWord word (tokens ++ more) := by
  cases word <;> rfl

/-- What a line is read as, it is read as before further lines too. -/
theorem tokensFrom_line {quotes : Quotes} {tokens : List Token}
    (h : tokensFrom quotes word cs = some tokens) (rest : List Char) :
    tokensFrom quotes word (cs ++ '\n' :: rest) =
      (tokensFrom .bare none rest).map fun more => tokens ++ .stop :: more := by
  induction cs generalizing quotes word tokens with
  | nil =>
    cases quotes with
    | bare =>
      obtain rfl := Option.some.inj h
      simp only [endWord_append]
      rfl
    | single => cases h
    | double => cases h
  | cons c cs ih =>
    -- where a token ends, what is read from there on follows it
    have hafter : ∀ {before : List Token → List Token},
        (∀ tokens more, before tokens ++ more = before (tokens ++ more)) →
        (tokensFrom .bare none cs).map before = some tokens →
        (tokensFrom .bare none (cs ++ '\n' :: rest)).map before =
          (tokensFrom .bare none rest).map fun more => tokens ++ .stop :: more := by
      intro before hbefore hmap
      obtain ⟨inner, hinner, rfl⟩ := Option.map_eq_some_iff.mp hmap
      rw [ih hinner, Option.map_map]
      congr 1
      funext more
      exact (hbefore inner _).symm
    rw [List.cons_append]
    cases quotes with
    | single =>
      rw [tokensFrom] at h ⊢
      split_ifs at h ⊢ <;> exact ih h
    | double =>
      rw [tokensFrom] at h ⊢
      split_ifs at h ⊢
      · exact ih h
      · exact ih h
    | bare =>
      rw [tokensFrom] at h ⊢
      split_ifs at h ⊢
      · exact ih h
      · exact ih h
      · exact hafter (endWord_append word) h
      · exact hafter (fun tokens more => endWord_append word (.stop :: tokens) more) h
      · exact hafter (fun _ _ => rfl) h
      · exact ih h

theorem endCommand_append (words : List String) (output : Option String)
    (commands more : List Command) :
    endCommand words output commands ++ more = endCommand words output (commands ++ more) := by
  unfold endCommand
  split <;> rfl

theorem commandsFrom_line {words : List String} {output : Option String} {tokens : List Token}
    {commands : List Command} (h : commandsFrom words output tokens = some commands)
    (more : List Token) :
    commandsFrom words output (tokens ++ .stop :: more) =
      (commandsFrom [] none more).map (commands ++ ·) := by
  fun_induction commandsFrom words output tokens generalizing commands with
  | case1 words output =>
    obtain rfl := Option.some.inj h
    simp only [endCommand_append]
    rfl
  | case2 words output tokens ih =>
    obtain ⟨inner, hinner, rfl⟩ := Option.map_eq_some_iff.mp h
    rw [List.cons_append, commandsFrom, ih hinner, Option.map_map]
    congr 1
    funext commands
    exact (endCommand_append words output inner commands).symm
  | case3 words output text tokens ih =>
    rw [List.cons_append, commandsFrom]
    exact ih h
  | case4 words output text tokens hnone ih =>
    rw [List.cons_append, List.cons_append, commandsFrom, if_pos hnone]
    exact ih h
  | case5 => cases h
  | case6 => cases h

/-- The commands of a line come before those of the lines behind it. -/
theorem commands?_line {line script : String} {commands more : List Command}
    (h : commands? line = some commands) (hmore : commands? script = some more) :
    commands? (line ++ "\n" ++ script) = some (commands ++ more) := by
  unfold commands? at h hmore ⊢
  obtain ⟨tokens, htokens, hcommands⟩ := Option.bind_eq_some_iff.mp h
  obtain ⟨others, hothers, hrest⟩ := Option.bind_eq_some_iff.mp hmore
  have hchars : (line ++ "\n" ++ script).toList = line.toList ++ '\n' :: script.toList := by
    simp
  rw [hchars, tokensFrom_line htokens, hothers, Option.map_some, Option.bind_some,
    commandsFrom_line hcommands, hrest, Option.map_some]

/-! ## Written commands -/

/-- A command on a line of its own: its words quoted, and the file that its output goes to. -/
def Command.line (command : Command) : String :=
  String.intercalate " " (command.words.map quote) ++
    match command.output with
    | some file => " >" ++ quote file
    | none => ""

/-- The tokens of a command behind its first word. -/
def Command.tokens (command : Command) : List Token :=
  command.words.tail.map (fun word => .word word.toList) ++
    match command.output with
    | some file => [.redirection, .word file.toList]
    | none => []

-- Each word behind the first one comes after a blank.
theorem tokensFrom_words {tail : List Token} (words : List String)
    (h : ∀ text, tokensFrom .bare (some text) rest = some (.word text :: tail)) (text : List Char) :
    tokensFrom .bare (some text)
        (words.flatMap (fun word => ' ' :: quoteChars word.toList) ++ rest) =
      some (.word text :: words.map (fun word => .word word.toList) ++ tail) := by
  induction words generalizing text with
  | nil => exact h text
  | cons word words ih =>
    have hblank : ∀ more, tokensFrom .bare (some text) (' ' :: more) =
        (tokensFrom .bare none more).map (endWord (some text)) := fun _ => rfl
    rw [List.flatMap_cons, List.cons_append, List.cons_append, hblank, List.append_assoc,
      tokensFrom_quoteChars, ih]
    rfl

theorem toList_quote (s : String) : (quote s).toList = quoteChars s.toList :=
  String.toList_ofList

theorem toList_intercalate_quote (word : String) (words : List String) :
    (String.intercalate " " ((word :: words).map quote)).toList =
      quoteChars word.toList ++ words.flatMap fun word => ' ' :: quoteChars word.toList := by
  induction words generalizing word with
  | nil => simp [toList_quote]
  | cons next more ih =>
    rw [List.map_cons, List.map_cons, String.intercalate_cons_cons, String.toList_append,
      String.toList_append, toList_quote, List.flatMap_cons, ← List.map_cons, ih]
    simp

theorem tokensFrom_commandLine {word : String} {words : List String} {output : Option String} :
    tokensFrom .bare none (Command.line ⟨word :: words, output⟩).toList =
      some (.word word.toList :: Command.tokens ⟨word :: words, output⟩) := by
  have htail : ∀ text, tokensFrom .bare (some text)
      (match output with
        | some file => " >" ++ quote file
        | none => "").toList =
      some (.word text :: match output with
        | some file => [.redirection, .word file.toList]
        | none => []) := by
    intro text
    cases output with
    | none => rfl
    | some file =>
      have hredirected : tokensFrom .bare (some text) (" >" ++ quote file).toList =
          ((tokensFrom .bare none (quoteChars file.toList ++ [])).map (.redirection :: ·)).map
            (endWord (some text)) := by
        rw [String.toList_append, toList_quote, List.append_nil]
        rfl
      rw [hredirected, tokensFrom_quoteChars]
      rfl
  rw [Command.line, String.toList_append, toList_intercalate_quote, List.append_assoc,
    tokensFrom_quoteChars]
  exact tokensFrom_words words htail word.toList

theorem commandsFrom_words (before words : List String) (more : List Token) :
    commandsFrom before none (words.map (fun word => .word word.toList) ++ more) =
      commandsFrom (before ++ words) none more := by
  induction words generalizing before with
  | nil => rw [List.append_nil]; rfl
  | cons word words ih =>
    rw [List.map_cons, List.cons_append, commandsFrom, ih, String.ofList_toList, List.append_assoc,
      List.singleton_append]

/-- A command that is written on a line is read back as that one command. -/
theorem commands?_commandLine {command : Command} (h : command.words ≠ []) :
    commands? command.line = some [command] := by
  obtain ⟨words, output⟩ := command
  obtain ⟨word, words, rfl⟩ := List.exists_cons_of_ne_nil h
  rw [commands?, tokensFrom_commandLine, Option.bind_some]
  have hwords := commandsFrom_words [] (word :: words)
  cases output with
  | none => exact (hwords []).trans rfl
  | some file =>
    refine (hwords [.redirection, .word file.toList]).trans ?_
    rw [commandsFrom, if_pos Option.isNone_none, String.ofList_toList]
    rfl

/-- A script whose lines are written commands is read back as these commands. -/
theorem commands?_script {commands : List Command} (h : ∀ command ∈ commands, command.words ≠ []) :
    commands? (String.intercalate "\n" (commands.map Command.line)) = some commands := by
  induction commands with
  | nil => rfl
  | cons command rest ih =>
    obtain ⟨hcommand, hrest⟩ := List.forall_mem_cons.mp h
    cases rest with
    | nil =>
      rw [List.map_singleton, String.intercalate_singleton]
      exact commands?_commandLine hcommand
    | cons next more =>
      rw [List.map_cons, List.map_cons, String.intercalate_cons_cons]
      exact commands?_line (commands?_commandLine hcommand) (ih hrest)

end BuildHook.Shell
