import BuildHook.Shell.Word

/-!
# Shell scripts

The simple commands of a script, read by the quoting and word splitting of a POSIX shell. The reader
refuses a script that asks for anything else: expansions, patterns, comments, compound commands, and
redirections other than of the output to a file.
-/

namespace BuildHook.Shell

/-- What a script consists of, once quotes and blanks are taken away. -/
inductive Token where
  | word (text : List Char)
  /-- The sign for redirected output. -/
  | redirection
  /-- The end of a command. -/
  | stop
  deriving DecidableEq, Repr

inductive Quotes where
  | bare
  | single
  | double
  deriving DecidableEq, Repr

/-- Characters that ask for an expansion, also between double quotes. -/
def isExpanding (c : Char) : Bool :=
  "$`\\".toList.contains c

/-- Characters outside quotes that ask for more than words and redirected output. -/
def isSpecial (c : Char) : Bool :=
  isExpanding c || "|&;<()*?[]#~!\x7b\x7d".toList.contains c

/-- Tokens with the word in front that was begun before them, if one was. -/
def endWord : (word : Option (List Char)) → List Token → List Token
  | none, tokens => tokens
  | some text, tokens => .word text :: tokens

/-- A word with one more character; it begins here if it was not begun before. -/
def extend (word : Option (List Char)) (c : Char) : Option (List Char) :=
  some (word.getD [] ++ [c])

/-- Reads the characters of a script. `word` is what was read so far of a word that has not ended:
quotes begin a word even if nothing stands between them. -/
def tokensFrom : Quotes → (word : Option (List Char)) → List Char → Option (List Token)
  | .bare, word, [] => some (endWord word [])
  | .single, _, [] | .double, _, [] => none
  | .single, word, c :: rest =>
    if c = '\'' then tokensFrom .bare word rest else tokensFrom .single (extend word c) rest
  | .double, word, c :: rest =>
    if c = '"' then tokensFrom .bare word rest
    else if isExpanding c then none
    else tokensFrom .double (extend word c) rest
  | .bare, word, c :: rest =>
    if c = '\'' then tokensFrom .single (some (word.getD [])) rest
    else if c = '"' then tokensFrom .double (some (word.getD [])) rest
    else if c = ' ' || c = '\t' then (tokensFrom .bare none rest).map (endWord word)
    else if c = '\n' then
      (tokensFrom .bare none rest).map fun tokens => endWord word (.stop :: tokens)
    else if c = '>' then
      -- right behind a word the sign could name a stream
      if word.isNone then (tokensFrom .bare none rest).map (.redirection :: ·) else none
    else if isSpecial c then none
    else tokensFrom .bare (extend word c) rest

/-- A simple command: its words, and the file that its output goes to. -/
structure Command where
  words : List String
  output : Option String
  deriving DecidableEq, Repr

/-- The command that ends here, unless nothing stands between two ends. -/
def endCommand (words : List String) (output : Option String) (more : List Command) :
    List Command :=
  if words.isEmpty && output.isNone then more else ⟨words, output⟩ :: more

/-- The commands of tokens, of which `words` and `output` belong to the first one. A redirection
needs a word, and a command one redirection at most. -/
def commandsFrom (words : List String) (output : Option String) :
    List Token → Option (List Command)
  | [] => some (endCommand words output [])
  | .stop :: rest => (commandsFrom [] none rest).map (endCommand words output)
  | .word text :: rest => commandsFrom (words ++ [String.ofList text]) output rest
  | .redirection :: .word text :: rest =>
    if output.isNone then commandsFrom words (some (String.ofList text)) rest else none
  | .redirection :: _ => none

def commands? (script : String) : Option (List Command) :=
  (tokensFrom .bare none script.toList).bind (commandsFrom [] none)

end BuildHook.Shell
