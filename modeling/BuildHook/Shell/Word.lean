/-!
# Shell words

A word is written so that a POSIX shell reads it back as that one word: plain words stand as they
are, and all others between single quotes.
-/

namespace BuildHook.Shell

/-- Characters that a shell takes literally wherever they stand in a word. -/
def isPlain (c : Char) : Bool :=
  c.isAlphanum || "_@%+=:,./-".toList.contains c

/-- A single quote cannot stand between single quotes: it is written as a closing quote, a single
quote between double ones, and an opening quote. -/
def quoteChar (c : Char) : List Char :=
  if c = '\'' then ['\'', '"', '\'', '"', '\''] else [c]

/-- The written form of one word. The empty word needs quotes to be seen. -/
def quoteChars (cs : List Char) : List Char :=
  if cs.isEmpty then ['\'', '\'']
  else if cs.all isPlain then cs
  else '\'' :: cs.flatMap quoteChar ++ ['\'']

/-- `quoteChars` on strings. -/
def quote (s : String) : String :=
  String.ofList (quoteChars s.toList)

end BuildHook.Shell
