import BuildHook.Text.Hex
import BuildHook.Text.Printable

/-!
# Quoted text

Messages show a text between quotes, with escapes for what cannot be shown. The quotes are single
ones unless the text holds a single quote and no double one.
-/

namespace BuildHook.Text

def quoteMark (cs : List Char) : Char :=
  if '\'' ∈ cs && '"' ∉ cs then '"' else '\''

/-- One character between quotes: an escape for the quote, the backslash and all that has no
visible form. -/
def quoteChar (mark c : Char) : List Char :=
  let n := c.toNat
  if c = mark || c = '\\' then ['\\', c]
  else if c = '\t' then ['\\', 't']
  else if c = '\n' then ['\\', 'n']
  else if c = '\r' then ['\\', 'r']
  else if isPrintable c then [c]
  else if n < 0x100 then '\\' :: 'x' :: fixedHex 2 n
  else if n < 0x10000 then '\\' :: 'u' :: fixedHex 4 n
  else '\\' :: 'U' :: fixedHex 8 n

def quoted (s : String) : String :=
  let cs := s.toList
  let mark := quoteMark cs
  String.ofList (mark :: cs.flatMap (quoteChar mark) ++ [mark])

end BuildHook.Text
