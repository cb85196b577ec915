/-!
# Terminal controls

A control sequence for a terminal is an escape character, a bracket, parameters, intermediate
characters and a final one. Output that does not go to a terminal holds none.
-/

namespace BuildHook.Text

def isParameter (c : Char) : Bool :=
  '0' ≤ c && c ≤ '?'

/-- Characters between the parameters and the end of a control sequence. -/
def isIntermediate (c : Char) : Bool :=
  ' ' ≤ c && c ≤ '/'

def isFinal (c : Char) : Bool :=
  '@' ≤ c && c ≤ '~'

/-- How many characters a control sequence has behind its escape character, if one stands there. -/
def controlLength? : List Char → Option Nat
  | '[' :: rest =>
    let parameters := rest.takeWhile isParameter
    let rest := rest.drop parameters.length
    let intermediates := rest.takeWhile isIntermediate
    match rest.drop intermediates.length with
    | c :: _ =>
      if isFinal c then some (parameters.length + intermediates.length + 2) else none
    | [] => none
  | _ => none

/-- A text without its first `skipped` characters and without control sequences behind them. -/
def dropControlsFrom : (skipped : Nat) → List Char → List Char
  | _, [] => []
  | skipped + 1, _ :: rest => dropControlsFrom skipped rest
  | 0, c :: rest =>
    if c = '\x1b' then
      match controlLength? rest with
      | some length => dropControlsFrom length rest
      | none => c :: dropControlsFrom 0 rest
    else c :: dropControlsFrom 0 rest

def dropControls (cs : List Char) : List Char :=
  dropControlsFrom 0 cs

end BuildHook.Text
