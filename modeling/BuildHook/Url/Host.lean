import BuildHook.Text.Blank
import BuildHook.Text.Hex

/-!
# Numeric hosts

The forms of a host that is written as a number: four decimal octets, eight groups of hexadecimal
digits, and the form that is kept for later versions. A run of groups that are all zero may be left
out once, and the last two groups may be written as four octets.
-/

namespace BuildHook.Host

/-- Whether a text writes a number up to 255 in decimal digits without a needless zero. -/
def isOctet (cs : List Char) : Bool :=
  !cs.isEmpty && cs.length ≤ 3 && cs.all Char.isDigit && (cs = ['0'] || cs.head? ≠ some '0') &&
    cs.foldl (fun n c => 10 * n + (c.toNat - 48)) 0 ≤ 255

/-- Whether a text is an address of version 4: four octets with points between them. -/
def isVersion4 (cs : List Char) : Bool :=
  let octets := Text.pieces '.' cs
  octets.length = 4 && octets.all isOctet

/-- Whether a text is a group of an address of version 6. -/
def isGroup (cs : List Char) : Bool :=
  !cs.isEmpty && cs.length ≤ 4 && cs.all fun c => (Text.hexValue? c).isSome

/-- How many groups a text with colons between them has. If the text is the end of an address, four
octets may stand for the last two groups. -/
def groupCount? (isEnd : Bool) (cs : List Char) : Option Nat :=
  if cs.isEmpty then some 0
  else
    let groups := Text.pieces ':' cs
    if groups.all isGroup then some groups.length
    else if isEnd && groups.dropLast.all isGroup && groups.getLast?.any isVersion4 then
      some (groups.length + 1)
    else none

/-- The text before the first pair of colons, and the text after it if there is one. -/
def cutPair : List Char → List Char × Option (List Char)
  | [] => ([], none)
  | c :: rest =>
    if c = ':' && rest.head? = some ':' then ([], some rest.tail)
    else
      let (before, after) := cutPair rest
      (c :: before, after)

/-- Whether a text is eight groups, or fewer with a pair of colons for those that are left out. -/
def isGroups (cs : List Char) : Bool :=
  match cutPair cs with
  | (before, some after) =>
    match groupCount? false before, groupCount? true after with
    | some high, some low => high + low ≤ 7
    | _, _ => false
  | (_, none) => groupCount? true cs = some 8

/-- Whether a text is an address of version 6, with the name of its zone if it has one. -/
def isVersion6 (cs : List Char) : Bool :=
  match Text.cut '%' cs with
  | (groups, some zone) => isGroups groups && !zone.isEmpty && !zone.contains '%'
  | (groups, none) => isGroups groups

/-- Whether a text has the form that is kept for later versions: a letter, the version in
hexadecimal digits, a point, and the address. -/
def isFuture : List Char → Bool
  | 'v' :: rest =>
    let version := rest.takeWhile fun c => (Text.hexValue? c).isSome
    !version.isEmpty &&
      match rest.drop version.length with
      | '.' :: address => !address.isEmpty
      | _ => false
  | _ => false

end BuildHook.Host
