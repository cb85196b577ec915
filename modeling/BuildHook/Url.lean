import BuildHook.Path
import BuildHook.Url.Host

/-!
# Web addresses

The parts of an address that matter for naming a file: its scheme, its network location and its
path. White space and controls in front of an address do not count, nor do tabs and line ends inside
it. Brackets in a network location surround a numeric host, and it may hold no character that stands
for one of the delimiters `/?#@:` in disguise.
-/

namespace BuildHook

inductive UrlFault where
  /-- The brackets of the network location do not surround its host. -/
  | unbalanced
  /-- The host between the brackets belongs to no version yet and is malformed. -/
  | future
  /-- The host between the brackets is an address of version 4, which has none. -/
  | version4
  /-- The host between the brackets is no address. -/
  | noAddress (host : String)
  /-- The network location holds a character whose compatibility form is a delimiter. -/
  | disguised (location : String)
  deriving DecidableEq, Repr

/-- The parts of an address; the scheme is in small letters. -/
structure Url where
  scheme : String
  location : String
  path : String
  deriving DecidableEq, Repr

namespace Url

/-- The characters beyond ASCII whose compatibility decomposition (form KC) holds a delimiter. -/
def disguises : List Nat :=
  [0x2047, 0x2048, 0x2049, 0x2100, 0x2101, 0x2105, 0x2106, 0x2a74, 0xfe13, 0xfe16, 0xfe55, 0xfe56,
    0xfe5f, 0xfe6b, 0xff03, 0xff0f, 0xff1a, 0xff1f, 0xff20]

/-- The schemes whose last path segment may carry parameters after a semicolon. -/
def parameterSchemes : List String :=
  ["", "ftp", "hdl", "prospero", "http", "imap", "https", "shttp", "rtsp", "rtspu", "sip", "sips",
    "mms", "sftp", "tel"]

/-- A scheme is a letter followed by letters, digits, `+`, `-` and `.`. -/
def isScheme : List Char → Bool
  | [] => false
  | c :: rest =>
    c.isAlpha && rest.all fun d => d.isAlphanum || d = '+' || d = '-' || d = '.'

/-- The scheme in small letters, empty if there is none, and what follows it. -/
def cutScheme (cs : List Char) : List Char × List Char :=
  match Text.cut ':' cs with
  | (before, some after) => if isScheme before then (before.map Char.toLower, after) else ([], cs)
  | (_, none) => ([], cs)

/-- The network location, empty if there is none, and what follows it. -/
def cutLocation : List Char → List Char × List Char
  | '/' :: '/' :: rest =>
    let inside := fun c => c ≠ '/' && c ≠ '?' && c ≠ '#'
    (rest.takeWhile inside, rest.dropWhile inside)
  | cs => ([], cs)

def dropParameters (path : List Char) : List Char :=
  let last := (path.reverse.takeWhile (· ≠ '/')).reverse
  path.take (path.length - last.length) ++ last.takeWhile (· ≠ ';')

def checkHost (host : List Char) : Except UrlFault Unit :=
  if host.head? = some 'v' then if Host.isFuture host then .ok () else .error .future
  else if Host.isVersion4 host then .error .version4
  else if Host.isVersion6 host then .ok ()
  else .error (.noAddress (String.ofList host))

/-- Checks a network location with brackets. Behind the user's name nothing may stand before the
brackets, and behind them only what a colon begins. -/
def checkBrackets (location : List Char) : Except UrlFault Unit :=
  let place := (location.reverse.takeWhile (· ≠ '@')).reverse
  match Text.cut '[' place with
  | ([], some rest) =>
    match Text.cut ']' rest with
    | (host, some (c :: _)) => if c = ':' then checkHost host else .error .unbalanced
    | (host, _) => checkHost host
  | (_, some _) => .error .unbalanced
  | (_, none) => checkHost (Text.cut ':' place).1

def checkLocation (location : List Char) : Except UrlFault Unit := do
  if '[' ∈ location && ']' ∈ location then
    checkBrackets location
  else if '[' ∈ location || ']' ∈ location then
    throw .unbalanced
  if location.any fun c => disguises.contains c.toNat then
    throw (.disguised (String.ofList location))

def parse (s : String) : Except UrlFault Url := do
  let cs := (s.toList.dropWhile fun c => c ≤ ' ').filter fun c =>
    c ≠ '\t' && c ≠ '\r' && c ≠ '\n'
  let (scheme, rest) := cutScheme cs
  let (location, rest) := cutLocation rest
  checkLocation location
  let path := (rest.takeWhile (· ≠ '#')).takeWhile (· ≠ '?')
  let scheme := String.ofList scheme
  return ⟨scheme, String.ofList location,
    String.ofList (if parameterSchemes.contains scheme then dropParameters path else path)⟩

def fileName (url : Url) : String :=
  (Path.ofString url.path).name

end Url

end BuildHook
