import BuildHook.Files.Fault
import BuildHook.Manifest.Defect
import BuildHook.Arch
import BuildHook.Setting
import BuildHook.Text.Order
import BuildHook.Text.Utf8
import BuildHook.Url

/-!
# Faults of a build

Why a step of a build fails, and the text in which it says so. The steps of a build report their own
faults; the last constructors are faults of lower layers that no step reports as its own.
-/

namespace BuildHook

/-- The text of octets that are not UTF-8. -/
def Utf8.Malformed.message (m : Utf8.Malformed) : String :=
  let reason :=
    match m.reason with
    | .start => "invalid start byte"
    | .continuation => "invalid continuation byte"
    | .truncated => "unexpected end of data"
  let what :=
    if 1 < m.length then
      "bytes in position " ++ toString m.position ++ "-" ++ toString (m.position + m.length - 1)
    else
      "byte 0x" ++ String.ofList (Text.fixedHex 2 m.octet.toNat) ++ " in position " ++
        toString m.position
  "'utf-8' codec can't decode " ++ what ++ ": " ++ reason

def UrlFault.message : UrlFault → String
  | .unbalanced => "Invalid IPv6 URL"
  | .future => "IPvFuture address is invalid"
  | .version4 => "An IPv4 address cannot be in brackets"
  | .noAddress host => Text.quoted host ++ " does not appear to be an IPv4 or IPv6 address"
  | .disguised location =>
    "netloc '" ++ location ++ "' contains invalid characters under NFKC normalization"

/-- How messages explain that a document does not follow the rules of TOML. -/
def Toml.malformedText : String := "malformed document"

inductive CommandFault where
  /-- The program could not be started. -/
  | notStarted (program reason : String)
  /-- The command ended with a code other than zero. -/
  | failed (argv : List String) (code : Int)
  deriving DecidableEq, Repr

/-- The text of a command's fault; it names the first two words. -/
def CommandFault.message : CommandFault → String
  | .notStarted program reason => "Failed to start " ++ program ++ ": " ++ reason
  | .failed argv code =>
    "Command '" ++ String.intercalate " " (argv.take 2) ++ "' failed with exit code " ++
      toString code

inductive ManifestFault where
  | unreadable (fault : Files.Fault)
  | malformed
  | defect (defect : Manifest.Defect)
  deriving Repr

def ManifestFault.message : ManifestFault → String
  | .unreadable fault => fault.message
  | .malformed => "invalid TOML: " ++ Toml.malformedText
  | .defect cause => cause.message

inductive SpecFault where
  | unreadable (fault : Files.Fault)
  | undecodable (fault : Utf8.Malformed)
  /-- The value of the tag in a line, counted from one, names no file. -/
  | nameless (number : Nat) (line : String)
  deriving DecidableEq, Repr

def SpecFault.message : SpecFault → String
  | .unreadable fault => fault.message
  | .undecodable fault => fault.message
  | .nameless number line =>
    "line " ++ toString number ++ " has no file name: " ++ Text.quoted line

inductive DefaultsFault where
  | unlistable (folder : Path) (fault : Files.Fault)
  | brokenLink (folder : Path) (name : String)
  | unreadable (fragment : Path) (fault : Files.Fault)
  | malformed (fragment : Path)
  | unmergeable (values : Toml.Unmergeable)
  /-- The merged settings have no text. -/
  | unserialisable (fault : Toml.DigitFault)
  | unwritable (output : Path) (fault : Files.Fault)
  deriving Repr

def DefaultsFault.message : DefaultsFault → String
  | .unlistable folder fault => "Failed to list files in " ++ folder.text ++ ": " ++ fault.message
  | .brokenLink folder name =>
    "Failed to list files in " ++ folder.text ++ ": broken symlink " ++ name
  | .unreadable fragment fault => "Failed to read " ++ fragment.text ++ ": " ++ fault.message
  | .malformed fragment => fragment.text ++ " is not valid TOML: " ++ Toml.malformedText
  | .unmergeable values => "Failed to merge TOML: " ++ values.message
  | .unserialisable fault => "Failed to serialize default settings: " ++ fault.message
  | .unwritable output fault => "Failed to write " ++ output.text ++ ": " ++ fault.message

inductive DownloadFault where
  /-- The reply did not come, or not as a whole. -/
  | network (reason : String)
  /-- The reply could not be written. -/
  | disk (fault : Files.Fault)
  /-- The reply has another digest. -/
  | mismatch
  deriving DecidableEq, Repr

inductive FetchFault where
  | nameless (url : String)
  | download (url : String) (fault : DownloadFault)
  | unstored (target : Path) (fault : Files.Fault)
  deriving DecidableEq, Repr

def FetchFault.message : FetchFault → String
  | .nameless url => "Unable to derive a file name from '" ++ url ++ "'"
  | .download url (.network reason) => "Failed to download " ++ url ++ ": " ++ reason
  | .download url (.disk fault) => "Failed to download " ++ url ++ ": " ++ fault.message
  | .download url .mismatch => "SHA-512 mismatch for " ++ url
  | .unstored target fault => "Failed to store " ++ target.text ++ ": " ++ fault.message

inductive BundleFault where
  /-- The folder of the package does not lie in that of the project. -/
  | outside (package root : Path)
  | command (fault : CommandFault)
  deriving DecidableEq, Repr

def BundleFault.message : BundleFault → String
  | .outside package root =>
    "Package directory " ++ package.text ++ " is outside of root " ++ root.text
  | .command fault => fault.message

inductive ImageFault where
  | noRecipe (root : Path)
  | noPackages (manifest : Path)
  deriving DecidableEq, Repr

def ImageFault.message : ImageFault → String
  | .noRecipe root => "Dockerfile not found in " ++ root.text
  | .noPackages manifest => manifest.text ++ " declares no included packages"

inductive AttemptFault where
  | noOutput (folder : Path) (fault : Files.Fault)
  | command (fault : CommandFault)
  deriving DecidableEq, Repr

def AttemptFault.message : AttemptFault → String
  | .noOutput folder fault =>
    "Failed to create output directory " ++ folder.text ++ ": " ++ fault.message
  | .command fault => fault.message

inductive Fault where
  | manifest (path : Path) (cause : ManifestFault)
  | spec (path : Path) (cause : SpecFault)
  | unknownArch (token : String)
  | unsupportedArch (arch : Arch) (supported : List Arch)
  | missing (setting : Setting)
  | defaults (cause : DefaultsFault)
  | fetch (cause : FetchFault)
  | bundle (cause : BundleFault)
  | sourceGroup (folder : Path)
  | image (cause : ImageFault)
  | attempt (cause : AttemptFault)
  | command (cause : CommandFault)
  /-- A fault of the file system. -/
  | files (cause : Files.Fault)
  /-- A text that is not UTF-8. -/
  | undecodable (cause : Utf8.Malformed)
  /-- An address that cannot be taken apart. -/
  | url (cause : UrlFault)
  /-- An integer of too many digits. -/
  | digits (cause : Toml.DigitFault)
  /-- A word of a command that holds a zero character. -/
  | word
  deriving Repr

namespace Fault

def message : Fault → String
  | .manifest path cause => "Failed to parse manifest " ++ path.text ++ ": " ++ cause.message
  | .spec path cause => "Failed to parse spec file " ++ path.text ++ ": " ++ cause.message
  | .unknownArch token => "Unknown architecture: '" ++ token ++ "'"
  | .unsupportedArch arch supported =>
    "Unsupported architecture " ++ arch.name ++ ", this variant supports " ++
      Toml.commaSeparated (Text.sorted (supported.map Arch.name))
  | .missing setting => "Missing environment variable '" ++ setting.envName ++ "'"
  | .defaults cause => cause.message
  | .fetch cause => cause.message
  | .bundle cause => cause.message
  | .sourceGroup folder => "Source group directory not found: " ++ folder.text
  | .image cause => "Unable to instantiate the builder: " ++ cause.message
  | .attempt cause => cause.message
  | .command cause => cause.message
  | .files cause => cause.message
  | .undecodable cause => cause.message
  | .url cause => cause.message
  | .digits cause => cause.message
  | .word => "embedded null byte"

/-- Whether a step of the build reports the fault, and not a lower layer. -/
def isReported : Fault → Bool
  | .files _ | .undecodable _ | .url _ | .digits _ | .word => false
  | _ => true

/-- The fault for a text that is refused. A step reports those that are malformed as its own. -/
def ofRefusal (malformed : Fault) : Toml.Refusal → Fault
  | .malformed => malformed
  | .digits cause => .digits cause

end Fault

end BuildHook
