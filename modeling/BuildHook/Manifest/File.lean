import BuildHook.Manifest.Basic
import BuildHook.Session
import BuildHook.Toml.Document

/-!
# Manifest files

Reading a manifest from its file.
-/

namespace BuildHook.Manifest

def read (path : Path) : Run Manifest := do
  let bytes ← Run.readFile (fun fault => .manifest path (.unreadable fault)) path
  let text ← Run.orFail Fault.undecodable (Utf8.decode bytes)
  let document ← Run.orFail (Fault.ofRefusal (.manifest path .malformed)) (Toml.parse text)
  Run.orFail (fun defect => .manifest path (.defect defect)) (ofDocument path document)

end BuildHook.Manifest
