import BuildHook.ExternalFile
import BuildHook.Session

/-!
# Bundling modules

The modules that an external archive needs are collected by a script inside a container that sees
the project's folder under its own path and works in the folder of the package.
-/

namespace BuildHook.Bundle

/-- The command that runs a script on the folder of a package in a container made from an image. -/
def argv (root package : Path) (image script : String) : List String :=
  ["docker", "run", "--rm", "--network", "host", "-e", "GOFLAGS=-mod=mod", "-v",
    root.text ++ ":" ++ root.text, "-w", package.text, image, "bash", "-c", script]

def run (root package : Path) (f : ExternalFile) (image : String) : Run Unit := do
  let s ← get
  let root ← Run.orFail Fault.files (Files.resolve s.tree s.current root)
  let package ← Run.orFail Fault.files (Files.resolve s.tree s.current package)
  unless package.isWithin root do
    throw (.bundle (.outside package root))
  let script ← Run.orFail Fault.url f.bundleScript
  discard (Run.command (fun cause => .bundle (.command cause))
    (argv root package image script) none)

end BuildHook.Bundle
