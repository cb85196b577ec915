import BuildHook.Sensitivity

/-!
# Settings

The settings of a build and the environment variables that hold them.
-/

namespace BuildHook

inductive BuildKind where
  | package
  | variant
  deriving DecidableEq, Repr

inductive Setting where
  | arch
  | rootDir
  | manifestDir
  | sdkImage
  | versionBuild
  | versionFull
  | timestamp
  | packageName
  | variant
  | sourcesDir
  | packagesDir
  | lookasideCache
  | directFallback
  | name
  | prettyName
  | versionImage
  | outputDir
  deriving DecidableEq, Repr

namespace Setting

def words : Setting → List String
  | .arch => ["arch"]
  | .rootDir => ["root", "dir"]
  | .manifestDir => ["manifest", "dir"]
  | .sdkImage => ["sdk", "image"]
  | .versionBuild => ["version", "build"]
  | .versionFull => ["version", "full"]
  | .timestamp => ["timestamp"]
  | .packageName => ["cargo", "package", "name"]
  | .variant => ["variant"]
  | .sourcesDir => ["sources", "dir"]
  | .packagesDir => ["packages", "dir"]
  | .lookasideCache => ["lookaside", "cache"]
  | .directFallback => ["upstream", "source", "fallback"]
  | .name => ["name"]
  | .prettyName => ["pretty", "name"]
  | .versionImage => ["version", "image"]
  | .outputDir => ["output", "dir"]

def key (s : Setting) : String :=
  String.intercalate "_" s.words

def option (s : Setting) : String :=
  "--" ++ String.intercalate "-" s.words

def envName : Setting → String
  | .arch => "BUILDSYS_ARCH"
  | .rootDir => "BUILDSYS_ROOT_DIR"
  | .manifestDir => "CARGO_MANIFEST_DIR"
  | .sdkImage => "BUILDSYS_SDK_IMAGE"
  | .versionBuild => "BUILDSYS_VERSION_BUILD"
  | .versionFull => "BUILDSYS_VERSION_FULL"
  | .timestamp => "BUILDSYS_TIMESTAMP"
  | .packageName => "CARGO_PKG_NAME"
  | .variant => Sensitivity.variantVariable
  | .sourcesDir => "BUILDSYS_SOURCES_DIR"
  | .packagesDir => "BUILDSYS_PACKAGES_DIR"
  | .lookasideCache => "BUILDSYS_LOOKASIDE_CACHE"
  | .directFallback => "BUILDSYS_UPSTREAM_SOURCE_FALLBACK"
  | .name => "BUILDSYS_NAME"
  | .prettyName => "BUILDSYS_PRETTY_NAME"
  | .versionImage => "BUILDSYS_VERSION_IMAGE"
  | .outputDir => "BUILDSYS_OUTPUT_DIR"

def common : List Setting :=
  [.arch, .rootDir, .manifestDir, .sdkImage, .versionBuild, .versionFull, .timestamp]

/-- The settings of a kind of build, in order. -/
def ofKind : BuildKind → List Setting
  | .package => common ++
      [.packageName, .variant, .sourcesDir, .packagesDir, .lookasideCache, .directFallback]
  | .variant => common ++ [.variant, .name, .prettyName, .versionImage, .outputDir]

end Setting

abbrev Values := Setting → Option String

end BuildHook
