import BuildHook.Text.Order

/-!
# Image features

A variant switches features of its image on and off; a package sees those that it tracks. A tracked
feature has an environment variable, whether or not the variant declares it.
-/

namespace BuildHook

/-- The features of an image in the order in which they are declared, each with its switch if it has
one. -/
abbrev ImageFeatures := List (String × Option Bool)

namespace ImageFeatures

def envName (feature : String) : String :=
  "BUILDSYS_VARIANT_IMAGE_FEATURE_" ++ feature

/-- The environment variables of the tracked features, in the order of the features. -/
def envNames (tracked : Option (List String)) : List String :=
  (Text.sortedSet (tracked.getD [])).map envName

/-- The features that a package sees: those of the image that it tracks. A package that tracks
nothing sees none, and without image features there is nothing to see. -/
def negotiate (image : Option ImageFeatures) (tracked : Option (List String)) :
    Option ImageFeatures :=
  image.map fun features =>
    match tracked with
    | none => []
    | some names => features.filter fun feature => names.contains feature.1

/-- A feature as a word: its name, with `no-` in front if it is switched off. -/
def word? : String × Option Bool → Option String
  | (name, some true) => some name
  | (name, some false) => some ("no-" ++ name)
  | (_, none) => none

/-- The switched features in the order of their names, with commas between them. -/
def argument (features : ImageFeatures) : String :=
  String.intercalate ","
    ((Text.sortBy (fun x y => decide (x.1 ≤ y.1)) features).filterMap word?)

end ImageFeatures

end BuildHook
