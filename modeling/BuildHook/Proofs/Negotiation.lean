import BuildHook.Proofs.Invalidation
import BuildHook.Proofs.SignalLog
import BuildHook.Proofs.Sorting

/-!
# What a package sees of its variant

A package sees the image features that it tracks and nothing else of its variant. So two variants
that agree on these cannot be told apart by any build of the package, in no event and in no file.
The environment variables of the tracked features are signalled whatever the variant declares.
-/

namespace BuildHook

open Run (exec)

/-! ## Features as a map -/

namespace ImageFeatures

-- The names are declared once each.
def IsMap (features : ImageFeatures) : Prop :=
  (features.map Prod.fst).Nodup

instance (features : ImageFeatures) : Decidable features.IsMap :=
  inferInstanceAs (Decidable (_ : List String).Nodup)

variable {features others : ImageFeatures}

theorem IsMap.filter (h : features.IsMap) (p : String × Option Bool → Bool) :
    IsMap (features.filter p) :=
  h.sublist (List.filter_sublist.map _)

theorem IsMap.nodup (h : features.IsMap) : features.Nodup :=
  List.Nodup.of_map _ h

theorem IsMap.mem_iff (h : features.IsMap) (name : String) (switch : Option Bool) :
    (name, switch) ∈ features ↔ features.lookup name = some switch := by
  induction features with
  | nil => simp
  | cons feature rest ih =>
    obtain ⟨first, other⟩ := feature
    obtain ⟨hnew, hrest⟩ := List.nodup_cons.mp h
    rw [List.mem_cons, Prod.mk.injEq, List.lookup_cons, ih hrest]
    by_cases heq : name = first
    · subst heq
      have hlater : rest.lookup name ≠ some switch := by
        intro hfound
        apply hnew
        exact List.mem_map.mpr ⟨_, (ih hrest).mpr hfound, rfl⟩
      simp [hlater, eq_comm]
    · have hother : (name == first) = false := beq_eq_false_iff_ne.mpr heq
      simp [heq, hother]

-- Sorting by name leaves one order only, if no name is there twice.
theorem sorted_eq_of_perm (h : features.IsMap) (hperm : features.Perm others) :
    Text.sortBy (fun x y => decide (x.1 ≤ y.1)) features =
      Text.sortBy (fun x y => decide (x.1 ≤ y.1)) others := by
  let before := fun x y : String × Option Bool => x.1 ≤ y.1
  have htotal : Std.Total before := ⟨fun x y => le_total x.1 y.1⟩
  have htrans : IsTrans _ before := ⟨fun _ _ _ => le_trans⟩
  have hsorted : ∀ xs : ImageFeatures,
      Text.sortBy (fun x y => decide (x.1 ≤ y.1)) xs = xs.insertionSort before :=
    Text.sortBy_eq_insertionSort before
  rw [hsorted, hsorted]
  have hboth : (features.insertionSort before).Perm (others.insertionSort before) :=
    ((List.perm_insertionSort _ _).trans hperm).trans (List.perm_insertionSort _ _).symm
  refine hboth.eq_of_pairwise (fun x y hx hy hle hge => ?_) (List.pairwise_insertionSort _ _)
    (List.pairwise_insertionSort _ _)
  -- of two features of one name, both are the one that the map has
  have hname : x.1 = y.1 := le_antisymm hle hge
  have hx : x ∈ features := (List.perm_insertionSort _ _).mem_iff.mp hx
  have hy : y ∈ features := hperm.mem_iff.mpr ((List.perm_insertionSort _ _).mem_iff.mp hy)
  have hswitch : some x.2 = some y.2 := by
    rw [← (h.mem_iff x.1 x.2).mp hx, hname, (h.mem_iff y.1 y.2).mp hy]
  exact Prod.ext hname (Option.some.inj hswitch)

/-- Two images whose features agree on the tracked names are the same to a package. -/
theorem argument_negotiate {image image' : Option ImageFeatures} {tracked : Option (List String)}
    (h : IsMap (image.getD [])) (h' : IsMap (image'.getD []))
    (hsame : ∀ name ∈ tracked.getD [],
      (image.getD []).lookup name = (image'.getD []).lookup name) :
    argument ((negotiate image tracked).getD []) =
      argument ((negotiate image' tracked).getD []) := by
  have hseen : ∀ image : Option ImageFeatures, (negotiate image tracked).getD [] =
      (image.getD []).filter fun feature => (tracked.getD []).contains feature.1 := by
    intro image
    cases image with
    | none => rfl
    | some features => cases tracked <;> simp [negotiate]
  rw [hseen, hseen]
  unfold argument
  congr 2
  apply sorted_eq_of_perm (h.filter _)
  apply (List.perm_ext_iff_of_nodup (h.filter _).nodup (h'.filter _).nodup).mpr
  rintro ⟨name, switch⟩
  rw [List.mem_filter, List.mem_filter, h.mem_iff, h'.mem_iff]
  constructor
  all_goals
    rintro ⟨hfound, htracked⟩
    have hlookup := hsame name (by simpa using htracked)
    exact ⟨by simpa [hlookup] using hfound, htracked⟩

end ImageFeatures

/-! ## Builds with given manifests -/

/-- The image features that a manifest declares; without any it counts as one that declares none. -/
def Manifest.features (m : Manifest) : ImageFeatures :=
  m.imageFeatures.getD []

/-- Manifests that declare the same of the tracked features: each of them in both or in neither, and
with the same switch. -/
def Manifest.AgreesOn (tracked : Option (List String)) (v w : Manifest) : Prop :=
  ∀ name ∈ tracked.getD [], v.features.lookup name = w.features.lookup name

instance (tracked : Option (List String)) (v w : Manifest) : Decidable (v.AgreesOn tracked w) :=
  inferInstanceAs (Decidable (∀ name ∈ tracked.getD [], _ = _))

namespace PackageRequest

variable (request : PackageRequest)

/-- The build of a package with manifests that a provider delivers. -/
def buildFrom (provide : Path → Run Manifest) : Run Unit := do
  Run.watchFile request.manifestPath
  let manifest ← provide request.manifestPath
  Run.watchFile request.variantManifestPath
  let variant ← provide request.variantManifestPath
  request.buildWith manifest variant

/-- The build itself reads the manifests from their files. -/
theorem build_eq_buildFrom : request.build = request.buildFrom Manifest.read := by
  simp only [build, buildFrom, Run.watchManifest, bind_assoc]

/-- A provider delivers both manifests of a build that starts in a session; it leaves another one,
in which the variant can be built for the architecture. -/
def Delivers (provide : Path → Run Manifest) (s : Session) (manifest variant : Manifest)
    (chosen : Session) : Prop :=
  variant.supports request.project.arch = true ∧ ∃ entered : Session,
    exec (provide request.manifestPath)
      (s.noting (.notice (.signal (.file request.manifestPath)))) = (.ok manifest, entered) ∧
    exec (provide request.variantManifestPath)
      (entered.noting (.notice (.signal (.file request.variantManifestPath)))) =
        (.ok variant, chosen)

variable {request} {provide provide' : Path → Run Manifest} {manifest variant v w : Manifest}
  {s chosen : Session}

theorem exec_buildFrom (h : request.Delivers provide s manifest variant chosen) :
    exec (request.buildFrom provide) s = exec (do
      request.collect manifest
      request.assemble (manifest, variant) >>= Image.build) chosen := by
  obtain ⟨harch, entered, hmanifest, hvariant⟩ := h
  have hadmitted : exec (Run.requireArch variant request.project.arch) chosen =
      (.ok ⟨⟩, chosen) := by
    rw [Run.exec_requireArch, if_pos harch]
  rw [buildFrom, Run.exec_bind_of_ok (Run.exec_watchFile _ s), Run.exec_bind_of_ok hmanifest,
    Run.exec_bind_of_ok (Run.exec_watchFile _ entered), Run.exec_bind_of_ok hvariant,
    buildWith_eq, Run.exec_bind_of_ok hadmitted]

-- Of the variant only the tracked features go into the image.
theorem assemble_congr (hv : v.features.IsMap) (hw : w.features.IsMap)
    (hsame : v.AgreesOn manifest.packageFeatures w) :
    request.assemble (manifest, v) = request.assemble (manifest, w) := by
  have himage : request.image manifest v = request.image manifest w := by
    unfold image Image.ofPackage
    rw [ImageFeatures.argument_negotiate hv hw hsame]
  simp only [assemble, survey, himage]

theorem featureEnvs_emitted (h : request.Delivers provide s manifest variant chosen)
    {name : String} (hname : name ∈ manifest.packageFeatures.getD []) :
    .env (ImageFeatures.envName name) ∈
      ((exec (request.buildFrom provide) s).2.since chosen).filterMap Event.signal? := by
  let tracked := (ImageFeatures.envNames manifest.packageFeatures).map Signal.env
  -- what comes after the signals of the features only adds to the journal
  have hlater : Licence.anything.Allows (do
      Run.watchNewEnvs (Sensitivity.envNames manifest.sensitivity)
      request.lookaside.fetch (files manifest)
      request.assemble (manifest, variant) >>= Image.build) (chosen.signalling tracked) := by
    refine Licence.allows_bind (Licence.allows_watchNewEnvs fun _ _ _ => trivial) fun _ _ _ => ?_
    refine Licence.allows_bind (Licence.allows_fetch (fun _ _ _ _ _ => trivial)
      (fun _ _ _ => trivial) (fun _ _ => trivial) fun _ _ => trivial) fun _ _ _ => ?_
    refine Licence.allows_bind (Licence.allows_assemble (fun _ _ _ _ => trivial)
      (fun _ _ _ => trivial) fun _ _ => trivial) fun _ _ _ => ?_
    exact Licence.allows_image trivial trivial
  have hexec : exec (request.buildFrom provide) s = exec (do
      Run.watchNewEnvs (Sensitivity.envNames manifest.sensitivity)
      request.lookaside.fetch (files manifest)
      request.assemble (manifest, variant) >>= Image.build) (chosen.signalling tracked) := by
    rw [exec_buildFrom h, collect, bind_assoc,
      Run.exec_bind_of_ok (Run.exec_watchFeatures _ chosen)]
    simp only [bind_assoc]
    rfl
  obtain ⟨rest, hrest⟩ := hlater.journal_extends
  rw [← hexec, Session.signalling_journal, List.append_assoc] at hrest
  rw [Session.since_of_journal hrest.symm, List.filterMap_append, List.mem_append]
  left
  have hsorted : name ∈ Text.sortedSet (manifest.packageFeatures.getD []) :=
    Text.mem_sortedSet.mpr hname
  have hsignal : Signal.env (ImageFeatures.envName name) ∈ tracked :=
    List.mem_map_of_mem (List.mem_map_of_mem hsorted)
  rw [List.filterMap_map, List.mem_filterMap]
  exact ⟨_, hsignal, rfl⟩

/-- Two variants for one build of a package. If they agree on the features that the package tracks,
the builds have the same result and leave the same session: the same signals, requests, commands and
tree. In any case both signal the environment variables of the tracked features. -/
theorem untracked_unseen (hv : request.Delivers provide s manifest v chosen)
    (hw : request.Delivers provide' s manifest w chosen) (hmap : v.features.IsMap)
    (hmap' : w.features.IsMap) :
    (v.AgreesOn manifest.packageFeatures w →
      exec (request.buildFrom provide) s = exec (request.buildFrom provide') s) ∧
    ∀ name ∈ manifest.packageFeatures.getD [], ∀ provider ∈ [provide, provide'],
      .env (ImageFeatures.envName name) ∈
        ((exec (request.buildFrom provider) s).2.since chosen).filterMap Event.signal? := by
  refine ⟨fun hsame => ?_, fun name hname provider hprovider => ?_⟩
  · rw [exec_buildFrom hv, exec_buildFrom hw, assemble_congr hmap hmap' hsame]
  · rcases List.mem_cons.mp hprovider with rfl | hprovider
    · exact featureEnvs_emitted hv hname
    · obtain rfl := List.mem_singleton.mp hprovider
      exact featureEnvs_emitted hw hname

-- A package that tracks two features, and two variants that switch one of them on.
def trackingManifest : Manifest :=
  { Manifest.empty sample.manifestPath with packageFeatures := some ["b", "a"] }

def plainVariant : Manifest :=
  { Manifest.empty sample.variantManifestPath with
    imageFeatures := some [("c", some true), ("a", some true)] }

def otherVariant : Manifest :=
  { Manifest.empty sample.variantManifestPath with
    imageFeatures := some [("a", some true), ("d", none), ("c", some false)]
    kernelParameters := some ["quiet"]
    arches := some [.x86_64] }

/-- The provider of the manifest above and of a variant's. -/
def providing (variant : Manifest) (path : Path) : Run Manifest :=
  pure (if path = sample.manifestPath then trackingManifest else variant)

theorem untracked_unseen_sample :
    exec (sample.buildFrom (providing plainVariant)) sampleSession =
        exec (sample.buildFrom (providing otherVariant)) sampleSession ∧
      ∀ name ∈ ["b", "a"], ∀ provider ∈ [providing plainVariant, providing otherVariant],
        .env (ImageFeatures.envName name) ∈
          ((exec (sample.buildFrom provider) sampleSession).2.since
            ((sampleSession.noting (.notice (.signal (.file sample.manifestPath)))).noting
              (.notice (.signal (.file sample.variantManifestPath))))).filterMap
                Event.signal? := by
  have hmanifest : ∀ variant,
      providing variant sample.manifestPath = pure trackingManifest := fun _ => rfl
  have hpaths : sample.variantManifestPath ≠ sample.manifestPath := by decide
  have hvariant : ∀ variant,
      providing variant sample.variantManifestPath = pure variant := fun variant => by
    rw [providing, if_neg hpaths]
  have hplain : sample.Delivers (providing plainVariant) sampleSession trackingManifest
      plainVariant ((sampleSession.noting (.notice (.signal (.file sample.manifestPath)))).noting
        (.notice (.signal (.file sample.variantManifestPath)))) :=
    ⟨rfl, _, by rw [hmanifest]; rfl, by rw [hvariant]; rfl⟩
  have hother : sample.Delivers (providing otherVariant) sampleSession trackingManifest
      otherVariant ((sampleSession.noting (.notice (.signal (.file sample.manifestPath)))).noting
        (.notice (.signal (.file sample.variantManifestPath)))) :=
    ⟨rfl, _, by rw [hmanifest]; rfl, by rw [hvariant]; rfl⟩
  obtain ⟨hsame, hemitted⟩ := untracked_unseen hplain hother (by decide) (by decide)
  exact ⟨hsame (by decide), hemitted⟩

end PackageRequest

end BuildHook
