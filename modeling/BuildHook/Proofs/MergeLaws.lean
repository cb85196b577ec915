import BuildHook.Proofs.Toml.RoundTrip

/-!
# Laws of merging

A table laid over another one keeps the order of the keys below and adds its own behind them. An empty
table changes nothing, and a table laid twice lies once. How three tables are grouped is seen only
where a plain value of the middle one stands between a table below and a table above.
-/

namespace BuildHook.Toml

variable {t u below middle above lower upper : Table} {x y z value : Value} {key : String}
  {place : Key} {same : Value → Value → Prop}

/-! ## Keys -/

/-- The keys below come first, and of the keys above only the new ones follow. -/
theorem keys_merge (below : Table) (h : above.keys.Nodup) :
    (merge below above).keys = below.keys ++ above.keys.filter (· ∉ below.keys) := by
  induction above generalizing below with
  | nil =>
    rw [merge]
    exact (List.append_nil _).symm
  | cons entry rest ih =>
    obtain ⟨name, value⟩ := entry
    obtain ⟨hname, hrest⟩ := List.nodup_cons.mp h
    have hkeys : Table.keys ((name, value) :: rest) = name :: Table.keys rest := rfl
    rw [merge_cons, ih _ hrest, Table.keys_put, hkeys]
    by_cases hmem : name ∈ below.keys
    · rw [if_pos hmem, List.filter_cons_of_neg (by simpa using hmem)]
    · have hfilter : (Table.keys rest).filter (· ∉ below.keys ++ [name]) =
          (Table.keys rest).filter (· ∉ below.keys) := by
        refine List.filter_congr fun other hother => ?_
        have hne : other ≠ name := fun heq => hname (heq ▸ hother)
        simp [hne]
      rw [if_neg hmem, List.filter_cons_of_pos (by simpa using hmem), hfilter, List.append_assoc]
      rfl

theorem nodup_keys_merge (hbelow : below.keys.Nodup) (habove : above.keys.Nodup) :
    (merge below above).keys.Nodup := by
  rw [keys_merge below habove]
  refine List.nodup_append.mpr ⟨hbelow, habove.filter _, fun a ha b hb heq => ?_⟩
  rw [List.mem_filter, decide_eq_true_eq] at hb
  exact hb.2 (heq ▸ ha)

-- Either way the keys are those of the three tables, each where it stands first.
theorem keys_merge_assoc (hmiddle : middle.keys.Nodup) (habove : above.keys.Nodup) :
    (merge (merge below middle) above).keys = (merge below (merge middle above)).keys := by
  rw [keys_merge _ habove, keys_merge _ (nodup_keys_merge hmiddle habove), keys_merge _ hmiddle,
    keys_merge _ habove, List.filter_append, List.append_assoc, List.filter_filter]
  congr 2
  refine List.filter_congr fun key _ => ?_
  by_cases hbelow : key ∈ below.keys <;> simp [hbelow]

/-- Tables with the same keys in the same order, and the same values at them, are the same. -/
theorem ext_get? (hkeys : t.keys = u.keys) (hnodup : t.keys.Nodup)
    (h : ∀ key, t.get? key = u.get? key) : t = u := by
  induction t generalizing u with
  | nil => exact (List.map_eq_nil_iff.mp hkeys.symm).symm
  | cons entry t ih =>
    obtain ⟨name, value⟩ := entry
    obtain ⟨⟨name', value'⟩, u, rfl, rfl, hrest⟩ := List.map_eq_cons_iff.mp hkeys.symm
    obtain ⟨hname, hnodup⟩ := List.nodup_cons.mp hnodup
    have hvalue : value = value' := by simpa [Table.get?] using h name'
    have htail : t = u := by
      refine ih hrest.symm hnodup fun key => ?_
      by_cases hkey : name' = key
      · subst hkey
        have hother : name' ∉ Table.keys u := by rwa [← show _ = Table.keys u from hrest.symm]
        rw [Table.get?_eq_none_iff.mpr hname, Table.get?_eq_none_iff.mpr hother]
      · simpa [Table.get?, hkey] using h key
    rw [hvalue, htail]

/-! ## Ways to compare values -/

/-- What the ways to compare values have in common, be it with the order of keys or without: each value
compares with itself, and tables whose keys stand in the same order compare key by key. -/
structure IsComparison (same : Value → Value → Prop) : Prop where
  refl : ∀ value, same value value
  table : ∀ {t u : Table}, t.keys = u.keys → t.keys.Nodup →
    (same (.table t) (.table u) ↔ ∀ key, Option.Rel same (t.get? key) (u.get? key))

theorem isComparison_eq : IsComparison Eq where
  refl _ := rfl
  table {t u} hkeys hnodup := by
    have hrel : ∀ old new : Option Value, Option.Rel Eq old new ↔ old = new := by
      intro old new
      cases old <;> cases new <;> simp
    rw [Value.table.injEq]
    constructor
    · rintro rfl key
      exact (hrel _ _).mpr rfl
    · exact fun h => ext_get? hkeys hnodup fun key => (hrel _ _).mp (h key)

theorem alike_table : (Value.table t).Alike (.table u) ↔
    ∀ key, Option.Rel Value.Alike (t.get? key) (u.get? key) := by
  refine ⟨fun h => ?_, .table⟩
  cases h with
  | scalar h => cases h
  | table h => exact h

theorem isComparison_alike : IsComparison Value.Alike where
  refl := .refl
  table _ _ := alike_table

/-! ## Three layers -/

-- What stands at a key of two tables laid over each other, by what stands there in each of them.
def layered (old new : Option Value) : Option Value :=
  match new with
  | some value => some (laidOver old value)
  | none => old

theorem get?_merge_layered (below : Table) (h : above.keys.Nodup) (key : String) :
    (merge below above).get? key = layered (below.get? key) (above.get? key) := by
  rw [get?_merge below h]
  rfl

/-- Whether a plain value of the second of three values stands at a place between a table of the
first one and a table of the third. -/
structure Value.Divided (below middle above : Value) (place : Key) (lower upper : Table) : Prop where
  below : below.at? place = some (.table lower)
  middle : ∃ value, middle.at? place = some value ∧ value.isTable = false
  above : above.at? place = some (.table upper)

/-- Whether each table that is divided from one above it is covered by that one: laid over the table
below, the one above comes out as it is. -/
def Value.Covered (same : Value → Value → Prop) (below middle above : Value) : Prop :=
  ∀ place lower upper, Value.Divided below middle above place lower upper →
    same (.table upper) (.table (Toml.merge lower upper))

theorem isDistinct_table :
    (Value.table t).isDistinct = true ↔ t.keys.Nodup ∧ areDistinct t = true := by
  rw [Value.isDistinct, Bool.and_eq_true, decide_eq_true_eq]

theorem isDistinct_of_at? (h : x.isDistinct = true) (hat : x.at? place = some y) :
    y.isDistinct = true := by
  induction place generalizing x with
  | nil => exact Option.some.inj hat ▸ h
  | cons key place ih =>
    cases htable : x.isTable with
    | false =>
      rw [at?_of_not_table htable] at hat
      cases hat
    | true =>
      obtain ⟨entries, rfl⟩ := exists_table htable
      rw [at?_table_cons, Option.bind_eq_some_iff] at hat
      obtain ⟨inner, hinner, hat⟩ := hat
      exact ih (isDistinct_of_get? (isDistinct_table.mp h).2 hinner) hat

theorem isTable_of_at? (h : value.at? place = some (.table t)) : value.isTable = true := by
  cases hvalue : value.isTable with
  | true => rfl
  | false =>
    cases place with
    | nil =>
      obtain rfl : value = .table t := Option.some.inj h
      cases hvalue
    | cons key place =>
      rw [at?_of_not_table hvalue] at h
      cases h

theorem divided_of_not_table (h : y.isTable = false) :
    Value.Divided (.table lower) y (.table upper) place t u ↔
      place = [] ∧ t = lower ∧ u = upper := by
  constructor
  · rintro ⟨hbelow, ⟨value, hmiddle, -⟩, habove⟩
    cases place with
    | nil =>
      obtain rfl := Value.table.inj (Option.some.inj hbelow)
      obtain rfl := Value.table.inj (Option.some.inj habove)
      exact ⟨rfl, rfl, rfl⟩
    | cons key place =>
      rw [at?_of_not_table h] at hmiddle
      cases hmiddle
  · rintro ⟨rfl, rfl, rfl⟩
    exact ⟨rfl, ⟨y, rfl, h⟩, rfl⟩

/-- Tables are divided only below a key that all of them have. -/
theorem divided_table :
    Value.Divided (.table below) (.table middle) (.table above) place lower upper ↔
      ∃ key rest x y z, place = key :: rest ∧ below.get? key = some x ∧ middle.get? key = some y ∧
        above.get? key = some z ∧ Value.Divided x y z rest lower upper := by
  constructor
  · rintro ⟨hbelow, ⟨value, hmiddle, hplain⟩, habove⟩
    cases place with
    | nil =>
      obtain rfl : .table middle = value := Option.some.inj hmiddle
      cases hplain
    | cons key place =>
      rw [at?_table_cons, Option.bind_eq_some_iff] at hbelow hmiddle habove
      obtain ⟨x, hx, hbelow⟩ := hbelow
      obtain ⟨y, hy, hmiddle⟩ := hmiddle
      obtain ⟨z, hz, habove⟩ := habove
      exact ⟨key, place, x, y, z, rfl, hx, hy, hz, hbelow, ⟨value, hmiddle, hplain⟩, habove⟩
  · rintro ⟨key, rest, x, y, z, rfl, hx, hy, hz, hbelow, ⟨value, hmiddle, hplain⟩, habove⟩
    refine ⟨?_, ⟨value, ?_, hplain⟩, ?_⟩ <;> rw [at?_table_cons]
    · rw [hx, Option.bind_some, hbelow]
    · rw [hy, Option.bind_some, hmiddle]
    · rw [hz, Option.bind_some, habove]

-- Where no layer is missing the grouping matters at a key, and nowhere else.
theorem rel_layered_assoc (hsame : IsComparison same) (old mid new : Option Value) :
    Option.Rel same (layered (layered old mid) new) (layered old (layered mid new)) ↔
      ∀ x y z, old = some x → mid = some y → new = some z →
        same ((x.overlay y).overlay z) (x.overlay (y.overlay z)) := by
  cases old <;> cases mid <;> cases new <;> simp [layered, laidOver, hsame.refl]

-- Tables are grouped key by key.
theorem same_merge_assoc_iff (hsame : IsComparison same) (hbelow : below.keys.Nodup)
    (hmiddle : middle.keys.Nodup) (habove : above.keys.Nodup)
    (hkey : ∀ key x y z, below.get? key = some x → middle.get? key = some y →
      above.get? key = some z →
      (same ((x.overlay y).overlay z) (x.overlay (y.overlay z)) ↔ Value.Covered same x y z)) :
    same (.table (merge (merge below middle) above)) (.table (merge below (merge middle above))) ↔
      Value.Covered same (.table below) (.table middle) (.table above) := by
  have hnodup := nodup_keys_merge hmiddle habove
  rw [hsame.table (keys_merge_assoc hmiddle habove)
    (nodup_keys_merge (nodup_keys_merge hbelow hmiddle) habove)]
  simp only [get?_merge_layered _ habove, get?_merge_layered _ hmiddle,
    get?_merge_layered _ hnodup, rel_layered_assoc hsame]
  constructor
  · intro h place lower upper hdivided
    obtain ⟨key, rest, x, y, z, -, hx, hy, hz, hrest⟩ := divided_table.mp hdivided
    exact (hkey key x y z hx hy hz).mp (h key x y z hx hy hz) rest lower upper hrest
  · intro h key x y z hx hy hz
    refine (hkey key x y z hx hy hz).mpr fun rest lower upper hrest => ?_
    exact h (key :: rest) lower upper (divided_table.mpr ⟨key, rest, x, y, z, rfl, hx, hy, hz, hrest⟩)

/-- Three values laid over each other compare as equal in both groupings just if each table of the
first that the second divides from one of the third is covered by that one. -/
theorem same_overlay_assoc_iff (hsame : IsComparison same) (hx : x.isDistinct = true)
    (hy : y.isDistinct = true) (hz : z.isDistinct = true) :
    same ((x.overlay y).overlay z) (x.overlay (y.overlay z)) ↔ Value.Covered same x y z := by
  -- without a table at the bottom or on top nothing is divided, and both groupings are the same
  have hbottom : ∀ x y z : Value, x.isTable = false →
      (same ((x.overlay y).overlay z) (x.overlay (y.overlay z)) ↔ Value.Covered same x y z) := by
    intro x y z hplain
    rw [overlay_of_not_table_left hplain, overlay_of_not_table_left hplain]
    refine iff_of_true (hsame.refl _) fun place lower upper hdivided => ?_
    rw [isTable_of_at? hdivided.below] at hplain
    cases hplain
  induction x using Value.induction_on_members generalizing y z with
  | scalar x hscalar => exact hbottom x y z (isTable_of_isScalar hscalar)
  | array items => exact hbottom _ y z rfl
  | table below ih =>
    cases habove : z.isTable with
    | false =>
      rw [overlay_of_not_table_right _ habove, overlay_of_not_table_right _ habove,
        overlay_of_not_table_right _ habove]
      refine iff_of_true (hsame.refl _) fun place lower upper hdivided => ?_
      rw [isTable_of_at? hdivided.above] at habove
      cases habove
    | true =>
      obtain ⟨above, rfl⟩ := exists_table habove
      cases hmiddle : y.isTable with
      | false =>
        rw [overlay_of_not_table_right _ hmiddle, overlay_of_not_table_left hmiddle, Value.overlay]
        simp only [Value.Covered, divided_of_not_table hmiddle]
        constructor
        · rintro h place lower upper ⟨rfl, rfl, rfl⟩
          exact h
        · exact fun h => h [] below above ⟨rfl, rfl, rfl⟩
      | true =>
        obtain ⟨middle, rfl⟩ := exists_table hmiddle
        obtain ⟨hbelow, hx⟩ := isDistinct_table.mp hx
        obtain ⟨hmiddle, hy⟩ := isDistinct_table.mp hy
        obtain ⟨habove, hz⟩ := isDistinct_table.mp hz
        simp only [Value.overlay]
        refine same_merge_assoc_iff hsame hbelow hmiddle habove fun key x y z hgetx hgety hgetz => ?_
        exact ih (key, x) (mem_of_get? hgetx) (isDistinct_of_get? hx hgetx)
          (isDistinct_of_get? hy hgety) (isDistinct_of_get? hz hgetz)

/-! ## Laws -/

theorem nil_merge (h : t.keys.Nodup) : merge [] t = t := by
  have hkeys : (merge [] t).keys = t.keys := by
    rw [keys_merge [] h]
    simp [Table.keys]
  refine ext_get? hkeys (hkeys ▸ h) fun key => ?_
  rw [get?_merge_layered [] h]
  cases hget : t.get? key <;> rfl

theorem overlay_self (h : value.isDistinct = true) : value.overlay value = value := by
  induction value using Value.induction_on_members with
  | scalar value hscalar => exact overlay_of_not_table_right value (isTable_of_isScalar hscalar)
  | array items => exact overlay_of_not_table_right _ rfl
  | table entries ih =>
    obtain ⟨hnodup, hentries⟩ := isDistinct_table.mp h
    have hkeys : (merge entries entries).keys = Table.keys entries := by
      rw [keys_merge entries hnodup]
      simp
    rw [Value.overlay]
    refine congrArg Value.table (ext_get? hkeys (hkeys ▸ hnodup) fun key => ?_)
    rw [get?_merge_layered entries hnodup]
    cases hget : Table.get? entries key with
    | none => rfl
    | some inner =>
      exact congrArg some (ih _ (mem_of_get? hget) (isDistinct_of_get? hentries hget))

-- No place holds a table and a plain value.
theorem covered_self (same : Value → Value → Prop) (x y : Value) : Value.Covered same x y y := by
  rintro place lower upper ⟨-, ⟨value, hmiddle, hplain⟩, habove⟩
  rw [habove] at hmiddle
  obtain rfl := Option.some.inj hmiddle
  cases hplain

theorem overlay_overlay_self (hx : x.isDistinct = true) (hy : y.isDistinct = true) :
    (x.overlay y).overlay y = x.overlay y := by
  rw [(same_overlay_assoc_iff isComparison_eq hx hy hy).mpr (covered_self Eq x y), overlay_self hy]

/-- An empty table changes nothing, below or above, nor does a table that is laid over itself or laid
a second time. Wherever both tables hold one, the keys are those of the lower table and behind them
the new ones of the upper table, in the orders that they have there. Where only the upper table
holds one, or it replaces a plain value, it stays as it is. -/
theorem merge_laws (hbelow : (Value.table below).isDistinct = true)
    (habove : (Value.table above).isDistinct = true) :
    merge [] above = above ∧ merge below [] = below ∧ merge below below = below ∧
      merge (merge below above) above = merge below above ∧
      (∀ (place : Key) (lower upper : Table),
        (Value.table below).at? place = some (.table lower) →
        (Value.table above).at? place = some (.table upper) →
        (Value.table (merge below above)).at? place = some (.table (merge lower upper)) ∧
          (merge lower upper).keys = lower.keys ++ upper.keys.filter (· ∉ lower.keys)) ∧
      ∀ (place : Key) (upper : Table),
        (∀ lower, (Value.table below).at? place ≠ some (.table lower)) →
        (Value.table above).at? place = some (.table upper) →
        (Value.table (merge below above)).at? place = some (.table upper) := by
  have htwice := overlay_overlay_self hbelow habove
  simp only [Value.overlay, Value.table.injEq] at htwice
  have hself := overlay_self hbelow
  simp only [Value.overlay, Value.table.injEq] at hself
  refine ⟨nil_merge (isDistinct_table.mp habove).1, by rw [merge], hself, htwice, ?_, ?_⟩
  · intro place lower upper hlower hupper
    have hnodup : upper.keys.Nodup := (isDistinct_table.mp (isDistinct_of_at? habove hupper)).1
    rw [at?_merge below habove, hupper, hlower]
    refine ⟨?_, keys_merge lower hnodup⟩
    change some ((Value.table lower).overlay (.table upper)) = _
    rw [Value.overlay]
  · intro place upper hlower hupper
    rw [at?_merge below habove, hupper]
    cases hold : (Value.table below).at? place with
    | none => rfl
    | some old =>
      have hplain : old.isTable = false := by
        rw [Bool.eq_false_iff]
        intro htable
        obtain ⟨lower, rfl⟩ := exists_table htable
        exact hlower lower hold
      exact congrArg some (overlay_of_not_table_left hplain _)

-- Two tables that share a table, where one also has a table in the place of a number.
def lowerSample : Table :=
  [("b", .integer 1), ("t", .table [("y", .integer 1), ("x", .array [])]), ("p", .integer 5)]

def upperSample : Table :=
  [("p", .table [("n", .integer 1), ("m", .integer 2)]), ("a", .integer 7),
    ("t", .table [("z", .integer 3), ("x", .integer 4)])]

theorem merge_laws_sample :
    (Value.table lowerSample).isDistinct = true ∧ (Value.table upperSample).isDistinct = true ∧
      merge lowerSample upperSample =
        [("b", .integer 1),
          ("t", .table [("y", .integer 1), ("x", .integer 4), ("z", .integer 3)]),
          ("p", .table [("n", .integer 1), ("m", .integer 2)]), ("a", .integer 7)] ∧
      merge (merge lowerSample upperSample) upperSample = merge lowerSample upperSample ∧
      (Value.table (merge lowerSample upperSample)).at? ["p"] =
        some (.table [("n", .integer 1), ("m", .integer 2)]) := by
  have hlower : (Value.table lowerSample).isDistinct = true := by decide
  have hupper : (Value.table upperSample).isDistinct = true := by decide
  obtain ⟨-, -, -, htwice, -, hreplaced⟩ := merge_laws hlower hupper
  exact ⟨hlower, hupper, by rfl, htwice, hreplaced ["p"] _ (fun _ => nofun) rfl⟩

/-! ## Grouping -/

/-- Three tables give the same in both groupings, the order of keys included, if and only if each
table of the first one that the second one divides from one of the third is covered by that one. The
same holds if the order of keys does not count. So two layers of a list may be merged beforehand if
they leave no table uncovered of what lies below them. -/
theorem merge_assoc_iff (hbelow : (Value.table below).isDistinct = true)
    (hmiddle : (Value.table middle).isDistinct = true)
    (habove : (Value.table above).isDistinct = true) :
    (merge (merge below middle) above = merge below (merge middle above) ↔
      Value.Covered Eq (.table below) (.table middle) (.table above)) ∧
    ((Value.table (merge (merge below middle) above)).Alike
        (.table (merge below (merge middle above))) ↔
      Value.Covered Value.Alike (.table below) (.table middle) (.table above)) ∧
    ∀ earlier later, mergeAll earlier = below →
      Value.Covered Eq (.table below) (.table middle) (.table above) →
      mergeAll (earlier ++ middle :: above :: later) =
        mergeAll (earlier ++ merge middle above :: later) := by
  have hordered := same_overlay_assoc_iff isComparison_eq hbelow hmiddle habove
  have halike := same_overlay_assoc_iff isComparison_alike hbelow hmiddle habove
  simp only [Value.overlay, Value.table.injEq] at hordered halike
  refine ⟨hordered, halike, ?_⟩
  rintro earlier later rfl hcovered
  have hstep := hordered.mpr hcovered
  unfold mergeAll at hstep ⊢
  rw [List.foldl_append, List.foldl_append, List.foldl_cons, List.foldl_cons, List.foldl_cons, hstep]

-- A number divides two tables, of which the upper one has all keys of the lower one.
theorem merge_assoc_iff_sample :
    let below : Table := [("a", .table [("b", .integer 1)])]
    let middle : Table := [("a", .integer 5)]
    let above : Table := [("a", .table [("b", .integer 2), ("c", .integer 3)])]
    (∀ table ∈ [below, middle, above], (Value.table table).isDistinct = true) ∧
      Value.Divided (.table below) (.table middle) (.table above) ["a"] [("b", .integer 1)]
        [("b", .integer 2), ("c", .integer 3)] ∧
      Value.Covered Eq (.table below) (.table middle) (.table above) ∧
      mergeAll [below, middle, above] = mergeAll [below, merge middle above] := by
  intro below middle above
  have hdistinct : ∀ table ∈ [below, middle, above], (Value.table table).isDistinct = true := by
    decide
  obtain ⟨hordered, -, hlayers⟩ := merge_assoc_iff (hdistinct below (by simp))
    (hdistinct middle (by simp)) (hdistinct above (by simp))
  have hcovered : Value.Covered Eq (.table below) (.table middle) (.table above) :=
    hordered.mp (by rfl)
  exact ⟨hdistinct, ⟨rfl, ⟨.integer 5, rfl, rfl⟩, rfl⟩, hcovered, hlayers [below] [] (by rfl) hcovered⟩

/-- What a number has hidden stays hidden if the layers are merged one by one, and comes out again if
the two upper ones are merged beforehand. -/
theorem merge_regrouped :
    let below : Table := [("a", .table [("b", .integer 1)])]
    let middle : Table := [("a", .integer 5)]
    let above : Table := [("a", .table [("c", .integer 2)])]
    (∀ table ∈ [below, middle, above], (Value.table table).isDistinct = true) ∧
      merge (merge below middle) above = above ∧
      merge below (merge middle above) =
        [("a", .table [("b", .integer 1), ("c", .integer 2)])] ∧
      merge (merge below middle) above ≠ merge below (merge middle above) ∧
      ¬ (Value.table (merge (merge below middle) above)).Alike
        (.table (merge below (merge middle above))) := by
  intro below middle above
  have hfirst : merge (merge below middle) above = above := by rfl
  have hsecond : merge below (merge middle above) =
      [("a", .table [("b", .integer 1), ("c", .integer 2)])] := by rfl
  have hapart : ¬ (Value.table (merge (merge below middle) above)).Alike
      (.table (merge below (merge middle above))) := by
    intro halike
    rw [hfirst, hsecond, alike_table] at halike
    have hinner : (Value.table [("c", .integer 2)]).Alike
        (.table [("b", .integer 1), ("c", .integer 2)]) := Option.rel_some_some.mp (halike "a")
    cases alike_table.mp hinner "b"
  refine ⟨by decide, hfirst, hsecond, fun heq => hapart ?_, hapart⟩
  rw [heq]
  exact .refl _

end BuildHook.Toml
