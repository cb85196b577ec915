import BuildHook.Proofs.Aggregation
import BuildHook.Proofs.Encoding
import BuildHook.Proofs.Stages
import BuildHook.Proofs.Toml.RoundTrip

/-!
# The merged settings read back

The output of an aggregation is a document that says what the merged fragments say, whatever they
hold. Each fragment that was read is well formed, so what is merged from them can be written and
read back.
-/

namespace BuildHook.Defaults

open Run (exec)
open Toml (Table Value)

variable {s s' : Session} {folder root fragment : Path} {names : List String} {tables : List Table}
  {location : Location}

theorem parse_of_settings {table : Table} (h : s.settings fragment = .ok table) :
    ∃ text, Toml.parse text = .ok table := by
  obtain ⟨bytes, -, hrest⟩ := Run.result_bind_eq_ok.mp h
  obtain ⟨text, -, hparse⟩ := Run.result_bind_eq_ok.mp hrest
  exact ⟨Text.foldReturns text, Run.mapError_eq_ok.mp hparse⟩

theorem Holds.parsed (h : Holds s folder names tables) :
    ∀ table ∈ tables, ∃ text, Toml.parse text = .ok table := by
  induction h with
  | nil => exact List.forall_mem_nil _
  | cons hsettings _ ih => exact List.forall_mem_cons.mpr ⟨parse_of_settings hsettings, ih⟩

/-- Fragments that can be read hold tables that are well formed. -/
theorem Holds.wellFormed (h : Holds s folder names tables) :
    ∀ table ∈ tables, (Value.table table).WellFormed := by
  intro table hmem
  obtain ⟨text, hparse⟩ := h.parsed table hmem
  exact Toml.wellFormed_parse hparse

theorem settings_of_read {bytes : List UInt8} {text : List Char} {table : Table}
    (hread : Files.read s.tree s.current fragment = .ok bytes)
    (hdecode : Utf8.decode bytes = .ok text)
    (hparse : Toml.parse (Text.foldReturns text) = .ok table) :
    s.settings fragment = .ok table := by
  have hcontent : s.content (fun fault => .defaults (.unreadable fragment fault)) fragment =
      .ok bytes := by
    rw [Session.content, hread]
    rfl
  have htext : (Utf8.decode bytes).mapError Fault.undecodable = .ok text := by
    rw [hdecode]
    rfl
  exact Run.result_bind_eq_ok.mpr ⟨bytes, hcontent,
    Run.result_bind_eq_ok.mpr ⟨text, htext, Run.mapError_eq_ok.mpr hparse⟩⟩

/-- The output can be read again as soon as its path leads to it. -/
theorem readable_of_exec {output : Path} (h : exec (aggregate folder root) s = (.ok output, s')) :
    Files.isBarred (outputOf root) = false ∧ s'.current = s.current := by
  obtain ⟨_, tables, -, -, -, next, -, hcurrent, -, -, hrun⟩ := aggregate_eq_ok h
  obtain ⟨t', hsession, hresult⟩ :=
    exec_replaceFile (lastName_outputOf root) (contentOf tables) next
  rw [hrun] at hsession hresult
  obtain rfl : s' = next.withTree t' := hsession
  rcases hresult with ⟨-, hbarred, -⟩ | ⟨⟨cause, hfault, -⟩, -⟩
  · exact ⟨hbarred, hcurrent⟩
  · cases hfault

/-! ## The document -/

/-- What is merged from the settings of fragments, and could be written, reads back. -/
theorem Aggregated.writable (h : Aggregated s s' folder root names tables location) :
    (Value.table (Toml.mergeAll tables)).Writable :=
  ⟨Toml.wellFormed_mergeAll h.holds.wellFormed, (Toml.serialise_eq_ok.mp h.serialised).1⟩

/-- An aggregation that succeeds leaves a document behind that reads back as the merged settings of
its fragments. It is read so under the path of the output too, unless it has cut off the way to
itself. -/
theorem generate_reads_back {result : Option Path}
    (h : exec (generate (some folder) root) s = (.ok result, s')) :
    ∃ names tables place bytes text table,
      Lists s folder names ∧ Holds s folder names tables ∧
      Replaced s.current (outputOf root) bytes s.tree s'.tree place ∧
      Utf8.decode bytes = .ok text ∧ Toml.parse text = .ok table ∧
      (Value.table table).Alike (.table (Toml.mergeAll tables)) ∧
      (¬ CutsOff s.current (outputOf root) s.tree place →
        s'.settings (outputOf root) = .ok table) := by
  obtain ⟨output, hrun⟩ : ∃ output, exec (aggregate folder root) s = (.ok output, s') := by
    rw [generate, Run.exec_map] at h
    rcases hrun : exec (aggregate folder root) s with ⟨output, last⟩
    rw [hrun] at h
    obtain ⟨hresult, rfl⟩ := Prod.mk.inj h
    cases output with
    | error fault => cases hresult
    | ok output => exact ⟨output, rfl⟩
  obtain ⟨-, names, tables, place, haggregated⟩ := aggregated_of_exec hrun
  obtain ⟨hbarred, hcurrent⟩ := readable_of_exec hrun
  obtain ⟨table, hparse, halike⟩ := Toml.exists_parse_print haggregated.writable
  have hdecode := Utf8.decode_encode (Toml.print (Toml.mergeAll tables))
  refine ⟨names, tables, place, contentOf tables, Toml.print (Toml.mergeAll tables), table,
    haggregated.lists, haggregated.holds, haggregated.replaced, hdecode, hparse, halike,
    fun hleads => ?_⟩
  have hread : Files.read s'.tree s'.current (outputOf root) = .ok (contentOf tables) := by
    rw [Files.read, hbarred, hcurrent, haggregated.replaced.leads hleads]
    rfl
  refine settings_of_read hread hdecode ?_
  rw [Text.foldReturns_of_notMem (Toml.readsAs_print haggregated.writable).1]
  exact hparse

-- Two fragments that give the table `t` a spread array and an empty sub-table.
def nestedTree : Tree :=
  (sampleTree.put ["r", "x", "a.toml"] (.file (Utf8.ofString
    "x = nan\n[t]\nk = [\x7b \"\" = 1.5 \x7d]\n"))).put ["r", "d", "b.toml"] (.file (Utf8.ofString
    "[t.s]\n[[t.l]]\n\"a b\" = [\"\\u0000\"]\n"))

theorem generate_reads_back_nested :
    let s := Session.fresh nestedTree ["r"]
    ∃ result s', exec (generate (some sampleFolder) Path.here) s = (.ok result, s') ∧
      ∃ names tables place bytes text table,
        Lists s sampleFolder names ∧ Holds s sampleFolder names tables ∧
        Replaced s.current (outputOf Path.here) bytes s.tree s'.tree place ∧
        Utf8.decode bytes = .ok text ∧ Toml.parse text = .ok table ∧
        (Value.table table).Alike (.table (Toml.mergeAll tables)) ∧
        (¬ CutsOff s.current (outputOf Path.here) s.tree place →
          s'.settings (outputOf Path.here) = .ok table) := by
  intro s
  have hok : (exec (generate (some sampleFolder) Path.here) s).1.toOption.isSome = true := by
    decide +kernel
  generalize hrun : exec (generate (some sampleFolder) Path.here) s = run at hok
  obtain ⟨result, s'⟩ := run
  cases result with
  | ok result => exact ⟨result, s', rfl, generate_reads_back hrun⟩
  | error fault => cases hok

/-- Fragments have each key once, so that the laws of merging hold of what they hold. -/
theorem Holds.isDistinct (h : Holds s folder names tables) :
    ∀ table ∈ tables, (Value.table table).isDistinct = true := by
  intro table hmem
  obtain ⟨text, hparse⟩ := h.parsed table hmem
  exact Toml.isDistinct_parse hparse

/-- The document that an aggregation leaves behind holds a scalar at a place where a fragment does
and no later one holds anything there or a plain value on the way. -/
theorem Aggregated.document (h : Aggregated s s' folder root names tables location) :
    ∃ table, Toml.parse (Toml.print (Toml.mergeAll tables)) = .ok table ∧
      ∀ place ≠ [], ∀ value : Value, value.isScalar = true →
        ((Value.table table).at? place = some value ↔
          Toml.Settled tables (fun table => (Value.table table).at? place = some value)
            fun table => (∃ other, (Value.table table).at? place = some other) ∨
              (Value.table table).Cuts place) := by
  obtain ⟨table, hparse, halike⟩ := Toml.exists_parse_print h.writable
  refine ⟨table, hparse, fun place hplace value hscalar => ?_⟩
  rw [halike.at?_eq_scalar hscalar]
  exact Toml.at?_mergeAll_eq_plain h.holds.isDistinct hplace (Toml.isTable_of_isScalar hscalar)

end BuildHook.Defaults
