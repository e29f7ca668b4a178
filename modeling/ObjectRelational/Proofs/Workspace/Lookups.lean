import ObjectRelational.Proofs.Mapping.Ids
import ObjectRelational.Proofs.Mapping.RootTable
import ObjectRelational.Proofs.Workspace.Bounds

/-!
# Looking mappings up in a snapshot

What a snapshot is asked for by an id or by a class it answers with the one mapping that is meant,
whatever was edited, compiled, kept or left as it was before.

* `Workspace.ids_unambiguous`: no id is taken twice in what a unit sees, and all lookups by id agree.
* `Workspace.roots_exact`: the table of roots has exactly the classes that are mapped; it can be made
  unless a class has several mappings of which not exactly one is marked.
-/

namespace ObjectRelational.Workspace

/-- In every unit of a snapshot ids are unambiguous: those of the class mappings with all their generated
parts, of the association mappings and of the enumeration mappings of the unit and of all it includes are
distinct; each of these is found under its id; and under the id of a class mapping the class mapping and
the relational mapping that is found show the same. -/
theorem ids_unambiguous (model : ObjectModel) (settings : ResolutionSettings) (actions : List Action) :
    ∀ name u, ((new model settings).run actions).snapshot.unit? name = some u → u.Unambiguous :=
  fun name u hu => (states_accepted model settings actions name u hu).unambiguous

/-- The table of roots of every unit of a snapshot has exactly the classes that the unit shows mappings
of, each with the only mapping or the only marked one, and the unit's own mappings are flagged as it says.
When the roots of a unit are resolved, this fails if some class has several mappings of which not exactly
one is marked; and what is reported are the counts of such a class, the least one in the order of bytes. -/
theorem roots_exact (model : ObjectModel) (settings : ResolutionSettings) (actions : List Action) :
    (∀ name u, ((new model settings).run actions).snapshot.unit? name = some u → u.HasExactRoots) ∧
    ∀ span own included,
      ((∃ failure, Roots.resolve span own included = .error failure) ↔
        ∃ className, Roots.Miscounted (Roots.candidates own included) className) ∧
      ∀ failure, Roots.resolve span own included = .error failure →
        ∃ className, Roots.Miscounted (Roots.candidates own included) className ∧
          (∀ other, Roots.Miscounted (Roots.candidates own included) other →
            className.toUTF8.data.toList ≤ other.toUTF8.data.toList) ∧
          let mappings := Roots.ofClass (Roots.candidates own included) className
          failure = ⟨.rootCount className mappings.length (mappings.filter (·.marked)).length,
            Roots.span span own className⟩ := by
  refine ⟨fun name u hu => (states_accepted model settings actions name u hu).hasExactRoots,
    fun span own included => ⟨Roots.resolve_error_iff, fun failure h => ?_⟩⟩
  obtain ⟨className, hcounted, hleast, hfailure⟩ := Roots.least_of_resolve_error h
  exact ⟨className, hcounted, fun other hother => le_iff_utf8_le.1 (hleast other hother), hfailure⟩

/-! ## A class that is mapped twice -/

/-- The class is mapped once more, in parts and with a mark, where its mapping is included. -/
def markedSource : Source.Mapping where
  name := ⟨"outer", {}⟩
  includes := [{ mapping := ⟨"inner", {}⟩ }]
  classMappings := [{
    className := ⟨"Class", {}⟩
    id := some ⟨"marked", {}⟩
    root := true
    body := .aggregationAware { mainTable := some ⟨⟨"A", {}⟩, none, ⟨"T", {}⟩⟩ }
      [⟨{}, { mainTable := some ⟨⟨"A", {}⟩, none, ⟨"T", {}⟩⟩ }, {}⟩] }]

/-- Both units are compiled. -/
def markedRun : List Action :=
  [.upsertDatabase tableDatabase, .upsertMapping includedSource, .upsertMapping markedSource, .compile]

/-- The included mapping, the marked one and its two parts have four ids, and each is found. -/
theorem ids_unambiguous_of_marked :
    let snapshot := ((new substitutedModel {}).run markedRun).snapshot
    ∃ u, snapshot.unit? "outer" = some u ∧
      (u.effectiveClassMappings.flatMap fun e => e.declared.ids) =
        ["marked", "marked_Main", "marked_Aggregate_0", "Class"] ∧ u.Unambiguous := by
  intro snapshot
  have hids : (snapshot.unit? "outer").map
      (fun u => u.effectiveClassMappings.flatMap fun e => e.declared.ids) =
        some ["marked", "marked_Main", "marked_Aggregate_0", "Class"] := by
    decide +kernel
  obtain ⟨u, hu, hlist⟩ := Option.map_eq_some_iff.1 hids
  exact ⟨u, hu, hlist, ids_unambiguous substitutedModel {} markedRun "outer" u hu⟩

/-- The marked mapping is the root. Without a mark there would be none: two mappings were counted, and
no mark. -/
theorem roots_exact_of_marked :
    let snapshot := ((new substitutedModel {}).run markedRun).snapshot
    ∃ u, snapshot.unit? "outer" = some u ∧ u.roots.entries = [("Class", "marked")] ∧
      u.HasExactRoots ∧
      ∃ failure, Roots.resolve {} includedSource.classMappings u.includes = .error failure ∧
        failure.fault = .rootCount "Class" 2 0 := by
  intro snapshot
  have hroots : (snapshot.unit? "outer").map
      (fun u => (u.roots.entries, Roots.candidates includedSource.classMappings u.includes)) =
        some ([("Class", "marked")], [⟨"Class", "Class", false⟩, ⟨"Class", "Class", false⟩]) := by
    decide +kernel
  obtain ⟨u, hu, hfound⟩ := Option.map_eq_some_iff.1 hroots
  obtain ⟨hentries, hcandidates⟩ := Prod.mk.inj hfound
  obtain ⟨hexact, hfailing⟩ := roots_exact substitutedModel {} markedRun
  obtain ⟨hfails, hreport⟩ := hfailing {} includedSource.classMappings u.includes
  have hcounted : ∀ className,
      Roots.Miscounted (Roots.candidates includedSource.classMappings u.includes) className ↔
        className = "Class" := by
    intro className
    by_cases hclass : "Class" = className
    · simp [hcandidates, Roots.Miscounted, Roots.ofClass, ← hclass]
    · simp [hcandidates, Roots.Miscounted, Roots.ofClass, hclass, Ne.symm hclass]
  obtain ⟨failure, hfailure⟩ := hfails.2 ⟨"Class", (hcounted _).2 rfl⟩
  obtain ⟨className, hclass, -, rfl⟩ := hreport failure hfailure
  obtain rfl := (hcounted _).1 hclass
  refine ⟨u, hu, hentries, hexact "outer" u hu, _, hfailure, ?_⟩
  simp [hcandidates, Roots.ofClass]

end ObjectRelational.Workspace
