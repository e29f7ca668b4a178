import ObjectRelational.Proofs.Store.DatabaseOrder
import ObjectRelational.Proofs.Workspace.Run

/-!
# Loading a document

A document lists its databases, and a workspace keeps them by name: in the order of their names, and of
those of one name only the last one. A store is built from what the workspace keeps. As long as names are
different and databases that depend on each other are listed in the order of their names, that is rejected
exactly when the list of the document is.

* `InNameOrder`: databases that depend on each other are listed by their names.
* `Workspace.kept`: the databases of a list as a workspace keeps them. `Workspace.inSameOrder_kept`: those
  that depend on each other stay in their order.
* `Workspace.ofSource_eq`: the workspace of a document. `Workspace.rejected_iff_of_new`: what a first
  compilation rejects.
* `Workspace.loading_keeps_store_errors`: what is rejected of a document.
* `Workspace.not_all_store_errors_kept`: a document with two databases of one name.
-/

namespace ObjectRelational

/-! ## Databases by name -/

/-- Of two databases one of which depends on the other, the one whose name comes first is in front. -/
def InNameOrder (defaultSchema : String) (sources : List Source.Database) : Prop :=
  ∀ d ∈ sources, ∀ e ∈ sources, DependsOn defaultSchema sources d e →
    (e ∈ inFront sources d ↔ e.name.value < d.name.value)

/-- In front of a database are those whose names come before its own, if all are listed by name. -/
theorem mem_inFront_iff_lt {sources : List Source.Database} {d e : Source.Database}
    (hascending : (sources.map (·.name.value)).Pairwise (· < ·)) (hd : d ∈ sources) (he : e ∈ sources) :
    e ∈ inFront sources d ↔ e.name.value < d.name.value := by
  have hnames : DistinctNames sources := by
    refine List.nodup_iff_pairwise_ne.2 (hascending.imp ?_)
    rintro name _ hlt rfl
    exact String.lt_irrefl name hlt
  obtain ⟨pre, post, rfl⟩ := List.append_of_mem hd
  rw [inFront_append hnames]
  obtain ⟨-, hbehind, hfront⟩ := List.pairwise_append.1 (List.pairwise_map.1 hascending)
  refine ⟨fun he => hfront e he d List.mem_cons_self, fun hlt => ?_⟩
  rcases List.mem_append.1 he with he | he
  · exact he
  · rcases List.mem_cons.1 he with rfl | he
    · exact absurd hlt (String.lt_irrefl _)
    · have hgt := (List.pairwise_cons.1 hbehind).1 e he
      exact absurd (String.lt_trans hlt hgt) (String.lt_irrefl _)

namespace Workspace

/-- The databases of a list by name; of those of one name the last one. -/
def kept (sources : List Source.Database) : OrderedMap String Source.Database :=
  sources.foldl (fun m d => m.insert d.name.value d) .empty

/-- Databases of different names are all kept, in the order of their names. -/
theorem kept_of_distinctNames {sources : List Source.Database} (h : DistinctNames sources) :
    (kept sources).values.Perm sources ∧
      ((kept sources).values.map (·.name.value)).Pairwise (· < ·) := by
  obtain ⟨hperm, hkeys⟩ :=
    OrderedMap.perm_values_foldl_insert (f := fun d : Source.Database => d.name.value) h
  refine ⟨hperm, ?_⟩
  unfold kept
  rw [hkeys]
  exact OrderedMap.keys_ascending _

/-- Keeping them by name, databases that depend on each other stay in their order. -/
theorem inSameOrder_kept {defaultSchema : String} {sources : List Source.Database}
    (hnames : DistinctNames sources) (horder : InNameOrder defaultSchema sources) :
    InSameOrder defaultSchema sources (kept sources).values := by
  obtain ⟨hperm, hascending⟩ := kept_of_distinctNames hnames
  intro d hd e he hdepends
  rw [horder d hd e he hdepends]
  exact (mem_inFront_iff_lt hascending (hperm.mem_iff.2 hd) (hperm.mem_iff.2 he)).symm

/-! ## The workspace of a document -/

variable {settings : ResolutionSettings} {w : Workspace}

theorem foldl_upsertDatabase (w : Workspace) (sources : List Source.Database) :
    sources.foldl upsertDatabase w = { w with
      databases := sources.foldl (fun m d => m.insert d.name.value d) w.databases } := by
  induction sources generalizing w with
  | nil => rfl
  | cons d rest ih => exact ih (w.upsertDatabase d)

theorem foldl_upsertMapping (w : Workspace) (sources : List Source.Mapping) :
    sources.foldl upsertMapping w = { w with
      mappings := sources.foldl (fun m u => m.insert u.name.value u) w.mappings } := by
  induction sources generalizing w with
  | nil => rfl
  | cons u rest ih => exact ih (w.upsertMapping u)

/-- The workspace of a document keeps its sources by name, and has compiled nothing. -/
theorem ofSource_eq (settings : ResolutionSettings) (document : Source.Workspace) :
    ofSource settings document = {
      model := .ofDefinition document.model
      settings := settings
      databases := kept document.databases
      mappings := document.mappings.foldl (fun m u => m.insert u.name.value u) .empty } := by
  unfold ofSource
  dsimp only
  rw [foldl_upsertDatabase, foldl_upsertMapping]
  rfl

/-- Before anything is compiled, a compilation is rejected exactly when no store can be built. -/
theorem rejected_iff_of_new (h : w.snapshot.storeFingerprint = none) {failure : Failure} :
    w.compile.2 = .rejected failure ↔ Store.build w.settings w.databases.values = .error failure := by
  have hstore : w.buildStore = (Store.build w.settings w.databases.values).map fun store =>
      ⟨store, w.compilations + 1, w.storeFingerprint⟩ := by
    unfold buildStore
    rw [if_neg (by simp [h])]
  cases hbuild : Store.build w.settings w.databases.values with
  | error found =>
    rw [hbuild] at hstore
    rw [compile_of_buildStore_error hstore]
    simp
  | ok store =>
    rw [hbuild] at hstore
    rw [compile_of_buildStore hstore]
    simp

/-- Loading a document keeps the errors of its databases, if their names are different and those that depend
on each other are listed in the order of their names: either the list of the document is rejected, and so
is the first compilation, or neither is. -/
theorem loading_keeps_store_errors {document : Source.Workspace}
    (hnames : DistinctNames document.databases)
    (horder : InNameOrder settings.defaultSchema document.databases) :
    (∃ failure, Store.build settings document.databases = .error failure) ↔
      ∃ failure, (ofSource settings document).compile.2 = .rejected failure := by
  have hperm := (kept_of_distinctNames hnames).1
  have hsame := inSameOrder_kept hnames horder
  have hfirst : ∀ failure, (ofSource settings document).compile.2 = .rejected failure ↔
      Store.build settings (kept document.databases).values = .error failure := by
    intro failure
    rw [ofSource_eq]
    exact rejected_iff_of_new rfl
  simp only [hfirst]
  constructor
  · rintro ⟨failure, hfailure⟩
    cases hkept : Store.build settings (kept document.databases).values with
    | error found => exact ⟨found, rfl⟩
    | ok s =>
      obtain ⟨-, s', hs', -⟩ :=
        Store.exists_renumbers_of_build settings hperm.symm (hsame.symm hperm) hkept
      cases hfailure.symm.trans hs'
  · rintro ⟨failure, hfailure⟩
    cases hlisted : Store.build settings document.databases with
    | error found => exact ⟨found, rfl⟩
    | ok s =>
      obtain ⟨-, s', hs', -⟩ := Store.exists_renumbers_of_build settings hperm hsame hlisted
      cases hfailure.symm.trans hs'

/-- A document of two databases, the first of which includes one that there is not. -/
theorem loading_keeps_store_errors_of_missing :
    ∃ failure, (ofSource {} {
      databases := [{ name := ⟨"orders", {}⟩, includes := [⟨"products", {}⟩] },
        { name := ⟨"customers", {}⟩ }] }).compile.2 = .rejected failure := by
  refine (loading_keeps_store_errors (by simp [DistinctNames]) fun d hd e _ hdepends => ?_).1
    ⟨⟨.unknownIncludedDatabase "orders" "products", {}⟩, by with_unfolding_all rfl⟩
  -- nothing depends on anything, for want of joins and views
  have hnone : d.joinReferences = [] ∧ d.viewReferences = [] := by
    simp only [List.mem_cons, List.not_mem_nil, or_false] at hd
    rcases hd with rfl | rfl <;>
      simp [Source.Database.joinReferences, Source.Database.viewReferences]
  cases hdepends with
  | join reference hreference => simp [hnone.1] at hreference
  | view reference hreference => simp [hnone.2] at hreference

/-- A document with two databases of one name, of which the workspace keeps the last one. -/
def repeatedDatabase : Source.Workspace where
  databases := [{ name := ⟨"orders", {}⟩, schemas := [{ name := ⟨"default", {}⟩ }] },
    { name := ⟨"orders", {}⟩ }]

/-- That a name is given twice is not said of the databases that a workspace keeps. -/
theorem not_all_store_errors_kept :
    ¬ ∀ (settings : ResolutionSettings) (document : Source.Workspace) (failure : Failure),
      Store.build settings document.databases = .error failure →
        ∃ found, (ofSource settings document).compile.2 = .rejected found := by
  intro h
  obtain ⟨found, hfound⟩ := h {} repeatedDatabase
    ⟨.duplicate .database "orders" "the store model", {}⟩ (by with_unfolding_all rfl)
  rw [ofSource_eq, rejected_iff_of_new rfl] at hfound
  obtain ⟨s, hs⟩ : ∃ s, Store.build {} (kept repeatedDatabase.databases).values = .ok s :=
    Store.exists_of_isSome_toOption (by decide +kernel)
  cases hfound.symm.trans hs

end Workspace

end ObjectRelational
