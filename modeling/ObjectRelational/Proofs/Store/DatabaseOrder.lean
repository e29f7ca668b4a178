import ObjectRelational.Proofs.Store.Phases.Views

/-!
# Building databases in another order

A store is built from a list of databases, and in which order they are listed matters only for joins and
views that use those of other databases. As long as databases that depend on each other keep their order,
every other order of the list gives the same store, up to the handles.

* `Store.Renumbers`: one store is the other one under other handles.
* `Store.database_order_independent`: two orders of the same databases.
* `not_all_database_orders_accepted`: a database whose joins go along those of a database behind it.
-/

namespace ObjectRelational

/-! ## Usages -/

/-- The places that are collected for a symbol are those of its usages, in their order. -/
theorem Usages.spansOf_ofList (usages : List Usage) (symbol : Symbol) :
    (Usages.ofList usages).spansOf symbol =
      (usages.filter fun usage => usage.symbol = symbol).map (·.span) := by
  have hfold : ∀ (usages : List Usage) (m : Usages), (usages.foldl Usages.record m).spansOf symbol =
      m.spansOf symbol ++ (usages.filter fun usage => usage.symbol = symbol).map (·.span) := by
    intro usages
    induction usages with
    | nil => simp
    | cons usage rest ih =>
      intro m
      rw [List.foldl_cons, ih]
      by_cases hsame : usage.symbol = symbol
      · simp [Usages.spansOf, Usages.record, hsame]
      · have hne : symbol ≠ usage.symbol := fun h => hsame h.symm
        simp [Usages.spansOf, Usages.record, hsame, hne]
  simpa [Usages.ofList, Usages.spansOf] using hfold usages .empty

namespace Store

/-- One store is the other one under other handles, and a symbol is used at the same places, in any
order. -/
structure Renumbers (ρ : Renumbering) (s s' : Store) : Prop where
  database : ∀ id, s'.database? (ρ.database id) = (s.database? id).map (Database.renumber ρ)
  table : ∀ id, s'.table? (ρ.table id) = (s.table? id).map (Table.renumber ρ)
  join : ∀ id, s'.join? (ρ.join id) = (s.join? id).map (Join.renumber ρ)
  filter : ∀ id, s'.filter? (ρ.filter id) = (s.filter? id).map (Filter.renumber ρ)
  usages : ∀ symbol, (s'.usages.spansOf symbol).Perm (s.usages.spansOf symbol)

variable {ρ : Renumbering} {s s' start start' included included' : Store} {draft draft' : Draft}
  {defaultSchema : String} {sources sources' : List Source.Database}

theorem keptUsages_of_perm (settings : ResolutionSettings) {usages usages' : List Usage}
    (h : usages'.Perm usages) (symbol : Symbol) :
    ((keptUsages settings usages').spansOf symbol).Perm
      ((keptUsages settings usages).spansOf symbol) := by
  unfold keptUsages
  split
  · rw [Usages.spansOf_ofList, Usages.spansOf_ofList]
    exact (h.filter _).map _
  · exact .refl _

/-! ## From phase to phase -/

/-- Stores with the same databases and tables, under other handles, have the same names. -/
theorem sameNames_of_elements (hnames : DistinctNames sources) (hperm : sources'.Perm sources)
    (hρ : Carries ρ sources sources') (hs : Named sources s) (hs' : Named sources' s')
    (hdatabase : ∀ id, s'.database? (ρ.database id) = (s.database? id).map (Database.renumber ρ))
    (htable : ∀ id, s'.table? (ρ.table id) = (s.table? id).map (Table.renumber ρ)) :
    SameNames ρ s s' where
  size := by rw [hs'.length_eq, hs.length_eq, hperm.length_eq]
  databaseNamed := hs.databaseNamed?_eq hs' hnames hperm hρ
  database id := by
    rw [hdatabase, Option.map_map]
    rfl
  table id := by
    rw [htable, Option.map_map]
    rfl

/-- After the third phase the databases are the same. -/
theorem database?_eq_of_declared (hperm : sources'.Perm sources)
    (hdatabases : ∀ d ∈ sources, included'.database? (handleIn sources' d) =
      (included.database? (handleIn sources d)).map (Database.renumber ρ))
    (h : Declared sources included (entriesIn sources) (pendingIn sources) sources draft)
    (h' : Declared sources' included' (fun d => (entriesIn sources d).map (Schema.renumber ρ))
      (fun d => renumberPending ρ (pendingIn sources d)) sources' draft') :
    ∀ d ∈ sources, draft'.store.database? (handleIn sources' d) =
      (draft.store.database? (handleIn sources d)).map (Database.renumber ρ) := by
  intro d hd
  rw [h.declared d hd, h'.declared d (hperm.mem_iff.2 hd), hdatabases d hd]
  cases included.database? (handleIn sources d) <;> rfl

/-- Registering schemas keeps the includes. -/
theorem Declared.includesNamed {entries : Source.Database → List Schema}
    {pending : Source.Database → List (TableId × DatabaseId × Source.View)}
    (h : Declared sources included entries pending sources draft)
    (hincluded : Included sources included) : IncludesNamed sources draft.store := by
  intro d hd id hid
  refine hincluded.includes d hd id ?_
  unfold includesOf at hid ⊢
  rw [h.declared d hd] at hid
  cases hfound : included.database? (handleIn sources d) with
  | none => simp [hfound] at hid
  | some found => simpa [hfound] using hid

/-- After the third phase no joins and filters are registered. -/
theorem Declared.joinedBy {entries : Source.Database → List Schema}
    {pending : Source.Database → List (TableId × DatabaseId × Source.View)}
    (h : Declared sources included entries pending sources draft)
    (hincluded : Included sources included) : JoinedBy sources draft.store [] draft.store where
  keeps := .refl _
  tables := rfl
  joins := by simp [h.joins]
  filters := by simp [h.filters]
  registered := by
    intro d hd found hfound
    rw [h.declared d hd] at hfound
    obtain ⟨old, hold, rfl⟩ := Option.map_eq_some_iff.1 hfound
    obtain ⟨-, hjoins, hfilters⟩ := hincluded.empty old (List.mem_of_getElem? hold)
    exact ⟨by simp [hjoins], by simp [hfilters]⟩

/-- The fourth phase starts from the same stores. -/
theorem sameStart_of_declared (hnames : DistinctNames sources) (hperm : sources'.Perm sources)
    (hρ : Carries ρ sources sources') (horder : InSameOrder defaultSchema sources sources')
    (hincluded : Included sources included)
    (hdatabases : ∀ d ∈ sources, included'.database? (handleIn sources' d) =
      (included.database? (handleIn sources d)).map (Database.renumber ρ))
    (h : Declared sources included (entriesIn sources) (pendingIn sources) sources draft)
    (h' : Declared sources' included' (fun d => (entriesIn sources d).map (Schema.renumber ρ))
      (fun d => renumberPending ρ (pendingIn sources d)) sources' draft')
    (htables : ∀ d ∈ sources, tablesIn sources' draft'.store d =
      (tablesIn sources draft.store d).map (Table.renumber ρ)) :
    SameStart ρ defaultSchema sources sources' draft.store draft'.store := by
  have hdatabase := h.named.database?_eq h'.named hnames hperm hρ
    (database?_eq_of_declared hperm hdatabases h h')
  have htable : ∀ id, draft'.store.table? (ρ.table id) =
      (draft.store.table? id).map (Table.renumber ρ) := fun id =>
    hρ.tables.getElem?_eq hnames hperm h.length h'.length htables id.index
  exact {
    distinct := hnames
    perm := hperm
    carries := hρ
    inSameOrder := horder
    named := h.named
    includes := h.includesNamed hincluded
    names := sameNames_of_elements hnames hperm hρ h.named h'.named hdatabase htable
    table := htable }

/-- The last phase starts from the same stores. -/
theorem SameStart.sameJoined (h : SameStart ρ defaultSchema sources sources' start start')
    (hentries : ∀ d ∈ sources, ∀ found, start.database? (handleIn sources d) = some found →
      found.schemas = entriesIn sources d) (hnamed' : Named sources' start')
    (hs : JoinedBy sources start sources s) (hs' : JoinedBy sources' start' sources' s')
    (hshares : ∀ d ∈ sources, share sources' s' d = (share sources s d).renumber ρ) :
    SameJoined ρ defaultSchema sources sources' s s' where
  distinct := h.distinct
  perm := h.perm
  carries := h.carries
  inSameOrder := h.inSameOrder
  named := h.named.of_keepsNames hs.keeps
  includes := h.includes.of_keepsNames hs.keeps
  names := hs.keeps.sameNames hs'.keeps h.names
  table id := by
    have htable := h.table id
    unfold table? at htable ⊢
    rw [hs.tables, hs'.tables, htable]
  database := (h.named.of_keepsNames hs.keeps).database?_eq (hnamed'.of_keepsNames hs'.keeps)
    h.distinct h.perm h.carries fun d hd => congrArg Share.database (hshares d hd)
  join id := h.carries.joins.getElem?_eq h.distinct h.perm hs.joins hs'.joins
    (fun d hd => congrArg Share.joins (hshares d hd)) id.index
  filter id := h.carries.filters.getElem?_eq h.distinct h.perm hs.filters hs'.filters
    (fun d hd => congrArg Share.filters (hshares d hd)) id.index
  schemas := by
    intro d hd found hfound
    have hkept := hs.keeps.database?_eq (handleIn sources d)
    rw [hfound, Option.map_some] at hkept
    obtain ⟨old, hold, hbare⟩ := Option.map_eq_some_iff.1 hkept.symm
    rw [← hentries d hd old hold]
    exact (congrArg Database.schemas hbare).symm

/-- At the end the stores are the same up to the handles. -/
theorem SameJoined.renumbers (h : SameJoined ρ defaultSchema sources sources' start start')
    {pending pending' : Source.Database → List (TableId × DatabaseId × Source.View)}
    (hs : Defined sources start pending s) (hs' : Defined sources' start' pending' s')
    (hlength : start.tables.length = (sources.map (·.tableCount)).sum)
    (hlength' : start'.tables.length = (sources'.map (·.tableCount)).sum)
    (htables : ∀ d ∈ sources, tablesIn sources' s' d =
      (tablesIn sources s d).map (Table.renumber ρ)) {usages usages' : Usages}
    (husages : ∀ symbol, (usages'.spansOf symbol).Perm (usages.spansOf symbol)) :
    Renumbers ρ { s with usages := usages } { s' with usages := usages' } where
  database id := by
    have hdatabase := h.database id
    unfold database? at hdatabase ⊢
    rw [hs.databases, hs'.databases, hdatabase]
  table id := by
    have hkept : s.tables.length = start.tables.length := by
      simpa using congrArg List.length hs.keeps.tables
    have hkept' : s'.tables.length = start'.tables.length := by
      simpa using congrArg List.length hs'.keeps.tables
    exact h.carries.tables.getElem?_eq h.distinct h.perm (hkept.trans hlength)
      (hkept'.trans hlength') htables id.index
  join id := by
    have hjoin := h.join id
    unfold join? at hjoin ⊢
    rw [hs.joins, hs'.joins, hjoin]
  filter id := by
    have hfilter := h.filter id
    unfold filter? at hfilter ⊢
    rw [hs.filters, hs'.filters, hfilter]
  usages := husages

/-! ## All phases -/

/-- A build that is accepted has gone through its phases. -/
theorem exists_phases_of_build {settings : ResolutionSettings} (hbuild : build settings sources = .ok s) :
    ∃ included draft joined built, DistinctNames sources ∧
      (forEach addIncludes (registered sources) sources).result = .ok included ∧
      sources.zipIdx.foldlM addSchemas ⟨included, []⟩ = .ok draft ∧
      (forEach (addJoinsAndFilters settings.defaultSchema) draft.store sources).result = .ok joined ∧
      (draft.pendingViews.foldlM (Store.defineView settings.defaultSchema) joined).result =
        .ok built ∧
      s = { built with
        usages := keptUsages settings (assemble settings.defaultSchema sources).usages } := by
  obtain ⟨built, hbuilt, rfl⟩ := map_eq_ok_iff.1 hbuild
  unfold assemble at hbuilt
  simp only [Recorded.result_bind_eq_ok_iff, Recorded.result_monadLift] at hbuilt
  obtain ⟨_, hregistered, included, hincludes, draft, hdraft, joined, hjoins, hviews⟩ := hbuilt
  obtain ⟨hnames, rfl⟩ := foldlM_addDatabase_eq_ok_iff.1 hregistered
  exact ⟨included, draft, joined, built, hnames, hincludes, hdraft, hjoins, hviews, rfl⟩

/-- A build that comes to its last phase ends with it, and has recorded what its phases have. -/
theorem assemble_eq_of_phases {joined : Store} (hnames : DistinctNames sources)
    (hincludes : (forEach addIncludes (registered sources) sources).result = .ok included)
    (hschemas : sources.zipIdx.foldlM addSchemas ⟨included, []⟩ = .ok draft)
    (hjoins : (forEach (addJoinsAndFilters defaultSchema) draft.store sources).result = .ok joined) :
    assemble defaultSchema sources =
      ⟨(forEach addIncludes (registered sources) sources).usages ++
        ((forEach (addJoinsAndFilters defaultSchema) draft.store sources).usages ++
          (draft.pendingViews.foldlM (Store.defineView defaultSchema) joined).usages),
        (draft.pendingViews.foldlM (Store.defineView defaultSchema) joined).result⟩ := by
  have hregistered : (monadLift (sources.foldlM addDatabase {} : Resolved Store) :
      Recorded Store).result = .ok (registered sources) :=
    foldlM_addDatabase_eq_ok_iff.2 ⟨hnames, rfl⟩
  have hdraft : (monadLift (sources.zipIdx.foldlM addSchemas ⟨included, []⟩ : Resolved Draft) :
      Recorded Draft).result = .ok draft := hschemas
  unfold assemble
  refine Recorded.ext_result ?_ ?_
  · rw [Recorded.usages_bind hregistered, Recorded.usages_bind hincludes, Recorded.usages_bind hdraft,
      Recorded.usages_bind hjoins]
    rfl
  · rw [Recorded.result_bind hregistered, Recorded.result_bind hincludes, Recorded.result_bind hdraft,
      Recorded.result_bind hjoins]

/-- Databases that are accepted in one order are accepted in another one. -/
theorem exists_renumbers_of_build (settings : ResolutionSettings) (hperm : sources'.Perm sources)
    (horder : InSameOrder settings.defaultSchema sources sources')
    (hbuild : build settings sources = .ok s) :
    ∃ ρ s', build settings sources' = .ok s' ∧ Renumbers ρ s s' := by
  obtain ⟨included, draft, joined, built, hnames, hincludes, hdraft, hjoins, hviews, rfl⟩ :=
    exists_phases_of_build hbuild
  obtain ⟨ρ, hρ⟩ := exists_carries hnames hperm
  -- databases, includes and schemas, which depend on nothing in their own phase
  obtain ⟨included', hincludes', husages, hincluded, hincluded', hdatabases⟩ :=
    includes_of_perm hnames hperm hρ hincludes
  obtain ⟨draft', hdraft', hdeclared, hdeclared', htables⟩ :=
    schemas_of_perm hnames hperm hρ hincluded hincluded' hdraft
  have hstart := sameStart_of_declared hnames hperm hρ horder hincluded hdatabases hdeclared
    hdeclared' htables
  -- joins and filters
  have hshares : ∀ d ∈ sources,
      share sources' draft'.store d = (share sources draft.store d).renumber ρ := by
    intro d hd
    simp [share, Share.renumber, block, hdeclared.joins, hdeclared'.joins, hdeclared.filters,
      hdeclared'.filters, database?_eq_of_declared hperm hdatabases hdeclared hdeclared' d hd]
  obtain ⟨joined', hjoins', husagesJoins, hjoined, hjoined', hshares⟩ := hstart.joins_of_perm
    (hdeclared.joinedBy hincluded) (hdeclared'.joinedBy hincluded') hshares hjoins
  have hentries : ∀ d ∈ sources, ∀ found,
      draft.store.database? (handleIn sources d) = some found → found.schemas = entriesIn sources d := by
    intro d hd found hfound
    rw [hdeclared.declared d hd] at hfound
    obtain ⟨old, -, rfl⟩ := Option.map_eq_some_iff.1 hfound
    rfl
  have hsame := hstart.sameJoined hentries hdeclared'.named hjoined hjoined' hshares
  -- views
  rw [hdeclared.pendingViews] at hviews
  have htablesJoined : ∀ d ∈ sources,
      tablesIn sources' joined' d = (tablesIn sources joined d).map (Table.renumber ρ) := by
    intro d hd
    simpa only [tablesIn, hjoined.tables, hjoined'.tables] using htables d hd
  obtain ⟨built', hviews', husagesViews, hdefined, hdefined', htables⟩ :=
    hsame.views_of_perm htablesJoined hviews
  rw [← hdeclared'.pendingViews] at hviews' husagesViews
  rw [← hdeclared.pendingViews] at husagesViews
  -- the phases together
  have hassemble := assemble_eq_of_phases hnames hincludes hdraft hjoins
  have hassemble' := assemble_eq_of_phases (hnames.of_perm hperm) hincludes' hdraft' hjoins'
  refine ⟨ρ, _, map_eq_ok_iff.2 ⟨built', by rw [hassemble', hviews'], rfl⟩, ?_⟩
  refine hsame.renumbers hdefined hdefined' (hjoined.tables ▸ hdeclared.length)
    (hjoined'.tables ▸ hdeclared'.length) htables (keptUsages_of_perm settings ?_)
  rw [hassemble, hassemble']
  exact husages.append (husagesJoins.append husagesViews)

/-- Two lists of the same databases, in which databases that depend on each other are in the same order:
either both are accepted, and then the stores are the same up to the handles, or neither is. -/
theorem database_order_independent (settings : ResolutionSettings)
    (sources sources' : List Source.Database) (hperm : sources'.Perm sources)
    (horder : InSameOrder settings.defaultSchema sources sources') :
    ((∃ s, build settings sources = .ok s) ↔ ∃ s', build settings sources' = .ok s') ∧
      ∀ s s', build settings sources = .ok s → build settings sources' = .ok s' →
        ∃ ρ, Renumbers ρ s s' := by
  refine ⟨⟨fun ⟨s, hs⟩ => ?_, fun ⟨s', hs'⟩ => ?_⟩, fun s s' hs hs' => ?_⟩
  · obtain ⟨_, s', hs', -⟩ := exists_renumbers_of_build settings hperm horder hs
    exact ⟨s', hs'⟩
  · obtain ⟨_, s, hs, -⟩ := exists_renumbers_of_build settings hperm.symm (horder.symm hperm) hs'
    exact ⟨s, hs⟩
  · obtain ⟨ρ, found, hfound, hrenumbers⟩ := exists_renumbers_of_build settings hperm horder hs
    obtain rfl := Except.ok.inj (hs'.symm.trans hfound)
    exact ⟨ρ, hrenumbers⟩

/-! ## Databases of persons and firms -/

/-- A column of a table of the example, in the condition of a join. -/
def exampleColumn (table column : String) : Source.Operation :=
  .column { table := ⟨table, {}⟩, column := ⟨column, {}⟩ }

/-- Persons and their firms, with a join from the ones to the others. -/
def employmentTables : Source.Database where
  name := ⟨"employment", {}⟩
  schemas := [{
    name := ⟨"default", {}⟩
    tables := [
      { name := ⟨"PERSON", {}⟩, columns := [⟨⟨"FIRM_ID", {}⟩, .integer, true, false⟩] },
      { name := ⟨"FIRM", {}⟩, columns := [⟨⟨"ID", {}⟩, .integer, true, false⟩] }] }]
  joins := [⟨⟨"employer", {}⟩, .function ⟨"equal", {}⟩
    [exampleColumn "PERSON" "FIRM_ID", exampleColumn "FIRM" "ID"], {}⟩]

/-- A database that includes another one, and declares a join whose condition goes along one of it. -/
def extendedEmployment : Source.Database where
  name := ⟨"contracts", {}⟩
  includes := [⟨"employment", {}⟩]
  joins := [⟨⟨"contract", {}⟩, .function ⟨"equal", {}⟩
    [exampleColumn "PERSON" "FIRM_ID", exampleColumn "FIRM" "ID",
      .joinPath [{ name := ⟨"employer", {}⟩ }] (some (exampleColumn "FIRM" "ID"))], {}⟩]

/-- A database of one table, which no other one uses. -/
def cityTables : Source.Database where
  name := ⟨"cities", {}⟩
  schemas := [{ name := ⟨"default", {}⟩, tables := [{ name := ⟨"CITY", {}⟩ }] }]

/-- Whether a build is accepted can be decided without its store at hand. -/
theorem exists_of_isSome_toOption {settings : ResolutionSettings}
    (h : (build settings sources).toOption.isSome) : ∃ s, build settings sources = .ok s := by
  cases hbuild : build settings sources with
  | error failure => simp [hbuild, Except.toOption] at h
  | ok s => exact ⟨s, rfl⟩

/-- A database that no other one uses may be listed anywhere. -/
theorem database_order_independent_of_cities :
    ∃ s s' ρ, build {} [employmentTables, extendedEmployment, cityTables] = .ok s ∧
      build {} [cityTables, employmentTables, extendedEmployment] = .ok s' ∧ Renumbers ρ s s' := by
  obtain ⟨s, hbuild⟩ : ∃ s, build {} [employmentTables, extendedEmployment, cityTables] = .ok s :=
    exists_of_isSome_toOption (by decide +kernel)
  have hperm : [cityTables, employmentTables, extendedEmployment].Perm
      [employmentTables, extendedEmployment, cityTables] :=
    (List.Perm.swap _ _ _).trans ((List.Perm.swap _ _ _).cons _)
  have horder : InSameOrder "default" [employmentTables, extendedEmployment, cityTables]
      [cityTables, employmentTables, extendedEmployment] := by
    intro d hd e he hdepends
    -- the database of cities depends on none, and none depends on it
    have hcity : cityTables.joinReferences = [] ∧ cityTables.viewReferences = [] ∧
        cityTables.joins = [] ∧ ∀ s ∈ cityTables.schemas, s.views = [] := by
      simp [Source.Database.joinReferences, Source.Database.viewReferences, cityTables]
    have hne : d ≠ cityTables ∧ e ≠ cityTables := by
      cases hdepends with
      | join reference hreference _ hdeclares =>
        refine ⟨fun hsame => ?_, fun hsame => ?_⟩
        · simp [hsame, hcity.1] at hreference
        · simp [hsame, hcity.2.2.1] at hdeclares
      | view reference hreference _ hdeclares =>
        obtain ⟨schema, hschema, -, view, hview, -⟩ := hdeclares
        refine ⟨fun hsame => ?_, fun hsame => ?_⟩
        · simp [hsame, hcity.2.1] at hreference
        · rw [hcity.2.2.2 schema (hsame ▸ hschema)] at hview
          cases hview
    simp only [List.mem_cons, List.not_mem_nil, or_false, hne.1] at hd
    rcases hd with rfl | rfl
    · have hfront : inFront [employmentTables, extendedEmployment, cityTables] employmentTables = [] ∧
        inFront [cityTables, employmentTables, extendedEmployment] employmentTables =
          [cityTables] := ⟨rfl, rfl⟩
      simp [hfront, hne.2]
    · have hfront : inFront [employmentTables, extendedEmployment, cityTables] extendedEmployment =
          [employmentTables] ∧
        inFront [cityTables, employmentTables, extendedEmployment] extendedEmployment =
          [cityTables, employmentTables] := ⟨rfl, rfl⟩
      simp [hfront, hne.2]
  obtain ⟨haccept, hsame⟩ := database_order_independent {} _ _ hperm horder
  obtain ⟨s', hs'⟩ := haccept.1 ⟨s, hbuild⟩
  obtain ⟨ρ, hρ⟩ := hsame s s' hbuild hs'
  exact ⟨s, s', ρ, hbuild, hs', hρ⟩

/-- In front of the database that it includes, the database whose join goes along one of that database is
not accepted. -/
theorem not_all_database_orders_accepted :
    ¬ ∀ (settings : ResolutionSettings) (sources sources' : List Source.Database),
      DistinctNames sources → sources'.Perm sources →
      ((∃ s, build settings sources = .ok s) ↔ ∃ s', build settings sources' = .ok s') ∧
        ∀ s s', build settings sources = .ok s → build settings sources' = .ok s' →
          ∃ ρ, Renumbers ρ s s' := by
  intro h
  have hbuild : ∃ s, build {} [employmentTables, extendedEmployment] = .ok s :=
    exists_of_isSome_toOption (by decide +kernel)
  have hfails : build {} [extendedEmployment, employmentTables] =
      .error ⟨.unknownJoin "employer" "contracts", {}⟩ := by
    with_unfolding_all rfl
  have hnames : DistinctNames [employmentTables, extendedEmployment] := by
    simp [DistinctNames, employmentTables, extendedEmployment]
  obtain ⟨s', hs'⟩ := (h {} [employmentTables, extendedEmployment]
    [extendedEmployment, employmentTables] hnames (.swap _ _ _)).1.1 hbuild
  rw [hfails] at hs'
  cases hs'

end Store

end ObjectRelational
