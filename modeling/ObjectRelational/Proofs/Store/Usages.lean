import ObjectRelational.Proofs.Store.Addressing
import ObjectRelational.Proofs.Store.Occurrences
import ObjectRelational.Proofs.Store.Registration

/-!
# What building a store records

A build records the names in the sources of a store, phase by phase: those of included databases, those in the
conditions of joins and filters, and those in views. A name is looked up while joins and filters are still to
be registered; it denotes what it denotes in the store that is built, where only the joins in front are seen.

* `Usages.references`: usages as a list. `Usages.perm_references_ofList`: it is what was collected.
* `Store.writtenUsages`: the usages that the names in the sources of a store are.
* `Store.Before`: a store in the making, and the store that it becomes. `Store.Before.agrees`: names are looked
  up in the one as they are read from a perspective on the other.
* `Store.Registers`: what registering joins and filters comes to. `Store.registers_foldlM`: step by step.
* `Store.usages_assemble`: a build records phase by phase.
* `Store.perm_writtenUsages`: a store that is built has recorded the names in its sources, each once.
-/

namespace ObjectRelational

/-! ## References -/

/-- The references of all symbols. -/
def Usages.references (usages : Usages) : List Usage :=
  usages.entries.flatMap fun entry => entry.2.map (Usage.mk entry.1)

/-- A place that is added to those of its symbol is one more reference. -/
theorem OrderedMap.perm_insertEntry (symbol : Symbol) (span : Span) {l : List (Symbol × List Span)}
    (h : l.Pairwise fun a b => a.1 < b.1) :
    ((insertEntry symbol ((l.lookup symbol).getD [] ++ [span]) l).flatMap fun entry =>
      entry.2.map (Usage.mk entry.1)).Perm
        ((l.flatMap fun entry => entry.2.map (Usage.mk entry.1)) ++ [⟨symbol, span⟩]) := by
  induction l with
  | nil => exact .refl _
  | cons entry rest ih =>
    rcases List.pairwise_cons.1 h with ⟨hhead, hrest⟩
    unfold insertEntry
    split
    · -- the symbol comes before all others, so that it is new
      rename_i hlt
      have hnone : (entry :: rest).lookup symbol = none := by
        refine List.lookup_eq_none_iff.2 fun other hother => bne_iff_ne.2 ?_
        rintro rfl
        rcases List.mem_cons.1 hother with rfl | hother
        · exact KeyOrder.irrefl _ hlt
        · exact KeyOrder.irrefl _ (KeyOrder.trans _ _ _ hlt (hhead other hother))
      rw [hnone]
      rw [Option.getD_none, List.nil_append, List.flatMap_cons]
      exact List.perm_append_comm
    · split
      · rename_i hgt
        have hne : symbol ≠ entry.1 := by
          rintro rfl
          exact KeyOrder.irrefl _ hgt
        rw [lookup_cons_eq, if_neg hne, List.flatMap_cons, List.flatMap_cons, List.append_assoc]
        exact (ih hrest).append_left _
      · rename_i hnlt hngt
        have hsame : symbol = entry.1 := KeyOrder.connected _ _ hnlt hngt
        rw [lookup_cons_eq, if_pos hsame, Option.getD_some, List.flatMap_cons, List.flatMap_cons,
          List.map_append, hsame, List.append_assoc, List.append_assoc]
        exact List.perm_append_comm.append_left _

theorem Usages.perm_references_record (usages : Usages) (usage : Usage) :
    (usages.record usage).references.Perm (usages.references ++ [usage]) :=
  OrderedMap.perm_insertEntry usage.symbol usage.span usages.ascending

/-- What is collected is all that was recorded. -/
theorem Usages.perm_references_ofList (recorded : List Usage) :
    (Usages.ofList recorded).references.Perm recorded := by
  have hfold : ∀ (recorded : List Usage) (usages : Usages),
      (recorded.foldl Usages.record usages).references.Perm (usages.references ++ recorded) := by
    intro recorded
    induction recorded with
    | nil =>
      intro usages
      rw [List.append_nil]
      exact .refl _
    | cons usage rest ih =>
      intro usages
      have hfirst := (usages.perm_references_record usage).append_right rest
      rw [List.append_assoc, List.singleton_append] at hfirst
      exact (ih _).trans hfirst
  exact hfold recorded .empty

/-! ## What is written in the sources of a store -/

/-- The items of a list, each with the size of all items in front of it, counted on from a number. -/
def countFrom {α : Type} (size : α → Nat) : Nat → List α → List (α × Nat)
  | _, [] => []
  | n, a :: rest => (a, n) :: countFrom size (n + size a) rest

section CountFrom

variable {α : Type}

theorem countFrom_one (n : Nat) (l : List α) : countFrom (fun _ => 1) n l = l.zipIdx n := by
  induction l generalizing n with
  | nil => rfl
  | cons a rest ih => rw [countFrom, ih, List.zipIdx_cons]

theorem countFrom_zero (n : Nat) (l : List α) : countFrom (fun _ => 0) n l = l.map (·, n) := by
  induction l with
  | nil => rfl
  | cons a rest ih => rw [countFrom, Nat.add_zero, ih, List.map_cons]

theorem flatMap_countFrom {β : Type} (f : α → List β) (size : α → Nat) (n : Nat) (l : List α) :
    ((countFrom size n l).flatMap fun a => f a.1) = l.flatMap f := by
  induction l generalizing n with
  | nil => rfl
  | cons a rest ih => rw [countFrom, List.flatMap_cons, ih, List.flatMap_cons]

end CountFrom

namespace Store

variable {s t u : Store} {database : DatabaseId} {defaultSchema : String}

/-- What is seen from a database of the store when some joins are registered. -/
def perspective (t : Store) (defaultSchema : String) (database : DatabaseId) (joins : Nat) :
    Perspective where
  store := t
  database := some database
  defaultSchema := defaultSchema
  joins := joins

/-- The usages that the names in the includes of a database are. -/
def includeUsages (t : Store) (defaultSchema : String) (d : Source.Database × Nat) :
    List (Option Usage) :=
  (t.perspective defaultSchema ⟨d.2⟩ 0).usages (d.1.includes.map .database)

/-- The usages that the names in the conditions of a database are. A join goes along joins in front of it
only, and a filter along those of its own database too; `joins` are those in front of the database. -/
def conditionUsages (t : Store) (defaultSchema : String) (joins : Nat)
    (d : Source.Database × Nat) : List (Option Usage) :=
  (d.1.joins.zipIdx joins).flatMap (fun join =>
      (t.perspective defaultSchema ⟨d.2⟩ join.2).usages join.1.occurrences) ++
    d.1.filters.flatMap fun filter =>
      (t.perspective defaultSchema ⟨d.2⟩ (joins + d.1.joins.length)).usages filter.occurrences

/-- The usages that the names in a view of a database are. -/
def viewUsages (t : Store) (defaultSchema : String) (view : DatabaseId × Source.View) :
    List (Option Usage) :=
  (t.perspective defaultSchema view.1 t.joins.length).usages view.2.occurrences

/-- The views of a database. -/
def viewsOf (d : Source.Database × Nat) : List (DatabaseId × Source.View) :=
  (d.1.schemas.flatMap (·.views)).map (DatabaseId.mk d.2, ·)

/-- The usages that the names in the sources of a store are, database by database. -/
def writtenUsages (t : Store) (defaultSchema : String) (sources : List Source.Database) :
    List (Option Usage) :=
  (countFrom (fun d : Source.Database × Nat => d.1.joins.length) 0 sources.zipIdx).flatMap fun d =>
    t.includeUsages defaultSchema d.1 ++ (t.conditionUsages defaultSchema d.2 d.1 ++
      (viewsOf d.1).flatMap (t.viewUsages defaultSchema))

/-! ## Stores in the making -/

/-- What a lookup finds is declared by the nearest database that declares something of the name. -/
theorem exists_declarer_of_findVisible? {α : Type} {declared : Database → Option α} {a : α}
    (h : s.findVisible? database declared = some a) :
    ∃ owner d, s.database? owner = some d ∧ declared d = some a ∧
      (s.findVisible? database fun d => (declared d).map fun _ => d.name) = some d.name := by
  unfold findVisible? at h ⊢
  rcases List.findSome?_eq_some_iff.1 h with ⟨front, owner, back, hsplit, hfound, hfront⟩
  rcases Option.bind_eq_some_iff.1 hfound with ⟨d, hd, ha⟩
  refine ⟨owner, d, hd, ha, List.findSome?_eq_some_iff.2 ⟨front, owner, back, hsplit, ?_, ?_⟩⟩
  · rw [hd, Option.bind_some, ha, Option.map_some]
  · intro nearer hnearer
    have hnone := hfront nearer hnearer
    cases hdatabase : s.database? nearer with
    | none => rfl
    | some other =>
      rw [hdatabase, Option.bind_some] at hnone
      rw [Option.bind_some, hnone, Option.map_none]

theorem databaseName_of_database? {id : DatabaseId} {d : Database} (h : s.database? id = some d) :
    s.databaseName id = d.name := by
  rw [databaseName, h]

/-- In stores of the same names a lookup finds the same when each database declares the same. -/
theorem KeepsNames.findVisible?_eq {α : Type} (h : KeepsNames s t) {f g : Database → Option α}
    (hsame : ∀ owner d d', s.database? owner = some d → t.database? owner = some d' →
      d'.name = d.name → d'.schemas = d.schemas → g d' = f d) :
    t.findVisible? database g = s.findVisible? database f := by
  unfold findVisible?
  rw [h.visibleDatabases_eq]
  refine congrArg (List.findSome? · (s.visibleDatabases database)) (funext fun owner => ?_)
  have hbare := h.database?_eq owner
  cases hd : s.database? owner with
  | none =>
    rw [hd, Option.map_none, Option.map_eq_none_iff] at hbare
    rw [hbare, Option.bind_none, Option.bind_none]
  | some d =>
    rw [hd, Option.map_some, Option.map_eq_some_iff] at hbare
    rcases hbare with ⟨d', hd', hbare⟩
    have hname : d'.bare.name = d.bare.name := congrArg Database.name hbare
    have hschemas : d'.bare.schemas = d.bare.schemas := congrArg Database.schemas hbare
    rw [hd', Option.bind_some, Option.bind_some]
    exact hsame owner d d' hd hd' hname hschemas

/-- The store becomes the other one by registering joins and filters and by defining views. -/
structure Before (s t : Store) : Prop where
  keeps : KeepsNames s t
  joins : s.joins <+: t.joins
  filters : s.filters <+: t.filters

namespace Before

theorem refl (s : Store) : s.Before s := ⟨.refl s, List.prefix_refl _, List.prefix_refl _⟩

theorem trans (h : s.Before t) (h' : t.Before u) : s.Before u :=
  ⟨h.keeps.trans h'.keeps, h.joins.trans h'.joins, h.filters.trans h'.filters⟩

/-- A database that is addressed now is the one that is addressed in the store that is to come. -/
theorem addressed?_eq_some (h : s.Before t) {joins : Nat} {marker : Option Name} {id : DatabaseId}
    (hid : (s.resolverIn defaultSchema database).lookupAddressed marker = .ok id) :
    (t.perspective defaultSchema database joins).addressed? marker = some id := by
  cases marker with
  | none =>
    rcases Except.ok.inj hid with rfl
    rfl
  | some name =>
    unfold Resolver.lookupAddressed Resolver.lookupDatabase at hid
    dsimp only at hid
    split at hid
    · rename_i found hfound
      rcases Except.ok.inj hid with rfl
      exact (h.keeps.databaseNamed?_eq name.value).trans hfound
    · exact absurd hid (found_ne_ok _ _ _)

/-- A table is declared by the database that its symbol names. -/
theorem tableDeclarer?_eq_some (h : s.Before t) (hs : s.Cataloged) {joins : Nat}
    {marker schema : Option Name} {table : Name} {found : TableAlias}
    (hfound : (s.resolverIn defaultSchema database).lookupTable marker schema table = .ok found) :
    ∃ owner, (t.perspective defaultSchema database joins).tableDeclarer? marker schema table =
        some owner ∧
      s.tableSymbol found.table =
        .table owner ((schema.map (·.value)).getD defaultSchema) table.value ∧
      ∀ column, s.columnSymbol found.table column =
        .column owner ((schema.map (·.value)).getD defaultSchema) table.value column := by
  rcases Resolver.findTable?_of_lookupTable hfound with ⟨id, hid, hlooked⟩
  rcases exists_declarer_of_findVisible? hlooked with ⟨owner, d, hd, hdeclared, hname⟩
  rcases (hs.finds.table owner d hd _ _ _).1 hdeclared with ⟨own, hown, hdatabase, hschema, htable⟩
  have hown : s.table? found.table = some own := hown
  have howner : s.databaseName own.database = d.name := by
    rw [hdatabase]
    exact databaseName_of_database? hd
  refine ⟨d.name, ?_, ?_, fun column => ?_⟩
  · rw [Perspective.tableDeclarer?, Perspective.declarer?, h.addressed?_eq_some hid,
      Option.bind_some]
    refine (h.keeps.findVisible?_eq fun _ d d' _ _ hsame hschemas => ?_).trans hname
    simp only [Database.schema?, hschemas, hsame]
    rfl
  · simp only [tableSymbol, hown, howner, hschema, htable]
    rfl
  · simp only [columnSymbol, hown, howner, hschema, htable]
    rfl

theorem joinNamed_iff (h : s.Before t) {d : DatabaseId} {name : String} {id : JoinId} :
    s.JoinNamed d name id ↔ t.JoinNamed d name id ∧ id.index < s.joins.length := by
  rcases h.joins with ⟨more, hmore⟩
  unfold JoinNamed join?
  rw [← hmore]
  constructor
  · rintro ⟨j, hj, hrest⟩
    rcases List.getElem?_eq_some_iff.1 hj with ⟨hlt, -⟩
    exact ⟨⟨j, (List.getElem?_append_left hlt).trans hj, hrest⟩, hlt⟩
  · rintro ⟨⟨j, hj, hrest⟩, hlt⟩
    exact ⟨j, (List.getElem?_append_left hlt).symm.trans hj, hrest⟩

/-- The joins that are registered now are found among those that are to come. -/
theorem lookup_joins (h : s.Before t) (hs : s.Cataloged) (ht : t.Cataloged) {owner : DatabaseId}
    {d d' : Database} (hd : s.database? owner = some d) (hd' : t.database? owner = some d')
    (name : String) :
    ((d'.joins.lookup name).filter fun id => id.index < s.joins.length) = d.joins.lookup name := by
  refine Option.ext fun id => ?_
  rw [Option.filter_eq_some_iff, decide_eq_true_iff, ht.finds.join owner d' hd',
    hs.finds.join owner d hd, h.joinNamed_iff]

/-- Names are looked up as they are read from the perspective on the store that is to come. -/
theorem agrees (h : s.Before t) (hs : s.Cataloged) (ht : t.Cataloged) (defaultSchema : String)
    (database : DatabaseId) (far : Option Source.ColumnReference) :
    (s.resolverIn defaultSchema database).Agrees
      (t.perspective defaultSchema database s.joins.length) far where
  database {name id} hid := by
    have hfound : (t.perspective defaultSchema database s.joins.length).addressed? (some name) =
        some id := h.addressed?_eq_some hid
    exact congrArg (Option.map fun _ => Symbol.database name.value) hfound
  table hfound := by
    rcases h.tableDeclarer?_eq_some hs hfound with ⟨owner, howner, hsymbol, -⟩
    rw [Occurrence.symbol?, howner, Option.map_some]
    exact congrArg some hsymbol.symm
  column column hfound := by
    rcases h.tableDeclarer?_eq_some hs hfound with ⟨owner, howner, -, hsymbol⟩
    rw [Occurrence.symbol?, howner, Option.map_some]
    exact congrArg some (hsymbol column.value).symm
  join {reference id join addressed} hfound := by
    rcases Resolver.lookupJoin_eq_ok_iff.1 hfound with ⟨haddressed, hnamed, hjoin⟩
    rcases exists_declarer_of_findVisible? hnamed with ⟨owner, d, hd, hdeclared, hname⟩
    rcases (hs.finds.join owner d hd _ _).1 hdeclared with ⟨own, hown, hdatabase, hjoinName⟩
    obtain rfl : own = join := Option.some.inj (hown.symm.trans hjoin)
    have hdeclarer : (t.perspective defaultSchema database s.joins.length).declarer?
        reference.database (fun d => (d.joins.lookup reference.name.value).filter fun id =>
          id.index < (t.perspective defaultSchema database s.joins.length).joins) =
        some d.name := by
      rw [Perspective.declarer?, h.addressed?_eq_some haddressed, Option.bind_some]
      refine (h.keeps.findVisible?_eq fun owner d d' hd hd' hsame _ => ?_).trans hname
      rw [hsame]
      exact congrArg (Option.map fun _ => d.name) (h.lookup_joins hs ht hd hd' reference.name.value)
    have howner : s.databaseName own.database = d.name := by
      rw [hdatabase]
      exact databaseName_of_database? hd
    rw [Occurrence.symbol?, hdeclarer, Option.map_some, hjoinName]
    exact congrArg some (congrArg (Symbol.join · _) howner.symm)
  farSide target htarget := by cases htarget

/-- When all filters are registered, they are looked up as they are read. -/
theorem agreesOnFilters (h : s.Before t) (hs : s.Cataloged) (ht : t.Cataloged)
    (hfilters : s.filters = t.filters) (joins : Nat) (defaultSchema : String) (database : DatabaseId) :
    (s.resolverIn defaultSchema database).AgreesOnFilters
      (t.perspective defaultSchema database joins) := by
  intro marker name addressed id found haddressed hnamed hfound
  rcases exists_declarer_of_findVisible? hnamed with ⟨owner, d, hd, hdeclared, hname⟩
  rcases (hs.finds.filter owner d hd _ _).1 hdeclared with ⟨own, hown, hdatabase, -⟩
  obtain rfl : own = found := Option.some.inj (hown.symm.trans hfound)
  have hdeclarer : (t.perspective defaultSchema database joins).declarer? marker
      (fun d => d.filters.lookup name.value) = some d.name := by
    rw [Perspective.declarer?, h.addressed?_eq_some haddressed, Option.bind_some]
    refine (h.keeps.findVisible?_eq fun owner d d' hd hd' hsame _ => ?_).trans hname
    have hlookup : d'.filters.lookup name.value = d.filters.lookup name.value := by
      refine Option.ext fun id => ?_
      rw [ht.finds.filter owner d' hd', hs.finds.filter owner d hd, FilterNamed, FilterNamed, filter?,
        filter?, hfilters]
    rw [hlookup, hsame]
  have howner : s.databaseName own.database = d.name := by
    rw [hdatabase]
    exact databaseName_of_database? hd
  rw [Occurrence.symbol?, hdeclarer, Option.map_some]
  exact congrArg some (congrArg (Symbol.filter · _) howner.symm)

end Before

open Recorded

/-! ## Includes -/

theorem SameDatabases.databaseNamed?_eq (h : s.SameDatabases t) (name : String) :
    t.databaseNamed? name = s.databaseNamed? name := by
  have hnames : ∀ s : Store, s.databases.findIdx? (fun d => d.name = name) =
      (s.databases.map (·.name)).findIdx? fun found => found = name := by
    intro s
    rw [List.findIdx?_map]
    rfl
  unfold databaseNamed?
  rw [hnames, hnames, h]

theorem resolveIncludes_records (h : s.SameDatabases t) (p : Perspective) (hp : p.store = t) (owner : Name)
    (found : List DatabaseId) (names : List Name) :
    (s.resolveIncludes owner found names).Records (p.usages (names.map .database)) := by
  induction names generalizing found with
  | nil => exact records_pure found
  | cons name rest ih =>
    unfold resolveIncludes
    split
    · exact records_of_error rfl
    · rename_i id hid
      have hsymbol : (Occurrence.database name).symbol? p = some (.database name.value) := by
        rw [Occurrence.symbol?, hp, h.databaseNamed?_eq, hid, Option.map_some]
      have hsplit : p.usages ((name :: rest).map .database) =
          [some ⟨.database name.value, name.span⟩] ++ p.usages (rest.map .database) := by
        rw [List.map_cons, ← List.singleton_append, Perspective.usages_append,
          p.usages_singleton hsymbol]
        rfl
      rw [hsplit]
      exact (records_record _ _).bind fun _ _ => ih _

/-- All includes are recorded, those that are written twice too. -/
theorem addIncludes_records (h : s.SameDatabases t) (defaultSchema : String)
    (d : Source.Database × Nat) :
    (s.addIncludes ⟨d.2⟩ d.1).Records (t.includeUsages defaultSchema d) :=
  (resolveIncludes_records h _ rfl _ _ _).bind_last fun _ _ => records_pure _

theorem forEach_addIncludes_records (h : s.SameDatabases t) (defaultSchema : String)
    (sources : List Source.Database) :
    (forEach addIncludes s sources).Records
      (sources.zipIdx.flatMap (t.includeUsages defaultSchema)) := by
  refine records_foldlM (P := fun s => s.SameDatabases t) h fun s hs d _ =>
    ⟨addIncludes_records hs defaultSchema d, fun s' hs' => ?_⟩
  rcases result_bind_eq_ok_iff.1 hs' with ⟨includes, -, hs'⟩
  rcases Except.ok.inj hs' with rfl
  have hsame : s.SameDatabases (s.modifyDatabase ⟨d.2⟩ fun d => { d with includes := includes }) :=
    sameDatabases_modifyDatabase fun _ => rfl
  exact Eq.trans hs (Eq.symm hsame)

/-! ## Joins and filters -/

/-- The only table of a condition is that of the column that comes first. -/
theorem exists_head_of_referencedTables {r : Resolver} {condition : Source.Operation} {table : TableId}
    (h : r.referencedTables condition = .ok [table]) :
    ∃ reference found, condition.directColumns.head? = some reference ∧
      r.lookupTable reference.database reference.schema reference.table = .ok found ∧
      found.table = table := by
  rcases map_eq_ok_iff.1 h with ⟨tables, htables, hsame⟩
  cases hcolumns : condition.directColumns with
  | nil =>
    rw [hcolumns] at htables
    rcases Except.ok.inj htables with rfl
    cases hsame
  | cons reference rest =>
    rw [hcolumns, Resolver.tablesOf] at htables
    rcases bind_eq_ok_iff.1 htables with ⟨found, hfound, htables⟩
    rcases bind_eq_ok_iff.1 htables with ⟨others, -, htables⟩
    rcases pure_eq_ok_iff.1 htables with rfl
    rw [List.eraseDups_cons] at hsame
    exact ⟨reference, found, rfl, hfound, (List.cons.inj hsame).1⟩

theorem resolveJoin_records (h : s.Before t) (hs : s.Cataloged) (ht : t.Cataloged)
    (source : Source.Join) : (s.resolveJoin defaultSchema database source).Records
      ((t.perspective defaultSchema database s.joins.length).usages source.occurrences) := by
  have hagrees := h.agrees hs ht defaultSchema database source.condition.directColumns.head?
  unfold resolveJoin
  refine (records_monadLift _).bind_silent fun tables htables => ?_
  dsimp only
  split
  · split
    · rename_i table
      -- the far side is the table of the columns of the condition
      have hself : Resolver.Agrees { s.resolverIn defaultSchema database with
          selfJoinTarget := some (s.farSide database table) }
          (t.perspective defaultSchema database s.joins.length)
          source.condition.directColumns.head? := by
        refine ⟨hagrees.database, hagrees.table, hagrees.column, hagrees.join, fun target htarget => ?_⟩
        rcases Option.some.inj htarget with rfl
        rcases exists_head_of_referencedTables htables with ⟨reference, found, hhead, hfound, hsame⟩
        exact ⟨reference, found, hhead, hfound, hsame⟩
      exact (Resolver.resolve_records hself none _).bind_last fun _ _ => records_pure _
    · exact records_of_error rfl
  · split
    · exact (Resolver.resolve_records hagrees none _).bind_last fun _ _ => records_pure _
    · exact records_of_error rfl

theorem resolveFilter_records (h : s.Before t) (hs : s.Cataloged) (ht : t.Cataloged)
    (source : Source.Filter) : (s.resolveFilter defaultSchema database source).Records
      ((t.perspective defaultSchema database s.joins.length).usages source.occurrences) := by
  refine (records_monadLift _).bind_silent fun tables _ => ?_
  exact (Resolver.resolve_records (h.agrees hs ht _ _ none) none _).bind_last
    fun _ _ => records_pure _

/-- Joins and filters have been registered, and so many of them are joins. -/
structure Registers (s s' : Store) (joins : Nat) : Prop where
  before : s.Before s'
  cataloged : s'.Cataloged
  same : s.SameDatabases s'
  length : s'.joins.length = s.joins.length + joins

theorem Registers.trans {n m : Nat} (h : s.Registers t n) (h' : t.Registers u m) :
    s.Registers u (n + m) :=
  ⟨h.before.trans h'.before, h'.cataloged, h.same.trans h'.same, by
    rw [h'.length, h.length, Nat.add_assoc]⟩

theorem registers_addJoin (hs : s.Cataloged) (hdatabase : s.HasDatabase database) {owner : Name}
    {source : Source.Join} (h : (addJoin defaultSchema database owner s source).result = .ok t) :
    s.Registers t 1 := by
  rcases hs.addJoin hdatabase h with ⟨hcataloged, hsame⟩
  rcases exists_of_addJoin h with ⟨-, join, -, rfl⟩
  refine ⟨⟨keepsNames_withJoin s database _ join, List.prefix_append _ _, List.prefix_refl _⟩,
    hcataloged, hsame, ?_⟩
  exact List.length_append

theorem registers_addFilter (hs : s.Cataloged) (hdatabase : s.HasDatabase database) {owner : Name}
    {source : Source.Filter} (h : (addFilter defaultSchema database owner s source).result = .ok t) :
    s.Registers t 0 := by
  rcases hs.addFilter hdatabase h with ⟨hcataloged, hsame⟩
  rcases exists_of_addFilter h with ⟨-, filter, -, rfl⟩
  exact ⟨⟨keepsNames_withFilter s database _ filter, List.prefix_refl _, List.prefix_append _ _⟩,
    hcataloged, hsame, rfl⟩

/-- A join that is registered has recorded the names in its condition. -/
theorem usages_addJoin (hs : s.Cataloged) (ht : t.Cataloged) (hdatabase : s.HasDatabase database)
    {owner : Name} {source : Source.Join} {s' : Store}
    (h : (addJoin defaultSchema database owner s source).result = .ok s') (hlater : s'.Before t) :
    (addJoin defaultSchema database owner s source).usages.map some =
      (t.perspective defaultSchema database s.joins.length).usages source.occurrences := by
  have hregisters := registers_addJoin hs hdatabase h
  rcases exists_of_addJoin h with ⟨hnew, resolved, hresolved, -⟩
  rw [addJoin_eq hnew, usages_map]
  exact resolveJoin_records (hregisters.before.trans hlater) hs ht source resolved hresolved

/-- So has a filter. -/
theorem usages_addFilter (hs : s.Cataloged) (ht : t.Cataloged) (hdatabase : s.HasDatabase database)
    {owner : Name} {source : Source.Filter} {s' : Store}
    (h : (addFilter defaultSchema database owner s source).result = .ok s') (hlater : s'.Before t) :
    (addFilter defaultSchema database owner s source).usages.map some =
      (t.perspective defaultSchema database s.joins.length).usages source.occurrences := by
  have hregisters := registers_addFilter hs hdatabase h
  rcases exists_of_addFilter h with ⟨hnew, resolved, hresolved, -⟩
  rw [addFilter_eq hnew, usages_map]
  exact resolveFilter_records (hregisters.before.trans hlater) hs ht source resolved hresolved

/-- What steps register adds up, and each of them records what it does when the joins in front of it are
registered. -/
theorem registers_foldlM {α : Type} {f : Store → α → Recorded Store} (size : α → Nat)
    (expected : Nat → α → List (Option Usage)) {l : List α} (start : Store)
    (hstep : ∀ s, s.Cataloged → start.SameDatabases s → ∀ a ∈ l, ∀ s', (f s a).result = .ok s' →
      s.Registers s' (size a) ∧
        (s'.Before t → (f s a).usages.map some = expected s.joins.length a))
    (hs : s.Cataloged) (hsame : start.SameDatabases s) {s' : Store}
    (h : (l.foldlM f s).result = .ok s') :
    s.Registers s' (l.map size).sum ∧ (s'.Before t → (l.foldlM f s).usages.map some =
      (countFrom size s.joins.length l).flatMap fun a => expected a.2 a.1) := by
  induction l generalizing s with
  | nil =>
    rcases Except.ok.inj h with rfl
    exact ⟨⟨.refl s, hs, .refl s, rfl⟩, fun _ => rfl⟩
  | cons a rest ih =>
    rw [List.foldlM_cons] at h ⊢
    rcases result_bind_eq_ok_iff.1 h with ⟨next, hnext, hrest⟩
    rcases hstep s hs hsame a List.mem_cons_self next hnext with ⟨hfirst, hrecords⟩
    have hlater : ∀ s, s.Cataloged → start.SameDatabases s → ∀ a ∈ rest, ∀ s',
        (f s a).result = .ok s' → s.Registers s' (size a) ∧
          (s'.Before t → (f s a).usages.map some = expected s.joins.length a) := by
      intro s hs hsame a ha
      exact hstep s hs hsame a (List.mem_cons_of_mem _ ha)
    rcases ih hlater hfirst.cataloged (hsame.trans hfirst.same) hrest with ⟨hothers, hall⟩
    refine ⟨hfirst.trans hothers, fun hlater => ?_⟩
    rw [usages_bind hnext, List.map_append, hrecords (hothers.before.trans hlater), hall hlater,
      hfirst.length, countFrom, List.flatMap_cons]

/-- A database registers its joins and then its filters. -/
theorem registers_addJoinsAndFilters (hs : s.Cataloged) (ht : t.Cataloged) {d : Source.Database × Nat}
    (hdatabase : s.HasDatabase ⟨d.2⟩) {s' : Store}
    (h : (addJoinsAndFilters defaultSchema s ⟨d.2⟩ d.1).result = .ok s') :
    s.Registers s' d.1.joins.length ∧ (s'.Before t →
      (addJoinsAndFilters defaultSchema s ⟨d.2⟩ d.1).usages.map some =
        t.conditionUsages defaultSchema s.joins.length d) := by
  unfold addJoinsAndFilters at h ⊢
  rcases result_bind_eq_ok_iff.1 h with ⟨joined, hjoins, hfilters⟩
  have hjoin := registers_foldlM (t := t) (fun _ => 1) (fun joins (join : Source.Join) =>
    (t.perspective defaultSchema ⟨d.2⟩ joins).usages join.occurrences) s
    (fun s hs hsame _ _ _ hadd => ⟨registers_addJoin hs (hsame.hasDatabase hdatabase) hadd,
      usages_addJoin hs ht (hsame.hasDatabase hdatabase) hadd⟩) hs (.refl s) hjoins
  rcases hjoin with ⟨hfirst, hrecords⟩
  -- filters come behind all joins of the database, and add none
  have hfilter := registers_foldlM (t := t) (fun _ => 0) (fun joins (filter : Source.Filter) =>
    (t.perspective defaultSchema ⟨d.2⟩ joins).usages filter.occurrences) s
    (fun s hs hsame _ _ _ hadd => ⟨registers_addFilter hs (hsame.hasDatabase hdatabase) hadd,
      usages_addFilter hs ht (hsame.hasDatabase hdatabase) hadd⟩) hfirst.cataloged hfirst.same hfilters
  rcases hfilter with ⟨hsecond, hrecords'⟩
  have hones : (d.1.joins.map fun _ => 1).sum = d.1.joins.length := by simp
  have hzeros : (d.1.filters.map fun _ => 0).sum = 0 := by simp
  rw [hones] at hfirst
  rw [hzeros] at hsecond
  refine ⟨hfirst.trans hsecond, fun hlater => ?_⟩
  rw [usages_bind hjoins, List.map_append, hrecords (hsecond.before.trans hlater), hrecords' hlater,
    hfirst.length, countFrom_one, countFrom_zero, List.flatMap_map, conditionUsages]

/-- The databases of a store register their joins and filters one after the other. -/
theorem registers_forEach (hs : s.Cataloged) (ht : t.Cataloged) {sources : List Source.Database}
    (hdatabases : ∀ i < sources.length, s.HasDatabase ⟨i⟩) {s' : Store}
    (h : (forEach (addJoinsAndFilters defaultSchema) s sources).result = .ok s') :
    s.Registers s' (sources.zipIdx.map fun d => d.1.joins.length).sum ∧ (s'.Before t →
      (forEach (addJoinsAndFilters defaultSchema) s sources).usages.map some =
        (countFrom (fun d : Source.Database × Nat => d.1.joins.length) s.joins.length
          sources.zipIdx).flatMap fun d => t.conditionUsages defaultSchema d.2 d.1) := by
  refine registers_foldlM _ _ s (fun s' hs' hsame d hd next hnext => ?_) hs (.refl s) h
  have hknown := hsame.hasDatabase (hdatabases d.2 (List.mem_zipIdx' hd).1)
  exact registers_addJoinsAndFilters hs' ht hknown hnext

/-! ## Views -/

/-- When all joins and filters are registered, defining views records the names in them. -/
theorem defineViews_records (hs : s.Cataloged) (ht : t.Cataloged) (hkeeps : KeepsNames s t)
    (hjoins : s.joins = t.joins) (hfilters : s.filters = t.filters)
    (pending : List (TableId × DatabaseId × Source.View)) :
    (pending.foldlM (Store.defineView defaultSchema) s).Records
      (pending.flatMap fun waiting => t.viewUsages defaultSchema waiting.2) := by
  refine records_foldlM (P := fun s => s.Cataloged ∧ KeepsNames s t ∧ s.joins = t.joins ∧
    s.filters = t.filters) ⟨hs, hkeeps, hjoins, hfilters⟩ ?_
  rintro s ⟨hs, hkeeps, hjoins, hfilters⟩ waiting -
  have hbefore : s.Before t := ⟨hkeeps, hjoins ▸ List.prefix_refl _, hfilters ▸ List.prefix_refl _⟩
  have hagrees := hbefore.agrees hs ht defaultSchema waiting.2.1 none
  have hagrees' := hbefore.agreesOnFilters hs ht hfilters s.joins.length defaultSchema waiting.2.1
  have hview := Resolver.view_records hagrees hagrees' waiting.2.2
  refine ⟨?_, fun s' hs' => ?_⟩
  · intro defined hdefined
    rw [defineView_eq] at hdefined ⊢
    rw [result_map] at hdefined
    rcases map_eq_ok_iff.1 hdefined with ⟨view, hresolved, -⟩
    rw [usages_map, viewUsages, ← hjoins]
    exact hview view hresolved
  · rw [defineView_eq, result_map] at hs'
    rcases map_eq_ok_iff.1 hs' with ⟨view, -, rfl⟩
    have hchanged : KeepsNames (s.withView waiting.1 view) t :=
      ⟨hkeeps.databases, hkeeps.tables.trans (keepsNames_withView s waiting.1 view).tables.symm⟩
    exact ⟨hs.withView waiting.1 view, hchanged, hjoins, hfilters⟩

/-! ## All phases -/

/-- When each step appends to a list, in the end all of it is appended. -/
theorem append_of_foldlM {α β γ ε : Type} (added : β → List γ) (parts : α → List γ)
    {f : β → α → Except ε β} {l : List α} {b b' : β}
    (hstep : ∀ b, ∀ a ∈ l, ∀ b', f b a = .ok b' → added b' = added b ++ parts a)
    (h : l.foldlM f b = .ok b') : added b' = added b ++ l.flatMap parts := by
  have hadded := forall₂_of_foldlM (R := Eq) added parts
    (fun b a ha b' hb' => ⟨parts a, hstep b a ha b' hb', List.forall₂_refl _⟩) h
  rcases hadded with ⟨more, hmore, hparts⟩
  rw [List.forall₂_eq_eq_eq] at hparts
  rw [hmore, hparts]

theorem pendingViews_of_addSchema {draft draft' : Draft} {owner : Name} {source : Source.Schema}
    (h : addSchema database owner draft source = .ok draft') :
    draft'.pendingViews.map Prod.snd =
      draft.pendingViews.map Prod.snd ++ source.views.map (database, ·) := by
  unfold addSchema at h
  dsimp only at h
  split at h
  · exact absurd h (found_ne_ok _ _ _)
  · rcases bind_eq_ok_iff.1 h with ⟨⟨tables, names⟩, -, h⟩
    rcases bind_eq_ok_iff.1 h with ⟨⟨views, allNames⟩, hviews, h⟩
    rcases pure_eq_ok_iff.1 h with rfl
    have hadded := append_of_foldlM
      (fun state : Draft × List (String × TableId) => state.1.pendingViews.map Prod.snd)
      (fun view => [(database, view)]) (fun before view _ after hadd => ?_) hviews
    · rw [List.map_eq_flatMap (f := fun view => (database, view))]
      exact hadded
    · unfold addViewName at hadd
      dsimp only at hadd
      split at hadd
      · exact absurd hadd (found_ne_ok _ _ _)
      · rcases pure_eq_ok_iff.1 hadd with rfl
        exact List.map_append

/-- The views that wait for their definitions are those that the databases declare, in their order. -/
theorem pendingViews_of_addAllSchemas {sources : List Source.Database} {draft : Draft}
    (h : sources.zipIdx.foldlM addSchemas ⟨s, []⟩ = .ok draft) :
    draft.pendingViews.map Prod.snd = sources.zipIdx.flatMap viewsOf := by
  refine append_of_foldlM (fun draft : Draft => draft.pendingViews.map Prod.snd) viewsOf
    (fun before d _ after hadd => ?_) h
  rw [viewsOf, List.map_flatMap]
  exact append_of_foldlM (fun draft : Draft => draft.pendingViews.map Prod.snd) _
    (fun _ _ _ _ hschema => pendingViews_of_addSchema hschema) hadd

/-- A build records the includes of all databases, then the conditions of their joins and filters, and then
their views. -/
theorem usages_assemble {settings : ResolutionSettings} {sources : List Source.Database}
    (hbuild : build settings sources = .ok t) :
    (assemble settings.defaultSchema sources).usages.map some =
      sources.zipIdx.flatMap (t.includeUsages settings.defaultSchema) ++
        (((countFrom (fun d : Source.Database × Nat => d.1.joins.length) 0 sources.zipIdx).flatMap
            fun d => t.conditionUsages settings.defaultSchema d.2 d.1) ++
          sources.zipIdx.flatMap fun d =>
            (viewsOf d).flatMap (t.viewUsages settings.defaultSchema)) := by
  have ht := cataloged_of_build hbuild
  rcases exists_phases_of_build hbuild with
    ⟨included, draft, joined, built, hnames, hincludes, hdraft, hjoins, hviews, hstore⟩
  have hincluded := included_of_forEach hnames hincludes
  have hdeclared := declared_of_addSchemas hnames hincluded hdraft
  rcases extends_of_phases (foldlM_addDatabase_eq_ok_iff.2 ⟨hnames, rfl⟩) hincludes hdraft with
    ⟨-, -, hdatabases⟩
  rcases (hincluded.cataloged hnames).addAllSchemas hdatabases hdraft with ⟨hfront, hsame⟩
  rcases registers_forEach hfront ht (fun i hi => hsame.hasDatabase (hdatabases i hi)) hjoins with
    ⟨hregisters, hconditions⟩
  -- the last phase only defines views, so that what is registered is what the store has at the end
  rcases joins_filters_of_defineViews hviews with ⟨hsameJoins, hsameFilters⟩
  have hjoined : joined.joins = t.joins := by rw [hsameJoins, hstore]
  have hfiltered : joined.filters = t.filters := by rw [hsameFilters, hstore]
  have hkeeps : KeepsNames joined t := by
    rw [hstore]
    exact ⟨(keepsNames_of_defineViews hviews).databases, (keepsNames_of_defineViews hviews).tables⟩
  have hbefore : joined.Before t :=
    ⟨hkeeps, hjoined ▸ List.prefix_refl _, hfiltered ▸ List.prefix_refl _⟩
  have hregistered : (registered sources).SameDatabases t := by
    have hnamed : Named sources t :=
      (hdeclared.named.of_keepsNames hregisters.before.keeps).of_keepsNames hkeeps
    exact Eq.trans hnamed (Eq.symm (named_registered sources))
  -- names read from the store at the end are those of each phase
  have hfirst := forEach_addIncludes_records hregistered settings.defaultSchema sources _ hincludes
  have hsecond := hconditions hbefore
  have hthird := defineViews_records hregisters.cataloged ht hkeeps hjoined hfiltered
    draft.pendingViews _ hviews
  have hviewsOf : draft.pendingViews.flatMap (fun waiting =>
      t.viewUsages settings.defaultSchema waiting.2) = sources.zipIdx.flatMap fun d =>
        (viewsOf d).flatMap (t.viewUsages settings.defaultSchema) := by
    rw [← List.flatMap_assoc, ← pendingViews_of_addAllSchemas hdraft, List.flatMap_map]
  rw [assemble_eq_of_phases hnames hincludes hdraft hjoins, List.map_append, List.map_append,
    hfirst, hsecond, hthird, hviewsOf, hdeclared.joins, List.length_nil]

/-- A store that is built has recorded the names that are written in its sources, each once. -/
theorem perm_writtenUsages {settings : ResolutionSettings} {sources : List Source.Database}
    (hbuild : build settings sources = .ok t) (hrecord : settings.recordUsages = true) :
    (t.usages.references.map some).Perm (t.writtenUsages settings.defaultSchema sources) := by
  have husages : t.usages = Usages.ofList (assemble settings.defaultSchema sources).usages := by
    rcases exists_phases_of_build hbuild with ⟨_, _, _, _, -, -, -, -, -, hstore⟩
    rw [hstore]
    exact if_pos hrecord
  have hcounted : ∀ f : Source.Database × Nat → List (Option Usage), sources.zipIdx.flatMap f =
      (countFrom (fun d : Source.Database × Nat => d.1.joins.length) 0 sources.zipIdx).flatMap
        fun d => f d.1 := fun f => (flatMap_countFrom f _ 0 _).symm
  rw [husages]
  refine ((Usages.perm_references_ofList _).map some).trans ?_
  rw [usages_assemble hbuild, hcounted, hcounted]
  -- what is recorded phase by phase is written database by database
  exact ((List.flatMap_append_perm _ _ _).append_left _).trans (List.flatMap_append_perm _ _ _)

end Store

end ObjectRelational
