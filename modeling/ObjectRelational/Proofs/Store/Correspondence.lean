import ObjectRelational.Proofs.Graph.Reachability
import ObjectRelational.Proofs.Store.Renumbering
import ObjectRelational.Store.Build

/-!
# Stores with the same names

Two stores whose databases, schemas and tables have the same names look these names up alike, up to the
handles. What is registered later does not matter for that: joins, filters, and the columns of views.

* `Store.SameNames`: two stores with the same names, under handles that are renumbered.
* `Store.SameNames.visibleDatabases_eq`: databases see the same databases.
* `Store.SameNames.findTable?_eq`, `Store.SameNames.describe_eq` and their companions: names denote the
  same tables, and tables are described alike.
* `Store.KeepsNames`: a store with the same names under the same handles.
-/

namespace ObjectRelational

/-- A database without its joins and filters. -/
def Database.bare (d : Database) : Database := { d with joins := [], filters := [] }

/-- A table without its columns and its definition as a view. -/
def Table.bare (t : Table) : Table := { t with columns := [], view := none }

namespace Store

/-- Two stores with the same databases, schemas and tables by name, under handles that are
renumbered. -/
structure SameNames (ρ : Renumbering) (s s' : Store) : Prop where
  size : s'.databases.length = s.databases.length
  databaseNamed : ∀ name, s'.databaseNamed? name = (s.databaseNamed? name).map ρ.database
  database : ∀ id, (s'.database? (ρ.database id)).map Database.bare =
    (s.database? id).map fun d => (d.renumber ρ).bare
  table : ∀ id, (s'.table? (ρ.table id)).map Table.bare =
    (s.table? id).map fun t => (t.renumber ρ).bare

namespace SameNames

variable {ρ : Renumbering} {s s' : Store} (h : SameNames ρ s s')
include h

/-! ## Elements by handle -/

theorem database?_of_some {id : DatabaseId} {d : Database} (hd : s.database? id = some d) :
    ∃ d', s'.database? (ρ.database id) = some d' ∧ d'.name = d.name ∧
      d'.includes = d.includes.map ρ.database ∧ d'.schemas = d.schemas.map (Schema.renumber ρ) := by
  have hdatabase := h.database id
  rw [hd, Option.map_some] at hdatabase
  obtain ⟨d', hd', hbare⟩ := Option.map_eq_some_iff.1 hdatabase
  exact ⟨d', hd', (Database.mk.inj hbare).1, (Database.mk.inj hbare).2.1,
    (Database.mk.inj hbare).2.2.1⟩

theorem database?_of_none {id : DatabaseId} (hid : s.database? id = none) :
    s'.database? (ρ.database id) = none := by
  have hdatabase := h.database id
  rw [hid, Option.map_none] at hdatabase
  exact Option.map_eq_none_iff.1 hdatabase

theorem table?_of_some {id : TableId} {t : Table} (ht : s.table? id = some t) :
    ∃ t', s'.table? (ρ.table id) = some t' ∧ t'.name = t.name ∧ t'.schema = t.schema ∧
      t'.database = ρ.database t.database := by
  have htable := h.table id
  rw [ht, Option.map_some] at htable
  obtain ⟨t', ht', hbare⟩ := Option.map_eq_some_iff.1 htable
  exact ⟨t', ht', (Table.mk.inj hbare).1, (Table.mk.inj hbare).2.1, (Table.mk.inj hbare).2.2.1⟩

theorem table?_of_none {id : TableId} (hid : s.table? id = none) :
    s'.table? (ρ.table id) = none := by
  have htable := h.table id
  rw [hid, Option.map_none] at htable
  exact Option.map_eq_none_iff.1 htable

/-! ## What a database sees -/

theorem includesOf_eq (id : DatabaseId) :
    s'.includesOf (ρ.database id) = (s.includesOf id).map ρ.database := by
  unfold includesOf
  cases hd : s.database? id with
  | none => simp [h.database?_of_none hd]
  | some d =>
    obtain ⟨d', hd', -, hincludes, -⟩ := h.database?_of_some hd
    rw [hd']
    exact hincludes

theorem visibleDatabases_eq (id : DatabaseId) :
    s'.visibleDatabases (ρ.database id) = (s.visibleDatabases id).map ρ.database := by
  unfold visibleDatabases
  rw [h.size, ← Graph.reachable_map Renumbering.database_injective h.includesOf_eq]
  rfl

theorem includesTransitively_eq (id other : DatabaseId) :
    s'.includesTransitively (ρ.database id) (ρ.database other) = s.includesTransitively id other := by
  unfold includesTransitively
  rw [h.size, h.includesOf_eq,
    Graph.reachable_map Renumbering.database_injective h.includesOf_eq]
  simp only [List.mem_map_of_injective Renumbering.database_injective]

/-- What is declared alike by all databases that are seen is looked up alike. -/
theorem findVisible?_eq {α β : Type} {f : α → β} {declared : Database → Option α}
    {declared' : Database → Option β} {id : DatabaseId}
    (hdeclared : ∀ e ∈ s.visibleDatabases id, (s'.database? (ρ.database e)).bind declared' =
      ((s.database? e).bind declared).map f) :
    s'.findVisible? (ρ.database id) declared' = (s.findVisible? id declared).map f := by
  unfold findVisible?
  rw [h.visibleDatabases_eq]
  -- along the databases that are seen, of which only the declarations matter
  generalize s.visibleDatabases id = visible at hdeclared
  induction visible with
  | nil => rfl
  | cons e rest ih =>
    rw [List.map_cons, List.findSome?_cons, List.findSome?_cons, hdeclared e List.mem_cons_self,
      ih fun e' he' => hdeclared e' (List.mem_cons_of_mem _ he')]
    cases (s.database? e).bind declared <;> rfl

/-! ## Schemas and tables -/

/-- A database declares the same schemas. -/
theorem schema?_eq (id : DatabaseId) (name : String) :
    ((s'.database? (ρ.database id)).bind fun d => d.schema? name) =
      ((s.database? id).bind fun d => d.schema? name).map (Schema.renumber ρ) := by
  cases hd : s.database? id with
  | none => simp [h.database?_of_none hd]
  | some d =>
    obtain ⟨d', hd', -, -, hschemas⟩ := h.database?_of_some hd
    rw [hd', Option.bind_some, Option.bind_some, ← Database.schema?_renumber]
    simp only [Database.schema?, hschemas, Database.renumber]

theorem findTable?_eq (id : DatabaseId) (schema name : String) :
    s'.findTable? (ρ.database id) schema name = (s.findTable? id schema name).map ρ.table := by
  refine h.findVisible?_eq fun e _ => ?_
  have hschema := h.schema?_eq e schema
  have hassoc : ∀ d? : Option Database, (d?.bind fun d => (d.schema? schema).bind fun s =>
      s.table? name) = (d?.bind fun d => d.schema? schema).bind fun s => s.table? name := by
    intro d?
    cases d? <;> rfl
  rw [hassoc, hassoc, hschema]
  cases (s.database? e).bind fun d => d.schema? schema with
  | none => rfl
  | some found => exact found.table?_renumber name

theorem hasSchema_eq (id : DatabaseId) (schema : String) :
    s'.hasSchema (ρ.database id) schema = s.hasSchema id schema := by
  unfold hasSchema
  rw [h.findVisible?_eq fun e _ => h.schema?_eq e schema, Option.isSome_map]

/-! ## Descriptions -/

@[simp]
theorem databaseName_eq (id : DatabaseId) : s'.databaseName (ρ.database id) = s.databaseName id := by
  unfold databaseName
  cases hd : s.database? id with
  | none => simp [h.database?_of_none hd]
  | some d =>
    obtain ⟨d', hd', hname, -⟩ := h.database?_of_some hd
    rw [hd']
    exact hname

@[simp]
theorem tableName_eq (id : TableId) : s'.tableName (ρ.table id) = s.tableName id := by
  unfold tableName
  cases ht : s.table? id with
  | none => simp [h.table?_of_none ht]
  | some t =>
    obtain ⟨t', ht', hname, -⟩ := h.table?_of_some ht
    rw [ht']
    exact hname

theorem describe_eq (table : TableId) (database : DatabaseId) :
    s'.describe (ρ.table table) (ρ.database database) = s.describe table database := by
  unfold describe
  cases ht : s.table? table with
  | none => simp [h.table?_of_none ht]
  | some t =>
    obtain ⟨t', ht', hname, hschema, -⟩ := h.table?_of_some ht
    simp only [ht', hname, hschema, h.databaseName_eq]

theorem describeAlias_eq (a : TableAlias) : s'.describeAlias (a.renumber ρ) = s.describeAlias a :=
  h.describe_eq a.table a.database

theorem describeAll_eq (aliases : List TableAlias) :
    s'.describeAll (aliases.map (TableAlias.renumber ρ)) = s.describeAll aliases := by
  unfold describeAll
  rw [List.map_map]
  exact congrArg _ (List.map_congr_left fun a _ => h.describeAlias_eq a)

theorem tableSymbol_eq (id : TableId) : s'.tableSymbol (ρ.table id) = s.tableSymbol id := by
  unfold tableSymbol
  cases ht : s.table? id with
  | none => simp [h.table?_of_none ht]
  | some t =>
    obtain ⟨t', ht', hname, hschema, hdatabase⟩ := h.table?_of_some ht
    simp only [ht', hname, hschema, hdatabase, h.databaseName_eq]

theorem columnSymbol_eq (id : TableId) (column : String) :
    s'.columnSymbol (ρ.table id) column = s.columnSymbol id column := by
  unfold columnSymbol
  cases ht : s.table? id with
  | none => simp [h.table?_of_none ht]
  | some t =>
    obtain ⟨t', ht', hname, hschema, hdatabase⟩ := h.table?_of_some ht
    simp only [ht', hname, hschema, hdatabase, h.databaseName_eq]

end SameNames

/-! ## The same names under the same handles -/

/-- What is read off after a change is read off before it and then changed. -/
theorem map_modify {α β : Type} {f : α → α} {f' : β → β} {g : α → β} (h : ∀ a, g (f a) = f' (g a))
    (l : List α) (i : Nat) : (l.modify i f).map g = (l.map g).modify i f' := by
  induction l generalizing i with
  | nil => simp
  | cons a rest ih =>
    cases i with
    | zero => simp [h]
    | succ i => simpa using ih i

/-- What a change does not touch is read off as before. -/
theorem map_modify_of_forall_eq {α β : Type} {f : α → α} {g : α → β} (h : ∀ a, g (f a) = g a)
    (l : List α) (i : Nat) : (l.modify i f).map g = l.map g := by
  have hid : ∀ a, g (f a) = id (g a) := h
  rw [map_modify hid, List.modify_id]

/-- A store in which the databases and tables of another one are kept by name. -/
structure KeepsNames (s t : Store) : Prop where
  databases : t.databases.map Database.bare = s.databases.map Database.bare
  tables : t.tables.map Table.bare = s.tables.map Table.bare

namespace KeepsNames

variable {ρ : Renumbering} {s s' t t' u : Store}

theorem refl (s : Store) : KeepsNames s s := ⟨rfl, rfl⟩

theorem trans (h : KeepsNames s t) (h' : KeepsNames t u) : KeepsNames s u :=
  ⟨h'.databases.trans h.databases, h'.tables.trans h.tables⟩

/-- Changing the joins or filters of a database keeps the names. -/
theorem modifyDatabase (h : KeepsNames s t) (id : DatabaseId) {f : Database → Database}
    (hf : ∀ d, (f d).bare = d.bare) : KeepsNames s (t.modifyDatabase id f) :=
  ⟨(map_modify_of_forall_eq hf _ _).trans h.databases, h.tables⟩

/-- Changing the columns or the view of a table keeps the names. -/
theorem modifyTable (h : KeepsNames s t) (id : TableId) {f : Table → Table}
    (hf : ∀ table, (f table).bare = table.bare) : KeepsNames s (t.modifyTable id f) :=
  ⟨h.databases, (map_modify_of_forall_eq hf _ _).trans h.tables⟩

theorem database?_eq (h : KeepsNames s t) (id : DatabaseId) :
    (t.database? id).map Database.bare = (s.database? id).map Database.bare := by
  unfold database?
  rw [← List.getElem?_map, ← List.getElem?_map, h.databases]

theorem table?_eq (h : KeepsNames s t) (id : TableId) :
    (t.table? id).map Table.bare = (s.table? id).map Table.bare := by
  unfold table?
  rw [← List.getElem?_map, ← List.getElem?_map, h.tables]

theorem size_eq (h : KeepsNames s t) : t.databases.length = s.databases.length := by
  simpa using congrArg List.length h.databases

theorem databaseNamed?_eq (h : KeepsNames s t) (name : String) :
    t.databaseNamed? name = s.databaseNamed? name := by
  have hbare : ∀ s : Store, s.databases.findIdx? (fun d => d.name = name) =
      (s.databases.map Database.bare).findIdx? fun d => d.name = name := by
    intro s
    rw [List.findIdx?_map]
    rfl
  unfold databaseNamed?
  rw [hbare, hbare, h.databases]

theorem includesOf_eq (h : KeepsNames s t) : t.includesOf = s.includesOf := by
  have hbare : ∀ (s : Store) id, s.includesOf id =
      (((s.database? id).map Database.bare).map Database.includes).getD [] := by
    intro s id
    unfold includesOf
    cases s.database? id <;> rfl
  funext id
  rw [hbare, hbare, h.database?_eq]

/-- Stores that keep the names of stores with the same names have the same names. -/
theorem sameNames (h : KeepsNames s t) (h' : KeepsNames s' t') (hnames : SameNames ρ s s') :
    SameNames ρ t t' where
  size := by rw [h'.size_eq, h.size_eq, hnames.size]
  databaseNamed name := by
    rw [h'.databaseNamed?_eq, h.databaseNamed?_eq, hnames.databaseNamed]
  database id := by
    have hbare : ∀ d? : Option Database, (d?.map fun d => (d.renumber ρ).bare) =
        (d?.map Database.bare).map fun d => (d.renumber ρ).bare := by
      intro d?
      cases d? <;> rfl
    rw [h'.database?_eq, hnames.database, hbare, hbare (t.database? id), h.database?_eq]
  table id := by
    have hbare : ∀ t? : Option Table, (t?.map fun t => (t.renumber ρ).bare) =
        (t?.map Table.bare).map fun t => (t.renumber ρ).bare := by
      intro t?
      cases t? <;> rfl
    rw [h'.table?_eq, hnames.table, hbare, hbare (t.table? id), h.table?_eq]

/-- A store keeps the names under the handles that they have. -/
theorem sameNames_refl (h : KeepsNames s t) : SameNames .refl s t where
  size := h.size_eq
  databaseNamed name := by
    rw [h.databaseNamed?_eq]
    cases s.databaseNamed? name <;> rfl
  database id := by
    have hbare : ∀ d : Database, (d.renumber .refl).bare = d.bare := by
      intro d
      have hschemas : d.schemas.map (Schema.renumber .refl) = d.schemas :=
        List.map_id'' (fun s => congrArg (Schema.mk s.name) (List.map_id'' (fun _ => rfl) _)) _
      have hincludes : d.includes.map Renumbering.refl.database = d.includes :=
        List.map_id'' (fun _ => rfl) _
      simp only [Database.bare, Database.renumber, hschemas, hincludes]
    exact (h.database?_eq id).trans (Option.map_congr fun d _ => (hbare d).symm)
  table id := h.table?_eq id

end KeepsNames

end Store

end ObjectRelational
