import Mathlib.Logic.Equiv.Defs
import ObjectRelational.Proofs.Lookup
import ObjectRelational.Store.View

/-!
# Renumbering the elements of a store

A handle is a position, and which position an element has depends on the order in which the elements
are registered. A renumbering moves the elements of each kind to other positions; what is built from
handles is renumbered with them.

* `Renumbering` moves the handles of each kind.
* `Operation.renumber` and its companions renumber what is built from handles.
* `Operation.roots_renumber`, `Join.otherSide?_renumber`: what is read off an element is renumbered with
  it.
-/

namespace ObjectRelational

/-- A renumbering of the elements of a store, for each kind of them. -/
structure Renumbering where
  databases : Equiv.Perm Nat
  tables : Equiv.Perm Nat
  joins : Equiv.Perm Nat
  filters : Equiv.Perm Nat

namespace Renumbering

/-- The renumbering that moves nothing. -/
def refl : Renumbering := ⟨.refl _, .refl _, .refl _, .refl _⟩

/-- The new handle of a database. -/
def database (ρ : Renumbering) (id : DatabaseId) : DatabaseId := ⟨ρ.databases id.index⟩

/-- The new handle of a table. -/
def table (ρ : Renumbering) (id : TableId) : TableId := ⟨ρ.tables id.index⟩

/-- The new handle of a join. -/
def join (ρ : Renumbering) (id : JoinId) : JoinId := ⟨ρ.joins id.index⟩

/-- The new handle of a filter. -/
def filter (ρ : Renumbering) (id : FilterId) : FilterId := ⟨ρ.filters id.index⟩

variable {ρ : Renumbering}

@[simp]
theorem database_inj {a b : DatabaseId} : ρ.database a = ρ.database b ↔ a = b := by
  cases a
  cases b
  simp [database]

@[simp]
theorem table_inj {a b : TableId} : ρ.table a = ρ.table b ↔ a = b := by
  cases a
  cases b
  simp [table]

theorem database_injective : Function.Injective ρ.database := fun _ _ => database_inj.1

theorem table_injective : Function.Injective ρ.table := fun _ _ => table_inj.1

end Renumbering

variable {ρ : Renumbering}

/-! ## Expressions -/

/-- The alias of the renumbered table. -/
def TableAlias.renumber (ρ : Renumbering) (a : TableAlias) : TableAlias :=
  ⟨a.name, ρ.table a.table, ρ.database a.database⟩

/-- The column of the renumbered table. -/
def ColumnRef.renumber (ρ : Renumbering) (c : ColumnRef) : ColumnRef :=
  ⟨c.tableAlias.renumber ρ, c.column⟩

/-- The step along the renumbered join. -/
def JoinStep.renumber (ρ : Renumbering) (step : JoinStep) : JoinStep :=
  { step with
    join := ρ.join step.join
    database := ρ.database step.database
    source := ρ.table step.source
    target := ρ.table step.target }

namespace Operation

mutual

/-- The expression over the renumbered elements. -/
def renumber (ρ : Renumbering) : Operation → Operation
  | column reference => column (reference.renumber ρ)
  | join source steps target =>
    join (source.renumber ρ) (steps.map (JoinStep.renumber ρ)) (renumberTarget ρ target)
  | literal value => literal value
  | function name arguments => function name (renumberAll ρ arguments)

/-- The end of a path over the renumbered elements. -/
def renumberTarget (ρ : Renumbering) : Option Operation → Option Operation
  | none => none
  | some target => some (renumber ρ target)

/-- The expressions over the renumbered elements. -/
def renumberAll (ρ : Renumbering) : List Operation → List Operation
  | [] => []
  | argument :: rest => renumber ρ argument :: renumberAll ρ rest

end

theorem renumberTarget_eq_map (target : Option Operation) :
    renumberTarget ρ target = target.map (renumber ρ) := by
  cases target <;> simp [renumberTarget]

theorem renumberAll_eq_map (l : List Operation) : renumberAll ρ l = l.map (renumber ρ) := by
  induction l with
  | nil => simp [renumberAll]
  | cons argument rest ih => simp [renumberAll, ih]

end Operation

/-- The chain over the renumbered elements. -/
def JoinChain.renumber (ρ : Renumbering) (chain : JoinChain) : JoinChain :=
  ⟨chain.source.renumber ρ, chain.steps.map (JoinStep.renumber ρ), chain.target.map (.renumber ρ)⟩

/-- The pointer to the renumbered filter. -/
def FilterPointer.renumber (ρ : Renumbering) (pointer : FilterPointer) : FilterPointer :=
  ⟨ρ.filter pointer.filter, pointer.name, ρ.database pointer.database,
    pointer.joins.map (JoinStep.renumber ρ)⟩

/-! ## Elements -/

/-- The column of the renumbered table. -/
def Column.renumber (ρ : Renumbering) (c : Column) : Column := { c with table := ρ.table c.table }

/-- The view column over the renumbered elements. -/
def ViewColumn.renumber (ρ : Renumbering) (c : ViewColumn) : ViewColumn :=
  { c with operation := c.operation.renumber ρ }

/-- The view over the renumbered elements. -/
def View.renumber (ρ : Renumbering) (view : View) : View where
  mainTable := view.mainTable.renumber ρ
  distinct := view.distinct
  filter := view.filter.map (FilterPointer.renumber ρ)
  groupBy := view.groupBy.map (Operation.renumber ρ)
  columns := view.columns.map (ViewColumn.renumber ρ)

/-- The table in the renumbered database. -/
def Table.renumber (ρ : Renumbering) (t : Table) : Table :=
  { t with
    database := ρ.database t.database
    columns := t.columns.map (Column.renumber ρ)
    view := t.view.map (View.renumber ρ) }

/-- The schema of the renumbered tables. -/
def Schema.renumber (ρ : Renumbering) (s : Schema) : Schema :=
  { s with tables := s.tables.map fun entry => (entry.1, ρ.table entry.2) }

/-- The database of the renumbered elements. -/
def Database.renumber (ρ : Renumbering) (d : Database) : Database :=
  { d with
    includes := d.includes.map ρ.database
    schemas := d.schemas.map (Schema.renumber ρ)
    joins := d.joins.map fun entry => (entry.1, ρ.join entry.2)
    filters := d.filters.map fun entry => (entry.1, ρ.filter entry.2) }

/-- The join over the renumbered tables. -/
def Join.renumber (ρ : Renumbering) (j : Join) : Join :=
  { j with
    database := ρ.database j.database
    condition := j.condition.renumber ρ
    tables := j.tables.map ρ.table }

/-- The filter over the renumbered tables. -/
def Filter.renumber (ρ : Renumbering) (f : Filter) : Filter :=
  { f with
    database := ρ.database f.database
    condition := f.condition.renumber ρ
    tables := f.tables.map ρ.table }

/-! ## What is read off -/

/-- A value that is not repeated is not repeated under other names either. -/
theorem eraseDups_map_of_injective {α β : Type} [DecidableEq α] [DecidableEq β] {f : α → β}
    (hf : Function.Injective f) (l : List α) : (l.map f).eraseDups = l.eraseDups.map f := by
  induction hn : l.length using Nat.strongRecOn generalizing l with
  | ind n ih =>
    cases l with
    | nil => simp
    | cons a rest =>
      -- what is left after the first value is not the rest itself, but shorter than the list
      have hshorter : (rest.filter fun b => !b == a).length < n := by
        subst hn
        exact Nat.lt_succ_of_le (List.length_filter_le _ _)
      have hfilter : (rest.map f).filter (fun b => !b == f a) =
          (rest.filter fun b => !b == a).map f := by
        rw [List.filter_map]
        congr 1
        refine List.filter_congr fun b _ => ?_
        simp [hf.eq_iff]
      rw [List.map_cons, List.eraseDups_cons, List.eraseDups_cons, List.map_cons, hfilter,
        ih _ hshorter _ rfl]

theorem TableAlias.renumber_injective : Function.Injective (TableAlias.renumber ρ) := by
  rintro ⟨name, table, database⟩ ⟨name', table', database'⟩ h
  simp only [renumber, mk.injEq, Renumbering.table_inj, Renumbering.database_inj] at h
  simpa using h

namespace Operation

mutual

theorem roots_renumber : (operation : Operation) →
    (operation.renumber ρ).roots = operation.roots.map (TableAlias.renumber ρ)
  | .column _ => by simp [renumber, roots, ColumnRef.renumber]
  | .join _ _ _ => by simp [renumber, roots]
  | .literal _ => by simp [renumber, roots]
  | .function _ arguments => by simp [renumber, roots, rootsOfAll_renumber arguments]

theorem rootsOfAll_renumber : (l : List Operation) →
    rootsOfAll (renumberAll ρ l) = (rootsOfAll l).map (TableAlias.renumber ρ)
  | [] => by simp [renumberAll, rootsOfAll]
  | argument :: rest => by
    simp [renumberAll, rootsOfAll, roots_renumber argument, rootsOfAll_renumber rest]

end

@[simp]
theorem rootAliases_renumber (operation : Operation) :
    (operation.renumber ρ).rootAliases = operation.rootAliases.map (TableAlias.renumber ρ) := by
  rw [rootAliases, roots_renumber, eraseDups_map_of_injective TableAlias.renumber_injective]
  rfl

mutual

@[simp]
theorem directColumns_renumber : (operation : Operation) →
    (operation.renumber ρ).directColumns = operation.directColumns.map (ColumnRef.renumber ρ)
  | .column _ => by simp [renumber, directColumns]
  | .join _ _ _ => by simp [renumber, directColumns]
  | .literal _ => by simp [renumber, directColumns]
  | .function _ arguments => by
    simp [renumber, directColumns, directColumnsOfAll_renumber arguments]

theorem directColumnsOfAll_renumber : (l : List Operation) →
    directColumnsOfAll (renumberAll ρ l) = (directColumnsOfAll l).map (ColumnRef.renumber ρ)
  | [] => by simp [renumberAll, directColumnsOfAll]
  | argument :: rest => by
    simp [renumberAll, directColumnsOfAll, directColumns_renumber argument,
      directColumnsOfAll_renumber rest]

end

@[simp]
theorem isBareJoin_renumber (operation : Operation) :
    (operation.renumber ρ).isBareJoin = operation.isBareJoin := by
  cases operation with
  | join source steps target => cases target <;> simp [renumber, renumberTarget, isBareJoin]
  | _ => simp [renumber, isBareJoin]

mutual

/-- Renaming an alias and renumbering its table commute. -/
theorem renameAlias_renumber (table : TableId) (name : String) : (operation : Operation) →
    (operation.renumber ρ).renameAlias (ρ.table table) name =
      (operation.renameAlias table name).renumber ρ
  | .column reference => by
    simp only [renameAlias, renumber, mapAliases, ColumnRef.renumber, TableAlias.renumber,
      Renumbering.table_inj]
    split <;> rfl
  | .join source steps target => by
    have htarget := renameAliasOfTarget_renumber table name target
    simp only [renameAlias, renumber, mapAliases, TableAlias.renumber,
      Renumbering.table_inj] at htarget ⊢
    rw [htarget]
    split <;> simp [JoinStep.mapDatabase, JoinStep.renumber]
  | .literal _ => by simp [renameAlias, renumber, mapAliases]
  | .function _ arguments => by
    have hall := renameAliasOfAll_renumber table name arguments
    simp only [renameAlias, renumber, mapAliases] at hall ⊢
    rw [hall]

theorem renameAliasOfTarget_renumber (table : TableId) (name : String) :
    (target : Option Operation) →
      mapAliasesOfTarget (fun a => if a.table = ρ.table table then { a with name := name } else a) id
          (renumberTarget ρ target) =
        renumberTarget ρ (mapAliasesOfTarget
          (fun a => if a.table = table then { a with name := name } else a) id target)
  | none => by simp [renumberTarget, mapAliasesOfTarget]
  | some target => by
    have htarget := renameAlias_renumber table name target
    simp only [renameAlias] at htarget
    simp only [renumberTarget, mapAliasesOfTarget, htarget]

theorem renameAliasOfAll_renumber (table : TableId) (name : String) : (l : List Operation) →
    mapAliasesOfAll (fun a => if a.table = ρ.table table then { a with name := name } else a) id
        (renumberAll ρ l) =
      renumberAll ρ (mapAliasesOfAll
        (fun a => if a.table = table then { a with name := name } else a) id l)
  | [] => by simp [renumberAll, mapAliasesOfAll]
  | argument :: rest => by
    have hfirst := renameAlias_renumber table name argument
    simp only [renameAlias] at hfirst
    simp only [renumberAll, mapAliasesOfAll, hfirst, renameAliasOfAll_renumber table name rest]

end

end Operation

/-- The far side of a renumbered join is the renumbered far side. -/
theorem Join.otherSide?_renumber (j : Join) (table : TableId) :
    (j.renumber ρ).otherSide? (ρ.table table) = (j.otherSide? table).map ρ.table := by
  have hcontains : (j.renumber ρ).contains (ρ.table table) = j.contains table := by
    simp [contains, renumber]
  unfold otherSide?
  rw [hcontains]
  cases hself : j.selfJoin with
  | true =>
    simp only [renumber, hself, if_true]
    split <;> rfl
  | false =>
    simp only [renumber, hself]
    rcases j.tables with _ | ⟨a, _ | ⟨b, _ | ⟨c, rest⟩⟩⟩
    · rfl
    · rfl
    · simp only [List.map_cons, List.map_nil, Renumbering.table_inj]
      split
      · simp_all
      · split <;> simp_all
    · rfl

/-- Names denote the renumbered columns. -/
theorem Table.column?_renumber (t : Table) (name : String) :
    (t.renumber ρ).column? name = (t.column? name).map (Column.renumber ρ) := by
  rw [column?, renumber, List.find?_map]
  rfl

/-- Names denote the renumbered tables. -/
theorem Schema.table?_renumber (s : Schema) (name : String) :
    (s.renumber ρ).table? name = (s.table? name).map ρ.table := by
  rw [table?, renumber, lookup_map_snd]
  rfl

/-- Names denote the renumbered schemas. -/
theorem Database.schema?_renumber (d : Database) (name : String) :
    (d.renumber ρ).schema? name = (d.schema? name).map (Schema.renumber ρ) := by
  rw [schema?, renumber, List.find?_map]
  rfl

theorem endAlias_renumber (source : TableAlias) (steps : List JoinStep) :
    Resolver.endAlias (source.renumber ρ) (steps.map (JoinStep.renumber ρ)) =
      (Resolver.endAlias source steps).renumber ρ := by
  unfold Resolver.endAlias
  rw [List.getLast?_map]
  cases steps.getLast? <;> rfl

end ObjectRelational
