import ObjectRelational.Proofs.Recorded
import ObjectRelational.Store.View

/-!
# Names of a store where they are written

A source names elements of a store: databases in front of other names, tables, columns, joins and filters.
What a name denotes can be told from the store alone. A name denotes the element of the nearest database
that declares one of the name, and a join only if it is registered already.

* `Occurrence` is a name at its place. `Source.Operation.occurrences` and its companions list the names of a
  source in the order in which they are written.
* `Perspective`, `Occurrence.symbol?`: what a name denotes, with the database that declares the element.
* `Recorded.Records`: a resolution that has a value has recorded what is expected.
* `Resolver.Agrees`: the lookups of a resolver find what names denote from a perspective.
* `Resolver.resolve_records`, `Resolver.filter_records`, `Resolver.view_records`: what is resolved is
  recorded, every name once.
-/

namespace ObjectRelational

/-! ## Occurrences -/

/-- A name of a store element where it is written, with all that tells where the element is looked for. -/
inductive Occurrence where
  /-- A database: one that is included, or the marker in front of another name. -/
  | database (name : Name)
  | table (database schema : Option Name) (table : Name)
  | column (database schema : Option Name) (table column : Name)
  | join (database : Option Name) (name : Name)
  | filter (database : Option Name) (name : Name)

/-- The place of a name. -/
def Occurrence.span : Occurrence → Span
  | database name => name.span
  | table _ _ name => name.span
  | column _ _ _ name => name.span
  | join _ name => name.span
  | filter _ name => name.span

namespace Source

/-- The database in front of a name, if one is written there. -/
def markerOccurrences (marker : Option Name) : List Occurrence := marker.toList.map .database

/-- The names of a table reference. -/
def TableReference.occurrences (reference : TableReference) : List Occurrence :=
  [.database reference.database, .table (some reference.database) reference.schema reference.table]

/-- The names of a column reference. -/
def ColumnReference.occurrences (reference : ColumnReference) : List Occurrence :=
  markerOccurrences reference.database ++
    [.table reference.database reference.schema reference.table,
      .column reference.database reference.schema reference.table reference.column]

/-- The names of a join in a path. -/
def JoinReference.occurrences (reference : JoinReference) : List Occurrence :=
  markerOccurrences reference.database ++ [.join reference.database reference.name]

/-- The names of a filter reference: those of the joins that lead to it, and its own. -/
def FilterReference.occurrences (reference : FilterReference) : List Occurrence :=
  reference.joins.flatMap JoinReference.occurrences ++
    (markerOccurrences reference.database ++ [.filter reference.database reference.name])

namespace Operation

mutual

/-- The names of an expression. A column of the far side of a self join is one of the table that `far` is a
column of; anywhere else such a column is not accepted. -/
def occurrences (far : Option ColumnReference) : Operation → List Occurrence
  | column reference => reference.occurrences
  | targetColumn name => far.toList.map fun t => .column t.database t.schema t.table name
  | joinPath joins target =>
    joins.flatMap JoinReference.occurrences ++ occurrencesOfTarget far target
  | literal _ => []
  | function _ arguments => occurrencesOfAll far arguments

/-- The names of the expression at the end of a path. -/
def occurrencesOfTarget (far : Option ColumnReference) : Option Operation → List Occurrence
  | none => []
  | some target => occurrences far target

/-- The names of expressions. -/
def occurrencesOfAll (far : Option ColumnReference) : List Operation → List Occurrence
  | [] => []
  | argument :: rest => occurrences far argument ++ occurrencesOfAll far rest

end

theorem occurrencesOfAll_eq_flatMap (far : Option ColumnReference) (operations : List Operation) :
    occurrencesOfAll far operations = operations.flatMap (occurrences far) := by
  induction operations with
  | nil => rfl
  | cons argument rest ih => rw [occurrencesOfAll, ih, List.flatMap_cons]

end Operation

/-- The names of a join path. -/
def JoinPath.occurrences (path : JoinPath) : List Occurrence :=
  path.joins.flatMap JoinReference.occurrences ++ Operation.occurrencesOfTarget none path.target

/-- The names of the condition of a join. The far side of a self join is the table of its columns. -/
def Join.occurrences (join : Join) : List Occurrence :=
  join.condition.occurrences join.condition.directColumns.head?

/-- The names of the condition of a filter. -/
def Filter.occurrences (filter : Filter) : List Occurrence := filter.condition.occurrences none

/-- The names of a view: of its columns, its filter and its grouping. -/
def View.occurrences (view : View) : List Occurrence :=
  view.columns.flatMap (fun column => column.operation.occurrences none) ++
    (view.filter.toList.flatMap FilterReference.occurrences ++
      Operation.occurrencesOfAll none view.groupBy)

end Source

/-! ## What names denote -/

/-- Where names are read from: a store, the database and the schema of names that are written without one,
and how many joins of the store are registered already. -/
structure Perspective where
  store : Store
  database : Option DatabaseId
  defaultSchema : String
  joins : Nat

namespace Perspective

/-- The database that an element is addressed in. -/
def addressed? (p : Perspective) : Option Name → Option DatabaseId
  | some name => p.store.databaseNamed? name.value
  | none => p.database

/-- The schema that a table is looked for in. -/
def schemaName (p : Perspective) (schema : Option Name) : String :=
  (schema.map (·.value)).getD p.defaultSchema

/-- The name of the nearest database that declares what is looked for. -/
def declarer? {α : Type} (p : Perspective) (marker : Option Name)
    (declared : Database → Option α) : Option String :=
  (p.addressed? marker).bind fun id =>
    p.store.findVisible? id fun d => (declared d).map fun _ => d.name

/-- The name of the database that declares a table. -/
def tableDeclarer? (p : Perspective) (marker schema : Option Name) (table : Name) :
    Option String :=
  p.declarer? marker fun d => (d.schema? (p.schemaName schema)).bind fun s => s.table? table.value

end Perspective

/-- The element that a name denotes, named by the database that declares it. -/
def Occurrence.symbol? (p : Perspective) : Occurrence → Option Symbol
  | database name => (p.store.databaseNamed? name.value).map fun _ => .database name.value
  | table marker schema name =>
    (p.tableDeclarer? marker schema name).map fun owner =>
      .table owner (p.schemaName schema) name.value
  | column marker schema owner name =>
    (p.tableDeclarer? marker schema owner).map fun declarer =>
      .column declarer (p.schemaName schema) owner.value name.value
  | join marker name =>
    (p.declarer? marker fun d => (d.joins.lookup name.value).filter fun id => id.index < p.joins).map
      fun owner => .join owner name.value
  | filter marker name =>
    (p.declarer? marker fun d => d.filters.lookup name.value).map fun owner =>
      .filter owner name.value

/-- The usage that a name is. -/
def Occurrence.usage? (p : Perspective) (o : Occurrence) : Option Usage :=
  (o.symbol? p).map fun symbol => ⟨symbol, o.span⟩

/-- The usages that names are. -/
def Perspective.usages (p : Perspective) (occurrences : List Occurrence) : List (Option Usage) :=
  occurrences.map (Occurrence.usage? p)

namespace Perspective

variable (p : Perspective)

@[simp] theorem usages_append (l l' : List Occurrence) :
    p.usages (l ++ l') = p.usages l ++ p.usages l' := List.map_append

theorem usages_singleton {o : Occurrence} {symbol : Symbol} (h : o.symbol? p = some symbol) :
    p.usages [o] = [some ⟨symbol, o.span⟩] := by
  simp [usages, Occurrence.usage?, h]

@[simp] theorem usages_flatMap {α : Type} (f : α → List Occurrence) (l : List α) :
    p.usages (l.flatMap f) = l.flatMap fun a => p.usages (f a) := List.map_flatMap

end Perspective

/-! ## What is recorded -/

namespace Recorded

variable {α β : Type} {x : Recorded α} {f : α → Recorded β} {expected others : List (Option Usage)}

/-- When the resolution has a value, it has recorded what is expected. -/
def Records (x : Recorded α) (expected : List (Option Usage)) : Prop :=
  ∀ a, x.result = .ok a → x.usages.map some = expected

theorem records_pure (a : α) : (pure a : Recorded α).Records [] := fun _ _ => rfl

theorem records_ofResult (x : Resolved α) : (ofResult x).Records [] := fun _ _ => rfl

theorem records_monadLift (x : Resolved α) : (monadLift x : Recorded α).Records [] := fun _ _ => rfl

theorem records_record (symbol : Symbol) (span : Span) :
    (record symbol span).Records [some ⟨symbol, span⟩] := fun _ _ => rfl

theorem records_self (x : Recorded α) : x.Records (x.usages.map some) := fun _ _ => rfl

/-- A resolution that fails has nothing to account for. -/
theorem records_of_error {failure : Failure} (h : x.result = .error failure) : x.Records expected := by
  intro a ha
  rw [h] at ha
  cases ha

theorem Records.bind (hx : x.Records expected) (hf : ∀ a, x.result = .ok a → (f a).Records others) :
    (x >>= f).Records (expected ++ others) := by
  intro b hb
  rcases result_bind_eq_ok_iff.1 hb with ⟨a, ha, hb⟩
  rw [usages_bind ha, List.map_append, hx a ha, hf a ha b hb]

/-- A step that records nothing does not count. -/
theorem Records.bind_silent (hx : x.Records []) (hf : ∀ a, x.result = .ok a → (f a).Records others) :
    (x >>= f).Records others := hx.bind hf

/-- Nor does one at the end. -/
theorem Records.bind_last (hx : x.Records expected) (hf : ∀ a, x.result = .ok a → (f a).Records []) :
    (x >>= f).Records expected := by
  have hboth := hx.bind hf
  rwa [List.append_nil] at hboth

theorem records_forAll {l : List α} {expected : α → List (Option Usage)}
    (h : ∀ a ∈ l, (f a).Records (expected a)) : (forAll f l).Records (l.flatMap expected) := by
  induction l with
  | nil => exact records_pure []
  | cons a rest ih =>
    have hrest := ih fun a' ha' => h a' (List.mem_cons_of_mem _ ha')
    exact (h a List.mem_cons_self).bind fun b _ => hrest.bind_last fun bs _ => records_pure _

/-- Steps that keep what each of them relies on record what each of them does. -/
theorem records_foldlM {P : β → Prop} {f : β → α → Recorded β} {l : List α} {b : β}
    {expected : α → List (Option Usage)} (hb : P b)
    (hstep : ∀ b, P b → ∀ a ∈ l, (f b a).Records (expected a) ∧
      ∀ b', (f b a).result = .ok b' → P b') : (l.foldlM f b).Records (l.flatMap expected) := by
  induction l generalizing b with
  | nil => exact records_pure b
  | cons a rest ih =>
    rcases hstep b hb a List.mem_cons_self with ⟨hfirst, hkept⟩
    rw [List.foldlM_cons, List.flatMap_cons]
    exact hfirst.bind fun b' hb' => ih (hkept b' hb') fun b hb a' ha' =>
      hstep b hb a' (List.mem_cons_of_mem _ ha')

end Recorded

/-! ## Resolvers -/

namespace Resolver

open Recorded

variable {r : Resolver} {p : Perspective} {far : Option Source.ColumnReference}

/-- The lookups of a resolver find what names denote from a perspective; and `far` is a column of the far
side of the self join that is resolved. -/
structure Agrees (r : Resolver) (p : Perspective) (far : Option Source.ColumnReference) : Prop where
  database : ∀ {name id}, r.lookupDatabase name = .ok id →
    (Occurrence.database name).symbol? p = some (.database name.value)
  table : ∀ {marker schema table found}, r.lookupTable marker schema table = .ok found →
    (Occurrence.table marker schema table).symbol? p = some (r.store.tableSymbol found.table)
  column : ∀ {marker schema table found} (column : Name),
    r.lookupTable marker schema table = .ok found →
    (Occurrence.column marker schema table column).symbol? p =
      some (r.store.columnSymbol found.table column.value)
  join : ∀ {reference id join addressed}, r.lookupJoin reference = .ok (id, join, addressed) →
    (Occurrence.join reference.database reference.name).symbol? p =
      some (.join (r.store.databaseName join.database) join.name)
  farSide : ∀ target, r.selfJoinTarget = some target → ∃ reference found, far = some reference ∧
    r.lookupTable reference.database reference.schema reference.table = .ok found ∧
    found.table = target.table

theorem addressed_records (h : r.Agrees p far) (marker : Option Name) :
    (r.addressed marker).Records (p.usages (Source.markerOccurrences marker)) := by
  refine (records_monadLift _).bind_silent fun id hid => ?_
  cases marker with
  | none => exact (records_pure ()).bind_last fun _ _ => records_pure id
  | some name =>
    have husage : p.usages (Source.markerOccurrences (some name)) =
        [some ⟨.database name.value, name.span⟩] := p.usages_singleton (h.database hid)
    rw [husage]
    exact (records_record _ _).bind_last fun _ _ => records_pure id

theorem table_records (h : r.Agrees p far) (marker schema : Option Name) (table : Name) :
    (r.table marker schema table).Records (p.usages (Source.markerOccurrences marker ++
      [.table marker schema table])) := by
  refine (records_monadLift _).bind_silent fun found hfound => ?_
  rw [Perspective.usages_append, p.usages_singleton (h.table hfound)]
  refine (addressed_records h marker).bind fun _ _ => ?_
  exact (records_record _ _).bind_last fun _ _ => records_pure found

theorem result_table {marker schema : Option Name} {table : Name} {found : TableAlias}
    (h : (r.table marker schema table).result = .ok found) :
    r.lookupTable marker schema table = .ok found := by
  rcases result_bind_eq_ok_iff.1 h with ⟨looked, hlooked, h⟩
  rcases result_bind_eq_ok_iff.1 h with ⟨_, -, h⟩
  rcases Except.ok.inj h with rfl
  exact hlooked

/-- A column of a table is recorded as one of the table that a name denotes. -/
theorem columnOf_records (h : r.Agrees p far) {marker schema : Option Name} {table : Name}
    {found owner : TableAlias} (hfound : r.lookupTable marker schema table = .ok found)
    (howner : found.table = owner.table) (column : Name) :
    (r.columnOf owner column).Records (p.usages [.column marker schema table column]) := by
  have hsymbol := h.column column hfound
  rw [howner] at hsymbol
  rw [p.usages_singleton hsymbol]
  unfold columnOf
  split
  · exact (records_record _ _).bind_last fun _ _ => records_pure _
  · exact records_of_error rfl

theorem column_records (h : r.Agrees p far) (reference : Source.ColumnReference) :
    (r.column reference).Records (p.usages reference.occurrences) := by
  have hsplit : reference.occurrences = (Source.markerOccurrences reference.database ++
      [.table reference.database reference.schema reference.table]) ++
      [.column reference.database reference.schema reference.table reference.column] := by
    simp [Source.ColumnReference.occurrences]
  rw [hsplit, Perspective.usages_append]
  refine (table_records h _ _ _).bind fun owner howner => ?_
  exact columnOf_records h (result_table howner) rfl reference.column

theorem steps_records (h : r.Agrees p far) (cursor : TableId) (joins : List Source.JoinReference) :
    (r.steps cursor joins).Records (p.usages (joins.flatMap Source.JoinReference.occurrences)) := by
  induction joins generalizing cursor with
  | nil => exact records_pure []
  | cons reference rest ih =>
    refine (records_monadLift _).bind_silent fun found hfound => ?_
    rw [List.flatMap_cons, Source.JoinReference.occurrences, List.append_assoc,
      Perspective.usages_append, Perspective.usages_append, p.usages_singleton (h.join hfound)]
    refine (addressed_records h _).bind fun _ _ => (records_record _ _).bind fun _ _ => ?_
    split
    · exact records_of_error rfl
    · rename_i next _
      exact (ih next).bind_last fun _ _ => records_pure _

mutual

/-- An expression that is resolved records every name that is written in it, once and in order. -/
theorem resolve_records (h : r.Agrees p far) (source : Option TableAlias) :
    ∀ operation : Source.Operation,
      (r.resolve source operation).Records (p.usages (operation.occurrences far))
  | .column reference => by
    rw [Resolver.resolve, Source.Operation.occurrences]
    exact (column_records h reference).bind_last fun _ _ => records_pure _
  | .targetColumn column => by
    rw [Resolver.resolve, Source.Operation.occurrences]
    cases htarget : r.selfJoinTarget with
    | none => exact records_of_error rfl
    | some target =>
      rcases h.farSide target htarget with ⟨reference, found, rfl, hfound, hsame⟩
      exact (columnOf_records h hfound hsame column).bind_last fun _ _ => records_pure _
  | .joinPath joins target => by
    rw [Resolver.resolve, Source.Operation.occurrences]
    exact (resolvePath_records h source joins target).bind_last fun _ _ => records_pure _
  | .literal value => by
    rw [Resolver.resolve, Source.Operation.occurrences]
    exact records_pure _
  | .function name arguments => by
    rw [Resolver.resolve, Source.Operation.occurrences]
    exact (resolveAll_records h source arguments).bind_last fun _ _ => records_pure _

/-- A path records its joins and what is at its end; finding out where it starts records nothing. -/
theorem resolvePath_records (h : r.Agrees p far) (source : Option TableAlias)
    (joins : List Source.JoinReference) : ∀ target : Option Source.Operation,
      (r.resolvePath source joins target).Records
        (p.usages (joins.flatMap Source.JoinReference.occurrences ++
          Source.Operation.occurrencesOfTarget far target))
  | none => by
    rw [resolvePath, Source.Operation.occurrencesOfTarget, List.append_nil]
    refine (records_monadLift _).bind_silent fun start _ => ?_
    exact (steps_records h start.table joins).bind_last fun _ _ => records_pure _
  | some target => by
    rw [resolvePath, Source.Operation.occurrencesOfTarget, Perspective.usages_append]
    refine (records_monadLift _).bind_silent fun start _ => ?_
    refine (steps_records h start.table joins).bind fun steps _ => ?_
    refine (resolve_records h (some (endAlias start steps)) target).bind_last fun operation _ => ?_
    exact (records_monadLift _).bind_silent fun _ _ => records_pure _

theorem resolveAll_records (h : r.Agrees p far) (source : Option TableAlias) :
    ∀ operations : List Source.Operation,
      (r.resolveAll source operations).Records
        (p.usages (Source.Operation.occurrencesOfAll far operations))
  | [] => by
    rw [resolveAll, Source.Operation.occurrencesOfAll]
    exact records_pure []
  | argument :: rest => by
    rw [resolveAll, Source.Operation.occurrencesOfAll, Perspective.usages_append]
    refine (resolve_records h source argument).bind fun _ _ => ?_
    exact (resolveAll_records h source rest).bind_last fun _ _ => records_pure _

end

/-! ### Filters -/

/-- The resolver finds the filters that names denote from a perspective. -/
def AgreesOnFilters (r : Resolver) (p : Perspective) : Prop :=
  ∀ marker name addressed id found, r.lookupAddressed marker = .ok addressed →
    r.store.findFilter? addressed name.value = some id → r.store.filter? id = some found →
    (Occurrence.filter marker name).symbol? p =
      some (.filter (r.store.databaseName found.database) name.value)

theorem filterJoins_records (h : r.Agrees p far) (source : Option TableAlias)
    (joins : List Source.JoinReference) : (r.filterJoins source joins).Records
      (p.usages (joins.flatMap Source.JoinReference.occurrences)) := by
  cases joins with
  | nil => exact records_pure []
  | cons first rest =>
    cases source with
    | none => exact records_of_error rfl
    | some source => exact steps_records h source.table (first :: rest)

theorem result_addressed {marker : Option Name} {id : DatabaseId}
    (h : (r.addressed marker).result = .ok id) : r.lookupAddressed marker = .ok id := by
  rcases result_bind_eq_ok_iff.1 h with ⟨looked, hlooked, h⟩
  cases marker with
  | none =>
    rcases Except.ok.inj h with rfl
    exact hlooked
  | some name =>
    rcases Except.ok.inj h with rfl
    exact hlooked

/-- A filter that is resolved records the joins that lead to it, its database and its name. -/
theorem filter_records (h : r.Agrees p far) (hfilters : r.AgreesOnFilters p)
    (source : Option TableAlias) (reference : Source.FilterReference) :
    (r.filter source reference).Records (p.usages reference.occurrences) := by
  rw [Source.FilterReference.occurrences, Perspective.usages_append, Perspective.usages_append]
  refine (filterJoins_records h source reference.joins).bind fun joins _ => ?_
  refine (addressed_records h reference.database).bind fun addressed haddressed => ?_
  dsimp only
  split
  · exact records_of_error rfl
  · rename_i id hid
    split
    · exact records_of_error rfl
    · rename_i found hfound
      rw [p.usages_singleton (hfilters _ _ _ _ _ (result_addressed haddressed) hid hfound)]
      exact (records_record _ _).bind_last fun _ _ => records_pure _

theorem filter?_records (h : r.Agrees p far) (hfilters : r.AgreesOnFilters p) (main : TableAlias)
    (reference : Option Source.FilterReference) : (r.filter? main reference).Records
      (p.usages (reference.toList.flatMap Source.FilterReference.occurrences)) := by
  cases reference with
  | none => exact records_pure none
  | some reference =>
    rw [Option.toList_some, List.flatMap_singleton]
    exact (filter_records h hfilters (some main) reference).bind_last fun _ _ => records_pure _

/-! ### Views -/

/-- A view records its columns, its filter and its grouping; finding its main table records nothing. -/
theorem view_records (h : r.Agrees p none) (hfilters : r.AgreesOnFilters p) (source : Source.View) :
    (r.view source).Records (p.usages source.occurrences) := by
  have hcolumn : ∀ main, ∀ column ∈ source.columns, (r.viewColumn source.name main column).Records
      (p.usages (column.operation.occurrences none)) := by
    intro main column _
    refine (resolve_records h (some main) column.operation).bind_last fun operation _ => ?_
    split
    · exact records_of_error rfl
    · exact records_pure _
  have hgroup : ∀ main (expressions : List Source.Operation),
      (forAll (r.viewGroupBy source main) expressions).Records
        (p.usages (Source.Operation.occurrencesOfAll none expressions)) := by
    intro main expressions
    rw [Source.Operation.occurrencesOfAll_eq_flatMap, Perspective.usages_flatMap]
    refine records_forAll fun expression _ => ?_
    refine (resolve_records h (some main) expression).bind_last fun operation _ => ?_
    split
    · exact records_of_error rfl
    · exact records_pure _
  rw [Source.View.occurrences, Perspective.usages_append, Perspective.usages_append,
    Perspective.usages_flatMap]
  refine (records_monadLift _).bind_silent fun main _ => ?_
  refine (records_forAll (hcolumn main)).bind fun columns _ => ?_
  refine (filter?_records h hfilters main source.filter).bind fun filter _ => ?_
  exact (hgroup main source.groupBy).bind_last fun _ _ => records_pure _

end Resolver

end ObjectRelational
