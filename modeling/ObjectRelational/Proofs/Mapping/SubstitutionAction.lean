import Mathlib.Data.List.Forall2
import ObjectRelational.Proofs.Lookup
import ObjectRelational.Proofs.Mapping.Databases
import ObjectRelational.Proofs.Substitution

/-!
# Substitutions act on mappings

What is seen through an include has its databases mapped by a substitution, and nothing else about it
changes. To say so, things are compared but for their databases: they are of one form, with the same tables,
joins, columns, names, ids and spans, and the databases in the same places are related to each other.

* `Operation.Alike`, `JoinChain.Alike`, `FilterPointer.Alike`, `PropertyMapping.Alike`: things that are alike
  but for databases, and related databases in the same places.
* `Operation.alike_mapDatabases` and its companions: what is mapped is alike, with every database next to
  that to which it is mapped.
* `Operation.mapDatabases_eq_of_alike` and its companions: only one thing is like that, so that no database is
  forgotten or mapped twice.
* `MapsDatabases`: the laws of mapping databases. `Substitution.acts_on_mappings`: they hold for all that an
  include rewrites, and substitutions compose with them.
-/

namespace ObjectRelational

variable {R : DatabaseId → DatabaseId → Prop} {f : DatabaseId → DatabaseId}

/-! ## Alike but for databases

Everywhere `R` tells which databases may stand in the same place. If any two of them may, being alike is
being the same but for databases; if only `d` and `f d` may, every database has been mapped by `f`. -/

/-- The same table by the same name, reached through related databases. -/
structure TableAlias.Alike (R : DatabaseId → DatabaseId → Prop) (a b : TableAlias) : Prop where
  name : a.name = b.name
  table : a.table = b.table
  database : R a.database b.database

/-- The same column of tables that are alike. -/
structure ColumnRef.Alike (R : DatabaseId → DatabaseId → Prop) (a b : ColumnRef) : Prop where
  tableAlias : a.tableAlias.Alike R b.tableAlias
  column : a.column = b.column

/-- The same step along the same join, addressed through related databases. -/
structure JoinStep.Alike (R : DatabaseId → DatabaseId → Prop) (a b : JoinStep) : Prop where
  join : a.join = b.join
  name : a.name = b.name
  database : R a.database b.database
  joinType : a.joinType = b.joinType
  source : a.source = b.source
  target : a.target = b.target
  targetAlias : a.targetAlias = b.targetAlias

/-- Expressions of one form, all parts of which are alike. -/
inductive Operation.Alike (R : DatabaseId → DatabaseId → Prop) : Operation → Operation → Prop
  | column {a b : ColumnRef} (h : a.Alike R b) : Alike R (.column a) (.column b)
  | join {source source' : TableAlias} {steps steps' : List JoinStep} {target target' : Option Operation}
    (hsource : source.Alike R source') (hsteps : List.Forall₂ (JoinStep.Alike R) steps steps')
    (htarget : Option.Rel (Operation.Alike R) target target') :
    Alike R (.join source steps target) (.join source' steps' target')
  | literal (value : Literal) : Alike R (.literal value) (.literal value)
  | function (name : String) {arguments arguments' : List Operation}
    (h : List.Forall₂ (Operation.Alike R) arguments arguments') :
    Alike R (.function name arguments) (.function name arguments')

/-- Paths from tables that are alike, along steps that are alike, to ends that are alike. -/
structure JoinChain.Alike (R : DatabaseId → DatabaseId → Prop) (a b : JoinChain) : Prop where
  source : a.source.Alike R b.source
  steps : List.Forall₂ (JoinStep.Alike R) a.steps b.steps
  target : Option.Rel (Operation.Alike R) a.target b.target

/-- The same filter by the same name, addressed through related databases and at the end of steps that are
alike. -/
structure FilterPointer.Alike (R : DatabaseId → DatabaseId → Prop) (a b : FilterPointer) : Prop where
  filter : a.filter = b.filter
  name : a.name = b.name
  database : R a.database b.database
  joins : List.Forall₂ (JoinStep.Alike R) a.joins b.joins

/-- Ways to the same mapping, along paths that are alike. -/
structure Otherwise.Alike (R : DatabaseId → DatabaseId → Prop) (a b : Otherwise) : Prop where
  targetId : a.targetId = b.targetId
  join : a.join.Alike R b.join

mutual

/-- The same property, mapped to values that are alike. -/
inductive PropertyMapping.Alike (R : DatabaseId → DatabaseId → Prop) :
    PropertyMapping → PropertyMapping → Prop
  | mk (property sourceId : String) (targetId : Option String) (localType : Option Source.LocalProperty)
    {value value' : PropertyValue} (h : value.Alike R value') (span : Span) :
    PropertyMapping.Alike R ⟨property, sourceId, targetId, localType, value, span⟩
      ⟨property, sourceId, targetId, localType, value', span⟩

/-- Values of one kind, all parts of which are alike, at any depth. -/
inductive PropertyValue.Alike (R : DatabaseId → DatabaseId → Prop) : PropertyValue → PropertyValue → Prop
  | relational {operation operation' : Operation} (h : operation.Alike R operation')
    (transformer : Option String) :
    PropertyValue.Alike R (.relational operation transformer) (.relational operation' transformer)
  | embedded (id className : String) {primaryKey primaryKey' : List Operation}
    {inner inner' : List PropertyMapping} {otherwise otherwise' : Option Otherwise}
    (hkey : List.Forall₂ (Operation.Alike R) primaryKey primaryKey')
    (hinner : List.Forall₂ (PropertyMapping.Alike R) inner inner')
    (hotherwise : Option.Rel (Otherwise.Alike R) otherwise otherwise') :
    PropertyValue.Alike R (.embedded id className primaryKey inner otherwise)
      (.embedded id className primaryKey' inner' otherwise')
  | inline (targetId : String) : PropertyValue.Alike R (.inline targetId) (.inline targetId)

end

/-! ## What is mapped is alike -/

theorem TableAlias.alike_mapDatabase (hf : ∀ d, R d (f d)) (a : TableAlias) :
    a.Alike R (a.mapDatabase f) :=
  ⟨rfl, rfl, hf a.database⟩

theorem JoinStep.alike_mapDatabase (hf : ∀ d, R d (f d)) (step : JoinStep) :
    step.Alike R (step.mapDatabase f) :=
  ⟨rfl, rfl, hf step.database, rfl, rfl, rfl, rfl⟩

theorem forall₂_map_of_forall {α : Type} {S : α → α → Prop} {g : α → α} (h : ∀ a, S a (g a)) (l : List α) :
    List.Forall₂ S l (l.map g) :=
  List.forall₂_map_right_iff.2 (List.forall₂_same.2 fun a _ => h a)

theorem rel_map_of_forall {α : Type} {S : α → α → Prop} {g : α → α} (h : ∀ a, S a (g a)) :
    (o : Option α) → Option.Rel S o (o.map g)
  | none => .none
  | some a => .some (h a)

namespace Operation

mutual

theorem alike_mapDatabases (hf : ∀ d, R d (f d)) : (operation : Operation) →
    operation.Alike R (operation.mapDatabases f)
  | .column reference => .column ⟨reference.tableAlias.alike_mapDatabase hf, rfl⟩
  | .join source steps target =>
    .join (source.alike_mapDatabase hf) (forall₂_map_of_forall (JoinStep.alike_mapDatabase hf) steps)
      (alike_mapDatabasesOfTarget hf target)
  | .literal value => .literal value
  | .function name arguments => .function name (alike_mapDatabasesOfAll hf arguments)

theorem alike_mapDatabasesOfTarget (hf : ∀ d, R d (f d)) : (target : Option Operation) →
    Option.Rel (Operation.Alike R) target (mapAliasesOfTarget (TableAlias.mapDatabase f) f target)
  | none => .none
  | some target => .some (alike_mapDatabases hf target)

theorem alike_mapDatabasesOfAll (hf : ∀ d, R d (f d)) : (arguments : List Operation) →
    List.Forall₂ (Operation.Alike R) arguments (mapAliasesOfAll (TableAlias.mapDatabase f) f arguments)
  | [] => .nil
  | argument :: rest => .cons (alike_mapDatabases hf argument) (alike_mapDatabasesOfAll hf rest)

end

end Operation

theorem JoinChain.alike_mapDatabases (hf : ∀ d, R d (f d)) (chain : JoinChain) :
    chain.Alike R (chain.mapDatabases f) where
  source := chain.source.alike_mapDatabase hf
  steps := forall₂_map_of_forall (JoinStep.alike_mapDatabase hf) chain.steps
  target := Operation.alike_mapDatabasesOfTarget hf chain.target

theorem FilterPointer.alike_mapDatabases (hf : ∀ d, R d (f d)) (pointer : FilterPointer) :
    pointer.Alike R (pointer.mapDatabases f) where
  filter := rfl
  name := rfl
  database := hf pointer.database
  joins := forall₂_map_of_forall (JoinStep.alike_mapDatabase hf) pointer.joins

theorem Otherwise.alike_mapDatabases (hf : ∀ d, R d (f d)) (otherwise : Otherwise) :
    otherwise.Alike R (otherwise.mapDatabases f) :=
  ⟨rfl, otherwise.join.alike_mapDatabases hf⟩

mutual

theorem PropertyMapping.alike_mapDatabases (hf : ∀ d, R d (f d)) : (m : PropertyMapping) →
    m.Alike R (m.mapDatabases f)
  | ⟨property, sourceId, targetId, localType, value, span⟩ =>
    .mk property sourceId targetId localType (PropertyValue.alike_mapDatabases hf value) span

theorem PropertyValue.alike_mapDatabases (hf : ∀ d, R d (f d)) : (value : PropertyValue) →
    value.Alike R (value.mapDatabases f)
  | .relational operation transformer => .relational (operation.alike_mapDatabases hf) transformer
  -- databases stand in the key, in the mappings inside and on the way to other properties
  | .embedded id className primaryKey inner otherwise =>
    .embedded id className (forall₂_map_of_forall (Operation.alike_mapDatabases hf) primaryKey)
      (alike_mapDatabasesOfMappings hf inner) (rel_map_of_forall (Otherwise.alike_mapDatabases hf) otherwise)
  | .inline targetId => .inline targetId

theorem alike_mapDatabasesOfMappings (hf : ∀ d, R d (f d)) : (l : List PropertyMapping) →
    List.Forall₂ (PropertyMapping.Alike R) l (mapDatabasesOfMappings f l)
  | [] => .nil
  | m :: rest => .cons (PropertyMapping.alike_mapDatabases hf m) (alike_mapDatabasesOfMappings hf rest)

end

/-! ## What is alike by a function is what is mapped -/

theorem TableAlias.Alike.mapDatabase_eq {a b : TableAlias} (h : a.Alike (fun d e => f d = e) b) :
    a.mapDatabase f = b := by
  obtain ⟨_, _, _⟩ := b
  obtain ⟨rfl, rfl, rfl⟩ := h
  rfl

theorem JoinStep.Alike.mapDatabase_eq {a b : JoinStep} (h : a.Alike (fun d e => f d = e) b) :
    a.mapDatabase f = b := by
  obtain ⟨_, _, _, _, _, _, _⟩ := b
  obtain ⟨rfl, rfl, rfl, rfl, rfl, rfl, rfl⟩ := h
  rfl

theorem map_eq_of_forall₂ {α : Type} {S : α → α → Prop} {g : α → α} {l l' : List α}
    (hS : ∀ a b, S a b → g a = b) (h : List.Forall₂ S l l') : l.map g = l' :=
  (map_eq_map_of_forall₂ h hS).trans (List.map_id l')

theorem map_eq_of_rel {α : Type} {S : α → α → Prop} {g : α → α} (hS : ∀ a b, S a b → g a = b) :
    {o o' : Option α} → Option.Rel S o o' → o.map g = o'
  | _, _, .none => rfl
  | _, _, .some h => congrArg some (hS _ _ h)

theorem map_mapDatabase_eq_of_alike {steps others : List JoinStep}
    (h : List.Forall₂ (JoinStep.Alike fun d e => f d = e) steps others) :
    steps.map (JoinStep.mapDatabase f) = others :=
  map_eq_of_forall₂ (fun _ _ hstep => hstep.mapDatabase_eq) h

namespace Operation

-- The recursion is on the expression that is mapped. The other one has the same form, and it goes along.
mutual

theorem mapDatabases_eq_of_alike : (operation : Operation) → {other : Operation} →
    operation.Alike (fun d e => f d = e) other → operation.mapDatabases f = other
  | .column _, _, .column h => by
    rw [mapDatabases, mapAliases, h.tableAlias.mapDatabase_eq, h.column]
  | .join _ _ target, _, .join hsource hsteps htarget => by
    rw [mapDatabases, mapAliases, hsource.mapDatabase_eq, map_mapDatabase_eq_of_alike hsteps,
      mapDatabasesOfTarget_eq_of_alike target htarget]
  | .literal _, _, .literal _ => rfl
  | .function _ arguments, _, .function _ h => by
    rw [mapDatabases, mapAliases, mapDatabasesOfAll_eq_of_alike arguments h]

theorem mapDatabasesOfTarget_eq_of_alike : (target : Option Operation) → {other : Option Operation} →
    Option.Rel (Operation.Alike fun d e => f d = e) target other →
    mapAliasesOfTarget (TableAlias.mapDatabase f) f target = other
  | none, _, .none => rfl
  | some target, _, .some h => congrArg some (mapDatabases_eq_of_alike target h)

theorem mapDatabasesOfAll_eq_of_alike : (arguments : List Operation) → {others : List Operation} →
    List.Forall₂ (Operation.Alike fun d e => f d = e) arguments others →
    mapAliasesOfAll (TableAlias.mapDatabase f) f arguments = others
  | [], _, .nil => rfl
  | argument :: rest, _, .cons h hrest =>
    congrArg₂ List.cons (mapDatabases_eq_of_alike argument h) (mapDatabasesOfAll_eq_of_alike rest hrest)

end

end Operation

theorem JoinChain.mapDatabases_eq_of_alike (chain : JoinChain) {other : JoinChain}
    (h : chain.Alike (fun d e => f d = e) other) : chain.mapDatabases f = other := by
  unfold mapDatabases
  rw [h.source.mapDatabase_eq, map_mapDatabase_eq_of_alike h.steps,
    Operation.mapDatabasesOfTarget_eq_of_alike chain.target h.target]

theorem FilterPointer.mapDatabases_eq_of_alike (pointer : FilterPointer) {other : FilterPointer}
    (h : pointer.Alike (fun d e => f d = e) other) : pointer.mapDatabases f = other := by
  unfold mapDatabases
  rw [h.filter, h.name, h.database, map_mapDatabase_eq_of_alike h.joins]

theorem Otherwise.mapDatabases_eq_of_alike (otherwise : Otherwise) {other : Otherwise}
    (h : otherwise.Alike (fun d e => f d = e) other) : otherwise.mapDatabases f = other := by
  unfold mapDatabases
  rw [h.targetId, otherwise.join.mapDatabases_eq_of_alike h.join]

mutual

theorem PropertyMapping.mapDatabases_eq_of_alike : (m : PropertyMapping) → {other : PropertyMapping} →
    m.Alike (fun d e => f d = e) other → m.mapDatabases f = other
  | ⟨_, _, _, _, value, _⟩, _, .mk _ _ _ _ h _ => by
    rw [PropertyMapping.mapDatabases, PropertyValue.mapDatabases_eq_of_alike value h]

theorem PropertyValue.mapDatabases_eq_of_alike : (value : PropertyValue) → {other : PropertyValue} →
    value.Alike (fun d e => f d = e) other → value.mapDatabases f = other
  | .relational operation _, _, .relational h _ => by
    rw [PropertyValue.mapDatabases, operation.mapDatabases_eq_of_alike h]
  | .embedded _ _ _ inner _, _, .embedded _ _ hkey hinner hotherwise => by
    rw [PropertyValue.mapDatabases,
      map_eq_of_forall₂ (fun operation _ => operation.mapDatabases_eq_of_alike) hkey,
      mapDatabasesOfMappings_eq_of_alike inner hinner,
      map_eq_of_rel (fun otherwise _ => otherwise.mapDatabases_eq_of_alike) hotherwise]
  | .inline _, _, .inline _ => rfl

theorem mapDatabasesOfMappings_eq_of_alike : (l : List PropertyMapping) → {others : List PropertyMapping} →
    List.Forall₂ (PropertyMapping.Alike fun d e => f d = e) l others → mapDatabasesOfMappings f l = others
  | [], _, .nil => rfl
  | m :: rest, _, .cons h hrest =>
    congrArg₂ List.cons (PropertyMapping.mapDatabases_eq_of_alike m h)
      (mapDatabasesOfMappings_eq_of_alike rest hrest)

end

/-! ## The laws of mapping databases -/

/-- The laws of mapping the databases of things of one kind, and of replacing them. -/
structure MapsDatabases {α : Type} (map : (DatabaseId → DatabaseId) → α → α)
    (alike : (DatabaseId → DatabaseId → Prop) → α → α → Prop) : Prop where
  /-- Where every database stays, all stays. -/
  map_id : ∀ x, map id x = x
  /-- Mapping by one function and then by another is mapping once, by one after the other. -/
  map_map : ∀ f g x, map g (map f x) = map (g ∘ f) x
  /-- Replacing by one substitution and then by another is replacing once, by the composed one. -/
  map_andThen : ∀ (s outer : Substitution) x,
    map outer.apply (map s.apply x) = map (s.andThen outer).apply x
  /-- What is mapped differs in databases only. -/
  alike_map : ∀ f x, alike (fun _ _ => True) x (map f x)
  /-- What is mapped is the one thing that has, in the place of every database, that to which it is mapped,
  and everything else as it was. -/
  map_eq_iff : ∀ f x y, map f x = y ↔ alike (fun d e => f d = e) x y

/-- The laws hold if two of them do and what is mapped is alike, in the one way that is possible. -/
theorem MapsDatabases.of_alike {α : Type} {map : (DatabaseId → DatabaseId) → α → α}
    {alike : (DatabaseId → DatabaseId → Prop) → α → α → Prop} (hid : ∀ x, map id x = x)
    (hmap : ∀ f g x, map g (map f x) = map (g ∘ f) x)
    (halike : ∀ {R : DatabaseId → DatabaseId → Prop} {f}, (∀ d, R d (f d)) → ∀ x, alike R x (map f x))
    (hunique : ∀ {f} x {y}, alike (fun d e => f d = e) x y → map f x = y) :
    MapsDatabases map alike where
  map_id := hid
  map_map := hmap
  map_andThen s outer x := by
    rw [hmap, s.apply_andThen_eq_comp outer]
  alike_map _ := halike fun _ => trivial
  map_eq_iff f x y := by
    constructor
    · rintro rfl
      exact halike (fun _ => rfl) x
    · exact hunique x

/-- Substitutions act on mappings. Composed they are applied one after the other, it does not matter which of
three are composed first, and one that replaces nothing adds nothing. They act by mapping the databases of
expressions, of paths, of filters and of property mappings of any depth, and change nothing else. -/
theorem Substitution.acts_on_mappings :
    (∀ (s outer : Substitution) (d : DatabaseId), (s.andThen outer).apply d = outer.apply (s.apply d)) ∧
    (∀ s t u : Substitution, (s.andThen t).andThen u = s.andThen (t.andThen u)) ∧
    (∀ s : Substitution, identity.andThen s = s ∧ s.andThen identity = s) ∧
    MapsDatabases Operation.mapDatabases Operation.Alike ∧
    MapsDatabases JoinChain.mapDatabases JoinChain.Alike ∧
    MapsDatabases FilterPointer.mapDatabases FilterPointer.Alike ∧
    MapsDatabases PropertyMapping.mapDatabases PropertyMapping.Alike := by
  refine ⟨apply_andThen, andThen_assoc, fun s => ⟨s.identity_andThen, s.andThen_identity⟩, ?_, ?_, ?_, ?_⟩
  · exact .of_alike Operation.mapDatabases_id Operation.mapDatabases_mapDatabases
      Operation.alike_mapDatabases Operation.mapDatabases_eq_of_alike
  · exact .of_alike JoinChain.mapDatabases_id JoinChain.mapDatabases_mapDatabases
      JoinChain.alike_mapDatabases JoinChain.mapDatabases_eq_of_alike
  · exact .of_alike FilterPointer.mapDatabases_id FilterPointer.mapDatabases_mapDatabases
      FilterPointer.alike_mapDatabases FilterPointer.mapDatabases_eq_of_alike
  · exact .of_alike PropertyMapping.mapDatabases_id PropertyMapping.mapDatabases_mapDatabases
      PropertyMapping.alike_mapDatabases PropertyMapping.mapDatabases_eq_of_alike

end ObjectRelational
