import ObjectRelational.Mapping.Basic

/-!
# Mapping databases

What a mapping shows through two includes has had its databases mapped twice. That is mapping them once,
by one function after the other, for expressions and property mappings of any depth; and where every
database stays, all stays. What is shown mentions the databases that the mapping itself mentions, mapped.

* `Operation.mapDatabases_mapDatabases`, `Operation.mapDatabases_id`: for expressions.
  `JoinChain.mapDatabases_mapDatabases`, `FilterPointer.mapDatabases_mapDatabases`: for paths and filters.
* `mapDatabasesOfMappings_mapDatabasesOfMappings`, `PropertyMapping.mapDatabases_id`: for property mappings,
  embedded ones included.
* `Operation.databases_mapDatabases`, `PropertyMapping.databases_mapDatabases`: the databases that are
  mentioned.
-/

namespace ObjectRelational

variable (f g : DatabaseId → DatabaseId)

/-! ## Expressions -/

theorem map_mapDatabase_map (steps : List JoinStep) :
    (steps.map (JoinStep.mapDatabase f)).map (JoinStep.mapDatabase g) =
      steps.map (JoinStep.mapDatabase (g ∘ f)) := by
  rw [List.map_map]
  rfl

theorem map_mapDatabase_id (steps : List JoinStep) : steps.map (JoinStep.mapDatabase id) = steps :=
  List.map_id steps

namespace Operation

mutual

theorem mapAliases_mapAliases (a b : TableAlias → TableAlias) : (operation : Operation) →
    (operation.mapAliases a f).mapAliases b g = operation.mapAliases (b ∘ a) (g ∘ f)
  | .column reference => rfl
  | .join source steps target => by
    simp only [mapAliases, map_mapDatabase_map, mapAliasesOfTarget_mapAliasesOfTarget a b target]
    rfl
  | .literal value => rfl
  | .function name arguments => by
    simp only [mapAliases, mapAliasesOfAll_mapAliasesOfAll a b arguments]

theorem mapAliasesOfTarget_mapAliasesOfTarget (a b : TableAlias → TableAlias) :
    (target : Option Operation) → mapAliasesOfTarget b g (mapAliasesOfTarget a f target) =
      mapAliasesOfTarget (b ∘ a) (g ∘ f) target
  | none => rfl
  | some target => by
    simp only [mapAliasesOfTarget, mapAliases_mapAliases a b target]

theorem mapAliasesOfAll_mapAliasesOfAll (a b : TableAlias → TableAlias) :
    (arguments : List Operation) → mapAliasesOfAll b g (mapAliasesOfAll a f arguments) =
      mapAliasesOfAll (b ∘ a) (g ∘ f) arguments
  | [] => rfl
  | argument :: rest => by
    simp only [mapAliasesOfAll, mapAliases_mapAliases a b argument,
      mapAliasesOfAll_mapAliasesOfAll a b rest]

end

theorem mapDatabases_mapDatabases (operation : Operation) :
    (operation.mapDatabases f).mapDatabases g = operation.mapDatabases (g ∘ f) :=
  mapAliases_mapAliases f g _ _ operation

mutual

theorem mapDatabases_id : (operation : Operation) → operation.mapDatabases id = operation
  | .column _ => rfl
  | .join source steps target => by
    rw [mapDatabases, mapAliases, map_mapDatabase_id, mapDatabasesOfTarget_id target]
    rfl
  | .literal _ => rfl
  | .function name arguments => congrArg (function name) (mapDatabasesOfAll_id arguments)

theorem mapDatabasesOfTarget_id : (target : Option Operation) →
    mapAliasesOfTarget (TableAlias.mapDatabase id) id target = target
  | none => rfl
  | some target => congrArg some (mapDatabases_id target)

theorem mapDatabasesOfAll_id : (arguments : List Operation) →
    mapAliasesOfAll (TableAlias.mapDatabase id) id arguments = arguments
  | [] => rfl
  | argument :: rest => by
    have hargument := mapDatabases_id argument
    unfold mapDatabases at hargument
    rw [mapAliasesOfAll, hargument, mapDatabasesOfAll_id rest]

end

end Operation

theorem JoinChain.mapDatabases_mapDatabases (chain : JoinChain) :
    (chain.mapDatabases f).mapDatabases g = chain.mapDatabases (g ∘ f) := by
  unfold mapDatabases
  simp only [map_mapDatabase_map, Operation.mapAliasesOfTarget_mapAliasesOfTarget]
  rfl

theorem JoinChain.mapDatabases_id (chain : JoinChain) : chain.mapDatabases id = chain := by
  unfold mapDatabases
  rw [map_mapDatabase_id, Operation.mapDatabasesOfTarget_id]
  rfl

theorem FilterPointer.mapDatabases_mapDatabases (pointer : FilterPointer) :
    (pointer.mapDatabases f).mapDatabases g = pointer.mapDatabases (g ∘ f) := by
  simp only [mapDatabases, map_mapDatabase_map, Function.comp_apply]

theorem FilterPointer.mapDatabases_id (pointer : FilterPointer) : pointer.mapDatabases id = pointer := by
  unfold mapDatabases
  rw [map_mapDatabase_id]
  rfl

/-! ## Property mappings -/

@[simp]
theorem PropertyMapping.property_mapDatabases (m : PropertyMapping) :
    (m.mapDatabases f).property = m.property := by
  cases m
  rfl

@[simp]
theorem PropertyMapping.sourceId_mapDatabases (m : PropertyMapping) :
    (m.mapDatabases f).sourceId = m.sourceId := by
  cases m
  rfl

theorem mapDatabasesOfMappings_eq_map (l : List PropertyMapping) :
    mapDatabasesOfMappings f l = l.map (PropertyMapping.mapDatabases f) := by
  induction l with
  | nil => rfl
  | cons m rest ih => rw [mapDatabasesOfMappings, ih, List.map_cons]

theorem Otherwise.mapDatabases_mapDatabases (o : Otherwise) :
    (o.mapDatabases f).mapDatabases g = o.mapDatabases (g ∘ f) := by
  unfold mapDatabases
  simp only [JoinChain.mapDatabases_mapDatabases]

mutual

theorem PropertyMapping.mapDatabases_mapDatabases : (m : PropertyMapping) →
    (m.mapDatabases f).mapDatabases g = m.mapDatabases (g ∘ f)
  | ⟨_, _, _, _, value, _⟩ => by
    simp only [PropertyMapping.mapDatabases, PropertyValue.mapDatabases_mapDatabases value]

theorem PropertyValue.mapDatabases_mapDatabases : (value : PropertyValue) →
    (value.mapDatabases f).mapDatabases g = value.mapDatabases (g ∘ f)
  | .relational operation transformer => by
    simp only [PropertyValue.mapDatabases, Operation.mapDatabases_mapDatabases]
  | .embedded id className primaryKey propertyMappings otherwise => by
    -- the key, the mappings and the way to other properties are mapped each on their own
    have hkey : (primaryKey.map (Operation.mapDatabases f)).map (Operation.mapDatabases g) =
        primaryKey.map (Operation.mapDatabases (g ∘ f)) := by
      rw [List.map_map]
      exact List.map_congr_left fun operation _ => operation.mapDatabases_mapDatabases f g
    have hotherwise : (otherwise.map (Otherwise.mapDatabases f)).map (Otherwise.mapDatabases g) =
        otherwise.map (Otherwise.mapDatabases (g ∘ f)) := by
      rw [Option.map_map]
      exact Option.map_congr fun o _ => o.mapDatabases_mapDatabases f g
    simp only [PropertyValue.mapDatabases, hkey, hotherwise,
      mapDatabasesOfMappings_mapDatabasesOfMappings propertyMappings]
  | .inline _ => rfl

theorem mapDatabasesOfMappings_mapDatabasesOfMappings : (l : List PropertyMapping) →
    mapDatabasesOfMappings g (mapDatabasesOfMappings f l) = mapDatabasesOfMappings (g ∘ f) l
  | [] => rfl
  | m :: rest => by
    simp only [mapDatabasesOfMappings, PropertyMapping.mapDatabases_mapDatabases m,
      mapDatabasesOfMappings_mapDatabasesOfMappings rest]

end

theorem Otherwise.mapDatabases_id (o : Otherwise) : o.mapDatabases id = o :=
  congrArg (Otherwise.mk o.targetId) o.join.mapDatabases_id

mutual

theorem PropertyMapping.mapDatabases_id : (m : PropertyMapping) → m.mapDatabases id = m
  | ⟨_, _, _, _, value, _⟩ => by
    simp only [PropertyMapping.mapDatabases, PropertyValue.mapDatabases_id value]

theorem PropertyValue.mapDatabases_id : (value : PropertyValue) → value.mapDatabases id = value
  | .relational operation _ => by
    simp only [PropertyValue.mapDatabases, operation.mapDatabases_id]
  | .embedded _ _ primaryKey propertyMappings otherwise => by
    have hkey : primaryKey.map (Operation.mapDatabases id) = primaryKey :=
      List.map_id'' Operation.mapDatabases_id primaryKey
    have hotherwise : otherwise.map (Otherwise.mapDatabases id) = otherwise := by
      cases otherwise with
      | none => rfl
      | some o => exact congrArg some o.mapDatabases_id
    simp only [PropertyValue.mapDatabases, hkey, hotherwise, mapDatabasesOfMappings_id propertyMappings]
  | .inline _ => rfl

theorem mapDatabasesOfMappings_id : (l : List PropertyMapping) → mapDatabasesOfMappings id l = l
  | [] => rfl
  | m :: rest => by
    simp only [mapDatabasesOfMappings, PropertyMapping.mapDatabases_id m, mapDatabasesOfMappings_id rest]

end

theorem AssociationMapping.mapDatabases_mapDatabases (m : AssociationMapping) :
    (m.mapDatabases f).mapDatabases g = m.mapDatabases (g ∘ f) := by
  unfold mapDatabases
  simp only [mapDatabasesOfMappings_mapDatabasesOfMappings]

/-! ## The databases that are mentioned -/

theorem databases_map_mapDatabase (steps : List JoinStep) :
    (steps.map (JoinStep.mapDatabase f)).map (·.database) = (steps.map (·.database)).map f := by
  rw [List.map_map, List.map_map]
  rfl

namespace Operation

mutual

theorem databases_mapDatabases : (operation : Operation) →
    (operation.mapDatabases f).databases = operation.databases.map f
  | .column reference => rfl
  | .join source steps target => by
    have htarget := databasesOfTarget_mapDatabases target
    simp only [mapDatabases, mapAliases, databases, databases_map_mapDatabase, htarget, List.map_cons,
      List.map_append]
    rfl
  | .literal value => rfl
  | .function name arguments => by
    simpa only [mapDatabases, mapAliases, databases] using databasesOfAll_mapDatabases arguments

theorem databasesOfTarget_mapDatabases : (target : Option Operation) →
    databasesOfTarget (mapAliasesOfTarget (TableAlias.mapDatabase f) f target) =
      (databasesOfTarget target).map f
  | none => rfl
  | some target => databases_mapDatabases target

theorem databasesOfAll_mapDatabases : (arguments : List Operation) →
    databasesOfAll (mapAliasesOfAll (TableAlias.mapDatabase f) f arguments) =
      (databasesOfAll arguments).map f
  | [] => rfl
  | argument :: rest => by
    have hargument := databases_mapDatabases argument
    unfold mapDatabases at hargument
    simp only [mapAliasesOfAll, databasesOfAll, hargument, databasesOfAll_mapDatabases rest,
      List.map_append]

end

end Operation

theorem FilterPointer.databases_mapDatabases (pointer : FilterPointer) :
    (pointer.mapDatabases f).databases = pointer.databases.map f := by
  simp only [databases, mapDatabases, databases_map_mapDatabase, List.map_cons]

theorem JoinChain.databases_mapDatabases (chain : JoinChain) :
    (chain.mapDatabases f).databases = chain.databases.map f :=
  chain.toOperation.databases_mapDatabases f

/-- Expressions one by one mention the databases of all, mapped. -/
theorem Operation.flatMap_databases_mapDatabases (l : List Operation) :
    (l.map (mapDatabases f)).flatMap databases = (l.flatMap databases).map f := by
  rw [List.flatMap_map, List.map_flatMap]
  simp only [databases_mapDatabases]

mutual

theorem PropertyMapping.databases_mapDatabases : (m : PropertyMapping) →
    (m.mapDatabases f).databases = m.databases.map f
  | ⟨_, _, _, _, value, _⟩ => PropertyValue.databases_mapDatabases value

theorem PropertyValue.databases_mapDatabases : (value : PropertyValue) →
    (value.mapDatabases f).databases = value.databases.map f
  | .relational operation _ => operation.databases_mapDatabases f
  | .embedded _ _ primaryKey propertyMappings otherwise => by
    simp only [PropertyValue.mapDatabases, PropertyValue.databases,
      Operation.flatMap_databases_mapDatabases, databasesOfMappings_mapDatabases propertyMappings,
      List.map_append]
    cases otherwise with
    | none => rfl
    | some otherwise =>
      simp only [Option.map_some, Otherwise.mapDatabases, JoinChain.databases_mapDatabases]
  | .inline _ => rfl

theorem databasesOfMappings_mapDatabases : (l : List PropertyMapping) →
    databasesOfMappings (mapDatabasesOfMappings f l) = (databasesOfMappings l).map f
  | [] => rfl
  | m :: rest => by
    simp only [mapDatabasesOfMappings, databasesOfMappings, PropertyMapping.databases_mapDatabases m,
      databasesOfMappings_mapDatabases rest, List.map_append]

end

theorem AssociationMapping.databases_mapDatabases (m : AssociationMapping) :
    (m.mapDatabases f).databases = m.databases.map f :=
  databasesOfMappings_mapDatabases f m.propertyMappings

end ObjectRelational
