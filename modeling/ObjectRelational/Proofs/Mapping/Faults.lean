import ObjectRelational.Mapping.Resolution
import ObjectRelational.Proofs.Recorded

/-!
# What the resolution of a unit can fail with

The graph of includes is checked before a unit is resolved. Whatever resolving finds wrong afterwards,
it is not the graph.

* `Fault.ofGraph` are the faults of the graph of includes.
* `OffGraph`: a resolution that never fails with one of them.
* `MappingUnit.offGraph_resolve`: a unit that has all its includes resolves off the graph.
-/

namespace ObjectRelational

/-- Is the fault one of the graph of includes? -/
@[simp]
def Fault.ofGraph : Fault → Bool
  | .unknownMapping _ _ | .circularInclude _ _ | .duplicateInclude _ _ | .blockedByInclude _ _ =>
    true
  | _ => false

/-- The resolution does not fail with a fault of the graph. -/
def OffGraph {α : Type} (x : Resolved α) : Prop :=
  ∀ failure, x = .error failure → failure.fault.ofGraph = false

/-! ## Steps -/

section Steps

variable {α β : Type}

@[simp]
theorem offGraph_ok (a : α) : OffGraph (.ok a) := failsWith_ok (P := (·.ofGraph = false)) a

@[simp]
theorem offGraph_pure (a : α) : OffGraph (pure a) := offGraph_ok a

@[simp]
theorem offGraph_found_iff {fault : Fault} {span : Span} :
    OffGraph (fault.found span : Resolved α) ↔ fault.ofGraph = false :=
  failsWith_found_iff (P := (·.ofGraph = false))

/-- A resolution that goes on stays off the graph when both parts do. -/
theorem OffGraph.bind {x : Resolved α} {f : α → Resolved β} (hx : OffGraph x)
    (hf : ∀ a, OffGraph (f a)) : OffGraph (x >>= f) :=
  FailsWith.bind (P := (·.ofGraph = false)) hx hf

theorem OffGraph.map {x : Resolved α} (hx : OffGraph x) (f : α → β) : OffGraph (x.map f) :=
  FailsWith.map (P := (·.ofGraph = false)) hx f

theorem OffGraph.mapM {f : α → Resolved β} {l : List α} (hf : ∀ a ∈ l, OffGraph (f a)) :
    OffGraph (l.mapM f) :=
  FailsWith.mapM (P := (·.ofGraph = false)) hf

theorem OffGraph.foldlM {f : β → α → Resolved β} (hf : ∀ b a, OffGraph (f b a)) (l : List α)
    (b : β) : OffGraph (l.foldlM f b) :=
  FailsWith.foldlM (P := (·.ofGraph = false)) hf l b

/-- So does one that records usages on its way. -/
theorem OffGraph.andThen {x : Recorded α} {f : α → Recorded β} (hx : OffGraph x.result)
    (hf : ∀ a, OffGraph (f a).result) : OffGraph (x >>= f).result :=
  FailsWith.andThen (P := (·.ofGraph = false)) hx hf

theorem OffGraph.forAll {f : α → Recorded β} (hf : ∀ a, OffGraph (f a).result) (l : List α) :
    OffGraph (Recorded.forAll f l).result :=
  FailsWith.forAll (P := (·.ofGraph = false)) hf l

end Steps

/-! ## Expressions -/

theorem Store.offGraph_checkEnd (store : Store) (steps : List JoinStep) (claimed : TableAlias)
    (span : Span) : OffGraph (store.checkEnd steps claimed span) := by
  unfold checkEnd
  split
  · exact offGraph_ok ()
  · split <;> simp

namespace Resolver

variable (r : Resolver)

theorem offGraph_lookupAddressed (marker : Option Name) : OffGraph (r.lookupAddressed marker) := by
  cases marker with
  | none => exact offGraph_ok r.database
  | some name =>
    rw [lookupAddressed, lookupDatabase]
    split <;> simp

theorem offGraph_lookupTable (database schema : Option Name) (table : Name) :
    OffGraph (r.lookupTable database schema table) := by
  unfold lookupTable
  refine (r.offGraph_lookupAddressed database).bind fun id => ?_
  cases schema
  all_goals
    dsimp only
    split
    · split <;> simp
    · simp

theorem offGraph_lookupJoin (reference : Source.JoinReference) :
    OffGraph (r.lookupJoin reference) := by
  unfold lookupJoin
  refine (r.offGraph_lookupAddressed reference.database).bind fun id => ?_
  split
  · simp
  · split <;> simp

theorem offGraph_walkBack (cursor : TableId) (joins : List Source.JoinReference) :
    OffGraph (r.walkBack cursor joins) := by
  induction joins generalizing cursor with
  | nil => exact offGraph_ok cursor
  | cons reference rest ih =>
    unfold walkBack
    refine (r.offGraph_lookupJoin reference).bind fun found => ?_
    dsimp only
    split
    · exact ih _
    · simp

theorem offGraph_sourceFromEnd (joins : List Source.JoinReference) (terminal : Option TableAlias) :
    OffGraph (r.sourceFromEnd joins terminal) := by
  cases terminal with
  | none => exact offGraph_ok none
  | some terminal =>
    unfold sourceFromEnd
    refine (r.offGraph_walkBack terminal.table joins.reverse).bind fun cursor => ?_
    split
    · exact (r.offGraph_lookupAddressed _).bind fun database => offGraph_pure _
    · exact offGraph_pure _

mutual

theorem offGraph_sources : (operation : Source.Operation) → OffGraph (r.sources operation)
  | .column reference => by
    unfold sources
    exact (r.offGraph_lookupTable _ _ _).bind fun found => offGraph_pure _
  | .joinPath joins target => by
    unfold sources
    exact (offGraph_sourceOfPath joins target).bind fun source => offGraph_pure _
  | .function _ arguments => by
    unfold sources
    exact offGraph_sourcesOfAll arguments
  | .targetColumn _ => by
    unfold sources
    exact offGraph_ok []
  | .literal _ => by
    unfold sources
    exact offGraph_ok []

theorem offGraph_sourceOfPath (joins : List Source.JoinReference) :
    (target : Option Source.Operation) → OffGraph (r.sourceOfPath joins target)
  | none => by
    unfold sourceOfPath
    exact offGraph_ok none
  | some target => by
    unfold sourceOfPath
    exact (offGraph_sources target).bind fun found => r.offGraph_sourceFromEnd joins _

theorem offGraph_sourcesOfAll :
    (arguments : List Source.Operation) → OffGraph (r.sourcesOfAll arguments)
  | [] => by
    unfold sourcesOfAll
    exact offGraph_ok []
  | argument :: rest => by
    unfold sourcesOfAll
    refine (offGraph_sources argument).bind fun first => ?_
    exact (offGraph_sourcesOfAll rest).bind fun others => offGraph_pure _

end

theorem offGraph_inferRoots (operation : Source.Operation) :
    OffGraph (r.inferRoots operation) := (r.offGraph_sources operation).map _

theorem offGraph_addressed (marker : Option Name) : OffGraph (r.addressed marker).result := by
  unfold addressed
  refine (r.offGraph_lookupAddressed marker).andThen fun id => ?_
  dsimp only
  split
  · exact OffGraph.andThen (offGraph_ok ()) fun _ => offGraph_ok id
  · exact offGraph_ok id

theorem offGraph_table (database schema : Option Name) (table : Name) :
    OffGraph (r.table database schema table).result := by
  unfold Resolver.table
  refine (r.offGraph_lookupTable database schema table).andThen fun found => ?_
  refine (r.offGraph_addressed database).andThen fun _ => ?_
  exact (offGraph_ok ()).andThen fun _ => offGraph_ok found

theorem offGraph_columnOf (owner : TableAlias) (column : Name) :
    OffGraph (r.columnOf owner column).result := by
  unfold columnOf
  split
  · exact (offGraph_ok ()).andThen fun _ => offGraph_ok _
  · simp

theorem offGraph_steps (cursor : TableId) (joins : List Source.JoinReference) :
    OffGraph (r.steps cursor joins).result := by
  -- every join leads on to another table
  induction joins generalizing cursor with
  | nil => exact offGraph_ok []
  | cons reference rest ih =>
    unfold steps
    refine (r.offGraph_lookupJoin reference).andThen fun found => ?_
    refine (r.offGraph_addressed reference.database).andThen fun _ => ?_
    refine (offGraph_ok ()).andThen fun _ => ?_
    split
    · simp
    · exact (ih _).andThen fun following => offGraph_ok _

theorem offGraph_startOf (path : Source.JoinPath) (source : Option TableAlias) :
    OffGraph (r.startOf path source) := by
  cases source with
  | some source => exact offGraph_ok source
  | none =>
    have hinfer : OffGraph (r.inferSource path) := r.offGraph_sourceOfPath path.joins path.target
    unfold startOf
    refine hinfer.bind fun inferred => ?_
    split <;> simp

theorem offGraph_checkClaimedEnd (joins : List Source.JoinReference) (steps : List JoinStep)
    (reached : TableAlias) (operation : Operation) :
    OffGraph (r.checkClaimedEnd joins steps reached operation) := by
  unfold checkClaimedEnd
  split
  · exact r.store.offGraph_checkEnd _ _ _
  · exact offGraph_ok ()

mutual

theorem offGraph_resolve (source : Option TableAlias) :
    (operation : Source.Operation) → OffGraph (r.resolve source operation).result
  | .column reference => by
    unfold resolve Resolver.column
    refine OffGraph.andThen ?_ fun found => offGraph_ok _
    exact (r.offGraph_table _ _ _).andThen fun owner => r.offGraph_columnOf owner _
  | .targetColumn column => by
    unfold resolve
    split
    · exact (r.offGraph_columnOf _ column).andThen fun found => offGraph_ok _
    · simp
  | .joinPath joins target => by
    unfold resolve
    exact (offGraph_resolvePath source joins target).andThen fun chain => offGraph_ok _
  | .literal _ => by
    unfold resolve
    exact offGraph_ok _
  | .function _ arguments => by
    unfold resolve
    exact (offGraph_resolveAll source arguments).andThen fun resolved => offGraph_ok _

theorem offGraph_resolvePath (source : Option TableAlias) (joins : List Source.JoinReference) :
    (target : Option Source.Operation) → OffGraph (r.resolvePath source joins target).result
  | none => by
    unfold resolvePath
    refine (r.offGraph_startOf _ source).andThen fun start => ?_
    exact (r.offGraph_steps start.table joins).andThen fun steps => offGraph_ok _
  | some target => by
    unfold resolvePath
    refine (r.offGraph_startOf _ source).andThen fun start => ?_
    refine (r.offGraph_steps start.table joins).andThen fun steps => ?_
    refine (offGraph_resolve _ target).andThen fun operation => ?_
    exact (r.offGraph_checkClaimedEnd joins steps _ operation).andThen fun _ => offGraph_ok _

theorem offGraph_resolveAll (source : Option TableAlias) :
    (arguments : List Source.Operation) → OffGraph (r.resolveAll source arguments).result
  | [] => by
    unfold resolveAll
    exact offGraph_ok []
  | argument :: rest => by
    unfold resolveAll
    refine (offGraph_resolve source argument).andThen fun first => ?_
    exact (offGraph_resolveAll source rest).andThen fun others => offGraph_ok _

end

theorem offGraph_filterJoins (source : Option TableAlias) (joins : List Source.JoinReference) :
    OffGraph (r.filterJoins source joins).result := by
  cases joins with
  | nil => exact offGraph_ok []
  | cons first rest =>
    cases source with
    | none => simp [filterJoins]
    | some source => exact r.offGraph_steps source.table (first :: rest)

theorem offGraph_filter? (main : TableAlias) (reference : Option Source.FilterReference) :
    OffGraph (r.filter? main reference).result := by
  cases reference with
  | none => exact offGraph_ok none
  | some reference =>
    unfold filter? Resolver.filter
    refine OffGraph.andThen ?_ fun filter => offGraph_ok (some filter)
    refine (r.offGraph_filterJoins (some main) reference.joins).andThen fun joins => ?_
    refine (r.offGraph_addressed reference.database).andThen fun database => ?_
    split
    · simp
    · split
      · simp
      · exact (offGraph_ok ()).andThen fun _ => offGraph_ok _

end Resolver

/-! ## Includes -/

namespace Include

variable (store : Store) (model : ObjectModel)

theorem offGraph_storeNamed (name : Name) : OffGraph (storeNamed store model name) := by
  unfold storeNamed
  split
  · exact offGraph_ok _
  · split <;> simp

theorem offGraph_resolveSubstitution (source : Source.StoreSubstitution) :
    OffGraph (resolveSubstitution store model source) := by
  unfold resolveSubstitution
  refine (offGraph_storeNamed store model source.replaced).bind fun replaced => ?_
  exact (offGraph_storeNamed store model source.substitute).bind fun substitute => offGraph_pure _

theorem offGraph_checkReplaced (seen : List DatabaseId) (l : List ResolvedSubstitution) :
    OffGraph (checkReplaced seen l) := by
  induction l generalizing seen with
  | nil => exact offGraph_ok ()
  | cons s rest ih =>
    unfold checkReplaced
    split
    · simp
    · exact ih _

theorem offGraph_checkSubstitutes (replaced : List DatabaseId) (l : List ResolvedSubstitution) :
    OffGraph (checkSubstitutes replaced l) := by
  induction l with
  | nil => exact offGraph_ok ()
  | cons s rest ih =>
    unfold checkSubstitutes
    split
    · simp
    · exact ih

theorem offGraph_substitution (source : Source.Include) :
    OffGraph (substitution store model source) := by
  have hadd : ∀ s next, OffGraph (addSubstitution store s next) := by
    intro s next
    unfold addSubstitution
    split <;> simp
  have hfind := OffGraph.mapM fun s (_ : s ∈ source.substitutions) =>
    offGraph_resolveSubstitution store model s
  unfold substitution
  refine hfind.bind fun found => ?_
  refine (offGraph_checkReplaced [] found).bind fun _ => ?_
  refine (offGraph_checkSubstitutes _ found).bind fun _ => ?_
  exact OffGraph.foldlM hadd found .identity

theorem offGraph_checkMentioned (outer : String) (source : Source.Include) (s : Substitution)
    (included : MappingUnit) : OffGraph (checkMentioned outer source s included store) := by
  unfold checkMentioned
  split <;> simp

theorem offGraph_flattenFrom (unit : String) (span : Span) (known queue : List IncludedUnit) :
    OffGraph (flattenFrom unit span known queue) := by
  -- along the calls of the function: the queue may grow while units are found
  induction known, queue using flattenFrom.induct with
  | case1 known =>
    rw [flattenFrom]
    exact offGraph_ok known
  | case2 known next queue hnew ih =>
    rw [flattenFrom, hnew]
    exact ih
  | case3 known next queue previous hprevious hsame ih =>
    rw [flattenFrom, hprevious]
    dsimp only
    rw [if_pos hsame]
    exact ih
  | case4 known next queue previous hprevious hsame =>
    rw [flattenFrom, hprevious]
    dsimp only
    rw [if_neg hsame]
    simp

theorem offGraph_checkDistinct (unit : String) (seen : List String) (l : List DeclaredId) :
    OffGraph (checkDistinct unit seen l) := by
  induction l generalizing seen with
  | nil => exact offGraph_ok ()
  | cons d rest ih =>
    unfold checkDistinct
    split
    · simp
    · exact ih _

theorem offGraph_checkIds (unit : Source.Mapping) (flattened : List IncludedUnit) :
    OffGraph (checkIds unit flattened) := by
  unfold checkIds
  exact (offGraph_checkDistinct _ _ _).bind fun _ => offGraph_checkDistinct _ _ _

end Include

/-! ## Enumerations and properties -/

namespace EnumerationMapping

theorem offGraph_resolveValues (enumeration : Model.Enumeration) (path id : String)
    (seen : List String) (first : Option Source.EnumSource) (l : List Source.EnumValueMapping) :
    OffGraph (resolveValues enumeration path id seen first l) := by
  induction l generalizing seen first with
  | nil => exact offGraph_ok []
  | cons m rest ih =>
    have hkinds : ∀ first, OffGraph (checkKinds id first m.value.span m.sources) := by
      intro first
      unfold checkKinds
      split
      · exact offGraph_ok ()
      · split <;> simp
    unfold resolveValues
    dsimp only
    split
    · simp
    · split
      · simp
      · refine (hkinds _).bind fun _ => ?_
        exact (ih _ _).bind fun others => offGraph_pure _

theorem offGraph_resolve (model : ObjectModel) (source : Source.EnumerationMapping) :
    OffGraph (resolve model source) := by
  unfold resolve
  dsimp only
  split
  · simp
  · exact (offGraph_resolveValues _ _ _ _ _ _).bind fun values => offGraph_pure _

end EnumerationMapping

namespace Scope

variable (s : Scope) (r : Resolver) (o : PropertyOwner)

theorem offGraph_databaseNamed (e : Environment) (name : Name) :
    OffGraph (e.databaseNamed name) := by
  unfold Environment.databaseNamed
  split <;> simp

theorem offGraph_checkTarget (target : Name) (property : Model.Property) (owner : String) :
    OffGraph (s.checkTarget target property owner) := by
  unfold checkTarget
  split
  · simp
  · dsimp only
    split <;> simp

theorem offGraph_transformer? (property : Model.Property) (name : Option Name) :
    OffGraph (s.transformer? property name) := by
  cases name with
  | none => exact offGraph_ok none
  | some name =>
    refine OffGraph.map ?_ some
    unfold transformer
    split
    · split
      · simp
      · split <;> simp
    · simp

theorem offGraph_propertyNamed (name : Name) : OffGraph (s.propertyNamed o name) := by
  unfold propertyNamed
  split <;> simp

@[simp]
theorem offGraph_mappedToJoin {α : Type} (property : Name) :
    OffGraph (o.mappedToJoin property : Resolved α) := by
  simp [PropertyOwner.mappedToJoin]

@[simp]
theorem offGraph_nestedMapping {α : Type} (property : Name) :
    OffGraph (o.nestedMapping property : Resolved α) := by
  simp [PropertyOwner.nestedMapping]

theorem offGraph_localValue (property : Name) (body : Source.PropertyBody) :
    OffGraph (localValue r o property body).result := by
  have hoperation : ∀ source, OffGraph (dataOperation r o property source).result := by
    intro source
    unfold dataOperation
    refine (r.offGraph_resolve _ source).andThen fun operation => ?_
    split <;> simp
  unfold localValue
  split
  · exact (hoperation _).andThen fun operation => offGraph_ok _
  · simp
  · simp
  · simp

theorem offGraph_joinTarget (property : Model.Property) (target : Option Name) :
    OffGraph (s.joinTarget o property target) := by
  cases target with
  | none => exact offGraph_ok _
  | some target => exact (s.offGraph_checkTarget target property o.id).map _

theorem offGraph_relationalValue (name : Name) (property : Model.Property)
    (targetId : Option Name) (source : Source.Operation) (enumerationMapping : Option Name) :
    OffGraph (s.relationalValue r o name property targetId source enumerationMapping).result := by
  unfold relationalValue
  refine (r.offGraph_resolve _ source).andThen fun operation => ?_
  split
  · split
    · simp
    · exact OffGraph.andThen (s.offGraph_transformer? property enumerationMapping)
        fun transformer => offGraph_ok _
  · split
    · simp
    · split
      · exact OffGraph.andThen (s.offGraph_joinTarget o property targetId)
          fun target => offGraph_ok _
      · simp

theorem offGraph_otherwise? (property : Model.Property) (otherwise : Option Source.Otherwise) :
    OffGraph (s.otherwise? r o property otherwise).result := by
  cases otherwise with
  | none => exact offGraph_ok none
  | some otherwise =>
    unfold otherwise?
    refine (s.offGraph_checkTarget otherwise.targetId property o.id).andThen fun _ => ?_
    exact (r.offGraph_resolvePath _ _ _).andThen fun join => offGraph_ok _

theorem offGraph_inlineValue (name : Name) (property : Model.Property) (target : Name) :
    OffGraph (s.inlineValue o name property target) := by
  unfold inlineValue
  split
  · simp
  · exact (s.offGraph_checkTarget target property o.id).bind fun _ => offGraph_pure _

theorem offGraph_checkHead (seen : List String) (property : Name) (sourceId : Option Name) :
    OffGraph (checkHead o seen property sourceId) := by
  unfold checkHead
  split
  · simp
  · split
    · exact offGraph_ok ()
    · split <;> simp

mutual

theorem offGraph_mapping (o : PropertyOwner) :
    (m : Source.PropertyMapping) → OffGraph (s.mapping r o m).result
  | ⟨name, _, _, some _, body, _⟩ => by
    unfold mapping
    exact (offGraph_localValue r o name body).andThen fun value => offGraph_ok _
  | ⟨name, _, targetId, none, body, _⟩ => by
    unfold mapping
    refine (s.offGraph_propertyNamed o name).andThen fun property => ?_
    exact (offGraph_value o name property targetId body).andThen fun value => offGraph_ok _

theorem offGraph_value (o : PropertyOwner) (name : Name) (property : Model.Property)
    (targetId : Option Name) :
    (body : Source.PropertyBody) → OffGraph (s.value r o name property targetId body).result
  | .relational source enumerationMapping => by
    unfold value
    exact s.offGraph_relationalValue r o name property targetId source enumerationMapping
  | .embedded primaryKey propertyMappings otherwise => by
    unfold value
    split
    · simp
    · refine (r.offGraph_resolveAll _ primaryKey).andThen fun key => ?_
      refine (offGraph_mappings _ [] propertyMappings).andThen fun mappings => ?_
      exact (s.offGraph_otherwise? r o property otherwise).andThen fun otherwise => offGraph_ok _
  | .inline target => by
    unfold value
    exact s.offGraph_inlineValue o name property target

theorem offGraph_mappings (o : PropertyOwner) (seen : List String) :
    (l : List Source.PropertyMapping) → OffGraph (s.mappings r o seen l).result
  | [] => by
    unfold mappings
    exact offGraph_ok []
  | m :: rest => by
    unfold mappings
    refine (offGraph_checkHead o seen m.property m.sourceId).andThen fun _ => ?_
    refine (offGraph_mapping o m).andThen fun first => ?_
    exact (offGraph_mappings o _ rest).andThen fun others => offGraph_ok _

end

/-! ## Class mappings -/

theorem offGraph_checkMarkers (header : Header) (database : DatabaseId) (markers : List Name) :
    OffGraph (s.checkMarkers header database markers) := by
  induction markers with
  | nil => exact offGraph_ok ()
  | cons marker rest ih =>
    unfold checkMarkers
    refine (offGraph_databaseNamed s.toEnvironment marker).bind fun found => ?_
    split
    · exact ih
    · simp

theorem offGraph_inherited? (own : List ClassMapping) (header : Header)
    (body : Source.RelationalMapping) : OffGraph (s.inherited? own header body) := by
  unfold inherited?
  split
  · exact offGraph_ok none
  · refine OffGraph.map ?_ some
    unfold checkSuper
    split
    · simp
    · split
      · simp
      · split
        · simp
        · split
          · exact (s.offGraph_checkMarkers header _ _).bind fun _ => offGraph_pure _
          · simp

theorem offGraph_defaultDatabase (header : Header) (body : Source.RelationalMapping)
    (inherited : Option Inherited) : OffGraph (s.defaultDatabase header body inherited) := by
  unfold defaultDatabase
  split
  · exact offGraph_ok _
  · exact offGraph_databaseNamed s.toEnvironment _
  · unfold markedDatabase
    split
    · exact offGraph_databaseNamed s.toEnvironment _
    · split <;> simp

theorem offGraph_rootTables (known : List TableAlias) (operations : List Source.Operation) :
    OffGraph (rootTables r known operations) := by
  induction operations generalizing known with
  | nil => exact offGraph_ok known
  | cons operation rest ih =>
    unfold rootTables
    exact (r.offGraph_inferRoots operation).bind fun roots => ih _

theorem offGraph_mainTable (header : Header) (body : Source.RelationalMapping)
    (inherited : Option Inherited) : OffGraph (mainTable r header body inherited).result := by
  unfold mainTable
  split
  · exact offGraph_ok _
  · exact r.offGraph_table _ _ _
  · rw [Recorded.result_ofResult, inferMainTable]
    refine (offGraph_rootTables r [] _).bind fun tables => ?_
    split <;> simp

theorem offGraph_checkExtension (header : Header) (inherited : Option Inherited)
    (mappings : List PropertyMapping) :
    OffGraph (s.checkExtension header inherited mappings) := by
  unfold checkExtension
  split
  · exact offGraph_ok ()
  · split
    · exact offGraph_ok ()
    · unfold checkNewProperties
      split
      · exact offGraph_ok ()
      · split <;> simp

theorem offGraph_setImplementation (own : List ClassMapping) (header : Header)
    (body : Source.RelationalMapping) :
    OffGraph (s.setImplementation own header body).result := by
  unfold setImplementation
  refine (s.offGraph_inherited? own header body).andThen fun inherited => ?_
  refine (s.offGraph_defaultDatabase header body inherited).andThen fun database => ?_
  refine (offGraph_mainTable _ header body inherited).andThen fun main => ?_
  refine (Resolver.offGraph_filter? _ main body.filter).andThen fun filter => ?_
  refine (Resolver.offGraph_resolveAll _ _ body.groupBy).andThen fun groupBy => ?_
  refine (Resolver.offGraph_resolveAll _ _ body.primaryKey).andThen fun primaryKey => ?_
  refine (s.offGraph_mappings _ _ [] body.propertyMappings).andThen fun declared => ?_
  exact (s.offGraph_checkExtension header inherited declared).andThen fun _ => offGraph_ok _

theorem offGraph_walk (model : ObjectModel) (start : PropertyType) (steps : List Name) :
    OffGraph (PropertyPath.walk model start steps) := by
  induction steps generalizing start with
  | nil => exact offGraph_ok start
  | cons step rest ih =>
    unfold PropertyPath.walk
    split
    · simp
    · exact ih _

theorem offGraph_propertyPath (model : ObjectModel) (className : String)
    (source : Source.PropertyPath) : OffGraph (PropertyPath.resolve model className source) :=
  (offGraph_walk model _ source.properties).bind fun _ => offGraph_pure _

theorem offGraph_aggregateValue (model : ObjectModel) (className : String)
    (source : Source.AggregateValue) :
    OffGraph (AggregateSpecification.resolveValue model className source) := by
  unfold AggregateSpecification.resolveValue
  refine (offGraph_propertyPath model className source.mapFunction).bind fun path => ?_
  dsimp only
  split <;> simp

theorem offGraph_aggregate (own : List ClassMapping) (header : Header)
    (view : Source.AggregateView × Nat) : OffGraph (s.aggregate own header view).result := by
  have hspecification : OffGraph
      (AggregateSpecification.resolve s.model header.className view.1.modelOperation) := by
    unfold AggregateSpecification.resolve
    refine OffGraph.bind (.mapM fun path _ => offGraph_propertyPath _ _ path) fun paths => ?_
    exact OffGraph.bind (.mapM fun value _ => offGraph_aggregateValue _ _ value)
      fun values => offGraph_pure _
  unfold aggregate
  refine OffGraph.andThen hspecification fun specification => ?_
  exact (s.offGraph_setImplementation own _ _).andThen fun implementation => offGraph_ok _

theorem offGraph_classMapping (own : List ClassMapping) (source : Source.ClassMapping) :
    OffGraph (s.classMapping own source).result := by
  unfold classMapping
  split
  · exact (s.offGraph_setImplementation own _ _).andThen fun implementation => offGraph_ok _
  · refine OffGraph.andThen ?_ fun mapping => offGraph_ok _
    unfold aggregationAware
    refine (s.offGraph_setImplementation own _ _).andThen fun main => ?_
    exact (OffGraph.forAll (s.offGraph_aggregate own _) _).andThen fun aggregates => offGraph_ok _

theorem offGraph_resolveFrom (own : List ClassMapping) (sources : List Source.ClassMapping) :
    OffGraph (s.resolveFrom own sources).result := by
  -- the mappings that are resolved grow on the way
  induction sources generalizing own with
  | nil => exact offGraph_ok own
  | cons source rest ih =>
    unfold resolveFrom
    exact (s.offGraph_classMapping own source).andThen fun mapping => ih _

theorem offGraph_climb (all done : List Source.ClassMapping) (depth : Nat)
    (path : List Source.ClassMapping) (m : Source.ClassMapping) :
    OffGraph (Extension.climb all done depth path m) := by
  induction depth generalizing path m with
  | zero => exact offGraph_ok path
  | succ depth ih =>
    unfold Extension.climb
    split
    · exact offGraph_ok path
    · split
      · simp
      · split
        · simp
        · exact offGraph_ok _
        · exact ih _ _

theorem offGraph_orderFrom (all done l : List Source.ClassMapping) :
    OffGraph (Extension.orderFrom all done l) := by
  induction l generalizing done with
  | nil => exact offGraph_ok done
  | cons m rest ih =>
    unfold Extension.orderFrom
    exact (offGraph_climb all done _ [] m).bind fun path => ih _

theorem offGraph_checkEnd (own : List ClassMapping) (steps : List JoinStep) (id : String)
    (span : Span) : OffGraph (s.checkEnd own steps id span) := by
  unfold checkEnd
  split
  · exact offGraph_ok ()
  · exact s.store.offGraph_checkEnd steps _ span

mutual

theorem offGraph_checkJoinEnd (own : List ClassMapping) :
    (m : PropertyMapping) → OffGraph (s.checkJoinEnd own m)
  | ⟨_, _, targetId, _, value, span⟩ => by
    unfold checkJoinEnd
    exact offGraph_checkValueEnd own targetId span value

theorem offGraph_checkValueEnd (own : List ClassMapping) (targetId : Option String) (span : Span) :
    (value : PropertyValue) → OffGraph (s.checkValueEnd own targetId span value)
  | .relational _ _ => by
    unfold checkValueEnd
    split
    · exact s.offGraph_checkEnd own _ _ span
    · exact offGraph_ok ()
  | .embedded _ _ _ propertyMappings otherwise => by
    unfold checkValueEnd
    refine (offGraph_checkJoinEnds own propertyMappings).bind fun _ => ?_
    split
    · exact offGraph_pure ()
    · exact s.offGraph_checkEnd own _ _ span
  | .inline _ => by
    unfold checkValueEnd
    exact offGraph_ok ()

theorem offGraph_checkJoinEnds (own : List ClassMapping) :
    (l : List PropertyMapping) → OffGraph (s.checkJoinEnds own l)
  | [] => by
    unfold checkJoinEnds
    exact offGraph_ok ()
  | m :: rest => by
    unfold checkJoinEnds
    exact (offGraph_checkJoinEnd own m).bind fun _ => offGraph_checkJoinEnds own rest

end

theorem offGraph_checkImplementations (own : List ClassMapping) (l : List SetImplementation) :
    OffGraph (s.checkImplementations own l) := by
  induction l with
  | nil => exact offGraph_ok ()
  | cons i rest ih =>
    unfold checkImplementations
    exact (s.offGraph_checkJoinEnds own i.propertyMappings).bind fun _ => ih

theorem offGraph_classMappings (sources : List Source.ClassMapping) :
    OffGraph (s.classMappings sources).result := by
  unfold classMappings
  refine OffGraph.andThen (offGraph_orderFrom sources [] sources) fun order => ?_
  refine (s.offGraph_resolveFrom [] order).andThen fun resolved => ?_
  exact OffGraph.andThen (s.offGraph_checkImplementations _ _) fun _ => offGraph_ok _

theorem offGraph_checkClasses (model : ObjectModel) (l : List Source.ClassMapping) :
    OffGraph (checkClasses model l) := by
  induction l with
  | nil => exact offGraph_ok ()
  | cons m rest ih =>
    unfold checkClasses
    split
    · exact ih
    · simp

theorem offGraph_ofClasses (e : Environment) (unit : Source.Mapping) (included : List IncludedUnit)
    (enumerationMappings : List EnumerationMapping) :
    OffGraph (ofClasses e unit included enumerationMappings) := by
  have hroot : ∀ all roots className,
      OffGraph (Roots.addRoot unit.span unit.classMappings all roots className) := by
    intro all roots className
    unfold Roots.addRoot
    split
    · exact offGraph_ok _
    · simp [Roots.wrongCount]
  unfold ofClasses
  refine (offGraph_checkClasses e.model unit.classMappings).bind fun _ => ?_
  exact (OffGraph.foldlM (hroot _) _ _).bind fun roots => offGraph_pure _

/-! ## Association mappings -/

theorem offGraph_binding (own : List ClassMapping) (association : Model.Association) (id : String)
    (source : Source.PropertyMapping) : OffGraph (s.binding own association id source) := by
  have hproperty : OffGraph (associationProperty association id source.property) := by
    unfold associationProperty
    split
    · simp
    · split <;> simp
  unfold binding
  refine hproperty.bind fun property => ?_
  dsimp only
  split
  · simp
  · split <;> simp

theorem offGraph_checkBinding (b : Binding) (source : Source.PropertyMapping) :
    OffGraph (s.checkBinding b source) := by
  unfold checkBinding
  dsimp only
  split
  · simp
  · split
    · simp
    · split <;> simp

theorem offGraph_bindingPath (b : Binding) (source : Source.PropertyMapping) :
    OffGraph (s.bindingPath b source).result := by
  unfold bindingPath
  split
  · refine (Resolver.offGraph_resolve _ _ _).andThen fun operation => ?_
    split
    · exact (s.store.offGraph_checkEnd _ _ _).andThen fun _ => offGraph_ok _
    · simp [notJoined]
  · simp [notJoined]

theorem offGraph_associationPropertyMapping (own : List ClassMapping)
    (association : Model.Association) (id : String) (source : Source.PropertyMapping) :
    OffGraph (s.associationPropertyMapping own association id source).result := by
  unfold associationPropertyMapping
  refine OffGraph.andThen (s.offGraph_binding own association id source) fun b => ?_
  refine OffGraph.andThen (s.offGraph_checkBinding b source) fun _ => ?_
  exact (s.offGraph_bindingPath b source).andThen fun operation => offGraph_ok _

theorem offGraph_associationPropertyMappings (own : List ClassMapping)
    (association : Model.Association) (id : String) (seen : List String)
    (l : List Source.PropertyMapping) :
    OffGraph (s.associationPropertyMappings own association id seen l).result := by
  induction l generalizing seen with
  | nil => exact offGraph_ok []
  | cons m rest ih =>
    unfold associationPropertyMappings
    dsimp only
    split
    · simp
    · refine (s.offGraph_associationPropertyMapping own association id m).andThen fun first => ?_
      exact (ih _).andThen fun others => offGraph_ok _

theorem offGraph_associationMapping (own : List ClassMapping) (source : Source.AssociationMapping) :
    OffGraph (s.associationMapping own source).result := by
  unfold associationMapping
  split
  · simp
  · exact (s.offGraph_associationPropertyMappings own _ _ [] _).andThen
      fun mappings => offGraph_ok _

end Scope

/-! ## Units -/

namespace MappingUnit

theorem offGraph_resolveMappings (s : Scope) (source : Source.Mapping) :
    OffGraph (resolveMappings s source).result := by
  unfold resolveMappings
  refine (s.offGraph_classMappings source.classMappings).andThen fun classMappings => ?_
  exact (OffGraph.forAll (s.offGraph_associationMapping classMappings) _).andThen
    fun associationMappings => offGraph_ok _

/-- An include of a unit that is there. -/
theorem offGraph_resolveInclude (e : Environment) {compiled : String → Option MappingUnit}
    (unit : String) {source : Source.Include} (h : (compiled source.mapping.value).isSome) :
    OffGraph (resolveInclude e compiled unit source) := by
  rcases Option.isSome_iff_exists.1 h with ⟨included, hincluded⟩
  unfold resolveInclude
  rw [hincluded]
  refine (Include.offGraph_substitution e.store e.model source).bind fun s => ?_
  exact (Include.offGraph_checkMentioned e.store unit source s included).bind
    fun _ => offGraph_pure _

/-- Whatever is wrong with a unit whose includes are all there, resolving it does not blame the
graph. -/
theorem offGraph_resolve (e : Environment) {compiled : String → Option MappingUnit}
    {source : Source.Mapping} (h : ∀ i ∈ source.includes, (compiled i.mapping.value).isSome) :
    OffGraph (resolve e compiled source) := by
  unfold resolve
  refine OffGraph.bind (.mapM fun i hi => offGraph_resolveInclude e _ (h i hi))
    fun includes => ?_
  refine (Include.offGraph_flattenFrom _ _ [] includes).bind fun flattened => ?_
  refine (Include.offGraph_checkIds source flattened).bind fun _ => ?_
  refine OffGraph.bind (.mapM fun m _ => EnumerationMapping.offGraph_resolve e.model m)
    fun enumerationMappings => ?_
  refine (Scope.offGraph_ofClasses e source flattened enumerationMappings).bind fun s => ?_
  exact (offGraph_resolveMappings s source).bind fun mappings => offGraph_pure _

end MappingUnit

end ObjectRelational
