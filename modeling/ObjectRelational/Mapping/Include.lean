import ObjectRelational.Fault
import ObjectRelational.Mapping.Effective
import ObjectRelational.Model.Registry
import ObjectRelational.Store.Visibility

/-!
# Includes

How a unit includes others: which substitutions an include may declare, and which units are reached
along the includes.

* `Include.substitution` reads the substitutions of an include.
* `Include.flatten` lists every unit that is reached, with the substitution composed along the way;
  two ways to one unit have to agree.
* `Include.checkIds` keeps the ids of a unit and of all it includes apart.
-/

namespace ObjectRelational.Include

/-! ## Substitutions -/

/-- The database that a substitution names. -/
def storeNamed (store : Store) (model : ObjectModel) (name : Name) : Resolved DatabaseId :=
  match store.databaseNamed? name.value with
  | some id => .ok id
  | none =>
    if model.hasElement name.value then (Fault.notAStore name.value).found name.span
    else (Fault.unknownStore name.value).found name.span

/-- A substitution whose databases are found. -/
structure ResolvedSubstitution where
  replaced : DatabaseId
  substitute : DatabaseId
  source : Source.StoreSubstitution

/-- Finds the databases of a substitution. -/
def resolveSubstitution (store : Store) (model : ObjectModel) (source : Source.StoreSubstitution) :
    Resolved ResolvedSubstitution := do
  let replaced ← storeNamed store model source.replaced
  let substitute ← storeNamed store model source.substitute
  return ⟨replaced, substitute, source⟩

/-- No database may be substituted twice. -/
def checkReplaced (seen : List DatabaseId) : List ResolvedSubstitution → Resolved Unit
  | [] => .ok ()
  | s :: rest =>
    if s.replaced ∈ seen then
      (Fault.multipleSubstitutions s.source.replaced.value).found s.source.replaced.span
    else checkReplaced (s.replaced :: seen) rest

/-- No substitute may itself be substituted. -/
def checkSubstitutes (replaced : List DatabaseId) : List ResolvedSubstitution → Resolved Unit
  | [] => .ok ()
  | s :: rest =>
    if s.substitute ∈ replaced then
      (Fault.replacedAndSubstitute s.source.substitute.value).found s.source.substitute.span
    else checkSubstitutes replaced rest

/-- A substitute has to include what it stands for, so that it offers all of it. -/
def addSubstitution (store : Store) (s : Substitution) (next : ResolvedSubstitution) :
    Resolved Substitution :=
  if store.includesTransitively next.substitute next.replaced then
    .ok (s.insert next.replaced next.substitute)
  else
    (Fault.substituteDoesNotInclude next.source.replaced.value next.source.substitute.value).found
      next.source.substitute.span

/-- The substitution that an include declares. -/
def substitution (store : Store) (model : ObjectModel) (source : Source.Include) :
    Resolved Substitution := do
  let found ← source.substitutions.mapM (resolveSubstitution store model)
  checkReplaced [] found
  checkSubstitutes (found.map (·.replaced)) found
  found.foldlM (addSubstitution store) .identity

/-- The place where an include names the database that it replaces. -/
def replacedSpan (source : Source.Include) (name : String) : Span :=
  match source.substitutions.find? fun s => s.replaced.value = name with
  | some s => s.replaced.span
  | none => source.span

/-- The included unit has to mention every database that is replaced. -/
def checkMentioned (outer : String) (source : Source.Include) (s : Substitution)
    (included : MappingUnit) (store : Store) : Resolved Unit :=
  match s.domain.find? fun replaced => !included.referencedDatabases.contains replaced with
  | none => .ok ()
  | some replaced =>
    let name := store.databaseName replaced
    (Fault.substitutionNotInIncluded outer name included.name).found (replacedSpan source name)

/-! ## Flattening -/

mutual

/-- How many includes a unit is made of. -/
def unitSize : MappingUnit → Nat
  | ⟨_, _, _, _, includes, _, _, _, _, _⟩ => sizeOfAll includes

/-- How many includes an included unit is made of, itself counted. -/
def includedSize : IncludedUnit → Nat
  | ⟨unit, _⟩ => unitSize unit + 1

/-- How many includes a list of included units is made of. -/
def sizeOfAll : List IncludedUnit → Nat
  | [] => 0
  | i :: rest => includedSize i + sizeOfAll rest

end

/-- Size adds up along lists. -/
theorem sizeOfAll_append (a b : List IncludedUnit) :
    sizeOfAll (a ++ b) = sizeOfAll a + sizeOfAll b := by
  induction a with
  | nil => simp [sizeOfAll]
  | cons i rest ih => simp [sizeOfAll, ih, Nat.add_assoc]

/-- Substitutions do not count for the size. -/
theorem sizeOfAll_map (f : IncludedUnit → Substitution) (l : List IncludedUnit) :
    sizeOfAll (l.map fun i => ⟨i.unit, f i⟩) = sizeOfAll l := by
  induction l with
  | nil => rfl
  | cons i rest ih =>
    cases i
    simp [sizeOfAll, includedSize, ih]

/-- What a unit includes is smaller than the unit as it is included. -/
theorem sizeOfAll_inner (i : IncludedUnit) : sizeOfAll i.inner < includedSize i := by
  obtain ⟨unit, s⟩ := i
  cases unit
  simp [IncludedUnit.inner, sizeOfAll_map, includedSize, unitSize]

/-- Adds the units of a queue, and those behind them, to the units that are known. -/
def flattenFrom (unit : String) (span : Span) (known : List IncludedUnit) :
    List IncludedUnit → Resolved (List IncludedUnit)
  | [] => .ok known
  | next :: queue =>
    match known.find? fun i => i.unit.name = next.unit.name with
    | none => flattenFrom unit span (known ++ [next]) (queue ++ next.inner)
    | some previous =>
      if previous.substitution = next.substitution then flattenFrom unit span known queue
      else (Fault.ambiguousIncludePaths next.unit.name unit).found span
termination_by queue => sizeOfAll queue
decreasing_by
  · have := sizeOfAll_inner next
    simp only [sizeOfAll, sizeOfAll_append]
    omega
  · cases next
    simp only [sizeOfAll, includedSize]
    omega

/-- All units that are reached through a unit's own includes, each once and nearest first, with
the substitution composed along the way. -/
def flatten (unit : String) (span : Span) (direct : List IncludedUnit) :
    Resolved (List IncludedUnit) := flattenFrom unit span [] direct

/-! ## Ids -/

/-- An id and the place where a unit declares it. -/
structure DeclaredId where
  id : String
  span : Span

/-- The place where an id is written, or else where its mapping is. -/
def idSpan (id : Option Name) (span : Span) : Span :=
  match id with
  | some id => id.span
  | none => span

/-- The ids that a unit declares: those of class mappings, each behind the ids of its parts, then
those of association and enumeration mappings. -/
def declaredIds (unit : Source.Mapping) : List DeclaredId :=
  (unit.classMappings.flatMap fun m =>
    (m.generatedIds ++ [m.mappingId]).map fun id => ⟨id, idSpan m.id m.span⟩) ++
  (unit.associationMappings.map fun m => ⟨m.mappingId, idSpan m.id m.span⟩) ++
  unit.enumerationMappings.map fun m => ⟨m.mappingId, idSpan m.id m.span⟩

/-- No id may be declared twice. -/
def checkDistinct (unit : String) (seen : List String) : List DeclaredId → Resolved Unit
  | [] => .ok ()
  | d :: rest =>
    if d.id ∈ seen then (Fault.duplicateMappingId d.id unit).found d.span
    else checkDistinct unit (d.id :: seen) rest

/-- The ids of a unit are distinct, among themselves and from those of all units it includes. A
clash inside the unit is reported where it is, any other one at the unit. -/
def checkIds (unit : Source.Mapping) (flattened : List IncludedUnit) : Resolved Unit := do
  let own := declaredIds unit
  checkDistinct unit.name.value [] own
  let all := own.map (·.id) ++ flattened.flatMap fun i => i.unit.ids
  checkDistinct unit.name.value [] (all.map fun id => ⟨id, unit.span⟩)

end ObjectRelational.Include
