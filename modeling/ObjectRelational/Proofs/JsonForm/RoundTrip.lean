import ObjectRelational.Proofs.Fingerprint
import ObjectRelational.Proofs.JsonForm.Faithful
import ObjectRelational.Proofs.OrderedMap

/-!
# Sources are decoded from their JSON forms

* `Decodes`: a decoder finds every value in the form that an encoder gives it, and no value has the form
  of a missing one. `Decodes.nullable?_ofOption` and `Decodes.list?_ofList`: then optional values and
  lists are found as well.
* `Source.Operation.decode?_toJson`, `Source.PropertyMapping.decode?_toJson`: the nested forms, with as
  much fuel as they are deep.
* `Source.Database.decodes`, `Source.Mapping.decodes`: databases and mapping units.
-/

namespace ObjectRelational

open Json

namespace Json

section Fields

variable {α : Type} (decode : Decoder α) (key : String) (members : List (String × Json))

/-- A member is looked for behind the members of other keys. -/
@[simp] theorem member?_cons (other : String) (value : Json) :
    (obj ((other, value) :: members)).member? key =
      if key = other then some value else (obj members).member? key := by
  simp only [member?, OrderedMap.lookup_cons_eq]

@[simp] theorem required?_of_member? {json value : Json} (h : json.member? key = some value) :
    required? key decode json = decode value := by
  simp [required?, h]

@[simp] theorem optional?_of_member? {json value : Json} (h : json.member? key = some value) :
    optional? key decode json = nullable? decode value := by
  simp [optional?, h]

@[simp] theorem defaulted?_of_member? {json value : Json} (default : α)
    (h : json.member? key = some value) : defaulted? key default decode json = decode value := by
  simp [defaulted?, h]

@[simp] theorem listOrEmpty?_of_member? {json value : Json} (h : json.member? key = some value) :
    listOrEmpty? key decode json = list? decode value :=
  defaulted?_of_member? _ _ _ h

@[simp] theorem record?_obj (fields : List String) :
    record? fields decode (obj members) = decode (obj members) := by
  rfl

@[simp] theorem list?_arr (items : List Json) : list? decode (arr items) = allOf decode items := by
  rfl

@[simp] theorem object?_obj : object? decode (obj members) = decode (obj members) := by
  rfl

end Fields

@[simp] theorem bool?_bool (value : Bool) : bool? (bool value) = some value := by
  rfl

@[simp] theorem str?_str (value : String) : str? (str value) = some value := by
  rfl

@[simp] theorem float?_float (value : Binary64) : float? (float value) = some value := by
  rfl

@[simp] theorem uint8?_nat (n : UInt8) : uint8? (nat n.toNat) = some n := by
  have hlt : n.toNat < 256 := n.toNat_lt
  simp [uint8?, nat, hlt]

@[simp] theorem uint32?_nat (n : UInt32) : uint32? (nat n.toNat) = some n := by
  have hlt : n.toNat < 4294967296 := n.toNat_lt
  simp [uint32?, nat, hlt]

@[simp] theorem int64?_int (n : Int64) : int64? (int n.toInt) = some n := by
  have hmin : Int64.minValue.toInt ≤ n.toInt := Int64.le_iff_toInt_le.1 (Int64.minValue_le n)
  have hmax : n.toInt ≤ Int64.maxValue.toInt := Int64.le_iff_toInt_le.1 (Int64.le_maxValue n)
  simp only [int64?]
  rw [if_pos ⟨hmin, hmax⟩, Int64.ofInt_toInt]

theorem nat_ne_null (n : Nat) : nat n ≠ null := nofun

/-- What is not null is decoded. -/
theorem nullable?_of_ne_null {α : Type} {decode : Decoder α} {json : Json} (h : json ≠ null) :
    nullable? decode json = (decode json).map some := by
  cases json with
  | null => exact absurd rfl h
  | _ => rfl

/-- A variant with data is found, unless the data is null. -/
theorem variant?_tagged {name : String} {data : Json} (h : data ≠ null) :
    variant? (tagged name data) = some (name, some data) := by
  cases data with
  | null => exact absurd rfl h
  | _ => rfl

/-- A variant is as deep as its data, and once more. -/
theorem depth_tagged (name : String) (data : Json) : (tagged name data).depth = data.depth + 1 := by
  simp [tagged, depth, depthOfMembers]

@[simp] theorem variant?_str (name : String) : variant? (str name) = some (name, none) := by
  rfl

end Json

/-- Every value is found in its form, and no value has the form of a missing one. -/
structure Decodes {α : Type} (encode : α → Json) (decode? : Decoder α) : Prop where
  decode?_encode : ∀ a, decode? (encode a) = some a
  ne_null : ∀ a, encode a ≠ null

namespace Decodes

variable {α : Type} {encode : α → Json} {decode? : Decoder α}

@[simp] theorem nullable?_ofOption (h : Decodes encode decode?) (a : Option α) :
    nullable? decode? (ofOption encode a) = some a := by
  cases a with
  | none => rfl
  | some a => simp [ofOption, nullable?_of_ne_null (h.ne_null a), h.decode?_encode]

theorem allOf_map (h : Decodes encode decode?) (l : List α) :
    allOf decode? (l.map encode) = some l := by
  induction l with
  | nil => rfl
  | cons a rest ih => simp [allOf, h.decode?_encode, ih]

@[simp] theorem list?_ofList (h : Decodes encode decode?) (l : List α) :
    list? decode? (ofList encode l) = some l :=
  h.allOf_map l

end Decodes

/-! ## Names, types and literals -/

theorem Span.decodes : Decodes Span.toJson Span.ofJson? where
  decode?_encode a := by simp [Span.toJson, Span.ofJson?]
  ne_null := Span.faithful.ne_null

theorem Name.decodes : Decodes Name.toJson Name.ofJson? where
  decode?_encode a := by
    simp [Name.toJson, Name.ofJson?, spanOrDefault?, Span.decodes.decode?_encode]
  ne_null := Name.faithful.ne_null

theorem DataType.decodes : Decodes DataType.toJson DataType.ofJson? where
  decode?_encode a := by
    cases a <;>
      simp [DataType.toJson, DataType.ofJson?, variant?_tagged, nat_ne_null, precisionAndScale?]
  ne_null := DataType.faithful.ne_null

theorem PrimitiveType.decodes : Decodes PrimitiveType.toJson PrimitiveType.ofJson? where
  decode?_encode a := by cases a <;> rfl
  ne_null := PrimitiveType.faithful.ne_null

theorem decodes_uint32 : Decodes (fun n : UInt32 => nat n.toNat) uint32? where
  decode?_encode := uint32?_nat
  ne_null := faithful_uint32.ne_null

theorem Multiplicity.decodes : Decodes Multiplicity.toJson Multiplicity.ofJson? where
  decode?_encode a := by
    simp [Multiplicity.toJson, Multiplicity.ofJson?, decodes_uint32.nullable?_ofOption]
  ne_null := Multiplicity.faithful.ne_null

theorem Literal.decodes : Decodes Literal.toJson Literal.ofJson? where
  decode?_encode a := by cases a <;> simp [Literal.toJson, Literal.ofJson?, variant?_tagged]
  ne_null := Literal.faithful.ne_null

theorem JoinType.decodes : Decodes JoinType.toJson JoinType.ofJson? where
  decode?_encode a := by cases a <;> rfl
  ne_null := JoinType.faithful.ne_null

namespace Source

theorem nullable?_optionalName (a : Option Name) :
    nullable? Name.ofJson? (optionalName a) = some a :=
  Name.decodes.nullable?_ofOption a

/-! ## Expressions -/

theorem ColumnReference.decodes : Decodes ColumnReference.toJson ColumnReference.ofJson? where
  decode?_encode a := by
    simp [ColumnReference.toJson, ColumnReference.ofJson?, Name.decodes.decode?_encode,
      nullable?_optionalName]
  ne_null := ColumnReference.faithful.ne_null

theorem TableReference.decodes : Decodes TableReference.toJson TableReference.ofJson? where
  decode?_encode a := by
    simp [TableReference.toJson, TableReference.ofJson?, Name.decodes.decode?_encode,
      nullable?_optionalName]
  ne_null := TableReference.faithful.ne_null

theorem JoinReference.decodes : Decodes JoinReference.toJson JoinReference.ofJson? where
  decode?_encode a := by
    simp [JoinReference.toJson, JoinReference.ofJson?, Name.decodes.decode?_encode,
      nullable?_optionalName, JoinType.decodes.nullable?_ofOption]
  ne_null := JoinReference.faithful.ne_null

theorem FilterReference.decodes : Decodes FilterReference.toJson FilterReference.ofJson? where
  decode?_encode a := by
    simp [FilterReference.toJson, FilterReference.ofJson?, Name.decodes.decode?_encode,
      nullable?_optionalName, JoinReference.decodes.list?_ofList]
  ne_null := FilterReference.faithful.ne_null

namespace Operation

theorem targetToJson_eq (target : Option Operation) :
    targetToJson target = ofOption toJson target := by
  cases target <;> rfl

mutual

/-- An expression is found with as much fuel as its form is deep. -/
theorem decode?_toJson : ∀ (a : Operation) (fuel : Nat), a.toJson.depth ≤ fuel →
    decode? fuel a.toJson = some a
  | a, 0, h => by
    cases a <;> simp [toJson, tagged, depth] at h
  | column reference, fuel + 1, _ => by
    have hdata := ColumnReference.decodes.ne_null reference
    simp [toJson, decode?, variant?_tagged hdata, ColumnReference.decodes.decode?_encode]
  | targetColumn name, fuel + 1, _ => by
    have hdata := Name.decodes.ne_null name
    simp [toJson, decode?, variant?_tagged hdata, Name.decodes.decode?_encode]
  | literal value, fuel + 1, _ => by
    have hdata := Literal.decodes.ne_null value
    simp [toJson, decode?, variant?_tagged hdata, Literal.decodes.decode?_encode]
  | joinPath joins target, fuel + 1, h => by
    have htarget : (targetToJson target).depth ≤ fuel := by
      simp only [toJson, depth_tagged, depth, depthOfMembers] at h
      omega
    simp [toJson, decode?, variant?_tagged, JoinReference.decodes.list?_ofList,
      nullable?_targetToJson target fuel htarget]
  | function name arguments, fuel + 1, h => by
    have harguments : depthOfItems (allToJson arguments) ≤ fuel := by
      simp only [toJson, depth_tagged, depth, depthOfMembers] at h
      omega
    simp [toJson, decode?, variant?_tagged, Name.decodes.decode?_encode,
      allOf_allToJson arguments fuel harguments]

theorem nullable?_targetToJson : ∀ (target : Option Operation) (fuel : Nat),
    (targetToJson target).depth ≤ fuel →
    nullable? (decode? fuel) (targetToJson target) = some target
  | none, _, _ => rfl
  | some a, fuel, h => by
    have hfound := decode?_toJson a fuel h
    rw [targetToJson, nullable?_of_ne_null (toJson_ne_null a), hfound]
    rfl

theorem allOf_allToJson : ∀ (l : List Operation) (fuel : Nat),
    depthOfItems (allToJson l) ≤ fuel → allOf (decode? fuel) (allToJson l) = some l
  | [], _, _ => rfl
  | a :: rest, fuel, h => by
    simp only [allToJson, depthOfItems] at h
    have hfirst := decode?_toJson a fuel (by omega)
    have hrest := allOf_allToJson rest fuel (by omega)
    simp [allToJson, allOf, hfirst, hrest]

end

theorem decodes : Decodes toJson ofJson? where
  decode?_encode a := decode?_toJson a _ (le_refl _)
  ne_null := toJson_ne_null

end Operation

theorem JoinPath.decodes : Decodes JoinPath.toJson JoinPath.ofJson? where
  decode?_encode a := by
    simp [JoinPath.toJson, JoinPath.ofJson?, JoinReference.decodes.list?_ofList,
      Operation.targetToJson_eq, Operation.decodes.nullable?_ofOption]
  ne_null := JoinPath.faithful.ne_null

/-! ## Databases -/

theorem Column.decodes : Decodes Column.toJson Column.ofJson? where
  decode?_encode a := by
    simp [Column.toJson, Column.ofJson?, Name.decodes.decode?_encode,
      DataType.decodes.decode?_encode]
  ne_null := Column.faithful.ne_null

theorem MilestoningArgument.decodes :
    Decodes MilestoningArgument.toJson MilestoningArgument.ofJson? where
  decode?_encode a := by
    simp [MilestoningArgument.toJson, MilestoningArgument.ofJson?, Name.decodes.decode?_encode]
  ne_null := MilestoningArgument.faithful.ne_null

theorem MilestoningClause.decodes : Decodes MilestoningClause.toJson MilestoningClause.ofJson? where
  decode?_encode a := by
    simp [MilestoningClause.toJson, MilestoningClause.ofJson?, Name.decodes.decode?_encode,
      MilestoningArgument.decodes.list?_ofList, spanOrDefault?, Span.decodes.decode?_encode]
  ne_null := MilestoningClause.faithful.ne_null

theorem Table.decodes : Decodes Table.toJson Table.ofJson? where
  decode?_encode a := by
    simp [Table.toJson, Table.ofJson?, Name.decodes.decode?_encode, Column.decodes.list?_ofList,
      MilestoningClause.decodes.list?_ofList, spanOrDefault?, Span.decodes.decode?_encode]
  ne_null := Table.faithful.ne_null

theorem ViewColumn.decodes : Decodes ViewColumn.toJson ViewColumn.ofJson? where
  decode?_encode a := by
    simp [ViewColumn.toJson, ViewColumn.ofJson?, Name.decodes.decode?_encode,
      Operation.decodes.decode?_encode]
  ne_null := ViewColumn.faithful.ne_null

theorem View.decodes : Decodes View.toJson View.ofJson? where
  decode?_encode a := by
    simp [View.toJson, View.ofJson?, Name.decodes.decode?_encode,
      FilterReference.decodes.nullable?_ofOption, Operation.decodes.list?_ofList,
      ViewColumn.decodes.list?_ofList, spanOrDefault?, Span.decodes.decode?_encode]
  ne_null := View.faithful.ne_null

theorem Schema.decodes : Decodes Schema.toJson Schema.ofJson? where
  decode?_encode a := by
    simp [Schema.toJson, Schema.ofJson?, Name.decodes.decode?_encode, Table.decodes.list?_ofList,
      View.decodes.list?_ofList]
  ne_null := Schema.faithful.ne_null

theorem Join.decodes : Decodes Join.toJson Join.ofJson? where
  decode?_encode a := by
    simp [Join.toJson, Join.ofJson?, Name.decodes.decode?_encode, Operation.decodes.decode?_encode,
      spanOrDefault?, Span.decodes.decode?_encode]
  ne_null := Join.faithful.ne_null

theorem Filter.decodes : Decodes Filter.toJson Filter.ofJson? where
  decode?_encode a := by
    simp [Filter.toJson, Filter.ofJson?, Name.decodes.decode?_encode,
      Operation.decodes.decode?_encode, spanOrDefault?, Span.decodes.decode?_encode]
  ne_null := Filter.faithful.ne_null

/-- A database is decoded from its form. -/
theorem Database.decodes : Decodes Database.toJson Database.ofJson? where
  decode?_encode a := by
    simp [Database.toJson, Database.ofJson?, Name.decodes.decode?_encode, Name.decodes.list?_ofList,
      Schema.decodes.list?_ofList, Join.decodes.list?_ofList, Filter.decodes.list?_ofList,
      spanOrDefault?, Span.decodes.decode?_encode]
  ne_null := Database.faithful.ne_null

/-! ## Property mappings -/

theorem StoreSubstitution.decodes : Decodes StoreSubstitution.toJson StoreSubstitution.ofJson? where
  decode?_encode a := by
    simp [StoreSubstitution.toJson, StoreSubstitution.ofJson?, Name.decodes.decode?_encode]
  ne_null := StoreSubstitution.faithful.ne_null

theorem Include.decodes : Decodes Include.toJson Include.ofJson? where
  decode?_encode a := by
    simp [Include.toJson, Include.ofJson?, Name.decodes.decode?_encode,
      StoreSubstitution.decodes.list?_ofList, spanOrDefault?, Span.decodes.decode?_encode]
  ne_null := Include.faithful.ne_null

theorem LocalProperty.decodes : Decodes LocalProperty.toJson LocalProperty.ofJson? where
  decode?_encode a := by
    simp [LocalProperty.toJson, LocalProperty.ofJson?, PrimitiveType.decodes.decode?_encode,
      Multiplicity.decodes.decode?_encode]
  ne_null := LocalProperty.faithful.ne_null

theorem Otherwise.decodes : Decodes Otherwise.toJson Otherwise.ofJson? where
  decode?_encode a := by
    simp [Otherwise.toJson, Otherwise.ofJson?, Name.decodes.decode?_encode,
      JoinPath.decodes.decode?_encode]
  ne_null := Otherwise.faithful.ne_null

mutual

/-- A property mapping is found with as much fuel as its form is deep. -/
theorem PropertyMapping.decode?_toJson : ∀ (m : PropertyMapping) (fuel : Nat),
    m.toJson.depth ≤ fuel → PropertyMapping.decode? fuel m.toJson = some m
  | ⟨_, _, _, _, _, _⟩, 0, h => by
    simp [PropertyMapping.toJson, depth] at h
  | ⟨_, _, _, _, .relational _ _, _⟩, fuel + 1, _ => by
    simp [PropertyMapping.toJson, PropertyMapping.decode?, PropertyBody.toJson, variant?_tagged,
      Name.decodes.decode?_encode, nullable?_optionalName, LocalProperty.decodes.nullable?_ofOption,
      Operation.decodes.decode?_encode, spanOrDefault?, Span.decodes.decode?_encode]
  | ⟨_, _, _, _, .embedded _ propertyMappings _, _⟩, fuel + 1, h => by
    have hmappings : depthOfItems (mappingsToJson propertyMappings) ≤ fuel := by
      simp only [PropertyMapping.toJson, PropertyBody.toJson, depth_tagged, depth,
        depthOfMembers] at h
      omega
    simp [PropertyMapping.toJson, PropertyMapping.decode?, PropertyBody.toJson, variant?_tagged,
      Name.decodes.decode?_encode, nullable?_optionalName, LocalProperty.decodes.nullable?_ofOption,
      Operation.decodes.list?_ofList, Otherwise.decodes.nullable?_ofOption,
      allOf_mappingsToJson propertyMappings fuel hmappings, spanOrDefault?, Span.decodes.decode?_encode]
  | ⟨_, _, _, _, .inline targetId, _⟩, fuel + 1, _ => by
    have hdata := Name.decodes.ne_null targetId
    simp [PropertyMapping.toJson, PropertyMapping.decode?, PropertyBody.toJson,
      variant?_tagged hdata, Name.decodes.decode?_encode, nullable?_optionalName,
      LocalProperty.decodes.nullable?_ofOption, spanOrDefault?, Span.decodes.decode?_encode]

theorem allOf_mappingsToJson : ∀ (l : List PropertyMapping) (fuel : Nat),
    depthOfItems (mappingsToJson l) ≤ fuel →
    allOf (PropertyMapping.decode? fuel) (mappingsToJson l) = some l
  | [], _, _ => rfl
  | m :: rest, fuel, h => by
    simp only [mappingsToJson, depthOfItems] at h
    have hfirst := PropertyMapping.decode?_toJson m fuel (by omega)
    have hrest := allOf_mappingsToJson rest fuel (by omega)
    simp [mappingsToJson, allOf, hfirst, hrest]

end

theorem PropertyMapping.decodes : Decodes PropertyMapping.toJson PropertyMapping.ofJson? where
  decode?_encode m := PropertyMapping.decode?_toJson m _ (le_refl _)
  ne_null := PropertyMapping.faithful.ne_null

/-! ## Class, association and enumeration mappings -/

theorem RelationalMapping.decodes : Decodes RelationalMapping.toJson RelationalMapping.ofJson? where
  decode?_encode a := by
    simp [RelationalMapping.toJson, RelationalMapping.ofJson?,
      TableReference.decodes.nullable?_ofOption, FilterReference.decodes.nullable?_ofOption,
      Operation.decodes.list?_ofList, PropertyMapping.decodes.list?_ofList]
  ne_null := RelationalMapping.faithful.ne_null

theorem PropertyPath.decodes : Decodes PropertyPath.toJson PropertyPath.ofJson? where
  decode?_encode a := by
    simp [PropertyPath.toJson, PropertyPath.ofJson?, Name.decodes.list?_ofList, spanOrDefault?,
      Span.decodes.decode?_encode]
  ne_null := PropertyPath.faithful.ne_null

theorem AggregateValue.decodes : Decodes AggregateValue.toJson AggregateValue.ofJson? where
  decode?_encode a := by
    simp [AggregateValue.toJson, AggregateValue.ofJson?, PropertyPath.decodes.decode?_encode,
      Name.decodes.decode?_encode]
  ne_null := AggregateValue.faithful.ne_null

theorem AggregateSpecification.decodes :
    Decodes AggregateSpecification.toJson AggregateSpecification.ofJson? where
  decode?_encode a := by
    simp [AggregateSpecification.toJson, AggregateSpecification.ofJson?,
      PropertyPath.decodes.list?_ofList, AggregateValue.decodes.list?_ofList]
  ne_null := AggregateSpecification.faithful.ne_null

theorem AggregateView.decodes : Decodes AggregateView.toJson AggregateView.ofJson? where
  decode?_encode a := by
    simp [AggregateView.toJson, AggregateView.ofJson?,
      AggregateSpecification.decodes.decode?_encode, RelationalMapping.decodes.decode?_encode,
      spanOrDefault?, Span.decodes.decode?_encode]
  ne_null := AggregateView.faithful.ne_null

theorem ClassBody.decodes : Decodes ClassBody.toJson ClassBody.ofJson? where
  decode?_encode a := by
    cases a with
    | relational mapping =>
      have hdata := RelationalMapping.decodes.ne_null mapping
      simp [ClassBody.toJson, ClassBody.ofJson?, variant?_tagged hdata,
        RelationalMapping.decodes.decode?_encode]
    | aggregationAware main views =>
      simp [ClassBody.toJson, ClassBody.ofJson?, variant?_tagged,
        RelationalMapping.decodes.decode?_encode, AggregateView.decodes.list?_ofList]
  ne_null := ClassBody.faithful.ne_null

theorem ClassMapping.decodes : Decodes ClassMapping.toJson ClassMapping.ofJson? where
  decode?_encode a := by
    simp [ClassMapping.toJson, ClassMapping.ofJson?, Name.decodes.decode?_encode,
      nullable?_optionalName, ClassBody.decodes.decode?_encode, spanOrDefault?,
      Span.decodes.decode?_encode]
  ne_null := ClassMapping.faithful.ne_null

theorem AssociationMapping.decodes :
    Decodes AssociationMapping.toJson AssociationMapping.ofJson? where
  decode?_encode a := by
    simp [AssociationMapping.toJson, AssociationMapping.ofJson?, Name.decodes.decode?_encode,
      nullable?_optionalName, PropertyMapping.decodes.list?_ofList, spanOrDefault?,
      Span.decodes.decode?_encode]
  ne_null := AssociationMapping.faithful.ne_null

theorem EnumSource.decodes : Decodes EnumSource.toJson EnumSource.ofJson? where
  decode?_encode a := by cases a <;> simp [EnumSource.toJson, EnumSource.ofJson?, variant?_tagged]
  ne_null := EnumSource.faithful.ne_null

theorem EnumValueMapping.decodes : Decodes EnumValueMapping.toJson EnumValueMapping.ofJson? where
  decode?_encode a := by
    simp [EnumValueMapping.toJson, EnumValueMapping.ofJson?, Name.decodes.decode?_encode,
      EnumSource.decodes.list?_ofList]
  ne_null := EnumValueMapping.faithful.ne_null

theorem EnumerationMapping.decodes :
    Decodes EnumerationMapping.toJson EnumerationMapping.ofJson? where
  decode?_encode a := by
    simp [EnumerationMapping.toJson, EnumerationMapping.ofJson?, Name.decodes.decode?_encode,
      nullable?_optionalName, EnumValueMapping.decodes.list?_ofList, spanOrDefault?,
      Span.decodes.decode?_encode]
  ne_null := EnumerationMapping.faithful.ne_null

/-- A mapping unit is decoded from its form. -/
theorem Mapping.decodes : Decodes Mapping.toJson Mapping.ofJson? where
  decode?_encode a := by
    simp [Mapping.toJson, Mapping.ofJson?, Name.decodes.decode?_encode,
      Include.decodes.list?_ofList, ClassMapping.decodes.list?_ofList,
      AssociationMapping.decodes.list?_ofList, EnumerationMapping.decodes.list?_ofList,
      spanOrDefault?, Span.decodes.decode?_encode]
  ne_null := Mapping.faithful.ne_null

end Source

/-! ## What is fingerprinted -/

/-- What is hashed for databases and for mapping units tells them, and they are decoded from it. What is
hashed for texts tells the texts, if none of them has a zero character. -/
theorem fingerprinted_determines_sources :
    (∀ ds es : List Source.Database,
      Fingerprint.jsonBytes (.ofList Source.Database.toJson ds) =
        Fingerprint.jsonBytes (.ofList Source.Database.toJson es) → ds = es) ∧
    (∀ ds : List Source.Database,
      list? Source.Database.ofJson? (.ofList Source.Database.toJson ds) = some ds) ∧
    (∀ m n : Source.Mapping,
      Fingerprint.jsonBytes m.toJson = Fingerprint.jsonBytes n.toJson → m = n) ∧
    (∀ m : Source.Mapping, Source.Mapping.ofJson? m.toJson = some m) ∧
    ∀ parts others : List String, (∀ s ∈ parts, '\x00' ∉ s.toList) →
      (∀ s ∈ others, '\x00' ∉ s.toList) →
      Fingerprint.partBytes parts = Fingerprint.partBytes others → parts = others := by
  refine ⟨?_, Source.Database.decodes.list?_ofList, ?_, Source.Mapping.decodes.decode?_encode, ?_⟩
  · intro ds es h
    exact Source.Database.faithful.ofList_inj.1 (Fingerprint.jsonBytes_injective h)
  · intro m n h
    exact Source.Mapping.faithful.injective (Fingerprint.jsonBytes_injective h)
  · intro parts others hparts hothers h
    exact Fingerprint.partBytes_injective hparts hothers h

/-- Two texts are told from one, and a filter on an integer from one on its decimal digits. -/
theorem fingerprinted_determines_sources_of_joined :
    Fingerprint.partBytes ["ab"] ≠ Fingerprint.partBytes ["a", "b"] ∧
      Fingerprint.jsonBytes (.ofList Source.Database.toJson [{
          name := { value := "db" }
          filters := [{ name := { value := "f" }, condition := .literal (.integer 1) }] }]) ≠
        Fingerprint.jsonBytes (.ofList Source.Database.toJson [{
          name := { value := "db" }
          filters := [{ name := { value := "f" }, condition := .literal (.string "1") }] }]) := by
  constructor
  · intro h
    have htexts := fingerprinted_determines_sources.2.2.2.2 ["ab"] ["a", "b"] (by decide) (by decide) h
    simp at htexts
  · intro h
    have hsources := fingerprinted_determines_sources.1 _ _ h
    simp at hsources

end ObjectRelational
