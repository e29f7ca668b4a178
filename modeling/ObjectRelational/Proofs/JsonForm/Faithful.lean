import ObjectRelational.JsonForm.Database
import ObjectRelational.JsonForm.Mapping

/-!
# The JSON forms of different sources differ

* `Faithful`: an encoder has different forms for different values, and none of them is null.
* `Faithful.ofOption_inj`, `Faithful.ofList_inj`: so optional values and lists are told apart as well.
* `Source.Database.faithful`, `Source.Mapping.faithful`: the forms of databases and of mapping units.
-/

namespace ObjectRelational

open Json

/-- Different values have different forms, and no value has the form of a missing one. -/
structure Faithful {α : Type} (encode : α → Json) : Prop where
  injective : ∀ {a b}, encode a = encode b → a = b
  ne_null : ∀ a, encode a ≠ null

namespace Faithful

variable {α : Type} {encode : α → Json}

theorem inj (h : Faithful encode) {a b : α} : encode a = encode b ↔ a = b :=
  ⟨h.injective, fun hab => hab ▸ rfl⟩

theorem ofOption_inj (h : Faithful encode) {a b : Option α} :
    ofOption encode a = ofOption encode b ↔ a = b := by
  cases a <;> cases b
  · simp
  · simp [ofOption, (h.ne_null _).symm]
  · simp [ofOption, h.ne_null]
  · simp [ofOption, h.inj]

theorem ofList_inj (h : Faithful encode) {a b : List α} :
    ofList encode a = ofList encode b ↔ a = b := by
  constructor
  · intro hab
    exact (List.map_inj_right fun _ _ => h.injective).1 (Json.arr.inj hab)
  · rintro rfl
    rfl

end Faithful

/-- A form of an object is not null. -/
theorem obj_ne_null (members : List (String × Json)) : obj members ≠ null := nofun

theorem tagged_inj {name name' : String} {a b : Json} :
    tagged name a = tagged name' b ↔ name = name' ∧ a = b := by
  simp [tagged]

theorem nat_inj {m n : Nat} : nat m = nat n ↔ m = n := by
  simp only [nat, int.injEq]
  exact Int.ofNat_inj

/-! ## Names, types and literals -/

theorem Span.faithful : Faithful Span.toJson where
  injective {a b} h := by
    cases a
    cases b
    simpa [Span.toJson, nat_inj, UInt32.toNat_inj] using h
  ne_null _ := obj_ne_null _

theorem Name.faithful : Faithful Name.toJson where
  injective {a b} h := by
    cases a
    cases b
    simpa [Name.toJson, Span.faithful.inj] using h
  ne_null _ := obj_ne_null _

theorem DataType.faithful : Faithful DataType.toJson where
  injective {a b} h := by
    cases a <;> cases b <;>
      simp_all [DataType.toJson, tagged, nat_inj, UInt8.toNat_inj, UInt32.toNat_inj]
  ne_null a := by cases a <;> nofun

theorem PrimitiveType.faithful : Faithful PrimitiveType.toJson where
  injective {a b} h := by cases a <;> cases b <;> simp_all [PrimitiveType.toJson, text]
  ne_null _ := nofun

theorem faithful_uint32 : Faithful fun n : UInt32 => nat n.toNat where
  injective h := UInt32.toNat_inj.1 (nat_inj.1 h)
  ne_null _ := nofun

theorem Multiplicity.faithful : Faithful Multiplicity.toJson where
  injective {a b} h := by
    cases a
    cases b
    simpa [Multiplicity.toJson, nat_inj, UInt32.toNat_inj, faithful_uint32.ofOption_inj] using h
  ne_null _ := obj_ne_null _

theorem Literal.faithful : Faithful Literal.toJson where
  injective {a b} h := by
    cases a <;> cases b <;> simp_all [Literal.toJson, tagged, Int64.toInt_inj]
  ne_null a := by cases a <;> nofun

theorem JoinType.faithful : Faithful JoinType.toJson where
  injective {a b} h := by cases a <;> cases b <;> simp_all [JoinType.toJson]
  ne_null a := by cases a <;> nofun

namespace Source

theorem optionalName_inj {a b : Option Name} : optionalName a = optionalName b ↔ a = b :=
  Name.faithful.ofOption_inj

/-! ## Expressions -/

theorem ColumnReference.faithful : Faithful ColumnReference.toJson where
  injective {a b} h := by
    cases a
    cases b
    simpa [ColumnReference.toJson, optionalName_inj, Name.faithful.inj] using h
  ne_null _ := obj_ne_null _

theorem TableReference.faithful : Faithful TableReference.toJson where
  injective {a b} h := by
    cases a
    cases b
    simpa [TableReference.toJson, optionalName_inj, Name.faithful.inj] using h
  ne_null _ := obj_ne_null _

theorem JoinReference.faithful : Faithful JoinReference.toJson where
  injective {a b} h := by
    cases a
    cases b
    simpa [JoinReference.toJson, optionalName_inj, Name.faithful.inj,
      JoinType.faithful.ofOption_inj] using h
  ne_null _ := obj_ne_null _

theorem FilterReference.faithful : Faithful FilterReference.toJson where
  injective {a b} h := by
    cases a
    cases b
    simpa [FilterReference.toJson, optionalName_inj, Name.faithful.inj,
      JoinReference.faithful.ofList_inj] using h
  ne_null _ := obj_ne_null _

namespace Operation

theorem toJson_ne_null (a : Operation) : a.toJson ≠ null := by
  cases a <;> simp [toJson, tagged]

mutual

theorem toJson_injective : ∀ {a b : Operation}, a.toJson = b.toJson → a = b
  | column reference, b, h => by
    cases b with
    | column other =>
      have hreference : reference.toJson = other.toJson := by simpa [toJson, tagged_inj] using h
      rw [ColumnReference.faithful.injective hreference]
    | _ => simp [toJson, tagged] at h
  | targetColumn name, b, h => by
    cases b with
    | targetColumn other =>
      have hname : Name.toJson name = Name.toJson other := by simpa [toJson, tagged_inj] using h
      rw [Name.faithful.injective hname]
    | _ => simp [toJson, tagged] at h
  | joinPath joins target, b, h => by
    cases b with
    | joinPath joins' target' =>
      simp only [toJson, tagged_inj, obj.injEq, List.cons.injEq, Prod.mk.injEq, true_and,
        and_true, JoinReference.faithful.ofList_inj] at h
      rw [h.1, targetToJson_injective h.2]
    | _ => simp [toJson, tagged] at h
  | literal value, b, h => by
    cases b with
    | literal other =>
      have hvalue : value.toJson = other.toJson := by simpa [toJson, tagged_inj] using h
      rw [Literal.faithful.injective hvalue]
    | _ => simp [toJson, tagged] at h
  | function name arguments, b, h => by
    cases b with
    | function name' arguments' =>
      simp only [toJson, tagged_inj, obj.injEq, List.cons.injEq, Prod.mk.injEq, true_and,
        and_true, arr.injEq, Name.faithful.inj] at h
      rw [h.1, allToJson_injective h.2]
    | _ => simp [toJson, tagged] at h

theorem targetToJson_injective : ∀ {a b : Option Operation},
    targetToJson a = targetToJson b → a = b
  | none, none, _ => rfl
  | none, some b, h => absurd h.symm (toJson_ne_null b)
  | some a, none, h => absurd h (toJson_ne_null a)
  | some a, some b, h => by rw [toJson_injective (a := a) (b := b) h]

theorem allToJson_injective : ∀ {a b : List Operation}, allToJson a = allToJson b → a = b
  | [], [], _ => rfl
  | [], _ :: _, h => by cases h
  | _ :: _, [], h => by cases h
  | a :: rest, b :: rest', h => by
    rcases List.cons.inj h with ⟨hfirst, hrest⟩
    rw [toJson_injective hfirst, allToJson_injective hrest]

end

theorem faithful : Faithful toJson where
  injective := toJson_injective
  ne_null := toJson_ne_null

end Operation

theorem JoinPath.faithful : Faithful JoinPath.toJson where
  injective {a b} h := by
    cases a
    cases b
    simp only [JoinPath.toJson, obj.injEq, List.cons.injEq, Prod.mk.injEq, true_and, and_true,
      JoinReference.faithful.ofList_inj] at h
    rw [h.1, Operation.targetToJson_injective h.2]
  ne_null _ := obj_ne_null _

/-! ## Databases -/

theorem Column.faithful : Faithful Column.toJson where
  injective {a b} h := by
    cases a
    cases b
    simpa [Column.toJson, Name.faithful.inj, DataType.faithful.inj] using h
  ne_null _ := obj_ne_null _

theorem MilestoningArgument.faithful : Faithful MilestoningArgument.toJson where
  injective {a b} h := by
    cases a
    cases b
    simpa [MilestoningArgument.toJson, Name.faithful.inj] using h
  ne_null _ := obj_ne_null _

theorem MilestoningClause.faithful : Faithful MilestoningClause.toJson where
  injective {a b} h := by
    cases a
    cases b
    simpa [MilestoningClause.toJson, Name.faithful.inj, MilestoningArgument.faithful.ofList_inj,
      Span.faithful.inj] using h
  ne_null _ := obj_ne_null _

theorem Table.faithful : Faithful Table.toJson where
  injective {a b} h := by
    cases a
    cases b
    simpa [Table.toJson, Name.faithful.inj, Column.faithful.ofList_inj,
      MilestoningClause.faithful.ofList_inj, Span.faithful.inj] using h
  ne_null _ := obj_ne_null _

theorem ViewColumn.faithful : Faithful ViewColumn.toJson where
  injective {a b} h := by
    cases a
    cases b
    simpa [ViewColumn.toJson, Name.faithful.inj, Operation.faithful.inj] using h
  ne_null _ := obj_ne_null _

theorem View.faithful : Faithful View.toJson where
  injective {a b} h := by
    cases a
    cases b
    simpa [View.toJson, Name.faithful.inj, FilterReference.faithful.ofOption_inj,
      Operation.faithful.ofList_inj, ViewColumn.faithful.ofList_inj, Span.faithful.inj] using h
  ne_null _ := obj_ne_null _

theorem Schema.faithful : Faithful Schema.toJson where
  injective {a b} h := by
    cases a
    cases b
    simpa [Schema.toJson, Name.faithful.inj, Table.faithful.ofList_inj,
      View.faithful.ofList_inj] using h
  ne_null _ := obj_ne_null _

theorem Join.faithful : Faithful Join.toJson where
  injective {a b} h := by
    cases a
    cases b
    simpa [Join.toJson, Name.faithful.inj, Operation.faithful.inj, Span.faithful.inj] using h
  ne_null _ := obj_ne_null _

theorem Filter.faithful : Faithful Filter.toJson where
  injective {a b} h := by
    cases a
    cases b
    simpa [Filter.toJson, Name.faithful.inj, Operation.faithful.inj, Span.faithful.inj] using h
  ne_null _ := obj_ne_null _

/-- Different databases have different forms. -/
theorem Database.faithful : Faithful Database.toJson where
  injective {a b} h := by
    cases a
    cases b
    simpa [Database.toJson, Name.faithful.inj, Name.faithful.ofList_inj,
      Schema.faithful.ofList_inj, Join.faithful.ofList_inj, Filter.faithful.ofList_inj,
      Span.faithful.inj] using h
  ne_null _ := obj_ne_null _

/-! ## Property mappings -/

theorem StoreSubstitution.faithful : Faithful StoreSubstitution.toJson where
  injective {a b} h := by
    cases a
    cases b
    simpa [StoreSubstitution.toJson, Name.faithful.inj] using h
  ne_null _ := obj_ne_null _

theorem Include.faithful : Faithful Include.toJson where
  injective {a b} h := by
    cases a
    cases b
    simpa [Include.toJson, Name.faithful.inj, StoreSubstitution.faithful.ofList_inj,
      Span.faithful.inj] using h
  ne_null _ := obj_ne_null _

theorem LocalProperty.faithful : Faithful LocalProperty.toJson where
  injective {a b} h := by
    cases a
    cases b
    simpa [LocalProperty.toJson, PrimitiveType.faithful.inj, Multiplicity.faithful.inj] using h
  ne_null _ := obj_ne_null _

theorem Otherwise.faithful : Faithful Otherwise.toJson where
  injective {a b} h := by
    cases a
    cases b
    simpa [Otherwise.toJson, Name.faithful.inj, JoinPath.faithful.inj] using h
  ne_null _ := obj_ne_null _

mutual

theorem PropertyMapping.toJson_injective : ∀ {a b : PropertyMapping}, a.toJson = b.toJson → a = b
  | ⟨_, _, _, _, body, _⟩, ⟨_, _, _, _, body', _⟩, h => by
    simp only [PropertyMapping.toJson, obj.injEq, List.cons.injEq, Prod.mk.injEq, true_and,
      and_true, Name.faithful.inj, optionalName_inj, LocalProperty.faithful.ofOption_inj,
      Span.faithful.inj] at h
    rcases h with ⟨rfl, rfl, rfl, rfl, hbody, rfl⟩
    rw [PropertyBody.toJson_injective hbody]

theorem PropertyBody.toJson_injective : ∀ {a b : PropertyBody}, a.toJson = b.toJson → a = b
  | .relational operation enumerationMapping, b, h => by
    cases b with
    | relational operation' enumerationMapping' =>
      simp only [PropertyBody.toJson, tagged_inj, obj.injEq, List.cons.injEq, Prod.mk.injEq,
        true_and, and_true, Operation.faithful.inj, optionalName_inj] at h
      rw [h.1, h.2]
    | _ => simp [PropertyBody.toJson, tagged] at h
  | .embedded primaryKey propertyMappings otherwise, b, h => by
    cases b with
    | embedded primaryKey' propertyMappings' otherwise' =>
      simp only [PropertyBody.toJson, tagged_inj, obj.injEq, List.cons.injEq, Prod.mk.injEq,
        true_and, and_true, arr.injEq, Operation.faithful.ofList_inj,
        Otherwise.faithful.ofOption_inj] at h
      rw [h.1, mappingsToJson_injective h.2.1, h.2.2]
    | _ => simp [PropertyBody.toJson, tagged] at h
  | .inline targetId, b, h => by
    cases b with
    | inline targetId' =>
      have hname : Name.toJson targetId = Name.toJson targetId' := by
        simpa [PropertyBody.toJson, tagged_inj] using h
      rw [Name.faithful.injective hname]
    | _ => simp [PropertyBody.toJson, tagged] at h

theorem mappingsToJson_injective : ∀ {a b : List PropertyMapping},
    mappingsToJson a = mappingsToJson b → a = b
  | [], [], _ => rfl
  | [], _ :: _, h => by cases h
  | _ :: _, [], h => by cases h
  | a :: rest, b :: rest', h => by
    rcases List.cons.inj h with ⟨hfirst, hrest⟩
    rw [PropertyMapping.toJson_injective hfirst, mappingsToJson_injective hrest]

end

theorem PropertyMapping.faithful : Faithful PropertyMapping.toJson where
  injective := PropertyMapping.toJson_injective
  ne_null a := by
    cases a
    simp [PropertyMapping.toJson]

/-! ## Class, association and enumeration mappings -/

theorem RelationalMapping.faithful : Faithful RelationalMapping.toJson where
  injective {a b} h := by
    cases a
    cases b
    simpa [RelationalMapping.toJson, TableReference.faithful.ofOption_inj,
      FilterReference.faithful.ofOption_inj, Operation.faithful.ofList_inj,
      PropertyMapping.faithful.ofList_inj] using h
  ne_null _ := obj_ne_null _

theorem PropertyPath.faithful : Faithful PropertyPath.toJson where
  injective {a b} h := by
    cases a
    cases b
    simpa [PropertyPath.toJson, Name.faithful.ofList_inj, Span.faithful.inj] using h
  ne_null _ := obj_ne_null _

theorem AggregateValue.faithful : Faithful AggregateValue.toJson where
  injective {a b} h := by
    cases a
    cases b
    simpa [AggregateValue.toJson, PropertyPath.faithful.inj, Name.faithful.inj] using h
  ne_null _ := obj_ne_null _

theorem AggregateSpecification.faithful : Faithful AggregateSpecification.toJson where
  injective {a b} h := by
    cases a
    cases b
    simpa [AggregateSpecification.toJson, PropertyPath.faithful.ofList_inj,
      AggregateValue.faithful.ofList_inj] using h
  ne_null _ := obj_ne_null _

theorem AggregateView.faithful : Faithful AggregateView.toJson where
  injective {a b} h := by
    cases a
    cases b
    simpa [AggregateView.toJson, AggregateSpecification.faithful.inj,
      RelationalMapping.faithful.inj, Span.faithful.inj] using h
  ne_null _ := obj_ne_null _

theorem ClassBody.faithful : Faithful ClassBody.toJson where
  injective {a b} h := by
    cases a <;> cases b
    · simpa [ClassBody.toJson, tagged_inj, RelationalMapping.faithful.inj] using h
    · simp [ClassBody.toJson, tagged] at h
    · simp [ClassBody.toJson, tagged] at h
    · simpa [ClassBody.toJson, tagged_inj, RelationalMapping.faithful.inj,
        AggregateView.faithful.ofList_inj] using h
  ne_null a := by cases a <;> nofun

theorem ClassMapping.faithful : Faithful ClassMapping.toJson where
  injective {a b} h := by
    cases a
    cases b
    simpa [ClassMapping.toJson, Name.faithful.inj, optionalName_inj, ClassBody.faithful.inj,
      Span.faithful.inj] using h
  ne_null _ := obj_ne_null _

theorem AssociationMapping.faithful : Faithful AssociationMapping.toJson where
  injective {a b} h := by
    cases a
    cases b
    simpa [AssociationMapping.toJson, Name.faithful.inj, optionalName_inj,
      PropertyMapping.faithful.ofList_inj, Span.faithful.inj] using h
  ne_null _ := obj_ne_null _

theorem EnumSource.faithful : Faithful EnumSource.toJson where
  injective {a b} h := by
    cases a <;> cases b <;> simp_all [EnumSource.toJson, tagged, Int64.toInt_inj]
  ne_null a := by cases a <;> nofun

theorem EnumValueMapping.faithful : Faithful EnumValueMapping.toJson where
  injective {a b} h := by
    cases a
    cases b
    simpa [EnumValueMapping.toJson, Name.faithful.inj, EnumSource.faithful.ofList_inj] using h
  ne_null _ := obj_ne_null _

theorem EnumerationMapping.faithful : Faithful EnumerationMapping.toJson where
  injective {a b} h := by
    cases a
    cases b
    simpa [EnumerationMapping.toJson, Name.faithful.inj, optionalName_inj,
      EnumValueMapping.faithful.ofList_inj, Span.faithful.inj] using h
  ne_null _ := obj_ne_null _

/-- Different mapping units have different forms. -/
theorem Mapping.faithful : Faithful Mapping.toJson where
  injective {a b} h := by
    cases a
    cases b
    simpa [Mapping.toJson, Name.faithful.inj, Include.faithful.ofList_inj,
      ClassMapping.faithful.ofList_inj, AssociationMapping.faithful.ofList_inj,
      EnumerationMapping.faithful.ofList_inj, Span.faithful.inj] using h
  ne_null _ := obj_ne_null _

end Source

end ObjectRelational
