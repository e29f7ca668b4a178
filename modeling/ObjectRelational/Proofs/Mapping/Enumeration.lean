import ObjectRelational.Mapping.Enumeration
import ObjectRelational.Proofs.Lookup
import ObjectRelational.Proofs.Recorded

/-!
# Decoding with enumeration mappings

An accepted enumeration mapping names every enumeration value at most once, but nothing keeps a column value
from being listed for two of them. It is then decoded to the first one.

* `EnumerationMapping.valueOf?_eq_some_iff`: what a column value is decoded to.
* `EnumerationMapping.listed_values_decoded`: every column value that is listed is decoded; all of them are
  decoded to the enumeration values that list them if and only if no two enumeration values list the same one.
-/

namespace ObjectRelational.EnumerationMapping

variable {model : ObjectModel} {enumeration : Model.Enumeration} {path id : String}
  {source : Source.EnumerationMapping} {mapping : EnumerationMapping}

/-! ## What is resolved -/

/-- The values that resolve are those that are written, each with its column values; none of them is repeated
or was there before. -/
theorem values_of_resolveValues {seen : List String} {first : Option Source.EnumSource}
    {l : List Source.EnumValueMapping} {values : List (String × List Source.EnumSource)}
    (h : resolveValues enumeration path id seen first l = .ok values) :
    values = l.map (fun m => (m.value.value, m.sources)) ∧ (l.map (·.value.value)).Nodup ∧
      ∀ m ∈ l, m.value.value ∉ seen := by
  induction l generalizing seen first values with
  | nil =>
    obtain rfl := Except.ok.inj h
    exact ⟨rfl, List.nodup_nil, by simp⟩
  | cons m rest ih =>
    unfold resolveValues at h
    dsimp only at h
    split at h
    · exact absurd h (found_ne_ok _ _ _)
    · split at h
      · exact absurd h (found_ne_ok _ _ _)
      · rename_i hnew
        obtain ⟨_, -, h⟩ := bind_eq_ok_iff.1 h
        obtain ⟨others, hothers, h⟩ := bind_eq_ok_iff.1 h
        obtain rfl := pure_eq_ok_iff.1 h
        obtain ⟨rfl, hnodup, hunseen⟩ := ih hothers
        -- the values behind this one are resolved as if it had been seen
        have hfresh : m.value.value ∉ rest.map (·.value.value) := by
          intro hmem
          obtain ⟨other, hother, hsame⟩ := List.mem_map.1 hmem
          exact hunseen other hother (hsame ▸ List.mem_cons_self)
        refine ⟨rfl, List.nodup_cons.2 ⟨hfresh, hnodup⟩, List.forall_mem_cons.2 ⟨hnew, ?_⟩⟩
        intro other hother hmem
        exact hunseen other hother (List.mem_cons_of_mem _ hmem)

theorem values_of_resolve (h : resolve model source = .ok mapping) :
    mapping.values = source.values.map (fun m => (m.value.value, m.sources)) ∧
      (mapping.values.map Prod.fst).Nodup := by
  unfold resolve at h
  dsimp only at h
  split at h
  · exact absurd h (found_ne_ok _ _ _)
  · obtain ⟨values, hvalues, h⟩ := bind_eq_ok_iff.1 h
    obtain rfl := pure_eq_ok_iff.1 h
    obtain ⟨rfl, hnodup, -⟩ := values_of_resolveValues hvalues
    refine ⟨rfl, ?_⟩
    rw [List.map_map]
    exact hnodup

/-! ## What is decoded -/

/-- The enumeration value lists the column value, and none in front of it does. -/
def ListsFirst (values : List (String × List Source.EnumSource)) (value : String)
    (column : Source.EnumSource) : Prop :=
  ∃ front columns back, values = front ++ (value, columns) :: back ∧ column ∈ columns ∧
    ∀ entry ∈ front, column ∉ entry.2

/-- A column value is decoded to the first enumeration value that lists it. -/
theorem valueOf?_eq_some_iff {column : Source.EnumSource} {value : String} :
    mapping.valueOf? column = some value ↔ ListsFirst mapping.values value column := by
  unfold valueOf? ListsFirst
  rw [Option.map_eq_some_iff]
  constructor
  · rintro ⟨⟨value, columns⟩, hfound, rfl⟩
    obtain ⟨hlisted, front, back, hvalues, hfront⟩ := List.find?_eq_some_iff_append.1 hfound
    exact ⟨front, columns, back, hvalues, by simpa using hlisted, by simpa using hfront⟩
  · rintro ⟨front, columns, back, hvalues, hlisted, hfront⟩
    refine ⟨(value, columns), List.find?_eq_some_iff_append.2 ?_, rfl⟩
    exact ⟨by simpa using hlisted, front, back, hvalues, by simpa using hfront⟩

/-- A column value that is listed is decoded. -/
theorem exists_valueOf? {entry : String × List Source.EnumSource} (hentry : entry ∈ mapping.values)
    {column : Source.EnumSource} (hcolumn : column ∈ entry.2) :
    ∃ value, mapping.valueOf? column = some value := by
  have hfound : (mapping.values.find? fun v => column ∈ v.2).isSome :=
    List.find?_isSome.2 ⟨entry, hentry, by simpa using hcolumn⟩
  obtain ⟨found, hfound⟩ := Option.isSome_iff_exists.1 hfound
  exact ⟨found.1, by rw [valueOf?, hfound]; rfl⟩

/-- Enumeration values that list no common column value are what their column values are decoded to. -/
theorem valueOf?_of_disjoint (hdisjoint : mapping.values.Pairwise fun a b => a.2.Disjoint b.2)
    {entry : String × List Source.EnumSource} (hentry : entry ∈ mapping.values)
    {column : Source.EnumSource} (hcolumn : column ∈ entry.2) :
    mapping.valueOf? column = some entry.1 := by
  obtain ⟨front, back, hvalues⟩ := List.append_of_mem hentry
  rw [hvalues] at hdisjoint
  refine valueOf?_eq_some_iff.2 ⟨front, entry.2, back, hvalues, hcolumn, ?_⟩
  intro earlier hearlier hlisted
  exact (List.pairwise_append.1 hdisjoint).2.2 _ hearlier _ List.mem_cons_self hlisted hcolumn

/-- When all column values are decoded to the enumeration values that list them, no two of different names list
a common one. -/
theorem disjoint_of_valueOf? (hnodup : (mapping.values.map Prod.fst).Nodup)
    (hdecodes : ∀ entry ∈ mapping.values, ∀ column ∈ entry.2,
      mapping.valueOf? column = some entry.1) :
    mapping.values.Pairwise fun a b => a.2.Disjoint b.2 := by
  have hnames : mapping.values.Pairwise fun a b => a.1 ≠ b.1 :=
    List.pairwise_map.1 (List.nodup_iff_pairwise_ne.1 hnodup)
  refine hnames.imp_of_mem ?_
  intro a b ha hb hne column hina hinb
  have hsame := (hdecodes a ha column hina).symm.trans (hdecodes b hb column hinb)
  exact hne (Option.some.inj hsame)

/-- Of an enumeration mapping that is accepted, every column value that is listed is decoded to the first
enumeration value that lists it. Each of them is decoded to the enumeration value that it is listed for if and only
if the mapping is written so that no two enumeration values list the same column value. -/
theorem listed_values_decoded (model : ObjectModel) (source : Source.EnumerationMapping)
    (mapping : EnumerationMapping) (h : resolve model source = .ok mapping) :
    (∀ entry ∈ mapping.values, ∀ column ∈ entry.2,
      ∃ value, mapping.valueOf? column = some value ∧ ListsFirst mapping.values value column) ∧
    ((∀ entry ∈ mapping.values, ∀ column ∈ entry.2, mapping.valueOf? column = some entry.1) ↔
      source.values.Pairwise fun a b => a.sources.Disjoint b.sources) := by
  obtain ⟨hvalues, hnodup⟩ := values_of_resolve h
  have hwritten : (source.values.Pairwise fun a b => a.sources.Disjoint b.sources) ↔
      mapping.values.Pairwise fun a b => a.2.Disjoint b.2 := by
    rw [hvalues, List.pairwise_map]
  refine ⟨?_, ?_⟩
  · intro entry hentry column hcolumn
    obtain ⟨value, hvalue⟩ := exists_valueOf? hentry hcolumn
    exact ⟨value, hvalue, valueOf?_eq_some_iff.1 hvalue⟩
  · rw [hwritten]
    exact ⟨disjoint_of_valueOf? hnodup, fun hdisjoint _ hentry _ hcolumn =>
      valueOf?_of_disjoint hdisjoint hentry hcolumn⟩

/-! ## Genders -/

/-- A model with the enumeration of genders. -/
def genderModel : ObjectModel :=
  ObjectModel.ofDefinition { enumerations := [⟨"m::Gender", ["MALE", "FEMALE"]⟩] }

/-- A mapping of genders, given what stands for each of them. -/
def genderMapping (male female : List Source.EnumSource) : Source.EnumerationMapping where
  enumeration := ⟨"m::Gender", {}⟩
  values := [⟨⟨"MALE", {}⟩, male⟩, ⟨⟨"FEMALE", {}⟩, female⟩]

theorem listed_values_decoded_of_genders :
    ∃ mapping,
      resolve genderModel (genderMapping [.string "M", .string "m"] [.string "F"]) = .ok mapping ∧
      mapping.values = [("MALE", [.string "M", .string "m"]), ("FEMALE", [.string "F"])] ∧
      ∀ entry ∈ mapping.values, ∀ column ∈ entry.2, mapping.valueOf? column = some entry.1 := by
  have hresolve : ∃ mapping,
      resolve genderModel (genderMapping [.string "M", .string "m"] [.string "F"]) = .ok mapping ∧
      mapping.values = [("MALE", [.string "M", .string "m"]), ("FEMALE", [.string "F"])] := by
    with_unfolding_all exact ⟨_, rfl, rfl⟩
  obtain ⟨mapping, hmapping, hvalues⟩ := hresolve
  refine ⟨mapping, hmapping, hvalues, ?_⟩
  exact (listed_values_decoded _ _ mapping hmapping).2.2 (by simp [genderMapping])

/-- A column value that is listed for two enumeration values is decoded to one of them. -/
theorem not_all_listed_decoded :
    ¬ ∀ (model : ObjectModel) (source : Source.EnumerationMapping) (mapping : EnumerationMapping),
      resolve model source = .ok mapping → ∀ entry ∈ mapping.values, ∀ column ∈ entry.2,
        mapping.valueOf? column = some entry.1 := by
  intro h
  have hresolve : ∃ mapping,
      resolve genderModel (genderMapping [.string "M"] [.string "F", .string "M"]) = .ok mapping ∧
      ("FEMALE", [.string "F", .string "M"]) ∈ mapping.values ∧
      mapping.valueOf? (.string "M") = some "MALE" := by
    with_unfolding_all exact ⟨_, rfl, .tail _ (.head _), rfl⟩
  obtain ⟨mapping, hmapping, hentry, hdecoded⟩ := hresolve
  have hlisted := h _ _ mapping hmapping _ hentry (.string "M") (by simp)
  rw [hdecoded] at hlisted
  exact absurd hlisted (by decide)

end ObjectRelational.EnumerationMapping
