import ObjectRelational.Proofs.Mapping.Binding

/-!
# Root mappings

Of the mappings of a class that a unit shows, one is the root: the only one, or the only one that is
marked. Every mapping also carries a flag, which says whether it is the root in the unit that declares
it. The two agree on the root. They can differ on an included mapping that is not marked: in its own
unit it is the only one of its class, and a unit that includes it marks another one.

* `MappingUnit.Elected`: the only mapping of a class, or the only marked one.
* `MappingUnit.Accepted.exists_elected`, `MappingUnit.Accepted.root_eq_true_iff`: the root that a unit
  knows is elected among all mappings that the unit shows, and so are those that carry the flag in
  their own unit.
* `root_elected`: the root carries the flag, and when another mapping does, it is one of those.
* `not_all_roots_single`: another one can.
-/

namespace ObjectRelational

/-! ## Elections -/

namespace Roots

/-- Of mappings that are candidates, the one that is elected is the only one or the only marked one. -/
theorem exists_of_elect?_map {l : List (Effective ClassMapping)} {c : Candidate}
    (h : elect? (l.map ofIncluded) = some c) :
    ∃ e, ofIncluded e = c ∧ (l = [e] ∨ l.filter (·.declared.declaredRoot) = [e]) := by
  have hmarked : (l.map ofIncluded).filter (·.marked) =
      (l.filter (·.declared.declaredRoot)).map ofIncluded := List.filter_map
  unfold elect? at h
  split at h
  · rename_i only honly
    obtain ⟨e, hl, he⟩ := List.map_eq_singleton_iff.1 honly
    exact ⟨e, he.trans (Option.some.inj h), .inl hl⟩
  · split at h
    · rename_i marked hone
      rw [hmarked] at hone
      obtain ⟨e, hl, he⟩ := List.map_eq_singleton_iff.1 hone
      exact ⟨e, he.trans (Option.some.inj h), .inr hl⟩
    · cases h

/-- When roots are added for classes, one is elected for each of them, and the others stay. -/
theorem find?_of_addRoots {span : Span} {own : List Source.ClassMapping} {all : List Candidate}
    {classes : List String} {roots roots' : OrderedMap String String}
    (h : classes.foldlM (addRoot span own all) roots = .ok roots') (className : String) :
    (className ∈ classes → ∃ root, elect? (ofClass all className) = some root ∧
        roots'.find? className = some root.id) ∧
      (className ∉ classes → roots'.find? className = roots.find? className) := by
  induction classes generalizing roots with
  | nil =>
    obtain rfl := pure_eq_ok_iff.1 h
    simp
  | cons first rest ih =>
    rw [List.foldlM_cons] at h
    obtain ⟨next, hnext, hrest⟩ := bind_eq_ok_iff.1 h
    obtain ⟨hmem, hother⟩ := ih hrest
    unfold addRoot at hnext
    split at hnext
    · rename_i root helected
      obtain rfl := Except.ok.inj hnext
      refine ⟨fun hclass => ?_, fun hclass => ?_⟩
      · by_cases hlater : className ∈ rest
        · exact hmem hlater
        · obtain rfl := (List.mem_cons.1 hclass).resolve_right hlater
          exact ⟨root, helected, by simp [hother hlater]⟩
      · obtain ⟨hne, hlater⟩ := not_or.1 (List.mem_cons.not.1 hclass)
        simp [hother hlater, hne]
    · exact absurd hnext (found_ne_ok _ _ _)

/-- A root is elected for every class that has candidates. -/
theorem elected_of_resolve {span : Span} {own : List Source.ClassMapping}
    {included : List IncludedUnit} {roots : OrderedMap String String}
    (h : Roots.resolve span own included = .ok roots) {c : Candidate}
    (hc : c ∈ candidates own included) :
    ∃ root, elect? (ofClass (candidates own included) c.className) = some root ∧
      roots.find? c.className = some root.id :=
  (find?_of_addRoots h c.className).1 (by simpa using ⟨c, hc, rfl⟩)

end Roots

namespace MappingUnit

variable {u : MappingUnit} {className : String} {root root' : Effective ClassMapping}

/-- The mappings of a class that a unit shows. -/
def mappingsOf (u : MappingUnit) (className : String) : List (Effective ClassMapping) :=
  u.effectiveClassMappings.filter fun e => e.declared.className = className

/-- The mapping is the only one of the class that a unit shows, or the only one that is marked. -/
def Elected (u : MappingUnit) (className : String) (root : Effective ClassMapping) : Prop :=
  u.mappingsOf className = [root] ∨
    (u.mappingsOf className).filter (·.declared.declaredRoot) = [root]

theorem mem_mappingsOf_iff {e : Effective ClassMapping} :
    e ∈ u.mappingsOf className ↔ e ∈ u.effectiveClassMappings ∧ e.declared.className = className := by
  simp [mappingsOf]

theorem Elected.mem (h : u.Elected className root) : root ∈ u.mappingsOf className := by
  rcases h with h | h
  · rw [h]
    exact List.mem_cons_self
  · exact List.mem_of_mem_filter (h ▸ List.mem_cons_self)

/-- A marked mapping of the class is the one that is elected. -/
theorem Elected.eq_of_marked (h : u.Elected className root) {e : Effective ClassMapping}
    (he : e ∈ u.mappingsOf className) (hmarked : e.declared.declaredRoot = true) : e = root := by
  rcases h with h | h
  · exact List.mem_singleton.1 (h ▸ he)
  · exact List.mem_singleton.1 (h ▸ List.mem_filter.2 ⟨he, hmarked⟩)

/-- One mapping is elected at most. -/
theorem Elected.unique (h : u.Elected className root) (h' : u.Elected className root') :
    root' = root := by
  have hmem := h'.mem
  rcases h' with h' | h'
  · exact (List.mem_singleton.1 (h' ▸ h.mem)).symm
  · have hmarked := (List.mem_filter.1 (h' ▸ List.mem_cons_self)).2
    exact h.eq_of_marked hmem hmarked

/-! ## Roots of a unit -/

variable {e : Environment} {compiled : String → Option MappingUnit} {source : Source.Mapping}
  {s : Scope}

/-- The candidates among which roots are elected are the mappings that the unit shows. -/
theorem ResolvedFrom.candidates_eq (h : u.ResolvedFrom e compiled source s) :
    Roots.candidates source.classMappings u.flattened =
      u.effectiveClassMappings.map Roots.ofIncluded := by
  have hown : source.classMappings.map Roots.ofSource =
      (u.classMappings.map u.seenLocally).map Roots.ofIncluded := by
    rw [List.map_map]
    refine map_eq_map_of_forall₂ h.classMappings fun written m hclass => ?_
    simp [Roots.ofSource, Roots.ofIncluded, seenLocally, hclass.id, hclass.className,
      hclass.declaredRoot]
  rw [Roots.candidates, hown, effectiveClassMappings, List.map_append]

theorem ResolvedFrom.exists_elected (h : u.ResolvedFrom e compiled source s)
    {c : Effective ClassMapping} (hc : c ∈ u.mappingsOf className) :
    ∃ root, u.Elected className root ∧ u.roots.find? className = some root.declared.id := by
  obtain ⟨hmem, rfl⟩ := mem_mappingsOf_iff.1 hc
  have hcandidate : Roots.ofIncluded c ∈ Roots.candidates source.classMappings u.flattened := by
    rw [h.candidates_eq]
    exact List.mem_map_of_mem hmem
  obtain ⟨candidate, helected, hroot⟩ := Roots.elected_of_resolve h.roots hcandidate
  have hclass : Roots.ofClass (u.effectiveClassMappings.map Roots.ofIncluded) c.declared.className =
      (u.mappingsOf c.declared.className).map Roots.ofIncluded := List.filter_map
  rw [h.candidates_eq, Roots.ofIncluded, hclass] at helected
  obtain ⟨root, rfl, hsingle⟩ := Roots.exists_of_elect?_map helected
  exact ⟨root, hsingle, hroot⟩

/-- A unit knows a root for every class that it shows mappings of, which is elected among these. -/
theorem Accepted.exists_elected (hu : u.Accepted) {c : Effective ClassMapping}
    (hc : c ∈ u.mappingsOf className) :
    ∃ root, u.Elected className root ∧ u.rootClassMapping? className = some root := by
  have hids := hu.distinctIds
  cases hu with
  | resolved _ h =>
    obtain ⟨s, hresolved⟩ := resolvedFrom_of_resolve h
    obtain ⟨root, helected, hroot⟩ := hresolved.exists_elected hc
    refine ⟨root, helected, ?_⟩
    rw [rootClassMapping?, hroot, Option.bind_some]
    exact (classMapping?_eq_some_iff hids).2 ⟨(mem_mappingsOf_iff.1 helected.mem).1, rfl⟩

/-- Mappings that a unit shows are equal when their ids are. -/
theorem DistinctIds.eq_of_id (hids : u.DistinctIds) {c c' : Effective ClassMapping}
    (hc : c ∈ u.effectiveClassMappings) (hc' : c' ∈ u.effectiveClassMappings)
    (h : c.declared.id = c'.declared.id) : c = c' := by
  have hfound := (classMapping?_eq_some_iff hids).2 ⟨hc, h⟩
  rw [(classMapping?_eq_some_iff hids).2 ⟨hc', rfl⟩] at hfound
  exact (Option.some.inj hfound).symm

/-- The flag of a mapping says whether it is elected in its own unit. -/
theorem Accepted.root_eq_true_iff (hu : u.Accepted) {m : ClassMapping} (hm : m ∈ u.classMappings) :
    m.root = true ↔ u.Elected m.className (u.seenLocally m) := by
  have hids := hu.distinctIds
  cases hu with
  | resolved _ h =>
    obtain ⟨s, hresolved⟩ := resolvedFrom_of_resolve h
    obtain ⟨written, -, hclass⟩ := exists_of_mem_right hresolved.classMappings hm
    have hseen : u.seenLocally m ∈ u.effectiveClassMappings :=
      mem_effectiveClassMappings_iff.2 (.inl ⟨m, hm, rfl⟩)
    have hmem : u.seenLocally m ∈ u.mappingsOf m.className := mem_mappingsOf_iff.2 ⟨hseen, rfl⟩
    obtain ⟨root, helected, hroot⟩ := hresolved.exists_elected hmem
    have hroots : s.roots = u.roots := by rw [hresolved.scope]
    have hflag : m.root = true ↔ root.declared.id = m.id := by
      rw [hclass.root, Scope.header, hroots, ← hclass.className, hroot, ← hclass.id]
      simp
    rw [hflag]
    constructor
    · intro hid
      rwa [← hids.eq_of_id (mem_mappingsOf_iff.1 helected.mem).1 hseen hid]
    · intro h
      rw [h.unique helected]
      rfl

/-! ## Roots through includes -/

variable {i : IncludedUnit} {m : ClassMapping}

/-- The root of a unit is elected in the unit that declares it, too. -/
theorem Elected.of_seen (h : u.Elected m.className (i.seen m)) (hu : u.Accepted)
    (hsame : Include.SameByName u.includes) (hi : i ∈ u.flattened) (hm : m ∈ i.unit.classMappings) :
    i.unit.Elected m.className (i.unit.seenLocally m) := by
  have hiu := hu.of_mem_flattened i hi
  have hseen : i.unit.seenLocally m ∈ i.unit.effectiveClassMappings :=
    mem_effectiveClassMappings_iff.2 (.inl ⟨m, hm, rfl⟩)
  have hmem : i.unit.seenLocally m ∈ i.unit.mappingsOf m.className :=
    mem_mappingsOf_iff.2 ⟨hseen, rfl⟩
  obtain ⟨inner, hinner, -⟩ := hiu.exists_elected hmem
  have hsingle : i.unit.seenLocally m = inner := by
    rcases h with h | h
    · -- the including unit shows what the included one elects, and it shows one mapping only
      obtain ⟨hinnerMem, hinnerClass⟩ := mem_mappingsOf_iff.1 hinner.mem
      have hthrough : inner.through i.substitution ∈ u.mappingsOf m.className :=
        mem_mappingsOf_iff.2
          ⟨(hu.lists hsame hi).mem_effectiveClassMappings hinnerMem, hinnerClass⟩
      rw [h, List.mem_singleton] at hthrough
      have hdeclared : inner.declared = m := congrArg Effective.declared hthrough
      exact hiu.distinctIds.eq_of_id hseen hinnerMem (congrArg ClassMapping.id hdeclared.symm)
    · have hmarked := (List.mem_filter.1 (h ▸ List.mem_cons_self)).2
      exact hinner.eq_of_marked hmem hmarked
  rwa [hsingle]

/-- A mapping that is elected in its own unit and not in a unit that includes it is the only one of its
class there, and not marked. -/
theorem Elected.eq_singleton_of_ne (h : i.unit.Elected m.className (i.unit.seenLocally m))
    (hi : i ∈ u.flattened) (hm : m ∈ i.unit.classMappings) (hroot : u.Elected m.className root)
    (hne : i.seen m ≠ root) :
    m.declaredRoot = false ∧ i.unit.mappingsOf m.className = [i.unit.seenLocally m] := by
  have hmem : i.seen m ∈ u.mappingsOf m.className :=
    mem_mappingsOf_iff.2 ⟨mem_effectiveClassMappings_iff.2 (.inr ⟨i, hi, m, hm, rfl⟩), rfl⟩
  have hunmarked : ¬ m.declaredRoot = true := fun hmarked => hne (hroot.eq_of_marked hmem hmarked)
  refine ⟨Bool.not_eq_true _ ▸ hunmarked, h.resolve_right fun h => hunmarked ?_⟩
  exact (List.mem_filter.1 (h ▸ List.mem_cons_self : i.unit.seenLocally m ∈ _)).2

end MappingUnit

/-- For every class that an accepted unit shows mappings of, it knows a root, which is elected among
these mappings and carries the flag of a root. Another mapping of the class that carries the flag is
an included one; it is not marked, and it is the only one of the class that its own unit shows. -/
theorem root_elected {unit : MappingUnit} (hunit : unit.Accepted)
    (hsame : Include.SameByName unit.includes) (className : String)
    (hmapped : unit.mappingsOf className ≠ []) :
    ∃ root, unit.rootClassMapping? className = some root ∧ unit.Elected className root ∧
      root.declared.root = true ∧
      ∀ e ∈ unit.mappingsOf className, e.declared.root = true → e ≠ root →
        e.declared.declaredRoot = false ∧ ∃ i ∈ unit.flattened, ∃ m ∈ i.unit.classMappings,
          i.seen m = e ∧ i.unit.mappingsOf className = [i.unit.seenLocally m] := by
  obtain ⟨c, hc⟩ := List.exists_mem_of_ne_nil _ hmapped
  obtain ⟨root, helected, hroot⟩ := hunit.exists_elected hc
  refine ⟨root, hroot, helected, ?_, fun e he hflag hne => ?_⟩
  · obtain ⟨hmem, rfl⟩ := MappingUnit.mem_mappingsOf_iff.1 helected.mem
    rcases MappingUnit.mem_effectiveClassMappings_iff.1 hmem with ⟨m, hm, rfl⟩ | ⟨i, hi, m, hm, rfl⟩
    · exact (hunit.root_eq_true_iff hm).2 helected
    · exact ((hunit.of_mem_flattened i hi).root_eq_true_iff hm).2
        (helected.of_seen hunit hsame hi hm)
  · obtain ⟨hmem, rfl⟩ := MappingUnit.mem_mappingsOf_iff.1 he
    rcases MappingUnit.mem_effectiveClassMappings_iff.1 hmem with ⟨m, hm, rfl⟩ | ⟨i, hi, m, hm, rfl⟩
    · -- a mapping of the unit itself carries the flag only if it is the root
      exact absurd (helected.unique ((hunit.root_eq_true_iff hm).1 hflag)) hne
    · have hinner := ((hunit.of_mem_flattened i hi).root_eq_true_iff hm).1 hflag
      obtain ⟨hunmarked, hsingle⟩ := hinner.eq_singleton_of_ne hi hm helected hne
      exact ⟨hunmarked, i, hi, m, hm, rfl, hsingle⟩

/-! ## Two mappings of firms -/

/-- Firms are mapped once more, by a mapping that is marked, where their mapping is included. -/
def markedFirmsSource : Source.Mapping where
  name := ⟨"outer", {}⟩
  includes := [{ mapping := ⟨"firms", {}⟩ }]
  classMappings := [{ mappingOnto "Firm" "FIRM" [] with id := some ⟨"marked", {}⟩, root := true }]

/-- The marked mapping is the root, and the included one still carries the flag. -/
theorem root_elected_of_marked :
    ∃ unit : MappingUnit, unit.Accepted ∧ Include.SameByName unit.includes ∧
      ((unit.mappingsOf "Firm").map fun e => (e.declared.id, e.declared.root)) =
        [("marked", true), ("Firm", true)] ∧
      ∃ root, unit.rootClassMapping? "Firm" = some root ∧ unit.Elected "Firm" root ∧
        root.declared.root = true ∧
        ∀ e ∈ unit.mappingsOf "Firm", e.declared.root = true → e ≠ root →
          e.declared.declaredRoot = false ∧ ∃ i ∈ unit.flattened, ∃ m ∈ i.unit.classMappings,
            i.seen m = e ∧ i.unit.mappingsOf "Firm" = [i.unit.seenLocally m] := by
  have hresolves : ∃ unit, MappingUnit.resolve employmentEnvironment (compiledOnly firmsSource)
      markedFirmsSource = .ok unit ∧
      ((unit.mappingsOf "Firm").map fun e => (e.declared.id, e.declared.root)) =
        [("marked", true), ("Firm", true)] := by
    with_unfolding_all exact ⟨_, rfl, rfl⟩
  obtain ⟨unit, hunit, hroots⟩ := hresolves
  obtain ⟨haccepted, hsame⟩ := accepted_of_compiledOnly hunit
  have hmapped : unit.mappingsOf "Firm" ≠ [] := fun hnil => by simp [hnil] at hroots
  exact ⟨unit, haccepted, hsame, hroots, root_elected haccepted hsame "Firm" hmapped⟩

/-- So a class can have two mappings in a unit that carry the flag. -/
theorem not_all_roots_single :
    ¬ ∀ unit : MappingUnit, unit.Accepted → Include.SameByName unit.includes →
      ∀ className, unit.mappingsOf className ≠ [] →
        ∃ root, unit.rootClassMapping? className = some root ∧
          (unit.mappingsOf className).filter (·.declared.root) = [root] := by
  intro h
  have hresolves : ∃ unit, MappingUnit.resolve employmentEnvironment (compiledOnly firmsSource)
      markedFirmsSource = .ok unit ∧
      ((unit.mappingsOf "Firm").filter (·.declared.root)).map (·.declared.id) =
        ["marked", "Firm"] := by
    with_unfolding_all exact ⟨_, rfl, rfl⟩
  obtain ⟨unit, hunit, hroots⟩ := hresolves
  obtain ⟨haccepted, hsame⟩ := accepted_of_compiledOnly hunit
  have hmapped : unit.mappingsOf "Firm" ≠ [] := fun hnil => by simp [hnil] at hroots
  obtain ⟨root, -, hsingle⟩ := h unit haccepted hsame "Firm" hmapped
  simp [hsingle] at hroots

end ObjectRelational
