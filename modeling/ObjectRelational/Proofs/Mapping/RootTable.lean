import ObjectRelational.Proofs.ByteOrder
import ObjectRelational.Proofs.Mapping.Roots

/-!
# The table of roots

A unit keeps the ids of the roots in a table by class. The table has exactly the classes that the unit
shows mappings of, and it is not made at all when a class has several mappings of which not exactly one
is marked: then the first such class is reported.

* `Roots.Miscounted`: a class for which no root can be elected.
* `Roots.resolve_error_iff`, `Roots.least_of_resolve_error`: the table is not made if there is such a
  class, and the least one is reported.
* `MappingUnit.HasExactRoots`: what the table says. `MappingUnit.Accepted.hasExactRoots`: in an accepted
  unit it does.
-/

namespace ObjectRelational

/-! ## Elections that fail -/

namespace Roots

variable {span : Span} {own : List Source.ClassMapping} {included : List IncludedUnit}
  {all : List Candidate} {classes : List String} {roots : OrderedMap String String}
  {className : String} {failure : Failure}

/-- A class has several candidates, and not exactly one of them is marked. -/
def Miscounted (all : List Candidate) (className : String) : Prop :=
  2 ≤ (ofClass all className).length ∧ ((ofClass all className).filter (·.marked)).length ≠ 1

theorem elect?_eq_none_iff {l : List Candidate} :
    elect? l = none ↔ l = [] ∨ 2 ≤ l.length ∧ (l.filter (·.marked)).length ≠ 1 := by
  unfold elect?
  split
  · simp
  · rename_i hseveral
    have hlength : l = [] ∨ 2 ≤ l.length := by
      match l, hseveral with
      | [], _ => exact .inl rfl
      | [only], hseveral => exact absurd rfl (hseveral only)
      | _ :: _ :: _, _ => simp
    split
    · rename_i marked hone
      have hne : l ≠ [] := fun hnil => by simp [hnil] at hone
      simp [hone, hne]
    · rename_i hnone
      have hcount : (l.filter (·.marked)).length ≠ 1 := fun hone => by
        obtain ⟨marked, hmarked⟩ := List.length_eq_one_iff.1 hone
        exact hnone marked hmarked
      simp only [hcount, ne_eq, not_false_eq_true, and_true, true_iff]
      exact hlength

theorem ofClass_eq_nil_iff : ofClass all className = [] ↔ ∀ c ∈ all, c.className ≠ className := by
  simp [ofClass]

/-- No root can be elected for a class of candidates if the class is miscounted. -/
theorem elect?_ofClass_eq_none_iff (h : className ∈ all.map (·.className)) :
    elect? (ofClass all className) = none ↔ Miscounted all className := by
  obtain ⟨c, hc, hclass⟩ := List.mem_map.1 h
  have hne : ofClass all className ≠ [] := fun hnil => ofClass_eq_nil_iff.1 hnil c hc hclass
  simp [elect?_eq_none_iff, hne, Miscounted]

theorem Miscounted.mem (h : Miscounted all className) : className ∈ all.map (·.className) := by
  obtain ⟨c, hc⟩ := List.exists_mem_of_length_pos (Nat.lt_of_lt_of_le Nat.zero_lt_two h.1)
  obtain ⟨hmem, hclass⟩ := List.mem_filter.1 hc
  exact List.mem_map.2 ⟨c, hmem, by simpa using hclass⟩

/-- Of ascending classes the least one without an elected root is reported. -/
theorem least_of_addRoots_error (hascending : classes.Pairwise (· < ·))
    (h : classes.foldlM (addRoot span own all) roots = .error failure) :
    ∃ className ∈ classes, elect? (ofClass all className) = none ∧
      (∀ other ∈ classes, elect? (ofClass all other) = none → className ≤ other) ∧
      failure = ⟨wrongCount className (ofClass all className), Roots.span span own className⟩ := by
  induction classes generalizing roots with
  | nil => cases h
  | cons first rest ih =>
    obtain ⟨hfirst, hrest⟩ := List.pairwise_cons.1 hascending
    rw [List.foldlM_cons, addRoot] at h
    cases helected : elect? (ofClass all first) with
    | none =>
      rw [helected] at h
      refine ⟨first, List.mem_cons_self, helected, fun other hother _ => ?_, (Except.error.inj h).symm⟩
      rcases List.mem_cons.1 hother with rfl | hother
      · exact String.le_refl _
      · exact String.not_lt.1 (String.lt_asymm (hfirst other hother))
    | some root =>
      rw [helected] at h
      obtain ⟨className, hmem, hnone, hleast, hfailure⟩ := ih hrest h
      refine ⟨className, List.mem_cons_of_mem _ hmem, hnone, fun other hother hother' => ?_, hfailure⟩
      rcases List.mem_cons.1 hother with rfl | hother
      · simp [helected] at hother'
      · exact hleast other hother hother'

/-- The least class that is miscounted is reported, with its counts. -/
theorem least_of_resolve_error (h : Roots.resolve span own included = .error failure) :
    ∃ className, Miscounted (candidates own included) className ∧
      (∀ other, Miscounted (candidates own included) other → className ≤ other) ∧
      failure = ⟨wrongCount className (ofClass (candidates own included) className),
        Roots.span span own className⟩ := by
  obtain ⟨className, hmem, hnone, hleast, hfailure⟩ :=
    least_of_addRoots_error (OrderedMap.keys_ascending _) h
  have hclass := OrderedSet.mem_toList_ofList.1 hmem
  refine ⟨className, (elect?_ofClass_eq_none_iff hclass).1 hnone, fun other hother => ?_, hfailure⟩
  exact hleast other (OrderedSet.mem_toList_ofList.2 hother.mem)
    ((elect?_ofClass_eq_none_iff hother.mem).2 hother)

/-- The table is not made if a class is miscounted. -/
theorem resolve_error_iff : (∃ failure, Roots.resolve span own included = .error failure) ↔
    ∃ className, Miscounted (candidates own included) className := by
  constructor
  · rintro ⟨failure, h⟩
    obtain ⟨className, hcounted, -⟩ := least_of_resolve_error h
    exact ⟨className, hcounted⟩
  · rintro ⟨className, hcounted⟩
    cases h : Roots.resolve span own included with
    | error failure => exact ⟨failure, rfl⟩
    | ok roots =>
      obtain ⟨root, helected, -⟩ :=
        (find?_of_addRoots h className).1 (OrderedSet.mem_toList_ofList.2 hcounted.mem)
      rw [(elect?_ofClass_eq_none_iff hcounted.mem).2 hcounted] at helected
      cases helected

/-- The table has the classes that there are candidates of. -/
theorem mem_keys_of_resolve (h : Roots.resolve span own included = .ok roots) :
    className ∈ roots.keys ↔ ∃ c ∈ candidates own included, c.className = className := by
  obtain ⟨hmem, hother⟩ := find?_of_addRoots h className
  rw [OrderedSet.mem_toList_ofList] at hmem hother
  rw [OrderedMap.mem_keys_iff, ← List.mem_map]
  constructor
  · rintro ⟨id, hid⟩
    by_contra hnot
    rw [hother hnot] at hid
    cases hid
  · intro hclass
    obtain ⟨root, -, hroot⟩ := hmem hclass
    exact ⟨root.id, hroot⟩

end Roots

/-! ## The table of a unit -/

namespace MappingUnit

variable {u : MappingUnit}

/-- The table of a unit tells the roots of the classes that the unit shows mappings of, and of no
others, and the flags of the unit's own mappings agree with it. -/
structure HasExactRoots (u : MappingUnit) : Prop where
  classes : ∀ className,
    className ∈ u.roots.keys ↔ ∃ m ∈ u.effectiveClassMappings, m.declared.className = className
  elected : ∀ className id, u.roots.find? className = some id →
    ∃ root, u.Elected className root ∧ root.declared.id = id ∧
      u.rootClassMapping? className = some root
  flag : ∀ m ∈ u.classMappings, m.root = true ↔ u.roots.find? m.className = some m.id

theorem Accepted.hasExactRoots (hu : u.Accepted) : u.HasExactRoots := by
  have hids := hu.distinctIds
  cases hu with
  | resolved _ h =>
    obtain ⟨s, hresolved⟩ := resolvedFrom_of_resolve h
    have hclasses : ∀ className, className ∈ u.roots.keys ↔
        ∃ m ∈ u.effectiveClassMappings, m.declared.className = className := fun className => by
      rw [Roots.mem_keys_of_resolve hresolved.roots, hresolved.candidates_eq]
      simp [Roots.ofIncluded]
    refine ⟨hclasses, fun className id hid => ?_, fun m hm => ?_⟩
    · obtain ⟨m, hm, hclass⟩ := (hclasses className).1 (OrderedMap.mem_keys_iff.2 ⟨id, hid⟩)
      obtain ⟨root, helected, hroot⟩ := hresolved.exists_elected (mem_mappingsOf_iff.2 ⟨hm, hclass⟩)
      have hsame : root.declared.id = id := Option.some.inj (hroot.symm.trans hid)
      refine ⟨root, helected, hsame, ?_⟩
      rw [rootClassMapping?, hid, Option.bind_some]
      exact (classMapping?_eq_some_iff hids).2 ⟨(mem_mappingsOf_iff.1 helected.mem).1, hsame⟩
    · obtain ⟨written, -, hclass⟩ := exists_of_mem_right hresolved.classMappings hm
      have hroots : s.roots = u.roots := by rw [hresolved.scope]
      rw [hclass.root, Scope.header, hroots, ← hclass.className, ← hclass.id]
      simp

end MappingUnit

end ObjectRelational
