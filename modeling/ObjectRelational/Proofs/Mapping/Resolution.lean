import ObjectRelational.Mapping.Resolution
import ObjectRelational.Proofs.Lookup
import ObjectRelational.Proofs.Mapping.IncludeGraph
import ObjectRelational.Proofs.Recorded

/-!
# What the resolution of a unit reads

Of the units that are compiled already, a unit reads those that it includes and no others.

* `resolve_congr`: states that agree on the includes of a unit give the same resolution.
* `exists_of_resolve_eq_ok`: a unit that is resolved has all its includes compiled.
-/

namespace ObjectRelational.MappingUnit

/-- Functions that agree on a list go through it in the same way. -/
theorem mapM_congr {α β ε : Type} {f g : α → Except ε β} {l : List α}
    (h : ∀ a ∈ l, f a = g a) : l.mapM f = l.mapM g := by
  induction l with
  | nil => rfl
  | cons a rest ih =>
    rw [List.mapM_cons, List.mapM_cons, h a List.mem_cons_self,
      ih fun b hb => h b (List.mem_cons_of_mem _ hb)]

variable {e : Environment} {compiled compiled' : String → Option MappingUnit}
  {source : Source.Mapping}

/-- States that agree on the includes of a unit give the same resolution. -/
theorem resolve_congr (h : ∀ name ∈ source.targets, compiled name = compiled' name) :
    resolve e compiled source = resolve e compiled' source := by
  unfold resolve
  have hincludes : source.includes.mapM (resolveInclude e compiled source.name.value) =
      source.includes.mapM (resolveInclude e compiled' source.name.value) := by
    apply mapM_congr
    intro i hi
    unfold resolveInclude
    rw [h i.mapping.value (List.mem_map.2 ⟨i, hi, rfl⟩)]
  simp only [hincludes]

/-- A unit that is resolved has all its includes compiled. -/
theorem exists_of_resolve_eq_ok {unit : MappingUnit} (h : resolve e compiled source = .ok unit) :
    ∀ name ∈ source.targets, ∃ included, compiled name = some included := by
  intro name hname
  rcases List.mem_map.1 hname with ⟨i, hi, rfl⟩
  obtain ⟨includes, hincludes, -⟩ := bind_eq_ok_iff.1 h
  obtain ⟨included, -, hincluded⟩ := exists_of_mem_left (mapM_eq_ok_iff.1 hincludes) hi
  unfold resolveInclude at hincluded
  split at hincluded
  · exact absurd hincluded (found_ne_ok _ _ _)
  · rename_i unit hunit
    exact ⟨unit, hunit⟩

end ObjectRelational.MappingUnit
