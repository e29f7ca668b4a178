import ObjectRelational.Proofs.OrderedMap
import ObjectRelational.Substitution

/-!
# How substitutions compose

A substitution is known by what it replaces each database with, and substitutions that do so alike
are equal.

* `find?_andThen`: what a composed substitution replaces. `apply_andThen`: it acts as the inner one
  and then the outer one.
* `andThen_assoc`: along a path it does not matter which substitutions are composed first.
* `identity_andThen`, `andThen_identity`: an include that replaces nothing adds nothing.
-/

namespace ObjectRelational.Substitution

/-- Substitutions with the same replacements are equal. -/
theorem ext_replacements {s t : Substitution}
    (h : ∀ d, s.replacements.find? d = t.replacements.find? d) : s = t := by
  cases s
  cases t
  exact congrArg Substitution.mk (OrderedMap.ext_find? h)

/-- Composed substitutions replace what the inner one replaces, by what the outer one makes of it,
and what only the outer one replaces. -/
theorem find?_andThen (s outer : Substitution) (d : DatabaseId) :
    (s.andThen outer).replacements.find? d =
      ((s.replacements.find? d).map outer.apply).or (outer.replacements.find? d) := by
  unfold andThen
  simp only
  rw [OrderedMap.find?_foldl_insertIfNew, OrderedMap.find?_mapValues]
  rfl

@[simp] theorem apply_andThen (s outer : Substitution) (d : DatabaseId) :
    (s.andThen outer).apply d = outer.apply (s.apply d) := by
  cases h : s.replacements.find? d with
  | none => simp [apply, find?_andThen, h]
  | some replaced => simp [apply, find?_andThen, h]

theorem apply_andThen_eq_comp (s outer : Substitution) :
    (s.andThen outer).apply = outer.apply ∘ s.apply :=
  funext (apply_andThen s outer)

/-- Three substitutions compose to the same one, whichever two of them are composed first. -/
theorem andThen_assoc (s t u : Substitution) :
    (s.andThen t).andThen u = s.andThen (t.andThen u) := by
  apply ext_replacements
  intro d
  simp only [find?_andThen]
  cases hs : s.replacements.find? d with
  | none => simp
  | some replaced => simp

@[simp] theorem find?_identity (d : DatabaseId) : identity.replacements.find? d = none :=
  OrderedMap.find?_empty d

@[simp] theorem apply_identity (d : DatabaseId) : identity.apply d = d := by
  simp [apply]

theorem identity_andThen (s : Substitution) : identity.andThen s = s := by
  apply ext_replacements
  intro d
  simp [find?_andThen]

theorem andThen_identity (s : Substitution) : s.andThen identity = s := by
  apply ext_replacements
  intro d
  cases h : s.replacements.find? d with
  | none => simp [find?_andThen, h]
  | some replaced => simp [find?_andThen, h]

end ObjectRelational.Substitution
