import ObjectRelational.Mapping.Include
import ObjectRelational.Proofs.Substitution

/-!
# What flattening lists

A unit is reached along paths of includes, perhaps along many, and along each of them substitutions are
composed. Flattening visits a unit once, the first time that it meets it. When it succeeds, that is
enough: all paths to the unit have composed the same substitution.

* `Leads` are the paths. `SameByName`: the units behind them are known by their names.
* `flattenFrom_of_new`, `flattenFrom_of_eq`, `flattenFrom_of_ne`: the steps of flattening.
* `Worklist`: what holds while units are visited. `Worklist.visit` and `Worklist.skip`: each step keeps
  it. `worklist_flatten`: so it holds at the end.
* `Worklist.mem_of_leads`: when nothing is left to visit, every path is accounted for.
* `flatten_exact` says what flattening lists.
* `forall_mem_flatten`: what passes on to included units holds of all that are listed.
-/

namespace ObjectRelational.Include

/-! ## Paths -/

/-- A path of includes leads from a list of includes to a unit. The substitution of the unit is
composed along the path, the inner one first at every step. -/
inductive Leads (direct : List IncludedUnit) : List IncludedUnit → IncludedUnit → Prop
  | single {i : IncludedUnit} (h : i ∈ direct) : Leads direct [i] i
  | snoc {path : List IncludedUnit} {outer inner : IncludedUnit} (hpath : Leads direct path outer)
      (h : inner ∈ outer.unit.includes) : Leads direct (path ++ [inner])
        ⟨inner.unit, inner.substitution.andThen outer.substitution⟩

/-- Units behind a list of includes that have one name are equal. -/
def SameByName (direct : List IncludedUnit) : Prop :=
  ∀ path i path' j, Leads direct path i → Leads direct path' j →
    i.unit.name = j.unit.name → i.unit = j.unit

variable {direct known queue : List IncludedUnit} {next i j : IncludedUnit} {path : List IncludedUnit}

/-- A path goes on to what the unit that it leads to includes. -/
theorem Leads.inner (hpath : Leads direct path i) (h : j ∈ i.inner) :
    ∃ longer, Leads direct longer j := by
  rcases List.mem_map.1 h with ⟨inner, hinner, rfl⟩
  exact ⟨_, hpath.snoc hinner⟩

/-- A path behind a unit goes on from any path to the unit; the substitution of the latter comes
last. -/
theorem Leads.through {behind : List IncludedUnit} (hpath : Leads direct path i)
    (h : Leads i.unit.includes behind j) :
    ∃ longer, Leads direct longer ⟨j.unit, j.substitution.andThen i.substitution⟩ := by
  induction h with
  | single h => exact ⟨_, hpath.snoc h⟩
  | @snoc behind outer inner _ h ih =>
    rcases ih with ⟨longer, hlonger⟩
    rw [Substitution.andThen_assoc]
    exact ⟨_, hlonger.snoc h⟩

/-- Behind a unit that is reached, units of one name are equal too. -/
theorem SameByName.of_leads (hsame : SameByName direct) (hpath : Leads direct path i) :
    SameByName i.unit.includes := by
  intro path j path' k hj hk hname
  obtain ⟨_, hj'⟩ := hpath.through hj
  obtain ⟨_, hk'⟩ := hpath.through hk
  exact hsame _ ⟨j.unit, _⟩ _ ⟨k.unit, _⟩ hj' hk' hname

/-! ## Visiting -/

/-- Units being visited: those that are known bear different names, all are reached along paths, and
what has to be visited is known or waits in the queue. -/
structure Worklist (direct known queue : List IncludedUnit) : Prop where
  nodup : (known.map (·.unit.name)).Nodup
  reached_known : ∀ i ∈ known, ∃ path, Leads direct path i
  reached_queue : ∀ i ∈ queue, ∃ path, Leads direct path i
  starts : ∀ i ∈ direct, i ∈ known ∨ i ∈ queue
  leaves : ∀ i ∈ known, ∀ j ∈ i.inner, j ∈ known ∨ j ∈ queue

namespace Worklist

theorem start (direct : List IncludedUnit) : Worklist direct [] direct where
  nodup := List.nodup_nil
  reached_known i h := by simp at h
  reached_queue i h := ⟨[i], .single h⟩
  starts _ h := .inr h
  leaves i h := by simp at h

/-- A unit of a new name is visited: it is known from now on, and its includes wait. -/
theorem visit (h : Worklist direct known (next :: queue))
    (hnew : ∀ i ∈ known, i.unit.name ≠ next.unit.name) :
    Worklist direct (known ++ [next]) (queue ++ next.inner) := by
  obtain ⟨path, hpath⟩ := h.reached_queue next List.mem_cons_self
  have hmoved : ∀ i, i ∈ known ∨ i ∈ next :: queue → i ∈ known ++ [next] ∨ i ∈ queue ++ next.inner := by
    intro i hi
    simp only [List.mem_append, List.mem_cons, List.not_mem_nil, or_false] at hi ⊢
    grind
  refine ⟨?_, ?_, ?_, ?_, ?_⟩
  · rw [List.map_append, List.nodup_append]
    refine ⟨h.nodup, List.nodup_singleton _, ?_⟩
    intro name hname other hother
    obtain ⟨i, hi, rfl⟩ := List.mem_map.1 hname
    obtain rfl := List.mem_singleton.1 hother
    exact hnew i hi
  · intro i hi
    rcases List.mem_append.1 hi with hi | hi
    · exact h.reached_known i hi
    · obtain rfl := List.mem_singleton.1 hi
      exact ⟨path, hpath⟩
  · intro i hi
    rcases List.mem_append.1 hi with hi | hi
    · exact h.reached_queue i (List.mem_cons_of_mem _ hi)
    · exact hpath.inner hi
  · exact fun i hi => hmoved i (h.starts i hi)
  · intro i hi j hj
    rcases List.mem_append.1 hi with hi | hi
    · exact hmoved j (h.leaves i hi j hj)
    · obtain rfl := List.mem_singleton.1 hi
      exact .inr (List.mem_append_right _ hj)

/-- A unit that is known with its substitution is skipped. -/
theorem skip (h : Worklist direct known (next :: queue)) (hknown : next ∈ known) :
    Worklist direct known queue := by
  have hmoved : ∀ i, i ∈ known ∨ i ∈ next :: queue → i ∈ known ∨ i ∈ queue := by
    intro i hi
    rcases hi with hi | hi
    · exact .inl hi
    · rcases List.mem_cons.1 hi with rfl | hi
      · exact .inl hknown
      · exact .inr hi
  exact ⟨h.nodup, h.reached_known, fun i hi => h.reached_queue i (List.mem_cons_of_mem _ hi),
    fun i hi => hmoved i (h.starts i hi), fun i hi j hj => hmoved j (h.leaves i hi j hj)⟩

/-- When nothing is left to visit, every path leads to a unit that is known with the substitution
composed along it. -/
theorem mem_of_leads (h : Worklist direct known []) (hpath : Leads direct path i) : i ∈ known := by
  induction hpath with
  | single hi => simpa using h.starts _ hi
  | @snoc path outer inner _ hinner ih =>
    have hbehind := h.leaves outer ih ⟨inner.unit, _⟩ (List.mem_map.2 ⟨inner, hinner, rfl⟩)
    simpa using hbehind

end Worklist

/-- A unit that is known by its name with the same substitution is known as it is. -/
theorem mem_of_find?_name {previous : IncludedUnit} (hsame : SameByName direct)
    (h : Worklist direct known (next :: queue))
    (hfind : (known.find? fun i => i.unit.name = next.unit.name) = some previous)
    (hsubstitution : previous.substitution = next.substitution) : next ∈ known := by
  have hmem := List.mem_of_find?_eq_some hfind
  have hname : previous.unit.name = next.unit.name := by simpa using List.find?_some hfind
  obtain ⟨path, hpath⟩ := h.reached_known previous hmem
  obtain ⟨path', hpath'⟩ := h.reached_queue next List.mem_cons_self
  have hunit := hsame path previous path' next hpath hpath' hname
  cases previous
  cases next
  simp only at hunit hsubstitution
  rw [← hunit, ← hsubstitution]
  exact hmem

section Steps

variable {unit : String} {span : Span} {previous : IncludedUnit}

theorem flattenFrom_of_new (hnew : (known.find? fun i => i.unit.name = next.unit.name) = none) :
    flattenFrom unit span known (next :: queue) =
      flattenFrom unit span (known ++ [next]) (queue ++ next.inner) := by
  rw [flattenFrom, hnew]

theorem flattenFrom_of_eq (hknown : (known.find? fun i => i.unit.name = next.unit.name) = some previous)
    (hsubstitution : previous.substitution = next.substitution) :
    flattenFrom unit span known (next :: queue) = flattenFrom unit span known queue := by
  rw [flattenFrom, hknown]
  exact if_pos hsubstitution

theorem flattenFrom_of_ne (hknown : (known.find? fun i => i.unit.name = next.unit.name) = some previous)
    (hsubstitution : previous.substitution ≠ next.substitution) :
    flattenFrom unit span known (next :: queue) =
      .error ⟨.ambiguousIncludePaths next.unit.name unit, span⟩ := by
  rw [flattenFrom, hknown]
  exact if_neg hsubstitution

end Steps

theorem worklist_flattenFrom {unit : String} {span : Span} {flattened : List IncludedUnit}
    (hsame : SameByName direct) (hwork : Worklist direct known queue)
    (h : flattenFrom unit span known queue = .ok flattened) : Worklist direct flattened [] := by
  -- along the calls of the function: a unit is visited, or skipped, or the paths to it disagree
  induction known, queue using flattenFrom.induct with
  | case1 known =>
    rw [flattenFrom] at h
    obtain rfl := Except.ok.inj h
    exact hwork
  | case2 known next queue hnew ih =>
    rw [flattenFrom_of_new hnew] at h
    refine ih (hwork.visit ?_) h
    intro i hi
    simpa using List.find?_eq_none.1 hnew i hi
  | case3 known next queue previous hprevious hsubstitution ih =>
    rw [flattenFrom_of_eq hprevious hsubstitution] at h
    exact ih (hwork.skip (mem_of_find?_name hsame hwork hprevious hsubstitution)) h
  | case4 known next queue previous hprevious hsubstitution =>
    rw [flattenFrom_of_ne hprevious hsubstitution] at h
    cases h

/-- When flattening succeeds, nothing is left to visit. -/
theorem worklist_flatten {unit : String} {span : Span} {flattened : List IncludedUnit}
    (hsame : SameByName direct) (h : flatten unit span direct = .ok flattened) :
    Worklist direct flattened [] := worklist_flattenFrom hsame (.start direct) h

/-- When flattening succeeds, every unit that includes lead to is listed once and no other unit is; and
along every path to a unit the substitution that is listed with it is composed. -/
theorem flatten_exact {unit : String} {span : Span} {flattened : List IncludedUnit}
    (hsame : SameByName direct) (h : flatten unit span direct = .ok flattened) :
    (flattened.map (·.unit.name)).Nodup ∧ (∀ i ∈ flattened, ∃ path, Leads direct path i) ∧
      ∀ path i, Leads direct path i → i ∈ flattened := by
  have hwork := worklist_flatten hsame h
  exact ⟨hwork.nodup, hwork.reached_known, fun path i hpath => hwork.mem_of_leads hpath⟩

/-- What holds of the units that wait, and passes on to what an included unit includes, holds of all
units that are listed. -/
theorem forall_mem_flattenFrom {P : IncludedUnit → Prop} {unit : String} {span : Span}
    {flattened : List IncludedUnit} (hpasses : ∀ i, P i → ∀ j ∈ i.inner, P j)
    (hknown : ∀ i ∈ known, P i) (hqueue : ∀ i ∈ queue, P i)
    (h : flattenFrom unit span known queue = .ok flattened) : ∀ i ∈ flattened, P i := by
  induction known, queue using flattenFrom.induct with
  | case1 known =>
    rw [flattenFrom] at h
    obtain rfl := Except.ok.inj h
    exact hknown
  | case2 known next queue hnew ih =>
    rw [flattenFrom_of_new hnew] at h
    obtain ⟨hnext, hrest⟩ := List.forall_mem_cons.1 hqueue
    exact ih (List.forall_mem_append.2 ⟨hknown, List.forall_mem_singleton.2 hnext⟩)
      (List.forall_mem_append.2 ⟨hrest, hpasses next hnext⟩) h
  | case3 known next queue previous hprevious hsubstitution ih =>
    rw [flattenFrom_of_eq hprevious hsubstitution] at h
    exact ih hknown (List.forall_mem_cons.1 hqueue).2 h
  | case4 known next queue previous hprevious hsubstitution =>
    rw [flattenFrom_of_ne hprevious hsubstitution] at h
    cases h

/-- What holds of the units that are included directly, and passes on to what a unit includes, holds of
all units that are listed. -/
theorem forall_mem_flatten {P : MappingUnit → Prop} {unit : String} {span : Span}
    {flattened : List IncludedUnit} (hpasses : ∀ u, P u → ∀ i ∈ u.includes, P i.unit)
    (hdirect : ∀ i ∈ direct, P i.unit) (h : flatten unit span direct = .ok flattened) :
    ∀ i ∈ flattened, P i.unit := by
  refine forall_mem_flattenFrom (P := fun i => P i.unit) ?_ (by simp) hdirect h
  exact fun i hi => List.forall_mem_map.2 (hpasses i.unit hi)

/-! ## A diamond -/

/-- A unit without mappings. -/
def unitOf (name : String) (includes : List IncludedUnit) : MappingUnit :=
  ⟨name, [], [], [], includes, [], .empty, .empty, {}, {}⟩

/-- The first database is replaced by the second one. -/
def replacement : Substitution := Substitution.identity.insert ⟨0⟩ ⟨1⟩

/-- The unit where both sides meet. -/
def bottom : MappingUnit := unitOf "bottom" []

/-- A side that has a database replaced where it includes the bottom. -/
def leftSide : MappingUnit := unitOf "left" [⟨bottom, replacement⟩]

/-- A side that includes the bottom as it is. -/
def rightSide : MappingUnit := unitOf "right" [⟨bottom, .identity⟩]

/-- Both sides are included; in the right one the database is replaced. -/
def diamond : List IncludedUnit := [⟨leftSide, .identity⟩, ⟨rightSide, replacement⟩]

theorem unit_of_leads_diamond (h : Leads diamond path i) :
    i.unit = leftSide ∨ i.unit = rightSide ∨ i.unit = bottom := by
  induction h with
  | single h =>
    simp only [diamond, List.mem_cons, List.not_mem_nil, or_false] at h
    rcases h with rfl | rfl <;> simp
  | snoc _ h ih =>
    rcases ih with ih | ih | ih <;> simp_all [leftSide, rightSide, bottom, unitOf]

/-- Along both paths to the bottom of the diamond the same substitution is composed, and the bottom is
listed with it. -/
theorem flatten_exact_of_diamond :
    SameByName diamond ∧ ∃ flattened, flatten "top" {} diamond = .ok flattened ∧
      (flattened.map (·.unit.name)).Nodup ∧ ⟨bottom, replacement.andThen .identity⟩ ∈ flattened ∧
      ⟨bottom, Substitution.identity.andThen replacement⟩ ∈ flattened := by
  have hsame : SameByName diamond := by
    intro path i path' j hi hj hname
    rcases unit_of_leads_diamond hi with hi | hi | hi <;>
      rcases unit_of_leads_diamond hj with hj | hj | hj <;>
        simp_all [leftSide, rightSide, bottom, unitOf]
  have hagree : replacement.andThen .identity = Substitution.identity.andThen replacement := by decide
  have hflatten : ∃ flattened, flatten "top" {} diamond = .ok flattened := by
    simp [flatten, flattenFrom, diamond, leftSide, rightSide, unitOf, bottom, IncludedUnit.inner,
      hagree]
  obtain ⟨flattened, hflattened⟩ := hflatten
  obtain ⟨hnodup, -, hpaths⟩ := flatten_exact hsame hflattened
  have hleft : Leads diamond _ ⟨leftSide, .identity⟩ := .single (by simp [diamond])
  have hright : Leads diamond _ ⟨rightSide, replacement⟩ := .single (by simp [diamond])
  have hbelow : (⟨bottom, replacement⟩ : IncludedUnit) ∈ leftSide.includes := List.mem_cons_self
  have hbelow' : (⟨bottom, .identity⟩ : IncludedUnit) ∈ rightSide.includes := List.mem_cons_self
  exact ⟨hsame, flattened, hflattened, hnodup, hpaths _ _ (hleft.snoc hbelow),
    hpaths _ _ (hright.snoc hbelow')⟩

end ObjectRelational.Include
