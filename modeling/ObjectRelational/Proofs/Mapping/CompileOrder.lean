import ObjectRelational.Proofs.ByteOrder
import ObjectRelational.Proofs.Graph.StackComponents
import ObjectRelational.Proofs.Mapping.IncludeGraph

/-!
# The order of compilation, along includes

The walk that collects components on a stack gives the order in which units are compiled, when it enters
the names in the order in which they are given and follows the last include of a unit first. What is said
of the order here is said in terms of the includes that the units themselves declare, so names that more
than one unit has, includes of what is not there, includes of a unit in itself and cycles are all allowed.

* `IncludesIn` is one include between names, `OnCommonCycle` one or more of them in both directions.
* `reaches_latestFirst_iff_transGen`: the graph of a list of units follows these includes.
* `compileOrder_eq_flatMap_stackComponents`: the order is that of the walk.
* `compileOrder_of_cycle`: a unit and those on a cycle with it are listed together.
* `compileOrder_topological`: the order is topological.
-/

namespace ObjectRelational

/-- A unit of the first name includes the second name. -/
def IncludesIn (units : List Source.Mapping) (a b : String) : Prop :=
  ∃ u ∈ units, u.name.value = a ∧ b ∈ u.targets

/-- A common cycle of includes leads through both names. -/
def OnCommonCycle (units : List Source.Mapping) (a b : String) : Prop :=
  Relation.TransGen (IncludesIn units) a b ∧ Relation.TransGen (IncludesIn units) b a

namespace IncludeGraph

open ObjectRelational.Graph

variable {units : List Source.Mapping} {a b : String}

/-- What leads further is the name of a unit. -/
theorem mem_names_of_transGen (h : Relation.TransGen (IncludesIn units) a b) :
    a ∈ (ofUnits units).names := by
  rcases Relation.TransGen.head'_iff.1 h with ⟨c, ⟨u, hu, hname, -⟩, -⟩
  exact mem_names_ofUnits.2 ⟨u, hu, hname⟩

/-- The graph reaches what includes lead to, if that is there. -/
theorem reaches_latestFirst_iff_transGen :
    Reaches (ofUnits units).latestFirst a b ↔
      b = a ∨ Relation.TransGen (IncludesIn units) a b ∧ b ∈ (ofUnits units).names := by
  constructor
  · intro h
    rcases Relation.reflTransGen_iff_eq_or_transGen.1 h with heq | hsteps
    · exact Or.inl heq
    · have hincludes : ∀ c d, Step (ofUnits units).latestFirst c d → IncludesIn units c d :=
        fun _ _ hcd => (mem_latestFirst_ofUnits.1 hcd).1
      refine Or.inr ⟨Relation.TransGen.mono hincludes _ _ hsteps, ?_⟩
      rcases Relation.TransGen.tail'_iff.1 hsteps with ⟨c, -, hcb⟩
      exact (mem_latestFirst_ofUnits.1 hcb).2
  · rintro (rfl | ⟨hsteps, hb⟩)
    · exact Reaches.refl _
    · -- every name that leads on is there, so the graph has each step
      induction hsteps using Relation.TransGen.head_induction_on with
      | single hstep => exact Reaches.step (mem_latestFirst_ofUnits.2 ⟨hstep, hb⟩)
      | head hstep hrest ih =>
        exact (Reaches.step (mem_latestFirst_ofUnits.2
          ⟨hstep, mem_names_of_transGen hrest⟩)).trans ih

/-- Units that reach each other are the same or lie on a common cycle. -/
theorem connected_latestFirst_iff (ha : a ∈ (ofUnits units).names) :
    Connected (ofUnits units).latestFirst a b ↔ b = a ∨ OnCommonCycle units a b := by
  unfold Connected
  rw [reaches_latestFirst_iff_transGen, reaches_latestFirst_iff_transGen]
  constructor
  · rintro ⟨rfl | ⟨hab, -⟩, hback⟩
    · exact Or.inl rfl
    · rcases hback with rfl | ⟨hba, -⟩
      · exact Or.inl rfl
      · exact Or.inr ⟨hab, hba⟩
  · rintro (rfl | ⟨hab, hba⟩)
    · exact ⟨Or.inl rfl, Or.inl rfl⟩
    · exact ⟨Or.inr ⟨hab, mem_names_of_transGen hba⟩, Or.inr ⟨hba, ha⟩⟩

/-- Components with the same members, each sorted, give the same order. -/
theorem flatMap_ofList_congr {l l' : List (List String)} (h : List.Forall₂ List.Perm l l') :
    (l.flatMap fun c => (OrderedSet.ofList c).toList) =
      l'.flatMap fun c => (OrderedSet.ofList c).toList := by
  induction h with
  | nil => rfl
  | @cons c c' rest rest' hperm _ ih =>
    have hsame : OrderedSet.ofList c = OrderedSet.ofList c' :=
      OrderedSet.ofList_congr fun a => hperm.mem_iff
    rw [List.flatMap_cons, List.flatMap_cons, hsame, ih]

/-- Units are compiled in the order in which the walk with a stack collects their components. -/
theorem compileOrder_eq_flatMap_stackComponents (units : List Source.Mapping) :
    (ofUnits units).compileOrder =
      (stackComponents (ofUnits units).names (ofUnits units).latestFirst).flatMap
        fun component => (OrderedSet.ofList component).toList :=
  (flatMap_ofList_congr (perm_stackComponents (closed_latestFirst units)
    (names_ofUnits_nodup units))).symm

/-- A unit stands in the order together with the units that lie on a cycle with it, by name. -/
theorem compileOrder_of_cycle (ha : a ∈ (ofUnits units).compileOrder) :
    ∃ front cycle back, (ofUnits units).compileOrder = front ++ cycle ++ back ∧
      (∀ b, b ∈ cycle ↔ b = a ∨ OnCommonCycle units a b) ∧ cycle.Pairwise (· < ·) := by
  have hclosed := closed_latestFirst units
  have hnames := mem_compileOrder_iff.1 ha
  have hmem := (mem_components_iff hclosed).2 ⟨a, hnames, rfl⟩
  rcases List.append_of_mem hmem with ⟨before, behind, hsplit⟩
  have horder : ∃ front back, (ofUnits units).compileOrder =
      front ++ (OrderedSet.ofList ((ofUnits units).names.filter (connected
        (closures (ofUnits units).names (ofUnits units).latestFirst) a))).toList ++ back := by
    unfold compileOrder
    rw [hsplit, List.flatMap_append, List.flatMap_cons, ← List.append_assoc]
    exact ⟨_, _, rfl⟩
  rcases horder with ⟨front, back, horder⟩
  refine ⟨front, _, back, horder, ?_, OrderedMap.keys_ascending _⟩
  intro b
  rw [OrderedSet.mem_toList_ofList, List.mem_filter, connected_closures_iff hclosed,
    ← connected_latestFirst_iff hnames]
  constructor
  · rintro ⟨-, -, -, hconn⟩
    exact hconn
  · intro hconn
    have hb : b ∈ (ofUnits units).names := hconn.1.mem_of_forall_step hclosed hnames
    exact ⟨hb, hnames, hb, hconn⟩

/-- The order of compilation is the one that the walk with a stack finds, and it is topological. It lists
every name once; a unit stands behind what it includes, unless that leads back to it; and the units of a
cycle stand together, in the order of the bytes of their names. -/
theorem compileOrder_topological (units : List Source.Mapping) :
    ((ofUnits units).compileOrder =
      (stackComponents (ofUnits units).names (ofUnits units).latestFirst).flatMap
        fun component => (OrderedSet.ofList component).toList) ∧
    (∀ name, name ∈ (ofUnits units).compileOrder ↔ ∃ u ∈ units, u.name.value = name) ∧
    (ofUnits units).compileOrder.Nodup ∧
    (∀ a b, IncludesIn units a b → (∃ u ∈ units, u.name.value = b) →
      ¬ Relation.TransGen (IncludesIn units) b a → Precedes (ofUnits units).compileOrder b a) ∧
    ∀ a ∈ (ofUnits units).compileOrder, ∃ front cycle back,
      (ofUnits units).compileOrder = front ++ cycle ++ back ∧
        (∀ b, b ∈ cycle ↔ b = a ∨ OnCommonCycle units a b) ∧
        cycle.Pairwise fun b c => b.toUTF8.data.toList < c.toUTF8.data.toList := by
  refine ⟨compileOrder_eq_flatMap_stackComponents units, ?_, compileOrder_nodup units, ?_, ?_⟩
  · intro name
    rw [mem_compileOrder_iff, mem_names_ofUnits]
  · intro a b hab hb hback
    have ha : a ∈ (ofUnits units).names := mem_names_of_transGen (Relation.TransGen.single hab)
    have hbnames : b ∈ (ofUnits units).names := mem_names_ofUnits.2 hb
    have hne : a ≠ b := by
      rintro rfl
      exact hback (Relation.TransGen.single hab)
    have hreach : Reaches (ofUnits units).inOrder a b :=
      reaches_latestFirst_iff.1 (Reaches.step (mem_latestFirst_ofUnits.2 ⟨hab, hbnames⟩))
    refine precedes_compileOrder ha hreach fun hreaches => ?_
    rcases reaches_latestFirst_iff_transGen.1 (reaches_latestFirst_iff.2 hreaches) with heq | hsteps
    · exact hne heq
    · exact hback hsteps.1
  · intro a ha
    rcases compileOrder_of_cycle ha with ⟨front, cycle, back, horder, hmem, hascending⟩
    exact ⟨front, cycle, back, horder, hmem, hascending.imp lt_iff_utf8_lt.1⟩

/-- A unit includes itself, what is not there, and two others; one of these includes it back. -/
theorem compileOrder_topological_of_cycle :
    let units : List Source.Mapping := [
      { name := { value := "b" }
        includes := [{ mapping := { value := "b" } }, { mapping := { value := "gone" } },
          { mapping := { value := "c" } }, { mapping := { value := "a" } }] },
      { name := { value := "a" }, includes := [{ mapping := { value := "b" } }] },
      { name := { value := "c" } }]
    Precedes (ofUnits units).compileOrder "c" "b" ∧ (ofUnits units).compileOrder = ["c", "a", "b"] := by
  intro units
  have htopological := compileOrder_topological units
  have hleaf : ∀ b, ¬ Relation.TransGen (IncludesIn units) "c" b := by
    intro b h
    rcases Relation.TransGen.head'_iff.1 h with ⟨d, ⟨u, hu, hname, hd⟩, -⟩
    simp only [units, List.mem_cons, List.not_mem_nil, or_false] at hu
    rcases hu with rfl | rfl | rfl
    · simp at hname
    · simp at hname
    · simp [Source.Mapping.targets] at hd
  refine ⟨htopological.2.2.2.1 "b" "c" ?_ ?_ (hleaf "b"), by decide +kernel⟩
  · exact ⟨_, List.mem_cons_self, rfl, by simp [Source.Mapping.targets]⟩
  · exact ⟨_, List.mem_cons_of_mem _ (List.mem_cons_of_mem _ List.mem_cons_self), rfl⟩

end IncludeGraph

end ObjectRelational
