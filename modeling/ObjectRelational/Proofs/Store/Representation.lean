import ObjectRelational.Proofs.Store.Conditions
import ObjectRelational.Proofs.Store.Registration

/-!
# What a store represents

Whatever is built, the elements of the store and the names in its databases agree, joins and filters are
about the tables of their conditions, and all that its expressions refer to is there, at whatever depth.

* `Operation.PartOf`: the parts of an expression. `Operation.FitsIn.of_partOf`: they fit where it does.
* `Join.Sides`: the two sides of a join. `Join.sides_of_otherSide?`: a join leads from one to the other.
* `Store.Represents`: all that can be relied on. `Store.represents_of_build`: every store that is built
  represents its databases.
-/

namespace ObjectRelational

/-! ## Parts of expressions -/

namespace Operation

/-- The part is the expression itself, or part of an argument or of what is evaluated at the end of a
path. -/
inductive PartOf (part : Operation) : Operation → Prop
  | self : PartOf part part
  | target {source : TableAlias} {steps : List JoinStep} {target : Operation}
      (h : PartOf part target) : PartOf part (.join source steps (some target))
  | argument {name : String} {arguments : List Operation} {argument : Operation}
      (hargument : argument ∈ arguments) (h : PartOf part argument) :
      PartOf part (.function name arguments)

theorem FitsIn.of_partOf {store : Store} {operation part : Operation} (hfits : operation.FitsIn store)
    (h : part.PartOf operation) : part.FitsIn store := by
  induction h with
  | self => exact hfits
  | target _ ih =>
    cases hfits with
    | join _ _ htarget => exact ih (htarget _ rfl)
  | argument hargument _ ih =>
    cases hfits with
    | function harguments => exact ih (harguments _ hargument)

end Operation

/-! ## Sides of joins -/

/-- The tables are the sides of the join, in one order or the other. Both sides of a self join are the one
table that it has. -/
def Join.Sides (j : Join) (a b : TableId) : Prop :=
  if j.selfJoin then j.tables = [a] ∧ a = b else j.tables = [a, b] ∨ j.tables = [b, a]

theorem Join.sides_of_otherSide? {j : Join} {a b : TableId}
    (hlength : j.tables.length = if j.selfJoin then 1 else 2) (h : j.otherSide? a = some b) :
    j.Sides a b := by
  unfold otherSide? at h
  unfold Sides
  split at h
  · rename_i hself
    rw [if_pos hself] at hlength ⊢
    obtain ⟨table, htables⟩ := List.length_eq_one_iff.1 hlength
    simp only [contains, htables, List.mem_singleton, decide_eq_true_eq,
      Option.ite_none_right_eq_some, Option.some.injEq] at h ⊢
    exact ⟨by rw [h.1], h.2⟩
  · rename_i hself
    rw [if_neg hself]
    split at h
    · rename_i first second htables
      split at h
      · rename_i hfirst
        exact .inl (by rw [htables, hfirst, Option.some.inj h])
      · obtain ⟨hsecond, hfirst⟩ := Option.ite_none_right_eq_some.1 h
        exact .inr (by rw [htables, hsecond, Option.some.inj hfirst])
    · cases h

namespace Store

variable {s : Store}

/-- The step goes from one side of its join to the other. -/
def Follows (s : Store) (step : JoinStep) : Prop :=
  ∃ j, s.join? step.join = some j ∧ j.Sides step.source step.target

/-! ## Expressions -/

/-- The expressions of a store: the conditions of joins and filters, and the columns and groups of
views. -/
def expressions (s : Store) : List Operation :=
  s.joins.map (·.condition) ++ s.filters.map (·.condition) ++
    s.tables.flatMap fun t => t.view.toList.flatMap fun v => v.columns.map (·.operation) ++ v.groupBy

theorem Closed.expressions_fit (h : s.Closed) : ∀ operation ∈ s.expressions, operation.FitsIn s := by
  unfold expressions
  refine List.forall_mem_append.2 ⟨List.forall_mem_append.2
    ⟨List.forall_mem_map.2 fun j hj => (h.joins j hj).condition,
      List.forall_mem_map.2 fun f hf => (h.filters f hf).condition⟩, ?_⟩
  refine List.forall_mem_flatMap.2 fun t ht => List.forall_mem_flatMap.2 fun v hv => ?_
  have hview := (h.tables t ht).view v (Option.mem_toList.1 hv)
  exact List.forall_mem_append.2 ⟨List.forall_mem_map.2 hview.columns, hview.groupBy⟩

/-! ## All that can be relied on -/

/-- The store represents the databases: its elements and names agree, its joins and filters are theirs,
and its expressions read columns and go along joins that are there. -/
structure Represents (s : Store) (sources : List Source.Database) : Prop where
  closed : s.Closed
  registered : s.Registered
  finds : s.Finds
  own : ∀ id t, s.table? id = some t → ∀ c ∈ t.columns, c.table = id
  joins : List.Forall₂ (fun d (j : Join) => j.Of d.1 d.2) (declarations (·.joins) sources) s.joins
  filters : List.Forall₂ (fun d (f : Filter) => f.Of d.1 d.2) (declarations (·.filters) sources)
    s.filters
  columns : ∀ operation ∈ s.expressions, ∀ reference, (Operation.column reference).PartOf operation →
    s.HasColumn reference.tableAlias.table reference.column
  paths : ∀ operation ∈ s.expressions, ∀ source steps target,
    (Operation.join source steps target).PartOf operation → ∀ step ∈ steps, s.Follows step
  pointers : ∀ t ∈ s.tables, ∀ v, t.view = some v → ∀ pointer, v.filter = some pointer →
    ∀ step ∈ pointer.joins, s.Follows step

/-- Every store that is built represents its databases. -/
theorem represents_of_build {settings : ResolutionSettings} {sources : List Source.Database}
    (h : build settings sources = .ok s) : s.Represents sources := by
  have hclosed := closed_of_build h
  have hcataloged := cataloged_of_build h
  obtain ⟨hjoins, hfilters⟩ := joins_filters_of_build h
  have hfollows : ∀ step : JoinStep, step.FitsIn s → s.Follows step := by
    intro step hstep
    obtain ⟨j, hj, hside⟩ := hstep.leads
    obtain ⟨d, -, hof⟩ := exists_of_mem_right hjoins (hasJoin_of_join? hj).2
    exact ⟨j, hj, Join.sides_of_otherSide? hof.length hside⟩
  refine ⟨hclosed, hcataloged.registered, hcataloged.finds, hcataloged.columned.own, hjoins, hfilters,
    ?_, ?_, ?_⟩
  · intro operation hoperation reference hpart
    cases (hclosed.expressions_fit operation hoperation).of_partOf hpart with
    | column hfits => exact hfits.column
  · intro operation hoperation source steps target hpart step hstep
    cases (hclosed.expressions_fit operation hoperation).of_partOf hpart with
    | join _ hsteps _ => exact hfollows step (hsteps step hstep)
  · intro t ht v hv pointer hpointer step hstep
    have hview := (hclosed.tables t ht).view v hv
    exact hfollows step ((hview.filter pointer hpointer).joins step hstep)

/-! ## Employees, managers and firms -/

/-- Persons with their managers and firms, and a view of those who are employed. -/
def employeeTables : Source.Database where
  name := ⟨"employees", {}⟩
  schemas := [{
    name := ⟨"default", {}⟩
    tables := [
      { name := ⟨"PERSON", {}⟩,
        columns := [⟨⟨"ID", {}⟩, .integer, true, true⟩, ⟨⟨"MANAGER_ID", {}⟩, .integer, true, false⟩,
          ⟨⟨"FIRM_ID", {}⟩, .integer, true, false⟩] },
      { name := ⟨"FIRM", {}⟩, columns := [⟨⟨"ID", {}⟩, .integer, true, true⟩] }]
    views := [{
      name := ⟨"EMPLOYED", {}⟩
      filter := some { name := ⟨"employed", {}⟩ }
      groupBy := [exampleColumn "PERSON" "ID"]
      columns := [
        ⟨⟨"person", {}⟩, exampleColumn "PERSON" "ID", true⟩,
        ⟨⟨"firm", {}⟩, .joinPath [{ name := ⟨"employer", {}⟩ }] (some (exampleColumn "FIRM" "ID")),
          false⟩] }] }]
  joins := [
    ⟨⟨"employer", {}⟩, .function ⟨"equal", {}⟩
      [exampleColumn "PERSON" "FIRM_ID", exampleColumn "FIRM" "ID"], {}⟩,
    ⟨⟨"manager", {}⟩, .function ⟨"equal", {}⟩
      [exampleColumn "PERSON" "MANAGER_ID", .targetColumn ⟨"ID", {}⟩], {}⟩]
  filters := [⟨⟨"employed", {}⟩, .function ⟨"isNotNull", {}⟩ [exampleColumn "PERSON" "FIRM_ID"], {}⟩]

/-- A store with a self join and with a view that goes along another join. -/
theorem represents_of_build_of_employees :
    ∃ s, build {} [employeeTables] = .ok s ∧ s.Represents [employeeTables] := by
  obtain ⟨s, hbuild⟩ : ∃ s, build {} [employeeTables] = .ok s :=
    exists_of_isSome_toOption (by decide +kernel)
  exact ⟨s, hbuild, represents_of_build hbuild⟩

end Store

end ObjectRelational
