import ObjectRelational.Proofs.Store.Threading

/-!
# Ends of paths

Whatever is evaluated at the end of a path starts on the table where the path ends, also at the end of a path
that is itself evaluated at the end of another one. This is checked while paths are resolved, and renaming
tables behind self joins does not change it.

* `Operation.EndsMeet`: the ends of all paths of an expression, at whatever depth.
* `Resolver.table_of_checkClaimedEnd`: what the check accepts.
* `Resolver.ComesAbout`: a property of all that is resolved, which is shown case by case.
  `Resolver.endsMeet_comesAbout`: that the ends meet is one.
* `Store.joins_thread`: how the joins of a path are resolved in a store that is built, and where it ends.
-/

namespace ObjectRelational

/-! ## What is evaluated at the end -/

/-- Addressing joins through other databases leads to the same end. -/
theorem stepsEnd_map_mapDatabase (g : DatabaseId → DatabaseId) (source : TableId)
    (steps : List JoinStep) : stepsEnd source (steps.map (JoinStep.mapDatabase g)) =
      stepsEnd source steps := by
  unfold stepsEnd
  rw [List.getLast?_map]
  cases steps.getLast? <;> rfl

namespace Operation

mutual

/-- An expression whose aliases are mapped starts from the tables that they are mapped to. -/
theorem roots_mapAliases (f : TableAlias → TableAlias) (g : DatabaseId → DatabaseId) :
    (operation : Operation) → (operation.mapAliases f g).roots = operation.roots.map f
  | .column _ => by simp [mapAliases, roots]
  | .join _ _ _ => by simp [mapAliases, roots]
  | .literal _ => by simp [mapAliases, roots]
  | .function _ arguments => by simp [mapAliases, roots, rootsOfAll_mapAliases f g arguments]

theorem rootsOfAll_mapAliases (f : TableAlias → TableAlias) (g : DatabaseId → DatabaseId) :
    (l : List Operation) → rootsOfAll (mapAliasesOfAll f g l) = (rootsOfAll l).map f
  | [] => by simp [mapAliasesOfAll, rootsOfAll]
  | argument :: rest => by
    simp [mapAliasesOfAll, rootsOfAll, roots_mapAliases f g argument,
      rootsOfAll_mapAliases f g rest]

end

/-- The parts of an expression whose aliases are mapped are its parts with mapped aliases. -/
theorem exists_partOf_of_mapAliases {f : TableAlias → TableAlias} {g : DatabaseId → DatabaseId}
    {operation part : Operation} (h : part.PartOf (operation.mapAliases f g)) :
    ∃ original : Operation, original.PartOf operation ∧ original.mapAliases f g = part := by
  generalize hmapped : operation.mapAliases f g = mapped at h
  induction h generalizing operation with
  | self => exact ⟨operation, .self, hmapped⟩
  | target _ ih =>
    cases operation with
    | join source steps target =>
      cases target with
      | some target =>
        unfold mapAliases mapAliasesOfTarget at hmapped
        obtain ⟨original, horiginal, hsame⟩ := ih (Option.some.inj (join.inj hmapped).2.2)
        exact ⟨original, .target horiginal, hsame⟩
      | none => simp [mapAliases, mapAliasesOfTarget] at hmapped
    | column _ => simp [mapAliases] at hmapped
    | literal _ => simp [mapAliases] at hmapped
    | function _ _ => simp [mapAliases] at hmapped
  | argument hargument _ ih =>
    cases operation with
    | function name arguments =>
      unfold mapAliases at hmapped
      rw [mapAliasesOfAll_eq_map] at hmapped
      obtain ⟨old, hold, hsame⟩ := List.mem_map.1 ((function.inj hmapped).2 ▸ hargument)
      obtain ⟨original, horiginal, hpart⟩ := ih hsame
      exact ⟨original, .argument hold horiginal, hpart⟩
    | column _ => simp [mapAliases] at hmapped
    | literal _ => simp [mapAliases] at hmapped
    | join _ _ _ => simp [mapAliases] at hmapped

/-- What is evaluated at the end of a path with joins starts on the table where the path ends, for every
path in the expression. -/
def EndsMeet (operation : Operation) : Prop :=
  ∀ source steps target, (join source steps (some target)).PartOf operation → steps ≠ [] →
    ∀ a ∈ target.rootAliases, a.table = stepsEnd source.table steps

theorem endsMeet_column (reference : ColumnRef) : (column reference).EndsMeet := by
  rintro source steps target ⟨⟩

theorem endsMeet_literal (value : Literal) : (literal value).EndsMeet := by
  rintro source steps target ⟨⟩

theorem endsMeet_function {name : String} {arguments : List Operation}
    (h : ∀ argument ∈ arguments, argument.EndsMeet) : (function name arguments).EndsMeet := by
  intro source steps target hpart
  cases hpart with
  | argument hargument hpart => exact h _ hargument source steps target hpart

theorem endsMeet_bareJoin (source : TableAlias) (steps : List JoinStep) :
    (join source steps none).EndsMeet := by
  rintro other steps target ⟨⟩

theorem endsMeet_join {source : TableAlias} {steps : List JoinStep} {target : Operation}
    (hend : steps ≠ [] → ∀ a ∈ target.rootAliases, a.table = stepsEnd source.table steps)
    (h : target.EndsMeet) : (join source steps (some target)).EndsMeet := by
  intro other steps' target' hpart
  cases hpart with
  | self => exact hend
  | target hpart => exact h other steps' target' hpart

/-- Aliases can be changed as long as they stand for the same tables. -/
theorem EndsMeet.mapAliases {f : TableAlias → TableAlias} {g : DatabaseId → DatabaseId}
    (hf : ∀ a, (f a).table = a.table) {operation : Operation} (h : operation.EndsMeet) :
    (operation.mapAliases f g).EndsMeet := by
  intro source steps target hpart hsteps a ha
  obtain ⟨original, horiginal, hsame⟩ := exists_partOf_of_mapAliases hpart
  cases original with
  | join before old terminal =>
    cases terminal with
    | some terminal =>
      unfold Operation.mapAliases mapAliasesOfTarget at hsame
      obtain ⟨rfl, rfl, htarget⟩ := join.inj hsame
      obtain rfl := Option.some.inj htarget
      rw [rootAliases, List.mem_eraseDups, roots_mapAliases] at ha
      obtain ⟨root, hroot, rfl⟩ := List.mem_map.1 ha
      rw [hf, hf, stepsEnd_map_mapDatabase]
      exact h before old terminal horiginal (List.map_eq_nil_iff.not.1 hsteps) root
        (List.mem_eraseDups.2 hroot)
    | none => simp [Operation.mapAliases, mapAliasesOfTarget] at hsame
  | column _ => simp [Operation.mapAliases] at hsame
  | literal _ => simp [Operation.mapAliases] at hsame
  | function _ _ => simp [Operation.mapAliases] at hsame

end Operation
namespace Resolver

variable {r : Resolver} {joins : List Source.JoinReference} {steps : List JoinStep}

/-! ## Paths and their ends -/

theorem table_endAlias (source : TableAlias) (steps : List JoinStep) :
    (endAlias source steps).table = stepsEnd source.table steps := by
  unfold endAlias stepsEnd
  cases steps.getLast? <;> rfl

/-- What is evaluated at the end of a path is renamed behind a self join, and kept elsewhere. -/
theorem renameFarSide_cases (r : Resolver) (steps : List JoinStep) (operation : Operation) :
    r.renameFarSide steps operation = operation ∨ ∃ step, steps.getLast? = some step ∧
      r.renameFarSide steps operation = operation.renameAlias step.target step.targetAlias := by
  unfold renameFarSide
  split
  · exact .inl rfl
  · rename_i step hlast
    split
    · split
      · exact .inr ⟨step, hlast, rfl⟩
      · exact .inl rfl
    · exact .inl rfl

theorem tables_renameFarSide {table : TableId} {operation : Operation}
    (h : ∀ a ∈ operation.rootAliases, a.table = table) :
    ∀ a ∈ (r.renameFarSide steps operation).rootAliases, a.table = table := by
  rcases r.renameFarSide_cases steps operation with hsame | ⟨step, -, hrenamed⟩
  · rw [hsame]
    exact h
  · intro a ha
    rw [hrenamed, Operation.rootAliases, List.mem_eraseDups, Operation.renameAlias,
      Operation.roots_mapAliases] at ha
    obtain ⟨root, hroot, rfl⟩ := List.mem_map.1 ha
    rw [← h root (List.mem_eraseDups.2 hroot)]
    split <;> rfl

theorem endsMeet_renameFarSide {operation : Operation} (h : operation.EndsMeet) :
    (r.renameFarSide steps operation).EndsMeet := by
  rcases r.renameFarSide_cases steps operation with hsame | ⟨step, -, hrenamed⟩
  · rw [hsame]
    exact h
  · rw [hrenamed]
    refine h.mapAliases fun a => ?_
    split <;> rfl

/-- What is checked at the end of a path with joins starts from the table where the path ends. -/
theorem table_of_checkClaimedEnd {start : TableAlias} {operation : Operation}
    (h : r.checkClaimedEnd joins steps (endAlias start steps) operation = .ok ())
    (hlength : steps.length = joins.length) (hsteps : steps ≠ []) :
    ∀ a ∈ operation.rootAliases, a.table = stepsEnd start.table steps := by
  have hjoins : joins ≠ [] := by
    rintro rfl
    exact hsteps (List.eq_nil_of_length_eq_zero hlength)
  unfold checkClaimedEnd at h
  rw [table_endAlias, List.getLast?_eq_getLast_of_ne_nil hjoins] at h
  split at h
  · rename_i claimed last hclaimed hlast
    -- a claim that differs from the end is not accepted
    have hmeets := Store.endTable_of_checkEnd h hsteps start.table
    exact absurd hmeets.symm (of_decide_eq_true (List.find?_some hclaimed :))
  · rename_i hnone
    intro a ha
    by_contra hne
    obtain ⟨claimed, hclaimed⟩ : ∃ claimed, (operation.rootAliases.find? fun a =>
        a.table ≠ stepsEnd start.table steps) = some claimed :=
      Option.isSome_iff_exists.1 (List.find?_isSome.2 ⟨a, ha, decide_eq_true hne⟩)
    exact hnone claimed _ hclaimed rfl

/-! ## What is resolved -/

/-- The property comes about in everything that is resolved: it holds of columns and literals, of functions
whose arguments have it, and of paths when what is evaluated at their ends has it. -/
structure ComesAbout (r : Resolver) (P : Operation → Prop) : Prop where
  column : ∀ reference column, (r.column reference).result = .ok column → P (.column column)
  targetColumn : ∀ far name column, r.selfJoinTarget = some far →
    (r.columnOf far name).result = .ok column → P (.column column)
  literal : ∀ value, P (.literal value)
  function : ∀ name arguments, (∀ argument ∈ arguments, P argument) → P (.function name arguments)
  bareJoin : ∀ start steps, P (.join start steps none)
  join : ∀ start joins steps operation, (r.steps start.table joins).result = .ok steps →
    P operation → r.checkClaimedEnd joins steps (endAlias start steps) operation = .ok () →
      P (.join start steps (some (r.renameFarSide steps operation)))

mutual

/-- Such a property holds of every expression that resolves. -/
theorem ComesAbout.resolve {P : Operation → Prop} (hr : r.ComesAbout P)
    (source : Option TableAlias) : (expression : Source.Operation) → ∀ operation,
      (r.resolve source expression).result = .ok operation → P operation
  | .column reference => by
    intro operation h
    unfold Resolver.resolve at h
    obtain ⟨column, hcolumn, h⟩ := Recorded.result_bind_eq_ok_iff.1 h
    obtain rfl := Except.ok.inj h
    exact hr.column reference column hcolumn
  | .targetColumn name => by
    intro operation h
    unfold Resolver.resolve at h
    split at h
    · rename_i far hfar
      obtain ⟨column, hcolumn, h⟩ := Recorded.result_bind_eq_ok_iff.1 h
      obtain rfl := Except.ok.inj h
      exact hr.targetColumn far name column hfar hcolumn
    · exact absurd h (found_ne_ok _ _ _)
  | .joinPath joins target => by
    intro operation h
    unfold Resolver.resolve at h
    obtain ⟨chain, hchain, h⟩ := Recorded.result_bind_eq_ok_iff.1 h
    obtain rfl := Except.ok.inj h
    exact hr.resolvePath source joins target chain hchain
  | .literal value => by
    intro operation h
    unfold Resolver.resolve at h
    obtain rfl := Except.ok.inj h
    exact hr.literal value
  | .function name arguments => by
    intro operation h
    unfold Resolver.resolve at h
    obtain ⟨resolved, hresolved, h⟩ := Recorded.result_bind_eq_ok_iff.1 h
    obtain rfl := Except.ok.inj h
    exact hr.function name.value resolved
      (hr.resolveAll source arguments resolved hresolved)

theorem ComesAbout.resolvePath {P : Operation → Prop} (hr : r.ComesAbout P)
    (source : Option TableAlias) (joins : List Source.JoinReference) :
    (target : Option Source.Operation) → ∀ chain,
      (r.resolvePath source joins target).result = .ok chain → P chain.toOperation
  | none => by
    intro chain h
    unfold Resolver.resolvePath at h
    simp only [Recorded.result_bind_eq_ok_iff, Recorded.result_monadLift, Recorded.result_pure] at h
    obtain ⟨start, -, steps, -, h⟩ := h
    obtain rfl := Except.ok.inj h
    exact hr.bareJoin start steps
  | some target => by
    intro chain h
    unfold Resolver.resolvePath at h
    simp only [Recorded.result_bind_eq_ok_iff, Recorded.result_monadLift, Recorded.result_pure] at h
    obtain ⟨start, -, steps, hsteps, operation, hoperation, _, hcheck, h⟩ := h
    obtain rfl := Except.ok.inj h
    exact hr.join start joins steps operation hsteps
      (hr.resolve _ target operation hoperation) hcheck

theorem ComesAbout.resolveAll {P : Operation → Prop} (hr : r.ComesAbout P)
    (source : Option TableAlias) : (l : List Source.Operation) →
    ∀ resolved, (r.resolveAll source l).result = .ok resolved → ∀ operation ∈ resolved, P operation
  | [] => by
    intro resolved h
    unfold Resolver.resolveAll at h
    obtain rfl := Except.ok.inj h
    simp
  | argument :: rest => by
    intro resolved h
    unfold Resolver.resolveAll at h
    obtain ⟨first, hfirst, h⟩ := Recorded.result_bind_eq_ok_iff.1 h
    obtain ⟨others, hothers, h⟩ := Recorded.result_bind_eq_ok_iff.1 h
    obtain rfl := Except.ok.inj h
    exact List.forall_mem_cons.2 ⟨hr.resolve source argument first hfirst,
      hr.resolveAll source rest others hothers⟩

end

/-- What is evaluated at the ends of paths starts there. -/
theorem endsMeet_comesAbout (r : Resolver) : r.ComesAbout Operation.EndsMeet where
  column _ column _ := Operation.endsMeet_column column
  targetColumn _ _ column _ _ := Operation.endsMeet_column column
  literal := Operation.endsMeet_literal
  function _ _ := Operation.endsMeet_function
  bareJoin := Operation.endsMeet_bareJoin
  join _ _ _ _ hsteps hoperation hcheck := Operation.endsMeet_join
    (fun hne => tables_renameFarSide (table_of_checkClaimedEnd hcheck (length_of_steps hsteps) hne))
    (endsMeet_renameFarSide hoperation)

/-- The joins of a path that resolves are threaded from where it starts. -/
theorem steps_of_resolvePath {source : Option TableAlias} {target : Option Source.Operation}
    {chain : JoinChain} (h : (r.resolvePath source joins target).result = .ok chain) :
    (r.steps chain.source.table joins).result = .ok chain.steps := by
  cases target
  all_goals
    unfold resolvePath at h
    simp only [Recorded.result_bind_eq_ok_iff, Recorded.result_monadLift, Recorded.result_pure] at h
  case none =>
    obtain ⟨start, -, steps, hsteps, h⟩ := h
    obtain rfl := Except.ok.inj h
    exact hsteps
  case some target =>
    obtain ⟨start, -, steps, hsteps, _, -, _, -, h⟩ := h
    obtain rfl := Except.ok.inj h
    exact hsteps

/-- A path that resolves ends where what is evaluated there starts, and so do all paths in it. -/
theorem meets_of_joinPath {start : Option TableAlias} {path : Source.JoinPath} {chain : JoinChain}
    (h : (r.joinPath start path).result = .ok chain) :
    (path.joins ≠ [] → ∀ target, chain.target = some target →
      ∀ a ∈ target.rootAliases, a.table = chain.endTable) ∧ chain.toOperation.EndsMeet := by
  have hmeets := r.endsMeet_comesAbout.resolvePath start path.joins path.target chain h
  refine ⟨fun hjoins target htarget => ?_, hmeets⟩
  have hsteps : chain.steps ≠ [] := by
    intro hnil
    have hlength := length_of_steps (steps_of_resolvePath h)
    rw [hnil] at hlength
    exact hjoins (List.eq_nil_of_length_eq_zero hlength.symm)
  refine hmeets chain.source chain.steps target ?_ hsteps
  rw [← htarget]
  exact .self

end Resolver

/-! ## Joins in a store that is built -/

namespace Store

variable {s : Store} {r : Resolver}

/-- Joins are threaded from a table exactly if all of them are found and connect tables one after the other,
from that table on. The steps then go along these tables, under the names that they have there. What is
evaluated at the end of a path with joins starts on the table where the path ends. -/
theorem joins_thread {settings : ResolutionSettings} {sources : List Source.Database}
    (hbuild : build settings sources = .ok s) (hr : r.store = s) (source : TableAlias)
    (path : Source.JoinPath) :
    ((∃ steps, (r.steps source.table path.joins).result = .ok steps) ↔
      (∀ reference ∈ path.joins, ∃ id join database,
        r.lookupJoin reference = .ok (id, join, database)) ∧
      ∃ tables : Nat → TableId, tables 0 = source.table ∧ r.ConnectsAlong path.joins tables) ∧
    (∀ steps : List JoinStep, (r.steps source.table path.joins).result = .ok steps →
      ∀ tables : Nat → TableId, tables 0 = source.table → r.ConnectsAlong path.joins tables →
        steps.length = path.joins.length ∧
        ∀ i reference id join database, path.joins[i]? = some reference →
          r.lookupJoin reference = .ok (id, join, database) →
            steps[i]? = some ({
              join := id
              name := join.name
              database := database
              joinType := reference.joinType
              source := tables i
              target := tables (i + 1)
              targetAlias :=
                if join.selfJoin then selfJoinAlias (s.tableName (tables (i + 1)))
                else s.tableName (tables (i + 1)) } : JoinStep)) ∧
    ∀ start chain, (r.joinPath start path).result = .ok chain →
      (path.joins ≠ [] → ∀ target, chain.target = some target →
        ∀ a ∈ target.rootAliases, a.table = chain.endTable) ∧
      chain.toOperation.EndsMeet := by
  refine ⟨exists_steps_iff hbuild hr, ?_, ?_⟩
  · intro steps hsteps tables hstart hconnects
    rw [← hstart] at hsteps
    subst hr
    exact ⟨Resolver.length_of_steps hsteps, steps_connect hbuild rfl hsteps hconnects⟩
  · intro start chain hchain
    exact Resolver.meets_of_joinPath hchain

/-- The way to the firm of the manager is threaded through persons, and ends on a firm. -/
theorem joins_thread_of_managers :
    ∃ s chain, build {} [employeeTables] = .ok s ∧
      ((s.resolverIn "default" ⟨0⟩).joinPath none Resolver.managersFirm).result = .ok chain ∧
      (∃ tables : Nat → TableId, tables 0 = ⟨0⟩ ∧
        (s.resolverIn "default" ⟨0⟩).ConnectsAlong Resolver.managersFirm.joins tables) ∧
      chain.toOperation.EndsMeet := by
  obtain ⟨s, chain, hbuild, hchain, hstart⟩ := Resolver.exists_chain_of_managers
  obtain ⟨hthread, -, hends⟩ := joins_thread hbuild (r := s.resolverIn "default" ⟨0⟩) rfl
    chain.source Resolver.managersFirm
  obtain ⟨-, htables⟩ := hthread.1 ⟨chain.steps, Resolver.steps_of_resolvePath hchain⟩
  exact ⟨s, chain, hbuild, hchain, hstart ▸ htables, (hends none chain hchain).2⟩

end Store

end ObjectRelational
