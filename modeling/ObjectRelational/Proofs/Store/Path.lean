import ObjectRelational.Proofs.Recorded
import ObjectRelational.Store.Resolution

/-!
# Paths of joins

A path that resolves is threaded: it starts on the table it is given, and every step leaves the table that
the step before it reached.

* `Threads`: steps that lead from one table to another.
* `Resolver.threads_of_steps`: joins resolve to such steps. `Resolver.threads_of_resolve`: so does an
  expression that is a path without anything evaluated at its end.
* `Store.endTable_of_checkEnd`: where a path that is checked ends, if it has joins at all.
-/

namespace ObjectRelational

/-- Steps lead from one table to another: each leaves the table that the one before it reached. -/
inductive Threads : TableId → List JoinStep → TableId → Prop
  | nil (table : TableId) : Threads table [] table
  | cons {step : JoinStep} {rest : List JoinStep} {last : TableId}
      (h : Threads step.target rest last) : Threads step.source (step :: rest) last

theorem stepsEnd_cons (start : TableId) (step : JoinStep) (rest : List JoinStep) :
    stepsEnd start (step :: rest) = stepsEnd step.target rest := by
  unfold stepsEnd
  cases rest with
  | nil => rfl
  | cons next rest =>
    rw [List.getLast?_cons_cons]
    cases h : (next :: rest).getLast? with
    | none => simp at h
    | some last => rfl

/-- A path that is checked and has joins ends on the table that is claimed. A path without joins is not
checked: it stays where it starts. -/
theorem Store.endTable_of_checkEnd {store : Store} {steps : List JoinStep} {claimed : TableAlias}
    {span : Span} (h : store.checkEnd steps claimed span = .ok ()) (hsteps : steps ≠ [])
    (start : TableId) : stepsEnd start steps = claimed.table := by
  unfold Store.checkEnd at h
  unfold stepsEnd
  cases hlast : steps.getLast? with
  | none => exact absurd (List.getLast?_eq_none_iff.1 hlast) hsteps
  | some last =>
    simp only [hlast] at h
    split at h
    · assumption
    · exact absurd h (found_ne_ok _ _ _)

namespace Resolver

variable {r : Resolver} {cursor : TableId} {joins : List Source.JoinReference}
  {steps : List JoinStep} {source : TableAlias}

/-- Joins that resolve lead on from the table they are threaded from. -/
theorem threads_of_steps (h : (r.steps cursor joins).result = .ok steps) :
    Threads cursor steps (stepsEnd cursor steps) := by
  induction joins generalizing cursor steps with
  | nil =>
    obtain rfl := Except.ok.inj h
    exact .nil cursor
  | cons reference rest ih =>
    unfold Resolver.steps at h
    simp only [Recorded.result_bind_eq_ok_iff] at h
    obtain ⟨⟨id, join, database⟩, -, _, -, _, -, hrest⟩ := h
    dsimp only at hrest
    split at hrest
    · exact absurd hrest (found_ne_ok _ _ _)
    · rename_i next _
      obtain ⟨following, hfollowing, hsteps⟩ := Recorded.result_bind_eq_ok_iff.1 hrest
      obtain rfl := Except.ok.inj hsteps
      rw [stepsEnd_cons]
      have hnext := ih hfollowing
      exact @Threads.cons (r.stepAlong reference id join database cursor next) _ _ hnext

/-- A path starts on the table that it is resolved from, whatever is evaluated at its end. -/
theorem threads_of_resolvePath {target : Option Source.Operation} {chain : JoinChain}
    (h : (r.resolvePath (some source) joins target).result = .ok chain) :
    chain.source = source ∧ Threads source.table chain.steps chain.endTable := by
  cases target with
  | none =>
    unfold Resolver.resolvePath at h
    simp only [startOf, Recorded.result_bind_eq_ok_iff, Recorded.result_pure] at h
    obtain ⟨start, hstart, steps, hsteps, hchain⟩ := h
    obtain rfl : source = start := Except.ok.inj hstart
    obtain rfl := Except.ok.inj hchain
    exact ⟨rfl, threads_of_steps hsteps⟩
  | some target =>
    unfold Resolver.resolvePath at h
    simp only [startOf, Recorded.result_bind_eq_ok_iff, Recorded.result_pure] at h
    obtain ⟨start, hstart, steps, hsteps, _, -, _, -, hchain⟩ := h
    obtain rfl : source = start := Except.ok.inj hstart
    obtain rfl := Except.ok.inj hchain
    exact ⟨rfl, threads_of_steps hsteps⟩

/-- An expression that resolves to such a path is one. -/
theorem threads_of_resolve {expression : Source.Operation} {start : TableAlias}
    (h : (r.resolve (some source) expression).result = .ok (.join start steps none)) :
    start = source ∧ Threads source.table steps (stepsEnd source.table steps) := by
  cases expression with
  | column reference =>
    unfold Resolver.resolve at h
    obtain ⟨_, -, h⟩ := Recorded.result_bind_eq_ok_iff.1 h
    cases h
  | targetColumn column =>
    unfold Resolver.resolve at h
    split at h
    · obtain ⟨_, -, h⟩ := Recorded.result_bind_eq_ok_iff.1 h
      cases h
    · exact absurd h (found_ne_ok _ _ _)
  | literal value =>
    unfold Resolver.resolve at h
    cases h
  | function name arguments =>
    unfold Resolver.resolve at h
    obtain ⟨_, -, h⟩ := Recorded.result_bind_eq_ok_iff.1 h
    cases h
  | joinPath joins target =>
    unfold Resolver.resolve at h
    obtain ⟨chain, hchain, hjoin⟩ := Recorded.result_bind_eq_ok_iff.1 h
    obtain ⟨rfl, rfl, htarget⟩ := Operation.join.inj (Except.ok.inj hjoin)
    cases target with
    | none =>
      obtain ⟨hsource, hthreads⟩ := threads_of_resolvePath hchain
      rw [JoinChain.endTable, hsource] at hthreads
      exact ⟨hsource, hthreads⟩
    | some target =>
      -- something is evaluated at the end of this path
      unfold Resolver.resolvePath at hchain
      simp only [Recorded.result_bind_eq_ok_iff, Recorded.result_pure] at hchain
      obtain ⟨_, -, _, -, _, -, _, -, hchain⟩ := hchain
      obtain rfl := Except.ok.inj hchain
      cases htarget

end Resolver

end ObjectRelational
