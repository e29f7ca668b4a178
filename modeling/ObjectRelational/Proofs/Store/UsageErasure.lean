import ObjectRelational.Proofs.Recorded
import ObjectRelational.Store.Build

/-!
# Stores without usages

The usages of a store are written when it is built, and nothing that looks into the store reads them.

* `Recorded.feed`: what a resolution records, handed to a sink one usage after the other.
  `Recorded.feed_bind`: this is the same as handing the sink through all steps.
  `Recorded.keptUsages_eq_feed`: a sink that records, or one that drops everything.
* `Store.withoutUsages` is the store with nothing recorded, `Resolver.withoutUsages` a resolver over it.
* `Resolver.resolve_withoutUsages`: such a resolver resolves the same and records the same.
* `Store.build_silent`: the store that is built when usages are not asked for.
-/

namespace ObjectRelational

/-! ## Sinks -/

namespace Recorded

variable {α β σ : Type}

/-- Hands the usages of a resolution to a sink, in the order in which they are recorded. -/
def feed (write : σ → Usage → σ) (sink : σ) (x : Recorded α) : σ := x.usages.foldl write sink

/-- The sink goes through the first step, and from there through the second one. -/
theorem feed_bind (write : σ → Usage → σ) (sink : σ) {x : Recorded α} {f : α → Recorded β} {a : α}
    (h : x.result = .ok a) : (x >>= f).feed write sink = (f a).feed write (x.feed write sink) := by
  unfold feed
  rw [usages_bind h, List.foldl_append]

/-- A step that fails is the last one to write. -/
theorem feed_bind_of_error (write : σ → Usage → σ) (sink : σ) {x : Recorded α} {f : α → Recorded β}
    {failure : Failure} (h : x.result = .error failure) :
    (x >>= f).feed write sink = x.feed write sink := by
  rcases x with ⟨usages, _ | a⟩
  · rfl
  · cases h

/-- The usages that are kept are what is in a sink at the end: one that records, or one that drops
everything. -/
theorem keptUsages_eq_feed (settings : ResolutionSettings) (x : Recorded α) :
    Store.keptUsages settings x.usages =
      x.feed (if settings.recordUsages then Usages.record else fun sink _ => sink) .empty := by
  have hdropped : ∀ (l : List Usage) (sink : Usages), l.foldl (fun sink _ => sink) sink = sink := by
    intro l sink
    induction l with
    | nil => rfl
    | cons _ rest ih => exact ih
  unfold Store.keptUsages feed
  split
  · rfl
  · rw [hdropped]

end Recorded

/-! ## Stores -/

/-- The store with nothing recorded. -/
def Store.withoutUsages (store : Store) : Store := { store with usages := .empty }

@[simp] theorem Store.withoutUsages_usages (store : Store) :
    store.withoutUsages.usages = .empty := by
  rfl

/-- Settings that do not ask for usages. -/
def ResolutionSettings.silent (settings : ResolutionSettings) : ResolutionSettings :=
  { settings with recordUsages := false }

/-- Without being asked for, usages are not kept; all else of the store is the same, and so are the
failures. -/
theorem Store.build_silent (settings : ResolutionSettings) (sources : List Source.Database) :
    Store.build settings.silent sources = Store.withoutUsages <$> Store.build settings sources := by
  have hdefault : settings.silent.defaultSchema = settings.defaultSchema := rfl
  unfold Store.build
  simp only [hdefault]
  cases (Store.assemble settings.defaultSchema sources).result with
  | error failure => rfl
  | ok store => rfl

/-! ## Resolvers -/

namespace Resolver

variable {r : Resolver}

/-- The resolver over a store with nothing recorded. -/
def withoutUsages (r : Resolver) : Resolver := { r with store := r.store.withoutUsages }

/-! ### Lookups -/

theorem lookupTable_withoutUsages (database schema : Option Name) (table : Name) :
    r.withoutUsages.lookupTable database schema table = r.lookupTable database schema table := by
  rfl

theorem lookupJoin_withoutUsages (reference : Source.JoinReference) :
    r.withoutUsages.lookupJoin reference = r.lookupJoin reference := by
  rfl

theorem walkBack_withoutUsages (cursor : TableId) (joins : List Source.JoinReference) :
    r.withoutUsages.walkBack cursor joins = r.walkBack cursor joins := by
  induction joins generalizing cursor with
  | nil => rfl
  | cons reference rest ih =>
    simp only [walkBack, lookupJoin_withoutUsages, ih]
    rfl

theorem sourceFromEnd_withoutUsages (joins : List Source.JoinReference)
    (terminal : Option TableAlias) :
    r.withoutUsages.sourceFromEnd joins terminal = r.sourceFromEnd joins terminal := by
  cases terminal with
  | none => rfl
  | some terminal =>
    simp only [sourceFromEnd, walkBack_withoutUsages]
    rfl

mutual

theorem sources_withoutUsages (r : Resolver) : ∀ operation : Source.Operation,
    r.withoutUsages.sources operation = r.sources operation
  | .column reference => by simp only [sources, lookupTable_withoutUsages]
  | .joinPath joins target => by simp only [sources, sourceOfPath_withoutUsages r joins target]
  | .function name arguments => by simp only [sources, sourcesOfAll_withoutUsages r arguments]
  | .targetColumn _ => rfl
  | .literal _ => rfl

theorem sourceOfPath_withoutUsages (r : Resolver) (joins : List Source.JoinReference) :
    ∀ target : Option Source.Operation,
      r.withoutUsages.sourceOfPath joins target = r.sourceOfPath joins target
  | none => rfl
  | some target => by
    simp only [sourceOfPath, sources_withoutUsages r target, sourceFromEnd_withoutUsages]

theorem sourcesOfAll_withoutUsages (r : Resolver) : ∀ operations : List Source.Operation,
    r.withoutUsages.sourcesOfAll operations = r.sourcesOfAll operations
  | [] => rfl
  | argument :: rest => by
    simp only [sourcesOfAll, sources_withoutUsages r argument, sourcesOfAll_withoutUsages r rest]

end

theorem inferRoots_withoutUsages (operation : Source.Operation) :
    r.withoutUsages.inferRoots operation = r.inferRoots operation := by
  simp only [inferRoots, sources_withoutUsages]

/-! ### Resolving -/

theorem table_withoutUsages (database schema : Option Name) (table : Name) :
    r.withoutUsages.table database schema table = r.table database schema table := by
  rfl

theorem steps_withoutUsages (cursor : TableId) (joins : List Source.JoinReference) :
    r.withoutUsages.steps cursor joins = r.steps cursor joins := by
  induction joins generalizing cursor with
  | nil => rfl
  | cons reference rest ih =>
    simp only [steps, lookupJoin_withoutUsages, ih]
    rfl

theorem startOf_withoutUsages (path : Source.JoinPath) (source : Option TableAlias) :
    r.withoutUsages.startOf path source = r.startOf path source := by
  cases source with
  | some source => rfl
  | none => simp only [startOf, inferSource, sourceOfPath_withoutUsages]

mutual

/-- What is recorded does not change what an expression is resolved to. -/
theorem resolve_withoutUsages (r : Resolver) (source : Option TableAlias) :
    ∀ operation : Source.Operation,
      r.withoutUsages.resolve source operation = r.resolve source operation
  | .column reference => by
    simp only [resolve, column, table_withoutUsages]
    rfl
  | .targetColumn column => by
    simp only [resolve]
    rfl
  | .joinPath joins target => by simp only [resolve, resolvePath_withoutUsages r source joins target]
  | .literal _ => by simp only [resolve]
  | .function name arguments => by simp only [resolve, resolveAll_withoutUsages r source arguments]

theorem resolvePath_withoutUsages (r : Resolver) (source : Option TableAlias)
    (joins : List Source.JoinReference) : ∀ target : Option Source.Operation,
      r.withoutUsages.resolvePath source joins target = r.resolvePath source joins target
  | none => by simp only [resolvePath, startOf_withoutUsages, steps_withoutUsages]
  | some target => by
    have htarget := fun reached => resolve_withoutUsages r (some reached) target
    simp only [resolvePath, startOf_withoutUsages, steps_withoutUsages, htarget]
    rfl

theorem resolveAll_withoutUsages (r : Resolver) (source : Option TableAlias) :
    ∀ operations : List Source.Operation,
      r.withoutUsages.resolveAll source operations = r.resolveAll source operations
  | [] => by simp only [resolveAll]
  | argument :: rest => by
    simp only [resolveAll, resolve_withoutUsages r source argument,
      resolveAll_withoutUsages r source rest]

end

theorem joinPath_withoutUsages (source : Option TableAlias) (path : Source.JoinPath) :
    r.withoutUsages.joinPath source path = r.joinPath source path :=
  resolvePath_withoutUsages r source path.joins path.target

theorem filter_withoutUsages (source : Option TableAlias) (reference : Source.FilterReference) :
    r.withoutUsages.filter source reference = r.filter source reference := by
  have hjoins : r.withoutUsages.filterJoins source reference.joins =
      r.filterJoins source reference.joins := by
    cases reference.joins with
    | nil => rfl
    | cons first rest =>
      cases source with
      | none => rfl
      | some source => simp only [filterJoins, steps_withoutUsages]
  simp only [filter, hjoins]
  rfl

theorem filter?_withoutUsages (main : TableAlias) (reference : Option Source.FilterReference) :
    r.withoutUsages.filter? main reference = r.filter? main reference := by
  cases reference with
  | none => rfl
  | some reference => simp only [filter?, filter_withoutUsages]

end Resolver

end ObjectRelational
