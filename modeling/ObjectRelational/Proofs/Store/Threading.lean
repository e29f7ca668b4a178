import ObjectRelational.Proofs.Store.Path
import ObjectRelational.Proofs.Store.Representation

/-!
# Walking along joins

Joins are gone along forward, when they are resolved from the table where a path starts, and backward, when
that table is inferred from the expression at the end. Both walks go from one side of each join to the
other, so that each of them undoes the other one.

* `Join.otherSide?_comm`: a join leads back to where it was entered. `Join.Connects`: what leading from one
  table to another comes to in a store that is built.
* `Resolver.steps_of_leadsAlong`, `Resolver.exists_leadsAlong_of_steps`: joins are resolved exactly along the
  tables that they lead to. `Store.exists_steps_iff`, `Store.steps_connect`: in a store that is built these
  are the tables that they connect.
* `Resolver.steps_walkBack`: joins that are gone back along are resolved, and visit the same tables.
  `Resolver.walks_agree`: so are those of a path whose source is inferred.
-/

namespace ObjectRelational

/-! ## Sides of joins -/

/-- A join leads back to the table that it was entered from. -/
theorem Join.otherSide?_comm {j : Join} {a b : TableId} :
    j.otherSide? a = some b ↔ j.otherSide? b = some a := by
  have hback : ∀ a b : TableId, j.otherSide? a = some b → j.otherSide? b = some a := by
    intro a b h
    unfold otherSide? at h ⊢
    cases hself : j.selfJoin with
    | true =>
      rw [hself, if_pos rfl] at h
      obtain ⟨hmem, hsame⟩ := Option.ite_none_right_eq_some.1 h
      obtain rfl := Option.some.inj hsame
      exact (if_pos rfl).trans (if_pos hmem)
    | false =>
      rw [hself, if_neg Bool.false_ne_true] at h
      rw [if_neg Bool.false_ne_true]
      split at h
      · rename_i first second _
        split at h
        · rename_i hfirst
          obtain rfl := Option.some.inj h
          by_cases hboth : first = second
          · exact (if_pos hboth).trans (congrArg some (hboth.symm.trans hfirst))
          · exact (if_neg hboth).trans ((if_pos rfl).trans (congrArg some hfirst))
        · obtain ⟨hsecond, hsame⟩ := Option.ite_none_right_eq_some.1 h
          obtain rfl := Option.some.inj hsame
          exact (if_pos rfl).trans (congrArg some hsecond)
      · cases h
  exact ⟨hback a b, hback b a⟩

/-- The join leads from the one table to the other. A self join stays on the only table that it has; any
other join has exactly the two tables, which are distinct. -/
structure Join.Connects (j : Join) (a b : TableId) : Prop where
  sides : j.Sides a b
  distinct : j.selfJoin = false → a ≠ b

/-- Where a join leads is decided by the tables that it is about. -/
theorem Join.otherSide?_eq_some_iff {j : Join} {a b : TableId}
    (hlength : j.tables.length = if j.selfJoin then 1 else 2) (hnodup : j.tables.Nodup) :
    j.otherSide? a = some b ↔ j.Connects a b := by
  constructor
  · intro h
    have hsides := sides_of_otherSide? hlength h
    refine ⟨hsides, fun hself => ?_⟩
    rw [Sides, hself, if_neg Bool.false_ne_true] at hsides
    rintro rfl
    rcases hsides with htables | htables <;> simp [htables] at hnodup
  · rintro ⟨hsides, hdistinct⟩
    unfold Sides at hsides
    unfold otherSide?
    cases hself : j.selfJoin with
    | true =>
      rw [hself, if_pos rfl] at hsides
      obtain ⟨htables, rfl⟩ := hsides
      simp [contains, htables]
    | false =>
      rw [hself, if_neg Bool.false_ne_true] at hsides
      have hne := hdistinct hself
      rcases hsides with htables | htables <;> simp [htables, hne.symm]

namespace Resolver

variable {r : Resolver} {cursor : TableId} {joins : List Source.JoinReference}
  {steps : List JoinStep}

/-! ## The walk forward -/

/-- The database that an element is addressed in is resolved when it is found. -/
theorem exists_addressed {marker : Option Name} {database : DatabaseId}
    (h : r.lookupAddressed marker = .ok database) :
    ∃ id, (r.addressed marker).result = .ok id := by
  unfold addressed
  rw [Recorded.result_bind h]
  cases marker <;> exact ⟨database, rfl⟩

/-- The first join has to be found and to lead on, and the others are threaded from where it leads. -/
theorem steps_cons_eq_ok_iff {reference : Source.JoinReference} :
    (r.steps cursor (reference :: joins)).result = .ok steps ↔
      ∃ id join database next following, r.lookupJoin reference = .ok (id, join, database) ∧
        join.otherSide? cursor = some next ∧ (r.steps next joins).result = .ok following ∧
        steps = r.stepAlong reference id join database cursor next :: following := by
  constructor
  · intro h
    unfold Resolver.steps at h
    simp only [Recorded.result_bind_eq_ok_iff] at h
    obtain ⟨⟨id, join, database⟩, hjoin, _, -, _, -, hrest⟩ := h
    split at hrest
    · exact absurd hrest (found_ne_ok _ _ _)
    · rename_i next hnext
      obtain ⟨following, hfollowing, hsteps⟩ := Recorded.result_bind_eq_ok_iff.1 hrest
      exact ⟨id, join, database, next, following, hjoin, hnext, hfollowing,
        (Except.ok.inj hsteps).symm⟩
  · rintro ⟨id, join, database, next, following, hjoin, hnext, hfollowing, rfl⟩
    obtain ⟨addressed, haddressed⟩ := exists_addressed (lookupJoin_eq_ok_iff.1 hjoin).1
    have hlifted : (monadLift (r.lookupJoin reference) :
        Recorded (JoinId × Join × DatabaseId)).result = .ok (id, join, database) := hjoin
    unfold Resolver.steps
    rw [Recorded.result_bind hlifted, Recorded.result_bind haddressed,
      Recorded.result_bind (Recorded.result_record _ _)]
    rw [hnext]
    exact Recorded.result_bind hfollowing

theorem length_of_steps (h : (r.steps cursor joins).result = .ok steps) :
    steps.length = joins.length := by
  induction joins generalizing cursor steps with
  | nil =>
    obtain rfl := Except.ok.inj h
    rfl
  | cons reference rest ih =>
    obtain ⟨id, join, database, next, following, -, -, hfollowing, rfl⟩ := steps_cons_eq_ok_iff.1 h
    rw [List.length_cons, List.length_cons, ih hfollowing]

/-- Every join is found, and leads from one of the tables to the next one. -/
def LeadsAlong (r : Resolver) (joins : List Source.JoinReference) (tables : Nat → TableId) : Prop :=
  ∀ i reference, joins[i]? = some reference → ∃ id join database,
    r.lookupJoin reference = .ok (id, join, database) ∧
      join.otherSide? (tables i) = some (tables (i + 1))

/-- Whatever joins are found connect each of the tables with the next one. -/
def ConnectsAlong (r : Resolver) (joins : List Source.JoinReference) (tables : Nat → TableId) : Prop :=
  ∀ i reference id join database, joins[i]? = some reference →
    r.lookupJoin reference = .ok (id, join, database) → join.Connects (tables i) (tables (i + 1))

theorem leadsAlong_cons_iff {reference : Source.JoinReference} {tables : Nat → TableId} :
    r.LeadsAlong (reference :: joins) tables ↔
      (∃ id join database, r.lookupJoin reference = .ok (id, join, database) ∧
        join.otherSide? (tables 0) = some (tables 1)) ∧
      r.LeadsAlong joins fun i => tables (i + 1) := by
  constructor
  · intro h
    exact ⟨h 0 reference rfl, fun i other hother => h (i + 1) other hother⟩
  · rintro ⟨hfirst, hrest⟩ (_ | i) other hother
    · obtain rfl := Option.some.inj hother
      exact hfirst
    · exact hrest i other hother

/-- Joins that are threaded lead on from the table where they start. -/
theorem exists_leadsAlong_of_steps (h : (r.steps cursor joins).result = .ok steps) :
    ∃ tables : Nat → TableId, tables 0 = cursor ∧ r.LeadsAlong joins tables := by
  induction joins generalizing cursor steps with
  | nil => exact ⟨fun _ => cursor, rfl, by simp [LeadsAlong]⟩
  | cons reference rest ih =>
    obtain ⟨id, join, database, next, following, hjoin, hnext, hfollowing, -⟩ :=
      steps_cons_eq_ok_iff.1 h
    obtain ⟨tables, rfl, hrest⟩ := ih hfollowing
    exact ⟨fun i => i.casesOn cursor tables, rfl,
      leadsAlong_cons_iff.2 ⟨⟨id, join, database, hjoin, hnext⟩, hrest⟩⟩

/-- Joins that lead on along tables are threaded, and each step goes from one of the tables to the
next. -/
theorem steps_of_leadsAlong {tables : Nat → TableId} (h : r.LeadsAlong joins tables) :
    ∃ steps, (r.steps (tables 0) joins).result = .ok steps ∧
      ∀ i reference id join database, joins[i]? = some reference →
        r.lookupJoin reference = .ok (id, join, database) →
          steps[i]? = some (r.stepAlong reference id join database (tables i) (tables (i + 1))) := by
  induction joins generalizing tables with
  | nil => exact ⟨[], rfl, by simp⟩
  | cons reference rest ih =>
    obtain ⟨⟨id, join, database, hjoin, hnext⟩, hrest⟩ := leadsAlong_cons_iff.1 h
    obtain ⟨following, hfollowing, hsteps⟩ := ih hrest
    refine ⟨_, steps_cons_eq_ok_iff.2 ⟨id, join, database, tables 1, following, hjoin, hnext,
      hfollowing, rfl⟩, ?_⟩
    rintro (_ | i) other id' join' database' hother hjoin'
    · obtain rfl := Option.some.inj hother
      obtain ⟨rfl, rfl, rfl⟩ : id = id' ∧ join = join' ∧ database = database' := by
        simpa using hjoin.symm.trans hjoin'
      rfl
    · exact hsteps i other id' join' database' hother hjoin'

/-! ## The walk backward -/

theorem walkBack_append (cursor : TableId) (front back : List Source.JoinReference) :
    r.walkBack cursor (front ++ back) = r.walkBack cursor front >>= fun c => r.walkBack c back := by
  induction front generalizing cursor with
  | nil => rfl
  | cons reference rest ih =>
    rw [List.cons_append, walkBack, walkBack, bind_assoc]
    refine bind_congr fun found => ?_
    dsimp only
    split
    · exact ih _
    · rfl

/-- Going back along one join comes to its other side. -/
theorem walkBack_singleton_eq_ok_iff {reference : Source.JoinReference} {before : TableId} :
    r.walkBack cursor [reference] = .ok before ↔ ∃ id join database,
      r.lookupJoin reference = .ok (id, join, database) ∧ join.otherSide? before = some cursor := by
  unfold walkBack
  rw [bind_eq_ok_iff]
  constructor
  · rintro ⟨⟨id, join, database⟩, hjoin, h⟩
    refine ⟨id, join, database, hjoin, ?_⟩
    dsimp only at h
    split at h
    · rename_i side hside
      obtain rfl := Except.ok.inj h
      exact Join.otherSide?_comm.1 hside
    · exact absurd h (found_ne_ok _ _ _)
  · rintro ⟨id, join, database, hjoin, hside⟩
    refine ⟨(id, join, database), hjoin, ?_⟩
    dsimp only
    rw [Join.otherSide?_comm.1 hside]
    rfl

/-- When going back along joins from their end comes to a table, they are threaded from there to the end.
After each step one is on the table that going back along the others comes to. -/
theorem steps_walkBack {last first : TableId} (h : r.walkBack last joins.reverse = .ok first) :
    ∃ steps, (r.steps first joins).result = .ok steps ∧ ∀ i ≤ joins.length,
      r.walkBack last (joins.drop i).reverse = .ok (stepsEnd first (steps.take i)) := by
  -- the first join is the last one that is gone back along, so that it comes off at the end of the walk
  induction joins generalizing first with
  | nil =>
    obtain rfl := Except.ok.inj h
    refine ⟨[], rfl, fun i _ => ?_⟩
    rw [List.drop_nil, List.take_nil]
    rfl
  | cons reference rest ih =>
    rw [List.reverse_cons, walkBack_append] at h
    obtain ⟨next, hnext, hfirst⟩ := bind_eq_ok_iff.1 h
    obtain ⟨id, join, database, hjoin, hside⟩ := walkBack_singleton_eq_ok_iff.1 hfirst
    obtain ⟨following, hfollowing, hvisits⟩ := ih hnext
    refine ⟨_, steps_cons_eq_ok_iff.2 ⟨id, join, database, next, following, hjoin, hside, hfollowing,
      rfl⟩, ?_⟩
    rintro (_ | i) hi
    · rw [List.drop_zero, List.reverse_cons, walkBack_append]
      exact h
    · rw [List.drop_succ_cons, List.take_succ_cons, stepsEnd_cons]
      exact hvisits i (Nat.le_of_succ_le_succ hi)

/-- A source that is inferred comes from walking back from the first table that the expression at the end
starts from. -/
theorem exists_walkBack_of_inferSource {target : Source.Operation} {source : TableAlias}
    (h : r.inferSource ⟨joins, some target⟩ = .ok (some source)) :
    ∃ terminal others, r.inferRoots target = .ok (terminal :: others) ∧
      r.walkBack terminal.table joins.reverse = .ok source.table := by
  unfold inferSource sourceOfPath at h
  obtain ⟨found, hfound, h⟩ := bind_eq_ok_iff.1 h
  unfold inferRoots
  rw [hfound]
  cases found with
  | nil => cases h
  | cons terminal rest =>
    rw [List.head?_cons, sourceFromEnd] at h
    obtain ⟨first, hfirst, h⟩ := bind_eq_ok_iff.1 h
    have hsame : first = source.table := by
      cases joins
      all_goals
        obtain ⟨database, -, h⟩ := bind_eq_ok_iff.1 h
        obtain rfl := Option.some.inj (pure_eq_ok_iff.1 h)
        rfl
    exact ⟨terminal, _, congrArg Except.ok List.eraseDups_cons, hsame ▸ hfirst⟩

/-- Going forward from a source that is inferred succeeds. After each step one is on the table that going
back from the end along the other joins comes to, and after all of them on the first table that the
expression at the end starts from. -/
theorem walks_agree {target : Source.Operation} {source : TableAlias}
    (h : r.inferSource ⟨joins, some target⟩ = .ok (some source)) :
    ∃ terminal others steps, r.inferRoots target = .ok (terminal :: others) ∧
      (r.steps source.table joins).result = .ok steps ∧
      (∀ i ≤ joins.length, r.walkBack terminal.table (joins.drop i).reverse =
        .ok (stepsEnd source.table (steps.take i))) ∧
      stepsEnd source.table steps = terminal.table ∧
      (joins = [] → terminal.table = source.table) := by
  obtain ⟨terminal, others, hroots, hback⟩ := exists_walkBack_of_inferSource h
  obtain ⟨steps, hsteps, hvisits⟩ := steps_walkBack hback
  have hend : stepsEnd source.table steps = terminal.table := by
    have hall := hvisits joins.length (Nat.le_refl _)
    rw [List.drop_length, ← length_of_steps hsteps, List.take_length] at hall
    exact (Except.ok.inj hall).symm
  refine ⟨terminal, others, steps, hroots, hsteps, hvisits, hend, ?_⟩
  rintro rfl
  exact Except.ok.inj hback

/-- From a person to the manager, and on to the firm that employs the manager. -/
def managersFirm : Source.JoinPath where
  joins := [{ name := ⟨"manager", {}⟩ }, { name := ⟨"employer", {}⟩ }]
  target := some (Store.exampleColumn "FIRM" "ID")

/-- What comes of a store can be decided without the store at hand. -/
theorem exists_of_bind_toOption {settings : ResolutionSettings} {sources : List Source.Database}
    {α : Type} {f : Store → Resolved α} {a : α}
    (h : ((Store.build settings sources).toOption.bind fun s => (f s).toOption) = some a) :
    ∃ s, Store.build settings sources = .ok s ∧ f s = .ok a := by
  cases hbuild : Store.build settings sources with
  | error failure => simp [hbuild, Except.toOption] at h
  | ok s =>
    refine ⟨s, rfl, ?_⟩
    rw [hbuild] at h
    cases hs : f s with
    | error failure => simp [hs, Except.toOption] at h
    | ok b => exact congrArg Except.ok (by simpa [hs, Except.toOption] using h)

/-- The way to the firm of the manager resolves. -/
theorem exists_chain_of_managers :
    ∃ s chain, Store.build {} [Store.employeeTables] = .ok s ∧
      ((s.resolverIn "default" ⟨0⟩).joinPath none managersFirm).result = .ok chain ∧
      chain.source.table = ⟨0⟩ := by
  obtain ⟨s, hbuild, haccepted⟩ : ∃ s, Store.build {} [Store.employeeTables] = .ok s ∧
      (((s.resolverIn "default" ⟨0⟩).joinPath none managersFirm).result.map
        fun chain => chain.source.table) = .ok ⟨0⟩ :=
    exists_of_bind_toOption (by decide +kernel)
  obtain ⟨chain, hchain, hstart⟩ := map_eq_ok_iff.1 haccepted
  exact ⟨s, chain, hbuild, hchain, hstart⟩

/-- The way to the firm of the manager starts from a person, who is found again behind the self join. -/
theorem walks_agree_of_managers :
    ∃ s, Store.build {} [Store.employeeTables] = .ok s ∧ ∃ terminal others steps,
      (s.resolverIn "default" ⟨0⟩).inferRoots (Store.exampleColumn "FIRM" "ID") =
        .ok (terminal :: others) ∧
      ((s.resolverIn "default" ⟨0⟩).steps ⟨0⟩ managersFirm.joins).result = .ok steps ∧
      stepsEnd ⟨0⟩ steps = terminal.table := by
  obtain ⟨s, hbuild, hsource⟩ : ∃ s, Store.build {} [Store.employeeTables] = .ok s ∧
      (s.resolverIn "default" ⟨0⟩).inferSource managersFirm = .ok (some ⟨"PERSON", ⟨0⟩, ⟨0⟩⟩) :=
    exists_of_bind_toOption (by decide +kernel)
  obtain ⟨terminal, others, steps, hroots, hsteps, -, hend, -⟩ := walks_agree hsource
  exact ⟨s, hbuild, terminal, others, steps, hroots, hsteps, hend⟩

end Resolver

/-! ## Walks in a store that is built -/

namespace Store

variable {s : Store} {r : Resolver} {joins : List Source.JoinReference}

/-- In a store that is built joins lead on along tables if they are all found and connect them. -/
theorem leadsAlong_iff {settings : ResolutionSettings} {sources : List Source.Database}
    (hbuild : build settings sources = .ok s) (hr : r.store = s) {tables : Nat → TableId} :
    r.LeadsAlong joins tables ↔
      (∀ reference ∈ joins, ∃ id join database, r.lookupJoin reference = .ok (id, join, database)) ∧
        r.ConnectsAlong joins tables := by
  have hside : ∀ {reference id join database}, r.lookupJoin reference = .ok (id, join, database) →
      ∀ a b, join.otherSide? a = some b ↔ join.Connects a b := by
    intro reference id join database hjoin a b
    have hfound := (Resolver.lookupJoin_eq_ok_iff.1 hjoin).2.2
    obtain ⟨d, -, hof⟩ := exists_of_mem_right (represents_of_build hbuild).joins
      (hasJoin_of_join? (hr ▸ hfound)).2
    exact Join.otherSide?_eq_some_iff hof.length hof.tables.nodup
  constructor
  · intro h
    refine ⟨fun reference hreference => ?_, fun i reference id join database hi hjoin => ?_⟩
    · obtain ⟨i, hi⟩ := List.mem_iff_getElem?.1 hreference
      obtain ⟨id, join, database, hjoin, -⟩ := h i reference hi
      exact ⟨id, join, database, hjoin⟩
    · obtain ⟨id', join', database', hjoin', hleads⟩ := h i reference hi
      obtain ⟨rfl, rfl, rfl⟩ : id' = id ∧ join' = join ∧ database' = database := by
        simpa using hjoin'.symm.trans hjoin
      exact (hside hjoin _ _).1 hleads
  · rintro ⟨hfound, hconnects⟩ i reference hi
    obtain ⟨id, join, database, hjoin⟩ := hfound reference (List.mem_of_getElem? hi)
    exact ⟨id, join, database, hjoin,
      (hside hjoin _ _).2 (hconnects i reference id join database hi hjoin)⟩

/-- Joins are threaded from a table exactly if all of them are found and connect tables one after the other,
from that table on. -/
theorem exists_steps_iff {settings : ResolutionSettings} {sources : List Source.Database}
    (hbuild : build settings sources = .ok s) (hr : r.store = s) {cursor : TableId} :
    (∃ steps, (r.steps cursor joins).result = .ok steps) ↔
      (∀ reference ∈ joins, ∃ id join database, r.lookupJoin reference = .ok (id, join, database)) ∧
      ∃ tables : Nat → TableId, tables 0 = cursor ∧ r.ConnectsAlong joins tables := by
  constructor
  · rintro ⟨steps, hsteps⟩
    obtain ⟨tables, hstart, halong⟩ := Resolver.exists_leadsAlong_of_steps hsteps
    obtain ⟨hfound, hconnects⟩ := (leadsAlong_iff hbuild hr).1 halong
    exact ⟨hfound, tables, hstart, hconnects⟩
  · rintro ⟨hfound, tables, rfl, hconnects⟩
    obtain ⟨steps, hsteps, -⟩ :=
      Resolver.steps_of_leadsAlong ((leadsAlong_iff hbuild hr).2 ⟨hfound, hconnects⟩)
    exact ⟨steps, hsteps⟩

/-- Whatever tables the joins connect, the steps go along them. -/
theorem steps_connect {settings : ResolutionSettings} {sources : List Source.Database}
    (hbuild : build settings sources = .ok s) (hr : r.store = s) {tables : Nat → TableId}
    {steps : List JoinStep} (hsteps : (r.steps (tables 0) joins).result = .ok steps)
    (hconnects : r.ConnectsAlong joins tables) :
    ∀ i reference id join database, joins[i]? = some reference →
      r.lookupJoin reference = .ok (id, join, database) →
        steps[i]? = some (r.stepAlong reference id join database (tables i) (tables (i + 1))) := by
  have hfound := ((exists_steps_iff hbuild hr).1 ⟨steps, hsteps⟩).1
  obtain ⟨others, hothers, hall⟩ :=
    Resolver.steps_of_leadsAlong ((leadsAlong_iff hbuild hr).2 ⟨hfound, hconnects⟩)
  -- the same joins from the same table
  obtain rfl : others = steps := Except.ok.inj (hothers.symm.trans hsteps)
  exact hall

end Store

end ObjectRelational
