import ObjectRelational.Proofs.Workspace.Derivation

/-!
# Edits are local

Editing one unit changes nothing about the units that do not include it, directly or not: they keep
their very states, and fail as they failed before.

* `Apart` are the units whose includes do not lead to the one that is edited.
* `Compilation.Edited`: a compilation behind another one, with one unit edited in between.
* `Compilation.Edited.validate_eq`: the checks of the graph do not look at the edited unit.
* `Compilation.same_of_apart`: nor does anything else.
-/

namespace ObjectRelational

open Fingerprint

/-- No path of includes leads from one unit to another. -/
def Apart (sources : OrderedMap String Source.Mapping) (a b : String) : Prop :=
  ¬ Relation.ReflTransGen (Includes sources) a b

namespace Apart

variable {sources sources' : OrderedMap String Source.Mapping} {a b x : String}

theorem ne (h : Apart sources a x) : a ≠ x := by
  rintro rfl
  exact h .refl

/-- What is apart includes only what is apart. -/
theorem of_includes (h : Apart sources a x) (hab : Includes sources a b) : Apart sources b x :=
  fun hbx => h (.head hab hbx)

/-- A path to the unit at which sources differ only passes units at which they agree. -/
theorem path_of_agree (hagree : ∀ name, name ≠ x → sources'.find? name = sources.find? name)
    (h : Relation.ReflTransGen (Includes sources') a x) :
    Relation.ReflTransGen (Includes sources) a x := by
  induction h using Relation.ReflTransGen.head_induction_on with
  | refl => exact .refl
  | @head c d hcd _ ih =>
    by_cases hc : c = x
    · exact hc ▸ .refl
    · rcases hcd with ⟨source, hsource, hd⟩
      rw [hagree c hc] at hsource
      exact .head ⟨source, hsource, hd⟩ ih

/-- Sources that differ at one unit have the same units apart from it. -/
theorem of_agree (hagree : ∀ name, name ≠ x → sources'.find? name = sources.find? name)
    (h : Apart sources' a x) : Apart sources a x :=
  fun hpath => h (path_of_agree (fun name hname => (hagree name hname).symm) hpath)

end Apart

namespace Compilation

/-- A compilation behind another one, with one unit edited in between: it has the same store, and finds
the states that the other one left. -/
structure Edited (c c' : Compilation) (x : String) : Prop where
  environment : c'.environment = c.environment
  built : c'.built = c.built
  keeps : c'.keepsStore = true
  previous : c'.previous.units = c.run.entries
  sources : ∀ name, name ≠ x → c'.sources.find? name = c.sources.find? name

variable {c c' : Compilation} {x name : String} {source : Source.Mapping}
  {messages : List (List UInt8)} {databases : List Source.Database}

/-! ## The checks of the graph -/

theorem apart_of_target (h : Apart c.sources name x) (hsource : c.sources.find? name = some source)
    {target : String} (htarget : target ∈ source.targets) : Apart c.sources target x :=
  h.of_includes ⟨source, hsource, htarget⟩

theorem Edited.mem_names_iff (he : c.Edited c' x) (hc : c.Regular) (hc' : c'.Regular)
    (h : Apart c.sources name x) : name ∈ c'.graph.names ↔ name ∈ c.graph.names := by
  rw [hc.mem_names_iff, hc'.mem_names_iff, he.sources name h.ne]

/-- Apart from the edited unit the graphs are the same. -/
theorem Edited.inOrder_eq (he : c.Edited c' x) (hc : c.Regular) (hc' : c'.Regular)
    (h : Apart c.sources name x) (hname : name ∈ c.graph.names) :
    c'.graph.inOrder name = c.graph.inOrder name := by
  rcases hc.mem_names_iff.1 hname with ⟨source, hsource⟩
  have hsource' : c'.sources.find? name = some source := by rw [he.sources name h.ne, hsource]
  rw [hc.inOrder_eq hsource, hc'.inOrder_eq hsource']
  apply List.filter_congr
  intro target htarget
  have hmem := he.mem_names_iff hc hc' (apart_of_target h hsource htarget)
  simp [hmem]

open Classical in
/-- A search for a cycle does not come near the edited unit. -/
theorem Edited.cycle?_eq (he : c.Edited c' x) (hc : c.Regular) (hc' : c'.Regular)
    (h : Apart c.sources name x) : c'.graph.cycle? name = c.graph.cycle? name := by
  have hmem := he.mem_names_iff hc hc' h
  by_cases hname : name ∈ c.graph.names
  · have hcontains := IncludeGraph.contains_iff.2 hname
    have hcontains' := IncludeGraph.contains_iff.2 (hmem.2 hname)
    unfold IncludeGraph.cycle?
    rw [if_pos hcontains, if_pos hcontains']
    -- the nodes that the search can see: all that are apart from the edited one
    let nodes := c.graph.names.filter fun node => Apart c.sources node x
    have hnodes : ∀ {node}, node ∈ nodes ↔ node ∈ c.graph.names ∧ Apart c.sources node x := by
      intro node
      simp [nodes]
    have hclosed : Graph.Closed c.graph.inOrder nodes := by
      intro node hnode child hchild
      rcases hnodes.1 hnode with ⟨hnode, hapart⟩
      rcases hc.mem_names_iff.1 hnode with ⟨source, hsource⟩
      rcases (hc.mem_inOrder_iff hsource).1 hchild with ⟨htarget, hchild⟩
      exact hnodes.2 ⟨hchild, apart_of_target hapart hsource htarget⟩
    have hagree : ∀ node ∈ nodes, c.graph.inOrder node = c'.graph.inOrder node := by
      intro node hnode
      rcases hnodes.1 hnode with ⟨hnode, hapart⟩
      exact (he.inOrder_eq hc hc' hapart hnode).symm
    have hnodup : nodes.Nodup := by
      apply List.Nodup.filter
      rw [hc.graph_eq]
      exact IncludeGraph.names_ofUnits_nodup _
    have hsubset : nodes ⊆ c'.graph.names := by
      intro node hnode
      rcases hnodes.1 hnode with ⟨hnode, hapart⟩
      exact (he.mem_names_iff hc hc' hapart).2 hnode
    exact (Graph.cycleThrough?_congr hclosed hagree (hnodes.2 ⟨hname, h⟩)
      (List.length_filter_le _ _) (hnodup.subperm hsubset).length_le).symm
  · have hcontains : ¬ c.graph.contains name = true := mt IncludeGraph.contains_iff.1 hname
    have hcontains' : ¬ c'.graph.contains name = true :=
      mt IncludeGraph.contains_iff.1 (mt hmem.1 hname)
    unfold IncludeGraph.cycle?
    rw [if_neg hcontains, if_neg hcontains']

/-- The checks of the graph do not look at the edited unit. -/
theorem Edited.validate_eq (he : c.Edited c' x) (hc : c.Regular) (hc' : c'.Regular)
    (h : Apart c.sources name x) (hsource : c.sources.find? name = some source) :
    c'.graph.validate source = c.graph.validate source := by
  have hname : source.name.value = name := hc.keyed name source hsource
  have hchecks : c'.graph.checkIncludes source.name.value [] source.includes =
      c.graph.checkIncludes source.name.value [] source.includes := by
    apply IncludeGraph.checkIncludes_congr
    intro i hi
    have htarget : i.mapping.value ∈ source.targets := List.mem_map.2 ⟨i, hi, rfl⟩
    rw [Bool.eq_iff_iff, IncludeGraph.contains_iff, IncludeGraph.contains_iff]
    exact he.mem_names_iff hc hc' (apart_of_target h hsource htarget)
  unfold IncludeGraph.validate
  rw [hchecks, hname, he.cycle?_eq hc hc' h]

/-! ## States and failures -/

/-- The state and the failures of a unit. -/
def SameOf (p q : Progress) (name : String) : Prop :=
  q.entries.find? name = p.entries.find? name ∧
    ∀ failure, ⟨name, failure⟩ ∈ q.failures ↔ ⟨name, failure⟩ ∈ p.failures

theorem agreeOn_of_same {p q : Progress} {names : List String} (h : ∀ n ∈ names, SameOf p q n) :
    p.AgreeOn q names := by
  intro n hn
  rcases h n hn with ⟨hentry, hfailure⟩
  refine ⟨hentry.symm, ?_⟩
  rw [Bool.eq_iff_iff, Progress.hasFailed_iff, Progress.hasFailed_iff]
  simp only [hfailure]

/-- A unit ends as it did when its turn comes to the same end, or to the state that is found. -/
theorem same_of_compileUnit (he : c.Edited c' x) (hc : c.Regular) (hc' : c'.Regular)
    (hsource : c.sources.find? name = some source)
    (hsource' : c'.sources.find? name = some source)
    (h : c'.compileUnit c'.run source = c.compileUnit c.run source) :
    SameOf c.run c'.run name := by
  have hentry := run_find? hc hsource
  have hentry' := run_find? hc' hsource'
  refine ⟨?_, ?_⟩
  · rw [h] at hentry'
    cases hcompile : c.compileUnit c.run source with
    | ok entry =>
      rw [hcompile] at hentry hentry'
      rw [hentry, hentry']
    | error failure =>
      rw [hcompile] at hentry'
      rw [hentry', he.previous]
  · intro failure
    rw [mem_failures_run_iff hc hsource, mem_failures_run_iff hc' hsource', h]

/-- A unit that failed to resolve has no state from before with the fingerprint of now: that state would
be what it resolves to. -/
theorem unchanged?_of_failed (hmessages : NoCollision messages)
    (hground : c.Grounded messages databases) (hhashed : c.hashed ⊆ messages)
    (he : c.Edited c' x) (hc : c.Regular) (hvalid : c.graph.validate source = .ok ())
    (hblocker : blocker? c.run source = none) (hsource : c.sources.find? name = some source)
    {failure : Failure}
    (hresolve : MappingUnit.resolve c.environment c.run.unit? source = .error failure) :
    c'.unchanged? source.name.value (Fingerprint.combine (c.dependencies c.run source)) = none := by
  cases hkept : c'.unchanged? source.name.value
      (Fingerprint.combine (c.dependencies c.run source)) with
  | none => rfl
  | some entry =>
    rcases unchanged?_eq_some_iff.1 hkept with ⟨-, hfound, hprint⟩
    rw [he.previous] at hfound
    have hsound := sound_run hground hhashed
    have hderived := hsound _ entry hfound
    rw [hprint] at hderived
    -- what is hashed when the turn of the unit comes is hashed for its state at the end
    rcases List.append_of_mem (hc.mem_order_iff.2 ⟨source, hsource⟩) with ⟨done, rest, horder⟩
    have hsubset := List.Subset.trans (hashedFor_subset_hashed horder) hhashed
    have hturn := agreeOn_targets hc horder hsource hvalid
    have hclear : blocker? (c.upTo done) source = none := by rw [blocker?_congr hturn, hblocker]
    rw [hashedFor_of_clear hsource hvalid hclear, dependencies_congr hturn] at hsubset
    rw [resolve_of_derived hmessages hground hsound (hsubset (by simp)) (hsubset (by simp))
      hderived] at hresolve
    cases hresolve

/-- A unit whose includes ended as they did ends as it did itself. -/
theorem compileUnit_of_edited (hmessages : NoCollision messages)
    (hground : c.Grounded messages databases) (hhashed : c.hashed ⊆ messages)
    (he : c.Edited c' x) (hc : c.Regular) (hvalid : c.graph.validate source = .ok ())
    (hvalid' : c'.graph.validate source = .ok ()) (hsource : c.sources.find? name = some source)
    (hagree : c.run.AgreeOn c'.run source.targets) :
    c'.compileUnit c'.run source = c.compileUnit c.run source := by
  cases hblocker : blocker? c.run source with
  | some i =>
    have hblocker' : blocker? c'.run source = some i := by rw [← blocker?_congr hagree, hblocker]
    rw [compileUnit_of_blocker hvalid hblocker, compileUnit_of_blocker hvalid' hblocker']
  | none =>
    have hblocker' : blocker? c'.run source = none := by rw [← blocker?_congr hagree, hblocker]
    have hdependencies : c'.dependencies c'.run source = c.dependencies c.run source := by
      rw [dependencies_congr hagree]
      unfold dependencies
      rw [he.built]
    have hentry := run_find? hc hsource
    rw [compileUnit_of_clear hvalid hblocker] at hentry ⊢
    rw [compileUnit_of_clear hvalid' hblocker']
    cases hfresh : c.freshOrUnchanged c.run source with
    | ok entry =>
      -- the state is found with the fingerprint that it has to have
      rw [hfresh] at hentry
      apply freshOrUnchanged_of_some
      rw [hdependencies, ← fingerprint_of_freshOrUnchanged hfresh, hc.keyed name source hsource]
      exact unchanged?_eq_some_iff.2 ⟨he.keeps, by rw [he.previous, hentry], rfl⟩
    | error failure =>
      -- it failed to resolve, and fails again in the same way
      have hresolve := resolve_of_freshOrUnchanged_eq_error hfresh
      have hunchanged' := unchanged?_of_failed hmessages hground hhashed he hc hvalid hblocker
        hsource hresolve
      rw [← hdependencies] at hunchanged'
      rw [freshOrUnchanged_of_none hunchanged', he.environment,
        ← MappingUnit.resolve_congr (unit?_congr hagree), hresolve]
      rfl

/-- Units apart from the edited one end as they did. -/
theorem same_of_apart (hmessages : NoCollision messages) (hground : c.Grounded messages databases)
    (hhashed : c.hashed ⊆ messages) (he : c.Edited c' x) (hc : c.Regular) (hc' : c'.Regular)
    (h : Apart c.sources name x) (hname : ∃ source, c.sources.find? name = some source) :
    SameOf c.run c'.run name := by
  -- by induction along the order of the first compilation, in which includes come first
  rcases List.append_of_mem (hc.mem_order_iff.2 hname) with ⟨done, rest, horder⟩
  induction hlength : done.length using Nat.strong_induction_on generalizing name done rest with
  | _ length ih =>
    rcases hname with ⟨source, hsource⟩
    have hsource' : c'.sources.find? name = some source := by rw [he.sources name h.ne, hsource]
    have hsame := he.validate_eq hc hc' h hsource
    apply same_of_compileUnit he hc hc' hsource hsource'
    cases hvalid : c.graph.validate source with
    | error failure =>
      rw [hvalid] at hsame
      rw [compileUnit_of_invalid hvalid, compileUnit_of_invalid hsame]
    | ok _ =>
      rw [hvalid] at hsame
      apply compileUnit_of_edited hmessages hground hhashed he hc hvalid hsame hsource
      apply agreeOn_of_same
      intro target htarget
      have hprecedes := hc.precedes_of_validate hsource hvalid htarget
      have hdone := hprecedes.mem_front hc.order_nodup horder
      rcases List.append_of_mem hdone with ⟨front, back, hsplit⟩
      have horder' : c.graph.compileOrder = front ++ target :: (back ++ name :: rest) := by
        rw [horder, hsplit]
        simp
      refine ih front.length ?_ (apart_of_target h hsource htarget) ?_ front _ horder' rfl
      · rw [← hlength, hsplit]
        simp only [List.length_append, List.length_cons]
        omega
      · exact hc.mem_order_iff.1 (horder' ▸ by simp)

end Compilation

/-! ## One edit -/

/-- What may be done about one unit before the next compilation: nothing, or one edit. -/
inductive EditOf : String → List Action → Prop
  | nothing (x : String) : EditOf x []
  | upsert (source : Source.Mapping) : EditOf source.name.value [.upsertMapping source]
  | remove (x : String) : EditOf x [.removeMapping x]

namespace Workspace

variable {w : Workspace} {x : String} {edits : List Action}

/-- An edit of one unit changes the source of that unit and nothing else. -/
theorem mappings_of_edit (h : EditOf x edits) :
    ∀ name, name ≠ x → (w.run edits).mappings.find? name = w.mappings.find? name := by
  intro name hname
  cases h with
  | nothing => rfl
  | upsert source => simp [act, upsertMapping, hname]
  | remove => simp [act, removeMapping, hname]

theorem rest_of_edit (h : EditOf x edits) :
    (w.run edits).model = w.model ∧ (w.run edits).settings = w.settings ∧
      (w.run edits).databases = w.databases ∧ (w.run edits).snapshot = w.snapshot := by
  cases h <;> exact ⟨rfl, rfl, rfl, rfl⟩

/-- Behind a compilation that committed, an edit of a unit leaves the store as it is. -/
theorem buildStore_of_edit {built : BuiltStore} (hbuild : w.buildStore = .ok built)
    (h : EditOf x edits) : (w.compile.1.run edits).buildStore = .ok built := by
  rcases rest_of_edit (w := w.compile.1) h with ⟨-, -, hdatabases, hsnapshot⟩
  have hprint : (w.compile.1.run edits).storeFingerprint = built.fingerprint := by
    rw [fingerprint_of_buildStore hbuild]
    unfold storeFingerprint
    rw [hdatabases, compile_databases]
  unfold buildStore
  simp only [hsnapshot, hprint]
  rw [compile_of_buildStore hbuild]
  simp [snapshotOf]

/-- The compilation behind an edit is that behind a compilation with one unit edited in between. -/
theorem edited_of_edit {built : BuiltStore} (hbuild : w.buildStore = .ok built)
    (h : EditOf x edits) :
    (w.compilation built).Edited ((w.compile.1.run edits).compilation built) x := by
  rcases rest_of_edit (w := w.compile.1) h with ⟨hmodel, hsettings, -, hsnapshot⟩
  have hfound : (w.compile.1.run edits).snapshot = snapshotOf built (w.compilation built).run := by
    rw [hsnapshot, snapshot_of_buildStore hbuild]
  refine ⟨?_, rfl, ?_, ?_, ?_⟩
  · unfold compilation
    rw [hmodel, hsettings, compile_model, compile_settings]
  · simp [Compilation.keepsStore, compilation, hfound, snapshotOf]
  · simp only [compilation, hfound]
    rfl
  · intro name hname
    rw [compilation, mappings_of_edit h name hname, compile_mappings]
    rfl

/-- Behind a compilation that had a store and one edit of a unit, the units apart from that one have
the states and failures that they had. -/
theorem compile_edit {messages : List (List UInt8)} {built : BuiltStore}
    (hmessages : NoCollision messages) (hkeyed : w.Keyed)
    (hw : w.snapshot.Sound messages w.model w.settings) (hhashed : w.hashed ⊆ messages)
    (hbuild : w.buildStore = .ok built) (hedit : EditOf x edits) :
    ∃ failures', (w.compile.1.run edits).compile.2 = .committed failures' ∧
      ∀ u, (∃ source, (w.compile.1.run edits).mappings.find? u = some source) →
        Apart (w.compile.1.run edits).mappings u x →
        (w.compile.1.run edits).compile.1.snapshot.units.find? u =
            w.compile.1.snapshot.units.find? u ∧
          ∀ failure, ⟨u, failure⟩ ∈ failures' ↔
            ⟨u, failure⟩ ∈ (w.compilation built).run.failures := by
  have hkeyed' : (w.compile.1.run edits).Keyed := (hkeyed.act .compile).run edits
  have hedited := edited_of_edit hbuild hedit
  have hbuild' := buildStore_of_edit hbuild hedit
  have hground := grounded hmessages hw hhashed hbuild
  refine ⟨_, by rw [compile_of_buildStore hbuild'], ?_⟩
  rintro u ⟨source, hsource⟩ hapart
  have hpresent : ∃ source, w.mappings.find? u = some source :=
    ⟨source, (hedited.sources u hapart.ne).symm.trans hsource⟩
  have hsame := Compilation.same_of_apart hmessages hground
    (List.Subset.trans (hashed_subset hbuild) hhashed) hedited (hkeyed.regular built)
    (hkeyed'.regular built) (hapart.of_agree hedited.sources) hpresent
  rw [snapshot_of_buildStore hbuild', snapshot_of_buildStore hbuild]
  exact hsame

/-- Behind a compilation that committed and one edit of a unit `x`, or none, the next compilation
commits, and every unit whose includes do not lead to `x` keeps the very state that it had, or has none
again, and fails exactly as it failed before. -/
theorem edits_local (model : ObjectModel) (settings : ResolutionSettings) (before : List Action)
    (failures : List UnitFailure) (x : String) (edits : List Action)
    (hcommitted : ((new model settings).run before).compile.2 = .committed failures)
    (hedit : EditOf x edits)
    (hmessages : NoCollision ((new model settings).hashedAlong (before ++ [.compile]))) :
    let w := ((new model settings).run before).compile.1
    let w' := w.run edits
    ∃ failures', w'.compile.2 = .committed failures' ∧
      ∀ u, (∃ source, w'.mappings.find? u = some source) → u ≠ x →
        ¬ Relation.TransGen (Includes w'.mappings) u x →
        w'.compile.1.snapshot.units.find? u = w.snapshot.units.find? u ∧
          ∀ failure, ⟨u, failure⟩ ∈ failures' ↔ ⟨u, failure⟩ ∈ failures := by
  intro w w'
  rcases buildStore_of_committed hcommitted with ⟨built, hbuild, rfl⟩
  rcases sound_before_compile hmessages with ⟨hsound, hhashed⟩
  rcases compile_edit hmessages (keyed_run model settings before) hsound hhashed hbuild hedit with
    ⟨failures', hcommitted', hunits⟩
  refine ⟨failures', hcommitted', ?_⟩
  intro u hsource hne hclosure
  refine hunits u hsource ?_
  intro hpath
  rcases Relation.reflTransGen_iff_eq_or_transGen.1 hpath with heq | htrans
  · exact hne heq.symm
  · exact hclosure htrans

/-- When a unit `n` is added behind the compilation of `m`, the next compilation keeps the very state
of `m`. -/
theorem edits_local_of_added :
    let w := ((new (.ofDefinition {}) {}).run [.upsertMapping { name := ⟨"m", {}⟩ }]).compile.1
    let w' := w.run [.upsertMapping { name := ⟨"n", {}⟩ }]
    ∃ entry, w.snapshot.units.find? "m" = some entry ∧
      w'.compile.1.snapshot.units.find? "m" = some entry := by
  have hcommitted : ((new (.ofDefinition {}) {}).run
      [.upsertMapping { name := ⟨"m", {}⟩ }]).compile.2 = .committed [] := by decide +kernel
  have hmessages : NoCollision ((new (.ofDefinition {}) {}).hashedAlong
      ([.upsertMapping { name := ⟨"m", {}⟩ }] ++ [.compile])) := by
    unfold NoCollision
    decide +kernel
  have hsource : (((new (.ofDefinition {}) {}).run
      [.upsertMapping { name := ⟨"m", {}⟩ }]).mappings.find? "m") =
        some { name := ⟨"m", {}⟩ } := by rfl
  have hstate : (((new (.ofDefinition {}) {}).run
      [.upsertMapping { name := ⟨"m", {}⟩ }]).compile.1.snapshot.units.find? "m").isSome := by
    decide +kernel
  rcases edits_local _ _ _ _ "n" _ hcommitted (.upsert { name := ⟨"n", {}⟩ }) hmessages with
    ⟨failures, -, hunits⟩
  have hedit : EditOf "n" [.upsertMapping { name := ⟨"n", {}⟩ }] := .upsert { name := ⟨"n", {}⟩ }
  generalize (new (.ofDefinition {}) {}).run [.upsertMapping { name := ⟨"m", {}⟩ }] = v
    at hsource hstate hunits ⊢
  have hsource' : (v.compile.1.run [.upsertMapping { name := ⟨"n", {}⟩ }]).mappings.find? "m" =
      some { name := ⟨"m", {}⟩ } := by
    rw [mappings_of_edit hedit "m" (by decide), compile_mappings, hsource]
  rcases Option.isSome_iff_exists.1 hstate with ⟨entry, hentry⟩
  refine ⟨entry, hentry, hentry ▸ (hunits "m" ⟨_, hsource'⟩ (by decide) ?_).1⟩
  intro hclosure
  rcases Relation.TransGen.head'_iff.1 hclosure with ⟨next, ⟨source, hfound, hnext⟩, -⟩
  rw [hsource'] at hfound
  obtain rfl := Option.some.inj hfound
  cases hnext

end Workspace

end ObjectRelational
