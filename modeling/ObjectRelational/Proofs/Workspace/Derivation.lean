import ObjectRelational.Proofs.Fingerprint
import ObjectRelational.Proofs.JsonForm.Faithful
import ObjectRelational.Proofs.Workspace.Run

/-!
# What a fingerprint stands for

The fingerprint of a state is made from fingerprints of the databases, of the source and of the units
that it includes. So it stands for one resolved unit, and a state that a workspace has kept is the one
that resolving anew would give.

* `Workspace.hashedAlong` are the messages that are hashed along a run.
* `Derived`: a unit is what a fingerprint stands for. `Derived.exists_resolve`: it was resolved from
  the parts of the fingerprint. `Derived.unique`: there is only one.
* `Snapshot.Sound`: every state of a snapshot is what its fingerprint stands for, and so is the store.
  `sound_compile`: a compilation leaves a sound snapshot.
* `Workspace.map_store_buildStore`: a store that is kept is the one that building anew would give.
* `resolve_of_derived`: a state with the fingerprint of now is the one that resolving now would give.
-/

namespace ObjectRelational

open Fingerprint

/-! ## Messages -/

namespace Compilation

/-- The messages that are hashed for a unit when its turn comes: none unless its includes are sound
and did not fail. -/
def hashedFor (c : Compilation) (p : Progress) (name : String) : List (List UInt8) :=
  match c.sources.find? name with
  | none => []
  | some source =>
    match c.graph.validate source, blocker? p source with
    | .ok (), none => [jsonBytes source.toJson, partBytes (c.dependencies p source)]
    | _, _ => []

/-- The messages that are hashed while the units of a list have their turns. -/
def hashedFrom (c : Compilation) (p : Progress) : List String → List (List UInt8)
  | [] => []
  | name :: rest => c.hashedFor p name ++ c.hashedFrom (c.advance p name) rest

/-- The messages that are hashed for the units. -/
def hashed (c : Compilation) : List (List UInt8) := c.hashedFrom {} c.graph.compileOrder

variable {c : Compilation} {p : Progress} {name : String} {source : Source.Mapping}

theorem hashedFor_of_clear (hsource : c.sources.find? name = some source)
    (hvalid : c.graph.validate source = .ok ()) (hblocker : blocker? p source = none) :
    c.hashedFor p name = [jsonBytes source.toJson, partBytes (c.dependencies p source)] := by
  unfold hashedFor
  simp only [hsource, hvalid, hblocker]

theorem hashedFor_subset_hashedFrom (done rest : List String) :
    c.hashedFor (done.foldl c.advance p) name ⊆ c.hashedFrom p (done ++ name :: rest) := by
  induction done generalizing p with
  | nil => exact List.subset_append_left _ _
  | cons first done ih =>
    rw [List.cons_append, hashedFrom, List.foldl_cons]
    exact List.Subset.trans ih (List.subset_append_right _ _)

theorem hashedFor_subset_hashed {done rest : List String}
    (horder : c.graph.compileOrder = done ++ name :: rest) :
    c.hashedFor (c.upTo done) name ⊆ c.hashed := by
  unfold hashed
  rw [horder]
  exact hashedFor_subset_hashedFrom done rest

end Compilation

namespace Workspace

/-- The messages that a compilation hashes. -/
def hashed (w : Workspace) : List (List UInt8) :=
  jsonBytes (.ofList Source.Database.toJson w.databases.values) ::
    match w.buildStore with
    | .error _ => []
    | .ok built => (w.compilation built).hashed

/-- The messages that are hashed along a run. -/
def hashedAlong (w : Workspace) : List Action → List (List UInt8)
  | [] => []
  | .compile :: rest => w.hashed ++ (w.act .compile).hashedAlong rest
  | action :: rest => (w.act action).hashedAlong rest

theorem hashedAlong_cons (w : Workspace) (action : Action) (rest : List Action) :
    w.hashedAlong (action :: rest) =
      w.hashedAlong [action] ++ (w.act action).hashedAlong rest := by
  cases action <;> simp [hashedAlong]

theorem hashedAlong_append (w : Workspace) (first second : List Action) :
    w.hashedAlong (first ++ second) =
      w.hashedAlong first ++ (w.run first).hashedAlong second := by
  induction first generalizing w with
  | nil => rfl
  | cons action rest ih =>
    rw [List.cons_append, hashedAlong_cons, ih, hashedAlong_cons w action rest, run_cons,
      List.append_assoc]

theorem databases_mem_hashed (w : Workspace) :
    jsonBytes (.ofList Source.Database.toJson w.databases.values) ∈ w.hashed :=
  List.mem_cons_self

theorem hashed_subset {w : Workspace} {built : BuiltStore} (h : w.buildStore = .ok built) :
    (w.compilation built).hashed ⊆ w.hashed := by
  unfold hashed
  rw [h]
  exact List.subset_cons_self _ _

end Workspace

/-! ## Derivations -/

/-- A unit is what a fingerprint stands for: the unit that its source resolves to, against the store of
the databases and what the fingerprints of its includes stand for. All messages that the fingerprint
is made from are among the given ones. -/
inductive Derived (messages : List (List UInt8)) (model : ObjectModel)
    (settings : ResolutionSettings) : String → MappingUnit → Prop
  | resolved (databases : List Source.Database) (store : Store) (source : Source.Mapping)
      (prints : String → String) (compiled : String → Option MappingUnit) (unit : MappingUnit)
      (hstore : Store.build settings databases = .ok store)
      (hdatabases : jsonBytes (.ofList Source.Database.toJson databases) ∈ messages)
      (hsource : jsonBytes source.toJson ∈ messages)
      (hparts : partBytes (ofJson (.ofList Source.Database.toJson databases) ::
        ofJson source.toJson :: source.targets.map prints) ∈ messages)
      (hincludes : ∀ name ∈ source.targets, ∀ included, compiled name = some included →
        Derived messages model settings (prints name) included)
      (hresolve : MappingUnit.resolve ⟨model, store, settings⟩ compiled source = .ok unit) :
      Derived messages model settings
        (combine (ofJson (.ofList Source.Database.toJson databases) ::
          ofJson source.toJson :: source.targets.map prints)) unit

section Derived

variable {messages : List (List UInt8)} {model : ObjectModel} {settings : ResolutionSettings}

/-- What stands for a unit is a digest. -/
theorem Derived.isDigest {print : String} {unit : MappingUnit}
    (h : Derived messages model settings print unit) : IsDigest print := by
  cases h
  exact isDigest_combine _

theorem databases_inj (hmessages : NoCollision messages) {databases others : List Source.Database}
    (hdatabases : jsonBytes (.ofList Source.Database.toJson databases) ∈ messages)
    (hothers : jsonBytes (.ofList Source.Database.toJson others) ∈ messages)
    (h : ofJson (.ofList Source.Database.toJson databases) =
      ofJson (.ofList Source.Database.toJson others)) : databases = others :=
  Source.Database.faithful.ofList_inj.1 (hmessages.ofJson_inj hdatabases hothers h)

/-- The parts that a unit's fingerprint is combined from are digests, if those of its includes are. -/
theorem isDigest_of_mem_parts {databases source : Json} {prints : List String}
    (h : ∀ s ∈ prints, IsDigest s) : ∀ s ∈ ofJson databases :: ofJson source :: prints,
      IsDigest s := by
  intro s hs
  rcases List.mem_cons.1 hs with rfl | hs
  · exact isDigest_ofJson databases
  · rcases List.mem_cons.1 hs with rfl | hs
    · exact isDigest_ofJson source
    · exact h s hs

/-- What the fingerprints of the includes of a resolved unit stand for are digests. -/
theorem isDigest_of_includes {e : Environment} {source : Source.Mapping}
    {prints : String → String} {compiled : String → Option MappingUnit} {unit : MappingUnit}
    (hincludes : ∀ name ∈ source.targets, ∀ included, compiled name = some included →
      Derived messages model settings (prints name) included)
    (hresolve : MappingUnit.resolve e compiled source = .ok unit) :
    ∀ s ∈ source.targets.map prints, IsDigest s := by
  intro s hs
  rcases List.mem_map.1 hs with ⟨name, hname, rfl⟩
  rcases MappingUnit.exists_of_resolve_eq_ok hresolve name hname with ⟨included, hincluded⟩
  exact (hincludes name hname included hincluded).isDigest

/-- What a fingerprint of known parts stands for was resolved from these. -/
theorem Derived.exists_resolve (hmessages : NoCollision messages)
    {databases : List Source.Database} {source : Source.Mapping} {prints : List String}
    (hdatabases : jsonBytes (.ofList Source.Database.toJson databases) ∈ messages)
    (hsource : jsonBytes source.toJson ∈ messages)
    (hparts : partBytes (ofJson (.ofList Source.Database.toJson databases) ::
      ofJson source.toJson :: prints) ∈ messages) (hdigests : ∀ s ∈ prints, IsDigest s)
    {unit : MappingUnit}
    (h : Derived messages model settings (combine
      (ofJson (.ofList Source.Database.toJson databases) :: ofJson source.toJson :: prints)) unit) :
    ∃ store print compiled, Store.build settings databases = .ok store ∧
      prints = source.targets.map print ∧
      (∀ name ∈ source.targets, ∀ included, compiled name = some included →
        Derived messages model settings (print name) included) ∧
      MappingUnit.resolve ⟨model, store, settings⟩ compiled source = .ok unit := by
  generalize hprint : combine (ofJson (.ofList Source.Database.toJson databases) ::
    ofJson source.toJson :: prints) = print at h
  cases h with
  | resolved databases' store source' print' compiled _ hstore hdatabases' hsource' hparts'
      hincludes hresolve =>
    -- the parts are digests, so that they can be told apart in what is hashed
    have hlist := hmessages.combine_inj hparts hparts' (isDigest_of_mem_parts hdigests)
      (isDigest_of_mem_parts (isDigest_of_includes hincludes hresolve)) hprint
    simp only [List.cons.injEq] at hlist
    rcases hlist with ⟨hdbs, hsrc, hprints⟩
    obtain rfl := databases_inj hmessages hdatabases hdatabases' hdbs
    obtain rfl := Source.Mapping.faithful.injective (hmessages.ofJson_inj hsource hsource' hsrc)
    exact ⟨store, print', compiled, hstore, hprints, hincludes, hresolve⟩

/-- A fingerprint stands for one unit only. -/
theorem Derived.unique (hmessages : NoCollision messages) {print : String}
    {unit other : MappingUnit} (h : Derived messages model settings print unit)
    (h' : Derived messages model settings print other) : unit = other := by
  induction h generalizing other with
  | resolved databases store source prints compiled unit hstore hdatabases hsource hparts hincludes
      hresolve ih =>
    obtain ⟨store', prints', compiled', hstore', hprints, hincludes', hresolve'⟩ :=
      h'.exists_resolve hmessages hdatabases hsource hparts
        (isDigest_of_includes hincludes hresolve)
    rw [hstore] at hstore'
    obtain rfl := Except.ok.inj hstore'
    -- the includes are the same units, each because its fingerprint is
    have hcompiled : ∀ name ∈ source.targets, compiled name = compiled' name := by
      intro name hname
      rcases MappingUnit.exists_of_resolve_eq_ok hresolve name hname with ⟨included, hincluded⟩
      rcases MappingUnit.exists_of_resolve_eq_ok hresolve' name hname with ⟨included', hincluded'⟩
      have hsame := List.map_inj_left.1 hprints name hname
      have hderived := hincludes' name hname included' hincluded'
      rw [← hsame] at hderived
      rw [hincluded, hincluded', ih name hname included hincluded hderived]
    rw [MappingUnit.resolve_congr hcompiled, hresolve'] at hresolve
    exact (Except.ok.inj hresolve).symm

/-! ## States and what they stand for -/

/-- Every state is what its fingerprint stands for. -/
def Sound (messages : List (List UInt8)) (model : ObjectModel) (settings : ResolutionSettings)
    (entries : OrderedMap String Entry) : Prop :=
  ∀ name entry, entries.find? name = some entry →
    Derived messages model settings entry.fingerprint entry.unit

theorem sound_empty : Sound messages model settings .empty := by
  intro name entry h
  simp at h

theorem Sound.insert {entries : OrderedMap String Entry} (h : Sound messages model settings entries)
    {name : String} {entry : Entry}
    (hentry : Derived messages model settings entry.fingerprint entry.unit) :
    Sound messages model settings (entries.insert name entry) :=
  OrderedMap.forall_find?_insert h hentry

/-- A list that lost none of its members on the way has a value for each of them. -/
theorem eq_some_of_filterMap_eq_map {α β : Type} {f : α → Option β} {g : α → β} {l : List α}
    (h : l.filterMap f = l.map g) : ∀ a ∈ l, f a = some (g a) := by
  induction l with
  | nil => simp
  | cons a rest ih =>
    cases ha : f a with
    | none =>
      rw [List.filterMap_cons_none ha, List.map_cons] at h
      have hle := List.length_filterMap_le f rest
      rw [h] at hle
      simp only [List.length_cons, List.length_map] at hle
      omega
    | some b =>
      rw [List.filterMap_cons_some ha, List.map_cons] at h
      rcases List.cons.inj h with ⟨rfl, hrest⟩
      intro c hc
      rcases List.mem_cons.1 hc with rfl | hc
      · exact ha
      · exact ih hrest c hc

end Derived

/-- The fingerprint of a unit; the empty text where it has no state. -/
def Progress.print (p : Progress) (name : String) : String :=
  match p.entries.find? name with
  | none => ""
  | some entry => entry.fingerprint

namespace Compilation

/-- The store of a compilation is that of some databases, whose fingerprint it has; and the states that
were committed before are what their fingerprints stand for. -/
structure Grounded (c : Compilation) (messages : List (List UInt8))
    (databases : List Source.Database) : Prop where
  build : Store.build c.environment.settings databases = .ok c.environment.store
  print : c.built.fingerprint = ofJson (.ofList Source.Database.toJson databases)
  hashed : jsonBytes (.ofList Source.Database.toJson databases) ∈ messages
  previous : Sound messages c.environment.model c.environment.settings c.previous.units

variable {c : Compilation} {p : Progress} {name : String} {source : Source.Mapping}
  {messages : List (List UInt8)} {databases : List Source.Database}

theorem dependencies_eq (hc : c.Grounded messages databases) :
    c.dependencies p source = ofJson (.ofList Source.Database.toJson databases) ::
      ofJson source.toJson ::
        source.targets.filterMap fun name => (p.entries.find? name).map (·.fingerprint) := by
  unfold dependencies Source.Mapping.targets
  rw [hc.print, List.filterMap_map]
  rfl

/-- Where all includes have states, the fingerprint is made from all of theirs. -/
theorem dependencies_eq_map (hc : c.Grounded messages databases)
    (h : ∀ name ∈ source.targets, ∃ included, p.unit? name = some included) :
    c.dependencies p source = ofJson (.ofList Source.Database.toJson databases) ::
      ofJson source.toJson :: source.targets.map p.print := by
  rw [dependencies_eq hc, ← List.filterMap_eq_map]
  congr 2
  apply List.filterMap_congr
  intro name hname
  rcases h name hname with ⟨included, hincluded⟩
  unfold Progress.unit? at hincluded
  rcases Option.map_eq_some_iff.1 hincluded with ⟨entry, hentry, -⟩
  simp [Progress.print, hentry]

theorem derived_of_unit? {model : ObjectModel} {settings : ResolutionSettings}
    (hp : Sound messages model settings p.entries) {unit : MappingUnit}
    (h : p.unit? name = some unit) : Derived messages model settings (p.print name) unit := by
  unfold Progress.unit? at h
  rcases Option.map_eq_some_iff.1 h with ⟨entry, hentry, rfl⟩
  have hprint : p.print name = entry.fingerprint := by simp [Progress.print, hentry]
  exact hprint ▸ hp name entry hentry

/-- The state that a unit gets is what its fingerprint stands for. -/
theorem derived_of_freshOrUnchanged (hc : c.Grounded messages databases)
    (hp : Sound messages c.environment.model c.environment.settings p.entries)
    (hsource : jsonBytes source.toJson ∈ messages)
    (hparts : partBytes (c.dependencies p source) ∈ messages) {entry : Entry}
    (h : c.freshOrUnchanged p source = .ok entry) :
    Derived messages c.environment.model c.environment.settings entry.fingerprint entry.unit := by
  cases hunchanged : c.unchanged? source.name.value (combine (c.dependencies p source)) with
  | some old =>
    -- a state that is taken over was sound before
    rw [freshOrUnchanged_of_some hunchanged] at h
    obtain rfl := Except.ok.inj h
    exact hc.previous _ _ (unchanged?_eq_some_iff.1 hunchanged).2.1
  | none =>
    rw [freshOrUnchanged_of_none hunchanged] at h
    cases hresolve : MappingUnit.resolve c.environment p.unit? source with
    | error failure =>
      rw [hresolve] at h
      cases h
    | ok unit =>
      rw [hresolve] at h
      obtain rfl := Except.ok.inj h
      rw [dependencies_eq_map hc (MappingUnit.exists_of_resolve_eq_ok hresolve)] at hparts ⊢
      exact .resolved databases c.environment.store source p.print p.unit? unit hc.build hc.hashed
        hsource hparts (fun _ _ _ hincluded => derived_of_unit? hp hincluded) hresolve

/-- One more unit leaves sound states. -/
theorem sound_advance (hc : c.Grounded messages databases)
    (hp : Sound messages c.environment.model c.environment.settings p.entries)
    (hhashed : c.hashedFor p name ⊆ messages) :
    Sound messages c.environment.model c.environment.settings (c.advance p name).entries := by
  cases hsource : c.sources.find? name with
  | none =>
    rw [advance_of_absent hsource]
    exact hp
  | some source =>
    cases h : c.compileUnit p source with
    | ok entry =>
      rcases clear_of_compileUnit_eq_ok h with ⟨hvalid, hblocker, hfresh⟩
      rw [hashedFor_of_clear hsource hvalid hblocker] at hhashed
      rw [advance_of_ok hsource h]
      exact hp.insert (derived_of_freshOrUnchanged hc hp (hhashed (by simp)) (hhashed (by simp))
        hfresh)
    | error failure =>
      rw [advance_of_error hsource h]
      unfold retain
      cases hprevious : c.previous.units.find? name with
      | none => exact hp
      | some entry => exact hp.insert (hc.previous name entry hprevious)

theorem sound_foldl (hc : c.Grounded messages databases) {order : List String}
    (hp : Sound messages c.environment.model c.environment.settings p.entries)
    (hhashed : c.hashedFrom p order ⊆ messages) :
    Sound messages c.environment.model c.environment.settings
      (order.foldl c.advance p).entries := by
  induction order generalizing p with
  | nil => exact hp
  | cons name rest ih =>
    rw [hashedFrom] at hhashed
    rcases List.append_subset.1 hhashed with ⟨hfirst, hrest⟩
    exact ih (sound_advance hc hp hfirst) hrest

/-- The states of a compilation are sound. -/
theorem sound_run (hc : c.Grounded messages databases) (hhashed : c.hashed ⊆ messages) :
    Sound messages c.environment.model c.environment.settings c.run.entries :=
  sound_foldl hc sound_empty hhashed

/-- A state with the fingerprint of now is the one that resolving now would give. -/
theorem resolve_of_derived (hmessages : NoCollision messages) (hc : c.Grounded messages databases)
    (hp : Sound messages c.environment.model c.environment.settings p.entries)
    (hsource : jsonBytes source.toJson ∈ messages)
    (hparts : partBytes (c.dependencies p source) ∈ messages) {unit : MappingUnit}
    (h : Derived messages c.environment.model c.environment.settings
      (combine (c.dependencies p source)) unit) :
    MappingUnit.resolve c.environment p.unit? source = .ok unit := by
  rw [dependencies_eq hc] at hparts h
  have hdigests : ∀ s ∈ source.targets.filterMap fun name =>
      (p.entries.find? name).map (·.fingerprint), IsDigest s := by
    intro s hs
    rcases List.mem_filterMap.1 hs with ⟨name, -, hname⟩
    rcases Option.map_eq_some_iff.1 hname with ⟨entry, hentry, rfl⟩
    exact (hp name entry hentry).isDigest
  rcases h.exists_resolve hmessages hc.hashed hsource hparts hdigests with
    ⟨store, prints, compiled, hstore, hprints, hincludes, hresolve⟩
  have hbuild := hc.build
  rw [hstore] at hbuild
  obtain rfl := Except.ok.inj hbuild
  -- every include has a state, with the fingerprint that the derivation names
  have hcompiled : ∀ name ∈ source.targets, p.unit? name = compiled name := by
    intro name hname
    rcases MappingUnit.exists_of_resolve_eq_ok hresolve name hname with ⟨included, hincluded⟩
    have hfound := eq_some_of_filterMap_eq_map hprints name hname
    rcases Option.map_eq_some_iff.1 hfound with ⟨entry, hentry, hsame⟩
    have hderived := hp name entry hentry
    rw [hsame] at hderived
    rw [hincluded, Progress.unit?, hentry, Option.map_some,
      hderived.unique hmessages (hincludes name hname included hincluded)]
  rw [MappingUnit.resolve_congr hcompiled]
  exact hresolve

end Compilation

/-! ## Snapshots -/

/-- The states of a snapshot are what their fingerprints stand for, and its store is that of the
databases whose fingerprint it has. -/
structure Snapshot.Sound (messages : List (List UInt8)) (model : ObjectModel)
    (settings : ResolutionSettings) (s : Snapshot) : Prop where
  units : ObjectRelational.Sound messages model settings s.units
  store : ∀ print, s.storeFingerprint = some print → ∃ databases,
    print = ofJson (.ofList Source.Database.toJson databases) ∧
      jsonBytes (.ofList Source.Database.toJson databases) ∈ messages ∧
      Store.build settings databases = .ok s.store

namespace Workspace

variable {w : Workspace} {messages : List (List UInt8)} {built : BuiltStore}

/-- A store that is kept is the one that building anew would give. -/
theorem map_store_buildStore (hmessages : NoCollision messages)
    (hw : w.snapshot.Sound messages w.model w.settings) (hhashed : w.hashed ⊆ messages) :
    w.buildStore.map (·.store) = Store.build w.settings w.databases.values := by
  unfold buildStore
  simp only
  split
  · rename_i hkept
    rcases hw.store _ hkept with ⟨databases, hprint, hmem, hbuild⟩
    have hsame := databases_inj hmessages (hhashed (databases_mem_hashed w)) hmem hprint
    rw [hsame, hbuild]
    rfl
  · cases Store.build w.settings w.databases.values <;> rfl

theorem build_of_buildStore (hmessages : NoCollision messages)
    (hw : w.snapshot.Sound messages w.model w.settings) (hhashed : w.hashed ⊆ messages)
    (h : w.buildStore = .ok built) :
    Store.build w.settings w.databases.values = .ok built.store := by
  rw [← map_store_buildStore hmessages hw hhashed, h]
  rfl

/-- The compilations of a workspace with a sound snapshot are grounded. -/
theorem grounded (hmessages : NoCollision messages)
    (hw : w.snapshot.Sound messages w.model w.settings) (hhashed : w.hashed ⊆ messages)
    (h : w.buildStore = .ok built) :
    (w.compilation built).Grounded messages w.databases.values where
  build := build_of_buildStore hmessages hw hhashed h
  print := fingerprint_of_buildStore h
  hashed := hhashed (databases_mem_hashed w)
  previous := hw.units

/-- A compilation leaves a sound snapshot. -/
theorem sound_compile (hmessages : NoCollision messages)
    (hw : w.snapshot.Sound messages w.model w.settings) (hhashed : w.hashed ⊆ messages) :
    w.compile.1.snapshot.Sound messages w.model w.settings := by
  cases hbuild : w.buildStore with
  | error failure =>
    rw [compile_of_buildStore_error hbuild]
    exact hw
  | ok built =>
    rw [compile_of_buildStore hbuild]
    have hgrounded := grounded hmessages hw hhashed hbuild
    refine ⟨?_, ?_⟩
    · exact Compilation.sound_run hgrounded
        (List.Subset.trans (hashed_subset hbuild) hhashed)
    · intro print hprint
      obtain rfl := Option.some.inj hprint
      exact ⟨w.databases.values, hgrounded.print, hgrounded.hashed, hgrounded.build⟩

theorem sound_act (hmessages : NoCollision messages)
    (hw : w.snapshot.Sound messages w.model w.settings) (action : Action)
    (hhashed : w.hashedAlong [action] ⊆ messages) :
    (w.act action).snapshot.Sound messages w.model w.settings := by
  cases action with
  | compile =>
    refine sound_compile hmessages hw ?_
    simpa [hashedAlong] using hhashed
  | _ => exact hw

/-- Along a run without collisions all snapshots are sound. -/
theorem sound_run (hmessages : NoCollision messages)
    (hw : w.snapshot.Sound messages w.model w.settings) {actions : List Action}
    (hhashed : w.hashedAlong actions ⊆ messages) :
    (w.run actions).snapshot.Sound messages w.model w.settings := by
  induction actions generalizing w with
  | nil => exact hw
  | cons action rest ih =>
    rw [hashedAlong_cons] at hhashed
    rcases List.append_subset.1 hhashed with ⟨hfirst, hrest⟩
    have hact := sound_act hmessages hw action hfirst
    rw [← act_model w action, ← act_settings w action] at hact ⊢
    exact ih hact hrest

theorem sound_new (model : ObjectModel) (settings : ResolutionSettings) :
    (new model settings).snapshot.Sound messages model settings where
  units := sound_empty
  store _ h := by cases h

/-- When nothing that a run and a compilation behind it hash collides, the run leaves a sound
snapshot. -/
theorem sound_before_compile {model : ObjectModel} {settings : ResolutionSettings}
    {actions : List Action}
    (hmessages : NoCollision ((new model settings).hashedAlong (actions ++ [.compile]))) :
    let w := (new model settings).run actions
    let messages := (new model settings).hashedAlong (actions ++ [.compile])
    w.snapshot.Sound messages w.model w.settings ∧ w.hashed ⊆ messages := by
  intro w messages
  have hsplit : messages = (new model settings).hashedAlong actions ++ w.hashedAlong [.compile] :=
    hashedAlong_append _ actions [.compile]
  refine ⟨?_, ?_⟩
  · have hsubset : (new model settings).hashedAlong actions ⊆ messages := by
      rw [hsplit]
      exact List.subset_append_left _ _
    have hsound := sound_run hmessages (sound_new model settings) hsubset
    rw [← run_model _ actions, ← run_settings _ actions] at hsound
    exact hsound
  · intro message hmessage
    rw [hsplit]
    exact List.mem_append_right _ (by simpa [hashedAlong] using hmessage)

end Workspace

end ObjectRelational
