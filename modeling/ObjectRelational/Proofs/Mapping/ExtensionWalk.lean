import Mathlib.Data.Fintype.Card
import ObjectRelational.Proofs.Graph.CyclePath
import ObjectRelational.Proofs.Mapping.ExtensionOrder

/-!
# Walks up the extended mappings

The class mappings of a unit can be ordered exactly when following what they extend never comes back to a
mapping that was passed. When they cannot, one of them extends itself, or the ids of a chain that comes
back are listed. A walk in rounds, which starts from every mapping in turn and keeps how far it has come
with each, ends with the same answer.

* `Extension.Extends`: which id extends which.
* `Extension.Refused`: why mappings cannot be ordered. `refused_of_order`.
* `Extension.Walk.Stands`: what a walk keeps of each mapping agrees with what it lists.
  `Walk.answers_orderFrom`: a walk ends with the answer of the recursion.
* `Extension.order_exact`: what the answer is.
-/

namespace ObjectRelational.Extension

variable {all done path longer l ordered : List Source.ClassMapping} {depth : Nat}
  {m p : Source.ClassMapping} {id superId : String} {failure : Failure}

/-! ## Which mapping extends which -/

/-- The mapping of one id extends that of another, and both are of the list. -/
def Extends (all : List Source.ClassMapping) (id superId : String) : Prop :=
  ∃ m ∈ all, m.mappingId = id ∧ m.superId.map (·.value) = some superId ∧ hasId all superId

theorem extends_of_parent? (hm : m ∈ all) (h : parent? all m = some p) :
    Extends all m.mappingId p.mappingId :=
  ⟨m, hm, rfl, superId_of_parent? h, hasId_iff.2 ⟨p, mem_of_parent? h, rfl⟩⟩

theorem exists_parent?_of_extends (hnodup : (all.map (·.mappingId)).Nodup) (hm : m ∈ all)
    (h : Extends all m.mappingId superId) : ∃ p, parent? all m = some p ∧ p.mappingId = superId := by
  obtain ⟨m', hm', hid, hsuper, hhas⟩ := h
  obtain rfl := List.inj_on_of_nodup_map hnodup hm' hm hid
  obtain ⟨name, hname, rfl⟩ := Option.map_eq_some_iff.1 hsuper
  exact exists_parent? hname hhas

/-- Through ranked mappings no way up comes back. -/
theorem Ranked.acyclic (hnodup : (all.map (·.mappingId)).Nodup) (h : Ranked all) (id : String) :
    ¬ Relation.TransGen (Extends all) id id := by
  obtain ⟨rank, hrank⟩ := h
  have hstep : ∀ {a b : String}, Extends all a b → rank b < rank a := by
    intro a b hab
    have ⟨m, hm, hid, _⟩ := hab
    obtain rfl := hid
    obtain ⟨p, hp, rfl⟩ := exists_parent?_of_extends hnodup hm hab
    exact hrank m hm p hp
  have hsteps : ∀ {b : String}, Relation.TransGen (Extends all) id b → rank b < rank id := by
    intro b h
    induction h with
    | single hab => exact hstep hab
    | tail _ hbc ih => exact (hstep hbc).trans ih
  exact fun h => Nat.lt_irrefl _ (hsteps h)

/-! ## Why mappings cannot be ordered -/

/-- Mappings cannot be ordered: one extends itself, as is told where it says so, or a chain leads from one
back to it, as is told at that mapping. -/
inductive Refused (all : List Source.ClassMapping) : Failure → Prop
  | itself {m : Source.ClassMapping} {superId : Name} (hm : m ∈ all) (hsuper : m.superId = some superId)
      (hself : superId.value = m.mappingId) : Refused all ⟨.selfExtension m.mappingId, superId.span⟩
  | cycle {m : Source.ClassMapping} {ids : List String} (hm : m ∈ all)
      (hcycle : Graph.CycleAt (Extends all) m.mappingId ids) : Refused all ⟨.extendsCycle ids, m.span⟩

theorem extends_self {name : Name} (hm : m ∈ all) (hsuper : m.superId = some name)
    (hself : name.value = m.mappingId) : Extends all m.mappingId m.mappingId :=
  ⟨m, hm, rfl, by rw [hsuper, Option.map_some, hself], hasId_iff.2 ⟨m, hm, rfl⟩⟩

/-- Where mappings are refused, a way up comes back. -/
theorem Refused.cyclic (h : Refused all failure) : ∃ id, Relation.TransGen (Extends all) id id := by
  cases h with
  | itself hm hsuper hself => exact ⟨_, .single (extends_self hm hsuper hself)⟩
  | cycle hm hcycle =>
    have ⟨between, hids, _⟩ := hcycle
    exact ⟨_, (hcycle.transGen (hids ▸ List.mem_cons_self)).1⟩

/-- A way up that comes back to a mapping of it closes a cycle there. -/
theorem cycleAt_cycleIds (hnodup : (path.map (·.mappingId)).Nodup)
    (hsteps : ((m :: path).map (·.mappingId)).IsChain fun b a => Extends all a b)
    (hpath : hasId path m.mappingId) :
    Graph.CycleAt (Extends all) m.mappingId (cycleIds path m) := by
  obtain ⟨later, earlier, hids⟩ := List.append_of_mem (hasId_iff_mem_map.1 hpath)
  rw [List.map_cons, hids, ← List.cons_append, List.append_cons] at hsteps
  rw [hids] at hnodup
  -- the ids of a path are distinct, so that what is dropped are those passed before the mapping
  have hbefore : ∀ x ∈ earlier.reverse, x ≠ m.mappingId := fun x hx hxid =>
    (List.nodup_cons.1 hnodup.of_append_right).1 (hxid ▸ List.mem_reverse.1 hx)
  have hcycle : cycleIds path m = m.mappingId :: (later.reverse ++ [m.mappingId]) := by
    unfold cycleIds
    rw [hids, List.reverse_append, List.reverse_cons, List.append_assoc,
      List.dropWhile_append_of_pos fun x hx => by simpa using hbefore x hx]
    simp
  refine ⟨later.reverse, hcycle, ?_, ?_⟩
  · have hlater : (later ++ [m.mappingId]).Nodup :=
      hnodup.sublist ((List.singleton_sublist.2 List.mem_cons_self).append_left later)
    simpa using List.nodup_reverse.2 hlater
  · have hchain := List.isChain_reverse.2 (hsteps.left_of_append)
    simpa [hcycle] using hchain

/-- A way up that fails tells why mappings cannot be ordered. -/
theorem refused_of_climb (hm : m ∈ all) (hnodup : (path.map (·.mappingId)).Nodup)
    (hsteps : ((m :: path).map (·.mappingId)).IsChain fun b a => Extends all a b)
    (h : climb all done depth path m = .error failure) : Refused all failure := by
  induction depth generalizing path m with
  | zero => cases h
  | succ depth ih =>
    unfold climb at h
    split at h
    · cases h
    · split at h
      · rename_i hpassed
        obtain rfl := Except.error.inj h
        exact .cycle hm (cycleAt_cycleIds hnodup hsteps hpassed)
      · rename_i hnew
        split at h
        · rename_i name _ hself
          obtain rfl := Except.error.inj h
          obtain ⟨hsuper, hid⟩ := eq_of_extendsItself hself
          exact .itself hm hsuper hid
        · cases h
        · rename_i p _ hparent
          refine ih (mem_of_parent? hparent) ?_ ?_ h
          · exact List.nodup_cons.2 ⟨fun hmem => hnew (hasId_iff_mem_map.2 hmem), hnodup⟩
          · exact .cons_cons (extends_of_parent? hm hparent) hsteps

theorem refused_of_orderFrom (hl : l ⊆ all) (h : orderFrom all done l = .error failure) :
    Refused all failure := by
  induction l generalizing done with
  | nil => cases h
  | cons m rest ih =>
    obtain ⟨hm, hrest⟩ := List.cons_subset.1 hl
    unfold orderFrom at h
    cases hclimb : climb all done (all.length + 1) [] m with
    | error failure' =>
      rw [hclimb] at h
      obtain rfl := Except.error.inj h
      exact refused_of_climb hm (by simp) (by simp) hclimb
    | ok path =>
      rw [hclimb] at h
      exact ih hrest h

/-- When mappings cannot be ordered, it is told why. -/
theorem refused_of_order (h : order all = .error failure) : Refused all failure :=
  refused_of_orderFrom (List.Subset.refl _) h

/-- Mappings of distinct ids can be ordered exactly when no way up comes back. -/
theorem exists_order_iff_acyclic (hnodup : (all.map (·.mappingId)).Nodup) :
    (∃ ordered, order all = .ok ordered) ↔ ∀ id, ¬ Relation.TransGen (Extends all) id id := by
  constructor
  · exact fun h => ((exists_order_iff hnodup).1 h).acyclic hnodup
  · intro hacyclic
    cases h : order all with
    | ok ordered => exact ⟨ordered, rfl⟩
    | error failure =>
      obtain ⟨id, hid⟩ := (refused_of_order h).cyclic
      exact absurd hid (hacyclic id)

/-! ## Walks -/

namespace Walk

variable {w w' : Walk all} {i : Fin all.length} {answer : Resolved (List (Fin all.length))}

/-- Rounds lead from one walk to another. -/
def Goes : Walk all → Walk all → Prop := Relation.ReflTransGen fun w w' => w.round = .inl w'

/-- Rounds lead to one that answers. -/
def Answers (w : Walk all) (answer : Resolved (List (Fin all.length))) : Prop :=
  ∃ last, Goes w last ∧ last.round = .inr answer

theorem Answers.of_goes (h : Goes w w') (hanswers : Answers w' answer) : Answers w answer := by
  obtain ⟨last, hlast, hanswer⟩ := hanswers
  exact ⟨last, h.trans hlast, hanswer⟩

/-- How far a walk has come with a mapping is told by where it lists the place of it, and no place is
twice on the way up. -/
structure Stands (w : Walk all) : Prop where
  ordered : ∀ i, w.visits i = .ordered ↔ i ∈ w.order
  passed : ∀ i, w.visits i = .passed ↔ i ∈ w.path
  nodup : w.path.Nodup

theorem stands_begin (all : List Source.ClassMapping) : Stands ({} : Walk all) :=
  ⟨fun _ => by simp, fun _ => by simp, List.nodup_nil⟩

theorem Stands.pass (h : w.Stands) (hfresh : w.visits i = .fresh) : (w.pass i).Stands where
  ordered j := by
    by_cases hj : j = i
    · subst hj
      simp [Walk.pass, ← h.ordered, hfresh]
    · simpa [Walk.pass, hj] using h.ordered j
  passed j := by
    by_cases hj : j = i
    · simp [Walk.pass, hj]
    · simpa [Walk.pass, hj] using h.passed j
  nodup := List.nodup_cons.2 ⟨fun hmem => by simp [(h.passed i).2 hmem] at hfresh, h.nodup⟩

theorem Stands.settle (h : w.Stands) : w.settle.Stands where
  ordered j := by
    by_cases hj : j ∈ w.path
    · simp [Walk.settle, hj]
    · simpa [Walk.settle, hj] using h.ordered j
  passed j := by
    by_cases hj : j ∈ w.path
    · simp [Walk.settle, hj]
    · simpa [Walk.settle, hj] using (h.passed j).not.2 hj
  nodup := List.nodup_nil

theorem Stands.length_le (h : w.Stands) : w.path.length ≤ all.length := by
  simpa using h.nodup.length_le_card

/-! ### Places and their mappings -/

theorem mappingId_get_injective (hnodup : (all.map (·.mappingId)).Nodup) :
    Function.Injective fun i => (all.get i).mappingId := fun i j hid =>
  List.nodup_iff_injective_get.1 (hnodup.of_map _)
    (List.inj_on_of_nodup_map hnodup (all.get_mem i) (all.get_mem j) hid)

theorem hasId_map_get_iff (hnodup : (all.map (·.mappingId)).Nodup) {places : List (Fin all.length)} :
    hasId (places.map all.get) (all.get i).mappingId ↔ i ∈ places := by
  rw [hasId_iff]
  constructor
  · rintro ⟨x, hx, hid⟩
    obtain ⟨j, hj, rfl⟩ := List.mem_map.1 hx
    exact mappingId_get_injective hnodup hid ▸ hj
  · exact fun hi => ⟨_, List.mem_map_of_mem hi, rfl⟩

/-- The mapping that is extended is the one at the place that the walk goes on with. -/
theorem parent?_get (hnodup : (all.map (·.mappingId)).Nodup) (i : Fin all.length) :
    parent? all (all.get i) = (superPlace? all i).map all.get := by
  unfold parent? superPlace?
  cases (all.get i).superId with
  | none => rfl
  | some name =>
    rw [Option.bind_some, Option.bind_some]
    cases hfound : (List.finRange all.length).reverse.find? fun j =>
        (all.get j).mappingId = name.value with
    | some j =>
      have hj := List.find?_some hfound
      refine find?_eq_some_of_unique (all.get_mem j) hj fun p hp hid => ?_
      simp only [decide_eq_true_eq] at hj hid
      exact List.inj_on_of_nodup_map hnodup hp (all.get_mem j) (hid.trans hj.symm)
    | none =>
      rw [Option.map_none, List.find?_eq_none]
      intro p hp
      obtain ⟨j, rfl⟩ := List.get_of_mem hp
      exact List.find?_eq_none.1 hfound j (by simp)

theorem cycleIds_map_get (hnodup : (all.map (·.mappingId)).Nodup) (path : List (Fin all.length))
    (i : Fin all.length) : Extension.cycleIds (path.map all.get) (all.get i) = cycleIds path i := by
  have hid : ∀ j, (all.get j).mappingId ≠ (all.get i).mappingId ↔ j ≠ i := fun j =>
    (mappingId_get_injective hnodup).ne_iff
  unfold Extension.cycleIds cycleIds
  rw [List.map_map, ← List.map_reverse, List.dropWhile_map]
  simp only [Function.comp_def, hid]

/-! ### A walk and the recursion -/

/-- Rounds do what a way up does: they lead to its end, where the mappings that it answers have been
passed, or to the failure that it answers. -/
def Climbs (w : Walk all) : Resolved (List Source.ClassMapping) → Prop
  | .ok path => ∃ w' : Walk all, Goes w w' ∧ w'.Stands ∧ w'.current = none ∧ w'.order = w.order ∧
      w'.started = w.started ∧ path = w'.path.map all.get
  | .error failure => Answers w (.error failure)

theorem Climbs.of_round {answer : Resolved (List Source.ClassMapping)} (h : w.round = .inl w')
    (horder : w'.order = w.order) (hstarted : w'.started = w.started) (hclimbs : Climbs w' answer) :
    Climbs w answer := by
  have hgoes : Goes w w' := .single h
  cases answer with
  | error failure => exact Answers.of_goes hgoes hclimbs
  | ok path =>
    obtain ⟨last, hlast, hstands, hcurrent, hlastOrder, hlastStarted, hpath⟩ := hclimbs
    exact ⟨last, hgoes.trans hlast, hstands, hcurrent, hlastOrder.trans horder,
      hlastStarted.trans hstarted, hpath⟩

theorem climbs_stop (h : w.Stands) (hcurrent : w.current = none) : Climbs w (.ok (w.path.map all.get)) :=
  ⟨w, .refl, h, hcurrent, rfl, rfl, rfl⟩

/-- Rounds do what the way up from the current place does. -/
theorem climbs_climb (hnodup : (all.map (·.mappingId)).Nodup) (h : w.Stands)
    (hcurrent : w.current = some i) (hdepth : w.path.length + depth = all.length + 1) :
    Climbs w (climb all (w.order.map all.get) depth (w.path.map all.get) (all.get i)) := by
  induction depth generalizing w i with
  | zero =>
    -- no place is on the way up twice, so that the depth is never used up
    have := h.length_le
    omega
  | succ depth ih =>
    -- the recursion asks what the walk has kept: is the mapping ordered, is it on the way up
    unfold climb
    simp only [hasId_map_get_iff hnodup, ← h.ordered, ← h.passed, cycleIds_map_get hnodup,
      parent?_get hnodup]
    cases hvisit : w.visits i with
    | ordered =>
      have hround : w.round = .inl { w with current := none } := by simp only [round, hcurrent, hvisit]
      rw [if_pos rfl]
      exact .of_round hround rfl rfl (climbs_stop ⟨h.ordered, h.passed, h.nodup⟩ rfl)
    | passed =>
      rw [if_neg (by simp), if_pos rfl]
      exact ⟨w, .refl, by simp only [round, hcurrent, hvisit]; rfl⟩
    | fresh =>
      rw [if_neg (by simp), if_neg (by simp)]
      cases hself : extendsItself (all.get i) with
      | some name => exact ⟨w, .refl, by simp only [round, hcurrent, hvisit, hself]; rfl⟩
      | none =>
        have hround : w.round = .inl (w.pass i) := by simp only [round, hcurrent, hvisit, hself]
        have hpass := h.pass hvisit
        cases hsuper : superPlace? all i with
        | none => exact .of_round hround rfl rfl (climbs_stop hpass hsuper)
        | some j =>
          refine .of_round hround rfl rfl (ih hpass hsuper ?_)
          simp only [Walk.pass, List.length_cons]
          omega

/-- At the end of a way up, a walk goes on to the answer of the recursion over the mappings that it has not
started from yet. -/
theorem answers_orderFrom (hnodup : (all.map (·.mappingId)).Nodup) (h : w.Stands)
    (hcurrent : w.current = none) (hl : all.drop w.started = l) :
    ∃ answer, Answers w answer ∧
      orderFrom all ((w.order ++ w.path).map all.get) l = answer.map (List.map all.get) := by
  induction l generalizing w with
  | nil =>
    have hlast : ¬ w.started < all.length := Nat.not_lt.2 (List.drop_eq_nil_iff.1 hl)
    exact ⟨.ok (w.order ++ w.path), ⟨w, .refl, by simp only [round, hcurrent, hlast]; rfl⟩, rfl⟩
  | cons m rest ih =>
    have hstarted : w.started < all.length := by
      by_contra hlast
      simp [List.drop_eq_nil_iff.2 (Nat.not_lt.1 hlast)] at hl
    obtain ⟨rfl, hrest⟩ := List.cons.inj ((List.drop_eq_getElem_cons hstarted).symm.trans hl)
    -- a round settles what was passed and starts from the next place; the way up from there follows
    let next : Walk all :=
      { w.settle with current := some ⟨w.started, hstarted⟩, started := w.started + 1 }
    have hround : w.round = .inl next := by simp only [round, hcurrent, hstarted]; rfl
    have hgoes : Goes w next := .single hround
    have hstands : next.Stands := ⟨h.settle.ordered, h.settle.passed, h.settle.nodup⟩
    have hclimbs := climbs_climb hnodup hstands rfl (Nat.zero_add _)
    change Climbs next (climb all ((w.order ++ w.path).map all.get) _ [] all[w.started]) at hclimbs
    unfold orderFrom
    cases hclimb : climb all ((w.order ++ w.path).map all.get) (all.length + 1) [] all[w.started] with
    | error failure =>
      rw [hclimb] at hclimbs
      exact ⟨.error failure, .of_goes hgoes hclimbs, rfl⟩
    | ok path =>
      rw [hclimb] at hclimbs
      obtain ⟨last, hlast, hlastStands, hlastCurrent, horder, hlastStarted, rfl⟩ := hclimbs
      obtain ⟨answer, hanswers, hanswer⟩ := ih hlastStands hlastCurrent (hlastStarted ▸ hrest)
      refine ⟨answer, .of_goes (hgoes.trans hlast) hanswers, ?_⟩
      rw [← hanswer, horder]
      change orderFrom all ((w.order ++ w.path).map all.get ++ last.path.map all.get) rest = _
      rw [← List.map_append]
      rfl

end Walk

/-! ## What the order is -/

/-- Mappings of distinct ids are ordered exactly when no way up through them comes back to a mapping that
was passed. Then their places are listed once each, every place behind that of the mapping which the one
there extends. Else it is told why not: when a chain of mappings comes back, its ids are listed, each
extended by the one before it. The walk ends, and comes to this answer. -/
theorem order_exact (hnodup : (all.map (·.mappingId)).Nodup) :
    ∃ answer : Resolved (List (Fin all.length)),
      Walk.Answers {} answer ∧ order all = answer.map (List.map all.get) ∧
      ((∃ places, answer = .ok places) ↔ ∀ id, ¬ Relation.TransGen (Extends all) id id) ∧
      (∀ places, answer = .ok places →
        places.Perm (List.finRange all.length) ∧
        ∀ front i back, places = front ++ i :: back →
          ∀ j, Extends all (all.get i).mappingId (all.get j).mappingId → j ∈ front) ∧
      ∀ failure, answer = .error failure → Refused all failure := by
  obtain ⟨answer, hanswers, horder⟩ :=
    Walk.answers_orderFrom hnodup (Walk.stands_begin all) rfl List.drop_zero
  replace horder : order all = answer.map (List.map all.get) := horder
  refine ⟨answer, hanswers, horder, ?_, ?_, ?_⟩
  · rw [← exists_order_iff_acyclic hnodup, horder]
    cases answer <;> simp [Except.map]
  · rintro places rfl
    have hget : Function.Injective all.get := List.nodup_iff_injective_get.1 (hnodup.of_map _)
    refine ⟨?_, ?_⟩
    · have hperm := (perm_of_order hnodup horder).trans (.of_eq (List.map_get_finRange all).symm)
      exact (List.map_perm_map_iff hget).1 hperm
    · rintro front i back rfl j hextends
      obtain ⟨p, hp, hid⟩ := exists_parent?_of_extends hnodup (all.get_mem i) hextends
      have hsuper := superFirst_of_order horder
      rw [List.map_append, List.map_cons] at hsuper
      rw [← Walk.hasId_map_get_iff hnodup, ← hid]
      exact hsuper.hasId_of_parent? hp
  · rintro failure rfl
    exact refused_of_order horder

/-! ## Vehicles -/

/-- A mapping of an id that extends that of another. -/
def extending (id : String) (superId : Option String) : Source.ClassMapping where
  className := { value := id }
  superId := superId.map fun superId => { value := superId }
  body := .relational {}

/-- Trucks and cars extend one mapping of vehicles on the road. That extends none of the list, in which
boats stand for themselves. -/
def vehicles : List Source.ClassMapping :=
  [extending "truck" "road", extending "car" "road", extending "road" "vehicle", extending "boat" none]

/-- A truck leads to vehicles on the road, which come back to themselves over another mapping. -/
def roundabout : List Source.ClassMapping :=
  [extending "truck" "road", extending "car" "road", extending "road" "car"]

/-- A walk orders vehicles, and no way up through them comes back. Where one does, the walk lists the ids
of the part of it that comes back. -/
theorem order_exact_of_vehicles :
    (vehicles.map (·.mappingId)).Nodup ∧
      (∃ places, Walk.Answers ({} : Walk vehicles) (.ok places) ∧
        (places.map fun i => (vehicles.get i).mappingId) = ["road", "truck", "car", "boat"] ∧
        places.Perm (List.finRange vehicles.length)) ∧
      (∀ id, ¬ Relation.TransGen (Extends vehicles) id id) ∧
      (roundabout.map (·.mappingId)).Nodup ∧
      ∃ failure, Walk.Answers ({} : Walk roundabout) (.error failure) ∧
        failure.fault = .extendsCycle ["road", "car", "road"] ∧ Refused roundabout failure := by
  have hvehicles : (vehicles.map (·.mappingId)).Nodup := by decide +kernel
  have hroundabout : (roundabout.map (·.mappingId)).Nodup := by decide +kernel
  have hids : (order vehicles).toOption.map (List.map (·.mappingId)) =
      some ["road", "truck", "car", "boat"] := by decide +kernel
  have hfault : (match order roundabout with | .ok _ => none | .error failure => some failure.fault) =
      some (.extendsCycle ["road", "car", "road"]) := by decide +kernel
  obtain ⟨answer, hanswers, horder, hacyclic, hplaces, -⟩ := order_exact hvehicles
  obtain ⟨answer', hanswers', horder', -, -, hrefused⟩ := order_exact hroundabout
  rw [horder] at hids
  rw [horder'] at hfault
  cases answer with
  | error failure => simp [Except.map, Except.toOption] at hids
  | ok places =>
    cases answer' with
    | ok places => simp [Except.map] at hfault
    | error failure =>
      refine ⟨hvehicles, ⟨places, hanswers, ?_, (hplaces places rfl).1⟩, hacyclic.1 ⟨places, rfl⟩,
        hroundabout, failure, hanswers', Option.some.inj hfault, hrefused failure rfl⟩
      simpa [Except.map, Except.toOption, Function.comp_def] using hids

end ObjectRelational.Extension
