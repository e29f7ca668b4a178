import Mathlib.Data.List.Basic
import ObjectRelational.Proofs.Graph.Postorder

/-!
# The order of strongly connected components

Listing every component where its last member is finished puts it behind all components that it
reaches. This is what the walk gives: some member of a component is finished behind everything that
the component reaches, so its last member is.

* `precedes_classesAlong`: classes stand in the order of their last members.
* `connected_closures_iff`: the table of closures tells which nodes are connected.
* `precedes_components`, `mem_components_iff`, `components_pairwise_disjoint`: the components.
-/

namespace ObjectRelational.Graph

variable {α : Type} {next : α → List α} {nodes : List α}

/-! ## Classes along an order -/

section Classes

variable {equivalent : α → α → Bool}
  (hequiv : ∀ a b, equivalent a b = true ↔ a ∈ nodes ∧ b ∈ nodes ∧ Connected next a b)

include hequiv

theorem filter_equivalent_eq {a b : α} (h : equivalent a b = true) :
    nodes.filter (equivalent a) = nodes.filter (equivalent b) := by
  rcases (hequiv a b).1 h with ⟨ha, hb, hab⟩
  apply List.filter_congr
  intro c hc
  rw [Bool.eq_iff_iff, hequiv, hequiv]
  constructor
  · rintro ⟨-, -, hac⟩
    exact ⟨hb, hc, hab.symm.trans hac⟩
  · rintro ⟨-, -, hbc⟩
    exact ⟨ha, hc, hab.trans hbc⟩

/-- The classes along an order are those of its members. -/
theorem mem_classesAlong_iff {order : List α} {component : List α} :
    component ∈ classesAlong nodes equivalent order ↔
      ∃ a ∈ order, component = nodes.filter (equivalent a) := by
  induction order with
  | nil => simp [classesAlong]
  | cons node rest ih =>
    unfold classesAlong
    split
    · rename_i hany
      rcases List.any_eq_true.1 hany with ⟨b, hb, hnb⟩
      rw [ih]
      constructor
      · rintro ⟨a, ha, rfl⟩
        exact ⟨a, List.mem_cons_of_mem _ ha, rfl⟩
      · rintro ⟨a, ha, rfl⟩
        rcases List.mem_cons.1 ha with rfl | ha
        · exact ⟨b, hb, filter_equivalent_eq hequiv hnb⟩
        · exact ⟨a, ha, rfl⟩
    · rw [List.mem_cons, ih]
      simp

/-- No node is in two classes. -/
theorem classesAlong_pairwise_disjoint (order : List α) :
    (classesAlong nodes equivalent order).Pairwise List.Disjoint := by
  induction order with
  | nil => simp [classesAlong]
  | cons node rest ih =>
    unfold classesAlong
    split
    · exact ih
    · rename_i hany
      refine List.pairwise_cons.2 ⟨?_, ih⟩
      intro component hcomponent c hc hc'
      rcases (mem_classesAlong_iff hequiv).1 hcomponent with ⟨a, ha, rfl⟩
      apply hany
      rw [List.any_eq_true]
      rcases (hequiv _ _).1 (List.mem_filter.1 hc).2 with ⟨hn, -, hnc⟩
      rcases (hequiv _ _).1 (List.mem_filter.1 hc').2 with ⟨ha', -, hac⟩
      exact ⟨a, ha, (hequiv _ _).2 ⟨hn, ha', hnc.trans hac.symm⟩⟩

/-- A class stands before another one when each of its members in the order stands before some
member of the other. -/
theorem precedes_classesAlong {order : List α} (hnodup : order.Nodup) {a b : α} (hb : b ∈ order)
    (hbnodes : b ∈ nodes)
    (h : ∀ b' ∈ order, equivalent b b' = true → ∃ a', equivalent a a' = true ∧
      Precedes order b' a') :
    Precedes (classesAlong nodes equivalent order) (nodes.filter (equivalent b))
      (nodes.filter (equivalent a)) := by
  induction order generalizing b with
  | nil => simp at hb
  | cons node rest ih =>
    rcases List.nodup_cons.1 hnodup with ⟨hnode, hrest⟩
    -- what stands behind a node of `rest` stands behind it in `rest` too
    have htail : ∀ b' ∈ rest, equivalent b b' = true →
        ∃ a', equivalent a a' = true ∧ Precedes rest b' a' := by
      intro b' hb' hbb'
      rcases h b' (List.mem_cons_of_mem _ hb') hbb' with ⟨a', haa', hprecedes⟩
      rcases hprecedes.of_cons.2 with rfl | hprecedes
      · exact absurd hb' hnode
      · exact ⟨a', haa', hprecedes⟩
    unfold classesAlong
    split
    · rename_i hany
      rcases List.mem_cons.1 hb with rfl | hb
      · rcases List.any_eq_true.1 hany with ⟨c, hc, hbc⟩
        rw [filter_equivalent_eq hequiv hbc]
        refine ih hrest hc ((hequiv _ _).1 hbc).2.1 ?_
        intro b' hb' hcb'
        apply htail b' hb'
        rcases (hequiv _ _).1 hbc with ⟨-, -, hbc'⟩
        rcases (hequiv _ _).1 hcb' with ⟨-, hb'nodes, hcb''⟩
        exact (hequiv _ _).2 ⟨hbnodes, hb'nodes, hbc'.trans hcb''⟩
      · exact ih hrest hb hbnodes htail
    · rename_i hany
      by_cases hbn : equivalent b node = true
      · -- `node` is the last member of the class of `b`
        rcases h node List.mem_cons_self hbn with ⟨a', haa', hprecedes⟩
        rw [filter_equivalent_eq hequiv hbn, filter_equivalent_eq hequiv haa']
        have hclass := (mem_classesAlong_iff hequiv).2 ⟨a', hprecedes.of_cons.1, rfl⟩
        exact Precedes.of_mem (l := [_]) List.mem_cons_self hclass
      · have hb' : b ∈ rest := by
          rcases List.mem_cons.1 hb with rfl | hb
          · exact absurd ((hequiv _ _).2 ⟨hbnodes, hbnodes, Connected.refl next _⟩) hbn
          · exact hb
        exact (ih hrest hb' hbnodes htail).append_left (m := [_])

end Classes

/-! ## The table of closures -/

variable [DecidableEq α]

theorem reaches_closures_iff (hnodes : Closed next nodes) {a b : α} :
    reaches (closures nodes next) a b = true ↔ a ∈ nodes ∧ Reaches next a b := by
  unfold reaches
  by_cases ha : a ∈ nodes
  · have hlookup : (closures nodes next).lookup a = some (reachable nodes.length next [a]) :=
      List.lookup_graph (fun node => reachable nodes.length next [node]) ha
    have hstart : [a] ⊆ nodes := by simpa using ha
    rw [hlookup]
    simp [ha, mem_reachable_iff hnodes (le_refl nodes.length) hstart]
  · have hlookup : (closures nodes next).lookup a = none := by
      rw [List.lookup_eq_none_iff]
      intro p hp
      rcases List.mem_map.1 hp with ⟨node, hnode, rfl⟩
      have hne : a ≠ node := fun h => ha (h ▸ hnode)
      simpa using hne
    rw [hlookup]
    simp [ha]

theorem connected_closures_iff (hnodes : Closed next nodes) {a b : α} :
    connected (closures nodes next) a b = true ↔
      a ∈ nodes ∧ b ∈ nodes ∧ Connected next a b := by
  unfold connected Connected
  rw [Bool.and_eq_true, reaches_closures_iff hnodes, reaches_closures_iff hnodes]
  tauto

/-! ## Components -/

/-- Every component is the class of a node. -/
theorem mem_components_iff (hnodes : Closed next nodes) {component : List α} :
    component ∈ components nodes next ↔
      ∃ a ∈ nodes, component = nodes.filter (connected (closures nodes next) a) := by
  unfold components
  rw [mem_classesAlong_iff (fun a b => connected_closures_iff hnodes)]
  simp only [mem_postorder_iff hnodes]

theorem components_pairwise_disjoint (hnodes : Closed next nodes) :
    (components nodes next).Pairwise List.Disjoint :=
  classesAlong_pairwise_disjoint (fun _ _ => connected_closures_iff hnodes) _

/-- What a node reaches, but does not reach it back, has its component before that of the node. -/
theorem precedes_components (hnodes : Closed next nodes) {a b : α} (ha : a ∈ nodes)
    (hab : Reaches next a b) (hba : ¬ Reaches next b a) :
    Precedes (components nodes next) (nodes.filter (connected (closures nodes next) b))
      (nodes.filter (connected (closures nodes next) a)) := by
  have hb : b ∈ nodes := hab.mem_of_forall_step hnodes ha
  refine precedes_classesAlong (fun _ _ => connected_closures_iff hnodes)
    (postorder_nodup hnodes) ((mem_postorder_iff hnodes).2 hb) hb ?_
  intro b' _ hbb'
  rcases (connected_closures_iff hnodes).1 hbb' with ⟨-, -, hconn⟩
  rcases exists_connected_behind hnodes ha (hab.trans hconn.1) with ⟨a', ha', haa', hbefore⟩
  refine ⟨a', (connected_closures_iff hnodes).2 ⟨ha, (mem_postorder_iff hnodes).1 ha', haa'⟩, ?_⟩
  rcases hbefore with rfl | hbefore
  · exact absurd (hconn.1.trans haa'.2) hba
  · exact hbefore

end ObjectRelational.Graph
