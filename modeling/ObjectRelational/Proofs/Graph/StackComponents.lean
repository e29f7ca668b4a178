import Mathlib.Order.MinMax
import ObjectRelational.Graph.StackComponents
import ObjectRelational.Proofs.Graph.Components

/-!
# The walk that collects components

The walk that keeps a stack finds the classes of mutually reachable nodes, in the order of their last
members. What is on the stack is connected to a node that the walk has not left; so when nothing leads
from a node and from what was entered behind it to a lower place of the stack, this is a whole class.

* `classesAlong_append_singleton`: the class of the last node of an order is listed last.
* `Lowers`: what a visit adds to the stack, and what the lowest place says of it.
* `StackWalk.Tracks`: the invariant, beside the walk that finishes nodes. `Tracks.enter`, `Tracks.keep`
  and `Tracks.collect` are its steps, `stackVisit_tracks` is a whole visit.
* `perm_stackComponents`: the components are the classes, one by one.
-/

namespace ObjectRelational.Graph

variable {α : Type} {next : α → List α} {nodes : List α}

/-! ## The class of the last node -/

/-- The class of the last node is listed last, and its members in front of the node do not matter. -/
theorem classesAlong_append_singleton {equivalent : α → α → Bool}
    (hequiv : ∀ a b, equivalent a b = true ↔ a ∈ nodes ∧ b ∈ nodes ∧ Connected next a b)
    (order : List α) (node : α) :
    classesAlong nodes equivalent (order ++ [node]) =
      classesAlong nodes equivalent (order.filter fun a => !equivalent a node) ++
        [nodes.filter (equivalent node)] := by
  induction order with
  | nil => simp [classesAlong]
  | cons a rest ih =>
    by_cases ha : equivalent a node = true
    · have hany : (rest ++ [node]).any (equivalent a) = true := by simp [ha]
      simp only [List.cons_append, classesAlong, hany, if_true, ih, ha, Bool.not_true,
        Bool.false_eq_true, not_false_eq_true, List.filter_cons_of_neg]
    · -- what is equivalent to `a` is not equivalent to `node`
      have hany : (rest ++ [node]).any (equivalent a) =
          (rest.filter fun b => !equivalent b node).any (equivalent a) := by
        rw [Bool.eq_iff_iff, List.any_eq_true, List.any_eq_true]
        constructor
        · rintro ⟨b, hb, hab⟩
          rcases List.mem_append.1 hb with hb | hb
          · refine ⟨b, List.mem_filter.2 ⟨hb, ?_⟩, hab⟩
            rw [Bool.not_eq_true', Bool.eq_false_iff]
            intro hbn
            rcases (hequiv _ _).1 hab with ⟨hanodes, -, hconn⟩
            rcases (hequiv _ _).1 hbn with ⟨-, hnnodes, hconn'⟩
            exact ha ((hequiv _ _).2 ⟨hanodes, hnnodes, hconn.trans hconn'⟩)
          · rw [List.mem_singleton.1 hb] at hab
            exact absurd hab ha
        · rintro ⟨b, hb, hab⟩
          exact ⟨b, List.mem_append_left _ (List.mem_filter.1 hb).1, hab⟩
      have hfilter : (a :: rest).filter (fun b => !equivalent b node) =
          a :: rest.filter fun b => !equivalent b node := by
        simp [ha]
      rw [List.cons_append, hfilter]
      unfold classesAlong
      rw [hany, ih]
      split
      · rfl
      · rfl

/-! ## Lowest places -/

section Lowers

variable [DecidableEq α]

/-- Visiting `visited` adds to the stack, and lowers the lowest place. Where it leads to on the old stack
is not below the new lowest place; and this place is an old one, is not on the old stack, or is reached. -/
structure Lowers (next : α → List α) (visited stack : List α) (low : Nat) (stack' : List α)
    (low' : Nat) : Prop where
  grows : ∃ added, stack' = stack ++ added ∧
    ∀ a ∈ added, ∀ b ∈ next a, b ∈ stack → low' ≤ stack.idxOf b
  visited_le : ∀ a ∈ visited, a ∈ stack → low' ≤ stack.idxOf a
  le : low' ≤ low
  place : low' = low ∨ stack.length ≤ low' ∨
    ∃ a ∈ visited, ∃ b, stack[low']? = some b ∧ Reaches next a b

variable {stack stack' stack'' : List α} {low low' low'' : Nat} {node : α}

theorem Lowers.refl (stack : List α) (low : Nat) : Lowers next [] stack low stack low where
  grows := ⟨[], by simp, by simp⟩
  visited_le := by simp
  le := le_refl _
  place := Or.inl rfl

/-- A node that is seen already leads to its own place. -/
theorem Lowers.seen (node : α) (stack : List α) (low : Nat) :
    Lowers next [node] stack low stack (min low (stack.idxOf node)) where
  grows := ⟨[], by simp, by simp⟩
  visited_le := by
    intro a ha _
    rw [List.mem_singleton.1 ha]
    exact min_le_right _ _
  le := min_le_left _ _
  place := by
    rcases min_choice low (stack.idxOf node) with h | h
    · exact Or.inl h
    · rw [h]
      rcases Nat.lt_or_ge (stack.idxOf node) stack.length with hlt | hge
      · refine Or.inr (Or.inr ⟨node, List.mem_singleton.2 rfl, node, ?_, Reaches.refl node⟩)
        rw [List.getElem?_eq_getElem hlt, List.getElem_idxOf hlt]
      · exact Or.inr (Or.inl hge)

/-- Visits one after the other lower together. -/
theorem Lowers.trans {visited visited' : List α} (h : Lowers next visited stack low stack' low')
    (h' : Lowers next visited' stack' low' stack'' low'') :
    Lowers next (visited ++ visited') stack low stack'' low'' := by
  rcases h.grows with ⟨added, rfl, hadded⟩
  rcases h'.grows with ⟨added', rfl, hadded'⟩
  have hplace : ∀ b ∈ stack, (stack ++ added).idxOf b = stack.idxOf b := fun b hb =>
    List.idxOf_append_of_mem hb
  constructor
  · refine ⟨added ++ added', by simp, ?_⟩
    intro a ha b hab hb
    rcases List.mem_append.1 ha with ha | ha
    · exact le_trans h'.le (hadded a ha b hab hb)
    · rw [← hplace b hb]
      exact hadded' a ha b hab (List.mem_append_left _ hb)
  · intro a ha hastack
    rcases List.mem_append.1 ha with ha | ha
    · exact le_trans h'.le (h.visited_le a ha hastack)
    · rw [← hplace a hastack]
      exact h'.visited_le a ha (List.mem_append_left _ hastack)
  · exact le_trans h'.le h.le
  · rcases h'.place with rfl | hge | ⟨a, ha, b, hb, hab⟩
    · rcases h.place with rfl | hge | ⟨a, ha, b, hb, hab⟩
      · exact Or.inl rfl
      · exact Or.inr (Or.inl hge)
      · exact Or.inr (Or.inr ⟨a, List.mem_append_left _ ha, b, hb, hab⟩)
    · refine Or.inr (Or.inl ?_)
      rw [List.length_append] at hge
      omega
    · rcases Nat.lt_or_ge low'' stack.length with hlt | hge
      · rw [List.getElem?_append_left hlt] at hb
        exact Or.inr (Or.inr ⟨a, List.mem_append_right _ ha, b, hb, hab⟩)
      · exact Or.inr (Or.inl hge)

end Lowers

/-! ## The invariant -/

section Tracks

variable [DecidableEq α]

/-- The walk with a stack beside the walk that finishes nodes. Nothing leads out of the nodes that are off
the stack; each node on the stack is reached from those below it, and connected to one that is still open.
The components are the classes along the finished nodes that are off the stack. -/
structure StackWalk.Tracks (next : α → List α) (nodes : List α) (w : Walk α) (t : StackWalk α) :
    Prop where
  seen : t.seen = w.seen
  nodup : t.stack.Nodup
  stack_subset : t.stack ⊆ w.seen
  mem_of_open : ∀ a, w.Open a → a ∈ t.stack
  closed : ∀ a ∈ w.seen, a ∉ t.stack → ∀ b ∈ next a, b ∈ w.seen ∧ b ∉ t.stack
  upward : t.stack.Pairwise (Reaches next)
  connected_open : ∀ a ∈ t.stack, ∃ o, w.Open o ∧ Connected next a o
  classes : List.Forall₂ List.Perm t.components
    (classesAlong nodes (connected (closures nodes next)) (w.finished.filter (· ∉ t.stack)))

namespace StackWalk.Tracks

variable {w v : Walk α} {t inner : StackWalk α} {node : α} {added : List α}

theorem start : Tracks next nodes {} {} where
  seen := rfl
  nodup := List.nodup_nil
  stack_subset := List.Subset.refl _
  mem_of_open := by
    intro a ha
    simp [Walk.Open] at ha
  closed := by simp
  upward := List.Pairwise.nil
  connected_open := by simp
  classes := by simp [classesAlong]

/-- What is off the stack leads to nothing on it. -/
theorem not_mem_of_reaches (h : t.Tracks next nodes w) {a b : α} (ha : a ∈ w.seen)
    (hstack : a ∉ t.stack) (hab : Reaches next a b) : b ∈ w.seen ∧ b ∉ t.stack :=
  hab.mem_of_forall_step (s := fun c => c ∈ w.seen ∧ c ∉ t.stack)
    (fun c hc d hd => h.closed c hc.1 hc.2 d hd) ⟨ha, hstack⟩

/-- Entering a node puts it on top of the stack. -/
theorem enter (h : t.Tracks next nodes w) (hw : w.Sound next nodes) (hnew : node ∉ w.seen)
    (hopen : ∀ a, w.Open a → Reaches next a node) :
    (t.enter node).Tracks next nodes { w with seen := node :: w.seen } := by
  have hfresh : node ∉ w.finished := fun hmem => hnew (hw.finished_subset hmem)
  have hstack : node ∉ t.stack := fun hmem => hnew (h.stack_subset hmem)
  constructor
  · simp [StackWalk.enter, h.seen]
  · have hdisjoint : ∀ a ∈ t.stack, a ≠ node := fun a ha heq => hstack (heq ▸ ha)
    simpa [StackWalk.enter, List.nodup_append, h.nodup] using hdisjoint
  · intro a ha
    rcases List.mem_append.1 ha with ha | ha
    · exact List.mem_cons_of_mem _ (h.stack_subset ha)
    · exact List.mem_singleton.1 ha ▸ List.mem_cons_self
  · rintro a ⟨hseen, hfin⟩
    rcases List.mem_cons.1 hseen with rfl | hseen
    · exact List.mem_append_right _ List.mem_cons_self
    · exact List.mem_append_left _ (h.mem_of_open a ⟨hseen, hfin⟩)
  · intro a ha hoff b hb
    simp only [StackWalk.enter, List.mem_append, List.mem_singleton, not_or] at hoff ⊢
    have hold := h.closed a ((List.mem_cons.1 ha).resolve_left hoff.2) hoff.1 b hb
    exact ⟨List.mem_cons_of_mem _ hold.1, hold.2, fun heq => hnew (heq ▸ hold.1)⟩
  · refine List.pairwise_append.2 ⟨h.upward, List.pairwise_singleton _ _, ?_⟩
    intro a ha b hb
    rw [List.mem_singleton.1 hb]
    rcases h.connected_open a ha with ⟨o, ho, hao⟩
    exact hao.1.trans (hopen o ho)
  · intro a ha
    rcases List.mem_append.1 ha with ha | ha
    · rcases h.connected_open a ha with ⟨o, ho, hao⟩
      exact ⟨o, ⟨List.mem_cons_of_mem _ ho.1, ho.2⟩, hao⟩
    · rw [List.mem_singleton.1 ha]
      exact ⟨node, ⟨List.mem_cons_self, hfresh⟩, Connected.refl next node⟩
  · have hfilter : w.finished.filter (· ∉ (t.enter node).stack) =
        w.finished.filter (· ∉ t.stack) := by
      apply List.filter_congr
      intro a ha
      have hne : a ≠ node := fun heq => hfresh (heq ▸ ha)
      simp [StackWalk.enter, hne]
    exact hfilter ▸ h.classes

/-- A node that leads to a node below it stays on the stack when it is left. -/
theorem keep (h : inner.Tracks next nodes v) (hnode : node ∈ inner.stack)
    (hbelow : ∃ o, v.Open o ∧ o ≠ node ∧ Connected next node o) :
    inner.Tracks next nodes (v.finish node) where
  seen := h.seen
  nodup := h.nodup
  stack_subset := h.stack_subset
  mem_of_open a ha := h.mem_of_open a (Walk.open_finish_iff.1 ha).1
  closed := h.closed
  upward := h.upward
  connected_open := by
    intro a ha
    rcases h.connected_open a ha with ⟨o, ho, hao⟩
    by_cases heq : o = node
    · rcases hbelow with ⟨o', ho', hne, hconn⟩
      exact ⟨o', Walk.open_finish_iff.2 ⟨ho', hne⟩, (heq ▸ hao).trans hconn⟩
    · exact ⟨o, Walk.open_finish_iff.2 ⟨ho, heq⟩, hao⟩
  classes := by
    simpa [Walk.finish, List.filter_append, hnode] using h.classes

section Collect

variable (hnodes : Closed next nodes) (h : t.Tracks next nodes w)
  (hinner : inner.Tracks next nodes v) (hv : v.Sound next nodes)
  (hstack : inner.stack = t.stack ++ node :: added)
  (hopen : ∀ a, v.Open a ↔ w.Open a ∨ a = node) (hseen : ∀ b ∈ next node, b ∈ v.seen)
  (hroot : ∀ a ∈ node :: added, ∀ b ∈ next a, b ∉ t.stack)

include hinner hstack

/-- What was entered with the node and behind it is not on the stack below. -/
theorem not_mem_of_mem_segment : ∀ a ∈ node :: added, a ∉ t.stack := by
  intro a ha hmem
  have hnodup := hinner.nodup
  rw [hstack] at hnodup
  exact (List.nodup_append.1 hnodup).2.2 a hmem a ha rfl

include h hv hopen hseen hroot

/-- Behind a node from which nothing leads to a lower place nothing leads there either. -/
theorem closed_of_root : ∀ a ∈ v.seen, a ∉ t.stack → ∀ b ∈ next a, b ∈ v.seen ∧ b ∉ t.stack := by
  intro a ha hoff b hb
  by_cases hmem : a ∈ inner.stack
  · have hsegment : a ∈ node :: added := by
      rw [hstack] at hmem
      exact (List.mem_append.1 hmem).resolve_left hoff
    refine ⟨?_, hroot a hsegment b hb⟩
    by_cases heq : a = node
    · exact hseen b (heq ▸ hb)
    · -- all others behind the node have been left
      have hfin : a ∈ v.finished := by
        by_contra hnot
        rcases (hopen a).1 ⟨ha, hnot⟩ with hold | hold
        · exact hoff (h.mem_of_open a hold)
        · exact heq hold
      exact hv.closed a hfin b hb
  · have hold := hinner.closed a ha hmem b hb
    refine ⟨hold.1, fun hmem' => hold.2 ?_⟩
    rw [hstack]
    exact List.mem_append_left _ hmem'

/-- Such a node and what was entered behind it are a whole class. -/
theorem mem_segment_iff {a : α} : a ∈ node :: added ↔ Connected next node a := by
  have hnode : node ∈ inner.stack := by
    rw [hstack]
    exact List.mem_append_right _ List.mem_cons_self
  have hnodeSeen : node ∈ v.seen := hinner.stack_subset hnode
  have hdisjoint := not_mem_of_mem_segment hinner hstack
  have hclosed := closed_of_root h hinner hv hstack hopen hseen hroot
  constructor
  · intro ha
    have hastack : a ∈ inner.stack := by
      rw [hstack]
      exact List.mem_append_right _ ha
    have hup : Reaches next node a := by
      rcases List.mem_cons.1 ha with rfl | hmem
      · exact Reaches.refl _
      · have hpair := hinner.upward
        rw [hstack] at hpair
        exact (List.pairwise_cons.1 (List.pairwise_append.1 hpair).2.1).1 a hmem
    rcases hinner.connected_open a hastack with ⟨o, ho, hao⟩
    rcases (hopen o).1 ho with hold | rfl
    · -- an older open node cannot be reached
      have hreach := hao.1.mem_of_forall_step
        (s := fun c => c ∈ v.seen ∧ c ∉ t.stack)
        (fun c hc d hd => hclosed c hc.1 hc.2 d hd)
        ⟨hinner.stack_subset hastack, hdisjoint a ha⟩
      exact absurd (h.mem_of_open o hold) hreach.2
    · exact ⟨hup, hao.1⟩
  · intro hconn
    have hreach := hconn.1.mem_of_forall_step
      (s := fun c => c ∈ v.seen ∧ c ∉ t.stack)
      (fun c hc d hd => hclosed c hc.1 hc.2 d hd) ⟨hnodeSeen, hdisjoint node List.mem_cons_self⟩
    by_contra hnot
    have hoff : a ∉ inner.stack := by
      rw [hstack, List.mem_append, not_or]
      exact ⟨hreach.2, hnot⟩
    exact (hinner.not_mem_of_reaches hreach.1 hoff hconn.2).2 hnode

include hnodes

/-- What was entered with the node and behind it are the members of its class. -/
theorem perm_segment (hnodup : nodes.Nodup) (hnode : node ∈ nodes) :
    (node :: added).Perm (nodes.filter (connected (closures nodes next) node)) := by
  have hdistinct := hinner.nodup
  rw [hstack] at hdistinct
  refine (List.perm_ext_iff_of_nodup (List.nodup_append.1 hdistinct).2.1
    (hnodup.filter _)).2 fun a => ?_
  rw [List.mem_filter, connected_closures_iff hnodes,
    mem_segment_iff h hinner hv hstack hopen hseen hroot]
  constructor
  · intro hconn
    have ha : a ∈ nodes := hconn.1.mem_of_forall_step hnodes hnode
    exact ⟨ha, hnode, ha, hconn⟩
  · rintro ⟨-, -, -, hconn⟩
    exact hconn

/-- Without its class, the finished nodes are those that were off the stack when it was still on it. -/
theorem filter_finished (hnode : node ∈ nodes) : ((v.finished.filter (· ∉ t.stack)).filter
    fun a => !connected (closures nodes next) a node) = v.finished.filter (· ∉ inner.stack) := by
  rw [List.filter_filter]
  apply List.filter_congr
  intro a ha
  have hanodes : a ∈ nodes := hv.seen_subset (hv.finished_subset ha)
  have hconn : connected (closures nodes next) a node = true ↔ a ∈ node :: added := by
    rw [connected_closures_iff hnodes, mem_segment_iff h hinner hv hstack hopen hseen hroot]
    exact ⟨fun hc => hc.2.2.symm, fun hc => ⟨hanodes, hnode, hc.symm⟩⟩
  rw [Bool.eq_iff_iff]
  simp only [Bool.and_eq_true, Bool.not_eq_true', ← Bool.not_eq_true, hconn, decide_eq_true_eq,
    hstack, List.mem_append, not_or]
  exact and_comm

/-- Such a node takes its class off the stack when it is left. -/
theorem collect (hnodup : nodes.Nodup) (hnode : node ∈ nodes) :
    StackWalk.Tracks next nodes (v.finish node)
      { inner with stack := t.stack, components := inner.components ++ [node :: added] } := by
  have hoff : node ∉ t.stack := not_mem_of_mem_segment hinner hstack node List.mem_cons_self
  have hsub : t.stack ⊆ inner.stack := by
    rw [hstack]
    exact List.subset_append_left _ _
  have hclosed := closed_of_root h hinner hv hstack hopen hseen hroot
  constructor
  · exact hinner.seen
  · exact h.nodup
  · exact fun a ha => hinner.stack_subset (hsub ha)
  · intro a ha
    rcases Walk.open_finish_iff.1 ha with ⟨hopenv, hne⟩
    exact h.mem_of_open a (((hopen a).1 hopenv).resolve_right hne)
  · exact hclosed
  · exact h.upward
  · intro a ha
    rcases h.connected_open a ha with ⟨o, ho, hao⟩
    refine ⟨o, Walk.open_finish_iff.2 ⟨(hopen o).2 (Or.inl ho), ?_⟩, hao⟩
    intro heq
    exact hoff (h.mem_of_open node (heq ▸ ho))
  · have hfinished : (v.finish node).finished.filter (· ∉ t.stack) =
        v.finished.filter (· ∉ t.stack) ++ [node] := by
      simp [Walk.finish, List.filter_append, hoff]
    have hothers := filter_finished hnodes h hinner hv hstack hopen hseen hroot hnode
    have hclass := perm_segment hnodes h hinner hv hstack hopen hseen hroot hnodup hnode
    rw [hfinished, classesAlong_append_singleton (fun _ _ => connected_closures_iff hnodes), hothers]
    exact List.rel_append hinner.classes (.cons hclass .nil)

end Collect

end StackWalk.Tracks

/-! ## Visits -/

/-- Visits of a depth track the walk that finishes nodes, and lower the lowest place. -/
def VisitsTrack (next : α → List α) (nodes : List α) (depth : Nat) : Prop :=
  ∀ (w : Walk α) (t : StackWalk α) (low : Nat) (node : α), w.Sound next nodes →
    t.Tracks next nodes w → node ∈ nodes → nodes.length ≤ depth + w.seen.length →
    (∀ a, w.Open a → Reaches next a node) →
      (stackVisit next depth (t, low) node).1.Tracks next nodes (visit next depth w node) ∧
        Lowers next [node] t.stack low (stackVisit next depth (t, low) node).1.stack
          (stackVisit next depth (t, low) node).2

/-- So do visits of successors of an open node, one after the other. -/
theorem VisitsTrack.foldl {depth : Nat} (h : VisitsTrack next nodes depth)
    (hnodes : Closed next nodes) {node : α} (hnode : node ∈ nodes) {l : List α}
    (hl : ∀ b ∈ l, b ∈ next node) {w : Walk α} (hw : w.Sound next nodes) {t : StackWalk α}
    (ht : t.Tracks next nodes w) (low : Nat) (hdepth : nodes.length ≤ depth + w.seen.length)
    (hopen : ∀ a, w.Open a → Reaches next a node) :
    (l.foldl (stackVisit next depth) (t, low)).1.Tracks next nodes (l.foldl (visit next depth) w) ∧
      Lowers next l t.stack low (l.foldl (stackVisit next depth) (t, low)).1.stack
        (l.foldl (stackVisit next depth) (t, low)).2 := by
  induction l generalizing w t low with
  | nil => exact ⟨ht, Lowers.refl _ _⟩
  | cons b rest ih =>
    have hb : b ∈ next node := hl b List.mem_cons_self
    have hreach : ∀ a, w.Open a → Reaches next a b := fun a ha =>
      (hopen a ha).trans (Reaches.step hb)
    rcases visit_sound hnodes depth w b hw (hnodes node hnode b hb) hdepth hreach with
      ⟨hsound, -, hext⟩
    rcases h w t low b hw ht (hnodes node hnode b hb) hdepth hreach with ⟨htracks, hlowers⟩
    have hdepth' : nodes.length ≤ depth + (visit next depth w b).seen.length :=
      le_trans hdepth (Nat.add_le_add_left hext.seen.length_le _)
    rcases ih (fun c hc => hl c (List.mem_cons_of_mem _ hc)) hsound htracks
      (stackVisit next depth (t, low) b).2 hdepth'
      (fun a ha => hopen a ((hext.open_iff a).1 ha)) with ⟨htracks', hlowers'⟩
    exact ⟨htracks', hlowers.trans hlowers'⟩

section Leave

variable {w v : Walk α} {t inner : StackWalk α} {node : α} {added : List α} {low innerLow : Nat}

/-- A node that leads to a place below its own stays on the stack when it is left: from there an open node
is reached. -/
theorem StackWalk.Tracks.leave_below (ht : t.Tracks next nodes w) (hnew : node ∉ w.seen)
    (hopen : ∀ a, w.Open a → Reaches next a node) (hopenIff : ∀ a, v.Open a ↔ w.Open a ∨ a = node)
    (hinner : inner.Tracks next nodes v) (hsegment : inner.stack = t.stack ++ node :: added)
    (hlowest : ∀ a ∈ node :: added, ∀ b ∈ next a, b ∈ t.stack → innerLow ≤ t.stack.idxOf b)
    {y : α} (hy : t.stack[innerLow]? = some y) (hreach : Reaches next node y) :
    inner.Tracks next nodes (v.finish node) ∧
      Lowers next [node] t.stack low inner.stack (min low innerLow) := by
  have hoff : node ∉ t.stack := fun hmem => hnew (ht.stack_subset hmem)
  rcases ht.connected_open y (List.mem_of_getElem? hy) with ⟨o, ho, hyo⟩
  have hne : o ≠ node := fun heq => hnew (heq ▸ ho.1)
  have hbelow : ∃ o, v.Open o ∧ o ≠ node ∧ Connected next node o :=
    ⟨o, (hopenIff o).2 (Or.inl ho), hne, hreach.trans hyo.1, hopen o ho⟩
  have hnode : node ∈ inner.stack := by
    rw [hsegment]
    exact List.mem_append_right _ List.mem_cons_self
  refine ⟨hinner.keep hnode hbelow, ?_⟩
  constructor
  · exact ⟨node :: added, hsegment,
      fun a ha b hab hb => le_trans (min_le_right _ _) (hlowest a ha b hab hb)⟩
  · intro a ha hastack
    rw [List.mem_singleton.1 ha] at hastack
    exact absurd hastack hoff
  · exact min_le_left _ _
  · rcases min_choice low innerLow with h | h
    · exact Or.inl h
    · rw [h]
      exact Or.inr (Or.inr ⟨node, List.mem_singleton.2 rfl, y, hy, hreach⟩)

/-- A node that is left with its class leads to nothing on the stack. -/
theorem Lowers.of_collected (hoff : node ∉ t.stack) :
    Lowers next [node] t.stack low t.stack (min low t.stack.length) := by
  constructor
  · exact ⟨[], by simp, by simp⟩
  · intro a ha hastack
    rw [List.mem_singleton.1 ha] at hastack
    exact absurd hastack hoff
  · exact min_le_left _ _
  · rcases min_choice low t.stack.length with h | h
    · exact Or.inl h
    · rw [h]
      exact Or.inr (Or.inl (le_refl _))

/-- Leaving a node, when the visits of its successors have been tracked. -/
theorem StackWalk.Tracks.leave (hnodes : Closed next nodes) (hnodup : nodes.Nodup)
    (hnode : node ∈ nodes) (ht : t.Tracks next nodes w) (hnew : node ∉ w.seen)
    (hopen : ∀ a, w.Open a → Reaches next a node) (hv : v.Sound next nodes)
    (hseen : ∀ b ∈ next node, b ∈ v.seen) (hopenIff : ∀ a, v.Open a ↔ w.Open a ∨ a = node)
    (hinner : inner.Tracks next nodes v)
    (hlowers : Lowers next (next node) (t.enter node).stack t.stack.length inner.stack innerLow) :
    (inner.leave t.stack.length innerLow).1.Tracks next nodes (v.finish node) ∧
      Lowers next [node] t.stack low (inner.leave t.stack.length innerLow).1.stack
        (min low (inner.leave t.stack.length innerLow).2) := by
  rcases hlowers.grows with ⟨added, hstack, hadded⟩
  have hoff : node ∉ t.stack := fun hmem => hnew (ht.stack_subset hmem)
  have hsegment : inner.stack = t.stack ++ node :: added := by
    rw [hstack, StackWalk.enter, List.append_assoc, List.singleton_append]
  have hplace : ∀ b ∈ t.stack, (t.enter node).stack.idxOf b = t.stack.idxOf b := fun b hb =>
    List.idxOf_append_of_mem hb
  -- nothing behind the node leads below the lowest place
  have hlowest : ∀ a ∈ node :: added, ∀ b ∈ next a, b ∈ t.stack → innerLow ≤ t.stack.idxOf b := by
    intro a ha b hab hb
    rw [← hplace b hb]
    rcases List.mem_cons.1 ha with rfl | ha
    · exact hlowers.visited_le b hab (List.mem_append_left _ hb)
    · exact hadded a ha b hab (List.mem_append_left _ hb)
  unfold StackWalk.leave
  by_cases hlow : innerLow < t.stack.length
  · simp only [hlow, if_true]
    rcases hlowers.place with heq | hge | ⟨b, hb, y, hy, hby⟩
    · exact absurd hlow (by omega)
    · simp only [StackWalk.enter, List.length_append, List.length_singleton] at hge
      exact absurd hlow (by omega)
    · rw [StackWalk.enter, List.getElem?_append_left hlow] at hy
      exact ht.leave_below hnew hopen hopenIff hinner hsegment hlowest hy
        ((Reaches.step hb).trans hby)
  · have hroot : ∀ a ∈ node :: added, ∀ b ∈ next a, b ∉ t.stack := by
      intro a ha b hab hb
      have hle := hlowest a ha b hab hb
      have hlt := List.idxOf_lt_length_of_mem hb
      omega
    have hcollected := StackWalk.Tracks.collect hnodes ht hinner hv hsegment hopenIff hseen hroot
      hnodup hnode
    simp only [hlow, if_false, hsegment, List.take_left, List.drop_left]
    exact ⟨hcollected, Lowers.of_collected hoff⟩

end Leave

/-- Visits of every depth track the walk, as long as the depth is not used up before all nodes are
seen. -/
theorem stackVisit_tracks (hnodes : Closed next nodes) (hnodup : nodes.Nodup) (depth : Nat) :
    VisitsTrack next nodes depth := by
  induction depth with
  | zero =>
    intro w t low node _ ht _ _ _
    exact ⟨ht, Lowers.seen node t.stack low⟩
  | succ depth ih =>
    intro w t low node hw ht hnode hdepth hopen
    unfold stackVisit visit
    rw [ht.seen]
    simp only
    split
    · exact ⟨ht, Lowers.seen node t.stack low⟩
    · rename_i hnew
      have hfresh : node ∉ w.finished := fun hmem => hnew (hw.finished_subset hmem)
      let entered : Walk α := { w with seen := node :: w.seen }
      have hentered : ∀ a, entered.Open a → Reaches next a node := by
        rintro a ⟨hseen, hfin⟩
        rcases List.mem_cons.1 hseen with rfl | hseen
        · exact Reaches.refl _
        · exact hopen a ⟨hseen, hfin⟩
      have hdepth' : nodes.length ≤ depth + entered.seen.length := by
        simp only [entered, List.length_cons]
        omega
      have hsound := hw.enter hnode hnew
      rcases (visit_sound hnodes depth).foldl hnodes hnode (fun _ hb => hb) hsound hdepth'
        hentered with ⟨hv, hseen, hext⟩
      rcases ih.foldl hnodes hnode (fun _ hb => hb) hsound (ht.enter hw hnew hopen) t.stack.length
        hdepth' hentered with ⟨hinner, hlowers⟩
      -- the open nodes are those of before, and `node`
      have hopenIff : ∀ a, ((next node).foldl (visit next depth) entered).Open a ↔
          w.Open a ∨ a = node := by
        intro a
        rw [hext.open_iff]
        constructor
        · rintro ⟨hmem, hfin⟩
          rcases List.mem_cons.1 hmem with rfl | hmem
          · exact Or.inr rfl
          · exact Or.inl ⟨hmem, hfin⟩
        · rintro (hold | rfl)
          · exact ⟨List.mem_cons_of_mem _ hold.1, hold.2⟩
          · exact ⟨List.mem_cons_self, hfresh⟩
      exact StackWalk.Tracks.leave hnodes hnodup hnode ht hnew hopen hv hseen hopenIff hinner hlowers

/-- A walk through a list of nodes tracks the one that finishes them. -/
theorem foldl_stackVisit_tracks (hnodes : Closed next nodes) (hnodup : nodes.Nodup) (l : List α)
    {w : Walk α} {t : StackWalk α} (low : Nat) (hl : l ⊆ nodes) (hw : w.Sound next nodes)
    (ht : t.Tracks next nodes w) (hopen : ∀ a, ¬ w.Open a) :
    (l.foldl (stackVisit next nodes.length) (t, low)).1.Tracks next nodes
      (l.foldl (visit next nodes.length) w) := by
  induction l generalizing w t low with
  | nil => exact ht
  | cons b rest ih =>
    rcases List.cons_subset.1 hl with ⟨hb, hrest⟩
    have hnone : ∀ a, w.Open a → Reaches next a b := fun a ha => absurd ha (hopen a)
    rcases visit_sound hnodes nodes.length w b hw hb (Nat.le_add_right _ _) hnone with
      ⟨hsound, -, hext⟩
    have htracks := (stackVisit_tracks hnodes hnodup nodes.length w t low b hw ht hb
      (Nat.le_add_right _ _) hnone).1
    exact ih _ hrest hsound htracks fun a ha => hopen a ((hext.open_iff a).1 ha)

/-- The components that the walk collects are the classes of nodes that reach each other, each listed
where its last member is finished. -/
theorem perm_stackComponents (hnodes : Closed next nodes) (hnodup : nodes.Nodup) :
    List.Forall₂ List.Perm (stackComponents nodes next) (components nodes next) := by
  have hnone : ∀ a, ¬ ({} : Walk α).Open a := by simp [Walk.Open]
  have htracks := foldl_stackVisit_tracks hnodes hnodup nodes 0 (List.Subset.refl _)
    Walk.sound_empty StackWalk.Tracks.start hnone
  rcases foldl_visit_sound hnodes nodes (List.Subset.refl _) Walk.sound_empty hnone with
    ⟨-, -, hopen⟩
  -- no node is open in the end, so none is on the stack
  have hempty : (nodes.foldl (stackVisit next nodes.length) ({}, 0)).1.stack = [] := by
    rw [List.eq_nil_iff_forall_not_mem]
    intro a ha
    rcases htracks.connected_open a ha with ⟨o, ho, -⟩
    exact hopen o ho
  have hclasses := htracks.classes
  rw [hempty] at hclasses
  simpa [stackComponents, components, postorder] using hclasses

end Tracks

end ObjectRelational.Graph
