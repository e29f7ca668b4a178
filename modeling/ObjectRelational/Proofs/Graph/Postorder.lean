import ObjectRelational.Graph.Components
import ObjectRelational.Proofs.Graph.Reachability

/-!
# The order in which a depth-first walk finishes

A walk finishes a node after all that the node reaches, unless the node shares a cycle with a node
that the walk has not left yet. So among the nodes of a cycle the last one to be finished comes
behind everything that the cycle reaches.

* `Connected` says that two nodes reach each other, `Precedes` that one is listed before another.
* `Walk.Sound` is the invariant of a walk in progress, `visit_sound` its step.
* `exists_connected_behind` is the order, `mem_postorder_iff` and `postorder_nodup` say that every
  node is listed once.
-/

namespace ObjectRelational.Graph

variable {α : Type}

/-- The nodes reach each other. -/
def Connected (next : α → List α) (a b : α) : Prop := Reaches next a b ∧ Reaches next b a

/-- `b` is listed before `a`. -/
def Precedes (l : List α) (b a : α) : Prop := ∃ front back, l = front ++ a :: back ∧ b ∈ front

namespace Connected

variable {next : α → List α} {a b c : α}

theorem refl (next : α → List α) (a : α) : Connected next a a := ⟨Reaches.refl a, Reaches.refl a⟩

theorem symm (h : Connected next a b) : Connected next b a := ⟨h.2, h.1⟩

theorem trans (hab : Connected next a b) (hbc : Connected next b c) : Connected next a c :=
  ⟨hab.1.trans hbc.1, hbc.2.trans hab.2⟩

end Connected

namespace Precedes

variable {l m : List α} {a b c : α}

theorem append (h : Precedes l b a) : Precedes (l ++ m) b a := by
  rcases h with ⟨front, back, rfl, hb⟩
  exact ⟨front, back ++ m, by simp, hb⟩

theorem append_left (h : Precedes l b a) : Precedes (m ++ l) b a := by
  rcases h with ⟨front, back, rfl, hb⟩
  exact ⟨m ++ front, back, by simp, List.mem_append_right _ hb⟩

/-- What stands in a first part comes before what stands in a second one. -/
theorem of_mem (hb : b ∈ l) (ha : a ∈ m) : Precedes (l ++ m) b a := by
  rcases List.append_of_mem ha with ⟨front, back, rfl⟩
  exact ⟨l ++ front, back, by simp, List.mem_append_left _ hb⟩

theorem mem_left (h : Precedes l b a) : b ∈ l := by
  rcases h with ⟨front, back, rfl, hb⟩
  exact List.mem_append_left _ hb

/-- Only the first member of a list precedes anything without doing so in the rest. -/
theorem of_cons (h : Precedes (c :: l) b a) : a ∈ l ∧ (b = c ∨ Precedes l b a) := by
  rcases h with ⟨front, back, hsplit, hmem⟩
  cases front with
  | nil => cases hmem
  | cons d front =>
    rcases List.cons.inj hsplit with ⟨rfl, rfl⟩
    refine ⟨List.mem_append_right _ List.mem_cons_self, ?_⟩
    rcases List.mem_cons.1 hmem with rfl | hmem
    · exact Or.inl rfl
    · exact Or.inr ⟨front, back, rfl, hmem⟩

/-- In a list without repetitions all that precedes a node stands before its one place. -/
theorem mem_front (h : Precedes l b a) (hnodup : l.Nodup) {front back : List α}
    (hl : l = front ++ a :: back) : b ∈ front := by
  rcases h with ⟨front', back', hsplit, hmem⟩
  rw [hl] at hsplit hnodup
  rcases List.nodup_append.1 hnodup with ⟨-, htail, hdisjoint⟩
  have hfront : a ∉ front := fun ha => hdisjoint a ha a List.mem_cons_self rfl
  have hback : a ∉ back := (List.nodup_cons.1 htail).1
  have hsame : front = front' := ((List.append_cons_inj_of_notMem hfront hback).1 hsplit).1
  exact hsame ▸ hmem

theorem trans (hbc : Precedes l c b) (hab : Precedes l b a) (hnodup : l.Nodup) :
    Precedes l c a := by
  rcases hab with ⟨front, back, hl, hb⟩
  rcases List.append_of_mem hb with ⟨first, second, rfl⟩
  have hsplit : l = first ++ b :: (second ++ a :: back) := by simp [hl]
  exact ⟨_, back, hl, List.mem_append_left _ (hbc.mem_front hnodup hsplit)⟩

end Precedes

/-! ## Walks in progress -/

/-- The walk has entered the node and not left it. -/
def Walk.Open (w : Walk α) (a : α) : Prop := a ∈ w.seen ∧ a ∉ w.finished

/-- A finished node has its successors seen. What it reaches stands behind none of the finished
nodes connected to it, or else it is connected to a node that is still open. -/
structure Walk.Sound (next : α → List α) (nodes : List α) (w : Walk α) : Prop where
  seen_subset : w.seen ⊆ nodes
  seen_nodup : w.seen.Nodup
  finished_subset : w.finished ⊆ w.seen
  finished_nodup : w.finished.Nodup
  closed : ∀ a ∈ w.finished, ∀ b ∈ next a, b ∈ w.seen
  settled : ∀ a ∈ w.finished, ∀ b, Reaches next a b →
    (∃ c ∈ w.finished, Connected next a c ∧ (b = c ∨ Precedes w.finished b c)) ∨
      ∃ c, w.Open c ∧ Connected next a c

/-- What a walk keeps while it goes on: lists grow, and no open node is left or entered. -/
structure Walk.Extends (w w' : Walk α) : Prop where
  seen : w.seen <:+ w'.seen
  finished : w.finished <+: w'.finished
  open_iff : ∀ a, w'.Open a ↔ w.Open a

variable {next : α → List α} {nodes : List α}

theorem Walk.Extends.refl (w : Walk α) : w.Extends w :=
  ⟨List.suffix_refl _, List.prefix_refl _, fun _ => Iff.rfl⟩

theorem Walk.Extends.trans {w₁ w₂ w₃ : Walk α} (h : w₁.Extends w₂) (h' : w₂.Extends w₃) :
    w₁.Extends w₃ :=
  ⟨h.seen.trans h'.seen, h.finished.trans h'.finished,
    fun a => (h'.open_iff a).trans (h.open_iff a)⟩

/-- Nothing is seen before a walk begins. -/
theorem Walk.sound_empty : Walk.Sound next nodes ({} : Walk α) := by
  constructor <;> simp

/-- Entering a node opens it. -/
theorem Walk.Sound.enter {w : Walk α} (hw : w.Sound next nodes) {node : α} (hnode : node ∈ nodes)
    (hnew : node ∉ w.seen) : Walk.Sound next nodes { w with seen := node :: w.seen } where
  seen_subset := List.cons_subset.2 ⟨hnode, hw.seen_subset⟩
  seen_nodup := List.nodup_cons.2 ⟨hnew, hw.seen_nodup⟩
  finished_subset := fun _ ha => List.mem_cons_of_mem _ (hw.finished_subset ha)
  finished_nodup := hw.finished_nodup
  closed := fun a ha b hb => List.mem_cons_of_mem _ (hw.closed a ha b hb)
  settled := by
    intro a ha b hab
    rcases hw.settled a ha b hab with h | ⟨c, hc, hac⟩
    · exact Or.inl h
    · exact Or.inr ⟨c, ⟨List.mem_cons_of_mem _ hc.1, hc.2⟩, hac⟩

/-- Finishes the node that was entered last. -/
def Walk.finish (w : Walk α) (node : α) : Walk α := { w with finished := w.finished ++ [node] }

theorem Walk.open_finish_iff {w : Walk α} {node a : α} :
    (w.finish node).Open a ↔ w.Open a ∧ a ≠ node := by
  simp [Walk.Open, Walk.finish, and_assoc]

/-- What an open node reaches, when its successors are seen and every open node reaches it: all of
it is finished before the node is, or the node is connected to another open one. -/
theorem Walk.Sound.settled_finish {w : Walk α} (hw : w.Sound next nodes) {node : α}
    (hnode : node ∈ w.seen) (hnext : ∀ b ∈ next node, b ∈ w.seen)
    (hopen : ∀ a, w.Open a → Reaches next a node) {b : α} (hb : Reaches next node b) :
    (∃ c ∈ (w.finish node).finished,
        Connected next node c ∧ (b = c ∨ Precedes (w.finish node).finished b c)) ∨
      ∃ c, (w.finish node).Open c ∧ Connected next node c := by
  by_cases hbnode : b = node
  · exact Or.inl ⟨node, by simp [Walk.finish], Connected.refl next node, Or.inl hbnode⟩
  by_cases hfin : b ∈ w.finished
  · refine Or.inl ⟨node, by simp [Walk.finish], Connected.refl next node, Or.inr ?_⟩
    exact Precedes.of_mem hfin List.mem_cons_self
  by_cases hseen : b ∈ w.seen
  · exact Or.inr ⟨b, Walk.open_finish_iff.2 ⟨⟨hseen, hfin⟩, hbnode⟩, hb, hopen b ⟨hseen, hfin⟩⟩
  · -- the way to `b` leaves what is seen, which only an open node other than `node` allows
    rcases hb.exists_exit (s := (· ∈ w.seen)) hnode hseen with ⟨x, y, hx, hxseen, hxy, hy, -⟩
    have hxfin : x ∉ w.finished := fun h => hy (hw.closed x h y hxy)
    have hxnode : x ≠ node := by
      intro h
      exact hy (hnext y (h ▸ hxy))
    exact Or.inr ⟨x, Walk.open_finish_iff.2 ⟨⟨hxseen, hxfin⟩, hxnode⟩, hx,
      hopen x ⟨hxseen, hxfin⟩⟩

/-- Finishing an open node keeps the invariant. -/
theorem Walk.Sound.finish {w : Walk α} (hw : w.Sound next nodes) {node : α} (hnode : w.Open node)
    (hnext : ∀ b ∈ next node, b ∈ w.seen) (hopen : ∀ a, w.Open a → Reaches next a node) :
    (w.finish node).Sound next nodes where
  seen_subset := hw.seen_subset
  seen_nodup := hw.seen_nodup
  finished_subset := by
    intro a ha
    rcases List.mem_append.1 ha with ha | ha
    · exact hw.finished_subset ha
    · rw [List.mem_singleton.1 ha]
      exact hnode.1
  finished_nodup := by
    refine List.nodup_append.2 ⟨hw.finished_nodup, List.nodup_singleton _, ?_⟩
    intro a ha b hb hab
    rw [List.mem_singleton.1 hb] at hab
    exact hnode.2 (hab ▸ ha)
  closed := by
    intro a ha b hb
    rcases List.mem_append.1 ha with ha | ha
    · exact hw.closed a ha b hb
    · exact hnext b (List.mem_singleton.1 ha ▸ hb)
  settled := by
    intro a ha b hab
    -- what is connected to `node` inherits from it
    have hinherit : Connected next a node → (∃ c ∈ (w.finish node).finished,
          Connected next a c ∧ (b = c ∨ Precedes (w.finish node).finished b c)) ∨
        ∃ c, (w.finish node).Open c ∧ Connected next a c := by
      intro hconn
      rcases hw.settled_finish hnode.1 hnext hopen (hconn.2.trans hab) with
        ⟨c, hc, hnc, hbc⟩ | ⟨c, hc, hnc⟩
      · exact Or.inl ⟨c, hc, hconn.trans hnc, hbc⟩
      · exact Or.inr ⟨c, hc, hconn.trans hnc⟩
    rcases List.mem_append.1 ha with ha | ha
    · rcases hw.settled a ha b hab with ⟨c, hc, hac, hbc⟩ | ⟨c, hc, hac⟩
      · exact Or.inl ⟨c, List.mem_append_left _ hc, hac, hbc.imp id Precedes.append⟩
      · by_cases hcnode : c = node
        · exact hinherit (hcnode ▸ hac)
        · exact Or.inr ⟨c, Walk.open_finish_iff.2 ⟨hc, hcnode⟩, hac⟩
    · exact hinherit (List.mem_singleton.1 ha ▸ Connected.refl next a)

/-- A node that is entered and finished again leaves the same nodes open. -/
theorem Walk.Extends.finish {w v : Walk α} {node : α} (hnew : node ∉ w.seen)
    (h : Walk.Extends { w with seen := node :: w.seen } v) : w.Extends (v.finish node) := by
  refine ⟨(List.suffix_cons node w.seen).trans h.seen,
    h.finished.trans (List.prefix_append _ _), ?_⟩
  intro a
  refine Walk.open_finish_iff.trans ?_
  rw [h.open_iff]
  constructor
  · rintro ⟨⟨hseen, hfin⟩, hne⟩
    exact ⟨(List.mem_cons.1 hseen).resolve_left hne, hfin⟩
  · rintro ⟨hseen, hfin⟩
    exact ⟨⟨List.mem_cons_of_mem _ hseen, hfin⟩, fun heq => hnew (heq ▸ hseen)⟩

/-! ## Visits -/

section Visit

variable [DecidableEq α]

/-- Visits of a depth keep the invariant, see their node and leave all that they enter. Every open node
has to reach the node that is visited: these are the nodes that the walk came through. -/
def VisitsSound (next : α → List α) (nodes : List α) (depth : Nat) : Prop :=
  ∀ (w : Walk α) (node : α), w.Sound next nodes → node ∈ nodes →
    nodes.length ≤ depth + w.seen.length → (∀ a, w.Open a → Reaches next a node) →
      (visit next depth w node).Sound next nodes ∧ node ∈ (visit next depth w node).seen ∧
        w.Extends (visit next depth w node)

/-- So do visits of successors of an open node, one after the other. -/
theorem VisitsSound.foldl {depth : Nat} (h : VisitsSound next nodes depth)
    (hnodes : Closed next nodes) {node : α} (hnode : node ∈ nodes) {l : List α}
    (hl : ∀ b ∈ l, b ∈ next node) {w : Walk α} (hw : w.Sound next nodes)
    (hdepth : nodes.length ≤ depth + w.seen.length)
    (hopen : ∀ a, w.Open a → Reaches next a node) :
    (l.foldl (visit next depth) w).Sound next nodes ∧
      (∀ b ∈ l, b ∈ (l.foldl (visit next depth) w).seen) ∧
      w.Extends (l.foldl (visit next depth) w) := by
  induction l generalizing w with
  | nil => exact ⟨hw, by simp, Walk.Extends.refl w⟩
  | cons b rest ih =>
    have hb : b ∈ next node := hl b List.mem_cons_self
    obtain ⟨hs, hmem, hext⟩ := h w b hw (hnodes node hnode b hb) hdepth
      (fun a ha => (hopen a ha).trans (Reaches.step hb))
    have hdepth' : nodes.length ≤ depth + (visit next depth w b).seen.length :=
      le_trans hdepth (Nat.add_le_add_left hext.seen.length_le _)
    obtain ⟨hs', hmem', hext'⟩ := ih (fun c hc => hl c (List.mem_cons_of_mem _ hc)) hs hdepth'
      (fun a ha => hopen a ((hext.open_iff a).1 ha))
    refine ⟨hs', ?_, hext.trans hext'⟩
    intro c hc
    rcases List.mem_cons.1 hc with rfl | hc
    · exact hext'.seen.subset hmem
    · exact hmem' c hc

/-- Visits of every depth are sound, as long as the depth is not used up before all nodes are seen. -/
theorem visit_sound (hnodes : Closed next nodes) (depth : Nat) : VisitsSound next nodes depth := by
  induction depth with
  | zero =>
    intro w node hw hnode hdepth _
    have hperm : w.seen.Perm nodes :=
      (hw.seen_nodup.subperm hw.seen_subset).perm_of_length_le (by omega)
    exact ⟨hw, hperm.mem_iff.2 hnode, Walk.Extends.refl w⟩
  | succ depth ih =>
    intro w node hw hnode hdepth hopen
    unfold visit
    split
    · rename_i hseen
      exact ⟨hw, hseen, Walk.Extends.refl w⟩
    · rename_i hnew
      have hfresh : node ∉ w.finished := fun h => hnew (hw.finished_subset h)
      -- `node` stays open while its successors are visited
      let entered : Walk α := { w with seen := node :: w.seen }
      have hentered : ∀ a, entered.Open a → Reaches next a node := by
        rintro a ⟨hseen, hfin⟩
        rcases List.mem_cons.1 hseen with rfl | hseen
        · exact Reaches.refl _
        · exact hopen a ⟨hseen, hfin⟩
      have hdepth' : nodes.length ≤ depth + entered.seen.length := by
        simp only [entered, List.length_cons]
        omega
      rcases ih.foldl hnodes hnode (fun _ hb => hb) (hw.enter hnode hnew) hdepth' hentered with
        ⟨hs, hmem, hext⟩
      have hnodeOpen := (hext.open_iff node).2 ⟨List.mem_cons_self, hfresh⟩
      exact ⟨hs.finish hnodeOpen hmem fun a ha => hentered a ((hext.open_iff a).1 ha),
        hnodeOpen.1, hext.finish hnew⟩

/-- A walk through a list of nodes leaves no node open. -/
theorem foldl_visit_sound (hnodes : Closed next nodes) (l : List α) {w : Walk α} (hl : l ⊆ nodes)
    (hw : w.Sound next nodes) (hopen : ∀ a, ¬ w.Open a) :
    (l.foldl (visit next nodes.length) w).Sound next nodes ∧
      (∀ a, a ∈ l ∨ a ∈ w.seen → a ∈ (l.foldl (visit next nodes.length) w).seen) ∧
      ∀ a, ¬ (l.foldl (visit next nodes.length) w).Open a := by
  induction l generalizing w with
  | nil => exact ⟨hw, by simp, hopen⟩
  | cons b rest ih =>
    obtain ⟨hs, hmem, hext⟩ := visit_sound hnodes nodes.length w b hw (hl List.mem_cons_self)
      (Nat.le_add_right _ _) (fun a ha => absurd ha (hopen a))
    rcases ih (List.cons_subset.1 hl).2 hs (fun a ha => hopen a ((hext.open_iff a).1 ha)) with
      ⟨hs', hmem', hopen'⟩
    refine ⟨hs', ?_, hopen'⟩
    intro a ha
    apply hmem'
    rcases ha with ha | ha
    · exact (List.mem_cons.1 ha).elim (fun h => Or.inr (h ▸ hmem)) Or.inl
    · exact Or.inr (hext.seen.subset ha)

/-! ## The order -/

/-- The walk through all nodes, at its end. -/
theorem postorder_sound (hnodes : Closed next nodes) :
    ∃ w : Walk α, w.finished = postorder nodes next ∧ w.Sound next nodes ∧
      (∀ a ∈ nodes, a ∈ w.seen) ∧ ∀ a, ¬ w.Open a := by
  obtain ⟨hs, hmem, hopen⟩ := foldl_visit_sound hnodes nodes (List.Subset.refl _)
    Walk.sound_empty (by simp [Walk.Open])
  exact ⟨_, rfl, hs, fun a ha => hmem a (Or.inl ha), hopen⟩

theorem mem_postorder_iff (hnodes : Closed next nodes) {a : α} :
    a ∈ postorder nodes next ↔ a ∈ nodes := by
  rcases postorder_sound hnodes with ⟨w, hw, hs, hmem, hopen⟩
  rw [← hw]
  constructor
  · intro ha
    exact hs.seen_subset (hs.finished_subset ha)
  · intro ha
    by_contra hfin
    exact hopen a ⟨hmem a ha, hfin⟩

theorem postorder_nodup (hnodes : Closed next nodes) : (postorder nodes next).Nodup := by
  rcases postorder_sound hnodes with ⟨w, hw, hs, -, -⟩
  rw [← hw]
  exact hs.finished_nodup

/-- What a node reaches stands before some node connected to it, or is that node. -/
theorem exists_connected_behind (hnodes : Closed next nodes) {a b : α} (ha : a ∈ nodes)
    (hab : Reaches next a b) :
    ∃ c ∈ postorder nodes next, Connected next a c ∧
      (b = c ∨ Precedes (postorder nodes next) b c) := by
  have hmem := (mem_postorder_iff hnodes).2 ha
  rcases postorder_sound hnodes with ⟨w, hw, hs, -, hopen⟩
  rw [← hw] at hmem ⊢
  rcases hs.settled a hmem b hab with h | ⟨c, hc, -⟩
  · exact h
  · exact absurd hc (hopen c)

end Visit

end ObjectRelational.Graph
