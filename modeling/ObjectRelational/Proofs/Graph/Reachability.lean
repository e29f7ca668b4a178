import Mathlib.Data.List.Nodup
import Mathlib.Data.List.Perm.Subperm
import Mathlib.Data.List.TakeWhile
import Mathlib.Logic.Relation
import ObjectRelational.Graph.Search

/-!
# Reachability

What a graph reaches, as a relation, and the breadth-first search that lists it.

* `Reaches` is the reflexive and transitive closure of one step along the graph.
* `Closed` says of a list of nodes that the graph does not lead out of it.
* `Frontier`: what holds of a search under way. `Frontier.step`: each step of the search keeps it.
* `mem_reachable_iff`: the search finds exactly what is reached, when its bound is at least the number
  of nodes.
* `reachable_map`: it finds the same nodes when they are renamed.
-/

namespace ObjectRelational.Graph

variable {α : Type}

/-- One step along the graph. -/
def Step (next : α → List α) (a b : α) : Prop := b ∈ next a

/-- Zero or more steps. -/
def Reaches (next : α → List α) : α → α → Prop := Relation.ReflTransGen (Step next)

/-- No step leads out of the nodes. -/
def Closed (next : α → List α) (nodes : List α) : Prop := ∀ a ∈ nodes, ∀ b ∈ next a, b ∈ nodes

variable {next : α → List α}

namespace Reaches

theorem refl (a : α) : Reaches next a a := Relation.ReflTransGen.refl

theorem step {a b : α} (h : b ∈ next a) : Reaches next a b := Relation.ReflTransGen.single h

theorem trans {a b c : α} (hab : Reaches next a b) (hbc : Reaches next b c) : Reaches next a c :=
  Relation.ReflTransGen.trans hab hbc

/-- What is reached from inside a set that is left nowhere lies inside it. -/
theorem mem_of_forall_step {s : α → Prop} (hclosed : ∀ a, s a → ∀ b ∈ next a, s b) {a b : α}
    (h : Reaches next a b) (ha : s a) : s b := by
  induction h with
  | refl => exact ha
  | tail _ hstep ih => exact hclosed _ ih _ hstep

/-- A way out of a set crosses its border somewhere. -/
theorem exists_exit {s : α → Prop} {a b : α} (h : Reaches next a b) (ha : s a) (hb : ¬ s b) :
    ∃ x y, Reaches next a x ∧ s x ∧ y ∈ next x ∧ ¬ s y ∧ Reaches next y b := by
  induction h with
  | refl => exact absurd ha hb
  | @tail c d hac hstep ih =>
    by_cases hc : s c
    · exact ⟨c, d, hac, hc, hstep, hb, refl d⟩
    · rcases ih hc with ⟨x, y, hax, hx, hxy, hy, hyc⟩
      exact ⟨x, y, hax, hx, hxy, hy, hyc.trans (step hstep)⟩

end Reaches

/-! ## Breadth-first search -/

/-- A search under way: no node is seen twice, and the queue holds every node that a step leads to
out of those that are seen. -/
structure Frontier (next : α → List α) (nodes queue seen : List α) : Prop where
  queue_subset : queue ⊆ nodes
  seen_subset : seen ⊆ nodes
  nodup : seen.Nodup
  leaves : ∀ a ∈ seen, ∀ b ∈ next a, b ∈ seen ∨ b ∈ queue

theorem Frontier.start {nodes starts : List α} (h : starts ⊆ nodes) :
    Frontier next nodes starts [] where
  queue_subset := h
  seen_subset := List.nil_subset _
  nodup := List.nodup_nil
  leaves a ha := by simp at ha

/-- When as many nodes are seen as there are, all are. -/
theorem Frontier.mem_seen {nodes queue seen : List α} (h : Frontier next nodes queue seen)
    (hlength : nodes.length ≤ seen.length) {a : α} (ha : a ∈ nodes) : a ∈ seen :=
  ((h.nodup.subperm h.seen_subset).perm_of_length_le hlength).mem_iff.2 ha

section Search

variable [DecidableEq α]

/-- The search only finds what its queue reaches. -/
theorem reaches_of_mem_breadthFirst {bound : Nat} {queue seen : List α} {b : α}
    (h : b ∈ breadthFirst next bound queue seen) : ∃ a ∈ queue, Reaches next a b := by
  induction bound generalizing queue seen with
  | zero => simp [breadthFirst] at h
  | succ bound ih =>
    unfold breadthFirst at h
    split at h
    · simp at h
    · rename_i node rest hdrop
      have hsuffix : ∀ x ∈ node :: rest, x ∈ queue := by
        intro x hx
        exact (List.dropWhile_suffix _).subset (hdrop ▸ hx)
      rcases List.mem_cons.1 h with rfl | h
      · exact ⟨_, hsuffix _ List.mem_cons_self, Reaches.refl _⟩
      · rcases ih h with ⟨a, ha, hab⟩
        rcases List.mem_append.1 ha with ha | ha
        · exact ⟨a, hsuffix a (List.mem_cons_of_mem _ ha), hab⟩
        · exact ⟨node, hsuffix _ List.mem_cons_self, (Reaches.step ha).trans hab⟩

/-- The front of the queue that was seen before is dropped; the rest starts with a new node. -/
theorem mem_of_dropWhile {queue seen : List α} {node : α} {rest : List α}
    (h : queue.dropWhile (· ∈ seen) = node :: rest) :
    node ∉ seen ∧ node :: rest ⊆ queue ∧ ∀ a ∈ queue, a ∈ seen ∨ a = node ∨ a ∈ rest := by
  have hsplit : queue = queue.takeWhile (· ∈ seen) ++ node :: rest := by
    rw [← h, List.takeWhile_append_dropWhile]
  refine ⟨?_, ?_, ?_⟩
  · have hhead := List.head?_dropWhile_not (fun x => decide (x ∈ seen)) queue
    rw [h] at hhead
    simpa using hhead
  · intro a ha
    rw [hsplit]
    exact List.mem_append_right _ ha
  · intro a ha
    rw [hsplit] at ha
    rcases List.mem_append.1 ha with ha | ha
    · exact Or.inl (by simpa using List.mem_takeWhile_imp ha)
    · exact Or.inr (List.mem_cons.1 ha)

/-- A step of the search: the first new node of the queue is seen from then on, and what it leads to
waits behind the others. -/
theorem Frontier.step {nodes queue seen : List α} {node : α} {rest : List α}
    (h : Frontier next nodes queue seen) (hnodes : Closed next nodes)
    (hdrop : queue.dropWhile (· ∈ seen) = node :: rest) :
    Frontier next nodes (rest ++ next node) (node :: seen) := by
  rcases mem_of_dropWhile hdrop with ⟨hnew, hsub, hqueue⟩
  have hnode : node ∈ nodes := h.queue_subset (hsub List.mem_cons_self)
  refine ⟨?_, List.cons_subset.2 ⟨hnode, h.seen_subset⟩, List.nodup_cons.2 ⟨hnew, h.nodup⟩, ?_⟩
  · intro a ha
    rcases List.mem_append.1 ha with ha | ha
    · exact h.queue_subset (hsub (List.mem_cons_of_mem _ ha))
    · exact hnodes node hnode a ha
  · intro a ha b hb
    rcases List.mem_cons.1 ha with rfl | ha
    · exact Or.inr (List.mem_append_right _ hb)
    · rcases h.leaves a ha b hb with hb | hb
      · exact Or.inl (List.mem_cons_of_mem _ hb)
      · rcases hqueue b hb with hb | rfl | hb
        · exact Or.inl (List.mem_cons_of_mem _ hb)
        · exact Or.inl List.mem_cons_self
        · exact Or.inr (List.mem_append_left _ hb)

/-- What was seen and what the search finds are closed under steps once the bound is large enough,
since each step of the search sees a new node. -/
theorem breadthFirst_closed {nodes : List α} (hnodes : Closed next nodes) {bound : Nat}
    {queue seen : List α} (h : Frontier next nodes queue seen)
    (hbound : nodes.length ≤ bound + seen.length) :
    (∀ a ∈ queue, a ∈ seen ∨ a ∈ breadthFirst next bound queue seen) ∧
      ∀ a, a ∈ seen ∨ a ∈ breadthFirst next bound queue seen →
        ∀ b ∈ next a, b ∈ seen ∨ b ∈ breadthFirst next bound queue seen := by
  induction bound generalizing queue seen with
  | zero =>
    have hall : ∀ a ∈ nodes, a ∈ seen := fun a ha => h.mem_seen (by omega) ha
    refine ⟨fun a ha => Or.inl (hall a (h.queue_subset ha)), ?_⟩
    intro a ha b hb
    rcases ha with ha | ha
    · exact Or.inl (hall b (hnodes a (h.seen_subset ha) b hb))
    · simp [breadthFirst] at ha
  | succ bound ih =>
    unfold breadthFirst
    split
    · rename_i hdrop
      have hmem : ∀ a ∈ queue, a ∈ seen := by
        intro a ha
        simpa using List.dropWhile_eq_nil_iff.1 hdrop a ha
      refine ⟨fun a ha => Or.inl (hmem a ha), ?_⟩
      intro a ha b hb
      rcases ha with ha | ha
      · exact Or.inl ((h.leaves a ha b hb).elim id (hmem b))
      · simp at ha
    · rename_i node rest hdrop
      rcases mem_of_dropWhile hdrop with ⟨-, -, hqueue⟩
      have hbound' : nodes.length ≤ bound + (node :: seen).length := by
        simp only [List.length_cons]
        omega
      rcases ih (h.step hnodes hdrop) hbound' with ⟨hin, hclosed⟩
      -- the node that is found moves from the result to what was seen
      have hmove : ∀ a, (a ∈ node :: seen ∨
            a ∈ breadthFirst next bound (rest ++ next node) (node :: seen)) ↔
          (a ∈ seen ∨
            a ∈ node :: breadthFirst next bound (rest ++ next node) (node :: seen)) := by
        intro a
        simp only [List.mem_cons]
        tauto
      refine ⟨?_, ?_⟩
      · intro a ha
        rw [← hmove]
        rcases hqueue a ha with ha | rfl | ha
        · exact Or.inl (List.mem_cons_of_mem _ ha)
        · exact Or.inl List.mem_cons_self
        · exact hin a (List.mem_append_left _ ha)
      · intro a ha b hb
        rw [← hmove] at ha ⊢
        exact hclosed a ha b hb

/-- The search lists exactly what its starting nodes reach. -/
theorem mem_reachable_iff {nodes : List α} (hnodes : Closed next nodes) {size : Nat}
    (hsize : nodes.length ≤ size) {starts : List α} (hstarts : starts ⊆ nodes) {b : α} :
    b ∈ reachable size next starts ↔ ∃ a ∈ starts, Reaches next a b := by
  constructor
  · exact reaches_of_mem_breadthFirst
  · rintro ⟨a, ha, hab⟩
    have hbound : nodes.length ≤ size + ([] : List α).length := by simpa using hsize
    rcases breadthFirst_closed hnodes (.start hstarts) hbound with ⟨hin, hclosed⟩
    simp only [List.not_mem_nil, false_or] at hin hclosed
    exact hab.mem_of_forall_step hclosed (hin a ha)

/-! ## Renamed nodes -/

variable {β : Type} [DecidableEq β] {f : α → β} {next' : β → List β}

/-- The search goes the same way when the nodes of the graph are renamed. -/
theorem breadthFirst_map (hf : Function.Injective f) (hnext : ∀ a, next' (f a) = (next a).map f)
    (bound : Nat) (queue seen : List α) :
    breadthFirst next' bound (queue.map f) (seen.map f) = (breadthFirst next bound queue seen).map f := by
  induction bound generalizing queue seen with
  | zero => rfl
  | succ bound ih =>
    have hseen : (fun b => decide (b ∈ seen.map f)) ∘ f = fun a => decide (a ∈ seen) := by
      funext a
      simp [hf.eq_iff]
    unfold breadthFirst
    rw [List.dropWhile_map, hseen]
    cases queue.dropWhile fun a => decide (a ∈ seen) with
    | nil => rfl
    | cons node rest =>
      simp only [List.map_cons, hnext, ← List.map_append, ← ih]

theorem reachable_map (hf : Function.Injective f) (hnext : ∀ a, next' (f a) = (next a).map f)
    (size : Nat) (starts : List α) :
    reachable size next' (starts.map f) = (reachable size next starts).map f :=
  breadthFirst_map hf hnext size starts []

end Search

end ObjectRelational.Graph
