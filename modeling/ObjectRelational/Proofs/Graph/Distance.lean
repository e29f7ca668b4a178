import Mathlib.Order.Lattice.Nat
import ObjectRelational.Proofs.Graph.Reachability

/-!
# Distances

A breadth-first search visits the nodes in the order of their distances from the start. Its queue holds at
most two layers at a time: what is left of the nodes that so many steps lead to, and behind them nodes that
one step more leads to.

* `StepsTo` counts the steps of a way, `distance` is the least number of steps.
* `Layers`: the layers of a search under way. `Layers.visit` and `Layers.descend`: each step of the search
  keeps them.
* `pairwise_distance_reachable`: the search lists nearer nodes first. `exists_reachable_eq_cons`: it lists
  its start before all others. `reachable_nodup`: it lists no node twice.
-/

namespace ObjectRelational.Graph

variable {α : Type} {next : α → List α} {start node a b : α} {near far seen queue rest : List α}
  {m n : Nat}

/-- A way of so many steps leads from one node to another. -/
inductive StepsTo (next : α → List α) : Nat → α → α → Prop
  | refl (a : α) : StepsTo next 0 a a
  | tail {n : Nat} {a b c : α} (h : StepsTo next n a b) (hstep : c ∈ next b) :
    StepsTo next (n + 1) a c

/-- The least number of steps that lead from one node to another that it reaches. -/
noncomputable def distance (next : α → List α) (a b : α) : Nat := sInf {n | StepsTo next n a b}

theorem StepsTo.distance_le (h : StepsTo next n a b) : distance next a b ≤ n := Nat.sInf_le h

theorem StepsTo.reaches (h : StepsTo next n a b) : Reaches next a b := by
  induction h with
  | refl a => exact Reaches.refl a
  | tail _ hstep ih => exact ih.trans (Reaches.step hstep)

/-- A node that is reached is reached in some number of steps. -/
theorem Reaches.exists_stepsTo (h : Reaches next a b) : ∃ n, StepsTo next n a b := by
  induction h with
  | refl => exact ⟨0, .refl a⟩
  | tail _ hstep ih =>
    obtain ⟨n, hn⟩ := ih
    exact ⟨n + 1, hn.tail hstep⟩

/-- There is a way that is as long as the distance. -/
theorem Reaches.stepsTo_distance (h : Reaches next a b) : StepsTo next (distance next a b) a b :=
  Nat.sInf_mem h.exists_stepsTo

/-! ## Layers -/

/-- A search under way: the nodes that less than `n` steps lead to are seen, those that `n` steps lead to
are seen or in front in the queue, and all that stands behind these is one step farther. -/
structure Layers (next : α → List α) (start : α) (n : Nat) (near far seen : List α) : Prop where
  steps_near : ∀ a ∈ near, StepsTo next n start a
  steps_far : ∀ a ∈ far, StepsTo next (n + 1) start a
  below : ∀ m < n, ∀ a, StepsTo next m start a → a ∈ seen
  level : ∀ a, StepsTo next n start a → a ∈ seen ∨ a ∈ near
  leaves : ∀ a ∈ seen, ∀ b ∈ next a, b ∈ seen ∨ b ∈ near ∨ b ∈ far

theorem Layers.begin (next : α → List α) (start : α) : Layers next start 0 [start] [] [] where
  steps_near a ha := by
    obtain rfl := List.mem_singleton.1 ha
    exact .refl a
  steps_far a ha := by simp at ha
  below m hm := by omega
  level a ha := by
    cases ha
    exact .inr (List.mem_singleton_self start)
  leaves a ha := by simp at ha

/-- The queue holds nodes that are reached from the start. -/
theorem Layers.reaches (h : Layers next start n near far seen) (ha : a ∈ near ++ far) :
    Reaches next start a := by
  rcases List.mem_append.1 ha with ha | ha
  · exact (h.steps_near a ha).reaches
  · exact (h.steps_far a ha).reaches

/-- When the nodes of a layer are all seen, the next layer begins. -/
theorem Layers.descend (h : Layers next start n near far seen) (hnear : ∀ a ∈ near, a ∈ seen) :
    Layers next start (n + 1) far [] seen where
  steps_near := h.steps_far
  steps_far a ha := by simp at ha
  below m hm a ha := by
    rcases Nat.lt_or_eq_of_le (Nat.le_of_lt_succ hm) with hlt | rfl
    · exact h.below m hlt a ha
    · exact (h.level a ha).elim id (hnear a)
  level a ha := by
    cases ha with
    | @tail _ _ b _ hb hstep =>
      have hseen : b ∈ seen := (h.level b hb).elim id (hnear b)
      rcases h.leaves b hseen a hstep with ha | ha | ha
      · exact .inl ha
      · exact .inl (hnear a ha)
      · exact .inr ha
  leaves a ha b hb := by
    rcases h.leaves a ha b hb with hb | hb | hb
    · exact .inl hb
    · exact .inl (hnear b hb)
    · exact .inr (.inl hb)

section Search

variable [DecidableEq α]

/-- A node of the layer is visited: it is seen from then on, and what it leads to stands behind the
layer. -/
theorem Layers.visit (h : Layers next start n near far seen)
    (hdrop : near.dropWhile (· ∈ seen) = node :: rest) :
    Layers next start n rest (far ++ next node) (node :: seen) := by
  obtain ⟨-, hsubset, hnear⟩ := mem_of_dropWhile hdrop
  have hnode : StepsTo next n start node := h.steps_near node (hsubset List.mem_cons_self)
  have hmoved : ∀ a, a ∈ seen ∨ a ∈ near → a ∈ node :: seen ∨ a ∈ rest := by
    rintro a (ha | ha)
    · exact .inl (List.mem_cons_of_mem _ ha)
    · rcases hnear a ha with ha | rfl | ha
      · exact .inl (List.mem_cons_of_mem _ ha)
      · exact .inl List.mem_cons_self
      · exact .inr ha
  refine ⟨?_, ?_, ?_, ?_, ?_⟩
  · exact fun a ha => h.steps_near a (hsubset (List.mem_cons_of_mem _ ha))
  · intro a ha
    rcases List.mem_append.1 ha with ha | ha
    · exact h.steps_far a ha
    · exact hnode.tail ha
  · exact fun m hm a ha => List.mem_cons_of_mem _ (h.below m hm a ha)
  · exact fun a ha => hmoved a (h.level a ha)
  · intro a ha b hb
    rw [List.mem_append]
    rcases List.mem_cons.1 ha with rfl | ha
    · exact .inr (.inr (.inr hb))
    · rcases h.leaves a ha b hb with hb | hb | hb
      · exact .inl (List.mem_cons_of_mem _ hb)
      · exact (hmoved b (.inr hb)).imp id .inl
      · exact .inr (.inr (.inl hb))

/-- Each step of the search keeps the layers, and visits a node of the nearest one. -/
theorem Layers.step (h : Layers next start n near far seen)
    (hdrop : (near ++ far).dropWhile (· ∈ seen) = node :: rest) :
    ∃ m near' far', near' ++ far' = rest ++ next node ∧
      Layers next start m near' far' (node :: seen) ∧ StepsTo next m start node := by
  by_cases hnear : ∀ a ∈ near, a ∈ seen
  · -- the layer is used up, so the node is one of the next layer
    have hfar : far.dropWhile (· ∈ seen) = node :: rest := by
      rwa [List.dropWhile_append_of_pos (by simpa using hnear)] at hdrop
    have hsubset := (mem_of_dropWhile hfar).2.1
    exact ⟨n + 1, rest, next node, rfl, by simpa using (h.descend hnear).visit hfar,
      h.steps_far node (hsubset List.mem_cons_self)⟩
  · obtain ⟨first, rest', hfront⟩ :
        ∃ first rest', near.dropWhile (· ∈ seen) = first :: rest' := by
      cases hfront : near.dropWhile (· ∈ seen) with
      | nil => exact absurd (by simpa using List.dropWhile_eq_nil_iff.1 hfront) hnear
      | cons first rest' => exact ⟨first, rest', rfl⟩
    have hsplit : first :: (rest' ++ far) = node :: rest := by
      rw [← hdrop, List.dropWhile_append, hfront]
      simp
    obtain ⟨rfl, rfl⟩ := List.cons.inj hsplit
    have hsubset := (mem_of_dropWhile hfront).2.1
    exact ⟨n, rest', far ++ next first, (List.append_assoc ..).symm, h.visit hfront,
      h.steps_near first (hsubset List.mem_cons_self)⟩

/-- The search visits no node that is seen. -/
theorem not_mem_of_mem_breadthFirst {bound : Nat} (h : a ∈ breadthFirst next bound queue seen) :
    a ∉ seen := by
  induction bound generalizing queue seen with
  | zero => simp [breadthFirst] at h
  | succ bound ih =>
    unfold breadthFirst at h
    split at h
    · simp at h
    · rename_i node rest hdrop
      rcases List.mem_cons.1 h with rfl | h
      · exact (mem_of_dropWhile hdrop).1
      · exact fun ha => ih h (List.mem_cons_of_mem _ ha)

/-- The search visits no node twice. -/
theorem breadthFirst_nodup (next : α → List α) (bound : Nat) (queue seen : List α) :
    (breadthFirst next bound queue seen).Nodup := by
  induction bound generalizing queue seen with
  | zero => exact List.nodup_nil
  | succ bound ih =>
    unfold breadthFirst
    split
    · exact List.nodup_nil
    · exact List.nodup_cons.2 ⟨fun hmem => not_mem_of_mem_breadthFirst hmem List.mem_cons_self, ih _ _⟩

/-- While its queue holds layers, the search visits nearer nodes first. -/
theorem pairwise_distance_breadthFirst (h : Layers next start n near far seen) (bound : Nat) :
    (breadthFirst next bound (near ++ far) seen).Pairwise fun a b =>
      distance next start a ≤ distance next start b := by
  induction bound generalizing n near far seen with
  | zero => exact List.Pairwise.nil
  | succ bound ih =>
    unfold breadthFirst
    split
    · exact List.Pairwise.nil
    · rename_i node rest hdrop
      obtain ⟨m, near', far', hqueue, hlayers, hnode⟩ := h.step hdrop
      rw [← hqueue]
      refine List.pairwise_cons.2 ⟨fun b hb => ?_, ih hlayers⟩
      have hreaches : Reaches next start b := by
        obtain ⟨a, ha, hab⟩ := reaches_of_mem_breadthFirst hb
        exact (hlayers.reaches ha).trans hab
      -- all that less steps lead to than to the node is seen, and `b` is not
      have hle : m ≤ distance next start b := by
        by_contra hlt
        exact not_mem_of_mem_breadthFirst hb
          (hlayers.below _ (Nat.lt_of_not_le hlt) b hreaches.stepsTo_distance)
      exact hnode.distance_le.trans hle

/-- A search from a node lists the node itself first. -/
theorem exists_reachable_eq_cons (size : Nat) (next : α → List α) (start : α) :
    ∃ rest, reachable (size + 1) next [start] = start :: rest :=
  ⟨breadthFirst next size ([] ++ next start) [start], by simp [reachable, breadthFirst]⟩

/-- A search lists no node twice. -/
theorem reachable_nodup (size : Nat) (next : α → List α) (starts : List α) :
    (reachable size next starts).Nodup := breadthFirst_nodup next size starts []

/-- A search from a node lists the nodes in the order of their distances from it. -/
theorem pairwise_distance_reachable (size : Nat) (next : α → List α) (start : α) :
    (reachable size next [start]).Pairwise fun a b =>
      distance next start a ≤ distance next start b :=
  pairwise_distance_breadthFirst (.begin next start) size

end Search

end ObjectRelational.Graph
