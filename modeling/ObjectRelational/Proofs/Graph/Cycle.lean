import ObjectRelational.Graph.Cycle
import ObjectRelational.Proofs.Graph.Reachability

/-!
# The search for a cycle

The path of the search never repeats a node, so a bound that is at least the number of nodes is never
used up. This gives two facts: the search finds a cycle through its start whenever there is one, and
it only looks at what its start reaches.

* `not_reaches_of_cycleThrough?_eq_none`: without an answer no cycle leads through the start.
* `cycleThrough?_congr`: graphs that agree on what the start reaches have the same answer.
-/

namespace ObjectRelational.Graph

variable {α ε : Type} {next next' : α → List α} {nodes path explored : List α} {start node : α}

/-! ## Folds that can fail -/

theorem foldlM_cons_eq_ok_iff {β : Type} {f : β → α → Except ε β} {a : α} {rest : List α}
    {b c : β} :
    (a :: rest).foldlM f b = .ok c ↔ ∃ b', f b a = .ok b' ∧ rest.foldlM f b' = .ok c := by
  rw [List.foldlM_cons]
  cases h : f b a <;> simp [bind, Except.bind]

theorem foldlM_congr {β : Type} {f g : β → α → Except ε β} {l : List α}
    (h : ∀ b, ∀ a ∈ l, f b a = g b a) (b : β) : l.foldlM f b = l.foldlM g b := by
  induction l generalizing b with
  | nil => rfl
  | cons a rest ih =>
    rw [List.foldlM_cons, List.foldlM_cons, h b a List.mem_cons_self]
    congr 1
    funext b'
    exact ih (fun b a ha => h b a (List.mem_cons_of_mem _ ha)) b'

/-! ## Searches in vain -/

/-- No step leads from what was explored to the start, and none leads to a node that is neither
explored nor on the path. -/
def InVain (next : α → List α) (start : α) (path explored : List α) : Prop :=
  ∀ a ∈ explored, ∀ b ∈ next a, b ≠ start ∧ (b ∈ explored ∨ b ∈ path)

/-- Searching some nodes one after the other is in vain when each search is. -/
theorem foldlM_inVain {l : List α} {search : List α → α → Except ε (List α)}
    (hsearch : ∀ e e', ∀ a ∈ l, InVain next start path e → search e a = .ok e' →
      InVain next start path e' ∧ e ⊆ e' ∧ a ≠ start ∧ (a ∈ e' ∨ a ∈ path))
    {e e' : List α} (he : InVain next start path e) (h : l.foldlM search e = .ok e') :
    InVain next start path e' ∧ e ⊆ e' ∧ ∀ a ∈ l, a ≠ start ∧ (a ∈ e' ∨ a ∈ path) := by
  induction l generalizing e with
  | nil =>
    cases h
    exact ⟨he, List.Subset.refl _, by simp⟩
  | cons a rest ih =>
    rcases foldlM_cons_eq_ok_iff.1 h with ⟨e₁, ha, hrest⟩
    rcases hsearch e e₁ a List.mem_cons_self he ha with ⟨he₁, hsub₁, hastart, hamem⟩
    rcases ih (fun e e' b hb => hsearch e e' b (List.mem_cons_of_mem _ hb)) he₁ hrest with
      ⟨he₂, hsub₂, hmem₂⟩
    refine ⟨he₂, List.Subset.trans hsub₁ hsub₂, ?_⟩
    intro b hb
    rcases List.mem_cons.1 hb with rfl | hb
    · exact ⟨hastart, hamem.imp (fun hm => hsub₂ hm) id⟩
    · exact hmem₂ b hb

/-! ## The bound -/

/-- A path that repeats no node is not longer than there are nodes. -/
theorem lt_of_path (hpath : path ⊆ nodes) (hnodup : path.Nodup) {depth : Nat}
    (hdepth : nodes.length < path.length + depth) : 0 < depth := by
  have hle : path.length ≤ nodes.length := (hnodup.subperm hpath).length_le
  omega

variable [DecidableEq α]

/-- The search looks at nothing but what is reached, and every large enough bound is as good as
another one. -/
theorem searchCycle_congr (hnodes : Closed next nodes) (hagree : ∀ a ∈ nodes, next a = next' a)
    {depth depth' : Nat} (hnode : node ∈ nodes) (hpath : path ⊆ nodes) (hnodup : path.Nodup)
    (hdepth : nodes.length < path.length + depth)
    (hdepth' : nodes.length < path.length + depth') :
    searchCycle next start depth path explored node =
      searchCycle next' start depth' path explored node := by
  induction depth generalizing depth' path explored node with
  | zero => exact absurd (lt_of_path hpath hnodup hdepth) (lt_irrefl 0)
  | succ depth ih =>
    cases depth' with
    | zero => exact absurd (lt_of_path hpath hnodup hdepth') (lt_irrefl 0)
    | succ depth' =>
      unfold searchCycle
      split
      · rfl
      · split
        · rfl
        · rename_i hvisited
          have hnew : node ∉ path := fun h => hvisited (Or.inl h)
          rw [← hagree node hnode]
          congr 1
          apply foldlM_congr
          intro explored' child hchild
          refine ih (hnodes node hnode child hchild) (List.cons_subset.2 ⟨hnode, hpath⟩)
            (List.nodup_cons.2 ⟨hnew, hnodup⟩) ?_ ?_
          · simp only [List.length_cons]
            omega
          · simp only [List.length_cons]
            omega

/-- Graphs that agree on what the start reaches have the same answer. -/
theorem cycleThrough?_congr (hnodes : Closed next nodes) (hagree : ∀ a ∈ nodes, next a = next' a)
    (hstart : start ∈ nodes) {size size' : Nat} (hsize : nodes.length ≤ size)
    (hsize' : nodes.length ≤ size') :
    cycleThrough? size next start = cycleThrough? size' next' start := by
  unfold cycleThrough?
  have hfold : (next start).foldlM (searchCycle next start size [start]) [] =
      (next' start).foldlM (searchCycle next' start size' [start]) [] := by
    rw [← hagree start hstart]
    apply foldlM_congr
    intro explored child hchild
    refine searchCycle_congr hnodes hagree (hnodes start hstart child hchild)
      (by simpa using hstart) (by simp) ?_ ?_
    · simp only [List.length_singleton]
      omega
    · simp only [List.length_singleton]
      omega
  rw [hfold]

/-! ## Completeness -/

/-- A search that ends without a cycle has explored its node in vain. -/
theorem searchCycle_inVain (hnodes : Closed next nodes) {depth : Nat} {explored' : List α}
    (hnode : node ∈ nodes) (hpath : path ⊆ nodes) (hnodup : path.Nodup)
    (hdepth : nodes.length < path.length + depth) (hvain : InVain next start path explored)
    (h : searchCycle next start depth path explored node = .ok explored') :
    InVain next start path explored' ∧ explored ⊆ explored' ∧ node ≠ start ∧
      (node ∈ explored' ∨ node ∈ path) := by
  induction depth generalizing path explored node explored' with
  | zero => exact absurd (lt_of_path hpath hnodup hdepth) (lt_irrefl 0)
  | succ depth ih =>
    unfold searchCycle at h
    split at h
    · simp at h
    · rename_i hstart
      split at h
      · rename_i hvisited
        cases h
        exact ⟨hvain, List.Subset.refl _, hstart, hvisited.symm⟩
      · rename_i hvisited
        have hnew : node ∉ path := fun hmem => hvisited (Or.inl hmem)
        cases hinner : (next node).foldlM (searchCycle next start depth (node :: path))
            explored with
        | error cycle =>
          rw [hinner] at h
          simp [Except.map] at h
        | ok inner =>
          rw [hinner] at h
          cases h
          -- while the children are searched, `node` is on their path
          have hlonger : InVain next start (node :: path) explored := fun a ha b hb =>
            (hvain a ha b hb).imp id (Or.imp id (List.mem_cons_of_mem _))
          obtain ⟨hvain', hsub, hmem⟩ := foldlM_inVain
            (fun e e' child hchild he hok => ih (hnodes node hnode child hchild)
              (List.cons_subset.2 ⟨hnode, hpath⟩) (List.nodup_cons.2 ⟨hnew, hnodup⟩)
              (by simp only [List.length_cons]; omega) he hok)
            hlonger hinner
          have hshift : ∀ b, b ∈ inner ∨ b ∈ node :: path → b ∈ node :: inner ∨ b ∈ path := by
            intro b hb
            rw [List.mem_cons] at hb ⊢
            tauto
          refine ⟨?_, ?_, hstart, Or.inl List.mem_cons_self⟩
          · intro a ha b hb
            rcases List.mem_cons.1 ha with rfl | ha
            · exact (hmem b hb).imp id (hshift b)
            · exact (hvain' a ha b hb).imp id (hshift b)
          · exact fun a ha => List.mem_cons_of_mem _ (hsub ha)

/-- When no cycle is found, no way leads from the start back to it. -/
theorem not_reaches_of_cycleThrough?_eq_none (hnodes : Closed next nodes) (hstart : start ∈ nodes)
    {size : Nat} (hsize : nodes.length ≤ size) (h : cycleThrough? size next start = none) :
    ∀ a ∈ next start, ¬ Reaches next a start := by
  unfold cycleThrough? at h
  split at h
  · simp at h
  rename_i explored hfold
  have hnothing : InVain next start [start] [] := by simp [InVain]
  obtain ⟨hvain, -, hmem⟩ := foldlM_inVain
    (fun e e' child hchild he hok => searchCycle_inVain hnodes (hnodes start hstart child hchild)
      (by simpa using hstart) (by simp) (by simp only [List.length_singleton]; omega) he hok)
    hnothing hfold
  -- apart from the start, which no step leads to, the explored nodes are closed
  have hclosed : ∀ a, a ∈ explored → ∀ b ∈ next a, b ∈ explored := by
    intro a ha b hb
    rcases hvain a ha b hb with ⟨hne, hb | hb⟩
    · exact hb
    · exact absurd (List.mem_singleton.1 hb) hne
  intro a ha hreach
  rcases hmem a ha with ⟨hne, ha' | ha'⟩
  · rcases Relation.ReflTransGen.cases_tail hreach with heq | ⟨b, hab, hstep⟩
    · exact hne heq.symm
    · have hb : b ∈ explored := Reaches.mem_of_forall_step hclosed hab ha'
      exact (hvain b hb start hstep).1 rfl
  · exact hne (List.mem_singleton.1 ha')

end ObjectRelational.Graph
