import Mathlib.Data.List.Chain
import ObjectRelational.Proofs.Graph.Cycle

/-!
# What a search for a cycle finds

The search goes along a path from its start that repeats no node, so what it answers is a cycle: a path
from the start back to it along steps of the graph, on which no other node is repeated. A loop with a
stack of its own comes to the same answer, and comes to an end.

* `CycleAt` says what a cycle through a node is.
* `PathFrom`: the path of a search under way. `PathFrom.grow`: it grows by a node that is new.
* `cycleAt_of_cycleThrough?`: the search answers a cycle through its start.
* `exists_cycleThrough?_iff`: it answers one if there is one.
* `CycleSearch.answers_cycleThrough?`: the loop ends with the same answer.
-/

namespace ObjectRelational.Graph

variable {α : Type} {next : α → List α} {nodes path explored cycle : List α} {start node child : α}

/-! ## Cycles -/

/-- The nodes are those of a cycle through the start: it stands at both ends and nowhere else, no other
node stands there twice, and from each node a step leads to the one behind it. -/
def CycleAt (step : α → α → Prop) (start : α) (cycle : List α) : Prop :=
  ∃ between, cycle = start :: (between ++ [start]) ∧ (start :: between).Nodup ∧ cycle.IsChain step

/-- A path that leads from the start along steps of the graph and repeats no node; its last node comes
first. -/
structure PathFrom (next : α → List α) (start : α) (path : List α) : Prop where
  steps : path.IsChain fun b a => b ∈ next a
  nodup : path.Nodup
  starts : ∃ front, path = front ++ [start]

theorem PathFrom.single (next : α → List α) (start : α) : PathFrom next start [start] :=
  ⟨.singleton start, List.nodup_singleton start, [], rfl⟩

/-- The path grows by a node that is not on it. -/
theorem PathFrom.grow (h : PathFrom next start (node :: path)) (hchild : child ∈ next node)
    (hnew : child ∉ node :: path) : PathFrom next start (child :: node :: path) := by
  obtain ⟨front, hfront⟩ := h.starts
  exact ⟨.cons_cons hchild h.steps, List.nodup_cons.2 ⟨hnew, h.nodup⟩, child :: front, by rw [hfront]; rfl⟩

/-- A step from the end of the path back to the start closes a cycle. -/
theorem PathFrom.cycleAt (h : PathFrom next start (node :: path)) (hstart : start ∈ next node) :
    CycleAt (Step next) start (start :: node :: path).reverse := by
  obtain ⟨front, hfront⟩ := h.starts
  have hsteps : (start :: node :: path).IsChain fun b a => b ∈ next a := .cons_cons hstart h.steps
  have hnodup := h.nodup
  rw [hfront] at hsteps hnodup ⊢
  refine ⟨front.reverse, by simp, ?_, List.isChain_reverse.2 hsteps⟩
  have hreverse := List.nodup_reverse.2 hnodup
  simpa using hreverse

theorem CycleAt.mono {step step' : α → α → Prop} (hsteps : ∀ a b, step a b → step' a b)
    (h : CycleAt step start cycle) : CycleAt step' start cycle := by
  obtain ⟨between, hcycle, hnodup, hchain⟩ := h
  exact ⟨between, hcycle, hnodup, hchain.imp hsteps⟩

/-- From the start one or more steps lead to every node of a cycle, and on to the start. -/
theorem CycleAt.transGen {step : α → α → Prop} (h : CycleAt step start cycle) {a : α}
    (ha : a ∈ cycle) : Relation.TransGen step start a ∧ Relation.TransGen step a start := by
  obtain ⟨between, rfl, -, hsteps⟩ := h
  have hpairs : (start :: (between ++ [start])).Pairwise (Relation.TransGen step) :=
    List.isChain_iff_pairwise.1 (hsteps.imp fun _ _ => Relation.TransGen.single)
  have hfrom : ∀ b ∈ between ++ [start], Relation.TransGen step start b :=
    fun _ => List.rel_of_pairwise_cons hpairs
  have hback : ∀ b ∈ start :: between, Relation.TransGen step b start := by
    intro b hb
    rw [← List.cons_append, List.pairwise_append] at hpairs
    exact hpairs.2.2 b hb start (List.mem_singleton_self start)
  have hmem : a ∈ between ++ [start] ∧ a ∈ start :: between := by
    simp only [List.mem_cons, List.mem_append, List.not_mem_nil, or_false] at ha ⊢
    tauto
  exact ⟨hfrom a hmem.1, hback a hmem.2⟩

/-! ## What the search answers -/

/-- When following nodes one by one fails, following one of them does. -/
theorem exists_of_foldlM_eq_error {ε β : Type} {f : β → α → Except ε β} {l : List α} {b : β} {e : ε}
    (h : l.foldlM f b = .error e) : ∃ a ∈ l, ∃ b', f b' a = .error e := by
  induction l generalizing b with
  | nil => cases h
  | cons a rest ih =>
    rw [List.foldlM_cons] at h
    cases ha : f b a with
    | error e' =>
      rw [ha] at h
      exact ⟨a, List.mem_cons_self, b, ha.trans h⟩
    | ok b' =>
      rw [ha] at h
      obtain ⟨a', ha', hfails⟩ := ih h
      exact ⟨a', List.mem_cons_of_mem _ ha', hfails⟩

variable [DecidableEq α]

/-- A search that follows a successor of the last node of its path answers a cycle or nothing. -/
theorem cycleAt_of_searchCycle {depth : Nat} (hpath : PathFrom next start (node :: path))
    (hchild : child ∈ next node)
    (h : searchCycle next start depth (node :: path) explored child = .error cycle) :
    CycleAt (Step next) start cycle := by
  induction depth generalizing path explored node child with
  | zero => cases h
  | succ depth ih =>
    unfold searchCycle at h
    split at h
    · rename_i hstart
      obtain rfl := Except.error.inj h
      exact hstart ▸ hpath.cycleAt (hstart ▸ hchild)
    · split at h
      · cases h
      · rename_i hvisited
        have hnew : child ∉ node :: path := fun hmem => hvisited (.inl hmem)
        cases hinner : (next child).foldlM (searchCycle next start depth (child :: node :: path))
            explored with
        | ok inner =>
          rw [hinner] at h
          cases h
        | error found =>
          rw [hinner] at h
          obtain rfl := Except.error.inj h
          obtain ⟨grandchild, hgrandchild, explored', hfound⟩ := exists_of_foldlM_eq_error hinner
          exact ih (hpath.grow hchild hnew) hgrandchild hfound

/-- The search answers a cycle through its start. -/
theorem cycleAt_of_cycleThrough? {size : Nat} (h : cycleThrough? size next start = some cycle) :
    CycleAt (Step next) start cycle := by
  unfold cycleThrough? at h
  split at h
  · rename_i found hfold
    obtain rfl := Option.some.inj h
    obtain ⟨child, hchild, explored, hfound⟩ := exists_of_foldlM_eq_error hfold
    exact cycleAt_of_searchCycle (.single next start) hchild hfound
  · cases h

/-- The search answers a cycle if there is one. -/
theorem exists_cycleThrough?_iff (hnodes : Closed next nodes) (hstart : start ∈ nodes) {size : Nat}
    (hsize : nodes.length ≤ size) :
    (∃ cycle, cycleThrough? size next start = some cycle) ↔
      Relation.TransGen (Step next) start start := by
  constructor
  · rintro ⟨cycle, h⟩
    have hcycle := cycleAt_of_cycleThrough? h
    have hmem : start ∈ cycle := by
      obtain ⟨between, rfl, -⟩ := hcycle
      exact List.mem_cons_self
    exact (hcycle.transGen hmem).1
  · intro h
    obtain ⟨child, hchild, hback⟩ := Relation.TransGen.head'_iff.1 h
    cases hfound : cycleThrough? size next start with
    | none =>
      exact absurd hback
        (not_reaches_of_cycleThrough?_eq_none hnodes hstart hsize hfound child hchild)
    | some cycle => exact ⟨cycle, rfl⟩

/-! ## The loop -/

namespace CycleSearch

variable {s s' : CycleSearch α} {answer : Option (List α)} {outer : List (α × List α)}
  {children rest : List α}

/-- Rounds of the loop lead from one search to another. -/
def Goes (next : α → List α) (start : α) : CycleSearch α → CycleSearch α → Prop :=
  Relation.ReflTransGen fun s s' => s.round next start = .inl s'

/-- Rounds of the loop lead to one that answers. -/
def Answers (next : α → List α) (start : α) (s : CycleSearch α) (answer : Option (List α)) : Prop :=
  ∃ last, Goes next start s last ∧ last.round next start = .inr answer

theorem Answers.of_goes (h : Goes next start s s') (hanswers : Answers next start s' answer) :
    Answers next start s answer := by
  obtain ⟨last, hlast, hanswer⟩ := hanswers
  exact ⟨last, h.trans hlast, hanswer⟩

/-- The search at a node of which the given successors are still to be followed. -/
def follow (node : α) (children : List α) (outer : List (α × List α)) (explored : List α) :
    CycleSearch α := ⟨(node, children) :: outer, explored⟩

/-- Rounds of the loop do what a recursive call does: they lead to the search that goes on with what
the call has explored, or to the cycle that it fails with. -/
def Does (next : α → List α) (start : α) (s : CycleSearch α) (goesOn : List α → CycleSearch α) :
    Except (List α) (List α) → Prop
  | .ok explored => Goes next start s (goesOn explored)
  | .error cycle => Answers next start s (some cycle)

/-- Following successors one after the other does what the calls do. -/
theorem does_foldlM {call : List α → α → Except (List α) (List α)}
    (hcall : ∀ child ∈ children, ∀ rest explored,
      Does next start (follow node (child :: rest) outer explored) (follow node rest outer)
        (call explored child)) (explored : List α) :
    Does next start (follow node children outer explored) (follow node [] outer)
      (children.foldlM call explored) := by
  induction children generalizing explored with
  | nil => exact Relation.ReflTransGen.refl
  | cons child rest ih =>
    have hfirst := hcall child List.mem_cons_self rest explored
    rw [List.foldlM_cons]
    cases hchild : call explored child with
    | error cycle =>
      rw [hchild] at hfirst
      exact hfirst
    | ok explored' =>
      rw [hchild] at hfirst
      have hrest := ih (fun c hc => hcall c (List.mem_cons_of_mem _ hc)) explored'
      change Does next start _ _ (rest.foldlM call explored')
      cases hfold : rest.foldlM call explored' with
      | error cycle =>
        rw [hfold] at hrest
        exact Answers.of_goes hfirst hrest
      | ok explored'' =>
        rw [hfold] at hrest
        exact Relation.ReflTransGen.trans hfirst hrest

/-- Following a successor does what the recursive call for it does. -/
theorem does_searchCycle (hnodes : Closed next nodes) {depth : Nat} (hchild : child ∈ nodes)
    (hpath : node :: outer.map (·.1) ⊆ nodes) (hnodup : (node :: outer.map (·.1)).Nodup)
    (hdepth : nodes.length < (node :: outer.map (·.1)).length + depth) (rest explored : List α) :
    Does next start (follow node (child :: rest) outer explored) (follow node rest outer)
      (searchCycle next start depth (node :: outer.map (·.1)) explored child) := by
  induction depth generalizing node child outer rest explored with
  | zero => exact absurd (lt_of_path hpath hnodup hdepth) (lt_irrefl 0)
  | succ depth ih =>
    unfold searchCycle
    split
    · rename_i hstart
      exact ⟨_, Relation.ReflTransGen.refl, by simp [round, follow, hstart]⟩
    · rename_i hstart
      split
      · rename_i hvisited
        refine Relation.ReflTransGen.single ?_
        simp only [round, follow, hstart, hvisited, if_true, if_false]
      · rename_i hvisited
        -- the loop enters the child, follows all of its successors, and leaves it
        have henter : Goes next start (follow node (child :: rest) outer explored)
            (follow child (next child) ((node, rest) :: outer) explored) := by
          refine Relation.ReflTransGen.single ?_
          simp only [round, follow, hstart, hvisited, if_false]
        have hinner : Does next start (follow child (next child) ((node, rest) :: outer) explored)
            (follow child [] ((node, rest) :: outer))
            ((next child).foldlM
              (searchCycle next start depth (child :: node :: outer.map (·.1))) explored) := by
          refine does_foldlM (fun grandchild hgrandchild rest' explored' => ?_) explored
          refine @ih child grandchild ((node, rest) :: outer)
            (hnodes child hchild grandchild hgrandchild) (List.cons_subset.2 ⟨hchild, hpath⟩)
            (List.nodup_cons.2 ⟨fun hmem => hvisited (.inl hmem), hnodup⟩) ?_ rest' explored'
          simp only [List.map_cons, List.length_cons] at hdepth ⊢
          omega
        cases hfold : (next child).foldlM
            (searchCycle next start depth (child :: node :: outer.map (·.1))) explored with
        | error cycle =>
          rw [hfold] at hinner
          exact Answers.of_goes henter hinner
        | ok explored' =>
          rw [hfold] at hinner
          have hleave : Goes next start (follow child [] ((node, rest) :: outer) explored')
              (follow node rest outer (child :: explored')) := Relation.ReflTransGen.single rfl
          exact (henter.trans hinner).trans hleave

/-- The loop ends, with the answer of the search. -/
theorem answers_cycleThrough? (hnodes : Closed next nodes) (hstart : start ∈ nodes) {size : Nat}
    (hsize : nodes.length ≤ size) :
    Answers next start (begin next start) (cycleThrough? size next start) := by
  have hdoes : Does next start (begin next start) (follow start [] [])
      ((next start).foldlM (searchCycle next start size [start]) []) := by
    refine does_foldlM (fun child hchild rest explored => ?_) []
    refine does_searchCycle hnodes (hnodes start hstart child hchild) (by simpa using hstart)
      (by simp) ?_ rest explored
    simp only [List.map_nil, List.length_singleton]
    omega
  unfold cycleThrough?
  cases hfold : (next start).foldlM (searchCycle next start size [start]) [] with
  | error cycle =>
    rw [hfold] at hdoes
    exact hdoes
  | ok explored =>
    rw [hfold] at hdoes
    -- the path is used up
    have hlast : Goes next start (follow start [] [] explored) ⟨[], start :: explored⟩ :=
      Relation.ReflTransGen.single rfl
    exact ⟨_, Relation.ReflTransGen.trans hdoes hlast, rfl⟩

end CycleSearch

end ObjectRelational.Graph
