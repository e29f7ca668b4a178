import ObjectRelational.Proofs.Graph.Reachability

/-!
# Breadth-first search as a loop

The loops that list what is reached, and that look for one node, take a node of their queue in each round
and end when the queue is empty, or when the node is met. On a graph with cycles too they come to an end,
with the answer of the search.

* `QueueSearch.Goes`, `QueueSearch.Answers`: what rounds of a loop lead to.
* `QueueSearch.Follows`: a loop that follows a graph up to nodes at which it stops. `follows_visit`,
  `follows_seek`: so both loops do.
* `QueueSearch.Follows.goes_breadthFirst`: such a loop visits what the search visits.
* `QueueSearch.visit_answers_reachable`, `QueueSearch.seek_answers_reachable`: what the loops answer.
* `QueueSearch.Answers.unique`: a loop has one answer. `QueueSearch.Answers.filter`: nodes that lead nowhere may as
  well be left out of the graph.
-/

namespace ObjectRelational.Graph.QueueSearch

variable {α β : Type} {round : QueueSearch α → QueueSearch α ⊕ β}

/-- Rounds of the loop lead from one search to another. -/
def Goes (round : QueueSearch α → QueueSearch α ⊕ β) : QueueSearch α → QueueSearch α → Prop :=
  Relation.ReflTransGen fun s s' => round s = .inl s'

/-- Rounds of the loop lead to one that answers. -/
def Answers (round : QueueSearch α → QueueSearch α ⊕ β) (s : QueueSearch α) (answer : β) : Prop :=
  ∃ last, Goes round s last ∧ round last = .inr answer

/-- Unless it stops at a node, a loop passes over it if it was visited, and else visits it. -/
structure Follows (round : QueueSearch α → QueueSearch α ⊕ β) (next : α → List α) (stops : α → Prop) :
    Prop where
  pass : ∀ node rest visited, ¬ stops node → node ∈ visited →
    round ⟨node :: rest, visited⟩ = .inl ⟨rest, visited⟩
  enter : ∀ node rest visited, ¬ stops node → node ∉ visited →
    round ⟨node :: rest, visited⟩ = .inl ⟨rest ++ next node, node :: visited⟩

variable [DecidableEq α] {next : α → List α} {nodes queue visited starts : List α} {goal : α}
  {stops : α → Prop} {size bound : Nat}

theorem follows_visit (next : α → List α) : Follows (visit next) next fun _ => False where
  pass node rest visited _ hnode := by simp only [visit, hnode, if_true]
  enter node rest visited _ hnode := by simp only [visit, hnode, if_false]

theorem follows_seek (next : α → List α) (goal : α) : Follows (seek next goal) next (· = goal) where
  pass node rest visited hother hnode := by simp only [seek, hother, hnode, if_true, if_false]
  enter node rest visited hother hnode := by simp only [seek, hother, hnode, if_false]

/-- The loop passes over all visited nodes that stand in front. -/
theorem Follows.goes_dropWhile (h : Follows round next stops) (hvisited : ∀ a ∈ visited, ¬ stops a)
    (queue : List α) : Goes round ⟨queue, visited⟩ ⟨queue.dropWhile (· ∈ visited), visited⟩ := by
  induction queue with
  | nil => exact Relation.ReflTransGen.refl
  | cons node rest ih =>
    by_cases hnode : node ∈ visited
    · rw [List.dropWhile_cons_of_pos (by simpa using hnode)]
      exact Relation.ReflTransGen.head (h.pass node rest visited (hvisited node hnode) hnode) ih
    · rw [List.dropWhile_cons_of_neg (by simpa using hnode)]
      exact Relation.ReflTransGen.refl

/-- When as many nodes were visited as there are, all that wait were visited. -/
theorem dropWhile_eq_nil (h : Frontier next nodes queue visited)
    (hlength : nodes.length ≤ visited.length) : queue.dropWhile (· ∈ visited) = [] :=
  List.dropWhile_eq_nil_iff.2 fun a ha => by simpa using h.mem_seen hlength (h.queue_subset ha)

/-- The loop comes to a node at which it stops, and which the search visits; or the search visits none of
these, and the loop visits all that the search visits. -/
theorem Follows.goes_breadthFirst (h : Follows round next stops) (hnodes : Closed next nodes)
    (hfrontier : Frontier next nodes queue visited) (hbound : nodes.length ≤ bound + visited.length)
    (hvisited : ∀ a ∈ visited, ¬ stops a) :
    (∃ node rest visited', Goes round ⟨queue, visited⟩ ⟨node :: rest, visited'⟩ ∧ stops node ∧
      node ∈ breadthFirst next bound queue visited) ∨
    Goes round ⟨queue, visited⟩ ⟨[], (breadthFirst next bound queue visited).reverse ++ visited⟩ ∧
      ∀ a ∈ breadthFirst next bound queue visited, ¬ stops a := by
  -- each call of the search visits one node, so the bound and the nodes that were visited stay enough for
  -- all nodes; when the bound is used up all nodes were visited
  induction bound generalizing queue visited with
  | zero =>
    have hgoes := h.goes_dropWhile hvisited queue
    rw [dropWhile_eq_nil hfrontier (by omega)] at hgoes
    exact .inr ⟨hgoes, by simp [breadthFirst]⟩
  | succ bound ih =>
    have hgoes := h.goes_dropWhile hvisited queue
    unfold breadthFirst
    split
    · rename_i hdrop
      rw [hdrop] at hgoes
      exact .inr ⟨hgoes, by simp⟩
    · rename_i node rest hdrop
      rw [hdrop] at hgoes
      by_cases hstops : stops node
      · exact .inl ⟨node, rest, visited, hgoes, hstops, List.mem_cons_self⟩
      · have hround := h.enter node rest visited hstops (mem_of_dropWhile hdrop).1
        have henter := hgoes.trans (.single hround)
        have hlength : nodes.length ≤ bound + (node :: visited).length := by
          rw [List.length_cons]
          omega
        rcases ih (hfrontier.step hnodes hdrop) hlength (List.forall_mem_cons.2 ⟨hstops, hvisited⟩) with
          ⟨met, rest', visited', hmet, hstop, hmem⟩ | ⟨hall, hnone⟩
        · exact .inl ⟨met, rest', visited', henter.trans hmet, hstop, List.mem_cons_of_mem _ hmem⟩
        · -- the node was visited first, so it stands last among those that were visited
          refine .inr ⟨?_, List.forall_mem_cons.2 ⟨hstops, hnone⟩⟩
          rw [List.reverse_cons, List.append_assoc]
          exact henter.trans hall

section Reachable

variable (hnodes : Closed next nodes) (hsize : nodes.length ≤ size) (hstarts : starts ⊆ nodes)
include hnodes hsize hstarts

/-- The loop that visits nodes ends, and lists what is reached. -/
theorem visit_answers_reachable :
    Answers (visit next) { queue := starts } (reachable size next starts) := by
  rcases (follows_visit next).goes_breadthFirst hnodes (.start hstarts) hsize (by simp) with
    ⟨_, _, _, _, hstops, _⟩ | ⟨hall, -⟩
  · exact hstops.elim
  · exact ⟨_, hall, by simp [visit, reachable]⟩

/-- The loop that looks for a node ends, and answers whether it is reached. -/
theorem seek_answers_reachable :
    Answers (seek next goal) { queue := starts } (goal ∈ reachable size next starts) := by
  rcases (follows_seek next goal).goes_breadthFirst hnodes (.start hstarts) hsize (by simp) with
    ⟨_, rest, visited, hmet, rfl, hmem⟩ | ⟨hall, hnone⟩
  · exact ⟨_, hmet, by simp [seek, reachable, hmem]⟩
  · have hmissing : goal ∉ reachable size next starts := fun hmem => hnone goal hmem rfl
    exact ⟨_, hall, by simp [seek, hmissing]⟩

end Reachable

/-! ## Nodes that are left out -/

omit [DecidableEq α] in
/-- A loop that answers has one answer. -/
theorem Answers.unique {s : QueueSearch α} {answer answer' : β} (h : Answers round s answer)
    (h' : Answers round s answer') : answer = answer' := by
  obtain ⟨last, hlast, hanswer⟩ := h
  obtain ⟨last', hlast', hanswer'⟩ := h'
  have hunique : Relator.RightUnique fun s s' : QueueSearch α => round s = .inl s' :=
    fun _ _ _ hb hc => Sum.inl.inj (hb.symm.trans hc)
  -- an answer is not followed by another round
  have hends : ∀ {s t : QueueSearch α} {b : β}, Goes round s t → round s = .inr b → s = t := by
    intro s t b hgoes hs
    rcases Relation.ReflTransGen.cases_head hgoes with heq | ⟨_, hround, _⟩
    · exact heq
    · simp [hs] at hround
  have hsame : last = last' := by
    rcases Relation.ReflTransGen.total_of_right_unique hunique hlast hlast' with hgoes | hgoes
    · exact hends hgoes hanswer
    · exact (hends hgoes hanswer').symm
  rw [hsame, hanswer'] at hanswer
  exact (Sum.inr.inj hanswer).symm

/-- The search without the nodes that are left out. -/
def filter (keep : α → Bool) (s : QueueSearch α) : QueueSearch α :=
  ⟨s.queue.filter keep, s.visited.filter keep⟩

section Filter

variable {keep : α → Bool} {next' : α → List α}
  (hkept : ∀ a, keep a → next' a = (next a).filter keep) (hout : ∀ a, keep a = false → next a = [])
include hkept hout

/-- A round of the loop is one without the nodes that are left out, or it is none. -/
theorem goes_filter_of_visit {s s' : QueueSearch α} (h : visit next s = .inl s') :
    Goes (visit next') (s.filter keep) (s'.filter keep) := by
  obtain ⟨queue, visited⟩ := s
  cases queue with
  | nil => simp [visit] at h
  | cons node rest =>
    by_cases hkeep : keep node
    · have hmem : node ∈ visited.filter keep ↔ node ∈ visited := by simp [hkeep]
      refine Relation.ReflTransGen.single ?_
      by_cases hvisited : node ∈ visited
      · obtain rfl : ⟨rest, visited⟩ = s' := by simpa [visit, hvisited] using h
        simp only [filter, List.filter_cons_of_pos hkeep, visit, hmem, hvisited, if_true]
      · obtain rfl : ⟨rest ++ next node, node :: visited⟩ = s' := by simpa [visit, hvisited] using h
        simp only [filter, List.filter_cons_of_pos hkeep, visit, hmem, hvisited, if_false,
          List.filter_append, hkept node hkeep]
    · -- the node is passed over, and leads to nothing
      have hsame : s'.filter keep = filter keep ⟨node :: rest, visited⟩ := by
        by_cases hvisited : node ∈ visited
        · obtain rfl : ⟨rest, visited⟩ = s' := by simpa [visit, hvisited] using h
          simp [filter, hkeep]
        · obtain rfl : ⟨rest, node :: visited⟩ = s' := by
            simpa [visit, hvisited, hout node (by simpa using hkeep)] using h
          simp [filter, hkeep]
      rw [hsame]
      exact Relation.ReflTransGen.refl

/-- What the loop lists, without the nodes that are left out, is what it lists when these are not there. -/
theorem Answers.filter {s : QueueSearch α} {answer : List α} (h : Answers (visit next) s answer) :
    Answers (visit next') (s.filter keep) (answer.filter keep) := by
  obtain ⟨⟨queue, visited⟩, hlast, hanswer⟩ := h
  refine ⟨_, Relation.ReflTransGen.lift' (QueueSearch.filter keep)
    (fun _ _ hround => goes_filter_of_visit hkept hout hround) _ _ hlast, ?_⟩
  cases queue with
  | nil =>
    obtain rfl : visited.reverse = answer := by simpa [visit] using hanswer
    simp [QueueSearch.filter, visit, List.filter_reverse]
  | cons node rest =>
    simp only [visit] at hanswer
    split at hanswer <;> cases hanswer

end Filter

end ObjectRelational.Graph.QueueSearch
