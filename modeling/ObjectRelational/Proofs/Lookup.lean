import Mathlib.Data.List.Forall2
import Mathlib.Data.List.Nodup
import Mathlib.Data.List.Pairwise

/-!
# Lookups in lists

Ids are unique, so that a lookup answers whatever it can answer at all, wherever that stands in the
list.

* `findSome?_eq_some_of_unique`, `find?_eq_some_of_unique`: a value that is the only one is found.
* `exists_least_of_findSome?`: in an ascending list, what is found first is found at a least member.
* `find?_eq_some_iff_of_nodup`, `findIdx?_eq_some_iff_of_nodup`, `lookup_eq_some_iff_of_nodup`: under different
  keys, a key leads to what has it.
* `eq_of_mem_of_nodup_flatMap`: what members of a list take without repetition belongs to one of them.
* `nodup_eraseDups`: members that are listed once each.
* `forall₂_filterMap`, `exists_forall₂`, `exists_of_mem_left`, `exists_of_mem_right`: lists that go side by side.
-/

namespace ObjectRelational

variable {α β κ : Type}

theorem findSome?_eq_some_of_unique {l : List α} {f : α → Option β} {a : α} {b : β} (ha : a ∈ l)
    (hfa : f a = some b) (hunique : ∀ a' ∈ l, ∀ b', f a' = some b' → a' = a) :
    l.findSome? f = some b := by
  cases hfound : l.findSome? f with
  | none =>
    rw [List.findSome?_eq_none_iff] at hfound
    rw [hfound a ha] at hfa
    cases hfa
  | some b' =>
    obtain ⟨a', ha', hfa'⟩ := List.exists_of_findSome?_eq_some hfound
    rw [hunique a' ha' b' hfa', hfa] at hfa'
    exact hfa'.symm

/-- What is found first in a list that ascends is found at a least one of all members that have something. -/
theorem exists_least_of_findSome? {l : List α} {f : α → Option β} {rank : α → Nat}
    (hordered : l.Pairwise fun a b => rank a ≤ rank b) {b : β} (h : l.findSome? f = some b) :
    ∃ a ∈ l, f a = some b ∧ ∀ other ∈ l, (f other).isSome → rank a ≤ rank other := by
  obtain ⟨front, a, back, rfl, ha, hpassed⟩ := List.findSome?_eq_some_iff.1 h
  refine ⟨a, by simp, ha, ?_⟩
  -- what stands in front has nothing, and what stands behind is no less
  intro other hother hsome
  rcases List.mem_append.1 hother with hfront | hrest
  · simp [hpassed other hfront] at hsome
  · rcases List.mem_cons.1 hrest with rfl | hback
    · exact Nat.le_refl _
    · exact List.rel_of_pairwise_cons (List.pairwise_append.1 hordered).2.1 hback

theorem find?_eq_some_of_unique {l : List α} {p : α → Bool} {a : α} (ha : a ∈ l) (hpa : p a)
    (hunique : ∀ a' ∈ l, p a' → a' = a) : l.find? p = some a := by
  rw [← List.findSome?_guard]
  refine findSome?_eq_some_of_unique ha (Option.guard_eq_some_iff.2 ⟨rfl, hpa⟩) ?_
  intro a' ha' b' hb'
  obtain ⟨rfl, hpa'⟩ := Option.guard_eq_some_iff.1 hb'
  exact hunique a' ha' hpa'

/-- Under different keys, what a key leads to is what has it. -/
theorem find?_eq_some_iff_of_nodup [DecidableEq κ] {f : α → κ} {l : List α} (h : (l.map f).Nodup)
    {key : κ} {a : α} : l.find? (fun b => f b = key) = some a ↔ a ∈ l ∧ f a = key := by
  refine ⟨fun hfound => ⟨List.mem_of_find?_eq_some hfound, by simpa using List.find?_some hfound⟩, ?_⟩
  rintro ⟨ha, rfl⟩
  refine find?_eq_some_of_unique ha (by simp) fun b hb hsame => ?_
  exact List.inj_on_of_nodup_map h hb ha (by simpa using hsame)

/-- Under different keys, a key leads to the position of what has it. -/
theorem findIdx?_eq_some_iff_of_nodup [DecidableEq κ] {f : α → κ} {l : List α} (h : (l.map f).Nodup)
    {key : κ} {i : Nat} :
    l.findIdx? (fun a => f a = key) = some i ↔ ∃ a, l[i]? = some a ∧ f a = key := by
  rw [List.findIdx?_eq_some_iff_getElem]
  constructor
  · rintro ⟨hi, hkey, -⟩
    exact ⟨l[i], List.getElem?_eq_getElem hi, by simpa using hkey⟩
  · rintro ⟨a, ha, rfl⟩
    obtain ⟨hi, rfl⟩ := List.getElem?_eq_some_iff.1 ha
    refine ⟨hi, by simp, fun j hj hsame => ?_⟩
    have hmapped : (l.map f)[j]? = (l.map f)[i]? := by
      rw [List.getElem?_map, List.getElem?_map, List.getElem?_eq_getElem (Nat.lt_trans hj hi),
        List.getElem?_eq_getElem hi]
      simpa using hsame
    have hbound : j < (l.map f).length := by simpa using Nat.lt_trans hj hi
    exact Nat.ne_of_lt hj ((List.getElem?_inj hbound h).1 hmapped)

/-- Under different keys, a key leads to what is listed with it. -/
theorem lookup_eq_some_iff_of_nodup [BEq κ] [LawfulBEq κ] {l : List (κ × β)} {key : κ} {b : β}
    (h : (l.map Prod.fst).Nodup) : l.lookup key = some b ↔ (key, b) ∈ l := by
  rw [List.lookup_eq_some_iff]
  constructor
  · rintro ⟨before, after, rfl, -⟩
    simp
  · intro hmem
    obtain ⟨before, after, rfl⟩ := List.append_of_mem hmem
    rw [List.map_append, List.map_cons] at h
    refine ⟨before, after, rfl, fun entry hentry => ?_⟩
    have hne := (List.nodup_append.1 h).2.2 _ (List.mem_map_of_mem hentry) _ List.mem_cons_self
    exact bne_iff_ne.2 hne.symm

/-- Among pairs of distinct keys it does not matter how they are listed. -/
theorem lookup_of_perm [BEq κ] [LawfulBEq κ] {l l' : List (κ × β)} (h : l'.Perm l)
    (hnodup : (l.map Prod.fst).Nodup) (key : κ) : l'.lookup key = l.lookup key := by
  induction h with
  | nil => rfl
  | cons a _ ih =>
    rw [List.map_cons, List.nodup_cons] at hnodup
    rw [List.lookup_cons, List.lookup_cons, ih hnodup.2]
  | swap a b rest =>
    obtain ⟨ka, va⟩ := a
    obtain ⟨kb, vb⟩ := b
    have hne : ka ≠ kb := by
      simp only [List.map_cons, List.nodup_cons, List.mem_cons, not_or] at hnodup
      exact hnodup.1.1
    rw [List.lookup_cons, List.lookup_cons, List.lookup_cons, List.lookup_cons]
    by_cases ha : key == ka
    · have hb : (key == kb) = false := by
        rw [beq_eq_false_iff_ne, eq_of_beq ha]
        exact hne
      simp [ha, hb]
    · simp [ha]
  | trans hfirst hsecond ihfirst ihsecond =>
    rw [ihfirst ((hsecond.map _).nodup_iff.2 hnodup), ihsecond hnodup]

/-- What the keys denote may be mapped before they are looked up. -/
theorem lookup_map_snd [BEq κ] {f : α → β} (l : List (κ × α)) (key : κ) :
    (l.map fun entry => (entry.1, f entry.2)).lookup key = (l.lookup key).map f := by
  induction l with
  | nil => rfl
  | cons entry rest ih =>
    obtain ⟨k, a⟩ := entry
    rw [List.map_cons, List.lookup_cons, List.lookup_cons, ih]
    cases key == k <;> rfl

/-- What the members of a list take without repetition belongs to one of them. -/
theorem eq_of_mem_of_nodup_flatMap {l : List α} {f : α → List κ} (h : (l.flatMap f).Nodup) {a b : α}
    (ha : a ∈ l) (hb : b ∈ l) {x : κ} (hxa : x ∈ f a) (hxb : x ∈ f b) : a = b := by
  by_contra hne
  have : Std.Symm (Function.onFun List.Disjoint f) := ⟨fun _ _ h _ ha hb => h hb ha⟩
  exact (List.nodup_flatMap.1 h).2.forall ha hb hne hxa hxb

theorem map_sublist_flatMap {l : List α} {f : α → κ} {g : α → List κ} (h : ∀ a ∈ l, f a ∈ g a) :
    (l.map f).Sublist (l.flatMap g) := by
  induction l with
  | nil => exact .slnil
  | cons a rest ih =>
    rw [List.map_cons, List.flatMap_cons, ← List.singleton_append]
    exact (List.singleton_sublist.2 (h a List.mem_cons_self)).append
      (ih fun a' ha' => h a' (List.mem_cons_of_mem _ ha'))

theorem forall₂_filterMap {R : α → β → Prop} {f : α → Option β} {l : List α}
    (h : ∀ a ∈ l, ∃ b, f a = some b ∧ R a b) : List.Forall₂ R l (l.filterMap f) := by
  induction l with
  | nil => exact .nil
  | cons a rest ih =>
    obtain ⟨b, hfa, hR⟩ := h a List.mem_cons_self
    rw [List.filterMap_cons_some hfa]
    exact .cons hR (ih fun a' ha' => h a' (List.mem_cons_of_mem _ ha'))

theorem exists_forall₂ {R : α → β → Prop} {l : List α} (h : ∀ a ∈ l, ∃ b, R a b) :
    ∃ l', List.Forall₂ R l l' := by
  induction l with
  | nil => exact ⟨[], .nil⟩
  | cons a rest ih =>
    obtain ⟨b, hb⟩ := h a List.mem_cons_self
    obtain ⟨bs, hbs⟩ := ih fun a' ha' => h a' (List.mem_cons_of_mem _ ha')
    exact ⟨b :: bs, .cons hb hbs⟩

theorem exists_of_mem_left {R : α → β → Prop} {l : List α} {l' : List β} (h : List.Forall₂ R l l')
    {a : α} (ha : a ∈ l) : ∃ b ∈ l', R a b := by
  induction h with
  | nil => simp at ha
  | cons hR _ ih =>
    rcases List.mem_cons.1 ha with rfl | ha
    · exact ⟨_, List.mem_cons_self, hR⟩
    · obtain ⟨b, hb, hab⟩ := ih ha
      exact ⟨b, List.mem_cons_of_mem _ hb, hab⟩

theorem exists_of_mem_right {R : α → β → Prop} {l : List α} {l' : List β}
    (h : List.Forall₂ R l l') {b : β} (hb : b ∈ l') : ∃ a ∈ l, R a b :=
  exists_of_mem_left (R := fun b a => R a b) (List.Forall₂.flip h) hb

/-- Of lists that go side by side, what relates members may use that they are members. -/
theorem forall₂_of_mem {R S : α → β → Prop} {l : List α} {l' : List β} (h : List.Forall₂ R l l')
    (hR : ∀ a ∈ l, ∀ b ∈ l', R a b → S a b) : List.Forall₂ S l l' := by
  induction h with
  | nil => exact .nil
  | cons hab _ ih =>
    exact .cons (hR _ List.mem_cons_self _ List.mem_cons_self hab) (ih fun a ha b hb =>
      hR a (List.mem_cons_of_mem _ ha) b (List.mem_cons_of_mem _ hb))

theorem map_eq_map_of_forall₂ {R : α → β → Prop} {f : α → κ} {g : β → κ} {l : List α} {l' : List β}
    (h : List.Forall₂ R l l') (hR : ∀ a b, R a b → f a = g b) : l.map f = l'.map g := by
  rw [← List.forall₂_eq_eq_eq, List.forall₂_map_left_iff, List.forall₂_map_right_iff]
  exact h.imp hR

/-- Of equal members only the first one is kept. -/
theorem nodup_eraseDups [BEq α] [LawfulBEq α] (l : List α) : l.eraseDups.Nodup := by
  cases l with
  | nil => simp
  | cons a rest =>
    rw [List.eraseDups_cons, List.nodup_cons, List.mem_eraseDups]
    exact ⟨by simp, nodup_eraseDups _⟩
termination_by l.length
decreasing_by
  have hle := List.length_filter_le (fun b => !b == a) rest
  simp only [List.length_cons]
  omega

end ObjectRelational
