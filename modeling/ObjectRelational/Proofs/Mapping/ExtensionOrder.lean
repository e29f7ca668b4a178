import Mathlib.Data.List.Perm.Subperm
import ObjectRelational.Proofs.Mapping.Class

/-!
# The order of extended mappings

When the class mappings of a unit can be ordered, each comes behind the one that it extends, and so no
chain of extended mappings comes back to where it was. That is all that it takes: whether they can be
ordered does not depend on how they are listed.

* `Extension.SuperFirst`: an order in which extended mappings come first. `superFirst_of_order`.
* `Extension.Ranked`: every mapping ranks behind the one that it extends. `exists_order_iff`: mappings can
  be ordered exactly when they can be ranked.
-/

namespace ObjectRelational.Extension

variable {all done path longer l ordered : List Source.ClassMapping} {depth : Nat}
  {m p : Source.ClassMapping}

theorem hasId_append {a b : List Source.ClassMapping} {id : String} :
    hasId (a ++ b) id ↔ hasId a id ∨ hasId b id := by
  simp [hasId, List.any_append]

/-- The mapping that is extended has the id that is named. -/
theorem superId_of_parent? (h : parent? all m = some p) : m.superId.map (·.value) = some p.mappingId := by
  obtain ⟨name, hname, hfound⟩ := Option.bind_eq_some_iff.1 h
  have hid := List.find?_some hfound
  simp only [decide_eq_true_eq] at hid
  rw [hname, Option.map_some, hid]

/-- If there is a mapping of the id that is named, one is extended. -/
theorem exists_parent? {name : Name} (hname : m.superId = some name) (hhas : hasId all name.value) :
    ∃ p, parent? all m = some p ∧ p.mappingId = name.value := by
  obtain ⟨x, hx, hid⟩ := hasId_iff.1 hhas
  have hsome : (all.find? fun p => p.mappingId = name.value).isSome :=
    List.find?_isSome.2 ⟨x, hx, decide_eq_true hid⟩
  obtain ⟨p, hp⟩ := Option.isSome_iff_exists.1 hsome
  have hpid := List.find?_some hp
  exact ⟨p, by rw [parent?, hname]; exact hp, of_decide_eq_true hpid⟩

theorem eq_of_extendsItself {name : Name} (h : extendsItself m = some name) :
    m.superId = some name ∧ name.value = m.mappingId := by
  obtain ⟨hsuper, hself⟩ := Option.filter_eq_some_iff.1 h
  exact ⟨hsuper, of_decide_eq_true hself⟩

/-! ## Extended mappings come first -/

/-- Every mapping of a list is there once, behind the one that it extends if that is one of `all`. -/
inductive SuperFirst (all : List Source.ClassMapping) : List Source.ClassMapping → Prop
  | nil : SuperFirst all []
  | snoc {ordered : List Source.ClassMapping} {m : Source.ClassMapping} (h : SuperFirst all ordered)
      (hnew : ¬ hasId ordered m.mappingId)
      (hparent : ∀ p, parent? all m = some p → hasId ordered p.mappingId) :
      SuperFirst all (ordered ++ [m])

theorem SuperFirst.nodup (h : SuperFirst all ordered) : (ordered.map (·.mappingId)).Nodup := by
  induction h with
  | nil => exact List.nodup_nil
  | @snoc ordered m h hnew hparent ih =>
    rw [List.map_append, List.map_singleton, ← List.concat_eq_append]
    exact ih.concat fun hmem => hnew (hasId_iff_mem_map.2 hmem)

/-- A mapping is behind the one that it extends. -/
theorem SuperFirst.hasId_of_parent? {front back : List Source.ClassMapping}
    (h : SuperFirst all (front ++ m :: back)) (hp : parent? all m = some p) :
    hasId front p.mappingId := by
  generalize hordered : front ++ m :: back = ordered at h
  induction h generalizing back with
  | nil => simp at hordered
  | @snoc ordered last h _ hparent ih =>
    obtain rfl | ⟨back, last', rfl⟩ := back.eq_nil_or_concat
    · obtain ⟨rfl, hlast⟩ := List.append_inj' hordered rfl
      obtain rfl := List.singleton_inj.1 hlast
      exact hparent p hp
    · rw [List.concat_eq_append, ← List.cons_append, ← List.append_assoc] at hordered
      exact ih (List.append_inj' hordered rfl).1

/-- The mappings that are passed on the way up are distinct, so that there are no more than there are
mappings in the unit. -/
theorem length_le_of_nodup (hpath : path ⊆ all) (hnodup : (path.map (·.mappingId)).Nodup) :
    path.length ≤ all.length := by
  have hids : path.map (·.mappingId) ⊆ all.map (·.mappingId) := List.map_subset _ hpath
  simpa using (List.subperm_of_subset hnodup hids).length_le

theorem not_hasId_append_singleton {id : String} (hordered : ¬ hasId ordered id)
    (hm : m.mappingId ≠ id) : ¬ hasId (ordered ++ [m]) id := by
  rw [hasId_append, not_or]
  exact ⟨hordered, by simpa [hasId] using hm⟩

/-- The way up from a mapping ends behind what is ordered already. What was passed before waits for the
mapping: it may follow wherever the mapping is. -/
theorem superFirst_of_climb (hdone : SuperFirst all done) (hm : m ∈ all) (hpath : path ⊆ all)
    (hnodup : (path.map (·.mappingId)).Nodup) (hnew : ∀ x ∈ path, ¬ hasId done x.mappingId)
    (hdepth : path.length + depth = all.length + 1)
    (hwaiting : ∀ ordered, SuperFirst all ordered → hasId ordered m.mappingId →
      (∀ x ∈ path, ¬ hasId ordered x.mappingId) → SuperFirst all (ordered ++ path))
    (h : climb all done depth path m = .ok longer) : SuperFirst all (done ++ longer) := by
  induction depth generalizing path m with
  | zero =>
    have := length_le_of_nodup hpath hnodup
    omega
  | succ depth ih =>
    unfold climb at h
    split at h
    · rename_i hordered
      obtain rfl := Except.ok.inj h
      exact hwaiting done hdone hordered hnew
    · rename_i hdoneNew
      split at h
      · exact absurd h (found_ne_ok _ _ _)
      · rename_i hpathNew
        have hdistinct : ∀ x ∈ path, m.mappingId ≠ x.mappingId := fun x hx hid =>
          hpathNew (hasId_iff.2 ⟨x, hx, hid.symm⟩)
        have hself : ∀ ordered, hasId (ordered ++ [m]) m.mappingId := fun ordered =>
          hasId_iff.2 ⟨m, by simp, rfl⟩
        split at h
        · exact absurd h (found_ne_ok _ _ _)
        · rename_i hnone
          -- the mapping extends none of the unit: it may come next
          obtain rfl := Except.ok.inj h
          have hnext := hwaiting _ (hdone.snoc hdoneNew fun p hp => by simp [hnone] at hp)
            (hself done) fun x hx => not_hasId_append_singleton (hnew x hx) (hdistinct x hx)
          simpa using hnext
        · rename_i p _ hparent
          refine ih (mem_of_parent? hparent) (List.cons_subset.2 ⟨hm, hpath⟩) ?_ ?_
            (by simp only [List.length_cons]; omega) (fun ordered hordered hp hnone => ?_) h
          · exact List.nodup_cons.2 ⟨fun hmem => hpathNew (hasId_iff_mem_map.2 hmem), hnodup⟩
          · intro x hx
            rcases List.mem_cons.1 hx with rfl | hx
            · exact hdoneNew
            · exact hnew x hx
          · -- wherever the mapping that is extended is, this one may follow, and then the others
            have hlater : ∀ x ∈ path, ¬ hasId (ordered ++ [m]) x.mappingId := fun x hx =>
              not_hasId_append_singleton (hnone x (List.mem_cons_of_mem _ hx)) (hdistinct x hx)
            have hnext := hwaiting _ (hordered.snoc (hnone m List.mem_cons_self) fun q hq => ?_)
              (hself ordered) hlater
            · simpa using hnext
            · obtain rfl := Option.some.inj (hparent.symm.trans hq)
              exact hp

theorem superFirst_of_orderFrom (hdone : SuperFirst all done) (hl : l ⊆ all)
    (h : orderFrom all done l = .ok ordered) : SuperFirst all ordered := by
  induction l generalizing done with
  | nil =>
    obtain rfl := Except.ok.inj h
    exact hdone
  | cons m rest ih =>
    obtain ⟨path, hpath, hrest⟩ := bind_eq_ok_iff.1 h
    obtain ⟨hm, hsubset⟩ := List.cons_subset.1 hl
    have hnext := superFirst_of_climb hdone hm (List.nil_subset _) List.nodup_nil
      (List.forall_mem_nil _) (by simp) (fun ordered hordered _ _ => by simpa using hordered) hpath
    exact ih hnext hsubset hrest

/-- In the order of a unit extended mappings come first. -/
theorem superFirst_of_order (h : order all = .ok ordered) : SuperFirst all ordered :=
  superFirst_of_orderFrom .nil (List.Subset.refl _) h

/-! ## Ranks -/

/-- Mappings can be ranked by their ids so that each ranks behind the one that it extends. -/
def Ranked (all : List Source.ClassMapping) : Prop :=
  ∃ rank : String → Nat, ∀ m ∈ all, ∀ p, parent? all m = some p →
    rank p.mappingId < rank m.mappingId

/-- A mapping of the list ranks behind the one that it extends when it ranks by its place. -/
theorem SuperFirst.findIdx_lt (h : SuperFirst all ordered) (hordered : ordered ⊆ all)
    (hnodup : (all.map (·.mappingId)).Nodup) (hm : m ∈ all) (hid : hasId ordered m.mappingId)
    (hp : parent? all m = some p) :
    ordered.findIdx (fun x => x.mappingId = p.mappingId) <
      ordered.findIdx fun x => x.mappingId = m.mappingId := by
  obtain ⟨x, hx, hxid⟩ := hasId_iff.1 hid
  obtain rfl := List.inj_on_of_nodup_map hnodup (hordered hx) hm hxid
  obtain ⟨front, back, rfl⟩ := List.append_of_mem hx
  obtain ⟨y, hy, hyid⟩ := hasId_iff.1 (h.hasId_of_parent? hp)
  -- the mapping that is extended is in front of the other one, whose id is not there before
  have hparent : front.findIdx (fun x => x.mappingId = p.mappingId) < front.length :=
    List.findIdx_lt_length.2 ⟨y, hy, decide_eq_true hyid⟩
  have hids : (front.map (·.mappingId) ++ x.mappingId :: back.map (·.mappingId)).Nodup := by
    simpa using h.nodup
  have hnew : ¬ front.findIdx (fun y => y.mappingId = x.mappingId) < front.length := fun hlt => by
    obtain ⟨z, hz, hzid⟩ := List.findIdx_lt_length.1 hlt
    exact (List.nodup_append.1 hids).2.2 z.mappingId (List.mem_map_of_mem hz) x.mappingId
      List.mem_cons_self (of_decide_eq_true hzid)
  rw [List.findIdx_append, if_pos hparent, List.findIdx_append, if_neg hnew]
  exact Nat.lt_of_lt_of_le hparent (Nat.le_add_left _ _)

/-- No mapping of ranked ones extends itself. -/
theorem extendsItself_of_ranked {rank : String → Nat}
    (hrank : ∀ m ∈ all, ∀ p, parent? all m = some p → rank p.mappingId < rank m.mappingId)
    (hm : m ∈ all) : extendsItself m = none := by
  rw [Option.eq_none_iff_forall_ne_some]
  intro name hname
  obtain ⟨hsuper, hself⟩ := eq_of_extendsItself hname
  obtain ⟨p, hp, hid⟩ := exists_parent? hsuper (hasId_iff.2 ⟨m, hm, hself.symm⟩)
  have hlt := hrank m hm p hp
  rw [hid, hself] at hlt
  exact Nat.lt_irrefl _ hlt

/-- The way up through ranked mappings never comes back. -/
theorem climb_of_ranked {rank : String → Nat}
    (hrank : ∀ m ∈ all, ∀ p, parent? all m = some p → rank p.mappingId < rank m.mappingId)
    (hm : m ∈ all) (hpath : ∀ x ∈ path, rank m.mappingId < rank x.mappingId) :
    ∃ longer, climb all done depth path m = .ok longer := by
  induction depth generalizing path m with
  | zero => exact ⟨_, rfl⟩
  | succ depth ih =>
    unfold climb
    split
    · exact ⟨_, rfl⟩
    · split
      · rename_i hcycle
        obtain ⟨x, hx, hid⟩ := hasId_iff.1 hcycle
        have hlt := hpath x hx
        rw [hid] at hlt
        exact absurd hlt (Nat.lt_irrefl _)
      · split
        · rename_i hself
          simp [extendsItself_of_ranked hrank hm] at hself
        · exact ⟨_, rfl⟩
        · rename_i p _ hparent
          have hlt := hrank m hm p hparent
          refine ih (mem_of_parent? hparent) fun x hx => ?_
          rcases List.mem_cons.1 hx with rfl | hx
          · exact hlt
          · exact Nat.lt_trans hlt (hpath x hx)

theorem orderFrom_of_ranked (h : Ranked all) (hl : l ⊆ all) :
    ∃ ordered, orderFrom all done l = .ok ordered := by
  obtain ⟨rank, hrank⟩ := h
  induction l generalizing done with
  | nil => exact ⟨_, rfl⟩
  | cons m rest ih =>
    obtain ⟨hm, hsubset⟩ := List.cons_subset.1 hl
    obtain ⟨path, hpath⟩ := climb_of_ranked hrank hm (List.forall_mem_nil _)
    obtain ⟨ordered, hrest⟩ := ih hsubset
    exact ⟨ordered, bind_eq_ok_iff.2 ⟨path, hpath, hrest⟩⟩

/-- Mappings of distinct ids can be ordered exactly when they can be ranked. -/
theorem exists_order_iff (hnodup : (all.map (·.mappingId)).Nodup) :
    (∃ ordered, order all = .ok ordered) ↔ Ranked all := by
  constructor
  · rintro ⟨ordered, h⟩
    obtain ⟨hsubset, hcomplete⟩ := order_complete h
    exact ⟨fun id => ordered.findIdx fun x => x.mappingId = id, fun m hm p hp =>
      (superFirst_of_order h).findIdx_lt hsubset hnodup hm (hcomplete m hm) hp⟩
  · exact fun h => orderFrom_of_ranked h (List.Subset.refl _)

/-! ## Permutations -/

variable {all' : List Source.ClassMapping}

/-- The order of a unit lists all of its mappings, each once. -/
theorem perm_of_order (hnodup : (all.map (·.mappingId)).Nodup) (h : order all = .ok ordered) :
    ordered.Perm all := by
  obtain ⟨hsubset, hcomplete⟩ := order_complete h
  have hordered : ordered.Nodup := (superFirst_of_order h).nodup.of_map _
  refine (List.perm_ext_iff_of_nodup hordered (hnodup.of_map _)).2 fun m => ⟨fun hm => hsubset hm, ?_⟩
  intro hm
  obtain ⟨x, hx, hid⟩ := hasId_iff.1 (hcomplete m hm)
  exact List.inj_on_of_nodup_map hnodup (hsubset hx) hm hid ▸ hx

/-- Which mapping is extended does not depend on how mappings are listed. -/
theorem parent?_of_perm (h : all'.Perm all) (hnodup : (all.map (·.mappingId)).Nodup)
    (m : Source.ClassMapping) : parent? all' m = parent? all m := by
  unfold parent?
  congr 1
  funext superId
  cases hfound : all.find? fun p => p.mappingId = superId.value with
  | none =>
    rw [List.find?_eq_none] at hfound ⊢
    exact fun p hp => hfound p (h.subset hp)
  | some p =>
    have hid := List.find?_some hfound
    simp only [decide_eq_true_eq] at hid
    have hp := List.mem_of_find?_eq_some hfound
    refine find?_eq_some_of_unique (h.mem_iff.2 hp) (by simpa using hid) fun q hq hqid => ?_
    simp only [decide_eq_true_eq] at hqid
    exact List.inj_on_of_nodup_map hnodup (h.subset hq) hp (hqid.trans hid.symm)

theorem SuperFirst.of_perm (h : all'.Perm all) (hnodup : (all.map (·.mappingId)).Nodup)
    (hordered : SuperFirst all' ordered) : SuperFirst all ordered := by
  induction hordered with
  | nil => exact .nil
  | snoc _ hnew hparent ih =>
    refine ih.snoc hnew fun p hp => hparent p ?_
    rw [parent?_of_perm h hnodup]
    exact hp

theorem Ranked.of_perm (h : all'.Perm all) (hnodup : (all.map (·.mappingId)).Nodup)
    (hranked : Ranked all) : Ranked all' := by
  obtain ⟨rank, hrank⟩ := hranked
  refine ⟨rank, fun m hm p hp => hrank m (h.subset hm) p ?_⟩
  rw [← parent?_of_perm h hnodup]
  exact hp

/-- Nor does it matter for whether they can be ordered. -/
theorem exists_order_of_perm (h : all'.Perm all) (hnodup : (all.map (·.mappingId)).Nodup)
    (hordered : order all = .ok ordered) : ∃ ordered', order all' = .ok ordered' := by
  have hnodup' : (all'.map (·.mappingId)).Nodup := (h.map _).nodup_iff.2 hnodup
  exact (exists_order_iff hnodup').2 (((exists_order_iff hnodup).1 ⟨_, hordered⟩).of_perm h hnodup)

end ObjectRelational.Extension
