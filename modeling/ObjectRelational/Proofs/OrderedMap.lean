import ObjectRelational.OrderedMap
import ObjectRelational.Proofs.Lookup

/-!
# Looking keys up in ordered maps

What `insert`, `erase` and the listings of a map do is said through `find?`; nothing else has to look
at the entries again.

* `find?_insert`, `find?_erase`, `find?_empty`, `find?_mapValues`, `find?_insertIfNew`: the operations.
* `ext_find?`: a map is what its lookups say.
* `mem_keys_iff`, `contains_iff`, `mem_values_iff`, `keys_ascending`, `keys_nodup`,
  `filter_values_eq_singleton`: the listings.
* `find?_foldl_insert`, `find?_foldl_insert_tell`, `perm_values_foldl_insert`: what is added one by one.
* `OrderedSet.mem_toList_ofList`, `OrderedSet.ofList_congr`: a set lists the elements it was made of, and
  is determined by them.
-/

namespace ObjectRelational.OrderedMap

variable {κ ν : Type} [LT κ]

/-! ## Lookups -/

/-- The keys are listed in ascending order. -/
theorem keys_ascending (m : OrderedMap κ ν) : m.keys.Pairwise (· < ·) :=
  List.pairwise_map.2 m.ascending

/-- No key is listed twice. -/
theorem keys_nodup [KeyOrder κ] (m : OrderedMap κ ν) : m.keys.Nodup := by
  rw [List.nodup_iff_pairwise_ne]
  refine m.keys_ascending.imp ?_
  intro a b hlt heq
  exact KeyOrder.irrefl _ (heq ▸ hlt)

section Find

variable [DecidableEq κ]

omit [LT κ] in
/-- A lookup tries the first entry first. -/
theorem lookup_cons_eq (e : κ × ν) (rest : List (κ × ν)) (key : κ) :
    (e :: rest).lookup key = if key = e.1 then some e.2 else rest.lookup key := by
  rcases e with ⟨k, v⟩
  by_cases h : key = k
  · simp [h]
  · have hne : (key == k) = false := by simp [h]
    simp [List.lookup_cons, h, hne]

@[simp] theorem find?_empty (key : κ) : (empty : OrderedMap κ ν).find? key = none := by
  rfl

/-- Removing a key leaves all other keys alone. -/
@[simp] theorem find?_erase (m : OrderedMap κ ν) (key other : κ) :
    (m.erase key).find? other = if other = key then none else m.find? other := by
  unfold find? erase
  simp only
  induction m.entries with
  | nil => simp
  | cons e rest ih =>
    by_cases hkey : e.1 = key
    · rw [List.filter_cons_of_neg (by simp [hkey]), ih, lookup_cons_eq, hkey]
      by_cases hother : other = key <;> simp [hother]
    · rw [List.filter_cons_of_pos (by simp [hkey]), lookup_cons_eq, lookup_cons_eq, ih]
      by_cases hother : other = e.1
      · simp [hother, hkey]
      · simp [hother]

@[simp] theorem find?_mapValues {μ : Type} (f : ν → μ) (m : OrderedMap κ ν) (key : κ) :
    (m.mapValues f).find? key = (m.find? key).map f := by
  unfold find? mapValues
  simp only
  induction m.entries with
  | nil => rfl
  | cons e rest ih =>
    rw [List.map_cons, lookup_cons_eq, lookup_cons_eq]
    split
    · rfl
    · exact ih

variable [KeyOrder κ]

/-- A lookup finds exactly the entries. -/
theorem find?_eq_some_iff {m : OrderedMap κ ν} {key : κ} {value : ν} :
    m.find? key = some value ↔ (key, value) ∈ m.entries := by
  unfold find?
  have hascending := m.ascending
  revert hascending
  induction m.entries with
  | nil => simp
  | cons e rest ih =>
    intro hascending
    rcases List.pairwise_cons.1 hascending with ⟨hhead, htail⟩
    rw [lookup_cons_eq, List.mem_cons]
    by_cases hkey : key = e.1
    · have hnot : (key, value) ∉ rest := by
        intro hmem
        have hlt : e.1 < key := hhead _ hmem
        exact KeyOrder.irrefl key (hkey ▸ hlt)
      simp only [hkey, if_true, Option.some.injEq, Prod.ext_iff]
      rw [hkey] at hnot
      simp [hnot, eq_comm]
    · have hpair : (key, value) ≠ e := by
        intro h
        exact hkey (congrArg Prod.fst h)
      simp only [hkey, if_false, hpair, false_or]
      exact ih htail

/-- A map is what its lookups say. -/
theorem ext_find? {m m' : OrderedMap κ ν} (h : ∀ key, m.find? key = m'.find? key) : m = m' := by
  have hmem : ∀ e, e ∈ m.entries ↔ e ∈ m'.entries := by
    rintro ⟨key, value⟩
    rw [← find?_eq_some_iff, ← find?_eq_some_iff, h key]
  have hnodup : ∀ n : OrderedMap κ ν, n.entries.Nodup := fun n => .of_map Prod.fst n.keys_nodup
  have hperm : m.entries.Perm m'.entries :=
    (List.perm_ext_iff_of_nodup (hnodup m) (hnodup m')).2 hmem
  -- both list the same entries in the same order
  have hentries : m.entries = m'.entries := by
    refine hperm.eq_of_pairwise ?_ m.ascending m'.ascending
    intro a b _ _ hab hba
    exact absurd (KeyOrder.trans _ _ _ hab hba) (KeyOrder.irrefl a.1)
  cases m
  cases m'
  simpa using hentries

theorem mem_keys_iff {m : OrderedMap κ ν} {key : κ} :
    key ∈ m.keys ↔ ∃ value, m.find? key = some value := by
  simp [keys, find?_eq_some_iff]

theorem contains_iff {m : OrderedMap κ ν} {key : κ} : m.contains key = true ↔ key ∈ m.keys := by
  rw [contains, Option.isSome_iff_exists, mem_keys_iff]

theorem mem_values_iff {m : OrderedMap κ ν} {value : ν} :
    value ∈ m.values ↔ ∃ key, m.find? key = some value := by
  simp [values, find?_eq_some_iff]

/-- Values that tell their keys tell them as they are listed. -/
theorem map_values_eq_keys {m : OrderedMap κ ν} {f : ν → κ}
    (hf : ∀ key value, m.find? key = some value → f value = key) : m.values.map f = m.keys := by
  unfold values keys
  rw [List.map_map]
  apply List.map_congr_left
  intro entry hentry
  exact hf entry.1 entry.2 (find?_eq_some_iff.2 hentry)

/-- A value that tells its key is the only one that tells it. -/
theorem filter_values_eq_singleton {m : OrderedMap κ ν} {f : ν → κ}
    (hf : ∀ key value, m.find? key = some value → f value = key) {key : κ} {value : ν}
    (h : m.find? key = some value) : (m.values.filter fun v => f v = key) = [value] := by
  have hnodup : m.values.Nodup := .of_map f (map_values_eq_keys hf ▸ keys_nodup m)
  have hsame : ∀ v ∈ m.values.filter fun v => f v = key, v = value := by
    intro v hv
    rcases List.mem_filter.1 hv with ⟨hmem, hkey⟩
    rcases mem_values_iff.1 hmem with ⟨other, hother⟩
    obtain rfl : other = key := (hf other v hother).symm.trans (of_decide_eq_true hkey)
    rw [h] at hother
    exact (Option.some.inj hother).symm
  have hmem : value ∈ m.values.filter fun v => f v = key :=
    List.mem_filter.2 ⟨mem_values_iff.2 ⟨key, h⟩, by simp [hf key value h]⟩
  match hlist : m.values.filter fun v => f v = key with
  | [] => simp [hlist] at hmem
  | [v] => rw [hsame v (by simp [hlist])]
  | v :: u :: rest =>
    have hpair := hnodup.filter fun v => f v = key
    rw [hlist] at hpair
    have heq : v = u := (hsame v (by simp [hlist])).trans (hsame u (by simp [hlist])).symm
    simp [heq] at hpair

end Find

/-! ## Insertion -/

section Insert

variable [DecidableLT κ] [DecidableEq κ] [KeyOrder κ]

theorem lookup_insertEntry (key other : κ) (value : ν) (l : List (κ × ν)) :
    (insertEntry key value l).lookup other =
      if other = key then some value else l.lookup other := by
  induction l with
  | nil => simp [insertEntry, lookup_cons_eq]
  | cons e rest ih =>
    unfold insertEntry
    split
    · rw [lookup_cons_eq]
    · rename_i hnlt
      split
      · rename_i hgt
        rw [lookup_cons_eq, ih, lookup_cons_eq]
        by_cases hother : other = e.1
        · have hne : e.1 ≠ key := by
            intro h
            exact KeyOrder.irrefl key (h ▸ hgt)
          simp [hother, hne]
        · simp [hother]
      · rename_i hngt
        have hkey : key = e.1 := KeyOrder.connected _ _ hnlt hngt
        rw [lookup_cons_eq, lookup_cons_eq, ← hkey]
        by_cases hother : other = key <;> simp [hother]

/-- Insertion binds one key and leaves all others alone. -/
@[simp] theorem find?_insert (m : OrderedMap κ ν) (key other : κ) (value : ν) :
    (m.insert key value).find? other = if other = key then some value else m.find? other :=
  lookup_insertEntry key other value m.entries

/-- A function is applied to the value that is inserted as to all others. -/
theorem mapValues_insert {μ : Type} (f : ν → μ) (m : OrderedMap κ ν) (key : κ) (value : ν) :
    (m.insert key value).mapValues f = (m.mapValues f).insert key (f value) := by
  apply ext_find?
  intro other
  rw [find?_mapValues, find?_insert, find?_insert, find?_mapValues]
  split
  · rfl
  · rfl

/-- What holds of the bindings there are and of one more holds of all. -/
theorem forall_find?_insert {P : κ → ν → Prop} {m : OrderedMap κ ν} {key : κ} {value : ν}
    (hm : ∀ k v, m.find? k = some v → P k v) (hvalue : P key value) :
    ∀ k v, (m.insert key value).find? k = some v → P k v := by
  intro k v h
  rw [find?_insert] at h
  split at h
  · rename_i hkey
    rw [hkey, ← Option.some.inj h]
    exact hvalue
  · exact hm k v h

/-- A key that is bound stays bound to its value. -/
@[simp] theorem find?_insertIfNew (m : OrderedMap κ ν) (key other : κ) (value : ν) :
    (m.insertIfNew key value).find? other =
      (m.find? other).or (if other = key then some value else none) := by
  unfold insertIfNew contains
  cases hkey : m.find? key with
  | none =>
    by_cases hother : other = key <;> simp [hother, hkey]
  | some old =>
    by_cases hother : other = key <;> simp [hother, hkey]

/-- Of the entries added to a map, those count whose keys are new. -/
theorem find?_foldl_insertIfNew (l : List (κ × ν)) (m : OrderedMap κ ν) (key : κ) :
    (l.foldl (fun m e => m.insertIfNew e.1 e.2) m).find? key =
      (m.find? key).or (l.lookup key) := by
  induction l generalizing m with
  | nil => simp
  | cons e rest ih =>
    rw [List.foldl_cons, ih, find?_insertIfNew, lookup_cons_eq, Option.or_assoc]
    by_cases hkey : key = e.1 <;> simp [hkey]

/-- Of entries added to a map, the last one of a key counts. -/
theorem find?_foldl_insert {β : Type} (f : β → κ) (g : β → ν) (l : List β) (m : OrderedMap κ ν) (key : κ) :
    (l.foldl (fun m b => m.insert (f b) (g b)) m).find? key =
      ((l.reverse.find? fun b => f b = key).map g).or (m.find? key) := by
  induction l generalizing m with
  | nil => simp
  | cons b rest ih =>
    rw [List.foldl_cons, ih, find?_insert, List.reverse_cons, List.find?_append]
    by_cases hkey : f b = key
    · cases rest.reverse.find? fun b => f b = key <;> simp [hkey]
    · simp [hkey, Ne.symm hkey]

/-- Of values added to a map under keys that they tell, the last one of a key counts. -/
theorem find?_foldl_insert_tell (f : ν → κ) (l : List ν) (m : OrderedMap κ ν) (key : κ) :
    (l.foldl (fun m value => m.insert (f value) value) m).find? key =
      (l.reverse.find? fun value => f value = key).or (m.find? key) := by
  rw [find?_foldl_insert f (fun value => value), Option.map_id']

/-- Values of different keys are all kept. -/
theorem perm_values_foldl_insert {f : ν → κ} {l : List ν} (h : (l.map f).Nodup) :
    (l.foldl (fun m value => m.insert (f value) value) empty).values.Perm l ∧
      (l.foldl (fun m value => m.insert (f value) value) empty).values.map f =
        (l.foldl (fun m value => m.insert (f value) value) empty).keys := by
  have hreverse : (l.reverse.map f).Nodup := by rwa [List.map_reverse, List.nodup_reverse]
  have hfind : ∀ key value, (l.foldl (fun m value => m.insert (f value) value) empty).find? key =
      some value ↔ value ∈ l ∧ f value = key := by
    intro key value
    rw [find?_foldl_insert_tell, find?_empty, Option.or_none, find?_eq_some_iff_of_nodup hreverse,
      List.mem_reverse]
  have hkeys := map_values_eq_keys (f := f) fun key value hfound => ((hfind key value).1 hfound).2
  refine ⟨(List.perm_ext_iff_of_nodup (.of_map f (hkeys ▸ keys_nodup _)) (.of_map f h)).2 ?_, hkeys⟩
  intro value
  simp [mem_values_iff, hfind]

end Insert

end ObjectRelational.OrderedMap

namespace ObjectRelational.OrderedSet

variable {κ : Type} [LT κ] [DecidableLT κ] [DecidableEq κ] [KeyOrder κ]

theorem find?_foldl_insert (l : List κ) (s : OrderedSet κ) (a : κ) :
    (l.foldl (fun s a => OrderedMap.insert s a ()) s).find? a =
      if a ∈ l then some () else OrderedMap.find? s a := by
  induction l generalizing s with
  | nil => simp
  | cons b rest ih =>
    rw [List.foldl_cons, ih, OrderedMap.find?_insert]
    by_cases hrest : a ∈ rest <;> by_cases hb : a = b <;> simp [hrest, hb]

/-- A set lists the elements of the list that it was made of. -/
@[simp] theorem mem_toList_ofList {l : List κ} {a : κ} : a ∈ (ofList l).toList ↔ a ∈ l := by
  unfold toList ofList
  rw [OrderedMap.mem_keys_iff, find?_foldl_insert]
  by_cases h : a ∈ l <;> simp [h]

/-- A set is what its members are, in whatever order they were added. -/
theorem ofList_congr {l l' : List κ} (h : ∀ a, a ∈ l ↔ a ∈ l') : ofList l = ofList l' := by
  apply OrderedMap.ext_find?
  intro a
  unfold ofList
  rw [find?_foldl_insert, find?_foldl_insert]
  simp only [h a]

end ObjectRelational.OrderedSet
