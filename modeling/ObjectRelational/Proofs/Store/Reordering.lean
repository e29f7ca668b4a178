import Mathlib.Algebra.Ring.Nat
import Mathlib.Data.List.Nodup
import Mathlib.Logic.Equiv.Basic
import ObjectRelational.Proofs.Recorded
import ObjectRelational.Source.Database

/-!
# Runs over a list in another order

A list is gone through twice, in two orders, and each item adds a block of elements. The second run does
for each item what the first one has done for it, when it finds what the item depends on.

* `exists_index_of_perm`: a permutation of a list moves positions.
* `inFront`, `offset`, `block`: the databases in front of one, how many elements they add, and which ones
  the database itself adds. `exists_moves_of_perm`: a permutation of databases moves their blocks.
* `Recorded.foldlM_sideBySide`: two runs over one list.
* `Recorded.Frames`: each item changes its own part of the state. `Recorded.foldlM_of_perm`: when one run
  goes through, so does the other one, and they record the same usages.
-/

namespace ObjectRelational

variable {α σ σ' : Type}

/-! ## Positions -/

/-- Moves what is behind the first position. -/
def succPerm (π : Equiv.Perm Nat) : Equiv.Perm Nat where
  toFun
    | 0 => 0
    | i + 1 => π i + 1
  invFun
    | 0 => 0
    | i + 1 => π.symm i + 1
  left_inv i := by cases i <;> simp
  right_inv i := by cases i <;> simp

/-- A permutation of a list moves its positions. -/
theorem exists_index_of_perm {l l' : List α} (h : l'.Perm l) :
    ∃ π : Equiv.Perm Nat, ∀ i, l'[π i]? = l[i]? := by
  induction h with
  | nil => exact ⟨.refl _, fun _ => rfl⟩
  | cons a _ ih =>
    obtain ⟨π, hπ⟩ := ih
    refine ⟨succPerm π, fun i => ?_⟩
    cases i with
    | zero => rfl
    | succ i => simpa [succPerm] using hπ i
  | swap a b rest =>
    refine ⟨.swap 0 1, fun i => ?_⟩
    rcases i with _ | _ | i
    · rfl
    · rfl
    · rw [Equiv.swap_apply_of_ne_of_ne (by simp) (by simp)]
      rfl
  | trans _ _ ih₁ ih₂ =>
    obtain ⟨π₁, hπ₁⟩ := ih₁
    obtain ⟨π₂, hπ₂⟩ := ih₂
    exact ⟨π₂.trans π₁, fun i => (hπ₁ (π₂ i)).trans (hπ₂ i)⟩

/-! ## Blocks -/

/-- The databases that stand in front of one, which is told by its name. -/
def inFront (sources : List Source.Database) (d : Source.Database) : List Source.Database :=
  sources.takeWhile fun e => e.name.value ≠ d.name.value

/-- How many elements of a kind stand in front of those of a database. -/
def offset (size : Source.Database → Nat) (sources : List Source.Database) (d : Source.Database) : Nat :=
  ((inFront sources d).map size).sum

/-- The names of the databases are distinct. -/
def DistinctNames (sources : List Source.Database) : Prop :=
  (sources.map (·.name.value)).Nodup

theorem DistinctNames.nodup {sources : List Source.Database} (h : DistinctNames sources) :
    sources.Nodup := List.Nodup.of_map _ h

theorem DistinctNames.of_perm {sources sources' : List Source.Database} (h : DistinctNames sources)
    (hperm : sources'.Perm sources) : DistinctNames sources' := (hperm.map _).nodup_iff.2 h

theorem inFront_append {pre post : List Source.Database} {d : Source.Database}
    (h : DistinctNames (pre ++ d :: post)) : inFront (pre ++ d :: post) d = pre := by
  have hfront : ∀ e ∈ pre, e.name.value ≠ d.name.value := by
    intro e he hsame
    simp only [DistinctNames, List.map_append, List.map_cons, List.nodup_append] at h
    exact h.2.2 _ (List.mem_map_of_mem he) _ List.mem_cons_self hsame
  unfold inFront
  rw [List.takeWhile_append_of_pos (by simpa using hfront)]
  simp

theorem offset_append {size : Source.Database → Nat} {pre post : List Source.Database}
    {d : Source.Database} (h : DistinctNames (pre ++ d :: post)) :
    offset size (pre ++ d :: post) d = (pre.map size).sum := by
  rw [offset, inFront_append h]

/-- The blocks of elements that two databases add do not overlap. -/
theorem offset_add_le_or (size : Source.Database → Nat) {sources : List Source.Database}
    (h : DistinctNames sources) {d e : Source.Database} (hd : d ∈ sources) (he : e ∈ sources)
    (hne : e ≠ d) :
    offset size sources e + size e ≤ offset size sources d ∨
      offset size sources d + size d ≤ offset size sources e := by
  obtain ⟨pre, post, rfl⟩ := List.append_of_mem hd
  rw [offset_append h]
  rcases List.mem_append.1 he with he | he
  · obtain ⟨first, second, rfl⟩ := List.append_of_mem he
    rw [List.append_assoc, List.cons_append] at h ⊢
    rw [offset_append h]
    left
    simp only [List.map_append, List.map_cons, List.sum_append, List.sum_cons]
    omega
  · obtain ⟨first, second, rfl⟩ := List.append_of_mem ((List.mem_cons.1 he).resolve_left hne)
    have hsplit : pre ++ d :: (first ++ e :: second) = (pre ++ d :: first) ++ e :: second := by simp
    rw [hsplit] at h ⊢
    rw [offset_append h]
    right
    simp only [List.map_append, List.map_cons, List.sum_append, List.sum_cons]
    omega

/-- The elements that one database has in a list of those of all of them. -/
def block {β : Type} (size : Source.Database → Nat) (sources : List Source.Database)
    (d : Source.Database) (l : List β) : List β :=
  (l.drop (offset size sources d)).take (size d)

section Blocks

variable {β γ : Type} {size : Source.Database → Nat} {sources sources' : List Source.Database}
  {d e : Source.Database}

theorem getElem?_block {l : List β} {k : Nat} (hk : k < size d) :
    (block size sources d l)[k]? = l[offset size sources d + k]? := by
  rw [block, List.getElem?_take_of_lt hk, List.getElem?_drop]

theorem block_append_self {l added : List β} (hl : l.length = offset size sources d)
    (hadded : added.length = size d) : block size sources d (l ++ added) = added := by
  rw [block, ← hl, List.drop_left, ← hadded, List.take_length]

theorem block_append {l added : List β} (hle : offset size sources d ≤ l.length)
    (hfits : l.length + added.length ≤ offset size sources d + size d) :
    block size sources d (l ++ added) = block size sources d l ++ added := by
  unfold block
  rw [List.drop_append_of_le_length hle, List.take_append, List.length_drop,
    List.take_of_length_le (l := added) (by omega)]

theorem block_append_of_ne (h : DistinctNames sources) (hd : d ∈ sources) (he : e ∈ sources)
    (hne : e ≠ d) {l added : List β} (hle : offset size sources d ≤ l.length)
    (hfits : l.length + added.length ≤ offset size sources d + size d) :
    block size sources e (l ++ added) = block size sources e l := by
  unfold block
  rcases offset_add_le_or size h hd he hne with hbefore | hbehind
  · rw [List.drop_append_of_le_length (by omega), List.take_append_of_le_length]
    rw [List.length_drop]
    omega
  · rw [List.drop_eq_nil_of_le (by rw [List.length_append]; omega),
      List.drop_eq_nil_of_le (by omega)]

theorem getElem?_block_of_le (l : List β) {i : Nat} (hi : size d ≤ i) :
    (block size sources d l)[i]? = none := by
  refine List.getElem?_eq_none ?_
  rw [block, List.length_take]
  omega

theorem block_modify_self (f : β → β) (l : List β) (k : Nat) :
    block size sources d (l.modify (offset size sources d + k) f) =
      (block size sources d l).modify k f := by
  refine List.ext_getElem? fun i => ?_
  rw [List.getElem?_modify]
  by_cases hi : i < size d
  · simp [getElem?_block hi, List.getElem?_modify]
  · rw [getElem?_block_of_le _ (Nat.le_of_not_lt hi), getElem?_block_of_le _ (Nat.le_of_not_lt hi)]
    rfl

theorem block_modify_of_ne (h : DistinctNames sources) (hd : d ∈ sources) (he : e ∈ sources)
    (hne : e ≠ d) (f : β → β) (l : List β) {k : Nat} (hk : k < size d) :
    block size sources e (l.modify (offset size sources d + k) f) = block size sources e l := by
  refine List.ext_getElem? fun i => ?_
  by_cases hi : i < size e
  · have hapart : offset size sources d + k ≠ offset size sources e + i := by
      have := offset_add_le_or size h hd he hne
      omega
    simp [getElem?_block hi, hapart]
  · rw [getElem?_block_of_le _ (Nat.le_of_not_lt hi), getElem?_block_of_le _ (Nat.le_of_not_lt hi)]

/-- Every position belongs to a database. -/
theorem exists_block (h : DistinctNames sources) {i : Nat} (hi : i < (sources.map size).sum) :
    ∃ d ∈ sources, ∃ k < size d, i = offset size sources d + k := by
  -- along the databases, as long as the position is behind those in front
  have hfollow : ∀ post pre, sources = pre ++ post → (pre.map size).sum ≤ i →
      ∃ d ∈ sources, ∃ k < size d, i = offset size sources d + k := by
    intro post
    induction post with
    | nil =>
      intro pre hsplit hle
      rw [List.append_nil] at hsplit
      rw [hsplit] at hi
      omega
    | cons d post ih =>
      intro pre hsplit hle
      by_cases hlt : i < (pre.map size).sum + size d
      · refine ⟨d, by simp [hsplit], i - (pre.map size).sum, by omega, ?_⟩
        rw [hsplit, offset_append (hsplit ▸ h)]
        omega
      · refine ih (pre ++ [d]) (by simp [hsplit]) ?_
        simp only [List.map_append, List.map_cons, List.map_nil, List.sum_append, List.sum_cons,
          List.sum_nil]
        omega
  exact hfollow sources [] rfl (Nat.zero_le _)

/-- A permutation of positions moves the blocks of elements that the databases add. -/
def Moves (size : Source.Database → Nat) (sources sources' : List Source.Database)
    (π : Equiv.Perm Nat) : Prop :=
  ∀ d ∈ sources, ∀ k < size d, π (offset size sources d + k) = offset size sources' d + k

/-- Lists agree at the positions of a block of theirs that agrees. -/
theorem Moves.getElem?_of_block {π : Equiv.Perm Nat} (hmoves : Moves size sources sources' π)
    (hd : d ∈ sources) {f : β → γ} {l : List β} {l' : List γ}
    (hblock : block size sources' d l' = (block size sources d l).map f) {k : Nat} (hk : k < size d) :
    l'[π (offset size sources d + k)]? = l[offset size sources d + k]?.map f := by
  rw [hmoves d hd k hk, ← getElem?_block hk, hblock, List.getElem?_map, getElem?_block hk]

/-- Lists whose blocks agree agree at all positions. -/
theorem Moves.getElem?_eq {π : Equiv.Perm Nat} (hmoves : Moves size sources sources' π)
    (h : DistinctNames sources) (hperm : sources'.Perm sources) {f : β → γ} {l : List β} {l' : List γ}
    (hl : l.length = (sources.map size).sum) (hl' : l'.length = (sources'.map size).sum)
    (hblocks : ∀ d ∈ sources, block size sources' d l' = (block size sources d l).map f) (i : Nat) :
    l'[π i]? = l[i]?.map f := by
  by_cases hi : i < (sources.map size).sum
  · obtain ⟨d, hd, k, hk, rfl⟩ := exists_block h hi
    exact hmoves.getElem?_of_block hd (hblocks d hd) hk
  · -- a position behind all blocks is moved behind all blocks
    have hout : ¬ π i < (sources'.map size).sum := by
      intro hlt
      obtain ⟨d, hd, k, hk, hsame⟩ := exists_block (h.of_perm hperm) hlt
      have hd := hperm.subset hd
      rw [← hmoves d hd k hk, EmbeddingLike.apply_eq_iff_eq] at hsame
      apply hi
      obtain ⟨pre, post, rfl⟩ := List.append_of_mem hd
      rw [hsame, offset_append h]
      simp only [List.map_append, List.map_cons, List.sum_append, List.sum_cons]
      omega
    rw [List.getElem?_eq_none (by omega), List.getElem?_eq_none (by omega), Option.map_none]

end Blocks

/-- The elements that a database adds stand behind those of the databases in front of it. -/
theorem getElem?_flatMap_blocks {size : Source.Database → Nat} {sources : List Source.Database}
    (h : DistinctNames sources) {d : Source.Database} (hd : d ∈ sources) {k : Nat} (hk : k < size d) :
    (sources.flatMap fun d => (List.range (size d)).map fun k => (d, k))[offset size sources d + k]? =
      some (d, k) := by
  obtain ⟨pre, post, rfl⟩ := List.append_of_mem hd
  have hlength : (pre.flatMap fun d => (List.range (size d)).map fun k => (d, k)).length =
      offset size (pre ++ d :: post) d := by
    unfold offset
    rw [inFront_append h, List.length_flatMap]
    simp
  rw [List.flatMap_append, List.flatMap_cons, List.getElem?_append_right (by omega), hlength,
    Nat.add_sub_cancel_left, List.getElem?_append_left (by simpa using hk)]
  simp [hk]

theorem nodup_flatMap_blocks {size : Source.Database → Nat} {sources : List Source.Database}
    (h : sources.Nodup) :
    (sources.flatMap fun d => (List.range (size d)).map fun k => (d, k)).Nodup := by
  refine List.nodup_flatMap.2 ⟨fun d _ => ?_, h.imp fun hne => ?_⟩
  · exact List.nodup_range.map fun _ _ hsame => (Prod.mk.inj hsame).2
  · intro x hx hy
    obtain ⟨_, -, rfl⟩ := List.mem_map.1 hx
    obtain ⟨_, -, hsame⟩ := List.mem_map.1 hy
    exact hne (Prod.mk.inj hsame).1.symm

theorem exists_moves_of_perm (size : Source.Database → Nat) {sources sources' : List Source.Database}
    (h : DistinctNames sources) (hperm : sources'.Perm sources) :
    ∃ π, Moves size sources sources' π := by
  obtain ⟨π, hπ⟩ := exists_index_of_perm
    (hperm.flatMap_right fun d => (List.range (size d)).map fun k => (d, k))
  refine ⟨π, fun d hd k hk => ?_⟩
  have hmoved := hπ (offset size sources d + k)
  rw [getElem?_flatMap_blocks h hd hk] at hmoved
  have hblock := getElem?_flatMap_blocks (h.of_perm hperm) (hperm.mem_iff.2 hd) hk
  obtain ⟨hlt, hfound⟩ := List.getElem?_eq_some_iff.1 hmoved
  obtain ⟨hlt', hfound'⟩ := List.getElem?_eq_some_iff.1 hblock
  exact (nodup_flatMap_blocks (h.of_perm hperm).nodup).getElem_inj_iff.1 (hfound.trans hfound'.symm)

/-! ## Runs -/

namespace Recorded

theorem result_foldlM_append {step : σ → α → Recorded σ} {pre post : List α} {s t : σ} :
    ((pre ++ post).foldlM step s).result = .ok t ↔
      ∃ u, (pre.foldlM step s).result = .ok u ∧ (post.foldlM step u).result = .ok t := by
  rw [List.foldlM_append, result_bind_eq_ok_iff]

theorem result_foldlM_cons {step : σ → α → Recorded σ} {a : α} {post : List α} {s t : σ} :
    ((a :: post).foldlM step s).result = .ok t ↔
      ∃ u, (step s a).result = .ok u ∧ (post.foldlM step u).result = .ok t := by
  rw [List.foldlM_cons, result_bind_eq_ok_iff]

/-- A run that goes through records what each of its items records. -/
theorem exists_usages {step : σ → α → Recorded σ} {l : List α} (hnodup : l.Nodup) {s final : σ}
    (h : (l.foldlM step s).result = .ok final) :
    ∃ usages : α → List Usage, (l.foldlM step s).usages = l.flatMap usages ∧
      ∀ pre a post t, l = pre ++ a :: post → (pre.foldlM step s).result = .ok t →
        (step t a).usages = usages a := by
  classical
  induction l generalizing s with
  | nil => exact ⟨fun _ => [], rfl, by simp⟩
  | cons first rest ih =>
    obtain ⟨next, hnext, hrest⟩ := result_foldlM_cons.1 h
    obtain ⟨hnew, hnodup⟩ := List.nodup_cons.1 hnodup
    obtain ⟨usages, hall, heach⟩ := ih hnodup hrest
    refine ⟨Function.update usages first (step s first).usages, ?_, ?_⟩
    · rw [List.foldlM_cons, usages_bind hnext, hall, List.flatMap_cons, Function.update_self]
      congr 1
      refine List.flatMap_congr fun a ha => ?_
      rw [Function.update_of_ne (by rintro rfl; exact hnew ha)]
    · rintro (_ | ⟨b, pre⟩) a post t hsplit hpre
      · obtain ⟨rfl, rfl⟩ := List.cons.inj hsplit
        obtain rfl := Except.ok.inj hpre
        rw [Function.update_self]
      · obtain ⟨rfl, rfl⟩ := List.cons.inj hsplit
        obtain ⟨u, hu, hpre⟩ := result_foldlM_cons.1 hpre
        obtain rfl := Except.ok.inj (hnext.symm.trans hu)
        rw [heach pre a post t rfl hpre,
          Function.update_of_ne (by rintro rfl; simp at hnew)]

/-- Two runs over one list go side by side, when each item keeps them related. -/
theorem foldlM_sideBySide {step : σ → α → Recorded σ} {step' : σ' → α → Recorded σ'} {l : List α}
    {R : List α → σ → σ' → Prop}
    (hstep : ∀ pre a post t t' u, l = pre ++ a :: post → R pre t t' →
      (step t a).result = .ok u →
      ∃ u', step' t' a = ⟨(step t a).usages, .ok u'⟩ ∧ R (pre ++ [a]) u u')
    {s final : σ} {s' : σ'} (hstart : R [] s s') (h : (l.foldlM step s).result = .ok final) :
    ∃ final', l.foldlM step' s' = ⟨(l.foldlM step s).usages, .ok final'⟩ ∧ R l final final' := by
  have hfollow : ∀ post pre t t', l = pre ++ post → R pre t t' →
      (post.foldlM step t).result = .ok final →
      ∃ final', post.foldlM step' t' = ⟨(post.foldlM step t).usages, .ok final'⟩ ∧
        R l final final' := by
    intro post
    induction post with
    | nil =>
      intro pre t t' hsplit hrelated h
      obtain rfl := Except.ok.inj h
      rw [List.append_nil] at hsplit
      exact ⟨t', rfl, hsplit ▸ hrelated⟩
    | cons a post ih =>
      intro pre t t' hsplit hrelated h
      obtain ⟨u, hu, hrest⟩ := result_foldlM_cons.1 h
      obtain ⟨u', hu', hrelated⟩ := hstep pre a post t t' u hsplit hrelated hu
      obtain ⟨final', hfinal', hrelated⟩ := ih (pre ++ [a]) u u' (by simp [hsplit]) hrelated hrest
      refine ⟨final', ext_result ?_ ?_, hrelated⟩
      · rw [List.foldlM_cons, List.foldlM_cons, usages_bind (a := u') (by rw [hu']), hu', hfinal',
          usages_bind hu]
      · exact result_foldlM_cons.2 ⟨u', by rw [hu'], by rw [hfinal']⟩
  exact hfollow l [] s s' rfl hstart h

/-! ## Runs in another order -/

section Parts

variable {P P' : Type} {step : σ → α → Recorded σ} {step' : σ' → α → Recorded σ'} {l l' : List α}
  {part : σ → α → P} {part' : σ' → α → P'} {move : P → P'} {Inv : List α → σ → Prop}
  {Inv' : List α → σ' → Prop}

/-- A step keeps an invariant and changes the part of its own item only. -/
def Frames (step : σ → α → Recorded σ) (l : List α) (part : σ → α → P) (Inv : List α → σ → Prop) :
    Prop :=
  ∀ pre a post t u, l = pre ++ a :: post → Inv pre t → (step t a).result = .ok u →
    Inv (pre ++ [a]) u ∧ ∀ b ∈ l, b ≠ a → part u b = part t b

/-- A stretch of a run changes the parts of its own items only. -/
theorem Frames.run (hframes : Frames step l part Inv) {pre mid post : List α} {t u : σ}
    (hsplit : l = pre ++ (mid ++ post)) (hinv : Inv pre t)
    (h : (mid.foldlM step t).result = .ok u) :
    Inv (pre ++ mid) u ∧ ∀ b ∈ l, b ∉ mid → part u b = part t b := by
  induction mid generalizing pre t with
  | nil =>
    obtain rfl := Except.ok.inj h
    exact ⟨by simpa using hinv, fun _ _ _ => rfl⟩
  | cons a mid ih =>
    obtain ⟨next, hnext, hrest⟩ := result_foldlM_cons.1 h
    obtain ⟨hinv, hsame⟩ := hframes pre a (mid ++ post) t next hsplit hinv hnext
    obtain ⟨hfinal, hrest⟩ := ih (by simp [hsplit]) hinv hrest
    refine ⟨by simpa using hfinal, fun b hb hnot => ?_⟩
    simp only [List.mem_cons, not_or] at hnot
    rw [hrest b hb hnot.2, hsame b hb hnot.1]

/-- What every step keeps holds at the end. -/
theorem Frames.all (hframes : Frames step l part Inv) {s t : σ} (hinv : Inv [] s)
    (h : (l.foldlM step s).result = .ok t) : Inv l t := by
  have hsplit : l = [] ++ (l ++ []) := by simp
  exact (hframes.run hsplit hinv h).1

/-- Around the step of an item: the parts of the items behind it are still those of the start, and the parts
of the items in front of it are already those of the end. -/
theorem Frames.around (hframes : Frames step l part Inv) (hnodup : l.Nodup) {s final : σ}
    (hinv : Inv [] s) (h : (l.foldlM step s).result = .ok final) {pre post : List α} {a : α}
    (hsplit : l = pre ++ a :: post) :
    ∃ t u, (pre.foldlM step s).result = .ok t ∧ (step t a).result = .ok u ∧ Inv pre t ∧
      (∀ b ∈ l, b ∉ pre → part t b = part s b) ∧ (∀ b ∈ pre, part t b = part final b) ∧
      part final a = part u a := by
  obtain ⟨t, ht, hrest⟩ := result_foldlM_append.1 (hsplit ▸ h)
  obtain ⟨u, hu, hrest⟩ := result_foldlM_cons.1 hrest
  have hsplitFront : l = [] ++ (pre ++ a :: post) := hsplit
  have hsplitBack : l = (pre ++ [a]) ++ (post ++ []) := by simp [hsplit]
  obtain ⟨hbefore, hstart⟩ := hframes.run hsplitFront hinv ht
  obtain ⟨hnext, hsame⟩ := hframes pre a post t u hsplit hbefore hu
  obtain ⟨-, hend⟩ := hframes.run hsplitBack hnext hrest
  have hmem : ∀ b, b ∈ l ↔ b ∈ pre ∨ b = a ∨ b ∈ post := by simp [hsplit]
  rw [hsplit, List.nodup_append, List.nodup_cons] at hnodup
  obtain ⟨-, ⟨hpost, -⟩, hapart⟩ := hnodup
  refine ⟨t, u, ht, hu, hbefore, hstart, fun b hb => ?_, hend a ((hmem a).2 (.inr (.inl rfl))) hpost⟩
  have hne : b ≠ a := hapart b hb a List.mem_cons_self
  have hback : b ∉ post := fun hpost => hapart b hb b (List.mem_cons_of_mem _ hpost) rfl
  have hbl : b ∈ l := (hmem b).2 (.inl hb)
  rw [hend b hbl hback, hsame b hbl hne]

/-- When only the parts of one item change, and to the same, parts that agree still agree. -/
theorem agree_of_others {Q : α → Prop} {t u : σ} {t' u' : σ'} {a : α}
    (hothers : ∀ b ∈ l, b ≠ a → part u b = part t b)
    (hothers' : ∀ b ∈ l, b ≠ a → part' u' b = part' t' b) (hown : part' u' a = move (part u a))
    (hagree : ∀ b ∈ l, b = a ∨ Q b → part' t' b = move (part t b)) :
    ∀ b ∈ l, b = a ∨ Q b → part' u' b = move (part u b) := by
  intro b hb hsame
  by_cases hne : b = a
  · exact hne ▸ hown
  · rw [hothers b hb hne, hothers' b hb hne, hagree b hb hsame]

/-- A step does the same to the part of its item in two orders, as long as the parts agree of those items
that are in front of it in both orders or in none. -/
def StepsAlike (step : σ → α → Recorded σ) (step' : σ' → α → Recorded σ') (l l' : List α)
    (part : σ → α → P) (part' : σ' → α → P') (move : P → P') (Inv : List α → σ → Prop)
    (Inv' : List α → σ' → Prop) : Prop :=
  ∀ pre a post pre' post' t u t', l = pre ++ a :: post → l' = pre' ++ a :: post' →
    Inv pre t → Inv' pre' t' → (step t a).result = .ok u →
    (∀ b ∈ l, b = a ∨ (b ∈ pre ↔ b ∈ pre') → part' t' b = move (part t b)) →
    ∃ u', step' t' a = ⟨(step t a).usages, .ok u'⟩ ∧ Inv' (pre' ++ [a]) u' ∧
      part' u' a = move (part u a) ∧ ∀ b ∈ l, b ≠ a → part' u' b = part' t' b

/-- The second run after some of its items: these have the parts of the end of the first run, and the other
ones those of its start. -/
structure Midway (part : σ → α → P) (part' : σ' → α → P') (move : P → P') (Inv' : List α → σ' → Prop)
    (l : List α) (s final : σ) (front : List α) (t' : σ') : Prop where
  inv : Inv' front t'
  done : ∀ b ∈ l, b ∈ front → part' t' b = move (part final b)
  waiting : ∀ b ∈ l, b ∉ front → part' t' b = move (part s b)

variable {s final : σ} {t' : σ'} {pre' post' : List α} {a : α}

/-- One step of the second run does for its item what the first run has done. -/
theorem Midway.advance (hmidway : Midway part part' move Inv' l s final pre' t')
    (hframes : Frames step l part Inv) (hstep : StepsAlike step step' l l' part part' move Inv Inv')
    (hnodup : l.Nodup) (hperm : l'.Perm l) (hinv : Inv [] s)
    (h : (l.foldlM step s).result = .ok final) (hsplit' : l' = pre' ++ a :: post') :
    ∃ pre post t u', l = pre ++ a :: post ∧ (pre.foldlM step s).result = .ok t ∧
      step' t' a = ⟨(step t a).usages, .ok u'⟩ ∧
      Midway part part' move Inv' l s final (pre' ++ [a]) u' := by
  obtain ⟨pre, post, hsplit⟩ := List.append_of_mem (hperm.subset (hsplit' ▸ by simp : a ∈ l'))
  obtain ⟨t, u, ht, hu, hbefore, hstart, hdone, hlast⟩ := hframes.around hnodup hinv h hsplit
  have hfresh : a ∉ pre := by
    intro ha
    rw [hsplit, List.nodup_append] at hnodup
    exact hnodup.2.2 a ha a List.mem_cons_self rfl
  have hfresh' : a ∉ pre' := by
    intro ha
    have hnodup' := hperm.nodup_iff.2 hnodup
    rw [hsplit', List.nodup_append] at hnodup'
    exact hnodup'.2.2 a ha a List.mem_cons_self rfl
  -- an item that is in front in both orders is done, and one that is in front in none is not
  have hagree : ∀ b ∈ l, b = a ∨ (b ∈ pre ↔ b ∈ pre') → part' t' b = move (part t b) := by
    rintro b hb (rfl | hiff)
    · rw [hmidway.waiting b hb hfresh', hstart b hb hfresh]
    · by_cases hpre : b ∈ pre
      · rw [hmidway.done b hb (hiff.1 hpre), hdone b hpre]
      · rw [hmidway.waiting b hb fun hb' => hpre (hiff.2 hb'), hstart b hb hpre]
  obtain ⟨u', hu', hinv', hown, hothers⟩ :=
    hstep pre a post pre' post' t u t' hsplit hsplit' hbefore hmidway.inv hu hagree
  refine ⟨pre, post, t, u', hsplit, ht, hu', hinv', fun b hb hb' => ?_, fun b hb hnot => ?_⟩
  · by_cases hba : b = a
    · rw [hba, hown, hlast]
    · have hfront : b ∈ pre' := by simpa [hba] using hb'
      rw [hothers b hb hba, hmidway.done b hb hfront]
  · simp only [List.mem_append, List.mem_singleton, not_or] at hnot
    rw [hothers b hb hnot.2, hmidway.waiting b hb hnot.1]

/-- A run goes through in another order too, when its steps do the same in both orders. At the end, all
parts agree, and the runs have recorded the same usages. -/
theorem foldlM_of_perm {s' : σ'} (hframes : Frames step l part Inv)
    (hstep : StepsAlike step step' l l' part part' move Inv Inv') (hnodup : l.Nodup)
    (hperm : l'.Perm l) (hinv : Inv [] s) (hinv' : Inv' [] s')
    (hparts : ∀ a ∈ l, part' s' a = move (part s a)) (h : (l.foldlM step s).result = .ok final) :
    ∃ final', (l'.foldlM step' s').result = .ok final' ∧
      (l'.foldlM step' s').usages.Perm (l.foldlM step s).usages ∧ Inv l final ∧ Inv' l' final' ∧
      ∀ a ∈ l, part' final' a = move (part final a) := by
  obtain ⟨usages, hall, heach⟩ := exists_usages hnodup h
  have hfollow : ∀ post' pre' t', l' = pre' ++ post' →
      Midway part part' move Inv' l s final pre' t' →
      ∃ final', post'.foldlM step' t' = ⟨post'.flatMap usages, .ok final'⟩ ∧
        Midway part part' move Inv' l s final l' final' := by
    intro post'
    induction post' with
    | nil =>
      intro pre' t' hsplit' hmidway
      rw [List.append_nil] at hsplit'
      exact ⟨t', rfl, hsplit' ▸ hmidway⟩
    | cons a post' ih =>
      intro pre' t' hsplit' hmidway
      obtain ⟨pre, post, t, u', hsplit, ht, hu', hnext⟩ :=
        hmidway.advance hframes hstep hnodup hperm hinv h hsplit'
      obtain ⟨final', hfinal', hmidway⟩ := ih (pre' ++ [a]) u' (by simp [hsplit']) hnext
      refine ⟨final', ext_result ?_ ?_, hmidway⟩
      · rw [List.foldlM_cons, usages_bind (a := u') (by rw [hu']), hu', hfinal',
          heach pre a post t hsplit ht, List.flatMap_cons]
      · exact result_foldlM_cons.2 ⟨u', by rw [hu'], by rw [hfinal']⟩
  have hstart : Midway part part' move Inv' l s final [] s' :=
    ⟨hinv', fun _ _ hmem => by simp at hmem, fun b hb _ => hparts b hb⟩
  obtain ⟨final', hfinal', hmidway⟩ := hfollow l' [] s' rfl hstart
  refine ⟨final', by rw [hfinal'], ?_, hframes.all hinv h, hmidway.inv, fun a ha =>
    hmidway.done a ha (hperm.mem_iff.2 ha)⟩
  rw [hfinal', hall]
  exact hperm.flatMap_right usages

end Parts

end Recorded

end ObjectRelational
